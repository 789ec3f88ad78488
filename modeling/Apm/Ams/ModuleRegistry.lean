import Apm.Ams.ModuleStore

/-!
What the manager of modules is for: a registry of modules, each with the state it was last given,
and for each target the modules that it shows.

`Registry.perform` says what a call does to the registry, without files. The manager's directory
holds a registry (`Refines`) where each module's files are read as what the registry has.

## Main results

* `Refines.loadModule`: a module is loaded as the registry has it;
* `rebuildOverlays_spec`: the overlays are rebuilt from the modules of the registry.
-/

namespace Apm.Ams.Store

open Apm.Fs Apm.Config Apm.Lib Apm.Lib.Effect
open Apm.Ams.FromZip (Step addDir workDirs addState stateBlocked infoName stateName free
  installScript hasScript)
open Apm.Lib.FileTree (Entry)

/-! ### The registry -/

structure Mod where
  info : ModuleInfo
  state : ModuleState
  /-- What it lays over each target. -/
  overlay : ByteString → Option Dir

structure Registry where
  mods : ByteString → Option Mod := fun _ => none
  /-- The modules that each target was last made to show, by what they lay over it. -/
  shown : ByteString → Option (ByteString → Option Dir) := fun _ => none

abbrev Reply := Except ByteString ByteString

/-- Why a target's overlay is not made. -/
def Rebuild.failure (b : Rebuild) (target : ByteString) : Option ByteString :=
  match b.applies target with
  | .failed err => some (if err.isEmpty then
      str "Overlay apply failed for " ++ b.effectiveMountPoint target else err)
  | _ => none

def Rebuild.error (b : Rebuild) : Option ByteString :=
  b.runtimeErr.or (overlayTargets.findSome? b.failure)

/-- A target is made to show the enabled modules. -/
def Rebuild.Reaches (b : Rebuild) (target : ByteString) : Prop :=
  b.runtimeErr = none ∧ target ∈ overlayTargets ∧ b.applies target = .applied

instance decidableReaches (b : Rebuild) (target : ByteString) : Decidable (b.Reaches target) :=
  inferInstanceAs (Decidable (_ ∧ _ ∧ _))

namespace Registry

/-- What the modules lay over a target now. -/
def view (r : Registry) (target name : ByteString) : Option Dir :=
  (r.mods name).bind fun mod =>
    if !hidden name && mod.state.enabled && mod.info.mount then mod.overlay target else none

def set (r : Registry) (name : ByteString) (mod : Option Mod) : Registry :=
  { r with mods := Function.update r.mods name mod }

def rebuild (r : Registry) (b : Rebuild) : Registry :=
  { r with
    shown := fun target => if b.Reaches target then some (r.view target) else r.shown target }

/-- Rebuild the overlays, and keep with the module why that fails. -/
def applyOrRecord (r : Registry) (h : Host) (name : ByteString) (mod : Mod) :
    Except ByteString Unit × Registry :=
  match (h.rebuild 0).error with
  | none => (.ok (), r.rebuild (h.rebuild 0))
  | some err => (.error err, (r.rebuild (h.rebuild 0)).set name (some
      { mod with
        state.lastError := err
        state.updatedAt := makeIsoTimestamp (h.zip.now .record) }))

/-- Give a module a state and rebuild the overlays. -/
def give (r : Registry) (h : Host) (name : ByteString) (mod : Mod) :
    Except ByteString Unit × Registry :=
  let mod := { mod with state.updatedAt := makeIsoTimestamp (h.zip.now .state) }
  (r.set name (some mod)).applyOrRecord h name mod

variable (h : Host)

def enable (name : ByteString) (r : Registry) : Reply × Registry :=
  match r.mods name with
  | none => (.error (str "Module not found: " ++ name), r)
  | some mod =>
      if mod.state.enabled then (.ok (str "Module already enabled"), r)
      else
        let (done, r) := r.give h name
          { mod with
            state.enabled := true
            state.lastError := [] }
        (done.map fun _ => str "Module enabled", r)

def disable (name : ByteString) (r : Registry) : Reply × Registry :=
  match r.mods name with
  | none => (.error (str "Module not found: " ++ name), r)
  | some mod =>
      if mod.state.enabled then
        let (done, r) := r.give h name { mod with state.enabled := false }
        (done.map fun _ => str "Module disabled", r)
      else (.ok (str "Module already disabled"), r)

def remove (name : ByteString) (r : Registry) : Reply × Registry :=
  match r.mods name with
  | none => (.error (str "Module not found: " ++ name), r)
  | some _ =>
      (.ok (str "Module removed"), ((r.disable h name).2.set name none).rebuild (h.rebuild 1))

/-- Why a module's script does not run, or fails. -/
def scriptError (name : ByteString) (t : Option Tree) : Option ByteString :=
  let script := joinPath (modulePath name) installScript
  if !hasScript h.zip name t then some (str "Required script missing: " ++ script)
  else if h.zip.works .script then none
  else some (str "Script failed: " ++ script ++ str " (rc=" ++ h.zip.message .script ++ str ")")

def install (zipPath : ByteString) (now counter : Nat) (r : Registry) :
    Reply × Registry :=
  match FromZip.unpack h.zip zipPath (joinPath getCacheDir (tempDirName now counter)) with
  | .error err => (.error err, r)
  | .ok (info, arrives) =>
      match if info.runInstallSh then scriptError h info.name arrives else none with
      | some scriptFailure =>
          (.error (rollbackMessage scriptFailure true (h.zip.works .removeLog)
            ((h.rebuild 0).error.getD [])), (r.set info.name none).rebuild (h.rebuild 0))
      | none =>
          let (done, r) := r.give h info.name {
            info
            state := { enabled := true, installedAt := makeIsoTimestamp h.zip.installedAt }
            overlay := fun target => arrives.bind (layer · target) }
          (done.map fun _ => str "Installed module '" ++ info.name ++ str "'", r)

def perform (r : Registry) : Op → Reply × Registry
  | .install zipPath now counter => r.install h zipPath now counter
  | .enable name => r.enable h name.1
  | .disable name => r.disable h name.1
  | .remove name => r.remove h name.1
  | .applyEnabled =>
      ((h.rebuild 0).error.elim (.ok []) .error, r.rebuild (h.rebuild 0))

end Registry

/-! ### The directory that holds it -/

/-- What is written of a state is read back. -/
structure ReadsBack (state : ModuleState) : Prop where
  installed : Unquoted state.installedAt
  dated : state.installedAt ≠ []
  updated : Unquoted state.updatedAt
  error : Unquoted state.lastError

/-- A module's directory. -/
structure Holds (t : Tree) (mod : Mod) : Prop where
  info : ∃ text, t.find infoName = some (.file text) ∧ parseModuleInfo text = .ok mod.info
  state : t.find stateName.1 = some (.file (stateText mod.state))
  readsBack : ReadsBack mod.state
  overlay : ∀ target, layer t target = mod.overlay target

/-- The layers of a target, one for each module in the order of their names. -/
structure Shows (layers : List Layer) (view : ByteString → Option Dir) : Prop where
  sorted : (layers.map Layer.name).Pairwise (· < ·)
  mem_iff : ∀ l, l ∈ layers ↔ view l.name = some l.files

structure Refines (m : Manager) (r : Registry) : Prop where
  modules : ∀ name, Option.Rel Holds (m.modules.lookup name) (r.mods name)
  shown : ∀ target, Option.Rel Shows (m.shown target) (r.shown target)

/-- The steps at a module's directory that are not scripts. -/
def Filing : Step → Prop
  | .clear | .rename | .makeDir _ | .state | .rollback | .record => True
  | _ => False

/-- A module comes with a name of its own, and without a state that is not a file. -/
def FitZip (info : ModuleInfo) (arrives : Option Tree) : Prop :=
  PlainName info.name ∧
    ∀ t, arrives = some t → ∀ e, t.find stateName.1 = some e → ∃ text, e = .file text

/-- The names that the manager reads. -/
def managed : List ByteString := [infoName, stateName.1, str "overlay"]

/-- In a call the files are read and written, and scripts leave alone what the manager reads. -/
structure Calm (h : Host) : Prop where
  works : ∀ step, Filing step → h.zip.works step = true
  reads : ∀ path, h.reads path = true
  leads : ∀ path, h.zip.leads path = none
  scripts : ∀ step t, step = .script ∨ step = .lifecycle →
    ∃ t', h.zip.left step (some t) = some t' ∧ ∀ name ∈ managed, t'.find name = t.find name
  errors : ∀ k err, (h.rebuild k).error = some err → Unquoted err
  fit : ∀ zipPath tempDir info arrives,
    FromZip.unpack h.zip zipPath tempDir = .ok (info, arrives) → FitZip info arrives

/-- A call ends as what is done to the registry. -/
def Agrees {α : Type} (act : Act Manager ByteString α) (m : Manager)
    (out : Except ByteString α × Registry) : Prop :=
  wp act (fun a m' => out.1 = .ok a ∧ Refines m' out.2)
    (fun e m' => out.1 = .error e ∧ Refines m' out.2) m

/-! ### A module's directory -/

section Directory

variable {t t' : Tree} {mod : Mod}

theorem find_writeFile {name : FromZip.Name} (text : ByteString)
    (file : ∀ e, t.find name.1 = some e → ∃ text, e = .file text) :
    (t.writeFile name text).find name.1 = some (.file text) ∧
      ∀ other, name.1 ≠ other → (t.writeFile name text).find other = t.find other := by
  have put : t.writeFile name text = ⟨t.1.put name.1 (.file text), t.2.put name.2 trivial⟩ := by
    unfold Tree.writeFile
    cases found : t.find name.1 with
    | none => rfl
    | some e =>
      obtain ⟨old, rfl⟩ := file e found
      rfl
  rw [put]
  constructor
  · exact FileTree.Dir.find_put_self
  · intro other differs
    exact FileTree.Dir.find_put_of_ne differs

theorem find_makeDirs {name : FromZip.Name} {path : List FromZip.Name} {other : ByteString}
    (differs : name.1 ≠ other) : (t.makeDirs (name :: path)).find other = t.find other := by
  change (t.1.makeDirs (name.1 :: path.map (·.1))).find other = t.1.find other
  unfold FileTree.Dir.makeDirs
  split
  · exact FileTree.Dir.find_put_of_ne differs
  · exact FileTree.Dir.find_put_of_ne differs
  · rfl

theorem layer_congr (same : t'.find (str "overlay") = t.find (str "overlay"))
    (target : ByteString) : layer t' target = layer t target := by
  unfold layer
  rw [same]

theorem Holds.congr (holds : Holds t mod) (same : ∀ name ∈ managed, t'.find name = t.find name) :
    Holds t' mod where
  info := by
    rw [same infoName (by decide)]
    exact holds.info
  state := by
    rw [same stateName.1 (by decide)]
    exact holds.state
  readsBack := holds.readsBack
  overlay target := (layer_congr (same _ (by decide)) target).trans (holds.overlay target)

/-- A module whose state can be written. -/
structure Ready (t : Tree) (info : ModuleInfo) (overlay : ByteString → Option Dir) : Prop where
  info : ∃ text, t.find infoName = some (.file text) ∧ parseModuleInfo text = .ok info
  file : ∀ e, t.find stateName.1 = some e → ∃ text, e = .file text
  overlay : ∀ target, layer t target = overlay target

theorem Holds.ready (holds : Holds t mod) : Ready t mod.info mod.overlay where
  info := holds.info
  file _ found := ⟨_, (Option.some.inj (holds.state.symm.trans found)).symm⟩
  overlay := holds.overlay

theorem Ready.congr {info : ModuleInfo} {overlay : ByteString → Option Dir}
    (ready : Ready t info overlay) (same : ∀ name ∈ managed, t'.find name = t.find name) :
    Ready t' info overlay where
  info := by
    rw [same infoName (by decide)]
    exact ready.info
  file := by
    rw [same stateName.1 (by decide)]
    exact ready.file
  overlay target := (layer_congr (same _ (by decide)) target).trans (ready.overlay target)

theorem Ready.unblocked {info : ModuleInfo} {overlay : ByteString → Option Dir}
    (ready : Ready t info overlay) : stateBlocked (some t) = false := by
  change isDir (t.find stateName.1) = false
  cases found : t.find stateName.1 with
  | none => rfl
  | some e =>
    obtain ⟨text, rfl⟩ := ready.file e found
    rfl

theorem Ready.addState {info : ModuleInfo} {overlay : ByteString → Option Dir}
    (ready : Ready t info overlay) {state : ModuleState} (back : ReadsBack state) :
    Holds (t.writeFile stateName (stateText state)) ⟨info, state, overlay⟩ := by
  obtain ⟨written, others⟩ := find_writeFile (stateText state) ready.file
  exact {
    info := by
      rw [others infoName (by decide)]
      exact ready.info
    state := written
    readsBack := back
    overlay := fun target =>
      (layer_congr (others _ (by decide)) target).trans (ready.overlay target) }

end Directory

/-! ### Reading the directory -/

section Reading

variable {h : Host} {m : Manager} {r : Registry} {name : ByteString}

@[simp] theorem set_lookup (t : Option Tree) :
    (m.set name t).modules.lookup name = t := by
  cases t with
  | none => exact AList.lookup_erase _ _
  | some t => exact AList.lookup_insert _

theorem set_lookup_of_ne {other : ByteString} (differs : other ≠ name) (t : Option Tree) :
    (m.set name t).modules.lookup other = m.modules.lookup other := by
  cases t with
  | none => exact AList.lookup_erase_ne differs
  | some t => exact AList.lookup_insert_ne differs

@[simp] theorem set_shown (t : Option Tree) : (m.set name t).shown = m.shown := by
  cases t <;> rfl

/-- The directory holds the registry, but for one module. -/
structure Apart (name : ByteString) (m : Manager) (r : Registry) : Prop where
  modules : ∀ other, other ≠ name → Option.Rel Holds (m.modules.lookup other) (r.mods other)
  shown : ∀ target, Option.Rel Shows (m.shown target) (r.shown target)

theorem Refines.apart (refines : Refines m r) : Apart name m r :=
  ⟨fun other _ => refines.modules other, refines.shown⟩

theorem Apart.change (apart : Apart name m r) (t : Option Tree) : Apart name (m.set name t) r where
  modules other differs := by
    rw [set_lookup_of_ne differs]
    exact apart.modules other differs
  shown target := by
    rw [set_shown]
    exact apart.shown target

theorem Apart.set (apart : Apart name m r) {t : Option Tree} {mod : Option Mod}
    (holds : Option.Rel Holds t mod) : Refines (m.set name t) (r.set name mod) where
  modules other := by
    by_cases same : other = name
    · subst same
      rw [set_lookup]
      simpa [Registry.set] using holds
    · rw [set_lookup_of_ne same]
      simpa [Registry.set, same] using apart.modules other same
  shown target := by
    rw [set_shown]
    exact apart.shown target

/-- A state that is written leaves the module in it. -/
theorem Apart.set_state (apart : Apart name m r) {t : Tree} {info : ModuleInfo}
    {overlay : ByteString → Option Dir} (ready : Ready t info overlay) {state : ModuleState}
    (back : ReadsBack state) :
    Refines (m.set name (some (t.writeFile stateName (stateText state))))
      (r.set name (some ⟨info, state, overlay⟩)) :=
  apart.set (.some (ready.addState back))

/-- A module's directory may be left with what the manager reads. -/
theorem Refines.set_same (refines : Refines m r) {t : Option Tree}
    (holds : Option.Rel Holds t (r.mods name)) : Refines (m.set name t) r := by
  have := (refines.apart : Apart name m r).set holds
  rwa [Registry.set, Function.update_eq_self] at this

theorem Refines.lookup (refines : Refines m r) {mod : Mod} (found : r.mods name = some mod) :
    ∃ t, m.modules.lookup name = some t ∧ Holds t mod := by
  have related := refines.modules name
  rw [found] at related
  cases there : m.modules.lookup name with
  | none =>
    rw [there] at related
    cases related
  | some t =>
    rw [there] at related
    cases related with
    | some holds => exact ⟨t, rfl, holds⟩

theorem Refines.absent (refines : Refines m r) (absent : r.mods name = none) :
    m.modules.lookup name = none := by
  have related := refines.modules name
  rw [absent] at related
  cases there : m.modules.lookup name with
  | none => rfl
  | some t =>
    rw [there] at related
    cases related

theorem loadModule_holds (reads : ∀ path, h.reads path = true) {t : Tree} {mod : Mod}
    (holds : Holds t mod) : loadModule h name (some t) = .ok (mod.info, mod.state) := by
  obtain ⟨text, file, accepted⟩ := holds.info
  have back := holds.readsBack
  have read := readStateFile_unquoted back.installed back.updated back.error
  have dated : mod.state.installedAt.isEmpty = false := by simpa using back.dated
  unfold loadModule readModuleState loadFile
  simp only [file, holds.state, reads, if_true, bind, Except.bind, accepted, read, dated,
    Bool.false_eq_true, if_false]

theorem Refines.loadModule (refines : Refines m r) (reads : ∀ path, h.reads path = true) :
    Store.loadModule h name (m.modules.lookup name) =
      (r.mods name).elim (.error (str "Module not found: " ++ name))
        fun mod => .ok (mod.info, mod.state) := by
  cases found : r.mods name with
  | none =>
    rw [refines.absent found]
    rfl
  | some mod =>
    obtain ⟨t, there, holds⟩ := refines.lookup found
    rw [there]
    exact loadModule_holds reads holds

theorem mem_visible {names : List ByteString} :
    name ∈ visible names ↔ name ∈ names ∧ !hidden name := by
  unfold visible
  rw [List.mem_insertionSort, List.mem_filter]

theorem visible_sorted {names : List ByteString} (distinct : names.Nodup) :
    (visible names).Pairwise (· < ·) := by
  have sorted : (visible names).Pairwise (· ≤ ·) := List.pairwise_insertionSort _ _
  have nodup : (visible names).Nodup :=
    (List.perm_insertionSort _ _).nodup_iff.mpr (distinct.filter _)
  exact (sorted.and nodup).imp fun ⟨le, ne⟩ => (List.le_iff_lt_or_eq.mp le).resolve_right ne

end Reading

/-! ### Rebuilding -/

section Rebuilding

variable {h : Host} {m : Manager} {r : Registry} {name target : ByteString}

theorem layerOf_eq (refines : Refines m r) (reads : ∀ path, h.reads path = true) :
    layerOf h m target name = (r.mods name).bind fun mod =>
      if mod.state.enabled && mod.info.mount then (mod.overlay target).map (Layer.mk name)
      else none := by
  unfold layerOf
  rw [refines.loadModule reads]
  cases found : r.mods name with
  | none => rfl
  | some mod =>
    obtain ⟨t, there, holds⟩ := refines.lookup found
    simp only [there, Option.elim, Option.bind_some, holds.overlay target]
    cases mod.state.enabled <;> cases mod.info.mount <;> rfl

theorem layerOf_name {l : Layer} (some : layerOf h m target name = some l) : l.name = name := by
  unfold layerOf at some
  split at some
  · cases some
  · split at some
    · cases some
    · obtain ⟨files, -, rfl⟩ := Option.map_eq_some_iff.mp some
      rfl

theorem Refines.layers (refines : Refines m r) (reads : ∀ path, h.reads path = true)
    (target : ByteString) : Shows (buildOverlayStacks h m target) (r.view target) := by
  constructor
  · rw [List.pairwise_map]
    refine List.pairwise_filterMap.mpr ?_
    refine (visible_sorted m.modules.nodupKeys).imp ?_
    rintro a b less l first l' second
    rwa [layerOf_name first, layerOf_name second]
  · intro l
    unfold buildOverlayStacks
    rw [List.mem_filterMap]
    constructor
    · rintro ⟨name, mem, some⟩
      obtain rfl := layerOf_name some
      rw [layerOf_eq refines reads] at some
      obtain ⟨mod, found, some⟩ := Option.bind_eq_some_iff.mp some
      have plain := (mem_visible.mp mem).2
      split at some
      · rename_i on
        obtain ⟨files, overlay, eq⟩ := Option.map_eq_some_iff.mp some
        have same : l.files = files := (congrArg Layer.files eq).symm
        simp_all [Registry.view]
      · cases some
    · intro shown
      obtain ⟨mod, found, shown⟩ := Option.bind_eq_some_iff.mp shown
      split at shown
      · rename_i on
        obtain ⟨t, there, -⟩ := refines.lookup found
        have mem : l.name ∈ m.modules.keys :=
          AList.lookup_isSome.mp (by rw [there]; rfl)
        refine ⟨l.name, mem_visible.mpr ⟨mem, by simp_all⟩, ?_⟩
        rw [layerOf_eq refines reads, found]
        simp_all
      · cases shown

/-- One target's turn. -/
theorem applyTarget_spec (b : Rebuild) (layers : ByteString → List Layer) (target : ByteString)
    (firstErr : Option ByteString) (m : Manager) :
    wp (applyTarget b layers target firstErr)
      (fun err m' => err = firstErr.or (b.failure target) ∧ m'.modules = m.modules ∧
        m'.shown = if b.applies target = .applied then
          Function.update m.shown target (some (layers target)) else m.shown)
      (fun _ _ => False) m := by
  unfold applyTarget Rebuild.failure
  cases b.applies target with
  | applied => exact ⟨(Option.or_none).symm, rfl, by rw [if_pos rfl]⟩
  | deferred => exact ⟨(Option.or_none).symm, rfl, by rw [if_neg (fun eq => by cases eq)]⟩
  | failed err => exact ⟨rfl, rfl, by rw [if_neg (fun eq => by cases eq)]⟩

/-- Every target's turn: those that are applied show the layers, and the first error is kept. -/
theorem applyTargets_spec (b : Rebuild) (layers : ByteString → List Layer) (m : Manager) :
    wp (forEach (applyTarget b layers) overlayTargets none)
      (fun err m' => err = overlayTargets.findSome? b.failure ∧ m'.modules = m.modules ∧
        ∀ target, m'.shown target = if target ∈ overlayTargets ∧ b.applies target = .applied then
          some (layers target) else m.shown target)
      (fun _ _ => False) m := by
  apply wp_forEach_done (fun done err (m' : Manager) => err = done.findSome? b.failure ∧
    m'.modules = m.modules ∧ ∀ target, m'.shown target =
      if target ∈ done ∧ b.applies target = .applied then some (layers target) else m.shown target)
  · rintro done x rest - err s ⟨rfl, modules, shown⟩
    apply wp_mono (applyTarget_spec b layers x _ s) ?_ fun _ _ h => h
    rintro _ s' ⟨rfl, modules', shown'⟩
    refine ⟨?_, modules'.trans modules, fun target => ?_⟩
    · rw [List.findSome?_append, List.findSome?_singleton]
    · rw [shown']
      by_cases same : target = x
      · subst same
        by_cases applied : b.applies target = .applied
        · simp [applied]
        · simp [applied, shown target]
      · by_cases applied : b.applies x = .applied
        · simp [applied, same, shown target]
        · simp [applied, same, shown target]
  · exact ⟨rfl, rfl, fun target => by simp⟩

theorem rebuildOverlays_spec (refines : Refines m r) (reads : ∀ path, h.reads path = true)
    (b : Rebuild) :
    wp (rebuildOverlays h b) (fun _ m' => b.error = none ∧ Refines m' (r.rebuild b))
      (fun err m' => b.error = some err ∧ Refines m' (r.rebuild b)) m := by
  unfold rebuildOverlays Rebuild.error
  cases runtime : b.runtimeErr with
  | some err =>
    have unreached : ∀ target, ¬ b.Reaches target := fun target reached => by
      rw [Rebuild.Reaches, runtime] at reached
      exact absurd reached.1 (by simp)
    refine ⟨rfl, refines.modules, fun target => ?_⟩
    simpa [Registry.rebuild, unreached] using refines.shown target
  | none =>
    refine wp_bind.mpr (wp_update.mpr (wp_bind.mpr ?_))
    apply wp_mono (applyTargets_spec b _ m) ?_ fun _ _ h => h.elim
    rintro _ m' ⟨rfl, modules, shown⟩
    have after : Refines m' (r.rebuild b) := by
      constructor
      · rw [modules]
        exact refines.modules
      · intro target
        rw [shown]
        by_cases applied : target ∈ overlayTargets ∧ b.applies target = .applied
        · rw [if_pos applied]
          simp only [Registry.rebuild, Rebuild.Reaches, runtime, applied, and_self, if_true]
          exact .some (refines.layers reads target)
        · rw [if_neg applied]
          simp only [Registry.rebuild, Rebuild.Reaches, runtime, true_and, applied, if_false]
          exact refines.shown target
    cases overlayTargets.findSome? b.failure with
    | none => exact ⟨rfl, after⟩
    | some err => exact ⟨rfl, after⟩

end Rebuilding

end Apm.Ams.Store
