import Apm.Ams.ModuleCalls
import Apm.Lib.Run

/-!
Runs of calls of the manager of modules, where the files are read and written and the scripts leave
alone what the manager reads. Scripts, and the mounts of the overlays, may still fail.

## Main results

* `run_refines`: a run answers what the registry does, and the directory holds the registry in the
  end;
* `listed_iff`: after a run the modules that are listed are the registry's, by name;
* `shows_enabled`: a target that every rebuild reaches always shows the modules that are enabled.
-/

namespace Apm.Ams.Store

open Apm.Fs Apm.Config Apm.Lib Apm.Lib.Effect
open Apm.Ams.FromZip (infoName)

/-! ### A run on a system -/

/-- A rebuild in which `/vendor` cannot be mounted and `/product` is not there yet. -/
def sampleRebuild : Rebuild where
  runtimeErr := none
  applies target :=
    if target = str "system" then .applied
    else if target = str "vendor" then .failed [] else .deferred
  effectiveMountPoint target := str "/" ++ target

/-- The overlay is in order. -/
theorem systemOverlay_ordered : (FileTree.Dir.dir (str "system") FileTree.Dir.empty
    FileTree.Dir.empty : Dir).Ordered FileName :=
  ⟨by decide, by decide, trivial, trivial⟩

/-- The module `m`, with a directory for `/system`. -/
def systemZip : Tree :=
  ⟨.file infoName (str "\x7b\"name\": \"m\"\x7d")
      (.dir (str "overlay") (.dir (str "system") .empty .empty) .empty),
    by decide, by decide, by decide, by decide, systemOverlay_ordered, trivial⟩

/-- A system on which everything works but what is told of the rebuild. -/
def sampleHost (b : Rebuild) : Host where
  zip := { FromZip.sampleHost (fun _ => false) with unzipped := systemZip }
  reads _ := true
  rebuild _ := b

def sampleInfo : ModuleInfo where
  name := str "m"
  version := []
  author := []
  description := []
  mount := true
  runPostFsData := false
  runService := false
  runInstallSh := false

theorem sampleInfo_read : parseModuleInfo (str "\x7b\"name\": \"m\"\x7d") = .ok sampleInfo := by
  decide +kernel

theorem sampleHost_unpacks {b : Rebuild} {zipPath tempDir : ByteString} {info : ModuleInfo}
    {arrives : Option Tree}
    (unpacked : FromZip.unpack (sampleHost b).zip zipPath tempDir = .ok (info, arrives)) :
    info = sampleInfo ∧ arrives = some systemZip := by
  have root : FromZip.findModuleRoot (sampleHost b).zip tempDir =
      ⟨tempDir, systemZip.1, some systemZip⟩ := by
    unfold FromZip.findModuleRoot
    exact if_pos rfl
  have read : FromZip.readModuleInfoFile (sampleHost b).zip
      ⟨tempDir, systemZip.1, some systemZip⟩ = .ok sampleInfo := sampleInfo_read
  have file : (sampleHost b).zip.zipIsFile = true := rfl
  have works : ∀ step, (sampleHost b).zip.works step = true := fun _ => rfl
  unfold FromZip.unpack FromZip.readZip at unpacked
  split at unpacked
  · cases unpacked
  · simp only [file, works, Bool.not_true, Bool.false_eq_true, if_false, root, read] at unpacked
    cases unpacked
    exact ⟨rfl, rfl⟩

theorem sampleHost_calm {b : Rebuild} (quiet : ∀ err, b.error = some err → Unquoted err) :
    Calm (sampleHost b) where
  works _ _ := rfl
  reads _ := rfl
  leads _ := rfl
  scripts _ t _ := ⟨t, rfl, fun _ _ => rfl⟩
  errors _ := quiet
  fit zipPath tempDir info arrives unpacked := by
    obtain ⟨rfl, rfl⟩ := sampleHost_unpacks unpacked
    refine ⟨by decide, ?_⟩
    intro t arrived e found
    cases arrived
    cases found

theorem sampleRebuild_quiet {err : ByteString} (failed : sampleRebuild.error = some err) :
    Unquoted err := by
  obtain rfl : err = str "Overlay apply failed for /vendor" := (Option.some.inj failed).symm
  decide

theorem sampleName_plain : PlainName (str "m") := by
  decide

def sampleName : ModuleName := ⟨str "m", sampleName_plain⟩

/-- The module `m` is installed, disabled, enabled and removed. -/
def sampleRun : List Event :=
  [⟨.install (str "m.zip") 0 0, sampleHost sampleRebuild⟩,
    ⟨.disable sampleName, sampleHost sampleRebuild⟩,
    ⟨.enable sampleName, sampleHost sampleRebuild⟩,
    ⟨.remove sampleName, sampleHost sampleRebuild⟩]

theorem sampleRun_host : ∀ event ∈ sampleRun, event.host = sampleHost sampleRebuild := by
  simp [sampleRun]

theorem sampleRun_calm : ∀ event ∈ sampleRun, Calm event.host := fun event mem =>
  sampleRun_host event mem ▸ sampleHost_calm fun _ => sampleRebuild_quiet

/-! ### Runs -/

section Runs

variable {h : Host} {m : Manager} {r : Registry} {events : List Event} {target : ByteString}

theorem perform_agrees (calm : Calm h) (refines : Refines m r) (op : Op) :
    Agrees (perform h op) m (r.perform h op) := by
  cases op with
  | install zipPath now counter => exact installFromZip_agrees calm refines zipPath now counter
  | enable name => exact enableModule_agrees calm refines name.1
  | disable name => exact disableModule_agrees calm refines name.1
  | remove name => exact removeModule_agrees calm refines name.1
  | applyEnabled =>
    apply wp_bind.mpr
    unfold Registry.perform
    apply wp_mono (rebuildOverlays_spec refines calm.reads (h.rebuild 0))
    · rintro _ m' ⟨none, rebuilt⟩
      rw [none]
      exact ⟨rfl, rebuilt⟩
    · rintro err m' ⟨failed, rebuilt⟩
      rw [failed]
      exact ⟨rfl, rebuilt⟩

theorem Agrees.exec {α : Type} {act : Act Manager ByteString α}
    {out : Except ByteString α × Registry} (agrees : Agrees act m out) :
    (Effect.exec act m).1 = out.1 ∧ Refines (Effect.exec act m).2 out.2 := by
  unfold Agrees wp at agrees
  rcases run : Effect.exec act m with ⟨_ | _, m'⟩
  · rw [run] at agrees
    exact ⟨agrees.1.symm, agrees.2⟩
  · rw [run] at agrees
    exact ⟨agrees.1.symm, agrees.2⟩

/-- What the calls answer. -/
def replies (m : Manager) : List Event → List Reply
  | [] => []
  | event :: events => (exec (perform event.host event.op) m).1 :: replies (step m event) events

def Registry.step (r : Registry) (event : Event) : Registry := (r.perform event.host event.op).2

def Registry.replies (r : Registry) : List Event → List Reply
  | [] => []
  | event :: events => (r.perform event.host event.op).1 :: (r.step event).replies events

theorem step_refines (refines : Refines m r) (event : Event) (calm : Calm event.host) :
    (exec (perform event.host event.op) m).1 = (r.perform event.host event.op).1 ∧
      Refines (step m event) (r.step event) :=
  (perform_agrees calm refines event.op).exec

theorem runs_refine (refines : Refines m r) (calm : ∀ event ∈ events, Calm event.host) :
    replies m events = r.replies events ∧
      Refines (Run.run step m events) (Run.run Registry.step r events) := by
  induction events generalizing m r with
  | nil => exact ⟨rfl, refines⟩
  | cons event events ih =>
    have calm := List.forall_mem_cons.mp calm
    obtain ⟨first, after⟩ := step_refines refines event calm.1
    obtain ⟨rest, last⟩ := ih after calm.2
    refine ⟨?_, last⟩
    rw [replies, Registry.replies, first, rest]

theorem refines_empty : Refines {} {} :=
  ⟨fun _ => .none, fun _ => .none⟩

/-- **The directory is the registry.** Where files are read and written and the scripts leave alone
what the manager reads, a run of calls answers what is done to the registry, and the directory of
modules holds it in the end: what was written of every module's state is read back, and each target
was last made to show the modules that the registry has there. Scripts and mounts may fail. -/
theorem run_refines (calm : ∀ event ∈ events, Calm event.host) (start : Refines m r) :
    replies m events = r.replies events ∧
      Refines (Run.run step m events) (Run.run Registry.step r events) :=
  runs_refine start calm

theorem sampleRun_replies : replies {} sampleRun =
    [.error (str "Overlay apply failed for /vendor"),
      .error (str "Overlay apply failed for /vendor"),
      .error (str "Overlay apply failed for /vendor"), .ok (str "Module removed")] := by
  decide +kernel

/-- Where `/vendor` cannot be mounted, each call but the last fails, and does what it is to do. -/
theorem run_refines_sample :
    Registry.replies {} sampleRun =
        [.error (str "Overlay apply failed for /vendor"),
          .error (str "Overlay apply failed for /vendor"),
          .error (str "Overlay apply failed for /vendor"), .ok (str "Module removed")] ∧
      Refines (Run.run step {} sampleRun) (Run.run Registry.step {} sampleRun) := by
  obtain ⟨same, refines⟩ := run_refines sampleRun_calm refines_empty
  exact ⟨same.symm.trans sampleRun_replies, refines⟩

/-! ### What is listed -/

theorem Refines.mem_visible (refines : Refines m r) (name : ByteString) :
    name ∈ visible m.modules.keys ↔ !hidden name ∧ (r.mods name).isSome := by
  have same : (m.modules.lookup name).isSome = (r.mods name).isSome := by
    cases found : r.mods name with
    | none =>
      rw [refines.absent found]
      rfl
    | some mod =>
      obtain ⟨t, there, -⟩ := refines.lookup found
      rw [there]
      rfl
  rw [Store.mem_visible, ← same, AList.lookup_isSome, and_comm]
  rfl

theorem Refines.listNames (refines : Refines m r) (reads : ∀ path, h.reads path = true)
    {names : List ByteString} (there : ∀ name ∈ names, (r.mods name).isSome) :
    (names.mapM fun name => do
        let (info, state) ← Store.loadModule h name (m.modules.lookup name)
        Except.ok (info, state, modulePath name)) =
      .ok (names.filterMap fun name =>
        (r.mods name).map fun mod => (mod.info, mod.state, modulePath name)) := by
  induction names with
  | nil => rfl
  | cons name names ih =>
    obtain ⟨first, rest⟩ := List.forall_mem_cons.mp there
    obtain ⟨mod, found⟩ := Option.isSome_iff_exists.mp first
    rw [List.mapM_cons, refines.loadModule reads, found, ih rest]
    simp [found, bind, Except.bind, pure, Except.pure]

/-- **What is listed.** After such a run the modules are listed: in the order of their names those
of the registry that are not hidden, each with the state that it was last given. -/
theorem listed_iff (calm : ∀ event ∈ events, Calm event.host)
    (reads : ∀ path, h.reads path = true) :
    ∃ names : List ByteString, names.Pairwise (· < ·) ∧
      (∀ name, name ∈ names ↔
        !hidden name ∧ ((Run.run Registry.step {} events).mods name).isSome) ∧
      listModules h (Run.run step {} events) = .ok (names.filterMap fun name =>
        ((Run.run Registry.step {} events).mods name).map fun mod =>
          (mod.info, mod.state, modulePath name)) := by
  obtain ⟨-, refines⟩ := runs_refine refines_empty calm
  refine ⟨visible (Run.run step {} events).modules.keys,
    visible_sorted (Run.run step {} events).modules.nodupKeys, refines.mem_visible, ?_⟩
  exact refines.listNames reads fun name mem => ((refines.mem_visible name).mp mem).2

theorem listed_iff_sample :
    ∃ names : List ByteString, names.Pairwise (· < ·) ∧
      (∀ name, name ∈ names ↔
        !hidden name ∧ ((Run.run Registry.step {} sampleRun).mods name).isSome) ∧
      listModules (sampleHost sampleRebuild) (Run.run step {} sampleRun) =
        .ok (names.filterMap fun name =>
          ((Run.run Registry.step {} sampleRun).mods name).map fun mod =>
            (mod.info, mod.state, modulePath name)) :=
  listed_iff sampleRun_calm fun _ => rfl

/-! ### What is shown -/

/-- A target shows what the modules lay over it now. -/
def Registry.Fresh (r : Registry) (target : ByteString) : Prop :=
  r.shown target = some (r.view target)

theorem fresh_rebuild (b : Rebuild) (reaches : b.Reaches target) : (r.rebuild b).Fresh target :=
  if_pos reaches

/-- An error that is written down with a module changes nothing that is shown. -/
theorem fresh_applyOrRecord {name : ByteString} {mod : Mod} (found : r.mods name = some mod)
    (reaches : (h.rebuild 0).Reaches target) : (r.applyOrRecord h name mod).2.Fresh target := by
  have rebuilt : (r.rebuild (h.rebuild 0)).Fresh target := fresh_rebuild _ reaches
  unfold Registry.applyOrRecord
  split
  · exact rebuilt
  · refine rebuilt.trans (congrArg some (funext fun other => ?_))
    by_cases same : other = name
    · subst same
      simp [Registry.view, Registry.set, Registry.rebuild, found]
    · simp [Registry.view, Registry.set, same]

theorem fresh_give {name : ByteString} (mod : Mod) (reaches : (h.rebuild 0).Reaches target) :
    (r.give h name mod).2.Fresh target :=
  fresh_applyOrRecord (Function.update_self ..) reaches

/-- A call leaves the registry as it is, or makes the targets show it that its rebuilds reach. -/
theorem step_fresh (r : Registry) {event : Event}
    (reaches : ∀ k, (event.host.rebuild k).Reaches target) :
    r.step event = r ∨ (r.step event).Fresh target := by
  obtain ⟨op, host⟩ := event
  unfold Registry.step Registry.perform
  cases op with
  | install zipPath now counter =>
    dsimp only
    unfold Registry.install
    split
    · exact .inl rfl
    · split
      · exact .inr (fresh_rebuild _ (reaches 0))
      · exact .inr (fresh_give _ (reaches 0))
  | enable name =>
    dsimp only
    unfold Registry.enable
    split
    · exact .inl rfl
    · split
      · exact .inl rfl
      · exact .inr (fresh_give _ (reaches 0))
  | disable name =>
    dsimp only
    unfold Registry.disable
    split
    · exact .inl rfl
    · split
      · exact .inr (fresh_give _ (reaches 0))
      · exact .inl rfl
  | remove name =>
    dsimp only
    unfold Registry.remove
    split
    · exact .inl rfl
    · exact .inr (fresh_rebuild _ (reaches 1))
  | applyEnabled => exact .inr (fresh_rebuild _ (reaches 0))

theorem fresh_step {event : Event} (fresh : r.Fresh target)
    (reaches : ∀ k, (event.host.rebuild k).Reaches target) : (r.step event).Fresh target := by
  rcases step_fresh r reaches with same | after
  · rw [same]
    exact fresh
  · exact after

/-- Layers are known by what they show. -/
theorem Shows.unique {layers layers' : List Layer} {view : ByteString → Option Dir}
    (shows : Shows layers view) (shows' : Shows layers' view) : layers = layers' := by
  have sorted := List.pairwise_map.mp shows.sorted
  have sorted' := List.pairwise_map.mp shows'.sorted
  have distinct : ∀ l l' : Layer, l.name < l'.name → l ≠ l' := by
    rintro l _ less rfl
    exact List.lt_irrefl _ less
  have same : layers.Perm layers' :=
    (List.perm_ext_iff_of_nodup (sorted.imp (distinct _ _)) (sorted'.imp (distinct _ _))).mpr
      fun l => (shows.mem_iff l).trans (shows'.mem_iff l).symm
  refine same.eq_of_pairwise (fun l l' _ _ less less' => ?_) sorted sorted'
  exact absurd (List.lt_trans less less') (List.lt_irrefl _)

theorem shows_of_fresh (refines : Refines m r) (fresh : r.Fresh target)
    (reads : ∀ path, h.reads path = true) :
    m.shown target = some (buildOverlayStacks h m target) := by
  have related := refines.shown target
  rw [fresh] at related
  cases shown : m.shown target with
  | none =>
    rw [shown] at related
    cases related
  | some layers =>
    rw [shown] at related
    cases related with
    | some shows => rw [shows.unique (refines.layers reads target)]

theorem always_fresh (refines : Refines m r) (fresh : r.Fresh target)
    (calm : ∀ event ∈ events, Calm event.host)
    (reaches : ∀ event ∈ events, ∀ k, (event.host.rebuild k).Reaches target) :
    Run.Always step (fun m' => ∃ r', Refines m' r' ∧ r'.Fresh target) m events := by
  induction events generalizing m r with
  | nil => exact ⟨r, refines, fresh⟩
  | cons event events ih =>
    have calm := List.forall_mem_cons.mp calm
    have reaches := List.forall_mem_cons.mp reaches
    refine ⟨⟨r, refines, fresh⟩, ?_⟩
    exact ih (step_refines refines event calm.1).2 (fresh_step fresh reaches.1) calm.2 reaches.2

/-- **What a target shows.** Once the overlays were rebuilt, and while every rebuild reaches a
target, the target shows in every state of a run just what the modules that are enabled then lay
over it: also where a call fails, for a script or for another target. -/
theorem shows_enabled {start : Host} (calm : Calm start)
    (reaches : (start.rebuild 0).Reaches target) (refines : Refines m r)
    (calms : ∀ event ∈ events, Calm event.host)
    (reached : ∀ event ∈ events, ∀ k, (event.host.rebuild k).Reaches target)
    (reads : ∀ path, h.reads path = true) :
    Run.Always step (fun m' => m'.shown target = some (buildOverlayStacks h m' target))
      (step m ⟨.applyEnabled, start⟩) events := by
  obtain ⟨-, started⟩ := step_refines refines ⟨.applyEnabled, start⟩ calm
  have fresh : (r.step ⟨.applyEnabled, start⟩).Fresh target := fresh_rebuild _ reaches
  refine (always_fresh started fresh calms reached).mono ?_
  rintro m' ⟨r', refines', fresh'⟩
  exact shows_of_fresh refines' fresh' reads

theorem sampleRebuild_reaches : sampleRebuild.Reaches (str "system") := by
  decide

theorem shows_enabled_sample :
    Run.Always step (fun m => m.shown (str "system") =
        some (buildOverlayStacks (sampleHost sampleRebuild) m (str "system")))
      (step {} ⟨.applyEnabled, sampleHost sampleRebuild⟩) sampleRun := by
  refine shows_enabled (sampleHost_calm fun _ => sampleRebuild_quiet) sampleRebuild_reaches
    refines_empty sampleRun_calm ?_ fun _ => rfl
  intro event mem k
  rw [sampleRun_host event mem]
  exact sampleRebuild_reaches

end Runs

end Apm.Ams.Store
