import Apm.Install.Confined
import Apm.Install.RootState
import Apm.Lib.Run

/-!
The status file against the root directories of the payloads.

Each call may meet failures at any of its steps. A run starts where every entry has a valid name
and the root that an install gives it, as in an empty store.

## Main results

* `store_agrees`: records and root directories agree after every call of a run whose turns install
  nothing over a record of the other flavour, undo what fails, and touch no other package's root.
* `other_flavour_orphaned`: the root of a package is left behind where the package is installed
  in its other flavour.
-/

namespace Apm.Install.RootState

open Apm.Repo Apm.Fs Apm.Config Apm.Lib.Effect Apm.Lib.Run Apm.Status

/-! ### Agreement -/

/-- The number of entries whose payload has its root there. -/
def trackers (db : InstalledDb) (path : ByteString) : Nat :=
  (db.entries.filter fun kv => kv.2.installRoot == path).length

/-- A root directory is there exactly when exactly one entry tracks it. -/
def Agrees (s : Store) : Prop := ∀ path, s.roots path = true ↔ trackers s.db path = 1

/-- Every entry has a valid name and the root that an install gives it. -/
def Filed (db : InstalledDb) : Prop :=
  ∀ name ip, db.lookup name = some ip → Security.validatePackageName name = none ∧
    ∃ rootPackage, ip.installRoot = installRootOf ip.termuxPackage rootPackage name

structure Sound (s : Store) : Prop where
  filed : Filed s.db
  agrees : Agrees s

/-- Some entry tracks the root. -/
def Tracked (db : InstalledDb) (path : ByteString) : Prop :=
  ∃ name ip, db.lookup name = some ip ∧ ip.installRoot = path

/-! ### Roots tell the packages apart -/

theorem installRootOf_split {name : ByteString}
    (named : Security.validatePackageName name = none) (termuxMode : Bool)
    (rootPackage : ByteString) :
    ∃ dir, (termuxMode = true ↔ dir = getTermuxInstalledDir) ∧
      installRootOf termuxMode rootPackage name = dir ++ chr '/' :: name := by
  have plain := plainName_of_valid named
  have below : ∀ dir : ByteString, PlainDir dir → joinPath dir name = dir ++ chr '/' :: name :=
    fun dir h => h.joinPath plain.nonempty plain.relative
  unfold installRootOf
  cases termuxMode with
  | true => exact ⟨getTermuxInstalledDir, by simp, below _ (by decide)⟩
  | false =>
    rw [if_neg nofun]
    split
    · exact ⟨getDependenciesDir, by decide, below _ (by decide)⟩
    · exact ⟨getCommandsDir, by decide, below _ (by decide)⟩

/-- Two packages have different roots, and so have the two flavours of one. -/
theorem installRootOf_inj {termuxMode termuxMode' : Bool} {rootPackage rootPackage' : ByteString}
    {name name' : ByteString} (named : Security.validatePackageName name = none)
    (named' : Security.validatePackageName name' = none)
    (same : installRootOf termuxMode rootPackage name =
      installRootOf termuxMode' rootPackage' name') : termuxMode = termuxMode' ∧ name = name' := by
  obtain ⟨dir, mode, root⟩ := installRootOf_split named termuxMode rootPackage
  obtain ⟨dir', mode', root'⟩ := installRootOf_split named' termuxMode' rootPackage'
  rw [root, root'] at same
  have dirs := congrArg parentOf same
  rw [parentOf_append (plainName_of_valid named).noSlash,
    parentOf_append (plainName_of_valid named').noSlash] at dirs
  subst dirs
  exact ⟨Bool.eq_iff_iff.mpr (mode.trans mode'.symm), by simpa using same⟩

section Tracking

variable {db : InstalledDb} {name path : ByteString} {ip : InstalledPackage}

theorem Filed.inj (filed : Filed db) {name' : ByteString} {ip' : InstalledPackage}
    (found : db.lookup name = some ip) (found' : db.lookup name' = some ip')
    (same : ip.installRoot = ip'.installRoot) : name = name' := by
  obtain ⟨named, rootPackage, root⟩ := filed name ip found
  obtain ⟨named', rootPackage', root'⟩ := filed name' ip' found'
  rw [root, root'] at same
  exact (installRootOf_inj named named' same).2

/-- No two entries have the same root. -/
theorem trackers_eq_one_iff (filed : Filed db) : trackers db path = 1 ↔ Tracked db path := by
  constructor
  · intro one
    obtain ⟨⟨name, ip⟩, single⟩ := List.length_eq_one_iff.mp one
    have mem : (⟨name, ip⟩ : Sigma fun _ => InstalledPackage) ∈
        db.entries.filter fun kv => kv.2.installRoot == path := single ▸ List.mem_singleton_self _
    obtain ⟨entry, root⟩ := List.mem_filter.mp mem
    exact ⟨name, ip, AList.mem_lookup_iff.mpr entry, by simpa using root⟩
  · rintro ⟨name, ip, found, root⟩
    have nodup : (db.entries.filter fun kv => kv.2.installRoot == path).Nodup :=
      (List.NodupKeys.nodup db.nodupKeys).filter _
    have single : (db.entries.filter fun kv => kv.2.installRoot == path).Perm [⟨name, ip⟩] := by
      apply (List.perm_ext_iff_of_nodup nodup (List.nodup_singleton _)).mpr
      rintro ⟨name', ip'⟩
      rw [List.mem_filter, List.mem_singleton]
      constructor
      · rintro ⟨entry, root'⟩
        have found' : db.lookup name' = some ip' := AList.mem_lookup_iff.mpr entry
        obtain rfl := filed.inj found found' (root.trans (eq_of_beq root').symm)
        rw [found] at found'
        cases found'
        rfl
      · rintro ⟨⟩
        exact ⟨AList.mem_lookup_iff.mp found, by simpa using root⟩
    exact single.length_eq

theorem Sound.roots_iff {s : Store} (h : Sound s) : s.roots path = true ↔ Tracked s.db path :=
  (h.agrees path).trans (trackers_eq_one_iff h.filed)

theorem sound_of_tracked {s : Store} (filed : Filed s.db)
    (h : ∀ path, s.roots path = true ↔ Tracked s.db path) : Sound s :=
  ⟨filed, fun path => (h path).trans (trackers_eq_one_iff filed).symm⟩

/-- Only the entries and the roots count. -/
theorem Sound.of_eq {s s' : Store} (h : Sound s) (db : s'.db = s.db)
    (roots : ∀ path, s'.roots path = s.roots path) : Sound s' := by
  refine ⟨db ▸ h.filed, fun path => ?_⟩
  rw [roots, db]
  exact h.agrees path

variable {termuxMode : Bool} {rootPackage : ByteString} {pkg : PackageEntry}

theorem Filed.record (filed : Filed db)
    (named : Security.validatePackageName pkg.packageName = none) :
    Filed (Install.record termuxMode rootPackage db pkg) := by
  intro name ip found
  by_cases same : name = pkg.packageName
  · subst same
    rw [record_lookup_self] at found
    cases found
    exact ⟨named, rootPackage, rfl⟩
  · rw [record_lookup_ne same] at found
    exact filed name ip found

theorem tracked_record (new : db.lookup pkg.packageName = none) :
    Tracked (Install.record termuxMode rootPackage db pkg) path ↔
      path = installRootOf termuxMode rootPackage pkg.packageName ∨ Tracked db path := by
  constructor
  · rintro ⟨name, ip, found, root⟩
    by_cases same : name = pkg.packageName
    · subst same
      rw [record_lookup_self] at found
      cases found
      exact .inl root.symm
    · rw [record_lookup_ne same] at found
      exact .inr ⟨name, ip, found, root⟩
  · rintro (rfl | ⟨name, ip, found, root⟩)
    · exact ⟨_, _, record_lookup_self _ _ _ _, rfl⟩
    · have other : name ≠ pkg.packageName := by
        rintro rfl
        rw [new] at found
        cases found
      exact ⟨name, ip, (record_lookup_ne other).trans found, root⟩

theorem Filed.erase (filed : Filed db) (name : ByteString) : Filed (db.erase name) := by
  intro name' ip found
  by_cases same : name' = name
  · subst same
    rw [AList.lookup_erase] at found
    cases found
  · rw [AList.lookup_erase_ne same] at found
    exact filed name' ip found

theorem tracked_erase (filed : Filed db) (found : db.lookup name = some ip) :
    Tracked (db.erase name) path ↔ path ≠ ip.installRoot ∧ Tracked db path := by
  constructor
  · rintro ⟨name', ip', found', rfl⟩
    have other : name' ≠ name := by
      rintro rfl
      rw [AList.lookup_erase] at found'
      cases found'
    rw [AList.lookup_erase_ne other] at found'
    exact ⟨fun same => other (filed.inj found' found same), name', ip', found', rfl⟩
  · rintro ⟨elsewhere, name', ip', found', rfl⟩
    have other : name' ≠ name := by
      rintro rfl
      rw [found] at found'
      cases found'
      exact elsewhere rfl
    exact ⟨name', ip', (AList.lookup_erase_ne other).trans found', rfl⟩

/-- A package that is not recorded in a flavour has no root there. -/
theorem Sound.absent {s : Store} (h : Sound s)
    (named : Security.validatePackageName name = none)
    (fresh : recordedAs s.db name termuxMode = false) :
    s.roots (installRootOf termuxMode rootPackage name) = false := by
  rw [Bool.eq_false_iff, Ne, h.roots_iff]
  rintro ⟨name', ip, found, root⟩
  obtain ⟨named', rootPackage', root'⟩ := h.filed name' ip found
  obtain ⟨mode, rfl⟩ := installRootOf_inj named' named (root'.symm.trans root)
  simp [recordedAs, found, mode] at fresh

end Tracking

/-! ### Placing a payload -/

/-- How far the placing of a payload gets where its root is not there before. -/
inductive Placing where
  | refused | halfMade | undone | placed

def Turn.placing (t : Turn) (termuxMode : Bool) : Placing :=
  if termuxMode then
    if t.layout then
      if !t.works .runtimeDirs || !t.works .makeRoot then .refused
      else if t.works .copyTree && t.works .writeManifest then .placed else .undone
    else if !t.empty || !t.works .makeRoot then .refused
    else if !t.works .setMode then .halfMade
    else if t.works .writeManifest then .placed else .undone
  else if t.works .rename then .placed else .refused

/-- What is left by placing a payload. -/
def Turn.Leaves (t : Turn) (root : ByteString) (s : Store) (ok : Bool) (s' : Store) :
    Placing → Prop
  | .refused => ok = false ∧ s' = s
  | .halfMade => ok = false
  | .undone => ok = false ∧ ∀ path, s'.roots path =
      ((path == root || s.roots path || t.layout && t.brings path) &&
        !(t.layout && t.prunes .undoRoot path) && !(t.works .undoRoot && path == root))
  | .placed => ok = true ∧ ∀ path, s'.roots path =
      (path == root || s.roots path || t.layout && t.brings path)

@[simp] theorem setRoot_true (s : Store) (root path : ByteString) :
    (s.setRoot root true).roots path = (path == root || s.roots path) := by
  have updated : (s.setRoot root true).roots path = if path = root then true else s.roots path :=
    Function.update_apply _ _ _ _
  rw [updated]
  split
  · rename_i same
    simp [same]
  · rename_i other
    simp [other]

@[simp] theorem setRoot_false (s : Store) (root path : ByteString) :
    (s.setRoot root false).roots path = (s.roots path && !(path == root)) := by
  have updated : (s.setRoot root false).roots path =
      if path = root then false else s.roots path := Function.update_apply _ _ _ _
  rw [updated]
  split
  · rename_i same
    simp [same]
  · rename_i other
    simp [other]

section Placing

variable {ε : Type} {t : Turn} {s : Store} {root : ByteString}

/-- What is not there is not removed. -/
theorem setRoot_absent (absent : s.roots root = false) : s.setRoot root false = s := by
  unfold Store.setRoot
  rw [← absent, Function.update_eq_self]

theorem removeTree_absent (step : Step) (absent : s.roots root = false) :
    wp (removeTree (ε := ε) t step root) (fun _ s' => s' = s) (fun _ _ => False) s := by
  refine wp_update.mpr ?_
  split
  · exact setRoot_absent absent
  · rfl

theorem makeDir_absent (step : Step) (absent : s.roots root = false) :
    wp (makeDir (ε := ε) t step root)
      (fun ok s' => ok = t.works step ∧ s' = if ok then s.setRoot root true else s)
      (fun _ _ => False) s := by
  refine wp_update.mpr ?_
  split
  · rename_i works
    exact ⟨works.symm, rfl⟩
  · rename_i fails
    exact ⟨by simpa [absent] using fails, by simp [absent]⟩

/-- What a removal leaves. -/
theorem removeTree_spec (step : Step) (root : ByteString) (s : Store) :
    wp (removeTree (ε := ε) t step root)
      (fun gone s' => gone = !s'.roots root ∧ s'.db = s.db ∧
        ∀ path, s'.roots path = (s.roots path && !(t.works step && path == root)))
      (fun _ _ => False) s := by
  refine wp_update.mpr ?_
  split
  · rename_i works
    exact ⟨by simp, rfl, fun path => by simp [works]⟩
  · rename_i fails
    simp [fails]

theorem placeTermux_spec (layout : t.layout = true) (absent : s.roots root = false) :
    wp (placeTermux (ε := ε) t root) (fun ok s' => t.Leaves root s ok s' (t.placing true))
      (fun _ _ => False) s := by
  unfold Turn.placing
  rw [if_pos rfl, if_pos layout]
  refine wp_ite.mpr ⟨fun noDirs => ?_, fun dirs => ?_⟩
  · rw [if_pos (by simp [noDirs])]
    exact ⟨rfl, rfl⟩
  refine wp_bind.mpr (wp_mono (removeTree_absent .clearRoot absent) ?_ fun _ _ no => no)
  rintro _ _ rfl
  refine wp_bind.mpr (wp_mono (makeDir_absent .makeRoot absent) ?_ fun _ _ no => no)
  rintro made _ ⟨rfl, rfl⟩
  refine wp_ite.mpr ⟨fun unmade => ?_, fun made => ?_⟩
  · have fails : t.works .makeRoot = false := by simpa using unmade
    rw [if_pos (by simp [fails]), fails]
    exact ⟨rfl, rfl⟩
  have made : t.works .makeRoot = true := by simpa using made
  rw [if_neg (by simpa [made] using dirs), made, if_pos rfl]
  refine wp_bind.mpr (wp_update.mpr (wp_ite.mpr ⟨fun copied => ?_, fun failed => ?_⟩))
  · rw [if_pos copied]
    exact ⟨rfl, fun path => by simp [layout]⟩
  · rw [if_neg failed]
    refine wp_bind.mpr (wp_bind.mpr (wp_update.mpr (wp_bind.mpr ?_)))
    refine wp_mono (removeTree_spec .undoRoot root _) ?_ fun _ _ no => no
    rintro _ s' ⟨-, -, left⟩
    exact ⟨rfl, fun path => by simp [left, layout]⟩

theorem placeMetadata_spec (flat : t.layout = false) (files : t.empty = true)
    (absent : s.roots root = false) :
    wp (placeMetadata (ε := ε) t root) (fun ok s' => t.Leaves root s ok s' (t.placing true))
      (fun _ _ => False) s := by
  refine wp_bind.mpr (wp_mono (makeDir_absent .makeRoot absent) ?_ fun _ _ no => no)
  rintro made _ ⟨rfl, rfl⟩
  cases makes : t.works .makeRoot with
  | false =>
    have stage : t.placing true = .refused := by simp [Turn.placing, flat, makes]
    rw [stage]
    exact ⟨rfl, rfl⟩
  | true =>
    refine wp_ite.mpr ⟨nofun, fun _ => wp_ite.mpr ⟨fun unset => ?_, fun set => ?_⟩⟩
    · have stage : t.placing true = .halfMade := by
        simp [Turn.placing, flat, files, makes, unset]
      rw [stage]
      rfl
    refine wp_ite.mpr ⟨fun written => ?_, fun failed => ?_⟩
    · have stage : t.placing true = .placed := by
        simp [Turn.placing, flat, files, makes, set, written]
      rw [stage]
      exact ⟨rfl, fun path => by simp [flat]⟩
    · have stage : t.placing true = .undone := by
        simp [Turn.placing, flat, files, makes, set, failed]
      rw [stage]
      refine wp_bind.mpr (wp_mono (removeTree_spec .undoRoot root _) ?_ fun _ _ no => no)
      rintro _ s' ⟨-, -, left⟩
      exact ⟨rfl, fun path => by simp [left, flat]⟩

/-- Placing a payload whose root is not there. A payload with the Termux layout is placed as one. -/
theorem placePayload_spec (termuxMode : Bool) (layout : t.layout = true → termuxMode = true)
    (absent : s.roots root = false) :
    wp (placePayload (ε := ε) t termuxMode root)
      (fun ok s' => t.Leaves root s ok s' (t.placing termuxMode)) (fun _ _ => False) s := by
  cases termuxMode with
  | true =>
    refine wp_ite.mpr ⟨fun _ => ?_, fun no => absurd rfl no⟩
    refine wp_ite.mpr ⟨fun tree => placeTermux_spec tree absent, fun flat => ?_⟩
    have flat : t.layout = false := by simpa using flat
    refine wp_ite.mpr ⟨fun empty => placeMetadata_spec flat empty absent, fun files => ?_⟩
    have stage : t.placing true = .refused := by simp [Turn.placing, flat, files]
    rw [stage]
    exact ⟨rfl, rfl⟩
  | false =>
    have flat : t.layout = false := Bool.eq_false_iff.mpr fun tree => nomatch layout tree
    refine wp_ite.mpr ⟨nofun, fun _ => wp_update.mpr ?_⟩
    cases moves : t.works .rename with
    | true =>
      have stage : t.placing false = .placed := by simp [Turn.placing, moves]
      rw [stage]
      exact ⟨rfl, fun path => by simp [flat]⟩
    | false =>
      have stage : t.placing false = .refused := by simp [Turn.placing, moves]
      rw [stage]
      exact ⟨rfl, rfl⟩

theorem makeRoom_absent (reinstall termuxMode : Bool) (name : ByteString)
    (absent : s.roots root = false) :
    wp (makeRoom (ε := ε) t reinstall termuxMode name root) (fun ok s' => ok = true ∧ s' = s)
      (fun _ _ => False) s := by
  refine wp_bind.mpr (wp_update.mpr (wp_ite.mpr ⟨fun _ => ⟨rfl, rfl⟩, fun there => ?_⟩))
  rw [absent] at there
  exact absurd rfl there

theorem installSinglePackage_spec (reinstall isTermuxPackage : Bool) {name : ByteString}
    (named : Security.validatePackageName name = none) (absent : s.roots root = false) :
    wp (installSinglePackage (ε := ε) t reinstall isTermuxPackage name root)
      (fun ok s' => ok = false ∧ s' = s ∨
        t.works .unpack = true ∧ t.Leaves root s ok s' (t.placing (isTermuxPackage || t.layout)))
      (fun _ _ => False) s := by
  refine wp_ite.mpr ⟨fun _ => .inl ⟨rfl, rfl⟩, fun unpacks => ?_⟩
  have unpacks : t.works .unpack = true := by simpa [named] using unpacks
  refine wp_bind.mpr (wp_mono (makeRoom_absent _ _ _ absent) ?_ fun _ _ no => no)
  rintro _ _ ⟨rfl, rfl⟩
  refine wp_ite.mpr ⟨fun _ => ?_, nofun⟩
  exact wp_mono (placePayload_spec _ (fun tree => by simp [tree]) absent)
    (fun _ _ leaves => .inr ⟨unpacks, leaves⟩) fun _ _ no => no

end Placing

/-! ### When a turn keeps the agreement -/

/-- The payload brings no root that stays, and no root of another package is pruned. -/
structure Turn.Spares (t : Turn) (s : Store) (root : ByteString) (pruned : ByteString → Bool) :
    Prop where
  kept : ∀ path ≠ root, s.roots path = true → pruned path = false
  brought : ∀ path ≠ root, t.layout = true → t.brings path = true →
    s.roots path = true ∨ pruned path = true

/-- Nothing is left of a payload that is given up. -/
structure Turn.Undoes (t : Turn) (s : Store) (root : ByteString) : Prop where
  gone : t.works .undoRoot = true ∨ t.layout = true ∧ t.prunes .undoRoot root = true
  spares : t.Spares s root fun path => t.layout && t.prunes .undoRoot path

/-- Nothing is left of a package that is not recorded in the end. -/
structure Turn.Withdraws (t : Turn) (termuxMode : Bool) (s : Store) (root : ByteString) :
    Prop where
  reads : termuxMode = true → t.works .newManifest = true
  gone : t.works .newRoot = true ∨ termuxMode = true ∧ t.prunes .newRoot root = true
  spares : t.Spares s root fun path => termuxMode && t.prunes .newRoot path

/-- The package is new, and recorded without a change to the other roots, or withdrawn. -/
structure Turn.Places (t : Turn) (termuxMode : Bool) (s : Store) (name root : ByteString) :
    Prop where
  new : s.db.lookup name = none
  recorded : t.works .status = true → t.Spares s root fun _ => false
  withdrawn : t.works .status = false → t.Withdraws termuxMode s root

/-- What a turn has to do where the package passes the gates and its payload is unpacked. -/
def Turn.Keeps (t : Turn) (termuxMode : Bool) (s : Store) (name root : ByteString) : Prop :=
  t.works .gates = true → Security.validatePackageName name = none → t.works .unpack = true →
    match t.placing (termuxMode || t.layout) with
    | .refused => True
    | .halfMade => False
    | .undone => t.Undoes s root
    | .placed => t.Places termuxMode s name root

section Turns

variable {t : Turn} {s s' : Store} {name root : ByteString}

/-- The roots after a payload was placed and, where it is given up, pruned and removed. -/
theorem Turn.Spares.roots {pruned : ByteString → Bool} (h : t.Spares s root pruned)
    {path : ByteString} (other : path ≠ root) :
    ((path == root || s.roots path || t.layout && t.brings path) && !pruned path) =
      s.roots path := by
  rw [beq_false_of_ne other, Bool.false_or]
  by_cases there : s.roots path = true
  · rw [there, h.kept path other there]
    rfl
  · rw [Bool.not_eq_true] at there
    have brought := h.brought path other
    rw [there] at brought ⊢
    cases layout : t.layout
    · simp
    cases brings : t.brings path
    · simp
    simpa using brought layout brings

/-- Where only its own root could differ and is not there, a turn leaves everything as it was. -/
theorem Sound.of_undone (h : Sound s) (absent : s.roots root = false) (db : s'.db = s.db)
    (gone : s'.roots root = false) (others : ∀ path ≠ root, s'.roots path = s.roots path) :
    Sound s' := by
  refine h.of_eq db fun path => ?_
  by_cases same : path = root
  · rw [same, gone, absent]
  · exact others path same

theorem Turn.Undoes.sound (h : t.Undoes s root) (sound : Sound s) (absent : s.roots root = false)
    (db : s'.db = s.db) {ok : Bool} (leaves : t.Leaves root s ok s' .undone) : Sound s' := by
  refine sound.of_undone absent db ?_ fun path other => ?_
  · rw [leaves.2]
    rcases h.gone with works | ⟨layout, pruned⟩
    · simp [works]
    · simp [layout, pruned]
  · rw [leaves.2, h.spares.roots other, beq_false_of_ne other]
    simp

variable {termuxMode : Bool} {rootPackage : ByteString} {pkg : PackageEntry}

/-- A new package whose root is placed is tracked once it is recorded. -/
theorem Sound.record (sound : Sound s)
    (named : Security.validatePackageName pkg.packageName = none)
    (new : s.db.lookup pkg.packageName = none)
    (spares : t.Spares s (installRootOf termuxMode rootPackage pkg.packageName) fun _ => false)
    (db : s'.db = Install.record termuxMode rootPackage s.db pkg)
    (roots : ∀ path, s'.roots path =
      (path == installRootOf termuxMode rootPackage pkg.packageName || s.roots path ||
        t.layout && t.brings path)) : Sound s' := by
  refine sound_of_tracked (db ▸ sound.filed.record named) fun path => ?_
  rw [db, tracked_record new, ← sound.roots_iff, roots]
  by_cases same : path = installRootOf termuxMode rootPackage pkg.packageName
  · simp [same]
  · have others := spares.roots same
    rw [Bool.not_false, Bool.and_true] at others
    rw [others]
    simp [same]

/-- What removing the payload of a new package leaves. -/
theorem withdraw_spec (h : t.Withdraws termuxMode s root) (sound : Sound s)
    (absent : s.roots root = false) {s₁ : Store} (db : s₁.db = s.db)
    (roots : ∀ path, s₁.roots path =
      (path == root || s.roots path || t.layout && t.brings path)) {ip : InstalledPackage}
    (mode : ip.termuxPackage = termuxMode) (home : ip.installRoot = root) (filled : root ≠ []) :
    wp (removePackagePayload (ε := List ByteString) t .newManifest .newFiles .newRoot ip)
      (fun _ s' => Sound s') (fun _ _ => False) s₁ := by
  refine wp_ite.mpr ⟨fun termux => ?_, fun debian => ?_⟩
  · obtain rfl : termuxMode = true := mode.symm.trans termux
    refine wp_ite.mpr ⟨fun _ => ?_, fun unread => absurd (h.reads rfl) unread⟩
    refine wp_bind.mpr (wp_update.mpr (wp_bind.mpr ?_))
    refine wp_mono (removeTree_spec .newRoot _ _) ?_ fun _ _ no => no
    rintro _ s' ⟨-, db', left⟩
    rw [home] at left
    refine sound.of_undone absent (db'.trans db) ?_ fun path other => ?_
    · rw [left]
      rcases h.gone with works | ⟨-, pruned⟩
      · simp [works]
      · simp [pruned]
    · have others := h.spares.roots other
      rw [Bool.true_and] at others
      simp [left, roots, others, other]
  · obtain rfl : termuxMode = false := mode.symm.trans (by simpa using debian)
    refine wp_ite.mpr ⟨fun empty => absurd empty (by simpa [home] using filled), fun _ => ?_⟩
    refine wp_mono (removeTree_spec .newRoot _ _) ?_ fun _ _ no => no
    rintro _ s' ⟨-, db', left⟩
    rw [home] at left
    refine sound.of_undone absent (db'.trans db) ?_ fun path other => ?_
    · rcases h.gone with works | ⟨no, -⟩
      · simp [left, works]
      · cases no
    · have others := h.spares.roots other
      rw [Bool.false_and, Bool.not_false, Bool.and_true] at others
      rw [left, roots, others, beq_false_of_ne other]
      simp

end Turns

/-! ### Turns -/

section Installing

variable {c : Call} (reinstall : Bool) {termuxMode : Bool} {rootPackage : ByteString}
  {pkg : PackageEntry} {s : Store}

/-- A planned package that is not recorded in the flavour has nothing to replace. -/
theorem removeReplaced_fresh {ε : Type} (t : Turn)
    (fresh : recordedAs s.db pkg.packageName termuxMode = false) :
    removeReplaced (ε := ε) t reinstall termuxMode s.db pkg.packageName = pure () := by
  unfold removeReplaced
  split
  · rename_i existing found
    have other : ¬ (reinstall && termuxMode && existing.termuxPackage) = true := by
      intro both
      rw [Bool.and_eq_true, Bool.and_eq_true] at both
      simp [recordedAs, found, both.1.2, both.2] at fresh
    rw [if_neg other]
  · rfl

theorem recordInstalled_sound (sound : Sound s)
    (named : Security.validatePackageName pkg.packageName = none) (t : Turn)
    (absent : s.roots (installRootOf termuxMode rootPackage pkg.packageName) = false)
    (places : t.Places termuxMode s pkg.packageName
      (installRootOf termuxMode rootPackage pkg.packageName)) {s₁ : Store}
    (db : s₁.db = s.db) (roots : ∀ path, s₁.roots path =
      (path == installRootOf termuxMode rootPackage pkg.packageName || s.roots path ||
        t.layout && t.brings path)) (names : List ByteString) :
    wp (recordInstalled t termuxMode rootPackage pkg (s.db, names))
      (fun _ s' => Sound s') (fun _ s' => Sound s') s₁ := by
  refine wp_bind.mpr (wp_mono (writeStatus_spec t .status _ s₁) ?_ fun _ _ no => no.elim)
  rintro ok s' ⟨written, rfl⟩
  cases ok with
  | true => exact sound.record named places.new (places.recorded written.symm) rfl roots
  | false =>
    refine wp_ite.mpr ⟨nofun, fun _ => wp_ite.mpr ⟨fun old => ?_, fun _ => wp_bind.mpr ?_⟩⟩
    · rw [places.new] at old
      cases old
    · have filled : installRootOf termuxMode rootPackage pkg.packageName ≠ [] := by
        obtain ⟨dir, -, split⟩ := installRootOf_split named termuxMode rootPackage
        simp [split]
      exact wp_mono (withdraw_spec (places.withdrawn written.symm) sound absent db roots
        rfl rfl filled) (fun _ _ h => h) fun _ _ no => no.elim

/-- **One turn** that meets its condition keeps the records and the root directories together. -/
theorem installPlanned_sound (sound : Sound s)
    (fresh : recordedAs s.db pkg.packageName termuxMode = false)
    (keeps : (c.turn pkg.packageName).Keeps termuxMode s pkg.packageName
      (installRootOf termuxMode rootPackage pkg.packageName)) (names : List ByteString) :
    wp (installPlanned c reinstall termuxMode rootPackage pkg (s.db, names))
      (fun _ s' => Sound s') (fun _ s' => Sound s') s := by
  unfold installPlanned
  dsimp only
  rw [removeReplaced_fresh _ _ fresh]
  refine wp_bind.mpr (wp_ite.mpr ⟨fun _ => sound, fun passes => ?_⟩)
  obtain ⟨gates, named⟩ : (c.turn pkg.packageName).works .gates = true ∧
      Security.validatePackageName pkg.packageName = none := by simpa using passes
  have absent : s.roots (installRootOf termuxMode rootPackage pkg.packageName) = false :=
    sound.absent named fresh
  have quiet := installSinglePackage_quiet (ε := List ByteString) (c.turn pkg.packageName)
    reinstall termuxMode pkg.packageName (installRootOf termuxMode rootPackage pkg.packageName) s
  have placed := installSinglePackage_spec (ε := List ByteString) (t := c.turn pkg.packageName)
    reinstall termuxMode named absent
  refine wp_bind.mpr (wp_mono (wp_and quiet placed) ?_ fun _ _ no => no.1.elim)
  rintro ok s₁ ⟨db, ⟨rfl, rfl⟩ | ⟨unpacked, leaves⟩⟩
  · exact sound
  have keeps := keeps gates named unpacked
  cases stage : (c.turn pkg.packageName).placing (termuxMode || (c.turn pkg.packageName).layout)
  all_goals rw [stage] at keeps leaves
  case refused =>
    obtain ⟨rfl, rfl⟩ := leaves
    exact sound
  case halfMade => exact keeps.elim
  case undone =>
    obtain rfl := leaves.1
    exact keeps.sound sound absent db leaves
  case placed =>
    obtain rfl := leaves.1
    exact recordInstalled_sound sound named _ absent keeps db leaves.2 names

end Installing

/-! ### Removals -/

/-- A removal that takes the root of a Termux package away removes its files too, and prunes no
root of another package. -/
structure RemovalKeeps (t : Turn) (ip : InstalledPackage) (s : Store) : Prop where
  files : t.works .oldRoot = true ∨ t.prunes .oldRoot ip.installRoot = true →
    t.works .oldFiles = true
  spares : ∀ path ≠ ip.installRoot, s.roots path = true → t.prunes .oldRoot path = false

section Removing

variable {s : Store} {name : ByteString} {ip : InstalledPackage}

theorem rootOf_filed (filed : Filed s.db) (found : s.db.lookup name = some ip) :
    rootOf name ip = ip.installRoot ∧ ip.installRoot ≠ [] := by
  obtain ⟨named, rootPackage, root⟩ := filed name ip found
  obtain ⟨dir, -, split⟩ := installRootOf_split named ip.termuxPackage rootPackage
  have filled : ip.installRoot ≠ [] := by simp [root, split]
  exact ⟨if_neg (by simpa using filled), filled⟩

/-- A package without an entry and a root. -/
theorem Sound.erase (sound : Sound s) (found : s.db.lookup name = some ip) {s' : Store}
    (db : s'.db = s.db.erase name) (roots : ∀ path, s'.roots path =
      (s.roots path && !(path == ip.installRoot))) : Sound s' := by
  refine sound_of_tracked (db ▸ sound.filed.erase name) fun path => ?_
  rw [db, tracked_erase sound.filed found, ← sound.roots_iff, roots]
  by_cases same : path = ip.installRoot
  · simp [same]
  · simp [same]

/-- The root of a recorded package is there. -/
theorem Sound.there (sound : Sound s) (found : s.db.lookup name = some ip) :
    s.roots ip.installRoot = true := sound.roots_iff.mpr ⟨name, ip, found, rfl⟩

/-- What removing the payload of a recorded package leaves, without the entry if it is gone and
with it if not. -/
theorem removal_spec {t : Turn} (found : s.db.lookup name = some ip) (sound : Sound s)
    (keeps : ip.termuxPackage = true → t.works .oldManifest = true → RemovalKeeps t ip s) :
    wp (removePackagePayload (ε := Unit) t .oldManifest .oldFiles .oldRoot
        { ip with installRoot := rootOf name ip })
      (fun gone s' => (gone = true → Sound s') ∧ (gone = false → Sound { s' with db := s.db }))
      (fun _ _ => False) { s with db := s.db.erase name } := by
  obtain ⟨home, filled⟩ := rootOf_filed sound.filed found
  have whole : { ip with installRoot := rootOf name ip } = ip := by rw [home]
  rw [whole]
  refine wp_ite.mpr ⟨fun termux => wp_ite.mpr ⟨fun reads => ?_, fun _ => ?_⟩, fun _ => ?_⟩
  · obtain ⟨files, spares⟩ := keeps termux reads
    refine wp_bind.mpr (wp_update.mpr (wp_bind.mpr ?_))
    refine wp_mono (removeTree_spec .oldRoot _ _) ?_ fun _ _ no => no
    rintro gone s' ⟨rfl, db, left⟩
    have roots : ∀ path ≠ ip.installRoot, s'.roots path = s.roots path := by
      intro path other
      rw [left, beq_false_of_ne other]
      by_cases there : s.roots path = true
      · simp [there, spares path other there]
      · simp [there]
    have own : s'.roots ip.installRoot = false ↔
        t.works .oldRoot = true ∨ t.prunes .oldRoot ip.installRoot = true := by
      have there : s.roots ip.installRoot = true := sound.there found
      simp only [left, there, Bool.true_and, beq_self_eq_true, Bool.and_true,
        Bool.and_eq_false_iff, Bool.not_eq_false']
      exact or_comm
    constructor
    · intro both
      have gone : s'.roots ip.installRoot = false := by
        simpa using (Bool.and_eq_true_iff.mp both).2
      refine sound.erase found db fun path => ?_
      by_cases same : path = ip.installRoot
      · simp [same, gone]
      · simp [roots path same, same]
    · intro stays
      have there : s'.roots ip.installRoot = true := by
        by_contra gone
        have gone : s'.roots ip.installRoot = false := by simpa using gone
        rw [files (own.mp gone), gone] at stays
        cases stays
      refine sound.of_eq rfl fun path => ?_
      by_cases same : path = ip.installRoot
      · exact same ▸ there.trans (sound.there found).symm
      · exact roots path same
  · exact ⟨nofun, fun _ => sound.of_eq rfl fun _ => rfl⟩
  · refine wp_ite.mpr ⟨fun empty => absurd empty (by simpa using filled), fun _ => ?_⟩
    refine wp_mono (removeTree_spec .oldRoot _ _) ?_ fun _ _ no => no
    rintro gone s' ⟨rfl, db, left⟩
    constructor
    · intro gone
      have gone : s'.roots ip.installRoot = false := by simpa using gone
      refine sound.erase found db fun path => ?_
      by_cases same : path = ip.installRoot
      · simp [same, gone]
      · simp [left, beq_false_of_ne same]
    · intro stays
      have there : s'.roots ip.installRoot = true := by simpa using stays
      refine sound.of_eq rfl fun path => ?_
      by_cases same : path = ip.installRoot
      · exact same ▸ there.trans (sound.there found).symm
      · simp [left, beq_false_of_ne same]

end Removing

/-! ### Calls -/

/-- The call gets as far as installing the packages of its plan. -/
structure Call.Proceeds (c : Call) (repoIndices : RepoIndexList) (rootPackage : ByteString)
    (opts : InstallOptions) (db : InstalledDb) : Prop where
  named : Security.validatePackageName rootPackage = none
  offered : hasRoot (mergeIndices repoIndices) rootPackage
    (termuxModeOf repoIndices rootPackage opts) = true
  loads : c.loads = true
  resolved : (resolve repoIndices rootPackage (termuxModeOf repoIndices rootPackage opts)
    (installedNames db (termuxModeOf repoIndices rootPackage opts))).ok = true
  real : opts.simulate = false
  gathers : c.gathers = true

/-- Every turn that an install starts meets its condition in the store where it starts. -/
def InstallKeeps (c : Call) (repoIndices : RepoIndexList) (rootPackage : ByteString)
    (opts : InstallOptions) (s : Store) : Prop :=
  c.Proceeds repoIndices rootPackage opts s.db →
    ∀ pkg x s', Starts (installPlanned c opts.reinstall
        (termuxModeOf repoIndices rootPackage opts) rootPackage)
        (planOf repoIndices rootPackage (termuxModeOf repoIndices rootPackage opts) s.db)
        (s.db, []) s pkg x s' →
      (c.turn pkg.packageName).Keeps (termuxModeOf repoIndices rootPackage opts) s'
        pkg.packageName (installRootOf (termuxModeOf repoIndices rootPackage opts) rootPackage
          pkg.packageName)

/-- One call, with what the system does during it. -/
inductive Operation where
  | install (c : Call) (repoIndices : RepoIndexList) (rootPackage : ByteString)
      (opts : InstallOptions)
  | remove (loads : Bool) (t : Turn) (packageName : ByteString) (opts : RemoveOptions)

def Operation.perform (s : Store) : Operation → Store
  | .install c repoIndices rootPackage opts =>
      (exec (installWithDeps c repoIndices rootPackage opts) s).2
  | .remove loads t packageName opts => (exec (removePackage loads t packageName opts) s).2

def Operation.Keeps (s : Store) : Operation → Prop
  | .install c repoIndices rootPackage opts => InstallKeeps c repoIndices rootPackage opts s
  | .remove _ t packageName _ => ∀ ip, s.db.lookup packageName = some ip →
      ip.termuxPackage = true → t.works .status = true → t.works .oldManifest = true →
        RemovalKeeps t ip s

section Calls

variable {s : Store}

/-- The map has not changed for what is still to be installed. -/
theorem lookup_undone {plan done rest : List PackageEntry} {pkg : PackageEntry}
    {termuxMode : Bool} {rootPackage : ByteString} {db : InstalledDb}
    (split : plan = done ++ pkg :: rest) (nodup : (plan.map (·.packageName)).Nodup) :
    (recordAll termuxMode rootPackage db done).lookup pkg.packageName =
      db.lookup pkg.packageName := by
  rw [split, List.map_append, List.nodup_append] at nodup
  obtain ⟨nodup, -, apart⟩ := nodup
  have absent : done.find? (·.packageName == pkg.packageName) = none := by
    refine List.find?_eq_none.mpr fun q mem => ?_
    rw [beq_iff_eq]
    exact apart _ (List.mem_map_of_mem mem) _ (by simp)
  rw [recordAll_lookup nodup, absent]
  rfl

theorem installWithDeps_sound (c : Call) (repoIndices : RepoIndexList)
    (rootPackage : ByteString) (opts : InstallOptions) (sound : Sound s)
    (keeps : InstallKeeps c repoIndices rootPackage opts s) :
    wp (installWithDeps c repoIndices rootPackage opts)
      (fun _ s' => Sound s') (fun _ s' => Sound s') s := by
  refine wp_bind.mpr (wp_update.mpr (wp_ite.mpr ⟨fun _ => sound, fun begins => ?_⟩))
  refine wp_ite.mpr ⟨fun _ => sound, fun resolved => ?_⟩
  refine wp_ite.mpr ⟨fun _ => sound, fun real => wp_ite.mpr ⟨fun _ => sound, fun gathers => ?_⟩⟩
  have resolved : (resolve repoIndices rootPackage (termuxModeOf repoIndices rootPackage opts)
      (installedNames s.db (termuxModeOf repoIndices rootPackage opts))).ok = true := by
    simpa using resolved
  have begins : ((rootPackage ≠ [] ∧ Security.validatePackageName rootPackage = none) ∧
      hasRoot (mergeIndices repoIndices) rootPackage
        (termuxModeOf repoIndices rootPackage opts) = true) ∧ c.loads = true := by
    simpa using begins
  have turns := keeps ⟨begins.1.1.2, begins.1.2, begins.2, resolved, by simpa using real,
    by simpa using gathers⟩
  rw [planned_all opts.reinstall resolved]
  have nodup := (planOf_spec s.db resolved).nodup
  refine wp_bind.mpr (wp_mono (wp_forEach_turns (fun done (x : InstalledDb × List ByteString) s' =>
    x.1 = s'.db ∧ s'.db = recordAll (termuxModeOf repoIndices rootPackage opts) rootPackage s.db
      done ∧ Sound s') ?_ ⟨rfl, rfl, sound⟩) (fun _ _ h => h.2.2) fun _ _ h => h)
  rintro done pkg rest ⟨db, names⟩ s₁ split starts ⟨rfl, recorded, sound₁⟩
  have fresh : recordedAs s₁.db pkg.packageName (termuxModeOf repoIndices rootPackage opts) =
      false := by
    rw [recordedAs, recorded, lookup_undone split nodup]
    exact planOf_fresh resolved (split ▸ by simp)
  have next := installPlanned_db c opts.reinstall (termuxModeOf repoIndices rootPackage opts)
    rootPackage pkg (x := (s₁.db, names)) (s := s₁) rfl
  have kept := installPlanned_sound opts.reinstall sound₁ fresh
    (turns pkg _ s₁ starts) names
  refine wp_mono (wp_and next kept) ?_ fun _ _ h => h.2
  rintro x' s' ⟨⟨read, map, -⟩, sound'⟩
  refine ⟨read, ?_, sound'⟩
  rw [map, recorded, recordAll, recordAll, List.foldl_append]
  rfl

theorem removePackage_sound (loads : Bool) (t : Turn) (packageName : ByteString)
    (opts : RemoveOptions) (sound : Sound s)
    (keeps : (Operation.remove loads t packageName opts).Keeps s) :
    wp (removePackage loads t packageName opts)
      (fun _ s' => Sound s') (fun _ s' => Sound s') s := by
  refine wp_ite.mpr ⟨fun _ => sound, fun _ => wp_bind.mpr (wp_update.mpr ?_)⟩
  dsimp only
  split
  · exact sound
  rename_i ip found
  refine wp_ite.mpr ⟨fun _ => sound, fun _ => wp_bind.mpr ?_⟩
  refine wp_mono (writeStatus_spec t .status _ s) ?_ fun _ _ no => no.elim
  rintro ok s₁ ⟨written, rfl⟩
  cases ok with
  | false => exact wp_ite.mpr ⟨fun _ => sound, fun no => absurd rfl no⟩
  | true =>
    refine wp_ite.mpr ⟨nofun, fun _ => wp_bind.mpr ?_⟩
    refine wp_mono (removal_spec found sound (keeps ip found · written.symm)) ?_
      fun _ _ no => no.elim
    rintro gone s₂ ⟨erased, restored⟩
    refine wp_ite.mpr ⟨fun gone => erased gone, fun stays => wp_bind.mpr (wp_update.mpr ?_)⟩
    exact restored (by simpa using stays)

end Calls

/-! ### Runs -/

theorem wp_last {ε α : Type} {act : Act Store ε α} {s : Store}
    (h : wp act (fun _ s' => Sound s') (fun _ s' => Sound s') s) : Sound (exec act s).2 := by
  unfold wp at h
  split at h
  · rename_i run
    rwa [run]
  · rename_i run
    rwa [run]

theorem Operation.perform_sound {s : Store} (op : Operation) (sound : Sound s)
    (keeps : op.Keeps s) : Sound (op.perform s) := by
  cases op with
  | install c repoIndices rootPackage opts =>
    exact wp_last (installWithDeps_sound c repoIndices rootPackage opts sound keeps)
  | remove loads t packageName opts =>
    exact wp_last (removePackage_sound loads t packageName opts sound keeps)

theorem sound_empty : Sound {} := by
  refine sound_of_tracked (fun name ip found => ?_) fun path => ⟨nofun, ?_⟩
  · rw [AList.lookup_empty] at found
    cases found
  · rintro ⟨name, ip, found, -⟩
    rw [AList.lookup_empty] at found
    cases found

/-- Everything works but for some steps, and the payload is a plain tree. -/
def turnBut (fails : Step → Bool) : Turn where
  works step := !fails step
  layout := false
  empty := true
  brings _ := false
  prunes _ _ := false

def callBut (fails : Step → Bool) : Call where
  loads := true
  gathers := true
  turn _ := turnBut fails

def statusStep : Step → Bool
  | .status => true
  | _ => false

/-- `bc` in a Debian and in a Termux repository. -/
def bothIndices : RepoIndexList :=
  [indexOf "main" .Disabled [plainPackage "bc" []],
    indexOf "termux" .Disabled [{ plainPackage "bc" [] with isTermuxPackage := true }]]

/-- The status cannot be written at first; then the package is installed and removed. -/
def bcRun : List Operation :=
  [.install (callBut statusStep) bothIndices (str "bc") {},
    .install (callBut fun _ => false) bothIndices (str "bc") {},
    .remove true (turnBut fun _ => false) (str "bc") {}]

theorem bc_planned : planOf bothIndices (str "bc") false ∅ = [plainPackage "bc" []] := by
  decide +kernel

theorem bc_keeps {fails : Step → Bool} (removes : fails .newRoot = false) {s : Store}
    (empty : s.db = ∅) : InstallKeeps (callBut fails) bothIndices (str "bc") {} s := by
  have mode : termuxModeOf bothIndices (str "bc") {} = false := by decide
  intro _ pkg x s' starts
  rw [mode, empty, bc_planned] at starts
  rw [mode]
  cases starts with
  | later _ rest => cases rest
  | here =>
    intro _ _ _
    have spares : (turnBut fails).Spares s (installRootOf false (str "bc") (str "bc"))
        fun _ => false := ⟨fun _ _ _ => rfl, fun _ _ => nofun⟩
    have places : (turnBut fails).Places false s (str "bc")
        (installRootOf false (str "bc") (str "bc")) := by
      refine ⟨by rw [empty]; rfl, fun _ => spares, fun _ => ⟨nofun, .inl ?_, spares⟩⟩
      simp [turnBut, removes]
    have stage : (turnBut fails).placing false = .placed ∨
        (turnBut fails).placing false = .refused := by
      unfold Turn.placing
      rw [if_neg nofun]
      split
      · exact .inl rfl
      · exact .inr rfl
    show match (turnBut fails).placing false with
      | .refused => True
      | .halfMade => False
      | .undone => _
      | .placed => _
    rcases stage with stage | stage
    · rw [stage]
      exact places
    · rw [stage]
      trivial

end Apm.Install.RootState
