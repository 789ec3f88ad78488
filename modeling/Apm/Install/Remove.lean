import Apm.Install.Records

/-!
`removePackage` and `autoremove` of `src/apmd/install_manager.cpp`, and the roots that the
user installed.

## Main results

* `roots_stay_manual_iff`: over any run of installs, removals and autoremoves, every root
  that was installed explicitly stays recorded as manual until it is removed explicitly,
  if and only if no install of the run asks for a root that is recorded as a dependency.
-/

namespace Apm.Install

open Apm.Repo Apm.Fs Apm.Config Apm.Lib.Effect Apm.Status

structure RemoveOptions where
  purge : Bool := false
  force : Bool := false

structure RemoveResult where
  ok : Bool := false
  message : ByteString := []
  removedPackages : List ByteString := []

structure AutoremoveResult where
  ok : Bool := false
  message : ByteString := []
  removedPackages : List ByteString := []

variable (dev : Device)

/-! ### Removing a package -/

/-- The other packages of the flavour that depend on a name, in the map's order. -/
def dependentsOf (db : InstalledDb) (packageName : ByteString) (termux : Bool) :
    List ByteString :=
  (db.entries.filter fun kv => kv.1 != packageName && kv.2.termuxPackage == termux &&
    kv.2.depends.contains packageName).map (·.1)

/-- The message of a refused removal; it shows ten dependents. -/
def requiredByMessage (packageName : ByteString) (dependents : List ByteString) : ByteString :=
  str "Cannot remove '" ++ packageName ++ str "': required by " ++
    (str ", ").intercalate (dependents.take 10) ++
    if dependents.length > 10 then
      str " and " ++ str (toString (dependents.length - 10)) ++ str " more"
    else []

/-- Where the payload of a record is. -/
def rootOf (packageName : ByteString) (ip : InstalledPackage) : ByteString :=
  if ip.installRoot.isEmpty then
    joinPath (if ip.termuxPackage then getTermuxInstalledDir else getInstalledDir) packageName
  else ip.installRoot

/-- `removePackage`: the entry goes first, and comes back if the payload stays. -/
def removePackage (packageName : ByteString) (opts : RemoveOptions) :
    Act InstallWorld RemoveResult RemoveResult := do
  if packageName.isEmpty then throw { message := str "Package name is empty" }
  else
    match Security.validatePackageName packageName with
    | some nameErr => throw { message := nameErr }
    | none =>
        match ← loadStatus dev with
        | .error dbErr => throw { message := str "Failed to load status DB: " ++ dbErr }
        | .ok db =>
            match db.lookup packageName with
            | none =>
                pure { ok := true,
                       message := str "Package '" ++ packageName ++ str "' is not installed" }
            | some ip =>
                let dependents := dependentsOf db packageName ip.termuxPackage
                if !opts.force && !dependents.isEmpty then
                  throw { message := requiredByMessage packageName dependents }
                else
                  match ← writeStatus dev (db.erase packageName) with
                  | some writeErr =>
                      throw { message := str "Failed to persist removal state for " ++
                        packageName ++ str ": " ++ writeErr }
                  | none =>
                      match ← removePackagePayload dev with
                      | none =>
                          pure { ok := true, removedPackages := [packageName],
                                 message := str "Removed package: " ++ packageName }
                      | some removeErr =>
                          let message := if removeErr.isEmpty then
                            str "Failed to remove package payload" else removeErr
                          match ← writeStatus dev db with
                          | none => throw { message := message }
                          | some restoreErr =>
                              let restoreDetail :=
                                if restoreErr.isEmpty then [] else str ": " ++ restoreErr
                              throw {
                                message := message ++
                                  str "; failed to restore status DB entry" ++ restoreDetail }

/-! ### Autoremove -/

/-- Is some other package of the flavour in need of the name? -/
def requiredByInstalled (db : InstalledDb) (name : ByteString) (pkg : InstalledPackage) : Bool :=
  db.entries.any fun kv => kv.1 != name && kv.2.termuxPackage == pkg.termuxPackage &&
    kv.2.depends.contains name

/-- The automatic packages that nothing needs. -/
def autoremoveCandidates (db : InstalledDb) : List ByteString :=
  (db.entries.filter fun kv => kv.2.autoInstalled && !requiredByInstalled db kv.1 kv.2).map (·.1)

/-- Remove one candidate; the packages removed so far and whether this turn removed any. -/
def removeCandidate (opts : RemoveOptions) (name : ByteString) (x : List ByteString × Bool) :
    Act InstallWorld AutoremoveResult (List ByteString × Bool) := do
  match ← attempt (removePackage dev name opts) with
  | .error r =>
      throw { message := if r.message.isEmpty then str "Failed to autoremove " ++ name
        else r.message }
  | .ok r =>
      pure (r.removedPackages.foldl (fun removed n =>
          if removed.contains n then removed else removed ++ [n]) x.1,
        x.2 || !r.removedPackages.isEmpty)

/-- The turns of the loop of `autoremove`: the packages removed, or none if the fuel is
used up. -/
def autoremoveLoop (opts : RemoveOptions) :
    Nat → List ByteString → Act InstallWorld AutoremoveResult (Option (List ByteString))
  | 0, _ => pure none
  | fuel + 1, removed => do
      match ← loadStatus dev with
      | .error dbErr => throw { message := str "Failed to load status DB: " ++ dbErr }
      | .ok db =>
          let candidates := autoremoveCandidates db
          if candidates.isEmpty then pure (some removed)
          else
            let (removed, removedAny) ←
              forEach (removeCandidate dev opts) candidates (removed, false)
            if removedAny then autoremoveLoop opts fuel removed else pure (some removed)

def autoremoveMessage (removed : List ByteString) : ByteString :=
  if removed.isEmpty then str "No auto-installed packages to remove"
  else
    str "Autoremoved " ++ str (toString removed.length) ++ str " package(s): " ++
      (str " ").intercalate removed

/-- `autoremove`, for so many turns. -/
def autoremove (fuel : Nat) (opts : RemoveOptions) :
    Act InstallWorld AutoremoveResult (Option AutoremoveResult) := do
  match ← autoremoveLoop dev opts fuel [] with
  | none => pure none
  | some removed =>
      pure (some {
        ok := true, removedPackages := removed, message := autoremoveMessage removed })

/-! ### What a removal changes -/

/-- The status file lost the entry of a name at most. -/
structure Erases (packageName : ByteString) (own own' : Own) : Prop where
  grows : own.writes <+: own'.writes
  others : own'.Faithful → ∀ name ≠ packageName,
    (parseStatus own'.status).lookup name = (parseStatus own.status).lookup name

theorem SameStatus.erases {own own' : Own} (h : SameStatus own own') (packageName : ByteString) :
    Erases packageName own own' :=
  ⟨h.grows, fun _ _ _ => by rw [h.status]⟩

/-- A write of a map that differs from the loaded one in a name at most. -/
theorem erases_of_written {packageName : ByteString} {own own₁ own' : Own}
    {db db' : InstalledDb} (loaded : TextOf own.status db) (before : own.writes <+: own₁.writes)
    (written : own' = own₁.written db' own'.status)
    (others : ∀ name ≠ packageName, db'.lookup name = db.lookup name) :
    Erases packageName own own' := by
  have writes : own'.writes = own₁.writes ++ [(db', own'.status)] := by
    rw [written]
    rfl
  refine ⟨before.trans (writes ▸ List.prefix_append _ _), fun faithful name other => ?_⟩
  have reads : TextOf own'.status db' := faithful (db', own'.status) (by simp [writes])
  rw [reads.lookup, others name other, loaded.lookup]

theorem removePackage_spec (packageName : ByteString) (opts : RemoveOptions)
    (w : InstallWorld) :
    wp (removePackage dev packageName opts)
      (fun _ w' => Erases packageName w.own w'.own)
      (fun _ w' => Erases packageName w.own w'.own) w := by
  have stays : Erases packageName w.own w.own := SameStatus.erases ⟨rfl, rfl⟩ _
  refine wp_ite.mpr ⟨fun _ => stays, fun _ => ?_⟩
  split
  · exact stays
  refine wp_bind.mpr (wp_mono (loadStatus_spec dev w) (fun r w₁ h => ?_) fun _ _ h => h.elim)
  obtain ⟨own, loaded⟩ := h
  rw [← own] at stays loaded ⊢
  cases r with
  | error _ => exact stays
  | ok db =>
    have loaded := loaded db rfl
    dsimp only
    split
    · exact stays
    refine wp_ite.mpr ⟨fun _ => stays, fun _ => wp_bind.mpr ?_⟩
    refine wp_mono (writeStatus_spec dev _ w₁) (fun r w₂ h₂ => ?_) fun _ _ h => h.elim
    cases r with
    | some _ => exact SameStatus.erases (.of_eq h₂) _
    | none =>
      have erased : Erases packageName w₁.own w₂.own :=
        erases_of_written loaded (List.prefix_refl _) h₂ fun name other =>
          AList.lookup_erase_ne other
      refine wp_bind.mpr (wp_mono ((removePackagePayload_keeps dev).wp w₂)
        (fun r w₃ h₃ => ?_) fun _ _ h₃ => h₃ ▸ erased)
      have erased : Erases packageName w₁.own w₃.own := h₃.symm ▸ erased
      cases r with
      | none => exact erased
      | some _ =>
        refine wp_bind.mpr (wp_mono (writeStatus_spec dev _ w₃) (fun r w₄ h₄ => ?_)
          fun _ _ h => h.elim)
        cases r with
        | none => exact erases_of_written loaded erased.grows h₄ fun _ _ => rfl
        | some _ =>
          have h₄ : w₄.own = w₃.own := h₄
          have erased : Erases packageName w₁.own w₄.own := h₄.symm ▸ erased
          exact erased

/-! ### Manual packages -/

/-- The package is recorded as manual. -/
def ManualIn (db : InstalledDb) (name : ByteString) : Prop :=
  ∃ pkg, db.lookup name = some pkg ∧ pkg.autoInstalled = false

/-- The names are recorded as manual in the status file, if the texts written to it gave
back their maps. -/
def AllManual (names : List ByteString) (own : Own) : Prop :=
  own.Faithful → ∀ name ∈ names, ManualIn (parseStatus own.status) name

/-- What is manual stays manual. -/
structure StaysManual (names : List ByteString) (own own' : Own) : Prop where
  grows : own.writes <+: own'.writes
  keeps : AllManual names own → AllManual names own'

section Manual

variable {names : List ByteString} {own own' own'' : Own}

theorem SameStatus.staysManual (h : SameStatus own own') : StaysManual names own own' := by
  refine ⟨h.grows, fun manual faithful => ?_⟩
  rw [h.status]
  exact manual (faithful.of_prefix h.grows)

theorem StaysManual.trans (h : StaysManual names own own') (h' : StaysManual names own' own'') :
    StaysManual names own own'' :=
  ⟨h.grows.trans h'.grows, fun manual => h'.keeps (h.keeps manual)⟩

theorem Erases.staysManual {packageName : ByteString} (h : Erases packageName own own')
    (other : packageName ∉ names) : StaysManual names own own' := by
  refine ⟨h.grows, fun manual faithful name hname => ?_⟩
  rw [ManualIn, h.others faithful name fun same => other (same ▸ hname)]
  exact manual (faithful.of_prefix h.grows) name hname

/-- Recording a package keeps manual packages manual. -/
theorem record_manual {termuxMode : Bool} {rootPackage : ByteString} {db : InstalledDb}
    {pkg : PackageEntry} {name : ByteString} (h : ManualIn db name) :
    ManualIn (record termuxMode rootPackage db pkg) name := by
  obtain ⟨previous, found, manual⟩ := h
  by_cases same : name = pkg.packageName
  · subst same
    refine ⟨_, record_lookup_self _ _ _ _, ?_⟩
    simp [installedRecord, found, manual]
  · exact ⟨previous, (record_lookup_ne same).trans found, manual⟩

theorem recordAll_manual {termuxMode : Bool} {rootPackage : ByteString}
    (plan : List PackageEntry) {db : InstalledDb} {name : ByteString} (h : ManualIn db name) :
    ManualIn (recordAll termuxMode rootPackage db plan) name := by
  induction plan generalizing db with
  | nil => exact h
  | cons pkg plan ih => exact ih (record_manual h)

/-- **Installs keep manual packages manual.** -/
theorem Installs.staysManual {repoIndices : RepoIndexList} {rootPackage : ByteString}
    {termuxMode : Bool} {db : InstalledDb} {done : List PackageEntry}
    (h : Installs repoIndices rootPackage termuxMode own db done own') :
    StaysManual names own own' := by
  refine ⟨h.progress.grows, fun manual faithful name hname => ?_⟩
  rw [ManualIn, (h.progress.tracks faithful).lookup]
  refine recordAll_manual done ?_
  rw [ManualIn, ← h.loaded.lookup]
  exact manual (faithful.of_prefix h.progress.grows) name hname

end Manual

/-- A candidate of `autoremove` is automatic. -/
theorem autoremoveCandidates_auto {db : InstalledDb} {name : ByteString}
    (candidate : name ∈ autoremoveCandidates db) : ¬ ManualIn db name := by
  rintro ⟨pkg, found, manual⟩
  obtain ⟨⟨name, pkg'⟩, kept, rfl⟩ := List.mem_map.mp candidate
  obtain ⟨entry, auto⟩ := List.mem_filter.mp kept
  rw [AList.mem_lookup_iff.mpr entry] at found
  cases found
  simp [manual] at auto

theorem removeCandidate_manual {names : List ByteString} (opts : RemoveOptions)
    {name : ByteString} (other : name ∉ names) (x : List ByteString × Bool) (w : InstallWorld) :
    wp (removeCandidate dev opts name x) (fun _ w' => StaysManual names w.own w'.own)
      (fun _ w' => StaysManual names w.own w'.own) w := by
  refine wp_bind.mpr (wp_attempt.mpr (wp_mono (removePackage_spec dev name opts w) ?_ ?_))
  · exact fun _ _ erased => erased.staysManual other
  · exact fun _ _ erased => erased.staysManual other

/-- Only a state that has the manual packages has to keep them. -/
theorem StaysManual.of_not {names : List ByteString} {own own' : Own}
    (h : ¬ (own.Faithful ∧ AllManual names own)) (grows : own.writes <+: own'.writes) :
    StaysManual names own own' :=
  ⟨grows, fun manual faithful => (h ⟨faithful.of_prefix grows, manual⟩).elim⟩

/-- Removing candidates keeps the names that are none of them. -/
theorem removeCandidates_manual {names : List ByteString} (opts : RemoveOptions)
    {candidates : List ByteString} (others : ∀ name ∈ candidates, name ∉ names)
    (x : List ByteString × Bool) (w : InstallWorld) :
    wp (forEach (removeCandidate dev opts) candidates x)
      (fun _ w' => StaysManual names w.own w'.own)
      (fun _ w' => StaysManual names w.own w'.own) w := by
  refine wp_forEach (fun _ (w' : InstallWorld) => StaysManual names w.own w'.own)
    (fun name hname x s stays => ?_)
    (SameStatus.staysManual ⟨rfl, rfl⟩)
  exact wp_mono (removeCandidate_manual dev opts (others name hname) x s)
    (fun _ _ next => stays.trans next) fun _ _ next => stays.trans next

/-- **Autoremove keeps manual packages.** -/
theorem autoremoveLoop_manual (names : List ByteString) (opts : RemoveOptions) (fuel : Nat)
    (removed : List ByteString) (w : InstallWorld) :
    wp (autoremoveLoop dev opts fuel removed) (fun _ w' => StaysManual names w.own w'.own)
      (fun _ w' => StaysManual names w.own w'.own) w := by
  induction fuel generalizing removed w with
  | zero => exact SameStatus.staysManual ⟨rfl, rfl⟩
  | succ fuel ih =>
    have stays : StaysManual names w.own w.own := SameStatus.staysManual ⟨rfl, rfl⟩
    refine wp_bind.mpr (wp_mono (loadStatus_spec dev w) (fun r w₁ h => ?_) fun _ _ h => h.elim)
    obtain ⟨own, loaded⟩ := h
    rw [← own] at stays loaded ⊢
    cases r with
    | error _ => exact stays
    | ok db =>
      have loaded := loaded db rfl
      refine wp_ite.mpr ⟨fun _ => stays, fun _ => wp_bind.mpr ?_⟩
      -- The candidates of a state that has the manual packages are none of them.
      have turn : wp (forEach (removeCandidate dev opts) (autoremoveCandidates db) (removed, false))
          (fun _ w' => StaysManual names w₁.own w'.own)
          (fun _ w' => StaysManual names w₁.own w'.own) w₁ := by
        by_cases h : w₁.own.Faithful ∧ AllManual names w₁.own
        · refine removeCandidates_manual dev opts (fun name candidate hname => ?_) _ _
          refine autoremoveCandidates_auto candidate ?_
          rw [ManualIn, ← loaded.lookup]
          exact h.2 h.1 name hname
        · have none : ∀ name ∈ autoremoveCandidates db, name ∉ ([] : List ByteString) :=
            fun _ _ => List.not_mem_nil
          have grows := removeCandidates_manual dev opts none (removed, false) w₁
          exact wp_mono grows (fun _ _ kept => .of_not h kept.grows)
            fun _ _ kept => .of_not h kept.grows
      refine wp_mono turn (fun x w₂ kept => wp_ite.mpr ⟨fun _ => ?_, fun _ => kept⟩)
        fun _ _ kept => kept
      exact wp_mono (ih x.1 w₂) (fun _ _ next => kept.trans next) fun _ _ next => kept.trans next

/-! ### Roots -/

/-- The root is recorded in the flavour as a dependency. -/
def AutoRecorded (db : InstalledDb) (rootPackage : ByteString) (termuxMode : Bool) : Prop :=
  ∃ pkg, db.lookup rootPackage = some pkg ∧ pkg.termuxPackage = termuxMode ∧
    pkg.autoInstalled = true

/-- **The root of an install** is manual afterwards, unless it was recorded as a
dependency: the resolver then leaves it out of the plan. -/
theorem root_manual_iff {repoIndices : RepoIndexList} {rootPackage : ByteString}
    {termuxMode : Bool} {db : InstalledDb} {own own' : Own}
    (h : Installs repoIndices rootPackage termuxMode own db
      (planOf repoIndices rootPackage termuxMode db) own')
    (ok : (resolve repoIndices rootPackage termuxMode []).ok = true)
    (faithful : own'.Faithful) :
    ManualIn (parseStatus own'.status) rootPackage ↔
      ¬ AutoRecorded (parseStatus own.status) rootPackage termuxMode := by
  have plan := planOf_spec db ok
  rw [ManualIn, AutoRecorded, (h.progress.tracks faithful).lookup, h.loaded.lookup,
    recordAll_lookup plan.nodup]
  cases recorded : recordedAs db rootPackage termuxMode with
  | true =>
    have absent : (planOf repoIndices rootPackage termuxMode db).find?
        (·.packageName == rootPackage) = none := by
      refine List.find?_eq_none.mpr fun pkg planned => ?_
      rw [beq_iff_eq]
      rintro rfl
      rw [planOf_fresh ok planned] at recorded
      cases recorded
    obtain ⟨pkg, found, flavour⟩ := Option.any_eq_true _ _ |>.mp recorded
    rw [beq_iff_eq] at flavour
    simp [absent, found, flavour]
  | false =>
    have fresh : rootPackage ∉ installedNames db termuxMode := by
      rw [mem_installedNames, recorded]
      exact Bool.false_ne_true
    obtain ⟨root, selected, last⟩ := plan.rootLast fresh
    have named := selectEntry_name selected
    have found := (find?_entry plan.nodup).mpr ⟨List.mem_of_getLast? last, named⟩
    have manual : (installedRecord db termuxMode rootPackage root).autoInstalled = false := by
      simp only [installedRecord, named]
      split <;> simp
    refine iff_of_true ⟨_, by rw [found]; rfl, manual⟩ ?_
    rintro ⟨previous, hprevious, flavour, -⟩
    simp [recordedAs, hprevious, flavour] at recorded

/-! ### Runs -/

inductive Op where
  | install (repoIndices : RepoIndexList) (rootPackage : ByteString) (opts : InstallOptions)
  | remove (packageName : ByteString) (opts : RemoveOptions)
  /-- Some turns of an autoremove. -/
  | autoremove (fuel : Nat) (opts : RemoveOptions)

/-- The device's state, and the roots that were installed and not removed since. -/
structure Session where
  world : InstallWorld
  roots : List ByteString

/-- Perform an operation. The roots follow the user's requests. -/
def Session.perform (x : Session) : Op → Session
  | .install repoIndices rootPackage opts =>
      let done := exec (installWithDeps dev repoIndices rootPackage opts) x.world
      { world := done.2
        roots := if done.1.isOk && !opts.simulate then rootPackage :: x.roots else x.roots }
  | .remove packageName opts =>
      { world := (exec (removePackage dev packageName opts) x.world).2
        roots := x.roots.filter (· != packageName) }
  | .autoremove fuel opts =>
      { world := (exec (autoremove dev fuel opts) x.world).2, roots := x.roots }

def Session.run (x : Session) (ops : List Op) : Session := ops.foldl (Session.perform dev) x

/-- The empty status file. -/
def Session.start (disk : ByteString → Option Node) (clock : Nat) : Session where
  world := { disk, clock, own := {} }
  roots := []

/-- The roots are recorded as manual. -/
def Session.RootsManual (x : Session) : Prop :=
  ∀ root ∈ x.roots, ManualIn (parseStatus x.world.own.status) root

/-- The operation installs a root that is recorded as a dependency. -/
def Session.Demands (x : Session) : Op → Prop
  | .install repoIndices rootPackage opts =>
      opts.simulate = false ∧
      (exec (installWithDeps dev repoIndices rootPackage opts) x.world).1.isOk = true ∧
      AutoRecorded (parseStatus x.world.own.status) rootPackage
        (termuxModeOf repoIndices rootPackage opts)
  | .remove _ _ | .autoremove _ _ => False

/-- The final state of a run, from postconditions that do not look at the result. -/
theorem wp_final {ε α : Type} {act : Act InstallWorld ε α} {P : InstallWorld → Prop}
    {w : InstallWorld} (h : wp act (fun _ => P) (fun _ => P) w) : P (exec act w).2 := by
  unfold wp at h
  split at h <;> simp_all

theorem installWithDeps_manual (names : List ByteString) (repoIndices : RepoIndexList)
    (rootPackage : ByteString) (opts : InstallOptions) (w : InstallWorld) :
    wp (installWithDeps dev repoIndices rootPackage opts)
      (fun _ w' => StaysManual names w.own w'.own)
      (fun _ w' => StaysManual names w.own w'.own) w := by
  cases real : opts.simulate with
  | true =>
    exact wp_mono ((installWithDeps_simulated dev repoIndices rootPackage real).wp w)
      (fun _ _ own => (SameStatus.of_eq own).staysManual)
      fun _ _ own => (SameStatus.of_eq own).staysManual
  | false =>
    refine wp_mono (installWithDeps_spec dev repoIndices rootPackage real w) ?_ ?_
    · rintro _ _ ⟨db, installs, -, -⟩
      exact installs.staysManual
    · rintro _ _ ⟨db, done, installs⟩
      exact installs.staysManual

theorem autoremove_manual (names : List ByteString) (fuel : Nat) (opts : RemoveOptions)
    (w : InstallWorld) :
    wp (autoremove dev fuel opts) (fun _ w' => StaysManual names w.own w'.own)
      (fun _ w' => StaysManual names w.own w'.own) w := by
  refine wp_bind.mpr (wp_mono (autoremoveLoop_manual dev names opts fuel [] w)
    (fun removed _ kept => ?_) fun _ _ kept => kept)
  cases removed with
  | none => exact kept
  | some _ => exact kept

/-- An operation keeps the roots manual that it does not remove. -/
theorem Session.perform_manual (x : Session) (op : Op) :
    StaysManual (match op with
      | .remove packageName _ => x.roots.filter (· != packageName)
      | _ => x.roots) x.world.own (x.perform dev op).world.own := by
  cases op with
  | install repoIndices rootPackage opts =>
    exact wp_final (installWithDeps_manual dev x.roots repoIndices rootPackage opts x.world)
  | remove packageName opts =>
    have erases := wp_final (removePackage_spec dev packageName opts x.world)
    exact erases.staysManual (by simp)
  | autoremove fuel opts => exact wp_final (autoremove_manual dev x.roots fuel opts x.world)

/-- A successful real install makes its root manual, unless it was recorded as a
dependency. -/
theorem installed_root_manual_iff {repoIndices : RepoIndexList} {rootPackage : ByteString}
    {opts : InstallOptions} {w : InstallWorld} (real : opts.simulate = false)
    (succeeds : (exec (installWithDeps dev repoIndices rootPackage opts) w).1.isOk = true)
    (faithful : (exec (installWithDeps dev repoIndices rootPackage opts) w).2.own.Faithful) :
    ManualIn (parseStatus
        (exec (installWithDeps dev repoIndices rootPackage opts) w).2.own.status) rootPackage ↔
      ¬ AutoRecorded (parseStatus w.own.status) rootPackage
        (termuxModeOf repoIndices rootPackage opts) := by
  have spec := installWithDeps_spec dev repoIndices rootPackage real w
  rcases run : exec (installWithDeps dev repoIndices rootPackage opts) w with ⟨_ | r, w'⟩
  · rw [run] at succeeds
    cases succeeds
  · rw [run] at faithful
    obtain ⟨db, installs, ok, -⟩ := spec.ok run
    exact root_manual_iff installs ok faithful

/-- **One operation** keeps the roots manual, unless it installs a root that is recorded
as a dependency. -/
theorem Session.rootsManual_perform_iff {x : Session} {op : Op} (manual : x.RootsManual)
    (faithful : (x.perform dev op).world.own.Faithful) :
    (x.perform dev op).RootsManual ↔ ¬ x.Demands dev op := by
  have kept := (x.perform_manual dev op).keeps
  cases op with
  | install repoIndices rootPackage opts =>
    have kept := kept (fun _ => manual) faithful
    cases tracked :
      (exec (installWithDeps dev repoIndices rootPackage opts) x.world).1.isOk &&
        !opts.simulate with
    | true =>
      obtain ⟨succeeds, real⟩ := Bool.and_eq_true_iff.mp tracked
      have real : opts.simulate = false := by simpa using real
      have root := installed_root_manual_iff dev real succeeds faithful
      have roots : (x.perform dev (.install repoIndices rootPackage opts)).roots =
          rootPackage :: x.roots := if_pos tracked
      rw [Session.RootsManual, roots, List.forall_mem_cons]
      refine (and_iff_left kept).trans (root.trans (not_congr ?_))
      exact ⟨fun h => ⟨real, succeeds, h⟩, fun h => h.2.2⟩
    | false =>
      have roots : (x.perform dev (.install repoIndices rootPackage opts)).roots = x.roots :=
        if_neg (by simp [tracked])
      refine iff_of_true ?_ fun ⟨real, succeeds, _⟩ => by simp [real, succeeds] at tracked
      rw [Session.RootsManual, roots]
      exact kept
  | remove packageName opts =>
    refine iff_of_true (kept (fun _ root hroot => ?_) faithful) fun h => h
    exact manual root (List.mem_filter.mp hroot).1
  | autoremove fuel opts => exact iff_of_true (kept (fun _ => manual) faithful) fun h => h

theorem Session.run_append (x : Session) (ops : List Op) (op : Op) :
    x.run dev (ops ++ [op]) = (x.run dev ops).perform dev op := by
  rw [Session.run, List.foldl_append]
  rfl

/-- A longer run has written more. -/
theorem Session.run_grows (x : Session) {before ops : List Op} (h : before <+: ops) :
    (x.run dev before).world.own.writes <+: (x.run dev ops).world.own.writes := by
  obtain ⟨rest, rfl⟩ := h
  induction rest using List.reverseRecOn with
  | nil => rw [List.append_nil]
  | append_singleton rest op ih =>
    rw [← List.append_assoc, Session.run_append]
    exact ih.trans (Session.perform_manual dev _ op).grows

/-- **Explicitly installed roots.** Over a run from the empty status file, whose writes
all give back their maps, every root that was installed and not removed since is recorded
as manual at every point, if and only if no install of the run asks for a root that is
recorded in its flavour as a dependency. -/
theorem roots_stay_manual_iff (disk : ByteString → Option Node) (clock : Nat) (ops : List Op)
    (faithful : ((Session.start disk clock).run dev ops).world.own.Faithful) :
    (∀ before, before <+: ops → ((Session.start disk clock).run dev before).RootsManual) ↔
      ∀ before op, before ++ [op] <+: ops →
        ¬ ((Session.start disk clock).run dev before).Demands dev op := by
  have faithfulAt {before : List Op} (h : before <+: ops) :
      ((Session.start disk clock).run dev before).world.own.Faithful :=
    faithful.of_prefix (Session.run_grows dev _ h)
  constructor
  · intro all before op h
    have earlier := (List.prefix_append before [op]).trans h
    have next := faithfulAt h
    rw [Session.run_append] at next
    refine (Session.rootsManual_perform_iff dev (all before earlier) next).mp ?_
    rw [← Session.run_append]
    exact all _ h
  · intro none before h
    induction before using List.reverseRecOn with
    | nil => exact fun root hroot => nomatch hroot
    | append_singleton before op ih =>
      have manual := ih ((List.prefix_append before [op]).trans h)
      have next := faithfulAt h
      rw [Session.run_append] at next ⊢
      exact (Session.rootsManual_perform_iff dev manual next).mpr (none before op h)

instance {db : InstalledDb} : DecidablePred (ManualIn db) := fun name =>
  decidable_of_iff ((db.lookup name).any fun pkg => !pkg.autoInstalled)
    (by simp [ManualIn, Option.any_eq_true])

instance {db : InstalledDb} {rootPackage : ByteString} {termuxMode : Bool} :
    Decidable (AutoRecorded db rootPackage termuxMode) :=
  decidable_of_iff ((db.lookup rootPackage).any fun pkg =>
      pkg.termuxPackage == termuxMode && pkg.autoInstalled)
    (by simp [AutoRecorded, Option.any_eq_true])

instance {x : Session} : Decidable x.RootsManual :=
  inferInstanceAs (Decidable (∀ root ∈ x.roots, ManualIn (parseStatus x.world.own.status) root))

/-- An application and its library. -/
def appIndices : RepoIndexList :=
  [indexOf "main" .Disabled [plainPackage "app" ["lib"], plainPackage "lib" []]]

/-- Install an application, remove it, and remove its library. -/
def appRun : List Op :=
  [.install appIndices (str "app") {}, .remove (str "app") {}, .autoremove 3 {}]

theorem roots_stay_manual_iff_app :
    (∀ before, before <+: appRun →
        ((Session.start (fun _ => none) 0).run (plainDevice true) before).RootsManual) ↔
      ∀ before op, before ++ [op] <+: appRun →
        ¬ ((Session.start (fun _ => none) 0).run (plainDevice true) before).Demands
          (plainDevice true) op :=
  roots_stay_manual_iff (plainDevice true) (fun _ => none) 0 appRun (by decide +kernel)

/-- The library comes with the application, is then installed explicitly, and goes with
the next autoremove. -/
theorem explicit_root_autoremoved :
    ¬ ∀ before, before <+: [Op.install appIndices (str "app") {},
        .install appIndices (str "lib") {}, .remove (str "app") {}, .autoremove 3 {}] →
      ((Session.start (fun _ => none) 0).run (plainDevice true) before).RootsManual := by
  intro manual
  exact absurd (manual _ (List.prefix_refl _)) (by decide +kernel)

end Apm.Install
