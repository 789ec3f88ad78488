import Apm.Install.Remove

/-!
`installWithDeps` and `removePackage` of `src/apmd/install_manager.cpp`, by the records of the
status file and the root directories of the payloads.

Each step works or not. What a payload holds is left out, but for root directories that it brings
itself, and so are the texts of the errors, which stand with the path-level code. A status write
that reports success has written the map.

## Main results

* `installWithDeps_records`: an install records its plan, and one that fails has recorded the
  packages of a first part of the plan.
-/

namespace Apm.Install.RootState

open Apm.Repo Apm.Fs Apm.Config Apm.Lib.Effect Apm.Status

/-! ### What the system does -/

/-- The steps of installing one package that may fail, removals of roots by what they are for. -/
inductive Step where
  | gates | unpack | oldManifest | oldFiles | oldRoot | load | staleRoot | replacedRoot
  | runtimeDirs | clearRoot | makeRoot | setMode | copyTree | writeManifest | undoRoot | rename
  | status | newManifest | newFiles | newRoot

/-- What the system does while one package is installed, and what is in its `.deb`. -/
structure Turn where
  works : Step → Bool
  /-- The payload has the Termux layout. -/
  layout : Bool
  /-- The payload is empty. -/
  empty : Bool
  /-- Root directories among the payload's own files. -/
  brings : ByteString → Bool
  /-- Root directories that are empty when a step takes empty directories away. -/
  prunes : Step → ByteString → Bool

/-- The status map, and which root directories of payloads are there. -/
structure Store where
  db : InstalledDb := ∅
  roots : ByteString → Bool := fun _ => false

def Store.setRoot (s : Store) (root : ByteString) (there : Bool) : Store :=
  { s with roots := Function.update s.roots root there }

variable {ε : Type} (t : Turn)

/-! ### Steps -/

def pathExists (root : ByteString) : Act Store ε Bool := update fun s => (s.roots root, s)

/-- `removeDirRecursive`: is nothing left? -/
def removeTree (step : Step) (root : ByteString) : Act Store ε Bool :=
  update fun s =>
    if t.works step then (true, s.setRoot root false) else (!s.roots root, s)

/-- `createDirs`. -/
def makeDir (step : Step) (root : ByteString) : Act Store ε Bool :=
  update fun s =>
    if t.works step then (true, s.setRoot root true) else (s.roots root, s)

/-- `pruneEmptyDirs` below the Termux prefix. -/
def pruneEmptyDirs (step : Step) : Act Store ε Unit :=
  update fun s => ((), { s with roots := fun path => s.roots path && !t.prunes step path })

/-- `copyTermuxTree`: whatever it copies may be root directories. -/
def copyTermuxTree : Act Store ε Bool :=
  update fun s => (t.works .copyTree, { s with roots := fun path => s.roots path || t.brings path })

/-- `rollbackTermuxInstall`. -/
def rollbackTermuxInstall (step : Step) (root : ByteString) : Act Store ε Unit := do
  pruneEmptyDirs t step
  let _ ← removeTree t step root
  pure ()

/-- `removeTermuxPackageFiles`. -/
def removeTermuxPackageFiles (manifest files removal : Step) (root : ByteString) :
    Act Store ε Bool := do
  if t.works manifest then
    pruneEmptyDirs t removal
    let removed ← removeTree t removal root
    pure (t.works files && removed)
  else pure false

/-- `removeNonTermuxPackageTree`. -/
def removeNonTermuxPackageTree (removal : Step) (root : ByteString) : Act Store ε Bool := do
  if root.isEmpty then pure false else removeTree t removal root

/-- `removePackagePayload`. -/
def removePackagePayload (manifest files removal : Step) (ip : InstalledPackage) :
    Act Store ε Bool :=
  if ip.termuxPackage then removeTermuxPackageFiles t manifest files removal ip.installRoot
  else removeNonTermuxPackageTree t removal ip.installRoot

/-- `writeStatus`. -/
def writeStatus (step : Step) (db : InstalledDb) : Act Store ε Bool :=
  update fun s => if t.works step then (true, { s with db }) else (false, s)

/-! ### Placing a payload -/

/-- `cleanupStaleTermuxInstallRoot`. -/
def cleanupStaleTermuxInstallRoot (name root : ByteString) : Act Store ε Bool := do
  let recorded ← update fun s => (recordedAs s.db name true, s)
  if !t.works .load || recorded then pure false
  else
    rollbackTermuxInstall t .staleRoot root
    pure !(← pathExists root)

/-- A root that is not to be replaced is only taken away if it is stale. -/
def cleanupRoot (termuxMode : Bool) (name root : ByteString) : Act Store ε Bool :=
  if termuxMode then cleanupStaleTermuxInstallRoot t name root else pure false

/-- What is done about a root that is there already: may the payload be placed? -/
def makeRoom (reinstall termuxMode : Bool) (name root : ByteString) : Act Store ε Bool := do
  if !(← pathExists root) then pure true
  else if reinstall then
    let _ ← removeTree t .replacedRoot root
    pure true
  else
    let cleaned ← cleanupRoot t termuxMode name root
    pure (cleaned || !(← pathExists root))

/-- `rewriteTermuxPathsDuringExtraction`. -/
def placeTermux (root : ByteString) : Act Store ε Bool := do
  if !t.works .runtimeDirs then pure false
  else
    let _ ← removeTree t .clearRoot root
    if !(← makeDir t .makeRoot root) then pure false
    else if (← copyTermuxTree t) && t.works .writeManifest then pure true
    else
      rollbackTermuxInstall t .undoRoot root
      pure false

/-- A Termux package without files has a root with a manifest only. -/
def placeMetadata (root : ByteString) : Act Store ε Bool := do
  if !(← makeDir t .makeRoot root) then pure false
  else if !t.works .setMode then pure false
  else if t.works .writeManifest then pure true
  else
    let _ ← removeTree t .undoRoot root
    pure false

/-- `rename` of the unpacked files. -/
def moveIntoPlace (root : ByteString) : Act Store ε Bool :=
  update fun s => if t.works .rename then (true, s.setRoot root true) else (false, s)

def placePayload (termuxMode : Bool) (root : ByteString) : Act Store ε Bool :=
  if termuxMode then
    if t.layout then placeTermux t root
    else if t.empty then placeMetadata t root
    else pure false
  else moveIntoPlace t root

/-- `installSinglePackage`. -/
def installSinglePackage (reinstall isTermuxPackage : Bool) (name root : ByteString) :
    Act Store ε Bool := do
  if (Security.validatePackageName name).isSome || !t.works .unpack then pure false
  else
    let termuxMode := isTermuxPackage || t.layout
    if ← makeRoom t reinstall termuxMode name root then placePayload t termuxMode root
    else pure false

/-! ### Installing -/

/-- What the system does during one call. -/
structure Call where
  loads : Bool
  /-- All `.deb` files are found or downloaded. -/
  gathers : Bool
  turn : ByteString → Turn

/-- A reinstalled Termux package loses its old files first. -/
def removeReplaced (reinstall termuxMode : Bool) (db : InstalledDb) (name : ByteString) :
    Act Store ε Unit :=
  match db.lookup name with
  | some existing =>
      if reinstall && termuxMode && existing.termuxPackage then do
        let _ ← removeTermuxPackageFiles t .oldManifest .oldFiles .oldRoot existing.installRoot
        pure ()
      else pure ()
  | none => pure ()

/-- Record a placed package; a new one that cannot be recorded is removed again. -/
def recordInstalled (termuxMode : Bool) (rootPackage : ByteString) (pkg : PackageEntry)
    (x : InstalledDb × List ByteString) :
    Act Store (List ByteString) (InstalledDb × List ByteString) := do
  let installedDb := record termuxMode rootPackage x.1 pkg
  if ← writeStatus t .status installedDb then pure (installedDb, x.2 ++ [pkg.packageName])
  else if (x.1.lookup pkg.packageName).isSome then throw x.2
  else
    let _ ← removePackagePayload t .newManifest .newFiles .newRoot
      (installedRecord x.1 termuxMode rootPackage pkg)
    throw x.2

/-- One turn of the install loop, over the status map and the names installed so far. -/
def installPlanned (c : Call) (reinstall termuxMode : Bool) (rootPackage : ByteString)
    (pkg : PackageEntry) (x : InstalledDb × List ByteString) :
    Act Store (List ByteString) (InstalledDb × List ByteString) := do
  let t := c.turn pkg.packageName
  removeReplaced t reinstall termuxMode x.1 pkg.packageName
  if !t.works .gates || (Security.validatePackageName pkg.packageName).isSome then throw x.2
  else if ← installSinglePackage t reinstall termuxMode pkg.packageName
      (installRootOf termuxMode rootPackage pkg.packageName) then
    recordInstalled t termuxMode rootPackage pkg x
  else throw x.2

/-- `installWithDeps`: the names that were installed, also where it fails. -/
def installWithDeps (c : Call) (repoIndices : RepoIndexList) (rootPackage : ByteString)
    (opts : InstallOptions) : Act Store (List ByteString) (List ByteString) := do
  let termuxMode := termuxModeOf repoIndices rootPackage opts
  let db ← update fun s => (s.db, s)
  if rootPackage.isEmpty || (Security.validatePackageName rootPackage).isSome ||
      !hasRoot (mergeIndices repoIndices) rootPackage termuxMode || !c.loads then throw []
  else if !(resolve repoIndices rootPackage termuxMode (installedNames db termuxMode)).ok then
    throw []
  else
    let plan := planOf repoIndices rootPackage termuxMode db
    if opts.simulate then pure (plan.map (·.packageName))
    else if !c.gathers then throw []
    else
      let planned := plan.filter fun pkg =>
        opts.reinstall || !recordedAs db pkg.packageName termuxMode
      let x ← forEach (installPlanned c opts.reinstall termuxMode rootPackage) planned (db, [])
      pure x.2

/-! ### Removing -/

/-- `removePackage`. The write that brings the record back works. -/
def removePackage (loads : Bool) (t : Turn) (packageName : ByteString) (opts : RemoveOptions) :
    Act Store Unit Unit := do
  if packageName.isEmpty || (Security.validatePackageName packageName).isSome || !loads then
    throw ()
  else
    let db ← update fun s => (s.db, s)
    match db.lookup packageName with
    | none => pure ()
    | some ip =>
        if !opts.force && !(dependentsOf db packageName ip.termuxPackage).isEmpty then throw ()
        else if !(← writeStatus t .status (db.erase packageName)) then throw ()
        else if ← removePackagePayload t .oldManifest .oldFiles .oldRoot
            { ip with installRoot := rootOf packageName ip } then pure ()
        else
          update fun s => ((), { s with db })
          throw ()

/-! ### Steps that record nothing -/

/-- The program ends without an error and leaves the map alone. -/
def Quiet {α : Type} (act : Act Store ε α) : Prop :=
  ∀ s, wp act (fun _ s' => s'.db = s.db) (fun _ _ => False) s

section Rules

variable {α β : Type}

theorem quiet_pure (a : α) : Quiet (pure a : Act Store ε α) := fun _ => rfl

theorem quiet_update {f : Store → α × Store} (h : ∀ s, (f s).2.db = s.db) :
    Quiet (update f : Act Store ε α) := h

theorem Quiet.bind {act : Act Store ε α} {f : α → Act Store ε β} (h : Quiet act)
    (hf : ∀ a, Quiet (f a)) : Quiet (act >>= f) := by
  intro s
  refine wp_bind.mpr (wp_mono (h s) (fun a s₁ first => ?_) fun _ _ no => no)
  exact wp_mono (hf a s₁) (fun _ _ rest => rest.trans first) fun _ _ no => no

theorem Quiet.ite {c : Prop} [Decidable c] {act act' : Act Store ε α} (h : Quiet act)
    (h' : Quiet act') : Quiet (if c then act else act') := by
  split
  · exact h
  · exact h'

end Rules

theorem pathExists_quiet (root : ByteString) : Quiet (pathExists (ε := ε) root) :=
  quiet_update fun _ => rfl

theorem removeTree_quiet (step : Step) (root : ByteString) :
    Quiet (removeTree (ε := ε) t step root) := by
  apply quiet_update
  intro s
  split
  · rfl
  · rfl

theorem makeDir_quiet (step : Step) (root : ByteString) :
    Quiet (makeDir (ε := ε) t step root) := by
  apply quiet_update
  intro s
  split
  · rfl
  · rfl

theorem moveIntoPlace_quiet (root : ByteString) : Quiet (moveIntoPlace (ε := ε) t root) := by
  apply quiet_update
  intro s
  split
  · rfl
  · rfl

theorem pruneEmptyDirs_quiet (step : Step) : Quiet (pruneEmptyDirs (ε := ε) t step) :=
  quiet_update fun _ => rfl

theorem copyTermuxTree_quiet : Quiet (copyTermuxTree (ε := ε) t) := quiet_update fun _ => rfl

theorem rollbackTermuxInstall_quiet (step : Step) (root : ByteString) :
    Quiet (rollbackTermuxInstall (ε := ε) t step root) :=
  (pruneEmptyDirs_quiet t step).bind fun _ =>
    (removeTree_quiet t step root).bind fun _ => quiet_pure _

theorem removeTermuxPackageFiles_quiet (manifest files removal : Step) (root : ByteString) :
    Quiet (removeTermuxPackageFiles (ε := ε) t manifest files removal root) := by
  refine .ite ((pruneEmptyDirs_quiet t removal).bind fun _ => ?_) (quiet_pure _)
  exact (removeTree_quiet t removal root).bind fun _ => quiet_pure _

theorem removePackagePayload_quiet (manifest files removal : Step) (ip : InstalledPackage) :
    Quiet (removePackagePayload (ε := ε) t manifest files removal ip) :=
  .ite (removeTermuxPackageFiles_quiet t _ _ _ _) (.ite (quiet_pure _) (removeTree_quiet t _ _))

theorem removeReplaced_quiet (reinstall termuxMode : Bool) (db : InstalledDb)
    (name : ByteString) :
    Quiet (removeReplaced (ε := ε) t reinstall termuxMode db name) := by
  unfold removeReplaced
  split
  · refine .ite ?_ (quiet_pure _)
    exact (removeTermuxPackageFiles_quiet t _ _ _ _).bind fun _ => quiet_pure _
  · exact quiet_pure _

theorem cleanupRoot_quiet (termuxMode : Bool) (name root : ByteString) :
    Quiet (cleanupRoot (ε := ε) t termuxMode name root) := by
  refine .ite (.bind (quiet_update fun _ => rfl) fun recorded => ?_) (quiet_pure _)
  refine .ite (quiet_pure _) ((rollbackTermuxInstall_quiet t _ _).bind fun _ => ?_)
  exact (pathExists_quiet root).bind fun _ => quiet_pure _

theorem makeRoom_quiet (reinstall termuxMode : Bool) (name root : ByteString) :
    Quiet (makeRoom (ε := ε) t reinstall termuxMode name root) := by
  refine (pathExists_quiet root).bind fun there => .ite (quiet_pure _) (.ite ?_ ?_)
  · exact (removeTree_quiet t _ _).bind fun _ => quiet_pure _
  · refine (cleanupRoot_quiet t _ _ _).bind fun _ => ?_
    exact (pathExists_quiet root).bind fun _ => quiet_pure _

theorem placeTermux_quiet (root : ByteString) : Quiet (placeTermux (ε := ε) t root) := by
  refine .ite (quiet_pure _) ((removeTree_quiet t _ _).bind fun _ => ?_)
  refine (makeDir_quiet t _ _).bind fun _ => .ite (quiet_pure _) ?_
  refine (copyTermuxTree_quiet t).bind fun _ => .ite (quiet_pure _) ?_
  exact (rollbackTermuxInstall_quiet t _ _).bind fun _ => quiet_pure _

theorem placeMetadata_quiet (root : ByteString) : Quiet (placeMetadata (ε := ε) t root) := by
  refine (makeDir_quiet t _ _).bind fun _ => .ite (quiet_pure _) (.ite (quiet_pure _) ?_)
  exact .ite (quiet_pure _) ((removeTree_quiet t _ _).bind fun _ => quiet_pure _)

theorem installSinglePackage_quiet (reinstall isTermuxPackage : Bool) (name root : ByteString) :
    Quiet (installSinglePackage (ε := ε) t reinstall isTermuxPackage name root) := by
  refine .ite (quiet_pure _) ((makeRoom_quiet t _ _ _ _).bind fun _ => .ite ?_ (quiet_pure _))
  refine .ite (.ite (placeTermux_quiet t _) (.ite (placeMetadata_quiet t _) (quiet_pure _))) ?_
  exact moveIntoPlace_quiet t _

/-! ### What is recorded -/

theorem writeStatus_spec (step : Step) (db : InstalledDb) (s : Store) :
    wp (writeStatus (ε := ε) t step db)
      (fun ok s' => ok = t.works step ∧ s' = if ok then { s with db } else s)
      (fun _ _ => False) s := by
  refine wp_update.mpr ?_
  split
  · rename_i works
    exact ⟨works.symm, rfl⟩
  · rename_i fails
    exact ⟨by simpa using fails, rfl⟩

section Records

variable (c : Call) (reinstall termuxMode : Bool) (rootPackage : ByteString)

theorem recordInstalled_db (pkg : PackageEntry) {x : InstalledDb × List ByteString} {s : Store}
    (read : x.1 = s.db) :
    wp (recordInstalled t termuxMode rootPackage pkg x)
      (fun x' s' => x'.1 = s'.db ∧ s'.db = record termuxMode rootPackage s.db pkg ∧
        x'.2 = x.2 ++ [pkg.packageName])
      (fun done s' => done = x.2 ∧ s'.db = s.db) s := by
  refine wp_bind.mpr (wp_mono (writeStatus_spec t .status _ s) ?_ fun _ _ no => no.elim)
  rintro ok s' ⟨-, rfl⟩
  cases ok with
  | true => exact ⟨rfl, by rw [read]; rfl, rfl⟩
  | false =>
    refine wp_ite.mpr ⟨nofun, fun _ => wp_ite.mpr ⟨fun _ => ⟨rfl, rfl⟩, fun _ => ?_⟩⟩
    refine wp_bind.mpr (wp_mono (removePackagePayload_quiet t _ _ _ _ s) ?_ fun _ _ no => no.elim)
    exact fun _ _ kept => ⟨rfl, kept⟩

/-- One turn records its package, or leaves the map alone. -/
theorem installPlanned_db (pkg : PackageEntry) {x : InstalledDb × List ByteString} {s : Store}
    (read : x.1 = s.db) :
    wp (installPlanned c reinstall termuxMode rootPackage pkg x)
      (fun x' s' => x'.1 = s'.db ∧ s'.db = record termuxMode rootPackage s.db pkg ∧
        x'.2 = x.2 ++ [pkg.packageName])
      (fun done s' => done = x.2 ∧ s'.db = s.db) s := by
  refine wp_bind.mpr (wp_mono (removeReplaced_quiet _ _ _ _ _ s) ?_ fun _ _ no => no.elim)
  intro _ s₁ kept
  refine wp_ite.mpr ⟨fun _ => ⟨rfl, kept⟩, fun _ => ?_⟩
  refine wp_bind.mpr (wp_mono (installSinglePackage_quiet _ _ _ _ _ s₁) ?_ fun _ _ no => no.elim)
  intro placed s₂ kept'
  rw [kept] at kept'
  refine wp_ite.mpr ⟨fun _ => ?_, fun _ => ⟨rfl, kept'⟩⟩
  rw [← kept']
  exact recordInstalled_db _ _ _ pkg (read.trans kept'.symm)

variable (repoIndices : RepoIndexList) (opts : InstallOptions)

/-- No package of a plan is skipped. -/
theorem planned_all {repoIndices : RepoIndexList} {rootPackage : ByteString} {termuxMode : Bool}
    {db : InstalledDb} (reinstall : Bool)
    (resolved : (resolve repoIndices rootPackage termuxMode
      (installedNames db termuxMode)).ok = true) :
    (planOf repoIndices rootPackage termuxMode db).filter (fun pkg =>
        reinstall || !recordedAs db pkg.packageName termuxMode) =
      planOf repoIndices rootPackage termuxMode db := by
  refine List.filter_eq_self.mpr fun pkg planned => ?_
  rw [planOf_fresh resolved planned]
  simp

/-- **What an install records**: its plan, or the packages of a first part of it where it fails. -/
theorem installWithDeps_records (s : Store) :
    wp (installWithDeps c repoIndices rootPackage opts)
      (fun _ s' => s'.db = if opts.simulate then s.db else
        recordAll (termuxModeOf repoIndices rootPackage opts) rootPackage s.db
          (planOf repoIndices rootPackage (termuxModeOf repoIndices rootPackage opts) s.db))
      (fun names s' => ∃ done, done <+: planOf repoIndices rootPackage
          (termuxModeOf repoIndices rootPackage opts) s.db ∧
        names = done.map (·.packageName) ∧
        s'.db = recordAll (termuxModeOf repoIndices rootPackage opts) rootPackage s.db done) s := by
  unfold installWithDeps
  dsimp only
  generalize termuxModeOf repoIndices rootPackage opts = termuxMode
  have nothing : ∃ done, done <+: planOf repoIndices rootPackage termuxMode s.db ∧
      [] = done.map (·.packageName) ∧
      s.db = recordAll termuxMode rootPackage s.db done := ⟨[], List.nil_prefix, rfl, rfl⟩
  refine wp_bind.mpr (wp_update.mpr (wp_ite.mpr ⟨fun _ => nothing, fun _ => ?_⟩))
  refine wp_ite.mpr ⟨fun _ => nothing, fun resolved => ?_⟩
  refine wp_ite.mpr ⟨fun simulated => (if_pos simulated).symm, fun real => ?_⟩
  refine wp_ite.mpr ⟨fun _ => nothing, fun _ => ?_⟩
  rw [planned_all _ (by simpa using resolved)]
  refine wp_bind.mpr (wp_mono (wp_forEach_done (fun done (x : InstalledDb × List ByteString) s' =>
    x.1 = s'.db ∧ s'.db = recordAll termuxMode rootPackage s.db done ∧
      x.2 = done.map (·.packageName)) ?_ ⟨rfl, rfl, rfl⟩) ?_ fun _ _ h => h)
  · rintro done pkg rest split x s₁ ⟨read, recorded, names⟩
    refine wp_mono (installPlanned_db c _ _ _ pkg read) ?_ ?_
    · rintro x' s' ⟨read', next, name⟩
      refine ⟨read', ?_, by rw [name, names, List.map_append]; rfl⟩
      rw [next, recorded, recordAll, recordAll, List.foldl_append]
      rfl
    · rintro e s' ⟨rfl, same⟩
      exact ⟨done, split ▸ List.prefix_append _ _, names, same.trans recorded⟩
  · rintro x s' ⟨-, recorded, -⟩
    rw [if_neg real]
    exact recorded

end Records

end Apm.Install.RootState
