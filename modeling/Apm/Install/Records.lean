import Apm.Install.Install

/-!
What an install records.

A run of `installWithDeps` that succeeds records every package of its plan, in the plan's
order; one that fails has recorded a first part of the plan (`installWithDeps_spec`). The
map is what the status file gives back as long as every text written to it does.
-/

namespace Apm.Install

open Apm.Repo Apm.Fs Apm.Config Apm.Lib.Effect Apm.Status

variable (dev : Device)

/-! ### The status file and the map -/

/-- The packages unpacked so far. -/
def Own.unpackedPkgs (own : Own) : List PackageEntry :=
  own.log.filterMap fun
    | .unpacked pkg => some pkg
    | .installCalled _ _ _ _ => none

/-- Every text left in the status file gives back its map. -/
def Own.Faithful (own : Own) : Prop := ∀ wr ∈ own.writes, TextOf wr.2 wr.1

instance {own : Own} : Decidable own.Faithful :=
  inferInstanceAs (Decidable (∀ wr ∈ own.writes, (parseStatus wr.2).entries.Perm wr.1.entries))

/-- The start of a run: nothing is verified, written or unpacked in it so far. -/
def freshRun (w : InstallWorld) : InstallWorld := { w with own := { status := w.own.status } }

/-- The status file gives the map, if the texts written to it gave back theirs. -/
def Tracks (own : Own) (db : InstalledDb) : Prop := own.Faithful → TextOf own.status db

theorem Own.Faithful.of_prefix {own own' : Own} (h : own'.Faithful)
    (grows : own.writes <+: own'.writes) : own.Faithful :=
  fun wr hwr => h wr (grows.subset hwr)

/-- The status file is as it was. -/
structure SameStatus (own own' : Own) : Prop where
  status : own'.status = own.status
  writes : own'.writes = own.writes

theorem SameStatus.of_eq {own own' : Own} (h : own' = own) : SameStatus own own' :=
  ⟨congrArg _ h, congrArg _ h⟩

theorem SameStatus.trans {own own' own'' : Own} (h : SameStatus own own')
    (h' : SameStatus own' own'') : SameStatus own own'' :=
  ⟨h'.status.trans h.status, h'.writes.trans h.writes⟩

theorem SameStatus.grows {own own' : Own} (h : SameStatus own own') :
    own.writes <+: own'.writes := h.writes ▸ List.prefix_refl _

theorem SameStatus.tracks {own own' : Own} (h : SameStatus own own') {db : InstalledDb}
    (tracks : Tracks own db) : Tracks own' db := by
  intro faithful
  rw [h.status]
  exact tracks fun wr hwr => faithful wr (h.writes ▸ hwr)

/-- The map after recording a package. -/
def record (termuxMode : Bool) (rootPackage : ByteString) (db : InstalledDb)
    (pkg : PackageEntry) : InstalledDb :=
  db.insert pkg.packageName (installedRecord db termuxMode rootPackage pkg)

/-- The map after recording a plan. -/
def recordAll (termuxMode : Bool) (rootPackage : ByteString) (db : InstalledDb)
    (plan : List PackageEntry) : InstalledDb :=
  plan.foldl (record termuxMode rootPackage) db

theorem record_lookup_ne {termuxMode : Bool} {rootPackage : ByteString} {db : InstalledDb}
    {pkg : PackageEntry} {name : ByteString} (other : name ≠ pkg.packageName) :
    (record termuxMode rootPackage db pkg).lookup name = db.lookup name :=
  AList.lookup_insert_ne other

theorem record_lookup_self (termuxMode : Bool) (rootPackage : ByteString) (db : InstalledDb)
    (pkg : PackageEntry) :
    (record termuxMode rootPackage db pkg).lookup pkg.packageName =
      some (installedRecord db termuxMode rootPackage pkg) :=
  AList.lookup_insert db

/-- A record depends on what the map has for its name only. -/
theorem installedRecord_congr {termuxMode : Bool} {rootPackage : ByteString}
    {db db' : InstalledDb} {pkg : PackageEntry}
    (h : db.lookup pkg.packageName = db'.lookup pkg.packageName) :
    installedRecord db termuxMode rootPackage pkg =
      installedRecord db' termuxMode rootPackage pkg := by
  simp only [installedRecord, h]

/-- What the map has for a name after recording a plan. -/
theorem recordAll_lookup {termuxMode : Bool} {rootPackage : ByteString} {db : InstalledDb}
    {plan : List PackageEntry} (nodup : (plan.map (·.packageName)).Nodup) (name : ByteString) :
    (recordAll termuxMode rootPackage db plan).lookup name =
      ((plan.find? (·.packageName == name)).map (installedRecord db termuxMode rootPackage)).or
        (db.lookup name) := by
  induction plan generalizing db with
  | nil => rfl
  | cons pkg plan ih =>
    obtain ⟨new, nodup⟩ := List.nodup_cons.mp nodup
    rw [recordAll, List.foldl_cons, ← recordAll, ih nodup, List.find?_cons]
    by_cases same : pkg.packageName = name
    · have absent : plan.find? (·.packageName == name) = none := by
        refine List.find?_eq_none.mpr fun q hq => ?_
        rw [beq_iff_eq]
        rintro rfl
        exact new (List.mem_map.mpr ⟨q, hq, same.symm⟩)
      rw [absent, ← same, beq_self_eq_true]
      exact record_lookup_self _ _ _ _
    · rw [beq_eq_false_iff_ne.mpr same, record_lookup_ne (Ne.symm same)]
      refine congrArg (Option.or · _) (Option.map_congr fun q hq => installedRecord_congr ?_)
      have named : q.packageName = name := by simpa using List.find?_some hq
      rw [named, record_lookup_ne (Ne.symm same)]

/-- The entry of a name in a plan. -/
theorem find?_entry {plan : List PackageEntry} (nodup : (plan.map (·.packageName)).Nodup)
    {name : ByteString} {pkg : PackageEntry} :
    plan.find? (·.packageName == name) = some pkg ↔ pkg ∈ plan ∧ pkg.packageName = name := by
  constructor
  · intro found
    exact ⟨List.mem_of_find?_eq_some found, by simpa using List.find?_some found⟩
  · rintro ⟨planned, rfl⟩
    have there : (plan.find? (·.packageName == pkg.packageName)).isSome :=
      List.find?_isSome.mpr ⟨pkg, planned, by simp⟩
    obtain ⟨q, found⟩ := Option.isSome_iff_exists.mp there
    have named : q.packageName = pkg.packageName := by simpa using List.find?_some found
    rw [found, List.inj_on_of_nodup_map nodup (List.mem_of_find?_eq_some found) planned named]

/-- One package was unpacked and recorded. -/
structure Recorded (pkg : PackageEntry) (db : InstalledDb) (own own' : Own) : Prop where
  writes : own'.writes = own.writes ++ [(db, own'.status)]
  unpacked : own'.unpackedPkgs = own.unpackedPkgs ++ [pkg]

theorem Recorded.tracks {pkg : PackageEntry} {db : InstalledDb} {own own' : Own}
    (h : Recorded pkg db own own') : Tracks own' db :=
  fun faithful => faithful (db, own'.status) (by simp [h.writes])

/-! ### One turn -/

/-- What is loaded is what the status file gives. -/
theorem loadStatus_spec {ε : Type} (w : InstallWorld) :
    wp (loadStatus (ε := ε) dev)
      (fun r w' => w'.own = w.own ∧ ∀ db, r = .ok db → TextOf w.own.status db)
      (fun _ _ => False) w := by
  refine wp_update.mpr ⟨rfl, fun db h => ?_⟩
  cases works : dev.ok w.clock with
  | false => simp [works] at h
  | true =>
    simp only [works, if_true, Except.ok.injEq] at h
    exact h ▸ (dev.order_perm w.clock _).symm

theorem writeStatus_spec {ε : Type} (db : InstalledDb) (w : InstallWorld) :
    wp (writeStatus (ε := ε) dev db)
      (fun r w' => match r with
        | none => w'.own = w.own.written db w'.own.status
        | some _ => w'.own = w.own)
      (fun _ _ => False) w := by
  refine wp_update.mpr ?_
  cases dev.write w.clock with
  | written => rfl
  | refused => rfl
  | damaged reported left =>
    cases reported with
    | true => rfl
    | false => rfl

/-- Recording a package writes the new map, or leaves the status file as it was. -/
theorem recordInstalled_spec (termuxMode : Bool) (rootPackage : ByteString)
    (pkg : PackageEntry) (db : InstalledDb) (result : InstallResult) (w : InstallWorld) :
    wp (recordInstalled dev termuxMode rootPackage pkg db result)
      (fun x w' => x.1 = record termuxMode rootPackage db pkg ∧
        w'.own = w.own.written x.1 w'.own.status)
      (fun _ w' => w'.own = w.own) w := by
  refine wp_bind.mpr (wp_mono (writeStatus_spec dev _ w) (fun r w₁ h => ?_) fun _ _ h => h.elim)
  cases r with
  | none => exact ⟨rfl, h⟩
  | some writeErr =>
    refine wp_ite.mpr ⟨fun _ => h, fun _ => wp_bind.mpr ?_⟩
    refine wp_mono ((removePackagePayload_keeps dev).wp w₁) (fun r w₂ kept => ?_)
      fun _ _ kept => kept.trans h
    cases r with
    | none => exact kept.trans h
    | some _ => exact kept.trans h

theorem installSinglePackage_spec {ε : Type} (pkg : PackageEntry) (debPath : ByteString)
    (w : InstallWorld) :
    wp (installSinglePackage (ε := ε) dev pkg debPath)
      (fun r w' => SameStatus w.own w'.own ∧
        (r = none → w'.own.unpackedPkgs = w.own.unpackedPkgs ++ [pkg]))
      (fun _ _ => False) w := by
  refine wp_bind.mpr (wp_update.mpr ?_)
  cases Security.validatePackageName pkg.packageName with
  | some _ => exact ⟨⟨rfl, rfl⟩, by simp⟩
  | none =>
    refine wp_update.mpr ⟨⟨rfl, rfl⟩, fun (unpacked : dev.unpack w.clock = none) => ?_⟩
    simp [Own.unpackedPkgs, unpacked]

theorem installVerified_spec (termuxMode : Bool) (rootPackage : ByteString)
    (pkg : PackageEntry) (debPath : ByteString) (x : InstalledDb × InstallResult)
    (w : InstallWorld) :
    wp (installVerified dev termuxMode rootPackage pkg debPath x)
      (fun x' w' => x'.1 = record termuxMode rootPackage x.1 pkg ∧
        Recorded pkg x'.1 w.own w'.own)
      (fun _ w' => SameStatus w.own w'.own) w := by
  unfold installVerified
  cases Security.validatePackageName pkg.packageName with
  | some _ => exact ⟨rfl, rfl⟩
  | none =>
    refine wp_bind.mpr (wp_mono (installSinglePackage_spec dev pkg debPath w)
      (fun r w₁ h => ?_) fun _ _ h => h.elim)
    cases r with
    | some _ => exact h.1
    | none =>
      refine wp_mono (recordInstalled_spec dev termuxMode rootPackage pkg x.1 x.2 w₁)
        (fun x' w₂ recorded => ⟨recorded.1, ?_⟩) fun _ w₂ same => ?_
      · rw [recorded.2]
        exact ⟨by simp [Own.written, h.1.writes], h.2 rfl⟩
      · exact h.1.trans (.of_eq same)

/-- What the gates leave alone. -/
def Own.recorded (own : Own) : Own := { own with verified := [] }

theorem SameStatus.of_recorded {own own' : Own} (h : own'.recorded = own.recorded) :
    SameStatus own own' where
  status := by
    have status := congrArg Own.status h
    exact status
  writes := by
    have writes := congrArg Own.writes h
    exact writes

theorem unpackedPkgs_of_recorded {own own' : Own} (h : own'.recorded = own.recorded) :
    own'.unpackedPkgs = own.unpackedPkgs := by
  have unpacked := congrArg Own.unpackedPkgs h
  exact unpacked

/-- **One turn** records its package, or leaves the status file as it was. -/
theorem installPlanned_spec (repoIndices : RepoIndexList) (reinstall termuxMode : Bool)
    (rootPackage : ByteString) (plan : PlannedInstall) (x : InstalledDb × InstallResult)
    (w : InstallWorld) :
    wp (installPlanned dev repoIndices reinstall termuxMode rootPackage plan x)
      (fun x' w' => x'.1 = record termuxMode rootPackage x.1 plan.pkg ∧
        Recorded plan.pkg x'.1 w.own w'.own)
      (fun _ w' => SameStatus w.own w'.own) w := by
  have gates (debPath : ByteString) : Keeps (fun w : InstallWorld => w.own.recorded)
      (do
        let pending ← checkSignature dev repoIndices plan.pkg debPath x.2
        storePending dev pending) :=
    (checkSignature_keeps dev Own.recorded (fun _ _ => rfl) _ _ _ _).bind fun pending =>
      (storePending_keeps dev pending).comp Own.recorded
  refine wp_bind.mpr (wp_mono ((removeReplaced_keeps dev _ _ _ _).wp w) (fun _ w₁ h₁ => ?_)
    fun _ _ h => .of_eq h)
  refine wp_bind.mpr (wp_mono ((checkedDeb_keeps dev plan x.2).wp w₁) (fun debPath w₂ h₂ => ?_)
    fun _ _ h => .of_eq (h.trans h₁))
  have own₂ : w₂.own = w.own := h₂.trans h₁
  unfold installChecked
  rw [← bind_assoc]
  refine wp_bind.mpr (wp_mono ((gates debPath).wp w₂) (fun _ w₃ h₃ => ?_)
    fun _ _ h => own₂ ▸ .of_recorded h)
  rw [own₂] at h₃
  refine wp_mono (installVerified_spec dev termuxMode rootPackage plan.pkg debPath x w₃)
    (fun x' w₄ h₄ => ⟨h₄.1, ?_⟩) fun _ _ h => (SameStatus.of_recorded h₃).trans h
  refine ⟨h₄.2.writes.trans ?_, h₄.2.unpacked.trans ?_⟩
  · rw [(SameStatus.of_recorded h₃).writes]
  · rw [unpackedPkgs_of_recorded h₃]

/-! ### The plan -/

/-- The entry the resolver selects for a name. -/
def selectEntry (repoIndices : RepoIndexList) (termuxMode : Bool) (name : ByteString) :
    Option PackageEntry :=
  if termuxMode then Dep.selectTermux (resolverPackages repoIndices termuxMode) name
  else Dep.selectPackage (resolverPackages repoIndices termuxMode)
    (determineRepoArch repoIndices) name

theorem resolve_spec (repoIndices : RepoIndexList) (rootPackage : ByteString)
    (termuxMode : Bool) (installed : List ByteString) :
    Dep.FailsExactly (selectEntry repoIndices termuxMode) rootPackage
        (resolve repoIndices rootPackage termuxMode installed) ∧
      ((resolve repoIndices rootPackage termuxMode installed).ok = true →
        Dep.PlanCorrect (selectEntry repoIndices termuxMode) rootPackage installed
          (resolve repoIndices rootPackage termuxMode installed).out.installOrder) := by
  cases termuxMode with
  | true => exact Dep.resolveTermuxDependencies_spec _ _ _
  | false => exact Dep.resolveDependencies_spec _ _ _ _

/-- Whether a resolution succeeds does not depend on what is installed. -/
theorem resolve_ok_congr (repoIndices : RepoIndexList) (rootPackage : ByteString)
    (termuxMode : Bool) (installed installed' : List ByteString) :
    (resolve repoIndices rootPackage termuxMode installed).ok =
      (resolve repoIndices rootPackage termuxMode installed').ok := by
  have h := (resolve_spec repoIndices rootPackage termuxMode installed).1.ok
  have h' := (resolve_spec repoIndices rootPackage termuxMode installed').1.ok
  rw [Bool.eq_iff_iff, ← not_iff_not, Bool.not_eq_true, Bool.not_eq_true]
  exact h.trans h'.symm

theorem selectEntry_name {repoIndices : RepoIndexList} {termuxMode : Bool} {name : ByteString}
    {pkg : PackageEntry} (h : selectEntry repoIndices termuxMode name = some pkg) :
    pkg.packageName = name := by
  cases termuxMode with
  | true => exact (Dep.selectTermux_wellNamed _ name pkg h).1
  | false => exact (Dep.selectPackage_wellNamed _ _ name pkg h).1

theorem mem_installedNames {db : InstalledDb} {termuxMode : Bool} {name : ByteString} :
    name ∈ installedNames db termuxMode ↔ recordedAs db name termuxMode = true := by
  simp only [installedNames, recordedAs, List.mem_map, List.mem_filter, Option.any_eq_true,
    beq_iff_eq]
  constructor
  · rintro ⟨⟨name, pkg⟩, ⟨entry, flavour⟩, rfl⟩
    exact ⟨pkg, AList.mem_lookup_iff.mpr entry, flavour⟩
  · rintro ⟨pkg, found, flavour⟩
    exact ⟨⟨name, pkg⟩, ⟨AList.mem_lookup_iff.mp found, flavour⟩, rfl⟩

/-- The plan of a call over a status map. -/
def planOf (repoIndices : RepoIndexList) (rootPackage : ByteString) (termuxMode : Bool)
    (db : InstalledDb) : List PackageEntry :=
  (resolve repoIndices rootPackage termuxMode
    (installedNames db termuxMode)).out.installOrder

/-- Only what the map gives for the names counts. -/
theorem planOf_congr {db db' : InstalledDb} (same : ∀ name, db.lookup name = db'.lookup name)
    (repoIndices : RepoIndexList) (rootPackage : ByteString) (termuxMode : Bool) :
    planOf repoIndices rootPackage termuxMode db =
      planOf repoIndices rootPackage termuxMode db' := by
  have names : ∀ name,
      name ∈ installedNames db termuxMode ↔ name ∈ installedNames db' termuxMode := by
    intro name
    rw [mem_installedNames, mem_installedNames, recordedAs, recordedAs, same]
  simp only [planOf, resolve, Dep.resolveTermuxDependencies_congr names,
    Dep.resolveDependencies_congr names]

theorem planOf_spec {repoIndices : RepoIndexList} {rootPackage : ByteString} {termuxMode : Bool}
    {installed : List ByteString} (db : InstalledDb)
    (ok : (resolve repoIndices rootPackage termuxMode installed).ok = true) :
    Dep.PlanCorrect (selectEntry repoIndices termuxMode) rootPackage
      (installedNames db termuxMode) (planOf repoIndices rootPackage termuxMode db) :=
  (resolve_spec repoIndices rootPackage termuxMode _).2
    ((resolve_ok_congr _ _ _ _ _).trans ok)

/-- What is recorded in the flavour is not planned. -/
theorem planOf_fresh {repoIndices : RepoIndexList} {rootPackage : ByteString}
    {termuxMode : Bool} {installed : List ByteString} {db : InstalledDb}
    (ok : (resolve repoIndices rootPackage termuxMode installed).ok = true) {pkg : PackageEntry}
    (planned : pkg ∈ planOf repoIndices rootPackage termuxMode db) :
    recordedAs db pkg.packageName termuxMode = false := by
  obtain ⟨name, -, fresh, selected⟩ := ((planOf_spec db ok).exact pkg).mp planned
  rw [selectEntry_name selected]
  exact Bool.eq_false_iff.mpr fun h => fresh (mem_installedNames.mpr h)

/-! ### The whole call -/

/-- What the call knows once the resolver is done. -/
structure Prepares (repoIndices : RepoIndexList) (rootPackage : ByteString)
    (opts : InstallOptions) (status : ByteString) (p : Prepared) : Prop where
  mode : p.termuxMode = termuxModeOf repoIndices rootPackage opts
  loaded : TextOf status p.installedDb
  ok : (resolve repoIndices rootPackage p.termuxMode []).ok = true
  order : p.installOrder = planOf repoIndices rootPackage p.termuxMode p.installedDb

theorem prepare_spec (repoIndices : RepoIndexList) (rootPackage : ByteString)
    (opts : InstallOptions) (w : InstallWorld) :
    wp (prepare dev repoIndices rootPackage opts)
      (fun p w' => Prepares repoIndices rootPackage opts w.own.status p ∧ w'.own = w.own)
      (fun _ w' => w'.own = w.own) w := by
  refine wp_ite.mpr ⟨fun _ => rfl, fun _ => ?_⟩
  split
  · rfl
  refine wp_ite.mpr ⟨fun _ => rfl, fun _ => wp_bind.mpr ?_⟩
  refine wp_mono (loadStatus_spec dev w) (fun r w₁ h => ?_) fun _ _ h => h.elim
  cases r with
  | error _ => exact h.1
  | ok db =>
    refine wp_ite.mpr ⟨fun _ => h.1, fun resolved => ⟨⟨rfl, h.2 db rfl, ?_, rfl⟩, h.1⟩⟩
    rw [← resolve_ok_congr]
    simpa using resolved

/-- The packages of a plan that are not skipped. -/
def unskipped (reinstall : Bool) (p : Prepared) : List PackageEntry :=
  p.installOrder.filter fun pkg =>
    !(!reinstall && recordedAs p.installedDb pkg.packageName p.termuxMode)

/-- The planned packages are those that are not skipped, and have valid names. -/
theorem gatherDebs_spec (reinstall : Bool) (p : Prepared) (w : InstallWorld) :
    wp (gatherDebs dev reinstall p)
      (fun planning w' => planning.plans.map (·.pkg) = unskipped reinstall p ∧
        (∀ plan ∈ planning.plans,
          Security.validatePackageName plan.pkg.packageName = none) ∧ w'.own = w.own)
      (fun _ w' => w'.own = w.own) w := by
  refine wp_bind.mpr (wp_mono (wp_forEach_done (E := fun _ w' => w'.own = w.own)
    (fun done (planning : Planning) w' => planning.plans.map (·.pkg) = done.filter (fun pkg =>
        !(!reinstall && recordedAs p.installedDb pkg.packageName p.termuxMode)) ∧
      (∀ plan ∈ planning.plans, Security.validatePackageName plan.pkg.packageName = none) ∧
      w'.own = w.own) ?_ ⟨rfl, by simp, rfl⟩) ?_ fun _ _ h => h)
  · rintro done pkg rest - planning s ⟨pkgs, names, own⟩
    refine wp_ite.mpr ⟨fun skipped => ⟨?_, names, own⟩, fun taken => wp_bind.mpr ?_⟩
    · rw [List.filter_append, pkgs]
      simpa using skipped
    have fetched := ensureDebForPackage_spec (ε := InstallResult) dev.toOutside pkg true s
    have kept := (ensureDebForPackage_keeps (ε := InstallResult) dev.toOutside pkg true).wp s
    refine wp_mono (wp_and fetched kept) (fun r s' h => ?_) fun _ _ h => h.2.trans own
    cases r with
    | error _ => exact h.2.trans own
    | ok found =>
      refine ⟨?_, fun plan hplan => ?_, h.2.trans own⟩
      · rw [List.filter_append, List.map_append, pkgs,
          List.filter_cons_of_pos (by simpa only [Bool.not_eq_true', Bool.not_eq_true] using taken)]
        rfl
      · rcases List.mem_append.mp hplan with old | new
        · exact names plan old
        · rw [List.mem_singleton] at new
          exact new ▸ h.1 rfl
  · rintro planning s ⟨pkgs, names, own⟩
    refine wp_bind.mpr (wp_mono ((downloadQueued_keeps dev planning).wp s)
      (fun _ _ kept => ⟨pkgs, names, kept.trans own⟩) fun _ _ kept => kept.trans own)

/-- A first part of a plan was recorded. -/
structure Progress (termuxMode : Bool) (rootPackage : ByteString) (db : InstalledDb)
    (own : Own) (done : List PackageEntry) (own' : Own) : Prop where
  grows : own.writes <+: own'.writes
  tracks : Tracks own' (recordAll termuxMode rootPackage db done)

theorem installLoop_spec (repoIndices : RepoIndexList) (reinstall termuxMode : Bool)
    (rootPackage : ByteString) (plans : List PlannedInstall) (db : InstalledDb)
    (result : InstallResult) (w : InstallWorld) (start : TextOf w.own.status db) :
    wp (forEach (installPlanned dev repoIndices reinstall termuxMode rootPackage) plans
        (db, result))
      (fun _ w' => Progress termuxMode rootPackage db w.own (plans.map (·.pkg)) w'.own ∧
        w'.own.unpackedPkgs = w.own.unpackedPkgs ++ plans.map (·.pkg))
      (fun _ w' => ∃ done, done <+: plans.map (·.pkg) ∧
        Progress termuxMode rootPackage db w.own done w'.own) w := by
  refine wp_mono (wp_forEach_done (fun done (x : InstalledDb × InstallResult) w' =>
    x.1 = recordAll termuxMode rootPackage db (done.map (·.pkg)) ∧
    Progress termuxMode rootPackage db w.own (done.map (·.pkg)) w'.own ∧
    w'.own.unpackedPkgs = w.own.unpackedPkgs ++ done.map (·.pkg)) ?_ ?_)
    (fun _ _ h => h.2) fun _ _ h => h
  · rintro done plan rest split x s ⟨map, progress, unpacked⟩
    refine wp_mono (installPlanned_spec dev repoIndices reinstall termuxMode rootPackage plan x s)
      (fun x' s' h => ?_) fun _ s' same => ?_
    · have next : recordAll termuxMode rootPackage db ((done ++ [plan]).map (·.pkg)) = x'.1 := by
        rw [h.1, map, recordAll, List.map_append, List.foldl_append]
        rfl
      refine ⟨next.symm, ⟨progress.grows.trans ?_, next ▸ h.2.tracks⟩, ?_⟩
      · exact h.2.writes ▸ List.prefix_append _ _
      · rw [h.2.unpacked, unpacked, List.map_append, List.append_assoc]
        rfl
    · refine ⟨done.map (·.pkg), ?_, ⟨progress.grows.trans ?_, same.tracks progress.tracks⟩⟩
      · rw [split, List.map_append]
        exact List.prefix_append _ _
      · rw [same.writes]
  · exact ⟨rfl, ⟨List.prefix_refl _, fun _ => start⟩, (List.append_nil _).symm⟩

/-- A call that is not simulated. -/
theorem installPrepared_spec (repoIndices : RepoIndexList) (rootPackage : ByteString)
    (reinstall : Bool) (p : Prepared) (w : InstallWorld)
    (start : TextOf w.own.status p.installedDb) :
    wp (installPrepared dev repoIndices rootPackage reinstall p)
      (fun _ w' => Progress p.termuxMode rootPackage p.installedDb w.own
          (unskipped reinstall p) w'.own ∧
        w'.own.unpackedPkgs = w.own.unpackedPkgs ++ unskipped reinstall p)
      (fun _ w' => ∃ done, done <+: unskipped reinstall p ∧
        Progress p.termuxMode rootPackage p.installedDb w.own done w'.own) w := by
  refine wp_bind.mpr (wp_mono (gatherDebs_spec dev reinstall p w) (fun planning w₁ h => ?_)
    fun _ w₁ own => ⟨[], List.nil_prefix, ⟨by rw [own], fun _ => by rw [own]; exact start⟩⟩)
  obtain ⟨pkgs, -, own⟩ := h
  have loop := installLoop_spec dev repoIndices reinstall p.termuxMode rootPackage
    planning.plans p.installedDb planning.result w₁ (own ▸ start)
  rw [pkgs, own] at loop
  exact wp_bind.mpr loop

theorem Prepares.unskipped {repoIndices : RepoIndexList} {rootPackage : ByteString}
    {opts : InstallOptions} {status : ByteString} {p : Prepared}
    (h : Prepares repoIndices rootPackage opts status p) (reinstall : Bool) :
    unskipped reinstall p = planOf repoIndices rootPackage p.termuxMode p.installedDb := by
  rw [Install.unskipped, h.order]
  refine List.filter_eq_self.mpr fun pkg planned => ?_
  rw [planOf_fresh h.ok planned]
  simp

/-- What a call in a flavour did that has recorded a first part of its plan. -/
structure Installs (repoIndices : RepoIndexList) (rootPackage : ByteString)
    (termuxMode : Bool) (own : Own) (db : InstalledDb) (done : List PackageEntry)
    (own' : Own) : Prop where
  loaded : TextOf own.status db
  planned : done <+: planOf repoIndices rootPackage termuxMode db
  progress : Progress termuxMode rootPackage db own done own'

/-- **An install** that is not simulated records its plan, or a first part of it. -/
theorem installWithDeps_spec (repoIndices : RepoIndexList) (rootPackage : ByteString)
    {opts : InstallOptions} (real : opts.simulate = false) (w : InstallWorld) :
    wp (installWithDeps dev repoIndices rootPackage opts)
      (fun _ w' => ∃ db, Installs repoIndices rootPackage
          (termuxModeOf repoIndices rootPackage opts) w.own db
          (planOf repoIndices rootPackage (termuxModeOf repoIndices rootPackage opts) db) w'.own ∧
        (resolve repoIndices rootPackage
          (termuxModeOf repoIndices rootPackage opts) []).ok = true ∧
        w'.own.unpackedPkgs = w.own.unpackedPkgs ++
          planOf repoIndices rootPackage (termuxModeOf repoIndices rootPackage opts) db)
      (fun _ w' => ∃ db done, Installs repoIndices rootPackage
        (termuxModeOf repoIndices rootPackage opts) w.own db done w'.own) w := by
  refine wp_bind.mpr (wp_mono (prepare_spec dev repoIndices rootPackage opts w)
    (fun p w₁ h => ?_) fun _ w₁ own => ?_)
  · obtain ⟨prepared, own⟩ := h
    rw [if_neg (by simp [real])]
    have whole := installPrepared_spec dev repoIndices rootPackage opts.reinstall p w₁
      (by rw [own]; exact prepared.loaded)
    rw [prepared.unskipped, own, prepared.mode] at whole
    refine wp_mono whole (fun r w₂ h => ⟨p.installedDb, ⟨prepared.loaded, ?_, h.1⟩, ?_, h.2⟩) ?_
    · exact List.prefix_refl _
    · exact prepared.mode ▸ prepared.ok
    · rintro _ w₂ ⟨done, planned, progress⟩
      exact ⟨p.installedDb, done, prepared.loaded, planned, progress⟩
  · refine ⟨parseStatus w.own.status, [], .refl _, List.nil_prefix, ?_⟩
    rw [own]
    exact ⟨List.prefix_refl _, fun _ => .refl _⟩

/-- A simulated install does nothing to the installer's state. -/
theorem installWithDeps_simulated (repoIndices : RepoIndexList) (rootPackage : ByteString)
    {opts : InstallOptions} (simulated : opts.simulate = true) :
    Keeps World.own (installWithDeps dev repoIndices rootPackage opts) := by
  refine (prepare_keeps dev repoIndices rootPackage opts).bind fun p => ?_
  rw [if_pos simulated]
  exact keeps_pure _

end Apm.Install
