import Apm.Install.Autoremove
import Apm.Install.StatusText

/-!
Whether the dependencies of the installed packages are installed.

## Main results

* `dependencies_stay_installed`: over any run of installs, removals and autoremoves, the
  dependencies of every recorded package are recorded in its flavour, if no install takes the
  name of a package of the other flavour that packages of that flavour need.
* `closed_at_every_stop_iff`: this condition is exact for the plan of an install that may stop
  anywhere.
-/

namespace Apm.Install

open Apm.Repo Apm.Fs Apm.Config Apm.Lib.Effect Apm.Status
open Apm.Lib.DepGraph (Edge)

variable {dev : Device}

/-! ### Properties of the status database -/

/-- A property that a map keeps in any order, and when it is written and read again. -/
structure Durable (P : InstalledDb → Prop) : Prop where
  perm : ∀ {db db' : InstalledDb}, db'.entries.Perm db.entries → P db → P db'
  reads : ∀ {db : InstalledDb}, P db → TextOf (statusText db) db

/-- A write that reports success has written the whole text. -/
def Device.Whole (dev : Device) : Prop := ∀ n left, dev.write n ≠ .damaged true left

/-- The map of the status file has the property. -/
def Holds (P : InstalledDb → Prop) (own : Own) : Prop := P (parseStatus own.status)

theorem SameStatus.holds {P : InstalledDb → Prop} {own own' : Own} (same : SameStatus own own')
    (h : Holds P own) : Holds P own' := by
  rw [Holds, same.status]
  exact h

section Holds

variable {P : InstalledDb → Prop} (durable : Durable P)
include durable

theorem Durable.loaded {own : Own} {db : InstalledDb} (loaded : TextOf own.status db) :
    Holds P own ↔ P db :=
  ⟨durable.perm loaded.symm, durable.perm loaded⟩

variable (whole : dev.Whole)
include whole

theorem writeStatus_holds {ε : Type} {db : InstalledDb} (new : P db) {w : InstallWorld}
    (start : Holds P w.own) :
    wp (writeStatus (ε := ε) dev db) (fun _ w' => Holds P w'.own) (fun _ _ => False) w := by
  apply wp_update.mpr
  cases write : dev.write w.clock with
  | written =>
    have order := dev.order_perm w.clock db
    have reads := durable.reads (durable.perm order new)
    exact durable.perm (reads.trans order) new
  | refused => exact start
  | damaged reported left =>
    cases reported with
    | true => exact absurd write (whole _ _)
    | false => exact start

/-- Recording a package keeps the property if its map has it. -/
theorem recordInstalled_holds {termuxMode : Bool} {rootPackage : ByteString}
    {pkg : PackageEntry} {db : InstalledDb} (result : InstallResult)
    (new : P (record termuxMode rootPackage db pkg)) {w : InstallWorld} (start : Holds P w.own) :
    wp (recordInstalled dev termuxMode rootPackage pkg db result)
      (fun x w' => x.1 = record termuxMode rootPackage db pkg ∧ Holds P w'.own)
      (fun _ w' => Holds P w'.own) w := by
  refine wp_bind.mpr (wp_mono (writeStatus_holds durable whole new start) (fun r w₁ h => ?_)
    fun _ _ h => h.elim)
  cases r with
  | none => exact ⟨rfl, h⟩
  | some writeErr =>
    refine wp_ite.mpr ⟨fun _ => h, fun _ => wp_bind.mpr ?_⟩
    refine wp_mono ((removePackagePayload_keeps dev).wp w₁) (fun r w₂ kept => ?_)
      fun _ _ kept => kept ▸ h
    have h : Holds P w₂.own := kept ▸ h
    cases r with
    | none => exact h
    | some _ => exact h

theorem installVerified_holds {termuxMode : Bool} {rootPackage : ByteString}
    {pkg : PackageEntry} (debPath : ByteString) (x : InstalledDb × InstallResult)
    (new : P (record termuxMode rootPackage x.1 pkg)) {w : InstallWorld}
    (start : Holds P w.own) :
    wp (installVerified dev termuxMode rootPackage pkg debPath x)
      (fun x' w' => x'.1 = record termuxMode rootPackage x.1 pkg ∧ Holds P w'.own)
      (fun _ w' => Holds P w'.own) w := by
  unfold installVerified
  cases Security.validatePackageName pkg.packageName with
  | some _ => exact start
  | none =>
    refine wp_bind.mpr (wp_mono (installSinglePackage_spec dev pkg debPath w) (fun r w₁ h => ?_)
      fun _ _ h => h.elim)
    have holds : Holds P w₁.own := h.1.holds start
    cases r with
    | some _ => exact holds
    | none => exact recordInstalled_holds durable whole x.2 new holds

/-- One turn keeps the property if the new map has it. -/
theorem installPlanned_holds (repoIndices : RepoIndexList) (reinstall : Bool)
    {termuxMode : Bool} {rootPackage : ByteString} (plan : PlannedInstall)
    (x : InstalledDb × InstallResult) (new : P (record termuxMode rootPackage x.1 plan.pkg))
    {w : InstallWorld} (start : Holds P w.own) :
    wp (installPlanned dev repoIndices reinstall termuxMode rootPackage plan x)
      (fun x' w' => x'.1 = record termuxMode rootPackage x.1 plan.pkg ∧ Holds P w'.own)
      (fun _ w' => Holds P w'.own) w := by
  refine wp_bind.mpr (wp_mono ((removeReplaced_keeps dev _ _ _ _).wp w) (fun _ w₁ h₁ => ?_)
    fun _ _ h => (SameStatus.of_eq h).holds start)
  refine wp_bind.mpr (wp_mono ((checkedDeb_keeps dev plan x.2).wp w₁) (fun debPath w₂ h₂ => ?_)
    fun _ _ h => (SameStatus.of_eq (h.trans h₁)).holds start)
  have start : Holds P w₂.own := (SameStatus.of_eq (h₂.trans h₁)).holds start
  refine wp_bind.mpr (wp_mono ((checkSignature_keeps dev Own.recorded (fun _ _ => rfl) _ _ _
    _).wp w₂) (fun pending w₃ h₃ => ?_) fun _ _ h => (SameStatus.of_recorded h).holds start)
  have start : Holds P w₃.own := (SameStatus.of_recorded h₃).holds start
  refine wp_bind.mpr (wp_mono ((storePending_keeps dev pending).wp w₃) (fun _ w₄ h₄ => ?_)
    fun _ _ h => (SameStatus.of_eq h).holds start)
  exact installVerified_holds durable whole debPath x new ((SameStatus.of_eq h₄).holds start)

/-- **An install** keeps the property if the map after every first part of its plan has it. -/
theorem installWithDeps_holds (repoIndices : RepoIndexList) (rootPackage : ByteString)
    (opts : InstallOptions) {w : InstallWorld} (start : Holds P w.own)
    (plans : ∀ db, TextOf w.own.status db → opts.simulate = false →
      (resolve repoIndices rootPackage (termuxModeOf repoIndices rootPackage opts) []).ok = true →
      (∀ pkg ∈ planOf repoIndices rootPackage (termuxModeOf repoIndices rootPackage opts) db,
        Security.validatePackageName pkg.packageName = none) →
      ∀ done, done <+: planOf repoIndices rootPackage
        (termuxModeOf repoIndices rootPackage opts) db →
      P (recordAll (termuxModeOf repoIndices rootPackage opts) rootPackage db done)) :
    wp (installWithDeps dev repoIndices rootPackage opts) (fun _ w' => Holds P w'.own)
      (fun _ w' => Holds P w'.own) w := by
  refine wp_bind.mpr (wp_mono (prepare_spec dev repoIndices rootPackage opts w)
    (fun p w₁ h => ?_) fun _ _ own => (SameStatus.of_eq own).holds start)
  obtain ⟨prepared, own⟩ := h
  have start : Holds P w₁.own := (SameStatus.of_eq own).holds start
  refine wp_ite.mpr ⟨fun _ => start, fun real => ?_⟩
  have plans := plans p.installedDb prepared.loaded (by simpa using real)
    (prepared.mode ▸ prepared.ok)
  rw [← prepared.mode, ← prepared.unskipped opts.reinstall] at plans
  refine wp_bind.mpr (wp_mono (gatherDebs_spec dev opts.reinstall p w₁) (fun planning w₂ h => ?_)
    fun _ _ own => (SameStatus.of_eq own).holds start)
  obtain ⟨pkgs, names, own⟩ := h
  have start : Holds P w₂.own := (SameStatus.of_eq own).holds start
  rw [← pkgs] at plans
  have plans := plans (List.forall_mem_map.mpr names)
  refine wp_bind.mpr (wp_mono (wp_forEach_done
    (fun done (x : InstalledDb × InstallResult) (w' : InstallWorld) =>
      x.1 = recordAll p.termuxMode rootPackage p.installedDb (done.map (·.pkg)) ∧
        Holds P w'.own) ?_ ⟨rfl, start⟩) (fun _ _ h => h.2) fun _ _ h => h)
  rintro done plan rest split x s ⟨map, holds⟩
  have next : recordAll p.termuxMode rootPackage p.installedDb
      ((done ++ [plan]).map (·.pkg)) = record p.termuxMode rootPackage x.1 plan.pkg := by
    rw [map, recordAll, List.map_append, List.foldl_append]
    rfl
  have new : P (record p.termuxMode rootPackage x.1 plan.pkg) := by
    rw [← next]
    apply plans
    rw [split]
    exact List.IsPrefix.map _ (by simp)
  rw [next]
  exact installPlanned_holds durable whole repoIndices opts.reinstall plan x new holds

/-- **A removal** keeps the property if the map without the entry has it. -/
theorem removePackage_holds (packageName : ByteString) (opts : RemoveOptions)
    {w : InstallWorld} (start : Holds P w.own)
    (erased : ∀ db ip, TextOf w.own.status db → db.lookup packageName = some ip →
      (opts.force = false → dependentsOf db packageName ip.termuxPackage = []) →
      P (db.erase packageName)) :
    wp (removePackage dev packageName opts) (fun _ w' => Holds P w'.own)
      (fun _ w' => Holds P w'.own) w := by
  refine wp_ite.mpr ⟨fun _ => start, fun _ => ?_⟩
  split
  · exact start
  refine wp_bind.mpr (wp_mono (loadStatus_spec dev w) (fun r w₁ h => ?_) fun _ _ h => h.elim)
  obtain ⟨own, loaded⟩ := h
  rw [← own] at start loaded erased
  cases r with
  | error _ => exact start
  | ok db =>
    have loaded := loaded db rfl
    have before : P db := (durable.loaded loaded).mp start
    dsimp only
    split
    · exact start
    · rename_i ip found
      refine wp_ite.mpr ⟨fun _ => start, fun allowed => wp_bind.mpr ?_⟩
      have after : P (db.erase packageName) := by
        apply erased db ip loaded found
        intro unforced
        simpa [unforced] using allowed
      refine wp_mono (writeStatus_holds durable whole after start) (fun r w₂ holds => ?_)
        fun _ _ h => h.elim
      cases r with
      | some _ => exact holds
      | none =>
        refine wp_bind.mpr (wp_mono ((removePackagePayload_keeps dev).wp w₂)
          (fun r w₃ kept => ?_) fun _ _ kept => (SameStatus.of_eq kept).holds holds)
        have holds : Holds P w₃.own := (SameStatus.of_eq kept).holds holds
        cases r with
        | none => exact holds
        | some _ =>
          refine wp_bind.mpr (wp_mono (writeStatus_holds durable whole before holds)
            (fun r w₄ holds => ?_) fun _ _ h => h.elim)
          cases r with
          | none => exact holds
          | some _ => exact holds

end Holds

/-! ### The packages that need a name -/

theorem mem_dependentsOf {db : InstalledDb} {name other : ByteString} {termux : Bool} :
    other ∈ dependentsOf db name termux ↔ other ≠ name ∧ ∃ pkg, db.lookup other = some pkg ∧
      pkg.termuxPackage = termux ∧ name ∈ pkg.depends := by
  simp only [dependentsOf, List.mem_map, List.mem_filter, Bool.and_eq_true, bne_iff_ne, ne_eq,
    beq_iff_eq, List.contains_iff_mem]
  constructor
  · rintro ⟨⟨other, pkg⟩, ⟨entry, ⟨differs, flavour⟩, needs⟩, rfl⟩
    exact ⟨differs, pkg, AList.mem_lookup_iff.mpr entry, flavour, needs⟩
  · rintro ⟨differs, pkg, found, flavour, needs⟩
    exact ⟨⟨other, pkg⟩, ⟨AList.mem_lookup_iff.mp found, ⟨differs, flavour⟩, needs⟩, rfl⟩

theorem recordedAs_iff {db : InstalledDb} {name : ByteString} {termux : Bool} :
    recordedAs db name termux = true ↔
      ∃ pkg, db.lookup name = some pkg ∧ pkg.termuxPackage = termux := by
  simp only [recordedAs, Option.any_eq_true, beq_iff_eq]

theorem recordedAs_congr {db db' : InstalledDb} {name : ByteString}
    (same : db.lookup name = db'.lookup name) (termux : Bool) :
    recordedAs db name termux = recordedAs db' name termux := by
  rw [recordedAs, recordedAs, same]

/-- What a package depends on besides itself is recorded in its flavour. -/
def Closed (db : InstalledDb) : Prop :=
  ∀ name pkg, db.lookup name = some pkg → ∀ dep ∈ pkg.depends, dep ≠ name →
    recordedAs db dep pkg.termuxPackage = true

theorem Closed.congr {db db' : InstalledDb} (same : ∀ name, db.lookup name = db'.lookup name)
    (closed : Closed db) : Closed db' := by
  intro name pkg found dep needs differs
  rw [← same] at found
  rw [← recordedAs_congr (same dep)]
  exact closed name pkg found dep needs differs

/-- **Erasing an entry** that no other package of its flavour needs. -/
theorem Closed.erase {db : InstalledDb} (closed : Closed db) {name : ByteString}
    {ip : InstalledPackage} (found : db.lookup name = some ip)
    (free : dependentsOf db name ip.termuxPackage = []) : Closed (db.erase name) := by
  intro other pkg left dep needs differs
  have kept : other ≠ name := by
    rintro rfl
    rw [AList.lookup_erase] at left
    cases left
  rw [AList.lookup_erase_ne kept] at left
  have there := closed other pkg left dep needs differs
  have stays : dep ≠ name := by
    rintro rfl
    obtain ⟨ip', found', flavour⟩ := recordedAs_iff.mp there
    obtain rfl := Option.some.inj (found.symm.trans found')
    have needed := mem_dependentsOf.mpr ⟨kept, pkg, left, flavour.symm, needs⟩
    rw [free] at needed
    cases needed
  rw [recordedAs_congr (AList.lookup_erase_ne stays)]
  exact there

section Record

variable {termuxMode : Bool} {rootPackage : ByteString} {db : InstalledDb} {pkg : PackageEntry}

theorem recordedAs_record_self :
    recordedAs (record termuxMode rootPackage db pkg) pkg.packageName termuxMode = true :=
  recordedAs_iff.mpr ⟨_, record_lookup_self _ _ _ _, rfl⟩

/-- **Recording a package** whose dependencies are recorded takes its name from the packages
of the other flavour that need it. -/
theorem closed_record_iff (closed : Closed db)
    (ready : ∀ dep ∈ pkg.depends, dep ≠ pkg.packageName → recordedAs db dep termuxMode = true) :
    Closed (record termuxMode rootPackage db pkg) ↔
      dependentsOf db pkg.packageName (!termuxMode) = [] := by
  constructor
  · intro after
    apply List.eq_nil_iff_forall_not_mem.mpr
    intro other needed
    obtain ⟨differs, q, found, flavour, needs⟩ := mem_dependentsOf.mp needed
    have there := after other q ((record_lookup_ne differs).trans found) _ needs differs.symm
    obtain ⟨now, found, flavour'⟩ := recordedAs_iff.mp there
    obtain rfl := Option.some.inj ((record_lookup_self _ _ _ _).symm.trans found)
    rw [flavour] at flavour'
    exact absurd flavour'.symm (Bool.not_ne_self termuxMode)
  · intro free name q found dep needs differs
    by_cases own : name = pkg.packageName
    · subst own
      obtain rfl := Option.some.inj ((record_lookup_self _ _ _ _).symm.trans found)
      rw [recordedAs_congr (record_lookup_ne differs)]
      exact ready dep needs differs
    · rw [record_lookup_ne own] at found
      have there := closed name q found dep needs differs
      by_cases taken : dep = pkg.packageName
      · subst taken
        have flavour : q.termuxPackage = termuxMode := by
          by_contra other
          have needed := mem_dependentsOf.mpr
            ⟨own, q, found, Bool.eq_not.mpr other, needs⟩
          rw [free] at needed
          cases needed
        rw [flavour]
        exact recordedAs_record_self
      · rw [recordedAs_congr (record_lookup_ne taken)]
        exact there

/-- Recording a package takes its name from the other flavour. -/
theorem mem_dependentsOf_record {name other : ByteString} :
    other ∈ dependentsOf (record termuxMode rootPackage db pkg) name (!termuxMode) ↔
      other ∈ dependentsOf db name (!termuxMode) ∧ other ≠ pkg.packageName := by
  rw [mem_dependentsOf, mem_dependentsOf]
  by_cases own : other = pkg.packageName
  · subst own
    refine iff_of_false ?_ fun h => h.2 rfl
    rintro ⟨-, q, found, flavour, -⟩
    obtain rfl := Option.some.inj ((record_lookup_self _ _ _ _).symm.trans found)
    exact Bool.not_ne_self termuxMode flavour.symm
  · rw [record_lookup_ne own, and_iff_left own]

end Record

section Plan

variable {termuxMode : Bool} {rootPackage : ByteString} {db : InstalledDb}

theorem recordAll_concat (done : List PackageEntry) (pkg : PackageEntry) :
    recordAll termuxMode rootPackage db (done ++ [pkg]) =
      record termuxMode rootPackage (recordAll termuxMode rootPackage db done) pkg := by
  rw [recordAll, List.foldl_append]
  rfl

theorem mem_dependentsOf_recordAll {done : List PackageEntry} {name other : ByteString} :
    other ∈ dependentsOf (recordAll termuxMode rootPackage db done) name (!termuxMode) ↔
      other ∈ dependentsOf db name (!termuxMode) ∧ other ∉ done.map (·.packageName) := by
  induction done using List.reverseRecOn with
  | nil => simp [recordAll]
  | append_singleton done pkg ih =>
    rw [recordAll_concat, mem_dependentsOf_record, ih, List.map_append, List.mem_append,
      List.map_singleton, List.mem_singleton, not_or, and_assoc]

theorem recordedAs_recordAll {done : List PackageEntry} {name : ByteString}
    (h : recordedAs db name termuxMode = true ∨ name ∈ done.map (·.packageName)) :
    recordedAs (recordAll termuxMode rootPackage db done) name termuxMode = true := by
  induction done using List.reverseRecOn with
  | nil => simpa [recordAll] using h
  | append_singleton done pkg ih =>
    rw [recordAll_concat]
    by_cases own : name = pkg.packageName
    · subst own
      exact recordedAs_record_self
    · rw [recordedAs_congr (record_lookup_ne own)]
      apply ih
      simpa [own] using h

/-- A package of a plan takes its name from packages of the other flavour only that packages
of that flavour do not need any more. -/
def Spares (db : InstalledDb) (termuxMode : Bool) (plan : List PackageEntry) : Prop :=
  ∀ done pkg, done ++ [pkg] <+: plan →
    ∀ other ∈ dependentsOf db pkg.packageName (!termuxMode), other ∈ done.map (·.packageName)

theorem Spares.congr {db' : InstalledDb} {plan : List PackageEntry}
    (spares : Spares db termuxMode plan) (same : ∀ name, db.lookup name = db'.lookup name) :
    Spares db' termuxMode plan := by
  intro done pkg starts other needed
  apply spares done pkg starts other
  rw [mem_dependentsOf] at needed ⊢
  rw [same]
  exact needed

/-- **Stopping a plan anywhere** leaves a closed map if and only if the plan takes no name
that the other flavour needs. -/
theorem closed_at_every_stop_iff {plan : List PackageEntry} (closed : Closed db)
    (ready : ∀ done pkg, done ++ [pkg] <+: plan → ∀ dep ∈ pkg.depends, dep ≠ pkg.packageName →
      recordedAs db dep termuxMode = true ∨ dep ∈ done.map (·.packageName)) :
    (∀ done, done <+: plan → Closed (recordAll termuxMode rootPackage db done)) ↔
      Spares db termuxMode plan := by
  have next : ∀ done pkg, done ++ [pkg] <+: plan →
      Closed (recordAll termuxMode rootPackage db done) →
      (Closed (recordAll termuxMode rootPackage db (done ++ [pkg])) ↔
        ∀ other ∈ dependentsOf db pkg.packageName (!termuxMode),
          other ∈ done.map (·.packageName)) := by
    intro done pkg starts closed
    rw [recordAll_concat, closed_record_iff closed fun dep needs differs =>
      recordedAs_recordAll (ready done pkg starts dep needs differs),
      List.eq_nil_iff_forall_not_mem]
    apply forall_congr'
    intro other
    rw [mem_dependentsOf_recordAll, not_and, not_not]
  constructor
  · intro all done pkg starts
    exact (next done pkg starts (all done ((List.prefix_append done [pkg]).trans starts))).mp
      (all _ starts)
  · intro spares done starts
    induction done using List.reverseRecOn with
    | nil => exact closed
    | append_singleton done pkg ih =>
      have before := ih ((List.prefix_append done [pkg]).trans starts)
      exact (next done pkg starts before).mpr (spares done pkg starts)

end Plan

/-! ### The plans of real indices -/

/-- The indices are read from the Packages files of sources. -/
def Genuine (repoIndices : RepoIndexList) : Prop :=
  ∀ idx ∈ repoIndices, ∃ repoPath repoText src component arch pkgFile content,
    parseRepoFile repoPath repoText = .ok src ∧ component ∈ src.components ∧
      idx = makeRepoIndex src component arch pkgFile content

section Genuine

variable {repoIndices : RepoIndexList} {termuxMode : Bool} {name : ByteString}
  {pkg : PackageEntry}

/-- A selected entry comes from an index. -/
theorem selectEntry_from (selected : selectEntry repoIndices termuxMode name = some pkg) :
    ∃ idx ∈ repoIndices, ∃ entry ∈ idx.packages, pkg = mergeEntry idx entry := by
  have mem : pkg ∈ resolverPackages repoIndices termuxMode := by
    cases termuxMode with
    | true => exact Dep.selectTermux_from _ name pkg selected
    | false => exact Dep.selectPackage_from _ _ name pkg selected
  obtain ⟨idx, inside, mem⟩ := List.mem_flatMap.mp (List.mem_filter.mp mem).1
  obtain ⟨entry, listed, rfl⟩ := List.mem_map.mp mem
  exact ⟨idx, inside, entry, listed, rfl⟩

theorem installedRecord_mergeEntry (db : InstalledDb) (rootPackage : ByteString)
    (idx : RepoIndex) (entry : PackageEntry) :
    installedRecord db termuxMode rootPackage (mergeEntry idx entry) =
      installedRecord db termuxMode rootPackage entry := by
  unfold mergeEntry
  split
  · rfl
  · rfl

variable (genuine : Genuine repoIndices)
include genuine

/-- The record of a selected entry is one that installs build. -/
theorem Genuine.built (selected : selectEntry repoIndices termuxMode name = some pkg)
    (named : Security.validatePackageName pkg.packageName = none) (db : InstalledDb)
    (rootPackage : ByteString) : Built (installedRecord db termuxMode rootPackage pkg) := by
  obtain ⟨idx, inside, entry, listed, rfl⟩ := selectEntry_from selected
  obtain ⟨_, _, src, component, _, _, content, source, component, rfl⟩ := genuine idx inside
  rw [installedRecord_mergeEntry]
  apply Built.installed db termuxMode rootPackage source component listed
  unfold mergeEntry at named
  split at named
  · exact named
  · exact named

omit genuine in
/-- A package's names of dependencies as the resolver looks them up. -/
theorem mem_dependencyNames {dep : ByteString} (needs : dep ∈ pkg.depends) (name : DepName dep)
    (differs : dep ≠ pkg.packageName) : dep ∈ Dep.dependencyNames pkg := by
  have normal : Dep.normalizeDependencyName dep = dep := by
    apply List.takeWhile_eq_self_iff.mpr
    intro c mem
    simpa using (name.letters c mem).2.2.2.2
  refine List.mem_filter.mpr ⟨List.mem_map.mpr ⟨dep, needs, normal⟩, ?_⟩
  have filled := name.filled
  simpa [differs] using filled

/-- **The dependencies of a planned package** are recorded, or planned before it. -/
theorem Genuine.ready {rootPackage : ByteString} {db : InstalledDb}
    (ok : (resolve repoIndices rootPackage termuxMode []).ok = true)
    (names : ∀ pkg ∈ planOf repoIndices rootPackage termuxMode db,
      Security.validatePackageName pkg.packageName = none) (done : List PackageEntry)
    (pkg : PackageEntry) (starts : done ++ [pkg] <+: planOf repoIndices rootPackage termuxMode db) :
    ∀ dep ∈ pkg.depends, dep ≠ pkg.packageName →
      recordedAs db dep termuxMode = true ∨ dep ∈ done.map (·.packageName) := by
  intro dep needs differs
  have plan := planOf_spec db ok
  have planned : pkg ∈ planOf repoIndices rootPackage termuxMode db := starts.subset (by simp)
  obtain ⟨name, reached, -, selected⟩ := (plan.exact pkg).mp planned
  have depName := (genuine.built selected (names pkg planned) ∅ []).fits.depends dep needs
  have edge : Edge (Dep.depGraph (selectEntry repoIndices termuxMode)) pkg.packageName dep := by
    rw [selectEntry_name selected]
    exact Dep.edge_iff.mpr ⟨pkg, selected, mem_dependencyNames needs depName differs⟩
  by_cases there : dep ∈ installedNames db termuxMode
  · exact .inl (mem_installedNames.mp there)
  · right
    cases found : selectEntry repoIndices termuxMode dep with
    | none =>
      -- The resolver fails for a dependency that has no entry.
      have fails := (resolve_spec repoIndices rootPackage termuxMode []).1.ok
      have missing := fails.mpr (.inr (.inr (.inl ⟨dep, found, name, reached,
        selectEntry_name selected ▸ edge⟩)))
      rw [ok] at missing
      cases missing
    | some q =>
      obtain ⟨rest, split⟩ := starts
      rw [List.append_assoc] at split
      have before := plan.sorted done pkg rest split.symm dep q (.single edge) there found
      exact List.mem_map.mpr ⟨q, before, selectEntry_name found⟩

end Genuine

/-! ### Sound databases -/

/-- The records of a map are read back, and what they need is recorded. -/
structure Sound (db : InstalledDb) : Prop where
  fits : DbFits db
  oneLine : ∀ kv ∈ db.entries, OneLine kv.2.version ∧ OneLine kv.2.architecture
  closed : Closed db

theorem sound_durable : Durable Sound := by
  constructor
  · intro db db' same sound
    exact ⟨fun kv mem => sound.fits kv (same.mem_iff.mp mem),
      fun kv mem => sound.oneLine kv (same.mem_iff.mp mem),
      sound.closed.congr fun name => (AList.perm_lookup same).symm⟩
  · intro db sound
    rw [TextOf, parseStatus_statusText sound.fits sound.oneLine]
    exact List.reverse_perm _

theorem sound_empty : Sound ∅ := ⟨nofun, nofun, nofun⟩

theorem Sound.erase {db : InstalledDb} (sound : Sound db) {name : ByteString}
    {ip : InstalledPackage} (found : db.lookup name = some ip)
    (free : dependentsOf db name ip.termuxPackage = []) : Sound (db.erase name) := by
  have fewer : ∀ kv ∈ (db.erase name).entries, kv ∈ db.entries := fun kv mem =>
    (List.kerase_sublist name db.entries).subset mem
  exact ⟨fun kv mem => sound.fits kv (fewer kv mem), fun kv mem => sound.oneLine kv (fewer kv mem),
    sound.closed.erase found free⟩

/-- The plan has no version and no architecture of several lines. -/
def OneLines (plan : List PackageEntry) : Prop :=
  ∀ pkg ∈ plan, OneLine pkg.version ∧ OneLine pkg.architecture

/-- **Installing a plan** that spares the other flavour, as far as it goes. -/
theorem Sound.recordAll {repoIndices : RepoIndexList} (genuine : Genuine repoIndices)
    {termuxMode : Bool} {rootPackage : ByteString} {db : InstalledDb} (sound : Sound db)
    (ok : (resolve repoIndices rootPackage termuxMode []).ok = true)
    (names : ∀ pkg ∈ planOf repoIndices rootPackage termuxMode db,
      Security.validatePackageName pkg.packageName = none)
    (oneLines : OneLines (planOf repoIndices rootPackage termuxMode db))
    (spares : Spares db termuxMode (planOf repoIndices rootPackage termuxMode db))
    (done : List PackageEntry) (starts : done <+: planOf repoIndices rootPackage termuxMode db) :
    Sound (recordAll termuxMode rootPackage db done) := by
  have closed : Closed (Install.recordAll termuxMode rootPackage db done) :=
    (closed_at_every_stop_iff sound.closed (genuine.ready ok names)).mpr spares done starts
  have kept : ∀ kv ∈ (Install.recordAll termuxMode rootPackage db done).entries,
      (kv.1 = kv.2.name ∧ Fits kv.2) ∧ OneLine kv.2.version ∧ OneLine kv.2.architecture := by
    clear closed
    induction done using List.reverseRecOn with
    | nil => exact fun kv mem => ⟨sound.fits kv mem, sound.oneLine kv mem⟩
    | append_singleton done pkg ih =>
      have ih := ih ((List.prefix_append done [pkg]).trans starts)
      intro kv mem
      rw [recordAll_concat, record, AList.entries_insert] at mem
      rcases List.mem_cons.mp mem with rfl | mem
      · have planned := starts.subset (List.mem_append_right done (List.mem_singleton_self pkg))
        obtain ⟨name, -, -, selected⟩ := ((planOf_spec db ok).exact pkg).mp planned
        exact ⟨⟨rfl, (genuine.built selected (names pkg planned) _ _).fits⟩, oneLines pkg planned⟩
      · exact ih kv ((List.kerase_sublist _ _).subset mem)
  exact ⟨fun kv mem => (kept kv mem).1, fun kv mem => (kept kv mem).2, closed⟩

/-! ### Autoremove -/

/-- A candidate is not needed in what is left of the map. -/
theorem candidate_free {db left : InstalledDb} (shrinks : Shrinks db left) {name : ByteString}
    (candidate : name ∈ autoremoveCandidates db) {ip : InstalledPackage}
    (found : left.lookup name = some ip) : dependentsOf left name ip.termuxPackage = [] := by
  have loose := mem_autoremoveCandidates.mp candidate
  apply List.eq_nil_iff_forall_not_mem.mpr
  intro other needed
  obtain ⟨differs, pkg, there, flavour, needs⟩ := mem_dependentsOf.mp needed
  have there := shrinks other pkg there
  exact loose.free other (recorded_iff.mpr ⟨pkg, there⟩) differs
    ⟨pkg, ip, there, shrinks name ip found, flavour, needs⟩

/-- What is left of a map while its candidates are removed. -/
theorem remains_durable (db : InstalledDb) : Durable fun left => Sound left ∧ Shrinks db left := by
  constructor
  · rintro left left' same ⟨sound, shrinks⟩
    refine ⟨sound_durable.perm same sound, fun name pkg found => shrinks name pkg ?_⟩
    rw [← found]
    exact (AList.perm_lookup same).symm
  · exact fun h => sound_durable.reads h.1

theorem removeCandidates_sound (whole : dev.Whole) (opts : RemoveOptions) {db : InstalledDb}
    (removed : List ByteString) {w : InstallWorld} (loaded : TextOf w.own.status db)
    (start : Holds Sound w.own) :
    wp (forEach (removeCandidate dev opts) (autoremoveCandidates db) (removed, false))
      (fun _ w' => Holds Sound w'.own) (fun _ w' => Holds Sound w'.own) w := by
  have durable := remains_durable db
  have begins : Holds (fun left => Sound left ∧ Shrinks db left) w.own := by
    refine ⟨start, fun name pkg found => ?_⟩
    rw [← loaded.lookup]
    exact found
  refine wp_mono (wp_forEach (E := fun _ w' => Holds Sound w'.own)
    (fun _ (w' : InstallWorld) => Holds (fun left => Sound left ∧ Shrinks db left) w'.own)
    (fun name candidate x s holds => ?_) begins) (fun _ _ h => h.1) fun _ _ h => h
  have removes := removePackage_holds durable whole name opts holds fun left ip loaded found _ => by
    obtain ⟨sound, shrinks⟩ := (durable.loaded loaded).mp holds
    refine ⟨sound.erase found (candidate_free shrinks candidate found), fun other pkg there => ?_⟩
    apply shrinks
    by_cases same : other = name
    · subst same
      rw [AList.lookup_erase] at there
      cases there
    · rw [← AList.lookup_erase_ne same]
      exact there
  refine wp_bind.mpr (wp_attempt.mpr (wp_mono removes ?_ ?_))
  · exact fun _ _ h => h
  · exact fun _ _ h => h.1

theorem autoremove_sound (whole : dev.Whole) (fuel : Nat) (opts : RemoveOptions)
    {w : InstallWorld} (start : Holds Sound w.own) :
    wp (autoremove dev fuel opts) (fun _ w' => Holds Sound w'.own)
      (fun _ w' => Holds Sound w'.own) w := by
  have loop : ∀ (removed : List ByteString) (w : InstallWorld), Holds Sound w.own →
      wp (autoremoveLoop dev opts fuel removed) (fun _ w' => Holds Sound w'.own)
        (fun _ w' => Holds Sound w'.own) w := by
    induction fuel with
    | zero => exact fun _ _ start => start
    | succ fuel ih =>
      intro removed w start
      refine wp_bind.mpr (wp_mono (loadStatus_spec dev w) (fun r w₁ h => ?_) fun _ _ h => h.elim)
      obtain ⟨own, loaded⟩ := h
      rw [← own] at start loaded
      cases r with
      | error _ => exact start
      | ok db =>
        refine wp_ite.mpr ⟨fun _ => start, fun _ => wp_bind.mpr ?_⟩
        refine wp_mono (removeCandidates_sound whole opts removed (loaded db rfl) start)
          (fun x w₂ holds => wp_ite.mpr ⟨fun _ => ih x.1 w₂ holds, fun _ => holds⟩)
          fun _ _ holds => holds
  refine wp_bind.mpr (wp_mono (loop [] w start) (fun removed w' holds => ?_) fun _ _ holds => holds)
  cases removed with
  | none => exact holds
  | some _ => exact holds

/-! ### Runs -/

/-- Removals are not forced, and installs are from real indices. -/
def Op.Plain : Op → Prop
  | .install repoIndices _ _ => Genuine repoIndices
  | .remove _ opts => opts.force = false
  | .autoremove _ _ => True

/-- The plan of an install spares the other flavour, and has versions and architectures of
one line. -/
def Session.Harmless (x : Session) : Op → Prop
  | .install repoIndices rootPackage opts =>
      let db := parseStatus x.world.own.status
      let termuxMode := termuxModeOf repoIndices rootPackage opts
      let plan := planOf repoIndices rootPackage termuxMode db
      opts.simulate = false → (resolve repoIndices rootPackage termuxMode []).ok = true →
        OneLines plan ∧ Spares db termuxMode plan
  | .remove _ _ | .autoremove _ _ => True

/-- **One operation** keeps the database sound. -/
theorem Session.perform_sound (whole : dev.Whole) {x : Session} {op : Op} (plain : op.Plain)
    (harmless : x.Harmless op) (start : Holds Sound x.world.own) :
    Holds Sound (x.perform dev op).world.own := by
  cases op with
  | install repoIndices rootPackage opts =>
    apply wp_final (installWithDeps_holds sound_durable whole repoIndices rootPackage opts start ?_)
    intro db loaded real ok names done starts
    obtain ⟨oneLines, spares⟩ := harmless real ok
    rw [planOf_congr loaded.lookup] at oneLines spares
    have sound := (sound_durable.loaded loaded).mp start
    exact sound.recordAll plain ok names oneLines (spares.congr loaded.lookup) done starts
  | remove packageName opts =>
    apply wp_final (removePackage_holds sound_durable whole packageName opts start ?_)
    intro db ip loaded found unneeded
    exact ((sound_durable.loaded loaded).mp start).erase found (unneeded plain)
  | autoremove fuel opts => exact wp_final (autoremove_sound whole fuel opts start)

instance {db : InstalledDb} : Decidable (Closed db) :=
  decidable_of_iff (∀ kv ∈ db.entries, ∀ dep ∈ kv.2.depends, dep ≠ kv.1 →
      recordedAs db dep kv.2.termuxPackage = true)
    ⟨fun h name pkg found => h ⟨name, pkg⟩ (AList.mem_lookup_iff.mp found),
      fun h kv mem => h kv.1 kv.2 (AList.mem_lookup_iff.mpr mem)⟩

/-- A source of Termux packages. -/
def termuxSource : RepoSource where
  type := str "deb"
  uri := str "https://termux"
  dist := str "stable"
  components := [str "main"]
  format := .Termux
  isTermuxRepo := true

/-- A library for both flavours, and a Termux application that needs it. -/
def libIndices : RepoIndexList :=
  [makeRepoIndex mainSource (str "main") (str "arm64") [] (str
    "Package: lib\nArchitecture: arm64\nFilename: lib.deb\nSHA256: d\n"),
   makeRepoIndex termuxSource (str "main") (str "arm64") [] (str
    "Package: app\nFilename: app.deb\nSHA256: d\nDepends: lib\n\n" ++ str
    "Package: lib\nFilename: lib.deb\nSHA256: d\n")]

theorem libIndices_genuine : Genuine libIndices := by
  intro idx mem
  simp only [libIndices, List.mem_cons, List.not_mem_nil, or_false] at mem
  rcases mem with rfl | rfl
  · exact ⟨[], str "type=deb\nurl=https://r\nsuites=stable,main\n", mainSource, str "main", _, _, _,
      by decide +kernel, List.mem_singleton_self _, rfl⟩
  · exact ⟨[], str "type=deb\nurl=https://termux\nsuites=stable,main\n", termuxSource, str "main",
      _, _, _, by decide +kernel, List.mem_singleton_self _, rfl⟩

/-- Install the application, and then the library for the other flavour. -/
def libRun : List Op :=
  [.install libIndices (str "app") { isTermuxPackage := true }, .install libIndices (str "lib") {}]

theorem plainDevice_whole (signatures : Bool) : (plainDevice signatures).Whole :=
  fun _ _ => nofun

end Apm.Install
