import Apm.Install.Remove

/-!
A simulated `installWithDeps` and the real one.

The simulated call leaves as soon as the resolver is done. The real one goes on over loops that
skip, download and install, and reports what it installed.

## Main results

* `simulate_foretells`: a simulated call changes nothing, and reports the list that a real call
  over the same status file reports if it succeeds.
-/

namespace Apm.Install

open Apm.Repo Apm.Fs Apm.Config Apm.Lib.Effect Apm.Status

variable {dev : Device}

/-! ### What the real call reports -/

theorem planPackage_installed (db : InstalledDb) (reinstall termuxMode : Bool)
    (pkg : PackageEntry) (p : Planning) (w : InstallWorld) :
    wp (planPackage dev db reinstall termuxMode pkg p)
      (fun p' _ => p'.result.installedPackages = p.result.installedPackages)
      (fun _ _ => True) w := by
  apply wp_ite.mpr
  constructor
  · intro _
    rfl
  · intro _
    refine wp_bind_of_forall (fun r _ => ?_) fun _ _ => trivial
    cases r with
    | error _ => trivial
    | ok _ => rfl

/-- Nothing is reported as installed before the first package is. -/
theorem gatherDebs_installed (reinstall : Bool) (p : Prepared) (w : InstallWorld) :
    wp (gatherDebs dev reinstall p)
      (fun planning _ => planning.result.installedPackages = []) (fun _ _ => True) w := by
  apply wp_bind.mpr
  have turn : ∀ pkg ∈ p.installOrder, ∀ planning : Planning, ∀ s : InstallWorld,
      planning.result.installedPackages = [] →
      wp (planPackage dev p.installedDb reinstall p.termuxMode pkg planning)
        (fun planning' _ => planning'.result.installedPackages = []) (fun _ _ => True) s := by
    intro pkg _ planning s none
    exact wp_mono (planPackage_installed p.installedDb reinstall p.termuxMode pkg planning s)
      (fun _ _ h => h.trans none) fun _ _ h => h
  have loop : wp (forEach (planPackage dev p.installedDb reinstall p.termuxMode) p.installOrder {})
      (fun planning _ => planning.result.installedPackages = []) (fun _ _ => True) w :=
    wp_forEach _ turn rfl
  refine wp_mono loop (fun planning s none => ?_) fun _ _ h => h
  exact wp_bind_of_forall (fun _ _ => none) fun _ _ => trivial

theorem recordInstalled_installed (termuxMode : Bool) (rootPackage : ByteString)
    (pkg : PackageEntry) (db : InstalledDb) (result : InstallResult) (w : InstallWorld) :
    wp (recordInstalled dev termuxMode rootPackage pkg db result)
      (fun x _ => x.2.installedPackages = result.installedPackages ++ [pkg.packageName])
      (fun _ _ => True) w := by
  refine wp_bind_of_forall (fun r _ => ?_) fun _ _ => trivial
  cases r with
  | none => rfl
  | some writeErr =>
    apply wp_ite.mpr
    constructor
    · intro _
      trivial
    · intro _
      refine wp_bind_of_forall (fun r' _ => ?_) fun _ _ => trivial
      cases r' <;> trivial

/-- A turn that succeeds reports its package behind the others. -/
theorem installPlanned_installed (repoIndices : RepoIndexList) (reinstall termuxMode : Bool)
    (rootPackage : ByteString) (plan : PlannedInstall) (x : InstalledDb × InstallResult)
    (w : InstallWorld) :
    wp (installPlanned dev repoIndices reinstall termuxMode rootPackage plan x)
      (fun x' _ => x'.2.installedPackages = x.2.installedPackages ++ [plan.pkg.packageName])
      (fun _ _ => True) w := by
  have anything : ∀ (e : InstallResult) (s : InstallWorld), True := fun _ _ => trivial
  refine wp_bind_of_forall (fun _ s₁ => ?_) anything
  refine wp_bind_of_forall (fun debPath s₂ => ?_) anything
  refine wp_bind_of_forall (fun pending s₃ => ?_) anything
  refine wp_bind_of_forall (fun _ s₄ => ?_) anything
  unfold installVerified
  split
  · trivial
  · refine wp_bind_of_forall (fun r s₅ => ?_) anything
    cases r with
    | some _ => trivial
    | none => exact recordInstalled_installed termuxMode rootPackage plan.pkg x.1 x.2 s₅

theorem installLoop_installed (repoIndices : RepoIndexList) (reinstall termuxMode : Bool)
    (rootPackage : ByteString) (plans : List PlannedInstall) (x : InstalledDb × InstallResult)
    (w : InstallWorld) :
    wp (forEach (installPlanned dev repoIndices reinstall termuxMode rootPackage) plans x)
      (fun x' _ => x'.2.installedPackages =
        x.2.installedPackages ++ plans.map (·.pkg.packageName))
      (fun _ _ => True) w := by
  let reports (done : List PlannedInstall) (x' : InstalledDb × InstallResult)
      (_ : InstallWorld) : Prop :=
    x'.2.installedPackages = x.2.installedPackages ++ done.map (·.pkg.packageName)
  apply wp_forEach_done reports
  · intro done plan rest _ x' s reported
    refine wp_mono (installPlanned_installed repoIndices reinstall termuxMode rootPackage plan x' s)
      (fun x'' _ turn => ?_) fun _ _ h => h
    show x''.2.installedPackages = _
    rw [turn, reported, List.append_assoc, List.map_append, List.map_singleton]
  · simp [reports]

/-- A real call reports the plan. -/
theorem installWithDeps_installed (repoIndices : RepoIndexList) (rootPackage : ByteString)
    {opts : InstallOptions} (real : opts.simulate = false) (w : InstallWorld) :
    wp (installWithDeps dev repoIndices rootPackage opts)
      (fun r _ => ∃ db, TextOf w.own.status db ∧ r.installedPackages =
        (planOf repoIndices rootPackage (termuxModeOf repoIndices rootPackage opts) db).map
          (·.packageName))
      (fun _ _ => True) w := by
  apply wp_bind.mpr
  refine wp_mono (prepare_spec dev repoIndices rootPackage opts w) (fun p w₁ h => ?_)
    fun _ _ _ => trivial
  obtain ⟨prepared, own⟩ := h
  rw [if_neg (by simp [real])]
  apply wp_bind.mpr
  refine wp_mono (wp_and (gatherDebs_spec dev opts.reinstall p w₁)
    (gatherDebs_installed opts.reinstall p w₁)) (fun planning w₂ gathered => ?_)
    fun _ _ _ => trivial
  obtain ⟨⟨pkgs, -, -⟩, none⟩ := gathered
  apply wp_bind.mpr
  refine wp_mono (installLoop_installed repoIndices opts.reinstall p.termuxMode rootPackage
    planning.plans (p.installedDb, planning.result) w₂) (fun x w₃ reported => ?_)
    fun _ _ _ => trivial
  refine ⟨p.installedDb, prepared.loaded, ?_⟩
  calc x.2.installedPackages
      = planning.result.installedPackages ++ planning.plans.map (·.pkg.packageName) := reported
    _ = (planning.plans.map (·.pkg)).map (·.packageName) := by
      rw [none, List.nil_append, List.map_map]
      rfl
    _ = _ := by rw [pkgs, prepared.unskipped, prepared.mode]

/-! ### What the simulated call does -/

/-- The simulated call touches neither the disk nor the installer's state. -/
theorem prepare_reads (repoIndices : RepoIndexList) (rootPackage : ByteString)
    (opts : InstallOptions) :
    Keeps (fun w : InstallWorld => (w.own, w.disk)) (prepare dev repoIndices rootPackage opts) := by
  apply Keeps.ite (fail_keeps _ _)
  split
  · exact fail_keeps _ _
  · apply Keeps.ite (fail_keeps _ _)
    have load : Keeps (fun w : InstallWorld => (w.own, w.disk))
        (loadStatus (ε := InstallResult) dev) := fun _ => rfl
    apply load.bind
    intro r
    cases r with
    | error _ => exact fail_keeps _ _
    | ok _ => exact .ite (fail_keeps _ _) (keeps_pure _)

theorem simulated_reads (repoIndices : RepoIndexList) (rootPackage : ByteString)
    {opts : InstallOptions} (simulated : opts.simulate = true) :
    Keeps (fun w : InstallWorld => (w.own, w.disk))
      (installWithDeps dev repoIndices rootPackage opts) := by
  apply (prepare_reads repoIndices rootPackage opts).bind
  intro p
  rw [if_pos simulated]
  exact keeps_pure _

/-- The simulated call reports the plan. -/
theorem simulated_installed (repoIndices : RepoIndexList) (rootPackage : ByteString)
    {opts : InstallOptions} (simulated : opts.simulate = true) (w : InstallWorld) :
    wp (installWithDeps dev repoIndices rootPackage opts)
      (fun r _ => ∃ db, TextOf w.own.status db ∧ r.installedPackages =
        (planOf repoIndices rootPackage (termuxModeOf repoIndices rootPackage opts) db).map
          (·.packageName))
      (fun _ _ => True) w := by
  apply wp_bind.mpr
  refine wp_mono (prepare_spec dev repoIndices rootPackage opts w) (fun p w₁ h => ?_)
    fun _ _ _ => trivial
  rw [if_pos simulated]
  exact ⟨p.installedDb, h.1.loaded, by rw [h.1.order, h.1.mode]⟩

/-- A call comes to its plan if the root is there, the status file can be read, and the resolver
finds everything. -/
theorem prepare_isOk_iff (repoIndices : RepoIndexList) (rootPackage : ByteString)
    (opts : InstallOptions) (w : InstallWorld) :
    (exec (prepare dev repoIndices rootPackage opts) w).1.isOk = true ↔
      rootPackage.isEmpty = false ∧ Security.validatePackageName rootPackage = none ∧
      hasRoot (mergeIndices repoIndices) rootPackage (termuxModeOf repoIndices rootPackage opts) =
        true ∧ dev.ok w.clock = true ∧
      (resolve repoIndices rootPackage
        (termuxModeOf repoIndices rootPackage opts) []).ok = true := by
  unfold prepare fail
  cases empty : rootPackage.isEmpty with
  | true => simp [Except.isOk, Except.toBool]
  | false =>
    cases valid : Security.validatePackageName rootPackage with
    | some _ => simp [Except.isOk, Except.toBool]
    | none =>
      cases found : hasRoot (mergeIndices repoIndices) rootPackage
          (termuxModeOf repoIndices rootPackage opts) with
      | false => simp [found, Except.isOk, Except.toBool]
      | true =>
        cases readable : dev.ok w.clock with
        | false => simp [found, readable, loadStatus, exec_bind, Except.isOk, Except.toBool]
        | true =>
          have ok := resolve_ok_congr repoIndices rootPackage
            (termuxModeOf repoIndices rootPackage opts)
            (installedNames (dev.order w.clock (parseStatus w.own.status))
              (termuxModeOf repoIndices rootPackage opts)) []
          cases resolved : (resolve repoIndices rootPackage
            (termuxModeOf repoIndices rootPackage opts) []).ok <;>
            simp [found, readable, loadStatus, exec_bind, ok, resolved, Except.isOk, Except.toBool]

/-- Where a real call comes to its plan, a simulated one that can read the status file does. -/
theorem simulated_isOk {dev' : Device} {repoIndices : RepoIndexList} {rootPackage : ByteString}
    {opts : InstallOptions} {w w' : InstallWorld} (readable : dev.ok w.clock = true)
    (real : (exec (installWithDeps dev' repoIndices rootPackage
      { opts with simulate := false }) w').1.isOk = true) :
    (exec (installWithDeps dev repoIndices rootPackage
      { opts with simulate := true }) w).1.isOk = true := by
  have came : (exec (prepare dev' repoIndices rootPackage
      { opts with simulate := false }) w').1.isOk = true := by
    rw [installWithDeps, exec_bind] at real
    rcases run : exec (prepare dev' repoIndices rootPackage { opts with simulate := false }) w'
      with ⟨_ | _, w₁⟩ <;> rw [run] at real
    · exact real
    · rfl
  obtain ⟨nonempty, valid, found, -, resolved⟩ := (prepare_isOk_iff ..).mp came
  have comes : (exec (prepare dev repoIndices rootPackage
      { opts with simulate := true }) w).1.isOk = true :=
    (prepare_isOk_iff ..).mpr ⟨nonempty, valid, found, readable, resolved⟩
  rw [installWithDeps, exec_bind]
  rcases run : exec (prepare dev repoIndices rootPackage { opts with simulate := true }) w
    with ⟨_ | _, w₁⟩ <;> rw [run] at comes
  · exact comes
  · rfl

/-- **A simulated call changes nothing**, and the list it reports is the one that a real call over
the same status file reports if it succeeds. It succeeds then too, if it can read the file. -/
theorem simulate_foretells (dev dev' : Device) (repoIndices : RepoIndexList)
    (rootPackage : ByteString) (opts : InstallOptions) (w w' : InstallWorld)
    (same : w'.own.status = w.own.status) :
    let simulated := exec (installWithDeps dev repoIndices rootPackage
      { opts with simulate := true }) w
    let real := exec (installWithDeps dev' repoIndices rootPackage
      { opts with simulate := false }) w'
    (simulated.2.own = w.own ∧ simulated.2.disk = w.disk) ∧
      ∀ r, real.1 = .ok r → (dev.ok w.clock = true → simulated.1.isOk = true) ∧
        ∀ r', simulated.1 = .ok r' → r'.installedPackages = r.installedPackages := by
  intro simulated real
  constructor
  · have reads : (simulated.2.own, simulated.2.disk) = (w.own, w.disk) :=
      simulated_reads repoIndices rootPackage rfl w
    exact Prod.mk.inj reads
  · intro r succeeded
    constructor
    · intro readable
      have came : real.1.isOk = true := by
        rw [succeeded]
        rfl
      exact simulated_isOk readable came
    · intro r' foretold
      have realRun : exec (installWithDeps dev' repoIndices rootPackage
          { opts with simulate := false }) w' = (.ok r, real.2) := Prod.ext succeeded rfl
      have simulatedRun : exec (installWithDeps dev repoIndices rootPackage
          { opts with simulate := true }) w = (.ok r', simulated.2) := Prod.ext foretold rfl
      obtain ⟨db, loaded, installed⟩ :=
        (installWithDeps_installed repoIndices rootPackage rfl w').ok realRun
      obtain ⟨db', loaded', installed'⟩ :=
        (simulated_installed repoIndices rootPackage rfl w).ok simulatedRun
      rw [same] at loaded
      have lookups : ∀ name, db.lookup name = db'.lookup name :=
        fun name => (loaded.lookup name).symm.trans (loaded'.lookup name)
      rw [installed, installed', planOf_congr lookups]
      rfl

/-- A simulated install of the application, and the real one. -/
theorem simulate_foretells_app :
    let w : InstallWorld := (Session.start (fun _ => none) 0).world
    let names := [str "lib", str "app"]
    let r : InstallResult :=
      { ok := true, message := installedMessage names, installedPackages := names }
    let r' : InstallResult := { r with message := simulatedMessage (str "app") names }
    (exec (installWithDeps (plainDevice true) appIndices (str "app") {}) w).1 = .ok r ∧
      (exec (installWithDeps (plainDevice true) appIndices (str "app") { simulate := true }) w).1 =
        .ok r' ∧ r'.installedPackages = r.installedPackages := by
  intro w names r r'
  have real :
      (exec (installWithDeps (plainDevice true) appIndices (str "app") {}) w).1 = .ok r := by
    decide +kernel
  have simulated : (exec (installWithDeps (plainDevice true) appIndices (str "app")
      { simulate := true }) w).1 = .ok r' := by
    decide +kernel
  have foretold := (simulate_foretells (plainDevice true) (plainDevice true) appIndices (str "app")
    {} w w rfl).2 r real
  exact ⟨real, simulated, foretold.2 r' simulated⟩

end Apm.Install
