import Apm.Install.Records

/-!
What reaches `installSinglePackage`.

An install calls `installSinglePackage` only in the turns of its install loop, so a
property of all calls is a property of all turns (`forall_emitted_installWithDeps`).

## Main results

* `accepted_iff`: the files handed to `installSinglePackage` match their package's
  checksums, but for a `.deb` that the signature cache is stored over.
* `signed_of_required`: the packages of a `Required` source are signed, where the
  policy found for them is `Required` and the `.deb` can be hashed.
-/

namespace Apm.Install

open Apm.Repo Apm.Fs Apm.Config Apm.Lib.Effect Apm.Status

variable (dev : Device)

/-- The events so far. -/
def log (w : InstallWorld) : List Event := w.own.log

/-! ### Turns of the install loop -/

/-- A call starts the install turn of a plan, with the status map and the result `x`,
in the state `t`. -/
def TurnStarts (repoIndices : RepoIndexList) (rootPackage : ByteString) (opts : InstallOptions)
    (w : InstallWorld) (plan : PlannedInstall) (x : InstalledDb × InstallResult)
    (t : InstallWorld) : Prop :=
  opts.simulate = false ∧ ∃ p w₁ planning w₂,
    exec (prepare dev repoIndices rootPackage opts) w = (.ok p, w₁) ∧
    exec (gatherDebs dev opts.reinstall p) w₁ = (.ok planning, w₂) ∧
    Starts (installPlanned dev repoIndices opts.reinstall p.termuxMode rootPackage)
      planning.plans (p.installedDb, planning.result) w₂ plan x t

/-- What is installed has a valid name. -/
theorem TurnStarts.name {repoIndices : RepoIndexList} {rootPackage : ByteString}
    {opts : InstallOptions} {w t : InstallWorld} {plan : PlannedInstall}
    {x : InstalledDb × InstallResult}
    (start : TurnStarts dev repoIndices rootPackage opts w plan x t) :
    Security.validatePackageName plan.pkg.packageName = none := by
  obtain ⟨-, p, w₁, planning, w₂, -, gathered, started⟩ := start
  exact ((gatherDebs_spec dev opts.reinstall p w₁).ok gathered).2.1 plan started.mem

/-! ### Who appends to the log -/

/-- What leaves the installer's state alone is silent. -/
theorem silent {ε α : Type} {act : Act InstallWorld ε α} (h : Keeps World.own act) :
    Keeps log act := h.comp Own.log

theorem checkSignature_silent (repoIndices : RepoIndexList) (pkg : PackageEntry)
    (debPath : ByteString) (result : InstallResult) :
    Keeps log (checkSignature dev repoIndices pkg debPath result) :=
  checkSignature_keeps dev Own.log (fun _ _ => rfl) _ _ _ _

theorem recordInstalled_silent (termuxMode : Bool) (rootPackage : ByteString)
    (pkg : PackageEntry) (db : InstalledDb) (result : InstallResult) :
    Keeps log (recordInstalled dev termuxMode rootPackage pkg db result) :=
  recordInstalled_keeps dev Own.log (fun _ _ _ => rfl) _ _ _ _ _

theorem installSinglePackage_appends {ε : Type} (pkg : PackageEntry) (debPath : ByteString) :
    Appends log (installSinglePackage (ε := ε) dev pkg debPath) := by
  refine Appends.bind (fun w => List.prefix_append _ _) fun _ => ?_
  split
  · exact (keeps_pure _).appends
  · exact fun w => List.prefix_append _ _

/-- What follows the unpacking: the package is recorded, or the install fails. -/
theorem settled_silent (termuxMode : Bool) (rootPackage : ByteString) (pkg : PackageEntry)
    (x : InstalledDb × InstallResult) (r : Option ByteString) :
    Keeps log (match r with
      | some err => fail x.2 (str "Failed to install " ++ pkg.packageName ++ str ": " ++ err)
      | none => recordInstalled dev termuxMode rootPackage pkg x.1 x.2) := by
  cases r with
  | some _ => exact fail_keeps _ _
  | none => exact recordInstalled_silent dev _ _ _ _ _

theorem installVerified_appends (termuxMode : Bool) (rootPackage : ByteString)
    (pkg : PackageEntry) (debPath : ByteString) (x : InstalledDb × InstallResult) :
    Appends log (installVerified dev termuxMode rootPackage pkg debPath x) := by
  unfold installVerified
  split
  · exact (fail_keeps _ _).appends
  · exact (installSinglePackage_appends dev pkg debPath).bind fun r =>
      (settled_silent dev _ _ _ _ r).appends

theorem installChecked_appends (repoIndices : RepoIndexList) (termuxMode : Bool)
    (rootPackage : ByteString) (pkg : PackageEntry) (debPath : ByteString)
    (x : InstalledDb × InstallResult) :
    Appends log (installChecked dev repoIndices termuxMode rootPackage pkg debPath x) :=
  (checkSignature_silent dev _ _ _ _).appends.bind fun pending =>
    (silent (storePending_keeps dev pending)).appends.bind fun _ =>
      installVerified_appends dev _ _ _ _ _

theorem installPlanned_appends (repoIndices : RepoIndexList) (reinstall termuxMode : Bool)
    (rootPackage : ByteString) (plan : PlannedInstall) (x : InstalledDb × InstallResult) :
    Appends log (installPlanned dev repoIndices reinstall termuxMode rootPackage plan x) :=
  (silent (removeReplaced_keeps dev _ _ _ _)).appends.bind fun _ =>
    (silent (checkedDeb_keeps dev _ _)).appends.bind fun _ =>
      installChecked_appends dev _ _ _ _ _ _

theorem installPrepared_appends (repoIndices : RepoIndexList) (rootPackage : ByteString)
    (reinstall : Bool) (p : Prepared) :
    Appends log (installPrepared dev repoIndices rootPackage reinstall p) :=
  (silent (gatherDebs_keeps dev reinstall p)).appends.bind fun _ =>
    (Appends.forEach (installPlanned_appends dev _ _ _ _) _ _).bind fun _ =>
      (keeps_pure _).appends

theorem forall_emitted_installPrepared (repoIndices : RepoIndexList) (rootPackage : ByteString)
    (reinstall : Bool) (p : Prepared) (w : InstallWorld) (P : Event → Prop) :
    (∀ e ∈ emitted log (installPrepared dev repoIndices rootPackage reinstall p) w, P e) ↔
      ∀ planning w', exec (gatherDebs dev reinstall p) w = (.ok planning, w') →
        ∀ plan x t, Starts (installPlanned dev repoIndices reinstall p.termuxMode rootPackage)
          planning.plans (p.installedDb, planning.result) w' plan x t →
        ∀ e ∈ emitted log
          (installPlanned dev repoIndices reinstall p.termuxMode rootPackage plan x) t, P e := by
  have turn := installPlanned_appends dev repoIndices reinstall p.termuxMode rootPackage
  have last (done : InstalledDb × InstallResult) (s : InstallWorld) :
      ∀ e ∈ emitted log (pure { done.2 with
        ok := true, message := installedMessage done.2.installedPackages } :
          Act InstallWorld InstallResult InstallResult) s, P e := by
    rw [(keeps_pure _).emitted]
    exact fun _ h => nomatch h
  unfold installPrepared
  rw [(silent (gatherDebs_keeps dev reinstall p)).forall_emitted_bind fun planning =>
    (Appends.forEach turn _ _).bind fun _ => (keeps_pure _).appends]
  refine forall₂_congr fun planning w' => imp_congr_right fun _ => ?_
  rw [forall_emitted_bind (Appends.forEach turn _ _) fun _ => (keeps_pure _).appends,
    forall_emitted_forEach turn]
  exact and_iff_left fun done s _ => last done s

/-- **All events of an install are events of its turns.** -/
theorem forall_emitted_installWithDeps (repoIndices : RepoIndexList) (rootPackage : ByteString)
    (opts : InstallOptions) (w : InstallWorld) (P : Event → Prop) :
    (∀ e ∈ emitted log (installWithDeps dev repoIndices rootPackage opts) w, P e) ↔
      ∀ plan x t, TurnStarts dev repoIndices rootPackage opts w plan x t →
        ∀ e ∈ emitted log (installPlanned dev repoIndices opts.reinstall
          (termuxModeOf repoIndices rootPackage opts) rootPackage plan x) t, P e := by
  unfold installWithDeps
  rw [(silent (prepare_keeps dev repoIndices rootPackage opts)).forall_emitted_bind]
  · constructor
    · rintro all plan x t ⟨real, p, w₁, planning, w₂, prepared, gathered, started⟩
      have h := all p w₁ prepared
      rw [if_neg (by simp [real]), forall_emitted_installPrepared] at h
      rw [← ((prepare_spec dev repoIndices rootPackage opts w).ok prepared).1.mode]
      exact h planning w₂ gathered plan x t started
    · intro all p w₁ prepared
      have mode := ((prepare_spec dev repoIndices rootPackage opts w).ok prepared).1.mode
      cases real : opts.simulate with
      | true =>
        rw [if_pos rfl, (keeps_pure _).emitted]
        exact fun _ h => nomatch h
      | false =>
        rw [if_neg (by simp), forall_emitted_installPrepared]
        intro planning w₂ gathered plan x t started
        rw [mode]
        exact all plan x t ⟨real, p, w₁, planning, w₂, prepared, gathered, started⟩
  · intro p
    split
    · exact (keeps_pure _).appends
    · exact installPrepared_appends dev _ _ _ _

/-! ### Calls of `installSinglePackage` -/

theorem forall_emitted_installSinglePackage {ε : Type} {pkg : PackageEntry}
    (name : Security.validatePackageName pkg.packageName = none) (debPath : ByteString)
    (w : InstallWorld) {P : Event → Prop} (unpacked : ∀ pkg, P (.unpacked pkg)) :
    (∀ e ∈ emitted log (installSinglePackage (ε := ε) dev pkg debPath) w, P e) ↔
      P (.installCalled pkg debPath w.disk w.own.verified) := by
  have events : emitted log (installSinglePackage (ε := ε) dev pkg debPath) w =
      .installCalled pkg debPath w.disk w.own.verified ::
        if (dev.unpack w.clock).isNone then [.unpacked pkg] else [] := by
    unfold installSinglePackage emitted
    rw [exec_bind, exec_update]
    simp [name, log, List.append_assoc]
  rw [events, List.forall_mem_cons]
  refine and_iff_left fun e he => ?_
  split at he
  · exact List.mem_singleton.mp he ▸ unpacked pkg
  · cases he

theorem forall_emitted_installVerified {termuxMode : Bool} {rootPackage : ByteString}
    {pkg : PackageEntry} (name : Security.validatePackageName pkg.packageName = none)
    (debPath : ByteString) (x : InstalledDb × InstallResult) (w : InstallWorld)
    {P : Event → Prop} (unpacked : ∀ pkg, P (.unpacked pkg)) :
    (∀ e ∈ emitted log (installVerified dev termuxMode rootPackage pkg debPath x) w, P e) ↔
      P (.installCalled pkg debPath w.disk w.own.verified) := by
  have record := settled_silent dev termuxMode rootPackage pkg x
  unfold installVerified
  rw [name]
  refine (forall_emitted_bind (installSinglePackage_appends dev pkg debPath)
    (fun r => (record r).appends) w P).trans ?_
  rw [forall_emitted_installSinglePackage dev name _ _ unpacked]
  refine and_iff_left fun r s _ => ?_
  rw [(record r).emitted]
  exact List.forall_mem_nil _

/-- **A package behind the checksum gate** is handed to `installSinglePackage` once the
signature gate lets it through and the cache is stored. -/
theorem forall_emitted_installChecked {repoIndices : RepoIndexList} {termuxMode : Bool}
    {rootPackage : ByteString} {pkg : PackageEntry}
    (name : Security.validatePackageName pkg.packageName = none) (debPath : ByteString)
    (x : InstalledDb × InstallResult) (w : InstallWorld) {P : Event → Prop}
    (unpacked : ∀ pkg, P (.unpacked pkg)) :
    (∀ e ∈ emitted log
        (installChecked dev repoIndices termuxMode rootPackage pkg debPath x) w, P e) ↔
      ∀ pending w₁, exec (checkSignature dev repoIndices pkg debPath x.2) w = (.ok pending, w₁) →
        ∀ u w₂, exec (storePending (ε := InstallResult) dev pending) w₁ = (.ok u, w₂) →
          P (.installCalled pkg debPath w₂.disk w₂.own.verified) := by
  have last := installVerified_appends dev termuxMode rootPackage pkg debPath x
  unfold installChecked
  rw [(checkSignature_silent dev repoIndices pkg debPath x.2).forall_emitted_bind
    fun pending => (silent (storePending_keeps dev pending)).appends.bind fun _ => last]
  refine forall₂_congr fun pending w₁ => imp_congr_right fun _ => ?_
  rw [(silent (storePending_keeps dev pending)).forall_emitted_bind fun _ => last]
  exact forall₂_congr fun u w₂ => imp_congr_right fun _ =>
    forall_emitted_installVerified dev name debPath x w₂ unpacked

/-- The checksum gate of a turn: the old files of a replaced package go first. -/
def checksumGate (reinstall termuxMode : Bool) (plan : PlannedInstall)
    (x : InstalledDb × InstallResult) : Act InstallWorld InstallResult ByteString := do
  removeReplaced dev reinstall termuxMode x.1 plan.pkg
  checkedDeb dev plan x.2

theorem installPlanned_eq (repoIndices : RepoIndexList) (reinstall termuxMode : Bool)
    (rootPackage : ByteString) (plan : PlannedInstall) (x : InstalledDb × InstallResult) :
    installPlanned dev repoIndices reinstall termuxMode rootPackage plan x =
      checksumGate dev reinstall termuxMode plan x >>= fun debPath =>
        installChecked dev repoIndices termuxMode rootPackage plan.pkg debPath x :=
  (bind_assoc _ _ _).symm

theorem checksumGate_keeps (reinstall termuxMode : Bool) (plan : PlannedInstall)
    (x : InstalledDb × InstallResult) :
    Keeps World.own (checksumGate dev reinstall termuxMode plan x) :=
  (removeReplaced_keeps dev _ _ _ _).bind fun _ => checkedDeb_keeps dev _ _

theorem forall_emitted_installPlanned {repoIndices : RepoIndexList} {reinstall termuxMode : Bool}
    {rootPackage : ByteString} {plan : PlannedInstall} {x : InstalledDb × InstallResult}
    {t : InstallWorld} {P : Event → Prop} :
    (∀ e ∈ emitted log
        (installPlanned dev repoIndices reinstall termuxMode rootPackage plan x) t, P e) ↔
      ∀ debPath w, exec (checksumGate dev reinstall termuxMode plan x) t = (.ok debPath, w) →
        ∀ e ∈ emitted log
          (installChecked dev repoIndices termuxMode rootPackage plan.pkg debPath x) w, P e := by
  rw [installPlanned_eq, (silent (checksumGate_keeps dev _ _ _ _)).forall_emitted_bind]
  exact fun _ => installChecked_appends dev _ _ _ _ _ _

/-! ### Checksums -/

/-- What passes the checksum gate matches. -/
theorem checkedDeb_spec (plan : PlannedInstall) (result : InstallResult) (w : InstallWorld) :
    wp (checkedDeb dev plan result)
      (fun debPath w' => FileMatches dev.toOutside plan.pkg w'.disk debPath)
      (fun _ _ => True) w := by
  refine wp_ite.mpr ⟨fun _ => trivial, fun _ => wp_bind.mpr ?_⟩
  refine wp_mono (verifyDebSha256_spec dev.toOutside plan.pkg plan.debPath w)
    (fun rejected w₁ accepted => ?_) fun _ _ _ => trivial
  cases rejected with
  | none => exact accepted rfl
  | some shaErr =>
    refine wp_bind.mpr (wp_of_forall (fun r w₂ => ?_) fun _ _ => trivial)
    cases r with
    | error _ => trivial
    | ok found =>
      refine wp_bind.mpr (wp_mono (verifyDebSha256_spec dev.toOutside plan.pkg found.1 w₂)
        (fun rejected w₃ accepted => ?_) fun _ _ _ => trivial)
      cases rejected with
      | none => exact accepted rfl
      | some _ => trivial

theorem checksumGate_spec (reinstall termuxMode : Bool) (plan : PlannedInstall)
    (x : InstalledDb × InstallResult) (t : InstallWorld) :
    wp (checksumGate dev reinstall termuxMode plan x)
      (fun debPath w => FileMatches dev.toOutside plan.pkg w.disk debPath)
      (fun _ _ => True) t :=
  wp_bind.mpr (wp_of_forall (fun _ w => checkedDeb_spec dev plan x.2 w) fun _ _ => trivial)

theorem FileMatches.survives {pkg : PackageEntry} {disk disk' : ByteString → Option Node}
    {path : ByteString} (h : FileMatches dev.toOutside pkg disk path)
    (survives : Survives disk disk') : FileMatches dev.toOutside pkg disk' path := by
  obtain ⟨content, found, matched⟩ := h
  refine ⟨content, ?_, matched⟩
  unfold contentAt at found ⊢
  rwa [survives]
  split at found
  · simp [*]
  · cases found

theorem verifyDebGpg_spec {ε : Type} (debPath sigPath : ByteString) (w : InstallWorld) :
    wp (verifyDebGpg (ε := ε) dev.toOutside debPath sigPath)
      (fun r w' => w'.disk = w.disk ∧ (r.isOk → debPath ∈ w'.own.verified))
      (fun _ _ => False) w := by
  refine wp_bind.mpr (wp_update.mpr ?_)
  split
  · exact wp_bind.mpr ⟨rfl, fun _ => List.mem_cons_self⟩
  · exact ⟨rfl, fun h => nomatch h⟩

/-- The signature cache on the disk. -/
def cacheOn (disk : ByteString → Option Node) : SigCache :=
  (loadSigCache (contentAt disk (dev.resolve sigCachePath))).2

theorem mem_cacheOn {w : InstallWorld} {key : ByteString}
    (h : ((loadSigCache (w.read dev.toOutside sigCachePath)).2.lookup key).isSome) :
    key ∈ cacheOn dev w.disk := by
  unfold cacheOn
  cases found : w.read dev.toOutside sigCachePath with
  | none =>
    rw [found] at h
    cases h
  | some text =>
    rw [found] at h
    rw [read_eq_some dev.toOutside found]
    exact AList.lookup_isSome.mp h

/-- **The signature gate** overwrites nothing and lets nothing through a `Required`
policy, where the `.deb` can be hashed, unless it is in the cache or was just verified. -/
theorem checkSignature_spec (repoIndices : RepoIndexList) (pkg : PackageEntry)
    (debPath : ByteString) (result : InstallResult) (w : InstallWorld) :
    wp (checkSignature dev repoIndices pkg debPath result)
      (fun pending w' => Survives w.disk w'.disk ∧
        (pending.isSome → debPath ∈ w'.own.verified) ∧
        (pending = none → getDebSigPolicy repoIndices pkg = .Required →
          ∀ content, w.read dev.toOutside debPath = some content →
            w'.disk = w.disk ∧ dev.sha256 content ∈ cacheOn dev w.disk))
      (fun _ _ => True) w := by
  have stays : Survives w.disk w.disk := fun _ _ => rfl
  refine wp_ite.mpr ⟨fun disabled => ⟨stays, by simp, ?_⟩, fun _ => ?_⟩
  · intro _ required
    cases disabled.symm.trans required
  refine wp_bind.mpr (wp_update.mpr ?_)
  cases hashed : w.read dev.toOutside debPath with
  | none => exact ⟨stays, by simp, by simp⟩
  | some content =>
    refine wp_bind.mpr (wp_update.mpr (wp_ite.mpr ⟨fun hit => ⟨stays, by simp, ?_⟩, fun _ => ?_⟩))
    · rintro _ _ _ ⟨rfl⟩
      exact ⟨rfl, mem_cacheOn dev (w := w.tick) hit⟩
    refine wp_bind.mpr (wp_mono (ensureDebSignature_spec dev.toOutside pkg debPath _)
      (fun sig w₁ survives => ?_) fun _ _ _ => trivial)
    cases sig with
    | error _ =>
      refine wp_ite.mpr ⟨fun _ => trivial, fun optional => ⟨survives, by simp, ?_⟩⟩
      exact fun _ required => absurd required optional
    | ok sigPath =>
      refine wp_bind.mpr (wp_mono (verifyDebGpg_spec dev debPath sigPath w₁)
        (fun r w₂ verified => ?_) fun _ _ _ => trivial)
      have survives : Survives w.disk w₂.disk := by
        rw [verified.1]
        exact survives
      cases r with
      | ok _ => exact ⟨survives, fun _ => verified.2 rfl, by simp⟩
      | error _ =>
        refine wp_ite.mpr ⟨fun _ => trivial, fun optional => ⟨survives, by simp, ?_⟩⟩
        exact fun _ required => absurd required optional

/-- What storing a signature cache leaves in its file, if it changes it. -/
def storedText (cache : SigCache) (w : InstallWorld) : Option ByteString :=
  if w.node dev.toOutside sigCachePath = some .dir then none
  else
    match dev.write w.clock with
    | .written => some (sigCacheJson cache)
    | .refused => none
    | .damaged _ left => some left

/-- The cache is stored over the `.deb` that was checked. -/
def StoreSpoils (pkg : PackageEntry) (debPath : ByteString) (cache : SigCache)
    (w : InstallWorld) : Prop :=
  dev.resolve debPath = dev.resolve sigCachePath ∧
    ∃ left, storedText dev cache w = some left ∧ ¬ ChecksumMatches dev.toOutside pkg left

theorem storeSigCache_disk {ε : Type} (cache : SigCache) (w : InstallWorld) :
    wp (storeSigCache (ε := ε) dev.toOutside cache)
      (fun _ w' => w'.disk = match storedText dev cache w with
        | some left => Function.update w.disk (dev.resolve sigCachePath) (some (.file left))
        | none => w.disk) (fun _ _ => False) w := by
  refine wp_bind.mpr (wp_update.mpr (wp_pure.mpr ?_))
  unfold storedText
  by_cases dir : w.node dev.toOutside sigCachePath = some .dir
  · rw [if_pos dir, if_pos dir]
  · rw [if_neg dir, if_neg dir]
    cases dev.write w.clock with
    | written => rfl
    | refused => rfl
    | damaged _ _ => rfl

theorem fileMatches_store_iff {pkg : PackageEntry} {debPath : ByteString} {cache : SigCache}
    {w w' : InstallWorld} {u : Unit} (h : FileMatches dev.toOutside pkg w.disk debPath)
    (stored : exec (storePending (ε := InstallResult) dev (some cache)) w = (.ok u, w')) :
    FileMatches dev.toOutside pkg w'.disk debPath ↔ ¬ StoreSpoils dev pkg debPath cache w := by
  have disk := (storeSigCache_disk dev cache w).ok stored
  unfold StoreSpoils
  cases left : storedText dev cache w with
  | none =>
    rw [left] at disk
    simpa [disk] using h
  | some text =>
    rw [left] at disk
    by_cases same : dev.resolve debPath = dev.resolve sigCachePath
    · simp [FileMatches, contentAt, disk, same]
    · simpa [FileMatches, contentAt, disk, same] using h

/-- `installSinglePackage` is called on bytes that match the metadata. -/
def Accepted : Event → Prop
  | .installCalled pkg debPath disk _ => FileMatches dev.toOutside pkg disk debPath
  | .unpacked _ => True

/-- **Checked bytes.** An install calls `installSinglePackage` on matching bytes only, if
and only if no turn stores the signature cache over its own `.deb`. -/
theorem accepted_iff (repoIndices : RepoIndexList) (rootPackage : ByteString)
    (opts : InstallOptions) (w : InstallWorld) :
    (∀ e ∈ emitted log (installWithDeps dev repoIndices rootPackage opts) w, Accepted dev e) ↔
      ∀ plan x t, TurnStarts dev repoIndices rootPackage opts w plan x t →
        ∀ debPath w₁, exec (checksumGate dev opts.reinstall
            (termuxModeOf repoIndices rootPackage opts) plan x) t = (.ok debPath, w₁) →
          ∀ cache w₂, exec (checkSignature dev repoIndices plan.pkg debPath x.2) w₁ =
              (.ok (some cache), w₂) →
            ¬ StoreSpoils dev plan.pkg debPath cache w₂ := by
  rw [forall_emitted_installWithDeps]
  refine forall₃_congr fun plan x t => forall_congr' fun start => ?_
  rw [forall_emitted_installPlanned]
  refine forall₂_congr fun debPath w₁ => forall_congr' fun passed => ?_
  rw [forall_emitted_installChecked dev start.name _ _ _ fun _ => trivial]
  have matched := (checksumGate_spec dev _ _ plan x t).ok passed
  have gate := checkSignature_spec dev repoIndices plan.pkg debPath x.2 w₁
  constructor
  · intro all cache w₂ verified
    exact (fileMatches_store_iff dev (matched.survives dev (gate.ok verified).1) rfl).mp
      (all (some cache) w₂ verified () _ rfl)
  · intro unspoilt pending w₂ verified u w₃ stored
    have matched := matched.survives dev (gate.ok verified).1
    cases pending with
    | none =>
      cases stored
      exact matched
    | some cache =>
      exact (fileMatches_store_iff dev matched stored).mpr (unspoilt cache w₂ verified)

/-- The cache directory with one empty file in it. -/
def cachedDeb (name : ByteString) : InstallWorld where
  disk := fun loc =>
    if loc = getPkgsDir then some .dir
    else if loc = joinPath getPkgsDir name then some (.file [])
    else none
  clock := 0
  own := {}

/-- The package `tool` of the test archive. -/
def tool (filename : String) : PackageEntry :=
  { plainPackage "tool" [] with filename := str filename }

instance {out : Outside} {pkg : PackageEntry} {content : ByteString} :
    Decidable (ChecksumMatches out pkg content) :=
  decidable_of_iff ((pkg.sha256 ≠ [] ∧
      normalizeHex pkg.sha256 = normalizeHex (out.sha256 content)) ∨
    (md5sumOf pkg).any fun m => normalizeHex m == normalizeHex (out.md5 content))
    (by simp [ChecksumMatches, Option.any_eq_true])

instance {out : Outside} {pkg : PackageEntry} {disk : ByteString → Option Node}
    {path : ByteString} : Decidable (FileMatches out pkg disk path) :=
  decidable_of_iff ((contentAt disk (out.resolve path)).any fun content =>
    ChecksumMatches out pkg content) (by simp [FileMatches, Option.any_eq_true])

instance : DecidablePred (Accepted dev)
  | .installCalled _ _ _ _ => inferInstanceAs (Decidable (FileMatches _ _ _ _))
  | .unpacked _ => .isTrue trivial

/-- A package file named as the signature cache: its signature is good, so the cache is
stored over it before it is unpacked. -/
theorem sigCache_spoils_deb :
    ¬ ∀ e ∈ emitted log
      (installWithDeps (plainDevice true)
        [indexOf "main" .Required [tool "pool/sig-cache.json"]] (str "tool") {})
      (cachedDeb (str "sig-cache.json")), Accepted (plainDevice true) e := by
  decide +kernel

/-! ### Signatures -/

/-- The package comes from an index whose source requires signatures. -/
def FromRequired (repoIndices : RepoIndexList) (pkg : PackageEntry) : Prop :=
  ∃ idx ∈ repoIndices, idx.source.debSignaturePolicy = .Required ∧
    pkg ∈ idx.packages.map (mergeEntry idx)

/-- The digest of the file is in the signature cache, or the file was verified. -/
def Signed (debPath : ByteString) (disk : ByteString → Option Node)
    (verified : List ByteString) : Prop :=
  (∃ content, contentAt disk (dev.resolve debPath) = some content ∧
    dev.sha256 content ∈ cacheOn dev disk) ∨ debPath ∈ verified

/-- `installSinglePackage` is called on a signed file, if the package needs one. -/
def Guarded (needs : PackageEntry → Prop) : Event → Prop
  | .installCalled pkg debPath disk verified => needs pkg → Signed dev debPath disk verified
  | .unpacked _ => True

/-- A `Required` policy that is found, and a `.deb` that can be hashed, suffice. -/
theorem installChecked_guarded {repoIndices : RepoIndexList} {termuxMode : Bool}
    {rootPackage : ByteString} {pkg : PackageEntry}
    (name : Security.validatePackageName pkg.packageName = none)
    (needs : PackageEntry → Prop) {debPath : ByteString} {x : InstalledDb × InstallResult}
    {w : InstallWorld} (present : FileMatches dev.toOutside pkg w.disk debPath)
    (gate : needs pkg → getDebSigPolicy repoIndices pkg = .Required ∧ dev.ok w.clock = true) :
    ∀ e ∈ emitted log
      (installChecked dev repoIndices termuxMode rootPackage pkg debPath x) w,
      Guarded dev needs e := by
  rw [forall_emitted_installChecked dev name _ _ _ fun _ => trivial]
  intro pending w₁ passed u w₂ stored needed
  obtain ⟨required, hashable⟩ := gate needed
  obtain ⟨content, found, -⟩ := present
  obtain ⟨-, fresh, hit⟩ := (checkSignature_spec dev repoIndices pkg debPath x.2 w).ok passed
  cases pending with
  | some cache =>
    rw [(storePending_keeps dev (some cache)).run stored]
    exact .inr (fresh rfl)
  | none =>
    cases stored
    have read : w.read dev.toOutside debPath = some content := by
      unfold contentAt at found
      split at found
      · rename_i node
        cases found
        simp [World.read, World.node, node, hashable]
      · cases found
    obtain ⟨disk, cached⟩ := hit rfl required content read
    refine .inl ⟨content, ?_, ?_⟩
    · rwa [disk]
    · rwa [disk]

/-- In a run where each package that needs it finds its policy and is hashed, all those
packages are signed. -/
theorem guarded_of_required (repoIndices : RepoIndexList) (rootPackage : ByteString)
    (opts : InstallOptions) (w : InstallWorld)
    (gates : ∀ plan x t, TurnStarts dev repoIndices rootPackage opts (freshRun w) plan x t →
      FromRequired repoIndices plan.pkg →
      ∀ debPath w₁, exec (checksumGate dev opts.reinstall
          (termuxModeOf repoIndices rootPackage opts) plan x) t = (.ok debPath, w₁) →
        getDebSigPolicy repoIndices plan.pkg = .Required ∧ dev.ok w₁.clock = true) :
    ∀ e ∈ emitted log (installWithDeps dev repoIndices rootPackage opts) (freshRun w),
      Guarded dev (FromRequired repoIndices) e := by
  rw [forall_emitted_installWithDeps]
  intro plan x t start
  rw [forall_emitted_installPlanned]
  intro debPath w₁ passed
  exact installChecked_guarded dev start.name _ ((checksumGate_spec dev _ _ plan x t).ok passed)
    fun needed => gates plan x t start needed debPath w₁ passed

/-- A device that finds no signatures, where hashing works or not, and the digests are
those of the package. -/
def bypassDevice (pkg : PackageEntry) (hashable : Bool) : Device where
  resolve := id
  ok _ := hashable
  write _ := .refused
  download _ := .refused
  message _ := []
  sha256 _ := pkg.sha256
  md5 _ := (md5sumOf pkg).getD []
  signature _ _ _ := none
  order _ db := db
  order_perm := entered_perm
  unpack _ := none
  removePayload _ := none
  touch _ disk := disk

/-- A disk with one file. -/
def oneFile (path : ByteString) : InstallWorld where
  disk := fun loc => if loc = path then some (.file []) else none
  clock := 0
  own := {}

theorem downloadFile_bypass (pkg : PackageEntry) (hashable : Bool) (url dest : ByteString)
    (w : InstallWorld) :
    wp (downloadFile (ε := InstallResult) (bypassDevice pkg hashable).toOutside url dest)
      (fun r w' => r.isOk = false ∧ w'.disk = w.disk ∧ w'.own = w.own) (fun _ _ => False) w := by
  refine wp_update.mpr ?_
  split
  · exact ⟨rfl, rfl, rfl⟩
  split
  · exact ⟨rfl, rfl, rfl⟩
  · exact ⟨rfl, rfl, rfl⟩

theorem ensureDebSignature_bypass (pkg : PackageEntry) (hashable : Bool) (w : InstallWorld)
    (disk : w.disk = (oneFile (str "x")).disk) :
    wp (ensureDebSignature (ε := InstallResult) (bypassDevice pkg hashable).toOutside pkg (str "x"))
      (fun r w' => r.isOk = false ∧ w'.disk = w.disk ∧ w'.own = w.own) (fun _ _ => False) w := by
  have missing (ext : ByteString) (other : str "x" ++ ext ≠ str "x") :
      (w.node (bypassDevice pkg hashable).toOutside (makeSigLocalPath (str "x") ext)).isSome =
        false := by
    rw [World.node, disk]
    simp [oneFile, makeSigLocalPath, bypassDevice, other]
  have asc := missing (str ".asc") (by decide)
  have gpg := missing (str ".gpg") (by decide)
  refine wp_bind.mpr (wp_update.mpr (wp_ite.mpr ⟨fun h => by simp [asc] at h, fun _ => ?_⟩))
  refine wp_bind.mpr (wp_update.mpr (wp_ite.mpr ⟨fun h => by simp [gpg] at h, fun _ => ?_⟩))
  refine wp_bind.mpr (wp_mono (downloadFile_bypass pkg hashable _ _ w) ?_ fun _ _ h => h)
  rintro ascResult w₁ ⟨failed₁, disk₁, own₁⟩
  refine wp_bind.mpr (wp_update.mpr (wp_ite.mpr ⟨fun h => by simp [failed₁] at h, fun _ => ?_⟩))
  refine wp_bind.mpr (wp_mono (downloadFile_bypass pkg hashable _ _ w₁) ?_ fun _ _ h => h)
  rintro gpgResult w₂ ⟨failed₂, disk₂, own₂⟩
  refine wp_bind.mpr (wp_update.mpr (wp_ite.mpr ⟨fun h => by simp [failed₂] at h, fun _ => ?_⟩))
  exact ⟨rfl, disk₂.trans disk₁, own₂.trans own₁⟩

/-- Otherwise the gate lets an unsigned file through. -/
theorem checkSignature_bypass {repoIndices : RepoIndexList} {pkg : PackageEntry}
    {hashable : Bool} (open_ : ¬ (getDebSigPolicy repoIndices pkg = .Required ∧ hashable = true))
    (result : InstallResult) :
    wp (checkSignature (bypassDevice pkg hashable) repoIndices pkg (str "x") result)
      (fun pending w' => pending = none ∧ w'.disk = (oneFile (str "x")).disk ∧ w'.own = {})
      (fun _ _ => False) (oneFile (str "x")) := by
  refine wp_ite.mpr ⟨fun _ => ⟨rfl, rfl, rfl⟩, fun enabled => ?_⟩
  refine wp_bind.mpr (wp_update.mpr ?_)
  cases hashable with
  | false => exact ⟨rfl, rfl, rfl⟩
  | true =>
    have optional : getDebSigPolicy repoIndices pkg ≠ .Required := fun h => open_ ⟨h, rfl⟩
    refine wp_bind.mpr (wp_update.mpr (wp_ite.mpr ⟨fun _ => ⟨rfl, rfl, rfl⟩, fun _ => ?_⟩))
    refine wp_bind.mpr (wp_mono (ensureDebSignature_bypass pkg true _ rfl) ?_ fun _ _ h => h)
    rintro (err | sigPath) w' ⟨failed, disk, own⟩
    · exact wp_ite.mpr ⟨fun required => absurd required optional, fun _ => ⟨rfl, disk, own⟩⟩
    · cases failed

/-- The `.deb` that the bypass lets through matches its package. -/
theorem bypass_matches {pkg : PackageEntry} (hashable : Bool)
    (summed : pkg.sha256 ≠ [] ∨ (md5sumOf pkg).isSome) :
    FileMatches (bypassDevice pkg hashable).toOutside pkg (oneFile (str "x")).disk (str "x") := by
  refine ⟨[], by simp [contentAt, oneFile, bypassDevice], ?_⟩
  rcases summed with sha | md5
  · exact .inl ⟨sha, rfl⟩
  · obtain ⟨m, hm⟩ := Option.isSome_iff_exists.mp md5
    exact .inr ⟨m, hm, by simp [bypassDevice, hm]⟩

theorem bypass_unsigned (pkg : PackageEntry) (hashable : Bool) :
    ¬ Signed (bypassDevice pkg hashable) (str "x") (oneFile (str "x")).disk [] := by
  rintro (⟨content, -, cached⟩ | verified)
  · have elsewhere : sigCachePath ≠ str "x" := by decide
    simp [cacheOn, contentAt, oneFile, bypassDevice, elsewhere, loadSigCache] at cached
  · cases verified

/-- **The gate is exact**: for a package with a checksum, whatever matches is signed when
it is handed over, if and only if its policy is found and the `.deb` can be hashed. -/
theorem gate_exact {repoIndices : RepoIndexList} {pkg : PackageEntry}
    (name : Security.validatePackageName pkg.packageName = none)
    (summed : pkg.sha256 ≠ [] ∨ (md5sumOf pkg).isSome) (hashable : Bool) :
    (∀ dev termuxMode rootPackage debPath x w,
        FileMatches dev.toOutside pkg w.disk debPath → w.own.verified = [] →
        dev.ok w.clock = hashable →
        ∀ e ∈ emitted log
          (installChecked dev repoIndices termuxMode rootPackage pkg debPath x) w,
          Guarded dev (· = pkg) e) ↔
      getDebSigPolicy repoIndices pkg = .Required ∧ hashable = true := by
  constructor
  · intro all
    by_contra open_
    have h := all (bypassDevice pkg hashable) false [] (str "x") (∅, {}) (oneFile (str "x"))
      (bypass_matches hashable summed) rfl rfl
    rw [forall_emitted_installChecked _ name _ _ _ fun _ => trivial] at h
    have gate := checkSignature_bypass open_ {}
    rcases run : exec (checkSignature (bypassDevice pkg hashable) repoIndices pkg (str "x") {})
      (oneFile (str "x")) with ⟨err | pending, w₁⟩
    · exact gate.error run
    · obtain ⟨rfl, disk, own⟩ := gate.ok run
      have signed := h none w₁ run () w₁ rfl rfl
      rw [disk, own] at signed
      exact bypass_unsigned pkg hashable signed
  · rintro ⟨required, rfl⟩ dev termuxMode rootPackage debPath x w present - hashable
    exact installChecked_guarded dev name _ present fun _ => ⟨required, hashable⟩

/-- **Required signatures.** In a run where each package of a `Required` source that
passes the checksum gate finds its policy and is hashed, all those packages are signed;
and at the gate that condition is exact. -/
theorem required_packages_signed (repoIndices : RepoIndexList) :
    (∀ dev rootPackage opts w,
      (∀ plan x t, TurnStarts dev repoIndices rootPackage opts (freshRun w) plan x t →
        FromRequired repoIndices plan.pkg →
        ∀ debPath w₁, exec (checksumGate dev opts.reinstall
            (termuxModeOf repoIndices rootPackage opts) plan x) t = (.ok debPath, w₁) →
          getDebSigPolicy repoIndices plan.pkg = .Required ∧ dev.ok w₁.clock = true) →
      ∀ e ∈ emitted log (installWithDeps dev repoIndices rootPackage opts) (freshRun w),
        Guarded dev (FromRequired repoIndices) e) ∧
    ∀ pkg, FromRequired repoIndices pkg →
      Security.validatePackageName pkg.packageName = none →
      (pkg.sha256 ≠ [] ∨ (md5sumOf pkg).isSome) → ∀ hashable,
      ((∀ dev termuxMode rootPackage debPath x w,
          FileMatches dev.toOutside pkg w.disk debPath → w.own.verified = [] →
          dev.ok w.clock = hashable →
          ∀ e ∈ emitted log
            (installChecked dev repoIndices termuxMode rootPackage pkg debPath x) w,
            Guarded dev (· = pkg) e) ↔
        getDebSigPolicy repoIndices pkg = .Required ∧ hashable = true) :=
  ⟨fun dev rootPackage opts w => guarded_of_required dev repoIndices rootPackage opts w,
    fun _ _ name summed => gate_exact name summed⟩

instance {debPath : ByteString} {disk : ByteString → Option Node} {verified : List ByteString} :
    Decidable (Signed dev debPath disk verified) :=
  decidable_of_iff ((contentAt disk (dev.resolve debPath)).any (fun content =>
      dev.sha256 content ∈ cacheOn dev disk) ∨ debPath ∈ verified)
    (by simp [Signed, Option.any_eq_true])

instance {needs : PackageEntry → Prop} [DecidablePred needs] :
    DecidablePred (Guarded dev needs)
  | .installCalled pkg debPath disk verified =>
      inferInstanceAs (Decidable (needs pkg → Signed dev debPath disk verified))
  | .unpacked _ => .isTrue trivial

instance {repoIndices : RepoIndexList} : DecidablePred (FromRequired repoIndices) :=
  fun pkg => inferInstanceAs (Decidable (∃ idx ∈ repoIndices,
    idx.source.debSignaturePolicy = .Required ∧ pkg ∈ idx.packages.map (mergeEntry idx)))

/-- The components of one archive: the first source is `Disabled`, and that is what is
found for a package of the second, which is `Required`. -/
theorem overlap_unsigned :
    ¬ ∀ e ∈ emitted log
      (installWithDeps (plainDevice false)
        [indexOf "main" .Disabled [], indexOf "contrib" .Required [tool "t.deb"]]
        (str "tool") {})
      (freshRun (cachedDeb (str "tool_1_arm64.deb"))),
      Guarded (plainDevice false) (FromRequired
        [indexOf "main" .Disabled [], indexOf "contrib" .Required [tool "t.deb"]])
        e := by
  decide +kernel

end Apm.Install
