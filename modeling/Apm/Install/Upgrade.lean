import Apm.Install.Records
import Apm.Lib.Assoc
import Apm.Lib.Loop

/-!
`upgradePackages` of `src/apmd/install_manager.cpp`.

An upgrade calls `installWithDeps` for each package that has a newer candidate. The
resolver leaves out what is recorded in the flavour of the call, so what a call installs
for a name depends on the flavour the name is recorded in at that point.

## Main results

* `upgrade_took_effect_iff`: a reported upgrade took effect exactly when the last call of
  the run that installs the name installs the candidate's version.
-/

namespace Apm.Install

open Apm.Repo Apm.Fs Apm.Config Apm.Lib Apm.Lib.Effect Apm.Lib.Assoc Apm.Status

/-! ### Versions -/

/-- `std::string::compare`. -/
def compareBytes (a b : ByteString) : Ordering := compareOfLessAndEq a b

def stripZeros (s : ByteString) : ByteString :=
  let out := s.dropWhile (· == chr '0')
  if out.isEmpty then str "0" else out

/-- The order of two chunks: digits by value, other runs as strings, digits above others. -/
def compareChunks (aIsDigit bIsDigit : Bool) (aChunk bChunk : ByteString) : Ordering :=
  if aIsDigit && bIsDigit then
    let an := stripZeros aChunk
    let bn := stripZeros bChunk
    if an.length < bn.length then .lt
    else if an.length > bn.length then .gt
    else compareBytes an bn
  else if aIsDigit != bIsDigit then (if aIsDigit then .gt else .lt)
  else compareBytes aChunk bChunk

/-- One turn of `compareVersionSimple`. -/
def compareStep : ByteString × ByteString → (ByteString × ByteString) ⊕ Ordering
  | ([], []) => .inr .eq
  | ([], _ :: _) => .inr .lt
  | (_ :: _, []) => .inr .gt
  | (ca :: a, cb :: b) =>
      let aIsDigit := isdigit ca
      let bIsDigit := isdigit cb
      let order := compareChunks aIsDigit bIsDigit
        ((ca :: a).takeWhile (isdigit · == aIsDigit)) ((cb :: b).takeWhile (isdigit · == bIsDigit))
      if order = .eq then
        .inl ((ca :: a).dropWhile (isdigit · == aIsDigit),
          (cb :: b).dropWhile (isdigit · == bIsDigit))
      else .inr order

theorem compareStep_descends : Loop.Descends (fun x => x.1.length) compareStep := by
  rintro ⟨a, b⟩ s' h
  cases a with
  | nil => cases b <;> cases h
  | cons ca a =>
    cases b with
    | nil => cases h
    | cons cb b =>
      unfold compareStep at h
      dsimp only at h
      split at h
      · cases h
        rw [List.dropWhile_cons_of_pos (by simp)]
        exact Nat.lt_succ_of_le (List.dropWhile_sublist _).length_le
      · cases h

def compareVersionSimple (a b : ByteString) : Ordering := Loop.run compareStep_descends (a, b)

/-! ### Candidates -/

abbrev Candidates := AList fun _ : ByteString => PackageEntry

/-- Add the entries that are kept, unless their names are there. -/
def addCandidates (keep : PackageEntry → Bool) (packages : PackageList) (m : Candidates) :
    Candidates :=
  packages.foldl (fun m pkg =>
    if keep pkg && !pkg.packageName.isEmpty then emplace m pkg.packageName pkg else m) m

def termuxCandidates (repoIndices : RepoIndexList) : Candidates :=
  repoIndices.foldl (fun m idx =>
    if isTermuxIndex idx then addCandidates (·.isTermuxPackage) idx.packages m else m) ∅

/-- The entries of one index: those of the architecture, then those for `all`. -/
def addDebCandidates (arch : ByteString) (m : Candidates) (idx : RepoIndex) : Candidates :=
  if isTermuxIndex idx then m
  else if arch.isEmpty then addCandidates (fun _ => true) idx.packages m
  else
    let idxArchCandidates := addCandidates (·.architecture == arch) idx.packages ∅
    let idxAllCandidates := addCandidates
      (fun pkg => pkg.architecture != arch && pkg.architecture == str "all") idx.packages ∅
    let m := idxArchCandidates.entries.foldl (fun m kv => emplace m kv.1 kv.2) m
    idxAllCandidates.entries.foldl (fun m kv => emplace m kv.1 kv.2) m

def debCandidates (repoIndices : RepoIndexList) : Candidates :=
  repoIndices.foldl (addDebCandidates (determineRepoArch repoIndices)) ∅

def findCandidate (repoIndices : RepoIndexList) (name : ByteString) (termux : Bool) :
    Option PackageEntry :=
  (if termux then termuxCandidates repoIndices else debCandidates repoIndices).lookup name

/-! ### The upgrade -/

structure UpgradeOptions where
  simulate : Bool := false
  distUpgrade : Bool := false

structure UpgradeResult where
  ok : Bool := false
  message : ByteString := []
  upgradedPackages : List ByteString := []
  skippedPackages : List ByteString := []
deriving DecidableEq

variable (dev : Device)

/-- The candidate is not newer than the installed version. -/
def upToDate (installed : InstalledPackage) (candidate : PackageEntry) : Bool :=
  !installed.version.isEmpty &&
    compareVersionSimple candidate.version installed.version != .gt

def upgradeInstallOptions (installed : InstalledPackage) : InstallOptions where
  reinstall := true
  isTermuxPackage := installed.termuxPackage

/-- One turn of the upgrade loop. -/
def upgradePackage (repoIndices : RepoIndexList) (opts : UpgradeOptions) (db : InstalledDb)
    (name : ByteString) (result : UpgradeResult) :
    Act InstallWorld UpgradeResult UpgradeResult := do
  let skip (why : String) : UpgradeResult :=
    { result with skippedPackages := result.skippedPackages ++ [name ++ str why] }
  match db.lookup name with
  | none => pure (skip " (not installed anymore)")
  | some installedPkg =>
      match findCandidate repoIndices name installedPkg.termuxPackage with
      | none => pure (skip " (no candidate in repos)")
      | some candidate =>
          if upToDate installedPkg candidate then pure (skip " (up-to-date)")
          else
            let upgraded :=
              { result with upgradedPackages := result.upgradedPackages ++ [name] }
            if opts.simulate then pure upgraded
            else
              match ← attempt
                (installWithDeps dev repoIndices name (upgradeInstallOptions installedPkg)) with
              | .error ires =>
                  throw { result with
                    ok := false
                    message := str "Failed to upgrade " ++ name ++ str ": " ++ ires.message }
              | .ok _ => pure upgraded

/-- The packages to look at, and the targets that are not installed. -/
def upgradeTargets (db : InstalledDb) (targets : List ByteString) :
    List ByteString × List ByteString :=
  if targets.isEmpty then (db.entries.map (·.1), [])
  else
    (targets.filter (db.lookup · |>.isSome),
      (targets.filter (db.lookup · |>.isNone)).map (· ++ str " (not installed)"))

def upgradedMessage (upgraded : List ByteString) : ByteString :=
  if upgraded.isEmpty then str "No packages were upgraded"
  else str "Upgraded " ++ str (toString upgraded.length) ++ str " package(s)"

def upgradePackages (repoIndices : RepoIndexList) (targets : List ByteString)
    (opts : UpgradeOptions) : Act InstallWorld UpgradeResult UpgradeResult := do
  if repoIndices.isEmpty then
    throw { message := str "No repository indices loaded (run 'apm update')" }
  else
    match ← loadStatus dev with
    | .error dbErr => throw { message := str "Failed to load status DB: " ++ dbErr }
    | .ok db =>
        let (toCheck, notInstalled) := upgradeTargets db targets
        if toCheck.isEmpty then
          pure { ok := true, skippedPackages := notInstalled,
                 message := if targets.isEmpty then str "No installed packages to upgrade"
                   else str "No matching installed packages to upgrade" }
        else
          let result ← forEach (upgradePackage dev repoIndices opts db) toCheck
            { skippedPackages := notInstalled }
          pure { result with ok := true, message := upgradedMessage result.upgradedPackages }

/-! ### What a call installs for a name -/

/-- The entry of a name in a call's plan over the empty status map, if it is reached. -/
def reachedEntry (repoIndices : RepoIndexList) (rootPackage : ByteString) (termuxMode : Bool)
    (name : ByteString) : Option PackageEntry :=
  (resolve repoIndices rootPackage termuxMode []).out.installOrder.find? (·.packageName == name)

/-- The entry a call installs for a name: the one it reaches, unless the name is recorded
in the flavour of the call. -/
theorem planOf_find? {repoIndices : RepoIndexList} {rootPackage : ByteString}
    {termuxMode : Bool} (ok : (resolve repoIndices rootPackage termuxMode []).ok = true)
    (db : InstalledDb) (name : ByteString) :
    (planOf repoIndices rootPackage termuxMode db).find? (·.packageName == name) =
      if recordedAs db name termuxMode then none
      else reachedEntry repoIndices rootPackage termuxMode name := by
  have plan := planOf_spec db ok
  have whole := (resolve_spec repoIndices rootPackage termuxMode []).2 ok
  split
  · rename_i recorded
    refine List.find?_eq_none.mpr fun pkg planned => ?_
    rw [beq_iff_eq]
    rintro rfl
    rw [planOf_fresh ok planned] at recorded
    cases recorded
  · rename_i fresh
    have fresh : name ∉ installedNames db termuxMode := mt mem_installedNames.mp fresh
    -- Both plans have the entry the resolver selects, if the name is reached.
    refine Option.ext fun pkg => ?_
    unfold reachedEntry
    rw [find?_entry plan.nodup, find?_entry whole.nodup, plan.exact, whole.exact]
    refine and_congr_left fun named => exists_congr fun other => and_congr_right fun _ => ?_
    refine ⟨fun h => ⟨List.not_mem_nil, h.2⟩, fun h => ⟨?_, h.2⟩⟩
    rwa [← selectEntry_name h.2, named]

/-! ### Following a name through the calls -/

/-- What a call does to a name: the flavour it is recorded in, and the entry last
installed for it. -/
def installStep (repoIndices : RepoIndexList) (name : ByteString)
    (x : Bool × Option PackageEntry) (call : ByteString × Bool) : Bool × Option PackageEntry :=
  if x.1 = call.2 then x
  else
    match reachedEntry repoIndices call.1 call.2 name with
    | some entry => (call.2, some entry)
    | none => x

/-- The name is recorded in the flavour, and the entry was the last one unpacked for it. -/
structure Follows (name : ByteString) (x : Bool × Option PackageEntry) (own : Own) :
    Prop where
  record : ∃ pkg, (parseStatus own.status).lookup name = some pkg ∧ pkg.termuxPackage = x.1 ∧
    ∀ entry, x.2 = some entry → pkg.version = entry.version
  unpacked : ∀ entry, x.2 = some entry →
    entry ∈ own.unpackedPkgs ∧ entry.packageName = name
  untouched : x.2 = none → ∀ pkg ∈ own.unpackedPkgs, pkg.packageName ≠ name

/-- **One call** moves every recorded name on by one step. -/
theorem Follows.step {repoIndices : RepoIndexList} {rootPackage : ByteString}
    {termuxMode : Bool} {db : InstalledDb} {own own' : Own} {name : ByteString}
    {x : Bool × Option PackageEntry} (h : Follows name x own)
    (installs : Installs repoIndices rootPackage termuxMode own db
      (planOf repoIndices rootPackage termuxMode db) own')
    (ok : (resolve repoIndices rootPackage termuxMode []).ok = true)
    (unpacked : own'.unpackedPkgs = own.unpackedPkgs ++
      planOf repoIndices rootPackage termuxMode db) (faithful : own'.Faithful) :
    Follows name (installStep repoIndices name x (rootPackage, termuxMode)) own' := by
  obtain ⟨rec, found, flavour, version⟩ := h.record
  have plan := planOf_spec db ok
  have recorded : recordedAs db name termuxMode = true ↔ x.1 = termuxMode := by
    rw [recordedAs, ← installs.loaded.lookup, found]
    simp [flavour]
  have entry := planOf_find? ok db name
  have after : (parseStatus own'.status).lookup name =
      (((planOf repoIndices rootPackage termuxMode db).find? (·.packageName == name)).map
        (installedRecord db termuxMode rootPackage)).or (some rec) := by
    rw [(installs.progress.tracks faithful).lookup, recordAll_lookup plan.nodup,
      ← installs.loaded.lookup, found]
  -- Where the plan has no entry of the name, nothing changes for it.
  have stays (absent : (planOf repoIndices rootPackage termuxMode db).find?
      (·.packageName == name) = none) : Follows name x own' := by
    rw [absent] at after
    refine ⟨⟨rec, after, flavour, version⟩, fun e he => ?_, fun none pkg hpkg => ?_⟩
    · rw [unpacked]
      exact ⟨List.mem_append_left _ (h.unpacked e he).1, (h.unpacked e he).2⟩
    · rw [unpacked] at hpkg
      rcases List.mem_append.mp hpkg with old | new
      · exact h.untouched none pkg old
      · simpa using List.find?_eq_none.mp absent pkg new
  unfold installStep
  split
  · rename_i same
    rw [if_pos (recorded.mpr same)] at entry
    exact stays entry
  · rename_i other
    rw [if_neg (mt recorded.mp other)] at entry
    dsimp only
    split
    · rename_i e reached
      rw [reached] at entry
      rw [entry] at after
      obtain ⟨planned, named⟩ := (find?_entry plan.nodup).mp entry
      refine ⟨⟨_, after, rfl, fun _ h => by cases h; rfl⟩, fun _ h => ?_, fun h => by cases h⟩
      cases h
      rw [unpacked]
      exact ⟨List.mem_append_right _ planned, named⟩
    · rename_i missed
      exact stays (entry.trans missed)

/-- What the run says about a name: the candidate judged newer, and the call for it. -/
def dueFor (repoIndices : RepoIndexList) (db : InstalledDb) (name : ByteString) :
    Option (PackageEntry × Bool) :=
  match db.lookup name with
  | none => none
  | some installedPkg =>
      match findCandidate repoIndices name installedPkg.termuxPackage with
      | none => none
      | some candidate =>
          if upToDate installedPkg candidate then none
          else some (candidate,
            termuxModeOf repoIndices name (upgradeInstallOptions installedPkg))

/-- The calls for the reported names. -/
def upgradeCalls (repoIndices : RepoIndexList) (db : InstalledDb) (upgraded : List ByteString) :
    List (ByteString × Bool) :=
  upgraded.filterMap fun name => (dueFor repoIndices db name).map fun due => (name, due.2)

/-- The entry last installed for a recorded name by the calls. -/
def lastInstalled (repoIndices : RepoIndexList) (db : InstalledDb) (upgraded : List ByteString)
    (name : ByteString) : Option PackageEntry :=
  (db.lookup name).bind fun rec =>
    ((upgradeCalls repoIndices db upgraded).foldl (installStep repoIndices name)
      (rec.termuxPackage, none)).2

/-- A name that is due is recorded. -/
theorem dueFor_recorded {repoIndices : RepoIndexList} {db : InstalledDb} {name : ByteString}
    {due : PackageEntry × Bool} (h : dueFor repoIndices db name = some due) :
    ∃ rec, db.lookup name = some rec := by
  unfold dueFor at h
  split at h
  · cases h
  · exact ⟨_, by assumption⟩

theorem dueFor_congr {repoIndices : RepoIndexList} {db db' : InstalledDb}
    (h : ∀ name, db.lookup name = db'.lookup name) :
    dueFor repoIndices db = dueFor repoIndices db' := by
  funext name
  simp only [dueFor, h]

theorem lastInstalled_congr {repoIndices : RepoIndexList} {db db' : InstalledDb}
    (h : ∀ name, db.lookup name = db'.lookup name) :
    lastInstalled repoIndices db = lastInstalled repoIndices db' := by
  funext upgraded name
  simp only [lastInstalled, upgradeCalls, h, dueFor_congr h]

/-- One turn reports a name and calls for it, if it is due, or does nothing. -/
theorem upgradePackage_spec (repoIndices : RepoIndexList) {opts : UpgradeOptions}
    (real : opts.simulate = false) (db : InstalledDb) (name : ByteString)
    (result : UpgradeResult) (w : InstallWorld) :
    wp (upgradePackage dev repoIndices opts db name result)
      (fun result' w' =>
        (result'.upgradedPackages = result.upgradedPackages ∧ w'.own = w.own) ∨
        ∃ candidate termuxMode installed,
          dueFor repoIndices db name = some (candidate, termuxMode) ∧
          result'.upgradedPackages = result.upgradedPackages ++ [name] ∧
          Installs repoIndices name termuxMode w.own installed
            (planOf repoIndices name termuxMode installed) w'.own ∧
          (resolve repoIndices name termuxMode []).ok = true ∧
          w'.own.unpackedPkgs = w.own.unpackedPkgs ++ planOf repoIndices name termuxMode installed)
      (fun _ _ => True) w := by
  unfold upgradePackage dueFor
  dsimp only
  split
  · exact .inl ⟨rfl, rfl⟩
  rename_i installedPkg _
  split
  · exact .inl ⟨rfl, rfl⟩
  rename_i candidate _
  refine wp_ite.mpr ⟨fun _ => .inl ⟨rfl, rfl⟩, fun newer => ?_⟩
  rw [if_neg (by simp [real]), if_neg newer]
  refine wp_bind.mpr (wp_attempt.mpr (wp_mono
    (installWithDeps_spec dev repoIndices name rfl w) (fun _ w' h => ?_) fun _ _ _ => trivial))
  obtain ⟨installed, installs, ok, unpacked⟩ := h
  exact .inr ⟨candidate, _, installed, rfl, rfl, installs, ok, unpacked⟩

/-- The names reported so far were due, and every recorded name went through their calls. -/
structure Upgraded (repoIndices : RepoIndexList) (db : InstalledDb) (own : Own)
    (result : UpgradeResult) (own' : Own) : Prop where
  grows : own.writes <+: own'.writes
  due : ∀ name ∈ result.upgradedPackages, ∃ due, dueFor repoIndices db name = some due
  follows : own'.Faithful → ∀ name rec, db.lookup name = some rec →
    Follows name ((upgradeCalls repoIndices db result.upgradedPackages).foldl
      (installStep repoIndices name) (rec.termuxPackage, none)) own'

/-- **The upgrade loop.** -/
theorem upgradeLoop_spec (repoIndices : RepoIndexList) {opts : UpgradeOptions}
    (real : opts.simulate = false) (db : InstalledDb) (toCheck : List ByteString)
    {result : UpgradeResult} {own : Own} {w : InstallWorld}
    (start : Upgraded repoIndices db own result w.own) :
    wp (forEach (upgradePackage dev repoIndices opts db) toCheck result)
      (fun result' w' => Upgraded repoIndices db own result' w'.own) (fun _ _ => True) w := by
  refine wp_forEach (fun result (w : InstallWorld) => Upgraded repoIndices db own result w.own)
    (fun name _ result s h => ?_) start
  refine wp_mono (upgradePackage_spec dev repoIndices real db name result s)
    (fun result' s' turn => ?_) fun _ _ _ => trivial
  rcases turn with ⟨reported, same⟩ | ⟨candidate, mode, installed, due, reported, installs, ok, new⟩
  · exact ⟨same ▸ h.grows, reported ▸ h.due, by rw [same, reported]; exact h.follows⟩
  · refine ⟨h.grows.trans installs.progress.grows, fun n hn => ?_, fun faithful n rec found => ?_⟩
    · rw [reported] at hn
      rcases List.mem_append.mp hn with old | last
      · exact h.due n old
      · exact ⟨_, List.mem_singleton.mp last ▸ due⟩
    · have before := h.follows (faithful.of_prefix installs.progress.grows) n rec found
      have calls : upgradeCalls repoIndices db result'.upgradedPackages =
          upgradeCalls repoIndices db result.upgradedPackages ++ [(name, mode)] := by
        simp [upgradeCalls, reported, due]
      rw [calls, List.foldl_append]
      exact before.step installs ok new faithful

/-- Nothing is reported at the start of a run. -/
theorem Upgraded.start (repoIndices : RepoIndexList) {db : InstalledDb} {own : Own}
    (loaded : TextOf own.status db) (fresh : own.unpackedPkgs = []) (skipped : List ByteString) :
    Upgraded repoIndices db own { skippedPackages := skipped } own := by
  refine ⟨List.prefix_refl _, fun _ h => (nomatch h), fun _ name rec found => ?_⟩
  refine ⟨⟨rec, (loaded.lookup name).trans found, rfl, fun _ h => (nomatch h)⟩,
    fun _ h => (nomatch h), fun _ pkg hpkg => ?_⟩
  rw [fresh] at hpkg
  cases hpkg

theorem upgradePackages_spec (repoIndices : RepoIndexList) (targets : List ByteString)
    {opts : UpgradeOptions} (real : opts.simulate = false) (w : InstallWorld) :
    wp (upgradePackages dev repoIndices targets opts)
      (fun r w' => ∃ db, TextOf w.own.status db ∧
        Upgraded repoIndices db (freshRun w).own r w'.own)
      (fun _ _ => True) (freshRun w) := by
  refine wp_ite.mpr ⟨fun _ => trivial, fun _ => wp_bind.mpr ?_⟩
  refine wp_mono (loadStatus_spec dev (freshRun w)) (fun loadResult w₁ h => ?_)
    fun _ _ h => h.elim
  obtain ⟨own, loaded⟩ := h
  cases loadResult with
  | error _ => trivial
  | ok db =>
    have loaded := loaded db rfl
    have start := Upgraded.start repoIndices loaded rfl (upgradeTargets db targets).2
    rw [← own] at start ⊢
    refine wp_ite.mpr ⟨fun _ => ⟨db, loaded, start.grows, start.due, start.follows⟩,
      fun _ => wp_bind.mpr ?_⟩
    refine wp_mono (upgradeLoop_spec dev repoIndices real db (upgradeTargets db targets).1 start)
      (fun result w₂ h => ⟨db, loaded, h.grows, h.due, h.follows⟩) fun _ _ h => h

/-- The status file records the candidate's version, and that version was unpacked. -/
def TookEffect (name : ByteString) (candidate : PackageEntry) (own : Own) : Prop :=
  (∃ pkg, (parseStatus own.status).lookup name = some pkg ∧ pkg.version = candidate.version) ∧
    ∃ pkg ∈ own.unpackedPkgs, pkg.packageName = name ∧ pkg.version = candidate.version

/-- A followed name has the candidate's version exactly when the last entry installed for
it has. -/
theorem Follows.tookEffect_iff {name : ByteString} {x : Bool × Option PackageEntry} {own : Own}
    (h : Follows name x own) (candidate : PackageEntry) :
    TookEffect name candidate own ↔
      ∃ entry, x.2 = some entry ∧ entry.version = candidate.version := by
  obtain ⟨rec, found, -, version⟩ := h.record
  constructor
  · rintro ⟨⟨pkg, recorded, newest⟩, unpacked, hunpacked, named, -⟩
    cases last : x.2 with
    | none => exact absurd named (h.untouched last unpacked hunpacked)
    | some entry =>
      rw [found] at recorded
      cases recorded
      exact ⟨entry, rfl, (version entry last).symm.trans newest⟩
  · rintro ⟨entry, last, newest⟩
    obtain ⟨unpacked, named⟩ := h.unpacked entry last
    exact ⟨⟨rec, found, (version entry last).trans newest⟩, entry, unpacked, named, newest⟩

/-- **Reported upgrades.** In a successful run whose status writes all give back their
maps, every reported name had a newer candidate, and it took effect if and only if the
last entry that the run's calls install for the name has the candidate's version. -/
theorem upgrade_took_effect_iff (repoIndices : RepoIndexList) (targets : List ByteString)
    {opts : UpgradeOptions} (real : opts.simulate = false) {w w' : InstallWorld}
    {r : UpgradeResult}
    (run : exec (upgradePackages dev repoIndices targets opts) (freshRun w) = (.ok r, w'))
    (faithful : w'.own.Faithful) {name : ByteString} (reported : name ∈ r.upgradedPackages) :
    ∃ candidate termuxMode,
      dueFor repoIndices (parseStatus w.own.status) name = some (candidate, termuxMode) ∧
      (TookEffect name candidate w'.own ↔
        ∃ entry, lastInstalled repoIndices (parseStatus w.own.status) r.upgradedPackages name =
          some entry ∧ entry.version = candidate.version) := by
  obtain ⟨db, loaded, upgraded⟩ := (upgradePackages_spec dev repoIndices targets real w).ok run
  obtain ⟨⟨candidate, termuxMode⟩, due⟩ := upgraded.due name reported
  obtain ⟨rec, found⟩ := dueFor_recorded due
  rw [dueFor_congr loaded.lookup, lastInstalled_congr loaded.lookup, lastInstalled, found]
  exact ⟨candidate, termuxMode, due,
    (upgraded.follows faithful name rec found).tookEffect_iff candidate⟩

instance {name : ByteString} {candidate : PackageEntry} {own : Own} :
    Decidable (TookEffect name candidate own) :=
  decidable_of_iff (((parseStatus own.status).lookup name).any (fun pkg =>
      pkg.version == candidate.version) ∧
    ∃ pkg ∈ own.unpackedPkgs, pkg.packageName = name ∧ pkg.version = candidate.version)
    (by simp [TookEffect, Option.any_eq_true])

/-- A tool in version 2. -/
def newTool : PackageEntry := { plainPackage "tool" [] with version := str "2" }

/-- A Termux package in version 2. -/
def termuxPackage (name : String) (depends : List String) : PackageEntry :=
  { plainPackage name depends with version := str "2", isTermuxPackage := true }

def toolIndices : RepoIndexList :=
  [indexOf "main" .Disabled [newTool],
    { indexOf "termux" .Disabled [termuxPackage "app" ["tool"], termuxPackage "tool" []] with
      source := { uri := str "https://t", dist := str "stable", components := [],
                  isTermuxRepo := true } }]

/-- The tool is installed as a Debian package, the application as a Termux package, both
in version 1. -/
def toolInstalled : InstallWorld where
  disk _ := none
  clock := 0
  own := {
    status := stanzaText { name := str "app", version := str "1", termuxPackage := true } ++
      stanzaText { name := str "tool", version := str "1" } }

def toolUpgrade (targets : List ByteString) :
    Except UpgradeResult UpgradeResult × InstallWorld :=
  exec (upgradePackages (plainDevice true) toolIndices targets {}) (freshRun toolInstalled)

/-- What an upgrade of the targets reports. -/
def toolReport (targets : List ByteString) : UpgradeResult where
  ok := true
  message := upgradedMessage targets
  upgradedPackages := targets

/-- The call for the application replaces the tool by its Termux version, and the call for
the tool then installs the candidate. -/
theorem upgrade_took_effect_iff_tool :
    ∃ candidate termuxMode,
      dueFor toolIndices (parseStatus toolInstalled.own.status) (str "tool") =
        some (candidate, termuxMode) ∧
      (TookEffect (str "tool") candidate (toolUpgrade [str "app", str "tool"]).2.own ↔
        ∃ entry, lastInstalled toolIndices (parseStatus toolInstalled.own.status)
            [str "app", str "tool"] (str "tool") = some entry ∧
          entry.version = candidate.version) := by
  have reports : (toolUpgrade [str "app", str "tool"]).1 =
      .ok (toolReport [str "app", str "tool"]) := by decide +kernel
  have faithful : (toolUpgrade [str "app", str "tool"]).2.own.Faithful := by decide +kernel
  have reported : str "tool" ∈ (toolReport [str "app", str "tool"]).upgradedPackages := by
    decide +kernel
  rcases run : toolUpgrade [str "app", str "tool"] with ⟨r, w'⟩
  rw [run] at reports faithful
  rw [show r = .ok (toolReport [str "app", str "tool"]) from reports] at run
  exact upgrade_took_effect_iff (plainDevice true) toolIndices _ rfl run faithful reported

/-- The tool alone: its upgrade is reported, and nothing is installed. -/
theorem upgrade_without_effect :
    (toolUpgrade [str "tool"]).1 = .ok (toolReport [str "tool"]) ∧
      dueFor toolIndices (parseStatus toolInstalled.own.status) (str "tool") =
        some (newTool, false) ∧
      (toolUpgrade [str "tool"]).2.own.Faithful ∧
      ¬ TookEffect (str "tool") newTool (toolUpgrade [str "tool"]).2.own := by
  decide +kernel

example : TookEffect (str "tool") newTool (toolUpgrade [str "app", str "tool"]).2.own := by
  decide +kernel

end Apm.Install
