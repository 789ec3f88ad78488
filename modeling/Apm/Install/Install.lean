import Apm.Core.DependencyGraph
import Apm.Install.Deb

/-!
`installWithDeps` of `src/apmd/install_manager.cpp`.

`installSinglePackage` and the removal of payloads are the device's: they succeed or
fail, and whatever they do to the disk. The command index and the shell profile,
rebuilt at the end of an install, are left out.
-/

namespace Apm.Install

open Apm.Repo Apm.Fs Apm.Config Apm.Lib.Effect Apm.Status

/-- The outside of the installer: also the iteration order of the status map, and the
payload code. -/
structure Device extends Outside where
  order : Nat → InstalledDb → InstalledDb
  order_perm : ∀ n db, (order n db).entries.Perm db.entries
  /-- Why unpacking fails, if it does. -/
  unpack : Nat → Option ByteString
  /-- Why removing a payload fails, if it does. -/
  removePayload : Nat → Option ByteString
  /-- What unpacking or removing does to the disk. -/
  touch : Nat → (ByteString → Option Node) → ByteString → Option Node

/-- The order in which the packages were entered. -/
theorem entered_perm (_n : Nat) (db : InstalledDb) : db.entries.Perm db.entries := .refl _

/-- A digest without collisions. -/
def plainDigest (content : ByteString) : ByteString :=
  chr 'd' :: content.flatMap fun c => [hexDigit (c.toNat / 16), hexDigit (c.toNat % 16)]

/-- Everything works, and every signature is there and good, or none is. -/
def plainDevice (signatures : Bool) : Device where
  resolve := id
  ok _ := true
  write _ := .written
  download _ := if signatures then .received [] else .refused
  message _ := []
  sha256 := plainDigest
  md5 := plainDigest
  signature _ _ _ := if signatures then some (str "F00D") else none
  order _ db := db
  order_perm := entered_perm
  unpack _ := none
  removePayload _ := none
  touch _ disk := disk

structure InstallOptions where
  simulate : Bool := false
  reinstall : Bool := false
  isTermuxPackage : Bool := false

structure InstallResult where
  ok : Bool := false
  message : ByteString := []
  installedPackages : List ByteString := []
  skippedPackages : List ByteString := []
deriving DecidableEq

variable {ε : Type} (dev : Device)

/-- Report an error with what was done so far. -/
def fail {α : Type} (result : InstallResult) (message : ByteString) :
    Act InstallWorld InstallResult α :=
  throw { result with ok := false, message }

def loadStatus : Act InstallWorld ε (Except ByteString InstalledDb) :=
  update fun w =>
    (if dev.ok w.clock then .ok (dev.order w.clock (parseStatus w.own.status))
      else .error (dev.message w.clock), w.tick)

/-- The status file after a write of the map. -/
def Own.written (own : Own) (db : InstalledDb) (text : ByteString) : Own :=
  { own with status := text, writes := own.writes ++ [(db, text)] }

/-- `writeStatus`: why it fails, if it does. The text goes to another file, which
replaces the status file if the write reports success. -/
def writeStatus (db : InstalledDb) : Act InstallWorld ε (Option ByteString) :=
  update fun w =>
    match dev.write w.clock with
    | .written =>
        (none, { w.tick with
          own := w.own.written db (statusText (dev.order w.clock db)) })
    | .damaged true left => (none, { w.tick with own := w.own.written db left })
    | .damaged false _ => (some (dev.message w.clock), w.tick)
    | .refused => (some (dev.message w.clock), w.tick)

/-- `installSinglePackage`: why it fails, if it does. -/
def installSinglePackage (pkg : PackageEntry) (debPath : ByteString) :
    Act InstallWorld ε (Option ByteString) := do
  update fun w => ((), { w with
    own := { w.own with
      log := w.own.log ++ [.installCalled pkg debPath w.disk w.own.verified] } })
  match Security.validatePackageName pkg.packageName with
  | some nameErr => pure (some nameErr)
  | none =>
      update fun w =>
        (dev.unpack w.clock, { w.tick with
          disk := dev.touch w.clock w.disk
          own := { w.own with
            log := w.own.log ++ (if (dev.unpack w.clock).isNone then [.unpacked pkg] else []) } })

/-- `removePackagePayload`: why it fails, if it does. -/
def removePackagePayload : Act InstallWorld ε (Option ByteString) :=
  update fun w =>
    (dev.removePayload w.clock, { w.tick with disk := dev.touch w.clock w.disk })

/-! ### What is to be installed -/

/-- The architecture all indices agree on, else the default. -/
def determineRepoArch (repoIndices : RepoIndexList) : ByteString :=
  match (repoIndices.map (·.arch)).filter (!·.isEmpty) with
  | [] => getDefaultArch
  | detected :: rest => if rest.all (· == detected) then detected else getDefaultArch

def isTermuxIndex (idx : RepoIndex) : Bool :=
  idx.source.isTermuxRepo || idx.source.format == .Termux

/-- The copy of an entry in the merged list. -/
def mergeEntry (idx : RepoIndex) (pkg : PackageEntry) : PackageEntry :=
  if isTermuxIndex idx then { pkg with isTermuxPackage := true } else pkg

def mergeIndices (repoIndices : RepoIndexList) : PackageList :=
  repoIndices.flatMap fun idx => idx.packages.map (mergeEntry idx)

/-- Is there an entry of the name in the flavour? -/
def hasRoot (repoPkgs : PackageList) (rootPackage : ByteString) (termux : Bool) : Bool :=
  repoPkgs.any fun p => p.packageName == rootPackage && p.isTermuxPackage == termux

/-- The flavour of a call: the one asked for, or Termux if only Termux has the root. -/
def termuxModeOf (repoIndices : RepoIndexList) (rootPackage : ByteString)
    (opts : InstallOptions) : Bool :=
  opts.isTermuxPackage ||
    (hasRoot (mergeIndices repoIndices) rootPackage true &&
      !hasRoot (mergeIndices repoIndices) rootPackage false)

/-- The resolver's packages: the merged entries of the flavour. -/
def resolverPackages (repoIndices : RepoIndexList) (termuxMode : Bool) : PackageList :=
  (mergeIndices repoIndices).filter (·.isTermuxPackage == termuxMode)

def installedNames (db : InstalledDb) (termuxMode : Bool) : List ByteString :=
  (db.entries.filter fun kv => kv.2.termuxPackage == termuxMode).map (·.1)

def resolve (repoIndices : RepoIndexList) (rootPackage : ByteString) (termuxMode : Bool)
    (alreadyInstalled : List ByteString) : Dep.Resolution :=
  if termuxMode then
    Dep.resolveTermuxDependencies (resolverPackages repoIndices termuxMode) rootPackage
      alreadyInstalled
  else
    Dep.resolveDependencies (resolverPackages repoIndices termuxMode) rootPackage
      (determineRepoArch repoIndices) alreadyInstalled

/-- Is the package recorded in the flavour? -/
def recordedAs (db : InstalledDb) (name : ByteString) (termux : Bool) : Bool :=
  (db.lookup name).any (·.termuxPackage == termux)

/-! ### Planning and downloading -/

structure PlannedInstall where
  pkg : PackageEntry
  debPath : ByteString

structure Planning where
  plans : List PlannedInstall := []
  downloadQueue : List DownloadRequest := []
  downloadPkgNames : List ByteString := []
  result : InstallResult := {}

/-- One turn of the loop that finds the `.deb` files. -/
def planPackage (db : InstalledDb) (reinstall termuxMode : Bool) (pkg : PackageEntry)
    (p : Planning) : Act InstallWorld InstallResult Planning := do
  if !reinstall && recordedAs db pkg.packageName termuxMode then
    pure { p with result :=
      { p.result with skippedPackages := p.result.skippedPackages ++ [pkg.packageName] } }
  else
    match ← ensureDebForPackage dev.toOutside pkg true with
    | .error err =>
        fail p.result (str "Failed to ensure .deb for " ++ pkg.packageName ++ str ": " ++ err)
    | .ok (debPath, request) =>
        pure { p with
          plans := p.plans ++ [{ pkg, debPath }]
          downloadQueue := p.downloadQueue ++ request.toList
          downloadPkgNames :=
            p.downloadPkgNames ++ (if request.isSome then [pkg.packageName] else []) }

/-- The first failed download with its package's name. -/
def firstFailure : List ByteString → List (Except ByteString Unit) → Option ByteString
  | _ :: names, .ok () :: results => firstFailure names results
  | name :: _, .error err :: _ =>
      some (str "Download failed for " ++ name ++ (if err.isEmpty then [] else str ": " ++ err))
  | _, _ => none

/-- The download phase: nothing to do, or all requests succeed. -/
def downloadQueued (p : Planning) : Act InstallWorld InstallResult Unit := do
  if p.downloadQueue.isEmpty then pure ()
  else
    match firstFailure p.downloadPkgNames (← downloadFiles dev.toOutside p.downloadQueue) with
    | some message => fail p.result message
    | none => pure ()

/-! ### Installing one package -/

/-- The strict checksum gate: the path of a `.deb` that matches, after one new
download at most. -/
def checkedDeb (plan : PlannedInstall) (result : InstallResult) :
    Act InstallWorld InstallResult ByteString := do
  let pkg := plan.pkg
  if pkg.sha256.isEmpty && (md5sumOf pkg).isNone then
    fail result (str "Packages metadata missing checksums for " ++ pkg.packageName ++
      str " (no SHA256/MD5)")
  else
    match ← verifyDebSha256 dev.toOutside pkg plan.debPath with
    | none => pure plan.debPath
    | some shaErr =>
        match ← ensureDebForPackage dev.toOutside pkg false with
        | .error dlErr =>
            fail result (str "SHA256 verification failed for " ++ pkg.packageName ++ str ": " ++
              shaErr ++
              if dlErr.isEmpty then [] else str " (re-download failed: " ++ dlErr ++ str ")")
        | .ok (debPath, _) =>
            match ← verifyDebSha256 dev.toOutside pkg debPath with
            | none => pure debPath
            | some shaErr =>
                fail result (str "SHA256 verification failed for " ++ pkg.packageName ++
                  str ": " ++ shaErr)

/-- The cache entry of a fresh verification. -/
def sigCacheEntry (debSha sigPath fingerprint : ByteString) : SigCacheEntry where
  sha256 := debSha
  sigType := if (str ".asc").isSuffixOf sigPath then str "asc" else str "gpg"
  sigSource := str "repo"
  sigPath := sigPath
  verifiedBy := fingerprint

/-- The signature gate: the cache to store after a fresh verification. Only under
`Required` a missing or wrong signature is an error, and a `.deb` that cannot be
hashed is let through. -/
def checkSignature (repoIndices : RepoIndexList) (pkg : PackageEntry) (debPath : ByteString)
    (result : InstallResult) : Act InstallWorld InstallResult (Option SigCache) := do
  let sigPolicy := getDebSigPolicy repoIndices pkg
  if sigPolicy = .Disabled then pure none
  else
    match ← sha256File dev.toOutside debPath with
    | .error _ => pure none
    | .ok debSha => do
        let file ← readFile dev.toOutside sigCachePath
        let cache := (loadSigCache file).2
        if (cache.lookup debSha).isSome then pure none
        else
          match ← ensureDebSignature dev.toOutside pkg debPath with
          | .error sigErr =>
              if sigPolicy = .Required then
                fail result (str "Missing .deb signature for " ++ pkg.packageName ++
                  if sigErr.isEmpty then [] else str ": " ++ sigErr)
              else pure none
          | .ok sigPath =>
              match ← verifyDebGpg dev.toOutside debPath sigPath with
              | .ok fingerprint =>
                  pure (some (cache.insert debSha (sigCacheEntry debSha sigPath fingerprint)))
              | .error vErr =>
                  if sigPolicy = .Required then
                    fail result (str "GPG verification failed for " ++ pkg.packageName ++
                      if vErr.isEmpty then [] else str ": " ++ vErr)
                  else pure none

def installRootOf (termuxMode : Bool) (rootPackage name : ByteString) : ByteString :=
  if termuxMode then joinPath getTermuxInstalledDir name
  else joinPath (if name != rootPackage then getDependenciesDir else getCommandsDir) name

/-- The record of a package just installed. A new root is manual, a new dependency
automatic; a recorded package keeps its flag, but a root becomes manual. -/
def installedRecord (db : InstalledDb) (termuxMode : Bool) (rootPackage : ByteString)
    (pkg : PackageEntry) : InstalledPackage where
  name := pkg.packageName
  version := pkg.version
  architecture := pkg.architecture
  status := str "install ok installed"
  installRoot := installRootOf termuxMode rootPackage pkg.packageName
  repoUri := pkg.repoUri
  repoDist := pkg.repoDist
  repoComponent := pkg.repoComponent
  depends := pkg.depends
  termuxPackage := termuxMode
  installPrefix := if termuxMode then getTermuxPrefix else []
  autoInstalled :=
    match db.lookup pkg.packageName with
    | some previous => if pkg.packageName == rootPackage then false else previous.autoInstalled
    | none => pkg.packageName != rootPackage

/-- Record an unpacked package, in memory and in the status file; a new package that
cannot be recorded is removed again. -/
def recordInstalled (termuxMode : Bool) (rootPackage : ByteString) (pkg : PackageEntry)
    (db : InstalledDb) (result : InstallResult) :
    Act InstallWorld InstallResult (InstalledDb × InstallResult) := do
  let installedDb := db.insert pkg.packageName (installedRecord db termuxMode rootPackage pkg)
  match ← writeStatus dev installedDb with
  | none =>
      pure (installedDb, { result with
        installedPackages := result.installedPackages ++ [pkg.packageName] })
  | some writeErr =>
      let message := str "Failed to persist installed package state for " ++ pkg.packageName ++
        str ": " ++ writeErr
      if (db.lookup pkg.packageName).isSome then fail result message
      else
        match ← removePackagePayload dev with
        | none => fail result message
        | some rollbackErr =>
            fail result (message ++ str "; rollback failed" ++
              if rollbackErr.isEmpty then [] else str ": " ++ rollbackErr)

/-- Store the cache of a fresh verification. -/
def storePending : Option SigCache → Act InstallWorld ε Unit
  | none => pure ()
  | some cache => storeSigCache dev.toOutside cache

/-- A reinstalled Termux package loses its old files first. The result is not looked at. -/
def removeReplaced (reinstall termuxMode : Bool) (db : InstalledDb) (pkg : PackageEntry) :
    Act InstallWorld ε Unit := do
  if reinstall && termuxMode && recordedAs db pkg.packageName true then
    let _ ← removePackagePayload dev
    pure ()
  else pure ()

/-- Unpack and record a package that passed both gates. -/
def installVerified (termuxMode : Bool) (rootPackage : ByteString) (pkg : PackageEntry)
    (debPath : ByteString) (x : InstalledDb × InstallResult) :
    Act InstallWorld InstallResult (InstalledDb × InstallResult) := do
  match Security.validatePackageName pkg.packageName with
  | some nameErr => fail x.2 nameErr
  | none =>
      match ← installSinglePackage dev pkg debPath with
      | some err => fail x.2 (str "Failed to install " ++ pkg.packageName ++ str ": " ++ err)
      | none => recordInstalled dev termuxMode rootPackage pkg x.1 x.2

/-- The install turn of a package whose `.deb` passed the checksum gate. -/
def installChecked (repoIndices : RepoIndexList) (termuxMode : Bool) (rootPackage : ByteString)
    (pkg : PackageEntry) (debPath : ByteString) (x : InstalledDb × InstallResult) :
    Act InstallWorld InstallResult (InstalledDb × InstallResult) := do
  let pending ← checkSignature dev repoIndices pkg debPath x.2
  storePending dev pending
  installVerified dev termuxMode rootPackage pkg debPath x

/-- One turn of the install loop, over the status map and the result so far. -/
def installPlanned (repoIndices : RepoIndexList) (reinstall termuxMode : Bool)
    (rootPackage : ByteString) (plan : PlannedInstall) (x : InstalledDb × InstallResult) :
    Act InstallWorld InstallResult (InstalledDb × InstallResult) := do
  removeReplaced dev reinstall termuxMode x.1 plan.pkg
  let debPath ← checkedDeb dev plan x.2
  installChecked dev repoIndices termuxMode rootPackage plan.pkg debPath x

/-! ### The whole call -/

/-- The message of a simulated install. -/
def simulatedMessage (rootPackage : ByteString) (names : List ByteString) : ByteString :=
  str "Simulated install of " ++ rootPackage ++ str ". Plan:" ++
    if names.isEmpty then str " (nothing)" else names.flatMap fun name => str " " ++ name

/-- The message of an install. -/
def installedMessage (names : List ByteString) : ByteString :=
  str "Installed " ++ str (toString names.length) ++ str " package(s)" ++
    if names.isEmpty then [] else str ":" ++ names.flatMap fun name => str " " ++ name

/-- What is known once the resolver is done. -/
structure Prepared where
  termuxMode : Bool
  installedDb : InstalledDb
  installOrder : List PackageEntry

/-- The call up to the resolver. -/
def prepare (repoIndices : RepoIndexList) (rootPackage : ByteString) (opts : InstallOptions) :
    Act InstallWorld InstallResult Prepared := do
  if rootPackage.isEmpty then fail {} (str "Root package name is empty")
  else
    match Security.validatePackageName rootPackage with
    | some nameErr => fail {} nameErr
    | none =>
        let termuxMode := termuxModeOf repoIndices rootPackage opts
        if !hasRoot (mergeIndices repoIndices) rootPackage termuxMode then
          fail {} (str "Package not found in " ++
            (if termuxMode then str "Termux" else str "Debian") ++ str " repositories: " ++
            rootPackage)
        else
          match ← loadStatus dev with
          | .error dbErr => fail {} (str "Failed to load status DB: " ++ dbErr)
          | .ok installedDb =>
              let res := resolve repoIndices rootPackage termuxMode
                (installedNames installedDb termuxMode)
              if !res.ok then fail {} (str "Dependency resolution failed: " ++ res.errorMsg)
              else pure { termuxMode, installedDb, installOrder := res.out.installOrder }

/-- Find or download the `.deb` files of the plan. -/
def gatherDebs (reinstall : Bool) (p : Prepared) :
    Act InstallWorld InstallResult Planning := do
  let planning ←
    forEach (planPackage dev p.installedDb reinstall p.termuxMode) p.installOrder {}
  downloadQueued dev planning
  pure planning

/-- The call after the resolver: gather the files, then install one by one. -/
def installPrepared (repoIndices : RepoIndexList) (rootPackage : ByteString) (reinstall : Bool)
    (p : Prepared) : Act InstallWorld InstallResult InstallResult := do
  let planning ← gatherDebs dev reinstall p
  let done ← forEach (installPlanned dev repoIndices reinstall p.termuxMode rootPackage)
    planning.plans (p.installedDb, planning.result)
  pure { done.2 with ok := true, message := installedMessage done.2.installedPackages }

def installWithDeps (repoIndices : RepoIndexList) (rootPackage : ByteString)
    (opts : InstallOptions) : Act InstallWorld InstallResult InstallResult := do
  let p ← prepare dev repoIndices rootPackage opts
  if opts.simulate then
    let names := p.installOrder.map (·.packageName)
    pure { ok := true, installedPackages := names, message := simulatedMessage rootPackage names }
  else installPrepared dev repoIndices rootPackage opts.reinstall p

/-! ### A test archive -/

/-- An index of a component. -/
def indexOf (component : String) (policy : DebSignaturePolicy) (packages : PackageList) :
    RepoIndex where
  source := {
    uri := str "https://r", dist := str "stable", components := [str component],
    debSignaturePolicy := policy }
  component := str component
  arch := str "arm64"
  packages

/-- A package with an empty `.deb`. -/
def plainPackage (name : String) (depends : List String) : PackageEntry where
  packageName := str name
  version := str "1"
  architecture := str "arm64"
  filename := str name
  sha256 := plainDigest []
  depends := depends.map str
  repoUri := str "https://r"
  repoDist := str "stable"

/-! ### What the steps leave alone -/

theorem fail_keeps {α τ : Type} {part : InstallWorld → τ} (result : InstallResult)
    (message : ByteString) : Keeps part (fail (α := α) result message) := keeps_throw _

theorem loadStatus_keeps : Keeps World.own (loadStatus (ε := ε) dev) := fun _ => rfl

theorem removePackagePayload_keeps : Keeps World.own (removePackagePayload (ε := ε) dev) :=
  fun _ => rfl

/-- Writing the status file changes nothing else of the installer's state. -/
theorem writeStatus_keeps {τ : Type} (part : Own → τ)
    (h : ∀ (own : Own) db text, part (own.written db text) = part own) (db : InstalledDb) :
    Keeps (fun w : InstallWorld => part w.own) (writeStatus (ε := ε) dev db) := by
  intro w
  unfold writeStatus
  rw [exec_update]
  dsimp only
  split
  · exact h w.own db _
  · exact h w.own db _
  · rfl
  · rfl

theorem prepare_keeps (repoIndices : RepoIndexList) (rootPackage : ByteString)
    (opts : InstallOptions) : Keeps World.own (prepare dev repoIndices rootPackage opts) := by
  refine .ite (fail_keeps _ _) ?_
  split
  · exact fail_keeps _ _
  · refine .ite (fail_keeps _ _) ((loadStatus_keeps dev).bind fun r => ?_)
    cases r with
    | error _ => exact fail_keeps _ _
    | ok _ => exact .ite (fail_keeps _ _) (keeps_pure _)

theorem planPackage_keeps (db : InstalledDb) (reinstall termuxMode : Bool) (pkg : PackageEntry)
    (p : Planning) : Keeps World.own (planPackage dev db reinstall termuxMode pkg p) := by
  refine .ite (keeps_pure _) ((ensureDebForPackage_keeps dev.toOutside pkg true).bind fun r => ?_)
  cases r with
  | error _ => exact fail_keeps _ _
  | ok _ => exact keeps_pure _

theorem downloadQueued_keeps (p : Planning) : Keeps World.own (downloadQueued dev p) := by
  refine .ite (keeps_pure _) ((downloadFiles_keeps dev.toOutside _).bind fun results => ?_)
  split
  · exact fail_keeps _ _
  · exact keeps_pure _

theorem gatherDebs_keeps (reinstall : Bool) (p : Prepared) :
    Keeps World.own (gatherDebs dev reinstall p) :=
  (Keeps.forEach (planPackage_keeps dev _ _ _) _ _).bind fun _ =>
    (downloadQueued_keeps dev _).bind fun _ => keeps_pure _

theorem removeReplaced_keeps (reinstall termuxMode : Bool) (db : InstalledDb)
    (pkg : PackageEntry) :
    Keeps World.own (removeReplaced (ε := ε) dev reinstall termuxMode db pkg) :=
  .ite ((removePackagePayload_keeps dev).bind fun _ => keeps_pure _) (keeps_pure _)

theorem checkedDeb_keeps (plan : PlannedInstall) (result : InstallResult) :
    Keeps World.own (checkedDeb dev plan result) := by
  refine .ite (fail_keeps _ _) ((verifyDebSha256_keeps dev.toOutside _ _).bind fun rejected => ?_)
  cases rejected with
  | none => exact keeps_pure _
  | some shaErr =>
    refine (ensureDebForPackage_keeps dev.toOutside _ _).bind fun r => ?_
    cases r with
    | error _ => exact fail_keeps _ _
    | ok found =>
      refine (verifyDebSha256_keeps dev.toOutside _ _).bind fun rejected => ?_
      cases rejected with
      | none => exact keeps_pure _
      | some _ => exact fail_keeps _ _

/-- The signature gate changes only the list of verified files. -/
theorem checkSignature_keeps {τ : Type} (part : Own → τ)
    (h : ∀ (own : Own) v, part { own with verified := v } = part own)
    (repoIndices : RepoIndexList) (pkg : PackageEntry) (debPath : ByteString)
    (result : InstallResult) :
    Keeps (fun w : InstallWorld => part w.own)
      (checkSignature dev repoIndices pkg debPath result) := by
  refine .ite (keeps_pure _) (((digestFile_keeps dev.toOutside _ _).comp part).bind fun r => ?_)
  cases r with
  | error _ => exact keeps_pure _
  | ok debSha =>
    refine ((readFile_keeps dev.toOutside _).comp part).bind fun file => ?_
    refine .ite (keeps_pure _) ?_
    refine ((ensureDebSignature_keeps dev.toOutside _ _).comp part).bind fun sig => ?_
    cases sig with
    | error _ => exact .ite (fail_keeps _ _) (keeps_pure _)
    | ok sigPath =>
      refine (verifyDebGpg_keeps dev.toOutside part _ _ fun own => h own _).bind fun r => ?_
      cases r with
      | error _ => exact .ite (fail_keeps _ _) (keeps_pure _)
      | ok _ => exact keeps_pure _

theorem storePending_keeps (pending : Option SigCache) :
    Keeps World.own (storePending (ε := ε) dev pending) := by
  cases pending with
  | none => exact keeps_pure _
  | some cache => exact storeSigCache_keeps dev.toOutside cache

/-- Recording a package changes only the status file. -/
theorem recordInstalled_keeps {τ : Type} (part : Own → τ)
    (h : ∀ (own : Own) db text, part (own.written db text) = part own) (termuxMode : Bool)
    (rootPackage : ByteString) (pkg : PackageEntry) (db : InstalledDb) (result : InstallResult) :
    Keeps (fun w : InstallWorld => part w.own)
      (recordInstalled dev termuxMode rootPackage pkg db result) := by
  refine (writeStatus_keeps dev part h _).bind fun r => ?_
  cases r with
  | none => exact keeps_pure _
  | some writeErr =>
    refine .ite (fail_keeps _ _) (((removePackagePayload_keeps dev).comp part).bind fun r => ?_)
    cases r with
    | none => exact fail_keeps _ _
    | some _ => exact fail_keeps _ _

end Apm.Install
