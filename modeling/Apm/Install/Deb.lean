import Apm.Core.Package
import Apm.Core.Security
import Apm.Core.StatusDb
import Apm.Install.SigCache
import Apm.Util.Disk
import Mathlib.Data.List.DropRight

/-!
Fetching and checking a `.deb` (`src/apmd/install_manager.cpp`): where the file of a
package is, how it is fetched, its checksums, and its detached signature.

The state of the installer is the text of the status file, the files whose signatures
were verified, the maps written to the status file with the texts they left there, and
a log of the calls of `installSinglePackage`, with what they find, and of the packages
it unpacked.
-/

namespace Apm.Install

open Apm.Repo Apm.Fs Apm.Config Apm.Lib.Effect Apm.Status

/-- What the installer does that a run is judged by. -/
inductive Event where
  /-- `installSinglePackage` was called, on this disk, after these files were verified. -/
  | installCalled (pkg : PackageEntry) (debPath : ByteString)
      (disk : ByteString → Option Node) (verified : List ByteString)
  /-- `installSinglePackage` succeeded: the payload of the package is in place. -/
  | unpacked (pkg : PackageEntry)

/-- The installer's own state. -/
structure Own where
  status : ByteString := []
  verified : List ByteString := []
  writes : List (InstalledDb × ByteString) := []
  log : List Event := []

abbrev InstallWorld := World Own

variable {ε : Type} (out : Outside)

/-! ### File names and checksums -/

/-- For example `nano_7.2_arm64.deb`. -/
def makeDebFileName (pkg : PackageEntry) : ByteString :=
  pkg.packageName ++ (if pkg.version.isEmpty then [] else str "_" ++ pkg.version) ++
    (if pkg.architecture.isEmpty then [] else str "_" ++ pkg.architecture) ++ str ".deb"

/-- Strip blanks and lowercase. -/
def normalizeHex (hex : ByteString) : ByteString :=
  (hex.filter fun c => !(c == chr ' ' || c == chr '\t' || c == chr '\n' || c == chr '\r')).map
    tolower

/-- The `MD5sum` field, if it is there and nonempty. -/
def md5sumOf (pkg : PackageEntry) : Option ByteString :=
  (pkg.rawFields.lookup (str "MD5sum")).filter (!·.isEmpty)

/-- Does the file match the metadata's SHA256? Without one it does not. -/
def matchSha256 (pkg : PackageEntry) (debPath : ByteString) :
    Act InstallWorld ε (Except ByteString Bool) := do
  if pkg.sha256.isEmpty then pure (.ok false)
  else
    match ← sha256File out debPath with
    | .error hashErr =>
        pure (.error (str "Failed to compute SHA256 for " ++ debPath ++ str ": " ++ hashErr))
    | .ok computed => pure (.ok (normalizeHex pkg.sha256 == normalizeHex computed))

/-- Does the file match the metadata's MD5sum? -/
def matchMd5 (md5sum debPath : ByteString) : Act InstallWorld ε (Except ByteString Bool) := do
  match ← md5File out debPath with
  | .error md5Err =>
      pure (.error (str "Failed to compute MD5 for " ++ debPath ++ str ": " ++ md5Err))
  | .ok md5Hex => pure (.ok (normalizeHex md5sum == normalizeHex md5Hex))

/-- Remove a file with wrong checksums. -/
def rejectDeb (debPath msg : ByteString) : Act InstallWorld ε (Option ByteString) := do
  let _ ← removeFile out debPath
  pure (some (msg ++ str " (cached file removed; re-run to fetch a fresh copy)"))

/-- `verifyDebSha256`: SHA256 first, then MD5; why the file is rejected, if it is. A
file with wrong checksums is removed, an unreadable one is not. -/
def verifyDebSha256 (pkg : PackageEntry) (debPath : ByteString) :
    Act InstallWorld ε (Option ByteString) := do
  match ← matchSha256 out pkg debPath with
  | .error msg => pure (some msg)
  | .ok true => pure none
  | .ok false =>
      match md5sumOf pkg with
      | some md5sum =>
          match ← matchMd5 out md5sum debPath with
          | .error msg => pure (some msg)
          | .ok true => pure none
          | .ok false =>
              rejectDeb out debPath (str "Checksum mismatch for " ++ pkg.packageName ++
                str " (" ++ debPath ++ str "): SHA256 and MD5 both failed")
      | none =>
          rejectDeb out debPath
            (if pkg.sha256.isEmpty then
              str "Packages metadata missing SHA256/MD5 for " ++ pkg.packageName
            else
              str "SHA256 mismatch for " ++ pkg.packageName ++
                str " and no MD5 fallback available")

/-! ### Fetching -/

/-- `s.compare(0, prefix.size(), prefix) == 0`. -/
def startsWith (s pre : ByteString) : Bool := pre.isPrefixOf s

/-- What follows the last slash. -/
def baseName (path : ByteString) : ByteString := path.rtakeWhile (· != chr '/')

/-- The URL of a package file, unless its repository is unknown. -/
def debUrl (pkg : PackageEntry) : Option ByteString :=
  if startsWith pkg.filename (str "http://") || startsWith pkg.filename (str "https://") then
    some pkg.filename
  else if !pkg.repoUri.isEmpty then
    some ((if pkg.repoUri.getLast? != some (chr '/') then pkg.repoUri ++ str "/"
      else pkg.repoUri) ++ pkg.filename)
  else none

/-- `ensureDebForPackage`: the path of the `.deb`, with a download request for it if it
is missing and `queue` is set; otherwise a missing one is downloaded at once. -/
def ensureDebForPackage (pkg : PackageEntry) (queue : Bool) :
    Act InstallWorld ε (Except ByteString (ByteString × Option DownloadRequest)) := do
  match Security.validatePackageName pkg.packageName with
  | some nameErr => pure (.error nameErr)
  | none =>
      let debPath := joinPath getPkgsDir (makeDebFileName pkg)
      if !(← createDirs out getPkgsDir) then
        pure (.error (str "Failed to create PKGS_DIR: " ++ getPkgsDir))
      else if ← pathExists out debPath then pure (.ok (debPath, none))
      else if pkg.filename.isEmpty then
        pure (.error (str "Package " ++ pkg.packageName ++
          str " has no Filename field; please place .deb at " ++ debPath))
      else
        let altLocalPath := joinPath getPkgsDir (baseName pkg.filename)
        if ← pathExists out altLocalPath then pure (.ok (altLocalPath, none))
        else
          match debUrl pkg with
          | none =>
              pure (.error (str "Cannot construct download URL for package " ++
                pkg.packageName ++ str "; Filename=" ++ pkg.filename ++
                str ", repoUri is empty. Place the .deb manually at " ++ debPath))
          | some url =>
              if queue then pure (.ok (debPath, some { url, destination := debPath }))
              else
                match ← downloadFile out url debPath with
                | .ok () => pure (.ok (debPath, none))
                | .error dlErr =>
                    pure (.error (str "Download failed for " ++ url ++ str ": " ++ dlErr))

/-! ### Signatures -/

/-- The policy of the first index with the package's URI and distribution. -/
def getDebSigPolicy (indices : RepoIndexList) (pkg : PackageEntry) : DebSignaturePolicy :=
  match indices.find? fun idx =>
      idx.source.uri == pkg.repoUri && idx.source.dist == pkg.repoDist with
  | some idx => idx.source.debSignaturePolicy
  | none => .Disabled

def makeSigLocalPath (debPath ext : ByteString) : ByteString := debPath ++ ext

def makeSigUrl (pkg : PackageEntry) (ext : ByteString) : ByteString :=
  if startsWith pkg.filename (str "http://") || startsWith pkg.filename (str "https://") then
    pkg.filename ++ ext
  else
    (if pkg.repoUri.getLast? == some (chr '/') then pkg.repoUri.dropLast else pkg.repoUri) ++
      str "/" ++ pkg.filename ++ ext

/-- `ensureDebSignature`: a local signature, or a downloaded one; `.asc` before `.gpg`. -/
def ensureDebSignature (pkg : PackageEntry) (debPath : ByteString) :
    Act InstallWorld ε (Except ByteString ByteString) := do
  let ascPath := makeSigLocalPath debPath (str ".asc")
  let gpgPath := makeSigLocalPath debPath (str ".gpg")
  if ← pathExists out ascPath then pure (.ok ascPath)
  else if ← pathExists out gpgPath then pure (.ok gpgPath)
  else
    let asc ← downloadFile out (makeSigUrl pkg (str ".asc")) ascPath
    if asc.isOk && (← pathExists out ascPath) then pure (.ok ascPath)
    else
      let gpg ← downloadFile out (makeSigUrl pkg (str ".gpg")) gpgPath
      if gpg.isOk && (← pathExists out gpgPath) then pure (.ok gpgPath)
      else pure (.error (str "No detached signature available for .deb"))

/-- `verifyDebGpg`: the signer's fingerprint, or why the signature is rejected. -/
def verifyDebGpg (debPath sigPath : ByteString) :
    Act InstallWorld ε (Except ByteString ByteString) := do
  match ← verifyDetachedSignature out debPath sigPath with
  | .ok fingerprint => do
      update fun w => ((), { w with own := { w.own with verified := debPath :: w.own.verified } })
      pure (.ok fingerprint)
  | .error err =>
      pure (.error (if err.isEmpty then str "Signature verification failed" else err))

def sigCachePath : ByteString := joinPath getPkgsDir (str "sig-cache.json")

/-- `storeSigCache`. Its caller does not look at the result. -/
def storeSigCache (map : SigCache) : Act InstallWorld ε Unit := do
  let _ ← writeFile out sigCachePath (sigCacheJson map)
  pure ()

/-! ### What the steps leave alone -/

theorem matchSha256_keeps (pkg : PackageEntry) (debPath : ByteString) :
    Keeps World.own (matchSha256 (ε := ε) out pkg debPath) := by
  refine .ite (keeps_pure _) ((digestFile_keeps out _ _).bind fun r => ?_)
  cases r with
  | error _ => exact keeps_pure _
  | ok _ => exact keeps_pure _

theorem matchMd5_keeps (md5sum debPath : ByteString) :
    Keeps World.own (matchMd5 (ε := ε) out md5sum debPath) := by
  refine (digestFile_keeps out _ _).bind fun r => ?_
  cases r with
  | error _ => exact keeps_pure _
  | ok _ => exact keeps_pure _

theorem rejectDeb_keeps (debPath msg : ByteString) :
    Keeps World.own (rejectDeb (ε := ε) out debPath msg) :=
  (removeFile_keeps out _).bind fun _ => keeps_pure _

theorem verifyDebSha256_keeps (pkg : PackageEntry) (debPath : ByteString) :
    Keeps World.own (verifyDebSha256 (ε := ε) out pkg debPath) := by
  refine (matchSha256_keeps out pkg debPath).bind fun sha => ?_
  rcases sha with _ | _ | _
  · exact keeps_pure _
  · cases md5sumOf pkg with
    | none => exact rejectDeb_keeps out _ _
    | some md5sum =>
      refine (matchMd5_keeps out md5sum debPath).bind fun md5 => ?_
      rcases md5 with _ | _ | _
      · exact keeps_pure _
      · exact rejectDeb_keeps out _ _
      · exact keeps_pure _
  · exact keeps_pure _

theorem ensureDebForPackage_keeps (pkg : PackageEntry) (queue : Bool) :
    Keeps World.own (ensureDebForPackage (ε := ε) out pkg queue) := by
  unfold ensureDebForPackage
  cases Security.validatePackageName pkg.packageName with
  | some _ => exact keeps_pure _
  | none =>
    refine (createDirs_keeps out _).bind fun made => .ite (keeps_pure _) ?_
    refine (pathExists_keeps out _).bind fun present => .ite (keeps_pure _) ?_
    refine .ite (keeps_pure _) ?_
    refine (pathExists_keeps out _).bind fun alt => .ite (keeps_pure _) ?_
    cases debUrl pkg with
    | none => exact keeps_pure _
    | some url =>
      refine .ite (keeps_pure _) ((downloadFile_keeps out _ _).bind fun r => ?_)
      cases r with
      | error _ => exact keeps_pure _
      | ok _ => exact keeps_pure _

theorem ensureDebSignature_keeps (pkg : PackageEntry) (debPath : ByteString) :
    Keeps World.own (ensureDebSignature (ε := ε) out pkg debPath) := by
  refine (pathExists_keeps out _).bind fun asc => .ite (keeps_pure _) ?_
  refine (pathExists_keeps out _).bind fun gpg => .ite (keeps_pure _) ?_
  refine (downloadFile_keeps out _ _).bind fun ascResult => ?_
  refine (pathExists_keeps out _).bind fun asc => .ite (keeps_pure _) ?_
  refine (downloadFile_keeps out _ _).bind fun gpgResult => ?_
  exact (pathExists_keeps out _).bind fun gpg => .ite (keeps_pure _) (keeps_pure _)

/-- A verification only adds to the verified files. -/
theorem verifyDebGpg_keeps {τ : Type} (part : Own → τ) (debPath sigPath : ByteString)
    (h : ∀ own : Own, part { own with verified := debPath :: own.verified } = part own) :
    Keeps (fun w : InstallWorld => part w.own) (verifyDebGpg (ε := ε) out debPath sigPath) := by
  refine ((verifyDetachedSignature_keeps out _ _).comp part).bind fun r => ?_
  cases r with
  | error _ => exact keeps_pure _
  | ok _ => exact Keeps.bind (fun w => h w.own) fun _ => keeps_pure _

theorem storeSigCache_keeps (map : SigCache) :
    Keeps World.own (storeSigCache (ε := ε) out map) :=
  (writeFile_keeps out _ _).bind fun _ => keeps_pure _

/-! ### What the steps establish -/

/-- The bytes match a checksum of the package's metadata. -/
def ChecksumMatches (pkg : PackageEntry) (content : ByteString) : Prop :=
  (pkg.sha256 ≠ [] ∧ normalizeHex pkg.sha256 = normalizeHex (out.sha256 content)) ∨
    ∃ m, md5sumOf pkg = some m ∧ normalizeHex m = normalizeHex (out.md5 content)

/-- The file at the path matches. -/
def FileMatches (pkg : PackageEntry) (disk : ByteString → Option Node)
    (path : ByteString) : Prop :=
  ∃ content, contentAt disk (out.resolve path) = some content ∧ ChecksumMatches out pkg content

theorem matchSha256_spec (pkg : PackageEntry) (debPath : ByteString) (w : InstallWorld) :
    wp (matchSha256 (ε := ε) out pkg debPath)
      (fun r w' => w'.disk = w.disk ∧ (r = .ok true → FileMatches out pkg w.disk debPath))
      (fun _ _ => False) w := by
  unfold matchSha256
  refine wp_ite.mpr ⟨fun _ => ⟨rfl, by simp⟩, fun nonempty => wp_bind.mpr ?_⟩
  refine wp_mono (digestFile_spec out _ _ w) (fun r w' h => ?_) fun _ _ h => h
  cases r with
  | error _ => exact ⟨h.1, by simp⟩
  | ok computed =>
    refine ⟨h.1, fun same => ?_⟩
    obtain ⟨content, found, rfl⟩ := h.2.2 computed rfl
    refine ⟨content, found, .inl ⟨fun e => nonempty (by rw [e]; rfl), ?_⟩⟩
    simpa using same

theorem matchMd5_spec {pkg : PackageEntry} {md5sum : ByteString} (h : md5sumOf pkg = some md5sum)
    (debPath : ByteString) (w : InstallWorld) :
    wp (matchMd5 (ε := ε) out md5sum debPath)
      (fun r w' => w'.disk = w.disk ∧ (r = .ok true → FileMatches out pkg w.disk debPath))
      (fun _ _ => False) w := by
  refine wp_bind.mpr (wp_mono (digestFile_spec out _ _ w) (fun r w' h' => ?_) fun _ _ h => h)
  cases r with
  | error _ => exact ⟨h'.1, by simp⟩
  | ok computed =>
    refine ⟨h'.1, fun same => ?_⟩
    obtain ⟨content, found, rfl⟩ := h'.2.2 computed rfl
    exact ⟨content, found, .inr ⟨md5sum, h, by simpa using same⟩⟩

/-- **An accepted `.deb` matches.** -/
theorem verifyDebSha256_spec (pkg : PackageEntry) (debPath : ByteString) (w : InstallWorld) :
    wp (verifyDebSha256 (ε := ε) out pkg debPath)
      (fun rejected w' => rejected = none → FileMatches out pkg w'.disk debPath)
      (fun _ _ => False) w := by
  have rejects : ∀ msg w, wp (rejectDeb (ε := ε) out debPath msg)
      (fun rejected w' => rejected = none → FileMatches out pkg w'.disk debPath)
      (fun _ _ => False) w := by
    intro msg w
    exact wp_bind.mpr (wp_update.mpr fun h => nomatch h)
  refine wp_bind.mpr (wp_mono (matchSha256_spec out pkg debPath w) (fun sha w₁ h₁ => ?_)
    fun _ _ h => h)
  rcases sha with _ | _ | _
  · simp
  · cases hmd5 : md5sumOf pkg with
    | none => exact rejects _ _
    | some md5sum =>
      refine wp_bind.mpr (wp_mono (matchMd5_spec out hmd5 debPath w₁) (fun md5 w₂ h₂ => ?_)
        fun _ _ h => h)
      rcases md5 with _ | _ | _
      · simp
      · exact rejects _ _
      · exact fun _ => h₂.1.symm ▸ h₂.2 rfl
  · exact fun _ => h₁.1.symm ▸ h₁.2 rfl

/-- A fetched package has a valid name. -/
theorem ensureDebForPackage_spec (pkg : PackageEntry) (queue : Bool) (w : InstallWorld) :
    wp (ensureDebForPackage (ε := ε) out pkg queue)
      (fun r _ => r.isOk → Security.validatePackageName pkg.packageName = none)
      (fun _ _ => True) w := by
  cases name : Security.validatePackageName pkg.packageName with
  | none => exact wp_of_forall (fun _ _ _ => rfl) fun _ _ => trivial
  | some err =>
    rw [ensureDebForPackage, name]
    exact fun h => nomatch h

/-- Nodes that are there survive. -/
def Survives (disk disk' : ByteString → Option Node) : Prop :=
  ∀ loc, (disk loc).isSome → disk' loc = disk loc

theorem Survives.trans {disk disk' disk'' : ByteString → Option Node}
    (h : Survives disk disk') (h' : Survives disk' disk'') : Survives disk disk'' :=
  fun loc there => (h' loc (by rwa [h loc there])).trans (h loc there)

theorem pathExists_spec {path : ByteString} (nonempty : path ≠ []) (w : InstallWorld) :
    wp (pathExists (ε := ε) out path)
      (fun there w' => w = w' ∧ (there = false → w.disk (out.resolve path) = none))
      (fun _ _ => False) w := by
  refine ⟨rfl, fun h => ?_⟩
  simpa [nonempty, World.node] using h

/-- Looking for a signature overwrites nothing: it only downloads to missing paths. -/
theorem ensureDebSignature_spec (pkg : PackageEntry) (debPath : ByteString)
    (w : InstallWorld) :
    wp (ensureDebSignature (ε := ε) out pkg debPath)
      (fun _ w' => Survives w.disk w'.disk) (fun _ _ => False) w := by
  have ascPath : makeSigLocalPath debPath (str ".asc") ≠ [] := by simp [makeSigLocalPath, str]
  have gpgPath : makeSigLocalPath debPath (str ".gpg") ≠ [] := by simp [makeSigLocalPath, str]
  have stays : Survives w.disk w.disk := fun _ _ => rfl
  unfold ensureDebSignature
  refine wp_bind.mpr (wp_mono (pathExists_spec out ascPath w) ?_ fun _ _ h => h)
  rintro asc _ ⟨rfl, noAsc⟩
  refine wp_ite.mpr ⟨fun _ => stays, fun missing => ?_⟩
  have noAsc := noAsc (by simpa using missing)
  refine wp_bind.mpr (wp_mono (pathExists_spec out gpgPath w) ?_ fun _ _ h => h)
  rintro gpg _ ⟨rfl, noGpg⟩
  refine wp_ite.mpr ⟨fun _ => stays, fun missing => ?_⟩
  have noGpg := noGpg (by simpa using missing)
  refine wp_bind.mpr (wp_mono (downloadFile_spec out _ _ w) ?_ fun _ _ h => h)
  intro ascResult w₁ frame₁
  have survives₁ : Survives w.disk w₁.disk := fun loc there =>
    frame₁.2 loc (by rintro rfl; simp [noAsc] at there)
  refine wp_bind.mpr (wp_mono (pathExists_spec out ascPath w₁) ?_ fun _ _ h => h)
  rintro asc _ ⟨rfl, -⟩
  refine wp_ite.mpr ⟨fun _ => survives₁, fun _ => ?_⟩
  refine wp_bind.mpr (wp_mono (downloadFile_spec out _ _ w₁) ?_ fun _ _ h => h)
  intro gpgResult w₂ frame₂
  have survives₂ : Survives w.disk w₂.disk := fun loc there =>
    (frame₂.2 loc (by rintro rfl; simp [noGpg] at there)).trans (survives₁ loc there)
  refine wp_bind.mpr (wp_mono (pathExists_spec out gpgPath w₂) ?_ fun _ _ h => h)
  rintro gpg _ ⟨rfl, -⟩
  exact wp_ite.mpr ⟨fun _ => survives₂, fun _ => survives₂⟩

end Apm.Install
