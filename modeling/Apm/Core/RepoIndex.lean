import Apm.Core.ReleaseParser
import Apm.Core.Stanza
import Apm.Util.Disk

/-!
The cache of repository indices (`src/core/repo_index.cpp`): its file names, the texts it
reads, and the unpacking of Packages files.

The state of a run is what the claims about it need: the contents whose signature was
verified, the Packages files that matched a Release text, and the texts that were parsed
into an index.
-/

namespace Apm.Repo

open Apm.Fs Apm.Lib.Effect

/-! ### The outside -/

/-- What becomes of the output of an unpacking: so many bytes reach the disk. -/
inductive UnpackAnswer where
  | refused
  | stored (bytes : Nat) (reported : Bool)

/-- The outside of the index cache: also zlib and directory trees. -/
structure Host extends Outside where
  /-- The bytes that a gzip file inflates to, and whether its stream ends. -/
  inflate : ByteString → ByteString × Bool
  unpack : Nat → UnpackAnswer
  /-- Is the location below the directory? -/
  inside : ByteString → ByteString → Bool
  /-- What a recursive removal that fails has removed. -/
  swept : Nat → ByteString → Bool

/-- A Packages file of a source that matched a checksum of its Release text. -/
structure Accepted where
  uri : ByteString
  dist : ByteString
  component : ByteString
  arch : ByteString
  release : ByteString
  gz : Bool
  content : ByteString
deriving DecidableEq

/-- A text that was parsed into the index of a source's component. -/
structure Parsed where
  uri : ByteString
  dist : ByteString
  component : ByteString
  arch : ByteString
  text : ByteString
deriving DecidableEq

structure RepoOwn where
  /-- The contents of the data and the signature of each verification. -/
  verified : List (ByteString × ByteString) := []
  accepted : List Accepted := []
  parsed : List Parsed := []

abbrev RepoWorld := World RepoOwn

variable {ε : Type} (host : Host)

/-! ### Architectures -/

def toLower (s : ByteString) : ByteString := s.map tolower

def mapArchToTermux (arch : ByteString) : ByteString :=
  let lower := toLower arch
  if lower == str "arm64-v8a" || lower == str "arm64" || lower == str "aarch64" then
    str "aarch64"
  else if lower == str "armhf" || lower == str "arm" then str "arm"
  else if lower == str "amd64" || lower == str "x86_64" then str "x86_64"
  else if lower == str "i386" || lower == str "i686" || lower == str "x86" then str "i686"
  else if lower == str "all" then str "all"
  else arch

def normalizeDebianArch (arch : ByteString) : ByteString :=
  let lower := toLower arch
  if lower == str "arm64-v8a" || lower == str "aarch64" then str "arm64"
  else if lower == str "armeabi-v7a" then str "armhf"
  else if lower == str "x86_64" then str "amd64"
  else if lower == str "x86" then str "i386"
  else arch

def resolveRepoArch (src : RepoSource) (defaultArch : ByteString) : ByteString :=
  let arch := normalizeDebianArch (if src.arch.isEmpty then defaultArch else src.arch)
  if src.format = .Termux || src.isTermuxRepo then mapArchToTermux arch else arch

/-! ### Packages texts -/

/-- Does the needle occur in the text, up to case? Neither may be empty. -/
def containsCaseInsensitive (text needle : ByteString) : Bool :=
  !text.isEmpty && !needle.isEmpty && contains (toLower text) (toLower needle)

def hasTermuxDependency (deps : List ByteString) : Bool :=
  deps.any fun dep =>
    [str "libandroid-glob", str "libandroid-support", str "termux-tools"].any
      (containsCaseInsensitive dep)

def detectTermuxPackage (filename : ByteString) (depends : List ByteString) : Bool :=
  containsCaseInsensitive filename (str "data/data/com.termux/files/usr") ||
    hasTermuxDependency depends

/-- The entry of a stanza, if it has a name. -/
def readPackage (fields : Fields) : Option PackageEntry :=
  let packageName := getField fields "Package"
  let filename := getField fields "Filename"
  let depends := parseDependsField (getField fields "Depends") ++
    parseDependsField (getField fields "Pre-Depends")
  if packageName.isEmpty then none
  else some {
    packageName
    version := getField fields "Version"
    architecture := getField fields "Architecture"
    filename
    sha256 := getField fields "SHA256"
    depends
    rawFields := fields
    isTermuxPackage := detectTermuxPackage filename depends }

def parsePackagesString (content : ByteString) : PackageList :=
  (parseStanzas content).filterMap readPackage

/-! ### File names -/

def isalnum (c : UInt8) : Bool :=
  isdigit c || islower c || (65 ≤ c && c ≤ 90)

def sanitizeForFilename (s : ByteString) : ByteString :=
  s.map fun c => if isalnum c || c == chr '-' || c == chr '_' || c == chr '.' then c else chr '_'

def makePackagesFilename (uri dist component arch listsDir : ByteString) : ByteString :=
  joinPath listsDir (sanitizeForFilename (uri ++ str "_" ++ dist ++ str "_" ++ component ++
    str "_" ++ arch) ++ str "_Packages")

def makePackagesExtractDir (fileBase : ByteString) : ByteString := fileBase ++ str "_dir"

def makePackagesPlainPath (fileBase : ByteString) : ByteString :=
  joinPath (makePackagesExtractDir fileBase) (str "Packages")

/-- The file of a source's distribution with the suffix. -/
def makeDistFilename (src : RepoSource) (listsDir : ByteString) (suffix : String) : ByteString :=
  joinPath listsDir (sanitizeForFilename (src.uri ++ str "_" ++ src.dist) ++ str suffix)

def makeReleaseFilename (src : RepoSource) (listsDir : ByteString) : ByteString :=
  makeDistFilename src listsDir "_Release"

def makeReleaseGpgFilename (src : RepoSource) (listsDir : ByteString) : ByteString :=
  makeDistFilename src listsDir "_Release.gpg"

def makeInReleaseFilename (src : RepoSource) (listsDir : ByteString) : ByteString :=
  makeDistFilename src listsDir "_InRelease"

/-! ### Unpacking -/

/-- `removeDirRecursive`. One that fails has removed some of what is below. -/
def removeDirRecursive (path : ByteString) : Act RepoWorld ε Bool :=
  update fun w =>
    match w.node host.toOutside path with
    | none => (true, w)
    | some (.file _) =>
        if host.ok w.clock then (true, (w.setNode (host.resolve path) none).tick)
        else (false, w.tick)
    | some .dir =>
        let below := host.inside (host.resolve path)
        if host.ok w.clock then
          (true, { w.tick with
            disk := fun loc =>
              if loc = host.resolve path || below loc then none else w.disk loc })
        else
          (false, { w.tick with
            disk := fun loc =>
              if below loc && host.swept w.clock loc then none else w.disk loc })

def ensureFreshPackagesDir (dir : ByteString) : Act RepoWorld ε Bool := do
  let present ← pathExists host.toOutside dir
  let removed ← if present then removeDirRecursive host dir else pure true
  if removed then createDirs host.toOutside dir else pure false

/-- `decompressGzipFile` and `copyPackagesFile`: write what a file unpacks to. On success
the bytes it was unpacked from. -/
def unpackFile (produce : ByteString → ByteString × Bool) (source dest : ByteString) :
    Act RepoWorld ε (Option ByteString) :=
  update fun w =>
    match w.node host.toOutside source with
    | some (.file content) =>
        if w.node host.toOutside dest = some .dir then (none, w.tick)
        else
          match host.unpack w.clock with
          | .refused => (none, w.tick)
          | .stored bytes reported =>
              (if (produce content).2 && reported then some content else none,
                (w.setNode (host.resolve dest)
                  (some (.file ((produce content).1.take bytes)))).tick)
    | _ => (none, w.tick)

/-- What a Packages file unpacks to. -/
def produced (gz : Bool) (content : ByteString) : ByteString × Bool :=
  if gz then host.inflate content else (content, true)

/-- `preparePackagesTextFile`: the bytes the text was unpacked from, on success. -/
def preparePackagesTextFile (fileBase sourcePath : ByteString) (gz : Bool) :
    Act RepoWorld ε (Option ByteString) := do
  if ← ensureFreshPackagesDir host (makePackagesExtractDir fileBase) then
    unpackFile host (produced host gz) sourcePath (makePackagesPlainPath fileBase)
  else pure none

/-! ### What unpacking does -/

/-- No file is new or changed. -/
def Shrinks (disk disk' : ByteString → Option Node) : Prop :=
  ∀ loc content, contentAt disk' loc = some content → contentAt disk loc = some content

theorem Shrinks.refl (disk : ByteString → Option Node) : Shrinks disk disk := fun _ _ h => h

theorem shrinks_of_removed {disk disk' : ByteString → Option Node}
    (h : ∀ loc, disk' loc = disk loc ∨ disk' loc = none ∨ disk' loc = some .dir) :
    Shrinks disk disk' := by
  intro loc content found
  unfold contentAt at found ⊢
  rcases h loc with same | gone | dir
  · rwa [← same]
  · simp [gone] at found
  · simp [dir] at found

theorem createDirs_spec (path : ByteString) (w : RepoWorld) :
    wp (createDirs (ε := ε) host.toOutside path)
      (fun _ w' => w'.own = w.own ∧ Shrinks w.disk w'.disk) (fun _ _ => False) w := by
  refine wp_update.mpr ?_
  split
  · exact ⟨rfl, .refl _⟩
  · exact ⟨rfl, .refl _⟩
  · split
    · refine ⟨rfl, shrinks_of_removed fun loc => ?_⟩
      by_cases same : loc = host.resolve path
      · exact .inr (.inr (by simp [same]))
      · exact .inl (by simp [same])
    · exact ⟨rfl, .refl _⟩

theorem removeDirRecursive_spec (path : ByteString) (w : RepoWorld) :
    wp (removeDirRecursive (ε := ε) host path)
      (fun _ w' => w'.own = w.own ∧ Shrinks w.disk w'.disk) (fun _ _ => False) w := by
  refine wp_update.mpr ?_
  split
  · exact ⟨rfl, .refl _⟩
  · split
    · refine ⟨rfl, shrinks_of_removed fun loc => ?_⟩
      by_cases same : loc = host.resolve path
      · exact .inr (.inl (by simp [same]))
      · exact .inl (by simp [same])
    · exact ⟨rfl, .refl _⟩
  · dsimp only
    split
    · refine ⟨rfl, shrinks_of_removed fun loc => ?_⟩
      dsimp only
      split
      · exact .inr (.inl rfl)
      · exact .inl rfl
    · refine ⟨rfl, shrinks_of_removed fun loc => ?_⟩
      dsimp only
      split
      · exact .inr (.inl rfl)
      · exact .inl rfl

theorem ensureFreshPackagesDir_spec (dir : ByteString) (w : RepoWorld) :
    wp (ensureFreshPackagesDir (ε := ε) host dir)
      (fun _ w' => w'.own = w.own ∧ Shrinks w.disk w'.disk) (fun _ _ => False) w := by
  have create (w₁ : RepoWorld) (h : w₁.own = w.own ∧ Shrinks w.disk w₁.disk) :
      wp (createDirs (ε := ε) host.toOutside dir)
        (fun _ w' => w'.own = w.own ∧ Shrinks w.disk w'.disk) (fun _ _ => False) w₁ :=
    wp_mono (createDirs_spec host dir w₁) (fun _ _ h' =>
      ⟨h'.1.trans h.1, fun loc content found => h.2 loc content (h'.2 loc content found)⟩)
      fun _ _ h => h
  refine wp_bind.mpr (wp_update.mpr (wp_ite.mpr ⟨fun _ => wp_bind.mpr ?_, fun _ =>
    wp_bind.mpr (wp_pure.mpr ?_)⟩))
  · exact wp_mono (removeDirRecursive_spec host dir w)
      (fun _ w₁ h => wp_ite.mpr ⟨fun _ => create w₁ h, fun _ => h⟩) fun _ _ h => h
  · exact wp_ite.mpr ⟨fun _ => create w ⟨rfl, .refl _⟩, fun _ => ⟨rfl, .refl _⟩⟩

/-- A text that unpacking a file leaves: what it unpacks to, or a first part of that. -/
def UnpackedFrom (gz : Bool) (content text : ByteString) : Prop :=
  text <+: (produced host gz content).1

/-- The files of a disk are those of another one, but for texts unpacked from a file. -/
def UnpackedTo (gz : Bool) (source dest : ByteString) (disk disk' : ByteString → Option Node) :
    Prop :=
  ∀ loc text, contentAt disk' loc = some text →
    contentAt disk loc = some text ∨
      loc = dest ∧ ∃ content, contentAt disk source = some content ∧
        UnpackedFrom host gz content text

/-- **Unpacking** writes one file, from the bytes of another one. -/
theorem preparePackagesTextFile_spec (fileBase path : ByteString) (gz : Bool) (w : RepoWorld) :
    wp (preparePackagesTextFile (ε := ε) host fileBase path gz)
      (fun unpacked w' => w'.own = w.own ∧
        (∀ content, unpacked = some content →
          contentAt w.disk (host.resolve path) = some content) ∧
        UnpackedTo host gz (host.resolve path) (host.resolve (makePackagesPlainPath fileBase))
          w.disk w'.disk)
      (fun _ _ => False) w := by
  refine wp_bind.mpr (wp_mono (ensureFreshPackagesDir_spec host _ w) (fun _ w₁ h => ?_)
    fun _ _ h => h)
  obtain ⟨own, shrinks⟩ := h
  have stays : UnpackedTo host gz (host.resolve path)
      (host.resolve (makePackagesPlainPath fileBase)) w.disk w₁.disk :=
    fun loc text found => .inl (shrinks loc text found)
  refine wp_ite.mpr ⟨fun _ => wp_update.mpr ?_, fun _ => ⟨own, by simp, stays⟩⟩
  split
  · rename_i content found
    have source : contentAt w.disk (host.resolve path) = some content :=
      shrinks _ _ (by rw [contentAt, show w₁.disk (host.resolve path) = _ from found])
    split
    · exact ⟨own, by simp, stays⟩
    split
    · exact ⟨own, by simp, stays⟩
    · rename_i bytes reported _
      refine ⟨own, fun content' h => ?_, fun loc text there => ?_⟩
      · split at h
        · exact h ▸ source
        · cases h
      · by_cases same : loc = host.resolve (makePackagesPlainPath fileBase)
        · refine .inr ⟨same, content, source, ?_⟩
          subst same
          have : text = (produced host gz content).1.take bytes := by
            simpa [contentAt] using there.symm
          subst this
          exact List.take_prefix _ _
        · refine stays loc text ?_
          simpa [contentAt, same] using there
  · exact ⟨own, by simp, stays⟩

end Apm.Repo
