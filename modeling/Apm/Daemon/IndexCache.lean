import Apm.Core.RepoCache
import Apm.Daemon.RepoSourceFiles
import Apm.Lib.CheckedCache

/-!
The cache of repository indices that `src/apmd/ipc_server.cpp` keeps, and what
`loadRepoIndicesFromCache` of `src/core/repo_index.cpp` does with the files, one action at a time.

The file system is the system's: what its calls do with the files is a parameter. A file is read
or unpacked in one action.

## Main results

* `cachedIndices_current`: when a call returns what the files give, and never an older set.
* `stale_indices_cached`: a change between the parsing and the second fingerprint is not seen.
-/

namespace Apm.Daemon.IndexCache

open Apm.Fs Apm.Config Apm.Repo Apm.Lib
open Apm.Daemon.Sources (isRepoName getSourcesDir)

/-! ### The files -/

/-- What `lstat` says of a path. -/
structure Stat where
  mode : Nat
  size : Nat
  mtime : Int

/-- What the calls of the system do. -/
structure FileSystem (F : Type) where
  /-- Or else `errno`. -/
  lstat : ByteString → F → Except Nat Stat
  /-- Is it a directory, if `stat` works? -/
  stat : ByteString → F → Option Bool
  /-- The names that `readdir` gives, none if the directory cannot be opened. -/
  readdir : ByteString → F → List ByteString
  readFile : ByteString → F → Option ByteString
  removeDirRecursive : ByteString → F → Bool × F
  createDirs : ByteString → F → Bool × F
  /-- Open an output file, and cut it. -/
  openFile : ByteString → F → Bool × F
  /-- Write to an output file that is open. -/
  writeOut : ByteString → ByteString → F → Bool × F
  /-- What a gzip file unpacks to, and whether its stream ends. -/
  inflate : ByteString → ByteString × Bool

variable {F : Type} (fs : FileSystem F)

def pathExists (path : ByteString) : Task F Bool :=
  Task.look fun f => !path.isEmpty && (fs.stat path f).isSome

def isDirectoryPath (path : ByteString) : Task F Bool :=
  Task.look fun f => fs.stat path f == some true

def listDir (path : ByteString) (includeHidden : Bool) : Task F (List ByteString) :=
  Task.look fun f =>
    ((fs.readdir path f).filter fun name => name != str "." && name != str ".." &&
      (includeHidden || name.head? != some (chr '.'))).insertionSort (· ≤ ·)

/-! ### The fingerprint -/

/-- Longer paths give `ENAMETOOLONG`. -/
def pathMax : Nat := 4096

def S_ISDIR (mode : Nat) : Bool := mode &&& 0xF000 == 0x4000

def number (n : Int) : ByteString :=
  if n < 0 then str "-" ++ decimal n.natAbs else decimal n.natAbs

/-- A directory is so many levels above the longest paths. -/
def appendPathFingerprint : Nat → ByteString → ByteString → Task F ByteString
  | 0, path, out => pure (out ++ path ++ str "|missing|36\n")
  | levels + 1, path, out => do
      match ← Task.look (fs.lstat path) with
      | .error errno => pure (out ++ path ++ str "|missing|" ++ decimal errno ++ str "\n")
      | .ok st =>
          let out := out ++ path ++ str "|" ++ decimal st.mode ++ str "|" ++ decimal st.size ++
            str "|" ++ number st.mtime ++ str "\n"
          if !S_ISDIR st.mode then pure out
          else do
            let entries ← listDir fs path true
            (entries.insertionSort (· ≤ ·)).foldlM
              (fun out entry => appendPathFingerprint levels (joinPath path entry) out) out

def repoIndexFingerprint : Task F ByteString := do
  let out := str "arch|" ++ getDefaultArch ++ str "\n"
  let out ← appendPathFingerprint fs pathMax getSourcesDir out
  appendPathFingerprint fs pathMax getListsDir out

/-! ### Loading -/

def parseSingleRepoFile (path : ByteString) : Task F (Except ByteString RepoSource) := do
  match ← Task.look (fs.readFile path) with
  | none => pure (.error (str "Cannot read repo source: " ++ path))
  | some content => pure (parseRepoFile path content)

/-- The loop of `loadSourcesList` over the names in a directory. -/
def loadNames (path : ByteString) : List ByteString → List RepoSource →
    Task F (Except ByteString (List RepoSource))
  | [], out => pure (.ok out)
  | name :: names, out =>
      if !isRepoName name then loadNames path names out
      else do
        let full := joinPath path name
        match ← parseSingleRepoFile fs full with
        | .error parseErr =>
            pure (.error
              (if parseErr.isEmpty then str "Invalid .repo source: " ++ full else parseErr))
        | .ok src => loadNames path names (out ++ [src])

def loadSourcesList (path : ByteString) : Task F (Except ByteString (List RepoSource)) := do
  if ← isDirectoryPath fs path then do
    let files ← listDir fs path false
    match ← loadNames fs path files [] with
    | .error errorMsg => pure (.error errorMsg)
    | .ok out =>
        if !files.any isRepoName then
          pure (.error (str "No valid .repo sources in directory: " ++ path))
        else pure (.ok out)
  else if !isRepoName path then
    pure (.error (str "Repo source must be a .repo file: " ++ path))
  else do
    match ← parseSingleRepoFile fs path with
    | .error errorMsg => pure (.error errorMsg)
    | .ok src => pure (.ok [src])

def ensureFreshPackagesDir (dir : ByteString) : Task F Bool := do
  let removed ←
    if ← pathExists fs dir then Task.perform (fs.removeDirRecursive dir) else pure true
  if removed then Task.perform (fs.createDirs dir) else pure false

/-- `decompressGzipFile` and `copyPackagesFile`. -/
def unpackFile (gz : Bool) (source dest : ByteString) : Task F Bool := do
  match ← Task.look (fs.readFile source) with
  | none => pure false
  | some content =>
      if ← Task.perform (fs.openFile dest) then do
        let produced := if gz then fs.inflate content else (content, true)
        let written ← Task.perform (fs.writeOut dest produced.1)
        pure (written && produced.2)
      else pure false

def preparePackagesTextFile (fileBase sourcePath : ByteString) (gz : Bool) : Task F Bool := do
  if ← ensureFreshPackagesDir fs (makePackagesExtractDir fileBase) then
    unpackFile fs gz sourcePath (makePackagesPlainPath fileBase)
  else pure false

/-- A file left behind in one form. -/
def tryCandidate (fileBase : ByteString) (gz : Bool) : Task F (Option ByteString) := do
  let candidate := fileBase ++ packagesSuffix gz
  if ← pathExists fs candidate then
    if ← preparePackagesTextFile fs fileBase candidate gz then
      pure (some (makePackagesPlainPath fileBase))
    else pure (if gz then none else some candidate)
  else pure none

/-- The extracted text, or else what the files left behind give. -/
def findPackagesFile (fileBase : ByteString) : Task F (Option ByteString) := do
  if ← pathExists fs (makePackagesPlainPath fileBase) then
    pure (some (makePackagesPlainPath fileBase))
  else
    match ← tryCandidate fs fileBase true with
    | some pkgFile => pure (some pkgFile)
    | none => tryCandidate fs fileBase false

/-- One turn of the loops over the sources and their components. -/
def loadComponent (out : RepoIndexList) (x : RepoSource × ByteString) : Task F RepoIndexList := do
  let arch := resolveRepoArch x.1 getDefaultArch
  let fileBase := makePackagesFilename x.1.uri x.1.dist x.2 arch getListsDir
  match ← findPackagesFile fs fileBase with
  | none => pure out
  | some pkgFile =>
      match ← Task.look (fs.readFile pkgFile) with
      | none => pure out
      | some content => pure (out ++ [makeRepoIndex x.1 x.2 arch pkgFile content])

def loadRepoIndicesFromCache : Task F (Except ByteString RepoIndexList) := do
  match ← loadSourcesList fs getSourcesDir with
  | .error errorMsg => pure (.error errorMsg)
  | .ok sources =>
      let out ← (componentTurns sources).foldlM (loadComponent fs) []
      if out.isEmpty then
        pure (.error (str "No cached repo indices found in " ++ getListsDir ++
          str " - run 'apm update' and try again"))
      else pure (.ok out)

/-! ### The cache -/

theorem readsOnly_foldlM {α β : Type} {step : α → β → Task F α} {l : List β}
    (reads : ∀ a b, (step a b).ReadsOnly) (a : α) : (l.foldlM step a).ReadsOnly := by
  induction l generalizing a with
  | nil => exact Task.readsOnly_pure a
  | cons b l ih =>
    rw [List.foldlM_cons]
    exact (reads a b).bind ih

theorem appendPathFingerprint_reads (levels : Nat) (path out : ByteString) :
    (appendPathFingerprint fs levels path out).ReadsOnly := by
  induction levels generalizing path out with
  | zero => exact Task.readsOnly_pure _
  | succ levels ih =>
    apply (Task.readsOnly_look _).bind
    intro st
    cases st with
    | error errno => exact Task.readsOnly_pure _
    | ok st =>
      dsimp only
      split
      · exact Task.readsOnly_pure _
      · apply (Task.readsOnly_look _).bind
        intro entries
        exact readsOnly_foldlM (fun out entry => ih _ _) _

/-- `loadCachedRepoIndices` and `invalidateRepoIndexCache`: the fingerprint that is compared, and
what is loaded. -/
def indexCache : Checked F ByteString RepoIndexList ByteString where
  print := repoIndexFingerprint fs
  load := loadRepoIndicesFromCache fs
  reads := (appendPathFingerprint_reads fs _ _ _).bind fun _ =>
    appendPathFingerprint_reads fs _ _ _

/-! ### Loading again -/

theorem parseSingleRepoFile_reads (path : ByteString) :
    (parseSingleRepoFile fs path).ReadsOnly := by
  apply (Task.readsOnly_look _).bind
  intro text
  cases text <;> exact Task.readsOnly_pure _

theorem loadNames_reads (path : ByteString) (names : List ByteString) (out : List RepoSource) :
    (loadNames fs path names out).ReadsOnly := by
  induction names generalizing out with
  | nil => exact Task.readsOnly_pure _
  | cons name names ih =>
    unfold loadNames
    split
    · exact ih out
    · apply (parseSingleRepoFile_reads fs _).bind
      intro parsed
      cases parsed with
      | error _ => exact Task.readsOnly_pure _
      | ok src => exact ih _

theorem loadSourcesList_reads (path : ByteString) : (loadSourcesList fs path).ReadsOnly := by
  apply (Task.readsOnly_look _).bind
  intro isDir
  split
  · apply (Task.readsOnly_look _).bind
    intro files
    apply (loadNames_reads fs _ _ _).bind
    intro loaded
    cases loaded with
    | error _ => exact Task.readsOnly_pure _
    | ok out =>
      dsimp only
      split <;> exact Task.readsOnly_pure _
  split
  · exact Task.readsOnly_pure _
  · apply (parseSingleRepoFile_reads fs _).bind
    intro parsed
    cases parsed <;> exact Task.readsOnly_pure _

/-- The text of the component is unpacked. -/
def Extracted (f : F) (x : RepoSource × ByteString) : Prop :=
  ((pathExists fs (makePackagesPlainPath (makePackagesFilename x.1.uri x.1.dist x.2
    (resolveRepoArch x.1 getDefaultArch) getListsDir))).quiet f).1 = true

theorem loadComponent_still {f : F} {x : RepoSource × ByteString} (extracted : Extracted fs f x)
    (out : RepoIndexList) : ((loadComponent fs out x).quiet f).2 = f := by
  have found : (findPackagesFile fs (makePackagesFilename x.1.uri x.1.dist x.2
      (resolveRepoArch x.1 getDefaultArch) getListsDir)).quiet f =
      (some (makePackagesPlainPath (makePackagesFilename x.1.uri x.1.dist x.2
        (resolveRepoArch x.1 getDefaultArch) getListsDir)), f) := by
    rw [findPackagesFile, Task.quiet_bind, extracted]
    rfl
  rw [loadComponent, Task.quiet_bind, found]
  dsimp only
  rw [Task.quiet_bind, (Task.readsOnly_look _).quiet_snd]
  split <;> rfl

/-- **Files that are all unpacked** give the same again: they are only read. -/
theorem settles_of_extracted {f : F}
    (extracted : ∀ sources, ((loadSourcesList fs getSourcesDir).quiet f).1 = .ok sources →
      ∀ x ∈ componentTurns sources, Extracted fs f x) : (indexCache fs).Settles f := by
  apply (indexCache fs).settles_of_still
  change ((loadRepoIndicesFromCache fs).quiet f).2 = f
  rw [loadRepoIndicesFromCache, Task.quiet_bind, (loadSourcesList_reads fs _).quiet_snd]
  cases loaded : ((loadSourcesList fs getSourcesDir).quiet f).1 with
  | error errorMsg => rfl
  | ok sources =>
    dsimp only
    have still := Task.quiet_foldlM_snd (loadComponent fs) (f := f)
      (fun out x mem => loadComponent_still fs (extracted sources loaded x mem) out) []
    rw [Task.quiet_bind, still]
    split <;> rfl

/-! ### A file system in memory -/

structure MemoryFile where
  isDir : Bool
  text : ByteString
  mtime : Int
deriving DecidableEq

abbrev Memory := List (ByteString × MemoryFile)

/-- Is the path below the directory? -/
def below (dir path : ByteString) : Bool := (dir ++ str "/").isPrefixOf path

/-- A file system in memory, without links and without gzip. -/
def memory : FileSystem Memory where
  lstat path f :=
    match f.lookup path with
    | some file => .ok ⟨if file.isDir then 0x41ED else 0x81A4, file.text.length, file.mtime⟩
    | none => .error 2
  stat path f := (f.lookup path).map (·.isDir)
  readdir path f := (f.filter fun entry => below path entry.1).map (·.1.drop (path.length + 1))
    |>.filter (!·.contains (chr '/'))
  readFile path f := (f.lookup path).map (·.text)
  removeDirRecursive path f := (true, f.filter fun entry => entry.1 != path && !below path entry.1)
  createDirs path f :=
    (true, if (f.lookup path).isSome then f else f ++ [(path, ⟨true, [], 0⟩)])
  openFile path f := (true, (path, ⟨false, [], 0⟩) :: f.filter (·.1 != path))
  writeOut path text f := (true, f.map fun entry =>
    if entry.1 == path then (path, { entry.2 with text := entry.2.text ++ text }) else entry)
  inflate _ := ([], false)

/-- The files of one source with one package of a version. -/
def sourceFiles (version : String) (mtime : Int) : Memory :=
  let fileBase := makePackagesFilename (str "https://r") (str "stable") (str "main") (str "arm64")
    getListsDir
  [(getSourcesDir, ⟨true, [], 0⟩),
    (joinPath getSourcesDir (str "a.repo"),
      ⟨false, str "type=deb\nurl=https://r\nsuites=stable,main\n", 0⟩),
    (getListsDir, ⟨true, [], 0⟩),
    (makePackagesExtractDir fileBase, ⟨true, [], 0⟩),
    (makePackagesPlainPath fileBase,
      ⟨false, str ("Package: a\nVersion: " ++ version ++ "\n"), mtime⟩)]

/-- A gzip file that cannot be unpacked leaves a part of its text, which the next load parses. -/
example :
    let fileBase := makePackagesFilename (str "https://r") (str "stable") (str "main")
      (str "arm64") getListsDir
    let cut := { memory with inflate := fun _ => (str "Package: a\n", false) }
    ¬ (indexCache cut).Settles
      ((sourceFiles "1" 0).take 3 ++ [(fileBase ++ str ".gz", ⟨false, [], 0⟩)]) := by
  decide +kernel

/-! ### Calls -/

/-- **Cached indices are current.** In a run of calls, invalidations and changes of the files, at
any points, every call that has returned and that no change has come to returned what
`loadRepoIndicesFromCache` gives on the files of that moment; and no call waits for ever. No
change may come while a call has the lock, that is, between the comparison of the fingerprints
and the end of the second one; none may lead to a fingerprint under which other indices are
cached; and files that are loaded must give the same again. -/
theorem cachedIndices_current {ι : Type} [DecidableEq ι] {f : F}
    {events : List (Checked.Event F ι)}
    (safe : Run.EachStep (indexCache fs).step (indexCache fs).Safe (Checked.start f) events) :
    Run.Always (indexCache fs).step
      (fun s => (indexCache fs).Current s ∧ (indexCache fs).Live s) (Checked.start f) events :=
  Checked.always_current safe

/-- A call, a change and another call. -/
def calmRun : List (Checked.Event Memory Nat) :=
  .begin 0 :: List.replicate 25 (.tick 0) ++
    .change (sourceFiles "2" 1) :: .begin 0 :: List.replicate 25 (.tick 0)

theorem cachedIndices_current_calm :
    Run.Always (indexCache memory).step
      (fun s => (indexCache memory).Current s ∧ (indexCache memory).Live s)
      (Checked.start (sourceFiles "1" 0)) calmRun := by
  have safe : Run.EachStep (indexCache memory).step (indexCache memory).Safe
      (Checked.start (sourceFiles "1" 0)) calmRun := by decide +kernel
  exact cachedIndices_current memory safe

/-- A call during which a package gets a new version, once its file is parsed, and a call after
it. -/
def staleRun : List (Checked.Event Memory Nat) :=
  .begin 0 :: List.replicate 16 (.tick 0) ++
    .change (sourceFiles "2" 1) :: List.replicate 9 (.tick 0) ++
    .begin 1 :: List.replicate 10 (.tick 1)

/-- The second fingerprint sees the change, and the second call gets the old version. -/
theorem stale_indices_cached :
    (indexCache memory).printOf (sourceFiles "1" 0) ≠
        (indexCache memory).printOf (sourceFiles "2" 1) ∧
      ¬ Run.Always (indexCache memory).step (indexCache memory).Current
        (Checked.start (sourceFiles "1" 0)) staleRun := by
  constructor
  · decide +kernel
  · intro always
    have last := always.last
    have returned : ((Run.run (indexCache memory).step (Checked.start (sourceFiles "1" 0))
        staleRun).phase 1).result =
          some ((indexCache memory).valueOf (sourceFiles "1" 0), sourceFiles "2" 1) := by
      decide +kernel
    have current := last 1 _ _ (Checked.phase_of_result returned) (by decide +kernel)
    revert current
    decide +kernel

end Apm.Daemon.IndexCache
