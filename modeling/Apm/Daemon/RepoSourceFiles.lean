import Apm.Core.RepoSources
import Apm.Util.Trace
import Mathlib.Data.List.Sort

/-!
The repository sources that `src/apmd/ipc_server.cpp` adds, lists and removes, and
`loadSourcesList` of `src/core/repo_index.cpp` over the directory they are in.

A name is used in paths, and so up to its first NUL. Modes and owners are left out.

## Main results

* `normalizeRepoSourceName_spec`: a name that is yielded is yielded again, and is one component.
* `repoSources_agree`: when a source that was added is listed, loaded and removed.
-/

namespace Apm.Daemon.Sources

open Apm.Fs Apm.Repo Apm.Lib.Walk

/-! ### Names -/

/-- `hasSuffix` for a source file. -/
def isRepoName (name : ByteString) : Bool := (str ".repo").isSuffixOf name

def normalizeRepoSourceName (input : ByteString) : Except ByteString ByteString :=
  if input.isEmpty then .error (str "repo source name is missing")
  else if input == str "." || input == str ".." || input.contains (chr '/') ||
      input.contains (chr '\\') then
    .error (str "invalid repo source name: " ++ input)
  else if isRepoName input && input.length ≤ 5 then
    .error (str "invalid repo source name: " ++ input)
  else if !isRepoName input && input.contains (chr '.') then
    .error (str "repo source name must be a bare name or end with .repo")
  else
    let name := if isRepoName input then input else input ++ str ".repo"
    if name == str "." || name == str ".." || name.contains (chr '/') ||
        name.contains (chr '\\') || !isRepoName name || name.length ≤ 5 then
      .error (str "invalid repo source name: " ++ input)
    else .ok name

/-- The names of source files that requests may give. -/
structure RepoFileName (name : ByteString) : Prop where
  suffix : isRepoName name = true
  long : 5 < name.length
  noSlash : chr '/' ∉ name
  noBackslash : chr '\\' ∉ name

section Names

variable {input name : ByteString}

theorem RepoFileName.ne_dots (h : RepoFileName name) :
    name ≠ [] ∧ name ≠ str "." ∧ name ≠ str ".." := by
  have long := h.long
  refine ⟨?_, ?_, ?_⟩ <;> rintro rfl <;> exact absurd long (by decide)

theorem normal_of_normalize (h : normalizeRepoSourceName input = .ok name) :
    RepoFileName name ∧ (name = input ∨ name = input ++ str ".repo") ∧ input ≠ [] ∧
      input ≠ str "." ∧ input ≠ str ".." := by
  unfold normalizeRepoSourceName at h
  split at h
  · cases h
  rename_i filled
  split at h
  · cases h
  rename_i plain
  split at h
  · cases h
  split at h
  · cases h
  dsimp only at h
  generalize chosen : (if isRepoName input then input else input ++ str ".repo") = name' at h
  split at h
  · cases h
  rename_i ends
  cases h
  simp only [Bool.or_eq_true, beq_iff_eq, List.contains_iff_mem, not_or, Bool.not_eq_true',
    decide_eq_true_eq, Nat.not_le, Bool.not_eq_false] at plain ends
  refine ⟨⟨ends.1.2, ends.2, ends.1.1.1.2, ends.1.1.2⟩, ?_, by simpa using filled,
    plain.1.1.1, plain.1.1.2⟩
  rw [← chosen]
  split
  · exact .inl rfl
  · exact .inr rfl

theorem normalize_of_normal (h : RepoFileName name) : normalizeRepoSourceName name = .ok name := by
  obtain ⟨filled, dot, dots⟩ := h.ne_dots
  have long := h.long
  have short : ¬ name.length ≤ 5 := by omega
  unfold normalizeRepoSourceName
  simp [filled, dot, dots, h.suffix, h.noSlash, h.noBackslash, short]

/-- A name without a slash that is none of the names for directories. -/
theorem plainName_cString_iff (noSlash : chr '/' ∉ name) :
    PlainName (cString name) ↔ cString name ∉ [[], str ".", str ".."] := by
  have slash : chr '/' ∉ cString name := noSlash_cString noSlash
  have nul : 0 ∉ cString name := by
    intro mem
    simpa using List.mem_takeWhile_imp mem
  constructor
  · intro plain mem
    have step := plain.plain
    simp only [List.mem_cons, List.not_mem_nil, or_false] at mem
    rcases mem with same | same | same <;> rw [same] at step <;> exact absurd step (by decide)
  · intro other
    simp only [List.mem_cons, List.not_mem_nil, or_false, not_or] at other
    refine ⟨?_, slash, nul⟩
    simp [pathStep, other]

/-- **A name that is yielded** is yielded again and is one component of a path, and so is what
the system sees of it unless the request is cut by a NUL behind nothing or behind dots. -/
theorem normalizeRepoSourceName_spec (h : normalizeRepoSourceName input = .ok name) :
    normalizeRepoSourceName name = .ok name ∧ pathSteps name = [.down name] ∧
      (PlainName (cString name) ↔ cString input ∉ [[], str ".", str ".."]) := by
  obtain ⟨normal, chosen, filled, dot, dots⟩ := normal_of_normalize h
  obtain ⟨filled', dot', dots'⟩ := normal.ne_dots
  refine ⟨normalize_of_normal normal, ?_, ?_⟩
  · rw [pathSteps_component normal.noSlash]
    simp [pathStep, filled', dot', dots']
  · rw [plainName_cString_iff normal.noSlash]
    by_cases nul : 0 ∈ input
    · have same : cString name = cString input := by
        rcases chosen with rfl | rfl
        · rfl
        · exact cString_append_of_nul nul _
      rw [same]
    · have nul' : 0 ∉ name := by
        rcases chosen with rfl | rfl
        · exact nul
        · rw [List.mem_append, not_or]
          exact ⟨nul, by decide⟩
      rw [cString_of_noNul nul, cString_of_noNul nul']
      simp [filled, dot, dots, filled', dot', dots']

end Names

/-- What stands behind the last slash of a path, slashes at its end left out. -/
def baseName (path : ByteString) : ByteString :=
  (path.rdropWhile (· == chr '/')).rtakeWhile (· != chr '/')

/-! ### The directory -/

/-- What `stat` says. -/
inductive Kind where
  | regular | directory | other | dangling
deriving DecidableEq

/-- What stands under a name, links followed. -/
structure Item where
  kind : Kind
  /-- What `readFile` gives. -/
  text : Option ByteString

/-- The directory of the sources. -/
structure SourcesDir where
  entries : AList fun _ : ByteString => Item
  plain : ∀ name ∈ entries, PlainName name

/-- The directory itself, or the one above it. -/
def dirItem : Item where
  kind := .directory
  text := some []

/-- What a path into the directory leads to. -/
def SourcesDir.at (dir : SourcesDir) (name : ByteString) : Option Item :=
  if PlainName (cString name) then dir.entries.lookup (cString name) else some dirItem

def pathExists (item : Option Item) : Bool :=
  match item with
  | some item => item.kind != .dangling
  | none => false

def isFile (item : Option Item) : Bool :=
  match item with
  | some item => item.kind == .regular
  | none => false

def getSourcesDir : ByteString := str "/data/apm/sources"

/-- `listDir` without hidden names. -/
def SourcesDir.listDir (dir : SourcesDir) : List ByteString :=
  (dir.entries.keys.filter fun name => name.head? != some (chr '.')).insertionSort (· ≤ ·)

/-! ### Loading -/

/-- `parseSingleRepoFile`. -/
def parseSingleRepoFile (path : ByteString) (item : Option Item) : Except ByteString RepoSource :=
  match item.bind (·.text) with
  | none => .error (str "Cannot read repo source: " ++ path)
  | some content => parseRepoFile path content

/-- `loadSourcesList` of a path that is no directory. -/
def loadSourceFile (path : ByteString) (item : Option Item) :
    Except ByteString (List RepoSource) := do
  if !isRepoName path then throw (str "Repo source must be a .repo file: " ++ path)
  else return [← parseSingleRepoFile path item]

/-- The loop of `loadSourcesList` over the names in a directory. -/
def loadNames (dir : SourcesDir) : List ByteString → List RepoSource →
    Except ByteString (List RepoSource)
  | [], out => .ok out
  | name :: names, out =>
      if !isRepoName name then loadNames dir names out
      else
        let full := joinPath getSourcesDir name
        match parseSingleRepoFile full (dir.at name) with
        | .error parseErr =>
            .error (if parseErr.isEmpty then str "Invalid .repo source: " ++ full else parseErr)
        | .ok src => loadNames dir names (out ++ [src])

/-- `loadSourcesList` of the directory. -/
def loadSourcesList : Option SourcesDir → Except ByteString (List RepoSource)
  | none => .error (str "Repo source must be a .repo file: " ++ getSourcesDir)
  | some dir =>
      match loadNames dir dir.listDir [] with
      | .error errorMsg => .error errorMsg
      | .ok out =>
          if !dir.listDir.any isRepoName then
            .error (str "No valid .repo sources in directory: " ++ getSourcesDir)
          else .ok out

/-! ### Requests -/

/-- What the system does while a source is added. -/
structure AddHost where
  /-- What the source path leads to. -/
  source : Option Item
  createsDir : Bool
  /-- Why the file cannot be copied, if it cannot. -/
  copyErr : Option ByteString

def SourcesDir.empty : SourcesDir := ⟨∅, nofun⟩

/-- The directory with one more file. -/
def SourcesDir.insert (dir : SourcesDir) (name : ByteString) (plain : PlainName name)
    (item : Item) : SourcesDir where
  entries := dir.entries.insert name item
  plain := by
    intro name' mem
    rcases (AList.mem_insert _).mp mem with rfl | mem
    · exact plain
    · exact dir.plain name' mem

/-- `copyRepoFileExclusive`: the file is made new, or it is not made. -/
def copyRepoFileExclusive (host : AddHost) (name : ByteString) (dir : SourcesDir) :
    Except ByteString Unit × SourcesDir :=
  let dest := joinPath getSourcesDir name
  if plain : PlainName (cString name) then
    if cString name ∈ dir.entries then
      (.error (str "repo source already exists: " ++ dest), dir)
    else
      match host.copyErr with
      | some err => (.error (if err.isEmpty then str "failed to copy repo source" else err), dir)
      | none =>
          (.ok (), dir.insert (cString name) plain
            ⟨.regular, host.source.bind (·.text)⟩)
  else (.error (str "repo source already exists: " ++ dest), dir)

/-- `addRepoSourceFile`: the message or the error, and the directory then. -/
def addRepoSourceFile (host : AddHost) (sourcePath : ByteString) (dir : Option SourcesDir) :
    Except ByteString ByteString × Option SourcesDir :=
  let name := baseName sourcePath
  if sourcePath.isEmpty then (.error (str "repo path is missing"), dir)
  else if sourcePath.length < 5 || !isRepoName sourcePath then
    (.error (str "repo source must be a .repo file"), dir)
  else if !isFile host.source then
    (.error (str "repo source does not exist or is not a regular file: " ++ sourcePath), dir)
  else if name.isEmpty || name.length < 5 || name == str "." || name == str ".." ||
      name.contains (chr '/') || name.contains (chr '\\') || !isRepoName name then
    (.error (str "invalid repo source filename"), dir)
  else
    match loadSourceFile sourcePath host.source with
    | .error parseErr =>
        (.error (if parseErr.isEmpty then str "invalid .repo file" else parseErr), dir)
    | .ok [] => (.error (str "invalid .repo file"), dir)
    | .ok (_ :: _) =>
        if dir.isNone && !host.createsDir then
          (.error (str "failed to create sources directory: " ++ getSourcesDir), dir)
        else
          let made := dir.getD .empty
          let dest := joinPath getSourcesDir name
          if pathExists (made.at name) then
            (.error (str "repo source already exists: " ++ dest), some made)
          else
            match copyRepoFileExclusive host name made with
            | (.error err, made) => (.error err, some made)
            | (.ok _, made) => (.ok (str "Repository source added: " ++ dest), some made)

def repoFormatToString : RepoFormat → ByteString
  | .Termux => str "termux"
  | .Debian => str "debian"

def repoTrustPolicyToString : RepoTrustPolicy → ByteString
  | .Require => str "required"
  | .Skip => str "skip"
  | .Default => str "default"

def debSignaturePolicyToString : DebSignaturePolicy → ByteString
  | .Optional => str "optional"
  | .Required => str "required"
  | .Disabled => str "disabled"

/-- The names that are listed, and what the listing says of each. -/
def listedSources (dir : SourcesDir) :
    List (ByteString × Option (Except ByteString (List RepoSource))) :=
  ((dir.listDir.filter isRepoName).insertionSort (· ≤ ·)).map fun name =>
    let path := joinPath getSourcesDir name
    (name, if !isFile (dir.at name) then none else some (loadSourceFile path (dir.at name)))

/-- The line of a source, the `i`-th of `count`. -/
def sourceLine (name : ByteString) (count i : Nat) (src : RepoSource) : ByteString :=
  str "  " ++ name ++ (if 1 < count then str "#" ++ decimal (i + 1) else []) ++
    str ": " ++ src.uri ++ str " suite=" ++ src.dist ++
    str " components=" ++ (str ",").intercalate src.components ++
    str " format=" ++ repoFormatToString src.format ++
    (if src.isTermuxRepo && src.format != .Termux then str " termux=yes" else []) ++
    (if src.arch.isEmpty then [] else str " arch=" ++ src.arch) ++
    (if src.trustPolicy != .Default then
      str " trusted=" ++ repoTrustPolicyToString src.trustPolicy else []) ++
    (if src.debSignaturePolicy != .Disabled then
      str " deb-signatures=" ++ debSignaturePolicyToString src.debSignaturePolicy else []) ++
    str "\n"

/-- What the listing says of a name. -/
def listedText (listed : ByteString × Option (Except ByteString (List RepoSource))) :
    ByteString :=
  match listed.2 with
  | none => str "  " ++ listed.1 ++ str ": invalid (not a regular file)\n"
  | some (.error parseErr) =>
      str "  " ++ listed.1 ++ str ": invalid" ++
        (if parseErr.isEmpty then [] else str " (" ++ parseErr ++ str ")") ++ str "\n"
  | some (.ok []) => str "  " ++ listed.1 ++ str ": invalid\n"
  | some (.ok sources) =>
      (sources.mapIdx fun i src => sourceLine listed.1 sources.length i src).flatten

def buildRepoSourceListResponseMessage : Option SourcesDir → ByteString
  | none => str "No repository sources configured."
  | some dir =>
      if (listedSources dir).isEmpty then str "No repository sources configured."
      else (str "Repository sources:\n" ++ (listedSources dir).flatMap listedText).dropLast

/-- `removeRepoSourceFile`, where `unlink` fails with an error or works. -/
def removeRepoSourceFile (unlinkErr : Option ByteString) (repoName : ByteString)
    (dir : SourcesDir) : Except ByteString ByteString × SourcesDir :=
  match normalizeRepoSourceName repoName with
  | .error nameErr => (.error nameErr, dir)
  | .ok name =>
      let path := joinPath getSourcesDir name
      if !pathExists (dir.at name) then (.error (str "repo source not found: " ++ name), dir)
      else if !isFile (dir.at name) then
        (.error (str "repo source is not a regular file: " ++ path), dir)
      else
        match unlinkErr with
        | some err => (.error (str "failed to remove repo source: " ++ err), dir)
        | none =>
            (.ok (str "Repository source removed: " ++ path ++
                str "\nRun 'apm update' to refresh repository metadata."),
              ⟨dir.entries.erase (cString name),
                fun other mem => dir.plain other ((AList.mem_erase).mp mem).2⟩)

/-! ### What an addition does -/

/-- The text of a source does not depend on where it is read. -/
theorem repoLines_path {path : ByteString} (path' : ByteString) {lineNo : Nat}
    {lines : List ByteString} {x file : RepoFile} (h : repoLines path lineNo lines x = .ok file) :
    repoLines path' lineNo lines x = .ok file := by
  induction lines generalizing lineNo x with
  | nil => exact h
  | cons line lines ih =>
    unfold repoLines at h ⊢
    dsimp only at h ⊢
    split at h
    · rename_i skipped
      rw [if_pos skipped]
      exact ih h
    rename_i kept
    rw [if_neg kept]
    split at h
    · cases h
    rename_i formed
    rw [if_neg formed]
    split at h
    · cases h
    rename_i keyed
    rw [if_neg keyed]
    exact ih h

theorem parseRepoFile_path {path content : ByteString} {src : RepoSource} (path' : ByteString)
    (h : parseRepoFile path content = .ok src) : parseRepoFile path' content = .ok src := by
  unfold parseRepoFile at h ⊢
  obtain ⟨file, lines, h⟩ := Lib.Effect.ok_of_bind h
  rw [repoLines_path path' lines]
  change (if _ then _ else _) = _
  dsimp only at h
  split at h
  · cases h
  rename_i type
  rw [if_neg type]
  split at h
  · cases h
  rename_i whole
  rw [if_neg whole]
  exact h

theorem parseSingleRepoFile_path {path : ByteString} {item : Option Item} {src : RepoSource}
    (path' : ByteString) (h : parseSingleRepoFile path item = .ok src) :
    parseSingleRepoFile path' item = .ok src := by
  unfold parseSingleRepoFile at h ⊢
  split at h
  · cases h
  · exact parseRepoFile_path path' h

/-- The file that is there after an addition. -/
def addedItem (host : AddHost) : Item where
  kind := .regular
  text := host.source.bind (·.text)

/-- **What was added**: a new file under the name that the system sees, with the text of the
source, which is valid. -/
theorem addRepoSourceFile_ok {host : AddHost} {sourcePath message : ByteString}
    {dir dir' : Option SourcesDir}
    (h : addRepoSourceFile host sourcePath dir = (.ok message, dir')) :
    ∃ plain : PlainName (cString (baseName sourcePath)), ∃ src,
      parseSingleRepoFile sourcePath host.source = .ok src ∧
      chr '/' ∉ baseName sourcePath ∧ chr '\\' ∉ baseName sourcePath ∧
      cString (baseName sourcePath) ∉ (dir.getD .empty).entries ∧
      dir' = some ((dir.getD .empty).insert (cString (baseName sourcePath)) plain
        (addedItem host)) := by
  unfold addRepoSourceFile at h
  dsimp only at h
  split at h
  · cases h
  split at h
  · cases h
  split at h
  · cases h
  split at h
  · cases h
  rename_i named
  simp only [Bool.or_eq_true, List.contains_iff_mem, not_or] at named
  split at h
  · cases h
  · cases h
  rename_i src rest loaded
  split at h
  · cases h
  split at h
  · cases h
  unfold copyRepoFileExclusive at h
  dsimp only at h
  split at h
  · cases h
  rename_i made copied
  split at copied
  swap
  · cases copied
  rename_i plain
  split at copied
  · cases copied
  rename_i fresh
  split at copied
  · cases copied
  cases copied
  cases h
  refine ⟨plain, src, ?_, named.1.1.2, named.1.2, fresh, rfl⟩
  unfold loadSourceFile at loaded
  split at loaded
  · cases loaded
  obtain ⟨src', parsed, same⟩ := Lib.Effect.ok_of_bind loaded
  cases same
  exact parsed

/-! ### What is said of a source -/

/-- The file is a source that `listDir` and the checks of the names let through. -/
def Visible (name : ByteString) : Prop :=
  isRepoName name = true ∧ name.head? ≠ some (chr '.')

/-- The listing shows the source. -/
def Listed (dir : SourcesDir) (name : ByteString) (src : RepoSource) : Prop :=
  (name, some (.ok [src])) ∈ listedSources dir ∧
    (sourceLine name 1 0 src).dropLast <:+: buildRepoSourceListResponseMessage (some dir)

/-- The sources can be loaded, and the source is one of them. -/
def Loaded (dir : SourcesDir) (src : RepoSource) : Prop :=
  ∃ out, loadSourcesList (some dir) = .ok out ∧ src ∈ out

/-- A removal by the name works if `unlink` does, and removes that file and no other. -/
def Removable (dir : SourcesDir) (name : ByteString) : Prop :=
  name ∈ dir.entries ∧ ∃ message dir',
    removeRepoSourceFile none name dir = (.ok message, dir') ∧
      ∀ other, dir'.entries.lookup other = if other = name then none else dir.entries.lookup other

/-- The file is valid. -/
def Valid (dir : SourcesDir) (name : ByteString) : Prop :=
  ∃ src, parseSingleRepoFile (joinPath getSourcesDir name) (dir.at name) = .ok src

section Dir

variable {dir : SourcesDir} {name : ByteString} {src : RepoSource}

theorem mem_listDir : name ∈ dir.listDir ↔ name ∈ dir.entries ∧ name.head? ≠ some (chr '.') := by
  unfold SourcesDir.listDir
  rw [List.mem_insertionSort, List.mem_filter, AList.mem_keys]
  simp

theorem repoName_joinPath (h : isRepoName name = true) :
    isRepoName (joinPath getSourcesDir name) = true := by
  have suffix := List.isSuffixOf_iff_suffix.mp h
  apply List.isSuffixOf_iff_suffix.mpr
  unfold joinPath
  split
  · rename_i empty
    rw [List.isEmpty_iff.mp empty, List.suffix_nil] at suffix
    cases suffix
  split
  · exact suffix
  split
  · exact suffix
  split <;> exact suffix.trans (List.suffix_append _ _)

theorem mem_listedSources {x : Option (Except ByteString (List RepoSource))}
    (h : (name, x) ∈ listedSources dir) : Visible name := by
  unfold listedSources at h
  obtain ⟨name', mem, same⟩ := List.mem_map.mp h
  rw [List.mem_insertionSort, List.mem_filter, mem_listDir] at mem
  obtain ⟨rfl, -⟩ := Prod.mk.inj same
  exact ⟨mem.2, mem.1.2⟩

/-- A valid file with a name that is seen is listed. -/
theorem listed_of_visible (visible : Visible name) (mem : name ∈ dir.entries)
    (regular : isFile (dir.at name) = true)
    (valid : parseSingleRepoFile (joinPath getSourcesDir name) (dir.at name) = .ok src) :
    Listed dir name src := by
  have loaded : loadSourceFile (joinPath getSourcesDir name) (dir.at name) = .ok [src] := by
    unfold loadSourceFile
    simp only [repoName_joinPath visible.1, Bool.not_true, Bool.false_eq_true, if_false]
    rw [valid]
    rfl
  have there : (name, some (.ok [src])) ∈ listedSources dir := by
    unfold listedSources
    apply List.mem_map.mpr
    refine ⟨name, ?_, ?_⟩
    · rw [List.mem_insertionSort, List.mem_filter, mem_listDir]
      exact ⟨⟨mem, visible.2⟩, visible.1⟩
    · simp only [regular, Bool.not_true, Bool.false_eq_true, if_false]
      rw [loaded]
  refine ⟨there, ?_⟩
  obtain ⟨before, after, split⟩ := List.append_of_mem there
  have line : listedText (name, some (.ok [src])) =
      (sourceLine name 1 0 src).dropLast ++ str "\n" := by
    have ends : ∃ front, sourceLine name 1 0 src = front ++ str "\n" := ⟨_, rfl⟩
    obtain ⟨front, ends⟩ := ends
    have whole : listedText (name, some (.ok [src])) = sourceLine name 1 0 src := by
      simp [listedText]
    rw [whole, ends]
    have single : str "\n" = [chr '\n'] := rfl
    rw [single, List.dropLast_concat]
  have shown : (listedSources dir).isEmpty = false := by
    rw [split]
    simp
  unfold buildRepoSourceListResponseMessage
  simp only [shown, Bool.false_eq_true, if_false]
  rw [split, List.flatMap_append, List.flatMap_cons, line]
  have nonempty : str "\n" ++ after.flatMap listedText ≠ [] := by simp [str]
  rw [List.append_assoc _ (str "\n"), ← List.append_assoc, ← List.append_assoc,
    List.dropLast_append_of_ne_nil nonempty]
  exact ⟨str "Repository sources:\n" ++ before.flatMap listedText,
    (str "\n" ++ after.flatMap listedText).dropLast, rfl⟩

/-- The loop over valid files loads them all. -/
theorem loadNames_valid (names : List ByteString) (out : List RepoSource)
    (valid : ∀ name ∈ names, isRepoName name = true → Valid dir name) :
    ∃ sources, loadNames dir names out = .ok (out ++ sources) ∧
      ∀ name ∈ names, isRepoName name = true → ∀ src,
        parseSingleRepoFile (joinPath getSourcesDir name) (dir.at name) = .ok src →
          src ∈ sources := by
  induction names generalizing out with
  | nil => exact ⟨[], by rw [List.append_nil]; rfl, fun _ mem => nomatch mem⟩
  | cons first names ih =>
    obtain ⟨here, later⟩ := List.forall_mem_cons.mp valid
    unfold loadNames
    by_cases named : isRepoName first = true
    · obtain ⟨src, parsed⟩ := here named
      obtain ⟨sources, run, all⟩ := ih (out ++ [src]) later
      refine ⟨src :: sources, ?_, ?_⟩
      · simp only [named, Bool.not_true, Bool.false_eq_true, if_false]
        rw [parsed]
        simpa using run
      · intro name mem repo src' parsed'
        rcases List.mem_cons.mp mem with rfl | mem
        · rw [parsed] at parsed'
          cases parsed'
          exact List.mem_cons_self
        · exact List.mem_cons_of_mem _ (all name mem repo src' parsed')
    · obtain ⟨sources, run, all⟩ := ih out later
      refine ⟨sources, ?_, ?_⟩
      · rw [if_pos (by simpa using named)]
        exact run
      · intro name mem repo
        rcases List.mem_cons.mp mem with rfl | mem
        · exact absurd repo named
        · exact all name mem repo

/-- A valid file with a name that is seen is loaded, if the others are valid. -/
theorem loaded_of_visible (visible : Visible name) (mem : name ∈ dir.entries)
    (valid : parseSingleRepoFile (joinPath getSourcesDir name) (dir.at name) = .ok src)
    (others : ∀ other ∈ dir.entries, Visible other → Valid dir other) : Loaded dir src := by
  have listed : name ∈ dir.listDir := mem_listDir.mpr ⟨mem, visible.2⟩
  obtain ⟨sources, run, all⟩ := loadNames_valid dir.listDir [] fun other mem repo =>
    others other (mem_listDir.mp mem).1 ⟨repo, (mem_listDir.mp mem).2⟩
  have some : dir.listDir.any isRepoName = true :=
    List.any_eq_true.mpr ⟨name, listed, visible.1⟩
  refine ⟨sources, ?_, all name listed visible.1 src valid⟩
  unfold loadSourcesList
  simp only [run, some, Bool.not_true, Bool.false_eq_true, if_false, List.nil_append]

/-- A name that is seen is one that requests may give. -/
theorem Visible.repoFileName (visible : Visible name) (noSlash : chr '/' ∉ name)
    (noBackslash : chr '\\' ∉ name) : RepoFileName name := by
  refine ⟨visible.1, ?_, noSlash, noBackslash⟩
  obtain ⟨front, rfl⟩ := List.isSuffixOf_iff_suffix.mp visible.1
  cases front with
  | nil => exact absurd rfl visible.2
  | cons c front =>
    have five : (str ".repo").length = 5 := rfl
    rw [List.length_append, List.length_cons, five]
    omega

theorem removable_of_repoFileName (normal : RepoFileName name) (mem : name ∈ dir.entries)
    (regular : isFile (dir.at name) = true) : Removable dir name := by
  have same : cString name = name := cString_of_noNul (dir.plain name mem).noNul
  have present : pathExists (dir.at name) = true := by
    revert regular
    unfold isFile pathExists
    cases dir.at name with
    | none => exact id
    | some item =>
      intro regular
      simp only [beq_iff_eq] at regular
      simp [regular]
  have run : ∃ message dir', removeRepoSourceFile none name dir = (.ok message, dir') ∧
      dir'.entries = dir.entries.erase name := by
    unfold removeRepoSourceFile
    rw [normalize_of_normal normal]
    simp only [present, regular, Bool.not_true, Bool.false_eq_true, if_false]
    exact ⟨_, _, rfl, congrArg (fun name => dir.entries.erase name) same⟩
  obtain ⟨message, dir', run, erased⟩ := run
  refine ⟨mem, message, dir', run, fun other => ?_⟩
  rw [erased]
  split
  · rename_i equal
    rw [equal, AList.lookup_erase]
  · rename_i differs
    exact AList.lookup_erase_ne differs

end Dir

/-! ### The four routines -/

/-- The directory is as an addition left it. -/
theorem added_at (host : AddHost) (dir : SourcesDir) {name : ByteString} (plain : PlainName name) :
    (dir.insert name plain (addedItem host)).at name = some (addedItem host) := by
  have same : cString name = name := cString_of_noNul plain.noNul
  unfold SourcesDir.at SourcesDir.insert
  rw [same, if_pos plain]
  exact AList.lookup_insert _

/-- The other files stay as they were. -/
theorem valid_insert {dir : SourcesDir} {name other : ByteString} {plain : PlainName name}
    {item : Item} (differs : other ≠ name) (plain' : PlainName other) :
    Valid (dir.insert name plain item) other ↔ Valid dir other := by
  have same : cString other = other := cString_of_noNul plain'.noNul
  have there : (dir.insert name plain item).at other = dir.at other := by
    unfold SourcesDir.at SourcesDir.insert
    rw [same, if_pos plain', if_pos plain']
    exact AList.lookup_insert_ne differs
  rw [Valid, Valid, there]

/-- **The four routines agree** on a source that was added among valid ones exactly if the name
that the system sees of it ends in `.repo` and begins with no dot. A name that is yielded for a
removal is yielded again and is one component. -/
theorem repoSources_agree (host : AddHost) (sourcePath : ByteString) (dir : Option SourcesDir) :
    (∀ input name, normalizeRepoSourceName input = .ok name →
      normalizeRepoSourceName name = .ok name ∧ pathSteps name = [.down name] ∧
        (PlainName (cString name) ↔ cString input ∉ [[], str ".", str ".."])) ∧
    ∀ message dir',
      addRepoSourceFile host sourcePath dir = (.ok message, some dir') →
      (∀ other ∈ (dir.getD .empty).entries, Visible other → Valid (dir.getD .empty) other) →
      ∃ src, parseSingleRepoFile sourcePath host.source = .ok src ∧
        (Listed dir' (cString (baseName sourcePath)) src ∧ Loaded dir' src ∧
            Removable dir' (cString (baseName sourcePath)) ↔
          Visible (cString (baseName sourcePath))) := by
  refine ⟨fun input name => normalizeRepoSourceName_spec, ?_⟩
  intro message dir' added others
  obtain ⟨plain, src, parsed, noSlash, noBackslash, fresh, made⟩ := addRepoSourceFile_ok added
  obtain rfl := Option.some.inj made
  refine ⟨src, parsed, fun agree => mem_listedSources agree.1.1, fun visible => ?_⟩
  have item := added_at host (dir.getD .empty) plain
  have mem : cString (baseName sourcePath) ∈ ((dir.getD .empty).insert _ plain
      (addedItem host)).entries := (AList.mem_insert _).mpr (.inl rfl)
  have regular : isFile (((dir.getD .empty).insert _ plain (addedItem host)).at
      (cString (baseName sourcePath))) = true := by
    rw [item]
    rfl
  have valid : parseSingleRepoFile (joinPath getSourcesDir (cString (baseName sourcePath)))
      (((dir.getD .empty).insert _ plain (addedItem host)).at (cString (baseName sourcePath))) =
        .ok src := by
    rw [item]
    exact parseSingleRepoFile_path _ parsed
  have name := visible.repoFileName plain.noSlash
    fun mem => noBackslash ((List.takeWhile_prefix _).mem mem)
  refine ⟨listed_of_visible visible mem regular valid, loaded_of_visible visible mem valid ?_,
    removable_of_repoFileName name mem regular⟩
  intro other present seen
  by_cases same : other = cString (baseName sourcePath)
  · rw [same]
    exact ⟨src, valid⟩
  · have before := ((AList.mem_insert _).mp present).resolve_left same
    exact (valid_insert same ((dir.getD .empty).plain other before)).mpr (others other before seen)

/-- A source that is hidden. -/
def hiddenHost : AddHost where
  source := some ⟨.regular, some (str "type=deb\nurl=https://r\nsuites=stable,main\n")⟩
  createsDir := true
  copyErr := none

/-- It is added, and neither listed nor loaded. -/
theorem hidden_source_lost :
    ∃ message dir', addRepoSourceFile hiddenHost (str "/sdcard/.x.repo") none =
        (.ok message, some dir') ∧
      str ".x.repo" ∈ dir'.entries ∧
      buildRepoSourceListResponseMessage (some dir') = str "No repository sources configured." ∧
      loadSourcesList (some dir') =
        .error (str "No valid .repo sources in directory: /data/apm/sources") := by
  refine ⟨_, _, rfl, ?_, ?_, ?_⟩
  · decide +kernel
  · decide +kernel
  · rfl

end Apm.Daemon.Sources
