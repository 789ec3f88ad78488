import Apm.Core.ManualPackage
import Apm.Core.Package
import Apm.Install.Payload
import Apm.Lib.Run
import Apm.Lib.Text
import Apm.Util.Disk
import Mathlib.Data.List.Destutter

/-!
The command directory: the shims of `src/apmd/export_path.cpp` and the wrappers of
`src/apmd/install_manager.cpp`.

What the packages hold and what the status file, the manual packages and the command index read as
are arbitrary at every rebuild. What is executable in the system paths does not change. Warnings
that are only shown, modes, owners and the shell hooks are left out.

## Main results

* `bin_clear`: no shim ever has the name of a command in the system paths, and no wrapper has as
  long as no installed Termux payload has such a command.
-/

namespace Apm.Shims

open Apm.Repo Apm.Fs Apm.Config Apm.Status Apm.Lib.Run
open Apm.Install (commandOf)

/-! ### Commands in the system paths -/

def isLikelyCommandName (name : ByteString) : Bool :=
  !name.isEmpty && name != str "." && name != str ".." && !name.contains (chr '/') &&
    name.all fun c => !(c ≤ 32 || c == 127)

/-- The environment of the daemon and the directories of the system. -/
structure System where
  searchPath : ByteString
  isDirectory : ByteString → Bool
  isExecutableFile : ByteString → Bool

def isSpace (c : UInt8) : Bool := c == chr ' ' || c == chr '\t' || c == chr '\n' || c == chr '\r'

def trim (s : ByteString) : ByteString := Lib.Text.strip isSpace s

def kDefaultSystemDirs : List ByteString :=
  ["/system/bin", "/system/xbin", "/vendor/bin", "/odm/bin", "/product/bin",
    "/apex/com.android.runtime/bin", "/apex/com.android.art/bin", "/usr/bin", "/bin"].map str

/-- `buildSystemSearchDirs`. -/
def System.searchDirs (sys : System) : List ByteString :=
  let parts := (sys.searchPath.splitOn (chr ':')).map trim
  let unique := ((parts.filter fun part => !part.isEmpty) ++ kDefaultSystemDirs)
    |>.insertionSort (· ≤ ·) |>.dedup
  unique.filter fun dir => dir != getApmBinDir && sys.isDirectory dir

/-- Is a command of that name in the system paths? -/
def System.hasCommand (sys : System) (name : ByteString) : Bool :=
  sys.searchDirs.any fun dir => sys.isExecutableFile (joinPath dir name)

def commandExistsInSystemPaths (sys : System) (name : ByteString) : Bool :=
  isLikelyCommandName name && sys.hasCommand name

/-! ### Commands of packages -/

/-- What a rebuild sees of the disk, and which of its actions work. -/
structure View where
  status : Except ByteString InstalledDb
  manual : Except ByteString (List Manual.PackageInfo)
  readFile : ByteString → Option ByteString
  pathExists : ByteString → Bool
  isDirectory : ByteString → Bool
  isExecutableFile : ByteString → Bool
  /-- `listDir` without hidden names. -/
  listDir : ByteString → List ByteString
  /-- Can this file of the command directory be read? -/
  readable : ByteString → Bool
  shimWritten : ByteString → Bool
  shimRemoved : ByteString → Bool
  /-- The file of the command directory that a path with slashes leads to. -/
  leads : ByteString → Option ByteString

structure CommandCandidate where
  packageName : ByteString
  commandName : ByteString
  binaryPath : ByteString
  termuxPackage : Bool
deriving DecidableEq

/-- The commands found so far, and the keys they are known by. -/
structure Found where
  out : List CommandCandidate := []
  seenKeys : List ByteString := []

/-- Add a command, unless the package has one of that name. -/
def Found.add (found : Found) (candidate : CommandCandidate) : Found :=
  let dedupeKey := candidate.packageName ++ str "\n" ++ candidate.commandName
  if dedupeKey ∈ found.seenKeys then found
  else { out := found.out ++ [candidate], seenKeys := dedupeKey :: found.seenKeys }

variable (view : View)

def discoverExecutablesInDir (packageName dir : ByteString) (found : Found) : Found :=
  if view.isDirectory dir then
    (view.listDir dir).foldl (fun found entry =>
      if isLikelyCommandName entry && view.isExecutableFile (joinPath dir entry) then
        found.add ⟨packageName, entry, joinPath dir entry, false⟩
      else found) found
  else found

def fallbackInstallRoot (pkg : InstalledPackage) : ByteString :=
  let cmdRoot := joinPath getCommandsDir pkg.name
  let depRoot := joinPath getDependenciesDir pkg.name
  if !pkg.installRoot.isEmpty then pkg.installRoot
  else if pkg.termuxPackage then joinPath getTermuxInstalledDir pkg.name
  else if view.pathExists cmdRoot then cmdRoot
  else if view.pathExists depRoot then depRoot
  else joinPath getInstalledDir pkg.name

def discoverTermuxPackageCommands (pkg : InstalledPackage) (found : Found) : Found :=
  let manifestPath := joinPath (fallbackInstallRoot view pkg) (str "files.list")
  let lines := (getlines (chr '\n') ((view.readFile manifestPath).getD [])).map trim
  lines.foldl (fun found line =>
    match commandOf line with
    | none => found
    | some commandName =>
        let binaryPath := joinPath getTermuxRoot line
        if isLikelyCommandName commandName && view.isExecutableFile binaryPath then
          found.add ⟨pkg.name, commandName, binaryPath, true⟩
        else found) found

def kCandidateDirs : List ByteString :=
  ["usr/bin", "bin", "usr/sbin", "sbin", "data/data/com.termux/files/usr/bin"].map str

def discoverRegularPackageCommands (packageName installRoot : ByteString) (found : Found) : Found :=
  kCandidateDirs.foldl (fun found relDir =>
    discoverExecutablesInDir view packageName (joinPath installRoot relDir) found) found

/-- The commands of one recorded package. -/
def discoverPackageCommands (db : InstalledDb) (found : Found) (name : ByteString) : Found :=
  match db.lookup name with
  | none => found
  | some pkg =>
      if pkg.termuxPackage then discoverTermuxPackageCommands view pkg found
      else discoverRegularPackageCommands view name (fallbackInstallRoot view pkg) found

def discoverStatusCommands : List CommandCandidate :=
  match view.status with
  | .error _ => []
  | .ok db =>
      ((db.keys.insertionSort (· ≤ ·)).foldl (discoverPackageCommands view db) {}).out

def discoverManualCommands : List CommandCandidate :=
  match view.manual with
  | .error _ => []
  | .ok pkgs =>
      (pkgs.foldl (fun found pkg =>
        if pkg.name.isEmpty || pkg.prefixDir.isEmpty then found
        else discoverRegularPackageCommands view pkg.name pkg.prefixDir found) {}).out

/-! ### Names of shims -/

inductive CommandCollisionResult where
  | canonical | namespaced | skipped
deriving DecidableEq

structure ShimDecision where
  packageName : ByteString
  commandName : ByteString
  binaryPath : ByteString
  shimName : ByteString := []
  mode : CommandCollisionResult := .skipped
  warning : ByteString := []
  sourceTermuxEnv : Bool

def makeNamespacedCommand (packageName commandName : ByteString) : ByteString :=
  if packageName.isEmpty || commandName.isEmpty then []
  else packageName ++ str "-" ++ commandName

/-- The decisions so far, and the names that are taken. -/
structure Assigned where
  decisions : List ShimDecision := []
  assignedNames : List ByteString := []

variable (sys : System)

/-- Decide about one provider of a command. Only the first one may get the command's name. -/
def decideProvider (first : Bool) (acc : Assigned) (provider : CommandCandidate) : Assigned :=
  let commandName := provider.commandName
  let skipped : ShimDecision :=
    { packageName := provider.packageName, commandName, binaryPath := provider.binaryPath,
      sourceTermuxEnv := provider.termuxPackage }
  let namespaced := makeNamespacedCommand provider.packageName commandName
  let skip (warning : ByteString) : Assigned :=
    { acc with decisions := acc.decisions ++ [{ skipped with warning }] }
  let take (shimName : ByteString) (mode : CommandCollisionResult) (warning : ByteString) :
      Assigned :=
    { decisions := acc.decisions ++ [{ skipped with shimName, mode, warning }],
      assignedNames := shimName :: acc.assignedNames }
  if first && commandName ∉ acc.assignedNames then take commandName .canonical []
  else if !isLikelyCommandName namespaced then
    skip (str "Unable to generate valid namespaced shim for '" ++ provider.packageName ++ str "/" ++
      commandName ++ str "'")
  else if commandExistsInSystemPaths sys namespaced then
    skip (str "Namespaced shim collides with system command: '" ++ namespaced ++ str "'")
  else if namespaced ∈ acc.assignedNames then
    skip (str "Namespaced shim already assigned: '" ++ namespaced ++ str "'")
  else
    take namespaced .namespaced (if first then
      str "Canonical shim already reserved for command '" ++ commandName ++ str "'" else [])

/-- The order of providers of one command. -/
def CommandCandidate.Before (a b : CommandCandidate) : Prop :=
  a.packageName < b.packageName ∨ a.packageName = b.packageName ∧ a.binaryPath ≤ b.binaryPath

instance : DecidableRel CommandCandidate.Before :=
  fun a b => inferInstanceAs (Decidable (a.packageName < b.packageName ∨ _))

def CommandCandidate.Differs (a b : CommandCandidate) : Prop :=
  ¬ (a.packageName = b.packageName ∧ a.commandName = b.commandName ∧ a.binaryPath = b.binaryPath)

instance : DecidableRel CommandCandidate.Differs := fun _ _ => inferInstanceAs (Decidable (¬ _))

/-- Decide about the providers of one command. -/
def decideCommand (candidates : List CommandCandidate) (acc : Assigned) (commandName : ByteString) :
    Assigned :=
  let providers := (candidates.filter (·.commandName == commandName))
    |>.insertionSort CommandCandidate.Before |>.destutter CommandCandidate.Differs
  if commandExistsInSystemPaths sys commandName then
    let warning := str "System command collision for '" ++ commandName ++
      str "'; shim creation skipped"
    { acc with decisions := acc.decisions ++ providers.map fun provider =>
        { packageName := provider.packageName, commandName := provider.commandName,
          binaryPath := provider.binaryPath, warning, sourceTermuxEnv := provider.termuxPackage } }
  else
    match providers with
    | [] => acc
    | provider :: others =>
        others.foldl (decideProvider sys false) (decideProvider sys true acc provider)

def decideShims (candidates : List CommandCandidate) : List ShimDecision :=
  let commandNames := (candidates.map (·.commandName)).insertionSort (· ≤ ·) |>.dedup
  (commandNames.foldl (decideCommand sys candidates) {}).decisions

/-! ### The command directory -/

inductive Writer where
  | shim | wrapper | other
deriving DecidableEq

/-- A file, and who has written it. -/
structure BinFile where
  writer : Writer
  text : ByteString
deriving DecidableEq

abbrev BinDir := AList fun _ : ByteString => BinFile

def shellQuote (value : ByteString) : ByteString :=
  str "'" ++ value.flatMap (fun c => if c == chr '\'' then str "'\\''" else [c]) ++ str "'"

def shimText (decision : ShimDecision) : ByteString :=
  str "#!/system/bin/sh\n" ++ str "# apm-managed-shim\n" ++
  (if decision.sourceTermuxEnv then
    str "if [ -f " ++ shellQuote getTermuxEnvFile ++ str " ]; then\n" ++
    str "  . " ++ shellQuote getTermuxEnvFile ++ str "\n" ++ str "fi\n" else []) ++
  str "exec " ++ shellQuote decision.binaryPath ++ str " \"$@\"\n"

/-- The names in a command index. The fuel is the length of the text. -/
def shimNames : Nat → ByteString → List ByteString
  | 0, _ => []
  | fuel + 1, content =>
      match Lib.Text.breakOn (str "\"shim\"") content with
      | none => []
      | some (_, found) =>
          let quoted := (found.dropWhile (· != chr ':')).dropWhile (· != chr '"')
          match quoted.tail.splitOn (chr '"') with
          | value :: rest@(_ :: _) =>
              let names := shimNames fuel ((str "\"").intercalate rest)
              if value.isEmpty then names else value :: names
          | _ => []

def loadShimsFromManifest (path : ByteString) : List ByteString :=
  match view.readFile path with
  | none => []
  | some content => shimNames content.length content

def loadManagedShimsFromBinDir (bin : BinDir) : List ByteString :=
  bin.entries.filterMap fun kv =>
    if !Fs.hidden kv.1 && isLikelyCommandName kv.1 && view.readable kv.1 &&
      contains kv.2.text (str "# apm-managed-shim") then some kv.1 else none

/-- `writeAtomicFile`, where it works: the file is written under a temporary name first. -/
def writeAtomicFile (bin : BinDir) (name : ByteString) (file : BinFile) : BinDir :=
  (bin.erase (name ++ str ".tmp")).insert name file

/-- Write one shim: the directory, and the names written so far. -/
def writeShim (x : BinDir × List ByteString) (decision : ShimDecision) : BinDir × List ByteString :=
  if decision.mode = .skipped || !view.shimWritten decision.shimName then x
  else (writeAtomicFile x.1 decision.shimName ⟨.shim, shimText decision⟩,
    decision.shimName :: x.2)

/-- The file of the command directory that a name in the command index stands for. -/
def binFile (oldShim : ByteString) : Option ByteString :=
  if chr '/' ∈ oldShim then view.leads oldShim else some oldShim

def removeStale (newManaged : List ByteString) (bin : BinDir) (oldShim : ByteString) : BinDir :=
  if oldShim ∈ newManaged || !view.shimRemoved oldShim then bin
  else
    match binFile view oldShim with
    | none => bin
    | some name => bin.erase name

def getCommandIndexFile : ByteString := str "/data/apm/sandbox/state/command-index.json"

/-- `rebuild_command_index_and_shims`, by what it does to the command directory, for the commands
that are found. -/
def rebuildFor (candidates : List CommandCandidate) (bin : BinDir) : BinDir :=
  let oldManaged := loadShimsFromManifest view getCommandIndexFile ++
    loadManagedShimsFromBinDir view bin
  let (bin, newManaged) := (decideShims sys candidates).foldl (writeShim view) (bin, [])
  oldManaged.foldl (removeStale view newManaged) bin

def rebuildShims (bin : BinDir) : BinDir :=
  rebuildFor view sys (discoverStatusCommands view ++ discoverManualCommands view) bin

/-! ### Wrappers -/

def wrapperText (commandName : ByteString) : ByteString :=
  str "#!/system/bin/sh\n" ++ str ". " ++ getTermuxEnvFile ++ str "\n" ++
  str "exec " ++ getTermuxPrefix ++ str "/bin/" ++ commandName ++ str " \"$@\"\n"

/-- A package that is installed: the paths whose wrappers are removed before, and the paths of a
Termux payload. -/
structure Payload where
  removed : List ByteString := []
  installedPaths : List ByteString := []

variable (write : ByteString → WriteAnswer)

def createTermuxWrapper (bin : BinDir) (commandName : ByteString) : BinDir :=
  match write commandName with
  | .written => bin.insert commandName ⟨.wrapper, wrapperText commandName⟩
  | .refused => bin
  | .damaged _ left => bin.insert commandName ⟨.wrapper, left⟩

/-- What `installSinglePackage` does to the command directory. -/
def placeWrappers (bin : BinDir) (payload : Payload) : BinDir :=
  (payload.installedPaths.filterMap commandOf).foldl (createTermuxWrapper write)
    ((payload.removed.filterMap commandOf).foldl (fun bin name => bin.erase name) bin)

/-- An install: the packages of a plan, or none where a manual package is installed. -/
structure Install where
  payloads : List Payload
  write : ByteString → WriteAnswer
  view : View

def install (bin : BinDir) (event : Install) : BinDir :=
  rebuildShims event.view sys (event.payloads.foldl (placeWrappers event.write) bin)

/-! ### Every command that is found has a plain name -/

section Names

variable {view}

/-- The names of commands are plain. -/
def Likely (candidates : List CommandCandidate) : Prop :=
  ∀ candidate ∈ candidates, isLikelyCommandName candidate.commandName

def Found.Likely (found : Found) : Prop := Shims.Likely found.out

theorem Found.likely_empty : Found.Likely {} := by
  intro candidate mem
  cases mem

theorem Found.Likely.add {found : Found} (h : found.Likely) {candidate : CommandCandidate}
    (likely : isLikelyCommandName candidate.commandName) : (found.add candidate).Likely := by
  unfold Found.add
  dsimp only
  split
  · exact h
  · intro c mem
    rcases List.mem_append.mp mem with mem | mem
    · exact h c mem
    · rw [List.mem_singleton.mp mem]
      exact likely

theorem Found.Likely.executables {found : Found} (h : found.Likely) {packageName dir : ByteString} :
    (discoverExecutablesInDir view packageName dir found).Likely := by
  unfold discoverExecutablesInDir
  split
  · apply List.foldlRecOn
    · exact h
    · intro found h entry _
      split
      · rename_i checks
        apply h.add
        simp only [Bool.and_eq_true] at checks
        exact checks.1
      · exact h
  · exact h

theorem Found.Likely.termux {found : Found} (h : found.Likely) {pkg : InstalledPackage} :
    (discoverTermuxPackageCommands view pkg found).Likely := by
  unfold discoverTermuxPackageCommands
  apply List.foldlRecOn
  · exact h
  · intro found h line _
    split
    · exact h
    · dsimp only
      split
      · rename_i checks
        apply h.add
        simp only [Bool.and_eq_true] at checks
        exact checks.1
      · exact h

theorem Found.Likely.regular {found : Found} (h : found.Likely)
    {packageName installRoot : ByteString} :
    (discoverRegularPackageCommands view packageName installRoot found).Likely := by
  unfold discoverRegularPackageCommands
  apply List.foldlRecOn
  · exact h
  · intro found h relDir _
    exact h.executables

theorem Found.Likely.package {found : Found} (h : found.Likely) {db : InstalledDb}
    {name : ByteString} : (discoverPackageCommands view db found name).Likely := by
  unfold discoverPackageCommands
  split
  · exact h
  · split
    · exact h.termux
    · exact h.regular

theorem likely_status : Likely (discoverStatusCommands view) := by
  unfold discoverStatusCommands
  split
  · simp [Likely]
  · apply List.foldlRecOn (motive := Found.Likely)
    · exact Found.likely_empty
    · intro found h name _
      exact h.package

theorem likely_manual : Likely (discoverManualCommands view) := by
  unfold discoverManualCommands
  split
  · simp [Likely]
  · apply List.foldlRecOn (motive := Found.Likely)
    · exact Found.likely_empty
    · intro found h pkg _
      split
      · exact h
      · exact h.regular

end Names

/-! ### Shims do not hide commands -/

section Decisions

variable {sys}

/-- The warnings there are about a provider. -/
def warningsAbout (provider : CommandCandidate) : List ByteString :=
  let namespaced := makeNamespacedCommand provider.packageName provider.commandName
  [[],
    str "System command collision for '" ++ provider.commandName ++
      str "'; shim creation skipped",
    str "Unable to generate valid namespaced shim for '" ++ provider.packageName ++ str "/" ++
      provider.commandName ++ str "'",
    str "Namespaced shim collides with system command: '" ++ namespaced ++ str "'",
    str "Namespaced shim already assigned: '" ++ namespaced ++ str "'",
    str "Canonical shim already reserved for command '" ++ provider.commandName ++ str "'"]

/-- What can be decided about a provider. -/
structure Decided (sys : System) (provider : CommandCandidate) (decision : ShimDecision) :
    Prop where
  package : decision.packageName = provider.packageName
  command : decision.commandName = provider.commandName
  binary : decision.binaryPath = provider.binaryPath
  warning : decision.warning ∈ warningsAbout provider
  name : decision.mode = .skipped ∧ decision.shimName = [] ∨
    commandExistsInSystemPaths sys decision.shimName = false ∧
      (decision.shimName = provider.commandName ∨ isLikelyCommandName decision.shimName ∧
        decision.shimName = makeNamespacedCommand provider.packageName provider.commandName)

/-- The name that is decided on for a provider, and what is assigned then. -/
inductive Turn (sys : System) (first : Bool) (acc : Assigned) (provider : CommandCandidate)
    (decision : ShimDecision) : Assigned → Prop
  | canonical (isFirst : first = true) (free : provider.commandName ∉ acc.assignedNames)
      (mode : decision.mode = .canonical) (name : decision.shimName = provider.commandName) :
      Turn sys first acc provider decision
        ⟨acc.decisions ++ [decision], decision.shimName :: acc.assignedNames⟩
  | skipped (reserved : first = true → provider.commandName ∈ acc.assignedNames)
      (refused : isLikelyCommandName
          (makeNamespacedCommand provider.packageName provider.commandName) →
        commandExistsInSystemPaths sys
          (makeNamespacedCommand provider.packageName provider.commandName) = false →
        makeNamespacedCommand provider.packageName provider.commandName ∈ acc.assignedNames)
      (mode : decision.mode = .skipped) (name : decision.shimName = []) :
      Turn sys first acc provider decision ⟨acc.decisions ++ [decision], acc.assignedNames⟩
  | namespaced (reserved : first = true → provider.commandName ∈ acc.assignedNames)
      (likely : isLikelyCommandName decision.shimName)
      (clear : commandExistsInSystemPaths sys decision.shimName = false)
      (free : decision.shimName ∉ acc.assignedNames) (mode : decision.mode = .namespaced)
      (name : decision.shimName =
        makeNamespacedCommand provider.packageName provider.commandName) :
      Turn sys first acc provider decision
        ⟨acc.decisions ++ [decision], decision.shimName :: acc.assignedNames⟩

/-- The decision is about the provider. -/
structure About (provider : CommandCandidate) (decision : ShimDecision) : Prop where
  package : decision.packageName = provider.packageName
  command : decision.commandName = provider.commandName
  binary : decision.binaryPath = provider.binaryPath
  warning : decision.warning ∈ warningsAbout provider

/-- **The turn of a provider.** -/
theorem decideProvider_turn (sys : System) (first : Bool) (acc : Assigned)
    (provider : CommandCandidate) :
    ∃ decision acc', About provider decision ∧ Turn sys first acc provider decision acc' ∧
      decideProvider sys first acc provider = acc' := by
  unfold decideProvider
  dsimp only
  split
  · rename_i free
    simp only [Bool.and_eq_true, decide_eq_true_eq] at free
    exact ⟨_, _, ⟨rfl, rfl, rfl, by simp [warningsAbout]⟩, .canonical free.1 free.2 rfl rfl, rfl⟩
  · rename_i taken
    have reserved : first = true → provider.commandName ∈ acc.assignedNames := by
      intro isFirst
      by_contra free
      exact taken (by simp [isFirst, free])
    split
    · rename_i unlikely
      refine ⟨_, _, ⟨rfl, rfl, rfl, by simp [warningsAbout]⟩, .skipped reserved ?_ rfl rfl, rfl⟩
      intro likely
      simp [likely] at unlikely
    · rename_i likely
      split
      · rename_i collides
        refine ⟨_, _, ⟨rfl, rfl, rfl, by simp [warningsAbout]⟩, .skipped reserved ?_ rfl rfl, rfl⟩
        intro _ clear
        exact absurd (clear.symm.trans collides) nofun
      · rename_i clear
        split
        · rename_i assigned
          refine ⟨_, _, ⟨rfl, rfl, rfl, by simp [warningsAbout]⟩, .skipped reserved ?_ rfl rfl, rfl⟩
          exact fun _ _ => assigned
        · rename_i free
          refine ⟨_, _, ⟨rfl, rfl, rfl, ?_⟩, .namespaced reserved ?_ ?_ free rfl rfl, rfl⟩
          · dsimp only
            split <;> simp [warningsAbout]
          · simpa using likely
          · simpa using clear

theorem decideProvider_decided {first : Bool} {acc : Assigned} {provider : CommandCandidate}
    (absent : commandExistsInSystemPaths sys provider.commandName = false) :
    ∃ decision, (decideProvider sys first acc provider).decisions = acc.decisions ++ [decision] ∧
      Decided sys provider decision := by
  obtain ⟨decision, acc', ⟨package, command, binary, warning⟩, turn, eq⟩ :=
    decideProvider_turn sys first acc provider
  rw [eq]
  refine ⟨decision, ?_⟩
  cases turn with
  | canonical _ _ _ name =>
    exact ⟨rfl, package, command, binary, warning, .inr ⟨name ▸ absent, .inl name⟩⟩
  | skipped _ _ mode name => exact ⟨rfl, package, command, binary, warning, .inl ⟨mode, name⟩⟩
  | namespaced _ likely clear _ _ name =>
    exact ⟨rfl, package, command, binary, warning, .inr ⟨clear, .inr ⟨likely, name⟩⟩⟩

/-- Each decision is about a candidate. -/
def Assigned.Decides (sys : System) (candidates : List CommandCandidate) (acc : Assigned) : Prop :=
  ∀ decision ∈ acc.decisions, ∃ provider ∈ candidates, Decided sys provider decision

variable {candidates : List CommandCandidate}

theorem decides_decideProvider {first : Bool} {acc : Assigned} (h : acc.Decides sys candidates)
    {provider : CommandCandidate} (known : provider ∈ candidates)
    (absent : commandExistsInSystemPaths sys provider.commandName = false) :
    (decideProvider sys first acc provider).Decides sys candidates := by
  obtain ⟨decision, pushed, decided⟩ : ∃ decision, (decideProvider sys first acc
      provider).decisions = acc.decisions ++ [decision] ∧ Decided sys provider decision :=
    decideProvider_decided absent
  intro d mem
  rw [pushed] at mem
  rcases List.mem_append.mp mem with mem | mem
  · exact h d mem
  · rw [List.mem_singleton.mp mem]
    exact ⟨provider, known, decided⟩

theorem mem_providers {provider : CommandCandidate} {commandName : ByteString}
    (mem : provider ∈ ((candidates.filter (·.commandName == commandName))
      |>.insertionSort CommandCandidate.Before |>.destutter CommandCandidate.Differs)) :
    provider ∈ candidates ∧ provider.commandName = commandName := by
  have mem := (List.destutter_sublist _ _).subset mem
  rw [List.mem_insertionSort, List.mem_filter, beq_iff_eq] at mem
  exact mem

theorem decides_decideCommand {acc : Assigned} (h : acc.Decides sys candidates)
    (commandName : ByteString) :
    (decideCommand sys candidates acc commandName).Decides sys candidates := by
  unfold decideCommand
  dsimp only
  split
  · intro decision mem
    rcases List.mem_append.mp mem with mem | mem
    · exact h decision mem
    · obtain ⟨provider, here, rfl⟩ := List.mem_map.mp mem
      obtain ⟨known, name⟩ := mem_providers here
      exact ⟨provider, known, rfl, rfl, rfl, by simp [warningsAbout, name], .inl ⟨rfl, rfl⟩⟩
  · rename_i absent
    have free : ∀ provider : CommandCandidate, provider.commandName = commandName →
        commandExistsInSystemPaths sys provider.commandName = false := by
      intro provider name
      rw [name]
      simpa using absent
    split
    · exact h
    · rename_i provider others providers
      have own : ∀ other ∈ provider :: others,
          other ∈ candidates ∧ other.commandName = commandName :=
        fun other mem => mem_providers (providers ▸ mem)
      obtain ⟨known, name⟩ := own provider List.mem_cons_self
      apply List.foldlRecOn
      · exact decides_decideProvider h known (free provider name)
      · intro acc h other mem
        obtain ⟨known, name⟩ := own other (List.mem_cons_of_mem _ mem)
        exact decides_decideProvider h known (free other name)

/-- **Each decision is about a candidate.** -/
theorem mem_decideShims {decision : ShimDecision} (mem : decision ∈ decideShims sys candidates) :
    ∃ provider ∈ candidates, Decided sys provider decision := by
  have decides : Assigned.Decides sys candidates
      (((candidates.map (·.commandName)).insertionSort (· ≤ ·) |>.dedup).foldl
        (decideCommand sys candidates) {}) := by
    apply List.foldlRecOn
    · simp [Assigned.Decides]
    · intro acc h commandName _
      exact decides_decideCommand h commandName
  exact decides decision mem

/-- The name of a shim is plain. -/
theorem likely_shimName (likely : Likely candidates) {decision : ShimDecision}
    (mem : decision ∈ decideShims sys candidates) (active : decision.mode ≠ .skipped) :
    isLikelyCommandName decision.shimName := by
  obtain ⟨provider, known, decided⟩ := mem_decideShims mem
  obtain ⟨skipped, -⟩ | ⟨-, name | ⟨plain, -⟩⟩ := decided.name
  · exact absurd skipped active
  · rw [name]
    exact likely provider known
  · exact plain

theorem hasCommand_of_not_exists {name : ByteString} (likely : isLikelyCommandName name)
    (not : commandExistsInSystemPaths sys name = false) : sys.hasCommand name = false := by
  unfold commandExistsInSystemPaths at not
  rw [likely, Bool.true_and] at not
  exact not

/-- The shims that are decided on have names that are not in the system paths. -/
theorem clear_decideShims (likely : Likely candidates) {decision : ShimDecision}
    (mem : decision ∈ decideShims sys candidates) (active : decision.mode ≠ .skipped) :
    sys.hasCommand decision.shimName = false := by
  obtain ⟨provider, known, decided⟩ := mem_decideShims mem
  apply hasCommand_of_not_exists (likely_shimName likely mem active)
  obtain ⟨skipped, -⟩ | ⟨absent, -⟩ := decided.name
  · exact absurd skipped active
  · exact absent

end Decisions

/-! ### The command directory stays clear -/

section Directory

variable {sys} {view} {write}

/-- No file by one of these writers has the name of a command in the system paths. -/
def Clear (sys : System) (writers : Writer → Prop) (bin : BinDir) : Prop :=
  ∀ name file, bin.lookup name = some file → writers file.writer → sys.hasCommand name = false

variable {writers : Writer → Prop} {bin : BinDir}

theorem Clear.erase (h : Clear sys writers bin) (name : ByteString) :
    Clear sys writers (bin.erase name) := by
  intro other file found
  by_cases same : other = name
  · subst same
    rw [AList.lookup_erase] at found
    cases found
  · rw [AList.lookup_erase_ne same] at found
    exact h other file found

theorem Clear.insert (h : Clear sys writers bin) {name : ByteString} {file : BinFile}
    (clear : writers file.writer → sys.hasCommand name = false) :
    Clear sys writers (bin.insert name file) := by
  intro other file' found written
  by_cases same : other = name
  · subst same
    rw [AList.lookup_insert, Option.some_inj] at found
    subst found
    exact clear written
  · rw [AList.lookup_insert_ne same] at found
    exact h other file' found written

/-- **A rebuild adds no shim that hides a command.** -/
theorem Clear.rebuildFor {candidates : List CommandCandidate} (likely : Likely candidates)
    (h : Clear sys writers bin) : Clear sys writers (rebuildFor view sys candidates bin) := by
  have written : Clear sys writers
      ((decideShims sys candidates).foldl (writeShim view) (bin, [])).1 := by
    apply List.foldlRecOn (motive := fun x : BinDir × List ByteString => Clear sys writers x.1)
    · exact h
    · intro x h decision mem
      unfold writeShim
      split
      · exact h
      · rename_i active
        apply (h.erase _).insert
        intro _
        apply clear_decideShims likely mem
        intro skipped
        simp [skipped] at active
  unfold Shims.rebuildFor
  apply List.foldlRecOn
  · exact written
  · intro bin h oldShim _
    unfold removeStale
    split
    · exact h
    · split
      · exact h
      · exact h.erase _

/-- The commands that are found have plain names. -/
theorem likely_found : Likely (discoverStatusCommands view ++ discoverManualCommands view) := by
  intro candidate mem
  rcases List.mem_append.mp mem with mem | mem
  · exact likely_status candidate mem
  · exact likely_manual candidate mem

theorem Clear.rebuildShims (h : Clear sys writers bin) :
    Clear sys writers (rebuildShims view sys bin) := h.rebuildFor likely_found

theorem Clear.createTermuxWrapper (h : Clear sys writers bin) {commandName : ByteString}
    (clear : writers .wrapper → sys.hasCommand commandName = false) :
    Clear sys writers (createTermuxWrapper write bin commandName) := by
  unfold Shims.createTermuxWrapper
  split
  · exact h.insert clear
  · exact h
  · exact h.insert clear

/-- What the payload has in `usr/bin` are not commands in the system paths. -/
def Payload.Clear (sys : System) (payload : Payload) : Prop :=
  ∀ rel ∈ payload.installedPaths, ∀ cmd ∈ commandOf rel, sys.hasCommand cmd = false

instance (payload : Payload) : Decidable (payload.Clear sys) :=
  inferInstanceAs (Decidable (∀ rel ∈ payload.installedPaths, ∀ cmd ∈ commandOf rel, _))

theorem Clear.placeWrappers (h : Clear sys writers bin) {payload : Payload}
    (clear : writers .wrapper → payload.Clear sys) :
    Clear sys writers (placeWrappers write bin payload) := by
  unfold Shims.placeWrappers
  apply List.foldlRecOn
  · apply List.foldlRecOn
    · exact h
    · intro bin h name _
      exact h.erase name
  · intro bin h cmd mem
    obtain ⟨rel, listed, isCommand⟩ := List.mem_filterMap.mp mem
    exact h.createTermuxWrapper fun written => clear written rel listed cmd isCommand

theorem Clear.install (h : Clear sys writers bin) {event : Install}
    (clear : writers .wrapper → ∀ payload ∈ event.payloads, payload.Clear sys) :
    Clear sys writers (install sys bin event) := by
  unfold Shims.install
  apply Clear.rebuildShims
  apply List.foldlRecOn
  · exact h
  · intro bin h payload mem
    exact h.placeWrappers fun written => clear written payload mem

end Directory

/-- **The command directory hides no command of the system**: its shims never do, whatever is
installed, and its wrappers do not if no Termux payload has such a command in `usr/bin`. -/
theorem bin_clear (sys : System) (bin : BinDir) (installs : List Install) :
    (Clear sys (· = .shim) bin → Always (install sys) (Clear sys (· = .shim)) bin installs) ∧
    (Clear sys (· ≠ .other) bin →
      EachStep (install sys) (fun _ event => ∀ payload ∈ event.payloads, payload.Clear sys)
        bin installs →
      Always (install sys) (Clear sys (· ≠ .other)) bin installs) := by
  constructor
  · intro clear
    apply always_of_step
    · intro bin event h
      apply h.install
      nofun
    · exact clear
  · intro clear each
    apply always_of_eachStep
    · intro bin event h payloads
      exact h.install fun _ => payloads
    · exact clear
    · exact each

/-! ### An install -/

/-- A system that has `ls`. -/
def lsSystem : System where
  searchPath := str "/system/bin"
  isDirectory dir := dir == str "/system/bin"
  isExecutableFile path := path == str "/system/bin/ls"

/-- A Termux package with one command. -/
def oneCommand (packageName command : String) : Install where
  payloads := [{ installedPaths := [str "usr/bin/" ++ str command] }]
  write _ := .written
  view :=
    { status := .ok (AList.singleton (str packageName)
        { name := str packageName, version := str "1.0", architecture := str "aarch64",
          status := str "install ok installed", termuxPackage := true })
      manual := .ok []
      readFile path :=
        if path = joinPath (joinPath getTermuxInstalledDir (str packageName)) (str "files.list")
        then some (str "usr/bin/" ++ str command ++ str "\n") else none
      pathExists _ := true
      isDirectory _ := true
      isExecutableFile _ := true
      listDir _ := []
      readable _ := true
      shimWritten _ := true
      shimRemoved _ := true
      leads _ := none }

theorem clear_empty (sys : System) (writers : Writer → Prop) : Clear sys writers ∅ := by
  intro name file found
  cases found

/-- A package with a command of its own gets its shim. -/
theorem bin_clear_htop :
    Always (install lsSystem) (Clear lsSystem (· ≠ .other)) ∅ [oneCommand "htop" "htop"] ∧
      (install lsSystem ∅ (oneCommand "htop" "htop")).keys = [str "htop"] := by
  constructor
  · apply (bin_clear lsSystem ∅ _).2
    · exact clear_empty lsSystem _
    · have payloads : ∀ payload ∈ (oneCommand "htop" "htop").payloads,
          payload.Clear lsSystem := by
        decide +kernel
      exact ⟨payloads, trivial⟩
  · decide +kernel

/-- **A Termux package with `ls` leaves a wrapper of that name**, where no shim is written. -/
theorem ls_hidden :
    ¬ Always (install lsSystem) (Clear lsSystem (· ≠ .other)) ∅ [oneCommand "coreutils" "ls"] := by
  intro always
  have wrapper : (install lsSystem ∅ (oneCommand "coreutils" "ls")).lookup (str "ls") =
      some ⟨.wrapper, wrapperText (str "ls")⟩ := by
    decide +kernel
  have clear := always.last (str "ls") _ wrapper nofun
  revert clear
  decide +kernel

end Apm.Shims
