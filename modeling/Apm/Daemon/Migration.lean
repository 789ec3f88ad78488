import Apm.Core.ManualPackage
import Apm.Core.Package
import Apm.Lib.Run

/-!
`src/apmd/apmd.cpp`: directories of older layouts are copied to the new one at every start of the
daemon.

Copying and removing work here. Modes, owners and directories without old copies are left out, and
so is the text of the status file.

## Main results

* `migration_spares_iff`: migrating twice is migrating once, and a start spares what was installed
  since the first one just when the old directory has it too.
-/

namespace Apm.Daemon.Migration

open Apm.Fs Apm.Config Apm.Status Apm.Manual
open Apm.Lib.FileTree (Entry)
open Apm.Lib.Run

/-! ### Directories -/

/-- The directories that are copied, and those that they are copied to. -/
inductive Place where
  | stagingInstalled | legacyInstalled | installed
  | stagingManual | legacyManual | manual
  | runtimeLogs | stagingLogs | logs
  | runtimeModuleLogs | stagingModuleLogs | moduleLogs
deriving DecidableEq

def kLegacyInstalledDir : ByteString := str "/data/apm/installed"
def kCurrentStagingInstalledDir : ByteString := str "/data/local/tmp/apm/installed"
def kLegacyTermuxPrefix : ByteString := str "/data/apm/installed/termux/usr"
def kCurrentStagingTermuxPrefix : ByteString := str "/data/local/tmp/apm/installed/termux/usr"

def Place.path : Place → ByteString
  | .stagingInstalled => kCurrentStagingInstalledDir
  | .legacyInstalled => kLegacyInstalledDir
  | .installed => getInstalledDir
  | .stagingManual => str "/data/local/tmp/apm/manual-packages"
  | .legacyManual => str "/data/apm/manual-packages"
  | .manual => MANUAL_PACKAGES_DIR
  | .runtimeLogs => str "/data/local/tmp/apm/runtime/logs"
  | .stagingLogs => str "/data/local/tmp/apm/logs"
  | .logs => str "/data/apm/logs"
  | .runtimeModuleLogs => str "/data/local/tmp/apm/runtime/ams/logs"
  | .stagingModuleLogs => str "/data/local/tmp/apm/ams/logs"
  | .moduleLogs => getModuleLogsDir

/-- `kLegacyLogsDir` is where the logs are now. -/
def kLegacyLogsDir : Place := .logs

/-- `kLegacyModuleLogsDir` is where the modules' logs are now. -/
def kLegacyModuleLogsDir : Place := .moduleLogs

abbrev Dirs := Place → Option Tree

def copyTreeRecursive (src : Tree) : Tree :=
  ⟨src.1.copyOnto .empty, by rw [Lib.FileTree.Dir.copyOnto_empty src.2]; exact src.2⟩

/-- `migrateDirectoryIfNeeded`: what is at the new path is removed, and the old directory copied
there. -/
def migrateDirectoryIfNeeded (legacy new : Place) (removeLegacyOnSuccess : Bool) (dirs : Dirs) :
    Dirs :=
  if legacy.path.isEmpty || new.path.isEmpty || legacy.path == new.path then dirs
  else
    match dirs legacy with
    | none => dirs
    | some tree =>
        let dirs := Function.update dirs new (some (copyTreeRecursive tree))
        if removeLegacyOnSuccess then Function.update dirs legacy none else dirs

/-- The calls of `migrateDirectoryIfNeeded`, in their order. -/
def migrations : List (Place × Place) :=
  [(.stagingInstalled, .installed), (.legacyInstalled, .installed),
   (.stagingManual, .manual), (.legacyManual, .manual),
   (.runtimeLogs, .logs), (.stagingLogs, .logs), (kLegacyLogsDir, .logs),
   (.runtimeModuleLogs, .moduleLogs), (.stagingModuleLogs, .moduleLogs),
   (kLegacyModuleLogsDir, .moduleLogs)]

def migrateDirectories (dirs : Dirs) : Dirs :=
  migrations.foldl (fun dirs pair => migrateDirectoryIfNeeded pair.1 pair.2 false dirs) dirs

/-! ### Recorded paths -/

def hasPathPrefix (path pathPrefix : ByteString) : Bool := pathPrefix.isPrefixOf path

def remapAnyPrefix (path : ByteString) (prefixes : List (ByteString × ByteString)) : ByteString :=
  match prefixes.find? fun entry => hasPathPrefix path entry.1 with
  | some entry => entry.2 ++ path.drop entry.1.length
  | none => path

def installedPrefixes : List (ByteString × ByteString) :=
  [(kCurrentStagingInstalledDir, getInstalledDir), (kLegacyInstalledDir, getInstalledDir)]

def termuxPrefixes : List (ByteString × ByteString) :=
  [(kCurrentStagingTermuxPrefix, getTermuxPrefix), (kLegacyTermuxPrefix, getTermuxPrefix)]

def migrateRecord (pkg : InstalledPackage) : InstalledPackage :=
  { pkg with
    installRoot := remapAnyPrefix pkg.installRoot installedPrefixes
    installPrefix := remapAnyPrefix pkg.installPrefix termuxPrefixes }

def migrateStatusPaths (db : InstalledDb) : InstalledDb where
  entries := db.entries.map fun kv => ⟨kv.1, migrateRecord kv.2⟩
  nodupKeys := by
    have := db.nodupKeys
    unfold List.NodupKeys List.keys at this ⊢
    rwa [List.map_map]

/-- The turn for one package. What comes of a failed save is only logged. -/
def migrateManualPackage (dir : Tree) (pkg : PackageInfo) : Tree :=
  let newPrefix := remapAnyPrefix pkg.prefixDir installedPrefixes
  if newPrefix == pkg.prefixDir then dir
  else
    match saveInstalledPackage dir { pkg with prefixDir := newPrefix } with
    | .ok dir => dir
    | .error _ => dir

/-- `migrateManualPackageMetadata`, in the directory that holds it. -/
def migrateManualPackageMetadata (dir : Tree) : Tree :=
  match listInstalledPackages dir with
  | .ok packages => packages.foldl migrateManualPackage dir
  | .error _ => dir

/-! ### A start -/

abbrev Name := { name : ByteString // FileName name }

def termuxDir : Name := ⟨str "termux", by decide⟩
def usrDir : Name := ⟨str "usr", by decide⟩

/-- The directories of `shellRuntimeDirs` that are in the installed directory. -/
def standingDirs : List (List Name) :=
  [[⟨str "commands", by decide⟩], [⟨str "dependencies", by decide⟩], [termuxDir],
   [termuxDir, usrDir], [termuxDir, usrDir, ⟨str ".apm-installed", by decide⟩],
   [termuxDir, ⟨str "home", by decide⟩], [termuxDir, ⟨str "tmp", by decide⟩]]

def makeStandingDirs (t : Tree) : Tree := standingDirs.foldl Tree.makeDirs t

/-- A directory is made where none is. -/
def createDir (place : Place) (dirs : Dirs) : Dirs :=
  Function.update dirs place (some ((dirs place).getD .empty))

structure Machine where
  dirs : Dirs
  status : InstalledDb

/-- `migrateShellAccessibleRuntime`. -/
def migrateShellAccessibleRuntime (m : Machine) : Machine :=
  let dirs := migrateDirectories m.dirs
  let status := migrateStatusPaths m.status
  let dirs := Function.update dirs .manual ((dirs .manual).map migrateManualPackageMetadata)
  let dirs := createDir .installed dirs
  let dirs := Function.update dirs .installed ((dirs .installed).map makeStandingDirs)
  { dirs := createDir .moduleLogs (createDir .manual (createDir .logs dirs)), status }

/-! ### What a start leaves -/

theorem copyTreeRecursive_eq (t : Tree) : copyTreeRecursive t = t :=
  Subtype.ext (Lib.FileTree.Dir.copyOnto_empty t.2)

def places : List Place :=
  [.stagingInstalled, .legacyInstalled, .installed, .stagingManual, .legacyManual, .manual,
   .runtimeLogs, .stagingLogs, .logs, .runtimeModuleLogs, .stagingModuleLogs, .moduleLogs]

theorem mem_places (a : Place) : a ∈ places := by
  cases a <;> decide

/-- Different places have different paths, and none is inside another. -/
theorem path_apart {a b : Place} (other : a ≠ b) :
    a.path ≠ b.path ∧ (a.path ++ str "/").isPrefixOf b.path = false := by
  have all : ∀ a ∈ places, ∀ b ∈ places, a ≠ b →
      a.path ≠ b.path ∧ (a.path ++ str "/").isPrefixOf b.path = false := by
    decide +kernel
  exact all a (mem_places a) b (mem_places b) other

theorem path_filled (a : Place) : a.path.isEmpty = false := by
  cases a <;> decide

theorem migrateDirectoryIfNeeded_self (a : Place) (removeLegacy : Bool) (dirs : Dirs) :
    migrateDirectoryIfNeeded a a removeLegacy dirs = dirs := by
  simp [migrateDirectoryIfNeeded]

/-- An old directory that is there is copied. -/
theorem migrateDirectoryIfNeeded_eq {legacy new : Place} (other : legacy ≠ new) (dirs : Dirs) :
    migrateDirectoryIfNeeded legacy new false dirs =
      Function.update dirs new ((dirs legacy).or (dirs new)) := by
  have apart : (legacy.path == new.path) = false := by simpa using (path_apart other).1
  rw [migrateDirectoryIfNeeded, path_filled, path_filled, apart]
  cases dirs legacy with
  | none => simp
  | some tree => simp [copyTreeRecursive_eq]

/-- What a directory is made from: the last of its old ones that is there, or itself. -/
def source (dirs : Dirs) : Place → Option Tree
  | .installed => (dirs .legacyInstalled).or ((dirs .stagingInstalled).or (dirs .installed))
  | .manual => (dirs .legacyManual).or ((dirs .stagingManual).or (dirs .manual))
  | .logs => (dirs .stagingLogs).or ((dirs .runtimeLogs).or (dirs .logs))
  | .moduleLogs =>
      (dirs .stagingModuleLogs).or ((dirs .runtimeModuleLogs).or (dirs .moduleLogs))
  | place => dirs place

/-- What a start makes of it. -/
def settle : Place → Option Tree → Option Tree
  | .installed, t => some (makeStandingDirs (t.getD .empty))
  | .manual, t => some ((t.map migrateManualPackageMetadata).getD .empty)
  | .logs, t | .moduleLogs, t => some (t.getD .empty)
  | _, t => t

theorem migrateDirectories_eq (dirs : Dirs) : migrateDirectories dirs = source dirs := by
  unfold migrateDirectories migrations kLegacyLogsDir kLegacyModuleLogsDir
  simp only [List.foldl_cons, List.foldl_nil, migrateDirectoryIfNeeded_self]
  rw [migrateDirectoryIfNeeded_eq (by decide), migrateDirectoryIfNeeded_eq (by decide),
    migrateDirectoryIfNeeded_eq (by decide), migrateDirectoryIfNeeded_eq (by decide),
    migrateDirectoryIfNeeded_eq (by decide), migrateDirectoryIfNeeded_eq (by decide),
    migrateDirectoryIfNeeded_eq (by decide), migrateDirectoryIfNeeded_eq (by decide)]
  funext place
  cases place <;> simp [source]

/-- The directories after a start. -/
theorem start_dirs (m : Machine) :
    (migrateShellAccessibleRuntime m).dirs = fun place => settle place (source m.dirs place) := by
  unfold migrateShellAccessibleRuntime
  rw [migrateDirectories_eq]
  funext place
  cases place <;> simp [settle, createDir]

/-! ### Migrating twice -/

/-- The new prefix is apart from every old one. -/
def Apart (prefixes : List (ByteString × ByteString)) : Prop :=
  ∀ a ∈ prefixes, ∀ b ∈ prefixes, ¬ a.1 <+: b.2 ∧ ¬ b.2 <+: a.1

instance (prefixes : List (ByteString × ByteString)) : Decidable (Apart prefixes) :=
  inferInstanceAs (Decidable (∀ a ∈ prefixes, ∀ b ∈ prefixes, _))

theorem remapAnyPrefix_of_none {path : ByteString} {prefixes : List (ByteString × ByteString)}
    (h : ∀ entry ∈ prefixes, ¬ entry.1 <+: path) : remapAnyPrefix path prefixes = path := by
  have none : (prefixes.find? fun entry => hasPathPrefix path entry.1) = none := by
    apply List.find?_eq_none.mpr
    intro entry mem found
    exact h entry mem (List.isPrefixOf_iff_prefix.mp found)
  rw [remapAnyPrefix, none]

/-- What becomes of a path: it stays, or an old prefix that it begins with is replaced. -/
theorem remapAnyPrefix_cases (prefixes : List (ByteString × ByteString)) (path : ByteString) :
    ((∀ entry ∈ prefixes, ¬ entry.1 <+: path) ∧ remapAnyPrefix path prefixes = path) ∨
      ∃ entry ∈ prefixes, ∃ rest, path = entry.1 ++ rest ∧
        remapAnyPrefix path prefixes = entry.2 ++ rest := by
  cases found : prefixes.find? fun entry => hasPathPrefix path entry.1 with
  | none =>
    have none : ∀ entry ∈ prefixes, ¬ entry.1 <+: path := fun entry mem starts =>
      List.find?_eq_none.mp found entry mem (List.isPrefixOf_iff_prefix.mpr starts)
    exact .inl ⟨none, remapAnyPrefix_of_none none⟩
  | some entry =>
    have starts : hasPathPrefix path entry.1 = true := by
      simpa using List.find?_some found
    obtain ⟨rest, rfl⟩ := List.isPrefixOf_iff_prefix.mp starts
    refine .inr ⟨entry, List.mem_of_find?_eq_some found, rest, rfl, ?_⟩
    rw [remapAnyPrefix, found]
    exact congrArg (entry.2 ++ ·) List.drop_left

theorem remapAnyPrefix_idem {prefixes : List (ByteString × ByteString)} (apart : Apart prefixes)
    (path : ByteString) :
    remapAnyPrefix (remapAnyPrefix path prefixes) prefixes = remapAnyPrefix path prefixes := by
  apply remapAnyPrefix_of_none
  intro entry mem starts
  obtain ⟨none, stays⟩ | ⟨used, mem', rest, -, eq⟩ := remapAnyPrefix_cases prefixes path
  · exact none entry mem (stays ▸ starts)
  · obtain ⟨here, there⟩ := apart entry mem used mem'
    rw [eq] at starts
    exact (List.prefix_or_prefix_of_prefix starts (List.prefix_append _ _)).elim here there

theorem installedPrefixes_apart : Apart installedPrefixes := by
  decide +kernel

theorem termuxPrefixes_apart : Apart termuxPrefixes := by
  decide +kernel

theorem migrateRecord_idem (pkg : InstalledPackage) :
    migrateRecord (migrateRecord pkg) = migrateRecord pkg := by
  simp [migrateRecord, remapAnyPrefix_idem installedPrefixes_apart,
    remapAnyPrefix_idem termuxPrefixes_apart]

theorem migrateStatusPaths_idem (db : InstalledDb) :
    migrateStatusPaths (migrateStatusPaths db) = migrateStatusPaths db := by
  apply AList.ext
  simp [migrateStatusPaths, Function.comp_def, migrateRecord_idem]

/-- The directories of an older layout: packages, and metadata of packages installed by hand. -/
def HasLegacy (dirs : Dirs) : Prop :=
  (dirs .legacyInstalled).isSome ∨ (dirs .stagingInstalled).isSome

def HasLegacyManual (dirs : Dirs) : Prop :=
  (dirs .legacyManual).isSome ∨ (dirs .stagingManual).isSome

/-- Where something is copied, the same is copied again. -/
theorem source_settle {dirs : Dirs} (legacy : HasLegacy dirs) (manual : HasLegacyManual dirs)
    (place : Place) :
    settle place (source (fun place => settle place (source dirs place)) place) =
      settle place (source dirs place) := by
  cases place with
  | installed =>
    rcases legacy with h | h
    · obtain ⟨t, h⟩ := Option.isSome_iff_exists.mp h
      simp [source, settle, h]
    · obtain ⟨t, h⟩ := Option.isSome_iff_exists.mp h
      simp [source, settle, h]
  | manual =>
    rcases manual with h | h
    · obtain ⟨t, h⟩ := Option.isSome_iff_exists.mp h
      simp [source, settle, h]
    · obtain ⟨t, h⟩ := Option.isSome_iff_exists.mp h
      simp [source, settle, h]
  | logs =>
    cases staging : dirs .stagingLogs <;> cases runtime : dirs .runtimeLogs <;>
      simp [source, settle, staging, runtime]
  | moduleLogs =>
    cases staging : dirs .stagingModuleLogs <;> cases runtime : dirs .runtimeModuleLogs <;>
      simp [source, settle, staging, runtime]
  | _ => rfl

/-- **Migrating twice** leaves what migrating once does. -/
theorem start_idem {m : Machine} (legacy : HasLegacy m.dirs) (manual : HasLegacyManual m.dirs) :
    migrateShellAccessibleRuntime (migrateShellAccessibleRuntime m) =
      migrateShellAccessibleRuntime m := by
  have dirs : (migrateShellAccessibleRuntime (migrateShellAccessibleRuntime m)).dirs =
      (migrateShellAccessibleRuntime m).dirs := by
    rw [start_dirs, start_dirs]
    funext place
    exact source_settle legacy manual place
  have status : (migrateShellAccessibleRuntime (migrateShellAccessibleRuntime m)).status =
      (migrateShellAccessibleRuntime m).status := migrateStatusPaths_idem m.status
  cases first : migrateShellAccessibleRuntime (migrateShellAccessibleRuntime m)
  cases second : migrateShellAccessibleRuntime m
  simp_all

/-! ### Runs -/

inductive Event where
  | start
  /-- A package is installed: where its payload is, and what becomes of the installed directory. -/
  | install (pkg : InstalledPackage) (paths : List (List ByteString))
      (change : Option Tree → Option Tree)
  | remove (name : ByteString) (change : Option Tree → Option Tree)

/-- A machine and what happened to it since the first start. -/
structure State where
  machine : Machine
  migrated : Bool := false
  /-- The packages recorded since the first start, with the paths of their payload. -/
  since : AList fun _ : ByteString => List (List ByteString) := ∅
  /-- The installed directory as the last installation or removal left it. -/
  left : Option Tree := none

def Machine.change (m : Machine) (change : Option Tree → Option Tree) (status : InstalledDb) :
    Machine :=
  { dirs := Function.update m.dirs .installed (change (m.dirs .installed)), status }

/-- The state once the installed directory was changed. -/
def State.changed (s : State) (m : Machine)
    (since : AList fun _ : ByteString => List (List ByteString)) : State :=
  { machine := m, migrated := s.migrated, since, left := m.dirs .installed }

/-- The state once the daemon was started. -/
def State.started (s : State) (m : Machine) : State :=
  if s.migrated then { s with machine := m }
  else { machine := m, migrated := true, left := m.dirs .installed }

def step (s : State) : Event → State
  | .start => s.started (migrateShellAccessibleRuntime s.machine)
  | .install pkg paths change =>
      let m := s.machine.change change (s.machine.status.insert pkg.name pkg)
      s.changed m (if s.migrated then s.since.insert pkg.name paths else s.since)
  | .remove name change =>
      let m := s.machine.change change (s.machine.status.erase name)
      s.changed m (s.since.erase name)

/-- What stands at a path of the installed directory. -/
def payload (t : Option Tree) (path : List ByteString) : Option (Entry ByteString ByteString) :=
  t.bind fun t => Entry.at path (.dir t.1)

/-- The two directories have the same payload of every package recorded since. -/
def SamePayloads (s : State) (t t' : Option Tree) : Prop :=
  ∀ name paths, s.since.lookup name = some paths → ∀ path ∈ paths, payload t path = payload t' path

/-- No start took away or brought back anything of a package recorded since the first one. -/
def Intact (s : State) : Prop := SamePayloads s (s.machine.dirs .installed) s.left

/-- What a start copies has the payloads that are there already. -/
def Spares (s : State) : Event → Prop
  | .start => s.migrated = true →
      SamePayloads s (settle .installed (source s.machine.dirs .installed))
        (s.machine.dirs .installed)
  | _ => True

theorem start_installed (m : Machine) : (migrateShellAccessibleRuntime m).dirs .installed =
    settle .installed (source m.dirs .installed) := by
  rw [start_dirs]

theorem intact_step (s : State) (event : Event) (intact : Intact s) (spares : Spares s event) :
    Intact (step s event) := by
  cases event with
  | start =>
    change Intact (s.started _)
    unfold State.started
    split
    · rename_i migrated
      intro name paths recorded path mem
      have new := spares migrated name paths recorded path mem
      rw [← start_installed] at new
      exact new.trans (intact name paths recorded path mem)
    · exact fun _ _ _ _ _ => rfl
  | install pkg paths change => exact fun _ _ _ _ _ => rfl
  | remove name change => exact fun _ _ _ _ _ => rfl

theorem not_intact_step (s : State) (event : Event) (intact : Intact s)
    (spoils : ¬ Spares s event) : ¬ Intact (step s event) := by
  cases event with
  | start =>
    intro after
    apply spoils
    intro migrated name paths recorded path mem
    change Intact (s.started _) at after
    rw [State.started, if_pos migrated] at after
    have new := after name paths recorded path mem
    rw [start_installed] at new
    exact new.trans (intact name paths recorded path mem).symm
  | install pkg paths change => exact absurd trivial spoils
  | remove name change => exact absurd trivial spoils

/-- Old directories stay. -/
theorem legacy_step (s : State) (event : Event)
    (h : HasLegacy s.machine.dirs ∧ HasLegacyManual s.machine.dirs) :
    HasLegacy (step s event).machine.dirs ∧ HasLegacyManual (step s event).machine.dirs := by
  cases event with
  | start =>
    have same : (step s .start).machine = migrateShellAccessibleRuntime s.machine := by
      change (s.started _).machine = _
      unfold State.started
      split <;> rfl
    rw [same, start_dirs]
    exact h
  | install pkg paths change => exact h
  | remove name change => exact h

/-- **What starts do.** On a machine with the old directories, migrating twice is migrating once in
every state of a run, and no start takes away or brings back anything of a package recorded since
the first one just when each finds the same payloads in what it copies. -/
theorem migration_spares_iff (m : Machine) (legacy : HasLegacy m.dirs)
    (manual : HasLegacyManual m.dirs) (events : List Event) :
    Always step (fun s => migrateShellAccessibleRuntime (migrateShellAccessibleRuntime s.machine) =
        migrateShellAccessibleRuntime s.machine) { machine := m } events ∧
      (Always step Intact { machine := m } events ↔
        EachStep step Spares { machine := m } events) := by
  constructor
  · have start : HasLegacy m.dirs ∧ HasLegacyManual m.dirs := ⟨legacy, manual⟩
    have always : Always step (fun s => HasLegacy s.machine.dirs ∧ HasLegacyManual s.machine.dirs)
        { machine := m } events := always_of_step legacy_step start
    exact always.mono fun s h => start_idem h.1 h.2
  · apply always_iff_eachStep (fun _ h => h) intact_step not_intact_step
    intro name paths recorded
    cases recorded

/-- Only the old directories, and nothing in them. -/
def oldMachine : Machine where
  dirs
    | .legacyInstalled | .legacyManual => some .empty
    | _ => none
  status := ∅

/-- Two starts, and nothing in between. -/
theorem migration_spares_idle :
    Always step Intact { machine := oldMachine } [.start, .start] := by
  apply (migration_spares_iff oldMachine (.inl rfl) (.inl rfl) [.start, .start]).2.mpr
  refine ⟨nofun, ?_, trivial⟩
  intro _ name paths recorded
  cases recorded

/-- The directory of the package `b`, with a file. -/
def addB (t : Option Tree) : Option Tree :=
  some ((t.getD .empty).writeFile ⟨str "b", by decide⟩ (str "payload"))

/-- A package that was installed is gone after the next start. -/
theorem start_loses_package :
    HasLegacy oldMachine.dirs ∧ HasLegacyManual oldMachine.dirs ∧
      ¬ Intact (run step { machine := oldMachine }
        [.start, .install { name := str "b" } [[str "b"]] addB, .start]) := by
  refine ⟨.inl rfl, .inl rfl, fun intact => ?_⟩
  have lost := intact (str "b") [[str "b"]] (by decide +kernel) [str "b"] List.mem_cons_self
  revert lost
  decide +kernel

end Apm.Daemon.Migration
