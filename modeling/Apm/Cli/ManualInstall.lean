import Apm.Core.ManualPackageText
import Apm.Install.Confined

/-!
Manual packages in `src/apm/apm.cpp`: installing an archive with a `package-info.json`, and
removing the package again.

The record of a package names the directory it goes to. That directory is checked as a text
when the package is installed, and removed with all that is in it later.

## Main results

* `manualPackage_confined_iff`: an accepted package stays below the installed directory if and
  only if its prefix does as a path.
-/

namespace Apm.Cli

open Apm.Fs Apm.Config Apm.Lib.Effect Apm.Lib.Walk Apm.Manual
open Apm.Install (installedDir_in cacheDir_in plainName_of_valid Confining)

/-! ### Checking a record -/

def prefixWithinInstalledRoot (prefixDir : ByteString) : Bool :=
  let root := getInstalledDir
  if prefixDir.length < root.length then false
  else if prefixDir.take root.length != root then false
  else if prefixDir.length == root.length then true
  else prefixDir[root.length]? == some (chr '/') || root.getLast? == some (chr '/')

/-- The checks of a prefix that do not look at the disk. -/
def checkPrefix (prefixDir : ByteString) : Except ByteString Unit :=
  if prefixDir.isEmpty then .error (str "package-info.json is missing prefix")
  else if !prefixWithinInstalledRoot prefixDir then
    .error (str "prefix must be under " ++ getInstalledDir)
  else if prefixDir == getInstalledDir then
    .error (str "prefix must include a package-specific subdirectory")
  else .ok ()

/-! ### Installing and removing -/

/-- What an archive unpacks to: the names at its top, and its `package-info.json`. -/
structure Unpacked where
  entries : List ByteString
  infoText : ByteString

variable {ε : Type} (sys : System)

def ensureManualSlotAvailable (pkgName : ByteString) : Act Trace ByteString Unit := do
  if pkgName.isEmpty then throw (str "Package name is empty")
  else
    match Security.validatePackageName pkgName with
    | some nameErr => throw nameErr
    | none =>
        if ← ask sys then
          throw (str "Manual package '" ++ pkgName ++ str "' is already installed")
        else if ← ask sys then
          throw (str "Package '" ++ pkgName ++ str "' is already installed via 'apm install'")
        else pure ()

def ensureParentDirectory (path : ByteString) : Act Trace ByteString Unit := do
  let parent := parentOf path
  if !path.contains (chr '/') || parent.isEmpty then pure ()
  else if ← touch sys .create getInstalledDir parent then pure ()
  else throw (str "Failed to create directory: " ++ parent)

/-- One turn of the search: another directory with a record is one too many. -/
def packageInfoCandidate (baseDir entry found : ByteString) :
    Act Trace ByteString ByteString := do
  if entry.isEmpty || entry.head? == some (chr '.') then pure found
  else if !(← ask sys) then pure found
  else if !(← ask sys) then pure found
  else if !found.isEmpty then throw (str "Multiple package-info.json files found in archive")
  else pure (joinPath baseDir entry)

def findPackageInfoRoot (baseDir : ByteString) (entries : List ByteString) :
    Act Trace ByteString ByteString := do
  if ← ask sys then pure baseDir
  else
    let found ← forEach (packageInfoCandidate sys baseDir) entries []
    if found.isEmpty then throw (str "package-info.json not found in archive") else pure found

/-- `readPackageInfoFile`, of a file with this text. -/
def readPackageInfoFile (path text : ByteString) : Act Trace ByteString PackageInfo := do
  if !(← ask sys) then throw (str "Failed to read " ++ path)
  else
    match parsePackageInfo text with
    | .error err => throw err
    | .ok info => pure info

/-- `collectInstalledFiles`, of a tree with these files. -/
def collectInstalledFiles (root : ByteString) (files : List ByteString) :
    Act Trace ByteString (List ByteString) := do
  if !(← ask sys) then throw (str "Install root does not exist: " ++ root)
  else if ← ask sys then pure files
  else throw (← askText sys)

def installedInfoPath (name : ByteString) : ByteString :=
  joinPath MANUAL_PACKAGES_DIR (infoFileName name)

/-- `saveInstalledPackage`. -/
def saveRecord (info : PackageInfo) : Act Trace ByteString Unit := do
  if info.name.isEmpty then throw (str "Manual package name is empty")
  else
    match Security.validatePackageName info.name with
    | some err => throw err
    | none =>
        let path := installedInfoPath info.name
        if !(← touch sys .create MANUAL_PACKAGES_DIR MANUAL_PACKAGES_DIR) then
          throw (str "Failed to create directory: " ++ MANUAL_PACKAGES_DIR)
        else if !(← touch sys .create MANUAL_PACKAGES_DIR (parentOf path)) then
          throw (str "Failed to write " ++ path)
        else if ← touch sys .write MANUAL_PACKAGES_DIR path then pure ()
        else throw (str "Failed to write " ++ path)

/-- What is done to a package in place. If it fails, the package is removed again. -/
def recordPackage (info : PackageInfo) (installTime : Nat) (files : List ByteString) :
    Act Trace ByteString Unit := do
  let recorded ← attempt do
    let installedFiles ← collectInstalledFiles sys info.prefixDir files
    saveRecord sys { info with installTime, installedFiles }
  match recorded with
  | .ok () => pure ()
  | .error err =>
      let _ ← touch sys .removeTree getInstalledDir info.prefixDir
      throw err

/-- The part of an install behind the unpacking. -/
def placePackage (packageRoot infoText : ByteString) (installTime : Nat)
    (files : List ByteString) : Act Trace ByteString ByteString := do
  let info ← readPackageInfoFile sys (joinPath packageRoot (str "package-info.json")) infoText
  ensureManualSlotAvailable sys info.name
  match checkPrefix info.prefixDir with
  | .error err => throw err
  | .ok () =>
      if ← ask sys then throw (str "Install directory already exists: " ++ info.prefixDir)
      else
        ensureParentDirectory sys info.prefixDir
        if !(← touch sys .rename getInstalledDir info.prefixDir) then
          throw (str "Failed to move package contents: " ++ (← askText sys))
        else
          recordPackage sys info installTime files
          pure info.name

/-- The directory an archive is unpacked in, by a clock and a counter. -/
def manualTempName (now counter : Nat) : ByteString :=
  str "manual-archive-" ++ decimal now ++ str "-" ++ decimal counter

/-- Unpack the archive and place the package. -/
def unpackArchive (tmpRoot : ByteString) (archive : Unpacked) (installTime : Nat)
    (files : List ByteString) : Act Trace ByteString ByteString := do
  let extractDir := joinPath tmpRoot (str "extract")
  if !(← touch sys .create getCacheDir extractDir) then
    throw (str "Failed to create extract directory: " ++ extractDir)
  else if !(← touch sys .extract getCacheDir extractDir) then
    throw (str "Failed to extract archive: " ++ (← askText sys))
  else
    let packageRoot ← findPackageInfoRoot sys extractDir archive.entries
    placePackage sys packageRoot archive.infoText installTime files

/-- `installManualPackageFromArchive`: the name of the package. -/
def installManualPackageFromArchive (archive : Unpacked) (now counter installTime : Nat)
    (files : List ByteString) : Act Trace ByteString ByteString := do
  let tmpRoot := joinPath getCacheDir (manualTempName now counter)
  if !(← touch sys .create getCacheDir tmpRoot) then
    throw (str "Failed to create temp directory: " ++ tmpRoot)
  else
    let placed ← attempt (unpackArchive sys tmpRoot archive installTime files)
    -- the temporary directory is removed on every way out
    let _ ← touch sys .removeTree getCacheDir tmpRoot
    match placed with
    | .error err => throw err
    | .ok name => pure name

inductive ManualRemoveState where
  | NotManual | Removed | Failed
deriving DecidableEq

/-- `isInstalled` of a manual package. -/
def isInstalled (name : ByteString) : Act Trace ε Bool := do
  match Security.validatePackageName name with
  | some _ => pure false
  | none => ask sys

/-- `loadInstalledPackage`, of a record with this text. -/
def loadInstalledPackage (name text : ByteString) : Act Trace ByteString PackageInfo := do
  match Security.validatePackageName name with
  | some err => throw err
  | none =>
      if !(← ask sys) then throw (str "Manual package '" ++ name ++ str "' is not installed")
      else readPackageInfoFile sys (installedInfoPath name) text

/-- `removeInstalledPackage`: is the record gone? -/
def removeRecord (name : ByteString) : Act Trace ε Bool := do
  match Security.validatePackageName name with
  | some _ => pure false
  | none =>
      if !(← ask sys) then pure true
      else touch sys .unlink MANUAL_PACKAGES_DIR (installedInfoPath name)

/-- Remove the directory of a package, if there is one. -/
def removePrefix (prefixDir : ByteString) : Act Trace ε Bool := do
  if prefixDir.isEmpty then pure true
  else if !(← ask sys) then pure true
  else touch sys .removeTree getInstalledDir prefixDir

/-- `tryRemoveManualPackage`, of a package with this record. -/
def tryRemoveManualPackage (name savedText : ByteString) :
    Act Trace ByteString ManualRemoveState := do
  if !(← isInstalled sys name) then pure .NotManual
  else
    match ← attempt (loadInstalledPackage sys name savedText) with
    | .error _ => pure .Failed
    | .ok info =>
        if !(← removePrefix sys info.prefixDir) then pure .Failed
        else if !(← removeRecord sys name) then pure .Failed
        else pure .Removed

/-! ### What an accepted prefix looks like -/

/-- What stands behind the installed directory and a slash. -/
def behindRoot (prefixDir : ByteString) : ByteString := prefixDir.drop (getInstalledDir.length + 1)

theorem checkPrefix_spec {prefixDir : ByteString} (accepted : checkPrefix prefixDir = .ok ()) :
    prefixDir = getInstalledDir ++ chr '/' :: behindRoot prefixDir := by
  unfold checkPrefix at accepted
  split at accepted
  · cases accepted
  split at accepted
  · cases accepted
  rename_i within
  split at accepted
  · cases accepted
  rename_i other
  have noSlash : (getInstalledDir.getLast? == some (chr '/')) = false := by decide
  unfold prefixWithinInstalledRoot at within
  simp only [noSlash, Bool.or_false] at within
  split at within
  · exact absurd rfl within
  split at within
  · exact absurd rfl within
  rename_i starts
  have starts : prefixDir.take getInstalledDir.length = getInstalledDir := by simpa using starts
  split at within
  · rename_i same
    have whole : prefixDir = getInstalledDir := by
      rw [← starts, List.take_of_length_le (Nat.le_of_eq (beq_iff_eq.mp same))]
    exact absurd (beq_iff_eq.mpr whole) other
  · have next : prefixDir[getInstalledDir.length]? = some (chr '/') := by simpa using within
    obtain ⟨long, slash⟩ := List.getElem?_eq_some_iff.mp next
    have rest := List.drop_eq_getElem_cons long
    rw [slash] at rest
    calc prefixDir = prefixDir.take getInstalledDir.length ++
          prefixDir.drop getInstalledDir.length := (List.take_append_drop _ _).symm
      _ = getInstalledDir ++ chr '/' :: behindRoot prefixDir := by
        rw [starts, rest]
        rfl

section Accepted

variable {prefixDir : ByteString} (accepted : checkPrefix prefixDir = .ok ())
include accepted

theorem slash_mem_of_accepted : chr '/' ∈ prefixDir := by
  rw [checkPrefix_spec accepted]
  simp

/-- The parent of an accepted prefix is made. -/
theorem parentOf_ne_nil_of_accepted : parentOf prefixDir ≠ [] := by
  intro empty
  obtain ⟨left, right, split, noSlash⟩ := exists_last_slash (slash_mem_of_accepted accepted)
  rw [split, parentOf_append noSlash] at empty
  rw [checkPrefix_spec accepted, empty] at split
  have root : getInstalledDir = chr '/' :: getInstalledDir.tail := by decide
  rw [root, List.cons_append, List.nil_append, List.cons.injEq] at split
  apply noSlash
  rw [← split.2]
  simp

theorem accepted_confined_iff :
    (Reaches getInstalledDir prefixDir ∧ Below (fileLoc getInstalledDir) (fileLoc prefixDir)) ↔
      Confines (fileLoc getInstalledDir) (pathSteps (cString (behindRoot prefixDir))) := by
  have iff := reaches_behind_iff installedDir_in (behindRoot prefixDir)
  rwa [← checkPrefix_spec accepted] at iff

end Accepted

/-! ### Staying inside -/

theorem manualPackagesDir_in : DirIn MANUAL_PACKAGES_DIR MANUAL_PACKAGES_DIR :=
  dirIn_self (by decide) (by decide)

/-- The record of a package with a valid name is a file of its own. -/
theorem installedInfoPath_in {name : ByteString}
    (valid : Security.validatePackageName name = none) :
    FileIn MANUAL_PACKAGES_DIR (installedInfoPath name) := by
  have plain := plainName_of_valid valid
  have long : 3 ≤ (infoFileName name).length := by
    have ending : (str ".json").length = 5 := rfl
    simp only [infoFileName, List.length_append, ending]
    omega
  have file : PlainName (infoFileName name) := by
    refine ⟨pathStep_of_length long, (infoFileName_fileName valid).2, ?_⟩
    have ending : 0 ∉ str ".json" := by decide
    simp [infoFileName, plain.noNul, ending]
  exact manualPackagesDir_in.file file

/-- A path in the cache that is unpacked into and removed again. -/
theorem manualTempName_plain (now counter : Nat) : PlainName (manualTempName now counter) := by
  have letters : ∀ b ∈ manualTempName now counter, b ≠ chr '/' ∧ b ≠ 0 := by
    have digit : ∀ b : UInt8, isdigit b → b ≠ chr '/' ∧ b ≠ 0 := by
      intro b digit
      constructor
      · rintro rfl
        exact absurd digit (by decide)
      · rintro rfl
        exact absurd digit (by decide)
    intro b mem
    simp only [manualTempName, List.mem_append] at mem
    rcases mem with ((text | mem) | text) | mem
    · revert b
      decide
    · exact digit b (isdigit_of_mem_decimal mem)
    · revert b
      decide
    · exact digit b (isdigit_of_mem_decimal mem)
  have long : 3 ≤ (manualTempName now counter).length := by
    have start : (str "manual-archive-").length = 15 := rfl
    simp only [manualTempName, List.length_append]
    omega
  constructor
  · exact pathStep_of_length long
  · exact fun mem => (letters _ mem).1 rfl
  · exact fun mem => (letters _ mem).2 rfl

section Confined

variable {info : PackageInfo}

theorem readPackageInfoFile_confining (path text : ByteString) :
    Confining (readPackageInfoFile sys path text) := by
  refine (ask_adds sys).bind fun _ => .ite (moves_throw _) ?_
  cases parsePackageInfo text with
  | error _ => exact moves_throw _
  | ok _ => exact moves_pure _

/-- What is read is what the text says. -/
theorem readPackageInfoFile_spec (path text : ByteString) (t : Trace) :
    wp (readPackageInfoFile sys path text) (fun info _ => parsePackageInfo text = .ok info)
      (fun _ _ => True) t := by
  refine wp_bind.mpr (wp_update.mpr (wp_ite.mpr ⟨fun _ => trivial, fun _ => ?_⟩))
  cases parsed : parsePackageInfo text with
  | error _ => trivial
  | ok info => exact rfl

theorem ensureManualSlotAvailable_confining (name : ByteString) :
    Confining (ensureManualSlotAvailable sys name) := by
  refine .ite (moves_throw _) ?_
  cases Security.validatePackageName name with
  | some _ => exact moves_throw _
  | none =>
    refine (ask_adds sys).bind fun _ => .ite (moves_throw _) ?_
    exact (ask_adds sys).bind fun _ => .ite (moves_throw _) (moves_pure _)

theorem findPackageInfoRoot_confining (baseDir : ByteString) (entries : List ByteString) :
    Confining (findPackageInfoRoot sys baseDir entries) := by
  have turn : ∀ entry found, Confining (packageInfoCandidate sys baseDir entry found) := by
    intro entry found
    refine .ite (moves_pure _) ((ask_adds sys).bind fun _ => .ite (moves_pure _) ?_)
    refine (ask_adds sys).bind fun _ => .ite (moves_pure _) ?_
    exact .ite (moves_throw _) (moves_pure _)
  refine (ask_adds sys).bind fun _ => .ite (moves_pure _) ?_
  have turns : Confining (forEach (packageInfoCandidate sys baseDir) entries []) :=
    Moves.forEach (fun entry _ found => turn entry found) []
  refine turns.bind fun _ => ?_
  exact .ite (moves_throw _) (moves_pure _)

theorem saveRecord_confining (info : PackageInfo) : Confining (saveRecord sys info) := by
  refine .ite (moves_throw _) ?_
  cases valid : Security.validatePackageName info.name with
  | some _ => exact moves_throw _
  | none =>
    have file := installedInfoPath_in valid
    refine (touch_adds sys manualPackagesDir_in.toReaches).bind fun _ => .ite (moves_throw _) ?_
    refine (touch_adds sys file.parent).bind fun _ => .ite (moves_throw _) ?_
    exact (touch_adds sys file.below).bind fun _ => .ite (moves_pure _) (moves_throw _)

theorem isInstalled_confining (name : ByteString) :
    Confining (isInstalled (ε := ε) sys name) := by
  unfold isInstalled
  cases Security.validatePackageName name with
  | some _ => exact moves_pure _
  | none => exact ask_adds sys

theorem loadInstalledPackage_confining (name text : ByteString) :
    Confining (loadInstalledPackage sys name text) := by
  unfold loadInstalledPackage
  cases Security.validatePackageName name with
  | some _ => exact moves_throw _
  | none =>
    refine (ask_adds sys).bind fun _ => .ite (moves_throw _) ?_
    exact readPackageInfoFile_confining sys _ text

theorem removeRecord_confining (name : ByteString) :
    Confining (removeRecord (ε := ε) sys name) := by
  unfold removeRecord
  cases Security.validatePackageName name with
  | some _ => exact moves_pure _
  | none =>
    refine (ask_adds sys).bind fun _ => .ite (moves_pure _) ?_
    exact touch_adds sys trivial

section Inside

variable (reaches : Reaches getInstalledDir info.prefixDir)
  (below : Below (fileLoc getInstalledDir) (fileLoc info.prefixDir))

include below in
theorem recordPackage_confining (installTime : Nat) (files : List ByteString) :
    Confining (recordPackage sys info installTime files) := by
  have collect : Confining (collectInstalledFiles sys info.prefixDir files) := by
    refine (ask_adds sys).bind fun _ => .ite (moves_throw _) ((ask_adds sys).bind fun _ => ?_)
    exact .ite (moves_pure _) ((askText_adds sys).bind fun _ => moves_throw _)
  refine Moves.bind (.attempt (collect.bind fun _ => saveRecord_confining sys _)) fun recorded => ?_
  cases recorded with
  | ok _ => exact moves_pure _
  | error _ => exact (touch_adds sys below).bind fun _ => moves_throw _

include below in
theorem removePrefix_confining :
    Confining (removePrefix (ε := ε) sys info.prefixDir) := by
  refine .ite (moves_pure _) ((ask_adds sys).bind fun _ => .ite (moves_pure _) ?_)
  exact touch_adds sys below

include reaches below in
theorem placePackage_confining {json : ByteString} (read : parsePackageInfo json = .ok info)
    (accepted : checkPrefix info.prefixDir = .ok ()) (packageRoot : ByteString)
    (installTime : Nat) (files : List ByteString) :
    Confining (placePackage sys packageRoot json installTime files) := by
  refine Moves.bind_of (readPackageInfoFile_confining sys _ json)
    (readPackageInfoFile_spec sys _ json) fun info' same => ?_
  obtain rfl : info = info' := by
    rw [read] at same
    exact Except.ok.inj same
  refine (ensureManualSlotAvailable_confining sys info.name).bind fun _ => ?_
  rw [accepted]
  have parent : Confining (ensureParentDirectory sys info.prefixDir) := by
    have made := (reaches_parentOf_iff (slash_mem_of_accepted accepted) below).mpr reaches
    exact .ite (moves_pure _) ((touch_adds sys made).bind fun _ => .ite (moves_pure _)
      (moves_throw _))
  have renamed : Confining (touch (ε := ByteString) sys .rename getInstalledDir info.prefixDir) :=
    touch_adds sys below
  refine (ask_adds sys).bind fun _ => .ite (moves_throw _) (parent.bind fun _ => ?_)
  refine renamed.bind fun _ => .ite ((askText_adds sys).bind fun _ => moves_throw _) ?_
  exact (recordPackage_confining sys below installTime files).bind fun _ => moves_pure _

include reaches below in
theorem installManualPackageFromArchive_confining {archive : Unpacked}
    (read : parsePackageInfo archive.infoText = .ok info)
    (accepted : checkPrefix info.prefixDir = .ok ()) (now counter installTime : Nat)
    (files : List ByteString) :
    Confining (installManualPackageFromArchive sys archive now counter installTime files) := by
  have temp := cacheDir_in.file (manualTempName_plain now counter)
  have extract := temp.dirIn.file (by decide : PlainName (str "extract"))
  have unpack : Confining (unpackArchive sys (joinPath getCacheDir (manualTempName now counter))
      archive installTime files) := by
    refine (touch_adds sys extract.toReaches).bind fun _ => .ite (moves_throw _) ?_
    refine (touch_adds sys extract.below).bind fun _ => ?_
    refine .ite ((askText_adds sys).bind fun _ => moves_throw _) ?_
    refine (findPackageInfoRoot_confining sys _ _).bind fun _ => ?_
    exact placePackage_confining sys reaches below read accepted _ installTime files
  refine (touch_adds sys temp.toReaches).bind fun _ => .ite (moves_throw _) ?_
  refine Moves.bind (.attempt unpack) fun placed => (touch_adds sys temp.below).bind fun _ => ?_
  cases placed with
  | error _ => exact moves_throw _
  | ok _ => exact moves_pure _

include below in
/-- The record is read back, so that the prefix removed is the one installed to. -/
theorem tryRemoveManualPackage_confining {name savedText : ByteString}
    (saved : ∀ info', parsePackageInfo savedText = .ok info' → info'.prefixDir = info.prefixDir) :
    Confining (tryRemoveManualPackage sys name savedText) := by
  have loaded : ∀ t, wp (attempt (loadInstalledPackage sys name savedText) :
      Act Trace ByteString _)
      (fun r _ => ∀ info', r = .ok info' → info'.prefixDir = info.prefixDir)
      (fun _ _ => True) t := by
    intro t
    rw [wp_attempt]
    unfold loadInstalledPackage
    cases Security.validatePackageName name with
    | some _ => exact nofun
    | none =>
      refine wp_bind.mpr (wp_update.mpr (wp_ite.mpr ⟨fun _ => nofun, fun _ => ?_⟩))
      refine wp_mono (readPackageInfoFile_spec sys _ savedText _) (fun info' _ parsed => ?_)
        fun _ _ _ => nofun
      rintro _ ⟨⟩
      exact saved info' parsed
  refine (isInstalled_confining sys name).bind fun _ => .ite (moves_pure _) ?_
  refine Moves.bind_of (.attempt (loadInstalledPackage_confining sys name savedText)) loaded
    fun r same => ?_
  cases r with
  | error _ => exact moves_pure _
  | ok info' =>
    have removed := removePrefix_confining (ε := ByteString) sys below
    rw [← same info' rfl] at removed
    refine removed.bind fun _ => .ite (moves_pure _) ?_
    exact (removeRecord_confining sys name).bind fun _ => .ite (moves_pure _) (moves_pure _)

end Inside

end Confined

/-! ### Which packages stay inside -/

/-- Installing an archive with this record acts inside its directories only. -/
def InstallConfined (json : ByteString) : Prop :=
  ∀ (sys : System) (archive : Unpacked) (now counter installTime : Nat)
    (files : List ByteString), archive.infoText = json →
      ∀ x ∈ (exec (installManualPackageFromArchive sys archive now counter installTime files)
        {}).2.touched, x.Confined

/-- Removing a package that was installed with this record acts inside its directories only. -/
def RemoveConfined (info : PackageInfo) : Prop :=
  ∀ (sys : System) (name : ByteString) (installTime : Nat) (installedFiles : List ByteString),
    installTime < 2 ^ 64 →
      ∀ x ∈ (exec (tryRemoveManualPackage sys name
        (serializePackageInfo { info with installTime, installedFiles })) {}).2.touched, x.Confined

/-- A system that does what is asked at some times. -/
def answering (ok : Nat → Bool) : System where
  ok := ok
  message := fun _ => []
  content := fun _ => []

theorem name_ne_nil_of_valid {name : ByteString}
    (valid : Security.validatePackageName name = none) : name ≠ [] := by
  rintro rfl
  cases valid

/-- On a system without the package, an accepted archive is moved into place; here its files
cannot be listed then. -/
theorem install_touches {json : ByteString} {info : PackageInfo}
    (read : parsePackageInfo json = .ok info)
    (named : Security.validatePackageName info.name = none)
    (accepted : checkPrefix info.prefixDir = .ok ()) :
    ∀ x ∈ [(⟨.create, getInstalledDir, parentOf info.prefixDir⟩ : Touch),
      ⟨.rename, getInstalledDir, info.prefixDir⟩,
      ⟨.removeTree, getInstalledDir, info.prefixDir⟩],
      x ∈ (exec (installManualPackageFromArchive
        (answering fun n => n < 5 || n == 8 || n == 9) ⟨[], json⟩ 0 0 0 []) {}).2.touched := by
  have filled : info.name ≠ [] := name_ne_nil_of_valid named
  have slash := slash_mem_of_accepted accepted
  have parent := parentOf_ne_nil_of_accepted accepted
  have touched : (exec (installManualPackageFromArchive
      (answering fun n => n < 5 || n == 8 || n == 9) ⟨[], json⟩ 0 0 0 []) {}).2.touched =
      [⟨.create, getCacheDir, joinPath getCacheDir (manualTempName 0 0)⟩,
        ⟨.create, getCacheDir,
          joinPath (joinPath getCacheDir (manualTempName 0 0)) (str "extract")⟩,
        ⟨.extract, getCacheDir,
          joinPath (joinPath getCacheDir (manualTempName 0 0)) (str "extract")⟩,
        ⟨.create, getInstalledDir, parentOf info.prefixDir⟩,
        ⟨.rename, getInstalledDir, info.prefixDir⟩,
        ⟨.removeTree, getInstalledDir, info.prefixDir⟩,
        ⟨.removeTree, getCacheDir, joinPath getCacheDir (manualTempName 0 0)⟩] := by
    simp [installManualPackageFromArchive, unpackArchive, findPackageInfoRoot, placePackage,
      readPackageInfoFile, ensureManualSlotAvailable, ensureParentDirectory, recordPackage,
      collectInstalledFiles, attempt, ask, touch, exec_bind, answering, read, named, accepted,
      filled, slash, parent, -bind_pure_comp]
  rw [touched]
  simp

/-- **An accepted package stays below the installed directory**, from its install to its
removal, if and only if what stands behind the directory's name in its prefix stays there. -/
theorem manualPackage_confined_iff {json : ByteString} {info : PackageInfo}
    (read : parsePackageInfo json = .ok info)
    (named : Security.validatePackageName info.name = none)
    (accepted : checkPrefix info.prefixDir = .ok ()) :
    (Below (fileLoc getInstalledDir) (fileLoc info.prefixDir) ∧ InstallConfined json ∧
        RemoveConfined info) ↔
      Confines (fileLoc getInstalledDir) (pathSteps (cString (behindRoot info.prefixDir))) := by
  rw [← accepted_confined_iff accepted]
  constructor
  · rintro ⟨below, install, -⟩
    have touched := install_touches read named accepted
    have parent := install _ _ 0 0 0 [] rfl _
      (touched ⟨.create, getInstalledDir, parentOf info.prefixDir⟩ (by simp))
    exact ⟨(reaches_parentOf_iff (slash_mem_of_accepted accepted) below).mp parent, below⟩
  · rintro ⟨reaches, below⟩
    refine ⟨below, ?_, ?_⟩
    · rintro sys archive now counter installTime files rfl
      exact Fs.Adds.all (installManualPackageFromArchive_confining sys reaches below read accepted
        now counter installTime files {})
    · intro sys name installTime installedFiles small
      have filled := name_ne_nil_of_valid named
      have placed : info.prefixDir ≠ [] := by
        intro empty
        have slash := slash_mem_of_accepted accepted
        rw [empty] at slash
        cases slash
      have saved : parsePackageInfo
          (serializePackageInfo { info with installTime, installedFiles }) =
            .ok { info with installTime, installedFiles } :=
        parsePackageInfo_written filled placed small
      apply Fs.Adds.all
      apply tryRemoveManualPackage_confining sys below
      intro info' parsed
      rw [saved] at parsed
      cases parsed
      rfl

/-- A package in a directory of its own. -/
def toolInfo : PackageInfo where
  name := str "tool"
  prefixDir := str "/data/local/tmp/apm/runtime/installed/commands/tool"

theorem manualPackage_confined_tool :
    Below (fileLoc getInstalledDir) (fileLoc toolInfo.prefixDir) ∧
      InstallConfined (serializePackageInfo toolInfo) ∧ RemoveConfined toolInfo := by
  have read : parsePackageInfo (serializePackageInfo toolInfo) = .ok toolInfo :=
    parsePackageInfo_written (by decide) (by decide) (by decide)
  apply (manualPackage_confined_iff read (by decide) (by decide +kernel)).mpr
  apply (accepted_confined_iff (by decide +kernel)).mp
  have path : toolInfo.prefixDir = joinPath getCommandsDir (str "tool") := by decide +kernel
  have commands : getCommandsDir = joinPath getInstalledDir (str "commands") := by decide +kernel
  have file : FileIn getInstalledDir toolInfo.prefixDir := by
    rw [path, commands]
    exact (installedDir_in.file (by decide)).dirIn.file (by decide)
  exact ⟨file.toReaches, file.below⟩

/-- A package whose prefix begins with the installed directory and climbs out of it. -/
def climbingInfo : PackageInfo where
  name := str "tool"
  prefixDir := str "/data/local/tmp/apm/runtime/installed/../../tool"

/-- The prefix is accepted, and the package goes to `/data/local/tmp/apm/tool`. -/
theorem climbing_prefix_escapes :
    ¬ ∀ (json : ByteString) (info : PackageInfo), parsePackageInfo json = .ok info →
      Security.validatePackageName info.name = none → checkPrefix info.prefixDir = .ok () →
        Below (fileLoc getInstalledDir) (fileLoc info.prefixDir) ∧ InstallConfined json ∧
          RemoveConfined info := by
  intro all
  have read : parsePackageInfo (serializePackageInfo climbingInfo) = .ok climbingInfo :=
    parsePackageInfo_written (by decide) (by decide) (by decide)
  obtain ⟨⟨names, -, same⟩, -⟩ := all _ _ read (by decide) (by decide +kernel)
  have short : (fileLoc climbingInfo.prefixDir).length = 5 := by decide +kernel
  have long : (fileLoc getInstalledDir).length = 6 := by decide +kernel
  have lengths := congrArg List.length same
  rw [List.length_append, short, long] at lengths
  omega

end Apm.Cli
