import Apm.Ams.ModuleManager
import Apm.Ams.ModuleState
import Apm.Util.Tree

/-!
`installFromZip` of `src/ams/module_manager.cpp`, by what it does to the modules' directories.

Each step works or not, and a failed one leaves what it leaves (`Host`). The logs are left out, and
so are the overlays themselves, which are mounted elsewhere.

## Main results

* `installFromZip_keeps_iff`: a failed install keeps the installed module just when it fails before
  the old directory is removed, or happens to leave what was there.
-/

namespace Apm.Ams.FromZip

open Apm.Fs Apm.Config Apm.Lib.Effect
open Apm.Lib.FileTree (Entry)

/-! ### What the system does -/

/-- A name that is fit for a directory. -/
abbrev Name := { name : ByteString // FileName name }

inductive Step where
  | tempDir | unzipDir | extract | readInfo | clear | rename | makeDir (path : List Name) | state
  | script | rollback | removeLog | overlays | record | lifecycle

/-- What stands under the path of a name in the directory of the modules. -/
abbrev Modules := ByteString → Option Tree

/-- What the system does in one call. -/
structure Host where
  works : Step → Bool
  /-- What a step leaves of a module's directory: one that fails, or a script. -/
  left : Step → Option Tree → Option Tree
  message : Step → ByteString
  zipIsFile : Bool
  /-- What `unzip` puts in the temporary directory. -/
  unzipped : Tree
  /-- What the link at a path leads to. -/
  leads : ByteString → Option (Entry ByteString ByteString)
  /-- What a link that was moved into place leads to. -/
  relinked : Option Tree
  installedAt : Tm
  now : Step → Tm

variable (h : Host)

/-- What `stat` finds under a name of a directory. -/
def Host.stat (dir : ByteString) (d : Dir) (name : ByteString) :
    Option (Entry ByteString ByteString) :=
  match d.find name with
  | some (.link _) => h.leads (joinPath dir name)
  | e => e

/-- What is done to a module's directory by a step that works. -/
def Host.after (step : Step) (act : Option Tree → Option Tree) (d : Option Tree) : Option Tree :=
  if h.works step then act d else h.left step d

/-! ### The zip -/

/-- The root of an unpacked module, and what its path in the directory of modules shows once the
root is moved there. -/
structure Root where
  path : ByteString
  shows : Dir
  arrives : Option Tree

def infoName : ByteString := str "module-info.json"

/-- Where the module is in the unpacked zip: at its top, or in its only directory. -/
def findModuleRoot (tempDir : ByteString) : Root :=
  let top : Root := ⟨tempDir, h.unzipped.1, some h.unzipped⟩
  if isRegular (h.stat tempDir h.unzipped.1 infoName) then top
  else
    match h.unzipped.1.names.filter (!hidden ·) with
    | [entry] =>
        let candidate := joinPath tempDir entry
        match h.stat tempDir h.unzipped.1 entry with
        | some (.dir inner) =>
            if isRegular (h.stat candidate inner infoName) then
              ⟨candidate, inner, (h.unzipped.subdir entry).or h.relinked⟩
            else top
        | _ => top
    | _ => top

/-- `readModuleInfoFile`. Reading a directory gives nothing. -/
def readModuleInfoFile (root : Root) : Except ByteString ModuleInfo :=
  let failed := .error (str "Failed to read " ++ joinPath root.path infoName)
  match h.stat root.path root.shows infoName with
  | some (.file text) => if h.works .readInfo then parseModuleInfo text else failed
  | some (.dir _) => parseModuleInfo []
  | _ => failed

/-- The module in the zip, by its `module-info.json`. -/
def readZip (zipPath tempDir : ByteString) : Except ByteString (ModuleInfo × Root) := do
  if zipPath.isEmpty then .error (str "Module zip path is empty")
  else if !h.zipIsFile then .error (str "Module zip not found: " ++ zipPath)
  else if !h.works .tempDir then .error (str "Failed to create temporary directory")
  else if !h.works .unzipDir then .error (str "Failed to create temp directory: " ++ tempDir)
  else if !h.works .extract then .error (h.message .extract)
  else
    let root := findModuleRoot h tempDir
    let info ← readModuleInfoFile h root
    .ok (info, root)

/-- The module in the zip, and what its path will show: what is done before the old module's
directory is touched. -/
def unpack (zipPath tempDir : ByteString) : Except ByteString (ModuleInfo × Option Tree) := do
  let (info, root) ← readZip h zipPath tempDir
  if isDir (h.stat root.path root.shows (str "overlay")) then .ok (info, root.arrives)
  else .error (str "Module overlay directory missing")

/-! ### The module's directory -/

/-- Do a step on a module's directory: does it work? -/
def perform {ε : Type} (step : Step) (name : ByteString) (act : Option Tree → Option Tree) :
    Act Modules ε Bool :=
  update fun w => (h.works step, Function.update w name (h.after step act (w name)))

/-- A directory can be renamed to a path where nothing is, or an empty directory. -/
def free : Option Tree → Bool
  | some t => t = .empty
  | none => true

def moveIntoPlace (name : ByteString) (arrives : Option Tree) : Act Modules ByteString Unit := do
  if ← update fun w => (free (w name) && h.works .rename, w) then
    update fun w => ((), Function.update w name arrives)
  else throw (str "Failed to move module into place: " ++ h.message .rename)

/-- Make a directory and those above it. -/
def addDir (path : List Name) (d : Option Tree) : Option Tree :=
  some ((d.getD .empty).makeDirs path)

def workDir : Name := ⟨str "workdir", by decide⟩

/-- The directories of `kOverlayTargets`. -/
def targetDirs : List Name :=
  [⟨str "system", by decide⟩, ⟨str "vendor", by decide⟩, ⟨str "product", by decide⟩]

def workDirs : List (List Name) := [workDir] :: targetDirs.map fun target => [workDir, target]

/-- Whether a work directory can be made is not looked at. -/
def createQuietly {ε : Type} (name : ByteString) (path : List Name) (_ : Unit) :
    Act Modules ε Unit := do
  let _ ← perform h (.makeDir path) name (addDir path)
  pure ()

def stateName : Name := ⟨str "state.json", by decide⟩

def addState (st : ModuleState) (d : Option Tree) : Option Tree :=
  some ((d.getD .empty).writeFile stateName (stateText st))

/-- A directory in the place of `state.json` is not written. -/
def stateBlocked (d : Option Tree) : Bool := isDir ((d.getD .empty).find stateName.1)

/-- `writeState`. -/
def writeState (step : Step) (name : ByteString) (st : ModuleState) :
    Act Modules ByteString Unit := do
  let failed := str "Failed to write " ++ joinPath (modulePath name) stateName.1
  let blocked ← update fun w => (stateBlocked (w name), w)
  if blocked then throw failed
  else if ← perform h step name (addState st) then pure ()
  else throw failed

def installScript : ByteString := str "install.sh"

def hasScript (name : ByteString) (d : Option Tree) : Bool :=
  isRegular (h.stat (modulePath name) (d.getD .empty).1 installScript)

/-- `runScript` of `install.sh`, which may do anything to the module's directory. -/
def runScript (name : ByteString) : Act Modules ByteString Unit := do
  let script := joinPath (modulePath name) installScript
  if ← update fun w => (hasScript h name (w name), w) then
    update fun w => ((), Function.update w name (h.left .script (w name)))
    if h.works .script then pure ()
    else throw (str "Script failed: " ++ script ++ str " (rc=" ++ h.message .script ++ str ")")
  else throw (str "Required script missing: " ++ script)

/-- Undo an install whose script failed. -/
def rollbackModule (name scriptFailure : ByteString) : Act Modules ByteString Unit := do
  let removedModule ← perform h .rollback name fun _ => none
  let rollbackErr := if h.works .overlays then [] else h.message .overlays
  throw (scriptFailure ++ str "; module installation rolled back" ++
    (if removedModule then [] else str "; rollback failed to remove module directory") ++
    (if h.works .removeLog then [] else str "; rollback failed to remove module log") ++
    (if rollbackErr.isEmpty then [] else str "; overlay rebuild warning: " ++ rollbackErr))

def runInstallScript (info : ModuleInfo) : Act Modules ByteString Unit := do
  if info.runInstallSh then
    match ← attempt (runScript h info.name) with
    | .ok () => pure ()
    | .error err => rollbackModule h info.name err
  else pure ()

/-- The state that is written for a module at first. -/
def firstState : ModuleState where
  enabled := true
  installedAt := makeIsoTimestamp h.installedAt
  updatedAt := makeIsoTimestamp (h.now .state)

/-- The state that is written when the overlays cannot be rebuilt. -/
def failedState : ModuleState where
  enabled := true
  installedAt := makeIsoTimestamp h.installedAt
  updatedAt := makeIsoTimestamp (h.now .record)
  lastError := h.message .overlays

/-- Rebuild the overlays, and write down why that fails. -/
def applyOrRecord (name : ByteString) : Act Modules ByteString Unit := do
  if h.works .overlays then pure ()
  else
    let _ ← attempt (writeState h .record name (failedState h))
    throw (h.message .overlays)

/-- The scripts that are run at the end may do anything to the module's directory. -/
def runLifecycleScripts {ε : Type} (info : ModuleInfo) : Act Modules ε Unit := do
  if info.runPostFsData || info.runService then
    update fun w => ((), Function.update w info.name (h.left .lifecycle (w info.name)))
  else pure ()

/-- What is done once the new module is in place. -/
def setUpModule (info : ModuleInfo) : Act Modules ByteString Unit := do
  forEach (createQuietly h info.name) workDirs ()
  writeState h .state info.name (firstState h)
  runInstallScript h info
  applyOrRecord h info.name
  runLifecycleScripts h info

def installFromZip (zipPath : ByteString) (now counter : Nat) : Act Modules ByteString Unit := do
  match unpack h zipPath (joinPath getCacheDir (tempDirName now counter)) with
  | .error err => throw err
  | .ok (info, arrives) =>
      let _ ← perform h .clear info.name fun _ => none
      moveIntoPlace h info.name arrives
      setUpModule h info

/-! ### What a failed install leaves -/

section Failure

variable (info : ModuleInfo) (arrives : Option Tree) (old : Tree)

/-- What the first removal leaves of the old module. -/
def cleared : Option Tree := h.after .clear (fun _ => none) (some old)

/-- The module in the zip, with its work directories. -/
def furnished : Option Tree :=
  workDirs.foldl (fun d path => h.after (.makeDir path) (addDir path) d) arrives

/-- A module's directory after its `install.sh`. -/
def scripted (d : Option Tree) : Option Tree := if info.runInstallSh then h.left .script d else d

/-- A module's directory after the overlay's error was written down. -/
def recorded (d : Option Tree) : Option Tree :=
  if stateBlocked d then d else h.after .record (addState (failedState h)) d

/-- The old module is kept by an install that fails after it was to be removed: it is not removed
at all and the new one not moved there, or it has the very contents that are left of the new one. -/
def Kept : Prop :=
  let new := furnished h arrives
  let written := addState (firstState h) new
  if !(free (cleared h old) && h.works .rename) then cleared h old = some old
  else if stateBlocked new then new = some old
  else if !h.works .state then h.left .state new = some old
  else if info.runInstallSh && !hasScript h info.name written then
    h.after .rollback (fun _ => none) written = some old
  else if info.runInstallSh && !h.works .script then
    h.after .rollback (fun _ => none) (h.left .script written) = some old
  else recorded h (scripted h info written) = some old

/-- The name is that of the module in the zip, if a module can be read there. -/
def NameOf (zipPath tempDir name : ByteString) : Prop :=
  ∀ info root, readZip h zipPath tempDir = .ok (info, root) → info.name = name

end Failure

section Steps

variable {h} {name : ByteString} {info : ModuleInfo} {arrives : Option Tree} {old : Tree}

theorem perform_spec {ε : Type} (step : Step) (act : Option Tree → Option Tree) (w : Modules) :
    wp (perform h step name act : Act Modules ε Bool)
      (fun ok w' => ok = h.works step ∧ w' name = h.after step act (w name))
      (fun _ _ => False) w :=
  ⟨rfl, Function.update_self ..⟩

theorem createQuietly_spec {ε : Type} (paths : List (List Name)) (w : Modules) :
    wp (forEach (createQuietly h name) paths () : Act Modules ε Unit)
      (fun _ w' => w' name =
        paths.foldl (fun d path => h.after (.makeDir path) (addDir path) d) (w name))
      (fun _ _ => False) w := by
  induction paths generalizing w with
  | nil => rfl
  | cons path paths ih =>
    apply wp_bind.mpr
    apply wp_bind.mpr
    apply wp_mono (perform_spec _ _ w) ?_ fun _ _ h => h
    rintro _ w₁ ⟨-, first⟩
    apply wp_mono (ih w₁) ?_ fun _ _ h => h
    intro _ w₂ second
    rw [second, first]
    rfl

theorem moveIntoPlace_spec (w : Modules) :
    wp (moveIntoPlace h name arrives)
      (fun _ w' => (free (w name) && h.works .rename) = true ∧ w' name = arrives)
      (fun _ w' => (free (w name) && h.works .rename) = false ∧ w' name = w name) w := by
  apply wp_bind.mpr
  refine wp_ite.mpr ⟨fun can => ?_, fun cannot => ?_⟩
  · exact ⟨can, Function.update_self ..⟩
  · exact ⟨Bool.eq_false_iff.mpr cannot, rfl⟩

theorem writeState_spec (step : Step) (st : ModuleState) (w : Modules) :
    wp (writeState h step name st)
      (fun _ w' => stateBlocked (w name) = false ∧ h.works step = true ∧
        w' name = addState st (w name))
      (fun _ w' => stateBlocked (w name) = true ∧ w' name = w name ∨
        stateBlocked (w name) = false ∧ h.works step = false ∧
          w' name = h.left step (w name)) w := by
  apply wp_bind.mpr
  refine wp_ite.mpr ⟨fun blocked => .inl ⟨blocked, rfl⟩, fun clear => ?_⟩
  have clear : stateBlocked (w name) = false := Bool.eq_false_iff.mpr clear
  apply wp_bind.mpr
  apply wp_mono (perform_spec step _ w) ?_ fun _ _ h => h.elim
  rintro _ w₁ ⟨rfl, done⟩
  refine wp_ite.mpr ⟨fun works => ?_, fun fails => ?_⟩
  · refine ⟨clear, works, ?_⟩
    rw [done, Host.after, if_pos works]
  · refine .inr ⟨clear, Bool.eq_false_iff.mpr fails, ?_⟩
    rw [done, Host.after, if_neg fails]

/-- What becomes of a failed write is not looked at. -/
theorem applyOrRecord_spec (w : Modules) :
    wp (applyOrRecord h name) (fun _ w' => w' name = w name)
      (fun _ w' => w' name = recorded h (w name)) w := by
  refine wp_ite.mpr ⟨fun _ => rfl, fun _ => ?_⟩
  apply wp_bind.mpr
  apply wp_attempt.mpr
  apply wp_mono (writeState_spec .record (failedState h) w)
  · rintro _ w₁ ⟨clear, works, done⟩
    apply wp_throw.mpr
    rw [done, recorded, clear, if_neg Bool.false_ne_true, Host.after, if_pos works]
  · rintro _ w₁ (⟨blocked, done⟩ | ⟨clear, fails, done⟩)
    · apply wp_throw.mpr
      rw [done, recorded, if_pos blocked]
    · apply wp_throw.mpr
      rw [done, recorded, clear, if_neg Bool.false_ne_true, Host.after, fails,
        if_neg Bool.false_ne_true]

theorem runScript_spec (w : Modules) :
    wp (runScript h name)
      (fun _ w' => hasScript h name (w name) = true ∧ h.works .script = true ∧
        w' name = h.left .script (w name))
      (fun _ w' => hasScript h name (w name) = false ∧ w' name = w name ∨
        hasScript h name (w name) = true ∧ h.works .script = false ∧
          w' name = h.left .script (w name)) w := by
  apply wp_bind.mpr
  refine wp_ite.mpr ⟨fun present => ?_, fun absent => ?_⟩
  · apply wp_bind.mpr
    refine wp_ite.mpr ⟨fun works => ?_, fun fails => ?_⟩
    · exact ⟨present, works, Function.update_self ..⟩
    · exact .inr ⟨present, Bool.eq_false_iff.mpr fails, Function.update_self ..⟩
  · exact .inl ⟨Bool.eq_false_iff.mpr absent, rfl⟩

theorem rollbackModule_spec (failure : ByteString) (w : Modules) :
    wp (rollbackModule h name failure) (fun _ _ => False)
      (fun _ w' => w' name = h.after .rollback (fun _ => none) (w name)) w := by
  apply wp_bind.mpr
  apply wp_mono (perform_spec .rollback _ w) ?_ fun _ _ h => h.elim
  rintro _ w₁ ⟨-, done⟩
  exact done

theorem runInstallScript_spec (w : Modules) :
    wp (runInstallScript h info)
      (fun _ w' => (info.runInstallSh && !hasScript h info.name (w info.name)) = false ∧
        (info.runInstallSh && !h.works .script) = false ∧
        w' info.name = scripted h info (w info.name))
      (fun _ w' => (info.runInstallSh && !hasScript h info.name (w info.name)) = true ∧
          w' info.name = h.after .rollback (fun _ => none) (w info.name) ∨
        (info.runInstallSh && !hasScript h info.name (w info.name)) = false ∧
          (info.runInstallSh && !h.works .script) = true ∧
          w' info.name = h.after .rollback (fun _ => none) (h.left .script (w info.name))) w := by
  refine wp_ite.mpr ⟨fun wanted => ?_, fun unwanted => ?_⟩
  · apply wp_bind.mpr
    apply wp_attempt.mpr
    apply wp_mono (runScript_spec w)
    · rintro _ w₁ ⟨present, works, done⟩
      refine ⟨by simp [present], by simp [works], ?_⟩
      rw [done, scripted, if_pos wanted]
    · rintro err w₁ failed
      apply wp_mono (rollbackModule_spec err w₁) fun _ _ h => h.elim
      rintro _ w₂ undone
      rw [undone]
      rcases failed with ⟨absent, done⟩ | ⟨present, fails, done⟩
      · exact .inl ⟨by simp [wanted, absent], by rw [done]⟩
      · exact .inr ⟨by simp [present], by simp [wanted, fails], by rw [done]⟩
  · refine ⟨by simp [unwanted], by simp [unwanted], ?_⟩
    rw [scripted, if_neg unwanted]

theorem runLifecycleScripts_spec {ε : Type} (w : Modules) :
    wp (runLifecycleScripts h info : Act Modules ε Unit) (fun _ _ => True) (fun _ _ => False) w :=
  wp_ite.mpr ⟨fun _ => trivial, fun _ => trivial⟩

/-- What is left where a step fails after the new module was moved into place. -/
theorem setUpModule_spec (w : Modules) (isFree : free (cleared h old) = true)
    (renames : h.works .rename = true) (moved : w info.name = arrives) :
    wp (setUpModule h info) (fun _ _ => True)
      (fun _ w' => w' info.name = some old ↔ Kept h info arrives old) w := by
  unfold Kept
  rw [isFree, renames, Bool.and_self, Bool.not_true, if_neg Bool.false_ne_true]
  apply wp_bind.mpr
  apply wp_mono (createQuietly_spec workDirs w) ?_ fun _ _ h => h.elim
  rintro _ w₁ made
  have new : w₁ info.name = furnished h arrives := by rw [made, moved, furnished]
  apply wp_bind.mpr
  apply wp_mono (writeState_spec .state (firstState h) w₁)
  · rintro _ w₂ ⟨clear, works, written⟩
    rw [new] at clear written
    apply wp_bind.mpr
    apply wp_mono (runInstallScript_spec w₂)
    · rintro _ w₃ ⟨present, succeeds, ran⟩
      rw [written] at present ran
      apply wp_bind.mpr
      apply wp_mono (applyOrRecord_spec w₃)
      · rintro _ w₄ -
        exact wp_mono (runLifecycleScripts_spec w₄) (fun _ _ h => h) fun _ _ h => h.elim
      · rintro _ w₄ last
        simp [last, ran, clear, works, present, succeeds]
    · rintro _ w₃ failed
      rw [written] at failed
      rcases failed with ⟨absent, left⟩ | ⟨present, fails, left⟩
      · simp [left, clear, works, absent]
      · simp [left, clear, works, present, fails]
  · rintro _ w₂ failed
    rw [new] at failed
    rcases failed with ⟨blocked, left⟩ | ⟨clear, fails, left⟩
    · simp [left, blocked]
    · simp [left, clear, fails]

/-- What is left where an install fails after the old module was to be removed. -/
theorem placeModule_spec (w : Modules) (installed : w info.name = some old) :
    wp (do
        let _ ← perform h .clear info.name fun _ => none
        moveIntoPlace h info.name arrives
        setUpModule h info)
      (fun _ _ => True) (fun _ w' => w' info.name = some old ↔ Kept h info arrives old) w := by
  apply wp_bind.mpr
  apply wp_mono (perform_spec .clear _ w) ?_ fun _ _ h => h.elim
  rintro _ w₁ ⟨-, left⟩
  have left : w₁ info.name = cleared h old := by rw [left, installed, cleared]
  apply wp_bind.mpr
  apply wp_mono (moveIntoPlace_spec w₁)
  · rintro _ w₂ ⟨can, moved⟩
    rw [left, Bool.and_eq_true] at can
    exact setUpModule_spec w₂ can.1 can.2 moved
  · rintro _ w₂ ⟨cannot, same⟩
    rw [left] at cannot same
    unfold Kept
    rw [same, cannot, Bool.not_false, if_pos rfl]

end Steps

/-- **A failed install** keeps the module that was installed under the name just when it fails
before that is to be removed, or the removal and what comes after it leave it as it was. -/
theorem installFromZip_keeps_iff (h : Host) (zipPath : ByteString) (now counter : Nat)
    (w w' : Modules) (err : ByteString)
    (run : exec (installFromZip h zipPath now counter) w = (.error err, w')) :
    (∀ name old, NameOf h zipPath (joinPath getCacheDir (tempDirName now counter)) name →
        w name = some old → w' name = some old) ↔
      ∀ info arrives old,
        unpack h zipPath (joinPath getCacheDir (tempDirName now counter)) = .ok (info, arrives) →
        w info.name = some old → Kept h info arrives old := by
  unfold installFromZip at run
  cases read : unpack h zipPath (joinPath getCacheDir (tempDirName now counter)) with
  | error e =>
    rw [read] at run
    cases run
    constructor
    · intro _ _ _ _ no
      cases no
    · intro _ _ _ _ same
      exact same
  | ok module =>
    obtain ⟨info, arrives⟩ := module
    rw [read] at run
    obtain ⟨⟨info', root⟩, zip, whole⟩ := ok_of_bind read
    have same : info' = info := by
      dsimp only at whole
      split at whole
      · cases whole
        rfl
      · cases whole
    subst same
    constructor
    · intro keeps info arrives' old eq installed
      cases eq
      apply ((placeModule_spec w installed).error run).mp
      apply keeps _ _ _ installed
      intro other _ zip'
      rw [zip] at zip'
      cases zip'
      rfl
    · intro kept name old named installed
      obtain rfl := named _ _ zip
      exact ((placeModule_spec w installed).error run).mpr (kept _ _ _ rfl installed)

/-- A zip with the module `m`. -/
def sampleZip : Tree :=
  ⟨.file infoName (str "\x7b\"name\": \"m\"\x7d") (.dir (str "overlay") .empty .empty),
    by decide, by decide, by decide, nofun, trivial, trivial⟩

/-- A system on which only these steps fail. -/
def sampleHost (fails : Step → Bool) : Host where
  works step := !fails step
  left _ d := d
  message _ := []
  zipIsFile := true
  unzipped := sampleZip
  leads _ := none
  relinked := none
  installedAt := ⟨2025, 1, 1, 0, 0, 0⟩
  now _ := ⟨2025, 1, 1, 0, 0, 0⟩

def failsExtract : Step → Bool
  | .extract => true
  | _ => false

def failsRename : Step → Bool
  | .rename => true
  | _ => false

/-- A file alone is in order. -/
theorem sampleTree_ordered :
    Lib.FileTree.Dir.Ordered FileName (.file (str "a") (str "old") .empty) :=
  ⟨by decide, nofun, trivial⟩

/-- The module `m` with the file `a`. -/
def sampleModules : Modules :=
  Function.update (fun _ => none) (str "m")
    (some ⟨.file (str "a") (str "old") .empty, sampleTree_ordered⟩)

/-- Where `unzip` fails, nothing is lost. -/
theorem installFromZip_keeps_extract :
    (exec (installFromZip (sampleHost failsExtract) (str "m.zip") 0 0) sampleModules).2 (str "m") =
      sampleModules (str "m") := by
  refine (installFromZip_keeps_iff (sampleHost failsExtract) (str "m.zip") 0 0 sampleModules _ []
    rfl).mpr ?_ (str "m") _ ?_ (Function.update_self ..)
  · intro info arrives old read
    cases read
  · intro info root read
    cases read

/-- Where the rename fails, the module that was installed is gone. -/
theorem failed_rename_loses_module :
    NameOf (sampleHost failsRename) (str "m.zip") (joinPath getCacheDir (tempDirName 0 0))
        (str "m") ∧
      (exec (installFromZip (sampleHost failsRename) (str "m.zip") 0 0) sampleModules).1.isOk =
        false ∧
      (sampleModules (str "m")).isSome ∧
      (exec (installFromZip (sampleHost failsRename) (str "m.zip") 0 0) sampleModules).2
        (str "m") = none := by
  refine ⟨?_, ?_, ?_, ?_⟩
  · intro info root read
    have name : (readZip (sampleHost failsRename) (str "m.zip")
        (joinPath getCacheDir (tempDirName 0 0))).map (·.1.name) = .ok (str "m") := by
      decide +kernel
    rw [read] at name
    exact Except.ok.inj name
  · decide +kernel
  · decide
  · decide +kernel

end Apm.Ams.FromZip
