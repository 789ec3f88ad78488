import Apm.Ams.ModuleInstall
import Mathlib.Data.List.AList
import Mathlib.Data.List.Sort

/-!
The manager of `src/ams/module_manager.cpp` by what its directory of modules holds and what the
overlays were last rebuilt from: `installFromZip`, `enableModule`, `disableModule`, `removeModule`,
`listModules` and `rebuildOverlays`, one call after the other.

The system answers whether a step works, and what each target's overlay does. Modules are asked for
by names of directories; links that the manager would read through lead nowhere. The logs are left
out.
-/

namespace Apm.Ams.Store

open Apm.Fs Apm.Config Apm.Lib Apm.Lib.Effect
open Apm.Ams.FromZip (Step addDir workDirs addState stateBlocked infoName stateName free
  installScript hasScript)
open Apm.Lib.FileTree (Entry)

/-! ### What the manager works on -/

/-- A directory for an overlay, with the module that it is of. -/
structure Layer where
  name : ByteString
  files : Dir
deriving DecidableEq

structure Manager where
  modules : AList (fun _ : ByteString => Tree) := ∅
  /-- What was last laid over a target, by a rebuild that worked for it. -/
  shown : ByteString → Option (List Layer) := fun _ => none

/-- What `applyOverlayForTarget` does. Where no candidate is mounted it does nothing, and succeeds.
-/
inductive Applied where
  | applied | deferred
  | failed (err : ByteString)
deriving DecidableEq

/-- What the system does while the overlays are rebuilt. -/
structure Rebuild where
  /-- Why the runtime directories cannot be made. -/
  runtimeErr : Option ByteString
  applies : ByteString → Applied
  effectiveMountPoint : ByteString → ByteString

/-- What the system does in one call. -/
structure Host where
  zip : FromZip.Host
  /-- A file can be read. -/
  reads : ByteString → Bool
  /-- A call may rebuild the overlays twice. -/
  rebuild : Nat → Rebuild

/-- The names that `listDir` gives. -/
def visible (names : List ByteString) : List ByteString :=
  (names.filter (!hidden ·)).insertionSort (· ≤ ·)

/-- What becomes of a module's directory. -/
def Manager.set (m : Manager) (name : ByteString) : Option Tree → Manager
  | none => { m with modules := m.modules.erase name }
  | some t => { m with modules := m.modules.insert name t }

/-- The directory of a target in a module's overlay. -/
def layer (t : Tree) (target : ByteString) : Option Dir :=
  match t.find (str "overlay") with
  | some (.dir overlayRoot) =>
      match overlayRoot.find target with
      | some (.dir files) => some files
      | _ => none
  | _ => none

section Calls

variable (h : Host)

/-- `loadFile`. Reading a directory gives nothing. -/
def loadFile (path : ByteString) :
    Option (Entry ByteString ByteString) → Except ByteString ByteString
  | some (.file text) => if h.reads path then .ok text else .error (str "Failed to read " ++ path)
  | some (.dir _) => .ok []
  | _ => .error (str "Failed to read " ++ path)

/-- `readModuleState`. -/
def readModuleState (path : ByteString) :
    Option (Entry ByteString ByteString) → Except ByteString ModuleState
  | none | some (.link _) => .ok {}
  | e => do readStateFile (some (← loadFile h path e))

def loadModule (name : ByteString) : Option Tree → Except ByteString (ModuleInfo × ModuleState)
  | none => .error (str "Module not found: " ++ name)
  | some t => do
      let text ← loadFile h (joinPath (modulePath name) infoName) (t.find infoName)
      let info ← parseModuleInfo text
      let state ← readModuleState h (joinPath (modulePath name) stateName.1) (t.find stateName.1)
      .ok (info, if state.installedAt.isEmpty then
        { state with installedAt := makeIsoTimestamp h.zip.installedAt } else state)

/-- What a module adds to a target. -/
def layerOf (m : Manager) (target name : ByteString) : Option Layer :=
  match loadModule h name (m.modules.lookup name) with
  | .error _ => none
  | .ok (info, state) =>
      if !state.enabled || !info.mount then none
      else ((m.modules.lookup name).bind (layer · target)).map (Layer.mk name)

def buildOverlayStacks (m : Manager) (target : ByteString) : List Layer :=
  (visible m.modules.keys).filterMap (layerOf h m target)

/-- One target's turn in `rebuildOverlays`. -/
def applyTarget (b : Rebuild) (layers : ByteString → List Layer) (target : ByteString)
    (firstErr : Option ByteString) : Act Manager ByteString (Option ByteString) :=
  match b.applies target with
  | .applied =>
      update fun m => (firstErr, { m with
        shown := Function.update m.shown target (some (layers target)) })
  | .deferred => pure firstErr
  | .failed err =>
      pure (firstErr.or (some (if err.isEmpty then
        str "Overlay apply failed for " ++ b.effectiveMountPoint target else err)))

def rebuildOverlays (b : Rebuild) : Act Manager ByteString Unit :=
  match b.runtimeErr with
  | some err => throw err
  | none => do
      let layers ← update fun m => (buildOverlayStacks h m, m)
      match ← forEach (applyTarget b layers) overlayTargets none with
      | none => pure ()
      | some firstErr => throw firstErr

/-- Do a step on a module's directory: does it work? -/
def change {ε : Type} (step : Step) (name : ByteString) (act : Option Tree → Option Tree) :
    Act Manager ε Bool :=
  update fun m => (h.zip.works step, m.set name (h.zip.after step act (m.modules.lookup name)))

/-- `writeState`, with the state that is written. -/
def writeState (step : Step) (name : ByteString) (state : ModuleState) :
    Act Manager ByteString ModuleState := do
  let state := { state with updatedAt := makeIsoTimestamp (h.zip.now step) }
  let failed := str "Failed to write " ++ joinPath (modulePath name) stateName.1
  if ← update fun m => (stateBlocked (m.modules.lookup name), m) then throw failed
  else if ← change h step name (addState state) then pure state
  else throw failed

/-- Rebuild the overlays, and write down why that fails. -/
def applyOrRecord (k : Nat) (name : ByteString) (state : ModuleState) :
    Act Manager ByteString Unit := do
  match ← attempt (rebuildOverlays h (h.rebuild k)) with
  | .ok () => pure ()
  | .error err =>
      let _ ← attempt (writeState h .record name { state with lastError := err })
      throw err

/-- The scripts may do anything to the module's directory. -/
def runLifecycleScripts {ε : Type} (info : ModuleInfo) (name : ByteString) : Act Manager ε Unit :=
  if info.runPostFsData || info.runService then
    update fun m => ((), m.set name (h.zip.left .lifecycle (m.modules.lookup name)))
  else pure ()

/-- `loadModule` in a call. -/
def load (name : ByteString) : Act Manager ByteString (ModuleInfo × ModuleState) := do
  match ← update fun m => (loadModule h name (m.modules.lookup name), m) with
  | .ok loaded => pure loaded
  | .error err => throw err

def enableModule (name : ByteString) : Act Manager ByteString ByteString := do
  let (info, state) ← load h name
  if state.enabled then pure (str "Module already enabled")
  else
    let state ← writeState h .state name { state with enabled := true, lastError := [] }
    applyOrRecord h 0 name state
    runLifecycleScripts h info name
    pure (str "Module enabled")

def disableModule (name : ByteString) : Act Manager ByteString ByteString := do
  let (_, state) ← load h name
  if !state.enabled then pure (str "Module already disabled")
  else
    let state ← writeState h .state name { state with enabled := false }
    applyOrRecord h 0 name state
    pure (str "Module disabled")

def removeModule (name : ByteString) : Act Manager ByteString ByteString := do
  let (_, state) ← load h name
  if state.enabled then
    let _ ← attempt (disableModule h name)
  let _ ← change h .clear name fun _ => none
  let _ ← attempt (rebuildOverlays h (h.rebuild 1))
  pure (str "Module removed")

/-! ### Installing -/

def moveIntoPlace (name : ByteString) (arrives : Option Tree) : Act Manager ByteString Unit := do
  if ← update fun m => (free (m.modules.lookup name) && h.zip.works .rename, m) then
    update fun m => ((), m.set name arrives)
  else throw (str "Failed to move module into place: " ++ h.zip.message .rename)

/-- Whether a work directory can be made is not looked at. -/
def createQuietly {ε : Type} (name : ByteString) (path : List FromZip.Name) (_ : Unit) :
    Act Manager ε Unit := do
  let _ ← change h (.makeDir path) name (addDir path)

/-- `runScript` of `install.sh`, which may do anything to the module's directory. -/
def runScript (name : ByteString) : Act Manager ByteString Unit := do
  let script := joinPath (modulePath name) installScript
  if ← update fun m => (hasScript h.zip name (m.modules.lookup name), m) then
    update fun m => ((), m.set name (h.zip.left .script (m.modules.lookup name)))
    if h.zip.works .script then pure ()
    else throw (str "Script failed: " ++ script ++ str " (rc=" ++ h.zip.message .script ++ str ")")
  else throw (str "Required script missing: " ++ script)

/-- The message of an install that was undone. -/
def rollbackMessage (scriptFailure : ByteString) (removedModule removedLog : Bool)
    (rollbackErr : ByteString) : ByteString :=
  scriptFailure ++ str "; module installation rolled back" ++
    (if removedModule then [] else str "; rollback failed to remove module directory") ++
    (if removedLog then [] else str "; rollback failed to remove module log") ++
    (if rollbackErr.isEmpty then [] else str "; overlay rebuild warning: " ++ rollbackErr)

/-- Undo an install whose script failed. -/
def rollbackModule (name scriptFailure : ByteString) : Act Manager ByteString Unit := do
  let removedModule ← change h .rollback name fun _ => none
  let rollbackErr := match ← attempt (rebuildOverlays h (h.rebuild 0)) with
    | .ok () => []
    | .error err => err
  throw (rollbackMessage scriptFailure removedModule (h.zip.works .removeLog) rollbackErr)

def runInstallScript (info : ModuleInfo) : Act Manager ByteString Unit := do
  if info.runInstallSh then
    match ← attempt (runScript h info.name) with
    | .ok () => pure ()
    | .error err => rollbackModule h info.name err
  else pure ()

def installFromZip (zipPath : ByteString) (now counter : Nat) :
    Act Manager ByteString ByteString := do
  match FromZip.unpack h.zip zipPath (joinPath getCacheDir (tempDirName now counter)) with
  | .error err => throw err
  | .ok (info, arrives) =>
      let _ ← change h .clear info.name fun _ => none
      moveIntoPlace h info.name arrives
      forEach (createQuietly h info.name) workDirs ()
      let state ← writeState h .state info.name
        { enabled := true, installedAt := makeIsoTimestamp h.zip.installedAt }
      runInstallScript h info
      applyOrRecord h 0 info.name state
      runLifecycleScripts h info info.name
      pure (str "Installed module '" ++ info.name ++ str "'")

/-! ### Listing -/

def listModules (m : Manager) : Except ByteString (List (ModuleInfo × ModuleState × ByteString)) :=
  (visible m.modules.keys).mapM fun name => do
    let (info, state) ← loadModule h name (m.modules.lookup name)
    .ok (info, state, modulePath name)

/-! ### Runs -/

/-- The name of a directory. -/
abbrev ModuleName := { name : ByteString // PlainName name }

inductive Op where
  | install (zipPath : ByteString) (now counter : Nat)
  | enable (name : ModuleName)
  | disable (name : ModuleName)
  | remove (name : ModuleName)
  /-- The daemon starts, or its overlays are asked for. -/
  | applyEnabled

def perform : Op → Act Manager ByteString ByteString
  | .install zipPath now counter => installFromZip h zipPath now counter
  | .enable name => enableModule h name.1
  | .disable name => disableModule h name.1
  | .remove name => removeModule h name.1
  | .applyEnabled => do
      rebuildOverlays h (h.rebuild 0)
      pure []

end Calls

/-- A call, with what the system does in it. -/
structure Event where
  op : Op
  host : Host

def step (m : Manager) (event : Event) : Manager := (exec (perform event.host event.op) m).2

end Apm.Ams.Store
