import Apm.Ams.ModuleInfo
import Apm.Util.Trace

/-!
The module manager of `src/ams/module_manager.cpp`, by the paths it acts on: modules are
installed, enabled, disabled and removed.

The system answers whether an action works and what a file holds. Rebuilding the overlays
(`applyEnabledModules`) acts on fixed paths, whatever the modules are called; here it is one
more answer. Time stamps and the texts written are left out.
-/

namespace Apm.Ams

open Apm.Fs Apm.Config Apm.Lib.Effect

variable {ε : Type} (sys : System)

def modulePath (name : ByteString) : ByteString := joinPath getModulesDir name

def moduleLogPath (name : ByteString) : ByteString :=
  joinPath getModuleLogsDir (name ++ str ".log")

/-- `writeFile` and `appendFile`, with the directory above the file. -/
def writeAt (home path : ByteString) : Act Trace ε Bool :=
  andAlso (touch sys .create home (parentOf path)) (touch sys .write home path)

/-- `logModuleEvent`. -/
def logModuleEvent (name : ByteString) : Act Trace ε Unit := do
  let _ ← touch sys .create getModuleLogsDir getModuleLogsDir
  let _ ← writeAt sys getModuleLogsDir (moduleLogPath name)
  pure ()

/-- `readModuleInfoFile`, of a file with this text. -/
def readModuleInfoFile (path text : ByteString) : Act Trace ByteString ModuleInfo := do
  if ← ask sys then
    match parseModuleInfo text with
    | .ok info => pure info
    | .error err => throw err
  else throw (str "Failed to read " ++ path)

/-- `readModuleState`: is the module enabled? Without a file it is not. -/
def readModuleState (path : ByteString) : Act Trace ByteString Bool := do
  if !(← ask sys) then pure false
  else if ← ask sys then
    match parseModuleState (← askText sys) with
    | .ok enabled => pure enabled
    | .error err => throw err
  else throw (str "Failed to read " ++ path)

/-- `writeState` in a module's directory. -/
def writeState (moduleDir : ByteString) : Act Trace ByteString Unit := do
  let path := joinPath moduleDir (str "state.json")
  if ← writeAt sys getModulesDir path then pure () else throw (str "Failed to write " ++ path)

/-- `applyEnabledModules`: the overlays are rebuilt, or not. -/
def applyEnabledModules : Act Trace ByteString Unit := do
  if ← ask sys then pure () else throw (← askText sys)

/-- `runScript`: the shell appends the script's output to the module's log. -/
def runScript (path moduleName : ByteString) (requireExists : Bool) :
    Act Trace ByteString Unit := do
  if !(← ask sys) then
    if requireExists then
      logModuleEvent sys moduleName
      throw (str "Required script missing: " ++ path)
    else pure ()
  else if ← touch sys .write getModuleLogsDir (moduleLogPath moduleName) then
    logModuleEvent sys moduleName
  else
    logModuleEvent sys moduleName
    throw (str "Script failed: " ++ path)

/-- Run a script if it is asked for. Whether it fails is not looked at. -/
def runOptionalScript (wanted : Bool) (path moduleName : ByteString) :
    Act Trace ByteString Unit := do
  if wanted then
    let _ ← attempt (runScript sys path moduleName false)
    pure ()
  else pure ()

def runLifecycleScripts (info : ModuleInfo) (moduleDir : ByteString) :
    Act Trace ByteString Unit := do
  runOptionalScript sys info.runPostFsData (joinPath moduleDir (str "post-fs-data.sh")) info.name
  runOptionalScript sys info.runService (joinPath moduleDir (str "service.sh")) info.name

/-- Rebuild the overlays, and write down why that fails. -/
def applyOrRecord (moduleDir : ByteString) : Act Trace ByteString Unit := do
  match ← attempt (applyEnabledModules sys) with
  | .ok () => pure ()
  | .error err =>
      let _ ← attempt (writeState sys moduleDir)
      throw err

/-! ### Installing -/

/-- The directory a zip is unpacked in, by a clock and a counter. -/
def tempDirName (now counter : Nat) : ByteString :=
  str "ams-zip-" ++ decimal now ++ str "-" ++ decimal counter

/-- Where the module is in the unpacked zip: at its top, or in its only directory. -/
def findModuleRoot (tempDir : ByteString) : Act Trace ε ByteString := do
  if ← ask sys then pure tempDir
  else if ← ask sys then
    let candidate := joinPath tempDir (← askText sys)
    if ← andAlso (ask sys) (ask sys) then pure candidate else pure tempDir
  else pure tempDir

/-- Unpack the zip and move the module into place. -/
def placeModule (tempDir infoText : ByteString) : Act Trace ByteString ModuleInfo := do
  if !(← touch sys .create getCacheDir tempDir) then
    throw (str "Failed to create temp directory: " ++ tempDir)
  else if !(← touch sys .extract getCacheDir tempDir) then throw (← askText sys)
  else
    let moduleRoot ← findModuleRoot sys tempDir
    let info ← readModuleInfoFile sys (joinPath moduleRoot (str "module-info.json")) infoText
    if !(← ask sys) then throw (str "Module overlay directory missing")
    else
      let finalPath := modulePath info.name
      let _ ← touch sys .removeTree getModulesDir finalPath
      let _ ← touch sys .create getModulesDir getModulesDir
      if ← touch sys .rename getModulesDir finalPath then pure info
      else throw (str "Failed to move module into place: " ++ (← askText sys))

/-- Rebuild the overlays, and give a warning if that fails. -/
def overlayWarning : Act Trace ε ByteString := do
  match ← attempt (applyEnabledModules sys) with
  | .ok () => pure []
  | .error err => pure (if err.isEmpty then [] else str "; overlay rebuild warning: " ++ err)

/-- Undo an install whose script failed. -/
def rollbackModule (name scriptFailure : ByteString) : Act Trace ByteString Unit := do
  let removedModule ← touch sys .removeTree getModulesDir (modulePath name)
  let removedLog ← touch sys .unlink getModuleLogsDir (moduleLogPath name)
  let warning ← overlayWarning sys
  throw (scriptFailure ++ str "; module installation rolled back" ++
    (if removedModule then [] else str "; rollback failed to remove module directory") ++
    (if removedLog then [] else str "; rollback failed to remove module log") ++ warning)

def overlayTargets : List ByteString := ["system", "vendor", "product"].map str

/-- Make a directory; whether that works is not looked at. -/
def createQuietly (path : ByteString) (_ : Unit) : Act Trace ε Unit := do
  let _ ← touch sys .create getModulesDir path
  pure ()

/-- Run the module's `install.sh` if it has one. -/
def runInstallScript (info : ModuleInfo) : Act Trace ByteString Unit := do
  if info.runInstallSh then
    let script := joinPath (modulePath info.name) (str "install.sh")
    match ← attempt (runScript sys script info.name true) with
    | .ok () => pure ()
    | .error err => rollbackModule sys info.name err
  else pure ()

/-- What `installFromZip` does with a module in place. -/
def setUpModule (info : ModuleInfo) : Act Trace ByteString Unit := do
  let finalPath := modulePath info.name
  let workDir := joinPath finalPath (str "workdir")
  forEach (createQuietly sys) (workDir :: overlayTargets.map (joinPath workDir)) ()
  writeState sys finalPath
  logModuleEvent sys info.name
  runInstallScript sys info
  applyOrRecord sys finalPath
  runLifecycleScripts sys info finalPath

/-- `installFromZip`, of a zip with this `module-info.json`. -/
def installFromZip (zipPath infoText : ByteString) (now counter : Nat) :
    Act Trace ByteString Unit := do
  if zipPath.isEmpty then throw (str "Module zip path is empty")
  else if !(← ask sys) then throw (str "Module zip not found: " ++ zipPath)
  else
    let tempDir := joinPath getCacheDir (tempDirName now counter)
    if !(← touch sys .create getCacheDir tempDir) then
      throw (str "Failed to create temporary directory")
    else
      -- the unpacked zip is removed on every way out
      let placed ← attempt (placeModule sys tempDir infoText)
      let _ ← touch sys .removeTree getCacheDir tempDir
      match placed with
      | .error err => throw err
      | .ok info => setUpModule sys info

/-! ### By name -/

/-- `loadModule`: the module's information, and whether it is enabled. -/
def loadModule (name : ByteString) : Act Trace ByteString (ModuleInfo × Bool) := do
  let dir := modulePath name
  if !(← ask sys) then throw (str "Module not found: " ++ name)
  else
    let infoText ← askText sys
    let info ← readModuleInfoFile sys (joinPath dir (str "module-info.json")) infoText
    let enabled ← readModuleState sys (joinPath dir (str "state.json"))
    pure (info, enabled)

def enableModule (name : ByteString) : Act Trace ByteString Unit := do
  let (info, enabled) ← loadModule sys name
  if enabled then pure ()
  else
    let dir := modulePath name
    writeState sys dir
    logModuleEvent sys name
    applyOrRecord sys dir
    runLifecycleScripts sys info dir

def disableModule (name : ByteString) : Act Trace ByteString Unit := do
  let (_, enabled) ← loadModule sys name
  if !enabled then pure ()
  else
    let dir := modulePath name
    writeState sys dir
    logModuleEvent sys name
    applyOrRecord sys dir

/-- Disable a module before it is removed. -/
def disableFirst (enabled : Bool) (name : ByteString) : Act Trace ByteString Unit := do
  if enabled then
    let _ ← attempt (disableModule sys name)
    pure ()
  else pure ()

def removeModule (name : ByteString) : Act Trace ByteString Unit := do
  let (_, enabled) ← loadModule sys name
  disableFirst sys enabled name
  let _ ← touch sys .removeTree getModulesDir (modulePath name)
  let _ ← touch sys .unlink getModuleLogsDir (moduleLogPath name)
  logModuleEvent sys name
  let _ ← attempt (applyEnabledModules sys)
  pure ()

end Apm.Ams
