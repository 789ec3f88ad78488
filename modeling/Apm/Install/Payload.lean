import Apm.Core.DebExtractor
import Apm.Install.Install
import Apm.Util.Trace

/-!
`ensureDebForPackage` and `installSinglePackage` of `src/apmd/install_manager.cpp`: where a
`.deb` is fetched to and unpacked, and what is done with which path.

The system answers whether an action works and what a directory or a file holds. Modes,
owners and the contents of the payload's files are left out.
-/

namespace Apm.Install

open Apm.Repo Apm.Fs Apm.Config Apm.Lib.Effect Apm.Lib.Walk

/-! ### Files -/

/-- A name that `readdir` gives, other than `.` and `..`. -/
structure FileName where
  text : ByteString
  plain : PlainName text

inductive ItemKind where
  | dir | link | file
deriving DecidableEq

/-- What stands in a directory tree, by the names on the way to it. -/
structure TreeItem where
  dirs : List FileName
  name : FileName
  kind : ItemKind

/-- What the system answers while a package is unpacked. -/
structure Unpacker extends System where
  /-- The names in the headers of the archive, up to its end or to an error. -/
  members : List Deb.HeaderName
  debError : Option ByteString
  /-- The Termux tree in the payload, in the order it is walked. -/
  tree : List TreeItem

variable {ε : Type} (dev : Unpacker)

/-- The path of a file in the manifest. -/
def TreeItem.rel (item : TreeItem) : ByteString :=
  (str "/").intercalate (str "usr" :: (item.dirs ++ [item.name]).map (·.text))

/-- `fs::writeFile`, with the directory above the file. -/
def writeAt (home path : ByteString) : Act Trace ε Bool :=
  andAlso (touch dev.toSystem .create home (parentOf path)) (touch dev.toSystem .write home path)

/-! ### Termux payloads -/

def ensureDirectoryMode (home path : ByteString) : Act Trace ε Bool :=
  andAlso (touch dev.toSystem .create home path) (ask dev.toSystem)

/-- Make a directory, and remember whether all could be made so far. -/
def ensureNext (path : ByteString) (ok : Bool) : Act Trace ε Bool := do
  pure ((← ensureDirectoryMode dev getInstalledDir path) && ok)

def rootSubdirs : List ByteString :=
  ["bin", "lib", "lib64", "lib32", "opt", "mnt", "var", "etc", "tmp", "home"].map str

def prefixSubdirs : List ByteString :=
  ["bin", "lib", "lib64", "lib32", "libexec", "include", "share", "etc", "opt", "var",
    "tmp"].map str

def termuxRuntimeDirs : List ByteString :=
  [getTermuxRoot, getTermuxPrefix, getTermuxInstalledDir] ++
    rootSubdirs.map (joinPath getTermuxRoot) ++ prefixSubdirs.map (joinPath getTermuxPrefix)

def ensureTermuxRuntimeDirs : Act Trace ε Bool := do
  let ok ← forEach (ensureNext dev) termuxRuntimeDirs true
  pure ((← ensureDirectoryMode dev getApmBinDir getApmBinDir) && ok)

/-- Make a directory of the environment file. -/
def ensureEnvDir (path : ByteString) (ok : Bool) : Act Trace ε Bool := do
  pure ((← touch dev.toSystem .create getInstalledDir path) && ok)

/-- `writeAtomicFile`: write to another file, and rename it. -/
def writeAtomicFile (path : ByteString) : Act Trace ε Bool := do
  if !(← touch dev.toSystem .create getInstalledDir (parentOf path)) then pure false
  else
    let tmpPath := path ++ str ".tmp"
    if !(← writeAt dev getInstalledDir tmpPath) then pure false
    else if ← touch dev.toSystem .rename getInstalledDir path then pure true
    else
      let _ ← touch dev.toSystem .unlink getInstalledDir tmpPath
      pure false

/-- `ensureTermuxEnvFile`: why it fails, if it does. -/
def ensureTermuxEnvFile : Act Trace ε (Option ByteString) := do
  let ok ← forEach (ensureEnvDir dev)
    [getTermuxRoot, getTermuxPrefix, getTermuxHomeDir, getTermuxTmpDir] true
  let message := str "Failed to write Termux runtime env file: " ++ getTermuxEnvFile
  if !ok then pure (some message)
  else if ← ask dev.toSystem then pure none
  else if ← writeAtomicFile dev getTermuxEnvFile then pure none
  else pure (some message)

/-- The path of a name below directories. -/
def treePath (base : ByteString) (dirs : List FileName) : ByteString :=
  dirs.foldl (fun path name => joinPath path name.text) base

/-- `copyFilePreserveMode`. -/
def copyFilePreserveMode (dst : ByteString) : Act Trace ε Bool := do
  if !(← ask dev.toSystem) then pure false
  else if !(← touch dev.toSystem .create getInstalledDir (parentOf dst)) then pure false
  else
    let _ ← touch dev.toSystem .unlink getInstalledDir dst
    if ← touch dev.toSystem .write getInstalledDir dst then pure true
    else
      let _ ← touch dev.toSystem .unlink getInstalledDir dst
      pure false

/-- `copySymlink`; the link may be unreadable or unsafe. -/
def copySymlink (dst : ByteString) : Act Trace ε Bool := do
  if !(← ask dev.toSystem) then pure false
  else
    let _ ← touch dev.toSystem .create getInstalledDir (parentOf dst)
    let _ ← touch dev.toSystem .unlink getInstalledDir dst
    touch dev.toSystem .write getInstalledDir dst

/-- Copy one thing of the tree: did all go well, and what is installed so far? -/
def copyItem (item : TreeItem) (x : Bool × List TreeItem) : Act Trace ε (Bool × List TreeItem) := do
  let dst := joinPath (treePath getTermuxPrefix item.dirs) item.name.text
  if !x.1 then pure x
  else
    match item.kind with
    | .dir => pure (← ensureDirectoryMode dev getInstalledDir dst, x.2)
    | .link =>
        let ok ← copySymlink dev dst
        pure (ok, if ok then x.2 ++ [item] else x.2)
    | .file =>
        let ok ← copyFilePreserveMode dev dst
        pure (ok, if ok then x.2 ++ [item] else x.2)

/-- `copyTermuxTree` into the Termux prefix. -/
def copyTermuxTree : Act Trace ε (Bool × List TreeItem) := do
  if ← ensureDirectoryMode dev getInstalledDir getTermuxPrefix then
    forEach (copyItem dev) dev.tree (true, [])
  else pure (false, [])

def writeTermuxManifest (installRoot : ByteString) : Act Trace ε Bool :=
  writeAt dev getInstalledDir (joinPath installRoot (str "files.list"))

/-- `readTermuxManifest`. -/
def readTermuxManifest : Act Trace ε (Option (List ByteString)) := do
  if ← ask dev.toSystem then
    let content ← askText dev.toSystem
    pure (some (((getlines (chr '\n') content).map dropCr).filter (!·.isEmpty)))
  else pure none

/-- The command that a path of a manifest is, if it is one. -/
def commandOf (rel : ByteString) : Option ByteString :=
  if (str "usr/bin/").isPrefixOf rel then
    let cmd := rel.drop (str "usr/bin/").length
    if cmd.contains (chr '/') || cmd.isEmpty then none else some cmd
  else none

/-- Remove a path of a manifest, and its wrapper. -/
def removeInstalledPath (rel : ByteString) (errorMsg : Option ByteString) :
    Act Trace ε (Option ByteString) := do
  let full := joinPath getTermuxRoot rel
  let gone ← touch dev.toSystem .unlink getTermuxRoot full
  let there ← ask dev.toSystem
  let errorMsg := if !gone && there then
    errorMsg.or (some (str "Failed to remove Termux payload path: " ++ full)) else errorMsg
  match commandOf rel with
  | none => pure errorMsg
  | some cmd =>
      let gone ← touch dev.toSystem .unlink getApmBinDir (joinPath getApmBinDir cmd)
      pure (if gone then errorMsg
        else errorMsg.or (some (str "Failed to remove Termux wrapper: " ++ cmd)))

/-- Why some path could not be removed, if one could not. -/
def removeInstalledTermuxPaths (paths : List ByteString) : Act Trace ε (Option ByteString) :=
  forEach (removeInstalledPath dev) paths none

/-- Empty directories below the prefix are removed too. -/
def rollbackTermuxInstall (installRoot : ByteString) (installedPaths : List ByteString) :
    Act Trace ε Unit := do
  let _ ← removeInstalledTermuxPaths dev installedPaths
  let _ ← touch dev.toSystem .removeTree getInstalledDir installRoot
  pure ()

/-- `createTermuxWrapper`, for a command. Its result is not looked at. -/
def createWrapper (item : TreeItem) (_ : Unit) : Act Trace ε Unit := do
  match commandOf item.rel with
  | none => pure ()
  | some cmd =>
      if ← touch dev.toSystem .create getApmBinDir getApmBinDir then
        let _ ← writeAt dev getApmBinDir (joinPath getApmBinDir cmd)
        pure ()
      else pure ()

/-- Prepare what all Termux packages need: why it fails, if it does. -/
def prepareTermux : Act Trace ε (Option ByteString) := do
  if ← ensureTermuxRuntimeDirs dev then ensureTermuxEnvFile dev
  else pure (some (str "Failed to prepare Termux runtime directories"))

/-- `rewriteTermuxPathsDuringExtraction`: the paths installed. -/
def rewriteTermuxPathsDuringExtraction (installRoot : ByteString) :
    Act Trace ByteString (List TreeItem) := do
  if !(← ask dev.toSystem) then throw (str "Termux layout not found in package payload")
  else
    match ← prepareTermux dev with
    | some err => throw err
    | none =>
        let _ ← touch dev.toSystem .removeTree getInstalledDir installRoot
        if !(← touch dev.toSystem .create getInstalledDir installRoot) then
          throw (str "Failed to prepare Termux install root: " ++ installRoot)
        else
          let (copied, installedPaths) ← copyTermuxTree dev
          if !copied then
            rollbackTermuxInstall dev installRoot (installedPaths.map TreeItem.rel)
            throw (str "Failed to rewrite Termux paths during extraction")
          else if !(← writeTermuxManifest dev installRoot) then
            rollbackTermuxInstall dev installRoot (installedPaths.map TreeItem.rel)
            throw (str "Failed to write Termux manifest")
          else pure installedPaths

/-- Remove what an earlier install of a Termux package left, unless the package is recorded:
is the root gone, and why not? -/
def cleanupStaleTermuxInstallRoot (installRoot : ByteString) :
    Act Trace ε (Bool × ByteString) := do
  if !(← ask dev.toSystem) then pure (false, str "Failed to inspect installed package status")
  else if ← ask dev.toSystem then pure (false, [])
  else
    let manifest ← readTermuxManifest dev
    rollbackTermuxInstall dev installRoot (manifest.getD [])
    if ← ask dev.toSystem then
      pure (false, str "Failed to remove stale Termux install root: " ++ installRoot)
    else pure (true, [])

/-! ### Fetching -/

/-- `downloadFile`, with the directory above the file. What a failed transfer leaves is
removed. -/
def downloadTo (home path : ByteString) : Act Trace ε Bool := do
  if !(← writeAt dev home path) then pure false
  else if ← ask dev.toSystem then pure true
  else
    let _ ← touch dev.toSystem .unlink home path
    pure false

/-- `ensureDebForPackage`, by its paths. -/
def fetchDeb (pkg : PackageEntry) (queue : Bool) :
    Act Trace ByteString (ByteString × Option DownloadRequest) := do
  match Security.validatePackageName pkg.packageName with
  | some nameErr => throw nameErr
  | none =>
      let debPath := joinPath getPkgsDir (makeDebFileName pkg)
      if !(← touch dev.toSystem .create getPkgsDir getPkgsDir) then
        throw (str "Failed to create PKGS_DIR: " ++ getPkgsDir)
      else if ← ask dev.toSystem then pure (debPath, none)
      else if pkg.filename.isEmpty then
        throw (str "Package " ++ pkg.packageName ++
          str " has no Filename field; please place .deb at " ++ debPath)
      else if ← ask dev.toSystem then pure (joinPath getPkgsDir (baseName pkg.filename), none)
      else
        match debUrl pkg with
        | none =>
            throw (str "Cannot construct download URL for package " ++ pkg.packageName ++
              str "; Filename=" ++ pkg.filename ++
              str ", repoUri is empty. Place the .deb manually at " ++ debPath)
        | some url =>
            if queue then pure (debPath, some { url, destination := debPath })
            else if ← downloadTo dev getPkgsDir debPath then pure (debPath, none)
            else
              let dlErr ← askText dev.toSystem
              throw (str "Download failed for " ++ url ++ str ": " ++ dlErr)

/-! ### One package -/

def tmpName (pkg : PackageEntry) : ByteString :=
  str "apm-install-" ++ pkg.packageName ++ str "-" ++ pkg.version

def removeTmpRoot (tmpRoot : ByteString) : Act Trace ε Unit := do
  let _ ← touch dev.toSystem .removeTree getCacheDir tmpRoot
  pure ()

/-- Remove the temporary directory and fail. -/
def giveUp {α : Type} (tmpRoot message : ByteString) : Act Trace ByteString α := do
  removeTmpRoot dev tmpRoot
  throw message

/-- Write the parts of the archive that are needed, and remember where. -/
def extractMember (outputDir : ByteString) (header : Deb.HeaderName) (parts : Deb.DebParts) :
    Act Trace ByteString Deb.DebParts := do
  match Deb.partOf outputDir header.1 with
  | none => pure parts
  | some part =>
      if ← touch dev.toSystem .write getCacheDir part.path then pure (parts.add part)
      else throw (str "Failed to create output file: " ++ part.path)

def extractDebArchive (debPath outputDir : ByteString) : Act Trace ByteString Deb.DebParts := do
  if !(← ask dev.toSystem) then throw (str "Deb file does not exist: " ++ debPath)
  else if !(← touch dev.toSystem .create getCacheDir outputDir) then
    throw (str "Failed to create output directory: " ++ outputDir)
  else
    let parts ← forEach (extractMember dev outputDir) dev.members {}
    match dev.debError with
    | some err => throw err
    | none => pure parts

/-- Unpack one part of the archive into a directory, if it is there. -/
def extractPart (tmpRoot tarPath dir : ByteString) (which : ByteString) :
    Act Trace ByteString Unit := do
  if tarPath.isEmpty then pure ()
  else
    match ← attempt (touchOrFail dev.toSystem .extract getCacheDir dir) with
    | .ok _ => pure ()
    | .error err =>
        giveUp dev tmpRoot (str "Failed to extract " ++ which ++ str " tar: " ++ err)

/-- Unpack the archive below the temporary directory. -/
def unpackDeb (tmpRoot workDir debPath : ByteString) : Act Trace ByteString Unit := do
  match ← attempt (extractDebArchive dev debPath workDir) with
  | .error err => giveUp dev tmpRoot (str "extractDebArchive failed: " ++ err)
  | .ok parts =>
      let controlDir := joinPath workDir (str "control")
      let dataDir := joinPath workDir (str "data")
      if !(← andAlso (touch dev.toSystem .create getCacheDir controlDir)
          (touch dev.toSystem .create getCacheDir dataDir)) then
        giveUp dev tmpRoot (str "Failed to create control/data dirs in " ++ workDir)
      else
        extractPart dev tmpRoot parts.controlTarPath controlDir (str "control")
        extractPart dev tmpRoot parts.dataTarPath dataDir (str "data")

/-- Make the directory for the package's root. -/
def prepareParent (tmpRoot installRoot : ByteString) : Act Trace ByteString Unit := do
  if !(← touch dev.toSystem .create getInstalledDir getInstalledDir) then
    giveUp dev tmpRoot (str "Failed to create INSTALLED_DIR: " ++ getInstalledDir)
  else
    let parent := parentOf installRoot
    if ← touch dev.toSystem .create getInstalledDir parent then pure ()
    else giveUp dev tmpRoot (str "Failed to create install parent: " ++ parent)

/-- Deal with a root that is there already, in a first install. -/
def clearStaleRoot (termuxMode : Bool) (installRoot : ByteString) :
    Act Trace ε (Bool × ByteString) :=
  if termuxMode then cleanupStaleTermuxInstallRoot dev installRoot else pure (false, [])

/-- Deal with a root that is there already. -/
def clearRoot (reinstall termuxMode : Bool) (tmpRoot installRoot : ByteString) :
    Act Trace ByteString Unit := do
  if !(← ask dev.toSystem) then pure ()
  else if reinstall then
    let _ ← andAlso (ask dev.toSystem) (touch dev.toSystem .removeTree getInstalledDir installRoot)
    pure ()
  else
    let (cleaned, err) ← clearStaleRoot dev termuxMode installRoot
    if ← andAlso (pure !cleaned) (ask dev.toSystem) then
      giveUp dev tmpRoot (if err.isEmpty then str "Install root already exists: " ++ installRoot
        else err)
    else pure ()

/-- A Termux package without files gets a root with an empty manifest. -/
def placeEmpty (tmpRoot installRoot : ByteString) : Act Trace ByteString Unit := do
  if !(← ask dev.toSystem) then
    giveUp dev tmpRoot (str "Termux package flag set but layout not detected")
  else if !(← ensureDirectoryMode dev getInstalledDir installRoot) then
    giveUp dev tmpRoot (str "Failed to prepare Termux install root: " ++ installRoot)
  else if !(← writeTermuxManifest dev installRoot) then
    let _ ← touch dev.toSystem .removeTree getInstalledDir installRoot
    giveUp dev tmpRoot (str "Failed to write Termux manifest")
  else removeTmpRoot dev tmpRoot

/-- Put the files of a Termux package in place. -/
def placeTermux (tmpRoot installRoot : ByteString) : Act Trace ByteString Unit := do
  match ← attempt (rewriteTermuxPathsDuringExtraction dev installRoot) with
  | .error err =>
      giveUp dev tmpRoot (if err.isEmpty then str "Failed to install Termux payload" else err)
  | .ok installedPaths =>
      forEach (createWrapper dev) installedPaths ()
      removeTmpRoot dev tmpRoot

/-- Move the unpacked tree to the package's root. -/
def placeTree (tmpRoot dataDir installRoot : ByteString) : Act Trace ByteString Unit := do
  match ← attempt (touchOrFail dev.toSystem .rename getInstalledDir installRoot) with
  | .ok _ => removeTmpRoot dev tmpRoot
  | .error err =>
      giveUp dev tmpRoot (str "Failed to move data dir " ++ dataDir ++ str " -> " ++ installRoot ++
        str ": " ++ err)

/-- The part of `installSinglePackage` behind the unpacking. -/
def placePayload (opts : InstallOptions) (tmpRoot dataDir installRoot : ByteString) :
    Act Trace ByteString Unit := do
  prepareParent dev tmpRoot installRoot
  let termuxLayout ← ask dev.toSystem
  let termuxMode := opts.isTermuxPackage || termuxLayout
  clearRoot dev opts.reinstall termuxMode tmpRoot installRoot
  if !termuxMode then placeTree dev tmpRoot dataDir installRoot
  else if termuxLayout then placeTermux dev tmpRoot installRoot
  else placeEmpty dev tmpRoot installRoot

/-- `installSinglePackage`, by its paths. -/
def unpackPackage (pkg : PackageEntry) (debPath : ByteString) (opts : InstallOptions)
    (installRoot : ByteString) : Act Trace ByteString Unit := do
  match Security.validatePackageName pkg.packageName with
  | some nameErr => throw nameErr
  | none =>
      let tmpRoot := joinPath getCacheDir (tmpName pkg)
      if !(← touch dev.toSystem .create getCacheDir tmpRoot) then
        throw (str "Failed to create temp directory: " ++ tmpRoot)
      else
        let workDir := joinPath tmpRoot (str "work")
        if !(← touch dev.toSystem .create getCacheDir workDir) then
          giveUp dev tmpRoot (str "Failed to create work directory: " ++ workDir)
        else
          unpackDeb dev tmpRoot workDir debPath
          placePayload dev opts tmpRoot (joinPath workDir (str "data")) installRoot

end Apm.Install
