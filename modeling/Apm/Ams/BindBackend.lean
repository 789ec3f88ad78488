import Apm.Lib.Effect
import Apm.Lib.MountStack
import Apm.Util.Path
import Apm.Util.Tree
import Mathlib.Data.List.Sort

/-!
The bind-mount backend of `src/ams/module_manager.cpp`: the staged tree of the modules' layers is
shown at a target by binds of single files and overlays of directories.

Trees are looked at as they are before the first mount, since mounts are made under different
names. A mount is known by the path it was made on. The kernel and `cp` answer; labels, the tmpfs
under `/mnt` and the read-only remount are left out.
-/

namespace Apm.Config

def getModuleRuntimeDir : ByteString := str "/data/ams/.runtime"
def getModuleRuntimeBaseDir : ByteString := str "/data/ams/.runtime/base"

end Apm.Config

namespace Apm.Ams

open Apm.Fs Apm.Config Apm.Lib.Effect
open Apm.Lib.FileTree (Entry Kind overlay)
open Apm.Lib.MountStack (umount umountAll)

/-! ### Trees and mounts -/

/-- What paths below a point show. -/
abbrev View := List ByteString → Option (Kind ByteString)

structure Mount where
  point : ByteString
  shows : View

/-- The path is below the other one. -/
def covers (above path : ByteString) : Bool := (above ++ str "/").isPrefixOf path

/-- The mount table, the latest first, and what the backend keeps beside it. -/
structure Mounts where
  table : List Mount := []
  /-- `bind-mounts-<target>.txt`. -/
  stateFile : Option ByteString := none
  mountedNow : List ByteString := []
  asked : Nat := 0

/-- What the code does not decide, question by question. -/
structure Kernel where
  /-- The scratch directories are made. -/
  stages : Nat → Bool
  /-- `cp -a` of a layer onto the staged tree. -/
  copies : Nat → Tree → Tree → Option Tree
  stats : Nat → Bool
  binds : Nat → Bool
  /-- What a read-only overlay with this `lowerdir` shows, made of these directories. -/
  overlays : Nat → ByteString → Dir → Dir → Option View
  saves : Nat → Bool
  /-- What a failed write leaves of the state file. -/
  left : Nat → Option ByteString
  message : Nat → ByteString
  /-- What links at the top of the base mirror and of the target lead to. -/
  baseLeads : ByteString → Option (Entry ByteString ByteString)
  targetLeads : ByteString → Option (Entry ByteString ByteString)

/-- The path has no byte that means something in a list of `lowerdir`. -/
def PlainOption (path : ByteString) : Prop := ∀ c ∈ path, c ∉ [chr ':', chr ',', chr '\\']

instance (path : ByteString) : Decidable (PlainOption path) :=
  inferInstanceAs (Decidable (∀ c ∈ path, _))

structure OverlayTarget where
  name : ByteString
  mountPoint : ByteString
  plainName : PlainOption name
  nonempty : mountPoint ≠ []
  noSlash : mountPoint.getLast? ≠ some (chr '/')

variable (k : Kernel) (target : OverlayTarget)

/-- Put a question to the kernel. -/
def answered {α ε : Type} (question : Nat → α) : Act Mounts ε α :=
  update fun w => (question w.asked, { w with asked := w.asked + 1 })

/-! ### The state file -/

def bindMountStatePath : ByteString :=
  joinPath getModuleRuntimeDir (str "bind-mounts-" ++ target.name ++ str ".txt")

/-- The text of the state file. -/
def bindMountLines (paths : List ByteString) : ByteString :=
  paths.flatMap fun path => path ++ str "\n"

def saveBindMountState (mountedTargets : List ByteString) : Act Mounts ByteString Unit := do
  if ← answered k.saves then
    update fun w => ((), { w with stateFile := some (bindMountLines mountedTargets) })
  else do
    update fun w => ((), { w with stateFile := k.left w.asked })
    throw (str "Failed to persist bind mount state at " ++ bindMountStatePath target)

def trailing (c : UInt8) : Bool := c == chr '\n' || c == chr '\r' || c == chr ' ' || c == chr '\t'

/-- `loadBindMountState`: the paths in the file, sorted and without duplicates. -/
def loadBindMountState (raw : Option ByteString) : List ByteString :=
  let lines := (getlines (chr '\n') (raw.getD [])).map (·.rdropWhile trailing)
  ((lines.filter (!·.isEmpty)).insertionSort (· ≤ ·)).dedup

/-- `unmountPath`: what is not a mount point counts as unmounted. -/
def unmountPath {ε : Type} (path : ByteString) : Act Mounts ε Unit :=
  update fun w => ((), { w with table := umount Mount.point covers path w.table })

def unmountAll {ε : Type} (paths : List ByteString) : Act Mounts ε Unit :=
  forEach (fun path _ => unmountPath path) paths ()

def unmountTrackedBindMounts : Act Mounts ByteString Unit := do
  let mountedTargets ← update fun w => (loadBindMountState w.stateFile, w)
  unmountAll mountedTargets.reverse
  saveBindMountState k target []

/-! ### Mounting -/

/-- The mount was made: it is in the table and in `mountedNow`. -/
def mounted {ε : Type} (m : Mount) : Act Mounts ε Unit :=
  update fun w =>
    ((), { w with table := m :: w.table, mountedNow := w.mountedNow ++ [m.point] })

/-- What a regular file shows when it is bound. -/
def fileView (content : ByteString) : View := fun path =>
  (Entry.file content : Entry ByteString ByteString).lookup path

/-- `bindMountReadOnly`. -/
def bindMountReadOnly (source target content : ByteString) : Act Mounts ByteString Unit := do
  if ← answered k.binds then mounted ⟨target, fileView content⟩
  else throw (str "Failed to bind mount " ++ source ++ str " -> " ++ target ++ str ": " ++
    (← answered k.message))

def mountBindBackendSubdirOverlay (stagedDir baseDir targetDir : ByteString) (staged base : Dir) :
    Act Mounts ByteString Unit := do
  let lowerDir := stagedDir ++ str ":" ++ baseDir
  match ← answered fun n => k.overlays n lowerDir staged base with
  | some view => mounted ⟨targetDir, view⟩
  | none => throw (str "Read-only overlay mount failed for " ++ targetDir ++ str ": " ++
      (← answered k.message))

/-- `lstat` of an entry that was just listed. -/
def statStaged (path : ByteString) : Act Mounts ByteString Unit := do
  if ← answered k.stats then pure ()
  else throw (str "Failed to stat staged entry " ++ path ++ str ": " ++ (← answered k.message))

/-- Does an entry of the staged directory need an overlay here? -/
def misfit (base target : Dir) (name : ByteString) : Entry ByteString ByteString → Bool
  | .dir _ => !(isDir (base.find name) && isDir (target.find name))
  | .file _ => !(isRegular (base.find name) && isRegular (target.find name))
  | .link _ => true

/-- The turn of the first loop for one entry. -/
def scanEntry (stagedDir : ByteString) (base target : Dir) (name : ByteString)
    (e : Entry ByteString ByteString) (others : Act Mounts ByteString Bool) :
    Act Mounts ByteString Bool :=
  if hidden name then others
  else do
    statStaged k (joinPath stagedDir name)
    if misfit base target name e then pure true else others

/-- The first loop of `applyBindBackendRecursively`: `needOverlayHere`. -/
def scanEntries (stagedDir : ByteString) (base target : Dir) : Dir → Act Mounts ByteString Bool
  | .empty => pure false
  | .file name content rest =>
      scanEntry k stagedDir base target name (.file content)
        (scanEntries stagedDir base target rest)
  | .link name leads rest =>
      scanEntry k stagedDir base target name (.link leads) (scanEntries stagedDir base target rest)
  | .dir name inner rest =>
      scanEntry k stagedDir base target name (.dir inner) (scanEntries stagedDir base target rest)

/-- The turn of a later loop for one entry. -/
def mountEntry (stagedDir name : ByteString) (act others : Act Mounts ByteString Unit) :
    Act Mounts ByteString Unit :=
  if hidden name then others
  else do
    statStaged k (joinPath stagedDir name)
    act
    others

/-- The second loop of `applyBindBackendRecursively`. For a directory it goes into the function
again. -/
def bindEntries (stagedDir baseDir targetDir : ByteString) (base target : Dir) :
    Dir → Act Mounts ByteString Unit
  | .empty => pure ()
  | .file name content rest =>
      mountEntry k stagedDir name
        (bindMountReadOnly k (joinPath stagedDir name) (joinPath targetDir name) content)
        (bindEntries stagedDir baseDir targetDir base target rest)
  | .link name _ rest =>
      mountEntry k stagedDir name (pure ())
        (bindEntries stagedDir baseDir targetDir base target rest)
  | .dir name inner rest =>
      let stagedEntry := joinPath stagedDir name
      let baseEntry := joinPath baseDir name
      let targetEntry := joinPath targetDir name
      mountEntry k stagedDir name
        (match base.find name, target.find name with
          | some (.dir base), some (.dir target) => do
              if ← scanEntries k stagedEntry base target inner then
                mountBindBackendSubdirOverlay k stagedEntry baseEntry targetEntry inner base
              else bindEntries stagedEntry baseEntry targetEntry base target inner
          | _, _ => throw (str "Bind backend requires directory triad staged/base/target at " ++
              stagedEntry ++ str ", " ++ baseEntry ++ str ", " ++ targetEntry))
        (bindEntries stagedDir baseDir targetDir base target rest)

def applyBindBackendRecursively (stagedDir baseDir targetDir : ByteString)
    (staged base target : Dir) : Act Mounts ByteString Unit := do
  if ← scanEntries k stagedDir base target staged then
    mountBindBackendSubdirOverlay k stagedDir baseDir targetDir staged base
  else bindEntries k stagedDir baseDir targetDir base target staged

/-- What `isDirectory` and `isFile` look at: a link is followed. -/
def followed (leads : ByteString → Option (Entry ByteString ByteString)) (d : Dir)
    (name : ByteString) : Option (Entry ByteString ByteString) :=
  match d.find name with
  | some (.link text) => leads text
  | e => e

/-- The loop over the top of the staged tree. At a link all is shown by one overlay. -/
def bindTop (stagedLayer baseRoot mountPoint : ByteString) (staged base target : Dir) :
    Dir → Act Mounts ByteString Unit
  | .empty => pure ()
  | .file name content rest =>
      mountEntry k stagedLayer name
        (match followed k.baseLeads base name, followed k.targetLeads target name with
          | some (.file _), some (.file _) =>
              bindMountReadOnly k (joinPath stagedLayer name) (joinPath mountPoint name) content
          | _, _ => throw (str "Bind backend requires existing top-level files at " ++
              joinPath baseRoot name ++ str " and " ++ joinPath mountPoint name))
        (bindTop stagedLayer baseRoot mountPoint staged base target rest)
  | .dir name inner rest =>
      mountEntry k stagedLayer name
        (match followed k.baseLeads base name, followed k.targetLeads target name with
          | some (.dir base), some (.dir target) =>
              applyBindBackendRecursively k (joinPath stagedLayer name) (joinPath baseRoot name)
                (joinPath mountPoint name) inner base target
          | _, _ => throw (str "Bind backend requires existing top-level directories at " ++
              joinPath baseRoot name ++ str " and " ++ joinPath mountPoint name))
        (bindTop stagedLayer baseRoot mountPoint staged base target rest)
  | .link name _ rest =>
      if hidden name then bindTop stagedLayer baseRoot mountPoint staged base target rest
      else do
        statStaged k (joinPath stagedLayer name)
        match ← attempt
          (mountBindBackendSubdirOverlay k stagedLayer baseRoot mountPoint staged base) with
        | .ok () => pure ()
        | .error err => throw (str "Failed to mount fallback read-only overlay for " ++
            mountPoint ++ str ": " ++ err)

/-! ### The backend -/

def stagingRoot : ByteString := str "/mnt/ams-overlay-" ++ target.name

def stagedLayerPath : ByteString :=
  joinPath (joinPath (stagingRoot target) target.name) (str "bind-layer")

def baseMirrorPath : ByteString := joinPath getModuleRuntimeBaseDir target.name

/-- `copyLayerIntoUpper` for one layer; `none` is a layer that is no directory. -/
def copyLayer (layer : Option Tree) (staged : Tree) : Act Mounts ByteString Tree :=
  match layer with
  | none => pure staged
  | some layer => do
      match ← answered fun n => k.copies n layer staged with
      | some staged => pure staged
      | none => throw (str "Failed to stage bind layer for " ++ target.name ++ str ": " ++
          (← answered k.message))

/-- The staged tree of the layers. -/
def stageLayers (layers : List (Option Tree)) : Act Mounts ByteString Tree := do
  if ← answered k.stages then forEach (copyLayer k target) layers ⟨.empty, trivial⟩
  else throw (← answered k.message)

/-- `rollback`: unmount what was mounted, the latest first. -/
def rollback {ε : Type} : Act Mounts ε Unit := do
  let mountedNow ← update fun w => (w.mountedNow, w)
  unmountAll mountedNow.reverse

/-- Undo the mounts where a step fails. -/
def orRollback (act : Act Mounts ByteString Unit) : Act Mounts ByteString Unit := do
  match ← attempt act with
  | .ok () => pure ()
  | .error err => do
      rollback
      throw err

/-- The part of the backend that mounts a staged tree. -/
def mountStaged (base live staged : Tree) : Act Mounts ByteString Unit := do
  update fun w => ((), { w with mountedNow := [] })
  orRollback (bindTop k (stagedLayerPath target) (baseMirrorPath target) target.mountPoint staged.1
    base.1 live.1 staged.1)
  let mountedNow ← update fun w => (w.mountedNow, w)
  orRollback (saveBindMountState k target mountedNow)

/-- `applyBindMountBackendForTarget`, where `base` is the captured mirror and `live` the target. -/
def applyBindMountBackendForTarget (layers : List (Option Tree)) (base live : Tree) :
    Act Mounts ByteString Unit := do
  unmountTrackedBindMounts k target
  if layers.isEmpty then pure ()
  else
    let staged ← stageLayers k target layers
    mountStaged k target base live staged

end Apm.Ams
