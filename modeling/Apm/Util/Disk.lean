import Apm.Lib.Effect
import Apm.Util.Path

/-!
The disk and the outside world.

A disk maps locations to nodes. What the program cannot decide (whether a system
call succeeds, what a server sends, what a failed write leaves behind, how paths
resolve to locations) is answered by an `Outside`, question by question; a world
counts the questions. A result that holds for every `Outside` holds for every
pattern of failures and every server.

The operations are those of `src/util/fs.cpp` and `src/core/downloader.cpp` that the
modelled code calls. Texts of failed system calls are the outside's.
-/

namespace Apm.Fs

open Apm.Lib.Effect

inductive Node where
  | file (content : ByteString)
  | dir
deriving DecidableEq

/-- What becomes of a file opened for writing. A damaged write leaves other bytes
behind and may still report success, when they are lost at the close. -/
inductive WriteAnswer where
  | written
  | refused
  | damaged (reported : Bool) (left : ByteString)

/-- What becomes of a download. A failed one may leave a file behind, when its
removal fails too. -/
inductive DownloadAnswer where
  | received (content : ByteString)
  | refused
  | failed (left : Option ByteString)

/-- Everything the modelled code does not decide. -/
structure Outside where
  /-- Name resolution: C strings, dot components, links. -/
  resolve : ByteString → ByteString
  ok : Nat → Bool
  write : Nat → WriteAnswer
  download : Nat → DownloadAnswer
  message : Nat → ByteString
  sha256 : ByteString → ByteString
  md5 : ByteString → ByteString
  /-- The signature check, on the contents of the data and of the signature. It gives
  the signer's fingerprint. -/
  signature : Nat → ByteString → ByteString → Option ByteString

/-- The disk, the number of questions asked, and the state of the component. -/
structure World (χ : Type) where
  disk : ByteString → Option Node
  clock : Nat
  own : χ

variable {χ ε : Type} (out : Outside)

namespace World

def tick (w : World χ) : World χ := { w with clock := w.clock + 1 }

def setNode (w : World χ) (loc : ByteString) (node : Option Node) : World χ :=
  { w with disk := Function.update w.disk loc node }

def node (w : World χ) (path : ByteString) : Option Node := w.disk (out.resolve path)

/-- What reading the file gives at this point. -/
def read (w : World χ) (path : ByteString) : Option ByteString :=
  match w.node out path with
  | some (.file content) => if out.ok w.clock then some content else none
  | _ => none

@[simp] theorem disk_tick (w : World χ) : w.tick.disk = w.disk := rfl
@[simp] theorem own_tick (w : World χ) : w.tick.own = w.own := rfl
@[simp] theorem own_setNode (w : World χ) (loc : ByteString) (node : Option Node) :
    (w.setNode loc node).own = w.own := rfl
@[simp] theorem disk_setNode (w : World χ) (loc : ByteString) (node : Option Node) :
    (w.setNode loc node).disk = Function.update w.disk loc node := rfl

end World

def pathExists (path : ByteString) : Act (World χ) ε Bool :=
  update fun w => (!path.isEmpty && (w.node out path).isSome, w)

def readFile (path : ByteString) : Act (World χ) ε (Option ByteString) :=
  update fun w => (w.read out path, w.tick)

/-- `sha256File` and `md5File`: the digest, or why the file cannot be read. -/
def digestFile (digest : ByteString → ByteString) (path : ByteString) :
    Act (World χ) ε (Except ByteString ByteString) :=
  update fun w =>
    (match w.read out path with
      | some content => .ok (digest content)
      | none => .error (out.message w.clock), w.tick)

def sha256File (path : ByteString) : Act (World χ) ε (Except ByteString ByteString) :=
  digestFile out out.sha256 path

def md5File (path : ByteString) : Act (World χ) ε (Except ByteString ByteString) :=
  digestFile out out.md5 path

/-- `verifyDetachedSignature`: the fingerprint, or why the check fails. -/
def verifyDetachedSignature (dataPath sigPath : ByteString) :
    Act (World χ) ε (Except ByteString ByteString) :=
  update fun w =>
    (match w.node out dataPath, w.node out sigPath with
      | some (.file content), some (.file sig) =>
          match out.signature w.clock content sig with
          | some fingerprint => .ok fingerprint
          | none => .error (out.message w.clock)
      | _, _ => .error (out.message w.clock), w.tick)

def createDirs (path : ByteString) : Act (World χ) ε Bool :=
  update fun w =>
    match w.node out path with
    | some .dir => (true, w)
    | some (.file _) => (false, w)
    | none =>
        if out.ok w.clock then (true, (w.setNode (out.resolve path) (some .dir)).tick)
        else (false, w.tick)

def writeFile (path text : ByteString) : Act (World χ) ε Bool :=
  update fun w =>
    if w.node out path = some .dir then (false, w)
    else
      match out.write w.clock with
      | .written => (true, (w.setNode (out.resolve path) (some (.file text))).tick)
      | .refused => (false, w.tick)
      | .damaged reported left =>
          (reported, (w.setNode (out.resolve path) (some (.file left))).tick)

def removeFile (path : ByteString) : Act (World χ) ε Bool :=
  update fun w =>
    match w.node out path with
    | none => (true, w)
    | some .dir => (false, w)
    | some (.file _) =>
        if out.ok w.clock then (true, (w.setNode (out.resolve path) none).tick)
        else (false, w.tick)

def downloadFile (url dest : ByteString) : Act (World χ) ε (Except ByteString Unit) :=
  update fun w =>
    if url.isEmpty || dest.isEmpty then (.error (str "URL or dest is empty"), w)
    else if w.node out dest = some .dir then (.error (out.message w.clock), w.tick)
    else
      match out.download w.clock with
      | .received content =>
          (.ok (), (w.setNode (out.resolve dest) (some (.file content))).tick)
      | .refused => (.error (out.message w.clock), w.tick)
      | .failed left =>
          (.error (out.message w.clock),
            (w.setNode (out.resolve dest) (left.map .file)).tick)

structure DownloadRequest where
  url : ByteString
  destination : ByteString

/-- Download the requests one by one; the error of each failed one. -/
def downloadAll : List DownloadRequest → Act (World χ) ε (List (Except ByteString Unit))
  | [] => pure []
  | r :: rest => do
      let first ← downloadFile out r.url r.destination
      let others ← downloadAll rest
      pure (first :: others)

/-- `downloadFiles`: the result of each request. Where the transfer library cannot be
set up, none is started and all fail without a text. -/
def downloadFiles (requests : List DownloadRequest) :
    Act (World χ) ε (List (Except ByteString Unit)) := do
  if requests.isEmpty then pure []
  else
    let setUp ← update fun w => (out.ok w.clock, w.tick)
    if setUp then downloadAll out requests else pure (requests.map fun _ => .error [])

/-! ### What the operations leave alone -/

theorem pathExists_keeps (path : ByteString) :
    Keeps World.own (pathExists out path : Act (World χ) ε Bool) := fun _ => rfl

theorem readFile_keeps (path : ByteString) :
    Keeps World.own (readFile out path : Act (World χ) ε (Option ByteString)) := fun _ => rfl

theorem digestFile_keeps (digest : ByteString → ByteString) (path : ByteString) :
    Keeps World.own (digestFile out digest path : Act (World χ) ε _) := fun _ => rfl

theorem verifyDetachedSignature_keeps (dataPath sigPath : ByteString) :
    Keeps World.own (verifyDetachedSignature out dataPath sigPath : Act (World χ) ε _) :=
  fun _ => rfl

theorem createDirs_keeps (path : ByteString) :
    Keeps World.own (createDirs out path : Act (World χ) ε Bool) := by
  intro w
  unfold createDirs
  rw [exec_update]
  dsimp only
  split
  · rfl
  · rfl
  · split <;> rfl

theorem writeFile_keeps (path text : ByteString) :
    Keeps World.own (writeFile out path text : Act (World χ) ε Bool) := by
  intro w
  unfold writeFile
  rw [exec_update]
  dsimp only
  split
  · rfl
  · split <;> rfl

theorem removeFile_keeps (path : ByteString) :
    Keeps World.own (removeFile out path : Act (World χ) ε Bool) := by
  intro w
  unfold removeFile
  rw [exec_update]
  dsimp only
  split
  · rfl
  · rfl
  · split <;> rfl

theorem downloadFile_keeps (url dest : ByteString) :
    Keeps World.own (downloadFile out url dest : Act (World χ) ε _) := by
  intro w
  unfold downloadFile
  rw [exec_update]
  dsimp only
  split
  · rfl
  split
  · rfl
  · split <;> rfl

theorem downloadAll_keeps (requests : List DownloadRequest) :
    Keeps World.own (downloadAll out requests : Act (World χ) ε _) := by
  induction requests with
  | nil => exact keeps_pure _
  | cons r rest ih =>
    exact (downloadFile_keeps out _ _).bind fun _ => ih.bind fun _ => keeps_pure _

theorem downloadFiles_keeps (requests : List DownloadRequest) :
    Keeps World.own (downloadFiles out requests : Act (World χ) ε _) :=
  .ite (keeps_pure _) (Keeps.bind (fun _ => rfl) fun _ =>
    .ite (downloadAll_keeps out _) (keeps_pure _))

/-- A download changes nothing but its destination. -/
theorem downloadFile_disk (url dest : ByteString) (w : World χ) {loc : ByteString}
    (other : loc ≠ out.resolve dest) :
    (exec (downloadFile out url dest : Act (World χ) ε _) w).2.disk loc = w.disk loc := by
  unfold downloadFile
  rw [exec_update]
  dsimp only
  split
  · rfl
  split
  · rfl
  · split
    · exact Function.update_of_ne other _ _
    · rfl
    · exact Function.update_of_ne other _ _

/-- A write changes nothing but its file. -/
theorem writeFile_disk (path text : ByteString) (w : World χ) {loc : ByteString}
    (other : loc ≠ out.resolve path) :
    (exec (writeFile out path text : Act (World χ) ε _) w).2.disk loc = w.disk loc := by
  unfold writeFile
  rw [exec_update]
  dsimp only
  split
  · rfl
  · split
    · exact Function.update_of_ne other _ _
    · rfl
    · exact Function.update_of_ne other _ _

/-! ### What the operations establish -/

/-- The regular file at a location. -/
def contentAt (disk : ByteString → Option Node) (loc : ByteString) : Option ByteString :=
  match disk loc with
  | some (.file content) => some content
  | _ => none

theorem read_eq_some {w : World χ} {path content : ByteString}
    (h : w.read out path = some content) :
    contentAt w.disk (out.resolve path) = some content := by
  unfold World.read at h
  unfold contentAt
  split at h
  · rename_i found
    split at h
    · cases h
      rw [show w.disk (out.resolve path) = _ from found]
    · cases h
  · cases h

/-- A digest that was computed is the digest of the file, which stays as it is. -/
theorem digestFile_spec (digest : ByteString → ByteString) (path : ByteString)
    (w : World χ) :
    wp (digestFile (ε := ε) out digest path)
      (fun r w' => w'.disk = w.disk ∧ w'.own = w.own ∧ ∀ computed, r = .ok computed →
        ∃ content, contentAt w.disk (out.resolve path) = some content ∧
          computed = digest content)
      (fun _ _ => False) w := by
  refine ⟨rfl, rfl, fun computed h => ?_⟩
  cases hr : w.read out path with
  | none => simp [hr] at h
  | some content =>
    simp only [hr, Except.ok.injEq] at h
    exact ⟨content, read_eq_some out hr, h.symm⟩

theorem downloadFile_spec (url dest : ByteString) (w : World χ) :
    wp (downloadFile (ε := ε) out url dest)
      (fun _ w' => w'.own = w.own ∧ ∀ loc, loc ≠ out.resolve dest → w'.disk loc = w.disk loc)
      (fun _ _ => False) w :=
  ⟨downloadFile_keeps (ε := ε) out url dest w,
    fun _ other => downloadFile_disk (ε := ε) out url dest w other⟩

/-- A signature that verifies is one of the two files as they are. -/
theorem verifyDetachedSignature_spec (dataPath sigPath : ByteString) (w : World χ) :
    wp (verifyDetachedSignature (ε := ε) out dataPath sigPath)
      (fun r w' => w'.disk = w.disk ∧ w'.own = w.own ∧ (r.isOk → ∃ content sig,
        w.node out dataPath = some (.file content) ∧ w.node out sigPath = some (.file sig) ∧
        (out.signature w.clock content sig).isSome))
      (fun _ _ => False) w := by
  refine wp_update.mpr ⟨rfl, rfl, fun verified => ?_⟩
  split at verified
  · rename_i content sig data block
    split at verified
    · rename_i accepted
      exact ⟨content, sig, data, block, by simp [accepted]⟩
    · cases verified
  · cases verified

end Apm.Fs
