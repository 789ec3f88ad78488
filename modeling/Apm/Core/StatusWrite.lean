import Apm.Core.StatusDb
import Apm.Util.Path
import Mathlib.Logic.Function.Basic

/-!
`writeFile` of `src/util/fs.cpp` on a buffered stream, and `writeStatusFile` of
`src/core/status_db.cpp` on top of it.

The library hands what is written to the system in pieces, and the rest when the stream is closed.
Each time the system may take fewer bytes than it is given.

## Main results

* `writeFile_keeps`: what success of `writeFile` says about the file;
* `statusWrite_iff`: when success means that everything was written, for any file and for the
  status file.
-/

namespace Apm.Status.Buffered

open Apm.Fs

/-! ### Streams -/

/-- The buffer of an output stream: what it hands on while a text is written, and what it still
holds then. -/
structure FileBuf where
  pieces : ByteString → List ByteString
  rest : ByteString → ByteString
  whole : ∀ content, (pieces content).flatten ++ rest content = content

/-- The contents of files, by their paths. -/
abbrev Files := ByteString → Option ByteString

/-- What the system answers. The `i`-th flush of the stream gets so many bytes into the file. -/
structure Outside where
  createsDirs : ByteString → Bool
  opens : ByteString → Bool
  takes : Nat → Nat
  renames : Bool
  unlinks : Bool

/-- A stream: what is in its file, how often it was flushed, and whether it is good. -/
structure Stream where
  file : ByteString := []
  flushes : Nat := 0
  good : Bool := true

section Writing

variable (buf : FileBuf) (out : Outside)

/-- What is lost is noticed by the flush. -/
def Stream.flush (x : Stream) (bytes : ByteString) : Stream where
  file := x.file ++ bytes.take (out.takes x.flushes)
  flushes := x.flushes + 1
  good := x.good && decide (bytes.length ≤ out.takes x.flushes)

/-- `out.write`: the pieces are handed on until one fails. -/
def Stream.write (x : Stream) (content : ByteString) : Stream :=
  (buf.pieces content).foldl (fun x piece => if x.good then x.flush out piece else x) x

/-- The destructor: the last flush, whose failure nobody sees. -/
def Stream.close (x : Stream) (content : ByteString) : ByteString :=
  (x.flush out (buf.rest content)).file

/-- `fs::writeFile`. What is returned is decided before the stream is closed. -/
def writeFile (files : Files) (path content : ByteString) (createParents : Bool := true) :
    Bool × Files :=
  if path.isEmpty then (false, files)
  else if createParents && !(parentOf path).isEmpty && !out.createsDirs (parentOf path) then
    (false, files)
  else if !out.opens path then (false, files)
  else
    let x := Stream.write buf out {} content
    (x.good, Function.update files path (some (x.close buf out content)))

/-- `writeStatusFile`. -/
def writeStatusFile (files : Files) (path : ByteString) (db : InstalledDb) : Bool × Files :=
  let tmpPath := path ++ str ".tmp"
  let written := writeFile buf out files tmpPath (statusText db)
  if !written.1 then (false, written.2)
  else if !out.renames then
    (false, if out.unlinks then Function.update written.2 tmpPath none else written.2)
  else
    (true, Function.update (Function.update written.2 path (written.2 tmpPath)) tmpPath none)

end Writing

/-! ### What is written -/

section Results

variable {buf : FileBuf} {out : Outside} {files : Files} {path content : ByteString}
  {createParents : Bool}

/-- The system takes all of these pieces, from the `i`-th flush on. -/
def Takes (out : Outside) : Nat → List ByteString → Prop
  | _, [] => True
  | i, piece :: more => piece.length ≤ out.takes i ∧ Takes out (i + 1) more

/-- A stream that is not good is left as it is. -/
theorem foldl_bad (pieces : List ByteString) {x : Stream} (bad : x.good = false) :
    pieces.foldl (fun x piece => if x.good then x.flush out piece else x) x = x := by
  induction pieces with
  | nil => rfl
  | cons piece more ih => rw [List.foldl_cons, if_neg (by simp [bad]), ih]

/-- The pieces that are written before the stream is closed. -/
theorem foldl_flush (pieces : List ByteString) (x : Stream) (good : x.good = true) :
    let x' := pieces.foldl (fun x piece => if x.good then x.flush out piece else x) x
    (x'.good = true ↔ Takes out x.flushes pieces) ∧
      (x'.good = true → x'.file = x.file ++ pieces.flatten ∧
        x'.flushes = x.flushes + pieces.length) := by
  induction pieces generalizing x with
  | nil => simp [Takes, good]
  | cons piece more ih =>
    rw [List.foldl_cons, if_pos good]
    by_cases taken : piece.length ≤ out.takes x.flushes
    · obtain ⟨iff, whole⟩ := ih (x.flush out piece) (by simp [Stream.flush, good, taken])
      refine ⟨iff.trans (by simp [Takes, Stream.flush, taken]), fun still => ?_⟩
      obtain ⟨file, flushes⟩ := whole still
      rw [file, flushes, Stream.flush, List.take_of_length_le taken]
      simp [Nat.add_comm, Nat.add_left_comm]
    · have bad : (x.flush out piece).good = false := by simp [Stream.flush, taken]
      rw [foldl_bad more bad]
      dsimp only
      rw [bad]
      simp [Takes, taken]

/-- A stream is good after a text is written just when the system takes the pieces, which are then
in the file. -/
theorem write_good (content : ByteString) :
    ((Stream.write buf out {} content).good = true ↔ Takes out 0 (buf.pieces content)) ∧
      ((Stream.write buf out {} content).good = true →
        (Stream.write buf out {} content).file = (buf.pieces content).flatten ∧
          (Stream.write buf out {} content).flushes = (buf.pieces content).length) := by
  have fold : ((Stream.write buf out {} content).good = true ↔ _) ∧ _ :=
    foldl_flush (buf.pieces content) {} rfl
  simpa [Stream.write] using fold

/-- The last flush gets the rest of the text into the file. -/
def Closes (buf : FileBuf) (out : Outside) (content : ByteString) : Prop :=
  (buf.rest content).length ≤ out.takes (buf.pieces content).length

/-- The whole text is in the file just when the last flush loses nothing. -/
theorem close_eq_iff (good : (Stream.write buf out {} content).good = true) :
    (Stream.write buf out {} content).close buf out content = content ↔ Closes buf out content := by
  obtain ⟨file, flushes⟩ := (write_good content).2 good
  rw [Stream.close, Stream.flush, file, flushes]
  dsimp only
  constructor
  · intro same
    have lengths := congrArg List.length (same.trans (buf.whole content).symm)
    rw [List.length_append, List.length_append, List.length_take] at lengths
    unfold Closes
    omega
  · intro closes
    rw [List.take_of_length_le closes, buf.whole]

/-- The file is opened, and the system takes what is written before it is closed. -/
structure Opened (buf : FileBuf) (out : Outside) (path content : ByteString)
    (createParents : Bool) : Prop where
  filled : path ≠ []
  parents : createParents = true → parentOf path ≠ [] → out.createsDirs (parentOf path) = true
  opens : out.opens path = true
  takes : Takes out 0 (buf.pieces content)

/-- What `writeFile` does: it fails, or the text is in the file as far as it was taken. -/
theorem writeFile_cases (buf : FileBuf) (out : Outside) (files : Files)
    (path content : ByteString) (createParents : Bool) :
    ((writeFile buf out files path content createParents).1 = true ↔
        Opened buf out path content createParents) ∧
      ((writeFile buf out files path content createParents).1 = true →
        (writeFile buf out files path content createParents).2 =
          Function.update files path
            (some ((Stream.write buf out {} content).close buf out content))) ∧
      ∀ other, other ≠ path →
        (writeFile buf out files path content createParents).2 other = files other := by
  unfold writeFile
  split
  · rename_i empty
    exact ⟨iff_of_false nofun fun h => h.filled (by simpa using empty), nofun, fun _ _ => rfl⟩
  · rename_i filled
    split
    · rename_i noParents
      refine ⟨iff_of_false nofun fun h => ?_, nofun, fun _ _ => rfl⟩
      have parents := h.parents
      simp_all
    · rename_i parents
      split
      · rename_i closed
        refine ⟨iff_of_false nofun fun h => ?_, nofun, fun _ _ => rfl⟩
        rw [h.opens] at closed
        cases closed
      · rename_i opens
        refine ⟨?_, fun _ => rfl, fun other ne => Function.update_of_ne ne _ _⟩
        rw [(write_good content).1]
        refine ⟨fun takes => ⟨by simpa using filled, ?_, by simpa using opens, takes⟩,
          fun h => h.takes⟩
        intro create named
        by_contra fails
        simp_all

/-- **Success says that the text is in the file** just when the last flush completes it. -/
theorem writeFile_keeps (buf : FileBuf) (out : Outside) (files : Files)
    (path content : ByteString) (createParents : Bool) :
    ((writeFile buf out files path content createParents).1 = true →
        (writeFile buf out files path content createParents).2 path = some content) ↔
      (Opened buf out path content createParents → Closes buf out content) := by
  obtain ⟨success, written, -⟩ := writeFile_cases buf out files path content createParents
  rw [success]
  refine imp_congr_right fun opened => ?_
  rw [written (success.mpr opened), Function.update_self, Option.some_inj]
  exact close_eq_iff ((write_good content).1.mpr opened.takes)

end Results

/-- What the status file promises: success leaves the new text there, failure the old one. -/
structure KeepsStatus (buf : FileBuf) (out : Outside) (files : Files) (path : ByteString)
    (db : InstalledDb) : Prop where
  new : (writeStatusFile buf out files path db).1 = true →
    (writeStatusFile buf out files path db).2 path = some (statusText db)
  old : (writeStatusFile buf out files path db).1 = false →
    (writeStatusFile buf out files path db).2 path = files path

theorem tmp_ne (path : ByteString) : path ≠ path ++ str ".tmp" := by
  intro same
  have lengths := congrArg List.length same
  rw [List.length_append] at lengths
  have : (str ".tmp").length = 4 := rfl
  omega

section Status

variable (files : Files) {buf : FileBuf} {out : Outside} {path : ByteString} {db : InstalledDb}

/-- A temporary file that is not written, or not renamed, leaves the status file alone. -/
theorem writeStatusFile_kept
    (fails : ¬ (Opened buf out (path ++ str ".tmp") (statusText db) true ∧ out.renames = true)) :
    (writeStatusFile buf out files path db).1 = false ∧
      (writeStatusFile buf out files path db).2 path = files path := by
  obtain ⟨success, -, others⟩ :=
    writeFile_cases buf out files (path ++ str ".tmp") (statusText db) true
  have same := others path (tmp_ne path)
  unfold writeStatusFile
  dsimp only
  by_cases good : (writeFile buf out files (path ++ str ".tmp") (statusText db)).1 = true
  · have renames : out.renames = false :=
      Bool.eq_false_iff.mpr fun renames => fails ⟨success.mp good, renames⟩
    rw [if_neg (by simp [good]), if_pos (by simp [renames])]
    refine ⟨rfl, ?_⟩
    dsimp only
    split
    · rw [Function.update_of_ne (tmp_ne path), same]
    · exact same
  · rw [if_pos (by simp [good])]
    exact ⟨rfl, same⟩

/-- A renamed temporary file becomes the status file, as its close left it. -/
theorem writeStatusFile_renamed
    (opened : Opened buf out (path ++ str ".tmp") (statusText db) true)
    (renames : out.renames = true) :
    (writeStatusFile buf out files path db).1 = true ∧
      (writeStatusFile buf out files path db).2 path =
        some ((Stream.write buf out {} (statusText db)).close buf out (statusText db)) := by
  obtain ⟨success, written, -⟩ :=
    writeFile_cases buf out files (path ++ str ".tmp") (statusText db) true
  have good := success.mpr opened
  unfold writeStatusFile
  dsimp only
  rw [if_neg (by simp [good]), if_neg (by simp [renames])]
  refine ⟨rfl, ?_⟩
  dsimp only
  rw [Function.update_of_ne (tmp_ne path), Function.update_self, written good,
    Function.update_self]

end Status

/-- **The status file keeps its promise** just when the last flush completes the temporary file, if
that is renamed. -/
theorem keepsStatus_iff (buf : FileBuf) (out : Outside) (files : Files) (path : ByteString)
    (db : InstalledDb) :
    KeepsStatus buf out files path db ↔
      (Opened buf out (path ++ str ".tmp") (statusText db) true → out.renames = true →
        Closes buf out (statusText db)) := by
  by_cases renamed : Opened buf out (path ++ str ".tmp") (statusText db) true ∧
      out.renames = true
  · obtain ⟨opened, renames⟩ := renamed
    obtain ⟨success, text⟩ := writeStatusFile_renamed files opened renames
    have closes := close_eq_iff ((write_good (statusText db)).1.mpr opened.takes)
    constructor
    · intro keeps _ _
      have new := keeps.new success
      rw [text, Option.some_inj] at new
      exact closes.mp new
    · intro closed
      refine ⟨fun _ => ?_, fun failed => ?_⟩
      · rw [text, closes.mpr (closed opened renames)]
      · rw [success] at failed
        cases failed
  · obtain ⟨failed, old⟩ := writeStatusFile_kept files renamed
    refine iff_of_true ⟨fun success => ?_, fun _ => old⟩
      fun opened renames => absurd ⟨opened, renames⟩ renamed
    rw [failed] at success
    cases success

/-- **Writing through a buffered stream.** For every file and for the status file, success means
that the whole text is there just when the flush at the end, which nobody looks at, loses
nothing. -/
theorem statusWrite_iff (buf : FileBuf) (out : Outside) (files : Files)
    (path content : ByteString) (createParents : Bool) (db : InstalledDb) :
    (((writeFile buf out files path content createParents).1 = true →
        (writeFile buf out files path content createParents).2 path = some content) ↔
      (Opened buf out path content createParents → Closes buf out content)) ∧
    (KeepsStatus buf out files path db ↔
      (Opened buf out (path ++ str ".tmp") (statusText db) true → out.renames = true →
        Closes buf out (statusText db))) :=
  ⟨writeFile_keeps buf out files path content createParents,
    keepsStatus_iff buf out files path db⟩

/-- A buffer that hands on what fills it. -/
def FileBuf.ofSize (size : Nat) : FileBuf where
  pieces content :=
    if content.length < size then [] else [content.take (content.length / size * size)]
  rest content :=
    if content.length < size then content else content.drop (content.length / size * size)
  whole content := by
    split
    · rfl
    · rw [List.flatten_singleton, List.take_append_drop]

/-- A full disk: nothing is taken. -/
def fullDisk : Outside := ⟨fun _ => true, fun _ => true, fun _ => 0, true, true⟩

/-- On a full disk a short file is empty and a new status file too, and both are reported as
written. -/
theorem statusWrite_loses :
    ¬ ((writeFile (.ofSize 4096) fullDisk (fun _ => none) (str "/f") (str "x")).1 = true →
        (writeFile (.ofSize 4096) fullDisk (fun _ => none) (str "/f") (str "x")).2 (str "/f") =
          some (str "x")) ∧
      ¬ KeepsStatus (.ofSize 4096) fullDisk (fun _ => some (str "Package: a\n\n")) (str "/s")
        (AList.singleton (str "b") { name := str "b" }) := by
  constructor
  · intro keeps
    exact absurd (keeps (by decide +kernel)) (by decide +kernel)
  · intro keeps
    exact absurd (keeps.new (by decide +kernel)) (by decide +kernel)

end Apm.Status.Buffered
