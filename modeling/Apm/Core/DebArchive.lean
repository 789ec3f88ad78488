import Apm.Core.DebExtractor
import Apm.Core.Number
import Apm.Lib.Effect
import Apm.Lib.Loop
import Mathlib.Data.List.Permutation

/-!
`extractDebArchive` of `src/core/deb_extractor.cpp` on the bytes of an archive: the loop over
the headers, the copying of the members, and what a file that was cut gives.

The archive is the rest of the input stream. `unsigned long` has 32 or 64 bits.

## Main results

* `extractDebArchive_ok`, `extractDebArchive_whole`: success is about whole members, and whole
  members are extracted.
* `archive_inj`: an archive is read in one way.
* `extractDebArchive_spec`: the archives for which success says that nothing is missing.
-/

namespace Apm.Deb

open Apm.Fs Apm.Lib Apm.Lib.Effect

/-! ### Reading a header -/

inductive DebCompression where
  | None | Gzip | Xz | Bzip2
deriving DecidableEq

def detectCompressionFromName (name : ByteString) : DebCompression :=
  if (str ".gz").isSuffixOf name then .Gzip
  else if (str ".xz").isSuffixOf name then .Xz
  else if (str ".bz2").isSuffixOf name then .Bzip2
  else .None

def trimRightSpaces (s : ByteString) : ByteString :=
  s.rdropWhile fun c => c == chr ' ' || c == chr '\n'

/-- The size field of a header. -/
def memberSize (bits : Nat) (header : ByteString) : Option Nat :=
  strtoul bits (trimRightSpaces ((header.drop 48).take 10))

/-- The name field of a header. -/
def nameField (header : ByteString) : ByteString := header.take 16

/-! ### The loop -/

/-- What the output files answer: whether a path can be created, and whether the bytes from an
offset on are taken. -/
structure Output where
  opens : ByteString → Bool
  stores : ByteString → Nat → Bool

/-- What was found and written so far. -/
structure Extraction where
  parts : DebParts := {}
  controlCompression : DebCompression := .None
  dataCompression : DebCompression := .None
  files : List (ByteString × ByteString) := []

/-- Remember the path and the compression of a part. -/
def Extraction.announce (ex : Extraction) (name : ByteString) (part : Part) : Extraction :=
  match part with
  | .control _ =>
      { ex with
        parts := ex.parts.add part
        controlCompression := detectCompressionFromName name }
  | .data _ =>
      { ex with
        parts := ex.parts.add part
        dataCompression := detectCompressionFromName name }

def bufSize : Nat := 8192

/-- How much one turn reads. -/
def toRead (remaining : Nat) : Nat := if remaining < bufSize then remaining else bufSize

theorem toRead_le (remaining : Nat) : toRead remaining ≤ remaining := by
  unfold toRead
  split <;> omega

theorem toRead_pos {remaining : Nat} (h : remaining ≠ 0) : 0 < toRead remaining := by
  have positive : 0 < bufSize := by decide
  unfold toRead
  split <;> omega

/-- Does the chunk at the offset reach the file, if there is one? -/
def storesChunk (out : Output) (part : Option Part) (offset : Nat) : Bool :=
  match part with
  | none => true
  | some part => out.stores part.path offset

/-- The path that errors name. -/
def outPath (part : Option Part) : ByteString :=
  match part with
  | none => []
  | some part => part.path

/-- One turn of the loop that copies a member: what remains, the input, and what was read. -/
def copyStep (out : Output) (part : Option Part) (x : Nat × ByteString × ByteString) :
    (Nat × ByteString × ByteString) ⊕ Except ByteString (ByteString × ByteString) :=
  if x.1 = 0 then .inr (.ok (x.2.2, x.2.1))
  else if x.2.1.length < toRead x.1 then .inr (.error (str "Truncated member data in .deb"))
  else if !storesChunk out part x.2.2.length then
    .inr (.error (str "Failed to write file: " ++ outPath part))
  else .inl (x.1 - toRead x.1, x.2.1.drop (toRead x.1), x.2.2 ++ x.2.1.take (toRead x.1))

/-- What a turn that goes on did. -/
theorem copyStep_next {out : Output} {part : Option Part} {x x' : Nat × ByteString × ByteString}
    (h : copyStep out part x = .inl x') :
    x.1 ≠ 0 ∧ toRead x.1 ≤ x.2.1.length ∧
      x' = (x.1 - toRead x.1, x.2.1.drop (toRead x.1), x.2.2 ++ x.2.1.take (toRead x.1)) := by
  unfold copyStep at h
  split at h
  · cases h
  rename_i more
  split at h
  · cases h
  rename_i enough
  split at h
  · cases h
  cases h
  exact ⟨more, Nat.not_lt.mp enough, rfl⟩

theorem copyStep_descends (out : Output) (part : Option Part) :
    Loop.Descends (fun x => x.1) (copyStep out part) := by
  intro x x' h
  obtain ⟨more, -, rfl⟩ := copyStep_next h
  have positive := toRead_pos more
  dsimp only
  omega

/-- The bytes of a member, and the input behind them. -/
def copyMember (out : Output) (part : Option Part) (size : Nat) (input : ByteString) :
    Except ByteString (ByteString × ByteString) :=
  Loop.run (copyStep_descends out part) (size, input, [])

/-- Every turn moves a chunk from the input to what was read. -/
theorem copyStep_copied {out : Output} {part : Option Part} {size : Nat} {input : ByteString}
    {x x' : Nat × ByteString × ByteString} (h : copyStep out part x = .inl x')
    (copied : ∃ n, n ≤ input.length ∧ x = (size - n, input.drop n, input.take n) ∧ n ≤ size) :
    ∃ n, n ≤ input.length ∧ x' = (size - n, input.drop n, input.take n) ∧ n ≤ size := by
  obtain ⟨n, fits, rfl, within⟩ := copied
  obtain ⟨-, enough, rfl⟩ := copyStep_next h
  have chunk := toRead_le (size - n)
  dsimp only at enough ⊢
  rw [List.length_drop] at enough
  refine ⟨n + toRead (size - n), by omega, ?_, by omega⟩
  rw [List.drop_drop, ← List.take_add, Nat.sub_sub]

/-- **A member is copied whole or not at all.** Only a missing byte or a failing write
stops it. -/
theorem copyMember_spec (out : Output) (part : Option Part) (size : Nat) (input : ByteString) :
    match copyMember out part size input with
    | .ok x => size ≤ input.length ∧ x = (input.take size, input.drop size)
    | .error _ => size ≤ input.length → ∃ offset, storesChunk out part offset = false := by
  refine Loop.run_invariant (copyStep_descends out part)
    (fun x => ∃ n, n ≤ input.length ∧ x = (size - n, input.drop n, input.take n) ∧ n ≤ size)
    (fun r => match r with
      | .ok x => size ≤ input.length ∧ x = (input.take size, input.drop size)
      | .error _ => size ≤ input.length → ∃ offset, storesChunk out part offset = false)
    (fun x x' copied h => copyStep_copied h copied) ?_ ⟨0, by simp⟩
  rintro x r ⟨n, fits, rfl, within⟩ h
  have chunk := toRead_le (size - n)
  unfold copyStep at h
  dsimp only at h
  split at h
  · rename_i none
    obtain rfl : n = size := by omega
    cases h
    exact ⟨fits, rfl⟩
  split at h
  · rename_i short
    cases h
    intro enough
    rw [List.length_drop] at short
    omega
  split at h
  · rename_i refused
    cases h
    intro _
    exact ⟨_, by simpa using refused⟩
  · cases h

theorem copyMember_ok {out : Output} {part : Option Part} {size : Nat} {input : ByteString}
    {x : ByteString × ByteString} (h : copyMember out part size input = .ok x) :
    size ≤ input.length ∧ x = (input.take size, input.drop size) := by
  have spec := copyMember_spec out part size input
  rw [h] at spec
  exact spec

theorem copyMember_whole (out : Output) (part : Option Part)
    (stores : ∀ offset, storesChunk out part offset = true) (body rest : ByteString) :
    copyMember out part body.length (body ++ rest) = .ok (body, rest) := by
  have spec := copyMember_spec out part body.length (body ++ rest)
  cases copied : copyMember out part body.length (body ++ rest) with
  | ok x =>
    rw [copied] at spec
    rw [spec.2, List.take_left, List.drop_left]
  | error _ =>
    rw [copied] at spec
    obtain ⟨offset, refused⟩ := spec (by simp)
    rw [stores] at refused
    cases refused

/-- The pad byte of a member of odd size. -/
def skipPad (size : Nat) (input : ByteString) : Except ByteString ByteString :=
  if size % 2 = 0 then .ok input
  else if input.isEmpty then .error (str "Truncated padding byte in .deb")
  else .ok input.tail

theorem skipPad_ok_iff {size : Nat} {input rest : ByteString} :
    skipPad size input = .ok rest ↔ ∃ pad, pad.length = size % 2 ∧ input = pad ++ rest := by
  unfold skipPad
  constructor
  · intro h
    split at h
    · rename_i even
      cases h
      exact ⟨[], even.symm, rfl⟩
    split at h
    · cases h
    · rename_i odd more
      cases h
      obtain ⟨c, rest, rfl⟩ := List.exists_cons_of_ne_nil (by simpa using more)
      exact ⟨[c], (Nat.mod_two_ne_zero.mp odd).symm, rfl⟩
  · rintro ⟨pad, length, rfl⟩
    rcases Nat.mod_two_eq_zero_or_one size with even | odd
    · rw [even, List.length_eq_zero_iff] at length
      rw [if_pos even, length]
      rfl
    · rw [odd] at length
      obtain ⟨c, rfl⟩ := List.length_eq_one_iff.mp length
      rw [if_neg (by omega)]
      rfl

/-- Read the member behind a header. -/
def readMember (out : Output) (bits : Nat) (outputDir header input : ByteString)
    (ex : Extraction) : Except ByteString (ByteString × Extraction) :=
  if header.drop 58 != str "`\n" then .error (str "Invalid ar file member magic in .deb")
  else
    match memberSize bits header with
    | none => .error (str "Invalid member size in .deb")
    | some size =>
        match partOf outputDir (nameField header) with
        | none => do
            let (_, input) ← copyMember out none size input
            let input ← skipPad size input
            .ok (input, ex)
        | some part =>
            if !out.opens part.path then
              .error (str "Failed to create output file: " ++ part.path)
            else do
              let (body, input) ← copyMember out (some part) size input
              let input ← skipPad size input
              let ex := ex.announce (memberName (nameField header)) part
              .ok (input, { ex with files := ex.files ++ [(part.path, body)] })

/-! ### Whole members -/

/-- A member as it stands in an archive. -/
structure RawMember (bits : Nat) where
  header : ByteString
  body : ByteString
  pad : ByteString
  header_length : header.length = 60
  header_magic : header.drop 58 = str "`\n"
  header_size : memberSize bits header = some body.length
  pad_length : pad.length = body.length % 2

namespace RawMember

variable {bits : Nat}

def bytes (m : RawMember bits) : ByteString := m.header ++ m.body ++ m.pad

def name (m : RawMember bits) : ByteString := memberName (nameField m.header)

def IsControl (m : RawMember bits) : Prop := (str "control.tar").isPrefixOf m.name = true

def IsData (m : RawMember bits) : Prop := (str "data.tar").isPrefixOf m.name = true

end RawMember

/-- What a member adds to an extraction. -/
def Extraction.take (outputDir : ByteString) (ex : Extraction) (header body : ByteString) :
    Extraction :=
  match partOf outputDir (nameField header) with
  | none => ex
  | some part =>
      let ex := ex.announce (memberName (nameField header)) part
      { ex with files := ex.files ++ [(part.path, body)] }

/-- The file of a part can be created and takes every byte. -/
def Output.Takes (out : Output) (part : Part) : Prop :=
  out.opens part.path = true ∧ ∀ offset, out.stores part.path offset = true

section Members

variable {out : Output} {bits : Nat} {outputDir : ByteString}

/-- **What is read is a whole member.** -/
theorem readMember_ok {header input : ByteString} {ex : Extraction}
    {x : ByteString × Extraction} (long : header.length = 60)
    (h : readMember out bits outputDir header input ex = .ok x) :
    ∃ m : RawMember bits, m.header = header ∧ input = m.body ++ m.pad ++ x.1 ∧
      x.2 = ex.take outputDir m.header m.body := by
  unfold readMember at h
  split at h
  · cases h
  rename_i magic
  rw [bne_iff_ne, not_not] at magic
  split at h
  · cases h
  rename_i size sized
  have whole : ∀ {part : Option Part} {y : ByteString × ByteString} {rest : ByteString},
      copyMember out part size input = .ok y → skipPad size y.2 = .ok rest →
        ∃ m : RawMember bits, m.header = header ∧ m.body = y.1 ∧
          input = m.body ++ m.pad ++ rest := by
    intro part y rest copied padded
    obtain ⟨enough, rfl⟩ := copyMember_ok copied
    obtain ⟨pad, padLength, after⟩ := skipPad_ok_iff.mp padded
    have length : (input.take size).length = size := List.length_take_of_le enough
    refine ⟨⟨header, input.take size, pad, long, magic, length.symm ▸ sized,
      length.symm ▸ padLength⟩, rfl, rfl, ?_⟩
    dsimp only at after ⊢
    rw [List.append_assoc, ← after, List.take_append_drop]
  split at h
  · rename_i unneeded
    obtain ⟨y, copied, h⟩ := ok_of_bind h
    obtain ⟨rest, padded, h⟩ := ok_of_bind h
    obtain ⟨m, same, -, input⟩ := whole copied padded
    cases h
    refine ⟨m, same, input, ?_⟩
    rw [Extraction.take, same, unneeded]
  · rename_i part needed
    split at h
    · cases h
    obtain ⟨y, copied, h⟩ := ok_of_bind h
    obtain ⟨rest, padded, h⟩ := ok_of_bind h
    obtain ⟨m, same, body, input⟩ := whole copied padded
    cases h
    refine ⟨m, same, input, ?_⟩
    rw [Extraction.take, same, needed, body]

/-- **A whole member is read**, if its file can be written. -/
theorem readMember_whole (m : RawMember bits) (rest : ByteString) (ex : Extraction)
    (takes : ∀ part, partOf outputDir (nameField m.header) = some part → out.Takes part) :
    readMember out bits outputDir m.header (m.body ++ (m.pad ++ rest)) ex =
      .ok (rest, ex.take outputDir m.header m.body) := by
  have padded : skipPad m.body.length (m.pad ++ rest) = .ok rest :=
    skipPad_ok_iff.mpr ⟨m.pad, m.pad_length, rfl⟩
  have magic : (m.header.drop 58 != str "`\n") = false := by simpa using m.header_magic
  unfold readMember Extraction.take
  rw [magic, m.header_size]
  cases needed : partOf outputDir (nameField m.header) with
  | none =>
    have copied := copyMember_whole out none (fun _ => rfl) m.body (m.pad ++ rest)
    simp only [copied, Bool.false_eq_true, if_false]
    change (skipPad m.body.length (m.pad ++ rest) >>= fun input => .ok (input, ex)) = _
    rw [padded]
    rfl
  | some part =>
    obtain ⟨opens, stores⟩ := takes part needed
    have copied := copyMember_whole out (some part) stores m.body (m.pad ++ rest)
    simp only [copied, opens, Bool.false_eq_true, Bool.not_true, if_false]
    change (skipPad m.body.length (m.pad ++ rest) >>= fun input => .ok (input, _)) = _
    rw [padded]
    rfl

end Members

/-- One turn over the input. A header that is cut sets `eof`, and so ends the loop. -/
def archiveStep (out : Output) (bits : Nat) (outputDir : ByteString)
    (x : ByteString × Extraction) :
    (ByteString × Extraction) ⊕ Except ByteString Extraction :=
  if x.1.isEmpty then .inr (.ok x.2)
  else if x.1.length < 60 then .inr (.ok x.2)
  else
    match readMember out bits outputDir (x.1.take 60) (x.1.drop 60) x.2 with
    | .error errorMsg => .inr (.error errorMsg)
    | .ok x' => .inl x'

theorem archiveStep_next {out : Output} {bits : Nat} {outputDir : ByteString}
    {x x' : ByteString × Extraction} (h : archiveStep out bits outputDir x = .inl x') :
    ∃ m : RawMember bits, x.1 = m.bytes ++ x'.1 ∧ x'.2 = x.2.take outputDir m.header m.body := by
  unfold archiveStep at h
  split at h
  · cases h
  split at h
  · cases h
  rename_i enough
  have long : (x.1.take 60).length = 60 := List.length_take_of_le (Nat.not_lt.mp enough)
  split at h
  · cases h
  rename_i read
  cases h
  obtain ⟨m, header, input, ex⟩ := readMember_ok long read
  refine ⟨m, ?_, ex⟩
  rw [RawMember.bytes, header, List.append_assoc, List.append_assoc, ← List.append_assoc m.body,
    ← input, List.take_append_drop]

theorem archiveStep_descends (out : Output) (bits : Nat) (outputDir : ByteString) :
    Loop.Descends (fun x => x.1.length) (archiveStep out bits outputDir) := by
  intro x x' h
  obtain ⟨m, input, -⟩ := archiveStep_next h
  have long := m.header_length
  simp only [input, RawMember.bytes, List.length_append]
  omega

/-- `extractDebArchive` on the content of the archive. -/
def extractDebArchive (out : Output) (bits : Nat) (outputDir content : ByteString) :
    Except ByteString Extraction :=
  if content.take 8 != str "!<arch>\n" then .error (str "Invalid .deb: missing ar magic header")
  else Loop.run (archiveStep_descends out bits outputDir) (content.drop 8, {})

/-! ### Runs -/

/-- The archive of members. -/
def archive {bits : Nat} (members : List (RawMember bits)) : ByteString :=
  str "!<arch>\n" ++ members.flatMap RawMember.bytes

/-- What the members make. -/
def outcome {bits : Nat} (outputDir : ByteString) (members : List (RawMember bits))
    (ex : Extraction) : Extraction :=
  members.foldl (fun ex m => ex.take outputDir m.header m.body) ex

section Runs

variable {out : Output} {bits : Nat} {outputDir : ByteString}

theorem archiveStep_stop {x : ByteString × Extraction} {ex : Extraction}
    (h : archiveStep out bits outputDir x = .inr (.ok ex)) : x.1.length < 60 ∧ ex = x.2 := by
  unfold archiveStep at h
  split at h
  · rename_i none
    cases h
    simp [List.isEmpty_iff.mp none]
  split at h
  · rename_i short
    cases h
    exact ⟨short, rfl⟩
  split at h <;> cases h

/-- A header that is cut ends the loop without an error. -/
theorem archiveStep_short {rest : ByteString} (ex : Extraction) (short : rest.length < 60) :
    archiveStep out bits outputDir (rest, ex) = .inr (.ok ex) := by
  unfold archiveStep
  rw [if_pos short, ite_self]

theorem archiveStep_whole (m : RawMember bits) (rest : ByteString) (ex : Extraction)
    (takes : ∀ part, partOf outputDir (nameField m.header) = some part → out.Takes part) :
    archiveStep out bits outputDir (m.bytes ++ rest, ex) =
      .inl (rest, ex.take outputDir m.header m.body) := by
  have split : m.bytes ++ rest = m.header ++ (m.body ++ (m.pad ++ rest)) := by
    simp only [RawMember.bytes, List.append_assoc]
  have first : (m.header ++ (m.body ++ (m.pad ++ rest))).take 60 = m.header :=
    List.take_left' m.header_length
  have later : (m.header ++ (m.body ++ (m.pad ++ rest))).drop 60 = m.body ++ (m.pad ++ rest) :=
    List.drop_left' m.header_length
  have long := m.header_length
  unfold archiveStep
  rw [split, first, later, readMember_whole m rest ex takes, if_neg, if_neg]
  · simp only [List.length_append]
    omega
  · rw [List.isEmpty_iff, ← List.length_eq_zero_iff, List.length_append]
    omega

/-- **Success is about whole members**, behind which less than a header follows. -/
theorem extractDebArchive_ok {content : ByteString} {ex : Extraction}
    (h : extractDebArchive out bits outputDir content = .ok ex) :
    ∃ (members : List (RawMember bits)) (rest : ByteString),
      content = archive members ++ rest ∧ rest.length < 60 ∧ ex = outcome outputDir members {} := by
  unfold extractDebArchive at h
  split at h
  · cases h
  rename_i magic
  rw [bne_iff_ne, not_not] at magic
  have read := Loop.run_invariant (archiveStep_descends out bits outputDir)
    (fun x => ∃ members : List (RawMember bits),
      content.drop 8 = members.flatMap RawMember.bytes ++ x.1 ∧ x.2 = outcome outputDir members {})
    (fun r => ∀ ex, r = .ok ex → ∃ (members : List (RawMember bits)) (rest : ByteString),
      content.drop 8 = members.flatMap RawMember.bytes ++ rest ∧ rest.length < 60 ∧
        ex = outcome outputDir members {})
    ?_ ?_ (s := (content.drop 8, {})) ⟨[], rfl, rfl⟩
  · obtain ⟨members, rest, content', short, ex⟩ := read ex h
    refine ⟨members, rest, ?_, short, ex⟩
    rw [archive, List.append_assoc, ← content', ← magic, List.take_append_drop]
  · rintro x x' ⟨members, read, ex⟩ next
    obtain ⟨m, input, ex'⟩ := archiveStep_next next
    refine ⟨members ++ [m], ?_, ?_⟩
    · rw [read, input, List.flatMap_append, List.flatMap_singleton, List.append_assoc]
    · rw [ex', ex, outcome, outcome, List.foldl_append]
      rfl
  · rintro x r ⟨members, read, ex⟩ stop ex' rfl
    obtain ⟨short, rfl⟩ := archiveStep_stop stop
    exact ⟨members, x.1, read, short, ex⟩

/-- **Whole members are extracted**, whatever part of a header follows. -/
theorem extractDebArchive_whole {members : List (RawMember bits)} {rest : ByteString}
    (takes : ∀ m ∈ members, ∀ part, partOf outputDir (nameField m.header) = some part →
      out.Takes part)
    (short : rest.length < 60) :
    extractDebArchive out bits outputDir (archive members ++ rest) =
      .ok (outcome outputDir members {}) := by
  have run : ∀ ex, Loop.run (archiveStep_descends out bits outputDir)
      (members.flatMap RawMember.bytes ++ rest, ex) = .ok (outcome outputDir members ex) := by
    induction members with
    | nil => exact fun ex => Loop.run_stop _ (archiveStep_short ex short)
    | cons m members ih =>
      intro ex
      obtain ⟨first, others⟩ := List.forall_mem_cons.mp takes
      rw [List.flatMap_cons, List.append_assoc,
        Loop.run_next _ (archiveStep_whole m _ ex first), ih others]
      rfl
  have magic : (archive members ++ rest).take 8 = str "!<arch>\n" := by
    rw [archive, List.append_assoc]
    exact List.take_left' rfl
  have input : (archive members ++ rest).drop 8 = members.flatMap RawMember.bytes ++ rest := by
    rw [archive, List.append_assoc]
    exact List.drop_left' rfl
  unfold extractDebArchive
  rw [magic, bne_self_eq_false, if_neg Bool.false_ne_true, input]
  exact run {}

end Runs

/-! ### One reading -/

namespace RawMember

variable {bits : Nat}

/-- The bytes of a member say where it ends. -/
theorem bytes_append_inj {m m' : RawMember bits} {rest rest' : ByteString}
    (h : m.bytes ++ rest = m'.bytes ++ rest') : m = m' ∧ rest = rest' := by
  obtain ⟨header, body, pad, long, magic, size, padded⟩ := m
  obtain ⟨header', body', pad', long', magic', size', padded'⟩ := m'
  simp only [bytes, List.append_assoc] at h
  obtain ⟨rfl, behind⟩ := List.append_inj h (long.trans long'.symm)
  have length : body.length = body'.length := Option.some.inj (size.symm.trans size')
  obtain ⟨rfl, behind'⟩ := List.append_inj behind length
  obtain ⟨rfl, rfl⟩ := List.append_inj behind' (padded.trans padded'.symm)
  exact ⟨rfl, rfl⟩

theorem sixty_le_bytes (m : RawMember bits) : 60 ≤ m.bytes.length := by
  simp only [bytes, List.length_append, m.header_length]
  omega

end RawMember

theorem flatMap_bytes_inj {bits : Nat} {members members' : List (RawMember bits)}
    {rest rest' : ByteString} (short : rest.length < 60) (short' : rest'.length < 60)
    (h : members.flatMap RawMember.bytes ++ rest = members'.flatMap RawMember.bytes ++ rest') :
    members = members' ∧ rest = rest' := by
  induction members generalizing members' with
  | nil =>
    cases members' with
    | nil => exact ⟨rfl, h⟩
    | cons m' _ =>
      have long := m'.sixty_le_bytes
      have lengths := congrArg List.length h
      simp only [List.flatMap_nil, List.flatMap_cons, List.length_append,
        List.length_nil] at lengths
      omega
  | cons m members ih =>
    cases members' with
    | nil =>
      have long := m.sixty_le_bytes
      have lengths := congrArg List.length h
      simp only [List.flatMap_nil, List.flatMap_cons, List.length_append,
        List.length_nil] at lengths
      omega
    | cons m' members' =>
      rw [List.flatMap_cons, List.flatMap_cons, List.append_assoc, List.append_assoc] at h
      obtain ⟨rfl, behind⟩ := RawMember.bytes_append_inj h
      obtain ⟨rfl, rfl⟩ := ih behind
      exact ⟨rfl, rfl⟩

/-- **An archive is read in one way.** -/
theorem archive_inj {bits : Nat} {members members' : List (RawMember bits)}
    {rest rest' : ByteString} (short : rest.length < 60) (short' : rest'.length < 60)
    (h : archive members ++ rest = archive members' ++ rest') :
    members = members' ∧ rest = rest' := by
  rw [archive, archive, List.append_assoc, List.append_assoc] at h
  exact flatMap_bytes_inj short short' (List.append_cancel_left h)

/-! ### Archives that are written -/

/-- A member that fits the fields of a header. -/
structure ArMember where
  name : ByteString
  slashed : Bool
  fields : ByteString
  body : ByteString
  pad : UInt8
  name_fits : name.length + slashed.toNat ≤ 16
  name_last : slashed = false → ∀ c ∈ name.getLast?, c ≠ chr ' ' ∧ c ≠ chr '\n' ∧ c ≠ chr '/'
  fields_length : fields.length = 32
  size_fits : (decimal body.length).length ≤ 10

namespace ArMember

def nameText (m : ArMember) : ByteString := if m.slashed then m.name ++ [chr '/'] else m.name

def header (m : ArMember) : ByteString :=
  m.nameText.rightpad 16 (chr ' ') ++ m.fields ++
    (decimal m.body.length).rightpad 10 (chr ' ') ++ str "`\n"

def padding (m : ArMember) : ByteString := if m.body.length % 2 = 0 then [] else [m.pad]

def bytes (m : ArMember) : ByteString := m.header ++ m.body ++ m.padding

end ArMember

theorem rdropWhile_rightpad {p : UInt8 → Bool} {c : UInt8} (blank : p c = true) (n : Nat)
    (s : ByteString) : (s.rightpad n c).rdropWhile p = s.rdropWhile p := by
  unfold List.rightpad
  generalize n - s.length = k
  induction k with
  | zero => rw [List.replicate_zero, List.append_nil]
  | succ k ih =>
    rw [List.replicate_succ', ← List.append_assoc, List.rdropWhile_concat_pos _ _ _ blank, ih]

namespace ArMember

theorem nameText_fits (m : ArMember) : m.nameText.length ≤ 16 := by
  have fits := m.name_fits
  unfold nameText
  cases slashed : m.slashed with
  | true => simpa [slashed] using fits
  | false => simpa [slashed] using fits

theorem header_parts (m : ArMember) :
    (m.nameText.rightpad 16 (chr ' ')).length = 16 ∧ m.fields.length = 32 ∧
      ((decimal m.body.length).rightpad 10 (chr ' ')).length = 10 := by
  refine ⟨?_, m.fields_length, ?_⟩
  · rw [List.length_rightpad, Nat.max_eq_left m.nameText_fits]
  · rw [List.length_rightpad, Nat.max_eq_left m.size_fits]

theorem header_length (m : ArMember) : m.header.length = 60 := by
  obtain ⟨name, fields, size⟩ := m.header_parts
  simp only [header, List.length_append, name, fields, size]
  rfl

theorem header_magic (m : ArMember) : m.header.drop 58 = str "`\n" := by
  obtain ⟨name, fields, size⟩ := m.header_parts
  refine List.drop_left' ?_
  simp only [List.length_append, name, fields, size]

theorem header_size (m : ArMember) (bits : Nat) :
    memberSize bits m.header = if m.body.length < 2 ^ bits then some m.body.length else none := by
  obtain ⟨name, fields, size⟩ := m.header_parts
  have field : (m.header.drop 48).take 10 = (decimal m.body.length).rightpad 10 (chr ' ') := by
    rw [header, List.append_assoc, List.drop_left', List.take_left' size]
    simp only [List.length_append, name, fields]
  have digits : trimRightSpaces (decimal m.body.length) = decimal m.body.length := by
    refine List.rdropWhile_eq_self_iff.mpr fun some => ?_
    have digit := decimal_isdigit _ _ (List.getLast_mem some)
    intro blank
    revert digit
    rw [Bool.or_eq_true, beq_iff_eq, beq_iff_eq] at blank
    rcases blank with blank | blank <;> rw [blank] <;> decide
  rw [memberSize, field, trimRightSpaces, rdropWhile_rightpad (by decide), ← trimRightSpaces,
    digits, strtoul_decimal]

/-- The reader sees the name that was written. -/
theorem memberName_header (m : ArMember) : memberName (nameField m.header) = m.name := by
  have field : nameField m.header = m.nameText.rightpad 16 (chr ' ') := by
    rw [nameField, header, List.append_assoc, List.append_assoc, List.take_left' m.header_parts.1]
  unfold memberName
  rw [field, rdropWhile_rightpad (by decide)]
  cases slashed : m.slashed with
  | true =>
    have text : m.nameText = m.name ++ [chr '/'] := by rw [nameText, slashed, if_pos rfl]
    rw [text, List.rdropWhile_concat_neg _ _ _ (by decide)]
    simp
  | false =>
    have text : m.nameText = m.name := by rw [nameText, slashed, if_neg Bool.false_ne_true]
    have last := m.name_last slashed
    have kept : (m.name.rdropWhile fun c => c == chr ' ' || c == chr '\n') = m.name := by
      refine List.rdropWhile_eq_self_iff.mpr fun some => ?_
      obtain ⟨notBlank, notLine, -⟩ := last _ (List.getLast?_eq_some_getLast some)
      simp [notBlank, notLine]
    rw [text, kept]
    dsimp only
    rw [if_neg]
    intro slash
    exact (last _ (beq_iff_eq.mp slash)).2.2 rfl

end ArMember

namespace ArMember

/-- A member as the reader sees it. -/
def raw {bits : Nat} (m : ArMember) (small : m.body.length < 2 ^ bits) : RawMember bits where
  header := m.header
  body := m.body
  pad := m.padding
  header_length := m.header_length
  header_magic := m.header_magic
  header_size := by rw [m.header_size, if_pos small]
  pad_length := by
    unfold padding
    split <;> simp <;> omega

def isControl (m : ArMember) : Bool := (str "control.tar").isPrefixOf m.name

def isData (m : ArMember) : Bool := (str "data.tar").isPrefixOf m.name

theorem partOf_header (outputDir : ByteString) (m : ArMember) :
    partOf outputDir (nameField m.header) =
      if m.isControl then some (.control (joinPath outputDir m.name))
      else if m.isData then some (.data (joinPath outputDir m.name))
      else none := by
  rw [partOf, m.memberName_header]
  rfl

/-- No name begins in both ways. -/
theorem not_isData {m : ArMember} (control : m.isControl = true) : m.isData = false := by
  obtain ⟨rest, name⟩ := List.isPrefixOf_iff_prefix.mp control
  rw [isData, ← name]
  rfl

/-- What the members make. -/
def outcome (outputDir : ByteString) (members : List ArMember) (ex : Extraction) : Extraction :=
  members.foldl (fun ex m => ex.take outputDir m.header m.body) ex

end ArMember

/-- The encoding of members. -/
def encode (members : List ArMember) : ByteString :=
  str "!<arch>\n" ++ members.flatMap ArMember.bytes

section Encoding

variable {bits : Nat} {members : List ArMember}

theorem encode_eq_archive (small : ∀ m ∈ members, m.body.length < 2 ^ bits) :
    encode members = archive (members.pmap (fun m h => m.raw h) small) := by
  unfold encode archive
  congr 1
  induction members with
  | nil => rfl
  | cons m members ih =>
    rw [List.flatMap_cons, List.pmap_cons, List.flatMap_cons, ih]
    rfl

theorem outcome_pmap (outputDir : ByteString) (ex : Extraction)
    (small : ∀ m ∈ members, m.body.length < 2 ^ bits) :
    outcome outputDir (members.pmap (fun m h => m.raw h) small) ex =
      ArMember.outcome outputDir members ex := by
  induction members generalizing ex with
  | nil => rfl
  | cons m members ih => exact ih _ _

/-- Members that are read have sizes that are. -/
theorem small_of_flatMap {raws : List (RawMember bits)} {rest : ByteString}
    (short : rest.length < 60)
    (h : members.flatMap ArMember.bytes = raws.flatMap RawMember.bytes ++ rest) :
    ∀ m ∈ members, m.body.length < 2 ^ bits := by
  induction members generalizing raws with
  | nil => exact fun m mem => absurd mem List.not_mem_nil
  | cons m members ih =>
    cases raws with
    | nil =>
      have long := m.header_length
      have lengths := congrArg List.length h
      simp only [List.flatMap_nil, List.flatMap_cons, List.length_append, List.length_nil,
        ArMember.bytes] at lengths
      omega
    | cons raw raws =>
      rw [List.flatMap_cons, List.flatMap_cons, List.append_assoc] at h
      have headers : m.header = raw.header := by
        have first := congrArg (List.take 60) h
        simpa only [ArMember.bytes, RawMember.bytes, List.append_assoc,
          List.take_left' m.header_length, List.take_left' raw.header_length] using first
      have size := m.header_size bits
      have first : m.body.length < 2 ^ bits := by
        by_contra large
        rw [if_neg large, headers, raw.header_size] at size
        cases size
      have h' : (m.raw first).bytes ++ members.flatMap ArMember.bytes =
          raw.bytes ++ (raws.flatMap RawMember.bytes ++ rest) := h
      exact List.forall_mem_cons.mpr ⟨first, ih (RawMember.bytes_append_inj h').2⟩

end Encoding

/-! ### One control and one data member -/

/-- What an extraction gives for a control and a data member. -/
structure Extracted (outputDir : ByteString) (control data : ArMember) (ex : Extraction) :
    Prop where
  controlTarPath : ex.parts.controlTarPath = joinPath outputDir control.name
  dataTarPath : ex.parts.dataTarPath = joinPath outputDir data.name
  controlCompression : ex.controlCompression = detectCompressionFromName control.name
  dataCompression : ex.dataCompression = detectCompressionFromName data.name
  files : ex.files.Perm
    [(joinPath outputDir control.name, control.body), (joinPath outputDir data.name, data.body)]

namespace ArMember

variable {members : List ArMember} {control data : ArMember}

/-- The members that are needed, in one order or the other. -/
theorem needed_eq (isControl : members.filter isControl = [control])
    (isData : members.filter isData = [data]) :
    members.filter (fun m => m.isControl || m.isData) = [control, data] ∨
      members.filter (fun m => m.isControl || m.isData) = [data, control] := by
  have split := List.filter_append_perm ArMember.isControl
    (members.filter fun m => m.isControl || m.isData)
  have first : (members.filter fun m => m.isControl || m.isData).filter ArMember.isControl =
      [control] := by
    rw [List.filter_filter, ← isControl]
    refine List.filter_congr fun m _ => ?_
    cases m.isControl <;> simp
  have second : ((members.filter fun m => m.isControl || m.isData).filter
      fun m => !m.isControl) = [data] := by
    rw [List.filter_filter, ← isData]
    refine List.filter_congr fun m _ => ?_
    cases control : m.isControl with
    | false => simp
    | true => simp [not_isData control]
  rw [first, second] at split
  exact List.pair_perm.mp split

theorem outcome_filter (outputDir : ByteString) (ex : Extraction) :
    outcome outputDir members ex =
      outcome outputDir (members.filter fun m => m.isControl || m.isData) ex := by
  unfold outcome
  rw [List.foldl_filter]
  congr
  funext ex m
  split
  · rfl
  · rename_i unneeded
    rw [Bool.or_eq_true, not_or] at unneeded
    rw [Extraction.take, partOf_header, if_neg unneeded.1, if_neg unneeded.2]

theorem take_control (outputDir : ByteString) (ex : Extraction) (h : control.isControl = true) :
    ex.take outputDir control.header control.body =
      let part : Part := .control (joinPath outputDir control.name)
      let ex := ex.announce control.name part
      { ex with files := ex.files ++ [(part.path, control.body)] } := by
  rw [Extraction.take, partOf_header, if_pos h, memberName_header]

theorem take_data (outputDir : ByteString) (ex : Extraction) (h : data.isData = true)
    (h' : data.isControl = false) :
    ex.take outputDir data.header data.body =
      let part : Part := .data (joinPath outputDir data.name)
      let ex := ex.announce data.name part
      { ex with files := ex.files ++ [(part.path, data.body)] } := by
  rw [Extraction.take, partOf_header, h', if_neg Bool.false_ne_true, if_pos h, memberName_header]

/-- **One control and one data member are extracted**, whatever else is there. -/
theorem outcome_extracted (outputDir : ByteString)
    (isControl : members.filter isControl = [control])
    (isData : members.filter isData = [data]) :
    Extracted outputDir control data (outcome outputDir members {}) := by
  have controls : control.isControl = true :=
    (List.mem_filter.mp (isControl ▸ List.mem_cons_self : control ∈ members.filter _)).2
  have datas : data.isData = true :=
    (List.mem_filter.mp (isData ▸ List.mem_cons_self : data ∈ members.filter _)).2
  have apart : data.isControl = false := by
    by_contra both
    rw [Bool.not_eq_false] at both
    rw [not_isData both] at datas
    cases datas
  rw [outcome_filter]
  rcases needed_eq isControl isData with needed | needed
  · rw [needed, outcome, List.foldl_cons, List.foldl_cons, List.foldl_nil,
      take_control _ _ controls, take_data _ _ datas apart]
    exact ⟨rfl, rfl, rfl, rfl, .refl _⟩
  · rw [needed, outcome, List.foldl_cons, List.foldl_cons, List.foldl_nil,
      take_data _ _ datas apart, take_control _ _ controls]
    exact ⟨rfl, rfl, rfl, rfl, .swap _ _ _⟩

end ArMember

/-- Everything of the archive was read, a control and a data member among it. -/
def ReadWhole (bits : Nat) (outputDir content : ByteString) (ex : Extraction) : Prop :=
  ∃ members : List (RawMember bits),
    content = archive members ∧ (∃ m ∈ members, m.IsControl) ∧ (∃ m ∈ members, m.IsData) ∧
      ex = outcome outputDir members {}

/-- An output that takes everything. -/
def willing : Output where
  opens _ := true
  stores _ _ := true

theorem willing_takes (part : Part) : willing.Takes part := ⟨rfl, fun _ => rfl⟩

/-- **What success says.** The encoding of members with one control and one data member is
extracted exactly if no size overflows, and success is about a whole archive with a control and
a data member exactly if the content is not one that ends in a part of a header, or lacks one. -/
theorem extractDebArchive_spec (bits : Nat) :
    (∀ (out : Output) (outputDir : ByteString) (members : List ArMember)
      (control data : ArMember),
      members.filter ArMember.isControl = [control] → members.filter ArMember.isData = [data] →
      out.Takes (.control (joinPath outputDir control.name)) →
      out.Takes (.data (joinPath outputDir data.name)) →
      ((∃ ex, extractDebArchive out bits outputDir (encode members) = .ok ex ∧
          Extracted outputDir control data ex) ↔
        ∀ m ∈ members, m.body.length < 2 ^ bits)) ∧
    ∀ content,
      (∀ out outputDir ex, extractDebArchive out bits outputDir content = .ok ex →
        ReadWhole bits outputDir content ex) ↔
      ∀ (members : List (RawMember bits)) (rest : ByteString),
        content = archive members ++ rest → rest.length < 60 →
          rest = [] ∧ (∃ m ∈ members, m.IsControl) ∧ ∃ m ∈ members, m.IsData := by
  constructor
  · intro out outputDir members control data isControl isData takesControl takesData
    constructor
    · rintro ⟨ex, read, -⟩
      obtain ⟨raws, rest, content, short, -⟩ := extractDebArchive_ok read
      rw [encode, archive, List.append_assoc] at content
      exact small_of_flatMap short (List.append_cancel_left content)
    · intro small
      refine ⟨_, ?_, ArMember.outcome_extracted outputDir isControl isData⟩
      rw [← outcome_pmap outputDir {} small, encode_eq_archive small,
        ← List.append_nil (archive _)]
      refine extractDebArchive_whole ?_ (by simp)
      intro raw mem part needed
      obtain ⟨m, isMember, rfl⟩ := List.mem_pmap.mp mem
      change partOf outputDir (nameField m.header) = some part at needed
      rw [m.partOf_header] at needed
      split at needed
      · rename_i h
        have same : m ∈ members.filter ArMember.isControl := List.mem_filter.mpr ⟨isMember, h⟩
        rw [isControl, List.mem_singleton] at same
        cases needed
        exact same ▸ takesControl
      split at needed
      · rename_i h
        have same : m ∈ members.filter ArMember.isData := List.mem_filter.mpr ⟨isMember, h⟩
        rw [isData, List.mem_singleton] at same
        cases needed
        exact same ▸ takesData
      · cases needed
  · intro content
    constructor
    · rintro whole members rest rfl short
      have read : extractDebArchive willing bits [] (archive members ++ rest) =
          .ok (outcome [] members {}) :=
        extractDebArchive_whole (fun m _ part _ => willing_takes part) short
      obtain ⟨members', content, control, data, -⟩ := whole _ _ _ read
      rw [← List.append_nil (archive members')] at content
      obtain ⟨rfl, rfl⟩ := archive_inj short (by simp) content
      exact ⟨rfl, control, data⟩
    · intro whole out outputDir ex read
      obtain ⟨members, rest, content, short, ex⟩ := extractDebArchive_ok read
      obtain ⟨rfl, control, data⟩ := whole members rest content short
      exact ⟨members, content.trans (List.append_nil _), control, data, ex⟩

/-- A control member of two bytes. -/
def controlMember : ArMember where
  name := str "control.tar.xz"
  slashed := false
  fields := List.replicate 32 (chr ' ')
  body := str "ok"
  pad := 0
  name_fits := by decide
  name_last := by decide
  fields_length := rfl
  size_fits := by decide

/-- An archive that ends in the header of its data member is extracted. -/
theorem cut_header_extracted :
    ∃ ex, extractDebArchive willing 64 (str "/work")
        (encode [controlMember] ++ str "data.tar.xz") = .ok ex ∧
      ex.parts.dataTarPath = [] ∧
      ¬ ReadWhole 64 (str "/work") (encode [controlMember] ++ str "data.tar.xz") ex := by
  have small : ∀ m ∈ [controlMember], m.body.length < 2 ^ 64 := by decide
  have short : (str "data.tar.xz").length < 60 := by decide
  refine ⟨ArMember.outcome (str "/work") [controlMember] {}, ?_, ?_, ?_⟩
  · rw [encode_eq_archive small, ← outcome_pmap _ _ small]
    exact extractDebArchive_whole (fun m _ part _ => willing_takes part) short
  · decide
  · rintro ⟨members, content, -⟩
    rw [encode_eq_archive small, ← List.append_nil (archive members)] at content
    cases (archive_inj short (by simp) content).2

end Apm.Deb
