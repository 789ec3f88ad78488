import Apm.Lib.Base64
import Apm.Util.LineText
import Mathlib.Algebra.Group.Int.Defs

/-!
`decodeArmoredBlock` of `src/util/crypto/gpg_verify.cpp`.

`EVP_DecodeBlock` is a parameter of the decoder.

## Main results

* `decodeArmoredBlock_iff`: an armor is decoded to its content exactly if it has no checksum line,
  an empty line behind its headers, and less than 2³¹ characters; binary data comes back as it is,
  unless the number of its characters is a multiple of 2³².
-/

namespace Apm.Crypto

open Apm.Lib Apm.Lib.Text

/-- A function of base64 text. -/
abbrev BlockDecoder := ByteString → Option ByteString

/-- What is relied on of `EVP_DecodeBlock`: it accepts whole groups of characters only, gives three
bytes for each group, and takes padding for zeros. -/
structure StrictBase64 (EVP_DecodeBlock : BlockDecoder) : Prop where
  accepts : ∀ src out, EVP_DecodeBlock src = some out →
    4 ∣ src.length ∧ out.length = src.length / 4 * 3 ∧ ∀ c ∈ src, Base64.IsChar c
  decodes : ∀ content, EVP_DecodeBlock (Base64.encode content) =
    some (content ++ List.replicate (Base64.padding content.length) 0)

theorem strictBase64_decodeBlock : StrictBase64 Base64.decodeBlock where
  accepts _ _ h := Base64.of_decodeBlock h
  decodes := Base64.decodeBlock_encode

variable (EVP_DecodeBlock : BlockDecoder)

/-! ### The decoder -/

/-- `static_cast<int>` of a size. -/
def castToInt (n : Nat) : Int := Int.bmod n (2 ^ 32)

/-- `decodeBase64`. The size is cast to `int`; with a negative one `EVP_DecodeBlock` would read
behind the text. -/
def decodeBase64 (b64 : ByteString) : Option ByteString :=
  if b64.isEmpty then none
  else
    let size := castToInt b64.length
    if size < 0 then none
    else
      (EVP_DecodeBlock (b64.take size.toNat)).map fun decoded =>
        let padding := (b64.reverse.takeWhile (· == chr '=')).length
        let padding := if padding > decoded.length then 0 else padding
        decoded.take (decoded.length - padding)

def beginMarker : ByteString := str "-----BEGIN"
def endMarker : ByteString := str "-----END"

/-- Where the loop over the lines is. -/
inductive ArmorState where
  | start
  | headers
  | payload (text : ByteString)
  | ended (text : ByteString)

/-- One line of the loop. -/
def armorLine : ArmorState → ByteString → ArmorState
  | .start, line => if beginMarker.isPrefixOf line then .headers else .start
  | .headers, line => if line.isEmpty then .payload [] else .headers
  | .payload text, line =>
      if endMarker.isPrefixOf line then .ended text
      else .payload (text ++ line.filter (!isspace ·))
  | .ended text, _ => .ended text

/-- The characters of the armor, if there is one. -/
def ArmorState.text : ArmorState → Option ByteString
  | .start => none
  | .headers => some []
  | .payload text => some text
  | .ended text => some text

/-- `decodeArmoredBlock`: the bytes, and whether there was an armor. -/
def decodeArmoredBlock (text : ByteString) : Except ByteString (ByteString × Bool) :=
  match (((getlines (chr '\n') text).map dropCr).foldl armorLine .start).text with
  | some payload =>
      match decodeBase64 EVP_DecodeBlock payload with
      | some out => .ok (out, true)
      | none => .error (str "ASCII armor detected, but Base64 decode failed")
  | none => .ok ((decodeBase64 EVP_DecodeBlock (text.filter (!isspace ·))).getD text, false)

/-! ### ASCII armor -/

/-- One bit of the CRC-24 of OpenPGP. -/
def crc24Bit (crc : Nat) : Nat :=
  if crc * 2 < 0x1000000 then crc * 2 else (crc * 2) ^^^ 0x1864CFB

/-- The CRC-24 of OpenPGP. -/
def crc24 (content : ByteString) : Nat :=
  content.foldl (fun crc octet => crc24Bit^[8] (crc ^^^ (octet.toNat * 65536))) 0xB704CE

/-- An armor header, such as `Version` with its value. -/
structure ArmorHeader where
  key : ByteString
  value : ByteString
  key_plain : PlainLine key
  value_plain : PlainLine value

def ArmorHeader.line (header : ArmorHeader) : ByteString := header.key ++ str ": " ++ header.value

/-- An ASCII armor of some bytes, whatever its line ends and the width of its lines are. -/
structure Armor (content : ByteString) where
  /-- For example `PGP SIGNATURE`. -/
  title : ByteString
  headers : List ArmorHeader
  /-- The line behind the headers: nothing but blanks. -/
  blank : ByteString
  /-- The base64 text, cut into lines. -/
  lines : List ByteString
  /-- There is a checksum line. -/
  checksum : Bool
  /-- These lines end in CRLF. -/
  crlf : Nat → Bool
  /-- The tail line has an end. -/
  ended : Bool
  title_plain : PlainLine title
  blank_blank : ∀ c ∈ blank, c = chr ' ' ∨ c = chr '\t'
  lines_nonempty : ∀ line ∈ lines, line ≠ []
  lines_text : lines.flatten = Base64.encode content

variable {content : ByteString}

/-- The checksum, in base64. -/
def checksumText (content : ByteString) : ByteString :=
  let crc := crc24 content
  Base64.encode [UInt8.ofNat (crc / 65536), UInt8.ofNat (crc / 256 % 256), UInt8.ofNat (crc % 256)]

namespace Armor

variable (a : Armor content)

def beginLine : ByteString := str "-----BEGIN " ++ a.title ++ str "-----"
def tailLine : ByteString := str "-----END " ++ a.title ++ str "-----"

def checksumLines : List ByteString :=
  if a.checksum then [chr '=' :: checksumText content] else []

/-- The lines before the tail line. -/
def frontLines : List ByteString :=
  a.beginLine :: a.headers.map ArmorHeader.line ++ a.blank :: (a.lines ++ a.checksumLines)

def text : ByteString :=
  if a.ended then lineText a.crlf (a.frontLines ++ [a.tailLine])
  else lineText a.crlf a.frontLines ++ a.tailLine

/-- The characters that the loop gathers. -/
def payload : ByteString :=
  if a.blank = [] then (a.lines ++ a.checksumLines).flatten else []

end Armor

/-! ### Characters of base64 -/

theorem isChar_plain {c : UInt8} (h : Base64.IsChar c) :
    c.toNat < 128 ∧ isspace c = false ∧ c ≠ chr '-' ∧ c ≠ chr '\n' ∧ c ≠ chr '\r' := by
  have all : ∀ n < 256,
      (UInt8.ofNat n = Base64.pad ∨ (Base64.value (UInt8.ofNat n)).isSome = true) →
      (UInt8.ofNat n).toNat < 128 ∧ isspace (UInt8.ofNat n) = false ∧ UInt8.ofNat n ≠ chr '-' ∧
        UInt8.ofNat n ≠ chr '\n' ∧ UInt8.ofNat n ≠ chr '\r' := by
    decide +kernel
  have byte := all c.toNat c.toNat_lt
  rw [UInt8.ofNat_toNat] at byte
  exact byte h

/-- A line of base64 characters. -/
def Base64Line (line : ByteString) : Prop := ∀ c ∈ line, Base64.IsChar c

theorem Base64Line.plain {line : ByteString} (h : Base64Line line) : PlainLine line :=
  ⟨fun lf => (isChar_plain (h _ lf)).2.2.2.1 rfl, fun cr => (isChar_plain (h _ cr)).2.2.2.2 rfl⟩

theorem Base64Line.filter {line : ByteString} (h : Base64Line line) :
    line.filter (!isspace ·) = line := by
  apply List.filter_eq_self.mpr
  intro c mem
  simp [(isChar_plain (h c mem)).2.1]

theorem Base64Line.not_end {line : ByteString} (h : Base64Line line) :
    endMarker.isPrefixOf line = false := by
  cases line with
  | nil => rfl
  | cons c line =>
    have first : (chr '-' == c) = false :=
      beq_false_of_ne (isChar_plain (h c List.mem_cons_self)).2.2.1.symm
    have marker : endMarker = chr '-' :: endMarker.tail := rfl
    rw [marker, List.isPrefixOf_cons_cons, first]
    rfl

namespace Armor

variable (a : Armor content)

theorem base64Line_of_mem {line : ByteString} (h : line ∈ a.lines ++ a.checksumLines) :
    Base64Line line := by
  intro c mem
  rcases List.mem_append.mp h with h | h
  · apply Base64.isChar_of_mem_encode (s := content)
    rw [← a.lines_text]
    exact List.mem_flatten.mpr ⟨line, h, mem⟩
  · unfold checksumLines at h
    split at h
    · obtain rfl := List.mem_singleton.mp h
      rcases List.mem_cons.mp mem with rfl | mem
      · exact Base64.isChar_pad
      · exact Base64.isChar_of_mem_encode mem
    · cases h

theorem frontLines_plain : ∀ line ∈ a.frontLines, PlainLine line := by
  intro line mem
  simp only [frontLines, List.cons_append, List.mem_cons, List.mem_append, List.mem_map] at mem
  rcases mem with rfl | ⟨header, -, rfl⟩ | rfl | mem
  · exact (PlainLine.append (by decide) a.title_plain).append (by decide)
  · exact (header.key_plain.append (by decide)).append header.value_plain
  · constructor
    · intro lf
      rcases a.blank_blank _ lf with h | h <;> exact absurd h (by decide)
    · intro cr
      rcases a.blank_blank _ cr with h | h <;> exact absurd h (by decide)
  · exact (a.base64Line_of_mem (List.mem_append.mpr mem)).plain

/-! ### The loop over an armor -/

theorem foldl_headers {lines : List ByteString} (h : ∀ line ∈ lines, line ≠ []) :
    lines.foldl armorLine .headers = .headers := by
  induction lines with
  | nil => rfl
  | cons line lines ih =>
    obtain ⟨first, others⟩ := List.forall_mem_cons.mp h
    have stays : armorLine .headers line = .headers :=
      if_neg fun empty => first (List.isEmpty_iff.mp empty)
    rw [List.foldl_cons, stays, ih others]

theorem foldl_payload {lines : List ByteString} (h : ∀ line ∈ lines, Base64Line line)
    (text : ByteString) :
    lines.foldl armorLine (.payload text) = .payload (text ++ lines.flatten) := by
  induction lines generalizing text with
  | nil => simp
  | cons line lines ih =>
    obtain ⟨first, others⟩ := List.forall_mem_cons.mp h
    have gathers : armorLine (.payload text) line = .payload (text ++ line) := by
      rw [armorLine, if_neg (by simp [first.not_end]), first.filter]
    rw [List.foldl_cons, gathers, ih others, List.flatten_cons, List.append_assoc]

variable (a : Armor content)

theorem tailLine_plain : PlainLine a.tailLine :=
  (PlainLine.append (by decide) a.title_plain).append (by decide)

theorem getlines_text :
    (getlines (chr '\n') a.text).map dropCr = a.frontLines ++ [a.tailLine] := by
  have front := a.frontLines_plain
  unfold text
  split
  · have all : ∀ line ∈ a.frontLines ++ [a.tailLine], PlainLine line := by
      intro line mem
      rcases List.mem_append.mp mem with mem | mem
      · exact front line mem
      · exact List.mem_singleton.mp mem ▸ a.tailLine_plain
    have lines := getlines_lineText a.crlf all []
    rw [List.append_nil] at lines
    have nothing : (getlines (chr '\n') []).map dropCr = [] := by decide
    rw [lines, nothing, List.append_nil]
  · have last : getlines (chr '\n') a.tailLine = [a.tailLine] := by
      unfold getlines
      rw [List.splitOn_eq_singleton a.tailLine_plain.noLf]
      have nonempty : a.tailLine ≠ [] := by
        intro empty
        cases empty
      simp [nonempty]
    rw [getlines_lineText a.crlf front, last, List.map_singleton, dropCr_plain a.tailLine_plain]

/-- What the loop gathers: nothing if the line behind the headers is not empty. -/
theorem foldl_lines :
    ((a.frontLines ++ [a.tailLine]).foldl armorLine .start).text = some a.payload := by
  have isPrefix {marker : ByteString} (blank title : ByteString) :
      marker <+: marker ++ blank ++ title ++ str "-----" := by
    rw [List.append_assoc, List.append_assoc]
    exact List.prefix_append _ _
  have begins : armorLine .start a.beginLine = .headers := by
    have marked : beginMarker.isPrefixOf a.beginLine = true :=
      List.isPrefixOf_iff_prefix.mpr (isPrefix (str " ") a.title)
    rw [armorLine, if_pos marked]
  have headers : (a.headers.map ArmorHeader.line).foldl armorLine .headers = .headers := by
    apply foldl_headers
    intro line mem empty
    obtain ⟨header, -, rfl⟩ := List.mem_map.mp mem
    have := congrArg List.length empty
    simp [ArmorHeader.line, str] at this
  have ends (text : ByteString) : armorLine (.payload text) a.tailLine = .ended text := by
    have marked : endMarker.isPrefixOf a.tailLine = true :=
      List.isPrefixOf_iff_prefix.mpr (isPrefix (str " ") a.title)
    rw [armorLine, if_pos marked]
  have base64 : ∀ line ∈ a.lines ++ a.checksumLines, Base64Line line :=
    fun line mem => a.base64Line_of_mem mem
  rw [frontLines, List.cons_append, List.cons_append, List.foldl_cons, begins, List.append_assoc,
    List.foldl_append, headers, List.cons_append, List.foldl_cons, List.foldl_append]
  by_cases empty : a.blank = []
  · have starts : armorLine .headers a.blank = .payload [] := by
      rw [empty]
      rfl
    rw [starts, foldl_payload base64, List.nil_append, List.foldl_cons, ends, payload, if_pos empty]
    rfl
  · have stays : armorLine .headers a.blank = .headers :=
      if_neg fun h => empty (List.isEmpty_iff.mp h)
    have nonempty : ∀ line ∈ a.lines ++ a.checksumLines, line ≠ [] := by
      intro line mem
      rcases List.mem_append.mp mem with mem | mem
      · exact a.lines_nonempty line mem
      · unfold checksumLines at mem
        split at mem
        · rw [List.mem_singleton.mp mem]
          exact List.cons_ne_nil _ _
        · cases mem
    rw [stays, foldl_headers nonempty, payload, if_neg empty]
    rfl

/-- The decoder decodes what the loop gathers. -/
theorem decodeArmoredBlock_text :
    decodeArmoredBlock EVP_DecodeBlock a.text =
      match decodeBase64 EVP_DecodeBlock a.payload with
      | some out => .ok (out, true)
      | none => .error (str "ASCII armor detected, but Base64 decode failed") := by
  rw [decodeArmoredBlock, a.getlines_text, a.foldl_lines]

end Armor

/-- Without an armor nothing is gathered. -/
theorem foldl_start {lines : List ByteString}
    (h : ∀ line ∈ lines, beginMarker.isPrefixOf line = false) :
    lines.foldl armorLine .start = .start := by
  induction lines with
  | nil => rfl
  | cons line lines ih =>
    obtain ⟨first, others⟩ := List.forall_mem_cons.mp h
    have stays : armorLine .start line = .start := by
      rw [armorLine, first]
      rfl
    rw [List.foldl_cons, stays, ih others]

theorem not_begin_dropCr {line : ByteString} (h : beginMarker.isPrefixOf line = false) :
    beginMarker.isPrefixOf (dropCr line) = false := by
  rw [Bool.eq_false_iff, ne_eq, List.isPrefixOf_iff_prefix] at h ⊢
  intro marked
  apply h
  unfold dropCr at marked
  split at marked
  · exact marked.trans (List.dropLast_prefix line)
  · exact marked

/-! ### Base64 text -/

theorem castToInt_eq (n : Nat) :
    castToInt n = if n % 2 ^ 32 < 2 ^ 31 then (n : Int) % 2 ^ 32
      else (n : Int) % 2 ^ 32 - 2 ^ 32 := by
  have cast := Int.bmod_def n (2 ^ 32)
  unfold castToInt
  rw [cast]
  split <;> split <;> omega

theorem castToInt_le (n : Nat) : castToInt n ≤ n := by
  rw [castToInt_eq]
  split <;> omega

section Strict

variable {EVP_DecodeBlock} (strict : StrictBase64 EVP_DecodeBlock)
include strict

/-- What is decoded is a whole number of groups, as long as the size that was cast. -/
theorem of_decodeBase64 {b64 out : ByteString}
    (h : decodeBase64 EVP_DecodeBlock b64 = some out) :
    ∃ n : Nat, castToInt b64.length = n ∧ 4 ∣ n ∧ out.length ≤ n / 4 * 3 ∧
      ∀ c ∈ b64.take n, Base64.IsChar c := by
  unfold decodeBase64 at h
  split at h
  · cases h
  · dsimp only at h
    split at h
    · cases h
    · rename_i nonneg
      obtain ⟨decoded, read, rfl⟩ := Option.map_eq_some_iff.mp h
      obtain ⟨n, size⟩ := Int.eq_ofNat_of_zero_le (Int.not_lt.mp nonneg)
      have small : n ≤ b64.length := by
        have := castToInt_le b64.length
        omega
      rw [size, Int.toNat_natCast] at read
      obtain ⟨groups, bytes, chars⟩ := strict.accepts _ _ read
      rw [List.length_take_of_le small] at groups bytes
      refine ⟨n, size, groups, ?_, chars⟩
      rw [List.length_take]
      omega

/-- Text with its checksum behind it is not decoded. -/
theorem decodeBase64_checksum (content : ByteString) {checksum : ByteString}
    (length : checksum.length % 4 = 1) :
    decodeBase64 EVP_DecodeBlock (Base64.encode content ++ checksum) = none := by
  apply Option.eq_none_iff_forall_ne_some.mpr
  intro out decoded
  obtain ⟨n, size, groups, -⟩ := of_decodeBase64 strict decoded
  rw [List.length_append, Base64.length_encode, castToInt_eq] at size
  split at size <;> omega

/-- An encoding is decoded if its length fits into an `int`. -/
theorem decodeBase64_encode_iff {content : ByteString} (nonempty : content ≠ []) :
    decodeBase64 EVP_DecodeBlock (Base64.encode content) = some content ↔
      (Base64.encode content).length < 2 ^ 31 := by
  have some : 0 < content.length := List.length_pos_iff.mpr nonempty
  have length := Base64.length_encode content
  constructor
  · intro decoded
    obtain ⟨n, size, groups, bytes, -⟩ := of_decodeBase64 strict decoded
    rw [castToInt_eq] at size
    split at size <;> omega
  · intro fits
    have size : castToInt (Base64.encode content).length = (Base64.encode content).length := by
      rw [castToInt_eq]
      split <;> omega
    have filled : (Base64.encode content).isEmpty = false := by
      cases text : Base64.encode content with
      | nil =>
        rw [text, List.length_nil] at length
        omega
      | cons _ _ => rfl
    have padding : ((Base64.encode content).reverse.takeWhile (· == chr '=')).length =
        Base64.padding content.length := Base64.takeWhile_reverse_encode content
    have nonneg : ¬ ((Base64.encode content).length : Int) < 0 := by omega
    have bytes : (content ++ List.replicate (Base64.padding content.length) (0 : UInt8)).length =
        content.length + Base64.padding content.length := by
      rw [List.length_append, List.length_replicate]
    have few : ¬ Base64.padding content.length > content.length +
        Base64.padding content.length := by omega
    simp only [decodeBase64, filled, size, nonneg, padding, strict.decodes, bytes, few, if_false,
      Int.toNat_natCast, List.take_length, Option.map_some, Bool.false_eq_true,
      Nat.add_sub_cancel, List.take_left]

/-- Text with a character that is none of base64 in front is decoded only where its size is cast
to zero. -/
theorem decodeBase64_foreign {c : UInt8} (foreign : ¬ Base64.IsChar c) (rest : ByteString) :
    decodeBase64 EVP_DecodeBlock (c :: rest) =
      if (c :: rest).length % 2 ^ 32 = 0 then some [] else none := by
  have cast := castToInt_eq (c :: rest).length
  split
  · rename_i wraps
    have zero : castToInt (c :: rest).length = 0 := by
      rw [cast]
      split <;> omega
    have nothing : EVP_DecodeBlock [] = some [] := strict.decodes []
    unfold decodeBase64
    rw [if_neg (by simp), zero]
    simp [nothing]
  · rename_i counts
    apply Option.eq_none_iff_forall_ne_some.mpr
    intro out decoded
    obtain ⟨n, size, -, -, chars⟩ := of_decodeBase64 strict decoded
    have some : n ≠ 0 := by
      rw [cast] at size
      split at size <;> omega
    obtain ⟨k, rfl⟩ := Nat.exists_eq_succ_of_ne_zero some
    exact foreign (chars c List.mem_cons_self)

/-- **An armor is decoded** exactly if it has no checksum line, an empty line behind its headers,
and no more characters than an `int` counts; **binary data comes back** as it is unless the number
of its characters is cast to zero. -/
theorem decodeArmoredBlock_iff :
    (∀ (content : ByteString) (a : Armor content), content ≠ [] →
      (decodeArmoredBlock EVP_DecodeBlock a.text = .ok (content, true) ↔
        a.checksum = false ∧ a.blank = [] ∧ (Base64.encode content).length < 2 ^ 31)) ∧
    ∀ blob : ByteString, (∃ c ∈ blob.head?, 128 ≤ c) →
      (∀ line ∈ getlines (chr '\n') blob, beginMarker.isPrefixOf line = false) →
      (decodeArmoredBlock EVP_DecodeBlock blob = .ok (blob, false) ↔
        (blob.filter (!isspace ·)).length % 2 ^ 32 ≠ 0) := by
  constructor
  · intro content a nonempty
    have decoded (b64 : ByteString) : (match decodeBase64 EVP_DecodeBlock b64 with
        | some out => Except.ok (out, true)
        | none => .error (str "ASCII armor detected, but Base64 decode failed")) =
          Except.ok (content, true) ↔ decodeBase64 EVP_DecodeBlock b64 = some content := by
      cases decodeBase64 EVP_DecodeBlock b64 <;> simp
    rw [a.decodeArmoredBlock_text, decoded, Armor.payload]
    by_cases empty : a.blank = []
    · rw [if_pos empty, List.flatten_append, a.lines_text, Armor.checksumLines]
      cases a.checksum with
      | false => simp [decodeBase64_encode_iff strict nonempty, empty]
      | true =>
        have group : (chr '=' :: checksumText content).length % 4 = 1 := by
          simp [checksumText, Base64.length_encode]
        simp [decodeBase64_checksum strict content group]
    · rw [if_neg empty]
      simp [decodeBase64, empty]
  · intro blob binary noArmor
    obtain ⟨c, first, high⟩ := binary
    obtain ⟨rest, rfl⟩ := List.head?_eq_some_iff.mp first
    have foreign : ¬ Base64.IsChar c := by
      intro isChar
      have := (isChar_plain isChar).1
      have := UInt8.le_iff_toNat_le.mp high
      have : (128 : UInt8).toNat = 128 := rfl
      omega
    have noBlank : isspace c = false := by
      rw [Bool.eq_false_iff]
      intro blank
      simp only [isspace, Bool.or_eq_true, beq_iff_eq, Bool.and_eq_true, decide_eq_true_eq] at blank
      rcases blank with rfl | ⟨-, low⟩
      · exact absurd high (by decide)
      · exact absurd (UInt8.le_trans high low) (by decide)
    have compact : (c :: rest).filter (!isspace ·) = c :: rest.filter (!isspace ·) :=
      List.filter_cons_of_pos (by simp [noBlank])
    rw [decodeArmoredBlock, foldl_start (fun line mem => ?_), compact,
      decodeBase64_foreign strict foreign]
    · dsimp only [ArmorState.text]
      split
      · rename_i wraps
        exact iff_of_false (by simp) (not_not.mpr wraps)
      · rename_i counts
        exact iff_of_true rfl counts
    · obtain ⟨line, isLine, rfl⟩ := List.mem_map.mp mem
      exact not_begin_dropCr (noArmor line isLine)

end Strict

/-! ### An armor of one byte -/

/-- An armor on three or four lines. -/
def smallArmor (checksum : Bool) : Armor [1] where
  title := str "PGP SIGNATURE"
  headers := []
  blank := []
  lines := [Base64.encode [1]]
  checksum
  crlf _ := true
  ended := true
  title_plain := by decide
  blank_blank := nofun
  lines_nonempty := by decide
  lines_text := by decide

theorem decodeArmoredBlock_small :
    decodeArmoredBlock Base64.decodeBlock (smallArmor false).text = .ok ([1], true) ∧
      decodeArmoredBlock Base64.decodeBlock [0x99, 10] = .ok ([0x99, 10], false) := by
  have both := decodeArmoredBlock_iff strictBase64_decodeBlock
  constructor
  · apply (both.1 [1] (smallArmor false) (by decide)).mpr
    exact ⟨rfl, rfl, by decide⟩
  · apply (both.2 [0x99, 10] ⟨0x99, rfl, by decide⟩ (by decide)).mpr
    decide

/-- **The checksum line** is taken for base64 text. -/
theorem checksum_not_decoded :
    decodeArmoredBlock Base64.decodeBlock (smallArmor true).text =
      .error (str "ASCII armor detected, but Base64 decode failed") := by
  decide +kernel

end Apm.Crypto
