import Apm.Lib.BigEndian
import Apm.Lib.Loop
import Apm.Util.Bytes

/-!
OpenPGP packets (`src/util/crypto/gpg_verify.cpp`): `parsePacketHeader`, `parseMpi` and
`findRsaPublicKey` over a `size_t` of 32 or of 64 bits.

## Main results

* `readHeader_iff`: which headers are read, and as what;
* `inside_iff`: a header that is accepted has its body in the buffer unless its length wraps;
* `packets_iff`: the same for the search of a key, which ends unless it meets such a header.
-/

namespace Apm.Crypto

open Apm.Lib.BigEndian Apm.Lib.Loop

/-! ### Sizes -/

/-- The widths of `size_t` on the build targets. -/
inductive Width where
  | bits32 | bits64
deriving DecidableEq

namespace Width

def bits : Width → Nat
  | bits32 => 32
  | bits64 => 64

/-- A sum in `size_t`. -/
def add (w : Width) (a b : Nat) : Nat := (a + b) % 2 ^ w.bits

end Width

/-- A vector of bytes: its size is a `ptrdiff_t`. -/
structure Buffer (w : Width) where
  bytes : ByteString
  fits : bytes.length < 2 ^ (w.bits - 1)

/-- The vector made of a range of a buffer. A range that ends before it begins is undefined. -/
def range (buf : ByteString) (first last : Nat) : Option ByteString :=
  if first ≤ last ∧ last ≤ buf.length then some ((buf.drop first).take (last - first)) else none

section Parsers

variable (w : Width)

/-! ### Packet headers -/

/-- The tag of a packet, where its body begins, and how long it is. -/
structure PacketHeader where
  tag : UInt8
  offset : Nat
  bodyLen : Nat
deriving DecidableEq

/-- A length of some octets behind a check, and the offset behind it. -/
def readLength (buf : ByteString) (offset octets : Nat) (truncated : String) :
    Except ByteString (Nat × Nat) :=
  if w.add offset octets > buf.length then .error (str truncated)
  else .ok (ofBytes ((buf.drop offset).take octets), offset + octets)

def newFormatLength (buf : ByteString) (offset : Nat) : Except ByteString (Nat × Nat) :=
  match buf[offset]? with
  | none => .error (str "Truncated new-format packet")
  | some lenByte =>
      let offset := offset + 1
      if lenByte < 192 then .ok (lenByte.toNat, offset)
      else if lenByte < 224 then
        match buf[offset]? with
        | none => .error (str "Truncated 2-octet length")
        | some next => .ok ((lenByte.toNat - 192) * 256 + next.toNat + 192, offset + 1)
      else if lenByte == 255 then readLength w buf offset 4 "Truncated 5-octet length"
      else .error (str "Partial body lengths are unsupported")

def oldFormatLength (buf : ByteString) (lenType : UInt8) (offset : Nat) :
    Except ByteString (Nat × Nat) :=
  if lenType == 0 then
    match buf[offset]? with
    | none => .error (str "Truncated 1-octet length")
    | some len => .ok (len.toNat, offset + 1)
  else if lenType == 1 then readLength w buf offset 2 "Truncated 2-octet length"
  else if lenType == 2 then readLength w buf offset 4 "Truncated 4-octet length"
  else .error (str "Indeterminate lengths are unsupported")

/-- The part of `parsePacketHeader` before its last check. -/
def readHeader (buf : ByteString) (offset : Nat) : Except ByteString PacketHeader :=
  match buf[offset]? with
  | none => .error (str "Unexpected end of packet data")
  | some hdr =>
      if hdr &&& 0x80 == 0 then .error (str "Invalid OpenPGP packet header")
      else if hdr &&& 0x40 != 0 then
        (newFormatLength w buf (offset + 1)).map fun (bodyLen, offset) =>
          { tag := hdr &&& 0x3f, offset, bodyLen }
      else
        (oldFormatLength w buf (hdr &&& 0x03) (offset + 1)).map fun (bodyLen, offset) =>
          { tag := hdr >>> 2 &&& 0x0f, offset, bodyLen }

def parsePacketHeader (buf : ByteString) (offset : Nat) : Except ByteString PacketHeader := do
  let header ← readHeader w buf offset
  if w.add header.offset header.bodyLen > buf.length then
    throw (str "Packet length exceeds available data")
  return header

/-! ### Numbers and keys -/

/-- A number, its bits, and the offset behind it. -/
structure Mpi where
  bytes : ByteString
  bitLen : Nat
  offset : Nat

def parseMpi (buf : ByteString) (offset : Nat) : Except ByteString Mpi :=
  if w.add offset 2 > buf.length then .error (str "MPI truncated")
  else
    let bitLen := ofBytes ((buf.drop offset).take 2)
    let offset := offset + 2
    let byteLen := (bitLen + 7) / 8
    if w.add offset byteLen > buf.length then .error (str "MPI length exceeds buffer")
    else .ok { bytes := (buf.drop offset).take byteLen, bitLen, offset := offset + byteLen }

structure RsaPublicKey where
  modulus : ByteString
  modulusBits : Nat
  exponent : ByteString

def parseRsaPublicKeyPacket (body : ByteString) : Except ByteString RsaPublicKey := do
  if body.length < 6 then throw (str "Public key packet too small")
  if body[0]? != some 4 then throw (str "Only OpenPGP public key V4 is supported")
  if 5 ≥ body.length then throw (str "Public key packet truncated after timestamp")
  if body[5]? != some 1 && body[5]? != some 2 && body[5]? != some 3 then
    throw (str "Unsupported public key algorithm (RSA only)")
  let n ← parseMpi w body 6
  let e ← parseMpi w body n.offset
  if e.bytes.isEmpty then throw (str "Exponent missing from public key")
  return { modulus := n.bytes, modulusBits := n.bitLen, exponent := e.bytes }

/-- A turn of the loop of `findRsaPublicKey`: the next offset, or what is returned, if anything
is. -/
def findTurn (blob : ByteString) (off : Nat) : Nat ⊕ Option (Except ByteString RsaPublicKey) :=
  if off < blob.length then
    match parsePacketHeader w blob off with
    | .error message => .inr (some (.error message))
    | .ok header =>
        let next := w.add header.offset header.bodyLen
        match range blob header.offset next with
        | none => .inr none
        | some body =>
            if header.tag == 6 then .inr (some (parseRsaPublicKeyPacket w body)) else .inl next
  else .inr (some (.error (str "No RSA public key packet found")))

/-- `findRsaPublicKey` ends with this. -/
def Finds (blob : ByteString) (result : Except ByteString RsaPublicKey) : Prop :=
  ∃ fuel, iterate (findTurn w blob) fuel 0 = some (some result)

end Parsers

/-! ### The formats of a length -/

/-- How a header writes the length of its packet. -/
inductive LengthForm where
  | newOne | newTwo | newFive | oldOne | oldTwo | oldFour
deriving DecidableEq

namespace LengthForm

/-- The tags that the first octet has room for. -/
def tags : LengthForm → UInt8
  | newOne | newTwo | newFive => 64
  | oldOne | oldTwo | oldFour => 16

def firstOctet (form : LengthForm) (tag : UInt8) : UInt8 :=
  match form with
  | newOne | newTwo | newFive => (0xc0 : UInt8) ||| tag
  | oldOne => (0x80 : UInt8) ||| tag <<< 2
  | oldTwo => (0x80 : UInt8) ||| tag <<< 2 ||| 1
  | oldFour => (0x80 : UInt8) ||| tag <<< 2 ||| 2

def octets : LengthForm → Nat
  | newOne | oldOne => 1
  | newTwo | oldTwo => 2
  | oldFour => 4
  | newFive => 5

/-- The lengths that a format can write. -/
def Represents : LengthForm → Nat → Prop
  | newOne, n => n < 192
  | newTwo, n => 192 ≤ n ∧ n < 8384
  | oldOne, n => n < 256
  | oldTwo, n => n < 256 ^ 2
  | newFive, n | oldFour, n => n < 256 ^ 4

def lengthOctets : LengthForm → Nat → ByteString
  | newOne, n | oldOne, n => toBytes 1 n
  | newTwo, n => UInt8.ofNat (192 + (n - 192) / 256) :: toBytes 1 (n - 192)
  | oldTwo, n => toBytes 2 n
  | oldFour, n => toBytes 4 n
  | newFive, n => 255 :: toBytes 4 n

/-- The header of a packet. -/
def header (form : LengthForm) (tag : UInt8) (n : Nat) : ByteString :=
  form.firstOctet tag :: form.lengthOctets n

theorem lengthOctets_length (form : LengthForm) (n : Nat) :
    (form.lengthOctets n).length = form.octets := by
  cases form <;> rfl

theorem lt_of_represents {form : LengthForm} {n : Nat} (h : form.Represents n) : n < 2 ^ 32 := by
  cases form <;> simp only [Represents] at h <;> omega

end LengthForm

/-- At the offset stands the header of a packet with this tag and length. -/
structure HeaderAt (buf : ByteString) (off : Nat) (form : LengthForm) (tag : UInt8) (n : Nat) :
    Prop where
  room : tag < form.tags
  length : form.Represents n
  here : form.header tag n <+: buf.drop off

section Reading

variable {w : Width} {buf : ByteString} {off : Nat}

theorem Width.add_eq {a b : Nat} (h : a + b < 2 ^ w.bits) : w.add a b = a + b := Nat.mod_eq_of_lt h

/-- Sums with an offset into a buffer do not wrap as long as what is added is small. -/
theorem add_small (fits : buf.length < 2 ^ (w.bits - 1)) (inside : off ≤ buf.length) {k : Nat}
    (small : k < 2 ^ 31) : w.add off k = off + k := by
  apply Width.add_eq
  cases w <;> simp only [Width.bits] at fits ⊢ <;> omega

theorem cons_prefix_drop {c : UInt8} {t : ByteString} :
    c :: t <+: buf.drop off ↔ buf[off]? = some c ∧ t <+: buf.drop (off + 1) := by
  rw [← List.head?_drop, ← List.tail_drop]
  cases buf.drop off with
  | nil => simp
  | cons d rest =>
    rw [List.cons_prefix_cons, List.head?_cons, List.tail_cons, Option.some_inj, eq_comm]

theorem inside_of_get {c : UInt8} (h : buf[off]? = some c) : off < buf.length := by
  by_contra out
  rw [List.getElem?_eq_none (Nat.le_of_not_lt out)] at h
  cases h

theorem readLength_iff (fits : buf.length < 2 ^ (w.bits - 1)) (inside : off ≤ buf.length) {k : Nat}
    (small : k ≤ 4) {truncated : String} {n o : Nat} :
    readLength w buf off k truncated = .ok (n, o) ↔
      n < 256 ^ k ∧ toBytes k n <+: buf.drop off ∧ o = off + k := by
  unfold readLength
  rw [add_small fits inside (Nat.lt_of_le_of_lt small (by decide))]
  have room : (buf.drop off).length = buf.length - off := List.length_drop
  by_cases cut : off + k > buf.length
  · rw [if_pos cut]
    refine ⟨fun h => (nomatch h), fun ⟨_, here, _⟩ => ?_⟩
    have := here.length_le
    rw [toBytes_length, room] at this
    omega
  · rw [if_neg cut, Except.ok.injEq, Prod.mk.injEq]
    have long : ((buf.drop off).take k).length = k := by
      rw [List.length_take, room]
      omega
    constructor
    · rintro ⟨rfl, rfl⟩
      refine ⟨?_, ?_, rfl⟩
      · have := ofBytes_lt ((buf.drop off).take k)
        rwa [long] at this
      · have back := toBytes_ofBytes ((buf.drop off).take k)
        rw [long] at back
        rw [back]
        exact List.take_prefix _ _
    · rintro ⟨bound, here, rfl⟩
      rw [List.prefix_iff_eq_take, toBytes_length] at here
      rw [← here, ofBytes_toBytes bound]
      exact ⟨rfl, rfl⟩

theorem ofNat_eq_iff {n : Nat} {b : UInt8} (small : n < 256) :
    UInt8.ofNat n = b ↔ n = b.toNat := by
  rw [← UInt8.toNat_inj, UInt8.toNat_ofNat', Nat.mod_eq_of_lt small]

theorem toBytes_one (n : Nat) : toBytes 1 n = [UInt8.ofNat n] := by
  rw [toBytes, toBytes, Nat.pow_zero, Nat.div_one]

theorem newFormatLength_of (fits : buf.length < 2 ^ (w.bits - 1)) {form : LengthForm} {n : Nat}
    (new : form.tags = 64) (length : form.Represents n)
    (here : form.lengthOctets n <+: buf.drop off) :
    newFormatLength w buf off = .ok (n, off + form.octets) := by
  cases form with
  | newOne =>
    rw [LengthForm.lengthOctets, toBytes_one, cons_prefix_drop] at here
    have length : n < 192 := length
    have value : (UInt8.ofNat n).toNat = n := by
      rw [UInt8.toNat_ofNat']
      omega
    unfold newFormatLength
    rw [here.1]
    dsimp only
    rw [if_pos (by rw [UInt8.lt_iff_toNat_lt, value]; exact length), value]
    rfl
  | newTwo =>
    rw [LengthForm.lengthOctets, toBytes_one, cons_prefix_drop, cons_prefix_drop] at here
    obtain ⟨low, high⟩ : 192 ≤ n ∧ n < 8384 := length
    have first : (UInt8.ofNat (192 + (n - 192) / 256)).toNat = 192 + (n - 192) / 256 := by
      rw [UInt8.toNat_ofNat']
      omega
    unfold newFormatLength
    rw [here.1]
    dsimp only
    rw [if_neg, if_pos, here.2.1]
    · dsimp only
      rw [first, UInt8.toNat_ofNat', Except.ok.injEq, Prod.mk.injEq]
      exact ⟨by omega, rfl⟩
    · rw [UInt8.lt_iff_toNat_lt, first]
      have : (224 : UInt8).toNat = 224 := rfl
      omega
    · rw [UInt8.lt_iff_toNat_lt, first]
      have : (192 : UInt8).toNat = 192 := rfl
      omega
  | newFive =>
    rw [LengthForm.lengthOctets, cons_prefix_drop] at here
    have inside := inside_of_get here.1
    unfold newFormatLength
    rw [here.1]
    dsimp only
    rw [if_neg (by decide), if_neg (by decide), if_pos (by decide)]
    exact (readLength_iff fits inside (Nat.le_refl 4)).mpr ⟨length, here.2, rfl⟩
  | oldOne | oldTwo | oldFour => exact absurd new (by decide)

theorem newFormatLength_ok (fits : buf.length < 2 ^ (w.bits - 1)) {n o : Nat}
    (h : newFormatLength w buf off = .ok (n, o)) :
    ∃ form : LengthForm, form.tags = 64 ∧ form.Represents n ∧
      form.lengthOctets n <+: buf.drop off ∧ o = off + form.octets := by
  unfold newFormatLength at h
  split at h
  · cases h
  · rename_i lenByte first
    have inside := inside_of_get first
    split at h
    · rename_i one
      cases h
      refine ⟨.newOne, rfl, UInt8.lt_iff_toNat_lt.mp one, ?_, rfl⟩
      rw [LengthForm.lengthOctets, toBytes_one, UInt8.ofNat_toNat, cons_prefix_drop]
      exact ⟨first, List.nil_prefix⟩
    · rename_i notOne
      split at h
      · rename_i two
        dsimp only at h
        split at h
        · cases h
        · rename_i next second
          cases h
          rw [UInt8.lt_iff_toNat_lt] at notOne two
          have low : 192 ≤ lenByte.toNat := Nat.le_of_not_lt notOne
          have high : lenByte.toNat < 224 := two
          have small := next.toNat_lt
          refine ⟨.newTwo, rfl, ⟨by omega, by omega⟩, ?_, rfl⟩
          have octet :
              UInt8.ofNat (192 + ((lenByte.toNat - 192) * 256 + next.toNat + 192 - 192) / 256) =
                lenByte := (ofNat_eq_iff (by omega)).mpr (by omega)
          have octet' :
              UInt8.ofNat ((lenByte.toNat - 192) * 256 + next.toNat + 192 - 192) = next := by
            rw [← UInt8.toNat_inj, UInt8.toNat_ofNat']
            omega
          rw [LengthForm.lengthOctets, toBytes_one, octet, octet', cons_prefix_drop,
            cons_prefix_drop]
          exact ⟨first, second, List.nil_prefix⟩
      · split at h
        · rename_i five
          obtain ⟨length, here, rfl⟩ := (readLength_iff fits inside (Nat.le_refl 4)).mp h
          refine ⟨.newFive, rfl, length, ?_, rfl⟩
          rw [LengthForm.lengthOctets, cons_prefix_drop]
          exact ⟨eq_of_beq five ▸ first, here⟩
        · cases h

/-- The bits of the length type in the first octet. -/
def LengthForm.lenType : LengthForm → UInt8
  | .oldTwo => 1
  | .oldFour => 2
  | _ => 0

theorem oldFormatLength_of (fits : buf.length < 2 ^ (w.bits - 1)) (inside : off ≤ buf.length)
    {form : LengthForm} {n : Nat} (old : form.tags = 16) (length : form.Represents n)
    (here : form.lengthOctets n <+: buf.drop off) :
    oldFormatLength w buf form.lenType off = .ok (n, off + form.octets) := by
  cases form with
  | oldOne =>
    rw [LengthForm.lengthOctets, toBytes_one, cons_prefix_drop] at here
    unfold oldFormatLength
    rw [if_pos (by decide), here.1]
    dsimp only
    rw [UInt8.toNat_ofNat', Nat.mod_eq_of_lt length]
    rfl
  | oldTwo =>
    unfold oldFormatLength
    rw [if_neg (by decide), if_pos (by decide)]
    exact (readLength_iff fits inside (by decide)).mpr ⟨length, here, rfl⟩
  | oldFour =>
    unfold oldFormatLength
    rw [if_neg (by decide), if_neg (by decide), if_pos (by decide)]
    exact (readLength_iff fits inside (by decide)).mpr ⟨length, here, rfl⟩
  | newOne | newTwo | newFive => exact absurd old (by decide)

theorem oldFormatLength_ok (fits : buf.length < 2 ^ (w.bits - 1)) (inside : off ≤ buf.length)
    {lenType : UInt8} {n o : Nat} (h : oldFormatLength w buf lenType off = .ok (n, o)) :
    ∃ form : LengthForm, form.tags = 16 ∧ form.lenType = lenType ∧ form.Represents n ∧
      form.lengthOctets n <+: buf.drop off ∧ o = off + form.octets := by
  unfold oldFormatLength at h
  split at h
  · rename_i zero
    split at h
    · cases h
    · rename_i len first
      cases h
      refine ⟨.oldOne, rfl, (eq_of_beq zero).symm, len.toNat_lt, ?_, rfl⟩
      rw [LengthForm.lengthOctets, toBytes_one, UInt8.ofNat_toNat, cons_prefix_drop]
      exact ⟨first, List.nil_prefix⟩
  · split at h
    · rename_i one
      obtain ⟨length, here, rfl⟩ := (readLength_iff fits inside (by decide)).mp h
      exact ⟨.oldTwo, rfl, (eq_of_beq one).symm, length, here, rfl⟩
    · split at h
      · rename_i two
        obtain ⟨length, here, rfl⟩ := (readLength_iff fits inside (by decide)).mp h
        exact ⟨.oldFour, rfl, (eq_of_beq two).symm, length, here, rfl⟩
      · cases h

theorem forall_octet {P : UInt8 → Prop} (h : ∀ n < 256, P (UInt8.ofNat n)) (b : UInt8) : P b := by
  have all := h b.toNat b.toNat_lt
  rwa [UInt8.ofNat_toNat] at all

theorem firstOctet_new {form : LengthForm} (new : form.tags = 64) (tag : UInt8) :
    form.firstOctet tag = 0xc0 ||| tag := by
  cases form with
  | newOne | newTwo | newFive => rfl
  | oldOne | oldTwo | oldFour => exact absurd new (by decide)

/-- The bits that a new header has in its first octet. -/
theorem newOctet : ∀ tag : UInt8, tag < 64 →
    (0xc0 ||| tag) &&& 0x80 ≠ 0 ∧ (0xc0 ||| tag) &&& 0x40 ≠ 0 ∧ (0xc0 ||| tag) &&& 0x3f = tag :=
  forall_octet (by decide +kernel)

theorem newOctet_of_bits : ∀ hdr : UInt8, hdr &&& 0x80 ≠ 0 → hdr &&& 0x40 ≠ 0 →
    hdr &&& 0x3f < 64 ∧ 0xc0 ||| (hdr &&& 0x3f) = hdr :=
  forall_octet (by decide +kernel)

/-- The bits that an old header has in its first octet. -/
theorem oldOctet : ∀ tag : UInt8, tag < 16 → ∀ form : LengthForm, form.tags = 16 →
    form.firstOctet tag &&& 0x80 ≠ 0 ∧ form.firstOctet tag &&& 0x40 = 0 ∧
      form.firstOctet tag >>> 2 &&& 0x0f = tag ∧ form.firstOctet tag &&& 0x03 = form.lenType := by
  refine forall_octet fun n bound small form old => ?_
  revert n
  cases form with
  | oldOne | oldTwo | oldFour => decide +kernel
  | newOne | newTwo | newFive => exact absurd old (by decide)

theorem oldOctet_of_bits : ∀ hdr : UInt8, hdr &&& 0x80 ≠ 0 → ¬ hdr &&& 0x40 ≠ 0 →
    hdr >>> 2 &&& 0x0f < 16 ∧ ∀ form : LengthForm, form.tags = 16 →
      form.lenType = hdr &&& 0x03 → form.firstOctet (hdr >>> 2 &&& 0x0f) = hdr := by
  refine forall_octet fun n bound top old => ⟨?_, fun form => ?_⟩
  · revert n
    decide +kernel
  · revert n
    cases form <;> decide +kernel

/-- **The headers that are read.** -/
theorem readHeader_iff (fits : buf.length < 2 ^ (w.bits - 1)) {header : PacketHeader} :
    readHeader w buf off = .ok header ↔
      ∃ form : LengthForm, HeaderAt buf off form header.tag header.bodyLen ∧
        header.offset = off + 1 + form.octets := by
  constructor
  · intro h
    unfold readHeader at h
    split at h
    · cases h
    · rename_i hdr first
      have inside := inside_of_get first
      split at h
      · cases h
      · rename_i top
        have top : hdr &&& 0x80 ≠ 0 := by simpa using top
        split at h
        · rename_i new
          have new : hdr &&& 0x40 ≠ 0 := by simpa using new
          cases length : newFormatLength w buf (off + 1) with
          | error message => simp [length, Except.map] at h
          | ok found =>
            rw [length] at h
            cases h
            obtain ⟨form, tags, represents, here, next⟩ := newFormatLength_ok fits length
            obtain ⟨small, octet⟩ := newOctet_of_bits hdr top new
            refine ⟨form, ⟨tags ▸ small, represents, cons_prefix_drop.mpr ⟨?_, here⟩⟩, next⟩
            rw [firstOctet_new tags, octet, first]
        · rename_i old
          have old : ¬ hdr &&& 0x40 ≠ 0 := by simpa using old
          cases length : oldFormatLength w buf (hdr &&& 0x03) (off + 1) with
          | error message => simp [length, Except.map] at h
          | ok found =>
            rw [length] at h
            cases h
            obtain ⟨form, tags, type, represents, here, next⟩ :=
              oldFormatLength_ok fits inside length
            obtain ⟨small, octet⟩ := oldOctet_of_bits hdr top old
            refine ⟨form, ⟨tags ▸ small, represents, cons_prefix_drop.mpr ⟨?_, here⟩⟩, next⟩
            rw [octet form tags type, first]
  · rintro ⟨form, ⟨room, represents, here⟩, next⟩
    obtain ⟨tag, offset, bodyLen⟩ := header
    subst next
    obtain ⟨first, here⟩ := cons_prefix_drop.mp here
    have inside := inside_of_get first
    unfold readHeader
    rw [first]
    dsimp only
    by_cases new : form.tags = 64
    · obtain ⟨top, bit, low⟩ := newOctet tag (new ▸ room)
      rw [firstOctet_new new, if_neg (by simpa using top), if_pos (by simpa using bit),
        newFormatLength_of fits new represents here, low]
      rfl
    · have old : form.tags = 16 := by
        cases form <;> first | rfl | exact absurd rfl new
      obtain ⟨top, bit, tagBits, type⟩ := oldOctet tag (old ▸ room) form old
      rw [if_neg (by simpa using top), if_neg (by simpa using bit), tagBits, type,
        oldFormatLength_of fits inside old represents here]
      rfl

end Reading

/-! ### Bodies that are in the buffer -/

/-- At the offset stands a header whose length is so great that the end of the body wraps into the
buffer. -/
def Wraps (w : Width) (buf : ByteString) (off : Nat) : Prop :=
  ∃ form tag n, HeaderAt buf off form tag n ∧ 2 ^ w.bits ≤ off + 1 + form.octets + n ∧
    off + 1 + form.octets + n ≤ 2 ^ w.bits + buf.length

section Inside

variable {w : Width} {buf : ByteString} {off : Nat}

theorem HeaderAt.room_le {form : LengthForm} {tag : UInt8} {n : Nat}
    (h : HeaderAt buf off form tag n) : off + 1 + form.octets ≤ buf.length := by
  have long := h.here.length_le
  rw [LengthForm.header, List.length_cons, form.lengthOctets_length, List.length_drop] at long
  omega

theorem parsePacketHeader_iff {header : PacketHeader} :
    parsePacketHeader w buf off = .ok header ↔
      readHeader w buf off = .ok header ∧ w.add header.offset header.bodyLen ≤ buf.length := by
  unfold parsePacketHeader
  cases readHeader w buf off with
  | error message => simp [bind, Except.bind]
  | ok found =>
    simp only [bind, Except.bind, Except.ok.injEq]
    by_cases cut : w.add found.offset found.bodyLen > buf.length
    · rw [if_pos cut]
      refine ⟨fun h => (nomatch h), ?_⟩
      rintro ⟨rfl, fits⟩
      omega
    · rw [if_neg cut]
      constructor
      · rintro ⟨⟩
        exact ⟨rfl, by omega⟩
      · rintro ⟨rfl, -⟩
        rfl

/-- Where a sum in `size_t` is in the buffer, it did not wrap or it wrapped into the buffer. -/
theorem add_le_iff (fits : buf.length < 2 ^ (w.bits - 1)) {o n : Nat} (inside : o ≤ buf.length)
    (bound : n < 2 ^ 32) :
    w.add o n ≤ buf.length ↔
      o + n ≤ buf.length ∨ 2 ^ w.bits ≤ o + n ∧ o + n ≤ 2 ^ w.bits + buf.length := by
  cases w <;> simp only [Width.add, Width.bits] at fits ⊢ <;> omega

/-- **A header that is accepted has its body in the buffer**, unless its length wraps. -/
theorem inside_iff (fits : buf.length < 2 ^ (w.bits - 1)) :
    (∀ header, parsePacketHeader w buf off = .ok header →
      header.offset + header.bodyLen ≤ buf.length) ↔ ¬ Wraps w buf off := by
  constructor
  · rintro all ⟨form, tag, n, here, low, high⟩
    have read : readHeader w buf off = .ok ⟨tag, off + 1 + form.octets, n⟩ :=
      (readHeader_iff fits).mpr ⟨form, here, rfl⟩
    have inside := all _ (parsePacketHeader_iff.mpr ⟨read,
      (add_le_iff fits here.room_le (LengthForm.lt_of_represents here.length)).mpr
        (.inr ⟨low, high⟩)⟩)
    have size : buf.length < 2 ^ w.bits :=
      Nat.lt_of_lt_of_le fits (Nat.pow_le_pow_right (by decide) (Nat.sub_le _ _))
    dsimp only at inside
    omega
  · intro noWrap header accepted
    obtain ⟨read, sum⟩ := parsePacketHeader_iff.mp accepted
    obtain ⟨form, here, next⟩ := (readHeader_iff fits).mp read
    have room := next ▸ here.room_le
    rcases (add_le_iff fits room (LengthForm.lt_of_represents here.length)).mp sum with
      inside | ⟨low, high⟩
    · exact inside
    · exact absurd ⟨form, _, _, here, next ▸ low, next ▸ high⟩ noWrap

/-- No length wraps in 64 bits. -/
theorem not_wraps_bits64 (fits : buf.length < 2 ^ (Width.bits64.bits - 1)) :
    ¬ Wraps .bits64 buf off := by
  rintro ⟨form, tag, n, here, low, -⟩
  have room := here.room_le
  have bound := LengthForm.lt_of_represents here.length
  simp only [Width.bits] at fits low
  omega

/-- The length of a packet is the one that its header writes. -/
theorem bodyLen_eq (fits : buf.length < 2 ^ (w.bits - 1)) {form : LengthForm} {tag : UInt8}
    {n : Nat} (here : HeaderAt buf off form tag n) {header : PacketHeader}
    (accepted : parsePacketHeader w buf off = .ok header) :
    header = ⟨tag, off + 1 + form.octets, n⟩ := by
  have read := (parsePacketHeader_iff.mp accepted).1
  have written : readHeader w buf off = .ok ⟨tag, off + 1 + form.octets, n⟩ :=
    (readHeader_iff fits).mpr ⟨form, here, rfl⟩
  exact Except.ok.inj (read.symm.trans written)

theorem parsePacketHeader_of_inside (fits : buf.length < 2 ^ (w.bits - 1)) {form : LengthForm}
    {tag : UInt8} {n : Nat} (here : HeaderAt buf off form tag n)
    (inside : off + 1 + form.octets + n ≤ buf.length) :
    parsePacketHeader w buf off = .ok ⟨tag, off + 1 + form.octets, n⟩ :=
  parsePacketHeader_iff.mpr ⟨(readHeader_iff fits).mpr ⟨form, here, rfl⟩,
    (add_le_iff fits here.room_le (LengthForm.lt_of_represents here.length)).mpr (.inl inside)⟩

end Inside

/-! ### The search of a key -/

/-- The offsets at which the search looks for a header. -/
inductive Reached (buf : ByteString) : Nat → Prop where
  | start : Reached buf 0
  | next {off : Nat} {form : LengthForm} {tag : UInt8} {n : Nat} : Reached buf off →
      HeaderAt buf off form tag n → tag ≠ 6 → off + 1 + form.octets + n ≤ buf.length →
      Reached buf (off + 1 + form.octets + n)

section Search

variable {w : Width} {buf : ByteString} {off : Nat}

theorem findTurn_next (fits : buf.length < 2 ^ (w.bits - 1)) {form : LengthForm} {tag : UInt8}
    {n : Nat} (here : HeaderAt buf off form tag n)
    (inside : off + 1 + form.octets + n ≤ buf.length) :
    findTurn w buf off =
      if tag == 6 then
        .inr (some (parseRsaPublicKeyPacket w ((buf.drop (off + 1 + form.octets)).take n)))
      else .inl (off + 1 + form.octets + n) := by
  have sum : w.add (off + 1 + form.octets) n = off + 1 + form.octets + n := by
    apply Width.add_eq
    exact Nat.lt_of_le_of_lt inside
      (Nat.lt_of_lt_of_le fits (Nat.pow_le_pow_right (by decide) (Nat.sub_le _ _)))
  have body : range buf (off + 1 + form.octets) (off + 1 + form.octets + n) =
      some ((buf.drop (off + 1 + form.octets)).take n) := by
    rw [range, if_pos ⟨Nat.le_add_right _ _, inside⟩, Nat.add_sub_cancel_left]
  unfold findTurn
  rw [if_pos (by omega), parsePacketHeader_of_inside fits here inside]
  dsimp only
  rw [sum, body]

/-- A turn that meets no length that wraps returns, or goes on behind the packet. -/
theorem findTurn_cases (fits : buf.length < 2 ^ (w.bits - 1)) (noWrap : ¬ Wraps w buf off) :
    (∃ result, findTurn w buf off = .inr (some result)) ∨
      ∃ form tag n, HeaderAt buf off form tag n ∧ tag ≠ 6 ∧
        off + 1 + form.octets + n ≤ buf.length ∧
        findTurn w buf off = .inl (off + 1 + form.octets + n) := by
  by_cases out : off < buf.length
  · cases parsed : parsePacketHeader w buf off with
    | error message =>
      left
      refine ⟨.error message, ?_⟩
      rw [findTurn, if_pos out, parsed]
    | ok header =>
      have inside := (inside_iff fits).mpr noWrap header parsed
      obtain ⟨form, here, next⟩ := (readHeader_iff fits).mp (parsePacketHeader_iff.mp parsed).1
      rw [next] at inside
      have turn := findTurn_next fits here inside
      by_cases key : header.tag = 6
      · left
        exact ⟨_, turn.trans (if_pos (by simpa using key))⟩
      · right
        exact ⟨form, _, _, here, key, inside, turn.trans (if_neg (by simpa using key))⟩
  · left
    exact ⟨_, if_neg out⟩

/-- A turn that meets a length that wraps has no defined end. -/
theorem findTurn_wraps (fits : buf.length < 2 ^ (w.bits - 1)) (wraps : Wraps w buf off) :
    findTurn w buf off = .inr none := by
  obtain ⟨form, tag, n, here, low, high⟩ := wraps
  have room := here.room_le
  have bound := LengthForm.lt_of_represents here.length
  have parsed : parsePacketHeader w buf off = .ok ⟨tag, off + 1 + form.octets, n⟩ :=
    parsePacketHeader_iff.mpr ⟨(readHeader_iff fits).mpr ⟨form, here, rfl⟩,
      (add_le_iff fits room bound).mpr (.inr ⟨low, high⟩)⟩
  have back : w.add (off + 1 + form.octets) n < off + 1 + form.octets := by
    cases w <;> simp only [Width.add, Width.bits] at fits low ⊢ <;> omega
  have undefined : range buf (off + 1 + form.octets) (w.add (off + 1 + form.octets) n) = none :=
    if_neg fun h => absurd h.1 (Nat.not_le_of_lt back)
  unfold findTurn
  rw [if_pos (by omega), parsed]
  dsimp only
  rw [undefined]

theorem search_ends (fits : buf.length < 2 ^ (w.bits - 1))
    (noWrap : ∀ off, Reached buf off → ¬ Wraps w buf off) (reached : Reached buf off) :
    ∃ result fuel, iterate (findTurn w buf) fuel off = some (some result) := by
  induction rest : buf.length - off using Nat.strongRecOn generalizing off with
  | ind rest' ih =>
    rcases findTurn_cases fits (noWrap off reached) with ⟨result, turn⟩ |
      ⟨form, tag, n, here, other, inside, turn⟩
    · refine ⟨result, 1, ?_⟩
      rw [iterate, turn]
    · have reached' := reached.next here other inside
      obtain ⟨result, fuel, ends⟩ := ih _ (by omega) reached' rfl
      refine ⟨result, fuel + 1, ?_⟩
      rw [iterate, turn]
      exact ends

/-- The search does not get past an offset from which it has no defined end. -/
theorem search_stuck (fits : buf.length < 2 ^ (w.bits - 1)) (reached : Reached buf off)
    (stuck : ∀ fuel result, iterate (findTurn w buf) fuel off ≠ some (some result)) :
    ∀ fuel result, iterate (findTurn w buf) fuel 0 ≠ some (some result) := by
  induction reached with
  | start => exact stuck
  | @next off form tag n reached here other inside ih =>
    refine ih fun fuel result => ?_
    cases fuel with
    | zero => exact nofun
    | succ fuel =>
      rw [iterate, findTurn_next fits here inside, if_neg (by simpa using other)]
      exact stuck fuel result

theorem finds_iff (fits : buf.length < 2 ^ (w.bits - 1)) :
    (∃ result, Finds w buf result) ↔ ∀ off, Reached buf off → ¬ Wraps w buf off := by
  constructor
  · rintro ⟨result, fuel, ends⟩ off reached wraps
    refine search_stuck fits reached (fun fuel result => ?_) fuel result ends
    cases fuel with
    | zero => exact fun found => by cases found
    | succ fuel =>
      rw [iterate, findTurn_wraps fits wraps]
      exact fun found => by cases found
  · exact fun noWrap => search_ends fits noWrap .start

end Search

/-- **Packets and the search of a key.** A header that is accepted has its body in the buffer unless
its length wraps; the search ends unless it meets such a header; and a length that is written in
one of the formats is the one that is read. -/
theorem packets_iff (w : Width) (buf : Buffer w) :
    (∀ off, (∀ header, parsePacketHeader w buf.bytes off = .ok header →
        header.offset + header.bodyLen ≤ buf.bytes.length) ↔ ¬ Wraps w buf.bytes off) ∧
      ((∃ result, Finds w buf.bytes result) ↔
        ∀ off, Reached buf.bytes off → ¬ Wraps w buf.bytes off) ∧
      ∀ (form : LengthForm) (tag : UInt8) (n : Nat) (before rest : ByteString),
        tag < form.tags → form.Represents n →
        buf.bytes = before ++ form.header tag n ++ rest →
        (∀ header, parsePacketHeader w buf.bytes before.length = .ok header →
          header.bodyLen = n) ∧
        (n ≤ rest.length → parsePacketHeader w buf.bytes before.length =
          .ok ⟨tag, before.length + 1 + form.octets, n⟩) := by
  refine ⟨fun off => inside_iff buf.fits, finds_iff buf.fits, ?_⟩
  intro form tag n before rest room represents text
  have here : HeaderAt buf.bytes before.length form tag n := by
    refine ⟨room, represents, ?_⟩
    rw [text, List.append_assoc, List.drop_left]
    exact List.prefix_append _ _
  refine ⟨fun header accepted => congrArg (·.bodyLen) (bodyLen_eq buf.fits here accepted),
    fun body => parsePacketHeader_of_inside buf.fits here ?_⟩
  rw [text, List.length_append, List.length_append, LengthForm.header, List.length_cons,
    form.lengthOctets_length]
  omega

/-- A length of `2 ^ 32 - 6` behind a header of six octets. -/
def wrappingBlob : Buffer .bits32 := ⟨[0xc6, 0xff, 0xff, 0xff, 0xff, 0xfa], by decide⟩

/-- In 32 bits the body of this packet ends where the buffer begins. -/
theorem packets_wrap :
    (∃ header, parsePacketHeader .bits32 wrappingBlob.bytes 0 = .ok header ∧
      wrappingBlob.bytes.length < header.offset + header.bodyLen) ∧
    ∀ result, ¬ Finds .bits32 wrappingBlob.bytes result := by
  have here : HeaderAt wrappingBlob.bytes 0 .newFive 6 (2 ^ 32 - 6) :=
    ⟨by decide, by simp [LengthForm.Represents], by decide +kernel⟩
  have wraps : Wraps .bits32 wrappingBlob.bytes 0 := ⟨.newFive, 6, _, here, by decide, by decide⟩
  constructor
  · by_contra inside
    refine (inside_iff wrappingBlob.fits).mp (fun header accepted => ?_) wraps
    by_contra out
    exact inside ⟨header, accepted, Nat.lt_of_not_le out⟩
  · rintro result ⟨fuel, ends⟩
    cases fuel with
    | zero => cases ends
    | succ fuel =>
      rw [iterate, findTurn_wraps wrappingBlob.fits wraps] at ends
      cases ends

end Apm.Crypto
