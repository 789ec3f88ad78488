import Mathlib.Algebra.Group.Nat.Defs
import Mathlib.Data.List.DropRight
import Mathlib.Data.List.Infix

/-!
Byte strings.

The source's `std::string` is a sequence of arbitrary bytes, so it is modelled as
a list of `UInt8`, never as Unicode text. `str` writes an ASCII literal of the
source. The classifiers are the C locale's.
-/

namespace Apm

abbrev ByteString := List UInt8

instance : LawfulBEq ByteString := inferInstance

-- What is said of the bytes of a string is decided along the string, not for each byte value.
instance (priority := 2000) (P : UInt8 → Prop) [DecidablePred P] (s : ByteString) :
    Decidable (∀ c ∈ s, P c) := List.decidableBAll P s

instance (priority := 2000) (P : UInt8 → Prop) [DecidablePred P] (s : ByteString) :
    Decidable (∃ c ∈ s, P c) := List.decidableBEx P s

instance (priority := 2000) decidableForallSome (P : UInt8 → Prop) [DecidablePred P]
    (c? : Option UInt8) : Decidable (∀ c ∈ c?, P c) := Option.decidableForallMem c?

/-- An ASCII literal of the source. -/
def str (s : String) : ByteString := s.toList.map fun c => UInt8.ofNat c.toNat

/-- A character literal of the source. -/
def chr (c : Char) : UInt8 := UInt8.ofNat c.toNat

/-- `std::isspace` in the C locale: blank, `\t`, `\n`, `\v`, `\f`, `\r`. -/
def isspace (c : UInt8) : Bool := c == 32 || (9 ≤ c && c ≤ 13)

/-- `std::isdigit`. -/
def isdigit (c : UInt8) : Bool := 48 ≤ c && c ≤ 57

/-- `std::isxdigit`. -/
def isxdigit (c : UInt8) : Bool := isdigit c || (97 ≤ c && c ≤ 102) || (65 ≤ c && c ≤ 70)

/-- `std::islower` in the C locale. -/
def islower (c : UInt8) : Bool := 97 ≤ c && c ≤ 122

/-- `std::tolower` in the C locale. -/
def tolower (c : UInt8) : UInt8 := if 65 ≤ c && c ≤ 90 then c + 32 else c

/-- `std::toupper` in the C locale. -/
def toupper (c : UInt8) : UInt8 := if 97 ≤ c && c ≤ 122 then c - 32 else c

/-- The digit characters of `%x`. -/
def hexDigit (n : Nat) : UInt8 := UInt8.ofNat (if n < 10 then 48 + n else 87 + n)

/-- A number in decimal. -/
def decimal (n : Nat) : ByteString := (Nat.toDigits 10 n).map fun c => UInt8.ofNat c.toNat

theorem isdigit_of_mem_decimal {n : Nat} {b : UInt8} (h : b ∈ decimal n) : isdigit b := by
  obtain ⟨c, mem, rfl⟩ := List.mem_map.mp h
  have digit := Char.isDigit_iff_toNat.mp (Nat.isDigit_of_mem_toDigits (by decide) (by decide) mem)
  have zero : '0'.toNat = 48 := rfl
  have nine : '9'.toNat = 57 := rfl
  rw [zero, nine] at digit
  simp only [isdigit, Bool.and_eq_true, decide_eq_true_eq, UInt8.le_iff_toNat_le,
    UInt8.toNat_ofNat']
  have small : c.toNat % 256 = c.toNat := Nat.mod_eq_of_lt (by omega)
  rw [small]
  exact digit

/-! ### Lines and fields -/

def trim (s : ByteString) : ByteString := (s.dropWhile isspace).rdropWhile isspace

/-- What repeated `std::getline` reads: there is no piece behind a final delimiter. -/
def getlines (delim : UInt8) (s : ByteString) : List ByteString :=
  let pieces := s.splitOn delim
  if pieces.getLast? = some [] then pieces.dropLast else pieces

/-- A line without its carriage return. -/
def dropCr (line : ByteString) : ByteString :=
  if line.getLast? = some (chr '\r') then line.dropLast else line

/-- The nonempty trimmed pieces. -/
def splitAndTrim (input : ByteString) (delim : UInt8) : List ByteString :=
  ((getlines delim input).map trim).filter (!·.isEmpty)

/-- Does the needle occur in the text? -/
def contains (text needle : ByteString) : Bool := text.tails.any (needle.isPrefixOf ·)

theorem contains_of_infix {text needle : ByteString} (h : needle <:+: text) :
    contains text needle = true := by
  obtain ⟨before, after, rfl⟩ := h
  apply List.any_eq_true.mpr
  refine ⟨needle ++ after, ?_, List.isPrefixOf_iff_prefix.mpr (List.prefix_append _ _)⟩
  rw [List.mem_tails, List.append_assoc]
  exact List.suffix_append _ _

/-- What stands before the first stop byte. -/
def upTo (stop : UInt8 → Bool) (s : ByteString) : ByteString := s.takeWhile (!stop ·)

/-! ### Hexadecimal -/

theorem hexDigit_inj {a b : Nat} (ha : a < 16) (hb : b < 16) (h : hexDigit a = hexDigit b) :
    a = b := by
  have h' := congrArg UInt8.toNat h
  simp only [hexDigit, UInt8.toNat_ofNat'] at h'
  split at h' <;> split at h' <;> omega

end Apm
