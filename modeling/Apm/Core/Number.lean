import Apm.Core.ReleaseParser

/-!
Numbers in text files, as `std::strtoull` reads them.
-/

namespace Apm

open Repo (digitsValue)

/-- `std::strtoul` to base 10 for an `unsigned long` of so many bits; `none` where it reads no
digit or sets `errno`. -/
def strtoul (bits : Nat) (text : ByteString) : Option Nat :=
  let signed := text.dropWhile isspace
  let negative := signed.head? == some (chr '-')
  let digits := (if negative || signed.head? == some (chr '+') then signed.tail else signed)
    |>.takeWhile isdigit
  let value := digitsValue digits
  if digits.isEmpty || 2 ^ bits ≤ value then none
  else some (if negative then (2 ^ bits - value) % 2 ^ bits else value)

/-- `std::strtoull` to base 10; `none` where it reads no digit or sets `errno`. -/
def strtoull (text : ByteString) : Option Nat :=
  let signed := text.dropWhile isspace
  let negative := signed.head? == some (chr '-')
  let digits := (if negative || signed.head? == some (chr '+') then signed.tail else signed)
    |>.takeWhile isdigit
  let value := digitsValue digits
  if digits.isEmpty || 2 ^ 64 ≤ value then none
  else some (if negative then (2 ^ 64 - value) % 2 ^ 64 else value)

theorem strtoull_lt {text : ByteString} {n : Nat} (h : strtoull text = some n) : n < 2 ^ 64 := by
  unfold strtoull at h
  rw [Option.ite_none_left_eq_some] at h
  obtain ⟨fits, value⟩ := h
  rw [Bool.or_eq_true, decide_eq_true_eq, not_or, Nat.not_le] at fits
  cases value
  split
  · exact Nat.mod_lt _ (by decide)
  · exact fits.2

theorem digitsValue_decimal (n : Nat) : digitsValue (decimal n) = n := by
  have digits : ∀ c ∈ Nat.toDigits 10 n, (UInt8.ofNat c.toNat).toNat = c.toNat := by
    intro c mem
    have digit := Char.isDigit_iff_toNat.mp
      (Nat.isDigit_of_mem_toDigits (by decide) (by decide) mem)
    have nine : '9'.toNat = 57 := rfl
    rw [nine] at digit
    rw [UInt8.toNat_ofNat']
    exact Nat.mod_eq_of_lt (by omega)
  have value : ∀ (l : List Char) (k : Nat), (∀ c ∈ l, (UInt8.ofNat c.toNat).toNat = c.toNat) →
      (l.map fun c => UInt8.ofNat c.toNat).foldl (fun n c => 10 * n + (c.toNat - 48)) k =
        Nat.ofDigitChars 10 l k := by
    intro l
    induction l with
    | nil =>
      intro k _
      rw [Nat.ofDigitChars_nil]
      rfl
    | cons c l ih =>
      intro k small
      obtain ⟨first, others⟩ := List.forall_mem_cons.mp small
      rw [Nat.ofDigitChars_cons, List.map_cons, List.foldl_cons, ih _ others, first]
      rfl
  exact (value _ 0 digits).trans Nat.ofDigitChars_ten_toDigits

theorem decimal_injective : Function.Injective decimal := by
  intro m n same
  have values := congrArg digitsValue same
  rwa [digitsValue_decimal, digitsValue_decimal] at values

theorem decimal_ne_nil (n : Nat) : decimal n ≠ [] :=
  fun h => Nat.toDigits_ne_nil (List.map_eq_nil_iff.mp h)

theorem decimal_isdigit (n : Nat) : ∀ c ∈ decimal n, isdigit c := fun _ => isdigit_of_mem_decimal

theorem not_isspace_of_isdigit {c : UInt8} (h : isdigit c) : ¬ isspace c := by
  simp only [isdigit, isspace, Bool.and_eq_true, Bool.or_eq_true, beq_iff_eq, decide_eq_true_eq,
    UInt8.le_iff_toNat_le, ← UInt8.toNat_inj] at h ⊢
  simp at h ⊢
  omega

/-! ### Numbers written in decimal -/

theorem dropWhile_isspace_decimal (n : Nat) : (decimal n).dropWhile isspace = decimal n := by
  obtain ⟨first, rest, text⟩ := List.exists_cons_of_ne_nil (decimal_ne_nil n)
  have digit : isdigit first := decimal_isdigit n first (text ▸ List.mem_cons_self)
  rw [text]
  exact List.dropWhile_cons_of_neg (not_isspace_of_isdigit digit)

/-- There is no sign. -/
theorem head_decimal_ne {sign : UInt8} (h : ¬ isdigit sign) (n : Nat) :
    ((decimal n).head? == some sign) = false := by
  obtain ⟨first, rest, text⟩ := List.exists_cons_of_ne_nil (decimal_ne_nil n)
  have digit : isdigit first := decimal_isdigit n first (text ▸ List.mem_cons_self)
  rw [text]
  exact beq_eq_false_iff_ne.mpr fun same => h (Option.some.inj same ▸ digit)

theorem takeWhile_isdigit_decimal (n : Nat) : (decimal n).takeWhile isdigit = decimal n :=
  List.takeWhile_eq_self_iff.mpr (decimal_isdigit n)

theorem isEmpty_decimal (n : Nat) : (decimal n).isEmpty = false :=
  List.isEmpty_eq_false_iff.mpr (decimal_ne_nil n)

/-- **A number written in decimal is read back**, if it has no more bits. -/
theorem strtoul_decimal (bits n : Nat) :
    strtoul bits (decimal n) = if n < 2 ^ bits then some n else none := by
  have noMinus := head_decimal_ne (show ¬ isdigit (chr '-') by decide) n
  have noPlus := head_decimal_ne (show ¬ isdigit (chr '+') by decide) n
  unfold strtoul
  simp only [dropWhile_isspace_decimal, noMinus, noPlus, Bool.or_false, Bool.false_eq_true,
    if_false, takeWhile_isdigit_decimal, digitsValue_decimal, isEmpty_decimal, Bool.false_or,
    decide_eq_true_eq]
  by_cases small : n < 2 ^ bits
  · rw [if_pos small, if_neg (Nat.not_le.mpr small)]
  · rw [if_neg small, if_pos (Nat.not_lt.mp small)]

theorem strtoull_decimal {n : Nat} (small : n < 2 ^ 64) : strtoull (decimal n) = some n :=
  (strtoul_decimal 64 n).trans (if_pos small)

end Apm
