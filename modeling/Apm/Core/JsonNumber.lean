import Apm.Core.ManualPackageText

/-!
The numbers of package-info files on machine integers: `JsonParser::parseUint64` of
`src/core/manual_package.cpp`.

## Main results

* `parseUint64_exact`: the numbers that are read are the runs of digits whose value has 64 bits,
  and no turn of the loop wraps;
* `parseUint64_refines`: the reader of whole records reads the same numbers.
-/

namespace Apm.Manual

open Apm.Repo (digitsValue)

/-- The reader: a text, and the position in it. -/
structure JsonParser where
  data : ByteString
  pos : Nat := 0
deriving DecidableEq

namespace JsonParser

def rest (p : JsonParser) : ByteString := p.data.drop p.pos

/-- The loop of `skipWhitespace`, over what is behind the position. -/
def blankLoop (pos : Nat) : ByteString → Nat
  | [] => pos
  | c :: s =>
      if c == chr ' ' || c == chr '\n' || c == chr '\t' || c == chr '\r' then blankLoop (pos + 1) s
      else pos

def skipWhitespace (p : JsonParser) : JsonParser := { p with pos := blankLoop p.pos p.rest }

/-- The greatest `std::uint64_t`. -/
def uint64Limit : UInt64 := 0xFFFFFFFFFFFFFFFF

/-- A turn of the loop of `parseUint64`. -/
def nextValue (value : UInt64) (c : UInt8) : Except ByteString UInt64 :=
  let digit := (c - chr '0').toUInt64
  if value > (uint64Limit - digit) / 10 then .error (str "Numeric overflow in package-info JSON")
  else .ok (value * 10 + digit)

/-- The loop of `parseUint64`, over what is behind the position. -/
def digitLoop (value : UInt64) (pos : Nat) : ByteString → Except ByteString (UInt64 × Nat)
  | [] => .ok (value, pos)
  | c :: s =>
      if isdigit c then do
        let value ← nextValue value c
        digitLoop value (pos + 1) s
      else .ok (value, pos)

/-- The number, and the reader behind it. -/
def parseUint64 (p : JsonParser) : Except ByteString (UInt64 × JsonParser) :=
  let p := p.skipWhitespace
  if p.rest.head?.any isdigit then do
    let (value, pos) ← digitLoop 0 p.pos p.rest
    .ok (value, { p with pos })
  else .error (str "Expected numeric value in package-info JSON")

/-- The digits from a position on, up to a byte that is none. -/
structure DigitRun (data : ByteString) (pos : Nat) (run : ByteString) : Prop where
  digits : ∀ c ∈ run, isdigit c
  here : run <+: data.drop pos
  maximal : ∀ c ∈ data[pos + run.length]?, ¬ isdigit c

/-! ### Digits -/

/-- **A turn does not wrap**: the next value is the exact one, or there is none. -/
theorem nextValue_eq (value : UInt64) {c : UInt8} (digit : isdigit c) :
    nextValue value c =
      if 10 * value.toNat + (c.toNat - 48) < 2 ^ 64 then
        .ok (UInt64.ofNat (10 * value.toNat + (c.toNat - 48)))
      else .error (str "Numeric overflow in package-info JSON") := by
  have bounds : 48 ≤ c.toNat ∧ c.toNat ≤ 57 := by
    simpa [isdigit, UInt8.le_iff_toNat_le] using digit
  have zero : chr '0' ≤ c := UInt8.le_iff_toNat_le.mpr bounds.1
  have digitNat : (c - chr '0').toUInt64.toNat = c.toNat - 48 := by
    rw [UInt8.toNat_toUInt64, UInt8.toNat_sub_of_le _ _ zero]
    rfl
  have ten : (10 : UInt64).toNat = 10 := rfl
  have limit : uint64Limit.toNat = 2 ^ 64 - 1 := rfl
  have small : (c - chr '0').toUInt64 ≤ uint64Limit := by
    rw [UInt64.le_iff_toNat_le, digitNat, limit]
    omega
  have test : value > (uint64Limit - (c - chr '0').toUInt64) / 10 ↔
      ¬ 10 * value.toNat + (c.toNat - 48) < 2 ^ 64 := by
    rw [gt_iff_lt, UInt64.lt_iff_toNat_lt, UInt64.toNat_div, UInt64.toNat_sub_of_le _ _ small,
      digitNat, limit, ten]
    omega
  unfold nextValue
  dsimp only
  by_cases fits : 10 * value.toNat + (c.toNat - 48) < 2 ^ 64
  · have exactValue : value * 10 + (c - chr '0').toUInt64 =
        UInt64.ofNat (10 * value.toNat + (c.toNat - 48)) := by
      rw [← UInt64.toNat_inj, UInt64.toNat_add, UInt64.toNat_mul, digitNat, ten,
        UInt64.toNat_ofNat_of_lt' fits]
      omega
    rw [if_neg (fun overflows => test.mp overflows fits), if_pos fits, exactValue]
  · rw [if_pos (test.mpr fits), if_neg fits]

/-- The value of more digits. -/
def withDigits (value : Nat) (digits : ByteString) : Nat :=
  digits.foldl (fun n c => 10 * n + (c.toNat - 48)) value

theorem withDigits_cons (value : Nat) (c : UInt8) (digits : ByteString) :
    withDigits value (c :: digits) = withDigits (10 * value + (c.toNat - 48)) digits := by
  unfold withDigits
  rw [List.foldl_cons]

theorem le_withDigits (value : Nat) (digits : ByteString) : value ≤ withDigits value digits :=
  le_foldl_digits digits value

/-- **The loop reads all digits**, or their value has more than 64 bits. -/
theorem digitLoop_eq (s : ByteString) (value : UInt64) (pos : Nat) :
    digitLoop value pos s =
      if withDigits value.toNat (s.takeWhile isdigit) < 2 ^ 64 then
        .ok (UInt64.ofNat (withDigits value.toNat (s.takeWhile isdigit)),
          pos + (s.takeWhile isdigit).length)
      else .error (str "Numeric overflow in package-info JSON") := by
  have stop : withDigits value.toNat [] = value.toNat := rfl
  induction s generalizing value pos with
  | nil =>
    rw [digitLoop, List.takeWhile_nil, stop, if_pos value.toNat_lt, UInt64.ofNat_toNat]
    rfl
  | cons c s ih =>
    rw [digitLoop]
    by_cases digit : isdigit c
    · rw [if_pos digit, List.takeWhile_cons_of_pos digit, withDigits_cons, nextValue_eq _ digit]
      by_cases here : 10 * value.toNat + (c.toNat - 48) < 2 ^ 64
      · have turn := ih (UInt64.ofNat (10 * value.toNat + (c.toNat - 48))) (pos + 1) rfl
        rw [UInt64.toNat_ofNat_of_lt' here, Nat.add_right_comm, Nat.add_assoc pos] at turn
        rw [if_pos here, List.length_cons, ← turn]
        rfl
      · have overflows : ¬ withDigits (10 * value.toNat + (c.toNat - 48)) (s.takeWhile isdigit) <
            2 ^ 64 := fun fits => here ((le_withDigits _ _).trans_lt fits)
        rw [if_neg here, if_neg overflows]
        rfl
    · rw [if_neg digit, List.takeWhile_cons_of_neg digit, stop, if_pos value.toNat_lt,
        UInt64.ofNat_toNat]
      rfl

/-! ### Blanks and runs -/

theorem drop_blankLoop {data s : ByteString} {pos : Nat} (here : data.drop pos = s) :
    data.drop (blankLoop pos s) = Ams.skipWhitespace s := by
  induction s generalizing pos with
  | nil => exact here
  | cons c s ih =>
    have next : data.drop (pos + 1) = s := by
      rw [← List.drop_drop, here]
      rfl
    unfold blankLoop Ams.skipWhitespace
    by_cases blank : (c == chr ' ' || c == chr '\n' || c == chr '\t' || c == chr '\r') = true
    · rw [if_pos blank, ih next, List.dropWhile_cons_of_pos]
      · rfl
      · rwa [Bool.or_right_comm]
    · rw [if_neg blank, List.dropWhile_cons_of_neg, here]
      rwa [Bool.or_right_comm]

theorem rest_skipWhitespace (p : JsonParser) :
    p.skipWhitespace.rest = Ams.skipWhitespace p.rest := drop_blankLoop rfl

theorem getElem?_behind {data run others : ByteString} {pos : Nat}
    (split : run ++ others = data.drop pos) : data[pos + run.length]? = others.head? := by
  rw [← List.getElem?_drop, ← split, List.getElem?_append_right (Nat.le_refl _), Nat.sub_self,
    List.head?_eq_getElem?]

/-- There is one run of digits at a position. -/
theorem digitRun_iff {data run : ByteString} {pos : Nat} :
    DigitRun data pos run ↔ run = (data.drop pos).takeWhile isdigit := by
  constructor
  · rintro ⟨digits, ⟨others, split⟩, maximal⟩
    have stops : others.takeWhile isdigit = [] := by
      cases others with
      | nil => rfl
      | cons c others =>
        exact List.takeWhile_cons_of_neg (maximal c (getElem?_behind split))
    rw [← split, List.takeWhile_append_of_pos digits, stops, List.append_nil]
  · rintro rfl
    refine ⟨fun c mem => List.mem_takeWhile_imp mem, List.takeWhile_prefix _, fun c next => ?_⟩
    rw [getElem?_behind List.takeWhile_append_dropWhile] at next
    have stops := List.head?_dropWhile_not isdigit (data.drop pos)
    rw [Option.mem_def.mp next] at stops
    exact Bool.eq_false_iff.mp stops

theorem takeWhile_isdigit_ne_nil {s : ByteString} :
    s.takeWhile isdigit ≠ [] ↔ s.head?.any isdigit = true := by
  cases s with
  | nil => exact iff_of_false (fun filled => filled rfl) nofun
  | cons c s =>
    cases digit : isdigit c <;> simp [digit]

/-! ### Numbers -/

/-- What is read at a position: the run of digits behind the blanks. -/
theorem parseUint64_eq (p : JsonParser) :
    p.parseUint64 =
      if p.skipWhitespace.rest.takeWhile isdigit = [] then
        .error (str "Expected numeric value in package-info JSON")
      else if digitsValue (p.skipWhitespace.rest.takeWhile isdigit) < 2 ^ 64 then
        .ok (UInt64.ofNat (digitsValue (p.skipWhitespace.rest.takeWhile isdigit)),
          { p with pos := p.skipWhitespace.pos + (p.skipWhitespace.rest.takeWhile isdigit).length })
      else .error (str "Numeric overflow in package-info JSON") := by
  unfold parseUint64
  dsimp only
  by_cases filled : p.skipWhitespace.rest.takeWhile isdigit = []
  · rw [if_pos filled, if_neg (mt takeWhile_isdigit_ne_nil.mpr (not_not.mpr filled))]
  · have value : withDigits (0 : UInt64).toNat (p.skipWhitespace.rest.takeWhile isdigit) =
        digitsValue (p.skipWhitespace.rest.takeWhile isdigit) := rfl
    rw [if_neg filled, if_pos (takeWhile_isdigit_ne_nil.mp filled), digitLoop_eq, value]
    split <;> rfl

/-- **The numbers that are read**, from any position: behind the blanks stands a run of digits, and
its value has 64 bits. A turn of the loop finds an overflow just when there is one. -/
theorem parseUint64_exact (p : JsonParser) :
    (∀ value next, p.parseUint64 = .ok (value, next) ↔
      ∃ run, run ≠ [] ∧ DigitRun p.data p.skipWhitespace.pos run ∧ digitsValue run < 2 ^ 64 ∧
        value.toNat = digitsValue run ∧
        next = { p with pos := p.skipWhitespace.pos + run.length }) ∧
      ∀ value c, isdigit c → nextValue value c =
        if 10 * value.toNat + (c.toNat - 48) < 2 ^ 64 then
          .ok (UInt64.ofNat (10 * value.toNat + (c.toNat - 48)))
        else .error (str "Numeric overflow in package-info JSON") := by
  refine ⟨fun value next => ?_, fun value c digit => nextValue_eq value digit⟩
  rw [parseUint64_eq]
  constructor
  · intro read
    split at read
    · cases read
    · rename_i filled
      split at read
      · rename_i fits
        cases read
        exact ⟨_, filled, digitRun_iff.mpr rfl, fits, UInt64.toNat_ofNat_of_lt' fits, rfl⟩
      · cases read
  · rintro ⟨run, filled, isRun, fits, exactValue, rfl⟩
    obtain rfl : run = p.skipWhitespace.rest.takeWhile isdigit := digitRun_iff.mp isRun
    rw [if_neg filled, if_pos fits, ← exactValue, UInt64.ofNat_toNat]

/-- The greatest number with a zero in front, and the next one. -/
example :
    parseUint64 ⟨str "x: 018446744073709551615,", 2⟩ =
        .ok (18446744073709551615, ⟨str "x: 018446744073709551615,", 24⟩) ∧
      parseUint64 ⟨str "18446744073709551616", 0⟩ =
        .error (str "Numeric overflow in package-info JSON") := by
  decide +kernel

/-- What stands behind a run of digits. -/
theorem drop_behind (data : ByteString) (pos : Nat) :
    data.drop (pos + ((data.drop pos).takeWhile isdigit).length) =
      (data.drop pos).dropWhile isdigit := by
  have split : (data.drop pos).takeWhile isdigit ++ (data.drop pos).dropWhile isdigit =
      data.drop pos := List.takeWhile_append_dropWhile
  rw [← List.drop_drop]
  exact (congrArg _ split.symm).trans List.drop_left

/-- **The reader of records reads the same numbers.** -/
theorem parseUint64_refines (p : JsonParser) :
    Manual.parseUint64 p.rest = p.parseUint64.map fun x => (x.1.toNat, x.2.rest) := by
  have digits : ∀ c ∈ p.skipWhitespace.rest.takeWhile isdigit, isdigit c :=
    fun c mem => List.mem_takeWhile_imp mem
  have max : digitsValue (p.skipWhitespace.rest.takeWhile isdigit) ≤ uint64Max ↔
      digitsValue (p.skipWhitespace.rest.takeWhile isdigit) < 2 ^ 64 := by
    unfold uint64Max
    omega
  have loop : (p.skipWhitespace.rest.takeWhile isdigit).foldlM pushDigit 0 =
      if digitsValue (p.skipWhitespace.rest.takeWhile isdigit) < 2 ^ 64 then
        .ok (digitsValue (p.skipWhitespace.rest.takeWhile isdigit))
      else .error (str "Numeric overflow in package-info JSON") :=
    (foldlM_pushDigit digits (Nat.zero_le _)).trans (if_congr max rfl rfl)
  rw [parseUint64_eq]
  unfold Manual.parseUint64
  dsimp only
  rw [← rest_skipWhitespace, loop]
  by_cases filled : p.skipWhitespace.rest.takeWhile isdigit = []
  · rw [filled, if_pos rfl]
    rfl
  · rw [if_neg filled, if_neg (mt List.isEmpty_iff.mp filled)]
    by_cases fits : digitsValue (p.skipWhitespace.rest.takeWhile isdigit) < 2 ^ 64
    · have behind : p.skipWhitespace.rest.dropWhile isdigit =
          p.data.drop (p.skipWhitespace.pos +
            (p.skipWhitespace.rest.takeWhile isdigit).length) := (drop_behind _ _).symm
      rw [if_pos fits, if_pos fits, Except.map, behind]
      dsimp only
      rw [UInt64.toNat_ofNat_of_lt' fits]
      rfl
    · rw [if_neg fits, if_neg fits]
      rfl

end JsonParser

end Apm.Manual
