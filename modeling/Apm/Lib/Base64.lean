import Mathlib.Data.List.Infix
import Mathlib.Data.List.TakeWhile
import Mathlib.Tactic.Common

/-!
Base64 over bytes.

`encode` makes four characters of three bytes, with padding in the last group. `decodeBlock` reads
groups of four and takes padding for zero bytes, so it gives three bytes for each group
(`decodeBlock_encode`).
-/

namespace Apm.Lib.Base64

/-! ### The alphabet -/

/-- The padding character. -/
def pad : UInt8 := 61

/-- The character of six bits. -/
def char (n : Nat) : UInt8 :=
  UInt8.ofNat (if n < 26 then 65 + n else if n < 52 then 71 + n else if n < 62 then n - 4
    else if n = 62 then 43 else 47)

/-- The six bits of a character. -/
def value (c : UInt8) : Option Nat :=
  if 65 ≤ c ∧ c ≤ 90 then some (c.toNat - 65)
  else if 97 ≤ c ∧ c ≤ 122 then some (c.toNat - 71)
  else if 48 ≤ c ∧ c ≤ 57 then some (c.toNat + 4)
  else if c = 43 then some 62
  else if c = 47 then some 63
  else none

theorem value_char {n : Nat} (h : n < 64) : value (char n) = some n := by
  have all : ∀ n < 64, value (char n) = some n := by decide
  exact all n h

theorem value_pad : value pad = none := rfl

theorem char_ne_pad {n : Nat} (h : n < 64) : char n ≠ pad := by
  intro same
  have := value_char h
  rw [same, value_pad] at this
  cases this

/-- A character of an encoding. -/
def IsChar (c : UInt8) : Prop := c = pad ∨ (value c).isSome = true

theorem char_isChar {n : Nat} (h : n < 64) : IsChar (char n) := by
  right
  rw [value_char h]
  rfl

/-! ### Encoding -/

/-- The bytes, six bits by six bits. -/
def sextets : List UInt8 → List Nat
  | [] => []
  | [a] => [a.toNat / 4, a.toNat % 4 * 16]
  | [a, b] => [a.toNat / 4, a.toNat % 4 * 16 + b.toNat / 16, b.toNat % 16 * 4]
  | a :: b :: c :: rest =>
      a.toNat / 4 :: (a.toNat % 4 * 16 + b.toNat / 16) :: (b.toNat % 16 * 4 + c.toNat / 64) ::
        c.toNat % 64 :: sextets rest

/-- How many characters pad the encoding of that many bytes. -/
def padding (n : Nat) : Nat := (3 - n % 3) % 3

def encode (s : List UInt8) : List UInt8 :=
  (sextets s).map char ++ List.replicate (padding s.length) pad

theorem lt_of_mem_sextets {s : List UInt8} {n : Nat} (h : n ∈ sextets s) : n < 64 := by
  induction s using sextets.induct with
  | case1 => cases h
  | case2 a =>
    have := a.toNat_lt
    simp only [sextets, List.mem_cons, List.not_mem_nil, or_false] at h
    omega
  | case3 a b =>
    have := a.toNat_lt
    have := b.toNat_lt
    simp only [sextets, List.mem_cons, List.not_mem_nil, or_false] at h
    omega
  | case4 a b c rest ih =>
    have := a.toNat_lt
    have := b.toNat_lt
    have := c.toNat_lt
    simp only [sextets, List.mem_cons] at h
    rcases h with rfl | rfl | rfl | rfl | h
    · omega
    · omega
    · omega
    · omega
    · exact ih h

theorem length_sextets (s : List UInt8) : (sextets s).length = (4 * s.length + 2) / 3 := by
  induction s using sextets.induct with
  | case1 => rfl
  | case2 => simp [sextets]
  | case3 => simp [sextets]
  | case4 a b c rest ih =>
    simp only [sextets, List.length_cons, ih]
    omega

theorem length_encode (s : List UInt8) : (encode s).length = 4 * ((s.length + 2) / 3) := by
  simp only [encode, List.length_append, List.length_map, List.length_replicate, length_sextets,
    padding]
  omega

theorem isChar_of_mem_encode {s : List UInt8} {c : UInt8} (h : c ∈ encode s) : IsChar c := by
  rcases List.mem_append.mp h with h | h
  · obtain ⟨n, mem, rfl⟩ := List.mem_map.mp h
    exact char_isChar (lt_of_mem_sextets mem)
  · exact .inl (List.eq_of_mem_replicate h)

/-- The padding at the end of an encoding. -/
theorem takeWhile_reverse_encode (s : List UInt8) :
    ((encode s).reverse.takeWhile (· == pad)).length = padding s.length := by
  have stops : ((sextets s).map char).reverse.takeWhile (· == pad) = [] := by
    rw [List.takeWhile_eq_nil_iff]
    intro nonempty isPad
    have mem := List.mem_reverse.mp (List.getElem_mem nonempty)
    obtain ⟨n, sextet, same⟩ := List.mem_map.mp mem
    rw [List.get_eq_getElem, ← same, beq_iff_eq] at isPad
    exact char_ne_pad (lt_of_mem_sextets sextet) isPad
  rw [encode, List.reverse_append, List.reverse_replicate, List.takeWhile_append_of_pos, stops,
    List.append_nil, List.length_replicate]
  intro c mem
  rw [List.eq_of_mem_replicate mem]
  rfl

/-! ### Decoding -/

/-- The three bytes of four times six bits. -/
def group (a b c d : Nat) : List UInt8 :=
  [UInt8.ofNat (a * 4 + b / 16), UInt8.ofNat (b % 16 * 16 + c / 4), UInt8.ofNat (c % 4 * 64 + d)]

/-- Padding stands for zeros. -/
def lastGroup (a b c d : UInt8) : Option (List UInt8) :=
  match value a, value b, value c, value d with
  | some a, some b, some c, some d => some (group a b c d)
  | some a, some b, some c, none => if d = pad then some (group a b c 0) else none
  | some a, some b, none, none => if c = pad ∧ d = pad then some (group a b 0 0) else none
  | _, _, _, _ => none

/-- Groups of four characters; only the last one may have padding. -/
def decodeBlock : List UInt8 → Option (List UInt8)
  | [] => some []
  | a :: b :: c :: d :: rest =>
      if rest.isEmpty then lastGroup a b c d
      else
        match value a, value b, value c, value d, decodeBlock rest with
        | some a, some b, some c, some d, some bytes => some (group a b c d ++ bytes)
        | _, _, _, _, _ => none
  | _ => none

theorem decodeBlock_group {a b c d : Nat} (ha : a < 64) (hb : b < 64) (hc : c < 64) (hd : d < 64)
    (rest : List UInt8) :
    decodeBlock (char a :: char b :: char c :: char d :: rest) =
      (decodeBlock rest).map (group a b c d ++ ·) := by
  have va := value_char ha
  have vb := value_char hb
  have vc := value_char hc
  have vd := value_char hd
  cases rest with
  | nil => simp [decodeBlock, lastGroup, va, vb, vc, vd]
  | cons e rest =>
    cases decoded : decodeBlock (e :: rest) <;> simp [decodeBlock, va, vb, vc, vd, decoded]

theorem group_sextets (a b c : UInt8) :
    group (a.toNat / 4) (a.toNat % 4 * 16 + b.toNat / 16) (b.toNat % 16 * 4 + c.toNat / 64)
      (c.toNat % 64) = [a, b, c] := by
  have ha := a.toNat_lt
  have hb := b.toNat_lt
  have hc := c.toNat_lt
  have byte {n : Nat} {x : UInt8} (h : n = x.toNat) : UInt8.ofNat n = x := by
    rw [h, UInt8.ofNat_toNat]
  unfold group
  congr 1
  · exact byte (by omega)
  congr 1
  · exact byte (by omega)
  congr 1
  exact byte (by omega)

/-- **Decoding gives the bytes back**, and zeros for the padding. -/
theorem decodeBlock_encode (s : List UInt8) :
    decodeBlock (encode s) = some (s ++ List.replicate (padding s.length) 0) := by
  induction s using sextets.induct with
  | case1 => rfl
  | case2 a =>
    have := a.toNat_lt
    have bytes := group_sextets a 0 0
    have first := value_char (n := a.toNat / 4) (by omega)
    have second := value_char (n := a.toNat % 4 * 16) (by omega)
    simp only [UInt8.toNat_zero, Nat.zero_div, Nat.zero_mod, Nat.zero_mul, Nat.add_zero] at bytes
    simp [encode, sextets, padding, decodeBlock, lastGroup, value_pad, first, second, bytes]
  | case3 a b =>
    have := a.toNat_lt
    have := b.toNat_lt
    have bytes := group_sextets a b 0
    have first := value_char (n := a.toNat / 4) (by omega)
    have second := value_char (n := a.toNat % 4 * 16 + b.toNat / 16) (by omega)
    have third := value_char (n := b.toNat % 16 * 4) (by omega)
    simp only [UInt8.toNat_zero, Nat.zero_div, Nat.zero_mod, Nat.add_zero] at bytes
    simp [encode, sextets, padding, decodeBlock, lastGroup, value_pad, first, second, third, bytes]
  | case4 a b c rest ih =>
    have := a.toNat_lt
    have := b.toNat_lt
    have := c.toNat_lt
    have same : padding (a :: b :: c :: rest).length = padding rest.length := by
      simp only [padding, List.length_cons]
      omega
    have text : encode (a :: b :: c :: rest) =
        char (a.toNat / 4) :: char (a.toNat % 4 * 16 + b.toNat / 16) ::
          char (b.toNat % 16 * 4 + c.toNat / 64) :: char (c.toNat % 64) :: encode rest := by
      rw [encode, same, sextets]
      rfl
    rw [text, decodeBlock_group (by omega) (by omega) (by omega) (by omega), ih, group_sextets,
      same]
    rfl

theorem isChar_pad : IsChar pad := .inl rfl

theorem isChar_of_value {c : UInt8} {n : Nat} (h : value c = some n) : IsChar c := by
  right
  rw [h]
  rfl

theorem of_lastGroup {a b c d : UInt8} {bytes : List UInt8} (h : lastGroup a b c d = some bytes) :
    bytes.length = 3 ∧ ∀ x ∈ [a, b, c, d], IsChar x := by
  unfold lastGroup at h
  split at h
  · rename_i va vb vc vd
    cases h
    simp [group, isChar_of_value va, isChar_of_value vb, isChar_of_value vc, isChar_of_value vd]
  · rename_i va vb vc _
    split at h
    · rename_i last
      cases h
      simp [group, isChar_of_value va, isChar_of_value vb, isChar_of_value vc, last, isChar_pad]
    · cases h
  · rename_i va vb _ _
    split at h
    · rename_i last
      cases h
      simp [group, isChar_of_value va, isChar_of_value vb, last.1, last.2, isChar_pad]
    · cases h
  · cases h

/-- What is decoded has groups of four characters, and gives three bytes for each. -/
theorem of_decodeBlock {s bytes : List UInt8} (h : decodeBlock s = some bytes) :
    4 ∣ s.length ∧ bytes.length = s.length / 4 * 3 ∧ ∀ c ∈ s, IsChar c := by
  induction s using decodeBlock.induct generalizing bytes with
  | case1 =>
    cases h
    simp
  | case2 a b c d rest last =>
    rw [decodeBlock, if_pos last] at h
    obtain ⟨length, chars⟩ := of_lastGroup h
    obtain rfl := List.isEmpty_iff.mp last
    exact ⟨by simp, by simpa using length, chars⟩
  | case3 a b c d rest more na nb nc nd read decoded vd vc vb va ih =>
    rw [decodeBlock, if_neg more, va, vb, vc, vd, decoded] at h
    cases h
    obtain ⟨⟨k, groups⟩, length, chars⟩ := ih decoded
    refine ⟨⟨k + 1, ?_⟩, ?_, ?_⟩
    · simp only [List.length_cons]
      omega
    · simp only [group, List.length_append, List.length_cons, List.length_nil, length]
      omega
    · simp only [List.forall_mem_cons]
      exact ⟨isChar_of_value va, isChar_of_value vb, isChar_of_value vc, isChar_of_value vd, chars⟩
  | case4 a b c d rest more invalid =>
    rw [decodeBlock, if_neg more] at h
    split at h
    · rename_i va vb vc vd decoded
      exact (invalid _ _ _ _ _ va vb vc vd decoded).elim
    · cases h
  | case5 s empty short =>
    rw [decodeBlock] at h
    · cases h
    · exact empty
    · exact short

end Apm.Lib.Base64
