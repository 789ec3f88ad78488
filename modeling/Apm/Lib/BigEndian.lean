import Mathlib.Data.List.Basic
import Mathlib.Tactic.Ring

/-!
Numbers as octets, the most significant one first.

## Main results

* `ofBytes_toBytes`, `toBytes_ofBytes`: a number below `256 ^ k` is a list of `k` octets.
-/

namespace Apm.Lib.BigEndian

/-- The number that the octets are. -/
def ofBytes : List UInt8 → Nat
  | [] => 0
  | b :: rest => b.toNat * 256 ^ rest.length + ofBytes rest

/-- The last `k` octets of a number. -/
def toBytes : Nat → Nat → List UInt8
  | 0, _ => []
  | k + 1, n => UInt8.ofNat (n / 256 ^ k) :: toBytes k n

@[simp] theorem toBytes_length (k n : Nat) : (toBytes k n).length = k := by
  induction k with
  | zero => rfl
  | succ k ih => rw [toBytes, List.length_cons, ih]

theorem ofBytes_lt (bytes : List UInt8) : ofBytes bytes < 256 ^ bytes.length := by
  induction bytes with
  | nil => exact Nat.one_pos
  | cons b rest ih =>
    have small : b.toNat + 1 ≤ 256 := b.toNat_lt
    calc ofBytes (b :: rest) < b.toNat * 256 ^ rest.length + 256 ^ rest.length :=
          Nat.add_lt_add_left ih _
      _ = (b.toNat + 1) * 256 ^ rest.length := by ring
      _ ≤ 256 * 256 ^ rest.length := Nat.mul_le_mul_right _ small
      _ = 256 ^ (b :: rest).length := (pow_succ' 256 rest.length).symm

/-- What lies above the octets that are written is lost. -/
theorem ofBytes_toBytes_mod (k n : Nat) : ofBytes (toBytes k n) = n % 256 ^ k := by
  induction k with
  | zero => exact (Nat.mod_one n).symm
  | succ k ih =>
    rw [toBytes, ofBytes, toBytes_length, ih, UInt8.toNat_ofNat', pow_succ 256 k, Nat.mod_mul]
    ring

/-- **A number that fits is read back.** -/
theorem ofBytes_toBytes {k n : Nat} (fits : n < 256 ^ k) : ofBytes (toBytes k n) = n := by
  rw [ofBytes_toBytes_mod, Nat.mod_eq_of_lt fits]

theorem toBytes_add_mul (k m n : Nat) : toBytes k (m * 256 ^ k + n) = toBytes k n := by
  induction k generalizing m with
  | zero => rfl
  | succ k ih =>
    have split : m * 256 ^ (k + 1) + n = m * 256 * 256 ^ k + n := by ring
    have digit : UInt8.ofNat (m * 256 + n / 256 ^ k) = UInt8.ofNat (n / 256 ^ k) := by
      apply UInt8.toNat_inj.mp
      rw [UInt8.toNat_ofNat', UInt8.toNat_ofNat']
      omega
    rw [toBytes, toBytes, split, ih, Nat.mul_comm _ (256 ^ k),
      Nat.mul_add_div (Nat.pow_pos (by decide)), digit]

/-- **Octets are written back.** -/
theorem toBytes_ofBytes (bytes : List UInt8) : toBytes bytes.length (ofBytes bytes) = bytes := by
  induction bytes with
  | nil => rfl
  | cons b rest ih =>
    have digit : (b.toNat * 256 ^ rest.length + ofBytes rest) / 256 ^ rest.length = b.toNat := by
      rw [Nat.mul_comm, Nat.mul_add_div (Nat.pow_pos (by decide)),
        Nat.div_eq_of_lt (ofBytes_lt rest), Nat.add_zero]
    rw [List.length_cons, toBytes, ofBytes, digit, toBytes_add_mul, ih, UInt8.ofNat_toNat]

end Apm.Lib.BigEndian
