import Apm.Core.Number
import Apm.Install.Upgrade
import Mathlib.Data.List.SplitBy
import Mathlib.Tactic.Ring

/-!
The order of `compareVersionSimple` in `src/apmd/install_manager.cpp`.

The loop walks over both strings run by run. It is the lexicographic order of their runs
(`compareVersionSimple_eq_runs`), so that what holds of the order of two runs carries over
to whole versions.

## Main results

* `compareVersionSimple_preorder`: the comparison is a total preorder, with digit runs of
  any length by value, and equal up to leading zeros exactly.
-/

namespace Apm.Install

open Apm.Repo (digitsValue)
open Apm.Lib
open Std (TransCmp)

/-! ### Runs -/

/-- The maximal digit and non-digit runs of a string. -/
def runs (s : ByteString) : List ByteString := s.splitBy fun c d => isdigit c == isdigit d

/-- The kind of a run is that of its first byte. -/
def isDigitRun (run : ByteString) : Bool := run.head?.any isdigit

/-- A run without the leading zeros of a digit run. -/
def canonicalRun (run : ByteString) : ByteString := if isDigitRun run then stripZeros run else run

/-- The order of two runs: digit runs by value, other runs as strings, digits above others. -/
def compareRuns (x y : ByteString) : Ordering :=
  match isDigitRun x, isDigitRun y with
  | true, true => compare (digitsValue x) (digitsValue y)
  | true, false => .gt
  | false, true => .lt
  | false, false => compareBytes x y

/-- A nonempty string of one kind. -/
structure IsRun (run : ByteString) : Prop where
  ne_nil : run ≠ []
  uniform : ∀ c ∈ run, isdigit c = isDigitRun run

/-- The first run of a string. -/
def firstRun (c : UInt8) (s : ByteString) : ByteString :=
  (c :: s).takeWhile (isdigit · == isdigit c)

/-- What follows it. -/
def afterRun (c : UInt8) (s : ByteString) : ByteString :=
  (c :: s).dropWhile (isdigit · == isdigit c)

theorem isDigitRun_firstRun (c : UInt8) (s : ByteString) :
    isDigitRun (firstRun c s) = isdigit c := by
  simp [firstRun, isDigitRun]

theorem isRun_firstRun (c : UInt8) (s : ByteString) : IsRun (firstRun c s) where
  ne_nil := by simp [firstRun]
  uniform d mem := by
    have kept : (isdigit d == isdigit c) = true :=
      List.mem_takeWhile_imp (p := (isdigit · == isdigit c)) mem
    rw [isDigitRun_firstRun]
    exact eq_of_beq kept

theorem length_afterRun (c : UInt8) (s : ByteString) : (afterRun c s).length ≤ s.length := by
  have skipped : afterRun c s = s.dropWhile (isdigit · == isdigit c) := by simp [afterRun]
  rw [skipped]
  exact (List.dropWhile_sublist _).length_le

/-- A string begins with its first run. -/
theorem runs_cons (c : UInt8) (s : ByteString) :
    runs (c :: s) = firstRun c s :: runs (afterRun c s) := by
  have split : c :: s = firstRun c s ++ afterRun c s := List.takeWhile_append_dropWhile.symm
  have run := isRun_firstRun c s
  have kind := isDigitRun_firstRun c s
  have one : runs (firstRun c s) = [firstRun c s] := by
    apply List.splitBy_of_isChain run.ne_nil
    apply List.Pairwise.isChain
    apply List.pairwise_of_forall_mem_list
    intro d dmem e emem
    rw [run.uniform d dmem, run.uniform e emem]
    exact beq_self_eq_true _
  have apart : runs (firstRun c s ++ afterRun c s) =
      runs (firstRun c s) ++ runs (afterRun c s) := by
    apply List.splitBy_append
    intro d last e first
    have dkind := run.uniform d (List.mem_of_mem_getLast? last)
    have ekind := List.head?_dropWhile_not (isdigit · == isdigit c) (c :: s)
    unfold afterRun at first
    rw [Option.mem_def] at first
    rw [first] at ekind
    rw [dkind, kind, beq_eq_false_iff_ne]
    exact fun same => by simp [same] at ekind
  rw [split, apart, one]
  rfl

theorem isRun_of_mem_runs (s : ByteString) : ∀ run ∈ runs s, IsRun run := by
  induction hn : s.length using Nat.strongRecOn generalizing s with
  | _ n ih =>
    cases s with
    | nil => simp [runs]
    | cons c s =>
      rw [runs_cons, List.forall_mem_cons]
      have shorter : (afterRun c s).length < n := by
        rw [← hn]
        exact Nat.lt_succ_of_le (length_afterRun c s)
      exact ⟨isRun_firstRun c s, ih _ shorter _ rfl⟩

/-! ### The value of a digit run -/

theorem digitsValue_cons (c : UInt8) (s : ByteString) :
    digitsValue (c :: s) = (c.toNat - 48) * 10 ^ s.length + digitsValue s := by
  have shifted : ∀ (s : ByteString) (n : Nat),
      s.foldl (fun n c => 10 * n + (c.toNat - 48)) n = n * 10 ^ s.length + digitsValue s := by
    intro s
    induction s with
    | nil => simp [digitsValue]
    | cons c s ih =>
      intro n
      have first := ih (10 * 0 + (c.toNat - 48))
      rw [List.foldl_cons, ih, List.length_cons, Nat.pow_succ]
      unfold digitsValue at first ⊢
      rw [List.foldl_cons, first]
      ring
  have first : digitsValue (c :: s) =
      s.foldl (fun n c => 10 * n + (c.toNat - 48)) (10 * 0 + (c.toNat - 48)) := rfl
  rw [first, shifted, Nat.mul_zero, Nat.zero_add]

theorem digit_bounds {c : UInt8} (h : isdigit c) : 48 ≤ c.toNat ∧ c.toNat ≤ 57 := by
  simpa [isdigit, UInt8.le_iff_toNat_le] using h

theorem digitsValue_lt {s : ByteString} (digits : ∀ c ∈ s, isdigit c) :
    digitsValue s < 10 ^ s.length := by
  induction s with
  | nil => simp [digitsValue]
  | cons c s ih =>
    obtain ⟨first, others⟩ := List.forall_mem_cons.mp digits
    have small := digit_bounds first
    have below := ih others
    have top : (c.toNat - 48) * 10 ^ s.length ≤ 9 * 10 ^ s.length :=
      Nat.mul_le_mul_right _ (by omega)
    rw [digitsValue_cons, List.length_cons, Nat.pow_succ]
    omega

/-- Digit strings of one length are in the order of their values. -/
theorem lt_iff_digitsValue_lt {u v : ByteString} (same : u.length = v.length)
    (hu : ∀ c ∈ u, isdigit c) (hv : ∀ c ∈ v, isdigit c) :
    u < v ↔ digitsValue u < digitsValue v := by
  induction u generalizing v with
  | nil =>
    rw [List.length_nil] at same
    rw [List.length_eq_zero_iff.mp same.symm]
    simp
  | cons c u ih =>
    obtain ⟨d, v, rfl⟩ :=
      List.exists_cons_of_length_eq_add_one (same.symm.trans List.length_cons)
    obtain ⟨cdigit, hu⟩ := List.forall_mem_cons.mp hu
    obtain ⟨ddigit, hv⟩ := List.forall_mem_cons.mp hv
    have same : u.length = v.length := by simpa using same
    have below := digitsValue_lt hu
    have below' := digitsValue_lt hv
    have c48 := (digit_bounds cdigit).1
    have d48 := (digit_bounds ddigit).1
    rw [List.cons_lt_cons_iff, ih same hu hv, digitsValue_cons, digitsValue_cons, same,
      UInt8.lt_iff_toNat_lt, ← UInt8.toNat_inj]
    rw [same] at below
    obtain lower | equal | higher := Nat.lt_trichotomy c.toNat d.toNat
    · have step : (c.toNat - 48 + 1) * 10 ^ v.length ≤ (d.toNat - 48) * 10 ^ v.length :=
        Nat.mul_le_mul_right _ (by omega)
      rw [Nat.succ_mul] at step
      exact iff_of_true (Or.inl lower) (by omega)
    · rw [equal]
      simp
    · have step : (d.toNat - 48 + 1) * 10 ^ v.length ≤ (c.toNat - 48) * 10 ^ v.length :=
        Nat.mul_le_mul_right _ (by omega)
      rw [Nat.succ_mul] at step
      exact iff_of_false (by omega) (by omega)

theorem eq_iff_digitsValue_eq {u v : ByteString} (same : u.length = v.length)
    (hu : ∀ c ∈ u, isdigit c) (hv : ∀ c ∈ v, isdigit c) :
    u = v ↔ digitsValue u = digitsValue v := by
  constructor
  · exact congrArg digitsValue
  · intro values
    apply List.le_antisymm
    · rw [← List.not_lt, lt_iff_digitsValue_lt same.symm hv hu, values]
      exact lt_irrefl _
    · rw [← List.not_lt, lt_iff_digitsValue_lt same hu hv, values]
      exact lt_irrefl _

theorem stripZeros_digits {s : ByteString} (digits : ∀ c ∈ s, isdigit c) :
    ∀ c ∈ stripZeros s, isdigit c := by
  unfold stripZeros
  dsimp only
  split
  · decide
  · exact fun c mem => digits c ((List.dropWhile_sublist _).subset mem)

/-- Leading zeros add nothing to a value. -/
theorem digitsValue_stripZeros (s : ByteString) :
    digitsValue (stripZeros s) = digitsValue s := by
  have dropped : digitsValue (s.dropWhile (· == chr '0')) = digitsValue s := by
    induction s with
    | nil => rfl
    | cons c s ih =>
      by_cases zero : c = chr '0'
      · have skipped : (c :: s).dropWhile (· == chr '0') = s.dropWhile (· == chr '0') :=
          List.dropWhile_cons_of_pos (by simpa using zero)
        rw [skipped, ih, digitsValue_cons, zero]
        simp [chr]
      · rw [List.dropWhile_cons_of_neg (by simpa using zero)]
  unfold stripZeros
  dsimp only
  split
  · rename_i empty
    rw [← dropped, List.isEmpty_iff.mp empty]
    rfl
  · exact dropped

/-- What is left has no leading zero, unless it is a single one. -/
theorem le_digitsValue_stripZeros {s : ByteString} (digits : ∀ c ∈ s, isdigit c)
    (long : 1 < (stripZeros s).length) :
    10 ^ ((stripZeros s).length - 1) ≤ digitsValue (stripZeros s) := by
  have kept := stripZeros_digits digits
  unfold stripZeros at long kept ⊢
  dsimp only at long kept ⊢
  split at long
  · exact absurd long (by decide)
  · rename_i nonempty
    rw [if_neg nonempty] at kept ⊢
    cases text : s.dropWhile (· == chr '0') with
    | nil => simp [text] at nonempty
    | cons c rest =>
      have first := List.head?_dropWhile_not (· == chr '0') s
      rw [text] at first kept
      have nonzero : c ≠ chr '0' := by simpa using first
      have bounds := digit_bounds (kept c List.mem_cons_self)
      have above : 1 ≤ c.toNat - 48 := by
        have other : c.toNat ≠ 48 := fun h => nonzero (UInt8.toNat_inj.mp h)
        omega
      have top := Nat.mul_le_mul_right (10 ^ rest.length) above
      rw [digitsValue_cons, List.length_cons, Nat.add_sub_cancel]
      omega

theorem stripZeros_ne_nil (s : ByteString) : stripZeros s ≠ [] := by
  unfold stripZeros
  dsimp only
  split
  · decide
  · rename_i nonempty
    simpa using nonempty

/-- A longer number is the larger one. -/
theorem digitsValue_lt_of_length_lt {x y : ByteString} (hx : ∀ c ∈ x, isdigit c)
    (hy : ∀ c ∈ y, isdigit c) (shorter : (stripZeros x).length < (stripZeros y).length) :
    digitsValue x < digitsValue y := by
  have nonempty := List.length_pos_of_ne_nil (stripZeros_ne_nil x)
  have low := le_digitsValue_stripZeros hy (by omega)
  have high := digitsValue_lt (stripZeros_digits hx)
  have power : 10 ^ (stripZeros x).length ≤ 10 ^ ((stripZeros y).length - 1) :=
    Nat.pow_le_pow_right (by decide) (by omega)
  rw [digitsValue_stripZeros] at low high
  omega

/-- **Digit chunks of any length are compared by value.** -/
theorem compareChunks_digits {x y : ByteString} (hx : ∀ c ∈ x, isdigit c)
    (hy : ∀ c ∈ y, isdigit c) :
    compareChunks true true x y = compare (digitsValue x) (digitsValue y) := by
  unfold compareChunks
  simp only [Bool.and_self, if_true]
  split
  · rename_i shorter
    exact (Nat.compare_eq_lt.mpr (digitsValue_lt_of_length_lt hx hy shorter)).symm
  · split
    · rename_i longer
      exact (Nat.compare_eq_gt.mpr (digitsValue_lt_of_length_lt hy hx longer)).symm
    · have same : (stripZeros x).length = (stripZeros y).length := by omega
      have lt := lt_iff_digitsValue_lt same (stripZeros_digits hx) (stripZeros_digits hy)
      have eq := eq_iff_digitsValue_eq same (stripZeros_digits hx) (stripZeros_digits hy)
      rw [digitsValue_stripZeros, digitsValue_stripZeros] at lt eq
      unfold compareBytes compareOfLessAndEq
      simp only [lt, eq]
      rfl

/-! ### The order of two runs -/

instance transCmp_compareBytes : TransCmp compareBytes :=
  Std.TransOrd.compareOfLessAndEq_of_antisymm_of_trans_of_total_of_not_le
    List.le_antisymm List.le_trans List.le_total List.not_le

theorem compareBytes_eq_iff {x y : ByteString} : compareBytes x y = .eq ↔ x = y :=
  compareOfLessAndEq_eq_eq List.le_refl List.not_le

/-- The value of a digit run. -/
def numberOf (run : ByteString) : Nat := if isDigitRun run then digitsValue run else 0

/-- The bytes of any other run. -/
def textOf (run : ByteString) : ByteString := if isDigitRun run then [] else run

/-- The kind decides first, then the value, then the bytes. -/
theorem compareRuns_eq_lex :
    compareRuns = compareLex (compareOn isDigitRun)
      (compareLex (compareOn numberOf) fun x y => compareBytes (textOf x) (textOf y)) := by
  funext x y
  cases hx : isDigitRun x with
  | true =>
    cases hy : isDigitRun y with
    | true =>
      have empty : compareBytes [] [] = .eq := rfl
      simp [compareRuns, compareLex, compareOn, numberOf, textOf, hx, hy, empty]
    | false =>
      have kinds : compare true false = .gt := rfl
      simp [compareRuns, compareLex, compareOn, hx, hy, kinds]
  | false =>
    cases hy : isDigitRun y with
    | true =>
      have kinds : compare false true = .lt := rfl
      simp [compareRuns, compareLex, compareOn, hx, hy, kinds]
    | false => simp [compareRuns, compareLex, compareOn, numberOf, textOf, hx, hy]

instance : TransCmp fun x y => compareBytes (textOf x) (textOf y) where
  eq_swap := transCmp_compareBytes.eq_swap
  isLE_trans := transCmp_compareBytes.isLE_trans

instance : TransCmp compareRuns := by
  rw [compareRuns_eq_lex]
  infer_instance

/-- What the loop computes for two runs is their order. -/
theorem compareChunks_eq {x y : ByteString} (hx : IsRun x) (hy : IsRun y) :
    compareChunks (isDigitRun x) (isDigitRun y) x y = compareRuns x y := by
  unfold compareRuns
  cases kx : isDigitRun x with
  | true =>
    cases ky : isDigitRun y with
    | true =>
      apply compareChunks_digits
      · intro c mem
        rw [hx.uniform c mem, kx]
      · intro c mem
        rw [hy.uniform c mem, ky]
    | false => rfl
  | false =>
    cases ky : isDigitRun y with
    | true => rfl
    | false => rfl

theorem isDigitRun_canonicalRun {x : ByteString} (hx : IsRun x) :
    isDigitRun (canonicalRun x) = isDigitRun x := by
  unfold canonicalRun
  split
  · rename_i kind
    have digits : ∀ c ∈ x, isdigit c := fun c mem => (hx.uniform c mem).trans kind
    have kept := stripZeros_digits digits
    obtain ⟨c, rest, text⟩ := List.exists_cons_of_ne_nil (stripZeros_ne_nil x)
    rw [text] at kept
    rw [text, kind]
    exact kept c List.mem_cons_self
  · rfl

/-- Two runs are equal in the order exactly when they are equal up to leading zeros. -/
theorem compareRuns_eq_iff {x y : ByteString} (hx : IsRun x) (hy : IsRun y) :
    compareRuns x y = .eq ↔ canonicalRun x = canonicalRun y := by
  have kinds : canonicalRun x = canonicalRun y → isDigitRun x = isDigitRun y := by
    intro same
    rw [← isDigitRun_canonicalRun hx, same, isDigitRun_canonicalRun hy]
  rw [← compareChunks_eq hx hy]
  cases kx : isDigitRun x with
  | true =>
    cases ky : isDigitRun y with
    | true =>
      unfold compareChunks canonicalRun
      simp only [kx, ky, Bool.and_self, if_true]
      split
      · rename_i shorter
        exact iff_of_false (by decide) fun same => by simp [same] at shorter
      · split
        · rename_i longer
          exact iff_of_false (by decide) fun same => by simp [same] at longer
        · exact compareBytes_eq_iff
    | false =>
      refine iff_of_false (by simp [compareChunks]) fun same => ?_
      have kind := kinds same
      rw [kx, ky] at kind
      cases kind
  | false =>
    cases ky : isDigitRun y with
    | true =>
      refine iff_of_false (by simp [compareChunks]) fun same => ?_
      have kind := kinds same
      rw [kx, ky] at kind
      cases kind
    | false =>
      unfold compareChunks canonicalRun
      simp only [kx, ky, Bool.and_self, Bool.false_eq_true, if_false, bne_self_eq_false]
      exact compareBytes_eq_iff

/-! ### Whole versions -/

/-- **The comparison is the lexicographic order of the runs.** -/
theorem compareVersionSimple_eq_runs (a b : ByteString) :
    compareVersionSimple a b = List.compareLex compareRuns (runs a) (runs b) := by
  unfold compareVersionSimple
  induction hn : a.length using Nat.strongRecOn generalizing a b with
  | _ n ih =>
    cases a with
    | nil =>
      cases b with
      | nil => exact Loop.run_stop _ rfl
      | cons d b =>
        rw [runs_cons]
        exact Loop.run_stop _ rfl
    | cons c a =>
      cases b with
      | nil =>
        rw [runs_cons]
        exact Loop.run_stop _ rfl
      | cons d b =>
        have chunks := compareChunks_eq (isRun_firstRun c a) (isRun_firstRun d b)
        rw [isDigitRun_firstRun, isDigitRun_firstRun] at chunks
        have turn : compareStep (c :: a, d :: b) =
            if compareRuns (firstRun c a) (firstRun d b) = .eq then
              .inl (afterRun c a, afterRun d b)
            else .inr (compareRuns (firstRun c a) (firstRun d b)) := by
          rw [← chunks]
          rfl
        rw [runs_cons, runs_cons, List.compareLex_cons_cons]
        cases order : compareRuns (firstRun c a) (firstRun d b) with
        | eq =>
          rw [order] at turn
          have shorter : (afterRun c a).length < n := by
            rw [← hn]
            exact Nat.lt_succ_of_le (length_afterRun c a)
          rw [Loop.run_next _ turn]
          exact ih _ shorter _ _ rfl
        | lt =>
          rw [order] at turn
          exact Loop.run_stop _ turn
        | gt =>
          rw [order] at turn
          exact Loop.run_stop _ turn

/-- Lists of runs are equal in the order exactly when they are equal up to leading zeros. -/
theorem compareLex_runs_eq_iff {xs ys : List ByteString} (hx : ∀ x ∈ xs, IsRun x)
    (hy : ∀ y ∈ ys, IsRun y) :
    List.compareLex compareRuns xs ys = .eq ↔ xs.map canonicalRun = ys.map canonicalRun := by
  induction xs generalizing ys with
  | nil => cases ys <;> simp [List.compareLex_nil_nil, List.compareLex_nil_cons]
  | cons x xs ih =>
    cases ys with
    | nil => simp [List.compareLex_cons_nil]
    | cons y ys =>
      obtain ⟨xrun, hx⟩ := List.forall_mem_cons.mp hx
      obtain ⟨yrun, hy⟩ := List.forall_mem_cons.mp hy
      rw [List.compareLex_cons_cons, Ordering.then_eq_eq, compareRuns_eq_iff xrun yrun, ih hx hy,
        List.map_cons, List.map_cons, List.cons.injEq]

/-- **`compareVersionSimple` is a total preorder**: swapping the versions swaps the order,
it is transitive, and two versions are equal exactly if their runs are equal up to leading
zeros. Runs are compared in turn, digit runs of any length by value. -/
theorem compareVersionSimple_preorder :
    (∀ a b, compareVersionSimple b a = (compareVersionSimple a b).swap) ∧
      (∀ a b c, compareVersionSimple a b ≠ .gt → compareVersionSimple b c ≠ .gt →
        compareVersionSimple a c ≠ .gt) ∧
      (∀ a b, compareVersionSimple a b = .eq ↔
        (runs a).map canonicalRun = (runs b).map canonicalRun) ∧
      ∀ a b, compareVersionSimple a b = List.compareLex compareRuns (runs a) (runs b) := by
  refine ⟨fun a b => ?_, fun a b c => ?_, fun a b => ?_, compareVersionSimple_eq_runs⟩
  · rw [compareVersionSimple_eq_runs, compareVersionSimple_eq_runs]
    exact Std.OrientedCmp.eq_swap
  · simp only [compareVersionSimple_eq_runs, ← Ordering.isLE_iff_ne_gt]
    exact TransCmp.isLE_trans
  · rw [compareVersionSimple_eq_runs]
    exact compareLex_runs_eq_iff (isRun_of_mem_runs a) (isRun_of_mem_runs b)

-- A longer digit run is the larger number, and leading zeros do not count.
example : compareVersionSimple (str "1.10-a") (str "1.9-b") = .gt := by decide +kernel

example : compareVersionSimple (str "1.010") (str "01.10") = .eq := by decide +kernel

end Apm.Install
