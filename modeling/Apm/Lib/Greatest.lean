import Mathlib.Data.List.MinMax

/-!
The elements of a list with the greatest key, in their order.

A search from the left that replaces what it has only by an element with a greater key ends with
the first of them (`foldl_closer`).
-/

namespace Apm.Lib.Greatest

variable {α : Type*} (key : α → ℕ)

/-- The elements whose key is the greatest. -/
def greatest (xs : List α) : List α := xs.filter fun x => xs.all fun y => key y ≤ key x

/-- One step of a search. What is found first stays. -/
def closer (best : Option α) (x : α) : Option α :=
  if (best.map key).getD 0 < key x then some x else best

variable {key}

theorem mem_greatest {xs : List α} {x : α} :
    x ∈ greatest key xs ↔ x ∈ xs ∧ ∀ y ∈ xs, key y ≤ key x := by
  simp [greatest]

/-- Two of them have the same key. -/
theorem key_eq {xs : List α} {x y : α} (hx : x ∈ greatest key xs) (hy : y ∈ greatest key xs) :
    key x = key y :=
  le_antisymm ((mem_greatest.mp hy).2 x (mem_greatest.mp hx).1)
    ((mem_greatest.mp hx).2 y (mem_greatest.mp hy).1)

theorem greatest_map {β : Type*} (f : β → α) (xs : List β) :
    greatest key (xs.map f) = (greatest (fun x => key (f x)) xs).map f := by
  simp only [greatest, List.filter_map, List.all_map, Function.comp_def]

/-- The first of them is what `argmax` finds. -/
theorem head?_greatest (xs : List α) : (greatest key xs).head? = xs.argmax key := by
  classical
  cases found : xs.argmax key with
  | none =>
    rw [List.argmax_eq_none.mp found]
    rfl
  | some m =>
    obtain ⟨mem, greater, first⟩ := List.argmax_eq_some_iff.mp found
    obtain ⟨before, after, rfl, fresh⟩ := List.eq_append_cons_of_mem mem
    rw [greatest, List.head?_filter, List.find?_eq_some_iff_append]
    simp only [Bool.not_eq_true', List.all_eq_true, decide_eq_true_eq]
    refine ⟨greater, before, after, rfl, ?_⟩
    intro a here
    by_contra high
    have above : ∀ y ∈ before ++ m :: after, key y ≤ key a := by
      simpa only [Bool.not_eq_false, List.all_eq_true, decide_eq_true_eq] using high
    have order := first a (List.mem_append_left _ here) (above m mem)
    rw [List.idxOf_append_of_notMem fresh, List.idxOf_append_of_mem here, List.idxOf_cons_self]
      at order
    have early := List.idxOf_lt_length_of_mem here
    omega

/-- **A search from the left finds the first of them.** -/
theorem foldl_closer {xs : List α} (pos : ∀ x ∈ xs, 0 < key x) :
    xs.foldl (closer key) none = (greatest key xs).head? := by
  rw [head?_greatest]
  induction xs using List.reverseRecOn with
  | nil => rfl
  | append_singleton xs x ih =>
    rw [List.foldl_concat, ih fun y mem => pos y (List.mem_append_left _ mem),
      List.argmax_concat]
    cases xs.argmax key with
    | none => exact if_pos (pos x List.mem_concat_self)
    | some best => rfl

end Apm.Lib.Greatest
