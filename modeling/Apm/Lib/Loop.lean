import Mathlib.Data.List.Basic

/-!
Loops with a measure.

A loop body either goes on with a new state or stops with a result. `iterate` runs
it with fuel; a body whose measure goes down never runs out (`iterate_eq_run`), so
`run` is the loop itself, with its unfolding equations and its invariant rule.
-/

namespace Apm.Lib.Loop

variable {σ ρ : Type*}

/-- Run the body until it stops. `none` means out of fuel. -/
def iterate (body : σ → σ ⊕ ρ) : Nat → σ → Option ρ
  | 0, _ => none
  | fuel + 1, s =>
      match body s with
      | .inl s' => iterate body fuel s'
      | .inr r => some r

/-- Every turn that goes on lowers the measure. -/
def Descends (measure : σ → Nat) (body : σ → σ ⊕ ρ) : Prop :=
  ∀ s s', body s = .inl s' → measure s' < measure s

variable {measure : σ → Nat} {body : σ → σ ⊕ ρ} (descends : Descends measure body)

include descends

/-- **A descending loop ends**, with a result that does not depend on the fuel. -/
theorem iterate_total (s : σ) :
    ∃ r, ∀ fuel, measure s < fuel → iterate body fuel s = some r := by
  induction hm : measure s using Nat.strongRecOn generalizing s with
  | _ m ih =>
    cases hb : body s with
    | inr r =>
      refine ⟨r, fun fuel enough => ?_⟩
      obtain ⟨fuel, rfl⟩ := Nat.exists_eq_add_of_lt enough
      rw [iterate, hb]
    | inl s' =>
      have lower := descends s s' hb
      obtain ⟨r, hr⟩ := ih (measure s') (hm ▸ lower) s' rfl
      refine ⟨r, fun fuel enough => ?_⟩
      obtain ⟨fuel, rfl⟩ := Nat.exists_eq_add_of_lt enough
      rw [iterate, hb]
      exact hr _ (by omega)

theorem iterate_isSome (s : σ) : (iterate body (measure s + 1) s).isSome := by
  obtain ⟨r, hr⟩ := iterate_total descends s
  simp [hr _ (Nat.lt_succ_self _)]

/-- The result of a descending loop. -/
def run (s : σ) : ρ := (iterate body (measure s + 1) s).get (iterate_isSome descends s)

theorem iterate_eq_run {fuel : Nat} {s : σ} (enough : measure s < fuel) :
    iterate body fuel s = some (run descends s) := by
  obtain ⟨r, hr⟩ := iterate_total descends s
  simp only [run, hr fuel enough, hr _ (Nat.lt_succ_self _), Option.get_some]

theorem run_next {s s' : σ} (h : body s = .inl s') : run descends s = run descends s' := by
  have lower := descends s s' h
  refine Option.some.inj ?_
  rw [← iterate_eq_run descends (Nat.lt_succ_self (measure s)), iterate, h]
  exact iterate_eq_run descends lower

theorem run_stop {s : σ} {r : ρ} (h : body s = .inr r) : run descends s = r := by
  refine Option.some.inj ?_
  rw [← iterate_eq_run descends (Nat.lt_succ_self (measure s)), iterate, h]

/-- **The invariant rule.** What every turn keeps holds when the loop stops. -/
theorem run_invariant (inv : σ → Prop) (post : ρ → Prop)
    (next : ∀ s s', inv s → body s = .inl s' → inv s')
    (stop : ∀ s r, inv s → body s = .inr r → post r) {s : σ} (h : inv s) :
    post (run descends s) := by
  induction hm : measure s using Nat.strongRecOn generalizing s with
  | _ m ih =>
    cases hb : body s with
    | inr r => exact run_stop descends hb ▸ stop s r h hb
    | inl s' =>
      rw [run_next descends hb]
      exact ih (measure s') (hm ▸ descends s s' hb) (next s s' h hb) rfl

end Apm.Lib.Loop
