import Mathlib.Data.List.Basic

/-!
Runs of a machine that takes one step for each event.

`Always` says that a property holds in every state of a run, `EachStep` that every step meets
a condition. An invariant that such steps keep holds throughout (`always_of_eachStep`), and
where no other step keeps the property the two are the same (`always_iff_eachStep`).
-/

namespace Apm.Lib.Run

variable {σ ε : Type*} {step : σ → ε → σ} {s : σ} {events : List ε}

/-- The state after a list of events. -/
def run (step : σ → ε → σ) (s : σ) (events : List ε) : σ := events.foldl step s

/-- Every state of the run, the first and the last included. -/
def Always (step : σ → ε → σ) (P : σ → Prop) : σ → List ε → Prop
  | s, [] => P s
  | s, event :: events => P s ∧ Always step P (step s event) events

/-- Every step of the run, by the state before it. -/
def EachStep (step : σ → ε → σ) (C : σ → ε → Prop) : σ → List ε → Prop
  | _, [] => True
  | s, event :: events => C s event ∧ EachStep step C (step s event) events

/-- A run is checked by evaluation. -/
instance decidableEachStep (step : σ → ε → σ) (C : σ → ε → Prop)
    [∀ s event, Decidable (C s event)] :
    ∀ s events, Decidable (EachStep step C s events)
  | _, [] => .isTrue trivial
  | s, event :: events =>
      have := decidableEachStep step C (step s event) events
      inferInstanceAs (Decidable (C s event ∧ EachStep step C (step s event) events))

variable {P Q inv : σ → Prop} {C : σ → ε → Prop}

theorem Always.head (h : Always step P s events) : P s := by
  cases events with
  | nil => exact h
  | cons event events => exact h.1

theorem Always.last (h : Always step P s events) : P (run step s events) := by
  induction events generalizing s with
  | nil => exact h
  | cons event events ih => exact ih h.2

theorem Always.mono (weaker : ∀ s, P s → Q s) (h : Always step P s events) :
    Always step Q s events := by
  induction events generalizing s with
  | nil => exact weaker s h
  | cons event events ih => exact ⟨weaker s h.1, ih h.2⟩

theorem Always.and (h : Always step P s events) (h' : Always step Q s events) :
    Always step (fun s => P s ∧ Q s) s events := by
  induction events generalizing s with
  | nil => exact ⟨h, h'⟩
  | cons event events ih => exact ⟨⟨h.1, h'.1⟩, ih h.2 h'.2⟩

/-- The invariant rule. -/
theorem always_of_eachStep (keeps : ∀ s event, inv s → C s event → inv (step s event))
    (start : inv s) (h : EachStep step C s events) : Always step inv s events := by
  induction events generalizing s with
  | nil => exact start
  | cons event events ih => exact ⟨start, ih (keeps s event start h.1) h.2⟩

/-- The invariant rule, for steps without a condition. -/
theorem always_of_step (keeps : ∀ s event, inv s → inv (step s event)) (start : inv s) :
    Always step inv s events := by
  induction events generalizing s with
  | nil => exact start
  | cons event events ih => exact ⟨start, ih (keeps s event start)⟩

/-- What a later state inherits to the one before holds throughout, if it holds at the end. -/
theorem always_of_last (back : ∀ s event, P (step s event) → P s)
    (h : P (run step s events)) : Always step P s events := by
  induction events generalizing s with
  | nil => exact h
  | cons event events ih =>
    have rest := ih h
    exact ⟨back s event rest.head, rest⟩

/-- **When a property holds throughout.** If steps that meet the condition keep the invariant,
and every other step breaks the property, then the property holds in every state of a run just
when every step meets the condition. All this may rest on something that always holds. -/
theorem always_iff_eachStep_of (given : Always step Q s events) (holds : ∀ s, inv s → P s)
    (keeps : ∀ s event, inv s → C s event → inv (step s event))
    (breaks : ∀ s event, inv s → Q s → ¬ C s event → ¬ P (step s event)) (start : inv s) :
    Always step P s events ↔ EachStep step C s events := by
  constructor
  · intro h
    induction events generalizing s with
    | nil => trivial
    | cons event events ih =>
      have meets : C s event := by
        by_contra other
        exact breaks s event start given.head other h.2.head
      exact ⟨meets, ih given.2 (keeps s event start meets) h.2⟩
  · intro h
    exact (always_of_eachStep keeps start h).mono holds

theorem always_iff_eachStep (holds : ∀ s, inv s → P s)
    (keeps : ∀ s event, inv s → C s event → inv (step s event))
    (breaks : ∀ s event, inv s → ¬ C s event → ¬ P (step s event)) (start : inv s) :
    Always step P s events ↔ EachStep step C s events :=
  always_iff_eachStep_of (always_of_last (P := fun _ => True) (fun _ _ _ => trivial) trivial)
    holds keeps (fun s event h _ => breaks s event h) start

theorem eachStep_of_forall (h : ∀ s event, C s event) : EachStep step C s events := by
  induction events generalizing s with
  | nil => trivial
  | cons event events ih => exact ⟨h s event, ih⟩

/-- What a condition gives at a step that starts in the invariant. -/
theorem EachStep.of_inv {D : σ → ε → Prop}
    (keeps : ∀ s event, inv s → C s event → inv (step s event))
    (gives : ∀ s event, inv s → C s event → D s event) (start : inv s)
    (h : EachStep step C s events) : EachStep step D s events := by
  induction events generalizing s with
  | nil => trivial
  | cons event events ih => exact ⟨gives s event start h.1, ih (keeps s event start h.1) h.2⟩

theorem EachStep.and {C' : σ → ε → Prop} (h : EachStep step C s events)
    (h' : EachStep step C' s events) :
    EachStep step (fun s event => C s event ∧ C' s event) s events := by
  induction events generalizing s with
  | nil => trivial
  | cons event events ih => exact ⟨⟨h.1, h'.1⟩, ih h.2 h'.2⟩

/-- When a property holds throughout, where every step meets a condition of its own. -/
theorem always_iff_eachStep_given {G : σ → ε → Prop} (given : EachStep step G s events)
    (holds : ∀ s, inv s → P s)
    (keeps : ∀ s event, inv s → G s event → C s event → inv (step s event))
    (breaks : ∀ s event, inv s → G s event → ¬ C s event → ¬ P (step s event)) (start : inv s) :
    Always step P s events ↔ EachStep step C s events := by
  constructor
  · intro h
    induction events generalizing s with
    | nil => trivial
    | cons event events ih =>
      have meets : C s event := by
        by_contra other
        exact breaks s event start given.1 other h.2.head
      exact ⟨meets, ih given.2 (keeps s event start given.1 meets) h.2⟩
  · intro h
    refine (always_of_eachStep ?_ start (given.and h)).mono holds
    exact fun s event inv both => keeps s event inv both.1 both.2

/-- The invariant rule with the events that are over. -/
theorem run_done {step : σ → ε → σ} (inv : List ε → σ → Prop) {s : σ} {events : List ε}
    (turn : ∀ done event rest, events = done ++ event :: rest → ∀ s, inv done s →
      inv (done ++ [event]) (step s event))
    (start : inv [] s) : inv events (run step s events) := by
  induction events generalizing s inv with
  | nil => exact start
  | cons event events ih =>
    refine ih (fun done => inv (event :: done)) (fun done next rest split => ?_)
      (turn [] event events rfl s start)
    exact turn (event :: done) next rest (congrArg (event :: ·) split)

/-- A measure of the states of a run without end that never rises, and that falls again and again
until something holds: then that holds at some time. -/
theorem exists_of_falls (measure : Nat → Nat) (P : Nat → Prop)
    (never_rises : ∀ k, measure (k + 1) ≤ measure k)
    (falls : ∀ k, ∃ j, k ≤ j ∧ (P j ∨ measure (j + 1) < measure j)) (k : Nat) :
    ∃ j, k ≤ j ∧ P j := by
  have later : ∀ {a b}, a ≤ b → measure b ≤ measure a := by
    intro a b le
    induction le with
    | refl => exact Nat.le_refl _
    | step _ ih => exact Nat.le_trans (never_rises _) ih
  induction h : measure k using Nat.strongRecOn generalizing k with
  | _ m ih =>
    obtain ⟨j, le, done | less⟩ := falls k
    · exact ⟨j, le, done⟩
    · obtain ⟨i, le', done⟩ := ih _ (h ▸ Nat.lt_of_lt_of_le less (later le)) (j + 1) rfl
      exact ⟨i, by omega, done⟩

end Apm.Lib.Run
