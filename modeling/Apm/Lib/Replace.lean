import Apm.Lib.Loop
import Apm.Lib.Text

/-!
Replacing the occurrences of one text in another, in place.

`turn` is one turn of the loop: look for the needle from a position on, put the replacement in its
place and go on behind it. The loop ends (`descends_turn`), and what it leaves is the text with
the first occurrence replaced, and behind it the first one again (`replaced_iff`). No occurrence
is left if the replacement cannot be part of one (`Replaced.gone`).
-/

namespace Apm.Lib.Replace

open Apm.Lib.Loop Apm.Lib.Text

variable {α : Type} {needle repl : List α}

/-! ### What is to be done -/

/-- The second text is the first one with the occurrences of the needle replaced, the leftmost
first, and none that overlaps one before. -/
inductive Replaced (needle repl : List α) : List α → List α → Prop
  | none {s : List α} (absent : ¬ needle <:+: s) : Replaced needle repl s s
  | first {before after after' : List α} (leftmost : ¬ needle <:+: before ++ needle.dropLast)
      (rest : Replaced needle repl after after') :
      Replaced needle repl (before ++ (needle ++ after)) (before ++ (repl ++ after'))

/-- The replacement cannot be part of an occurrence of the needle, whatever stands around it. -/
structure Apart (needle repl : List α) : Prop where
  outside : ¬ needle <:+: repl
  inside : ¬ repl <:+: needle
  before : ∀ tail ∈ needle.tails, tail <+: repl → tail = []
  behind : ∀ head ∈ needle.inits, head <:+ repl → head = []

theorem Apart.append (apart : Apart needle repl) {s t : List α} (h : needle <:+: s ++ (repl ++ t)) :
    needle <:+: s ∨ needle <:+: t := by
  rcases List.infix_append_iff_ne_nil.mp h with within | within | ⟨a, b, -, filled, cut, -, start⟩
  · exact .inl within
  · rcases List.infix_append_iff_ne_nil.mp within with
      within | within | ⟨a, b, filled, -, cut, ends, -⟩
    · exact absurd within apart.outside
    · exact .inr within
    · have head : a ∈ needle.inits := (List.mem_inits a needle).mpr (cut ▸ List.prefix_append a b)
      exact absurd (apart.behind a head ends) filled
  · have tail : b <:+ needle := cut ▸ List.suffix_append a b
    rcases List.prefix_or_prefix_of_prefix start (List.prefix_append repl t) with short | long
    · exact absurd (apart.before b ((List.mem_tails b needle).mpr tail) short) filled
    · exact absurd (long.isInfix.trans tail.isInfix) apart.inside

/-- **No occurrence is left.** -/
theorem Replaced.gone (apart : Apart needle repl) {s t : List α} (h : Replaced needle repl s t) :
    ¬ needle <:+: t := by
  induction h with
  | none absent => exact absent
  | first leftmost _ ih =>
    intro occurs
    rcases apart.append occurs with early | late
    · exact leftmost (early.trans List.infix_append_left)
    · exact ih late

/-! ### The loop -/

section Loop

variable [DecidableEq α]

/-- Where the needle stands, from a position on. -/
def findFrom (needle text : List α) (pos : Nat) : Option Nat :=
  (breakOn needle (text.drop pos)).map fun cut => pos + cut.1.length

/-- One turn, with the text so far and the position. -/
def turn (needle repl : List α) (x : List α × Nat) : (List α × Nat) ⊕ List α :=
  match findFrom needle x.1 x.2 with
  | none => .inr x.1
  | some pos =>
      .inl (x.1.take pos ++ repl ++ x.1.drop (pos + needle.length), pos + repl.length)

variable (needle repl) in
theorem turn_none {done rest : List α} (absent : ¬ needle <:+: rest) :
    turn needle repl (done ++ rest, done.length) = .inr (done ++ rest) := by
  unfold turn findFrom
  rw [List.drop_left, breakOn_eq_none_iff.mpr absent]
  rfl

variable (repl) in
theorem turn_some (filled : needle ≠ []) {done before after : List α}
    (leftmost : ¬ needle <:+: before ++ needle.dropLast) :
    turn needle repl (done ++ (before ++ (needle ++ after)), done.length) =
      .inl ((done ++ (before ++ repl)) ++ after, (done ++ (before ++ repl)).length) := by
  have cut := (breakOn_at_iff filled before after).mpr leftmost
  have start : (done ++ (before ++ (needle ++ after))).take (done.length + before.length) =
      done ++ before := by
    rw [← List.append_assoc, ← List.length_append, List.take_left]
  have rest : (done ++ (before ++ (needle ++ after))).drop
      (done.length + before.length + needle.length) = after := by
    rw [← List.append_assoc, ← List.append_assoc, ← List.length_append, ← List.length_append,
      List.drop_left]
  unfold turn findFrom
  rw [List.drop_left, cut]
  dsimp only [Option.map_some]
  rw [start, rest, List.append_assoc done before repl, List.length_append, List.length_append,
    Nat.add_assoc]

/-- The first occurrence in a text, if there is one. -/
theorem exists_leftmost (filled : needle ≠ []) {s : List α} (occurs : needle <:+: s) :
    ∃ before after, s = before ++ (needle ++ after) ∧ ¬ needle <:+: before ++ needle.dropLast := by
  have found : breakOn needle s ≠ none := fun none => breakOn_eq_none_iff.mp none occurs
  obtain ⟨⟨before, behind⟩, cut⟩ := Option.ne_none_iff_exists'.mp found
  obtain ⟨rfl, ⟨after, rfl⟩, -⟩ := breakOn_spec cut
  exact ⟨before, after, rfl, (breakOn_at_iff filled before after).mp cut⟩

variable (repl) in
/-- **The loop ends**: each turn passes an occurrence. -/
theorem descends_turn (filled : needle ≠ []) :
    Descends (fun x : List α × Nat => x.1.length - x.2) (turn needle repl) := by
  rintro ⟨text, pos⟩ x' step
  have size := List.length_pos_of_ne_nil filled
  have within : pos < text.length := by
    by_contra beyond
    have none : ¬ needle <:+: text.drop pos := by
      rw [List.drop_eq_nil_of_le (by omega), List.infix_nil]
      exact filled
    rw [turn, findFrom, breakOn_eq_none_iff.mpr none] at step
    cases step
  obtain ⟨done, rest, rfl, rfl⟩ : ∃ done rest, text = done ++ rest ∧ pos = done.length :=
    ⟨text.take pos, text.drop pos, (List.take_append_drop pos text).symm,
      (List.length_take_of_le within.le).symm⟩
  by_cases occurs : needle <:+: rest
  · obtain ⟨before, after, rfl, leftmost⟩ := exists_leftmost filled occurs
    rw [turn_some repl filled leftmost] at step
    cases step
    simp only [List.length_append]
    omega
  · rw [turn_none needle repl occurs] at step
    cases step

variable (repl) in
/-- What the loop leaves of the text behind the position. -/
theorem replaced_run (filled : needle ≠ []) (done rest : List α) :
    ∃ rest', run (descends_turn repl filled) (done ++ rest, done.length) =
      done ++ rest' ∧ Replaced needle repl rest rest' := by
  induction length : rest.length using Nat.strong_induction_on generalizing done rest with
  | _ n ih =>
    by_cases occurs : needle <:+: rest
    · obtain ⟨before, after, rfl, leftmost⟩ := exists_leftmost filled occurs
      have shorter : after.length < n := by
        have size := List.length_pos_of_ne_nil filled
        rw [← length, List.length_append, List.length_append]
        omega
      obtain ⟨after', result, replaced⟩ := ih _ shorter (done ++ (before ++ repl)) after rfl
      refine ⟨before ++ (repl ++ after'), ?_, .first leftmost replaced⟩
      rw [run_next _ (turn_some repl filled leftmost), result]
      simp only [List.append_assoc]
    · exact ⟨rest, run_stop _ (turn_none needle repl occurs), .none occurs⟩

/-- There is one way to replace the occurrences. -/
theorem Replaced.unique (filled : needle ≠ []) {s t t' : List α} (h : Replaced needle repl s t)
    (h' : Replaced needle repl s t') : t = t' := by
  induction h generalizing t' with
  | none absent =>
    cases h' with
    | none => rfl
    | first => exact absurd ⟨_, _, List.append_assoc _ _ _⟩ absent
  | @first before after after' leftmost rest ih =>
    generalize text : before ++ (needle ++ after) = s at h'
    cases h' with
    | none absent =>
      exact absurd ⟨before, after, (List.append_assoc _ _ _).trans text⟩ absent
    | @first before₂ after₂ after₂' leftmost₂ rest₂ =>
      have cut := (breakOn_at_iff filled before after).mpr leftmost
      rw [text, (breakOn_at_iff filled before₂ after₂).mpr leftmost₂] at cut
      simp only [Option.some.injEq, Prod.mk.injEq, List.append_cancel_left_eq] at cut
      obtain ⟨rfl, rfl⟩ := cut
      rw [ih rest₂]

/-- Replace the occurrences of a needle. -/
def replace (needle repl : List α) (filled : needle ≠ []) (text : List α) : List α :=
  run (descends_turn repl filled) (text, 0)

/-- **The loop replaces the occurrences**, the leftmost first. -/
theorem replaced_iff (filled : needle ≠ []) {s t : List α} :
    Replaced needle repl s t ↔ t = replace needle repl filled s := by
  obtain ⟨result, same, replaced⟩ := replaced_run repl filled [] s
  have whole : replace needle repl filled s = result := same
  rw [whole]
  constructor
  · exact fun h => h.unique filled replaced
  · rintro rfl
    exact replaced

end Loop

end Apm.Lib.Replace
