import Apm.Lib.Loop
import Apm.Lib.Text
import Mathlib.Data.List.Infix
import Mathlib.Data.List.TakeDrop

/-!
Frames in a stream that arrives in chunks.

A frame ends where a terminator first occurs. `drain` cuts the frames of a buffer one by one
and hands each to a receiver, which goes on or stops; a text that is cut in chunks is received
as it would be in one piece (`drain_append`), and a text of frames is received frame by frame
(`drain_frames`).
-/

namespace Apm.Lib.Frames

open Apm.Lib

variable {α σ ρ : Type*} [DecidableEq α]

/-! ### Searching -/

/-- Where the needle first occurs. -/
def find (needle text : List α) : Option Nat := text.tails.findIdx? (needle.isPrefixOf ·)

theorem find_eq_some_iff {needle text : List α} {pos : Nat} :
    find needle text = some pos ↔
      needle <+: text.drop pos ∧ pos ≤ text.length ∧ ∀ i < pos, ¬ needle <+: text.drop i := by
  unfold find
  rw [List.findIdx?_eq_some_iff_getElem]
  simp only [List.getElem_tails, List.isPrefixOf_iff_prefix, List.length_tails]
  constructor
  · rintro ⟨inside, here, before⟩
    exact ⟨here, Nat.lt_succ_iff.mp inside, fun i lower => by simpa using before i lower⟩
  · rintro ⟨here, inside, before⟩
    exact ⟨Nat.lt_succ_of_le inside, here, fun i lower => by simpa using before i lower⟩

theorem find_eq_none_iff {needle text : List α} :
    find needle text = none ↔ ∀ i, i ≤ text.length → ¬ needle <+: text.drop i := by
  unfold find
  rw [List.findIdx?_eq_none_iff]
  simp only [List.mem_tails]
  constructor
  · intro absent i _ occurs
    have := absent (text.drop i) (List.drop_suffix i text)
    simp [List.isPrefixOf_iff_prefix.mpr occurs] at this
  · intro absent tail isTail
    obtain ⟨front, rfl⟩ := isTail
    have := absent front.length (by simp)
    rw [List.drop_left] at this
    rw [Bool.eq_false_iff]
    exact fun occurs => this (List.isPrefixOf_iff_prefix.mp occurs)

/-- The first occurrence stays the first one when the text grows. -/
theorem find_append {needle text : List α} {pos : Nat} (h : find needle text = some pos)
    (rest : List α) : find needle (text ++ rest) = some pos := by
  obtain ⟨here, inside, before⟩ := find_eq_some_iff.mp h
  have room : pos + needle.length ≤ text.length := by
    have := here.length_le
    rw [List.length_drop] at this
    omega
  refine find_eq_some_iff.mpr ⟨?_, ?_, fun i lower occurs => before i lower ?_⟩
  · rw [List.drop_append_of_le_length inside]
    exact here.trans (List.prefix_append _ _)
  · rw [List.length_append]
    omega
  · rw [List.drop_append_of_le_length (by omega)] at occurs
    exact List.prefix_of_prefix_length_le occurs (List.prefix_append _ _)
      (by rw [List.length_drop]; omega)

theorem find_length {needle text : List α} {pos : Nat} (h : find needle text = some pos) :
    pos + needle.length ≤ text.length := by
  obtain ⟨here, inside, -⟩ := find_eq_some_iff.mp h
  have := here.length_le
  rw [List.length_drop] at this
  omega

/-! ### Cutting -/

section Drain

variable {terminator : List α} (receiver : σ → List α → σ ⊕ ρ)

/-- Cut the next frame of the buffer and hand it on. The rest stays when there is none. -/
def drainStep (terminator : List α) (x : σ × List α) :
    (σ × List α) ⊕ (ρ ⊕ (σ × List α)) :=
  match find terminator x.2 with
  | none => .inr (.inr x)
  | some pos =>
      match receiver x.1 (x.2.take (pos + terminator.length)) with
      | .inl s => .inl (s, x.2.drop (pos + terminator.length))
      | .inr r => .inr (.inl r)

theorem drainStep_descends (nonempty : terminator ≠ []) :
    Loop.Descends (fun x => x.2.length) (drainStep receiver terminator) := by
  intro x x' h
  unfold drainStep at h
  split at h
  · cases h
  · rename_i pos found
    split at h
    · cases h
      have room := find_length found
      have := List.length_pos_iff.mpr nonempty
      simp only [List.length_drop]
      omega
    · cases h

variable (nonempty : terminator ≠ [])

/-- Cut frames until the receiver stops or none is left. -/
def drain (x : σ × List α) : ρ ⊕ (σ × List α) :=
  Loop.run (drainStep_descends receiver nonempty) x

theorem drain_none {x : σ × List α} (h : find terminator x.2 = none) :
    drain receiver nonempty x = .inr x :=
  Loop.run_stop _ (by simp [drainStep, h])

theorem drain_some {x : σ × List α} {pos : Nat} (h : find terminator x.2 = some pos) :
    drain receiver nonempty x =
      match receiver x.1 (x.2.take (pos + terminator.length)) with
      | .inl s => drain receiver nonempty (s, x.2.drop (pos + terminator.length))
      | .inr r => .inl r := by
  cases handed : receiver x.1 (x.2.take (pos + terminator.length)) with
  | inl s => exact Loop.run_next _ (by simp [drainStep, h, handed])
  | inr r => exact Loop.run_stop _ (by simp [drainStep, h, handed])

/-- What stays in the buffer has no terminator. -/
theorem drain_rest {x x' : σ × List α} (h : drain receiver nonempty x = .inr x') :
    find terminator x'.2 = none := by
  revert h
  refine Loop.run_invariant (drainStep_descends receiver nonempty) (fun _ => True)
    (fun r => r = .inr x' → find terminator x'.2 = none) (fun _ _ _ _ => trivial) ?_ trivial
  rintro y r - stop rfl
  unfold drainStep at stop
  split at stop
  · rename_i absent
    cases stop
    exact absent
  · split at stop <;> cases stop

/-- **Chunks do not matter**: what is cut before a text grows is cut alike, and the rest goes
on from there. -/
theorem drain_append (x : σ × List α) (rest : List α) :
    drain receiver nonempty (x.1, x.2 ++ rest) =
      match drain receiver nonempty x with
      | .inl r => .inl r
      | .inr x' => drain receiver nonempty (x'.1, x'.2 ++ rest) := by
  induction hm : x.2.length using Nat.strongRecOn generalizing x with
  | _ m ih =>
    cases found : find terminator x.2 with
    | none => rw [drain_none receiver nonempty found]
    | some pos =>
      have room := find_length found
      have shorter : (x.2.drop (pos + terminator.length)).length < m := by
        have := List.length_pos_iff.mpr nonempty
        rw [List.length_drop]
        omega
      rw [drain_some receiver nonempty found,
        drain_some receiver nonempty (x := (x.1, x.2 ++ rest)) (find_append found rest)]
      dsimp only
      rw [List.take_append_of_le_length room, List.drop_append_of_le_length room]
      cases receiver x.1 (x.2.take (pos + terminator.length)) with
      | inl s => exact ih _ shorter (s, x.2.drop (pos + terminator.length)) rfl
      | inr r => rfl

/-! ### Frames -/

/-- The terminator occurs at the end of the frame and nowhere else. -/
def IsFrame (terminator frame : List α) : Prop :=
  ∀ i, terminator <+: frame.drop i ↔ i + terminator.length = frame.length

/-- Hand on frames one by one until the receiver stops. -/
def receiveFrames : List (List α) → σ → ρ ⊕ σ
  | [], s => .inr s
  | frame :: frames, s =>
      match receiver s frame with
      | .inl s => receiveFrames frames s
      | .inr r => .inl r

variable {receiver}

theorem IsFrame.find {frame : List α} (h : IsFrame terminator frame)
    (long : terminator.length ≤ frame.length) (rest : List α) :
    find terminator (frame ++ rest) = some (frame.length - terminator.length) := by
  apply find_append
  refine find_eq_some_iff.mpr ⟨(h _).mpr (by omega), by omega, fun i lower occurs => ?_⟩
  have := (h i).mp occurs
  omega

/-- **A text of frames is received frame by frame.** -/
theorem drain_frames {frames : List (List α)}
    (h : ∀ frame ∈ frames, IsFrame terminator frame ∧ terminator.length ≤ frame.length)
    (s : σ) :
    drain receiver nonempty (s, frames.flatten) =
      match receiveFrames receiver frames s with
      | .inl r => .inl r
      | .inr s' => .inr (s', []) := by
  induction frames generalizing s with
  | nil =>
    apply drain_none
    rw [find_eq_none_iff]
    intro i _ occurs
    exact nonempty (by simpa using occurs)
  | cons frame frames ih =>
    obtain ⟨⟨isFrame, long⟩, others⟩ := List.forall_mem_cons.mp h
    rw [List.flatten_cons, drain_some receiver nonempty (isFrame.find long _)]
    have cut : frame.length - terminator.length + terminator.length = frame.length := by omega
    dsimp only
    rw [cut, List.take_left, List.drop_left, receiveFrames]
    cases receiver s frame with
    | inl s' => exact ih others s'
    | inr r => rfl

end Drain

/-! ### Blocks of lines -/

section Lines

variable {d : α}

omit [DecidableEq α] in
/-- A doubled delimiter does not begin in a text without delimiters. -/
theorem double_prefix_drop {l : List α} (h : d ∉ l) (s : List α) (i : Nat) :
    [d, d] <+: (l ++ s).drop i ↔ l.length ≤ i ∧ [d, d] <+: s.drop (i - l.length) := by
  by_cases inside : i < l.length
  · have : ¬ [d, d] <+: (l ++ s).drop i := by
      rw [List.drop_append_of_le_length (Nat.le_of_lt inside), List.drop_eq_getElem_cons inside,
        List.cons_append, List.cons_prefix_cons]
      rintro ⟨same, -⟩
      exact h (same ▸ List.getElem_mem inside)
    simp only [this, false_iff, not_and]
    omega
  · rw [List.drop_append, List.drop_eq_nil_of_le (by omega), List.nil_append]
    simp only [show l.length ≤ i by omega, true_and]

omit [DecidableEq α] in
/-- **Nonempty lines and an empty one** are a frame that ends with the doubled delimiter. -/
theorem isFrame_unlines {lines : List (List α)} (nonempty : lines ≠ [])
    (h : ∀ l ∈ lines, l ≠ [] ∧ d ∉ l) : IsFrame [d, d] (Text.unlines d lines ++ [d]) := by
  induction lines with
  | nil => exact absurd rfl nonempty
  | cons l rest ih =>
    obtain ⟨⟨-, free⟩, others⟩ := List.forall_mem_cons.mp h
    have text : Text.unlines d (l :: rest) ++ [d] = l ++ d :: (Text.unlines d rest ++ [d]) := by
      simp [Text.unlines]
    intro i
    rw [text, double_prefix_drop free, List.length_append, List.length_cons]
    by_cases before : i < l.length
    · simp only [show ¬ l.length ≤ i by omega, false_and, false_iff, List.length_cons,
        List.length_append]
      omega
    obtain ⟨j, rfl⟩ := Nat.exists_eq_add_of_le (Nat.le_of_not_lt before)
    rw [Nat.add_sub_cancel_left]
    simp only [Nat.le_add_right, true_and]
    cases rest with
    | nil =>
      cases j with
      | zero => simp [Text.unlines]
      | succ j => cases j <;> simp [Text.unlines]
    | cons l' rest =>
      obtain ⟨⟨filled, free'⟩, -⟩ := List.forall_mem_cons.mp others
      cases j with
      | zero =>
        obtain ⟨c, t, rfl⟩ := List.exists_cons_of_ne_nil filled
        have : d ≠ c := fun same => free' (same ▸ List.mem_cons_self)
        simp [Text.unlines, this]
      | succ j =>
        rw [List.drop_succ_cons, ih (List.cons_ne_nil _ _) others j]
        simp only [List.length_append, List.length_cons, List.length_nil]
        omega

end Lines

end Apm.Lib.Frames
