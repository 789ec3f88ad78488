import Mathlib.Data.Set.Finite.Basic
import Mathlib.Logic.Relation
import Mathlib.Order.WellFounded

/-!
Removing what nothing needs, one element after the other.

An element of a set is loose when it may be dropped and no other element of the set needs
it. `Peels` removes one loose element. Whatever the order, the removals end in the same set
(`peeled_unique`); on a finite set without cycles of need, what is left is what the elements
that may not be dropped need, directly or not (`peeled_eq_anchored`).
-/

namespace Apm.Lib.Peel

open Relation

variable {α : Type*} {needs : α → α → Prop} {drops : α → Prop} {S S' T T' : Set α} {a b : α}

/-- An element that may be dropped and that no other element needs. -/
structure Loose (needs : α → α → Prop) (drops : α → Prop) (S : Set α) (a : α) : Prop where
  mem : a ∈ S
  drops : drops a
  free : ∀ b ∈ S, b ≠ a → ¬ needs b a

/-- Remove one loose element. -/
def Peels (needs : α → α → Prop) (drops : α → Prop) (S T : Set α) : Prop :=
  ∃ a, Loose needs drops S a ∧ T = S \ {a}

/-- Nothing is loose. -/
def Firm (needs : α → α → Prop) (drops : α → Prop) (S : Set α) : Prop :=
  ∀ a, ¬ Loose needs drops S a

/-- Removals that end with nothing loose. -/
def PeelsTo (needs : α → α → Prop) (drops : α → Prop) (S T : Set α) : Prop :=
  ReflTransGen (Peels needs drops) S T ∧ Firm needs drops T

/-- What is loose stays loose. -/
theorem Loose.mono (h : Loose needs drops S a) (sub : T ⊆ S) (mem : a ∈ T) :
    Loose needs drops T a :=
  ⟨mem, h.drops, fun b hb => h.free b (sub hb)⟩

theorem peeled_subset (h : ReflTransGen (Peels needs drops) S T) : T ⊆ S := by
  induction h with
  | refl => exact subset_rfl
  | tail _ peels ih =>
    obtain ⟨a, -, rfl⟩ := peels
    exact Set.sdiff_subset.trans ih

/-- Only elements that may be dropped are removed. -/
theorem drops_of_peeled (h : ReflTransGen (Peels needs drops) S T) (mem : a ∈ S) (gone : a ∉ T) :
    drops a := by
  induction h with
  | refl => exact absurd mem gone
  | @tail T T' _ peels ih =>
    obtain ⟨b, loose, rfl⟩ := peels
    by_cases there : a ∈ T
    · have same : a = b := by
        by_contra other
        exact gone ⟨there, other⟩
      exact same ▸ loose.drops
    · exact ih there

/-- Loose elements can be removed one after the other. -/
theorem peels_list {l : List α} (nodup : l.Nodup) (loose : ∀ a ∈ l, Loose needs drops S a) :
    ReflTransGen (Peels needs drops) S (S \ {a | a ∈ l}) := by
  induction l using List.reverseRecOn with
  | nil =>
    have none : S \ {a | a ∈ ([] : List α)} = S := by simp
    rw [none]
  | append_singleton l a ih =>
    have apart : a ∉ l := by
      have := List.nodup_append.mp nodup
      exact fun mem => this.2.2 a mem a (List.mem_singleton_self a) rfl
    have first := ih (nodup.sublist (List.sublist_append_left _ _)) fun b hb =>
      loose b (List.mem_append_left _ hb)
    have last := loose a (List.mem_append_right _ (List.mem_singleton_self a))
    apply first.tail
    refine ⟨a, last.mono Set.sdiff_subset ⟨last.mem, apart⟩, ?_⟩
    ext b
    simp only [List.mem_append, List.mem_singleton, Set.mem_sdiff, Set.mem_ofPred_eq,
      Set.mem_singleton_iff, not_or]
    tauto

/-! ### One result -/

/-- A firm part is never removed. -/
theorem Firm.subset_of_peeled (firm : Firm needs drops T) (sub : T ⊆ S)
    (h : ReflTransGen (Peels needs drops) S S') : T ⊆ S' := by
  induction h with
  | refl => exact sub
  | tail _ peels ih =>
    obtain ⟨a, loose, rfl⟩ := peels
    intro b hb
    constructor
    · exact ih hb
    · rintro rfl
      exact firm b (loose.mono ih hb)

/-- **The order of the removals does not matter.** -/
theorem peeled_unique (h : PeelsTo needs drops S T) (h' : PeelsTo needs drops S T') : T = T' :=
  Set.Subset.antisymm (h.2.subset_of_peeled (peeled_subset h.1) h'.1)
    (h'.2.subset_of_peeled (peeled_subset h'.1) h.1)

/-! ### What is left -/

/-- One element of the set needs another one. -/
def Within (needs : α → α → Prop) (S : Set α) (a b : α) : Prop :=
  a ∈ S ∧ b ∈ S ∧ a ≠ b ∧ needs a b

/-- What an element that may not be dropped needs, directly or not. -/
def Anchored (needs : α → α → Prop) (drops : α → Prop) (S : Set α) : Set α :=
  {a | ∃ root ∈ S, ¬ drops root ∧ ReflTransGen (Within needs S) root a}

/-- Nothing needs itself through others. -/
def Acyclic (needs : α → α → Prop) (S : Set α) : Prop :=
  ∀ a, ¬ TransGen (Within needs S) a a

theorem anchored_subset : Anchored needs drops S ⊆ S := by
  rintro a ⟨root, mem, -, path⟩
  rcases path.cases_tail with rfl | ⟨b, -, within⟩
  · exact mem
  · exact within.2.1

theorem anchored_firm : Firm needs drops (Anchored needs drops S) := by
  intro a loose
  obtain ⟨root, mem, keeps, path⟩ := loose.mem
  rcases path.cases_tail with rfl | ⟨b, before, within⟩
  · exact keeps loose.drops
  · exact loose.free b ⟨root, mem, keeps, before⟩ within.2.2.1 within.2.2.2

theorem acyclic_wellFounded (finite : S.Finite) (acyclic : Acyclic needs S) :
    WellFounded (Within needs S) := by
  have irrefl : Std.Irrefl (TransGen (Within needs S)) := ⟨acyclic⟩
  have : Finite S := finite
  have onSet : WellFounded fun a b : S => TransGen (Within needs S) a b :=
    Finite.wellFounded_of_trans_of_irrefl _
  constructor
  intro a
  by_cases mem : a ∈ S
  · generalize same : (⟨a, mem⟩ : S) = x
    induction x using onSet.induction generalizing a with
    | _ x ih =>
      subst same
      constructor
      intro b within
      exact ih ⟨b, within.1⟩ (.single within) b within.1 rfl
  · constructor
    intro b within
    exact absurd within.2.1 mem

/-- **Without cycles, what is left is what the anchors need.** -/
theorem peeled_eq_anchored (finite : S.Finite) (acyclic : Acyclic needs S)
    (h : PeelsTo needs drops S T) : T = Anchored needs drops S := by
  apply Set.Subset.antisymm
  · intro a mem
    induction a using (acyclic_wellFounded finite acyclic).induction with
    | _ a ih =>
      have sub := peeled_subset h.1
      by_cases may : drops a
      · by_cases free : ∀ b ∈ T, b ≠ a → ¬ needs b a
        · exact absurd ⟨mem, may, free⟩ (h.2 a)
        · push Not at free
          obtain ⟨b, there, other, need⟩ := free
          have within : Within needs S b a := ⟨sub there, sub mem, other, need⟩
          obtain ⟨root, inside, keeps, path⟩ := ih b within there
          exact ⟨root, inside, keeps, path.tail within⟩
      · exact ⟨a, sub mem, may, .refl⟩
  · exact anchored_firm.subset_of_peeled anchored_subset h.1

end Apm.Lib.Peel
