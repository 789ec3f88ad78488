import Mathlib.Data.List.DropRight
import Mathlib.Data.List.TakeWhile
import Mathlib.Data.List.Infix

/-!
Texts over any alphabet: lines, blanks at the ends, and encodings symbol by symbol.

A text of lines that all end in the delimiter splits back into them. An encoding that maps
blanks to blanks, and every other symbol to a text without blanks at its ends, commutes with
removing blanks.
-/

namespace Apm.Lib.Text

variable {α β : Type*}

/-! ### Lines -/

section Lines

variable [DecidableEq α] {d : α}

/-- The lines, each with the delimiter behind it. -/
def unlines (d : α) (lines : List (List α)) : List α := lines.flatMap (· ++ [d])

/-- Lines without the delimiter are what splitting at it gives back. -/
theorem splitOn_unlines {lines : List (List α)} (h : ∀ l ∈ lines, d ∉ l) (rest : List α) :
    (unlines d lines ++ rest).splitOn d = lines ++ rest.splitOn d := by
  induction lines with
  | nil => rfl
  | cons l lines ih =>
    obtain ⟨first, others⟩ := List.forall_mem_cons.mp h
    have text : unlines d (l :: lines) ++ rest = l ++ d :: (unlines d lines ++ rest) := by
      simp [unlines]
    rw [text, List.splitOn_append_cons_self_of_not_mem first, ih others, List.cons_append]

omit [DecidableEq α] in
/-- Lines end in the delimiter. -/
theorem getLast?_unlines {lines : List (List α)} (nonempty : lines ≠ []) :
    (unlines d lines).getLast? = some d := by
  obtain ⟨init, last, rfl⟩ := List.eq_nil_or_concat' lines |>.resolve_left nonempty
  rw [unlines, List.flatMap_append, List.flatMap_singleton, ← List.append_assoc,
    List.getLast?_concat]

/-- A text is some lines, each with the delimiter behind it, and a rest without it. -/
theorem exists_lines (d : α) (s : List α) :
    ∃ lines last, s = unlines d lines ++ last ∧ (∀ l ∈ lines, d ∉ l) ∧ d ∉ last := by
  induction length : s.length using Nat.strong_induction_on generalizing s with
  | _ n ih =>
    by_cases there : d ∈ s
    · obtain ⟨first, rest, rfl, clean⟩ := List.eq_append_cons_of_mem there
      have shorter : rest.length < n := by
        rw [← length, List.length_append, List.length_cons]
        omega
      obtain ⟨lines, last, rfl, all, lastClean⟩ := ih rest.length shorter rest rfl
      refine ⟨first :: lines, last, ?_, List.forall_mem_cons.mpr ⟨clean, all⟩, lastClean⟩
      simp [unlines]
    · exact ⟨[], s, rfl, nofun, there⟩

/-- The pieces of a text, each with the delimiter behind it. -/
theorem unlines_splitOn (d : α) (s : List α) : unlines d (s.splitOn d) = s ++ [d] := by
  obtain ⟨lines, last, rfl, clean, lastClean⟩ := exists_lines d s
  rw [splitOn_unlines clean, List.splitOn_eq_singleton lastClean, unlines, List.flatMap_append,
    List.flatMap_singleton, List.append_assoc]
  rfl

/-- No piece of a text has the delimiter. -/
theorem not_mem_of_mem_splitOn {s piece : List α} (h : piece ∈ s.splitOn d) : d ∉ piece := by
  obtain ⟨lines, last, rfl, clean, lastClean⟩ := exists_lines d s
  rw [splitOn_unlines clean, List.splitOn_eq_singleton lastClean, List.mem_append,
    List.mem_singleton] at h
  rcases h with h | rfl
  · exact clean piece h
  · exact lastClean

/-- What is in a piece is in the text. -/
theorem mem_of_mem_splitOn {s piece : List α} (h : piece ∈ s.splitOn d) {c : α}
    (mem : c ∈ piece) : c ∈ s := by
  obtain ⟨lines, last, rfl, clean, lastClean⟩ := exists_lines d s
  rw [splitOn_unlines clean, List.splitOn_eq_singleton lastClean, List.mem_append,
    List.mem_singleton] at h
  rcases h with h | rfl
  · apply List.mem_append_left
    exact List.mem_flatMap.mpr ⟨piece, h, List.mem_append_left _ mem⟩
  · exact List.mem_append_right _ mem

end Lines

/-! ### Occurrences -/

section Occurrences

variable [DecidableEq α] {needle : List α} {d : α}

/-- Cut the text before the first occurrence of a needle. -/
def breakOn (needle : List α) : List α → Option (List α × List α)
  | [] => if needle.isEmpty then some ([], []) else none
  | c :: s =>
      if needle.isPrefixOf (c :: s) then some ([], c :: s)
      else (breakOn needle s).map fun x => (c :: x.1, x.2)

theorem breakOn_here {s : List α} (h : needle <+: s) : breakOn needle s = some ([], s) := by
  cases s with
  | nil => rw [breakOn, List.prefix_nil.mp h, if_pos List.isEmpty_nil]
  | cons c s => rw [breakOn, if_pos (List.isPrefixOf_iff_prefix.mpr h)]

/-- What is cut off starts with the needle, and there is none before. -/
theorem breakOn_spec {s before after : List α} (h : breakOn needle s = some (before, after)) :
    s = before ++ after ∧ needle <+: after ∧ (needle ≠ [] → ¬ needle <:+: before) := by
  induction s generalizing before with
  | nil =>
    unfold breakOn at h
    split at h
    · rename_i empty
      cases h
      rw [List.isEmpty_iff.mp empty]
      exact ⟨rfl, List.prefix_refl _, fun nonempty => (nonempty rfl).elim⟩
    · cases h
  | cons c s ih =>
    unfold breakOn at h
    split at h
    · rename_i here
      cases h
      refine ⟨rfl, List.isPrefixOf_iff_prefix.mp here, fun nonempty within => ?_⟩
      exact nonempty (List.infix_nil.mp within)
    · rename_i notHere
      obtain ⟨⟨before', after'⟩, later, same⟩ := Option.map_eq_some_iff.mp h
      cases same
      obtain ⟨rfl, starts, none⟩ := ih later
      refine ⟨rfl, starts, fun nonempty within => ?_⟩
      rcases List.infix_cons_iff.mp within with first | rest
      · apply notHere
        rw [List.isPrefixOf_iff_prefix, ← List.cons_append]
        exact first.trans (List.prefix_append _ _)
      · exact none nonempty rest

/-- What has no first symbol of the needle is passed over. -/
theorem breakOn_append_of_notMem {rest s : List α} (h : d ∉ s) (t : List α) :
    breakOn (d :: rest) (s ++ t) = (breakOn (d :: rest) t).map fun x => (s ++ x.1, x.2) := by
  induction s with
  | nil => simp
  | cons c s ih =>
    have differs : d ≠ c := fun same => h (same ▸ List.mem_cons_self)
    have notHere : (d :: rest).isPrefixOf (c :: (s ++ t)) = false := by
      simp [List.isPrefixOf, differs]
    rw [List.cons_append, breakOn, notHere, if_neg Bool.false_ne_true,
      ih fun mem => h (List.mem_cons_of_mem _ mem), Option.map_map]
    rfl

/-- Nothing is cut behind an occurrence. -/
theorem breakOn_first {s t before after : List α} (starts : needle <+: t)
    (h : breakOn needle (s ++ t) = some (before, after)) : before <+: s := by
  induction s generalizing before with
  | nil =>
    rw [List.nil_append, breakOn_here starts] at h
    cases h
    exact List.prefix_refl _
  | cons c s ih =>
    rw [List.cons_append] at h
    unfold breakOn at h
    split at h
    · cases h
      exact List.nil_prefix
    · obtain ⟨x, later, same⟩ := Option.map_eq_some_iff.mp h
      cases same
      exact (List.prefix_cons_inj c).mpr (ih later)

theorem breakOn_eq_none_iff {s : List α} : breakOn needle s = none ↔ ¬ needle <:+: s := by
  induction s with
  | nil => cases needle <;> simp [breakOn]
  | cons c s ih =>
    rw [breakOn, List.infix_cons_iff, ← List.isPrefixOf_iff_prefix]
    split
    · rename_i here
      simp [here]
    · rename_i notHere
      simp [notHere, ih]

/-- The text is cut before an occurrence if and only if none begins earlier. -/
theorem breakOn_at_iff (filled : needle ≠ []) (s t : List α) :
    breakOn needle (s ++ (needle ++ t)) = some (s, needle ++ t) ↔
      ¬ needle <:+: s ++ needle.dropLast := by
  have size := List.length_pos_of_ne_nil filled
  constructor
  · rintro cut ⟨u, v, earlier⟩
    have shorter : u.length < s.length := by
      have lengths := congrArg List.length earlier
      simp only [List.length_append, List.length_dropLast] at lengths
      omega
    have text : s ++ (needle ++ t) = u ++ (needle ++ (v ++ needle.getLast filled :: t)) := by
      have whole := List.dropLast_append_getLast filled
      calc s ++ (needle ++ t) = s ++ (needle.dropLast ++ [needle.getLast filled] ++ t) := by
            rw [whole]
        _ = (s ++ needle.dropLast) ++ needle.getLast filled :: t := by simp
        _ = u ++ (needle ++ (v ++ needle.getLast filled :: t)) := by
            rw [← earlier]
            simp
    rw [text] at cut
    have first := (breakOn_first (List.prefix_append _ _) cut).length_le
    omega
  · intro alone
    have occurs : breakOn needle (s ++ (needle ++ t)) ≠ none := by
      rw [ne_eq, breakOn_eq_none_iff, not_not]
      exact ⟨s, t, List.append_assoc _ _ _⟩
    obtain ⟨⟨before, after⟩, cut⟩ := Option.ne_none_iff_exists'.mp occurs
    obtain ⟨split, starts, -⟩ := breakOn_spec cut
    obtain ⟨rest, rfl⟩ := breakOn_first (List.prefix_append _ _) cut
    rw [List.append_assoc, List.append_cancel_left_eq] at split
    cases rest with
    | nil =>
      rw [cut, ← split]
      simp
    | cons c rest =>
      have within : c :: rest ++ needle.dropLast <+: after := by
        rw [← split]
        exact (List.prefix_append_right_inj _).mpr
          ((List.dropLast_prefix needle).trans (List.prefix_append _ _))
      have begins : needle <+: c :: rest ++ needle.dropLast := by
        apply List.prefix_of_prefix_length_le starts within
        simp only [List.length_append, List.length_cons, List.length_dropLast]
        omega
      rw [List.append_assoc] at alone
      exact absurd (begins.isInfix.trans (List.suffix_append _ _).isInfix) alone

omit [DecidableEq α]

/-- A prefix without the delimiter ends before it. -/
theorem prefix_of_prefix_cons (clean : d ∉ needle) {s t : List α} (h : needle <+: s ++ d :: t) :
    needle <+: s := by
  have upTo : s ++ [d] <+: s ++ d :: t := ⟨t, by simp⟩
  rcases List.prefix_or_prefix_of_prefix h upTo with short | long
  · rcases List.prefix_concat_iff.mp short with rfl | inside
    · exact absurd (by simp) clean
    · exact inside
  · exact absurd (long.subset (by simp)) clean

/-- An occurrence without the delimiter is on one side of it. -/
theorem infix_of_infix_cons (clean : d ∉ needle) {s t : List α} (h : needle <:+: s ++ d :: t) :
    needle <:+: s ∨ needle <:+: t := by
  induction s with
  | nil =>
    rcases List.infix_cons_iff.mp h with first | rest
    · exact .inl (prefix_of_prefix_cons (s := []) clean first).isInfix
    · exact .inr rest
  | cons c s ih =>
    rcases List.infix_cons_iff.mp h with first | rest
    · exact .inl (prefix_of_prefix_cons (s := c :: s) clean first).isInfix
    · rcases ih rest with inside | behind
      · exact .inl (List.infix_cons inside)
      · exact .inr behind

/-- An occurrence without the delimiter is in one of the lines. -/
theorem exists_of_infix_unlines (clean : d ∉ needle) (nonempty : needle ≠ [])
    {lines : List (List α)} (h : needle <:+: unlines d lines) :
    ∃ line ∈ lines, needle <:+: line := by
  induction lines with
  | nil => exact (nonempty (List.infix_nil.mp h)).elim
  | cons line lines ih =>
    have text : unlines d (line :: lines) = line ++ d :: unlines d lines := by simp [unlines]
    rw [text] at h
    rcases infix_of_infix_cons clean h with first | later
    · exact ⟨line, List.mem_cons_self, first⟩
    · obtain ⟨line', mem, inside⟩ := ih later
      exact ⟨line', List.mem_cons_of_mem _ mem, inside⟩

/-- A piece of a text occurs in it. -/
theorem infix_of_mem_splitOn [DecidableEq α] {s piece : List α} (h : piece ∈ s.splitOn d) :
    piece <:+: s := by
  obtain ⟨lines, last, rfl, clean, lastClean⟩ := exists_lines d s
  rw [splitOn_unlines clean, List.splitOn_eq_singleton lastClean, List.mem_append,
    List.mem_singleton] at h
  rcases h with h | rfl
  · obtain ⟨before, after, rfl⟩ := List.append_of_mem h
    exact ⟨unlines d before, d :: unlines d after ++ last, by simp [unlines]⟩
  · exact (List.suffix_append _ _).isInfix

end Occurrences

/-! ### Blanks at the ends -/

section Strip

variable (p : α → Bool)

/-- Remove what fits at both ends. -/
def strip (s : List α) : List α := (s.dropWhile p).rdropWhile p

variable {p}

/-- Nothing that fits stands at an end. -/
def Bare (p : α → Bool) (s : List α) : Prop :=
  (∀ c ∈ s.head?, ¬ p c) ∧ ∀ c ∈ s.getLast?, ¬ p c

theorem dropWhile_eq_self_of_head {s : List α} (h : ∀ c ∈ s.head?, ¬ p c) :
    s.dropWhile p = s := by
  cases s with
  | nil => rfl
  | cons c s => exact List.dropWhile_cons_of_neg (h c rfl)

theorem head_of_dropWhile {s : List α} {c : α} (h : c ∈ (s.dropWhile p).head?) : ¬ p c := by
  induction s with
  | nil => cases h
  | cons b s ih =>
    by_cases fits : p b
    · rw [List.dropWhile_cons_of_pos fits] at h
      exact ih h
    · rw [List.dropWhile_cons_of_neg fits] at h
      cases h
      exact fits

theorem rdropWhile_eq_self_of_last {s : List α} (h : ∀ c ∈ s.getLast?, ¬ p c) :
    s.rdropWhile p = s := by
  rw [List.rdropWhile_eq_self_iff]
  intro nonempty
  exact h _ (List.getLast?_eq_some_getLast nonempty)

theorem Bare.strip {s : List α} (h : Bare p s) : strip p s = s := by
  rw [Text.strip, dropWhile_eq_self_of_head h.1, rdropWhile_eq_self_of_last h.2]

theorem strip_bare (s : List α) : Bare p (strip p s) := by
  constructor
  · intro c first
    have : c ∈ (s.dropWhile p).head? := by
      obtain ⟨rest, whole⟩ := List.rdropWhile_prefix p (s.dropWhile p)
      cases hs : (s.dropWhile p).rdropWhile p with
      | nil => simp [strip, hs] at first
      | cons b t =>
        simp only [strip, hs, List.head?_cons, Option.mem_def, Option.some.injEq] at first
        subst first
        rw [← whole, hs]
        rfl
    exact head_of_dropWhile this
  · intro c last
    by_cases empty : strip p s = []
    · rw [empty] at last
      cases last
    · rw [List.getLast?_eq_some_getLast empty, Option.mem_some_iff] at last
      exact last ▸ List.rdropWhile_last_not p _ empty

theorem rdropWhile_append_of_forall {t : List α} (h : ∀ c ∈ t, p c) (s : List α) :
    (s ++ t).rdropWhile p = s.rdropWhile p := by
  rw [List.rdropWhile, List.rdropWhile, List.reverse_append,
    List.dropWhile_append_of_pos fun c mem => h c (List.mem_reverse.mp mem)]

/-- Blanks at the end make no difference. -/
theorem strip_append_of_forall {t : List α} (h : ∀ c ∈ t, p c) (s : List α) :
    strip p (s ++ t) = strip p s := by
  unfold strip
  by_cases blank : ∀ c ∈ s, p c
  · rw [List.dropWhile_append_of_pos blank, List.dropWhile_eq_nil_iff.mpr h,
      List.dropWhile_eq_nil_iff.mpr blank]
  · obtain ⟨c, mem, other⟩ := not_forall.mp blank |>.imp fun c h => Classical.not_imp.mp h
    have stays : (s.dropWhile p).isEmpty = false := by
      rw [List.isEmpty_eq_false_iff]
      intro empty
      exact other (List.dropWhile_eq_nil_iff.mp empty c mem)
    rw [List.dropWhile_append, stays, if_neg Bool.false_ne_true, rdropWhile_append_of_forall h]

/-- Blanks in front make no difference. -/
theorem strip_of_append {t : List α} (h : ∀ c ∈ t, p c) (s : List α) :
    strip p (t ++ s) = strip p s := by
  rw [strip, List.dropWhile_append_of_pos h, strip]

theorem strip_eq_self_iff {s : List α} : strip p s = s ↔ Bare p s :=
  ⟨fun h => h ▸ strip_bare s, Bare.strip⟩

end Strip

/-! ### Encodings symbol by symbol -/

section Encode

variable {p : β → Bool} {q : α → Bool} {code : α → List β}

/-- Blanks become blanks, and other symbols become texts without blanks at their ends. -/
structure KeepsBlanks (p : β → Bool) (q : α → Bool) (code : α → List β) : Prop where
  blank : ∀ c, q c → ∀ b ∈ code c, p b
  nonempty : ∀ c, ¬ q c → code c ≠ []
  bare : ∀ c, ¬ q c → Bare p (code c)

theorem KeepsBlanks.dropWhile (h : KeepsBlanks p q code) (s : List α) :
    (s.flatMap code).dropWhile p = (s.dropWhile q).flatMap code := by
  induction s with
  | nil => rfl
  | cons c s ih =>
    rw [List.flatMap_cons]
    by_cases fits : q c
    · rw [List.dropWhile_append_of_pos (h.blank c fits), List.dropWhile_cons_of_pos fits, ih]
    · rw [List.dropWhile_cons_of_neg fits, List.flatMap_cons]
      apply dropWhile_eq_self_of_head
      intro b first
      rw [List.head?_append_of_ne_nil _ (h.nonempty c fits)] at first
      exact (h.bare c fits).1 b first

theorem KeepsBlanks.rdropWhile (h : KeepsBlanks p q code) (s : List α) :
    (s.flatMap code).rdropWhile p = (s.rdropWhile q).flatMap code := by
  induction s using List.reverseRecOn with
  | nil => rfl
  | append_singleton s c ih =>
    rw [List.flatMap_append, List.flatMap_singleton]
    by_cases fits : q c
    · rw [List.rdropWhile_concat_pos q s c fits, ← ih]
      unfold List.rdropWhile
      rw [List.reverse_append, List.dropWhile_append_of_pos]
      intro b mem
      exact h.blank c fits b (List.mem_reverse.mp mem)
    · rw [List.rdropWhile_concat_neg q s c fits, List.flatMap_append, List.flatMap_singleton]
      apply rdropWhile_eq_self_of_last
      intro b last
      rw [List.getLast?_append_of_ne_nil _ (h.nonempty c fits)] at last
      exact (h.bare c fits).2 b last

/-- **Removing blanks commutes with the encoding.** -/
theorem KeepsBlanks.strip (h : KeepsBlanks p q code) (s : List α) :
    strip p (s.flatMap code) = (strip q s).flatMap code := by
  rw [Text.strip, h.dropWhile, h.rdropWhile, Text.strip]

end Encode

end Apm.Lib.Text
