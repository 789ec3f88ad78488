import Mathlib.Data.List.Basic
import Mathlib.Tactic.Common

/-!
Block-wise processing of a stream.

A step function eats blocks of a fixed size `n`; input arrives in pieces of any
length. `chain` is the reference: it eats a whole list block by block and returns
the chaining value with the incomplete rest. `feed` is the buffered loop an
implementation runs: fill the open block, step when it is full, go on.
`feed_eq_chain` says the buffer is invisible, `chain_append` that the way the
input is cut is too.
-/

namespace Apm.Lib.BlockStream

variable {σ β : Type*}

/-- Step over every full block of `l`; return the chaining value and the rest. -/
def chain (n : Nat) (f : σ → List β → σ) (c : σ) (l : List β) : σ × List β :=
  if _h : 0 < n ∧ n ≤ l.length then chain n f (f c (l.take n)) (l.drop n) else (c, l)
termination_by l.length
decreasing_by rw [List.length_drop]; omega

/-- The buffered loop: copy what fits into the open block, step when it is full. -/
def feed (n : Nat) (f : σ → List β → σ) (c : σ) (buffer data : List β) : σ × List β :=
  if _h : 0 < data.length ∧ buffer.length < n then
    let toCopy := min data.length (n - buffer.length)
    let filled := buffer ++ data.take toCopy
    if filled.length = n then feed n f (f c filled) [] (data.drop toCopy)
    else feed n f c filled (data.drop toCopy)
  else (c, buffer)
termination_by data.length
decreasing_by all_goals rw [List.length_drop]; omega

variable {n : Nat} {f : σ → List β → σ}

/-- A list shorter than a block is left over whole. -/
theorem chain_short {c : σ} {l : List β} (h : l.length < n) : chain n f c l = (c, l) := by
  rw [chain, dif_neg (by omega)]

/-- One full block in front is stepped over first. -/
theorem chain_block {c : σ} {block : List β} (l : List β) (hn : 0 < n) (h : block.length = n) :
    chain n f c (block ++ l) = chain n f (f c block) l := by
  subst h
  rw [chain, dif_pos ⟨hn, by simp⟩, List.take_left, List.drop_left]

/-- A list of at least one block starts with one. -/
theorem exists_block {l : List β} (h : n ≤ l.length) :
    ∃ block rest, l = block ++ rest ∧ block.length = n :=
  ⟨l.take n, l.drop n, (List.take_append_drop n l).symm, List.length_take_of_le h⟩

/-- Induction over the full blocks of a list. -/
theorem block_induction {motive : List β → Prop} (hn : 0 < n)
    (short : ∀ l, l.length < n → motive l)
    (block : ∀ b l, b.length = n → motive l → motive (b ++ l)) (l : List β) : motive l := by
  by_cases h : n ≤ l.length
  · obtain ⟨b, rest, rfl, hb⟩ := exists_block h
    exact block b rest hb (block_induction hn short block rest)
  · exact short l (by omega)
termination_by l.length
decreasing_by subst_vars; simp only [List.length_append]; omega

/-- The length of the rest is the length of the input modulo the block size. -/
theorem chain_rest_length (hn : 0 < n) (c : σ) (l : List β) :
    (chain n f c l).2.length = l.length % n := by
  induction l using block_induction hn generalizing c with
  | short l h => rw [chain_short h, Nat.mod_eq_of_lt h]
  | block b l hb ih => rw [chain_block l hn hb, ih, List.length_append, hb, Nat.add_mod_left]

/-- What is left over is shorter than a block. -/
theorem chain_rest_lt (hn : 0 < n) (c : σ) (l : List β) : (chain n f c l).2.length < n := by
  rw [chain_rest_length hn]
  exact Nat.mod_lt _ hn

/-- Chaining a concatenation: chain the first part, then its rest with the second. -/
theorem chain_append (hn : 0 < n) (c : σ) (l l' : List β) :
    chain n f c (l ++ l') = chain n f (chain n f c l).1 ((chain n f c l).2 ++ l') := by
  induction l using block_induction hn generalizing c with
  | short l h => rw [chain_short h]
  | block b l hb ih => rw [List.append_assoc, chain_block _ hn hb, chain_block _ hn hb, ih]

/-- A stream of whole blocks followed by one more block. -/
theorem chain_last (hn : 0 < n) (c : σ) {l block : List β} (hl : l.length % n = 0)
    (hb : block.length = n) :
    chain n f c (l ++ block) = (f (chain n f c l).1 block, []) := by
  have hrest : (chain n f c l).2 = [] := by
    rw [← List.length_eq_zero_iff, chain_rest_length hn, hl]
  rw [chain_append hn, hrest, List.nil_append, ← List.append_nil block, chain_block [] hn hb,
    chain_short hn, List.append_nil]

/-- **The buffer is invisible.** The loop computes what the reference computes on
the buffered elements followed by the data. -/
theorem feed_eq_chain (c : σ) (buffer data : List β) (h : buffer.length < n) :
    feed n f c buffer data = chain n f c (buffer ++ data) := by
  fun_induction feed n f c buffer data with
  | case1 c buffer data guard toCopy filled full ih =>
    -- the block is full: it is the next block of the reference too
    have split : buffer ++ data = filled ++ data.drop toCopy := by
      rw [List.append_assoc, List.take_append_drop]
    rw [ih (by simp; omega), List.nil_append, split, chain_block _ (by omega) full]
  | case2 c buffer data guard toCopy filled part ih =>
    have split : buffer ++ data = filled ++ data.drop toCopy := by
      rw [List.append_assoc, List.take_append_drop]
    have bound : filled.length ≤ n := by
      simp only [filled, toCopy, List.length_append, List.length_take]
      omega
    rw [ih (by omega), split]
  | case3 c buffer data guard =>
    have empty : data = [] := List.length_eq_zero_iff.mp (by omega)
    rw [empty, List.append_nil, chain_short h]

end Apm.Lib.BlockStream
