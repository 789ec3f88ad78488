import Apm.Core.StanzaText

/-!
Texts of lines that end in LF or CRLF.
-/

namespace Apm

open Apm.Lib.Text
open Apm.Repo (getlines_unlines)

/-- A line of text has no line break in it. -/
structure PlainLine (line : ByteString) : Prop where
  noLf : chr '\n' ∉ line
  noCr : chr '\r' ∉ line

instance : DecidablePred PlainLine := fun line =>
  decidable_of_iff (chr '\n' ∉ line ∧ chr '\r' ∉ line) ⟨fun h => ⟨h.1, h.2⟩, fun h => ⟨h.1, h.2⟩⟩

theorem PlainLine.append {a b : ByteString} (ha : PlainLine a) (hb : PlainLine b) :
    PlainLine (a ++ b) :=
  ⟨fun h => (List.mem_append.mp h).elim ha.noLf hb.noLf,
    fun h => (List.mem_append.mp h).elim ha.noCr hb.noCr⟩

/-! ### Keys and values -/

section KeyLine

variable {key : ByteString} (plain : chr ':' ∉ key) (value : ByteString)

include plain

theorem ne_colon_of_mem : ∀ c ∈ key, (c != chr ':') = true := by
  intro c mem
  rw [bne_iff_ne]
  rintro rfl
  exact plain mem

/-- The key of a line is what stands before its first colon. -/
theorem upTo_key : upTo (· == chr ':') (key ++ chr ':' :: value) = key := by
  change (key ++ chr ':' :: value).takeWhile (· != chr ':') = key
  rw [List.takeWhile_append_of_pos (ne_colon_of_mem plain),
    List.takeWhile_cons_of_neg (by decide), List.append_nil]

/-- The value of a line is what stands behind its first colon. -/
theorem tail_key : ((key ++ chr ':' :: value).dropWhile (· != chr ':')).tail = value := by
  rw [List.dropWhile_append_of_pos (ne_colon_of_mem plain),
    List.dropWhile_cons_of_neg (by decide), List.tail_cons]

end KeyLine

/-! ### Ends of lines -/

/-- The lines as they stand before their line feeds: some have carriage returns. -/
def withCrs (crlf : Nat → Bool) : List ByteString → List ByteString
  | [] => []
  | line :: lines =>
      (if crlf 0 then line ++ [chr '\r'] else line) :: withCrs (fun i => crlf (i + 1)) lines

/-- The lines with their ends. -/
def lineText (crlf : Nat → Bool) (lines : List ByteString) : ByteString :=
  unlines (chr '\n') (withCrs crlf lines)

theorem dropCr_of_noCr {line : ByteString} (h : chr '\r' ∉ line) : dropCr line = line := by
  unfold dropCr
  rw [if_neg]
  intro last
  exact h (List.mem_of_getLast? last)

theorem dropCr_plain {line : ByteString} (h : PlainLine line) : dropCr line = line :=
  dropCr_of_noCr h.noCr

theorem dropCr_cr (line : ByteString) : dropCr (line ++ [chr '\r']) = line := by
  rw [dropCr, if_pos List.getLast?_concat, List.dropLast_concat]

theorem map_dropCr_withCrs (crlf : Nat → Bool) {lines : List ByteString}
    (h : ∀ line ∈ lines, PlainLine line) : (withCrs crlf lines).map dropCr = lines := by
  induction lines generalizing crlf with
  | nil => rfl
  | cons line lines ih =>
    obtain ⟨first, others⟩ := List.forall_mem_cons.mp h
    have dropped : dropCr (if crlf 0 then line ++ [chr '\r'] else line) = line := by
      split
      · exact dropCr_cr line
      · exact dropCr_plain first
    rw [withCrs, List.map_cons, dropped, ih _ others]

theorem mem_withCrs {crlf : Nat → Bool} {lines : List ByteString} {piece : ByteString}
    (h : piece ∈ withCrs crlf lines) :
    ∃ line ∈ lines, piece = line ∨ piece = line ++ [chr '\r'] := by
  induction lines generalizing crlf with
  | nil => cases h
  | cons line lines ih =>
    rcases List.mem_cons.mp h with rfl | later
    · refine ⟨line, List.mem_cons_self, ?_⟩
      split
      · exact .inr rfl
      · exact .inl rfl
    · obtain ⟨line', mem, same⟩ := ih later
      exact ⟨line', List.mem_cons_of_mem _ mem, same⟩

theorem lineText_cons (crlf : Nat → Bool) (line : ByteString) (lines : List ByteString) :
    lineText crlf (line :: lines) =
      line ++ lineText crlf ([] :: lines) := by
  unfold lineText withCrs unlines
  split <;> simp

/-- The lines are read back, and then what follows them. -/
theorem getlines_lineText (crlf : Nat → Bool) {lines : List ByteString}
    (h : ∀ line ∈ lines, PlainLine line) (rest : ByteString) :
    (getlines (chr '\n') (lineText crlf lines ++ rest)).map dropCr =
      lines ++ (getlines (chr '\n') rest).map dropCr := by
  have clean : ∀ piece ∈ withCrs crlf lines, chr '\n' ∉ piece := by
    intro piece mem
    obtain ⟨line, isLine, same | same⟩ := mem_withCrs mem
    · rw [same]
      exact (h line isLine).noLf
    · intro lf
      rw [same] at lf
      rcases List.mem_append.mp lf with lf | lf
      · exact (h line isLine).noLf lf
      · exact absurd (List.mem_singleton.mp lf) (by decide)
  rw [lineText, getlines_unlines clean, List.map_append, map_dropCr_withCrs crlf h]

end Apm
