import Apm.Daemon.CommandIndex
import Mathlib.Data.List.MinMax

/-!
Reading the command index back: `loadShimsFromManifest` of `src/apmd/export_path.cpp` on what
`writeCommandIndexManifest` writes, whatever the strings in it are.

The reader searches for the quoted key and does not undo escapes. So a value that ends in a quote
and the key looks like the key, and the value behind it is taken for the name of a shim.

## Main results

* `shimNames_fields`: what is read, field by field.
* `manifest_roundTrips_iff`: when just the names of the shims are read.
-/

namespace Apm.Shims

open Apm.Lib.Text (unlines exists_lines splitOn_unlines)

/-! ### Escaped values -/

/-- The text that a reader takes for a value: it ends at the first quote, escaped or not. -/
def readValue (value : ByteString) : ByteString := upTo (· == chr '"') (jsonEscape value)

/-- What stands behind the last quote of the value is the key. -/
def EndsInKey (value : ByteString) : Prop :=
  (value.splitOn (chr '"')).getLast? = some (str "shim")

instance : DecidablePred EndsInKey := fun value =>
  inferInstanceAs (Decidable ((value.splitOn (chr '"')).getLast? = some (str "shim")))

theorem backslash_mem_jsonEscapeByte (c : UInt8) :
    jsonEscapeByte c = [c] ∨ chr '\\' ∈ jsonEscapeByte c ∧ 2 ≤ (jsonEscapeByte c).length := by
  unfold jsonEscapeByte
  split
  · exact .inr (by decide)
  split
  · exact .inr (by decide)
  split
  · exact .inr (by decide)
  split
  · exact .inr (by decide)
  split
  · exact .inr (by decide)
  · exact .inl rfl

theorem jsonEscape_append (s t : ByteString) : jsonEscape (s ++ t) = jsonEscape s ++ jsonEscape t :=
  List.flatMap_append

theorem jsonEscape_cons (c : UInt8) (text : ByteString) :
    jsonEscape (c :: text) = jsonEscapeByte c ++ jsonEscape text := rfl

theorem length_le_jsonEscape (text : ByteString) : text.length ≤ (jsonEscape text).length := by
  induction text with
  | nil => exact Nat.le_refl _
  | cons c text ih =>
    rw [jsonEscape_cons, List.length_append, List.length_cons]
    rcases backslash_mem_jsonEscapeByte c with same | ⟨-, long⟩
    · rw [same, List.length_singleton]
      omega
    · omega

/-- Text that is not written as it is gets longer, and has a backslash then. -/
theorem jsonEscape_grows {text : ByteString} (h : ¬ Plain text) :
    text.length < (jsonEscape text).length ∧ chr '\\' ∈ jsonEscape text := by
  simp only [Plain, not_forall] at h
  obtain ⟨c, mem, differs⟩ := h
  obtain ⟨before, after, rfl⟩ := List.append_of_mem mem
  obtain ⟨slash, long⟩ := (backslash_mem_jsonEscapeByte c).resolve_left differs
  have first := length_le_jsonEscape before
  have last := length_le_jsonEscape after
  rw [jsonEscape_append, jsonEscape_cons]
  refine ⟨?_, List.mem_append_right _ (List.mem_append_left _ slash)⟩
  simp only [List.length_append, List.length_cons]
  omega

theorem jsonEscape_eq_key {text : ByteString} : jsonEscape text = str "shim" ↔ text = str "shim" := by
  constructor
  · intro same
    have plain : Plain text := by
      by_contra escaped
      have slash := (jsonEscape_grows escaped).2
      rw [same] at slash
      exact absurd slash (by decide)
    rw [← same, jsonEscape_plain plain]
  · rintro rfl
    decide

theorem jsonEscape_clean {text : ByteString} (h : chr '"' ∉ text) : chr '"' ∉ jsonEscape text := by
  intro mem
  obtain ⟨c, known, inside⟩ := List.mem_flatMap.mp mem
  have other : c ≠ chr '"' := fun same => h (same ▸ known)
  unfold jsonEscapeByte at inside
  rw [if_neg (show ¬ (c == chr '"') = true by simpa using other)] at inside
  repeat' split at inside
  all_goals first
    | exact absurd inside (by decide)
    | exact other (List.mem_singleton.mp inside).symm

/-- The pieces of a value as it is written. A quote stands behind each of them. -/
def valuePieces (value : ByteString) : List ByteString := (jsonEscape value).splitOn (chr '"')

section Pieces

variable {parts : List ByteString} (clean : ∀ part ∈ parts, chr '"' ∉ part) {last : ByteString}
  (lastClean : chr '"' ∉ last)

include clean lastClean

/-- Each quote of a value is written with a backslash before it. -/
theorem valuePieces_eq : valuePieces (unlines (chr '"') parts ++ last) =
    parts.map (jsonEscape · ++ str "\\") ++ [jsonEscape last] := by
  have text : jsonEscape (unlines (chr '"') parts) =
      unlines (chr '"') (parts.map (jsonEscape · ++ str "\\")) := by
    clear clean
    induction parts with
    | nil => rfl
    | cons part parts ih =>
      rw [List.map_cons, unlines, List.flatMap_cons, jsonEscape_append, jsonEscape_append]
      change _ ++ jsonEscape (unlines (chr '"') parts) = _
      rw [ih]
      simp [unlines, str, chr, jsonEscape, jsonEscapeByte]
  have plain : ∀ piece ∈ parts.map (jsonEscape · ++ str "\\"), chr '"' ∉ piece := by
    intro piece mem
    obtain ⟨part, known, rfl⟩ := List.mem_map.mp mem
    rw [List.mem_append, not_or]
    exact ⟨jsonEscape_clean (clean part known), by decide⟩
  rw [valuePieces, jsonEscape_append, text, splitOn_unlines plain,
    List.splitOn_eq_singleton (jsonEscape_clean lastClean)]

theorem endsInKey_iff : EndsInKey (unlines (chr '"') parts ++ last) ↔ last = str "shim" := by
  rw [EndsInKey, splitOn_unlines clean, List.splitOn_eq_singleton lastClean,
    List.getLast?_concat, Option.some_inj]

theorem count_quotes : (unlines (chr '"') parts ++ last).count (chr '"') = parts.length := by
  rw [List.count_append, List.count_eq_zero.mpr lastClean, Nat.add_zero]
  clear lastClean
  induction parts with
  | nil => rfl
  | cons part parts ih =>
    obtain ⟨first, others⟩ := List.forall_mem_cons.mp clean
    rw [unlines, List.flatMap_cons, List.count_append, List.count_append,
      List.count_eq_zero.mpr first, List.count_singleton_self]
    change _ + (unlines (chr '"') parts).count (chr '"') = _
    rw [ih others, List.length_cons]
    omega

end Pieces

theorem valuePieces_clean (value : ByteString) : ∀ piece ∈ valuePieces value, chr '"' ∉ piece :=
  fun _ mem => Lib.Text.not_mem_of_mem_splitOn mem

theorem readValue_clean (value : ByteString) : chr '"' ∉ readValue value := by
  intro mem
  have stop := List.mem_takeWhile_imp mem
  simp at stop

/-- The first piece of a value is what is read of it. -/
theorem exists_valuePieces (value : ByteString) :
    ∃ more, valuePieces value = readValue value :: more := by
  unfold valuePieces readValue
  generalize jsonEscape value = text
  by_cases quote : chr '"' ∈ text
  · obtain ⟨before, after, rfl, clean⟩ := List.eq_append_cons_of_mem quote
    refine ⟨after.splitOn (chr '"'), ?_⟩
    rw [List.splitOn_append_cons_self_of_not_mem clean, upTo,
      List.takeWhile_append_of_pos, List.takeWhile_cons_of_neg (by simp), List.append_nil]
    intro c mem
    have other : c ≠ chr '"' := fun same => clean (same ▸ mem)
    simpa using other
  · refine ⟨[], ?_⟩
    rw [List.splitOn_eq_singleton quote, upTo, List.takeWhile_eq_self_iff.mpr]
    intro c mem
    have other : c ≠ chr '"' := fun same => quote (same ▸ mem)
    simpa using other

/-- All pieces of a value but the last end in a backslash. -/
theorem valuePieces_cases (value : ByteString) :
    ∃ init last, valuePieces value = init ++ [last] ∧ (∀ piece ∈ init, piece ≠ str "shim") ∧
      (last = str "shim" ↔ EndsInKey value) ∧ init.length = value.count (chr '"') := by
  obtain ⟨parts, last, rfl, clean, lastClean⟩ := exists_lines (chr '"') value
  refine ⟨_, _, valuePieces_eq clean lastClean, ?_, ?_, ?_⟩
  · intro piece mem same
    obtain ⟨part, -, rfl⟩ := List.mem_map.mp mem
    have ends := congrArg List.getLast? same
    rw [show str "\\" = [chr '\\'] from rfl, List.getLast?_concat] at ends
    exact absurd ends (by decide)
  · rw [endsInKey_iff clean lastClean, jsonEscape_eq_key]
  · rw [count_quotes clean lastClean, List.length_map]

/-! ### Reading fields -/

/-- A line of an entry: its key and its value. -/
abbrev IndexLine := ByteString × ByteString

/-- Does the reader look for a colon behind a value? It has taken the first piece of it, and passed
the second one, if it was looking for a value before. -/
def armsNext (takes : Bool) (value : ByteString) : Bool :=
  decide (EndsInKey value) && (!takes || 2 ≤ value.count (chr '"'))

/-- One line, for a reader that has met the key before or not. -/
def readLine (x : Bool × List ByteString) (line : IndexLine) : Bool × List ByteString :=
  let takes := x.1 || line.1 == str "shim"
  (armsNext takes line.2,
    if takes && !(readValue line.2).isEmpty then x.2 ++ [readValue line.2] else x.2)

/-- The reader has these names, and has met the key or not. -/
structure Reader.At (r : Reader) (x : Bool × List ByteString) : Prop where
  names : r.names = x.2
  armed : x.1 = true → r.phase = .colon
  searching : x.1 = false → r.Searching

def linePieces (lead : ByteString) (line : IndexLine) : List ByteString :=
  lead :: line.1 :: str ": " :: valuePieces line.2

/-- Among words the last piece decides. -/
theorem foldl_words {init : List ByteString} (other : ∀ piece ∈ init, piece ≠ str "shim")
    (last : ByteString) (names : List ByteString) :
    (init ++ [last]).foldl readPiece ⟨.word, names⟩ =
      ⟨if last = str "shim" then .colon else .word, names⟩ := by
  induction init with
  | nil => rfl
  | cons piece init ih =>
    obtain ⟨first, others⟩ := List.forall_mem_cons.mp other
    have passed : readPiece ⟨.word, names⟩ piece = ⟨.word, names⟩ := by
      simp [readPiece, first]
    rw [List.cons_append, List.foldl_cons, passed, ih others]

/-- A value that is passed. -/
theorem foldl_passed (value : ByteString) (names : List ByteString) :
    ((valuePieces value).foldl readPiece ⟨.word, names⟩ : Reader).At
      (armsNext false value, names) := by
  obtain ⟨init, last, pieces, other, ends, -⟩ := valuePieces_cases value
  rw [pieces, foldl_words other]
  by_cases key : last = str "shim"
  · simp only [armsNext, ends.mp key, key, decide_true, Bool.not_false, Bool.true_or,
      Bool.and_true, if_true]
    exact ⟨rfl, fun _ => rfl, nofun⟩
  · have noKey : ¬ EndsInKey value := fun h => key (ends.mpr h)
    simp only [armsNext, noKey, key, decide_false, Bool.false_and, if_false]
    exact ⟨rfl, nofun, fun _ => .inr rfl⟩

/-- A value whose first piece is taken. -/
theorem foldl_taken (value : ByteString) (names : List ByteString) :
    ((valuePieces value).foldl readPiece ⟨.value, names⟩ : Reader).At
      (armsNext true value,
        if (readValue value).isEmpty then names else names ++ [readValue value]) := by
  obtain ⟨init, last, pieces, other, ends, count⟩ := valuePieces_cases value
  obtain ⟨more, first⟩ := exists_valuePieces value
  have taken : readPiece ⟨.value, names⟩ (readValue value) =
      ⟨.quote, if (readValue value).isEmpty then names else names ++ [readValue value]⟩ := rfl
  generalize (if (readValue value).isEmpty then names else names ++ [readValue value]) = names'
    at taken ⊢
  have calm : value.count (chr '"') < 2 → armsNext true value = false := by
    intro few
    simp [armsNext, Nat.not_le.mpr few]
  match init, pieces with
  | [], pieces =>
    rw [pieces, List.nil_append] at first
    cases first
    rw [pieces, List.nil_append, List.foldl_cons, List.foldl_nil, taken, calm (by simp [← count])]
    exact ⟨rfl, nofun, fun _ => .inl rfl⟩
  | [piece], pieces =>
    rw [pieces] at first
    cases first
    rw [pieces, List.singleton_append, List.foldl_cons, taken, calm (by simp [← count])]
    exact ⟨rfl, nofun, fun _ => .inr rfl⟩
  | piece :: piece' :: init, pieces =>
    rw [pieces] at first
    cases first
    obtain ⟨-, others⟩ := List.forall_mem_cons.mp other
    have step : readPiece ⟨.quote, names'⟩ piece' = ⟨.word, names'⟩ := rfl
    rw [pieces, List.cons_append, List.foldl_cons, taken, List.cons_append, List.foldl_cons, step,
      foldl_words (List.forall_mem_cons.mp others).2]
    have many : 2 ≤ value.count (chr '"') := by
      rw [← count, List.length_cons, List.length_cons]
      omega
    by_cases key : last = str "shim"
    · simp only [armsNext, ends.mp key, key, many, decide_true, Bool.not_true, Bool.false_or,
        Bool.and_true, if_true]
      exact ⟨rfl, fun _ => rfl, nofun⟩
    · have noKey : ¬ EndsInKey value := fun h => key (ends.mpr h)
      simp only [armsNext, noKey, key, decide_false, Bool.false_and, if_false]
      exact ⟨rfl, nofun, fun _ => .inr rfl⟩

/-- **One line is read.** -/
theorem foldl_line {r : Reader} {x : Bool × List ByteString} (h : r.At x) {lead : ByteString}
    (leadOther : lead ≠ str "shim") (leadPlain : x.1 = true → chr ':' ∉ lead) (line : IndexLine)
    (keyPlain : chr ':' ∉ line.1) :
    ((linePieces lead line).foldl readPiece r).At (readLine x line) := by
  have colon : chr ':' ∈ str ": " := by decide
  have colonOther : str ": " ≠ str "shim" := by decide
  obtain ⟨armed, names⟩ := x
  obtain ⟨phase, names'⟩ := r
  obtain ⟨same, isArmed, searching⟩ := h
  obtain rfl : names' = names := same
  have takes : armed = true ∨ line.1 = str "shim" →
      (linePieces lead line).foldl readPiece ⟨phase, names'⟩ =
        (valuePieces line.2).foldl readPiece ⟨.value, names'⟩ := by
    rintro (rfl | key)
    · obtain rfl : phase = .colon := isArmed rfl
      simp [linePieces, readPiece, leadPlain rfl, keyPlain, colon]
    · cases armed with
      | true =>
        obtain rfl : phase = .colon := isArmed rfl
        simp [linePieces, readPiece, leadPlain rfl, keyPlain, colon]
      | false =>
        obtain rfl | rfl := searching rfl
        · simp [linePieces, readPiece, key, colon]
        · simp [linePieces, readPiece, leadOther, key, colon]
  by_cases taken : armed = true ∨ line.1 = str "shim"
  · have both : (armed || line.1 == str "shim") = true := by simpa using taken
    rw [takes taken]
    have read := foldl_taken line.2 names'
    unfold readLine
    dsimp only
    rw [both, Bool.true_and]
    revert read
    cases (readValue line.2).isEmpty <;> exact id
  · have neither : (armed || line.1 == str "shim") = false := by simpa using taken
    obtain ⟨unarmed, keyOther⟩ := not_or.mp taken
    have passed : (linePieces lead line).foldl readPiece ⟨phase, names'⟩ =
        (valuePieces line.2).foldl readPiece ⟨.word, names'⟩ := by
      obtain rfl | rfl := searching (by simpa using unarmed)
      · simp [linePieces, readPiece, keyOther, colonOther]
      · simp [linePieces, readPiece, leadOther, keyOther, colonOther]
    rw [passed]
    unfold readLine
    dsimp only
    rw [neither, Bool.false_and]
    exact foldl_passed line.2 names'

/-! ### Reading entries -/

/-- The lines of an entry. -/
def entryLines (d : ShimDecision) : List IndexLine :=
  [(str "package", d.packageName), (str "command", d.commandName), (str "shim", d.shimName),
    (str "binary", d.binaryPath), (str "mode", modeToString d.mode), (str "warning", d.warning)]

/-- The pieces of some lines: the text in front of the first one, and of each of the others. -/
def linesPieces (lead sep : ByteString) : List IndexLine → List ByteString
  | [] => []
  | line :: lines => linePieces lead line ++ linesPieces sep sep lines

def lineSep : ByteString := str ",\n      "

def entryLead (lead : ByteString) : ByteString := lead ++ str "    \x7b\n      "

theorem unlines_linePieces (lead : ByteString) (line : IndexLine) :
    unlines (chr '"') (linePieces lead line) =
      lead ++ str "\"" ++ line.1 ++ str "\": \"" ++ jsonEscape line.2 ++ str "\"" := by
  have value : unlines (chr '"') (valuePieces line.2) = jsonEscape line.2 ++ [chr '"'] :=
    Lib.Text.unlines_splitOn _ _
  rw [linePieces, unlines, List.flatMap_cons, List.flatMap_cons, List.flatMap_cons]
  change _ ++ (_ ++ (_ ++ unlines (chr '"') (valuePieces line.2))) = _
  rw [value]
  simp [str, chr]

theorem lead_indexEntry_eq (d : ShimDecision) (lead : ByteString) :
    lead ++ indexEntry d =
      unlines (chr '"') (linesPieces (entryLead lead) lineSep (entryLines d)) ++
        str "\n    \x7d" := by
  have append (s t : List ByteString) : unlines (chr '"') (s ++ t) =
      unlines (chr '"') s ++ unlines (chr '"') t := List.flatMap_append
  have mode : jsonEscape (modeToString d.mode) = modeToString d.mode := by
    cases d.mode <;> decide
  simp only [entryLines, linesPieces, append, unlines_linePieces, mode]
  simp [indexEntry, indexField, entryLead, lineSep, unlines, str]

theorem linePieces_clean {lead : ByteString} {line : IndexLine} (leadClean : chr '"' ∉ lead)
    (keyClean : chr '"' ∉ line.1) : ∀ piece ∈ linePieces lead line, chr '"' ∉ piece := by
  have colon : chr '"' ∉ str ": " := by decide
  simp only [linePieces, List.forall_mem_cons]
  exact ⟨leadClean, keyClean, colon, valuePieces_clean line.2⟩

theorem linesPieces_clean {lead : ByteString} (leadClean : chr '"' ∉ lead) {lines : List IndexLine}
    (keysClean : ∀ line ∈ lines, chr '"' ∉ line.1) :
    ∀ piece ∈ linesPieces lead lineSep lines, chr '"' ∉ piece := by
  induction lines generalizing lead with
  | nil => exact nofun
  | cons line lines ih =>
    obtain ⟨first, others⟩ := List.forall_mem_cons.mp keysClean
    exact List.forall_mem_append.mpr ⟨linePieces_clean leadClean first, ih (by decide) others⟩

/-- **Lines are read** one after the other. -/
theorem foldl_lines {r : Reader} {x : Bool × List ByteString} (h : r.At x) {lead : ByteString}
    (leadOther : lead ≠ str "shim") (leadPlain : x.1 = true → chr ':' ∉ lead)
    {lines : List IndexLine} (keysPlain : ∀ line ∈ lines, chr ':' ∉ line.1) :
    ((linesPieces lead lineSep lines).foldl readPiece r).At (lines.foldl readLine x) := by
  induction lines generalizing r x lead with
  | nil => exact h
  | cons line lines ih =>
    obtain ⟨first, others⟩ := List.forall_mem_cons.mp keysPlain
    rw [linesPieces, List.foldl_append, List.foldl_cons]
    exact ih (foldl_line h leadOther leadPlain line first) (by decide) (fun _ => by decide) others

theorem entryLines_keys (d : ShimDecision) :
    ∀ line ∈ entryLines d, chr '"' ∉ line.1 ∧ chr ':' ∉ line.1 := by
  simp only [entryLines, List.forall_mem_cons]
  decide

/-- What is behind the head of an index, entry by entry. -/
theorem at_entries (decisions : List ShimDecision) {lead : ByteString}
    (leadClean : chr '"' ∉ lead) :
    ∃ pieces last, lead ++ (indexEntries decisions ++ str "  ]\n\x7d\n") =
        unlines (chr '"') pieces ++ last ∧
      (∀ piece ∈ pieces, chr '"' ∉ piece) ∧ chr '"' ∉ last ∧
      ∀ (r : Reader) (x : Bool × List ByteString), r.At x → (x.1 = true → chr ':' ∉ lead) →
        (pieces.foldl readPiece r).At ((decisions.flatMap entryLines).foldl readLine x) := by
  induction decisions generalizing lead with
  | nil =>
    refine ⟨[], lead ++ str "  ]\n\x7d\n", rfl, nofun, ?_, fun r x h _ => h⟩
    rw [List.mem_append, not_or]
    exact ⟨leadClean, by decide⟩
  | cons d decisions ih =>
    obtain ⟨sep, sepClean, sepPlain, text⟩ : ∃ sep, chr '"' ∉ sep ∧ chr ':' ∉ sep ∧
        indexEntries (d :: decisions) = indexEntry d ++ (sep ++ indexEntries decisions) := by
      cases decisions with
      | nil => exact ⟨str "\n", by decide, by decide, by simp [indexEntries]⟩
      | cons d' decisions => exact ⟨str ",\n", by decide, by decide, by simp [indexEntries]⟩
    have behindClean : chr '"' ∉ str "\n    \x7d" ++ sep := by
      rw [List.mem_append, not_or]
      exact ⟨by decide, sepClean⟩
    have behindPlain : chr ':' ∉ str "\n    \x7d" ++ sep := by
      rw [List.mem_append, not_or]
      exact ⟨by decide, sepPlain⟩
    obtain ⟨pieces, last, rest, clean, lastClean, reads⟩ := ih behindClean
    refine ⟨linesPieces (entryLead lead) lineSep (entryLines d) ++ pieces, last, ?_, ?_, lastClean,
      ?_⟩
    · calc lead ++ (indexEntries (d :: decisions) ++ str "  ]\n\x7d\n")
          = lead ++ indexEntry d ++ (sep ++ (indexEntries decisions ++ str "  ]\n\x7d\n")) := by
            rw [text]
            simp only [List.append_assoc]
        _ = unlines (chr '"') (linesPieces (entryLead lead) lineSep (entryLines d)) ++
            ((str "\n    \x7d" ++ sep) ++ (indexEntries decisions ++ str "  ]\n\x7d\n")) := by
            rw [lead_indexEntry_eq]
            simp only [List.append_assoc]
        _ = unlines (chr '"')
            (linesPieces (entryLead lead) lineSep (entryLines d) ++ pieces) ++ last := by
            rw [rest, unlines, unlines, unlines, List.flatMap_append, List.append_assoc]
    · have first : chr '"' ∉ entryLead lead := by
        rw [entryLead, List.mem_append, not_or]
        exact ⟨leadClean, by decide⟩
      exact List.forall_mem_append.mpr
        ⟨linesPieces_clean first fun line mem => (entryLines_keys d line mem).1, clean⟩
    · intro r x h leadPlain
      have other : entryLead lead ≠ str "shim" := by
        intro same
        have brace : chr '\x7b' ∈ entryLead lead := List.mem_append_right _ (by decide)
        rw [same] at brace
        exact absurd brace (by decide)
      have plain : x.1 = true → chr ':' ∉ entryLead lead := by
        intro armed
        rw [entryLead, List.mem_append, not_or]
        exact ⟨leadPlain armed, by decide⟩
      rw [List.foldl_append, List.flatMap_cons, List.foldl_append]
      exact reads _ _
        (foldl_lines h other plain fun line mem => (entryLines_keys d line mem).2)
        fun _ => behindPlain

/-- **What is read of an index**, whatever the strings in it are. -/
theorem shimNames_fields (stamp : Stamp) (decisions : List ShimDecision) :
    shimNames (commandIndexText stamp decisions).length (commandIndexText stamp decisions) =
      ((decisions.flatMap entryLines).foldl readLine (false, [])).2 := by
  obtain ⟨pieces, last, text, clean, lastClean, reads⟩ :=
    at_entries decisions (by decide : chr '"' ∉ str ": [\n")
  have whole : commandIndexText stamp decisions =
      unlines (chr '"') (headPieces stamp ++ pieces) ++ last := by
    rw [commandIndexText_pieces, text, unlines, unlines, unlines, List.flatMap_append,
      List.append_assoc]
  obtain ⟨searching, none⟩ := foldl_head stamp
  rw [whole, shimNames_pieces lastClean
      (List.forall_mem_append.mpr ⟨headPieces_clean stamp, clean⟩) le_rfl, List.foldl_append]
  have unmet {P : Prop} (met : false = true) : P := absurd met Bool.false_ne_true
  exact (reads _ (false, []) ⟨none, unmet, fun _ => searching⟩ unmet).names

/-! ### Just the names of the shims -/

/-- What is read beside the names of shims: the values that stand behind one that ends in the key,
as far as they are taken. -/
def strays : Bool → List IndexLine → List ByteString
  | _, [] => []
  | armed, (key, value) :: lines =>
      let more := strays (armsNext (armed || key == str "shim") value) lines
      if armed && key != str "shim" then readValue value :: more else more

/-- One line gives one name at most. -/
theorem mem_readLine {x : Bool × List ByteString} {line : IndexLine} {name : ByteString} :
    name ∈ (readLine x line).2 ↔ name ∈ x.2 ∨
      (x.1 = true ∨ line.1 = str "shim") ∧ readValue line.2 = name ∧ name ≠ [] := by
  unfold readLine
  dsimp only
  by_cases takes : (x.1 || line.1 == str "shim") = true
  · have either : x.1 = true ∨ line.1 = str "shim" := by simpa using takes
    rw [takes, Bool.true_and]
    cases value : readValue line.2 with
    | nil =>
      refine ⟨.inl, fun h => h.resolve_right ?_⟩
      rintro ⟨-, rfl, filled⟩
      exact filled rfl
    | cons c rest =>
      rw [List.isEmpty_cons, Bool.not_false, if_pos rfl, List.mem_append, List.mem_singleton]
      refine or_congr_right ⟨?_, fun h => h.2.1.symm⟩
      rintro rfl
      exact ⟨either, rfl, List.cons_ne_nil c rest⟩
  · have neither : ¬ (x.1 = true ∨ line.1 = str "shim") := by simpa using takes
    rw [Bool.eq_false_iff.mpr takes, Bool.false_and, if_neg Bool.false_ne_true]
    exact ⟨.inl, fun h => h.resolve_right fun more => neither more.1⟩

theorem mem_strays_cons {armed : Bool} {line : IndexLine} {lines : List IndexLine}
    {name : ByteString} :
    name ∈ strays armed (line :: lines) ↔
      (armed = true ∧ line.1 ≠ str "shim" ∧ readValue line.2 = name) ∨
        name ∈ strays (armsNext (armed || line.1 == str "shim") line.2) lines := by
  obtain ⟨key, value⟩ := line
  rw [strays]
  by_cases stray : (armed && key != str "shim") = true
  · have both : armed = true ∧ key ≠ str "shim" := by simpa using stray
    rw [if_pos stray, List.mem_cons]
    refine or_congr_left ⟨?_, fun h => h.2.2.symm⟩
    rintro rfl
    exact ⟨both.1, both.2, rfl⟩
  · rw [if_neg stray]
    refine ⟨.inr, fun h => h.resolve_left ?_⟩
    rintro ⟨isArmed, other, -⟩
    exact stray (by simp [isArmed, other])

theorem clean_of_mem_strays {armed : Bool} {lines : List IndexLine} {name : ByteString}
    (h : name ∈ strays armed lines) : chr '"' ∉ name := by
  induction lines generalizing armed with
  | nil => cases h
  | cons line lines ih =>
    rcases mem_strays_cons.mp h with ⟨-, -, rfl⟩ | later
    · exact readValue_clean line.2
    · exact ih later

/-- The names that are read are those of the shims, as far as they are taken, and the strays. -/
theorem mem_foldl_readLine {lines : List IndexLine} {armed : Bool} {names : List ByteString}
    {name : ByteString} :
    name ∈ (lines.foldl readLine (armed, names)).2 ↔ name ∈ names ∨ name ≠ [] ∧
      (name ∈ strays armed lines ∨ ∃ line ∈ lines, line.1 = str "shim" ∧ readValue line.2 = name) := by
  induction lines generalizing armed names with
  | nil => simp [strays]
  | cons line lines ih =>
    have step : readLine (armed, names) line =
        (armsNext (armed || line.1 == str "shim") line.2, (readLine (armed, names) line).2) := rfl
    rw [List.foldl_cons, step, ih, mem_readLine, mem_strays_cons, List.exists_mem_cons_iff]
    dsimp only
    by_cases isKey : line.1 = str "shim" <;> tauto

theorem mem_shimNames_index {stamp : Stamp} {decisions : List ShimDecision} {name : ByteString} :
    name ∈ shimNames (commandIndexText stamp decisions).length
        (commandIndexText stamp decisions) ↔
      name ≠ [] ∧ (name ∈ strays false (decisions.flatMap entryLines) ∨
        ∃ d ∈ decisions, readValue d.shimName = name) := by
  have shims : (∃ line ∈ decisions.flatMap entryLines,
      line.1 = str "shim" ∧ readValue line.2 = name) ↔
      ∃ d ∈ decisions, readValue d.shimName = name := by
    constructor
    · rintro ⟨line, mem, key, value⟩
      obtain ⟨d, known, inside⟩ := List.mem_flatMap.mp mem
      simp only [entryLines, List.mem_cons, List.not_mem_nil, or_false] at inside
      rcases inside with rfl | rfl | rfl | rfl | rfl | rfl
      · exact absurd (show str "package" = str "shim" from key) (by decide)
      · exact absurd (show str "command" = str "shim" from key) (by decide)
      · exact ⟨d, known, value⟩
      · exact absurd (show str "binary" = str "shim" from key) (by decide)
      · exact absurd (show str "mode" = str "shim" from key) (by decide)
      · exact absurd (show str "warning" = str "shim" from key) (by decide)
    · rintro ⟨d, known, value⟩
      exact ⟨(str "shim", d.shimName), List.mem_flatMap.mpr ⟨d, known, by simp [entryLines]⟩, rfl,
        value⟩
  rw [shimNames_fields, mem_foldl_readLine, shims]
  simp

theorem readValue_of_clean {value : ByteString} (clean : chr '"' ∉ value) :
    readValue value = jsonEscape value := by
  obtain ⟨more, pieces⟩ := exists_valuePieces value
  rw [valuePieces, List.splitOn_eq_singleton (jsonEscape_clean clean)] at pieces
  exact (List.cons.inj pieces).1.symm

theorem readValue_plain {value : ByteString} (plain : Plain value) : readValue value = value :=
  (readValue_of_clean plain.noQuote).trans (jsonEscape_plain plain)

theorem readValue_filled {value : ByteString} (filled : value ≠ []) : readValue value ≠ [] := by
  obtain ⟨parts, last, rfl, clean, lastClean⟩ := exists_lines (chr '"') value
  obtain ⟨more, pieces⟩ := exists_valuePieces (unlines (chr '"') parts ++ last)
  rw [valuePieces_eq clean lastClean] at pieces
  cases parts with
  | nil =>
    have same : jsonEscape last = _ := (List.cons.inj pieces).1
    rw [← same]
    intro none
    have short := length_le_jsonEscape last
    rw [none, List.length_nil, Nat.le_zero, List.length_eq_zero_iff] at short
    exact filled short
  | cons part parts =>
    have same : jsonEscape part ++ str "\\" = _ := (List.cons.inj pieces).1
    rw [← same]
    exact List.append_ne_nil_of_right_ne_nil _ (by decide)

/-- `loadShimsFromManifest` gives the names of the shims of an index that is read, and no other. -/
def ReadsBack (view : View) (stamp : Stamp) (decisions : List ShimDecision) : Prop :=
  ∀ name, name ∈ loadShimsFromManifest
      { view with readFile := fun _ => some (commandIndexText stamp decisions) }
      getCommandIndexFile ↔
    name ≠ [] ∧ ∃ d ∈ decisions, d.shimName = name

variable {view : View} {stamp : Stamp} {decisions : List ShimDecision}

theorem mem_loadShimsFromManifest {name : ByteString} :
    name ∈ loadShimsFromManifest
        { view with readFile := fun _ => some (commandIndexText stamp decisions) }
        getCommandIndexFile ↔
      name ≠ [] ∧ (name ∈ strays false (decisions.flatMap entryLines) ∨
        ∃ d ∈ decisions, readValue d.shimName = name) := by
  unfold loadShimsFromManifest
  exact mem_shimNames_index

/-- Names that are read back are written as they are: the longest one that is not would be read as
a longer one. -/
theorem ReadsBack.plain (h : ReadsBack view stamp decisions) : ∀ d ∈ decisions, Plain d.shimName := by
  by_contra escaped
  simp only [not_forall] at escaped
  obtain ⟨d₀, known₀, escaped₀⟩ := escaped
  obtain ⟨d, longest⟩ : ∃ d, d ∈ (decisions.filter fun d => ¬ Plain d.shimName).argmax
      fun d => d.shimName.length := by
    apply Option.ne_none_iff_exists'.mp
    rw [ne_eq, List.argmax_eq_none, List.filter_eq_nil_iff, not_forall]
    exact ⟨d₀, by simp [known₀, escaped₀]⟩
  have mem := List.argmax_mem longest
  simp only [List.mem_filter, decide_eq_true_eq] at mem
  obtain ⟨known, escaped⟩ := mem
  have filled : d.shimName ≠ [] := by
    intro empty
    rw [empty] at escaped
    exact escaped (List.forall_mem_nil _)
  have noQuote : chr '"' ∉ d.shimName := by
    obtain ⟨-, taken⟩ := mem_loadShimsFromManifest.mp ((h d.shimName).mpr ⟨filled, d, known, rfl⟩)
    rcases taken with stray | ⟨d', -, same⟩
    · exact clean_of_mem_strays stray
    · exact same ▸ readValue_clean d'.shimName
  obtain ⟨-, d', known', name⟩ := (h (readValue d.shimName)).mp
    (mem_loadShimsFromManifest.mpr ⟨readValue_filled filled, .inr ⟨d, known, rfl⟩⟩)
  obtain ⟨longer, slash⟩ := jsonEscape_grows escaped
  rw [readValue_of_clean noQuote] at name
  have escaped' : ¬ Plain d'.shimName := by
    intro plain
    rw [name] at plain
    exact absurd (plain _ slash) (by decide)
  have le := List.le_of_mem_argmax
    (List.mem_filter.mpr ⟨known', by simpa using escaped'⟩) longest
  rw [name] at le
  omega

theorem ReadsBack.strays (h : ReadsBack view stamp decisions) :
    ∀ name ∈ strays false (decisions.flatMap entryLines),
      name = [] ∨ ∃ d ∈ decisions, d.shimName = name := by
  intro name stray
  by_cases filled : name = []
  · exact .inl filled
  · exact .inr ((h name).mp (mem_loadShimsFromManifest.mpr ⟨filled, .inl stray⟩)).2

theorem ReadsBack.of_strays (plain : ∀ d ∈ decisions, Plain d.shimName)
    (known : ∀ name ∈ Shims.strays false (decisions.flatMap entryLines),
      name = [] ∨ ∃ d ∈ decisions, d.shimName = name) : ReadsBack view stamp decisions := by
  intro name
  have read : ∀ d ∈ decisions, readValue d.shimName = d.shimName := fun d mem =>
    readValue_plain (plain d mem)
  refine mem_loadShimsFromManifest.trans (and_congr_right fun filled => ⟨?_, ?_⟩)
  · rintro (stray | ⟨d, mem, same⟩)
    · exact (known name stray).resolve_left filled
    · exact ⟨d, mem, (read d mem).symm.trans same⟩
  · rintro ⟨d, mem, same⟩
    exact .inr ⟨d, mem, (read d mem).trans same⟩

/-- Nothing is read besides if no value before another ends in the key. -/
theorem strays_eq_nil {decisions : List ShimDecision}
    (calm : ∀ d ∈ decisions, ¬ EndsInKey d.packageName ∧ ¬ EndsInKey d.binaryPath ∧
      ¬ EndsInKey d.warning) (plain : ∀ d ∈ decisions, Plain d.shimName) :
    strays false (decisions.flatMap entryLines) = [] := by
  induction decisions with
  | nil => rfl
  | cons d decisions ih =>
    obtain ⟨⟨package, binary, warning⟩, others⟩ := List.forall_mem_cons.mp calm
    obtain ⟨shim, plainOthers⟩ := List.forall_mem_cons.mp plain
    have quotes : d.shimName.count (chr '"') = 0 := List.count_eq_zero.mpr shim.noQuote
    have mode : ¬ EndsInKey (modeToString d.mode) := by cases d.mode <;> decide
    have keys : (str "package" == str "shim") = false ∧ (str "command" == str "shim") = false ∧
        (str "binary" == str "shim") = false ∧ (str "mode" == str "shim") = false ∧
        (str "warning" == str "shim") = false := by decide
    rw [List.flatMap_cons]
    simp [entryLines, strays, armsNext, package, binary, warning, mode, quotes, keys,
      ih others plainOthers]

/-- An index with plain names is read back if no value before another ends in the key. -/
theorem readsBack_of_calm (calm : ∀ d ∈ decisions, ¬ EndsInKey d.packageName ∧
      ¬ EndsInKey d.binaryPath ∧ ¬ EndsInKey d.warning)
    (plain : ∀ d ∈ decisions, Plain d.shimName) : ReadsBack view stamp decisions := by
  apply ReadsBack.of_strays plain
  rw [strays_eq_nil calm plain]
  exact nofun

/-- **The index is read back** just when every name of a shim is written as it is, and what is read
besides are such names. -/
theorem manifest_roundTrips_iff (view : View) (stamp : Stamp) (decisions : List ShimDecision) :
    ReadsBack view stamp decisions ↔
      (∀ d ∈ decisions, Plain d.shimName) ∧
        ∀ name ∈ strays false (decisions.flatMap entryLines),
          name = [] ∨ ∃ d ∈ decisions, d.shimName = name := by
  constructor
  · intro h
    exact ⟨h.plain, h.strays⟩
  · rintro ⟨plain, known⟩
    exact .of_strays plain known

/-- A rebuild of some day. -/
def someStamp : Stamp where
  generatedAt := 1767225600
  generatedAtIso := str "2026-01-01 00:00:00"
  triggerReason := str "install"
  iso := by decide
  reason := by decide

/-- A shim with a quote in its name is read as another one, and behind the package `shim` a command
of the system is read as a shim. -/
theorem manifest_misread :
    ¬ ReadsBack (oneCommand "p" "q").view someStamp
        (decideShims lsSystem [⟨str "p", str "a\"b", str "/p/bin/a\"b", false⟩]) ∧
      ¬ ReadsBack (oneCommand "p" "q").view someStamp
        (decideShims lsSystem [⟨str "shim", str "ls", str "/p/bin/ls", false⟩]) := by
  constructor
  · intro h
    have plain := h.plain
    revert plain
    decide +kernel
  · intro h
    have strays := h.strays
    revert strays
    decide +kernel

end Apm.Shims
