import Apm.Core.Stanza
import Apm.Lib.Assoc
import Apm.Lib.Text

/-!
What stanzas hold, and how they are read back.

## Main results

* `parseStanzas_folded`: every value is a sequence of lines without blanks at their ends;
* `parseStanzas_oneLine`: in a text whose lines are not indented, every value is one line;
* `parseStanzas_slots`: stanzas of fields with one line each are read back as they are.
-/

namespace Apm.Repo

open Apm.Lib.Assoc Apm.Lib.Text

/-! ### Lines and blanks -/

theorem trim_eq (s : ByteString) : trim s = strip isspace s := rfl

theorem mem_of_mem_trim {c : UInt8} {s : ByteString} (h : c ∈ trim s) : c ∈ s :=
  (List.dropWhile_suffix _).mem ((List.rdropWhile_prefix _ _).mem h)

theorem mem_of_mem_dropCr {c : UInt8} {s : ByteString} (h : c ∈ dropCr s) : c ∈ s := by
  unfold dropCr at h
  split at h
  · exact List.mem_of_mem_dropLast h
  · exact h

/-- Whole lines are read back. -/
theorem getlines_unlines {lines : List ByteString} (h : ∀ line ∈ lines, chr '\n' ∉ line)
    (rest : ByteString) :
    getlines (chr '\n') (unlines (chr '\n') lines ++ rest) =
      lines ++ getlines (chr '\n') rest := by
  unfold getlines
  rw [splitOn_unlines h]
  have nonempty : rest.splitOn (chr '\n') ≠ [] := List.splitOn_ne_nil _ _
  dsimp only
  rw [List.getLast?_append_of_ne_nil _ nonempty]
  split
  · exact List.dropLast_append_of_ne_nil nonempty
  · rfl

/-- Text without a line break. -/
abbrev OneLine (s : ByteString) : Prop := chr '\n' ∉ s

/-- Lines without blanks at their ends. -/
def Folded (s : ByteString) : Prop := ∀ piece ∈ s.splitOn (chr '\n'), Bare isspace piece

theorem folded_of_oneLine {s : ByteString} (oneLine : OneLine s) (bare : Bare isspace s) :
    Folded s := by
  rw [Folded, List.splitOn_eq_singleton oneLine]
  exact List.forall_mem_singleton.mpr bare

theorem Folded.bare {s : ByteString} (h : Folded s) (oneLine : OneLine s) : Bare isspace s := by
  rw [Folded, List.splitOn_eq_singleton oneLine] at h
  exact List.forall_mem_singleton.mp h

theorem Folded.append {s line : ByteString} (h : Folded s) (oneLine : OneLine line)
    (bare : Bare isspace line) : Folded (s ++ str "\n" ++ line) := by
  have text : s ++ str "\n" ++ line = s ++ chr '\n' :: line := by simp [str, chr]
  rw [Folded, text, List.splitOn_append_cons_self]
  exact List.forall_mem_append.mpr ⟨h, folded_of_oneLine oneLine bare⟩

def isIndent (c : UInt8) : Bool := c == chr ' ' || c == chr '\t'

theorem isspace_of_isIndent {c : UInt8} (h : isIndent c) : isspace c := by
  rw [isIndent, Bool.or_eq_true, beq_iff_eq, beq_iff_eq] at h
  rcases h with rfl | rfl
  · decide
  · decide

/-- No line begins with a blank. -/
def Unindented (s : ByteString) : Prop :=
  ∀ piece ∈ s.splitOn (chr '\n'), ∀ c ∈ piece.head?, ¬ isIndent c

theorem Folded.unindented {s : ByteString} (h : Folded s) : Unindented s := fun piece mem c first =>
  fun indent => (h piece mem).1 c first (isspace_of_isIndent indent)

theorem unindented_line {s t : ByteString} :
    Unindented (s ++ chr '\n' :: t) ↔ Unindented s ∧ Unindented t := by
  rw [Unindented, List.splitOn_append_cons_self]
  exact List.forall_mem_append

/-- Something that is no blank in front of a text. -/
theorem Unindented.append {c : UInt8} {head s : ByteString} (h : Unindented s)
    (oneLine : OneLine (c :: head)) (first : ¬ isIndent c) : Unindented (c :: head ++ s) := by
  have piece : ∀ line : ByteString, ∀ b ∈ (c :: head ++ line).head?, ¬ isIndent b := by
    rintro line b ⟨⟩
    exact first
  by_cases there : chr '\n' ∈ s
  · obtain ⟨line, rest, rfl, clean⟩ := List.eq_append_cons_of_mem there
    have whole : OneLine (c :: head ++ line) := by
      rw [OneLine, List.mem_append, not_or]
      exact ⟨oneLine, clean⟩
    rw [← List.append_assoc, unindented_line]
    refine ⟨?_, (unindented_line.mp h).2⟩
    rw [Unindented, List.splitOn_eq_singleton whole]
    exact List.forall_mem_singleton.mpr (piece line)
  · have whole : OneLine (c :: head ++ s) := by
      rw [OneLine, List.mem_append, not_or]
      exact ⟨oneLine, there⟩
    rw [Unindented, List.splitOn_eq_singleton whole]
    exact List.forall_mem_singleton.mpr (piece s)

theorem mem_splitOn_of_mem_getlines {d : UInt8} {s line : ByteString}
    (h : line ∈ getlines d s) : line ∈ s.splitOn d := by
  unfold getlines at h
  dsimp only at h
  split at h
  · exact List.mem_of_mem_dropLast h
  · exact h

/-! ### What holds of all values -/

section Values

variable {P : ByteString → Prop} {x : StanzaState} {line : ByteString}

/-- All values satisfy the property. -/
def AllValues (P : ByteString → Prop) (fields : Fields) : Prop := ∀ kv ∈ fields.entries, P kv.2

structure StanzaState.Values (P : ByteString → Prop) (x : StanzaState) : Prop where
  stanzas : ∀ fields ∈ x.stanzas, AllValues P fields
  fields : AllValues P x.fields

theorem AllValues.lookup {fields : Fields} (h : AllValues P fields) {key value : ByteString}
    (found : fields.lookup key = some value) : P value :=
  h ⟨key, value⟩ (List.of_mem_dlookup (Option.mem_def.mpr found))

theorem AllValues.insert {fields : Fields} (h : AllValues P fields) {key value : ByteString}
    (own : P value) : AllValues P (fields.insert key value) := by
  intro kv mem
  rw [AList.entries_insert, List.mem_cons] at mem
  rcases mem with rfl | mem
  · exact own
  · exact h kv ((List.kerase_sublist _ _).subset mem)

theorem mem_kreplace {key value : ByteString} {l : List (Sigma fun _ : ByteString => ByteString)}
    {kv : Sigma fun _ : ByteString => ByteString} (h : kv ∈ List.kreplace key value l) :
    kv = ⟨key, value⟩ ∨ kv ∈ l := by
  unfold List.kreplace at h
  induction l with
  | nil => exact .inr h
  | cons first l ih =>
    rw [List.lookmap_cons] at h
    split at h
    · rcases List.mem_cons.mp h with rfl | h
      · exact .inr List.mem_cons_self
      · exact (ih h).imp_right (List.mem_cons_of_mem _)
    · rename_i found
      rcases List.mem_cons.mp h with rfl | h
      · split at found
        · exact .inl (Option.some.inj found).symm
        · cases found
      · exact .inr (List.mem_cons_of_mem _ h)

theorem AllValues.replace {fields : Fields} (h : AllValues P fields) {key value : ByteString}
    (own : P value) : AllValues P (fields.replace key value) := by
  intro kv mem
  rcases mem_kreplace mem with rfl | mem
  · exact own
  · exact h kv mem

theorem StanzaState.Values.flush (h : x.Values P) : x.flush.Values P := by
  unfold StanzaState.flush
  split
  · exact h
  · refine ⟨fun fields mem => ?_, fun kv mem => nomatch mem⟩
    rcases List.mem_append.mp mem with mem | mem
    · exact h.stanzas fields mem
    · rw [List.mem_singleton.mp mem]
      exact h.fields

/-- A line keeps what holds of all values, if it holds of single lines and is kept where a
line continues a value. -/
theorem stanzaLine_values (h : x.Values P) (oneLine : OneLine line)
    (own : ∀ value, OneLine value → Bare isspace value → P value)
    (more : (∃ c ∈ line.head?, isIndent c) → ∀ value rest, P value → OneLine rest →
      Bare isspace rest → P (value ++ str "\n" ++ rest)) : (stanzaLine x line).Values P := by
  have oneLine' : OneLine (dropCr line) := fun mem => oneLine (mem_of_mem_dropCr mem)
  have first : ∀ c rest, dropCr line = c :: rest → c ∈ line.head? := by
    intro c rest split
    unfold dropCr at split
    split at split
    · cases line with
      | nil => cases split
      | cons b line =>
        cases line with
        | nil => cases split
        | cons b' line =>
          rw [List.dropLast_cons_cons] at split
          exact congrArg some (List.cons.inj split).1
    · rw [split]
      rfl
  unfold stanzaLine
  dsimp only
  split
  · exact h.flush
  · rename_i c rest split
    split
    · rename_i indent
      split
      · exact h
      split
      · rename_i value found
        refine ⟨h.stanzas, h.fields.replace ?_⟩
        apply more ⟨c, first c rest split, indent⟩ _ _ (h.fields.lookup found)
        · exact fun mem => oneLine' (mem_of_mem_trim mem)
        · exact strip_bare _
      · exact h
    · split
      · split
        · exact h
        · refine ⟨h.stanzas, h.fields.insert (own _ (fun mem => oneLine' ?_) (strip_bare _))⟩
          exact (List.dropWhile_suffix _).mem (List.mem_of_mem_tail (mem_of_mem_trim mem))
      · exact h

/-- What holds of single lines and is kept by continuations holds of all values of a text. -/
theorem parseStanzas_values {content : ByteString}
    (own : ∀ value, OneLine value → Bare isspace value → P value)
    (more : ∀ line ∈ content.splitOn (chr '\n'), (∃ c ∈ line.head?, isIndent c) →
      ∀ value rest, P value → OneLine rest → Bare isspace rest → P (value ++ str "\n" ++ rest)) :
    ∀ fields ∈ parseStanzas content, AllValues P fields := by
  suffices fold : ∀ (lines : List ByteString) (x : StanzaState), x.Values P →
      (∀ line ∈ lines, line ∈ content.splitOn (chr '\n')) →
      (lines.foldl stanzaLine x).Values P by
    have start : StanzaState.Values P {} := ⟨nofun, fun kv mem => nomatch mem⟩
    exact (fold _ _ start fun line => mem_splitOn_of_mem_getlines).flush.stanzas
  intro lines
  induction lines with
  | nil => exact fun x h _ => h
  | cons line lines ih =>
    intro x h inside
    obtain ⟨first, others⟩ := List.forall_mem_cons.mp inside
    exact ih _ (stanzaLine_values h (not_mem_of_mem_splitOn first) own (more line first)) others

end Values

/-- **Every value is folded.** -/
theorem parseStanzas_folded (content : ByteString) :
    ∀ fields ∈ parseStanzas content, AllValues Folded fields :=
  parseStanzas_values (fun _ => folded_of_oneLine) fun _ _ _ _ _ folded => folded.append

/-- **Without indented lines, every value is one line.** -/
theorem parseStanzas_oneLine {content : ByteString} (h : Unindented content) :
    ∀ fields ∈ parseStanzas content, AllValues OneLine fields := by
  apply parseStanzas_values (fun _ oneLine _ => oneLine)
  rintro line mem ⟨c, first, indent⟩
  exact absurd indent (h line mem c first)

/-- A field that may be missing is the empty text, or a value. -/
theorem AllValues.getField {P : ByteString → Prop} {fields : Fields} (h : AllValues P fields)
    (empty : P []) (key : String) : P (getField fields key) := by
  unfold Repo.getField
  cases found : fields.lookup (str key) with
  | none => exact empty
  | some value => exact h.lookup found

/-! ### Reading back -/

abbrev Slot := Sigma fun _ : ByteString => ByteString

/-- `Key: value`. -/
def slotLine (slot : Slot) : ByteString := slot.1 ++ str ": " ++ slot.2

/-- A field that reads back: the key has no colon, and nothing has blanks at its ends. -/
structure SlotFits (slot : Slot) : Prop where
  noColon : chr ':' ∉ slot.1
  keyLine : OneLine slot.1
  keyBare : Bare isspace slot.1
  keyFilled : slot.1 ≠ []
  valueLine : OneLine slot.2
  valueBare : Bare isspace slot.2
  valueFilled : slot.2 ≠ []

section Back

variable {slot : Slot}

theorem SlotFits.line (h : SlotFits slot) : OneLine (slotLine slot) := by
  simp only [OneLine, slotLine, List.mem_append, not_or]
  exact ⟨⟨h.keyLine, by decide⟩, h.valueLine⟩

/-- A line with a key that has no colon sets the field of that key. -/
theorem stanzaLine_field {key value : ByteString} (noColon : chr ':' ∉ key)
    (keyBare : Bare isspace key) (filled : key ≠ []) (valueBare : Bare isspace value)
    (x : StanzaState) :
    stanzaLine x (key ++ str ": " ++ value) =
      { x with fields := x.fields.insert key value, currentKey := key } := by
  obtain ⟨first, rest, rfl⟩ : ∃ c rest, key = c :: rest := List.exists_cons_of_ne_nil filled
  have cr : dropCr (first :: rest ++ str ": " ++ value) = first :: rest ++ str ": " ++ value := by
    unfold dropCr
    rw [if_neg]
    intro last
    by_cases empty : value = []
    · rw [empty, List.append_nil, List.getLast?_append_of_ne_nil _ (by decide)] at last
      exact absurd last (by decide)
    · rw [List.getLast?_append_of_ne_nil _ empty] at last
      exact valueBare.2 _ last (by decide)
  have notIndent : ¬ isIndent first := fun indent =>
    keyBare.1 first rfl (isspace_of_isIndent indent)
  have colon : (first :: rest ++ str ": " ++ value).contains (chr ':') = true := by
    simp [str, chr]
  have before : ∀ c ∈ first :: rest, (c != chr ':') = true := by
    intro c mem
    have : c ≠ chr ':' := fun same => noColon (same ▸ mem)
    simpa using this
  have key : trim (upTo (· == chr ':') (first :: rest ++ str ": " ++ value)) = first :: rest := by
    have cut : upTo (· == chr ':') (first :: rest ++ str ": " ++ value) = first :: rest := by
      unfold upTo
      rw [List.append_assoc]
      exact (List.takeWhile_append_of_pos before).trans (List.append_nil _)
    rw [cut, trim_eq, keyBare.strip]
  have value' :
      trim ((first :: rest ++ str ": " ++ value).dropWhile (· != chr ':')).tail = value := by
    have cut : ((first :: rest ++ str ": " ++ value).dropWhile (· != chr ':')).tail =
        chr ' ' :: value := by
      rw [List.append_assoc, List.dropWhile_append_of_pos before]
      rfl
    rw [cut, trim, List.dropWhile_cons_of_pos (by decide)]
    exact valueBare.strip
  have indent : (first == chr ' ' || first == chr '\t') = false := by
    simpa [isIndent] using notIndent
  have line : first :: rest ++ str ": " ++ value = first :: (rest ++ str ": " ++ value) := rfl
  rw [line] at cr colon key value' ⊢
  unfold stanzaLine
  rw [cr]
  dsimp only
  rw [if_neg (by simp [indent]), if_pos colon, key, value', if_neg (by simp)]

/-- A field is read. -/
theorem stanzaLine_slot (h : SlotFits slot) (x : StanzaState) :
    stanzaLine x (slotLine slot) =
      { x with fields := x.fields.insert slot.1 slot.2, currentKey := slot.1 } :=
  stanzaLine_field h.noColon h.keyBare h.keyFilled h.valueBare x

/-- The fields of a stanza with these lines. -/
def slotFields (slots : List Slot) : Fields := slots.foldl (fun m kv => m.insert kv.1 kv.2) ∅

theorem foldl_slots {slots : List Slot} (h : ∀ slot ∈ slots, SlotFits slot) (x : StanzaState) :
    ∃ key, (slots.map slotLine).foldl stanzaLine x =
      { stanzas := x.stanzas
        fields := slots.foldl (fun m kv => m.insert kv.1 kv.2) x.fields
        currentKey := key } := by
  induction slots generalizing x with
  | nil => exact ⟨x.currentKey, rfl⟩
  | cons slot slots ih =>
    obtain ⟨first, others⟩ := List.forall_mem_cons.mp h
    rw [List.map_cons, List.foldl_cons, stanzaLine_slot first]
    exact ih others _

/-- The lines of a stanza, with an empty one behind them. -/
def slotLines (slots : List Slot) : List ByteString := slots.map slotLine ++ [[]]

theorem slotFields_filled {slots : List Slot} (filled : slots ≠ []) :
    (slotFields slots).entries ≠ [] := by
  rw [slotFields, ← List.dropLast_append_getLast filled, List.foldl_append, List.foldl_cons,
    List.foldl_nil, AList.entries_insert]
  exact List.cons_ne_nil _ _

/-- Between stanzas. -/
def done (stanzas : List Fields) : StanzaState := { stanzas }

theorem foldl_slotLines {slots : List Slot} (h : ∀ slot ∈ slots, SlotFits slot)
    (filled : slots ≠ []) (stanzas : List Fields) :
    (slotLines slots).foldl stanzaLine (done stanzas) = done (stanzas ++ [slotFields slots]) := by
  obtain ⟨key, lines⟩ := foldl_slots h (done stanzas)
  rw [slotLines, List.foldl_append, lines, List.foldl_cons, List.foldl_nil]
  have flush : ∀ x : StanzaState, stanzaLine x [] = x.flush := fun _ => rfl
  rw [flush, StanzaState.flush, if_neg]
  · rfl
  · rw [List.isEmpty_iff]
    exact slotFields_filled filled

/-- Some stanzas, with an empty line before each. -/
theorem foldl_moreSlotLines {stanzas : List (List Slot)}
    (h : ∀ slots ∈ stanzas, slots ≠ [] ∧ ∀ slot ∈ slots, SlotFits slot) (before : List Fields) :
    (stanzas.flatMap fun slots => [] :: slotLines slots).foldl stanzaLine (done before) =
      done (before ++ stanzas.map slotFields) := by
  induction stanzas generalizing before with
  | nil => rw [List.map_nil, List.append_nil, List.flatMap_nil, List.foldl_nil]
  | cons slots stanzas ih =>
    obtain ⟨⟨filled, fits⟩, others⟩ := List.forall_mem_cons.mp h
    have blank : stanzaLine (done before) [] = done before := rfl
    rw [List.flatMap_cons, List.cons_append, List.foldl_cons, blank, List.foldl_append,
      foldl_slotLines fits filled, ih others, List.map_cons, List.append_assoc,
      List.singleton_append]

theorem slotLines_oneLine {slots : List Slot} (h : ∀ slot ∈ slots, SlotFits slot) :
    ∀ line ∈ slotLines slots, OneLine line := by
  intro line mem
  rcases List.mem_append.mp mem with mem | mem
  · obtain ⟨slot, inside, rfl⟩ := List.mem_map.mp mem
    exact (h slot inside).line
  · rw [List.mem_singleton.mp mem]
    exact List.not_mem_nil

/-- The text of some stanzas. -/
def slotsText (slots : List Slot) : ByteString := unlines (chr '\n') (slotLines slots)

theorem intercalate_cons {α : Type} (sep x : List α) (xs : List (List α)) :
    sep.intercalate (x :: xs) = x ++ xs.flatMap (sep ++ ·) := by
  induction xs generalizing x with
  | nil => simp [List.intercalate]
  | cons y xs ih =>
    rw [List.intercalate_cons_cons, ih, List.flatMap_cons, List.append_assoc, List.append_assoc]

/-- **Stanzas are read back** as they were written. -/
theorem parseStanzas_slots {stanzas : List (List Slot)}
    (h : ∀ slots ∈ stanzas, slots ≠ [] ∧ ∀ slot ∈ slots, SlotFits slot) :
    parseStanzas ((str "\n").intercalate (stanzas.map slotsText)) = stanzas.map slotFields := by
  cases stanzas with
  | nil => rfl
  | cons slots stanzas =>
    obtain ⟨⟨filled, fits⟩, others⟩ := List.forall_mem_cons.mp h
    have text : (str "\n").intercalate ((slots :: stanzas).map slotsText) =
        unlines (chr '\n') (slotLines slots ++
          stanzas.flatMap fun slots => [] :: slotLines slots) ++ [] := by
      rw [List.map_cons, intercalate_cons, List.append_nil, unlines, List.flatMap_append,
        List.flatMap_map, List.flatMap_assoc]
      rfl
    have lines : ∀ line ∈ slotLines slots ++ stanzas.flatMap fun slots => [] :: slotLines slots,
        OneLine line := by
      intro line mem
      rcases List.mem_append.mp mem with mem | mem
      · exact slotLines_oneLine fits line mem
      · obtain ⟨slots', inside, mem⟩ := List.mem_flatMap.mp mem
        rcases List.mem_cons.mp mem with rfl | mem
        · exact List.not_mem_nil
        · exact slotLines_oneLine (others slots' inside).2 line mem
    have split : getlines (chr '\n') ((str "\n").intercalate ((slots :: stanzas).map slotsText)) =
        slotLines slots ++ stanzas.flatMap fun slots => [] :: slotLines slots := by
      unfold getlines
      rw [text, splitOn_unlines lines]
      simp
    have start : (done [] : StanzaState) = {} := rfl
    rw [parseStanzas, split, List.foldl_append, ← start, foldl_slotLines fits filled,
      foldl_moreSlotLines others]
    rfl

/-- A field of a record whose empty fields are left out. -/
theorem getField_slotFields {slots : List (ByteString × ByteString)}
    (nodup : (slots.map Prod.fst).Nodup) {key : String} {value : ByteString}
    (mem : (str key, value) ∈ slots) : getField (slotFields (slotEntries slots)) key = value := by
  rw [getField, slotFields, lookup_foldl_insert (slotEntries_nodupKeys nodup), AList.lookup_empty,
    Option.or_none]
  exact dlookup_slotEntries nodup mem

end Back

/-! ### Dependencies -/

/-- A name as `parseDependsField` gives it. -/
structure DepName (name : ByteString) : Prop where
  filled : name ≠ []
  letters : ∀ c ∈ name, ¬ isspace c ∧ c ≠ chr ',' ∧ c ≠ chr '|' ∧ c ≠ chr '(' ∧ c ≠ chr ':'

theorem mem_upTo {stop : UInt8 → Bool} {s : ByteString} {c : UInt8} (h : c ∈ upTo stop s) :
    c ∈ s ∧ ¬ stop c := by
  refine ⟨(List.takeWhile_prefix _).mem h, ?_⟩
  have := List.mem_takeWhile_imp h
  simpa using this

theorem upTo_eq_self {stop : UInt8 → Bool} {s : ByteString} (h : ∀ c ∈ s, ¬ stop c) :
    upTo stop s = s := by
  rw [upTo, List.takeWhile_eq_self_iff]
  intro c mem
  simpa using h c mem

theorem bare_of_noSpace {s : ByteString} (h : ∀ c ∈ s, ¬ isspace c) : Bare isspace s :=
  ⟨fun c first => h c (List.mem_of_head? first), fun c last => h c (List.mem_of_getLast? last)⟩

theorem DepName.bare {name : ByteString} (h : DepName name) : Bare isspace name :=
  bare_of_noSpace fun c mem => (h.letters c mem).1

theorem mem_splitAndTrim {s piece : ByteString} {d : UInt8} (h : piece ∈ splitAndTrim s d) :
    piece ≠ [] ∧ Bare isspace piece ∧ d ∉ piece ∧ ∀ c ∈ piece, c ∈ s := by
  obtain ⟨mem, filled⟩ := List.mem_filter.mp h
  obtain ⟨line, listed, rfl⟩ := List.mem_map.mp mem
  have inside := mem_splitOn_of_mem_getlines listed
  refine ⟨by simpa using filled, strip_bare _, fun c => ?_, fun c mem => ?_⟩
  · exact not_mem_of_mem_splitOn inside (mem_of_mem_trim c)
  · exact mem_of_mem_splitOn inside (mem_of_mem_trim mem)

/-- The package that a group of alternatives names. -/
def parseDepend (group : ByteString) : Option ByteString :=
  let firstAlt := if group.contains (chr '|') then trim (upTo (· == chr '|') group) else group
  let name := trim (upTo (fun c => isspace c || c == chr '(') firstAlt)
  let name := if name.contains (chr ':') then trim (upTo (· == chr ':') name) else name
  if name.isEmpty then none else some name

theorem parseDependsField_eq (raw : ByteString) :
    parseDependsField raw = (splitAndTrim raw (chr ',')).filterMap parseDepend := rfl

/-- A dependency is a name. -/
theorem depName_of_mem {raw name : ByteString} (h : name ∈ parseDependsField raw) :
    DepName name := by
  rw [parseDependsField_eq] at h
  obtain ⟨group, inside, found⟩ := List.mem_filterMap.mp h
  have comma := (mem_splitAndTrim inside).2.2.1
  obtain ⟨alt, same, letters⟩ : ∃ alt : ByteString,
      (if group.contains (chr '|') then trim (upTo (· == chr '|') group) else group) = alt ∧
        ∀ c ∈ alt, c ≠ chr ',' ∧ c ≠ chr '|' := by
    refine ⟨_, rfl, fun c mem => ?_⟩
    split at mem
    · obtain ⟨inside, stop⟩ := mem_upTo (mem_of_mem_trim mem)
      exact ⟨fun same => comma (same ▸ inside), by simpa using stop⟩
    · rename_i noPipe
      have noPipe : chr '|' ∉ group := by simpa using noPipe
      exact ⟨fun same => comma (same ▸ mem), fun same => noPipe (same ▸ mem)⟩
  unfold parseDepend at found
  dsimp only at found
  rw [same] at found
  have word : ∀ c ∈ trim (upTo (fun c => isspace c || c == chr '(') alt),
      ¬ isspace c ∧ c ≠ chr ',' ∧ c ≠ chr '|' ∧ c ≠ chr '(' := by
    intro c mem
    obtain ⟨inside, stop⟩ := mem_upTo (mem_of_mem_trim mem)
    rw [Bool.or_eq_true, not_or] at stop
    exact ⟨stop.1, (letters c inside).1, (letters c inside).2, by simpa using stop.2⟩
  revert word found
  generalize trim (upTo (fun c => isspace c || c == chr '(') alt) = word
  intro found letters
  obtain ⟨base, same, unqualified⟩ : ∃ base : ByteString,
      (if word.contains (chr ':') then trim (upTo (· == chr ':') word) else word) = base ∧
        ∀ c ∈ base, c ∈ word ∧ c ≠ chr ':' := by
    refine ⟨_, rfl, fun c mem => ?_⟩
    split at mem
    · obtain ⟨inside, stop⟩ := mem_upTo (mem_of_mem_trim mem)
      exact ⟨inside, by simpa using stop⟩
    · rename_i noColon
      have noColon : chr ':' ∉ word := by simpa using noColon
      exact ⟨mem, fun same => noColon (same ▸ mem)⟩
  rw [same] at found
  split at found
  · cases found
  rename_i filled
  obtain rfl := Option.some.inj found
  refine ⟨by simpa using filled, fun c mem => ?_⟩
  obtain ⟨inside, colon⟩ := unqualified c mem
  obtain ⟨space, comma, pipe, paren⟩ := letters c inside
  exact ⟨space, comma, pipe, paren, colon⟩

/-- Names put together with commas are taken apart again. -/
theorem parseDependsField_intercalate {names : List ByteString}
    (h : ∀ name ∈ names, DepName name) :
    parseDependsField ((str ", ").intercalate names) = names := by
  cases names with
  | nil => rfl
  | cons name names =>
    obtain ⟨first, others⟩ := List.forall_mem_cons.mp h
    have pieces : ((str ", ").intercalate (name :: names)).splitOn (chr ',') =
        name :: names.map (chr ' ' :: ·) := by
      have text : (str ", ").intercalate (name :: names) =
          [chr ','].intercalate (name :: names.map (chr ' ' :: ·)) := by
        rw [intercalate_cons, intercalate_cons, List.flatMap_map]
        rfl
      rw [text]
      apply List.splitOn_intercalate _ _ (List.cons_ne_nil _ _)
      intro piece mem comma
      rcases List.mem_cons.mp mem with rfl | mem
      · exact (first.letters _ comma).2.1 rfl
      · obtain ⟨other, inside, rfl⟩ := List.mem_map.mp mem
        rcases List.mem_cons.mp comma with blank | comma
        · exact absurd blank (by decide)
        · exact ((others other inside).letters _ comma).2.1 rfl
    have filled : ∀ piece ∈ name :: names.map (chr ' ' :: ·), piece ≠ [] := by
      intro piece mem
      rcases List.mem_cons.mp mem with rfl | mem
      · exact first.filled
      · obtain ⟨other, -, rfl⟩ := List.mem_map.mp mem
        exact List.cons_ne_nil _ _
    have lines : getlines (chr ',') ((str ", ").intercalate (name :: names)) =
        name :: names.map (chr ' ' :: ·) := by
      unfold getlines
      rw [pieces]
      dsimp only
      rw [if_neg]
      intro last
      exact filled _ (List.mem_of_getLast? last) rfl
    have trimmed : (name :: names.map (chr ' ' :: ·)).map trim = name :: names := by
      have blank : ∀ other ∈ names, (trim ∘ (chr ' ' :: ·)) other = id other := by
        intro other mem
        rw [Function.comp_apply, trim, List.dropWhile_cons_of_pos (by decide)]
        exact (others other mem).bare.strip
      rw [List.map_cons, List.map_map, trim_eq, first.bare.strip, List.map_congr_left blank,
        List.map_id]
    have own : ∀ other ∈ name :: names, parseDepend other = some other := by
      intro other mem
      obtain ⟨filled, letters⟩ := h other mem
      have noPipe : chr '|' ∉ other := fun mem => (letters _ mem).2.2.1 rfl
      have noColon : chr ':' ∉ other := fun mem => (letters _ mem).2.2.2.2 rfl
      have word : upTo (fun c => isspace c || c == chr '(') other = other := by
        apply upTo_eq_self
        intro c mem stop
        rw [Bool.or_eq_true] at stop
        rcases stop with space | paren
        · exact (letters c mem).1 space
        · exact (letters c mem).2.2.2.1 (by simpa using paren)
      have bare : trim other = other := (h other mem).bare.strip
      simp [parseDepend, noPipe, noColon, word, bare, filled]
    rw [parseDependsField_eq, splitAndTrim, lines, trimmed, List.filter_eq_self.mpr]
    · exact (List.filterMap_congr own).trans (List.filterMap_some)
    · intro other mem
      have := (h other mem).filled
      simpa using this

/-- **Dependencies survive the status file**: what is read are names, and they are read again from
the text they are written as. -/
theorem dependNames_roundTrip (raw : ByteString) :
    (∀ name ∈ parseDependsField raw, name ≠ [] ∧ ∀ c ∈ name,
      ¬ isspace c ∧ c ≠ chr ',' ∧ c ≠ chr '|' ∧ c ≠ chr '(' ∧ c ≠ chr ':') ∧
    parseDependsField ((str ", ").intercalate (parseDependsField raw)) =
      parseDependsField raw := by
  constructor
  · intro name mem
    obtain ⟨filled, letters⟩ := depName_of_mem mem
    exact ⟨filled, letters⟩
  · exact parseDependsField_intercalate fun name mem => depName_of_mem mem

end Apm.Repo
