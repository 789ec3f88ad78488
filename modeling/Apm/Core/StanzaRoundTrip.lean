import Apm.Core.StanzaText

/-!
`parseStanzas` of `src/core/status_db.cpp` and of `src/core/repo_index.cpp` on one text, and on
stanzas whose values have several lines.

## Main results

* `stanzas_roundTrip`: stanzas are read back as they were written, and both functions read the same
  from every text.
-/

namespace Apm.Repo

open Apm.Lib.Assoc Apm.Lib.Text

/-! ### The function that moves its fields -/

/-- `fields.clear()`, whatever is in the map. -/
def clearFields (_ : Fields) : Fields := ∅

section Moving

-- What `std::move` leaves in a map is not specified.
variable (moved : Fields → Fields)

/-- `flushCurrent` of `repo_index.cpp`. -/
def flushMoving (x : StanzaState) : StanzaState :=
  if x.fields.entries.isEmpty then x
  else
    { stanzas := x.stanzas ++ [x.fields]
      fields := clearFields (moved x.fields)
      currentKey := [] }

/-- One line, in `repo_index.cpp`. -/
def movingLine (x : StanzaState) (line : ByteString) : StanzaState :=
  let line := dropCr line
  if line.isEmpty then flushMoving moved x
  else if line.head? == some (chr ' ') || line.head? == some (chr '\t') then
    if x.currentKey.isEmpty then x
    else
      match x.fields.lookup x.currentKey with
      | none => x
      | some value =>
          { x with fields := x.fields.replace x.currentKey (value ++ str "\n" ++ trim line) }
  else if !line.contains (chr ':') then x
  else
    let key := trim (upTo (· == chr ':') line)
    let value := trim (line.dropWhile (· != chr ':')).tail
    if !key.isEmpty then { x with fields := x.fields.insert key value, currentKey := key }
    else x

/-- `parseStanzas` of `repo_index.cpp`. -/
def parseStanzasMoving (content : ByteString) : List Fields :=
  (flushMoving moved ((getlines (chr '\n') content).foldl (movingLine moved) {})).stanzas

theorem flushMoving_eq (x : StanzaState) : flushMoving moved x = x.flush := rfl

theorem movingLine_eq (x : StanzaState) (line : ByteString) :
    movingLine moved x line = stanzaLine x line := by
  unfold movingLine stanzaLine
  dsimp only
  rw [flushMoving_eq]
  cases dropCr line with
  | nil => rfl
  | cons first rest =>
    have filled : ¬ (first :: rest).isEmpty := by simp
    rw [if_neg filled, List.head?_cons]
    dsimp only
    by_cases indent : first == chr ' ' || first == chr '\t'
    · rw [if_pos indent, if_pos (by simpa using indent)]
      split
      · rfl
      · cases x.fields.lookup x.currentKey <;> rfl
    · rw [if_neg indent, if_neg (by simpa using indent)]
      by_cases colon : (first :: rest).contains (chr ':') = true
      · rw [if_pos colon, if_neg (by rw [colon]; decide)]
        split
        · rename_i filled
          exact (if_neg (by simpa using filled)).symm
        · rename_i empty
          exact (if_pos (by simpa using empty)).symm
      · rw [if_neg colon, if_pos (by rw [Bool.eq_false_iff.mpr colon]; rfl)]

/-- **Both functions read the same.** -/
theorem parseStanzasMoving_eq (content : ByteString) :
    parseStanzasMoving moved content = parseStanzas content := by
  have line : movingLine moved = stanzaLine := funext fun x => funext (movingLine_eq moved x)
  rw [parseStanzasMoving, parseStanzas, flushMoving_eq, line]

end Moving

/-! ### Stanzas and their texts -/

/-- A field whose value may have several lines, none of them with blanks at its ends. -/
structure StanzaField where
  key : ByteString
  value : ByteString
  key_noColon : chr ':' ∉ key
  key_line : OneLine key
  key_bare : Bare isspace key
  key_filled : key ≠ []
  value_folded : Folded value

/-- The lines of a field: `Key: value`, and the further lines of the value, indented. -/
def StanzaField.lines (field : StanzaField) : List ByteString :=
  match field.value.splitOn (chr '\n') with
  | [] => []
  | first :: more => (field.key ++ str ": " ++ first) :: more.map (chr ' ' :: ·)

/-- Fields with different keys. -/
structure Stanza where
  fields : List StanzaField
  filled : fields ≠ []
  distinct : (fields.map (·.key)).Nodup

namespace Stanza

/-- The map of a stanza. -/
def map (stanza : Stanza) (key : ByteString) : Option ByteString :=
  (stanza.fields.find? (·.key == key)).map (·.value)

/-- The fields as entries of a map. -/
def slots (stanza : Stanza) : List Slot := stanza.fields.map fun field => ⟨field.key, field.value⟩

def lines (stanza : Stanza) : List ByteString := stanza.fields.flatMap (·.lines)

/-- The text of a stanza. -/
def text (stanza : Stanza) : ByteString := unlines (chr '\n') stanza.lines

end Stanza

/-- The texts of stanzas, with an empty line between any two. -/
def stanzasText (stanzas : List Stanza) : ByteString :=
  (str "\n").intercalate (stanzas.map (·.text))

/-! ### Reading the lines of a stanza -/

/-- A line that continues the value of the current key. -/
theorem stanzaLine_more {piece key value : ByteString} (filled : key ≠ [])
    (bare : Bare isspace piece) {x : StanzaState} (current : x.currentKey = key) (found : x.fields.lookup key = some value) :
    stanzaLine x (chr ' ' :: piece) =
      { x with fields := x.fields.replace key (value ++ str "\n" ++ piece) } := by
  have cr : dropCr (chr ' ' :: piece) = chr ' ' :: piece := by
    apply if_neg
    intro last
    cases piece with
    | nil => exact absurd last (by decide)
    | cons c piece =>
      rw [List.getLast?_cons_cons] at last
      exact bare.2 _ last (by decide)
  have trimmed : trim (chr ' ' :: piece) = piece := by
    rw [trim, List.dropWhile_cons_of_pos (by decide)]
    exact bare.strip
  subst current
  unfold stanzaLine
  rw [cr]
  dsimp only
  rw [if_pos (by decide), if_neg (by simpa using filled), found]
  dsimp only
  rw [trimmed]

theorem replace_insert (fields : Fields) (key value value' : ByteString) :
    (fields.insert key value).replace key value' = fields.insert key value' := by
  apply AList.ext
  change List.kreplace key value' (fields.insert key value).entries = _
  rw [AList.entries_insert, AList.entries_insert, List.kreplace]
  exact List.lookmap_cons_some _ _ (if_pos rfl)

/-- The further lines of a value are put behind it. -/
theorem foldl_more {key : ByteString} (filled : key ≠ []) {more : List ByteString}
    (bare : ∀ piece ∈ more, Bare isspace piece) (stanzas : List Fields) (fields : Fields)
    (value : ByteString) :
    (more.map (chr ' ' :: ·)).foldl stanzaLine ⟨stanzas, fields.insert key value, key⟩ =
      ⟨stanzas, fields.insert key (value ++ more.flatMap (str "\n" ++ ·)), key⟩ := by
  induction more generalizing value with
  | nil => rw [List.flatMap_nil, List.append_nil, List.map_nil, List.foldl_nil]
  | cons piece more ih =>
    obtain ⟨first, others⟩ := List.forall_mem_cons.mp bare
    have line := stanzaLine_more (x := ⟨stanzas, fields.insert key value, key⟩) filled first rfl
      (AList.lookup_insert fields)
    rw [List.map_cons, List.foldl_cons, line, replace_insert, ih others, List.flatMap_cons]
    simp only [List.append_assoc]

/-- The lines of a field set it. -/
theorem StanzaField.foldl_lines (field : StanzaField) (x : StanzaState) :
    field.lines.foldl stanzaLine x =
      ⟨x.stanzas, x.fields.insert field.key field.value, field.key⟩ := by
  obtain ⟨first, more, pieces⟩ : ∃ first more, field.value.splitOn (chr '\n') = first :: more :=
    List.exists_cons_of_ne_nil (List.splitOn_ne_nil _ _)
  have whole : first ++ more.flatMap (str "\n" ++ ·) = field.value := by
    have joined : [chr '\n'].intercalate (field.value.splitOn (chr '\n')) = field.value :=
      List.intercalate_splitOn _
    rw [pieces, intercalate_cons] at joined
    exact joined
  have bare := field.value_folded
  rw [Folded, pieces] at bare
  obtain ⟨head, others⟩ := List.forall_mem_cons.mp bare
  unfold StanzaField.lines
  rw [pieces]
  dsimp only
  rw [List.foldl_cons, stanzaLine_field field.key_noColon field.key_bare field.key_filled head,
    foldl_more field.key_filled others, whole]

/-! ### Reading stanzas -/

namespace Stanza

/-- The lines of a stanza set its fields. -/
theorem foldl_lines (stanza : Stanza) (before : List Fields) :
    ∃ key, stanza.lines.foldl stanzaLine (done before) =
      ⟨before, slotFields stanza.slots, key⟩ := by
  suffices fold : ∀ (fields : List StanzaField) (x : StanzaState),
      ∃ key, (fields.flatMap (·.lines)).foldl stanzaLine x =
        ⟨x.stanzas, (fields.map fun field => (⟨field.key, field.value⟩ : Slot)).foldl
          (fun m kv => m.insert kv.1 kv.2) x.fields, key⟩ from
    fold stanza.fields (done before)
  intro fields
  induction fields with
  | nil => exact fun x => ⟨x.currentKey, rfl⟩
  | cons field fields ih =>
    intro x
    rw [List.flatMap_cons, List.foldl_append, field.foldl_lines]
    exact ih _

/-- What ends a stanza behind its lines. -/
theorem flush_lines (stanza : Stanza) (before : List Fields) :
    (stanza.lines.foldl stanzaLine (done before)).flush =
      done (before ++ [slotFields stanza.slots]) := by
  obtain ⟨key, read⟩ := stanza.foldl_lines before
  have filled : stanza.slots ≠ [] := fun empty => stanza.filled (List.map_eq_nil_iff.mp empty)
  rw [read, StanzaState.flush, if_neg]
  · rfl
  · rw [List.isEmpty_iff]
    exact slotFields_filled filled

theorem lookup_slots (stanza : Stanza) (key : ByteString) :
    (slotFields stanza.slots).lookup key = stanza.map key := by
  have nodup : stanza.slots.NodupKeys := by
    have keys : stanza.slots.keys = stanza.fields.map (·.key) := by
      rw [slots, List.keys, List.map_map]
      rfl
    rw [List.NodupKeys, keys]
    exact stanza.distinct
  rw [slotFields, lookup_foldl_insert nodup, AList.lookup_empty, Option.or_none, slots, map]
  generalize stanza.fields = fields
  induction fields with
  | nil => rfl
  | cons field fields ih =>
    rw [List.map_cons, List.find?_cons]
    by_cases same : key = field.key
    · subst same
      rw [List.dlookup_cons_eq, beq_self_eq_true]
      rfl
    · rw [List.dlookup_cons_ne _ _ same, ih, beq_eq_false_iff_ne.mpr (Ne.symm same)]

theorem lines_oneLine (stanza : Stanza) : ∀ line ∈ stanza.lines, OneLine line := by
  intro line mem
  obtain ⟨field, -, mem⟩ := List.mem_flatMap.mp mem
  have pieces : ∀ piece ∈ field.value.splitOn (chr '\n'), OneLine piece :=
    fun piece => not_mem_of_mem_splitOn
  unfold StanzaField.lines at mem
  revert mem pieces
  cases field.value.splitOn (chr '\n') with
  | nil => exact fun mem => nomatch mem
  | cons first more =>
    intro mem pieces
    obtain ⟨head, others⟩ := List.forall_mem_cons.mp pieces
    rcases List.mem_cons.mp mem with rfl | mem
    · simp only [OneLine, List.mem_append, not_or]
      exact ⟨⟨field.key_line, by decide⟩, head⟩
    · obtain ⟨piece, inside, rfl⟩ := List.mem_map.mp mem
      rw [OneLine, List.mem_cons, not_or]
      exact ⟨by decide, others piece inside⟩

end Stanza

/-- Stanzas with an empty line before each but the first one. -/
theorem flush_stanzas (first : Stanza) (rest : List Stanza) (before : List Fields) :
    ((first.lines ++ rest.flatMap fun stanza => [] :: stanza.lines).foldl stanzaLine
      (done before)).flush = done (before ++ (first :: rest).map fun s => slotFields s.slots) := by
  induction rest generalizing first before with
  | nil => rw [List.flatMap_nil, List.append_nil, first.flush_lines, List.map_singleton]
  | cons next rest ih =>
    have blank : ∀ x : StanzaState, stanzaLine x [] = x.flush := fun _ => rfl
    rw [List.flatMap_cons, List.cons_append, List.foldl_append, List.foldl_cons, blank,
      first.flush_lines, ih, List.map_cons (a := first), List.append_assoc, List.singleton_append]

theorem parseStanzas_stanzasText (stanzas : List Stanza) :
    parseStanzas (stanzasText stanzas) = stanzas.map fun s => slotFields s.slots := by
  cases stanzas with
  | nil => rfl
  | cons first rest =>
    have text : stanzasText (first :: rest) =
        unlines (chr '\n') (first.lines ++ rest.flatMap fun s => [] :: s.lines) ++ [] := by
      rw [stanzasText, List.map_cons, intercalate_cons, List.append_nil, unlines,
        List.flatMap_append, List.flatMap_map, List.flatMap_assoc]
      rfl
    have lines : ∀ line ∈ first.lines ++ rest.flatMap fun s => [] :: s.lines, OneLine line := by
      intro line mem
      rcases List.mem_append.mp mem with mem | mem
      · exact first.lines_oneLine line mem
      · obtain ⟨stanza, -, mem⟩ := List.mem_flatMap.mp mem
        rcases List.mem_cons.mp mem with rfl | mem
        · exact List.not_mem_nil
        · exact stanza.lines_oneLine line mem
    have empty : getlines (chr '\n') [] = [] := rfl
    have start : (done [] : StanzaState) = {} := rfl
    rw [parseStanzas, text, getlines_unlines lines, empty, List.append_nil, ← start,
      flush_stanzas]
    rfl

/-- **Stanzas are read back as maps**, by each of the two functions, which agree on every text. -/
theorem stanzas_roundTrip (stanzas : List Stanza) (moved : Fields → Fields)
    (content : ByteString) :
    (parseStanzas (stanzasText stanzas)).map (fun fields key => fields.lookup key) =
        stanzas.map Stanza.map ∧
      parseStanzasMoving moved content = parseStanzas content := by
  constructor
  · rw [parseStanzas_stanzasText, List.map_map]
    exact List.map_congr_left fun stanza _ => funext stanza.lookup_slots
  · exact parseStanzasMoving_eq moved content

end Apm.Repo
