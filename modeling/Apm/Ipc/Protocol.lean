import Apm.Util.LineText

/-!
The wire format of `src/apmd/protocol.cpp`: lines of `key:value` up to a blank line, with
backslashes and line breaks of the values escaped.

## Main results

* `unescape_escape`: escaping a value loses nothing;
* `parseKeyValueLines_headers`: what is read back from headers are their values without
  the blanks at their ends.
-/

namespace Apm.Ipc

open Apm.Repo (Fields)
open Apm.Lib.Text

/-! ### Values -/

def escapeByte (c : UInt8) : ByteString :=
  if c = chr '\\' then str "\\\\"
  else if c = chr '\n' then str "\\n"
  else if c = chr '\r' then str "\\r"
  else [c]

def escapeFieldValue (value : ByteString) : ByteString := value.flatMap escapeByte

/-- What an escape stands for. Unknown escapes are kept. -/
def unescapeByte (next : UInt8) : ByteString :=
  if next = chr 'n' then [chr '\n']
  else if next = chr 'r' then [chr '\r']
  else if next = chr '\\' then [chr '\\']
  else [chr '\\', next]

def unescapeFieldValue : ByteString → ByteString
  | [] => []
  | [c] => [c]
  | c :: next :: rest =>
      if c = chr '\\' then unescapeByte next ++ unescapeFieldValue rest
      else c :: unescapeFieldValue (next :: rest)

/-! ### Headers -/

/-- A key and its value. -/
abbrev Header := Sigma fun _ : ByteString => ByteString

def headerLine (header : Header) : ByteString :=
  header.1 ++ str ":" ++ escapeFieldValue header.2

/-- Lines of headers and a blank one. -/
def serializeHeaders (headers : List Header) : ByteString :=
  unlines (chr '\n') (headers.map headerLine) ++ str "\n"

/-- The loop of `parseKeyValueLines`, over the lines that are left. -/
def parseLines : List ByteString → Fields → Except ByteString Fields
  | [], fields => .ok fields
  | line :: rest, fields =>
      let line := dropCr line
      if line.isEmpty then .ok fields
      else if !line.contains (chr ':') then .error (str "Malformed line: " ++ line)
      else
        let key := trim (upTo (· == chr ':') line)
        let value := trim (line.dropWhile (· != chr ':')).tail
        if key.isEmpty then .error (str "Empty key in line: " ++ line)
        else parseLines rest (fields.insert key (unescapeFieldValue value))

def parseKeyValueLines (raw : ByteString) : Except ByteString Fields :=
  parseLines (getlines (chr '\n') raw) ∅

/-! ### Escaping -/

theorem unescapeFieldValue_cons {c : UInt8} (plain : c ≠ chr '\\') (rest : ByteString) :
    unescapeFieldValue (c :: rest) = c :: unescapeFieldValue rest := by
  cases rest with
  | nil => rfl
  | cons next rest => rw [unescapeFieldValue, if_neg plain]

/-- **Escaping loses nothing.** -/
theorem unescape_escape (value : ByteString) :
    unescapeFieldValue (escapeFieldValue value) = value := by
  induction value with
  | nil => rfl
  | cons c value ih =>
    have split : escapeFieldValue (c :: value) = escapeByte c ++ escapeFieldValue value := rfl
    rw [split]
    by_cases backslash : c = chr '\\'
    · subst backslash
      exact congrArg (chr '\\' :: ·) ih
    by_cases newline : c = chr '\n'
    · subst newline
      exact congrArg (chr '\n' :: ·) ih
    by_cases cr : c = chr '\r'
    · subst cr
      exact congrArg (chr '\r' :: ·) ih
    rw [escapeByte, if_neg backslash, if_neg newline, if_neg cr, List.singleton_append,
      unescapeFieldValue_cons backslash, ih]

theorem escape_noBreak {b : UInt8} (h : b = chr '\n' ∨ b = chr '\r') (value : ByteString) :
    b ∉ escapeFieldValue value := by
  intro mem
  obtain ⟨c, -, inside⟩ := List.mem_flatMap.mp mem
  unfold escapeByte at inside
  split at inside
  · rcases h with rfl | rfl <;> revert inside <;> decide
  split at inside
  · rcases h with rfl | rfl <;> revert inside <;> decide
  split at inside
  · rcases h with rfl | rfl <;> revert inside <;> decide
  · rename_i newline cr
    rw [List.mem_singleton] at inside
    subst inside
    exact h.elim newline cr

/-- **A value survives its line**: it is read back, and it does not end the line. -/
theorem fieldValue_roundTrips (v : ByteString) :
    unescapeFieldValue (escapeFieldValue v) = v ∧ chr '\r' ∉ escapeFieldValue v ∧
      chr '\n' ∉ escapeFieldValue v :=
  ⟨unescape_escape v, escape_noBreak (.inr rfl) v, escape_noBreak (.inl rfl) v⟩

/-- A blank that stays one when it is escaped: a space, `\t`, `\v` or `\f`. -/
def isblank (c : UInt8) : Bool := isspace c && c != chr '\n' && c != chr '\r'

/-- A byte is escaped and no blank, or it stands for itself. -/
theorem escapeByte_cases (c : UInt8) :
    (¬ isblank c ∧ escapeByte c ∈ [str "\\\\", str "\\n", str "\\r"]) ∨
      (isblank c = isspace c ∧ escapeByte c = [c]) := by
  unfold escapeByte
  split
  · subst c
    exact .inl (by decide)
  split
  · subst c
    exact .inl (by decide)
  split
  · subst c
    exact .inl (by decide)
  · rename_i newline cr
    refine .inr ⟨?_, rfl⟩
    rw [isblank, bne_iff_ne.mpr newline, bne_iff_ne.mpr cr, Bool.and_true, Bool.and_true]

theorem escapeByte_keepsBlanks : KeepsBlanks isspace isblank escapeByte := by
  constructor
  · intro c blank b mem
    rcases escapeByte_cases c with ⟨notBlank, -⟩ | ⟨same, plain⟩
    · exact absurd blank notBlank
    · rw [plain, List.mem_singleton] at mem
      rw [mem, ← same, blank]
  · intro c _
    rcases escapeByte_cases c with ⟨-, escaped⟩ | ⟨-, plain⟩
    · intro empty
      rw [empty] at escaped
      revert escaped
      decide
    · rw [plain]
      exact List.cons_ne_nil _ _
  · intro c notBlank
    rcases escapeByte_cases c with ⟨-, escaped⟩ | ⟨same, plain⟩
    · revert escaped
      generalize escapeByte c = text
      intro escaped
      simp only [List.mem_cons, List.not_mem_nil, or_false] at escaped
      rcases escaped with rfl | rfl | rfl <;> exact ⟨by decide, by decide⟩
    · rw [plain]
      rw [same] at notBlank
      constructor
      · rintro b ⟨⟩
        exact notBlank
      · rintro b ⟨⟩
        exact notBlank

/-- A value as it is read back. -/
def readBack (value : ByteString) : ByteString := strip isblank value

/-- **A value loses the blanks at its ends**, and nothing else. -/
theorem unescape_trim_escape (value : ByteString) :
    unescapeFieldValue (trim (escapeFieldValue value)) = readBack value := by
  have : trim (escapeFieldValue value) = escapeFieldValue (strip isblank value) :=
    escapeByte_keepsBlanks.strip value
  rw [this, unescape_escape, readBack]

/-! ### Reading headers back -/

/-- A key that does not break its line. -/
structure KeyFits (key : ByteString) : Prop where
  noColon : chr ':' ∉ key
  noNewline : chr '\n' ∉ key
  noCr : chr '\r' ∉ key

theorem headerLine_noNewline {header : Header} (h : KeyFits header.1) :
    chr '\n' ∉ headerLine header := by
  unfold headerLine
  simp only [List.mem_append, not_or]
  exact ⟨⟨h.noNewline, by decide⟩, escape_noBreak (.inl rfl) _⟩

theorem headerLine_noCr {header : Header} (h : KeyFits header.1) :
    chr '\r' ∉ headerLine header := by
  unfold headerLine
  simp only [List.mem_append, not_or]
  exact ⟨⟨h.noCr, by decide⟩, escape_noBreak (.inr rfl) _⟩

theorem headerLine_colon (header : Header) :
    headerLine header = header.1 ++ chr ':' :: escapeFieldValue header.2 :=
  List.append_assoc ..

theorem headerLine_key {header : Header} (h : KeyFits header.1) :
    upTo (· == chr ':') (headerLine header) = header.1 := by
  rw [headerLine_colon, upTo_key h.noColon]

theorem headerLine_value {header : Header} (h : KeyFits header.1) :
    ((headerLine header).dropWhile (· != chr ':')).tail = escapeFieldValue header.2 := by
  rw [headerLine_colon, tail_key h.noColon]

/-- What reading a header adds to the fields. -/
def readHeader (fields : Fields) (header : Header) : Fields :=
  fields.insert (trim header.1) (readBack header.2)

theorem parseLines_header {header : Header} (h : KeyFits header.1) (rest : List ByteString)
    (fields : Fields) :
    parseLines (headerLine header :: rest) fields =
      if (trim header.1).isEmpty then .error (str "Empty key in line: " ++ headerLine header)
      else parseLines rest (readHeader fields header) := by
  have colon : (headerLine header).contains (chr ':') = true := by
    simp [headerLine, str, chr]
  have nonempty : (headerLine header).isEmpty = false := by simp [headerLine, str]
  rw [parseLines]
  simp only [dropCr_of_noCr (headerLine_noCr h), nonempty, colon, headerLine_key h,
    headerLine_value h, unescape_trim_escape, Bool.false_eq_true, if_false, Bool.not_true]
  rfl

/-- **Headers are read back** one after the other, up to one with a blank key. -/
theorem parseLines_headers {headers : List Header} (h : ∀ header ∈ headers, KeyFits header.1)
    (named : ∀ header ∈ headers, trim header.1 ≠ []) (rest : List ByteString) (fields : Fields) :
    parseLines (headers.map headerLine ++ [] :: rest) fields =
      .ok (headers.foldl readHeader fields) := by
  induction headers generalizing fields with
  | nil => rfl
  | cons header headers ih =>
    obtain ⟨fits, othersFit⟩ := List.forall_mem_cons.mp h
    obtain ⟨name, othersNamed⟩ := List.forall_mem_cons.mp named
    rw [List.map_cons, List.cons_append, parseLines_header fits, if_neg (by simpa using name),
      List.foldl_cons]
    exact ih othersFit othersNamed _

theorem getlines_serializeHeaders {headers : List Header}
    (h : ∀ header ∈ headers, KeyFits header.1) :
    getlines (chr '\n') (serializeHeaders headers) = headers.map headerLine ++ [[]] := by
  have lines : ∀ l ∈ headers.map headerLine ++ [[]], chr '\n' ∉ l := by
    intro l mem
    rcases List.mem_append.mp mem with header | blank
    · obtain ⟨x, inside, rfl⟩ := List.mem_map.mp header
      exact headerLine_noNewline (h x inside)
    · rw [List.mem_singleton.mp blank]
      exact List.not_mem_nil
  have text : serializeHeaders headers =
      unlines (chr '\n') (headers.map headerLine ++ [[]]) ++ [] := by
    simp [serializeHeaders, unlines, str, chr]
  unfold getlines
  rw [text, splitOn_unlines lines]
  simp

theorem parseKeyValueLines_headers {headers : List Header}
    (h : ∀ header ∈ headers, KeyFits header.1) (named : ∀ header ∈ headers, trim header.1 ≠ []) :
    parseKeyValueLines (serializeHeaders headers) = .ok (headers.foldl readHeader ∅) := by
  unfold parseKeyValueLines
  rw [getlines_serializeHeaders h]
  exact parseLines_headers h named [] ∅

end Apm.Ipc
