import Apm.Lib.Effect
import Apm.Ams.ModuleInfo

/-!
`src/ams/module_info.cpp`, `src/ams/module_manager.cpp`: the text of a module's `state.json`, and
what is read back from it.

## Main results

* `state_roundTrip_iff`: a state is read back as it was written just when its error has no quote
  and no backslash.
-/

namespace Apm.Ams

open Apm.Lib.Effect (ok_of_bind)

/-! ### The state and its text -/

/-- A broken-down time, as `gmtime` gives it. -/
structure Tm where
  year : Nat
  mon : Nat
  mday : Nat
  hour : Nat
  min : Nat
  sec : Nat

/-- A field of `std::put_time` that has two digits. -/
def twoDigits (n : Nat) : ByteString := [UInt8.ofNat (48 + n / 10 % 10), UInt8.ofNat (48 + n % 10)]

/-- `makeIsoTimestamp` at the time given. -/
def makeIsoTimestamp (tm : Tm) : ByteString :=
  decimal tm.year ++ str "-" ++ twoDigits tm.mon ++ str "-" ++ twoDigits tm.mday ++ str "T" ++
    twoDigits tm.hour ++ str ":" ++ twoDigits tm.min ++ str ":" ++ twoDigits tm.sec ++ str "Z"

structure ModuleState where
  enabled : Bool := false
  installedAt : ByteString := []
  updatedAt : ByteString := []
  lastError : ByteString := []
deriving DecidableEq

def quoted (s : ByteString) : ByteString := str "\"" ++ s ++ str "\""

/-- The value of `last_error`. -/
def errorText (lastError : ByteString) : ByteString :=
  if lastError.isEmpty then str "null" else quoted lastError

/-- What `writeModuleState` writes. -/
def stateText (st : ModuleState) : ByteString :=
  str "\x7b\n  " ++ quoted (str "enabled") ++ str ": " ++
    (if st.enabled then str "true" else str "false") ++
  str ",\n  " ++ quoted (str "installed_at") ++ str ": " ++ quoted st.installedAt ++
  str ",\n  " ++ quoted (str "updated_at") ++ str ": " ++ quoted st.updatedAt ++
  str ",\n  " ++ quoted (str "last_error") ++ str ": " ++ errorText st.lastError ++ str "\n\x7d\n"

/-- What `readModuleState` makes of the fields. -/
def stateOfFields (fields : JsonFields) : ModuleState where
  enabled := match fields.lookup (str "enabled") with
    | some (.bool value) => value
    | _ => false
  installedAt := getString fields (str "installed_at")
  updatedAt := getString fields (str "updated_at")
  lastError := getString fields (str "last_error")

/-- `readModuleState` of a file's text; `none` where there is no file. -/
def readStateFile : Option ByteString → Except ByteString ModuleState
  | none => .ok {}
  | some text => (parseObject text).map stateOfFields

/-- The two files that `loadModule` reads. -/
structure ModuleFiles where
  infoText : ByteString
  stateFile : Option ByteString

/-- `loadModule` of a directory that is there, at the time given. -/
def loadFiles (now : Tm) (files : ModuleFiles) : Except ByteString (ModuleInfo × ModuleState) := do
  let info ← parseModuleInfo files.infoText
  let state ← readStateFile files.stateFile
  .ok (info,
    if state.installedAt.isEmpty then { state with installedAt := makeIsoTimestamp now } else state)

theorem readStateFile_some (text : ByteString) :
    readStateFile (some text) = (parseObject text).map stateOfFields := rfl

/-- What decides whether a module is enabled is a part of its state. -/
theorem parseModuleState_eq (text : ByteString) :
    parseModuleState text = (readStateFile (some text)).map (·.enabled) := by
  simp only [parseModuleState, readStateFile]
  cases parseObject text with
  | error e => rfl
  | ok fields =>
    simp only [Except.map, bind, Except.bind, stateOfFields]
    cases found : fields.lookup (str "enabled") with
    | none => rfl
    | some value => cases value <;> rfl

/-! ### Strings -/

/-- Nothing in the text ends a string or begins an escape. -/
def Unquoted (s : ByteString) : Prop := ∀ c ∈ s, c ≠ chr '"' ∧ c ≠ chr '\\'

instance (s : ByteString) : Decidable (Unquoted s) := inferInstanceAs (Decidable (∀ c ∈ s, _))

theorem Unquoted.append {s s' : ByteString} (h : Unquoted s) (h' : Unquoted s') :
    Unquoted (s ++ s') := by
  intro c mem
  exact (List.mem_append.mp mem).elim (h c) (h' c)

theorem unquoted_of_isdigit {s : ByteString} (h : ∀ c ∈ s, isdigit c) : Unquoted s := by
  intro c mem
  have digit := h c mem
  constructor <;> rintro rfl <;> revert digit <;> decide

theorem unquoted_twoDigits (n : Nat) : Unquoted (twoDigits n) := by
  have digit : ∀ k < 10, isdigit (UInt8.ofNat (48 + k)) = true := by decide
  apply unquoted_of_isdigit
  intro c mem
  rcases List.mem_pair.mp mem with rfl | rfl
  · exact digit _ (Nat.mod_lt _ (by decide))
  · exact digit _ (Nat.mod_lt _ (by decide))

theorem unquoted_makeIsoTimestamp (tm : Tm) : Unquoted (makeIsoTimestamp tm) := by
  have year : Unquoted (decimal tm.year) :=
    unquoted_of_isdigit fun _ => isdigit_of_mem_decimal
  have mark :
      Unquoted (str "-") ∧ Unquoted (str "T") ∧ Unquoted (str ":") ∧ Unquoted (str "Z") := by
    decide
  obtain ⟨dash, t, colon, z⟩ := mark
  unfold makeIsoTimestamp
  exact (((((((((((year.append dash).append (unquoted_twoDigits _)).append dash).append
    (unquoted_twoDigits _)).append t).append (unquoted_twoDigits _)).append colon).append
    (unquoted_twoDigits _)).append colon).append (unquoted_twoDigits _)).append z)

theorem makeIsoTimestamp_ne_nil (tm : Tm) : makeIsoTimestamp tm ≠ [] := by
  simp [makeIsoTimestamp, twoDigits]

/-- A string without quotes and escapes stands for itself. -/
theorem stringBody_unquoted {s : ByteString} (h : Unquoted s) (acc rest : ByteString) :
    stringBody acc (s ++ chr '"' :: rest) = .ok (acc ++ s, rest) := by
  induction s generalizing acc with
  | nil =>
    rw [List.nil_append, stringBody.eq_def]
    simp
  | cons c s ih =>
    obtain ⟨noQuote, noEscape⟩ := h c List.mem_cons_self
    have others : Unquoted s := fun d mem => h d (List.mem_cons_of_mem c mem)
    rw [List.cons_append, stringBody.eq_def]
    simpa [noQuote, noEscape] using ih others (acc ++ [c])

/-- What a string stands for is no longer than what was read, and as long only where it is the
same. -/
theorem stringBody_read {s acc v rest : ByteString} (h : stringBody acc s = .ok (v, rest)) :
    ∃ w read, v = acc ++ w ∧ s = read ++ chr '"' :: rest ∧ w.length ≤ read.length ∧
      (w.length = read.length → Unquoted w) := by
  fun_induction stringBody acc s with
  | case1 => cases h
  | case2 _ c s isQuote =>
    cases h
    refine ⟨[], [], (List.append_nil _).symm, ?_, le_refl _, fun _ _ mem => absurd mem (by simp)⟩
    rw [beq_iff_eq] at isQuote
    rw [isQuote]
    rfl
  | case3 => cases h
  | case4 acc c _ _ esc s b _ ih =>
    obtain ⟨w, read, rfl, rfl, le, -⟩ := ih h
    refine ⟨b :: w, c :: esc :: read, by simp, rfl, ?_, ?_⟩
    · simp only [List.length_cons]
      omega
    · intro same
      simp only [List.length_cons] at same
      omega
  | case5 => cases h
  | case6 acc c s noQuote noEscape ih =>
    obtain ⟨w, read, rfl, rfl, le, plain⟩ := ih h
    rw [beq_iff_eq] at noQuote noEscape
    refine ⟨c :: w, c :: read, by simp, rfl, Nat.succ_le_succ le, ?_⟩
    intro same
    have others := plain (Nat.succ.inj same)
    intro d mem
    rcases List.mem_cons.mp mem with rfl | mem
    · exact ⟨noQuote, noEscape⟩
    · exact others d mem

/-! ### Members -/

theorem skipWhitespace_length (s : ByteString) : (skipWhitespace s).length ≤ s.length :=
  List.length_dropWhile_le _ _

theorem parseString_length {s v rest : ByteString} (h : parseString s = .ok (v, rest)) :
    v.length + rest.length + 2 ≤ s.length := by
  unfold parseString at h
  split at h
  · cases h
  case isFalse quote =>
    obtain ⟨w, read, rfl, tail, le, -⟩ := stringBody_read h
    cases s with
    | nil => exact absurd rfl quote
    | cons c s =>
      rw [List.tail_cons] at tail
      simp only [tail, List.length_cons, List.length_append]
      omega

theorem consume_length {expected : UInt8} {s rest : ByteString}
    (h : consume expected s = .ok ((), rest)) : rest.length ≤ s.length := by
  unfold consume at h
  dsimp only at h
  split at h
  · cases h
  · cases h
    rw [List.length_tail]
    exact (Nat.sub_le _ _).trans (skipWhitespace_length s)

/-- A value is behind its text, and a string is in it. -/
theorem parseValue_length {s rest : ByteString} {value : JsonValue}
    (h : parseValue s = .ok (value, rest)) :
    rest.length ≤ s.length ∧
      ∀ text, value = .string text → text.length + rest.length + 2 ≤ s.length := by
  unfold parseValue at h
  split at h
  · obtain ⟨⟨text, rest'⟩, read, done⟩ := ok_of_bind h
    cases done
    have le := parseString_length read
    refine ⟨by omega, fun text' same => ?_⟩
    cases same
    exact le
  · split at h
    · cases h
      exact ⟨by simp, fun _ same => nomatch same⟩
    · split at h
      · cases h
        exact ⟨by simp, fun _ same => nomatch same⟩
      · split at h
        · cases h
          exact ⟨by simp, fun _ same => nomatch same⟩
        · cases h

theorem parseMember_length {s key rest : ByteString} {value : JsonValue}
    (h : parseMember s = .ok ((key, value), rest)) :
    rest.length ≤ s.length ∧
      ∀ text, value = .string text → text.length + rest.length + 4 ≤ s.length := by
  obtain ⟨⟨key', s₁⟩, readKey, h⟩ := ok_of_bind h
  obtain ⟨⟨_, s₂⟩, colon, h⟩ := ok_of_bind h
  obtain ⟨⟨value', s₃⟩, readValue, h⟩ := ok_of_bind h
  cases h
  have le₁ := parseString_length readKey
  have le₂ := consume_length colon
  have le₂' := skipWhitespace_length s₁
  obtain ⟨le₃, string⟩ := parseValue_length readValue
  have le₃' := skipWhitespace_length s₂
  have le₄ := skipWhitespace_length s₃
  refine ⟨by omega, fun text same => ?_⟩
  have := string text same
  omega

/-- What a key stands for after the members is what it stood for before, or shorter than the
members' text. -/
theorem parseMembers_lookup {turns : Nat} {s : ByteString} {out out' : JsonFields}
    (h : parseMembers turns s out = .ok out') (key : ByteString) :
    out'.lookup key = out.lookup key ∨
      ∀ text, out'.lookup key = some (.string text) → text.length + 4 ≤ s.length := by
  induction turns generalizing s out with
  | zero => cases h
  | succ turns ih =>
    unfold parseMembers at h
    split at h
    · cases h
    obtain ⟨⟨⟨key', value⟩, s'⟩, member, h⟩ := ok_of_bind h
    obtain ⟨le, string⟩ := parseMember_length member
    have inserted : (out.insert key' value).lookup key = out.lookup key ∨
        ∀ text, (out.insert key' value).lookup key = some (.string text) →
          text.length + 4 ≤ s.length := by
      by_cases same : key = key'
      · right
        intro text found
        rw [same, AList.lookup_insert] at found
        cases found
        have := string text rfl
        omega
      · left
        exact AList.lookup_insert_ne same
    dsimp only at h
    split at h
    · rcases ih h with later | later
      · rw [later]
        exact inserted
      · right
        intro text found
        have := later text found
        have shorter := skipWhitespace_length s'.tail
        rw [List.length_tail] at shorter
        omega
    · split at h
      · cases h
        exact inserted
      · cases h

/-! ### Reading what was written -/

theorem skipWhitespace_quoted (s rest : ByteString) :
    skipWhitespace (quoted s ++ rest) = quoted s ++ rest := rfl

theorem parseString_quoted {s : ByteString} (h : Unquoted s) (rest : ByteString) :
    parseString (quoted s ++ rest) = .ok (s, rest) := by
  have shape : quoted s ++ rest = chr '"' :: (s ++ chr '"' :: rest) := by simp [quoted, str, chr]
  rw [shape]
  exact stringBody_unquoted h [] rest

theorem parseValue_quoted {s : ByteString} (h : Unquoted s) (rest : ByteString) :
    parseValue (quoted s ++ rest) = .ok (.string s, rest) := by
  have quote : (peek (quoted s ++ rest) == chr '"') = true := rfl
  unfold parseValue
  rw [if_pos quote, parseString_quoted h]
  rfl

theorem parseValue_bool (value : Bool) (rest : ByteString) :
    parseValue ((if value then str "true" else str "false") ++ rest) = .ok (.bool value, rest) := by
  cases value <;> rfl

/-- A member with a key that stands for itself. -/
theorem parseMember_quoted {key s : ByteString} (h : Unquoted key) (first : skipWhitespace s = s) :
    parseMember (quoted key ++ (str ": " ++ s)) =
      (parseValue s).map fun (value, rest) => ((key, value), skipWhitespace rest) := by
  have colon : consume (chr ':') (skipWhitespace (str ": " ++ s)) = .ok ((), chr ' ' :: s) := rfl
  have blank : skipWhitespace (chr ' ' :: s) = s := first
  unfold parseMember
  rw [parseString_quoted h]
  dsimp only [bind, Except.bind]
  rw [colon]
  dsimp only
  rw [blank]
  cases parseValue s <;> rfl

theorem parseMembers_next {turns : Nat} {s key rest : ByteString} {value : JsonValue}
    {out : JsonFields} (nonempty : s ≠ [])
    (h : parseMember s = .ok ((key, value), str "," ++ rest)) :
    parseMembers (turns + 1) s out =
      parseMembers turns (skipWhitespace rest) (out.insert key value) := by
  have some : s.isEmpty = false := by simpa using nonempty
  rw [parseMembers, some, h]
  rfl

theorem parseMembers_last {turns : Nat} {s key rest : ByteString} {value : JsonValue}
    {out : JsonFields} (nonempty : s ≠ [])
    (h : parseMember s = .ok ((key, value), str "\x7d" ++ rest)) :
    parseMembers (turns + 1) s out = .ok (out.insert key value) := by
  have some : s.isEmpty = false := by simpa using nonempty
  rw [parseMembers, some, h]
  rfl

/-- The fields before the error. -/
def knownFields (st : ModuleState) : JsonFields :=
  ((AList.insert (str "enabled") (.bool st.enabled) ∅).insert (str "installed_at")
    (.string st.installedAt)).insert (str "updated_at") (.string st.updatedAt)

/-- The text from the error on. -/
def lastMember (lastError : ByteString) : ByteString :=
  quoted (str "last_error") ++ (str ": " ++ (errorText lastError ++ str "\n\x7d\n"))

/-- A member that is followed by another one. -/
def memberText (key value rest : ByteString) : ByteString :=
  quoted key ++ (str ": " ++ (value ++ (str "," ++ (str "\n  " ++ rest))))

theorem parseMembers_memberText {turns : Nat} {key value rest : ByteString} {v : JsonValue}
    {out : JsonFields} (plain : Unquoted key)
    (first : ∀ s, skipWhitespace (value ++ s) = value ++ s)
    (read : ∀ s, parseValue (value ++ s) = .ok (v, s)) (next : skipWhitespace rest = rest) :
    parseMembers (turns + 1) (memberText key value rest) out =
      parseMembers turns rest (out.insert key v) := by
  have member : parseMember (memberText key value rest) =
      .ok ((key, v), str "," ++ (str "\n  " ++ rest)) := by
    unfold memberText
    rw [parseMember_quoted plain (first _), read]
    rfl
  have blanks : skipWhitespace (str "\n  " ++ rest) = rest := next
  have nonempty : memberText key value rest ≠ [] := by simp [memberText, quoted, str]
  rw [parseMembers_next nonempty member, blanks]

/-- The text behind the opening brace. -/
def membersText (st : ModuleState) : ByteString :=
  memberText (str "enabled") (if st.enabled then str "true" else str "false")
    (memberText (str "installed_at") (quoted st.installedAt)
      (memberText (str "updated_at") (quoted st.updatedAt) (lastMember st.lastError)))

theorem stateText_eq (st : ModuleState) : stateText st = str "\x7b\n  " ++ membersText st := by
  have sep : str ",\n  " = str "," ++ str "\n  " := rfl
  unfold stateText membersText memberText lastMember
  rw [sep]
  simp only [List.append_assoc]

theorem parseObject_brace {s : ByteString} (first : skipWhitespace s = s)
    (some : peek s ≠ chr '}') :
    parseObject (str "\x7b\n  " ++ s) = parseMembers s.length s ∅ := by
  have brace : consume (chr '{') (str "\x7b\n  " ++ s) = .ok ((), str "\n  " ++ s) := rfl
  have blanks : skipWhitespace (str "\n  " ++ s) = s := first
  unfold parseObject
  rw [brace]
  dsimp only [bind, Except.bind]
  rw [blanks, if_neg (by simpa using some)]

/-- The reader comes to the error, with turns to spare. -/
theorem parseObject_stateText {st : ModuleState} (installed : Unquoted st.installedAt)
    (updated : Unquoted st.updatedAt) :
    ∃ turns, parseObject (stateText st) =
      parseMembers (turns + 1) (lastMember st.lastError) (knownFields st) := by
  have bool : ∀ s, skipWhitespace ((if st.enabled then str "true" else str "false") ++ s) =
      (if st.enabled then str "true" else str "false") ++ s := by
    cases st.enabled <;> exact fun _ => rfl
  have long : 4 ≤ (membersText st).length := by simp [membersText, memberText, quoted, str]
  obtain ⟨turns, length⟩ : ∃ turns, (membersText st).length = turns + 1 + 1 + 1 + 1 :=
    ⟨_, (Nat.sub_add_cancel long).symm⟩
  refine ⟨turns, ?_⟩
  have quote : peek (membersText st) = chr '"' := rfl
  rw [stateText_eq, parseObject_brace rfl (by rw [quote]; decide), length]
  unfold membersText
  rw [parseMembers_memberText (by decide) bool (parseValue_bool st.enabled) rfl,
    parseMembers_memberText (by decide) (skipWhitespace_quoted _) (parseValue_quoted installed) rfl,
    parseMembers_memberText (by decide) (skipWhitespace_quoted _) (parseValue_quoted updated) rfl]
  rfl

/-- The member that carries the error, where it is read. -/
theorem parseMember_lastMember {lastError : ByteString} (some : lastError ≠ [])
    {key rest : ByteString} {value : JsonValue}
    (h : parseMember (lastMember lastError) = .ok ((key, value), rest)) :
    key = str "last_error" ∧ rest.length ≤ lastError.length + 3 ∧ ∃ text,
      value = .string text ∧ (text = lastError → Unquoted lastError) := by
  have shown : errorText lastError = quoted lastError := by
    unfold errorText
    rw [if_neg (by simpa using some)]
  unfold lastMember at h
  rw [shown, parseMember_quoted (by decide) rfl] at h
  have body : quoted lastError ++ str "\n\x7d\n" =
      chr '"' :: (lastError ++ str "\"\n\x7d\n") := by
    simp [quoted, str, chr]
  cases read : stringBody [] (lastError ++ str "\"\n\x7d\n") with
  | error e =>
    have : parseValue (quoted lastError ++ str "\n\x7d\n") = .error e := by
      rw [body]
      exact congrArg (· >>= _) read
    rw [this] at h
    cases h
  | ok result =>
    obtain ⟨text, tail⟩ := result
    have : parseValue (quoted lastError ++ str "\n\x7d\n") = .ok (.string text, tail) := by
      rw [body]
      exact congrArg (· >>= _) read
    rw [this] at h
    cases h
    obtain ⟨w, seen, rfl, shape, le, plain⟩ := stringBody_read read
    refine ⟨rfl, ?_, text, rfl, ?_⟩
    · have lengths := congrArg List.length shape
      have shorter := skipWhitespace_length tail
      simp only [List.length_append, List.length_cons, str, List.length_map] at lengths
      have four : "\"\n\x7d\n".toList.length = 4 := rfl
      omega
    · rintro rfl
      apply plain
      apply le_antisymm le
      rcases List.append_eq_append_iff.mp shape with ⟨more, rfl, rest⟩ | ⟨less, same, -⟩
      · cases more with
        | nil => simp
        | cons c more =>
          -- behind the closing quote there is no other
          have later : str "\n\x7d\n" = more ++ chr '"' :: tail := (List.cons_eq_cons.mp rest).2
          have quote : chr '"' ∈ str "\n\x7d\n" := later ▸ by simp
          exact absurd quote (by decide)
      · rw [same]
        simp

/-! ### The round trip -/

section RoundTrip

variable {st : ModuleState}

theorem parseObject_unquoted (installed : Unquoted st.installedAt) (updated : Unquoted st.updatedAt)
    (h : Unquoted st.lastError) :
    parseObject (stateText st) = .ok ((knownFields st).insert (str "last_error")
      (if st.lastError.isEmpty then .null else .string st.lastError)) := by
  obtain ⟨turns, reads⟩ := parseObject_stateText installed updated
  rw [reads]
  apply parseMembers_last (by simp [lastMember, quoted, str])
  unfold lastMember errorText
  rw [parseMember_quoted (by decide) (by split <;> rfl)]
  split
  · rfl
  · rw [parseValue_quoted h]
    rfl

theorem getString_insert (fields : JsonFields) (key : ByteString) (value : JsonValue) :
    getString (fields.insert key value) key =
      match value with
      | .string text => text
      | _ => [] := by
  unfold getString
  rw [AList.lookup_insert]
  cases value <;> rfl

theorem getString_insert_ne {fields : JsonFields} {key key' : ByteString} {value : JsonValue}
    (ne : key' ≠ key) : getString (fields.insert key value) key' = getString fields key' := by
  unfold getString
  rw [AList.lookup_insert_ne ne]

theorem lookup_of_getString {fields : JsonFields} {key text : ByteString}
    (h : getString fields key = text) (some : text ≠ []) :
    fields.lookup key = .some (.string text) := by
  unfold getString at h
  split at h
  · rw [← h]
    assumption
  · exact absurd h.symm some

/-- The fields as they were written are the state. -/
theorem stateOfFields_written (st : ModuleState) :
    stateOfFields ((knownFields st).insert (str "last_error")
      (if st.lastError.isEmpty then .null else .string st.lastError)) = st := by
  obtain ⟨enabled, installedAt, updatedAt, lastError⟩ := st
  have apart : str "enabled" ≠ str "last_error" ∧ str "enabled" ≠ str "updated_at" ∧
      str "enabled" ≠ str "installed_at" ∧ str "installed_at" ≠ str "last_error" ∧
      str "installed_at" ≠ str "updated_at" ∧ str "updated_at" ≠ str "last_error" := by decide
  obtain ⟨e₁, e₂, e₃, i₁, i₂, u⟩ := apart
  unfold stateOfFields knownFields
  rw [AList.lookup_insert_ne e₁, AList.lookup_insert_ne e₂, AList.lookup_insert_ne e₃,
    getString_insert_ne i₁, getString_insert_ne i₂, getString_insert_ne u]
  simp only [AList.lookup_insert, getString_insert]
  cases lastError <;> rfl

theorem readStateFile_unquoted (installed : Unquoted st.installedAt)
    (updated : Unquoted st.updatedAt) (h : Unquoted st.lastError) :
    readStateFile (some (stateText st)) = .ok st := by
  rw [readStateFile_some, parseObject_unquoted installed updated h]
  exact congrArg Except.ok (stateOfFields_written st)

/-- An error with a quote or a backslash is never read back. -/
theorem unquoted_of_readStateFile (installed : Unquoted st.installedAt)
    (updated : Unquoted st.updatedAt) (h : readStateFile (some (stateText st)) = .ok st) :
    Unquoted st.lastError := by
  by_cases some : st.lastError = []
  · rw [some]
    exact fun _ mem => absurd mem (by simp)
  obtain ⟨turns, reads⟩ := parseObject_stateText installed updated
  rw [readStateFile_some, reads] at h
  cases read : parseMembers (turns + 1) (lastMember st.lastError) (knownFields st) with
  | error e =>
    rw [read] at h
    cases h
  | ok fields =>
    rw [read] at h
    have error : getString fields (str "last_error") = st.lastError :=
      congrArg ModuleState.lastError (Except.ok.inj h)
    unfold parseMembers at read
    rw [if_neg (by simp [lastMember, quoted, str])] at read
    obtain ⟨⟨⟨key, value⟩, rest⟩, member, read⟩ := ok_of_bind read
    obtain ⟨rfl, short, text, rfl, plain⟩ := parseMember_lastMember some member
    have here : getString ((knownFields st).insert (str "last_error") (.string text))
        (str "last_error") = text := getString_insert _ _ _
    dsimp only at read
    split at read
    · rcases parseMembers_lookup read (str "last_error") with same | later
      · rw [getString, same] at error
        exact plain (here.symm.trans error)
      · -- what else is read is in the rest of the error, which is shorter
        have length := later _ (lookup_of_getString error some)
        have shorter := skipWhitespace_length rest.tail
        rw [List.length_tail] at shorter
        omega
    · split at read
      · cases read
        exact plain (here.symm.trans error)
      · cases read

/-- **When a state is read back.** The state that was written is read back, and with it every
module whose information is accepted can be loaded, just when the error has no quote and no
backslash. -/
theorem state_roundTrip_iff (enabled : Bool) (installedAt updatedAt now : Tm)
    (lastError : ByteString) :
    let st : ModuleState :=
      ⟨enabled, makeIsoTimestamp installedAt, makeIsoTimestamp updatedAt, lastError⟩
    (readStateFile (some (stateText st)) = .ok st ∧
      ∀ infoText info, parseModuleInfo infoText = .ok info →
        loadFiles now ⟨infoText, some (stateText st)⟩ = .ok (info, st)) ↔ Unquoted lastError := by
  intro st
  have installed : Unquoted st.installedAt := unquoted_makeIsoTimestamp installedAt
  have updated : Unquoted st.updatedAt := unquoted_makeIsoTimestamp updatedAt
  constructor
  · intro ⟨back, _⟩
    exact unquoted_of_readStateFile installed updated back
  · intro plain
    have back := readStateFile_unquoted installed updated plain
    refine ⟨back, fun infoText info accepted => ?_⟩
    unfold loadFiles
    dsimp only
    rw [accepted, back]
    dsimp only [bind, Except.bind]
    rw [if_neg (by simpa [st] using makeIsoTimestamp_ne_nil installedAt)]

/-- An error that quotes the file name `a"b`: the module cannot be loaded any more. -/
theorem quoted_error_not_read :
    let day : Tm := ⟨2024, 5, 1, 12, 0, 0⟩
    let st : ModuleState :=
      ⟨true, makeIsoTimestamp day, makeIsoTimestamp day, str "bind failed: a\"b"⟩
    readStateFile (some (stateText st)) = .error (str "Malformed JSON object") ∧
      loadFiles day ⟨str "\x7b\"name\": \"fonts\"\x7d", some (stateText st)⟩ =
        .error (str "Malformed JSON object") := by
  decide +kernel

end RoundTrip

end Apm.Ams
