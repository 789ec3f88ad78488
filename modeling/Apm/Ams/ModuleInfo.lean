import Apm.Util.Bytes
import Mathlib.Data.List.AList

/-!
`src/ams/module_info.cpp`: the reader for flat JSON objects, and what it makes of a module's
`module-info.json` and `state.json`.
-/

namespace Apm.Ams

/-! ### The reader

A reading function gives what it read, and the rest of the text.
-/

inductive JsonValue where
  | string (text : ByteString)
  | bool (value : Bool)
  | null
deriving DecidableEq

abbrev JsonFields := AList fun _ : ByteString => JsonValue

def skipWhitespace (s : ByteString) : ByteString :=
  s.dropWhile fun c => c == chr ' ' || c == chr '\n' || c == chr '\r' || c == chr '\t'

/-- `peek`: the next byte, a NUL at the end. -/
def peek (s : ByteString) : UInt8 := s.head?.getD 0

def consume (expected : UInt8) (s : ByteString) : Except ByteString (Unit × ByteString) :=
  let s := skipWhitespace s
  if peek s != expected then .error (str "Expected '" ++ [expected] ++ str "' in JSON")
  else .ok ((), s.tail)

/-- The byte that an escape stands for. -/
def unescape (esc : UInt8) : Option UInt8 :=
  if esc == chr '"' || esc == chr '\\' || esc == chr '/' then some esc
  else if esc == chr 'b' then some 8
  else if esc == chr 'f' then some 12
  else if esc == chr 'n' then some 10
  else if esc == chr 'r' then some 13
  else if esc == chr 't' then some 9
  else none

/-- A string behind its opening quote. -/
def stringBody (result : ByteString) : ByteString → Except ByteString (ByteString × ByteString)
  | [] => .error (str "Unterminated JSON string")
  | c :: s =>
      if c == chr '"' then .ok (result, s)
      else if c == chr '\\' then
        match s with
        | [] => .error (str "Invalid escape in JSON string")
        | esc :: s =>
            match unescape esc with
            | some b => stringBody (result ++ [b]) s
            | none => .error (str "Unsupported escape in JSON string")
      else stringBody (result ++ [c]) s

def parseString (s : ByteString) : Except ByteString (ByteString × ByteString) :=
  if peek s != chr '"' then .error (str "Expected string in JSON") else stringBody [] s.tail

def parseValue (s : ByteString) : Except ByteString (JsonValue × ByteString) :=
  if peek s == chr '"' then do
    let (text, s) ← parseString s
    .ok (.string text, s)
  else if (str "true").isPrefixOf s then .ok (.bool true, s.drop 4)
  else if (str "false").isPrefixOf s then .ok (.bool false, s.drop 5)
  else if (str "null").isPrefixOf s then .ok (.null, s.drop 4)
  else .error (str "Unsupported value in JSON")

/-- A key and its value. -/
def parseMember (s : ByteString) : Except ByteString ((ByteString × JsonValue) × ByteString) := do
  let (key, s) ← parseString s
  let (_, s) ← consume (chr ':') (skipWhitespace s)
  let (value, s) ← parseValue (skipWhitespace s)
  .ok ((key, value), skipWhitespace s)

/-- The loop over the members of an object. A turn reads one byte at least, so as many turns
as there are bytes are enough. -/
def parseMembers : Nat → ByteString → JsonFields → Except ByteString JsonFields
  | 0, _, _ => .error (str "Unexpected end of JSON object")
  | turns + 1, s, out =>
      if s.isEmpty then .error (str "Unexpected end of JSON object")
      else do
        let ((key, value), s) ← parseMember s
        let out := out.insert key value
        if peek s == chr ',' then parseMembers turns (skipWhitespace s.tail) out
        else if peek s == chr '}' then .ok out
        else .error (str "Malformed JSON object")

/-- `parseObject`. What follows the object is not looked at. -/
def parseObject (s : ByteString) : Except ByteString JsonFields := do
  let (_, s) ← consume (chr '{') s
  let s := skipWhitespace s
  if peek s == chr '}' then .ok ∅ else parseMembers s.length s ∅

/-! ### Modules -/

structure ModuleInfo where
  name : ByteString
  version : ByteString
  author : ByteString
  description : ByteString
  mount : Bool
  runPostFsData : Bool
  runService : Bool
  runInstallSh : Bool
deriving DecidableEq

/-- The lambda `getString`. -/
def getString (fields : JsonFields) (key : ByteString) : ByteString :=
  match fields.lookup key with
  | some (.string text) => text
  | _ => []

/-- The lambda `getBool`. -/
def getBool (fields : JsonFields) (key : ByteString) (defaultValue : Bool) : Bool :=
  match fields.lookup key with
  | some (.bool value) => value
  | some (.string text) =>
      let lower := text.map tolower
      if lower == str "true" then true
      else if lower == str "false" then false
      else defaultValue
  | _ => defaultValue

/-- `std::isalnum` in the C locale, and `-`, `_`, `.`. -/
def isValidChar (c : UInt8) : Bool :=
  isdigit c || islower c || (65 ≤ c && c ≤ 90) || c == chr '-' || c == chr '_' || c == chr '.'

def parseModuleInfo (json : ByteString) : Except ByteString ModuleInfo := do
  let fields ← parseObject json
  let info : ModuleInfo := {
    name := getString fields (str "name")
    version := getString fields (str "version")
    author := getString fields (str "author")
    description := getString fields (str "description")
    mount := getBool fields (str "mount") true
    runPostFsData := getBool fields (str "post_fs_data") false
    runService := getBool fields (str "service") false
    runInstallSh := getBool fields (str "install-sh") false }
  if info.name.isEmpty then .error (str "module-info.json missing required 'name'")
  else if !info.name.all isValidChar then .error (str "Module name contains invalid characters")
  else .ok info

/-- `readModuleState`, as far as it decides what is done: is the module enabled? -/
def parseModuleState (json : ByteString) : Except ByteString Bool := do
  let fields ← parseObject json
  match fields.lookup (str "enabled") with
  | some (.bool value) => .ok value
  | _ => .ok false

/-- An accepted name is nonempty and made of valid characters. -/
theorem parseModuleInfo_name {json : ByteString} {info : ModuleInfo}
    (h : parseModuleInfo json = .ok info) : info.name ≠ [] ∧ ∀ c ∈ info.name, isValidChar c := by
  unfold parseModuleInfo at h
  cases fields : parseObject json with
  | error e =>
    rw [fields] at h
    cases h
  | ok fields' =>
    rw [fields] at h
    dsimp only [bind, Except.bind] at h
    split at h
    · cases h
    rename_i nonempty
    split at h
    · cases h
    rename_i valid
    cases h
    rw [Bool.not_eq_true', Bool.not_eq_false, List.all_eq_true] at valid
    exact ⟨by simpa using nonempty, valid⟩

end Apm.Ams
