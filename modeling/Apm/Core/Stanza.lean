import Apm.Core.Package

/-!
Stanzas of `Key: value` lines, and `Depends` fields: `parseStanzas` and
`parseDependsField`, which `src/core/repo_index.cpp` and `src/core/status_db.cpp` both
have.
-/

namespace Apm.Repo

/-! ### Dependencies -/

/-- The first alternative of each group of a `Depends` field, without its version and
its qualifier. -/
def parseDependsField (dependsRaw : ByteString) : List ByteString :=
  (splitAndTrim dependsRaw (chr ',')).filterMap fun group =>
    let firstAlt :=
      if group.contains (chr '|') then trim (upTo (· == chr '|') group) else group
    let name := trim (upTo (fun c => isspace c || c == chr '(') firstAlt)
    let name := if name.contains (chr ':') then trim (upTo (· == chr ':') name) else name
    if name.isEmpty then none else some name

/-! ### Stanzas -/

/-- The stanzas so far, the fields of the current one and its last key. -/
structure StanzaState where
  stanzas : List Fields := []
  fields : Fields := ∅
  currentKey : ByteString := []

def StanzaState.flush (x : StanzaState) : StanzaState :=
  if x.fields.entries.isEmpty then x
  else { stanzas := x.stanzas ++ [x.fields], fields := ∅, currentKey := [] }

/-- One line: the end of a stanza, a continuation, a field, or nothing. -/
def stanzaLine (x : StanzaState) (line : ByteString) : StanzaState :=
  let line := dropCr line
  match line with
  | [] => x.flush
  | first :: _ =>
      if first == chr ' ' || first == chr '\t' then
        if x.currentKey.isEmpty then x
        else
          match x.fields.lookup x.currentKey with
          | some value =>
              { x with
                fields := x.fields.replace x.currentKey (value ++ str "\n" ++ trim line) }
          | none => x
      else if line.contains (chr ':') then
        let key := trim (upTo (· == chr ':') line)
        let value := trim (line.dropWhile (· != chr ':')).tail
        if key.isEmpty then x
        else { x with fields := x.fields.insert key value, currentKey := key }
      else x

def parseStanzas (content : ByteString) : List Fields :=
  ((getlines (chr '\n') content).foldl stanzaLine {}).flush.stanzas

def getField (fields : Fields) (key : String) : ByteString := (fields.lookup (str key)).getD []

end Apm.Repo
