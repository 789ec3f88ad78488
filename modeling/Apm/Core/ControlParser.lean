import Apm.Core.RepoIndex
import Apm.Core.StanzaText

/-!
Control texts (`src/core/control_parser.cpp`) beside the Packages texts of
`src/core/repo_index.cpp`.

## Main results

* `foldl_block`: the lines before the first blank one are read alike;
* `parseDependsField_eq_iff`: the two readings of a `Depends` field are one unless a name in it is
  qualified;
* `sameControl_iff`: when both parsers make the same of a text with one stanza.
-/

namespace Apm.Control

open Apm.Repo Apm.Lib.Assoc Apm.Lib.Text

/-! ### The parser -/

structure ControlFile where
  packageName : ByteString := []
  version : ByteString := []
  architecture : ByteString := []
  depends : List ByteString := []
  rawFields : Fields := ∅
deriving DecidableEq

/-- What a group of alternatives begins with: the first alternative, up to a blank or a version. -/
def dependWord (group : ByteString) : ByteString :=
  let firstAlt := if group.contains (chr '|') then trim (upTo (· == chr '|') group) else group
  upTo (fun c => isspace c || c == chr '(') firstAlt

/-- `parseDependsField` of `control_parser.cpp`: the names keep their qualifiers. -/
def parseDependsField (dependsRaw : ByteString) : List ByteString :=
  (splitAndTrim dependsRaw (chr ',')).filterMap fun group =>
    let name := trim (dependWord group)
    if !name.isEmpty then some name else none

/-- The fields so far and the last key. -/
structure ControlState where
  fields : Fields := ∅
  currentKey : ByteString := []

/-- A line that is not empty: a continuation, a field, or nothing. -/
def controlLine (x : ControlState) (line : ByteString) : ControlState :=
  if line.head? == some (chr ' ') || line.head? == some (chr '\t') then
    if !x.currentKey.isEmpty then
      match x.fields.lookup x.currentKey with
      | some value =>
          { x with fields := x.fields.replace x.currentKey (value ++ str "\n" ++ trim line) }
      | none => x
    else x
  else if !line.contains (chr ':') then x
  else
    let key := trim (upTo (· == chr ':') line)
    let value := trim (line.dropWhile (· != chr ':')).tail
    if !key.isEmpty then { fields := x.fields.insert key value, currentKey := key } else x

/-- The lines up to the first empty one. -/
def controlLines (x : ControlState) : List ByteString → ControlState
  | [] => x
  | line :: rest =>
      let line := dropCr line
      if line.isEmpty then x else controlLines (controlLine x line) rest

def parseControlString (content : ByteString) : ControlFile :=
  if content.isEmpty then {}
  else
    let fields := (controlLines {} (getlines (chr '\n') content)).fields
    { packageName := getField fields "Package"
      version := getField fields "Version"
      architecture := getField fields "Architecture"
      depends := parseDependsField (getField fields "Depends")
      rawFields := fields }

/-! ### Lines -/

/-- A line without characters. -/
def Blank (line : ByteString) : Prop := dropCr line = []

instance : DecidablePred Blank := fun line => inferInstanceAs (Decidable (dropCr line = []))

/-- A line that sets a field: it is not indented, and a key stands before a colon. -/
def FieldLine (line : ByteString) : Prop :=
  (∀ c ∈ (dropCr line).head?, ¬ isIndent c) ∧ chr ':' ∈ dropCr line ∧
    trim (upTo (· == chr ':') (dropCr line)) ≠ []

instance : DecidablePred FieldLine := fun _ => inferInstanceAs (Decidable (_ ∧ _ ∧ _))

/-- The lines before the first blank one. -/
def firstBlock (lines : List ByteString) : List ByteString :=
  lines.takeWhile fun line => !Blank line

/-- The stanzas of a state with another current one. -/
def ControlState.within (x : ControlState) (stanzas : List Fields) : StanzaState :=
  { stanzas, fields := x.fields, currentKey := x.currentKey }

theorem isIndent_head {first : UInt8} {rest : ByteString} :
    ((first :: rest).head? == some (chr ' ') || (first :: rest).head? == some (chr '\t')) =
      isIndent first := by
  simp [isIndent]

/-- Both parsers make the same of a line that is not blank. -/
theorem stanzaLine_within {line : ByteString} (filled : ¬ Blank line) (x : ControlState)
    (stanzas : List Fields) :
    stanzaLine (x.within stanzas) line = (controlLine x (dropCr line)).within stanzas := by
  unfold stanzaLine controlLine
  obtain ⟨first, rest, cut⟩ := List.exists_cons_of_ne_nil filled
  rw [cut, isIndent_head]
  dsimp only
  change (if isIndent first = true then _ else _) = _
  by_cases indent : isIndent first = true
  · rw [if_pos indent, if_pos indent]
    obtain ⟨fields, key⟩ := x
    dsimp only [ControlState.within]
    cases key with
    | nil => rfl
    | cons c key => cases fields.lookup (c :: key) <;> rfl
  · rw [if_neg indent, if_neg indent]
    cases (first :: rest).contains (chr ':') with
    | false => rfl
    | true =>
      cases (trim (upTo (· == chr ':') (first :: rest))).isEmpty <;> rfl

/-- The lines before the first blank one are read alike. -/
theorem foldl_block (lines : List ByteString) (x : ControlState) (stanzas : List Fields) :
    (firstBlock lines).foldl stanzaLine (x.within stanzas) =
      (controlLines x lines).within stanzas := by
  induction lines generalizing x with
  | nil => rfl
  | cons line lines ih =>
    unfold controlLines firstBlock
    by_cases blank : Blank line
    · rw [List.takeWhile_cons_of_neg (by simpa using blank), List.foldl_nil]
      dsimp only
      rw [if_pos (by simpa [Blank] using blank)]
    · rw [List.takeWhile_cons_of_pos (by simpa using blank), List.foldl_cons,
        stanzaLine_within blank]
      dsimp only
      rw [if_neg (by simpa [Blank] using blank)]
      exact ih _

theorem replace_entries {fields : Fields} {key value : ByteString} :
    (fields.replace key value).entries = [] ↔ fields.entries = [] := by
  have keys : (fields.replace key value).keys = fields.keys := AList.keys_replace key value fields
  have empty : ∀ m : Fields, m.entries = [] ↔ m.keys = [] := fun m => List.map_eq_nil_iff.symm
  rw [empty, empty, keys]

/-- A line leaves fields when there were some or it sets one. -/
theorem controlLine_filled {line : ByteString} (x : ControlState) :
    (controlLine x (dropCr line)).fields.entries ≠ [] ↔
      x.fields.entries ≠ [] ∨ FieldLine line := by
  unfold controlLine FieldLine
  cases dropCr line with
  | nil => simp
  | cons first rest =>
    rw [isIndent_head]
    by_cases indent : isIndent first = true
    · rw [if_pos indent]
      split
      · split
        · simp [indent, replace_entries]
        · simp [indent]
      · simp [indent]
    · rw [if_neg indent]
      by_cases colon : chr ':' ∈ first :: rest
      · rw [List.contains_iff_mem.mpr colon]
        by_cases key : trim (upTo (· == chr ':') (first :: rest)) = []
        · simp [key]
        · simp [key, colon, indent]
      · rw [if_pos (by simpa using colon)]
        simp [colon]

/-- The fields of the first block. -/
theorem controlLines_filled (lines : List ByteString) (x : ControlState) :
    (controlLines x lines).fields.entries ≠ [] ↔
      x.fields.entries ≠ [] ∨ ∃ line ∈ firstBlock lines, FieldLine line := by
  induction lines generalizing x with
  | nil => simp [controlLines, firstBlock]
  | cons line lines ih =>
    unfold controlLines firstBlock
    dsimp only
    by_cases blank : Blank line
    · rw [if_pos (by simpa [Blank] using blank), List.takeWhile_cons_of_neg (by simpa using blank)]
      simp
    · rw [if_neg (by simpa [Blank] using blank), List.takeWhile_cons_of_pos (by simpa using blank),
        ih, controlLine_filled, List.exists_mem_cons_iff, or_assoc]
      rfl

/-! ### One stanza -/

theorem flush_keeps (x : StanzaState) : x.stanzas <+: x.flush.stanzas := by
  unfold StanzaState.flush
  split
  · exact List.prefix_rfl
  · exact List.prefix_append _ _

/-- Stanzas that are complete stay. -/
theorem stanzaLine_keeps (x : StanzaState) (line : ByteString) :
    x.stanzas <+: (stanzaLine x line).stanzas := by
  unfold stanzaLine
  dsimp only
  split
  · exact flush_keeps x
  · split
    · split
      · exact List.prefix_rfl
      · split <;> exact List.prefix_rfl
    · split
      · split <;> exact List.prefix_rfl
      · exact List.prefix_rfl

theorem foldl_keeps (lines : List ByteString) (x : StanzaState) :
    x.stanzas <+: (lines.foldl stanzaLine x).stanzas := by
  induction lines generalizing x with
  | nil => exact List.prefix_rfl
  | cons line lines ih => exact (stanzaLine_keeps x line).trans (ih _)

/-- The first block of a text, if it sets fields, is its first stanza. -/
theorem firstStanza {content : ByteString} {x : ControlState}
    (read : controlLines {} (getlines (chr '\n') content) = x) (filled : x.fields.entries ≠ []) :
    [x.fields] <+: parseStanzas content := by
  have block := foldl_block (getlines (chr '\n') content) {} []
  rw [read] at block
  have flushed : (x.within []).flush.stanzas = [x.fields] := by
    unfold StanzaState.flush
    rw [if_neg (by simpa [ControlState.within] using filled)]
    rfl
  have split : getlines (chr '\n') content = firstBlock (getlines (chr '\n') content) ++
      (getlines (chr '\n') content).dropWhile fun line => !Blank line :=
    List.takeWhile_append_dropWhile.symm
  have start : ({} : StanzaState) = ControlState.within {} [] := rfl
  rw [parseStanzas, split, List.foldl_append, start, block, ← flushed]
  cases rest : (getlines (chr '\n') content).dropWhile fun line => !Blank line with
  | nil => exact List.prefix_rfl
  | cons line lines =>
    have blank : Blank line := by
      have head := List.head?_dropWhile_not (fun line => !Blank line) (getlines (chr '\n') content)
      rw [rest] at head
      simpa using head
    have flush : stanzaLine (x.within []) line = (x.within []).flush := by
      unfold stanzaLine
      rw [blank]
    rw [List.foldl_cons, flush]
    exact (foldl_keeps lines _).trans (flush_keeps _)

/-- A field is set before the first blank line. -/
def FieldFirst (content : ByteString) : Prop :=
  ∃ line ∈ firstBlock (getlines (chr '\n') content), FieldLine line

instance : DecidablePred FieldFirst := fun _ => inferInstanceAs (Decidable (∃ _ ∈ _, _))

section OneStanza

variable {content : ByteString} {fields : Fields}

theorem fields_of_fieldFirst (one : parseStanzas content = [fields]) (set : FieldFirst content) :
    (controlLines {} (getlines (chr '\n') content)).fields = fields := by
  have filled := (controlLines_filled (getlines (chr '\n') content) {}).mpr (.inr set)
  obtain ⟨rest, same⟩ := firstStanza rfl filled
  rw [one] at same
  exact (List.cons.inj same).1

theorem packageName_of_not_fieldFirst (unset : ¬ FieldFirst content) :
    (parseControlString content).packageName = [] := by
  have empty : (controlLines {} (getlines (chr '\n') content)).fields = ∅ := by
    apply AList.ext
    by_contra filled
    rcases (controlLines_filled (getlines (chr '\n') content) {}).mp filled with none | set
    · exact none rfl
    · exact unset set
  unfold parseControlString
  split
  · rfl
  · rw [empty]
    rfl

/-- The control file of a text that sets a field before its first blank line. -/
theorem parseControlString_of_fieldFirst (one : parseStanzas content = [fields])
    (set : FieldFirst content) :
    parseControlString content =
      { packageName := getField fields "Package"
        version := getField fields "Version"
        architecture := getField fields "Architecture"
        depends := parseDependsField (getField fields "Depends")
        rawFields := fields } := by
  unfold parseControlString
  rw [if_neg]
  · dsimp only
    rw [fields_of_fieldFirst one set]
  · intro empty
    rw [List.isEmpty_iff.mp empty] at one
    cases one

end OneStanza

/-! ### Dependencies -/

theorem dependWord_noSpace {group : ByteString} : ∀ c ∈ dependWord group, ¬ isspace c := by
  intro c mem
  have stop := (mem_upTo mem).2
  simp only [Bool.or_eq_true, not_or] at stop
  exact stop.1

/-- In `repo_index.cpp` a name is the word of its group up to a colon. -/
theorem parseDepend_eq (group : ByteString) :
    parseDepend group =
      let name := trim (upTo (· == chr ':') (dependWord group))
      if name.isEmpty then none else some name := by
  have word : trim (dependWord group) = dependWord group :=
    (bare_of_noSpace dependWord_noSpace).strip
  change (let name := trim (dependWord group)
    let name := if name.contains (chr ':') then trim (upTo (· == chr ':') name) else name
    if name.isEmpty then none else some name) = _
  rw [word]
  dsimp only
  by_cases colon : chr ':' ∈ dependWord group
  · rw [List.contains_iff_mem.mpr colon, if_pos rfl]
  · have whole : upTo (· == chr ':') (dependWord group) = dependWord group :=
      upTo_eq_self fun c mem same => colon (by rwa [← eq_of_beq same])
    rw [whole, word, ite_self]

/-- The readings of a `Depends` field are the same just when no name in it is qualified. -/
theorem parseDependsField_eq_iff (raw : ByteString) :
    parseDependsField raw = Repo.parseDependsField raw ↔
      ∀ group ∈ splitAndTrim raw (chr ','), chr ':' ∉ dependWord group := by
  have word : ∀ group, trim (dependWord group) = dependWord group :=
    fun group => (bare_of_noSpace dependWord_noSpace).strip
  constructor
  · intro same group listed colon
    have named : dependWord group ∈ parseDependsField raw := by
      refine List.mem_filterMap.mpr ⟨group, listed, ?_⟩
      dsimp only
      rw [word, if_pos]
      simpa using List.ne_nil_of_mem colon
    rw [same] at named
    exact ((depName_of_mem named).letters _ colon).2.2.2.2 rfl
  · intro plain
    rw [parseDependsField, parseDependsField_eq]
    refine List.filterMap_congr fun group listed => ?_
    have whole : upTo (· == chr ':') (dependWord group) = dependWord group :=
      upTo_eq_self fun c mem same => plain group listed (by rwa [← eq_of_beq same])
    rw [parseDepend_eq, whole, word]
    cases dependWord group <;> rfl

/-! ### Both parsers on one text -/

/-- Both parsers find one package, with the same name, version, architecture and dependencies. -/
def SameControl (content : ByteString) : Prop :=
  ∃ pkg, parsePackagesString content = [pkg] ∧
    (parseControlString content).packageName = pkg.packageName ∧
    (parseControlString content).version = pkg.version ∧
    (parseControlString content).architecture = pkg.architecture ∧
    (parseControlString content).depends = pkg.depends

/-- **Both parsers make the same of a text with one stanza** just when it names its package, no
blank line stands before its fields, and no dependency is qualified. -/
theorem sameControl_iff (content : ByteString) (fields : Fields)
    (one : parseStanzas content = [fields]) (noPre : fields.lookup (str "Pre-Depends") = none) :
    SameControl content ↔
      FieldFirst content ∧ getField fields "Package" ≠ [] ∧
        ∀ group ∈ splitAndTrim (getField fields "Depends") (chr ','),
          chr ':' ∉ dependWord group := by
  have noPreDepends : Repo.parseDependsField (getField fields "Pre-Depends") = [] := by
    rw [getField, noPre]
    rfl
  rw [← parseDependsField_eq_iff]
  constructor
  · rintro ⟨pkg, parsed, name, -, -, depends⟩
    rw [parsePackagesString, one] at parsed
    have found : readPackage fields = some pkg := by
      cases read : readPackage fields with
      | none => simp [read] at parsed
      | some other => simpa [read] using parsed
    unfold readPackage at found
    dsimp only at found
    split at found
    · cases found
    · rename_i named
      have named : getField fields "Package" ≠ [] := by simpa using named
      cases found
      have set : FieldFirst content := by
        by_contra unset
        rw [packageName_of_not_fieldFirst unset] at name
        exact named name.symm
      rw [parseControlString_of_fieldFirst one set, noPreDepends, List.append_nil] at depends
      exact ⟨set, named, depends⟩
  · rintro ⟨set, named, depends⟩
    have found : readPackage fields = some _ := if_neg (by simpa using named)
    refine ⟨_, by rw [parsePackagesString, one, List.filterMap_cons_some found, List.filterMap_nil],
      ?_⟩
    rw [parseControlString_of_fieldFirst one set, noPreDepends, List.append_nil]
    exact ⟨rfl, rfl, rfl, depends⟩

/-- A stanza with two alternatives and a version. -/
theorem sameControl_iff_plain : SameControl (str "Package: a\nDepends: b (>= 1) | c\n") :=
  (sameControl_iff (str "Package: a\nDepends: b (>= 1) | c\n")
    (slotFields [⟨str "Package", str "a"⟩, ⟨str "Depends", str "b (>= 1) | c"⟩])
    (by decide +kernel) (by decide +kernel)).mpr (by decide +kernel)

theorem not_sameControl {content : ByteString} (name : ByteString) (depends : List ByteString)
    (parsed : (parsePackagesString content).map (fun pkg => (pkg.packageName, pkg.depends)) =
      [(name, depends)])
    (differ : ((parseControlString content).packageName, (parseControlString content).depends) ≠
      (name, depends)) : ¬ SameControl content := by
  rintro ⟨pkg, one, sameName, -, -, sameDepends⟩
  rw [one, List.map_singleton, List.singleton_inj] at parsed
  rw [sameName, sameDepends] at differ
  exact differ parsed

/-- A blank line in front of the stanza, and a qualified dependency. -/
theorem sameControl_differs :
    (∃ fields, parseStanzas (str "\nPackage: a\n") = [fields] ∧
      fields.lookup (str "Pre-Depends") = none ∧ ¬ SameControl (str "\nPackage: a\n")) ∧
    ∃ fields, parseStanzas (str "Package: a\nDepends: libc6:any\n") = [fields] ∧
      fields.lookup (str "Pre-Depends") = none ∧
      ¬ SameControl (str "Package: a\nDepends: libc6:any\n") := by
  constructor
  · refine ⟨slotFields [⟨str "Package", str "a"⟩], by decide +kernel, by decide +kernel, ?_⟩
    exact not_sameControl (str "a") [] (by decide +kernel) (by decide +kernel)
  · refine ⟨slotFields [⟨str "Package", str "a"⟩, ⟨str "Depends", str "libc6:any"⟩],
      by decide +kernel, by decide +kernel, ?_⟩
    exact not_sameControl (str "a") [str "libc6"] (by decide +kernel) (by decide +kernel)

end Apm.Control
