import Apm.Daemon.Shims

/-!
The command index: what `writeCommandIndexManifest` of `src/apmd/export_path.cpp` writes, and
`rebuild_command_index_and_shims` with the index that it leaves for the next time.
-/

namespace Apm.Shims

open Apm.Repo Apm.Fs Apm.Config

/-! ### The text -/

def jsonEscapeByte (c : UInt8) : ByteString :=
  if c == chr '\\' then str "\\\\"
  else if c == chr '"' then str "\\\""
  else if c == chr '\n' then str "\\n"
  else if c == chr '\r' then str "\\r"
  else if c == chr '\t' then str "\\t"
  else [c]

def jsonEscape (text : ByteString) : ByteString := text.flatMap jsonEscapeByte

def modeToString : CommandCollisionResult → ByteString
  | .canonical => str "canonical"
  | .namespaced => str "namespaced"
  | .skipped => str "skipped"

/-- Text that is written as it is. -/
def Plain (text : ByteString) : Prop := ∀ c ∈ text, jsonEscapeByte c = [c]

instance : DecidablePred Plain := fun text =>
  inferInstanceAs (Decidable (∀ c ∈ text, _))

/-- When and why an index is written. A time and the reasons that the daemon gives are plain, and
none is the key that a reader looks for. -/
structure Stamp where
  generatedAt : Nat
  generatedAtIso : ByteString
  triggerReason : ByteString
  iso : Plain generatedAtIso ∧ generatedAtIso ≠ str "shim"
  reason : Plain triggerReason ∧ triggerReason ≠ str "shim"

/-- A line of an entry, without its end. -/
def indexField (key : String) (value : ByteString) : ByteString :=
  str "      \"" ++ str key ++ str "\": \"" ++ value ++ str "\""

def indexEntry (d : ShimDecision) : ByteString :=
  str "    \x7b\n" ++
  indexField "package" (jsonEscape d.packageName) ++ str ",\n" ++
  indexField "command" (jsonEscape d.commandName) ++ str ",\n" ++
  indexField "shim" (jsonEscape d.shimName) ++ str ",\n" ++
  indexField "binary" (jsonEscape d.binaryPath) ++ str ",\n" ++
  indexField "mode" (modeToString d.mode) ++ str ",\n" ++
  indexField "warning" (jsonEscape d.warning) ++ str "\n    \x7d"

def indexEntries : List ShimDecision → ByteString
  | [] => []
  | [d] => indexEntry d ++ str "\n"
  | d :: decisions => indexEntry d ++ str ",\n" ++ indexEntries decisions

/-- `writeCommandIndexManifest`, by its text. -/
def commandIndexText (stamp : Stamp) (decisions : List ShimDecision) : ByteString :=
  str "\x7b\n  \"version\": 1,\n  \"generated_at\": " ++ decimal stamp.generatedAt ++
  str ",\n  \"generated_at_iso\": \"" ++ jsonEscape stamp.generatedAtIso ++
  str "\",\n  \"trigger_reason\": \"" ++ jsonEscape stamp.triggerReason ++
  str "\",\n  \"entries\": [\n" ++ indexEntries decisions ++ str "  ]\n\x7d\n"

/-! ### Rebuilds -/

/-- What a rebuild leaves for the next one. -/
structure Left where
  bin : BinDir := ∅
  index : Option ByteString := none

/-- A rebuild: the commands that are found, and how the system answers. -/
structure Rebuild where
  candidates : List CommandCandidate
  view : View
  stamp : Stamp
  indexWritten : Bool

/-- What the rebuild reads. -/
def Rebuild.viewOf (event : Rebuild) (left : Left) : View :=
  { event.view with readFile := fun path =>
      if path = getCommandIndexFile then left.index else event.view.readFile path }

/-- A decision as it is recorded: no name where its shim could not be written. -/
def recorded (view : View) (decision : ShimDecision) : ShimDecision :=
  if decision.mode ≠ .skipped && !view.shimWritten decision.shimName then
    { decision with
      warning := str "Failed to write shim: " ++ joinPath getApmBinDir decision.shimName
      mode := .skipped
      shimName := [] }
  else decision

/-- `rebuild_command_index_and_shims`. -/
def rebuild (sys : System) (left : Left) (event : Rebuild) : Left where
  bin := rebuildFor (event.viewOf left) sys event.candidates left.bin
  index :=
    if event.indexWritten then
      some (commandIndexText event.stamp
        ((decideShims sys event.candidates).map (recorded event.view)))
    else left.index

/-! ### Reading -/

/-- What the reader of an index looks for. -/
inductive Phase where
  | quote | word | colon | value
deriving DecidableEq

/-- The reader, between two quotes. -/
structure Reader where
  phase : Phase := .quote
  names : List ByteString := []

/-- One piece of the text, with a quote behind it. -/
def readPiece (r : Reader) (piece : ByteString) : Reader :=
  match r.phase with
  | .quote => { r with phase := .word }
  | .word => { r with phase := if piece = str "shim" then .colon else .word }
  | .colon => { r with phase := if chr ':' ∈ piece then .value else .colon }
  | .value => ⟨.quote, if piece.isEmpty then r.names else r.names ++ [piece]⟩

/-- The names are collected one behind the other. -/
theorem foldl_readPiece (pieces : List ByteString) (phase : Phase) (names : List ByteString) :
    (pieces.foldl readPiece ⟨phase, names⟩).names =
      names ++ (pieces.foldl readPiece ⟨phase, []⟩).names := by
  induction pieces generalizing phase names with
  | nil => simp
  | cons piece pieces ih =>
    rw [List.foldl_cons, List.foldl_cons]
    cases phase with
    | quote => exact ih _ _
    | word => exact ih _ _
    | colon => exact ih _ _
    | value =>
      have step (names : List ByteString) : readPiece ⟨.value, names⟩ piece =
          ⟨.quote, if piece.isEmpty then names else names ++ [piece]⟩ := rfl
      rw [step, step]
      split
      · exact ih _ _
      · rw [ih, ih .quote ([] ++ [piece]), List.nil_append, List.append_assoc]

/-- What is read behind an occurrence of the key. -/
def namesBehind (fuel : Nat) (found : ByteString) : List ByteString :=
  match ((found.dropWhile (· != chr ':')).dropWhile (· != chr '"')).tail.splitOn (chr '"') with
  | value :: rest@(_ :: _) =>
      let names := shimNames fuel ((str "\"").intercalate rest)
      if value.isEmpty then names else value :: names
  | _ => []

theorem shimNames_succ (fuel : Nat) (content : ByteString) :
    shimNames (fuel + 1) content =
      ((Lib.Text.breakOn (str "\"shim\"") content).map fun x => namesBehind fuel x.2).getD [] := by
  rw [shimNames]
  cases Lib.Text.breakOn (str "\"shim\"") content with
  | none => rfl
  | some cut => rfl

open Lib.Text (unlines breakOn)

theorem unlines_cons (piece : ByteString) (pieces : List ByteString) (last : ByteString) :
    unlines (chr '"') (piece :: pieces) ++ last =
      piece ++ chr '"' :: (unlines (chr '"') pieces ++ last) := by
  simp [unlines]

theorem length_unlines_cons (piece : ByteString) (pieces : List ByteString) (last : ByteString) :
    (unlines (chr '"') (piece :: pieces) ++ last).length =
      piece.length + ((unlines (chr '"') pieces ++ last).length + 1) := by
  rw [unlines_cons, List.length_append, List.length_cons]

section Pieces

variable {fuel : Nat} {last : ByteString}

theorem splitOn_pieces {pieces : List ByteString} (clean : ∀ piece ∈ pieces, chr '"' ∉ piece)
    (lastClean : chr '"' ∉ last) :
    (unlines (chr '"') pieces ++ last).splitOn (chr '"') = pieces ++ [last] := by
  rw [Lib.Text.splitOn_unlines clean, List.splitOn_eq_singleton lastClean]

theorem namesBehind_nil {found : ByteString}
    (nothing : (found.dropWhile (· != chr ':')).dropWhile (· != chr '"') = []) :
    namesBehind fuel found = [] := by
  unfold namesBehind
  rw [nothing]
  rfl

/-- The next quoted text is taken. -/
theorem namesBehind_value (lastClean : chr '"' ∉ last) {found value : ByteString}
    {pieces : List ByteString} (clean : ∀ piece ∈ value :: pieces, chr '"' ∉ piece)
    (there : (found.dropWhile (· != chr ':')).dropWhile (· != chr '"') =
      chr '"' :: (unlines (chr '"') (value :: pieces) ++ last)) :
    namesBehind fuel found =
      if value.isEmpty then shimNames fuel (unlines (chr '"') pieces ++ last)
      else value :: shimNames fuel (unlines (chr '"') pieces ++ last) := by
  have others := (List.forall_mem_cons.mp clean).2
  obtain ⟨c, more, split⟩ : ∃ c more, pieces ++ [last] = c :: more :=
    List.exists_cons_of_ne_nil (by simp)
  have joined : (str "\"").intercalate (c :: more) = unlines (chr '"') pieces ++ last := by
    rw [← split, ← splitOn_pieces others lastClean]
    exact List.intercalate_splitOn _
  unfold namesBehind
  rw [there, List.tail_cons, splitOn_pieces clean lastClean, List.cons_append, split]
  dsimp only
  rw [joined]

theorem ne_of_clean {text : ByteString} {q : UInt8} (clean : q ∉ text) :
    ∀ c ∈ text, (c != q) = true := by
  intro c mem
  simp only [bne_iff_ne, ne_eq]
  exact fun same => clean (same ▸ mem)

/-- Behind a piece with a colon the next quote is the one that ends the piece. -/
theorem quote_behind_colon {piece : ByteString} (clean : chr '"' ∉ piece)
    (colon : chr ':' ∈ piece) (text : ByteString) :
    ((piece ++ chr '"' :: text).dropWhile (· != chr ':')).dropWhile (· != chr '"') =
      chr '"' :: text := by
  have kept : (piece.dropWhile (· != chr ':')).isEmpty = false := by
    rw [List.isEmpty_eq_false_iff]
    intro none
    have all := List.dropWhile_eq_nil_iff.mp none _ colon
    simp at all
  have before : ∀ c ∈ piece.dropWhile (· != chr ':'), (c != chr '"') = true :=
    fun c mem => ne_of_clean clean c ((List.dropWhile_sublist _).subset mem)
  rw [List.dropWhile_append, kept, if_neg Bool.false_ne_true, List.dropWhile_append_of_pos before]
  exact List.dropWhile_cons_of_neg (by simp)

/-- A piece without a colon is passed. -/
theorem namesBehind_pass {piece : ByteString} (noColon : chr ':' ∉ piece) (text : ByteString) :
    namesBehind fuel (piece ++ chr '"' :: text) = namesBehind fuel text := by
  have passed : (piece ++ chr '"' :: text).dropWhile (· != chr ':') =
      text.dropWhile (· != chr ':') := by
    rw [List.dropWhile_append_of_pos (ne_of_clean noColon),
      List.dropWhile_cons_of_pos (by decide)]
  unfold namesBehind
  rw [passed]

/-- From the key on, the reader looks for a colon and takes the next quoted text. -/
theorem namesBehind_pieces (lastClean : chr '"' ∉ last)
    (rest : ∀ pieces : List ByteString, (∀ piece ∈ pieces, chr '"' ∉ piece) →
      (unlines (chr '"') pieces ++ last).length ≤ fuel →
      shimNames fuel (unlines (chr '"') pieces ++ last) = (pieces.foldl readPiece {}).names)
    {pieces : List ByteString} (clean : ∀ piece ∈ pieces, chr '"' ∉ piece)
    (enough : (unlines (chr '"') pieces ++ last).length ≤ fuel) :
    namesBehind fuel (unlines (chr '"') pieces ++ last) =
      (pieces.foldl readPiece ⟨.colon, []⟩).names := by
  induction pieces with
  | nil =>
    apply namesBehind_nil
    apply List.dropWhile_eq_nil_iff.mpr
    intro c mem
    exact ne_of_clean lastClean c ((List.dropWhile_sublist _).subset mem)
  | cons piece pieces ih =>
    obtain ⟨first, others⟩ := List.forall_mem_cons.mp clean
    rw [length_unlines_cons] at enough
    rw [unlines_cons, List.foldl_cons]
    by_cases colon : chr ':' ∈ piece
    · have there := quote_behind_colon first colon (unlines (chr '"') pieces ++ last)
      have value : readPiece ⟨.colon, []⟩ piece = ⟨.value, []⟩ := by
        simp [readPiece, colon]
      rw [value]
      cases pieces with
      | nil =>
        unfold namesBehind
        rw [there, List.tail_cons, splitOn_pieces others lastClean]
        rfl
      | cons value pieces =>
        obtain ⟨-, others'⟩ := List.forall_mem_cons.mp others
        rw [length_unlines_cons] at enough
        rw [namesBehind_value lastClean others there, rest pieces others' (by omega),
          List.foldl_cons]
        have taken : readPiece ⟨.value, []⟩ value =
            ⟨.quote, if value.isEmpty then [] else [value]⟩ := rfl
        rw [taken]
        split
        · rfl
        · exact (foldl_readPiece pieces .quote [value]).symm
    · have onward : readPiece ⟨.colon, []⟩ piece = ⟨.colon, []⟩ := by
        simp [readPiece, colon]
      rw [namesBehind_pass colon, onward]
      exact ih others (by omega)

/-- Text with at most one quote has no occurrence of the key. -/
theorem shimNames_short {content : ByteString} (short : content.count (chr '"') ≤ 1) :
    shimNames fuel content = [] := by
  cases fuel with
  | zero => rfl
  | succ fuel =>
    have none : breakOn (str "\"shim\"") content = none := by
      rw [Lib.Text.breakOn_eq_none_iff]
      intro occurs
      have two : (str "\"shim\"").count (chr '"') = 2 := by decide
      have fewer := occurs.sublist.count_le (chr '"')
      omega
    rw [shimNames_succ, none]
    rfl

section Key

variable {piece : ByteString} (first : chr '"' ∉ piece)

include first

/-- The quoted key is looked for from the first quote on. -/
theorem breakOn_key (text : ByteString) :
    breakOn (str "\"shim\"") (piece ++ chr '"' :: text) =
      (breakOn (str "\"shim\"") (chr '"' :: text)).map fun x => (piece ++ x.1, x.2) :=
  Lib.Text.breakOn_append_of_notMem first _

/-- The key is found behind the first quote. -/
theorem shimNames_key (pieces : List ByteString) :
    shimNames (fuel + 1) (unlines (chr '"') (piece :: str "shim" :: pieces) ++ last) =
      namesBehind fuel (unlines (chr '"') pieces ++ last) := by
  have text : chr '"' :: (unlines (chr '"') (str "shim" :: pieces) ++ last) =
      str "\"shim\"" ++ (unlines (chr '"') pieces ++ last) := by
    rw [unlines_cons]
    rfl
  have behind : namesBehind fuel (str "\"shim\"" ++ (unlines (chr '"') pieces ++ last)) =
      namesBehind fuel (unlines (chr '"') pieces ++ last) := by
    unfold namesBehind
    rw [List.dropWhile_append_of_pos (by decide)]
  rw [shimNames_succ, unlines_cons, breakOn_key first, text,
    Lib.Text.breakOn_here (List.prefix_append _ _)]
  dsimp only [Option.map_some, Option.getD_some]
  exact behind

/-- Another word behind the first quote is passed. -/
theorem shimNames_other {word : ByteString} (clean : chr '"' ∉ word) (other : word ≠ str "shim")
    (pieces : List ByteString) :
    shimNames (fuel + 1) (unlines (chr '"') (piece :: word :: pieces) ++ last) =
      shimNames (fuel + 1) (unlines (chr '"') (word :: pieces) ++ last) := by
  have notHere : (str "\"shim\"").isPrefixOf
      (chr '"' :: (unlines (chr '"') (word :: pieces) ++ last)) = false := by
    rw [Bool.eq_false_iff, ne_eq, List.isPrefixOf_iff_prefix, unlines_cons]
    rintro ⟨rest, text⟩
    have inner : str "shim" ++ chr '"' :: rest =
        word ++ chr '"' :: (unlines (chr '"') pieces ++ last) := (List.cons.inj text).2
    have split := congrArg (List.splitOn (chr '"')) inner
    rw [List.splitOn_append_cons_self_of_not_mem (by decide),
      List.splitOn_append_cons_self_of_not_mem clean] at split
    exact other (List.cons.inj split).1.symm
  have found : breakOn (str "\"shim\"") (chr '"' ::
      (unlines (chr '"') (word :: pieces) ++ last)) =
      (breakOn (str "\"shim\"") (unlines (chr '"') (word :: pieces) ++ last)).map
        fun x => (chr '"' :: x.1, x.2) := by
    rw [breakOn, notHere, if_neg Bool.false_ne_true]
  rw [shimNames_succ, shimNames_succ, unlines_cons piece, breakOn_key first, found,
    Option.map_map, Option.map_map]
  rfl

end Key

/-- **The reader of an index**, piece by piece. -/
theorem shimNames_pieces (lastClean : chr '"' ∉ last) {pieces : List ByteString}
    (clean : ∀ piece ∈ pieces, chr '"' ∉ piece)
    (enough : (unlines (chr '"') pieces ++ last).length ≤ fuel) :
    shimNames fuel (unlines (chr '"') pieces ++ last) = (pieces.foldl readPiece {}).names := by
  induction fuel generalizing pieces with
  | zero =>
    cases pieces with
    | nil => rfl
    | cons piece pieces =>
      rw [length_unlines_cons] at enough
      omega
  | succ fuel ihFuel =>
    induction pieces with
    | nil =>
      exact shimNames_short (by simp [unlines, List.count_eq_zero.mpr lastClean])
    | cons piece pieces ih =>
      obtain ⟨first, others⟩ := List.forall_mem_cons.mp clean
      rw [length_unlines_cons] at enough
      cases pieces with
      | nil =>
        have count : (unlines (chr '"') [piece] ++ last).count (chr '"') ≤ 1 := by
          simp [unlines, List.count_eq_zero.mpr lastClean, List.count_eq_zero.mpr first]
        exact shimNames_short count
      | cons word pieces =>
        obtain ⟨wordClean, others'⟩ := List.forall_mem_cons.mp others
        rw [List.foldl_cons]
        by_cases key : word = str "shim"
        · subst key
          rw [length_unlines_cons] at enough
          rw [shimNames_key first]
          exact namesBehind_pieces lastClean (fun _ clean enough => ihFuel clean enough) others'
            (by omega)
        · rw [shimNames_other first wordClean key, ih others (by omega)]
          simp [readPiece, key]

end Pieces

/-! ### Entries -/

/-- The reader has not met the key. -/
def Reader.Searching (r : Reader) : Prop := r.phase = .quote ∨ r.phase = .word

/-- The pieces of a line of an entry. -/
def fieldPieces (lead : ByteString) (key : String) (value : ByteString) : List ByteString :=
  [lead, str key, str ": ", value]

/-- One value more. -/
theorem mem_taken {names : List ByteString} {value name : ByteString} :
    name ∈ (if value.isEmpty then names else names ++ [value]) ↔
      name ∈ names ∨ name = value ∧ value ≠ [] := by
  cases value with
  | nil => simp
  | cons c value =>
    simp only [List.isEmpty_cons, Bool.false_eq_true, if_false, List.mem_append,
      List.mem_singleton]
    tauto

section Fields

variable {r : Reader} {lead value : ByteString} {key : String}

theorem foldl_field_search (searching : r.Searching) (leadOther : lead ≠ str "shim")
    (keyOther : str key ≠ str "shim") :
    (fieldPieces lead key value).foldl readPiece r =
      ⟨if value = str "shim" then .colon else .word, r.names⟩ := by
  have colon : str ": " ≠ str "shim" := by decide
  obtain ⟨phase, names⟩ := r
  obtain rfl | rfl := searching
  · simp [fieldPieces, readPiece, keyOther, colon]
  · simp [fieldPieces, readPiece, leadOther, keyOther, colon]

theorem foldl_field_take (looks : r.phase = .colon) (leadPlain : chr ':' ∉ lead)
    (keyPlain : chr ':' ∉ str key) :
    (fieldPieces lead key value).foldl readPiece r =
      ⟨.quote, if value.isEmpty then r.names else r.names ++ [value]⟩ := by
  have colon : chr ':' ∈ str ": " := by decide
  obtain ⟨phase, names⟩ := r
  obtain rfl : phase = .colon := looks
  simp [fieldPieces, readPiece, leadPlain, keyPlain, colon]

/-- The value of the key is taken, if the reader meets the key there or has met one before. -/
theorem foldl_field_key (still : r.phase ≠ .value) (leadOther : lead ≠ str "shim")
    (leadPlain : chr ':' ∉ lead) :
    (fieldPieces lead "shim" value).foldl readPiece r =
      ⟨.quote, if value.isEmpty then r.names else r.names ++ [value]⟩ := by
  have colon : chr ':' ∈ str ": " := by decide
  have plain : chr ':' ∉ str "shim" := by decide
  obtain ⟨phase, names⟩ := r
  cases phase with
  | quote => simp [fieldPieces, readPiece, colon]
  | word => simp [fieldPieces, readPiece, leadOther, colon]
  | colon => simp [fieldPieces, readPiece, leadPlain, plain, colon]
  | value => exact absurd rfl still

/-- Two lines with other keys: the second value is taken if the first is the key. -/
theorem foldl_twoFields (searching : r.Searching) (value value' : ByteString)
    (leadOther : lead ≠ str "shim") (keyOther : str key ≠ str "shim") {lead' : ByteString}
    {key' : String} (leadOther' : lead' ≠ str "shim") (leadPlain : chr ':' ∉ lead')
    (keyOther' : str key' ≠ str "shim") (keyPlain : chr ':' ∉ str key') :
    ∃ r', (fieldPieces lead' key' value').foldl readPiece
        ((fieldPieces lead key value).foldl readPiece r) = r' ∧ r'.phase ≠ .value ∧
      (value' ≠ str "shim" → r'.Searching) ∧ (∀ name ∈ r.names, name ∈ r'.names) ∧
      ∀ name ∈ r'.names, name ∈ r.names ∨ name = value' := by
  rw [foldl_field_search searching leadOther keyOther]
  by_cases isKey : value = str "shim"
  · rw [if_pos isKey, foldl_field_take rfl leadPlain keyPlain]
    refine ⟨_, rfl, nofun, fun _ => .inl rfl, ?_, ?_⟩
    · intro name mem
      exact mem_taken.mpr (.inl mem)
    · intro name mem
      exact (mem_taken.mp mem).imp_right And.left
  · rw [if_neg isKey, foldl_field_search (.inr rfl) leadOther' keyOther']
    refine ⟨_, rfl, ?_, ?_, fun _ mem => mem, fun _ mem => .inl mem⟩
    · dsimp only
      split <;> nofun
    · intro other
      exact .inr (if_neg other)

end Fields

/-- A decision whose entry is read as it is written. -/
structure Listable (d : ShimDecision) : Prop where
  package : Plain d.packageName
  command : Plain d.commandName
  shim : Plain d.shimName
  binary : Plain d.binaryPath
  warning : Plain d.warning
  warningOther : d.warning ≠ str "shim"
  commandName : chr '/' ∉ d.commandName
  shimName : chr '/' ∉ d.shimName

/-- The pieces of an entry. -/
def entryPieces (lead : ByteString) (d : ShimDecision) : List ByteString :=
  fieldPieces (lead ++ str "    \x7b\n      ") "package" d.packageName ++
  (fieldPieces (str ",\n      ") "command" d.commandName ++
  (fieldPieces (str ",\n      ") "shim" d.shimName ++
  (fieldPieces (str ",\n      ") "binary" d.binaryPath ++
  (fieldPieces (str ",\n      ") "mode" (modeToString d.mode) ++
  fieldPieces (str ",\n      ") "warning" d.warning))))

theorem jsonEscape_plain {text : ByteString} (h : Plain text) : jsonEscape text = text := by
  rw [jsonEscape, List.flatMap_congr h, List.flatMap_singleton']

theorem Plain.noQuote {text : ByteString} (h : Plain text) : chr '"' ∉ text := by
  intro mem
  have same := h _ mem
  revert same
  decide

theorem lead_indexEntry {d : ShimDecision} (h : Listable d) (lead : ByteString) :
    lead ++ indexEntry d = unlines (chr '"') (entryPieces lead d) ++ str "\n    \x7d" := by
  unfold indexEntry indexField
  rw [jsonEscape_plain h.package, jsonEscape_plain h.command, jsonEscape_plain h.shim,
    jsonEscape_plain h.binary, jsonEscape_plain h.warning]
  simp only [entryPieces, fieldPieces, unlines, List.flatMap_append, List.flatMap_cons,
    List.flatMap_nil, List.append_assoc, List.nil_append]
  rfl

/-- What a reader makes of some entries: it has their names, and nothing with a slash besides what
it had. -/
structure Reads (r r' : Reader) (decisions : List ShimDecision) : Prop where
  searching : r'.Searching
  kept : ∀ name ∈ r.names, name ∈ r'.names
  names : ∀ d ∈ decisions, d.shimName ≠ [] → d.shimName ∈ r'.names
  plain : ∀ name ∈ r'.names, name ∈ r.names ∨ chr '/' ∉ name

theorem Reads.trans {r r' r'' : Reader} {decisions decisions' : List ShimDecision}
    (h : Reads r r' decisions) (h' : Reads r' r'' decisions') :
    Reads r r'' (decisions ++ decisions') := by
  constructor
  · exact h'.searching
  · exact fun name mem => h'.kept name (h.kept name mem)
  · intro d mem filled
    rcases List.mem_append.mp mem with mem | mem
    · exact h'.kept _ (h.names d mem filled)
    · exact h'.names d mem filled
  · intro name mem
    rcases h'.plain name mem with mem | plain
    · exact h.plain name mem
    · exact .inr plain

theorem foldl_entry {r : Reader} (searching : r.Searching) {d : ShimDecision} (h : Listable d)
    (lead : ByteString) : Reads r ((entryPieces lead d).foldl readPiece r) [d] := by
  have sepOther : str ",\n      " ≠ str "shim" := by decide
  have sepPlain : chr ':' ∉ str ",\n      " := by decide
  have leadOther : lead ++ str "    \x7b\n      " ≠ str "shim" := by
    intro same
    have brace : chr '\x7b' ∈ lead ++ str "    \x7b\n      " :=
      List.mem_append_right _ (by decide)
    rw [same] at brace
    revert brace
    decide
  have modeOther : modeToString d.mode ≠ str "shim" := by cases d.mode <;> decide
  have modePlain : chr '/' ∉ modeToString d.mode := by cases d.mode <;> decide
  unfold entryPieces
  simp only [List.foldl_append]
  obtain ⟨x, read, still, -, kept, first⟩ := foldl_twoFields searching d.packageName
    d.commandName leadOther (by decide : str "package" ≠ _) sepOther sepPlain
    (by decide : str "command" ≠ _) (by decide)
  rw [read, foldl_field_key still sepOther sepPlain]
  have taken : Reader.Searching
      ⟨.quote, if d.shimName.isEmpty then x.names else x.names ++ [d.shimName]⟩ := .inl rfl
  obtain ⟨y, read, -, again, kept', second⟩ := foldl_twoFields taken d.binaryPath
    (modeToString d.mode) sepOther (by decide : str "binary" ≠ _) sepOther sepPlain
    (by decide : str "mode" ≠ _) (by decide)
  rw [read, foldl_field_search (again modeOther) sepOther (by decide), if_neg h.warningOther]
  constructor
  · exact .inr rfl
  · intro name mem
    exact kept' name (mem_taken.mpr (.inl (kept name mem)))
  · intro d' mem filled
    obtain rfl := List.mem_singleton.mp mem
    exact kept' _ (mem_taken.mpr (.inr ⟨rfl, filled⟩))
  · intro name mem
    rcases second name mem with mem | rfl
    · rcases mem_taken.mp mem with mem | ⟨rfl, -⟩
      · rcases first name mem with mem | rfl
        · exact .inl mem
        · exact .inr h.commandName
      · exact .inr h.shimName
    · exact .inr modePlain

theorem fieldPieces_clean {lead value : ByteString} {key : String} (leadClean : chr '"' ∉ lead)
    (keyClean : chr '"' ∉ str key) (valueClean : chr '"' ∉ value) :
    ∀ piece ∈ fieldPieces lead key value, chr '"' ∉ piece := by
  have colon : chr '"' ∉ str ": " := by decide
  simp [fieldPieces, leadClean, keyClean, valueClean, colon]

theorem entryPieces_clean {d : ShimDecision} (h : Listable d) {lead : ByteString}
    (leadClean : chr '"' ∉ lead) : ∀ piece ∈ entryPieces lead d, chr '"' ∉ piece := by
  have first : chr '"' ∉ lead ++ str "    \x7b\n      " := by
    rw [List.mem_append, not_or]
    exact ⟨leadClean, by decide⟩
  have sep : chr '"' ∉ str ",\n      " := by decide
  have mode : chr '"' ∉ modeToString d.mode := by cases d.mode <;> decide
  simp only [entryPieces, List.forall_mem_append]
  exact ⟨fieldPieces_clean first (by decide) h.package.noQuote,
    fieldPieces_clean sep (by decide) h.command.noQuote,
    fieldPieces_clean sep (by decide) h.shim.noQuote,
    fieldPieces_clean sep (by decide) h.binary.noQuote, fieldPieces_clean sep (by decide) mode,
    fieldPieces_clean sep (by decide) h.warning.noQuote⟩

/-- What is behind the head of an index. -/
theorem reads_entries {decisions : List ShimDecision} (h : ∀ d ∈ decisions, Listable d)
    {lead : ByteString} (leadClean : chr '"' ∉ lead) :
    ∃ pieces last, lead ++ (indexEntries decisions ++ str "  ]\n\x7d\n") =
        unlines (chr '"') pieces ++ last ∧
      (∀ piece ∈ pieces, chr '"' ∉ piece) ∧ chr '"' ∉ last ∧
      ∀ r : Reader, r.Searching → Reads r (pieces.foldl readPiece r) decisions := by
  induction decisions generalizing lead with
  | nil =>
    refine ⟨[], lead ++ str "  ]\n\x7d\n", rfl, nofun, ?_, ?_⟩
    · rw [List.mem_append, not_or]
      exact ⟨leadClean, by decide⟩
    · intro r searching
      exact ⟨searching, fun _ mem => mem, nofun, fun _ mem => .inl mem⟩
  | cons d decisions ih =>
    obtain ⟨first, others⟩ := List.forall_mem_cons.mp h
    obtain ⟨sep, sepClean, text⟩ : ∃ sep, chr '"' ∉ sep ∧
        indexEntries (d :: decisions) = indexEntry d ++ (sep ++ indexEntries decisions) := by
      cases decisions with
      | nil => exact ⟨str "\n", by decide, by simp [indexEntries]⟩
      | cons d' decisions => exact ⟨str ",\n", by decide, by simp [indexEntries]⟩
    have behind : chr '"' ∉ str "\n    \x7d" ++ sep := by
      rw [List.mem_append, not_or]
      exact ⟨by decide, sepClean⟩
    obtain ⟨pieces, last, rest, clean, lastClean, reads⟩ := ih others behind
    refine ⟨entryPieces lead d ++ pieces, last, ?_, ?_, lastClean, ?_⟩
    · calc lead ++ (indexEntries (d :: decisions) ++ str "  ]\n\x7d\n")
          = lead ++ indexEntry d ++ (sep ++ (indexEntries decisions ++ str "  ]\n\x7d\n")) := by
            rw [text]
            simp only [List.append_assoc]
        _ = unlines (chr '"') (entryPieces lead d) ++ ((str "\n    \x7d" ++ sep) ++
            (indexEntries decisions ++ str "  ]\n\x7d\n")) := by
            rw [lead_indexEntry first]
            simp only [List.append_assoc]
        _ = unlines (chr '"') (entryPieces lead d ++ pieces) ++ last := by
            rw [rest, unlines, unlines, unlines, List.flatMap_append, List.append_assoc]
    · exact List.forall_mem_append.mpr ⟨entryPieces_clean first leadClean, clean⟩
    · intro r searching
      rw [List.foldl_append]
      have one := foldl_entry searching first lead
      exact one.trans (reads _ one.searching)

/-- The pieces of the head of an index. -/
def headPieces (stamp : Stamp) : List ByteString :=
  [str "\x7b\n  ", str "version", str ": 1,\n  ", str "generated_at",
    str ": " ++ decimal stamp.generatedAt ++ str ",\n  ", str "generated_at_iso", str ": ",
    stamp.generatedAtIso, str ",\n  ", str "trigger_reason", str ": ", stamp.triggerReason,
    str ",\n  ", str "entries"]

theorem commandIndexText_pieces (stamp : Stamp) (decisions : List ShimDecision) :
    commandIndexText stamp decisions = unlines (chr '"') (headPieces stamp) ++
      (str ": [\n" ++ (indexEntries decisions ++ str "  ]\n\x7d\n")) := by
  unfold commandIndexText
  rw [jsonEscape_plain stamp.iso.1, jsonEscape_plain stamp.reason.1]
  simp only [headPieces, unlines, List.flatMap_cons, List.flatMap_nil, List.append_assoc,
    List.nil_append]
  rfl

theorem foldl_search {pieces : List ByteString} (other : ∀ piece ∈ pieces, piece ≠ str "shim")
    {r : Reader} (searching : r.Searching) :
    (pieces.foldl readPiece r).Searching ∧ (pieces.foldl readPiece r).names = r.names := by
  induction pieces generalizing r with
  | nil => exact ⟨searching, rfl⟩
  | cons piece pieces ih =>
    obtain ⟨first, others⟩ := List.forall_mem_cons.mp other
    have onward : readPiece r piece = ⟨.word, r.names⟩ := by
      obtain ⟨phase, names⟩ := r
      obtain rfl | rfl := searching
      · rfl
      · simp [readPiece, first]
    rw [List.foldl_cons, onward]
    exact ih others (.inr rfl)

theorem headPieces_clean (stamp : Stamp) : ∀ piece ∈ headPieces stamp, chr '"' ∉ piece := by
  have number : chr '"' ∉ decimal stamp.generatedAt := by
    intro mem
    have digit := isdigit_of_mem_decimal mem
    revert digit
    decide
  simp only [headPieces, List.forall_mem_cons, List.mem_append, number, stamp.iso.1.noQuote,
    stamp.reason.1.noQuote, or_false, not_or]
  decide

/-- The reader does not meet the key in the head of an index. -/
theorem foldl_head (stamp : Stamp) :
    ((headPieces stamp).foldl readPiece {} : Reader).Searching ∧
      ((headPieces stamp).foldl readPiece {} : Reader).names = [] := by
  have other : ∀ piece ∈ headPieces stamp, piece ≠ str "shim" := by
    have time : str ": " ++ decimal stamp.generatedAt ++ str ",\n  " ≠ str "shim" :=
      fun same => absurd (congrArg List.head? same) (by simp [str])
    simp only [headPieces, List.forall_mem_cons, ne_eq, stamp.iso.2, stamp.reason.2, time]
    decide
  exact foldl_search other (.inl rfl)

/-- **What an index lists**: the names of its shims, and no path with a slash. -/
theorem shimNames_commandIndexText (stamp : Stamp) {decisions : List ShimDecision}
    (h : ∀ d ∈ decisions, Listable d) :
    let names := shimNames (commandIndexText stamp decisions).length
      (commandIndexText stamp decisions)
    (∀ d ∈ decisions, d.shimName ≠ [] → d.shimName ∈ names) ∧ ∀ name ∈ names, chr '/' ∉ name := by
  obtain ⟨pieces, last, text, clean, lastClean, reads⟩ :=
    reads_entries h (by decide : chr '"' ∉ str ": [\n")
  have whole : commandIndexText stamp decisions =
      unlines (chr '"') (headPieces stamp ++ pieces) ++ last := by
    rw [commandIndexText_pieces, text, unlines, unlines, unlines, List.flatMap_append,
      List.append_assoc]
  obtain ⟨searching, none⟩ := foldl_head stamp
  have all := reads _ searching
  dsimp only
  rw [whole, shimNames_pieces lastClean
      (List.forall_mem_append.mpr ⟨headPieces_clean stamp, clean⟩) le_rfl, List.foldl_append]
  refine ⟨all.names, ?_⟩
  intro name mem
  rcases all.plain name mem with mem | plain
  · rw [none] at mem
    cases mem
  · exact plain

end Apm.Shims
