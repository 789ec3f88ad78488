import Apm.Lib.Run
import Mathlib.Data.List.Infix

/-!
The words of a shell script, as a POSIX shell parses them.

The symbols of any alphabet are told apart by what they do outside of quotes (`Kind`) and in a
pattern (`Glob`). A lexer cuts the text into lines of words and operators. A word keeps which of its
symbols are quoted, and where the quoted parameter `"$@"` stands. All other expansions depend on
what the shell runs in, and so does what stands behind them: the lexer stops there.

## Main results

* `foldl_single`: what stands between single quotes is read as it is.
* `foldl_ordinary`, `reading_name`: unquoted text is read as it is, if all of it is ordinary;
  otherwise the word is another one.
-/

namespace Apm.Lib.ShellWords

/-- What a symbol does where it is not quoted. -/
inductive Kind where
  | blank | newline | operator | singleQuote | doubleQuote | backslash | dollar | backquote
  | atSign | hash | other
deriving DecidableEq

/-- What a symbol that is not quoted does in a pattern: `any` matches other symbols, the others
make bracket expressions. -/
inductive Glob where
  | any | opens | closes | negates | slash | literal
deriving DecidableEq

structure Alphabet (α : Type*) where
  kind : α → Kind
  glob : α → Glob

/-- A part of a word: a symbol, or the caller's arguments. -/
inductive Piece (α : Type*) where
  | plain (c : α)
  | quoted (c : α)
  | args
deriving DecidableEq

structure Word (α : Type*) where
  pieces : List (Piece α) := []
  /-- Quotes make a field even if there is nothing between them. -/
  quotes : Bool := false
deriving DecidableEq

inductive Token (α : Type*) where
  | word (word : Word α)
  | operator (c : α)
deriving DecidableEq

/-- Where the lexer stands. -/
inductive Mode (α : Type*) where
  | between
  | comment
  | word
  /-- Behind a backslash, in a word or where a word may begin. -/
  | escaped (inWord : Bool)
  | single
  /-- Between double quotes, which may hold the arguments. -/
  | double (args : Bool)
  | doubleEscaped (backslash : α) (args : Bool)
  | doubleDollar (dollar : α) (args : Bool)
  /-- In an expansion, or behind it. -/
  | expansion (rest : List α)
deriving DecidableEq

structure Lexer (α : Type*) where
  mode : Mode α := .between
  current : Word α := {}
  line : List (Token α) := []
  lines : List (List (Token α)) := []
deriving DecidableEq

/-- How a script ends. -/
inductive Ending (α : Type*) where
  | complete
  /-- A quote is not closed. -/
  | unclosed
  | expansion (rest : List α)

variable {α : Type*}

/-! ### The lexer -/

namespace Lexer

def push (s : Lexer α) (piece : Piece α) (mode : Mode α) : Lexer α :=
  { s with mode, current := { s.current with pieces := s.current.pieces ++ [piece] } }

def endWord (s : Lexer α) : Lexer α :=
  { s with mode := .between, current := {}, line := s.line ++ [.word s.current] }

def endLine (s : Lexer α) : Lexer α :=
  { s with mode := .between, line := [], lines := s.lines ++ [s.line] }

def addOperator (s : Lexer α) (c : α) : Lexer α :=
  { s with mode := .between, line := s.line ++ [.operator c] }

end Lexer

variable (alphabet : Alphabet α)

/-- A symbol of a word that is not quoted. -/
def inWord (s : Lexer α) (c : α) (started : Bool) : Lexer α :=
  match alphabet.kind c with
  | .singleQuote => { s with mode := .single, current := { s.current with quotes := true } }
  | .doubleQuote => { s with mode := .double false }
  | .backslash => { s with mode := .escaped started }
  | .dollar | .backquote => { s with mode := .expansion [c] }
  | _ => s.push (.plain c) .word

def step (s : Lexer α) (c : α) : Lexer α :=
  match s.mode with
  | .between =>
      match alphabet.kind c with
      | .blank => s
      | .newline => s.endLine
      | .operator => s.addOperator c
      | .hash => { s with mode := .comment }
      | _ => inWord alphabet s c false
  | .word =>
      match alphabet.kind c with
      | .blank => s.endWord
      | .newline => s.endWord.endLine
      | .operator => s.endWord.addOperator c
      | _ => inWord alphabet s c true
  | .comment => if alphabet.kind c = .newline then s.endLine else s
  | .escaped started =>
      -- A line break behind a backslash is no part of the text.
      if alphabet.kind c = .newline then { s with mode := if started then .word else .between }
      else s.push (.quoted c) .word
  | .single =>
      if alphabet.kind c = .singleQuote then { s with mode := .word } else s.push (.quoted c) .single
  | .double args =>
      match alphabet.kind c with
      | .doubleQuote =>
          { s with mode := .word, current := { s.current with quotes := s.current.quotes || !args } }
      | .backslash => { s with mode := .doubleEscaped c args }
      | .dollar => { s with mode := .doubleDollar c args }
      | .backquote => { s with mode := .expansion [c] }
      | _ => s.push (.quoted c) (.double args)
  | .doubleEscaped backslash args =>
      match alphabet.kind c with
      | .dollar | .backquote | .doubleQuote | .backslash => s.push (.quoted c) (.double args)
      | .newline => { s with mode := .double args }
      | _ => (s.push (.quoted backslash) (.double args)).push (.quoted c) (.double args)
  | .doubleDollar dollar _ =>
      if alphabet.kind c = .atSign then s.push .args (.double true)
      else { s with mode := .expansion [dollar, c] }
  | .expansion rest => { s with mode := .expansion (rest ++ [c]) }

/-- The lines of a script, and how it ends. -/
def Lexer.finish (s : Lexer α) : List (List (Token α)) × Ending α :=
  match s.mode with
  | .between | .comment => (if s.line.isEmpty then s.lines else s.lines ++ [s.line], .complete)
  | .word => (s.lines ++ [s.line ++ [.word s.current]], .complete)
  | .expansion rest => (s.lines, .expansion rest)
  | _ => (s.lines, .unclosed)

def parse (text : List α) : List (List (Token α)) × Ending α :=
  (text.foldl (step alphabet) {}).finish

/-! ### Fields -/

/-- Does a bracket expression end in what stands behind its first symbol? -/
def closes (pieces : List (Piece α)) : Bool :=
  let isGlob (glob : Glob) : Piece α → Bool
    | .plain c => alphabet.glob c == glob
    | _ => false
  let isSlash : Piece α → Bool
    | .plain c | .quoted c => alphabet.glob c == .slash
    | .args => false
  -- A class that ends in a bracket of its own begins with one, which is then tried by `isPattern`.
  let members := if pieces.head?.any (isGlob .negates) then pieces.tail else pieces
  ((members.takeWhile (!isSlash ·)).tail).any (isGlob .closes)

/-- Is the word a pattern for the names of files? -/
def isPattern : List (Piece α) → Bool
  | [] => false
  | .plain c :: rest =>
      match alphabet.glob c with
      | .any => true
      | .opens => closes alphabet rest || isPattern rest
      | _ => isPattern rest
  | _ :: rest => isPattern rest

/-- The fields of the pieces of a word, behind those of its first field. -/
def fieldsFrom (args : List (List α)) : Option (List α) → List (Piece α) → List (List α)
  | field, [] => field.toList
  | field, .plain c :: rest | field, .quoted c :: rest =>
      fieldsFrom args (some (field.getD [] ++ [c])) rest
  | field, .args :: rest =>
      match args with
      | [] => fieldsFrom args field rest
      | [arg] => fieldsFrom args (some (field.getD [] ++ arg)) rest
      | arg :: others@(_ :: _) =>
          (field.getD [] ++ arg) :: others.dropLast ++ fieldsFrom args others.getLast? rest

/-- The fields that a word is replaced by. What a pattern stands for is told by `pathnames`. -/
def Word.fields (word : Word α) (args : List (List α))
    (pathnames : List (Piece α) → List (List α)) : List (List α) :=
  if isPattern alphabet word.pieces then pathnames word.pieces
  else fieldsFrom args (if word.quotes then some [] else none) word.pieces

/-! ### Quoted text -/

variable {alphabet}

/-- Pieces are added to the word. -/
def Lexer.pushAll (s : Lexer α) (pieces : List (Piece α)) : Lexer α :=
  { s with current := { s.current with pieces := s.current.pieces ++ pieces } }

/-- **What stands between single quotes is read as it is.** -/
theorem foldl_single {s : Lexer α} (mode : s.mode = .single) {text : List α}
    (inside : ∀ c ∈ text, alphabet.kind c ≠ .singleQuote) :
    text.foldl (step alphabet) s = s.pushAll (text.map .quoted) := by
  induction text generalizing s with
  | nil => simp [Lexer.pushAll]
  | cons c text ih =>
    obtain ⟨first, others⟩ := List.forall_mem_cons.mp inside
    have next : step alphabet s c = s.pushAll [.quoted c] := by
      unfold step
      rw [mode]
      dsimp only
      rw [if_neg first, Lexer.push, Lexer.pushAll, ← mode]
    rw [List.foldl_cons, next, ih (s := s.pushAll [.quoted c]) mode others]
    simp [Lexer.pushAll]

/-- A single quote is written outside of the quotes, behind a backslash. -/
theorem foldl_requote {s : Lexer α} (mode : s.mode = .single) (quotes : s.current.quotes = true)
    {quote backslash : α} (isQuote : alphabet.kind quote = .singleQuote)
    (isBackslash : alphabet.kind backslash = .backslash) :
    [quote, backslash, quote, quote].foldl (step alphabet) s = s.pushAll [.quoted quote] := by
  simp [step, inWord, mode, isQuote, isBackslash, Lexer.push, Lexer.pushAll, quotes]

/-- A symbol that stands for itself within a word. -/
def Ordinary (alphabet : Alphabet α) (c : α) : Prop :=
  alphabet.kind c = .atSign ∨ alphabet.kind c = .hash ∨ alphabet.kind c = .other

instance (c : α) : Decidable (Ordinary alphabet c) := inferInstanceAs (Decidable (_ ∨ _))

theorem step_ordinary {s : Lexer α} (mode : s.mode = .word) {c : α}
    (ordinary : Ordinary alphabet c) : step alphabet s c = s.pushAll [.plain c] := by
  unfold step inWord
  rw [mode]
  rcases ordinary with kind | kind | kind
  all_goals
    rw [kind]
    dsimp only
    rw [Lexer.push, Lexer.pushAll, ← mode]

theorem foldl_ordinary {s : Lexer α} (mode : s.mode = .word) {text : List α}
    (ordinary : ∀ c ∈ text, Ordinary alphabet c) :
    text.foldl (step alphabet) s = s.pushAll (text.map .plain) := by
  induction text generalizing s with
  | nil => simp [Lexer.pushAll]
  | cons c text ih =>
    obtain ⟨first, others⟩ := List.forall_mem_cons.mp ordinary
    rw [List.foldl_cons, step_ordinary mode first, ih (s := s.pushAll [.plain c]) mode others]
    simp [Lexer.pushAll]

/-! ### What one symbol does -/

theorem inWord_line (s : Lexer α) (c : α) (started : Bool) :
    (inWord alphabet s c started).line = s.line := by
  unfold inWord
  split <;> rfl

theorem inWord_lines (s : Lexer α) (c : α) (started : Bool) :
    (inWord alphabet s c started).lines = s.lines := by
  unfold inWord
  split <;> rfl

/-- The lines that are read stay, and the last one grows until it ends. -/
theorem step_grows (alphabet : Alphabet α) (s : Lexer α) (c : α) :
    (∃ more, (step alphabet s c).lines = s.lines ∧ (step alphabet s c).line = s.line ++ more) ∨
      ∃ more, (step alphabet s c).lines = s.lines ++ [s.line ++ more] ∧
        (step alphabet s c).line = [] := by
  have same : ∀ s' : Lexer α, s'.lines = s.lines → s'.line = s.line →
      ∃ more, s'.lines = s.lines ∧ s'.line = s.line ++ more :=
    fun s' lines line => ⟨[], lines, line.trans (List.append_nil _).symm⟩
  unfold step
  split
  · split
    · exact .inl (same s rfl rfl)
    · exact .inr ⟨[], by rw [List.append_nil]; rfl, rfl⟩
    · exact .inl ⟨[.operator c], rfl, rfl⟩
    · exact .inl (same _ rfl rfl)
    · exact .inl (same _ (inWord_lines ..) (inWord_line ..))
  · split
    · exact .inl ⟨[.word s.current], rfl, rfl⟩
    · exact .inr ⟨[.word s.current], rfl, rfl⟩
    · exact .inl ⟨[.word s.current, .operator c], rfl, by
        simp [Lexer.addOperator, Lexer.endWord]⟩
    · exact .inl (same _ (inWord_lines ..) (inWord_line ..))
  · split
    · exact .inr ⟨[], by rw [List.append_nil]; rfl, rfl⟩
    · exact .inl (same s rfl rfl)
  · split <;> exact .inl (same _ rfl rfl)
  · split <;> exact .inl (same _ rfl rfl)
  · split <;> exact .inl (same _ rfl rfl)
  · split <;> exact .inl (same _ rfl rfl)
  · split <;> exact .inl (same _ rfl rfl)
  · exact .inl (same _ rfl rfl)

/-! ### Words that come out differently -/

def Piece.symbol? : Piece α → Option α
  | .plain c | .quoted c => some c
  | .args => none

/-- The symbols of a word. -/
def Word.literal (word : Word α) : List α := word.pieces.filterMap Piece.symbol?

/-- The word has symbols, but not these. -/
structure Word.IsOther (word : Word α) (symbols : List α) : Prop where
  filled : word.literal ≠ []
  ne : word.literal ≠ symbols

/-- Behind the tokens of `before`, the lexer has another word than these symbols, or it is in an
expansion. -/
def Differs (before : Lexer α) (symbols : List α) (s : Lexer α) : Prop :=
  (s.lines = before.lines ∧ ∃ rest, s.mode = .expansion rest) ∨
    (∃ word more, word.IsOther symbols ∧ s.lines = before.lines ∧
      s.line = before.line ++ .word word :: more) ∨
    ∃ word more others, word.IsOther symbols ∧
      s.lines = before.lines ++ (before.line ++ .word word :: more) :: others

theorem Differs.step {before s : Lexer α} {symbols : List α} (h : Differs before symbols s)
    (c : α) : Differs before symbols (step alphabet s c) := by
  obtain ⟨lines, rest, mode⟩ | ⟨word, more, other, lines, line⟩ |
    ⟨word, more, others, other, lines⟩ := h
  · left
    unfold ShellWords.step
    rw [mode]
    exact ⟨lines, _, rfl⟩
  · right
    obtain ⟨grown, sameLines, grownLine⟩ | ⟨grown, newLine, -⟩ := step_grows alphabet s c
    · exact .inl ⟨word, more ++ grown, other, sameLines.trans lines, by simp [grownLine, line]⟩
    · exact .inr ⟨word, more ++ grown, [], other, by simp [newLine, lines, line]⟩
  · right
    right
    obtain ⟨grown, sameLines, -⟩ | ⟨grown, newLine, -⟩ := step_grows alphabet s c
    · exact ⟨word, more, others, other, sameLines.trans lines⟩
    · exact ⟨word, more, others ++ [s.line ++ grown], other, by simp [newLine, lines]⟩

theorem Differs.foldl {before s : Lexer α} {symbols : List α} (h : Differs before symbols s)
    (text : List α) : Differs before symbols (text.foldl (ShellWords.step alphabet) s) := by
  apply List.foldlRecOn
  · exact h
  · exact fun s h c _ => h.step c

/-- So it is when the text ends. -/
theorem Differs.finish {before s : Lexer α} {symbols : List α} (h : Differs before symbols s) :
    (s.finish.1 = before.lines ∧ s.finish.2 ≠ .complete) ∨
      ∃ word more others, word.IsOther symbols ∧
        s.finish.1 = before.lines ++ (before.line ++ .word word :: more) :: others := by
  obtain ⟨lines, rest, mode⟩ | ⟨word, more, other, lines, line⟩ |
    ⟨word, more, others, other, lines⟩ := h
  · left
    unfold Lexer.finish
    rw [mode]
    exact ⟨lines, nofun⟩
  · have filled : s.line.isEmpty = false := by simp [line]
    unfold Lexer.finish
    split
    · right
      rw [filled, if_neg Bool.false_ne_true]
      exact ⟨word, more, [], other, by rw [lines, line]⟩
    · right
      rw [filled, if_neg Bool.false_ne_true]
      exact ⟨word, more, [], other, by rw [lines, line]⟩
    · right
      exact ⟨word, more ++ [.word s.current], [], other, by simp [lines, line]⟩
    · exact .inl ⟨lines, nofun⟩
    · exact .inl ⟨lines, nofun⟩
  · right
    unfold Lexer.finish
    split
    · split
      · exact ⟨word, more, others, other, lines⟩
      · exact ⟨word, more, others ++ [s.line], other, by simp [lines]⟩
    · split
      · exact ⟨word, more, others, other, lines⟩
      · exact ⟨word, more, others ++ [s.line], other, by simp [lines]⟩
    · exact ⟨word, more, others ++ [s.line ++ [.word s.current]], other, by simp [lines]⟩
    · exact ⟨word, more, others, other, lines⟩
    · exact ⟨word, more, others, other, lines⟩

/-! ### Reading text that is not quoted -/

/-- A word of less than `size` symbols is open, and so it stays while one symbol of text gives at
most one of the word. -/
structure Short (size : Nat) (s : Lexer α) : Prop where
  filled : s.current.literal ≠ []
  size :
    match s.mode with
    | .word | .single | .double _ | .doubleDollar _ _ | .escaped true =>
        s.current.literal.length < size
    | .doubleEscaped _ _ => s.current.literal.length + 1 < size
    | _ => False

/-- What a lexer that was in a word has read of some text, if the word is still open: all of it is
ordinary, or a quote or a backslash is lost. -/
structure Reading (alphabet : Alphabet α) (before : Lexer α) (read : List α) (s : Lexer α) :
    Prop where
  lines : s.lines = before.lines
  line : s.line = before.line
  word : (∀ c ∈ read, Ordinary alphabet c) ∧ s = before.pushAll (read.map .plain) ∨
    Short (before.current.literal.length + read.length) s
  escaped : ∀ started, s.mode = .escaped started → ∃ c ∈ read.getLast?, alphabet.kind c = .backslash

theorem literal_push (s : Lexer α) (piece : Piece α) (mode : Mode α) :
    (s.push piece mode).current.literal =
      s.current.literal ++ (Piece.symbol? piece).toList := by
  unfold Lexer.push Word.literal
  rw [List.filterMap_append]
  cases piece <;> rfl

theorem literal_pushAll (s : Lexer α) (pieces : List (Piece α)) :
    (s.pushAll pieces).current.literal =
      s.current.literal ++ pieces.filterMap Piece.symbol? := by
  unfold Lexer.pushAll Word.literal
  exact List.filterMap_append

/-- A word that ends is another one if it is too short. -/
theorem differs_endWord {before s : Lexer α} {symbols : List α} (lines : s.lines = before.lines)
    (line : s.line = before.line) (filled : s.current.literal ≠ [])
    (short : s.current.literal.length < symbols.length) : Differs before symbols s.endWord := by
  refine .inr (.inl ⟨s.current, [], ⟨filled, fun same => ?_⟩, lines, congrArg (· ++ _) line⟩)
  rw [same] at short
  exact Nat.lt_irrefl _ short

theorem length_push (s : Lexer α) (c : α) (mode : Mode α) :
    (s.push (.quoted c) mode).current.literal.length = s.current.literal.length + 1 := by
  rw [literal_push]
  exact List.length_append ..

theorem filled_push {s : Lexer α} (filled : s.current.literal ≠ []) (piece : Piece α)
    (mode : Mode α) : (s.push piece mode).current.literal ≠ [] := by
  rw [literal_push]
  exact List.append_ne_nil_of_left_ne_nil filled _

section Step

variable {before s : Lexer α} {read symbols : List α}

/-- One more symbol where the word is not quoted. -/
theorem reading_word (lines : s.lines = before.lines) (line : s.line = before.line)
    (mode : s.mode = .word) (filled : s.current.literal ≠ []) {c : α}
    (special : ¬ Ordinary alphabet c)
    (size : s.current.literal.length ≤ before.current.literal.length + read.length)
    (more : before.current.literal.length + read.length < symbols.length) :
    Reading alphabet before (read ++ [c]) (step alphabet s c) ∨
      Differs before symbols (step alphabet s c) := by
  have ended : Differs before symbols s.endWord :=
    differs_endWord lines line filled (Nat.lt_of_le_of_lt size more)
  have size : s.current.literal.length < before.current.literal.length + (read ++ [c]).length := by
    rw [List.length_append]
    exact Nat.lt_succ_of_le size
  unfold step inWord
  rw [mode]
  cases kind : alphabet.kind c with
  | blank => exact .inr ended
  | newline =>
    have next : step alphabet s.endWord c = s.endWord.endLine := by
      unfold step
      simp only [Lexer.endWord, kind]
    exact .inr (next ▸ ended.step c)
  | operator =>
    have next : step alphabet s.endWord c = s.endWord.addOperator c := by
      unfold step
      simp only [Lexer.endWord, kind]
    exact .inr (next ▸ ended.step c)
  | singleQuote => exact .inl ⟨lines, line, .inr ⟨filled, size⟩, nofun⟩
  | doubleQuote => exact .inl ⟨lines, line, .inr ⟨filled, size⟩, nofun⟩
  | backslash =>
    exact .inl ⟨lines, line, .inr ⟨filled, size⟩, fun _ _ => ⟨c, List.getLast?_concat, kind⟩⟩
  | dollar => exact .inr (.inl ⟨lines, _, rfl⟩)
  | backquote => exact .inr (.inl ⟨lines, _, rfl⟩)
  | atSign => exact absurd (.inl kind) special
  | hash => exact absurd (.inr (.inl kind)) special
  | other => exact absurd (.inr (.inr kind)) special

theorem reading_of_short {s' : Lexer α} {c : α} (lines : s'.lines = before.lines)
    (line : s'.line = before.line)
    (short : Short (before.current.literal.length + read.length + 1) s')
    (escaped : ∀ started, s'.mode ≠ .escaped started) :
    Reading alphabet before (read ++ [c]) s' := by
  refine ⟨lines, line, .inr ?_, fun started mode => absurd mode (escaped started)⟩
  rw [List.length_append]
  exact short

/-- One more symbol where a quote or a backslash is lost already. -/
theorem reading_short (lines : s.lines = before.lines) (line : s.line = before.line)
    (h : Short (before.current.literal.length + read.length) s) (c : α)
    (more : before.current.literal.length + read.length < symbols.length) :
    Reading alphabet before (read ++ [c]) (step alphabet s c) ∨
      Differs before symbols (step alphabet s c) := by
  obtain ⟨filled, short⟩ := h
  cases mode : s.mode with
  | between | comment | expansion rest =>
    rw [mode] at short
    exact short.elim
  | word =>
    rw [mode] at short
    by_cases ordinary : Ordinary alphabet c
    · left
      rw [step_ordinary mode ordinary]
      have literal : (s.pushAll [.plain c]).current.literal = s.current.literal ++ [c] :=
        literal_pushAll s [.plain c]
      refine reading_of_short lines line ⟨?_, ?_⟩ fun started escaped => ?_
      · rw [literal]
        exact List.concat_ne_nil _ _
      · rw [show (s.pushAll [.plain c]).mode = .word from mode, literal, List.length_append]
        exact Nat.succ_lt_succ short
      · exact absurd (mode.symm.trans escaped) nofun
    · exact reading_word lines line mode filled ordinary (Nat.le_of_lt short) more
  | escaped started =>
    rw [mode] at short
    cases started with
    | false => exact short.elim
    | true =>
      left
      unfold step
      rw [mode]
      dsimp only
      split
      · exact reading_of_short lines line ⟨filled, Nat.lt_succ_of_lt short⟩ nofun
      · refine reading_of_short lines line ⟨filled_push filled _ _, ?_⟩ nofun
        exact (length_push s c .word).trans_lt (Nat.succ_lt_succ short)
  | single =>
    rw [mode] at short
    left
    unfold step
    rw [mode]
    dsimp only
    split
    · exact reading_of_short lines line ⟨filled, Nat.lt_succ_of_lt short⟩ nofun
    · refine reading_of_short lines line ⟨filled_push filled _ _, ?_⟩ nofun
      exact (length_push s c .single).trans_lt (Nat.succ_lt_succ short)
  | double args =>
    rw [mode] at short
    unfold step
    rw [mode]
    dsimp only
    split
    · exact .inl (reading_of_short lines line ⟨filled, Nat.lt_succ_of_lt short⟩ nofun)
    · exact .inl (reading_of_short lines line ⟨filled, Nat.succ_lt_succ short⟩ nofun)
    · exact .inl (reading_of_short lines line ⟨filled, Nat.lt_succ_of_lt short⟩ nofun)
    · exact .inr (.inl ⟨lines, _, rfl⟩)
    · left
      refine reading_of_short lines line ⟨filled_push filled _ _, ?_⟩ nofun
      exact (length_push s c (.double args)).trans_lt (Nat.succ_lt_succ short)
  | doubleEscaped backslash args =>
    rw [mode] at short
    have once : Short (before.current.literal.length + read.length + 1)
        (s.push (.quoted c) (.double args)) :=
      ⟨filled_push filled _ _, (length_push s c (.double args)).trans_lt (Nat.lt_succ_of_lt short)⟩
    left
    unfold step
    rw [mode]
    dsimp only
    split
    · exact reading_of_short lines line once nofun
    · exact reading_of_short lines line once nofun
    · exact reading_of_short lines line once nofun
    · exact reading_of_short lines line once nofun
    · refine reading_of_short lines line ⟨filled, ?_⟩ nofun
      exact Nat.lt_of_succ_lt (Nat.lt_succ_of_lt short)
    · refine reading_of_short lines line ⟨filled_push (filled_push filled _ _) _ _, ?_⟩ nofun
      refine (length_push _ c (.double args)).trans_lt ?_
      rw [length_push]
      exact Nat.succ_lt_succ short
  | doubleDollar dollar args =>
    rw [mode] at short
    unfold step
    rw [mode]
    dsimp only
    split
    · left
      have same : (s.push .args (.double true)).current.literal = s.current.literal := by
        rw [literal_push]
        exact List.append_nil _
      refine reading_of_short lines line ⟨filled_push filled _ _, ?_⟩ nofun
      exact (congrArg List.length same).trans_lt (Nat.lt_succ_of_lt short)
    · exact .inr (.inl ⟨lines, _, rfl⟩)

/-- One more symbol. -/
theorem reading_step (h : Reading alphabet before read s) (mode : before.mode = .word)
    (filled : before.current.literal ≠ []) (c : α)
    (more : before.current.literal.length + read.length < symbols.length) :
    Reading alphabet before (read ++ [c]) (step alphabet s c) ∨
      Differs before symbols (step alphabet s c) := by
  obtain ⟨ordinary, rfl⟩ | short := h.word
  · have mode : (before.pushAll (read.map .plain)).mode = .word := mode
    have literal : (before.pushAll (read.map .plain)).current.literal =
        before.current.literal ++ read := by
      rw [literal_pushAll, List.filterMap_map]
      exact congrArg _ (List.filterMap_some)
    by_cases next : Ordinary alphabet c
    · left
      rw [step_ordinary mode next]
      refine ⟨h.lines, h.line, .inl ⟨List.forall_mem_append.mpr ⟨ordinary, ?_⟩, ?_⟩, ?_⟩
      · exact List.forall_mem_singleton.mpr next
      · simp [Lexer.pushAll]
      · intro started escaped
        exact absurd (mode.symm.trans escaped) nofun
    · apply reading_word h.lines h.line mode _ next _ more
      · rw [literal]
        exact List.append_ne_nil_of_left_ne_nil filled _
      · exact (congrArg List.length literal).trans_le (List.length_append ..).le
  · exact reading_short h.lines h.line short c more

/-- **What becomes of a name** behind the beginning of a word: the word is still open, or it is
another one than the beginning and the name. -/
theorem reading_name (mode : before.mode = .word) (filled : before.current.literal ≠ [])
    (name : List α) :
    Reading alphabet before name (name.foldl (step alphabet) before) ∨
      Differs before (before.current.literal ++ name) (name.foldl (step alphabet) before) := by
  apply Run.run_done (fun read s => Reading alphabet before read s ∨
    Differs before (before.current.literal ++ name) s)
  · intro read c rest split s h
    rcases h with h | h
    · apply reading_step h mode filled c
      simp [split]
    · exact .inr (h.step c)
  · left
    refine ⟨rfl, rfl, .inl ⟨nofun, ?_⟩, fun started escaped => ?_⟩
    · simp [Lexer.pushAll]
    · exact absurd (mode.symm.trans escaped) nofun

end Step

/-! ### A line that passes on the arguments -/

/-- The symbols that pass on the caller's arguments and end the line. -/
structure Call (alphabet : Alphabet α) where
  blank : α
  quote : α
  dollar : α
  sign : α
  newline : α
  isBlank : alphabet.kind blank = .blank
  isQuote : alphabet.kind quote = .doubleQuote
  isDollar : alphabet.kind dollar = .dollar
  isSign : alphabet.kind sign = .atSign
  isNewline : alphabet.kind newline = .newline

def Call.text (call : Call alphabet) : List α :=
  [call.blank, call.quote, call.dollar, call.sign, call.quote, call.newline]

section Call

variable {before s : Lexer α} {name : List α} (call : Call alphabet)

/-- Behind a word that is not quoted, they are a word of their own. -/
theorem foldl_call (mode : s.mode = .word) :
    call.text.foldl (step alphabet) s =
      { lines := s.lines ++ [s.line ++ [.word s.current, .word ⟨[.args], false⟩]] } := by
  simp [Call.text, step, inWord, mode, call.isBlank, call.isQuote, call.isDollar, call.isSign,
    call.isNewline, Lexer.endWord, Lexer.push, Lexer.endLine]

/-- Behind a backslash they belong to the word. -/
theorem foldl_call_escaped (mode : s.mode = .escaped true) :
    call.text.foldl (step alphabet) s =
      { lines := s.lines ++ [s.line ++ [.word
          ⟨s.current.pieces ++ [.quoted call.blank, .args], s.current.quotes⟩]] } := by
  simp [Call.text, step, inWord, mode, call.isBlank, call.isQuote, call.isDollar, call.isSign,
    call.isNewline, Lexer.endWord, Lexer.push, Lexer.endLine]

/-- Between double quotes their own quote is the closing one, and the expansion is another. -/
theorem differs_double {args : Bool} {symbols : List α} (mode : s.mode = .double args)
    (lines : s.lines = before.lines) :
    Differs before symbols ([call.quote, call.dollar, call.sign, call.quote, call.newline].foldl
      (step alphabet) s) := by
  have inside : (step alphabet (step alphabet s call.quote) call.dollar).mode =
      .expansion [call.dollar] := by
    simp [step, inWord, mode, call.isQuote, call.isDollar]
  have same : (step alphabet (step alphabet s call.quote) call.dollar).lines = s.lines := by
    simp [step, inWord, mode, call.isQuote, call.isDollar]
  exact Differs.foldl (.inl ⟨same.trans lines, _, inside⟩) [call.sign, call.quote, call.newline]

/-- **A name that is not ordinary is another word**, or its quote is not closed. -/
theorem differs_call (h : Reading alphabet before name s)
    (short : Short (before.current.literal.length + name.length) s) :
    Differs before (before.current.literal ++ name) (call.text.foldl (step alphabet) s) ∨
      (call.text.foldl (step alphabet) s).lines = before.lines ∧
        (call.text.foldl (step alphabet) s).mode = .single := by
  obtain ⟨filled, size⟩ := short
  cases mode : s.mode with
  | between | comment | expansion rest =>
    rw [mode] at size
    exact size.elim
  | word =>
    rw [mode] at size
    left
    rw [foldl_call call mode]
    refine .inr (.inr ⟨s.current, _, [], ⟨filled, fun same => ?_⟩, by rw [h.lines, h.line]⟩)
    rw [same, List.length_append] at size
    exact Nat.lt_irrefl _ size
  | escaped started =>
    rw [mode] at size
    cases started with
    | false => exact size.elim
    | true =>
      left
      rw [foldl_call_escaped call mode]
      have literal : Word.literal
          ⟨s.current.pieces ++ [.quoted call.blank, .args], s.current.quotes⟩ =
          s.current.literal ++ [call.blank] := List.filterMap_append
      refine .inr (.inr ⟨_, [], [], ⟨?_, fun same => ?_⟩, by rw [h.lines, h.line]⟩)
      · rw [literal]
        exact List.concat_ne_nil _ _
      · -- The name ends in the backslash, and the word in the blank.
        obtain ⟨c, last, kind⟩ := h.escaped true mode
        have nonempty : name ≠ [] := by
          rintro rfl
          cases last
        have lasts := congrArg List.getLast? (literal.symm.trans same)
        rw [List.getLast?_concat, List.getLast?_append_of_ne_nil _ nonempty, last] at lasts
        rw [← Option.some.inj lasts, call.isBlank] at kind
        cases kind
  | single =>
    right
    rw [foldl_single mode]
    · exact ⟨h.lines, mode⟩
    · simp [Call.text, call.isBlank, call.isQuote, call.isDollar, call.isSign, call.isNewline]
  | double args =>
    left
    have next : (step alphabet s call.blank).mode = .double args := by
      simp [step, mode, call.isBlank, Lexer.push]
    have lines : (step alphabet s call.blank).lines = s.lines := by
      simp [step, mode, call.isBlank, Lexer.push]
    rw [Call.text, List.foldl_cons]
    exact differs_double call next (lines.trans h.lines)
  | doubleEscaped backslash args =>
    left
    have next : (step alphabet s call.blank).mode = .double args := by
      simp [step, mode, call.isBlank, Lexer.push]
    have lines : (step alphabet s call.blank).lines = s.lines := by
      simp [step, mode, call.isBlank, Lexer.push]
    rw [Call.text, List.foldl_cons]
    exact differs_double call next (lines.trans h.lines)
  | doubleDollar dollar args =>
    left
    have inside : step alphabet s call.blank =
        { s with mode := .expansion [dollar, call.blank] } := by
      simp [step, mode, call.isBlank]
    apply Differs.foldl (s := step alphabet s call.blank) _
      [call.quote, call.dollar, call.sign, call.quote, call.newline]
    rw [inside]
    exact .inl ⟨h.lines, _, rfl⟩

end Call

/-! ### What fields come out -/

section Fields

variable {args : List (List α)} {pathnames : List (Piece α) → List (List α)}

theorem fieldsFrom_args : fieldsFrom args none [.args] = args := by
  match args with
  | [] => rfl
  | [arg] => rfl
  | arg :: other :: others =>
    have last : ((other :: others).getLast?).toList = [(other :: others).getLast nofun] := rfl
    rw [fieldsFrom, fieldsFrom, last, List.cons_append, List.dropLast_append_getLast]
    rfl

/-- Pieces without arguments make one field. -/
theorem fieldsFrom_literal {pieces : List (Piece α)} (h : args = [] ∨ .args ∉ pieces)
    (field : Option (List α)) :
    fieldsFrom args field pieces =
      if pieces.filterMap Piece.symbol? = [] then field.toList
      else [field.getD [] ++ pieces.filterMap Piece.symbol?] := by
  induction pieces generalizing field with
  | nil => rfl
  | cons piece pieces ih =>
    have ih := ih (h.imp_right fun none mem => none (List.mem_cons_of_mem _ mem))
    cases piece with
    | plain c =>
      have one : (.plain c :: pieces).filterMap Piece.symbol? = c :: pieces.filterMap Piece.symbol? :=
        rfl
      rw [fieldsFrom, ih, one, if_neg (List.cons_ne_nil _ _)]
      split
      · rename_i empty
        rw [empty]
        rfl
      · simp
    | quoted c =>
      have one : (.quoted c :: pieces).filterMap Piece.symbol? = c :: pieces.filterMap Piece.symbol? :=
        rfl
      rw [fieldsFrom, ih, one, if_neg (List.cons_ne_nil _ _)]
      split
      · rename_i empty
        rw [empty]
        rfl
      · simp
    | args =>
      obtain rfl | none := h
      · rw [fieldsFrom, ih, List.filterMap_cons_none rfl]
      · exact absurd List.mem_cons_self none

/-- Quoted text is one field, also if it is empty. -/
theorem fields_quoted (text : List α) :
    (Word.mk (text.map .quoted) true).fields alphabet args pathnames = [text] := by
  have noPattern : isPattern alphabet (text.map .quoted) = false := by
    induction text with
    | nil => rfl
    | cons c text ih => exact ih
  have literal : (text.map .quoted).filterMap Piece.symbol? = text := by
    rw [List.filterMap_map]
    exact List.filterMap_some
  unfold Word.fields
  rw [noPattern, if_neg Bool.false_ne_true, if_pos rfl, fieldsFrom_literal (.inr (by simp)), literal]
  split
  · rename_i empty
    rw [empty]
    rfl
  · rfl

/-- So is text that is not quoted, if it is no pattern. -/
theorem fields_plain {text : List α} (filled : text ≠ [])
    (noPattern : isPattern alphabet (text.map .plain) = false) (quotes : Bool) :
    (Word.mk (text.map .plain) quotes).fields alphabet args pathnames = [text] := by
  have literal : (text.map .plain).filterMap Piece.symbol? = text := by
    rw [List.filterMap_map]
    exact List.filterMap_some
  have start : (if quotes then some [] else none : Option (List α)).getD [] = [] := by
    cases quotes <;> rfl
  unfold Word.fields
  rw [noPattern, if_neg Bool.false_ne_true, fieldsFrom_literal (.inr (by simp)), literal,
    if_neg filled, start, List.nil_append]

theorem fields_args : (Word.mk [.args] false).fields alphabet args pathnames = args := fieldsFrom_args

/-- Another word comes out as something else where there are no arguments, and patterns stand for
something else. -/
theorem Word.IsOther.fields {word : Word α} {symbols other : List α} (h : word.IsOther symbols)
    (differs : other ≠ symbols) :
    ∃ field, word.fields alphabet [] (fun _ => [other]) = [field] ∧ field ≠ symbols := by
  unfold Word.fields
  split
  · exact ⟨other, rfl, differs⟩
  · have start : (if word.quotes then some [] else none : Option (List α)).getD [] = [] := by
      cases word.quotes <;> rfl
    rw [fieldsFrom_literal (.inl rfl), ← Word.literal, if_neg h.filled, start]
    exact ⟨_, rfl, h.ne⟩

/-- Symbols that begin no pattern do not matter for it. -/
theorem isPattern_append {text : List α}
    (calm : ∀ c ∈ text, alphabet.glob c ≠ .any ∧ alphabet.glob c ≠ .opens)
    (pieces : List (Piece α)) :
    isPattern alphabet (text.map .plain ++ pieces) = isPattern alphabet pieces := by
  induction text with
  | nil => rfl
  | cons c text ih =>
    obtain ⟨⟨notAny, notOpens⟩, others⟩ := List.forall_mem_cons.mp calm
    rw [List.map_cons, List.cons_append, isPattern]
    split
    · rename_i any
      exact absurd any notAny
    · rename_i opens
      exact absurd opens notOpens
    · exact ih others

end Fields

end Apm.Lib.ShellWords
