import Apm.Daemon.Shims
import Apm.Lib.ShellWords

/-!
What the shell does with shims and wrappers: `writeShimFile` of `src/apmd/export_path.cpp` and
`createTermuxWrapper` of `src/apmd/install_manager.cpp`.

A shim quotes the path of its binary, and a wrapper does not. The shell that runs them is that of
POSIX, for the commands they are made of; what a pattern stands for, and what is done where an
expansion or what it runs decides, depends on who calls it.

## Main results

* `scripts_exec_iff`: a shim always executes its binary with the caller's arguments, and a wrapper
  just when nothing in the command's name is special to the shell.
-/

namespace Apm.Shims

open Apm.Fs Apm.Config Apm.Lib.ShellWords

/-! ### The shell -/

def shellKind (c : UInt8) : Kind :=
  if c == chr ' ' || c == chr '\t' then .blank
  else if c == chr '\n' then .newline
  else if c ∈ str "|&;<>()" then .operator
  else if c == chr '\'' then .singleQuote
  else if c == chr '"' then .doubleQuote
  else if c == chr '\\' then .backslash
  else if c == chr '$' then .dollar
  else if c == chr '\x60' then .backquote
  else if c == chr '@' then .atSign
  else if c == chr '#' then .hash
  else .other

def shellGlob (c : UInt8) : Glob :=
  if c == chr '*' || c == chr '?' then .any
  else if c == chr '[' then .opens
  else if c == chr ']' then .closes
  else if c == chr '!' then .negates
  else if c == chr '/' then .slash
  else .literal

def shell : Alphabet UInt8 := ⟨shellKind, shellGlob⟩

/-- What is done by a script: `test` looks for a regular file, `source` reads commands from a file,
and `exec` ends the script. Anything but these is `other`. -/
inductive Action where
  | test (file : ByteString)
  | source (file : ByteString)
  | exec (path : ByteString) (args : List ByteString)
  | syntaxError
  | other
deriving DecidableEq

/-- Who calls a script, and what is there at that time. -/
structure Caller where
  args : List ByteString
  /-- The names of files that a pattern stands for. -/
  pathnames : List (Piece UInt8) → List ByteString
  isFile : ByteString → Bool
  /-- What is done from an expansion on. -/
  expansion : ByteString → List Action

variable (caller : Caller)

/-- A word that is not quoted. -/
def keyword (name : String) : Token UInt8 := .word ⟨(str name).map .plain, false⟩

/-- The fields of a simple command. -/
def fieldsOf : List (Token UInt8) → Option (List ByteString)
  | [] => some []
  | .word word :: rest =>
      (fieldsOf rest).map (word.fields shell caller.args caller.pathnames ++ ·)
  | .operator _ :: _ => none

inductive Command where
  | blank
  | ifFile (file : ByteString)
  | fi
  | source (file : ByteString)
  | exec (path : ByteString) (args : List ByteString)
  | other

/-- `if [ -f file ]; then`. -/
def ifCommand (line : List (Token UInt8)) : Command :=
  match fieldsOf caller (line.tail.take 4) with
  | some [open_, flag, file, close] =>
      if open_ = str "[" ∧ flag = str "-f" ∧ close = str "]" then .ifFile file else .other
  | _ => .other

/-- A command without operators. -/
def simpleCommand (line : List (Token UInt8)) : Command :=
  match fieldsOf caller line with
  | some (name :: operand :: args) =>
      if name = str "." ∧ args = [] then .source operand
      else if name = str "exec" then .exec operand args
      else .other
  | _ => .other

def lineCommand (line : List (Token UInt8)) : Command :=
  if line = [] then .blank
  else if line = [keyword "fi"] then .fi
  else if line.head? = some (keyword "if") ∧
      line.drop 5 = [.operator (chr ';'), keyword "then"] then ifCommand caller line
  else simpleCommand caller line

/-- Outside of an `if`, or in one that is taken or skipped. -/
inductive Branch where
  | outside | taken | skipped
deriving DecidableEq

def execute : Branch → List (List (Token UInt8)) → Ending UInt8 → List Action
  | branch, [], .complete => if branch = .outside then [] else [.syntaxError]
  | _, [], .unclosed => [.syntaxError]
  | _, [], .expansion rest => caller.expansion rest
  | branch, line :: lines, ending =>
      match branch, lineCommand caller line with
      | .outside, .fi => [.syntaxError]
      | _, .fi => execute .outside lines ending
      | .skipped, _ => execute .skipped lines ending
      | _, .blank => execute branch lines ending
      | .outside, .ifFile file =>
          .test file :: execute (if caller.isFile file then .taken else .skipped) lines ending
      | _, .ifFile _ => [.other]
      | _, .source file => .source file :: execute branch lines ending
      | _, .exec path args => [.exec path args]
      | _, .other => [.other]

/-- What is done when the script is run. -/
def runScript (text : ByteString) : List Action :=
  let (lines, ending) := parse shell text
  execute caller .outside lines ending

/-! ### What is meant -/

/-- A shim reads the Termux environment, if it is there, and executes the binary. -/
def shimActions (decision : ShimDecision) : List Action :=
  (if decision.sourceTermuxEnv then
    .test getTermuxEnvFile ::
      if caller.isFile getTermuxEnvFile then [.source getTermuxEnvFile] else []
  else []) ++ [.exec decision.binaryPath caller.args]

def wrappedPath (commandName : ByteString) : ByteString :=
  getTermuxPrefix ++ str "/bin/" ++ commandName

def wrapperActions (commandName : ByteString) : List Action :=
  [.source getTermuxEnvFile, .exec (wrappedPath commandName) caller.args]

/-- Nothing in the name is special to the shell. -/
structure PlainCommand (commandName : ByteString) : Prop where
  ordinary : ∀ c ∈ commandName, Ordinary shell c
  noPattern : isPattern shell (commandName.map .plain) = false

/-! ### Shims -/

/-- What stands behind the path in both kinds of scripts. -/
def execCall : Call shell where
  blank := chr ' '
  quote := chr '"'
  dollar := chr '$'
  sign := chr '@'
  newline := chr '\n'
  isBlank := by decide
  isQuote := by decide
  isDollar := by decide
  isSign := by decide
  isNewline := by decide

theorem execCall_text : execCall.text = str " \"$@\"\n" := by decide

theorem singleQuote_kind : shell.kind (chr '\'') = .singleQuote := by decide

theorem singleQuote_of_kind {c : UInt8} (kind : shell.kind c = .singleQuote) : c = chr '\'' := by
  by_contra other
  change shellKind c = .singleQuote at kind
  unfold shellKind at kind
  rw [if_neg (mt eq_of_beq other)] at kind
  repeat'
    split at kind
    · cases kind
  cases kind

/-- Between single quotes, an escaped value is read as the value. -/
theorem foldl_escaped {s : Lexer UInt8} (mode : s.mode = .single)
    (quotes : s.current.quotes = true) (value : ByteString) :
    (value.flatMap fun c => if c == chr '\'' then str "'\\''" else [c]).foldl (step shell) s =
      s.pushAll (value.map .quoted) := by
  induction value generalizing s with
  | nil => simp [Lexer.pushAll]
  | cons c value ih =>
    have next : (if c == chr '\'' then str "'\\''" else [c]).foldl (step shell) s =
        s.pushAll [.quoted c] := by
      by_cases quote : c = chr '\''
      · rw [quote, if_pos (beq_self_eq_true _)]
        exact foldl_requote mode quotes (by decide) (by decide)
      · rw [if_neg (mt eq_of_beq quote)]
        exact foldl_single mode (List.forall_mem_singleton.mpr (mt singleQuote_of_kind quote))
    rw [List.flatMap_cons, List.foldl_append, next, ih (s := s.pushAll [.quoted c]) mode quotes]
    simp [Lexer.pushAll]

/-- **A quoted value is one word**, with the value in it. -/
theorem foldl_shellQuote {s : Lexer UInt8} (mode : s.mode = .between) (empty : s.current = {})
    (value : ByteString) :
    (shellQuote value).foldl (step shell) s =
      { s with mode := .word, current := ⟨value.map .quoted, true⟩ } := by
  have open_ : (str "'").foldl (step shell) s =
      { s with mode := .single, current := ⟨[], true⟩ } := by
    change step shell s (chr '\'') = _
    simp [step, inWord, mode, empty, singleQuote_kind]
  unfold shellQuote
  rw [List.foldl_append, List.foldl_append, open_, foldl_escaped rfl rfl]
  rfl

/-! ### What the lines do -/

section Lines

variable {caller} {path : ByteString} {word : Word UInt8}

theorem keyword_fields {name : String} (filled : str name ≠ [])
    (noPattern : isPattern shell ((str name).map .plain) = false) :
    Word.fields shell ⟨(str name).map .plain, false⟩ caller.args caller.pathnames = [str name] :=
  fields_plain filled noPattern false

theorem exec_fields :
    Word.fields shell ⟨(str "exec").map .plain, false⟩ caller.args caller.pathnames =
      [str "exec"] :=
  keyword_fields (by decide) (by decide)

/-- Behind `exec`, the first word is what is executed. -/
theorem lineCommand_exec (fields : word.fields shell caller.args caller.pathnames = [path])
    (more : List (Token UInt8)) :
    lineCommand caller (keyword "exec" :: .word word :: more) =
      match fieldsOf caller more with
      | some args => .exec path args
      | none => .other := by
  have notFi : keyword "exec" :: .word word :: more ≠ [keyword "fi"] := nofun
  have notIf : ¬ ((keyword "exec" :: .word word :: more).head? = some (keyword "if") ∧
      (keyword "exec" :: .word word :: more).drop 5 = [.operator (chr ';'), keyword "then"]) :=
    fun h => absurd (Option.some.inj h.1) (by decide)
  rw [lineCommand, if_neg (List.cons_ne_nil _ _), if_neg notFi, if_neg notIf, simpleCommand,
    keyword, fieldsOf, exec_fields, fieldsOf, fields]
  cases fieldsOf caller more with
  | none => rfl
  | some args =>
    dsimp only [Option.map_some]
    have notDot : ¬ (str "exec" = str "." ∧ args = []) := fun h => absurd h.1 (by decide)
    simp [notDot]

/-- `exec` with the caller's arguments. -/
theorem lineCommand_execArgs (fields : word.fields shell caller.args caller.pathnames = [path]) :
    lineCommand caller [keyword "exec", .word word, .word ⟨[.args], false⟩] =
      .exec path caller.args := by
  have args : fieldsOf caller [.word ⟨[.args], false⟩] = some caller.args := by
    rw [fieldsOf, fieldsOf, fields_args, Option.map_some, List.append_nil]
  rw [lineCommand_exec fields, args]

theorem lineCommand_source (fields : word.fields shell caller.args caller.pathnames = [path]) :
    lineCommand caller [keyword ".", .word word] = .source path := by
  have notFi : [keyword ".", .word word] ≠ [keyword "fi"] := nofun
  have notIf : ¬ ([keyword ".", .word word].head? = some (keyword "if") ∧
      [keyword ".", .word word].drop 5 = [.operator (chr ';'), keyword "then"]) :=
    fun h => absurd h.2 nofun
  have dot : Word.fields shell ⟨(str ".").map .plain, false⟩ caller.args caller.pathnames =
      [str "."] := keyword_fields (by decide) (by decide)
  rw [lineCommand, if_neg (List.cons_ne_nil _ _), if_neg notFi, if_neg notIf, simpleCommand,
    keyword, fieldsOf, dot, fieldsOf, fields]
  rfl

theorem lineCommand_if (fields : word.fields shell caller.args caller.pathnames = [path]) :
    lineCommand caller [keyword "if", keyword "[", keyword "-f", .word word, keyword "]",
      .operator (chr ';'), keyword "then"] = .ifFile path := by
  have open_ : Word.fields shell ⟨(str "[").map .plain, false⟩ caller.args caller.pathnames =
      [str "["] := keyword_fields (by decide) (by decide)
  have flag : Word.fields shell ⟨(str "-f").map .plain, false⟩ caller.args caller.pathnames =
      [str "-f"] := keyword_fields (by decide) (by decide)
  have close : Word.fields shell ⟨(str "]").map .plain, false⟩ caller.args caller.pathnames =
      [str "]"] := keyword_fields (by decide) (by decide)
  have test : fieldsOf caller [keyword "[", keyword "-f", .word word, keyword "]"] =
      some [str "[", str "-f", path, str "]"] := by
    rw [keyword, keyword, keyword, fieldsOf, open_, fieldsOf, flag, fieldsOf, fields, fieldsOf,
      close]
    rfl
  rw [lineCommand, if_neg (List.cons_ne_nil _ _), if_neg nofun, if_pos ⟨rfl, rfl⟩, ifCommand]
  simp only [List.tail_cons, List.take_succ_cons, List.take_zero, test, and_self, if_true]

variable {line : List (Token UInt8)} {lines : List (List (Token UInt8))} {ending : Ending UInt8}
  {branch : Branch}

theorem execute_blank : execute caller .outside ([] :: lines) ending =
    execute caller .outside lines ending := rfl

theorem execute_source (run : branch ≠ .skipped) (h : lineCommand caller line = .source path) :
    execute caller branch (line :: lines) ending =
      .source path :: execute caller branch lines ending := by
  cases branch with
  | outside | taken => simp only [execute, h]
  | skipped => exact absurd rfl run

theorem execute_exec (run : branch ≠ .skipped) {args : List ByteString}
    (h : lineCommand caller line = .exec path args) :
    execute caller branch (line :: lines) ending = [.exec path args] := by
  cases branch with
  | outside | taken => simp only [execute, h]
  | skipped => exact absurd rfl run

theorem execute_other (run : branch ≠ .skipped) (h : lineCommand caller line = .other) :
    execute caller branch (line :: lines) ending = [.other] := by
  cases branch with
  | outside | taken => simp only [execute, h]
  | skipped => exact absurd rfl run

theorem execute_if (h : lineCommand caller line = .ifFile path) :
    execute caller .outside (line :: lines) ending =
      .test path ::
        execute caller (if caller.isFile path then .taken else .skipped) lines ending := by
  simp only [execute, h]

theorem execute_skipped (h : lineCommand caller line ≠ .fi) :
    execute caller .skipped (line :: lines) ending = execute caller .skipped lines ending := by
  cases command : lineCommand caller line with
  | fi => exact absurd command h
  | blank | ifFile | source | exec | other => simp only [execute, command]

theorem execute_fi (inside : branch ≠ .outside) :
    execute caller branch ([keyword "fi"] :: lines) ending =
      execute caller .outside lines ending := by
  cases branch with
  | outside => exact absurd rfl inside
  | taken | skipped => rfl

/-- Another word behind `exec` is not the path. -/
theorem execute_exec_ne {field : ByteString} {args : List ByteString}
    (fields : word.fields shell caller.args caller.pathnames = [field]) (ne : field ≠ path)
    (more : List (Token UInt8)) :
    execute caller .outside ((keyword "exec" :: .word word :: more) :: lines) ending ≠
      [.exec path args] := by
  have command := lineCommand_exec fields more
  cases moreFields : fieldsOf caller more with
  | none =>
    rw [moreFields] at command
    rw [execute_other (by decide) command]
    nofun
  | some others =>
    rw [moreFields] at command
    rw [execute_exec (by decide) command]
    intro same
    injection same with same
    injection same with same
    exact ne same

end Lines

/-! ### What shims do -/

def quotedWord (value : ByteString) : Word UInt8 := ⟨value.map .quoted, true⟩

/-- The lines of a shim in front of the last one. -/
def shimLines (decision : ShimDecision) : List (List (Token UInt8)) :=
  [[], []] ++
  if decision.sourceTermuxEnv then
    [[keyword "if", keyword "[", keyword "-f", .word (quotedWord getTermuxEnvFile), keyword "]",
      .operator (chr ';'), keyword "then"],
     [keyword ".", .word (quotedWord getTermuxEnvFile)], [keyword "fi"]] else []

theorem parse_shimText (decision : ShimDecision) :
    parse shell (shimText decision) =
      (shimLines decision ++
        [[keyword "exec", .word (quotedWord decision.binaryPath), .word ⟨[.args], false⟩]],
       .complete) := by
  have start : (str "#!/system/bin/sh\n" ++ str "# apm-managed-shim\n" ++
      (if decision.sourceTermuxEnv then
        str "if [ -f " ++ shellQuote getTermuxEnvFile ++ str " ]; then\n" ++
        str "  . " ++ shellQuote getTermuxEnvFile ++ str "\n" ++ str "fi\n" else []) ++
      str "exec ").foldl (step shell) {} =
      { line := [keyword "exec"], lines := shimLines decision } := by
    unfold shimLines
    cases decision.sourceTermuxEnv with
    | false => decide +kernel
    | true => decide +kernel
  unfold parse shimText
  rw [List.foldl_append, List.foldl_append, start, foldl_shellQuote rfl rfl, ← execCall_text,
    foldl_call execCall rfl]
  rfl

/-- **A shim executes its binary**, whatever the path. -/
theorem runScript_shimText (caller : Caller) (decision : ShimDecision) :
    runScript caller (shimText decision) = shimActions caller decision := by
  have fields (value : ByteString) :
      (quotedWord value).fields shell caller.args caller.pathnames = [value] := fields_quoted value
  have exec : execute caller .outside [[keyword "exec", .word (quotedWord decision.binaryPath),
      .word ⟨[.args], false⟩]] .complete = [.exec decision.binaryPath caller.args] := by
    exact execute_exec (by decide) (lineCommand_execArgs (fields _))
  unfold runScript
  rw [parse_shimText]
  unfold shimLines shimActions
  cases decision.sourceTermuxEnv with
  | false => exact exec
  | true =>
    have source := lineCommand_source (fields getTermuxEnvFile)
    rw [if_pos rfl, if_pos rfl, List.append_assoc]
    change execute caller .outside (_ :: _ :: _ :: _ :: _ :: _) .complete = _
    rw [execute_blank, execute_blank, execute_if (lineCommand_if (fields _))]
    cases caller.isFile getTermuxEnvFile with
    | false =>
      rw [if_neg Bool.false_ne_true, if_neg Bool.false_ne_true, execute_skipped,
        execute_fi (by decide)]
      · exact congrArg (.test getTermuxEnvFile :: ·) exec
      · exact source ▸ nofun
    | true =>
      rw [if_pos rfl, if_pos rfl, execute_source (by decide) source, execute_fi (by decide)]
      exact congrArg (.test getTermuxEnvFile :: .source getTermuxEnvFile :: ·) exec

/-! ### What wrappers do -/

def wrappedDir : ByteString := getTermuxPrefix ++ str "/bin/"

theorem wrappedDir_filled : wrappedDir ≠ [] := by decide

/-- In front of the name. -/
def beforeName : Lexer UInt8 where
  mode := .word
  current := ⟨wrappedDir.map .plain, false⟩
  line := [keyword "exec"]
  lines := [[], [keyword ".", .word ⟨getTermuxEnvFile.map .plain, false⟩]]

theorem parse_wrapperText (commandName : ByteString) :
    parse shell (wrapperText commandName) =
      (execCall.text.foldl (step shell) (commandName.foldl (step shell) beforeName)).finish := by
  have start : (str "#!/system/bin/sh\n" ++ str ". " ++ getTermuxEnvFile ++ str "\n" ++
      str "exec " ++ getTermuxPrefix ++ str "/bin/").foldl (step shell) {} = beforeName := by
    decide +kernel
  unfold parse wrapperText
  rw [List.foldl_append, List.foldl_append, start, ← execCall_text]

theorem beforeName_literal : beforeName.current.literal = wrappedDir := by
  unfold beforeName Word.literal
  rw [List.filterMap_map]
  exact List.filterMap_some

theorem wrappedDir_calm : ∀ c ∈ wrappedDir, shell.glob c ≠ .any ∧ shell.glob c ≠ .opens := by
  decide

theorem execute_wrapper (lines : List (List (Token UInt8))) (ending : Ending UInt8) :
    execute caller .outside (beforeName.lines ++ lines) ending =
      .source getTermuxEnvFile :: execute caller .outside lines ending := by
  have source : lineCommand caller [keyword ".", .word ⟨getTermuxEnvFile.map .plain, false⟩] =
      .source getTermuxEnvFile :=
    lineCommand_source (fields_plain (by decide) (by decide) false)
  change execute caller .outside (_ :: _ :: lines) ending = _
  rw [execute_blank, execute_source (by decide) source]

section Wrapper

variable {caller} {commandName : ByteString}

theorem pushAll_name (commandName : ByteString) :
    (beforeName.pushAll (commandName.map .plain)).current =
      ⟨(wrappedPath commandName).map .plain, false⟩ := by
  simp [Lexer.pushAll, beforeName, wrappedPath, wrappedDir]

theorem isPattern_wrappedPath :
    isPattern shell ((wrappedPath commandName).map .plain) =
      isPattern shell (commandName.map .plain) := by
  rw [wrappedPath, List.map_append]
  exact isPattern_append wrappedDir_calm _

/-- **A wrapper executes its command**, if nothing in the name is special. -/
theorem runScript_wrapperText (plain : PlainCommand commandName) :
    runScript caller (wrapperText commandName) = wrapperActions caller commandName := by
  have fields : (beforeName.pushAll (commandName.map .plain)).current.fields shell caller.args
      caller.pathnames = [wrappedPath commandName] := by
    rw [pushAll_name]
    apply fields_plain
    · exact List.append_ne_nil_of_left_ne_nil wrappedDir_filled _
    · rw [isPattern_wrappedPath, plain.noPattern]
  have exec : execute caller .outside [[keyword "exec",
      .word (beforeName.pushAll (commandName.map .plain)).current, .word ⟨[.args], false⟩]]
      .complete = [.exec (wrappedPath commandName) caller.args] :=
    execute_exec (by decide) (lineCommand_execArgs fields)
  unfold runScript
  rw [parse_wrapperText, foldl_ordinary rfl plain.ordinary, foldl_call execCall rfl]
  change execute caller .outside (beforeName.lines ++ [_]) .complete = _
  rw [execute_wrapper]
  exact congrArg (.source getTermuxEnvFile :: ·) exec

/-- A caller without arguments, where a pattern stands for another command, and something else is
done from an expansion on. -/
def otherCaller (commandName : ByteString) : Caller where
  args := []
  pathnames := fun _ => [wrappedPath (commandName ++ str "2")]
  isFile := fun _ => true
  expansion := fun _ => [.other]

theorem other_ne : wrappedPath (commandName ++ str "2") ≠ wrappedPath commandName := by
  intro same
  have lengths := congrArg List.length (List.append_cancel_left same)
  simp [str] at lengths

/-- The wrapper does not get to `exec`. -/
theorem execute_nil_ne {ending : Ending UInt8} (incomplete : ending ≠ .complete)
    (path : ByteString) (args : List ByteString) :
    execute (otherCaller commandName) .outside [] ending ≠ [.exec path args] := by
  cases ending with
  | complete => exact absurd rfl incomplete
  | unclosed | expansion => nofun

/-- Its last line is incomplete, or executes another word. -/
theorem runScript_ne {lexer : Lexer UInt8}
    (read : execCall.text.foldl (step shell) (commandName.foldl (step shell) beforeName) = lexer)
    (h : (lexer.finish.1 = beforeName.lines ∧ lexer.finish.2 ≠ .complete) ∨
      ∃ word more others field, Word.fields shell word (otherCaller commandName).args
          (otherCaller commandName).pathnames = [field] ∧ field ≠ wrappedPath commandName ∧
        lexer.finish.1 = beforeName.lines ++ (beforeName.line ++ .word word :: more) :: others) :
    runScript (otherCaller commandName) (wrapperText commandName) ≠
      wrapperActions (otherCaller commandName) commandName := by
  unfold runScript wrapperActions
  rw [parse_wrapperText, read]
  dsimp only
  rcases h with ⟨lines, incomplete⟩ | ⟨word, more, others, field, fields, ne, lines⟩
  · rw [lines, ← List.append_nil beforeName.lines, execute_wrapper]
    intro same
    exact execute_nil_ne incomplete _ _ (List.tail_eq_of_cons_eq same)
  · rw [lines, execute_wrapper]
    intro same
    exact execute_exec_ne fields ne more (List.tail_eq_of_cons_eq same)

theorem runScript_ne_of_differs
    (h : Differs beforeName (wrappedPath commandName)
      (execCall.text.foldl (step shell) (commandName.foldl (step shell) beforeName))) :
    runScript (otherCaller commandName) (wrapperText commandName) ≠
      wrapperActions (otherCaller commandName) commandName := by
  apply runScript_ne rfl
  obtain incomplete | ⟨word, more, others, other, lines⟩ := h.finish
  · exact .inl incomplete
  · obtain ⟨field, fields, ne⟩ := other.fields other_ne
    exact .inr ⟨word, more, others, field, fields, ne, lines⟩

/-- **Otherwise it does something else** where all that is special does something else. -/
theorem plainCommand_of_runScript
    (h : runScript (otherCaller commandName) (wrapperText commandName) =
      wrapperActions (otherCaller commandName) commandName) : PlainCommand commandName := by
  have filled : beforeName.current.literal ≠ [] := beforeName_literal ▸ wrappedDir_filled
  have path : beforeName.current.literal ++ commandName = wrappedPath commandName :=
    congrArg (· ++ commandName) beforeName_literal
  have reads : Reading shell beforeName commandName (commandName.foldl (step shell) beforeName) ∨
      Differs beforeName (beforeName.current.literal ++ commandName)
        (commandName.foldl (step shell) beforeName) := reading_name rfl filled commandName
  obtain reading | differs := reads
  · obtain ⟨ordinary, read⟩ | short := reading.word
    · refine ⟨ordinary, ?_⟩
      by_contra pattern
      have fields : Word.fields shell (beforeName.pushAll (commandName.map .plain)).current
          (otherCaller commandName).args (otherCaller commandName).pathnames =
          [wrappedPath (commandName ++ str "2")] := by
        unfold Word.fields
        rw [pushAll_name, isPattern_wrappedPath, if_pos (eq_true_of_ne_false pattern)]
        rfl
      refine runScript_ne rfl (.inr ⟨_, [.word ⟨[.args], false⟩], [], _, fields, other_ne, ?_⟩) h
      rw [read, foldl_call execCall rfl]
      rfl
    · obtain differs | ⟨lines, single⟩ := differs_call execCall reading short
      · exact absurd h (runScript_ne_of_differs (path ▸ differs))
      · refine absurd h (runScript_ne rfl (.inl ?_))
        unfold Lexer.finish
        rw [single]
        exact ⟨lines, nofun⟩
  · exact absurd h (runScript_ne_of_differs ((path ▸ differs).foldl _))

end Wrapper

/-- **Shims quote what wrappers do not.** -/
theorem scripts_exec_iff (decision : ShimDecision) (commandName : ByteString) :
    (∀ caller, runScript caller (shimText decision) = shimActions caller decision) ∧
      ((∀ caller, runScript caller (wrapperText commandName) =
        wrapperActions caller commandName) ↔ PlainCommand commandName) := by
  refine ⟨fun caller => runScript_shimText caller decision, ?_, ?_⟩
  · exact fun h => plainCommand_of_runScript (h _)
  · exact fun plain caller => runScript_wrapperText plain

/-- A file `a b` of a Termux package: the wrapper executes `a`, with one more argument. -/
theorem spacedName_splits :
    runScript ⟨[str "c"], fun _ => [], fun _ => true, fun _ => []⟩ (wrapperText (str "a b")) =
        [.source getTermuxEnvFile, .exec (wrappedPath (str "a")) [str "b", str "c"]] ∧
      ¬ ∀ caller, runScript caller (wrapperText (str "a b")) =
        wrapperActions caller (str "a b") := by
  have splits : runScript ⟨[str "c"], fun _ => [], fun _ => true, fun _ => []⟩
      (wrapperText (str "a b")) =
      [.source getTermuxEnvFile, .exec (wrappedPath (str "a")) [str "b", str "c"]] := by
    decide +kernel
  refine ⟨splits, fun h => ?_⟩
  have same := splits.symm.trans (h _)
  revert same
  decide +kernel

end Apm.Shims
