import Apm.Daemon.Answers
import Apm.Ipc.Exchange

/-!
A command with a terminal, and the daemon at the other end of the socket: the prompts of
`src/apm/apm.cpp`, and the requests that a command sends.

The terminal is the lines that are typed. Before each request other clients may send theirs, the
daemon may be started again, and the clock may go on.

## Main results

* `chats_promptForNewSecret`, `chats_promptForSecurityQuestions`: which lines answer a prompt;
* `called`: what a request can lead to, `called_quiet` what it does when nobody else is at work.
-/

namespace Apm.Cli

open Apm.Daemon Apm.Ipc Apm.Lib Apm.Lib.Effect Apm.Lib.Text Apm.Security

/-! ### The terminal -/

structure Line where
  text : ByteString
  oneLine : chr '\n' ∉ text

/-- What others do before a request, and the connection that it goes over. -/
structure Turn where
  before : List Event := []
  connection : Connection

inductive Said where
  | cout (text : ByteString)
  | cerr (text : ByteString)

/-- A terminal and the daemon, with the turns of the requests by their numbers. -/
structure World where
  typed : List Line := []
  said : List Said := []
  daemon : Apmd := {}
  turns : Nat → Turn
  calls : Nat := 0

section Terminal

variable {ε : Type}

def say (text : ByteString) : Act World ε Unit :=
  update fun w => ((), { w with said := w.said ++ [.cout text] })

def complain (text : ByteString) : Act World ε Unit :=
  update fun w => ((), { w with said := w.said ++ [.cerr text] })

/-- `std::getline` on the terminal. -/
def getline : Act World ε (Option ByteString) :=
  update fun w =>
    match w.typed with
    | [] => (none, w)
    | line :: rest => (some line.text, { w with typed := rest })

end Terminal

/-- Say what is wrong, and give up. -/
def fail {α : Type} (text : String) : Act World Unit α := do
  complain (str text)
  throw ()

def promptForSecret (prompt : String) : Act World Unit ByteString := do
  say (str prompt)
  match ← getline with
  | none => throw ()
  | some secretOut => if secretOut.isEmpty then throw () else pure secretOut

def promptForNewSecret : Act World Unit ByteString := do
  let first ← promptForSecret "Set a new APM password/PIN: "
  let confirm ← promptForSecret "Confirm password/PIN: "
  if first != confirm then fail "Entries did not match. Please try again.\n" else pure first

/-- A line that may not be empty. -/
def askLine (prompt : ByteString) (complaint : String) : Act World Unit ByteString := do
  say prompt
  match ← getline with
  | none => fail complaint
  | some text => if text.isEmpty then fail complaint else pure text

/-- One turn of the loop of `promptForSecurityQuestions`. -/
def askQuestion (idx : Nat) (qaOut : List (ByteString × ByteString)) :
    Act World Unit (List (ByteString × ByteString)) := do
  let question ← askLine (str "  Question " ++ decimal (idx + 1) ++ str ": ")
    "Security question cannot be empty.\n"
  let answer ← askLine (str "  Answer " ++ decimal (idx + 1) ++ str ": ")
    "Security answers cannot be empty.\n"
  pure (qaOut ++ [(question, answer)])

def promptForSecurityQuestions : Act World Unit (List (ByteString × ByteString)) := do
  say (str "Set security questions (used for password/PIN recovery):\n")
  forEach askQuestion (List.range SECURITY_QUESTION_COUNT) []

/-! ### Requests -/

section Requests

variable (c : Crypto) (others : Request → Apmd → Response)

/-- What `handleClient` replies. The other handlers have nothing to do with the secret. -/
def replyTo (req : Request) (d : Apmd) : Response :=
  match respond c req d with
  | .replied resp => resp
  | .unauthorized authErr =>
      { id := req.id
        message := if authErr.isEmpty then str "Authentication required" else authErr
        rawFields := AList.singleton (str "auth") (str "required") }
  | .handled => others req d

def dispatchTo (req : Request) (d : Apmd) : Response × Apmd :=
  (replyTo c others req d, step c d (.request req))

/-- A request and its response, behind what others do. -/
def call (req : Request) (w : World) : Except ByteString Response × World :=
  let turn := w.turns w.calls
  let sent := sendRequestAuto (dispatchTo c others) turn.connection req
    (Run.run (step c) w.daemon turn.before)
  (sent.1, { w with daemon := sent.2, calls := w.calls + 1 })

/-- `sendRequestAuto` in a command. -/
def request (req : Request) : Act World ByteString Response := do
  match ← update (call c others req) with
  | .ok resp => pure resp
  | .error err => throw err

end Requests

/-! ### Numbered fields -/

/-- A name that a field can have. -/
structure PlainKey (key : ByteString) : Prop where
  filled : key ≠ []
  trimmed : trim key = key
  fits : KeyFits key

theorem plainKey_of_forall {key : ByteString} (filled : key ≠ [])
    (h : ∀ b ∈ key, ¬ isspace b ∧ b ≠ chr ':') : PlainKey key := by
  have blank (b : UInt8) (mem : b ∈ key) : ¬ isspace b := (h b mem).1
  refine ⟨filled, Bare.strip ⟨fun b first => blank b (List.mem_of_mem_head? first),
    fun b last => blank b (List.mem_of_getLast? last)⟩, ?_, ?_, ?_⟩
  · exact fun mem => (h _ mem).2 rfl
  · exact fun mem => (h _ mem).1 (by decide)
  · exact fun mem => (h _ mem).1 (by decide)

theorem plainKey_numbered {key : String} (h : ∀ b ∈ str key, ¬ isspace b ∧ b ≠ chr ':') (idx : Nat) :
    PlainKey (numbered key idx) := by
  refine plainKey_of_forall (fun empty => ?_) fun b mem => ?_
  · exact decimal_ne_nil _ (List.append_eq_nil_iff.mp empty).2
  · rcases List.mem_append.mp mem with front | digit
    · exact h b front
    · have digit := isdigit_of_mem_decimal digit
      refine ⟨not_isspace_of_isdigit digit, ?_⟩
      rintro rfl
      revert digit
      decide

theorem numbered_injective (key : String) : Function.Injective (numbered key) := by
  intro i j same
  exact Nat.succ.inj (decimal_injective (List.append_cancel_left same))

theorem question_ne_answer (i j : Nat) : numbered "security_q" i ≠ numbered "security_a" j := by
  intro same
  have tenth := congrArg (·[9]?) same
  simp [numbered, str] at tenth

/-! ### What becomes of a request -/

section Calls

variable {c : Crypto} {others : Request → Apmd → Response} {req : Request} {w : World}

/-- The daemon when the next request arrives. -/
def World.reached (c : Crypto) (w : World) : Apmd :=
  Run.run (step c) w.daemon (w.turns w.calls).before

/-- Nobody else is at work, and connections do not fail. -/
def World.Quiet (w : World) : Prop := ∀ n, (w.turns n).before = [] ∧ (w.turns n).connection.Whole

theorem World.Quiet.reached (quiet : w.Quiet) : w.reached c = w.daemon := by
  rw [World.reached, (quiet w.calls).1]
  rfl

/-- What a request can lead to. -/
inductive Called (c : Crypto) (req : Request) (w : World) : Except ByteString Response → Apmd → Prop where
  | unhandled {r : Except ByteString Response} (fails : ∀ out, r = .ok out → out.success = false ∧
      ∃ parseErr, out.message = readBack (str "Bad request: " ++ parseErr)) :
      Called c req w r (w.reached c)
  | lost {req' : Request} (reaches : Reaches req req') (errorMsg : ByteString) :
      Called c req w (.error errorMsg) (step c (w.reached c) (.request req'))
  | answered {req' : Request} {resp out : Response} (reaches : Reaches req req')
      (replied : respond c req' (w.reached c) = .replied resp) (as : ReadAs resp out) :
      Called c req w (.ok (withTransport out)) (step c (w.reached c) (.request req'))

/-- The request is one that the daemon replies to itself. -/
def Replies (c : Crypto) (req : Request) (d : Apmd) : Prop :=
  ∀ req', Reaches req req' → ∃ resp, respond c req' d = .replied resp ∧ resp.Plain

theorem replyTo_replied {req : Request} {d : Apmd} {resp : Response}
    (replied : respond c req d = .replied resp) : replyTo c others req d = resp := by
  unfold replyTo
  rw [replied]

variable (c others) in
/-- **What a request of the command line can lead to**, whatever others do before it and wherever
its connection fails. -/
theorem called (h : WellFormed req) (replies : Replies c req (w.reached c)) :
    Called c req w (call c others req w).1 (call c others req w).2.daemon := by
  have plain : ∀ req', Reaches req req' →
      (dispatchTo c others req' (w.reached c)).1.Plain := by
    intro req' reaches
    obtain ⟨resp, replied, plain⟩ := replies req' reaches
    have here : (dispatchTo c others req' (w.reached c)).1 = resp := replyTo_replied replied
    rw [here]
    exact plain
  have went := exchanged (k := (w.turns w.calls).connection) h plain
  unfold call sendRequestAuto
  dsimp only
  change Called c req w ((sendRequest (dispatchTo c others) _ req (w.reached c)).1.map withTransport)
    (sendRequest (dispatchTo c others) _ req (w.reached c)).2
  generalize (sendRequest (dispatchTo c others) (w.turns w.calls).connection req
    (w.reached c)).1 = r at went ⊢
  generalize (sendRequest (dispatchTo c others) (w.turns w.calls).connection req
    (w.reached c)).2 = d at went ⊢
  cases went with
  | unhandled errorMsg =>
    refine .unhandled fun out there => ?_
    cases there
  | refused fails why =>
    refine .unhandled fun out there => ?_
    cases there
    exact ⟨fails, why⟩
  | lost reaches errorMsg => exact .lost reaches errorMsg
  | answered reaches read =>
    rename_i req' out
    obtain ⟨resp, replied, plain⟩ := replies req' reaches
    change parseResponse (serializeResponse (replyTo c others req' (w.reached c))) = _ at read
    rw [replyTo_replied replied] at read
    obtain ⟨out', read', as⟩ := readResponse_serialized plain
    obtain rfl : out' = out := Except.ok.inj (read'.symm.trans read)
    exact .answered reaches replied as

variable (c others) in
/-- In a quiet world a request that reaches the daemon is answered. -/
theorem called_quiet (h : WellFormed req) (quiet : w.Quiet) (replies : Replies c req w.daemon)
    {req' : Request} (reaches : Reaches req req') : ∃ resp out,
      respond c req' w.daemon = .replied resp ∧ ReadAs resp out ∧ call c others req w =
        (.ok (withTransport out),
          { w with daemon := step c w.daemon (.request req'), calls := w.calls + 1 }) := by
  obtain ⟨resp, replied, plain⟩ := replies req' reaches
  have here : (dispatchTo c others req' w.daemon).1 = resp := replyTo_replied replied
  obtain ⟨out, read, as⟩ := readResponse_serialized plain
  have sent : sendRequest (dispatchTo c others) _ req w.daemon = _ :=
    sendRequest_whole h (quiet w.calls).2 reaches (here.symm ▸ plain)
  rw [here, read] at sent
  refine ⟨resp, out, replied, as, ?_⟩
  unfold call sendRequestAuto
  dsimp only
  rw [(quiet w.calls).1]
  change ((sendRequest (dispatchTo c others) _ req w.daemon).1.map withTransport, _) = _
  rw [show Run.run (step c) w.daemon [] = w.daemon from rfl, sent]
  rfl

variable (c others) in
/-- A request that does not reach the daemon changes nothing, and fails. -/
theorem called_unreached (h : WellFormed req) (none : ∀ req', ¬ Reaches req req') :
    (call c others req w).2.daemon = w.reached c ∧ ∀ out, (call c others req w).1 = .ok out →
      out.success = false ∧ ∃ parseErr, out.message = readBack (str "Bad request: " ++ parseErr) := by
  have went := called c others (w := w) h
    fun req' reaches => absurd reaches (none req')
  generalize (call c others req w).1 = r at went ⊢
  generalize (call c others req w).2.daemon = d at went ⊢
  cases went with
  | unhandled fails => exact ⟨rfl, fails⟩
  | lost reaches => exact absurd reaches (none _)
  | answered reaches => exact absurd reaches (none _)

end Calls

/-! ### What is typed -/

/-- Lines are read and texts shown, and nothing else happens. -/
structure Chats (read : List ByteString) (w w' : World) : Prop where
  typed : ∃ lines, w.typed = lines ++ w'.typed ∧ lines.map Line.text = read
  daemon : w'.daemon = w.daemon
  turns : w'.turns = w.turns
  calls : w'.calls = w.calls

theorem Chats.refl (w : World) : Chats [] w w := ⟨⟨[], rfl, rfl⟩, rfl, rfl, rfl⟩

theorem Chats.trans {read read' : List ByteString} {w w' w'' : World} (h : Chats read w w')
    (h' : Chats read' w' w'') : Chats (read ++ read') w w'' := by
  obtain ⟨lines, typed, same⟩ := h.typed
  obtain ⟨lines', typed', same'⟩ := h'.typed
  refine ⟨⟨lines ++ lines', ?_, ?_⟩, h'.daemon.trans h.daemon, h'.turns.trans h.turns,
    h'.calls.trans h.calls⟩
  · rw [typed, typed', List.append_assoc]
  · rw [List.map_append, same, same']

theorem Chats.quiet {read : List ByteString} {w w' : World} (h : Chats read w w') (quiet : w.Quiet) :
    w'.Quiet := fun n => h.turns.symm ▸ quiet n

/-- The lines that are typed first. -/
def World.Types (w : World) (read : List ByteString) : Prop :=
  read <+: w.typed.map Line.text

theorem Chats.types {read : List ByteString} {w w' : World} (h : Chats read w w') : w.Types read := by
  obtain ⟨lines, typed, same⟩ := h.typed
  rw [World.Types, typed, List.map_append, same]
  exact List.prefix_append _ _

/-- What is typed behind what was read. -/
theorem Chats.types_append {read more : List ByteString} {w w' : World} (h : Chats read w w') :
    w.Types (read ++ more) ↔ w'.Types more := by
  obtain ⟨lines, typed, same⟩ := h.typed
  rw [World.Types, World.Types, typed, List.map_append, same, List.prefix_append_right_inj]

/-- Without a line read, what is typed is the same. -/
theorem Chats.types_same {lines : List ByteString} {w w' : World} (h : Chats [] w w') :
    w.Types lines ↔ w'.Types lines := h.types_append

/-- The next line is the one that was read. -/
theorem Chats.types_cons {text first : ByteString} {more : List ByteString} {w w' : World}
    (h : Chats [text] w w') : w.Types (first :: more) ↔ first = text ∧ w'.Types more := by
  obtain ⟨lines, typed, same⟩ := h.typed
  rw [World.Types, World.Types, typed, List.map_append, same, List.singleton_append,
    List.cons_prefix_cons]

section Prompts

variable {ε : Type} {w : World}

theorem chats_say (text : ByteString) (w : World) :
    wp (say text : Act World ε Unit) (fun _ w' => Chats [] w w') (fun _ _ => False) w :=
  ⟨⟨[], rfl, rfl⟩, rfl, rfl, rfl⟩

theorem chats_complain (text : ByteString) (w : World) :
    wp (complain text : Act World ε Unit) (fun _ w' => Chats [] w w') (fun _ _ => False) w :=
  ⟨⟨[], rfl, rfl⟩, rfl, rfl, rfl⟩

theorem wp_getline (w : World) :
    wp (getline : Act World ε (Option ByteString))
      (fun line w' => (∃ text, line = some text ∧ Chats [text] w w') ∨
        line = none ∧ w' = w ∧ ∀ text, ¬ w.Types [text]) (fun _ _ => False) w := by
  unfold getline
  refine wp_update.mpr ?_
  cases typed : w.typed with
  | nil =>
    refine .inr ⟨rfl, rfl, fun text types => ?_⟩
    rw [World.Types, typed] at types
    cases List.prefix_nil.mp types
  | cons line rest => exact .inl ⟨line.text, rfl, ⟨[line], typed, rfl⟩, rfl, rfl, rfl⟩

/-- A text that may not be empty is read, or no such text is typed. -/
theorem chats_getline {prompt : ByteString} {α : Type} {onNone onEmpty : Act World Unit α}
    {onText : ByteString → Act World Unit α} {Q : α → World → Prop} {E : Unit → World → Prop}
    {w : World} (read : ∀ text w', text ≠ [] → Chats [text] w w' → wp (onText text) Q E w')
    (nothing : ∀ w', w'.daemon = w.daemon → (∀ text ≠ [], ¬ w.Types [text]) → wp onNone Q E w')
    (empty : ∀ w', w'.daemon = w.daemon → (∀ text ≠ [], ¬ w.Types [text]) → wp onEmpty Q E w') :
    wp (do
      say prompt
      match ← getline with
      | none => onNone
      | some text => if text.isEmpty then onEmpty else onText text) Q E w := by
  refine wp_bind.mpr (wp_mono (chats_say _ w) (fun _ w₁ said => ?_) fun _ _ fails => fails.elim)
  refine wp_bind.mpr (wp_mono (wp_getline w₁) ?_ fun _ _ fails => fails.elim)
  rintro line w₂ (⟨text, rfl, chats⟩ | ⟨rfl, rfl, absent⟩)
  · have all : Chats [text] w w₂ := said.trans chats
    refine wp_ite.mpr ⟨fun blank => empty w₂ all.daemon fun other filled types => ?_,
      fun filled => read text w₂ (fun blank => filled (List.isEmpty_iff.mpr blank)) all⟩
    have same := (all.types_cons.mp types).1
    exact filled (same.trans (List.isEmpty_iff.mp blank))
  · refine nothing w₂ said.daemon fun other _ types => ?_
    exact absent other (said.types_same.mp types)

theorem chats_promptForSecret (prompt : String) (w : World) :
    wp (promptForSecret prompt) (fun secret w' => secret ≠ [] ∧ Chats [secret] w w')
      (fun _ w' => w'.daemon = w.daemon ∧ ∀ secret ≠ [], ¬ w.Types [secret]) w :=
  chats_getline (fun _ _ filled chats => ⟨filled, chats⟩) (fun _ same none => ⟨same, none⟩)
    fun _ same none => ⟨same, none⟩

theorem fails_fail {α : Type} {Q : α → World → Prop} {P : Prop} {d : Apmd} (text : String)
    {w : World} (same : w.daemon = d) (h : P) :
    wp (fail text) Q (fun _ w' => w'.daemon = d ∧ P) w :=
  wp_bind.mpr (wp_mono (chats_complain _ w) (fun _ _ said => ⟨said.daemon.trans same, h⟩)
    fun _ _ fails => fails.elim)

theorem chats_askLine (prompt : ByteString) (complaint : String) (w : World) :
    wp (askLine prompt complaint) (fun text w' => text ≠ [] ∧ Chats [text] w w')
      (fun _ w' => w'.daemon = w.daemon ∧ ∀ text ≠ [], ¬ w.Types [text]) w :=
  chats_getline (fun _ _ filled chats => ⟨filled, chats⟩)
    (fun _ same none => fails_fail _ same none) fun _ same none => fails_fail _ same none

theorem chats_promptForNewSecret (w : World) :
    wp promptForNewSecret (fun secret w' => secret ≠ [] ∧ Chats [secret, secret] w w')
      (fun _ w' => w'.daemon = w.daemon ∧ ∀ secret ≠ [], ¬ w.Types [secret, secret]) w := by
  refine wp_bind.mpr (wp_mono (chats_promptForSecret _ w) ?_ ?_)
  · rintro first w₁ ⟨filled, chats⟩
    refine wp_bind.mpr (wp_mono (chats_promptForSecret _ w₁) ?_ ?_)
    · rintro confirm w₂ ⟨-, chats'⟩
      have daemon := (chats.trans chats').daemon
      refine wp_ite.mpr ⟨fun differs => fails_fail _ daemon fun secret _ types => ?_, fun same => ?_⟩
      · obtain ⟨rfl, types⟩ := chats.types_cons.mp types
        exact bne_iff_ne.mp differs (chats'.types_cons.mp types).1
      · rw [bne_iff_ne, not_not] at same
        subst same
        exact ⟨filled, chats.trans chats'⟩
    · rintro _ _ ⟨same, nothing⟩
      refine ⟨same.trans chats.daemon, fun secret filled types => ?_⟩
      exact nothing secret filled (chats.types_cons.mp types).2
  · rintro _ _ ⟨same, nothing⟩
    exact ⟨same, fun secret filled ⟨rest, types⟩ => nothing secret filled ⟨secret :: rest, types⟩⟩

/-- The lines of questions and their answers. -/
def qaLines (qas : List (ByteString × ByteString)) : List ByteString :=
  qas.flatMap fun qa => [qa.1, qa.2]

/-- Nothing is left out. -/
def Complete (qas : List (ByteString × ByteString)) : Prop := ∀ qa ∈ qas, qa.1 ≠ [] ∧ qa.2 ≠ []

theorem chats_askQuestions (indices : List Nat) (qaOut : List (ByteString × ByteString))
    (w : World) :
    wp (forEach askQuestion indices qaOut)
      (fun out w' => ∃ qas, out = qaOut ++ qas ∧ qas.length = indices.length ∧ Complete qas ∧
        Chats (qaLines qas) w w')
      (fun _ w' => w'.daemon = w.daemon ∧
        ∀ qas, qas.length = indices.length → Complete qas → ¬ w.Types (qaLines qas)) w := by
  induction indices generalizing qaOut w with
  | nil => exact ⟨[], (List.append_nil _).symm, rfl, List.forall_mem_nil _, Chats.refl w⟩
  | cons idx indices ih =>
    -- a list of questions has a first one
    have cons (h : ∀ qa qas, qas.length = indices.length → Complete (qa :: qas) →
        ¬ w.Types (qa.1 :: qa.2 :: qaLines qas)) : ∀ qas, qas.length = (idx :: indices).length →
        Complete qas → ¬ w.Types (qaLines qas) := by
      intro qas length complete
      obtain ⟨qa, rest, rfl⟩ := List.exists_cons_of_ne_nil (List.ne_nil_of_length_eq_add_one length)
      exact h qa rest (Nat.succ.inj length) complete
    refine wp_bind.mpr (wp_bind.mpr (wp_mono (chats_askLine _ _ w) ?_ ?_))
    · rintro question w₁ ⟨asked, chats⟩
      refine wp_bind.mpr (wp_mono (chats_askLine _ _ w₁) ?_ ?_)
      · rintro answer w₂ ⟨answered, chats'⟩
        refine wp_pure.mpr (wp_mono (ih _ w₂) ?_ ?_)
        · rintro out w₃ ⟨qas, rfl, length, complete, chats''⟩
          refine ⟨(question, answer) :: qas, List.append_assoc _ _ _, congrArg Nat.succ length,
            List.forall_mem_cons.mpr ⟨⟨asked, answered⟩, complete⟩, ?_⟩
          exact chats.trans (chats'.trans chats'')
        · rintro _ _ ⟨same, nothing⟩
          refine ⟨same.trans (chats'.daemon.trans chats.daemon),
            cons fun qa qas length complete types => ?_⟩
          have behind := (chats'.types_cons.mp (chats.types_cons.mp types).2).2
          exact nothing qas length (List.forall_mem_cons.mp complete).2 behind
      · rintro _ _ ⟨same, nothing⟩
        refine ⟨same.trans chats.daemon, cons fun qa qas length complete types => ?_⟩
        obtain ⟨-, rest, line⟩ := chats.types_cons.mp types
        exact nothing qa.2 (List.forall_mem_cons.mp complete).1.2 ⟨qaLines qas ++ rest, line⟩
    · rintro _ _ ⟨same, nothing⟩
      refine ⟨same, cons fun qa qas length complete types => ?_⟩
      obtain ⟨rest, line⟩ := types
      exact nothing qa.1 (List.forall_mem_cons.mp complete).1.1 ⟨_, line⟩

theorem chats_promptForSecurityQuestions (w : World) :
    wp promptForSecurityQuestions
      (fun qas w' => qas.length = SECURITY_QUESTION_COUNT ∧ Complete qas ∧ Chats (qaLines qas) w w')
      (fun _ w' => w'.daemon = w.daemon ∧ ∀ qas, qas.length = SECURITY_QUESTION_COUNT →
        Complete qas → ¬ w.Types (qaLines qas)) w := by
  refine wp_bind.mpr (wp_mono (chats_say _ w) (fun _ w₁ said => ?_) fun _ _ fails => fails.elim)
  refine wp_mono (chats_askQuestions _ [] w₁) ?_ ?_
  · rintro out w₂ ⟨qas, rfl, length, complete, chats⟩
    exact ⟨length.trans List.length_range, complete, said.trans chats⟩
  · rintro _ _ ⟨same, nothing⟩
    refine ⟨same.trans said.daemon, fun qas length complete types => ?_⟩
    exact nothing qas (length.trans List.length_range.symm) complete
      (said.types_same.mp types)

end Prompts

/-! ### Requests that are sent -/

section Sent

variable {c : Crypto} {others : Request → Apmd → Response} {req : Request} {w : World}

/-- A request is sent, and something may be said of it. -/
structure Sent (c : Crypto) (others : Request → Apmd → Response) (req : Request) (w w' : World) :
    Prop where
  typed : w'.typed = w.typed
  turns : w'.turns = w.turns
  calls : w'.calls = w.calls + 1
  daemon : w'.daemon = (call c others req w).2.daemon

theorem Sent.types {read : List ByteString} {w' : World} (h : Sent c others req w w') :
    w'.Types read ↔ w.Types read := by
  rw [World.Types, World.Types, h.typed]

theorem Sent.quiet {w' : World} (h : Sent c others req w w') (quiet : w.Quiet) : w'.Quiet :=
  fun n => h.turns.symm ▸ quiet n

theorem sent_request (w : World) :
    wp (request c others req)
      (fun resp w' => (call c others req w).1 = .ok resp ∧ Sent c others req w w')
      (fun err w' => (call c others req w).1 = .error err ∧ Sent c others req w w') w := by
  unfold request
  refine wp_bind.mpr (wp_update.mpr ?_)
  cases sent : (call c others req w).1 with
  | ok resp => exact ⟨rfl, rfl, rfl, rfl, rfl⟩
  | error err => exact ⟨rfl, rfl, rfl, rfl, rfl⟩

theorem Sent.chats {w' w'' : World} (h : Sent c others req w w') (said : Chats [] w' w'') :
    Sent c others req w w'' := by
  obtain ⟨lines, typed, none⟩ := said.typed
  obtain rfl := List.map_eq_nil_iff.mp none
  exact ⟨typed.symm.trans h.typed, said.turns.trans h.turns, said.calls.trans h.calls,
    said.daemon.trans h.daemon⟩

end Sent

/-! ### A terminal to run examples with -/

theorem arrived_oneRead (text : ByteString) :
    arrived (if text.isEmpty then [] else [.data text]) = text ∧
      closes (if text.isEmpty then [] else [.data text]) = false := by
  cases text with
  | nil => exact ⟨rfl, rfl⟩
  | cons b text => exact ⟨List.append_nil _, rfl⟩

theorem begins_oneRead (text : ByteString) :
    arrived (if text.isEmpty then [] else [.data text]) <+: text := by
  rw [(arrived_oneRead text).1]

theorem waits_oneRead (text : ByteString) :
    closes (if text.isEmpty then [] else [.data text]) = false := (arrived_oneRead text).2

/-- Everything arrives in one read. -/
def oneRead : Cut where
  reads text := if text.isEmpty then [] else [.data text]
  begins := begins_oneRead

def directConnection : Connection where
  request := oneRead
  waits := waits_oneRead
  response := oneRead

theorem newline_notMem_filter (text : ByteString) :
    chr '\n' ∉ text.filter (· != chr '\n') := by
  rw [List.mem_filter, not_and]
  exact fun _ => by decide

def typeLine (text : String) : Line where
  text := (str text).filter (· != chr '\n')
  oneLine := newline_notMem_filter _

/-- A terminal with nobody else at work. -/
def quietWorld (daemon : Apmd) (typed : List String) : World where
  typed := typed.map typeLine
  daemon := daemon
  turns _ := { connection := directConnection }

theorem quietWorld_quiet (daemon : Apmd) (typed : List String) : (quietWorld daemon typed).Quiet :=
  fun _ => ⟨rfl, rfl, fun text => (arrived_oneRead text).1, fun text => (arrived_oneRead text).1⟩

theorem quietWorld_types (daemon : Apmd) {typed : List String} {lines : List ByteString}
    (same : lines = typed.map fun text => (typeLine text).text) :
    (quietWorld daemon typed).Types lines := by
  subst same
  unfold World.Types quietWorld
  dsimp only
  rw [List.map_map]
  exact List.prefix_rfl

end Apm.Cli
