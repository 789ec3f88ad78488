import Apm.Cli.Terminal

/-!
How the command line gets a session: the authentication helpers of `src/apm/apm.cpp`, with the
daemon at the other end of the socket.

## Main results

* `setUp_iff`: on a device without a secret, which lines set one;
* `session_opened`: a session takes the secret, whatever others do and wherever connections fail;
* `held_secret_unlocks`: a secret that is held opens sessions, whatever was requested since.
-/

namespace Apm.Cli

open Apm.Daemon Apm.Ipc Apm.Lib Apm.Lib.Effect Apm.Lib.Text Apm.Security

/-! ### Requests -/

/-- The session that the file holds, unless it has expired, and whether it holds one. -/
def activeToken (d : Apmd) : Option ByteString × Bool :=
  match (exec loadSession d).1 with
  | .error _ => (none, false)
  | .ok state => (if isSessionExpired state d.now then none else some state.token, true)

def loadActiveSessionToken {ε : Type} : Act World ε (Option ByteString × Bool) :=
  update fun w => (activeToken w.daemon, w)

section Requests

variable (c : Crypto) (others : Request → Apmd → Response)

/-- The fields of some questions and their answers. -/
def qaFields (securityQa : List (ByteString × ByteString)) : Repo.Fields :=
  securityQa.zipIdx.foldl (fun fields qa =>
    (fields.insert (numbered "security_q" qa.2) qa.1.1).insert (numbered "security_a" qa.2) qa.1.2) ∅

def authenticateRequest (action secret : ByteString) (securityQa : List (ByteString × ByteString)) :
    Request where
  type := .Authenticate
  id := str "authenticate-1"
  authAction := action
  authSecret := secret
  rawFields := qaFields securityQa

/-- The failure of `requestSessionUnlock`, with its message. -/
def refuse {α : Type} (printFailure : Bool) (message : ByteString) : Act World ByteString α := do
  if printFailure then
    complain (message ++ str "\n")
    throw message
  else throw message

def requestSessionUnlock (action secret : ByteString) (securityQa : List (ByteString × ByteString))
    (printFailure : Bool) : Act World ByteString ByteString := do
  match ← attempt (request c others (authenticateRequest action secret securityQa)) with
  | .error err => refuse printFailure (str "Error: " ++ err)
  | .ok resp =>
      if !resp.success then
        refuse printFailure (if resp.message.isEmpty then str "Authentication failed"
          else resp.message)
      else
        if !resp.message.isEmpty then say (resp.message ++ str "\n")
        match resp.rawFields.lookup (str "session_token") with
        | some token => pure token
        | none =>
            match (← loadActiveSessionToken).1 with
            | some token => pure token
            | none =>
                complain (str "Authentication succeeded but no active session token was found.\n")
                throw []

/-- The rest of `ensureAuthenticatedSession`, where no secret is configured. -/
def setUpSecret : Act World Unit ByteString := do
  match ← attempt promptForNewSecret with
  | .error () => fail "Password/PIN setup aborted.\n"
  | .ok newSecret =>
      match ← attempt promptForSecurityQuestions with
      | .error () => fail "Security question setup aborted.\n"
      | .ok securityQa =>
          match ← attempt (requestSessionUnlock c others (str "set") newSecret securityQa true) with
          | .error _ => throw ()
          | .ok token => pure token

/-- The rest of `ensureAuthenticatedSession`, where no session is active. -/
def authenticateByPrompt : Act World Unit ByteString := do
  match ← attempt (promptForSecret "Enter APM password/PIN: ") with
  | .error () => fail "Failed to read password/PIN input.\n"
  | .ok secret =>
      match ← attempt (requestSessionUnlock c others (str "unlock") secret [] false) with
      | .ok token => pure token
      | .error authErr =>
          if authErr != str "Password/PIN not configured" then
            if !authErr.isEmpty then complain (authErr ++ str "\n")
            throw ()
          else setUpSecret c others

def ensureAuthenticatedSession : Act World Unit ByteString := do
  match ← loadActiveSessionToken with
  | (some token, _) => pure token
  | (none, hadSession) =>
      if hadSession then say (str "APM security session expired. Please re-authenticate.\n")
      authenticateByPrompt c others

end Requests

/-- What the fields of some questions say. -/
theorem lookup_qaFields (qas : List (ByteString × ByteString)) (i : Nat) :
    (qaFields qas).lookup (numbered "security_q" i) = qas[i]?.map Prod.fst ∧
      (qaFields qas).lookup (numbered "security_a" i) = qas[i]?.map Prod.snd := by
  induction qas using List.reverseRecOn with
  | nil => exact ⟨rfl, rfl⟩
  | append_singleton qas qa ih =>
    have last : qaFields (qas ++ [qa]) =
        ((qaFields qas).insert (numbered "security_q" qas.length) qa.1).insert
          (numbered "security_a" qas.length) qa.2 := by
      simp [qaFields, List.zipIdx_append]
    rw [last, AList.lookup_insert_ne (question_ne_answer _ _)]
    by_cases here : i = qas.length
    · subst here
      rw [AList.lookup_insert, AList.lookup_insert]
      simp
    · have other (key : String) : numbered key i ≠ numbered key qas.length :=
        fun same => here (numbered_injective key same)
      rw [AList.lookup_insert_ne (other _), AList.lookup_insert_ne (other _),
        AList.lookup_insert_ne (question_ne_answer _ _).symm, ih.1, ih.2]
      rcases Nat.lt_or_gt_of_ne here with inside | outside
      · rw [List.getElem?_append_left inside]
        exact ⟨rfl, rfl⟩
      · have beyond : (qas ++ [qa]).length ≤ i := by
          rw [List.length_append, List.length_singleton]
          omega
        rw [List.getElem?_eq_none beyond, List.getElem?_eq_none (Nat.le_of_lt outside)]
        exact ⟨rfl, rfl⟩

theorem qaFields_keys {qas : List (ByteString × ByteString)} {key : ByteString}
    (mem : key ∈ qaFields qas) : ∃ i, key = numbered "security_q" i ∨ key = numbered "security_a" i := by
  induction qas using List.reverseRecOn with
  | nil => exact absurd mem (AList.notMem_empty key)
  | append_singleton qas qa ih =>
    have last : qaFields (qas ++ [qa]) =
        ((qaFields qas).insert (numbered "security_q" qas.length) qa.1).insert
          (numbered "security_a" qas.length) qa.2 := by
      simp [qaFields, List.zipIdx_append]
    rw [last, AList.mem_insert, AList.mem_insert] at mem
    rcases mem with answer | question | before
    · exact ⟨_, .inr answer⟩
    · exact ⟨_, .inl question⟩
    · exact ih before

/-! ### What the daemon reads -/

theorem plainKey_question : ∀ b ∈ str "security_q", ¬ isspace b ∧ b ≠ chr ':' := by decide

theorem plainKey_answer : ∀ b ∈ str "security_a", ¬ isspace b ∧ b ≠ chr ':' := by decide

theorem authenticateRequest_wellFormed {action secret : ByteString} (named : action ≠ [])
    (filled : secret ≠ []) (qas : List (ByteString × ByteString)) :
    WellFormed (authenticateRequest action secret qas) := by
  refine ⟨fun unknown => (by cases unknown), fun _ text mem => ?_, fun kv mem => ?_⟩
  · simp only [typedTexts, authenticateRequest, List.mem_cons, List.not_mem_nil, or_false] at mem
    rcases mem with rfl | rfl
    · exact named
    · exact filled
  · have key : kv.1 ∈ qaFields qas := List.mem_map_of_mem (List.mem_filter.mp mem).1
    have plain : PlainKey kv.1 := by
      obtain ⟨i, same | same⟩ := qaFields_keys key
      · exact same ▸ plainKey_numbered plainKey_question i
      · exact same ▸ plainKey_numbered plainKey_answer i
    exact ⟨plain.filled, plain.trimmed, plain.fits⟩

theorem numbered_notReserved : ∀ idx < SECURITY_QUESTION_COUNT,
    numbered "security_q" idx ∉ reservedKeys ∧ numbered "security_a" idx ∉ reservedKeys := by
  decide

/-- A question and its answer as the daemon reads them. -/
def readPair (qa : ByteString × ByteString) : ByteString × ByteString :=
  (readBack qa.1, readBack qa.2)

/-- Questions and answers that are not blank. -/
def Filled (qas : List (ByteString × ByteString)) : Prop :=
  ∀ qa ∈ qas, readBack qa.1 ≠ [] ∧ readBack qa.2 ≠ []

theorem filledField_eq {fields : Repo.Fields} {key value : ByteString}
    (there : fields.lookup key = some value) :
    filledField fields key = if value = [] then none else some value := by
  rw [filledField, there]
  cases value <;> rfl

/-- The questions that the daemon collects of the fields that it reads. -/
theorem collectQuestions_read {fields : Repo.Fields} {qas : List (ByteString × ByteString)}
    (three : qas.length = SECURITY_QUESTION_COUNT)
    (read : ∀ key ∉ reservedKeys, fields.lookup key = ((qaFields qas).lookup key).map readBack) :
    (Filled qas → collectQuestions fields = some (qas.map readPair)) ∧
      (¬ Filled qas → collectQuestions fields = none) := by
  have found : ∀ idx < SECURITY_QUESTION_COUNT,
      fields.lookup (numbered "security_q" idx) = (qas[idx]?.map Prod.fst).map readBack ∧
        fields.lookup (numbered "security_a" idx) = (qas[idx]?.map Prod.snd).map readBack := by
    intro idx small
    obtain ⟨question, answer⟩ := numbered_notReserved idx small
    rw [read _ question, read _ answer, (lookup_qaFields qas idx).1, (lookup_qaFields qas idx).2]
    exact ⟨rfl, rfl⟩
  obtain ⟨x, y, z, rfl⟩ := List.length_eq_three.mp three
  have first := found 0 (by decide)
  have second := found 1 (by decide)
  have third := found 2 (by decide)
  simp only [List.getElem?_cons_zero, List.getElem?_cons_succ, Option.map_some] at first second third
  have indices : List.range SECURITY_QUESTION_COUNT = [0, 1, 2] := by decide
  unfold collectQuestions
  rw [indices]
  simp only [List.mapM_cons, List.mapM_nil, filledField_eq first.1, filledField_eq first.2,
    filledField_eq second.1, filledField_eq second.2, filledField_eq third.1,
    filledField_eq third.2, Filled, List.forall_mem_cons, List.map_cons, List.map_nil]
  constructor
  · rintro ⟨⟨q₁, a₁⟩, ⟨q₂, a₂⟩, ⟨q₃, a₃⟩, -⟩
    rw [if_neg q₁, if_neg a₁, if_neg q₂, if_neg a₂, if_neg q₃, if_neg a₃]
    rfl
  · intro blank
    by_cases q₁ : readBack x.1 = []
    · rw [if_pos q₁]; rfl
    rw [if_neg q₁]
    by_cases a₁ : readBack x.2 = []
    · rw [if_pos a₁]; rfl
    rw [if_neg a₁]
    by_cases q₂ : readBack y.1 = []
    · rw [if_pos q₂]; rfl
    rw [if_neg q₂]
    by_cases a₂ : readBack y.2 = []
    · rw [if_pos a₂]; rfl
    rw [if_neg a₂]
    by_cases q₃ : readBack z.1 = []
    · rw [if_pos q₃]; rfl
    rw [if_neg q₃]
    by_cases a₃ : readBack z.2 = []
    · rw [if_pos a₃]; rfl
    exact absurd ⟨⟨q₁, a₁⟩, ⟨q₂, a₂⟩, ⟨q₃, a₃⟩, List.forall_mem_nil _⟩ blank

/-- **What the daemon reads** of a secret that is sent. -/
theorem parse_authenticate {action secret : ByteString}
    (known : action = str "unlock" ∨ action = str "set") (filled : secret ≠ [])
    (qas : List (ByteString × ByteString)) :
    (readBack secret = [] → ∃ parseErr, parseErr ≠ [] ∧
      parseRequest (serializeRequest (authenticateRequest action secret qas)) = .error parseErr) ∧
    (readBack secret ≠ [] → ∃ req',
      parseRequest (serializeRequest (authenticateRequest action secret qas)) = .ok req' ∧
      req'.type = .Authenticate ∧ req'.authAction = action ∧ req'.authSecret = readBack secret ∧
      ∀ key ∉ reservedKeys, req'.rawFields.lookup key = ((qaFields qas).lookup key).map readBack) := by
  have named : action ≠ [] ∧ readBack action = action := by
    rcases known with rfl | rfl <;> decide
  obtain ⟨fields, of, parsed⟩ :=
    parseRequest_serialize (authenticateRequest_wellFormed named.1 filled qas)
  obtain ⟨gotAction, gotSecret⟩ := of.get_auth rfl
  have sameAction : Repo.getField fields "auth_action" = action := gotAction.trans named.2
  have typed : readTyped fields (readBase (authenticateRequest action secret qas) fields) =
      (require "auth_secret" (Repo.getField fields "auth_secret")).map fun v =>
        { readBase (authenticateRequest action secret qas) fields with
          authAction := if (Repo.getField fields "auth_action").isEmpty then str "unlock"
            else Repo.getField fields "auth_action"
          authSecret := v } := rfl
  rw [parsed, typed, gotSecret, sameAction, if_neg (by simpa using named.1)]
  constructor
  · intro blank
    have empty : readBack (authenticateRequest action secret qas).authSecret = [] := blank
    rw [empty]
    exact ⟨_, (by decide : str "Missing '" ++ str "auth_secret" ++ str "' field" ≠ []), rfl⟩
  · intro there
    refine ⟨_, require_map_eq_ok.mpr ⟨there, rfl⟩, rfl, rfl, rfl, of.extras⟩

/-! ### Sessions that are handed out -/

section Sessions

variable {c : Crypto} {others : Request → Apmd → Response} {req : Request} {w : World}

theorem failure_plain (req : Request) (message : ByteString) : (failure req message).Plain :=
  ⟨rfl, List.forall_mem_nil _⟩

theorem sessionResponse_plain (req : Request) (message : String) (state : SessionState) :
    (sessionResponse req message state).Plain := by
  refine ⟨rfl, fun kv mem => ?_⟩
  have key : kv.1 = str "session_expires" ∨ kv.1 = str "session_token" ∨
      kv.1 ∈ (∅ : Repo.Fields) := by
    have there : kv.1 ∈ (sessionResponse req message state).rawFields :=
      List.mem_map_of_mem (f := Sigma.fst) mem
    rwa [sessionResponse, AList.mem_insert, AList.mem_insert] at there
  rcases key with same | same | none
  · rw [same]
    exact ⟨by decide, by decide, ⟨by decide, by decide, by decide⟩, by decide⟩
  · rw [same]
    exact ⟨by decide, by decide, ⟨by decide, by decide, by decide⟩, by decide⟩
  · exact absurd none (AList.notMem_empty _)

/-- A secret is answered with a session or with a failure. -/
theorem authenticate_replies (type : req.type = .Authenticate) (d : Apmd) :
    ∃ resp, respond c req d = .replied resp ∧
      ((∃ message, resp = failure req message) ∨ ∃ message state d₁,
        WritesSession d₁ state (step c d (.request req)) ∧
          resp = sessionResponse req message state) := by
  have handles := step_handles c req d
  generalize respond c req d = o at handles ⊢
  generalize step c d (.request req) = d' at handles ⊢
  have gate : requiresAuth req.type = false := by rw [type]; rfl
  cases handles with
  | unauthorized locked => rw [gate] at locked; cases locked
  | ungated _ plain => exact absurd type plain
  | authorized locked => rw [gate] at locked; cases locked
  | wiped same => rw [type] at same; cases same
  | notAuthenticated => exact ⟨_, rfl, .inl ⟨_, rfl⟩⟩
  | setUndone => exact ⟨_, rfl, .inl ⟨_, rfl⟩⟩
  | unlocked _ _ writes => exact ⟨_, rfl, .inr ⟨_, _, _, writes, rfl⟩⟩
  | set _ _ _ writes => exact ⟨_, rfl, .inr ⟨_, _, _, writes, rfl⟩⟩
  | looked same => rw [type] at same; cases same
  | wrong wrong => cases type.symm.trans wrong.1
  | reset right => cases type.symm.trans right.1

theorem authenticate_plain {action secret : ByteString}
    (known : action = str "unlock" ∨ action = str "set") (filled : secret ≠ [])
    (qas : List (ByteString × ByteString)) (d : Apmd) :
    Replies c (authenticateRequest action secret qas) d := by
  rintro req' ⟨parsed, -⟩
  by_cases blank : readBack secret = []
  · obtain ⟨parseErr, -, bad⟩ := (parse_authenticate known filled qas).1 blank
    rw [bad] at parsed
    cases parsed
  · obtain ⟨req'', read, type, -⟩ := (parse_authenticate known filled qas).2 blank
    obtain rfl : req'' = req' := Except.ok.inj (read.symm.trans parsed)
    obtain ⟨resp, replied, ⟨message, rfl⟩ | ⟨message, state, d₁, -, rfl⟩⟩ :=
      authenticate_replies (c := c) type d
    · exact ⟨_, replied, failure_plain _ _⟩
    · exact ⟨_, replied, sessionResponse_plain _ _ _⟩

/-- A token is read back as it is. -/
theorem readBack_token {state : SessionState} (fits : state.Fits) :
    readBack state.token = state.token := by
  have blank {b : UInt8} (h : isblank b) : isspace b := by
    rw [isblank, Bool.and_eq_true, Bool.and_eq_true] at h
    exact h.1.1
  exact readBack_of_bare ⟨fun b first h => fits.token.bare.1 b first (blank h),
    fun b last h => fits.token.bare.2 b last (blank h)⟩

theorem sessionResponse_token (req : Request) (message : String) (state : SessionState) :
    (sessionResponse req message state).rawFields.lookup (str "session_token") =
      some state.token := by
  rw [sessionResponse, AList.lookup_insert_ne (by decide), AList.lookup_insert]

theorem session_token_lookup {message : String} {state : SessionState} (fits : state.Fits)
    {out : Response} (as : ReadAs (sessionResponse req message state) out) :
    (withTransport out).rawFields.lookup (str "session_token") = some state.token := by
  rw [withTransport, AList.lookup_insert_ne (by decide), as.fields _ (by decide),
    sessionResponse_token, Option.map_some, readBack_token fits]

theorem wp_refuse {α : Type} {Q : α → World → Prop} {E : ByteString → World → Prop}
    {printFailure : Bool} {message : ByteString} (h : ∀ w', Chats [] w w' → E message w') :
    wp (refuse printFailure message) Q E w := by
  refine wp_ite.mpr ⟨fun _ => ?_, fun _ => h w (Chats.refl w)⟩
  exact wp_bind.mpr (wp_mono (chats_complain _ w) (fun _ w' said => h w' said)
    fun _ _ fails => fails.elim)

/-- The session that a secret was answered with. -/
structure Granted (c : Crypto) (req : Request) (w : World) (token : ByteString) (req' : Request)
    (state : SessionState) (d' : Apmd) : Prop where
  reaches : Reaches req req'
  success : ∃ message, respond c req' (w.reached c) = .replied (sessionResponse req' message state)
  daemon : d' = step c (w.reached c) (.request req')
  token : token = state.token

/-- What went wrong with a secret, by the result of its request. -/
def Denied (result : Except ByteString Response) (err : ByteString) : Prop :=
  (∃ e, result = .error e ∧ err = str "Error: " ++ e) ∨ ∃ resp, result = .ok resp ∧
    resp.success = false ∧
    err = if resp.message.isEmpty then str "Authentication failed" else resp.message

/-- **What becomes of a secret that is sent.** -/
theorem wp_requestSessionUnlock {action secret : ByteString}
    {securityQa : List (ByteString × ByteString)} (printFailure : Bool)
    (known : action = str "unlock" ∨ action = str "set") (filled : secret ≠ [])
    (same : authenticateRequest action secret securityQa = req) (w : World) :
    wp (requestSessionUnlock c others action secret securityQa printFailure)
      (fun token w' => Sent c others req w w' ∧
        ∃ req' state, Granted c req w token req' state w'.daemon)
      (fun err w' => Sent c others req w w' ∧ Denied (call c others req w).1 err) w := by
  have named : action ≠ [] := by rcases known with rfl | rfl <;> decide
  have went := called c others (w := w)
    (authenticateRequest_wellFormed named filled securityQa)
    (authenticate_plain known filled securityQa _)
  unfold requestSessionUnlock
  rw [same] at went ⊢
  refine wp_bind.mpr (wp_attempt.mpr (wp_mono (sent_request w) ?_ ?_))
  · rintro resp w₁ ⟨result, sent⟩
    refine wp_ite.mpr ⟨fun fails => wp_refuse fun w' said => ⟨sent.chats said, .inr ⟨resp, result,
      by simpa using fails, rfl⟩⟩, fun success => ?_⟩
    have success : resp.success = true := by simpa using success
    rw [result, ← sent.daemon] at went
    obtain ⟨req', message, state, reaches, replied, daemon, fits, token⟩ :
        ∃ req' message state, Reaches req req' ∧
          respond c req' (w.reached c) = .replied (sessionResponse req' message state) ∧
          w₁.daemon = step c (w.reached c) (.request req') ∧ state.Fits ∧
          resp.rawFields.lookup (str "session_token") = some state.token := by
      generalize w₁.daemon = d' at went ⊢
      generalize answer : (Except.ok resp : Except ByteString Response) = r at went
      cases went with
      | unhandled fails =>
        rw [(fails resp answer.symm).1] at success
        cases success
      | lost => cases answer
      | answered reaches replied as =>
        rename_i req' resp' out
        obtain rfl := Except.ok.inj answer
        obtain ⟨parsed, -⟩ := id reaches
        have type : req'.type = .Authenticate := by
          by_cases blank : readBack secret = []
          · obtain ⟨parseErr, -, bad⟩ := (parse_authenticate known filled securityQa).1 blank
            rw [same, parsed] at bad
            cases bad
          · obtain ⟨req'', read, type, -⟩ := (parse_authenticate known filled securityQa).2 blank
            rw [same, parsed] at read
            cases read
            exact type
        obtain ⟨_, again, ⟨message, rfl⟩ | ⟨message, state, d₁, writes, rfl⟩⟩ :=
          authenticate_replies (c := c) type (w.reached c)
        · obtain rfl := Outcome.replied.inj (replied.symm.trans again)
          rw [show (withTransport out).success = out.success from rfl, as.success] at success
          cases success
        · obtain rfl := Outcome.replied.inj (replied.symm.trans again)
          obtain ⟨-, -, fits, -⟩ := id writes
          exact ⟨req', message, state, reaches, again, rfl, fits, session_token_lookup fits as⟩
    have rest : ∀ w₂, Chats [] w₁ w₂ → Sent c others req w w₂ ∧ ∃ req' state',
        Granted c req w state.token req' state' w₂.daemon := fun w₂ said =>
      ⟨sent.chats said, req', state, reaches, ⟨message, replied⟩, said.daemon.trans daemon, rfl⟩
    rw [token]
    refine wp_ite.mpr ⟨fun _ => wp_bind.mpr ?_, fun _ => rest w₁ (Chats.refl w₁)⟩
    exact wp_mono (chats_say _ w₁) (fun _ w₂ said => rest w₂ said) fun _ _ fails => fails.elim
  · rintro err w₁ ⟨result, sent⟩
    exact wp_refuse fun w' said => ⟨sent.chats said, .inl ⟨err, result, rfl⟩⟩

end Sessions

/-! ### When nobody else is at work -/

section Quiet

variable {c : Crypto} {others : Request → Apmd → Response} {w : World}

/-- The secret is not blank for the daemon, and the request with it is not too large. -/
structure Arrives (action secret : ByteString) (qas : List (ByteString × ByteString)) : Prop where
  filled : readBack secret ≠ []
  small : (serializeRequest (authenticateRequest action secret qas)).length ≤ kMaxRequestBytes

/-- What arrives of a secret. -/
structure Arrived (action secret : ByteString) (qas : List (ByteString × ByteString))
    (req' : Request) : Prop where
  reaches : Reaches (authenticateRequest action secret qas) req'
  type : req'.type = .Authenticate
  action : req'.authAction = action
  secret : req'.authSecret = readBack secret
  fields : ∀ key ∉ reservedKeys, req'.rawFields.lookup key = ((qaFields qas).lookup key).map readBack

theorem arrived_of_reaches {action secret : ByteString} {qas : List (ByteString × ByteString)}
    (known : action = str "unlock" ∨ action = str "set") (there : secret ≠ []) {req' : Request}
    (reaches : Reaches (authenticateRequest action secret qas) req') :
    Arrives action secret qas ∧ Arrived action secret qas req' := by
  by_cases blank : readBack secret = []
  · obtain ⟨parseErr, -, bad⟩ := (parse_authenticate known there qas).1 blank
    cases reaches.1.symm.trans bad
  · obtain ⟨req'', read, type, sameAction, same, fields⟩ :=
      (parse_authenticate known there qas).2 blank
    obtain rfl : req'' = req' := Except.ok.inj (read.symm.trans reaches.1)
    exact ⟨⟨blank, reaches.2⟩, reaches, type, sameAction, same, fields⟩

theorem Arrives.reaches {action secret : ByteString} {qas : List (ByteString × ByteString)}
    (known : action = str "unlock" ∨ action = str "set") (there : secret ≠ [])
    (arrives : Arrives action secret qas) : ∃ req', Arrived action secret qas req' := by
  obtain ⟨req', read, -⟩ := (parse_authenticate known there qas).2 arrives.filled
  exact ⟨req', (arrived_of_reaches known there ⟨read, arrives.small⟩).2⟩

/-- A text that begins with no blank is read back with its first byte. -/
theorem head?_readBack {b : UInt8} (plain : ¬ isblank b) (rest : ByteString) :
    (readBack (b :: rest)).head? = some b := by
  rw [readBack, strip, List.dropWhile_cons_of_neg plain]
  cases same : (b :: rest).rdropWhile isblank with
  | nil =>
    rw [List.rdropWhile_eq_nil_iff] at same
    exact absurd (same b List.mem_cons_self) plain
  | cons b' rest' =>
    have front := List.rdropWhile_prefix isblank (b :: rest)
    rw [same] at front
    rw [(List.cons_prefix_cons.mp front).1]
    rfl

/-- An error that does not come from the secret. -/
theorem Denied.of_unreached {err : ByteString} {result : Except ByteString Response}
    (denied : Denied result err) (unreached : ∀ out, result = .ok out → out.success = false ∧
      ∃ parseErr, out.message = readBack (str "Bad request: " ++ parseErr)) :
    err ≠ str "Password/PIN not configured" := by
  intro same
  have first : err.head? = some (chr 'P') := by rw [same]; rfl
  rcases denied with ⟨e, -, rfl⟩ | ⟨resp, there, -, rfl⟩
  · change some (chr 'E') = some (chr 'P') at first
    revert first
    decide
  · obtain ⟨-, parseErr, message⟩ := unreached resp there
    have bad : resp.message.head? = some (chr 'B') := by
      rw [message]
      exact head?_readBack (by decide) _
    split at first
    · revert first; decide
    · rw [bad] at first
      revert first
      decide

/-- What is said of a secret that is answered. -/
theorem Denied.of_answered {err : ByteString} {result : Except ByteString Response}
    (denied : Denied result err) {resp out : Response} (as : ReadAs resp out)
    (answer : result = .ok (withTransport out)) : resp.success = false ∧
      err = if readBack resp.message = [] then str "Authentication failed"
        else readBack resp.message := by
  subst answer
  obtain ⟨e, fails, -⟩ | ⟨resp', same, fails, rfl⟩ := denied
  · cases fails
  · obtain rfl := Except.ok.inj same
    refine ⟨as.success.symm.trans fails, ?_⟩
    rw [show (withTransport out).message = out.message from rfl, as.message]
    simp only [List.isEmpty_iff]

variable (c others) in
/-- **Without a secret none opens a session**, and only a secret that arrives is told so. -/
theorem unlock_unset (quiet : w.Quiet) (unset : w.daemon.dir.passPinFile = none)
    (usable : KeyUsable w.daemon) {secret : ByteString} (there : secret ≠ []) :
    wp (requestSessionUnlock c others (str "unlock") secret [] false) (fun _ _ => False)
      (fun err w' => Sent c others (authenticateRequest (str "unlock") secret []) w w' ∧
        w'.daemon.dir.passPinFile = none ∧ KeyUsable w'.daemon ∧ w'.daemon.now = w.daemon.now ∧
        (err = str "Password/PIN not configured" ↔ Arrives (str "unlock") secret [])) w := by
  have known : str "unlock" = str "unlock" ∨ str "unlock" = str "set" := .inl rfl
  refine wp_mono (wp_requestSessionUnlock false known there rfl w) ?_ ?_
  · rintro token w' ⟨-, req', state, reaches, ⟨message, replied⟩, -⟩
    obtain ⟨-, arrived⟩ := arrived_of_reaches known there reaches
    rw [quiet.reached] at replied
    obtain ⟨resp, replied', unlocking⟩ := unlock_answered (c := c) (d := w.daemon) arrived.type
      arrived.action
    obtain rfl := Outcome.replied.inj (replied.symm.trans replied')
    generalize step c w.daemon (.request req') = d' at unlocking
    generalize same : sessionResponse req' message state = resp at unlocking
    cases unlocking with
    | unlocked verified => exact not_verifies_of_unset unset _ verified
    | refused => cases congrArg Response.success same
  · rintro err w' ⟨sent, denied⟩
    by_cases arrives : Arrives (str "unlock") secret []
    · obtain ⟨req', arrived⟩ := arrives.reaches known there
      obtain ⟨resp, replied, unlocking⟩ := unlock_answered (c := c) (d := w.daemon) arrived.type
        arrived.action
      obtain ⟨resp', out, replied', as, sends⟩ := called_quiet c others
        (authenticateRequest_wellFormed (by decide) there []) quiet
        (authenticate_plain known there [] _) arrived.reaches
      obtain rfl := Outcome.replied.inj (replied.symm.trans replied')
      have daemon : w'.daemon = step c w.daemon (.request req') := by rw [sent.daemon, sends]
      obtain ⟨-, said⟩ := denied.of_answered as (by rw [sends])
      rw [← daemon] at unlocking
      generalize w'.daemon = d' at unlocking ⊢
      cases unlocking with
      | unlocked verified => exact absurd verified (not_verifies_of_unset unset _)
      | refused _ ready message =>
        refine ⟨sent, ready.passPin.trans unset, usable.ready ready.key, ready.now,
          iff_of_true ?_ arrives⟩
        have filled : req'.authSecret ≠ [] := arrived.secret ▸ arrives.filled
        rw [said, message unset filled]
        change (if readBack (str "Password/PIN not configured") = [] then _ else
          readBack (str "Password/PIN not configured")) = _
        decide
    · obtain ⟨daemon, unreached⟩ := called_unreached c others (w := w)
        (authenticateRequest_wellFormed (by decide) there []) fun req' reaches =>
          arrives (arrived_of_reaches known there reaches).1
      have same : w'.daemon = w.daemon := by rw [sent.daemon, daemon, quiet.reached]
      rw [same]
      exact ⟨sent, unset, usable, rfl, iff_of_false (denied.of_unreached unreached) arrives⟩

/-- The token opens every gated request until then. -/
def Accepts (c : Crypto) (d : Apmd) (token : ByteString) (ends : Nat) : Prop :=
  ∀ req (now : UnixSeconds), requiresAuth req.type = true → req.sessionToken = token →
    now.val < ends → (respond c req { d with now }).passed = true

theorem accepts_of_issues {d d₁ d' : Apmd} {req : Request} {message message' : String}
    {state state' : SessionState} (h : Issues c d₁ state' d')
    (same : sessionResponse req message state = sessionResponse req message' state')
    (now : d₁.now = d.now) : Accepts c d' state.token (d.now + SESSION_LIFETIME_SECONDS) := by
  intro req time gate opens soon
  have token : state.token = state'.token := by
    have all := congrArg (fun resp => resp.rawFields.lookup (str "session_token")) same
    rw [sessionResponse_token, sessionResponse_token] at all
    exact Option.some.inj all
  obtain ⟨-, -, -, expires, -⟩ := id h.writes
  refine h.accepted ?_ gate (opens.trans token)
  rwa [expires, now]

/-- A new secret that arrives with all its questions, and can be stored with them. -/
structure Settable (secret : ByteString) (qas : List (ByteString × ByteString)) : Prop where
  arrives : Arrives (str "set") secret qas
  filled : Filled qas
  oneLine : ∀ qa ∈ qas, chr '\n' ∉ readBack qa.1 ∧ chr '\r' ∉ readBack qa.1

theorem settable_iff_storable {qas : List (ByteString × ByteString)} (filled : Filled qas) :
    (∀ qa ∈ qas.map readPair, Storable qa) ↔
      ∀ qa ∈ qas, chr '\n' ∉ readBack qa.1 ∧ chr '\r' ∉ readBack qa.1 := by
  rw [List.forall_mem_map]
  constructor
  · exact fun storable qa mem => (storable qa mem).2.2
  · exact fun oneLine qa mem => ⟨(filled qa mem).1, (filled qa mem).2, oneLine qa mem⟩

/-- The secret is there with its questions, and the session that it opens. -/
structure IsSet (c : Crypto) (now : Nat) (secret : ByteString)
    (qas : List (ByteString × ByteString)) (token : ByteString) (d : Apmd) : Prop where
  secret : HoldsSecret c (readBack secret) d
  questions : ∃ draw, HoldsQuestions c (storedQuestions c draw (qas.map readPair)) d
  accepts : Accepts c d token (now + SESSION_LIFETIME_SECONDS)

theorem unlock_granted {secret token : ByteString} {req' : Request} {state : SessionState}
    {d' : Apmd} (there : secret ≠ [])
    (h : Granted c (authenticateRequest (str "unlock") secret []) w token req' state d') :
    Verifies c (w.reached c) (readBack secret) ∧
      Accepts c d' token ((w.reached c).now + SESSION_LIFETIME_SECONDS) := by
  obtain ⟨reaches, ⟨message, replied⟩, daemon, rfl⟩ := h
  rw [daemon]
  obtain ⟨-, arrived⟩ := arrived_of_reaches (.inl rfl) there reaches
  obtain ⟨resp, replied', unlocking⟩ := unlock_answered (c := c) (d := w.reached c) arrived.type
    arrived.action
  obtain rfl := Outcome.replied.inj (replied.symm.trans replied')
  generalize step c (w.reached c) (.request req') = d' at unlocking ⊢
  generalize same : sessionResponse req' message state = resp at unlocking
  cases unlocking with
  | unlocked verified issues => exact ⟨arrived.secret ▸ verified, accepts_of_issues issues same rfl⟩
  | refused => cases congrArg Response.success same

/-- A secret that is set with a session is there with its questions, and none was before. -/
theorem set_granted {secret token : ByteString} {qas : List (ByteString × ByteString)}
    {req' : Request} {state : SessionState} {d' : Apmd} (usable : KeyUsable (w.reached c))
    (there : secret ≠ []) (three : qas.length = SECURITY_QUESTION_COUNT)
    (h : Granted c (authenticateRequest (str "set") secret qas) w token req' state d') :
    (w.reached c).dir.passPinFile = none ∧ Settable secret qas ∧
      IsSet c (w.reached c).now secret qas token d' := by
  obtain ⟨reaches, ⟨message, replied⟩, daemon, rfl⟩ := h
  rw [daemon]
  obtain ⟨arrives, arrived⟩ := arrived_of_reaches (.inr rfl) there reaches
  by_cases filled : Filled qas
  · have collected := (collectQuestions_read three arrived.fields).1 filled
    obtain ⟨resp, replied', setting⟩ := set_answered (c := c) arrived.type arrived.action usable
      collected
    obtain rfl := Outcome.replied.inj (replied.symm.trans replied')
    generalize step c (w.reached c) (.request req') = d' at setting ⊢
    generalize same : sessionResponse req' message state = resp at setting
    cases setting with
    | saved can holds held now issues =>
      rename_i state' draw d₁
      exact ⟨can.free, ⟨arrives, filled, (settable_iff_storable filled).mp can.storable⟩,
        arrived.secret ▸ holds, ⟨draw, held⟩, accepts_of_issues issues same now⟩
    | refused => cases congrArg Response.success same
  · have collected := (collectQuestions_read three arrived.fields).2 filled
    obtain ⟨message', replied'⟩ := set_uncollected (c := c) (d := w.reached c) arrived.type
      arrived.action collected
    cases congrArg Response.success (Outcome.replied.inj (replied.symm.trans replied'))

variable (c others) in
/-- **A secret is set with its questions, or none is.** -/
theorem set_unset (quiet : w.Quiet) (unset : w.daemon.dir.passPinFile = none)
    (usable : KeyUsable w.daemon) {secret : ByteString} (there : secret ≠ [])
    {qas : List (ByteString × ByteString)} (three : qas.length = SECURITY_QUESTION_COUNT) :
    wp (requestSessionUnlock c others (str "set") secret qas true)
      (fun token w' => Sent c others (authenticateRequest (str "set") secret qas) w w' ∧
        Settable secret qas ∧ IsSet c w.daemon.now secret qas token w'.daemon)
      (fun _ w' => Sent c others (authenticateRequest (str "set") secret qas) w w' ∧
        ¬ Settable secret qas ∧ w'.daemon.dir.passPinFile = none) w := by
  have known : str "set" = str "unlock" ∨ str "set" = str "set" := .inr rfl
  refine wp_mono (wp_requestSessionUnlock true known there rfl w) ?_ ?_
  · rintro token w' ⟨sent, req', state, granted⟩
    obtain ⟨-, settable, isSet⟩ := set_granted (quiet.reached.symm ▸ usable) there three granted
    rw [quiet.reached] at isSet
    exact ⟨sent, settable, isSet⟩
  · rintro err w' ⟨sent, denied⟩
    refine ⟨sent, ?_⟩
    by_cases arrives : Arrives (str "set") secret qas
    · obtain ⟨req', arrived⟩ := arrives.reaches known there
      obtain ⟨resp, out, replied, as, sends⟩ := called_quiet c others
        (authenticateRequest_wellFormed (by decide) there qas) quiet
        (authenticate_plain known there qas _) arrived.reaches
      have daemon : w'.daemon = step c w.daemon (.request req') := by rw [sent.daemon, sends]
      have fails := (denied.of_answered as (by rw [sends])).1
      refine ⟨fun can => ?_, ?_⟩
      · have collected := (collectQuestions_read three arrived.fields).1 can.filled
        obtain ⟨resp', replied', setting⟩ := set_answered (c := c) arrived.type arrived.action
          usable collected
        obtain rfl := Outcome.replied.inj (replied.symm.trans replied')
        generalize step c w.daemon (.request req') = d' at setting
        cases setting with
        | saved => cases fails
        | refused cannot =>
          exact cannot ⟨unset, arrived.secret ▸ can.arrives.filled,
            (settable_iff_storable can.filled).mpr can.oneLine⟩
      · rw [daemon]
        exact (passPin_of_failure replied fails).trans unset
    · obtain ⟨daemon, -⟩ := called_unreached c others (w := w)
        (authenticateRequest_wellFormed (by decide) there qas) fun req' reaches =>
          arrives (arrived_of_reaches known there reaches).1
      have same : w'.daemon = w.daemon := by rw [sent.daemon, daemon, quiet.reached]
      exact ⟨fun can => arrives can.arrives, same ▸ unset⟩

end Quiet

/-! ### Setting a secret -/

section SetUp

variable {c : Crypto} {others : Request → Apmd → Response} {w : World}

/-- A session is active, or the terminal is asked. -/
theorem wp_ensureAuthenticatedSession {Q : ByteString → World → Prop} {E : Unit → World → Prop}
    (active : ∀ token, (activeToken w.daemon).1 = some token → Q token w)
    (prompt : (activeToken w.daemon).1 = none → ∀ w', Chats [] w w' →
      wp (authenticateByPrompt c others) Q E w') :
    wp (ensureAuthenticatedSession c others) Q E w := by
  refine wp_bind.mpr (wp_update.mpr ?_)
  dsimp only
  generalize activeToken w.daemon = found at active prompt ⊢
  obtain ⟨token?, hadSession⟩ := found
  cases token? with
  | some token => exact active token rfl
  | none =>
    refine wp_ite.mpr ⟨fun _ => wp_bind.mpr ?_, fun _ => prompt rfl w (Chats.refl w)⟩
    exact wp_mono (chats_say _ w) (fun _ w' said => prompt rfl w' said) fun _ _ fails => fails.elim

/-- As many lines are the same lines. -/
theorem World.Types.unique {read read' : List ByteString} (h : w.Types read) (h' : w.Types read')
    (length : read.length = read'.length) : read = read' :=
  (List.prefix_of_prefix_length_le h h' length.le).eq_of_length length

theorem World.Types.front {read more : List ByteString} (h : w.Types (read ++ more)) : w.Types read :=
  (List.prefix_append read more).trans h

theorem length_qaLines (qas : List (ByteString × ByteString)) :
    (qaLines qas).length = qas.length * 2 := by
  simp [qaLines]

theorem qaLines_injective : Function.Injective qaLines := by
  intro qas qas' same
  induction qas generalizing qas' with
  | nil =>
    cases qas' with
    | nil => rfl
    | cons qa qas' => cases same
  | cons qa qas ih =>
    cases qas' with
    | nil => cases same
    | cons qa' qas' =>
      simp only [qaLines, List.flatMap_cons, List.cons_append, List.nil_append,
        List.cons.injEq] at same
      rw [Prod.ext same.1 same.2.1, ih same.2.2]

theorem Arrives.typed {action secret : ByteString} {qas : List (ByteString × ByteString)}
    (h : Arrives action secret qas) : secret ≠ [] := by
  rintro rfl
  exact h.filled (by decide)

theorem Filled.complete {qas : List (ByteString × ByteString)} (h : Filled qas) :
    Complete qas := by
  have typed {text : ByteString} (there : readBack text ≠ []) : text ≠ [] := by
    rintro rfl
    exact there (by decide)
  exact fun qa mem => ⟨typed (h qa mem).1, typed (h qa mem).2⟩

/-- The lines that are typed set the secret: it comes twice, and its questions follow. -/
structure NewLines (w : World) (secret : ByteString) (qas : List (ByteString × ByteString)) :
    Prop where
  typed : w.Types ([secret, secret] ++ qaLines qas)
  three : qas.length = SECURITY_QUESTION_COUNT
  settable : Settable secret qas

theorem NewLines.front {secret secret' : ByteString} {qas : List (ByteString × ByteString)}
    {w' : World} (h : NewLines w secret' qas) (chats : Chats [secret, secret] w w') :
    secret' = secret ∧ w'.Types (qaLines qas) := by
  have pair := h.typed.front.unique chats.types rfl
  obtain rfl := (List.cons.inj pair).1
  exact ⟨rfl, chats.types_append.mp h.typed⟩

theorem setUpSecret_iff (quiet : w.Quiet) (unset : w.daemon.dir.passPinFile = none)
    (usable : KeyUsable w.daemon) :
    wp (setUpSecret c others)
      (fun token w' => ∃ secret qas, NewLines w secret qas ∧
        IsSet c w.daemon.now secret qas token w'.daemon)
      (fun _ w' => w'.daemon.dir.passPinFile = none ∧ ∀ secret qas, ¬ NewLines w secret qas) w := by
  have aborts {α : Type} {Q : α → World → Prop} (text : String) {w₁ : World}
      (same : w₁.daemon = w.daemon) (nothing : ∀ secret qas, ¬ NewLines w secret qas) :
      wp (fail text) Q (fun _ w' => w'.daemon.dir.passPinFile = none ∧
        ∀ secret qas, ¬ NewLines w secret qas) w₁ :=
    wp_mono (fails_fail text same nothing) (fun _ _ h => h)
      fun _ _ h => ⟨h.1.symm ▸ unset, h.2⟩
  refine wp_bind.mpr (wp_attempt.mpr (wp_mono (chats_promptForNewSecret w) ?_ ?_))
  · rintro secret w₁ ⟨there, chats⟩
    refine wp_bind.mpr (wp_attempt.mpr (wp_mono (chats_promptForSecurityQuestions w₁) ?_ ?_))
    · rintro qas w₂ ⟨three, complete, chats'⟩
      have all := chats.trans chats'
      have set := set_unset c others (all.quiet quiet)
        (all.daemon.symm ▸ unset) (all.daemon.symm ▸ usable) there three
      refine wp_bind.mpr (wp_attempt.mpr (wp_mono set ?_ ?_))
      · rintro token w₃ ⟨-, settable, isSet⟩
        exact ⟨secret, qas, ⟨all.types, three, settable⟩, all.daemon ▸ isSet⟩
      · rintro _ w₃ ⟨-, unsettable, none⟩
        refine ⟨none, fun secret' qas' new => unsettable ?_⟩
        obtain ⟨rfl, types⟩ := new.front chats
        have length : (qaLines qas').length = (qaLines qas).length := by
          rw [length_qaLines, length_qaLines, new.three, three]
        obtain rfl := qaLines_injective (types.unique chats'.types length)
        exact new.settable
    · rintro _ w₂ ⟨same, nothing⟩
      refine aborts _ (same.trans chats.daemon) fun secret' qas new => ?_
      exact nothing qas new.three new.settable.filled.complete (new.front chats).2
  · rintro _ w₁ ⟨same, nothing⟩
    refine aborts _ same fun secret qas new => ?_
    exact nothing secret new.settable.arrives.typed new.typed.front

/-- The lines that are typed set the secret where none is: one is tried before. -/
structure SetUpLines (w : World) (first secret : ByteString)
    (qas : List (ByteString × ByteString)) : Prop where
  typed : w.Types ([first] ++ ([secret, secret] ++ qaLines qas))
  three : qas.length = SECURITY_QUESTION_COUNT
  tried : Arrives (str "unlock") first []
  settable : Settable secret qas

/-- Three questions with their answers. -/
def sampleQuestions : List (ByteString × ByteString) :=
  [(str "Pet?", str "rex"), (str "Street?", str "elm"), (str "Town?", str "ulm")]

end SetUp

/-! ### Sessions and secrets -/

section Opened

variable {c : Crypto} {others : Request → Apmd → Response} {w : World}

theorem keyFileWhole_run {d : Apmd} (h : KeyFileWhole d) (events : List Event) :
    KeyFileWhole (Run.run (step c) d events) :=
  (Run.always_of_step (fun _ event h => h.step event) h).last

theorem keyFileWhole_reached (h : KeyFileWhole w.daemon) : KeyFileWhole (w.reached c) :=
  keyFileWhole_run h _

/-- What a call makes of the daemon: it handles the request, or nothing happens. -/
theorem Called.daemon {req : Request} {result : Except ByteString Response} {d : Apmd}
    (h : Called c req w result d) :
    d = w.reached c ∨ ∃ req', Reaches req req' ∧ d = step c (w.reached c) (.request req') := by
  cases h with
  | unhandled => exact .inl rfl
  | lost reaches => exact .inr ⟨_, reaches, rfl⟩
  | answered reaches => exact .inr ⟨_, reaches, rfl⟩

/-- How a session is opened: with the secret, or by setting one where the device has none. -/
inductive Opened (c : Crypto) (w : World) (token : ByteString) (d' : Apmd) : Prop where
  | active (active : (activeToken w.daemon).1 = some token) (same : d' = w.daemon)
  | unlocked {secret : ByteString} (typed : w.Types [secret])
      (verified : Verifies c (w.reached c) (readBack secret))
      (accepts : Accepts c d' token ((w.reached c).now + SESSION_LIFETIME_SECONDS))
  | set {first secret : ByteString} {qas : List (ByteString × ByteString)} {tried before : Apmd}
      (typed : w.Types ([first] ++ ([secret, secret] ++ qaLines qas)))
      (tries : tried = w.reached c ∨ ∃ req',
        Reaches (authenticateRequest (str "unlock") first []) req' ∧
          tried = step c (w.reached c) (.request req'))
      (reached : before = Run.run (step c) tried (w.turns (w.calls + 1)).before)
      (unset : before.dir.passPinFile = none) (isSet : IsSet c before.now secret qas token d')

/-- **A session takes the secret**, whatever others do and wherever connections fail. -/
theorem session_opened (whole : KeyFileWhole w.daemon) :
    wp (ensureAuthenticatedSession c others) (fun token w' => Opened c w token w'.daemon)
      (fun _ _ => True) w := by
  have setUp {first : ByteString} {w₃ : World} (tries : w₃.daemon = w.reached c ∨ ∃ req',
        Reaches (authenticateRequest (str "unlock") first []) req' ∧
          w₃.daemon = step c (w.reached c) (.request req'))
      (typed : ∀ more, w₃.Types more → w.Types ([first] ++ more))
      (calls : w₃.calls = w.calls + 1) (turns : w₃.turns = w.turns) (whole : KeyFileWhole w₃.daemon) :
      wp (setUpSecret c others) (fun token w' => Opened c w token w'.daemon) (fun _ _ => True) w₃ := by
    refine wp_bind.mpr (wp_attempt.mpr (wp_mono (chats_promptForNewSecret w₃) ?_ ?_))
    · rintro secret w₄ ⟨there, chats⟩
      refine wp_bind.mpr (wp_attempt.mpr (wp_mono (chats_promptForSecurityQuestions w₄) ?_ ?_))
      · rintro qas w₅ ⟨three, complete, chats'⟩
        have all := chats.trans chats'
        refine wp_bind.mpr (wp_attempt.mpr (wp_mono
          (wp_requestSessionUnlock true (.inr rfl) there rfl w₅) ?_ fun _ _ _ => trivial))
        rintro token w₆ ⟨-, req', state, granted⟩
        have reached : w₅.reached c =
            Run.run (step c) w₃.daemon (w.turns (w.calls + 1)).before := by
          rw [World.reached, all.daemon, all.turns, all.calls, turns, calls]
        have usable : KeyUsable (w₅.reached c) := reached ▸ (keyFileWhole_run whole _).usable
        obtain ⟨unset, -, isSet⟩ := set_granted usable there three granted
        exact .set (typed _ all.types) tries reached unset isSet
      · exact fun _ w₅ _ => wp_mono (fails_fail _ rfl trivial) (fun _ _ h => h) fun _ _ _ => trivial
    · exact fun _ w₄ _ => wp_mono (fails_fail _ rfl trivial) (fun _ _ h => h) fun _ _ _ => trivial
  refine wp_ensureAuthenticatedSession (fun token active => .active active rfl) fun _ w₁ said => ?_
  refine wp_bind.mpr (wp_attempt.mpr (wp_mono (chats_promptForSecret _ w₁) ?_ ?_))
  · rintro first w₂ ⟨there, chats⟩
    have all : Chats [first] w w₂ := said.trans chats
    have reached : w₂.reached c = w.reached c := by
      rw [World.reached, World.reached, all.daemon, all.turns, all.calls]
    refine wp_bind.mpr (wp_attempt.mpr (wp_mono
      (wp_requestSessionUnlock false (.inl rfl) there rfl w₂) ?_ ?_))
    · rintro token w₃ ⟨-, req', state, granted⟩
      obtain ⟨verified, accepts⟩ := unlock_granted there granted
      rw [reached] at verified accepts
      exact .unlocked all.types verified accepts
    · rintro err w₃ ⟨sent, -⟩
      have went := (called c others (w := w₂)
        (authenticateRequest_wellFormed (by decide) there [])
        (authenticate_plain (.inl rfl) there [] _)).daemon
      rw [← sent.daemon, reached] at went
      have whole' : KeyFileWhole w₃.daemon := by
        rcases went with same | ⟨req', -, same⟩
        · exact same ▸ keyFileWhole_reached whole
        · exact same ▸ (keyFileWhole_reached whole).step _
      refine wp_ite.mpr ⟨fun _ => wp_ite.mpr ⟨fun _ => ?_, fun _ => trivial⟩, fun _ => ?_⟩
      · exact wp_bind.mpr (wp_mono (chats_complain _ w₃) (fun _ _ _ => trivial)
          fun _ _ fails => fails.elim)
      · refine setUp went (fun more types => ?_) ?_ (sent.turns.trans all.turns) whole'
        · exact all.types_append.mpr (sent.types.mp types)
        · rw [sent.calls, all.calls]
  · exact fun _ w₂ _ => wp_mono (fails_fail _ rfl trivial) (fun _ _ h => h) fun _ _ _ => trivial

/-- A session on a new device. -/
theorem session_opened_sample : ∃ w : World, w.daemon = {} ∧ w.Types [str "0000"] ∧
    wp (ensureAuthenticatedSession clearCrypto fun _ _ => {})
      (fun token w' => Opened clearCrypto w token w'.daemon) (fun _ _ => True) w := by
  obtain ⟨w, daemon, types⟩ : ∃ w : World, w.daemon = {} ∧ w.Types [str "0000"] :=
    ⟨quietWorld {} ["0000"], rfl, quietWorld_types _ (by decide)⟩
  refine ⟨w, daemon, types, session_opened fun key there => ?_⟩
  rw [daemon] at there
  cases there

end Opened

/-! ### Later sessions -/

section Later

variable {c : Crypto} {others : Request → Apmd → Response} {w : World}

/-- **A secret that arrives and is verified opens a session**, and no other does. -/
theorem unlock_iff (quiet : w.Quiet) {secret : ByteString} (there : secret ≠ []) :
    wp (requestSessionUnlock c others (str "unlock") secret [] false)
      (fun token w' => Arrives (str "unlock") secret [] ∧ Verifies c w.daemon (readBack secret) ∧
        Accepts c w'.daemon token (w.daemon.now + SESSION_LIFETIME_SECONDS))
      (fun _ _ => ¬ (Arrives (str "unlock") secret [] ∧ Verifies c w.daemon (readBack secret))) w := by
  have known : str "unlock" = str "unlock" ∨ str "unlock" = str "set" := .inl rfl
  refine wp_mono (wp_requestSessionUnlock false known there rfl w) ?_ ?_
  · rintro token w' ⟨-, req', state, granted⟩
    obtain ⟨verified, accepts⟩ := unlock_granted there granted
    rw [quiet.reached] at verified accepts
    exact ⟨(arrived_of_reaches known there granted.reaches).1, verified, accepts⟩
  · rintro err w' ⟨-, denied⟩ ⟨arrives, verified⟩
    obtain ⟨req', arrived⟩ := arrives.reaches known there
    obtain ⟨resp, replied, unlocking⟩ := unlock_answered (c := c) (d := w.daemon) arrived.type
      arrived.action
    obtain ⟨resp', out, replied', as, sends⟩ := called_quiet c others
      (authenticateRequest_wellFormed (by decide) there []) quiet
      (authenticate_plain known there [] _) arrived.reaches
    obtain rfl := Outcome.replied.inj (replied.symm.trans replied')
    have fails := (denied.of_answered as (by rw [sends])).1
    generalize step c w.daemon (.request req') = d' at unlocking
    cases unlocking with
    | unlocked => cases fails
    | refused wrong => exact wrong (arrived.secret ▸ verified)

/-- A secret that is held is held after steps that leave it. -/
theorem holdsSecret_run {d : Apmd} {secret : ByteString} {events : List Event} (kept : KeyKept d)
    (holds : HoldsSecret c secret d) (leaves : Run.EachStep (step c) (LeavesSecret c) d events) :
    HoldsSecret c secret (Run.run (step c) d events) := by
  have keeps : ∀ d event, KeyKept d ∧ HoldsSecret c secret d → LeavesSecret c d event →
      KeyKept (step c d event) ∧ HoldsSecret c secret (step c d event) :=
    fun _ _ inv leaves => ⟨inv.1.step leaves.notWiped, inv.2.step inv.1 leaves⟩
  exact (Run.always_of_eachStep keeps ⟨kept, holds⟩ leaves).last.2

def sampleKey : ByteString := List.replicate kMasterKeyLen 9

/-- A text sealed under the key of the sample. -/
def sampleSealed (text : ByteString) : ByteString :=
  sealedText (List.replicate kGcmIvLen 1,
    clearCrypto.gcmSeal sampleKey (List.replicate kGcmIvLen 1) text)

/-- A device with the secret `1234` and three questions. -/
def sampleDevice : Apmd where
  masterKey := some sampleKey
  dir := {
    masterKeyFile := some sampleKey
    passPinFile := some (sampleSealed (List.replicate kSaltLen 2 ++
      clearCrypto.pbkdf2 (str "1234") (List.replicate kSaltLen 2)))
    securityQaFile := some (sampleSealed
      (questionsText (storedQuestions clearCrypto 3 sampleQuestions))) }

theorem sampleDevice_holds : HoldsSecret clearCrypto (str "1234") sampleDevice :=
  ⟨by decide, sampleKey, _, .inl rfl, rfl, List.replicate kGcmIvLen 1, List.replicate kSaltLen 2,
    List.length_replicate, List.length_replicate, rfl⟩

theorem sampleDevice_kept : KeyKept sampleDevice := by
  rintro key ⟨⟩
  exact ⟨rfl, List.length_replicate⟩

end Later

end Apm.Cli
