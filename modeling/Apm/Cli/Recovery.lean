import Apm.Cli.SessionUnlock

/-!
The recovery of a forgotten secret: `cmdForgotPassword` of `src/apm/apm.cpp`, with the daemon at the
other end of the socket.

Three requests make a recovery, one for the questions, one that tries the answers and one with the
new secret. The daemon keeps nothing of the first two for the third.

## Main results

* `recovered_iff`: when nobody else is at work, which lines reset the secret;
* `recovery_needs_answers`: a secret is reset by the right answers, whatever others do and wherever
  connections fail.
-/

namespace Apm.Cli

open Apm.Daemon Apm.Ipc Apm.Lib Apm.Lib.Effect Apm.Lib.Text Apm.Security

/-! ### The command -/

/-- The fields with numbered texts. -/
def numberedFields (key : String) (fields : Repo.Fields) (texts : List ByteString) : Repo.Fields :=
  texts.zipIdx.foldl (fun fields text => fields.insert (numbered key text.2) text.1) fields

/-- The fields with the answers. -/
def answerFields (fields : Repo.Fields) (answers : List ByteString) : Repo.Fields :=
  numberedFields "security_a" fields answers

def recoveryRequest (id : String) (fields : Repo.Fields) : Request where
  type := .ForgotPassword
  id := str id
  rawFields := fields

def qReq : Request :=
  recoveryRequest "forgot-questions-1" (AList.singleton (str "reset_stage") (str "questions"))

def verifyReq (answers : List ByteString) : Request :=
  recoveryRequest "forgot-verify-1"
    (answerFields (AList.singleton (str "reset_stage") (str "verify")) answers)

def resetReq (newSecret : ByteString) (answers : List ByteString) : Request :=
  recoveryRequest "forgot-reset-1"
    (answerFields ((AList.singleton (str "reset_stage") (str "reset")).insert (str "new_secret")
      newSecret) answers)

/-- The questions that a response shows, if none is missing. -/
def shownQuestions (fields : Repo.Fields) : Option (List ByteString) :=
  (List.range SECURITY_QUESTION_COUNT).mapM fun idx => filledField fields (numbered "security_q" idx)

/-- One turn of the loop that asks the questions. -/
def askAnswer (question : ByteString × Nat) (answers : List ByteString) :
    Act World Unit (List ByteString) := do
  let answer ← askLine (str "Security question " ++ decimal (question.2 + 1) ++ str ": " ++
    question.1 ++ str "\nAnswer: ") "Answer cannot be empty. Aborting.\n"
  pure (answers ++ [answer])

section Command

variable (c : Crypto) (others : Request → Apmd → Response)

/-- A request of the command, and what it says when the request fails. -/
def exchange (req : Request) (fallback : String) : Act World Unit Response := do
  match ← attempt (request c others req) with
  | .error err =>
      complain (str "Error: " ++ err ++ str "\n")
      throw ()
  | .ok resp =>
      if !resp.success then
        complain ((if resp.message.isEmpty then str fallback else resp.message) ++ str "\n")
        throw ()
      else pure resp

/-- The message of a response, if there is one. -/
def tell (resp : Response) : Act World Unit Unit :=
  if !resp.message.isEmpty then say (resp.message ++ str "\n") else pure ()

/-- `cmdForgotPassword` from the answers on. -/
def resetWithAnswers (answers : List ByteString) : Act World Unit Unit := do
  let verifyResp ← exchange c others (verifyReq answers) "Security answers incorrect"
  tell verifyResp
  match ← attempt promptForNewSecret with
  | .error () => fail "Password/PIN reset aborted.\n"
  | .ok newSecret =>
      let resetResp ← exchange c others (resetReq newSecret answers) "Failed to reset password/PIN"
      tell resetResp

def cmdForgotPassword : Act World Unit Unit := do
  let qResp ← exchange c others qReq "Unable to start recovery"
  match shownQuestions qResp.rawFields with
  | none => fail "Security question data missing. Cannot continue.\n"
  | some questions =>
      let answers ← forEach askAnswer questions.zipIdx []
      resetWithAnswers c others answers

end Command

/-! ### What is asked -/

theorem lookup_numberedFields (name : String) (fields : Repo.Fields) (texts : List ByteString) :
    (∀ i, (numberedFields name fields texts).lookup (numbered name i) =
      texts[i]?.or (fields.lookup (numbered name i))) ∧
    ∀ key, (∀ i, key ≠ numbered name i) →
      (numberedFields name fields texts).lookup key = fields.lookup key := by
  induction texts using List.reverseRecOn with
  | nil => exact ⟨fun _ => rfl, fun _ _ => rfl⟩
  | append_singleton texts text ih =>
    have last : numberedFields name fields (texts ++ [text]) =
        (numberedFields name fields texts).insert (numbered name texts.length) text := by
      simp [numberedFields, List.zipIdx_append]
    rw [last]
    refine ⟨fun i => ?_, fun key other => ?_⟩
    · by_cases here : i = texts.length
      · subst here
        rw [AList.lookup_insert]
        simp
      · rw [AList.lookup_insert_ne fun same => here (numbered_injective _ same), ih.1]
        rcases Nat.lt_or_gt_of_ne here with inside | outside
        · rw [List.getElem?_append_left inside]
        · have beyond : (texts ++ [text]).length ≤ i := by
            rw [List.length_append, List.length_singleton]
            omega
          rw [List.getElem?_eq_none beyond, List.getElem?_eq_none (Nat.le_of_lt outside)]
    · rw [AList.lookup_insert_ne (other _), ih.2 key other]

theorem mem_numberedFields {name : String} {fields : Repo.Fields} {texts : List ByteString}
    {key : ByteString} (mem : key ∈ numberedFields name fields texts) :
    key ∈ fields ∨ ∃ i, key = numbered name i := by
  by_cases other : ∀ i, key ≠ numbered name i
  · rw [← AList.lookup_isSome, (lookup_numberedFields name fields texts).2 key other,
      AList.lookup_isSome] at mem
    exact .inl mem
  · rw [not_forall] at other
    exact .inr (other.imp fun _ => not_not.mp)

/-- A request with plain fields is read with their values as they are read back. -/
theorem parse_recovery (id : String) {fields : Repo.Fields} (plain : ∀ key ∈ fields, PlainKey key) :
    WellFormed (recoveryRequest id fields) ∧ ∃ req',
      parseRequest (serializeRequest (recoveryRequest id fields)) = .ok req' ∧
      req'.type = .ForgotPassword ∧
      ∀ key ∉ reservedKeys, req'.rawFields.lookup key = (fields.lookup key).map readBack := by
  have wellFormed : WellFormed (recoveryRequest id fields) := by
    refine ⟨fun unknown => (by cases unknown), fun _ text mem => absurd mem List.not_mem_nil,
      fun kv mem => ?_⟩
    have key : kv.1 ∈ fields := List.mem_map_of_mem (List.mem_filter.mp mem).1
    exact ⟨(plain _ key).filled, (plain _ key).trimmed, (plain _ key).fits⟩
  obtain ⟨read, of, parsed⟩ := parseRequest_serialize wellFormed
  exact ⟨wellFormed, readBase (recoveryRequest id fields) read, parsed, rfl, of.extras⟩

/-! ### Numbered texts -/

theorem mapM_eq_of_map {α β γ : Type} {f : α → Option γ} {g : β → Option γ} {l : List α}
    {l' : List β} (h : l.map f = l'.map g) : l.mapM f = l'.mapM g := by
  induction l generalizing l' with
  | nil =>
    cases l' with
    | nil => rfl
    | cons b l' => cases h
  | cons a l ih =>
    cases l' with
    | nil => cases h
    | cons b l' =>
      obtain ⟨first, rest⟩ := List.cons.inj h
      rw [List.mapM_cons, List.mapM_cons, first, ih rest]

/-- No text is blank. -/
def NoneBlank (texts : List ByteString) : Prop := ∀ text ∈ texts, readBack text ≠ []

instance (texts : List ByteString) : Decidable (NoneBlank texts) :=
  inferInstanceAs (Decidable (∀ text ∈ texts, readBack text ≠ []))

theorem noneBlank_cons {text : ByteString} {texts : List ByteString} :
    NoneBlank (text :: texts) ↔ readBack text ≠ [] ∧ NoneBlank texts := List.forall_mem_cons

/-- What is read of numbered texts, if none is blank. -/
theorem numbered_read {fields : Repo.Fields} {key : String} {texts : List ByteString}
    (read : ∀ i < texts.length, fields.lookup (numbered key i) = texts[i]?.map readBack) :
    ((List.range texts.length).mapM fun idx => filledField fields (numbered key idx)) =
      if NoneBlank texts then some (texts.map readBack) else none := by
  have same : (List.range texts.length).map (fun idx => filledField fields (numbered key idx)) =
      texts.map fun text => if readBack text = [] then none else some (readBack text) := by
    refine List.ext_getElem (by simp) fun i inside inside' => ?_
    rw [List.length_map] at inside'
    rw [List.getElem_map, List.getElem_map, List.getElem_range]
    refine filledField_eq ((read i inside').trans ?_)
    rw [List.getElem?_eq_getElem inside']
    rfl
  rw [mapM_eq_of_map same]
  clear same read
  induction texts with
  | nil => rfl
  | cons text texts ih =>
    rw [List.mapM_cons, ih]
    by_cases blank : readBack text = []
    · rw [if_pos blank, if_neg fun all => (noneBlank_cons.mp all).1 blank]
      rfl
    · rw [if_neg blank]
      by_cases all : NoneBlank texts
      · rw [if_pos all, if_pos (noneBlank_cons.mpr ⟨blank, all⟩)]
        rfl
      · rw [if_neg all, if_neg fun both => all (noneBlank_cons.mp both).2]
        rfl

/-! ### What the daemon reads -/

theorem plainKey_answers {fields : Repo.Fields} (plain : ∀ key ∈ fields, PlainKey key)
    (answers : List ByteString) : ∀ key ∈ answerFields fields answers, PlainKey key := by
  intro key mem
  rcases mem_numberedFields mem with own | ⟨i, rfl⟩
  · exact plain key own
  · exact plainKey_numbered plainKey_answer i

/-- A request as the daemon reads it: its stage, its answers and its secret. -/
structure ReadsAs (req' : Request) (stage : String) (answers : List ByteString)
    (secret : ByteString) : Prop where
  type : req'.type = .ForgotPassword
  stage : resetStage req' = str stage
  answers : collectAnswers req'.rawFields =
    if NoneBlank answers then some (answers.map readBack) else none
  secret : newSecret req' = readBack secret

theorem free_numbered (i : Nat) :
    str "reset_stage" ≠ numbered "security_a" i ∧ str "new_secret" ≠ numbered "security_a" i := by
  constructor
  · intro same
    have first := congrArg (·[0]?) same
    simp [numbered, str] at first
  · intro same
    have first := congrArg (·[0]?) same
    simp [numbered, str] at first

theorem read_answers {id stage : String} {fields : Repo.Fields} {answers : List ByteString}
    (plain : ∀ key ∈ fields, PlainKey key) (three : answers.length = SECURITY_QUESTION_COUNT)
    (known : str stage ≠ [] ∧ readBack (str stage) = str stage)
    (own : fields.lookup (str "reset_stage") = some (str stage))
    (free : ∀ i, fields.lookup (numbered "security_a" i) = none) :
    WellFormed (recoveryRequest id (answerFields fields answers)) ∧ ∃ req',
      parseRequest (serializeRequest (recoveryRequest id (answerFields fields answers))) = .ok req' ∧
      ReadsAs req' stage answers ((fields.lookup (str "new_secret")).getD []) := by
  obtain ⟨wellFormed, req', parsed, type, read⟩ :=
    parse_recovery id (plainKey_answers plain answers)
  obtain ⟨numberedOnes, others⟩ := lookup_numberedFields "security_a" fields answers
  unfold answerFields at read
  refine ⟨wellFormed, req', parsed, type, ?_, ?_, ?_⟩
  · have there := read (str "reset_stage") (by decide)
    rw [others _ fun i => (free_numbered i).1, own, Option.map_some, known.2] at there
    rw [resetStage, filledField_eq there, if_neg known.1]
    rfl
  · unfold collectAnswers
    rw [← three]
    refine numbered_read fun i small => ?_
    rw [read _ (numbered_notReserved i (three ▸ small)).2, numberedOnes, free, Option.or_none]
  · have there := read (str "new_secret") (by decide)
    rw [others _ fun i => (free_numbered i).2] at there
    rw [newSecret, there]
    cases fields.lookup (str "new_secret") with
    | none => exact (by decide : [] = readBack [])
    | some secret => rfl

theorem mem_stageFields {stage : String} {key : ByteString} :
    key ∈ (AList.singleton (str "reset_stage") (str stage) : Repo.Fields) ↔
      key = str "reset_stage" := by
  rw [AList.mem_keys, AList.keys_singleton, List.mem_singleton]

theorem plainKey_stageFields (stage : String) :
    ∀ key ∈ (AList.singleton (str "reset_stage") (str stage) : Repo.Fields), PlainKey key := by
  intro key mem
  exact mem_stageFields.mp mem ▸ plainKey_of_forall (by decide) (by decide)

theorem read_verify {answers : List ByteString} (three : answers.length = SECURITY_QUESTION_COUNT) :
    WellFormed (verifyReq answers) ∧ ∃ req',
      parseRequest (serializeRequest (verifyReq answers)) = .ok req' ∧
      ReadsAs req' "verify" answers [] := by
  refine read_answers (plainKey_stageFields "verify") three (by decide) rfl fun i => ?_
  rw [AList.lookup_eq_none, mem_stageFields]
  exact (free_numbered i).1.symm

theorem read_reset (newSecret : ByteString) {answers : List ByteString}
    (three : answers.length = SECURITY_QUESTION_COUNT) :
    WellFormed (resetReq newSecret answers) ∧ ∃ req',
      parseRequest (serializeRequest (resetReq newSecret answers)) = .ok req' ∧
      ReadsAs req' "reset" answers newSecret := by
  refine read_answers (fun key mem => ?_) three (by decide) rfl fun i => ?_
  · rw [AList.mem_insert] at mem
    rcases mem with same | stage
    · exact same ▸ plainKey_of_forall (by decide) (by decide)
    · exact plainKey_stageFields "reset" key stage
  · rw [AList.lookup_insert_ne (free_numbered i).2.symm, AList.lookup_eq_none, mem_stageFields]
    exact (free_numbered i).1.symm

theorem read_questions : WellFormed qReq ∧ ∃ req',
    parseRequest (serializeRequest qReq) = .ok req' ∧ req'.type = .ForgotPassword ∧
      resetStage req' = str "questions" ∧
      (serializeRequest qReq).length ≤ kMaxRequestBytes := by
  obtain ⟨wellFormed, req', parsed, type, read⟩ :=
    parse_recovery "forgot-questions-1" (plainKey_stageFields "questions")
  refine ⟨wellFormed, req', parsed, type, ?_, by decide⟩
  have there := read (str "reset_stage") (by decide)
  rw [resetStage, filledField_eq there]
  rfl

/-! ### What is answered -/

section Answered

variable {c : Crypto} {others : Request → Apmd → Response} {req req' : Request} {w : World}
  {d : Apmd} {fallback : String}

theorem questionsResponse_plain (req : Request) (prompts : List ByteString) :
    (questionsResponse req prompts).Plain := by
  refine ⟨rfl, fun kv mem => ?_⟩
  have key : kv.1 ∈ numberedFields "security_q" ∅ prompts := List.mem_map_of_mem (f := Sigma.fst) mem
  rcases mem_numberedFields key with none | ⟨i, same⟩
  · exact absurd none (AList.notMem_empty _)
  · have plain := plainKey_numbered plainKey_question i
    rw [same]
    refine ⟨plain.filled, plain.trimmed, plain.fits, fun slot => ?_⟩
    have eighth : (numbered "security_q" i)[8]? = some (chr '_') := rfl
    simp only [List.mem_cons, List.not_mem_nil, or_false] at slot
    rcases slot with same | same | same
    · rw [same] at eighth; cases eighth
    · rw [same] at eighth; cases eighth
    · rw [same] at eighth; cases eighth

theorem verifiedResponse_plain (req : Request) : (verifiedResponse req).Plain :=
  ⟨rfl, List.forall_mem_nil _⟩

/-- The questions that are shown, as the command reads them. -/
theorem shownQuestions_read {prompts : List ByteString}
    (three : prompts.length = SECURITY_QUESTION_COUNT) {out : Response}
    (as : ReadAs (questionsResponse req prompts) out) :
    shownQuestions (withTransport out).rawFields =
      if NoneBlank prompts then some (prompts.map readBack) else none := by
  unfold shownQuestions
  rw [← three]
  refine numbered_read fun i small => ?_
  have free : numbered "security_q" i ∉ [str "status", str "id", str "message"] ∧
      numbered "security_q" i ≠ str "transport" := by
    have small' : i < SECURITY_QUESTION_COUNT := three ▸ small
    have all : ∀ i < SECURITY_QUESTION_COUNT,
        numbered "security_q" i ∉ [str "status", str "id", str "message"] ∧
          numbered "security_q" i ≠ str "transport" := by decide
    exact all i small'
  rw [withTransport, AList.lookup_insert_ne free.2, as.fields _ free.1]
  have there := (lookup_numberedFields "security_q" ∅ prompts).1 i
  rw [AList.lookup_empty, Option.or_none] at there
  exact congrArg (Option.map readBack) there

/-- Without all answers nothing is done. -/
theorem uncollected (type : req.type = .ForgotPassword)
    (stage : resetStage req = str "verify" ∨ resetStage req = str "reset")
    (collected : collectAnswers req.rawFields = none) :
    respond c req d = .replied (failure req (str "All security questions must be answered.")) ∧
      step c d (.request req) = d := by
  obtain ⟨resp, replied, rfl, same⟩ := forgot_replied (c := c) (d := d)
    (P := fun resp d' => resp = failure req (str "All security questions must be answered.") ∧ d' = d)
    type (by
      unfold handleForgotPassword
      rcases stage with same | same
      · rw [if_neg (by rw [same]; decide), if_pos (beq_iff_eq.mpr same), collected]
        exact ⟨rfl, rfl⟩
      · rw [if_neg (by rw [same]; decide), if_neg (by rw [same]; decide),
          if_pos (beq_iff_eq.mpr same), collected]
        exact ⟨rfl, rfl⟩)
  exact ⟨replied, same⟩

/-- What can be answered to answers that were typed. -/
inductive Tried (c : Crypto) (req : Request) (answers : List ByteString) (d : Apmd) :
    Response → Apmd → Prop where
  | right {d' : Apmd} (filled : NoneBlank answers) (right : Right c d (answers.map readBack))
      (looks : Looks d d') : Tried c req answers d (verifiedResponse req) d'
  | refused {message : ByteString} {d' : Apmd}
      (wrong : ¬ (NoneBlank answers ∧ Right c d (answers.map readBack)))
      (passPin : d'.dir.passPinFile = d.dir.passPinFile) :
      Tried c req answers d (failure req message) d'

theorem tried {answers : List ByteString} {secret : ByteString}
    (reads : ReadsAs req "verify" answers secret) (d : Apmd) :
    ∃ resp, respond c req d = .replied resp ∧
      Tried c req answers d resp (step c d (.request req)) := by
  have collected := reads.answers
  by_cases filled : NoneBlank answers
  · rw [if_pos filled] at collected
    obtain ⟨resp, replied, verifying⟩ := verify_answered (c := c) (d := d) reads.type reads.stage
      collected
    refine ⟨resp, replied, ?_⟩
    generalize step c d (.request req) = d' at verifying ⊢
    cases verifying with
    | right right looks => exact .right filled right looks
    | refused wrong passPin => exact .refused (fun both => wrong both.2) passPin
  · rw [if_neg filled] at collected
    obtain ⟨replied, same⟩ := uncollected (c := c) (d := d) reads.type (.inl reads.stage) collected
    exact ⟨_, replied, same.symm ▸ .refused (fun both => filled both.1) rfl⟩

/-- What can be answered to a new secret with answers. -/
inductive Renewed (c : Crypto) (req : Request) (answers : List ByteString) (secret : ByteString)
    (d : Apmd) : Response → Apmd → Prop where
  | reset {message : String} {state : SessionState} {d' : Apmd} (filled : NoneBlank answers)
      (right : Right c d (answers.map readBack)) (holds : HoldsSecret c (readBack secret) d') :
      Renewed c req answers secret d (sessionResponse req message state) d'
  | refused {message : ByteString} {d' : Apmd}
      (cannot : ¬ (NoneBlank answers ∧ Right c d (answers.map readBack) ∧ readBack secret ≠ []))
      (passPin : d'.dir.passPinFile = d.dir.passPinFile) :
      Renewed c req answers secret d (failure req message) d'

theorem renewed {answers : List ByteString} {secret : ByteString}
    (reads : ReadsAs req "reset" answers secret) (d : Apmd) :
    ∃ resp, respond c req d = .replied resp ∧
      Renewed c req answers secret d resp (step c d (.request req)) := by
  have collected := reads.answers
  by_cases filled : NoneBlank answers
  · rw [if_pos filled] at collected
    obtain ⟨resp, replied, resetting⟩ := reset_answered (c := c) (d := d) reads.type reads.stage
      collected
    refine ⟨resp, replied, ?_⟩
    generalize step c d (.request req) = d' at resetting ⊢
    cases resetting with
    | reset right there _ configures issues =>
      exact .reset filled right (reads.secret ▸ configures.holds there issues.writes)
    | refused cannot passPin =>
      exact .refused (fun all => cannot ⟨all.2.1, reads.secret.symm ▸ all.2.2⟩) passPin
  · rw [if_neg filled] at collected
    obtain ⟨replied, same⟩ := uncollected (c := c) (d := d) reads.type (.inr reads.stage) collected
    exact ⟨_, replied, same.symm ▸ .refused (fun all => filled all.1) rfl⟩

/-! ### What the command makes of it -/

/-- A successful exchange, with what the daemon read and replied. -/
structure Succeeds (c : Crypto) (req : Request) (d : Apmd) (resp : Response) (d' : Apmd) (req' : Request)
    (reply : Response) : Prop where
  reaches : Reaches req req'
  replied : respond c req' d = .replied reply
  success : reply.success = true
  as : ∃ out, ReadAs reply out ∧ resp = withTransport out
  daemon : d' = step c d (.request req')

theorem wp_exchange (h : WellFormed req) (replies : Replies c req (w.reached c)) :
    wp (exchange c others req fallback)
      (fun resp w' => Sent c others req w w' ∧
        ∃ req' reply, Succeeds c req (w.reached c) resp w'.daemon req' reply)
      (fun _ w' => Sent c others req w w' ∧
        ∀ resp, (call c others req w).1 = .ok resp → resp.success = false) w := by
  have went := called c others (w := w) h replies
  refine wp_bind.mpr (wp_attempt.mpr (wp_mono (sent_request w) ?_ ?_))
  · rintro resp w₁ ⟨result, sent⟩
    refine wp_ite.mpr ⟨fun fails => ?_, fun success => ?_⟩
    · refine wp_bind.mpr (wp_mono (chats_complain _ w₁) (fun _ w₂ said => ?_)
        fun _ _ fails => fails.elim)
      refine ⟨sent.chats said, fun resp' same => ?_⟩
      obtain rfl := Except.ok.inj (result.symm.trans same)
      simpa using fails
    · refine ⟨sent, ?_⟩
      have success : resp.success = true := by simpa using success
      rw [result, ← sent.daemon] at went
      generalize w₁.daemon = d' at went ⊢
      generalize answer : (Except.ok resp : Except ByteString Response) = r at went
      cases went with
      | unhandled fails =>
        rw [(fails resp answer.symm).1] at success
        cases success
      | lost => cases answer
      | answered reaches replied as =>
        rename_i req' reply out
        obtain rfl := Except.ok.inj answer
        exact ⟨req', reply, reaches, replied, as.success.symm.trans success, ⟨out, as, rfl⟩, rfl⟩
  · rintro err w₁ ⟨result, sent⟩
    refine wp_bind.mpr (wp_mono (chats_complain _ w₁) (fun _ w₂ said => ?_)
      fun _ _ fails => fails.elim)
    refine ⟨sent.chats said, fun resp same => ?_⟩
    cases result.symm.trans same

/-- When nobody else is at work, a request that arrives is carried out, and its response is had. -/
theorem exchange_quiet (h : WellFormed req) (quiet : w.Quiet) (replies : Replies c req w.daemon)
    {reply : Response} (reaches : Reaches req req') (replied : respond c req' w.daemon = .replied reply) :
    wp (exchange c others req fallback)
      (fun resp w' => Sent c others req w w' ∧ w'.daemon = step c w.daemon (.request req') ∧
        reply.success = true ∧ ∃ out, ReadAs reply out ∧ resp = withTransport out)
      (fun _ w' => Sent c others req w w' ∧ w'.daemon = step c w.daemon (.request req') ∧
        reply.success = false) w := by
  obtain ⟨reply', out, again, as, sends⟩ := called_quiet c others h quiet replies
    reaches
  obtain rfl := Outcome.replied.inj (replied.symm.trans again)
  refine wp_mono (wp_exchange h (quiet.reached.symm ▸ replies)) ?_ ?_
  · rintro resp w' ⟨sent, req'', reply', went⟩
    obtain rfl : req' = req'' := Except.ok.inj (reaches.1.symm.trans went.reaches.1)
    have replied' := went.replied
    rw [quiet.reached] at replied'
    obtain rfl := Outcome.replied.inj (replied.symm.trans replied')
    exact ⟨sent, quiet.reached (c := c) ▸ went.daemon, went.success, went.as⟩
  · rintro _ w' ⟨sent, fails⟩
    refine ⟨sent, by rw [sent.daemon, sends], as.success.symm.trans (fails (withTransport out) (by rw [sends]))⟩

/-- A request that is too large does nothing. -/
theorem exchange_unreached (h : WellFormed req) (quiet : w.Quiet) (none : ∀ req', ¬ Reaches req req') :
    wp (exchange c others req fallback) (fun _ _ => False) (fun _ w' => w'.daemon = w.daemon) w := by
  refine wp_mono (wp_exchange h fun req' reaches => absurd reaches (none req')) ?_ ?_
  · rintro resp w' ⟨-, req', reply, went⟩
    exact none req' went.reaches
  · rintro _ w' ⟨sent, -⟩
    rw [sent.daemon, (called_unreached c others h none).1, quiet.reached]

end Answered

/-! ### Which lines reset the secret -/

section Recovered

variable {c : Crypto} {others : Request → Apmd → Response} {w : World}

/-- No line is empty. -/
def Typed (lines : List ByteString) : Prop := ∀ line ∈ lines, line ≠ []

theorem chats_askAnswers (questions : List (ByteString × Nat)) (answersOut : List ByteString)
    (w : World) :
    wp (forEach askAnswer questions answersOut)
      (fun out w' => ∃ answers, out = answersOut ++ answers ∧ answers.length = questions.length ∧
        Typed answers ∧ Chats answers w w')
      (fun _ w' => w'.daemon = w.daemon ∧ ∀ answers, answers.length = questions.length →
        Typed answers → ¬ w.Types answers) w := by
  induction questions generalizing answersOut w with
  | nil => exact ⟨[], (List.append_nil _).symm, rfl, List.forall_mem_nil _, Chats.refl w⟩
  | cons question questions ih =>
    -- a list of answers has a first one
    have cons (h : ∀ answer answers, answers.length = questions.length → answer ≠ [] →
        Typed answers → ¬ w.Types (answer :: answers)) : ∀ answers,
        answers.length = (question :: questions).length → Typed answers → ¬ w.Types answers := by
      intro answers length typed
      obtain ⟨answer, rest, rfl⟩ :=
        List.exists_cons_of_ne_nil (List.ne_nil_of_length_eq_add_one length)
      obtain ⟨first, others⟩ := List.forall_mem_cons.mp typed
      exact h answer rest (Nat.succ.inj length) first others
    refine wp_bind.mpr (wp_bind.mpr (wp_mono (chats_askLine _ _ w) ?_ ?_))
    · rintro answer w₁ ⟨filled, chats⟩
      refine wp_pure.mpr (wp_mono (ih _ w₁) ?_ ?_)
      · rintro out w₂ ⟨answers, rfl, length, typed, chats'⟩
        exact ⟨answer :: answers, List.append_assoc _ _ _, congrArg Nat.succ length,
          List.forall_mem_cons.mpr ⟨filled, typed⟩, chats.trans chats'⟩
      · rintro _ w₂ ⟨same, nothing⟩
        refine ⟨same.trans chats.daemon, cons fun _ answers length _ typed types => ?_⟩
        exact nothing answers length typed (chats.types_cons.mp types).2
    · rintro _ w₁ ⟨same, nothing⟩
      refine ⟨same, cons fun answer answers _ first _ ⟨rest, line⟩ => ?_⟩
      exact nothing answer first ⟨_, line⟩

theorem NoneBlank.typed {texts : List ByteString} (h : NoneBlank texts) : Typed texts := by
  rintro _ mem rfl
  exact h [] mem (by decide)

/-- The new secret is one that the answers reset. -/
structure Renews (c : Crypto) (d : Apmd) (answers : List ByteString) (secret : ByteString) :
    Prop where
  filled : NoneBlank answers
  right : Right c d (answers.map readBack)
  there : readBack secret ≠ []
  tries : (serializeRequest (verifyReq answers)).length ≤ kMaxRequestBytes
  small : (serializeRequest (resetReq secret answers)).length ≤ kMaxRequestBytes

/-- The lines that are typed reset the secret: the answers, and the new secret twice. -/
structure RecoveryLines (c : Crypto) (w : World) (answers : List ByteString) (secret : ByteString) :
    Prop where
  typed : w.Types (answers ++ [secret, secret])
  three : answers.length = SECURITY_QUESTION_COUNT
  shown : ∃ stored, Opens c w.daemon stored ∧ NoneBlank (stored.map (·.prompt))
  renews : Renews c w.daemon answers secret

/-- The answers are right for the questions, before and after they are looked at. -/
theorem right_looks {d d' : Apmd} {key : ByteString} {given : List ByteString} (keyOf : KeyOf d key)
    (looks : Looks d d') (opens : ∃ stored, Opens c d stored) : Right c d' given ↔ Right c d given := by
  obtain ⟨stored, opens⟩ := opens
  have opens' := opens.looks keyOf looks
  constructor
  · rintro ⟨stored', there, right⟩
    obtain rfl : stored' = stored := Except.ok.inj (there.symm.trans opens')
    exact ⟨_, opens, right⟩
  · rintro ⟨stored', there, right⟩
    obtain rfl : stored' = stored := Except.ok.inj (there.symm.trans opens)
    exact ⟨_, opens', right⟩

theorem verify_replies {answers : List ByteString} (three : answers.length = SECURITY_QUESTION_COUNT)
    (d : Apmd) : Replies c (verifyReq answers) d := by
  rintro req' ⟨parsed, -⟩
  obtain ⟨-, req'', parsed', reads⟩ := read_verify three
  obtain rfl : req'' = req' := Except.ok.inj (parsed'.symm.trans parsed)
  obtain ⟨resp, replied, went⟩ := tried (c := c) reads d
  refine ⟨resp, replied, ?_⟩
  cases went with
  | right => exact verifiedResponse_plain _
  | refused => exact failure_plain _ _

theorem reset_replies {newSecret : ByteString} {answers : List ByteString}
    (three : answers.length = SECURITY_QUESTION_COUNT) (d : Apmd) :
    Replies c (resetReq newSecret answers) d := by
  rintro req' ⟨parsed, -⟩
  obtain ⟨-, req'', parsed', reads⟩ := read_reset newSecret three
  obtain rfl : req'' = req' := Except.ok.inj (parsed'.symm.trans parsed)
  obtain ⟨resp, replied, went⟩ := renewed (c := c) reads d
  refine ⟨resp, replied, ?_⟩
  cases went with
  | reset => exact sessionResponse_plain _ _ _
  | refused => exact failure_plain _ _

theorem questions_replies (d : Apmd) : Replies c qReq d := by
  rintro req' ⟨parsed, -⟩
  obtain ⟨-, req'', parsed', type, stage, -⟩ := read_questions
  obtain rfl : req'' = req' := Except.ok.inj (parsed'.symm.trans parsed)
  obtain ⟨resp, replied, went⟩ := questions_answered (c := c) (d := d) type stage
  refine ⟨resp, replied, ?_⟩
  cases went with
  | shown => exact questionsResponse_plain _ _
  | refused => exact failure_plain _ _

theorem wp_tell {Q : Unit → World → Prop} {E : Unit → World → Prop} {resp : Response}
    (h : ∀ w', Chats [] w w' → Q () w') : wp (tell resp) Q E w :=
  wp_ite.mpr ⟨fun _ => wp_mono (chats_say _ w) (fun _ w' said => h w' said)
    fun _ _ fails => fails.elim, fun _ => h w (Chats.refl w)⟩

theorem typed_of_readBack {text : ByteString} (there : readBack text ≠ []) : text ≠ [] := by
  rintro rfl
  exact there (by decide)

theorem resetWithAnswers_iff {key : ByteString} (keyOf : KeyOf w.daemon key) (quiet : w.Quiet)
    (opens : ∃ stored, Opens c w.daemon stored) {answers : List ByteString}
    (three : answers.length = SECURITY_QUESTION_COUNT) :
    wp (resetWithAnswers c others answers)
      (fun _ w' => ∃ secret, w.Types [secret, secret] ∧ Renews c w.daemon answers secret ∧
        HoldsSecret c (readBack secret) w'.daemon)
      (fun _ w' => w'.daemon.dir.passPinFile = w.daemon.dir.passPinFile ∧
        ∀ secret, w.Types [secret, secret] → ¬ Renews c w.daemon answers secret) w := by
  obtain ⟨wellFormed, req', parsed, reads⟩ := read_verify three
  by_cases tries : (serializeRequest (verifyReq answers)).length ≤ kMaxRequestBytes
  swap
  · refine wp_bind.mpr (wp_mono (exchange_unreached wellFormed quiet fun _ reaches =>
      tries reaches.2) (fun _ _ fails => fails.elim) fun _ w' same => ?_)
    exact ⟨congrArg (·.dir.passPinFile) same, fun secret _ renews => tries renews.tries⟩
  obtain ⟨reply, replied, went⟩ := tried (c := c) reads w.daemon
  refine wp_bind.mpr (wp_mono (exchange_quiet wellFormed quiet (verify_replies three _)
    ⟨parsed, tries⟩ replied) ?_ ?_)
  · rintro resp w₁ ⟨sent, daemon, success, -⟩
    rw [← daemon] at went
    generalize same : w₁.daemon = d₁ at went
    cases went with
    | refused => cases success
    | right filled right looks =>
      subst same
      refine wp_bind.mpr (wp_tell fun w₂ said => ?_)
      have quiet₂ := said.quiet (sent.quiet quiet)
      have types {lines : List ByteString} : w₂.Types lines ↔ w.Types lines :=
        said.types_same.symm.trans sent.types
      refine wp_bind.mpr (wp_attempt.mpr (wp_mono (chats_promptForNewSecret w₂) ?_ ?_))
      · rintro secret w₃ ⟨there, chats⟩
        have daemon₃ : w₃.daemon = w₁.daemon := chats.daemon.trans said.daemon
        have quiet₃ := chats.quiet quiet₂
        obtain ⟨wellFormed', req'', parsed', reads'⟩ := read_reset secret three
        -- the answers are still right, and the lines are these
        have right' : Right c w₃.daemon (answers.map readBack) :=
          daemon₃.symm ▸ (right_looks keyOf looks opens).mpr right
        have unique {secret' : ByteString} (typed : w.Types [secret', secret']) : secret' = secret :=
          (List.cons.inj ((types.mpr typed).unique chats.types rfl)).1
        by_cases small : (serializeRequest (resetReq secret answers)).length ≤ kMaxRequestBytes
        swap
        · refine wp_bind.mpr (wp_mono (exchange_unreached wellFormed' quiet₃ fun _ reaches =>
            small reaches.2) (fun _ _ fails => fails.elim) fun _ w' same => ?_)
          refine ⟨?_, fun secret' typed renews => ?_⟩
          · rw [same, daemon₃, looks.passPin]
          · obtain rfl := unique typed
            exact small renews.small
        obtain ⟨reply', replied', went'⟩ := renewed (c := c) reads' w₃.daemon
        refine wp_bind.mpr (wp_mono (exchange_quiet wellFormed' quiet₃ (reset_replies three _)
          ⟨parsed', small⟩ replied') ?_ ?_)
        · rintro resp' w₄ ⟨-, daemon', success', -⟩
          rw [← daemon'] at went'
          generalize same' : w₄.daemon = d₄ at went'
          cases went' with
          | refused => cases success'
          | reset _ _ holds =>
            refine wp_tell fun w₅ said' => ⟨secret, types.mp chats.types, ?_, ?_⟩
            · exact ⟨filled, right, fun blank => holds.1 blank, tries, small⟩
            · rw [said'.daemon, same']
              exact holds
        · rintro _ w₄ ⟨-, daemon', fails'⟩
          rw [← daemon'] at went'
          generalize same' : w₄.daemon = d₄ at went'
          cases went' with
          | reset => cases fails'
          | refused cannot passPin =>
            refine ⟨?_, fun secret' typed renews => ?_⟩
            · rw [passPin, daemon₃, looks.passPin]
            · obtain rfl := unique typed
              exact cannot ⟨filled, right', renews.there⟩
      · rintro _ w₃ ⟨same, nothing⟩
        refine wp_mono (fails_fail _ rfl trivial) (fun _ _ h => h) fun _ w₄ h => ⟨?_, ?_⟩
        · rw [h.1, same, said.daemon, looks.passPin]
        · intro secret typed renews
          exact nothing secret (typed_of_readBack renews.there) (types.mpr typed)
  · rintro _ w₁ ⟨-, daemon, fails⟩
    rw [← daemon] at went
    generalize same : w₁.daemon = d₁ at went
    cases went with
    | right => cases fails
    | refused wrong passPin =>
      exact ⟨passPin, fun secret _ renews => wrong ⟨renews.filled, renews.right⟩⟩

end Recovered

section Commands

variable {c : Crypto} {others : Request → Apmd → Response} {w : World}

theorem opens_length {d : Apmd} {stored : List StoredQuestion} (opens : Opens c d stored) :
    stored.length = SECURITY_QUESTION_COUNT := by
  have run := loadUnlocked_opens c d
  unfold wp at run
  split at run
  · rename_i stored' d' ran
    have same : (exec (loadUnlocked c d.now) d).1 = .ok stored' := congrArg Prod.fst ran
    obtain rfl : stored = stored' := Except.ok.inj (opens.symm.trans same)
    exact run.2.2.1
  · exact absurd opens (run.1 stored)

/-- The daemon when the request of a number arrives, from the state that the one before left. -/
def World.turned (c : Crypto) (w : World) (n : Nat) (d : Apmd) : Apmd :=
  Run.run (step c) d (w.turns (w.calls + n)).before

/-- A recovery, with what the daemon is after each of its requests. The answers are right each time
that they are looked at. -/
structure Recovered (c : Crypto) (w : World) (answers : List ByteString) (secret : ByteString)
    (d₁ d₂ d₃ : Apmd) : Prop where
  typed : w.Types (answers ++ [secret, secret])
  three : answers.length = SECURITY_QUESTION_COUNT
  asks : ∃ req', Reaches qReq req' ∧ d₁ = step c (w.turned c 0 w.daemon) (.request req')
  tries : ∃ req', Reaches (verifyReq answers) req' ∧ d₂ = step c (w.turned c 1 d₁) (.request req')
  tried : Right c (w.turned c 1 d₁) (answers.map readBack)
  resets : ∃ req', Reaches (resetReq secret answers) req' ∧
    d₃ = step c (w.turned c 2 d₂) (.request req')
  right : Right c (w.turned c 2 d₂) (answers.map readBack)
  holds : HoldsSecret c (readBack secret) d₃

/-- **A recovery takes the right answers**, whatever others do between its requests and wherever
connections fail. -/
theorem recovery_needs_answers (c : Crypto) (others : Request → Apmd → Response) (w : World) :
    wp (cmdForgotPassword c others)
      (fun _ w' => ∃ answers secret d₁ d₂, Recovered c w answers secret d₁ d₂ w'.daemon)
      (fun _ _ => True) w := by
  refine wp_bind.mpr (wp_mono (wp_exchange read_questions.1 (questions_replies _)) ?_
    fun _ _ _ => trivial)
  rintro resp w₁ ⟨sent, req₁, reply₁, went₁⟩
  cases shown : shownQuestions resp.rawFields with
  | none => exact wp_mono (fails_fail _ rfl trivial) (fun _ _ h => h) fun _ _ _ => trivial
  | some questions =>
    dsimp only
    have length : questions.zipIdx.length = SECURITY_QUESTION_COUNT := by
      rw [List.length_zipIdx]
      exact (forall₂_of_mapM shown).length_eq.symm.trans List.length_range
    refine wp_bind.mpr (wp_mono (chats_askAnswers _ [] w₁) ?_ fun _ _ _ => trivial)
    rintro answers w₂ ⟨out, rfl, many, -, chats⟩
    have three : answers.length = SECURITY_QUESTION_COUNT := many.trans length
    obtain ⟨wellFormed₂, req', parsed, reads⟩ := read_verify three
    refine wp_bind.mpr (wp_mono (wp_exchange wellFormed₂ (verify_replies three _)) ?_
      fun _ _ _ => trivial)
    rintro resp₂ w₃ ⟨sent₂, req₂, reply₂, went₂⟩
    have reached₂ : w₂.reached c = w.turned c 1 w₁.daemon := by
      rw [World.reached, World.turned, chats.daemon, chats.turns, chats.calls, sent.turns, sent.calls]
    have tried' : Right c (w.turned c 1 w₁.daemon) (answers.map readBack) := by
      obtain rfl : req' = req₂ := Except.ok.inj (parsed.symm.trans went₂.reaches.1)
      obtain ⟨reply, replied, answered⟩ := tried (c := c) reads (w₂.reached c)
      obtain rfl := Outcome.replied.inj (replied.symm.trans went₂.replied)
      have success := went₂.success
      generalize step c (w₂.reached c) (.request req') = d at answered
      cases answered with
      | right _ right => exact reached₂ ▸ right
      | refused => cases success
    refine wp_bind.mpr (wp_tell fun w₄ said => ?_)
    refine wp_bind.mpr (wp_attempt.mpr (wp_mono (chats_promptForNewSecret w₄) ?_ fun _ w₅ _ => ?_))
    swap
    · exact wp_mono (fails_fail _ rfl trivial) (fun _ _ h => h) fun _ _ _ => trivial
    rintro secret w₅ ⟨-, chats'⟩
    obtain ⟨wellFormed₃, req'', parsed', reads'⟩ := read_reset secret three
    refine wp_bind.mpr (wp_mono (wp_exchange wellFormed₃ (reset_replies three _)) ?_
      fun _ _ _ => trivial)
    rintro resp₃ w₆ ⟨sent₃, req₃, reply₃, went₃⟩
    have reached₃ : w₅.reached c = w.turned c 2 w₃.daemon := by
      rw [World.reached, World.turned, chats'.daemon, chats'.turns, chats'.calls, said.daemon,
        said.turns, said.calls, sent₂.turns, sent₂.calls, chats.turns, chats.calls, sent.turns,
        sent.calls]
    refine wp_tell fun w₇ said' => ⟨answers, secret, w₁.daemon, w₃.daemon, ?_⟩
    obtain rfl : req'' = req₃ := Except.ok.inj (parsed'.symm.trans went₃.reaches.1)
    obtain ⟨reply, replied, answered⟩ := renewed (c := c) reads' (w₅.reached c)
    obtain rfl := Outcome.replied.inj (replied.symm.trans went₃.replied)
    have success := went₃.success
    have daemon₇ : w₇.daemon = step c (w₅.reached c) (.request req'') :=
      said'.daemon.trans went₃.daemon
    rw [← daemon₇] at answered
    generalize same : w₇.daemon = d₃ at answered daemon₇ ⊢
    cases answered with
    | refused => cases success
    | reset _ right holds =>
      have types : w₃.Types [secret, secret] := said.types_append.mpr chats'.types
      refine ⟨?_, three, ⟨req₁, went₁.reaches, went₁.daemon⟩, ⟨req₂, went₂.reaches, ?_⟩, tried',
        ⟨req'', went₃.reaches, ?_⟩, reached₃ ▸ right, holds⟩
      · exact sent.types.mp (chats.types_append.mpr (sent₂.types.mp types))
      · exact reached₂ ▸ went₂.daemon
      · exact reached₃ ▸ daemon₇

end Commands

end Apm.Cli
