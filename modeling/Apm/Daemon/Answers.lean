import Apm.Daemon.Lockout
import Apm.Daemon.QuestionText
import Apm.Daemon.Secret
import Apm.Daemon.SharedSession

/-!
What the daemon answers to requests about the secret, exactly: `Handles` says what a request can
do, the lemmas here which of it happens.

## Main results

* `unlock_answered`, `set_answered`: a secret unlocks when it is verified, and is set when it can
  be, with its questions;
* `questions_answered`, `verify_answered`, `reset_answered`: the stages of a recovery;
* `opens_iff`: which questions are asked, by the files alone;
* `HoldsSecret.step`, `HoldsQuestions.step`: what is set stays, until it is reset or wiped;
* `KeyFileWhole.step`: the key can always be used.
-/

namespace Apm.Daemon

open Apm.Ipc Apm.Lib Apm.Lib.Effect Apm.Security

section Answers

variable {c : Crypto} {req : Request} {d : Apmd} {key : ByteString}

/-! ### Replies -/

theorem authenticate_replied {P : Response → Apmd → Prop} (type : req.type = .Authenticate)
    (h : wp (handleAuthenticate c req) P (fun _ _ => False) d) :
    ∃ resp, respond c req d = .replied resp ∧ P resp (step c d (.request req)) := by
  have gate : requiresAuth req.type = false := by rw [type]; rfl
  have run : wp (handleRequest c req) (fun o d' => ∃ resp, o = .replied resp ∧ P resp d')
      (fun _ _ => False) d := by
    unfold handleRequest dispatch
    rw [gate, type]
    exact wp_bind.mpr (wp_mono h (fun resp _ there => ⟨resp, rfl, there⟩) fun _ _ fails => fails)
  unfold wp at run
  unfold respond step
  dsimp only
  split at run
  · rename_i o d' ran
    rw [ran]
    exact run
  · exact run.elim

theorem forgot_replied {P : Response → Apmd → Prop} (type : req.type = .ForgotPassword)
    (h : wp (handleForgotPassword c req) P (fun _ _ => False) d) :
    ∃ resp, respond c req d = .replied resp ∧ P resp (step c d (.request req)) := by
  have gate : requiresAuth req.type = false := by rw [type]; rfl
  have run : wp (handleRequest c req) (fun o d' => ∃ resp, o = .replied resp ∧ P resp d')
      (fun _ _ => False) d := by
    unfold handleRequest dispatch
    rw [gate, type]
    exact wp_bind.mpr (wp_mono h (fun resp _ there => ⟨resp, rfl, there⟩) fun _ _ fails => fails)
  unfold wp at run
  unfold respond step
  dsimp only
  split at run
  · rename_i o d' ran
    rw [ran]
    exact run
  · exact run.elim

/-- A failure leaves the secret as it is. -/
theorem passPin_of_failure {resp : Response} (replied : respond c req d = .replied resp)
    (fails : resp.success = false) :
    (step c d (.request req)).dir.passPinFile = d.dir.passPinFile := by
  have handles := step_handles c req d
  rw [replied] at handles
  generalize step c d (.request req) = d' at handles ⊢
  cases handles with
  | notAuthenticated _ ready => exact ready.passPin
  | setUndone _ _ _ ready => exact ready.passPin
  | unlocked => cases fails
  | set => cases fails
  | looked _ looks => exact looks.passPin
  | wrong _ looks => exact looks.passPin
  | reset => cases fails

/-! ### The key -/

/-- The master key is there, or it can be made. -/
def KeyUsable (d : Apmd) : Prop :=
  (∃ key, KeyOf d key) ∨ d.masterKey = none ∧ d.dir.masterKeyFile = none

theorem ensureMasterKey_usable (usable : KeyUsable d) :
    wp (ensureMasterKey c) (fun key d' => Readies d d' ∧ d'.masterKey = some key)
      (fun _ _ => False) d := by
  rcases usable with ⟨key, keyOf⟩ | ⟨memory, file⟩
  · have spec := wp_and (wp_exec (ensureMasterKey c) d) (ensureMasterKey_spec c d)
    refine wp_mono spec (fun _ _ h => h.2) fun e d' h => ?_
    have run := keyOf.ensureMasterKey (c := c)
    rw [h.1] at run
    cases run
  · refine wp_bind.mpr (wp_update.mpr ?_)
    dsimp only
    rw [memory, file]
    exact ⟨⟨.loaded _ memory rfl rfl (c.random_length _ _) (.inl file), rfl, rfl, rfl, rfl, rfl⟩,
      rfl⟩

/-- The key that is used stays the one that is used. -/
theorem KeyOf.ready {d' : Apmd} (h : KeyOf d key) (ready : KeyReady d d') : KeyOf d' key := by
  cases ready with
  | same memory file =>
    rcases h with there | ⟨absent, onDisk, length⟩
    · exact .inl (memory.trans there)
    · exact .inr ⟨memory.trans absent, file.trans onDisk, length⟩
  | loaded key' before memory _ _ source =>
    rcases h with there | ⟨-, onDisk, -⟩
    · rw [before] at there
      cases there
    · rcases source with gone | same
      · rw [gone] at onDisk
        cases onDisk
      · rw [same] at onDisk
        exact .inl (memory.trans onDisk)

theorem KeyUsable.ready {d' : Apmd} (h : KeyUsable d) (ready : KeyReady d d') : KeyUsable d' := by
  rcases h with ⟨key, keyOf⟩ | ⟨memory, file⟩
  · exact .inl ⟨key, keyOf.ready ready⟩
  · cases ready with
    | same memory' file' => exact .inr ⟨memory'.trans memory, file'.trans file⟩
    | loaded key' _ memory' => exact .inl ⟨key', .inl memory'⟩

/-- A secret that was verified leaves the key in memory. -/
theorem decryptFile_memory (corrupted : String) (raw : ByteString) :
    wp (decryptFile c corrupted raw) (fun _ d' => d'.masterKey.isSome) (fun _ _ => True) d := by
  refine wp_ite.mpr ⟨fun _ => trivial, fun _ => wp_bind.mpr ?_⟩
  refine wp_mono (ensureMasterKey_spec c d) (fun key d₁ h => ?_) fun _ _ _ => trivial
  refine wp_ite.mpr ⟨fun _ => trivial, fun _ => wp_ite.mpr ⟨fun _ => trivial, fun _ => ?_⟩⟩
  split
  · trivial
  · exact Option.isSome_of_eq_some h.2

/-! ### Unlocking -/

/-- Without a secret none is verified. -/
theorem not_verifies_of_unset (unset : d.dir.passPinFile = none) (secret : ByteString) :
    ¬ Verifies c d secret := by
  have fails : (exec (decryptPasspin c) d).1 = .error (str "Password/PIN not configured") := by
    rw [decryptPasspin, exec_bind_of_ok (a := d) rfl, unset]
    rfl
  unfold Verifies verifySecret
  split
  · exact error_ne_ok
  · rw [exec_bind_of_error fails]
    exact error_ne_ok

theorem verifySecret_answered (secret : ByteString) :
    wp (verifySecret c secret)
      (fun _ d' => Verifies c d secret ∧ Readies d d' ∧ d'.masterKey.isSome)
      (fun e d' => ¬ Verifies c d secret ∧ Readies d d' ∧
        (d.dir.passPinFile = none → secret ≠ [] → e = str "Password/PIN not configured")) d := by
  have memory : wp (verifySecret c secret) (fun _ d' => d'.masterKey.isSome)
      (fun e _ => d.dir.passPinFile = none → secret ≠ [] →
        e = str "Password/PIN not configured") d := by
    refine wp_ite.mpr ⟨fun empty _ filled => absurd (List.isEmpty_iff.mp empty) filled,
      fun _ => wp_bind.mpr (wp_bind.mpr (wp_update.mpr ?_))⟩
    dsimp only
    cases file : d.dir.passPinFile with
    | none => exact fun _ _ => rfl
    | some raw =>
      refine wp_bind.mpr (wp_mono (decryptFile_memory _ raw) (fun plain d₁ there => ?_)
        fun _ _ _ none => ?_)
      · refine wp_ite.mpr ⟨fun _ none => ?_, fun _ => wp_ite.mpr ⟨fun _ none => ?_, fun _ => there⟩⟩
        · cases none
        · cases none
      · cases none
  refine wp_mono (wp_and (wp_exec _ d) (wp_and memory ((verifySecret_readies c secret).wp d))) ?_ ?_
  · rintro _ d' ⟨run, there, ready⟩
    exact ⟨congrArg Prod.fst run, ready, there⟩
  · rintro e d' ⟨run, unset, ready⟩
    refine ⟨fun verified => ?_, ready, unset⟩
    rw [Verifies, run] at verified
    cases verified

/-- A session is written that the key in memory has signed. -/
structure Issues (c : Crypto) (d : Apmd) (state : SessionState) (d' : Apmd) : Prop where
  writes : WritesSession d state d'
  genuine : ∃ key, d'.masterKey = some key ∧ state.hmac = hmacOf c key state

/-- A session is issued with the key in memory. -/
theorem issueSession_memory (memory : d.masterKey.isSome) :
    wp (issueSession c) (fun state d' => Issues c d state d') (fun _ _ => False) d := by
  obtain ⟨key, there⟩ := Option.isSome_iff_exists.mp memory
  refine wp_mono (wp_and (wp_exec _ d) (issueSession_spec c d)) ?_ fun _ _ h => ?_
  · rintro state d' ⟨run, writes⟩
    rw [exec_issueSession there] at run
    cases run
    exact ⟨writes, key, there, rfl⟩
  · rw [h.2.2] at there
    cases there

theorem Issues.of_readies {d₁ d' : Apmd} {state : SessionState} (h : Issues c d₁ state d')
    (ready : Readies d d₁) : Issues c d state d' := ⟨h.writes.of_readies ready, h.genuine⟩

/-- **An issued session is accepted** up to its end. -/
theorem Issues.accepted {d' : Apmd} {state : SessionState} (h : Issues c d state d')
    {now : UnixSeconds} (soon : now.val < state.expiresAt) (gate : requiresAuth req.type = true)
    (token : req.sessionToken = state.token) : (respond c req { d' with now }).passed = true := by
  obtain ⟨⟨d₁, ready, fits, expires, rfl⟩, key, memory, genuine⟩ := h
  generalize file : ({ d₁ with
    dir := { d₁.dir with sessionFile := some (serializeSession state) }, now } : Apmd) = e
  have memory' : e.masterKey = some key := file ▸ memory
  have holds : Holds e state :=
    ⟨_, file ▸ rfl, parseSession_serializeSession fits⟩
  have load := wp_and (wp_exec (loadForToken state.token) e) (loadForToken_spec state.token e)
  have loads : exec (loadForToken state.token) e = (.ok state, e) := by
    have run := exec_loadForToken.mpr ⟨fits.token.filled, holds⟩
    unfold wp at load
    cases ran : exec (loadForToken state.token) e with
    | mk result d₂ =>
      rw [ran] at run load
      dsimp only at run
      subst run
      exact Prod.ext rfl load.2.1
  have checks := (exec_checkSession (c := c) memory' genuine state.token e.now).mpr
    ⟨rfl, file ▸ soon⟩
  have validated : (exec (validateSessionToken c state.token) e).1 = .ok () := by
    unfold validateSessionToken
    rw [exec_bind, loads]
    dsimp only
    rw [exec_bind_of_ok (a := e) rfl]
    change (exec (do
      checkSession c state.token e.now state
      writeSession (← signed c state.token e.now)) e).1 = .ok ()
    rw [exec_bind_of_ok checks, exec_bind, exec_signed (c := c)
      ((checkSession_readies c state.token e.now state e).memory memory')]
    rfl
  have auth : req.type ≠ .Authenticate := fun same => by rw [same] at gate; cases gate
  have forgot : req.type ≠ .ForgotPassword := fun same => by rw [same] at gate; cases gate
  unfold respond
  rw [handleRequest, gate, if_pos rfl, token]
  have attempted : (exec (attempt (validateSessionToken c state.token) :
      Act Apmd Empty (Except ByteString Unit)) e).1 = .ok (.ok ()) := congrArg Except.ok validated
  rw [exec_bind_of_ok attempted]
  dsimp only
  by_cases reset : req.type = .FactoryReset
  · rw [exec_dispatch_factoryReset c req reset]
    rfl
  · rw [exec_dispatch_other c req auth forgot reset]
    rfl

/-- What can be answered to a secret. -/
inductive Unlocking (c : Crypto) (req : Request) (d : Apmd) : Response → Apmd → Prop where
  | unlocked {state : SessionState} {d' : Apmd} (verified : Verifies c d req.authSecret)
      (issues : Issues c d state d') :
      Unlocking c req d (sessionResponse req "Session unlocked." state) d'
  | refused {message : ByteString} {d' : Apmd} (wrong : ¬ Verifies c d req.authSecret)
      (ready : Readies d d') (unset : d.dir.passPinFile = none → req.authSecret ≠ [] →
        message = str "Password/PIN not configured") :
      Unlocking c req d (failure req message) d'

/-- **A secret unlocks exactly when it is verified.** -/
theorem unlock_answered (type : req.type = .Authenticate) (action : req.authAction = str "unlock") :
    ∃ resp, respond c req d = .replied resp ∧
      Unlocking c req d resp (step c d (.request req)) := by
  refine authenticate_replied type ?_
  have other : (req.authAction == str "set") = false := by rw [action]; decide
  have same : authenticate c req.authAction req.authSecret [] =
      (do verifySecret c req.authSecret; issueSession c) := by
    rw [action]
    rfl
  unfold handleAuthenticate replyAuthenticate
  rw [other, if_neg Bool.false_ne_true, if_neg Bool.false_ne_true, same]
  refine wp_bind.mpr (wp_attempt.mpr (wp_bind.mpr
    (wp_mono (verifySecret_answered req.authSecret) ?_ ?_)))
  · rintro _ d₁ ⟨verified, ready, memory⟩
    exact wp_mono (issueSession_memory memory)
      (fun state d' issues => .unlocked verified (issues.of_readies ready)) fun _ _ fails => fails.elim
  · rintro e d' ⟨wrong, ready, unset⟩
    refine .refused wrong ready fun none filled => ?_
    rw [unset none filled]
    rfl

/-! ### Setting -/

/-- The file holds the text, sealed under the key. -/
def SealedUnder (c : Crypto) (key text raw : ByteString) : Prop :=
  ∃ iv, iv.length = kGcmIvLen ∧ raw = sealedText (iv, c.gcmSeal key iv text)

theorem encrypt_usable (usable : KeyUsable d) (plain : ByteString) :
    wp (encrypt c plain)
      (fun parts d' => Readies d d' ∧ ∃ key, d'.masterKey = some key ∧
        SealedUnder c key plain (sealedText parts)) (fun _ _ => False) d := by
  refine wp_bind.mpr (wp_mono (ensureMasterKey_usable usable) ?_ fun _ _ fails => fails)
  rintro key d₁ ⟨ready, memory⟩
  exact ⟨trans_of Readies ready (randomBytes_readies c kGcmIvLen d₁), key, memory, _,
    c.random_length _ _, rfl⟩

/-- **Questions that can be stored are stored**, as their text says, and others are not. -/
theorem persistSecurityQuestions_answered (usable : KeyUsable d)
    {questions : List (ByteString × ByteString)}
    (three : questions.length = SECURITY_QUESTION_COUNT) :
    wp (persistSecurityQuestions c questions)
      (fun _ d' => (∀ qa ∈ questions, Storable qa) ∧ ∃ key raw draw d₁, Readies d d₁ ∧
        d₁.masterKey = some key ∧ d' = withQuestions d₁ (some raw) ∧
        SealedUnder c key (questionsText (storedQuestions c draw questions)) raw)
      (fun _ d' => (¬ ∀ qa ∈ questions, Storable qa) ∧ Readies d d') d := by
  refine wp_ite.mpr ⟨fun long => absurd three (bne_iff_ne.mp long), fun _ => ?_⟩
  refine wp_bind.mpr (wp_mono (ensureMasterKey_usable usable) ?_ fun _ _ fails => fails.elim)
  rintro key d₁ ⟨ready, memory⟩
  have loop : wp (forEach (writeQuestion c) questions [])
      (fun plain d' => (∀ qa ∈ questions, Storable qa) ∧ Readies d₁ d' ∧
        plain = questionsText (storedQuestions c d₁.draws questions))
      (fun _ d' => (¬ ∀ qa ∈ questions, Storable qa) ∧ Readies d₁ d') d₁ := by
    have keeps : wp (forEach (writeQuestion c) questions [])
        (fun _ d' => (∀ qa ∈ questions, Storable qa) ∧ Readies d₁ d')
        (fun _ d' => (¬ ∀ qa ∈ questions, Storable qa) ∧ Readies d₁ d') d₁ := by
      refine wp_forEach_done (fun done _ d' => (∀ qa ∈ done, Storable qa) ∧ Readies d₁ d')
        (fun done qa rest split plain d₂ h => ?_) ⟨List.forall_mem_nil _, refl_of Readies d₁⟩
      refine wp_mono (writeQuestion_spec c qa plain d₂) (fun _ d₃ h₃ => ?_) fun _ d₃ h₃ => ?_
      · exact ⟨List.forall_mem_append.mpr ⟨h.1, List.forall_mem_singleton.mpr h₃.1⟩,
          trans_of Readies h.2 h₃.2⟩
      · refine ⟨fun all => h₃.1 (all qa ?_), trans_of Readies h.2 h₃.2⟩
        exact split ▸ List.mem_append_right _ List.mem_cons_self
    refine wp_mono (wp_and (wp_exec _ d₁) keeps) ?_ fun _ _ h => h.2
    rintro plain d₂ ⟨run, storable, ready'⟩
    refine ⟨storable, ready', ?_⟩
    have text := exec_writeQuestions c storable [] d₁
    rw [run] at text
    exact Except.ok.inj text
  refine wp_bind.mpr (wp_mono loop ?_ fun _ _ h => ⟨h.1, trans_of Readies ready h.2⟩)
  rintro plain d₂ ⟨storable, ready', rfl⟩
  have memory₂ := ready'.memory memory
  refine wp_bind.mpr (wp_mono (encrypt_usable (.inl ⟨key, .inl memory₂⟩) _) ?_
    fun _ _ fails => fails.elim)
  rintro parts d₃ ⟨ready'', key', memory₃, seals⟩
  exact ⟨storable, key', _, d₁.draws, d₃,
    trans_of Readies ready (trans_of Readies ready' ready''), memory₃, rfl, seals⟩

/-- The device holds the secret, under the key that it uses. -/
def HoldsSecret (c : Crypto) (secret : ByteString) (d : Apmd) : Prop :=
  secret ≠ [] ∧ ∃ key raw, KeyOf d key ∧ d.dir.passPinFile = some raw ∧ SealedFor c key secret raw

/-- The device holds the questions for a secret that is set. -/
def HoldsQuestions (c : Crypto) (stored : List StoredQuestion) (d : Apmd) : Prop :=
  d.dir.passPinFile.isSome ∧ ∃ key raw, KeyOf d key ∧ d.dir.securityQaFile = some raw ∧
    SealedUnder c key (questionsText stored) raw

/-- A secret can be set: none is there, and it and its questions can be stored. -/
structure CanSet (d : Apmd) (secret : ByteString) (questions : List (ByteString × ByteString)) :
    Prop where
  free : d.dir.passPinFile = none
  filled : secret ≠ []
  storable : ∀ qa ∈ questions, Storable qa

/-- What can be answered to a new secret. -/
inductive Setting (c : Crypto) (req : Request) (questions : List (ByteString × ByteString))
    (d : Apmd) : Response → Apmd → Prop where
  | saved {state : SessionState} {draw : Nat} {d₁ d' : Apmd}
      (can : CanSet d req.authSecret questions)
      (secret : HoldsSecret c req.authSecret d')
      (held : HoldsQuestions c (storedQuestions c draw questions) d')
      (now : d₁.now = d.now) (issues : Issues c d₁ state d') :
      Setting c req questions d
        (sessionResponse req "Password/PIN saved. Session active." state) d'
  | refused {message : ByteString} {d' : Apmd} (cannot : ¬ CanSet d req.authSecret questions) :
      Setting c req questions d (failure req message) d'

/-- **A secret is set exactly when it can be**, and then it is there with its questions. -/
theorem set_answered (type : req.type = .Authenticate) (action : req.authAction = str "set")
    (usable : KeyUsable d) {questions : List (ByteString × ByteString)}
    (collected : collectQuestions req.rawFields = some questions) :
    ∃ resp, respond c req d = .replied resp ∧
      Setting c req questions d resp (step c d (.request req)) := by
  refine authenticate_replied type ?_
  have three := collectQuestions_length collected
  have set : (req.authAction == str "set") = true := beq_iff_eq.mpr action
  have same : authenticate c req.authAction req.authSecret questions =
      (do setSecret c req.authSecret questions; issueSession c) := by
    rw [action]
    rfl
  unfold handleAuthenticate
  rw [if_pos set, collected]
  dsimp only
  unfold replyAuthenticate
  rw [same, if_pos set]
  refine wp_bind.mpr (wp_attempt.mpr (wp_bind.mpr (wp_bind.mpr (wp_isPasspinConfigured.mpr
    (wp_ite.mpr ⟨fun there => ?_, fun absent => ?_⟩)))))
  · refine .refused fun can => ?_
    rw [can.free] at there
    cases there
  rw [Option.not_isSome_iff_eq_none] at absent
  refine wp_ite.mpr ⟨fun long => absurd three (bne_iff_ne.mp long), fun _ => ?_⟩
  refine wp_bind.mpr (wp_mono (persistSecurityQuestions_answered usable three) ?_ ?_)
  · rintro _ _ ⟨storable, key, raw, draw, d₁, ready, memory, rfl, seals⟩
    refine wp_bind.mpr (wp_attempt.mpr (wp_mono (persistPasspin_spec c req.authSecret false _) ?_ ?_))
    · rintro _ d₂ ⟨filled, configures⟩
      refine wp_pure.mpr (wp_mono (issueSession_memory configures.memory) (fun state d' issues => ?_)
        fun _ _ fails => fails.elim)
      have now := configures.rest.1.trans ready.now
      have session := issues
      obtain ⟨key', passPin, d₃, ready', memory', holds, rfl⟩ := configures
      obtain ⟨d₄, ready'', -, -, rfl⟩ := issues.writes
      have kept := ready'.memory (d := withQuestions d₁ (some raw)) memory
      obtain rfl : key = key' := Option.some.inj (kept.symm.trans memory')
      have used : KeyOf d₄ key := .inl (ready''.memory memory')
      refine .saved ⟨absent, filled, storable⟩ ⟨filled, key, passPin, used, ready''.passPin, holds⟩
        ⟨Option.isSome_of_eq_some ready''.passPin, key, raw, used,
          ready''.securityQa.trans ready'.securityQa, seals⟩ now session
    · rintro e d₂ ⟨-, fails⟩
      refine .refused fun can => ?_
      have there := (fails can.filled (Option.isSome_of_eq_some memory)).1
      rw [show (withQuestions d₁ (some raw)).dir.passPinFile = d₁.dir.passPinFile from rfl,
        ready.passPin, absent] at there
      cases there
  · rintro e d' ⟨unstorable, -⟩
    exact .refused fun can => unstorable can.storable

/-- Without all questions no secret is set. -/
theorem set_uncollected (type : req.type = .Authenticate) (action : req.authAction = str "set")
    (collected : collectQuestions req.rawFields = none) :
    ∃ message, respond c req d = .replied (failure req message) := by
  obtain ⟨resp, replied, message, rfl⟩ : ∃ resp, respond c req d = .replied resp ∧
      ∃ message, resp = failure req message := by
    refine authenticate_replied type (P := fun resp _ => ∃ message, resp = failure req message) ?_
    unfold handleAuthenticate
    rw [if_pos (beq_iff_eq.mpr action), collected]
    exact ⟨_, rfl⟩
  exact ⟨message, replied⟩

/-! ### The questions -/

/-- What is decrypted depends on the key alone, whatever is said of a damaged file. -/
theorem decryptFile_ok (keyOf : KeyOf d key) {corrupted : String} {raw plain : ByteString} :
    (exec (decryptFile c corrupted raw) d).1 = .ok plain ↔ decrypted c key raw = .ok plain := by
  rw [← keyOf.decryptFile (c := c)]
  unfold decryptFile
  split
  · exact iff_of_false error_ne_ok error_ne_ok
  · rfl

theorem SealedUnder.decrypted (unseals : c.Unseals) {text raw : ByteString} (filled : text ≠ [])
    (seals : SealedUnder c key text raw) : decrypted c key raw = .ok text := by
  obtain ⟨iv, ivLength, rfl⟩ := seals
  have positive := List.length_pos_iff.mpr filled
  have cipherLength := c.cipher_length key iv text
  have tagLength := c.tag_length key iv text
  have opened := unseals key iv text
  generalize c.gcmSeal key iv text = parts at *
  have sixteen : kGcmTagLen = 16 := rfl
  have twelve : kGcmIvLen = 12 := rfl
  have whole : sealedText (iv, parts) = iv ++ parts.1 ++ parts.2 := rfl
  have length : (sealedText (iv, parts)).length = 28 + parts.1.length := by
    rw [whole, List.length_append, List.length_append, ivLength, tagLength]
    omega
  have takeIv : (sealedText (iv, parts)).take kGcmIvLen = iv := by
    rw [whole, List.append_assoc, List.take_left' ivLength]
  have takeCipher : ((sealedText (iv, parts)).drop kGcmIvLen).take
      ((sealedText (iv, parts)).length - kGcmTagLen - kGcmIvLen) = parts.1 := by
    rw [length, whole, List.append_assoc, List.drop_left' ivLength]
    exact List.take_left' (by omega)
  have takeTag : (sealedText (iv, parts)).drop ((sealedText (iv, parts)).length - kGcmTagLen) =
      parts.2 := by
    rw [length, whole]
    exact List.drop_left' (by rw [List.length_append]; omega)
  have loaded : KeyOf { masterKey := some key } key := .inl rfl
  unfold Daemon.decrypted decryptFile
  rw [if_neg (by omega), takeIv, takeCipher, takeTag, decrypt,
    exec_bind_of_ok loaded.ensureMasterKey, if_neg (by simp [ivLength]),
    if_neg (by simp [tagLength]), opened]
  rfl

/-- The questions that the files hold, under the key. -/
def Held (c : Crypto) (key : ByteString) (d : Apmd) (stored : List StoredQuestion) : Prop :=
  ∃ raw plain, d.dir.securityQaFile = some raw ∧ decrypted c key raw = .ok plain ∧
    parseQuestions plain = .ok stored

theorem loadStoredQuestions_ok (keyOf : KeyOf d key) {stored : List StoredQuestion} :
    (exec (loadStoredQuestions c) d).1 = .ok stored ↔ Held c key d stored := by
  unfold Held
  cases file : d.dir.securityQaFile with
  | none =>
    rw [loadStoredQuestions, exec_bind_of_ok (a := d) rfl, file]
    refine iff_of_false error_ne_ok ?_
    rintro ⟨raw, plain, there, -⟩
    cases there
  | some raw =>
    rw [loadStoredQuestions, exec_bind_of_ok (a := d) rfl, file]
    change (exec _ d).1 = _ ↔ _
    constructor
    · intro run
      rw [exec_bind] at run
      cases decrypts : exec (decryptFile c "Stored security questions are corrupted" raw) d with
      | mk result d₁ =>
        rw [decrypts] at run
        cases result with
        | error e => cases run
        | ok plain =>
          refine ⟨raw, plain, rfl, (decryptFile_ok keyOf).mp (congrArg Prod.fst decrypts), ?_⟩
          dsimp only at run
          cases parsed : parseQuestions plain with
          | error msg => rw [parsed] at run; cases run
          | ok stored' => rw [parsed] at run; exact run
    · rintro ⟨raw', plain, there, known, parsed⟩
      cases there
      rw [exec_bind_of_ok ((decryptFile_ok keyOf).mpr known), parsed]
      rfl

/-- **Which questions are asked**, by the files alone. -/
theorem opens_iff (keyOf : KeyOf d key) {stored : List StoredQuestion} :
    Opens c d stored ↔ lockedUntil d = none ∧ Held c key d stored := by
  have spec := wp_and (wp_exec (isLockedOut d.now) d) (isLockedOut_spec d)
  unfold Opens loadUnlocked
  rw [exec_bind]
  unfold wp at spec
  cases ran : exec (isLockedOut d.now) d with
  | mk result d₁ =>
    rw [ran] at spec
    cases result with
    | error e => exact spec.2.elim
    | ok locked =>
      obtain ⟨-, rfl, looks⟩ := spec
      dsimp only
      cases elapsed : lockedUntil d with
      | some unlockAt => exact iff_of_false error_ne_ok fun h => Option.some_ne_none _ h.1
      | none =>
        have held : Held c key d₁ stored ↔ Held c key d stored := by
          unfold Held
          rw [looks.securityQa]
        rw [← held, ← loadStoredQuestions_ok (keyOf.ready looks.key)]
        exact (and_iff_right rfl).symm

/-- Looking at the questions changes nothing about which ones are asked. -/
theorem Opens.looks {d' : Apmd} {stored : List StoredQuestion} (opens : Opens c d stored)
    (keyOf : KeyOf d key) (looks : Looks d d') : Opens c d' stored := by
  obtain ⟨elapsed, raw, plain, file, rest⟩ := (opens_iff keyOf).mp opens
  refine (opens_iff (keyOf.ready looks.key)).mpr ⟨?_, raw, plain, looks.securityQa.trans file, rest⟩
  rcases looks.lockout with same | ⟨-, gone⟩
  · rw [← elapsed, lockedUntil, lockedUntil, same, looks.now]
  · rw [lockedUntil, gone]
    rfl

/-! ### A recovery -/

/-- What can be answered to a request for the questions. -/
inductive Questioning (c : Crypto) (req : Request) (d : Apmd) : Response → Apmd → Prop where
  | shown {stored : List StoredQuestion} {d' : Apmd} (opens : Opens c d stored)
      (looks : Looks d d') :
      Questioning c req d (questionsResponse req (stored.map (·.prompt))) d'
  | refused {message : ByteString} {d' : Apmd} (shut : ∀ stored, ¬ Opens c d stored)
      (looks : Looks d d') : Questioning c req d (failure req message) d'

theorem questions_answered (type : req.type = .ForgotPassword)
    (stage : resetStage req = str "questions") :
    ∃ resp, respond c req d = .replied resp ∧
      Questioning c req d resp (step c d (.request req)) := by
  refine forgot_replied type ?_
  unfold handleForgotPassword
  rw [if_pos (beq_iff_eq.mpr stage)]
  refine wp_reply (wp_bind.mpr (wp_update.mpr (wp_bind.mpr
    (wp_mono (loadUnlocked_opens c d) ?_ ?_))))
  · rintro stored d' ⟨opens, -, -, looks⟩
    exact .shown opens looks
  · rintro e d' ⟨shut, looks⟩ message
    exact .refused shut looks

/-- The answers are right for the questions that are asked. -/
def Right (c : Crypto) (d : Apmd) (given : List ByteString) : Prop :=
  ∃ stored, Opens c d stored ∧ AllRight c stored given

/-- The reply to right answers. -/
def verifiedResponse (req : Request) : Response where
  id := req.id
  success := true
  message := str "Security answers verified. Set a new password/PIN."

/-- What can be answered to answers. A wrong one locks the questions. -/
inductive Verifying (c : Crypto) (req : Request) (given : List ByteString) (d : Apmd) :
    Response → Apmd → Prop where
  | right {d' : Apmd} (right : Right c d given) (looks : Looks d d') :
      Verifying c req given d (verifiedResponse req) d'
  | refused {message : ByteString} {d' : Apmd} (wrong : ¬ Right c d given)
      (passPin : d'.dir.passPinFile = d.dir.passPinFile)
      (session : d'.dir.sessionFile = d.dir.sessionFile)
      (locks : (∃ stored, Opens c d stored) → d'.dir.resetLockoutFile =
        some (decimal ((d.now + kResetCooldownSeconds) % 2 ^ 64))) :
      Verifying c req given d (failure req message) d'

theorem validateSecurityAnswers_answered {given : List ByteString}
    (three : given.length = SECURITY_QUESTION_COUNT) :
    wp (validateSecurityAnswers c given) (fun _ d' => Right c d given ∧ Looks d d')
      (fun _ d' => ¬ Right c d given ∧ d'.dir.passPinFile = d.dir.passPinFile ∧
        d'.dir.sessionFile = d.dir.sessionFile ∧ ((∃ stored, Opens c d stored) →
          d'.dir.resetLockoutFile = some (decimal ((d.now + kResetCooldownSeconds) % 2 ^ 64)))) d := by
  refine wp_mono (validateSecurityAnswers_spec c three d) ?_ ?_
  · rintro _ d' ⟨stored, opens, -, right, -, looks⟩
    exact ⟨⟨stored, opens, right⟩, looks⟩
  · rintro _ d' (⟨shut, looks⟩ | ⟨stored, opens, wrong, d₁, looks, rfl⟩)
    · refine ⟨?_, looks.passPin, looks.session, fun ⟨stored, opens⟩ => absurd opens (shut stored)⟩
      rintro ⟨stored, opens, -⟩
      exact shut stored opens
    · refine ⟨?_, looks.passPin, looks.session, fun _ => rfl⟩
      rintro ⟨stored', opens', right⟩
      obtain rfl : stored' = stored := Except.ok.inj (opens'.symm.trans opens)
      exact wrong right

theorem verify_answered (type : req.type = .ForgotPassword)
    (stage : resetStage req = str "verify") {given : List ByteString}
    (collected : collectAnswers req.rawFields = some given) :
    ∃ resp, respond c req d = .replied resp ∧
      Verifying c req given d resp (step c d (.request req)) := by
  refine forgot_replied type ?_
  unfold handleForgotPassword
  rw [if_neg (by rw [stage]; decide), if_pos (beq_iff_eq.mpr stage), collected]
  refine wp_reply (wp_mono (validateSecurityAnswers_answered (collectAnswers_length collected)) ?_ ?_)
  · rintro _ d' ⟨right, looks⟩
    exact .right right looks
  · rintro e d' ⟨wrong, passPin, session, locks⟩ message
    exact .refused wrong passPin session locks

/-- What can be answered to answers with a new secret. -/
inductive Resetting (c : Crypto) (req : Request) (given : List ByteString) (d : Apmd) :
    Response → Apmd → Prop where
  | reset {state : SessionState} {d₁ d₂ d' : Apmd} (right : Right c d given)
      (filled : newSecret req ≠ []) (looks : Looks d d₁)
      (configures : Configures c (newSecret req) d₁ d₂) (issues : Issues c d₂ state d') :
      Resetting c req given d (sessionResponse req "Password/PIN reset. Session active." state) d'
  | refused {message : ByteString} {d' : Apmd}
      (cannot : ¬ (Right c d given ∧ newSecret req ≠ []))
      (passPin : d'.dir.passPinFile = d.dir.passPinFile) :
      Resetting c req given d (failure req message) d'

/-- Questions that were asked leave the key in memory. -/
theorem validateSecurityAnswers_memory (given : List ByteString) :
    wp (validateSecurityAnswers c given) (fun _ d' => d'.masterKey.isSome) (fun _ _ => True) d := by
  have loaded : ∀ d, wp (loadUnlocked c d.now) (fun _ d' => d'.masterKey.isSome)
      (fun _ _ => True) d := by
    intro d
    refine wp_bind.mpr (wp_mono (isLockedOut_spec d) ?_ fun _ _ _ => trivial)
    rintro locked d₁ ⟨-, -⟩
    split
    · trivial
    · refine wp_bind.mpr (wp_update.mpr ?_)
      dsimp only
      split
      · trivial
      · refine wp_bind.mpr (wp_mono (decryptFile_memory _ _) (fun plain d₂ there => ?_)
          fun _ _ _ => trivial)
        split
        · trivial
        · exact there
  refine wp_bind.mpr (wp_update.mpr (wp_bind.mpr
    (wp_mono (loaded d) (fun stored d₁ there => ?_) fun _ _ _ => trivial)))
  refine wp_ite.mpr ⟨fun _ => trivial, fun _ => wp_bind.mpr ?_⟩
  refine wp_mono (checkAnswers_spec c d.now _ d₁) ?_ fun _ _ _ => trivial
  rintro _ _ ⟨-, rfl⟩
  exact there

theorem reset_answered (type : req.type = .ForgotPassword)
    (stage : resetStage req = str "reset") {given : List ByteString}
    (collected : collectAnswers req.rawFields = some given) :
    ∃ resp, respond c req d = .replied resp ∧
      Resetting c req given d resp (step c d (.request req)) := by
  refine forgot_replied type ?_
  unfold handleForgotPassword
  rw [if_neg (by rw [stage]; decide), if_neg (by rw [stage]; decide),
    if_pos (beq_iff_eq.mpr stage), collected]
  refine wp_ite.mpr ⟨fun empty => ?_, fun filled => wp_reply ?_⟩
  · exact .refused (fun can => can.2 (List.isEmpty_iff.mp empty)) rfl
  have filled' : newSecret req ≠ [] := fun empty => filled (List.isEmpty_iff.mpr empty)
  refine wp_bind.mpr (wp_mono (wp_and (validateSecurityAnswers_memory given)
    (validateSecurityAnswers_answered (collectAnswers_length collected))) ?_ ?_)
  · rintro _ d₁ ⟨memory, right, looks⟩
    refine wp_bind.mpr (wp_mono (persistPasspin_spec c _ true d₁) ?_ ?_)
    · rintro _ d₂ ⟨-, configures⟩
      exact wp_mono (issueSession_memory configures.memory)
        (fun state d' issues => .reset right filled' looks configures issues)
        fun _ _ fails => fails.elim
    · rintro e d' ⟨-, fails⟩
      cases (fails filled' memory).2
  · rintro e d' ⟨-, wrong, passPin, -⟩ message
    exact .refused (fun can => wrong can.1) passPin

/-! ### What is set stays -/

theorem HoldsSecret.verifies (unseals : c.Unseals) {secret : ByteString}
    (h : HoldsSecret c secret d) : Verifies c d secret := by
  obtain ⟨filled, key, raw, keyOf, file, holds⟩ := h
  exact (verifies_iff keyOf file).mpr (holds.unlocks unseals filled)

theorem HoldsQuestions.opens_iff (unseals : c.Unseals) {stored stored' : List StoredQuestion}
    (fits : ∀ q ∈ stored, q.Fits) (three : stored.length = SECURITY_QUESTION_COUNT)
    (h : HoldsQuestions c stored d) :
    Opens c d stored' ↔ lockedUntil d = none ∧ stored' = stored := by
  obtain ⟨-, key, raw, keyOf, file, seals⟩ := h
  have filled : questionsText stored ≠ [] := by
    obtain ⟨q, rest, rfl⟩ := List.exists_cons_of_ne_nil (List.ne_nil_of_length_pos
      (three ▸ (by decide : 0 < SECURITY_QUESTION_COUNT)))
    simp [questionsText, questionLines, Lib.Text.unlines]
  have plain := seals.decrypted unseals filled
  have parsed := parseQuestions_questionsText fits three
  rw [Daemon.opens_iff keyOf]
  refine and_congr_right fun _ => ⟨?_, ?_⟩
  · rintro ⟨raw', plain', file', plain'', parsed'⟩
    obtain rfl : raw = raw' := Option.some.inj (file.symm.trans file')
    obtain rfl : questionsText stored = plain' := Except.ok.inj (plain.symm.trans plain'')
    exact Except.ok.inj (parsed'.symm.trans parsed)
  · rintro rfl
    exact ⟨raw, _, file, plain, parsed⟩

/-- The key in memory is the one on disk. -/
def KeyKept (d : Apmd) : Prop :=
  ∀ key, d.masterKey = some key → d.dir.masterKeyFile = some key ∧ key.length = kMasterKeyLen

theorem KeyKept.ready {d' : Apmd} (h : KeyKept d) (ready : KeyReady d d') : KeyKept d' := by
  intro key there
  cases ready with
  | same memory file =>
    obtain ⟨onDisk, length⟩ := h key (memory.symm.trans there)
    exact ⟨file.trans onDisk, length⟩
  | loaded key' _ memory file length =>
    obtain rfl : key' = key := Option.some.inj (memory.symm.trans there)
    exact ⟨file, length⟩

/-- What becomes of the key, the secret and the questions, if no factory reset is carried out. -/
inductive Alters (c : Crypto) (req : Request) (d d' : Apmd) : Prop where
  | nothing (key : KeyReady d d') (passPin : d'.dir.passPinFile = d.dir.passPinFile)
      (securityQa : d'.dir.securityQaFile = d.dir.securityQaFile)
  | free (key : KeyReady d d') (free : d.dir.passPinFile = none)
  | reset (right : RightReset c req d) (key : KeyReady d d')
      (passPin : d'.dir.passPinFile.isSome)
      (securityQa : d'.dir.securityQaFile = d.dir.securityQaFile)

theorem Configures.brings {secret : ByteString} {d d' : Apmd} (h : Configures c secret d d') :
    KeyReady d d' ∧ d'.dir.securityQaFile = d.dir.securityQaFile ∧ d'.dir.passPinFile.isSome := by
  obtain ⟨key, raw, d₁, ready, -, -, rfl⟩ := h
  exact ⟨ready.key.of_eq rfl rfl rfl rfl, ready.securityQa, rfl⟩

theorem Handles.alters {d' : Apmd} {o : Outcome} (h : Handles c req d o d')
    (kept : req.type = .FactoryReset → o.passed = false) : Alters c req d d' := by
  cases h with
  | unauthorized _ ready => exact .nothing ready.key ready.passPin ready.securityQa
  | ungated => exact .nothing (.same rfl rfl) rfl rfl
  | authorized _ _ uses => exact .nothing uses.key.1 uses.key.2.1 uses.key.2.2
  | wiped type => cases kept type
  | notAuthenticated _ ready => exact .nothing ready.key ready.passPin ready.securityQa
  | setUndone _ free _ ready => exact .free (ready.key.of_eq rfl rfl rfl rfl) free
  | unlocked _ _ writes => exact .nothing writes.key.1 writes.key.2.1 writes.key.2.2
  | set sets ready configures writes =>
    exact .free ((ready.key.withQuestions _).trans (configures.brings.1.trans writes.key.1))
      sets.2.2.2.1
  | looked _ looks => exact .nothing looks.key looks.passPin looks.securityQa
  | wrong _ looks => exact .nothing (looks.key.of_eq rfl rfl rfl rfl) looks.passPin looks.securityQa
  | reset right looks configures writes =>
    refine .reset right (looks.key.trans (configures.brings.1.trans writes.key.1)) ?_ ?_
    · rw [writes.key.2.1]
      exact configures.brings.2.2
    · rw [writes.key.2.2, configures.brings.2.1, looks.securityQa]

/-- A restart loses no key that is on disk. -/
theorem KeyOf.restart (kept : KeyKept d) (h : KeyOf d key) :
    KeyOf { d with masterKey := none } key := by
  rcases h with there | ⟨-, onDisk, length⟩
  · exact .inr ⟨rfl, kept key there⟩
  · exact .inr ⟨rfl, onDisk, length⟩

theorem KeyKept.step {event : Event} (h : KeyKept d) (kept : NotWiped c d event) :
    KeyKept (step c d event) := by
  cases event with
  | clock now => exact h
  | restart => intro key there; cases there
  | request req =>
    cases (step_handles c req d).alters kept with
    | nothing key => exact h.ready key
    | free key => exact h.ready key
    | reset _ key => exact h.ready key

/-- **Questions stay**, until a factory reset. -/
theorem HoldsQuestions.step {stored : List StoredQuestion} {event : Event}
    (h : HoldsQuestions c stored d) (keyKept : KeyKept d) (kept : NotWiped c d event) :
    HoldsQuestions c stored (step c d event) := by
  obtain ⟨there, key, raw, keyOf, file, seals⟩ := h
  cases event with
  | clock now => exact ⟨there, key, raw, keyOf, file, seals⟩
  | restart => exact ⟨there, key, raw, keyOf.restart keyKept, file, seals⟩
  | request req =>
    cases (step_handles c req d).alters kept with
    | nothing ready passPin securityQa =>
      exact ⟨passPin ▸ there, key, raw, keyOf.ready ready, securityQa.trans file, seals⟩
    | free _ free =>
      rw [free] at there
      cases there
    | reset _ ready passPin securityQa =>
      exact ⟨passPin, key, raw, keyOf.ready ready, securityQa.trans file, seals⟩

/-- The event is no factory reset that is carried out, and no recovery. -/
def LeavesSecret (c : Crypto) (d : Apmd) : Event → Prop
  | .request req => NotWiped c d (.request req) ∧ ¬ RightReset c req d
  | _ => True

theorem LeavesSecret.notWiped {event : Event} (h : LeavesSecret c d event) : NotWiped c d event := by
  cases event with
  | request req => exact h.1
  | restart | clock => trivial

/-- **A secret stays**, until a factory reset or a recovery. -/
theorem HoldsSecret.step {secret : ByteString} {event : Event} (h : HoldsSecret c secret d)
    (keyKept : KeyKept d) (leaves : LeavesSecret c d event) :
    HoldsSecret c secret (step c d event) := by
  obtain ⟨filled, key, raw, keyOf, file, holds⟩ := h
  cases event with
  | clock now => exact ⟨filled, key, raw, keyOf, file, holds⟩
  | restart => exact ⟨filled, key, raw, keyOf.restart keyKept, file, holds⟩
  | request req =>
    cases (step_handles c req d).alters leaves.1 with
    | nothing ready passPin => exact ⟨filled, key, raw, keyOf.ready ready, passPin.trans file, holds⟩
    | free _ free =>
      rw [free] at file
      cases file
    | reset right => exact absurd right leaves.2

/-- A secret is held once it is configured. -/
theorem Configures.holds {secret : ByteString} {state : SessionState} {d d₁ d' : Apmd}
    (filled : secret ≠ []) (h : Configures c secret d d₁) (writes : WritesSession d₁ state d') :
    HoldsSecret c secret d' := by
  obtain ⟨key, raw, d₂, -, memory, holds, rfl⟩ := h
  obtain ⟨d₃, ready, -, -, rfl⟩ := writes
  exact ⟨filled, key, raw, .inl (ready.memory memory), ready.passPin, holds⟩

/-- A key on disk is a whole one. -/
def KeyFileWhole (d : Apmd) : Prop :=
  ∀ key, d.dir.masterKeyFile = some key → key.length = kMasterKeyLen

theorem KeyFileWhole.usable (h : KeyFileWhole d) : KeyUsable d := by
  cases memory : d.masterKey with
  | some key => exact .inl ⟨key, .inl memory⟩
  | none =>
    cases file : d.dir.masterKeyFile with
    | some key => exact .inl ⟨key, .inr ⟨memory, file, h key file⟩⟩
    | none => exact .inr ⟨memory, file⟩

theorem KeyFileWhole.ready {d' : Apmd} (h : KeyFileWhole d) (ready : KeyReady d d') :
    KeyFileWhole d' := by
  intro key there
  cases ready with
  | same _ file => exact h key (file.symm.trans there)
  | loaded key' _ _ file length =>
    obtain rfl : key' = key := Option.some.inj (file.symm.trans there)
    exact length

/-- **The key can always be used**: no request leaves a part of one on disk. -/
theorem KeyFileWhole.step (h : KeyFileWhole d) (event : Event) : KeyFileWhole (step c d event) := by
  cases event with
  | clock now => exact h
  | restart => exact h
  | request req =>
    have handles := step_handles c req d
    generalize respond c req d = o at handles
    generalize Daemon.step c d (.request req) = d' at handles ⊢
    by_cases wiped : req.type = .FactoryReset ∧ o.passed = true
    · cases handles with
      | wiped => intro key there; cases there
      | unauthorized => cases wiped.2
      | ungated gate => rw [wiped.1] at gate; cases gate
      | authorized _ plain => exact absurd wiped.1 plain
      | notAuthenticated type => cases type.symm.trans wiped.1
      | setUndone type => cases type.symm.trans wiped.1
      | unlocked type => cases type.symm.trans wiped.1
      | set sets => cases sets.1.symm.trans wiped.1
      | looked type => cases type.symm.trans wiped.1
      | wrong wrong => cases wrong.1.symm.trans wiped.1
      | reset right => cases right.1.symm.trans wiped.1
    · have kept : req.type = .FactoryReset → o.passed = false := fun type =>
        Bool.eq_false_iff.mpr fun passed => wiped ⟨type, passed⟩
      cases handles.alters kept with
      | nothing key => exact h.ready key
      | free key => exact h.ready key
      | reset _ key => exact h.ready key

end Answers

end Apm.Daemon
