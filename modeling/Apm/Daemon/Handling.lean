import Apm.Daemon.SecurityManager

/-!
What a request does to the daemon and its files.

Programs that need the master key load it, from disk or as a new one, and leave the other files
alone (`Readies`). `Handles` lists what a request can do beyond that.

## Main results

* `handleRequest_handles`: every request does one of the things listed.
-/

namespace Apm.Daemon

open Apm.Ipc Apm.Lib.Effect Apm.Security

/-! ### The key is made ready -/

/-- The key in memory stays, or it is loaded from a file that had it or was not there. -/
inductive KeyReady (d d' : Apmd) : Prop where
  | same (memory : d'.masterKey = d.masterKey)
      (file : d'.dir.masterKeyFile = d.dir.masterKeyFile)
  | loaded (key : ByteString) (before : d.masterKey = none) (memory : d'.masterKey = some key)
      (file : d'.dir.masterKeyFile = some key) (length : key.length = kMasterKeyLen)
      (source : d.dir.masterKeyFile = none ∨ d.dir.masterKeyFile = some key)

/-- Nothing changes but the key, and how much randomness is drawn. -/
structure Readies (d d' : Apmd) : Prop where
  key : KeyReady d d'
  now : d'.now = d.now
  passPin : d'.dir.passPinFile = d.dir.passPinFile
  securityQa : d'.dir.securityQaFile = d.dir.securityQaFile
  lockout : d'.dir.resetLockoutFile = d.dir.resetLockoutFile
  session : d'.dir.sessionFile = d.dir.sessionFile

instance : Std.Refl Readies := ⟨fun _ => ⟨.same rfl rfl, rfl, rfl, rfl, rfl, rfl⟩⟩

theorem KeyReady.trans {d d' d'' : Apmd} (h : KeyReady d d') (h' : KeyReady d' d'') :
    KeyReady d d'' := by
  cases h' with
  | same memory file =>
    cases h with
    | same memory' file' => exact .same (memory.trans memory') (file.trans file')
    | loaded key before memory' file' length source =>
      exact .loaded key before (memory.trans memory') (file.trans file') length source
  | loaded key before memory file length source =>
    cases h with
    | same memory' file' =>
      exact .loaded key (memory' ▸ before) memory file length (file' ▸ source)
    | loaded key' before' memory' => exact nomatch before.symm.trans memory'

/-- Only the key in memory and the one on disk matter. -/
theorem KeyReady.of_eq {d d' e e' : Apmd} (h : KeyReady d d')
    (memory : e.masterKey = d.masterKey) (file : e.dir.masterKeyFile = d.dir.masterKeyFile)
    (memory' : e'.masterKey = d'.masterKey) (file' : e'.dir.masterKeyFile = d'.dir.masterKeyFile) :
    KeyReady e e' := by
  cases h with
  | same m f => exact .same ((memory'.trans m).trans memory.symm) ((file'.trans f).trans file.symm)
  | loaded key b m f length source =>
    exact .loaded key (memory.trans b) (memory'.trans m) (file'.trans f) length (file ▸ source)

instance : IsTrans Apmd Readies := ⟨fun _ _ _ h h' => ⟨h.key.trans h'.key, h'.now.trans h.now,
  h'.passPin.trans h.passPin, h'.securityQa.trans h.securityQa, h'.lockout.trans h.lockout,
  h'.session.trans h.session⟩⟩

/-- A key in memory stays there. -/
theorem Readies.memory {d d' : Apmd} (h : Readies d d') {key : ByteString}
    (before : d.masterKey = some key) : d'.masterKey = some key := by
  cases h.key with
  | same memory => exact memory.trans before
  | loaded _ absent => exact nomatch absent.symm.trans before

section Programs

variable (c : Crypto)

theorem current_readies {ε : Type} : Moves Readies (current : Act Apmd ε Apmd) :=
  fun _ => refl_of Readies _

theorem randomBytes_readies (count : Nat) : Moves Readies (randomBytes c count) :=
  fun _ => ⟨.same rfl rfl, rfl, rfl, rfl, rfl, rfl⟩

theorem randomBytes_spec (count : Nat) (d : Apmd) :
    wp (randomBytes c count) (fun bytes d' => bytes.length = count ∧ Readies d d')
      (fun _ _ => False) d := ⟨c.random_length _ _, randomBytes_readies c count d⟩

/-- The key is ready afterwards, and only a key file of the wrong length keeps it from that. -/
theorem ensureMasterKey_spec (d : Apmd) :
    wp (ensureMasterKey c) (fun key d' => Readies d d' ∧ d'.masterKey = some key)
      (fun _ d' => d' = d ∧ d.masterKey = none) d := by
  refine wp_bind.mpr (wp_update.mpr ?_)
  dsimp only
  cases memory : d.masterKey with
  | some key => exact ⟨refl_of Readies d, memory⟩
  | none =>
    cases file : d.dir.masterKeyFile with
    | some raw =>
      refine wp_ite.mpr ⟨fun _ => ⟨rfl, rfl⟩, fun long => ?_⟩
      have length : raw.length = kMasterKeyLen := by simpa using long
      exact ⟨⟨.loaded raw memory rfl file length (.inr file), rfl, rfl, rfl, rfl, rfl⟩, rfl⟩
    | none =>
      exact ⟨⟨.loaded _ memory rfl rfl (c.random_length _ _) (.inl file), rfl, rfl, rfl, rfl, rfl⟩,
        rfl⟩

theorem ensureMasterKey_readies : Moves Readies (ensureMasterKey c) :=
  .of_wp (fun d => wp_mono (ensureMasterKey_spec c d) (fun _ _ h => h.1) fun _ _ h => h)
    fun _ _ _ h => h.1 ▸ refl_of Readies _

/-- With a key in memory nothing changes, and it is the one that is used. -/
theorem ensureMasterKey_loaded {d : Apmd} {key : ByteString} (memory : d.masterKey = some key) :
    exec (ensureMasterKey c) d = (.ok key, d) := by
  rw [ensureMasterKey, exec_bind_of_ok (a := d) rfl, memory]
  rfl

theorem decrypt_readies (iv ciphertext tag : ByteString) :
    Moves Readies (decrypt c iv ciphertext tag) := by
  refine (ensureMasterKey_readies c).bind fun key => .ite (moves_throw _) (.ite (moves_throw _) ?_)
  split
  · exact moves_throw _
  · exact moves_pure _

theorem decryptFile_readies (corrupted : String) (raw : ByteString) :
    Moves Readies (decryptFile c corrupted raw) := .ite (moves_throw _) (decrypt_readies c _ _ _)

theorem decryptPasspin_readies : Moves Readies (decryptPasspin c) := by
  refine current_readies.bind fun d => ?_
  split
  · exact moves_throw _
  · exact (decryptFile_readies c _ _).bind fun _ => .ite (moves_throw _) (moves_pure _)

theorem verifySecret_readies (secret : ByteString) : Moves Readies (verifySecret c secret) :=
  .ite (moves_throw _)
    ((decryptPasspin_readies c).bind fun _ => .ite (moves_throw _) (moves_pure _))

theorem loadStoredQuestions_readies : Moves Readies (loadStoredQuestions c) := by
  refine current_readies.bind fun d => ?_
  split
  · exact moves_throw _
  · refine (decryptFile_readies c _ _).bind fun _ => ?_
    split
    · exact moves_throw _
    · exact moves_pure _

theorem deriveHmac_readies (state : SessionState) : Moves Readies (deriveHmac c state) :=
  ((ensureMasterKey_readies c).bind fun _ => moves_pure _).bind fun _ => moves_pure _

theorem checkSession_readies (token : ByteString) (now : Nat) (state : SessionState) :
    Moves Readies (checkSession c token now state) :=
  (deriveHmac_readies c _).bind fun _ =>
    .ite (moves_throw _) (.ite (moves_throw _) (.ite (moves_throw _) (moves_pure _)))

end Programs

/-! ### What is written -/

/-- The file holds the secret, sealed under the key. -/
def SealedFor (c : Crypto) (key secret raw : ByteString) : Prop :=
  ∃ iv salt, iv.length = kGcmIvLen ∧ salt.length = kSaltLen ∧
    raw = sealedText (iv, c.gcmSeal key iv (salt ++ c.pbkdf2 secret salt))

/-- The secret is written, under a key that stays in memory. -/
def Configures (c : Crypto) (secret : ByteString) (d d' : Apmd) : Prop :=
  ∃ key raw d₁, Readies d d₁ ∧ d₁.masterKey = some key ∧ SealedFor c key secret raw ∧
    d' = { d₁ with dir := { d₁.dir with passPinFile := some raw } }

/-- A session is written. -/
def WritesSession (d : Apmd) (state : SessionState) (d' : Apmd) : Prop :=
  ∃ d₁, Readies d d₁ ∧ state.Fits ∧ state.expiresAt = d.now + SESSION_LIFETIME_SECONDS ∧
    d' = { d₁ with dir := { d₁.dir with sessionFile := some (serializeSession state) } }

theorem WritesSession.of_readies {d d₁ d' : Apmd} {state : SessionState}
    (h : WritesSession d₁ state d') (ready : Readies d d₁) : WritesSession d state d' := by
  obtain ⟨d₂, ready', fits, expires, rfl⟩ := h
  exact ⟨d₂, trans_of Readies ready ready', fits, ready.now ▸ expires, rfl⟩

/-- A session that is in force is used, and written again with a later end. -/
def UsesSession (token : ByteString) (d d' : Apmd) : Prop :=
  ∃ raw state next, d.dir.sessionFile = some raw ∧ parseSession raw = .ok state ∧
    state.token = token ∧ d.now < state.expiresAt ∧ next.token = token ∧ WritesSession d next d'

section Writes

variable (c : Crypto)

theorem encrypt_spec (plain : ByteString) (d : Apmd) :
    wp (encrypt c plain)
      (fun parts d' => Readies d d' ∧ ∃ key, d'.masterKey = some key ∧
        parts.1.length = kGcmIvLen ∧ parts.2 = c.gcmSeal key parts.1 plain)
      (fun _ d' => Readies d d' ∧ d.masterKey = none) d := by
  refine wp_bind.mpr (wp_mono (ensureMasterKey_spec c d) (fun key d₁ h => ?_) ?_)
  · exact ⟨trans_of Readies h.1 (randomBytes_readies c kGcmIvLen d₁), key, h.2,
      c.random_length _ _, rfl⟩
  · rintro _ _ ⟨rfl, absent⟩
    exact ⟨refl_of Readies _, absent⟩

theorem wp_isPasspinConfigured {Q : Bool → Apmd → Prop} {E : ByteString → Apmd → Prop} {d : Apmd} :
    wp isPasspinConfigured Q E d ↔ Q d.dir.passPinFile.isSome d := Iff.rfl

theorem persistPasspin_spec (secret : ByteString) (allowOverwrite : Bool) (d : Apmd) :
    wp (persistPasspin c secret allowOverwrite)
      (fun _ d' => secret ≠ [] ∧ Configures c secret d d')
      (fun _ d' => Readies d d' ∧ (secret ≠ [] → d.masterKey.isSome →
        d.dir.passPinFile.isSome ∧ allowOverwrite = false)) d := by
  refine wp_ite.mpr ⟨fun empty => ⟨refl_of Readies d, fun filled => ?_⟩, fun filled => ?_⟩
  · exact absurd (List.isEmpty_iff.mp empty) filled
  refine wp_bind.mpr (wp_isPasspinConfigured.mpr (wp_ite.mpr ⟨fun there => ?_, fun _ => ?_⟩))
  · rw [Bool.and_eq_true, Bool.not_eq_true'] at there
    exact ⟨refl_of Readies d, fun _ _ => there⟩
  refine wp_bind.mpr (wp_mono (ensureMasterKey_spec c d) (fun key d₁ h => ?_) ?_)
  · refine wp_bind.mpr (wp_mono (randomBytes_spec c kSaltLen d₁) (fun salt d₂ drawn => ?_) nofun)
    have memory := drawn.2.memory h.2
    refine wp_bind.mpr (wp_mono (encrypt_spec c _ d₂) (fun parts d₃ h₃ => ?_) fun _ _ h₃ => ?_)
    · obtain ⟨ready, key', memory', length, parts_eq⟩ := h₃
      have all : Readies d d₃ := trans_of Readies h.1 (trans_of Readies drawn.2 ready)
      refine ⟨fun empty => filled (List.isEmpty_iff.mpr empty), key', _, d₃, all, memory',
        ⟨parts.1, salt, length, drawn.1, ?_⟩, rfl⟩
      rw [← parts_eq]
    · exact nomatch h₃.2.symm.trans memory
  · rintro _ _ ⟨rfl, absent⟩
    refine ⟨refl_of Readies _, fun _ there => ?_⟩
    rw [absent] at there
    cases there

/-- A question and an answer that can be stored. -/
def Storable (qa : ByteString × ByteString) : Prop :=
  qa.1 ≠ [] ∧ qa.2 ≠ [] ∧ chr '\n' ∉ qa.1 ∧ chr '\r' ∉ qa.1

theorem writeQuestion_spec (qa : ByteString × ByteString) (plain : ByteString) (d : Apmd) :
    wp (writeQuestion c qa plain) (fun _ d' => Storable qa ∧ Readies d d')
      (fun _ d' => ¬ Storable qa ∧ Readies d d') d := by
  refine wp_ite.mpr ⟨fun empty => ⟨fun fits => ?_, refl_of Readies d⟩, fun filled => ?_⟩
  · rw [Bool.or_eq_true, List.isEmpty_iff, List.isEmpty_iff] at empty
    exact empty.elim fits.1 fits.2.1
  refine wp_ite.mpr ⟨fun broken => ⟨fun fits => ?_, refl_of Readies d⟩, fun whole => ?_⟩
  · rw [Bool.or_eq_true, List.contains_iff_mem, List.contains_iff_mem] at broken
    exact broken.elim fits.2.2.1 fits.2.2.2
  · rw [Bool.or_eq_true, List.isEmpty_iff, List.isEmpty_iff, not_or] at filled
    rw [Bool.or_eq_true, List.contains_iff_mem, List.contains_iff_mem, not_or] at whole
    exact ⟨⟨filled.1, filled.2, whole.1, whole.2⟩, randomBytes_readies c kSaltLen d⟩

theorem persistSecurityQuestions_spec (questions : List (ByteString × ByteString)) (d : Apmd) :
    wp (persistSecurityQuestions c questions)
      (fun _ d' => (∀ qa ∈ questions, Storable qa) ∧ ∃ raw d₁, Readies d d₁ ∧
        d₁.masterKey.isSome ∧ d' = { d₁ with dir := { d₁.dir with securityQaFile := some raw } })
      (fun _ d' => Readies d d' ∧ (d.masterKey.isSome → questions.length = SECURITY_QUESTION_COUNT →
        ¬ ∀ qa ∈ questions, Storable qa)) d := by
  refine wp_ite.mpr ⟨fun long => ⟨refl_of Readies d, fun _ length => ?_⟩, fun _ => ?_⟩
  · exact absurd length (bne_iff_ne.mp long)
  refine wp_bind.mpr (wp_mono (ensureMasterKey_spec c d) (fun key d₁ h => ?_) ?_)
  · have loop : wp (forEach (writeQuestion c) questions [])
        (fun _ d' => (∀ qa ∈ questions, Storable qa) ∧ Readies d d' ∧ d'.masterKey = some key)
        (fun _ d' => Readies d d' ∧ ¬ ∀ qa ∈ questions, Storable qa) d₁ := by
      refine wp_forEach_done (fun done _ d' => (∀ qa ∈ done, Storable qa) ∧ Readies d d' ∧
        d'.masterKey = some key) (fun done qa rest split plain d₂ h₂ => ?_) ⟨nofun, h⟩
      refine wp_mono (writeQuestion_spec c qa plain d₂) (fun _ d₃ h₃ => ?_) fun _ d₃ h₃ => ?_
      · exact ⟨List.forall_mem_append.mpr ⟨h₂.1, List.forall_mem_singleton.mpr h₃.1⟩,
          trans_of Readies h₂.2.1 h₃.2, h₃.2.memory h₂.2.2⟩
      · refine ⟨trans_of Readies h₂.2.1 h₃.2, fun all => h₃.1 (all qa ?_)⟩
        exact split ▸ List.mem_append_right _ List.mem_cons_self
    refine wp_bind.mpr (wp_mono loop (fun plain d₂ h₂ => ?_) fun _ _ h₂ => ⟨h₂.1, fun _ _ => h₂.2⟩)
    refine wp_bind.mpr (wp_mono (encrypt_spec c plain d₂) (fun parts d₃ h₃ => ?_) fun _ _ h₃ => ?_)
    · obtain ⟨ready, key', memory, -⟩ := h₃
      exact ⟨h₂.1, _, d₃, trans_of Readies h₂.2.1 ready, Option.isSome_of_eq_some memory, rfl⟩
    · exact nomatch h₃.2.symm.trans h₂.2.2
  · rintro _ _ ⟨rfl, absent⟩
    refine ⟨refl_of Readies _, fun there => ?_⟩
    rw [absent] at there
    cases there

theorem mem_bytesToHex {data : ByteString} {b : UInt8} (h : b ∈ bytesToHex data) :
    ¬ isspace b := by
  obtain ⟨byte, -, digit⟩ := List.mem_flatMap.mp h
  have high : ∀ n < 16, ¬ isspace (hexDigit n) := by decide
  simp only [List.mem_cons, List.not_mem_nil, or_false] at digit
  have small := byte.toNat_lt
  rcases digit with rfl | rfl
  · exact high _ (by omega)
  · exact high _ (by omega)

theorem valueFits_bytesToHex {data : ByteString} (filled : data ≠ []) :
    ValueFits (bytesToHex data) := by
  refine .of_forall ?_ fun _ => mem_bytesToHex
  obtain ⟨first, rest, rfl⟩ := List.exists_cons_of_ne_nil filled
  exact List.cons_ne_nil _ _

theorem signed_spec (token : ByteString) (now : Nat) (d : Apmd) :
    wp (signed c token now)
      (fun state d' => Readies d d' ∧ state.token = token ∧ ValueFits state.hmac ∧
        state.expiresAt = (now + SESSION_LIFETIME_SECONDS) % 2 ^ 64)
      (fun _ d' => Readies d d' ∧ d.masterKey = none) d := by
  refine wp_bind.mpr (wp_bind.mpr (wp_bind.mpr (wp_mono (ensureMasterKey_spec c d)
    (fun key d₁ h => ?_) ?_)))
  · refine ⟨h.1, rfl, valueFits_bytesToHex fun empty => ?_, rfl⟩
    have length := c.hmac_length (c.hmac key sessionKeyLabel)
      (buildSessionPayload ⟨token, (now + SESSION_LIFETIME_SECONDS) % 2 ^ 64, []⟩)
    rw [empty] at length
    cases length
  · rintro _ _ ⟨rfl, absent⟩
    exact ⟨refl_of Readies _, absent⟩

/-- The end of a session that is written now does not overflow. -/
theorem expiresAt_eq (now : UnixSeconds) :
    (now.val + SESSION_LIFETIME_SECONDS) % 2 ^ 64 = now.val + SESSION_LIFETIME_SECONDS := by
  have := now.isLt
  have lifetime : SESSION_LIFETIME_SECONDS = 180 := rfl
  omega

/-- A session that is signed now can be written. -/
theorem signed_writes {token : ByteString} (fits : ValueFits token) (d : Apmd) :
    wp (signed c token d.now)
      (fun state d' => state.token = token ∧ WritesSession d state
        { d' with dir := { d'.dir with sessionFile := some (serializeSession state) } })
      (fun _ d' => Readies d d' ∧ d.masterKey = none) d := by
  refine wp_mono (signed_spec c token d.now d) (fun state d₁ h => ?_) fun _ _ h => h
  obtain ⟨ready, same, hmac, expires⟩ := h
  rw [expiresAt_eq] at expires
  have lifetime : SESSION_LIFETIME_SECONDS = 180 := rfl
  have small := d.now.isLt
  exact ⟨same, d₁, ready, ⟨same ▸ fits, hmac, by omega, by omega⟩, expires, rfl⟩

theorem issueSession_spec (d : Apmd) :
    wp (issueSession c) (fun state d' => WritesSession d state d')
      (fun _ d' => Readies d d' ∧ d.masterKey = none) d := by
  refine wp_bind.mpr (wp_mono (randomBytes_spec c 32 d) (fun random d₁ drawn => ?_) nofun)
  have fits : ValueFits (bytesToHex random) := by
    refine valueFits_bytesToHex fun empty => ?_
    rw [empty] at drawn
    cases drawn.1
  refine wp_bind.mpr (wp_update.mpr (wp_bind.mpr (wp_mono (signed_writes c fits d₁) ?_ ?_)))
  · rintro state d₂ ⟨-, writes⟩
    exact writes.of_readies drawn.2
  · rintro _ d₂ ⟨ready, absent⟩
    refine ⟨trans_of Readies drawn.2 ready, ?_⟩
    cases memory : d.masterKey with
    | none => rfl
    | some key => exact nomatch (drawn.2.memory memory).symm.trans absent

/-! ### Setting the secret -/

/-- The questions are written over with a text. -/
def withQuestions (d : Apmd) (raw : Option ByteString) : Apmd :=
  { d with dir := { d.dir with securityQaFile := raw } }

theorem KeyReady.withQuestions {d d₁ : Apmd} (h : KeyReady d d₁) (raw : Option ByteString) :
    KeyReady d (withQuestions d₁ raw) := h.of_eq rfl rfl rfl rfl

theorem setSecret_spec (secret : ByteString) (questions : List (ByteString × ByteString))
    (d : Apmd) :
    wp (setSecret c secret questions)
      (fun _ d' => d.dir.passPinFile = none ∧ secret ≠ [] ∧ (∀ qa ∈ questions, Storable qa) ∧
        ∃ raw d₁, Readies d d₁ ∧ Configures c secret (withQuestions d₁ (some raw)) d')
      (fun _ d' => (Readies d d' ∧ (d.masterKey.isSome →
          questions.length = SECURITY_QUESTION_COUNT → d.dir.passPinFile = none →
          ¬ ∀ qa ∈ questions, Storable qa)) ∨
        d.dir.passPinFile = none ∧ secret = [] ∧
          ∃ d₁, Readies d d₁ ∧ d' = withQuestions d₁ none) d := by
  refine wp_bind.mpr (wp_isPasspinConfigured.mpr (wp_ite.mpr ⟨fun there => ?_, fun absent => ?_⟩))
  · refine .inl ⟨refl_of Readies d, fun _ _ free => ?_⟩
    rw [free] at there
    cases there
  rw [Option.not_isSome_iff_eq_none] at absent
  refine wp_ite.mpr ⟨fun long => .inl ⟨refl_of Readies d, fun _ length => ?_⟩, fun _ => ?_⟩
  · exact absurd length (bne_iff_ne.mp long)
  refine wp_bind.mpr (wp_mono (persistSecurityQuestions_spec c questions d) ?_ ?_)
  · rintro _ _ ⟨storable, raw, d₁, ready, memory, rfl⟩
    refine wp_bind.mpr (wp_attempt.mpr (wp_mono (persistPasspin_spec c secret false _) ?_ ?_))
    · rintro _ d' ⟨filled, configured⟩
      exact ⟨absent, filled, storable, raw, d₁, ready, configured⟩
    · rintro _ d₂ ⟨ready', fails⟩
      have before : Readies d₁ (withQuestions d₂ d₁.dir.securityQaFile) :=
        ⟨ready'.key.of_eq rfl rfl rfl rfl, ready'.now, ready'.passPin, rfl, ready'.lockout,
          ready'.session⟩
      refine .inr ⟨absent, ?_, _, trans_of Readies ready before, rfl⟩
      by_contra filled
      have there := (fails filled memory).1
      rw [ready.passPin, absent] at there
      cases there
  · rintro _ d' ⟨ready, fails⟩
    exact .inl ⟨ready, fun memory length _ => fails memory length⟩

/-! ### Using a session -/

/-- The session that the file holds. -/
def Holds (d : Apmd) (state : SessionState) : Prop :=
  ∃ raw, d.dir.sessionFile = some raw ∧ parseSession raw = .ok state

theorem loadSession_spec (d : Apmd) :
    wp loadSession (fun state d' => d' = d ∧ Holds d state)
      (fun _ d' => d' = d ∧ ∀ state, ¬ Holds d state) d := by
  refine wp_bind.mpr (wp_update.mpr ?_)
  dsimp only
  cases file : d.dir.sessionFile with
  | none => exact ⟨rfl, fun _ ⟨_, there, _⟩ => nomatch file.symm.trans there⟩
  | some raw =>
    cases read : parseSession raw with
    | error msg =>
      dsimp only
      rw [read]
      refine ⟨rfl, fun state ⟨raw', there, found⟩ => ?_⟩
      obtain rfl : raw = raw' := Option.some.inj (file.symm.trans there)
      exact nomatch read.symm.trans found
    | ok state =>
      dsimp only
      rw [read]
      exact ⟨rfl, raw, file, read⟩

theorem loadForToken_spec (token : ByteString) (d : Apmd) :
    wp (loadForToken token) (fun state d' => d' = d ∧ token ≠ [] ∧ Holds d state)
      (fun _ d' => d' = d ∧ ∀ state, ¬ (token ≠ [] ∧ Holds d state)) d := by
  refine wp_ite.mpr ⟨fun empty => ⟨rfl, fun _ h => h.1 (List.isEmpty_iff.mp empty)⟩,
    fun filled => ?_⟩
  refine wp_bind.mpr (wp_attempt.mpr (wp_mono (loadSession_spec d) ?_ ?_))
  · exact fun state d' h => ⟨h.1, fun empty => filled (List.isEmpty_iff.mpr empty), h.2⟩
  · exact fun _ d' h => ⟨h.1, fun state holds => h.2 state holds.2⟩

theorem validateSessionToken_spec (token : ByteString) (d : Apmd) :
    wp (validateSessionToken c token) (fun _ d' => UsesSession token d d')
      (fun _ d' => Readies d d') d := by
  refine wp_bind.mpr (wp_mono (loadForToken_spec token d) ?_ ?_)
  swap
  · rintro _ _ ⟨rfl, -⟩
    exact refl_of Readies _
  rintro state d₀ ⟨here, -, raw, file, read⟩
  rw [here]
  have check : wp (checkSession c token d.now state)
      (fun _ d' => Readies d d' ∧ state.token = token ∧ d.now < state.expiresAt)
      (fun _ d' => Readies d d') d := by
    refine wp_bind.mpr
      (wp_mono ((deriveHmac_readies c state).wp d) (fun _ d₁ h => ?_) fun _ _ h => h)
    refine wp_ite.mpr ⟨fun _ => h, fun _ => wp_ite.mpr ⟨fun _ => h, fun inForce =>
      wp_ite.mpr ⟨fun _ => h, fun same => ⟨h, ?_, ?_⟩⟩⟩⟩
    · rw [bne_iff_ne, not_not] at same
      exact same
    · rw [isSessionExpired, decide_eq_true_eq, Nat.not_le] at inForce
      exact inForce
  refine wp_bind.mpr (wp_update.mpr (wp_bind.mpr (wp_mono check ?_ fun _ _ h => h)))
  rintro _ d₁ ⟨ready, same, inForce⟩
  have writes := signed_writes c (parseSession_token read) d₁
  rw [ready.now] at writes
  refine wp_bind.mpr (wp_mono writes ?_ ?_)
  · rintro next d₂ ⟨token_eq, writes⟩
    exact ⟨raw, state, next, file, read, same, inForce, token_eq.trans same,
      writes.of_readies ready⟩
  · rintro _ d₂ ⟨ready', -⟩
    exact trans_of Readies ready ready'

/-! ### The security answers -/

def withLockout (d : Apmd) (raw : Option ByteString) : Apmd :=
  { d with dir := { d.dir with resetLockoutFile := raw } }

/-- When the lockout ends, if one is in force. -/
def lockedUntil (d : Apmd) : Option Nat :=
  (d.dir.resetLockoutFile.bind strtoull).filter (d.now.val < ·)

/-- As `Readies`, and a lockout that is over may be cleared. -/
structure Looks (d d' : Apmd) : Prop where
  key : KeyReady d d'
  now : d'.now = d.now
  passPin : d'.dir.passPinFile = d.dir.passPinFile
  securityQa : d'.dir.securityQaFile = d.dir.securityQaFile
  lockout : d'.dir.resetLockoutFile = d.dir.resetLockoutFile ∨
    lockedUntil d = none ∧ d'.dir.resetLockoutFile = none
  session : d'.dir.sessionFile = d.dir.sessionFile

theorem Readies.looks {d d' : Apmd} (h : Readies d d') : Looks d d' :=
  ⟨h.key, h.now, h.passPin, h.securityQa, .inl h.lockout, h.session⟩

theorem Looks.readies {d d₁ d' : Apmd} (h : Looks d d₁) (ready : Readies d₁ d') : Looks d d' :=
  ⟨h.key.trans ready.key, ready.now.trans h.now, ready.passPin.trans h.passPin,
    ready.securityQa.trans h.securityQa, by rw [ready.lockout]; exact h.lockout,
    ready.session.trans h.session⟩

/-- Nothing is in force that is cleared. -/
theorem Looks.cleared {d d₁ : Apmd} (h : Looks d d₁) (elapsed : lockedUntil d = none) :
    Looks d (withLockout d₁ none) :=
  ⟨h.key.of_eq rfl rfl rfl rfl, h.now, h.passPin, h.securityQa, .inr ⟨elapsed, rfl⟩, h.session⟩

theorem isLockedOut_spec (d : Apmd) :
    wp (isLockedOut d.now) (fun locked d' => locked = lockedUntil d ∧ Looks d d')
      (fun _ _ => False) d := by
  have same : Looks d d := (refl_of Readies d).looks
  refine wp_bind.mpr (wp_update.mpr ?_)
  dsimp only
  unfold lockedUntil
  cases file : d.dir.resetLockoutFile with
  | none => exact ⟨rfl, same⟩
  | some raw =>
    rw [Option.bind_some]
    dsimp only
    cases number : strtoull raw with
    | none => exact ⟨rfl, same.cleared (by rw [lockedUntil, file, Option.bind_some, number]; rfl)⟩
    | some unlockAt =>
      by_cases elapsed : unlockAt ≤ d.now.val
      · have none : (some unlockAt).filter (d.now.val < ·) = none := by simp [elapsed]
        rw [none]
        dsimp only
        rw [if_pos elapsed]
        exact ⟨rfl, same.cleared (by rw [lockedUntil, file, Option.bind_some, number, none])⟩
      · have some : (some unlockAt).filter (d.now.val < ·) = some unlockAt := by
          simp [Nat.not_le.mp elapsed]
        rw [some]
        dsimp only
        rw [if_neg elapsed]
        exact ⟨rfl, same⟩

theorem parseQuestions_length {plain : ByteString} {stored : List StoredQuestion}
    (h : parseQuestions plain = .ok stored) : stored.length = SECURITY_QUESTION_COUNT := by
  obtain ⟨x, -, checked⟩ := ok_of_bind h
  split at checked
  · cases checked
  split at checked
  · cases checked
  · rename_i x' _ count
    cases checked
    rw [bne_iff_ne, not_not] at count
    exact count

theorem loadStoredQuestions_length (d : Apmd) :
    wp (loadStoredQuestions c) (fun stored _ => stored.length = SECURITY_QUESTION_COUNT)
      (fun _ _ => True) d := by
  refine wp_bind.mpr (wp_update.mpr ?_)
  dsimp only
  split
  · trivial
  · refine wp_bind.mpr (wp_of_forall (fun plain d' => ?_) fun _ _ => trivial)
    split
    · trivial
    · rename_i stored read
      exact parseQuestions_length read

theorem loadUnlocked_spec (d : Apmd) :
    wp (loadUnlocked c d.now)
      (fun stored d' => lockedUntil d = none ∧ stored.length = SECURITY_QUESTION_COUNT ∧ Looks d d')
      (fun _ d' => Looks d d') d := by
  refine wp_bind.mpr (wp_mono (isLockedOut_spec d) ?_ nofun)
  rintro locked d₁ ⟨rfl, looks⟩
  split
  · exact looks
  · rename_i elapsed
    refine wp_mono (wp_and (loadStoredQuestions_length c d₁)
      ((loadStoredQuestions_readies c).wp d₁)) ?_ ?_
    · rintro stored d₂ ⟨length, ready⟩
      exact ⟨elapsed, length, looks.readies ready⟩
    · rintro _ d₂ ⟨-, ready⟩
      exact looks.readies ready

/-- All answers are looked at, or those up to a wrong one. -/
theorem checkAnswers_spec (now : Nat) (qas : List (StoredQuestion × ByteString)) (d : Apmd) :
    wp (forEach (checkAnswer c now) qas ())
      (fun _ d' => (∀ qa ∈ qas, answers c qa.1 qa.2) ∧ d' = d)
      (fun _ d' => (¬ ∀ qa ∈ qas, answers c qa.1 qa.2) ∧
        d' = withLockout d (some (decimal ((now + kResetCooldownSeconds) % 2 ^ 64)))) d := by
  induction qas with
  | nil => exact ⟨nofun, rfl⟩
  | cons qa qas ih =>
    refine wp_bind.mpr (wp_ite.mpr ⟨fun right => wp_pure.mpr (wp_mono ih ?_ ?_),
      fun wrong => ⟨?_, rfl⟩⟩)
    · rintro _ d' ⟨rest, same⟩
      exact ⟨List.forall_mem_cons.mpr ⟨right, rest⟩, same⟩
    · rintro _ d' ⟨wrong, same⟩
      exact ⟨fun all => wrong fun qa mem => all qa (List.mem_cons_of_mem _ mem), same⟩
    · exact fun all => wrong (all qa List.mem_cons_self)

/-- The questions are open and can be read. -/
def Opens (d : Apmd) (stored : List StoredQuestion) : Prop :=
  (exec (loadUnlocked c d.now) d).1 = .ok stored

theorem loadUnlocked_opens (d : Apmd) :
    wp (loadUnlocked c d.now)
      (fun stored d' => Opens c d stored ∧ lockedUntil d = none ∧
        stored.length = SECURITY_QUESTION_COUNT ∧ Looks d d')
      (fun _ d' => (∀ stored, ¬ Opens c d stored) ∧ Looks d d') d := by
  refine wp_mono (wp_and (wp_exec _ d) (loadUnlocked_spec c d)) ?_ ?_
  · rintro stored d' ⟨run, rest⟩
    exact ⟨congrArg Prod.fst run, rest⟩
  · rintro msg d' ⟨run, looks⟩
    refine ⟨fun stored opens => ?_, looks⟩
    rw [Opens, run] at opens
    cases opens

/-- Every answer fits its question. -/
def AllRight (stored : List StoredQuestion) (given : List ByteString) : Prop :=
  ∀ qa ∈ stored.zip given, answers c qa.1 qa.2

theorem validateSecurityAnswers_spec {given : List ByteString}
    (count : given.length = SECURITY_QUESTION_COUNT) (d : Apmd) :
    wp (validateSecurityAnswers c given)
      (fun _ d' => ∃ stored, Opens c d stored ∧ stored.length = given.length ∧
        AllRight c stored given ∧ lockedUntil d = none ∧ Looks d d')
      (fun _ d' => ((∀ stored, ¬ Opens c d stored) ∧ Looks d d') ∨
        ∃ stored, Opens c d stored ∧ ¬ AllRight c stored given ∧ ∃ d₁, Looks d d₁ ∧
          d' = withLockout d₁ (some (decimal ((d.now + kResetCooldownSeconds) % 2 ^ 64)))) d := by
  refine wp_bind.mpr (wp_update.mpr (wp_bind.mpr (wp_mono (loadUnlocked_opens c d) ?_ ?_)))
  · rintro stored d₁ ⟨opens, elapsed, length, looks⟩
    have same : stored.length = given.length := length.trans count.symm
    refine wp_ite.mpr ⟨fun differs => absurd same.symm (bne_iff_ne.mp differs), fun _ => ?_⟩
    refine wp_bind.mpr (wp_mono (checkAnswers_spec c d.now _ d₁) ?_ ?_)
    · rintro _ _ ⟨right, rfl⟩
      exact ⟨stored, opens, same, right, elapsed, looks.cleared elapsed⟩
    · rintro _ _ ⟨wrong, rfl⟩
      exact .inr ⟨stored, opens, wrong, d₁, looks, rfl⟩
  · rintro msg d₁ fails
    exact .inl fails

end Writes

/-! ### Requests -/

theorem forall₂_of_mapM {α β : Type} {f : α → Option β} {l : List α} {out : List β}
    (h : l.mapM f = some out) : List.Forall₂ (fun a b => f a = some b) l out := by
  induction l generalizing out with
  | nil =>
    cases h
    exact .nil
  | cons a l ih =>
    rw [List.mapM_cons] at h
    obtain ⟨b, first, h⟩ := Option.bind_eq_some_iff.mp h
    obtain ⟨rest, others, h⟩ := Option.bind_eq_some_iff.mp h
    cases h
    exact .cons first (ih others)

theorem collectAnswers_length {fields : Repo.Fields} {given : List ByteString}
    (h : collectAnswers fields = some given) : given.length = SECURITY_QUESTION_COUNT :=
  (forall₂_of_mapM h).length_eq.symm

theorem collectQuestions_length {fields : Repo.Fields} {questions : List (ByteString × ByteString)}
    (h : collectQuestions fields = some questions) :
    questions.length = SECURITY_QUESTION_COUNT := (forall₂_of_mapM h).length_eq.symm

/-- Questions and answers that a request brings are not empty. -/
theorem collectQuestions_filled {fields : Repo.Fields}
    {questions : List (ByteString × ByteString)} (h : collectQuestions fields = some questions) :
    ∀ qa ∈ questions, qa.1 ≠ [] ∧ qa.2 ≠ [] := by
  have filled : ∀ {key value : ByteString}, filledField fields key = some value → value ≠ [] := by
    rintro key value found rfl
    have := (Option.filter_eq_some_iff.mp found).2
    cases this
  have all := forall₂_of_mapM h
  clear h
  generalize List.range SECURITY_QUESTION_COUNT = indices at all
  induction all with
  | nil => exact nofun
  | cons first _ ih =>
    obtain ⟨question, foundQuestion, first⟩ := Option.bind_eq_some_iff.mp first
    obtain ⟨answer, foundAnswer, first⟩ := Option.bind_eq_some_iff.mp first
    cases first
    exact List.forall_mem_cons.mpr ⟨⟨filled foundQuestion, filled foundAnswer⟩, ih⟩

theorem wp_reply {α : Type} {c : Request} {fallback : String} {act : Sec α} {resp : α → Response}
    {P : Response → Apmd → Prop} {d : Apmd}
    (h : wp act (fun a d' => P (resp a) d') (fun _ d' => ∀ msg, P (failure c msg) d') d) :
    wp (reply c fallback act resp) P (fun _ _ => False) d := by
  refine wp_bind.mpr (wp_attempt.mpr (wp_mono h (fun _ _ h => h) fun _ _ h => ?_))
  exact h _

/-- The request sets a secret, where none is configured. -/
def Sets (req : Request) (d : Apmd) : Prop :=
  req.type = .Authenticate ∧ req.authAction = str "set" ∧ req.authSecret ≠ [] ∧
    d.dir.passPinFile = none ∧ ∃ questions, collectQuestions req.rawFields = some questions ∧
      ∀ qa ∈ questions, chr '\n' ∉ qa.1 ∧ chr '\r' ∉ qa.1

/-- The answers of a request that are compared with the stored ones. -/
def givenAnswers (req : Request) : Option (List ByteString) :=
  if resetStage req = str "verify" ∨ resetStage req = str "reset" ∧ newSecret req ≠ [] then
    collectAnswers req.rawFields
  else none

/-- The request gives a wrong answer, and it is looked at. -/
def WrongAnswer (c : Crypto) (req : Request) (d : Apmd) : Prop :=
  req.type = .ForgotPassword ∧ ∃ given stored, givenAnswers req = some given ∧ Opens c d stored ∧
    ¬ AllRight c stored given

/-- The request resets the secret, with the right answer to every question. -/
def RightReset (c : Crypto) (req : Request) (d : Apmd) : Prop :=
  req.type = .ForgotPassword ∧ resetStage req = str "reset" ∧ lockedUntil d = none ∧
    ∃ given stored, givenAnswers req = some given ∧ Opens c d stored ∧
      stored.length = given.length ∧ AllRight c stored given

/-- What a request can do. -/
inductive Handles (c : Crypto) (req : Request) (d : Apmd) : Outcome → Apmd → Prop where
  | unauthorized {message : ByteString} {d' : Apmd} (gate : requiresAuth req.type = true)
      (ready : Readies d d') : Handles c req d (.unauthorized message) d'
  | ungated (gate : requiresAuth req.type = false) (plain : req.type ≠ .Authenticate)
      (plain' : req.type ≠ .ForgotPassword) : Handles c req d .handled d
  | authorized {d' : Apmd} (gate : requiresAuth req.type = true) (plain : req.type ≠ .FactoryReset)
      (uses : UsesSession req.sessionToken d d') : Handles c req d .handled d'
  | wiped {d' : Apmd} (type : req.type = .FactoryReset)
      (uses : UsesSession req.sessionToken d d') : Handles c req d .handled { d' with dir := {} }
  | notAuthenticated {message : ByteString} {d' : Apmd} (type : req.type = .Authenticate)
      (ready : Readies d d') (unset : d.masterKey.isSome → ¬ Sets req d) :
      Handles c req d (.replied (failure req message)) d'
  | setUndone {message : ByteString} {d' : Apmd} (type : req.type = .Authenticate)
      (free : d.dir.passPinFile = none) (empty : req.authSecret = []) (ready : Readies d d') :
      Handles c req d (.replied (failure req message)) (withQuestions d' none)
  | unlocked {message : String} {state : SessionState} {d' : Apmd}
      (type : req.type = .Authenticate) (action : req.authAction ≠ str "set")
      (writes : WritesSession d state d') :
      Handles c req d (.replied (sessionResponse req message state)) d'
  | set {message : String} {raw : ByteString} {state : SessionState} {d₁ d₂ d' : Apmd}
      (sets : Sets req d) (ready : Readies d d₁)
      (configures : Configures c req.authSecret (withQuestions d₁ (some raw)) d₂)
      (writes : WritesSession d₂ state d') :
      Handles c req d (.replied (sessionResponse req message state)) d'
  | looked {resp : Response} {d' : Apmd} (type : req.type = .ForgotPassword) (looks : Looks d d')
      (calm : ¬ WrongAnswer c req d)
      (shown : resp.success → lockedUntil d = none ∧ resetStage req ≠ str "reset" ∧
        resp.rawFields.lookup (str "session_token") = none) :
      Handles c req d (.replied resp) d'
  | wrong {message : ByteString} {d' : Apmd} (wrong : WrongAnswer c req d) (looks : Looks d d') :
      Handles c req d (.replied (failure req message))
        (withLockout d' (some (decimal ((d.now + kResetCooldownSeconds) % 2 ^ 64))))
  | reset {message : String} {state : SessionState} {d₁ d₂ d' : Apmd} (right : RightReset c req d)
      (looks : Looks d d₁) (configures : Configures c (newSecret req) d₁ d₂)
      (writes : WritesSession d₂ state d') :
      Handles c req d (.replied (sessionResponse req message state)) d'

theorem Configures.rest {secret : ByteString} {c : Crypto} {d d' : Apmd}
    (h : Configures c secret d d') :
    d'.now = d.now ∧ d'.dir.resetLockoutFile = d.dir.resetLockoutFile := by
  obtain ⟨key, raw, d₁, ready, -, -, rfl⟩ := h
  exact ⟨ready.now, ready.lockout⟩

theorem WritesSession.rest {state : SessionState} {d d' : Apmd}
    (h : WritesSession d state d') :
    d'.now = d.now ∧ d'.dir.resetLockoutFile = d.dir.resetLockoutFile ∧
      d'.dir.passPinFile = d.dir.passPinFile := by
  obtain ⟨d₁, ready, -, -, rfl⟩ := h
  exact ⟨ready.now, ready.lockout, ready.passPin⟩

theorem UsesSession.rest {token : ByteString} {d d' : Apmd} (h : UsesSession token d d') :
    d'.now = d.now ∧ d'.dir.resetLockoutFile = d.dir.resetLockoutFile ∧
      d'.dir.passPinFile = d.dir.passPinFile := by
  obtain ⟨raw, state, next, -, -, -, -, -, writes⟩ := h
  exact writes.rest

section Requests

variable (c : Crypto) (req : Request)

theorem Configures.memory {c : Crypto} {secret : ByteString} {d d' : Apmd}
    (h : Configures c secret d d') : d'.masterKey.isSome := by
  obtain ⟨key, raw, d₁, -, memory, -, rfl⟩ := h
  exact Option.isSome_of_eq_some memory

theorem issueSession_configured {secret : ByteString} {d d' : Apmd}
    (h : Configures c secret d d') :
    wp (issueSession c) (fun state d'' => WritesSession d' state d'') (fun _ _ => False) d' := by
  refine wp_mono (issueSession_spec c d') (fun _ _ h => h) ?_
  rintro _ d'' ⟨-, absent⟩
  have memory := h.memory
  rw [absent] at memory
  cases memory

theorem replyAuthenticate_set {questions : List (ByteString × ByteString)} {d : Apmd}
    (type : req.type = .Authenticate) (action : req.authAction = str "set")
    (collected : collectQuestions req.rawFields = some questions) :
    wp (replyAuthenticate c req questions) (fun resp d' => Handles c req d (.replied resp) d')
      (fun _ _ => False) d := by
  refine wp_reply ?_
  have filled := collectQuestions_filled collected
  have act : authenticate c req.authAction req.authSecret questions =
      (do setSecret c req.authSecret questions; issueSession c) := by
    rw [action]
    rfl
  rw [act]
  refine wp_bind.mpr (wp_mono (setSecret_spec c _ _ d) ?_ ?_)
  · rintro _ d₂ ⟨free, secret, storable, raw, d₁, ready, configures⟩
    have sets : Sets req d :=
      ⟨type, action, secret, free, questions, collected, fun qa mem => (storable qa mem).2.2⟩
    exact wp_mono (issueSession_configured c configures)
      (fun state d' writes => .set sets ready configures writes) nofun
  · rintro _ d' (⟨ready, fails⟩ | ⟨free, empty, d₁, ready, rfl⟩) message
    · refine .notAuthenticated type ready fun memory sets => ?_
      obtain ⟨-, -, -, free, questions', collected', clean⟩ := sets
      obtain rfl : questions' = questions := Option.some.inj (collected'.symm.trans collected)
      exact fails memory (collectQuestions_length collected) free fun qa mem =>
        ⟨(filled qa mem).1, (filled qa mem).2, clean qa mem⟩
    · exact .setUndone type free empty ready

theorem replyAuthenticate_unlock {d : Apmd} (type : req.type = .Authenticate)
    (action : req.authAction ≠ str "set") :
    wp (replyAuthenticate c req []) (fun resp d' => Handles c req d (.replied resp) d')
      (fun _ _ => False) d := by
  have unset : d.masterKey.isSome → ¬ Sets req d := fun _ sets => action sets.2.1
  have first : wp (setOrVerify c req.authAction req.authSecret [])
      (fun _ d' => Readies d d') (fun _ d' => Readies d d') d := by
    refine wp_ite.mpr ⟨fun _ => ?_, fun _ => (verifySecret_readies c _).wp d⟩
    exact wp_bind.mpr (wp_isPasspinConfigured.mpr (wp_ite.mpr ⟨fun _ => refl_of Readies d,
      fun _ => wp_ite.mpr ⟨fun _ => refl_of Readies d, fun count => absurd rfl count⟩⟩))
  refine wp_reply (wp_bind.mpr (wp_mono first (fun _ d₁ ready => ?_) fun _ d' ready _ => ?_))
  · refine wp_mono (issueSession_spec c d₁) (fun state d' writes => ?_) fun _ d' fails _ => ?_
    · exact .unlocked type action (writes.of_readies ready)
    · exact .notAuthenticated type (trans_of Readies ready fails.1) unset
  · exact .notAuthenticated type ready unset

theorem handleAuthenticate_handles {d : Apmd} (type : req.type = .Authenticate) :
    wp (handleAuthenticate c req) (fun resp d' => Handles c req d (.replied resp) d')
      (fun _ _ => False) d := by
  refine wp_ite.mpr ⟨fun set => ?_, fun other => ?_⟩
  · have action : req.authAction = str "set" := beq_iff_eq.mp set
    cases collected : collectQuestions req.rawFields with
    | none =>
      refine .notAuthenticated type (refl_of Readies d) fun _ sets => ?_
      obtain ⟨-, -, -, -, questions, some, -⟩ := sets
      exact nomatch collected.symm.trans some
    | some questions => exact replyAuthenticate_set c req type action collected
  · exact replyAuthenticate_unlock c req type fun action => other (beq_iff_eq.mpr action)

theorem questionsResponse_token (questions : List ByteString) :
    (questionsResponse req questions).rawFields.lookup (str "session_token") = none := by
  have other : ∀ idx, numbered "security_q" idx ≠ str "session_token" := by
    intro idx same
    have third := congrArg (·[2]?) same
    simp [numbered, str] at third
  suffices go : ∀ (l : List (ByteString × Nat)) (fields : Repo.Fields),
      fields.lookup (str "session_token") = none →
      (l.foldl (fun fields question => fields.insert (numbered "security_q" question.2) question.1)
        fields).lookup (str "session_token") = none from go _ _ rfl
  intro l
  induction l with
  | nil => exact fun _ absent => absent
  | cons question l ih =>
    intro fields absent
    exact ih _ ((AList.lookup_insert_ne (other question.2).symm).trans absent)

/-- Right answers are no wrong ones. -/
theorem calm_of_right {given : List ByteString} {stored : List StoredQuestion} {d : Apmd}
    (gives : givenAnswers req = some given) (opens : Opens c d stored)
    (right : AllRight c stored given) : ¬ WrongAnswer c req d := by
  rintro ⟨-, given', stored', gives', opens', wrong⟩
  obtain rfl : given' = given := Option.some.inj (gives'.symm.trans gives)
  obtain rfl : stored' = stored := Except.ok.inj (opens'.symm.trans opens)
  exact wrong right

/-- Without answers that are compared, none is wrong. -/
theorem calm_of_none {d : Apmd} (gives : givenAnswers req = none) : ¬ WrongAnswer c req d := by
  rintro ⟨-, given, -, gives', -⟩
  exact nomatch gives.symm.trans gives'

theorem validateSecurityAnswers_handles {given : List ByteString} {d : Apmd}
    (type : req.type = .ForgotPassword) (gives : givenAnswers req = some given)
    (collected : collectAnswers req.rawFields = some given) :
    wp (validateSecurityAnswers c given)
      (fun _ d' => ∃ stored, Opens c d stored ∧ stored.length = given.length ∧
        AllRight c stored given ∧ lockedUntil d = none ∧ Looks d d')
      (fun _ d' => ∀ message, Handles c req d (.replied (failure req message)) d') d := by
  refine wp_mono (validateSecurityAnswers_spec c (collectAnswers_length collected) d)
    (fun _ _ h => h) ?_
  rintro _ d' (⟨shut, looks⟩ | ⟨stored, opens, wrong, d₁, looks, rfl⟩) message
  · refine .looked type looks ?_ nofun
    rintro ⟨-, given', stored, -, opens, -⟩
    exact shut stored opens
  · exact .wrong ⟨type, given, stored, gives, opens, wrong⟩ looks

theorem handleReset_handles {given : List ByteString} {d : Apmd}
    (type : req.type = .ForgotPassword) (stage : resetStage req = str "reset")
    (collected : collectAnswers req.rawFields = some given) :
    wp (handleReset c req given) (fun resp d' => Handles c req d (.replied resp) d')
      (fun _ _ => False) d := by
  have notVerify : resetStage req ≠ str "verify" := by
    rw [stage]
    decide
  refine wp_ite.mpr ⟨fun empty => ?_, fun filled => wp_reply ?_⟩
  · refine .looked type (refl_of Readies d).looks (calm_of_none c req (if_neg ?_)) nofun
    rintro (verify | ⟨-, filled⟩)
    · exact notVerify verify
    · exact filled (List.isEmpty_iff.mp empty)
  have gives : givenAnswers req = some given :=
    (if_pos (.inr ⟨stage, fun empty => filled (List.isEmpty_iff.mpr empty)⟩)).trans collected
  refine wp_bind.mpr (wp_mono (validateSecurityAnswers_handles c req type gives collected) ?_
    fun _ _ h => h)
  rintro _ d₁ ⟨stored, opens, length, right, elapsed, looks⟩
  refine wp_bind.mpr (wp_mono (persistPasspin_spec c _ true d₁) ?_ ?_)
  · rintro _ d₂ ⟨-, configures⟩
    exact wp_mono (issueSession_configured c configures)
      (fun state d' writes => .reset
        ⟨type, stage, elapsed, given, stored, gives, opens, length, right⟩
        looks configures writes) nofun
  · rintro _ d' ⟨ready, -⟩ message
    exact .looked type (looks.readies ready) (calm_of_right c req gives opens right) nofun

theorem fetchSecurityQuestions_spec (d : Apmd) :
    wp (fetchSecurityQuestions c) (fun _ d' => lockedUntil d = none ∧ Looks d d')
      (fun _ d' => Looks d d') d :=
  wp_bind.mpr (wp_update.mpr (wp_bind.mpr (wp_mono (loadUnlocked_spec c d)
    (fun _ _ h => ⟨h.1, h.2.2⟩) fun _ _ h => h)))

theorem handleForgotPassword_handles {d : Apmd} (type : req.type = .ForgotPassword) :
    wp (handleForgotPassword c req) (fun resp d' => Handles c req d (.replied resp) d')
      (fun _ _ => False) d := by
  have same : Looks d d := (refl_of Readies d).looks
  refine wp_ite.mpr ⟨fun stage => ?_, fun notQuestions => wp_ite.mpr ⟨fun stage => ?_,
    fun notVerify => wp_ite.mpr ⟨fun stage => ?_, fun notReset => ?_⟩⟩⟩
  · have questions : resetStage req = str "questions" := beq_iff_eq.mp stage
    have calm : ¬ WrongAnswer c req d := by
      refine calm_of_none c req (if_neg ?_)
      rintro (verify | ⟨reset, -⟩)
      · exact absurd (questions.symm.trans verify) (by decide)
      · exact absurd (questions.symm.trans reset) (by decide)
    refine wp_reply (wp_mono (fetchSecurityQuestions_spec c d) ?_ ?_)
    · rintro shown d' ⟨elapsed, looks⟩
      refine .looked type looks calm fun _ => ⟨elapsed, ?_, questionsResponse_token req shown⟩
      rw [questions]
      decide
    · exact fun _ d' looks message => .looked type looks calm nofun
  · have verify : resetStage req = str "verify" := beq_iff_eq.mp stage
    cases collected : collectAnswers req.rawFields with
    | none =>
      refine .looked type same (calm_of_none c req ?_) nofun
      exact (if_pos (.inl verify)).trans collected
    | some given =>
      have gives : givenAnswers req = some given := (if_pos (.inl verify)).trans collected
      refine wp_reply (wp_mono (validateSecurityAnswers_handles c req type gives collected) ?_
        fun _ _ h => h)
      rintro _ d' ⟨stored, opens, -, right, elapsed, looks⟩
      refine .looked type looks (calm_of_right c req gives opens right) fun _ => ⟨elapsed, ?_, rfl⟩
      rw [verify]
      decide
  · cases collected : collectAnswers req.rawFields with
    | none =>
      refine .looked type same (calm_of_none c req ?_) nofun
      rw [givenAnswers, collected, ite_self]
    | some given => exact handleReset_handles c req type (beq_iff_eq.mp stage) collected
  · refine .looked type same (calm_of_none c req (if_neg ?_)) nofun
    rintro (verify | ⟨reset, -⟩)
    · exact notVerify (beq_iff_eq.mpr verify)
    · exact notReset (beq_iff_eq.mpr reset)

/-- What is left to the handler of the type. -/
theorem exec_dispatch_other {d : Apmd} (type : req.type ≠ .Authenticate)
    (type' : req.type ≠ .ForgotPassword) (type'' : req.type ≠ .FactoryReset) :
    exec (dispatch c req) d = (.ok .handled, d) := by
  unfold dispatch
  split
  · exact absurd ‹_› type
  · exact absurd ‹_› type'
  · exact absurd ‹_› type''
  · rfl

theorem exec_dispatch_factoryReset {d : Apmd} (type : req.type = .FactoryReset) :
    exec (dispatch c req) d = (.ok .handled, { d with dir := {} }) := by
  unfold dispatch
  rw [type]
  rfl

/-- **Every request does one of the things listed.** -/
theorem handleRequest_handles (d : Apmd) :
    wp (handleRequest c req) (fun o d' => Handles c req d o d') (fun _ _ => False) d := by
  refine wp_ite.mpr ⟨fun gate => ?_, fun gate => ?_⟩
  · have type : req.type ≠ .Authenticate := fun same => by rw [same] at gate; cases gate
    have type' : req.type ≠ .ForgotPassword := fun same => by rw [same] at gate; cases gate
    refine wp_bind.mpr (wp_attempt.mpr (wp_mono (validateSessionToken_spec c _ d) ?_ ?_))
    · rintro _ d' uses
      by_cases reset : req.type = .FactoryReset
      · rw [wp, exec_dispatch_factoryReset c req reset]
        exact .wiped reset uses
      · rw [wp, exec_dispatch_other c req type type' reset]
        exact .authorized gate reset uses
    · exact fun _ d' ready => .unauthorized gate ready
  · rw [Bool.not_eq_true] at gate
    by_cases authenticate : req.type = .Authenticate
    · unfold dispatch
      rw [authenticate]
      exact wp_bind.mpr (handleAuthenticate_handles c req authenticate)
    by_cases forgot : req.type = .ForgotPassword
    · unfold dispatch
      rw [forgot]
      exact wp_bind.mpr (handleForgotPassword_handles c req forgot)
    have plain : req.type ≠ .FactoryReset := fun same => by rw [same] at gate; cases gate
    rw [wp, exec_dispatch_other c req authenticate forgot plain]
    exact .ungated gate authenticate forgot

/-- A step that is a request. -/
theorem step_handles (d : Apmd) :
    Handles c req d (respond c req d) (step c d (.request req)) := by
  have handles := handleRequest_handles c req d
  unfold wp at handles
  unfold respond step
  dsimp only
  split at handles
  · rename_i o d' run
    rw [run]
    exact handles
  · exact handles.elim

end Requests

end Apm.Daemon
