import Apm.Core.Session
import Apm.Ipc.Client
import Apm.Ipc.Request
import Apm.Lib.Effect
import Mathlib.Algebra.GroupWithZero.Nat

/-!
The secret, the security questions and the session of a device: `src/apmd/boringssl_client.cpp`,
`src/apmd/security_manager.cpp` and the requests of `src/apmd/ipc_server.cpp` that use them.

The calls of BoringSSL are parameters. They succeed, as do writes and removals of files.
-/

namespace Apm.Daemon

open Apm.Ipc Apm.Lib.Effect Apm.Security

/-! ### The outside -/

def kMasterKeyLen : Nat := 32
def kGcmIvLen : Nat := 12
def kGcmTagLen : Nat := 16
def kSaltLen : Nat := 32
def kDerivedLen : Nat := 32
def kSha256Len : Nat := 32
def kResetCooldownSeconds : Nat := 300

/-- The calls of BoringSSL. -/
structure Crypto where
  /-- `RAND_bytes`: the bytes that a call draws, by its number and their count. -/
  random : Nat → Nat → ByteString
  /-- AES-256-GCM, by key, IV and plaintext: the ciphertext and the tag. -/
  gcmSeal : ByteString → ByteString → ByteString → ByteString × ByteString
  /-- Its inverse, by key, IV, ciphertext and tag. -/
  gcmOpen : ByteString → ByteString → ByteString → ByteString → Option ByteString
  /-- PBKDF2, by secret and salt. -/
  pbkdf2 : ByteString → ByteString → ByteString
  /-- HMAC-SHA256, by key and text. -/
  hmac : ByteString → ByteString → ByteString
  /-- The text of `ERR_get_error`. -/
  cryptoError : ByteString
  random_length : ∀ call count, (random call count).length = count
  cipher_length : ∀ key iv plain, plain.length ≤ (gcmSeal key iv plain).1.length
  tag_length : ∀ key iv plain, (gcmSeal key iv plain).2.length = kGcmTagLen
  pbkdf2_length : ∀ secret salt, (pbkdf2 secret salt).length = kDerivedLen
  hmac_length : ∀ key text, (hmac key text).length = kSha256Len

/-- What is sealed is unsealed by the same key. -/
def Crypto.Unseals (c : Crypto) : Prop :=
  ∀ key iv plain, c.gcmOpen key iv (c.gcmSeal key iv plain).1 (c.gcmSeal key iv plain).2 =
    some plain

/-- A crypto to run examples with: it hides nothing, but only the right key opens. -/
def clearCrypto : Crypto where
  random call count := List.replicate count (UInt8.ofNat call)
  gcmSeal key _ plain := (key ++ plain, List.replicate kGcmTagLen 0)
  gcmOpen key _ ciphertext _ :=
    if ciphertext.take key.length = key then some (ciphertext.drop key.length) else none
  pbkdf2 secret _ := (secret ++ List.replicate kDerivedLen 0).take kDerivedLen
  hmac key text := List.replicate kSha256Len ((key ++ text).foldl (· + ·) 0)
  cryptoError := str "BoringSSL error"
  random_length _ _ := List.length_replicate
  cipher_length key _ plain := by
    rw [List.length_append]
    exact Nat.le_add_left _ _
  tag_length _ _ _ := List.length_replicate
  pbkdf2_length secret _ := by
    rw [List.length_take, List.length_append, List.length_replicate]
    omega
  hmac_length _ _ := List.length_replicate

theorem clearCrypto_unseals : clearCrypto.Unseals := by
  intro key iv plain
  change (if (key ++ plain).take key.length = key then some ((key ++ plain).drop key.length)
    else none) = some plain
  rw [if_pos List.take_left, List.drop_left]

/-- Whole seconds since the epoch: the clock counts smaller units in an `int64`. -/
abbrev UnixSeconds := Fin (2 ^ 63)

instance neZeroSeconds : NeZero (2 ^ 63 : Nat) := ⟨by decide⟩

/-- The files of the security directory. -/
structure SecurityDir where
  masterKeyFile : Option ByteString := none
  passPinFile : Option ByteString := none
  securityQaFile : Option ByteString := none
  resetLockoutFile : Option ByteString := none
  sessionFile : Option ByteString := none
deriving DecidableEq

/-- A daemon and the files it works on: `masterKey` is `m_masterKey`, once it is loaded. -/
structure Apmd where
  dir : SecurityDir := {}
  masterKey : Option ByteString := none
  now : UnixSeconds := 0
  draws : Nat := 0
deriving DecidableEq

abbrev Sec := Act Apmd ByteString

def current {ε : Type} : Act Apmd ε Apmd := update fun d => (d, d)

def onDir {ε : Type} (f : SecurityDir → SecurityDir) : Act Apmd ε Unit :=
  update fun d => ((), { d with dir := f d.dir })

/-! ### The crypto engine -/

section Engine

variable (c : Crypto)

def randomBytes (count : Nat) : Sec ByteString :=
  update fun d => (c.random d.draws count, { d with draws := d.draws + 1 })

def loadKey (key : ByteString) : Sec ByteString :=
  update fun d => (key, { d with masterKey := some key })

def loadMasterKey (raw : ByteString) : Sec ByteString :=
  if raw.length != kMasterKeyLen then throw (str "Master key file has invalid length")
  else loadKey raw

/-- `ensureMasterKey`: the key in memory, else the one on disk, else a new one. -/
def ensureMasterKey : Sec ByteString := do
  let d ← current
  match d.masterKey, d.dir.masterKeyFile with
  | some key, _ => pure key
  | none, some raw => loadMasterKey raw
  | none, none =>
      let key ← randomBytes c kMasterKeyLen
      onDir fun dir => { dir with masterKeyFile := some key }
      loadKey key

def encrypt (plain : ByteString) : Sec (ByteString × ByteString × ByteString) := do
  let key ← ensureMasterKey c
  let iv ← randomBytes c kGcmIvLen
  pure (iv, c.gcmSeal key iv plain)

def decrypt (iv ciphertext tag : ByteString) : Sec ByteString := do
  let key ← ensureMasterKey c
  if iv.length != kGcmIvLen then throw (str "Invalid IV length for AES-GCM")
  else if tag.length != kGcmTagLen then throw (str "Invalid GCM tag length")
  else match c.gcmOpen key iv ciphertext tag with
    | none => throw (str "AES-GCM authentication failed: " ++ c.cryptoError)
    | some plain => pure plain

def sessionKeyLabel : ByteString := str "apm-session-derive"

def deriveKeyMaterial : Sec ByteString := do
  let key ← ensureMasterKey c
  pure (c.hmac key sessionKeyLabel)

end Engine

/-! ### Encodings -/

def bytesToHex (data : ByteString) : ByteString :=
  data.flatMap fun b => [hexDigit (b.toNat / 16), hexDigit (b.toNat % 16)]

def decodeNibble (c : UInt8) : Option Nat :=
  if isdigit c then some (c.toNat - 48)
  else if 97 ≤ c && c ≤ 102 then some (10 + (c.toNat - 97))
  else if 65 ≤ c && c ≤ 70 then some (10 + (c.toNat - 65))
  else none

/-- The bytes of a text of hexadecimal pairs. -/
def hexToBytes : ByteString → Option ByteString
  | [] => some []
  | [_] => none
  | high :: low :: rest => do
      let h ← decodeNibble high
      let l ← decodeNibble low
      let bytes ← hexToBytes rest
      pure (UInt8.ofNat (16 * h + l) :: bytes)

/-- Equality, by the disjunction of all differences. -/
def constantTimeEquals (a b : ByteString) : Bool :=
  a.length == b.length && (List.zipWith (· ^^^ ·) a b).foldl (· ||| ·) 0 == 0

theorem constantTimeEquals_iff {a b : ByteString} : constantTimeEquals a b = true ↔ a = b := by
  have zero : ∀ x y : UInt8, x ||| y = 0 ↔ x = 0 ∧ y = 0 := by
    intro x y
    rw [← UInt8.toNat_inj, ← UInt8.toNat_inj, ← UInt8.toNat_inj, UInt8.toNat_or]
    exact Nat.or_eq_zero_iff
  have differences : ∀ (l : List UInt8) (diff : UInt8),
      l.foldl (· ||| ·) diff = 0 ↔ diff = 0 ∧ ∀ x ∈ l, x = 0 := by
    intro l
    induction l with
    | nil => intro diff; simp
    | cons x l ih =>
      intro diff
      rw [List.foldl_cons, ih, zero, List.forall_mem_cons, and_assoc]
  unfold constantTimeEquals
  rw [Bool.and_eq_true, beq_iff_eq, beq_iff_eq, differences]
  constructor
  · rintro ⟨length, -, same⟩
    apply List.ext_getElem length
    intro i left right
    have inside : i < (List.zipWith (· ^^^ ·) a b).length := by
      rw [List.length_zipWith]
      omega
    have difference := same _ (List.getElem_mem inside)
    rw [List.getElem_zipWith] at difference
    exact UInt8.xor_eq_zero_iff.mp difference
  · rintro rfl
    refine ⟨rfl, rfl, fun x mem => ?_⟩
    obtain ⟨i, inside, rfl⟩ := List.getElem_of_mem mem
    rw [List.getElem_zipWith]
    exact UInt8.xor_self

/-- IV, ciphertext and tag of a file. -/
def sealedText (parts : ByteString × ByteString × ByteString) : ByteString :=
  parts.1 ++ parts.2.1 ++ parts.2.2

/-- Decrypt what a file holds. -/
def decryptFile (c : Crypto) (corrupted : String) (raw : ByteString) : Sec ByteString :=
  if raw.length ≤ kGcmIvLen + kGcmTagLen then throw (str corrupted)
  else decrypt c (raw.take kGcmIvLen)
    ((raw.drop kGcmIvLen).take (raw.length - kGcmTagLen - kGcmIvLen))
    (raw.drop (raw.length - kGcmTagLen))

/-! ### The secret -/

section Secret

variable (c : Crypto)

def isPasspinConfigured : Sec Bool := do
  let d ← current
  pure d.dir.passPinFile.isSome

def persistPasspin (secret : ByteString) (allowOverwrite : Bool) : Sec Unit := do
  if secret.isEmpty then throw (str "Password/PIN cannot be empty")
  else if (← isPasspinConfigured) && !allowOverwrite then
    throw (str "Password/PIN already set. Factory reset is required to clear it.")
  else
    let _ ← ensureMasterKey c
    let salt ← randomBytes c kSaltLen
    let parts ← encrypt c (salt ++ c.pbkdf2 secret salt)
    onDir fun dir => { dir with passPinFile := some (sealedText parts) }

def decryptPasspin : Sec (ByteString × ByteString) := do
  let d ← current
  match d.dir.passPinFile with
  | none => throw (str "Password/PIN not configured")
  | some raw =>
      let plain ← decryptFile c "Stored password/PIN is corrupted" raw
      if plain.length != kSaltLen + kDerivedLen then
        throw (str "Stored password/PIN is corrupted")
      else pure (plain.take kSaltLen, plain.drop kSaltLen)

def verifySecret (secret : ByteString) : Sec Unit := do
  if secret.isEmpty then throw (str "Password/PIN cannot be empty")
  else
    let stored ← decryptPasspin c
    if !constantTimeEquals stored.2 (c.pbkdf2 secret stored.1) then
      throw (str "Password/PIN verification failed")
    else pure ()

end Secret

/-! ### The security questions -/

structure StoredQuestion where
  prompt : ByteString := []
  salt : ByteString := []
  answerHash : ByteString := []
deriving DecidableEq

section Questions

variable (c : Crypto)

/-- One question and its answer, behind those before. -/
def writeQuestion (qa : ByteString × ByteString) (plain : ByteString) : Sec ByteString := do
  if qa.1.isEmpty || qa.2.isEmpty then
    throw (str "Security questions and answers cannot be empty")
  else if qa.1.contains (chr '\n') || qa.1.contains (chr '\r') then
    throw (str "Security questions cannot contain newlines")
  else
    let salt ← randomBytes c kSaltLen
    pure (plain ++ str "question:" ++ qa.1 ++ str "\n" ++ str "salt:" ++ bytesToHex salt ++
      str "\n" ++ str "answer:" ++ bytesToHex (c.pbkdf2 qa.2 salt) ++ str "\n\n")

def persistSecurityQuestions (questions : List (ByteString × ByteString)) : Sec Unit := do
  if questions.length != SECURITY_QUESTION_COUNT then
    throw (str "Exactly 3 security questions are required.")
  else
    let _ ← ensureMasterKey c
    let plain ← forEach (writeQuestion c) questions []
    let parts ← encrypt c plain
    onDir fun dir => { dir with securityQaFile := some (sealedText parts) }

/-- `finalizeCurrent`: the questions so far and the entry that has ended. -/
def finalizeCurrent (x : List StoredQuestion × StoredQuestion) :
    Option (List StoredQuestion × StoredQuestion) :=
  if x.2.prompt.isEmpty && x.2.salt.isEmpty && x.2.answerHash.isEmpty then some x
  else if x.2.prompt.isEmpty || x.2.salt.length != kSaltLen ||
      x.2.answerHash.length != kDerivedLen then none
  else some (x.1 ++ [x.2], {})

/-- One line of the question file. -/
def questionLine (x : List StoredQuestion × StoredQuestion) (line : ByteString) :
    Except ByteString (List StoredQuestion × StoredQuestion) :=
  let line := dropCr line
  if line.isEmpty then
    match finalizeCurrent x with
    | none => .error (str "Malformed security question entry")
    | some x => .ok x
  else if !line.contains (chr ':') then .error (str "Malformed security question line")
  else
    let key := upTo (· == chr ':') line
    let value := (line.dropWhile (· != chr ':')).tail
    if key == str "question" then .ok (x.1, { x.2 with prompt := value })
    else if key == str "salt" then
      match hexToBytes value with
      | none => .error (str "Malformed salt in security question file")
      | some salt => .ok (x.1, { x.2 with salt })
    else if key == str "answer" then
      match hexToBytes value with
      | none => .error (str "Malformed answer in security question file")
      | some answerHash => .ok (x.1, { x.2 with answerHash })
    else .error (str "Unknown field in security question file")

def parseQuestions (plain : ByteString) : Except ByteString (List StoredQuestion) := do
  let x ← (getlines (chr '\n') plain).foldlM questionLine ([], {})
  match finalizeCurrent x with
  | none => .error (str "Incomplete security question entry")
  | some x =>
      if x.1.length != SECURITY_QUESTION_COUNT then
        .error (str "Security question data is incomplete")
      else .ok x.1

def loadStoredQuestions : Sec (List StoredQuestion) := do
  let d ← current
  match d.dir.securityQaFile with
  | none => throw (str "Security questions are not configured")
  | some raw =>
      let plain ← decryptFile c "Stored security questions are corrupted" raw
      match parseQuestions plain with
      | .error msg => throw msg
      | .ok stored => pure stored

end Questions

/-! ### The lockout -/

def clearLockout : Sec Unit := onDir fun dir => { dir with resetLockoutFile := none }

/-- `isLockedOut`: when the lockout ends, if one is in force. -/
def isLockedOut (nowSeconds : Nat) : Sec (Option Nat) := do
  let d ← current
  match d.dir.resetLockoutFile with
  | none => pure none
  | some raw =>
      match strtoull raw with
      | none =>
          clearLockout
          pure none
      | some unlockAt =>
          if unlockAt ≤ nowSeconds then
            clearLockout
            pure none
          else pure (some unlockAt)

def writeLockoutUntil (unlockAt : Nat) : Sec Unit :=
  onDir fun dir => { dir with resetLockoutFile := some (decimal unlockAt) }

def lockedMsg (unlockAt now : Nat) : ByteString :=
  str "Password/PIN reset is locked. Try again in " ++ decimal ((unlockAt - now) / 60) ++
    str "m " ++ decimal ((unlockAt - now) % 60) ++ str "s."

def incorrectMsg : ByteString :=
  str "One or more security answers are incorrect. Try again in 5 minutes."

/-- Does the answer fit the question? -/
def answers (c : Crypto) (stored : StoredQuestion) (answer : ByteString) : Bool :=
  constantTimeEquals (c.pbkdf2 answer stored.salt) stored.answerHash

/-- One answer. A wrong one locks the questions. -/
def checkAnswer (c : Crypto) (now : Nat) (qa : StoredQuestion × ByteString) (_ : Unit) :
    Sec Unit :=
  if answers c qa.1 qa.2 then pure ()
  else do
    writeLockoutUntil ((now + kResetCooldownSeconds) % 2 ^ 64)
    throw incorrectMsg

section Reset

variable (c : Crypto)

/-- The questions, unless a lockout is in force. -/
def loadUnlocked (now : Nat) : Sec (List StoredQuestion) := do
  match ← isLockedOut now with
  | some unlockAt => throw (lockedMsg unlockAt now)
  | none => loadStoredQuestions c

def fetchSecurityQuestions : Sec (List ByteString) := do
  let d ← current
  let stored ← loadUnlocked c d.now
  pure (stored.map (·.prompt))

def validateSecurityAnswers (given : List ByteString) : Sec Unit := do
  let d ← current
  let stored ← loadUnlocked c d.now
  if given.length != stored.length then throw (str "All security questions must be answered.")
  else
    forEach (checkAnswer c d.now) (stored.zip given) ()
    clearLockout

end Reset

/-! ### The session -/

section Session

variable (c : Crypto)

def deriveHmac (state : SessionState) : Sec ByteString := do
  let key ← deriveKeyMaterial c
  pure (bytesToHex (c.hmac key (buildSessionPayload state)))

def writeSession (state : SessionState) : Sec Unit :=
  onDir fun dir => { dir with sessionFile := some (serializeSession state) }

def loadSession : Sec SessionState := do
  let d ← current
  match d.dir.sessionFile with
  | none => throw (str "Unable to read session file")
  | some raw =>
      match parseSession raw with
      | .error msg => throw msg
      | .ok state => pure state

/-- A session with its HMAC, for the time from now on. -/
def signed (token : ByteString) (now : Nat) : Sec SessionState := do
  let expiresAt := (now + SESSION_LIFETIME_SECONDS) % 2 ^ 64
  let hmac ← deriveHmac c { token, expiresAt }
  pure { token, expiresAt, hmac }

def issueSession : Sec SessionState := do
  let random ← randomBytes c 32
  let d ← current
  let state ← signed c (bytesToHex random) d.now
  writeSession state
  pure state

/-- What `validateSessionToken` checks of a session it has loaded. -/
def checkSession (token : ByteString) (now : Nat) (state : SessionState) : Sec Unit := do
  let expectedHmac ← deriveHmac c state
  if expectedHmac != state.hmac then throw (str "Session integrity check failed")
  else if isSessionExpired state now then throw (str "Session expired")
  else if state.token != token then throw (str "Session token mismatch")
  else pure ()

/-- `loadSession`, as `validateSessionToken` calls it. -/
def loadForToken (token : ByteString) : Sec SessionState := do
  if token.isEmpty then throw (str "Session token missing")
  else match ← attempt loadSession with
    | .error _ => throw (str "Authentication required")
    | .ok state => pure state

def validateSessionToken (token : ByteString) : Sec Unit := do
  let state ← loadForToken token
  let d ← current
  checkSession c token d.now state
  writeSession (← signed c state.token d.now)

def resetForgottenSecret (newSecret : ByteString) (given : List ByteString) :
    Sec SessionState := do
  validateSecurityAnswers c given
  persistPasspin c newSecret true
  issueSession c

/-- The part of `authenticate` that sets the secret. -/
def setSecret (secret : ByteString) (securityQuestions : List (ByteString × ByteString)) :
    Sec Unit := do
  if ← isPasspinConfigured then
    throw (str "Password/PIN already set. Use forgot-password to reset it.")
  else if securityQuestions.length != SECURITY_QUESTION_COUNT then
    throw (str "Security questions are required to set a password/PIN.")
  else
    persistSecurityQuestions c securityQuestions
    match ← attempt (persistPasspin c secret false) with
    | .ok () => pure ()
    | .error msg =>
        onDir fun dir => { dir with securityQaFile := none }
        throw msg

/-- `authenticate` up to the session. -/
def setOrVerify (actionRaw secret : ByteString)
    (securityQuestions : List (ByteString × ByteString)) : Sec Unit :=
  let lowered := actionRaw.map tolower
  let action := if lowered.isEmpty then str "unlock" else lowered
  if action == str "set" then setSecret c secret securityQuestions
  else verifySecret c secret

def authenticate (actionRaw secret : ByteString)
    (securityQuestions : List (ByteString × ByteString)) : Sec SessionState := do
  setOrVerify c actionRaw secret securityQuestions
  issueSession c

end Session

/-! ### Requests -/

def requiresAuth : RequestType → Bool
  | .Ping | .Authenticate | .ForgotPassword | .List | .Info | .Search | .ListRepos => false
  | _ => true

/-- What becomes of a request. -/
inductive Outcome where
  /-- No valid session. -/
  | unauthorized (message : ByteString)
  | replied (resp : Response)
  /-- Left to the handler of its type, which has nothing to do with the secret. -/
  | handled

/-- The request has reached the handler of its type. -/
def Outcome.passed : Outcome → Bool
  | .handled => true
  | _ => false

/-- A field of the request with the number of a question. -/
def numbered (key : String) (idx : Nat) : ByteString := str key ++ decimal (idx + 1)

def filledField (fields : Repo.Fields) (key : ByteString) : Option ByteString :=
  (fields.lookup key).filter (!·.isEmpty)

/-- The questions and answers of a request that sets the secret, if all are there. -/
def collectQuestions (fields : Repo.Fields) : Option (List (ByteString × ByteString)) :=
  (List.range SECURITY_QUESTION_COUNT).mapM fun idx => do
    let question ← filledField fields (numbered "security_q" idx)
    let answer ← filledField fields (numbered "security_a" idx)
    pure (question, answer)

def collectAnswers (fields : Repo.Fields) : Option (List ByteString) :=
  (List.range SECURITY_QUESTION_COUNT).mapM fun idx =>
    filledField fields (numbered "security_a" idx)

def failure (req : Request) (message : ByteString) : Response where
  id := req.id
  message

/-- A reply that hands out a session. -/
def sessionResponse (req : Request) (message : String) (session : SessionState) : Response where
  id := req.id
  success := true
  message := str message
  rawFields := ((∅ : Repo.Fields).insert (str "session_token") session.token).insert
    (str "session_expires") (decimal session.expiresAt)

/-- The reply to what a program brings about. -/
def reply {α : Type} (req : Request) (fallback : String) (act : Sec α) (resp : α → Response) :
    Act Apmd Empty Response := do
  match ← attempt act with
  | .ok a => pure (resp a)
  | .error msg => pure (failure req (if msg.isEmpty then str fallback else msg))

section Requests

variable (c : Crypto) (req : Request)

def replyAuthenticate (securityQa : List (ByteString × ByteString)) :
    Act Apmd Empty Response :=
  reply req "Authentication failed" (authenticate c req.authAction req.authSecret securityQa)
    (sessionResponse req (if req.authAction == str "set" then
      "Password/PIN saved. Session active." else "Session unlocked."))

def handleAuthenticate : Act Apmd Empty Response :=
  if req.authAction == str "set" then
    match collectQuestions req.rawFields with
    | none => pure (failure req
        (str "Security questions must be provided when setting a password/PIN."))
    | some securityQa => replyAuthenticate c req securityQa
  else replyAuthenticate c req []

def resetStage : ByteString :=
  (filledField req.rawFields (str "reset_stage")).getD (str "questions")

/-- The reply that shows the questions. -/
def questionsResponse (questions : List ByteString) : Response where
  id := req.id
  success := true
  message := str "Answer the security questions to reset your password/PIN."
  rawFields := questions.zipIdx.foldl
    (fun fields question => fields.insert (numbered "security_q" question.2) question.1) ∅

def newSecret : ByteString := (req.rawFields.lookup (str "new_secret")).getD []

def handleReset (given : List ByteString) : Act Apmd Empty Response :=
  if (newSecret req).isEmpty then pure (failure req (str "New password/PIN is required."))
  else reply req "Failed to reset password/PIN." (resetForgottenSecret c (newSecret req) given)
    (sessionResponse req "Password/PIN reset. Session active.")

def handleForgotPassword : Act Apmd Empty Response :=
  if resetStage req == str "questions" then
    reply req "Unable to load security questions" (fetchSecurityQuestions c)
      (questionsResponse req)
  else if resetStage req == str "verify" then
    match collectAnswers req.rawFields with
    | none => pure (failure req (str "All security questions must be answered."))
    | some given =>
        reply req "Security answers did not match" (validateSecurityAnswers c given) fun _ =>
          { id := req.id, success := true
            message := str "Security answers verified. Set a new password/PIN." }
  else if resetStage req == str "reset" then
    match collectAnswers req.rawFields with
    | none => pure (failure req (str "All security questions must be answered."))
    | some given => handleReset c req given
  else pure (failure req (str "Unknown forgot-password stage"))

/-- What `performFactoryReset` does to the security directory. -/
def performFactoryReset : Act Apmd Empty Unit := onDir fun _ => {}

/-- A request behind the gate. -/
def dispatch : Act Apmd Empty Outcome := do
  match req.type with
  | .Authenticate => return .replied (← handleAuthenticate c req)
  | .ForgotPassword => return .replied (← handleForgotPassword c req)
  | .FactoryReset =>
      performFactoryReset
      return .handled
  | _ => return .handled

/-- `handleClient` from the parsed request on. -/
def handleRequest : Act Apmd Empty Outcome := do
  if requiresAuth req.type then
    match ← attempt (validateSessionToken c req.sessionToken) with
    | .error authErr => return .unauthorized authErr
    | .ok () => dispatch c req
  else dispatch c req

end Requests

/-! ### Runs -/

inductive Event where
  | request (req : Request)
  /-- The daemon ends and is started again. -/
  | restart
  | clock (now : UnixSeconds)

/-- What a request is answered with. -/
def respond (c : Crypto) (req : Request) (d : Apmd) : Outcome :=
  match (exec (handleRequest c req) d).1 with
  | .ok o => o
  | .error e => nomatch e

def step (c : Crypto) (d : Apmd) : Event → Apmd
  | .request req => (exec (handleRequest c req) d).2
  | .restart => { d with masterKey := none }
  | .clock now => { d with now }

/-- The clock does not go back. -/
def Forward (d : Apmd) : Event → Prop
  | .clock now => d.now ≤ now
  | _ => True

instance (d : Apmd) : DecidablePred (Forward d)
  | .clock now => inferInstanceAs (Decidable (d.now ≤ now))
  | .request _ | .restart => inferInstanceAs (Decidable True)

/-! ### Requests of examples -/

/-- Three questions and their answers. -/
def questionFields : Repo.Fields :=
  [("security_q1", "pet"), ("security_a1", "rex"), ("security_q2", "town"),
    ("security_a2", "ulm"), ("security_q3", "car"), ("security_a3", "fiat")].foldl
    (fun fields field => fields.insert (str field.1) (str field.2)) ∅

def setRequest (secret : String) : Request where
  type := .Authenticate
  authAction := str "set"
  authSecret := str secret
  rawFields := questionFields

/-- The token that a new daemon hands out for it with `clearCrypto`, at its eighth draw. -/
def firstToken : ByteString := bytesToHex (List.replicate 32 7)

end Apm.Daemon
