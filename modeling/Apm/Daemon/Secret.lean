import Apm.Daemon.Handling
import Apm.Lib.Run

/-!
Whether the stored secret can be decrypted.

The key that the secret is sealed under lives in memory and on disk. A factory reset removes it
from disk only, so that a secret set before the next restart is lost with the process.

## Main results

* `passpin_bound_iff`: the secret can be decrypted at every stop, and is verified after a
  restart, as long as none is set under a key in memory whose file is gone;
* `reset_unbinds`: a factory reset between two settings of the secret breaks this.
-/

namespace Apm.Daemon

open Apm.Ipc Apm.Lib Apm.Lib.Effect Apm.Security

/-! ### Decrypting -/

/-- The key that is used: the one in memory, else the one on disk. -/
def KeyOf (d : Apmd) (key : ByteString) : Prop :=
  d.masterKey = some key ∨
    d.masterKey = none ∧ d.dir.masterKeyFile = some key ∧ key.length = kMasterKeyLen

/-- What a file holds, under a key. -/
def decrypted (c : Crypto) (key raw : ByteString) : Except ByteString ByteString :=
  (exec (decryptFile c "Stored password/PIN is corrupted" raw) { masterKey := some key }).1

/-- The file can be decrypted with the key. -/
def Decrypts (c : Crypto) (key raw : ByteString) : Prop := ∃ plain, decrypted c key raw = .ok plain

/-- The secret is the one that the file holds, under the key. -/
def Unlocks (c : Crypto) (key raw secret : ByteString) : Prop :=
  secret ≠ [] ∧ ∃ plain, decrypted c key raw = .ok plain ∧
    plain.length = kSaltLen + kDerivedLen ∧
      plain.drop kSaltLen = c.pbkdf2 secret (plain.take kSaltLen)

def Verifies (c : Crypto) (d : Apmd) (secret : ByteString) : Prop :=
  (exec (verifySecret c secret) d).1 = .ok ()

section Decrypting

variable {c : Crypto} {d : Apmd} {key raw secret : ByteString}

theorem KeyOf.ensureMasterKey (h : KeyOf d key) : (exec (ensureMasterKey c) d).1 = .ok key := by
  rcases h with memory | ⟨memory, file, length⟩
  · rw [ensureMasterKey_loaded c memory]
  · have next : exec (Daemon.ensureMasterKey c) d = exec (loadMasterKey key) d := by
      rw [Daemon.ensureMasterKey, exec_bind_of_ok (a := d) rfl, memory, file]
      rfl
    rw [next, loadMasterKey, if_neg (by simp [length])]
    rfl

/-- What is decrypted depends on the key alone. -/
theorem KeyOf.decryptFile (h : KeyOf d key) :
    (exec (decryptFile c "Stored password/PIN is corrupted" raw) d).1 = decrypted c key raw := by
  have alone : KeyOf { masterKey := some key } key := .inl rfl
  unfold decrypted Daemon.decryptFile
  split
  · rfl
  · unfold decrypt
    rw [exec_bind_of_ok h.ensureMasterKey, exec_bind_of_ok alone.ensureMasterKey]
    split
    · rfl
    split
    · rfl
    split <;> rfl

/-- When a secret is verified. -/
theorem verifies_iff (h : KeyOf d key) (file : d.dir.passPinFile = some raw) :
    Verifies c d secret ↔ Unlocks c key raw secret := by
  have load : exec (decryptPasspin c) d =
      exec (do
        let plain ← decryptFile c "Stored password/PIN is corrupted" raw
        if plain.length != kSaltLen + kDerivedLen then
          throw (str "Stored password/PIN is corrupted")
        else pure (plain.take kSaltLen, plain.drop kSaltLen)) d := by
    rw [decryptPasspin, exec_bind_of_ok (a := d) rfl, file]
    rfl
  unfold Verifies Unlocks verifySecret
  by_cases empty : secret = []
  · subst empty
    exact ⟨fun accepted => absurd accepted error_ne_ok, fun h => absurd rfl h.1⟩
  rw [if_neg (by simpa using empty)]
  cases plain? : decrypted c key raw with
  | error e =>
    have fails : (exec (decryptPasspin c) d).1 = .error e := by
      rw [load]
      exact exec_bind_of_error (h.decryptFile.trans plain?)
    rw [exec_bind_of_error fails]
    simp
  | ok plain =>
    have next := exec_bind_of_ok (f := fun plain =>
      if plain.length != kSaltLen + kDerivedLen then
        (throw (str "Stored password/PIN is corrupted") : Sec (ByteString × ByteString))
      else pure (plain.take kSaltLen, plain.drop kSaltLen)) (h.decryptFile.trans plain?)
    have run := load.trans next
    by_cases length : plain.length = kSaltLen + kDerivedLen
    · rw [if_neg (by simp [length])] at run
      have loaded : (exec (decryptPasspin c) d).1 =
          .ok (plain.take kSaltLen, plain.drop kSaltLen) := by
        rw [run]
        rfl
      rw [exec_bind_of_ok loaded]
      by_cases same : plain.drop kSaltLen = c.pbkdf2 secret (plain.take kSaltLen)
      · rw [if_neg (by simpa using constantTimeEquals_iff.mpr same)]
        exact ⟨fun _ => ⟨empty, plain, rfl, length, same⟩, fun _ => rfl⟩
      · have differs : (!constantTimeEquals (plain.drop kSaltLen)
            (c.pbkdf2 secret (plain.take kSaltLen))) = true := by
          rw [Bool.not_eq_true', ← Bool.not_eq_true, constantTimeEquals_iff]
          exact same
        rw [if_pos differs]
        refine ⟨fun accepted => absurd accepted error_ne_ok, ?_⟩
        rintro ⟨-, plain', eq, -, same'⟩
        cases eq
        exact absurd same' same
    · rw [if_pos (by simpa using length)] at run
      have fails : (exec (decryptPasspin c) d).1 =
          .error (str "Stored password/PIN is corrupted") := by
        rw [run]
        rfl
      rw [exec_bind_of_error fails]
      refine ⟨fun accepted => absurd accepted error_ne_ok, ?_⟩
      rintro ⟨-, plain', eq, length', -⟩
      cases eq
      exact absurd length' length

/-- What is sealed under a key is decrypted with it. -/
theorem SealedFor.decrypted (unseals : c.Unseals) (h : SealedFor c key secret raw) :
    ∃ salt, salt.length = kSaltLen ∧
      decrypted c key raw = .ok (salt ++ c.pbkdf2 secret salt) := by
  obtain ⟨iv, salt, ivLength, saltLength, rfl⟩ := h
  refine ⟨salt, saltLength, ?_⟩
  have plainLength : (salt ++ c.pbkdf2 secret salt).length = 64 := by
    rw [List.length_append, saltLength, c.pbkdf2_length]
    rfl
  have cipherLength := c.cipher_length key iv (salt ++ c.pbkdf2 secret salt)
  have tagLength := c.tag_length key iv (salt ++ c.pbkdf2 secret salt)
  have opened := unseals key iv (salt ++ c.pbkdf2 secret salt)
  generalize c.gcmSeal key iv (salt ++ c.pbkdf2 secret salt) = parts at *
  have sixteen : kGcmTagLen = 16 := rfl
  have twelve : kGcmIvLen = 12 := rfl
  have text : sealedText (iv, parts) = iv ++ parts.1 ++ parts.2 := rfl
  have length : (sealedText (iv, parts)).length = 28 + parts.1.length := by
    rw [text, List.length_append, List.length_append, ivLength, tagLength]
    omega
  have takeIv : (sealedText (iv, parts)).take kGcmIvLen = iv := by
    rw [text, List.append_assoc, List.take_left' ivLength]
  have takeCipher : ((sealedText (iv, parts)).drop kGcmIvLen).take
      ((sealedText (iv, parts)).length - kGcmTagLen - kGcmIvLen) = parts.1 := by
    rw [length, text, List.append_assoc, List.drop_left' ivLength]
    exact List.take_left' (by omega)
  have takeTag : (sealedText (iv, parts)).drop ((sealedText (iv, parts)).length - kGcmTagLen) =
      parts.2 := by
    rw [length, text]
    exact List.drop_left' (by rw [List.length_append]; omega)
  have loaded : KeyOf { masterKey := some key } key := .inl rfl
  unfold Daemon.decrypted decryptFile
  rw [if_neg (by omega), takeIv, takeCipher, takeTag, decrypt,
    exec_bind_of_ok loaded.ensureMasterKey, if_neg (by simp [ivLength]),
    if_neg (by simp [tagLength]),
    opened]
  rfl

theorem SealedFor.unlocks (unseals : c.Unseals) (h : SealedFor c key secret raw)
    (filled : secret ≠ []) : Unlocks c key raw secret := by
  obtain ⟨salt, length, plain⟩ := h.decrypted unseals
  refine ⟨filled, _, plain, ?_, ?_⟩
  · rw [List.length_append, length, c.pbkdf2_length]
  · rw [List.drop_left' length, List.take_left' length]

end Decrypting

/-! ### Watching the secret -/

/-- A daemon, and the secret that its answers say is configured. -/
structure Watched where
  daemon : Apmd
  secret : Option ByteString

/-- The secret that is configured after a request and its answer. -/
def secretAfter (req : Request) (o : Outcome) (secret : Option ByteString) : Option ByteString :=
  match o, req.type with
  | .replied resp, .Authenticate =>
      if resp.success && req.authAction == str "set" then some req.authSecret else secret
  | .replied resp, .ForgotPassword =>
      if resp.success && resetStage req == str "reset" then some (newSecret req) else secret
  | .handled, .FactoryReset => none
  | _, _ => secret

section SecretAfter

variable {req : Request} {resp : Response} {secret : Option ByteString}

theorem secretAfter_unauthorized {message : ByteString} :
    secretAfter req (.unauthorized message) secret = secret := by
  unfold secretAfter
  cases req.type <;> rfl

theorem secretAfter_handled (plain : req.type ≠ .FactoryReset) :
    secretAfter req .handled secret = secret := by
  unfold secretAfter
  cases type : req.type <;> first | rfl | exact absurd type plain

theorem secretAfter_wiped (type : req.type = .FactoryReset) :
    secretAfter req .handled secret = none := by
  unfold secretAfter
  simp only [type]

theorem secretAfter_authenticate (type : req.type = .Authenticate) :
    secretAfter req (.replied resp) secret =
      if resp.success && req.authAction == str "set" then some req.authSecret else secret := by
  unfold secretAfter
  simp only [type]

theorem secretAfter_forgot (type : req.type = .ForgotPassword) :
    secretAfter req (.replied resp) secret =
      if resp.success && resetStage req == str "reset" then some (newSecret req) else secret := by
  unfold secretAfter
  simp only [type]

end SecretAfter

def watch (c : Crypto) (w : Watched) (event : Event) : Watched where
  daemon := step c w.daemon event
  secret :=
    match event with
    | .request req => secretAfter req (respond c req w.daemon) w.secret
    | _ => w.secret

/-- The secret on disk can be decrypted with the key on disk, and the configured one is verified
after a restart. -/
structure PasspinBound (c : Crypto) (w : Watched) : Prop where
  decrypts : ∀ raw, w.daemon.dir.passPinFile = some raw → ∃ key,
    w.daemon.dir.masterKeyFile = some key ∧ key.length = kMasterKeyLen ∧ Decrypts c key raw
  verifies : ∀ secret, w.secret = some secret → Verifies c (step c w.daemon .restart) secret

/-- No secret is set under a key in memory whose file is gone. -/
def SetsUnderKeyFile (w : Watched) : Event → Prop
  | .request req =>
      Sets req w.daemon → w.daemon.masterKey.isSome → w.daemon.dir.masterKeyFile.isSome
  | _ => True

/-- What keeps the secret readable: the key in memory is the one on disk, or nothing is there
that it has sealed. -/
structure Sound (c : Crypto) (w : Watched) : Prop where
  memory : ∀ key, w.daemon.masterKey = some key → key.length = kMasterKeyLen ∧
    (w.daemon.dir.masterKeyFile = some key ∨ w.daemon.dir.masterKeyFile = none ∧
      w.daemon.dir.passPinFile = none ∧ w.daemon.dir.securityQaFile = none)
  decrypts : ∀ raw, w.daemon.dir.passPinFile = some raw → ∃ key,
    w.daemon.dir.masterKeyFile = some key ∧ key.length = kMasterKeyLen ∧ Decrypts c key raw
  unlocks : ∀ secret, w.secret = some secret → ∃ key raw,
    w.daemon.dir.masterKeyFile = some key ∧ key.length = kMasterKeyLen ∧
      w.daemon.dir.passPinFile = some raw ∧ Unlocks c key raw secret

section Watching

variable {c : Crypto} {w : Watched}

theorem Sound.bound (h : Sound c w) : PasspinBound c w := by
  refine ⟨h.decrypts, fun secret configured => ?_⟩
  obtain ⟨key, raw, keyFile, length, file, unlocks⟩ := h.unlocks secret configured
  have keyOf : KeyOf (step c w.daemon .restart) key := .inr ⟨rfl, keyFile, length⟩
  exact (verifies_iff keyOf file).mpr unlocks

/-- A daemon that has just been started. -/
theorem PasspinBound.sound (h : PasspinBound c w) (fresh : w.daemon.masterKey = none) :
    Sound c w := by
  refine ⟨fun key memory => absurd (fresh.symm.trans memory) (Option.some_ne_none key).symm,
    h.decrypts, fun secret configured => ?_⟩
  have verifies := h.verifies secret configured
  cases file : w.daemon.dir.passPinFile with
  | none =>
    have fails : (exec (verifySecret c secret) (step c w.daemon .restart)).1 ≠ .ok () := by
      have absent : exec (decryptPasspin c) (step c w.daemon .restart) =
          (.error (str "Password/PIN not configured"), step c w.daemon .restart) := by
        have stored : (step c w.daemon .restart).dir.passPinFile = none := file
        rw [decryptPasspin, exec_bind_of_ok (a := step c w.daemon .restart) rfl, stored]
        rfl
      unfold verifySecret
      split
      · exact error_ne_ok
      · rw [exec_bind_of_error (congrArg Prod.fst absent)]
        exact error_ne_ok
    exact absurd verifies fails
  | some raw =>
    obtain ⟨key, keyFile, length, -⟩ := h.decrypts raw file
    have keyOf : KeyOf (step c w.daemon .restart) key := .inr ⟨rfl, keyFile, length⟩
    exact ⟨key, raw, keyFile, length, rfl, (verifies_iff keyOf file).mp verifies⟩

/-- The key is made ready, and the questions are kept or removed. -/
theorem Sound.ready (h : Sound c w) {d' : Apmd} (key : KeyReady w.daemon d')
    (passPin : d'.dir.passPinFile = w.daemon.dir.passPinFile)
    (securityQa : d'.dir.securityQaFile = w.daemon.dir.securityQaFile ∨
      d'.dir.securityQaFile = none) : Sound c ⟨d', w.secret⟩ := by
  cases key with
  | same memory file =>
    refine ⟨fun key memory' => ?_, fun raw there => ?_, fun secret configured => ?_⟩
    · obtain ⟨length, source⟩ := h.memory key (memory.symm.trans memory')
      refine ⟨length, source.imp file.trans fun gone =>
        ⟨file.trans gone.1, passPin.trans gone.2.1, ?_⟩⟩
      exact securityQa.elim (fun same => same.trans gone.2.2) fun none => none
    · obtain ⟨key, keyFile, rest⟩ := h.decrypts raw (passPin.symm.trans there)
      exact ⟨key, file.trans keyFile, rest⟩
    · obtain ⟨key, raw, keyFile, length, there, unlocks⟩ := h.unlocks secret configured
      exact ⟨key, raw, file.trans keyFile, length, passPin.trans there, unlocks⟩
  | loaded key before memory file length source =>
    have onDisk : ∀ key', w.daemon.dir.masterKeyFile = some key' → key' = key := by
      intro key' there
      rcases source with absent | same
      · exact nomatch absent.symm.trans there
      · exact Option.some.inj (there.symm.trans same)
    refine ⟨fun key' memory' => ?_, fun raw there => ?_, fun secret configured => ?_⟩
    · obtain rfl : key = key' := Option.some.inj (memory.symm.trans memory')
      exact ⟨length, .inl file⟩
    · obtain ⟨key', keyFile, rest⟩ := h.decrypts raw (passPin.symm.trans there)
      obtain rfl := onDisk key' keyFile
      exact ⟨key', file, rest⟩
    · obtain ⟨key', raw, keyFile, length, there, unlocks⟩ := h.unlocks secret configured
      obtain rfl := onDisk key' keyFile
      exact ⟨key', raw, file, length, passPin.trans there, unlocks⟩

/-- The key that is used afterwards is on disk. -/
theorem Sound.onDisk (h : Sound c w) {d' : Apmd} {key : ByteString}
    (ready : KeyReady w.daemon d') (memory : d'.masterKey = some key)
    (there : w.daemon.masterKey.isSome → w.daemon.dir.masterKeyFile.isSome) :
    d'.dir.masterKeyFile = some key ∧ key.length = kMasterKeyLen := by
  cases ready with
  | same memory' file =>
    have before := memory'.symm.trans memory
    obtain ⟨length, source⟩ := h.memory key before
    refine ⟨file.trans (source.resolve_right ?_), length⟩
    rintro ⟨gone, -⟩
    have some := there (Option.isSome_of_eq_some before)
    rw [gone] at some
    cases some
  | loaded key' _ memory' file length =>
    obtain rfl : key' = key := Option.some.inj (memory'.symm.trans memory)
    exact ⟨file, length⟩

/-- A secret is written under a key that is on disk. -/
theorem Sound.configured (unseals : c.Unseals) {d' : Apmd} {key raw secret : ByteString}
    (length : key.length = kMasterKeyLen) (memory : d'.masterKey = some key)
    (file : d'.dir.masterKeyFile = some key) (passPin : d'.dir.passPinFile = some raw)
    (holds : SealedFor c key secret raw) (filled : secret ≠ []) : Sound c ⟨d', some secret⟩ := by
  constructor
  · intro key' memory'
    obtain rfl : key = key' := Option.some.inj (memory.symm.trans memory')
    exact ⟨length, .inl file⟩
  · intro raw' there
    obtain rfl : raw = raw' := Option.some.inj (passPin.symm.trans there)
    obtain ⟨salt, -, plain⟩ := holds.decrypted unseals
    exact ⟨key, file, length, _, plain⟩
  · intro secret' configured
    cases configured
    exact ⟨key, raw, file, length, passPin, holds.unlocks unseals filled⟩

theorem WritesSession.key {d d' : Apmd} {state : SessionState} (h : WritesSession d state d') :
    KeyReady d d' ∧ d'.dir.passPinFile = d.dir.passPinFile ∧
      d'.dir.securityQaFile = d.dir.securityQaFile := by
  obtain ⟨d₁, ready, -, -, rfl⟩ := h
  exact ⟨ready.key.of_eq rfl rfl rfl rfl, ready.passPin, ready.securityQa⟩

theorem UsesSession.key {token : ByteString} {d d' : Apmd} (h : UsesSession token d d') :
    KeyReady d d' ∧ d'.dir.passPinFile = d.dir.passPinFile ∧
      d'.dir.securityQaFile = d.dir.securityQaFile := by
  obtain ⟨raw, state, next, -, -, -, -, -, writes⟩ := h
  exact writes.key

/-- Questions that are asked are there. -/
theorem Opens.questions {d : Apmd} {stored : List StoredQuestion} (h : Opens c d stored) :
    d.dir.securityQaFile ≠ none := by
  intro absent
  have run : wp (loadUnlocked c d.now) (fun _ _ => False) (fun _ _ => True) d := by
    refine wp_bind.mpr (wp_mono (isLockedOut_spec d) ?_ nofun)
    rintro locked d₁ ⟨-, looks⟩
    split
    · trivial
    · refine wp_bind.mpr (wp_update.mpr ?_)
      dsimp only
      rw [looks.securityQa, absent]
      trivial
  unfold Opens at h
  unfold wp at run
  split at run
  · exact run
  · rename_i msg d' failed
    rw [failed] at h
    cases h

/-- A request that sets the secret and succeeds, or resets it. -/
theorem Sound.rewritten (unseals : c.Unseals) (h : Sound c w) {d₁ d₂ d' : Apmd}
    {secret : ByteString} {state : SessionState} (key : KeyReady w.daemon d₁)
    (there : w.daemon.masterKey.isSome → w.daemon.dir.masterKeyFile.isSome)
    (filled : secret ≠ []) (configures : Configures c secret d₁ d₂)
    (writes : WritesSession d₂ state d') : Sound c ⟨d', some secret⟩ := by
  obtain ⟨key', raw, d₃, ready, memory, holds, rfl⟩ := configures
  obtain ⟨d₄, ready', -, -, rfl⟩ := writes
  have memory' := ready'.memory memory
  have all : KeyReady w.daemon d₄ :=
    key.trans (ready.key.trans (ready'.key.of_eq rfl rfl rfl rfl))
  obtain ⟨file, length⟩ := h.onDisk all memory' there
  exact .configured unseals length memory' file ready'.passPin holds filled

/-- **Each step keeps the secret readable**, if it does not set one under a lost key. -/
theorem Sound.watch (unseals : c.Unseals) (h : Sound c w) {event : Event}
    (under : SetsUnderKeyFile w event) : Sound c (watch c w event) := by
  cases event with
  | clock now => exact ⟨h.memory, h.decrypts, h.unlocks⟩
  | restart => exact ⟨nofun, h.decrypts, h.unlocks⟩
  | request req =>
    have handles := step_handles c req w.daemon
    unfold Daemon.watch
    dsimp only
    generalize respond c req w.daemon = o at handles ⊢
    generalize step c w.daemon (.request req) = d' at handles ⊢
    cases handles with
    | unauthorized gate ready =>
      rw [secretAfter_unauthorized]
      exact h.ready ready.key ready.passPin (.inl ready.securityQa)
    | ungated gate plain plain' =>
      rw [secretAfter_handled fun type => by rw [type] at gate; cases gate]
      exact h
    | authorized gate plain uses =>
      rw [secretAfter_handled plain]
      exact h.ready uses.key.1 uses.key.2.1 (.inl uses.key.2.2)
    | wiped type uses =>
      rw [secretAfter_wiped type]
      refine ⟨fun key memory => ⟨?_, .inr ⟨rfl, rfl, rfl⟩⟩, nofun, nofun⟩
      have used := h.ready uses.key.1 uses.key.2.1 (.inl uses.key.2.2)
      exact (used.memory key memory).1
    | notAuthenticated type ready unset =>
      rw [secretAfter_authenticate type]
      exact h.ready ready.key ready.passPin (.inl ready.securityQa)
    | setUndone type free empty ready =>
      rw [secretAfter_authenticate type]
      exact h.ready (ready.key.of_eq rfl rfl rfl rfl) ready.passPin (.inr rfl)
    | unlocked type action writes =>
      rw [secretAfter_authenticate type, beq_eq_false_iff_ne.mpr action, Bool.and_false]
      exact h.ready writes.key.1 writes.key.2.1 (.inl writes.key.2.2)
    | set sets ready configures writes =>
      obtain ⟨type, action, filled, free, rest⟩ := sets
      rw [secretAfter_authenticate type, action]
      exact h.rewritten unseals (ready.key.withQuestions _)
        (under ⟨type, action, filled, free, rest⟩) filled configures writes
    | looked type looks calm shown =>
      rename_i resp
      have kept : secretAfter req (.replied resp) w.secret = w.secret := by
        rw [secretAfter_forgot type]
        refine if_neg fun reset => ?_
        rw [Bool.and_eq_true, beq_iff_eq] at reset
        exact (shown reset.1).2.1 reset.2
      rw [kept]
      exact h.ready looks.key looks.passPin (.inl looks.securityQa)
    | wrong wrong looks =>
      rw [secretAfter_forgot wrong.1]
      exact h.ready (looks.key.of_eq rfl rfl rfl rfl) looks.passPin (.inl looks.securityQa)
    | reset right looks configures writes =>
      obtain ⟨type, stage, elapsed, given, stored, gives, opens, length, all⟩ := right
      rw [secretAfter_forgot type, stage]
      have filled : newSecret req ≠ [] := by
        intro empty
        have none : givenAnswers req = none := by
          refine if_neg ?_
          rintro (verify | ⟨-, filled⟩)
          · exact absurd (stage.symm.trans verify) (by decide)
          · exact filled empty
        exact absurd (none.symm.trans gives) nofun
      refine h.rewritten unseals looks.key (fun memory => ?_) filled configures writes
      obtain ⟨key, memory⟩ := Option.isSome_iff_exists.mp memory
      refine Option.isSome_of_eq_some ((h.memory key memory).2.resolve_right fun gone => ?_)
      exact opens.questions gone.2.2

/-- A secret that is set under a lost key cannot be decrypted. -/
theorem not_bound_of_lost {event : Event} (lost : ¬ SetsUnderKeyFile w event) :
    ¬ PasspinBound c (watch c w event) := by
  cases event with
  | clock now => exact absurd trivial lost
  | restart => exact absurd trivial lost
  | request req =>
    rw [SetsUnderKeyFile, not_forall] at lost
    obtain ⟨sets, lost⟩ := lost
    rw [not_forall] at lost
    obtain ⟨memory, lost⟩ := lost
    rw [Option.not_isSome_iff_eq_none] at lost
    obtain ⟨type, action, filled, free, rest⟩ := sets
    intro bound
    have decrypts := bound.decrypts
    unfold Daemon.watch at decrypts
    dsimp only at decrypts
    have handles := step_handles c req w.daemon
    generalize respond c req w.daemon = o at handles
    generalize step c w.daemon (.request req) = d' at handles decrypts
    have gate : requiresAuth req.type = false := by rw [type]; rfl
    cases handles with
    | unauthorized gated => rw [gate] at gated; cases gated
    | ungated _ plain => exact plain type
    | authorized gated => rw [gate] at gated; cases gated
    | wiped reset => rw [type] at reset; cases reset
    | notAuthenticated _ _ unset => exact unset memory ⟨type, action, filled, free, rest⟩
    | setUndone _ _ empty => exact filled empty
    | unlocked _ other => exact other action
    | looked forgot => rw [type] at forgot; cases forgot
    | wrong wrong => have := wrong.1; rw [type] at this; cases this
    | reset right => have := right.1; rw [type] at this; cases this
    | set _ ready configures writes =>
      obtain ⟨key', raw, d₃, ready', -, -, rfl⟩ := configures
      obtain ⟨d₄, ready'', -, -, rfl⟩ := writes
      have all : KeyReady w.daemon d₄ := (ready.key.withQuestions _).trans
        ((ready'.key.of_eq rfl rfl rfl rfl).trans (ready''.key.of_eq rfl rfl rfl rfl))
      obtain ⟨key, file, -⟩ := decrypts raw ready''.passPin
      cases all with
      | same _ gone => exact nomatch (lost.symm.trans gone.symm).trans file
      | loaded _ before =>
        rw [before] at memory
        cases memory

/-- **When the secret stays readable.** From the start of the daemon on, the secret on disk can be
decrypted with the key on disk at every stop, and the configured one is verified after a restart,
if and only if no secret is set under a key in memory whose file is gone. -/
theorem passpin_bound_iff (unseals : c.Unseals) (fresh : w.daemon.masterKey = none)
    (start : PasspinBound c w) (events : List Event) :
    Run.Always (watch c) (PasspinBound c) w events ↔
      Run.EachStep (watch c) SetsUnderKeyFile w events :=
  Run.always_iff_eachStep (fun _ sound => sound.bound)
    (fun _ _ sound under => sound.watch unseals under)
    (fun _ _ _ lost => not_bound_of_lost lost) (start.sound fresh)

end Watching

/-! ### A lost secret -/

theorem passpinBound_empty (c : Crypto) : PasspinBound c ⟨{}, none⟩ := by
  constructor
  · intro raw there
    cases there
  · intro secret configured
    cases configured

/-- Set a secret, unlock with it after a restart: the secret stays readable. -/
theorem restarted_bound :
    Run.Always (watch clearCrypto) (PasspinBound clearCrypto) ⟨{}, none⟩
      [.request (setRequest "1234"), .restart,
        .request { type := .Authenticate, authSecret := str "1234" }] :=
  (passpin_bound_iff clearCrypto_unseals rfl (passpinBound_empty _) _).mpr
    ⟨fun _ memory => absurd memory (by decide), trivial,
      fun sets => absurd sets.2.1 (by decide), trivial⟩

/-- A factory reset between two settings of the secret, in one process. The session token is the
one that the first setting hands out. -/
def resetBetween : List Event :=
  [.request (setRequest "1234"),
    .request { type := .FactoryReset, sessionToken := firstToken },
    .request (setRequest "5678")]

theorem reset_unbinds :
    ¬ Run.Always (watch clearCrypto) (PasspinBound clearCrypto) ⟨{}, none⟩ resetBetween := by
  intro always
  have file :
      (Run.run (watch clearCrypto) ⟨{}, none⟩ resetBetween).daemon.dir.passPinFile.isSome := by
    decide +kernel
  have gone :
      (Run.run (watch clearCrypto) ⟨{}, none⟩ resetBetween).daemon.dir.masterKeyFile = none := by
    decide +kernel
  obtain ⟨raw, there⟩ := Option.isSome_iff_exists.mp file
  obtain ⟨key, onDisk, -⟩ := always.last.decrypts raw there
  exact nomatch gone.symm.trans onDisk

end Apm.Daemon
