import Apm.Daemon.Handling
import Apm.Lib.Run

/-!
What guards the stored secret.

## Main results

* `guesses_limited`: the stored secret changes only when it is set first or reset with the right
  answers, and after a wrong answer nothing is answered for five minutes.
-/

namespace Apm.Daemon

open Apm.Ipc Apm.Lib Apm.Lib.Effect Apm.Security

/-- The secret is set where none is, reset with every answer right and no lockout in force, or
wiped with everything else. -/
def ChangesRightly (c : Crypto) (d : Apmd) (event : Event) : Prop :=
  (step c d event).dir.passPinFile ≠ d.dir.passPinFile → ∃ req, event = .request req ∧
    (Sets req d ∨ RightReset c req d ∨
      req.type = .FactoryReset ∧ (respond c req d).passed = true)

/-- The event is no factory reset that is carried out. -/
def NotWiped (c : Crypto) (d : Apmd) : Event → Prop
  | .request req => req.type = .FactoryReset → (respond c req d).passed = false
  | _ => True

/-- The request is answered, with no. -/
def Refused (o : Outcome) : Prop := ∃ resp, o = .replied resp ∧ resp.success = false

section Steps

variable {c : Crypto} {req : Request} {d d' : Apmd}

/-- Requests take no time. -/
theorem Handles.now {o : Outcome} (h : Handles c req d o d') : d'.now = d.now := by
  cases h with
  | unauthorized _ ready => exact ready.now
  | ungated => rfl
  | authorized _ _ uses => exact uses.rest.1
  | wiped _ uses => exact uses.rest.1
  | notAuthenticated _ ready => exact ready.now
  | setUndone _ _ _ ready => exact ready.now
  | unlocked _ _ writes => exact writes.rest.1
  | set _ ready configures writes =>
    exact writes.rest.1.trans (configures.rest.1.trans ready.now)
  | looked _ looks => exact looks.now
  | wrong _ looks => exact looks.now
  | reset _ looks configures writes =>
    exact writes.rest.1.trans (configures.rest.1.trans looks.now)

/-- How the stored secret can change. -/
theorem Handles.passPin {o : Outcome} (h : Handles c req d o d')
    (changed : d'.dir.passPinFile ≠ d.dir.passPinFile) :
    Sets req d ∨ RightReset c req d ∨ req.type = .FactoryReset ∧ o.passed = true := by
  cases h with
  | unauthorized _ ready => exact absurd ready.passPin changed
  | ungated => exact absurd rfl changed
  | authorized _ _ uses => exact absurd uses.rest.2.2 changed
  | wiped type => exact .inr (.inr ⟨type, rfl⟩)
  | notAuthenticated _ ready => exact absurd ready.passPin changed
  | setUndone _ _ _ ready => exact absurd ready.passPin changed
  | unlocked _ _ writes => exact absurd writes.rest.2.2 changed
  | set sets => exact .inl sets
  | looked _ looks => exact absurd looks.passPin changed
  | wrong _ looks => exact absurd looks.passPin changed
  | reset right => exact .inr (.inl right)

theorem changesRightly (event : Event) : ChangesRightly c d event := by
  intro changed
  cases event with
  | clock now => exact absurd rfl changed
  | restart => exact absurd rfl changed
  | request req => exact ⟨req, rfl, (step_handles c req d).passPin changed⟩

/-- Questions are open only without a lockout. -/
theorem Opens.unlocked {stored : List StoredQuestion} (h : Opens c d stored) :
    lockedUntil d = none := by
  have run := loadUnlocked_opens c d
  unfold wp at run
  split at run
  · exact run.2.1
  · exact absurd h (run.1 stored)

/-- A wrong answer that is looked at locks the questions. -/
theorem Handles.locks {o : Outcome} (h : Handles c req d o d') (wrong : WrongAnswer c req d) :
    d'.dir.resetLockoutFile = some (decimal (d.now + kResetCooldownSeconds)) := by
  have gate : requiresAuth req.type = false := by rw [wrong.1]; rfl
  have notAuthenticate : req.type ≠ .Authenticate := by rw [wrong.1]; exact nofun
  cases h with
  | unauthorized gated => rw [gate] at gated; cases gated
  | ungated _ _ plain => exact absurd wrong.1 plain
  | authorized gated => rw [gate] at gated; cases gated
  | wiped type => rw [type] at gate; cases gate
  | notAuthenticated type => exact absurd type notAuthenticate
  | setUndone type => exact absurd type notAuthenticate
  | unlocked type => exact absurd type notAuthenticate
  | set sets => exact absurd sets.1 notAuthenticate
  | looked _ _ calm => exact absurd wrong calm
  | wrong _ looks =>
    have small := d.now.isLt
    have cooldown : kResetCooldownSeconds = 300 := rfl
    change some (decimal _) = _
    rw [Nat.mod_eq_of_lt (by omega)]
  | reset right =>
    obtain ⟨-, -, -, given, stored, gives, opens, -, all⟩ := right
    exact absurd wrong (calm_of_right c req gives opens all)

/-- While a lockout is in force, nothing but a factory reset ends it. -/
theorem Handles.stays {o : Outcome} (h : Handles c req d o d') (locked : lockedUntil d ≠ none)
    (kept : req.type = .FactoryReset → o.passed = false) :
    d'.dir.resetLockoutFile = d.dir.resetLockoutFile := by
  cases h with
  | unauthorized _ ready => exact ready.lockout
  | ungated => rfl
  | authorized _ _ uses => exact uses.rest.2.1
  | wiped type => exact absurd (kept type) nofun
  | notAuthenticated _ ready => exact ready.lockout
  | setUndone _ _ _ ready => exact ready.lockout
  | unlocked _ _ writes => exact writes.rest.2.1
  | set _ ready configures writes =>
    exact writes.rest.2.1.trans (configures.rest.2.trans ready.lockout)
  | looked _ looks => exact looks.lockout.resolve_right fun elapsed => locked elapsed.1
  | wrong wrong =>
    obtain ⟨-, given, stored, -, opens, -⟩ := wrong
    exact absurd opens.unlocked locked
  | reset right => exact absurd right.2.2.1 locked

/-- While a lockout is in force, nothing is answered. -/
theorem Handles.refused {o : Outcome} (h : Handles c req d o d') (locked : lockedUntil d ≠ none)
    (forgot : req.type = .ForgotPassword) : Refused o := by
  have gate : requiresAuth req.type = false := by rw [forgot]; rfl
  have notAuthenticate : req.type ≠ .Authenticate := by rw [forgot]; exact nofun
  cases h with
  | unauthorized gated => rw [gate] at gated; cases gated
  | ungated _ _ plain => exact absurd forgot plain
  | authorized gated => rw [gate] at gated; cases gated
  | wiped type => rw [type] at gate; cases gate
  | notAuthenticated type => exact absurd type notAuthenticate
  | setUndone type => exact absurd type notAuthenticate
  | unlocked type => exact absurd type notAuthenticate
  | set sets => exact absurd sets.1 notAuthenticate
  | looked _ _ _ shown =>
    refine ⟨_, rfl, ?_⟩
    rw [← Bool.not_eq_true]
    exact fun success => locked (shown success).1
  | wrong => exact ⟨_, rfl, rfl⟩
  | reset right => exact absurd right.2.2.1 locked

/-- Until its end, the lockout is on disk. -/
def LockedTo (unlockAt : Nat) (d : Apmd) : Prop :=
  d.now < unlockAt → d.dir.resetLockoutFile = some (decimal unlockAt)

theorem LockedTo.inForce {unlockAt : Nat} (h : LockedTo unlockAt d) (small : unlockAt < 2 ^ 64)
    (soon : d.now < unlockAt) : lockedUntil d ≠ none := by
  rw [lockedUntil, h soon, Option.bind_some, strtoull_decimal small]
  simp [soon]

/-- **Each step keeps the lockout until its end**, if it is no factory reset. -/
theorem LockedTo.step {unlockAt : Nat} (h : LockedTo unlockAt d) (small : unlockAt < 2 ^ 64)
    {event : Event} (forward : Forward d event) (kept : NotWiped c d event) :
    LockedTo unlockAt (step c d event) := by
  cases event with
  | clock now => exact fun soon => h (Nat.lt_of_le_of_lt forward soon)
  | restart => exact h
  | request req =>
    have handles := step_handles c req d
    intro soon
    rw [handles.now] at soon
    exact (handles.stays (h.inForce small soon) kept).trans (h soon)

end Steps

/-- **Guesses are limited.** In every run the stored secret changes only when it is set where none
is, reset with every answer right and no lockout in force, or wiped. After a wrong answer, and
without a factory reset, every request about a forgotten secret is refused for five minutes. -/
theorem guesses_limited (c : Crypto) (d : Apmd) :
    (∀ events, Run.EachStep (step c) (ChangesRightly c) d events) ∧
      ∀ req between req', WrongAnswer c req d →
        Run.EachStep (step c) Forward (step c d (.request req)) between →
        Run.EachStep (step c) (NotWiped c) (step c d (.request req)) between →
        req'.type = .ForgotPassword →
        (Run.run (step c) (step c d (.request req)) between).now <
          d.now.val + kResetCooldownSeconds →
        Refused (respond c req' (Run.run (step c) (step c d (.request req)) between)) := by
  refine ⟨fun events => Run.eachStep_of_forall fun _ => changesRightly, ?_⟩
  intro req between req' wrong forward kept forgot soon
  have small : d.now.val + kResetCooldownSeconds < 2 ^ 64 := by
    have := d.now.isLt
    have cooldown : kResetCooldownSeconds = 300 := rfl
    omega
  have start : LockedTo (d.now.val + kResetCooldownSeconds) (step c d (.request req)) :=
    fun _ => (step_handles c req d).locks wrong
  have keeps : ∀ d' event, LockedTo (d.now.val + kResetCooldownSeconds) d' →
      Forward d' event ∧ NotWiped c d' event →
        LockedTo (d.now.val + kResetCooldownSeconds) (step c d' event) :=
    fun _ _ locked both => locked.step small both.1 both.2
  have always := Run.always_of_eachStep keeps start (forward.and kept)
  exact (step_handles c req' _).refused (always.last.inForce small soon) forgot

/-- Whether a wrong answer is looked at. -/
def looksWrong (c : Crypto) (req : Request) (d : Apmd) : Bool :=
  match givenAnswers req, (exec (loadUnlocked c d.now) d).1 with
  | some given, .ok stored => (stored.zip given).any fun qa => !answers c qa.1 qa.2
  | _, _ => false

theorem wrongAnswer_of_looksWrong {c : Crypto} {req : Request} {d : Apmd}
    (type : req.type = .ForgotPassword) (h : looksWrong c req d = true) : WrongAnswer c req d := by
  unfold looksWrong at h
  split at h
  · rename_i given stored gives opens
    obtain ⟨qa, mem, wrong⟩ := List.any_eq_true.mp h
    refine ⟨type, given, stored, gives, opens, fun right => ?_⟩
    rw [right qa mem] at wrong
    cases wrong
  · cases h

/-- A request to verify three answers, the first of them as given. -/
def verifyRequest (answer : String) : Request where
  type := .ForgotPassword
  rawFields := (questionFields.insert (str "security_a1") (str answer)).insert
    (str "reset_stage") (str "verify")

/-- A wrong answer on a device with a secret, and a right one four minutes later. -/
theorem guesses_limited_verify :
    Refused (respond clearCrypto (verifyRequest "rex")
      (Run.run (step clearCrypto)
        (step clearCrypto (step clearCrypto {} (.request (setRequest "1234")))
          (.request (verifyRequest "max"))) [.restart, .clock 240])) :=
  (guesses_limited clearCrypto (step clearCrypto {} (.request (setRequest "1234")))).2
    (verifyRequest "max") [.restart, .clock 240] (verifyRequest "rex")
    (wrongAnswer_of_looksWrong rfl (by decide +kernel))
    ⟨trivial, by decide +kernel, trivial⟩ ⟨trivial, trivial, trivial⟩ rfl (by decide +kernel)

end Apm.Daemon
