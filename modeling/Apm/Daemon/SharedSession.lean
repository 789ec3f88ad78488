import Apm.Daemon.Handling
import Apm.Lib.Run

/-!
The session file between two daemons.

`apmd` issues sessions, `apmd` and `amsd` validate them and write them again with a later end.
`validateSessionToken` of `src/amsd/security_manager.cpp` is that of `apmd` but for a message. A
validation loads the file, checks what it has loaded and stores it, with moves of the other
daemon in between. Both use one master key, which is loaded.

## Main results

* `session_kept_iff`: the session file always holds the session that was issued last, to its
  latest end, as long as no refresh is stored that was loaded before an issue or checked before
  the session that the file holds;
* `stale_refresh`: a refresh that straddles an issue brings the old token back.
-/

namespace Apm.Daemon

open Apm.Lib Apm.Lib.Effect Apm.Security

/-! ### Moves -/

inductive Process where
  | apmd | amsd
deriving DecidableEq

/-- How far a process is with a validation. -/
inductive Phase where
  | idle
  /-- The session is loaded, when so much randomness was drawn. -/
  | loaded (token : ByteString) (state : SessionState) (draws : Nat)
  /-- The session was accepted at a time, and is signed again. -/
  | checked (state : SessionState) (draws : Nat) (time : Nat)
deriving DecidableEq

/-- The token that was issued last, and the latest end that was written for it. -/
structure Latest where
  token : ByteString
  ends : Nat
deriving DecidableEq

structure System where
  sessionFile : Option ByteString := none
  now : UnixSeconds := 0
  draws : Nat := 0
  phase : Process → Phase := fun _ => .idle
  latest : Option Latest := none
  /-- When the session in the file was issued or checked. -/
  writtenAt : Nat := 0

inductive Move where
  | clock (now : UnixSeconds)
  /-- `issueSession` of `apmd`, which handles one request at a time. -/
  | issue
  | load (p : Process) (token : ByteString)
  | check (p : Process)
  | store (p : Process)

section Moves

variable (c : Crypto) (key : ByteString)

/-- What a process sees. -/
def seen (sessionFile : Option ByteString) (now : UnixSeconds) (draws : Nat) : Apmd where
  dir := { sessionFile }
  masterKey := some key
  now
  draws

def System.set (s : System) (p : Process) (phase : Phase) : System :=
  { s with phase := Function.update s.phase p phase }

theorem System.set_phase (s : System) (p q : Process) (phase : Phase) :
    (s.set p phase).phase q = if q = p then phase else s.phase q :=
  Function.update_apply s.phase p phase q

def issue (s : System) : System :=
  match exec (issueSession c) (seen key s.sessionFile s.now s.draws) with
  | (.ok state, d) => { s with
      sessionFile := d.dir.sessionFile
      draws := d.draws
      latest := some ⟨state.token, state.expiresAt⟩
      writtenAt := s.now }
  | (.error _, _) => s

def load (s : System) (p : Process) (token : ByteString) : System :=
  match (exec (loadForToken token) (seen key s.sessionFile s.now s.draws)).1 with
  | .ok state => s.set p (.loaded token state s.draws)
  | .error _ => s

/-- Check the session that is loaded, and sign it again. -/
def checkAndSign (token : ByteString) (now : Nat) (state : SessionState) : Sec SessionState := do
  checkSession c token now state
  signed c state.token now

def check (s : System) (p : Process) (token : ByteString) (state : SessionState) (draws : Nat) :
    System :=
  match (exec (checkAndSign c token s.now state) (seen key s.sessionFile s.now s.draws)).1 with
  | .ok state => s.set p (.checked state draws s.now)
  | .error _ => s.set p .idle

/-- The latest end of a session that is written. -/
def Latest.extend (latest : Latest) (state : SessionState) : Latest :=
  if state.token = latest.token then { latest with ends := max latest.ends state.expiresAt }
  else latest

def store (s : System) (p : Process) (state : SessionState) (time : Nat) : System :=
  { s.set p .idle with
    sessionFile :=
      (exec (writeSession state) (seen key s.sessionFile s.now s.draws)).2.dir.sessionFile
    latest := s.latest.map (·.extend state)
    writtenAt := time }

/-- A move. One that its process is not ready for changes nothing. -/
def move (s : System) : Move → System
  | .clock now => { s with now }
  | .issue => if s.phase .apmd = .idle then issue c key s else s
  | .load p token => if s.phase p = .idle then load key s p token else s
  | .check p =>
      match s.phase p with
      | .loaded token state draws => check c key s p token state draws
      | _ => s
  | .store p =>
      match s.phase p with
      | .checked state _ time => store key s p state time
      | _ => s

/-- A validation that finds the file so accepts the token at the time. -/
def accepts (sessionFile : Option ByteString) (token : ByteString) (time : Nat) : Bool :=
  match (exec (loadForToken token) (seen key sessionFile 0 0)).1 with
  | .ok state => (exec (checkSession c token time state) (seen key sessionFile 0 0)).1.isOk
  | .error _ => false

/-- From now on, the token that was issued last is accepted up to its latest end, and no other. -/
def SessionKept (s : System) : Prop :=
  ∀ token time, accepts c key s.sessionFile token time = true ↔
    ∃ latest, s.latest = some latest ∧ token = latest.token ∧ time < latest.ends

/-- What was loaded after the last issue, and checked no earlier than the session in the file. -/
def Phase.Current (s : System) : Phase → Prop
  | .checked _ draws time => draws = s.draws ∧ s.writtenAt ≤ time
  | _ => True

/-- No refresh is stored that was loaded before the last issue, or checked before the session in
the file was. -/
def StoresInOrder (s : System) : Move → Prop
  | .store p => (s.phase p).Current s
  | _ => True

instance (s : System) : DecidablePred (Phase.Current s)
  | .checked _ draws time => inferInstanceAs (Decidable (draws = s.draws ∧ s.writtenAt ≤ time))
  | .idle | .loaded .. => inferInstanceAs (Decidable True)

instance (s : System) : DecidablePred (StoresInOrder s)
  | .store p => inferInstanceAs (Decidable ((s.phase p).Current s))
  | .clock _ | .issue | .load .. | .check _ => inferInstanceAs (Decidable True)

end Moves

/-! ### What the programs compute -/

section Computed

variable {c : Crypto} {key : ByteString}

/-- The HMAC of a session under the key. -/
def hmacOf (c : Crypto) (key : ByteString) (state : SessionState) : ByteString :=
  bytesToHex (c.hmac (c.hmac key sessionKeyLabel) (buildSessionPayload state))

def tokenOf (c : Crypto) (draw : Nat) : ByteString := bytesToHex (c.random draw 32)

/-- The session of a token that is signed at a time. -/
def sessionAt (c : Crypto) (key token : ByteString) (time : Nat) : SessionState where
  token
  expiresAt := (time + SESSION_LIFETIME_SECONDS) % 2 ^ 64
  hmac := hmacOf c key { token, expiresAt := (time + SESSION_LIFETIME_SECONDS) % 2 ^ 64 }

theorem exec_deriveHmac {d : Apmd} (memory : d.masterKey = some key) (state : SessionState) :
    exec (deriveHmac c state) d = (.ok (hmacOf c key state), d) := by
  rw [deriveHmac, deriveKeyMaterial, exec_bind, exec_bind, ensureMasterKey_loaded c memory]
  rfl

theorem exec_signed {d : Apmd} (memory : d.masterKey = some key) (token : ByteString)
    (now : Nat) : exec (signed c token now) d = (.ok (sessionAt c key token now), d) := by
  rw [signed, exec_bind, exec_deriveHmac memory]
  rfl

theorem exec_issueSession {d : Apmd} (memory : d.masterKey = some key) :
    exec (issueSession c) d = (.ok (sessionAt c key (tokenOf c d.draws) d.now),
      { d with
        draws := d.draws + 1
        dir := { d.dir with
          sessionFile :=
            some (serializeSession (sessionAt c key (tokenOf c d.draws) d.now)) } }) := by
  have drawn : ({ d with draws := d.draws + 1 } : Apmd).masterKey = some key := memory
  rw [issueSession, exec_bind]
  change exec (do
    let d ← current
    let state ← signed c (tokenOf c _) d.now
    writeSession state
    pure state) { d with draws := d.draws + 1 } = _
  rw [exec_bind]
  change exec (do
    let state ← signed c (tokenOf c _) d.now
    writeSession state
    pure state) { d with draws := d.draws + 1 } = _
  rw [exec_bind, exec_signed drawn]
  rfl

/-- What is checked of a session under the key that signed it. -/
theorem exec_checkSession {d : Apmd} (memory : d.masterKey = some key)
    {state : SessionState} (genuine : state.hmac = hmacOf c key state) (token : ByteString)
    (now : Nat) : (exec (checkSession c token now state) d).1 = .ok () ↔
      state.token = token ∧ now < state.expiresAt := by
  rw [checkSession, exec_bind, exec_deriveHmac memory]
  dsimp only
  rw [if_neg (by simp [genuine]), isSessionExpired]
  by_cases expired : state.expiresAt ≤ now
  · rw [if_pos (decide_eq_true expired)]
    exact ⟨fun accepted => absurd accepted error_ne_ok,
      fun h => absurd h.2 (Nat.not_lt.mpr expired)⟩
  · rw [if_neg (by simpa using expired)]
    by_cases same : state.token = token
    · rw [if_neg (by simpa using same)]
      exact ⟨fun _ => ⟨same, Nat.not_le.mp expired⟩, fun _ => rfl⟩
    · rw [if_pos (bne_iff_ne.mpr same)]
      exact ⟨fun accepted => absurd accepted error_ne_ok, fun h => absurd h.1 same⟩

theorem tokenOf_fits (draw : Nat) : ValueFits (tokenOf c draw) := by
  refine valueFits_bytesToHex fun empty => ?_
  have length := c.random_length draw 32
  rw [empty] at length
  cases length

theorem sessionAt_expiresAt (token : ByteString) (time : UnixSeconds) :
    (sessionAt c key token time).expiresAt = time.val + SESSION_LIFETIME_SECONDS :=
  expiresAt_eq time

theorem sessionAt_fits {token : ByteString} (fits : ValueFits token) (time : UnixSeconds) :
    (sessionAt c key token time).Fits := by
  refine ⟨fits, valueFits_bytesToHex fun empty => ?_, ?_⟩
  · have length := c.hmac_length (c.hmac key sessionKeyLabel) (buildSessionPayload
      { token, expiresAt := (time.val + SESSION_LIFETIME_SECONDS) % 2 ^ 64 })
    rw [empty] at length
    cases length
  · rw [sessionAt_expiresAt]
    have := time.isLt
    have lifetime : SESSION_LIFETIME_SECONDS = 180 := rfl
    omega

/-- What is loaded for a token. -/
theorem exec_loadForToken {d : Apmd} {token : ByteString} {state : SessionState} :
    (exec (loadForToken token) d).1 = .ok state ↔ token ≠ [] ∧ Holds d state := by
  have spec := wp_and (wp_exec (loadForToken token) d) (loadForToken_spec token d)
  unfold wp at spec
  split at spec
  · rename_i found d' run
    rw [run]
    constructor
    · intro same
      cases same
      exact spec.2.2
    · rintro ⟨filled, raw, file, read⟩
      obtain ⟨-, -, -, raw', file', read'⟩ := spec
      obtain rfl : raw = raw' := Option.some.inj (file.symm.trans file')
      exact read'.symm.trans read
  · rename_i msg d' run
    rw [run]
    exact ⟨nofun, fun h => absurd h (spec.2.2 state)⟩

theorem accepts_none (token : ByteString) (time : Nat) :
    accepts c key none token time = false := by
  unfold accepts
  cases found : (exec (loadForToken token) (seen key none 0 0)).1 with
  | error msg => rfl
  | ok state =>
    obtain ⟨-, raw, file, -⟩ := exec_loadForToken.mp found
    exact nomatch file

/-- A genuine session in the file is accepted by its token, up to its end. -/
theorem accepts_session {state : SessionState} (fits : state.Fits)
    (genuine : state.hmac = hmacOf c key state) (token : ByteString) (time : Nat) :
    accepts c key (some (serializeSession state)) token time = true ↔
      token = state.token ∧ time < state.expiresAt := by
  have holds : Holds (seen key (some (serializeSession state)) 0 0) state :=
    ⟨_, rfl, parseSession_serializeSession fits⟩
  have memory : (seen key (some (serializeSession state)) 0 0).masterKey = some key := rfl
  unfold accepts
  by_cases empty : token = []
  · subst empty
    have fails : ∀ found,
        (exec (loadForToken []) (seen key (some (serializeSession state)) 0 0)).1 ≠ .ok found :=
      fun found loads => (exec_loadForToken.mp loads).1 rfl
    cases found : (exec (loadForToken []) (seen key (some (serializeSession state)) 0 0)).1 with
    | error msg => exact ⟨nofun, fun h => absurd h.1.symm fits.token.filled⟩
    | ok other => exact absurd found (fails other)
  · rw [exec_loadForToken.mpr ⟨empty, holds⟩]
    have check := exec_checkSession (c := c) memory genuine token time
    rw [@eq_comm _ token, ← check]
    dsimp only
    cases (exec (checkSession c token time state)
      (seen key (some (serializeSession state)) 0 0)).1 with
    | error msg => exact ⟨nofun, nofun⟩
    | ok u => exact ⟨fun _ => rfl, fun _ => rfl⟩

theorem sessionAt_genuine (token : ByteString) (time : Nat) :
    (sessionAt c key token time).hmac = hmacOf c key (sessionAt c key token time) := rfl

end Computed

/-! ### Runs in order -/

section Runs

variable {c : Crypto} {key : ByteString}

/-- A session of the token drawn before so much randomness was. -/
def Drawn (c : Crypto) (key : ByteString) (draws : Nat) (state : SessionState) (time : Nat) :
    Prop :=
  ∃ draw, draw + 1 = draws ∧ ∃ at' : UnixSeconds, at'.val = time ∧
    state = sessionAt c key (tokenOf c draw) time

/-- What a process has loaded or checked was in the file. -/
def PhaseFits (c : Crypto) (key : ByteString) (s : System) : Phase → Prop
  | .idle => True
  | .loaded _ state draws => draws ≤ s.draws ∧ ∃ time, Drawn c key draws state time
  | .checked state draws time => draws ≤ s.draws ∧ Drawn c key draws state time

/-- The file holds the session of the last draw, to its latest end. Before the first one, no
process is at work. -/
structure InOrder (c : Crypto) (key : ByteString) (s : System) : Prop where
  file : s.sessionFile = none ∧ s.latest = none ∧ (∀ p, s.phase p = .idle) ∨
    ∃ state, Drawn c key s.draws state s.writtenAt ∧
    s.sessionFile = some (serializeSession state) ∧
      s.latest = some ⟨state.token, state.expiresAt⟩
  phases : ∀ p, PhaseFits c key s (s.phase p)

theorem Drawn.fits {draws time : Nat} {state : SessionState} (h : Drawn c key draws state time) :
    state.Fits ∧ state.hmac = hmacOf c key state ∧
      state.expiresAt = time + SESSION_LIFETIME_SECONDS := by
  obtain ⟨draw, -, at', rfl, rfl⟩ := h
  exact ⟨sessionAt_fits (tokenOf_fits draw) at', sessionAt_genuine _ _, sessionAt_expiresAt _ at'⟩

theorem InOrder.kept {s : System} (h : InOrder c key s) : SessionKept c key s := by
  intro token time
  rcases h.file with ⟨file, latest, -⟩ | ⟨state, drawn, file, latest⟩
  · rw [file, latest, accepts_none]
    exact ⟨nofun, fun ⟨_, absent, _⟩ => nomatch absent⟩
  · rw [file, latest, accepts_session drawn.fits.1 drawn.fits.2.1]
    constructor
    · rintro ⟨same, soon⟩
      exact ⟨_, rfl, same, soon⟩
    · rintro ⟨_, ⟨⟩, same, soon⟩
      exact ⟨same, soon⟩

/-- The tokens of so many draws differ. -/
def FreshTokens (c : Crypto) (draws : Nat) : Prop :=
  ∀ i < draws, ∀ j < draws, c.random i 32 = c.random j 32 → i = j

theorem bytesToHex_injective : Function.Injective bytesToHex := by
  intro a
  induction a with
  | nil =>
    intro b same
    cases b with
    | nil => rfl
    | cons y b => cases same
  | cons x a ih =>
    intro b same
    cases b with
    | nil => cases same
    | cons y b =>
      have cons : ∀ (z : UInt8) (rest : ByteString), bytesToHex (z :: rest) =
          hexDigit (z.toNat / 16) :: hexDigit (z.toNat % 16) :: bytesToHex rest := fun _ _ => rfl
      rw [cons, cons, List.cons.injEq, List.cons.injEq] at same
      have small := x.toNat_lt
      have small' := y.toNat_lt
      have high := hexDigit_inj (by omega) (by omega) same.1
      have low := hexDigit_inj (by omega) (by omega) same.2.1
      rw [ih same.2.2, UInt8.toNat_inj.mp (by omega : x.toNat = y.toNat)]

theorem FreshTokens.tokenOf_inj {draws i j : Nat} (fresh : FreshTokens c draws) (hi : i < draws)
    (hj : j < draws) (same : tokenOf c i = tokenOf c j) : i = j :=
  fresh i hi j hj (bytesToHex_injective same)

theorem FreshTokens.mono {draws draws' : Nat} (fresh : FreshTokens c draws')
    (le : draws ≤ draws') : FreshTokens c draws :=
  fun i hi j hj => fresh i (hi.trans_le le) j (hj.trans_le le)

theorem move_store {s : System} {p : Process} {state : SessionState} {draws time : Nat}
    (phase : s.phase p = .checked state draws time) :
    move c key s (.store p) = store key s p state time := by
  simp only [move, phase]

/-- Randomness is not taken back. -/
theorem draws_le (s : System) (m : Move) : s.draws ≤ (move c key s m).draws := by
  cases m with
  | clock now => exact le_rfl
  | issue =>
    change s.draws ≤ (if s.phase .apmd = .idle then issue c key s else s).draws
    split
    · unfold issue
      rw [exec_issueSession (c := c) (d := seen key s.sessionFile s.now s.draws) rfl]
      exact Nat.le_succ _
    · exact le_rfl
  | load p token =>
    change s.draws ≤ (if s.phase p = .idle then load key s p token else s).draws
    split
    · unfold load
      split <;> exact le_rfl
    · exact le_rfl
  | check p =>
    cases phase : s.phase p with
    | idle | checked => simp only [move, phase, le_refl]
    | loaded token state draws =>
      simp only [move, phase, check]
      split <;> exact le_rfl
  | store p =>
    cases phase : s.phase p with
    | idle | loaded => simp only [move, phase, le_refl]
    | checked state draws time =>
      rw [move_store phase]
      exact le_rfl

/-- A store out of order loses the session. -/
theorem not_kept_of_disordered {s : System} (h : InOrder c key s)
    (fresh : FreshTokens c s.draws)
    {m : Move} (disordered : ¬ StoresInOrder s m) : ¬ SessionKept c key (move c key s m) := by
  cases m with
  | clock | issue | load | check => exact absurd trivial disordered
  | store p =>
    obtain ⟨state, draws, time, phase⟩ :
        ∃ state draws time, s.phase p = .checked state draws time := by
      cases phase : s.phase p with
      | idle | loaded =>
        rw [StoresInOrder, phase] at disordered
        exact absurd trivial disordered
      | checked state draws time => exact ⟨state, draws, time, rfl⟩
    rw [StoresInOrder, phase] at disordered
    have pending := h.phases p
    rw [phase] at pending
    have le := pending.1
    obtain ⟨fits, genuine, ends⟩ := pending.2.fits
    have lifetime : SESSION_LIFETIME_SECONDS = 180 := rfl
    rw [move_store phase]
    intro kept
    have mine : ∀ token time', token = state.token ∧ time' < state.expiresAt ↔
        ∃ latest, s.latest.map (·.extend state) = some latest ∧ token = latest.token ∧
          time' < latest.ends :=
      fun token time' => (accepts_session fits genuine token time').symm.trans (kept token time')
    obtain ⟨latest, extended, same, -⟩ := (mine state.token time).mp ⟨rfl, by omega⟩
    rcases h.file with ⟨-, none, -⟩ | ⟨state', drawn, -, there⟩
    · rw [none] at extended
      cases extended
    rw [there, Option.map_some, Option.some.injEq] at extended
    subst extended
    by_cases token : state.token = state'.token
    · have late : ¬ s.writtenAt ≤ time := by
        intro earlier
        refine disordered ⟨?_, earlier⟩
        obtain ⟨draw, drawn₁, at₁, -, rfl⟩ := pending.2
        obtain ⟨draw', drawn₂, at₂, -, rfl⟩ := drawn
        have := fresh.tokenOf_inj (by omega) (by omega) token
        omega
      have ends' := drawn.fits.2.2
      have wrong := (mine state.token state.expiresAt).mpr ⟨_, by rw [there]; rfl, same, ?_⟩
      · exact absurd wrong.2 (lt_irrefl _)
      · rw [Latest.extend, if_pos token]
        have sooner : state.expiresAt < state'.expiresAt := by omega
        exact sooner.trans_le (Nat.le_max_left _ _)
    · rw [Latest.extend, if_neg token] at same
      exact token same

theorem PhaseFits.of_draws {s s' : System} (le : s.draws ≤ s'.draws) {phase : Phase}
    (h : PhaseFits c key s phase) : PhaseFits c key s' phase := by
  cases phase with
  | idle => trivial
  | loaded token state draws => exact ⟨h.1.trans le, h.2⟩
  | checked state draws time => exact ⟨h.1.trans le, h.2⟩

/-- The phases stay what they were but for one process. -/
theorem phaseFits_set {s s' : System} (h : ∀ q, PhaseFits c key s (s.phase q))
    (le : s.draws ≤ s'.draws) {p : Process} {phase : Phase} (fits : PhaseFits c key s phase)
    (q : Process) : PhaseFits c key s' ((s.set p phase).phase q) := by
  rw [System.set_phase]
  split
  · exact fits.of_draws le
  · exact (h q).of_draws le

/-- What is checked is signed again under the same token. -/
theorem exec_checkAndSign {d : Apmd} (memory : d.masterKey = some key) {token : ByteString}
    {now : Nat} {state next : SessionState}
    (run : (exec (checkAndSign c token now state) d).1 = .ok next) :
    next = sessionAt c key state.token now := by
  have ready := checkSession_readies c token now state d
  rw [checkAndSign, exec_bind] at run
  rcases check : exec (checkSession c token now state) d with ⟨_ | _, d'⟩
  · rw [check] at run
    cases run
  · rw [check] at run ready
    dsimp only at run
    rw [exec_signed (ready.memory memory)] at run
    cases run
    rfl

/-- A process at work has found a session in the file. -/
theorem InOrder.session {s : System} (h : InOrder c key s) {p : Process}
    (busy : s.phase p ≠ .idle) : ∃ state, Drawn c key s.draws state s.writtenAt ∧
      s.sessionFile = some (serializeSession state) ∧
        s.latest = some ⟨state.token, state.expiresAt⟩ :=
  h.file.resolve_left fun start => busy (start.2.2 p)

theorem InOrder.issue {s : System} (h : InOrder c key s) : InOrder c key (issue c key s) := by
  unfold Daemon.issue
  rw [exec_issueSession (c := c) (d := seen key s.sessionFile s.now s.draws) rfl]
  exact ⟨.inr ⟨_, ⟨s.draws, rfl, s.now, rfl, rfl⟩, rfl, rfl⟩,
    fun p => (h.phases p).of_draws (Nat.le_succ _)⟩

theorem InOrder.load {s : System} (h : InOrder c key s) (p : Process) (token : ByteString) :
    InOrder c key (load key s p token) := by
  unfold Daemon.load
  split
  · rename_i state found
    obtain ⟨-, raw, file, read⟩ := exec_loadForToken.mp found
    change s.sessionFile = some raw at file
    rcases h.file with ⟨none, -⟩ | ⟨state', drawn, there, latest⟩
    · exact nomatch none.symm.trans file
    · obtain rfl : serializeSession state' = raw := Option.some.inj (there.symm.trans file)
      rw [parseSession_serializeSession drawn.fits.1] at read
      cases read
      exact ⟨.inr ⟨_, drawn, there, latest⟩,
        phaseFits_set h.phases le_rfl ⟨le_rfl, _, drawn⟩⟩
  · exact h

theorem InOrder.check {s : System} (h : InOrder c key s) {p : Process} {token : ByteString}
    {state : SessionState} {draws : Nat} (phase : s.phase p = .loaded token state draws) :
    InOrder c key (check c key s p token state draws) := by
  have pending := h.phases p
  rw [phase] at pending
  obtain ⟨le, time, draw, count, at', -, rfl⟩ := pending
  have session := h.session (p := p) (by rw [phase]; exact nofun)
  unfold Daemon.check
  split
  · rename_i next run
    refine ⟨.inr session, phaseFits_set h.phases le_rfl ⟨le, draw, count, s.now, rfl, ?_⟩⟩
    exact exec_checkAndSign rfl run
  · exact ⟨.inr session, phaseFits_set h.phases le_rfl trivial⟩

theorem InOrder.store {s : System} (h : InOrder c key s) {p : Process} {state : SessionState}
    {draws time : Nat} (phase : s.phase p = .checked state draws time)
    (last : draws = s.draws) (later : s.writtenAt ≤ time) :
    InOrder c key (store key s p state time) := by
  have pending := h.phases p
  rw [phase] at pending
  obtain ⟨state', drawn, -, latest⟩ := h.session (p := p) (by rw [phase]; exact nofun)
  have now := pending.2
  subst last
  refine ⟨.inr ⟨state, now, rfl, ?_⟩, phaseFits_set h.phases le_rfl trivial⟩
  change s.latest.map (·.extend state) = _
  have sooner : state'.expiresAt ≤ state.expiresAt := by
    rw [now.fits.2.2, drawn.fits.2.2]
    exact Nat.add_le_add_right later _
  have same : state.token = state'.token := by
    obtain ⟨draw, count, at₁, -, rfl⟩ := now
    obtain ⟨draw', count', at₂, -, rfl⟩ := drawn
    obtain rfl : draw = draw' := by omega
    rfl
  rw [latest, Option.map_some, Latest.extend, if_pos same, Nat.max_eq_right sooner, same]

/-- **Moves in order keep the session.** -/
theorem InOrder.move {s : System} (h : InOrder c key s) {m : Move} (ordered : StoresInOrder s m) :
    InOrder c key (move c key s m) := by
  cases m with
  | clock now => exact ⟨h.file, h.phases⟩
  | issue =>
    change InOrder c key (if s.phase .apmd = .idle then Daemon.issue c key s else s)
    split
    · exact h.issue
    · exact h
  | load p token =>
    change InOrder c key (if s.phase p = .idle then Daemon.load key s p token else s)
    split
    · exact h.load p token
    · exact h
  | check p =>
    cases phase : s.phase p with
    | idle | checked => simpa only [Daemon.move, phase] using h
    | loaded token state draws => simpa only [Daemon.move, phase] using h.check phase
  | store p =>
    cases phase : s.phase p with
    | idle | loaded => simpa only [Daemon.move, phase] using h
    | checked state draws time =>
      rw [StoresInOrder, phase] at ordered
      rw [move_store phase]
      exact h.store phase ordered.1 ordered.2

/-- **When the session is kept.** The token that was issued last is accepted up to the latest end
that was written for it, and no other token is, in every state of a run just when its stores are
in order. -/
theorem session_kept_iff (c : Crypto) (key : ByteString) (now : UnixSeconds) (draws : Nat)
    (moves : List Move)
    (fresh : FreshTokens c (Run.run (move c key) { now, draws } moves).draws) :
    Run.Always (move c key) (SessionKept c key) { now, draws } moves ↔
      Run.EachStep (move c key) StoresInOrder { now, draws } moves :=
  Run.always_iff_eachStep_of
    (Run.always_of_last (fun s m fresh => fresh.mono (draws_le s m)) fresh)
    (fun _ ordered => ordered.kept) (fun _ _ ordered next => ordered.move next)
    (fun _ _ ordered fresh next => not_kept_of_disordered ordered fresh next)
    ⟨.inl ⟨rfl, rfl, fun _ => rfl⟩, fun _ => trivial⟩

end Runs

/-! ### A stale refresh -/

theorem clearCrypto_fresh : FreshTokens clearCrypto 256 := by
  intro i hi j hj same
  have first := congrArg (·[0]?) same
  change some (UInt8.ofNat i) = some (UInt8.ofNat j) at first
  have value := congrArg UInt8.toNat (Option.some.inj first)
  rw [UInt8.toNat_ofNat', UInt8.toNat_ofNat', Nat.mod_eq_of_lt hi, Nat.mod_eq_of_lt hj] at value
  exact value

def firstKey : ByteString := List.replicate kMasterKeyLen 0

/-- A session, and a validation of it by the other daemon, one after the other. -/
theorem refreshed_kept :
    Run.Always (move clearCrypto firstKey) (SessionKept clearCrypto firstKey) {}
      [.issue, .clock 60, .load .amsd (tokenOf clearCrypto 0), .check .amsd, .store .amsd] :=
  (session_kept_iff clearCrypto firstKey 0 0 _ (clearCrypto_fresh.mono (by decide +kernel))).mpr
    ⟨trivial, trivial, trivial, trivial, by decide +kernel, trivial⟩

/-- The other daemon loads the first session and stores it again behind the second one. -/
def straddlingRefresh : List Move :=
  [.issue, .load .amsd (tokenOf clearCrypto 0), .check .amsd, .issue, .store .amsd]

theorem stale_refresh :
    ¬ Run.Always (move clearCrypto firstKey) (SessionKept clearCrypto firstKey) {}
      straddlingRefresh := by
  intro kept
  have latest : (Run.run (move clearCrypto firstKey) {} straddlingRefresh).latest =
      some ⟨tokenOf clearCrypto 1, 180⟩ := by decide +kernel
  have old : accepts clearCrypto firstKey
      (Run.run (move clearCrypto firstKey) {} straddlingRefresh).sessionFile
      (tokenOf clearCrypto 0) 0 = true := by decide +kernel
  obtain ⟨last, there, same, -⟩ := (kept.last _ _).mp old
  rw [latest] at there
  cases there
  exact absurd same (by decide)

end Apm.Daemon
