import Apm.Daemon.Handling
import Apm.Lib.Run

/-!
Which sessions privileged requests are accepted with.

## Main results

* `accepted_session`: a privileged request is accepted only with the token that was issued last,
  and only within the lifetime of a session after that, or after its last accepted use.
-/

namespace Apm.Daemon

open Apm.Ipc Apm.Lib Apm.Lib.Effect Apm.Security

/-! ### Watching the sessions -/

/-- The token that was issued last, and when it was issued or, since then, accepted. -/
structure Use where
  token : ByteString
  since : Nat
deriving DecidableEq

/-- A daemon, and what its answers say about the session. -/
structure Tracked where
  daemon : Apmd
  use : Option Use

/-- The token that a reply hands out. -/
def issuedToken (resp : Response) : Option ByteString :=
  if resp.success then resp.rawFields.lookup (str "session_token") else none

/-- An accepted use of the token. -/
def Use.refresh (use : Use) (token : ByteString) (now : Nat) : Use :=
  if use.token = token then { use with since := now } else use

/-- The last issue or accepted use after a request and its answer. -/
def useAfter (req : Request) (o : Outcome) (now : Nat) (use : Option Use) : Option Use :=
  match o with
  | .replied resp =>
      match issuedToken resp with
      | some token => some ⟨token, now⟩
      | none => use
  | .handled => if requiresAuth req.type then use.map (·.refresh req.sessionToken now) else use
  | .unauthorized _ => use

def track (c : Crypto) (t : Tracked) (event : Event) : Tracked where
  daemon := step c t.daemon event
  use :=
    match event with
    | .request req => useAfter req (respond c req t.daemon) t.daemon.now t.use
    | _ => t.use

/-- A session that the file holds is the one that was used last. -/
def Recorded (t : Tracked) : Prop :=
  ∀ raw state, t.daemon.dir.sessionFile = some raw → parseSession raw = .ok state →
    ∃ use, t.use = some use ∧ use.token = state.token ∧
      state.expiresAt ≤ use.since + SESSION_LIFETIME_SECONDS

/-! ### Steps -/

section Steps

variable {c : Crypto} {req : Request} {d d' : Apmd} {state : SessionState}

theorem issuedToken_sessionResponse {message : String} :
    issuedToken (sessionResponse req message state) = some state.token := by
  have other : str "session_token" ≠ str "session_expires" := by decide
  unfold issuedToken sessionResponse
  rw [if_pos rfl, AList.lookup_insert_ne other, AList.lookup_insert]

/-- A session that is written now is the one used last. -/
theorem WritesSession.recorded (h : WritesSession d state d') :
    Recorded ⟨d', some ⟨state.token, d.now⟩⟩ := by
  obtain ⟨d₁, -, fits, expires, rfl⟩ := h
  rintro raw state' file read
  cases file
  rw [parseSession_serializeSession fits] at read
  cases read
  exact ⟨_, rfl, rfl, expires.le⟩

/-- The file stays as it was. -/
theorem Recorded.of_file {t : Tracked} (h : Recorded t)
    (file : d'.dir.sessionFile = t.daemon.dir.sessionFile) : Recorded ⟨d', t.use⟩ :=
  fun raw state there read => h raw state (file.symm.trans there) read

/-- Who uses a session uses the last one, in time. -/
theorem UsesSession.latest {t : Tracked} {token : ByteString} (h : UsesSession token t.daemon d')
    (recorded : Recorded t) : ∃ use, t.use = some use ∧ use.token = token ∧
      t.daemon.now < use.since + SESSION_LIFETIME_SECONDS := by
  obtain ⟨raw, state, next, file, read, same, inForce, -, -⟩ := h
  obtain ⟨use, last, token_eq, expires⟩ := recorded raw state file read
  exact ⟨use, last, token_eq.trans same, inForce.trans_le expires⟩

/-- **Each step keeps the session file on record.** -/
theorem Recorded.track {t : Tracked} (h : Recorded t) (event : Event) :
    Recorded (track c t event) := by
  cases event with
  | clock now => exact h
  | restart => exact h
  | request req =>
    have handles := step_handles c req t.daemon
    unfold Daemon.track
    dsimp only
    generalize respond c req t.daemon = o at handles ⊢
    generalize step c t.daemon (.request req) = d' at handles ⊢
    cases handles with
    | unauthorized gate ready => exact h.of_file ready.session
    | ungated gate =>
      rw [useAfter, if_neg (by simp [gate])]
      exact h
    | authorized gate plain uses =>
      obtain ⟨last, there, same, -⟩ := uses.latest h
      obtain ⟨raw, state, next, -, -, -, -, token, writes⟩ := uses
      have recorded := writes.recorded
      rw [token] at recorded
      rw [useAfter, if_pos gate, there, Option.map_some, Use.refresh, if_pos same, same]
      exact recorded
    | wiped type uses => exact fun _ _ there => nomatch there
    | notAuthenticated type ready unset => exact h.of_file ready.session
    | setUndone type free empty ready => exact h.of_file ready.session
    | unlocked type action writes =>
      rw [useAfter, issuedToken_sessionResponse]
      exact writes.recorded
    | set sets ready configures writes =>
      have recorded := writes.recorded
      rw [configures.rest.1] at recorded
      rw [useAfter, issuedToken_sessionResponse, ← ready.now]
      exact recorded
    | looked type looks calm shown =>
      rename_i resp
      have none : issuedToken resp = none := by
        unfold issuedToken
        split
        · rename_i success
          exact (shown success).2.2
        · rfl
      rw [useAfter, none]
      exact h.of_file looks.session
    | wrong wrong looks => exact h.of_file looks.session
    | reset right looks configures writes =>
      have recorded := writes.recorded
      rw [configures.rest.1, looks.now] at recorded
      rw [useAfter, issuedToken_sessionResponse]
      exact recorded

end Steps

/-- **Only the latest session is accepted, and only in time.** In every run, a privileged request
is accepted only if its token is the one that was issued last, and less than the lifetime of a
session after it was issued or last accepted. -/
theorem accepted_session (c : Crypto) {t : Tracked} (start : Recorded t) (before : List Event)
    {req : Request} (privileged : requiresAuth req.type = true)
    (accepted : (respond c req (Run.run (track c) t before).daemon).passed = true) :
    ∃ use, (Run.run (track c) t before).use = some use ∧ use.token = req.sessionToken ∧
      (Run.run (track c) t before).daemon.now < use.since + SESSION_LIFETIME_SECONDS := by
  have recorded : Recorded (Run.run (track c) t before) :=
    (Run.always_of_step (fun _ event h => h.track event) start).last
  have handles := step_handles c req (Run.run (track c) t before).daemon
  generalize respond c req (Run.run (track c) t before).daemon = o at handles accepted
  generalize step c (Run.run (track c) t before).daemon (.request req) = d' at handles
  cases handles with
  | authorized gate plain uses => exact uses.latest recorded
  | wiped type uses => exact uses.latest recorded
  | ungated gate => rw [privileged] at gate; cases gate
  | unauthorized | notAuthenticated | setUndone | unlocked | set | looked | wrong | reset =>
    cases accepted

theorem recorded_empty : Recorded ⟨{}, none⟩ := by
  intro raw state there
  cases there

def installRequest : Request where
  type := .Install
  sessionToken := firstToken

/-- The first session of a new daemon, two minutes old. -/
theorem accepted_session_install :
    ∃ use, (Run.run (track clearCrypto) ⟨{}, none⟩
        [.request (setRequest "1234"), .clock 120]).use = some use ∧
      use.token = installRequest.sessionToken ∧
      (Run.run (track clearCrypto) ⟨{}, none⟩
        [.request (setRequest "1234"), .clock 120]).daemon.now <
          use.since + SESSION_LIFETIME_SECONDS :=
  accepted_session clearCrypto recorded_empty _ rfl (by decide +kernel)

end Apm.Daemon
