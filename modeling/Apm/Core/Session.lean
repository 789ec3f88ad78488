import Apm.Core.Number
import Apm.Util.LineText
import Apm.Lib.Effect

/-!
The session file of `src/core/security.cpp`.

## Main results

* `parseSession_serializeSession`: a session that is written is read back.
-/

namespace Apm.Security

open Apm.Lib.Text
open Apm.Repo (getlines_unlines mem_of_mem_dropCr mem_of_mem_trim mem_splitOn_of_mem_getlines
  trim_eq)

def SECURITY_QUESTION_COUNT : Nat := 3
def SESSION_LIFETIME_SECONDS : Nat := 180

structure SessionState where
  token : ByteString := []
  expiresAt : Nat := 0
  hmac : ByteString := []
deriving DecidableEq

def serializeSession (state : SessionState) : ByteString :=
  str "token:" ++ state.token ++ str "\n" ++ str "expires:" ++ decimal state.expiresAt ++
    str "\n" ++ str "hmac:" ++ state.hmac ++ str "\n"

def buildSessionPayload (state : SessionState) : ByteString :=
  state.token ++ str "|" ++ decimal state.expiresAt

/-- One line of the session file. -/
def sessionLine (out : SessionState) (line : ByteString) : Except ByteString SessionState :=
  let line := dropCr line
  if line.isEmpty then .ok out
  else if !line.contains (chr ':') then .error (str "Malformed session line: " ++ line)
  else
    let key := trim (upTo (· == chr ':') line)
    let value := trim (line.dropWhile (· != chr ':')).tail
    if key == str "token" then .ok { out with token := value }
    else if key == str "expires" then
      match strtoull value with
      | none => .error (str "Invalid session expiry value")
      | some parsed => .ok { out with expiresAt := parsed }
    else if key == str "hmac" then .ok { out with hmac := value }
    else .ok out

def parseSession (raw : ByteString) : Except ByteString SessionState := do
  let out ← (getlines (chr '\n') raw).foldlM sessionLine {}
  if out.token.isEmpty || out.expiresAt == 0 || out.hmac.isEmpty then
    .error (str "Session file missing required fields")
  else .ok out

def isSessionExpired (state : SessionState) (nowSeconds : Nat) : Bool :=
  state.expiresAt ≤ nowSeconds

/-! ### Reading back -/

/-- A value that the session file can hold: no line break, no blanks at its ends. -/
structure ValueFits (value : ByteString) : Prop where
  filled : value ≠ []
  oneLine : chr '\n' ∉ value
  bare : Bare isspace value

/-- Bytes that are no blanks make a value. -/
theorem ValueFits.of_forall {value : ByteString} (filled : value ≠ [])
    (h : ∀ c ∈ value, ¬ isspace c) : ValueFits value := by
  constructor
  · exact filled
  · intro mem
    exact h _ mem (by decide)
  · constructor
    · intro c first
      exact h c (List.mem_of_mem_head? first)
    · intro c last
      exact h c (List.mem_of_getLast? last)

theorem valueFits_decimal (n : Nat) : ValueFits (decimal n) :=
  .of_forall (decimal_ne_nil n) fun _ mem => not_isspace_of_isdigit (isdigit_of_mem_decimal mem)

/-- What a line with one of the keys says. -/
theorem sessionLine_key {key value : ByteString} (fits : ValueFits value)
    (plain : chr ':' ∉ key) (bare : trim key = key) (out : SessionState) :
    sessionLine out (key ++ str ":" ++ value) =
      if key == str "token" then .ok { out with token := value }
      else if key == str "expires" then
        match strtoull value with
        | none => .error (str "Invalid session expiry value")
        | some parsed => .ok { out with expiresAt := parsed }
      else if key == str "hmac" then .ok { out with hmac := value }
      else .ok out := by
  have line : key ++ str ":" ++ value = key ++ chr ':' :: value := by
    rw [List.append_assoc]
    rfl
  have noCr : dropCr (key ++ chr ':' :: value) = key ++ chr ':' :: value := by
    obtain ⟨init, last, text⟩ := List.eq_nil_or_concat' value |>.resolve_left fits.filled
    apply if_neg
    rw [text, ← List.cons_append, ← List.append_assoc, List.getLast?_concat]
    intro cr
    have blank := fits.bare.2 last (by rw [text, List.getLast?_concat]; rfl)
    rw [Option.some.inj cr] at blank
    exact blank (by decide)
  have filled : (key ++ chr ':' :: value).isEmpty = false := by
    cases key <;> rfl
  have colon : (key ++ chr ':' :: value).contains (chr ':') = true :=
    List.contains_iff_mem.mpr (List.mem_append_right _ List.mem_cons_self)
  rw [line, sessionLine, noCr]
  dsimp only
  rw [filled, colon, upTo_key plain, tail_key plain, bare, trim_eq, fits.bare.strip]
  rfl

/-- What the session file can hold. -/
structure SessionState.Fits (state : SessionState) : Prop where
  token : ValueFits state.token
  hmac : ValueFits state.hmac
  expires : 0 < state.expiresAt ∧ state.expiresAt < 2 ^ 64

/-- **A session that is written is read back.** -/
theorem parseSession_serializeSession {state : SessionState} (fits : state.Fits) :
    parseSession (serializeSession state) = .ok state := by
  have text : serializeSession state =
      unlines (chr '\n') [str "token" ++ str ":" ++ state.token,
        str "expires" ++ str ":" ++ decimal state.expiresAt,
        str "hmac" ++ str ":" ++ state.hmac] ++ [] := by
    simp [serializeSession, unlines, str, chr]
  have clean : ∀ {key value : ByteString}, chr '\n' ∉ key → ValueFits value →
      chr '\n' ∉ key ++ str ":" ++ value := by
    intro key value noBreak fits mem
    simp only [List.mem_append] at mem
    rcases mem with (mem | mem) | mem
    · exact noBreak mem
    · exact absurd mem (by decide)
    · exact fits.oneLine mem
  have lines : getlines (chr '\n') (serializeSession state) =
      [str "token" ++ str ":" ++ state.token,
        str "expires" ++ str ":" ++ decimal state.expiresAt,
        str "hmac" ++ str ":" ++ state.hmac] := by
    rw [text, getlines_unlines]
    · rfl
    · intro line mem
      simp only [List.mem_cons, List.not_mem_nil, or_false] at mem
      rcases mem with rfl | rfl | rfl
      · exact clean (by decide) fits.token
      · exact clean (by decide) (valueFits_decimal _)
      · exact clean (by decide) fits.hmac
  have token : sessionLine {} (str "token" ++ str ":" ++ state.token) =
      .ok { token := state.token } :=
    sessionLine_key fits.token (by decide) (by decide) _
  have expires : ∀ out, sessionLine out (str "expires" ++ str ":" ++ decimal state.expiresAt) =
      .ok { out with expiresAt := state.expiresAt } := by
    intro out
    have line := sessionLine_key (valueFits_decimal state.expiresAt)
      (show chr ':' ∉ str "expires" by decide) (by decide) out
    rw [strtoull_decimal fits.expires.2] at line
    exact line
  have hmac : ∀ out, sessionLine out (str "hmac" ++ str ":" ++ state.hmac) =
      .ok { out with hmac := state.hmac } := fun out =>
    sessionLine_key fits.hmac (by decide) (by decide) out
  have complete : (state.token.isEmpty || state.expiresAt == 0 || state.hmac.isEmpty) = false := by
    rw [Bool.or_eq_false_iff, Bool.or_eq_false_iff, beq_eq_false_iff_ne]
    refine ⟨⟨?_, Nat.pos_iff_ne_zero.mp fits.expires.1⟩, ?_⟩
    · exact List.isEmpty_eq_false_iff.mpr fits.token.filled
    · exact List.isEmpty_eq_false_iff.mpr fits.hmac.filled
  have read : (getlines (chr '\n') (serializeSession state)).foldlM sessionLine {} =
      .ok state := by
    rw [lines]
    simp only [List.foldlM_cons, List.foldlM_nil, token, expires, hmac, bind, Except.bind]
    rfl
  rw [parseSession, read]
  change (if state.token.isEmpty || state.expiresAt == 0 || state.hmac.isEmpty then _ else _) = _
  rw [complete]
  rfl

/-! ### Hexadecimal sessions -/

/-- A text of hexadecimal digits. -/
def Hex (text : ByteString) : Prop := ∀ c ∈ text, isxdigit c

instance : DecidablePred Hex := fun text => inferInstanceAs (Decidable (∀ c ∈ text, _))

theorem not_isspace_of_isxdigit {c : UInt8} (h : isxdigit c) : ¬ isspace c := by
  simp only [isxdigit, isdigit, isspace, Bool.and_eq_true, Bool.or_eq_true, beq_iff_eq,
    decide_eq_true_eq, UInt8.le_iff_toNat_le, ← UInt8.toNat_inj] at h ⊢
  simp at h ⊢
  omega

theorem Hex.valueFits {text : ByteString} (h : Hex text) (filled : text ≠ []) : ValueFits text :=
  .of_forall filled fun c mem => not_isspace_of_isxdigit (h c mem)

/-- The token ends at the bar. -/
theorem buildSessionPayload_inj {s s' : SessionState} (hex : Hex s.token)
    (same : buildSessionPayload s = buildSessionPayload s') :
    s.token = s'.token ∧ s.expiresAt = s'.expiresAt := by
  have payload : ∀ s : SessionState,
      buildSessionPayload s = s.token ++ chr '|' :: decimal s.expiresAt := by
    intro s
    rw [buildSessionPayload, List.append_assoc]
    rfl
  have token : chr '|' ∉ s.token := fun mem => absurd (hex _ mem) (by decide)
  have number : chr '|' ∉ decimal s.expiresAt := fun mem =>
    absurd (isdigit_of_mem_decimal mem) (by decide)
  rw [payload, payload, List.append_cons_inj_of_notMem token number] at same
  exact ⟨same.1, decimal_injective same.2.2⟩

/-- **Sessions are unambiguous**: different ones have different payloads, and one that is stored is
read back. -/
theorem session_unambiguous (s s' : SessionState) (hex : Hex s.token)
    (fits : s.expiresAt < 2 ^ 64) :
    (buildSessionPayload s = buildSessionPayload s' →
      s.token = s'.token ∧ s.expiresAt = s'.expiresAt) ∧
    (s.token ≠ [] → Hex s.hmac → s.hmac ≠ [] → 0 < s.expiresAt →
      parseSession (serializeSession s) = .ok s) := by
  constructor
  · exact buildSessionPayload_inj hex
  · intro filled hmac hmacFilled positive
    exact parseSession_serializeSession
      ⟨hex.valueFits filled, hmac.valueFits hmacFilled, positive, fits⟩

/-- A session up to the last second that there is. -/
theorem session_unambiguous_last :
    parseSession (serializeSession ⟨str "00ff", 2 ^ 64 - 1, str "a9"⟩) =
      .ok ⟨str "00ff", 2 ^ 64 - 1, str "a9"⟩ :=
  (session_unambiguous ⟨str "00ff", 2 ^ 64 - 1, str "a9"⟩ {} (by decide) (by decide)).2
    (by decide) (by decide) (by decide) (by decide)

/-- What a line leaves of the token, or puts in its place. -/
theorem sessionLine_token {out out' : SessionState} {line : ByteString} (clean : chr '\n' ∉ line)
    (read : sessionLine out line = .ok out') :
    out'.token = out.token ∨ chr '\n' ∉ out'.token ∧ Bare isspace out'.token := by
  unfold sessionLine at read
  dsimp only at read
  split at read
  · cases read
    exact .inl rfl
  split at read
  · cases read
  split at read
  · cases read
    refine .inr ⟨fun mem => clean ?_, strip_bare _⟩
    exact mem_of_mem_dropCr ((List.dropWhile_suffix _).mem (List.mem_of_mem_tail
      (mem_of_mem_trim mem)))
  split at read
  · split at read
    · cases read
    · cases read
      exact .inl rfl
  split at read
  · cases read
    exact .inl rfl
  · cases read
    exact .inl rfl

theorem foldlM_sessionLine_token {lines : List ByteString} (clean : ∀ l ∈ lines, chr '\n' ∉ l)
    {out out' : SessionState} (start : out.token = [] ∨ ValueFits out.token)
    (read : lines.foldlM sessionLine out = .ok out') : out'.token = [] ∨ ValueFits out'.token := by
  induction lines generalizing out with
  | nil =>
    cases read
    exact start
  | cons line lines ih =>
    obtain ⟨first, others⟩ := List.forall_mem_cons.mp clean
    rw [List.foldlM_cons] at read
    obtain ⟨next, one, rest⟩ := Lib.Effect.ok_of_bind read
    refine ih others ?_ rest
    rcases sessionLine_token first one with same | ⟨oneLine, bare⟩
    · exact same ▸ start
    · by_cases filled : next.token = []
      · exact .inl filled
      · exact .inr ⟨filled, oneLine, bare⟩

/-- The token of a session that is read can be written again. -/
theorem parseSession_token {raw : ByteString} {state : SessionState}
    (h : parseSession raw = .ok state) : ValueFits state.token := by
  obtain ⟨out, read, checked⟩ := Lib.Effect.ok_of_bind h
  split at checked
  · cases checked
  · rename_i complete
    cases checked
    rw [Bool.or_eq_true, Bool.or_eq_true, not_or, not_or] at complete
    refine (foldlM_sessionLine_token (fun line mem => ?_) (.inl rfl) read).resolve_left
      fun empty => complete.1.1 (List.isEmpty_iff.mpr empty)
    exact not_mem_of_mem_splitOn (mem_splitOn_of_mem_getlines mem)

end Apm.Security
