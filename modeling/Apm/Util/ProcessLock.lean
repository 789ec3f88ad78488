import Apm.Core.Number
import Apm.Core.StanzaText
import Apm.Lib.Run
import Mathlib.Algebra.Group.Int.Defs

/-!
`ProcessLock` of `src/util/process_lock.cpp`, with any number of processes on one lock path.

Every access to the lock file is a step of its own, and so is each line that is written. A process
may die at any point, and its number may be given to another one. Opening and writing do not fail.

## Main results

* `lock_exclusive`: at most one live process holds the lock, as long as no process finds it free
  while another one that did is not done; any other step can be followed by two holders. What
  blocks a process is a lock file with the number of a running one, and nothing else.
-/

namespace Apm.Lock

open Apm.Lib.Run Apm.Lib.Text
open Apm.Repo (getlines_unlines)

/-! ### The lock file -/

/-- A process number, as `getpid` gives it. -/
abbrev Pid := { n : Nat // 0 < n ∧ n < 2 ^ 31 }

/-- `>>` into an `int`. -/
def readInt (text : ByteString) : Option Int :=
  let signed := text.dropWhile isspace
  let negative := signed.head? == some (chr '-')
  let digits := (if negative || signed.head? == some (chr '+') then signed.tail else signed)
    |>.takeWhile isdigit
  let value : Int := if negative then -(Repo.digitsValue digits) else Repo.digitsValue digits
  if digits.isEmpty || value < -2 ^ 31 || 2 ^ 31 ≤ value then none else some value

/-- `readLockFile`: the process number, if there is a second line too. -/
def readLockFile (content : ByteString) : Option Int :=
  match getlines (chr '\n') content with
  | line :: _ :: _ => readInt line
  | _ => none

/-- The lines that `writeLockFile` writes. -/
def lockLines (pid : Pid) (timestamp cmdline : ByteString) : List ByteString :=
  [decimal pid ++ str "\n", timestamp ++ str "\n", cmdline ++ str "\n"]

/-- A write at an offset; a gap before it is filled with zeros. -/
def writeAt (content : ByteString) (offset : Nat) (bytes : ByteString) : ByteString :=
  content.take offset ++ List.replicate (offset - content.length) 0 ++ bytes ++
    content.drop (offset + bytes.length)

/-! ### Processes -/

/-- Where a process is between two steps. -/
inductive Phase where
  | idle
  /-- It has read this number. -/
  | testing (pid : Int)
  | unlinking
  | creating
  /-- It has this file open, and is at this offset. -/
  | writing (file offset : Nat) (lines : List ByteString)
  | held
deriving DecidableEq

/-- The process has found the lock free, and is not done. -/
def Phase.Acquiring : Phase → Prop
  | .unlinking | .creating | .writing _ _ _ => True
  | .idle | .testing _ | .held => False

structure State where
  live : Pid → Bool
  phase : Pid → Phase
  /-- The file that the lock path names. -/
  path : Option Nat
  /-- The contents of all files, removed ones included. -/
  files : Nat → ByteString
  /-- No file has this number yet. -/
  fresh : Nat

namespace State

variable (s : State)

def setPhase (p : Pid) (phase : Phase) : State :=
  { s with phase := Function.update s.phase p phase }

def setFile (file : Nat) (content : ByteString) : State :=
  { s with files := Function.update s.files file content }

/-- The number in the lock file. -/
def recorded : Option Int := (s.path.map s.files).bind readLockFile

/-- `kill(pid, 0)`. -/
def isProcessRunning (pid : Int) : Bool :=
  if h : 0 < pid.toNat ∧ pid.toNat < 2 ^ 31 then s.live ⟨pid.toNat, h⟩ else false

/-- Open the lock file empty, a new one if there is none. -/
def openTrunc (p : Pid) (lines : List ByteString) : State :=
  match s.path with
  | some file => (s.setFile file []).setPhase p (.writing file 0 lines)
  | none =>
      ({ s with path := some s.fresh, fresh := s.fresh + 1 }.setFile s.fresh []).setPhase p
        (.writing s.fresh 0 lines)

/-- The next step of `acquire`. -/
def advance (p : Pid) (timestamp cmdline : ByteString) : State :=
  match s.phase p with
  | .idle =>
      match s.recorded with
      | some pid => s.setPhase p (.testing pid)
      | none => s.setPhase p .creating
  | .testing pid => s.setPhase p (if s.isProcessRunning pid then .idle else .unlinking)
  | .unlinking => { s with path := none }.setPhase p .creating
  | .creating => s.openTrunc p (lockLines p timestamp cmdline)
  | .writing file offset (line :: lines) =>
      (s.setFile file (writeAt (s.files file) offset line)).setPhase p
        (.writing file (offset + line.length) lines)
  | .writing _ _ [] => s.setPhase p .held
  | .held => s

end State

inductive Event where
  | start (p : Pid)
  | die (p : Pid)
  | acquire (p : Pid) (timestamp cmdline : ByteString)
  | release (p : Pid)

def step (s : State) : Event → State
  | .start p =>
      if s.live p then s else { s with live := Function.update s.live p true }.setPhase p .idle
  | .die p => { s with live := Function.update s.live p false }
  | .acquire p timestamp cmdline => if s.live p then s.advance p timestamp cmdline else s
  | .release p =>
      if s.live p ∧ s.phase p = .held then { s with path := none }.setPhase p .idle else s

/-- At most one live process holds the lock. -/
def Exclusive (s : State) : Prop :=
  ∀ p q, s.live p = true → s.live q = true → s.phase p = .held → s.phase q = .held → p = q

/-! ### The lock file is read back -/

theorem readInt_decimal {n : Nat} (small : n < 2 ^ 31) : readInt (decimal n) = some (n : Int) := by
  have noMinus := head_decimal_ne (show ¬ isdigit (chr '-') by decide) n
  have noPlus := head_decimal_ne (show ¬ isdigit (chr '+') by decide) n
  unfold readInt
  simp only [dropWhile_isspace_decimal, noMinus, noPlus, Bool.or_false, Bool.false_eq_true,
    if_false, takeWhile_isdigit_decimal, digitsValue_decimal, isEmpty_decimal, Bool.false_or,
    Bool.or_eq_true, decide_eq_true_eq]
  apply if_neg
  omega

/-- A lock file that is written in full records its process. -/
theorem readLockFile_lockLines (pid : Pid) (timestamp cmdline : ByteString) :
    readLockFile (lockLines pid timestamp cmdline).flatten = some (pid : Int) := by
  have clean : chr '\n' ∉ decimal pid := fun mem => absurd (isdigit_of_mem_decimal mem) (by decide)
  obtain ⟨second, pieces, lines⟩ : ∃ second pieces,
      getlines (chr '\n') (lockLines pid timestamp cmdline).flatten =
        decimal pid :: second :: pieces := by
    have newline : chr '\n' ∈ timestamp ++ str "\n" ++ (cmdline ++ str "\n") := by simp [str, chr]
    obtain ⟨second, rest, text, secondClean⟩ := List.eq_append_cons_of_mem newline
    have whole : (lockLines pid timestamp cmdline).flatten =
        unlines (chr '\n') [decimal pid, second] ++ rest := by
      calc (lockLines pid timestamp cmdline).flatten
          = decimal pid ++ (str "\n" ++ (timestamp ++ str "\n" ++ (cmdline ++ str "\n"))) := by
            simp [lockLines]
        _ = unlines (chr '\n') [decimal pid, second] ++ rest := by
            rw [text]
            simp [unlines, str, chr]
    refine ⟨second, getlines (chr '\n') rest, ?_⟩
    rw [whole, getlines_unlines]
    · rfl
    · simp [clean, secondClean]
  rw [readLockFile, lines]
  exact readInt_decimal pid.2.2

/-! ### What a step leaves alone -/

theorem advance_live (s : State) (p : Pid) (timestamp cmdline : ByteString) :
    (s.advance p timestamp cmdline).live = s.live := by
  unfold State.advance State.openTrunc
  split
  · split <;> rfl
  · rfl
  · rfl
  · split <;> rfl
  · rfl
  · rfl
  · rfl

theorem advance_phase {s : State} {p q : Pid} (other : q ≠ p) (timestamp cmdline : ByteString) :
    (s.advance p timestamp cmdline).phase q = s.phase q := by
  unfold State.advance State.openTrunc
  split
  · split <;> exact Function.update_of_ne other _ _
  · exact Function.update_of_ne other _ _
  · exact Function.update_of_ne other _ _
  · split <;> exact Function.update_of_ne other _ _
  · exact Function.update_of_ne other _ _
  · exact Function.update_of_ne other _ _
  · rfl

/-! ### Mutual exclusion -/

/-- The process has found the lock free, and has not given it up. -/
def Phase.Claims : Phase → Prop
  | .unlinking | .creating | .writing _ _ _ | .held => True
  | .idle | .testing _ => False

/-- The process finds no readable lock file, or that the recorded process is dead. -/
def State.FindsFree (s : State) (p : Pid) : Prop :=
  match s.phase p with
  | .idle => s.recorded = none
  | .testing pid => s.isProcessRunning pid = false
  | _ => False

/-- A process that finds the lock free is the only one: no other live process has found it free and
is not done, nor has it been done since the lock file was read. -/
def NoRace (s : State) : Event → Prop
  | .acquire p _ _ =>
      s.live p = true → s.FindsFree p → ∀ q, q ≠ p → s.live q = true →
        ¬ (s.phase q).Acquiring ∧ (s.phase p ≠ .idle → s.phase q ≠ .held)
  | _ => True

/-- What the lock file is while a process writes it or holds the lock. -/
def State.Fits (s : State) (p : Pid) : Prop :=
  match s.phase p with
  | .writing file offset lines =>
      s.path = some file ∧ offset = (s.files file).length ∧
        ∃ timestamp cmdline, s.files file ++ lines.flatten =
          (lockLines p timestamp cmdline).flatten
  | .held =>
      ∃ file timestamp cmdline, s.path = some file ∧
        s.files file = (lockLines p timestamp cmdline).flatten
  | _ => True

/-- A process with a claim is the only one, and the lock file is its own. -/
def Guarded (s : State) : Prop :=
  ∀ p, s.live p = true → (s.phase p).Claims →
    (∀ q, q ≠ p → s.live q = true → ¬ (s.phase q).Claims) ∧ s.Fits p

theorem Guarded.exclusive {s : State} (h : Guarded s) : Exclusive s := by
  intro p q liveP liveQ heldP heldQ
  by_contra different
  have claims : (s.phase p).Claims := by
    rw [heldP]
    trivial
  apply (h p liveP claims).1 q (Ne.symm different) liveQ
  rw [heldQ]
  trivial

theorem State.Fits.recorded {s : State} {p : Pid} (h : s.Fits p) (held : s.phase p = .held) :
    s.recorded = some (p : Int) := by
  unfold Fits at h
  rw [held] at h
  obtain ⟨file, timestamp, cmdline, path, content⟩ := h
  rw [State.recorded, path, Option.map_some, content]
  exact readLockFile_lockLines p timestamp cmdline

theorem State.Fits.congr {s s' : State} {p : Pid} (h : s.Fits p) (phase : s'.phase p = s.phase p)
    (path : s'.path = s.path) (files : s'.files = s.files) : s'.Fits p := by
  unfold Fits
  rw [phase, path, files]
  exact h

/-- A process without a claim leaves the lock file alone. -/
theorem advance_unclaimed {s : State} {p : Pid} (none : ¬ (s.phase p).Claims)
    (timestamp cmdline : ByteString) :
    (s.advance p timestamp cmdline).path = s.path ∧
      (s.advance p timestamp cmdline).files = s.files := by
  unfold State.advance
  cases phase : s.phase p with
  | idle => cases s.recorded <;> exact ⟨rfl, rfl⟩
  | testing pid => exact ⟨rfl, rfl⟩
  | _ => exact (none (by rw [phase]; trivial)).elim

/-- It gets one only where it finds the lock free. -/
theorem findsFree_of_claims {s : State} {p : Pid} (none : ¬ (s.phase p).Claims)
    {timestamp cmdline : ByteString} (h : ((s.advance p timestamp cmdline).phase p).Claims) :
    s.FindsFree p := by
  unfold State.advance at h
  unfold State.FindsFree
  cases phase : s.phase p with
  | idle =>
    rw [phase] at h
    cases recorded : s.recorded with
    | none => rfl
    | some pid =>
      rw [recorded] at h
      simp [State.setPhase, Phase.Claims] at h
  | testing pid =>
    rw [phase] at h
    cases running : s.isProcessRunning pid with
    | false => exact running
    | true => simp [State.setPhase, Phase.Claims, running] at h
  | _ => exact (none (by rw [phase]; trivial)).elim

/-- A write at the end of a file. -/
theorem writeAt_end (content bytes : ByteString) :
    writeAt content content.length bytes = content ++ bytes := by
  simp [writeAt]

/-- The lock file of a process with a claim is its own, step by step. -/
theorem advance_fits {s : State} {p : Pid} (fits : (s.phase p).Claims → s.Fits p)
    (timestamp cmdline : ByteString) : (s.advance p timestamp cmdline).Fits p := by
  unfold State.advance
  cases phase : s.phase p with
  | idle => cases s.recorded <;> simp [State.Fits, State.setPhase]
  | testing pid =>
    cases running : s.isProcessRunning pid <;> simp [State.Fits, State.setPhase, running]
  | unlinking => simp [State.Fits, State.setPhase]
  | creating =>
    unfold State.openTrunc
    cases path : s.path <;> simp [State.Fits, State.setPhase, State.setFile, path] <;>
      exact ⟨timestamp, cmdline, rfl⟩
  | writing file offset lines =>
    rw [phase] at fits
    have own := fits trivial
    unfold State.Fits at own
    rw [phase] at own
    obtain ⟨path, rfl, timestamp', cmdline', content⟩ := own
    cases lines with
    | nil =>
      rw [List.flatten_nil, List.append_nil] at content
      simp only [State.Fits, State.setPhase, Function.update_self]
      exact ⟨file, timestamp', cmdline', path, content⟩
    | cons line lines =>
      simp only [State.Fits, State.setPhase, State.setFile, Function.update_self, writeAt_end]
      refine ⟨path, by rw [List.length_append], timestamp', cmdline', ?_⟩
      rw [List.append_assoc, ← List.flatten_cons, content]
  | held => exact fits (by rw [phase]; trivial)

/-- Where no race is, a process that finds the lock free is alone. -/
theorem Guarded.alone {s : State} (h : Guarded s) {p : Pid} {timestamp cmdline : ByteString}
    (noRace : NoRace s (.acquire p timestamp cmdline)) (live : s.live p = true)
    (free : s.FindsFree p) {q : Pid} (other : q ≠ p) (liveQ : s.live q = true) :
    ¬ (s.phase q).Claims := by
  intro claims
  obtain ⟨notAcquiring, notHeld⟩ := noRace live free q other liveQ
  have held : s.phase q = .held := by
    cases phase : s.phase q with
    | held => rfl
    | idle => exact (phase ▸ claims).elim
    | testing pid => exact (phase ▸ claims).elim
    | _ => exact (notAcquiring (by rw [phase]; trivial)).elim
  have recorded := (h q liveQ claims).2.recorded held
  unfold State.FindsFree at free
  cases phase : s.phase p with
  | idle =>
    rw [phase] at free
    exact absurd (recorded.symm.trans free) (by simp)
  | testing pid => exact notHeld (by rw [phase]; nofun) held
  | _ => rw [phase] at free; exact free

theorem Guarded.acquire {s : State} (h : Guarded s) {p : Pid} {timestamp cmdline : ByteString}
    (noRace : NoRace s (.acquire p timestamp cmdline)) (live : s.live p = true) :
    Guarded (s.advance p timestamp cmdline) := by
  have same {q : Pid} (other : q ≠ p) : (s.advance p timestamp cmdline).phase q = s.phase q :=
    advance_phase other timestamp cmdline
  intro r liveR claimsR
  rw [advance_live] at liveR ⊢
  by_cases self : r = p
  · subst self
    constructor
    · intro q other liveQ
      rw [same other]
      by_cases claims : (s.phase r).Claims
      · exact (h r live claims).1 q other liveQ
      · exact h.alone noRace live (findsFree_of_claims claims claimsR) other liveQ
    · exact advance_fits (fun claims => (h r live claims).2) timestamp cmdline
  · rw [same self] at claimsR
    obtain ⟨only, fits⟩ := h r liveR claimsR
    have none := only p (Ne.symm self) live
    obtain ⟨path, files⟩ := advance_unclaimed none timestamp cmdline
    refine ⟨fun q other liveQ => ?_, fits.congr (same self) path files⟩
    by_cases isP : q = p
    · rw [isP]
      intro claims
      exact h.alone noRace live (findsFree_of_claims none claims) self liveR claimsR
    · rw [same isP]
      exact only q other liveQ

/-- **What one step keeps.** -/
theorem Guarded.step {s : State} (h : Guarded s) {event : Event} (noRace : NoRace s event) :
    Guarded (Lock.step s event) := by
  cases event with
  | start p =>
    rw [Lock.step]
    split
    · exact h
    · intro r liveR claimsR
      by_cases self : r = p
      · rw [self] at claimsR
        simp [State.setPhase, Phase.Claims] at claimsR
      · have before : ∀ q, q ≠ p → Function.update s.live p true q = s.live q :=
          fun q other => Function.update_of_ne other _ _
        have phases : ∀ q, q ≠ p → Function.update s.phase p .idle q = s.phase q :=
          fun q other => Function.update_of_ne other _ _
        change Function.update s.live p true r = true at liveR
        change (Function.update s.phase p .idle r).Claims at claimsR
        rw [before r self] at liveR
        rw [phases r self] at claimsR
        obtain ⟨only, fits⟩ := h r liveR claimsR
        refine ⟨fun q other liveQ => ?_, fits.congr (phases r self) rfl rfl⟩
        change ¬ (Function.update s.phase p .idle q).Claims
        by_cases isP : q = p
        · rw [isP, Function.update_self]
          exact id
        · change Function.update s.live p true q = true at liveQ
          rw [before q isP] at liveQ
          rw [phases q isP]
          exact only q other liveQ
  | die p =>
    have earlier {q : Pid} (live : Function.update s.live p false q = true) : s.live q = true := by
      by_cases isP : q = p
      · rw [isP, Function.update_self] at live
        cases live
      · rwa [Function.update_of_ne isP] at live
    intro r liveR claimsR
    obtain ⟨only, fits⟩ := h r (earlier liveR) claimsR
    exact ⟨fun q other liveQ => only q other (earlier liveQ), fits.congr rfl rfl rfl⟩
  | acquire p timestamp cmdline =>
    rw [Lock.step]
    split
    · rename_i live
      exact h.acquire noRace live
    · exact h
  | release p =>
    rw [Lock.step]
    split
    · rename_i holds
      obtain ⟨live, held⟩ := holds
      have only := (h p live (by rw [held]; trivial)).1
      intro r liveR claimsR
      change (Function.update s.phase p .idle r).Claims at claimsR
      by_cases self : r = p
      · rw [self, Function.update_self] at claimsR
        exact claimsR.elim
      · rw [Function.update_of_ne self] at claimsR
        exact (only r self liveR claimsR).elim
    · exact h

/-! ### A process on its own -/

section Alone

variable {p : Pid} {timestamp cmdline : ByteString}

/-- The state after some steps of the process. -/
def State.advances (s : State) (p : Pid) (timestamp cmdline : ByteString) (n : Nat) : State :=
  run step s (List.replicate n (.acquire p timestamp cmdline))

theorem advances_succ {s : State} (live : s.live p = true) (n : Nat) :
    s.advances p timestamp cmdline (n + 1) =
      (s.advance p timestamp cmdline).advances p timestamp cmdline n := by
  rw [State.advances, List.replicate_succ, run, List.foldl_cons, step, if_pos live]
  rfl

/-- It leaves the others alone. -/
theorem advances_frame {s : State} (live : s.live p = true) (n : Nat) :
    (s.advances p timestamp cmdline n).live = s.live ∧
      ∀ q, q ≠ p → (s.advances p timestamp cmdline n).phase q = s.phase q := by
  induction n generalizing s with
  | zero => exact ⟨rfl, fun _ _ => rfl⟩
  | succ n ih =>
    have kept := advance_live s p timestamp cmdline
    obtain ⟨lives, phases⟩ := ih (by rw [kept]; exact live)
    rw [advances_succ live]
    refine ⟨lives.trans kept, fun q other => ?_⟩
    rw [phases q other, advance_phase other]

/-- One more step may come first. -/
theorem exists_held_of_advance {s : State} (live : s.live p = true)
    (h : ∃ n, ((s.advance p timestamp cmdline).advances p timestamp cmdline n).phase p = .held) :
    ∃ n, (s.advances p timestamp cmdline n).phase p = .held := by
  obtain ⟨n, held⟩ := h
  exact ⟨n + 1, by rw [advances_succ live, held]⟩

theorem exists_held_of_writing (lines : List ByteString) {s : State} (live : s.live p = true)
    (h : ∃ file offset, s.phase p = .writing file offset lines) :
    ∃ n, (s.advances p timestamp cmdline n).phase p = .held := by
  induction lines generalizing s with
  | nil =>
    obtain ⟨file, offset, phase⟩ := h
    apply exists_held_of_advance live
    exact ⟨0, by simp [State.advances, run, State.advance, phase, State.setPhase]⟩
  | cons line lines ih =>
    obtain ⟨file, offset, phase⟩ := h
    apply exists_held_of_advance live
    apply ih
    · rw [advance_live]
      exact live
    · refine ⟨file, offset + line.length, ?_⟩
      simp only [State.advance, phase, State.setPhase, Function.update_self]

/-- The process that creates the lock file has it open. -/
theorem advance_creating {s : State} (phase : s.phase p = .creating) :
    ∃ file offset, (s.advance p timestamp cmdline).phase p =
      .writing file offset (lockLines p timestamp cmdline) := by
  cases path : s.path with
  | some file =>
    exact ⟨file, 0, by simp [State.advance, phase, State.openTrunc, path, State.setPhase]⟩
  | none =>
    exact ⟨s.fresh, 0, by simp [State.advance, phase, State.openTrunc, path, State.setPhase]⟩

/-- A process that has found the lock free comes to hold it. -/
theorem exists_held {s : State} (live : s.live p = true)
    (h : (s.phase p).Acquiring ∨ s.phase p = .held) :
    ∃ n, (s.advances p timestamp cmdline n).phase p = .held := by
  have creating {s : State} (live : s.live p = true) (phase : s.phase p = .creating) :
      ∃ n, (s.advances p timestamp cmdline n).phase p = .held := by
    apply exists_held_of_advance live
    have lives : (s.advance p timestamp cmdline).live p = true := by
      rw [advance_live]
      exact live
    exact exists_held_of_writing _ lives (advance_creating phase)
  cases phase : s.phase p with
  | idle => simp [phase, Phase.Acquiring] at h
  | testing pid => simp [phase, Phase.Acquiring] at h
  | unlinking =>
    apply exists_held_of_advance live
    apply creating
    · rw [advance_live]
      exact live
    · simp [State.advance, phase, State.setPhase]
  | creating => exact creating live phase
  | writing file offset lines => exact exists_held_of_writing lines live ⟨file, offset, phase⟩
  | held => exact ⟨0, phase⟩

/-- A process that finds the lock free is on its way to it. -/
theorem acquiring_of_findsFree {s : State} (h : s.FindsFree p) :
    ((s.advance p timestamp cmdline).phase p).Acquiring := by
  unfold State.FindsFree at h
  cases phase : s.phase p with
  | idle =>
    rw [phase] at h
    simp [State.advance, phase, show s.recorded = none from h, State.setPhase, Phase.Acquiring]
  | testing pid =>
    rw [phase] at h
    simp [State.advance, phase, show s.isProcessRunning pid = false from h, State.setPhase,
      Phase.Acquiring]
  | _ => simp [phase] at h

/-- A process that reads the number of a running one gives up, again and again. -/
theorem advances_blocked {s : State} {pid : Int} (live : s.live p = true)
    (recorded : s.recorded = some pid) (running : s.isProcessRunning pid = true)
    (h : s.phase p = .idle ∨ s.phase p = .testing pid) (n : Nat) :
    (s.advances p timestamp cmdline n).phase p ≠ .held := by
  induction n generalizing s with
  | zero =>
    show s.phase p ≠ .held
    rcases h with h | h <;> rw [h] <;> nofun
  | succ n ih =>
    have kept := advance_live s p timestamp cmdline
    have none : ¬ (s.phase p).Claims := by
      rcases h with h | h <;> rw [h] <;> exact id
    obtain ⟨path, files⟩ := advance_unclaimed none timestamp cmdline
    rw [advances_succ live]
    apply ih
    · rw [kept]
      exact live
    · rw [State.recorded, path, files]
      exact recorded
    · rw [State.isProcessRunning, kept]
      exact running
    · rcases h with h | h
      · exact .inr (by simp [State.advance, h, recorded, State.setPhase])
      · exact .inl (by simp [State.advance, h, running, State.setPhase])

/-- **What blocks a process**: the number of a running one in the lock file. -/
theorem exists_held_iff {s : State} (live : s.live p = true) (idle : s.phase p = .idle) :
    (∃ n, (s.advances p timestamp cmdline n).phase p = .held) ↔
      ∀ pid, s.recorded = some pid → s.isProcessRunning pid = false := by
  have free {s : State} (live : s.live p = true) (free : s.FindsFree p) :
      ∃ n, (s.advances p timestamp cmdline n).phase p = .held := by
    apply exists_held_of_advance live
    apply exists_held
    · rw [advance_live]
      exact live
    · exact .inl (acquiring_of_findsFree free)
  constructor
  · rintro ⟨n, held⟩ pid recorded
    rw [Bool.eq_false_iff]
    intro running
    exact advances_blocked live recorded running (.inl idle) n held
  · intro stale
    cases recorded : s.recorded with
    | none =>
      apply free live
      rw [State.FindsFree, idle]
      exact recorded
    | some pid =>
      have reads : s.advance p timestamp cmdline = s.setPhase p (.testing pid) := by
        simp [State.advance, idle, recorded]
      apply exists_held_of_advance live
      rw [reads]
      apply free
      · exact live
      · have phase : (s.setPhase p (.testing pid)).phase p = .testing pid :=
          Function.update_self p _ s.phase
        rw [State.FindsFree, phase]
        exact stale pid recorded

end Alone

/-! ### The lock -/

/-- **At most one live process holds the lock** in every run without a race, and a race can always
be followed by two holders. A process that is left alone gets the lock just when the lock file does
not have the number of a running process. -/
theorem lock_exclusive (s : State) :
    (∀ events : List Event, (∀ p, s.phase p = .idle) →
      EachStep step NoRace s events → Always step Exclusive s events) ∧
    (∀ event : Event, ¬ NoRace s event →
      ∃ more, ¬ Exclusive (run step (step s event) more)) ∧
    ∀ (p : Pid) (timestamp cmdline : ByteString), s.live p = true →
      s.phase p = .idle →
        ((∃ n, (s.advances p timestamp cmdline n).phase p = .held) ↔
          ∀ pid, s.recorded = some pid → s.isProcessRunning pid = false) := by
  refine ⟨fun events idle noRace => ?_, fun event race => ?_, fun p _ _ => exists_held_iff⟩
  · have start : Guarded s := by
      intro p _ claims
      rw [idle p] at claims
      exact claims.elim
    have always := always_of_eachStep (fun s event h noRace => h.step noRace) start noRace
    exact always.mono fun _ h => h.exclusive
  · cases event with
    | acquire p timestamp cmdline =>
      unfold NoRace at race
      push Not at race
      obtain ⟨live, free, q, other, liveQ, ahead⟩ := race
      have first : step s (.acquire p timestamp cmdline) = s.advance p timestamp cmdline :=
        if_pos live
      rw [first]
      have lives := advance_live s p timestamp cmdline
      have aheadQ : (s.phase q).Acquiring ∨ s.phase q = .held := by
        by_cases acquiring : (s.phase q).Acquiring
        · exact .inl acquiring
        · exact .inr (ahead acquiring).2
      -- Both go on, one after the other.
      have livesP : (s.advance p timestamp cmdline).live p = true := by
        rw [lives]
        exact live
      obtain ⟨n, heldP⟩ : ∃ n,
          ((s.advance p timestamp cmdline).advances p timestamp cmdline n).phase p = .held :=
        exists_held livesP (.inl (acquiring_of_findsFree free))
      let s₁ := (s.advance p timestamp cmdline).advances p timestamp cmdline n
      obtain ⟨lives₁, phases₁⟩ : s₁.live = _ ∧ ∀ r, r ≠ p → s₁.phase r = _ :=
        advances_frame livesP n
      have liveQ₁ : s₁.live q = true := by
        rw [lives₁, lives]
        exact liveQ
      have phaseQ : s₁.phase q = s.phase q := by
        rw [phases₁ q other, advance_phase other]
      obtain ⟨m, heldQ⟩ : ∃ m, (s₁.advances q timestamp cmdline m).phase q = .held :=
        exists_held liveQ₁ (by rw [phaseQ]; exact aheadQ)
      obtain ⟨lives₂, phases₂⟩ : (s₁.advances q timestamp cmdline m).live = _ ∧
          ∀ r, r ≠ q → (s₁.advances q timestamp cmdline m).phase r = _ := advances_frame liveQ₁ m
      refine ⟨List.replicate n (.acquire p timestamp cmdline) ++
        List.replicate m (.acquire q timestamp cmdline), fun exclusive => other.symm ?_⟩
      rw [run, List.foldl_append] at exclusive
      apply exclusive p q
      · exact (congrFun lives₂ p).trans (by rw [lives₁]; exact livesP)
      · exact (congrFun lives₂ q).trans liveQ₁
      · exact (phases₂ p other.symm).trans heldP
      · exact heldQ
    | _ => exact (race trivial).elim

/-- A process on its own makes no race. -/
theorem eachStep_alone {p : Pid} {timestamp cmdline : ByteString} (n : Nat) {s : State}
    (others : ∀ q, q ≠ p → s.phase q = .idle) :
    EachStep step NoRace s (List.replicate n (.acquire p timestamp cmdline)) := by
  induction n generalizing s with
  | zero => trivial
  | succ n ih =>
    constructor
    · intro _ _ q other _
      rw [others q other]
      exact ⟨id, fun _ => nofun⟩
    · apply ih
      intro q other
      rw [step]
      split
      · rw [advance_phase other]
        exact others q other
      · exact others q other

/-- Two processes and no lock file. -/
def twoProcesses : State where
  live p := p == ⟨1, by decide⟩ || p == ⟨2, by decide⟩
  phase _ := .idle
  path := none
  files _ := []
  fresh := 0

/-- Some steps of `acquire`. -/
def acquires (n : Nat) (p : Pid) : List Event :=
  List.replicate n (.acquire p (str "1700000000") (str "apmd"))

/-- One process on its own, and a second one that reads before the first creates the lock file. -/
theorem lock_exclusive_two :
    Always step Exclusive twoProcesses (acquires 6 ⟨1, by decide⟩) ∧
      (∃ more, ¬ Exclusive (run step (step (run step twoProcesses (acquires 1 ⟨1, by decide⟩))
        (.acquire ⟨2, by decide⟩ [] [])) more)) ∧
      ∃ n, (twoProcesses.advances ⟨1, by decide⟩ [] [] n).phase ⟨1, by decide⟩ = .held := by
  obtain ⟨exclusive, -, alone⟩ := lock_exclusive twoProcesses
  refine ⟨exclusive _ (fun _ => rfl) (eachStep_alone 6 fun _ _ => rfl),
    (lock_exclusive _).2.1 _ ?_, ?_⟩
  · intro noRace
    have first := noRace (by decide) rfl ⟨1, by decide⟩ (by decide) (by decide)
    exact first.1 trivial
  · exact (alone ⟨1, by decide⟩ [] [] (by decide) rfl).mpr nofun

/-- **Both read before one of them creates the lock file**, and both hold the lock. -/
theorem both_hold :
    ¬ Exclusive (run step twoProcesses (acquires 1 ⟨1, by decide⟩ ++ acquires 6 ⟨2, by decide⟩ ++
      acquires 5 ⟨1, by decide⟩)) := by
  intro exclusive
  have same := exclusive ⟨1, by decide⟩ ⟨2, by decide⟩ (by decide) (by decide) (by decide)
    (by decide)
  exact absurd (congrArg Subtype.val same) (by decide)

end Apm.Lock
