import Apm.Lib.Run
import Mathlib.Logic.Function.Basic

/-!
A cache that is checked by a print of the files it was loaded from.

A call takes the print of the files, compares it with the one in the cache under a lock, and on a
difference loads the files and takes their print again, still under the lock. Programs are made
of single actions (`Task`), so that the files may change between any two of them. A call is
undisturbed if no change has come since it began.

A call that is undisturbed returns what the files give (`always_current`), as long as no change
comes while the lock is held, no change leads back to a print that the cache has for something
else, and loading leaves files that give the same again.
-/

namespace Apm.Lib

/-! ### Programs of single actions -/

/-- A program over files. An action sees the files, and leaves others. -/
inductive Task (F α : Type) where
  | done (a : α)
  | act (write : F → F) (next : F → Task F α)

namespace Task

variable {F α β : Type}

/-- The result and the files of a run that nothing comes between. -/
def quiet : Task F α → F → α × F
  | done a, f => (a, f)
  | act write next, f => (next f).quiet (write f)

def bind : Task F α → (α → Task F β) → Task F β
  | done a, k => k a
  | act write next, k => act write fun f => (next f).bind k

instance : Monad (Task F) where
  pure := done
  bind := bind

/-- Look at the files. -/
def look (view : F → α) : Task F α := act id fun f => done (view f)

/-- Change the files. -/
def perform (op : F → α × F) : Task F α := act (fun f => (op f).2) fun f => done (op f).1

/-- The program leaves the files alone. -/
def ReadsOnly : Task F α → Prop
  | done _ => True
  | act write next => (∀ f, write f = f) ∧ ∀ f, (next f).ReadsOnly

theorem readsOnly_pure (a : α) : (pure a : Task F α).ReadsOnly := trivial

theorem readsOnly_look (view : F → α) : (look view).ReadsOnly := ⟨fun _ => rfl, fun _ => trivial⟩

theorem ReadsOnly.bind {t : Task F α} {k : α → Task F β} (first : t.ReadsOnly)
    (later : ∀ a, (k a).ReadsOnly) : (t >>= k).ReadsOnly := by
  induction t with
  | done a => exact later a
  | act write next ih => exact ⟨first.1, fun f => ih f (first.2 f)⟩

theorem ReadsOnly.quiet_snd {t : Task F α} (h : t.ReadsOnly) (f : F) : (t.quiet f).2 = f := by
  induction t with
  | done a => rfl
  | act write next ih =>
    rw [quiet, h.1]
    exact ih f (h.2 f)

theorem quiet_bind (t : Task F α) (k : α → Task F β) (f : F) :
    (t >>= k).quiet f = (k (t.quiet f).1).quiet (t.quiet f).2 := by
  induction t generalizing f with
  | done a => rfl
  | act write next ih => exact ih f (write f)

/-- Each turn of a loop leaves the files alone. -/
theorem quiet_foldlM_snd (step : α → β → Task F α) {l : List β} {f : F}
    (still : ∀ a, ∀ b ∈ l, ((step a b).quiet f).2 = f) (a : α) :
    ((l.foldlM step a).quiet f).2 = f := by
  induction l generalizing a with
  | nil => rfl
  | cons b l ih =>
    have first := still a b List.mem_cons_self
    rw [List.foldlM_cons, quiet_bind, first]
    exact ih (fun a b mem => still a b (List.mem_cons_of_mem _ mem)) _

end Task

/-- How to take the print of the files, and how to load them. -/
structure Checked (F P V E : Type) where
  print : Task F P
  load : Task F (Except E V)
  reads : print.ReadsOnly

namespace Checked

variable {F P V E ι : Type} (c : Checked F P V E)

def printOf (f : F) : P := (c.print.quiet f).1

/-- What the files give. -/
def valueOf (f : F) : Except E V := (c.load.quiet f).1

/-- Files that were loaded give the same again. -/
def Settles (f : F) : Prop := c.valueOf (c.load.quiet f).2 = c.valueOf f

/-- Files that loading leaves alone give the same again. -/
theorem settles_of_still {f : F} (still : (c.load.quiet f).2 = f) : c.Settles f := by
  rw [Settles, still]

/-! ### Calls -/

/-- How far a call is. -/
inductive Phase (F P V E : Type) where
  | idle
  | printing (t : Task F P)
  /-- The print is taken; the lock comes next. -/
  | waiting (p : P)
  | loading (t : Task F (Except E V))
  | reprinting (v : V) (t : Task F P)
  /-- The call has returned, when the files were these. -/
  | returned (r : Except E V) (f : F)

/-- The call has the lock. -/
def Phase.holds : Phase F P V E → Bool
  | loading _ | reprinting _ _ => true
  | _ => false

structure System (F P V E ι : Type) where
  files : F
  cache : Option (P × V)
  /-- The call that has the lock. -/
  holder : Option ι
  phase : ι → Phase F P V E
  /-- No change has come since the call began. -/
  undisturbed : ι → Bool

inductive Event (F ι : Type) where
  /-- The files are changed from outside. -/
  | change (f : F)
  /-- The cache is emptied, if the lock is free. -/
  | invalidate
  | begin (i : ι)
  /-- One action of a call. -/
  | tick (i : ι)

/-- The cache is empty at first. -/
def start (f : F) : System F P V E ι where
  files := f
  cache := none
  holder := none
  phase _ := .idle
  undisturbed _ := false

def System.set [DecidableEq ι] (s : System F P V E ι) (i : ι) (phase : Phase F P V E) :
    System F P V E ι :=
  { s with phase := Function.update s.phase i phase }

/-- The next action of a call. A call that waits for the lock does nothing while it is held. -/
def tick [DecidableEq ι] [DecidableEq P] (s : System F P V E ι) (i : ι) : System F P V E ι :=
  match s.phase i with
  | .idle => s
  | .printing (.done p) => s.set i (.waiting p)
  | .printing (.act write next) =>
      { s.set i (.printing (next s.files)) with files := write s.files }
  | .waiting p =>
      if s.holder.isSome then s
      else
        match s.cache with
        | some (q, v) =>
            if q = p then s.set i (.returned (.ok v) s.files)
            else { s.set i (.loading c.load) with holder := some i }
        | none => { s.set i (.loading c.load) with holder := some i }
  | .loading (.done (.error e)) =>
      { s.set i (.returned (.error e) s.files) with cache := none, holder := none }
  | .loading (.done (.ok v)) => s.set i (.reprinting v c.print)
  | .loading (.act write next) =>
      { s.set i (.loading (next s.files)) with files := write s.files }
  | .reprinting v (.done p) =>
      { s.set i (.returned (.ok v) s.files) with cache := some (p, v), holder := none }
  | .reprinting v (.act write next) =>
      { s.set i (.reprinting v (next s.files)) with files := write s.files }
  | .returned _ _ => s

def step [DecidableEq ι] [DecidableEq P] (s : System F P V E ι) : Event F ι → System F P V E ι
  | .change f => { s with files := f, undisturbed := fun _ => false }
  | .invalidate => if s.holder.isSome then s else { s with cache := none }
  | .begin i =>
      match s.phase i with
      | .idle | .returned _ _ =>
          { s.set i (.printing c.print) with
            undisturbed := Function.update s.undisturbed i true }
      | _ => s
  | .tick i => c.tick s i

/-- **Calls return what the files give**, if they are undisturbed. -/
def Current (s : System F P V E ι) : Prop :=
  ∀ i r f, s.phase i = .returned r f → s.undisturbed i = true → r = c.valueOf f

/-- What the cache has is what the files give. -/
def Right (s : System F P V E ι) (f : F) : Prop :=
  match s.cache with
  | some (_, v) => c.valueOf f = .ok v
  | none => True

/-- The files give what the cache has, if it has their print. -/
def Trusted (s : System F P V E ι) (f : F) : Prop :=
  match s.cache with
  | some (p, v) => c.printOf f = p → c.valueOf f = .ok v
  | none => True

/-- The call takes the lock and does not find its print in the cache. -/
def System.Misses (s : System F P V E ι) (i : ι) : Prop :=
  match s.phase i with
  | .waiting p => s.holder.isSome = false ∧ s.cache.map (·.1) ≠ some p
  | _ => False

/-- The steps that keep calls current: a change comes while the lock is free and does not lead to
a print that the cache has for something else, and files that are loaded give the same again. -/
def Safe (s : System F P V E ι) : Event F ι → Prop
  | .change f => s.holder.isSome = false ∧ c.Trusted s f
  | .tick i => s.Misses i → c.Settles s.files
  | _ => True

/-- What a call has returned, and the files then. -/
def Phase.result : Phase F P V E → Option (Except E V × F)
  | returned r f => some (r, f)
  | _ => none

section Decidable

variable [DecidableEq P] [DecidableEq V] [DecidableEq E]

instance (f : F) : Decidable (c.Settles f) := inferInstanceAs (Decidable (_ = _))

instance (s : System F P V E ι) (f : F) : Decidable (c.Trusted s f) :=
  match cached : s.cache with
  | some (p, v) =>
      decidable_of_iff (c.printOf f = p → c.valueOf f = .ok v) (by rw [Trusted, cached])
  | none => .isTrue (by rw [Trusted, cached]; trivial)

instance (s : System F P V E ι) (i : ι) : Decidable (s.Misses i) :=
  match phase : s.phase i with
  | .waiting p =>
      decidable_of_iff (s.holder.isSome = false ∧ s.cache.map (·.1) ≠ some p)
        (by rw [System.Misses, phase])
  | .idle | .printing _ | .loading _ | .reprinting _ _ | .returned _ _ =>
      .isFalse (by rw [System.Misses, phase]; exact id)

instance (s : System F P V E ι) : ∀ event, Decidable (c.Safe s event)
  | .change f => inferInstanceAs (Decidable (s.holder.isSome = false ∧ c.Trusted s f))
  | .tick i => inferInstanceAs (Decidable (s.Misses i → c.Settles s.files))
  | .invalidate | .begin _ => .isTrue trivial

end Decidable

/-! ### The invariant -/

/-- What is known of a call that is so far. -/
def Fits (s : System F P V E ι) (undisturbed : Bool) : Phase F P V E → Prop
  | .idle => True
  | .printing t => t.ReadsOnly ∧ (s.holder = none → undisturbed = true →
      c.Right s s.files ∨ (t.quiet s.files).1 = c.printOf s.files)
  | .waiting p => s.holder = none → undisturbed = true →
      c.Right s s.files ∨ p = c.printOf s.files
  | .loading t => c.valueOf (t.quiet s.files).2 = (t.quiet s.files).1
  | .reprinting v t =>
      t.ReadsOnly ∧ (t.quiet s.files).1 = c.printOf s.files ∧ c.valueOf s.files = .ok v
  | .returned r f => undisturbed = true → r = c.valueOf f

structure Inv (s : System F P V E ι) : Prop where
  lock : ∀ i, (s.phase i).holds = true ↔ s.holder = some i
  trusted : s.holder = none → c.Trusted s s.files
  fits : ∀ i, c.Fits s (s.undisturbed i) (s.phase i)

variable {c} {s s' : System F P V E ι} {i : ι}

theorem inv_start (f : F) : c.Inv (start f : System F P V E ι) :=
  ⟨fun _ => ⟨nofun, nofun⟩, fun _ => trivial, fun _ => trivial⟩

theorem phase_of_result {r : Except E V} {f : F} (h : (s.phase i).result = some (r, f)) :
    s.phase i = .returned r f := by
  cases phase : s.phase i with
  | returned r' f' =>
    rw [phase] at h
    cases h
    rfl
  | idle | printing _ | waiting _ | loading _ | reprinting _ _ =>
    rw [phase] at h
    cases h

theorem Inv.current (inv : c.Inv s) : c.Current s := by
  intro i r f phase undisturbed
  have fits := inv.fits i
  rw [phase] at fits
  exact fits undisturbed

theorem Right.trusted {f : F} (h : c.Right s f) : c.Trusted s f := by
  unfold Right at h
  unfold Trusted
  split
  · rename_i cached
    rw [cached] at h
    exact fun _ => h
  · trivial

/-- Without the lock, a call does not mind what the one with the lock does, if the cache is right
in the end. -/
theorem Fits.kept {undisturbed : Bool} {phase : Phase F P V E}
    (h : c.Fits s undisturbed phase) (waits : phase.holds = false)
    (right : s'.holder = none → c.Right s' s'.files) : c.Fits s' undisturbed phase := by
  cases phase with
  | idle => trivial
  | printing t => exact ⟨h.1, fun free _ => .inl (right free)⟩
  | waiting p => exact fun free _ => .inl (right free)
  | loading t => cases waits
  | reprinting v t => cases waits
  | returned r f => exact h

theorem Inv.waits (inv : c.Inv s) (free : s.holder = none) (j : ι) :
    (s.phase j).holds = false := by
  by_contra holds
  rw [(inv.lock j).mp (by simpa using holds)] at free
  cases free

variable [DecidableEq ι]

theorem System.set_phase (phase : Phase F P V E) (j : ι) :
    (s.set i phase).phase j = if j = i then phase else s.phase j :=
  Function.update_apply s.phase i phase j

@[simp] theorem System.set_self (phase : Phase F P V E) : (s.set i phase).phase i = phase := by
  rw [System.set_phase, if_pos rfl]

/-- A call goes on by itself: the files, the cache and the lock stay. -/
theorem Inv.set (inv : c.Inv s) {phase : Phase F P V E}
    (holds : phase.holds = (s.phase i).holds)
    (fits : c.Fits s (s.undisturbed i) phase) : c.Inv (s.set i phase) := by
  refine ⟨fun j => ?_, inv.trusted, fun j => ?_⟩
  · rw [System.set_phase]
    split
    · rename_i same
      rw [holds, same]
      exact inv.lock i
    · exact inv.lock j
  · rw [System.set_phase]
    split
    · rename_i same
      exact same ▸ fits
    · exact inv.fits j

/-- The call with the lock goes on: it changes the files, or sets the cache right and gives the
lock back. -/
theorem Inv.set_holder (inv : c.Inv s) {phase : Phase F P V E} (held : s.holder = some i)
    (phases : s'.phase = Function.update s.phase i phase)
    (same : s'.undisturbed = s.undisturbed)
    (holder : s'.holder = if phase.holds then some i else none)
    (right : s'.holder = none → c.Right s' s'.files)
    (fits : c.Fits s' (s.undisturbed i) phase) : c.Inv s' := by
  have others : ∀ j, j ≠ i → (s.phase j).holds = false := by
    intro j differs
    by_contra holds
    have holder := (inv.lock j).mp (by simpa using holds)
    rw [held] at holder
    exact differs (Option.some.inj holder).symm
  refine ⟨fun j => ?_, fun free => (right free).trusted, fun j => ?_⟩
  · rw [phases, Function.update_apply, holder]
    split
    · rename_i equal
      rw [equal]
      cases phase.holds <;> simp
    · rename_i differs
      rw [others j differs]
      cases phase.holds <;> simp [Ne.symm differs]
  · rw [phases, Function.update_apply, same]
    split
    · rename_i equal
      exact equal ▸ fits
    · rename_i differs
      exact (inv.fits j).kept (others j differs) right

/-- The call takes the lock, and loads. -/
theorem Inv.take (inv : c.Inv s) (free : s.holder = none) (settles : c.Settles s.files) :
    c.Inv { s.set i (.loading c.load) with holder := some i } := by
  refine ⟨fun j => ?_, fun held => (nomatch held), fun j => ?_⟩
  · change ((s.set i _).phase j).holds = true ↔ some i = some j
    rw [System.set_phase]
    split
    · rename_i equal
      exact ⟨fun _ => congrArg some equal.symm, fun _ => rfl⟩
    · rename_i differs
      rw [inv.waits free j]
      simp [Ne.symm differs]
  · change c.Fits _ (s.undisturbed j) ((s.set i _).phase j)
    rw [System.set_phase]
    split
    · exact settles
    · exact (inv.fits j).kept (inv.waits free j) fun held => nomatch held

variable [DecidableEq P]

/-- **One action of a call** keeps the invariant. -/
theorem Inv.tick (inv : c.Inv s) (settles : s.Misses i → c.Settles s.files) :
    c.Inv (c.tick s i) := by
  have fits := inv.fits i
  have lock := (inv.lock i).mp
  cases phase : s.phase i with
  | idle =>
    rw [Checked.tick, phase]
    exact inv
  | returned r f =>
    rw [Checked.tick, phase]
    exact inv
  | printing t =>
    rw [phase] at fits
    cases t with
    | done p =>
      rw [Checked.tick, phase]
      exact inv.set (by rw [phase]; rfl) fits.2
    | act write next =>
      rw [Checked.tick, phase]
      obtain ⟨⟨same, reads⟩, print⟩ := fits
      rw [Task.quiet, same] at print
      dsimp only
      rw [same]
      exact inv.set (by rw [phase]; rfl) ⟨reads s.files, print⟩
  | waiting p =>
    rw [phase] at fits
    rw [Checked.tick, phase]
    dsimp only
    split
    · exact inv
    rename_i free
    have free' : s.holder = none := by simpa using free
    have misses : s.cache.map (·.1) ≠ some p →
        c.Inv { s.set i (.loading c.load) with holder := some i } := by
      intro miss
      refine inv.take free' (settles ?_)
      rw [System.Misses, phase]
      exact ⟨by simpa using free, miss⟩
    cases cached : s.cache with
    | none =>
      apply misses
      rw [cached]
      exact nofun
    | some entry =>
      obtain ⟨q, v⟩ := entry
      dsimp only
      by_cases hit : q = p
      · rw [if_pos hit]
        refine inv.set (by rw [phase]; rfl) fun undisturbed => ?_
        have trusted := inv.trusted free'
        rcases fits free' undisturbed with right | print
        · rw [Right, cached] at right
          exact right.symm
        · rw [Trusted, cached] at trusted
          exact (trusted (print.symm.trans hit.symm)).symm
      · rw [if_neg hit]
        apply misses
        rw [cached]
        exact fun same => hit (Option.some.inj same)
  | loading t =>
    rw [phase] at fits lock
    have held := lock rfl
    cases t with
    | done r =>
      cases r with
      | error e =>
        rw [Checked.tick, phase]
        exact inv.set_holder held rfl rfl rfl (fun _ => trivial) fun _ => fits.symm
      | ok v =>
        rw [Checked.tick, phase]
        exact inv.set (by rw [phase]; rfl) ⟨c.reads, rfl, fits⟩
    | act write next =>
      rw [Checked.tick, phase]
      refine inv.set_holder held rfl rfl held (fun free => ?_) fits
      rw [show s.holder = none from free] at held
      cases held
  | reprinting v t =>
    rw [phase] at fits lock
    have held := lock rfl
    obtain ⟨reads, print, value⟩ := fits
    cases t with
    | done p =>
      rw [Checked.tick, phase]
      exact inv.set_holder held rfl rfl rfl (fun _ => value) fun _ => value.symm
    | act write next =>
      rw [Checked.tick, phase]
      obtain ⟨same, reads⟩ := reads
      rw [Task.quiet, same] at print
      dsimp only
      rw [same]
      exact inv.set (by rw [phase]; rfl) ⟨reads s.files, print, value⟩

/-- **A safe step keeps the invariant.** -/
theorem Inv.step (inv : c.Inv s) {event : Event F ι} (safe : c.Safe s event) :
    c.Inv (c.step s event) := by
  cases event with
  | tick i => exact inv.tick safe
  | begin i =>
    rw [Checked.step]
    have begins : (s.phase i).holds = false → c.Inv { s.set i (.printing c.print) with
        undisturbed := Function.update s.undisturbed i true } := by
      intro waits
      refine ⟨fun j => ?_, inv.trusted, fun j => ?_⟩
      · change ((s.set i _).phase j).holds = true ↔ s.holder = some j
        rw [System.set_phase]
        split
        · rename_i equal
          have before := inv.lock i
          rw [waits] at before
          rw [equal]
          exact before
        · exact inv.lock j
      · change c.Fits _ (Function.update s.undisturbed i true j) ((s.set i _).phase j)
        rw [System.set_phase, Function.update_apply]
        split
        · exact ⟨c.reads, fun _ _ => .inr rfl⟩
        · exact inv.fits j
    cases phase : s.phase i with
    | idle => exact begins (by rw [phase]; rfl)
    | returned r f => exact begins (by rw [phase]; rfl)
    | printing t => exact inv
    | waiting p => exact inv
    | loading t => exact inv
    | reprinting v t => exact inv
  | invalidate =>
    rw [Checked.step]
    split
    · exact inv
    rename_i free
    have waits := inv.waits (by simpa using free)
    exact ⟨inv.lock, fun _ => trivial, fun j => (inv.fits j).kept (waits j) fun _ => trivial⟩
  | change f =>
    obtain ⟨free, trusted⟩ := safe
    have waits := inv.waits (by simpa using free)
    refine ⟨inv.lock, fun _ => trusted, fun j => ?_⟩
    have fits := inv.fits j
    have waits := waits j
    change c.Fits _ false (s.phase j)
    cases phase : s.phase j with
    | idle => trivial
    | printing t =>
      rw [phase] at fits
      exact ⟨fits.1, fun _ undisturbed => nomatch undisturbed⟩
    | waiting p => exact fun _ undisturbed => nomatch undisturbed
    | loading t =>
      rw [phase] at waits
      cases waits
    | reprinting v t =>
      rw [phase] at waits
      cases waits
    | returned r f => exact fun undisturbed => nomatch undisturbed

/-! ### A call on its own -/

/-- Actions of the call lead from one state to the other. -/
def Alone (c : Checked F P V E) (i : ι) (s s' : System F P V E ι) : Prop :=
  ∃ n, Run.run c.step s (List.replicate n (.tick i)) = s'

theorem Alone.next {s'' : System F P V E ι} (one : c.tick s i = s') (more : c.Alone i s' s'') :
    c.Alone i s s'' := by
  obtain ⟨n, rest⟩ := more
  refine ⟨n + 1, ?_⟩
  rw [List.replicate_succ, Run.run, List.foldl_cons]
  change Run.run c.step (c.tick s i) _ = _
  rw [one, rest]

/-- The call can go on to return. -/
def Returns (c : Checked F P V E) (i : ι) (s : System F P V E ι) : Prop :=
  ∃ s' r f, c.Alone i s s' ∧ s'.phase i = .returned r f

theorem Returns.next (one : c.tick s i = s') (more : c.Returns i s') : c.Returns i s := by
  obtain ⟨last, r, f, alone, returned⟩ := more
  exact ⟨last, r, f, alone.next one, returned⟩

theorem returns_of_returned {r : Except E V} {f : F} (h : s.phase i = .returned r f) :
    c.Returns i s := ⟨s, r, f, ⟨0, rfl⟩, h⟩

theorem returns_of_reprinting {v : V} {t : Task F P} (h : s.phase i = .reprinting v t) :
    c.Returns i s := by
  induction t generalizing s with
  | done p =>
    refine Returns.next rfl (returns_of_returned (r := .ok v) (f := s.files) ?_)
    rw [tick, h]
    exact System.set_self _
  | act write next ih =>
    refine Returns.next rfl (ih s.files ?_)
    rw [tick, h]
    exact System.set_self _

theorem returns_of_loading {t : Task F (Except E V)} (h : s.phase i = .loading t) :
    c.Returns i s := by
  induction t generalizing s with
  | done r =>
    cases r with
    | error e =>
      refine Returns.next rfl (returns_of_returned (r := .error e) (f := s.files) ?_)
      rw [tick, h]
      exact System.set_self _
    | ok v =>
      refine Returns.next rfl (returns_of_reprinting (v := v) (t := c.print) ?_)
      rw [tick, h]
      exact System.set_self _
  | act write next ih =>
    refine Returns.next rfl (ih s.files ?_)
    rw [tick, h]
    exact System.set_self _

theorem returns_of_waiting {p : P} (h : s.phase i = .waiting p) (free : s.holder = none) :
    c.Returns i s := by
  have loads : c.tick s i = { s.set i (.loading c.load) with holder := some i } →
      c.Returns i s :=
    fun one => .next one (returns_of_loading (t := c.load) (System.set_self _))
  cases cached : s.cache with
  | none =>
    apply loads
    rw [tick, h]
    simp [free, cached]
  | some entry =>
    obtain ⟨q, v⟩ := entry
    by_cases hit : q = p
    · have one : c.tick s i = s.set i (.returned (.ok v) s.files) := by
        rw [tick, h]
        simp [free, cached, hit]
      exact .next one (returns_of_returned (System.set_self _))
    · apply loads
      rw [tick, h]
      simp [free, cached, hit]

theorem returns_of_printing {t : Task F P} (h : s.phase i = .printing t)
    (free : s.holder = none) : c.Returns i s := by
  induction t generalizing s with
  | done p =>
    refine Returns.next rfl (returns_of_waiting (p := p) ?_ ?_)
    · rw [tick, h]
      exact System.set_self _
    · rw [tick, h]
      exact free
  | act write next ih =>
    refine Returns.next rfl (ih s.files ?_ ?_)
    · rw [tick, h]
      exact System.set_self _
    · rw [tick, h]
      exact free

/-- A call that is under way can go on to return, on its own if the lock is free, and else after
the call that has the lock. -/
def Live (c : Checked F P V E) (s : System F P V E ι) : Prop :=
  ∀ i, s.phase i ≠ .idle →
    match s.holder with
    | none => c.Returns i s
    | some j => c.Returns j s

theorem Inv.live (inv : c.Inv s) : c.Live s := by
  intro i running
  cases holder : s.holder with
  | none =>
    have waits := inv.waits holder i
    cases phase : s.phase i with
    | idle => exact absurd phase running
    | printing t => exact returns_of_printing phase holder
    | waiting p => exact returns_of_waiting phase holder
    | loading t => exact returns_of_loading phase
    | reprinting v t => exact returns_of_reprinting phase
    | returned r f => exact returns_of_returned phase
  | some j =>
    have holds := (inv.lock j).mpr holder
    cases phase : s.phase j with
    | loading t => exact returns_of_loading phase
    | reprinting v t => exact returns_of_reprinting phase
    | idle | printing _ | waiting _ | returned _ _ =>
      rw [phase] at holds
      cases holds

/-- **In a run of safe steps, every call is current**, and no call waits for ever. -/
theorem always_current {f : F} {events : List (Event F ι)}
    (safe : Run.EachStep c.step c.Safe (start f) events) :
    Run.Always c.step (fun s => c.Current s ∧ c.Live s) (start f) events :=
  (Run.always_of_eachStep (fun _ _ inv safe => inv.step safe) (inv_start f) safe).mono
    fun _ inv => ⟨inv.current, inv.live⟩

end Checked

end Apm.Lib
