import Mathlib.Data.List.Basic

/-!
Programs with a state and errors.

An `Act` runs from a state to a result or an error and a final state. `wp` is its
weakest precondition, with a postcondition for results and one for errors; the
rules below are one for each construct, for loops over lists (`forEach`) and for
logs that programs append to.
-/

namespace Apm.Lib.Effect

/-- A program over states `σ` with errors `ε`. -/
abbrev Act (σ ε α : Type) := ExceptT ε (StateM σ) α

variable {σ ε α β γ : Type}

/-- Run a program: its result or error, and the final state. -/
def exec (act : Act σ ε α) (s : σ) : Except ε α × σ := StateT.run (ExceptT.run act) s

/-- Read and change the state. -/
def update (f : σ → α × σ) : Act σ ε α :=
  ExceptT.mk fun s => ((.ok (f s).1 : Except ε α), (f s).2)

/-- Run a program and hand on its error. -/
def attempt {ε' : Type} (act : Act σ ε α) : Act σ ε' (Except ε α) := update (exec act)

/-- The second program runs, and decides, only where the first one says yes. -/
def andAlso (act act' : Act σ ε Bool) : Act σ ε Bool := do if ← act then act' else pure false

@[simp] theorem exec_pure (a : α) (s : σ) : exec (pure a : Act σ ε α) s = (.ok a, s) := rfl

@[simp] theorem exec_throw (e : ε) (s : σ) : exec (throw e : Act σ ε α) s = (.error e, s) := rfl

@[simp] theorem exec_update (f : σ → α × σ) (s : σ) :
    exec (update f : Act σ ε α) s = (.ok (f s).1, (f s).2) := rfl

theorem error_ne_ok {e : ε} {a : α} : (.error e : Except ε α) ≠ .ok a := by
  intro same
  cases same

theorem exec_bind (act : Act σ ε α) (f : α → Act σ ε β) (s : σ) :
    exec (act >>= f) s =
      match exec act s with
      | (.ok a, s') => exec (f a) s'
      | (.error e, s') => (.error e, s') := by
  unfold exec
  rw [ExceptT.run_bind, StateT.run_bind]
  rcases StateT.run (ExceptT.run act) s with ⟨_ | _, s'⟩ <;> rfl

/-- After a result the second part runs. -/
theorem exec_bind_of_ok {act : Act σ ε α} {f : α → Act σ ε β} {s : σ} {a : α}
    (h : (exec act s).1 = .ok a) : exec (act >>= f) s = exec (f a) (exec act s).2 := by
  rw [exec_bind]
  rcases run : exec act s with ⟨r, s'⟩
  rw [run] at h
  cases h
  rfl

/-- An error ends the run. -/
theorem exec_bind_of_error {act : Act σ ε α} {f : α → Act σ ε β} {s : σ} {e : ε}
    (h : (exec act s).1 = .error e) : (exec (act >>= f) s).1 = .error e := by
  rw [exec_bind]
  rcases run : exec act s with ⟨r, s'⟩
  rw [run] at h
  cases h
  rfl

/-- A sequence of fallible computations succeeds if both parts do. -/
theorem ok_of_bind {x : Except ε α} {f : α → Except ε β} {b : β} (h : (x >>= f) = .ok b) :
    ∃ a, x = .ok a ∧ f a = .ok b := by
  cases x with
  | error e => cases h
  | ok a => exact ⟨a, rfl, h⟩

/-! ### Weakest preconditions -/

/-- From `s` the program ends in a result with `Q` or in an error with `E`. -/
def wp (act : Act σ ε α) (Q : α → σ → Prop) (E : ε → σ → Prop) (s : σ) : Prop :=
  match exec act s with
  | (.ok a, s') => Q a s'
  | (.error e, s') => E e s'

section Rules

variable {Q : α → σ → Prop} {E : ε → σ → Prop} {s : σ}

@[simp] theorem wp_pure {a : α} : wp (pure a : Act σ ε α) Q E s ↔ Q a s := Iff.rfl

@[simp] theorem wp_throw {e : ε} : wp (throw e : Act σ ε α) Q E s ↔ E e s := Iff.rfl

@[simp] theorem wp_update {f : σ → α × σ} :
    wp (update f : Act σ ε α) Q E s ↔ Q (f s).1 (f s).2 := Iff.rfl

@[simp] theorem wp_bind {act : Act σ ε β} {f : β → Act σ ε α} :
    wp (act >>= f) Q E s ↔ wp act (fun b => wp (f b) Q E) E s := by
  unfold wp
  rw [exec_bind]
  rcases exec act s with ⟨_ | _, s'⟩ <;> rfl

@[simp] theorem wp_ite {c : Prop} [Decidable c] {act act' : Act σ ε α} :
    wp (if c then act else act') Q E s ↔
      (c → wp act Q E s) ∧ (¬ c → wp act' Q E s) := by
  split <;> simp [*]

theorem wp_mono {act : Act σ ε α} {Q' : α → σ → Prop} {E' : ε → σ → Prop}
    (h : wp act Q E s) (hQ : ∀ a s', Q a s' → Q' a s') (hE : ∀ e s', E e s' → E' e s') :
    wp act Q' E' s := by
  unfold wp at *
  split
  · rename_i eq
    rw [eq] at h
    exact hQ _ _ h
  · rename_i eq
    rw [eq] at h
    exact hE _ _ h

theorem wp_and {act : Act σ ε α} {Q' : α → σ → Prop} {E' : ε → σ → Prop} (h : wp act Q E s)
    (h' : wp act Q' E' s) :
    wp act (fun a s' => Q a s' ∧ Q' a s') (fun e s' => E e s' ∧ E' e s') s := by
  unfold wp at *
  split
  · rename_i eq
    rw [eq] at h h'
    exact ⟨h, h'⟩
  · rename_i eq
    rw [eq] at h h'
    exact ⟨h, h'⟩

end Rules

theorem wp_attempt {ε' : Type} {act : Act σ ε α} {Q : Except ε α → σ → Prop}
    {E : ε' → σ → Prop} {s : σ} :
    wp (attempt act) Q E s ↔ wp act (fun a => Q (.ok a)) (fun e => Q (.error e)) s := by
  unfold attempt
  rw [wp_update, wp]
  rcases exec act s with ⟨_ | _, s'⟩ <;> rfl

theorem wp_of_forall {act : Act σ ε α} {Q : α → σ → Prop} {E : ε → σ → Prop} {s : σ}
    (hQ : ∀ a s', Q a s') (hE : ∀ e s', E e s') : wp act Q E s := by
  unfold wp
  split
  · exact hQ _ _
  · exact hE _ _

/-- The first part of a sequence may do anything. -/
theorem wp_bind_of_forall {act : Act σ ε β} {f : β → Act σ ε α} {Q : α → σ → Prop}
    {E : ε → σ → Prop} {s : σ} (rest : ∀ b s', wp (f b) Q E s') (hE : ∀ e s', E e s') :
    wp (act >>= f) Q E s :=
  wp_bind.mpr (wp_of_forall rest hE)

/-- The result of a run, from a weakest precondition. -/
theorem wp.ok {act : Act σ ε α} {Q : α → σ → Prop} {E : ε → σ → Prop} {s s' : σ} {a : α}
    (h : wp act Q E s) (run : exec act s = (.ok a, s')) : Q a s' := by
  unfold wp at h
  rwa [run] at h

/-- The error of a run, from a weakest precondition. -/
theorem wp.error {act : Act σ ε α} {Q : α → σ → Prop} {E : ε → σ → Prop} {s s' : σ} {e : ε}
    (h : wp act Q E s) (run : exec act s = (.error e, s')) : E e s' := by
  unfold wp at h
  rwa [run] at h

/-- The strongest postcondition: the run itself. -/
theorem wp_exec (act : Act σ ε α) (s : σ) :
    wp act (fun a s' => exec act s = (.ok a, s')) (fun e s' => exec act s = (.error e, s')) s := by
  unfold wp
  rcases exec act s with ⟨_ | _, s'⟩ <;> rfl

/-! ### Loops over lists -/

/-- Run the body for each element, with an accumulator. -/
def forEach (body : α → β → Act σ ε β) : List α → β → Act σ ε β
  | [], b => pure b
  | x :: xs, b => do
      let b ← body x b
      forEach body xs b

/-- A loop over `xs` from `b` and `s` starts the turn of `y` with `c` in `t`. -/
inductive Starts (body : α → β → Act σ ε β) : List α → β → σ → α → β → σ → Prop
  | here (x : α) (xs : List α) (b : β) (s : σ) : Starts body (x :: xs) b s x b s
  | later {x : α} {xs : List α} {b b' c : β} {s s' t : σ} {y : α}
      (turn : exec (body x b) s = (.ok b', s')) (rest : Starts body xs b' s' y c t) :
      Starts body (x :: xs) b s y c t

theorem Starts.mem {body : α → β → Act σ ε β} {xs : List α} {b c : β} {s t : σ} {y : α}
    (h : Starts body xs b s y c t) : y ∈ xs := by
  induction h with
  | here => exact List.mem_cons_self
  | later _ _ ih => exact List.mem_cons_of_mem _ ih

/-- The invariant rule of a loop, with the elements done so far, for the turns that it starts. -/
theorem wp_forEach_turns {body : α → β → Act σ ε β} (inv : List α → β → σ → Prop)
    {E : ε → σ → Prop} {xs : List α} {b : β} {s : σ}
    (turn : ∀ done x rest c t, xs = done ++ x :: rest → Starts body xs b s x c t →
      inv done c t → wp (body x c) (inv (done ++ [x])) E t)
    (h : inv [] b s) : wp (forEach body xs b) (inv xs) E s := by
  induction xs generalizing b s inv with
  | nil => exact h
  | cons x xs ih =>
    rw [forEach, wp_bind]
    have first := turn [] x xs b s rfl (.here x xs b s) h
    unfold wp at first ⊢
    split at first
    · rename_i b' s' run
      apply ih (fun done => inv (x :: done)) ?_ first
      intro done y rest c t split start
      exact turn (x :: done) y rest c t (congrArg (x :: ·) split) (.later run start)
    · exact first

/-- The invariant rule of a loop, with the elements done so far. -/
theorem wp_forEach_done {body : α → β → Act σ ε β} (inv : List α → β → σ → Prop)
    {E : ε → σ → Prop} {xs : List α}
    (turn : ∀ done x rest, xs = done ++ x :: rest → ∀ b s, inv done b s →
      wp (body x b) (inv (done ++ [x])) E s) {b : β} {s : σ} (h : inv [] b s) :
    wp (forEach body xs b) (inv xs) E s :=
  wp_forEach_turns inv (fun done x rest c t split _ => turn done x rest split c t) h

/-- The invariant rule of a loop. -/
theorem wp_forEach {body : α → β → Act σ ε β} (inv : β → σ → Prop) {E : ε → σ → Prop}
    {xs : List α} (turn : ∀ x ∈ xs, ∀ b s, inv b s → wp (body x b) inv E s) {b : β} {s : σ}
    (h : inv b s) : wp (forEach body xs b) inv E s :=
  wp_forEach_done (fun _ => inv)
    (fun done x rest split b s => turn x (by rw [split]; simp) b s) h

/-- The invariant rule of a loop, for the turns that it starts. -/
theorem wp_forEach_starts {body : α → β → Act σ ε β} (inv : β → σ → Prop) {E : ε → σ → Prop}
    {xs : List α} {b : β} {s : σ}
    (turn : ∀ x c t, Starts body xs b s x c t → inv c t → wp (body x c) inv E t)
    (h : inv b s) : wp (forEach body xs b) inv E s :=
  wp_forEach_turns (fun _ => inv) (fun _ x _ c t _ => turn x c t) h

/-! ### What a program leaves alone -/

section Keeps

variable {τ : Type} {part : σ → τ}

/-- The program leaves a part of the state alone. -/
def Keeps (part : σ → τ) (act : Act σ ε α) : Prop := ∀ s, part (exec act s).2 = part s

theorem keeps_pure (a : α) : Keeps part (pure a : Act σ ε α) := fun _ => rfl

theorem keeps_throw (e : ε) : Keeps part (throw e : Act σ ε α) := fun _ => rfl

/-- What is kept of the state is kept of its parts. -/
theorem Keeps.comp {υ : Type} {act : Act σ ε α} (h : Keeps part act) (f : τ → υ) :
    Keeps (fun s => f (part s)) act := fun s => congrArg f (h s)

theorem Keeps.bind {act : Act σ ε α} {f : α → Act σ ε β} (h : Keeps part act)
    (hf : ∀ a, Keeps part (f a)) : Keeps part (act >>= f) := by
  intro s
  have first := h s
  rw [exec_bind]
  rcases run : exec act s with ⟨_ | a, s'⟩ <;> rw [run] at first
  · exact first
  · exact (hf a s').trans first

theorem Keeps.ite {c : Prop} [Decidable c] {act act' : Act σ ε α} (h : Keeps part act)
    (h' : Keeps part act') : Keeps part (if c then act else act') := by
  split
  · exact h
  · exact h'

theorem Keeps.forEach {body : α → β → Act σ ε β} (h : ∀ x b, Keeps part (body x b))
    (xs : List α) (b : β) : Keeps part (forEach body xs b) := by
  induction xs generalizing b with
  | nil => exact keeps_pure b
  | cons x xs ih => exact (h x b).bind ih

theorem Keeps.wp {act : Act σ ε α} (h : Keeps part act) (s : σ) :
    wp act (fun _ s' => part s' = part s) (fun _ s' => part s' = part s) s := by
  have := h s
  unfold Effect.wp
  split <;> simp_all

/-- What is kept by a run. -/
theorem Keeps.run {act : Act σ ε α} (h : Keeps part act) {s s' : σ} {r : Except ε α}
    (run : exec act s = (r, s')) : part s' = part s := by
  have := h s
  rwa [run] at this

end Keeps

/-! ### What a program does to the state at most -/

section Moves

variable {R : σ → σ → Prop}

/-- Every run of the program takes the state to a related one. -/
def Moves (R : σ → σ → Prop) (act : Act σ ε α) : Prop := ∀ s, R s (exec act s).2

theorem moves_pure [Std.Refl R] (a : α) : Moves R (pure a : Act σ ε α) := fun s => refl_of R s

theorem moves_throw [Std.Refl R] (e : ε) : Moves R (throw e : Act σ ε α) :=
  fun s => refl_of R s

theorem Moves.bind [IsTrans σ R] {act : Act σ ε α} {f : α → Act σ ε β} (h : Moves R act)
    (hf : ∀ a, Moves R (f a)) : Moves R (act >>= f) := by
  intro s
  have first := h s
  rw [exec_bind]
  rcases run : exec act s with ⟨_ | a, s'⟩ <;> rw [run] at first
  · exact first
  · exact trans_of R first (hf a s')

/-- What the first program's results satisfy may be used for the second. -/
theorem Moves.bind_of [IsTrans σ R] {act : Act σ ε α} {f : α → Act σ ε β} {Q : α → Prop}
    (h : Moves R act) (post : ∀ s, Effect.wp act (fun a _ => Q a) (fun _ _ => True) s)
    (hf : ∀ a, Q a → Moves R (f a)) : Moves R (act >>= f) := by
  intro s
  have first := h s
  rw [exec_bind]
  rcases run : exec act s with ⟨_ | a, s'⟩ <;> rw [run] at first
  · exact first
  · exact trans_of R first (hf a ((post s).ok run) s')

theorem Moves.ite {c : Prop} [Decidable c] {act act' : Act σ ε α} (h : Moves R act)
    (h' : Moves R act') : Moves R (if c then act else act') := by
  split
  · exact h
  · exact h'

theorem Moves.andAlso [Std.Refl R] [IsTrans σ R] {act act' : Act σ ε Bool} (h : Moves R act)
    (h' : Moves R act') : Moves R (andAlso act act') := h.bind fun _ => .ite h' (moves_pure _)

theorem Moves.forEach [Std.Refl R] [IsTrans σ R] {body : α → β → Act σ ε β} {xs : List α}
    (h : ∀ x ∈ xs, ∀ b, Moves R (body x b)) (b : β) : Moves R (forEach body xs b) := by
  induction xs generalizing b with
  | nil => exact moves_pure b
  | cons x xs ih =>
    obtain ⟨first, others⟩ := List.forall_mem_cons.mp h
    exact (first b).bind (ih others)

theorem Moves.attempt {ε' : Type} {act : Act σ ε α} (h : Moves R act) :
    Moves R (attempt act : Act σ ε' (Except ε α)) := h

theorem Moves.wp {act : Act σ ε α} (h : Moves R act) (s : σ) :
    wp act (fun _ s' => R s s') (fun _ s' => R s s') s := by
  have := h s
  unfold Effect.wp
  split <;> simp_all

theorem Moves.of_wp {act : Act σ ε α} {E : ε → σ → σ → Prop}
    (h : ∀ s, Effect.wp act (fun _ s' => R s s') (fun e s' => E e s s') s)
    (hE : ∀ e s s', E e s s' → R s s') : Moves R act := by
  intro s
  have := h s
  unfold Effect.wp at this
  split at this
  · rename_i run
    rwa [run]
  · rename_i run
    rw [run]
    exact hE _ _ _ this

end Moves

/-! ### Logs

A program that only appends to a log is described by what it appends. -/

section Logs

variable {δ : Type} (log : σ → List δ)

/-- The program only appends to the log. -/
def Appends (act : Act σ ε α) : Prop := ∀ s, log s <+: log (exec act s).2

/-- What the program appends to the log. -/
def emitted (act : Act σ ε α) (s : σ) : List δ := (log (exec act s).2).drop (log s).length

variable {log}

theorem Keeps.appends {act : Act σ ε α} (h : Keeps log act) : Appends log act :=
  fun s => h s ▸ List.prefix_refl _

theorem Keeps.emitted {act : Act σ ε α} (h : Keeps log act) (s : σ) :
    emitted log act s = [] := by
  rw [Effect.emitted, h s, List.drop_length]

theorem Appends.log_eq {act : Act σ ε α} (h : Appends log act) (s : σ) :
    log (exec act s).2 = log s ++ emitted log act s := by
  obtain ⟨new, hnew⟩ := h s
  rw [emitted, ← hnew, List.drop_left]

theorem Appends.bind {act : Act σ ε α} {f : α → Act σ ε β} (h : Appends log act)
    (hf : ∀ a, Appends log (f a)) : Appends log (act >>= f) := by
  intro s
  have first := h s
  rw [exec_bind]
  rcases run : exec act s with ⟨_ | a, s'⟩ <;> rw [run] at first
  · exact first
  · exact first.trans (hf a s')

/-- A sequence appends what its first part appends, then what the second does. -/
theorem forall_emitted_bind {act : Act σ ε α} {f : α → Act σ ε β} (h : Appends log act)
    (hf : ∀ a, Appends log (f a)) (s : σ) (P : δ → Prop) :
    (∀ e ∈ emitted log (act >>= f) s, P e) ↔
      (∀ e ∈ emitted log act s, P e) ∧
        ∀ a s', exec act s = (.ok a, s') → ∀ e ∈ emitted log (f a) s', P e := by
  have whole : emitted log (act >>= f) s = emitted log act s ++
      match exec act s with
      | (.ok a, s') => emitted log (f a) s'
      | (.error _, _) => [] := by
    have first := h.log_eq s
    rcases run : exec act s with ⟨e | a, s'⟩ <;> rw [run] at first
    · rw [emitted, exec_bind, run]
      simp [first]
    · have second := (hf a).log_eq s'
      rw [emitted, exec_bind, run]
      simp [first, second]
  rw [whole]
  rcases run : exec act s with ⟨e | a, s'⟩
  · simp
  · simp only [List.forall_mem_append, Prod.mk.injEq, Except.ok.injEq]
    refine and_congr_right fun _ => ⟨?_, fun h => h a s' ⟨rfl, rfl⟩⟩
    rintro h _ _ ⟨rfl, rfl⟩
    exact h

/-- Behind a silent part, a sequence appends what the second part does. -/
theorem Keeps.forall_emitted_bind {act : Act σ ε α} {f : α → Act σ ε β} (h : Keeps log act)
    (hf : ∀ a, Appends log (f a)) (s : σ) (P : δ → Prop) :
    (∀ e ∈ Effect.emitted log (act >>= f) s, P e) ↔
      ∀ a s', exec act s = (.ok a, s') → ∀ e ∈ Effect.emitted log (f a) s', P e := by
  rw [Effect.forall_emitted_bind h.appends hf, h.emitted]
  simp

theorem Appends.forEach {body : α → β → Act σ ε β} (h : ∀ x b, Appends log (body x b))
    (xs : List α) (b : β) : Appends log (forEach body xs b) := by
  induction xs generalizing b with
  | nil => exact (keeps_pure b).appends
  | cons x xs ih => exact (h x b).bind ih

/-- **What a loop appends is what its turns append.** -/
theorem forall_emitted_forEach {body : α → β → Act σ ε β} (h : ∀ x b, Appends log (body x b))
    (xs : List α) (b : β) (s : σ) (P : δ → Prop) :
    (∀ e ∈ emitted log (forEach body xs b) s, P e) ↔
      ∀ y c t, Starts body xs b s y c t → ∀ e ∈ emitted log (body y c) t, P e := by
  induction xs generalizing b s with
  | nil =>
    refine ⟨fun _ _ _ _ start => (nomatch start), fun _ e he => ?_⟩
    rw [forEach, (keeps_pure b).emitted] at he
    cases he
  | cons x xs ih =>
    rw [forEach, forall_emitted_bind (h x b) (Appends.forEach h xs)]
    constructor
    · rintro ⟨first, others⟩ y c t start
      cases start with
      | here => exact first
      | later turn rest => exact (ih _ _).mp (others _ _ turn) y c t rest
    · intro all
      refine ⟨all x b s (.here x xs b s), fun b' s' turn => ?_⟩
      exact (ih b' s').mpr fun y c t rest => all y c t (.later turn rest)

end Logs

end Apm.Lib.Effect
