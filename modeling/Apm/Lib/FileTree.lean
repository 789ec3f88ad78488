import Mathlib.Data.List.Basic
import Mathlib.Order.Defs.Unbundled

/-!
Trees of directories, regular files and symbolic links, and the overlay of one over another.

Looking up a path gives what stands there, links not followed. In an overlay (`overlay`) a path
of the upper tree shows what the upper tree has (`overlay_upper`), and any other path shows what
the lower tree has, unless something of the upper tree that is no directory is in its place
(`overlay_lower`).
-/

namespace Apm.Lib.FileTree

/-- The entries of a directory, one after the other. -/
inductive Dir (N C : Type) where
  | empty
  | file (name : N) (content : C) (rest : Dir N C)
  | link (name : N) (leads : C) (rest : Dir N C)
  | dir (name : N) (inner rest : Dir N C)
deriving DecidableEq

/-- What a name of a directory stands for. -/
inductive Entry (N C : Type) where
  | file (content : C)
  | link (leads : C)
  | dir (inner : Dir N C)
deriving DecidableEq

/-- What is seen at a path. -/
inductive Kind (C : Type) where
  | file (content : C)
  | link (leads : C)
  | dir
deriving DecidableEq

variable {N C : Type}

def Entry.kind : Entry N C → Kind C
  | .file content => .file content
  | .link leads => .link leads
  | .dir _ => .dir

namespace Dir

def names : Dir N C → List N
  | empty => []
  | file name _ rest => name :: rest.names
  | link name _ rest => name :: rest.names
  | dir name _ rest => name :: rest.names

/-- Every name meets the condition and stands before the names after it. -/
def Ordered [LT N] (Q : N → Prop) : Dir N C → Prop
  | empty => True
  | file name _ rest => Q name ∧ (∀ m ∈ rest.names, name < m) ∧ rest.Ordered Q
  | link name _ rest => Q name ∧ (∀ m ∈ rest.names, name < m) ∧ rest.Ordered Q
  | dir name inner rest =>
      Q name ∧ (∀ m ∈ rest.names, name < m) ∧ inner.Ordered Q ∧ rest.Ordered Q

/-- The links, each with the directories on the way to it, its name and where it leads. -/
def links : Dir N C → List (List N × N × C)
  | empty => []
  | file _ _ rest => rest.links
  | link name leads rest => ([], name, leads) :: rest.links
  | dir name inner rest => inner.links.map (fun l => (name :: l.1, l.2)) ++ rest.links

variable [DecidableEq N]

def find (n : N) : Dir N C → Option (Entry N C)
  | empty => none
  | file name content rest => if name = n then some (.file content) else rest.find n
  | link name leads rest => if name = n then some (.link leads) else rest.find n
  | dir name inner rest => if name = n then some (.dir inner) else rest.find n

/-- The entry in front of the others. -/
def cons (n : N) (e : Entry N C) (rest : Dir N C) : Dir N C :=
  match e with
  | .file content => file n content rest
  | .link leads => link n leads rest
  | .dir inner => dir n inner rest

/-- Put an entry in its place, over one of that name. -/
def put [LT N] [DecidableLT N] (n : N) (e : Entry N C) : Dir N C → Dir N C
  | empty => cons n e empty
  | file name content rest =>
      if n < name then cons n e (file name content rest)
      else if name = n then cons n e rest
      else file name content (rest.put n e)
  | link name leads rest =>
      if n < name then cons n e (link name leads rest)
      else if name = n then cons n e rest
      else link name leads (rest.put n e)
  | dir name inner rest =>
      if n < name then cons n e (dir name inner rest)
      else if name = n then cons n e rest
      else dir name inner (rest.put n e)

/-- Make the directories of a path that are not there. A file or link on the way stops it. -/
def makeDirs [LT N] [DecidableLT N] : List N → Dir N C → Dir N C
  | [], d => d
  | n :: path, d =>
      match d.find n with
      | none => d.put n (.dir (makeDirs path empty))
      | some (.dir inner) => d.put n (.dir (makeDirs path inner))
      | some _ => d

/-- The directory of that name, empty if there is none. -/
def sub (d : Dir N C) (n : N) : Dir N C :=
  match d.find n with
  | some (.dir inner) => inner
  | _ => empty

end Dir

variable [DecidableEq N]

def Entry.lookup : List N → Entry N C → Option (Kind C)
  | [], e => some e.kind
  | n :: path, .dir inner => (inner.find n).bind (Entry.lookup path)
  | _ :: _, _ => none

def Dir.lookup (d : Dir N C) (path : List N) : Option (Kind C) := Entry.lookup path (.dir d)

/-- What a path shows of one tree laid over another. -/
def overlay : List N → Dir N C → Dir N C → Option (Kind C)
  | [], _, _ => some .dir
  | n :: path, upper, lower =>
      match upper.find n with
      | none => (lower.find n).bind (Entry.lookup path)
      | some (.dir inner) => overlay path inner (lower.sub n)
      | some e => e.lookup path

variable {d upper lower : Dir N C} {n : N} {path : List N}

@[simp] theorem Dir.lookup_nil : d.lookup [] = some .dir := rfl

theorem Dir.lookup_cons : d.lookup (n :: path) = (d.find n).bind (Entry.lookup path) := rfl

/-- What is seen under a name is what it stands for. -/
theorem Dir.find_of_lookup {k : Kind C} (h : d.lookup [n] = some k) :
    ∃ e, d.find n = some e ∧ e.kind = k := by
  rw [lookup_cons] at h
  cases found : d.find n with
  | none =>
    rw [found] at h
    cases h
  | some e =>
    rw [found] at h
    exact ⟨e, rfl, Option.some.inj h⟩

theorem Dir.lookup_cons_of_dir {inner : Dir N C} (h : d.find n = some (.dir inner)) :
    d.lookup (n :: path) = inner.lookup path := by
  rw [lookup_cons, h]
  rfl

theorem Dir.sub_of_dir {inner : Dir N C} (h : d.find n = some (.dir inner)) : d.sub n = inner := by
  simp [sub, h]

theorem Dir.mem_names_of_find {e : Entry N C} (h : d.find n = some e) : n ∈ d.names := by
  induction d with
  | empty => cases h
  | file name _ rest ih | link name _ rest ih | dir name _ rest _ ih =>
    unfold find at h
    split at h
    · rename_i same
      exact same ▸ List.mem_cons_self
    · exact List.mem_cons_of_mem _ (ih h)

theorem Dir.find_eq_none (h : n ∉ d.names) : d.find n = none := by
  cases found : d.find n with
  | none => rfl
  | some e => exact absurd (mem_names_of_find found) h

omit [DecidableEq N] in
theorem Dir.Ordered.name [LT N] {Q : N → Prop} (h : d.Ordered Q) (mem : n ∈ d.names) : Q n := by
  induction d with
  | empty => cases mem
  | file name _ rest ih | link name _ rest ih =>
    rcases List.mem_cons.mp mem with rfl | mem
    · exact h.1
    · exact ih h.2.2 mem
  | dir name _ rest _ ih =>
    rcases List.mem_cons.mp mem with rfl | mem
    · exact h.1
    · exact ih h.2.2.2 mem

theorem Dir.Ordered.of_find [LT N] {Q : N → Prop} {e : Entry N C} (h : d.Ordered Q)
    (found : d.find n = some e) : Q n ∧ ∀ inner, e = .dir inner → inner.Ordered Q := by
  induction d with
  | empty => cases found
  | file name _ rest ih | link name _ rest ih =>
    unfold find at found
    split at found
    · rename_i same
      cases found
      exact ⟨same ▸ h.1, nofun⟩
    · exact ih h.2.2 found
  | dir name inner rest _ ih =>
    unfold find at found
    split at found
    · rename_i same
      cases found
      refine ⟨same ▸ h.1, fun inner' eq => ?_⟩
      cases eq
      exact h.2.2.1
    · exact ih h.2.2.2 found

theorem Dir.lookup_sub {m : N} : (d.sub n).lookup (m :: path) = d.lookup (n :: m :: path) := by
  rw [d.lookup_cons, sub]
  cases d.find n with
  | none => rfl
  | some e => cases e <;> rfl

theorem overlay_cons_of_none (h : upper.find n = none) :
    overlay (n :: path) upper lower = lower.lookup (n :: path) := by
  rw [overlay, h]
  rfl

theorem overlay_cons_of_dir {inner : Dir N C} (h : upper.find n = some (.dir inner)) :
    overlay (n :: path) upper lower = overlay path inner (lower.sub n) := by
  rw [overlay, h]

theorem overlay_cons_of_file {content : C} (h : upper.find n = some (.file content)) :
    overlay (n :: path) upper lower = Entry.lookup path (.file content : Entry N C) := by
  rw [overlay, h]

theorem overlay_cons_of_link {leads : C} (h : upper.find n = some (.link leads)) :
    overlay (n :: path) upper lower = Entry.lookup path (.link leads : Entry N C) := by
  rw [overlay, h]

theorem overlay_empty : overlay path .empty lower = lower.lookup path := by
  cases path with
  | nil => rfl
  | cons n path => exact overlay_cons_of_none rfl

/-- What the upper tree has is seen. -/
theorem overlay_upper {k : Kind C} (h : upper.lookup path = some k) :
    overlay path upper lower = some k := by
  induction path generalizing upper lower with
  | nil => exact h
  | cons n path ih =>
    rw [Dir.lookup_cons] at h
    cases found : upper.find n with
    | none =>
      rw [found] at h
      cases h
    | some e =>
      rw [found] at h
      cases e with
      | file content => exact (overlay_cons_of_file found).trans h
      | link leads => exact (overlay_cons_of_link found).trans h
      | dir inner =>
        rw [overlay_cons_of_dir found]
        exact ih h

/-- What only the lower tree has is seen, where the way there is not blocked. -/
theorem overlay_lower (absent : upper.lookup path = none)
    (open_ : ∀ before n after, path = before ++ n :: after →
      upper.lookup before = none ∨ upper.lookup before = some .dir) :
    overlay path upper lower = lower.lookup path := by
  induction path generalizing upper lower with
  | nil => cases absent
  | cons n path ih =>
    cases found : upper.find n with
    | none => exact overlay_cons_of_none found
    | some e =>
      cases path with
      | nil =>
        rw [Dir.lookup_cons, found] at absent
        cases absent
      | cons m path =>
        have here := open_ [n] m path rfl
        rw [Dir.lookup_cons, found] at here
        cases e with
        | file content => simp [Entry.lookup, Entry.kind] at here
        | link leads => simp [Entry.lookup, Entry.kind] at here
        | dir inner =>
          rw [overlay_cons_of_dir found, ih, Dir.lookup_sub]
          · rw [Dir.lookup_cons_of_dir found] at absent
            exact absent
          · intro before k after split
            have := open_ (n :: before) k after (by rw [split]; rfl)
            rwa [Dir.lookup_cons_of_dir found] at this

/-! ### Changing a directory -/

/-- What stands below the entry is in order. -/
def Entry.Ordered [LT N] (Q : N → Prop) : Entry N C → Prop
  | .dir inner => inner.Ordered Q
  | _ => True

section Put

variable [LT N] {Q : N → Prop} {e : Entry N C}

omit [DecidableEq N] in
theorem Dir.ordered_cons (valid : Q n) (below : e.Ordered Q) (least : ∀ m ∈ d.names, n < m)
    (others : d.Ordered Q) : (cons n e d).Ordered Q := by
  cases e with
  | file content => exact ⟨valid, least, others⟩
  | link leads => exact ⟨valid, least, others⟩
  | dir inner => exact ⟨valid, least, below, others⟩

variable [IsTrans N (· < ·)]

omit [DecidableEq N] in
theorem least_of_lt {name : N} {names : List N} (less : n < name) (least : ∀ m ∈ names, name < m) :
    ∀ m ∈ name :: names, n < m :=
  List.forall_mem_cons.mpr ⟨less, fun m mem => trans_of (· < ·) less (least m mem)⟩

variable [DecidableLT N]

omit [IsTrans N (· < ·)] in
theorem Dir.mem_names_put {m : N} (mem : m ∈ (d.put n e).names) : m = n ∨ m ∈ d.names := by
  induction d with
  | empty => cases e <;> simpa [put, cons, names] using mem
  | file name _ rest ih | link name _ rest ih | dir name _ rest _ ih =>
    unfold put at mem
    split at mem
    · cases e <;> exact List.mem_cons.mp mem
    split at mem
    · rename_i same
      cases e <;> exact (List.mem_cons.mp mem).imp_right (List.mem_cons_of_mem _)
    · rcases List.mem_cons.mp mem with rfl | mem
      · exact .inr List.mem_cons_self
      · exact (ih mem).imp_right (List.mem_cons_of_mem _)

variable [Std.Trichotomous (α := N) (· < ·)]

/-- Putting an entry in its place keeps the order. -/
theorem Dir.Ordered.put (h : d.Ordered Q) (valid : Q n) (below : e.Ordered Q) :
    (d.put n e).Ordered Q := by
  induction d with
  | empty => exact ordered_cons valid below nofun trivial
  | file name content rest ih | link name content rest ih =>
    have ⟨here, least, others⟩ := h
    unfold Dir.put
    split
    · rename_i less
      exact ordered_cons valid below (least_of_lt less least) h
    split
    · rename_i same
      exact ordered_cons valid below (same ▸ least) others
    · rename_i notLess other
      refine ⟨here, fun m mem => ?_, ih others⟩
      rcases mem_names_put mem with rfl | mem
      · by_contra notGreater
        exact other (Std.Trichotomous.trichotomous _ _ notGreater notLess)
      · exact least m mem
  | dir name inner rest _ ih =>
    have ⟨here, least, inside, others⟩ := h
    unfold Dir.put
    split
    · rename_i less
      exact ordered_cons valid below (least_of_lt less least) h
    split
    · rename_i same
      exact ordered_cons valid below (same ▸ least) others
    · rename_i notLess other
      refine ⟨here, fun m mem => ?_, inside, ih others⟩
      rcases mem_names_put mem with rfl | mem
      · by_contra notGreater
        exact other (Std.Trichotomous.trichotomous _ _ notGreater notLess)
      · exact least m mem

/-- Making directories keeps the order. -/
theorem Dir.Ordered.makeDirs {path : List N} (h : d.Ordered Q) (valid : ∀ n ∈ path, Q n) :
    (d.makeDirs path).Ordered Q := by
  induction path generalizing d with
  | nil => exact h
  | cons n path ih =>
    obtain ⟨first, others⟩ := List.forall_mem_cons.mp valid
    unfold Dir.makeDirs
    split
    · exact h.put first (ih (d := .empty) trivial others)
    · rename_i inner found
      exact h.put first (ih ((h.of_find found).2 inner rfl) others)
    · exact h

end Put

/-! ### Copying -/

/-- One directory behind another. -/
def Dir.append : Dir N C → Dir N C → Dir N C
  | .empty, d => d
  | .file name content rest, d => .file name content (rest.append d)
  | .link name leads rest, d => .link name leads (rest.append d)
  | .dir name inner rest, d => .dir name inner (rest.append d)

/-- Copy every entry to a directory, directories entry by entry. -/
def Dir.copyOnto [LT N] [DecidableLT N] : Dir N C → Dir N C → Dir N C
  | .empty, d => d
  | .file name content rest, d => rest.copyOnto (d.put name (.file content))
  | .link name leads rest, d => rest.copyOnto (d.put name (.link leads))
  | .dir name inner rest, d => rest.copyOnto (d.put name (.dir (inner.copyOnto (d.sub name))))

section Copy

variable {n : N} {e : Entry N C} {d d' d'' : Dir N C}

omit [DecidableEq N] in
theorem Dir.append_empty : d.append .empty = d := by
  induction d with
  | empty => rfl
  | file name content rest ih | link name leads rest ih | dir name inner rest _ ih =>
    rw [append, ih]

omit [DecidableEq N] in
theorem Dir.append_assoc : (d.append d').append d'' = d.append (d'.append d'') := by
  induction d with
  | empty => rfl
  | file name content rest ih | link name leads rest ih | dir name inner rest _ ih =>
    rw [append, append, append, ih]

omit [DecidableEq N] in
theorem Dir.names_append : (d.append d').names = d.names ++ d'.names := by
  induction d with
  | empty => rfl
  | file name content rest ih | link name leads rest ih | dir name inner rest _ ih =>
    rw [append, names, names, ih, List.cons_append]

omit [DecidableEq N] in
theorem Dir.names_cons : (cons n e d).names = n :: d.names := by
  cases e <;> rfl

variable [LT N]

omit [DecidableEq N] in
theorem Dir.behind_next {name : N} {names : List N}
    (behind : ∀ m ∈ d'.names, ∀ n ∈ name :: names, m < n) (least : ∀ m ∈ names, name < m) :
    ∀ m ∈ (d'.append (cons name e .empty)).names, ∀ n ∈ names, m < n := by
  rw [names_append, names_cons]
  intro m mem n later
  rcases List.mem_append.mp mem with mem | mem
  · exact behind m mem n (List.mem_cons_of_mem _ later)
  · rw [List.mem_singleton.mp mem]
    exact least n later

variable [DecidableLT N] [Std.Asymm (α := N) (· < ·)]

theorem Dir.put_last (last : ∀ m ∈ d.names, m < n) : d.put n e = d.append (cons n e .empty) := by
  induction d with
  | empty => rfl
  | file name content rest ih | link name leads rest ih | dir name inner rest _ ih =>
    obtain ⟨less, later⟩ := List.forall_mem_cons.mp last
    have other : name ≠ n := by
      rintro rfl
      exact Std.Asymm.asymm _ _ less less
    rw [put, if_neg (Std.Asymm.asymm _ _ less), if_neg other, ih later, append]

/-- What is copied behind everything that is there stands there as it was. -/
theorem Dir.copyOnto_eq_append {Q : N → Prop} (h : d.Ordered Q)
    (behind : ∀ m ∈ d'.names, ∀ n ∈ d.names, m < n) : d.copyOnto d' = d'.append d := by
  induction d generalizing d' with
  | empty => exact append_empty.symm
  | file name content rest ih | link name leads rest ih =>
    obtain ⟨-, least, others⟩ := h
    have here : ∀ m ∈ d'.names, m < name := fun m mem => behind m mem name List.mem_cons_self
    rw [copyOnto, put_last here, ih others (behind_next behind least), append_assoc]
    rfl
  | dir name inner rest ihInner ih =>
    obtain ⟨-, least, inside, others⟩ := h
    have here : ∀ m ∈ d'.names, m < name := fun m mem => behind m mem name List.mem_cons_self
    have fresh : d'.sub name = .empty := by
      have : name ∉ d'.names := fun mem => Std.Asymm.asymm _ _ (here _ mem) (here _ mem)
      rw [sub, find_eq_none this]
    have alone : ∀ m ∈ (Dir.empty : Dir N C).names, ∀ n ∈ inner.names, m < n := nofun
    rw [copyOnto, fresh, ihInner inside alone, put_last here,
      ih others (behind_next behind least), append_assoc]
    rfl

/-- A copy to an empty directory is the same. -/
theorem Dir.copyOnto_empty {Q : N → Prop} (h : d.Ordered Q) : d.copyOnto .empty = d := by
  have nothing : ∀ m ∈ (Dir.empty : Dir N C).names, ∀ n ∈ d.names, m < n := nofun
  exact copyOnto_eq_append h nothing

end Copy

/-! ### The entry at a path -/

/-- What stands at a path, with what is below it. -/
def Entry.at : List N → Entry N C → Option (Entry N C)
  | [], e => some e
  | n :: path, .dir inner => (inner.find n).bind (Entry.at path)
  | _ :: _, _ => none

/-! ### Looking up what was put -/

theorem Dir.find_cons {n m : N} {e : Entry N C} :
    (cons n e d).find m = if n = m then some e else d.find m := by
  cases e <;> rfl

section FindPut

variable [LT N] [DecidableLT N] {e : Entry N C}

theorem Dir.find_put_self : (d.put n e).find n = some e := by
  induction d with
  | empty => rw [put, find_cons, if_pos rfl]
  | file name _ rest ih | link name _ rest ih | dir name _ rest _ ih =>
    unfold put
    split
    · rw [find_cons, if_pos rfl]
    split
    · rw [find_cons, if_pos rfl]
    · rename_i other
      rw [find, if_neg other, ih]

theorem Dir.find_put_of_ne {m : N} (other : n ≠ m) : (d.put n e).find m = d.find m := by
  induction d with
  | empty => rw [put, find_cons, if_neg other]
  | file name _ rest ih | link name _ rest ih | dir name _ rest _ ih =>
    unfold put
    split
    · rw [find_cons, if_neg other]
    split
    · rename_i same
      rw [find_cons, if_neg other, find, if_neg (same ▸ other)]
    · rw [find, find, ih]

end FindPut

end Apm.Lib.FileTree
