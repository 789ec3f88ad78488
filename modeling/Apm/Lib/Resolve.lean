import Apm.Lib.Walk

/-!
How a system resolves paths in a tree with symbolic links, and what becomes of that when nodes are
deleted.

The walk follows at most so many links. All names of a path but the last have to be directories;
what is done with the last one depends on the call.

## Main results

* `walk_split`: a path is walked up to any of its steps, and on from there;
* `walk_shrinks`: in a smaller tree a path leads to the same place, or to none.
-/

namespace Apm.Lib.Resolve

open Apm.Lib.Walk

variable {α : Type*}

inductive Node (α : Type*) where
  | file
  | dir
  | link (target : Target α)
deriving DecidableEq

/-- A tree of nodes below a root. Directories list their names in some order. -/
structure Tree (α : Type*) where
  node : Loc α → Option (Node α)
  names : Loc α → List α
  depth : Nat
  root : node [] = some .dir
  listed : ∀ name loc, (node (name :: loc)).isSome → node loc = some .dir ∧ name ∈ names loc
  bound : ∀ loc, (node loc).isSome → loc.length ≤ depth

inductive Errno where
  | ENOENT | ENOTDIR | ELOOP | EISDIR | ENOTEMPTY | EINVAL | EBUSY | EACCES
deriving DecidableEq

namespace Tree

variable (t : Tree α)

/-! ### Walking -/

/-- Walk from a directory; what is done at a link is given. -/
def walkWith (onLink : Loc α → Target α → List (Step α) → Except Errno (Loc α)) :
    Loc α → List (Step α) → Except Errno (Loc α)
  | loc, [] => .ok loc
  | loc, .stay :: rest => walkWith onLink loc rest
  | loc, .up :: rest => walkWith onLink loc.tail rest
  | loc, .down name :: rest =>
      match t.node (name :: loc) with
      | none => .error .ENOENT
      | some .dir => walkWith onLink (name :: loc) rest
      | some .file => if rest.isEmpty then .ok (name :: loc) else .error .ENOTDIR
      | some (.link target) => onLink loc target rest

/-- Walk from a directory through at most so many links. -/
def walk : Nat → Loc α → List (Step α) → Except Errno (Loc α)
  | 0 => t.walkWith fun _ _ _ => .error .ELOOP
  | links + 1 => t.walkWith fun loc target rest =>
      walk links (target.start loc) (target.steps ++ rest)

variable {t} {links : Nat} {loc : Loc α} {name : α} {rest : List (Step α)}

@[simp] theorem walk_nil : t.walk links loc [] = .ok loc := by cases links <;> rfl

@[simp] theorem walk_stay : t.walk links loc (.stay :: rest) = t.walk links loc rest := by
  cases links <;> rfl

@[simp] theorem walk_up : t.walk links loc (.up :: rest) = t.walk links loc.tail rest := by
  cases links <;> rfl

theorem walk_none (absent : t.node (name :: loc) = none) :
    t.walk links loc (.down name :: rest) = .error .ENOENT := by
  cases links <;> rw [walk, walkWith, absent]

theorem walk_dir (dir : t.node (name :: loc) = some .dir) :
    t.walk links loc (.down name :: rest) = t.walk links (name :: loc) rest := by
  cases links <;> rw [walk, walkWith, dir]

theorem walk_file (file : t.node (name :: loc) = some .file) :
    t.walk links loc (.down name :: rest) =
      if rest.isEmpty then .ok (name :: loc) else .error .ENOTDIR := by
  cases links <;> rw [walk, walkWith, file]

theorem walk_link_zero {target : Target α} (link : t.node (name :: loc) = some (.link target)) :
    t.walk 0 loc (.down name :: rest) = .error .ELOOP := by
  rw [walk, walkWith, link]

theorem walk_link {target : Target α} (link : t.node (name :: loc) = some (.link target)) :
    t.walk (links + 1) loc (.down name :: rest) =
      t.walk links (target.start loc) (target.steps ++ rest) := by
  rw [walk, walkWith, link]

theorem dir_tail (dir : t.node loc = some .dir) : t.node loc.tail = some .dir := by
  cases loc with
  | nil => exact dir
  | cons name loc => exact (t.listed name loc (by rw [dir]; rfl)).1

theorem dir_start (dir : t.node loc = some .dir) (target : Target α) :
    t.node (target.start loc) = some .dir := by
  unfold Target.start
  split
  · exact t.root
  · exact dir

/-- Induction along a walk: over the links that may still be followed and, for each number of them,
over the steps. -/
theorem walk_induction (t : Tree α) {motive : Nat → Loc α → List (Step α) → Prop}
    (nil : ∀ links loc, t.node loc = some .dir → motive links loc [])
    (stay : ∀ links loc rest, motive links loc rest → motive links loc (.stay :: rest))
    (up : ∀ links loc rest, motive links loc.tail rest → motive links loc (.up :: rest))
    (absent : ∀ links loc name rest, t.node (name :: loc) = none →
      motive links loc (.down name :: rest))
    (file : ∀ links loc name rest, t.node (name :: loc) = some .file →
      motive links loc (.down name :: rest))
    (dir : ∀ links loc name rest, t.node (name :: loc) = some .dir →
      motive links (name :: loc) rest → motive links loc (.down name :: rest))
    (last : ∀ loc name rest target, t.node (name :: loc) = some (.link target) →
      motive 0 loc (.down name :: rest))
    (link : ∀ links loc name rest target, t.node (name :: loc) = some (.link target) →
      motive links (target.start loc) (target.steps ++ rest) →
      motive (links + 1) loc (.down name :: rest))
    {loc : Loc α} (start : t.node loc = some .dir) (links : Nat) (steps : List (Step α)) :
    motive links loc steps := by
  induction links using Nat.strongRecOn generalizing loc steps with
  | ind links outer =>
    induction steps generalizing loc with
    | nil => exact nil links loc start
    | cons step rest ih =>
      cases step with
      | stay => exact stay links loc rest (ih start)
      | up => exact up links loc rest (ih (dir_tail start))
      | down name =>
        cases here : t.node (name :: loc) with
        | none => exact absent links loc name rest here
        | some node =>
          cases node with
          | file => exact file links loc name rest here
          | dir => exact dir links loc name rest here (ih here)
          | link target =>
            cases links with
            | zero => exact last loc name rest target here
            | succ links =>
              exact link links loc name rest target here
                (outer links (Nat.lt_succ_self links) (dir_start start target) _)

/-- The first part of a path fails, or leads to a directory from which the walk goes on. -/
theorem walk_split (start : t.node loc = some .dir) (links : Nat) (steps : List (Step α)) :
    (∃ e, ∀ step rest, t.walk links loc (steps ++ step :: rest) = .error e) ∨
      ∃ place left, t.node place = some .dir ∧ ∀ step rest,
        t.walk links loc (steps ++ step :: rest) = t.walk left place (step :: rest) := by
  refine t.walk_induction (motive := fun links loc steps =>
    (∃ e, ∀ step rest, t.walk links loc (steps ++ step :: rest) = .error e) ∨
      ∃ place left, t.node place = some .dir ∧ ∀ step rest,
        t.walk links loc (steps ++ step :: rest) = t.walk left place (step :: rest))
    ?nil ?stay ?up ?absent ?file ?dir ?last ?link start links steps
  case nil => exact fun links loc dir => .inr ⟨loc, links, dir, fun _ _ => rfl⟩
  case stay =>
    intro links loc rest ih
    simpa only [List.cons_append, walk_stay] using ih
  case up =>
    intro links loc rest ih
    simpa only [List.cons_append, walk_up] using ih
  case absent => exact fun links loc name rest here => .inl ⟨_, fun _ _ => walk_none here⟩
  case file =>
    refine fun links loc name rest here => .inl ⟨.ENOTDIR, fun step more => ?_⟩
    rw [List.cons_append, walk_file here, if_neg (by simp)]
  case dir =>
    intro links loc name rest here ih
    simpa only [List.cons_append, walk_dir here] using ih
  case last => exact fun loc name rest target here => .inl ⟨_, fun _ _ => walk_link_zero here⟩
  case link =>
    intro links loc name rest target here ih
    simpa only [List.cons_append, walk_link here, List.append_assoc] using ih

/-- The place, if it is a directory. -/
def asDir (t : Tree α) (place : Loc α) : Except Errno (Loc α) :=
  match t.node place with
  | some .dir => .ok place
  | _ => .error .ENOTDIR

/-- A path with a slash behind it leads to a directory. -/
theorem walk_concat_stay (start : t.node loc = some .dir) (links : Nat) (steps : List (Step α)) :
    t.walk links loc (steps ++ [.stay]) = (t.walk links loc steps).bind t.asDir := by
  refine t.walk_induction (motive := fun links loc steps =>
    t.walk links loc (steps ++ [.stay]) = (t.walk links loc steps).bind t.asDir)
    ?nil ?stay ?up ?absent ?file ?dir ?last ?link start links steps
  case nil =>
    intro links loc dir
    rw [List.nil_append, walk_stay, walk_nil, Except.bind, asDir, dir]
  case stay =>
    intro links loc rest ih
    rwa [List.cons_append, walk_stay, walk_stay]
  case up =>
    intro links loc rest ih
    rwa [List.cons_append, walk_up, walk_up]
  case absent =>
    intro links loc name rest here
    rw [List.cons_append, walk_none here, walk_none here]
    rfl
  case file =>
    intro links loc name rest here
    rw [List.cons_append, walk_file here, walk_file here, if_neg (by simp)]
    cases rest with
    | nil => simp [Except.bind, asDir, here]
    | cons step rest => rfl
  case dir =>
    intro links loc name rest here ih
    rwa [List.cons_append, walk_dir here, walk_dir here]
  case last =>
    intro loc name rest target here
    rw [List.cons_append, walk_link_zero here, walk_link_zero here]
    rfl
  case link =>
    intro links loc name rest target here ih
    rwa [List.cons_append, walk_link here, walk_link here, ← List.append_assoc]

/-! ### Deletions -/

/-- Nothing is new in the smaller tree. -/
structure Shrinks (t t' : Tree α) : Prop where
  node : ∀ loc kind, t'.node loc = some kind → t.node loc = some kind
  names : t'.names = t.names
  depth : t'.depth = t.depth

theorem Shrinks.refl (t : Tree α) : Shrinks t t := ⟨fun _ _ h => h, rfl, rfl⟩

theorem Shrinks.trans {t t' t'' : Tree α} (h : Shrinks t t') (h' : Shrinks t' t'') :
    Shrinks t t'' :=
  ⟨fun loc kind found => h.node loc kind (h'.node loc kind found), h'.names.trans h.names,
    h'.depth.trans h.depth⟩

/-- In a smaller tree a node is the same or gone. -/
theorem Shrinks.same_or_gone {t t' : Tree α} (h : Shrinks t t') (loc : Loc α) :
    t'.node loc = t.node loc ∨ t'.node loc = none := by
  cases here : t'.node loc with
  | none => exact .inr rfl
  | some kind => exact .inl (h.node loc kind here).symm

/-- **In a smaller tree a path leads to the same place, or to none.** -/
theorem walk_shrinks {t' : Tree α} (less : Shrinks t t') (start : t'.node loc = some .dir)
    (links : Nat) (steps : List (Step α)) :
    t'.walk links loc steps = t.walk links loc steps ∨
      t'.walk links loc steps = .error .ENOENT := by
  refine t'.walk_induction (motive := fun links loc steps =>
    t'.walk links loc steps = t.walk links loc steps ∨ t'.walk links loc steps = .error .ENOENT)
    ?nil ?stay ?up ?absent ?file ?dir ?last ?link start links steps
  case nil => exact fun links loc dir => .inl (by rw [walk_nil, walk_nil])
  case stay =>
    intro links loc rest ih
    simpa only [walk_stay] using ih
  case up =>
    intro links loc rest ih
    simpa only [walk_up] using ih
  case absent => exact fun links loc name rest here => .inr (walk_none here)
  case file =>
    intro links loc name rest here
    rw [walk_file here, walk_file (less.node _ _ here)]
    exact .inl rfl
  case dir =>
    intro links loc name rest here ih
    rwa [walk_dir here, walk_dir (less.node _ _ here)]
  case last =>
    intro loc name rest target here
    rw [walk_link_zero here, walk_link_zero (less.node _ _ here)]
    exact .inl rfl
  case link =>
    intro links loc name rest target here ih
    rwa [walk_link here, walk_link (less.node _ _ here)]

variable (t) in
/-- The names that a directory lists. -/
def listing (loc : Loc α) : List α := (t.names loc).filter fun name => (t.node (name :: loc)).isSome

theorem mem_listing {loc : Loc α} {name : α} :
    name ∈ t.listing loc ↔ (t.node (name :: loc)).isSome := by
  rw [listing, List.mem_filter]
  exact ⟨fun h => h.2, fun h => ⟨(t.listed name loc h).2, h⟩⟩

section Delete

variable [DecidableEq α] (t : Tree α)

/-- Delete a node that has nothing below it. -/
def delete (loc : Loc α) : Tree α :=
  if leaf : (t.listing loc).isEmpty ∧ loc ≠ [] then
    { t with
      node := fun l => if l = loc then none else t.node l
      root := by rw [if_neg (Ne.symm leaf.2), t.root]
      listed := by
        intro name l there
        by_cases self : name :: l = loc
        · rw [if_pos self] at there
          cases there
        · rw [if_neg self] at there
          have above : l ≠ loc := by
            rintro rfl
            have mem := mem_listing.mpr there
            rw [List.isEmpty_iff.mp leaf.1] at mem
            cases mem
          rw [if_neg above]
          exact t.listed name l there
      bound := by
        intro l there
        by_cases self : l = loc
        · rw [if_pos self] at there
          cases there
        · rw [if_neg self] at there
          exact t.bound l there }
  else t

variable {t}

theorem delete_node {loc : Loc α} (leaf : t.listing loc = []) (notRoot : loc ≠ []) (l : Loc α) :
    (t.delete loc).node l = if l = loc then none else t.node l := by
  unfold delete
  rw [dif_pos ⟨by rw [leaf]; rfl, notRoot⟩]

theorem delete_shrinks (loc : Loc α) : Shrinks t (t.delete loc) := by
  unfold delete
  split
  · refine ⟨fun l kind found => ?_, rfl, rfl⟩
    dsimp only at found
    split at found
    · cases found
    · exact found
  · exact Shrinks.refl t

/-- Nothing else is deleted. -/
theorem delete_other {loc l : Loc α} (other : l ≠ loc) : (t.delete loc).node l = t.node l := by
  unfold delete
  split
  · exact if_neg other
  · rfl

end Delete

end Tree

/-! ### System calls -/

/-- A path: the steps to its last component, that component, which the root does not have, and
whether a slash stands behind it. -/
@[ext] structure Path (α : Type*) where
  init : List (Step α)
  last : Option (Step α)
  slashed : Bool
  root : last = none → init = []

namespace Path

/-- The slash behind a path. -/
def slash (p : Path α) : List (Step α) := if p.slashed then [.stay] else []

def steps (p : Path α) : List (Step α) := p.init ++ (p.last.toList ++ p.slash)

/-- The path of a name in a directory. -/
def child (p : Path α) (name : α) : Path α :=
  ⟨p.init ++ p.last.toList, some (.down name), false, nofun⟩

end Path

/-- So many links may a system call follow. -/
def maxLinks : Nat := 40

namespace Tree

variable (t : Tree α) (p : Path α)

def stat : Except Errno (Loc α) := t.walk maxLinks [] p.steps

/-- The directory that the last component is looked up in. -/
def parent : Except Errno (Loc α) := t.walk maxLinks [] (p.init ++ [.stay])

/-- The node that the last component names, whatever it is. -/
def entry : Except Errno (Loc α) :=
  match p.last with
  | some (.down name) => (t.parent p).bind fun dir =>
      if (t.node (name :: dir)).isSome then .ok (name :: dir) else .error .ENOENT
  | some .up => (t.parent p).map List.tail
  | _ => t.parent p

def lstat : Except Errno (Loc α) := if p.slashed then t.stat p else t.entry p

section Permits

variable (deletes opens : Loc α → Bool)

/-- The node that `unlink` deletes. -/
def unlink : Except Errno (Loc α) :=
  (t.parent p).bind fun dir =>
    match p.last with
    | some (.down name) =>
        match t.node (name :: dir) with
        | none => .error .ENOENT
        | some .dir => .error .EISDIR
        | some _ =>
            if p.slashed then .error .ENOTDIR
            else if deletes (name :: dir) then .ok (name :: dir)
            else .error .EACCES
    | _ => .error .EISDIR

/-- The directory that `rmdir` deletes. -/
def rmdir : Except Errno (Loc α) :=
  (t.parent p).bind fun dir =>
    match p.last with
    | some (.down name) =>
        match t.node (name :: dir) with
        | none => .error .ENOENT
        | some .dir =>
            if !(t.listing (name :: dir)).isEmpty then .error .ENOTEMPTY
            else if deletes (name :: dir) then .ok (name :: dir)
            else .error .EACCES
        | some _ => .error .ENOTDIR
    | some .stay => .error .EINVAL
    | some .up => .error .ENOTEMPTY
    | none => .error .EBUSY

/-- The directory that `opendir` opens. -/
def opendir : Except Errno (Loc α) :=
  (t.stat p).bind fun loc => (t.asDir loc).bind fun loc =>
    if opens loc then .ok loc else .error .EACCES

end Permits

variable {t p}

theorem parent_ok {dir : Loc α} (h : t.parent p = .ok dir) :
    t.node dir = some .dir ∧ ∃ left, ∀ step rest,
      t.walk maxLinks [] (p.init ++ step :: rest) = t.walk left dir (step :: rest) := by
  rcases walk_split t.root maxLinks p.init with ⟨e, fails⟩ | ⟨place, left, there, goes⟩
  · rw [parent, fails] at h
    cases h
  · rw [parent, goes, walk_stay, walk_nil] at h
    cases h
    exact ⟨there, left, goes⟩

theorem parent_error {e : Errno} (h : t.parent p = .error e) (step : Step α)
    (rest : List (Step α)) : t.walk maxLinks [] (p.init ++ step :: rest) = .error e := by
  rcases walk_split t.root maxLinks p.init with ⟨e', fails⟩ | ⟨place, left, there, goes⟩
  · rw [parent, fails] at h
    rw [fails, h]
  · rw [parent, goes, walk_stay, walk_nil] at h
    cases h

theorem parent_shrinks {t' : Tree α} (less : Shrinks t t') :
    t'.parent p = t.parent p ∨ t'.parent p = .error .ENOENT :=
  walk_shrinks less t'.root maxLinks _

theorem parent_of_entry {e : Loc α} (h : t.entry p = .ok e) : ∃ dir, t.parent p = .ok dir := by
  cases found : t.parent p with
  | ok dir => exact ⟨dir, rfl⟩
  | error e' =>
    rw [entry, found] at h
    split at h <;> cases h

theorem entry_isSome {e : Loc α} (h : t.entry p = .ok e) : (t.node e).isSome := by
  obtain ⟨dir, found⟩ := parent_of_entry h
  have there := (parent_ok found).1
  rw [entry, found] at h
  split at h
  · dsimp only [Except.bind] at h
    split at h
    · rename_i here
      cases h
      exact here
    · cases h
  · cases h
    rw [dir_tail there]
    rfl
  · cases h
    rw [there]
    rfl

/-- In a smaller tree the last component names the same node, or none. -/
theorem entry_shrinks {t' : Tree α} (less : Shrinks t t') :
    t'.entry p = t.entry p ∨ t'.entry p = .error .ENOENT := by
  unfold entry
  rcases parent_shrinks (p := p) less with same | gone
  · rw [same]
    split
    · cases t.parent p with
      | error e => exact .inl rfl
      | ok dir =>
        rename_i name last
        dsimp only [Except.bind]
        rcases less.same_or_gone (name :: dir) with same | gone
        · rw [same]
          exact .inl rfl
        · rw [gone]
          exact .inr rfl
    · exact .inl rfl
    · exact .inl rfl
  · rw [gone]
    split <;> exact .inr rfl

/-- Where something is deleted, nothing is left. -/
theorem entry_gone {t' : Tree α} (less : Shrinks t t') {e : Loc α} (h : t.entry p = .ok e)
    (gone : t'.node e = none) (e' : Loc α) : t'.entry p ≠ .ok e' := by
  intro found
  rcases entry_shrinks (p := p) less with same | lost
  · rw [found, h] at same
    cases same
    have there := entry_isSome found
    rw [gone] at there
    cases there
  · rw [lost] at found
    cases found

theorem last_cases (p : Path α) : (∃ name, p.last = some (.down name)) ∨
    p.last = some .up ∨ p.last = some .stay ∨ p.last = none := by
  cases p.last with
  | none => exact .inr (.inr (.inr rfl))
  | some step =>
    cases step with
    | down name => exact .inl ⟨name, rfl⟩
    | up => exact .inr (.inl rfl)
    | stay => exact .inr (.inr (.inl rfl))

/-- The node that the last component names, once its directory is found. -/
theorem entry_of_parent {dir : Loc α} (h : t.parent p = .ok dir)
    (there : ∀ name, p.last = some (.down name) → (t.node (name :: dir)).isSome) :
    ∃ e, t.entry p = .ok e := by
  unfold entry
  rw [h]
  rcases last_cases p with ⟨name, last⟩ | last | last | last
  · rw [last]
    exact ⟨name :: dir, if_pos (there name last)⟩
  · exact ⟨dir.tail, by rw [last]; rfl⟩
  · exact ⟨dir, by rw [last]⟩
  · exact ⟨dir, by rw [last]⟩

theorem stat_of_last {step : Step α} (last : p.last = some step) :
    t.stat p = t.walk maxLinks [] (p.init ++ step :: p.slash) := by
  rw [stat, Path.steps, last]
  rfl

theorem stat_root (last : p.last = none) : t.stat p = .ok [] := by
  rw [stat, Path.steps, last, p.root last, Path.slash]
  split
  · exact walk_stay.trans walk_nil
  · exact walk_nil

theorem parent_root (last : p.last = none) : t.parent p = .ok [] := by
  rw [parent, p.root last]
  exact walk_stay.trans walk_nil

/-- Without the directory of the last component there is nothing to find. -/
theorem parent_of_stat {loc : Loc α} (h : t.stat p = .ok loc) : ∃ dir, t.parent p = .ok dir := by
  cases last : p.last with
  | none => exact ⟨[], parent_root last⟩
  | some step =>
    cases found : t.parent p with
    | ok dir => exact ⟨dir, rfl⟩
    | error e =>
      rw [stat_of_last last, parent_error found] at h
      cases h

/-- What `stat` finds has an entry. -/
theorem entry_of_stat {loc : Loc α} (h : t.stat p = .ok loc) : ∃ e, t.entry p = .ok e := by
  obtain ⟨dir, found⟩ := parent_of_stat h
  refine entry_of_parent found fun name last => ?_
  obtain ⟨-, left, goes⟩ := parent_ok found
  rw [stat_of_last last, goes] at h
  cases here : t.node (name :: dir) with
  | none =>
    rw [walk_none here] at h
    cases h
  | some node => rfl

theorem walk_slash {left : Nat} {place : Loc α} : t.walk left place p.slash = .ok place := by
  unfold Path.slash
  split
  · exact walk_stay.trans walk_nil
  · exact walk_nil

theorem asDir_of_dir {place : Loc α} (dir : t.node place = some .dir) :
    t.asDir place = .ok place := by
  rw [asDir, dir]

theorem asDir_ok {place loc : Loc α} (h : t.asDir place = .ok loc) :
    loc = place ∧ t.node place = some .dir := by
  unfold asDir at h
  split at h
  · rename_i dir
    exact ⟨(Except.ok.inj h).symm, dir⟩
  · cases h

/-- What is no link is what `stat` finds, unless a slash asks for a directory. -/
theorem stat_plain {e : Loc α} (h : t.entry p = .ok e)
    (plain : ∀ target, t.node e ≠ some (.link target)) :
    t.stat p = if p.slashed then t.asDir e else .ok e := by
  have there := entry_isSome h
  obtain ⟨dir, found⟩ := parent_of_entry h
  obtain ⟨isDir, left, goes⟩ := parent_ok found
  rw [entry, found] at h
  rcases last_cases p with ⟨name, last⟩ | last | last | last
  · rw [last] at h
    have same : name :: dir = e := by
      dsimp only [Except.bind] at h
      split at h
      · exact Except.ok.inj h
      · cases h
    subst same
    rw [stat_of_last last, goes]
    cases here : t.node (name :: dir) with
    | none => simp [here] at there
    | some node =>
      cases node with
      | dir => rw [walk_dir here, walk_slash, asDir_of_dir here, ite_self]
      | link target => exact absurd here (plain target)
      | file =>
        rw [walk_file here, asDir, here, Path.slash]
        cases p.slashed <;> rfl
  · rw [last] at h
    cases h
    rw [stat_of_last last, goes, walk_up, walk_slash, asDir_of_dir (dir_tail isDir), ite_self]
  · rw [last] at h
    cases h
    rw [stat_of_last last, goes, walk_stay, walk_slash, asDir_of_dir isDir, ite_self]
  · rw [last] at h
    rw [parent_root last] at found
    cases h
    cases found
    rw [stat_root last, asDir_of_dir isDir, ite_self]

theorem opendir_ok {opens : Loc α → Bool} {loc : Loc α} :
    t.opendir p opens = .ok loc ↔
      t.stat p = .ok loc ∧ t.node loc = some .dir ∧ opens loc = true := by
  unfold opendir
  cases t.stat p with
  | error e => simp [Except.bind]
  | ok place =>
    dsimp only [Except.bind]
    cases isDir : t.asDir place with
    | error e =>
      refine ⟨nofun, ?_⟩
      rintro ⟨⟨⟩, dir, -⟩
      rw [asDir_of_dir dir] at isDir
      cases isDir
    | ok place' =>
      obtain ⟨rfl, dir⟩ := asDir_ok isDir
      dsimp only
      split
      · rename_i allowed
        constructor
        · rintro ⟨⟩
          exact ⟨rfl, dir, allowed⟩
        · rintro ⟨⟨⟩, -, -⟩
          rfl
      · rename_i refused
        refine ⟨nofun, ?_⟩
        rintro ⟨⟨⟩, -, allowed⟩
        exact absurd allowed refused

/-- What is opened is the entry, unless the entry is a link. -/
theorem entry_of_opendir {opens : Loc α → Bool} {loc e : Loc α} (h : t.opendir p opens = .ok loc)
    (there : t.entry p = .ok e) (plain : ∀ target, t.node e ≠ some (.link target)) : e = loc := by
  obtain ⟨found, -, -⟩ := opendir_ok.mp h
  rw [stat_plain there plain] at found
  split at found
  · exact (asDir_ok found).1.symm
  · exact Except.ok.inj found

/-- The names in a directory are looked up where its path leads. -/
theorem parent_child {loc : Loc α} (h : t.stat p = .ok loc) (dir : t.node loc = some .dir)
    (name : α) : t.parent (p.child name) = .ok loc := by
  have steps : (p.child name).init = p.init ++ p.last.toList := rfl
  rw [parent, steps]
  rw [stat, Path.steps, ← List.append_assoc, Path.slash] at h
  cases slashed : p.slashed with
  | true =>
    rw [slashed] at h
    exact h
  | false =>
    rw [slashed, if_neg nofun, List.append_nil] at h
    rw [walk_concat_stay t.root, h, Except.bind, asDir, dir]

theorem entry_child {dir : Loc α} {name : α} (h : t.parent (p.child name) = .ok dir) :
    t.entry (p.child name) =
      if (t.node (name :: dir)).isSome then .ok (name :: dir) else .error .ENOENT := by
  have last : (p.child name).last = some (.down name) := rfl
  rw [entry, last, h]
  rfl

/-! ### What is deleted -/

theorem listing_eq_nil (h : t.node loc ≠ some .dir) : t.listing loc = [] := by
  rw [List.eq_nil_iff_forall_not_mem]
  intro name mem
  exact h (t.listed name loc (mem_listing.mp mem)).1

section Deleting

variable {deletes : Loc α → Bool} {loc : Loc α}

/-- What lies below a node lies in a directory. -/
theorem dir_of_inside {e loc : Loc α} (below : Inside e loc) (ne : loc ≠ e)
    (there : (t.node loc).isSome) : t.node e = some .dir := by
  obtain ⟨names, rfl⟩ := below
  induction names with
  | nil => exact absurd rfl ne
  | cons name names ih =>
    have above := (t.listed name (names ++ e) there).1
    cases names with
    | nil => exact above
    | cons name' names =>
      refine ih (fun same => ?_) (by rw [above]; rfl)
      have lengths := congrArg List.length same
      rw [List.length_append, List.length_cons] at lengths
      omega

theorem unlink_ok (h : t.unlink p deletes = .ok loc) :
    t.entry p = .ok loc ∧ t.listing loc = [] ∧ loc ≠ [] := by
  unfold unlink at h
  cases found : t.parent p with
  | error e =>
    rw [found] at h
    cases h
  | ok dir =>
    rw [found] at h
    dsimp only [Except.bind] at h
    rcases last_cases p with ⟨name, last⟩ | last | last | last
    · rw [last] at h
      dsimp only at h
      cases here : t.node (name :: dir) with
      | none =>
        rw [here] at h
        cases h
      | some node =>
        have notDir : t.node (name :: dir) ≠ some .dir := by
          rintro isDir
          rw [isDir] at h
          cases h
        have same : name :: dir = loc := by
          rw [here] at h notDir
          cases node with
          | dir => exact absurd rfl notDir
          | file | link =>
            dsimp only at h
            split at h
            · cases h
            · split at h
              · exact Except.ok.inj h
              · cases h
        subst same
        refine ⟨?_, listing_eq_nil notDir, List.cons_ne_nil _ _⟩
        rw [entry, last, found]
        exact if_pos (by rw [here]; rfl)
    all_goals
      rw [last] at h
      cases h

theorem rmdir_ok (h : t.rmdir p deletes = .ok loc) :
    t.entry p = .ok loc ∧ t.listing loc = [] ∧ loc ≠ [] := by
  unfold rmdir at h
  cases found : t.parent p with
  | error e =>
    rw [found] at h
    cases h
  | ok dir =>
    rw [found] at h
    dsimp only [Except.bind] at h
    rcases last_cases p with ⟨name, last⟩ | last | last | last
    · rw [last] at h
      dsimp only at h
      split at h
      · cases h
      · rename_i here
        split at h
        · cases h
        · rename_i empty
          split at h
          · cases h
            refine ⟨?_, by simpa using empty, List.cons_ne_nil _ _⟩
            rw [entry, last, found]
            exact if_pos (by rw [here]; rfl)
          · cases h
      · cases h
    all_goals
      rw [last] at h
      cases h

/-- A call that does not say that nothing is there has found the entry, if its directory is
there. -/
theorem entry_of_rmdir_error {dir : Loc α} {e : Errno} (found : t.parent p = .ok dir)
    (h : t.rmdir p deletes = .error e) (other : e ≠ .ENOENT) : ∃ e, t.entry p = .ok e := by
  refine entry_of_parent found fun name last => ?_
  rw [rmdir, found] at h
  dsimp only [Except.bind] at h
  rw [last] at h
  dsimp only at h
  split at h
  · exact absurd (Except.error.inj h).symm other
  · rename_i here
    rw [here]
    rfl
  · rename_i here
    rw [here]
    rfl

/-- A call that says that nothing is there has found no entry. -/
theorem entry_of_unlink_none (h : t.unlink p deletes = .error .ENOENT) (e : Loc α) :
    t.entry p ≠ .ok e := by
  intro there
  obtain ⟨dir, found⟩ := parent_of_entry there
  rw [unlink, found] at h
  dsimp only [Except.bind] at h
  rcases last_cases p with ⟨name, last⟩ | last | last | last
  · rw [last] at h
    dsimp only at h
    split at h
    · rename_i gone
      rw [entry, last, found] at there
      simp [Except.bind, gone] at there
    · cases h
    · split at h
      · cases h
      · split at h <;> cases h
  all_goals
    rw [last] at h
    cases h

theorem entry_of_rmdir_none (h : t.rmdir p deletes = .error .ENOENT) (e : Loc α) :
    t.entry p ≠ .ok e := by
  intro there
  obtain ⟨dir, found⟩ := parent_of_entry there
  rw [rmdir, found] at h
  dsimp only [Except.bind] at h
  rcases last_cases p with ⟨name, last⟩ | last | last | last
  · rw [last] at h
    dsimp only at h
    split at h
    · rename_i gone
      rw [entry, last, found] at there
      simp [Except.bind, gone] at there
    · split at h
      · cases h
      · split at h <;> cases h
    · cases h
  all_goals
    rw [last] at h
    cases h

end Deleting

end Tree

end Apm.Lib.Resolve
