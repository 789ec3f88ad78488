import Apm.Lib.Resolve
import Apm.Util.Path

/-!
`removeDirRecursive` and `removeFile` of `src/util/fs.cpp` on trees with symbolic links, as the
system resolves their paths.

Nodes may refuse to be deleted, and directories to be opened.

## Main results

* `removeDir_enough`: the recursion ends;
* `removeDir_within`: what is removed and opened lies at or below the entry of the path;
* `removesTree_iff`: when exactly the tree of a path is removed, and nothing else.
-/

namespace Apm.Fs.Linked

open Apm.Lib.Walk Apm.Lib.Resolve

/-! ### Paths -/

def components (path : ByteString) : List ByteString :=
  (path.splitOn (chr '/')).filter fun segment => !segment.isEmpty

def parsePath (path : ByteString) : Lib.Resolve.Path ByteString where
  init := (components path).dropLast.map pathStep
  last := (components path).getLast?.map pathStep
  slashed := path.getLast? == some (chr '/')
  root := by
    intro none
    rw [Option.map_eq_none_iff, List.getLast?_eq_none_iff] at none
    rw [none]
    rfl

/-- A name that a directory can list, besides `.` and `..`. -/
structure EntryName (name : ByteString) : Prop where
  filled : name ≠ []
  noSlash : chr '/' ∉ name
  notDot : name ≠ str "."
  notDots : name ≠ str ".."

theorem components_slash (left right : ByteString) :
    components (left ++ chr '/' :: right) = components left ++ components right := by
  rw [components, List.splitOn_append_cons_self, List.filter_append]
  rfl

theorem components_name {name : ByteString} (h : EntryName name) : components name = [name] := by
  rw [components, List.splitOn_eq_singleton h.noSlash]
  exact List.filter_cons_of_pos (by simpa using h.filled)

/-- A name is put behind a directory and a slash. -/
theorem joinPath_name {path name : ByteString} (filled : path ≠ []) (h : EntryName name) :
    ∃ dir, joinPath path name = dir ++ chr '/' :: name ∧ components dir = components path := by
  have relative : ¬ (name.head? == some (chr '/')) = true := by
    intro first
    exact h.noSlash (List.mem_of_head? (eq_of_beq first))
  unfold joinPath
  rw [if_neg (by simpa using h.filled), if_neg relative, if_neg (by simpa using filled)]
  split
  · rename_i slash
    obtain ⟨dir, rfl⟩ := List.getLast?_eq_some_iff.mp (eq_of_beq slash)
    refine ⟨dir, by rw [List.append_assoc, List.singleton_append], ?_⟩
    rw [components_slash]
    exact (List.append_nil _).symm
  · exact ⟨path, by simp [str, chr], rfl⟩

theorem parsePath_joinPath {path name : ByteString} (filled : path ≠ []) (h : EntryName name) :
    parsePath (joinPath path name) = (parsePath path).child name := by
  have step : pathStep name = .down name := by
    simp [pathStep, h.filled, h.notDot, h.notDots]
  obtain ⟨dir, text, same⟩ := joinPath_name filled h
  have cs : components (joinPath path name) = components path ++ [name] := by
    rw [text, components_slash, components_name h, same]
  apply Lib.Resolve.Path.ext
  · change (components (joinPath path name)).dropLast.map pathStep =
      (components path).dropLast.map pathStep ++ ((components path).getLast?.map pathStep).toList
    rw [cs, List.dropLast_concat]
    cases last : (components path).getLast? with
    | none => simp [List.getLast?_eq_none_iff.mp last]
    | some c =>
      obtain ⟨front, split⟩ := List.getLast?_eq_some_iff.mp last
      simp [split]
  · change (components (joinPath path name)).getLast?.map pathStep = some (.down name)
    rw [cs, List.getLast?_concat, Option.map_some, step]
  · change ((joinPath path name).getLast? == some (chr '/')) = false
    rw [text, List.getLast?_append_of_ne_nil _ (List.cons_ne_nil _ _), beq_eq_false_iff_ne]
    intro last
    obtain ⟨c, name, rfl⟩ := List.exists_cons_of_ne_nil h.filled
    rw [List.getLast?_cons_cons] at last
    exact h.noSlash (List.mem_of_getLast? last)

theorem joinPath_ne_nil {path name : ByteString} (filled : path ≠ []) (h : EntryName name) :
    joinPath path name ≠ [] := by
  obtain ⟨dir, text, -⟩ := joinPath_name filled h
  simp [text]

/-! ### The file system -/

/-- A tree whose directories list names. -/
structure FileSystem where
  tree : Lib.Resolve.Tree ByteString
  named : ∀ loc, ∀ name ∈ tree.names loc, EntryName name

/-- Which nodes can be deleted and which directories opened. -/
structure Permits where
  deletes : Loc ByteString → Bool
  opens : Loc ByteString → Bool

/-- The file system, and the directories that were opened. -/
structure Visit where
  fs : FileSystem
  opened : List (Loc ByteString) := []

namespace FileSystem

variable (fs : FileSystem) (path : ByteString)

def delete (loc : Loc ByteString) : FileSystem where
  tree := fs.tree.delete loc
  named := by
    rw [(Tree.delete_shrinks loc).names]
    exact fs.named

variable {fs} in
theorem named_listing {loc : Loc ByteString} {name : ByteString}
    (mem : name ∈ fs.tree.listing loc) : EntryName name :=
  fs.named loc name (List.mem_filter.mp mem).1

def statPath : Except Errno (Loc ByteString) :=
  if path.isEmpty then .error .ENOENT else fs.tree.stat (parsePath path)

def pathExists : Bool :=
  match fs.statPath path with
  | .ok _ => true
  | .error _ => false

/-- The node that stands at a path: the one that its last component names. -/
def entryAt : Except Errno (Loc ByteString) :=
  if path.isEmpty then .error .ENOENT else fs.tree.entry (parsePath path)

end FileSystem

section Removal

variable (permits : Permits)

def removeFile (x : Visit) (path : ByteString) : Bool × Visit :=
  if path.isEmpty then (false, x)
  else
    match x.fs.tree.unlink (parsePath path) permits.deletes with
    | .ok loc => (true, { x with fs := x.fs.delete loc })
    | .error .ENOENT => (true, x)
    | .error _ => (false, x)

/-- The removal of a child, given the removal of directories. -/
def removeChild (recurse : Visit → ByteString → Bool × Visit) (x : Visit) (child : ByteString) :
    Visit :=
  match x.fs.tree.lstat (parsePath child) with
  | .error _ => (removeFile permits x child).2
  | .ok loc =>
      match x.fs.tree.node loc with
      | some .dir => (recurse x child).2
      | _ => (removeFile permits x child).2

/-- `removeDirRecursive` to so many levels. -/
def removeDir : Nat → Visit → ByteString → Bool × Visit
  | 0, x, _ => (false, x)
  | levels + 1, x, path =>
      if path.isEmpty then (false, x)
      else if !x.fs.pathExists path then (true, x)
      else
        match x.fs.tree.opendir (parsePath path) permits.opens with
        | .error _ => removeFile permits x path
        | .ok loc =>
            let x := (x.fs.tree.listing loc).foldl
              (fun x name => removeChild permits (removeDir levels) x (joinPath path name))
              { x with opened := loc :: x.opened }
            match x.fs.tree.rmdir (parsePath path) permits.deletes with
            | .ok loc => (true, { x with fs := x.fs.delete loc })
            | .error .ENOENT => (true, x)
            | .error _ => (false, x)

/-- `removeDirRecursive`: no directory is deeper than the tree. -/
def removeDirRecursive (x : Visit) (path : ByteString) : Bool × Visit :=
  removeDir permits (x.fs.tree.depth + 1) x path

end Removal

/-! ### What is removed -/

/-- From one state to another, things were deleted and opened only at or below the place. -/
structure Within (root : Loc ByteString) (x x' : Visit) : Prop where
  less : Tree.Shrinks x.fs.tree x'.fs.tree
  same : ∀ loc, ¬ Inside root loc → x'.fs.tree.node loc = x.fs.tree.node loc
  opened : ∀ dir ∈ x'.opened, dir ∈ x.opened ∨ Inside root dir

namespace Within

variable {root root' : Loc ByteString} {x x' x'' : Visit}

theorem refl (x : Visit) : Within root x x :=
  ⟨Tree.Shrinks.refl _, fun _ _ => rfl, fun _ mem => .inl mem⟩

theorem trans (h : Within root x x') (h' : Within root x' x'') : Within root x x'' where
  less := h.less.trans h'.less
  same loc outside := (h'.same loc outside).trans (h.same loc outside)
  opened dir mem := (h'.opened dir mem).elim (h.opened dir) .inr

theorem mono (below : Inside root root') (h : Within root' x x') : Within root x x' where
  less := h.less
  same loc outside := h.same loc fun inside => outside (below.trans inside)
  opened dir mem := (h.opened dir mem).imp_right fun inside => below.trans inside

theorem delete (loc : Loc ByteString) : Within loc x { x with fs := x.fs.delete loc } where
  less := Tree.delete_shrinks loc
  same _ outside := Tree.delete_other fun same => outside (same ▸ List.suffix_rfl)
  opened _ mem := .inl mem

theorem open_ (loc : Loc ByteString) : Within loc x { x with opened := loc :: x.opened } where
  less := Tree.Shrinks.refl _
  same _ _ := rfl
  opened dir mem := by
    rcases List.mem_cons.mp mem with rfl | mem
    · exact .inr List.suffix_rfl
    · exact .inl mem

end Within

section Removal

variable {permits : Permits} {x : Visit} {path : ByteString} {e : Loc ByteString}

theorem removeFile_within (there : x.fs.tree.entry (parsePath path) = .ok e) :
    Within e x (removeFile permits x path).2 := by
  unfold removeFile
  split
  · exact .refl x
  · split
    · rename_i loc deleted
      have same := (Tree.unlink_ok deleted).1
      rw [there] at same
      cases same
      exact .delete e
    · exact .refl x
    · exact .refl x

/-- Where there is no entry, nothing is deleted. -/
theorem removeFile_absent (absent : ∀ e, x.fs.tree.entry (parsePath path) ≠ .ok e) :
    (removeFile permits x path).2 = x := by
  unfold removeFile
  split
  · rfl
  · split
    · rename_i loc deleted
      exact absurd (Tree.unlink_ok deleted).1 (absent loc)
    · rfl
    · rfl

/-- What the removal of a directory does to the tree, for all states and paths. -/
def RemovesWithin (recurse : Visit → ByteString → Bool × Visit) (opens : Loc ByteString → Bool) :
    Prop :=
  ∀ x path e, path ≠ [] → x.fs.tree.entry (parsePath path) = .ok e →
    (∀ loc, x.fs.tree.opendir (parsePath path) opens = .ok loc →
      ∀ target, x.fs.tree.node e ≠ some (.link target)) →
    Within e x (recurse x path).2

/-- A child is removed below its directory. -/
theorem removeChild_within {recurse : Visit → ByteString → Bool × Visit}
    (ih : RemovesWithin recurse permits.opens) {loc : Loc ByteString} {name : ByteString}
    (filled : path ≠ []) (named : EntryName name)
    (parent : x.fs.tree.parent ((parsePath path).child name) = .ok loc ∨
      x.fs.tree.parent ((parsePath path).child name) = .error .ENOENT) :
    Within loc x (removeChild permits recurse x (joinPath path name)) := by
  have parsed := parsePath_joinPath filled named
  have lstat : x.fs.tree.lstat (parsePath (joinPath path name)) =
      x.fs.tree.entry (parsePath (joinPath path name)) := by
    rw [parsed]
    rfl
  unfold removeChild
  rw [lstat]
  cases there : x.fs.tree.entry (parsePath (joinPath path name)) with
  | error e =>
    dsimp only
    rw [removeFile_absent (by rw [there]; exact nofun)]
    exact .refl x
  | ok c =>
    have below : Inside loc c := by
      rw [parsed] at there
      rcases parent with found | gone
      · rw [Tree.entry_child found] at there
        split at there
        · cases there
          exact List.suffix_cons name loc
        · cases there
      · obtain ⟨dir, found⟩ := Tree.parent_of_entry there
        rw [gone] at found
        cases found
    dsimp only
    split
    · rename_i dir
      exact .mono below (ih x _ c (joinPath_ne_nil filled named) there fun _ _ target => by
        rw [dir]
        exact nofun)
    · exact .mono below (removeFile_within there)

/-- The children of an open directory are removed below it. -/
theorem foldl_within {recurse : Visit → ByteString → Bool × Visit}
    (ih : RemovesWithin recurse permits.opens) {loc : Loc ByteString} (filled : path ≠ [])
    {names : List ByteString} (named : ∀ name ∈ names, EntryName name)
    (found : ∀ name ∈ names, x.fs.tree.parent ((parsePath path).child name) = .ok loc) {x' : Visit}
    (h : Within loc x x') :
    Within loc x (names.foldl
      (fun x name => removeChild permits recurse x (joinPath path name)) x') := by
  induction names generalizing x' with
  | nil => exact h
  | cons name names rest =>
    obtain ⟨firstNamed, named⟩ := List.forall_mem_cons.mp named
    obtain ⟨firstFound, found⟩ := List.forall_mem_cons.mp found
    refine rest named found (h.trans (removeChild_within ih filled firstNamed ?_))
    rcases Tree.parent_shrinks (p := (parsePath path).child name) h.less with same | gone
    · exact .inl (same.trans firstFound)
    · exact .inr gone

/-- The state after the children of an open directory are removed. -/
theorem children_within {levels : Nat} (ih : RemovesWithin (removeDir permits levels) permits.opens)
    (filled : path ≠ []) {loc : Loc ByteString}
    (opened : x.fs.tree.opendir (parsePath path) permits.opens = .ok loc) :
    Within loc x ((x.fs.tree.listing loc).foldl
      (fun x name => removeChild permits (removeDir permits levels) x (joinPath path name))
      { x with opened := loc :: x.opened }) := by
  obtain ⟨found, dir, -⟩ := Tree.opendir_ok.mp opened
  exact foldl_within ih filled (fun name => x.fs.named_listing)
    (fun name _ => Tree.parent_child found dir name) (.open_ loc)

/-- **What is removed and opened lies at or below the entry of the path**, unless that is a link to
a directory that can be opened. -/
theorem removeDir_within (permits : Permits) (levels : Nat) :
    RemovesWithin (removeDir permits levels) permits.opens := by
  induction levels with
  | zero => exact fun x path e _ _ _ => .refl x
  | succ levels ih =>
    intro x path e filled there plain
    unfold removeDir
    rw [if_neg (by simpa using filled)]
    split
    · exact .refl x
    · split
      · exact removeFile_within there
      · rename_i loc opened
        have same := Tree.entry_of_opendir opened there (plain loc opened)
        subst same
        have children := children_within ih filled opened
        dsimp only
        split
        · rename_i gone deleted
          refine children.trans ?_
          have entry := (Tree.rmdir_ok deleted).1
          rcases Tree.entry_shrinks (p := parsePath path) children.less with same | lost
          · rw [entry, there] at same
            cases same
            exact .delete _
          · rw [entry] at lost
            cases lost
        · exact children
        · exact children

/-! ### What is returned -/

theorem removeFile_result (filled : path ≠ [])
    (there : ∃ e, x.fs.tree.entry (parsePath path) = .ok e) :
    (removeFile permits x path).1 = true ↔
      ∀ e, (removeFile permits x path).2.fs.tree.entry (parsePath path) ≠ .ok e := by
  unfold removeFile
  rw [if_neg (by simpa using filled)]
  cases deleted : x.fs.tree.unlink (parsePath path) permits.deletes with
  | ok loc =>
    obtain ⟨entry, leaf, notRoot⟩ := Tree.unlink_ok deleted
    exact iff_of_true rfl (Tree.entry_gone (Tree.delete_shrinks loc) entry
      ((Tree.delete_node leaf notRoot loc).trans (if_pos rfl)))
  | error err =>
    obtain ⟨e, entry⟩ := there
    have notGone : err ≠ .ENOENT := by
      rintro rfl
      exact Tree.entry_of_unlink_none deleted e entry
    cases err with
    | ENOENT => exact absurd rfl notGone
    | ENOTDIR | ELOOP | EISDIR | ENOTEMPTY | EINVAL | EBUSY | EACCES =>
      exact iff_of_false nofun fun none => none e entry

/-- **What is returned says whether something is left**, if the entry is found. -/
theorem removeDir_result (permits : Permits) (levels : Nat) (filled : path ≠ [])
    (found : (∃ e, x.fs.tree.entry (parsePath path) = .ok e) → x.fs.pathExists path = true) :
    (removeDir permits (levels + 1) x path).1 = true ↔
      ∀ e, (removeDir permits (levels + 1) x path).2.fs.tree.entry (parsePath path) ≠ .ok e := by
  unfold removeDir
  rw [if_neg (by simpa using filled)]
  split
  · rename_i absent
    refine iff_of_true rfl fun e there => ?_
    rw [found ⟨e, there⟩] at absent
    cases absent
  · rename_i exist
    obtain ⟨loc, stat⟩ : ∃ loc, x.fs.tree.stat (parsePath path) = .ok loc := by
      unfold FileSystem.pathExists FileSystem.statPath at exist
      rw [if_neg (by simpa using filled)] at exist
      cases stat : x.fs.tree.stat (parsePath path) with
      | ok loc => exact ⟨loc, rfl⟩
      | error e => simp [stat] at exist
    split
    · exact removeFile_result filled (Tree.entry_of_stat stat)
    · rename_i loc opened
      have children := children_within (removeDir_within permits levels) filled opened
      obtain ⟨dir, parent⟩ := Tree.parent_of_stat stat
      dsimp only
      generalize (x.fs.tree.listing loc).foldl _ _ = after at children ⊢
      split
      · rename_i gone deleted
        obtain ⟨entry, leaf, notRoot⟩ := Tree.rmdir_ok deleted
        exact iff_of_true rfl (Tree.entry_gone (Tree.delete_shrinks gone) entry
          ((Tree.delete_node leaf notRoot gone).trans (if_pos rfl)))
      · rename_i none
        exact iff_of_true rfl (Tree.entry_of_rmdir_none none)
      · rename_i err other failed
        have other : err ≠ .ENOENT := fun same => other same
        refine iff_of_false nofun fun none => ?_
        rcases Tree.parent_shrinks (p := parsePath path) children.less with same | lost
        · obtain ⟨e, entry⟩ := Tree.entry_of_rmdir_error (same.trans parent) failed other
          exact none e entry
        · rw [Tree.rmdir, lost] at failed
          exact other (Except.error.inj failed).symm

/-! ### The recursion ends -/

/-- So many levels are enough below the directory that is opened. -/
def Enough (permits : Permits) (levels : Nat) (x : Visit) (path : ByteString) : Prop :=
  0 < levels ∧ ∀ loc, x.fs.tree.opendir (parsePath path) permits.opens = .ok loc →
    x.fs.tree.depth < levels + loc.length

theorem removeChild_enough {levels : Nat} {loc : Loc ByteString} {name : ByteString}
    (ih : ∀ x path, Enough permits levels x path →
      removeDir permits levels x path = removeDir permits (levels + 1) x path)
    (enough : x.fs.tree.depth < levels + 1 + loc.length) (filled : path ≠ [])
    (named : EntryName name)
    (parent : x.fs.tree.parent ((parsePath path).child name) = .ok loc ∨
      x.fs.tree.parent ((parsePath path).child name) = .error .ENOENT) :
    removeChild permits (removeDir permits levels) x (joinPath path name) =
      removeChild permits (removeDir permits (levels + 1)) x (joinPath path name) := by
  have parsed := parsePath_joinPath filled named
  unfold removeChild
  cases there : x.fs.tree.lstat (parsePath (joinPath path name)) with
  | error e => rfl
  | ok c =>
    dsimp only
    split
    · rename_i dir
      have entry : x.fs.tree.entry (parsePath (joinPath path name)) = .ok c := by
        rw [parsed] at there ⊢
        exact there
      have child : c = name :: loc := by
        rw [parsed] at entry
        rcases parent with found | gone
        · rw [Tree.entry_child found] at entry
          split at entry
          · exact (Except.ok.inj entry).symm
          · cases entry
        · obtain ⟨dir, found⟩ := Tree.parent_of_entry entry
          rw [gone] at found
          cases found
      subst child
      have deep := x.fs.tree.bound (name :: loc) (by rw [dir]; rfl)
      rw [List.length_cons] at deep
      rw [ih x _ ⟨by omega, fun loc' opened => ?_⟩]
      have same := Tree.entry_of_opendir opened entry fun target => by
        rw [dir]
        exact nofun
      rw [← same, List.length_cons]
      omega
    · rfl

/-- **The recursion ends**: more levels than enough make no difference. -/
theorem removeDir_enough (permits : Permits) (levels : Nat) (x : Visit) (path : ByteString)
    (enough : Enough permits levels x path) :
    removeDir permits levels x path = removeDir permits (levels + 1) x path := by
  induction levels generalizing x path with
  | zero => exact absurd enough.1 (Nat.lt_irrefl 0)
  | succ levels ih =>
    rw [removeDir, removeDir]
    split
    · rfl
    · rename_i filled
      have filled : path ≠ [] := by simpa using filled
      split
      · rfl
      · split
        · rfl
        · rename_i loc opened
          obtain ⟨found, dir, -⟩ := Tree.opendir_ok.mp opened
          have fold : ∀ (names : List ByteString) (x' : Visit), Within loc x x' →
              (∀ name ∈ names, EntryName name) →
              names.foldl (fun x name =>
                removeChild permits (removeDir permits levels) x (joinPath path name)) x' =
              names.foldl (fun x name =>
                removeChild permits (removeDir permits (levels + 1)) x (joinPath path name))
                x' := by
            intro names
            induction names with
            | nil => exact fun _ _ _ => rfl
            | cons name names rest =>
              intro x' before named
              obtain ⟨firstNamed, named⟩ := List.forall_mem_cons.mp named
              have parent := Tree.parent_shrinks (p := (parsePath path).child name) before.less
              rw [Tree.parent_child found dir] at parent
              have first := removeChild_enough ih (before.less.depth ▸ enough.2 loc opened) filled
                firstNamed parent
              have after := removeChild_within (removeDir_within permits levels) filled firstNamed
                parent
              rw [List.foldl_cons, List.foldl_cons, ← first]
              exact rest _ (before.trans after) named
          dsimp only
          rw [fold (x.fs.tree.listing loc) _ (.open_ loc) fun name => x.fs.named_listing]

theorem removeDir_of_depth (permits : Permits) (x : Visit) (path : ByteString) {levels : Nat}
    (enough : x.fs.tree.depth + 1 ≤ levels) :
    removeDir permits levels x path = removeDirRecursive permits x path := by
  induction levels, enough using Nat.le_induction with
  | base => rfl
  | succ levels enough ih =>
    rw [← ih]
    exact (removeDir_enough permits levels x path ⟨by omega, fun loc _ => by omega⟩).symm

end Removal

/-! ### The tree of a path, and nothing else -/

/-- **What the removal promises**: only what stands at or below the entry of the path is deleted or
opened, and success is reported exactly when nothing stands at the path any more. -/
structure RemovesTree (permits : Permits) (fs : FileSystem) (path : ByteString) : Prop where
  deleted : ∀ loc,
    (removeDirRecursive permits ⟨fs, []⟩ path).2.fs.tree.node loc ≠ fs.tree.node loc →
    ∃ e, fs.entryAt path = .ok e ∧ Inside e loc
  opened : ∀ dir ∈ (removeDirRecursive permits ⟨fs, []⟩ path).2.opened,
    ∃ e, fs.entryAt path = .ok e ∧ Inside e dir
  result : (removeDirRecursive permits ⟨fs, []⟩ path).1 = true ↔
    ∀ e, (removeDirRecursive permits ⟨fs, []⟩ path).2.fs.entryAt path ≠ .ok e

/-- Something stands at the path that `stat` does not find: a link that leads nowhere, or what is no
directory under a path with a slash behind it. -/
def Unfound (fs : FileSystem) (path : ByteString) : Prop :=
  (∃ e, fs.entryAt path = .ok e) ∧ fs.pathExists path = false

/-- A link to a directory that can be opened stands at the path. -/
def LinkedDir (permits : Permits) (fs : FileSystem) (path : ByteString) : Prop :=
  ∃ e target loc, fs.entryAt path = .ok e ∧ fs.tree.node e = some (.link target) ∧
    fs.statPath path = .ok loc ∧ fs.tree.node loc = some .dir ∧ permits.opens loc = true

section Promise

variable {permits : Permits} {fs : FileSystem} {path : ByteString}

/-- What was opened is remembered. -/
theorem removeFile_opened (x : Visit) (path : ByteString) :
    (removeFile permits x path).2.opened = x.opened := by
  unfold removeFile
  split
  · rfl
  · split <;> rfl

section Opened

variable {recurse : Visit → ByteString → Bool × Visit}
  (ih : ∀ x path, x.opened ⊆ (recurse x path).2.opened)

include ih

theorem removeChild_opened (permits : Permits) (x : Visit) (child : ByteString) :
    x.opened ⊆ (removeChild permits recurse x child).opened := by
  unfold removeChild
  split
  · rw [removeFile_opened]
    exact List.Subset.refl _
  · split
    · exact ih x child
    · rw [removeFile_opened]
      exact List.Subset.refl _

theorem foldl_opened (permits : Permits) (path : ByteString) (names : List ByteString) (x : Visit) :
    x.opened ⊆ (names.foldl
      (fun x name => removeChild permits recurse x (joinPath path name)) x).opened := by
  induction names generalizing x with
  | nil => exact List.Subset.refl _
  | cons name names rest => exact List.Subset.trans (removeChild_opened ih permits x _) (rest _)

end Opened

theorem removeDir_opened (permits : Permits) (levels : Nat) (x : Visit) (path : ByteString) :
    x.opened ⊆ (removeDir permits levels x path).2.opened := by
  induction levels generalizing x path with
  | zero => exact List.Subset.refl _
  | succ levels ih =>
    unfold removeDir
    split
    · exact List.Subset.refl _
    · split
      · exact List.Subset.refl _
      · split
        · rw [removeFile_opened]
          exact List.Subset.refl _
        · rename_i loc opened
          have all := List.Subset.trans (List.subset_cons_self loc x.opened)
            (foldl_opened ih permits path (x.fs.tree.listing loc)
              { x with opened := loc :: x.opened })
          dsimp only
          split <;> exact all

/-- The directory that the path is opened as is remembered. -/
theorem mem_opened {levels : Nat} {x : Visit} {loc : Loc ByteString} (filled : path ≠ [])
    (opened : x.fs.tree.opendir (parsePath path) permits.opens = .ok loc) :
    loc ∈ (removeDir permits (levels + 1) x path).2.opened := by
  have exist : x.fs.pathExists path = true := by
    unfold FileSystem.pathExists FileSystem.statPath
    rw [if_neg (by simpa using filled), (Tree.opendir_ok.mp opened).1]
  have all := foldl_opened (removeDir_opened permits levels) permits path (x.fs.tree.listing loc)
    { x with opened := loc :: x.opened }
  unfold removeDir
  rw [if_neg (by simpa using filled), if_neg (by simp [exist]), opened]
  dsimp only
  split <;> exact all List.mem_cons_self

theorem entryAt_eq (filled : path ≠ []) : fs.entryAt path = fs.tree.entry (parsePath path) :=
  if_neg (by simpa using filled)

theorem statPath_eq (filled : path ≠ []) : fs.statPath path = fs.tree.stat (parsePath path) :=
  if_neg (by simpa using filled)

/-- Where nothing is found, nothing is done, and success is reported. -/
theorem removeDirRecursive_unfound (permits : Permits) (filled : path ≠ []) (unfound : fs.pathExists path = false) :
    removeDirRecursive permits ⟨fs, []⟩ path = (true, ⟨fs, []⟩) := by
  rw [removeDirRecursive, removeDir, if_neg (by simpa using filled), unfound]
  rfl

/-- Where nothing stands, nothing is found. -/
theorem pathExists_of_absent (filled : path ≠ [])
    (absent : ∀ e, fs.tree.entry (parsePath path) ≠ .ok e) : fs.pathExists path = false := by
  unfold FileSystem.pathExists
  rw [statPath_eq filled]
  cases stat : fs.tree.stat (parsePath path) with
  | error e => rfl
  | ok loc =>
    obtain ⟨e, there⟩ := Tree.entry_of_stat stat
    exact absurd there (absent e)

namespace RemovesTree

theorem filled (promise : RemovesTree permits fs path) : path ≠ [] := by
  rintro rfl
  have result := promise.result.mpr fun e => nofun
  cases result

/-- What is not found is left where it stands. -/
theorem not_unfound (promise : RemovesTree permits fs path) : ¬ Unfound fs path := by
  rintro ⟨⟨e, there⟩, unfound⟩
  have unchanged := removeDirRecursive_unfound permits promise.filled unfound
  have gone := promise.result.mp (by rw [unchanged])
  rw [unchanged] at gone
  exact gone e there

/-- The directory behind a link is opened, and nothing is inside a link. -/
theorem not_linkedDir (promise : RemovesTree permits fs path) : ¬ LinkedDir permits fs path := by
  rintro ⟨e, target, loc, there, link, stat, dir, opens⟩
  rw [statPath_eq promise.filled] at stat
  have opened := Tree.opendir_ok.mpr ⟨stat, dir, opens⟩
  obtain ⟨e', there', below⟩ := promise.opened loc (mem_opened promise.filled opened)
  rw [there] at there'
  cases there'
  by_cases same : loc = e
  · rw [same, link] at dir
    cases dir
  · have isDir := Tree.dir_of_inside below same (by rw [dir]; rfl)
    rw [link] at isDir
    cases isDir

/-- What is found, and is no link to a directory, is removed with what is inside it. -/
theorem of_found (filled : path ≠ []) (found : ¬ Unfound fs path)
    (plain : ¬ LinkedDir permits fs path) : RemovesTree permits fs path := by
  have found : (∃ e, fs.tree.entry (parsePath path) = .ok e) → fs.pathExists path = true := by
    rintro ⟨e, there⟩
    by_contra absent
    exact found ⟨⟨e, by rw [entryAt_eq filled, there]⟩, by simpa using absent⟩
  have within : ∀ e, fs.tree.entry (parsePath path) = .ok e →
      Within e ⟨fs, []⟩ (removeDirRecursive permits ⟨fs, []⟩ path).2 := by
    intro e there
    refine removeDir_within permits _ ⟨fs, []⟩ path e filled there
      fun loc opened target link => ?_
    obtain ⟨stat, dir, opens⟩ := Tree.opendir_ok.mp opened
    exact plain ⟨e, target, loc, by rw [entryAt_eq filled, there], link,
      by rw [statPath_eq filled, stat], dir, opens⟩
  have result := removeDir_result (x := ⟨fs, []⟩) permits fs.tree.depth filled found
  by_cases there : ∃ e, fs.tree.entry (parsePath path) = .ok e
  · obtain ⟨e, there⟩ := there
    have entry : fs.entryAt path = .ok e := by rw [entryAt_eq filled, there]
    refine ⟨fun loc changed => ⟨e, entry, ?_⟩, fun dir mem => ⟨e, entry, ?_⟩, ?_⟩
    · by_contra outside
      exact changed ((within e there).same loc outside)
    · exact ((within e there).opened dir mem).resolve_left List.not_mem_nil
    · simp only [entryAt_eq filled]
      exact result
  · have unchanged := removeDirRecursive_unfound permits filled
      (pathExists_of_absent filled fun e there' => there ⟨e, there'⟩)
    refine ⟨fun loc changed => ?_, fun dir mem => ?_, ?_⟩
    · rw [unchanged] at changed
      exact absurd rfl changed
    · rw [unchanged] at mem
      cases mem
    · simp only [entryAt_eq filled]
      exact result

end RemovesTree

/-- **The removal keeps its promise** just when the path is not empty, what stands at it is found,
and it is no link to a directory that can be opened. -/
theorem removesTree_iff (permits : Permits) (fs : FileSystem) (path : ByteString) :
    RemovesTree permits fs path ↔
      path ≠ [] ∧ ¬ Unfound fs path ∧ ¬ LinkedDir permits fs path := by
  constructor
  · intro promise
    exact ⟨promise.filled, promise.not_unfound, promise.not_linkedDir⟩
  · rintro ⟨filled, found, plain⟩
    exact .of_found filled found plain

end Promise

/-- A root with a link in it, and with a directory that holds a file. -/
def linkFileSystem (target : Target ByteString) : FileSystem where
  tree := {
    node := fun loc =>
      if loc = [] ∨ loc = [str "d"] then some .dir
      else if loc = [str "l"] then some (.link target)
      else if loc = [str "f", str "d"] then some .file
      else none
    names := fun loc =>
      if loc = [] then [str "l", str "d"] else if loc = [str "d"] then [str "f"] else []
    depth := 2
    root := rfl
    listed := by
      intro name loc there
      split at there
      · rename_i dir
        cases dir with
        | inl empty => cases empty
        | inr dir =>
          cases dir
          exact ⟨rfl, by decide⟩
      · split at there
        · rename_i link
          cases link
          exact ⟨rfl, by decide⟩
        · split at there
          · rename_i file
            cases file
            exact ⟨rfl, by decide⟩
          · cases there
    bound := by
      intro loc there
      split at there
      · rename_i dir
        rcases dir with rfl | rfl <;> decide
      · split at there
        · rename_i link
          rw [link]
          decide
        · split at there
          · rename_i file
            rw [file]
            decide
          · cases there }
  named := by
    intro loc name mem
    dsimp only at mem
    split at mem
    · rcases List.mem_pair.mp mem with rfl | rfl <;>
        exact ⟨by decide, by decide, by decide, by decide⟩
    · split at mem
      · rw [List.mem_singleton.mp mem]
        exact ⟨by decide, by decide, by decide, by decide⟩
      · cases mem

/-- A link that leads nowhere is left, and the directory behind a link is emptied. -/
theorem removesTree_broken :
    ¬ RemovesTree ⟨fun _ => true, fun _ => true⟩ (linkFileSystem ⟨true, [.down (str "x")]⟩)
        (str "/l") ∧
      ¬ RemovesTree ⟨fun _ => true, fun _ => true⟩ (linkFileSystem ⟨true, [.down (str "d")]⟩)
        (str "/l") := by
  constructor
  · intro promise
    exact promise.result.mp (by decide +kernel) [str "l"] (by decide +kernel)
  · intro promise
    obtain ⟨e, there, below⟩ := promise.deleted [str "f", str "d"] (by decide +kernel)
    have entry : (linkFileSystem ⟨true, [.down (str "d")]⟩).entryAt (str "/l") =
        .ok [str "l"] := by
      decide +kernel
    rw [entry] at there
    cases there
    exact absurd below (by decide)

end Apm.Fs.Linked
