import Mathlib.Data.List.Nodup
import Apm.Lib.Walk
import Apm.Util.Trace

/-!
A disk on which deletions work or fail one by one.

Paths are taken as they stand: a link matters only where it is the last name.

## Main results

* `removeDirRecursive_all`: where nothing fails, nothing at or below the directory is left.
* `Closed.removeDirRecursive`: what is left is still in directories.
-/

namespace Apm.Fs

open Apm.Lib.Walk

inductive Kind where
  | file (text : ByteString)
  | link (target : Loc ByteString)
  | dir
deriving DecidableEq

/-- What stands at a place. -/
structure Item where
  loc : Loc ByteString
  kind : Kind
deriving DecidableEq

/-- What is on a disk, each place once. -/
structure Volume where
  items : List Item
  nodup : (items.map (·.loc)).Nodup

namespace Volume

variable (v : Volume)

def find (loc : Loc ByteString) : Option Kind := (v.items.find? (·.loc == loc)).map (·.kind)

/-- Only these items are left. -/
def keep (p : Item → Bool) : Volume where
  items := v.items.filter p
  nodup := v.nodup.sublist (List.filter_sublist.map _)

/-- Every item is in a directory. -/
def Closed : Prop :=
  ∀ x ∈ v.items, ∀ dir, Inside dir x.loc → dir ≠ x.loc → v.find dir = some .dir

variable {v} {loc : Loc ByteString}

theorem find_eq_some {kind : Kind} : v.find loc = some kind ↔ ⟨loc, kind⟩ ∈ v.items := by
  unfold find
  constructor
  · intro found
    obtain ⟨x, first, rfl⟩ := Option.map_eq_some_iff.mp found
    have same : x.loc = loc := by simpa using List.find?_some first
    subst same
    exact List.mem_of_find?_eq_some first
  · intro mem
    cases first : v.items.find? (·.loc == loc) with
    | none =>
      have absent := List.find?_eq_none.mp first _ mem
      simp at absent
    | some x =>
      have same : x.loc = loc := by simpa using List.find?_some first
      have unique := List.inj_on_of_nodup_map v.nodup (List.mem_of_find?_eq_some first) mem same
      rw [unique]
      rfl

theorem find_keep (p : Item → Bool) :
    (v.keep p).find loc = (v.find loc).filter fun kind => p ⟨loc, kind⟩ := by
  ext kind
  rw [find_eq_some, Option.filter_eq_some_iff, find_eq_some]
  exact List.mem_filter

theorem find_keep_some {p : Item → Bool} {kind : Kind} (h : v.find loc = some kind)
    (kept : p ⟨loc, kind⟩) : (v.keep p).find loc = some kind := by
  rw [find_keep, h]
  simp [kept]

/-- What is left was there before. -/
theorem find_of_keep {p : Item → Bool} {kind : Kind} (h : (v.keep p).find loc = some kind) :
    v.find loc = some kind ∧ p ⟨loc, kind⟩ = true := by
  rw [find_keep, Option.filter_eq_some_iff] at h
  exact h

end Volume

/-! ### Deletions -/

section Deletions

variable (works : Loc ByteString → Bool)

namespace Volume

variable (v : Volume)

/-- Something there, or below it, cannot be deleted. -/
def Stuck (loc : Loc ByteString) : Prop :=
  ∃ y ∈ v.items, Inside loc y.loc ∧ works y.loc = false

instance (loc : Loc ByteString) : Decidable (v.Stuck works loc) :=
  inferInstanceAs (Decidable (∃ y ∈ v.items, _))

/-- A directory with nothing but directories, all of which can be deleted. -/
def Hollow (loc : Loc ByteString) : Prop :=
  ∀ y ∈ v.items, Inside loc y.loc → y.kind = .dir ∧ works y.loc = true

instance (loc : Loc ByteString) : Decidable (v.Hollow works loc) :=
  inferInstanceAs (Decidable (∀ y ∈ v.items, _))

/-- What a path leads to, through at most so many links. -/
def resolve : Nat → Loc ByteString → Option Kind
  | 0, _ => none
  | links + 1, loc =>
      match v.find loc with
      | some (.link target) => resolve links target
      | found => found

/-- `fs::pathExists`. The system follows 40 links. -/
def pathExists (path : ByteString) : Bool := (v.resolve 41 (fileLoc path)).isSome

/-- `fs::readFile`. -/
def readFile (path : ByteString) : Option ByteString :=
  match v.resolve 41 (fileLoc path) with
  | some (.file text) => some text
  | _ => none

/-- `fs::removeFile`. -/
def removeFile (path : ByteString) : Bool × Volume :=
  match v.find (fileLoc path) with
  | none => (true, v)
  | some .dir => (false, v)
  | some _ =>
      if works (fileLoc path) then (true, v.keep (·.loc != fileLoc path)) else (false, v)

/-- `fs::removeDirRecursive` of what is no link: a directory stays if something in it does. -/
def removeDirRecursive (path : ByteString) : Bool × Volume :=
  if !v.pathExists path then (true, v)
  else
    let root := fileLoc path
    let left := v.keep fun x => decide (¬ Inside root x.loc ∨ works x.loc = false ∨
      x.kind = .dir ∧ v.Stuck works x.loc)
    ((left.find root).isNone, left)

/-- `pruneEmptyDirs`, which keeps the directory it starts from. -/
def pruneEmptyDirs (path : ByteString) : Volume :=
  let root := fileLoc path
  v.keep fun x => decide (¬ (Inside root x.loc ∧ x.loc ≠ root ∧ x.kind = .dir ∧
    v.Hollow works x.loc))

end Volume

end Deletions

/-! ### What is left -/

namespace Volume

variable {v v' v'' : Volume} {works : Loc ByteString → Bool} {path : ByteString}
  {loc dir : Loc ByteString}

/-- Nothing is new. -/
def Shrinks (v v' : Volume) : Prop :=
  ∀ loc kind, v'.find loc = some kind → v.find loc = some kind

theorem Shrinks.refl (v : Volume) : Shrinks v v := fun _ _ found => found

theorem Shrinks.trans (h : Shrinks v v') (h' : Shrinks v' v'') : Shrinks v v'' := by
  intro loc kind found
  apply h
  exact h' loc kind found

theorem Shrinks.none (h : Shrinks v v') (absent : v.find loc = none) : v'.find loc = none := by
  rw [Option.eq_none_iff_forall_ne_some] at *
  intro kind found
  exact absent kind (h loc kind found)

theorem shrinks_keep (p : Item → Bool) : Shrinks v (v.keep p) := by
  intro loc kind found
  exact (find_of_keep found).1

/-- A kept item needs the directories above it. -/
theorem Closed.keep (h : v.Closed) {p : Item → Bool}
    (dirs : ∀ x ∈ v.items, p x = true → ∀ dir, Inside dir x.loc → dir ≠ x.loc →
      p ⟨dir, .dir⟩ = true) :
    (v.keep p).Closed := by
  intro x mem dir above ne
  obtain ⟨there, kept⟩ := List.mem_filter.mp mem
  apply find_keep_some (h x there dir above ne)
  exact dirs x there kept dir above ne

theorem closed_iff_tails : v.Closed ↔
    ∀ x ∈ v.items, ∀ dir ∈ x.loc.tails, dir ≠ x.loc → v.find dir = some .dir := by
  simp [Closed, Inside, List.mem_tails]

/-- A directory stands above what it holds. -/
theorem Closed.find_above (h : v.Closed) {kind : Kind} (found : v.find loc = some kind)
    (above : Inside dir loc) : dir = loc ∨ v.find dir = some .dir := by
  by_cases same : dir = loc
  · left
    exact same
  · right
    exact h _ (find_eq_some.mp found) dir above same

/-! ### Single files -/

theorem removeFile_cases (works : Loc ByteString → Bool) (v : Volume) (path : ByteString) :
    v.removeFile works path = (decide (v.find (fileLoc path) = none), v) ∨
    (works (fileLoc path) = true ∧ v.find (fileLoc path) ≠ some .dir ∧
      v.removeFile works path = (true, v.keep (·.loc != fileLoc path))) := by
  unfold removeFile
  cases found : v.find (fileLoc path) with
  | none => simp
  | some kind => cases kind <;> cases works (fileLoc path) <;> simp

theorem removeFile_shrinks : Shrinks v (v.removeFile works path).2 := by
  obtain same | ⟨-, -, removed⟩ := removeFile_cases works v path
  · rw [same]
    exact Shrinks.refl v
  · rw [removed]
    exact shrinks_keep _

/-- Only files go, and of these only such as can be deleted. -/
structure FilesGo (works : Loc ByteString → Bool) (v v' : Volume) : Prop where
  shrinks : Shrinks v v'
  stays : ∀ loc kind, v.find loc = some kind → works loc = false ∨ kind = .dir →
    v'.find loc = some kind

theorem FilesGo.refl (works : Loc ByteString → Bool) (v : Volume) : FilesGo works v v :=
  ⟨Shrinks.refl v, fun _ _ found _ => found⟩

theorem FilesGo.trans (h : FilesGo works v v') (h' : FilesGo works v' v'') :
    FilesGo works v v'' := by
  constructor
  · exact h.shrinks.trans h'.shrinks
  · intro loc kind found stays
    apply h'.stays loc kind _ stays
    exact h.stays loc kind found stays

theorem FilesGo.find_dir (h : FilesGo works v v') :
    v'.find loc = some .dir ↔ v.find loc = some .dir := by
  constructor
  · intro found
    exact h.shrinks loc _ found
  · intro found
    exact h.stays loc _ found (Or.inr rfl)

/-- Without its files a disk still has its directories. -/
theorem FilesGo.closed (h : FilesGo works v v') (closed : v.Closed) : v'.Closed := by
  intro x mem dir above ne
  have there := h.shrinks _ _ (find_eq_some.mpr mem)
  rw [h.find_dir]
  exact closed x (find_eq_some.mp there) dir above ne

theorem removeFile_filesGo : FilesGo works v (v.removeFile works path).2 := by
  constructor
  · exact removeFile_shrinks
  · intro loc kind found stays
    obtain same | ⟨deletable, noDir, removed⟩ := removeFile_cases works v path
    · rw [same]
      exact found
    · rw [removed]
      apply find_keep_some found
      have other : loc ≠ fileLoc path := by
        rintro rfl
        cases stays with
        | inl stuck => simp [deletable] at stuck
        | inr isDir => exact noDir (isDir ▸ found)
      simpa using other

/-- Where nothing fails, everything but a directory can be deleted. -/
theorem removeFile_all (all : ∀ loc, works loc = true) (path : ByteString) (v : Volume) :
    (v.removeFile works path).1 = !decide (v.find (fileLoc path) = some .dir) := by
  unfold Volume.removeFile
  cases v.find (fileLoc path) with
  | none => simp
  | some kind => cases kind <;> simp [all]

/-- Exactly the file at the path goes. -/
theorem removeFile_find_iff {kind : Kind} (noDir : kind ≠ .dir) :
    (v.removeFile works path).2.find loc = some kind ↔
      v.find loc = some kind ∧ ¬ (works loc = true ∧ fileLoc path = loc) := by
  by_cases here : fileLoc path = loc
  · subst here
    unfold removeFile
    cases found : v.find (fileLoc path) with
    | none => simp [found]
    | some kind' =>
      cases kind' with
      | dir => simp [found, Ne.symm noDir]
      | file text => cases works (fileLoc path) <;> simp [found, find_keep]
      | link target => cases works (fileLoc path) <;> simp [found, find_keep]
  · obtain same | ⟨-, -, removed⟩ := removeFile_cases works v path
    · simp [same, here]
    · have other : loc ≠ fileLoc path := Ne.symm here
      simp [removed, here, find_keep, other]

theorem removeFile_gone (h : (v.removeFile works path).1 = true) :
    (v.removeFile works path).2.find (fileLoc path) = none := by
  obtain same | ⟨-, -, removed⟩ := removeFile_cases works v path
  · rw [same] at h ⊢
    simpa using h
  · rw [removed, find_keep]
    simp

/-! ### Directories -/

theorem removeDirRecursive_shrinks : Shrinks v (v.removeDirRecursive works path).2 := by
  unfold removeDirRecursive
  split
  · exact Shrinks.refl v
  · exact shrinks_keep _

theorem removeDirRecursive_find {kind : Kind} (found : v.find loc = some kind)
    (stuck : works loc = false) : (v.removeDirRecursive works path).2.find loc = some kind := by
  unfold removeDirRecursive
  split
  · exact found
  · apply find_keep_some found
    simp [stuck]

theorem Closed.removeDirRecursive (h : v.Closed) :
    (v.removeDirRecursive works path).2.Closed := by
  unfold Volume.removeDirRecursive
  split
  · exact h
  · apply h.keep
    intro x mem kept dir above _
    rw [decide_eq_true_eq] at kept ⊢
    by_cases inside : Inside (fileLoc path) dir
    · right; right
      refine ⟨rfl, ?_⟩
      obtain outside | fails | ⟨-, y, there, below, fails⟩ := kept
      · exact absurd (inside.trans above) outside
      · exact ⟨x, mem, above, fails⟩
      · exact ⟨y, there, above.trans below, fails⟩
    · left
      exact inside

/-- What stands where no link is exists. -/
theorem pathExists_of_find {kind : Kind} (found : v.find (fileLoc path) = some kind)
    (noLink : ∀ target, v.find (fileLoc path) ≠ some (.link target)) :
    v.pathExists path = true := by
  unfold pathExists resolve
  cases kind with
  | link target => exact absurd found (noLink target)
  | file text => simp [found]
  | dir => simp [found]

theorem pathExists_of_none (absent : v.find (fileLoc path) = none) : v.pathExists path = false := by
  simp [pathExists, resolve, absent]

/-- Nothing is below what does not exist. -/
theorem Closed.find_none (h : v.Closed)
    (noLink : ∀ target, v.find (fileLoc path) ≠ some (.link target))
    (absent : v.pathExists path = false) (inside : Inside (fileLoc path) loc) :
    v.find loc = none := by
  rw [Option.eq_none_iff_forall_ne_some]
  intro kind found
  obtain same | above := h.find_above found inside
  · subst same
    simp [pathExists_of_find found noLink] at absent
  · simp [pathExists_of_find above noLink] at absent

/-- Only what cannot be deleted is left. -/
theorem removeDirRecursive_gone {kind : Kind} (h : v.Closed)
    (noLink : ∀ target, v.find (fileLoc path) ≠ some (.link target))
    (inside : Inside (fileLoc path) loc)
    (found : (v.removeDirRecursive works path).2.find loc = some kind) :
    v.Stuck works loc := by
  unfold Volume.removeDirRecursive at found
  split at found
  case isTrue absent =>
    rw [h.find_none noLink (by simpa using absent) inside] at found
    cases found
  case isFalse =>
    obtain ⟨there, kept⟩ := find_of_keep found
    rw [decide_eq_true_eq] at kept
    obtain outside | fails | ⟨-, stuck⟩ := kept
    · exact absurd inside outside
    · exact ⟨_, find_eq_some.mp there, List.suffix_refl loc, fails⟩
    · exact stuck

/-- Where nothing fails, nothing is left. -/
theorem removeDirRecursive_all (h : v.Closed)
    (noLink : ∀ target, v.find (fileLoc path) ≠ some (.link target))
    (all : ∀ loc, works loc = true) (inside : Inside (fileLoc path) loc) :
    (v.removeDirRecursive works path).2.find loc = none := by
  rw [Option.eq_none_iff_forall_ne_some]
  intro kind found
  obtain ⟨y, -, -, fails⟩ := removeDirRecursive_gone h noLink inside found
  simp [all] at fails

/-- Exactly the files at or below the directory go. -/
theorem removeDirRecursive_find_iff {kind : Kind} (h : v.Closed)
    (noLink : ∀ target, v.find (fileLoc path) ≠ some (.link target)) (noDir : kind ≠ .dir) :
    (v.removeDirRecursive works path).2.find loc = some kind ↔
      v.find loc = some kind ∧ ¬ (works loc = true ∧ Inside (fileLoc path) loc) := by
  unfold Volume.removeDirRecursive
  split
  case isTrue absent =>
    have outside : v.find loc = some kind → ¬ Inside (fileLoc path) loc := by
      intro found inside
      rw [h.find_none noLink (by simpa using absent) inside] at found
      cases found
    tauto
  case isFalse =>
    rw [find_keep, Option.filter_eq_some_iff]
    simp only [noDir, false_and, or_false, decide_eq_true_eq, not_and_or, Bool.not_eq_true]
    tauto

theorem removeDirRecursive_fst (h : v.Closed)
    (noLink : ∀ target, v.find (fileLoc path) ≠ some (.link target)) :
    (v.removeDirRecursive works path).1 =
      ((v.removeDirRecursive works path).2.find (fileLoc path)).isNone := by
  unfold Volume.removeDirRecursive
  split
  case isTrue absent =>
    rw [h.find_none noLink (by simpa using absent) (List.suffix_refl _)]
    rfl
  case isFalse => rfl

/-! ### Empty directories -/

theorem pruneEmptyDirs_shrinks : Shrinks v (v.pruneEmptyDirs works path) := shrinks_keep _

theorem pruneEmptyDirs_find {kind : Kind} (found : v.find loc = some kind) (noDir : kind ≠ .dir) :
    (v.pruneEmptyDirs works path).find loc = some kind := by
  apply find_keep_some found
  simp [noDir]

theorem pruneEmptyDirs_find_iff {kind : Kind} (noDir : kind ≠ .dir) :
    (v.pruneEmptyDirs works path).find loc = some kind ↔ v.find loc = some kind := by
  constructor
  · intro found
    exact pruneEmptyDirs_shrinks loc kind found
  · intro found
    exact pruneEmptyDirs_find found noDir

/-- A directory that holds something is not empty. -/
theorem Closed.pruneEmptyDirs (h : v.Closed) : (v.pruneEmptyDirs works path).Closed := by
  apply h.keep
  intro x mem kept dir above ne
  rw [decide_eq_true_eq] at kept ⊢
  rintro ⟨inside, -, -, hollow⟩
  apply kept
  refine ⟨inside.trans above, ?_, (hollow x mem above).1, ?_⟩
  · intro same
    apply ne
    rw [same] at above ⊢
    exact above.eq_of_length_le inside.length_le
  · intro y there below
    exact hollow y there (above.trans below)

end Volume

end Apm.Fs
