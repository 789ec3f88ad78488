import Apm.Lib.Effect
import Apm.Util.Path

/-!
The paths that a program hands to the file system.

A `Trace` lists what was done with which path, and counts the questions that the system
answered (`System`). A path is a C string: it ends at its first NUL.
-/

namespace Apm.Fs

open Apm.Lib.Effect Apm.Lib.Walk

inductive Action where
  | create | write | rename | extract | removeTree | unlink
deriving DecidableEq

/-- An action on a path that is meant to be in a directory. -/
structure Touch where
  action : Action
  home : ByteString
  path : ByteString
deriving DecidableEq

structure Trace where
  clock : Nat := 0
  touched : List Touch := []

/-- What the system answers. -/
structure System where
  ok : Nat → Bool
  message : Nat → ByteString
  content : Nat → ByteString

variable {ε : Type} (sys : System)

/-- Ask for something that changes nothing. -/
def ask : Act Trace ε Bool :=
  update fun t => (sys.ok t.clock, { t with clock := t.clock + 1 })

/-- Ask for a text, such as the content of a file. -/
def askText : Act Trace ε ByteString :=
  update fun t => (sys.content t.clock, { t with clock := t.clock + 1 })

/-- Act on a path: does it work? -/
def touch (action : Action) (home path : ByteString) : Act Trace ε Bool :=
  update fun t => (sys.ok t.clock, {
    clock := t.clock + 1
    touched := t.touched ++ [⟨action, home, path⟩] })

/-- Act on a path, and fail with the system's message if it does not work. -/
def touchOrFail (action : Action) (home path : ByteString) : Act Trace ByteString Unit := do
  let t ← update fun t => (t, t)
  if ← touch sys action home path then pure () else throw (sys.message t.clock)

/-! ### Where a path leads -/

/-- The bytes before the first NUL. -/
def cString (path : ByteString) : ByteString := upTo (· == 0) path

/-- Where an absolute path leads, with `.` and `..` taken as they stand. -/
def fileLoc (path : ByteString) : Loc ByteString := lexical [] (pathSteps (cString path))

theorem cString_of_noNul {path : ByteString} (h : 0 ∉ path) : cString path = path := by
  unfold cString upTo
  rw [List.takeWhile_eq_self_iff]
  intro c mem
  have : c ≠ 0 := fun same => h (same ▸ mem)
  simpa using this

theorem cString_append {left : ByteString} (h : 0 ∉ left) (right : ByteString) :
    cString (left ++ right) = left ++ cString right := by
  unfold cString upTo
  rw [List.takeWhile_append_of_pos]
  intro c mem
  have : c ≠ 0 := fun same => h (same ▸ mem)
  simpa using this

/-- Behind a NUL nothing counts. -/
theorem cString_append_of_nul {left : ByteString} (h : 0 ∈ left) (right : ByteString) :
    cString (left ++ right) = cString left := by
  unfold cString upTo
  induction left with
  | nil => cases h
  | cons c left ih =>
    by_cases nul : c = 0
    · subst nul
      rfl
    · have later : 0 ∈ left := by
        rcases List.mem_cons.mp h with same | later
        · exact absurd same.symm nul
        · exact later
      rw [List.cons_append, List.takeWhile_cons_of_pos (by simpa using nul),
        List.takeWhile_cons_of_pos (by simpa using nul), ih later]

/-- A path is cut at its last slash. -/
theorem exists_last_slash {path : ByteString} (slash : chr '/' ∈ path) :
    ∃ left right, path = left ++ chr '/' :: right ∧ chr '/' ∉ right := by
  obtain ⟨right, left, same, noSlash⟩ :=
    List.eq_append_cons_of_mem (List.mem_reverse.mpr slash)
  refine ⟨left.reverse, right.reverse, ?_, by simpa using noSlash⟩
  rw [← List.reverse_reverse path, same]
  simp

theorem cString_slash (path : ByteString) : cString (chr '/' :: path) = chr '/' :: cString path :=
  rfl

theorem noSlash_cString {path : ByteString} (h : chr '/' ∉ path) : chr '/' ∉ cString path :=
  fun mem => h ((List.takeWhile_prefix _).mem mem)

/-- A path below another one leads there, or to the other one if that has a NUL. -/
theorem fileLoc_joinPath {left right : ByteString} (filled : left ≠ []) (nonempty : right ≠ [])
    (relative : right.head? ≠ some (chr '/')) (noNul : 0 ∉ left) :
    fileLoc (joinPath left right) = lexical (fileLoc left) (pathSteps (cString right)) := by
  have steps : lexical [] (pathSteps (cString (joinPath left right))) =
      lexical [] (pathSteps left ++ pathSteps (cString right)) := by
    unfold joinPath
    rw [if_neg (by simpa using nonempty), if_neg (by simpa using relative),
      if_neg (by simpa using filled)]
    split
    · rename_i slash
      obtain ⟨dir, rfl⟩ := List.getLast?_eq_some_iff.mp (beq_iff_eq.mp slash)
      rw [cString_append noNul, List.append_assoc, List.singleton_append, pathSteps_append_slash,
        pathSteps_append_slash, List.append_assoc, lexical_append, lexical_append]
      rfl
    · have : left ++ str "/" ++ right = left ++ chr '/' :: right := by simp [str, chr]
      rw [this, cString_append noNul]
      rw [cString_slash, pathSteps_append_slash]
  rw [fileLoc, steps, lexical_append, fileLoc, cString_of_noNul noNul]

theorem joinPath_starts {left right : ByteString} (filled : left ≠ [])
    (relative : right.head? ≠ some (chr '/')) : left <+: joinPath left right := by
  unfold joinPath
  split
  · exact List.prefix_refl left
  rw [if_neg (by simpa using relative), if_neg (by simpa using filled)]
  split
  · exact List.prefix_append _ _
  · rw [List.append_assoc]
    exact List.prefix_append _ _

/-- Behind a NUL, a longer path leads to the same place. -/
theorem fileLoc_joinPath_of_nul {left right : ByteString} (filled : left ≠ [])
    (relative : right.head? ≠ some (chr '/')) (nul : 0 ∈ left) :
    fileLoc (joinPath left right) = fileLoc left := by
  obtain ⟨rest, whole⟩ := joinPath_starts filled relative
  rw [fileLoc, ← whole, cString_append_of_nul nul, fileLoc]

/-- A path of a directory, without a slash at its end. -/
structure PlainDir (dir : ByteString) : Prop where
  filled : dir ≠ []
  noNul : 0 ∉ dir
  noSlash : dir.getLast? ≠ some (chr '/')

instance (dir : ByteString) : Decidable (PlainDir dir) :=
  decidable_of_iff (dir ≠ [] ∧ 0 ∉ dir ∧ dir.getLast? ≠ some (chr '/'))
    ⟨fun h => ⟨h.1, h.2.1, h.2.2⟩, fun h => ⟨h.filled, h.noNul, h.noSlash⟩⟩

theorem PlainDir.joinPath {dir path : ByteString} (h : PlainDir dir) (nonempty : path ≠ [])
    (relative : path.head? ≠ some (chr '/')) : joinPath dir path = dir ++ chr '/' :: path := by
  unfold Fs.joinPath
  rw [if_neg (by simpa using nonempty), if_neg (by simpa using relative),
    if_neg (by simpa using h.filled), if_neg (by simpa using h.noSlash)]
  simp [str, chr]

/-- A path below a directory takes the steps to the directory first. -/
theorem pathSteps_joinPath {dir path : ByteString} (plain : PlainDir dir) (nonempty : path ≠ [])
    (relative : path.head? ≠ some (chr '/')) :
    pathSteps (cString (joinPath dir path)) = pathSteps dir ++ pathSteps (cString path) := by
  rw [plain.joinPath nonempty relative, cString_append plain.noNul, cString_slash,
    pathSteps_append_slash]

/-- A text that is one name as a path. -/
structure PlainName (name : ByteString) : Prop where
  plain : pathStep name = .down name
  noSlash : chr '/' ∉ name
  noNul : 0 ∉ name

instance (name : ByteString) : Decidable (PlainName name) :=
  decidable_of_iff (pathStep name = .down name ∧ chr '/' ∉ name ∧ 0 ∉ name)
    ⟨fun h => ⟨h.1, h.2.1, h.2.2⟩, fun h => ⟨h.plain, h.noSlash, h.noNul⟩⟩

section PlainName

variable {name dir : ByteString}

theorem PlainName.nonempty (h : PlainName name) : name ≠ [] := by
  rintro rfl
  exact absurd h.plain (by decide)

theorem PlainName.relative (h : PlainName name) : name.head? ≠ some (chr '/') :=
  fun first => h.noSlash (List.mem_of_head? first)

theorem PlainName.steps (h : PlainName name) : pathSteps (cString name) = [.down name] := by
  rw [cString_of_noNul h.noNul, pathSteps_component h.noSlash, h.plain]

theorem PlainName.fileLoc (h : PlainName name) (filled : dir ≠ []) (noNul : 0 ∉ dir) :
    fileLoc (joinPath dir name) = name :: fileLoc dir := by
  rw [fileLoc_joinPath filled h.nonempty h.relative noNul, h.steps]
  rfl

/-- A name in a directory leads into it, or to it when there is a NUL. -/
theorem PlainName.inside (h : PlainName name) (filled : dir ≠ []) :
    Inside (Fs.fileLoc dir) (Fs.fileLoc (joinPath dir name)) := by
  by_cases nul : 0 ∈ dir
  · rw [fileLoc_joinPath_of_nul filled h.relative nul]
  · rw [h.fileLoc filled nul]
    exact List.suffix_cons _ _

theorem PlainName.noNul_joinPath (h : PlainName name) (filled : dir ≠ []) (noNul : 0 ∉ dir) :
    0 ∉ joinPath dir name := by
  unfold joinPath
  rw [if_neg (by simpa using h.nonempty), if_neg (by simpa using h.relative),
    if_neg (by simpa using filled)]
  split
  · simp [noNul, h.noNul]
  · simp [noNul, h.noNul, str]

theorem parentOf_append {left right : ByteString} (noSlash : chr '/' ∉ right) :
    Fs.parentOf (left ++ chr '/' :: right) = left := by
  unfold Fs.parentOf List.rdropWhile
  rw [List.reverse_append, List.reverse_cons, List.append_assoc, List.dropWhile_append_of_pos]
  · simp
  · intro c mem
    have : c ≠ chr '/' := fun same => noSlash (same ▸ List.mem_reverse.mp mem)
    simpa using this

/-- The parent of a name in a directory is the directory. -/
theorem PlainName.parentOf (h : PlainName name) (filled : dir ≠ [])
    (noSlash : dir.getLast? ≠ some (chr '/')) : parentOf (joinPath dir name) = dir := by
  have path : joinPath dir name = dir ++ chr '/' :: name := by
    unfold joinPath
    rw [if_neg (by simpa using h.nonempty), if_neg (by simpa using h.relative),
      if_neg (by simpa using filled), if_neg (by simpa using noSlash)]
    simp [str, chr]
  rw [path, parentOf_append h.noSlash]

theorem PlainName.noSlash_joinPath (h : PlainName name) :
    (joinPath dir name).getLast? ≠ some (chr '/') := by
  intro last
  have there : name.getLast? = some (chr '/') := by
    unfold joinPath at last
    rw [if_neg (by simpa using h.nonempty), if_neg (by simpa using h.relative)] at last
    split at last
    · exact last
    split at last
    · rwa [List.getLast?_append_of_ne_nil _ h.nonempty] at last
    · rwa [List.getLast?_append_of_ne_nil _ h.nonempty] at last
  exact h.noSlash (List.mem_of_getLast? there)

theorem PlainName.plainDir (h : PlainName name) (plain : PlainDir dir) :
    PlainDir (joinPath dir name) := by
  refine ⟨?_, h.noNul_joinPath plain.filled plain.noNul, h.noSlash_joinPath⟩
  obtain ⟨rest, whole⟩ := joinPath_starts plain.filled h.relative
  rw [← whole]
  simp [plain.filled]

end PlainName

/-! ### Directories and what is in them -/

/-- The path leads to the home directory or into it, and every directory on the way is there
too or above it. -/
structure Reaches (home path : ByteString) : Prop where
  inside : Inside (fileLoc home) (fileLoc path)
  way : ∀ before, before <+: pathSteps (cString path) → Near (fileLoc home) (lexical [] before)

/-- A name in a directory is reached where the directory is. -/
theorem Reaches.file {home dir name : ByteString} (h : Reaches home dir) (plain : PlainName name)
    (filled : dir ≠ []) : Reaches home (joinPath dir name) := by
  have inside := h.inside.trans (plain.inside filled)
  refine ⟨inside, fun before pre => ?_⟩
  by_cases nul : 0 ∈ dir
  · obtain ⟨rest, whole⟩ := joinPath_starts filled plain.relative
    rw [← whole, cString_append_of_nul nul] at pre
    exact h.way before pre
  have steps : ∃ steps rest, pathSteps (cString dir) = steps ++ rest ∧
      pathSteps (cString (joinPath dir name)) = steps ++ [.down name] := by
    rw [cString_of_noNul nul, cString_of_noNul (plain.noNul_joinPath filled nul)]
    unfold joinPath
    rw [if_neg (by simpa using plain.nonempty), if_neg (by simpa using plain.relative),
      if_neg (by simpa using filled)]
    have last : pathSteps name = [.down name] := by
      rw [pathSteps_component plain.noSlash, plain.plain]
    split
    · rename_i slash
      obtain ⟨front, rfl⟩ := List.getLast?_eq_some_iff.mp (beq_iff_eq.mp slash)
      refine ⟨pathSteps front, pathSteps [], pathSteps_append_slash _ _, ?_⟩
      rw [List.append_assoc, List.singleton_append, pathSteps_append_slash, last]
    · refine ⟨pathSteps dir, [], (List.append_nil _).symm, ?_⟩
      have : dir ++ str "/" ++ name = dir ++ chr '/' :: name := by simp [str, chr]
      rw [this, pathSteps_append_slash, last]
  obtain ⟨steps, rest, dirSteps, nameSteps⟩ := steps
  rw [nameSteps, List.prefix_concat_iff] at pre
  rcases pre with rfl | pre
  · rw [← nameSteps]
    exact .inl inside
  · exact h.way before (dirSteps ▸ pre.trans (List.prefix_append steps rest))

/-- The parent of a path is one step before it, or at it if the path has a NUL. -/
theorem pathSteps_parentOf {path : ByteString} (slash : chr '/' ∈ path) :
    pathSteps (cString (parentOf path)) = pathSteps (cString path) ∨
      ∃ last, pathSteps (cString path) = pathSteps (cString (parentOf path)) ++ [last] := by
  obtain ⟨left, right, rfl, noSlash⟩ := exists_last_slash slash
  rw [parentOf_append noSlash]
  by_cases nul : 0 ∈ left
  · exact .inl (by rw [cString_append_of_nul nul])
  · refine .inr ⟨pathStep (cString right), ?_⟩
    rw [cString_append nul, cString_of_noNul nul, cString_slash, pathSteps_append_slash,
      pathSteps_component (noSlash_cString noSlash)]

/-- What ends below a directory is reached where its parent is. -/
theorem reaches_parentOf_iff {home path : ByteString} (slash : chr '/' ∈ path)
    (below : Below (fileLoc home) (fileLoc path)) :
    Reaches home (parentOf path) ↔ Reaches home path := by
  rcases pathSteps_parentOf slash with same | ⟨last, split⟩
  · have loc : fileLoc (parentOf path) = fileLoc path := by rw [fileLoc, same, fileLoc]
    constructor
    · exact fun h => ⟨below.inside, same ▸ h.way⟩
    · exact fun h => ⟨loc ▸ h.inside, same ▸ h.way⟩
  · constructor
    · intro h
      refine ⟨below.inside, fun before pre => ?_⟩
      rw [split, List.prefix_concat_iff] at pre
      rcases pre with rfl | pre
      · rw [← split]
        exact .inl below.inside
      · exact h.way before pre
    · intro h
      refine ⟨?_, fun before pre => h.way before (split ▸ pre.trans (List.prefix_append _ _))⟩
      have loc : fileLoc path = last.move (fileLoc (parentOf path)) := by
        rw [fileLoc, split, lexical_append]
        rfl
      exact Below.inside_before (loc ▸ below)

/-- A directory at a home directory or in it. -/
structure DirIn (home path : ByteString) : Prop extends Reaches home path where
  plain : PlainDir path

/-- A path strictly below a home directory. -/
structure FileIn (home path : ByteString) : Prop extends Reaches home path where
  plain : PlainDir path
  parent : Reaches home (parentOf path)
  below : Below (fileLoc home) (fileLoc path)

theorem dirIn_self {home : ByteString} (plain : PlainDir home) (noUp : Step.up ∉ pathSteps home) :
    DirIn home home := by
  refine ⟨⟨List.suffix_refl _, fun before pre => .inr ?_⟩, plain⟩
  rw [cString_of_noNul plain.noNul] at pre
  rw [fileLoc, cString_of_noNul plain.noNul]
  exact lexical_suffix pre noUp

/-- **Whether a path that begins with a directory stays there** shows in the rest. -/
theorem reaches_behind_iff {dir : ByteString} (home : DirIn dir dir) (rest : ByteString) :
    (Reaches dir (dir ++ chr '/' :: rest) ∧
        Below (fileLoc dir) (fileLoc (dir ++ chr '/' :: rest))) ↔
      Confines (fileLoc dir) (pathSteps (cString rest)) := by
  have steps : pathSteps (cString (dir ++ chr '/' :: rest)) =
      pathSteps dir ++ pathSteps (cString rest) := by
    rw [cString_append home.plain.noNul, cString_slash, pathSteps_append_slash]
  have start : fileLoc dir = lexical [] (pathSteps dir) := by
    rw [fileLoc, cString_of_noNul home.plain.noNul]
  have loc : fileLoc (dir ++ chr '/' :: rest) =
      lexical (fileLoc dir) (pathSteps (cString rest)) := by
    rw [fileLoc, steps, lexical_append, ← start]
  constructor
  · rintro ⟨reaches, below⟩
    refine ⟨along_iff.mpr fun before pre => ?_, below_lexical_iff.mp (loc ▸ below)⟩
    rw [start, ← lexical_append, ← start]
    apply reaches.way
    rw [steps]
    exact (List.prefix_append_right_inj _).mpr pre
  · rintro ⟨along, ends⟩
    have below := loc ▸ below_lexical_iff.mpr ends
    refine ⟨⟨below.inside, fun before pre => ?_⟩, below⟩
    rw [steps] at pre
    rcases List.prefix_or_prefix_of_prefix pre (List.prefix_append _ _) with early | ⟨late, rfl⟩
    · exact home.way before (by rwa [cString_of_noNul home.plain.noNul])
    · rw [lexical_append, ← start]
      exact along_iff.mp along late ((List.prefix_append_right_inj _).mp pre)

/-- The same of a path that is joined to the directory. -/
theorem reaches_below_iff {dir path : ByteString} (home : DirIn dir dir) (nonempty : path ≠ [])
    (relative : path.head? ≠ some (chr '/')) :
    (Reaches dir (joinPath dir path) ∧ Below (fileLoc dir) (fileLoc (joinPath dir path))) ↔
      Confines (fileLoc dir) (pathSteps (cString path)) := by
  rw [home.plain.joinPath nonempty relative]
  exact reaches_behind_iff home path

theorem FileIn.dirIn {home path : ByteString} (h : FileIn home path) : DirIn home path :=
  ⟨h.toReaches, h.plain⟩

/-- A name in a directory. -/
theorem DirIn.file {home dir name : ByteString} (h : DirIn home dir) (plain : PlainName name) :
    FileIn home (joinPath dir name) := by
  refine ⟨h.toReaches.file plain h.plain.filled, plain.plainDir h.plain, ?_, ?_⟩
  · rw [plain.parentOf h.plain.filled h.plain.noSlash]
    exact h.toReaches
  · rw [plain.fileLoc h.plain.filled h.plain.noNul]
    exact below_down h.inside name

/-! ### Actions that stay inside -/

/-- What is created is the directory or in it, and what is made on the way is above it at
most; what is written, replaced, unpacked into or removed as a tree is strictly below it. -/
def Touch.Confined (x : Touch) : Prop :=
  match x.action with
  | .create => Reaches x.home x.path
  | .write | .rename | .extract | .removeTree => Below (fileLoc x.home) (fileLoc x.path)
  | .unlink => True

/-- Everything more that was done satisfies the property. -/
def Adds (P : Touch → Prop) (t t' : Trace) : Prop :=
  ∃ new, t'.touched = t.touched ++ new ∧ ∀ x ∈ new, P x

section Adds

variable {P : Touch → Prop} {α β : Type}

instance : Std.Refl (Adds P) :=
  ⟨fun _ => ⟨[], (List.append_nil _).symm, fun _ mem => nomatch mem⟩⟩

instance : IsTrans Trace (Adds P) where
  trans := by
    rintro t t' t'' ⟨new, h, all⟩ ⟨new', h', all'⟩
    exact ⟨new ++ new', by rw [h', h, List.append_assoc], List.forall_mem_append.mpr ⟨all, all'⟩⟩

theorem ask_adds : Moves (Adds P) (ask (ε := ε) sys) :=
  fun t => refl_of (Adds P) t

theorem askText_adds : Moves (Adds P) (askText (ε := ε) sys) :=
  fun t => refl_of (Adds P) t

theorem touch_adds {action : Action} {home path : ByteString} (h : P ⟨action, home, path⟩) :
    Moves (Adds P) (touch (ε := ε) sys action home path) :=
  fun _ => ⟨_, rfl, List.forall_mem_singleton.mpr h⟩

theorem touchOrFail_adds {action : Action} {home path : ByteString} (h : P ⟨action, home, path⟩) :
    Moves (Adds P) (touchOrFail sys action home path) := by
  have look : Moves (Adds P) (update fun t => (t, t) : Act Trace ByteString Trace) :=
    fun t => refl_of (Adds P) t
  exact look.bind fun _ => (touch_adds sys h).bind fun _ => .ite (moves_pure _) (moves_throw _)

/-- A whole run from the empty trace. -/
theorem Adds.all {t : Trace} (h : Adds P {} t) : ∀ x ∈ t.touched, P x := by
  obtain ⟨new, same, all⟩ := h
  rw [same]
  exact all

end Adds

end Apm.Fs
