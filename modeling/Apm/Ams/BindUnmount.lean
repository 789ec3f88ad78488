import Apm.Ams.BindRun
import Apm.Core.StanzaText
import Mathlib.Data.List.Dedup

/-!
Taking the mounts of the bind-mount backend away again.

## Main results

* `apply_unmount_iff`: a run that fails leaves no mount; after one that succeeds, unmounting what
  is tracked restores the mounts just when every mounted path can be read back from the state file
  and no overlay of the whole target hides other mounts.
-/

namespace Apm.Ams

open Apm.Fs Apm.Lib.Effect
open Apm.Lib.FileTree (Entry Kind)
open Apm.Lib.MountStack (umount umountAll umountAll_perm count count_umountAll
  count_umountAll_covered)
open Apm.Lib.Text (unlines not_mem_of_mem_splitOn rdropWhile_eq_self_of_last)
open Apm.Repo (getlines_unlines mem_splitOn_of_mem_getlines)

/-! ### Paths as text -/

/-- A path that a name can be joined to with a slash. -/
def Joinable (dir : ByteString) : Prop := dir ≠ [] ∧ dir.getLast? ≠ some (chr '/')

/-- The text of a path below a directory. -/
def pathText (path : List ByteString) : ByteString := path.flatMap fun name => chr '/' :: name

theorem pathText_cons (name : ByteString) (path : List ByteString) :
    pathText (name :: path) = chr '/' :: (name ++ pathText path) := by simp [pathText]

theorem joinPath_fileName {dir name : ByteString} (h : Joinable dir) (hname : FileName name) :
    joinPath dir name = dir ++ chr '/' :: name := by
  have relative : name.head? ≠ some (chr '/') := fun first =>
    hname.2 (List.mem_of_mem_head? first)
  unfold joinPath
  rw [if_neg (by simpa using hname.1), if_neg (by simpa using relative),
    if_neg (by simpa using h.1),
    if_neg (by simpa using h.2)]
  simp [str, chr]

theorem Joinable.join {dir name : ByteString} (h : Joinable dir) (hname : FileName name) :
    Joinable (joinPath dir name) := by
  rw [joinPath_fileName h hname]
  refine ⟨by simp, ?_⟩
  rw [List.getLast?_append_of_ne_nil _ (by simp), List.getLast?_cons_of_ne_nil hname.1]
  exact fun last => hname.2 (List.mem_of_mem_getLast? last)

theorem pathOf_eq {dir : ByteString} {path : List ByteString} (h : Joinable dir)
    (names : ∀ name ∈ path, FileName name) : pathOf dir path = dir ++ pathText path := by
  induction path generalizing dir with
  | nil => exact (List.append_nil dir).symm
  | cons name path ih =>
    obtain ⟨first, others⟩ := List.forall_mem_cons.mp names
    calc pathOf dir (name :: path) = pathOf (joinPath dir name) path := rfl
      _ = joinPath dir name ++ pathText path := ih (h.join first) others
      _ = dir ++ pathText (name :: path) := by
        rw [joinPath_fileName h first]
        simp [pathText]

/-- A name ends at the first slash. -/
theorem name_eq_of_prefix {name name' rest rest' : ByteString} (h : chr '/' ∉ name)
    (h' : chr '/' ∉ name') (pre : name ++ chr '/' :: rest <+: name' ++ chr '/' :: rest') :
    name = name' ∧ rest <+: rest' := by
  induction name generalizing name' with
  | nil =>
    cases name' with
    | nil => exact ⟨rfl, (List.cons_prefix_cons.mp pre).2⟩
    | cons c name' =>
      have same := (List.cons_prefix_cons.mp pre).1
      exact absurd (same ▸ List.mem_cons_self) h'
  | cons c name ih =>
    cases name' with
    | nil =>
      have same := (List.cons_prefix_cons.mp pre).1
      exact absurd (same ▸ List.mem_cons_self) h
    | cons c' name' =>
      obtain ⟨rfl, tails⟩ := List.cons_prefix_cons.mp pre
      obtain ⟨rfl, rests⟩ := ih (fun mem => h (List.mem_cons_of_mem _ mem))
        (fun mem => h' (List.mem_cons_of_mem _ mem)) tails
      exact ⟨rfl, rests⟩

/-- Texts that go on with a slash tell how the paths lie. -/
theorem prefix_of_pathText {path path' : List ByteString} (names : ∀ name ∈ path, FileName name)
    (names' : ∀ name ∈ path', FileName name)
    (pre : pathText path ++ str "/" <+: pathText path' ++ str "/") : path <+: path' := by
  induction path generalizing path' with
  | nil => exact List.nil_prefix
  | cons name path ih =>
    obtain ⟨first, others⟩ := List.forall_mem_cons.mp names
    cases path' with
    | nil =>
      have short := pre.length_le
      simp [pathText, str, first.1] at short
    | cons name' path' =>
      obtain ⟨first', others'⟩ := List.forall_mem_cons.mp names'
      have slash : ∀ p : List ByteString, ∃ rest, pathText p ++ str "/" = chr '/' :: rest := by
        intro p
        cases p with
        | nil => exact ⟨[], rfl⟩
        | cons n p => exact ⟨n ++ pathText p ++ str "/", by simp [pathText]⟩
      obtain ⟨rest, after⟩ := slash path
      obtain ⟨rest', after'⟩ := slash path'
      have here : name ++ chr '/' :: rest <+: name' ++ chr '/' :: rest' := by
        rw [← after, ← after']
        rw [pathText_cons, pathText_cons, List.cons_append, List.cons_append, List.append_assoc,
          List.append_assoc] at pre
        exact (List.cons_prefix_cons.mp pre).2
      obtain ⟨rfl, rests⟩ := name_eq_of_prefix first.2 first'.2 here
      rw [List.prefix_cons_inj]
      apply ih others others'
      rw [after, after']
      exact List.cons_prefix_cons.mpr ⟨rfl, rests⟩

section Points

variable {dir : ByteString} {path path' : List ByteString}

theorem prefix_of_covers (h : Joinable dir) (names : ∀ name ∈ path, FileName name)
    (names' : ∀ name ∈ path', FileName name)
    (covered : covers (pathOf dir path) (pathOf dir path') = true) : path <+: path' := by
  rw [covers, pathOf_eq h names, pathOf_eq h names', List.isPrefixOf_iff_prefix,
    List.append_assoc, List.prefix_append_right_inj] at covered
  exact prefix_of_pathText names names' (covered.trans (List.prefix_append _ _))

theorem pathOf_injective (h : Joinable dir) (names : ∀ name ∈ path, FileName name)
    (names' : ∀ name ∈ path', FileName name) (same : pathOf dir path = pathOf dir path') :
    path = path' := by
  rw [pathOf_eq h names, pathOf_eq h names', List.append_cancel_left_eq] at same
  have one := prefix_of_pathText names names' (by rw [same])
  have two := prefix_of_pathText names' names (by rw [same])
  exact one.eq_of_length (le_antisymm one.length_le two.length_le)

/-- A target covers what is mounted below it. -/
theorem covers_pathOf (h : Joinable dir) (names : ∀ name ∈ path, FileName name) (some : path ≠ []) :
    covers dir (pathOf dir path) = true := by
  obtain ⟨name, rest, rfl⟩ := List.exists_cons_of_ne_nil some
  rw [covers, pathOf_eq h names, List.isPrefixOf_iff_prefix, List.prefix_append_right_inj]
  exact ⟨name ++ pathText rest, rfl⟩

end Points

/-! ### The state file -/

/-- The path is read back from a line of the state file. -/
def Kept (path : ByteString) : Prop :=
  path ≠ [] ∧ chr '\n' ∉ path ∧ ∀ c ∈ path.getLast?, ¬ trailing c

instance (path : ByteString) : Decidable (Kept path) := inferInstanceAs (Decidable (_ ∧ _ ∧ _))

theorem mem_loadBindMountState {raw : Option ByteString} {path : ByteString}
    (mem : path ∈ loadBindMountState raw) : Kept path := by
  unfold loadBindMountState at mem
  dsimp only at mem
  rw [List.mem_dedup, List.mem_insertionSort, List.mem_filter, List.mem_map] at mem
  obtain ⟨⟨line, isLine, rfl⟩, some⟩ := mem
  have nonempty : line.rdropWhile trailing ≠ [] := by simpa using some
  refine ⟨nonempty, fun newline => ?_, fun c last => ?_⟩
  · have noNewline := not_mem_of_mem_splitOn (mem_splitOn_of_mem_getlines isLine)
    exact noNewline ((List.rdropWhile_prefix _ _).subset newline)
  · have := List.rdropWhile_last_not trailing line nonempty
    rw [List.getLast?_eq_some_getLast nonempty] at last
    cases last
    exact this

/-- Paths that are kept are read back. -/
theorem loadBindMountState_lines {paths : List ByteString} (kept : ∀ path ∈ paths, Kept path) :
    loadBindMountState (some (bindMountLines paths)) =
      (paths.insertionSort (· ≤ ·)).dedup := by
  have lines : getlines (chr '\n') (bindMountLines paths) = paths := by
    have whole : bindMountLines paths = unlines (chr '\n') paths ++ [] := by
      rw [List.append_nil]
      rfl
    rw [whole, getlines_unlines fun path mem => (kept path mem).2.1]
    have nothing : getlines (chr '\n') [] = [] := rfl
    rw [nothing, List.append_nil]
  have untrimmed : paths.map (·.rdropWhile trailing) = paths := by
    conv_rhs => rw [← List.map_id paths]
    apply List.map_congr_left
    intro path mem
    exact rdropWhile_eq_self_of_last (kept path mem).2.2
  have nonempty : paths.filter (!·.isEmpty) = paths := by
    apply List.filter_eq_self.mpr
    intro path mem
    simpa using (kept path mem).1
  unfold loadBindMountState
  dsimp only [Option.getD_some]
  rw [lines, untrimmed, nonempty]

/-- Paths that are kept are tracked, each once. -/
theorem loadBindMountState_perm {paths : List ByteString} (kept : ∀ path ∈ paths, Kept path)
    (distinct : paths.Nodup) :
    (loadBindMountState (some (bindMountLines paths))).Perm paths := by
  have sorted := List.perm_insertionSort (· ≤ ·) paths
  rw [loadBindMountState_lines kept, (sorted.nodup_iff.mpr distinct).dedup]
  exact sorted

/-- Tracked paths stand in order. -/
theorem loadBindMountState_pairwise (raw : Option ByteString) :
    (loadBindMountState raw).Pairwise (· ≤ ·) := by
  unfold loadBindMountState
  apply List.Pairwise.sublist (List.dedup_sublist _)
  have : Std.Total (α := ByteString) (· ≤ ·) := ⟨List.le_total⟩
  have : IsTrans ByteString (· ≤ ·) := ⟨fun _ _ _ => List.le_trans⟩
  exact List.pairwise_insertionSort _ _

/-! ### Where mounts are planned -/

/-- No planned path lies on the way to another, and all are made of names. -/
structure Apart (plan : List Planned) : Prop where
  names : ∀ planned ∈ plan, ∀ name ∈ planned.1, FileName name
  apart : plan.Pairwise fun a b => ¬ a.1 <+: b.1 ∧ ¬ b.1 <+: a.1

/-- The planned paths begin with these names. -/
def HeadedBy (names : List ByteString) (plan : List Planned) : Prop :=
  ∀ planned ∈ plan, ∃ name rest, planned.1 = name :: rest ∧ name ∈ names

section Plan

variable {plan plan' : List Planned} {name : ByteString} {names : List ByteString}

theorem Apart.nil : Apart [] := ⟨by simp, .nil⟩

theorem Apart.here (source : Source) : Apart [([], source)] :=
  ⟨by simp, List.pairwise_singleton _ _⟩

theorem Apart.planEntry (h : Apart plan) (hname : FileName name) : Apart (planEntry name plan) := by
  unfold Ams.planEntry
  split
  · exact .nil
  constructor
  · intro planned mem
    obtain ⟨inner, there, rfl⟩ := List.mem_map.mp mem
    exact List.forall_mem_cons.mpr ⟨hname, h.names inner there⟩
  · apply List.pairwise_map.mpr
    apply h.apart.imp
    rintro a b ⟨one, two⟩
    exact ⟨fun pre => one (List.cons_prefix_cons.mp pre).2,
      fun pre => two (List.cons_prefix_cons.mp pre).2⟩

theorem headedBy_planEntry : HeadedBy [name] (planEntry name plan) := by
  unfold planEntry
  split
  · exact nofun
  · intro planned mem
    obtain ⟨inner, -, rfl⟩ := List.mem_map.mp mem
    exact ⟨name, inner.1, rfl, List.mem_singleton_self name⟩

theorem HeadedBy.append (h : HeadedBy [name] plan) (h' : HeadedBy names plan') :
    HeadedBy (name :: names) (plan ++ plan') := by
  intro planned mem
  rcases List.mem_append.mp mem with mem | mem
  · obtain ⟨n, rest, eq, here⟩ := h planned mem
    exact ⟨n, rest, eq, List.mem_singleton.mp here ▸ List.mem_cons_self⟩
  · obtain ⟨n, rest, eq, here⟩ := h' planned mem
    exact ⟨n, rest, eq, List.mem_cons_of_mem _ here⟩

/-- What begins with different names is apart. -/
theorem Apart.append (h : Apart plan) (h' : Apart plan') (heads : HeadedBy [name] plan)
    (heads' : HeadedBy names plan') (fresh : name ∉ names) : Apart (plan ++ plan') := by
  constructor
  · intro planned mem
    exact (List.mem_append.mp mem).elim (h.names planned) (h'.names planned)
  · apply List.pairwise_append.mpr ⟨h.apart, h'.apart, ?_⟩
    intro a ha b hb
    obtain ⟨n, rest, eq, here⟩ := heads a ha
    obtain ⟨n', rest', eq', there⟩ := heads' b hb
    rw [eq, eq']
    have other : n ≠ n' := by
      rintro rfl
      exact fresh (List.mem_singleton.mp here ▸ there)
    exact ⟨fun pre => other (List.cons_prefix_cons.mp pre).1,
      fun pre => other (List.cons_prefix_cons.mp pre).1.symm⟩

theorem fresh_of_lt (h : ∀ m ∈ names, name < m) : name ∉ names :=
  fun mem => List.lt_irrefl name (h name mem)

theorem planDir_apart {base target staged : Dir}
    (h : Apart (planEntries base target staged)) : Apart (planDir base target staged) := by
  unfold planDir
  split
  · exact .here _
  · exact h

theorem planEntries_apart {staged : Dir} (ordered : staged.Ordered FileName) (base target : Dir) :
    Apart (planEntries base target staged) ∧
      HeadedBy staged.names (planEntries base target staged) := by
  induction staged generalizing base target with
  | empty => exact ⟨.nil, List.forall_mem_nil _⟩
  | file name content rest ih =>
    obtain ⟨valid, least, others⟩ := ordered
    obtain ⟨apart, heads⟩ := ih others base target
    exact ⟨((Apart.here _).planEntry valid).append apart headedBy_planEntry heads
      (fresh_of_lt least), headedBy_planEntry.append heads⟩
  | link name leads rest ih =>
    obtain ⟨valid, least, others⟩ := ordered
    obtain ⟨apart, heads⟩ := ih others base target
    refine ⟨apart, fun planned mem => ?_⟩
    obtain ⟨n, tail, eq, there⟩ := heads planned mem
    exact ⟨n, tail, eq, List.mem_cons_of_mem _ there⟩
  | dir name inner rest ihInner ih =>
    obtain ⟨valid, least, below, others⟩ := ordered
    obtain ⟨apart, heads⟩ := ih others base target
    unfold planEntries
    refine ⟨(Apart.planEntry ?_ valid).append apart headedBy_planEntry heads (fresh_of_lt least),
      headedBy_planEntry.append heads⟩
    split
    · exact planDir_apart (ihInner below _ _).1
    · exact .nil

/-- At the top everything is apart, but for an overlay of all that may come last. -/
theorem planTop_apart {k : Kernel} {entries : Dir} (ordered : entries.Ordered FileName)
    (staged base target : Dir) :
    ∃ single, planTop k staged base target entries =
        single ++ (if fallsBack entries then [([], .merged staged base)] else []) ∧
      Apart single ∧ HeadedBy entries.names single := by
  induction entries with
  | empty => exact ⟨[], rfl, .nil, List.forall_mem_nil _⟩
  | file name content rest ih =>
    obtain ⟨valid, least, others⟩ := ordered
    obtain ⟨single, plan, apart, heads⟩ := ih others
    refine ⟨_, ?_, ((Apart.here (.content content)).planEntry valid).append apart headedBy_planEntry
      heads (fresh_of_lt least), headedBy_planEntry.append heads⟩
    rw [planTop, plan, List.append_assoc, fallsBack]
  | link name leads rest ih =>
    obtain ⟨valid, least, others⟩ := ordered
    unfold planTop fallsBack
    split
    · rename_i hid
      obtain ⟨single, plan, apart, heads⟩ := ih others
      refine ⟨single, ?_, apart, fun planned mem => ?_⟩
      · rw [plan, hid, Bool.not_true, Bool.false_or]
      · obtain ⟨n, tail, eq, there⟩ := heads planned mem
        exact ⟨n, tail, eq, List.mem_cons_of_mem _ there⟩
    · rename_i shown
      refine ⟨[], ?_, .nil, List.forall_mem_nil _⟩
      rw [Bool.eq_false_iff.mpr shown]
      rfl
  | dir name inner rest _ ih =>
    obtain ⟨valid, least, below, others⟩ := ordered
    obtain ⟨single, plan, apart, heads⟩ := ih others
    obtain ⟨mounts, head, entry⟩ : ∃ mounts, planTop k staged base target (.dir name inner rest) =
        planEntry name mounts ++ planTop k staged base target rest ∧ Apart mounts := by
      refine ⟨_, rfl, ?_⟩
      split
      · exact planDir_apart (planEntries_apart below _ _).1
      · exact .nil
    refine ⟨_, ?_, (entry.planEntry valid).append apart headedBy_planEntry heads
      (fresh_of_lt least), headedBy_planEntry.append heads⟩
    rw [head, plan, List.append_assoc, fallsBack]

end Plan

/-! ### Unmounting -/

section Unmounting

variable {k : Kernel} {target : OverlayTarget} {plan : List Planned} {made table : List Mount}

theorem OverlayTarget.joinable (target : OverlayTarget) : Joinable target.mountPoint :=
  ⟨target.nonempty, target.noSlash⟩

/-- Where mounts are planned. -/
def points (target : OverlayTarget) (plan : List Planned) : List ByteString :=
  plan.map fun planned => pathOf target.mountPoint planned.1

theorem map_point {stagedDir baseDir : ByteString}
    (h : List.Forall₂ (Makes k stagedDir baseDir target.mountPoint) plan made) :
    made.map Mount.point = points target plan := by
  unfold points
  induction h with
  | nil => rfl
  | cons first _ ih => rw [List.map_cons, List.map_cons, first.1, ih]

theorem covers_irrefl (path : ByteString) : covers path path = false := by
  apply Bool.eq_false_iff.mpr
  intro covered
  have short := (List.isPrefixOf_iff_prefix.mp covered).length_le
  have slash : (str "/").length = 1 := rfl
  rw [List.length_append, slash] at short
  omega

theorem Apart.not_covers (h : Apart plan) {p q : ByteString} (hp : p ∈ points target plan)
    (hq : q ∈ points target plan) : covers p q = false := by
  obtain ⟨a, ha, rfl⟩ := List.mem_map.mp hp
  obtain ⟨b, hb, rfl⟩ := List.mem_map.mp hq
  by_cases same : a = b
  · rw [same]
    exact covers_irrefl _
  apply Bool.eq_false_iff.mpr
  intro covered
  have pre := prefix_of_covers target.joinable (h.names a ha) (h.names b hb) covered
  have : Std.Symm fun a b : Planned => ¬ a.1 <+: b.1 ∧ ¬ b.1 <+: a.1 :=
    ⟨fun _ _ both => both.symm⟩
  exact (h.apart.forall ha hb same).1 pre

theorem Apart.nodup (h : Apart plan) : (points target plan).Nodup := by
  apply List.pairwise_map.mpr
  apply (List.Pairwise.and_mem.mp h.apart).imp
  rintro a b ⟨ha, hb, apart⟩ same
  have paths := pathOf_injective target.joinable (h.names a ha) (h.names b hb) same
  exact apart.1 (paths ▸ List.prefix_rfl)

/-- Mounts that are apart and kept are all taken away. -/
theorem Apart.released (h : Apart plan) (kept : ∀ path ∈ points target plan, Kept path)
    (same : made.map Mount.point = points target plan) :
    umountAll Mount.point covers
      (loadBindMountState (some (bindMountLines (made.map Mount.point)))).reverse
      (made.reverse ++ table) = table := by
  have distinct : (points target plan).Nodup := h.nodup
  apply umountAll_perm
  · rw [List.map_reverse, List.nodup_reverse, same]
    exact distinct
  · intro l hl m hm
    have planned : ∀ l ∈ made.reverse, l.point ∈ points target plan := fun l hl =>
      same ▸ List.mem_map_of_mem (List.mem_reverse.mp hl)
    exact h.not_covers (planned l hl) (planned m hm)
  · rw [List.map_reverse, same]
    exact (List.reverse_perm _).trans
      ((loadBindMountState_perm kept distinct).trans (List.reverse_perm _).symm)

/-- The mounts at and below the target. -/
def atTarget (target : OverlayTarget) (table : List Mount) : List Mount :=
  table.filter fun m => m.point == target.mountPoint || covers target.mountPoint m.point

/-- A mount that is still there is seen at the target. -/
theorem atTarget_ne {q : ByteString} {table' : List Mount}
    (there : q = target.mountPoint ∨ covers target.mountPoint q = true)
    (more : count Mount.point q table < count Mount.point q table') :
    atTarget target table' ≠ atTarget target table := by
  have counted : ∀ t, count Mount.point q (atTarget target t) = count Mount.point q t := by
    intro t
    unfold count atTarget
    rw [List.countP_filter]
    apply List.countP_congr
    intro m _
    simp only [Bool.and_eq_true, decide_eq_true_eq]
    constructor
    · exact fun h => h.1
    · rintro rfl
      exact ⟨rfl, by simpa using there⟩
  intro same
  have := congrArg (count Mount.point q) same
  rw [counted, counted] at this
  omega

/-- Every mounted path can be read back, and no overlay of the whole target comes after other
mounts. -/
def Clean (target : OverlayTarget) (plan : List Planned) : Prop :=
  (∀ path ∈ points target plan, Kept path) ∧
    (target.mountPoint ∈ points target plan → points target plan = [target.mountPoint])

instance : Decidable (Clean target plan) := inferInstanceAs (Decidable (_ ∧ _))

/-- What is planned below the target is covered by it. -/
theorem covers_points {names : List ByteString} (h : Apart plan) (heads : HeadedBy names plan)
    {q : ByteString} (mem : q ∈ points target plan) : covers target.mountPoint q = true := by
  obtain ⟨planned, there, rfl⟩ := List.mem_map.mp mem
  obtain ⟨name, rest, eq, -⟩ := heads planned there
  exact covers_pathOf target.joinable (h.names planned there) (by simp [eq])

theorem ne_of_covers {above q : ByteString} (covered : covers above q = true) : q ≠ above := by
  rintro rfl
  rw [covers_irrefl] at covered
  cases covered

theorem not_le_of_covers {above q : ByteString} (covered : covers above q = true) :
    ¬ q ≤ above := by
  intro le
  obtain ⟨rest, rfl⟩ := List.isPrefixOf_iff_prefix.mp covered
  rw [List.append_assoc] at le
  exact ne_of_covers covered (List.append_assoc .. ▸ List.le_antisymm le (List.le_append_left))

theorem count_lt_of_mem {q : ByteString} (mem : q ∈ made.map Mount.point) :
    count Mount.point q table < count Mount.point q (made.reverse ++ table) := by
  obtain ⟨m, there, rfl⟩ := List.mem_map.mp mem
  unfold count
  rw [List.countP_append, List.countP_reverse]
  have : 0 < made.countP fun m' => m'.point = m.point :=
    List.countP_pos_iff.mpr ⟨m, there, by simp⟩
  omega

/-- A path that cannot be read back stays mounted. -/
theorem not_restored_of_not_kept {q : ByteString} (mem : q ∈ made.map Mount.point)
    (there : q = target.mountPoint ∨ covers target.mountPoint q = true) (lost : ¬ Kept q)
    (raw : Option ByteString) :
    atTarget target (umountAll Mount.point covers (loadBindMountState raw).reverse
      (made.reverse ++ table)) ≠ atTarget target table := by
  apply atTarget_ne there
  rw [count_umountAll fun tracked => lost (mem_loadBindMountState (List.mem_reverse.mp tracked))]
  exact count_lt_of_mem mem

/-- What an overlay of the whole target covers stays mounted. -/
theorem not_restored_of_covered {q : ByteString} {m : Mount} (mem : q ∈ made.map Mount.point)
    (last : m.point = target.mountPoint) (covered : covers target.mountPoint q = true)
    (raw : Option ByteString) :
    atTarget target (umountAll Mount.point covers (loadBindMountState raw).reverse
      (m :: (made.reverse ++ table))) ≠ atTarget target table := by
  apply atTarget_ne (.inr covered)
  have stays : count Mount.point q (umountAll Mount.point covers (loadBindMountState raw).reverse
      (m :: (made.reverse ++ table))) =
      count Mount.point q (m :: (made.reverse ++ table)) := by
    have sorted := List.pairwise_reverse.mpr (loadBindMountState_pairwise raw)
    by_cases tracked : m.point ∈ (loadBindMountState raw).reverse
    · obtain ⟨early, late, split, first⟩ := List.eq_append_cons_of_mem tracked
      rw [split]
      rw [split] at sorted
      apply count_umountAll_covered (last ▸ covered) first
      intro again
      rcases List.mem_cons.mp again with same | later
      · exact ne_of_covers covered (same.trans last)
      · have le := (List.pairwise_cons.mp (List.pairwise_append.mp sorted).2.1).1 q later
        exact not_le_of_covers covered (last ▸ le)
    · rw [← List.append_nil (loadBindMountState raw).reverse]
      exact count_umountAll_covered (last ▸ covered) tracked (by simp)
  rw [stays]
  have below : count Mount.point q table < count Mount.point q (made.reverse ++ table) :=
    count_lt_of_mem mem
  unfold count at below ⊢
  rw [List.countP_cons]
  omega

/-- **When unmounting restores the mounts.** -/
theorem restored_iff {entries : Dir} (ordered : entries.Ordered FileName) {staged base live : Dir}
    (same : made.map Mount.point = points target (planTop k staged base live entries)) :
    atTarget target (umountAll Mount.point covers
      (loadBindMountState (some (bindMountLines (made.map Mount.point)))).reverse
      (made.reverse ++ table)) = atTarget target table ↔
    Clean target (planTop k staged base live entries) := by
  obtain ⟨single, plan, apart, heads⟩ := planTop_apart (k := k) ordered staged base live
  obtain ⟨last, plan, all⟩ : ∃ last, planTop k staged base live entries = single ++ last ∧
      (last = [] ∨ last = [([], .merged staged base)]) := by
    refine ⟨_, plan, ?_⟩
    split
    · exact .inr rfl
    · exact .inl rfl
  rw [plan] at same ⊢
  have below : ∀ q ∈ points target single, covers target.mountPoint q = true :=
    fun q => covers_points apart heads
  constructor
  · intro restored
    constructor
    · intro q mem
      by_contra lost
      refine not_restored_of_not_kept (same ▸ mem) ?_ lost _ restored
      rcases all with rfl | rfl
      · exact .inr (below q (by simpa [points] using mem))
      · unfold points at mem
        rw [List.map_append, List.mem_append] at mem
        exact mem.symm.imp (fun here => by simpa [pathOf] using here) (below q)
    · intro whole
      rcases all with rfl | rfl
      · rw [List.append_nil] at whole
        exact absurd rfl (ne_of_covers (below _ whole))
      · have split : points target (single ++ [([], .merged staged base)]) =
            points target single ++ [target.mountPoint] := by simp [points, pathOf]
        rw [split] at same ⊢
        cases others : points target single with
        | nil => rfl
        | cons q more =>
          obtain ⟨made', ms, rfl, first, lasts⟩ := List.map_eq_append_iff.mp same
          obtain ⟨m, rfl, lastPoint⟩ := List.map_eq_singleton_iff.mp lasts
          have mem : q ∈ made'.map Mount.point := by
            rw [first, others]
            exact List.mem_cons_self
          have covered := below q (others ▸ List.mem_cons_self)
          apply absurd restored
          rw [List.reverse_append, List.append_assoc]
          exact not_restored_of_covered mem lastPoint covered _
  · rintro ⟨kept, whole⟩
    have neat : Apart (single ++ last) := by
      rcases all with rfl | rfl
      · rwa [List.append_nil]
      · have here : target.mountPoint ∈ points target (single ++ [([], .merged staged base)]) := by
          simp [points, pathOf]
        have one := congrArg List.length (whole here)
        have none : single = [] := by
          apply List.eq_nil_of_length_eq_zero
          simpa [points] using one
        rw [none]
        exact .here _
    exact congrArg (atTarget target) (neat.released kept same)

theorem unmountTrackedBindMounts_table (w : Mounts) :
    (exec (unmountTrackedBindMounts k target) w).2.table = released w := by
  have spec : wp (unmountTrackedBindMounts k target) _ _ w := unmountTrackedBindMounts_spec w
  rcases run : exec (unmountTrackedBindMounts k target) w with ⟨_ | _, w'⟩
  · exact spec.error run
  · exact (spec.ok run).1

end Unmounting

/-- **Mounting and unmounting.** Without tracked mounts to begin with, a run that fails leaves the
mounts as they were. After one that succeeds, unmounting what is tracked brings back the mounts at
and below the target just when what was mounted for the staged tree is clean. -/
theorem apply_unmount_iff (k : Kernel) (target : OverlayTarget) (layers : List (Option Tree))
    (base live : Tree) (w : Mounts) (untracked : loadBindMountState w.stateFile = []) :
    (∀ err w', exec (applyBindMountBackendForTarget k target layers base live) w =
      (.error err, w') → w'.table = w.table) ∧
    ∀ w', exec (applyBindMountBackendForTarget k target layers base live) w = (.ok (), w') →
      (atTarget target (exec (unmountTrackedBindMounts k target) w').2.table =
          atTarget target w.table ↔
        (layers ≠ [] → ∀ staged, Staged k target layers w staged →
          Clean target (planTop k staged.1 base.1 live.1 staged.1))) := by
  have spec : wp (applyBindMountBackendForTarget k target layers base live) _ _ w :=
    applyBindMountBackendForTarget_spec layers base live w
  rw [released_of_untracked untracked] at spec
  constructor
  · intro err w' run
    exact spec.error run
  intro w' run
  obtain ⟨made, table, saved, none | some⟩ := spec.ok run
  · obtain ⟨rfl, rfl⟩ := none
    rw [unmountTrackedBindMounts_table, released, saved, table]
    exact ⟨fun _ h => absurd rfl h, fun _ => rfl⟩
  · obtain ⟨nonempty, staged, isStaged, -, makes⟩ := some
    have only : ∀ other, Staged k target layers w other → other = staged := by
      rintro other ⟨w₁, w₂, first, second⟩
      obtain ⟨w₃, w₄, first', second'⟩ := isStaged
      rw [first] at first'
      cases first'
      rw [second] at second'
      cases second'
      rfl
    rw [unmountTrackedBindMounts_table, released, saved, table,
      restored_iff staged.2 (map_point makes)]
    constructor
    · intro clean _ other h
      rw [only other h]
      exact clean
    · intro clean
      exact clean nonempty staged isStaged

/-- A kernel under which nothing fails, for a single layer. -/
def willing : Kernel where
  stages _ := true
  copies _ layer _ := some layer
  stats _ := true
  binds _ := true
  overlays _ _ staged base := some fun path => Lib.FileTree.overlay path staged base
  saves _ := true
  left _ := none
  message _ := []
  baseLeads _ := none
  targetLeads _ := none

def systemTarget : OverlayTarget := ⟨str "system", str "/system", by decide, by decide, by decide⟩

/-- A directory with the file `a`. -/
def oneFile (content : ByteString) : Tree :=
  ⟨.file (str "a") content .empty, ⟨by decide, by decide⟩, nofun, trivial⟩

/-- A directory with the file `a` and the link `b`. -/
def fileAndLink : Tree :=
  ⟨.file (str "a") (str "new") (.link (str "b") (str "a") .empty), ⟨by decide, by decide⟩,
    by decide, ⟨by decide, by decide⟩, nofun, trivial⟩

/-- One file replaced. -/
theorem apply_unmount_file :
    atTarget systemTarget (exec (unmountTrackedBindMounts willing systemTarget)
      (exec (applyBindMountBackendForTarget willing systemTarget [some (oneFile (str "new"))]
        (oneFile (str "old")) (oneFile (str "old"))) {}).2).2.table = atTarget systemTarget [] := by
  have ends : exec (applyBindMountBackendForTarget willing systemTarget
      [some (oneFile (str "new"))] (oneFile (str "old")) (oneFile (str "old"))) {} =
      (.ok (), (exec (applyBindMountBackendForTarget willing systemTarget
        [some (oneFile (str "new"))] (oneFile (str "old")) (oneFile (str "old"))) {}).2) :=
    Prod.ext (by decide +kernel) rfl
  refine ((apply_unmount_iff willing systemTarget [some (oneFile (str "new"))]
    (oneFile (str "old")) (oneFile (str "old")) {} rfl).2 _ ends).mpr ?_
  rintro - staged ⟨w₁, w₂, first, second⟩
  cases first
  cases second
  decide

/-- A link at the top of a layer: the file mounted before it stays mounted. -/
theorem link_leaks_mount :
    loadBindMountState ({} : Mounts).stateFile = [] ∧
      (exec (applyBindMountBackendForTarget willing systemTarget [some fileAndLink]
        (oneFile (str "old")) (oneFile (str "old"))) {}).1.isOk ∧
      (atTarget systemTarget (exec (unmountTrackedBindMounts willing systemTarget)
        (exec (applyBindMountBackendForTarget willing systemTarget [some fileAndLink]
          (oneFile (str "old")) (oneFile (str "old"))) {}).2).2.table).map Mount.point =
        [str "/system/a"] := by
  decide +kernel

end Apm.Ams
