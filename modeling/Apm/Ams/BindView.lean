import Apm.Ams.BindUnmount

/-!
What is seen at a target after the bind-mount backend has run.

## Main results

* `apply_shows_iff`: the target shows the staged tree over the base tree just when nothing hidden
  is missed and no link at the top of the base tree is in the place of a staged file or directory.
-/

namespace Apm.Ams

open Apm.Fs Apm.Lib.Effect
open Apm.Lib.FileTree (Entry Kind overlay overlay_cons_of_none overlay_cons_of_dir
  overlay_cons_of_file overlay_cons_of_link overlay_empty)

/-! ### What is seen -/

/-- No link stands on the way to the path or at its end: what is mounted on it is seen there. -/
def direct : Dir → List ByteString → Bool
  | _, [] => true
  | d, name :: path =>
      match d.find name with
      | some (.link _) => false
      | some (.dir inner) => direct inner path
      | _ => true

/-- What a path of the target shows, by the latest mount on the way to it. -/
def seenAt (target : OverlayTarget) (live : Dir) (path : List ByteString) :
    List Mount → Option (Kind ByteString)
  | [] => live.lookup path
  | m :: older =>
      match path.inits.find? fun q => pathOf target.mountPoint q == m.point && direct live q with
      | some q => m.shows (path.drop q.length)
      | none => seenAt target live path older

def Source.view : Source → View
  | .content text => fileView text
  | .merged staged base => fun path => overlay path staged base

/-- The planned mount decides what the path shows. -/
def hits (live : Dir) (path : List ByteString) (planned : Planned) : Bool :=
  planned.1.isPrefixOf path && direct live planned.1

/-- What a path shows, by a plan. -/
def seenBy (live : Dir) (plan : List Planned) (path : List ByteString) : Option (Kind ByteString) :=
  match plan.find? (hits live path) with
  | some planned => planned.2.view (path.drop planned.1.length)
  | none => live.lookup path

section Seen

variable {target : OverlayTarget} {live : Dir} {path : List ByteString} {plan : List Planned}
  {made : List Mount}

theorem find_inits {planned : Planned} (names : ∀ name ∈ path, FileName name)
    (names' : ∀ name ∈ planned.1, FileName name) :
    (path.inits.find? fun q =>
      pathOf target.mountPoint q == pathOf target.mountPoint planned.1 && direct live q) =
      if hits live path planned then some planned.1 else none := by
  have only : ∀ q ∈ path.inits, (pathOf target.mountPoint q == pathOf target.mountPoint planned.1 &&
      direct live q) = true → q = planned.1 ∧ hits live path planned = true := by
    intro q mem holds
    rw [Bool.and_eq_true, beq_iff_eq] at holds
    have pre := (List.mem_inits _ _).mp mem
    obtain rfl := pathOf_injective target.joinable (fun name h => names name (pre.subset h)) names'
      holds.1
    refine ⟨rfl, ?_⟩
    rw [hits, holds.2, Bool.and_true]
    exact List.isPrefixOf_iff_prefix.mpr pre
  split
  · rename_i hit
    rw [hits, Bool.and_eq_true, List.isPrefixOf_iff_prefix] at hit
    cases found : path.inits.find? _ with
    | none =>
      have := List.find?_eq_none.mp found planned.1 ((List.mem_inits _ _).mpr hit.1)
      exact absurd hit.2 (by simpa using this)
    | some q =>
      have holds := List.find?_some found
      rw [(only q (List.mem_of_find?_eq_some found) holds).1]
  · rename_i miss
    apply List.find?_eq_none.mpr
    intro q mem holds
    exact miss (only q mem holds).2

theorem seenAt_eq_seenBy (names : ∀ name ∈ path, FileName name)
    (planNames : ∀ planned ∈ plan, ∀ name ∈ planned.1, FileName name)
    (h : List.Forall₂ (fun (planned : Planned) (m : Mount) =>
      m.point = pathOf target.mountPoint planned.1 ∧ m.shows = planned.2.view) plan made) :
    seenAt target live path made = seenBy live plan path := by
  induction h with
  | nil => rfl
  | @cons planned m plan made first rest ih =>
    obtain ⟨here, others⟩ := List.forall_mem_cons.mp planNames
    unfold seenAt seenBy
    rw [first.1, find_inits names here, List.find?_cons]
    cases hits live path planned with
    | true => simp [first.2]
    | false => exact ih others

/-- Of planned mounts that are apart at most one decides. -/
theorem seenBy_reverse (h : Apart plan) :
    seenBy live plan.reverse path = seenBy live plan path := by
  have one : ∀ a ∈ plan, ∀ b ∈ plan, hits live path a = true → hits live path b = true → a = b := by
    intro a ha b hb hitA hitB
    by_contra other
    rw [hits, Bool.and_eq_true, List.isPrefixOf_iff_prefix] at hitA hitB
    have : Std.Symm fun a b : Planned => ¬ a.1 <+: b.1 ∧ ¬ b.1 <+: a.1 :=
      ⟨fun _ _ both => both.symm⟩
    have apart := h.apart.forall ha hb other
    exact (List.prefix_or_prefix_of_prefix hitA.1 hitB.1).elim apart.1 apart.2
  have same : plan.reverse.find? (hits live path) = plan.find? (hits live path) := by
    cases found : plan.find? (hits live path) with
    | none =>
      apply List.find?_eq_none.mpr
      intro a mem
      exact List.find?_eq_none.mp found a (List.mem_reverse.mp mem)
    | some a =>
      cases found' : plan.reverse.find? (hits live path) with
      | none =>
        have := List.find?_eq_none.mp found' a
          (List.mem_reverse.mpr (List.mem_of_find?_eq_some found))
        exact absurd (List.find?_some found) this
      | some b =>
        rw [one b (List.mem_reverse.mp (List.mem_of_find?_eq_some found')) a
          (List.mem_of_find?_eq_some found) (List.find?_some found') (List.find?_some found)]
  rw [seenBy, seenBy, same]

end Seen

/-! ### A directory handled entry by entry -/

/-- Whatever stands under hidden names of the staged directory is in the base directory already,
here and in every directory that is handled entry by entry. -/
def Covered (base : Dir) : Dir → Prop
  | .empty => True
  | .file name content rest =>
      (hidden name = true → base.find name = some (.file content)) ∧ Covered base rest
  | .link name leads rest =>
      (hidden name = true → base.find name = some (.link leads)) ∧ Covered base rest
  | .dir name inner rest =>
      (if hidden name then ∃ below, base.find name = some (.dir below) ∧
          ∀ path, (∀ n ∈ path, FileName n) → overlay path inner below = below.lookup path
        else ∀ below, base.find name = some (.dir below) → needsOverlay below below inner = false →
          Covered below inner) ∧ Covered base rest

section Entries

variable {base : Dir} {name : ByteString} {path : List ByteString} {mounts plan : List Planned}
  {names : List ByteString}

theorem seenBy_cons {planned : Planned} :
    seenBy base (planned :: plan) path =
      if hits base path planned then planned.2.view (path.drop planned.1.length)
      else seenBy base plan path := by
  unfold seenBy
  rw [List.find?_cons]
  cases hits base path planned <;> rfl

/-- Mounts under other names are not seen. -/
theorem seenBy_append_of_heads {n : ByteString} (heads : HeadedBy names mounts)
    (other : n ∉ names) :
    seenBy base (mounts ++ plan) (n :: path) = seenBy base plan (n :: path) := by
  induction mounts with
  | nil => rfl
  | cons planned mounts ih =>
    have miss : hits base (n :: path) planned = false := by
      obtain ⟨head, rest, eq, mem⟩ := heads planned List.mem_cons_self
      apply Bool.eq_false_iff.mpr
      intro hit
      rw [hits, eq, Bool.and_eq_true, List.isPrefixOf_iff_prefix] at hit
      exact other ((List.cons_prefix_cons.mp hit.1).1 ▸ mem)
    rw [List.cons_append, seenBy_cons, miss]
    exact ih fun p mem => heads p (List.mem_cons_of_mem _ mem)

theorem seenBy_of_heads {n : ByteString} (heads : HeadedBy names plan) (other : n ∉ names) :
    seenBy base plan (n :: path) = base.lookup (n :: path) := by
  have alone : seenBy base (plan ++ []) (n :: path) = seenBy base [] (n :: path) :=
    seenBy_append_of_heads heads other
  rwa [List.append_nil] at alone

/-- Nothing is mounted for a hidden name. -/
theorem seenBy_hidden (heads : HeadedBy names plan) (fresh : name ∉ names)
    (hid : hidden name = true) :
    seenBy base (planEntry name mounts ++ plan) (name :: path) = base.lookup (name :: path) := by
  rw [planEntry, if_pos hid]
  exact seenBy_of_heads heads fresh

/-- A file bound over what is no link is seen. -/
theorem seenBy_file {content : ByteString} (hid : hidden name = false)
    (noLink : ∀ leads, base.find name ≠ some (.link leads)) :
    seenBy base (planEntry name [([], .content content)] ++ plan) (name :: path) =
      fileView content path := by
  have here : direct base [name] = true := by
    unfold direct
    split
    · exact absurd ‹_› (noLink _)
    · rfl
    · rfl
  have hit : hits base (name :: path) ([name], .content content) = true := by
    simp [hits, here]
  rw [planEntry, hid, if_neg Bool.false_ne_true, List.map_singleton, List.singleton_append,
    seenBy_cons, if_pos hit]
  rfl

/-- What is mounted below a directory is seen through it. -/
theorem seenBy_dir {below : Dir} (hid : hidden name = false)
    (found : base.find name = some (.dir below)) (heads : HeadedBy names plan)
    (fresh : name ∉ names) :
    seenBy base (planEntry name mounts ++ plan) (name :: path) = seenBy below mounts path := by
  rw [planEntry, hid, if_neg Bool.false_ne_true]
  induction mounts with
  | nil =>
    rw [List.map_nil, List.nil_append, seenBy_of_heads heads fresh]
    exact Lib.FileTree.Dir.lookup_cons_of_dir found
  | cons planned mounts ih =>
    have same : hits base (name :: path) (name :: planned.1, planned.2) =
      hits below path planned := by
      simp [hits, direct, found]
    rw [List.map_cons, List.cons_append, seenBy_cons, seenBy_cons, same, ih]
    rfl

/-- What leads through a link is not seen. -/
theorem seenBy_link {leads : ByteString} (found : base.find name = some (.link leads))
    (heads : HeadedBy names plan) (fresh : name ∉ names) :
    seenBy base (planEntry name mounts ++ plan) (name :: path) = base.lookup (name :: path) := by
  unfold planEntry
  split
  · exact seenBy_of_heads heads fresh
  induction mounts with
  | nil => exact seenBy_of_heads heads fresh
  | cons planned mounts ih =>
    have miss : hits base (name :: path) (name :: planned.1, planned.2) = false := by
      simp [hits, direct, found]
    rw [List.map_cons, List.cons_append, seenBy_cons, miss]
    exact ih

/-- The directory shows the overlay of the staged one over the base. -/
def ShowsOverlay (base staged : Dir) (plan : List Planned) : Prop :=
  ∀ path, (∀ n ∈ path, FileName n) → seenBy base plan path = overlay path staged base

/-- The names of these entries show what the overlay shows. -/
def ShowsNames (base staged : Dir) (plan : List Planned) : Prop :=
  ∀ n ∈ staged.names, ∀ path, (∀ n ∈ path, FileName n) →
    seenBy base plan (n :: path) = overlay (n :: path) staged base

theorem overlay_rest {upper rest lower : Dir} {n : ByteString}
    (h : upper.find n = rest.find n) :
    overlay (n :: path) upper lower = overlay (n :: path) rest lower := by
  rw [overlay, overlay, h]

theorem find_of_lookup_file {content : ByteString}
    (h : base.lookup [name] = some (.file content)) : base.find name = some (.file content) := by
  obtain ⟨e, found, kind⟩ := Lib.FileTree.Dir.find_of_lookup h
  cases e <;> cases kind
  exact found

theorem find_of_lookup_link {leads : ByteString} (h : base.lookup [name] = some (.link leads)) :
    base.find name = some (.link leads) := by
  obtain ⟨e, found, kind⟩ := Lib.FileTree.Dir.find_of_lookup h
  cases e <;> cases kind
  exact found

theorem find_of_lookup_dir (h : base.lookup [name] = some .dir) :
    ∃ below, base.find name = some (.dir below) := by
  obtain ⟨e, found, kind⟩ := Lib.FileTree.Dir.find_of_lookup h
  cases e <;> cases kind
  exact ⟨_, found⟩

/-- A hidden file of the staged directory is left out. -/
theorem hidden_file_iff (content : ByteString) (rest : Dir) :
    (∀ path, (∀ n ∈ path, FileName n) →
      base.lookup (name :: path) = overlay (name :: path) (.file name content rest) base) ↔
    base.find name = some (.file content) := by
  have here : (Lib.FileTree.Dir.file name content rest).find name = some (.file content) :=
    if_pos rfl
  constructor
  · intro h
    have kind := h [] nofun
    rw [overlay_cons_of_file here] at kind
    exact find_of_lookup_file kind
  · intro h path _
    rw [overlay_cons_of_file here, Lib.FileTree.Dir.lookup_cons, h]
    rfl

theorem hidden_link_iff (leads : ByteString) (rest : Dir) :
    (∀ path, (∀ n ∈ path, FileName n) →
      base.lookup (name :: path) = overlay (name :: path) (.link name leads rest) base) ↔
    base.find name = some (.link leads) := by
  have here : (Lib.FileTree.Dir.link name leads rest).find name = some (.link leads) := if_pos rfl
  constructor
  · intro h
    have kind := h [] nofun
    rw [overlay_cons_of_link here] at kind
    exact find_of_lookup_link kind
  · intro h path _
    rw [overlay_cons_of_link here, Lib.FileTree.Dir.lookup_cons, h]
    rfl

theorem hidden_dir_iff (inner rest : Dir) :
    (∀ path, (∀ n ∈ path, FileName n) →
      base.lookup (name :: path) = overlay (name :: path) (.dir name inner rest) base) ↔
    ∃ below, base.find name = some (.dir below) ∧
      ∀ path, (∀ n ∈ path, FileName n) → overlay path inner below = below.lookup path := by
  have here : (Lib.FileTree.Dir.dir name inner rest).find name = some (.dir inner) := if_pos rfl
  constructor
  · intro h
    have kind := h [] nofun
    rw [overlay_cons_of_dir here] at kind
    obtain ⟨below, found⟩ := find_of_lookup_dir kind
    refine ⟨below, found, fun path names => ?_⟩
    have := h path names
    rw [overlay_cons_of_dir here, Lib.FileTree.Dir.sub_of_dir found,
      Lib.FileTree.Dir.lookup_cons_of_dir found] at this
    exact this.symm
  · rintro ⟨below, found, h⟩ path names
    rw [overlay_cons_of_dir here, Lib.FileTree.Dir.sub_of_dir found,
      Lib.FileTree.Dir.lookup_cons_of_dir found]
    exact (h path names).symm

/-- What a directory shows, from what its names show. -/
theorem showsOverlay_iff {staged : Dir} (heads : HeadedBy staged.names plan)
    (ordered : staged.Ordered FileName) :
    ShowsOverlay base staged plan ↔ ShowsNames base staged plan := by
  constructor
  · intro h n mem path names
    exact h (n :: path) (List.forall_mem_cons.mpr ⟨ordered.name mem, names⟩)
  · intro h path names
    cases path with
    | nil =>
      have none : plan.find? (hits base []) = none := by
        apply List.find?_eq_none.mpr
        intro planned mem hit
        obtain ⟨n, rest, eq, -⟩ := heads planned mem
        simp [hits, eq] at hit
      rw [seenBy, none]
      rfl
    | cons n path =>
      by_cases mem : n ∈ staged.names
      · exact h n mem path (List.forall_mem_cons.mp names).2
      · rw [seenBy_of_heads heads mem,
          overlay_cons_of_none (Lib.FileTree.Dir.find_eq_none mem)]

theorem exists_of_isDir {e : Option (Entry ByteString ByteString)} (h : isDir e = true) :
    ∃ d, e = some (.dir d) := by
  unfold isDir at h
  split at h
  · exact ⟨_, rfl⟩
  · cases h

/-- One name more. -/
theorem showsNames_cons {staged rest : Dir} (names : staged.names = name :: rest.names)
    (finds : ∀ n, n ≠ name → staged.find n = rest.find n) (fresh : name ∉ rest.names) :
    ShowsNames base staged (planEntry name mounts ++ plan) ↔
      (∀ path, (∀ n ∈ path, FileName n) →
        seenBy base (planEntry name mounts ++ plan) (name :: path) =
        overlay (name :: path) staged base) ∧ ShowsNames base rest plan := by
  have others : ∀ n ∈ rest.names, ∀ path,
      seenBy base (planEntry name mounts ++ plan) (n :: path) = overlay (n :: path) staged base ↔
        seenBy base plan (n :: path) = overlay (n :: path) rest base := by
    intro n mem path
    have ne : n ≠ name := by
      rintro rfl
      exact fresh mem
    rw [seenBy_append_of_heads headedBy_planEntry (by simpa using ne), overlay_rest (finds n ne)]
  unfold ShowsNames
  rw [names, List.forall_mem_cons]
  apply and_congr_right
  intro _
  constructor
  · exact fun h n mem path valid => (others n mem path).mp (h n mem path valid)
  · exact fun h n mem path valid => (others n mem path).mpr (h n mem path valid)

/-- What `applyBindBackendRecursively` shows, from what its second loop shows. -/
theorem planDir_shows_iff {staged : Dir} (ordered : staged.Ordered FileName)
    (h : needsOverlay base base staged = false →
      (ShowsNames base staged (planEntries base base staged) ↔ Covered base staged)) :
    ShowsOverlay base staged (planDir base base staged) ↔
      (needsOverlay base base staged = false → Covered base staged) := by
  unfold planDir
  cases need : needsOverlay base base staged with
  | true =>
    constructor
    · exact fun _ no => nomatch no
    · intro _ path _
      rw [if_pos rfl, seenBy_cons, if_pos (by simp [hits, direct])]
      rfl
  | false =>
    rw [if_neg Bool.false_ne_true, showsOverlay_iff (planEntries_apart ordered _ _).2 ordered,
      h need]
    exact ⟨fun covered _ => covered, fun covered => covered rfl⟩

/-- A name under which nothing is mounted shows what the base shows. -/
theorem seen_hidden_iff {staged : Dir} {Q : Prop} (heads : HeadedBy names plan)
    (fresh : name ∉ names) (hid : hidden name = true)
    (h : (∀ path, (∀ n ∈ path, FileName n) →
      base.lookup (name :: path) = overlay (name :: path) staged base) ↔ Q) :
    (∀ path, (∀ n ∈ path, FileName n) → seenBy base (planEntry name mounts ++ plan) (name :: path) =
      overlay (name :: path) staged base) ↔ Q := by
  rw [← h]
  apply forall_congr'
  intro path
  rw [seenBy_hidden heads fresh hid]

/-- A file bound over what is no link shows what the overlay shows. -/
theorem seen_file {content : ByteString} (rest : Dir) (hid : hidden name = false)
    (noLink : ∀ leads, base.find name ≠ some (.link leads)) :
    seenBy base (planEntry name [([], .content content)] ++ plan) (name :: path) =
      overlay (name :: path) (.file name content rest) base := by
  have here : (Lib.FileTree.Dir.file name content rest).find name = some (.file content) :=
    if_pos rfl
  rw [seenBy_file hid noLink, overlay_cons_of_file here]
  rfl

/-- A directory shows the overlay just when it does so below. -/
theorem seen_dir_iff {d inner : Dir} (rest : Dir) (hid : hidden name = false)
    (found : base.find name = some (.dir d)) (heads : HeadedBy names plan) (fresh : name ∉ names) :
    (∀ path, (∀ n ∈ path, FileName n) → seenBy base (planEntry name mounts ++ plan) (name :: path) =
      overlay (name :: path) (.dir name inner rest) base) ↔ ShowsOverlay d inner mounts := by
  have here : (Lib.FileTree.Dir.dir name inner rest).find name = some (.dir inner) := if_pos rfl
  apply forall_congr'
  intro path
  rw [seenBy_dir hid found heads fresh, overlay_cons_of_dir here, Lib.FileTree.Dir.sub_of_dir found]

/-- **A directory handled entry by entry** shows the overlay just when it is covered. -/
theorem planEntries_shows_iff {staged : Dir} (ordered : staged.Ordered FileName)
    (fits : needsOverlay base base staged = false) :
    ShowsNames base staged (planEntries base base staged) ↔ Covered base staged := by
  induction staged generalizing base with
  | empty => exact ⟨fun _ => trivial, fun _ => List.forall_mem_nil _⟩
  | file name content rest ih =>
    obtain ⟨valid, least, others⟩ := ordered
    rw [needsOverlay, Bool.or_eq_false_iff] at fits
    have heads := (planEntries_apart others base base).2
    have fresh := fresh_of_lt least
    have names : (Lib.FileTree.Dir.file name content rest).names = name :: rest.names := rfl
    rw [planEntries, showsNames_cons names (fun n ne => if_neg ne.symm) fresh, ih others fits.2,
      Covered]
    apply and_congr_left
    intro _
    cases hid : hidden name with
    | true =>
      rw [seen_hidden_iff heads fresh hid (hidden_file_iff content rest)]
      exact ⟨fun h _ => h, fun h => h rfl⟩
    | false =>
      have regular : isRegular (base.find name) = true := by simpa [hid, misfit] using fits.1
      have noLink : ∀ leads, base.find name ≠ some (.link leads) := by
        intro leads found
        rw [found] at regular
        cases regular
      exact ⟨fun _ no => absurd no Bool.false_ne_true, fun _ path _ => seen_file rest hid noLink⟩
  | link name leads rest ih =>
    obtain ⟨valid, least, others⟩ := ordered
    rw [needsOverlay, Bool.or_eq_false_iff] at fits
    have hid : hidden name = true := by simpa [misfit] using fits.1
    have heads := (planEntries_apart others base base).2
    have fresh := fresh_of_lt least
    have plan : planEntries base base (.link name leads rest) =
        planEntry name [] ++ planEntries base base rest := by simp [planEntries, planEntry]
    have names : (Lib.FileTree.Dir.link name leads rest).names = name :: rest.names := rfl
    rw [plan, showsNames_cons names (fun n ne => if_neg ne.symm) fresh, ih others fits.2, Covered,
      seen_hidden_iff heads fresh hid (hidden_link_iff leads rest)]
    exact and_congr_left fun _ => ⟨fun h _ => h, fun h => h hid⟩
  | dir name inner rest ihInner ih =>
    obtain ⟨valid, least, below, others⟩ := ordered
    rw [needsOverlay, Bool.or_eq_false_iff] at fits
    have heads := (planEntries_apart others base base).2
    have fresh := fresh_of_lt least
    have names : (Lib.FileTree.Dir.dir name inner rest).names = name :: rest.names := rfl
    rw [planEntries, showsNames_cons names (fun n ne => if_neg ne.symm) fresh, ih others fits.2,
      Covered]
    apply and_congr_left
    intro _
    cases hid : hidden name with
    | true =>
      rw [if_pos rfl]
      exact seen_hidden_iff heads fresh hid (hidden_dir_iff inner rest)
    | false =>
      have directory : isDir (base.find name) = true := by simpa [hid, misfit] using fits.1
      obtain ⟨d, found⟩ := exists_of_isDir directory
      have shows : ShowsOverlay d inner (planDir d d inner) ↔ _ :=
        planDir_shows_iff below fun need => ihInner below need
      rw [if_neg Bool.false_ne_true]
      simp only [found]
      apply (seen_dir_iff rest hid found heads fresh).trans
      apply shows.trans
      constructor
      · rintro h d' same
        cases same
        exact h
      · exact fun h => h d rfl

end Entries

/-! ### The top of the staged tree -/

/-- What `Covered` says, for the top, where a link of the base tree is followed: none is in the
place of a staged file or directory. -/
def CoveredTop (base : Dir) : Dir → Prop
  | .empty => True
  | .file name content rest =>
      (if hidden name then base.find name = some (.file content)
        else ∀ leads, base.find name ≠ some (.link leads)) ∧ CoveredTop base rest
  | .link name leads rest =>
      (hidden name = true → base.find name = some (.link leads)) ∧ CoveredTop base rest
  | .dir name inner rest =>
      (if hidden name then ∃ below, base.find name = some (.dir below) ∧
          ∀ path, (∀ n ∈ path, FileName n) → overlay path inner below = below.lookup path
        else (∀ leads, base.find name ≠ some (.link leads)) ∧
          ∀ below, base.find name = some (.dir below) → needsOverlay below below inner = false →
            Covered below inner) ∧ CoveredTop base rest

section Top

variable {k : Kernel} {base target staged : Dir}

theorem planTop_heads {entries : Dir} (ordered : entries.Ordered FileName)
    (single : fallsBack entries = false) :
    Apart (planTop k staged base target entries) ∧
      HeadedBy entries.names (planTop k staged base target entries) := by
  obtain ⟨mounts, plan, apart, heads⟩ := planTop_apart (k := k) ordered staged base target
  rw [single, if_neg Bool.false_ne_true, List.append_nil] at plan
  rw [plan]
  exact ⟨apart, heads⟩

theorem followed_of_noLink {leads : ByteString → Option (Entry ByteString ByteString)}
    {name : ByteString} (noLink : ∀ text, base.find name ≠ some (.link text)) :
    followed leads base name = base.find name := by
  unfold followed
  split
  · exact absurd ‹_› (noLink _)
  · rfl

/-- Behind a link nothing of the overlay is seen at its own path. -/
theorem not_seen_of_link {name leads : ByteString} {mounts plan : List Planned}
    {names : List ByteString} {upper : Dir} {e : Entry ByteString ByteString}
    (found : base.find name = some (.link leads)) (heads : HeadedBy names plan)
    (fresh : name ∉ names) (here : upper.find name = some e) (other : ∀ text, e ≠ .link text) :
    ¬ ∀ path, (∀ n ∈ path, FileName n) →
      seenBy base (planEntry name mounts ++ plan) (name :: path) =
      overlay (name :: path) upper base := by
  intro h
  have kind := h [] nofun
  rw [seenBy_link found heads fresh, Lib.FileTree.Dir.lookup_cons, found] at kind
  cases e with
  | file content =>
    rw [overlay_cons_of_file here] at kind
    cases kind
  | link text => exact other text rfl
  | dir inner =>
    rw [overlay_cons_of_dir here] at kind
    cases kind

/-- **The top of the staged tree** shows the overlay just when it is covered. -/
theorem planTop_shows_iff {entries : Dir} (ordered : entries.Ordered FileName)
    (passes : Passes k base base entries) (single : fallsBack entries = false) :
    ShowsNames base entries (planTop k staged base base entries) ↔ CoveredTop base entries := by
  induction entries with
  | empty => exact ⟨fun _ => trivial, fun _ => List.forall_mem_nil _⟩
  | file name content rest ih =>
    obtain ⟨valid, least, others⟩ := ordered
    have heads : HeadedBy rest.names (planTop k staged base base rest) :=
      (planTop_heads others single).2
    have fresh := fresh_of_lt least
    have names : (Lib.FileTree.Dir.file name content rest).names = name :: rest.names := rfl
    have here : (Lib.FileTree.Dir.file name content rest).find name = some (.file content) :=
      if_pos rfl
    rw [planTop, showsNames_cons names (fun n ne => if_neg ne.symm) fresh,
      ih others passes.2 single,
      CoveredTop]
    apply and_congr_left
    intro _
    cases hid : hidden name with
    | true =>
      rw [if_pos rfl]
      exact seen_hidden_iff heads fresh hid (hidden_file_iff content rest)
    | false =>
      rw [if_neg Bool.false_ne_true]
      constructor
      · intro h leads found
        exact not_seen_of_link found heads fresh here (fun _ same => by cases same) h
      · exact fun noLink path _ => seen_file rest hid noLink
  | link name leads rest ih =>
    obtain ⟨valid, least, others⟩ := ordered
    unfold fallsBack at single
    obtain ⟨hid, single⟩ : hidden name = true ∧ fallsBack rest = false := by simpa using single
    have heads : HeadedBy rest.names (planTop k staged base base rest) :=
      (planTop_heads others single).2
    have fresh := fresh_of_lt least
    have names : (Lib.FileTree.Dir.link name leads rest).names = name :: rest.names := rfl
    have plan : planTop k staged base base (.link name leads rest) =
        planEntry name [] ++ planTop k staged base base rest := by simp [planTop, planEntry, hid]
    rw [plan, showsNames_cons names (fun n ne => if_neg ne.symm) fresh,
      ih others (passes hid) single,
      CoveredTop, seen_hidden_iff heads fresh hid (hidden_link_iff leads rest)]
    exact and_congr_left fun _ => ⟨fun h _ => h, fun h => h hid⟩
  | dir name inner rest _ ih =>
    obtain ⟨valid, least, below, others⟩ := ordered
    have heads : HeadedBy rest.names (planTop k staged base base rest) :=
      (planTop_heads others single).2
    have fresh := fresh_of_lt least
    have names : (Lib.FileTree.Dir.dir name inner rest).names = name :: rest.names := rfl
    have here : (Lib.FileTree.Dir.dir name inner rest).find name = some (.dir inner) := if_pos rfl
    rw [planTop, showsNames_cons names (fun n ne => if_neg ne.symm) fresh,
      ih others passes.2 single,
      CoveredTop]
    apply and_congr_left
    intro _
    cases hid : hidden name with
    | true =>
      rw [if_pos rfl]
      exact seen_hidden_iff heads fresh hid (hidden_dir_iff inner rest)
    | false =>
      rw [if_neg Bool.false_ne_true]
      by_cases link : ∃ leads, base.find name = some (.link leads)
      · obtain ⟨leads, found⟩ := link
        constructor
        · exact fun h => absurd h
            (not_seen_of_link found heads fresh here fun _ same => by cases same)
        · exact fun h => absurd found (h.1 leads)
      · rw [not_exists] at link
        have directory := (passes.1 hid).1
        rw [followed_of_noLink link] at directory
        obtain ⟨d, found⟩ := exists_of_isDir directory
        have shows : ShowsOverlay d inner (planDir d d inner) ↔ _ :=
          planDir_shows_iff below fun need => planEntries_shows_iff below need
        rw [followed_of_noLink link, followed_of_noLink link]
        simp only [found]
        apply (seen_dir_iff rest hid found heads fresh).trans
        apply shows.trans
        constructor
        · intro h
          refine ⟨fun _ same => (by cases same), ?_⟩
          rintro d' same
          cases same
          exact h
        · exact fun h => h.2 d rfl

end Top

/-! ### The target after a run -/

/-- A read-only overlay shows the first directory over the second one, where `lowerdir` is read as
it is meant. -/
def OverlaysUnion (k : Kernel) : Prop :=
  ∀ n stagedDir baseDir staged base view, PlainOption stagedDir → PlainOption baseDir →
    k.overlays n (stagedDir ++ str ":" ++ baseDir) staged base = some view →
      view = fun path => overlay path staged base

/-- Overlays are planned only where `lowerdir` is read as it is meant. -/
def OptionsPlain (plan : List Planned) : Prop :=
  ∀ planned ∈ plan, ∀ staged base, planned.2 = .merged staged base →
    ∀ name ∈ planned.1, PlainOption name

/-- The staged tree; without layers it stays empty. -/
def StagedTree (k : Kernel) (target : OverlayTarget) (layers : List (Option Tree)) (w : Mounts)
    (staged : Tree) : Prop :=
  layers = [] ∧ staged.1 = .empty ∨ layers ≠ [] ∧ Staged k target layers w staged

section Target

variable {k : Kernel} {target : OverlayTarget} {base staged : Tree} {plan : List Planned}
  {made : List Mount}

theorem PlainOption.append {s s' : ByteString} (h : PlainOption s) (h' : PlainOption s') :
    PlainOption (s ++ s') := by
  intro c mem
  exact (List.mem_append.mp mem).elim (h c) (h' c)

theorem PlainOption.join {left right : ByteString} (h : PlainOption left)
    (h' : PlainOption right) : PlainOption (joinPath left right) := by
  unfold joinPath
  split
  · exact h
  split
  · exact h'
  split
  · exact h'
  split
  · exact h.append h'
  · have slash : PlainOption (str "/") := by decide
    exact (h.append slash).append h'

theorem PlainOption.pathOf {dir : ByteString} {path : List ByteString} (h : PlainOption dir)
    (names : ∀ name ∈ path, PlainOption name) : PlainOption (pathOf dir path) := by
  induction path generalizing dir with
  | nil => exact h
  | cons name path ih =>
    obtain ⟨first, others⟩ := List.forall_mem_cons.mp names
    exact ih (h.join first) others

theorem plain_stagedLayerPath (target : OverlayTarget) : PlainOption (stagedLayerPath target) := by
  have root : PlainOption (str "/mnt/ams-overlay-") := by decide
  have layer : PlainOption (str "bind-layer") := by decide
  exact ((root.append target.plainName).join target.plainName).join layer

theorem plain_baseMirrorPath (target : OverlayTarget) : PlainOption (baseMirrorPath target) := by
  have root : PlainOption Config.getModuleRuntimeBaseDir := by decide
  exact root.join target.plainName

/-- The mounts show what was planned. -/
theorem shows_of_makes (kernel : OverlaysUnion k) (plain : OptionsPlain plan)
    (h : List.Forall₂
      (Makes k (stagedLayerPath target) (baseMirrorPath target) target.mountPoint) plan made) :
    List.Forall₂ (fun (planned : Planned) (m : Mount) =>
      m.point = pathOf target.mountPoint planned.1 ∧ m.shows = planned.2.view) plan made := by
  induction h with
  | nil => exact .nil
  | @cons planned m plan made first rest ih =>
    obtain ⟨here, others⟩ := List.forall_mem_cons.mp plain
    refine .cons ⟨first.1, ?_⟩ (ih others)
    obtain ⟨path, source⟩ := planned
    obtain ⟨-, shows⟩ := first
    cases source with
    | content text => exact shows
    | merged staged base =>
      obtain ⟨n, shown⟩ := shows
      have names := here staged base rfl
      exact kernel n _ _ staged base m.shows ((plain_stagedLayerPath target).pathOf names)
        ((plain_baseMirrorPath target).pathOf names) shown

theorem shows_iff (kernel : OverlaysUnion k)
    (passes : Passes k base.1 base.1 staged.1)
    (plain : OptionsPlain (planTop k staged.1 base.1 base.1 staged.1))
    (h : List.Forall₂
      (Makes k (stagedLayerPath target) (baseMirrorPath target) target.mountPoint)
      (planTop k staged.1 base.1 base.1 staged.1) made) :
    (∀ path, (∀ n ∈ path, FileName n) →
      seenAt target base.1 path made.reverse = overlay path staged.1 base.1) ↔
    fallsBack staged.1 = true ∨ CoveredTop base.1 staged.1 := by
  obtain ⟨single, plan, apart, heads⟩ :=
    planTop_apart (k := k) staged.2 staged.1 base.1 base.1
  have names : ∀ planned ∈ planTop k staged.1 base.1 base.1 staged.1, ∀ n ∈ planned.1,
      FileName n := by
    rw [plan]
    intro planned mem
    rcases List.mem_append.mp mem with mem | mem
    · exact apart.names planned mem
    · split at mem
      · rw [List.mem_singleton.mp mem]
        exact nofun
      · cases mem
  have seen : ∀ path, (∀ n ∈ path, FileName n) → seenAt target base.1 path made.reverse =
      seenBy base.1 (planTop k staged.1 base.1 base.1 staged.1).reverse path := by
    intro path valid
    apply seenAt_eq_seenBy valid
    · exact fun planned mem => names planned (List.mem_reverse.mp mem)
    · exact List.forall₂_reverse_iff.mpr (shows_of_makes kernel plain h)
  cases fall : fallsBack staged.1 with
  | true =>
    refine ⟨fun _ => .inl rfl, fun _ path valid => ?_⟩
    rw [seen path valid, plan, fall, if_pos rfl, List.reverse_append, List.reverse_singleton,
      List.singleton_append, seenBy_cons, if_pos (by simp [hits, direct])]
    rfl
  | false =>
    obtain ⟨apart, heads⟩ : Apart (planTop k staged.1 base.1 base.1 staged.1) ∧ _ :=
      planTop_heads staged.2 fall
    rw [← planTop_shows_iff staged.2 passes fall, ← showsOverlay_iff heads staged.2]
    simp only [Bool.false_eq_true, false_or]
    apply forall_congr'
    intro path
    apply forall_congr'
    intro valid
    rw [seen path valid, seenBy_reverse apart]

end Target

/-- **What the target shows.** After a run that succeeds on a target whose base mirror equals it,
the target shows the staged tree over the base tree just when it falls back to one overlay of all or
the base tree is covered. -/
theorem apply_shows_iff (k : Kernel) (kernel : OverlaysUnion k) (target : OverlayTarget)
    (layers : List (Option Tree)) (base : Tree) (w w' : Mounts)
    (run : exec (applyBindMountBackendForTarget k target layers base base) w = (.ok (), w')) :
    ∃ (staged : Tree) (made : List Mount),
      StagedTree k target layers w staged ∧ w'.table = made.reverse ++ released w ∧
      (OptionsPlain (planTop k staged.1 base.1 base.1 staged.1) →
        ((∀ path, (∀ n ∈ path, FileName n) →
            seenAt target base.1 path made.reverse = overlay path staged.1 base.1) ↔
          fallsBack staged.1 = true ∨ CoveredTop base.1 staged.1)) := by
  have spec : wp (applyBindMountBackendForTarget k target layers base base) _ _ w :=
    applyBindMountBackendForTarget_spec layers base base w
  obtain ⟨made, table, -, none | some⟩ := spec.ok run
  · obtain ⟨rfl, rfl⟩ := none
    refine ⟨⟨.empty, trivial⟩, [], .inl ⟨rfl, rfl⟩, table, fun _ => ?_⟩
    constructor
    · exact fun _ => .inr trivial
    · exact fun _ path _ => overlay_empty.symm
  · obtain ⟨nonempty, staged, isStaged, passes, makes⟩ := some
    exact ⟨staged, made, .inr ⟨nonempty, isStaged⟩, table, fun plain =>
      shows_iff kernel passes plain makes⟩

/-- Where the overlay is shown, staged paths show what is staged, and other paths what the base
tree has unless a staged file or link is in their place. -/
theorem shows_parts {target : OverlayTarget} {base staged : Tree} {made : List Mount}
    (shows : ∀ path, (∀ n ∈ path, FileName n) →
      seenAt target base.1 path made = overlay path staged.1 base.1)
    {path : List ByteString} (names : ∀ n ∈ path, FileName n) :
    (∀ kind, staged.1.lookup path = some kind → seenAt target base.1 path made = some kind) ∧
      (staged.1.lookup path = none →
        (∀ before n after, path = before ++ n :: after →
          staged.1.lookup before = none ∨ staged.1.lookup before = some .dir) →
        seenAt target base.1 path made = base.1.lookup path) := by
  rw [shows path names]
  constructor
  · intro kind found
    exact Lib.FileTree.overlay_upper found
  · intro absent clear
    exact Lib.FileTree.overlay_lower absent clear

theorem willing_overlaysUnion : OverlaysUnion willing := by
  intro n stagedDir baseDir staged base view _ _ h
  exact (Option.some.inj h).symm

/-- One file replaced. -/
theorem apply_shows_file :
    ∃ made : List Mount,
      (exec (applyBindMountBackendForTarget willing systemTarget [some (oneFile (str "new"))]
        (oneFile (str "old")) (oneFile (str "old"))) {}).2.table = made.reverse ++ released {} ∧
      ∀ path, (∀ n ∈ path, FileName n) →
        seenAt systemTarget (oneFile (str "old")).1 path made.reverse =
          overlay path (oneFile (str "new")).1 (oneFile (str "old")).1 := by
  obtain ⟨staged, made, isStaged, table, shows⟩ :=
    apply_shows_iff willing willing_overlaysUnion systemTarget [some (oneFile (str "new"))]
      (oneFile (str "old")) {} _ rfl
  obtain ⟨none, -⟩ | ⟨-, w₁, w₂, first, second⟩ := isStaged
  · cases none
  cases first
  cases second
  refine ⟨made, table, (shows ?_).mpr (.inr ?_)⟩
  · intro planned mem staged base merged
    have only : planned = ([str "a"], .content (str "new")) := by
      simpa [planTop, planEntry, oneFile, Fs.hidden, str, chr] using mem
    rw [only] at merged
    cases merged
  · have plain : hidden (str "a") = false := by decide
    refine ⟨?_, trivial⟩
    rw [plain, if_neg Bool.false_ne_true]
    intro leads found
    cases found

/-- A directory `etc` with these entries. -/
def etc (inner : Tree) : Tree :=
  ⟨.dir (str "etc") inner.1 .empty, ⟨by decide, by decide⟩, nofun, inner.2, trivial⟩

/-- A directory with the hidden file `.a`. -/
def hiddenFile : Tree :=
  ⟨.file (str ".a") (str "new") .empty, ⟨by decide, by decide⟩, nofun, trivial⟩

/-- A hidden file of a layer is not shown in a directory that is handled entry by entry. -/
theorem hidden_file_not_shown :
    OverlaysUnion willing ∧
      (exec (applyBindMountBackendForTarget willing systemTarget [some (etc hiddenFile)]
        (etc (oneFile (str "old"))) (etc (oneFile (str "old")))) {}).1.isOk ∧
      (exec (applyBindMountBackendForTarget willing systemTarget [some (etc hiddenFile)]
        (etc (oneFile (str "old"))) (etc (oneFile (str "old")))) {}).2.table = [] ∧
      seenAt systemTarget (etc (oneFile (str "old"))).1 [str "etc", str ".a"] [] = none ∧
      overlay [str "etc", str ".a"] (etc hiddenFile).1 (etc (oneFile (str "old"))).1 =
        some (.file (str "new")) := by
  refine ⟨willing_overlaysUnion, ?_, ?_, ?_, ?_⟩
  · decide +kernel
  · rfl
  · decide +kernel
  · decide +kernel

end Apm.Ams
