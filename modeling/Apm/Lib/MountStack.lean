import Mathlib.Data.List.Perm.Basic
import Mathlib.Data.List.Nodup
import Mathlib.Data.List.Count

/-!
A mount table as a stack.

The latest mount stands first. A mount can be taken away where it is seen: no later one is at its
point or at a point that covers it. Mounts whose points are apart can be taken away in any order
(`umountAll_perm`), and all mounts in the reverse of the order they were made in
(`umountAll_map`); a mount that is covered when its turn comes stays (`count_umountAll_covered`).
-/

namespace Apm.Lib.MountStack

variable {M P : Type} [DecidableEq P] (point : M → P) (covers : P → P → Bool)

/-- Take away the mount seen at a point, if there is one. -/
def umount (p : P) : List M → List M
  | [] => []
  | m :: table =>
      if point m = p then table
      else if covers (point m) p then m :: table
      else m :: umount p table

def umountAll (points : List P) (table : List M) : List M :=
  points.foldl (fun table p => umount point covers p table) table

variable {point covers} {p q : P} {m : M} {points : List P} {mounts later table : List M}

@[simp] theorem umountAll_nil : umountAll point covers [] table = table := rfl

@[simp] theorem umountAll_cons : umountAll point covers (p :: points) table =
    umountAll point covers points (umount point covers p table) := rfl

theorem umountAll_append {points' : List P} : umountAll point covers (points ++ points') table =
    umountAll point covers points' (umountAll point covers points table) :=
  List.foldl_append

theorem umount_cons_self : umount point covers (point m) (m :: table) = table := by simp [umount]

/-- Later mounts at points that are apart are not in the way. -/
theorem umount_append
    (apart : ∀ l ∈ later, point l ≠ point m ∧ covers (point l) (point m) = false) :
    umount point covers (point m) (later ++ m :: table) = later ++ table := by
  induction later with
  | nil => exact umount_cons_self
  | cons l later ih =>
    obtain ⟨⟨ne, free⟩, others⟩ := List.forall_mem_cons.mp apart
    rw [List.cons_append, umount, if_neg ne, free]
    simpa using ih others

/-- **Mounts made last are taken away first.** -/
theorem umountAll_map : umountAll point covers (mounts.map point) (mounts ++ table) = table := by
  induction mounts with
  | nil => rfl
  | cons m mounts ih =>
    rw [List.map_cons, List.cons_append, umountAll_cons, umount_cons_self]
    exact ih

/-- **Mounts that are apart are taken away in any order.** -/
theorem umountAll_perm (distinct : (mounts.map point).Nodup)
    (apart : ∀ l ∈ mounts, ∀ m ∈ mounts, covers (point l) (point m) = false)
    (h : points.Perm (mounts.map point)) :
    umountAll point covers points (mounts ++ table) = table := by
  induction points generalizing mounts with
  | nil =>
    have none : mounts = [] := List.map_eq_nil_iff.mp h.symm.eq_nil
    rw [none]
    rfl
  | cons p points ih =>
    obtain ⟨m, mem, rfl⟩ := List.mem_map.mp (h.subset List.mem_cons_self)
    obtain ⟨before, after, rfl⟩ := List.append_of_mem mem
    have others : points.Perm ((before ++ after).map point) := by
      apply List.Perm.cons_inv
      apply h.trans
      simp only [List.map_append, List.map_cons]
      exact List.perm_middle
    rw [List.map_append, List.map_cons, List.nodup_middle, ← List.map_append] at distinct
    obtain ⟨fresh, distinct⟩ := List.nodup_cons.mp distinct
    have sub : ∀ l ∈ before ++ after, l ∈ before ++ m :: after := by
      intro l hl
      simp only [List.mem_append, List.mem_cons] at hl ⊢
      exact hl.imp id .inr
    rw [umountAll_cons, List.append_assoc, List.cons_append, umount_append, ← List.append_assoc]
    · exact ih distinct (fun l hl k hk => apart l (sub l hl) k (sub k hk)) others
    · intro l hl
      have there : l ∈ before ++ after := List.mem_append_left _ hl
      refine ⟨fun same => fresh ?_, apart l (sub l there) m mem⟩
      exact same ▸ List.mem_map_of_mem there

/-! ### What stays -/

/-- How many mounts are at a point. -/
def count (point : M → P) (q : P) (table : List M) : Nat := table.countP fun m => point m = q

theorem count_umount (ne : q ≠ p) :
    count point q (umount point covers p table) = count point q table := by
  induction table with
  | nil => rfl
  | cons m table ih =>
    unfold umount
    split
    · rename_i here
      have other : point m ≠ q := fun same => ne (same.symm.trans here)
      simp [count, other]
    · split
      · rfl
      · unfold count at ih ⊢
        rw [List.countP_cons, List.countP_cons, ih]

/-- Mounts at a point that is not among those given stay. -/
theorem count_umountAll (absent : q ∉ points) :
    count point q (umountAll point covers points table) = count point q table := by
  induction points generalizing table with
  | nil => rfl
  | cons p points ih =>
    obtain ⟨ne, others⟩ := not_or.mp (mt List.mem_cons.mpr absent)
    rw [umountAll_cons, ih others, count_umount ne]

/-- **Covered mounts stay.** Until the covering mount goes, a point beneath it is not seen. -/
theorem count_umountAll_covered {early late : List P} (covered : covers (point m) q = true)
    (before : point m ∉ early) (after : q ∉ late) :
    count point q (umountAll point covers (early ++ late) (m :: table)) =
      count point q (m :: table) := by
  rw [umountAll_append, count_umountAll after]
  induction early generalizing table with
  | nil => rfl
  | cons p early ih =>
    obtain ⟨other, before⟩ := not_or.mp (mt List.mem_cons.mpr before)
    rw [umountAll_cons, umount, if_neg other]
    split
    · exact ih before
    · rename_i free
      rw [ih before]
      have apart : q ≠ p := by
        rintro rfl
        exact free covered
      unfold count
      rw [List.countP_cons, List.countP_cons]
      exact congrArg (· + _) (count_umount apart)

end Apm.Lib.MountStack
