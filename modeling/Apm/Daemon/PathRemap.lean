import Apm.Daemon.Migration

/-!
Recorded paths of older layouts: `remapAnyPrefix` of `src/apmd/apmd.cpp`, with the prefixes that the
migrations of the status file and of the packages installed by hand give it.

A prefix is compared as text. It is not asked whether the name in which it ends does so in the path.

## Main results

* `remapAnyPrefix_componentwise_iff`: a path that was remapped stays, and only paths below an old
  directory are changed just when no old prefix goes on as another name in the path.
-/

namespace Apm.Daemon.Migration

open Apm.Config

/-- The recorded paths that a start changes. -/
inductive PathField where
  | installRoot | installPrefix
  /-- The prefix of a package installed by hand. -/
  | manualPrefix
deriving DecidableEq

def PathField.prefixes : PathField → List (ByteString × ByteString)
  | .installRoot | .manualPrefix => installedPrefixes
  | .installPrefix => termuxPrefixes

/-- What stands behind a directory in a path: nothing, or something in it. -/
def EndsComponent (rest : ByteString) : Prop := ∀ c ∈ rest.head?, c = chr '/'

instance : DecidablePred EndsComponent :=
  fun rest => inferInstanceAs (Decidable (∀ c ∈ rest.head?, _))

/-- The path is not changed, or it is the old directory or below it, and the new one takes its
place. -/
def Componentwise (prefixes : List (ByteString × ByteString)) (path : ByteString) : Prop :=
  remapAnyPrefix path prefixes = path ∨
    ∃ entry ∈ prefixes, ∃ rest, path = entry.1 ++ rest ∧ EndsComponent rest ∧
      remapAnyPrefix path prefixes = entry.2 ++ rest

/-- The path begins with an old prefix, and goes on with more of its last name. -/
def RunsOn (prefixes : List (ByteString × ByteString)) (path : ByteString) : Prop :=
  ∃ entry ∈ prefixes, ∃ rest, path = entry.1 ++ rest ∧ ¬ EndsComponent rest

/-- No two old prefixes begin the same path. -/
def OldApart (prefixes : List (ByteString × ByteString)) : Prop :=
  ∀ a ∈ prefixes, ∀ b ∈ prefixes, a.1 <+: b.1 → a = b

instance (prefixes : List (ByteString × ByteString)) : Decidable (OldApart prefixes) :=
  inferInstanceAs (Decidable (∀ a ∈ prefixes, ∀ b ∈ prefixes, _))

section Remap

variable {prefixes : List (ByteString × ByteString)} {path rest : ByteString}
  {entry : ByteString × ByteString}

/-- A path begins with one old prefix at most. -/
theorem OldApart.eq_of_append (apart : OldApart prefixes) {other : ByteString × ByteString}
    (mem : entry ∈ prefixes) (mem' : other ∈ prefixes) {rest' : ByteString}
    (same : entry.1 ++ rest = other.1 ++ rest') : entry = other ∧ rest = rest' := by
  have one : entry = other := by
    have starts : other.1 <+: entry.1 ++ rest := same ▸ List.prefix_append _ _
    rcases List.prefix_or_prefix_of_prefix (List.prefix_append _ _) starts with within | within
    · exact apart entry mem other mem' within
    · exact (apart other mem' entry mem within).symm
  subst one
  exact ⟨rfl, List.append_cancel_left same⟩

/-- An old prefix that the path begins with is replaced, and the new one is another text. -/
theorem remapAnyPrefix_ne (apart : Apart prefixes) (old : OldApart prefixes)
    (mem : entry ∈ prefixes) (rest : ByteString) :
    remapAnyPrefix (entry.1 ++ rest) prefixes ≠ entry.1 ++ rest := by
  obtain ⟨none, -⟩ | ⟨used, mem', rest', same, eq⟩ :=
    remapAnyPrefix_cases prefixes (entry.1 ++ rest)
  · exact absurd (List.prefix_append _ _) (none entry mem)
  · obtain ⟨rfl, rfl⟩ := old.eq_of_append mem mem' same
    rw [eq]
    intro stays
    obtain ⟨here, there⟩ := apart entry mem entry mem
    have starts : entry.2 <+: entry.1 ++ rest := stays ▸ List.prefix_append _ _
    exact (List.prefix_or_prefix_of_prefix (List.prefix_append _ _) starts).elim here there

theorem componentwise_iff (apart : Apart prefixes) (old : OldApart prefixes) (path : ByteString) :
    Componentwise prefixes path ↔ ¬ RunsOn prefixes path := by
  constructor
  · rintro componentwise ⟨entry, mem, rest, rfl, runsOn⟩
    obtain stays | ⟨used, mem', rest', same, ends, -⟩ := componentwise
    · exact remapAnyPrefix_ne apart old mem rest stays
    · obtain ⟨-, rfl⟩ := old.eq_of_append mem mem' same
      exact runsOn ends
  · intro ends
    obtain ⟨-, stays⟩ | ⟨entry, mem, rest, split, eq⟩ := remapAnyPrefix_cases prefixes path
    · exact .inl stays
    · refine .inr ⟨entry, mem, rest, split, ?_, eq⟩
      by_contra runsOn
      exact ends ⟨entry, mem, rest, split, runsOn⟩

end Remap

theorem PathField.apart (field : PathField) : Apart field.prefixes := by
  cases field with
  | installRoot | manualPrefix => exact installedPrefixes_apart
  | installPrefix => exact termuxPrefixes_apart

theorem PathField.oldApart (field : PathField) : OldApart field.prefixes := by
  cases field <;> decide +kernel

/-- **A path that was remapped stays**, and none is changed that is not an old directory or below
it, just when no old prefix goes on as another name. -/
theorem remapAnyPrefix_componentwise_iff (field : PathField) (path : ByteString) :
    remapAnyPrefix (remapAnyPrefix path field.prefixes) field.prefixes =
        remapAnyPrefix path field.prefixes ∧
      (Componentwise field.prefixes path ↔ ¬ RunsOn field.prefixes path) :=
  ⟨remapAnyPrefix_idem field.apart path, componentwise_iff field.apart field.oldApart path⟩

/-- A directory whose name begins with that of the old one becomes one beside the new one. -/
theorem lookalike_remapped :
    remapAnyPrefix (str "/data/apm/installed-old/htop") PathField.installRoot.prefixes =
        getInstalledDir ++ str "-old/htop" ∧
      ¬ Componentwise PathField.installRoot.prefixes (str "/data/apm/installed-old/htop") := by
  constructor
  · decide +kernel
  · rw [componentwise_iff (PathField.apart .installRoot) (PathField.oldApart .installRoot), not_not]
    exact ⟨(kLegacyInstalledDir, getInstalledDir), by decide, str "-old/htop", by decide +kernel,
      by decide⟩

end Apm.Daemon.Migration
