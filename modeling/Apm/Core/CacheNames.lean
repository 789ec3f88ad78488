import Apm.Core.RepoIndex

/-!
What the file names of the repository cache tell apart (`src/core/repo_index.cpp`).

A name is made of the fields of a source, joined by `_`, with every byte that is neither
alphanumeric nor one of `-`, `_` and `.` replaced by `_`. Two texts get one name exactly if
each position holds the same byte in both, or only bytes that may become `_`.

## Main results

* `cacheFilenames_distinct_iff`: when distinct sources have distinct cache files.
-/

namespace Apm.Repo

open Apm.Fs

/-! ### What a file name tells apart -/

/-- The bytes that no other byte is replaced by. -/
def keptApart (c : UInt8) : Bool := isalnum c || c == chr '-' || c == chr '.'

/-- The texts differ in length, or at a position where one of them has a kept byte. -/
def ToldApart (s t : ByteString) : Prop :=
  s.length ≠ t.length ∨ ∃ p ∈ s.zip t, p.1 ≠ p.2 ∧ (keptApart p.1 ∨ keptApart p.2)

instance (s t : ByteString) : Decidable (ToldApart s t) :=
  inferInstanceAs (Decidable (_ ∨ ∃ p ∈ s.zip t, p.1 ≠ p.2 ∧ (keptApart p.1 ∨ keptApart p.2)))

/-- The byte of a file name for a byte of the text. -/
def sanitizeByte (c : UInt8) : UInt8 :=
  if isalnum c || c == chr '-' || c == chr '_' || c == chr '.' then c else chr '_'

theorem sanitizeForFilename_eq_map (s : ByteString) :
    sanitizeForFilename s = s.map sanitizeByte := rfl

theorem sanitizeByte_kept {c : UInt8} (kept : keptApart c) : sanitizeByte c = c := by
  unfold sanitizeByte
  apply if_pos
  simp only [keptApart, Bool.or_eq_true] at kept ⊢
  obtain (alnum | dash) | dot := kept
  · simp [alnum]
  · simp [dash]
  · simp [dot]

theorem sanitizeByte_replaced {c : UInt8} (replaced : ¬ keptApart c) :
    sanitizeByte c = chr '_' := by
  unfold sanitizeByte
  simp only [keptApart, Bool.or_eq_true, not_or, beq_iff_eq] at replaced
  split
  · rename_i kept
    simpa [replaced] using kept
  · rfl

theorem not_keptApart_underscore : ¬ keptApart (chr '_') := by decide

theorem sanitizeByte_eq_iff (c d : UInt8) :
    sanitizeByte c = sanitizeByte d ↔ ¬ (c ≠ d ∧ (keptApart c ∨ keptApart d)) := by
  by_cases ckept : keptApart c
  · by_cases dkept : keptApart d
    · simp [sanitizeByte_kept ckept, sanitizeByte_kept dkept, ckept]
    · have other : c ≠ d := fun same => dkept (same ▸ ckept)
      have notUnderscore : c ≠ chr '_' := fun same => not_keptApart_underscore (same ▸ ckept)
      simp [sanitizeByte_kept ckept, sanitizeByte_replaced dkept, ckept, other, notUnderscore]
  · by_cases dkept : keptApart d
    · have other : c ≠ d := fun same => ckept (same ▸ dkept)
      have notUnderscore : chr '_' ≠ d := fun same => not_keptApart_underscore (same ▸ dkept)
      simp [sanitizeByte_replaced ckept, sanitizeByte_kept dkept, dkept, other, notUnderscore]
    · simp [sanitizeByte_replaced ckept, sanitizeByte_replaced dkept, ckept, dkept]

/-- Two texts get different names exactly if they are told apart. -/
theorem sanitizeForFilename_ne_iff (s t : ByteString) :
    sanitizeForFilename s ≠ sanitizeForFilename t ↔ ToldApart s t := by
  rw [sanitizeForFilename_eq_map, sanitizeForFilename_eq_map, ToldApart]
  induction s generalizing t with
  | nil => cases t <;> simp
  | cons c s ih =>
    cases t with
    | nil => simp
    | cons d t =>
      have rest := ih t
      have first : sanitizeByte c ≠ sanitizeByte d ↔
          c ≠ d ∧ (keptApart c ∨ keptApart d) := by
        rw [ne_eq, sanitizeByte_eq_iff, not_not]
      have lengths : s.length + 1 ≠ t.length + 1 ↔ s.length ≠ t.length := by simp
      rw [List.map_cons, List.map_cons, ne_eq, List.cons.injEq, not_and_or, ← ne_eq, ← ne_eq,
        first, rest, List.length_cons, List.length_cons, lengths, List.zip_cons_cons,
        List.exists_mem_cons_iff]
      exact or_left_comm

theorem sanitizeByte_ne_slash (c : UInt8) : sanitizeByte c ≠ chr '/' := by
  by_cases kept : keptApart c
  · rw [sanitizeByte_kept kept]
    rintro rfl
    exact absurd kept (by decide)
  · rw [sanitizeByte_replaced kept]
    decide

/-! ### The paths -/

/-- Relative right sides are told apart. -/
theorem joinPath_inj {left a b : ByteString} (ha : a.head? ≠ some (chr '/'))
    (hb : b.head? ≠ some (chr '/')) (aFilled : a ≠ []) (bFilled : b ≠ []) :
    joinPath left a = joinPath left b ↔ a = b := by
  unfold joinPath
  simp only [List.isEmpty_iff, aFilled, bFilled, if_false, beq_iff_eq, ha, hb]
  split
  · rfl
  · split
    · simp
    · simp

/-- The path of a file in the lists directory is told apart by its text and suffix. -/
theorem listsPath_ne_iff (listsDir s t : ByteString) (suffix : String)
    (named : str suffix ≠ [] ∧ (str suffix).head? ≠ some (chr '/')) :
    joinPath listsDir (sanitizeForFilename s ++ str suffix) ≠
        joinPath listsDir (sanitizeForFilename t ++ str suffix) ↔ ToldApart s t := by
  have relative : ∀ u : ByteString,
      (sanitizeForFilename u ++ str suffix).head? ≠ some (chr '/') := by
    intro u
    cases u with
    | nil => simpa [sanitizeForFilename] using named.2
    | cons c u =>
      rw [sanitizeForFilename_eq_map, List.map_cons, List.cons_append, List.head?_cons]
      exact fun same => sanitizeByte_ne_slash c (Option.some.inj same)
  rw [← sanitizeForFilename_ne_iff, ne_eq, joinPath_inj (relative s) (relative t)
    (by simp [named.1]) (by simp [named.1]), List.append_cancel_right_eq]

/-- What names a cached Packages file. -/
structure PackagesKey where
  uri : ByteString
  dist : ByteString
  component : ByteString
  arch : ByteString
deriving DecidableEq

/-- The key that `makePackagesFilename` replaces bytes of. -/
def PackagesKey.text (k : PackagesKey) : ByteString :=
  k.uri ++ str "_" ++ k.dist ++ str "_" ++ k.component ++ str "_" ++ k.arch

def PackagesKey.filename (k : PackagesKey) (listsDir : ByteString) : ByteString :=
  makePackagesFilename k.uri k.dist k.component k.arch listsDir

/-- The key of a distribution's Release files. -/
def distText (src : RepoSource) : ByteString := src.uri ++ str "_" ++ src.dist

theorem PackagesKey.filename_ne_iff (k k' : PackagesKey) (listsDir : ByteString) :
    k.filename listsDir ≠ k'.filename listsDir ↔ ToldApart k.text k'.text :=
  listsPath_ne_iff listsDir k.text k'.text "_Packages" (by decide)

theorem makeDistFilename_ne_iff (src src' : RepoSource) (listsDir : ByteString) {suffix : String}
    (known : suffix ∈ ["_Release", "_Release.gpg", "_InRelease"]) :
    makeDistFilename src listsDir suffix ≠ makeDistFilename src' listsDir suffix ↔
      ToldApart (distText src) (distText src') := by
  have named : str suffix ≠ [] ∧ (str suffix).head? ≠ some (chr '/') := by
    simp only [List.mem_cons, List.not_mem_nil, or_false] at known
    rcases known with rfl | rfl | rfl <;> decide
  exact listsPath_ne_iff listsDir (distText src) (distText src') suffix named

/-- **Distinct sources have distinct cache files exactly if their joined fields are told
apart**: the Packages files of two tuples, and the three Release files of two pairs. -/
theorem cacheFilenames_distinct_iff (listsDir : ByteString) :
    (∀ k k' : PackagesKey, (k ≠ k' → k.filename listsDir ≠ k'.filename listsDir) ↔
      (k ≠ k' → ToldApart k.text k'.text)) ∧
    ∀ src src' : RepoSource,
      ((src.uri, src.dist) ≠ (src'.uri, src'.dist) →
        makeReleaseFilename src listsDir ≠ makeReleaseFilename src' listsDir ∧
        makeReleaseGpgFilename src listsDir ≠ makeReleaseGpgFilename src' listsDir ∧
        makeInReleaseFilename src listsDir ≠ makeInReleaseFilename src' listsDir) ↔
      ((src.uri, src.dist) ≠ (src'.uri, src'.dist) →
        ToldApart (distText src) (distText src')) := by
  constructor
  · intro k k'
    rw [k.filename_ne_iff k' listsDir]
  · intro src src'
    have release := makeDistFilename_ne_iff src src' listsDir
      (show "_Release" ∈ _ by simp)
    have gpg := makeDistFilename_ne_iff src src' listsDir
      (show "_Release.gpg" ∈ _ by simp)
    have inRelease := makeDistFilename_ne_iff src src' listsDir
      (show "_InRelease" ∈ _ by simp)
    unfold makeReleaseFilename makeReleaseGpgFilename makeInReleaseFilename
    rw [release, gpg, inRelease, and_self, and_self]

/-- A slash and an underscore in a URI make one name. -/
theorem slash_underscore_clash :
    ¬ ((∀ (listsDir : ByteString) (k k' : PackagesKey), k ≠ k' →
        k.filename listsDir ≠ k'.filename listsDir) ∧
      ∀ (listsDir : ByteString) (src src' : RepoSource),
        (src.uri, src.dist) ≠ (src'.uri, src'.dist) →
          makeReleaseFilename src listsDir ≠ makeReleaseFilename src' listsDir ∧
          makeReleaseGpgFilename src listsDir ≠ makeReleaseGpgFilename src' listsDir ∧
          makeInReleaseFilename src listsDir ≠ makeInReleaseFilename src' listsDir) := by
  intro all
  apply all.1 (str "/data/apm/lists")
    ⟨str "http://h/a/b", str "stable", str "main", str "arm64"⟩
    ⟨str "http://h/a_b", str "stable", str "main", str "arm64"⟩
  · decide
  · decide +kernel

-- Texts of one length are told apart by a letter.
example : ToldApart (str "http://h/a_stable") (str "http://h/b_stable") := by decide +kernel

end Apm.Repo
