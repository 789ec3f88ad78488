import Apm.Util.Bytes

/-!
`validatePackageName` of `src/core/security.cpp`.
-/

namespace Apm.Security

/-- Does `..` occur in the name? -/
def hasDotDot : ByteString → Bool
  | a :: b :: s => (a == chr '.' && b == chr '.') || hasDotDot (b :: s)
  | _ => false

/-- Why a name is no package name, if it is none. -/
def validatePackageName (name : ByteString) : Option ByteString :=
  match name with
  | [] => some (str "Package name is empty")
  | first :: _ =>
      if name.contains (chr '/') || name.contains (chr '\\') then
        some (str "Invalid package name '" ++ name ++ str "': contains path separators")
      else if hasDotDot name then
        some (str "Invalid package name '" ++ name ++ str "': contains '..'")
      else if !islower first && !isdigit first then
        some (str "Invalid package name '" ++ name ++ str "': must start with [a-z0-9]")
      else if !name.all fun c =>
          islower c || isdigit c || c == chr '+' || c == chr '-' || c == chr '.' then
        some (str "Invalid package name '" ++ name ++ str "': contains unsupported characters")
      else none

/-- A valid name is made of letters, digits and some signs, and begins with no sign. -/
theorem validatePackageName_chars {name : ByteString} (h : validatePackageName name = none) :
    (∃ c ∈ name.head?, islower c || isdigit c) ∧
      ∀ c ∈ name, islower c || isdigit c || c == chr '+' || c == chr '-' || c == chr '.' := by
  cases name with
  | nil => cases h
  | cons first rest =>
    unfold validatePackageName at h
    dsimp only at h
    split at h
    · cases h
    split at h
    · cases h
    split at h
    · cases h
    rename_i letter
    split at h
    · cases h
    rename_i letters
    rw [Bool.not_eq_true', Bool.not_eq_false] at letters
    rw [← Bool.not_or, Bool.not_eq_true', Bool.not_eq_false] at letter
    exact ⟨⟨first, rfl, letter⟩, List.all_eq_true.mp letters⟩

/-- No blank is allowed in a name. -/
theorem not_nameChar_of_isspace {c : UInt8} (space : isspace c) :
    ¬ (islower c || isdigit c || c == chr '+' || c == chr '-' || c == chr '.') := by
  simp only [isspace, islower, isdigit, chr, Bool.or_eq_true, Bool.and_eq_true, beq_iff_eq,
    decide_eq_true_eq, UInt8.le_iff_toNat_le, ← UInt8.toNat_inj] at space ⊢
  simp at space ⊢
  omega

end Apm.Security
