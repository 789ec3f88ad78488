import Apm.Install.TermuxTree
import Apm.Lib.Replace

/-!
`rewriteLegacyTermuxScriptContent` of `src/apmd/install_manager.cpp`: the scripts of a Termux
payload are copied with the prefix that they are installed under.

## Main results

* `rewriteLegacyTermuxScriptContent_replaces`: every occurrence of the legacy prefix is replaced,
  and none is left.
-/

namespace Apm.Install.TermuxTree

open Apm.Config Apm.Lib.Loop Apm.Lib.Replace

def S_ISREG (mode : UInt32) : Bool := mode &&& 0o170000 == 0o100000

theorem legacyPrefix_filled : kLegacyTermuxPrefix ≠ [] := by decide

/-- The text that a script is copied as, by the mode of the original and what is read of it; `none`
where it is copied as it is. -/
def rewriteLegacyTermuxScriptContent (mode : UInt32) (content : Option ByteString) :
    Option ByteString :=
  if !S_ISREG mode || mode &&& 0o111 == 0 then none
  else
    match content with
    | none => none
    | some content =>
        if content.length < 2 || content[0]? != some (chr '#') || content[1]? != some (chr '!') then
          none
        else if !contains content kLegacyTermuxPrefix then none
        else some (replace kLegacyTermuxPrefix getTermuxPrefix legacyPrefix_filled content)

/-- No end of one prefix is a start of the other. -/
theorem prefixes_apart : Apart kLegacyTermuxPrefix getTermuxPrefix where
  outside := by decide +kernel
  inside := by decide +kernel
  before := by decide +kernel
  behind := by decide +kernel

/-- **A script is moved to the prefix it is installed under**: the loop ends, the first occurrence
of the legacy prefix is replaced, and behind it the first one again, and none is left. -/
theorem rewriteLegacyTermuxScriptContent_replaces (mode : UInt32) (content : ByteString)
    (regular : S_ISREG mode) (executable : mode &&& 0o111 ≠ 0) (script : str "#!" <+: content)
    (legacy : kLegacyTermuxPrefix <:+: content) :
    ∃ rewritten, rewriteLegacyTermuxScriptContent mode (some content) = some rewritten ∧
      (∀ fuel, content.length < fuel →
        iterate (turn kLegacyTermuxPrefix getTermuxPrefix) fuel (content, 0) = some rewritten) ∧
      (∀ text, Replaced kLegacyTermuxPrefix getTermuxPrefix content text ↔ text = rewritten) ∧
      ¬ kLegacyTermuxPrefix <:+: rewritten := by
  obtain ⟨rest, rfl⟩ := script
  have found : contains (str "#!" ++ rest) kLegacyTermuxPrefix = true :=
    contains_of_infix legacy
  refine ⟨_, ?_, fun fuel enough => iterate_eq_run _ enough,
    fun text => replaced_iff legacyPrefix_filled, ?_⟩
  · unfold rewriteLegacyTermuxScriptContent
    rw [if_neg (by simp [regular, executable])]
    dsimp only
    rw [if_neg (by simp [str, chr]), if_neg (by simp [found])]
    rfl
  · exact ((replaced_iff legacyPrefix_filled).mpr rfl).gone prefixes_apart

/-- A script whose interpreter is below the legacy prefix. -/
theorem rewriteLegacyTermuxScriptContent_replaces_sh :
    ∃ rewritten, rewriteLegacyTermuxScriptContent 0o100755
        (some (str "#!/data/data/com.termux/files/usr/bin/sh")) = some rewritten ∧
      ¬ kLegacyTermuxPrefix <:+: rewritten := by
  obtain ⟨rewritten, result, -, -, gone⟩ := rewriteLegacyTermuxScriptContent_replaces 0o100755
    (str "#!/data/data/com.termux/files/usr/bin/sh") (by decide) (by decide)
    (by decide +kernel) (by decide +kernel)
  exact ⟨rewritten, result, gone⟩

end Apm.Install.TermuxTree
