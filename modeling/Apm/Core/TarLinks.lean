import Apm.Core.TarExtractor
import Apm.Util.LineText

/-!
The links of an archive in `src/core/tar_extractor.cpp`: where the target of a hard link
leads, and whether the listing shows the checks what an entry is.

A hard link's target is checked from the directory of the entry, and `tar` takes it from the
root of the archive. The listing is searched for the text between a name and a target, which
may occur in either.

## Main results

* `hardLink_inside_iff`: when the target of an accepted hard link lies in the destination.
* `symlink_handed_iff`: when the checks are given the name and the target of a symbolic link.
-/

namespace Apm.Tar

open Apm.Fs Apm.Lib.Effect Apm.Lib.Text Apm.Lib.Walk
open Apm.Repo (getlines_unlines OneLine)

/-! ### Hard links -/

/-- The target of an accepted hard link is relative. -/
theorem relative_of_hardLink {options : ExtractOptions} {entry : TarEntry}
    (h : checkEntry options entry = .ok ()) (hard : entry.type = chr 'h') :
    (linkTo entry.linkTarget).absolute = false := by
  obtain ⟨_, -, h⟩ := ok_of_bind h
  have link : isLinkType entry.type = true := by simp [isLinkType, hard]
  simp only [link, Bool.not_true, Bool.and_false, Bool.false_eq_true, if_false, if_true] at h
  split at h
  · cases h
  unfold validateLinkTarget at h
  split at h
  · cases h
  split at h
  · cases h
  split at h
  · rw [if_pos (by simp [hard])] at h
    cases h
  · rename_i relative
    simpa [linkTo] using relative

/-- Every entry of an accepted listing passed the checks. -/
theorem checked_of_mem {options : ExtractOptions} {listing verbose : ByteString}
    {entries : List TarEntry} (h : acceptListing options listing verbose = .ok entries) :
    ∀ entry ∈ entries, checkEntry options entry = .ok () := by
  unfold acceptListing at h
  dsimp only at h
  split at h
  · cases h
  obtain ⟨_, checked, same⟩ := ok_of_bind h
  cases same
  revert checked
  generalize List.map _ _ = members
  intro checked
  induction members with
  | nil => exact List.forall_mem_nil _
  | cons first members ih =>
    rw [checkEntries] at checked
    split at checked
    · cases checked
    · rename_i fits
      exact List.forall_mem_cons.mpr ⟨fits, ih checked⟩

/-- **The target of an accepted hard link** is relative and stays in the destination as taken
from the directory of the entry, which is where it is checked. Taken from the root of the
archive, it lies in the destination if and only if the target itself climbs no further than
that or comes back down; so it does for an entry without a directory. -/
theorem hardLink_inside_iff {options : ExtractOptions} {listing verbose : ByteString}
    {entries : List TarEntry} (accepted : acceptListing options listing verbose = .ok entries)
    {entry : TarEntry} (mem : entry ∈ entries) (hard : entry.type = chr 'h')
    (dest : Loc ByteString) :
    (linkTo entry.linkTarget).absolute = false ∧
      Inside dest (lexical (lexical dest (entrySteps entry).dropLast)
        (pathSteps entry.linkTarget)) ∧
      (Inside dest (lexical dest (pathSteps entry.linkTarget)) ↔
        EndsInside 0 dest (pathSteps entry.linkTarget)) ∧
      (lexical dest (entrySteps entry).dropLast = dest →
        EndsInside 0 dest (pathSteps entry.linkTarget)) := by
  have relative := relative_of_hardLink (checked_of_mem accepted entry mem) hard
  have known := accepted_of_mem dest accepted mem
  have stays := known.stays (by simp [isLinkType, hard]) relative
  have noUp : Step.up ∉ (entrySteps entry).dropLast :=
    fun up => known.noUp (List.mem_of_mem_dropLast up)
  have inside := stays.inside ((stays_of_noUp noUp).inside (List.suffix_refl dest))
  have ends : Inside dest (lexical ([] ++ dest) (pathSteps entry.linkTarget)) ↔
      EndsInside [].length dest (pathSteps entry.linkTarget) := inside_lexical_iff
  refine ⟨relative, inside, ends, fun top => ?_⟩
  rw [top] at inside
  exact ends.mp inside

/-- A hard link in a directory. -/
def nestedHardLink : TarEntry where
  name := str "d/l"
  type := chr 'h'
  linkTarget := str "../x"

theorem nestedHardLink_accepted :
    acceptListing {} (str "d/l\n") (str "hrw-r--r-- 0/0 0 d/l link to ../x\n") =
      .ok [nestedHardLink] := by decide

theorem hardLink_inside_nested :
    let dest := [str "tmp", str "apm"]
    (linkTo nestedHardLink.linkTarget).absolute = false ∧
      Inside dest (lexical (lexical dest (entrySteps nestedHardLink).dropLast)
        (pathSteps nestedHardLink.linkTarget)) ∧
      (Inside dest (lexical dest (pathSteps nestedHardLink.linkTarget)) ↔
        EndsInside 0 dest (pathSteps nestedHardLink.linkTarget)) ∧
      (lexical dest (entrySteps nestedHardLink).dropLast = dest →
        EndsInside 0 dest (pathSteps nestedHardLink.linkTarget)) :=
  hardLink_inside_iff nestedHardLink_accepted (List.mem_singleton_self _) rfl _

/-- The link is checked as `x`, and made to a file beside the destination. -/
theorem hardLink_escapes :
    ¬ ∀ (options : ExtractOptions) (listing verbose : ByteString) (entries : List TarEntry),
      acceptListing options listing verbose = .ok entries →
        ∀ entry ∈ entries, entry.type = chr 'h' → ∀ dest : Loc ByteString,
          Inside dest (lexical dest (pathSteps entry.linkTarget)) := by
  intro all
  have inside := all _ _ _ _ nestedHardLink_accepted nestedHardLink
    (List.mem_singleton_self _) rfl [str "tmp", str "apm"]
  revert inside
  decide

/-! ### What tar prints -/

/-- The text between the name and the target of a symbolic link. -/
def arrow : ByteString := str " -> "

/-- How `tar` prints an entry: its type, the other columns and its name, and what it prints
behind the name in either listing. -/
structure Printed where
  type : UInt8
  columns : ByteString
  name : ByteString
  verboseTail : ByteString := []
  briefTail : ByteString := []
  visible : isspace type = false ∧ type ≠ 0
  oneLine : OneLine (columns ++ name ++ verboseTail ++ briefTail)

def Printed.verboseLine (p : Printed) : ByteString :=
  p.type :: p.columns ++ p.name ++ p.verboseTail

def Printed.briefLine (p : Printed) : ByteString := p.name ++ p.briefTail

/-- The output of `tar -tvf`. -/
def verboseOutput (archive : List Printed) : ByteString :=
  unlines (chr '\n') (archive.map Printed.verboseLine)

/-- The output of `tar -tf`. -/
def briefOutput (archive : List Printed) : ByteString :=
  unlines (chr '\n') (archive.map Printed.briefLine)

/-- A symbolic link with any name and target, whose target stands in the verbose listing and
may stand in the other one. -/
structure Symlink where
  columns : ByteString
  name : ByteString
  target : ByteString
  suffixed : Bool
  oneLine : OneLine (columns ++ name ++ target)

/-- What the link is. -/
def Symlink.entry (link : Symlink) : TarEntry where
  name := link.name
  type := chr 'l'
  linkTarget := link.target

/-- The members that the checks are given. -/
def handedEntries (listing verbose : ByteString) : Except ByteString (List TarEntry) :=
  let entries := listTarEntries listing
  let entryInfo := listTarEntryInfo verbose
  if entries.length != entryInfo.length then throw (str "Tar entry list mismatch")
  else pure ((entries.zip entryInfo).map fun (entry, type, linkTarget) =>
    { name := entryPath type entry, type, linkTarget : TarEntry })

theorem acceptListing_eq (options : ExtractOptions) (listing verbose : ByteString) :
    acceptListing options listing verbose = (do
      let members ← handedEntries listing verbose
      let _ ← checkEntries options members
      pure members) := by
  unfold acceptListing handedEntries
  dsimp only
  split
  · rfl
  · rfl

/-- The name and the target can be told apart: no separator begins before the one between
them, and the ends of the lines are their own. -/
structure Readable (link : Symlink) : Prop where
  separator : ¬ arrow <:+: chr 'l' :: link.columns ++ link.name ++ arrow.dropLast
  target : link.target.getLast? ≠ some (chr '\r')
  name : link.suffixed = false →
    link.name.getLast? ≠ some (chr '\r') ∧ ¬ str " link to " <:+: link.name

theorem oneLine_append {a b : ByteString} : OneLine (a ++ b) ↔ OneLine a ∧ OneLine b := by
  simp [OneLine, not_or]

def Symlink.printed (link : Symlink) : Printed where
  type := chr 'l'
  columns := link.columns
  name := link.name
  verboseTail := arrow ++ link.target
  briefTail := if link.suffixed then arrow ++ link.target else []
  visible := by decide
  oneLine := by
    have clean : OneLine arrow := by decide
    have parts := link.oneLine
    simp only [oneLine_append] at parts ⊢
    obtain ⟨⟨columns, name⟩, target⟩ := parts
    refine ⟨⟨⟨columns, name⟩, clean, target⟩, ?_⟩
    split
    · exact oneLine_append.mpr ⟨clean, target⟩
    · exact List.not_mem_nil

/-! ### Cutting a line -/

theorem cutAt_eq_breakOn (needle s : ByteString) :
    cutAt needle s = (breakOn needle s).map fun x => (x.1, x.2.drop needle.length) := by
  induction s with
  | nil => cases needle <;> simp [cutAt, breakOn]
  | cons c s ih =>
    rw [cutAt, breakOn]
    split
    · rfl
    · rw [ih, Option.map_map, Option.map_map]
      rfl

theorem cutAt_eq_none_iff {needle s : ByteString} : cutAt needle s = none ↔ ¬ needle <:+: s := by
  rw [cutAt_eq_breakOn, Option.map_eq_none_iff, breakOn_eq_none_iff]

/-- The two pieces and the needle make up the text. -/
theorem cutAt_spec {needle s before after : ByteString}
    (h : cutAt needle s = some (before, after)) : s = before ++ needle ++ after := by
  rw [cutAt_eq_breakOn, Option.map_eq_some_iff] at h
  obtain ⟨⟨front, back⟩, broken, same⟩ := h
  cases same
  obtain ⟨split, ⟨rest, rfl⟩, -⟩ := breakOn_spec broken
  rw [split, List.drop_left, List.append_assoc]

/-- The text is cut at an occurrence if and only if none begins earlier. -/
theorem cutAt_at_iff {needle : ByteString} (filled : needle ≠ []) (s t : ByteString) :
    cutAt needle (s ++ needle ++ t) = some (s, t) ↔ ¬ needle <:+: s ++ needle.dropLast := by
  rw [← breakOn_at_iff filled s t, cutAt_eq_breakOn, List.append_assoc, Option.map_eq_some_iff]
  constructor
  · rintro ⟨⟨front, back⟩, broken, same⟩
    have split := (breakOn_spec broken).1
    obtain ⟨rfl, -⟩ := Prod.mk.inj same
    rw [broken, List.append_cancel_left split]
  · intro broken
    exact ⟨_, broken, by simp⟩

theorem entryPath_link (entry : ByteString) :
    entryPath (chr 'l') entry =
      match cutAt arrow entry with
      | some (path, _) => path
      | none =>
          match cutAt (str " link to ") entry with
          | some (path, _) => path
          | none => entry := rfl

theorem length_entryPath_le (type : UInt8) (entry : ByteString) :
    (entryPath type entry).length ≤ entry.length := by
  have cut : ∀ {needle before after : ByteString}, cutAt needle entry = some (before, after) →
      before.length ≤ entry.length := by
    intro needle before after found
    have lengths := congrArg List.length (cutAt_spec found)
    simp only [List.length_append] at lengths
    omega
  unfold entryPath
  split
  · split
    · rename_i found
      exact cut found
    · split
      · rename_i found
        exact cut found
      · exact Nat.le_refl _
  · exact Nat.le_refl _

/-- A name is left as it is if and only if it has no text that may follow a name. -/
theorem entryPath_link_eq_iff (name : ByteString) :
    entryPath (chr 'l') name = name ↔ ¬ arrow <:+: name ∧ ¬ str " link to " <:+: name := by
  have cut : ∀ {needle before after : ByteString}, needle ≠ [] →
      cutAt needle name = some (before, after) → before ≠ name ∧ needle <:+: name := by
    intro needle before after filled found
    have split := cutAt_spec found
    refine ⟨fun same => ?_, ⟨before, after, split.symm⟩⟩
    have size := List.length_pos_of_ne_nil filled
    have lengths := congrArg List.length split
    rw [same] at lengths
    simp only [List.length_append] at lengths
    omega
  rw [entryPath_link]
  cases arrowCut : cutAt arrow name with
  | some pieces =>
    obtain ⟨other, occurs⟩ := cut (by decide) arrowCut
    exact iff_of_false other fun none => none.1 occurs
  | none =>
    have noArrow := cutAt_eq_none_iff.mp arrowCut
    cases linkCut : cutAt (str " link to ") name with
    | some pieces =>
      obtain ⟨other, occurs⟩ := cut (by decide) linkCut
      exact iff_of_false other fun none => none.2 occurs
    | none => exact iff_of_true rfl ⟨noArrow, cutAt_eq_none_iff.mp linkCut⟩

/-- The link target that is read from a verbose line. -/
def shownTarget (type : UInt8) (line : ByteString) : ByteString :=
  if isLinkType type then
    match cutAt arrow line with
    | some (_, target) => target
    | none =>
        match cutAt (str " link to ") line with
        | some (_, target) => target
        | none => []
  else []

theorem lineInfo_visible {type : UInt8} (visible : isspace type = false ∧ type ≠ 0)
    (rest : ByteString) :
    lineInfo (type :: rest) = some (type, shownTarget type (type :: rest)) := by
  have first : (type :: rest).find? (!isspace ·) = some type :=
    List.find?_cons_of_pos (by simp [visible.1])
  unfold lineInfo shownTarget
  rw [first]
  dsimp only
  rw [if_neg (by simpa using visible.2)]
  split
  · have text : str " -> " = arrow := rfl
    rw [text]
    cases cutAt arrow (type :: rest) with
    | some cut => rfl
    | none =>
      cases cutAt (str " link to ") (type :: rest) with
      | some cut => rfl
      | none => rfl
  · rfl

theorem dropCr_visible {type : UInt8} (visible : isspace type = false) (rest : ByteString) :
    ∃ rest', dropCr (type :: rest) = type :: rest' := by
  unfold dropCr
  split
  · rename_i last
    cases rest with
    | nil =>
      rw [List.getLast?_singleton, Option.some.injEq] at last
      rw [last] at visible
      exact absurd visible (by decide)
    | cons c rest => exact ⟨(c :: rest).dropLast, rfl⟩
  · exact ⟨rest, rfl⟩

/-! ### What the checks are given -/

theorem outputLines_unlines {lines : List ByteString} (oneLine : ∀ line ∈ lines, OneLine line) :
    outputLines (unlines (chr '\n') lines) = (lines.map dropCr).filter (!·.isEmpty) := by
  have read := getlines_unlines oneLine []
  have rest : getlines (chr '\n') [] = [] := by decide
  rw [List.append_nil, rest, List.append_nil] at read
  rw [outputLines, read]

section Archive

variable (archive : List Printed)

/-- Every entry has a verbose line that is read. -/
theorem listTarEntryInfo_verboseOutput :
    listTarEntryInfo (verboseOutput archive) =
      archive.map fun p => (p.type, shownTarget p.type (dropCr p.verboseLine)) := by
  have oneLine : ∀ line ∈ archive.map Printed.verboseLine, OneLine line := by
    intro line mem
    obtain ⟨p, -, rfl⟩ := List.mem_map.mp mem
    have parts := p.oneLine
    have type : p.type ≠ chr '\n' := fun same => absurd (same ▸ p.visible.1) (by decide)
    simp only [oneLine_append] at parts
    simp only [Printed.verboseLine, OneLine, List.mem_cons, List.mem_append, not_or]
    exact ⟨⟨⟨type.symm, parts.1.1.1⟩, parts.1.1.2⟩, parts.1.2⟩
  unfold listTarEntryInfo verboseOutput
  rw [outputLines_unlines oneLine]
  clear oneLine
  induction archive with
  | nil => rfl
  | cons p archive ih =>
    obtain ⟨rest, line⟩ := dropCr_visible p.visible.1 (p.columns ++ p.name ++ p.verboseTail)
    have line : dropCr p.verboseLine = p.type :: rest := line
    simp only [List.map_cons, line, List.filter_cons, List.isEmpty_cons, Bool.not_false, if_true,
      List.filterMap_cons, lineInfo_visible p.visible, ih]

/-- The names whose lines are not blank. -/
theorem listTarEntries_briefOutput :
    listTarEntries (briefOutput archive) =
      ((archive.map Printed.briefLine).map dropCr).filter (!·.isEmpty) := by
  apply outputLines_unlines
  intro line mem
  obtain ⟨p, -, rfl⟩ := List.mem_map.mp mem
  have parts := p.oneLine
  simp only [oneLine_append] at parts
  exact oneLine_append.mpr ⟨parts.1.1.2, parts.2⟩

/-- The member that an entry is taken for. -/
def Printed.member (p : Printed) : TarEntry where
  name := entryPath p.type (dropCr p.briefLine)
  type := p.type
  linkTarget := shownTarget p.type (dropCr p.verboseLine)

/-- The entries are told apart by their places, unless a blank name is skipped. -/
theorem handedEntries_output :
    handedEntries (briefOutput archive) (verboseOutput archive) =
      if ∃ p ∈ archive, dropCr p.briefLine = [] then throw (str "Tar entry list mismatch")
      else pure (archive.map Printed.member) := by
  have lengths : ((archive.map Printed.briefLine).map dropCr).length =
      (archive.map fun p => (p.type, shownTarget p.type (dropCr p.verboseLine))).length := by
    simp
  unfold handedEntries
  rw [listTarEntries_briefOutput, listTarEntryInfo_verboseOutput]
  dsimp only
  by_cases blank : ∃ p ∈ archive, dropCr p.briefLine = []
  · rw [if_pos blank, if_pos]
    rw [bne_iff_ne, ← lengths, ne_eq, List.length_filter_eq_length_iff]
    obtain ⟨p, mem, empty⟩ := blank
    intro all
    have filled := all [] (by simpa using ⟨p, mem, empty⟩)
    cases filled
  · have filled : ((archive.map Printed.briefLine).map dropCr).filter (!·.isEmpty) =
        (archive.map Printed.briefLine).map dropCr := by
      rw [List.filter_eq_self]
      simpa using blank
    rw [filled, lengths, if_neg blank, if_neg (by simp), List.map_map, List.zip_map',
      List.map_map]
    rfl

end Archive

section Symlink

variable (link : Symlink)

/-- What stands before the separator in the verbose line. -/
def Symlink.front : ByteString := chr 'l' :: link.columns ++ link.name

theorem verboseLine_printed : link.printed.verboseLine = link.front ++ arrow ++ link.target :=
  (List.append_assoc _ _ _).symm

theorem arrow_ne_nil : arrow ≠ [] := by decide

/-- A line that ends in the separator and the target loses a carriage return of the target
only. -/
theorem dropCr_arrow (front : ByteString) {target : ByteString}
    (noCr : target.getLast? ≠ some (chr '\r')) :
    dropCr (front ++ arrow ++ target) = front ++ arrow ++ target := by
  apply if_neg
  cases target with
  | nil =>
    rw [List.append_nil, List.getLast?_append_of_ne_nil _ arrow_ne_nil]
    decide
  | cons c target =>
    rw [List.getLast?_append_of_ne_nil _ (List.cons_ne_nil c target)]
    exact noCr

theorem shownTarget_of_cut {line before after : ByteString}
    (h : cutAt arrow line = some (before, after)) : shownTarget (chr 'l') line = after := by
  have link : isLinkType (chr 'l') = true := by decide
  rw [shownTarget, if_pos link, h]

/-- The line has a separator, so that it is cut at one. -/
theorem exists_cutAt_arrow (front target : ByteString) :
    ∃ before after, cutAt arrow (front ++ arrow ++ target) = some (before, after) := by
  have occurs : cutAt arrow (front ++ arrow ++ target) ≠ none := by
    rw [ne_eq, cutAt_eq_none_iff, not_not]
    exact ⟨front, target, rfl⟩
  obtain ⟨⟨before, after⟩, cut⟩ := Option.ne_none_iff_exists'.mp occurs
  exact ⟨before, after, cut⟩

/-- The target is read if and only if it does not end in a carriage return and the line has
no separator before its own. -/
theorem shownTarget_iff :
    shownTarget (chr 'l') (dropCr link.printed.verboseLine) = link.target ↔
      ¬ arrow <:+: link.front ++ arrow.dropLast ∧ link.target.getLast? ≠ some (chr '\r') := by
  rw [verboseLine_printed]
  by_cases cr : link.target.getLast? = some (chr '\r')
  · obtain ⟨short, target⟩ : ∃ short, link.target = short ++ [chr '\r'] :=
      List.getLast?_eq_some_iff.mp cr
    have line : dropCr (link.front ++ arrow ++ link.target) = link.front ++ arrow ++ short := by
      rw [target, ← List.append_assoc]
      exact dropCr_cr _
    rw [line]
    obtain ⟨before, after, cut⟩ := exists_cutAt_arrow link.front short
    refine iff_of_false ?_ fun readable => readable.2 cr
    rw [shownTarget_of_cut cut]
    rintro rfl
    -- The separator would begin one byte earlier, at a blank followed by a blank.
    have split := cutAt_spec cut
    rw [target, List.append_assoc, List.append_assoc] at split
    obtain ⟨more, front, tail⟩ | ⟨more, front, tail⟩ := List.append_eq_append_iff.mp split
    · have lengths := congrArg List.length tail
      simp only [List.length_append, List.length_singleton] at lengths
      omega
    · have lengths := congrArg List.length tail
      simp only [List.length_append, List.length_singleton] at lengths
      obtain ⟨c, rfl⟩ := List.length_eq_one_iff.mp (show more.length = 1 by omega)
      have second := congrArg (·[1]?) tail
      simp [arrow, str] at second
  · rw [dropCr_arrow _ cr]
    constructor
    · intro shown
      obtain ⟨before, after, cut⟩ := exists_cutAt_arrow link.front link.target
      rw [shownTarget_of_cut cut] at shown
      subst shown
      have split := cutAt_spec cut
      have front := List.append_cancel_right (List.append_cancel_right split)
      rw [← front] at cut
      exact ⟨(cutAt_at_iff arrow_ne_nil _ _).mp cut, cr⟩
    · intro readable
      exact shownTarget_of_cut ((cutAt_at_iff arrow_ne_nil _ _).mpr readable.1)

/-- Without the suffix, the name is read if and only if it does not end in a carriage return
and has no text that may follow a name. -/
theorem entryPath_plain_iff (name : ByteString) :
    entryPath (chr 'l') (dropCr name) = name ↔ name.getLast? ≠ some (chr '\r') ∧
      ¬ arrow <:+: name ∧ ¬ str " link to " <:+: name := by
  by_cases cr : name.getLast? = some (chr '\r')
  · refine iff_of_false (fun same => ?_) fun readable => readable.1 cr
    have shorter := length_entryPath_le (chr 'l') (dropCr name)
    have filled : name ≠ [] := by
      rintro rfl
      cases cr
    have size := List.length_pos_of_ne_nil filled
    rw [same, dropCr, if_pos cr, List.length_dropLast] at shorter
    omega
  · have line : dropCr name = name := if_neg cr
    rw [line, entryPath_link_eq_iff]
    simp [cr]

/-- With the suffix, the name is what stands before the separator. -/
theorem entryPath_suffixed {name target : ByteString} (noCr : target.getLast? ≠ some (chr '\r'))
    (separator : ¬ arrow <:+: name ++ arrow.dropLast) :
    entryPath (chr 'l') (dropCr (name ++ arrow ++ target)) = name := by
  rw [dropCr_arrow name noCr, entryPath_link, (cutAt_at_iff arrow_ne_nil _ _).mpr separator]

/-- The member is the link itself if and only if the link is readable. -/
theorem member_printed_iff :
    link.printed.member = link.entry ↔ Readable link := by
  have target := shownTarget_iff link
  have within : link.name ++ arrow.dropLast <:+ link.front ++ arrow.dropLast := by
    rw [Symlink.front, List.append_assoc]
    exact List.suffix_append _ _
  constructor
  · intro same
    obtain ⟨name, -, shown⟩ := TarEntry.mk.inj same
    obtain ⟨separator, noCr⟩ := target.mp shown
    refine ⟨separator, noCr, fun plain => ?_⟩
    have line : link.printed.briefLine = link.name := by
      simp [Printed.briefLine, Symlink.printed, plain]
    rw [line] at name
    obtain ⟨nameCr, -, noLink⟩ := (entryPath_plain_iff link.name).mp name
    exact ⟨nameCr, noLink⟩
  · intro readable
    have shown := target.mpr ⟨readable.separator, readable.target⟩
    have alone : ¬ arrow <:+: link.name ++ arrow.dropLast :=
      fun occurs => readable.separator (occurs.trans within.isInfix)
    have name : entryPath (chr 'l') (dropCr link.printed.briefLine) = link.name := by
      cases suffixed : link.suffixed with
      | false =>
        have line : link.printed.briefLine = link.name := by
          simp [Printed.briefLine, Symlink.printed, suffixed]
        obtain ⟨noCr, noLink⟩ := readable.name suffixed
        rw [line, entryPath_plain_iff]
        exact ⟨noCr, fun occurs => alone (occurs.trans (List.prefix_append _ _).isInfix), noLink⟩
      | true =>
        have line : link.printed.briefLine = link.name ++ arrow ++ link.target := by
          simp [Printed.briefLine, Symlink.printed, suffixed]
        rw [line, entryPath_suffixed readable.target alone]
    have member : link.printed.member = ⟨entryPath (chr 'l') (dropCr link.printed.briefLine),
        chr 'l', shownTarget (chr 'l') (dropCr link.printed.verboseLine)⟩ := rfl
    rw [member, name, shown]
    rfl

end Symlink

/-- **The checks are given the name and the target of a symbolic link** in any archive exactly
if the link is readable, or a blank name makes the listings differ in length, so that no entry
is checked or extracted. -/
theorem symlink_handed_iff (archive : List Printed) (i : Nat) (link : Symlink)
    (printed : archive[i]? = some link.printed) :
    (∀ members, handedEntries (briefOutput archive) (verboseOutput archive) = .ok members →
      members[i]? = some link.entry) ↔
      (∃ p ∈ archive, dropCr p.briefLine = []) ∨ Readable link := by
  rw [handedEntries_output, ← member_printed_iff]
  by_cases blank : ∃ p ∈ archive, dropCr p.briefLine = []
  · rw [if_pos blank]
    exact iff_of_true nofun (.inl blank)
  · rw [if_neg blank, or_iff_right blank]
    constructor
    · intro handed
      have member := handed _ rfl
      rw [List.getElem?_map, printed] at member
      exact Option.some.inj member
    · intro same members handed
      cases handed
      rw [List.getElem?_map, printed, Option.map_some, same]

/-- A link to an absolute target whose name has a separator in it. -/
def hiddenLink : Symlink where
  columns := str "rwxrwxrwx 0/0 0 2024-01-01 00:00 "
  name := str "a -> b"
  target := str "/etc/passwd"
  suffixed := false
  oneLine := by decide +kernel

theorem symlink_handed_hidden :
    (∀ members, handedEntries (briefOutput [hiddenLink.printed])
        (verboseOutput [hiddenLink.printed]) = .ok members →
      members[0]? = some hiddenLink.entry) ↔
      (∃ p ∈ [hiddenLink.printed], dropCr p.briefLine = []) ∨ Readable hiddenLink :=
  symlink_handed_iff [hiddenLink.printed] 0 hiddenLink rfl

/-- The absolute target is taken for the relative one of a link `a`, and passes the checks. -/
theorem absoluteTarget_hidden :
    ¬ ∀ (archive : List Printed) (i : Nat) (link : Symlink),
      archive[i]? = some link.printed →
        ∀ options members, acceptListing options (briefOutput archive)
            (verboseOutput archive) = .ok members →
          members[i]? = some link.entry := by
  intro all
  have accepted : acceptListing {} (briefOutput [hiddenLink.printed])
      (verboseOutput [hiddenLink.printed]) =
        .ok [{ name := str "a", type := chr 'l', linkTarget := str "b -> /etc/passwd" }] := by
    decide +kernel
  have member := all [hiddenLink.printed] 0 hiddenLink rfl {} _ accepted
  revert member
  decide +kernel

end Apm.Tar
