import Apm.Core.TarLinks
import Apm.Install.Payload
import Apm.Lib.FileTree

/-!
`copyTermuxTree` of `src/apmd/install_manager.cpp`: the symbolic links that a Termux payload
leaves below the Termux prefix, and where they point to.

The tree is copied from the place where `tar` unpacked it. What the system does with a path is
given by its answers.

## Main results

* `mem_copyEntries`: every link that is made is the copy of one of the tree.
* `run_absolute`: no absolute link of an unpacked archive has a step up.
* `termuxLink_inside_iff`: when a link that is made points into the prefix, or a directory
  above it.
-/

namespace Apm.Install.TermuxTree

open Apm.Fs Apm.Config Apm.Lib.Walk Apm.Tar
open Apm.Lib.Effect (ok_of_bind)

/-! ### Copying -/

def kLegacyTermuxPrefix : ByteString := str "/data/data/com.termux/files/usr"

def hasPathPrefixBoundary (path pathPrefix : ByteString) : Bool :=
  pathPrefix.isPrefixOf path &&
    (path.length == pathPrefix.length || pathPrefix.getLast? == some (chr '/') ||
      path[pathPrefix.length]? == some (chr '/'))

/-- What the system does with a path. -/
structure Answers where
  /-- `lstat` of the original works. -/
  sees : ByteString → Bool
  /-- The directory can be made. -/
  makes : ByteString → Bool
  /-- The original of the directory can be read. -/
  opens : ByteString → Bool
  /-- The mode of the directory can be set in the end. -/
  modes : ByteString → Bool
  copies : ByteString → Bool
  links : ByteString → Bool

/-- A link that is made. -/
structure MadeLink where
  place : ByteString
  target : ByteString
deriving DecidableEq

structure Copied where
  links : List MadeLink := []
  installedPaths : List ByteString := []

variable (sys : Answers)

/-- The target of the copy of a link. -/
def copiedTarget (target : ByteString) : Option ByteString :=
  if target.head? == some (chr '/') then
    if !hasPathPrefixBoundary target kLegacyTermuxPrefix then none
    else some (getTermuxPrefix ++ target.drop kLegacyTermuxPrefix.length)
  else some target

def copySymlink (target dst : ByteString) (copied : Copied) : Bool × Copied :=
  match copiedTarget target with
  | none => (false, copied)
  | some target =>
      if !sys.links dst then (false, copied)
      else (true, { copied with links := copied.links ++ [⟨dst, target⟩] })

def relPathOf (relativeBase name : ByteString) : ByteString :=
  if relativeBase.isEmpty then name else relativeBase ++ str "/" ++ name

/-- The loop of `copyTermuxTree` over what stands in a directory. -/
def copyEntries : ByteString → ByteString → Lib.FileTree.Dir FileName ByteString → Copied →
    Bool × Copied
  | _, _, .empty, copied => (true, copied)
  | dstDir, relativeBase, .file name _ rest, copied =>
      let dstPath := joinPath dstDir name.text
      if !sys.sees dstPath then copyEntries dstDir relativeBase rest copied
      else if !sys.copies dstPath then (false, copied)
      else
        let relPath := relPathOf relativeBase name.text
        copyEntries dstDir relativeBase rest
          { copied with installedPaths := copied.installedPaths ++ [relPath] }
  | dstDir, relativeBase, .link name target rest, copied =>
      let dstPath := joinPath dstDir name.text
      if !sys.sees dstPath then copyEntries dstDir relativeBase rest copied
      else
        match copySymlink sys target dstPath copied with
        | (false, copied) => (false, copied)
        | (true, copied) =>
            let relPath := relPathOf relativeBase name.text
            copyEntries dstDir relativeBase rest
              { copied with installedPaths := copied.installedPaths ++ [relPath] }
  | dstDir, relativeBase, .dir name inner rest, copied =>
      let dstPath := joinPath dstDir name.text
      if !sys.sees dstPath then copyEntries dstDir relativeBase rest copied
      else if !sys.makes dstPath || !sys.opens dstPath then (false, copied)
      else
        match copyEntries dstPath (relPathOf relativeBase name.text) inner copied with
        | (false, copied) => (false, copied)
        | (true, copied) =>
            if !sys.modes dstPath then (false, copied)
            else copyEntries dstDir relativeBase rest copied

def copyTermuxTree (dstDir relativeBase : ByteString)
    (tree : Lib.FileTree.Dir FileName ByteString) (copied : Copied) : Bool × Copied :=
  if !sys.makes dstDir || !sys.opens dstDir then (false, copied)
  else copyEntries sys dstDir relativeBase tree copied

/-- What `rewriteTermuxPathsDuringExtraction` copies. -/
def copyPayload (tree : Lib.FileTree.Dir FileName ByteString) : Bool × Copied :=
  copyTermuxTree sys getTermuxPrefix (str "usr") tree {}

/-! ### The links that are made -/

variable {sys}

/-- The link is the copy of one of the tree. -/
def CopyOf (dstDir : ByteString) (tree : Lib.FileTree.Dir FileName ByteString)
    (made : MadeLink) : Prop :=
  ∃ dirs name target, (dirs, name, target) ∈ tree.links ∧
    made.place = joinPath (treePath dstDir dirs) name.text ∧
    copiedTarget target = some made.target

section CopyOf

variable {dstDir relativeBase : ByteString} {inner rest : Lib.FileTree.Dir FileName ByteString}
  {made : MadeLink} {copied : Copied}

theorem CopyOf.behind_link (h : CopyOf dstDir rest made) (name : FileName) (target : ByteString) :
    CopyOf dstDir (.link name target rest) made := by
  obtain ⟨dirs, name', target', there, copy⟩ := h
  exact ⟨dirs, name', target', List.mem_cons_of_mem _ there, copy⟩

theorem CopyOf.behind_dir (h : CopyOf dstDir rest made) (name : FileName) :
    CopyOf dstDir (.dir name inner rest) made := by
  obtain ⟨dirs, name', target', there, copy⟩ := h
  exact ⟨dirs, name', target', List.mem_append_right _ there, copy⟩

theorem CopyOf.below {name : FileName} (h : CopyOf (joinPath dstDir name.text) inner made) :
    CopyOf dstDir (.dir name inner rest) made := by
  obtain ⟨dirs, name', target', there, copy⟩ := h
  refine ⟨name :: dirs, name', target', List.mem_append_left _ ?_, copy⟩
  exact List.mem_map.mpr ⟨(dirs, name', target'), there, rfl⟩

theorem mem_copySymlink {name : FileName} {target : ByteString}
    (mem : made ∈ (copySymlink sys target (joinPath dstDir name.text) copied).2.links) :
    made ∈ copied.links ∨ CopyOf dstDir (.link name target rest) made := by
  unfold copySymlink at mem
  split at mem
  · exact .inl mem
  rename_i text rewritten
  split at mem
  · exact .inl mem
  rcases List.mem_append.mp mem with before | new
  · exact .inl before
  · obtain rfl := List.mem_singleton.mp new
    exact .inr ⟨[], name, target, List.mem_cons_self, rfl, rewritten⟩

/-- **Every link that is made** is the copy of one of the tree. -/
theorem mem_copyEntries {tree : Lib.FileTree.Dir FileName ByteString}
    (mem : made ∈ (copyEntries sys dstDir relativeBase tree copied).2.links) :
    made ∈ copied.links ∨ CopyOf dstDir tree made := by
  induction tree generalizing dstDir relativeBase copied with
  | empty => exact .inl mem
  | file name _ rest ih =>
    unfold copyEntries at mem
    dsimp only at mem
    split at mem
    · exact ih mem
    split at mem
    · exact .inl mem
    · rcases ih mem with before | later
      · exact .inl before
      · exact .inr later
  | link name target rest ih =>
    unfold copyEntries at mem
    dsimp only at mem
    split at mem
    · exact (ih mem).imp_right fun h => h.behind_link name target
    rcases run : copySymlink sys target (joinPath dstDir name.text) copied with ⟨ok, copied'⟩
    have first : made ∈ copied'.links →
        made ∈ copied.links ∨ CopyOf dstDir (.link name target rest) made := by
      intro there
      have made' : made ∈ (copySymlink sys target (joinPath dstDir name.text) copied).2.links := by
        rw [run]
        exact there
      exact mem_copySymlink made'
    rw [run] at mem
    cases ok with
    | false => exact first mem
    | true =>
      rcases ih mem with before | later
      · exact first before
      · exact .inr (later.behind_link name target)
  | dir name inner rest ihInner ihRest =>
    unfold copyEntries at mem
    dsimp only at mem
    split at mem
    · exact (ihRest mem).imp_right fun h => h.behind_dir name
    split at mem
    · exact .inl mem
    rcases run : copyEntries sys (joinPath dstDir name.text) (relPathOf relativeBase name.text)
      inner copied with ⟨ok, copied'⟩
    have first : made ∈ copied'.links →
        made ∈ copied.links ∨ CopyOf dstDir (.dir name inner rest) made := by
      intro there
      have made' : made ∈ (copyEntries sys (joinPath dstDir name.text)
          (relPathOf relativeBase name.text) inner copied).2.links := by
        rw [run]
        exact there
      exact (ihInner made').imp_right CopyOf.below
    rw [run] at mem
    cases ok with
    | false => exact first mem
    | true =>
      dsimp only at mem
      split at mem
      · exact first mem
      rcases ihRest mem with before | later
      · exact first before
      · exact .inr (later.behind_dir name)

end CopyOf

theorem mem_copyPayload {tree : Lib.FileTree.Dir FileName ByteString} {made : MadeLink}
    (mem : made ∈ (copyPayload sys tree).2.links) : CopyOf getTermuxPrefix tree made := by
  unfold copyPayload copyTermuxTree at mem
  split at mem
  · cases mem
  · exact (mem_copyEntries mem).resolve_left List.not_mem_nil

/-! ### Where they point to -/

/-- Where the directories on the way to a name are in the tree. -/
def dirLoc (dirs : List FileName) (base : Loc ByteString) : Loc ByteString :=
  (dirs.map (·.text)).reverse ++ base

/-- Where a link leads from its place, if nothing on the way is a link. -/
def pointsTo (place : Loc ByteString) (target : ByteString) : Loc ByteString :=
  lexical ((linkTo target).start place.tail) (linkTo target).steps

theorem treePath_loc {base : ByteString} (plain : PlainDir base) (dirs : List FileName) :
    PlainDir (treePath base dirs) ∧ fileLoc (treePath base dirs) = dirLoc dirs (fileLoc base) := by
  induction dirs using List.reverseRecOn with
  | nil => exact ⟨plain, rfl⟩
  | append_singleton dirs name ih =>
    obtain ⟨dir, loc⟩ := ih
    have path : treePath base (dirs ++ [name]) = joinPath (treePath base dirs) name.text := by
      rw [treePath, List.foldl_append]
      rfl
    refine ⟨path ▸ name.plain.plainDir dir, ?_⟩
    rw [path, name.plain.fileLoc dir.filled dir.noNul, loc]
    simp [dirLoc]

theorem prefix_plain : PlainDir getTermuxPrefix := by decide

/-- The place of a copied link. -/
theorem placeLoc (dirs : List FileName) (name : FileName) :
    fileLoc (joinPath (treePath getTermuxPrefix dirs) name.text) =
      name.text :: dirLoc dirs (fileLoc getTermuxPrefix) := by
  obtain ⟨plain, loc⟩ := treePath_loc prefix_plain dirs
  rw [name.plain.fileLoc plain.filled plain.noNul, loc]

/-- A relative target is copied. -/
theorem copiedTarget_relative {target text : ByteString}
    (relative : (linkTo target).absolute = false)
    (copy : copiedTarget target = some text) : text = target := by
  unfold copiedTarget at copy
  rw [if_neg (by simpa [linkTo] using relative)] at copy
  exact (Option.some.inj copy).symm

/-- The old prefix ends where a component ends. -/
theorem legacy_boundary {rest : ByteString}
    (h : ((kLegacyTermuxPrefix ++ rest).length == kLegacyTermuxPrefix.length ||
      kLegacyTermuxPrefix.getLast? == some (chr '/') ||
      (kLegacyTermuxPrefix ++ rest)[kLegacyTermuxPrefix.length]? == some (chr '/')) = true) :
    rest = [] ∨ ∃ path, rest = chr '/' :: path := by
  have last : (kLegacyTermuxPrefix.getLast? == some (chr '/')) = false := by decide
  cases rest with
  | nil => exact .inl rfl
  | cons c path =>
    rw [last, List.length_append, List.length_cons] at h
    simp at h
    exact .inr ⟨path, by rw [h]⟩

/-- An absolute target is taken from the old prefix to the new one. -/
theorem copiedTarget_absolute {target text : ByteString}
    (absolute : (linkTo target).absolute = true)
    (copy : copiedTarget target = some text) :
    ∃ rest, target = kLegacyTermuxPrefix ++ rest ∧ text = getTermuxPrefix ++ rest ∧
      (rest = [] ∨ ∃ path, rest = chr '/' :: path) := by
  unfold copiedTarget at copy
  rw [if_pos (by simpa [linkTo] using absolute)] at copy
  split at copy
  · cases copy
  rename_i boundary
  rw [Bool.not_eq_true, Bool.not_eq_false', hasPathPrefixBoundary, Bool.and_eq_true] at boundary
  obtain ⟨rest, rfl⟩ := List.isPrefixOf_iff_prefix.mp boundary.1
  refine ⟨rest, rfl, ?_, legacy_boundary boundary.2⟩
  rw [← Option.some.inj copy, List.drop_left]

/-- The target of a link, as it is told in the tree, stays in a directory that lies so many levels
above the prefix: an absolute one is taken from the old prefix, a relative one from its place. -/
def StaysIn (root : Loc ByteString) (above : Nat) (dirs : List FileName) (target : ByteString) :
    Prop :=
  if (linkTo target).absolute = true then
    EndsInside above root (pathSteps (target.drop kLegacyTermuxPrefix.length))
  else EndsInside (dirs.length + above) root (pathSteps target)

/-- Behind the prefix, a path leads from there. -/
theorem lexical_prefix {rest : ByteString} (h : rest = [] ∨ ∃ path, rest = chr '/' :: path) :
    lexical [] (pathSteps (getTermuxPrefix ++ rest)) =
      lexical (fileLoc getTermuxPrefix) (pathSteps rest) := by
  have base : fileLoc getTermuxPrefix = lexical [] (pathSteps getTermuxPrefix) := by
    rw [fileLoc, cString_of_noNul prefix_plain.noNul]
  rcases h with rfl | ⟨path, rfl⟩
  · rw [List.append_nil, base]
    rfl
  · have slash : pathSteps (chr '/' :: path) = .stay :: pathSteps path :=
      pathSteps_append_slash [] path
    rw [pathSteps_append_slash, lexical_append, ← base, slash]
    rfl

/-- **Where a copied link points to**, for a directory that is the prefix or lies above it. -/
theorem pointsTo_inside_iff {dirs : List FileName} {name : FileName} {target text : ByteString}
    (copy : copiedTarget target = some text) {above root : Loc ByteString}
    (split : fileLoc getTermuxPrefix = above ++ root) :
    Inside root (pointsTo (name.text :: dirLoc dirs (fileLoc getTermuxPrefix)) text) ↔
      StaysIn root above.length dirs target := by
  unfold StaysIn pointsTo
  by_cases absolute : (linkTo target).absolute = true
  · obtain ⟨rest, old, new, boundary⟩ := copiedTarget_absolute absolute copy
    have start : (linkTo text).start (dirLoc dirs (fileLoc getTermuxPrefix)) = [] := by
      rw [new]
      rfl
    have steps : (linkTo text).steps = pathSteps (getTermuxPrefix ++ rest) := by
      rw [new]
      rfl
    rw [if_pos absolute, old, List.drop_left, List.tail_cons, start, steps,
      lexical_prefix boundary, split]
    exact inside_lexical_iff
  · have relative : (linkTo target).absolute = false := by simpa using absolute
    have same := copiedTarget_relative relative copy
    have start : (linkTo text).start (dirLoc dirs (fileLoc getTermuxPrefix)) =
        ((dirs.map (·.text)).reverse ++ above) ++ root := by
      rw [same, Target.start, relative, split, dirLoc, List.append_assoc]
      rfl
    have depth : ((dirs.map (·.text)).reverse ++ above).length = dirs.length + above.length := by
      simp
    rw [if_neg absolute, List.tail_cons, start, ← depth, same]
    exact inside_lexical_iff

/-! ### What the checks of the archive say -/

/-- What `installSinglePackage` gives to `extractTar` for a Termux package. -/
def termuxOptions : ExtractOptions where
  allowedAbsoluteSymlinkTargetPrefixes := [kLegacyTermuxPrefix]

/-- Slashes in front of a path are no steps. -/
theorem up_mem_of_dropSlashes {path : ByteString} (h : Step.up ∈ pathSteps path) :
    Step.up ∈ pathSteps (path.dropWhile (· == chr '/')) := by
  induction path with
  | nil => exact h
  | cons c path ih =>
    by_cases slash : c = chr '/'
    · subst slash
      have steps : pathSteps (chr '/' :: path) = .stay :: pathSteps path :=
        pathSteps_append_slash [] path
      rw [steps, List.mem_cons] at h
      rw [List.dropWhile_cons_of_pos (by simp)]
      exact ih (h.resolve_left nofun)
    · rw [List.dropWhile_cons_of_neg (by simpa using slash)]
      exact h

/-- The steps of an absolute path, as they are told behind the old prefix. -/
theorem up_mem_legacy {rest : ByteString} (boundary : rest = [] ∨ ∃ path, rest = chr '/' :: path) :
    Step.up ∈ pathSteps (kLegacyTermuxPrefix ++ rest) ↔ Step.up ∈ pathSteps rest := by
  rcases boundary with rfl | ⟨path, rfl⟩
  · decide
  · have slash : pathSteps (chr '/' :: path) = .stay :: pathSteps path :=
      pathSteps_append_slash [] path
    have legacy : Step.up ∉ pathSteps kLegacyTermuxPrefix := by decide
    rw [pathSteps_append_slash, List.mem_append, slash, List.mem_cons]
    simp [legacy]

/-- An accepted absolute target has no step up. -/
theorem absolute_noUp {entry : TarEntry} (h : checkEntry termuxOptions entry = .ok ())
    (link : entry.type = chr 'l') (absolute : (linkTo entry.linkTarget).absolute = true) :
    Step.up ∉ pathSteps entry.linkTarget := by
  obtain ⟨_, -, h⟩ := ok_of_bind h
  have isLink : isLinkType entry.type = true := by simp [isLinkType, link]
  have soft : (entry.type == chr 'h') = false := by
    rw [link]
    decide
  have first : (entry.linkTarget.head? == some (chr '/')) = true := absolute
  simp only [isLink, Bool.not_true, Bool.and_false, Bool.false_eq_true, if_false, if_true] at h
  split at h
  · cases h
  unfold validateLinkTarget at h
  split at h
  · cases h
  split at h
  · cases h
  rw [soft, if_neg Bool.false_ne_true] at h
  unfold validateAllowedAbsoluteSymlinkTarget at h
  split at h
  swap
  · cases h
  rename_i allowed found
  obtain ⟨_, suffix, -⟩ := ok_of_bind h
  have noUp := (appendSegments_spec [] suffix).2.2 rfl
  have fits := List.find?_some found
  obtain rfl : allowed = kLegacyTermuxPrefix :=
    List.mem_singleton.mp (List.mem_of_find?_eq_some found)
  rw [pathHasPrefixBoundary, Bool.and_eq_true, Bool.and_eq_true] at fits
  obtain ⟨rest, target⟩ := List.isPrefixOf_iff_prefix.mp fits.1.2
  have boundary := legacy_boundary (target ▸ fits.2)
  rw [← target, List.drop_left] at noUp
  rw [← target, up_mem_legacy boundary]
  exact fun up => noUp (up_mem_of_dropSlashes up)

/-- **No absolute link of an unpacked archive has a step up.** -/
theorem run_absolute {entries : List TarEntry} {dest : Loc ByteString} {done : List TarEntry}
    {links : Links ByteString}
    (checked : ∀ entry ∈ entries, checkEntry termuxOptions entry = .ok ())
    (run : Run dest (fun _ _ _ => True) done links) (part : ∀ entry ∈ done, entry ∈ entries) :
    ∀ loc target, links loc = some target → target.absolute = true → Step.up ∉ target.steps := by
  induction run with
  | start => exact fun _ _ link => nomatch link
  | step before extracts _ ih =>
    rename_i done links links' entry _
    have known := ih fun e mem => part e (List.mem_append_left _ mem)
    have mine := checked entry (part entry (List.mem_append_right _ List.mem_cons_self))
    intro loc target link absolute
    cases extracts with
    | kept => exact known loc target link absolute
    | replaced placed =>
      rw [Function.update_apply] at link
      split at link
      · cases link
      · exact known loc target link absolute
    | symlinked type placed =>
      rw [Function.update_apply] at link
      split at link
      · cases link
        exact absolute_noUp mine type absolute
      · exact known loc target link absolute
    | hardLinked type placed linked old =>
      rw [Function.update_apply] at link
      split at link
      · cases link
        exact known _ target old absolute
      · exact known loc target link absolute

/-- The links of the tree are those that `tar` left below a directory. -/
def Unpacked (links : Links ByteString) (src : Loc ByteString)
    (tree : Lib.FileTree.Dir FileName ByteString) : Prop :=
  ∀ dirs name target, (dirs, name, target) ∈ tree.links →
    links (name.text :: dirLoc dirs src) = some (linkTo target)

/-- **Where the links of a Termux payload point to.** Every link that is made is the copy of a
link of the tree, and points into the prefix, or a directory above it, exactly if the target that
is told in the tree stays there. In what `tar` unpacks of an accepted archive, absolute targets
always do. -/
theorem termuxLink_inside_iff {sys : Answers} {tree : Lib.FileTree.Dir FileName ByteString}
    {made : MadeLink} (mem : made ∈ (copyPayload sys tree).2.links) :
    ∃ dirs name target, (dirs, name, target) ∈ tree.links ∧
      fileLoc made.place = name.text :: dirLoc dirs (fileLoc getTermuxPrefix) ∧
      ∀ above root, fileLoc getTermuxPrefix = above ++ root →
        (Inside root (pointsTo (fileLoc made.place) made.target) ↔
          StaysIn root above.length dirs target) ∧
        ∀ listing verbose entries dest links src,
          acceptListing termuxOptions listing verbose = .ok entries →
          Run dest (fun _ _ _ => True) entries links → Unpacked links src tree →
            (linkTo target).absolute = true → StaysIn root above.length dirs target := by
  obtain ⟨dirs, name, target, there, place, copy⟩ := mem_copyPayload mem
  have loc := placeLoc dirs name
  rw [← place] at loc
  refine ⟨dirs, name, target, there, loc, fun above root split => ⟨?_, ?_⟩⟩
  · rw [loc]
    exact pointsTo_inside_iff copy split
  · intro listing verbose entries dest links src accepted run unpacked absolute
    have noUp : Step.up ∉ pathSteps target :=
      run_absolute (checked_of_mem accepted) run (fun _ mem => mem) _ _
        (unpacked dirs name target there) absolute
    obtain ⟨rest, old, -, boundary⟩ := copiedTarget_absolute absolute copy
    rw [old, up_mem_legacy boundary] at noUp
    have inside : Inside root (lexical (above ++ root) (pathSteps rest)) :=
      (stays_of_noUp noUp).inside (List.suffix_append _ _)
    rw [StaysIn, if_pos absolute, old, List.drop_left]
    exact inside_lexical_iff.mp inside

/-- A link that climbs from `usr/bin` over the Termux root. -/
def climbingLink : TarEntry where
  name := str "data/data/com.termux/files/usr/bin/x"
  type := chr 'l'
  linkTarget := str "../../../commands"

/-- What `tar` leaves of it below `usr`. -/
def climbingTree : Lib.FileTree.Dir FileName ByteString :=
  .dir ⟨str "bin", by decide⟩ (.link ⟨str "x", by decide⟩ (str "../../../commands") .empty) .empty

/-- A system on which everything works. -/
def working : Answers := ⟨fun _ => true, fun _ => true, fun _ => true, fun _ => true,
  fun _ => true, fun _ => true⟩

/-- The copy of the link. -/
def climbingCopy : MadeLink where
  place := getTermuxPrefix ++ str "/bin/x"
  target := str "../../../commands"

theorem climbingCopy_made : climbingCopy ∈ (copyPayload working climbingTree).2.links := by decide

theorem termuxLink_inside_climbing :
    ∃ dirs name target, (dirs, name, target) ∈ climbingTree.links ∧
      fileLoc climbingCopy.place = name.text :: dirLoc dirs (fileLoc getTermuxPrefix) ∧
      ∀ above root, fileLoc getTermuxPrefix = above ++ root →
        (Inside root (pointsTo (fileLoc climbingCopy.place) climbingCopy.target) ↔
          StaysIn root above.length dirs target) ∧
        ∀ listing verbose entries dest links src,
          acceptListing termuxOptions listing verbose = .ok entries →
          Run dest (fun _ _ _ => True) entries links → Unpacked links src climbingTree →
            (linkTo target).absolute = true → StaysIn root above.length dirs target :=
  termuxLink_inside_iff climbingCopy_made

/-- The link is accepted below the staging tree, and its copy leaves the Termux root. -/
theorem climbingLink_escapes :
    ¬ ∀ listing verbose entries dest links src (tree : Lib.FileTree.Dir FileName ByteString) sys,
      acceptListing termuxOptions listing verbose = .ok entries →
      Run dest (fun _ _ _ => True) entries links → Unpacked links src tree →
        ∀ made ∈ (copyPayload sys tree).2.links,
          Inside (fileLoc getTermuxRoot) (pointsTo (fileLoc made.place) made.target) := by
  intro safe
  have accepted : acceptListing termuxOptions (str "data/data/com.termux/files/usr/bin/x\n")
      (str "lrwxrwxrwx 0/0 0 data/data/com.termux/files/usr/bin/x -> ../../../commands\n") =
      .ok [climbingLink] := by decide +kernel
  let src : Loc ByteString := ["usr", "files", "com.termux", "data", "data"].map str
  have placed : Placed (fun _ => none) [] (entrySteps climbingLink)
      (str "x" :: str "bin" :: src) :=
    ⟨["data", "data", "com.termux", "files", "usr", "bin"].map fun name => .down (str name),
      str "x", str "bin" :: src, by decide,
      .down rfl (.down rfl (.down rfl (.down rfl (.down rfl (.down rfl (.done _)))))), rfl⟩
  have run : Run [] (fun _ _ _ => True) [climbingLink] _ :=
    .step .start (.symlinked rfl placed) trivial
  have unpacked : Unpacked (Function.update (fun _ => none) (str "x" :: str "bin" :: src)
      (some (linkTo climbingLink.linkTarget))) src climbingTree := by
    intro dirs name target there
    obtain ⟨rfl, rfl, rfl⟩ : dirs = [⟨str "bin", by decide⟩] ∧ name = ⟨str "x", by decide⟩ ∧
        target = str "../../../commands" := by
      simpa [climbingTree, Lib.FileTree.Dir.links] using there
    exact Function.update_self ..
  have inside := safe _ _ _ _ _ src climbingTree working accepted run unpacked climbingCopy
    climbingCopy_made
  revert inside
  decide

end Apm.Install.TermuxTree
