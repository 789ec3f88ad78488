import Apm.Lib.Effect
import Apm.Util.Path

/-!
`src/core/tar_extractor.cpp`: what `extractTar` checks before it runs `tar`, and what `tar`
does with the entries.

`tar` is the system's. It is described by what it may do with an entry: it follows the links
on the way to the entry, may follow a link at its end or replace it, and may fail.

## Main results

* `extraction_inside`: an accepted listing is extracted inside the destination, as long as
  no step up in a link's target comes behind a link and hard links do not name such a path
  or such a link.
-/

namespace Apm.Tar

open Apm.Fs Apm.Lib.Effect Apm.Lib.Walk

/-! ### Checking names -/

structure ExtractOptions where
  allowedAbsoluteSymlinkTargetPrefixes : List ByteString := []

/-- A member of the archive, as listed. -/
structure TarEntry where
  name : ByteString
  type : UInt8
  linkTarget : ByteString := []
deriving DecidableEq

def stripLeadingDotSlash : ByteString → ByteString
  | a :: b :: rest =>
      if a == chr '.' && b == chr '/' then stripLeadingDotSlash rest else a :: b :: rest
  | path => path

/-- The components of a path, put behind those there are. -/
def appendSegments (allowParent : Bool) (context : ByteString) :
    List ByteString → List ByteString → Except ByteString (List ByteString)
  | [], parts => .ok parts
  | segment :: rest, parts =>
      if segment.isEmpty then
        if rest.isEmpty then .ok parts
        else .error (str "Unsafe tar path (empty segment): " ++ context)
      else if segment == str "." then appendSegments allowParent context rest parts
      else if segment == str ".." then
        if !allowParent || parts.isEmpty then
          .error (str "Unsafe tar path (parent traversal): " ++ context)
        else appendSegments allowParent context rest parts.dropLast
      else appendSegments allowParent context rest (parts ++ [segment])

/-- `appendSegments` of a path. -/
def appendPath (path : ByteString) (allowParent : Bool) (parts : List ByteString)
    (context : ByteString) : Except ByteString (List ByteString) :=
  appendSegments allowParent context (path.splitOn (chr '/')) parts

def validateEntryPath (rawPath : ByteString) : Except ByteString Unit := do
  let path := stripLeadingDotSlash rawPath
  if path.isEmpty then pure ()
  else if path.head? == some (chr '/') then
    throw (str "Unsafe tar path (absolute): " ++ rawPath)
  else if path.contains (chr '\\') then
    throw (str "Unsafe tar path (backslash): " ++ rawPath)
  else
    let _ ← appendPath path false [] rawPath
    pure ()

def pathHasPrefixBoundary (path pathPrefix : ByteString) : Bool :=
  !pathPrefix.isEmpty && pathPrefix.isPrefixOf path &&
    (path.length == pathPrefix.length || pathPrefix.getLast? == some (chr '/') ||
      path[pathPrefix.length]? == some (chr '/'))

/-- The first prefix that fits decides. -/
def validateAllowedAbsoluteSymlinkTarget (entryName rawTarget : ByteString)
    (options : ExtractOptions) : Except ByteString Unit := do
  match options.allowedAbsoluteSymlinkTargetPrefixes.find? (pathHasPrefixBoundary rawTarget) with
  | some allowed =>
      let suffix := (rawTarget.drop allowed.length).dropWhile (· == chr '/')
      let _ ← appendPath suffix false [] entryName
      pure ()
  | none => throw (str "Unsafe tar link (absolute target): " ++ entryName)

/-- A path without the slashes at its end. -/
def dropSlashes (path : ByteString) : ByteString := path.rdropWhile (· == chr '/')

/-- What stands before the last slash. -/
def baseDirOf (name : ByteString) : ByteString := (name.rdropWhile (· != chr '/')).dropLast

/-- The target of a symbolic link and of a hard link are both taken from the directory of
the entry. -/
def validateLinkTarget (entryName rawTarget : ByteString) (linkType : UInt8)
    (options : ExtractOptions) : Except ByteString Unit := do
  if rawTarget.isEmpty then throw (str "Unsafe tar link (empty target): " ++ entryName)
  else if rawTarget.contains (chr '\\') then
    throw (str "Unsafe tar link (backslash in target): " ++ entryName)
  else if rawTarget.head? == some (chr '/') then
    if linkType == chr 'h' then
      throw (str "Unsafe tar hardlink (absolute target): " ++ entryName)
    else validateAllowedAbsoluteSymlinkTarget entryName rawTarget options
  else
    let baseDir := baseDirOf (dropSlashes (stripLeadingDotSlash entryName))
    let parts ← appendPath baseDir false [] entryName
    let _ ← appendPath rawTarget true parts entryName
    pure ()

/-! ### Reading the listing -/

/-- What stands before and behind the first occurrence of a text. -/
def cutAt (needle : ByteString) : ByteString → Option (ByteString × ByteString)
  | [] => if needle.isEmpty then some ([], []) else none
  | c :: text =>
      if needle.isPrefixOf (c :: text) then some ([], (c :: text).drop needle.length)
      else (cutAt needle text).map fun cut => (c :: cut.1, cut.2)

/-- The nonempty lines of what `tar` prints. -/
def outputLines (output : ByteString) : List ByteString :=
  ((getlines (chr '\n') output).map dropCr).filter (!·.isEmpty)

def listTarEntries (output : ByteString) : List ByteString := outputLines output

def isLinkType (type : UInt8) : Bool := type == chr 'l' || type == chr 'h'

/-- The type and the link target of a verbose line. -/
def lineInfo (line : ByteString) : Option (UInt8 × ByteString) :=
  match line.find? (!isspace ·) with
  | none => none
  | some type =>
      if type == 0 then none
      else if isLinkType type then
        match cutAt (str " -> ") line with
        | some (_, target) => some (type, target)
        | none =>
            match cutAt (str " link to ") line with
            | some (_, target) => some (type, target)
            | none => some (type, [])
      else some (type, [])

def listTarEntryInfo (output : ByteString) : List (UInt8 × ByteString) :=
  (outputLines output).filterMap lineInfo

/-- The path of an entry, without the target that some versions of `tar` print behind it. -/
def entryPath (type : UInt8) (entry : ByteString) : ByteString :=
  if isLinkType type then
    match cutAt (str " -> ") entry with
    | some (path, _) => path
    | none =>
        match cutAt (str " link to ") entry with
        | some (path, _) => path
        | none => entry
  else entry

def checkEntry (options : ExtractOptions) (entry : TarEntry) : Except ByteString Unit := do
  validateEntryPath entry.name
  if entry.type != chr '-' && entry.type != chr 'd' && !isLinkType entry.type then
    throw (str "Unsafe tar entry type: " ++ entry.name)
  else if isLinkType entry.type then
    if entry.linkTarget.isEmpty then
      throw (str "Tar link entry missing target: " ++ entry.name)
    else validateLinkTarget entry.name entry.linkTarget entry.type options
  else pure ()

def checkEntries (options : ExtractOptions) : List TarEntry → Except ByteString Unit
  | [] => .ok ()
  | entry :: entries =>
      match checkEntry options entry with
      | .error errorMsg => .error errorMsg
      | .ok _ => checkEntries options entries

/-- The part of `extractTar` between the listings and the extraction: the entries that are
extracted. -/
def acceptListing (options : ExtractOptions) (listing verbose : ByteString) :
    Except ByteString (List TarEntry) := do
  let entries := listTarEntries listing
  let entryInfo := listTarEntryInfo verbose
  if entries.length != entryInfo.length then throw (str "Tar entry list mismatch")
  else
    let members := (entries.zip entryInfo).map fun (entry, type, linkTarget) =>
      { name := entryPath type entry, type, linkTarget : TarEntry }
    let _ ← checkEntries options members
    pure members

/-! ### What tar does -/

/-- The path that `tar` makes an entry at. -/
def entrySteps (entry : TarEntry) : List (Step ByteString) :=
  pathSteps (dropSlashes (stripLeadingDotSlash entry.name))

/-- What a symbolic link points to. -/
def linkTo (target : ByteString) : Target ByteString where
  absolute := target.head? == some (chr '/')
  steps := pathSteps target

variable (dest : Loc ByteString)

/-- A place that `tar` may create or overwrite for an entry: the directories on the way, the
entry's own place, and what a link there leads to. -/
def Writes (links : Links ByteString) (entry : TarEntry) (loc : Loc ByteString) : Prop :=
  (∃ steps, steps <+: entrySteps entry ∧ Leads links dest steps loc) ∨
    Placed links dest (entrySteps entry) loc

/-- What a hard link is made to: its target is taken from the destination. -/
def LinksTo (links : Links ByteString) (entry : TarEntry) (loc : Loc ByteString) : Prop :=
  entry.type = chr 'h' ∧
    (Leads links dest (pathSteps entry.linkTarget) loc ∨
      Placed links dest (pathSteps entry.linkTarget) loc)

/-- The links after the extraction of an entry. -/
inductive Extracts (links : Links ByteString) (entry : TarEntry) : Links ByteString → Prop where
  /-- The entry fails, is no link, or goes where a link leads. -/
  | kept : Extracts links entry links
  | replaced {place : Loc ByteString} (placed : Placed links dest (entrySteps entry) place) :
      Extracts links entry (Function.update links place none)
  | symlinked {place : Loc ByteString} (type : entry.type = chr 'l')
      (placed : Placed links dest (entrySteps entry) place) :
      Extracts links entry (Function.update links place (some (linkTo entry.linkTarget)))
  /-- A hard link to a symbolic link is one more symbolic link of the same text. -/
  | hardLinked {place old : Loc ByteString} {target : Target ByteString}
      (type : entry.type = chr 'h') (placed : Placed links dest (entrySteps entry) place)
      (linked : Placed links dest (pathSteps entry.linkTarget) old)
      (link : links old = some target) :
      Extracts links entry (Function.update links place (some target))

/-- The entries extracted so far, from an empty destination, with steps of a kind. -/
inductive Run (kind : Links ByteString → TarEntry → Links ByteString → Prop) :
    List TarEntry → Links ByteString → Prop where
  | start : Run kind [] fun _ => none
  | step {done : List TarEntry} {links links' : Links ByteString} {entry : TarEntry}
      (before : Run kind done links) (extracts : Extracts dest links entry links')
      (fits : kind links entry links') : Run kind (done ++ [entry]) links'

/-- Every link lies inside the destination and leads there. -/
def LinksInside (links : Links ByteString) : Prop :=
  ∀ loc target, links loc = some target → Inside dest loc ∧
    ∀ loc', Leads links (target.start loc.tail) target.steps loc' → Inside dest loc'

/-- Whatever is written or linked to for the entry is inside the destination. -/
def EntryInside (links : Links ByteString) (entry : TarEntry) : Prop :=
  (∀ loc, Writes dest links entry loc → Inside dest loc) ∧
    ∀ loc, LinksTo dest links entry loc → Inside dest loc

/-! ### What the checks say -/

/-- The components that `appendSegments` accepts do not rise above where they start. -/
theorem appendSegments_spec {allowParent : Bool} {context : ByteString}
    {segments parts parts' : List ByteString}
    (h : appendSegments allowParent context segments parts = .ok parts') :
    Stays dest (parts.reverse ++ dest) (segments.map pathStep) ∧
      lexical (parts.reverse ++ dest) (segments.map pathStep) = parts'.reverse ++ dest ∧
      (allowParent = false → Step.up ∉ segments.map pathStep) := by
  induction segments generalizing parts with
  | nil =>
    cases h
    exact ⟨trivial, rfl, fun _ => List.not_mem_nil⟩
  | cons segment rest ih =>
    rw [appendSegments] at h
    by_cases empty : segment.isEmpty
    · rw [if_pos empty] at h
      split at h
      · cases h
        have last : rest = [] := by simpa using ‹rest.isEmpty = true›
        have stays : pathStep segment = .stay := by simp [pathStep, empty]
        rw [last, List.map_singleton, stays]
        exact ⟨⟨fun up => (by cases up), trivial⟩, rfl, fun _ => by simp⟩
      · cases h
    rw [if_neg empty] at h
    by_cases dot : segment = str "."
    · rw [if_pos (by simp [dot])] at h
      obtain ⟨stays, leads, noUp⟩ := ih h
      have step : pathStep segment = .stay := by simp [pathStep, dot]
      rw [List.map_cons, step]
      refine ⟨⟨fun up => (by cases up), stays⟩, leads, fun strict => ?_⟩
      simpa using noUp strict
    rw [if_neg (by simpa using dot)] at h
    by_cases parent : segment = str ".."
    · rw [if_pos (by simp [parent])] at h
      split at h
      · cases h
      · rename_i allowed
        rw [Bool.or_eq_true, not_or] at allowed
        obtain ⟨stays, leads, -⟩ := ih h
        have step : pathStep segment = .up := by
          subst parent
          decide
        have nonempty : parts ≠ [] := by simpa using allowed.2
        have up : (parts.reverse ++ dest).tail = parts.dropLast.reverse ++ dest := by
          rw [List.tail_append_of_ne_nil (by simpa using nonempty), List.tail_reverse]
        rw [← up] at stays leads
        rw [List.map_cons, step]
        refine ⟨⟨fun _ top => nonempty ?_, stays⟩, leads, fun strict => ?_⟩
        · simpa using top
        · simp [strict] at allowed
    · rw [if_neg (by simpa using parent)] at h
      obtain ⟨stays, leads, noUp⟩ := ih h
      have step : pathStep segment = .down segment := by simp [pathStep, empty, dot, parent]
      rw [List.reverse_append, List.reverse_singleton, List.append_assoc] at stays leads
      rw [List.map_cons, step]
      refine ⟨⟨fun up => (by cases up), stays⟩, leads, fun strict => ?_⟩
      simpa using noUp strict

/-- What `dropSlashes` drops are slashes. -/
theorem dropSlashes_append (path : ByteString) :
    path = dropSlashes path ∨ ∃ rest, path = dropSlashes path ++ chr '/' :: rest := by
  have whole : dropSlashes path ++ path.rtakeWhile (· == chr '/') = path :=
    List.rdropWhile_append_rtakeWhile
  cases slashes : path.rtakeWhile (· == chr '/') with
  | nil =>
    rw [slashes, List.append_nil] at whole
    exact .inl whole.symm
  | cons c rest =>
    have mem : c ∈ path.rtakeWhile (· == chr '/') := by
      rw [slashes]
      exact List.mem_cons_self
    have slash : c = chr '/' := by simpa using List.mem_rtakeWhile_imp mem
    rw [slashes, slash] at whole
    exact .inr ⟨rest, whole.symm⟩

/-- The path of an accepted entry has no steps up. -/
theorem entrySteps_noUp {entry : TarEntry} (h : validateEntryPath entry.name = .ok ()) :
    Step.up ∉ entrySteps entry := by
  unfold validateEntryPath at h
  unfold entrySteps
  generalize stripLeadingDotSlash entry.name = path at h ⊢
  have noUp : Step.up ∉ pathSteps path := by
    by_cases empty : path.isEmpty
    · rw [List.isEmpty_iff.mp empty]
      decide
    · simp only [empty, Bool.false_eq_true, if_false] at h
      split at h
      · cases h
      split at h
      · cases h
      cases parts : appendPath path false [] entry.name with
      | error _ =>
        rw [parts] at h
        cases h
      | ok _ => exact (appendSegments_spec [] parts).2.2 rfl
  rcases dropSlashes_append path with same | ⟨rest, same⟩
  · exact same ▸ noUp
  · rw [same, pathSteps_append_slash, List.mem_append, not_or] at noUp
    exact noUp.1

/-- What stands before the last slash, and behind it. -/
theorem baseDirOf_append {name : ByteString} (slash : chr '/' ∈ name) :
    ∃ last, name = baseDirOf name ++ chr '/' :: last ∧ chr '/' ∉ last := by
  obtain ⟨last, rest, split, fresh⟩ := List.eq_append_cons_of_mem (List.mem_reverse.mpr slash)
  have whole : name = rest.reverse ++ chr '/' :: last.reverse := by
    rw [← List.reverse_reverse name, split]
    simp
  refine ⟨last.reverse, ?_, by simpa using fresh⟩
  have base : baseDirOf name = rest.reverse := by
    unfold baseDirOf List.rdropWhile
    rw [split, List.dropWhile_append_of_pos]
    · simp
    · intro b mem
      have : b ≠ chr '/' := fun same => fresh (same ▸ mem)
      simpa using this
  rw [base]
  exact whole

/-- The directory of a name, as the checks and as `tar` see it. -/
theorem lexical_baseDirOf (loc : Loc ByteString) (name : ByteString) :
    lexical loc (pathSteps (baseDirOf name)) = lexical loc (pathSteps name).dropLast := by
  by_cases slash : chr '/' ∈ name
  · obtain ⟨last, split, fresh⟩ := baseDirOf_append slash
    have steps : (pathSteps name).dropLast = pathSteps (baseDirOf name) := by
      conv_lhs => rw [split]
      rw [pathSteps_append_slash, pathSteps_component fresh, List.dropLast_concat]
    rw [steps]
  · have base : baseDirOf name = [] := by
      unfold baseDirOf
      rw [List.rdropWhile_eq_nil_iff.mpr]
      · rfl
      · intro b mem
        have : b ≠ chr '/' := fun same => slash (same ▸ mem)
        simpa using this
    rw [base, pathSteps_component slash]
    rfl

/-! ### Extraction -/

/-- The entry goes and leads where it is checked: a symbolic link with a step up lies in a
directory that is reached without links, and a hard link stays inside as taken from the
destination. -/
structure EntryDirect (links : Links ByteString) (entry : TarEntry) : Prop where
  relative : entry.type = chr 'l' → (linkTo entry.linkTarget).absolute = false
  symlink : entry.type = chr 'l' → Step.up ∈ pathSteps entry.linkTarget →
    Direct links dest (entrySteps entry).dropLast
  hardLink : entry.type = chr 'h' → Tame links dest dest (pathSteps entry.linkTarget)
  /-- A hard link to a symbolic link takes a text along that was checked elsewhere. -/
  copied : entry.type = chr 'h' → ∀ old target, Placed links dest (pathSteps entry.linkTarget) old →
    links old = some target → Step.up ∉ target.steps

/-- No step up in a link's target comes behind a link. -/
def UpsBeforeLinks (links : Links ByteString) : Prop :=
  ∀ name dir target, links (name :: dir) = some target → UpsDirect links dir target.steps

/-- A step of the extraction that does not reach what the checks do not see. -/
def Clean (links : Links ByteString) (entry : TarEntry) (links' : Links ByteString) : Prop :=
  EntryDirect dest links entry ∧ UpsBeforeLinks links'

/-- An accepted relative target stays inside, as it stands. -/
theorem target_stays {options : ExtractOptions} {entry : TarEntry}
    (h : validateLinkTarget entry.name entry.linkTarget entry.type options = .ok ())
    (relative : (linkTo entry.linkTarget).absolute = false) :
    Stays dest (lexical dest (entrySteps entry).dropLast) (pathSteps entry.linkTarget) := by
  unfold validateLinkTarget at h
  split at h
  · cases h
  split at h
  · cases h
  rw [if_neg (by simpa [linkTo] using relative)] at h
  obtain ⟨parts, base, h⟩ := ok_of_bind h
  obtain ⟨_, target, -⟩ := ok_of_bind h
  have dir := (appendSegments_spec dest base).2.1
  have stays := (appendSegments_spec dest target).1
  rw [← dir] at stays
  rw [entrySteps, ← lexical_baseDirOf]
  exact stays

/-- What is known of an accepted entry. -/
structure Accepted (entry : TarEntry) : Prop where
  noUp : Step.up ∉ entrySteps entry
  stays : isLinkType entry.type = true → (linkTo entry.linkTarget).absolute = false →
    Stays dest (lexical dest (entrySteps entry).dropLast) (pathSteps entry.linkTarget)

theorem accepted_of_checkEntry {options : ExtractOptions} {entry : TarEntry}
    (h : checkEntry options entry = .ok ()) : Accepted dest entry := by
  obtain ⟨_, path, h⟩ := ok_of_bind h
  refine ⟨entrySteps_noUp path, fun link relative => ?_⟩
  split at h
  · cases h
  split at h
  · cases h
  exact target_stays dest h relative

theorem accepted_of_mem {options : ExtractOptions} {listing verbose : ByteString}
    {entries : List TarEntry} (h : acceptListing options listing verbose = .ok entries)
    {entry : TarEntry} (mem : entry ∈ entries) : Accepted dest entry := by
  unfold acceptListing at h
  dsimp only at h
  split at h
  · cases h
  obtain ⟨_, checked, same⟩ := ok_of_bind h
  cases same
  revert checked
  generalize List.map _ _ = members at mem ⊢
  intro checked
  induction members with
  | nil => cases mem
  | cons first members ih =>
    rw [checkEntries] at checked
    split at checked
    · cases checked
    rename_i fits
    rcases List.mem_cons.mp mem with rfl | later
    · exact accepted_of_checkEntry dest fits
    · exact ih later checked

/-! ### The links stay inside -/

variable {dest}

/-- One more link. -/
theorem allTame_update {links : Links ByteString} {place : Loc ByteString}
    {target : Target ByteString} (all : AllTame links dest)
    (ups : UpsBeforeLinks (Function.update links place (some target)))
    (inside : Inside dest place.tail) (below : place ≠ [])
    (relative : target.absolute = false) (stays : Stays dest place.tail target.steps) :
    AllTame (Function.update links place (some target)) dest := by
  intro loc other link
  obtain ⟨name, dir, rfl⟩ := List.exists_cons_of_ne_nil below
  by_cases same : loc = name :: dir
  · subst same
    have direct := ups name dir other link
    rw [Function.update_self] at link
    cases link
    exact ⟨name, dir, rfl, inside, relative, direct, stays⟩
  · have old := link
    rw [Function.update_of_ne same] at old
    obtain ⟨name, dir, rfl, inside, relative, tame⟩ := all loc other old
    exact ⟨name, dir, rfl, inside, relative, ups name dir other link, tame.stays⟩

/-- **One entry** keeps the links tame. -/
theorem Extracts.allTame {links links' : Links ByteString} {entry : TarEntry}
    (h : Extracts dest links entry links') (accepted : Accepted dest entry)
    (clean : Clean dest links entry links') (all : AllTame links dest) :
    AllTame links' dest := by
  obtain ⟨direct, ups⟩ := clean
  have tame : Tame links dest dest (entrySteps entry) := tame_of_noUp accepted.noUp
  cases h with
  | kept => exact all
  | replaced placed =>
    intro loc target link
    have old : links loc = some target := by
      by_contra fresh
      rw [Function.update_apply] at link
      split at link
      · cases link
      · exact fresh link
    obtain ⟨name, dir, rfl, inside, relative, tame⟩ := all loc target old
    exact ⟨name, dir, rfl, inside, relative, ups name dir target link, tame.stays⟩
  | symlinked type placed =>
    obtain ⟨before, name, dir, split, leads, rfl⟩ := placed
    rw [split] at tame
    have relative := direct.relative type
    apply allTame_update all ups (leads.inside all (List.suffix_refl _) tame.left)
      (List.cons_ne_nil _ _) relative
    by_cases up : Step.up ∈ pathSteps entry.linkTarget
    · have checked := direct.symlink type up
      have stays := accepted.stays (by simp [isLinkType, type]) relative
      rw [split, List.dropLast_concat] at checked stays
      rw [← leads.eq_lexical checked] at stays
      exact stays
    · exact stays_of_noUp up
  | hardLinked type placed linked link =>
    obtain ⟨before, name, dir, split, leads, rfl⟩ := placed
    rw [split] at tame
    obtain ⟨-, -, -, -, relative, -⟩ := all _ _ link
    exact allTame_update all ups (leads.inside all (List.suffix_refl _) tame.left)
      (List.cons_ne_nil _ _) relative (stays_of_noUp (direct.copied type _ _ linked link))

theorem Run.allTame {entries done : List TarEntry} {links : Links ByteString}
    (run : Run dest (Clean dest) done links) (part : done <+: entries)
    (accepted : ∀ entry ∈ entries, Accepted dest entry) : AllTame links dest := by
  induction run with
  | start => exact fun _ _ link => nomatch link
  | @step done links links' entry before extracts clean ih =>
    have first := (List.prefix_append done [entry]).trans part
    have mem : entry ∈ entries := part.subset (List.mem_append_right _ (List.mem_singleton_self _))
    exact extracts.allTame (accepted entry mem) clean (ih first)

/-- **Extraction.** While the entries of an accepted listing are extracted without a step
up behind a link, every link lies and leads inside the destination; the next entry, if it
goes and leads where it is checked, is written and linked inside. -/
theorem extraction_inside {options : ExtractOptions} {listing verbose : ByteString}
    {entries : List TarEntry} (accepted : acceptListing options listing verbose = .ok entries)
    {done : List TarEntry} {links : Links ByteString} (part : done <+: entries)
    (run : Run dest (Clean dest) done links) :
    LinksInside dest links ∧ ∀ entry, done ++ [entry] <+: entries →
      EntryDirect dest links entry → EntryInside dest links entry := by
  have known : ∀ entry ∈ entries, Accepted dest entry := fun _ => accepted_of_mem dest accepted
  have all := run.allTame part known
  constructor
  · intro loc target link
    obtain ⟨name, dir, rfl, inside, relative, tame⟩ := all loc target link
    refine ⟨inside_down inside name, fun loc' leads => ?_⟩
    rw [Target.start, relative] at leads
    exact leads.inside all inside tame
  · intro entry next direct
    have mem : entry ∈ entries := next.subset (List.mem_append_right _ (List.mem_singleton_self _))
    have tame : Tame links dest dest (entrySteps entry) := tame_of_noUp (known entry mem).noUp
    constructor
    · rintro loc (⟨steps, ⟨rest, split⟩, leads⟩ | placed)
      · rw [← split] at tame
        exact leads.inside all (List.suffix_refl _) tame.left
      · exact placed.inside all (List.suffix_refl _) tame
    · rintro loc ⟨type, leads | placed⟩
      · exact leads.inside all (List.suffix_refl _) (direct.hardLink type)
      · exact placed.inside all (List.suffix_refl _) (direct.hardLink type)

/-- A link to a sibling. -/
def siblingEntry : TarEntry where
  name := str "l"
  type := chr 'l'
  linkTarget := str "d"

theorem extraction_inside_sibling :
    let links := Function.update (fun _ => none) [str "l", str "dest"] (some (linkTo (str "d")))
    LinksInside [str "dest"] links ∧ ∀ entry, [siblingEntry] ++ [entry] <+: [siblingEntry] →
      EntryDirect [str "dest"] links entry → EntryInside [str "dest"] links entry := by
  have accepted : acceptListing {} (str "l\n") (str "lrwxrwxrwx 0/0 0 l -> d\n") =
      .ok [siblingEntry] := by decide
  have placed : Placed (fun _ => none) [str "dest"] (entrySteps siblingEntry)
      [str "l", str "dest"] := ⟨[], str "l", [str "dest"], by decide, .done _, rfl⟩
  have noUp : Step.up ∉ pathSteps (str "d") := by decide
  have clean : Clean [str "dest"] (fun _ => none) siblingEntry
      (Function.update (fun _ => none) [str "l", str "dest"] (some (linkTo (str "d")))) := by
    constructor
    · exact ⟨fun _ => by decide, fun _ up => absurd up noUp, fun type => absurd type (by decide),
        fun type => absurd type (by decide)⟩
    · intro name dir target link
      rw [Function.update_apply] at link
      split at link
      · cases link
        exact upsDirect_of_noUp noUp
      · cases link
  exact extraction_inside accepted (List.prefix_refl [siblingEntry])
    (.step .start (.symlinked rfl placed) clean)

/-- The members `a -> .`, `b -> a/..` and `b/evil`. -/
def nestedEntries : List TarEntry :=
  [{ name := str "a", type := chr 'l', linkTarget := str "." },
    { name := str "b", type := chr 'l', linkTarget := str "a/.." },
    { name := str "b/evil", type := chr '-' }]

/-- `a/..` is checked as the destination and leads to its parent, and so the file goes
there. -/
theorem nestedLink_escapes :
    ¬ ∀ (options : ExtractOptions) (listing verbose : ByteString) (entries : List TarEntry)
      (dest : Loc ByteString), acceptListing options listing verbose = .ok entries →
        ∀ done links, done <+: entries → Run dest (fun _ _ _ => True) done links →
          LinksInside dest links ∧
            ∀ entry, done ++ [entry] <+: entries → EntryInside dest links entry := by
  intro safe
  have accepted : acceptListing {} (str "a\nb\nb/evil\n")
      (str "lrwxrwxrwx 0/0 0 a -> .\nlrwxrwxrwx 0/0 0 b -> a/..\n-rw-r--r-- 0/0 5 b/evil\n") =
      .ok nestedEntries := by decide +kernel
  let dest := [str "dest"]
  have first : Placed (fun _ => none) dest [.down (str "a")] (str "a" :: dest) :=
    ⟨[], str "a", dest, rfl, .done _, rfl⟩
  let links := Function.update (fun _ => none) (str "a" :: dest) (some (linkTo (str ".")))
  have second : Placed links dest [.down (str "b")] (str "b" :: dest) :=
    ⟨[], str "b", dest, rfl, .done _, rfl⟩
  let links' := Function.update links (str "b" :: dest) (some (linkTo (str "a/..")))
  have run : Run dest (fun _ _ _ => True) (nestedEntries.take 2) links' :=
    .step (.step .start (.symlinked rfl first) trivial) (.symlinked rfl second) trivial
  have parent : Leads links' dest [.down (str "b")] [] := by
    apply Leads.follow (by decide : links' (str "b" :: dest) = some (linkTo (str "a/..")))
    apply Leads.follow (by decide : links' (str "a" :: dest) = some (linkTo (str ".")))
    exact .stay (.up (.done _))
  have evil : Writes dest links'
      { name := str "b/evil", type := chr '-' } [str "evil"] :=
    .inr ⟨[.down (str "b")], str "evil", [], by decide, parent, rfl⟩
  have inside := ((safe {} _ _ _ dest accepted _ links' (List.take_prefix 2 _) run).2 _
    (List.prefix_refl _)).1 _ evil
  exact absurd inside (by decide)

end Apm.Tar
