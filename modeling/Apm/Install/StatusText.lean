import Apm.Core.RepoCache
import Apm.Core.RepoSources
import Apm.Install.Install
import Apm.Util.Trace

/-!
Writing the status file and reading it back.

## Main results

* `status_roundTrips_iff`: the records that installs build read back as they were if and only
  if no version and no architecture has a line break.
-/

namespace Apm.Install

open Apm.Repo Apm.Fs Apm.Config Apm.Status Apm.Lib.Assoc Apm.Lib.Text

/-! ### Records -/

/-- A record as `installWithDeps` builds it for an entry of a Packages file, with any flags. -/
inductive Built : InstalledPackage → Prop where
  | of {repoPath repoText text : ByteString} {src : RepoSource} {component : ByteString}
      {pkg : PackageEntry} (db : InstalledDb) (termuxMode : Bool) (rootPackage : ByteString)
      (auto termux : Bool) (source : parseRepoFile repoPath repoText = .ok src)
      (listed : component ∈ src.components)
      (parsed : pkg ∈ markPackages src component (parsePackagesString text))
      (named : Security.validatePackageName pkg.packageName = none) :
      Built { installedRecord db termuxMode rootPackage pkg with
        autoInstalled := auto, termuxPackage := termux }

/-- The flags may be the ones that the installation gives. -/
theorem Built.installed {repoPath repoText text : ByteString} {src : RepoSource}
    {component : ByteString} {pkg : PackageEntry} (db : InstalledDb) (termuxMode : Bool)
    (rootPackage : ByteString) (source : parseRepoFile repoPath repoText = .ok src)
    (listed : component ∈ src.components)
    (parsed : pkg ∈ markPackages src component (parsePackagesString text))
    (named : Security.validatePackageName pkg.packageName = none) :
    Built (installedRecord db termuxMode rootPackage pkg) :=
  .of db termuxMode rootPackage _ _ source listed parsed named

/-- A record whose texts are neat, but for line breaks in the version and the architecture. -/
structure Fits (r : InstalledPackage) : Prop where
  filled : r.name ≠ []
  texts : ∀ text ∈ [r.name, r.status, r.installRoot, r.repoUri, r.repoDist, r.repoComponent,
    r.installPrefix], Neat text
  depends : ∀ name ∈ r.depends, DepName name
  version : Folded r.version
  architecture : Folded r.architecture

theorem neat_of_noSpace {s : ByteString} (h : ∀ c ∈ s, ¬ isspace c) : Neat s :=
  ⟨fun mem => h _ mem (by decide), bare_of_noSpace h⟩

theorem valid_noSpace {name : ByteString} (h : Security.validatePackageName name = none) :
    name ≠ [] ∧ ∀ c ∈ name, ¬ isspace c := by
  obtain ⟨⟨first, head, -⟩, letters⟩ := Security.validatePackageName_chars h
  constructor
  · rintro rfl
    cases head
  · exact fun c mem space => Security.not_nameChar_of_isspace space (letters c mem)

theorem installRootOf_neat {name : ByteString} (named : Security.validatePackageName name = none)
    (termuxMode : Bool) (rootPackage : ByteString) :
    Neat (installRootOf termuxMode rootPackage name) := by
  obtain ⟨filled, noSpace⟩ := valid_noSpace named
  have relative : name.head? ≠ some (chr '/') := fun first =>
    absurd ((Security.validatePackageName_chars named).2 _ (List.mem_of_head? first)) (by decide)
  have below : ∀ dir : ByteString, PlainDir dir → (∀ c ∈ dir, ¬ isspace c) →
      Neat (joinPath dir name) := by
    intro dir plain clean
    rw [plain.joinPath filled relative]
    apply neat_of_noSpace
    intro c mem
    rcases List.mem_append.mp mem with mem | mem
    · exact clean c mem
    · rcases List.mem_cons.mp mem with rfl | mem
      · decide
      · exact noSpace c mem
  unfold installRootOf
  split
  · exact below _ (by decide) (by decide)
  · split
    · exact below _ (by decide) (by decide)
    · exact below _ (by decide) (by decide)

theorem Built.fits {r : InstalledPackage} (h : Built r) : Fits r := by
  cases h with
  | @of repoPath repoText text src component pkg db termuxMode rootPackage _ _ source listed parsed
      named =>
    obtain ⟨plain, inside, rfl⟩ := List.mem_map.mp parsed
    obtain ⟨fields, mem, found⟩ := List.mem_filterMap.mp inside
    obtain ⟨uri, dist, components⟩ := parseRepoFile_neat source
    have folded := parseStanzas_folded text fields mem
    have empty : Folded [] := folded_of_oneLine neat_nil.1 neat_nil.2
    unfold readPackage at found
    dsimp only at found
    split at found
    · cases found
    · obtain rfl := Option.some.inj found
      obtain ⟨filled, noSpace⟩ := valid_noSpace named
      refine ⟨filled, ?_, ?_, folded.getField empty _, folded.getField empty _⟩
      · have status : Neat (str "install ok installed") := ⟨by decide, by decide, by decide⟩
        have pre : Neat (if termuxMode then getTermuxPrefix else []) := by
          split
          · exact neat_of_noSpace (by decide)
          · exact neat_nil
        simp only [List.forall_mem_cons, installedRecord]
        exact ⟨neat_of_noSpace noSpace, status, installRootOf_neat named _ _, uri, dist,
          components _ listed, pre, nofun⟩
      · intro name mem
        rcases List.mem_append.mp mem with mem | mem
        · exact depName_of_mem mem
        · exact depName_of_mem mem

/-! ### The fields of a record -/

def recordKeys : List ByteString :=
  ["Package", "Version", "Architecture", "Status", "Installed-Root", "Repo", "Repo-Dist",
    "Repo-Component", "Install-Prefix", "Termux-Package", "Depends", "Auto-Installed"].map str

/-- The fields of a record, in the order they are written. -/
def recordSlots (r : InstalledPackage) : List (ByteString × ByteString) :=
  [(str "Package", r.name), (str "Version", r.version), (str "Architecture", r.architecture),
    (str "Status", r.status), (str "Installed-Root", r.installRoot), (str "Repo", r.repoUri),
    (str "Repo-Dist", r.repoDist), (str "Repo-Component", r.repoComponent),
    (str "Install-Prefix", r.installPrefix),
    (str "Termux-Package", if r.termuxPackage then str "yes" else []),
    (str "Depends", (str ", ").intercalate r.depends),
    (str "Auto-Installed", if r.autoInstalled then str "yes" else [])]

theorem recordSlots_keys (r : InstalledPackage) : (recordSlots r).map Prod.fst = recordKeys := rfl

theorem recordSlots_nodup (r : InstalledPackage) : ((recordSlots r).map Prod.fst).Nodup := by
  rw [recordSlots_keys]
  decide

theorem recordKeys_plain :
    ∀ key ∈ recordKeys, key ≠ [] ∧ ∀ c ∈ key, ¬ isspace c ∧ c ≠ chr ':' := by
  decide

/-- The value of a `Depends` field. -/
theorem depends_neat {names : List ByteString} (h : ∀ name ∈ names, DepName name) :
    Neat ((str ", ").intercalate names) := by
  cases names with
  | nil => exact neat_nil
  | cons name names =>
    obtain ⟨first, others⟩ := List.forall_mem_cons.mp h
    rw [intercalate_cons]
    refine ⟨fun mem => ?_, fun c head => ?_, fun c last => ?_⟩
    · rcases List.mem_append.mp mem with mem | mem
      · exact (first.letters _ mem).1 (by decide)
      · obtain ⟨other, inside, mem⟩ := List.mem_flatMap.mp mem
        rcases List.mem_append.mp mem with mem | mem
        · exact absurd mem (by decide)
        · exact ((others other inside).letters _ mem).1 (by decide)
    · rw [List.head?_append_of_ne_nil _ first.filled] at head
      exact (first.letters c (List.mem_of_head? head)).1
    · rcases names.eq_nil_or_concat with rfl | ⟨front, other, rfl⟩
      · rw [List.flatMap_nil, List.append_nil] at last
        exact first.bare.2 c last
      · obtain ⟨filled, letters⟩ := others other (by simp)
        rw [List.concat_eq_append, List.flatMap_append, List.flatMap_singleton,
          ← List.append_assoc, ← List.append_assoc,
          List.getLast?_append_of_ne_nil _ filled] at last
        exact (letters c (List.mem_of_getLast? last)).1

theorem flag_neat (flag : Bool) : Neat (if flag then str "yes" else []) := by
  split
  · exact neat_of_noSpace (by decide)
  · exact neat_nil

/-- The text of some fields, empty ones left out. -/
theorem slotsText_slotEntries (slots : List (ByteString × ByteString)) :
    slotsText (slotEntries slots) =
      (slots.flatMap fun slot => if slot.2.isEmpty then [] else slot.1 ++ str ": " ++ slot.2 ++
        str "\n") ++ str "\n" := by
  have lines : unlines (chr '\n') ((slotEntries slots).map slotLine) =
      slots.flatMap fun slot => if slot.2.isEmpty then [] else slot.1 ++ str ": " ++ slot.2 ++
        str "\n" := by
    rw [unlines, List.flatMap_map, slotEntries, List.flatMap_assoc]
    apply List.flatMap_congr
    intro slot _
    split
    · rfl
    · exact List.flatMap_singleton _ _
  rw [← lines, slotsText, slotLines, unlines, List.flatMap_append]
  rfl

section Record

variable {r : InstalledPackage} (h : Fits r)
include h

/-- What holds of neat texts and of the version and the architecture holds of all values. -/
theorem Fits.slots {P : ByteString → Prop} (neat : ∀ text, Neat text → P text)
    (version : P r.version) (architecture : P r.architecture) :
    ∀ slot ∈ recordSlots r, P slot.2 := by
  have texts := h.texts
  simp only [List.forall_mem_cons] at texts
  obtain ⟨name, status, root, uri, dist, component, pre, -⟩ := texts
  simp only [recordSlots, List.forall_mem_cons]
  exact ⟨neat _ name, version, architecture, neat _ status, neat _ root, neat _ uri,
    neat _ dist, neat _ component, neat _ pre, neat _ (flag_neat _),
    neat _ (depends_neat h.depends), neat _ (flag_neat _), nofun⟩

/-- Without line breaks, the fields fit. -/
theorem Fits.slotFits (version : OneLine r.version) (architecture : OneLine r.architecture) :
    ∀ slot ∈ slotEntries (recordSlots r), SlotFits slot := by
  rintro ⟨key, value⟩ mem
  obtain ⟨inside, filled⟩ := mem_slotEntries.mp mem
  have values := h.slots (fun _ neat => neat) ⟨version, h.version.bare version⟩
    ⟨architecture, h.architecture.bare architecture⟩
  have listed : key ∈ recordKeys := recordSlots_keys r ▸ List.mem_map_of_mem inside
  obtain ⟨keyFilled, letters⟩ := recordKeys_plain key listed
  have noSpace : ∀ c ∈ key, ¬ isspace c := fun c mem => (letters c mem).1
  obtain ⟨keyLine, keyBare⟩ := neat_of_noSpace noSpace
  obtain ⟨valueLine, valueBare⟩ := values _ inside
  exact ⟨fun mem => (letters _ mem).2 rfl, keyLine, keyBare, keyFilled, valueLine, valueBare,
    filled⟩

theorem Fits.slotEntries_filled : slotEntries (recordSlots r) ≠ [] := by
  have first : (⟨str "Package", r.name⟩ : Slot) ∈ slotEntries (recordSlots r) :=
    mem_slotEntries.mpr ⟨List.mem_cons_self, h.filled⟩
  exact List.ne_nil_of_mem first

/-- A record is written as its fields. -/
theorem Fits.stanzaText : stanzaText r = slotsText (slotEntries (recordSlots r)) := by
  have name : r.name.isEmpty = false := by
    have := h.filled
    simpa using this
  have depends : ((str ", ").intercalate r.depends).isEmpty = r.depends.isEmpty := by
    cases names : r.depends with
    | nil => rfl
    | cons first rest =>
      have filled := (h.depends first (by rw [names]; exact List.mem_cons_self)).filled
      rw [intercalate_cons]
      simp [filled]
  rw [slotsText_slotEntries]
  unfold Status.stanzaText recordSlots fieldLine
  simp only [List.flatMap_cons, List.flatMap_nil, name, depends, Bool.false_eq_true, if_false,
    List.append_assoc, List.append_nil]
  cases r.termuxPackage <;> cases r.autoInstalled <;> rfl

/-- The fields of a record give the record. -/
theorem Fits.readRecord : readRecord (slotFields (slotEntries (recordSlots r))) = r := by
  have field : ∀ key value, (str key, value) ∈ recordSlots r →
      getField (slotFields (slotEntries (recordSlots r))) key = value := fun key value =>
    getField_slotFields (recordSlots_nodup r)
  have flag : ∀ flag : Bool, parseBool (if flag then str "yes" else []) = flag := by decide
  unfold Status.readRecord
  rw [field "Package" r.name (by simp [recordSlots]),
    field "Version" r.version (by simp [recordSlots]),
    field "Architecture" r.architecture (by simp [recordSlots]),
    field "Status" r.status (by simp [recordSlots]),
    field "Installed-Root" r.installRoot (by simp [recordSlots]),
    field "Repo" r.repoUri (by simp [recordSlots]),
    field "Repo-Dist" r.repoDist (by simp [recordSlots]),
    field "Repo-Component" r.repoComponent (by simp [recordSlots]),
    field "Install-Prefix" r.installPrefix (by simp [recordSlots]),
    field "Termux-Package" (if r.termuxPackage then str "yes" else []) (by simp [recordSlots]),
    field "Depends" ((str ", ").intercalate r.depends) (by simp [recordSlots]),
    field "Auto-Installed" (if r.autoInstalled then str "yes" else []) (by simp [recordSlots]),
    parseDependsField_intercalate h.depends, flag r.autoInstalled, flag r.termuxPackage]

end Record

/-! ### Reading back -/

section Db

variable {db : InstalledDb}

/-- The records are under their names, and their texts fit. -/
def DbFits (db : InstalledDb) : Prop := ∀ kv ∈ db.entries, kv.1 = kv.2.name ∧ Fits kv.2

theorem statusText_eq (h : DbFits db) : statusText db =
    (str "\n").intercalate
      ((db.entries.map fun kv => slotEntries (recordSlots kv.2)).map slotsText) := by
  rw [statusText, List.map_map]
  congr 1
  exact List.map_congr_left fun kv mem => (h kv mem).2.stanzaText

/-- **Records without line breaks are read back.** -/
theorem parseStatus_statusText (h : DbFits db)
    (oneLine : ∀ kv ∈ db.entries, OneLine kv.2.version ∧ OneLine kv.2.architecture) :
    (parseStatus (statusText db)).entries = db.entries.reverse := by
  have stanzas : parseStanzas (statusText db) =
      (db.entries.map fun kv => slotEntries (recordSlots kv.2)).map slotFields := by
    rw [statusText_eq h]
    apply parseStanzas_slots
    intro slots mem
    obtain ⟨kv, inside, rfl⟩ := List.mem_map.mp mem
    have fits := (h kv inside).2
    obtain ⟨version, architecture⟩ := oneLine kv inside
    exact ⟨fits.slotEntries_filled, fits.slotFits version architecture⟩
  have fold : ∀ (l : List (Sigma fun _ : ByteString => InstalledPackage)) (out : InstalledDb),
      (∀ kv ∈ l, kv.1 = kv.2.name ∧ Fits kv.2) →
      ((l.map fun kv => slotEntries (recordSlots kv.2)).map slotFields).foldl (fun out fields =>
        let pkg := readRecord fields
        if pkg.name.isEmpty then out else out.insert pkg.name pkg) out =
      l.foldl (fun m kv => m.insert kv.1 kv.2) out := by
    intro l
    induction l with
    | nil => exact fun _ _ => rfl
    | cons kv l ih =>
      intro out fits
      obtain ⟨⟨key, first⟩, others⟩ := List.forall_mem_cons.mp fits
      have filled := first.filled
      rw [List.map_cons, List.map_cons, List.foldl_cons, List.foldl_cons, ← ih _ others]
      dsimp only
      rw [first.readRecord, if_neg (by simpa using filled), key]
  rw [parseStatus, stanzas, fold _ _ h, entries_foldl_insert db.nodupKeys]
  · exact List.append_nil _
  · intro kv _ there
    exact absurd there (AList.notMem_empty _)

/-- Every record that is read comes from a stanza. -/
theorem parseStatus_mem {content : ByteString} {kv : Sigma fun _ : ByteString => InstalledPackage}
    (h : kv ∈ (parseStatus content).entries) :
    ∃ fields ∈ parseStanzas content, kv.2 = readRecord fields := by
  suffices fold : ∀ (stanzas : List Fields) (out : InstalledDb),
      (∀ kv ∈ out.entries, ∃ fields ∈ parseStanzas content, kv.2 = readRecord fields) →
      (∀ fields ∈ stanzas, fields ∈ parseStanzas content) →
      ∀ kv ∈ (stanzas.foldl (fun out fields =>
        let pkg := readRecord fields
        if pkg.name.isEmpty then out else out.insert pkg.name pkg) out).entries,
      ∃ fields ∈ parseStanzas content, kv.2 = readRecord fields from
    fold _ ∅ (fun kv mem => nomatch mem) (fun _ mem => mem) kv h
  intro stanzas
  induction stanzas with
  | nil => exact fun out fits _ => fits
  | cons fields stanzas ih =>
    intro out fits inside
    obtain ⟨first, others⟩ := List.forall_mem_cons.mp inside
    refine ih _ (fun kv mem => ?_) others
    dsimp only at mem
    split at mem
    · exact fits kv mem
    · rw [AList.entries_insert] at mem
      rcases List.mem_cons.mp mem with rfl | mem
      · exact ⟨fields, first, rfl⟩
      · exact fits kv ((List.kerase_sublist _ _).subset mem)

/-- No line of the status file is indented. -/
theorem statusText_unindented (h : DbFits db) : Unindented (statusText db) := by
  have empty : Unindented [] := (folded_of_oneLine neat_nil.1 neat_nil.2).unindented
  have newline : ∀ text, Unindented text → Unindented (str "\n" ++ text) := fun text rest =>
    unindented_line.mpr ⟨empty, rest⟩
  have field : ∀ (slots : List (ByteString × ByteString)) (text : ByteString),
      (∀ slot ∈ slots, slot.1 ∈ recordKeys ∧ Folded slot.2) → Unindented text →
      Unindented ((slots.flatMap fun slot => if slot.2.isEmpty then [] else
        slot.1 ++ str ": " ++ slot.2 ++ str "\n") ++ text) := by
    intro slots text fits rest
    induction slots with
    | nil => exact rest
    | cons slot slots ih =>
      obtain ⟨⟨listed, folded⟩, others⟩ := List.forall_mem_cons.mp fits
      rw [List.flatMap_cons, List.append_assoc]
      split
      · exact ih others
      · obtain ⟨filled, letters⟩ := recordKeys_plain _ listed
        obtain ⟨c, key, same⟩ := List.exists_cons_of_ne_nil filled
        have line : OneLine (c :: (key ++ str ": ")) := by
          rw [← List.cons_append, ← same, OneLine, List.mem_append, not_or]
          exact ⟨fun mem => (letters _ mem).1 (by decide), by decide⟩
        have first : ¬ isIndent c := fun indent =>
          (letters c (same ▸ List.mem_cons_self)).1 (isspace_of_isIndent indent)
        rw [same, List.append_assoc]
        exact unindented_line.mpr ⟨folded.unindented.append line first, ih others⟩
  have stanza : ∀ kv ∈ db.entries, ∀ text, Unindented text →
      Unindented (slotsText (slotEntries (recordSlots kv.2)) ++ text) := by
    intro kv mem text rest
    obtain ⟨-, fits⟩ := h kv mem
    rw [slotsText_slotEntries, List.append_assoc]
    apply field _ _ _ (newline _ rest)
    intro slot inside
    refine ⟨recordSlots_keys kv.2 ▸ List.mem_map_of_mem inside, ?_⟩
    exact fits.slots (fun _ neat => folded_of_oneLine neat.1 neat.2) fits.version
      fits.architecture slot inside
  rw [statusText_eq h, List.map_map]
  cases all : db.entries with
  | nil => exact empty
  | cons kv rest =>
    rw [all] at stanza
    obtain ⟨first, others⟩ := List.forall_mem_cons.mp stanza
    rw [List.map_cons, intercalate_cons]
    apply first
    clear all first stanza
    induction rest with
    | nil => exact empty
    | cons kv rest ih =>
      obtain ⟨first, others⟩ := List.forall_mem_cons.mp others
      rw [List.map_cons, List.flatMap_cons, List.append_assoc]
      exact newline _ (first _ (ih others))

/-- **Which status files lose nothing.** The records that installs build, with any flags, read
back as they were if and only if no version and no architecture has a line break. -/
theorem status_roundTrips_iff (built : ∀ kv ∈ db.entries, kv.1 = kv.2.name ∧ Built kv.2) :
    TextOf (statusText db) db ↔
      ∀ kv ∈ db.entries, OneLine kv.2.version ∧ OneLine kv.2.architecture := by
  have fits : DbFits db := fun kv mem => ⟨(built kv mem).1, (built kv mem).2.fits⟩
  constructor
  · intro same kv mem
    obtain ⟨fields, inside, record⟩ := parseStatus_mem (same.mem_iff.mpr mem)
    have oneLine := parseStanzas_oneLine (statusText_unindented fits) fields inside
    rw [record]
    exact ⟨oneLine.getField List.not_mem_nil "Version",
      oneLine.getField List.not_mem_nil "Architecture"⟩
  · intro oneLine
    rw [TextOf, parseStatus_statusText fits oneLine]
    exact List.reverse_perm _

end Db


/-! ### A version of two lines -/

def mainSource : RepoSource where
  type := str "deb"
  uri := str "https://r"
  dist := str "stable"
  components := [str "main"]

/-- The entry of `a` in an index of this source. -/
def entryOfA (version : String) : PackageEntry :=
  ((markPackages mainSource (str "main") (parsePackagesString (str "Package: a\nVersion: " ++
    str version ++ str "\nFilename: a.deb\n"))).head?).getD { packageName := [] }

/-- The status database once this entry is installed. -/
def dbOfA (version : String) : InstalledDb :=
  (∅ : InstalledDb).insert (str "a") (installedRecord ∅ false (str "a") (entryOfA version))

theorem dbOfA_built (version : String)
    (listed : entryOfA version ∈ markPackages mainSource (str "main") (parsePackagesString
      (str "Package: a\nVersion: " ++ str version ++ str "\nFilename: a.deb\n")))
    (named : (entryOfA version).packageName = str "a") :
    ∀ kv ∈ (dbOfA version).entries, kv.1 = kv.2.name ∧ Built kv.2 := by
  have entries : (dbOfA version).entries =
      [⟨str "a", installedRecord ∅ false (str "a") (entryOfA version)⟩] := by
    rw [dbOfA, AList.entries_insert, AList.empty_entries, List.kerase_nil]
  have record : ∀ pkg, (installedRecord ∅ false (str "a") pkg).name = pkg.packageName :=
    fun _ => rfl
  rw [entries, List.forall_mem_singleton]
  constructor
  · change str "a" = (installedRecord ∅ false (str "a") (entryOfA version)).name
    rw [record, named]
  · have source : parseRepoFile [] (str "type=deb\nurl=https://r\nsuites=stable,main\n") =
        .ok mainSource := by decide +kernel
    have valid : Security.validatePackageName (entryOfA version).packageName = none := by
      rw [named]
      decide
    have component : str "main" ∈ mainSource.components := List.mem_singleton_self _
    exact .installed ∅ false (str "a") source component listed valid

theorem status_roundTrips_oneLine : TextOf (statusText (dbOfA "1")) (dbOfA "1") :=
  (status_roundTrips_iff (dbOfA_built "1" (by decide +kernel) (by decide +kernel))).mpr
    (by decide +kernel)

/-- A continuation line of the version is read back as the name of the package. -/
theorem status_loses_folded :
    (∀ kv ∈ (dbOfA "1\n Package: b").entries, kv.1 = kv.2.name ∧ Built kv.2) ∧
      ¬ TextOf (statusText (dbOfA "1\n Package: b")) (dbOfA "1\n Package: b") ∧
      (parseStatus (statusText (dbOfA "1\n Package: b"))).keys = [str "b"] := by
  refine ⟨dbOfA_built _ (by decide +kernel) (by decide +kernel), ?_, ?_⟩
  · intro same
    have kept := same.lookup (str "a")
    revert kept
    decide +kernel
  · decide +kernel

end Apm.Install
