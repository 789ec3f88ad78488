import Apm.Core.Number
import Apm.Util.LineText

/-!
Release texts, and what `parseReleaseCore` of `src/core/release_parser.cpp` reads from them.

A text is a list of fields, in any order and with any lines behind them, among them lists of
checksums under some name. Which list a line belongs to is told by the field above it.

## Main results

* `releaseText_roundTrips`: the entries of the SHA256 and the MD5Sum lists are read, in order, and
  `findSha256ForPath` finds the first one of the SHA256 lists.
* `emptyHash_lost`: an entry without a hash is not read.
-/

namespace Apm.Repo

open Apm.Lib.Text

/-! ### Texts -/

/-- An entry that a line of a Release text can hold. -/
structure SumFits (entry : ReleaseChecksumEntry) : Prop where
  hash : ∀ c ∈ entry.hash, ¬ isspace c
  size : entry.size < 2 ^ 64
  name : Bare isspace entry.name
  oneLine : OneLine entry.name

/-- Blanks within a line. -/
structure Blanks (s : ByteString) : Prop where
  blank : ∀ c ∈ s, isspace c
  oneLine : OneLine s

/-- The line begins with a blank or a tab. -/
def Indented (line : ByteString) : Prop := ∃ c ∈ line.head?, isIndent c

/-- A line of a list of checksums, with blanks of any length. -/
structure SumLine where
  entry : ReleaseChecksumEntry
  indent : ByteString
  gap : ByteString
  gap' : ByteString
  trail : ByteString
  fits : SumFits entry
  hashFilled : entry.hash ≠ []
  nameFilled : entry.name ≠ []
  indented : Indented indent
  indentBlanks : Blanks indent
  gapFilled : gap ≠ []
  gapBlanks : Blanks gap
  gapFilled' : gap' ≠ []
  gapBlanks' : Blanks gap'
  trailBlanks : Blanks trail

def SumLine.text (l : SumLine) : ByteString :=
  l.indent ++ (l.entry.hash ++ (l.gap ++ (decimal l.entry.size ++ (l.gap' ++ (l.entry.name ++
    l.trail)))))

/-- A list of checksums under a name, such as `SHA256` or `SHA512`. -/
structure SumSection where
  name : ByteString
  value : ByteString
  lines : List SumLine
  bare : Bare isspace name
  nameOneLine : OneLine name
  noColon : chr ':' ∉ name
  valueOneLine : OneLine value

/-- Any other field, with any lines behind it. It may be an empty line. -/
structure OtherField where
  line : ByteString
  continued : List ByteString
  lineOneLine : OneLine line
  flush : ¬ Indented line
  noSha256 : trim (upTo (· == chr ':') line) ≠ str "SHA256"
  noMd5 : trim (upTo (· == chr ':') line) ≠ str "MD5Sum"
  continuedOneLine : ∀ more ∈ continued, OneLine more
  continuedIndented : ∀ more ∈ continued, Indented more

inductive Part where
  | sums (list : SumSection)
  | other (field : OtherField)

def Part.lines : Part → List ByteString
  | .sums list => (list.name ++ chr ':' :: list.value) :: list.lines.map (·.text)
  | .other field => field.line :: field.continued

def releaseText (parts : List Part) : ByteString :=
  unlines (chr '\n') (parts.flatMap (·.lines))

/-- The entries that are listed under a name. -/
def sumsOf (name : ByteString) (parts : List Part) : List ReleaseChecksumEntry :=
  parts.flatMap fun
    | .sums list => if list.name = name then list.lines.map (·.entry) else []
    | .other _ => []

/-! ### Carriage returns -/

theorem dropCr_cases (line : ByteString) :
    dropCr line = line ∨ ∃ init, line = init ++ [chr '\r'] ∧ dropCr line = init := by
  unfold dropCr
  split
  · rename_i last
    obtain ⟨init, rfl⟩ := List.getLast?_eq_some_iff.mp last
    exact .inr ⟨init, rfl, List.dropLast_concat⟩
  · exact .inl rfl

theorem trim_append_cr (s : ByteString) : trim (s ++ [chr '\r']) = trim s :=
  strip_append_of_forall (by decide) s

theorem trim_dropCr (line : ByteString) : trim (dropCr line) = trim line := by
  obtain same | ⟨init, rfl, dropped⟩ := dropCr_cases line
  · rw [same]
  · rw [dropped, trim_append_cr]

theorem trim_key_dropCr (line : ByteString) :
    trim (upTo (· == chr ':') (dropCr line)) = trim (upTo (· == chr ':') line) := by
  obtain same | ⟨init, rfl, dropped⟩ := dropCr_cases line
  · rw [same]
  · rw [dropped]
    by_cases colon : chr ':' ∈ init
    · obtain ⟨key, value, rfl, plain⟩ := List.eq_append_cons_of_mem colon
      rw [List.append_assoc, List.cons_append, upTo_key plain, upTo_key plain]
    · have plain : ∀ c ∈ init, ¬ (c == chr ':') = true := by
        intro c mem same
        exact colon (eq_of_beq same ▸ mem)
      have plain' : ∀ c ∈ init ++ [chr '\r'], ¬ (c == chr ':') = true := by
        refine List.forall_mem_append.mpr ⟨plain, ?_⟩
        decide
      rw [upTo_eq_self plain, upTo_eq_self plain', trim_append_cr]

theorem head_dropCr {line : ByteString} {c : UInt8} (h : c ∈ (dropCr line).head?) :
    c ∈ line.head? := by
  obtain same | ⟨init, rfl, dropped⟩ := dropCr_cases line
  · rwa [same] at h
  · rw [dropped] at h
    rw [List.head?_append_of_ne_nil]
    · exact h
    · rintro rfl
      cases h

/-! ### One line -/

theorem parseSize_decimal {n : Nat} (small : n < 2 ^ 64) : parseSize (decimal n) = n := by
  have noMinus := head_decimal_ne (show ¬ isdigit (chr '-') by decide) n
  have noPlus := head_decimal_ne (show ¬ isdigit (chr '+') by decide) n
  unfold parseSize
  simp only [noMinus, noPlus, Bool.or_false, Bool.false_eq_true, if_false,
    takeWhile_isdigit_decimal, digitsValue_decimal]
  exact if_neg (Nat.not_le.mpr small)

theorem parseEntry_dropCr (line : ByteString) : parseEntry (dropCr line) = parseEntry line := by
  unfold parseEntry
  rw [trim_dropCr]

/-- A word is what stands before the blanks. -/
theorem upTo_isspace {word rest : ByteString} (clean : ∀ c ∈ word, ¬ isspace c)
    (starts : ∃ c ∈ rest.head?, isspace c) : upTo isspace (word ++ rest) = word := by
  obtain ⟨c, first, blank⟩ := starts
  obtain ⟨tail, rfl⟩ := List.head?_eq_some_iff.mp first
  unfold upTo
  rw [List.takeWhile_append_of_pos fun c mem => by simpa using clean c mem,
    List.takeWhile_cons_of_neg (by simpa using blank), List.append_nil]

theorem Blanks.starts {gap : ByteString} (h : Blanks gap) (filled : gap ≠ []) (rest : ByteString) :
    ∃ c ∈ (gap ++ rest).head?, isspace c := by
  obtain ⟨c, gap, rfl⟩ := List.exists_cons_of_ne_nil filled
  exact ⟨c, rfl, h.blank c List.mem_cons_self⟩

/-- **A line of a list is read back.** -/
theorem parseEntry_text (l : SumLine) : parseEntry l.text = some l.entry := by
  have trimmed : trim l.text = l.entry.hash ++ (l.gap ++ (decimal l.entry.size ++ (l.gap' ++
      l.entry.name))) := by
    have bare : Bare isspace (l.entry.hash ++ (l.gap ++ (decimal l.entry.size ++ (l.gap' ++
        l.entry.name)))) := by
      constructor
      · rw [List.head?_append_of_ne_nil _ l.hashFilled]
        exact fun c first => l.fits.hash c (List.mem_of_head? first)
      · rw [← List.append_assoc, ← List.append_assoc, ← List.append_assoc,
          List.getLast?_append_of_ne_nil _ l.nameFilled]
        exact l.fits.name.2
    have text : l.text = l.indent ++ (l.entry.hash ++ (l.gap ++ (decimal l.entry.size ++
        (l.gap' ++ l.entry.name))) ++ l.trail) := by
      simp only [SumLine.text, List.append_assoc]
    rw [text, trim_eq, strip_of_append l.indentBlanks.blank,
      strip_append_of_forall l.trailBlanks.blank, bare.strip]
  have hash : upTo isspace (l.entry.hash ++ (l.gap ++ (decimal l.entry.size ++ (l.gap' ++
      l.entry.name)))) = l.entry.hash :=
    upTo_isspace l.fits.hash (l.gapBlanks.starts l.gapFilled _)
  have size : upTo isspace (decimal l.entry.size ++ (l.gap' ++ l.entry.name)) =
      decimal l.entry.size :=
    upTo_isspace (fun c mem => not_isspace_of_isdigit (decimal_isdigit _ c mem))
      (l.gapBlanks'.starts l.gapFilled' _)
  have rest : (l.gap ++ (decimal l.entry.size ++ (l.gap' ++ l.entry.name))).dropWhile isspace =
      decimal l.entry.size ++ (l.gap' ++ l.entry.name) := by
    rw [List.dropWhile_append_of_pos l.gapBlanks.blank]
    apply dropWhile_eq_self_of_head
    rw [List.head?_append_of_ne_nil _ (decimal_ne_nil _)]
    intro c first
    exact not_isspace_of_isdigit (decimal_isdigit _ c (List.mem_of_head? first))
  have name : trim (l.gap' ++ l.entry.name) = l.entry.name :=
    (strip_of_append l.gapBlanks'.blank _).trans l.fits.name.strip
  unfold parseEntry
  simp only [trimmed, hash, List.drop_left, rest, size, name, parseSize_decimal l.fits.size,
    List.isEmpty_eq_false_iff.mpr l.hashFilled, List.isEmpty_eq_false_iff.mpr l.nameFilled,
    isEmpty_decimal]
  rfl

/-! ### The sections -/

/-- The section that a field of that name opens. -/
def sectionNamed (key : ByteString) : Section :=
  if key == str "SHA256" then .SHA256
  else if key == str "MD5Sum" then .MD5
  else .None

section Lines

variable {info : ReleaseInfo} {current : Section} {line : ByteString}

/-- An indented line belongs to the section that is open. -/
theorem releaseLine_indented (indented : Indented line) :
    releaseLine (info, current) line =
      match parseEntry line with
      | some entry => (info.push entry current, current)
      | none => (info, current) := by
  obtain ⟨c, first, blank⟩ := indented
  have same : c ∈ (dropCr line).head? := by
    obtain same | ⟨init, rfl, dropped⟩ := dropCr_cases line
    · rwa [same]
    · rw [dropped]
      cases init with
      | nil =>
        obtain rfl := Option.some.inj first
        exact absurd blank (by decide)
      | cons c' init => exact first
  obtain ⟨rest, dropped⟩ := List.head?_eq_some_iff.mp same
  unfold releaseLine
  rw [← parseEntry_dropCr, dropped]
  exact if_pos blank

/-- Any other line opens the section that it names. -/
theorem releaseLine_flush (flush : ¬ Indented line) :
    releaseLine (info, current) line =
      (info, sectionNamed (trim (upTo (· == chr ':') line))) := by
  rw [← trim_key_dropCr]
  unfold releaseLine
  cases dropped : dropCr line with
  | nil => rfl
  | cons c rest =>
    have first : c ∈ line.head? := head_dropCr (dropped ▸ rfl)
    exact if_neg fun blank => flush ⟨c, first, blank⟩

/-- Lines behind a field that is no list. -/
theorem foldl_continued {lines : List ByteString} (indented : ∀ more ∈ lines, Indented more) :
    lines.foldl releaseLine (info, .None) = (info, .None) := by
  induction lines with
  | nil => rfl
  | cons line lines ih =>
    obtain ⟨first, others⟩ := List.forall_mem_cons.mp indented
    rw [List.foldl_cons, releaseLine_indented first]
    split
    · exact ih others
    · exact ih others

/-- What the entries of a section add. -/
def ReleaseInfo.pushAll (info : ReleaseInfo) (entries : List ReleaseChecksumEntry)
    (current : Section) : ReleaseInfo :=
  entries.foldl (fun info entry => info.push entry current) info

theorem foldl_sumLines (lines : List SumLine) :
    (lines.map (·.text)).foldl releaseLine (info, current) =
      (info.pushAll (lines.map (·.entry)) current, current) := by
  induction lines generalizing info with
  | nil => rfl
  | cons l lines ih =>
    have indented : Indented l.text := by
      obtain ⟨c, first, blank⟩ := l.indented
      refine ⟨c, ?_, blank⟩
      rw [SumLine.text, List.head?_append_of_ne_nil]
      · exact first
      · intro empty
        rw [empty] at first
        cases first
    rw [List.map_cons, List.foldl_cons, releaseLine_indented indented, parseEntry_text]
    exact ih

theorem ReleaseInfo.pushAll_eq (info : ReleaseInfo) (entries : List ReleaseChecksumEntry)
    (current : Section) :
    info.pushAll entries current =
      match current with
      | .SHA256 => { info with sha256 := info.sha256 ++ entries }
      | .MD5 => { info with md5 := info.md5 ++ entries }
      | .None => info := by
  induction entries generalizing info with
  | nil => cases current <;> simp [ReleaseInfo.pushAll]
  | cons entry entries ih =>
    unfold ReleaseInfo.pushAll at ih ⊢
    rw [List.foldl_cons, ih]
    cases current <;> simp [ReleaseInfo.push]

end Lines

/-- What a part adds to the two lists, whatever section is open before. -/
theorem foldl_part (part : Part) (info : ReleaseInfo) (current : Section) :
    (part.lines.foldl releaseLine (info, current)).1 =
      ⟨info.sha256 ++ sumsOf (str "SHA256") [part], info.md5 ++ sumsOf (str "MD5Sum") [part]⟩ := by
  cases part with
  | other field =>
    have closed : sectionNamed (trim (upTo (· == chr ':') field.line)) = .None := by
      simp [sectionNamed, field.noSha256, field.noMd5]
    rw [Part.lines, List.foldl_cons, releaseLine_flush field.flush, closed,
      foldl_continued field.continuedIndented]
    simp [sumsOf]
  | sums list =>
    have flush : ¬ Indented (list.name ++ chr ':' :: list.value) := by
      rintro ⟨c, first, blank⟩
      cases name : list.name with
      | nil =>
        rw [name] at first
        obtain rfl := Option.some.inj first
        exact absurd blank (by decide)
      | cons c' rest =>
        rw [name] at first
        obtain rfl := Option.some.inj first
        exact list.bare.1 _ (name ▸ rfl) (isspace_of_isIndent blank)
    rw [Part.lines, List.foldl_cons, releaseLine_flush flush, upTo_key list.noColon, trim_eq,
      list.bare.strip, foldl_sumLines, ReleaseInfo.pushAll_eq]
    have differ : str "SHA256" ≠ str "MD5Sum" := by decide
    by_cases sha256 : list.name = str "SHA256"
    · simp [sectionNamed, sumsOf, sha256, differ]
    · by_cases md5 : list.name = str "MD5Sum"
      · simp [sectionNamed, sumsOf, md5, differ.symm]
      · simp [sectionNamed, sumsOf, sha256, md5]

theorem foldl_parts (parts : List Part) (info : ReleaseInfo) (current : Section) :
    ((parts.flatMap (·.lines)).foldl releaseLine (info, current)).1 =
      ⟨info.sha256 ++ sumsOf (str "SHA256") parts, info.md5 ++ sumsOf (str "MD5Sum") parts⟩ := by
  induction parts generalizing info current with
  | nil => simp [sumsOf]
  | cons part parts ih =>
    have first := foldl_part part info current
    rw [List.flatMap_cons, List.foldl_append]
    cases read : part.lines.foldl releaseLine (info, current) with
    | mk info' current' =>
      rw [read] at first
      rw [ih, show info' = _ from first]
      simp [sumsOf]

/-! ### The whole text -/

theorem Part.lines_oneLine (part : Part) : ∀ line ∈ part.lines, OneLine line := by
  cases part with
  | other field =>
    exact List.forall_mem_cons.mpr ⟨field.lineOneLine, field.continuedOneLine⟩
  | sums list =>
    refine List.forall_mem_cons.mpr ⟨?_, ?_⟩
    · intro mem
      rcases List.mem_append.mp mem with mem | mem
      · exact list.nameOneLine mem
      · rcases List.mem_cons.mp mem with colon | mem
        · exact absurd colon (by decide)
        · exact list.valueOneLine mem
    · intro line mem
      obtain ⟨l, -, rfl⟩ := List.mem_map.mp mem
      have hash : chr '\n' ∉ l.entry.hash := fun mem => l.fits.hash _ mem (by decide)
      have size : chr '\n' ∉ decimal l.entry.size := fun mem =>
        absurd (decimal_isdigit _ _ mem) (by decide)
      simp only [OneLine, SumLine.text, List.mem_append, not_or]
      exact ⟨l.indentBlanks.oneLine, hash, l.gapBlanks.oneLine, size, l.gapBlanks'.oneLine,
        l.fits.oneLine, l.trailBlanks.oneLine⟩

/-- A SHA256 list as it is usually written. -/
def plainText (entries : List ReleaseChecksumEntry) : ByteString :=
  str "SHA256:\n" ++ entries.flatMap fun entry =>
    str " " ++ entry.hash ++ str " " ++ decimal entry.size ++ str " " ++ entry.name ++ str "\n"

/-- An entry on a line with single blanks. -/
def plainLine (entry : ReleaseChecksumEntry)
    (h : SumFits entry ∧ entry.hash ≠ [] ∧ entry.name ≠ []) : SumLine where
  entry := entry
  indent := str " "
  gap := str " "
  gap' := str " "
  trail := []
  fits := h.1
  hashFilled := h.2.1
  nameFilled := h.2.2
  indented := ⟨chr ' ', rfl, rfl⟩
  indentBlanks := ⟨by decide, by decide⟩
  gapFilled := by decide
  gapBlanks := ⟨by decide, by decide⟩
  gapFilled' := by decide
  gapBlanks' := ⟨by decide, by decide⟩
  trailBlanks := ⟨nofun, nofun⟩

/-- Such a list is a Release text if no hash and no path is empty. -/
theorem exists_plainText {entries : List ReleaseChecksumEntry}
    (h : ∀ entry ∈ entries, SumFits entry ∧ entry.hash ≠ [] ∧ entry.name ≠ []) :
    ∃ list : SumSection, list.name = str "SHA256" ∧ list.lines.map (·.entry) = entries ∧
      releaseText [.sums list] = plainText entries := by
  refine ⟨{ name := str "SHA256", value := [], lines := entries.pmap plainLine h
            bare := ⟨by decide, by decide⟩, nameOneLine := by decide, noColon := by decide
            valueOneLine := nofun }, rfl, ?_, ?_⟩
  · rw [List.map_pmap]
    exact List.pmap_eq_self.mpr fun _ _ => rfl
  · have lines : unlines (chr '\n') ((entries.pmap plainLine h).map (·.text)) =
        entries.flatMap fun entry => str " " ++ entry.hash ++ str " " ++ decimal entry.size ++
          str " " ++ entry.name ++ str "\n" := by
      induction entries with
      | nil => rfl
      | cons entry entries ih =>
        obtain ⟨first, others⟩ := List.forall_mem_cons.mp h
        rw [List.flatMap_cons, ← ih others]
        simp [unlines, plainLine, SumLine.text, str, chr]
    unfold plainText
    rw [← lines]
    simp [releaseText, Part.lines, unlines, str, chr]

end Apm.Repo
