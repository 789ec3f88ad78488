import Apm.Core.RepoUpdate
import Apm.Crypto.Armor

/-!
Clear-signed texts: `parseInReleaseFile` of `src/core/repo_index.cpp`, and
`extractClearsignedBodies` of `src/util/crypto/gpg_verify.cpp`.

## Main results

* `signed_text_never_canonical`: neither gives the canonical text of a clear-signed message. Both
  put a line end behind the last line, and `parseInReleaseFile` keeps blanks at the ends of lines.
-/

namespace Apm.Crypto

open Apm.Lib.Text
open Apm.Repo (InReleaseState InReleaseParts inReleaseLine mem_splitOn_of_mem_getlines
  normalizeToCrLf parseInRelease)

/-! ### The text for hashing -/

def beginSigned : ByteString := str "-----BEGIN PGP SIGNED MESSAGE-----"
def beginSig : ByteString := str "-----BEGIN PGP SIGNATURE-----"

def isBlank (c : UInt8) : Bool := c == chr ' ' || c == chr '\t'

/-- A line without its dash escape. -/
def unescape (line : ByteString) : ByteString :=
  if (str "- ").isPrefixOf line then line.drop 2 else line

/-- Where the loop over the lines is: the texts that it builds, once the headers are over. -/
structure BodyState where
  inHeaders : Bool := true
  decodedLf : ByteString := []
  canonicalCrlf : ByteString := []

/-- One line of the loop. -/
def bodyLine (x : BodyState) (line : ByteString) : BodyState :=
  let line := dropCr line
  if x.inHeaders then { x with inHeaders := !line.isEmpty }
  else
    let dataLine := (unescape line).rdropWhile isBlank
    { x with
      decodedLf := x.decodedLf ++ dataLine ++ str "\n"
      canonicalCrlf := x.canonicalCrlf ++ dataLine ++ str "\r\n" }

/-- What stands between the first line's marker and the signature. Where the two markers overlap
the length wraps around, and everything behind the first one is taken. -/
def headerAndBody (text before : ByteString) : ByteString :=
  (if before.length < beginSigned.length then text else before).drop beginSigned.length

/-- `extractClearsignedBodies`: the text with LF line ends, and the one for hashing. -/
def extractClearsignedBodies (input : ByteString) :
    Except ByteString (ByteString × ByteString) :=
  match breakOn beginSigned input with
  | none => .error (str "Not a clearsigned message (BEGIN header missing)")
  | some (_, text) =>
      match breakOn beginSig text with
      | none => .error (str "Clearsigned message missing signature block")
      | some (before, _) =>
          let x := (getlines (chr '\n') (headerAndBody text before)).foldl bodyLine {}
          if x.decodedLf.isEmpty then .error (str "Clearsigned body is empty")
          else .ok (x.decodedLf, x.canonicalCrlf)

/-! ### Clear-signed messages -/

/-- A line of the signed text as it is written: one that starts with a dash is escaped. -/
structure SignedLine where
  text : ByteString
  escaped : Bool
  plain : PlainLine text
  dash_escaped : text.head? = some (chr '-') → escaped = true

def SignedLine.written (line : SignedLine) : ByteString :=
  if line.escaped then str "- " ++ line.text else line.text

/-- The line as it is hashed. -/
def SignedLine.canonical (line : SignedLine) : ByteString := line.text.rdropWhile isBlank

/-- A clear-signed message with a signature of some bytes. -/
structure Clearsigned (content : ByteString) where
  /-- The values of the `Hash` headers. -/
  hashes : List ByteString
  body : List SignedLine
  crlf : Nat → Bool
  signature : Armor content
  hashes_plain : ∀ hash ∈ hashes, PlainLine hash ∧ chr '-' ∉ hash
  /-- The end of its last line is not part of a text. -/
  body_nonempty : body ≠ []
  signature_title : signature.title = str "PGP SIGNATURE"

namespace Clearsigned

variable {content : ByteString} (m : Clearsigned content)

/-- The lines between the first one and the signature. -/
def restLines : List ByteString :=
  m.hashes.map (str "Hash: " ++ ·) ++ [] :: m.body.map (·.written)

/-- The lines before the signature. -/
def frontLines : List ByteString := beginSigned :: m.restLines

def text : ByteString := lineText m.crlf m.frontLines ++ m.signature.text

/-- The text that is signed: the lines without blanks at their ends, with CRLF between them. -/
def canonical : ByteString := (str "\r\n").intercalate (m.body.map (·.canonical))

end Clearsigned

/-! ### Lines of a message -/

theorem SignedLine.written_plain (line : SignedLine) : PlainLine line.written := by
  unfold written
  split
  · exact PlainLine.append (by decide) line.plain
  · exact line.plain

theorem SignedLine.unescape_written (line : SignedLine) : unescape line.written = line.text := by
  unfold written unescape
  split
  · have escape : (str "- ").isPrefixOf (str "- " ++ line.text) = true :=
      List.isPrefixOf_iff_prefix.mpr (List.prefix_append _ _)
    rw [if_pos escape]
    rfl
  · rename_i plain
    apply if_neg
    intro escape
    apply plain
    apply line.dash_escaped
    obtain ⟨rest, text⟩ := List.isPrefixOf_iff_prefix.mp escape
    rw [← text]
    rfl

/-- No line of the text is taken for the start of the signature. -/
theorem SignedLine.written_ne (line : SignedLine) : line.written ≠ beginSig := by
  unfold written
  intro same
  split at same
  · have second := congrArg (·[1]?) same
    exact absurd second (by simp [str, beginSig])
  · rename_i plain
    apply plain
    apply line.dash_escaped
    rw [same]
    rfl

namespace Clearsigned

variable {content : ByteString} (m : Clearsigned content)

theorem frontLines_plain : ∀ line ∈ m.frontLines, PlainLine line := by
  intro line mem
  simp only [frontLines, restLines, List.mem_cons, List.mem_append, List.mem_map] at mem
  rcases mem with rfl | ⟨hash, isHash, rfl⟩ | rfl | ⟨body, -, rfl⟩
  · decide
  · exact PlainLine.append (by decide) (m.hashes_plain hash isHash).1
  · decide
  · exact body.written_plain

theorem getlines_text :
    (getlines (chr '\n') m.text).map dropCr =
      m.frontLines ++ (m.signature.frontLines ++ [m.signature.tailLine]) := by
  rw [text, getlines_lineText m.crlf m.frontLines_plain, m.signature.getlines_text]

theorem signature_plain :
    ∀ line ∈ m.signature.frontLines ++ [m.signature.tailLine], PlainLine line := by
  intro line mem
  rcases List.mem_append.mp mem with mem | mem
  · exact m.signature.frontLines_plain line mem
  · exact List.mem_singleton.mp mem ▸ m.signature.tailLine_plain

end Clearsigned

/-! ### What `parseInReleaseFile` stores -/

/-- A line is read without its carriage return. -/
theorem inReleaseLine_dropCr (x : InReleaseState) {line : ByteString}
    (h : PlainLine (dropCr line)) : inReleaseLine x line = inReleaseLine x (dropCr line) := by
  have same := dropCr_plain h
  unfold inReleaseLine
  rw [same]

theorem foldl_inReleaseLine {lines : List ByteString}
    (h : ∀ line ∈ lines.map dropCr, PlainLine line) (x : InReleaseState) :
    lines.foldl inReleaseLine x = (lines.map dropCr).foldl inReleaseLine x := by
  induction lines generalizing x with
  | nil => rfl
  | cons line lines ih =>
    obtain ⟨first, others⟩ := List.forall_mem_cons.mp h
    rw [List.map_cons, List.foldl_cons, List.foldl_cons, inReleaseLine_dropCr x first, ih others]

theorem foldl_hashes {hashes : List ByteString} (x : InReleaseState) (begun : x.sawBegin = true)
    (headers : x.inHeaders = true) (noSig : x.inSig = false)
    (plain : ∀ hash ∈ hashes, PlainLine hash) :
    (hashes.map (str "Hash: " ++ ·)).foldl inReleaseLine x = x := by
  induction hashes with
  | nil => rfl
  | cons hash hashes ih =>
    obtain ⟨first, others⟩ := List.forall_mem_cons.mp plain
    have line : dropCr (str "Hash: " ++ hash) = str "Hash: " ++ hash :=
      dropCr_plain (PlainLine.append (by decide) first)
    have noSigLine : (str "Hash: " ++ hash == str "-----BEGIN PGP SIGNATURE-----") = false := rfl
    have filled : (str "Hash: " ++ hash).isEmpty = false := rfl
    have stays : inReleaseLine x (str "Hash: " ++ hash) = x := by
      simp only [inReleaseLine, line, begun, headers, noSig, noSigLine, filled, Bool.not_true,
        Bool.false_eq_true, if_false, if_true]
    rw [List.map_cons, List.foldl_cons, stays, ih others]

theorem foldl_body (body : List SignedLine) (x : InReleaseState) (begun : x.sawBegin = true)
    (headers : x.inHeaders = false) (noSig : x.inSig = false) :
    (body.map (·.written)).foldl inReleaseLine x =
      { x with releaseBuf := x.releaseBuf ++ unlines (chr '\n') (body.map (·.text)) } := by
  induction body generalizing x with
  | nil => simp [unlines]
  | cons line body ih =>
    have stored : inReleaseLine x line.written =
        { x with releaseBuf := x.releaseBuf ++ line.text ++ str "\n" } := by
      have text := line.unescape_written
      unfold unescape at text
      have noSigLine : (line.written == str "-----BEGIN PGP SIGNATURE-----") = false :=
        beq_false_of_ne line.written_ne
      simp only [inReleaseLine, dropCr_plain line.written_plain, begun, headers, noSig, noSigLine,
        Bool.not_true, Bool.false_eq_true, if_false, text]
    have later :=
      ih { x with releaseBuf := x.releaseBuf ++ line.text ++ str "\n" } begun headers noSig
    rw [List.map_cons, List.foldl_cons, stored, later]
    simp [unlines, str, chr]

theorem foldl_signature {lines : List ByteString} (plain : ∀ line ∈ lines, PlainLine line)
    (x : InReleaseState) (begun : x.sawBegin = true) (sig : x.inSig = true) :
    lines.foldl inReleaseLine x = { x with sigBuf := x.sigBuf ++ unlines (chr '\n') lines } := by
  induction lines generalizing x with
  | nil => simp [unlines]
  | cons line lines ih =>
    obtain ⟨first, others⟩ := List.forall_mem_cons.mp plain
    have stored : inReleaseLine x line = { x with sigBuf := x.sigBuf ++ line ++ str "\n" } := by
      simp [inReleaseLine, dropCr_plain first, begun, sig]
    have later := ih others { x with sigBuf := x.sigBuf ++ line ++ str "\n" } begun sig
    rw [List.foldl_cons, stored, later]
    simp [unlines, str, chr]

/-- The lines with CRLF behind each of them. -/
def crlfLines (lines : List ByteString) : ByteString := lines.flatMap (· ++ str "\r\n")

theorem normalizeToCrLf_unlines {lines : List ByteString} (plain : ∀ line ∈ lines, PlainLine line) :
    normalizeToCrLf (unlines (chr '\n') lines) = crlfLines lines := by
  induction lines with
  | nil => rfl
  | cons line lines ih =>
    obtain ⟨first, others⟩ := List.forall_mem_cons.mp plain
    have text : unlines (chr '\n') (line :: lines) =
        line ++ ([chr '\n'] ++ unlines (chr '\n') lines) := by simp [unlines]
    have kept : normalizeToCrLf line = line := by
      have unchanged : ∀ c ∈ line, (if c == chr '\r' then [] else if c == chr '\n' then str "\r\n"
          else [c]) = [c] := by
        intro c mem
        have noCr : c ≠ chr '\r' := fun h => first.noCr (h ▸ mem)
        have noLf : c ≠ chr '\n' := fun h => first.noLf (h ▸ mem)
        simp [noCr, noLf]
      rw [normalizeToCrLf, List.flatMap_congr unchanged, List.flatMap_singleton']
    have ends : normalizeToCrLf [chr '\n'] = str "\r\n" := rfl
    have append (s t : ByteString) :
        normalizeToCrLf (s ++ t) = normalizeToCrLf s ++ normalizeToCrLf t :=
      List.flatMap_append
    rw [text, append, append, kept, ends, ih others]
    simp [crlfLines]

/-- **What is stored**: the lines without dash escapes, with a line end behind each of them. -/
theorem parseInRelease_text {content : ByteString} (m : Clearsigned content) :
    ∃ parts, parseInRelease m.text = some parts ∧
      parts.releaseText = crlfLines (m.body.map (·.text)) := by
  let begun : InReleaseState := { sawBegin := true, inHeaders := true }
  let headersOver : InReleaseState := { sawBegin := true }
  let read : InReleaseState :=
    { sawBegin := true, releaseBuf := unlines (chr '\n') (m.body.map (·.text)) }
  let signatureBegun : InReleaseState := { read with inSig := true, sigBuf := beginSig ++ str "\n" }
  have front : m.frontLines.foldl inReleaseLine {} = read := by
    have starts : inReleaseLine {} beginSigned = begun := rfl
    have headers := foldl_hashes begun rfl rfl rfl fun hash mem => (m.hashes_plain hash mem).1
    have ends : inReleaseLine begun [] = headersOver := rfl
    have body := foldl_body m.body headersOver rfl rfl rfl
    rw [Clearsigned.frontLines, Clearsigned.restLines, List.foldl_cons, starts, List.foldl_append,
      headers, List.foldl_cons, ends, body]
    rfl
  have beginLine : m.signature.beginLine = beginSig := by
    rw [Armor.beginLine, m.signature_title]
    rfl
  have tailLine : m.signature.tailLine = str "-----END PGP SIGNATURE-----" := by
    rw [Armor.tailLine, m.signature_title]
    rfl
  have sigStarts : inReleaseLine read beginSig = signatureBegun := rfl
  obtain ⟨others, sigLines, others_plain, last⟩ : ∃ others,
      m.signature.frontLines ++ [m.signature.tailLine] = beginSig :: others ∧
        (∀ line ∈ others, PlainLine line) ∧ m.signature.tailLine ∈ others := by
    have all := m.signature_plain
    rw [Armor.frontLines, List.cons_append, List.cons_append, beginLine] at all ⊢
    exact ⟨_, rfl, (List.forall_mem_cons.mp all).2, by simp⟩
  have signature := foldl_signature others_plain signatureBegun rfl rfl
  have plain : ∀ line ∈ (getlines (chr '\n') m.text).map dropCr, PlainLine line := by
    intro line mem
    rw [m.getlines_text] at mem
    rcases List.mem_append.mp mem with mem | mem
    · exact m.frontLines_plain line mem
    · exact m.signature_plain line mem
  have run : (getlines (chr '\n') m.text).foldl inReleaseLine {} =
      { signatureBegun with
        sigBuf := signatureBegun.sigBuf ++ unlines (chr '\n') others } := by
    rw [foldl_inReleaseLine plain, m.getlines_text, List.foldl_append, front, sigLines,
      List.foldl_cons, sigStarts, signature]
  have trailer : contains (signatureBegun.sigBuf ++ unlines (chr '\n') others)
      (str "-----END PGP SIGNATURE-----") = true := by
    obtain ⟨before, after, rfl⟩ := List.append_of_mem last
    apply contains_of_infix
    rw [← tailLine]
    refine ⟨signatureBegun.sigBuf ++ unlines (chr '\n') before,
      chr '\n' :: unlines (chr '\n') after, ?_⟩
    simp [unlines]
  refine ⟨⟨normalizeToCrLf read.releaseBuf,
    signatureBegun.sigBuf ++ unlines (chr '\n') others⟩, ?_, ?_⟩
  · rw [parseInRelease, run]
    dsimp only
    rw [trailer]
    rfl
  · exact normalizeToCrLf_unlines (by simpa using fun line _ => line.plain)

/-! ### The canonical text -/

theorem crlfLines_eq {lines : List ByteString} (nonempty : lines ≠ []) :
    crlfLines lines = (str "\r\n").intercalate lines ++ str "\r\n" := by
  induction lines with
  | nil => exact (nonempty rfl).elim
  | cons line lines ih =>
    cases lines with
    | nil => simp [crlfLines, List.intercalate]
    | cons line' lines =>
      have text : crlfLines (line :: line' :: lines) =
          line ++ str "\r\n" ++ crlfLines (line' :: lines) := by simp [crlfLines]
      rw [text, ih (List.cons_ne_nil _ _)]
      simp [List.intercalate, List.intersperse]

/-- Shorter lines make a shorter text. -/
theorem length_crlfLines_map {α : Type} {f g : α → ByteString} {lines : List α}
    (h : ∀ line ∈ lines, (f line).length ≤ (g line).length) :
    (crlfLines (lines.map f)).length ≤ (crlfLines (lines.map g)).length := by
  induction lines with
  | nil => exact Nat.le_refl _
  | cons line lines ih =>
    obtain ⟨first, others⟩ := List.forall_mem_cons.mp h
    have := ih others
    simp only [crlfLines, List.map_cons, List.flatMap_cons, List.length_append] at this ⊢
    omega

/-- The canonical text lacks the last line end. -/
theorem Clearsigned.canonical_crlf {content : ByteString} (m : Clearsigned content) :
    crlfLines (m.body.map (·.canonical)) = m.canonical ++ str "\r\n" :=
  crlfLines_eq (by simpa using m.body_nonempty)

theorem length_canonical_lt {content : ByteString} (m : Clearsigned content) :
    m.canonical.length < (crlfLines (m.body.map (·.canonical))).length := by
  rw [m.canonical_crlf, List.length_append]
  exact Nat.lt_add_of_pos_right (by decide)

/-! ### What is extracted for hashing -/

/-- A line of the body as it is hashed. -/
def dataLine (line : ByteString) : ByteString := (unescape line).rdropWhile isBlank

/-- The lines behind the first empty one. -/
def linesBehind (lines : List ByteString) : List ByteString :=
  (lines.dropWhile (!·.isEmpty)).tail

theorem foldl_bodyLine_behind (lines : List ByteString) (x : BodyState)
    (behind : x.inHeaders = false) :
    (lines.foldl bodyLine x).canonicalCrlf =
      x.canonicalCrlf ++ crlfLines (lines.map fun line => dataLine (dropCr line)) := by
  induction lines generalizing x with
  | nil => simp [crlfLines]
  | cons line lines ih =>
    have next : bodyLine x line = { x with
        decodedLf := x.decodedLf ++ dataLine (dropCr line) ++ str "\n"
        canonicalCrlf := x.canonicalCrlf ++ dataLine (dropCr line) ++ str "\r\n" } := by
      unfold bodyLine dataLine
      rw [behind]
      rfl
    rw [List.foldl_cons, ih (bodyLine x line) (by rw [next]; exact behind), next]
    simp [crlfLines]

/-- The text for hashing has a line end behind each line, also the last one. -/
theorem foldl_bodyLine (lines : List ByteString) :
    (lines.foldl bodyLine {}).canonicalCrlf =
      crlfLines ((linesBehind (lines.map dropCr)).map dataLine) := by
  induction lines with
  | nil => rfl
  | cons line lines ih =>
    cases empty : (dropCr line).isEmpty with
    | true =>
      have next : bodyLine {} line = { inHeaders := false } := by
        simp [bodyLine, empty]
      rw [List.foldl_cons, next, foldl_bodyLine_behind lines _ rfl, List.map_cons, linesBehind,
        List.dropWhile_cons_of_neg (by simp [empty]), List.tail_cons, List.map_map]
      rfl
    | false =>
      have next : bodyLine {} line = {} := by
        simp [bodyLine, empty]
      rw [List.foldl_cons, next, ih, List.map_cons, linesBehind, linesBehind,
        List.dropWhile_cons_of_pos (by simp [empty])]

theorem dataLine_written (line : SignedLine) : dataLine line.written = line.canonical := by
  rw [dataLine, line.unescape_written, SignedLine.canonical]

/-- What the extraction gives if it succeeds. -/
theorem of_extractClearsignedBodies {input decoded canonical : ByteString}
    (h : extractClearsignedBodies input = .ok (decoded, canonical)) :
    ∃ start text before after, breakOn beginSigned input = some (start, text) ∧
      breakOn beginSig text = some (before, after) ∧
      canonical = crlfLines ((linesBehind
        ((getlines (chr '\n') (headerAndBody text before)).map dropCr)).map dataLine) := by
  unfold extractClearsignedBodies at h
  split at h
  · cases h
  · rename_i start text begun
    split at h
    · cases h
    · rename_i before after signed
      dsimp only at h
      split at h
      · cases h
      · cases h
        exact ⟨start, text, before, after, begun, signed, foldl_bodyLine _⟩

/-! ### Where the marker of the signature is found -/

theorem beginSig_clean {d : UInt8} (h : d = chr '\n' ∨ d = chr '\r') : d ∉ beginSig := by
  rcases h with rfl | rfl <;> decide

/-- A marker in lines with CRLF is in one of the lines. -/
theorem exists_of_infix_crlfLines {lines : List ByteString} (h : beginSig <:+: crlfLines lines) :
    ∃ line ∈ lines, beginSig <:+: line := by
  have text : crlfLines lines = unlines (chr '\n') (lines.map (· ++ [chr '\r'])) := by
    simp [crlfLines, unlines, List.flatMap_map, str, chr]
  rw [text] at h
  obtain ⟨piece, mem, inside⟩ := exists_of_infix_unlines (beginSig_clean (.inl rfl)) (by decide) h
  obtain ⟨line, isLine, rfl⟩ := List.mem_map.mp mem
  rcases infix_of_infix_cons (beginSig_clean (.inr rfl)) inside with inLine | nothing
  · exact ⟨line, isLine, inLine⟩
  · exact absurd (List.infix_nil.mp nothing) (by decide)

theorem exists_of_infix_lineText {crlf : Nat → Bool} {lines : List ByteString}
    (h : beginSig <:+: lineText crlf lines) : ∃ line ∈ lines, beginSig <:+: line := by
  obtain ⟨piece, mem, inside⟩ := exists_of_infix_unlines (beginSig_clean (.inl rfl)) (by decide) h
  obtain ⟨line, isLine, rfl | rfl⟩ := mem_withCrs mem
  · exact ⟨_, isLine, inside⟩
  · rcases infix_of_infix_cons (beginSig_clean (.inr rfl)) inside with inLine | nothing
    · exact ⟨line, isLine, inLine⟩
    · exact absurd (List.infix_nil.mp nothing) (by decide)

/-- A marker in a line is in its text. -/
theorem SignedLine.infix_text {line : SignedLine} (h : beginSig <:+: line.written) :
    beginSig <:+: line.text := by
  unfold written at h
  split at h
  · have escape : str "- " ++ line.text = chr '-' :: chr ' ' :: line.text := rfl
    rw [escape] at h
    rcases List.infix_cons_iff.mp h with ⟨rest, first⟩ | h
    · have second := congrArg (·[1]?) first
      simp [beginSig, str, chr] at second
    · rcases List.infix_cons_iff.mp h with ⟨rest, first⟩ | h
      · have head := congrArg (·[0]?) first
        simp [beginSig, str, chr] at head
      · exact h
  · exact h

/-- Removing blanks leaves a marker. -/
theorem infix_rdropWhile {s : ByteString} (h : beginSig <:+: s) :
    beginSig <:+: s.rdropWhile isBlank := by
  obtain ⟨before, after, rfl⟩ := h
  induction after using List.reverseRecOn with
  | nil =>
    rw [List.append_nil, rdropWhile_eq_self_of_last]
    · exact (List.suffix_append _ _).isInfix
    · intro c last
      rw [List.getLast?_append_of_ne_nil _ (by decide)] at last
      cases last
      decide
  | append_singleton after c ih =>
    rw [← List.append_assoc]
    by_cases blank : isBlank c = true
    · rw [List.rdropWhile_concat_pos isBlank _ c blank]
      exact ih
    · rw [List.rdropWhile_concat_neg isBlank _ c blank]
      exact ⟨before, after ++ [c], by simp⟩

namespace Clearsigned

variable {content : ByteString} (m : Clearsigned content)

theorem beginSig_starts : beginSig <+: m.signature.text := by
  have first : m.signature.beginLine = beginSig := by
    rw [Armor.beginLine, m.signature_title]
    rfl
  unfold Armor.text Armor.frontLines
  rw [first]
  split
  · rw [List.cons_append, List.cons_append, lineText_cons]
    exact List.prefix_append _ _
  · rw [List.cons_append, lineText_cons, List.append_assoc]
    exact List.prefix_append _ _

/-- A marker before the signature is in a line of the signed text. -/
theorem exists_of_infix_front (h : beginSig <:+: lineText m.crlf m.frontLines) :
    ∃ line ∈ m.body, beginSig <:+: line.text := by
  obtain ⟨line, mem, inside⟩ := exists_of_infix_lineText h
  have noDash {s : ByteString} (clean : chr '-' ∉ s) : ¬ beginSig <:+: s :=
    fun h => clean (h.subset (by decide))
  simp only [frontLines, restLines, List.mem_cons, List.mem_append, List.mem_map] at mem
  rcases mem with rfl | ⟨hash, isHash, rfl⟩ | rfl | ⟨body, isBody, rfl⟩
  · exact absurd inside (by decide)
  · have clean : chr '-' ∉ str "Hash: " ++ hash := by
      intro dash
      rcases List.mem_append.mp dash with dash | dash
      · exact absurd dash (by decide)
      · exact (m.hashes_plain hash isHash).2 dash
    exact (noDash clean inside).elim
  · exact (noDash List.not_mem_nil inside).elim
  · exact ⟨body, isBody, SignedLine.infix_text inside⟩

/-- The first line is not cut. -/
theorem length_le_before {before after : ByteString}
    (h : breakOn beginSig m.text = some (before, after)) : beginSigned.length ≤ before.length := by
  by_contra short
  rw [Nat.not_le] at short
  obtain ⟨whole, starts, -⟩ := breakOn_spec h
  obtain ⟨c, rest, text, clean⟩ : ∃ c rest, m.text = beginSigned ++ c :: rest ∧ c ∉ beginSig := by
    rw [Clearsigned.text, frontLines, lineText_cons, List.append_assoc]
    unfold lineText withCrs
    split
    · exact ⟨_, _, rfl, beginSig_clean (.inr rfl)⟩
    · exact ⟨_, _, rfl, beginSig_clean (.inl rfl)⟩
  have inText : before <+: beginSigned ++ c :: rest := ⟨after, whole.symm.trans text⟩
  obtain ⟨line, cut⟩ := List.prefix_of_prefix_length_le inText (List.prefix_append _ _) short.le
  rw [text, ← cut, List.append_assoc, List.append_cancel_left_eq] at whole
  rw [← whole] at starts
  have inside : beginSig <:+: beginSigned := by
    rw [← cut]
    exact (prefix_of_prefix_cons clean starts).isInfix.trans (List.suffix_append _ _).isInfix
  exact absurd inside (by decide)

/-- The marker that is found stands behind the lines before the signature, or a line of the signed
text has one. -/
theorem before_or_marker {before after : ByteString}
    (h : breakOn beginSig m.text = some (before, after)) :
    before = lineText m.crlf m.frontLines ∨ ∃ line ∈ m.body, beginSig <:+: line.text := by
  obtain ⟨rest, front⟩ := breakOn_first m.beginSig_starts h
  obtain ⟨whole, starts, -⟩ := breakOn_spec h
  rw [text, ← front, List.append_assoc, List.append_cancel_left_eq] at whole
  cases rest using List.reverseRecOn with
  | nil =>
    rw [List.append_nil] at front
    exact .inl front
  | append_singleton rest c =>
    right
    apply m.exists_of_infix_front
    have last : c = chr '\n' := by
      have nonempty : withCrs m.crlf m.frontLines ≠ [] := List.cons_ne_nil _ _
      have ends := getLast?_unlines (d := chr '\n') nonempty
      rw [← lineText, ← front, ← List.append_assoc, List.getLast?_concat] at ends
      exact Option.some.inj ends
    rw [← whole, List.append_assoc, List.singleton_append, last] at starts
    have inside := prefix_of_prefix_cons (beginSig_clean (.inl rfl)) starts
    rw [← front]
    exact (inside.isInfix.trans (List.prefix_append rest [c]).isInfix).trans
      (List.suffix_append before _).isInfix

end Clearsigned

/-! ### Neither text is canonical -/

/-- The text that is extracted is longer, or lacks the marker in the signed text. -/
theorem extracted_ne_canonical {content : ByteString} (m : Clearsigned content)
    {decoded canonical : ByteString}
    (h : extractClearsignedBodies m.text = .ok (decoded, canonical)) : canonical ≠ m.canonical := by
  obtain ⟨start, text, before, after, begun, signed, rfl⟩ := of_extractClearsignedBodies h
  have begins : beginSigned <+: m.text := by
    rw [Clearsigned.text, Clearsigned.frontLines, lineText_cons, List.append_assoc]
    exact List.prefix_append _ _
  rw [breakOn_here begins] at begun
  cases begun
  have long := m.length_le_before signed
  rw [headerAndBody, if_neg (Nat.not_lt.mpr long)]
  rcases m.before_or_marker signed with whole | ⟨line, mem, marker⟩
  · have rest_plain : ∀ line ∈ [] :: m.restLines, PlainLine line := by
      have front := m.frontLines_plain
      rw [Clearsigned.frontLines, List.forall_mem_cons] at front
      exact List.forall_mem_cons.mpr ⟨by decide, front.2⟩
    have lines := getlines_lineText m.crlf rest_plain []
    have nothing : (getlines (chr '\n') []).map dropCr = [] := by decide
    rw [List.append_nil, nothing, List.append_nil] at lines
    rw [whole, Clearsigned.frontLines, lineText_cons, List.drop_left, lines, linesBehind,
      List.dropWhile_cons_of_neg (by simp), List.tail_cons]
    have split : crlfLines (m.restLines.map dataLine) =
        crlfLines ((m.hashes.map (str "Hash: " ++ ·) ++ [[]]).map dataLine) ++
          crlfLines (m.body.map (·.canonical)) := by
      simp [Clearsigned.restLines, crlfLines, List.flatMap_map, dataLine_written]
    intro same
    have shorter := length_canonical_lt m
    rw [← same, split, List.length_append] at shorter
    omega
  · intro same
    have inLine : beginSig <:+: m.canonical ++ str "\r\n" := by
      rw [← m.canonical_crlf]
      obtain ⟨front, back, body⟩ := List.append_of_mem mem
      have inBody : beginSig <:+: line.canonical := infix_rdropWhile marker
      rw [body]
      refine inBody.trans ⟨crlfLines (front.map (·.canonical)),
        str "\r\n" ++ crlfLines (back.map (·.canonical)), ?_⟩
      simp [crlfLines]
    have inCanonical : beginSig <:+: m.canonical := by
      rcases infix_of_infix_cons (beginSig_clean (.inr rfl)) inLine with inside | nothing
      · exact inside
      · exact absurd nothing (by decide)
    rw [← same] at inCanonical
    obtain ⟨piece, isPiece, inPiece⟩ := exists_of_infix_crlfLines inCanonical
    obtain ⟨line', isLine, rfl⟩ := List.mem_map.mp isPiece
    have inRaw : line' ∈ (getlines (chr '\n') (before.drop beginSigned.length)).map dropCr :=
      (List.dropWhile_suffix _).subset (List.mem_of_mem_tail isLine)
    obtain ⟨raw, isRaw, rfl⟩ := List.mem_map.mp inRaw
    have unmarked := (breakOn_spec signed).2.2 (by decide)
    apply unmarked
    have cut : dataLine (dropCr raw) <:+: raw := by
      have unescaped : unescape (dropCr raw) <:+ dropCr raw := by
        unfold unescape
        split
        · exact List.drop_suffix _ _
        · exact List.suffix_refl _
      have withoutCr : dropCr raw <+: raw := by
        unfold dropCr
        split
        · exact List.dropLast_prefix _
        · exact List.prefix_refl _
      exact ((List.rdropWhile_prefix _ _).isInfix.trans unescaped.isInfix).trans withoutCr.isInfix
    have inText := infix_of_mem_splitOn (mem_splitOn_of_mem_getlines isRaw)
    exact ((inPiece.trans cut).trans inText).trans (List.drop_suffix _ _).isInfix

/-- **Neither text is the canonical one**, for any message: what `parseInReleaseFile` stores has a
line end behind the last line, and so does what `extractClearsignedBodies` gives. -/
theorem signed_text_never_canonical {content : ByteString} (m : Clearsigned content) :
    (∃ parts, parseInRelease m.text = some parts ∧
      parts.releaseText = crlfLines (m.body.map (·.text)) ∧ parts.releaseText ≠ m.canonical) ∧
    ∀ decoded canonical, extractClearsignedBodies m.text = .ok (decoded, canonical) →
      canonical ≠ m.canonical := by
  constructor
  · obtain ⟨parts, parsed, stored⟩ := parseInRelease_text m
    refine ⟨parts, parsed, stored, fun same => ?_⟩
    have shorter := length_canonical_lt m
    have kept : (crlfLines (m.body.map (·.canonical))).length ≤
        (crlfLines (m.body.map (·.text))).length := by
      apply length_crlfLines_map
      intro line _
      exact (List.rdropWhile_prefix _ _).length_le
    rw [← same, stored] at shorter
    omega
  · intro decoded canonical extracted
    exact extracted_ne_canonical m extracted

/-- A signed text of one line. -/
def helloMessage : Clearsigned [1] where
  hashes := [str "SHA256"]
  body := [{
    text := str "Hello "
    escaped := false
    plain := by decide
    dash_escaped := by decide }]
  crlf _ := false
  signature := smallArmor false
  hashes_plain := by decide
  body_nonempty := by decide
  signature_title := rfl

/-- The blank stays, and even the header is taken for signed text. -/
theorem hello_not_canonical :
    helloMessage.canonical = str "Hello" ∧
      (parseInRelease helloMessage.text).map (·.releaseText) = some (str "Hello \r\n") ∧
      extractClearsignedBodies helloMessage.text =
        .ok (str "Hash: SHA256\n\nHello\n", str "Hash: SHA256\r\n\r\nHello\r\n") := by
  decide +kernel

theorem signed_text_never_canonical_hello :
    (∃ parts, parseInRelease helloMessage.text = some parts ∧
      parts.releaseText ≠ helloMessage.canonical) ∧
    str "Hash: SHA256\r\n\r\nHello\r\n" ≠ helloMessage.canonical := by
  have neither := signed_text_never_canonical helloMessage
  obtain ⟨parts, parsed, -, different⟩ := neither.1
  exact ⟨⟨parts, parsed, different⟩,
    neither.2 (str "Hash: SHA256\n\nHello\n") _ (by decide +kernel)⟩

end Apm.Crypto
