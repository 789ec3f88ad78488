import Apm.Core.RepoIndex
import Apm.Core.StanzaText

/-!
Source files: `parseSingleRepoFile` of `src/core/repo_index.cpp`.
-/

namespace Apm.Repo

open Apm.Lib.Text

/-- The fields of a source file, and its lines put together for the detection of Termux. -/
structure RepoFile where
  fields : Fields := ∅
  rawForDetection : ByteString := []

/-- The loop over the lines, with the number of the last one; why it stops, if it does. -/
def repoLines (path : ByteString) : Nat → List ByteString → RepoFile → Except ByteString RepoFile
  | _, [], x => .ok x
  | lineNo, line :: lines, x =>
      let trimmed := trim (dropCr line)
      if trimmed.isEmpty || trimmed.head? == some (chr '#') then
        repoLines path (lineNo + 1) lines x
      else if !trimmed.contains (chr '=') then
        .error (str "Malformed .repo line " ++ decimal (lineNo + 1) ++ str " in " ++ path)
      else
        let key := trim (upTo (· == chr '=') trimmed)
        let value := trim (trimmed.dropWhile (· != chr '=')).tail
        if key.isEmpty then
          .error (str "Empty .repo key on line " ++ decimal (lineNo + 1) ++ str " in " ++ path)
        else
          repoLines path (lineNo + 1) lines {
            fields := x.fields.insert (toLower key) value
            rawForDetection := x.rawForDetection ++ trimmed ++ str "\n" }

def applyTrustPolicy (value : ByteString) : RepoTrustPolicy :=
  let valLower := toLower value
  if valLower == str "required" then .Require
  else if valLower == str "yes" || valLower == str "true" || valLower == str "1" then .Skip
  else .Default

def applyDebSignaturePolicy (value : ByteString) : DebSignaturePolicy :=
  let valLower := toLower value
  if valLower == str "required" then .Required
  else if valLower == str "optional" then .Optional
  else .Disabled

def detectRepoFormat (uri dist rawLine : ByteString) : RepoFormat :=
  if [uri, dist, rawLine].any (containsCaseInsensitive · (str "termux")) then .Termux else .Debian

def detectTermuxRepo (uri rawLine : ByteString) : Bool :=
  containsCaseInsensitive uri (str "packages.termux.dev") ||
    containsCaseInsensitive rawLine (str "data/data/com.termux/files/usr")

/-- `parseSingleRepoFile`, of a file with this text. -/
def parseRepoFile (path content : ByteString) : Except ByteString RepoSource := do
  let file ← repoLines path 0 (getlines (chr '\n') content) {}
  let get := getField file.fields
  let uri := get "url"
  let suites := splitAndTrim (get "suites") (chr ',')
  let dist := suites.head?.getD []
  let format := detectRepoFormat uri dist file.rawForDetection
  let src : RepoSource := {
    type := toLower (get "type")
    uri
    dist
    components := suites.tail
    arch := (splitAndTrim (get "architectures") (chr ',')).head?.getD []
    format
    isTermuxRepo := format = .Termux || detectTermuxRepo uri file.rawForDetection
    trustPolicy := if (get "trusted").isEmpty then .Default else applyTrustPolicy (get "trusted")
    debSignaturePolicy := if (get "deb-signatures").isEmpty then .Disabled
      else applyDebSignaturePolicy (get "deb-signatures") }
  if src.type != str "deb" then
    .error (str "Repo source " ++ path ++ str " must use Type=deb")
  else if src.uri.isEmpty || src.dist.isEmpty || src.components.isEmpty then
    .error (str "Repo source " ++ path ++
      str " requires Type=deb, URL, and Suites=<dist>,<component>[,...]")
  else .ok src

/-! ### What a source's texts look like -/

/-- One line without blanks at its ends. -/
def Neat (s : ByteString) : Prop := OneLine s ∧ Bare isspace s

theorem neat_nil : Neat [] := ⟨List.not_mem_nil, nofun, nofun⟩

theorem repoLines_neat {path : ByteString} {lineNo : Nat} {lines : List ByteString}
    {x file : RepoFile} (h : repoLines path lineNo lines x = .ok file)
    (oneLine : ∀ line ∈ lines, OneLine line) (neat : AllValues Neat x.fields) :
    AllValues Neat file.fields := by
  induction lines generalizing lineNo x with
  | nil =>
    obtain rfl := Except.ok.inj h
    exact neat
  | cons line lines ih =>
    obtain ⟨first, others⟩ := List.forall_mem_cons.mp oneLine
    unfold repoLines at h
    dsimp only at h
    split at h
    · exact ih h others neat
    split at h
    · cases h
    split at h
    · cases h
    · refine ih h others (neat.insert ⟨fun mem => first ?_, strip_bare _⟩)
      have inside := (List.dropWhile_suffix _).mem (List.mem_of_mem_tail (mem_of_mem_trim mem))
      exact mem_of_mem_dropCr (mem_of_mem_trim inside)

/-- **The texts of a source are neat.** -/
theorem parseRepoFile_neat {path content : ByteString} {src : RepoSource}
    (h : parseRepoFile path content = .ok src) :
    Neat src.uri ∧ Neat src.dist ∧ ∀ component ∈ src.components, Neat component := by
  unfold parseRepoFile at h
  cases run : repoLines path 0 (getlines (chr '\n') content) {} with
  | error _ =>
    rw [run] at h
    cases h
  | ok file =>
    rw [run] at h
    dsimp only [bind, Except.bind] at h
    have lines : ∀ line ∈ getlines (chr '\n') content, OneLine line := fun line mem =>
      not_mem_of_mem_splitOn (mem_splitOn_of_mem_getlines mem)
    have neat := repoLines_neat run lines fun kv mem => nomatch mem
    have suites : ∀ suite ∈ splitAndTrim (getField file.fields "suites") (chr ','), Neat suite := by
      intro suite mem
      obtain ⟨-, bare, -, letters⟩ := mem_splitAndTrim mem
      exact ⟨fun mem => (neat.getField neat_nil "suites").1 (letters _ mem), bare⟩
    split at h
    · cases h
    split at h
    · cases h
    · obtain rfl := Except.ok.inj h
      refine ⟨neat.getField neat_nil "url", ?_, fun component mem => ?_⟩
      · cases first : (splitAndTrim (getField file.fields "suites") (chr ',')).head? with
        | none => exact neat_nil
        | some suite => exact suites suite (List.mem_of_head? first)
      · exact suites component (List.mem_of_mem_tail mem)

end Apm.Repo
