import Apm.Core.RepoIndex

/-!
`updateFromSourcesList` of `src/core/repo_index.cpp`.

## Main results

* `built_only_if_trusted`: an update counts a Packages index only if its file matched a
  checksum of the Release text of its source, and, where the source requires it, only if
  the signature of that very text was verified in this run.
-/

namespace Apm.Repo

open Apm.Fs Apm.Lib.Effect

variable {ε : Type} (host : Host)

/-! ### URLs -/

def makeDistBaseUrl (src : RepoSource) : ByteString :=
  (if src.uri.getLast? = some (chr '/') then src.uri.dropLast else src.uri) ++
    str "/dists/" ++ src.dist

def makeReleaseUrl (src : RepoSource) : ByteString := makeDistBaseUrl src ++ str "/Release"
def makeInReleaseUrl (src : RepoSource) : ByteString := makeDistBaseUrl src ++ str "/InRelease"
def makeReleaseGpgUrl (src : RepoSource) : ByteString :=
  makeDistBaseUrl src ++ str "/Release.gpg"

/-! ### InRelease -/

def normalizeToCrLf (text : ByteString) : ByteString :=
  text.flatMap fun c => if c == chr '\r' then [] else if c == chr '\n' then str "\r\n" else [c]

structure InReleaseState where
  sawBegin : Bool := false
  inHeaders : Bool := false
  inSig : Bool := false
  releaseBuf : ByteString := []
  sigBuf : ByteString := []

/-- One line of a clear-signed text. -/
def inReleaseLine (x : InReleaseState) (line : ByteString) : InReleaseState :=
  let line := dropCr line
  if !x.sawBegin then
    if line == str "-----BEGIN PGP SIGNED MESSAGE-----" then
      { x with sawBegin := true, inHeaders := true }
    else x
  else if x.inSig then { x with sigBuf := x.sigBuf ++ line ++ str "\n" }
  else if line == str "-----BEGIN PGP SIGNATURE-----" then
    { x with inSig := true, sigBuf := x.sigBuf ++ line ++ str "\n" }
  else if x.inHeaders then (if line.isEmpty then { x with inHeaders := false } else x)
  else
    -- Dash escaping.
    let line := if (str "- ").isPrefixOf line then line.drop 2 else line
    { x with releaseBuf := x.releaseBuf ++ line ++ str "\n" }

structure InReleaseParts where
  releaseText : ByteString
  signatureBlock : ByteString

/-- `parseInReleaseFile` on the text of the file. -/
def parseInRelease (content : ByteString) : Option InReleaseParts :=
  let x := (getlines (chr '\n') content).foldl inReleaseLine {}
  if !x.sawBegin then none
  else if !contains x.sigBuf (str "-----END PGP SIGNATURE-----") then none
  else some { releaseText := normalizeToCrLf x.releaseBuf, signatureBlock := x.sigBuf }

/-! ### The Release text -/

/-- Store the parts of an InRelease file: is the Release text ready, is its signature? -/
def storeInRelease (src : RepoSource) (listsDir : ByteString) :
    Act RepoWorld ε (Bool × Bool) := do
  match ← downloadFile host.toOutside (makeInReleaseUrl src)
    (makeInReleaseFilename src listsDir) with
  | .error _ => pure (false, false)
  | .ok () =>
      let content ← readFile host.toOutside (makeInReleaseFilename src listsDir)
      match content.bind parseInRelease with
      | none => pure (false, false)
      | some parts =>
          let releaseReady ←
            writeFile host.toOutside (makeReleaseFilename src listsDir) parts.releaseText
          if parts.signatureBlock.isEmpty then pure (releaseReady, false)
          else
            let signatureReady ←
              writeFile host.toOutside (makeReleaseGpgFilename src listsDir) parts.signatureBlock
            pure (releaseReady, signatureReady)

/-- Fetch the Release text, inline or apart: nothing, or whether there is a signature. -/
def fetchRelease (src : RepoSource) (listsDir : ByteString) :
    Act RepoWorld ε (Option Bool) := do
  let (releaseReady, signatureReady) ← storeInRelease host src listsDir
  if releaseReady then pure (some signatureReady)
  else
    match ← downloadFile host.toOutside (makeReleaseUrl src)
      (makeReleaseFilename src listsDir) with
    | .error _ => pure none
    | .ok () =>
        let gpg ← downloadFile host.toOutside (makeReleaseGpgUrl src)
          (makeReleaseGpgFilename src listsDir)
        pure (some (signatureReady || gpg.isOk))

/-- The signature check of the Release file; the contents of a successful one are kept. -/
def verifyRelease (src : RepoSource) (listsDir : ByteString) : Act RepoWorld ε Bool := do
  let data := makeReleaseFilename src listsDir
  let sig := makeReleaseGpgFilename src listsDir
  match ← verifyDetachedSignature host.toOutside data sig with
  | .error _ => pure false
  | .ok _ => do
      update fun w => ((),
        match w.node host.toOutside data, w.node host.toOutside sig with
        | some (.file text), some (.file block) =>
            { w with own := { w.own with verified := w.own.verified ++ [(text, block)] } }
        | _, _ => w)
      pure true

/-- May the source go on with its Release file? Only `Require` insists on a signature. -/
def releaseTrusted (src : RepoSource) (listsDir : ByteString) (signatureReady : Bool) :
    Act RepoWorld ε Bool := do
  if src.trustPolicy = .Skip then pure true
  else if !signatureReady then pure (src.trustPolicy != .Require)
  else if ← verifyRelease host src listsDir then pure true
  else pure (src.trustPolicy != .Require)

/-- A Release text with its checksums. -/
structure Release where
  text : ByteString
  info : ReleaseInfo

/-- Everything up to the parsed Release file; nothing if the source is skipped. -/
def obtainRelease (src : RepoSource) (listsDir : ByteString) :
    Act RepoWorld ε (Option Release) := do
  match ← fetchRelease host src listsDir with
  | none => pure none
  | some signatureReady =>
      if ← releaseTrusted host src listsDir signatureReady then
        match ← readFile host.toOutside (makeReleaseFilename src listsDir) with
        | none => pure none
        | some text => pure ((parseReleaseText text).map fun info => { text, info })
      else pure none

/-! ### Packages files -/

/-- The name of a Packages file in a Release text. -/
def relName (component arch : ByteString) (gz : Bool) : ByteString :=
  component ++ str "/binary-" ++ arch ++ str (if gz then "/Packages.gz" else "/Packages")

/-- Does the file's digest match the expected one, if there is one? -/
def digestMatches (hash : ByteString → Act RepoWorld ε (Except ByteString ByteString))
    (expected : Option ByteString) (path : ByteString) : Act RepoWorld ε Bool := do
  match expected with
  | none => pure false
  | some expected =>
      match ← hash path with
      | .ok actual => pure (toLower actual == toLower expected)
      | .error _ => pure false

/-- SHA256 first, then MD5. -/
def matchesRelease (info : ReleaseInfo) (name path : ByteString) : Act RepoWorld ε Bool := do
  if ← digestMatches (sha256File host.toOutside) (findSha256ForPath info name) path then pure true
  else digestMatches (md5File host.toOutside) (findMd5ForPath info name) path

/-- A Packages index that the update counts. -/
structure Counted where
  source : RepoSource
  component : ByteString
  arch : ByteString
  release : ByteString
  gz : Bool
  /-- The bytes that were unpacked. -/
  content : ByteString

structure PackagesDownload where
  component : ByteString
  fileBase : ByteString
  gzUrl : ByteString
  plainUrl : ByteString
  gzDest : ByteString
  plainDest : ByteString
  /-- What was built, once it succeeded. -/
  built : Option Counted := none

def planDownload (src : RepoSource) (arch listsDir component : ByteString) :
    PackagesDownload where
  component
  fileBase := makePackagesFilename src.uri src.dist component arch listsDir
  gzUrl := makeDistBaseUrl src ++ str "/" ++ component ++ str "/binary-" ++ arch ++
    str "/Packages.gz"
  plainUrl := makeDistBaseUrl src ++ str "/" ++ component ++ str "/binary-" ++ arch ++
    str "/Packages"
  gzDest := makePackagesFilename src.uri src.dist component arch listsDir ++ str ".gz"
  plainDest := makePackagesFilename src.uri src.dist component arch listsDir

def PackagesDownload.request (plan : PackagesDownload) (gz : Bool) : DownloadRequest :=
  if gz then { url := plan.gzUrl, destination := plan.gzDest }
  else { url := plan.plainUrl, destination := plan.plainDest }

/-- Keep the bytes of a file that matched. -/
def acceptFile (src : RepoSource) (component arch release : ByteString) (gz : Bool)
    (path : ByteString) : Act RepoWorld ε Unit :=
  update fun w => ((),
    match w.node host.toOutside path with
    | some (.file content) =>
        { w with own := { w.own with accepted := w.own.accepted ++
          [{ uri := src.uri, dist := src.dist, component, arch, release, gz, content }] } }
    | _ => w)

/-- Check and unpack a downloaded Packages file. -/
def tryPackages (src : RepoSource) (arch : ByteString) (release : Release) (gz : Bool)
    (plan : PackagesDownload) : Act RepoWorld ε PackagesDownload := do
  let path := (plan.request gz).destination
  if ← matchesRelease host release.info (relName plan.component arch gz) path then
    acceptFile host src plan.component arch release.text gz path
    match ← preparePackagesTextFile host plan.fileBase path gz with
    | none => pure plan
    | some content =>
        pure { plan with built := some {
          source := src, component := plan.component, arch, release := release.text, gz,
          content } }
  else pure plan

/-- Download the files of one form and try those that were received. -/
def downloadPackages (src : RepoSource) (arch : ByteString) (release : Release) (gz : Bool)
    (plans : List PackagesDownload) : Act RepoWorld ε (List PackagesDownload) := do
  let results ← downloadFiles host.toOutside (plans.map (·.request gz))
  forEach (fun x done => do
    let plan ← if x.2.isOk then tryPackages host src arch release gz x.1 else pure x.1
    pure (done ++ [plan])) (plans.zip results) []

/-- The Packages files of a source: the compressed ones, then the plain ones of the
components that did not succeed. -/
def updateComponents (src : RepoSource) (arch listsDir : ByteString) (release : Release) :
    Act RepoWorld ε (List Counted) := do
  let plans ← downloadPackages host src arch release true
    (src.components.map (planDownload src arch listsDir))
  let retried ← downloadPackages host src arch release false (plans.filter (·.built.isNone))
  pure (plans.filterMap (·.built) ++ retried.filterMap (·.built))

/-- One turn of the loop over the sources; the indexes counted so far. -/
def updateSource (listsDir defaultArch : ByteString) (src : RepoSource)
    (counted : List Counted) : Act RepoWorld ε (List Counted) := do
  match ← obtainRelease host src listsDir with
  | none => pure counted
  | some release =>
      let built ← updateComponents host src (resolveRepoArch src defaultArch) listsDir release
      pure (counted ++ built)

/-- An en dash. -/
def enDash : ByteString := [0xE2, 0x80, 0x93]

/-- `updateFromSourcesList`, on what `loadSourcesList` gave: the indexes it counts. -/
def updateFromSourcesList (sourcesPath : ByteString)
    (sources : Except ByteString (List RepoSource)) (listsDir defaultArch : ByteString) :
    Act RepoWorld ByteString (List Counted) := do
  match sources with
  | .error errorMsg => throw errorMsg
  | .ok sources =>
      if sources.isEmpty then throw (str "No valid sources in " ++ sourcesPath)
      else if !(← createDirs host.toOutside listsDir) then
        throw (str "Failed to create lists directory: " ++ listsDir)
      else
        let counted ← forEach (updateSource host listsDir defaultArch) sources []
        if counted.isEmpty then
          throw (str "No valid repo indices found in " ++ listsDir ++ str " " ++ enDash ++
            str " run 'apm update' and try again")
        else pure counted

/-! ### What the steps leave alone -/

theorem storeInRelease_keeps (src : RepoSource) (listsDir : ByteString) :
    Keeps World.own (storeInRelease (ε := ε) host src listsDir) := by
  refine (downloadFile_keeps host.toOutside _ _).bind fun r => ?_
  cases r with
  | error _ => exact keeps_pure _
  | ok _ =>
    refine (readFile_keeps host.toOutside _).bind fun content => ?_
    split
    · exact keeps_pure _
    · refine (writeFile_keeps host.toOutside _ _).bind fun _ => .ite (keeps_pure _) ?_
      exact (writeFile_keeps host.toOutside _ _).bind fun _ => keeps_pure _

theorem fetchRelease_keeps (src : RepoSource) (listsDir : ByteString) :
    Keeps World.own (fetchRelease (ε := ε) host src listsDir) := by
  refine (storeInRelease_keeps host src listsDir).bind fun ready => .ite (keeps_pure _) ?_
  refine (downloadFile_keeps host.toOutside _ _).bind fun r => ?_
  cases r with
  | error _ => exact keeps_pure _
  | ok _ => exact (downloadFile_keeps host.toOutside _ _).bind fun _ => keeps_pure _

theorem digestMatches_keeps (digest : ByteString → ByteString)
    (expected : Option ByteString) (path : ByteString) :
    Keeps World.own
      (digestMatches (ε := ε) (digestFile host.toOutside digest) expected path) := by
  cases expected with
  | none => exact keeps_pure _
  | some _ =>
    refine (digestFile_keeps host.toOutside _ _).bind fun r => ?_
    cases r with
    | error _ => exact keeps_pure _
    | ok _ => exact keeps_pure _

/-! ### The Release text -/

/-- A signature of the text was verified since the record was started. -/
def SignatureVerified (text : ByteString) (own : RepoOwn) : Prop :=
  ∃ block n, (text, block) ∈ own.verified ∧ (host.signature n text block).isSome

theorem SignatureVerified.later {host : Host} {text : ByteString} {own own' : RepoOwn}
    (h : SignatureVerified host text own) (grows : own.verified <+: own'.verified) :
    SignatureVerified host text own' := by
  obtain ⟨block, n, recorded, accepted⟩ := h
  exact ⟨block, n, grows.subset recorded, accepted⟩

/-- A successful verification is one of the Release file as it is. -/
theorem verifyRelease_spec (src : RepoSource) (listsDir : ByteString) (w : RepoWorld) :
    wp (verifyRelease (ε := ε) host src listsDir)
      (fun verified w' => w'.disk = w.disk ∧ w.own.verified <+: w'.own.verified ∧
        (verified = true → ∀ text,
          contentAt w.disk (host.resolve (makeReleaseFilename src listsDir)) = some text →
          SignatureVerified host text w'.own))
      (fun _ _ => False) w := by
  refine wp_bind.mpr (wp_mono (verifyDetachedSignature_spec host.toOutside _ _ w)
    (fun r w₁ h => ?_) fun _ _ h => h)
  obtain ⟨disk, own, verified⟩ := h
  cases r with
  | error _ => exact ⟨disk, own ▸ List.prefix_refl _, by simp⟩
  | ok fingerprint =>
    obtain ⟨content, block, data, sig, accepted⟩ := verified rfl
    have data₁ : w₁.node host.toOutside (makeReleaseFilename src listsDir) =
        some (.file content) := by rw [← data, World.node, World.node, disk]
    have sig₁ : w₁.node host.toOutside (makeReleaseGpgFilename src listsDir) =
        some (.file block) := by rw [← sig, World.node, World.node, disk]
    refine wp_bind.mpr (wp_update.mpr (wp_pure.mpr ?_))
    rw [data₁, sig₁]
    refine ⟨disk, own ▸ List.prefix_append _ _, fun _ text found => ?_⟩
    have same : content = text := by
      rw [contentAt, show w.disk (host.resolve (makeReleaseFilename src listsDir)) = _ from data]
        at found
      simpa using found
    exact same ▸ ⟨block, w.clock, List.mem_append_right _ (List.mem_singleton_self _), accepted⟩

/-- Under `Require` a source goes on only if the Release file as it is was verified. -/
theorem releaseTrusted_spec (src : RepoSource) (listsDir : ByteString) (signatureReady : Bool)
    (w : RepoWorld) :
    wp (releaseTrusted (ε := ε) host src listsDir signatureReady)
      (fun trusted w' => w'.disk = w.disk ∧ w.own.verified <+: w'.own.verified ∧
        (trusted = true → src.trustPolicy = .Require → ∀ text,
          contentAt w.disk (host.resolve (makeReleaseFilename src listsDir)) = some text →
          SignatureVerified host text w'.own))
      (fun _ _ => False) w := by
  refine wp_ite.mpr ⟨fun skip => ⟨rfl, List.prefix_refl _, ?_⟩, fun _ => ?_⟩
  · intro _ require
    cases skip.symm.trans require
  refine wp_ite.mpr ⟨fun _ => ⟨rfl, List.prefix_refl _, ?_⟩, fun _ => wp_bind.mpr ?_⟩
  · intro trusted require
    simp [require] at trusted
  refine wp_mono (verifyRelease_spec host src listsDir w) (fun verified w₁ h => ?_)
    fun _ _ h => h
  refine wp_ite.mpr ⟨fun ok => ⟨h.1, h.2.1, fun _ _ => h.2.2 ok⟩,
    fun _ => ⟨h.1, h.2.1, fun trusted require => ?_⟩⟩
  simp [require] at trusted

/-- **The Release text of a source** is parsed only if it may be: under `Require` its
signature was verified. -/
theorem obtainRelease_spec (src : RepoSource) (listsDir : ByteString) (w : RepoWorld) :
    wp (obtainRelease (ε := ε) host src listsDir)
      (fun r w' => w.own.verified <+: w'.own.verified ∧ ∀ release, r = some release →
        parseReleaseText release.text = some release.info ∧
        (src.trustPolicy = .Require → SignatureVerified host release.text w'.own))
      (fun _ _ => True) w := by
  refine wp_bind.mpr (wp_mono ((fetchRelease_keeps host src listsDir).wp w) (fun r w₁ own => ?_)
    fun _ _ _ => trivial)
  cases r with
  | none => exact ⟨own ▸ List.prefix_refl _, fun _ h => nomatch h⟩
  | some signatureReady =>
    refine wp_bind.mpr (wp_mono (releaseTrusted_spec host src listsDir signatureReady w₁)
      (fun trusted w₂ h => ?_) fun _ _ _ => trivial)
    obtain ⟨disk, grows, verified⟩ := h
    rw [own] at grows
    refine wp_ite.mpr ⟨fun ok => wp_bind.mpr (wp_update.mpr ?_),
      fun _ => ⟨grows, fun _ h => nomatch h⟩⟩
    cases read : w₂.read host.toOutside (makeReleaseFilename src listsDir) with
    | none => exact ⟨grows, fun _ h => nomatch h⟩
    | some text =>
      refine ⟨grows, fun release h => ?_⟩
      obtain ⟨info, parsed, rfl⟩ := Option.map_eq_some_iff.mp h
      exact ⟨parsed, fun require =>
        verified ok require text (disk ▸ read_eq_some host.toOutside read)⟩

/-! ### Packages files -/

/-- The Release lists a digest of the bytes under the name. -/
def Listed (info : ReleaseInfo) (name content : ByteString) : Prop :=
  (∃ expected, findSha256ForPath info name = some expected ∧
      toLower (host.sha256 content) = toLower expected) ∨
    ∃ expected, findMd5ForPath info name = some expected ∧
      toLower (host.md5 content) = toLower expected

theorem digestMatches_spec (digest : ByteString → ByteString) (expected : Option ByteString)
    (path : ByteString) (w : RepoWorld) :
    wp (digestMatches (ε := ε) (digestFile host.toOutside digest) expected path)
      (fun matched w' => w'.disk = w.disk ∧ w'.own = w.own ∧ (matched = true →
        ∃ content, contentAt w.disk (host.resolve path) = some content ∧
          ∃ e, expected = some e ∧ toLower (digest content) = toLower e))
      (fun _ _ => False) w := by
  cases expected with
  | none => exact ⟨rfl, rfl, by simp⟩
  | some e =>
    refine wp_bind.mpr (wp_mono (digestFile_spec host.toOutside digest path w)
      (fun r w₁ h => ?_) fun _ _ h => h)
    obtain ⟨disk, own, computed⟩ := h
    cases r with
    | error _ => exact ⟨disk, own, by simp⟩
    | ok actual =>
      refine ⟨disk, own, fun same => ?_⟩
      obtain ⟨content, found, rfl⟩ := computed actual rfl
      exact ⟨content, found, e, rfl, by simpa using same⟩

theorem matchesRelease_spec (info : ReleaseInfo) (name path : ByteString) (w : RepoWorld) :
    wp (matchesRelease (ε := ε) host info name path)
      (fun matched w' => w'.disk = w.disk ∧ w'.own = w.own ∧ (matched = true →
        ∃ content, contentAt w.disk (host.resolve path) = some content ∧
          Listed host info name content))
      (fun _ _ => False) w := by
  refine wp_bind.mpr (wp_mono (digestMatches_spec host host.sha256 _ path w)
    (fun sha w₁ h₁ => wp_ite.mpr ⟨fun matched => ⟨h₁.1, h₁.2.1, fun _ => ?_⟩, fun _ => ?_⟩)
    fun _ _ h => h)
  · obtain ⟨content, found, listed⟩ := h₁.2.2 matched
    exact ⟨content, found, .inl listed⟩
  · refine wp_mono (digestMatches_spec host host.md5 _ path w₁) (fun md5 w₂ h₂ => ?_)
      fun _ _ h => h
    refine ⟨h₂.1.trans h₁.1, h₂.2.1.trans h₁.2.1, fun matched => ?_⟩
    obtain ⟨content, found, listed⟩ := h₂.2.2 matched
    exact ⟨content, h₁.1 ▸ found, .inr listed⟩

/-- What trying a downloaded Packages file does. -/
inductive Tried (src : RepoSource) (arch : ByteString) (release : Release) (gz : Bool)
    (plan : PackagesDownload) (w : RepoWorld) : PackagesDownload → RepoWorld → Prop
  | rejected {w' : RepoWorld} (disk : w'.disk = w.disk) (own : w'.own = w.own) :
      Tried src arch release gz plan w plan w'
  | accepted {plan' : PackagesDownload} {w' : RepoWorld} (content : ByteString)
      (found : contentAt w.disk (host.resolve (plan.request gz).destination) = some content)
      (listed : Listed host release.info (relName plan.component arch gz) content)
      (own : w'.own = { w.own with accepted := w.own.accepted ++ [{
        uri := src.uri, dist := src.dist, component := plan.component, arch,
        release := release.text, gz, content }] })
      (unpacked : UnpackedTo host gz (host.resolve (plan.request gz).destination)
        (host.resolve (makePackagesPlainPath plan.fileBase)) w.disk w'.disk)
      (built : plan' = plan ∨ plan' = { plan with built := some {
        source := src, component := plan.component, arch, release := release.text, gz,
        content } }) :
      Tried src arch release gz plan w plan' w'

/-- **Trying a Packages file** either rejects it, or it is listed by the Release text and
is the only one that is unpacked. -/
theorem tryPackages_spec (src : RepoSource) (arch : ByteString) (release : Release)
    (gz : Bool) (plan : PackagesDownload) (w : RepoWorld) :
    wp (tryPackages (ε := ε) host src arch release gz plan)
      (Tried host src arch release gz plan w) (fun _ _ => False) w := by
  refine wp_bind.mpr (wp_mono (matchesRelease_spec host _ _ _ w) (fun matched w₁ h => ?_)
    fun _ _ h => h)
  obtain ⟨disk, own, matching⟩ := h
  refine wp_ite.mpr ⟨fun ok => wp_bind.mpr (wp_update.mpr ?_), fun _ => .rejected disk own⟩
  obtain ⟨content, found, listed⟩ := matching ok
  have file : w₁.node host.toOutside (plan.request gz).destination = some (.file content) := by
    unfold contentAt at found
    split at found
    · cases found
      rename_i there
      rwa [World.node, disk]
    · cases found
  rw [file]
  refine wp_bind.mpr (wp_mono (preparePackagesTextFile_spec host _ _ gz _)
    (fun unpacked w₂ h => ?_) fun _ _ h => h)
  obtain ⟨own₂, same, unpackedTo⟩ := h
  rw [own] at own₂
  dsimp only at same unpackedTo
  rw [disk] at same unpackedTo
  cases unpacked with
  | none => exact .accepted content found listed own₂ unpackedTo (.inl rfl)
  | some content' =>
    obtain rfl : content = content' := Option.some.inj (found.symm.trans (same content' rfl))
    exact .accepted content found listed own₂ unpackedTo (.inr rfl)

/-! ### Counted indexes -/

/-- The index was built from the Release text, from a file that it lists. -/
structure BuiltFrom (src : RepoSource) (release : Release) (c : Counted) : Prop where
  source : c.source = src
  text : c.release = release.text
  listed : Listed host release.info (relName c.component c.arch c.gz) c.content

/-- A plan that succeeded did so with a file that the Release text lists. -/
def PlanBuiltFrom (src : RepoSource) (release : Release) (plan : PackagesDownload) : Prop :=
  ∀ c, plan.built = some c → BuiltFrom host src release c

theorem planBuiltFrom_of_isNone {src : RepoSource} {release : Release}
    {plan : PackagesDownload} (h : plan.built = none) : PlanBuiltFrom host src release plan :=
  fun c built => by cases h.symm.trans built

theorem Tried.planBuiltFrom {host : Host} {src : RepoSource} {arch : ByteString}
    {release : Release} {gz : Bool} {plan plan' : PackagesDownload} {w w' : RepoWorld}
    (h : Tried host src arch release gz plan w plan' w')
    (before : PlanBuiltFrom host src release plan) : PlanBuiltFrom host src release plan' := by
  cases h with
  | rejected => exact before
  | accepted content _ listed _ _ built =>
    obtain rfl | rfl := built
    · exact before
    · rintro c ⟨⟩
      exact ⟨rfl, rfl, listed⟩

theorem Tried.verified_eq {host : Host} {src : RepoSource} {arch : ByteString}
    {release : Release} {gz : Bool} {plan plan' : PackagesDownload} {w w' : RepoWorld}
    (h : Tried host src arch release gz plan w plan' w') : w'.own.verified = w.own.verified := by
  cases h with
  | rejected _ own => rw [own]
  | accepted _ _ _ own => rw [own]

theorem downloadPackages_spec (src : RepoSource) (arch : ByteString) (release : Release)
    (gz : Bool) (plans : List PackagesDownload)
    (before : ∀ plan ∈ plans, PlanBuiltFrom host src release plan) (w : RepoWorld) :
    wp (downloadPackages (ε := ε) host src arch release gz plans)
      (fun plans' w' => w'.own.verified = w.own.verified ∧
        ∀ plan ∈ plans', PlanBuiltFrom host src release plan)
      (fun _ _ => True) w := by
  refine wp_bind.mpr (wp_mono ((downloadFiles_keeps host.toOutside _).wp w)
    (fun results w₁ own => ?_) fun _ _ _ => trivial)
  refine wp_forEach (fun done (w' : RepoWorld) => w'.own.verified = w.own.verified ∧
    ∀ plan ∈ done, PlanBuiltFrom host src release plan)
    (fun x mem done w₂ h => ?_) ⟨by rw [own], by simp⟩
  obtain ⟨verified, good⟩ := h
  have given : PlanBuiltFrom host src release x.1 := before x.1 (List.of_mem_zip mem).1
  have add (last : PackagesDownload) (h : PlanBuiltFrom host src release last) :
      ∀ plan ∈ done ++ [last], PlanBuiltFrom host src release plan :=
    List.forall_mem_append.mpr ⟨good, List.forall_mem_singleton.mpr h⟩
  refine wp_ite.mpr ⟨fun _ => wp_bind.mpr ?_, fun _ => ⟨verified, add x.1 given⟩⟩
  refine wp_mono (tryPackages_spec host src arch release gz x.1 w₂)
    (fun plan w₃ tried => ?_) fun _ _ _ => trivial
  exact ⟨tried.verified_eq.trans verified, add plan (tried.planBuiltFrom given)⟩

theorem updateComponents_spec (src : RepoSource) (arch listsDir : ByteString)
    (release : Release) (w : RepoWorld) :
    wp (updateComponents (ε := ε) host src arch listsDir release)
      (fun counted w' => w'.own.verified = w.own.verified ∧
        ∀ c ∈ counted, BuiltFrom host src release c)
      (fun _ _ => True) w := by
  refine wp_bind.mpr (wp_mono (downloadPackages_spec host src arch release true _ ?_ w)
    (fun plans w₁ h₁ => ?_) fun _ _ _ => trivial)
  · intro plan mem
    obtain ⟨component, _, rfl⟩ := List.mem_map.mp mem
    exact planBuiltFrom_of_isNone host rfl
  refine wp_bind.mpr (wp_mono (downloadPackages_spec host src arch release false _ ?_ w₁)
    (fun retried w₂ h₂ => ⟨h₂.1.trans h₁.1, fun c mem => ?_⟩) fun _ _ _ => trivial)
  · intro plan mem
    exact planBuiltFrom_of_isNone host (Option.isNone_iff_eq_none.mp (List.mem_filter.mp mem).2)
  · rcases List.mem_append.mp mem with first | second
    · obtain ⟨plan, mem, built⟩ := List.mem_filterMap.mp first
      exact h₁.2 plan mem c built
    · obtain ⟨plan, mem, built⟩ := List.mem_filterMap.mp second
      exact h₂.2 plan mem c built

/-- The chain of trust of a counted index: its file is listed by a Release text, and where
its source requires it, a signature of that text was verified. -/
def Trusted (own : RepoOwn) (c : Counted) : Prop :=
  ∃ info, parseReleaseText c.release = some info ∧
    Listed host info (relName c.component c.arch c.gz) c.content ∧
    (c.source.trustPolicy = .Require → SignatureVerified host c.release own)

theorem Trusted.later {host : Host} {own own' : RepoOwn} {c : Counted}
    (h : Trusted host own c) (grows : own.verified <+: own'.verified) : Trusted host own' c := by
  obtain ⟨info, parsed, listed, signed⟩ := h
  exact ⟨info, parsed, listed, fun require => (signed require).later grows⟩

/-- One turn of the loop over the sources. -/
theorem updateSource_spec (listsDir defaultArch : ByteString) (src : RepoSource)
    (counted : List Counted) (w : RepoWorld) (before : ∀ c ∈ counted, Trusted host w.own c) :
    wp (updateSource (ε := ε) host listsDir defaultArch src counted)
      (fun counted' w' => ∀ c ∈ counted', Trusted host w'.own c) (fun _ _ => True) w := by
  refine wp_bind.mpr (wp_mono (obtainRelease_spec host src listsDir w) (fun r w₁ h => ?_)
    fun _ _ h => h)
  obtain ⟨grows, obtained⟩ := h
  cases r with
  | none => exact fun c mem => (before c mem).later grows
  | some release =>
    obtain ⟨parsed, signed⟩ := obtained release rfl
    refine wp_bind.mpr (wp_mono (updateComponents_spec host src _ listsDir release w₁)
      (fun built w₂ h c mem => ?_) fun _ _ h => h)
    obtain ⟨verified, builtFrom⟩ := h
    have grows₂ : w₁.own.verified <+: w₂.own.verified := verified ▸ List.prefix_refl _
    rcases List.mem_append.mp mem with old | new
    · exact (before c old).later (grows.trans grows₂)
    · obtain ⟨rfl, text, listed⟩ := builtFrom c new
      exact ⟨release.info, text ▸ parsed, listed, fun require =>
        text ▸ (signed require).later grows₂⟩

/-- **An update counts only trusted indexes**: whatever the server sends and whatever
fails, each one comes from a file that the parsed Release text lists, and under `Require`
the signature of that text was verified in the run. -/
theorem built_only_if_trusted (sourcesPath : ByteString)
    (sources : Except ByteString (List RepoSource)) (listsDir defaultArch : ByteString)
    (w : RepoWorld) :
    wp (updateFromSourcesList host sourcesPath sources listsDir defaultArch)
      (fun counted w' => ∀ c ∈ counted, Trusted host w'.own c) (fun _ _ => True)
      { w with own := { w.own with verified := [] } } := by
  cases sources with
  | error _ => trivial
  | ok sources =>
    refine wp_ite.mpr ⟨fun _ => trivial, fun _ => wp_bind.mpr ?_⟩
    refine wp_of_forall (fun created w₁ => wp_ite.mpr ⟨fun _ => trivial, fun _ => ?_⟩)
      fun _ _ => trivial
    refine wp_bind.mpr (wp_mono (wp_forEach
      (fun counted w' => ∀ c ∈ counted, Trusted host w'.own c)
      (fun src _ counted w₂ h => updateSource_spec host listsDir defaultArch src counted w₂ h)
      (by simp)) (fun counted w₂ h => ?_) fun _ _ h => h)
    exact wp_ite.mpr ⟨fun _ => trivial, fun _ => h⟩

end Apm.Repo
