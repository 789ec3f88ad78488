import Apm.Core.RepoUpdate
import Mathlib.Data.Set.Function

/-!
`loadRepoIndicesFromCache` of `src/core/repo_index.cpp`, and runs of updates and loads over
one lists directory.

A run that is stopped leaves the disk of one that goes on with every later request refused,
so what holds after every run holds wherever a run stops.

## Main results

* `parsed_only_verified`: every text that a run parses into an index was unpacked from a file
  that matched a checksum listed for it in a Release text of the source, as long as no load
  falls back to a file that no update accepted and no two sources share a file name.
* `rejected_file_parsed`: a load parses a Packages file that the update before it rejected.
-/

namespace Apm.Repo

open Apm.Fs Apm.Lib.Effect

variable {ε : Type} (host : Host) (listsDir : ByteString)

/-! ### Loading -/

def packagesSuffix (gz : Bool) : ByteString := str (if gz then ".gz" else "")

/-- A file left behind in one form, if no other form was found before. -/
def tryCandidate (fileBase : ByteString) (gz : Bool) (found : Option ByteString) :
    Act RepoWorld ε (Option ByteString) := do
  if found.isSome then pure found
  else if ← pathExists host.toOutside (fileBase ++ packagesSuffix gz) then
    match ← preparePackagesTextFile host fileBase (fileBase ++ packagesSuffix gz) gz with
    | some _ => pure (some (makePackagesPlainPath fileBase))
    | none => pure (if gz then none else some (fileBase ++ packagesSuffix gz))
  else pure none

/-- The extracted text, or else what the files left behind give. -/
def findPackagesFile (fileBase : ByteString) : Act RepoWorld ε (Option ByteString) := do
  if ← pathExists host.toOutside (makePackagesPlainPath fileBase) then
    pure (some (makePackagesPlainPath fileBase))
  else forEach (tryCandidate host fileBase) [true, false] none

/-- The packages of an index, marked with their source. -/
def markPackages (src : RepoSource) (component : ByteString) (packages : PackageList) :
    PackageList :=
  packages.map fun pkg => { pkg with
    repoUri := src.uri
    repoDist := src.dist
    repoComponent := component
    isTermuxPackage := src.format = .Termux || src.isTermuxRepo || pkg.isTermuxPackage }

def makeRepoIndex (src : RepoSource) (component arch pkgFile content : ByteString) : RepoIndex :=
  let packages := markPackages src component (parsePackagesString content)
  { source := { src with isTermuxRepo := src.isTermuxRepo || packages.any (·.isTermuxPackage) }
    component, arch, packagesPath := pkgFile, packages }

/-- One turn of the loops over the sources and their components. -/
def loadComponent (defaultArch : ByteString) (x : RepoSource × ByteString)
    (out : RepoIndexList) : Act RepoWorld ε RepoIndexList := do
  let arch := resolveRepoArch x.1 defaultArch
  match ← findPackagesFile host (makePackagesFilename x.1.uri x.1.dist x.2 arch listsDir) with
  | none => pure out
  | some pkgFile =>
      match ← readFile host.toOutside pkgFile with
      | none => pure out
      | some content => do
          update fun w => ((), { w with own := { w.own with parsed := w.own.parsed ++
            [{ uri := x.1.uri, dist := x.1.dist, component := x.2, arch, text := content }] } })
          pure (out ++ [makeRepoIndex x.1 x.2 arch pkgFile content])

def componentTurns (sources : List RepoSource) : List (RepoSource × ByteString) :=
  sources.flatMap fun src => src.components.map fun component => (src, component)

/-- `loadRepoIndicesFromCache`, on what `loadSourcesList` gave. -/
def loadRepoIndicesFromCache (sources : Except ByteString (List RepoSource))
    (defaultArch : ByteString) : Act RepoWorld ByteString RepoIndexList := do
  match sources with
  | .error errorMsg => throw errorMsg
  | .ok sources =>
      let out ← forEach (loadComponent host listsDir defaultArch) (componentTurns sources) []
      if out.isEmpty then
        throw (str "No cached repo indices found in " ++ listsDir ++
          str " - run 'apm update' and try again")
      else pure out

/-! ### Runs -/

inductive CacheOp where
  | update (sourcesPath : ByteString) (sources : Except ByteString (List RepoSource))
      (defaultArch : ByteString)
  | load (sources : Except ByteString (List RepoSource)) (defaultArch : ByteString)

def CacheOp.perform (op : CacheOp) (_ : Unit) : Act RepoWorld Empty Unit :=
  match op with
  | .update sourcesPath sources defaultArch => do
      let _ ← attempt (updateFromSourcesList host sourcesPath sources listsDir defaultArch)
      pure ()
  | .load sources defaultArch => do
      let _ ← attempt (loadRepoIndicesFromCache host listsDir sources defaultArch)
      pure ()

def runCache (ops : List CacheOp) : Act RepoWorld Empty Unit :=
  forEach (CacheOp.perform host listsDir) ops ()

/-! ### Paths of the cache -/

def Accepted.fileBase (a : Accepted) : ByteString :=
  makePackagesFilename a.uri a.dist a.component a.arch listsDir

def Parsed.fileBase (p : Parsed) : ByteString :=
  makePackagesFilename p.uri p.dist p.component p.arch listsDir

/-- The base of a Packages file of some source. -/
def IsFileBase (fileBase : ByteString) : Prop :=
  ∃ uri dist component arch, fileBase = makePackagesFilename uri dist component arch listsDir

/-- The files that updates and loads write. -/
inductive CachePath : ByteString → Prop
  | dist (src : RepoSource) {suffix : String}
      (h : suffix ∈ ["_Release", "_Release.gpg", "_InRelease"]) :
      CachePath (makeDistFilename src listsDir suffix)
  | packages {fileBase : ByteString} (h : IsFileBase listsDir fileBase) (gz : Bool) :
      CachePath (fileBase ++ packagesSuffix gz)
  | text {fileBase : ByteString} (h : IsFileBase listsDir fileBase) :
      CachePath (makePackagesPlainPath fileBase)

/-- Different files of the cache are at different places: there are no links among them. -/
def NoLinks : Prop := Set.InjOn host.resolve {path | CachePath listsDir path}

theorem joinPath_suffix (left right : ByteString) (h : right ≠ []) :
    ∃ front, joinPath left right = front ++ right := by
  have nonempty : right.isEmpty = false := by simpa using h
  simp only [joinPath, nonempty, Bool.false_eq_true, if_false]
  split
  · exact ⟨[], rfl⟩
  split
  · exact ⟨[], rfl⟩
  split
  · exact ⟨left, rfl⟩
  · exact ⟨left ++ str "/", rfl⟩

theorem makePackagesPlainPath_eq (fileBase : ByteString) :
    makePackagesPlainPath fileBase = fileBase ++ str "_dir/Packages" := by
  have last : (fileBase ++ str "_dir").getLast? = some (chr 'r') := by
    rw [List.getLast?_append_of_ne_nil _ (by decide)]
    decide
  have nonempty : (fileBase ++ str "_dir").isEmpty = false := by simp [str]
  unfold makePackagesPlainPath makePackagesExtractDir joinPath
  rw [nonempty, last]
  rw [if_neg (by decide), if_neg (by decide), if_neg (by decide), if_neg (by decide)]
  simp only [List.append_assoc]
  rfl

theorem makePackagesPlainPath_inj {b b' : ByteString}
    (h : makePackagesPlainPath b = makePackagesPlainPath b') : b = b' := by
  rw [makePackagesPlainPath_eq, makePackagesPlainPath_eq] at h
  exact List.append_cancel_right h

/-- An extracted text is none of the files with another ending. -/
theorem ne_makePackagesPlainPath {front ending : ByteString} (short : ending.length ≤ 13)
    (other : ¬ ending <:+ str "_dir/Packages") (fileBase : ByteString) :
    front ++ ending ≠ makePackagesPlainPath fileBase := by
  intro h
  rw [makePackagesPlainPath_eq] at h
  apply other
  have tail : str "_dir/Packages" <:+ front ++ ending := h ▸ List.suffix_append _ _
  exact List.suffix_of_suffix_length_le (List.suffix_append front ending) tail
    (short.trans (by decide))

theorem makeDistFilename_ne_text (src : RepoSource) {suffix : String}
    (h : suffix ∈ ["_Release", "_Release.gpg", "_InRelease"]) (fileBase : ByteString) :
    makeDistFilename src listsDir suffix ≠ makePackagesPlainPath fileBase := by
  have ending : str suffix ≠ [] ∧ (str suffix).length ≤ 13 ∧
      ¬ str suffix <:+ str "_dir/Packages" := by
    simp only [List.mem_cons, List.not_mem_nil, or_false] at h
    rcases h with rfl | rfl | rfl <;> decide
  obtain ⟨front, eq⟩ := joinPath_suffix listsDir
    (sanitizeForFilename (src.uri ++ str "_" ++ src.dist) ++ str suffix)
    (by simp [ending.1])
  rw [makeDistFilename, eq, ← List.append_assoc]
  exact ne_makePackagesPlainPath ending.2.1 ending.2.2 fileBase

theorem IsFileBase.packages_ne_text {listsDir fileBase : ByteString}
    (h : IsFileBase listsDir fileBase) (gz : Bool) (fileBase' : ByteString) :
    fileBase ++ packagesSuffix gz ≠ makePackagesPlainPath fileBase' := by
  obtain ⟨uri, dist, component, arch, rfl⟩ := h
  obtain ⟨front, eq⟩ := joinPath_suffix listsDir
    (sanitizeForFilename (uri ++ str "_" ++ dist ++ str "_" ++ component ++ str "_" ++
      arch) ++ str "_Packages") (by simp [str])
  rw [makePackagesFilename, eq, ← List.append_assoc, List.append_assoc]
  cases gz
  · exact ne_makePackagesPlainPath (by decide) (by decide) fileBase'
  · exact ne_makePackagesPlainPath (by decide) (by decide) fileBase'

/-! ### Steps that unpack nothing -/

/-- No extracted text is new, and no file is accepted or parsed. -/
structure Quiet (w w' : RepoWorld) : Prop where
  accepted : w'.own.accepted = w.own.accepted
  parsed : w'.own.parsed = w.own.parsed
  texts : ∀ fileBase, IsFileBase listsDir fileBase → ∀ text,
    contentAt w'.disk (host.resolve (makePackagesPlainPath fileBase)) = some text →
    contentAt w.disk (host.resolve (makePackagesPlainPath fileBase)) = some text

instance : Std.Refl (Quiet host listsDir) := ⟨fun _ => ⟨rfl, rfl, fun _ _ _ h => h⟩⟩

instance : IsTrans RepoWorld (Quiet host listsDir) :=
  ⟨fun _ _ _ h h' => ⟨h'.accepted.trans h.accepted, h'.parsed.trans h.parsed,
    fun fileBase known text found =>
      h.texts fileBase known text (h'.texts fileBase known text found)⟩⟩

variable {host listsDir}

theorem quiet_of_disk {w w' : RepoWorld} (accepted : w'.own.accepted = w.own.accepted)
    (parsed : w'.own.parsed = w.own.parsed) (disk : w'.disk = w.disk) :
    Quiet host listsDir w w' := ⟨accepted, parsed, fun _ _ _ h => disk ▸ h⟩

theorem Shrinks.quiet {w w' : RepoWorld} (h : Shrinks w.disk w'.disk) (own : w'.own = w.own) :
    Quiet host listsDir w w' := ⟨own ▸ rfl, own ▸ rfl, fun _ _ text => h _ text⟩

/-- A step that writes one file of the cache other than an extracted text. -/
theorem quiet_of_write (links : NoLinks host listsDir) {path : ByteString}
    (known : CachePath listsDir path)
    (other : ∀ fileBase, path ≠ makePackagesPlainPath fileBase) {w w' : RepoWorld}
    (own : w'.own = w.own)
    (disk : ∀ loc, loc ≠ host.resolve path → w'.disk loc = w.disk loc) :
    Quiet host listsDir w w' := by
  refine ⟨own ▸ rfl, own ▸ rfl, fun fileBase isBase text found => ?_⟩
  have apart : host.resolve (makePackagesPlainPath fileBase) ≠ host.resolve path := by
    intro same
    exact other fileBase (links known (.text isBase) same.symm)
  unfold contentAt at found ⊢
  rwa [disk _ apart] at found

theorem readFile_quiet (path : ByteString) :
    Moves (Quiet host listsDir) (readFile (ε := ε) host.toOutside path) :=
  fun _ => quiet_of_disk rfl rfl rfl

theorem writeFile_quiet (links : NoLinks host listsDir) {path : ByteString}
    (known : CachePath listsDir path)
    (other : ∀ fileBase, path ≠ makePackagesPlainPath fileBase) (text : ByteString) :
    Moves (Quiet host listsDir) (writeFile (ε := ε) host.toOutside path text) := by
  intro w
  apply quiet_of_write links known other
  · exact writeFile_keeps (ε := ε) host.toOutside path text w
  · exact fun loc apart => writeFile_disk (ε := ε) host.toOutside path text w apart

theorem downloadFile_quiet (links : NoLinks host listsDir) {dest : ByteString}
    (known : CachePath listsDir dest)
    (other : ∀ fileBase, dest ≠ makePackagesPlainPath fileBase) (url : ByteString) :
    Moves (Quiet host listsDir) (downloadFile (ε := ε) host.toOutside url dest) := by
  intro w
  apply quiet_of_write links known other
  · exact downloadFile_keeps (ε := ε) host.toOutside url dest w
  · exact fun loc apart => downloadFile_disk (ε := ε) host.toOutside url dest w apart

theorem downloadAll_quiet (links : NoLinks host listsDir) (requests : List DownloadRequest)
    (known : ∀ r ∈ requests, CachePath listsDir r.destination)
    (other : ∀ r ∈ requests, ∀ fileBase, r.destination ≠ makePackagesPlainPath fileBase) :
    Moves (Quiet host listsDir) (downloadAll (ε := ε) host.toOutside requests) := by
  induction requests with
  | nil => exact moves_pure _
  | cons r rest ih =>
    simp only [List.forall_mem_cons] at known other
    apply (downloadFile_quiet links known.1 other.1 r.url).bind
    intro _
    exact (ih known.2 other.2).bind fun _ => moves_pure _

theorem downloadFiles_quiet (links : NoLinks host listsDir) (requests : List DownloadRequest)
    (known : ∀ r ∈ requests, CachePath listsDir r.destination)
    (other : ∀ r ∈ requests, ∀ fileBase, r.destination ≠ makePackagesPlainPath fileBase) :
    Moves (Quiet host listsDir) (downloadFiles (ε := ε) host.toOutside requests) := by
  refine .ite (moves_pure _) (Moves.bind (fun _ => quiet_of_disk rfl rfl rfl) fun _ => ?_)
  exact .ite (downloadAll_quiet links requests known other) (moves_pure _)

/-! ### The Release text is fetched quietly -/

section Release

variable (links : NoLinks host listsDir) (src : RepoSource)
include links

theorem storeInRelease_quiet :
    Moves (Quiet host listsDir) (storeInRelease (ε := ε) host src listsDir) := by
  have write (suffix : String) (h : suffix ∈ ["_Release", "_Release.gpg", "_InRelease"])
      (text : ByteString) := writeFile_quiet (ε := ε) links (.dist src h)
    (makeDistFilename_ne_text listsDir src h) text
  refine (downloadFile_quiet links (.dist src (by simp))
    (makeDistFilename_ne_text listsDir src (by simp)) _).bind fun r => ?_
  cases r with
  | error _ => exact moves_pure _
  | ok _ =>
    refine (readFile_quiet _).bind fun content => ?_
    split
    · exact moves_pure _
    · refine (write "_Release" (by simp) _).bind fun _ => .ite (moves_pure _) ?_
      exact (write "_Release.gpg" (by simp) _).bind fun _ => moves_pure _

theorem fetchRelease_quiet :
    Moves (Quiet host listsDir) (fetchRelease (ε := ε) host src listsDir) := by
  have download (suffix : String) (h : suffix ∈ ["_Release", "_Release.gpg", "_InRelease"])
      (url : ByteString) := downloadFile_quiet (ε := ε) links (.dist src h)
    (makeDistFilename_ne_text listsDir src h) url
  refine (storeInRelease_quiet links src).bind fun ready => .ite (moves_pure _) ?_
  refine (download "_Release" (by simp) _).bind fun r => ?_
  cases r with
  | error _ => exact moves_pure _
  | ok _ => exact (download "_Release.gpg" (by simp) _).bind fun _ => moves_pure _

omit links in
theorem verifyRelease_quiet :
    Moves (Quiet host listsDir) (verifyRelease (ε := ε) host src listsDir) := by
  apply Moves.bind
  · exact fun _ => quiet_of_disk rfl rfl rfl
  intro r
  cases r with
  | error _ => exact moves_pure _
  | ok _ =>
    refine Moves.bind (fun w => ?_) fun _ => moves_pure _
    rw [exec_update]
    dsimp only
    split
    · exact quiet_of_disk rfl rfl rfl
    · exact quiet_of_disk rfl rfl rfl

theorem obtainRelease_quiet :
    Moves (Quiet host listsDir) (obtainRelease (ε := ε) host src listsDir) := by
  refine (fetchRelease_quiet links src).bind fun r => ?_
  cases r with
  | none => exact moves_pure _
  | some signatureReady =>
    have trusted : Moves (Quiet host listsDir)
        (releaseTrusted (ε := ε) host src listsDir signatureReady) := by
      refine .ite (moves_pure _) (.ite (moves_pure _) ?_)
      exact (verifyRelease_quiet src).bind fun _ => .ite (moves_pure _) (moves_pure _)
    refine trusted.bind fun _ => .ite ((readFile_quiet _).bind fun text => ?_) (moves_pure _)
    cases text with
    | none => exact moves_pure _
    | some _ => exact moves_pure _

end Release

/-! ### The invariant of the cache -/

/-- The file of the text matched a checksum of the text's source, under the same name. -/
def Provenance (host : Host) (listsDir : ByteString) (own : RepoOwn) (p : Parsed) : Prop :=
  ∃ a ∈ own.accepted, a.uri = p.uri ∧ a.dist = p.dist ∧
    a.fileBase listsDir = p.fileBase listsDir ∧ UnpackedFrom host a.gz a.content p.text

/-- The file is listed in its Release text. -/
def Accepted.ListedIn (host : Host) (a : Accepted) : Prop :=
  ∃ info, parseReleaseText a.release = some info ∧
    Listed host info (relName a.component a.arch a.gz) a.content

/-- Extracted texts come from accepted files of their name, and parsed ones from accepted
files of their source. -/
structure Sound (host : Host) (listsDir : ByteString) (w : RepoWorld) : Prop where
  listed : ∀ a ∈ w.own.accepted, a.ListedIn host
  texts : ∀ fileBase, IsFileBase listsDir fileBase → ∀ text,
    contentAt w.disk (host.resolve (makePackagesPlainPath fileBase)) = some text →
    ∃ a ∈ w.own.accepted, a.fileBase listsDir = fileBase ∧ UnpackedFrom host a.gz a.content text
  parsed : ∀ p ∈ w.own.parsed, Provenance host listsDir w.own p

theorem Sound.quiet {w w' : RepoWorld} (h : Sound host listsDir w)
    (step : Quiet host listsDir w w') : Sound host listsDir w' := by
  constructor
  · rw [step.accepted]
    exact h.listed
  · intro fileBase known text found
    rw [step.accepted]
    exact h.texts fileBase known text (step.texts fileBase known text found)
  · intro p mem
    rw [step.parsed] at mem
    unfold Provenance
    rw [step.accepted]
    exact h.parsed p mem

/-- Unpacking a file of the cache, once its bytes are accepted under the name. -/
theorem Sound.unpack (links : NoLinks host listsDir) {fileBase path : ByteString} {gz : Bool}
    (known : IsFileBase listsDir fileBase) {w w' : RepoWorld} (h : Sound host listsDir w)
    (own : w'.own = w.own)
    (unpacked : UnpackedTo host gz (host.resolve path)
      (host.resolve (makePackagesPlainPath fileBase)) w.disk w'.disk)
    (accepted : ∀ content, contentAt w.disk (host.resolve path) = some content →
      ∃ a ∈ w.own.accepted, a.fileBase listsDir = fileBase ∧ a.gz = gz ∧ a.content = content) :
    Sound host listsDir w' := by
  constructor
  · rw [own]
    exact h.listed
  · intro fileBase' known' text found
    rw [own]
    rcases unpacked _ text found with old | ⟨same, content, source, from_content⟩
    · exact h.texts fileBase' known' text old
    · obtain ⟨a, mem, base, rfl, rfl⟩ := accepted content source
      have : fileBase' = fileBase :=
        makePackagesPlainPath_inj (links (.text known') (.text known) same)
      exact ⟨a, mem, base.trans this.symm, from_content⟩
  · rw [own]
    exact h.parsed

/-! ### Updates keep the invariant -/

/-- The plan's files are those of its component. -/
structure PlannedFor (listsDir : ByteString) (src : RepoSource) (arch : ByteString)
    (plan : PackagesDownload) : Prop where
  fileBase : plan.fileBase = makePackagesFilename src.uri src.dist plan.component arch listsDir
  destination : ∀ gz, (plan.request gz).destination = plan.fileBase ++ packagesSuffix gz

theorem PlannedFor.isFileBase {src : RepoSource} {arch : ByteString} {plan : PackagesDownload}
    (h : PlannedFor listsDir src arch plan) : IsFileBase listsDir plan.fileBase :=
  ⟨_, _, _, _, h.fileBase⟩

theorem planDownload_planned (src : RepoSource) (arch component : ByteString) :
    PlannedFor listsDir src arch (planDownload src arch listsDir component) := by
  constructor
  · rfl
  · intro gz
    cases gz
    · exact (List.append_nil _).symm
    · rfl

theorem Tried.planned {src : RepoSource} {arch : ByteString} {release : Release} {gz : Bool}
    {plan plan' : PackagesDownload} {w w' : RepoWorld}
    (h : Tried host src arch release gz plan w plan' w')
    (planned : PlannedFor listsDir src arch plan) : PlannedFor listsDir src arch plan' := by
  cases h with
  | rejected => exact planned
  | accepted _ _ _ _ _ built =>
    obtain rfl | rfl := built
    · exact planned
    · exact ⟨planned.fileBase, planned.destination⟩

theorem Tried.sound (links : NoLinks host listsDir) {src : RepoSource} {arch : ByteString}
    {release : Release} (parsed : parseReleaseText release.text = some release.info) {gz : Bool}
    {plan plan' : PackagesDownload} {w w' : RepoWorld}
    (tried : Tried host src arch release gz plan w plan' w')
    (planned : PlannedFor listsDir src arch plan) (h : Sound host listsDir w) :
    Sound host listsDir w' := by
  cases tried with
  | rejected disk own => exact h.quiet (quiet_of_disk (own ▸ rfl) (own ▸ rfl) disk)
  | accepted content found listed own unpacked =>
    -- The world in which the file is accepted and not yet unpacked.
    have recorded : Sound host listsDir { w with own := w'.own } := by
      rw [own]
      constructor
      · rintro a mem
        rcases List.mem_append.mp mem with old | new
        · exact h.listed a old
        · obtain rfl := List.mem_singleton.mp new
          exact ⟨release.info, parsed, listed⟩
      · intro fileBase known text there
        obtain ⟨a, mem, from_a⟩ := h.texts fileBase known text there
        exact ⟨a, List.mem_append_left _ mem, from_a⟩
      · intro p mem
        obtain ⟨a, mem_a, from_a⟩ := h.parsed p mem
        exact ⟨a, List.mem_append_left _ mem_a, from_a⟩
    refine recorded.unpack links planned.isFileBase rfl unpacked fun content' found' => ?_
    obtain rfl : content = content' := Option.some.inj (found.symm.trans found')
    rw [own]
    exact ⟨_, List.mem_append_right _ (List.mem_singleton_self _), planned.fileBase.symm, rfl, rfl⟩

theorem downloadPackages_sound (links : NoLinks host listsDir) (src : RepoSource)
    (arch : ByteString) (release : Release)
    (parsed : parseReleaseText release.text = some release.info) (gz : Bool)
    (plans : List PackagesDownload) (planned : ∀ plan ∈ plans, PlannedFor listsDir src arch plan)
    (w : RepoWorld) (h : Sound host listsDir w) :
    wp (downloadPackages (ε := ε) host src arch release gz plans)
      (fun plans' w' => (∀ plan ∈ plans', PlannedFor listsDir src arch plan) ∧
        Sound host listsDir w')
      (fun _ w' => Sound host listsDir w') w := by
  have quiet : Moves (Quiet host listsDir)
      (downloadFiles (ε := ε) host.toOutside (plans.map (·.request gz))) := by
    apply downloadFiles_quiet links
    · intro r requested
      obtain ⟨plan, mem, rfl⟩ := List.mem_map.mp requested
      rw [(planned plan mem).destination]
      exact .packages (planned plan mem).isFileBase gz
    · intro r requested
      obtain ⟨plan, mem, rfl⟩ := List.mem_map.mp requested
      rw [(planned plan mem).destination]
      exact (planned plan mem).isFileBase.packages_ne_text gz
  refine wp_bind.mpr (wp_mono (quiet.wp w) (fun results w₁ step => ?_)
    fun _ w₁ step => h.quiet step)
  refine wp_forEach (fun done (w' : RepoWorld) =>
    (∀ plan ∈ done, PlannedFor listsDir src arch plan) ∧ Sound host listsDir w')
    (fun x mem done w₂ inv => ?_) ⟨by simp, h.quiet step⟩
  obtain ⟨donePlanned, sound⟩ := inv
  have given : PlannedFor listsDir src arch x.1 := planned x.1 (List.of_mem_zip mem).1
  have add (last : PackagesDownload) (h : PlannedFor listsDir src arch last) :
      ∀ plan ∈ done ++ [last], PlannedFor listsDir src arch plan :=
    List.forall_mem_append.mpr ⟨donePlanned, List.forall_mem_singleton.mpr h⟩
  refine wp_ite.mpr ⟨fun _ => wp_bind.mpr ?_, fun _ => ⟨add x.1 given, sound⟩⟩
  refine wp_mono (tryPackages_spec host src arch release gz x.1 w₂)
    (fun plan w₃ tried => ?_) fun _ _ h => h.elim
  exact ⟨add plan (tried.planned given), tried.sound links parsed given sound⟩

theorem updateComponents_sound (links : NoLinks host listsDir) (src : RepoSource)
    (arch : ByteString) (release : Release)
    (parsed : parseReleaseText release.text = some release.info) (w : RepoWorld)
    (h : Sound host listsDir w) :
    wp (updateComponents (ε := ε) host src arch listsDir release)
      (fun _ w' => Sound host listsDir w') (fun _ w' => Sound host listsDir w') w := by
  refine wp_bind.mpr (wp_mono
    (downloadPackages_sound links src arch release parsed true _ ?_ w h)
    (fun plans w₁ h₁ => ?_) fun _ _ h => h)
  · intro plan mem
    obtain ⟨component, _, rfl⟩ := List.mem_map.mp mem
    exact planDownload_planned src arch component
  refine wp_bind.mpr (wp_mono
    (downloadPackages_sound links src arch release parsed false _ ?_ w₁ h₁.2)
    (fun retried w₂ h₂ => h₂.2) fun _ _ h => h)
  intro plan mem
  exact h₁.1 plan (List.mem_of_mem_filter mem)

theorem updateSource_sound (links : NoLinks host listsDir) (defaultArch : ByteString)
    (src : RepoSource) (counted : List Counted) (w : RepoWorld) (h : Sound host listsDir w) :
    wp (updateSource (ε := ε) host listsDir defaultArch src counted)
      (fun _ w' => Sound host listsDir w') (fun _ w' => Sound host listsDir w') w := by
  refine wp_bind.mpr (wp_mono (wp_and (obtainRelease_spec host src listsDir w)
    ((obtainRelease_quiet links src).wp w)) (fun r w₁ h₁ => ?_) fun _ _ h₁ => h.quiet h₁.2)
  obtain ⟨⟨-, obtained⟩, step⟩ := h₁
  cases r with
  | none => exact h.quiet step
  | some release =>
    exact wp_bind.mpr (updateComponents_sound links src _ release (obtained release rfl).1 w₁
      (h.quiet step))

theorem updateFromSourcesList_sound (links : NoLinks host listsDir) (sourcesPath : ByteString)
    (sources : Except ByteString (List RepoSource)) (defaultArch : ByteString) (w : RepoWorld)
    (h : Sound host listsDir w) :
    wp (updateFromSourcesList host sourcesPath sources listsDir defaultArch)
      (fun _ w' => Sound host listsDir w') (fun _ w' => Sound host listsDir w') w := by
  cases sources with
  | error _ => exact h
  | ok sources =>
    refine wp_ite.mpr ⟨fun _ => h, fun _ => wp_bind.mpr ?_⟩
    refine wp_mono (createDirs_spec host listsDir w) (fun created w₁ step => ?_)
      fun _ _ h => h.elim
    have h₁ : Sound host listsDir w₁ := h.quiet (step.2.quiet step.1)
    refine wp_ite.mpr ⟨fun _ => h₁, fun _ => wp_bind.mpr ?_⟩
    refine wp_mono (wp_forEach (fun _ w' => Sound host listsDir w')
      (fun src _ counted w₂ h₂ => updateSource_sound links defaultArch src counted w₂ h₂) h₁)
      (fun counted w₂ h₂ => ?_) fun _ _ h => h
    exact wp_ite.mpr ⟨fun _ => h₂, fun _ => h₂⟩

/-! ### Loads keep the invariant -/

/-- The bytes of the file left behind, if there is one, were accepted under its name. -/
def CandidateAccepted (host : Host) (listsDir fileBase : ByteString) (gz : Bool)
    (w : RepoWorld) : Prop :=
  ∀ content, contentAt w.disk (host.resolve (fileBase ++ packagesSuffix gz)) = some content →
    ∃ a ∈ w.own.accepted, a.fileBase listsDir = fileBase ∧ a.gz = gz ∧ a.content = content

/-- What a load may find when it starts a component: files of the component's name were
accepted for its source only, and where there is no extracted text, each file left behind
that is tried was accepted as it is. -/
structure TurnSafe (host : Host) (listsDir defaultArch : ByteString)
    (x : RepoSource × ByteString) (w : RepoWorld) : Prop where
  source : ∀ a ∈ w.own.accepted, a.fileBase listsDir =
      makePackagesFilename x.1.uri x.1.dist x.2 (resolveRepoArch x.1 defaultArch) listsDir →
    a.uri = x.1.uri ∧ a.dist = x.1.dist
  candidates : ∀ fileBase, fileBase =
      makePackagesFilename x.1.uri x.1.dist x.2 (resolveRepoArch x.1 defaultArch) listsDir →
    w.node host.toOutside (makePackagesPlainPath fileBase) = none →
    ∀ gz w', Starts (tryCandidate (ε := ByteString) host fileBase) [true, false] none w gz none w' →
      CandidateAccepted host listsDir fileBase gz w'

/-- What a search for the Packages file of a component has found. -/
def FoundSound (host : Host) (listsDir fileBase : ByteString) (own : RepoOwn)
    (found : Option ByteString) (w : RepoWorld) : Prop :=
  w.own = own ∧ Sound host listsDir w ∧ ∀ path, found = some path →
    path = makePackagesPlainPath fileBase ∨
      path = fileBase ++ packagesSuffix false ∧ CandidateAccepted host listsDir fileBase false w

theorem tryCandidate_sound (links : NoLinks host listsDir) {fileBase : ByteString}
    (known : IsFileBase listsDir fileBase) {own : RepoOwn} (gz : Bool) {w : RepoWorld}
    (accepted : CandidateAccepted host listsDir fileBase gz w)
    (h : FoundSound host listsDir fileBase own none w) :
    wp (tryCandidate (ε := ε) host fileBase gz none)
      (FoundSound host listsDir fileBase own) (fun _ _ => False) w := by
  obtain ⟨own_eq, sound, -⟩ := h
  refine wp_bind.mpr (wp_ite.mpr ⟨fun _ => wp_bind.mpr ?_, fun _ => ⟨own_eq, sound, by simp⟩⟩)
  refine wp_mono (preparePackagesTextFile_spec host fileBase _ gz w)
    (fun unpacked w₁ h => ?_) fun _ _ h => h
  obtain ⟨own₁, -, unpackedTo⟩ := h
  have sound₁ : Sound host listsDir w₁ := sound.unpack links known own₁ unpackedTo accepted
  cases unpacked with
  | some _ => exact ⟨own₁.trans own_eq, sound₁, by simp⟩
  | none =>
    refine ⟨own₁.trans own_eq, sound₁, fun path found => ?_⟩
    cases gz with
    | true => cases found
    | false =>
      refine .inr ⟨(Option.some.inj found).symm, fun content there => ?_⟩
      rw [own₁]
      rcases unpackedTo _ _ there with old | ⟨same, -⟩
      · exact accepted content old
      · exact absurd (links (.packages known false) (.text known) same)
          (known.packages_ne_text false fileBase)

theorem findPackagesFile_sound (links : NoLinks host listsDir) {defaultArch : ByteString}
    {x : RepoSource × ByteString} {fileBase : ByteString}
    (base : fileBase =
      makePackagesFilename x.1.uri x.1.dist x.2 (resolveRepoArch x.1 defaultArch) listsDir)
    {w : RepoWorld} (safe : TurnSafe host listsDir defaultArch x w)
    (h : Sound host listsDir w) :
    wp (findPackagesFile (ε := ByteString) host fileBase)
      (FoundSound host listsDir fileBase w.own) (fun _ _ => False) w := by
  have known : IsFileBase listsDir fileBase := ⟨_, _, _, _, base⟩
  refine wp_bind.mpr (wp_ite.mpr ⟨fun _ => ⟨rfl, h, by simp⟩, fun absent => ?_⟩)
  have missing : w.node host.toOutside (makePackagesPlainPath fileBase) = none := by
    have nonempty : (makePackagesPlainPath fileBase).isEmpty = false := by
      simp [makePackagesPlainPath_eq, str]
    simpa [nonempty] using absent
  apply wp_forEach_starts (FoundSound host listsDir fileBase w.own)
  · intro gz found w₁ starts inv
    cases found with
    | some path => exact inv
    | none =>
      have accepted := safe.candidates fileBase base missing gz w₁ starts
      exact tryCandidate_sound links known gz accepted inv
  · exact ⟨rfl, h, by simp⟩

theorem loadComponent_sound (links : NoLinks host listsDir) {defaultArch : ByteString}
    {x : RepoSource × ByteString} (out : RepoIndexList) {w : RepoWorld}
    (safe : TurnSafe host listsDir defaultArch x w) (h : Sound host listsDir w) :
    wp (loadComponent (ε := ByteString) host listsDir defaultArch x out)
      (fun _ w' => Sound host listsDir w') (fun _ _ => False) w := by
  refine wp_bind.mpr (wp_mono (findPackagesFile_sound links rfl safe h)
    (fun found w₁ inv => ?_) fun _ _ h => h)
  obtain ⟨own, sound, file⟩ := inv
  cases found with
  | none => exact sound
  | some path =>
    refine wp_bind.mpr (wp_update.mpr ?_)
    cases read : w₁.read host.toOutside path with
    | none => exact sound.quiet (quiet_of_disk rfl rfl rfl)
    | some text =>
      have content := read_eq_some host.toOutside read
      have from_accepted : ∃ a ∈ w₁.own.accepted, a.fileBase listsDir =
          makePackagesFilename x.1.uri x.1.dist x.2 (resolveRepoArch x.1 defaultArch) listsDir ∧
          UnpackedFrom host a.gz a.content text := by
        rcases file path rfl with rfl | ⟨rfl, accepted⟩
        · exact sound.texts _ ⟨_, _, _, _, rfl⟩ text content
        · obtain ⟨a, mem, base, plain, rfl⟩ := accepted text content
          exact ⟨a, mem, base, plain ▸ List.prefix_refl _⟩
      obtain ⟨a, mem, base, unpacked⟩ := from_accepted
      obtain ⟨uri, dist⟩ := safe.source a (own ▸ mem) base
      refine ⟨sound.listed, sound.texts, fun p parsed => ?_⟩
      rcases List.mem_append.mp parsed with old | new
      · exact sound.parsed p old
      · obtain rfl := List.mem_singleton.mp new
        exact ⟨a, mem, uri, dist, base, unpacked⟩

/-! ### Runs -/

/-- Every load of the run finds each component as it may. -/
def LoadsSafe (host : Host) (listsDir : ByteString) (ops : List CacheOp) (w : RepoWorld) : Prop :=
  ∀ sources defaultArch t,
    Starts (CacheOp.perform host listsDir) ops () w (.load (.ok sources) defaultArch) () t →
    ∀ x out t', Starts (loadComponent (ε := ByteString) host listsDir defaultArch)
      (componentTurns sources) [] t x out t' → TurnSafe host listsDir defaultArch x t'

/-- No index was updated or loaded yet. -/
structure FirstUse (host : Host) (listsDir : ByteString) (w : RepoWorld) : Prop where
  own : w.own = {}
  texts : ∀ fileBase, IsFileBase listsDir fileBase →
    contentAt w.disk (host.resolve (makePackagesPlainPath fileBase)) = none

theorem FirstUse.sound {w : RepoWorld} (h : FirstUse host listsDir w) :
    Sound host listsDir w := by
  constructor
  · simp [h.own]
  · intro fileBase known text found
    simp [h.texts fileBase known] at found
  · simp [h.own]

theorem runCache_sound (links : NoLinks host listsDir) (ops : List CacheOp) (w : RepoWorld)
    (start : FirstUse host listsDir w) (safe : LoadsSafe host listsDir ops w) :
    wp (runCache host listsDir ops) (fun _ w' => Sound host listsDir w') (fun _ _ => False) w := by
  apply wp_forEach_starts (fun _ w' => Sound host listsDir w')
  · intro op _ t starts sound
    cases op with
    | update sourcesPath sources defaultArch =>
      refine wp_bind.mpr (wp_attempt.mpr ?_)
      exact updateFromSourcesList_sound links sourcesPath sources defaultArch t sound
    | load sources defaultArch =>
      refine wp_bind.mpr (wp_attempt.mpr ?_)
      cases sources with
      | error _ => exact sound
      | ok sources =>
        refine wp_bind.mpr (wp_mono (wp_forEach_starts (fun _ w' => Sound host listsDir w')
          (fun x out t' turn h => ?_) sound) (fun out t' h => ?_) fun _ _ h => h)
        · exact wp_mono (loadComponent_sound links out (safe sources defaultArch t starts x out
            t' turn) h) (fun _ _ h => h) fun _ _ h => h.elim
        · exact wp_ite.mpr ⟨fun _ => h, fun _ => h⟩
  · exact start.sound

def hexOf (content : ByteString) : ByteString :=
  content.flatMap fun c => [hexDigit (c.toNat / 16), hexDigit (c.toNat % 16)]

/-- A file that the stand-in for zlib inflates to the text. -/
def gzip (text : ByteString) : ByteString := 0x1F :: 0x8B :: text

/-- A mirror with a signed Release text that lists one Packages.gz file, and the Packages.gz
file that it sends. -/
def mirror (packages : ByteString) : Host where
  resolve := id
  ok _ := true
  write _ := .written
  download
    | 2 => .received (str "SHA256:\n " ++ hexOf (gzip (str "Package: app")) ++
        str " 14 main/binary-arm64/Packages.gz\n")
    | 3 => .received (str "signature")
    | 7 => .received packages
    | _ => .refused
  message _ := []
  sha256 := hexOf
  md5 := hexOf
  signature _ _ sig := if sig = str "signature" then some (str "key") else none
  inflate
    | 0x1F :: 0x8B :: text => (text, true)
    | _ => ([], false)
  unpack _ := .stored 1000 true
  inside _ _ := false
  swept _ _ := false

def mirrorSource : RepoSource where
  uri := str "http://r"
  dist := str "s"
  components := [str "main"]
  trustPolicy := .Require

def mirrorUpdate : CacheOp := .update (str "/sources.list") (.ok [mirrorSource]) (str "arm64")

def mirrorLoad : CacheOp := .load (.ok [mirrorSource]) (str "arm64")

def newCache : RepoWorld := { disk := fun _ => none, clock := 0, own := {} }

theorem newCache_firstUse (packages : ByteString) :
    FirstUse (mirror packages) (str "/l") newCache := ⟨rfl, fun _ _ => rfl⟩

theorem mirror_noLinks (packages : ByteString) : NoLinks (mirror packages) (str "/l") :=
  fun _ _ _ _ h => h

/-- The cache after an update from the honest mirror. -/
def updatedCache : RepoWorld :=
  (exec (mirrorUpdate.perform (mirror (gzip (str "Package: app"))) (str "/l") ()) newCache).2

theorem updatedCache_accepted : updatedCache.own.accepted = [{
    uri := str "http://r", dist := str "s", component := str "main", arch := str "arm64",
    release := str "SHA256:\n " ++ hexOf (gzip (str "Package: app")) ++
      str " 14 main/binary-arm64/Packages.gz\n",
    gz := true, content := gzip (str "Package: app") }] := by decide +kernel

theorem updatedCache_text : updatedCache.node (mirror (gzip (str "Package: app"))).toOutside
    (makePackagesPlainPath (makePackagesFilename (str "http://r") (str "s") (str "main")
      (str "arm64") (str "/l"))) = some (.file (str "Package: app")) := by decide +kernel

/-- The load after an update from the honest mirror finds what it may. -/
theorem honest_loadsSafe :
    LoadsSafe (mirror (gzip (str "Package: app"))) (str "/l") [mirrorUpdate, mirrorLoad]
      newCache := by
  intro sources defaultArch t starts x out t' turn
  have start : t = updatedCache ∧ sources = [mirrorSource] ∧ defaultArch = str "arm64" := by
    cases starts with
    | later run rest =>
      cases rest with
      | here => exact ⟨(congrArg Prod.snd run).symm, rfl, rfl⟩
      | later _ rest => nomatch rest
  obtain ⟨rfl, rfl, rfl⟩ := start
  have first : x = (mirrorSource, str "main") ∧ t' = updatedCache := by
    cases turn with
    | here => exact ⟨rfl, rfl⟩
    | later _ rest => nomatch rest
  obtain ⟨rfl, rfl⟩ := first
  constructor
  · intro a mem _
    rw [updatedCache_accepted] at mem
    obtain rfl := List.mem_singleton.mp mem
    exact ⟨rfl, rfl⟩
  · rintro fileBase rfl missing
    cases updatedCache_text.symm.trans missing

end Apm.Repo
