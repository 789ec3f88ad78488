import Apm.Core.RepoCache
import Apm.Install.Upgrade
import Mathlib.Data.List.Find

/-!
The three searches for the entry of a name: that of `upgradePackages`, that of `installWithDeps`,
and the one behind an info request (`buildRepoLookupMaps` of `src/apmd/ipc_server.cpp`).

An entry of a name may stand in several indices, so each search is also given with the index that it
finds the entry in.

## Main results

* `candidates_agree_iff`: in indices that were loaded, the three searches find the same entry for a
  name just when the first entry of the name in all indices is the one an installation prefers.
-/

namespace Apm.Install

open Apm.Repo Apm.Lib Apm.Lib.Assoc Apm.Lib.Effect

/-! ### The searches -/

/-- The map of `buildRepoLookupMaps` that info requests use. -/
def packageByName (repoIndices : RepoIndexList) : Candidates :=
  repoIndices.foldl (fun m idx => addCandidates (fun _ => true) idx.packages m) ∅

/-- The candidate that an info request shows. -/
def infoCandidate (repoIndices : RepoIndexList) (name : ByteString) : Option PackageEntry :=
  (packageByName repoIndices).lookup name

/-- An entry and the index it stands in. -/
abbrev Located := RepoIndex × PackageEntry

/-- The entries of a name in one index. -/
def RepoIndex.named (idx : RepoIndex) (name : ByteString) : PackageList :=
  idx.packages.filter (·.packageName == name)

/-- The entries of a name, index by index. -/
def entriesOf (repoIndices : RepoIndexList) (name : ByteString) : List Located :=
  repoIndices.flatMap fun idx => (RepoIndex.named idx name).map (idx, ·)

variable (repoIndices : RepoIndexList) (name : ByteString)

/-- Where an info request finds its candidate. -/
def infoEntry : Option Located := (entriesOf repoIndices name).head?

/-- Where the resolver finds the entry it selects. -/
def installEntry (termux : Bool) : Option Located :=
  let entries := entriesOf repoIndices name
  let arch := determineRepoArch repoIndices
  if termux then entries.find? fun x => isTermuxIndex x.1
  else
    (entries.find? fun x => !isTermuxIndex x.1 && x.2.architecture == arch).or
      (entries.find? fun x => !isTermuxIndex x.1 && x.2.architecture == str "all")

/-- The Debian candidate of one index. -/
def indexEntry (arch : ByteString) (idx : RepoIndex) : Option PackageEntry :=
  if isTermuxIndex idx then none
  else
    ((RepoIndex.named idx name).find? (·.architecture == arch)).or
      ((RepoIndex.named idx name).find? (·.architecture == str "all"))

/-- Where an upgrade finds its candidate. -/
def upgradeEntry (termux : Bool) : Option Located :=
  if termux then
    (entriesOf repoIndices name).find? fun x => isTermuxIndex x.1 && x.2.isTermuxPackage
  else
    repoIndices.findSome? fun idx =>
      (indexEntry name (determineRepoArch repoIndices) idx).map (idx, ·)

/-! ### Loaded indices -/

/-- The index is read from a Packages file of a source. -/
def Loaded (idx : RepoIndex) : Prop :=
  ∃ src component arch pkgFile content, idx = makeRepoIndex src component arch pkgFile content

variable {repoIndices} {name} {idx : RepoIndex} {pkg : PackageEntry}

theorem Loaded.named (h : Loaded idx) (listed : pkg ∈ idx.packages) : pkg.packageName ≠ [] := by
  obtain ⟨src, component, arch, pkgFile, content, rfl⟩ := h
  obtain ⟨read, mem, rfl⟩ := List.mem_map.mp listed
  obtain ⟨fields, _, isRead⟩ := List.mem_filterMap.mp mem
  unfold readPackage at isRead
  dsimp only at isRead
  split at isRead
  · cases isRead
  · rename_i nonempty
    cases isRead
    simpa using nonempty

/-- An entry for Termux makes the index one. -/
theorem Loaded.termux (h : Loaded idx) (listed : pkg ∈ idx.packages)
    (flagged : pkg.isTermuxPackage = true) : isTermuxIndex idx = true := by
  obtain ⟨src, component, arch, pkgFile, content, rfl⟩ := h
  have some : (markPackages src component (parsePackagesString content)).any (·.isTermuxPackage) :=
    List.any_eq_true.mpr ⟨pkg, listed, flagged⟩
  simp [isTermuxIndex, makeRepoIndex, some]

theorem Loaded.mergeEntry (h : Loaded idx) (listed : pkg ∈ idx.packages) :
    (mergeEntry idx pkg).isTermuxPackage = isTermuxIndex idx := by
  unfold Install.mergeEntry
  split
  · rename_i termux
    exact termux.symm
  · rename_i debian
    cases flagged : pkg.isTermuxPackage with
    | false => simpa using debian
    | true => exact absurd (h.termux listed flagged) debian

/-- Every index that is loaded is read from a file. -/
theorem load_loaded (host : Host) (listsDir : ByteString)
    (sources : Except ByteString (List RepoSource)) (defaultArch : ByteString) (w : RepoWorld) :
    wp (loadRepoIndicesFromCache host listsDir sources defaultArch)
      (fun repoIndices _ => ∀ idx ∈ repoIndices, Loaded idx) (fun _ _ => True) w := by
  unfold loadRepoIndicesFromCache
  cases sources with
  | error errorMsg => trivial
  | ok sources =>
    apply wp_bind.mpr
    apply wp_mono (Q := fun out _ => ∀ idx ∈ out, Loaded idx) (E := fun _ _ => True)
    · apply wp_forEach (fun out _ => ∀ idx ∈ out, Loaded idx)
      · intro x _ out w loaded
        unfold loadComponent
        apply wp_bind_of_forall
        · intro found w
          cases found with
          | none => exact loaded
          | some pkgFile =>
            apply wp_bind_of_forall
            · intro content w
              cases content with
              | none => exact loaded
              | some content =>
                apply wp_bind.mpr
                intro idx mem
                rcases List.mem_append.mp mem with mem | mem
                · exact loaded idx mem
                · rw [List.mem_singleton.mp mem]
                  exact ⟨_, _, _, _, _, rfl⟩
            · intro _ _
              trivial
        · intro _ _
          trivial
      · simp
    · intro out _ loaded
      apply wp_ite.mpr
      exact ⟨fun _ => trivial, fun _ => loaded⟩
    · intro _ _ _
      trivial

/-! ### What the searches find -/

section Found

variable (loaded : ∀ idx ∈ repoIndices, Loaded idx)

theorem entriesOf_cons (idx : RepoIndex) (rest : RepoIndexList) (name : ByteString) :
    entriesOf (idx :: rest) name =
      (RepoIndex.named idx name).map (idx, ·) ++ entriesOf rest name := rfl

theorem lookup_addCandidates (h : Loaded idx) (name : ByteString) (keep : PackageEntry → Bool)
    (m : Candidates) :
    (addCandidates keep idx.packages m).lookup name =
      (m.lookup name).or ((RepoIndex.named idx name).find? keep) := by
  have find : idx.packages.find? (fun p => (keep p && !p.packageName.isEmpty) &&
        p.packageName == name) = (RepoIndex.named idx name).find? keep := by
    rw [RepoIndex.named, List.find?_filter]
    apply List.find?_congr
    intro p listed
    have nonempty : p.packageName.isEmpty = false := by simpa using h.named listed
    rw [nonempty]
    cases (p.packageName == name) <;> simp
  rw [addCandidates, lookup_foldl_emplace, find]

/-- A pass over all indices keeps the first entry it may use. -/
theorem lookup_foldl_addCandidates (name : ByteString) (use : RepoIndex → Bool)
    (keep : PackageEntry → Bool) (loaded : ∀ idx ∈ repoIndices, Loaded idx) (m : Candidates) :
    (repoIndices.foldl (fun m idx => if use idx then addCandidates keep idx.packages m else m)
        m).lookup name =
      (m.lookup name).or
        (((entriesOf repoIndices name).find? fun x => use x.1 && keep x.2).map (·.2)) := by
  induction repoIndices generalizing m with
  | nil => simp [entriesOf]
  | cons idx rest ih =>
    obtain ⟨first, others⟩ := List.forall_mem_cons.mp loaded
    rw [List.foldl_cons, ih others, entriesOf_cons, List.find?_append, List.find?_map,
      Option.map_or, ← Option.or_assoc]
    congr 1
    cases used : use idx with
    | false =>
      have none : (RepoIndex.named idx name).find?
          ((fun x : Located => use x.1 && keep x.2) ∘ fun p => (idx, p)) = none := by
        simp [List.find?_eq_none, used]
      rw [if_neg Bool.false_ne_true, none]
      simp
    | true =>
      have same : ((fun x : Located => use x.1 && keep x.2) ∘ fun p => (idx, p)) = keep := by
        funext p
        simp [used]
      rw [if_pos rfl, lookup_addCandidates first, same, Option.map_map]
      simp [Function.comp_def]

include loaded

theorem infoCandidate_eq :
    infoCandidate repoIndices name = (infoEntry repoIndices name).map (·.2) := by
  have found := lookup_foldl_addCandidates name (fun _ => true) (fun _ => true) loaded ∅
  simp only [if_true, Bool.and_true, AList.lookup_empty, Option.none_or] at found
  rw [infoCandidate, packageByName, found, infoEntry]
  cases entriesOf repoIndices name <;> simp

omit loaded in
/-- The first entry of the architecture, else the first one for `all`: also if the two are kept
apart. -/
theorem find?_arch_or_all (arch : ByteString) (entries : PackageList) :
    (entries.find? (·.architecture == arch)).or
        (entries.find? fun p => p.architecture != arch && p.architecture == str "all") =
      (entries.find? (·.architecture == arch)).or
        (entries.find? (·.architecture == str "all")) := by
  cases exact : entries.find? (·.architecture == arch) with
  | some pkg => rfl
  | none =>
    rw [Option.none_or, Option.none_or]
    apply List.find?_congr
    intro p mem
    have other : ¬ p.architecture = arch := by
      simpa using List.find?_eq_none.mp exact p mem
    simp [bne, other]

omit loaded in
theorem determineRepoArch_ne_nil (repoIndices : RepoIndexList) :
    determineRepoArch repoIndices ≠ [] := by
  have default : Config.getDefaultArch ≠ [] := by decide
  unfold determineRepoArch
  split
  · exact default
  · rename_i detected rest archs
    split
    · have mem : detected ∈ (repoIndices.map (·.arch)).filter (!·.isEmpty) := by simp [archs]
      simpa using (List.mem_filter.mp mem).2
    · exact default

omit loaded in
theorem lookup_addDebCandidates (h : Loaded idx) {arch : ByteString} (given : arch ≠ [])
    (m : Candidates) :
    (addDebCandidates arch m idx).lookup name =
      (m.lookup name).or (indexEntry name arch idx) := by
  unfold addDebCandidates indexEntry
  split
  · simp
  · have nonempty : arch.isEmpty = false := by simpa using given
    rw [nonempty, if_neg Bool.false_ne_true]
    dsimp only
    rw [lookup_foldl_emplace_entries, lookup_foldl_emplace_entries, Option.or_assoc]
    congr 1
    rw [← find?_arch_or_all]
    have exact := lookup_addCandidates h name (·.architecture == arch) ∅
    have forAll := lookup_addCandidates h name
      (fun p => p.architecture != arch && p.architecture == str "all") ∅
    rw [AList.lookup_empty, Option.none_or] at exact forAll
    rw [← exact, ← forAll]
    rfl

theorem findCandidate_eq (termux : Bool) :
    findCandidate repoIndices name termux = (upgradeEntry repoIndices name termux).map (·.2) := by
  cases termux with
  | true =>
    have found := lookup_foldl_addCandidates name isTermuxIndex (·.isTermuxPackage) loaded ∅
    rw [AList.lookup_empty, Option.none_or] at found
    exact found
  | false =>
    have given := determineRepoArch_ne_nil repoIndices
    show (repoIndices.foldl (addDebCandidates (determineRepoArch repoIndices)) ∅).lookup name =
      (repoIndices.findSome? fun idx =>
        (indexEntry name (determineRepoArch repoIndices) idx).map (idx, ·)).map (·.2)
    generalize determineRepoArch repoIndices = arch at given
    suffices pass : ∀ m : Candidates, (repoIndices.foldl (addDebCandidates arch) m).lookup name =
        (m.lookup name).or
          ((repoIndices.findSome? fun idx => (indexEntry name arch idx).map (idx, ·)).map (·.2)) by
      rw [pass, AList.lookup_empty, Option.none_or]
    induction repoIndices with
    | nil => simp
    | cons idx rest ih =>
      intro m
      obtain ⟨first, others⟩ := List.forall_mem_cons.mp loaded
      rw [List.foldl_cons, ih others, lookup_addDebCandidates first given, Option.or_assoc,
        List.findSome?_cons]
      congr 1
      cases indexEntry name arch idx <;> simp

/-- The merged list has a copy of each entry. -/
theorem find?_resolverPackages (name : ByteString) (termux : Bool) (keep : PackageEntry → Bool)
    (same : ∀ idx pkg, keep (mergeEntry idx pkg) = keep pkg) :
    ((resolverPackages repoIndices termux).find? fun p => p.packageName == name && keep p) =
      ((entriesOf repoIndices name).find? fun x => isTermuxIndex x.1 == termux && keep x.2).map
        fun x => mergeEntry x.1 x.2 := by
  rw [resolverPackages, List.find?_filter, mergeIndices]
  induction repoIndices with
  | nil => rfl
  | cons idx rest ih =>
    obtain ⟨first, others⟩ := List.forall_mem_cons.mp loaded
    rw [List.flatMap_cons, List.find?_append, ih others, entriesOf_cons, List.find?_append,
      Option.map_or, List.find?_map, List.find?_map, RepoIndex.named, List.find?_filter,
      Option.map_map]
    congr 1
    show (idx.packages.find? _).map (mergeEntry idx) = (idx.packages.find? _).map (mergeEntry idx)
    congr 1
    apply List.find?_congr
    intro p listed
    have named : (mergeEntry idx p).packageName = p.packageName := by
      unfold mergeEntry
      split <;> rfl
    simp only [Function.comp_apply, first.mergeEntry listed, named, same]
    cases (p.packageName == name) <;> simp

theorem entriesOf_empty : entriesOf repoIndices [] = [] := by
  apply List.flatMap_eq_nil_iff.mpr
  intro idx inside
  rw [RepoIndex.named, List.map_eq_nil_iff, List.filter_eq_nil_iff]
  intro pkg listed
  simpa using (loaded idx inside).named listed

theorem selectEntry_eq (termux : Bool) :
    selectEntry repoIndices termux name =
      (installEntry repoIndices name termux).map fun x => mergeEntry x.1 x.2 := by
  have architecture : ∀ idx pkg, (mergeEntry idx pkg).architecture = pkg.architecture := by
    intro idx pkg
    unfold mergeEntry
    split <;> rfl
  by_cases empty : name = []
  · subst empty
    cases termux <;>
      simp [selectEntry, Dep.selectTermux, Dep.selectPackage, installEntry, entriesOf_empty loaded]
  · have filled : name.isEmpty = false := by simpa using empty
    cases termux with
    | true =>
      have find := find?_resolverPackages loaded name true (fun _ => true) fun _ _ => rfl
      have flagged : ((resolverPackages repoIndices true).find? fun p =>
            p.packageName == name && p.isTermuxPackage) =
          (resolverPackages repoIndices true).find? fun p => p.packageName == name && true := by
        apply List.find?_congr
        intro p mem
        rw [beq_iff_eq.mp (List.mem_filter.mp mem).2]
      simp only [selectEntry, Dep.selectTermux, installEntry, if_true, filled,
        Bool.false_eq_true, if_false]
      rw [flagged, find]
      simp
    | false =>
      have given : (determineRepoArch repoIndices).isEmpty = false := by
        simpa using determineRepoArch_ne_nil repoIndices
      have find (arch : ByteString) := find?_resolverPackages loaded name false
        (·.architecture == arch) fun idx pkg => by rw [architecture]
      simp only [selectEntry, Dep.selectPackage, installEntry, filled, given,
        Bool.false_eq_true, if_false]
      rw [find, find, Option.map_or]
      simp

end Found

/-! ### Where the searches agree -/

/-- The first entry of the name in all indices is the one an installation prefers: one for Termux in
that flavour, and in the other one an entry of the architecture, or one for `all` if there is none
of the architecture. -/
def Leads (repoIndices : RepoIndexList) (name : ByteString) (termux : Bool) : Prop :=
  ∀ first rest, entriesOf repoIndices name = first :: rest →
    if termux then isTermuxIndex first.1 = true ∧ first.2.isTermuxPackage = true
    else
      isTermuxIndex first.1 = false ∧
        (first.2.architecture = determineRepoArch repoIndices ∨
          first.2.architecture = str "all" ∧ ∀ x ∈ rest, isTermuxIndex x.1 = false →
            x.2.architecture ≠ determineRepoArch repoIndices)

theorem agree_termux :
    (upgradeEntry repoIndices name true = installEntry repoIndices name true ∧
        infoEntry repoIndices name = installEntry repoIndices name true) ↔
      Leads repoIndices name true := by
  simp only [upgradeEntry, installEntry, infoEntry, Leads, if_true]
  cases entriesOf repoIndices name with
  | nil => simp
  | cons first rest =>
    rw [List.head?_cons]
    constructor
    · rintro ⟨upgrade, info⟩ first' rest' split
      cases split
      rw [← info] at upgrade
      have both := List.find?_some upgrade
      rwa [Bool.and_eq_true] at both
    · intro leads
      obtain ⟨termux, flagged⟩ := leads first rest rfl
      simp [termux, flagged]

/-- An index with the first entry of the name is the first one that an upgrade finds one in. -/
theorem upgrade_first {arch : ByteString} {first : Located} {rest : List Located}
    (split : entriesOf repoIndices name = first :: rest) (debian : isTermuxIndex first.1 = false)
    (leads : first.2.architecture = arch ∨
      first.2.architecture = str "all" ∧ ∀ x ∈ rest, isTermuxIndex x.1 = false →
        x.2.architecture ≠ arch) :
    (repoIndices.findSome? fun idx => (indexEntry name arch idx).map (idx, ·)) = some first := by
  induction repoIndices with
  | nil => cases split
  | cons idx others ih =>
    rw [entriesOf_cons] at split
    rw [List.findSome?_cons]
    cases own : RepoIndex.named idx name with
    | nil =>
      rw [own] at split
      have none : indexEntry name arch idx = none := by simp [indexEntry, own]
      rw [none]
      exact ih split
    | cons pkg pkgs =>
      rw [own, List.map_cons, List.cons_append] at split
      cases split
      have found : indexEntry name arch idx = some pkg := by
        rw [indexEntry, debian, if_neg Bool.false_ne_true, own]
        rcases leads with exact | ⟨forAll, nowhere⟩
        · rw [List.find?_cons_of_pos (by simpa using exact)]
          rfl
        · have noExact : pkgs.find? (·.architecture == arch) = none := by
            rw [List.find?_eq_none]
            intro p mem
            have mem' : (idx, p) ∈ pkgs.map (idx, ·) ++ entriesOf others name :=
              List.mem_append_left _ (List.mem_map_of_mem mem)
            simpa using nowhere (idx, p) mem' debian
          by_cases exact : pkg.architecture = arch
          · rw [List.find?_cons_of_pos (by simpa using exact)]
            rfl
          · rw [List.find?_cons_of_neg (by simpa using exact), noExact, Option.none_or]
            exact List.find?_cons_of_pos (by simpa using forAll)
      rw [found]
      rfl

theorem agree_debian :
    (upgradeEntry repoIndices name false = installEntry repoIndices name false ∧
        infoEntry repoIndices name = installEntry repoIndices name false) ↔
      Leads repoIndices name false := by
  simp only [upgradeEntry, installEntry, infoEntry, Leads, Bool.false_eq_true, if_false]
  generalize determineRepoArch repoIndices = arch
  cases split : entriesOf repoIndices name with
  | nil =>
    have none : (repoIndices.findSome? fun idx => (indexEntry name arch idx).map (idx, ·)) =
        none := by
      rw [List.findSome?_eq_none_iff]
      intro idx inside
      have own := List.map_eq_nil_iff.mp (List.flatMap_eq_nil_iff.mp split idx inside)
      simp [indexEntry, own]
    simp [none]
  | cons first rest =>
    rw [List.head?_cons]
    constructor
    · rintro ⟨-, info⟩ first' rest' split'
      cases split'
      cases exact : (first :: rest).find? fun x =>
          !isTermuxIndex x.1 && x.2.architecture == arch with
      | some x =>
        rw [exact, Option.some_or, Option.some_inj] at info
        subst info
        have both := List.find?_some exact
        rw [Bool.and_eq_true, Bool.not_eq_true', beq_iff_eq] at both
        exact ⟨both.1, .inl both.2⟩
      | none =>
        rw [exact, Option.none_or] at info
        have both := List.find?_some info.symm
        rw [Bool.and_eq_true, Bool.not_eq_true', beq_iff_eq] at both
        refine ⟨both.1, .inr ⟨both.2, ?_⟩⟩
        intro x mem debian
        have other := List.find?_eq_none.mp exact x (List.mem_cons_of_mem _ mem)
        simpa [debian] using other
    · intro leads
      obtain ⟨debian, which⟩ := leads first rest rfl
      rw [upgrade_first split debian which]
      rcases which with exact | ⟨forAll, nowhere⟩
      · simp [debian, exact]
      · by_cases exact : first.2.architecture = arch
        · simp [debian, exact]
        · have noExact : rest.find? (fun x => !isTermuxIndex x.1 && x.2.architecture == arch) =
              none := by
            rw [List.find?_eq_none]
            intro x mem
            simpa using nowhere x mem
          rw [List.find?_cons_of_neg (by simp [exact]), noExact, Option.none_or,
            List.find?_cons_of_pos (by simp [debian, forAll])]
          exact ⟨rfl, rfl⟩

/-- **Where the searches find the same entry**, in indices that were loaded: just where the first
entry of the name in all indices is the one that an installation prefers. -/
theorem candidates_agree_iff (host : Host) (listsDir : ByteString)
    (sources : Except ByteString (List RepoSource)) (defaultArch : ByteString) (w : RepoWorld) :
    wp (loadRepoIndicesFromCache host listsDir sources defaultArch)
      (fun repoIndices _ => ∀ name termux,
        findCandidate repoIndices name termux =
            (upgradeEntry repoIndices name termux).map (·.2) ∧
          infoCandidate repoIndices name = (infoEntry repoIndices name).map (·.2) ∧
          selectEntry repoIndices termux name =
            (installEntry repoIndices name termux).map (fun x => mergeEntry x.1 x.2) ∧
          ((upgradeEntry repoIndices name termux = installEntry repoIndices name termux ∧
              infoEntry repoIndices name = installEntry repoIndices name termux) ↔
            Leads repoIndices name termux))
      (fun _ _ => True) w := by
  apply wp_mono (load_loaded host listsDir sources defaultArch w)
  · intro repoIndices _ loaded name termux
    refine ⟨findCandidate_eq loaded termux, infoCandidate_eq loaded, selectEntry_eq loaded termux,
      ?_⟩
    cases termux with
    | true => exact agree_termux
    | false => exact agree_debian
  · intro _ _ _
    trivial

/-! ### Two sources with one name -/

def toolSource (uri : String) : RepoSource where
  uri := str uri
  dist := str "s"
  components := [str "main"]

/-- Where the text of the source's index is read from. -/
def toolPath (uri : String) : ByteString :=
  makePackagesPlainPath
    (makePackagesFilename (str uri) (str "s") (str "main") (str "arm64") (str "/l"))

/-- The first source has the tool for `all`, the second one has a newer one for `arm64`. -/
def toolCache : RepoWorld where
  disk path :=
    if path = toolPath "http://a" then
      some (.file (str "Package: tool\nVersion: 1\nArchitecture: all\n"))
    else if path = toolPath "http://b" then
      some (.file (str "Package: tool\nVersion: 2\nArchitecture: arm64\n"))
    else none
  clock := 0
  own := {}

def toolLoad : Act RepoWorld ByteString RepoIndexList :=
  loadRepoIndicesFromCache (mirror []) (str "/l")
    (.ok [toolSource "http://a", toolSource "http://b"]) (str "arm64")

/-- The indices that are loaded. -/
def loadedTools : RepoIndexList := ((exec toolLoad toolCache).1).toOption.getD []

/-- **An upgrade compares version 1, and version 2 is what an install selects.** -/
theorem upgrade_compares_other :
    ¬ wp toolLoad (fun repoIndices _ => ∀ name termux,
        (findCandidate repoIndices name termux).map (·.version) =
            (selectEntry repoIndices termux name).map (·.version) ∧
          (infoCandidate repoIndices name).map (·.version) =
            (selectEntry repoIndices termux name).map (·.version))
      (fun _ _ => True) toolCache := by
  intro agree
  have compared : (findCandidate loadedTools (str "tool") false).map (·.version) =
      some (str "1") := by
    decide +kernel
  have selected : (selectEntry loadedTools false (str "tool")).map (·.version) =
      some (str "2") := by
    decide +kernel
  have ended : exec toolLoad toolCache = (.ok loadedTools, (exec toolLoad toolCache).2) := by
    cases run : (exec toolLoad toolCache).1 with
    | ok repoIndices =>
      apply Prod.ext
      · simp [loadedTools, run, Except.toOption]
      · rfl
    | error err =>
      simp [loadedTools, run, Except.toOption, findCandidate, debCandidates] at compared
  have same := (agree.ok ended (str "tool") false).1
  rw [compared, selected] at same
  revert same
  decide

end Apm.Install
