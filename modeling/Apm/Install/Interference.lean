import Apm.Install.Candidate

/-!
What packages of other names do to the plan of an install.

`installWithDeps` looks at whole indices: an index with one entry for Termux is a Termux index
(`loadRepoIndicesFromCache`), and the architecture of the call is the one that all indices agree on
(`determineRepoArch`). So a package that the root does not reach may change its plan.

## Main results

* `plan_undisturbed_iff`: adding packages of names that the root does not reach leaves its plan as
  it is just when they leave the flavour of the call and the entry that is preferred for each reachable
  name, which they can only change by the flavours of the indices and by the architecture.
-/

namespace Apm.Install

open Apm.Repo Apm.Status Apm.Lib.DepGraph Relation

/-! ### More packages -/

/-- The text of an index, and what it is read for. -/
structure Listing where
  src : RepoSource
  component : ByteString
  arch : ByteString
  pkgFile : ByteString
  content : ByteString

def Listing.index (l : Listing) : RepoIndex :=
  makeRepoIndex l.src l.component l.arch l.pkgFile l.content

def indices (listings : List Listing) : RepoIndexList := listings.map Listing.index

/-- Packages of such names are put into a list. -/
inductive Extends (extra : ByteString → Prop) : PackageList → PackageList → Prop
  | nil : Extends extra [] []
  | keep {old new : PackageList} (pkg : PackageEntry) (rest : Extends extra old new) :
      Extends extra (pkg :: old) (pkg :: new)
  | add {old new : PackageList} {pkg : PackageEntry} (name : extra pkg.packageName)
      (rest : Extends extra old new) : Extends extra old (pkg :: new)

/-- Packages of such names are put into indices, or come with indices of their own. -/
inductive Adds (extra : ByteString → Prop) : List Listing → List Listing → Prop
  | nil : Adds extra [] []
  | index {old new : List Listing} {l : Listing}
      (names : ∀ pkg ∈ parsePackagesString l.content, extra pkg.packageName)
      (rest : Adds extra old new) : Adds extra old (l :: new)
  | packages {old new : List Listing} {l : Listing} {content : ByteString}
      (more : Extends extra (parsePackagesString l.content) (parsePackagesString content))
      (rest : Adds extra old new) : Adds extra (l :: old) ({ l with content } :: new)

/-! ### Plans -/

/-- What `installWithDeps` plans, if the resolver succeeds. -/
def planned (repoIndices : RepoIndexList) (rootPackage : ByteString) (opts : InstallOptions)
    (db : InstalledDb) : Option (List PackageEntry) :=
  let termuxMode := termuxModeOf repoIndices rootPackage opts
  if (resolve repoIndices rootPackage termuxMode (installedNames db termuxMode)).ok then
    some (planOf repoIndices rootPackage termuxMode db)
  else none

/-- The plan is the same over every status map. -/
def SamePlan (old new : RepoIndexList) (rootPackage : ByteString) (opts : InstallOptions) : Prop :=
  ∀ db, planned new rootPackage opts db = planned old rootPackage opts db

/-- The name is reached from the root, as the call resolves names. -/
def Reached (repoIndices : RepoIndexList) (rootPackage : ByteString) (opts : InstallOptions)
    (name : ByteString) : Prop :=
  Reaches (Dep.depGraph (selectEntry repoIndices (termuxModeOf repoIndices rootPackage opts)))
    rootPackage name

/-- The entries of a name, each with the flavour of its index. -/
def tagged (repoIndices : RepoIndexList) (name : ByteString) : List (Bool × PackageEntry) :=
  (entriesOf repoIndices name).map fun x => (isTermuxIndex x.1, x.2)

/-- The first entry in an index for Termux; or the first one in another index of the architecture,
else for `all`. The copy has the flavour of the index. -/
def preferred (termux : Bool) (arch : ByteString) (entries : List (Bool × PackageEntry)) :
    Option PackageEntry :=
  let found :=
    if termux then entries.find? (·.1)
    else
      (entries.find? fun x => !x.1 && x.2.architecture == arch).or
        (entries.find? fun x => !x.1 && x.2.architecture == str "all")
  found.map fun x => { x.2 with isTermuxPackage := x.1 }

/-- The flavour of the call is the same, and so is the entry preferred for each reachable name. -/
def Undisturbed (old new : RepoIndexList) (rootPackage : ByteString) (opts : InstallOptions) :
    Prop :=
  let termuxMode := termuxModeOf old rootPackage opts
  termuxModeOf new rootPackage opts = termuxMode ∧
    ∀ name, Reached old rootPackage opts name →
      preferred termuxMode (determineRepoArch new) (tagged new name) =
        preferred termuxMode (determineRepoArch old) (tagged old name)

section

variable {repoIndices old new : RepoIndexList} {rootPackage name : ByteString}
  {opts : InstallOptions} {termuxMode : Bool}

/-! ### The resolver prefers as specified -/

theorem mergeEntry_of_loaded {idx : RepoIndex} {pkg : PackageEntry} (h : Loaded idx)
    (listed : pkg ∈ idx.packages) :
    mergeEntry idx pkg = { pkg with isTermuxPackage := isTermuxIndex idx } := by
  have flag := h.mergeEntry listed
  unfold mergeEntry at flag ⊢
  split at flag
  · rename_i termux
    rw [if_pos termux, termux]
  · rename_i debian
    rw [if_neg debian, ← flag]

theorem mem_entriesOf {x : Located} (mem : x ∈ entriesOf repoIndices name) :
    x.1 ∈ repoIndices ∧ x.2 ∈ x.1.packages := by
  obtain ⟨idx, inside, mem⟩ := List.mem_flatMap.mp mem
  obtain ⟨pkg, listed, rfl⟩ := List.mem_map.mp mem
  exact ⟨inside, (List.mem_filter.mp listed).1⟩

theorem mem_of_installEntry {x : Located}
    (found : installEntry repoIndices name termuxMode = some x) :
    x ∈ entriesOf repoIndices name := by
  unfold installEntry at found
  dsimp only at found
  split at found
  · exact List.mem_of_find?_eq_some found
  · rcases Option.or_eq_some_iff.mp found with found | ⟨-, found⟩
    · exact List.mem_of_find?_eq_some found
    · exact List.mem_of_find?_eq_some found

theorem selectEntry_preferred (loaded : ∀ idx ∈ repoIndices, Loaded idx) :
    selectEntry repoIndices termuxMode name =
      preferred termuxMode (determineRepoArch repoIndices) (tagged repoIndices name) := by
  have copies : (installEntry repoIndices name termuxMode).map (fun x => mergeEntry x.1 x.2) =
      (installEntry repoIndices name termuxMode).map
        fun x => { x.2 with isTermuxPackage := isTermuxIndex x.1 } := by
    cases found : installEntry repoIndices name termuxMode with
    | none => rfl
    | some x =>
      obtain ⟨inside, listed⟩ := mem_entriesOf (mem_of_installEntry found)
      rw [Option.map_some, Option.map_some, mergeEntry_of_loaded (loaded _ inside) listed]
  rw [selectEntry_eq loaded, copies]
  unfold preferred tagged installEntry
  cases termuxMode <;> simp [List.find?_map, Option.map_or, Function.comp_def]

/-- The flavour of a selected entry is that of the call. -/
theorem selectEntry_flavour {pkg : PackageEntry}
    (selected : selectEntry repoIndices termuxMode name = some pkg) :
    pkg.isTermuxPackage = termuxMode := by
  have mem : pkg ∈ resolverPackages repoIndices termuxMode := by
    cases termuxMode with
    | true => exact Dep.selectTermux_from _ name pkg selected
    | false => exact Dep.selectPackage_from _ _ name pkg selected
  simpa using (List.mem_filter.mp mem).2

theorem selectEntry_wellNamed (repoIndices : RepoIndexList) (termuxMode : Bool) :
    Dep.WellNamed (selectEntry repoIndices termuxMode) := by
  cases termuxMode with
  | true => exact Dep.selectTermux_wellNamed _
  | false => exact Dep.selectPackage_wellNamed _ _

/-- A name is found in the flavours of the indices that list it. -/
theorem hasRoot_tagged (loaded : ∀ idx ∈ repoIndices, Loaded idx) (termux : Bool) :
    hasRoot (mergeIndices repoIndices) name termux =
      (tagged repoIndices name).any (·.1 == termux) := by
  rw [Bool.eq_iff_iff, hasRoot, List.any_eq_true, List.any_eq_true]
  constructor
  · rintro ⟨copy, mem, both⟩
    obtain ⟨idx, inside, mem⟩ := List.mem_flatMap.mp mem
    obtain ⟨pkg, listed, rfl⟩ := List.mem_map.mp mem
    rw [mergeEntry_of_loaded (loaded idx inside) listed, Bool.and_eq_true] at both
    have named : pkg ∈ RepoIndex.named idx name := List.mem_filter.mpr ⟨listed, both.1⟩
    refine ⟨(isTermuxIndex idx, pkg), List.mem_map.mpr ⟨(idx, pkg), ?_, rfl⟩, both.2⟩
    exact List.mem_flatMap.mpr ⟨idx, inside, List.mem_map_of_mem named⟩
  · rintro ⟨x, mem, flavour⟩
    obtain ⟨located, there, rfl⟩ := List.mem_map.mp mem
    obtain ⟨idx, inside, there⟩ := List.mem_flatMap.mp there
    obtain ⟨pkg, named, rfl⟩ := List.mem_map.mp there
    obtain ⟨listed, same⟩ := List.mem_filter.mp named
    refine ⟨mergeEntry idx pkg, List.mem_flatMap.mpr ⟨idx, inside, List.mem_map_of_mem listed⟩, ?_⟩
    rw [mergeEntry_of_loaded (loaded idx inside) listed, Bool.and_eq_true]
    exact ⟨same, flavour⟩

/-! ### The plan rests on the reachable names -/

def notFoundPrefix (termuxMode : Bool) : ByteString :=
  if termuxMode then str "Package not found in Termux repositories: "
  else str "Package not found in repositories: "

/-- A resolution is a walk with fuel enough. -/
theorem resolve_eq_walk (repoIndices : RepoIndexList) (rootPackage : ByteString) (termuxMode : Bool)
    (installed : List ByteString) :
    ∃ n, ∀ fuel, n < fuel →
      Dep.resolveRecursive fuel rootPackage installed (selectEntry repoIndices termuxMode)
          (notFoundPrefix termuxMode) =
        some (resolve repoIndices rootPackage termuxMode installed) := by
  cases termuxMode with
  | true =>
    obtain ⟨r, total⟩ := Dep.resolveTermuxDependencies_total (resolverPackages repoIndices true)
      rootPackage installed
    have whole : resolve repoIndices rootPackage true installed = r := by
      simp [resolve, Dep.resolveTermuxDependencies, total]
    refine ⟨(resolverPackages repoIndices true).length, fun fuel enough => ?_⟩
    rw [whole, ← total fuel enough, Dep.termuxByName_lookup]
    rfl
  | false =>
    obtain ⟨r, total⟩ := Dep.resolveDependencies_total (resolverPackages repoIndices false)
      rootPackage (determineRepoArch repoIndices) installed
    have whole : resolve repoIndices rootPackage false installed = r := by
      simp [resolve, Dep.resolveDependencies, total]
    refine ⟨(resolverPackages repoIndices false).length, fun fuel enough => ?_⟩
    rw [whole, ← total fuel enough, Dep.findPkg_eq_selectPackage]
    rfl

theorem resolve_eq_of_agree {installed : List ByteString}
    (agree : ∀ name, Reaches (Dep.depGraph (selectEntry old termuxMode)) rootPackage name →
      selectEntry new termuxMode name = selectEntry old termuxMode name) :
    resolve new rootPackage termuxMode installed =
      resolve old rootPackage termuxMode installed := by
  obtain ⟨n, before⟩ := resolve_eq_walk old rootPackage termuxMode installed
  obtain ⟨m, after⟩ := resolve_eq_walk new rootPackage termuxMode installed
  have before := before (max n m + 1) (by omega)
  have after := after (max n m + 1) (by omega)
  rw [Dep.resolveRecursive_eq_of_agree (selectEntry_wellNamed old termuxMode) agree] at after
  exact Option.some.inj (after.symm.trans before)

variable (loadedOld : ∀ idx ∈ old, Loaded idx) (loadedNew : ∀ idx ∈ new, Loaded idx)
include loadedOld loadedNew

theorem Undisturbed.samePlan (h : Undisturbed old new rootPackage opts) :
    SamePlan old new rootPackage opts := by
  obtain ⟨mode, same⟩ := h
  have agree : ∀ name, Reached old rootPackage opts name →
      selectEntry new (termuxModeOf old rootPackage opts) name =
        selectEntry old (termuxModeOf old rootPackage opts) name := by
    intro name reached
    rw [selectEntry_preferred loadedNew, selectEntry_preferred loadedOld]
    exact same name reached
  intro db
  unfold planned planOf
  dsimp only
  rw [mode, resolve_eq_of_agree agree]

/-- Where indices keep their flavours and the architecture stays, nothing is disturbed. -/
theorem undisturbed_of_flavours (arch : determineRepoArch new = determineRepoArch old)
    (flavours : ∀ name, Reached old rootPackage opts name → tagged new name = tagged old name) :
    Undisturbed old new rootPackage opts := by
  constructor
  · have root := flavours rootPackage .refl
    simp only [termuxModeOf, hasRoot_tagged loadedNew, hasRoot_tagged loadedOld, root]
  · intro name reached
    rw [arch, flavours name reached]

omit loadedOld loadedNew in
/-- Every reachable name has an entry, if there is a plan. -/
theorem selected_of_planned (ok : (resolve old rootPackage termuxMode []).ok = true)
    (reached : Reaches (Dep.depGraph (selectEntry old termuxMode)) rootPackage name) :
    ∃ pkg, selectEntry old termuxMode name = some pkg := by
  have fails := (resolve_spec old rootPackage termuxMode []).1.ok
  rw [ok] at fails
  by_contra missing
  have none : selectEntry old termuxMode name = none := by
    rw [Option.eq_none_iff_forall_not_mem]
    exact fun pkg found => missing ⟨pkg, found⟩
  have failed : true = false := by
    apply fails.mpr
    rcases ReflTransGen.cases_tail reached with same | ⟨before, reached, edge⟩
    · exact .inr (.inl (same ▸ none))
    · exact .inr (.inr (.inl ⟨name, none, before, reached, edge⟩))
  cases failed

/-- What a plan without installed packages says about the selection. -/
theorem SamePlan.undisturbed (h : SamePlan old new rootPackage opts)
    (plans : (planned old rootPackage opts ∅).isSome) : Undisturbed old new rootPackage opts := by
  have whole := h ∅
  unfold planned at whole plans
  dsimp only at whole plans
  split at plans
  · rename_i ok
    rw [if_pos ok] at whole
    split at whole
    · rename_i ok'
      rw [Option.some_inj] at whole
      have plan := planOf_spec ∅ ok
      have plan' := planOf_spec ∅ ok'
      rw [whole] at plan'
      -- The new plan has the entries that were selected before.
      have kept {name : ByteString} {pkg : PackageEntry}
          (reached : Reached old rootPackage opts name)
          (found : selectEntry old (termuxModeOf old rootPackage opts) name = some pkg) :
          selectEntry new (termuxModeOf new rootPackage opts) name = some pkg := by
        have mem := (plan.exact pkg).mpr ⟨name, reached, List.not_mem_nil, found⟩
        obtain ⟨name', -, -, found'⟩ := (plan'.exact pkg).mp mem
        rwa [← selectEntry_name found, selectEntry_name found']
      obtain ⟨root, found⟩ := selected_of_planned ok .refl
      have mode : termuxModeOf new rootPackage opts = termuxModeOf old rootPackage opts := by
        rw [← selectEntry_flavour (kept .refl found), selectEntry_flavour found]
      refine ⟨mode, fun name reached => ?_⟩
      obtain ⟨pkg, found⟩ := selected_of_planned ok reached
      have found' := kept reached found
      rw [mode] at found'
      rw [← selectEntry_preferred loadedNew, ← selectEntry_preferred loadedOld, found, found']
    · cases whole
  · cases plans

end

/-! ### What additions change -/

section

variable {extra : ByteString → Prop} {old new : List Listing} {name : ByteString}

theorem loaded_indices (listings : List Listing) : ∀ idx ∈ indices listings, Loaded idx := by
  intro idx mem
  obtain ⟨l, _, rfl⟩ := List.mem_map.mp mem
  exact ⟨_, _, _, _, _, rfl⟩

/-- The entries of a name in a listing. -/
theorem named_index (l : Listing) (name : ByteString) :
    RepoIndex.named l.index name =
      markPackages l.src l.component
        ((parsePackagesString l.content).filter (·.packageName == name)) := by
  unfold RepoIndex.named Listing.index makeRepoIndex markPackages
  dsimp only
  rw [List.filter_map]
  rfl

theorem extends_append {old more : PackageList} (names : ∀ pkg ∈ more, extra pkg.packageName) :
    Extends extra old (old ++ more) := by
  induction old with
  | cons pkg old ih => exact .keep pkg ih
  | nil =>
    induction more with
    | nil => exact .nil
    | cons pkg more ih =>
      obtain ⟨first, others⟩ := List.forall_mem_cons.mp names
      exact .add first (ih others)

theorem Extends.named {old new : PackageList} (h : Extends extra old new) (kept : ¬ extra name) :
    new.filter (·.packageName == name) = old.filter (·.packageName == name) := by
  induction h with
  | nil => rfl
  | keep pkg rest ih => rw [List.filter_cons, List.filter_cons, ih]
  | add other rest ih =>
    rw [List.filter_cons_of_neg, ih]
    rw [beq_iff_eq]
    rintro rfl
    exact kept other

/-- **Additions of other names leave the entries of a name as they are**, up to the flavours of the
indices. -/
theorem Adds.tagged (h : Adds extra old new) (kept : ¬ extra name) :
    (tagged (indices new) name).map (·.2) = (tagged (indices old) name).map (·.2) := by
  have cons (l : Listing) (rest : List Listing) :
      (Install.tagged (indices (l :: rest)) name).map (·.2) =
        RepoIndex.named l.index name ++ (Install.tagged (indices rest) name).map (·.2) := by
    simp [Install.tagged, indices, entriesOf_cons, Function.comp_def]
  induction h with
  | nil => rfl
  | @index _ _ l names rest ih =>
    have none : (parsePackagesString l.content).filter (·.packageName == name) = [] := by
      rw [List.filter_eq_nil_iff]
      intro pkg listed same
      rw [beq_iff_eq] at same
      exact kept (same ▸ names pkg listed)
    rw [cons, named_index, none, ih]
    rfl
  | packages more rest ih =>
    rw [cons, cons, ih, named_index, named_index, more.named kept]

end

/-- **When the plan of a root is undisturbed** by packages of names that it does not reach: just
when these leave the flavour of the call and the preferred entry of each reachable name. They leave the
entries of these names, so that only the flavours of the indices and the architecture can differ. -/
theorem plan_undisturbed_iff (rootPackage : ByteString) (opts : InstallOptions)
    (old new : List Listing)
    (adds : Adds (fun name => ¬ Reached (indices old) rootPackage opts name) old new) :
    (∀ name, Reached (indices old) rootPackage opts name →
      (tagged (indices new) name).map (·.2) = (tagged (indices old) name).map (·.2)) ∧
    (determineRepoArch (indices new) = determineRepoArch (indices old) →
      (∀ name, Reached (indices old) rootPackage opts name →
        tagged (indices new) name = tagged (indices old) name) →
      Undisturbed (indices old) (indices new) rootPackage opts) ∧
    (Undisturbed (indices old) (indices new) rootPackage opts →
      SamePlan (indices old) (indices new) rootPackage opts) ∧
    ((planned (indices old) rootPackage opts ∅).isSome →
      (SamePlan (indices old) (indices new) rootPackage opts ↔
        Undisturbed (indices old) (indices new) rootPackage opts)) := by
  have same (h : Undisturbed (indices old) (indices new) rootPackage opts) :
      SamePlan (indices old) (indices new) rootPackage opts :=
    h.samePlan (loaded_indices old) (loaded_indices new)
  refine ⟨fun name reached => adds.tagged (not_not_intro reached),
    undisturbed_of_flavours (loaded_indices old) (loaded_indices new), same, fun plans => ?_⟩
  constructor
  · intro h
    exact h.undisturbed (loaded_indices old) (loaded_indices new) plans
  · exact same

/-! ### A package more -/

/-- A Debian index of one source. -/
def mainListing (content : String) : Listing where
  src := { uri := str "http://r", dist := str "s", components := [str "main"] }
  component := str "main"
  arch := str "arm64"
  pkgFile := []
  content := str content

def appText : String := "Package: app\nArchitecture: arm64\n\n"

/-- The app depends on nothing. -/
theorem reached_app {name : ByteString}
    (h : Reached (indices [mainListing appText]) (str "app") {} name) : name = str "app" := by
  rcases ReflTransGen.cases_head h with same | ⟨next, edge, _⟩
  · exact same.symm
  · obtain ⟨pkg, selected, dep⟩ := Dep.edge_iff.mp edge
    have alone : (selectEntry (indices [mainListing appText])
        (termuxModeOf (indices [mainListing appText]) (str "app") {}) (str "app")).map
          Dep.dependencyNames = some [] := by
      decide +kernel
    rw [selected, Option.map_some, Option.some_inj] at alone
    rw [alone] at dep
    cases dep

/-- A package of another name is put into the index of the app. -/
theorem adds_tool (fields : String) (tool : PackageEntry) (name : tool.packageName = str "tool")
    (parsed : parsePackagesString (str (appText ++ fields)) =
      parsePackagesString (str appText) ++ [tool]) :
    Adds (fun name => ¬ Reached (indices [mainListing appText]) (str "app") {} name)
      [mainListing appText] [mainListing (appText ++ fields)] := by
  apply Adds.packages (l := mainListing appText)
  · rw [parsed]
    apply extends_append
    intro pkg mem reached
    rw [List.mem_singleton] at mem
    rw [mem, name] at reached
    exact absurd (reached_app reached) (by decide)
  · exact .nil

/-- A plain package more leaves the plan of the app. -/
theorem plan_undisturbed_iff_tool :
    Adds (fun name => ¬ Reached (indices [mainListing appText]) (str "app") {} name)
        [mainListing appText] [mainListing (appText ++ "Package: tool\n")] ∧
      SamePlan (indices [mainListing appText])
        (indices [mainListing (appText ++ "Package: tool\n")]) (str "app") {} := by
  have adds := adds_tool "Package: tool\n"
    { packageName := str "tool", rawFields := AList.singleton (str "Package") (str "tool") }
    rfl (by decide +kernel)
  obtain ⟨_, keeps, same, _⟩ := plan_undisturbed_iff (str "app") {} _ _ adds
  refine ⟨adds, same (keeps (by decide +kernel) fun name reached => ?_)⟩
  rw [reached_app reached]
  decide +kernel

/-- **A package for Termux more, and the app is planned as a Termux package.** -/
theorem tool_disturbs_app :
    Adds (fun name => ¬ Reached (indices [mainListing appText]) (str "app") {} name)
        [mainListing appText]
        [mainListing (appText ++ "Package: tool\nDepends: termux-tools\n")] ∧
      ¬ SamePlan (indices [mainListing appText])
        (indices [mainListing (appText ++ "Package: tool\nDepends: termux-tools\n")])
        (str "app") {} := by
  constructor
  · apply adds_tool _ {
      packageName := str "tool"
      depends := [str "termux-tools"]
      rawFields := (AList.singleton (str "Package") (str "tool")).insert (str "Depends")
        (str "termux-tools")
      isTermuxPackage := true }
    · rfl
    · decide +kernel
  · intro same
    have flavours := congrArg (Option.map (List.map (·.isTermuxPackage))) (same ∅)
    revert flavours
    decide +kernel

end Apm.Install
