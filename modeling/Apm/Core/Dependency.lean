import Apm.Core.Package
import Apm.Lib.Assoc
import Apm.Lib.DepGraph

/-!
`src/core/dependency.cpp`: the dependency resolver.

`visit` is the source's recursive lambda. It simulates the depth-first search of
`Apm.Lib.DepGraph` over the names (`visit_simulates`), so the results of a whole
resolution are the library's `Searched` read through the selected entries.

## Main results

* `findPkg_eq_findPackage`: the maps of a resolution find what a scan of the list finds.
-/

namespace Apm.Dep

open Apm.Repo Apm.Lib.Assoc
open Apm.Lib (DepGraph.Search)
open Relation

/-! ### The resolver -/

/-- Drop a `:qualifier`. -/
def normalizeDependencyName (name : ByteString) : ByteString := name.takeWhile (· != chr ':')

structure ResolutionResult where
  installOrder : List PackageEntry := []
  missing : List ByteString := []
  cycles : List ByteString := []
deriving DecidableEq

def ResolutionResult.success (out : ResolutionResult) : Bool :=
  out.missing.isEmpty && out.cycles.isEmpty

/-- `appendUnique` on an output vector and the set of the names in it. -/
def appendUnique (out seen : List ByteString) (name : ByteString) :
    List ByteString × List ByteString :=
  if !name.isEmpty && !seen.contains name then (out ++ [name], name :: seen) else (out, seen)

def buildResolutionError (out : ResolutionResult) : ByteString :=
  let missing :=
    if out.missing.isEmpty then []
    else str "Missing dependencies:" ++ out.missing.flatMap fun m => str " " ++ m
  let cycles :=
    if out.cycles.isEmpty then []
    else (if out.missing.isEmpty then [] else str "; ") ++
      str "Dependency cycles:" ++ out.cycles.flatMap fun c => str " " ++ c
  missing ++ cycles

/-- The variables the lambda captures. Every insertion into a set is guarded by a
membership test, so a set is the list of its insertions. -/
structure Walk where
  out : ResolutionResult := {}
  visiting : List ByteString := []
  visited : List ByteString := []
  plannedSet : List ByteString := []
  missingSet : List ByteString := []
  cycleSet : List ByteString := []
deriving DecidableEq

def Walk.addMissing (w : Walk) (name : ByteString) : Walk :=
  let r := appendUnique w.out.missing w.missingSet name
  { w with out := { w.out with missing := r.1 }, missingSet := r.2 }

def Walk.addCycle (w : Walk) (name : ByteString) : Walk :=
  let r := appendUnique w.out.cycles w.cycleSet name
  { w with out := { w.out with cycles := r.1 }, cycleSet := r.2 }

/-- The end of a visit: from grey to black, and into the plan unless installed. -/
def Walk.finish (installedSet : List ByteString) (w : Walk) (pkg : PackageEntry) : Walk :=
  let w := { w with
    visiting := w.visiting.erase pkg.packageName, visited := w.visited ++ [pkg.packageName] }
  if installedSet.contains pkg.packageName then w
  else if w.plannedSet.contains pkg.packageName then w
  else { w with
    plannedSet := w.plannedSet ++ [pkg.packageName]
    out := { w.out with installOrder := w.out.installOrder ++ [pkg] } }

/-- The loop over `pkg->depends`. -/
def visitDeps (findPkg : ByteString → Option PackageEntry)
    (visit : PackageEntry → Walk → Option Walk) (pkgName : ByteString) :
    List ByteString → Walk → Option Walk
  | [], w => some w
  | depRaw :: rest, w =>
      let depName := normalizeDependencyName depRaw
      if depName.isEmpty || depName == pkgName then visitDeps findPkg visit pkgName rest w
      else
        match findPkg depName with
        | none => visitDeps findPkg visit pkgName rest (w.addMissing depName)
        | some depPkg => (visit depPkg w).bind (visitDeps findPkg visit pkgName rest)

/-- The recursive lambda `visit`. `none` means out of fuel, which
`resolveRecursive_total` excludes. -/
def visit (findPkg : ByteString → Option PackageEntry) (installedSet : List ByteString) :
    Nat → PackageEntry → Walk → Option Walk
  | 0, _, _ => none
  | fuel + 1, pkg, w =>
      if w.visited.contains pkg.packageName then some w
      else if w.visiting.contains pkg.packageName then some (w.addCycle pkg.packageName)
      else
        (visitDeps findPkg (visit findPkg installedSet fuel) pkg.packageName pkg.depends
          { w with visiting := pkg.packageName :: w.visiting }).map
            fun w => w.finish installedSet pkg

/-- The return value and the output parameters. -/
structure Resolution where
  ok : Bool
  out : ResolutionResult
  errorMsg : ByteString := []
deriving DecidableEq

def resolveRecursive (fuel : Nat) (rootPackage : ByteString) (alreadyInstalled : List ByteString)
    (findPkg : ByteString → Option PackageEntry) (notFoundPrefix : ByteString) :
    Option Resolution :=
  if rootPackage.isEmpty then
    some { ok := false, out := {}, errorMsg := str "Root package name is empty" }
  else
    match findPkg rootPackage with
    | none => some { ok := false, out := {}, errorMsg := notFoundPrefix ++ rootPackage }
    | some rootPkg =>
        (visit findPkg alreadyInstalled fuel rootPkg {}).map fun w =>
          if w.out.success then { ok := true, out := w.out }
          else { ok := false, out := w.out, errorMsg := buildResolutionError w.out }

/-- The three maps of `resolveDependencies`. -/
structure NameMaps where
  firstByName : AList fun _ : ByteString => PackageEntry := ∅
  archByName : AList fun _ : ByteString => PackageEntry := ∅
  allByName : AList fun _ : ByteString => PackageEntry := ∅

/-- One pass of the loop that fills the maps. -/
def NameMaps.add (arch : ByteString) (m : NameMaps) (pkg : PackageEntry) : NameMaps :=
  if pkg.packageName.isEmpty then m
  else
    { firstByName := emplace m.firstByName pkg.packageName pkg
      archByName :=
        if !arch.isEmpty && pkg.architecture == arch then
          emplace m.archByName pkg.packageName pkg
        else m.archByName
      allByName :=
        if !arch.isEmpty && pkg.architecture == str "all" then
          emplace m.allByName pkg.packageName pkg
        else m.allByName }

def nameMaps (repoPackages : PackageList) (arch : ByteString) : NameMaps :=
  repoPackages.foldl (NameMaps.add arch) {}

/-- `findPkg` of `resolveDependencies`. -/
def NameMaps.findPkg (m : NameMaps) (arch name : ByteString) : Option PackageEntry :=
  if arch.isEmpty then m.firstByName.lookup name
  else
    match m.archByName.lookup name with
    | some pkg => some pkg
    | none => m.allByName.lookup name

/-- The map of `resolveTermuxDependencies`. -/
def termuxByName (repoPackages : PackageList) : AList fun _ : ByteString => PackageEntry :=
  repoPackages.foldl
    (fun m pkg =>
      if pkg.isTermuxPackage && !pkg.packageName.isEmpty then emplace m pkg.packageName pkg else m)
    ∅

/-! ### What the maps select -/

/-- The entry `resolveDependencies` selects for a name: the first of the exact
architecture, else the first for `all`; the first of all without an architecture. -/
def selectPackage (repoPackages : PackageList) (arch name : ByteString) : Option PackageEntry :=
  if name.isEmpty then none
  else if arch.isEmpty then repoPackages.find? fun p => p.packageName == name
  else
    (repoPackages.find? fun p => p.packageName == name && p.architecture == arch).or
      (repoPackages.find? fun p => p.packageName == name && p.architecture == str "all")

/-- The entry `resolveTermuxDependencies` selects: the first Termux-flagged one. -/
def selectTermux (repoPackages : PackageList) (name : ByteString) : Option PackageEntry :=
  if name.isEmpty then none
  else repoPackages.find? fun p => p.packageName == name && p.isTermuxPackage

/-- Each of the maps finds the first entry it keeps. -/
theorem lookup_nameMaps (sel : NameMaps → AList fun _ : ByteString => PackageEntry)
    (keep : PackageEntry → Bool) (arch : ByteString) (init : sel {} = ∅)
    (step : ∀ m p, sel (NameMaps.add arch m p) =
      if keep p then emplace (sel m) p.packageName p else sel m)
    (repoPackages : PackageList) (name : ByteString) :
    (sel (nameMaps repoPackages arch)).lookup name =
      repoPackages.find? fun p => keep p && p.packageName == name := by
  have fused : repoPackages.foldl
        (fun m p => if keep p then emplace m p.packageName p else m) (sel {}) =
      sel (nameMaps repoPackages arch) :=
    List.foldl_hom sel fun m p => (step m p).symm
  rw [← fused, init, lookup_foldl_emplace, AList.lookup_empty, Option.none_or]

section Selected

variable (repoPackages : PackageList)

theorem lookup_firstByName (arch name : ByteString) :
    (nameMaps repoPackages arch).firstByName.lookup name =
      repoPackages.find? fun p => !p.packageName.isEmpty && p.packageName == name := by
  refine lookup_nameMaps NameMaps.firstByName _ arch rfl (fun m p => ?_) repoPackages name
  unfold NameMaps.add
  cases p.packageName.isEmpty <;> simp

theorem lookup_archByName (arch name : ByteString) :
    (nameMaps repoPackages arch).archByName.lookup name =
      repoPackages.find? fun p =>
        (!p.packageName.isEmpty && (!arch.isEmpty && p.architecture == arch)) &&
          p.packageName == name := by
  refine lookup_nameMaps NameMaps.archByName _ arch rfl (fun m p => ?_) repoPackages name
  unfold NameMaps.add
  cases p.packageName.isEmpty <;> simp

theorem lookup_allByName (arch name : ByteString) :
    (nameMaps repoPackages arch).allByName.lookup name =
      repoPackages.find? fun p =>
        (!p.packageName.isEmpty && (!arch.isEmpty && p.architecture == str "all")) &&
          p.packageName == name := by
  refine lookup_nameMaps NameMaps.allByName _ arch rfl (fun m p => ?_) repoPackages name
  unfold NameMaps.add
  cases p.packageName.isEmpty <;> simp

/-- A search for a nonempty name may skip the test for nonempty names. -/
theorem find?_named (name : ByteString) (keep : PackageEntry → Bool) :
    (repoPackages.find? fun p => (!p.packageName.isEmpty && keep p) && p.packageName == name) =
      if name.isEmpty then none
      else repoPackages.find? fun p => p.packageName == name && keep p := by
  split
  · rename_i empty
    rw [List.isEmpty_iff.mp empty, List.find?_eq_none]
    intro p _
    cases p.packageName <;> simp
  · rename_i nonempty
    congr 1
    funext p
    by_cases same : p.packageName = name
    · simp [same, nonempty]
    · simp [beq_eq_false_iff_ne.mpr same]

/-- `findPkg` of `resolveDependencies` selects as specified. -/
theorem findPkg_eq_selectPackage (arch : ByteString) :
    (nameMaps repoPackages arch).findPkg arch = selectPackage repoPackages arch := by
  funext name
  unfold NameMaps.findPkg selectPackage
  rw [lookup_firstByName, lookup_archByName, lookup_allByName, find?_named, find?_named]
  have first := find?_named repoPackages name fun _ => true
  simp only [Bool.and_true] at first
  rw [first]
  cases name.isEmpty <;> cases arch.isEmpty <;> simp
  split <;> simp [*]

/-- `findPkg` of `resolveTermuxDependencies` selects as specified. -/
theorem termuxByName_lookup :
    (fun name => (termuxByName repoPackages).lookup name) = selectTermux repoPackages := by
  funext name
  rw [termuxByName, lookup_foldl_emplace, AList.lookup_empty, Option.none_or]
  simp only [Bool.and_comm (PackageEntry.isTermuxPackage _)]
  rw [find?_named]
  rfl

/-! ### The linear scan -/

/-- The loop of `findPackage`. -/
def scanPackages (name arch : ByteString) : Option PackageEntry → PackageList →
    Option PackageEntry
  | fallbackAll, [] => fallbackAll
  | fallbackAll, pkg :: rest =>
      if pkg.packageName != name then scanPackages name arch fallbackAll rest
      else if !arch.isEmpty then
        if pkg.architecture == arch then some pkg
        else if pkg.architecture == str "all" && fallbackAll.isNone then
          scanPackages name arch (some pkg) rest
        else scanPackages name arch fallbackAll rest
      else some pkg

/-- `findPackage` of `src/core/repo_index.cpp`. -/
def findPackage (list : PackageList) (name arch : ByteString) : Option PackageEntry :=
  if name.isEmpty then none else scanPackages name arch none list

/-- Without an architecture the scan stops at the first entry of the name. -/
theorem scanPackages_any (name : ByteString) (fallbackAll : Option PackageEntry) :
    scanPackages name [] fallbackAll repoPackages =
      (repoPackages.find? fun p => p.packageName == name).or fallbackAll := by
  induction repoPackages generalizing fallbackAll with
  | nil => rfl
  | cons pkg rest ih =>
    by_cases named : pkg.packageName = name
    · simp [scanPackages, named]
    · simp [scanPackages, named, ih]

/-- With one, an exact entry anywhere comes before the fallback, and the fallback the scan
has comes before the ones it still finds. -/
theorem scanPackages_arch {arch : ByteString} (given : arch.isEmpty = false)
    (name : ByteString) (fallbackAll : Option PackageEntry) :
    scanPackages name arch fallbackAll repoPackages =
      (repoPackages.find? fun p => p.packageName == name && p.architecture == arch).or
        (fallbackAll.or
          (repoPackages.find? fun p => p.packageName == name && p.architecture == str "all")) := by
  induction repoPackages generalizing fallbackAll with
  | nil => simp [scanPackages]
  | cons pkg rest ih =>
    by_cases named : pkg.packageName = name
    · by_cases exact : pkg.architecture = arch
      · simp [scanPackages, named, given, exact]
      · by_cases all : pkg.architecture = str "all"
        · have other : (str "all" == arch) = false := by
            rw [beq_eq_false_iff_ne, ← all]
            exact exact
          cases fallbackAll with
          | none => simp [scanPackages, named, given, all, other, ih]
          | some fallback => simp [scanPackages, named, given, all, other, ih]
        · simp [scanPackages, named, given, exact, all, ih]
    · simp [scanPackages, named, ih]

/-- The scan selects what the maps do. -/
theorem findPackage_eq_selectPackage (name arch : ByteString) :
    findPackage repoPackages name arch = selectPackage repoPackages arch name := by
  unfold findPackage selectPackage
  cases empty : arch.isEmpty with
  | true =>
    rw [List.isEmpty_iff.mp empty, scanPackages_any, Option.or_none]
    rfl
  | false =>
    rw [scanPackages_arch repoPackages empty, Option.none_or]
    rfl

end Selected

/-- **The maps of a resolution find what the scan finds**: nothing for the empty name, and
for any other the first entry of the name with the exact architecture, else the first for
`all`; without an architecture the first entry of the name. -/
theorem findPkg_eq_findPackage (repoPackages : PackageList) (name arch : ByteString) :
    (nameMaps repoPackages arch).findPkg arch name = findPackage repoPackages name arch ∧
      findPackage repoPackages name arch =
        if name.isEmpty then none
        else if arch.isEmpty then repoPackages.find? fun p => p.packageName == name
        else
          (repoPackages.find? fun p => p.packageName == name && p.architecture == arch).or
            (repoPackages.find? fun p => p.packageName == name && p.architecture == str "all") := by
  constructor
  · rw [findPkg_eq_selectPackage, findPackage_eq_selectPackage]
  · rw [findPackage_eq_selectPackage]
    rfl

/-- An entry without a name is the first of the empty name, and is not found. -/
theorem unnamed_not_found :
    ¬ ∀ (repoPackages : PackageList) (name arch : ByteString),
      (nameMaps repoPackages arch).findPkg arch name = findPackage repoPackages name arch ∧
        findPackage repoPackages name arch =
          if arch.isEmpty then repoPackages.find? fun p => p.packageName == name
          else
            (repoPackages.find? fun p => p.packageName == name && p.architecture == arch).or
              (repoPackages.find? fun p =>
                p.packageName == name && p.architecture == str "all") := by
  intro all
  have found := (all [{ packageName := [] }] [] []).2
  revert found
  decide

end Apm.Dep
