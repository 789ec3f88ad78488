import Apm.Core.Dependency

/-!
What the resolver computes, as statements about the dependency graph.

The nodes are names, an edge leads from a selected entry's name to each of its
colon-stripped non-self dependencies, and a name without a selected entry is
dangling. `visit` is the library's search of this graph with an install plan on
the side (`visit_simulates`).

## Main results

* `resolution_plan_correct` — a resolution that succeeds returns a topologically
  sorted plan of exactly the reachable packages that are not installed;
* `resolution_fails_exactly` — a resolution always ends, and fails exactly on a
  root without entry, an unresolvable reachable name, or a reachable cycle.
-/

namespace Apm.Dep

open Apm.Repo
open Apm.Lib.DepGraph (Graph Edge Reaches Search appendNew scan mem_appendNew)
open Relation

/-! ### The dependency graph -/

/-- The names an entry depends on. An empty name (of `""` or `":any"`) is none. -/
def dependencyNames (p : PackageEntry) : List ByteString :=
  (p.depends.map normalizeDependencyName).filter fun d => !(d.isEmpty || d == p.packageName)

def depGraph (findPkg : ByteString → Option PackageEntry) : Graph ByteString :=
  fun name => (findPkg name).map dependencyNames

/-- `c` lies on a directed cycle of length at least two. -/
def OnCycle (G : Graph ByteString) (c : ByteString) : Prop :=
  ∃ b, b ≠ c ∧ Reaches G c b ∧ Reaches G b c

/-- A selection returns an entry of the name asked for, and nothing for no name. -/
def WellNamed (findPkg : ByteString → Option PackageEntry) : Prop :=
  ∀ name p, findPkg name = some p → p.packageName = name ∧ name ≠ []

theorem find?_wellNamed {pkgs : PackageList} {name : ByteString} {keep : PackageEntry → Bool}
    {p : PackageEntry} (h : pkgs.find? (fun p => p.packageName == name && keep p) = some p) :
    p.packageName = name := by
  have := List.find?_some h
  simp only [Bool.and_eq_true, beq_iff_eq] at this
  exact this.1

theorem selectPackage_wellNamed (pkgs : PackageList) (arch : ByteString) :
    WellNamed (selectPackage pkgs arch) := by
  intro name p h
  unfold selectPackage at h
  split at h
  · cases h
  rename_i nonempty
  refine ⟨?_, fun e => nonempty (by rw [e]; rfl)⟩
  split at h
  · have := List.find?_some h
    simpa using this
  · rcases Option.or_eq_some_iff.mp h with h | ⟨-, h⟩
    · exact find?_wellNamed h
    · exact find?_wellNamed h

theorem selectTermux_wellNamed (pkgs : PackageList) : WellNamed (selectTermux pkgs) := by
  intro name p h
  unfold selectTermux at h
  split at h
  · cases h
  rename_i nonempty
  exact ⟨find?_wellNamed h, fun e => nonempty (by rw [e]; rfl)⟩

section Graph

variable {findPkg : ByteString → Option PackageEntry}

theorem edge_iff {a b : ByteString} :
    Edge (depGraph findPkg) a b ↔ ∃ p, findPkg a = some p ∧ b ∈ dependencyNames p := by
  unfold Edge depGraph
  simp only [Option.map_eq_some_iff]
  constructor
  · rintro ⟨_, ⟨p, hp, rfl⟩, hb⟩
    exact ⟨p, hp, hb⟩
  · rintro ⟨p, hp, hb⟩
    exact ⟨_, ⟨p, hp, rfl⟩, hb⟩

theorem depGraph_eq_none {name : ByteString} : depGraph findPkg name = none ↔ findPkg name = none :=
  Option.map_eq_none_iff

theorem depGraph_isSome {name : ByteString} :
    (depGraph findPkg name).isSome ↔ ∃ p, findPkg name = some p := by
  rw [depGraph, Option.isSome_map, Option.isSome_iff_exists]

/-- A name never depends on itself: `visit` skips such dependencies. -/
theorem depGraph_loopless (named : WellNamed findPkg) (a : ByteString) :
    ¬ Edge (depGraph findPkg) a a := by
  rw [edge_iff]
  rintro ⟨p, hp, ha⟩
  have := (List.mem_filter.mp ha).2
  simp [(named a p hp).1] at this

theorem onCycle_iff (named : WellNamed findPkg) (c : ByteString) :
    Lib.DepGraph.OnCycle (depGraph findPkg) c ↔ OnCycle (depGraph findPkg) c :=
  Lib.DepGraph.onCycle_iff (depGraph_loopless named) c

end Graph

/-! ### The walk simulates the search -/

/-- The colours and reports of a walk. -/
def Walk.search (w : Walk) : Search ByteString where
  visiting := w.visiting
  visited := w.visited
  missing := w.out.missing
  cycles := w.out.cycles

/-- The names a search that finished `visited` plans. -/
def planned (installedSet visited : List ByteString) : List ByteString :=
  (visited.filter fun name => !installedSet.contains name).foldl appendNew []

/-- What a walk carries beside the search: the sets that shadow its outputs, and
the plan, in the order in which the names were finished. -/
structure Tidy (findPkg : ByteString → Option PackageEntry) (installedSet : List ByteString)
    (w : Walk) : Prop where
  missingSet : ∀ name, name ∈ w.missingSet ↔ name ∈ w.out.missing
  cycleSet : ∀ name, name ∈ w.cycleSet ↔ name ∈ w.out.cycles
  plannedSet : w.plannedSet = planned installedSet w.visited
  installOrder : w.out.installOrder = w.plannedSet.filterMap findPkg

/-- A walk's result is tidy and shows the search's result. -/
structure Simulates (findPkg : ByteString → Option PackageEntry) (installedSet : List ByteString)
    (x : Option Walk) (y : Option (Search ByteString)) : Prop where
  search : x.map Walk.search = y
  tidy : ∀ w, x = some w → Tidy findPkg installedSet w

section Simulation

variable {findPkg : ByteString → Option PackageEntry} {installedSet : List ByteString}

theorem Tidy.simulates {w : Walk} (h : Tidy findPkg installedSet w) :
    Simulates findPkg installedSet (some w) (some w.search) :=
  ⟨rfl, fun _ e => Option.some.inj e ▸ h⟩

theorem Simulates.none : Simulates findPkg installedSet none none :=
  ⟨rfl, fun _ e => nomatch e⟩

/-- Simulation through a continuation. -/
theorem Simulates.bind {x : Option Walk} {y : Option (Search ByteString)}
    {f : Walk → Option Walk} {g : Search ByteString → Option (Search ByteString)}
    (h : Simulates findPkg installedSet x y)
    (hf : ∀ w, Tidy findPkg installedSet w → Simulates findPkg installedSet (f w) (g w.search)) :
    Simulates findPkg installedSet (x.bind f) (y.bind g) := by
  obtain ⟨rfl, tidy⟩ := h
  cases x with
  | none => exact .none
  | some w => exact hf w (tidy w rfl)

theorem appendUnique_eq {out seen : List ByteString} {name : ByteString}
    (shadow : ∀ n, n ∈ seen ↔ n ∈ out) (nonempty : name ≠ []) :
    (appendUnique out seen name).1 = appendNew out name ∧
      ∀ n, n ∈ (appendUnique out seen name).2 ↔ n ∈ appendNew out name := by
  unfold appendUnique appendNew
  by_cases old : name ∈ out
  · have old' := (shadow name).mpr old
    simp [old, old', shadow]
  · have new := mt (shadow name).mp old
    simp [old, new, nonempty, shadow, or_comm]

theorem Tidy.addMissing {w : Walk} (h : Tidy findPkg installedSet w) {name : ByteString}
    (nonempty : name ≠ []) :
    Tidy findPkg installedSet (w.addMissing name) ∧
      (w.addMissing name).search =
        { w.search with missing := appendNew w.search.missing name } := by
  obtain ⟨out, seen⟩ := appendUnique_eq h.missingSet nonempty
  refine ⟨⟨fun n => ?_, h.cycleSet, h.plannedSet, h.installOrder⟩, ?_⟩
  · simp only [Walk.addMissing, seen, out]
  · simp only [Walk.addMissing, Walk.search, out]

theorem Tidy.addCycle {w : Walk} (h : Tidy findPkg installedSet w) {name : ByteString}
    (nonempty : name ≠ []) :
    Tidy findPkg installedSet (w.addCycle name) ∧
      (w.addCycle name).search =
        { w.search with cycles := appendNew w.search.cycles name } := by
  obtain ⟨out, seen⟩ := appendUnique_eq h.cycleSet nonempty
  refine ⟨⟨h.missingSet, fun n => ?_, h.plannedSet, h.installOrder⟩, ?_⟩
  · simp only [Walk.addCycle, seen, out]
  · simp only [Walk.addCycle, Walk.search, out]

theorem planned_concat (installedSet visited : List ByteString) (name : ByteString) :
    planned installedSet (visited ++ [name]) =
      if installedSet.contains name then planned installedSet visited
      else appendNew (planned installedSet visited) name := by
  unfold planned
  rw [List.filter_append, List.foldl_append]
  by_cases h : name ∈ installedSet <;> simp [h]

theorem Tidy.finish {w : Walk} (h : Tidy findPkg installedSet w) {pkg : PackageEntry}
    (selected : findPkg pkg.packageName = some pkg) :
    Tidy findPkg installedSet (w.finish installedSet pkg) ∧
      (w.finish installedSet pkg).search =
        { w.search with
          visiting := w.search.visiting.erase pkg.packageName
          visited := w.search.visited ++ [pkg.packageName] } := by
  have plan := planned_concat installedSet w.visited pkg.packageName
  unfold Walk.finish
  split
  · rename_i installed
    rw [if_pos installed, ← h.plannedSet] at plan
    exact ⟨⟨h.missingSet, h.cycleSet, plan.symm, h.installOrder⟩, rfl⟩
  rename_i fresh
  rw [if_neg fresh, ← h.plannedSet, appendNew] at plan
  dsimp only
  split
  · rename_i old
    rw [if_pos (by simpa using old)] at plan
    exact ⟨⟨h.missingSet, h.cycleSet, plan.symm, h.installOrder⟩, rfl⟩
  · rename_i new
    rw [if_neg (by simpa using new)] at plan
    refine ⟨⟨h.missingSet, h.cycleSet, plan.symm, ?_⟩, rfl⟩
    simp [h.installOrder, selected]

/-- Erasing does not depend on which lawful equality test it uses. -/
theorem erase_instBEq (xs : List ByteString) (x : ByteString) :
    @List.erase _ instBEqOfDecidableEq xs x = xs.erase x := by
  rw [lawful_beq_subsingleton instBEqOfDecidableEq List.instBEq]

variable (named : WellNamed findPkg)

include named

/-- The loop over the dependencies simulates the scan of the successors. -/
theorem visitDeps_simulates {visitPkg : PackageEntry → Walk → Option Walk}
    {visitName : ByteString → Search ByteString → Option (Search ByteString)}
    (hv : ∀ p w, findPkg p.packageName = some p → Tidy findPkg installedSet w →
      Simulates findPkg installedSet (visitPkg p w) (visitName p.packageName w.search))
    (pkgName : ByteString) (depends : List ByteString) {w : Walk}
    (tidy : Tidy findPkg installedSet w) :
    Simulates findPkg installedSet (visitDeps findPkg visitPkg pkgName depends w)
      (scan (depGraph findPkg) visitName
        ((depends.map normalizeDependencyName).filter fun d => !(d.isEmpty || d == pkgName))
        w.search) := by
  induction depends generalizing w with
  | nil => exact tidy.simulates
  | cons depRaw rest ih =>
    rw [visitDeps, List.map_cons, List.filter_cons]
    cases skip : (normalizeDependencyName depRaw).isEmpty ||
        normalizeDependencyName depRaw == pkgName with
    | true => simpa [skip] using ih tidy
    | false =>
      have nonempty : normalizeDependencyName depRaw ≠ [] := by
        rintro e
        simp [e] at skip
      simp only [Bool.not_false, if_true, if_false, Bool.false_eq_true]
      rw [scan, depGraph]
      cases found : findPkg (normalizeDependencyName depRaw) with
      | none =>
        obtain ⟨tidy', same⟩ := tidy.addMissing nonempty
        simpa [same] using ih tidy'
      | some p =>
        obtain ⟨name, -⟩ := named _ p found
        have step := hv p w (name ▸ found) tidy
        rw [name] at step
        exact step.bind fun u tidyU => ih tidyU

/-- **The lambda simulates the library's visit.** -/
theorem visit_simulates (installedSet : List ByteString) (fuel : Nat) {pkg : PackageEntry}
    {w : Walk}
    (selected : findPkg pkg.packageName = some pkg) (tidy : Tidy findPkg installedSet w) :
    Simulates findPkg installedSet (visit findPkg installedSet fuel pkg w)
      (Lib.DepGraph.visit (depGraph findPkg) fuel pkg.packageName w.search) := by
  induction fuel generalizing pkg w with
  | zero => exact .none
  | succ fuel ih =>
    rw [visit, Lib.DepGraph.visit]
    by_cases black : pkg.packageName ∈ w.visited
    · simpa [black, Walk.search] using tidy.simulates
    by_cases grey : pkg.packageName ∈ w.visiting
    · obtain ⟨tidy', same⟩ := tidy.addCycle (named _ _ selected).2
      have := tidy'.simulates
      rw [same] at this
      simpa [black, grey, Walk.search] using this
    have start : Tidy findPkg installedSet
        { w with visiting := pkg.packageName :: w.visiting } :=
      ⟨tidy.missingSet, tidy.cycleSet, tidy.plannedSet, tidy.installOrder⟩
    have loop := visitDeps_simulates named (fun p u => ih) pkg.packageName pkg.depends start
    have whole := loop.bind (f := fun u => some (u.finish installedSet pkg))
      (g := fun t => some { t with
        visiting := t.visiting.erase pkg.packageName, visited := t.visited ++ [pkg.packageName] })
      fun u tidyU => by
        obtain ⟨tidy', same⟩ := tidyU.finish selected
        have := tidy'.simulates
        rwa [same] at this
    have succs : ((depGraph findPkg) pkg.packageName).getD [] = dependencyNames pkg := by
      simp [depGraph, selected]
    simpa [black, grey, Walk.search, succs, dependencyNames, Option.map_eq_bind,
      erase_instBEq] using whole

end Simulation

/-! ### Termination -/

section Termination

variable {findPkg : ByteString → Option PackageEntry} {installedSet : List ByteString}

theorem visitDeps_mono {visit visit' : PackageEntry → Walk → Option Walk}
    (h : ∀ p w w', visit p w = some w' → visit' p w = some w') {pkgName : ByteString}
    (depends : List ByteString) {w w' : Walk}
    (hw : visitDeps findPkg visit pkgName depends w = some w') :
    visitDeps findPkg visit' pkgName depends w = some w' := by
  induction depends generalizing w with
  | nil => exact hw
  | cons depRaw rest ih =>
    rw [visitDeps] at hw ⊢
    split at hw
    · rename_i skip
      rw [if_pos skip]
      exact ih hw
    rename_i keep
    rw [if_neg keep]
    split at hw
    · exact ih hw
    · obtain ⟨u, hu, huw⟩ := Option.bind_eq_some_iff.mp hw
      rw [h _ _ _ hu]
      exact ih huw

/-- More fuel does not change a result. -/
theorem visit_mono {fuel more : Nat} (le : fuel ≤ more) {pkg : PackageEntry} {w w' : Walk}
    (h : visit findPkg installedSet fuel pkg w = some w') :
    visit findPkg installedSet more pkg w = some w' := by
  induction fuel generalizing more pkg w w' with
  | zero => cases h
  | succ fuel ih =>
    cases more with
    | zero => omega
    | succ more =>
      rw [visit] at h ⊢
      split at h
      · rename_i black
        rwa [if_pos black]
      rename_i white
      rw [if_neg white]
      split at h
      · rename_i grey
        rwa [if_pos grey]
      rename_i fresh
      rw [if_neg fresh]
      obtain ⟨u, hu, rfl⟩ := Option.map_eq_some_iff.mp h
      rw [visitDeps_mono (fun p v v' => ih (by omega)) _ hu]
      rfl

/-- Every selected entry is one of the list. -/
def SelectsFrom (pkgs : PackageList) (findPkg : ByteString → Option PackageEntry) : Prop :=
  ∀ name p, findPkg name = some p → p ∈ pkgs

theorem selectPackage_from (pkgs : PackageList) (arch : ByteString) :
    SelectsFrom pkgs (selectPackage pkgs arch) := by
  intro name p h
  unfold selectPackage at h
  split at h
  · cases h
  split at h
  · exact List.mem_of_find?_eq_some h
  · rcases Option.or_eq_some_iff.mp h with h | ⟨-, h⟩
    · exact List.mem_of_find?_eq_some h
    · exact List.mem_of_find?_eq_some h

theorem selectTermux_from (pkgs : PackageList) : SelectsFrom pkgs (selectTermux pkgs) := by
  intro name p h
  unfold selectTermux at h
  split at h
  · cases h
  · exact List.mem_of_find?_eq_some h

/-- **One visit per listed entry is fuel enough.** -/
theorem visit_root_total (installedSet : List ByteString) {pkgs : PackageList}
    (named : WellNamed findPkg) (fromList : SelectsFrom pkgs findPkg) {pkg : PackageEntry}
    (selected : findPkg pkg.packageName = some pkg) :
    ∃ w, visit findPkg installedSet (pkgs.length + 1) pkg {} = some w := by
  have known : ∀ a, (depGraph findPkg a).isSome → a ∈ (pkgs.map (·.packageName)).toFinset := by
    intro a ha
    obtain ⟨p, hp⟩ := depGraph_isSome.mp ha
    rw [List.mem_toFinset, List.mem_map]
    exact ⟨p, fromList a p hp, (named a p hp).1⟩
  have card := List.toFinset_card_le (pkgs.map (·.packageName))
  rw [List.length_map] at card
  obtain ⟨t, ht⟩ : ∃ t, Lib.DepGraph.visit (depGraph findPkg) (pkgs.length + 1)
      pkg.packageName {} = some t :=
    Lib.DepGraph.visit_total known (depGraph_isSome.mpr ⟨pkg, selected⟩) List.nodup_nil (by simp)
      (by rw [List.length_nil]; omega)
  have sim := (visit_simulates named installedSet (pkgs.length + 1) selected
    (w := {}) ⟨by simp, by simp, rfl, rfl⟩).search
  rw [show Walk.search {} = {} from rfl, ht] at sim
  obtain ⟨w, hw, -⟩ := Option.map_eq_some_iff.mp sim
  exact ⟨w, hw⟩

end Termination

/-! ### Plans -/

/-- A successful resolution's plan: one entry for each reachable name that is not
installed, after the entries of what it depends on. -/
structure PlanCorrect (findPkg : ByteString → Option PackageEntry) (root : ByteString)
    (alreadyInstalled : List ByteString) (plan : List PackageEntry) : Prop where
  nodup : (plan.map (·.packageName)).Nodup
  exact : ∀ p, p ∈ plan ↔
    ∃ name, Reaches (depGraph findPkg) root name ∧ name ∉ alreadyInstalled ∧
      findPkg name = some p
  sorted : ∀ before p after, plan = before ++ p :: after →
    ∀ name q, TransGen (Edge (depGraph findPkg)) p.packageName name → name ∉ alreadyInstalled →
      findPkg name = some q → q ∈ before
  rootLast : root ∉ alreadyInstalled → ∃ p, findPkg root = some p ∧ plan.getLast? = some p

/-- `m` is a dependency of a reachable entry and has no entry itself. -/
def Unresolvable (findPkg : ByteString → Option PackageEntry) (root m : ByteString) : Prop :=
  findPkg m = none ∧ ∃ a, Reaches (depGraph findPkg) root a ∧ Edge (depGraph findPkg) a m

/-- `c` is on a cycle that the root reaches. -/
def ReachableCycle (findPkg : ByteString → Option PackageEntry) (root c : ByteString) : Prop :=
  Reaches (depGraph findPkg) root c ∧ OnCycle (depGraph findPkg) c

/-- A resolution fails only when it must, and reports exactly what is wrong. -/
structure FailsExactly (findPkg : ByteString → Option PackageEntry) (root : ByteString)
    (r : Resolution) : Prop where
  ok : r.ok = false ↔ root = [] ∨ findPkg root = none ∨ (∃ m, Unresolvable findPkg root m) ∨
    ∃ c, ReachableCycle findPkg root c
  missing : ∀ m, m ∈ r.out.missing ↔ Unresolvable findPkg root m
  cyclesOn : ∀ c ∈ r.out.cycles, OnCycle (depGraph findPkg) c
  cycles : r.out.cycles ≠ [] ↔ ∃ c, ReachableCycle findPkg root c

section Plan

variable {findPkg : ByteString → Option PackageEntry} {root : ByteString}

theorem foldl_appendNew {xs acc : List ByteString} (nodup : (acc ++ xs).Nodup) :
    xs.foldl appendNew acc = acc ++ xs := by
  induction xs generalizing acc with
  | nil => simp
  | cons x xs ih =>
    have new : x ∉ acc := fun hx =>
      (List.nodup_append.mp nodup).2.2 x hx x List.mem_cons_self rfl
    rw [List.foldl_cons, appendNew, if_neg new, ih (by simpa using nodup)]
    simp

theorem planned_of_nodup {installedSet visited : List ByteString} (nodup : visited.Nodup) :
    planned installedSet visited = visited.filter fun name => !installedSet.contains name :=
  foldl_appendNew (List.Nodup.filter _ nodup)

/-- The entries selected for known names carry these names. -/
theorem names_filterMap (named : WellNamed findPkg) {names : List ByteString}
    (known : ∀ name ∈ names, (findPkg name).isSome) :
    (names.filterMap findPkg).map (·.packageName) = names := by
  induction names with
  | nil => rfl
  | cons name names ih =>
    obtain ⟨p, hp⟩ := Option.isSome_iff_exists.mp (known name List.mem_cons_self)
    rw [List.filterMap_cons_some hp, List.map_cons, (named name p hp).1,
      ih fun n hn => known n (List.mem_cons_of_mem _ hn)]

/-- The plan of an acyclic search. -/
theorem planCorrect_of_searched (named : WellNamed findPkg) {installed : List ByteString}
    {t : Search ByteString} (searched : Lib.DepGraph.Searched (depGraph findPkg) root t)
    (acyclic : t.cycles = []) (known : (findPkg root).isSome) :
    PlanCorrect findPkg root installed
      ((t.visited.filter fun name => !installed.contains name).filterMap findPkg) := by
  have knownAll : ∀ name ∈ t.visited.filter (fun name => !installed.contains name),
      (findPkg name).isSome := by
    intro name hname
    have := ((searched.visited name).mp (List.mem_filter.mp hname).1).2
    exact Option.isSome_iff_exists.mpr (depGraph_isSome.mp this)
  have names := names_filterMap named knownAll
  refine ⟨?_, ?_, ?_, ?_⟩
  · rw [names]
    exact searched.nodup.filter _
  · intro p
    simp only [List.mem_filterMap, List.mem_filter, searched.visited, depGraph_isSome]
    constructor
    · rintro ⟨name, ⟨⟨reach, -⟩, fresh⟩, hp⟩
      exact ⟨name, reach, by simpa using fresh, hp⟩
    · rintro ⟨name, reach, fresh, hp⟩
      exact ⟨name, ⟨⟨reach, p, hp⟩, by simpa using fresh⟩, hp⟩
  · intro before p after split name q path fresh hq
    rw [split, List.map_append, List.map_cons] at names
    obtain ⟨done, rest, visited, hdone, hrest⟩ := List.filter_eq_append_iff.mp names.symm
    obtain ⟨skipped, later, rfl, hskipped, -, -⟩ := List.filter_eq_cons_iff.mp hrest
    have hname : name ∈ done ++ skipped :=
      searched.sorted acyclic (done ++ skipped) p.packageName later (by simp [visited]) name path
        (depGraph_isSome.mpr ⟨q, hq⟩)
    have hbefore : name ∈ before.map (·.packageName) := by
      rcases List.mem_append.mp hname with hd | hs
      · rw [← hdone]
        exact List.mem_filter.mpr ⟨hd, by simpa using fresh⟩
      · exact absurd (by simpa using fresh) (hskipped name hs)
    obtain ⟨q', hq', rfl⟩ := List.mem_map.mp hbefore
    have planned : q' ∈ (t.visited.filter fun name => !installed.contains name).filterMap findPkg :=
      split ▸ List.mem_append_left _ hq'
    obtain ⟨name', -, selected⟩ := List.mem_filterMap.mp planned
    rw [(named name' q' selected).1, selected] at hq
    exact Option.some.inj hq ▸ hq'
  · intro fresh
    obtain ⟨p, hp⟩ := Option.isSome_iff_exists.mp known
    obtain ⟨init, hinit⟩ := List.getLast?_eq_some_iff.mp (searched.last acyclic)
    refine ⟨p, hp, ?_⟩
    rw [hinit, List.filter_append, List.filterMap_append]
    simp [fresh, hp]

end Plan

/-! ### Whole resolutions -/

section Whole

variable {findPkg : ByteString → Option PackageEntry} {pkgs : PackageList}
  (named : WellNamed findPkg)

include named

/-- Every resolution ends, with fuel for one visit per entry. -/
theorem resolveRecursive_total (fromList : SelectsFrom pkgs findPkg) (root : ByteString)
    (installed : List ByteString) (notFoundPrefix : ByteString) :
    ∃ r, ∀ fuel, pkgs.length < fuel →
      resolveRecursive fuel root installed findPkg notFoundPrefix = some r := by
  unfold resolveRecursive
  split
  · exact ⟨_, fun _ _ => rfl⟩
  cases selected : findPkg root with
  | none => exact ⟨_, fun _ _ => rfl⟩
  | some p =>
    have hp : findPkg p.packageName = some p := by rw [(named root p selected).1, selected]
    obtain ⟨w, hw⟩ := visit_root_total installed named fromList hp
    exact ⟨_, fun fuel enough => congrArg (Option.map _) (visit_mono enough hw)⟩

omit named in
/-- Nothing is reachable from a root without entry. -/
theorem failsExactly_unknown {root : ByteString} (unknown : findPkg root = none)
    (errorMsg : ByteString) : FailsExactly findPkg root { ok := false, out := {}, errorMsg } := by
  have noEdge : ∀ {b}, ¬ Edge (depGraph findPkg) root b := by
    intro b edge
    obtain ⟨p, hp, -⟩ := edge_iff.mp edge
    simp [unknown] at hp
  have stay : ∀ {b}, Reaches (depGraph findPkg) root b → b = root := by
    intro b reach
    rcases ReflTransGen.cases_head reach with same | ⟨c, edge, -⟩
    · exact same.symm
    · exact absurd edge noEdge
  have noCycle : ¬ ∃ c, ReachableCycle findPkg root c := by
    rintro ⟨c, reach, b, other, out, -⟩
    rw [stay reach] at out other
    exact other (stay out)
  have noMissing : ∀ m, ¬ Unresolvable findPkg root m := by
    rintro m ⟨-, a, reach, edge⟩
    exact noEdge (stay reach ▸ edge)
  exact ⟨⟨fun _ => .inr (.inl unknown), fun _ => rfl⟩,
    fun m => ⟨by simp, fun h => (noMissing m h).elim⟩,
    by simp, ⟨by simp, fun h => (noCycle h).elim⟩⟩

/-- The reports and the plan of a finished walk. -/
theorem walk_spec {fuel : Nat} {root : ByteString} {installed : List ByteString}
    {p : PackageEntry} {w : Walk} (selected : findPkg root = some p)
    (hw : visit findPkg installed fuel p {} = some w) :
    (∀ m, m ∈ w.out.missing ↔ Unresolvable findPkg root m) ∧
      (∀ c ∈ w.out.cycles, OnCycle (depGraph findPkg) c) ∧
      (w.out.cycles ≠ [] ↔ ∃ c, ReachableCycle findPkg root c) ∧
      (w.out.cycles = [] → PlanCorrect findPkg root installed w.out.installOrder) := by
  have name := (named root p selected).1
  have sim := visit_simulates named installed fuel
    (name ▸ selected) (w := {}) ⟨by simp, by simp, rfl, rfl⟩
  have hsearch := sim.search
  rw [hw, Option.map_some, name] at hsearch
  have tidy := sim.tidy w hw
  have searched := Lib.DepGraph.search_spec (depGraph_isSome.mpr ⟨p, selected⟩) hsearch.symm
  refine ⟨fun m => (searched.missing m).trans ?_,
    fun c hc => (onCycle_iff named c).mp (searched.cyclesOn c hc), searched.cycles.trans ?_,
    fun acyclic => ?_⟩
  · rw [depGraph_eq_none, Unresolvable, and_comm]
    refine and_congr_right fun hm => ⟨fun reach => ?_, fun ⟨a, ha, edge⟩ => ha.tail edge⟩
    rcases ReflTransGen.cases_tail reach with rfl | ⟨a, ha, edge⟩
    · simp [hm] at selected
    · exact ⟨a, ha, edge⟩
  · exact exists_congr fun c => and_congr_right fun _ => onCycle_iff named c
  · have nodup : w.visited.Nodup := searched.nodup
    rw [tidy.installOrder, tidy.plannedSet, planned_of_nodup nodup]
    exact planCorrect_of_searched named searched acyclic (by simp [selected])

/-- **What a finished resolution says**, whatever fuel it had. -/
theorem resolveRecursive_spec {fuel : Nat} {root : ByteString} {installed : List ByteString}
    {notFoundPrefix : ByteString} {r : Resolution}
    (h : resolveRecursive fuel root installed findPkg notFoundPrefix = some r) :
    FailsExactly findPkg root r ∧
      (r.ok = true → PlanCorrect findPkg root installed r.out.installOrder) := by
  unfold resolveRecursive at h
  split at h
  · rename_i empty
    have unknown : findPkg root = none := by
      refine Option.eq_none_iff_forall_not_mem.mpr fun p hp => ?_
      exact (named root p hp).2 (List.isEmpty_iff.mp empty)
    cases h
    exact ⟨failsExactly_unknown unknown _, by simp⟩
  rename_i nonempty
  have nonempty : root ≠ [] := mt List.isEmpty_iff.mpr nonempty
  cases selected : findPkg root with
  | none =>
    rw [selected] at h
    cases h
    exact ⟨failsExactly_unknown selected _, by simp⟩
  | some p =>
    rw [selected] at h
    obtain ⟨w, hw, rfl⟩ := Option.map_eq_some_iff.mp h
    obtain ⟨missing, cyclesOn, cycles, plan⟩ := walk_spec named selected hw
    have success : w.out.success = true ↔ w.out.missing = [] ∧ w.out.cycles = [] := by
      simp [ResolutionResult.success]
    have anyMissing : w.out.missing ≠ [] ↔ ∃ m, Unresolvable findPkg root m := by
      simp only [← missing]
      exact ⟨List.exists_mem_of_ne_nil _, fun ⟨m, hm⟩ => List.ne_nil_of_mem hm⟩
    have fails : w.out.success = false ↔ root = [] ∨ findPkg root = none ∨
        (∃ m, Unresolvable findPkg root m) ∨ ∃ c, ReachableCycle findPkg root c := by
      rw [← Bool.not_eq_true, success, not_and_or, ← anyMissing, ← cycles]
      simp [selected, nonempty]
    cases ok : w.out.success with
    | true =>
      refine ⟨⟨?_, missing, cyclesOn, cycles⟩, fun _ => plan (success.mp ok).2⟩
      simpa [ok] using fails
    | false =>
      refine ⟨⟨?_, missing, cyclesOn, cycles⟩, by simp⟩
      simpa [ok] using fails

end Whole

/-! ### The two entry points -/

theorem resolveDependencies_total (repoPackages : PackageList) (rootPackage arch : ByteString)
    (alreadyInstalled : List ByteString) :
    ∃ r, ∀ fuel, repoPackages.length < fuel →
      resolveRecursive fuel rootPackage alreadyInstalled
        ((nameMaps repoPackages arch).findPkg arch)
        (str "Package not found in repositories: ") = some r := by
  rw [findPkg_eq_selectPackage]
  exact resolveRecursive_total (selectPackage_wellNamed _ _) (selectPackage_from _ _) _ _ _

theorem resolveTermuxDependencies_total (repoPackages : PackageList) (rootPackage : ByteString)
    (alreadyInstalled : List ByteString) :
    ∃ r, ∀ fuel, repoPackages.length < fuel →
      resolveRecursive fuel rootPackage alreadyInstalled
        (fun name => (termuxByName repoPackages).lookup name)
        (str "Package not found in Termux repositories: ") = some r := by
  rw [termuxByName_lookup]
  exact resolveRecursive_total (selectTermux_wellNamed _) (selectTermux_from _) _ _ _

theorem isSome_of_total {f : Nat → Option Resolution} {n : Nat}
    (h : ∃ r, ∀ fuel, n < fuel → f fuel = some r) : (f (n + 1)).isSome := by
  obtain ⟨r, hr⟩ := h
  simp [hr (n + 1) (Nat.lt_succ_self n)]

def resolveDependencies (repoPackages : PackageList) (rootPackage arch : ByteString)
    (alreadyInstalled : List ByteString) : Resolution :=
  (resolveRecursive (repoPackages.length + 1) rootPackage alreadyInstalled
    ((nameMaps repoPackages arch).findPkg arch)
    (str "Package not found in repositories: ")).get
    (isSome_of_total (resolveDependencies_total _ _ _ _))

def resolveTermuxDependencies (repoPackages : PackageList) (rootPackage : ByteString)
    (alreadyInstalled : List ByteString) : Resolution :=
  (resolveRecursive (repoPackages.length + 1) rootPackage alreadyInstalled
    (fun name => (termuxByName repoPackages).lookup name)
    (str "Package not found in Termux repositories: ")).get
    (isSome_of_total (resolveTermuxDependencies_total _ _ _))

theorem resolveDependencies_spec (repoPackages : PackageList) (rootPackage arch : ByteString)
    (alreadyInstalled : List ByteString) :
    FailsExactly (selectPackage repoPackages arch) rootPackage
        (resolveDependencies repoPackages rootPackage arch alreadyInstalled) ∧
      ((resolveDependencies repoPackages rootPackage arch alreadyInstalled).ok = true →
        PlanCorrect (selectPackage repoPackages arch) rootPackage alreadyInstalled
          (resolveDependencies repoPackages rootPackage arch alreadyInstalled
            ).out.installOrder) := by
  have h := Option.some_get
    (isSome_of_total (resolveDependencies_total repoPackages rootPackage arch alreadyInstalled))
  rw [← findPkg_eq_selectPackage]
  exact resolveRecursive_spec (findPkg_eq_selectPackage _ _ ▸ selectPackage_wellNamed _ _) h.symm

theorem resolveTermuxDependencies_spec (repoPackages : PackageList) (rootPackage : ByteString)
    (alreadyInstalled : List ByteString) :
    FailsExactly (selectTermux repoPackages) rootPackage
        (resolveTermuxDependencies repoPackages rootPackage alreadyInstalled) ∧
      ((resolveTermuxDependencies repoPackages rootPackage alreadyInstalled).ok = true →
        PlanCorrect (selectTermux repoPackages) rootPackage alreadyInstalled
          (resolveTermuxDependencies repoPackages rootPackage alreadyInstalled
            ).out.installOrder) := by
  have h := Option.some_get
    (isSome_of_total (resolveTermuxDependencies_total repoPackages rootPackage alreadyInstalled))
  rw [← termuxByName_lookup]
  exact resolveRecursive_spec (termuxByName_lookup _ ▸ selectTermux_wellNamed _) h.symm

/-! ### The installed names -/

section Congr

variable {installed installed' : List ByteString}
  (same : ∀ name, name ∈ installed ↔ name ∈ installed')
include same

theorem Walk.finish_congr (w : Walk) (pkg : PackageEntry) :
    w.finish installed pkg = w.finish installed' pkg := by
  have contains : installed.contains pkg.packageName = installed'.contains pkg.packageName := by
    rw [Bool.eq_iff_iff, List.contains_iff_mem, List.contains_iff_mem, same]
  simp only [Walk.finish, contains]

/-- The installed names count as a set. -/
theorem visit_congr (findPkg : ByteString → Option PackageEntry) (fuel : Nat) :
    visit findPkg installed fuel = visit findPkg installed' fuel := by
  induction fuel with
  | zero => rfl
  | succ fuel ih =>
    funext pkg w
    simp only [visit, ih, Walk.finish_congr same]

theorem resolveRecursive_congr (fuel : Nat) (rootPackage : ByteString)
    (findPkg : ByteString → Option PackageEntry) (notFoundPrefix : ByteString) :
    resolveRecursive fuel rootPackage installed findPkg notFoundPrefix =
      resolveRecursive fuel rootPackage installed' findPkg notFoundPrefix := by
  simp only [resolveRecursive, visit_congr same]

theorem resolveDependencies_congr (repoPackages : PackageList) (rootPackage arch : ByteString) :
    resolveDependencies repoPackages rootPackage arch installed =
      resolveDependencies repoPackages rootPackage arch installed' := by
  simp only [resolveDependencies, resolveRecursive_congr same]

theorem resolveTermuxDependencies_congr (repoPackages : PackageList) (rootPackage : ByteString) :
    resolveTermuxDependencies repoPackages rootPackage installed =
      resolveTermuxDependencies repoPackages rootPackage installed' := by
  simp only [resolveTermuxDependencies, resolveRecursive_congr same]

end Congr

/-! ### What a resolution looks at -/

section Agree

variable {findPkg findPkg' : ByteString → Option PackageEntry} {root : ByteString}
  {installedSet : List ByteString} (named : WellNamed findPkg)
  (agree : ∀ name, Reaches (depGraph findPkg) root name → findPkg' name = findPkg name)
include named agree

theorem visitDeps_eq_of_agree {visitPkg visitPkg' : PackageEntry → Walk → Option Walk}
    (same : ∀ p w, findPkg p.packageName = some p → Reaches (depGraph findPkg) root p.packageName →
      visitPkg' p w = visitPkg p w)
    {pkg : PackageEntry} (selected : findPkg pkg.packageName = some pkg)
    (reached : Reaches (depGraph findPkg) root pkg.packageName) {depends : List ByteString}
    (own : ∀ dep ∈ depends, dep ∈ pkg.depends) (w : Walk) :
    visitDeps findPkg' visitPkg' pkg.packageName depends w =
      visitDeps findPkg visitPkg pkg.packageName depends w := by
  induction depends generalizing w with
  | nil => rfl
  | cons depRaw rest ih =>
    obtain ⟨ownDep, ownRest⟩ := List.forall_mem_cons.mp own
    rw [visitDeps, visitDeps]
    split
    · exact ih ownRest w
    · rename_i keep
      have edge : Edge (depGraph findPkg) pkg.packageName (normalizeDependencyName depRaw) := by
        rw [edge_iff]
        refine ⟨pkg, selected, List.mem_filter.mpr ⟨List.mem_map_of_mem ownDep, ?_⟩⟩
        simpa using keep
      have reachedDep := reached.tail edge
      rw [agree _ reachedDep]
      cases found : findPkg (normalizeDependencyName depRaw) with
      | none => exact ih ownRest _
      | some depPkg =>
        have name := (named _ _ found).1
        have visits : visitPkg' depPkg w = visitPkg depPkg w := by
          apply same
          · rw [name]
            exact found
          · rw [name]
            exact reachedDep
        dsimp only
        rw [visits]
        congr 1
        funext w
        exact ih ownRest w

theorem visit_eq_of_agree (fuel : Nat) {pkg : PackageEntry}
    (selected : findPkg pkg.packageName = some pkg)
    (reached : Reaches (depGraph findPkg) root pkg.packageName) (w : Walk) :
    visit findPkg' installedSet fuel pkg w = visit findPkg installedSet fuel pkg w := by
  induction fuel generalizing pkg w with
  | zero => rfl
  | succ fuel ih =>
    rw [visit, visit]
    have deps := visitDeps_eq_of_agree named agree
      (fun p w selected reached => ih selected reached w) selected reached (fun _ own => own)
      { w with visiting := pkg.packageName :: w.visiting }
    rw [deps]

/-- **A resolution looks at the reachable names only.** -/
theorem resolveRecursive_eq_of_agree (fuel : Nat) (notFoundPrefix : ByteString) :
    resolveRecursive fuel root installedSet findPkg' notFoundPrefix =
      resolveRecursive fuel root installedSet findPkg notFoundPrefix := by
  rw [resolveRecursive, resolveRecursive, agree root .refl]
  split
  · rfl
  · cases found : findPkg root with
    | none => rfl
    | some rootPkg =>
      have name := (named _ _ found).1
      have visits : visit findPkg' installedSet fuel rootPkg {} =
          visit findPkg installedSet fuel rootPkg {} := by
        apply visit_eq_of_agree named agree
        · rw [name]
          exact found
        · rw [name]
      dsimp only
      rw [visits]

end Agree

/-! ### Main results -/

/-- **A successful resolution returns the right plan.** -/
theorem resolution_plan_correct (repoPackages : PackageList) (rootPackage arch : ByteString)
    (alreadyInstalled : List ByteString) :
    ((resolveDependencies repoPackages rootPackage arch alreadyInstalled).ok = true →
      PlanCorrect (selectPackage repoPackages arch) rootPackage alreadyInstalled
        (resolveDependencies repoPackages rootPackage arch alreadyInstalled).out.installOrder) ∧
    ((resolveTermuxDependencies repoPackages rootPackage alreadyInstalled).ok = true →
      PlanCorrect (selectTermux repoPackages) rootPackage alreadyInstalled
        (resolveTermuxDependencies repoPackages rootPackage alreadyInstalled).out.installOrder) :=
  ⟨(resolveDependencies_spec _ _ _ _).2, (resolveTermuxDependencies_spec _ _ _).2⟩

/-- An application, a library in two flavours and architectures, and an installed tool. -/
def samplePackages : PackageList :=
  [{ packageName := str "app", architecture := str "arm64",
     depends := [str "lib:any", str "app", str "tool"], isTermuxPackage := true },
   { packageName := str "lib", architecture := str "all" },
   { packageName := str "lib", architecture := str "arm64", depends := [str "tool"],
     isTermuxPackage := true },
   { packageName := str "tool", architecture := str "all", isTermuxPackage := true }]

theorem resolution_plan_correct_sample :
    PlanCorrect (selectPackage samplePackages (str "arm64")) (str "app") [str "tool"]
        (resolveDependencies samplePackages (str "app") (str "arm64")
          [str "tool"]).out.installOrder ∧
      PlanCorrect (selectTermux samplePackages) (str "app") [str "tool"]
        (resolveTermuxDependencies samplePackages (str "app") [str "tool"]).out.installOrder :=
  have h := resolution_plan_correct samplePackages (str "app") (str "arm64") [str "tool"]
  ⟨h.1 (by decide +kernel), h.2 (by decide +kernel)⟩

/-- **Resolution always ends, and fails exactly when it must.** -/
theorem resolution_fails_exactly (repoPackages : PackageList) (rootPackage arch : ByteString)
    (alreadyInstalled : List ByteString) :
    (∀ fuel, repoPackages.length < fuel →
      resolveRecursive fuel rootPackage alreadyInstalled
          ((nameMaps repoPackages arch).findPkg arch)
          (str "Package not found in repositories: ") =
        some (resolveDependencies repoPackages rootPackage arch alreadyInstalled)) ∧
    (∀ fuel, repoPackages.length < fuel →
      resolveRecursive fuel rootPackage alreadyInstalled
          (fun name => (termuxByName repoPackages).lookup name)
          (str "Package not found in Termux repositories: ") =
        some (resolveTermuxDependencies repoPackages rootPackage alreadyInstalled)) ∧
    FailsExactly (selectPackage repoPackages arch) rootPackage
      (resolveDependencies repoPackages rootPackage arch alreadyInstalled) ∧
    FailsExactly (selectTermux repoPackages) rootPackage
      (resolveTermuxDependencies repoPackages rootPackage alreadyInstalled) := by
  refine ⟨fun fuel enough => ?_, fun fuel enough => ?_, (resolveDependencies_spec _ _ _ _).1,
    (resolveTermuxDependencies_spec _ _ _).1⟩
  · obtain ⟨r, hr⟩ := resolveDependencies_total repoPackages rootPackage arch alreadyInstalled
    simp only [resolveDependencies, hr fuel enough, hr _ (Nat.lt_succ_self _), Option.get_some]
  · obtain ⟨r, hr⟩ := resolveTermuxDependencies_total repoPackages rootPackage alreadyInstalled
    simp only [resolveTermuxDependencies, hr fuel enough, hr _ (Nat.lt_succ_self _),
      Option.get_some]

end Apm.Dep
