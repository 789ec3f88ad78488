import Mathlib.Data.Finset.Card
import Mathlib.Data.List.Chain
import Mathlib.Data.List.Nodup
import Mathlib.Logic.Relation

/-!
Depth-first topological sorting of a graph with dangling edges.

A graph maps a node to its successors, or to `none` when nothing is known about
it. `visit` is the classical three-colour search: a node is white until its visit
starts, grey (`visiting`) while its successors are searched, black (`visited`, in
finishing order) afterwards. Dangling successors and grey successors are reported
and the search goes on.

`visit_total` says that enough fuel always gives a result, `search_spec` what the
result of a whole search says about the graph: the black nodes are the known
reachable ones, `missing` is the set of dangling reachable ones, `cycles` holds
only nodes on cycles and is empty exactly when no cycle is reachable, and without
cycles the finishing order is topological.
-/

namespace Apm.Lib.DepGraph

open Relation

variable {α : Type*}

abbrev Graph (α : Type*) := α → Option (List α)

/-- `a` is known and lists `b`. -/
def Edge (G : Graph α) (a b : α) : Prop := ∃ ds, G a = some ds ∧ b ∈ ds

/-- Nodes reachable along edges, the start included. -/
abbrev Reaches (G : Graph α) : α → α → Prop := ReflTransGen (Edge G)

/-- `a` lies on a directed cycle. -/
abbrev OnCycle (G : Graph α) (a : α) : Prop := TransGen (Edge G) a a

/-- Without self-loops, a node is on a cycle exactly when it reaches another node
and comes back. -/
theorem onCycle_iff {G : Graph α} (loopless : ∀ a, ¬ Edge G a a) (a : α) :
    OnCycle G a ↔ ∃ b, b ≠ a ∧ Reaches G a b ∧ Reaches G b a := by
  constructor
  · intro cycle
    obtain ⟨b, edge, back⟩ := TransGen.head'_iff.mp cycle
    refine ⟨b, ?_, .single edge, back⟩
    rintro rfl
    exact loopless b edge
  · rintro ⟨b, other, out, back⟩
    rcases reflTransGen_iff_eq_or_transGen.mp out with same | path
    · exact absurd same other
    · exact path.trans_left back

/-- The colours and reports of a search. -/
structure Search (α : Type*) where
  visiting : List α := []
  visited : List α := []
  missing : List α := []
  cycles : List α := []

/-- Append a name that is not there yet. -/
def appendNew [DecidableEq α] (xs : List α) (x : α) : List α := if x ∈ xs then xs else xs ++ [x]

/-- Visit the known successors in order and report the dangling ones. -/
def scan [DecidableEq α] (G : Graph α) (visitOne : α → Search α → Option (Search α)) :
    List α → Search α → Option (Search α)
  | [], s => some s
  | d :: ds, s =>
      match G d with
      | none => scan G visitOne ds { s with missing := appendNew s.missing d }
      | some _ => (visitOne d s).bind (scan G visitOne ds)

/-- The recursive visit. `none` means out of fuel. -/
def visit [DecidableEq α] (G : Graph α) : Nat → α → Search α → Option (Search α)
  | 0, _, _ => none
  | fuel + 1, a, s =>
      if a ∈ s.visited then some s
      else if a ∈ s.visiting then some { s with cycles := appendNew s.cycles a }
      else
        (scan G (visit G fuel) ((G a).getD []) { s with visiting := a :: s.visiting }).map fun t =>
          { t with visiting := t.visiting.erase a, visited := t.visited ++ [a] }

@[simp] theorem mem_appendNew [DecidableEq α] {xs : List α} {x y : α} :
    y ∈ appendNew xs x ↔ y ∈ xs ∨ y = x := by
  unfold appendNew
  split
  · rename_i h
    exact ⟨.inl, fun hy => hy.elim id fun e => e ▸ h⟩
  · simp

/-! ### What every visit does -/

section Grow

variable {G : Graph α}

/-- What a visit does whatever the state: the grey nodes come back, everything
else only grows. -/
structure Grows (s t : Search α) : Prop where
  visiting : t.visiting = s.visiting
  visited : s.visited <+: t.visited
  missing : s.missing ⊆ t.missing
  cycles : s.cycles ⊆ t.cycles

theorem Grows.refl (s : Search α) : Grows s s :=
  ⟨rfl, List.prefix_refl _, List.Subset.refl _, List.Subset.refl _⟩

theorem Grows.trans {s t u : Search α} (h : Grows s t) (h' : Grows t u) : Grows s u :=
  ⟨h'.visiting.trans h.visiting, h.visited.trans h'.visited, fun _ hx => h'.missing (h.missing hx),
    fun _ hx => h'.cycles (h.cycles hx)⟩

theorem Grows.addMissing [DecidableEq α] (s : Search α) (d : α) :
    Grows s { s with missing := appendNew s.missing d } :=
  ⟨rfl, List.prefix_refl _, fun _ h => mem_appendNew.mpr (.inl h), List.Subset.refl _⟩

theorem Grows.addCycle [DecidableEq α] (s : Search α) (d : α) :
    Grows s { s with cycles := appendNew s.cycles d } :=
  ⟨rfl, List.prefix_refl _, List.Subset.refl _, fun _ h => mem_appendNew.mpr (.inl h)⟩

theorem scan_grows [DecidableEq α] {visitOne : α → Search α → Option (Search α)}
    (hv : ∀ d s t, visitOne d s = some t → Grows s t) (ds : List α) {s t : Search α}
    (h : scan G visitOne ds s = some t) : Grows s t := by
  induction ds generalizing s with
  | nil => cases h; exact .refl _
  | cons d ds ih =>
    rw [scan] at h
    split at h
    · exact (Grows.addMissing s d).trans (ih h)
    · obtain ⟨u, hu, hut⟩ := Option.bind_eq_some_iff.mp h
      exact (hv d s u hu).trans (ih hut)

theorem visit_grows [DecidableEq α] {fuel : Nat} {a : α} {s t : Search α}
    (h : visit G fuel a s = some t) :
    Grows s t := by
  induction fuel generalizing a s t with
  | zero => cases h
  | succ fuel ih =>
    rw [visit] at h
    split at h
    · cases h; exact .refl _
    split at h
    · cases h; exact .addCycle s a
    obtain ⟨u, hu, rfl⟩ := Option.map_eq_some_iff.mp h
    have grows := scan_grows (fun d s t => ih) _ hu
    refine ⟨?_, grows.visited.trans (List.prefix_append _ _), grows.missing, grows.cycles⟩
    rw [grows.visiting, List.erase_cons_head]

/-! ### Termination -/

/-- **Enough fuel gives a result.** Grey nodes are distinct nodes of the finite
universe, and every nested visit adds one. -/
theorem visit_total [DecidableEq α] {univ : Finset α} (known : ∀ a, (G a).isSome → a ∈ univ)
    {fuel : Nat} {a : α}
    {s : Search α} (ha : (G a).isSome) (nodup : s.visiting.Nodup)
    (grey : ∀ x ∈ s.visiting, x ∈ univ) (enough : univ.card < fuel + s.visiting.length) :
    ∃ t, visit G fuel a s = some t := by
  induction fuel generalizing a s with
  | zero =>
    have := Finset.card_le_card (s := s.visiting.toFinset) (t := univ)
      fun x hx => grey x (List.mem_toFinset.mp hx)
    rw [List.toFinset_card_of_nodup nodup] at this
    omega
  | succ fuel ih =>
    rw [visit]
    split
    · exact ⟨_, rfl⟩
    split
    · exact ⟨_, rfl⟩
    rename_i white
    suffices ∀ (ds : List α) (u : Search α), u.visiting = a :: s.visiting →
        ∃ t, scan G (visit G fuel) ds u = some t by
      obtain ⟨t, ht⟩ := this ((G a).getD []) { s with visiting := a :: s.visiting } rfl
      exact ⟨_, by rw [ht]; rfl⟩
    intro ds
    induction ds with
    | nil => exact fun u _ => ⟨u, rfl⟩
    | cons d ds ihds =>
      intro u hu
      rw [scan]
      cases hd : G d with
      | none => exact ihds _ hu
      | some _ =>
        obtain ⟨t, ht⟩ := ih (a := d) (s := u) (by simp [hd])
          (by rw [hu]; exact List.nodup_cons.mpr ⟨white, nodup⟩)
          (by
            rw [hu]
            intro x hx
            rcases List.mem_cons.mp hx with rfl | hx
            · exact known x ha
            · exact grey x hx)
          (by rw [hu, List.length_cons]; omega)
        simp only [ht, Option.bind_some]
        exact ihds t ((visit_grows ht).visiting.trans hu)

end Grow

/-! ### The colouring invariant -/

/-- The invariant of a search from `r`. The grey nodes are a path of the graph
that ends in the node being visited; a finished node's successors were finished
before it, unless the search reported them as grey. -/
structure Coloured (G : Graph α) (r : α) (s : Search α) : Prop where
  disjoint : ∀ a ∈ s.visited, a ∉ s.visiting
  nodup : s.visited.Nodup
  reach : ∀ a, a ∈ s.visited ∨ a ∈ s.visiting → Reaches G r a ∧ (G a).isSome
  path : s.visiting.IsChain (fun a b => Edge G b a)
  closed : ∀ done a later, s.visited = done ++ a :: later → ∀ b, Edge G a b → (G b).isSome →
    b ∈ done ∨ b ∈ s.cycles
  cyclesSeen : ∀ c ∈ s.cycles, c ∈ s.visited ∨ c ∈ s.visiting
  cyclesOn : ∀ c ∈ s.cycles, OnCycle G c
  missingFrom : ∀ m ∈ s.missing, G m = none ∧ ∃ a, Reaches G r a ∧ Edge G a m
  missingAll : ∀ a ∈ s.visited, ∀ m, Edge G a m → G m = none → m ∈ s.missing

variable {G : Graph α} {r : α}

/-- A path of grey nodes reaches its newest node from each of its nodes. -/
theorem reaches_newest {a : α} {grey : List α}
    (path : (a :: grey).IsChain (fun a b => Edge G b a)) {c : α} (hc : c ∈ a :: grey) :
    Reaches G c a := by
  induction grey generalizing a with
  | nil =>
    rw [List.mem_singleton] at hc
    subst hc
    exact .refl
  | cons b grey ih =>
    obtain ⟨edge, path⟩ := List.isChain_cons_cons.mp path
    rcases List.mem_cons.mp hc with rfl | hc
    · exact .refl
    · exact (ih path hc).tail edge

/-- Reporting a dangling successor of the newest grey node. -/
theorem Coloured.addMissing [DecidableEq α] {a d : α} {grey : List α} {s : Search α}
    (h : Coloured G r s)
    (hs : s.visiting = a :: grey) (edge : Edge G a d) (dangling : G d = none) :
    Coloured G r { s with missing := appendNew s.missing d } where
  disjoint := h.disjoint
  nodup := h.nodup
  reach := h.reach
  path := h.path
  closed := h.closed
  cyclesSeen := h.cyclesSeen
  cyclesOn := h.cyclesOn
  missingFrom := by
    intro m hm
    rcases mem_appendNew.mp hm with hm | rfl
    · exact h.missingFrom m hm
    · exact ⟨dangling, a, (h.reach a (.inr (hs ▸ List.mem_cons_self))).1, edge⟩
  missingAll := fun b hb m hbm hm => mem_appendNew.mpr (.inl (h.missingAll b hb m hbm hm))

/-- Reporting a grey successor of the newest grey node: the grey path from the
successor to the newest node and the edge back close a cycle. -/
theorem Coloured.addCycle [DecidableEq α] {a d : α} {grey : List α} {s : Search α}
    (h : Coloured G r s)
    (hs : s.visiting = a :: grey) (edge : Edge G a d) (back : d ∈ s.visiting) :
    Coloured G r { s with cycles := appendNew s.cycles d } where
  disjoint := h.disjoint
  nodup := h.nodup
  reach := h.reach
  path := h.path
  closed := fun done b later split c hbc hc =>
    (h.closed done b later split c hbc hc).imp_right fun hc => mem_appendNew.mpr (.inl hc)
  cyclesSeen := by
    intro c hc
    rcases mem_appendNew.mp hc with hc | rfl
    · exact h.cyclesSeen c hc
    · exact .inr back
  cyclesOn := by
    intro c hc
    rcases mem_appendNew.mp hc with hc | rfl
    · exact h.cyclesOn c hc
    · exact .tail' (reaches_newest (hs ▸ h.path) (hs ▸ back)) edge
  missingFrom := h.missingFrom
  missingAll := h.missingAll

/-- Starting the visit of a white node. -/
theorem Coloured.push {a : α} {s : Search α} (h : Coloured G r s) (hr : Reaches G r a)
    (known : (G a).isSome) (white : a ∉ s.visited)
    (step : ∀ b grey, s.visiting = b :: grey → Edge G b a) :
    Coloured G r { s with visiting := a :: s.visiting } where
  disjoint := by
    intro b hb
    rw [List.mem_cons, not_or]
    exact ⟨fun e => white (e ▸ hb), h.disjoint b hb⟩
  nodup := h.nodup
  reach := by
    intro b hb
    rcases hb with hb | hb
    · exact h.reach b (.inl hb)
    rcases List.mem_cons.mp hb with rfl | hb
    · exact ⟨hr, known⟩
    · exact h.reach b (.inr hb)
  path := by
    cases hs : s.visiting with
    | nil => exact .singleton a
    | cons b grey => exact List.isChain_cons_cons.mpr ⟨step b grey hs, hs ▸ h.path⟩
  closed := h.closed
  cyclesSeen := fun c hc => (h.cyclesSeen c hc).imp_right (List.mem_cons_of_mem a)
  cyclesOn := h.cyclesOn
  missingFrom := h.missingFrom
  missingAll := h.missingAll

/-- Finishing the newest grey node once its successors are dealt with. -/
theorem Coloured.finish {a : α} {grey : List α} {s : Search α} (h : Coloured G r s)
    (hs : s.visiting = a :: grey) (fresh : a ∉ grey)
    (known : ∀ b, Edge G a b → (G b).isSome → b ∈ s.visited ∨ b ∈ s.cycles)
    (dangling : ∀ m, Edge G a m → G m = none → m ∈ s.missing) :
    Coloured G r { s with visiting := grey, visited := s.visited ++ [a] } where
  disjoint := by
    intro b hb
    rcases List.mem_append.mp hb with hb | hb
    · exact fun hg => h.disjoint b hb (hs ▸ List.mem_cons_of_mem a hg)
    · rw [List.mem_singleton.mp hb]
      exact fresh
  nodup := by
    refine List.nodup_append.mpr ⟨h.nodup, List.nodup_singleton a, fun b hb c hc => ?_⟩
    rw [List.mem_singleton.mp hc]
    rintro rfl
    exact h.disjoint b hb (hs ▸ List.mem_cons_self)
  reach := by
    intro b hb
    rw [List.mem_append, List.mem_singleton] at hb
    rcases hb with (hb | rfl) | hb
    · exact h.reach b (.inl hb)
    · exact h.reach b (.inr (hs ▸ List.mem_cons_self))
    · exact h.reach b (.inr (hs ▸ List.mem_cons_of_mem a hb))
  path := (List.isChain_cons.mp (hs ▸ h.path)).2
  closed := by
    intro done b later split c hbc hc
    rcases List.eq_nil_or_concat later with rfl | ⟨later, z, rfl⟩
    · obtain ⟨rfl, hab⟩ := List.append_inj' split rfl
      obtain rfl : a = b := by simpa using hab
      exact known c hbc hc
    · have split' : s.visited ++ [a] = (done ++ b :: later) ++ [z] := by simpa using split
      exact h.closed done b later (List.append_inj' split' rfl).1 c hbc hc
  cyclesSeen := by
    intro c hc
    rcases h.cyclesSeen c hc with hc | hc
    · exact .inl (List.mem_append_left _ hc)
    rw [hs] at hc
    rcases List.mem_cons.mp hc with rfl | hc
    · exact .inl (List.mem_append_right _ (List.mem_singleton_self _))
    · exact .inr hc
  cyclesOn := h.cyclesOn
  missingFrom := h.missingFrom
  missingAll := by
    intro b hb m hbm hm
    rcases List.mem_append.mp hb with hb | hb
    · exact h.missingAll b hb m hbm hm
    · rw [List.mem_singleton.mp hb] at hbm
      exact dangling m hbm hm

/-- What a visit of `d` leaves: `d` is finished, or reported as grey. -/
def Settled (d : α) (t : Search α) : Prop := d ∈ t.visited ∨ d ∈ t.cycles

theorem Settled.grow {d : α} {s t : Search α} (h : Settled d s) (grows : Grows s t) :
    Settled d t :=
  h.imp (fun hd => grows.visited.subset hd) fun hd => grows.cycles hd

/-- Scanning the successors of the newest grey node, given what visits do. -/
theorem scan_coloured [DecidableEq α] {visitOne : α → Search α → Option (Search α)} {a : α}
    {grey : List α}
    (hg : ∀ d s t, visitOne d s = some t → Grows s t)
    (hv : ∀ d s t, visitOne d s = some t → Coloured G r s → (G d).isSome → Edge G a d →
      s.visiting = a :: grey → Coloured G r t ∧ Settled d t)
    (ds : List α) {s t : Search α} (h : scan G visitOne ds s = some t) (col : Coloured G r s)
    (hs : s.visiting = a :: grey) (edges : ∀ d ∈ ds, Edge G a d) :
    Coloured G r t ∧ (∀ d ∈ ds, (G d).isSome → Settled d t) ∧
      ∀ d ∈ ds, G d = none → d ∈ t.missing := by
  induction ds generalizing s with
  | nil =>
    cases h
    exact ⟨col, by simp, by simp⟩
  | cons d ds ih =>
    have edge := edges d List.mem_cons_self
    have edges' : ∀ d ∈ ds, Edge G a d := fun x hx => edges x (List.mem_cons_of_mem d hx)
    rw [scan] at h
    cases hd : G d with
    | none =>
      rw [hd] at h
      have grows := scan_grows hg _ h
      obtain ⟨colT, known, dangling⟩ := ih h (col.addMissing hs edge hd) hs edges'
      refine ⟨colT, fun x hx hxs => ?_, fun x hx hxn => ?_⟩
      · rcases List.mem_cons.mp hx with rfl | hx
        · simp [hd] at hxs
        · exact known x hx hxs
      · rcases List.mem_cons.mp hx with rfl | hx
        · exact grows.missing (mem_appendNew.mpr (.inr rfl))
        · exact dangling x hx hxn
    | some _ =>
      rw [hd] at h
      obtain ⟨u, hu, hut⟩ := Option.bind_eq_some_iff.mp h
      obtain ⟨colU, settled⟩ := hv d s u hu col (by simp [hd]) edge hs
      have grows := scan_grows hg _ hut
      obtain ⟨colT, known, dangling⟩ := ih hut colU ((hg d s u hu).visiting.trans hs) edges'
      refine ⟨colT, fun x hx hxs => ?_, fun x hx hxn => ?_⟩
      · rcases List.mem_cons.mp hx with rfl | hx
        · exact settled.grow grows
        · exact known x hx hxs
      · rcases List.mem_cons.mp hx with rfl | hx
        · simp [hd] at hxn
        · exact dangling x hx hxn

/-- **A visit keeps the invariant** and settles its node. -/
theorem visit_coloured [DecidableEq α] {fuel : Nat} {a : α} {s t : Search α}
    (h : visit G fuel a s = some t)
    (col : Coloured G r s) (hr : Reaches G r a) (ha : (G a).isSome)
    (step : ∀ b grey, s.visiting = b :: grey → Edge G b a) :
    Coloured G r t ∧ Settled a t := by
  induction fuel generalizing a s t with
  | zero => cases h
  | succ fuel ih =>
    rw [visit] at h
    split at h
    · rename_i black
      cases h
      exact ⟨col, .inl black⟩
    rename_i white
    split at h
    · rename_i grey
      cases h
      obtain ⟨b, rest, hb⟩ := List.exists_cons_of_ne_nil (List.ne_nil_of_mem grey)
      exact ⟨col.addCycle hb (step b rest hb) grey, .inr (mem_appendNew.mpr (.inr rfl))⟩
    rename_i notGrey
    obtain ⟨u, hu, rfl⟩ := Option.map_eq_some_iff.mp h
    have edges : ∀ d ∈ (G a).getD [], Edge G a d := by
      intro d hd
      cases hGa : G a with
      | none => simp [hGa] at hd
      | some ds => exact ⟨ds, hGa, by simpa [hGa] using hd⟩
    have colS := col.push hr ha white step
    obtain ⟨colU, known, dangling⟩ := scan_coloured (a := a)
      (fun d s t => visit_grows)
      (fun d v w hw colV hd edge hv => ih hw colV (hr.tail edge) hd (by
        intro b grey hb
        obtain ⟨rfl, -⟩ := List.cons.inj (hv.symm.trans hb)
        exact edge))
      _ hu colS rfl edges
    have hvis := (scan_grows (fun d s t => visit_grows) _ hu).visiting
    have mem : ∀ d, Edge G a d → d ∈ (G a).getD [] := by
      rintro d ⟨ds, hds, hd⟩
      simpa [hds] using hd
    have done := colU.finish hvis notGrey (fun b hb hsome => known b (mem b hb) hsome)
      fun m hm hnone => dangling m (mem m hm) hnone
    rw [hvis, List.erase_cons_head]
    exact ⟨done, .inl (List.mem_append_right _ (List.mem_singleton_self a))⟩

/-! ### A whole search -/

/-- What a finished search from `r` says about the graph. -/
structure Searched (G : Graph α) (r : α) (t : Search α) : Prop where
  nodup : t.visited.Nodup
  visited : ∀ a, a ∈ t.visited ↔ Reaches G r a ∧ (G a).isSome
  missing : ∀ m, m ∈ t.missing ↔ Reaches G r m ∧ G m = none
  cyclesOn : ∀ c ∈ t.cycles, OnCycle G c
  cycles : t.cycles ≠ [] ↔ ∃ c, Reaches G r c ∧ OnCycle G c
  sorted : t.cycles = [] → ∀ done a later, t.visited = done ++ a :: later →
    ∀ b, TransGen (Edge G) a b → (G b).isSome → b ∈ done
  last : t.cycles = [] → t.visited.getLast? = some r

theorem Coloured.init : Coloured G r ({} : Search α) where
  disjoint := by simp
  nodup := by simp
  reach := by simp
  path := .nil
  closed := by simp
  cyclesSeen := by simp
  cyclesOn := by simp
  missingFrom := by simp
  missingAll := by simp

theorem Edge.isSome {a b : α} (h : Edge G a b) : (G a).isSome := by
  obtain ⟨ds, hds, -⟩ := h
  simp [hds]

/-- Only known nodes have an outgoing path. -/
theorem isSome_of_transGen {a b : α} (h : TransGen (Edge G) a b) : (G a).isSome := by
  obtain ⟨_, edge, -⟩ := TransGen.head'_iff.mp h
  exact edge.isSome

section Finished

variable {t : Search α}

/-- Without reported cycles a node's successors precede it, and so do theirs. -/
theorem Coloured.sorted (col : Coloured G r t) (acyclic : t.cycles = []) {done later : List α}
    {a b : α} (split : t.visited = done ++ a :: later) (h : TransGen (Edge G) a b)
    (known : (G b).isSome) : b ∈ done := by
  have direct : ∀ {done later : List α} {a b : α}, t.visited = done ++ a :: later →
      Edge G a b → (G b).isSome → b ∈ done := by
    intro done later a b split edge known
    exact (col.closed done a later split b edge known).resolve_right (by simp [acyclic])
  induction h with
  | single edge => exact direct split edge known
  | @tail b c _ edge ih =>
    obtain ⟨done', later', split'⟩ := List.append_of_mem (ih edge.isSome)
    have earlier : t.visited = done' ++ b :: (later' ++ a :: later) := by
      rw [split, split']
      simp
    have hc : c ∈ done' := direct earlier edge known
    rw [split']
    exact List.mem_append_left _ hc

variable (col : Coloured G r t) (idle : t.visiting = []) (root : r ∈ t.visited)

include col root

/-- Without reported cycles the root finishes last. -/
theorem Coloured.root_last (acyclic : t.cycles = []) : t.visited.getLast? = some r := by
  obtain ⟨done, later, split⟩ := List.append_of_mem root
  rcases List.eq_nil_or_concat later with rfl | ⟨later, x, rfl⟩
  · simp [split]
  exfalso
  have hx : x ∈ t.visited := by simp [split]
  obtain ⟨reach, known⟩ := col.reach x (.inl hx)
  have nodup := col.nodup
  rw [split] at nodup
  rcases reflTransGen_iff_eq_or_transGen.mp reach with rfl | path
  · simp [List.nodup_append] at nodup
  · have := col.sorted acyclic split path known
    exact (List.nodup_append.mp nodup).2.2 x this x (by simp) rfl

include idle

/-- The black nodes are closed under edges, so they hold all reachable known nodes. -/
theorem Coloured.visited_of_reaches {a : α} (h : Reaches G r a) (known : (G a).isSome) :
    a ∈ t.visited := by
  induction h with
  | refl => exact root
  | tail _ edge ih =>
    obtain ⟨done, later, split⟩ := List.append_of_mem (ih edge.isSome)
    rcases col.closed done _ later split _ edge known with hb | hb
    · rw [split]
      exact List.mem_append_left _ hb
    · simpa [idle] using col.cyclesSeen _ hb

theorem Coloured.mem_missing_iff (m : α) : m ∈ t.missing ↔ Reaches G r m ∧ G m = none := by
  constructor
  · intro hm
    obtain ⟨dangling, a, ha, edge⟩ := col.missingFrom m hm
    exact ⟨ha.tail edge, dangling⟩
  · rintro ⟨h, dangling⟩
    have known := (col.reach r (.inl root)).2
    rcases ReflTransGen.cases_tail h with rfl | ⟨a, ha, edge⟩
    · simp [dangling] at known
    · exact col.missingAll a (col.visited_of_reaches idle root ha edge.isSome) m edge dangling

theorem Coloured.cycles_iff : t.cycles ≠ [] ↔ ∃ c, Reaches G r c ∧ OnCycle G c := by
  constructor
  · intro h
    obtain ⟨c, hc⟩ := List.exists_mem_of_ne_nil _ h
    have black : c ∈ t.visited := by simpa [idle] using col.cyclesSeen c hc
    exact ⟨c, (col.reach c (.inl black)).1, col.cyclesOn c hc⟩
  · rintro ⟨c, hc, cycle⟩ acyclic
    have known := isSome_of_transGen cycle
    obtain ⟨done, later, split⟩ :=
      List.append_of_mem (col.visited_of_reaches idle root hc known)
    have again := col.sorted acyclic split cycle known
    have nodup := col.nodup
    rw [split] at nodup
    exact (List.nodup_append.mp nodup).2.2 c again c List.mem_cons_self rfl

theorem Coloured.searched : Searched G r t where
  nodup := col.nodup
  visited := fun a => ⟨fun ha => col.reach a (.inl ha),
    fun ⟨h, known⟩ => col.visited_of_reaches idle root h known⟩
  missing := col.mem_missing_iff idle root
  cyclesOn := col.cyclesOn
  cycles := col.cycles_iff idle root
  sorted := fun acyclic _ _ _ split _ h known => col.sorted acyclic split h known
  last := col.root_last root

end Finished

/-- **A whole search is correct.** -/
theorem search_spec [DecidableEq α] {fuel : Nat} {t : Search α} (known : (G r).isSome)
    (h : visit G fuel r {} = some t) : Searched G r t := by
  obtain ⟨col, settled⟩ := visit_coloured h .init .refl known (by simp)
  have idle : t.visiting = [] := (visit_grows h).visiting
  have root : r ∈ t.visited :=
    settled.elim id fun hc => by simpa [idle] using col.cyclesSeen r hc
  exact col.searched idle root

end Apm.Lib.DepGraph
