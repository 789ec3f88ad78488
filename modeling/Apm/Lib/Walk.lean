import Mathlib.Data.List.Infix

/-!
Paths as steps through a tree, with and without symbolic links.

A location is the list of the names on the way to it, the last one first. `lexical` takes
the steps as they stand; `Leads` follows the links it meets. A path is tame if each of its
steps up comes before any link and stays below a root: when all links are tame, no path
leaves the root (`Leads.inside`).
-/

namespace Apm.Lib.Walk

variable {α : Type*}

inductive Step (α : Type*) where
  | stay
  | up
  | down (name : α)
deriving DecidableEq

/-- The names on the way to a location, the last one first. -/
abbrev Loc (α : Type*) := List α

def Step.move (loc : Loc α) : Step α → Loc α
  | .stay => loc
  | .up => loc.tail
  | .down name => name :: loc

/-- Where the steps lead if nothing on the way is a link. -/
def lexical (loc : Loc α) (steps : List (Step α)) : Loc α := steps.foldl Step.move loc

theorem lexical_append (loc : Loc α) (steps steps' : List (Step α)) :
    lexical loc (steps ++ steps') = lexical (lexical loc steps) steps' := List.foldl_append

/-- What is left of steps taken on their own: so many steps up, then down the names. -/
def netStep : Nat × List α → Step α → Nat × List α
  | net, .stay => net
  | (ups, []), .up => (ups + 1, [])
  | (ups, _ :: names), .up => (ups, names)
  | (ups, names), .down name => (ups, name :: names)

def net (steps : List (Step α)) : Nat × List α := steps.foldl netStep (0, [])

theorem net_concat (steps : List (Step α)) (step : Step α) :
    net (steps ++ [step]) = netStep (net steps) step := by
  rw [net, List.foldl_append]
  rfl

/-- The net steps lead where the steps lead. -/
theorem lexical_eq_net (loc : Loc α) (steps : List (Step α)) :
    lexical loc steps = (net steps).2 ++ loc.drop (net steps).1 := by
  induction steps using List.reverseRecOn with
  | nil => rfl
  | append_singleton steps step ih =>
    rw [lexical_append, net_concat, ih]
    rcases net steps with ⟨ups, names⟩
    cases step with
    | stay => rfl
    | down name => rfl
    | up =>
      cases names with
      | nil => simp [lexical, Step.move, netStep, List.tail_drop]
      | cons name names => rfl

/-- The steps end strictly below the location: they climb by some levels, and come back down
through the names they climbed over if there are any. -/
def EndsBelow (loc : Loc α) (steps : List (Step α)) : Prop :=
  ∃ names, names ≠ [] ∧ (net steps).2 = names ++ loc.take (net steps).1

/-- Strictly below. -/
def Below (root loc : Loc α) : Prop := ∃ names, names ≠ [] ∧ loc = names ++ root

theorem below_lexical_iff {loc : Loc α} {steps : List (Step α)} :
    Below loc (lexical loc steps) ↔ EndsBelow loc steps := by
  rw [Below, lexical_eq_net]
  apply exists_congr
  intro names
  rw [and_congr_right_iff]
  intro _
  constructor
  · intro same
    have split : names ++ loc = (names ++ loc.take (net steps).1) ++ loc.drop (net steps).1 := by
      rw [List.append_assoc, List.take_append_drop]
    exact List.append_cancel_right (same.trans split)
  · intro same
    rw [same, List.append_assoc, List.take_append_drop]

/-- The location is the root or below it. -/
abbrev Inside (root loc : Loc α) : Prop := root <:+ loc

/-- From so many levels below the root, the steps end inside it: they climb no further than
the root, or come back down through the names they climbed over. -/
def EndsInside (depth : Nat) (root : Loc α) (steps : List (Step α)) : Prop :=
  root.take ((net steps).1 - depth) <:+ (net steps).2

instance [DecidableEq α] (depth : Nat) (root : Loc α) (steps : List (Step α)) :
    Decidable (EndsInside depth root steps) := inferInstanceAs (Decidable (_ <:+ _))

/-- A common end does not matter to a suffix. -/
theorem suffix_append_right_iff (left right rest : Loc α) :
    left ++ rest <:+ right ++ rest ↔ left <:+ right := by
  constructor
  · rintro ⟨names, same⟩
    exact ⟨names, List.append_cancel_right ((List.append_assoc _ _ _).trans same)⟩
  · rintro ⟨names, rfl⟩
    exact ⟨names, (List.append_assoc _ _ _).symm⟩

theorem inside_lexical_iff {root dir : Loc α} {steps : List (Step α)} :
    Inside root (lexical (dir ++ root) steps) ↔ EndsInside dir.length root steps := by
  have climbed : (dir ++ root).drop (net steps).1 =
      dir.drop (net steps).1 ++ root.drop ((net steps).1 - dir.length) := List.drop_append
  rw [lexical_eq_net, climbed, EndsInside, Inside]
  by_cases low : (net steps).1 ≤ dir.length
  · rw [Nat.sub_eq_zero_of_le low, List.drop_zero, List.take_zero, ← List.append_assoc]
    exact iff_of_true (List.suffix_append _ _) List.nil_suffix
  · have split := List.take_append_drop ((net steps).1 - dir.length) root
    have passed : dir.drop (net steps).1 = [] := List.drop_eq_nil_of_le (by omega)
    have ends := suffix_append_right_iff (root.take ((net steps).1 - dir.length))
      (net steps).2 (root.drop ((net steps).1 - dir.length))
    rw [passed, List.nil_append, ← ends, split]

theorem inside_down {root loc : Loc α} (h : Inside root loc) (name : α) :
    Inside root (name :: loc) := h.trans (List.suffix_cons name loc)

theorem inside_up {root loc : Loc α} (h : Inside root loc) (below : loc ≠ root) :
    Inside root loc.tail := by
  obtain ⟨names, rfl⟩ := h
  cases names with
  | nil => exact absurd rfl below
  | cons name names => exact List.suffix_append names root

theorem Below.inside {root loc : Loc α} (h : Below root loc) : Inside root loc := by
  obtain ⟨names, -, rfl⟩ := h
  exact List.suffix_append names root

theorem Below.of_inside {root dir loc : Loc α} (h : Below root dir) (inside : Inside dir loc) :
    Below root loc := by
  obtain ⟨names, filled, rfl⟩ := h
  obtain ⟨more, rfl⟩ := inside
  exact ⟨more ++ names, by simp [filled], (List.append_assoc _ _ _).symm⟩

theorem below_down {root loc : Loc α} (h : Inside root loc) (name : α) :
    Below root (name :: loc) := by
  obtain ⟨names, rfl⟩ := h
  exact ⟨name :: names, List.cons_ne_nil _ _, rfl⟩

/-- Where steps up or down one level below the root start, the root is not left behind. -/
theorem Below.inside_before {root loc : Loc α} {step : Step α} (h : Below root (step.move loc)) :
    Inside root loc := by
  cases step with
  | stay => exact h.inside
  | up => exact h.inside.trans (List.tail_suffix loc)
  | down name =>
    obtain ⟨names, filled, same⟩ := h
    cases names with
    | nil => exact absurd rfl filled
    | cons _ names =>
      obtain ⟨-, rfl⟩ := List.cons.inj same
      exact List.suffix_append names root

/-! ### On the way -/

/-- The location is at the root, below it or above it. -/
def Near (root loc : Loc α) : Prop := root <:+ loc ∨ loc <:+ root

/-- Wherever the steps climb above the location, they come back down, if at all, through the
names they climbed over. -/
def Along (loc : Loc α) (steps : List (Step α)) : Prop :=
  ∀ before, before <+: steps → loc.take (net before).1 <:+ (net before).2 ∨
    (net before).2 <:+ loc.take (net before).1

theorem near_lexical_iff {loc : Loc α} {steps : List (Step α)} :
    Near loc (lexical loc steps) ↔ loc.take (net steps).1 <:+ (net steps).2 ∨
      (net steps).2 <:+ loc.take (net steps).1 := by
  have split := List.take_append_drop (net steps).1 loc
  have above := suffix_append_right_iff (loc.take (net steps).1) (net steps).2
    (loc.drop (net steps).1)
  have below := suffix_append_right_iff (net steps).2 (loc.take (net steps).1)
    (loc.drop (net steps).1)
  rw [split] at above below
  rw [Near, lexical_eq_net, above, below]

/-- The steps stay near the location if and only if they run along it. -/
theorem along_iff {loc : Loc α} {steps : List (Step α)} :
    Along loc steps ↔ ∀ before, before <+: steps → Near loc (lexical loc before) :=
  forall_congr' fun _ => imp_congr_right fun _ => near_lexical_iff.symm

/-- The steps stay near the location and end strictly below it. -/
structure Confines (loc : Loc α) (steps : List (Step α)) : Prop where
  along : Along loc steps
  ends : EndsBelow loc steps

/-- A name alone confines. -/
theorem confines_name (loc : Loc α) (name : α) : Confines loc [.down name] := by
  refine ⟨fun before pre => .inl ?_, ⟨[name], List.cons_ne_nil _ _, rfl⟩⟩
  rcases List.prefix_cons_iff.mp pre with rfl | ⟨rest, rfl, nothing⟩
  · exact List.suffix_refl _
  · rw [List.prefix_nil.mp nothing]
    exact List.nil_suffix

/-- Without steps up, what is on the way is above where the steps lead. -/
theorem lexical_suffix {loc : Loc α} {before steps : List (Step α)} (h : before <+: steps)
    (noUp : Step.up ∉ steps) : lexical loc before <:+ lexical loc steps := by
  obtain ⟨after, rfl⟩ := h
  rw [lexical_append]
  replace noUp : Step.up ∉ after := fun up => noUp (List.mem_append_right _ up)
  generalize lexical loc before = start
  induction after generalizing start with
  | nil => exact List.suffix_refl _
  | cons step after ih =>
    rw [List.mem_cons, not_or] at noUp
    have first : start <:+ step.move start := by
      cases step with
      | stay => exact List.suffix_refl _
      | up => exact absurd rfl noUp.1
      | down name => exact List.suffix_cons name start
    exact first.trans (ih noUp.2 _)

/-- Fewer steps up than there are names above a root do not leave it. -/
theorem inside_lexical_of_count [DecidableEq α] {root names : Loc α} {steps : List (Step α)}
    (few : steps.count .up ≤ names.length) : Inside root (lexical (names ++ root) steps) := by
  induction steps generalizing names with
  | nil => exact List.suffix_append names root
  | cons step steps ih =>
    cases step with
    | stay => exact ih (by simpa using few)
    | down name =>
      have fewer : steps.count .up ≤ (name :: names).length := by
        simp at few ⊢
        omega
      exact ih fewer
    | up =>
      rw [List.count_cons_self] at few
      cases names with
      | nil => simp at few
      | cons name names => exact ih (by simpa using few)

/-! ### Links -/

/-- What a link points to: steps from the root of the tree, or from its own directory. -/
structure Target (α : Type*) where
  absolute : Bool
  steps : List (Step α)
deriving DecidableEq

abbrev Links (α : Type*) := Loc α → Option (Target α)

/-- Where a link's target starts. -/
def Target.start (target : Target α) (dir : Loc α) : Loc α := if target.absolute then [] else dir

/-- The steps lead to the location, with every link on the way followed. -/
inductive Leads (links : Links α) : Loc α → List (Step α) → Loc α → Prop where
  | done (loc : Loc α) : Leads links loc [] loc
  | stay {loc loc' : Loc α} {steps : List (Step α)} (rest : Leads links loc steps loc') :
      Leads links loc (.stay :: steps) loc'
  | up {loc loc' : Loc α} {steps : List (Step α)} (rest : Leads links loc.tail steps loc') :
      Leads links loc (.up :: steps) loc'
  | down {loc loc' : Loc α} {steps : List (Step α)} {name : α}
      (plain : links (name :: loc) = none) (rest : Leads links (name :: loc) steps loc') :
      Leads links loc (.down name :: steps) loc'
  | follow {loc loc' : Loc α} {steps : List (Step α)} {name : α} {target : Target α}
      (link : links (name :: loc) = some target)
      (rest : Leads links (target.start loc) (target.steps ++ steps) loc') :
      Leads links loc (.down name :: steps) loc'

/-- The place of a path: where it leads if a link at its end is not followed. -/
def Placed (links : Links α) (loc : Loc α) (steps : List (Step α)) (place : Loc α) : Prop :=
  ∃ before name dir, steps = before ++ [.down name] ∧ Leads links loc before dir ∧
    place = name :: dir

/-- No step on the way meets a link. -/
def Direct (links : Links α) : Loc α → List (Step α) → Prop
  | _, [] => True
  | loc, step :: steps =>
      (∀ name, step = .down name → links (name :: loc) = none) ∧
        Direct links (step.move loc) steps

/-- Every step up comes before any link. -/
def UpsDirect (links : Links α) (loc : Loc α) (steps : List (Step α)) : Prop :=
  ∃ before after, steps = before ++ after ∧ Direct links loc before ∧ Step.up ∉ after

/-- The steps do not rise above the root where they stand. -/
def Stays (root : Loc α) : Loc α → List (Step α) → Prop
  | _, [] => True
  | loc, step :: steps => (step = .up → loc ≠ root) ∧ Stays root (step.move loc) steps

/-- Every step up comes before any link and stays below the root. -/
structure Tame (links : Links α) (root loc : Loc α) (steps : List (Step α)) : Prop where
  direct : UpsDirect links loc steps
  stays : Stays root loc steps

section Tame

variable {links : Links α} {root loc loc' : Loc α} {steps steps' : List (Step α)}

theorem Stays.append (h : Stays root loc steps) (h' : Stays root (lexical loc steps) steps') :
    Stays root loc (steps ++ steps') := by
  induction steps generalizing loc with
  | nil => exact h'
  | cons step steps ih => exact ⟨h.1, ih h.2 h'⟩

theorem Stays.inside (h : Stays root loc steps) (inside : Inside root loc) :
    Inside root (lexical loc steps) := by
  induction steps generalizing loc with
  | nil => exact inside
  | cons step steps ih =>
    apply ih h.2
    cases step with
    | stay => exact inside
    | up => exact inside_up inside (h.1 rfl)
    | down name => exact inside_down inside name

theorem stays_of_noUp (noUp : Step.up ∉ steps) : Stays root loc steps := by
  induction steps generalizing loc with
  | nil => trivial
  | cons step steps ih =>
    rw [List.mem_cons, not_or] at noUp
    exact ⟨fun up => absurd up.symm noUp.1, ih noUp.2⟩

theorem upsDirect_of_noUp (noUp : Step.up ∉ steps) : UpsDirect links loc steps :=
  ⟨[], steps, rfl, trivial, noUp⟩

theorem tame_of_noUp (noUp : Step.up ∉ steps) : Tame links root loc steps :=
  ⟨upsDirect_of_noUp noUp, stays_of_noUp noUp⟩

/-- Steps down may follow a tame path. -/
theorem Tame.append (h : Tame links root loc steps) (noUp : Step.up ∉ steps') :
    Tame links root loc (steps ++ steps') := by
  obtain ⟨before, after, rfl, direct, noUp'⟩ := h.direct
  constructor
  · refine ⟨before, after ++ steps', List.append_assoc _ _ _, direct, ?_⟩
    rw [List.mem_append, not_or]
    exact ⟨noUp', noUp⟩
  · exact h.stays.append (stays_of_noUp noUp)

theorem Direct.left (h : Direct links loc (steps ++ steps')) : Direct links loc steps := by
  induction steps generalizing loc with
  | nil => trivial
  | cons step steps ih => exact ⟨h.1, ih h.2⟩

theorem Stays.left (h : Stays root loc (steps ++ steps')) : Stays root loc steps := by
  induction steps generalizing loc with
  | nil => trivial
  | cons step steps ih => exact ⟨h.1, ih h.2⟩

/-- The first part of a tame path is tame. -/
theorem Tame.left (h : Tame links root loc (steps ++ steps')) : Tame links root loc steps := by
  refine ⟨?_, h.stays.left⟩
  obtain ⟨before, after, same, direct, noUp⟩ := h.direct
  rcases List.append_eq_append_iff.mp same with ⟨more, rfl, rfl⟩ | ⟨more, rfl, rfl⟩
  · exact ⟨steps, [], (List.append_nil _).symm, direct.left, List.not_mem_nil⟩
  · exact ⟨before, more, rfl, direct, fun up => noUp (List.mem_append_left _ up)⟩

/-- A path without links leads where it stands. -/
theorem Leads.eq_lexical (leads : Leads links loc steps loc') (direct : Direct links loc steps) :
    loc' = lexical loc steps := by
  induction leads with
  | done => rfl
  | stay _ ih => exact ih direct.2
  | up _ ih => exact ih direct.2
  | down _ _ ih => exact ih direct.2
  | follow link _ _ =>
    rw [direct.1 _ rfl] at link
    cases link

theorem UpsDirect.tail {step : Step α} (h : UpsDirect links loc (step :: steps)) :
    UpsDirect links (step.move loc) steps := by
  obtain ⟨before, after, same, direct, noUp⟩ := h
  cases before with
  | nil =>
    rw [List.nil_append] at same
    subst same
    exact upsDirect_of_noUp fun up => noUp (List.mem_cons_of_mem _ up)
  | cons _ before =>
    obtain ⟨rfl, rfl⟩ := List.cons.inj same
    exact ⟨before, after, rfl, direct.2, noUp⟩

theorem Tame.tail {step : Step α} (h : Tame links root loc (step :: steps)) :
    Tame links root (step.move loc) steps :=
  ⟨h.direct.tail, h.stays.2⟩

/-- No step up comes behind a link. -/
theorem UpsDirect.noUp_of_link {name : α} (h : UpsDirect links loc (.down name :: steps))
    (link : (links (name :: loc)).isSome) : Step.up ∉ steps := by
  obtain ⟨before, after, same, direct, noUp⟩ := h
  cases before with
  | nil =>
    rw [List.nil_append] at same
    subst same
    exact fun up => noUp (List.mem_cons_of_mem _ up)
  | cons _ before =>
    obtain ⟨rfl, rfl⟩ := List.cons.inj same
    rw [direct.1 name rfl] at link
    cases link

end Tame

/-- Every link lies below the root, and its target is relative and tame. -/
def AllTame (links : Links α) (root : Loc α) : Prop :=
  ∀ loc target, links loc = some target → ∃ name dir, loc = name :: dir ∧ Inside root dir ∧
    target.absolute = false ∧ Tame links root dir target.steps

/-- **Among tame links, a tame path stays below the root.** -/
theorem Leads.inside {links : Links α} {root loc loc' : Loc α} {steps : List (Step α)}
    (leads : Leads links loc steps loc') (all : AllTame links root) (inside : Inside root loc)
    (tame : Tame links root loc steps) : Inside root loc' := by
  induction leads with
  | done => exact inside
  | stay _ ih => exact ih inside tame.tail
  | up _ ih => exact ih (inside_up inside (tame.stays.1 rfl)) tame.tail
  | down _ _ ih => exact ih (inside_down inside _) tame.tail
  | follow link _ ih =>
    obtain ⟨name, dir, same, -, relative, target⟩ := all _ _ link
    obtain ⟨rfl, rfl⟩ := List.cons.inj same
    have noUp := tame.direct.noUp_of_link (by rw [link]; rfl)
    simp only [Target.start, relative, Bool.false_eq_true, if_false] at ih
    exact ih inside (target.append noUp)

/-- **The place of a tame path** is below the root. -/
theorem Placed.inside {links : Links α} {root loc place : Loc α} {steps : List (Step α)}
    (placed : Placed links loc steps place) (all : AllTame links root) (inside : Inside root loc)
    (tame : Tame links root loc steps) : Inside root place := by
  obtain ⟨before, name, dir, rfl, leads, rfl⟩ := placed
  exact inside_down (leads.inside all inside tame.left) name

end Apm.Lib.Walk
