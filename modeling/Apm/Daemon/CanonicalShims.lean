import Apm.Daemon.ShimPruning

/-!
Canonical shims: which commands get a shim of their own name from
`rebuild_command_index_and_shims` of `src/apmd/export_path.cpp`.

The commands are taken in the order of their names. The first provider of a command gets that
name, and the others get names that begin with their packages. All these are names in one
directory, so a name that a provider of an earlier command was given is no longer there for the
command that is called so.

## Main results

* `canonicalShims_iff`: every command gets its canonical shim just when no provider that stands
  behind another has a namespaced name that is a later command.
-/

namespace Apm.Shims

open Apm.Repo Apm.Status Apm.Lib.Run

/-- The commands that a rebuild finds. -/
def View.commands (view : View) : List CommandCandidate :=
  discoverStatusCommands view ++ discoverManualCommands view

/-- A shim of the command's name is decided on, for a binary that provides the command. -/
def HasCanonical (candidates : List CommandCandidate) (decisions : List ShimDecision)
    (commandName : ByteString) : Prop :=
  ∃ decision ∈ decisions, decision.mode = .canonical ∧ decision.shimName = commandName ∧
    decision.commandName = commandName ∧
    ∃ provider ∈ candidates, provider.commandName = commandName ∧
      decision.binaryPath = provider.binaryPath

/-- The provider is not the first of its command. -/
def CommandCandidate.Later (candidates : List CommandCandidate) (provider : CommandCandidate) :
    Prop :=
  ∃ first ∈ candidates, first.commandName = provider.commandName ∧ ¬ provider.Before first

/-- The name that a provider gets if it does not get the command's. -/
def CommandCandidate.namespaced (provider : CommandCandidate) : ByteString :=
  makeNamespacedCommand provider.packageName provider.commandName

/-- A provider that is not the first of its command takes the name of a later command. -/
def Clash (sys : System) (candidates : List CommandCandidate) (commandName : ByteString) : Prop :=
  ∃ provider ∈ candidates, provider.Later candidates ∧ provider.commandName < commandName ∧
    commandExistsInSystemPaths sys provider.commandName = false ∧
    provider.namespaced = commandName

section Providers

variable {candidates : List CommandCandidate} {commandName : ByteString}

theorem mem_providersOf {provider : CommandCandidate}
    (mem : provider ∈ providersOf candidates commandName) :
    provider ∈ candidates ∧ provider.commandName = commandName :=
  mem_providers mem

/-- What is left out has an equal that stays. -/
theorem exists_mem_destutter' {α : Type*} (R : α → α → Prop) [DecidableRel R] (same : ∀ a, ¬ R a a)
    (first : α) (others : List α) :
    ∀ other ∈ first :: others, ∃ kept ∈ others.destutter' R first, ¬ R kept other := by
  induction others generalizing first with
  | nil =>
    intro other mem
    rw [List.mem_singleton] at mem
    subst mem
    exact ⟨other, List.mem_singleton_self other, same other⟩
  | cons next others ih =>
    intro other mem
    rw [List.destutter'_cons]
    split
    · rcases List.mem_cons.mp mem with rfl | mem
      · exact ⟨other, List.mem_cons_self, same other⟩
      · obtain ⟨kept, there, equal⟩ := ih next other mem
        exact ⟨kept, List.mem_cons_of_mem _ there, equal⟩
    · rename_i equal
      rcases List.mem_cons.mp mem with rfl | mem
      · exact ih other other List.mem_cons_self
      · rcases List.mem_cons.mp mem with rfl | mem
        · exact ⟨first, List.mem_destutter' _ _ first, equal⟩
        · exact ih first other (List.mem_cons_of_mem _ mem)

/-- Those that stay behind the first one are not equal to it. -/
theorem destutter'_behind {first : CommandCandidate} {others : List CommandCandidate}
    (names : ∀ other ∈ others, other.commandName = first.commandName)
    (sorted : (first :: others).Pairwise CommandCandidate.Before) :
    ∃ behind, others.destutter' CommandCandidate.Differs first = first :: behind ∧
      ∀ other ∈ behind, ¬ other.Before first := by
  induction others with
  | nil => exact ⟨[], rfl, nofun⟩
  | cons next others ih =>
    rw [List.destutter'_cons]
    obtain ⟨least, rest⟩ := List.pairwise_cons.mp sorted
    split
    · rename_i differs
      refine ⟨_, rfl, fun other mem back => differs ?_⟩
      have known := (List.destutter'_sublist _ _ _).subset mem
      have chain : next.Before first := by
        rcases List.mem_cons.mp known with rfl | known
        · exact back
        · exact IsTrans.trans _ _ _ ((List.pairwise_cons.mp rest).1 other known) back
      obtain ⟨package, binary⟩ := (least next List.mem_cons_self).antisymm chain
      exact ⟨package, (names next List.mem_cons_self).symm, binary⟩
    · apply ih
      · exact fun other mem => names other (List.mem_cons_of_mem _ mem)
      · exact List.pairwise_cons.mpr ⟨fun other mem => least other (List.mem_cons_of_mem _ mem),
          (List.pairwise_cons.mp rest).2⟩

/-- **The providers of a command**: one that stands before every other, and those that do not. -/
theorem exists_providersOf {provider : CommandCandidate} (known : provider ∈ candidates)
    (name : provider.commandName = commandName) :
    ∃ first others, providersOf candidates commandName = first :: others ∧
      (∀ other ∈ others, other.Later candidates) ∧
      ∀ other ∈ candidates, other.commandName = commandName → other.Later candidates →
        ∃ equal ∈ others, equal.namespaced = other.namespaced := by
  have own : ∀ other, other ∈ (candidates.filter (·.commandName == commandName)).insertionSort
      CommandCandidate.Before ↔ other ∈ candidates ∧ other.commandName = commandName := by
    intro other
    rw [List.mem_insertionSort, List.mem_filter, beq_iff_eq]
  have sorted := List.pairwise_insertionSort CommandCandidate.Before
    (candidates.filter (·.commandName == commandName))
  unfold providersOf
  cases providers : (candidates.filter (·.commandName == commandName)).insertionSort
      CommandCandidate.Before with
  | nil =>
    have mem := (own provider).mpr ⟨known, name⟩
    rw [providers] at mem
    cases mem
  | cons first others =>
    rw [providers] at own sorted
    obtain ⟨least, -⟩ := List.pairwise_cons.mp sorted
    have firstKnown := (own first).mp List.mem_cons_self
    have names : ∀ other ∈ others, other.commandName = first.commandName := fun other mem =>
      ((own other).mp (List.mem_cons_of_mem _ mem)).2.trans firstKnown.2.symm
    obtain ⟨behind, kept, notFirst⟩ := destutter'_behind names sorted
    have member : ∀ other ∈ behind, other.commandName = first.commandName := by
      intro other mem
      have mem : other ∈ others.destutter' CommandCandidate.Differs first :=
        kept ▸ List.mem_cons_of_mem _ mem
      rcases List.mem_cons.mp ((List.destutter'_sublist _ _ _).subset mem) with rfl | mem
      · rfl
      · exact names other mem
    refine ⟨first, behind, kept, fun other mem =>
      ⟨first, firstKnown.1, (member other mem).symm, notFirst other mem⟩, ?_⟩
    intro other otherKnown otherName ⟨least', known', name', behindIt⟩
    obtain ⟨equal, there, same⟩ := exists_mem_destutter' CommandCandidate.Differs
      (fun _ differs => differs ⟨rfl, rfl, rfl⟩) first others other
      ((own other).mpr ⟨otherKnown, otherName⟩)
    obtain ⟨package, command, binary⟩ := not_not.mp same
    rw [kept] at there
    rcases List.mem_cons.mp there with rfl | there
    · -- The first one stands before all, and so does its equal.
      refine absurd ?_ behindIt
      have before : equal.Before least' := by
        rcases List.mem_cons.mp ((own least').mpr ⟨known', name'.trans otherName⟩) with rfl | mem
        · exact .inr ⟨rfl, List.le_refl _⟩
        · exact least least' mem
      unfold CommandCandidate.Before at before ⊢
      rwa [← package, ← binary]
    · exact ⟨equal, there, by rw [CommandCandidate.namespaced, package, command]; rfl⟩

end Providers

/-! ### Taking names -/

section Names

variable {sys : System} {candidates : List CommandCandidate} {acc : Assigned}
  {provider : CommandCandidate} {commandName : ByteString}

/-- What is decided about a provider, and the names that are taken then. -/
inductive Gets (sys : System) (first : Bool) (acc : Assigned) (provider : CommandCandidate) :
    ShimDecision → List ByteString → Prop
  | canonical {decision : ShimDecision} (isFirst : first = true)
      (free : provider.commandName ∉ acc.assignedNames) (mode : decision.mode = .canonical)
      (name : decision.shimName = provider.commandName)
      (binary : decision.binaryPath = provider.binaryPath) :
      Gets sys first acc provider decision (provider.commandName :: acc.assignedNames)
  | namespaced {decision : ShimDecision}
      (reserved : first = true → provider.commandName ∈ acc.assignedNames) :
      Gets sys first acc provider decision (provider.namespaced :: acc.assignedNames)
  | skipped {decision : ShimDecision}
      (reserved : first = true → provider.commandName ∈ acc.assignedNames)
      (refused : isLikelyCommandName provider.namespaced →
        commandExistsInSystemPaths sys provider.namespaced = false →
        provider.namespaced ∈ acc.assignedNames) :
      Gets sys first acc provider decision acc.assignedNames

theorem decideProvider_gets (sys : System) (first : Bool) (acc : Assigned)
    (provider : CommandCandidate) :
    ∃ decision names, decision.commandName = provider.commandName ∧
      Gets sys first acc provider decision names ∧
      decideProvider sys first acc provider = ⟨acc.decisions ++ [decision], names⟩ := by
  obtain ⟨decision, acc', about, turn, eq⟩ := decideProvider_turn sys first acc provider
  cases turn with
  | canonical isFirst free mode name =>
    exact ⟨_, _, about.command, .canonical isFirst free mode name about.binary, name ▸ eq⟩
  | skipped reserved refused => exact ⟨_, _, about.command, .skipped reserved refused, eq⟩
  | namespaced reserved _ _ _ _ name =>
    have own : decision.shimName = provider.namespaced := name
    exact ⟨_, _, about.command, .namespaced reserved, own ▸ eq⟩

/-- Decisions are added, and all of them are about the command. -/
def Assigned.Grows (acc : Assigned) (commandName : ByteString) (acc' : Assigned) : Prop :=
  ∃ added, acc'.decisions = acc.decisions ++ added ∧
    ∀ decision ∈ added, decision.commandName = commandName

theorem Assigned.Grows.trans {acc' acc'' : Assigned} (h : acc.Grows commandName acc')
    (h' : acc'.Grows commandName acc'') : acc.Grows commandName acc'' := by
  obtain ⟨added, eq, about⟩ := h
  obtain ⟨added', eq', about'⟩ := h'
  refine ⟨added ++ added', by rw [eq', eq, List.append_assoc], ?_⟩
  exact List.forall_mem_append.mpr ⟨about, about'⟩

theorem grows_decideProvider (first : Bool) (name : provider.commandName = commandName) :
    acc.Grows commandName (decideProvider sys first acc provider) := by
  obtain ⟨decision, names, about, -, eq⟩ := decideProvider_gets sys first acc provider
  rw [eq]
  exact ⟨[decision], rfl, List.forall_mem_singleton.mpr (about.trans name)⟩

/-- The other providers of a command. -/
theorem grows_others (sys : System) (acc : Assigned) {others : List CommandCandidate}
    (names : ∀ other ∈ others, other.commandName = commandName) :
    acc.Grows commandName (others.foldl (decideProvider sys false) acc) := by
  apply List.foldlRecOn (motive := fun acc' => acc.Grows commandName acc')
  · exact ⟨[], (List.append_nil _).symm, nofun⟩
  · intro acc' h other mem
    exact h.trans (grows_decideProvider false (names other mem))

theorem grows_decideCommand :
    acc.Grows commandName (decideCommand sys candidates acc commandName) := by
  unfold decideCommand
  rw [← providersOf]
  have own := fun provider => @mem_providersOf candidates commandName provider
  dsimp only
  split
  · refine ⟨_, rfl, fun decision mem => ?_⟩
    obtain ⟨provider, there, rfl⟩ := List.mem_map.mp mem
    exact (own provider there).2
  · cases providers : providersOf candidates commandName with
    | nil => exact ⟨[], (List.append_nil _).symm, List.forall_mem_nil _⟩
    | cons first others =>
      rw [providers] at own
      apply (grows_decideProvider true (own first List.mem_cons_self).2).trans
      exact grows_others sys _ fun other mem => (own other (List.mem_cons_of_mem _ mem)).2

/-- The first provider gets the command's name, and the others only names of their own. -/
theorem canonical_decideCommand (known : provider ∈ candidates)
    (name : provider.commandName = commandName)
    (absent : commandExistsInSystemPaths sys commandName = false)
    (free : commandName ∉ acc.assignedNames) :
    HasCanonical candidates (decideCommand sys candidates acc commandName).decisions commandName ∧
      ∀ taken ∈ (decideCommand sys candidates acc commandName).assignedNames,
        taken ∈ acc.assignedNames ∨ taken = commandName ∨
          ∃ other ∈ candidates, other.Later candidates ∧ other.commandName = commandName ∧
            other.namespaced = taken := by
  obtain ⟨first, others, providers, later, -⟩ := exists_providersOf known name
  have own : ∀ other ∈ first :: others, other ∈ candidates ∧ other.commandName = commandName :=
    fun other mem => mem_providersOf (providers ▸ mem)
  obtain ⟨firstKnown, firstName⟩ := own first List.mem_cons_self
  unfold decideCommand
  rw [← providersOf, providers, absent]
  dsimp only
  rw [if_neg Bool.false_ne_true]
  obtain ⟨decision, names, about, gets, eq⟩ := decideProvider_gets sys true acc first
  rw [eq]
  cases gets with
  | namespaced reserved => exact absurd (firstName ▸ reserved rfl) free
  | skipped reserved _ => exact absurd (firstName ▸ reserved rfl) free
  | canonical _ _ mode shimName binary =>
    constructor
    · obtain ⟨added, kept, -⟩ := grows_others sys
        ⟨acc.decisions ++ [decision], first.commandName :: acc.assignedNames⟩
        fun other mem => (own other (List.mem_cons_of_mem _ mem)).2
      rw [kept]
      refine ⟨decision, by simp, mode, shimName.trans firstName, about.trans firstName, ?_⟩
      exact ⟨first, firstKnown, firstName, binary⟩
    · apply List.foldlRecOn (motive := fun acc' : Assigned => ∀ taken ∈ acc'.assignedNames,
        taken ∈ acc.assignedNames ∨ taken = commandName ∨
          ∃ other ∈ candidates, other.Later candidates ∧ other.commandName = commandName ∧
            other.namespaced = taken)
      · intro taken mem
        rcases List.mem_cons.mp mem with rfl | mem
        · exact .inr (.inl firstName)
        · exact .inl mem
      · intro acc' h other mem
        obtain ⟨decision, names, -, gets, eq⟩ := decideProvider_gets sys false acc' other
        rw [eq]
        cases gets with
        | canonical isFirst => cases isFirst
        | skipped => exact h
        | namespaced =>
          obtain ⟨otherKnown, otherName⟩ := own other (List.mem_cons_of_mem _ mem)
          intro taken here
          rcases List.mem_cons.mp here with rfl | here
          · exact .inr (.inr ⟨other, otherKnown, later other mem, otherName, rfl⟩)
          · exact h taken here

theorem mem_assignedNames_decideProvider {taken : ByteString} (first : Bool)
    (mem : taken ∈ acc.assignedNames) :
    taken ∈ (decideProvider sys first acc provider).assignedNames := by
  obtain ⟨decision, names, -, gets, eq⟩ := decideProvider_gets sys first acc provider
  rw [eq]
  cases gets with
  | canonical => exact List.mem_cons_of_mem _ mem
  | namespaced => exact List.mem_cons_of_mem _ mem
  | skipped => exact mem

/-- After its turn a provider's own name is taken, whoever has it. -/
theorem namespaced_taken (likely : isLikelyCommandName provider.namespaced)
    (clear : commandExistsInSystemPaths sys provider.namespaced = false) :
    provider.namespaced ∈ (decideProvider sys false acc provider).assignedNames := by
  obtain ⟨decision, names, -, gets, eq⟩ := decideProvider_gets sys false acc provider
  rw [eq]
  cases gets with
  | canonical isFirst => cases isFirst
  | namespaced => exact List.mem_cons_self
  | skipped _ refused => exact refused likely clear

theorem namespaced_others {others : List CommandCandidate} {other : CommandCandidate}
    (mem : other ∈ others) (likely : isLikelyCommandName other.namespaced)
    (clear : commandExistsInSystemPaths sys other.namespaced = false) :
    other.namespaced ∈ (others.foldl (decideProvider sys false) acc).assignedNames := by
  induction others generalizing acc with
  | nil => cases mem
  | cons next others ih =>
    rw [List.foldl_cons]
    rcases List.mem_cons.mp mem with rfl | mem
    · apply List.foldlRecOn
        (motive := fun acc' : Assigned => other.namespaced ∈ acc'.assignedNames)
      · exact namespaced_taken likely clear
      · exact fun acc' h next _ => mem_assignedNames_decideProvider false h
    · exact ih mem

/-- After the turn of a command the names of its other providers are taken. -/
theorem namespaced_decideCommand (known : provider ∈ candidates)
    (later : provider.Later candidates) (name : provider.commandName = commandName)
    (absent : commandExistsInSystemPaths sys commandName = false)
    (likely : isLikelyCommandName provider.namespaced)
    (clear : commandExistsInSystemPaths sys provider.namespaced = false) :
    provider.namespaced ∈ (decideCommand sys candidates acc commandName).assignedNames := by
  obtain ⟨first, others, providers, -, equals⟩ := exists_providersOf known name
  obtain ⟨equal, there, same⟩ := equals provider known name later
  unfold decideCommand
  rw [← providersOf, providers, absent]
  dsimp only
  rw [if_neg Bool.false_ne_true]
  rw [← same] at likely clear ⊢
  exact namespaced_others there likely clear

end Names

/-! ### All commands -/

section Commands

variable {sys : System} {candidates : List CommandCandidate}

/-- The commands in the order of their turns. -/
def commandNames (candidates : List CommandCandidate) : List ByteString :=
  (candidates.map (·.commandName)).insertionSort (· ≤ ·) |>.dedup

theorem mem_commandNames {commandName : ByteString} :
    commandName ∈ commandNames candidates ↔
      ∃ provider ∈ candidates, provider.commandName = commandName := by
  rw [commandNames, List.mem_dedup, List.mem_insertionSort, List.mem_map]

theorem commandNames_sorted (candidates : List CommandCandidate) :
    (commandNames candidates).Pairwise (· < ·) := by
  have le : (commandNames candidates).Pairwise (· ≤ ·) :=
    (List.pairwise_insertionSort _ _).sublist (List.dedup_sublist _)
  have ne : (commandNames candidates).Pairwise (· ≠ ·) := List.nodup_dedup _
  exact (le.and ne).imp fun ⟨le, ne⟩ => (List.le_iff_lt_or_eq.mp le).resolve_right ne

theorem decideShims_run (sys : System) (candidates : List CommandCandidate) :
    decideShims sys candidates =
      (run (decideCommand sys candidates) {} (commandNames candidates)).decisions := rfl

/-- The turn of a command comes after those of the lesser ones. -/
theorem lt_of_turn {done rest : List ByteString} {commandName : ByteString}
    (split : commandNames candidates = done ++ commandName :: rest) :
    ∀ before ∈ done, before < commandName := by
  have sorted := commandNames_sorted candidates
  rw [split, List.pairwise_append] at sorted
  exact fun before mem => sorted.2.2 before mem commandName List.mem_cons_self

/-- The names that are taken while every command gets its own: the commands that had their turn,
and the names of their other providers. -/
structure AllCanonical (sys : System) (candidates : List CommandCandidate)
    (done : List ByteString) (acc : Assigned) : Prop where
  names : ∀ taken ∈ acc.assignedNames, taken ∈ done ∨
    ∃ other ∈ candidates, other.Later candidates ∧ other.commandName ∈ done ∧
      commandExistsInSystemPaths sys other.commandName = false ∧ other.namespaced = taken
  canonical : ∀ commandName ∈ done, commandExistsInSystemPaths sys commandName = false →
    HasCanonical candidates acc.decisions commandName

theorem HasCanonical.grow {acc acc' : Assigned} {turn commandName : ByteString}
    (h : HasCanonical candidates acc.decisions commandName) (grows : acc.Grows turn acc') :
    HasCanonical candidates acc'.decisions commandName := by
  obtain ⟨added, eq, -⟩ := grows
  obtain ⟨decision, mem, canonical⟩ := h
  exact ⟨decision, eq ▸ List.mem_append_left _ mem, canonical⟩

theorem allCanonical_turn (free : ∀ commandName ∈ commandNames candidates,
      commandExistsInSystemPaths sys commandName = false → ¬ Clash sys candidates commandName)
    {done rest : List ByteString} {commandName : ByteString}
    (split : commandNames candidates = done ++ commandName :: rest) {acc : Assigned}
    (h : AllCanonical sys candidates done acc) :
    AllCanonical sys candidates (done ++ [commandName])
      (decideCommand sys candidates acc commandName) := by
  have provided : commandName ∈ commandNames candidates := by
    rw [split]
    exact List.mem_append_right _ List.mem_cons_self
  have grows : acc.Grows commandName (decideCommand sys candidates acc commandName) :=
    grows_decideCommand
  cases absent : commandExistsInSystemPaths sys commandName with
  | true =>
    have names : (decideCommand sys candidates acc commandName).assignedNames =
        acc.assignedNames := by
      unfold decideCommand
      simp [absent]
    constructor
    · intro taken mem
      rw [names] at mem
      refine (h.names taken mem).imp (List.mem_append_left _) ?_
      rintro ⟨other, known, later, before, rest⟩
      exact ⟨other, known, later, List.mem_append_left _ before, rest⟩
    · intro other mem absent'
      rcases List.mem_append.mp mem with mem | mem
      · exact (h.canonical other mem absent').grow grows
      · rw [List.mem_singleton.mp mem, absent] at absent'
        cases absent'
  | false =>
    have notTaken : commandName ∉ acc.assignedNames := by
      intro mem
      obtain before | ⟨other, known, later, before, absent', same⟩ := h.names _ mem
      · exact List.lt_irrefl _ (lt_of_turn split _ before)
      · exact free commandName provided absent
          ⟨other, known, later, lt_of_turn split _ before, absent', same⟩
    obtain ⟨provider, known, name⟩ := mem_commandNames.mp provided
    obtain ⟨canonical, names⟩ := canonical_decideCommand known name absent notTaken
    constructor
    · intro taken mem
      obtain mem | rfl | ⟨other, known, later, name, same⟩ := names taken mem
      · refine (h.names taken mem).imp (List.mem_append_left _) ?_
        rintro ⟨other, known, later, before, rest⟩
        exact ⟨other, known, later, List.mem_append_left _ before, rest⟩
      · exact .inl (List.mem_append_right _ List.mem_cons_self)
      · refine .inr ⟨other, known, later, ?_, name ▸ absent, same⟩
        exact List.mem_append_right _ (List.mem_singleton.mpr name)
    · intro other mem absent'
      rcases List.mem_append.mp mem with mem | mem
      · exact (h.canonical other mem absent').grow grows
      · rw [List.mem_singleton.mp mem]
        exact canonical

/-- After its turn no later command has the name of a provider that is not the first: a shim of its
own command or of one before has it. -/
structure LaterNamed (sys : System) (candidates : List CommandCandidate) (done : List ByteString)
    (acc : Assigned) : Prop where
  distinct : acc.Distinct
  about : ∀ decision ∈ acc.decisions, decision.commandName ∈ done
  named : ∀ provider ∈ candidates, provider.Later candidates → provider.commandName ∈ done →
    commandExistsInSystemPaths sys provider.commandName = false →
    isLikelyCommandName provider.namespaced →
    commandExistsInSystemPaths sys provider.namespaced = false →
    ∃ decision ∈ acc.decisions, decision.mode ≠ .skipped ∧
      decision.shimName = provider.namespaced ∧ decision.commandName ≤ provider.commandName

theorem laterNamed_turn {done rest : List ByteString} {commandName : ByteString}
    (split : commandNames candidates = done ++ commandName :: rest) {acc : Assigned}
    (h : LaterNamed sys candidates done acc) :
    LaterNamed sys candidates (done ++ [commandName])
      (decideCommand sys candidates acc commandName) := by
  have distinct : (decideCommand sys candidates acc commandName).Distinct :=
    distinct_decideCommand h.distinct candidates commandName
  obtain ⟨added, grown, own⟩ : acc.Grows commandName
    (decideCommand sys candidates acc commandName) := grows_decideCommand
  have about : ∀ decision ∈ (decideCommand sys candidates acc commandName).decisions,
      decision.commandName ∈ done ++ [commandName] := by
    intro decision mem
    rw [grown] at mem
    rcases List.mem_append.mp mem with mem | mem
    · exact List.mem_append_left _ (h.about decision mem)
    · exact List.mem_append_right _ (List.mem_singleton.mpr (own decision mem))
  refine ⟨distinct, about, ?_⟩
  intro provider known later turn absent likely clear
  rcases List.mem_append.mp turn with before | now
  · obtain ⟨decision, mem, taken⟩ := h.named provider known later before absent likely clear
    exact ⟨decision, grown ▸ List.mem_append_left _ mem, taken⟩
  · have name := List.mem_singleton.mp now
    rw [name] at absent
    have taken : provider.namespaced ∈ (decideCommand sys candidates acc commandName).assignedNames :=
      namespaced_decideCommand known later name absent likely clear
    rw [distinct.names, List.mem_reverse] at taken
    obtain ⟨decision, here, same⟩ := List.mem_map.mp taken
    obtain ⟨mem, active⟩ := List.mem_filter.mp here
    refine ⟨decision, mem, of_decide_eq_true active, same, ?_⟩
    rw [name]
    rcases List.mem_append.mp (about decision mem) with before | now
    · exact List.le_of_lt (lt_of_turn split _ before)
    · exact List.mem_singleton.mp now ▸ List.le_refl _

/-- Two shims of one name are one. -/
theorem eq_of_shimName {decisions : List ShimDecision} (nodup : (assigned decisions).Nodup)
    {a b : ShimDecision} (ha : a ∈ decisions) (hb : b ∈ decisions) (activeA : a.mode ≠ .skipped)
    (activeB : b.mode ≠ .skipped) (same : a.shimName = b.shimName) : a = b := by
  apply List.inj_on_of_nodup_map nodup _ _ same
  · exact List.mem_filter.mpr ⟨ha, decide_eq_true activeA⟩
  · exact List.mem_filter.mpr ⟨hb, decide_eq_true activeB⟩

/-- **Every command gets its canonical shim** just when no name clashes. -/
theorem canonical_iff (likely : Likely candidates) :
    (∀ commandName ∈ commandNames candidates,
      commandExistsInSystemPaths sys commandName = false →
        HasCanonical candidates (decideShims sys candidates) commandName) ↔
      ∀ commandName ∈ commandNames candidates,
        commandExistsInSystemPaths sys commandName = false → ¬ Clash sys candidates commandName := by
  rw [decideShims_run]
  constructor
  · intro all commandName provided absent
    rintro ⟨provider, known, later, less, absent', same⟩
    have named : LaterNamed sys candidates (commandNames candidates)
        (run (decideCommand sys candidates) {} (commandNames candidates)) := by
      apply run_done (LaterNamed sys candidates)
      · exact fun done commandName rest split acc h => laterNamed_turn split h
      · exact ⟨⟨rfl, List.nodup_nil⟩, nofun, nofun⟩
    obtain ⟨origin, originKnown, originName⟩ := mem_commandNames.mp provided
    obtain ⟨decision, mem, active, shimName, le⟩ := named.named provider known later
      (mem_commandNames.mpr ⟨provider, known, rfl⟩) absent'
      (by rw [same, ← originName]; exact likely origin originKnown) (same ▸ absent)
    obtain ⟨canonical, mem', mode, shimName', about, -⟩ := all commandName provided absent
    have one : decision = canonical := by
      apply eq_of_shimName (assigned_nodup candidates) mem mem' active (mode ▸ nofun)
      rw [shimName, same, shimName']
    rw [one, about] at le
    exact le less
  · intro free
    have all : AllCanonical sys candidates (commandNames candidates)
        (run (decideCommand sys candidates) {} (commandNames candidates)) := by
      apply run_done (AllCanonical sys candidates)
      · exact fun done commandName rest split acc h => allCanonical_turn free split h
      · exact ⟨nofun, nofun⟩
    exact all.canonical

end Commands

/-- **Every command that a package provides and the system has not gets its canonical shim**,
whatever is found, just when no provider that stands behind another of its command has the name of
a later such command. -/
theorem canonicalShims_iff (view : View) (sys : System) :
    (∀ commandName ∈ commandNames view.commands,
      commandExistsInSystemPaths sys commandName = false →
        HasCanonical view.commands (decideShims sys view.commands) commandName) ↔
      ∀ commandName ∈ commandNames view.commands,
        commandExistsInSystemPaths sys commandName = false →
          ¬ Clash sys view.commands commandName :=
  canonical_iff likely_found

/-- Two packages with an `ed`, and one with a command `vile-ed`. -/
def twoEds : View where
  status := .ok ∅
  manual := .ok (["ed", "vile", "extras"].map fun name =>
    { name := str name, prefixDir := str "/data/apm/" ++ str name })
  readFile _ := none
  pathExists _ := true
  isDirectory _ := true
  isExecutableFile _ := true
  listDir dir :=
    if dir = str "/data/apm/extras/usr/bin" then [str "vile-ed"]
    else if dir = str "/data/apm/ed/usr/bin" ∨ dir = str "/data/apm/vile/usr/bin" then [str "ed"]
    else []
  readable _ := true
  shimWritten _ := true
  shimRemoved _ := true
  leads _ := none

instance (candidates : List CommandCandidate) (decisions : List ShimDecision)
    (commandName : ByteString) : Decidable (HasCanonical candidates decisions commandName) :=
  inferInstanceAs (Decidable (∃ decision ∈ decisions, _))

/-- **A command without its canonical shim**: the second `ed` is called `vile-ed`, and the shim of
that name runs an `ed`. -/
theorem vileEd_lost :
    ¬ ∀ commandName ∈ commandNames twoEds.commands,
      commandExistsInSystemPaths lsSystem commandName = false →
        HasCanonical twoEds.commands (decideShims lsSystem twoEds.commands) commandName := by
  intro all
  have provided : str "vile-ed" ∈ commandNames twoEds.commands := by
    decide +kernel
  have absent : commandExistsInSystemPaths lsSystem (str "vile-ed") = false := by
    decide +kernel
  have lost : ¬ HasCanonical twoEds.commands (decideShims lsSystem twoEds.commands)
      (str "vile-ed") := by
    decide +kernel
  exact lost (all _ provided absent)

end Apm.Shims
