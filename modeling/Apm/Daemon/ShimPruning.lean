import Apm.Daemon.CommandIndex

/-!
The names of shims, and which shims a rebuild leaves in the command directory.

`decideShims` takes names one after the other, so that no two shims share one; the order in which
commands are found does not matter. `rebuildFor` writes each shim under a temporary name, and takes
away what the command index and the command directory list of the shims before.

## Main results

* `rebuild_iff`: the names are right, and when the shims that are left are those decided on.
* `rebuilds_exact`: a run of rebuilds leaves just these shims each time, if their names are plain
  and none is the temporary file of a later one.
-/

namespace Apm.Shims

open Apm.Repo Apm.Fs Apm.Config Apm.Lib.Run

/-! ### Names that are taken -/

/-- The names of the shims that are decided on, in their order. -/
def assigned (decisions : List ShimDecision) : List ByteString :=
  (decisions.filter (·.mode ≠ .skipped)).map (·.shimName)

section Names

variable {sys : System}

theorem assigned_append (decisions decisions' : List ShimDecision) :
    assigned (decisions ++ decisions') = assigned decisions ++ assigned decisions' := by
  rw [assigned, List.filter_append, List.map_append]
  rfl

/-- The names that are taken are those of the decisions, each once. -/
structure Assigned.Distinct (acc : Assigned) : Prop where
  names : acc.assignedNames = (assigned acc.decisions).reverse
  nodup : acc.assignedNames.Nodup

/-- A decision to take no name. -/
theorem Assigned.Distinct.skip {acc : Assigned} (h : acc.Distinct) {decisions : List ShimDecision}
    (skipped : ∀ decision ∈ decisions, decision.mode = .skipped) :
    Assigned.Distinct { acc with decisions := acc.decisions ++ decisions } := by
  have none : assigned decisions = [] := by
    unfold assigned
    rw [List.filter_eq_nil_iff.mpr fun decision mem => by simp [skipped decision mem]]
    rfl
  constructor
  · dsimp only
    rw [assigned_append, none, List.append_nil]
    exact h.names
  · exact h.nodup

/-- A decision for a name that is free. -/
theorem Assigned.Distinct.take {acc : Assigned} (h : acc.Distinct) {decision : ShimDecision}
    (active : decision.mode ≠ .skipped) (free : decision.shimName ∉ acc.assignedNames) :
    Assigned.Distinct ⟨acc.decisions ++ [decision], decision.shimName :: acc.assignedNames⟩ := by
  have one : assigned [decision] = [decision.shimName] := by
    simp [assigned, active]
  constructor
  · dsimp only
    rw [assigned_append, one, List.reverse_append, h.names]
    rfl
  · exact List.nodup_cons.mpr ⟨free, h.nodup⟩

theorem distinct_decideProvider {first : Bool} {acc : Assigned} (h : acc.Distinct)
    (provider : CommandCandidate) : (decideProvider sys first acc provider).Distinct := by
  obtain ⟨decision, acc', -, turn, eq⟩ := decideProvider_turn sys first acc provider
  rw [eq]
  cases turn with
  | canonical _ free mode name =>
    apply h.take
    · exact mode ▸ nofun
    · exact name ▸ free
  | skipped _ _ mode => exact h.skip (List.forall_mem_singleton.mpr mode)
  | namespaced _ _ _ free mode =>
    apply h.take
    · exact mode ▸ nofun
    · exact free

theorem distinct_decideCommand {acc : Assigned} (h : acc.Distinct)
    (candidates : List CommandCandidate) (commandName : ByteString) :
    (decideCommand sys candidates acc commandName).Distinct := by
  unfold decideCommand
  dsimp only
  split
  · apply h.skip
    intro decision mem
    obtain ⟨provider, -, rfl⟩ := List.mem_map.mp mem
    rfl
  · split
    · exact h
    · apply List.foldlRecOn
      · exact distinct_decideProvider h _
      · intro acc h other _
        exact distinct_decideProvider h other

/-- **No two shims share a name.** -/
theorem assigned_nodup (candidates : List CommandCandidate) :
    (assigned (decideShims sys candidates)).Nodup := by
  have start : Assigned.Distinct {} := ⟨rfl, List.nodup_nil⟩
  have all : Assigned.Distinct
      (((candidates.map (·.commandName)).insertionSort (· ≤ ·) |>.dedup).foldl
        (decideCommand sys candidates) {}) := by
    apply List.foldlRecOn
    · exact start
    · intro acc h commandName _
      exact distinct_decideCommand h candidates commandName
  rw [← List.nodup_reverse]
  exact all.names ▸ all.nodup

/-- No shim has the name of a command in the system paths. -/
theorem assigned_clear {candidates : List CommandCandidate} (likely : Likely candidates)
    {name : ByteString} (mem : name ∈ assigned (decideShims sys candidates)) :
    sys.hasCommand name = false := by
  obtain ⟨decision, here, rfl⟩ := List.mem_map.mp mem
  obtain ⟨mem, active⟩ := List.mem_filter.mp here
  exact clear_decideShims likely mem (of_decide_eq_true active)

/-! ### The order of discovery -/

/-- A candidate without its Termux flag. -/
def CommandCandidate.plain (candidate : CommandCandidate) : CommandCandidate :=
  { candidate with termuxPackage := false }

/-- A decision without the Termux flag, which no name depends on. -/
def ShimDecision.plain (decision : ShimDecision) : ShimDecision :=
  { decision with sourceTermuxEnv := false }

def Assigned.plain (acc : Assigned) : Assigned :=
  { acc with decisions := acc.decisions.map (·.plain) }

theorem Assigned.plain_push (decisions : List ShimDecision) (decision : ShimDecision)
    (names : List ByteString) :
    Assigned.plain ⟨decisions ++ [decision], names⟩ =
      ⟨decisions.map (·.plain) ++ [decision.plain], names⟩ := by
  rw [Assigned.plain, List.map_append]
  rfl

theorem decideProvider_plain (first : Bool) (acc : Assigned) (provider : CommandCandidate) :
    (decideProvider sys first acc provider).plain =
      decideProvider sys first acc.plain provider.plain := by
  unfold decideProvider
  dsimp only
  simp only [apply_ite Assigned.plain, Assigned.plain_push]
  rfl

/-- The providers of a command, each once. -/
def providersOf (candidates : List CommandCandidate) (commandName : ByteString) :
    List CommandCandidate :=
  (candidates.filter (·.commandName == commandName))
    |>.insertionSort CommandCandidate.Before |>.destutter CommandCandidate.Differs

theorem providersOf_plain (candidates : List CommandCandidate) (commandName : ByteString) :
    (providersOf candidates commandName).map (·.plain) =
      providersOf (candidates.map (·.plain)) commandName := by
  have order : ((candidates.filter (·.commandName == commandName)).insertionSort
        CommandCandidate.Before).map (·.plain) =
      ((candidates.filter (·.commandName == commandName)).map (·.plain)).insertionSort
        CommandCandidate.Before :=
    List.map_insertionSort _ _ _ _ fun _ _ _ _ => Iff.rfl
  have once : (providersOf candidates commandName).map (·.plain) =
      (((candidates.filter (·.commandName == commandName)).insertionSort
        CommandCandidate.Before).map (·.plain)).destutter CommandCandidate.Differs :=
    List.map_destutter fun _ _ _ _ => Iff.rfl
  rw [once, order, providersOf, List.filter_map]
  rfl

theorem decideCommand_plain (candidates : List CommandCandidate) (acc : Assigned)
    (commandName : ByteString) :
    (decideCommand sys candidates acc commandName).plain =
      decideCommand sys (candidates.map (·.plain)) acc.plain commandName := by
  have same := providersOf_plain candidates commandName
  unfold decideCommand
  rw [← providersOf, ← providersOf, ← same]
  dsimp only
  split
  · simp only [Assigned.plain, List.map_append, List.map_map]
    rfl
  · cases providersOf candidates commandName with
    | nil => rfl
    | cons provider others =>
      rw [List.map_cons]
      dsimp only
      rw [List.foldl_map, ← decideProvider_plain]
      exact (List.foldl_hom Assigned.plain fun acc other =>
        (decideProvider_plain false acc other).symm).symm

theorem decideShims_plain (candidates : List CommandCandidate) :
    (decideShims sys candidates).map (·.plain) =
      decideShims sys (candidates.map (·.plain)) := by
  have names : (candidates.map (·.plain)).map (·.commandName) =
      candidates.map (·.commandName) := by
    rw [List.map_map]
    rfl
  unfold decideShims
  rw [names]
  dsimp only
  have all : ((candidates.map (·.commandName)).insertionSort (· ≤ ·) |>.dedup).foldl
      (decideCommand sys (candidates.map (·.plain))) (Assigned.plain {}) =
      Assigned.plain (((candidates.map (·.commandName)).insertionSort (· ≤ ·) |>.dedup).foldl
        (decideCommand sys candidates) {}) :=
    List.foldl_hom Assigned.plain fun acc commandName =>
      (decideCommand_plain candidates acc commandName).symm
  exact congrArg Assigned.decisions all.symm

instance : Std.Total CommandCandidate.Before where
  total a b := by
    by_cases less : a.packageName < b.packageName
    · exact .inl (.inl less)
    · by_cases more : b.packageName < a.packageName
      · exact .inr (.inl more)
      · have same := List.le_antisymm (List.not_lt.mp more) (List.not_lt.mp less)
        exact (List.le_total a.binaryPath b.binaryPath).imp (fun le => .inr ⟨same, le⟩)
          fun le => .inr ⟨same.symm, le⟩

instance : IsTrans CommandCandidate CommandCandidate.Before where
  trans a b c ab bc := by
    obtain less | ⟨same, le⟩ := ab
    · obtain less' | ⟨same', -⟩ := bc
      · exact .inl (List.lt_trans less less')
      · exact .inl (same' ▸ less)
    · obtain less' | ⟨same', le'⟩ := bc
      · exact .inl (same ▸ less')
      · exact .inr ⟨same.trans same', List.le_trans le le'⟩

/-- Candidates that stand before each other are of one package and one binary. -/
theorem CommandCandidate.Before.antisymm {a b : CommandCandidate} (ab : a.Before b)
    (ba : b.Before a) : a.packageName = b.packageName ∧ a.binaryPath = b.binaryPath := by
  obtain less | ⟨same, le⟩ := ab
  · obtain less' | ⟨same', -⟩ := ba
    · exact absurd less' (List.lt_asymm less)
    · exact absurd (same' ▸ less) (List.lt_irrefl _)
  · obtain less' | ⟨-, le'⟩ := ba
    · exact absurd (same ▸ less') (List.lt_irrefl _)
    · exact ⟨same, List.le_antisymm le le'⟩

theorem providersOf_perm {candidates candidates' : List CommandCandidate}
    (perm : candidates.Perm candidates') (commandName : ByteString) :
    providersOf (candidates.map (·.plain)) commandName =
      providersOf (candidates'.map (·.plain)) commandName := by
  unfold providersOf
  have same := (perm.map (·.plain)).filter (·.commandName == commandName)
  have sorted : ((candidates.map (·.plain)).filter
      (·.commandName == commandName)).insertionSort CommandCandidate.Before =
      ((candidates'.map (·.plain)).filter
        (·.commandName == commandName)).insertionSort CommandCandidate.Before := by
    refine List.Perm.eq_of_pairwise ?_ (List.pairwise_insertionSort CommandCandidate.Before _)
      (List.pairwise_insertionSort _ _)
      (((List.perm_insertionSort _ _).trans same).trans (List.perm_insertionSort _ _).symm)
    intro a b ha hb ab ba
    rw [List.mem_insertionSort, List.mem_filter, beq_iff_eq] at ha hb
    obtain ⟨package, binary⟩ := ab.antisymm ba
    obtain ⟨a, -, rfl⟩ := List.mem_map.mp ha.1
    obtain ⟨b, -, rfl⟩ := List.mem_map.mp hb.1
    rw [CommandCandidate.plain, CommandCandidate.plain, CommandCandidate.mk.injEq]
    exact ⟨package, ha.2.trans hb.2.symm, binary, rfl⟩
  rw [sorted]

/-- **The order in which candidates are found does not matter.** -/
theorem decideShims_perm {candidates candidates' : List CommandCandidate}
    (perm : candidates.Perm candidates') :
    (decideShims sys candidates).map (·.plain) = (decideShims sys candidates').map (·.plain) := by
  have turn : decideCommand sys (candidates.map (·.plain)) =
      decideCommand sys (candidates'.map (·.plain)) := by
    funext acc commandName
    unfold decideCommand
    rw [← providersOf, providersOf_perm perm, providersOf]
  have names : ((candidates.map (·.plain)).map (·.commandName)).insertionSort (· ≤ ·) =
      ((candidates'.map (·.plain)).map (·.commandName)).insertionSort (· ≤ ·) := by
    refine List.Perm.eq_of_pairwise (fun _ _ _ _ => List.le_antisymm)
      (List.pairwise_insertionSort _ _) (List.pairwise_insertionSort _ _) ?_
    exact ((List.perm_insertionSort _ _).trans ((perm.map _).map _)).trans
      (List.perm_insertionSort _ _).symm
  rw [decideShims_plain, decideShims_plain, decideShims, decideShims, names, turn]

end Names

/-! ### Managed shims -/

/-- A managed shim, as a rebuild tells them. -/
def Managed (bin : BinDir) (name : ByteString) : Prop :=
  ∃ file ∈ bin.lookup name, contains file.text (str "# apm-managed-shim")

instance (bin : BinDir) (name : ByteString) : Decidable (Managed bin name) :=
  inferInstanceAs (Decidable (∃ file ∈ bin.lookup name, _))

/-- Whatever a rebuild reads, writes and removes in the command directory works. -/
structure Succeeds (view : View) : Prop where
  readable : ∀ name, view.readable name
  shimWritten : ∀ name, view.shimWritten name
  shimRemoved : ∀ name, view.shimRemoved name

section Pruning

variable {view : View} {sys : System} {bin : BinDir} {name : ByteString}

theorem managed_erase {other : ByteString} :
    Managed (bin.erase other) name ↔ name ≠ other ∧ Managed bin name := by
  unfold Managed
  by_cases same : name = other
  · subst same
    rw [AList.lookup_erase]
    simp
  · rw [AList.lookup_erase_ne same]
    simp [same]

theorem shimText_managed (decision : ShimDecision) :
    contains (shimText decision) (str "# apm-managed-shim") := by
  unfold contains shimText
  rw [List.append_assoc, List.append_assoc, List.append_assoc]
  apply List.any_eq_true.mpr
  refine ⟨_, (List.mem_tails _ _).mpr (List.suffix_append (str "#!/system/bin/sh\n") _), ?_⟩
  have marked : str "# apm-managed-shim" <+: str "# apm-managed-shim\n" := by decide
  exact List.isPrefixOf_iff_prefix.mpr (marked.trans (List.prefix_append _ _))

theorem managed_writeAtomicFile {shim : ByteString} (decision : ShimDecision) :
    Managed (writeAtomicFile bin shim ⟨.shim, shimText decision⟩) name ↔
      name = shim ∨ name ≠ shim ++ str ".tmp" ∧ Managed bin name := by
  unfold writeAtomicFile
  by_cases same : name = shim
  · subst same
    simp only [true_or, iff_true]
    exact ⟨_, AList.lookup_insert _, shimText_managed decision⟩
  · have kept : Managed ((bin.erase (shim ++ str ".tmp")).insert shim
        ⟨.shim, shimText decision⟩) name ↔ Managed (bin.erase (shim ++ str ".tmp")) name := by
      unfold Managed
      rw [AList.lookup_insert_ne same]
    rw [kept, managed_erase, or_iff_right same]

/-- What the scan of the command directory finds. -/
theorem mem_scanned (succeeds : Succeeds view) :
    name ∈ loadManagedShimsFromBinDir view bin ↔
      Managed bin name ∧ hidden name = false ∧ isLikelyCommandName name := by
  unfold loadManagedShimsFromBinDir Managed
  rw [List.mem_filterMap]
  constructor
  · rintro ⟨⟨other, file⟩, mem, found⟩
    split at found
    · rename_i scanned
      obtain rfl := Option.some.inj found
      simp only [Bool.and_eq_true, Bool.not_eq_true'] at scanned
      obtain ⟨⟨⟨shown, likely⟩, -⟩, marked⟩ := scanned
      exact ⟨⟨file, AList.mem_lookup_iff.mpr mem, marked⟩, shown, likely⟩
    · cases found
  · rintro ⟨⟨file, found, marked⟩, shown, likely⟩
    refine ⟨⟨name, file⟩, AList.mem_lookup_iff.mp found, ?_⟩
    simp [shown, likely, succeeds.readable name, marked]

/-! ### Writing -/

/-- Write shims, where that works. -/
theorem writeShim_skipped {decision : ShimDecision} (skipped : decision.mode = .skipped)
    (x : BinDir × List ByteString) : writeShim view x decision = x := by
  simp [writeShim, skipped]

theorem writeShim_active (succeeds : Succeeds view) {decision : ShimDecision}
    (active : decision.mode ≠ .skipped) (x : BinDir × List ByteString) :
    writeShim view x decision = (writeAtomicFile x.1 decision.shimName
      ⟨.shim, shimText decision⟩, decision.shimName :: x.2) := by
  simp [writeShim, active, succeeds.shimWritten]

theorem assigned_skipped {decision : ShimDecision} (skipped : decision.mode = .skipped)
    (decisions : List ShimDecision) : assigned (decision :: decisions) = assigned decisions := by
  simp [assigned, skipped]

theorem assigned_active {decision : ShimDecision} (active : decision.mode ≠ .skipped)
    (decisions : List ShimDecision) :
    assigned (decision :: decisions) = decision.shimName :: assigned decisions := by
  simp [assigned, active]

variable {decisions : List ShimDecision}

/-- The names that are written. -/
theorem mem_newManaged (succeeds : Succeeds view) (x : BinDir × List ByteString) :
    name ∈ (decisions.foldl (writeShim view) x).2 ↔ name ∈ assigned decisions ∨ name ∈ x.2 := by
  induction decisions generalizing x with
  | nil => simp [assigned]
  | cons decision decisions ih =>
    rw [List.foldl_cons, ih]
    by_cases skipped : decision.mode = .skipped
    · rw [writeShim_skipped skipped, assigned_skipped skipped]
    · rw [writeShim_active succeeds skipped, assigned_active skipped]
      simp only [List.mem_cons]
      tauto

/-- A file that is no new shim stays, unless it is in the way of a temporary file. -/
theorem managed_other (succeeds : Succeeds view) (x : BinDir × List ByteString)
    (other : name ∉ assigned decisions) :
    Managed (decisions.foldl (writeShim view) x).1 name ↔
      Managed x.1 name ∧ ∀ shim ∈ assigned decisions, name ≠ shim ++ str ".tmp" := by
  induction decisions generalizing x with
  | nil => simp [assigned]
  | cons decision decisions ih =>
    rw [List.foldl_cons]
    by_cases skipped : decision.mode = .skipped
    · rw [assigned_skipped skipped] at other ⊢
      rw [writeShim_skipped skipped, ih x other]
    · rw [assigned_active skipped] at other ⊢
      obtain ⟨notThis, later⟩ := not_or.mp (mt List.mem_cons.mpr other)
      rw [writeShim_active succeeds skipped, ih _ later, managed_writeAtomicFile,
        or_iff_right notThis, List.forall_mem_cons]
      tauto

/-- **The new shims are there** if none is in the way of the temporary file of a later one. -/
theorem managed_assigned (succeeds : Succeeds view) (x : BinDir × List ByteString)
    (nodup : (assigned decisions).Nodup) :
    (∀ shim ∈ assigned decisions, Managed (decisions.foldl (writeShim view) x).1 shim) ↔
      (assigned decisions).Pairwise fun shim later => shim ≠ later ++ str ".tmp" := by
  induction decisions generalizing x with
  | nil => simp [assigned]
  | cons decision decisions ih =>
    rw [List.foldl_cons]
    by_cases skipped : decision.mode = .skipped
    · rw [assigned_skipped skipped] at nodup ⊢
      rw [writeShim_skipped skipped, ih x nodup]
    · rw [assigned_active skipped] at nodup ⊢
      obtain ⟨fresh, nodup⟩ := List.nodup_cons.mp nodup
      rw [writeShim_active succeeds skipped, List.forall_mem_cons, List.pairwise_cons, ih _ nodup,
        managed_other succeeds _ fresh, managed_writeAtomicFile]
      simp only [true_or, true_and]

/-! ### Pruning -/

theorem managed_removeStale (succeeds : Succeeds view) {newManaged : List ByteString}
    (old : ByteString) :
    Managed (removeStale view newManaged bin old) name ↔
      Managed bin name ∧ (old ∉ newManaged → binFile view old ≠ some name) := by
  unfold removeStale
  rw [succeeds.shimRemoved, Bool.not_true, Bool.or_false]
  by_cases kept : old ∈ newManaged
  · simp [kept]
  · rw [if_neg (by simpa using kept)]
    cases stands : binFile view old with
    | none => simp
    | some other =>
      dsimp only
      rw [managed_erase]
      have spelled : some other ≠ some name ↔ name ≠ other := by
        rw [ne_eq, Option.some_inj, ne_eq, eq_comm]
      simp only [kept, not_false_eq_true, true_imp_iff, spelled]
      exact and_comm

/-- What is listed is taken away, unless it is a new shim. -/
theorem managed_pruned (succeeds : Succeeds view) {oldManaged newManaged : List ByteString} :
    Managed (oldManaged.foldl (removeStale view newManaged) bin) name ↔
      Managed bin name ∧
        ∀ old ∈ oldManaged, old ∉ newManaged → binFile view old ≠ some name := by
  induction oldManaged generalizing bin with
  | nil => simp
  | cons old oldManaged ih =>
    rw [List.foldl_cons, ih, List.forall_mem_cons, managed_removeStale succeeds, and_assoc]

/-- The names in the command index. -/
def listed (view : View) : List ByteString := loadShimsFromManifest view getCommandIndexFile

/-- What a rebuild needs to leave just the shims it decides on. -/
structure Prunes (view : View) (bin : BinDir) (names : List ByteString) : Prop where
  /-- No shim is the temporary file of a later one. -/
  temporaries : names.Pairwise fun shim later => shim ≠ later ++ str ".tmp"
  /-- No new shim is listed by another path. -/
  paths : ∀ old ∈ listed view, old ∉ names → ∀ shim ∈ names, binFile view old ≠ some shim
  /-- A shim that is no more is in sight, listed, or in the way of a temporary file. -/
  old : ∀ name, Managed bin name → name ∉ names →
    hidden name = false ∧ isLikelyCommandName name ∨
    (∃ old ∈ listed view, old ∉ names ∧ binFile view old = some name) ∨
    ∃ shim ∈ names, name = shim ++ str ".tmp"

/-- A name in sight stands for itself. -/
theorem binFile_likely (likely : isLikelyCommandName name) : binFile view name = some name := by
  apply if_neg
  intro slash
  simp [isLikelyCommandName, slash] at likely

theorem managed_rebuildFor (succeeds : Succeeds view) {candidates : List CommandCandidate} :
    Managed (rebuildFor view sys candidates bin) name ↔
      Managed ((decideShims sys candidates).foldl (writeShim view) (bin, [])).1 name ∧
        ∀ old ∈ listed view ++ loadManagedShimsFromBinDir view bin,
          old ∉ assigned (decideShims sys candidates) → binFile view old ≠ some name := by
  unfold rebuildFor
  dsimp only
  rw [managed_pruned succeeds]
  simp only [mem_newManaged succeeds, List.not_mem_nil, or_false]
  rfl

/-- **Which shims are left.** -/
theorem managed_iff (succeeds : Succeeds view) (candidates : List CommandCandidate) :
    (∀ name, Managed (rebuildFor view sys candidates bin) name ↔
      name ∈ assigned (decideShims sys candidates)) ↔
    Prunes view bin (assigned (decideShims sys candidates)) := by
  have nodup : (assigned (decideShims sys candidates)).Nodup := assigned_nodup candidates
  constructor
  · intro exact
    constructor
    · apply (managed_assigned succeeds (bin, []) nodup).mp
      intro shim mem
      exact ((managed_rebuildFor succeeds).mp ((exact shim).mpr mem)).1
    · intro old mem gone shim new
      exact ((managed_rebuildFor succeeds).mp ((exact shim).mpr new)).2 old
        (List.mem_append_left _ mem) gone
    · intro name managed gone
      by_contra none
      simp only [not_or, not_exists, not_and] at none
      obtain ⟨away, unlisted, clear⟩ := none
      apply gone
      apply (exact name).mp
      refine (managed_rebuildFor succeeds).mpr
        ⟨(managed_other succeeds (bin, []) gone).mpr ⟨managed, clear⟩, ?_⟩
      intro old mem oldGone stands
      rcases List.mem_append.mp mem with inIndex | inSight
      · exact unlisted old inIndex oldGone stands
      · obtain ⟨-, shown, likely⟩ := (mem_scanned succeeds).mp inSight
        rw [binFile_likely likely, Option.some_inj] at stands
        subst stands
        exact away shown likely
  · intro prunes name
    rw [managed_rebuildFor succeeds]
    constructor
    · rintro ⟨written, kept⟩
      by_contra gone
      obtain ⟨managed, clear⟩ := (managed_other succeeds (bin, []) gone).mp written
      rcases prunes.old name managed gone with ⟨shown, likely⟩ | ⟨old, mem, oldGone, stands⟩ |
        ⟨shim, new, same⟩
      · have inSight := (mem_scanned succeeds).mpr ⟨managed, shown, likely⟩
        exact kept name (List.mem_append_right _ inSight) gone (binFile_likely likely)
      · exact kept old (List.mem_append_left _ mem) oldGone stands
      · exact clear shim new same
    · intro new
      refine ⟨(managed_assigned succeeds (bin, []) nodup).mpr prunes.temporaries name new, ?_⟩
      intro old mem oldGone stands
      rcases List.mem_append.mp mem with inIndex | inSight
      · exact prunes.paths old inIndex oldGone name new stands
      · obtain ⟨-, -, likely⟩ := (mem_scanned succeeds).mp inSight
        rw [binFile_likely likely, Option.some_inj] at stands
        exact oldGone (stands ▸ new)

end Pruning

/-! ### Rebuilds -/

theorem Succeeds.viewOf {event : Rebuild} (succeeds : Succeeds event.view) (left : Left) :
    Succeeds (event.viewOf left) :=
  ⟨succeeds.readable, succeeds.shimWritten, succeeds.shimRemoved⟩

/-- **A rebuild, after whatever was left before.** The names are distinct, none is that of a
command in the system paths, and they do not depend on the order in which commands are found. The
managed shims in the command directory are then those, if and only if what was left can be told
from the index and the directory, and no shim is the temporary file of a later one. -/
theorem rebuild_iff (sys : System) (event : Rebuild) (likely : Likely event.candidates)
    (succeeds : Succeeds event.view) (left : Left) :
    ((assigned (decideShims sys event.candidates)).Nodup ∧
      (∀ name ∈ assigned (decideShims sys event.candidates), sys.hasCommand name = false) ∧
      ∀ candidates', event.candidates.Perm candidates' →
        (decideShims sys event.candidates).map (·.plain) =
          (decideShims sys candidates').map (·.plain)) ∧
    ((∀ name, Managed (rebuild sys left event).bin name ↔
        name ∈ assigned (decideShims sys event.candidates)) ↔
      Prunes (event.viewOf left) left.bin (assigned (decideShims sys event.candidates))) :=
  ⟨⟨assigned_nodup event.candidates, fun _ mem => assigned_clear likely mem,
      fun _ perm => decideShims_perm perm⟩,
    managed_iff (succeeds.viewOf left) event.candidates⟩

/-- A rebuild for these commands, where everything works. -/
def working (candidates : List CommandCandidate) : Rebuild where
  candidates := candidates
  view :=
    { status := .ok ∅, manual := .ok [], readFile := fun _ => none, pathExists := fun _ => true,
      isDirectory := fun _ => true, isExecutableFile := fun _ => true, listDir := fun _ => [],
      readable := fun _ => true, shimWritten := fun _ => true, shimRemoved := fun _ => true,
      leads := fun _ => none }
  stamp := ⟨0, str "1970-01-01 00:00:00", str "refresh", by decide +kernel, by decide +kernel⟩
  indexWritten := true

theorem working_succeeds (candidates : List CommandCandidate) :
    Succeeds (working candidates).view := ⟨fun _ => rfl, fun _ => rfl, fun _ => rfl⟩

/-- Two packages with a command of one name. -/
def twoVims : List CommandCandidate :=
  [⟨str "vim-gtk", str "vim", str "/data/apm/vim-gtk/bin/vim", false⟩,
    ⟨str "vim", str "vim", str "/data/apm/vim/bin/vim", false⟩]

/-- Both get a shim. -/
theorem rebuild_iff_twoVims :
    Managed (rebuild lsSystem {} (working twoVims)).bin (str "vim") ∧
      Managed (rebuild lsSystem {} (working twoVims)).bin (str "vim-gtk-vim") := by
  have likely : ∀ candidate ∈ twoVims, isLikelyCommandName candidate.commandName := by
    decide +kernel
  have names : assigned (decideShims lsSystem twoVims) = [str "vim", str "vim-gtk-vim"] := by
    decide +kernel
  have all := (rebuild_iff lsSystem (working twoVims) likely (working_succeeds _) {}).2
  have prunes : Prunes ((working twoVims).viewOf {}) ∅
      (assigned (decideShims lsSystem twoVims)) := by
    rw [names]
    constructor
    · decide +kernel
    · decide +kernel
    · rintro name ⟨file, found, -⟩
      cases found
  have exact := all.mpr prunes
  exact ⟨(exact _).mpr (names ▸ by decide +kernel), (exact _).mpr (names ▸ by decide +kernel)⟩

/-- The second shim of `z` goes through the file of a shim that is there. -/
def temporaryName : List CommandCandidate :=
  [⟨str "a", str "z", str "/data/apm/a/bin/z", false⟩,
    ⟨str "q", str "z", str "/data/apm/q/bin/z", false⟩,
    ⟨str "p", str "q-z.tmp", str "/data/apm/p/bin/q-z.tmp", false⟩]

/-- A hidden command with a quote in its name. -/
def hiddenQuote : List CommandCandidate :=
  [⟨str "p", str ".a\"b", str "/data/apm/p/bin/.a\"b", true⟩]

/-- **A shim that is lost, and one that stays.** The shim `q-z.tmp` is moved over `q-z`; a hidden
shim is not in sight, and listed with an escape. -/
theorem rebuild_differs :
    (str "q-z.tmp" ∈ assigned (decideShims lsSystem temporaryName) ∧
      ¬ Managed (rebuild lsSystem {} (working temporaryName)).bin (str "q-z.tmp")) ∧
    (Managed (rebuild lsSystem (rebuild lsSystem {} (working hiddenQuote)) (working [])).bin
        (str ".a\"b") ∧
      assigned (decideShims lsSystem []) = []) := by
  refine ⟨⟨?_, ?_⟩, ?_, ?_⟩ <;> decide +kernel

/-! ### Runs -/

/-- Nothing about the candidate is escaped in an index. -/
structure CommandCandidate.Unescaped (candidate : CommandCandidate) : Prop where
  package : Plain candidate.packageName
  command : Plain candidate.commandName
  binary : Plain candidate.binaryPath

section Runs

variable {sys : System}

theorem Plain.append {a b : ByteString} (ha : Plain a) (hb : Plain b) : Plain (a ++ b) :=
  fun c mem => (List.mem_append.mp mem).elim (ha c) (hb c)

theorem plain_namespaced {provider : CommandCandidate} (h : provider.Unescaped) :
    Plain (makeNamespacedCommand provider.packageName provider.commandName) := by
  unfold makeNamespacedCommand
  split
  · exact List.forall_mem_nil _
  · exact (h.package.append (by decide)).append h.command

/-- A warning is written as it is, and not the key of the names. -/
theorem plain_warning {provider : CommandCandidate} (h : provider.Unescaped)
    {warning : ByteString} (mem : warning ∈ warningsAbout provider) :
    Plain warning ∧ warning ≠ str "shim" := by
  have quoted : ∀ text before after : ByteString, Plain text → Plain before → Plain after →
      before.head?.any (· != chr 's') →
      Plain (before ++ text ++ after) ∧ before ++ text ++ after ≠ str "shim" := by
    intro text before after plain plainBefore plainAfter other
    refine ⟨(plainBefore.append plain).append plainAfter, ?_⟩
    intro same
    cases before with
    | nil => simp at other
    | cons c before =>
      have first : c = chr 's' := (List.cons.inj same).1
      simp [first] at other
  have pair : Plain (provider.packageName ++ str "/" ++ provider.commandName) :=
    (h.package.append (by decide)).append h.command
  have names := plain_namespaced h
  simp only [warningsAbout, List.mem_cons, List.not_mem_nil, or_false] at mem
  rcases mem with rfl | rfl | rfl | rfl | rfl | rfl
  · exact ⟨List.forall_mem_nil _, by decide⟩
  · exact quoted _ _ _ h.command (by decide) (by decide) (by decide)
  · have text := quoted _ (str "Unable to generate valid namespaced shim for '") (str "'") pair
      (by decide) (by decide) (by decide)
    simpa only [List.append_assoc] using text
  · exact quoted _ _ _ names (by decide) (by decide) (by decide)
  · exact quoted _ _ _ names (by decide) (by decide) (by decide)
  · exact quoted _ _ _ h.command (by decide) (by decide) (by decide)

theorem listable_decideShims {candidates : List CommandCandidate} (likely : Likely candidates)
    (unescaped : ∀ candidate ∈ candidates, candidate.Unescaped) :
    ∀ decision ∈ decideShims sys candidates, Listable decision := by
  have noSlash : ∀ name : ByteString, isLikelyCommandName name → chr '/' ∉ name := by
    intro name likely slash
    simp [isLikelyCommandName, slash] at likely
  intro decision mem
  obtain ⟨provider, known, decided⟩ := mem_decideShims mem
  have plain := unescaped provider known
  have warning := plain_warning plain decided.warning
  constructor
  · exact decided.package ▸ plain.package
  · exact decided.command ▸ plain.command
  · obtain ⟨-, none⟩ | ⟨-, own | ⟨-, both⟩⟩ := decided.name
    · exact none ▸ List.forall_mem_nil _
    · exact own ▸ plain.command
    · exact both ▸ plain_namespaced plain
  · exact decided.binary ▸ plain.binary
  · exact warning.1
  · exact warning.2
  · exact decided.command ▸ noSlash _ (likely provider known)
  · obtain ⟨-, none⟩ | ⟨-, own | ⟨visible, -⟩⟩ := decided.name
    · exact none ▸ List.not_mem_nil
    · exact own ▸ noSlash _ (likely provider known)
    · exact noSlash _ visible

/-- The names that are listed in what is left. -/
def Left.listed (left : Left) : List ByteString :=
  match left.index with
  | none => []
  | some content => shimNames content.length content

theorem listed_viewOf (event : Rebuild) (left : Left) :
    listed (event.viewOf left) = left.listed := by
  have read : (event.viewOf left).readFile getCommandIndexFile = left.index := by
    simp [Rebuild.viewOf]
  cases index : left.index with
  | none => simp [listed, loadShimsFromManifest, Left.listed, read, index]
  | some content => simp [listed, loadShimsFromManifest, Left.listed, read, index]

/-- Every managed shim can be told, and what is listed is in the command directory. -/
structure Left.Known (left : Left) : Prop where
  plain : ∀ old ∈ left.listed, chr '/' ∉ old
  known : ∀ name, Managed left.bin name →
    hidden name = false ∧ isLikelyCommandName name ∨ name ∈ left.listed

/-- A rebuild that works, for commands with plain names. No shim is the temporary file of a later
one. -/
structure Rebuild.Plain (sys : System) (event : Rebuild) : Prop where
  likely : Likely event.candidates
  unescaped : ∀ candidate ∈ event.candidates, candidate.Unescaped
  succeeds : Succeeds event.view
  indexWritten : event.indexWritten
  temporaries : (assigned (decideShims sys event.candidates)).Pairwise
    fun shim later => shim ≠ later ++ str ".tmp"

theorem binFile_plain {view : View} {name : ByteString} (plain : chr '/' ∉ name) :
    binFile view name = some name := if_neg plain

/-- **One rebuild of a run.** -/
theorem rebuild_exact {left : Left} (known : left.Known) {event : Rebuild}
    (plain : event.Plain sys) (name : ByteString) :
    Managed (rebuild sys left event).bin name ↔
      name ∈ assigned (decideShims sys event.candidates) := by
  refine (rebuild_iff sys event plain.likely plain.succeeds left).2.mpr ?_ name
  constructor
  · exact plain.temporaries
  · intro old mem gone shim new stands
    rw [listed_viewOf] at mem
    rw [binFile_plain (known.plain old mem), Option.some_inj] at stands
    exact gone (stands ▸ new)
  · intro name managed gone
    obtain inSight | mem := known.known name managed
    · exact .inl inSight
    · refine .inr (.inl ⟨name, ?_, gone, binFile_plain (known.plain name mem)⟩)
      rw [listed_viewOf]
      exact mem

theorem Left.Known.rebuild {left : Left} (known : left.Known) {event : Rebuild}
    (plain : event.Plain sys) : (rebuild sys left event).Known := by
  have same : (decideShims sys event.candidates).map (recorded event.view) =
      decideShims sys event.candidates := by
    rw [List.map_congr_left (g := id) fun decision _ => by simp [recorded,
      plain.succeeds.shimWritten], List.map_id]
  have index : (Shims.rebuild sys left event).index =
      some (commandIndexText event.stamp (decideShims sys event.candidates)) := by
    rw [Shims.rebuild, if_pos plain.indexWritten, same]
  have listable : ∀ decision ∈ decideShims sys event.candidates, Listable decision :=
    listable_decideShims plain.likely plain.unescaped
  obtain ⟨names, noSlash⟩ := shimNames_commandIndexText event.stamp listable
  have listed : (Shims.rebuild sys left event).listed =
      shimNames (commandIndexText event.stamp (decideShims sys event.candidates)).length
        (commandIndexText event.stamp (decideShims sys event.candidates)) := by
    rw [Left.listed, index]
  constructor
  · rw [listed]
    exact noSlash
  · intro name managed
    right
    rw [listed]
    have new := (rebuild_exact known plain name).mp managed
    obtain ⟨decision, here, rfl⟩ := List.mem_map.mp new
    obtain ⟨mem, active⟩ := List.mem_filter.mp here
    have likely := likely_shimName plain.likely mem (of_decide_eq_true active)
    exact names decision mem fun none => by simp [none, isLikelyCommandName] at likely

/-- **A run of rebuilds** leaves just the shims that are decided on, each time. -/
theorem rebuilds_exact {left : Left} (known : left.Known) {events : List Rebuild}
    (plain : EachStep (rebuild sys) (fun _ event => event.Plain sys) left events) :
    EachStep (rebuild sys) (fun left event => ∀ name,
      Managed (rebuild sys left event).bin name ↔
        name ∈ assigned (decideShims sys event.candidates)) left events :=
  plain.of_inv (fun _ _ known plain => known.rebuild plain)
    (fun _ _ known plain => rebuild_exact known plain) known

/-- An empty command directory without an index. -/
theorem known_empty : Left.Known {} := ⟨nofun, fun _ ⟨_, found, _⟩ => nomatch found⟩

end Runs

end Apm.Shims
