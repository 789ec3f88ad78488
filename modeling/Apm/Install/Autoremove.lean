import Apm.Install.Remove
import Apm.Lib.Peel

/-!
What `autoremove` leaves.

## Main results

* `autoremove_survivors`: `autoremove` ends, and when it succeeds it has removed automatic
  packages only; what is left is what removing automatic packages that nothing needs ends
  in, in whatever order, and without cyclic dependencies it is what the manual packages
  need.
-/

namespace Apm.Install

open Apm.Repo Apm.Fs Apm.Config Apm.Lib Apm.Lib.Effect Apm.Status

variable (dev : Device)

/-! ### The packages of a map -/

/-- The names that are recorded. -/
def recorded (db : InstalledDb) : Set ByteString := {name | name ∈ db}

/-- One installed package depends on another one of its flavour. -/
def NeedsIn (db : InstalledDb) (name dep : ByteString) : Prop :=
  ∃ pkg depPkg, db.lookup name = some pkg ∧ db.lookup dep = some depPkg ∧
    pkg.termuxPackage = depPkg.termuxPackage ∧ dep ∈ pkg.depends

/-- The package is recorded as automatic. -/
def AutoIn (db : InstalledDb) (name : ByteString) : Prop :=
  ∃ pkg, db.lookup name = some pkg ∧ pkg.autoInstalled = true

theorem recorded_iff {db : InstalledDb} {name : ByteString} :
    name ∈ recorded db ↔ ∃ pkg, db.lookup name = some pkg := by
  rw [recorded, Set.mem_ofPred_eq, ← AList.lookup_isSome, Option.isSome_iff_exists]

theorem recorded_finite (db : InstalledDb) : (recorded db).Finite :=
  db.keys.finite_toSet

/-- **A candidate is a loose package** of the map. -/
theorem mem_autoremoveCandidates {db : InstalledDb} {name : ByteString} :
    name ∈ autoremoveCandidates db ↔ Peel.Loose (NeedsIn db) (AutoIn db) (recorded db) name := by
  constructor
  · intro candidate
    obtain ⟨⟨name, pkg⟩, kept, rfl⟩ := List.mem_map.mp candidate
    obtain ⟨entry, decides⟩ := List.mem_filter.mp kept
    rw [Bool.and_eq_true_iff, Bool.not_eq_true'] at decides
    have found := AList.mem_lookup_iff.mpr entry
    refine ⟨recorded_iff.mpr ⟨pkg, found⟩, ⟨pkg, found, decides.1⟩, ?_⟩
    rintro b - other ⟨bPkg, pkg', bFound, found', flavour, lists⟩
    have same : pkg' = pkg := Option.some.inj (found'.symm.trans found)
    subst same
    have needed : requiredByInstalled db name pkg' = true := by
      apply List.any_eq_true.mpr
      refine ⟨⟨b, bPkg⟩, AList.mem_lookup_iff.mp bFound, ?_⟩
      simpa [flavour, lists] using other
    rw [decides.2] at needed
    cases needed
  · intro loose
    obtain ⟨pkg, found, auto⟩ := loose.drops
    refine List.mem_map.mpr ⟨⟨name, pkg⟩, List.mem_filter.mpr
      ⟨AList.mem_lookup_iff.mp found, ?_⟩, rfl⟩
    rw [Bool.and_eq_true_iff, Bool.not_eq_true']
    refine ⟨auto, ?_⟩
    rw [requiredByInstalled, List.any_eq_false]
    rintro ⟨b, bPkg⟩ entry needs
    have bFound := AList.mem_lookup_iff.mpr entry
    simp only [Bool.and_eq_true, bne_iff_ne, ne_eq, beq_iff_eq, List.contains_eq_mem,
      decide_eq_true_eq] at needs
    exact loose.free b (recorded_iff.mpr ⟨bPkg, bFound⟩) needs.1.1
      ⟨bPkg, pkg, bFound, found, needs.1.2, needs.2⟩

theorem autoremoveCandidates_nodup (db : InstalledDb) : (autoremoveCandidates db).Nodup :=
  List.Nodup.sublist (List.filter_sublist.map _) db.nodupKeys

/-! ### Maps with fewer entries -/

/-- What the smaller map records, the larger one records alike. -/
def Shrinks (db left : InstalledDb) : Prop :=
  ∀ name pkg, left.lookup name = some pkg → db.lookup name = some pkg

section Shrinks

variable {db mid left : InstalledDb} {S T : Set ByteString}

theorem Shrinks.trans (h : Shrinks db mid) (h' : Shrinks mid left) : Shrinks db left :=
  fun name pkg found => h name pkg (h' name pkg found)

theorem Shrinks.recorded (h : Shrinks db left) : recorded left ⊆ recorded db := by
  intro name mem
  obtain ⟨pkg, found⟩ := recorded_iff.mp mem
  exact recorded_iff.mpr ⟨pkg, h name pkg found⟩

theorem Shrinks.lookup (h : Shrinks db left) {name : ByteString}
    (mem : name ∈ Install.recorded left) :
    db.lookup name = left.lookup name := by
  obtain ⟨pkg, found⟩ := recorded_iff.mp mem
  rw [found, h name pkg found]

theorem Shrinks.autoIn_iff (h : Shrinks db left) {name : ByteString}
    (mem : name ∈ Install.recorded left) :
    AutoIn left name ↔ AutoIn db name := by
  rw [AutoIn, AutoIn, h.lookup mem]

theorem Shrinks.needsIn_iff (h : Shrinks db left) {name dep : ByteString}
    (mem : name ∈ Install.recorded left) (mem' : dep ∈ Install.recorded left) :
    NeedsIn left name dep ↔ NeedsIn db name dep := by
  rw [NeedsIn, NeedsIn, h.lookup mem, h.lookup mem']

/-- Among the packages of the smaller map, the same ones are loose. -/
theorem Shrinks.loose_iff (h : Shrinks db left) (sub : S ⊆ Install.recorded left)
    {name : ByteString} :
    Peel.Loose (NeedsIn left) (AutoIn left) S name ↔
      Peel.Loose (NeedsIn db) (AutoIn db) S name := by
  constructor
  · intro loose
    have mem := sub loose.mem
    exact ⟨loose.mem, (h.autoIn_iff mem).mp loose.drops, fun b hb other needs =>
      loose.free b hb other ((h.needsIn_iff (sub hb) mem).mpr needs)⟩
  · intro loose
    have mem := sub loose.mem
    exact ⟨loose.mem, (h.autoIn_iff mem).mpr loose.drops, fun b hb other needs =>
      loose.free b hb other ((h.needsIn_iff (sub hb) mem).mp needs)⟩

theorem Shrinks.peelsTo (h : Shrinks db left) (sub : S ⊆ Install.recorded left)
    (peels : Peel.PeelsTo (NeedsIn left) (AutoIn left) S T) :
    Peel.PeelsTo (NeedsIn db) (AutoIn db) S T := by
  obtain ⟨steps, firm⟩ := peels
  constructor
  · clear firm
    induction steps with
    | refl => exact .refl
    | tail before step ih =>
      obtain ⟨name, loose, rfl⟩ := step
      have sub := (Peel.peeled_subset before).trans sub
      exact ih.tail ⟨name, (h.loose_iff sub).mp loose, rfl⟩
  · intro name loose
    exact firm name ((h.loose_iff ((Peel.peeled_subset steps).trans sub)).mpr loose)

end Shrinks

/-! ### One removal -/

/-- A removal that succeeds leaves no entry of the name, and says whether there was one. -/
theorem removePackage_gone (name : ByteString) (opts : RemoveOptions) (w : InstallWorld) :
    wp (removePackage dev name opts)
      (fun r w' => w'.own.Faithful → name ∉ recorded (parseStatus w'.own.status) ∧
        (name ∈ recorded (parseStatus w.own.status) → r.removedPackages = [name]))
      (fun _ _ => True) w := by
  refine wp_ite.mpr ⟨fun _ => trivial, fun _ => ?_⟩
  split
  · trivial
  refine wp_bind.mpr (wp_mono (loadStatus_spec dev w) (fun r w₁ h => ?_) fun _ _ h => h.elim)
  obtain ⟨own, loaded⟩ := h
  rw [← own] at loaded ⊢
  cases r with
  | error _ => trivial
  | ok db =>
    have loaded := loaded db rfl
    dsimp only
    split
    · rename_i absent
      intro _
      have gone : name ∉ recorded (parseStatus w₁.own.status) := by
        intro mem
        obtain ⟨pkg, found⟩ := recorded_iff.mp mem
        rw [loaded.lookup, absent] at found
        cases found
      exact ⟨gone, fun mem => absurd mem gone⟩
    refine wp_ite.mpr ⟨fun _ => trivial, fun _ => wp_bind.mpr ?_⟩
    refine wp_mono (writeStatus_spec dev _ w₁) (fun r w₂ written => ?_) fun _ _ h => h.elim
    cases r with
    | some _ => trivial
    | none =>
      refine wp_bind.mpr (wp_mono ((removePackagePayload_keeps dev).wp w₂)
        (fun r w₃ kept => ?_) fun _ _ _ => trivial)
      cases r with
      | none =>
        intro faithful
        have kept : w₃.own = w₁.own.written (db.erase name) w₂.own.status := by
          rw [kept]
          exact written
        have reads : TextOf w₃.own.status (db.erase name) := by
          apply faithful (db.erase name, w₃.own.status)
          rw [kept]
          exact List.mem_append_right _ (List.mem_singleton_self _)
        refine ⟨fun mem => ?_, fun _ => rfl⟩
        obtain ⟨pkg, found⟩ := recorded_iff.mp mem
        rw [reads.lookup, AList.lookup_erase] at found
        cases found
      | some _ =>
        exact wp_bind.mpr (wp_of_forall (fun r _ => by cases r <;> trivial) fun _ _ => trivial)

/-! ### One round -/

/-- The state between two removals of a round: the candidates done so far are gone. -/
structure Round (db : InstalledDb) (removed done : List ByteString) (w : InstallWorld)
    (x : List ByteString × Bool) : Prop where
  lookup : ∀ name, (parseStatus w.own.status).lookup name =
    if name ∈ done then none else db.lookup name
  removed : ∀ name, name ∈ x.1 ↔ name ∈ removed ∨ name ∈ done
  any : x.2 = true ↔ done ≠ []

/-- The names that a removal adds. -/
theorem mem_foldl_added {names removed : List ByteString} {name : ByteString} :
    name ∈ names.foldl (fun removed n => if removed.contains n then removed else removed ++ [n])
      removed ↔ name ∈ removed ∨ name ∈ names := by
  induction names generalizing removed with
  | nil => simp
  | cons n names ih =>
    rw [List.foldl_cons, ih]
    by_cases there : n ∈ removed
    · rw [if_pos (by simpa using there), List.mem_cons]
      constructor
      · tauto
      · rintro (mem | rfl | mem)
        · exact .inl mem
        · exact .inl there
        · exact .inr mem
    · rw [if_neg (by simpa using there), List.mem_append, List.mem_singleton, List.mem_cons,
        or_assoc]

theorem removeCandidate_spec (opts : RemoveOptions) (name : ByteString)
    (x : List ByteString × Bool) (w : InstallWorld) :
    wp (removeCandidate dev opts name x)
      (fun x' w' => w.own.writes <+: w'.own.writes ∧ (w'.own.Faithful →
        ∀ db removed done, Round db removed done w x → name ∈ recorded db → name ∉ done →
          Round db removed (done ++ [name]) w' x'))
      (fun _ w' => w.own.writes <+: w'.own.writes) w := by
  have erases := removePackage_spec dev name opts w
  refine wp_bind.mpr (wp_attempt.mpr (wp_mono (wp_and erases (removePackage_gone dev name opts w))
    ?_ fun _ _ h => h.1.grows))
  rintro r w' ⟨erased, gone⟩
  refine ⟨erased.grows, fun faithful db removed done round mem fresh => ?_⟩
  obtain ⟨absent, named⟩ := gone faithful
  have there : name ∈ recorded (parseStatus w.own.status) := by
    rw [recorded_iff, round.lookup, if_neg fresh]
    exact recorded_iff.mp mem
  have named := named there
  constructor
  · intro other
    by_cases same : other = name
    · subst same
      rw [if_pos (by simp)]
      cases found : (parseStatus w'.own.status).lookup other with
      | none => rfl
      | some pkg => exact absurd (recorded_iff.mpr ⟨pkg, found⟩) absent
    · rw [erased.others faithful other same, round.lookup]
      simp [same]
  · intro other
    rw [mem_foldl_added, round.removed, named, List.mem_append, or_assoc]
  · simp [named]

/-- **One round** removes the candidates. -/
theorem removeCandidates_spec (opts : RemoveOptions) {db : InstalledDb}
    (removed : List ByteString) {w : InstallWorld} (loaded : TextOf w.own.status db) :
    wp (forEach (removeCandidate dev opts) (autoremoveCandidates db) (removed, false))
      (fun x w' => w.own.writes <+: w'.own.writes ∧ (w'.own.Faithful →
        Round db removed (autoremoveCandidates db) w' x))
      (fun _ w' => w.own.writes <+: w'.own.writes) w := by
  refine wp_forEach_done (fun done x w' => w.own.writes <+: w'.own.writes ∧ (w'.own.Faithful →
    Round db removed done w' x)) ?_ ?_
  · rintro done name rest split x s ⟨grows, round⟩
    refine wp_mono (removeCandidate_spec dev opts name x s) ?_ fun _ _ more => grows.trans more
    rintro x' s' ⟨more, next⟩
    refine ⟨grows.trans more, fun faithful => ?_⟩
    have candidate : name ∈ autoremoveCandidates db := by
      rw [split]
      simp
    have fresh : name ∉ done := by
      have nodup := autoremoveCandidates_nodup db
      rw [split] at nodup
      exact fun mem => (List.nodup_append.mp nodup).2.2 name mem name (by simp) rfl
    exact next faithful db removed done (round (faithful.of_prefix more))
      (mem_autoremoveCandidates.mp candidate).mem fresh
  · refine ⟨List.prefix_refl _, fun _ => ⟨?_, ?_, ?_⟩⟩
    · simpa using loaded.lookup
    · simp
    · simp

/-! ### All rounds -/

/-- What rounds until nothing is loose leave of a map, and what they report. -/
structure Cleared (db left : InstalledDb) (before removed : List ByteString) : Prop where
  shrinks : Shrinks db left
  peels : Peel.PeelsTo (NeedsIn db) (AutoIn db) (recorded db) (recorded left)
  reported : ∀ name, name ∈ removed ↔ name ∈ before ∨ name ∈ recorded db ∧ name ∉ recorded left

theorem cleared_of_none {db : InstalledDb} (removed : List ByteString)
    (none : autoremoveCandidates db = []) : Cleared db db removed removed := by
  refine ⟨fun _ _ found => found, ⟨.refl, fun name loose => ?_⟩, fun name => ?_⟩
  · have := mem_autoremoveCandidates.mpr loose
    rw [none] at this
    cases this
  · simp

/-- Only what the maps give for the names counts. -/
theorem Cleared.congr {db db' left left' : InstalledDb} {before removed : List ByteString}
    (h : Cleared db left before removed) (same : ∀ name, db.lookup name = db'.lookup name)
    (same' : ∀ name, left.lookup name = left'.lookup name) : Cleared db' left' before removed := by
  have names : recorded db = recorded db' := by
    ext name
    rw [recorded_iff, recorded_iff, same]
  have names' : recorded left = recorded left' := by
    ext name
    rw [recorded_iff, recorded_iff, same']
  have needs : NeedsIn db = NeedsIn db' := by
    funext name dep
    rw [NeedsIn, NeedsIn, same, same]
  have auto : AutoIn db = AutoIn db' := by
    funext name
    rw [AutoIn, AutoIn, same]
  obtain ⟨shrinks, peels, reported⟩ := h
  rw [needs, auto, names, names'] at peels
  rw [names, names'] at reported
  refine ⟨fun name pkg found => ?_, peels, reported⟩
  rw [← same]
  exact shrinks name pkg ((same' name).trans found)

section Round

variable {db left : InstalledDb} {before : List ByteString} {x : List ByteString × Bool}
  {w : InstallWorld}

theorem Round.shrinks (h : Round db before (autoremoveCandidates db) w x) :
    Shrinks db (parseStatus w.own.status) := by
  intro name pkg found
  rw [h.lookup] at found
  split at found
  · cases found
  · exact found

theorem Round.recorded (h : Round db before (autoremoveCandidates db) w x) :
    Install.recorded (parseStatus w.own.status) =
      Install.recorded db \ {name | name ∈ autoremoveCandidates db} := by
  ext name
  rw [recorded_iff, h.lookup, Set.mem_sdiff, recorded_iff, Set.mem_ofPred_eq]
  by_cases candidate : name ∈ autoremoveCandidates db
  · simp [candidate]
  · simp [candidate]

/-- A round and what the later rounds do. -/
theorem Round.cleared {removed : List ByteString}
    (h : Round db before (autoremoveCandidates db) w x)
    (later : Cleared (parseStatus w.own.status) left x.1 removed) :
    Cleared db left before removed := by
  have loose : ∀ name ∈ autoremoveCandidates db,
      Peel.Loose (NeedsIn db) (AutoIn db) (Install.recorded db) name :=
    fun name => mem_autoremoveCandidates.mp
  have round := Peel.peels_list (autoremoveCandidates_nodup db) loose
  rw [← h.recorded] at round
  obtain ⟨rest, firm⟩ := h.shrinks.peelsTo subset_rfl later.peels
  refine ⟨h.shrinks.trans later.shrinks, ⟨round.trans rest, firm⟩, fun name => ?_⟩
  have sub : Install.recorded left ⊆ Install.recorded (parseStatus w.own.status) :=
    later.shrinks.recorded
  rw [later.reported, h.removed, h.recorded]
  rw [h.recorded] at sub
  constructor
  · rintro ((mem | candidate) | ⟨there, gone⟩)
    · exact .inl mem
    · exact .inr ⟨(loose name candidate).mem, fun stays => (sub stays).2 candidate⟩
    · exact .inr ⟨there.1, gone⟩
  · rintro (mem | ⟨there, gone⟩)
    · exact .inl (.inl mem)
    · by_cases candidate : name ∈ autoremoveCandidates db
      · exact .inl (.inr candidate)
      · exact .inr ⟨⟨there, candidate⟩, gone⟩

end Round

/-- **The loop ends** and clears the map, with more turns than packages. -/
theorem autoremoveLoop_spec (opts : RemoveOptions) (fuel : Nat) (before : List ByteString)
    (names : Finset ByteString) (w : InstallWorld)
    (all : ∀ name ∈ recorded (parseStatus w.own.status), name ∈ names)
    (enough : names.card < fuel) :
    wp (autoremoveLoop dev opts fuel before)
      (fun r w' => w.own.writes <+: w'.own.writes ∧ (w'.own.Faithful → ∃ removed,
        r = some removed ∧
          Cleared (parseStatus w.own.status) (parseStatus w'.own.status) before removed))
      (fun _ w' => w.own.writes <+: w'.own.writes) w := by
  induction fuel generalizing before names w with
  | zero => exact absurd enough (Nat.not_lt_zero _)
  | succ fuel ih =>
    refine wp_bind.mpr (wp_mono (loadStatus_spec dev w) (fun r w₁ h => ?_) fun _ _ h => h.elim)
    obtain ⟨own, loaded⟩ := h
    rw [← own] at loaded all ⊢
    cases r with
    | error _ => exact List.prefix_refl _
    | ok db =>
      have loaded := loaded db rfl
      have same : ∀ name, db.lookup name = (parseStatus w₁.own.status).lookup name :=
        fun name => (loaded.lookup name).symm
      refine wp_ite.mpr ⟨fun none => ?_, fun some => wp_bind.mpr ?_⟩
      · refine ⟨List.prefix_refl _, fun _ => ⟨before, rfl, ?_⟩⟩
        exact (cleared_of_none before (List.isEmpty_iff.mp none)).congr same same
      · refine wp_mono (removeCandidates_spec dev opts before loaded) ?_ fun _ _ more => more
        rintro x w₂ ⟨grows, round⟩
        refine wp_ite.mpr ⟨fun any => ?_, fun stuck => ⟨grows, fun faithful => ?_⟩⟩
        · by_cases faithful : w₂.own.Faithful
          · have round := round faithful
            have fewer : (names \ (autoremoveCandidates db).toFinset).card < fuel := by
              obtain ⟨name, candidate⟩ := List.exists_mem_of_ne_nil _ (round.any.mp any)
              have inside : (autoremoveCandidates db).toFinset ⊆ names := by
                intro name candidate
                apply all
                rw [recorded_iff, ← same]
                have loose := mem_autoremoveCandidates.mp (List.mem_toFinset.mp candidate)
                exact recorded_iff.mp loose.mem
              have smaller : (names \ (autoremoveCandidates db).toFinset).card < names.card :=
                Finset.card_lt_card
                  (Finset.sdiff_ssubset inside ⟨name, List.mem_toFinset.mpr candidate⟩)
              exact Nat.lt_of_lt_of_le smaller (Nat.le_of_lt_succ enough)
            refine wp_mono (ih x.1 _ w₂ (fun name mem => ?_) fewer) ?_ fun _ _ more =>
              grows.trans more
            · rw [round.recorded] at mem
              refine Finset.mem_sdiff.mpr ⟨all name ?_, by simpa using mem.2⟩
              rw [recorded_iff, ← same]
              exact recorded_iff.mp mem.1
            · rintro r w₃ ⟨more, cleared⟩
              refine ⟨grows.trans more, fun faithful => ?_⟩
              obtain ⟨removed, found, later⟩ := cleared faithful
              exact ⟨removed, found, (round.cleared later).congr same fun _ => rfl⟩
          · -- A text that does not give back its map is written for good.
            refine wp_mono (autoremoveLoop_manual dev [] opts fuel x.1 w₂) (fun r w₃ kept => ?_)
              fun _ _ kept => grows.trans kept.grows
            exact ⟨grows.trans kept.grows,
              fun later => absurd (later.of_prefix kept.grows) faithful⟩
        · have all := (round faithful).any.not.mp stuck
          exact absurd (List.isEmpty_iff.mpr (not_not.mp all)) some

/-- What a successful `autoremove` leaves of a map, and what it reports. -/
structure Autoremoved (db left : InstalledDb) (removed : List ByteString) : Prop where
  records : ∀ name ∈ recorded left, left.lookup name = db.lookup name
  reported : ∀ name, name ∈ removed ↔ name ∈ recorded db ∧ name ∉ recorded left
  auto : ∀ name ∈ removed, AutoIn db name
  /-- Removing loose packages ends in what is left, in any order. -/
  unique : ∀ S, Peel.PeelsTo (NeedsIn db) (AutoIn db) (recorded db) S ↔ S = recorded left
  needed : Peel.Acyclic (NeedsIn db) (recorded db) →
    recorded left = Peel.Anchored (NeedsIn db) (AutoIn db) (recorded db)

theorem Cleared.autoremoved {db left : InstalledDb} {removed : List ByteString}
    (h : Cleared db left [] removed) : Autoremoved db left removed := by
  have reported : ∀ name, name ∈ removed ↔ name ∈ recorded db ∧ name ∉ recorded left := by
    intro name
    rw [h.reported]
    simp
  constructor
  · exact fun name mem => (h.shrinks.lookup mem).symm
  · exact reported
  · intro name mem
    obtain ⟨there, gone⟩ := (reported name).mp mem
    exact Peel.drops_of_peeled h.peels.1 there gone
  · intro S
    constructor
    · exact fun peels => Peel.peeled_unique peels h.peels
    · rintro rfl
      exact h.peels
  · exact fun acyclic => Peel.peeled_eq_anchored (recorded_finite db) acyclic h.peels

/-- **Autoremove.** With a status file that gives back every map written to it,
`autoremove` ends, with more turns than there are packages; when it succeeds, it has removed
automatic packages only, what is left is the one set that removing automatic packages
without need ends in, and without cyclic dependencies it is what the manual packages need
in their flavour. -/
theorem autoremove_survivors (fuel : Nat) (opts : RemoveOptions) (w : InstallWorld)
    (enough : (parseStatus w.own.status).entries.length < fuel)
    (faithful : (exec (autoremove dev fuel opts) w).2.own.Faithful) :
    (exec (autoremove dev fuel opts) w).1 ≠ .ok none ∧
      ∀ r, (exec (autoremove dev fuel opts) w).1 = .ok (some r) →
        Autoremoved (parseStatus w.own.status)
          (parseStatus (exec (autoremove dev fuel opts) w).2.own.status) r.removedPackages := by
  have few : (parseStatus w.own.status).keys.toFinset.card < fuel := by
    apply Nat.lt_of_le_of_lt (List.toFinset_card_le _)
    simpa [AList.keys, List.keys] using enough
  have loop := autoremoveLoop_spec dev opts fuel [] _ w
    (fun name mem => List.mem_toFinset.mpr (AList.mem_keys.mpr mem)) few
  have whole : wp (autoremove dev fuel opts)
      (fun r w' => w'.own.Faithful → ∃ done, r = some done ∧
        Autoremoved (parseStatus w.own.status) (parseStatus w'.own.status) done.removedPackages)
      (fun _ _ => True) w := by
    refine wp_bind.mpr (wp_mono loop ?_ fun _ _ _ => trivial)
    rintro r w' ⟨-, cleared⟩
    cases r with
    | none =>
      intro faithful
      obtain ⟨removed, ended, -⟩ := cleared faithful
      cases ended
    | some removed =>
      intro faithful
      obtain ⟨removed, ended, result⟩ := cleared faithful
      cases ended
      exact ⟨_, rfl, result.autoremoved⟩
  rcases run : exec (autoremove dev fuel opts) w with ⟨r, w'⟩
  rw [run] at faithful
  cases r with
  | error e =>
    constructor
    · exact fun ended => nomatch ended
    · exact fun _ ended => nomatch ended
  | ok r =>
    obtain ⟨done, rfl, result⟩ := whole.ok run faithful
    constructor
    · exact fun ended => nomatch ended
    · rintro _ ⟨⟩
      exact result

/-- The library of an application that was removed. -/
theorem autoremove_survivors_app :
    let w := ((Session.start (fun _ => none) 0).run (plainDevice true)
      [.install appIndices (str "app") {}, .remove (str "app") {}]).world
    (exec (autoremove (plainDevice true) 2 {}) w).1 ≠ .ok none ∧
      ∀ r, (exec (autoremove (plainDevice true) 2 {}) w).1 = .ok (some r) →
        Autoremoved (parseStatus w.own.status)
          (parseStatus (exec (autoremove (plainDevice true) 2 {}) w).2.own.status)
          r.removedPackages :=
  autoremove_survivors (plainDevice true) 2 {} _ (by decide +kernel) (by decide +kernel)

end Apm.Install
