import Apm.Ams.BindBackend

/-!
What the bind-mount backend mounts.

`planTop` lists the mounts that a staged tree, a base tree and a target tree call for.

## Main results

* `mountStaged_spec`: a run that succeeds has made these mounts, in this order, and has written
  their paths; a run that fails has left the mount table as it was.
-/

namespace Apm.Ams

open Apm.Fs Apm.Lib.Effect
open Apm.Lib.FileTree (Entry Kind overlay)
open Apm.Lib.MountStack (umount umountAll umountAll_map)

/-! ### The plan -/

/-- What a mount is made of. -/
inductive Source where
  | content (content : ByteString)
  | merged (staged base : Dir)

/-- A mount, by its path below the target. -/
abbrev Planned := List ByteString × Source

/-- `needOverlayHere` at the end of the first loop. -/
def needsOverlay (base target : Dir) : Dir → Bool
  | .empty => false
  | .file name content rest =>
      (!hidden name && misfit base target name (.file content)) || needsOverlay base target rest
  | .link name leads rest =>
      (!hidden name && misfit base target name (.link leads)) || needsOverlay base target rest
  | .dir name inner rest =>
      (!hidden name && misfit base target name (.dir inner)) || needsOverlay base target rest

/-- The mounts of an entry, unless it is left out. -/
def planEntry (name : ByteString) (mounts : List Planned) : List Planned :=
  if hidden name then [] else mounts.map fun (path, source) => (name :: path, source)

def planEntries (base target : Dir) : Dir → List Planned
  | .empty => []
  | .file name content rest =>
      planEntry name [([], .content content)] ++ planEntries base target rest
  | .link _ _ rest => planEntries base target rest
  | .dir name inner rest =>
      planEntry name
        (match base.find name, target.find name with
          | some (.dir base), some (.dir target) =>
              if needsOverlay base target inner then [([], .merged inner base)]
              else planEntries base target inner
          | _, _ => []) ++ planEntries base target rest

/-- The mounts of `applyBindBackendRecursively`. -/
def planDir (base target staged : Dir) : List Planned :=
  if needsOverlay base target staged then [([], .merged staged base)]
  else planEntries base target staged

/-- The mounts for the top of the staged tree. -/
def planTop (k : Kernel) (staged base target : Dir) : Dir → List Planned
  | .empty => []
  | .file name content rest =>
      planEntry name [([], .content content)] ++ planTop k staged base target rest
  | .dir name inner rest =>
      planEntry name
        (match followed k.baseLeads base name, followed k.targetLeads target name with
          | some (.dir base), some (.dir target) => planDir base target inner
          | _, _ => []) ++ planTop k staged base target rest
  | .link name _ rest =>
      if hidden name then planTop k staged base target rest else [([], .merged staged base)]

/-- A link at the top of the staged tree makes one overlay of all. -/
def fallsBack : Dir → Bool
  | .empty => false
  | .file _ _ rest => fallsBack rest
  | .link name _ rest => !hidden name || fallsBack rest
  | .dir _ _ rest => fallsBack rest

/-- The checks that the loop over the top makes. -/
def Passes (k : Kernel) (base target : Dir) : Dir → Prop
  | .empty => True
  | .file name _ rest =>
      (hidden name = false → isRegular (followed k.baseLeads base name) = true ∧
        isRegular (followed k.targetLeads target name) = true) ∧ Passes k base target rest
  | .link name _ rest => hidden name = true → Passes k base target rest
  | .dir name _ rest =>
      (hidden name = false → isDir (followed k.baseLeads base name) = true ∧
        isDir (followed k.targetLeads target name) = true) ∧ Passes k base target rest

/-! ### Runs that mount -/

def pathOf (dir : ByteString) (path : List ByteString) : ByteString := path.foldl joinPath dir

/-- From one state to the other these mounts were made, and nothing else. -/
structure Grew (w w' : Mounts) (made : List Mount) : Prop where
  table : w'.table = made.reverse ++ w.table
  mountedNow : w'.mountedNow = w.mountedNow ++ made.map Mount.point
  stateFile : w'.stateFile = w.stateFile

theorem Grew.refl (w : Mounts) : Grew w w [] := ⟨rfl, by simp, rfl⟩

theorem Grew.trans {w w₁ w₂ : Mounts} {made made' : List Mount} (h : Grew w w₁ made)
    (h' : Grew w₁ w₂ made') : Grew w w₂ (made ++ made') where
  table := by rw [h'.table, h.table, List.reverse_append, List.append_assoc]
  mountedNow := by rw [h'.mountedNow, h.mountedNow, List.map_append, List.append_assoc]
  stateFile := h'.stateFile.trans h.stateFile

variable (k : Kernel)

/-- The mount is the planned one, with these directories above it. -/
def Makes (stagedDir baseDir targetDir : ByteString) (planned : Planned) (m : Mount) : Prop :=
  m.point = pathOf targetDir planned.1 ∧
    match planned.2 with
    | .content content => m.shows = fileView content
    | .merged staged base => ∃ n, k.overlays n
        (pathOf stagedDir planned.1 ++ str ":" ++ pathOf baseDir planned.1) staged base =
          some m.shows

/-- The program makes the planned mounts; where it fails it has made some mounts. -/
def Mounting (stagedDir baseDir targetDir : ByteString) (plan : List Planned)
    (act : Act Mounts ByteString Unit) : Prop :=
  ∀ w, wp act
    (fun _ w' => ∃ made, Grew w w' made ∧
      List.Forall₂ (Makes k stagedDir baseDir targetDir) plan made)
    (fun _ w' => ∃ made, Grew w w' made) w

section Rules

variable {k} {stagedDir baseDir targetDir name : ByteString} {plan plan' : List Planned}
  {act act' : Act Mounts ByteString Unit}

theorem answered_spec {α : Type} (question : Nat → α) (w : Mounts) :
    wp (answered question : Act Mounts ByteString α)
      (fun a w' => a = question w.asked ∧ Grew w w' []) (fun _ _ => False) w :=
  ⟨rfl, ⟨rfl, by simp, rfl⟩⟩

theorem Mounting.nothing : Mounting k stagedDir baseDir targetDir [] (pure ()) :=
  fun w => ⟨[], .refl w, .nil⟩

theorem Mounting.fail (e : ByteString) : Mounting k stagedDir baseDir targetDir plan (throw e) :=
  fun w => ⟨[], .refl w⟩

/-- A question first. -/
theorem Mounting.asking {α : Type} {question : Nat → α} {f : α → Act Mounts ByteString Unit}
    (h : ∀ n, Mounting k stagedDir baseDir targetDir plan (f (question n))) :
    Mounting k stagedDir baseDir targetDir plan (answered question >>= f) := by
  intro w
  apply wp_bind.mpr
  apply wp_mono (answered_spec question w) ?_ fun _ _ h => h.elim
  rintro a w₁ ⟨rfl, first⟩
  apply wp_mono (h w.asked w₁)
  · rintro _ w₂ ⟨made, grew, makes⟩
    exact ⟨made, first.trans grew, makes⟩
  · rintro _ w₂ ⟨made, grew⟩
    exact ⟨made, first.trans grew⟩

theorem Mounting.seq (h : Mounting k stagedDir baseDir targetDir plan act)
    (h' : Mounting k stagedDir baseDir targetDir plan' act') :
    Mounting k stagedDir baseDir targetDir (plan ++ plan') (act >>= fun _ => act') := by
  intro w
  apply wp_bind.mpr
  apply wp_mono (h w) ?_ fun _ _ h => h
  rintro _ w₁ ⟨made, grew, makes⟩
  apply wp_mono (h' w₁)
  · rintro _ w₂ ⟨made', grew', makes'⟩
    exact ⟨made ++ made', grew.trans grew', List.rel_append makes makes'⟩
  · rintro _ w₂ ⟨made', grew'⟩
    exact ⟨made ++ made', grew.trans grew'⟩

theorem Mounting.ite {c : Prop} [Decidable c]
    (h : c → Mounting k stagedDir baseDir targetDir plan act)
    (h' : ¬ c → Mounting k stagedDir baseDir targetDir plan act') :
    Mounting k stagedDir baseDir targetDir plan (if c then act else act') := by
  split
  · exact h ‹_›
  · exact h' ‹_›

theorem statStaged_mounting (path : ByteString) :
    Mounting k stagedDir baseDir targetDir [] (statStaged k path) :=
  .asking fun _ => .ite (fun _ => .nothing) fun _ => .asking fun _ => .fail _

theorem bindMountReadOnly_mounting (source content : ByteString) :
    Mounting k stagedDir baseDir targetDir [([], .content content)]
      (bindMountReadOnly k source targetDir content) := by
  apply Mounting.asking
  intro n
  apply Mounting.ite
  · intro _ w
    exact ⟨[⟨targetDir, fileView content⟩], ⟨rfl, rfl, rfl⟩, .cons ⟨rfl, rfl⟩ .nil⟩
  · intro _
    exact .asking fun _ => .fail _

theorem mountBindBackendSubdirOverlay_mounting (staged base : Dir) :
    Mounting k stagedDir baseDir targetDir [([], .merged staged base)]
      (mountBindBackendSubdirOverlay k stagedDir baseDir targetDir staged base) := by
  apply Mounting.asking
  intro n
  cases shown : k.overlays n (stagedDir ++ str ":" ++ baseDir) staged base with
  | some view =>
    intro w
    exact ⟨[⟨targetDir, view⟩], ⟨rfl, rfl, rfl⟩, .cons ⟨rfl, n, shown⟩ .nil⟩
  | none => exact .asking fun _ => .fail _

/-- The same mounts, by their paths from a directory further up. -/
theorem Mounting.below
    (h : Mounting k (joinPath stagedDir name) (joinPath baseDir name) (joinPath targetDir name)
      plan act) :
    Mounting k stagedDir baseDir targetDir (plan.map fun (path, source) => (name :: path, source))
      act := by
  intro w
  apply wp_mono (h w) ?_ fun _ _ h => h
  rintro _ w' ⟨made, grew, makes⟩
  refine ⟨made, grew, ?_⟩
  rw [List.forall₂_map_left_iff]
  exact makes.imp fun _ _ h => h

theorem mountEntry_mounting
    (h : hidden name = false → Mounting k (joinPath stagedDir name) (joinPath baseDir name)
      (joinPath targetDir name) plan act)
    (h' : Mounting k stagedDir baseDir targetDir plan' act') :
    Mounting k stagedDir baseDir targetDir (planEntry name plan ++ plan')
      (mountEntry k stagedDir name act act') := by
  unfold mountEntry planEntry
  cases hid : hidden name with
  | true => exact h'
  | false =>
    have stat : Mounting k stagedDir baseDir targetDir []
        (statStaged k (joinPath stagedDir name)) := statStaged_mounting _
    exact stat.seq ((h hid).below.seq h')

/-- The first loop finds out whether an overlay is needed. -/
theorem scanEntries_spec (base target staged : Dir) (w : Mounts) :
    wp (scanEntries k stagedDir base target staged)
      (fun b w' => b = needsOverlay base target staged ∧ Grew w w' [])
      (fun _ w' => Grew w w' []) w := by
  have turn : ∀ {name e others b w}, (∀ w, wp others (fun b' w' => b' = b ∧ Grew w w' [])
      (fun _ w' => Grew w w' []) w) → wp (scanEntry k stagedDir base target name e others)
      (fun b' w' => b' = ((!hidden name && misfit base target name e) || b) ∧ Grew w w' [])
      (fun _ w' => Grew w w' []) w := by
    intro name e others b w h
    unfold scanEntry
    cases hid : hidden name with
    | true => exact h w
    | false =>
      apply wp_bind.mpr
      have stat : wp (statStaged k (joinPath stagedDir name)) (fun _ w' => Grew w w' [])
          (fun _ w' => Grew w w' []) w := by
        unfold statStaged
        apply wp_bind.mpr
        apply wp_mono (answered_spec k.stats w) ?_ fun _ _ h => h.elim
        rintro _ w₁ ⟨-, first⟩
        refine wp_ite.mpr ⟨fun _ => first, fun _ => ?_⟩
        apply wp_bind.mpr
        apply wp_mono (answered_spec k.message w₁) ?_ fun _ _ h => h.elim
        rintro _ w₂ ⟨-, second⟩
        exact first.trans second
      apply wp_mono stat ?_ fun _ _ h => h
      rintro _ w₁ first
      cases mis : misfit base target name e with
      | true => exact ⟨rfl, first⟩
      | false =>
        apply wp_mono (h w₁)
        · rintro b' w₂ ⟨same, second⟩
          exact ⟨same, first.trans second⟩
        · rintro _ w₂ second
          exact first.trans second
  induction staged generalizing w with
  | empty => exact ⟨rfl, .refl w⟩
  | file name content rest ih | link name leads rest ih => exact turn ih
  | dir name inner rest _ ih => exact turn ih

theorem Mounting.scan {base target staged : Dir}
    (overlaid : needsOverlay base target staged = true →
      Mounting k stagedDir baseDir targetDir plan act)
    (single : needsOverlay base target staged = false →
      Mounting k stagedDir baseDir targetDir plan act') :
    Mounting k stagedDir baseDir targetDir plan
      (do if ← scanEntries k stagedDir base target staged then act else act') := by
  intro w
  apply wp_bind.mpr
  apply wp_mono (scanEntries_spec base target staged w) ?_ fun _ _ h => ⟨[], h⟩
  rintro b w₁ ⟨rfl, first⟩
  have rest : Mounting k stagedDir baseDir targetDir plan
      (if needsOverlay base target staged then act else act') :=
    .ite overlaid fun h => single (Bool.eq_false_iff.mpr h)
  apply wp_mono (rest w₁)
  · rintro _ w₂ ⟨made, grew, makes⟩
    exact ⟨made, first.trans grew, makes⟩
  · rintro _ w₂ ⟨made, grew⟩
    exact ⟨made, first.trans grew⟩

theorem applyBindBackendRecursively_mounting {staged base target : Dir}
    (h : Mounting k stagedDir baseDir targetDir (planEntries base target staged)
      (bindEntries k stagedDir baseDir targetDir base target staged)) :
    Mounting k stagedDir baseDir targetDir (planDir base target staged)
      (applyBindBackendRecursively k stagedDir baseDir targetDir staged base target) := by
  unfold planDir
  apply Mounting.scan
  · intro need
    rw [if_pos need]
    exact mountBindBackendSubdirOverlay_mounting _ _
  · intro no
    rw [if_neg (Bool.eq_false_iff.mp no)]
    exact h

theorem bindEntries_mounting (base target staged : Dir) :
    Mounting k stagedDir baseDir targetDir (planEntries base target staged)
      (bindEntries k stagedDir baseDir targetDir base target staged) := by
  induction staged generalizing stagedDir baseDir targetDir base target with
  | empty => exact .nothing
  | file name content rest ih =>
    exact mountEntry_mounting (fun _ => bindMountReadOnly_mounting _ _) (ih base target)
  | link name leads rest ih =>
    have skip : planEntries base target (.link name leads rest) =
        planEntry name [] ++ planEntries base target rest := by simp [planEntries, planEntry]
    rw [skip]
    exact mountEntry_mounting (fun _ => .nothing) (ih base target)
  | dir name inner rest ihInner ih =>
    apply mountEntry_mounting ?_ (ih base target)
    intro _
    rcases base.find name with _ | _ | _ | base'
    case some.dir =>
      rcases target.find name with _ | _ | _ | target'
      case some.dir => exact applyBindBackendRecursively_mounting (ihInner base' target')
      all_goals exact .fail _
    all_goals exact .fail _

theorem bindTop_mounting (staged base target entries : Dir) :
    Mounting k stagedDir baseDir targetDir (planTop k staged base target entries)
      (bindTop k stagedDir baseDir targetDir staged base target entries) := by
  induction entries with
  | empty => exact .nothing
  | file name content rest ih =>
    apply mountEntry_mounting ?_ ih
    intro _
    split
    · exact bindMountReadOnly_mounting _ _
    · exact .fail _
  | dir name inner rest _ ih =>
    apply mountEntry_mounting ?_ ih
    intro _
    rcases followed k.baseLeads base name with _ | _ | _ | base'
    case some.dir =>
      rcases followed k.targetLeads target name with _ | _ | _ | target'
      case some.dir => exact applyBindBackendRecursively_mounting (bindEntries_mounting _ _ _)
      all_goals exact .fail _
    all_goals exact .fail _
  | link name leads rest ih =>
    unfold bindTop planTop
    split
    · exact ih
    · have stat : Mounting k stagedDir baseDir targetDir []
          (statStaged k (joinPath stagedDir name)) := statStaged_mounting _
      refine stat.seq fun w => ?_
      apply wp_bind.mpr
      apply wp_attempt.mpr
      apply wp_mono (mountBindBackendSubdirOverlay_mounting staged base w)
      · exact fun _ _ h => h
      · exact fun _ _ h => h

theorem mountEntry_passes {P Q : Prop} (h : ∀ w, wp act (fun _ _ => P) (fun _ _ => True) w)
    (h' : ∀ w, wp act' (fun _ _ => Q) (fun _ _ => True) w) (w : Mounts) :
    wp (mountEntry k stagedDir name act act') (fun _ _ => (hidden name = false → P) ∧ Q)
      (fun _ _ => True) w := by
  unfold mountEntry
  cases hid : hidden name with
  | true => exact wp_mono (h' w) (fun _ _ h => ⟨nofun, h⟩) fun _ _ h => h
  | false =>
    apply wp_bind.mpr
    apply wp_mono (wp_exec _ w) ?_ fun _ _ _ => trivial
    intro _ w₁ _
    apply wp_bind.mpr
    apply wp_mono (h w₁) ?_ fun _ _ h => h
    intro _ w₂ first
    exact wp_mono (h' w₂) (fun _ _ second => ⟨fun _ => first, second⟩) fun _ _ h => h

/-- A run over the top that succeeds has passed the checks. -/
theorem bindTop_passes (staged base target entries : Dir) (w : Mounts) :
    wp (bindTop k stagedDir baseDir targetDir staged base target entries)
      (fun _ _ => Passes k base target entries) (fun _ _ => True) w := by
  induction entries generalizing w with
  | empty => exact trivial
  | file name content rest ih =>
    refine mountEntry_passes (fun w => ?_) ih w
    rcases followed k.baseLeads base name with _ | _ | _ | _
    case some.file =>
      rcases followed k.targetLeads target name with _ | _ | _ | _
      case some.file =>
        apply wp_of_forall
        · exact fun _ _ => ⟨rfl, rfl⟩
        · exact fun _ _ => trivial
      all_goals exact trivial
    all_goals exact trivial
  | link name leads rest ih =>
    unfold bindTop
    cases hid : hidden name with
    | true => exact wp_mono (ih w) (fun _ _ h _ => h) fun _ _ h => h
    | false =>
      apply wp_of_forall
      · intro _ _ no
        rw [hid] at no
        cases no
      · exact fun _ _ => trivial
  | dir name inner rest _ ih =>
    refine mountEntry_passes (fun w => ?_) ih w
    rcases followed k.baseLeads base name with _ | _ | _ | _
    case some.dir =>
      rcases followed k.targetLeads target name with _ | _ | _ | _
      case some.dir =>
        apply wp_of_forall
        · exact fun _ _ => ⟨rfl, rfl⟩
        · exact fun _ _ => trivial
      all_goals exact trivial
    all_goals exact trivial

end Rules

/-! ### The backend -/

theorem exec_unmountAll {ε : Type} (paths : List ByteString) (w : Mounts) :
    exec (unmountAll paths : Act Mounts ε Unit) w =
      (.ok (), { w with table := umountAll Mount.point covers paths w.table }) := by
  unfold unmountAll
  induction paths generalizing w with
  | nil => rfl
  | cons path paths ih => exact ih { w with table := umount Mount.point covers path w.table }

/-- What is left of the table when the tracked mounts are taken away. -/
def released (w : Mounts) : List Mount :=
  umountAll Mount.point covers (loadBindMountState w.stateFile).reverse w.table

theorem released_of_untracked {w : Mounts} (h : loadBindMountState w.stateFile = []) :
    released w = w.table := by
  rw [released, h]
  rfl

variable {k} {target : OverlayTarget}

theorem saveBindMountState_spec (paths : List ByteString) (w : Mounts) :
    wp (saveBindMountState k target paths)
      (fun _ w' => w'.table = w.table ∧ w'.stateFile = some (bindMountLines paths))
      (fun _ w' => w'.table = w.table ∧ w'.mountedNow = w.mountedNow) w := by
  unfold saveBindMountState
  apply wp_bind.mpr
  apply wp_mono (answered_spec k.saves w) ?_ fun _ _ h => h.elim
  rintro b w₁ ⟨-, first⟩
  refine wp_ite.mpr ⟨fun _ => ⟨first.table, rfl⟩, fun _ => ⟨first.table, ?_⟩⟩
  simpa using first.mountedNow

theorem unmountTrackedBindMounts_spec (w : Mounts) :
    wp (unmountTrackedBindMounts k target)
      (fun _ w' => w'.table = released w ∧ w'.stateFile = some [])
      (fun _ w' => w'.table = released w) w := by
  unfold unmountTrackedBindMounts
  apply wp_bind.mpr
  rw [wp_update]
  apply wp_bind.mpr
  unfold wp
  rw [exec_unmountAll]
  exact wp_mono (saveBindMountState_spec [] _) (fun _ _ h => h) fun _ _ h => h.1

theorem copyLayer_table (layer : Option Tree) (staged : Tree) (w : Mounts) :
    wp (copyLayer k target layer staged) (fun _ w' => w'.table = w.table)
      (fun _ w' => w'.table = w.table) w := by
  cases layer with
  | none => rfl
  | some layer =>
    apply wp_bind.mpr
    rw [answered, wp_update]
    split
    · rfl
    · rfl

theorem stageLayers_table (layers : List (Option Tree)) (w : Mounts) :
    wp (stageLayers k target layers) (fun _ w' => w'.table = w.table)
      (fun _ w' => w'.table = w.table) w := by
  unfold stageLayers
  apply wp_bind.mpr
  rw [answered, wp_update]
  refine wp_ite.mpr ⟨fun _ => ?_, fun _ => rfl⟩
  refine wp_forEach (fun _ (w' : Mounts) => w'.table = w.table)
    (fun layer _ staged w' same => ?_) rfl
  rw [← same]
  exact copyLayer_table layer staged w'

/-- What is undone is what was mounted. -/
theorem orRollback_spec {act : Act Mounts ByteString Unit} {Q : Unit → Mounts → Prop}
    {table : List Mount} {w : Mounts}
    (h : wp act Q (fun _ w' => ∃ made : List Mount, w'.table = made.reverse ++ table ∧
      w'.mountedNow = made.map Mount.point) w) :
    wp (orRollback act) Q (fun _ w' => w'.table = table) w := by
  unfold orRollback
  apply wp_bind.mpr
  apply wp_attempt.mpr
  apply wp_mono h (fun _ _ h => h)
  rintro err w' ⟨made, grown, now⟩
  apply wp_bind.mpr
  unfold rollback
  apply wp_bind.mpr
  rw [wp_update]
  unfold wp
  rw [exec_unmountAll]
  change umountAll Mount.point covers w'.mountedNow.reverse w'.table = table
  rw [now, grown, ← List.map_reverse]
  exact umountAll_map

/-- **What the backend mounts.** -/
theorem mountStaged_spec (base live staged : Tree) (w : Mounts) :
    wp (mountStaged k target base live staged)
      (fun _ w' => ∃ made : List Mount, w'.table = made.reverse ++ w.table ∧
        w'.stateFile = some (bindMountLines (made.map Mount.point)) ∧
        Passes k base.1 live.1 staged.1 ∧
        List.Forall₂ (Makes k (stagedLayerPath target) (baseMirrorPath target) target.mountPoint)
          (planTop k staged.1 base.1 live.1 staged.1) made)
      (fun _ w' => w'.table = w.table) w := by
  unfold mountStaged
  apply wp_bind.mpr
  rw [wp_update]
  apply wp_bind.mpr
  have mounts : Mounting k (stagedLayerPath target) (baseMirrorPath target) target.mountPoint _ _ :=
    bindTop_mounting staged.1 base.1 live.1 staged.1
  have checked := wp_and (mounts { w with mountedNow := [] })
    (bindTop_passes staged.1 base.1 live.1 staged.1 { w with mountedNow := [] })
  apply wp_mono (orRollback_spec (wp_mono checked (fun _ _ h => h) ?_)) ?_ fun _ _ h => h
  · rintro _ w₁ ⟨⟨made, grew⟩, -⟩
    exact ⟨made, grew.table, grew.mountedNow⟩
  rintro _ w₁ ⟨⟨made, grew, makes⟩, passes⟩
  apply wp_bind.mpr
  rw [wp_update]
  apply orRollback_spec
  apply wp_mono (saveBindMountState_spec w₁.mountedNow w₁)
  · rintro _ w₂ ⟨table, saved⟩
    refine ⟨made, table.trans grew.table, ?_, passes, makes⟩
    rw [saved, grew.mountedNow, List.nil_append]
  · rintro _ w₂ ⟨table, now⟩
    exact ⟨made, table.trans grew.table, now.trans grew.mountedNow⟩

/-- The tree that the run stages. -/
def Staged (k : Kernel) (target : OverlayTarget) (layers : List (Option Tree)) (w : Mounts)
    (staged : Tree) : Prop :=
  ∃ w₁ w₂, exec (unmountTrackedBindMounts k target) w = (.ok (), w₁) ∧
    exec (stageLayers k target layers) w₁ = (.ok staged, w₂)

/-- A run without layers takes the tracked mounts away; any other one mounts besides what is
planned for the staged tree; and one that fails mounts nothing. -/
theorem applyBindMountBackendForTarget_spec (layers : List (Option Tree)) (base live : Tree)
    (w : Mounts) :
    wp (applyBindMountBackendForTarget k target layers base live)
      (fun _ w' => ∃ made : List Mount, w'.table = made.reverse ++ released w ∧
        w'.stateFile = some (bindMountLines (made.map Mount.point)) ∧
        (layers = [] ∧ made = [] ∨ layers ≠ [] ∧ ∃ staged, Staged k target layers w staged ∧
          Passes k base.1 live.1 staged.1 ∧ List.Forall₂
            (Makes k (stagedLayerPath target) (baseMirrorPath target) target.mountPoint)
            (planTop k staged.1 base.1 live.1 staged.1) made))
      (fun _ w' => w'.table = released w) w := by
  unfold applyBindMountBackendForTarget
  apply wp_bind.mpr
  apply wp_mono (wp_and (unmountTrackedBindMounts_spec w) (wp_exec _ w)) ?_ fun _ _ h => h.1
  rintro _ w₁ ⟨⟨first, cleared⟩, run⟩
  refine wp_ite.mpr ⟨fun none => ?_, fun some => ?_⟩
  · exact ⟨[], first, cleared, .inl ⟨by simpa using none, rfl⟩⟩
  apply wp_bind.mpr
  apply wp_mono (wp_and (stageLayers_table layers w₁) (wp_exec _ w₁)) ?_
    fun _ _ h => h.1.trans first
  rintro staged w₂ ⟨second, run'⟩
  apply wp_mono (mountStaged_spec base live staged w₂)
  · rintro _ w₃ ⟨made, table, saved, passes, makes⟩
    have isStaged : Staged k target layers w staged := ⟨w₁, w₂, run, run'⟩
    exact ⟨made, by rw [table, second, first], saved,
      .inr ⟨by simpa using some, staged, isStaged, passes, makes⟩⟩
  · rintro _ w₃ third
    exact third.trans (second.trans first)

end Apm.Ams
