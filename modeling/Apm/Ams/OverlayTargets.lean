import Apm.Ams.BindView

/-!
`applyOverlayForTarget` of `src/ams/module_manager.cpp`, and what a target shows after a run of such
calls.

The mount table stands for `/proc/self/mounts`. Mount points are resolved paths, and what
directories hold is read from what is mounted on them.

## Main results

* `shows_last_layers`: after calls that meet `Keeps`, a target shows what a single call with the
  last layers makes it show.
-/

namespace Apm.Ams

open Apm.Fs Apm.Config Apm.Lib.Effect
open Apm.Lib.FileTree (Entry Kind)
open Apm.Lib.MountStack (umount umountAll)

/-! ### Devices -/

/-- What `applyOverlayForTarget` works on for one target. -/
structure Overlays where
  mounts : Mounts := {}
  /-- `base-source-<target>`. -/
  sourceFile : Option ByteString := none

/-- What a device does the same way each time, and what the target is without mounts. -/
structure Stock where
  tree : Dir
  reads : View → Tree
  /-- `cp -a` of a layer onto the staged tree, where it works. -/
  copy : Tree → Tree → Tree
  /-- What an overlay shows, where it is mounted. -/
  union : ByteString → Dir → Dir → View
  baseLeads : ByteString → Option (Entry ByteString ByteString)
  targetLeads : ByteString → Option (Entry ByteString ByteString)

/-- What the system answers during one call. -/
structure Host where
  kernel : Kernel
  /-- Why the runtime directories cannot be made. -/
  runtimeErr : Option ByteString
  fsType : Mount → ByteString
  makesBase : Bool
  mirrors : Bool
  /-- What a write leaves in the source file. -/
  source : Option ByteString
  restores : Bool
  message : ByteString

variable (stock : Stock) (host : Host) (target : OverlayTarget)

/-- What the target shows, by the mounts at it and below it. -/
def shown (table : List Mount) : View := fun path =>
  seenAt target stock.tree path (atTarget target table)

/-! ### The mount table -/

def isWithinMount (path mountPoint : ByteString) : Bool :=
  mountPoint == str "/" || path == mountPoint || covers mountPoint path

/-- Of the mounts that a path is in, the first one at the longest point. -/
def closerMount (path : ByteString) (best : Option Mount) (m : Mount) : Option Mount :=
  if isWithinMount path m.point && ((best.map (·.point.length)).getD 0 < m.point.length) then some m
  else best

def readMountType (table : List Mount) (path : ByteString) : Option ByteString :=
  (table.reverse.foldl (closerMount path) none).map host.fsType

def isPathMounted (table : List Mount) (path : ByteString) : Bool :=
  table.any (·.point == path)

def isOverlayCandidateReady (table : List Mount) : Bool :=
  if target.name = str "system" then (readMountType host table target.mountPoint).isSome
  else isPathMounted table target.mountPoint

/-! ### The base mirror -/

def normalizeMountPath (path : ByteString) : ByteString :=
  if path.length > 1 && path.getLast? == some (chr '/') then path.dropLast else path

/-- The mount point that the source file names. -/
def previousSource (sourceFile : Option ByteString) : ByteString :=
  normalizeMountPath ((sourceFile.getD []).rdropWhile trailing)

/-- What the base mirror shows. -/
def mirrorView (table : List Mount) : Option View :=
  (table.find? (·.point == baseMirrorPath target)).map (·.shows)

variable {ε : Type}

def mountsNow : Act Overlays ε Mounts := update fun x => (x.mounts, x)

/-- One mount more. -/
def pushMount (m : Mount) : Act Overlays ε Unit :=
  update fun x => ((), { x with mounts := { x.mounts with table := m :: x.mounts.table } })

/-- Mirror the target as it is. -/
def captureBase : Act Overlays ByteString Unit := do
  let w ← mountsNow
  match readMountType host w.table target.mountPoint with
  | none => throw (str "Unable to determine mount type for " ++ target.mountPoint)
  | some type =>
      if type = str "overlay" then
        throw (str "Cannot snapshot base for " ++ target.mountPoint ++
          str " because it is already overlay-mounted. Reboot into a clean state " ++
          str "before enabling AMS modules.")
      else if !host.mirrors then
        throw (str "Failed to mirror " ++ target.mountPoint ++ str ": " ++ host.message)
      else do
        pushMount ⟨baseMirrorPath target, shown stock target w.table⟩
        update fun x => ((), { x with sourceFile := host.source })

def ensureBaseMirrorForTarget : Act Overlays ByteString Unit := do
  if !host.makesBase then
    throw (str "Failed to create base mirror directory for " ++ target.name)
  else
    let x ← update fun x => (x, x)
    if !isPathMounted x.mounts.table (baseMirrorPath target) then captureBase stock host target
    else if previousSource x.sourceFile = target.mountPoint then pure ()
    else do
      update fun x => ((), { x with mounts := { x.mounts with
        table := umount Mount.point covers (baseMirrorPath target) x.mounts.table } })
      captureBase stock host target

def mountBaseOnly : Act Overlays ByteString Unit := do
  if target.mountPoint = str "/" then pure ()
  else
    let w ← mountsNow
    match mirrorView target w.table with
    | none => throw (str "Missing base mirror for " ++ target.name)
    | some view =>
        if host.restores then pushMount ⟨target.mountPoint, view⟩
        else throw (str "Failed to restore base mount for " ++ target.mountPoint ++ str ": " ++
          host.message)

/-! ### Applying layers -/

/-- Act on the mounts. -/
def onMounts {α : Type} (act : Act Mounts ε α) : Act Overlays ε α := do
  match ← update fun x => ((exec act x.mounts).1, { x with mounts := (exec act x.mounts).2 }) with
  | .ok a => pure a
  | .error e => throw e

/-- A stage of a candidate, with its name in its error. -/
def stage (name : ByteString) (act : Act Overlays ByteString Unit) :
    Act Overlays ByteString Unit := do
  match ← attempt act with
  | .ok () => pure ()
  | .error detail => throw (name ++ str ": " ++ detail)

/-- Is the target of the type of an overlay? -/
def overlayActive (table : List Mount) : Bool :=
  readMountType host table target.mountPoint == some (str "overlay")

/-- The backend, with the mirror and the target as they are. -/
def applyBackend (layers : List (Option Tree)) : Act Overlays ByteString Unit := do
  let w ← mountsNow
  onMounts (applyBindMountBackendForTarget host.kernel target layers
    (stock.reads ((mirrorView target w.table).getD fun _ => none))
    (stock.reads (shown stock target (released w))))

/-- One candidate's turn in `applyOverlayForTarget`. -/
def applyCandidate (layers : List (Option Tree)) : Act Overlays ByteString Unit := do
  stage (str "pre-base") (ensureBaseMirrorForTarget stock host target)
  let w ← mountsNow
  if overlayActive host target w.table then
    stage (str "pre-restore-base") (mountBaseOnly host target)
  else pure ()
  stage (str "bind-backend") (applyBackend stock host target layers)

/-- The loop over the candidates; a partition that is not mounted is passed over. -/
def tryCandidates (layers : List (Option Tree)) :
    List OverlayTarget → Option ByteString → Act Overlays ByteString Unit
  | [], none => pure ()
  | [], some firstErr => throw firstErr
  | candidate :: rest, firstErr => do
      let w ← mountsNow
      if !isOverlayCandidateReady host candidate w.table then
        tryCandidates layers rest firstErr
      else
        match ← attempt (applyCandidate stock host candidate layers) with
        | .ok () => pure ()
        | .error msg => tryCandidates layers rest (firstErr.or (some msg))

/-- `applyOverlayForTarget`, for the candidates of a target. -/
def applyOverlayForTarget (candidates : List OverlayTarget) (layers : List (Option Tree)) :
    Act Overlays ByteString Unit := do
  match host.runtimeErr with
  | some err => throw err
  | none => tryCandidates stock host layers candidates none

/-! ### Devices that are steady -/

/-- The kernel answers as the device does each time. -/
structure Steady (k : Kernel) : Prop where
  copies : ∀ n layer staged tree, k.copies n layer staged = some tree →
    tree = stock.copy layer staged
  overlays : ∀ n lowerDir staged base view, k.overlays n lowerDir staged base = some view →
    view = stock.union lowerDir staged base
  baseLeads : k.baseLeads = stock.baseLeads
  targetLeads : k.targetLeads = stock.targetLeads

/-- One layer more on the staged tree; `none` is a layer that is no directory. -/
def stageLayer (staged : Tree) : Option Tree → Tree
  | none => staged
  | some layer => stock.copy layer staged

/-- The staged tree of the layers. -/
def stagedOf (layers : List (Option Tree)) : Tree :=
  layers.foldl (stageLayer stock) ⟨.empty, trivial⟩

/-- The links of the device, for plans. -/
def Stock.kernel : Kernel :=
  { willing with baseLeads := stock.baseLeads, targetLeads := stock.targetLeads }

/-- The mounts for the layers, over a target that shows this. -/
def planOf (layers : List (Option Tree)) (view : View) : List Planned :=
  if layers.isEmpty then []
  else planTop stock.kernel (stagedOf stock layers).1 (stock.reads view).1 (stock.reads view).1
    (stagedOf stock layers).1

/-- A planned mount. -/
def mountOf (planned : Planned) : Mount where
  point := pathOf target.mountPoint planned.1
  shows := match planned.2 with
    | .content content => fileView content
    | .merged staged base => stock.union (pathOf (stagedLayerPath target) planned.1 ++ str ":" ++
        pathOf (baseMirrorPath target) planned.1) staged base

section Steady

variable {stock} {k : Kernel} {target}

theorem planTop_congr {k' : Kernel} (bases : k.baseLeads = k'.baseLeads)
    (targets : k.targetLeads = k'.targetLeads) (staged base live entries : Dir) :
    planTop k staged base live entries = planTop k' staged base live entries := by
  induction entries with
  | empty => rfl
  | file name content rest ih => rw [planTop, planTop, ih]
  | link name leads rest ih => rw [planTop, planTop, ih]
  | dir name inner rest _ ih => rw [planTop, planTop, ih, bases, targets]

theorem stagedOf_concat (layers : List (Option Tree)) (layer : Option Tree) :
    stagedOf stock (layers ++ [layer]) = stageLayer stock (stagedOf stock layers) layer :=
  List.foldl_append

theorem Steady.staged (steady : Steady stock k) {layers : List (Option Tree)} {w : Mounts}
    {staged : Tree} (h : Staged k target layers w staged) : staged = stagedOf stock layers := by
  obtain ⟨w₁, w₂, -, run⟩ := h
  have turn : ∀ layer (tree : Tree) w, wp (copyLayer k target layer tree)
      (fun tree' _ => tree' = stageLayer stock tree layer) (fun _ _ => True) w := by
    intro layer tree w
    cases layer with
    | none => rfl
    | some layer =>
      apply wp_bind.mpr
      rw [answered, wp_update]
      cases copied : k.copies w.asked layer tree with
      | none => trivial
      | some tree' => exact steady.copies _ _ _ _ copied
  have all : wp (stageLayers k target layers) (fun tree _ => tree = stagedOf stock layers)
      (fun _ _ => True) w₁ := by
    unfold stageLayers
    apply wp_bind.mpr
    rw [answered, wp_update]
    refine wp_ite.mpr ⟨fun _ => ?_, fun _ => trivial⟩
    apply wp_forEach_done (fun done (tree : Tree) _ => tree = stagedOf stock done)
    · rintro done layer rest - tree w rfl
      apply wp_mono (turn layer _ w) ?_ fun _ _ h => h
      rintro tree' _ rfl
      exact (stagedOf_concat done layer).symm
    · rfl
  exact all.ok run

theorem Steady.mountOf_eq (steady : Steady stock k) {planned : Planned} {m : Mount}
    (h : Makes k (stagedLayerPath target) (baseMirrorPath target) target.mountPoint planned m) :
    m = mountOf stock target planned := by
  obtain ⟨path, source⟩ := planned
  obtain ⟨point, shows⟩ := m
  obtain ⟨rfl, made⟩ := h
  cases source with
  | content content =>
    dsimp only at made
    subst made
    rfl
  | merged staged base =>
    obtain ⟨n, merged⟩ := made
    obtain rfl : shows = _ := steady.overlays _ _ _ _ _ merged
    rfl

theorem Steady.made (steady : Steady stock k) {plan : List Planned} {made : List Mount}
    (h : List.Forall₂ (Makes k (stagedLayerPath target) (baseMirrorPath target)
      target.mountPoint) plan made) : made = plan.map (mountOf stock target) := by
  induction h with
  | nil => rfl
  | cons first _ ih => rw [List.map_cons, ← ih, ← steady.mountOf_eq first]

end Steady

/-! ### Places apart -/

/-- The base mirror is neither at the target nor above or below it. -/
structure Elsewhere : Prop where
  notRoot : baseMirrorPath target ≠ str "/"
  ne : baseMirrorPath target ≠ target.mountPoint
  notBelow : covers target.mountPoint (baseMirrorPath target) = false
  notAbove : covers (baseMirrorPath target) target.mountPoint = false

/-- The path is the target's mount point or below it. -/
def AtTarget (path : ByteString) : Prop :=
  path = target.mountPoint ∨ covers target.mountPoint path = true

section Apart

variable {target} {table : List Mount} {path : ByteString}

theorem atTarget_cons {m : Mount} : atTarget target (m :: table) =
    if m.point == target.mountPoint || covers target.mountPoint m.point then
      m :: atTarget target table else atTarget target table := by
  simp [atTarget, List.filter_cons]

theorem Elsewhere.atTarget_mirror (h : Elsewhere target) (view : View) :
    atTarget target (⟨baseMirrorPath target, view⟩ :: table) = atTarget target table := by
  rw [atTarget_cons, if_neg (by simp [h.ne, h.notBelow])]

theorem Elsewhere.ne_of_atTarget (h : Elsewhere target) (there : AtTarget target path) :
    baseMirrorPath target ≠ path := by
  rintro rfl
  obtain same | below := there
  · exact h.ne same
  · rw [h.notBelow] at below
    cases below

/-- Nothing at the target is below the mirror. -/
theorem Elsewhere.not_covers (h : Elsewhere target) (there : AtTarget target path) :
    covers (baseMirrorPath target) path = false := by
  obtain rfl | below := there
  · exact h.notAbove
  apply Bool.eq_false_iff.mpr
  intro covered
  have notBelow := h.notBelow
  have notAbove := h.notAbove
  unfold covers at covered below notBelow notAbove
  rw [List.isPrefixOf_iff_prefix] at covered below
  rw [Bool.eq_false_iff, Ne, List.isPrefixOf_iff_prefix] at notBelow notAbove
  obtain shorter | longer := List.prefix_or_prefix_of_prefix covered below
  · obtain same | above := List.prefix_concat_iff.mp shorter
    · exact h.ne (List.append_cancel_right same)
    · exact notAbove above
  · obtain same | beneath := List.prefix_concat_iff.mp longer
    · exact h.ne (List.append_cancel_right same).symm
    · exact notBelow beneath

/-- Taking mounts at the target away leaves the mirror. -/
theorem Elsewhere.mirrorView_umount (h : Elsewhere target) (there : AtTarget target path) :
    mirrorView target (umount Mount.point covers path table) = mirrorView target table := by
  induction table with
  | nil => rfl
  | cons m table ih =>
    unfold umount
    split
    · rename_i here
      have other : (m.point == baseMirrorPath target) = false := by
        rw [here]
        simpa using (h.ne_of_atTarget there).symm
      simp [mirrorView, other]
    split
    · rfl
    · unfold mirrorView at ih ⊢
      rw [List.find?_cons, List.find?_cons]
      cases m.point == baseMirrorPath target with
      | true => rfl
      | false => exact ih

theorem Elsewhere.mirrorView_umountAll (h : Elsewhere target) {paths : List ByteString}
    (there : ∀ path ∈ paths, AtTarget target path) :
    mirrorView target (umountAll Mount.point covers paths table) = mirrorView target table := by
  induction paths generalizing table with
  | nil => rfl
  | cons path paths ih =>
    obtain ⟨first, others⟩ := List.forall_mem_cons.mp there
    rw [Lib.MountStack.umountAll_cons, ih others, h.mirrorView_umount first]

theorem Elsewhere.mirrorView_append (h : Elsewhere target) {made : List Mount}
    (there : ∀ m ∈ made, AtTarget target m.point) :
    mirrorView target (made ++ table) = mirrorView target table := by
  induction made with
  | nil => rfl
  | cons m made ih =>
    obtain ⟨first, others⟩ := List.forall_mem_cons.mp there
    have other : (m.point == baseMirrorPath target) = false := by
      simpa using (h.ne_of_atTarget first).symm
    unfold mirrorView at ih ⊢
    rw [List.cons_append, List.find?_cons, other]
    exact ih others

theorem atTarget_append {made : List Mount} (there : ∀ m ∈ made, AtTarget target m.point) :
    atTarget target (made ++ table) = made ++ atTarget target table := by
  unfold atTarget
  rw [List.filter_append, List.filter_eq_self.mpr]
  intro m mem
  simpa [AtTarget] using there m mem

/-- The type of the target does not come from the mirror. -/
theorem Elsewhere.readMountType_mirror (h : Elsewhere target) (host : Host) (view : View) :
    readMountType host (⟨baseMirrorPath target, view⟩ :: table) target.mountPoint =
      readMountType host table target.mountPoint := by
  have outside : isWithinMount target.mountPoint (baseMirrorPath target) = false := by
    simp [isWithinMount, h.notRoot, h.ne.symm, h.notAbove]
  unfold readMountType
  rw [List.reverse_cons, List.foldl_append]
  simp [closerMount, outside]

end Apart

/-! ### Calls -/

/-- There are no mounts for modules. -/
structure Fresh (x : Overlays) : Prop where
  untracked : loadBindMountState x.mounts.stateFile = []
  unmirrored : isPathMounted x.mounts.table (baseMirrorPath target) = false

structure Call where
  host : Host
  candidates : List OverlayTarget
  layers : List (Option Tree)

/-- The call succeeds. -/
def Applied (call : Call) (x x' : Overlays) : Prop :=
  exec (applyOverlayForTarget stock call.host call.candidates call.layers) x = (.ok (), x')

/-- What the target shows at first. -/
abbrev stockView (x₀ : Overlays) : View := shown stock target x₀.mounts.table

/-- The call works on the target, which is the first of its candidates and no overlay; a base
mirror that it makes is noted as the target's; and it mounts what can be taken away again. -/
structure Keeps (x₀ x : Overlays) (call : Call) : Prop where
  first : call.candidates.head? = some target
  ready : isOverlayCandidateReady call.host target x.mounts.table = true
  works : call.candidates = [target] ∨
    (exec (applyCandidate stock call.host target call.layers) x).1 = .ok ()
  notOverlay : overlayActive call.host target x.mounts.table = false
  source : isPathMounted x.mounts.table (baseMirrorPath target) = true ∨
    previousSource call.host.source = target.mountPoint
  clean : Clean target (planOf stock call.layers (stockView stock target x₀))

/-- What holds between calls. -/
structure Settled (x₀ x : Overlays) : Prop where
  tracked : ∀ path ∈ loadBindMountState x.mounts.stateFile, AtTarget target path
  released : atTarget target (released x.mounts) = atTarget target x₀.mounts.table
  mirror : Fresh target x ∨
    mirrorView target x.mounts.table = some (stockView stock target x₀) ∧
      previousSource x.sourceFile = target.mountPoint

section Calls

variable {stock} {host} {target} {x₀ x x' : Overlays} {layers : List (Option Tree)}

theorem Fresh.settled (h : Fresh target x) : Settled stock target x x where
  tracked path mem := by
    rw [h.untracked] at mem
    cases mem
  released := by rw [released_of_untracked h.untracked]
  mirror := .inl h

theorem isPathMounted_of_mirror {view : View} {table : List Mount}
    (h : mirrorView target table = some view) :
    isPathMounted table (baseMirrorPath target) = true := by
  obtain ⟨m, found, -⟩ := Option.map_eq_some_iff.mp h
  have here := List.find?_some found
  exact List.any_eq_true.mpr ⟨m, List.mem_of_find?_eq_some found, here⟩

/-- The mirror shows the stock tree, and the target's mounts are as before. -/
structure Mirrored (stock : Stock) (host : Host) (target : OverlayTarget) (x₀ x x' : Overlays) :
    Prop where
  view : mirrorView target x'.mounts.table = some (stockView stock target x₀)
  source : previousSource x'.sourceFile = target.mountPoint
  stateFile : x'.mounts.stateFile = x.mounts.stateFile
  released : atTarget target (Ams.released x'.mounts) = atTarget target x₀.mounts.table
  type : readMountType host x'.mounts.table target.mountPoint =
    readMountType host x.mounts.table target.mountPoint

theorem captureBase_spec (elsewhere : Elsewhere target) (settled : Settled stock target x₀ x)
    (fresh : Fresh target x) (source : previousSource host.source = target.mountPoint) :
    wp (captureBase stock host target) (fun _ x' => Mirrored stock host target x₀ x x')
      (fun _ _ => True) x := by
  have same := settled.released
  rw [released_of_untracked fresh.untracked] at same
  unfold captureBase
  apply wp_bind.mpr
  rw [mountsNow, wp_update]
  cases readMountType host x.mounts.table target.mountPoint with
  | none => trivial
  | some type =>
    refine wp_ite.mpr ⟨fun _ => trivial, fun _ => ?_⟩
    refine wp_ite.mpr ⟨fun _ => trivial, fun _ => ?_⟩
    have stockShown : shown stock target x.mounts.table = stockView stock target x₀ := by
      unfold stockView shown
      rw [same]
    constructor
    · rw [← stockShown]
      simp [mirrorView]
    · exact source
    · rfl
    · have untracked : ∀ table, released { x.mounts with table } = table :=
        fun table => released_of_untracked fresh.untracked
      refine (congrArg (atTarget target) (untracked _)).trans ?_
      exact (elsewhere.atTarget_mirror _).trans same
    · exact elsewhere.readMountType_mirror host _

theorem ensureBaseMirrorForTarget_spec (elsewhere : Elsewhere target)
    (settled : Settled stock target x₀ x)
    (source : isPathMounted x.mounts.table (baseMirrorPath target) = true ∨
      previousSource host.source = target.mountPoint) :
    wp (ensureBaseMirrorForTarget stock host target)
      (fun _ x' => Mirrored stock host target x₀ x x') (fun _ _ => True) x := by
  unfold ensureBaseMirrorForTarget
  refine wp_ite.mpr ⟨fun _ => trivial, fun _ => ?_⟩
  apply wp_bind.mpr
  rw [wp_update]
  obtain fresh | ⟨view, noted⟩ := settled.mirror
  · refine wp_ite.mpr ⟨fun _ => ?_, fun no => absurd fresh.unmirrored (by simpa using no)⟩
    apply captureBase_spec elsewhere settled fresh
    apply source.resolve_left
    simp [fresh.unmirrored]
  · have there := isPathMounted_of_mirror view
    refine wp_ite.mpr ⟨fun no => absurd there (by simpa using no), fun _ => ?_⟩
    refine wp_ite.mpr ⟨fun _ => ?_, fun other => absurd noted other⟩
    exact ⟨view, noted, rfl, settled.released, rfl⟩

/-- What is planned for a target is at it. -/
theorem atTarget_points {k : Kernel} {entries : Dir} (ordered : entries.Ordered FileName)
    (staged base live : Dir) :
    ∀ path ∈ points target (planTop k staged base live entries), AtTarget target path := by
  obtain ⟨single, plan, apart, heads⟩ := planTop_apart (k := k) ordered staged base live
  rw [plan]
  intro path mem
  unfold points at mem
  rw [List.map_append, List.mem_append] at mem
  obtain one | whole := mem
  · right
    exact covers_points apart heads one
  · left
    split at whole
    · simpa [pathOf] using whole
    · cases whole

/-- The mounts that a call makes. -/
def mountsFor (stock : Stock) (target : OverlayTarget) (x₀ : Overlays)
    (layers : List (Option Tree)) : List Mount :=
  (planOf stock layers (stockView stock target x₀)).map (mountOf stock target)

/-- After a call the target's mounts are the layers' and the stock ones. -/
structure Shows (stock : Stock) (target : OverlayTarget) (x₀ : Overlays)
    (layers : List (Option Tree)) (x' : Overlays) : Prop where
  settled : Settled stock target x₀ x'
  table : atTarget target x'.mounts.table =
    (mountsFor stock target x₀ layers).reverse ++ atTarget target x₀.mounts.table

/-- What the backend leaves. -/
theorem shows_of_made {w : Mounts} {made : List Mount} (elsewhere : Elsewhere target)
    (mirrored : Mirrored stock host target x₀ x x')
    (tracked : ∀ path ∈ loadBindMountState x.mounts.stateFile, AtTarget target path)
    (clean : Clean target (planOf stock layers (stockView stock target x₀)))
    (same : made = mountsFor stock target x₀ layers)
    (table : w.table = made.reverse ++ released x'.mounts)
    (saved : w.stateFile = some (bindMountLines (made.map Mount.point))) :
    Shows stock target x₀ layers { x' with mounts := w } := by
  have pointsEq : made.map Mount.point =
      points target (planOf stock layers (stockView stock target x₀)) := by
    rw [same, mountsFor, List.map_map]
    rfl
  have there : ∀ path ∈ points target (planOf stock layers (stockView stock target x₀)),
      AtTarget target path := by
    unfold planOf
    split
    · simp [points]
    · exact atTarget_points (stagedOf stock layers).2 _ _ _
  have madeThere : ∀ m ∈ made.reverse, AtTarget target m.point := by
    intro m mem
    apply there
    rw [← pointsEq]
    exact List.mem_map_of_mem (List.mem_reverse.mp mem)
  have trackedThere : ∀ path ∈ (loadBindMountState x'.mounts.stateFile).reverse,
      AtTarget target path := by
    intro path mem
    rw [mirrored.stateFile] at mem
    exact tracked path (List.mem_reverse.mp mem)
  constructor
  · constructor
    · intro path mem
      dsimp only at mem
      rw [saved, loadBindMountState_lines (pointsEq ▸ clean.1), List.mem_dedup,
        List.mem_insertionSort, pointsEq] at mem
      exact there path mem
    · rw [← mirrored.released]
      dsimp only
      rw [Ams.released, saved, table]
      cases none : layers.isEmpty with
      | true =>
        rw [planOf, if_pos none] at pointsEq
        rw [List.map_eq_nil_iff.mp pointsEq]
        rfl
      | false =>
        rw [planOf, none, if_neg Bool.false_ne_true] at pointsEq clean
        exact (restored_iff (stagedOf stock layers).2 pointsEq).mpr clean
    · right
      refine ⟨?_, mirrored.source⟩
      dsimp only
      rw [table, elsewhere.mirrorView_append madeThere, Ams.released,
        elsewhere.mirrorView_umountAll trackedThere]
      exact mirrored.view
  · dsimp only
    rw [table, atTarget_append madeThere, mirrored.released, same]

theorem applyBackend_spec (elsewhere : Elsewhere target) (steady : Steady stock host.kernel)
    (mirrored : Mirrored stock host target x₀ x x')
    (tracked : ∀ path ∈ loadBindMountState x.mounts.stateFile, AtTarget target path)
    (clean : Clean target (planOf stock layers (stockView stock target x₀))) :
    wp (applyBackend stock host target layers) (fun _ x'' => Shows stock target x₀ layers x'')
      (fun _ _ => True) x' := by
  have liveView : shown stock target (released x'.mounts) = stockView stock target x₀ := by
    unfold stockView shown
    rw [mirrored.released]
  unfold applyBackend
  apply wp_bind.mpr
  rw [mountsNow, wp_update]
  dsimp only
  rw [mirrored.view, liveView, Option.getD_some]
  have spec : wp (applyBindMountBackendForTarget host.kernel target layers _ _) _ _ x'.mounts :=
    applyBindMountBackendForTarget_spec layers (stock.reads (stockView stock target x₀))
      (stock.reads (stockView stock target x₀)) x'.mounts
  unfold onMounts
  apply wp_bind.mpr
  rw [wp_update]
  cases run : exec (applyBindMountBackendForTarget host.kernel target layers
      (stock.reads (stockView stock target x₀)) (stock.reads (stockView stock target x₀)))
      x'.mounts with
  | mk result w =>
    cases result with
    | error err => trivial
    | ok done =>
      obtain ⟨made, table, saved, which⟩ := spec.ok run
      apply shows_of_made elsewhere mirrored tracked clean _ table saved
      unfold mountsFor planOf
      obtain ⟨rfl, rfl⟩ | ⟨some, staged, isStaged, -, makes⟩ := which
      · rfl
      · rw [if_neg (by simpa using some), ← planTop_congr steady.baseLeads steady.targetLeads,
          ← steady.staged isStaged]
        exact steady.made makes

theorem stage_spec {name : ByteString} {act : Act Overlays ByteString Unit}
    {Q : Unit → Overlays → Prop} (h : wp act Q (fun _ _ => True) x) :
    wp (stage name act) Q (fun _ _ => True) x := by
  unfold stage
  apply wp_bind.mpr
  apply wp_attempt.mpr
  exact wp_mono h (fun _ _ done => done) fun _ _ _ => trivial

/-- A candidate that is no overlay gets the layers' mounts. -/
theorem applyCandidate_spec (elsewhere : Elsewhere target) (steady : Steady stock host.kernel)
    (settled : Settled stock target x₀ x)
    (notOverlay : overlayActive host target x.mounts.table = false)
    (source : isPathMounted x.mounts.table (baseMirrorPath target) = true ∨
      previousSource host.source = target.mountPoint)
    (clean : Clean target (planOf stock layers (stockView stock target x₀))) :
    wp (applyCandidate stock host target layers) (fun _ x' => Shows stock target x₀ layers x')
      (fun _ _ => True) x := by
  unfold applyCandidate
  apply wp_bind.mpr
  apply stage_spec
  apply wp_mono (ensureBaseMirrorForTarget_spec elsewhere settled source) ?_ fun _ _ h => h
  intro _ x' mirrored
  apply wp_bind.mpr
  rw [mountsNow, wp_update]
  have stays : overlayActive host target x'.mounts.table = false := by
    unfold overlayActive at notOverlay ⊢
    rw [mirrored.type]
    exact notOverlay
  dsimp only
  rw [stays, if_neg Bool.false_ne_true]
  exact stage_spec (applyBackend_spec elsewhere steady mirrored settled.tracked clean)

/-- **One call.** -/
theorem applied_shows {call : Call} (elsewhere : Elsewhere target)
    (steady : Steady stock call.host.kernel) (settled : Settled stock target x₀ x)
    (keeps : Keeps stock target x₀ x call) (applied : Applied stock call x x') :
    Shows stock target x₀ call.layers x' := by
  obtain ⟨rest, candidates⟩ := List.head?_eq_some_iff.mp keeps.first
  have one : wp (applyCandidate stock call.host target call.layers) _ _ x :=
    applyCandidate_spec elsewhere steady settled keeps.notOverlay keeps.source keeps.clean
  suffices all : wp (applyOverlayForTarget stock call.host call.candidates call.layers)
      (fun _ x' => Shows stock target x₀ call.layers x') (fun _ _ => True) x from all.ok applied
  unfold applyOverlayForTarget
  cases call.host.runtimeErr with
  | some err => trivial
  | none =>
    dsimp only
    rw [candidates, tryCandidates]
    apply wp_bind.mpr
    rw [mountsNow, wp_update]
    dsimp only
    rw [keeps.ready]
    refine wp_ite.mpr ⟨nofun, fun _ => ?_⟩
    apply wp_bind.mpr
    apply wp_attempt.mpr
    apply wp_mono (wp_and one (wp_exec _ x))
    · rintro _ x'' ⟨shows, -⟩
      exact shows
    · rintro err x'' ⟨-, run⟩
      obtain single | works := keeps.works
      · rw [single] at candidates
        obtain rfl : rest = [] := (List.cons.inj candidates).2.symm
        trivial
      · rw [run] at works
        cases works

end Calls

/-! ### Runs -/

/-- Calls that succeed, one after the other, each of which meets the condition where it starts. -/
inductive Runs (stock : Stock) (C : Overlays → Call → Prop) :
    List Call → Overlays → Overlays → Prop
  | nil (x : Overlays) : Runs stock C [] x x
  | cons {call : Call} {calls : List Call} {x x₁ x' : Overlays} (meets : C x call)
      (applied : Applied stock call x x₁) (rest : Runs stock C calls x₁ x') :
      Runs stock C (call :: calls) x x'

theorem Runs.settled {stock : Stock} {target : OverlayTarget} {x₀ x x' : Overlays}
    {calls : List Call} (elsewhere : Elsewhere target)
    (steady : ∀ call ∈ calls, Steady stock call.host.kernel)
    (settled : Settled stock target x₀ x)
    (run : Runs stock (Keeps stock target x₀) calls x x') : Settled stock target x₀ x' := by
  induction run with
  | nil => exact settled
  | cons meets applied _ ih =>
    obtain ⟨first, others⟩ := List.forall_mem_cons.mp steady
    exact ih others (applied_shows elsewhere first settled meets applied).settled

/-- **What a target shows after a run.** It is what one call with the last layers makes it show,
and the stock tree if there are none. -/
theorem shows_last_layers {stock : Stock} {target : OverlayTarget} {x₀ x x' y : Overlays}
    {calls : List Call} {last alone : Call} (elsewhere : Elsewhere target)
    (fresh : Fresh target x₀)
    (steady : ∀ call ∈ alone :: last :: calls, Steady stock call.host.kernel)
    (run : Runs stock (Keeps stock target x₀) calls x₀ x)
    (keeps : Keeps stock target x₀ x last) (applied : Applied stock last x x')
    (same : alone.layers = last.layers) (keepsAlone : Keeps stock target x₀ x₀ alone)
    (appliedAlone : Applied stock alone x₀ y) :
    shown stock target x'.mounts.table = shown stock target y.mounts.table ∧
      (last.layers = [] →
        shown stock target x'.mounts.table = shown stock target x₀.mounts.table) := by
  obtain ⟨steadyAlone, others⟩ := List.forall_mem_cons.mp steady
  obtain ⟨steadyLast, others⟩ := List.forall_mem_cons.mp others
  have settled := run.settled elsewhere others fresh.settled
  have shows := applied_shows elsewhere steadyLast settled keeps applied
  have showsAlone := applied_shows elsewhere steadyAlone fresh.settled keepsAlone appliedAlone
  have table := shows.table
  constructor
  · unfold shown
    rw [table, showsAlone.table, same]
  · intro none
    have nothing : mountsFor stock target x₀ last.layers = [] := by
      rw [none]
      rfl
    rw [nothing, List.reverse_nil, List.nil_append] at table
    unfold shown
    rw [table]

/-! ### Layers that stay -/

/-- A system partition with the file `a`. -/
def systemStock : Stock where
  tree := (oneFile (str "old")).1
  reads view := match view [str "a"] with
    | some (.file content) => oneFile content
    | _ => ⟨.empty, trivial⟩
  copy layer _ := layer
  union _ staged base path := Lib.FileTree.overlay path staged base
  baseLeads _ := none
  targetLeads _ := none

theorem willing_steady : Steady systemStock willing where
  copies _ _ _ _ h := (Option.some.inj h).symm
  overlays _ _ _ _ _ h := (Option.some.inj h).symm
  baseLeads := rfl
  targetLeads := rfl

/-- A system that does all it is asked for. What shows a link at the top is an overlay. -/
def willingHost : Host where
  kernel := willing
  runtimeErr := none
  fsType m := if (m.shows [str "b"]).isSome then str "overlay" else str "ext4"
  makesBase := true
  mirrors := true
  source := some (str "/system")
  restores := true
  message := []

def systemCall (layers : List (Option Tree)) : Call := ⟨willingHost, [systemTarget], layers⟩

/-- The partition is mounted there, and nothing of modules is. -/
def systemMounted : Overlays :=
  { mounts := { table := [⟨str "/system", fun path => systemStock.tree.lookup path⟩] } }

/-- The partition is a directory of the root file system. -/
def systemAsRoot : Overlays := { mounts := { table := [⟨str "/", fun _ => none⟩] } }

def after (call : Call) (x : Overlays) : Overlays :=
  (exec (applyOverlayForTarget systemStock call.host call.candidates call.layers) x).2

theorem applied_after {call : Call} {x : Overlays}
    (works : (exec (applyOverlayForTarget systemStock call.host call.candidates call.layers)
      x).1.isOk = true) : Applied systemStock call x (after call x) := by
  unfold Applied after
  cases run : exec (applyOverlayForTarget systemStock call.host call.candidates call.layers) x with
  | mk result x' =>
    rw [run] at works
    cases result with
    | error err => cases works
    | ok done => rfl

/-- One file replaced, and put back. -/
theorem shows_last_layers_file :
    shown systemStock systemTarget
      (after (systemCall []) (after (systemCall [some (oneFile (str "new"))])
        systemMounted)).mounts.table =
      shown systemStock systemTarget systemMounted.mounts.table := by
  have elsewhere : Elsewhere systemTarget :=
    ⟨by decide +kernel, by decide +kernel, by decide +kernel, by decide +kernel⟩
  have fresh : Fresh systemTarget systemMounted := ⟨by decide +kernel, by decide +kernel⟩
  have first : Keeps systemStock systemTarget systemMounted systemMounted
      (systemCall [some (oneFile (str "new"))]) :=
    ⟨rfl, by decide +kernel, .inl rfl, by decide +kernel, .inr (by decide +kernel),
      by decide +kernel⟩
  have last : Keeps systemStock systemTarget systemMounted
      (after (systemCall [some (oneFile (str "new"))]) systemMounted) (systemCall []) :=
    ⟨rfl, by decide +kernel, .inl rfl, by decide +kernel, .inr (by decide +kernel),
      by decide +kernel⟩
  have alone : Keeps systemStock systemTarget systemMounted systemMounted (systemCall []) :=
    ⟨rfl, by decide +kernel, .inl rfl, by decide +kernel, .inr (by decide +kernel),
      by decide +kernel⟩
  have run := Runs.cons first (applied_after (by decide +kernel)) (.nil _)
  refine (shows_last_layers elsewhere fresh ?_ run last (applied_after (by decide +kernel)) rfl
    alone (applied_after (by decide +kernel))).2 rfl
  intro call mem
  simp only [List.mem_cons, List.not_mem_nil, or_false] at mem
  obtain rfl | rfl | rfl := mem <;> exact willing_steady

/-- A directory with the link `b`. -/
def linkOnly : Tree :=
  ⟨.link (str "b") (str "a") .empty, ⟨by decide, by decide⟩, nofun, trivial⟩

/-- A link at the top of a layer. Without layers the file that was mounted before it is still
shown; and where the partition is a directory, the overlay is, since only the mirror that is put
over it is taken away. -/
theorem layers_stay :
    (Fresh systemTarget systemMounted ∧
      Applied systemStock (systemCall [some fileAndLink]) systemMounted
        (after (systemCall [some fileAndLink]) systemMounted) ∧
      Applied systemStock (systemCall []) (after (systemCall [some fileAndLink]) systemMounted)
        (after (systemCall []) (after (systemCall [some fileAndLink]) systemMounted)) ∧
      shown systemStock systemTarget systemMounted.mounts.table [str "a"] =
        some (.file (str "old")) ∧
      shown systemStock systemTarget (after (systemCall []) (after (systemCall [some fileAndLink])
        systemMounted)).mounts.table [str "a"] = some (.file (str "new"))) ∧
    (Fresh systemTarget systemAsRoot ∧
      Applied systemStock (systemCall [some linkOnly]) systemAsRoot
        (after (systemCall [some linkOnly]) systemAsRoot) ∧
      Applied systemStock (systemCall []) (after (systemCall [some linkOnly]) systemAsRoot)
        (after (systemCall []) (after (systemCall [some linkOnly]) systemAsRoot)) ∧
      shown systemStock systemTarget systemAsRoot.mounts.table [str "b"] = none ∧
      shown systemStock systemTarget (after (systemCall []) (after (systemCall [some linkOnly])
        systemAsRoot)).mounts.table [str "b"] = some (.link (str "a"))) := by
  refine ⟨⟨⟨?_, ?_⟩, applied_after ?_, applied_after ?_, ?_, ?_⟩,
    ⟨?_, ?_⟩, applied_after ?_, applied_after ?_, ?_, ?_⟩ <;> decide +kernel

end Apm.Ams
