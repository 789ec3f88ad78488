import Apm.Ams.OverlayTargets
import Apm.Lib.Greatest

/-!
`readMountType` of `src/ams/module_manager.cpp`, on the text of `/proc/self/mounts`.

The kernel writes one line for each mount, the latest last, and escapes what would end a field.
The mount that is visible at a path is the latest on the longest mount point that covers the path;
`readMountType` keeps the first it meets there, and reads points with their escapes.

## Main results

* `readMountType_iff`: when the type that is read is that of the visible mount.
* `readMountType_overlaid`: an overlay that is mounted over a partition is not seen.
* `readMountType_overlayTargets`: the function of `OverlayTargets` reads this text.
-/

namespace Apm.Ams.MountTable

open Apm.Lib.Greatest
open Apm.Lib.Text (unlines)
open Apm.Repo (getlines_unlines)

/-! ### The table -/

/-- Where something is mounted, and its type. -/
structure Mounted where
  point : ByteString
  fsType : ByteString
deriving DecidableEq

/-- What the kernel writes as three octal digits. -/
def escaped (c : UInt8) : Bool :=
  c == chr ' ' || c == chr '\t' || c == chr '\n' || c == chr '\\' || c == chr '#'

def octal (c : UInt8) : ByteString :=
  [chr '\\', chr '0' + c / 64, chr '0' + c / 8 % 8, chr '0' + c % 8]

/-- A field as the kernel writes it. -/
def mangle (field : ByteString) : ByteString :=
  field.flatMap fun c => if escaped c then octal c else [c]

/-- A line of the table. -/
structure MountLine extends Mounted where
  source : ByteString
  options : ByteString
  absolute : point.head? = some (chr '/')

def MountLine.text (line : MountLine) : ByteString :=
  mangle line.source ++ str " " ++ (mangle line.point ++ str " " ++ (mangle line.fsType ++
    str " " ++ (mangle line.options ++ str " 0 0")))

/-- `/proc/self/mounts`. -/
def mountsText (table : List MountLine) : ByteString :=
  unlines (chr '\n') (table.map (·.text))

/-- The path is at the point or below it. -/
def Covers (point path : ByteString) : Prop :=
  point = str "/" ∨ path = point ∨ point ++ str "/" <+: path

instance (point path : ByteString) : Decidable (Covers point path) :=
  inferInstanceAs (Decidable (_ ∨ _ ∨ _))

/-- The mounts on the longest point that covers the path, in their order. -/
def nearest (path : ByteString) (mounts : List Mounted) : List Mounted :=
  greatest (·.point.length) (mounts.filter fun m => Covers m.point path)

/-- The type of the mount that is visible at the path: of those nearest to it, the latest. -/
def visibleType (table : List MountLine) (path : ByteString) : Option ByteString :=
  (nearest path (table.map (·.toMounted))).getLast?.map (·.fsType)

/-! ### `readMountType` -/

/-- `realpath(3)`: a path from the root, if the path leads anywhere. -/
structure Realpath where
  resolve : ByteString → Option ByteString
  absolute : ∀ path, ∀ real ∈ resolve path, real.head? = some (chr '/')

variable (realpath : Realpath)

def resolveForMount (path : ByteString) : ByteString :=
  normalizeMountPath ((realpath.resolve path).getD path)

/-- What `>>` reads from a line, one after the other. -/
def words (line : ByteString) : List ByteString := (line.splitOnP isspace).filter (· ≠ [])

/-- `source`, `target` and `fsType` of a line. -/
def readLine (line : ByteString) : Option Mounted :=
  match words line with
  | _ :: target :: fsType :: _ => some ⟨resolveForMount realpath target, fsType⟩
  | _ => none

structure Best where
  bestType : ByteString := []
  bestMatchLen : Nat := 0

/-- One turn of the loop. -/
def tryLine (resolved : ByteString) (best : Best) (line : ByteString) : Best :=
  match readLine realpath line with
  | none => best
  | some m =>
      if !isWithinMount resolved m.point then best
      else if best.bestMatchLen < m.point.length then ⟨m.fsType, m.point.length⟩
      else best

/-- `readMountType`, for what is in the file, if it can be opened. -/
def readMountType (mounts : Option ByteString) (path : ByteString) : Option ByteString := do
  let text ← mounts
  let resolved := resolveForMount realpath path
  let best := (getlines (chr '\n') text).foldl (tryLine realpath resolved) {}
  if best.bestMatchLen = 0 then none else some best.bestType

/-- A path from the root without links and without a slash behind it. -/
structure Canonical (path : ByteString) : Prop where
  absolute : path.head? = some (chr '/')
  slash : normalizeMountPath path = path
  resolves : ∀ real ∈ realpath.resolve path, real = path

/-- A field that is written as it is, and read as it is. -/
def Plain (field : ByteString) : Prop := field ≠ [] ∧ ∀ c ∈ field, ¬ escaped c ∧ ¬ isspace c

/-- The entry is read from its line as it is. -/
structure ReadsBack (line : MountLine) : Prop where
  source : Plain line.source
  point : Plain line.point
  fsType : Plain line.fsType
  canonical : Canonical realpath line.point

variable {realpath}

/-! ### Points -/

theorem isWithinMount_iff {path point : ByteString} :
    isWithinMount path point ↔ Covers point path := by
  simp [isWithinMount, Covers, covers, or_assoc]

theorem Canonical.resolveForMount_eq {path : ByteString} (h : Canonical realpath path) :
    resolveForMount realpath path = path := by
  unfold resolveForMount
  cases real : realpath.resolve path with
  | none => exact h.slash
  | some path' =>
    rw [Option.getD_some, h.resolves path' real]
    exact h.slash

theorem normalizeMountPath_ne_nil {path : ByteString} (h : path ≠ []) :
    normalizeMountPath path ≠ [] := by
  unfold normalizeMountPath
  split
  · rename_i long
    simp only [Bool.and_eq_true, decide_eq_true_eq] at long
    intro none
    have length := congrArg List.length none
    rw [List.length_dropLast, List.length_nil] at length
    omega
  · exact h

theorem resolveForMount_ne_nil {path : ByteString} (h : path ≠ []) :
    resolveForMount realpath path ≠ [] := by
  apply normalizeMountPath_ne_nil
  cases real : realpath.resolve path with
  | none => exact h
  | some path' =>
    rintro rfl
    cases realpath.absolute path [] real

theorem Covers.isPrefix {point path : ByteString} (h : Covers point path)
    (absolute : path.head? = some (chr '/')) : point <+: path := by
  obtain rfl | rfl | below := h
  · obtain ⟨rest, rfl⟩ := List.head?_eq_some_iff.mp absolute
    exact ⟨rest, rfl⟩
  · exact List.prefix_rfl
  · exact (List.prefix_append _ _).trans below

/-- The mounts nearest to a path are all on one point. -/
theorem point_eq_of_nearest {path : ByteString} {mounts : List Mounted} {m m' : Mounted}
    (absolute : path.head? = some (chr '/')) (hm : m ∈ nearest path mounts)
    (hm' : m' ∈ nearest path mounts) : m.point = m'.point := by
  have onPath : ∀ x ∈ nearest path mounts, x.point <+: path := by
    intro x hx
    have covering := (List.mem_filter.mp (mem_greatest.mp hx).1).2
    exact (of_decide_eq_true covering).isPrefix absolute
  have length := key_eq hm hm'
  exact (List.prefix_of_prefix_length_le (onPath m hm) (onPath m' hm') length.le).eq_of_length
    length

/-! ### The loop -/

/-- What the loop has, as it keeps it. -/
def bestOf (best : Option Mounted) : Best :=
  match best with
  | none => {}
  | some m => ⟨m.fsType, m.point.length⟩

theorem tryLine_some {line : ByteString} {m : Mounted} (read : readLine realpath line = some m)
    (resolved : ByteString) (best : Option Mounted) :
    tryLine realpath resolved (bestOf best) line =
      bestOf (if Covers m.point resolved then closer (·.point.length) best m else best) := by
  have len : (bestOf best).bestMatchLen = (best.map (·.point.length)).getD 0 := by
    cases best <;> rfl
  unfold tryLine
  rw [read]
  dsimp only
  by_cases within : Covers m.point resolved
  · have here : isWithinMount resolved m.point = true := isWithinMount_iff.mpr within
    rw [here, if_neg (by decide), if_pos within, closer, len]
    split <;> rfl
  · have away : isWithinMount resolved m.point = false :=
      Bool.eq_false_iff.mpr fun here => within (isWithinMount_iff.mp here)
    rw [away, if_pos (by decide), if_neg within]

/-- The lines as they are read. -/
def readMounts (realpath : Realpath) (text : ByteString) : List Mounted :=
  (getlines (chr '\n') text).filterMap (readLine realpath)

theorem foldl_tryLine (resolved : ByteString) (lines : List ByteString) (best : Option Mounted) :
    lines.foldl (tryLine realpath resolved) (bestOf best) =
      bestOf (((lines.filterMap (readLine realpath)).filter fun m =>
        Covers m.point resolved).foldl (closer fun m => m.point.length) best) := by
  induction lines generalizing best with
  | nil => rfl
  | cons line lines ih =>
    rw [List.foldl_cons]
    cases read : readLine realpath line with
    | none =>
      have skips : tryLine realpath resolved (bestOf best) line = bestOf best := by
        rw [tryLine, read]
      rw [skips, ih, List.filterMap_cons_none read]
    | some m =>
      rw [tryLine_some read, ih, List.filterMap_cons_some read]
      by_cases within : Covers m.point resolved
      · have kept := List.filter_cons_of_pos (p := fun m : Mounted => Covers m.point resolved)
          (l := lines.filterMap (readLine realpath)) (decide_eq_true within)
        rw [if_pos within, kept, List.foldl_cons]
      · have dropped := List.filter_cons_of_neg (p := fun m : Mounted => Covers m.point resolved)
          (l := lines.filterMap (readLine realpath)) (a := m) (by simpa using within)
        rw [if_neg within, dropped]

theorem point_ne_nil {line : ByteString} {m : Mounted} (h : readLine realpath line = some m) :
    m.point ≠ [] := by
  unfold readLine at h
  split at h
  · rename_i target fsType rest read
    obtain rfl := Option.some.inj h
    apply resolveForMount_ne_nil
    have mem : target ∈ words line := by simp [read]
    simpa using (List.mem_filter.mp mem).2
  · cases h

/-- **What is read**: the type of the first of the mounts nearest to the path, as the lines are
read. -/
theorem readMountType_eq (text path : ByteString) :
    readMountType realpath (some text) path =
      (nearest (resolveForMount realpath path) (readMounts realpath text)).head?.map
        (·.fsType) := by
  have pos : ∀ m ∈ (readMounts realpath text).filter fun m =>
      Covers m.point (resolveForMount realpath path), 0 < m.point.length := by
    intro m mem
    obtain ⟨line, -, read⟩ := List.mem_filterMap.mp (List.mem_of_mem_filter mem)
    exact List.length_pos_iff.mpr (point_ne_nil read)
  have loop : (getlines (chr '\n') text).foldl
      (tryLine realpath (resolveForMount realpath path)) {} =
      bestOf (nearest (resolveForMount realpath path) (readMounts realpath text)).head? := by
    rw [nearest, ← foldl_closer pos]
    exact foldl_tryLine _ _ none
  unfold readMountType
  dsimp only [Option.bind_eq_bind, Option.bind_some]
  rw [loop]
  cases first : (nearest (resolveForMount realpath path) (readMounts realpath text)).head? with
  | none => rfl
  | some m =>
    have mem := (mem_greatest.mp (List.mem_of_head? first)).1
    exact if_neg (pos m mem).ne'

/-! ### Lines -/

theorem mangle_plain {field : ByteString} (h : Plain field) : mangle field = field := by
  have same : mangle field = field.flatMap fun c => [c] :=
    List.flatMap_congr fun c mem => if_neg (h.2 c mem).1
  rw [same, List.flatMap_singleton']

theorem lf_notMem_mangle (field : ByteString) : chr '\n' ∉ mangle field := by
  intro mem
  obtain ⟨c, -, here⟩ := List.mem_flatMap.mp mem
  split at here
  · have digits : ∀ n : Fin 256, chr '\n' ∉ octal (UInt8.ofNat n) := by decide +kernel
    exact digits ⟨c.toNat, c.toNat_lt⟩ (by simpa using here)
  · rename_i asIs
    obtain rfl := List.mem_singleton.mp here
    exact asIs (by decide)

theorem lf_notMem_text (line : MountLine) : chr '\n' ∉ line.text := by
  have blank : chr '\n' ∉ str " " := by decide
  have last : chr '\n' ∉ str " 0 0" := by decide
  simp only [MountLine.text, List.mem_append, not_or]
  refine ⟨⟨?_, blank⟩, ⟨?_, blank⟩, ⟨?_, blank⟩, ?_, last⟩ <;> exact lf_notMem_mangle _

/-- The lines are read one by one. -/
theorem readMounts_mountsText (table : List MountLine) :
    readMounts realpath (mountsText table) = table.filterMap (readLine realpath ·.text) := by
  have clean : ∀ line ∈ table.map (·.text), chr '\n' ∉ line := by
    intro line mem
    obtain ⟨entry, -, rfl⟩ := List.mem_map.mp mem
    exact lf_notMem_text entry
  have lines := getlines_unlines clean []
  rw [List.append_nil] at lines
  rw [readMounts, mountsText, lines, List.filterMap_append, List.filterMap_map]
  exact List.append_nil _

theorem words_field {field : ByteString} (h : Plain field) (rest : ByteString) :
    words (mangle field ++ str " " ++ rest) = field :: words rest := by
  have bare : ∀ c ∈ field, isspace c = false := fun c mem => Bool.eq_false_iff.mpr (h.2 c mem).2
  rw [mangle_plain h, List.append_assoc]
  have split : (field ++ (str " " ++ rest)).splitOnP isspace = field :: rest.splitOnP isspace :=
    List.splitOnP_append_cons_of_forall_mem bare (chr ' ') (by decide) rest
  have kept : decide (field ≠ []) = true := decide_eq_true h.1
  rw [words, split, List.filter_cons, kept, if_pos rfl, words]

/-- An entry without escapes is read from its line. -/
theorem readLine_text {line : MountLine} (h : ReadsBack realpath line) :
    readLine realpath line.text = some line.toMounted := by
  unfold readLine MountLine.text
  rw [words_field h.source, words_field h.point, words_field h.fsType]
  dsimp only
  rw [h.canonical.resolveForMount_eq]

theorem readMounts_readsBack {table : List MountLine}
    (h : ∀ line ∈ table, ReadsBack realpath line) :
    readMounts realpath (mountsText table) = table.map (·.toMounted) := by
  rw [readMounts_mountsText, ← List.filterMap_eq_map]
  exact List.filterMap_congr fun line mem => readLine_text (h line mem)

/-! ### The visible mount -/

/-- The mounts nearest to the path, the first and the latest of them, are of one type. -/
def OneType (path : ByteString) (mounts : List Mounted) : Prop :=
  ∀ first ∈ (nearest path mounts).head?, ∀ last ∈ (nearest path mounts).getLast?,
    first.fsType = last.fsType

theorem oneType_iff {path : ByteString} {mounts : List Mounted} :
    (nearest path mounts).head?.map (·.fsType) = (nearest path mounts).getLast?.map (·.fsType) ↔
      OneType path mounts := by
  unfold OneType
  cases near : nearest path mounts with
  | nil => simp
  | cons first rest => simp [List.getLast?_cons]

/-- **When the type that is read is that of the visible mount.** The first mount on the longest
point, as the lines are read, must have the type of the latest on the longest point; where the
entries are read as they are, the first and the latest mount there must be of one type. -/
theorem readMountType_iff {path : ByteString} (canonical : Canonical realpath path)
    (table : List MountLine) :
    (readMountType realpath (some (mountsText table)) path = visibleType table path ↔
      (nearest path (table.filterMap (readLine realpath ·.text))).head?.map (·.fsType) =
        (nearest path (table.map (·.toMounted))).getLast?.map (·.fsType)) ∧
    ((∀ line ∈ table, ReadsBack realpath line) →
      (readMountType realpath (some (mountsText table)) path = visibleType table path ↔
        OneType path (table.map (·.toMounted)))) := by
  have read : readMountType realpath (some (mountsText table)) path = _ :=
    readMountType_eq (mountsText table) path
  rw [canonical.resolveForMount_eq] at read
  constructor
  · rw [read, readMounts_mountsText, visibleType]
  · intro readsBack
    rw [read, readMounts_readsBack readsBack, visibleType]
    exact oneType_iff

/-- A file system without links. -/
def noLinks : Realpath where
  resolve path := if path.head? = some (chr '/') then some path else none
  absolute path real mem := by
    split at mem
    · rename_i absolute
      obtain rfl := Option.some.inj mem
      exact absolute
    · cases mem

theorem canonical_noLinks {path : ByteString} (absolute : path.head? = some (chr '/'))
    (slash : normalizeMountPath path = path) : Canonical noLinks path := by
  refine ⟨absolute, slash, ?_⟩
  intro real mem
  rw [noLinks] at mem
  dsimp only at mem
  rw [if_pos absolute] at mem
  exact (Option.some.inj mem).symm

/-- The root file system and the partition. -/
def partitions : List MountLine :=
  [⟨⟨str "/", str "ext4"⟩, str "/dev/root", str "ro", by decide⟩,
    ⟨⟨str "/system", str "erofs"⟩, str "/dev/block/dm-0", str "ro", by decide⟩]

/-- A partition that is mounted once. -/
theorem readMountType_iff_once :
    readMountType noLinks (some (mountsText partitions)) (str "/system/bin") =
      visibleType partitions (str "/system/bin") := by
  have canonical : Canonical noLinks (str "/system/bin") :=
    canonical_noLinks (by decide) (by decide)
  exact (readMountType_iff canonical partitions).1.mpr (by decide +kernel)

/-- An overlay over the partition. -/
def overlaid : List MountLine :=
  partitions ++ [⟨⟨str "/system", str "overlay"⟩, str "overlay", str "ro", by decide⟩]

/-- A mount on a point with a blank. -/
def blankPoint : List MountLine :=
  partitions ++ [⟨⟨str "/mnt/a b", str "tmpfs"⟩, str "tmpfs", str "rw", by decide⟩]

/-- An overlay that is mounted over a partition is not seen, and a mount on a point with a blank is
not found. -/
theorem readMountType_overlaid :
    (Canonical noLinks (str "/system") ∧
      readMountType noLinks (some (mountsText overlaid)) (str "/system") = some (str "erofs") ∧
      visibleType overlaid (str "/system") = some (str "overlay")) ∧
    (Canonical noLinks (str "/mnt/a b") ∧
      readMountType noLinks (some (mountsText blankPoint)) (str "/mnt/a b") =
        some (str "ext4") ∧
      visibleType blankPoint (str "/mnt/a b") = some (str "tmpfs")) := by
  refine ⟨⟨canonical_noLinks ?_ ?_, ?_, ?_⟩, canonical_noLinks ?_ ?_, ?_, ?_⟩ <;> decide +kernel

/-! ### The mounts of `OverlayTargets` -/

theorem foldl_closerMount (path : ByteString) (table : List Mount) (best : Option Mount) :
    table.foldl (closerMount path) best =
      (table.filter fun m => Covers m.point path).foldl (closer fun m => m.point.length) best := by
  rw [List.foldl_filter]
  congr 1
  funext best m
  unfold closerMount closer
  by_cases within : Covers m.point path
  · rw [isWithinMount_iff.mpr within, Bool.true_and, if_pos (decide_eq_true within)]
    simp only [decide_eq_true_eq]
  · have away : isWithinMount path m.point = false :=
      Bool.eq_false_iff.mpr fun here => within (isWithinMount_iff.mp here)
    rw [away, Bool.false_and, if_neg (by decide), if_neg (by simpa using within)]

/-- **The text stands for the mounts of `OverlayTargets`**: what is read from lines for them is
what is read there. -/
theorem readMountType_overlayTargets (host : Host) {table : List Mount} {lines : List MountLine}
    (same : lines.map (·.toMounted) = table.reverse.map fun m => ⟨m.point, host.fsType m⟩)
    (readsBack : ∀ line ∈ lines, ReadsBack realpath line) {path : ByteString}
    (canonical : Canonical realpath path) :
    readMountType realpath (some (mountsText lines)) path = Ams.readMountType host table path := by
  have pos : ∀ m ∈ table.reverse.filter fun m => Covers m.point path, 0 < m.point.length := by
    intro m mem
    have mounted : (⟨m.point, host.fsType m⟩ : Mounted) ∈ lines.map (·.toMounted) := by
      rw [same]
      exact List.mem_map.mpr ⟨m, List.mem_of_mem_filter mem, rfl⟩
    obtain ⟨line, -, eq⟩ := List.mem_map.mp mounted
    have point : line.point = m.point := congrArg Mounted.point eq
    rw [← point]
    apply List.length_pos_iff.mpr
    intro none
    have absolute := line.absolute
    rw [none] at absolute
    cases absolute
  rw [readMountType_eq, canonical.resolveForMount_eq, readMounts_readsBack readsBack, same,
    Ams.readMountType, foldl_closerMount, foldl_closer pos, nearest, List.filter_map,
    greatest_map, List.head?_map, Option.map_map]
  rfl

end Apm.Ams.MountTable
