import Apm.Install.Confined
import Apm.Install.RemoveRetry

/-!
Which files removals and failed installs of Termux packages reach. Nothing records whose file a
path of the shared prefix is.

## Main results

* `reach_iff`: a removal deletes a file if and only if it can be deleted and the package's own
  manifest lists it or it is in the package's root, whoever else lists it; and an install alters
  what its own payload, archive, root and temporary directory hold, what the manifest of a stale
  root lists, and the environment file.
-/

namespace Apm.Install.Ownership

open Apm.Repo Apm.Fs Apm.Config Apm.Lib.Effect Apm.Lib.Walk Apm.Status
open Apm.Install.RemoveRetry (footprint Tidy htop)

/-! ### What removals reach -/

/-- A file's place, or a wrapper's, that a manifest lists. -/
def Lists (manifest : List ByteString) (loc : Loc ByteString) : Prop :=
  ∃ rel ∈ manifest, ∃ path ∈ footprint rel, fileLoc path = loc

instance (manifest : List ByteString) (loc : Loc ByteString) : Decidable (Lists manifest loc) :=
  inferInstanceAs (Decidable (∃ rel ∈ manifest, _))

/-- The manifest of a recorded Termux package lists the place. -/
def ListedBy (db : InstalledDb) (v : Volume) (name : ByteString) (loc : Loc ByteString) : Prop :=
  ∃ ip manifest, db.lookup name = some ip ∧ ip.termuxPackage = true ∧
    RemoveRetry.readTermuxManifest (rootOf name ip) v = some manifest ∧ Lists manifest loc

/-- The package's own manifest lists the place, or it is in the package's root. -/
def Owns (installRoot : ByteString) (v : Volume) (loc : Loc ByteString) : Prop :=
  ∃ manifest, RemoveRetry.readTermuxManifest installRoot v = some manifest ∧
    (Lists manifest loc ∨ Inside (fileLoc installRoot) loc)

section Removal

variable {works : Loc ByteString → Bool} {loc : Loc ByteString} {kind : Kind}

theorem removeInstalledPath_find_iff {x : Option ByteString × Volume} {rel : ByteString}
    (noDir : kind ≠ .dir) :
    (RemoveRetry.removeInstalledPath works x rel).2.find loc = some kind ↔
      x.2.find loc = some kind ∧ ¬ (works loc = true ∧ Lists [rel] loc) := by
  unfold RemoveRetry.removeInstalledPath
  dsimp only
  cases command : commandOf rel with
  | none =>
    have lists : Lists [rel] loc ↔ fileLoc (joinPath getTermuxRoot rel) = loc := by
      simp [Lists, footprint, command]
    rw [lists, Volume.removeFile_find_iff noDir]
  | some cmd =>
    have lists : Lists [rel] loc ↔ fileLoc (joinPath getTermuxRoot rel) = loc ∨
        fileLoc (joinPath getApmBinDir cmd) = loc := by
      simp [Lists, footprint, command]
    rw [lists, Volume.removeFile_find_iff noDir, Volume.removeFile_find_iff noDir, and_assoc,
      ← not_or, ← and_or_left]

theorem removeAll_find_iff (manifest : List ByteString) (x : Option ByteString × Volume)
    (noDir : kind ≠ .dir) :
    (manifest.foldl (RemoveRetry.removeInstalledPath works) x).2.find loc = some kind ↔
      x.2.find loc = some kind ∧ ¬ (works loc = true ∧ Lists manifest loc) := by
  induction manifest generalizing x with
  | nil => simp [Lists]
  | cons rel rest ih =>
    have split : Lists (rel :: rest) loc ↔ Lists [rel] loc ∨ Lists rest loc := by simp [Lists]
    rw [List.foldl_cons, ih, removeInstalledPath_find_iff noDir, split, and_assoc, ← not_or,
      ← and_or_left]

/-- A removal deletes the package's own files. -/
theorem removeTermuxPackageFiles_find_iff {installRoot : ByteString} {v : Volume}
    (tidy : Tidy installRoot v) (found : v.find loc = some kind) (noDir : kind ≠ .dir) :
    (RemoveRetry.removeTermuxPackageFiles works installRoot v).2.find loc ≠ some kind ↔
      works loc = true ∧ Owns installRoot v loc := by
  unfold Owns
  cases read : RemoveRetry.readTermuxManifest installRoot v with
  | none =>
    rw [RemoveRetry.removeTermuxPackageFiles_of_none read]
    simp [found]
  | some manifest =>
    have tidy' : Tidy installRoot (RemoveRetry.withoutFiles works manifest v) :=
      RemoveRetry.withoutFiles_tidy manifest tidy
    rw [(RemoveRetry.removeTermuxPackageFiles_of_some read).2, Ne,
      Volume.removeDirRecursive_find_iff tidy'.closed tidy'.root noDir,
      RemoveRetry.withoutFiles, Volume.pruneEmptyDirs_find_iff noDir,
      RemoveRetry.removeInstalledTermuxPaths, removeAll_find_iff manifest (none, v) noDir]
    simp only [found, Option.some.injEq, exists_eq_left', true_and]
    rw [← not_or, not_not, and_or_left]

/-- A removal that does not come to the payload leaves the disk as it is. -/
theorem removePackage_volume {packageName : ByteString} {opts : RemoveOptions} {db : InstalledDb}
    {ip : InstalledPackage} {v : Volume} (recorded : db.lookup packageName = some ip)
    (stops : ¬ RemoveRetry.Starts packageName opts db ip) :
    (RemoveRetry.removePackage works packageName opts (db, v)).2.2 = v := by
  unfold RemoveRetry.removePackage
  split
  · rfl
  case isFalse filled =>
  split
  · rfl
  case h_2 valid =>
  dsimp only
  rw [recorded]
  dsimp only
  split
  · rfl
  case isFalse allowed =>
  exact absurd ⟨by simpa using filled, valid, recorded, by simpa using allowed⟩ stops

theorem removePackage_find_iff {packageName : ByteString} {opts : RemoveOptions} {db : InstalledDb}
    {ip : InstalledPackage} {v : Volume} (recorded : db.lookup packageName = some ip)
    (termux : ip.termuxPackage = true) (tidy : Tidy (rootOf packageName ip) v)
    (found : v.find loc = some kind) (noDir : kind ≠ .dir) :
    (RemoveRetry.removePackage works packageName opts (db, v)).2.2.find loc ≠ some kind ↔
      RemoveRetry.Starts packageName opts db ip ∧ works loc = true ∧
      Owns (rootOf packageName ip) v loc := by
  by_cases starts : RemoveRetry.Starts packageName opts db ip
  · rw [← removeTermuxPackageFiles_find_iff tidy found noDir,
      ← RemoveRetry.removePackagePayload_termux termux]
    cases payload : (RemoveRetry.removePackagePayload works
        (RemoveRetry.target packageName ip) v).1 with
    | none => simp [RemoveRetry.removePackage_of_none starts payload, starts]
    | some removeErr => simp [RemoveRetry.removePackage_of_some starts payload, starts]
  · simp [removePackage_volume recorded starts, found, starts]

end Removal

/-! ### What installs reach -/

/-- A file at the place may be gone or another one after the action. A rename replaces a file or
an empty directory. -/
def Alters (x : Touch) (loc : Loc ByteString) : Prop :=
  match x.action with
  | .create => False
  | .write | .unlink | .rename => fileLoc x.path = loc
  | .extract | .removeTree => Inside (fileLoc x.path) loc

/-- What belongs to a package that is being installed. -/
inductive Reached (dev : Unpacker) (tmpRoot installRoot : ByteString) : Loc ByteString → Prop
  /-- A file of the payload, or its wrapper. -/
  | payload {item : TreeItem} {loc : Loc ByteString} (mem : item ∈ dev.tree)
      (lists : Lists [item.rel] loc) : Reached dev tmpRoot installRoot loc
  /-- What the manifest of a stale root lists. -/
  | stale {n : Nat} {loc : Loc ByteString} (lists : Lists
      (((getlines (chr '\n') (dev.content n)).map dropCr).filter (!·.isEmpty)) loc) :
      Reached dev tmpRoot installRoot loc
  | root {loc : Loc ByteString} (inside : Inside (fileLoc installRoot) loc) :
      Reached dev tmpRoot installRoot loc
  | temporary {loc : Loc ByteString} (inside : Inside (fileLoc tmpRoot) loc) :
      Reached dev tmpRoot installRoot loc
  /-- A part of the archive. -/
  | archive {header : Deb.HeaderName} {part : Deb.Part} (mem : header ∈ dev.members)
      (found : Deb.partOf (joinPath tmpRoot (str "work")) header.1 = some part) :
      Reached dev tmpRoot installRoot (fileLoc part.path)
  | environment {path : ByteString}
      (mem : path ∈ [getTermuxEnvFile, getTermuxEnvFile ++ str ".tmp"]) :
      Reached dev tmpRoot installRoot (fileLoc path)

section Staying

variable {ε : Type} (dev : Unpacker) (tmpRoot installRoot : ByteString)

/-- The program alters nothing but what belongs to the package. -/
abbrev Staying {α : Type} (act : Act Trace ε α) : Prop :=
  Moves (Fs.Adds fun x => ∀ loc, Alters x loc → Reached dev tmpRoot installRoot loc) act

variable {tmpRoot installRoot}

theorem ask_staying : Staying dev tmpRoot installRoot (ask (ε := ε) dev.toSystem) := ask_adds _

theorem create_staying (home path : ByteString) :
    Staying dev tmpRoot installRoot (touch (ε := ε) dev.toSystem .create home path) :=
  touch_adds _ fun _ alters => nomatch alters

theorem unlink_staying {path : ByteString} (h : Reached dev tmpRoot installRoot (fileLoc path))
    (home : ByteString) :
    Staying dev tmpRoot installRoot (touch (ε := ε) dev.toSystem .unlink home path) := by
  apply touch_adds
  rintro _ rfl
  exact h

theorem write_staying {path : ByteString} (h : Reached dev tmpRoot installRoot (fileLoc path))
    (home : ByteString) :
    Staying dev tmpRoot installRoot (touch (ε := ε) dev.toSystem .write home path) := by
  apply touch_adds
  rintro _ rfl
  exact h

theorem writeAt_staying {path : ByteString} (h : Reached dev tmpRoot installRoot (fileLoc path))
    (home : ByteString) : Staying dev tmpRoot installRoot (writeAt (ε := ε) dev home path) :=
  (create_staying dev _ _).andAlso (write_staying dev h home)

theorem ensureDirectoryMode_staying (home path : ByteString) :
    Staying dev tmpRoot installRoot (ensureDirectoryMode (ε := ε) dev home path) :=
  (create_staying dev home path).andAlso (ask_staying dev)

theorem removeRoot_staying :
    Staying dev tmpRoot installRoot
      (touch (ε := ε) dev.toSystem .removeTree getInstalledDir installRoot) := by
  apply touch_adds
  intro loc inside
  exact .root inside

/-! ### Termux directories -/

theorem ensureTermuxRuntimeDirs_staying :
    Staying dev tmpRoot installRoot (ensureTermuxRuntimeDirs (ε := ε) dev) := by
  apply Moves.bind
  · apply Moves.forEach
    intro path _ ok
    exact (ensureDirectoryMode_staying dev _ path).bind fun _ => moves_pure _
  · intro ok
    exact (ensureDirectoryMode_staying dev _ _).bind fun _ => moves_pure _

theorem writeEnvFile_staying :
    Staying dev tmpRoot installRoot (writeAtomicFile (ε := ε) dev getTermuxEnvFile) := by
  have file : Reached dev tmpRoot installRoot (fileLoc getTermuxEnvFile) :=
    .environment (by simp)
  have tmp : Reached dev tmpRoot installRoot (fileLoc (getTermuxEnvFile ++ str ".tmp")) :=
    .environment (by simp)
  have renamed : Staying dev tmpRoot installRoot
      (touch (ε := ε) dev.toSystem .rename getInstalledDir getTermuxEnvFile) := by
    apply touch_adds
    rintro _ rfl
    exact file
  refine (create_staying dev _ _).bind fun _ => .ite (moves_pure _) ?_
  refine (writeAt_staying dev tmp _).bind fun _ => .ite (moves_pure _) ?_
  refine renamed.bind fun _ => .ite (moves_pure _) ?_
  exact (unlink_staying dev tmp _).bind fun _ => moves_pure _

theorem prepareTermux_staying :
    Staying dev tmpRoot installRoot (prepareTermux (ε := ε) dev) := by
  refine (ensureTermuxRuntimeDirs_staying dev).bind fun _ => .ite ?_ (moves_pure _)
  apply Moves.bind
  · apply Moves.forEach
    intro path _ ok
    exact (create_staying dev _ path).bind fun _ => moves_pure _
  · intro ok
    refine .ite (moves_pure _) ((ask_staying dev).bind fun _ => .ite (moves_pure _) ?_)
    exact (writeEnvFile_staying dev).bind fun _ => .ite (moves_pure _) (moves_pure _)

/-! ### Termux payloads -/

theorem fileLoc_treePath (dirs : List FileName) :
    fileLoc (treePath getTermuxPrefix dirs) =
      (dirs.map (·.text)).reverse ++ fileLoc getTermuxPrefix := by
  induction dirs using List.reverseRecOn with
  | nil => rfl
  | append_singleton dirs name ih =>
    have plain := (treePath_in dirs).plain
    have path : treePath getTermuxPrefix (dirs ++ [name]) =
        joinPath (treePath getTermuxPrefix dirs) name.text := List.foldl_append
    rw [path, name.plain.fileLoc plain.filled plain.noNul, ih, List.map_append,
      List.reverse_append]
    rfl

/-- A path of plain names goes down. -/
theorem pathSteps_names {names : List ByteString} (nonempty : names ≠ [])
    (plain : ∀ name ∈ names, PlainName name) :
    pathSteps ((str "/").intercalate names) = names.map .down := by
  have parts : ((str "/").intercalate names).splitOn (chr '/') = names := by
    apply List.splitOn_intercalate _ _ nonempty
    intro name mem
    exact (plain name mem).noSlash
  rw [pathSteps, parts]
  apply List.map_congr_left
  intro name mem
  exact (plain name mem).plain

theorem noNul_names {names : List ByteString} (plain : ∀ name ∈ names, PlainName name) :
    0 ∉ (str "/").intercalate names := by
  induction names with
  | nil => simp
  | cons name rest ih =>
    obtain ⟨first, others⟩ := List.forall_mem_cons.mp plain
    by_cases last : rest = []
    · subst last
      simpa using first.noNul
    · rw [List.intercalate_cons_of_ne_nil last]
      simp [first.noNul, ih others]
      decide

theorem lexical_names (loc : Loc ByteString) (names : List ByteString) :
    lexical loc (names.map .down) = names.reverse ++ loc := by
  induction names generalizing loc with
  | nil => rfl
  | cons name names ih =>
    have step : lexical loc ((name :: names).map .down) =
        lexical (name :: loc) (names.map .down) := rfl
    rw [step, ih, List.reverse_cons, List.append_assoc]
    rfl

/-- What is copied stands where the manifest says. -/
theorem fileLoc_rel (item : TreeItem) :
    fileLoc (joinPath (treePath getTermuxPrefix item.dirs) item.name.text) =
      fileLoc (joinPath getTermuxRoot item.rel) := by
  have dir := (treePath_in item.dirs).plain
  have names : ∀ name ∈ str "usr" :: (item.dirs ++ [item.name]).map (·.text),
      PlainName name := by
    intro name mem
    obtain rfl | mem := List.mem_cons.mp mem
    · decide
    · obtain ⟨part, -, rfl⟩ := List.mem_map.mp mem
      exact part.plain
  have rel : item.rel = str "usr" ++ str "/" ++
      (str "/").intercalate ((item.dirs ++ [item.name]).map (·.text)) :=
    List.intercalate_cons_of_ne_nil (by simp)
  have nonempty : item.rel ≠ [] := by
    rw [rel]
    simp [str]
  have relative : item.rel.head? ≠ some (chr '/') := by
    rw [rel]
    simp [str]
    decide
  rw [item.name.plain.fileLoc dir.filled dir.noNul, fileLoc_treePath,
    fileLoc_joinPath (by decide) nonempty relative (by decide),
    TreeItem.rel, cString_of_noNul (noNul_names names), pathSteps_names (by simp) names,
    lexical_names]
  have above : fileLoc getTermuxPrefix = str "usr" :: fileLoc getTermuxRoot := by decide
  simp [above]

theorem reached_item {item : TreeItem} (mem : item ∈ dev.tree) :
    Reached dev tmpRoot installRoot
      (fileLoc (joinPath (treePath getTermuxPrefix item.dirs) item.name.text)) := by
  rw [fileLoc_rel]
  apply Reached.payload mem
  exact ⟨_, List.mem_singleton_self _, _, List.mem_cons_self, rfl⟩

theorem reached_wrapper {item : TreeItem} {cmd : ByteString} (mem : item ∈ dev.tree)
    (command : commandOf item.rel = some cmd) :
    Reached dev tmpRoot installRoot (fileLoc (joinPath getApmBinDir cmd)) := by
  apply Reached.payload mem
  exact ⟨_, List.mem_singleton_self _, joinPath getApmBinDir cmd, by simp [footprint, command], rfl⟩

theorem copyItem_staying {item : TreeItem} (mem : item ∈ dev.tree) (x : Bool × List TreeItem) :
    Staying dev tmpRoot installRoot (copyItem (ε := ε) dev item x) := by
  have reached : Reached dev tmpRoot installRoot
      (fileLoc (joinPath (treePath getTermuxPrefix item.dirs) item.name.text)) :=
    reached_item dev mem
  have cleared := unlink_staying (ε := ε) dev reached getInstalledDir
  have written := write_staying (ε := ε) dev reached getInstalledDir
  unfold copyItem
  refine .ite (moves_pure _) ?_
  cases item.kind with
  | dir => exact (ensureDirectoryMode_staying dev _ _).bind fun _ => moves_pure _
  | link =>
    have link : Staying dev tmpRoot installRoot (copySymlink (ε := ε) dev
        (joinPath (treePath getTermuxPrefix item.dirs) item.name.text)) := by
      refine (ask_staying dev).bind fun _ => .ite (moves_pure _) ?_
      exact (create_staying dev _ _).bind fun _ => cleared.bind fun _ => written
    exact link.bind fun _ => moves_pure _
  | file =>
    have file : Staying dev tmpRoot installRoot (copyFilePreserveMode (ε := ε) dev
        (joinPath (treePath getTermuxPrefix item.dirs) item.name.text)) := by
      refine (ask_staying dev).bind fun _ => .ite (moves_pure _) ?_
      refine (create_staying dev _ _).bind fun _ => .ite (moves_pure _) ?_
      refine cleared.bind fun _ => written.bind fun _ => .ite (moves_pure _) ?_
      exact cleared.bind fun _ => moves_pure _
    exact file.bind fun _ => moves_pure _

/-- Only items of the payload are installed. -/
theorem copyItem_installed {item : TreeItem} (mem : item ∈ dev.tree) {x : Bool × List TreeItem}
    (h : ∀ y ∈ x.2, y ∈ dev.tree) (t : Trace) :
    wp (copyItem (ε := ε) dev item x) (fun x _ => ∀ y ∈ x.2, y ∈ dev.tree)
      (fun _ _ => True) t := by
  have more (ok : Bool) : ∀ y ∈ (if ok then x.2 ++ [item] else x.2), y ∈ dev.tree := by
    cases ok with
    | false => exact h
    | true => simpa [or_imp, forall_and] using ⟨h, mem⟩
  unfold copyItem
  refine wp_ite.mpr ⟨fun _ => h, fun _ => ?_⟩
  cases item.kind with
  | dir => exact wp_bind_of_forall (fun _ _ => h) fun _ _ => trivial
  | link => exact wp_bind_of_forall (fun ok _ => more ok) fun _ _ => trivial
  | file => exact wp_bind_of_forall (fun ok _ => more ok) fun _ _ => trivial

theorem copyTermuxTree_staying :
    Staying dev tmpRoot installRoot (copyTermuxTree (ε := ε) dev) := by
  refine (ensureDirectoryMode_staying dev _ _).bind fun _ => .ite ?_ (moves_pure _)
  exact Moves.forEach (fun item mem x => copyItem_staying dev mem x) _

theorem copyTermuxTree_installed (t : Trace) :
    wp (copyTermuxTree (ε := ε) dev) (fun x _ => ∀ y ∈ x.2, y ∈ dev.tree)
      (fun _ _ => True) t := by
  refine wp_bind_of_forall (fun ok t => wp_ite.mpr ⟨fun _ => ?_, fun _ => ?_⟩) fun _ _ => trivial
  · apply wp_forEach (fun (x : Bool × List TreeItem) _ => ∀ y ∈ x.2, y ∈ dev.tree)
    · intro item mem x t h
      exact copyItem_installed dev mem h t
    · simp
  · simp

theorem removeInstalledPath_staying {rel : ByteString}
    (reached : ∀ loc, Lists [rel] loc → Reached dev tmpRoot installRoot loc)
    (errorMsg : Option ByteString) :
    Staying dev tmpRoot installRoot (removeInstalledPath (ε := ε) dev rel errorMsg) := by
  have listed (path : ByteString) (mem : path ∈ footprint rel) :
      Reached dev tmpRoot installRoot (fileLoc path) :=
    reached _ ⟨rel, List.mem_singleton_self _, path, mem, rfl⟩
  refine (unlink_staying dev (listed _ List.mem_cons_self) _).bind fun _ => ?_
  refine (ask_staying dev).bind fun _ => ?_
  dsimp only
  split
  · exact moves_pure _
  case h_2 cmd command =>
    exact (unlink_staying dev (listed _ (by simp [footprint, command])) _).bind
      fun _ => moves_pure _

theorem rollbackTermuxInstall_staying {paths : List ByteString}
    (reached : ∀ loc, Lists paths loc → Reached dev tmpRoot installRoot loc) :
    Staying dev tmpRoot installRoot (rollbackTermuxInstall (ε := ε) dev installRoot paths) := by
  have removed : Staying dev tmpRoot installRoot
      (removeInstalledTermuxPaths (ε := ε) dev paths) := by
    apply Moves.forEach
    intro rel mem errorMsg
    apply removeInstalledPath_staying
    rintro loc ⟨_, one, path, listed, rfl⟩
    rw [List.mem_singleton.mp one] at listed
    exact reached _ ⟨rel, mem, path, listed, rfl⟩
  exact removed.bind fun _ => (removeRoot_staying dev).bind fun _ => moves_pure _

/-- What is copied may be removed again. -/
theorem lists_installed {items : List TreeItem} (installed : ∀ y ∈ items, y ∈ dev.tree)
    {loc : Loc ByteString} (lists : Lists (items.map TreeItem.rel) loc) :
    Reached dev tmpRoot installRoot loc := by
  obtain ⟨_, mem, path, listed, rfl⟩ := lists
  obtain ⟨item, copied, rfl⟩ := List.mem_map.mp mem
  exact .payload (installed item copied) ⟨_, List.mem_singleton_self _, path, listed, rfl⟩

theorem writeTermuxManifest_staying (filled : installRoot ≠ []) :
    Staying dev tmpRoot installRoot (writeTermuxManifest (ε := ε) dev installRoot) :=
  writeAt_staying dev (.root (PlainName.inside (by decide) filled)) _

theorem rewriteTermuxPaths_staying (filled : installRoot ≠ []) :
    Staying dev tmpRoot installRoot (rewriteTermuxPathsDuringExtraction dev installRoot) := by
  refine (ask_staying dev).bind fun _ => .ite (moves_throw _) ?_
  refine (prepareTermux_staying dev).bind fun err => ?_
  cases err with
  | some _ => exact moves_throw _
  | none =>
    refine (removeRoot_staying dev).bind fun _ => ?_
    refine (create_staying dev _ _).bind fun _ => .ite (moves_throw _) ?_
    refine (copyTermuxTree_staying dev).bind_of (copyTermuxTree_installed dev) ?_
    intro x installed
    have rollback : Staying dev tmpRoot installRoot
        (rollbackTermuxInstall (ε := ByteString) dev installRoot (x.2.map TreeItem.rel)) :=
      rollbackTermuxInstall_staying dev fun _ => lists_installed dev installed
    refine .ite (rollback.bind fun _ => moves_throw _) ?_
    refine (writeTermuxManifest_staying dev filled).bind fun _ => ?_
    exact .ite (rollback.bind fun _ => moves_throw _) (moves_pure _)

theorem rewriteTermuxPaths_installed (t : Trace) :
    wp (rewriteTermuxPathsDuringExtraction dev installRoot)
      (fun items _ => ∀ y ∈ items, y ∈ dev.tree) (fun _ _ => True) t := by
  unfold rewriteTermuxPathsDuringExtraction
  refine wp_bind_of_forall (fun _ _ => wp_ite.mpr ⟨fun _ => trivial, fun _ => ?_⟩)
    fun _ _ => trivial
  refine wp_bind_of_forall (fun err _ => ?_) fun _ _ => trivial
  cases err with
  | some _ => trivial
  | none =>
    refine wp_bind_of_forall (fun _ _ => ?_) fun _ _ => trivial
    refine wp_bind_of_forall (fun _ _ => wp_ite.mpr ⟨fun _ => trivial, fun _ => ?_⟩)
      fun _ _ => trivial
    refine wp_bind.mpr (wp_mono (copyTermuxTree_installed dev _) (fun x t installed => ?_)
      fun _ _ _ => trivial)
    refine wp_ite.mpr ⟨fun _ => ?_, fun _ => ?_⟩
    · exact wp_bind_of_forall (fun _ _ => trivial) fun _ _ => trivial
    · refine wp_bind_of_forall (fun _ _ => wp_ite.mpr ⟨fun _ => ?_, fun _ => installed⟩)
        fun _ _ => trivial
      exact wp_bind_of_forall (fun _ _ => trivial) fun _ _ => trivial

theorem createWrapper_staying {item : TreeItem} (mem : item ∈ dev.tree) (x : Unit) :
    Staying dev tmpRoot installRoot (createWrapper (ε := ε) dev item x) := by
  unfold createWrapper
  cases command : commandOf item.rel with
  | none => exact moves_pure _
  | some cmd =>
    refine (create_staying dev _ _).bind fun _ => .ite ?_ (moves_pure _)
    exact (writeAt_staying dev (reached_wrapper dev mem command) _).bind fun _ => moves_pure _

/-- A stale root's manifest is what the system answers. -/
theorem readTermuxManifest_answer (tmpRoot installRoot : ByteString) (t : Trace) :
    wp (readTermuxManifest (ε := ε) dev) (fun manifest _ => ∀ loc,
      Lists (manifest.getD []) loc → Reached dev tmpRoot installRoot loc) (fun _ _ => True) t := by
  refine wp_bind_of_forall (fun _ _ => wp_ite.mpr ⟨fun _ => ?_, fun _ => ?_⟩) fun _ _ => trivial
  · intro loc lists
    exact .stale lists
  · rintro loc ⟨_, mem, -⟩
    cases mem

theorem cleanupStaleTermuxInstallRoot_staying :
    Staying dev tmpRoot installRoot
      (cleanupStaleTermuxInstallRoot (ε := ε) dev installRoot) := by
  refine (ask_staying dev).bind fun _ => .ite (moves_pure _) ?_
  refine (ask_staying dev).bind fun _ => .ite (moves_pure _) ?_
  have manifest : Staying dev tmpRoot installRoot (readTermuxManifest (ε := ε) dev) :=
    (ask_staying dev).bind fun _ =>
      .ite ((askText_adds dev.toSystem).bind fun _ => moves_pure _) (moves_pure _)
  refine manifest.bind_of (readTermuxManifest_answer dev tmpRoot installRoot) ?_
  intro manifest reached
  refine (rollbackTermuxInstall_staying dev reached).bind fun _ => ?_
  exact (ask_staying dev).bind fun _ => .ite (moves_pure _) (moves_pure _)

/-! ### One package -/

theorem removeTmpRoot_staying :
    Staying dev tmpRoot installRoot (removeTmpRoot (ε := ε) dev tmpRoot) := by
  have removed : Staying dev tmpRoot installRoot
      (touch (ε := ε) dev.toSystem .removeTree getCacheDir tmpRoot) := by
    apply touch_adds
    intro loc inside
    exact .temporary inside
  exact removed.bind fun _ => moves_pure _

theorem giveUp_staying {α : Type} (message : ByteString) :
    Staying dev tmpRoot installRoot (giveUp (α := α) dev tmpRoot message) :=
  (removeTmpRoot_staying dev).bind fun _ => moves_throw _

theorem extractDebArchive_staying (debPath : ByteString) :
    Staying dev tmpRoot installRoot
      (extractDebArchive dev debPath (joinPath tmpRoot (str "work"))) := by
  refine (ask_staying dev).bind fun _ => .ite (moves_throw _) ?_
  refine (create_staying dev _ _).bind fun _ => .ite (moves_throw _) ?_
  apply Moves.bind
  · apply Moves.forEach
    intro header mem parts
    unfold extractMember
    cases found : Deb.partOf (joinPath tmpRoot (str "work")) header.1 with
    | none => exact moves_pure _
    | some part =>
      exact (write_staying dev (.archive mem found) _).bind
        fun _ => .ite (moves_pure _) (moves_throw _)
  · intro parts
    cases dev.debError with
    | none => exact moves_pure _
    | some _ => exact moves_throw _

theorem extractPart_staying {dir : ByteString} (inside : Inside (fileLoc tmpRoot) (fileLoc dir))
    (tarPath which : ByteString) :
    Staying dev tmpRoot installRoot (extractPart dev tmpRoot tarPath dir which) := by
  have extracted : Staying dev tmpRoot installRoot
      (touchOrFail dev.toSystem .extract getCacheDir dir) := by
    apply touchOrFail_adds
    intro loc below
    exact .temporary (inside.trans below)
  refine .ite (moves_pure _) (Moves.bind (.attempt extracted) fun r => ?_)
  cases r with
  | ok _ => exact moves_pure _
  | error _ => exact giveUp_staying dev _

theorem unpackDeb_staying (filled : tmpRoot ≠ []) (debPath : ByteString) :
    Staying dev tmpRoot installRoot
      (unpackDeb dev tmpRoot (joinPath tmpRoot (str "work")) debPath) := by
  have work : Inside (fileLoc tmpRoot) (fileLoc (joinPath tmpRoot (str "work"))) :=
    PlainName.inside (by decide) filled
  have workFilled : joinPath tmpRoot (str "work") ≠ [] := joinPath_filled (by decide)
  have inside {name : ByteString} (plain : PlainName name) :
      Inside (fileLoc tmpRoot) (fileLoc (joinPath (joinPath tmpRoot (str "work")) name)) :=
    work.trans (plain.inside workFilled)
  refine Moves.bind (.attempt (extractDebArchive_staying dev debPath)) fun r => ?_
  cases r with
  | error _ => exact giveUp_staying dev _
  | ok parts =>
    refine Moves.bind ((create_staying dev _ _).andAlso (create_staying dev _ _)) fun _ => ?_
    refine .ite (giveUp_staying dev _) ?_
    exact (extractPart_staying dev (inside (by decide)) _ _).bind
      fun _ => extractPart_staying dev (inside (by decide)) _ _

theorem prepareParent_staying :
    Staying dev tmpRoot installRoot (prepareParent dev tmpRoot installRoot) := by
  refine (create_staying dev _ _).bind fun _ => .ite (giveUp_staying dev _) ?_
  exact (create_staying dev _ _).bind fun _ => .ite (moves_pure _) (giveUp_staying dev _)

theorem clearRoot_staying (reinstall termuxMode : Bool) :
    Staying dev tmpRoot installRoot (clearRoot dev reinstall termuxMode tmpRoot installRoot) := by
  refine (ask_staying dev).bind fun _ => .ite (moves_pure _) (.ite ?_ ?_)
  · exact ((ask_staying dev).andAlso (removeRoot_staying dev)).bind fun _ => moves_pure _
  · have stale : Staying dev tmpRoot installRoot
        (clearStaleRoot (ε := ByteString) dev termuxMode installRoot) :=
      .ite (cleanupStaleTermuxInstallRoot_staying dev) (moves_pure _)
    refine stale.bind fun x => ?_
    exact ((moves_pure _).andAlso (ask_staying dev)).bind
      fun _ => .ite (giveUp_staying dev _) (moves_pure _)

theorem placeTree_staying (dataDir : ByteString) :
    Staying dev tmpRoot installRoot (placeTree dev tmpRoot dataDir installRoot) := by
  have renamed : Staying dev tmpRoot installRoot
      (touchOrFail dev.toSystem .rename getInstalledDir installRoot) := by
    apply touchOrFail_adds
    rintro _ rfl
    exact .root (List.suffix_refl _)
  refine Moves.bind (.attempt renamed) fun r => ?_
  cases r with
  | ok _ => exact removeTmpRoot_staying dev
  | error _ => exact giveUp_staying dev _

theorem placeTermux_staying (filled : installRoot ≠ []) :
    Staying dev tmpRoot installRoot (placeTermux dev tmpRoot installRoot) := by
  have post (t : Trace) : wp (attempt (rewriteTermuxPathsDuringExtraction dev installRoot) :
      Act Trace ByteString (Except ByteString (List TreeItem)))
      (fun r _ => ∀ items, r = .ok items → ∀ y ∈ items, y ∈ dev.tree) (fun _ _ => True) t := by
    rw [wp_attempt]
    apply wp_mono (rewriteTermuxPaths_installed dev t)
    · intro items _ installed _ same
      cases same
      exact installed
    · intro err _ _ _ same
      cases same
  refine Moves.bind_of (.attempt (rewriteTermuxPaths_staying dev filled)) post fun r installed => ?_
  cases r with
  | error _ => exact giveUp_staying dev _
  | ok items =>
    have wrappers : Staying dev tmpRoot installRoot
        (forEach (createWrapper (ε := ByteString) dev) items ()) := by
      apply Moves.forEach
      intro item mem x
      exact createWrapper_staying dev (installed items rfl item mem) x
    exact wrappers.bind fun _ => removeTmpRoot_staying dev

theorem placeEmpty_staying (filled : installRoot ≠ []) :
    Staying dev tmpRoot installRoot (placeEmpty dev tmpRoot installRoot) := by
  refine (ask_staying dev).bind fun _ => .ite (giveUp_staying dev _) ?_
  refine (ensureDirectoryMode_staying dev _ _).bind fun _ => .ite (giveUp_staying dev _) ?_
  refine (writeTermuxManifest_staying dev filled).bind fun _ => ?_
  refine .ite ?_ (removeTmpRoot_staying dev)
  exact (removeRoot_staying dev).bind fun _ => giveUp_staying dev _

theorem placePayload_staying (filled : installRoot ≠ []) (opts : InstallOptions)
    (dataDir : ByteString) :
    Staying dev tmpRoot installRoot (placePayload dev opts tmpRoot dataDir installRoot) := by
  refine (prepareParent_staying dev).bind fun _ => (ask_staying dev).bind fun _ => ?_
  refine (clearRoot_staying dev _ _).bind fun _ => ?_
  exact .ite (placeTree_staying dev _)
    (.ite (placeTermux_staying dev filled) (placeEmpty_staying dev filled))

/-- An install alters what belongs to the package. -/
theorem unpackPackage_staying (pkg : PackageEntry) (filled : installRoot ≠ [])
    (debPath : ByteString) (opts : InstallOptions) :
    Staying dev (joinPath getCacheDir (tmpName pkg)) installRoot
      (unpackPackage dev pkg debPath opts installRoot) := by
  have tmpFilled : joinPath getCacheDir (tmpName pkg) ≠ [] :=
    joinPath_filled (by simp [tmpName, str])
  unfold unpackPackage
  cases Security.validatePackageName pkg.packageName with
  | some _ => exact moves_throw _
  | none =>
    refine (create_staying dev _ _).bind fun _ => .ite (moves_throw _) ?_
    refine (create_staying dev _ _).bind fun _ => .ite (giveUp_staying dev _) ?_
    exact (unpackDeb_staying dev tmpFilled debPath).bind
      fun _ => placePayload_staying dev filled opts _

end Staying

/-! ### Other packages' files -/

open RemoveRetry (htopFile htopRoot manifestLoc)

def atop : InstalledPackage := { name := str "atop", termuxPackage := true }

def topDb : InstalledDb :=
  ((∅ : InstalledDb).insert (str "htop") htop).insert (str "atop") atop

def atopRoot : ByteString := joinPath getTermuxInstalledDir (str "atop")

/-- Both packages list the one file. -/
def topVolume : Volume where
  items := [⟨fileLoc htopFile, .file (str "elf")⟩,
      ⟨manifestLoc htopRoot, .file (str "usr/bin/htop\n")⟩,
      ⟨manifestLoc atopRoot, .file (str "usr/bin/htop\n")⟩] ++
    ((fileLoc htopFile).tail.tails ++ (fileLoc htopRoot).tails ++
      (fileLoc atopRoot).tails).dedup.map fun loc => ⟨loc, .dir⟩
  nodup := by decide +kernel

theorem atop_lists : ListedBy topDb topVolume (str "atop") (fileLoc htopFile) :=
  ⟨atop, [str "usr/bin/htop"], by decide, rfl, by decide +kernel, by decide +kernel⟩

theorem htop_owns : Owns htopRoot topVolume (fileLoc htopFile) :=
  ⟨[str "usr/bin/htop"], by decide +kernel, Or.inl (by decide +kernel)⟩

theorem topVolume_tidy : Tidy htopRoot topVolume := by
  refine ⟨?_, ?_, ?_⟩
  · rw [Volume.closed_iff_tails]
    decide +kernel
  · have found : topVolume.find (fileLoc htopRoot) = some .dir := by decide +kernel
    simp [found]
  · have found : topVolume.find (fileLoc (joinPath htopRoot (str "files.list"))) =
        some (.file (str "usr/bin/htop\n")) := by
      decide +kernel
    simp [found]

theorem topVolume_file : topVolume.find (fileLoc htopFile) = some (.file (str "elf")) := by
  decide +kernel

theorem htop_starts_again : RemoveRetry.Starts (str "htop") {} topDb htop :=
  ⟨by decide, by decide +kernel, by decide, by decide⟩

end Apm.Install.Ownership
