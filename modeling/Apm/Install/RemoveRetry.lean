import Apm.Install.Payload
import Apm.Install.Remove
import Apm.Util.Volume

/-!
`removePackage` of `src/apmd/install_manager.cpp` over a disk on which some files cannot be
deleted, and a second `removePackage` on the disk that the first one leaves.

Status writes work.

## Main results

* `retry_cleans_iff`: after a removal that failed at the payload, a second one in which nothing
  fails leaves nothing of the package if and only if it is a Debian package, or the first one
  could not delete the manifest and no directory is in a listed path's place.
-/

namespace Apm.Install.RemoveRetry

open Apm.Repo Apm.Fs Apm.Config Apm.Lib.Walk Apm.Status

/-! ### Removing a payload -/

/-- `readTermuxManifest`. -/
def readTermuxManifest (installRoot : ByteString) (v : Volume) : Option (List ByteString) :=
  (v.readFile (joinPath installRoot (str "files.list"))).map fun content =>
    ((getlines (chr '\n') content).map dropCr).filter (!·.isEmpty)

section Deletions

variable (works : Loc ByteString → Bool)

/-- Remove a path of a manifest, and its wrapper. -/
def removeInstalledPath (x : Option ByteString × Volume) (rel : ByteString) :
    Option ByteString × Volume :=
  let full := joinPath getTermuxRoot rel
  let (gone, v) := x.2.removeFile works full
  let errorMsg := if !gone && v.pathExists full then
    x.1.or (some (str "Failed to remove Termux payload path: " ++ full)) else x.1
  match commandOf rel with
  | none => (errorMsg, v)
  | some cmd =>
      let (gone, v) := v.removeFile works (joinPath getApmBinDir cmd)
      (if gone then errorMsg
        else errorMsg.or (some (str "Failed to remove Termux wrapper: " ++ cmd)), v)

/-- `removeInstalledTermuxPaths`: why some path could not be removed, if one could not. -/
def removeInstalledTermuxPaths (paths : List ByteString) (v : Volume) :
    Option ByteString × Volume :=
  paths.foldl (removeInstalledPath works) (none, v)

/-- `removeTermuxPackageFiles`. The metadata goes even where a payload file stays. -/
def removeTermuxPackageFiles (installRoot : ByteString) (v : Volume) :
    Option ByteString × Volume :=
  match readTermuxManifest installRoot v with
  | none => (some (str "Missing Termux package manifest at " ++ installRoot), v)
  | some manifest =>
      let (removeErr, v) := removeInstalledTermuxPaths works manifest v
      let v := v.pruneEmptyDirs works (joinPath getTermuxRoot (str "usr"))
      let (gone, v) := v.removeDirRecursive works installRoot
      (if gone then removeErr
        else removeErr.or (some (str "Failed to remove Termux install metadata: " ++ installRoot)),
        v)

/-- `removeNonTermuxPackageTree`. -/
def removeNonTermuxPackageTree (installRoot : ByteString) (v : Volume) :
    Option ByteString × Volume :=
  if installRoot.isEmpty then (some (str "Install root is empty"), v)
  else if !v.pathExists installRoot then (none, v)
  else
    let (gone, v) := v.removeDirRecursive works installRoot
    (if gone && !v.pathExists installRoot then none
      else some (str "Failed to remove install root: " ++ installRoot), v)

/-- `removePackagePayload`: why it fails, if it does. -/
def removePackagePayload (ip : InstalledPackage) (v : Volume) : Option ByteString × Volume :=
  if ip.termuxPackage then removeTermuxPackageFiles works ip.installRoot v
  else removeNonTermuxPackageTree works ip.installRoot v

/-! ### Removing a package -/

inductive Outcome where
  | refused (message : ByteString)
  | notInstalled (message : ByteString)
  | removed (message : ByteString)
  /-- The entry is back in the status file. -/
  | payloadStays (message : ByteString)

/-- `removePackage`. -/
def removePackage (packageName : ByteString) (opts : RemoveOptions) (x : InstalledDb × Volume) :
    Outcome × InstalledDb × Volume :=
  if packageName.isEmpty then (.refused (str "Package name is empty"), x)
  else
    match Security.validatePackageName packageName with
    | some nameErr => (.refused nameErr, x)
    | none =>
        match x.1.lookup packageName with
        | none => (.notInstalled (str "Package '" ++ packageName ++ str "' is not installed"), x)
        | some ip =>
            let dependents := dependentsOf x.1 packageName ip.termuxPackage
            if !opts.force && !dependents.isEmpty then
              (.refused (requiredByMessage packageName dependents), x)
            else
              match removePackagePayload works { ip with installRoot := rootOf packageName ip }
                x.2 with
              | (none, v) =>
                  (.removed (str "Removed package: " ++ packageName), x.1.erase packageName, v)
              | (some removeErr, v) =>
                  (.payloadStays (if removeErr.isEmpty then str "Failed to remove package payload"
                    else removeErr), x.1, v)

end Deletions

/-! ### What a removal deletes -/

/-- The paths that a path of a manifest stands for: its file, and its wrapper. -/
def footprint (rel : ByteString) : List ByteString :=
  joinPath getTermuxRoot rel :: (commandOf rel).toList.map (joinPath getApmBinDir)

/-- No directory stands in a file's or a wrapper's place. -/
def NoDirs (manifest : List ByteString) (v : Volume) : Prop :=
  ∀ rel ∈ manifest, ∀ path ∈ footprint rel, v.find (fileLoc path) ≠ some .dir

instance (manifest : List ByteString) (v : Volume) : Decidable (NoDirs manifest v) :=
  inferInstanceAs (Decidable (∀ rel ∈ manifest, _))

/-- Neither the listed files and wrappers nor anything at or below the root is left. -/
structure Clean (installRoot : ByteString) (manifest : List ByteString) (v : Volume) : Prop where
  root : ∀ loc, Inside (fileLoc installRoot) loc → v.find loc = none
  listed : ∀ rel ∈ manifest, ∀ path ∈ footprint rel, v.find (fileLoc path) = none

/-- Items are in directories, and neither the root nor its manifest is a link. -/
structure Tidy (installRoot : ByteString) (v : Volume) : Prop where
  closed : v.Closed
  root : ∀ target, v.find (fileLoc installRoot) ≠ some (.link target)
  manifest : ∀ target,
    v.find (fileLoc (joinPath installRoot (str "files.list"))) ≠ some (.link target)

section Files

variable {works : Loc ByteString → Bool} {x : Option ByteString × Volume} {rel : ByteString}

theorem removeInstalledPath_filesGo :
    Volume.FilesGo works x.2 (removeInstalledPath works x rel).2 := by
  unfold removeInstalledPath
  dsimp only
  split
  · exact Volume.removeFile_filesGo
  · exact Volume.removeFile_filesGo.trans Volume.removeFile_filesGo

theorem removeAll_filesGo (paths : List ByteString) (x : Option ByteString × Volume) :
    Volume.FilesGo works x.2 (paths.foldl (removeInstalledPath works) x).2 := by
  apply List.foldlRecOn
    (motive := fun (y : Option ByteString × Volume) => Volume.FilesGo works x.2 y.2)
  · exact Volume.FilesGo.refl works x.2
  · intro y h rel _
    exact h.trans removeInstalledPath_filesGo

theorem NoDirs.of_filesGo {manifest : List ByteString} {v v' : Volume} (h : NoDirs manifest v)
    (go : Volume.FilesGo works v v') : NoDirs manifest v' := by
  intro rel mem path listed
  rw [Ne, go.find_dir]
  exact h rel mem path listed

/-- Where nothing fails, only a directory is in the way. -/
theorem blocked_eq (all : ∀ loc, works loc = true) (v : Volume) (path : ByteString) :
    (!(v.removeFile works path).1 && (v.removeFile works path).2.pathExists path) =
      decide (v.find (fileLoc path) = some .dir) := by
  rw [Volume.removeFile_all all]
  by_cases isDir : v.find (fileLoc path) = some .dir
  · have stays : (v.removeFile works path).2.find (fileLoc path) = some .dir :=
      Volume.removeFile_filesGo.find_dir.mpr isDir
    have there := Volume.pathExists_of_find stays (by simp [stays])
    simp [isDir, there]
  · simp [isDir]

theorem noDirs_single {v : Volume} : NoDirs [rel] v ↔
    v.find (fileLoc (joinPath getTermuxRoot rel)) ≠ some .dir ∧
    ∀ cmd, commandOf rel = some cmd →
      v.find (fileLoc (joinPath getApmBinDir cmd)) ≠ some .dir := by
  simp [NoDirs, footprint]

theorem removeInstalledPath_none (all : ∀ loc, works loc = true) :
    (removeInstalledPath works x rel).1 = none ↔ x.1 = none ∧ NoDirs [rel] x.2 := by
  rw [noDirs_single]
  unfold removeInstalledPath
  dsimp only
  rw [blocked_eq all]
  by_cases isDir : x.2.find (fileLoc (joinPath getTermuxRoot rel)) = some .dir
  · cases commandOf rel <;> simp [isDir]
  · cases command : commandOf rel with
    | none => simp [isDir]
    | some cmd =>
      have wrapper := Volume.removeFile_all all (joinPath getApmBinDir cmd)
        (x.2.removeFile works (joinPath getTermuxRoot rel)).2
      simp only [Volume.removeFile_filesGo.find_dir] at wrapper
      by_cases blocked : x.2.find (fileLoc (joinPath getApmBinDir cmd)) = some .dir
      · simp [isDir, wrapper, blocked]
      · simp [isDir, wrapper, blocked]

/-- What is removed without an error is gone. -/
theorem removeInstalledPath_gone (all : ∀ loc, works loc = true)
    (noDirs : NoDirs [rel] x.2) {path : ByteString} (mem : path ∈ footprint rel) :
    (removeInstalledPath works x rel).2.find (fileLoc path) = none := by
  have full := (noDirs_single.mp noDirs).1
  have removed : (x.2.removeFile works (joinPath getTermuxRoot rel)).2.find
      (fileLoc (joinPath getTermuxRoot rel)) = none := by
    apply Volume.removeFile_gone
    rw [Volume.removeFile_all all]
    simpa using full
  unfold removeInstalledPath
  unfold footprint at mem
  dsimp only
  cases command : commandOf rel with
  | none =>
    have same : path = joinPath getTermuxRoot rel := by simpa [command] using mem
    rw [same]
    exact removed
  | some cmd =>
    obtain rfl | rfl : path = joinPath getTermuxRoot rel ∨ path = joinPath getApmBinDir cmd := by
      simpa [command] using mem
    · exact Volume.removeFile_shrinks.none removed
    · apply Volume.removeFile_gone
      rw [Volume.removeFile_all all]
      simpa [Volume.removeFile_filesGo.find_dir] using (noDirs_single.mp noDirs).2 cmd command

theorem removeAll_none (all : ∀ loc, works loc = true) (paths : List ByteString)
    (x : Option ByteString × Volume) :
    (paths.foldl (removeInstalledPath works) x).1 = none ↔ x.1 = none ∧ NoDirs paths x.2 := by
  induction paths generalizing x with
  | nil => simp [NoDirs]
  | cons rel rest ih =>
    rw [List.foldl_cons, ih, removeInstalledPath_none all]
    have later : NoDirs rest (removeInstalledPath works x rel).2 ↔ NoDirs rest x.2 := by
      unfold NoDirs
      simp only [Ne, removeInstalledPath_filesGo.find_dir]
    rw [later]
    simp [NoDirs, and_assoc]

theorem removeAll_gone (all : ∀ loc, works loc = true) (paths : List ByteString)
    (x : Option ByteString × Volume) (noDirs : NoDirs paths x.2) :
    ∀ rel ∈ paths, ∀ path ∈ footprint rel,
      (paths.foldl (removeInstalledPath works) x).2.find (fileLoc path) = none := by
  induction paths generalizing x with
  | nil => simp
  | cons first rest ih =>
    intro rel mem path listed
    rw [List.foldl_cons]
    obtain rfl | mem := List.mem_cons.mp mem
    · apply (removeAll_filesGo rest _).shrinks.none
      apply removeInstalledPath_gone all _ listed
      intro rel' mem'
      exact noDirs rel' (by simpa using Or.inl (List.mem_singleton.mp mem'))
    · apply ih _ _ rel mem path listed
      intro rel' mem'
      have later : NoDirs (first :: rest) (removeInstalledPath works x first).2 :=
        noDirs.of_filesGo removeInstalledPath_filesGo
      exact later rel' (List.mem_cons_of_mem _ mem')

end Files

/-! ### One removal of a payload -/

section Payload

variable {works : Loc ByteString → Bool} {installRoot : ByteString} {v : Volume}

/-- Where the manifest is. -/
def manifestLoc (installRoot : ByteString) : Loc ByteString :=
  fileLoc (joinPath installRoot (str "files.list"))

/-- Without a manifest nothing is done. -/
theorem removeTermuxPackageFiles_of_none (absent : readTermuxManifest installRoot v = none) :
    removeTermuxPackageFiles works installRoot v =
      (some (str "Missing Termux package manifest at " ++ installRoot), v) := by
  unfold removeTermuxPackageFiles
  rw [absent]

/-- The disk before the root goes. -/
def withoutFiles (works : Loc ByteString → Bool) (manifest : List ByteString) (v : Volume) :
    Volume :=
  (removeInstalledTermuxPaths works manifest v).2.pruneEmptyDirs works
    (joinPath getTermuxRoot (str "usr"))

theorem withoutFiles_shrinks (manifest : List ByteString) :
    Volume.Shrinks v (withoutFiles works manifest v) :=
  (removeAll_filesGo manifest (none, v)).shrinks.trans Volume.pruneEmptyDirs_shrinks

theorem withoutFiles_tidy (manifest : List ByteString) (tidy : Tidy installRoot v) :
    Tidy installRoot (withoutFiles works manifest v) where
  closed := ((removeAll_filesGo manifest (none, v)).closed tidy.closed).pruneEmptyDirs
  root target found := tidy.root target (withoutFiles_shrinks manifest _ _ found)
  manifest target found := tidy.manifest target (withoutFiles_shrinks manifest _ _ found)

theorem removeTermuxPackageFiles_of_some {manifest : List ByteString}
    (read : readTermuxManifest installRoot v = some manifest) :
    ((removeTermuxPackageFiles works installRoot v).1 = none ↔
      (removeInstalledTermuxPaths works manifest v).1 = none ∧
      ((withoutFiles works manifest v).removeDirRecursive works installRoot).1 = true) ∧
    (removeTermuxPackageFiles works installRoot v).2 =
      ((withoutFiles works manifest v).removeDirRecursive works installRoot).2 := by
  unfold removeTermuxPackageFiles
  rw [read]
  constructor
  · dsimp only
    rw [← withoutFiles]
    cases ((withoutFiles works manifest v).removeDirRecursive works installRoot).1 with
    | false => simp
    | true => simp
  · rfl

theorem removeTermuxPackageFiles_shrinks :
    Volume.Shrinks v (removeTermuxPackageFiles works installRoot v).2 := by
  cases read : readTermuxManifest installRoot v with
  | none =>
    rw [removeTermuxPackageFiles_of_none read]
    exact Volume.Shrinks.refl v
  | some manifest =>
    rw [(removeTermuxPackageFiles_of_some read).2]
    exact (withoutFiles_shrinks manifest).trans Volume.removeDirRecursive_shrinks

theorem removeTermuxPackageFiles_tidy (tidy : Tidy installRoot v) :
    Tidy installRoot (removeTermuxPackageFiles works installRoot v).2 := by
  refine ⟨?_, fun target found => tidy.root target (removeTermuxPackageFiles_shrinks _ _ found),
    fun target found => tidy.manifest target (removeTermuxPackageFiles_shrinks _ _ found)⟩
  cases read : readTermuxManifest installRoot v with
  | none =>
    rw [removeTermuxPackageFiles_of_none read]
    exact tidy.closed
  | some manifest =>
    rw [(removeTermuxPackageFiles_of_some read).2]
    exact (withoutFiles_tidy manifest tidy).closed.removeDirRecursive

/-- Where nothing fails, a Termux payload goes unless a directory is in the way. -/
theorem removeTermuxPackageFiles_all {manifest : List ByteString} (all : ∀ loc, works loc = true)
    (tidy : Tidy installRoot v) (read : readTermuxManifest installRoot v = some manifest) :
    (removeTermuxPackageFiles works installRoot v).1 = none ↔ NoDirs manifest v := by
  have tidy' : Tidy installRoot (withoutFiles works manifest v) := withoutFiles_tidy manifest tidy
  have rootGone := Volume.removeDirRecursive_all tidy'.closed tidy'.root all (List.suffix_refl _)
  rw [(removeTermuxPackageFiles_of_some read).1,
    Volume.removeDirRecursive_fst tidy'.closed tidy'.root, rootGone]
  unfold removeInstalledTermuxPaths
  rw [removeAll_none all]
  simp

theorem removeTermuxPackageFiles_clean {manifest : List ByteString}
    (all : ∀ loc, works loc = true) (tidy : Tidy installRoot v)
    (read : readTermuxManifest installRoot v = some manifest) (noDirs : NoDirs manifest v) :
    Clean installRoot manifest (removeTermuxPackageFiles works installRoot v).2 := by
  have tidy' : Tidy installRoot (withoutFiles works manifest v) := withoutFiles_tidy manifest tidy
  rw [(removeTermuxPackageFiles_of_some read).2]
  constructor
  · intro loc inside
    exact Volume.removeDirRecursive_all tidy'.closed tidy'.root all inside
  · intro rel mem path listed
    apply Volume.removeDirRecursive_shrinks.none
    apply Volume.pruneEmptyDirs_shrinks.none
    exact removeAll_gone all manifest (none, v) noDirs rel mem path listed

/-! ### The manifest after a removal -/

theorem readTermuxManifest_of_file {text : ByteString}
    (found : v.find (manifestLoc installRoot) = some (.file text)) :
    readTermuxManifest installRoot v =
      some (((getlines (chr '\n') text).map dropCr).filter (!·.isEmpty)) := by
  unfold manifestLoc at found
  simp [readTermuxManifest, Volume.readFile, Volume.resolve, found]

theorem find_manifest_of_read {manifest : List ByteString} (tidy : Tidy installRoot v)
    (read : readTermuxManifest installRoot v = some manifest) :
    ∃ text, v.find (manifestLoc installRoot) = some (.file text) := by
  have noLink := tidy.manifest
  unfold readTermuxManifest Volume.readFile Volume.resolve at read
  unfold manifestLoc
  cases found : v.find (fileLoc (joinPath installRoot (str "files.list"))) with
  | none => simp [found] at read
  | some kind =>
    cases kind with
    | file text => exact ⟨text, rfl⟩
    | link target => exact absurd found (noLink target)
    | dir => simp [found] at read

/-- The manifest stays if it cannot be deleted. -/
theorem removeTermuxPackageFiles_manifest {manifest : List ByteString}
    (works : Loc ByteString → Bool) (filled : installRoot ≠ []) (tidy : Tidy installRoot v)
    (read : readTermuxManifest installRoot v = some manifest) :
    readTermuxManifest installRoot (removeTermuxPackageFiles works installRoot v).2 =
      if works (manifestLoc installRoot) then none else some manifest := by
  obtain ⟨text, found⟩ := find_manifest_of_read tidy read
  have inside : Inside (fileLoc installRoot) (manifestLoc installRoot) :=
    PlainName.inside (by decide) filled
  cases deletable : works (manifestLoc installRoot) with
  | false =>
    have stays : (removeTermuxPackageFiles works installRoot v).2.find (manifestLoc installRoot) =
        some (.file text) := by
      rw [(removeTermuxPackageFiles_of_some read).2]
      apply Volume.removeDirRecursive_find _ deletable
      apply Volume.pruneEmptyDirs_find _ (by simp)
      exact (removeAll_filesGo manifest (none, v)).stays _ _ found (Or.inl deletable)
    rw [readTermuxManifest_of_file found] at read
    rw [readTermuxManifest_of_file stays, read]
    rfl
  | true =>
    rw [if_pos rfl, Option.eq_none_iff_forall_ne_some]
    intro manifest' read'
    have tidy' : Tidy installRoot (withoutFiles works manifest v) :=
      withoutFiles_tidy manifest tidy
    obtain ⟨text', left⟩ := find_manifest_of_read (removeTermuxPackageFiles_tidy tidy) read'
    rw [(removeTermuxPackageFiles_of_some read).2] at left
    obtain ⟨y, mem, below, fails⟩ :=
      Volume.removeDirRecursive_gone tidy'.closed tidy'.root inside left
    have there := Volume.removeDirRecursive_shrinks _ _ left
    obtain same | isDir := tidy'.closed.find_above (Volume.find_eq_some.mpr mem) below
    · rw [← same, deletable] at fails
      cases fails
    · rw [isDir] at there
      cases there

/-! ### Debian payloads -/

theorem removeNonTermuxPackageTree_tidy (tidy : Tidy installRoot v) :
    Tidy installRoot (removeNonTermuxPackageTree works installRoot v).2 := by
  unfold removeNonTermuxPackageTree
  split
  · exact tidy
  split
  · exact tidy
  · have shrinks : Volume.Shrinks v (v.removeDirRecursive works installRoot).2 :=
      Volume.removeDirRecursive_shrinks
    constructor
    · exact tidy.closed.removeDirRecursive
    · intro target found
      exact tidy.root target (shrinks _ _ found)
    · intro target found
      exact tidy.manifest target (shrinks _ _ found)

/-- Where nothing fails, a Debian payload goes. -/
theorem removeNonTermuxPackageTree_all (all : ∀ loc, works loc = true) (filled : installRoot ≠ [])
    (tidy : Tidy installRoot v) :
    (removeNonTermuxPackageTree works installRoot v).1 = none ∧
      Clean installRoot [] (removeNonTermuxPackageTree works installRoot v).2 := by
  unfold removeNonTermuxPackageTree
  rw [if_neg (by simpa using filled)]
  split
  case isTrue absent =>
    refine ⟨rfl, fun loc inside => ?_, by simp⟩
    exact tidy.closed.find_none tidy.root (by simpa using absent) inside
  case isFalse =>
    have gone (loc : Loc ByteString) (inside : Inside (fileLoc installRoot) loc) :
        (v.removeDirRecursive works installRoot).2.find loc = none :=
      Volume.removeDirRecursive_all tidy.closed tidy.root all inside
    have rootGone := gone _ (List.suffix_refl _)
    have absent := Volume.pathExists_of_none rootGone
    refine ⟨?_, gone, by simp⟩
    dsimp only
    rw [Volume.removeDirRecursive_fst tidy.closed tidy.root, rootGone, absent]
    rfl

end Payload

/-! ### Two removals -/

section Retry

variable {works : Loc ByteString → Bool} {packageName message : ByteString} {opts : RemoveOptions}
  {db db' : InstalledDb} {ip : InstalledPackage} {v v' : Volume}

/-- A removal that comes to the payload. -/
structure Starts (packageName : ByteString) (opts : RemoveOptions) (db : InstalledDb)
    (ip : InstalledPackage) : Prop where
  filled : packageName.isEmpty = false
  valid : Security.validatePackageName packageName = none
  recorded : db.lookup packageName = some ip
  allowed : (!opts.force && !(dependentsOf db packageName ip.termuxPackage).isEmpty) = false

/-- The record that the payload is removed by. -/
def target (packageName : ByteString) (ip : InstalledPackage) : InstalledPackage :=
  { ip with installRoot := rootOf packageName ip }

theorem removePackage_of_none (starts : Starts packageName opts db ip)
    (h : (removePackagePayload works (target packageName ip) v).1 = none) :
    removePackage works packageName opts (db, v) =
      (.removed (str "Removed package: " ++ packageName), db.erase packageName,
        (removePackagePayload works (target packageName ip) v).2) := by
  unfold removePackage
  rw [starts.filled, starts.valid]
  dsimp only
  rw [starts.recorded]
  dsimp only
  rw [starts.allowed, ← target]
  cases payload : removePackagePayload works (target packageName ip) v with
  | mk err left =>
    rw [payload] at h
    subst h
    rfl

theorem removePackage_of_some {removeErr : ByteString} (starts : Starts packageName opts db ip)
    (h : (removePackagePayload works (target packageName ip) v).1 = some removeErr) :
    removePackage works packageName opts (db, v) =
      (.payloadStays (if removeErr.isEmpty then str "Failed to remove package payload"
        else removeErr), db, (removePackagePayload works (target packageName ip) v).2) := by
  unfold removePackage
  rw [starts.filled, starts.valid]
  dsimp only
  rw [starts.recorded]
  dsimp only
  rw [starts.allowed, ← target]
  cases payload : removePackagePayload works (target packageName ip) v with
  | mk err left =>
    rw [payload] at h
    subst h
    rfl

theorem starts_of_stays (recorded : db.lookup packageName = some ip)
    (failed : removePackage works packageName opts (db, v) = (.payloadStays message, db', v')) :
    Starts packageName opts db ip := by
  unfold removePackage at failed
  split at failed
  · cases failed
  case isFalse filled =>
  split at failed
  · cases failed
  case h_2 valid =>
  dsimp only at failed
  rw [recorded] at failed
  dsimp only at failed
  split at failed
  · cases failed
  case isFalse allowed =>
  exact ⟨by simpa using filled, valid, recorded, by simpa using allowed⟩

/-- What a removal that fails at the payload leaves. -/
theorem removePackage_stays (recorded : db.lookup packageName = some ip)
    (failed : removePackage works packageName opts (db, v) = (.payloadStays message, db', v')) :
    Starts packageName opts db ip ∧ db' = db ∧
      (removePackagePayload works (target packageName ip) v).1 ≠ none ∧
      v' = (removePackagePayload works (target packageName ip) v).2 := by
  have starts := starts_of_stays recorded failed
  refine ⟨starts, ?_⟩
  cases payload : (removePackagePayload works (target packageName ip) v).1 with
  | none =>
    rw [removePackage_of_none starts payload] at failed
    cases failed
  | some removeErr =>
    rw [removePackage_of_some starts payload] at failed
    cases failed
    simp

/-- Removed again with nothing failing: the removal works, and nothing of what the package had
at first is left. -/
def RetryCleans (packageName : ByteString) (opts : RemoveOptions) (ip : InstalledPackage)
    (v : Volume) (x : InstalledDb × Volume) : Prop :=
  ∃ message db'' v'', removePackage (fun _ => true) packageName opts x =
      (.removed message, db'', v'') ∧
    Clean (rootOf packageName ip)
      (if ip.termuxPackage then (readTermuxManifest (rootOf packageName ip) v).getD [] else []) v''

theorem rootOf_filled (filled : packageName.isEmpty = false) : rootOf packageName ip ≠ [] := by
  have nonempty : packageName ≠ [] := by simpa using filled
  unfold rootOf
  split
  case isFalse given => simpa using given
  case isTrue => exact joinPath_filled nonempty

theorem removePackagePayload_debian (debian : ip.termuxPackage = false) :
    removePackagePayload works (target packageName ip) v =
      removeNonTermuxPackageTree works (rootOf packageName ip) v :=
  if_neg (by simp [target, debian])

theorem removePackagePayload_termux (termux : ip.termuxPackage = true) :
    removePackagePayload works (target packageName ip) v =
      removeTermuxPackageFiles works (rootOf packageName ip) v :=
  if_pos termux

/-- A Debian package goes when nothing fails. -/
theorem retryCleans_debian (starts : Starts packageName opts db ip)
    (debian : ip.termuxPackage = false) (tidy : Tidy (rootOf packageName ip) v') :
    RetryCleans packageName opts ip v (db, v') := by
  have all (loc : Loc ByteString) : (fun _ => true) loc = true := rfl
  obtain ⟨gone, clean⟩ :=
    removeNonTermuxPackageTree_all all (rootOf_filled starts.filled) tidy
  rw [← removePackagePayload_debian debian] at gone clean
  refine ⟨_, _, _, removePackage_of_none starts gone, ?_⟩
  rw [if_neg (by simp [debian])]
  exact clean

/-- A Termux package goes when nothing fails if it has a manifest, and nothing is in the way. -/
theorem retryCleans_termux {manifest : List ByteString} (starts : Starts packageName opts db ip)
    (termux : ip.termuxPackage = true) (tidy : Tidy (rootOf packageName ip) v')
    (read : readTermuxManifest (rootOf packageName ip) v = some manifest)
    (read' : readTermuxManifest (rootOf packageName ip) v' = some manifest) :
    RetryCleans packageName opts ip v (db, v') ↔ NoDirs manifest v' := by
  have all (loc : Loc ByteString) : (fun _ => true) loc = true := rfl
  have removes := removeTermuxPackageFiles_all all tidy read'
  rw [← removePackagePayload_termux termux] at removes
  constructor
  · rintro ⟨_, _, _, removed, -⟩
    rw [← removes]
    by_contra stays
    obtain ⟨removeErr, fails⟩ := Option.ne_none_iff_exists'.mp stays
    rw [removePackage_of_some starts fails] at removed
    cases removed
  · intro noDirs
    refine ⟨_, _, _, removePackage_of_none starts (removes.mpr noDirs), ?_⟩
    rw [if_pos termux, read, removePackagePayload_termux termux]
    exact removeTermuxPackageFiles_clean all tidy read' noDirs

/-- Without its manifest a Termux package cannot be removed. -/
theorem not_retryCleans (starts : Starts packageName opts db ip)
    (termux : ip.termuxPackage = true)
    (absent : readTermuxManifest (rootOf packageName ip) v' = none) :
    ¬ RetryCleans packageName opts ip v (db, v') := by
  rintro ⟨_, _, _, removed, -⟩
  have fails : (removePackagePayload (fun _ => true) (target packageName ip) v').1 =
      some (str "Missing Termux package manifest at " ++ rootOf packageName ip) := by
    rw [removePackagePayload_termux termux, removeTermuxPackageFiles_of_none absent]
  rw [removePackage_of_some starts fails] at removed
  cases removed

/-- **A Debian package can be removed again. A Termux package can if the manifest could not be
deleted, and no directory is in a listed path's place.** -/
theorem retry_cleans_iff (recorded : db.lookup packageName = some ip)
    (tidy : Tidy (rootOf packageName ip) v)
    (failed : removePackage works packageName opts (db, v) = (.payloadStays message, db', v')) :
    RetryCleans packageName opts ip v (db', v') ↔
      ip.termuxPackage = false ∨
      ∃ manifest, readTermuxManifest (rootOf packageName ip) v = some manifest ∧
        works (manifestLoc (rootOf packageName ip)) = false ∧ NoDirs manifest v' := by
  obtain ⟨starts, rfl, -, rfl⟩ := removePackage_stays recorded failed
  cases flavour : ip.termuxPackage with
  | false =>
    rw [removePackagePayload_debian flavour]
    simp only [true_or, iff_true]
    exact retryCleans_debian starts flavour (removeNonTermuxPackageTree_tidy tidy)
  | true =>
    rw [removePackagePayload_termux flavour]
    have tidy' : Tidy (rootOf packageName ip)
        (removeTermuxPackageFiles works (rootOf packageName ip) v).2 :=
      removeTermuxPackageFiles_tidy tidy
    cases read : readTermuxManifest (rootOf packageName ip) v with
    | none =>
      have fails : ¬ RetryCleans packageName opts ip v (db', v) :=
        not_retryCleans starts flavour read
      simp [removeTermuxPackageFiles_of_none read, fails]
    | some manifest =>
      have left := removeTermuxPackageFiles_manifest works (rootOf_filled starts.filled) tidy read
      cases deletable : works (manifestLoc (rootOf packageName ip)) with
      | true =>
        rw [deletable, if_pos rfl] at left
        have fails := not_retryCleans (v := v) starts flavour left
        simp only [fails, false_iff]
        simp
      | false =>
        rw [deletable, if_neg (by simp)] at left
        rw [retryCleans_termux starts flavour tidy' read left]
        simp

end Retry

/-! ### A file that cannot be deleted -/

def htop : InstalledPackage := { name := str "htop", termuxPackage := true }

def htopDb : InstalledDb := (∅ : InstalledDb).insert (str "htop") htop

def htopRoot : ByteString := joinPath getTermuxInstalledDir (str "htop")

def htopFile : ByteString := joinPath getTermuxRoot (str "usr/bin/htop")

/-- The package's one file, its manifest, and the directories above them. -/
def htopVolume : Volume where
  items := [⟨fileLoc htopFile, .file (str "elf")⟩,
      ⟨manifestLoc htopRoot, .file (str "usr/bin/htop\n")⟩] ++
    ((fileLoc htopFile).tail.tails ++ (fileLoc htopRoot).tails).dedup.map fun loc => ⟨loc, .dir⟩
  nodup := by decide +kernel

theorem htop_starts : Starts (str "htop") {} htopDb htop :=
  ⟨by decide, by decide +kernel, by decide, by decide⟩

theorem htopVolume_tidy : Tidy (rootOf (str "htop") htop) htopVolume := by
  refine ⟨?_, ?_, ?_⟩
  · rw [Volume.closed_iff_tails]
    decide +kernel
  · have found : htopVolume.find (fileLoc (rootOf (str "htop") htop)) = some .dir := by
      decide +kernel
    simp [found]
  · have found : htopVolume.find (fileLoc (joinPath (rootOf (str "htop") htop)
        (str "files.list"))) = some (.file (str "usr/bin/htop\n")) := by
      decide +kernel
    simp [found]

/-- What a removal leaves while these places cannot be deleted. -/
def htopLeft (fails : List (Loc ByteString)) : Volume :=
  (removePackagePayload (fun loc => !fails.contains loc) (target (str "htop") htop) htopVolume).2

/-- The file and the manifest stay: both go when nothing fails. -/
theorem retry_cleans_iff_htop :
    RetryCleans (str "htop") {} htop htopVolume
      (htopDb, htopLeft [fileLoc htopFile, manifestLoc htopRoot]) := by
  have fails : (removePackagePayload (fun loc => !([fileLoc htopFile,
      manifestLoc htopRoot].contains loc)) (target (str "htop") htop) htopVolume).1 =
      some (str "Failed to remove Termux payload path: " ++ htopFile) := by
    decide +kernel
  have failed := removePackage_of_some htop_starts fails
  rw [htopLeft, retry_cleans_iff rfl htopVolume_tidy failed]
  right
  refine ⟨[str "usr/bin/htop"], ?_, ?_, ?_⟩ <;> decide +kernel

/-- Only the file stays: the first removal takes the manifest away, and the second one asks for
it. -/
theorem manifest_lost :
    (∃ message, removePackage (fun loc => !([fileLoc htopFile].contains loc)) (str "htop") {}
      (htopDb, htopVolume) = (.payloadStays message, htopDb, htopLeft [fileLoc htopFile])) ∧
    ¬ RetryCleans (str "htop") {} htop htopVolume (htopDb, htopLeft [fileLoc htopFile]) := by
  have fails : (removePackagePayload (fun loc => !([fileLoc htopFile].contains loc))
      (target (str "htop") htop) htopVolume).1 =
      some (str "Failed to remove Termux payload path: " ++ htopFile) := by
    decide +kernel
  constructor
  · exact ⟨_, removePackage_of_some htop_starts fails⟩
  · apply not_retryCleans htop_starts rfl
    decide +kernel

end Apm.Install.RemoveRetry
