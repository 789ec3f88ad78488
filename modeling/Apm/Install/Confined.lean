import Apm.Install.Payload
import Apm.Lib.Text

/-!
Where a package is fetched and unpacked.

## Main results

* `package_confined_iff`: everything that `ensureDebForPackage` and `installSinglePackage`
  create, write, rename onto, extract into or remove as a tree lies in the directory it is
  meant for, if and only if the file name of the `.deb` and the name of the temporary
  directory, as relative paths, stay below their directories.
-/

namespace Apm.Install

open Apm.Repo Apm.Fs Apm.Config Apm.Lib.Effect Apm.Lib.Walk

variable {ε : Type} (dev : Unpacker)

/-- The program stays where it is meant to. -/
abbrev Confining {α : Type} (act : Act Trace ε α) : Prop := Moves (Fs.Adds Touch.Confined) act

theorem ask_confining : Confining (ask (ε := ε) dev.toSystem) := ask_adds _

theorem unlink_confining (home path : ByteString) :
    Confining (touch (ε := ε) dev.toSystem .unlink home path) := touch_adds _ trivial

theorem create_confining {home path : ByteString} (h : Reaches home path) :
    Confining (touch (ε := ε) dev.toSystem .create home path) := touch_adds _ h

theorem removeTree_confining {home path : ByteString} (h : Below (fileLoc home) (fileLoc path)) :
    Confining (touch (ε := ε) dev.toSystem .removeTree home path) := touch_adds _ h

theorem writeAt_confining {home path : ByteString} (h : FileIn home path) :
    Confining (writeAt (ε := ε) dev home path) :=
  (create_confining dev h.parent).andAlso (touch_adds _ h.below)

theorem ensureDirectoryMode_confining {home path : ByteString} (h : DirIn home path) :
    Confining (ensureDirectoryMode (ε := ε) dev home path) :=
  (create_confining dev h.toReaches).andAlso (ask_confining dev)

/-! ### Termux directories -/

theorem installedDir_in : DirIn getInstalledDir getInstalledDir :=
  dirIn_self (by decide) (by decide)

theorem pkgsDir_in : DirIn getPkgsDir getPkgsDir := dirIn_self (by decide) (by decide)

theorem cacheDir_in : DirIn getCacheDir getCacheDir := dirIn_self (by decide) (by decide)

theorem apmBinDir_in : DirIn getApmBinDir getApmBinDir := dirIn_self (by decide) (by decide)

theorem termuxRoot_in : DirIn getInstalledDir getTermuxRoot := by
  have path : getTermuxRoot = joinPath getInstalledDir (str "termux") := by decide
  rw [path]
  exact (installedDir_in.file (by decide)).dirIn

theorem termuxPrefix_in : DirIn getInstalledDir getTermuxPrefix := by
  have path : getTermuxPrefix = joinPath getTermuxRoot (str "usr") := by decide
  rw [path]
  exact (termuxRoot_in.file (by decide)).dirIn

theorem termuxInstalledDir_in : DirIn getInstalledDir getTermuxInstalledDir := by
  have path : getTermuxInstalledDir = joinPath getTermuxPrefix (str ".apm-installed") := by decide
  rw [path]
  exact (termuxPrefix_in.file (by decide)).dirIn

/-- A directory in the Termux root. -/
theorem termuxRoot_file {name : ByteString} (plain : PlainName name) :
    FileIn getInstalledDir (joinPath getTermuxRoot name) := termuxRoot_in.file plain

theorem termuxRuntimeDirs_in : ∀ path ∈ termuxRuntimeDirs, DirIn getInstalledDir path := by
  have rootNames : ∀ name ∈ rootSubdirs, PlainName name := by decide
  have prefixNames : ∀ name ∈ prefixSubdirs, PlainName name := by decide
  intro path mem
  rcases List.mem_append.mp mem with mem | mem
  · rcases List.mem_append.mp mem with mem | mem
    · simp only [List.mem_cons, List.not_mem_nil, or_false] at mem
      rcases mem with rfl | rfl | rfl
      · exact termuxRoot_in
      · exact termuxPrefix_in
      · exact termuxInstalledDir_in
    · obtain ⟨name, listed, rfl⟩ := List.mem_map.mp mem
      exact (termuxRoot_in.file (rootNames name listed)).dirIn
  · obtain ⟨name, listed, rfl⟩ := List.mem_map.mp mem
    exact (termuxPrefix_in.file (prefixNames name listed)).dirIn

theorem ensureTermuxRuntimeDirs_confining :
    Confining (ensureTermuxRuntimeDirs (ε := ε) dev) := by
  apply Moves.bind
  · apply Moves.forEach
    intro path mem ok
    exact (ensureDirectoryMode_confining dev (termuxRuntimeDirs_in path mem)).bind
      fun _ => moves_pure _
  · intro ok
    exact (ensureDirectoryMode_confining dev apmBinDir_in).bind fun _ => moves_pure _

theorem writeAtomicFile_confining {path : ByteString} (h : FileIn getInstalledDir path)
    (tmp : FileIn getInstalledDir (path ++ str ".tmp")) :
    Confining (writeAtomicFile (ε := ε) dev path) := by
  refine (create_confining dev h.parent).bind fun _ => .ite (moves_pure _) ?_
  refine (writeAt_confining dev tmp).bind fun _ => .ite (moves_pure _) ?_
  have renamed : Confining (touch (ε := ε) dev.toSystem .rename getInstalledDir path) :=
    touch_adds _ h.below
  exact renamed.bind fun _ => .ite (moves_pure _)
    ((unlink_confining dev _ _).bind fun _ => moves_pure _)

theorem ensureTermuxEnvFile_confining : Confining (ensureTermuxEnvFile (ε := ε) dev) := by
  have home : getTermuxHomeDir = joinPath getTermuxRoot (str "home") := by decide
  have tmp : getTermuxTmpDir = joinPath getTermuxRoot (str "tmp") := by decide
  have file : getTermuxEnvFile = joinPath getTermuxRoot (str "env.sh") := by decide
  have tmpFile : getTermuxEnvFile ++ str ".tmp" = joinPath getTermuxRoot (str "env.sh.tmp") := by
    decide
  apply Moves.bind
  · apply Moves.forEach
    intro path mem ok
    have inside : DirIn getInstalledDir path := by
      simp only [List.mem_cons, List.not_mem_nil, or_false] at mem
      rcases mem with rfl | rfl | rfl | rfl
      · exact termuxRoot_in
      · exact termuxPrefix_in
      · exact home ▸ (termuxRoot_file (by decide)).dirIn
      · exact tmp ▸ (termuxRoot_file (by decide)).dirIn
    exact (create_confining dev inside.toReaches).bind fun _ => moves_pure _
  · intro ok
    refine .ite (moves_pure _) ((ask_confining dev).bind fun _ => .ite (moves_pure _) ?_)
    have written : Confining (writeAtomicFile (ε := ε) dev getTermuxEnvFile) := by
      apply writeAtomicFile_confining
      · exact file ▸ termuxRoot_file (by decide)
      · exact tmpFile ▸ termuxRoot_file (by decide)
    exact written.bind fun _ => .ite (moves_pure _) (moves_pure _)

/-! ### Termux payloads -/

theorem treePath_in (dirs : List FileName) :
    DirIn getInstalledDir (treePath getTermuxPrefix dirs) := by
  induction dirs using List.reverseRecOn with
  | nil => exact termuxPrefix_in
  | append_singleton dirs name ih =>
    rw [treePath, List.foldl_append]
    exact (ih.file name.plain).dirIn

theorem copyItem_confining (item : TreeItem) (x : Bool × List TreeItem) :
    Confining (copyItem (ε := ε) dev item x) := by
  have dst := (treePath_in item.dirs).file item.name.plain
  unfold copyItem
  refine .ite (moves_pure _) ?_
  cases item.kind with
  | dir => exact (ensureDirectoryMode_confining dev dst.dirIn).bind fun _ => moves_pure _
  | link =>
    have link : Confining (copySymlink (ε := ε) dev
        (joinPath (treePath getTermuxPrefix item.dirs) item.name.text)) := by
      refine (ask_confining dev).bind fun _ => .ite (moves_pure _) ?_
      refine (create_confining dev dst.parent).bind fun _ => ?_
      exact (unlink_confining dev _ _).bind fun _ => touch_adds _ dst.below
    exact link.bind fun _ => moves_pure _
  | file =>
    have file : Confining (copyFilePreserveMode (ε := ε) dev
        (joinPath (treePath getTermuxPrefix item.dirs) item.name.text)) := by
      refine (ask_confining dev).bind fun _ => .ite (moves_pure _) ?_
      refine (create_confining dev dst.parent).bind fun _ => .ite (moves_pure _) ?_
      refine (unlink_confining dev _ _).bind fun _ => ?_
      have written : Confining (touch (ε := ε) dev.toSystem .write getInstalledDir _) :=
        touch_adds _ dst.below
      exact written.bind fun _ => .ite (moves_pure _)
        ((unlink_confining dev _ _).bind fun _ => moves_pure _)
    exact file.bind fun _ => moves_pure _

theorem copyTermuxTree_confining : Confining (copyTermuxTree (ε := ε) dev) := by
  refine (ensureDirectoryMode_confining dev termuxPrefix_in).bind fun _ => .ite ?_ (moves_pure _)
  exact Moves.forEach (fun item _ x => copyItem_confining dev item x) _

theorem removeInstalledPath_confining (rel : ByteString) (errorMsg : Option ByteString) :
    Confining (removeInstalledPath (ε := ε) dev rel errorMsg) := by
  refine (unlink_confining dev _ _).bind fun _ => (ask_confining dev).bind fun _ => ?_
  dsimp only
  split
  · exact moves_pure _
  · exact (unlink_confining dev _ _).bind fun _ => moves_pure _

section Root

variable {installRoot : ByteString}

theorem rollbackTermuxInstall_confining (root : FileIn getInstalledDir installRoot)
    (installedPaths : List ByteString) :
    Confining (rollbackTermuxInstall (ε := ε) dev installRoot installedPaths) := by
  have paths : Confining (removeInstalledTermuxPaths (ε := ε) dev installedPaths) :=
    Moves.forEach (fun rel _ errorMsg => removeInstalledPath_confining dev rel errorMsg) _
  exact paths.bind fun _ => (removeTree_confining dev root.below).bind fun _ => moves_pure _

theorem writeTermuxManifest_confining (root : FileIn getInstalledDir installRoot) :
    Confining (writeTermuxManifest (ε := ε) dev installRoot) :=
  writeAt_confining dev (root.dirIn.file (by decide))

/-- A command is a name of the tree. -/
theorem commandOf_plain {item : TreeItem} {cmd : ByteString} (h : commandOf item.rel = some cmd) :
    PlainName cmd := by
  unfold commandOf at h
  split at h
  · rename_i bin
    obtain ⟨rest, whole⟩ := List.isPrefixOf_iff_prefix.mp bin
    rw [← whole, List.drop_left] at h
    dsimp only at h
    split at h
    · cases h
    · rename_i command
      obtain rfl := Option.some.inj h
      rw [Bool.or_eq_true, not_or] at command
      have noSlash : chr '/' ∉ rest := by simpa using command.1
      have parts : (item.rel).splitOn (chr '/') =
          str "usr" :: (item.dirs ++ [item.name]).map (·.text) := by
        apply List.splitOn_intercalate
        · intro part mem
          rcases List.mem_cons.mp mem with rfl | mem
          · decide
          · obtain ⟨name, -, rfl⟩ := List.mem_map.mp mem
            exact name.plain.noSlash
        · exact List.cons_ne_nil _ _
      have split : (str "usr/bin/" ++ rest).splitOn (chr '/') =
          [str "usr", str "bin", rest] := by
        have text : str "usr/bin/" ++ rest =
            str "usr" ++ chr '/' :: (str "bin" ++ chr '/' :: rest) :=
          rfl
        rw [text, List.splitOn_append_cons_self_of_not_mem (by decide),
          List.splitOn_append_cons_self_of_not_mem (by decide), List.splitOn_eq_singleton noSlash]
      rw [← whole, split] at parts
      have last := congrArg List.getLast? parts
      simp only [List.map_append, List.map_cons, List.map_nil, List.getLast?_cons_cons,
        List.getLast?_singleton, ← List.cons_append, List.getLast?_concat,
        Option.some.injEq] at last
      exact last ▸ item.name.plain
  · cases h

theorem createWrapper_confining (item : TreeItem) (x : Unit) :
    Confining (createWrapper (ε := ε) dev item x) := by
  unfold createWrapper
  cases command : commandOf item.rel with
  | none => exact moves_pure _
  | some cmd =>
    refine (create_confining dev apmBinDir_in.toReaches).bind fun _ => .ite ?_ (moves_pure _)
    exact (writeAt_confining dev (apmBinDir_in.file (commandOf_plain command))).bind
      fun _ => moves_pure _

theorem prepareTermux_confining : Confining (prepareTermux (ε := ε) dev) :=
  (ensureTermuxRuntimeDirs_confining dev).bind fun _ =>
    .ite (ensureTermuxEnvFile_confining dev) (moves_pure _)

theorem rewriteTermuxPaths_confining (root : FileIn getInstalledDir installRoot) :
    Confining (rewriteTermuxPathsDuringExtraction dev installRoot) := by
  have rollback := rollbackTermuxInstall_confining (ε := ByteString) dev root
  refine (ask_confining dev).bind fun _ => .ite (moves_throw _) ?_
  refine (prepareTermux_confining dev).bind fun err => ?_
  cases err with
  | some _ => exact moves_throw _
  | none =>
    refine (removeTree_confining dev root.below).bind fun _ => ?_
    refine (create_confining dev root.toReaches).bind fun _ => .ite (moves_throw _) ?_
    refine (copyTermuxTree_confining dev).bind fun copied => ?_
    refine .ite ((rollback _).bind fun _ => moves_throw _) ?_
    refine (writeTermuxManifest_confining dev root).bind fun _ => ?_
    exact .ite ((rollback _).bind fun _ => moves_throw _) (moves_pure _)

theorem cleanupStaleTermuxInstallRoot_confining (root : FileIn getInstalledDir installRoot) :
    Confining (cleanupStaleTermuxInstallRoot (ε := ε) dev installRoot) := by
  refine (ask_confining dev).bind fun _ => .ite (moves_pure _) ?_
  refine (ask_confining dev).bind fun _ => .ite (moves_pure _) ?_
  have manifest : Confining (readTermuxManifest (ε := ε) dev) :=
    (ask_confining dev).bind fun _ =>
      .ite ((askText_adds dev.toSystem).bind fun _ => moves_pure _) (moves_pure _)
  refine manifest.bind fun _ => (rollbackTermuxInstall_confining dev root _).bind fun _ => ?_
  exact (ask_confining dev).bind fun _ => .ite (moves_pure _) (moves_pure _)

end Root

/-! ### The temporary directory -/

/-- A directory below the cache. -/
structure TempDir (path : ByteString) : Prop extends Reaches getCacheDir path where
  filled : path ≠ []
  below : Below (fileLoc getCacheDir) (fileLoc path)

theorem TempDir.file {dir name : ByteString} (h : TempDir dir) (plain : PlainName name) :
    TempDir (joinPath dir name) := by
  refine ⟨h.toReaches.file plain h.filled, ?_, h.below.of_inside (plain.inside h.filled)⟩
  obtain ⟨rest, whole⟩ := joinPath_starts h.filled plain.relative
  rw [← whole]
  exact List.append_ne_nil_of_left_ne_nil h.filled rest

/-- The rest of a short name climbs two levels at most, behind a step down. -/
theorem member_steps {base rest : ByteString} (long : 3 ≤ base.length) (noSlash : chr '/' ∉ base)
    (short : rest.length ≤ 8) :
    ∃ name steps, pathSteps (base ++ rest) = .down name :: steps ∧ steps.count .up ≤ 2 := by
  by_cases slash : chr '/' ∈ rest
  · obtain ⟨left, right, rfl, noSlash'⟩ := List.eq_append_cons_of_mem slash
    have first : chr '/' ∉ base ++ left := by simp [noSlash, noSlash']
    refine ⟨base ++ left, pathSteps right, ?_, ?_⟩
    · rw [← List.append_assoc, pathSteps_append_slash, pathSteps_component first,
        pathStep_of_length (by simp; omega), List.singleton_append]
    · have := count_up_le right
      rw [List.length_append, List.length_cons] at short
      omega
  · refine ⟨base ++ rest, [], ?_, Nat.zero_le 2⟩
    rw [pathSteps_component (by simp [noSlash, slash]), pathStep_of_length (by simp; omega)]

/-- A part of the archive is written below the temporary directory. -/
theorem member_below {tmpRoot base rest : ByteString} (tmp : TempDir tmpRoot)
    (long : 3 ≤ base.length) (noSlash : chr '/' ∉ base) (noNul : 0 ∉ base)
    (short : rest.length ≤ 8) :
    Below (fileLoc getCacheDir)
      (fileLoc (joinPath (joinPath tmpRoot (str "work")) (base ++ rest))) := by
  have work : PlainName (str "work") := by decide
  have filled : base ≠ [] := by
    rintro rfl
    exact absurd long (by decide)
  have nonempty : base ++ rest ≠ [] := List.append_ne_nil_of_left_ne_nil filled rest
  have relative : (base ++ rest).head? ≠ some (chr '/') := by
    rw [List.head?_append_of_ne_nil _ filled]
    exact fun first => noSlash (List.mem_of_head? first)
  have dir := tmp.file work
  apply tmp.below.of_inside
  by_cases nul : 0 ∈ tmpRoot
  · have nul' : 0 ∈ joinPath tmpRoot (str "work") := by
      obtain ⟨rest, whole⟩ := joinPath_starts tmp.filled work.relative
      exact whole ▸ List.mem_append_left rest nul
    rw [fileLoc_joinPath_of_nul dir.filled relative nul',
      fileLoc_joinPath_of_nul tmp.filled work.relative nul]
  · rw [fileLoc_joinPath dir.filled nonempty relative (work.noNul_joinPath tmp.filled nul),
      work.fileLoc tmp.filled nul, cString_append noNul]
    have shorter : (cString rest).length ≤ 8 :=
      (List.takeWhile_prefix _).length_le.trans short
    obtain ⟨name, steps, same, few⟩ := member_steps long noSlash shorter
    rw [same]
    have fewer : steps.count .up ≤ [name, str "work"].length := few
    exact inside_lexical_of_count fewer

theorem partOf_below {tmpRoot : ByteString} (tmp : TempDir tmpRoot) (header : Deb.HeaderName)
    {part : Deb.Part}
    (h : Deb.partOf (joinPath tmpRoot (str "work")) header.1 = some part) :
    Below (fileLoc getCacheDir) (fileLoc part.path) := by
  have short : (Deb.memberName header.1).length ≤ 16 := by
    have blanks := (List.rdropWhile_prefix (fun c => c == chr ' ' || c == chr '\n')
      header.1).length_le.trans_eq header.2
    unfold Deb.memberName
    dsimp only
    split
    · rw [List.length_dropLast]
      omega
    · exact blanks
  unfold Deb.partOf at h
  dsimp only at h
  split at h
  · rename_i control
    obtain ⟨rest, whole⟩ := List.isPrefixOf_iff_prefix.mp control
    cases h
    rw [Deb.Part.path, ← whole]
    rw [← whole, List.length_append] at short
    have : (str "control.tar").length = 11 := rfl
    exact member_below tmp (by decide) (by decide) (by decide) (by omega)
  split at h
  · rename_i data
    obtain ⟨rest, whole⟩ := List.isPrefixOf_iff_prefix.mp data
    cases h
    rw [Deb.Part.path, ← whole]
    rw [← whole, List.length_append] at short
    have : (str "data.tar").length = 8 := rfl
    exact member_below tmp (by decide) (by decide) (by decide) (by omega)
  · cases h

/-! ### One package -/

section Package

variable {tmpRoot installRoot : ByteString}

theorem removeTmpRoot_confining (tmp : TempDir tmpRoot) :
    Confining (removeTmpRoot (ε := ε) dev tmpRoot) :=
  (removeTree_confining dev tmp.below).bind fun _ => moves_pure _

theorem giveUp_confining {α : Type} (tmp : TempDir tmpRoot) (message : ByteString) :
    Confining (giveUp (α := α) dev tmpRoot message) :=
  (removeTmpRoot_confining dev tmp).bind fun _ => moves_throw _

theorem extractMember_confining (tmp : TempDir tmpRoot) (header : Deb.HeaderName)
    (parts : Deb.DebParts) :
    Confining (extractMember dev (joinPath tmpRoot (str "work")) header parts) := by
  unfold extractMember
  cases found : Deb.partOf (joinPath tmpRoot (str "work")) header.1 with
  | none => exact moves_pure _
  | some part =>
    have written : Confining (touch (ε := ByteString) dev.toSystem .write getCacheDir part.path) :=
      touch_adds _ (partOf_below tmp header found)
    exact written.bind fun _ => .ite (moves_pure _) (moves_throw _)

theorem extractDebArchive_confining (tmp : TempDir tmpRoot) (debPath : ByteString) :
    Confining (extractDebArchive dev debPath (joinPath tmpRoot (str "work"))) := by
  have work := tmp.file (by decide : PlainName (str "work"))
  refine (ask_confining dev).bind fun _ => .ite (moves_throw _) ?_
  refine (create_confining dev work.toReaches).bind fun _ => .ite (moves_throw _) ?_
  apply Moves.bind
  · exact Moves.forEach (fun header _ parts => extractMember_confining dev tmp header parts) _
  · intro parts
    cases dev.debError with
    | none => exact moves_pure _
    | some _ => exact moves_throw _

theorem extractPart_confining (tmp : TempDir tmpRoot) {dir : ByteString} (inside : TempDir dir)
    (tarPath which : ByteString) : Confining (extractPart dev tmpRoot tarPath dir which) := by
  refine .ite (moves_pure _) (Moves.bind (.attempt (touchOrFail_adds _ inside.below)) fun r => ?_)
  cases r with
  | ok _ => exact moves_pure _
  | error _ => exact giveUp_confining dev tmp _

theorem unpackDeb_confining (tmp : TempDir tmpRoot) (debPath : ByteString) :
    Confining (unpackDeb dev tmpRoot (joinPath tmpRoot (str "work")) debPath) := by
  have work := tmp.file (by decide : PlainName (str "work"))
  have control := work.file (by decide : PlainName (str "control"))
  have data := work.file (by decide : PlainName (str "data"))
  refine Moves.bind (.attempt (extractDebArchive_confining dev tmp debPath)) fun r => ?_
  cases r with
  | error _ => exact giveUp_confining dev tmp _
  | ok parts =>
    have dirs := (create_confining (ε := ByteString) dev control.toReaches).andAlso
      (create_confining dev data.toReaches)
    refine dirs.bind fun _ => .ite (giveUp_confining dev tmp _) ?_
    exact (extractPart_confining dev tmp control _ _).bind
      fun _ => extractPart_confining dev tmp data _ _

theorem prepareParent_confining (tmp : TempDir tmpRoot)
    (root : FileIn getInstalledDir installRoot) :
    Confining (prepareParent dev tmpRoot installRoot) := by
  refine (create_confining dev installedDir_in.toReaches).bind fun _ => ?_
  refine .ite (giveUp_confining dev tmp _) ((create_confining dev root.parent).bind fun _ => ?_)
  exact .ite (moves_pure _) (giveUp_confining dev tmp _)

theorem clearRoot_confining (tmp : TempDir tmpRoot) (root : FileIn getInstalledDir installRoot)
    (reinstall termuxMode : Bool) :
    Confining (clearRoot dev reinstall termuxMode tmpRoot installRoot) := by
  refine (ask_confining dev).bind fun _ => .ite (moves_pure _) (.ite ?_ ?_)
  · exact ((ask_confining dev).andAlso (removeTree_confining dev root.below)).bind
      fun _ => moves_pure _
  · have stale : Confining (clearStaleRoot (ε := ByteString) dev termuxMode installRoot) :=
      .ite (cleanupStaleTermuxInstallRoot_confining dev root) (moves_pure _)
    refine stale.bind fun x => ?_
    exact ((moves_pure _).andAlso (ask_confining dev)).bind
      fun _ => .ite (giveUp_confining dev tmp _) (moves_pure _)

theorem placeEmpty_confining (tmp : TempDir tmpRoot) (root : FileIn getInstalledDir installRoot) :
    Confining (placeEmpty dev tmpRoot installRoot) := by
  refine (ask_confining dev).bind fun _ => .ite (giveUp_confining dev tmp _) ?_
  refine (ensureDirectoryMode_confining dev root.dirIn).bind fun _ => ?_
  refine .ite (giveUp_confining dev tmp _)
    ((writeTermuxManifest_confining dev root).bind fun _ => ?_)
  refine .ite ?_ (removeTmpRoot_confining dev tmp)
  exact (removeTree_confining dev root.below).bind fun _ => giveUp_confining dev tmp _

theorem placeTermux_confining (tmp : TempDir tmpRoot) (root : FileIn getInstalledDir installRoot) :
    Confining (placeTermux dev tmpRoot installRoot) := by
  refine Moves.bind (.attempt (rewriteTermuxPaths_confining dev root)) fun r => ?_
  cases r with
  | error _ => exact giveUp_confining dev tmp _
  | ok installedPaths =>
    have wrappers : Confining (forEach (createWrapper (ε := ByteString) dev) installedPaths ()) :=
      Moves.forEach (fun item _ x => createWrapper_confining dev item x) ()
    exact wrappers.bind fun _ => removeTmpRoot_confining dev tmp

theorem placeTree_confining (tmp : TempDir tmpRoot) (root : FileIn getInstalledDir installRoot)
    (dataDir : ByteString) : Confining (placeTree dev tmpRoot dataDir installRoot) := by
  refine Moves.bind (.attempt (touchOrFail_adds _ root.below)) fun r => ?_
  cases r with
  | ok _ => exact removeTmpRoot_confining dev tmp
  | error _ => exact giveUp_confining dev tmp _

theorem placePayload_confining (tmp : TempDir tmpRoot) (root : FileIn getInstalledDir installRoot)
    (opts : InstallOptions) (dataDir : ByteString) :
    Confining (placePayload dev opts tmpRoot dataDir installRoot) := by
  refine (prepareParent_confining dev tmp root).bind fun _ => (ask_confining dev).bind fun _ => ?_
  refine (clearRoot_confining dev tmp root _ _).bind fun _ => ?_
  exact .ite (placeTree_confining dev tmp root _)
    (.ite (placeTermux_confining dev tmp root) (placeEmpty_confining dev tmp root))

/-- An install stays inside if its temporary directory does. -/
theorem unpackPackage_confining {pkg : PackageEntry}
    (tmp : TempDir (joinPath getCacheDir (tmpName pkg)))
    (root : FileIn getInstalledDir installRoot) (debPath : ByteString) (opts : InstallOptions) :
    Confining (unpackPackage dev pkg debPath opts installRoot) := by
  have work := tmp.file (by decide : PlainName (str "work"))
  unfold unpackPackage
  cases Security.validatePackageName pkg.packageName with
  | some _ => exact moves_throw _
  | none =>
    refine (create_confining dev tmp.toReaches).bind fun _ => .ite (moves_throw _) ?_
    refine (create_confining dev work.toReaches).bind fun _ => ?_
    refine .ite (giveUp_confining dev tmp _)
      ((unpackDeb_confining dev tmp debPath).bind fun _ => ?_)
    exact placePayload_confining dev tmp root opts _

/-- A fetch stays inside if the package's file does. -/
theorem fetchDeb_confining {pkg : PackageEntry}
    (file : pkg.filename ≠ [] ∧ (debUrl pkg).isSome →
      Reaches getPkgsDir (parentOf (joinPath getPkgsDir (makeDebFileName pkg))) ∧
        Below (fileLoc getPkgsDir) (fileLoc (joinPath getPkgsDir (makeDebFileName pkg))))
    (queue : Bool) : Confining (fetchDeb dev pkg queue) := by
  unfold fetchDeb
  cases Security.validatePackageName pkg.packageName with
  | some _ => exact moves_throw _
  | none =>
    refine (create_confining dev pkgsDir_in.toReaches).bind fun _ => .ite (moves_throw _) ?_
    refine (ask_confining dev).bind fun _ => .ite (moves_pure _) ?_
    by_cases filled : pkg.filename = []
    · rw [if_pos (by rw [filled]; rfl)]
      exact moves_throw _
    rw [if_neg (by simpa using filled)]
    refine (ask_confining dev).bind fun _ => .ite (moves_pure _) ?_
    cases url : debUrl pkg with
    | none => exact moves_throw _
    | some _ =>
      obtain ⟨parent, below⟩ := file ⟨filled, by rw [url]; rfl⟩
      have writes : Confining (touch (ε := ByteString) dev.toSystem .write getPkgsDir _) :=
        touch_adds _ below
      have written := (create_confining (ε := ByteString) dev parent).andAlso writes
      have fetched : Confining (downloadTo (ε := ByteString) dev getPkgsDir
          (joinPath getPkgsDir (makeDebFileName pkg))) := by
        refine written.bind fun _ => .ite (moves_pure _) ?_
        refine (ask_confining dev).bind fun _ => .ite (moves_pure _) ?_
        exact (unlink_confining dev _ _).bind fun _ => moves_pure _
      refine .ite (moves_pure _) (fetched.bind fun _ => .ite (moves_pure _) ?_)
      exact (askText_adds _).bind fun _ => moves_throw _

end Package

/-! ### Which packages stay inside -/

theorem plainName_of_valid {name : ByteString} (h : Security.validatePackageName name = none) :
    PlainName name := by
  obtain ⟨⟨first, head, letter⟩, letters⟩ := Security.validatePackageName_chars h
  obtain ⟨rest, rfl⟩ : ∃ rest, name = first :: rest := by
    cases name with
    | nil => cases head
    | cons c rest =>
      obtain rfl := Option.some.inj head
      exact ⟨rest, rfl⟩
  have notDot : first ≠ chr '.' := by
    rintro rfl
    exact absurd letter (by decide)
  have notDots : first :: rest ≠ str "." ∧ first :: rest ≠ str ".." :=
    ⟨fun same => notDot (List.cons.inj same).1, fun same => notDot (List.cons.inj same).1⟩
  have step : pathStep (first :: rest) = .down (first :: rest) := by
    simp [pathStep, notDots.1, notDots.2]
  exact ⟨step, fun mem => absurd (letters _ mem) (by decide),
    fun mem => absurd (letters _ mem) (by decide)⟩

/-- The root of a package with a valid name is below the installed directory. -/
theorem installRootOf_in {name : ByteString} (named : Security.validatePackageName name = none)
    (termuxMode : Bool) (rootPackage : ByteString) :
    FileIn getInstalledDir (installRootOf termuxMode rootPackage name) := by
  have plain := plainName_of_valid named
  have commands : getCommandsDir = joinPath getInstalledDir (str "commands") := by decide
  have dependencies : getDependenciesDir = joinPath getInstalledDir (str "dependencies") := by
    decide
  unfold installRootOf
  split
  · exact termuxInstalledDir_in.file plain
  · split
    · rw [dependencies]
      exact (installedDir_in.file (by decide)).dirIn.file plain
    · rw [commands]
      exact (installedDir_in.file (by decide)).dirIn.file plain

/-- Fetching the package acts inside the package directory only. -/
def EnsureConfined (pkg : PackageEntry) : Prop :=
  ∀ (dev : Unpacker) (queue : Bool),
    ∀ x ∈ (exec (fetchDeb dev pkg queue) {}).2.touched, x.Confined

/-- Unpacking the package acts inside the cache and the installed directory only. -/
def InstallConfined (pkg : PackageEntry) : Prop :=
  ∀ (dev : Unpacker) (debPath : ByteString) (opts : InstallOptions) (termuxMode : Bool)
    (rootPackage : ByteString),
    ∀ x ∈ (exec (unpackPackage dev pkg debPath opts
      (installRootOf termuxMode rootPackage pkg.packageName)) {}).2.touched, x.Confined

/-- A system on which nothing is there, and which does what is asked but for the actions at
some times. -/
def answering (ok : Nat → Bool) : Unpacker where
  ok := ok
  message := fun _ => []
  content := fun _ => []
  members := []
  debError := none
  tree := []

theorem ensureConfined_iff {pkg : PackageEntry}
    (named : Security.validatePackageName pkg.packageName = none) :
    EnsureConfined pkg ↔ (pkg.filename ≠ [] ∧ (debUrl pkg).isSome →
      Confines (fileLoc getPkgsDir) (pathSteps (cString (makeDebFileName pkg)))) := by
  have plain := plainName_of_valid named
  have nonempty : makeDebFileName pkg ≠ [] := by simp [makeDebFileName, str]
  have relative : (makeDebFileName pkg).head? ≠ some (chr '/') := by
    rw [makeDebFileName, List.append_assoc, List.append_assoc,
      List.head?_append_of_ne_nil _ plain.nonempty]
    exact plain.relative
  have slash : chr '/' ∈ joinPath getPkgsDir (makeDebFileName pkg) :=
    (joinPath_starts (by decide) relative).mem (by decide)
  have confines := reaches_below_iff pkgsDir_in nonempty relative
  constructor
  · rintro h ⟨filled, hasUrl⟩
    obtain ⟨url, hurl⟩ := Option.isSome_iff_exists.mp hasUrl
    have all := h (answering fun n => n == 0 || 3 ≤ n) false
    have touched : (exec (fetchDeb (answering fun n => n == 0 || 3 ≤ n) pkg false) {}).2.touched =
        [⟨.create, getPkgsDir, getPkgsDir⟩,
          ⟨.create, getPkgsDir, parentOf (joinPath getPkgsDir (makeDebFileName pkg))⟩,
          ⟨.write, getPkgsDir, joinPath getPkgsDir (makeDebFileName pkg)⟩] := by
      have nonempty : pkg.filename.isEmpty = false := by simpa using filled
      simp [fetchDeb, named, hurl, nonempty, downloadTo, writeAt, andAlso, touch, ask, exec_bind,
        answering]
    rw [touched] at all
    simp only [List.forall_mem_cons] at all
    obtain ⟨-, parent, below, -⟩ := all
    exact confines.mp ⟨(reaches_parentOf_iff slash below).mp parent, below⟩
  · intro h dev queue
    have fetch : Confining (fetchDeb dev pkg queue) := by
      apply fetchDeb_confining dev
      intro fetched
      obtain ⟨reaches, below⟩ := confines.mpr (h fetched)
      exact ⟨(reaches_parentOf_iff slash below).mpr reaches, below⟩
    exact Fs.Adds.all (fetch {})

theorem installConfined_iff {pkg : PackageEntry}
    (named : Security.validatePackageName pkg.packageName = none) :
    InstallConfined pkg ↔
      Confines (fileLoc getCacheDir) (pathSteps (cString (tmpName pkg))) := by
  have nonempty : tmpName pkg ≠ [] := by simp [tmpName, str]
  have relative : (tmpName pkg).head? ≠ some (chr '/') := by
    simp [tmpName, str, chr]
  have confines := reaches_below_iff cacheDir_in nonempty relative
  constructor
  · intro h
    have all := h (answering (· == 0)) [] {} false []
    have touched : ∀ root, (exec (unpackPackage (answering (· == 0)) pkg [] {} root) {}).2.touched =
        [⟨.create, getCacheDir, joinPath getCacheDir (tmpName pkg)⟩,
          ⟨.create, getCacheDir,
            joinPath (joinPath getCacheDir (tmpName pkg)) (str "work")⟩,
          ⟨.removeTree, getCacheDir, joinPath getCacheDir (tmpName pkg)⟩] := by
      intro root
      simp [unpackPackage, named, giveUp, removeTmpRoot, touch, exec_bind, answering]
    rw [touched] at all
    simp only [List.forall_mem_cons] at all
    obtain ⟨created, -, removed, -⟩ := all
    exact confines.mp ⟨created, removed⟩
  · intro h dev debPath opts termuxMode rootPackage
    obtain ⟨reaches, below⟩ := confines.mpr h
    have filled : joinPath getCacheDir (tmpName pkg) ≠ [] := by
      have cache : getCacheDir ≠ [] := by decide
      obtain ⟨rest, whole⟩ := joinPath_starts cache relative
      exact whole ▸ List.append_ne_nil_of_left_ne_nil cache rest
    have tmp : TempDir (joinPath getCacheDir (tmpName pkg)) := ⟨reaches, filled, below⟩
    have root := installRootOf_in named termuxMode rootPackage
    exact Fs.Adds.all (unpackPackage_confining dev tmp root debPath opts {})

/-- **A package with a valid name acts inside its directories** if and only if the file name
of its `.deb`, when it is downloaded, and the name of its temporary directory stay below the
directory they are joined to. -/
theorem package_confined_iff (pkg : PackageEntry)
    (named : Security.validatePackageName pkg.packageName = none) :
    (EnsureConfined pkg ∧ InstallConfined pkg) ↔
      (pkg.filename ≠ [] ∧ (debUrl pkg).isSome →
        Confines (fileLoc getPkgsDir) (pathSteps (cString (makeDebFileName pkg)))) ∧
      Confines (fileLoc getCacheDir) (pathSteps (cString (tmpName pkg))) := by
  rw [ensureConfined_iff named, installConfined_iff named]

def nano : PackageEntry where
  packageName := str "nano"
  version := str "7.2"
  architecture := str "arm64"
  filename := str "pool/nano.deb"
  repoUri := str "https://repo"

theorem package_confined_nano : EnsureConfined nano ∧ InstallConfined nano := by
  apply (package_confined_iff nano (by decide)).mpr
  have deb : pathSteps (cString (makeDebFileName nano)) = [.down (str "nano_7.2_arm64.deb")] := by
    decide
  have tmp : pathSteps (cString (tmpName nano)) = [.down (str "apm-install-nano-7.2")] := by decide
  rw [deb, tmp]
  exact ⟨fun _ => confines_name _ _, confines_name _ _⟩

/-- A version with steps up: the temporary directory is `/system`, and it is removed. -/
theorem climbing_version_removes_system :
    Security.validatePackageName (str "a") = none ∧
      ∃ x ∈ (exec (unpackPackage (answering (· == 0))
          { packageName := str "a", version := str "1/../../../../system" } (str "a.deb") {}
          (installRootOf false (str "a") (str "a"))) {}).2.touched,
        x.action = .removeTree ∧ fileLoc x.path = [str "system"] ∧ ¬ x.Confined := by
  refine ⟨by decide, ⟨.removeTree, getCacheDir,
    str "/data/apm/cache/apm-install-a-1/../../../../system"⟩, by decide, rfl, by decide, ?_⟩
  rintro ⟨names, -, same⟩
  have length := congrArg List.length same
  have short : (fileLoc (str "/data/apm/cache/apm-install-a-1/../../../../system")).length = 1 := by
    decide
  have long : (fileLoc getCacheDir).length = 3 := by decide
  dsimp only at length
  rw [List.length_append, long, short] at length
  omega

end Apm.Install
