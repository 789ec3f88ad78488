import Apm.Ams.ModuleRegistry

/-!
The calls of the manager of modules do to the registry what they are for, where the files are read
and written and the scripts leave alone what the manager reads (`Calm`).

## Main results

* `enableModule_agrees`, `disableModule_agrees`, `removeModule_agrees`, `installFromZip_agrees`: a
  call answers what the registry does, and leaves the directory that holds it.
-/

namespace Apm.Ams.Store

open Apm.Fs Apm.Config Apm.Lib Apm.Lib.Effect
open Apm.Ams.FromZip (Step addDir workDirs addState stateBlocked infoName stateName free
  installScript hasScript)
open Apm.Lib.FileTree (Entry)

/-! ### What a call does to the registry -/

section Calls

variable {h : Host} {m : Manager} {r : Registry} {name : ByteString} {mod : Mod}

theorem change_spec {ε : Type} {step : Step} (works : h.zip.works step = true)
    (act : Option Tree → Option Tree) (m : Manager) :
    wp (change h step name act : Act Manager ε Bool)
      (fun ok m' => ok = true ∧ m' = m.set name (act (m.modules.lookup name)))
      (fun _ _ => False) m := by
  refine ⟨works, ?_⟩
  change m.set name (h.zip.after step act _) = _
  unfold FromZip.Host.after
  rw [if_pos works]

theorem writeState_spec (calm : Calm h) (step : Step) (filing : Filing step)
    (state : ModuleState) {t : Tree} (there : m.modules.lookup name = some t)
    (unblocked : stateBlocked (some t) = false) :
    wp (writeState h step name state)
      (fun state' m' =>
        state' = { state with updatedAt := makeIsoTimestamp (h.zip.now step) } ∧
          m' = m.set name (some (t.writeFile stateName (stateText state'))))
      (fun _ _ => False) m := by
  refine wp_bind.mpr (wp_update.mpr (wp_ite.mpr ⟨fun blocked => ?_, fun _ => ?_⟩))
  · rw [there, unblocked] at blocked
    cases blocked
  refine wp_bind.mpr (wp_mono (change_spec (calm.works step filing) _ m) ?_ fun _ _ h => h)
  rintro _ m' ⟨rfl, rfl⟩
  rw [there]
  exact ⟨rfl, rfl⟩

theorem applyOrRecord_agrees (calm : Calm h) (refines : Refines m r) (mod : Mod)
    (found : r.mods name = some mod) :
    Agrees (applyOrRecord h 0 name mod.state) m (r.applyOrRecord h name mod) := by
  apply wp_bind.mpr
  rw [wp_attempt]
  apply wp_mono (rebuildOverlays_spec refines calm.reads (h.rebuild 0))
  · rintro _ m' ⟨none, rebuilt⟩
    unfold Registry.applyOrRecord
    rw [none]
    exact ⟨rfl, rebuilt⟩
  · rintro err m' ⟨failed, rebuilt⟩
    unfold Registry.applyOrRecord
    rw [failed]
    have kept : (r.rebuild (h.rebuild 0)).mods name = some mod := found
    obtain ⟨t, there, holds⟩ := rebuilt.lookup kept
    apply wp_bind.mpr
    rw [wp_attempt]
    apply wp_mono (writeState_spec calm .record trivial { mod.state with lastError := err }
      there holds.ready.unblocked) ?_ fun _ _ h => h.elim
    rintro _ m'' ⟨rfl, rfl⟩
    have back := holds.readsBack
    exact ⟨rfl, rebuilt.apart.set_state holds.ready ⟨back.installed, back.dated,
      unquoted_makeIsoTimestamp (h.zip.now .record), calm.errors 0 err failed⟩⟩

end Calls

section Switching

variable {h : Host} {m : Manager} {r : Registry} {name : ByteString} {mod : Mod}

theorem load_spec (refines : Refines m r) (reads : ∀ path, h.reads path = true) :
    wp (load h name)
      (fun loaded m' => m' = m ∧ ∃ mod, r.mods name = some mod ∧ loaded = (mod.info, mod.state))
      (fun err m' => m' = m ∧ r.mods name = none ∧ err = str "Module not found: " ++ name) m := by
  refine wp_bind.mpr (wp_update.mpr ?_)
  rw [refines.loadModule reads]
  cases r.mods name with
  | none => exact ⟨rfl, rfl, rfl⟩
  | some mod => exact ⟨rfl, mod, rfl, rfl⟩

/-- Scripts leave the modules as the registry has them. -/
theorem runLifecycleScripts_spec {ε : Type} (calm : Calm h) (refines : Refines m r)
    (there : (r.mods name).isSome) (info : ModuleInfo) :
    wp (runLifecycleScripts h info name : Act Manager ε Unit) (fun _ m' => Refines m' r)
      (fun _ _ => False) m := by
  refine wp_ite.mpr ⟨fun _ => ?_, fun _ => refines⟩
  obtain ⟨mod, found⟩ := Option.isSome_iff_exists.mp there
  obtain ⟨t, file, holds⟩ := refines.lookup found
  obtain ⟨t', left, same⟩ := calm.scripts .lifecycle t (.inr rfl)
  apply refines.set_same
  rw [file, left, found]
  exact .some (holds.congr same)

theorem applyOrRecord_mods {name' : ByteString} (found : (r.mods name').isSome) :
    ((r.applyOrRecord h name mod).2.mods name').isSome := by
  unfold Registry.applyOrRecord
  split
  · exact found
  · by_cases same : name' = name
    · simp [Registry.set, same]
    · simpa [Registry.set, Registry.rebuild, same] using found

/-- The scripts run, and the call ends with its message. -/
theorem lifecycle_ends (calm : Calm h) (refines : Refines m r) (there : (r.mods name).isSome)
    (info : ModuleInfo) (message : ByteString) :
    wp (do
        runLifecycleScripts h info name
        pure message : Act Manager ByteString ByteString)
      (fun a m' => a = message ∧ Refines m' r) (fun _ _ => False) m := by
  apply wp_bind.mpr
  apply wp_mono (runLifecycleScripts_spec calm refines there info) ?_ fun _ _ h => h
  exact fun _ m' ended => ⟨rfl, ended⟩

/-- The overlays are rebuilt for a module, and something is done that leaves the registry. -/
theorem rebuilt_agrees (calm : Calm h) (refines : Refines m r) (mod : Mod)
    (found : r.mods name = some mod) (message : ByteString)
    {after : Act Manager ByteString ByteString}
    (ends : ∀ m' r', Refines m' r' → (r'.mods name).isSome →
      wp after (fun a m'' => a = message ∧ Refines m'' r') (fun _ _ => False) m') :
    Agrees (do
        applyOrRecord h 0 name mod.state
        after) m
      ((r.applyOrRecord h name mod).1.map fun _ => message, (r.applyOrRecord h name mod).2) := by
  apply wp_bind.mpr
  apply wp_mono (applyOrRecord_agrees calm refines mod found)
  · rintro _ m₁ ⟨ok, applied⟩
    apply wp_mono (ends m₁ _ applied (applyOrRecord_mods (by simp [found]))) ?_
      fun _ _ h => h.elim
    rintro message m₂ ⟨rfl, ended⟩
    exact ⟨congrArg (Except.map fun _ => message) ok, ended⟩
  · rintro err m₁ ⟨failed, applied⟩
    exact ⟨congrArg (Except.map fun _ => message) failed, applied⟩

/-- A module is given a state, and something is done that leaves the registry. -/
theorem give_agrees (calm : Calm h) (refines : Refines m r) (found : r.mods name = some mod)
    (state : ModuleState) (same : state.installedAt = mod.state.installedAt)
    (error : Unquoted state.lastError) (message : ByteString)
    {after : Act Manager ByteString ByteString}
    (ends : ∀ m' r', Refines m' r' → (r'.mods name).isSome →
      wp after (fun a m'' => a = message ∧ Refines m'' r') (fun _ _ => False) m') :
    Agrees (do
        let state ← writeState h .state name state
        applyOrRecord h 0 name state
        after) m
      ((r.give h name { mod with state }).1.map fun _ => message,
        (r.give h name { mod with state }).2) := by
  obtain ⟨t, there, holds⟩ := refines.lookup found
  apply wp_bind.mpr
  apply wp_mono (writeState_spec calm .state trivial state there holds.ready.unblocked) ?_
    fun _ _ h => h.elim
  rintro _ m₁ ⟨rfl, rfl⟩
  have back : ReadsBack { state with updatedAt := makeIsoTimestamp (h.zip.now .state) } :=
    ⟨same ▸ holds.readsBack.installed, same ▸ holds.readsBack.dated,
      unquoted_makeIsoTimestamp _, error⟩
  have written := (refines.apart : Apart name m r).set_state holds.ready back
  exact rebuilt_agrees calm written ⟨mod.info,
    { state with updatedAt := makeIsoTimestamp (h.zip.now .state) }, mod.overlay⟩
    (Function.update_self ..) message ends

theorem enableModule_agrees (calm : Calm h) (refines : Refines m r) (name : ByteString) :
    Agrees (enableModule h name) m (r.enable h name) := by
  unfold enableModule Registry.enable
  apply wp_bind.mpr
  apply wp_mono (load_spec refines calm.reads)
  · rintro _ m' ⟨rfl, mod, found, rfl⟩
    rw [found]
    refine wp_ite.mpr ⟨fun enabled => ?_, fun disabled => ?_⟩
    · dsimp only
      rw [if_pos enabled]
      exact ⟨rfl, refines⟩
    · dsimp only
      rw [if_neg disabled]
      refine give_agrees calm refines found
        { mod.state with
          enabled := true
          lastError := [] } rfl (List.forall_mem_nil _) _ fun m' r' after there => ?_
      exact lifecycle_ends calm after there mod.info _
  · rintro _ m' ⟨rfl, absent, rfl⟩
    rw [absent]
    exact ⟨rfl, refines⟩

theorem disableModule_agrees (calm : Calm h) (refines : Refines m r) (name : ByteString) :
    Agrees (disableModule h name) m (r.disable h name) := by
  unfold disableModule Registry.disable
  apply wp_bind.mpr
  apply wp_mono (load_spec refines calm.reads)
  · rintro _ m' ⟨rfl, mod, found, rfl⟩
    obtain ⟨t, there, holds⟩ := refines.lookup found
    rw [found]
    refine wp_ite.mpr ⟨fun disabled => ?_, fun enabled => ?_⟩
    · dsimp only at disabled ⊢
      rw [if_neg (by simpa using disabled)]
      exact ⟨rfl, refines⟩
    · dsimp only at enabled ⊢
      rw [if_pos (by simpa using enabled)]
      exact give_agrees calm refines found { mod.state with enabled := false } rfl
        holds.readsBack.error _ fun m' r' after _ => ⟨rfl, after⟩
  · rintro _ m' ⟨rfl, absent, rfl⟩
    rw [absent]
    exact ⟨rfl, refines⟩

/-- What is left to do for a module that was disabled. -/
theorem removal_agrees (calm : Calm h) (refines : Refines m r) (name : ByteString) :
    Agrees (do
        let _ ← change h .clear name fun _ => none
        let _ ← attempt (rebuildOverlays h (h.rebuild 1))
        pure (str "Module removed")) m
      (.ok (str "Module removed"), (r.set name none).rebuild (h.rebuild 1)) := by
  apply wp_bind.mpr
  apply wp_mono (change_spec (calm.works .clear trivial) _ m) ?_ fun _ _ h => h.elim
  rintro _ m₁ ⟨-, rfl⟩
  apply wp_bind.mpr
  rw [wp_attempt]
  exact wp_mono (rebuildOverlays_spec (refines.apart.set .none) calm.reads (h.rebuild 1))
    (fun _ _ h => ⟨rfl, h.2⟩) fun _ _ h => ⟨rfl, h.2⟩

theorem removeModule_agrees (calm : Calm h) (refines : Refines m r) (name : ByteString) :
    Agrees (removeModule h name) m (r.remove h name) := by
  unfold removeModule Registry.remove
  apply wp_bind.mpr
  apply wp_mono (load_spec refines calm.reads)
  · rintro _ m' ⟨rfl, mod, found, rfl⟩
    rw [found]
    refine wp_ite.mpr ⟨fun _ => ?_, fun off => ?_⟩
    · apply wp_bind.mpr
      rw [wp_attempt]
      exact wp_mono (disableModule_agrees calm refines name)
        (fun _ m'' h => removal_agrees calm h.2 name) fun _ m'' h => removal_agrees calm h.2 name
    · refine removal_agrees calm ?_ name
      unfold Registry.disable
      rw [found]
      dsimp only
      rw [if_neg off]
      exact refines
  · rintro _ m' ⟨rfl, absent, rfl⟩
    rw [absent]
    exact ⟨rfl, refines⟩

end Switching

/-! ### Installing -/

section Installing

variable {h : Host} {m : Manager} {r : Registry} {info : ModuleInfo} {arrives : Option Tree}
  {zipPath tempDir : ByteString}

theorem stat_of_noLinks {z : FromZip.Host} (leads : ∀ path, z.leads path = none) {dir : ByteString}
    {d : Dir} {name : ByteString} {e : Entry ByteString ByteString}
    (found : z.stat dir d name = some e) : d.find name = some e := by
  unfold FromZip.Host.stat at found
  split at found
  · rw [leads] at found
    cases found
  · exact found

theorem subdir_of_dir {t : Tree} {name : ByteString} {inner : Dir}
    (found : t.1.find name = some (.dir inner)) : ∃ t', t.subdir name = some t' ∧ t'.1 = inner := by
  unfold Tree.subdir
  split
  · rename_i inner' found'
    cases found.symm.trans found'
    exact ⟨_, rfl, rfl⟩
  · rename_i other
    exact absurd found (other inner)

/-- What arrives is what was looked into. -/
theorem findModuleRoot_arrives {z : FromZip.Host} (leads : ∀ path, z.leads path = none)
    (tempDir : ByteString) :
    ∃ t, (FromZip.findModuleRoot z tempDir).arrives = some t ∧
      t.1 = (FromZip.findModuleRoot z tempDir).shows := by
  unfold FromZip.findModuleRoot
  dsimp only
  split
  · exact ⟨_, rfl, rfl⟩
  · split
    · split
      · rename_i inner found
        obtain ⟨t, there, same⟩ := subdir_of_dir (stat_of_noLinks leads found)
        split
        · exact ⟨t, by rw [there]; rfl, same⟩
        · exact ⟨_, rfl, rfl⟩
      · exact ⟨_, rfl, rfl⟩
    · exact ⟨_, rfl, rfl⟩

theorem parseModuleInfo_nil : parseModuleInfo [] ≠ .ok info := by
  intro accepted
  cases accepted

theorem readZip_ok {z : FromZip.Host} {root : FromZip.Root}
    (read : FromZip.readZip z zipPath tempDir = .ok (info, root)) :
    FromZip.findModuleRoot z tempDir = root ∧ FromZip.readModuleInfoFile z root = .ok info := by
  unfold FromZip.readZip at read
  split at read
  · cases read
  split at read
  · cases read
  split at read
  · cases read
  split at read
  · cases read
  split at read
  · cases read
  obtain ⟨info', accepted, same⟩ := ok_of_bind read
  cases same
  exact ⟨rfl, accepted⟩

theorem readModuleInfoFile_ok {z : FromZip.Host} {root : FromZip.Root}
    (accepted : FromZip.readModuleInfoFile z root = .ok info) :
    ∃ text, z.stat root.path root.shows FromZip.infoName = some (.file text) ∧
      parseModuleInfo text = .ok info := by
  unfold FromZip.readModuleInfoFile at accepted
  dsimp only at accepted
  split at accepted
  · rename_i text found
    split at accepted
    · exact ⟨text, found, accepted⟩
    · cases accepted
  · exact absurd accepted parseModuleInfo_nil
  · cases accepted

/-- A module that can be installed arrives with what its information was read from. -/
theorem unpack_ready (leads : ∀ path, h.zip.leads path = none)
    (unpacked : FromZip.unpack h.zip zipPath tempDir = .ok (info, arrives))
    (fit : FitZip info arrives) : ∃ t, arrives = some t ∧ Ready t info (layer t) := by
  unfold FromZip.unpack at unpacked
  obtain ⟨⟨info', root⟩, read, unpacked⟩ := ok_of_bind unpacked
  dsimp only at unpacked
  split at unpacked
  · cases unpacked
    obtain ⟨rfl, accepted⟩ := readZip_ok read
    obtain ⟨text, found, parsed⟩ := readModuleInfoFile_ok accepted
    obtain ⟨t, there, shows⟩ := findModuleRoot_arrives leads tempDir
    refine ⟨t, there, ⟨text, ?_, parsed⟩, fit.2 t there, fun _ => rfl⟩
    rw [Tree.find, shows, stat_of_noLinks leads found]
  · cases unpacked

theorem workDir_unmanaged : ∀ name ∈ managed, FromZip.workDir.1 ≠ name := by
  decide

theorem furnish_spec {ε : Type} (calm : Calm h) {name : ByteString} {t : Tree}
    (apart : Apart name m r) (there : m.modules.lookup name = some t) :
    wp (forEach (createQuietly h name) workDirs () : Act Manager ε Unit)
      (fun _ m' => Apart name m' r ∧ ∃ t', m'.modules.lookup name = some t' ∧
        ∀ other, FromZip.workDir.1 ≠ other → t'.find other = t.find other)
      (fun _ _ => False) m := by
  refine wp_forEach (fun _ (m' : Manager) => Apart name m' r ∧ ∃ t',
    m'.modules.lookup name = some t' ∧
      ∀ other, FromZip.workDir.1 ≠ other → t'.find other = t.find other) ?_
    ⟨apart, t, there, fun _ _ => rfl⟩
  rintro path mem _ m' ⟨apart, t', there, same⟩
  obtain ⟨rest, rfl⟩ : ∃ rest, path = FromZip.workDir :: rest := by
    rcases List.mem_cons.mp mem with rfl | mem
    · exact ⟨[], rfl⟩
    · obtain ⟨target, -, rfl⟩ := List.mem_map.mp mem
      exact ⟨[target], rfl⟩
  apply wp_bind.mpr
  apply wp_mono (change_spec (calm.works (.makeDir _) trivial) _ m') ?_ fun _ _ h => h
  rintro _ m'' ⟨-, rfl⟩
  refine ⟨apart.change _, _, set_lookup _, fun other differs => ?_⟩
  rw [there]
  exact (find_makeDirs differs).trans (same other differs)

/-- The module is where it is to be, with the state it is given at first. -/
theorem place_spec (calm : Calm h) {name : ByteString} {t : Tree} (refines : Refines m r)
    (ready : Ready t info (layer t)) (state : ModuleState)
    (back : ReadsBack { state with updatedAt := makeIsoTimestamp (h.zip.now .state) })
    {after : ModuleState → Act Manager ByteString ByteString}
    {Q : ByteString → Manager → Prop} {E : ByteString → Manager → Prop}
    (rest : ∀ m' t', m'.modules.lookup name = some t' →
      (∀ other, FromZip.workDir.1 ≠ other → stateName.1 ≠ other → t'.find other = t.find other) →
      Refines m' (r.set name (some
        ⟨info, { state with updatedAt := makeIsoTimestamp (h.zip.now .state) }, layer t⟩)) →
      wp (after { state with updatedAt := makeIsoTimestamp (h.zip.now .state) }) Q E m') :
    wp (do
        let _ ← change h .clear name fun _ => none
        moveIntoPlace h name (some t)
        forEach (createQuietly h name) workDirs ()
        let state ← writeState h .state name state
        after state) Q E m := by
  apply wp_bind.mpr
  apply wp_mono (change_spec (calm.works .clear trivial) _ m) ?_ fun _ _ h => h.elim
  rintro _ m₁ ⟨-, rfl⟩
  have room : (free ((m.set name none).modules.lookup name) && h.zip.works .rename) = true := by
    rw [set_lookup, calm.works .rename trivial]
    rfl
  refine wp_bind.mpr (wp_bind.mpr (wp_update.mpr (wp_ite.mpr ⟨fun _ => ?_, fun taken => ?_⟩)))
  · apply wp_update.mpr
    apply wp_bind.mpr
    apply wp_mono (furnish_spec calm ((refines.apart.change none).change (some t))
      (set_lookup _)) ?_ fun _ _ h => h.elim
    rintro _ m₂ ⟨apart, t₂, there, same⟩
    have ready : Ready t₂ info (layer t) :=
      ready.congr fun other mem => same other (workDir_unmanaged other mem)
    apply wp_bind.mpr
    apply wp_mono (writeState_spec calm .state trivial state there ready.unblocked) ?_
      fun _ _ h => h.elim
    rintro _ m₃ ⟨rfl, rfl⟩
    refine rest _ _ (set_lookup _) (fun other work stateFile => ?_) (apart.set_state ready back)
    rw [(find_writeFile _ ready.file).2 other stateFile]
    exact same other work
  · exact absurd room taken

theorem hasScript_congr {z : FromZip.Host} {name : ByteString} {t t' : Tree}
    (same : t'.find installScript = t.find installScript) :
    hasScript z name (some t') = hasScript z name (some t) := by
  have dirs : t'.1.find installScript = t.1.find installScript := same
  unfold FromZip.hasScript FromZip.Host.stat
  dsimp only [Option.getD]
  rw [dirs]

theorem scriptError_congr {name : ByteString} {t t' : Tree}
    (same : t'.find installScript = t.find installScript) :
    Registry.scriptError h name (some t') = Registry.scriptError h name (some t) := by
  unfold Registry.scriptError
  rw [hasScript_congr same]

theorem runScript_spec (calm : Calm h) {name : ByteString} (refines : Refines m r)
    (there : (r.mods name).isSome) :
    wp (runScript h name)
      (fun _ m' => Registry.scriptError h name (m.modules.lookup name) = none ∧ Refines m' r)
      (fun err m' =>
        Registry.scriptError h name (m.modules.lookup name) = some err ∧ Apart name m' r) m := by
  unfold Registry.scriptError
  refine wp_bind.mpr (wp_update.mpr (wp_ite.mpr ⟨fun present => ?_, fun absent => ?_⟩))
  · have present : hasScript h.zip name (m.modules.lookup name) = true := present
    refine wp_bind.mpr (wp_update.mpr (wp_ite.mpr ⟨fun works => ?_, fun fails => ?_⟩))
    · refine ⟨by simp [present, works], ?_⟩
      obtain ⟨mod, found⟩ := Option.isSome_iff_exists.mp there
      obtain ⟨t, file, holds⟩ := refines.lookup found
      obtain ⟨t', left, same⟩ := calm.scripts .script t (.inl rfl)
      apply refines.set_same
      rw [file, left, found]
      exact .some (holds.congr same)
    · exact ⟨by simp [present, fails], refines.apart.change _⟩
  · have absent : hasScript h.zip name (m.modules.lookup name) = false :=
      Bool.eq_false_iff.mpr absent
    exact ⟨by simp [absent], refines.apart⟩

theorem rollbackModule_spec (calm : Calm h) {name : ByteString} (apart : Apart name m r)
    (scriptFailure : ByteString) :
    wp (rollbackModule h name scriptFailure) (fun _ _ => False)
      (fun err m' => err = rollbackMessage scriptFailure true (h.zip.works .removeLog)
          ((h.rebuild 0).error.getD []) ∧
        Refines m' ((r.set name none).rebuild (h.rebuild 0))) m := by
  apply wp_bind.mpr
  apply wp_mono (change_spec (calm.works .rollback trivial) _ m) ?_ fun _ _ h => h.elim
  rintro _ m₁ ⟨rfl, rfl⟩
  apply wp_bind.mpr
  rw [wp_attempt]
  apply wp_mono (rebuildOverlays_spec (apart.set .none) calm.reads (h.rebuild 0))
  · rintro _ m₂ ⟨none, rebuilt⟩
    rw [none]
    exact ⟨rfl, rebuilt⟩
  · rintro err m₂ ⟨failed, rebuilt⟩
    rw [failed]
    exact ⟨rfl, rebuilt⟩

/-- A module's script leaves the registry as it is, or the module is taken out again. -/
theorem runInstallScript_agrees (calm : Calm h) (refines : Refines m r) (info : ModuleInfo)
    (there : (r.mods info.name).isSome) :
    Agrees (runInstallScript h info) m
      ((if info.runInstallSh then
          Registry.scriptError h info.name (m.modules.lookup info.name) else none).elim (.ok (), r)
        fun scriptFailure => (.error (rollbackMessage scriptFailure true (h.zip.works .removeLog)
          ((h.rebuild 0).error.getD [])), (r.set info.name none).rebuild (h.rebuild 0))) := by
  refine wp_ite.mpr ⟨fun wanted => ?_, fun unwanted => ?_⟩
  · rw [if_pos wanted]
    apply wp_bind.mpr
    rw [wp_attempt]
    apply wp_mono (runScript_spec calm refines there)
    · rintro _ m₁ ⟨none, after⟩
      rw [none]
      exact ⟨rfl, after⟩
    · rintro err m₁ ⟨some, apart⟩
      rw [some]
      apply wp_mono (rollbackModule_spec calm apart err) fun _ _ h => h.elim
      rintro _ m₂ ⟨rfl, undone⟩
      exact ⟨rfl, undone⟩
  · rw [if_neg unwanted]
    exact ⟨rfl, refines⟩

theorem set_set {name : ByteString} (mod mod' : Option Mod) :
    (r.set name mod).set name mod' = r.set name mod' := by
  unfold Registry.set
  rw [Function.update_idem]

theorem installFromZip_agrees (calm : Calm h) (refines : Refines m r) (zipPath : ByteString)
    (now counter : Nat) :
    Agrees (installFromZip h zipPath now counter) m (r.install h zipPath now counter) := by
  unfold installFromZip Registry.install
  cases unpacked : FromZip.unpack h.zip zipPath
      (joinPath getCacheDir (tempDirName now counter)) with
  | error err => exact ⟨rfl, refines⟩
  | ok placed =>
    obtain ⟨info, arrives⟩ := placed
    obtain ⟨t, rfl, ready⟩ := unpack_ready calm.leads unpacked (calm.fit _ _ info arrives unpacked)
    dsimp only
    apply place_spec calm refines ready
    · exact ⟨unquoted_makeIsoTimestamp _, makeIsoTimestamp_ne_nil _, unquoted_makeIsoTimestamp _,
        List.forall_mem_nil _⟩
    intro m₁ t₁ there same written
    have script : Registry.scriptError h info.name (m₁.modules.lookup info.name) =
        Registry.scriptError h info.name (some t) := by
      rw [there]
      exact scriptError_congr (same _ (by decide) (by decide))
    have ran := runInstallScript_agrees calm written info (by simp [Registry.set])
    rw [script, set_set] at ran
    apply wp_bind.mpr
    apply wp_mono ran
    · rintro _ m₂ ⟨ok, kept⟩
      cases failure : (if info.runInstallSh then
          Registry.scriptError h info.name (some t) else none) with
      | some scriptFailure =>
        rw [failure] at ok
        cases ok
      | none =>
        rw [failure] at kept
        exact rebuilt_agrees calm kept _ (Function.update_self ..) _
          fun m₃ r₃ applied there => lifecycle_ends calm applied there info _
    · rintro err m₂ ⟨error, undone⟩
      cases failure : (if info.runInstallSh then
          Registry.scriptError h info.name (some t) else none) with
      | some scriptFailure =>
        rw [failure] at error undone
        exact ⟨congrArg Except.error (Except.error.inj error), undone⟩
      | none =>
        rw [failure] at error
        cases error

end Installing

end Apm.Ams.Store
