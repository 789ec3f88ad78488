import Apm.Ams.ModuleManager

/-!
Which directories the module manager acts on.

## Main results

* `module_confined_iff`: installing, enabling, disabling and removing a module acts on one
  directory right below the modules root, and on one file in the logs directory, if and only
  if the name is that of a file, not `.` or `..`, with nothing but `.` in front of it.
-/

namespace Apm.Ams

open Apm.Fs Apm.Config Apm.Lib.Effect Apm.Lib.Walk

/-! ### What is allowed -/

/-- The path leads right below the directory. -/
def Child (home path : ByteString) : Prop := ∃ name, fileLoc path = name :: fileLoc home

/-- No directory on the way to the path is below the home directory. -/
def AtMost (home path : ByteString) : Prop :=
  ∀ before, before <+: pathSteps (cString path) → lexical [] before <:+ fileLoc home

/-- What the module manager may do: remove and replace a directory right below the modules
root, write a file in one, make directories below the root; write and remove a file right
below the logs directory; and what it likes in the cache. -/
def OfModule (x : Touch) : Prop :=
  if x.home = getModulesDir then
    match x.action with
    | .create => Reaches x.home x.path
    | .write => Child x.home (parentOf x.path)
    | .rename | .extract | .removeTree | .unlink => Child x.home x.path
  else if x.home = getModuleLogsDir then
    match x.action with
    | .create => AtMost x.home x.path
    | .write | .rename | .extract | .removeTree | .unlink => Child x.home x.path
  else x.home = getCacheDir ∧ Below (fileLoc x.home) (fileLoc x.path)

/-- The name of one file, with nothing but `.` in front of it. Behind a NUL there is no
slash. -/
inductive OneName : ByteString → Prop where
  | file {name c : ByteString} (noSlash : chr '/' ∉ name)
      (plain : pathStep (cString name) = .down c) : OneName name
  | behind {front name c : ByteString} (filled : front ≠ [])
      (relative : front.head? ≠ some (chr '/')) (noNul : 0 ∉ front)
      (dots : ∀ step ∈ pathSteps front, step = .stay) (noSlash : chr '/' ∉ name)
      (plain : pathStep (cString name) = .down c) : OneName (front ++ chr '/' :: name)

/-! ### Names -/

section Names

variable {name : ByteString}

theorem OneName.relative (h : OneName name) : name.head? ≠ some (chr '/') := by
  cases h with
  | file noSlash => exact fun first => noSlash (List.mem_of_head? first)
  | behind filled relative => rwa [List.head?_append_of_ne_nil _ filled]

theorem oneName_of_plain (h : PlainName name) : OneName name := by
  have plain : pathStep (cString name) = .down name := by rw [cString_of_noNul h.noNul, h.plain]
  exact .file h.noSlash plain

/-- The last component of a log path is a name in any case. -/
theorem pathStep_log (name : ByteString) {c : ByteString}
    (plain : pathStep (cString name) = .down c) :
    ∃ c', pathStep (cString (name ++ str ".log")) = .down c' := by
  by_cases nul : 0 ∈ name
  · exact ⟨c, by rw [cString_append_of_nul nul, plain]⟩
  · refine ⟨_, pathStep_of_length ?_⟩
    rw [cString_append nul, List.length_append]
    have : (cString (str ".log")).length = 4 := by decide
    omega

theorem noSlash_log (h : chr '/' ∉ name) : chr '/' ∉ name ++ str ".log" := by
  rw [List.mem_append, not_or]
  exact ⟨h, by decide⟩

theorem OneName.log (h : OneName name) : OneName (name ++ str ".log") := by
  cases h with
  | file noSlash plain =>
    obtain ⟨c, plain⟩ := pathStep_log _ plain
    exact .file (noSlash_log noSlash) plain
  | behind filled relative noNul dots noSlash plain =>
    obtain ⟨c, plain⟩ := pathStep_log _ plain
    rw [List.append_assoc, List.cons_append]
    exact .behind filled relative noNul dots (noSlash_log noSlash) plain

/-- Steps that stay do not move. -/
theorem lexical_stay {loc : Loc ByteString} {steps : List (Step ByteString)}
    (h : ∀ step ∈ steps, step = .stay) : lexical loc steps = loc := by
  induction steps with
  | nil => rfl
  | cons step steps ih =>
    obtain ⟨rfl, rest⟩ := List.forall_mem_cons.mp h
    exact ih rest

/-- Where one name below a directory leads. -/
theorem OneName.steps (h : OneName name) {root : ByteString} (plain : PlainDir root) :
    ∃ dots c, (∀ step ∈ dots, step = .stay) ∧
      pathSteps (cString (joinPath root name)) = pathSteps root ++ dots ++ [.down c] ∧
      pathSteps (cString (parentOf (joinPath root name))) = pathSteps root ++ dots ∧
      (joinPath root name).getLast? ≠ some (chr '/') := by
  have ends : ∀ front file : ByteString, chr '/' ∉ file → file ≠ [] →
      (front ++ chr '/' :: file).getLast? ≠ some (chr '/') := by
    intro front file noSlash filled last
    rw [← List.singleton_append, ← List.append_assoc,
      List.getLast?_append_of_ne_nil _ filled] at last
    exact noSlash (List.mem_of_getLast? last)
  have nonempty : ∀ file c : ByteString, pathStep (cString file) = .down c → file ≠ [] := by
    rintro _ c plain rfl
    exact absurd plain nofun
  cases h with
  | @file _ c noSlash step =>
    have filled := nonempty _ _ step
    have relative : name.head? ≠ some (chr '/') := fun first =>
      noSlash (List.mem_of_head? first)
    refine ⟨[], c, nofun, ?_, ?_, ?_⟩
    · rw [pathSteps_joinPath plain filled relative, pathSteps_component (noSlash_cString noSlash),
        step, List.append_nil]
    · rw [plain.joinPath filled relative, parentOf_append noSlash, cString_of_noNul plain.noNul,
        List.append_nil]
    · rw [plain.joinPath filled relative]
      exact ends _ _ noSlash filled
  | @behind front file c filled relative noNul dots noSlash step =>
    have relative' : (front ++ chr '/' :: file).head? ≠ some (chr '/') := by
      rwa [List.head?_append_of_ne_nil _ filled]
    have joined : joinPath root (front ++ chr '/' :: file) =
        (root ++ chr '/' :: front) ++ chr '/' :: file := by
      rw [plain.joinPath (by simp) relative', List.append_assoc, List.cons_append]
    refine ⟨pathSteps front, c, dots, ?_, ?_, ?_⟩
    · rw [pathSteps_joinPath plain (by simp) relative', cString_append noNul, cString_slash,
        pathSteps_append_slash, pathSteps_component (noSlash_cString noSlash), step,
        List.append_assoc]
    · rw [joined, parentOf_append noSlash, cString_append plain.noNul, cString_slash,
        cString_of_noNul noNul, pathSteps_append_slash]
    · rw [joined]
      exact ends _ _ noSlash (nonempty _ _ step)

/-- A directory without steps up. -/
structure Straight (root : ByteString) : Prop where
  plain : PlainDir root
  noUp : Step.up ∉ pathSteps root

theorem Straight.loc {root : ByteString} (h : Straight root) :
    fileLoc root = lexical [] (pathSteps root) := by
  rw [fileLoc, cString_of_noNul h.plain.noNul]

variable {root : ByteString} (straight : Straight root)
include straight

theorem OneName.child (h : OneName name) : Child root (joinPath root name) := by
  obtain ⟨dots, c, stay, steps, -, -⟩ := h.steps straight.plain
  refine ⟨c, ?_⟩
  rw [fileLoc, steps, lexical_append, lexical_append, lexical_stay stay, ← straight.loc]
  rfl

theorem OneName.parent_atMost (h : OneName name) : AtMost root (parentOf (joinPath root name)) := by
  obtain ⟨dots, c, stay, -, steps, -⟩ := h.steps straight.plain
  intro before pre
  rw [steps] at pre
  rcases List.prefix_or_prefix_of_prefix pre (List.prefix_append _ _) with early | ⟨late, rfl⟩
  · rw [straight.loc]
    exact lexical_suffix early straight.noUp
  · have stays : ∀ step ∈ late, step = .stay := fun step mem =>
      stay step (((List.prefix_append_right_inj _).mp pre).mem mem)
    rw [lexical_append, lexical_stay stays, ← straight.loc]

theorem OneName.reaches (h : OneName name) : Reaches root (joinPath root name) := by
  obtain ⟨c, loc⟩ := h.child straight
  have parent := h.parent_atMost straight
  obtain ⟨dots, c', stay, steps, parentSteps, -⟩ := h.steps straight.plain
  have inside : Inside (fileLoc root) (fileLoc (joinPath root name)) :=
    loc ▸ List.suffix_cons _ _
  refine ⟨inside, fun before pre => ?_⟩
  rw [steps, List.prefix_concat_iff] at pre
  rcases pre with rfl | pre
  · rw [← steps]
    exact .inl inside
  · exact .inr (parent before (parentSteps ▸ pre))

end Names

/-! ### What an allowed name looks like -/

theorem modulesDir_straight : Straight getModulesDir := ⟨by decide, by decide⟩

theorem logsDir_straight : Straight getModuleLogsDir := ⟨by decide, by decide⟩

theorem logsDir_ne_modulesDir : getModuleLogsDir ≠ getModulesDir := by decide

theorem modulesDir_loc : fileLoc getModulesDir = [str "modules", str "ams", str "data"] := by
  decide

theorem logsDir_loc : fileLoc getModuleLogsDir = [str "logs", str "ams", str "data"] := by decide

theorem modulesDir_length :
    (fileLoc getModulesDir).length = (fileLoc getModuleLogsDir).length := by
  rw [modulesDir_loc, logsDir_loc]
  rfl

theorem modulesDir_ne_logsDir : fileLoc getModulesDir ≠ fileLoc getModuleLogsDir := by
  rw [modulesDir_loc, logsDir_loc]
  decide

/-- Two directories next to each other: steps that do not go below the second one and lead
back to it stay where they are, or lead to the second one from the first one too. -/
theorem stay_or_meet {a b : Loc ByteString} (sibling : a.tail = b.tail)
    {steps : List (Step ByteString)}
    (h : ∀ before, before <+: steps → lexical b before <:+ b) :
    (∀ step ∈ steps, step = .stay) ∨ lexical a steps = lexical b steps := by
  induction steps with
  | nil => exact .inl nofun
  | cons step steps ih =>
    cases step with
    | stay =>
      have rest : ∀ before, before <+: steps → lexical b before <:+ b := fun before pre =>
        h (.stay :: before) ((List.prefix_cons_inj _).mpr pre)
      rcases ih rest with stay | meet
      · exact .inl (List.forall_mem_cons.mpr ⟨rfl, stay⟩)
      · exact .inr meet
    | up =>
      right
      have : lexical a.tail steps = lexical b.tail steps := by rw [sibling]
      exact this
    | down name =>
      have below : name :: b <:+ b :=
        h [.down name] ((List.prefix_cons_inj _).mpr (List.nil_prefix))
      have := below.length_le
      rw [List.length_cons] at this
      omega

/-- One more step leads right below the location only if it is a step down from there. -/
theorem down_of_move {loc dir : Loc ByteString} {step : Step ByteString} {name : ByteString}
    (short : dir.length ≤ loc.length) (h : step.move dir = name :: loc) :
    step = .down name ∧ dir = loc := by
  have length := congrArg List.length h
  rw [List.length_cons] at length
  cases step with
  | stay =>
    simp only [Step.move] at length
    omega
  | up =>
    simp only [Step.move, List.length_tail] at length
    omega
  | down name' =>
    obtain ⟨rfl, rfl⟩ := List.cons.inj h
    exact ⟨rfl, rfl⟩

/-- A log beside a module in the modules root is not in the logs directory. -/
theorem relative_of_confined {name c : ByteString} (nonempty : name ≠ [])
    (module : fileLoc (modulePath name) = c :: fileLoc getModulesDir)
    (log : fileLoc (parentOf (moduleLogPath name)) <:+ fileLoc getModuleLogsDir) :
    name.head? ≠ some (chr '/') := by
  intro absolute
  have filled : name ++ str ".log" ≠ [] := List.append_ne_nil_of_left_ne_nil nonempty _
  have head : (name ++ str ".log").head? = name.head? := List.head?_append_of_ne_nil _ nonempty
  have path : modulePath name = name := by
    rw [modulePath, joinPath, if_neg (by simpa using nonempty), if_pos (by simpa using absolute)]
  have logPath : moduleLogPath name = name ++ str ".log" := by
    rw [moduleLogPath, joinPath, if_neg (by simpa using filled),
      if_pos (by simpa using head.trans absolute)]
  have slash : chr '/' ∈ name := List.mem_of_head? absolute
  have parents : parentOf (name ++ str ".log") = parentOf name := by
    obtain ⟨left, right, rfl, noSlash⟩ := exists_last_slash slash
    have noSlash' : chr '/' ∉ right ++ str ".log" := noSlash_log noSlash
    rw [parentOf_append noSlash, List.append_assoc, List.cons_append, parentOf_append noSlash']
  rw [logPath, parents] at log
  rw [path] at module
  have short := log.length_le
  have lengths := modulesDir_length
  rcases pathSteps_parentOf slash with same | ⟨last, steps⟩
  · have : fileLoc (parentOf name) = fileLoc name := by rw [fileLoc, same, fileLoc]
    rw [this, module, List.length_cons] at short
    omega
  · have move : last.move (fileLoc (parentOf name)) = c :: fileLoc getModulesDir := by
      rw [← module, fileLoc, fileLoc, steps, lexical_append]
      rfl
    obtain ⟨-, same⟩ := down_of_move (by omega) move
    rw [same] at log
    exact modulesDir_ne_logsDir (log.eq_of_length lengths)

/-- In front of the last component, nothing but `.` is possible. -/
theorem behind_of_confined {left right c c' : ByteString} (noSlash : chr '/' ∉ right)
    (relative : (left ++ chr '/' :: right).head? ≠ some (chr '/'))
    (module : fileLoc (modulePath (left ++ chr '/' :: right)) = c :: fileLoc getModulesDir)
    (log : fileLoc (moduleLogPath (left ++ chr '/' :: right)) = c' :: fileLoc getModuleLogsDir)
    (parent : AtMost getModuleLogsDir
      (parentOf (moduleLogPath (left ++ chr '/' :: right)))) :
    OneName (left ++ chr '/' :: right) := by
  have noSlash' : chr '/' ∉ right ++ str ".log" := noSlash_log noSlash
  have filled : left ≠ [] := by
    rintro rfl
    exact relative rfl
  have leftRelative : left.head? ≠ some (chr '/') := by
    rwa [List.head?_append_of_ne_nil _ filled] at relative
  have logName : left ++ chr '/' :: right ++ str ".log" =
      left ++ chr '/' :: (right ++ str ".log") := by simp
  have logRelative : (left ++ chr '/' :: (right ++ str ".log")).head? ≠ some (chr '/') := by
    rwa [List.head?_append_of_ne_nil _ filled]
  have joined : moduleLogPath (left ++ chr '/' :: right) =
      (getModuleLogsDir ++ chr '/' :: left) ++ chr '/' :: (right ++ str ".log") := by
    rw [moduleLogPath, logName, logsDir_straight.plain.joinPath (by simp) logRelative]
    simp
  have noNul : 0 ∉ left := by
    intro nul
    have nul' : 0 ∈ getModuleLogsDir ++ chr '/' :: left := by simp [nul]
    have same : fileLoc (parentOf (moduleLogPath (left ++ chr '/' :: right))) =
        fileLoc (moduleLogPath (left ++ chr '/' :: right)) := by
      rw [joined, parentOf_append noSlash', fileLoc, fileLoc, cString_append_of_nul nul']
    have short := (parent _ (List.prefix_refl _)).length_le
    rw [← fileLoc, same, log, List.length_cons] at short
    omega
  have parentSteps : pathSteps (cString (parentOf (moduleLogPath (left ++ chr '/' :: right)))) =
      pathSteps getModuleLogsDir ++ pathSteps left := by
    rw [joined, parentOf_append noSlash', cString_append logsDir_straight.plain.noNul,
      cString_slash, cString_of_noNul noNul, pathSteps_append_slash]
  have along : ∀ before, before <+: pathSteps left →
      lexical (fileLoc getModuleLogsDir) before <:+ fileLoc getModuleLogsDir := by
    intro before pre
    have := parent (pathSteps getModuleLogsDir ++ before)
      (parentSteps ▸ (List.prefix_append_right_inj _).mpr pre)
    rwa [lexical_append, ← logsDir_straight.loc] at this
  have moduleMove : (pathStep (cString right)).move
      (lexical (fileLoc getModulesDir) (pathSteps left)) = c :: fileLoc getModulesDir := by
    rw [← module, modulePath, fileLoc_joinPath modulesDir_straight.plain.filled (by simp) relative
      modulesDir_straight.plain.noNul, cString_append noNul, cString_slash, pathSteps_append_slash,
      pathSteps_component (noSlash_cString noSlash), lexical_append]
    rfl
  have logMove : (pathStep (cString (right ++ str ".log"))).move
      (lexical (fileLoc getModuleLogsDir) (pathSteps left)) = c' :: fileLoc getModuleLogsDir := by
    rw [← log, moduleLogPath, logName, fileLoc_joinPath logsDir_straight.plain.filled (by simp)
      logRelative logsDir_straight.plain.noNul, cString_append noNul, cString_slash,
      pathSteps_append_slash, pathSteps_component (noSlash_cString noSlash'), lexical_append]
    rfl
  obtain ⟨-, back⟩ := down_of_move (along _ (List.prefix_refl _)).length_le logMove
  have sibling : (fileLoc getModulesDir).tail = (fileLoc getModuleLogsDir).tail := by
    rw [modulesDir_loc, logsDir_loc]
    rfl
  rcases stay_or_meet sibling along with stay | meet
  · rw [lexical_stay stay] at moduleMove
    obtain ⟨plain, -⟩ := down_of_move (Nat.le_refl _) moduleMove
    exact .behind filled leftRelative noNul stay noSlash plain
  · rw [meet, back] at moduleMove
    obtain ⟨-, same⟩ := down_of_move modulesDir_length.symm.le moduleMove
    exact absurd same.symm modulesDir_ne_logsDir

/-- **Only one name is confined**, in both directories. -/
theorem oneName_of_confined {name : ByteString} (module : Child getModulesDir (modulePath name))
    (log : Child getModuleLogsDir (moduleLogPath name))
    (parent : AtMost getModuleLogsDir (parentOf (moduleLogPath name))) : OneName name := by
  obtain ⟨c, module⟩ := module
  obtain ⟨c', log⟩ := log
  have nonempty : name ≠ [] := by
    rintro rfl
    have length := congrArg List.length module
    have root : modulePath [] = getModulesDir := rfl
    rw [root, List.length_cons] at length
    omega
  have relative := relative_of_confined nonempty module (parent _ (List.prefix_refl _))
  by_cases slash : chr '/' ∈ name
  · obtain ⟨left, right, rfl, noSlash⟩ := exists_last_slash slash
    exact behind_of_confined noSlash relative module log parent
  · have move : (pathStep (cString name)).move (fileLoc getModulesDir) =
        c :: fileLoc getModulesDir := by
      rw [← module, modulePath, fileLoc_joinPath modulesDir_straight.plain.filled nonempty relative
        modulesDir_straight.plain.noNul, pathSteps_component (noSlash_cString slash)]
      rfl
    obtain ⟨plain, -⟩ := down_of_move (Nat.le_refl _) move
    exact .file slash plain

/-! ### What the operations do -/

section Operations

variable {ε : Type} (sys : System)

/-- The program does what the module manager may do. -/
abbrev Managing {α : Type} (act : Act Trace ε α) : Prop := Moves (Adds OfModule) act

theorem ofModule_create {path : ByteString} (h : Reaches getModulesDir path) :
    OfModule ⟨.create, getModulesDir, path⟩ := by
  rw [OfModule, if_pos rfl]
  exact h

theorem ofModule_dir {action : Action} {path : ByteString} (replaces : action ≠ .create)
    (whole : action ≠ .write) (h : Child getModulesDir path) :
    OfModule ⟨action, getModulesDir, path⟩ := by
  rw [OfModule, if_pos rfl]
  cases action with
  | create => exact absurd rfl replaces
  | write => exact absurd rfl whole
  | rename => exact h
  | extract => exact h
  | removeTree => exact h
  | unlink => exact h

theorem ofModule_logDir {path : ByteString} (h : AtMost getModuleLogsDir path) :
    OfModule ⟨.create, getModuleLogsDir, path⟩ := by
  rw [OfModule, if_neg logsDir_ne_modulesDir, if_pos rfl]
  exact h

theorem ofModule_log {action : Action} {path : ByteString} (file : action ≠ .create)
    (h : Child getModuleLogsDir path) : OfModule ⟨action, getModuleLogsDir, path⟩ := by
  rw [OfModule, if_neg logsDir_ne_modulesDir, if_pos rfl]
  cases action with
  | create => exact absurd rfl file
  | write => exact h
  | rename => exact h
  | extract => exact h
  | removeTree => exact h
  | unlink => exact h

theorem ofModule_temp (action : Action) (now counter : Nat) :
    OfModule ⟨action, getCacheDir, joinPath getCacheDir (tempDirName now counter)⟩ := by
  have letters : ∀ b ∈ tempDirName now counter, b ≠ chr '/' ∧ b ≠ 0 := by
    have digit : ∀ b : UInt8, isdigit b → b ≠ chr '/' ∧ b ≠ 0 := by
      rintro b digit
      constructor
      · rintro rfl
        exact absurd digit (by decide)
      · rintro rfl
        exact absurd digit (by decide)
    intro b mem
    simp only [tempDirName, List.mem_append] at mem
    rcases mem with ((text | mem) | text) | mem
    · revert b
      decide
    · exact digit b (isdigit_of_mem_decimal mem)
    · revert b
      decide
    · exact digit b (isdigit_of_mem_decimal mem)
  have long : 3 ≤ (tempDirName now counter).length := by
    have : (str "ams-zip-").length = 8 := rfl
    simp only [tempDirName, List.length_append]
    omega
  have plain : PlainName (tempDirName now counter) :=
    ⟨pathStep_of_length long, fun mem => (letters _ mem).1 rfl, fun mem => (letters _ mem).2 rfl⟩
  have notModules : getCacheDir ≠ getModulesDir := by decide
  have notLogs : getCacheDir ≠ getModuleLogsDir := by decide
  rw [OfModule, if_neg notModules, if_neg notLogs]
  refine ⟨rfl, ?_⟩
  rw [plain.fileLoc (by decide) (by decide)]
  exact below_down (List.suffix_refl _) _

theorem logsDir_atMost : AtMost getModuleLogsDir getModuleLogsDir := by
  intro before pre
  rw [cString_of_noNul logsDir_straight.plain.noNul] at pre
  rw [logsDir_straight.loc]
  exact lexical_suffix pre logsDir_straight.noUp

theorem modulesDir_reaches : Reaches getModulesDir getModulesDir :=
  (dirIn_self modulesDir_straight.plain modulesDir_straight.noUp).toReaches

theorem logModuleEvent_managing {name : ByteString} (log : OneName (name ++ str ".log")) :
    Managing (logModuleEvent (ε := ε) sys name) := by
  have dir : Managing (touch (ε := ε) sys .create getModuleLogsDir getModuleLogsDir) :=
    touch_adds sys (ofModule_logDir logsDir_atMost)
  have parent : Managing (touch (ε := ε) sys .create getModuleLogsDir
      (parentOf (moduleLogPath name))) :=
    touch_adds sys (ofModule_logDir (log.parent_atMost logsDir_straight))
  have file : Managing (touch (ε := ε) sys .write getModuleLogsDir (moduleLogPath name)) :=
    touch_adds sys (ofModule_log nofun (log.child logsDir_straight))
  exact dir.bind fun _ => (parent.andAlso file).bind fun _ => moves_pure _

theorem runScript_managing {name : ByteString} (log : OneName (name ++ str ".log"))
    (path : ByteString) (requireExists : Bool) :
    Managing (runScript sys path name requireExists) := by
  have event := logModuleEvent_managing (ε := ByteString) sys log
  have output : Managing (touch (ε := ByteString) sys .write getModuleLogsDir
      (moduleLogPath name)) :=
    touch_adds sys (ofModule_log nofun (log.child logsDir_straight))
  refine (ask_adds sys).bind fun _ => .ite (.ite ?_ (moves_pure _)) ?_
  · exact event.bind fun _ => moves_throw _
  · exact output.bind fun _ => .ite event (event.bind fun _ => moves_throw _)

theorem runLifecycleScripts_managing {info : ModuleInfo}
    (log : OneName (info.name ++ str ".log")) (dir : ByteString) :
    Managing (runLifecycleScripts sys info dir) := by
  have optional : ∀ wanted path, Managing (runOptionalScript sys wanted path info.name) := by
    intro wanted path
    have script := runScript_managing sys log path false
    exact .ite (Moves.bind (.attempt script) fun _ => moves_pure _) (moves_pure _)
  exact (optional _ _).bind fun _ => optional _ _

theorem applyEnabledModules_managing : Managing (applyEnabledModules sys) :=
  (ask_adds sys).bind fun _ =>
    .ite (moves_pure _) ((askText_adds sys).bind fun _ => moves_throw _)

/-- In a module's directory, the state file is right there. -/
theorem writeState_managing {name : ByteString} (h : OneName name) :
    Managing (writeState sys (modulePath name)) := by
  obtain ⟨-, -, -, -, -, noSlash⟩ := h.steps modulesDir_straight.plain
  have state : PlainName (str "state.json") := by decide
  have filled : modulePath name ≠ [] := by
    have first : getModulesDir <+: modulePath name := joinPath_starts (by decide) h.relative
    intro empty
    rw [empty] at first
    exact absurd (List.prefix_nil.mp first) (by decide)
  have parent : parentOf (joinPath (modulePath name) (str "state.json")) = modulePath name :=
    state.parentOf filled noSlash
  have dir : Managing (touch (ε := ByteString) sys .create getModulesDir
      (parentOf (joinPath (modulePath name) (str "state.json")))) := by
    rw [parent]
    exact touch_adds sys (ofModule_create (h.reaches modulesDir_straight))
  have file : Managing (touch (ε := ByteString) sys .write getModulesDir
      (joinPath (modulePath name) (str "state.json"))) := by
    apply touch_adds
    rw [OfModule, if_pos rfl]
    exact parent.symm ▸ h.child modulesDir_straight
  exact (dir.andAlso file).bind fun _ => .ite (moves_pure _) (moves_throw _)

theorem applyOrRecord_managing {name : ByteString} (h : OneName name) :
    Managing (applyOrRecord sys (modulePath name)) := by
  refine Moves.bind (.attempt (applyEnabledModules_managing sys)) fun r => ?_
  cases r with
  | ok _ => exact moves_pure _
  | error _ =>
    exact Moves.bind (.attempt (writeState_managing sys h)) fun _ => moves_throw _

theorem readModuleInfoFile_managing (path text : ByteString) :
    Managing (readModuleInfoFile sys path text) := by
  refine (ask_adds sys).bind fun _ => .ite ?_ (moves_throw _)
  cases parseModuleInfo text with
  | ok _ => exact moves_pure _
  | error _ => exact moves_throw _

/-- What is read is what the text says. -/
theorem readModuleInfoFile_spec (path text : ByteString) (t : Trace) :
    wp (readModuleInfoFile sys path text) (fun info _ => parseModuleInfo text = .ok info)
      (fun _ _ => True) t := by
  refine wp_bind.mpr (wp_update.mpr (wp_ite.mpr ⟨fun _ => ?_, fun _ => trivial⟩))
  cases parsed : parseModuleInfo text with
  | ok _ => exact rfl
  | error _ => trivial

theorem readModuleState_managing (path : ByteString) : Managing (readModuleState sys path) := by
  refine (ask_adds sys).bind fun _ => .ite (moves_pure _) ?_
  refine (ask_adds sys).bind fun _ => .ite ((askText_adds sys).bind fun text => ?_) (moves_throw _)
  cases parseModuleState text with
  | ok _ => exact moves_pure _
  | error _ => exact moves_throw _

theorem loadModule_managing (name : ByteString) : Managing (loadModule sys name) := by
  refine (ask_adds sys).bind fun _ => .ite (moves_throw _) ((askText_adds sys).bind fun _ => ?_)
  refine (readModuleInfoFile_managing sys _ _).bind fun _ => ?_
  exact (readModuleState_managing sys _).bind fun _ => moves_pure _

/-- The information of a module comes from an accepted text. -/
theorem loadModule_spec (name : ByteString) (t : Trace) :
    wp (loadModule sys name) (fun r _ => ∃ text, parseModuleInfo text = .ok r.1)
      (fun _ _ => True) t := by
  refine wp_bind.mpr (wp_update.mpr (wp_ite.mpr ⟨fun _ => trivial, fun _ => ?_⟩))
  refine wp_bind.mpr (wp_update.mpr (wp_bind.mpr ?_))
  refine wp_mono (readModuleInfoFile_spec sys _ _ _) (fun info t' parsed => ?_) fun _ _ h => h
  refine wp_bind.mpr (wp_of_forall (fun _ _ => ?_) fun _ _ => trivial)
  exact ⟨_, parsed⟩

/-- The log of a module with an accepted name is one file. -/
theorem oneName_log {json : ByteString} {info : ModuleInfo}
    (accepted : parseModuleInfo json = .ok info) : OneName (info.name ++ str ".log") := by
  obtain ⟨-, valid⟩ := parseModuleInfo_name accepted
  have long : 3 ≤ (info.name ++ str ".log").length := by
    have : (str ".log").length = 4 := rfl
    rw [List.length_append]
    omega
  have noSlash : chr '/' ∉ info.name := fun mem => absurd (valid _ mem) (by decide)
  have noNul : 0 ∉ info.name ++ str ".log" := by
    rw [List.mem_append, not_or]
    exact ⟨fun mem => absurd (valid _ mem) (by decide), by decide⟩
  exact oneName_of_plain ⟨pathStep_of_length long, noSlash_log noSlash, noNul⟩

/-- An accepted name other than `.` and `..` is one file. -/
theorem plainName_of_accepted {json : ByteString} {info : ModuleInfo}
    (accepted : parseModuleInfo json = .ok info)
    (notDots : info.name ≠ str "." ∧ info.name ≠ str "..") : PlainName info.name := by
  obtain ⟨nonempty, valid⟩ := parseModuleInfo_name accepted
  have step : pathStep info.name = .down info.name := by
    simp [pathStep, nonempty, notDots.1, notDots.2]
  exact ⟨step, fun mem => absurd (valid _ mem) (by decide),
    fun mem => absurd (valid _ mem) (by decide)⟩

theorem enableModule_managing {name : ByteString} (h : OneName name) :
    Managing (enableModule sys name) := by
  refine Moves.bind_of (loadModule_managing sys name) (loadModule_spec sys name) ?_
  rintro ⟨info, enabled⟩ ⟨text, accepted⟩
  refine .ite (moves_pure _) ((writeState_managing sys h).bind fun _ => ?_)
  refine (logModuleEvent_managing sys h.log).bind fun _ => ?_
  refine (applyOrRecord_managing sys h).bind fun _ => ?_
  exact runLifecycleScripts_managing sys (oneName_log accepted) _

theorem disableModule_managing {name : ByteString} (h : OneName name) :
    Managing (disableModule sys name) := by
  refine (loadModule_managing sys name).bind fun _ => .ite (moves_pure _) ?_
  refine (writeState_managing sys h).bind fun _ => ?_
  exact (logModuleEvent_managing sys h.log).bind fun _ => applyOrRecord_managing sys h

theorem removeDir_managing {name : ByteString} (h : OneName name) :
    Managing (touch (ε := ε) sys .removeTree getModulesDir (modulePath name)) :=
  touch_adds sys (ofModule_dir nofun nofun (h.child modulesDir_straight))

theorem removeLog_managing {name : ByteString} (log : OneName (name ++ str ".log")) :
    Managing (touch (ε := ε) sys .unlink getModuleLogsDir (moduleLogPath name)) :=
  touch_adds sys (ofModule_log nofun (log.child logsDir_straight))

theorem removeModule_managing {name : ByteString} (h : OneName name) :
    Managing (removeModule sys name) := by
  refine (loadModule_managing sys name).bind fun r => ?_
  have first : Managing (disableFirst sys r.2 name) :=
    .ite (Moves.bind (.attempt (disableModule_managing sys h)) fun _ => moves_pure _) (moves_pure _)
  refine first.bind fun _ => (removeDir_managing sys h).bind fun _ => ?_
  refine (removeLog_managing sys h.log).bind fun _ => ?_
  refine (logModuleEvent_managing sys h.log).bind fun _ => ?_
  exact Moves.bind (.attempt (applyEnabledModules_managing sys)) fun _ => moves_pure _

/-- A module in place has the information of its zip. -/
theorem placeModule_spec (tempDir infoText : ByteString) (t : Trace) :
    wp (placeModule sys tempDir infoText) (fun info _ => parseModuleInfo infoText = .ok info)
      (fun _ _ => True) t := by
  refine wp_bind.mpr (wp_update.mpr (wp_ite.mpr ⟨fun _ => trivial, fun _ => ?_⟩))
  refine wp_bind.mpr (wp_update.mpr (wp_ite.mpr ⟨fun _ => trivial, fun _ => ?_⟩))
  refine wp_bind.mpr (wp_of_forall (fun _ _ => ?_) fun _ _ => trivial)
  refine wp_bind.mpr (wp_mono (readModuleInfoFile_spec sys _ _ _) (fun info t' parsed => ?_)
    fun _ _ h => h)
  refine wp_bind.mpr (wp_update.mpr (wp_ite.mpr ⟨fun _ => trivial, fun _ => ?_⟩))
  refine wp_bind.mpr (wp_update.mpr (wp_bind.mpr (wp_update.mpr (wp_bind.mpr ?_))))
  exact wp_update.mpr (wp_ite.mpr ⟨fun _ => parsed, fun _ => trivial⟩)

section Install

variable {json : ByteString} {info : ModuleInfo} (accepted : parseModuleInfo json = .ok info)
  (plain : PlainName info.name)
include accepted plain

theorem runInstallScript_managing : Managing (runInstallScript sys info) := by
  have log := oneName_log accepted
  have warning : Managing (overlayWarning (ε := ByteString) sys) := by
    refine Moves.bind (.attempt (applyEnabledModules_managing sys)) fun r => ?_
    cases r with
    | ok _ => exact moves_pure _
    | error _ => exact moves_pure _
  refine .ite (Moves.bind (.attempt (runScript_managing sys log _ _)) fun r => ?_) (moves_pure _)
  cases r with
  | ok _ => exact moves_pure _
  | error _ =>
    refine (removeDir_managing sys (oneName_of_plain plain)).bind fun _ => ?_
    exact (removeLog_managing sys log).bind fun _ => warning.bind fun _ => moves_throw _

theorem setUpModule_managing : Managing (setUpModule sys info) := by
  have dir := (dirIn_self modulesDir_straight.plain modulesDir_straight.noUp).file plain
  have work := (dir.dirIn.file (by decide : PlainName (str "workdir"))).dirIn
  have targets : ∀ target ∈ overlayTargets, PlainName target := by decide
  have dirs : Managing (forEach (createQuietly (ε := ByteString) sys)
      (joinPath (modulePath info.name) (str "workdir") ::
        overlayTargets.map (joinPath (joinPath (modulePath info.name) (str "workdir")))) ()) := by
    apply Moves.forEach
    intro path mem _
    have reaches : Reaches getModulesDir path := by
      rcases List.mem_cons.mp mem with rfl | mem
      · exact work.toReaches
      · obtain ⟨target, listed, rfl⟩ := List.mem_map.mp mem
        exact (work.file (targets target listed)).toReaches
    have created : Managing (touch (ε := ByteString) sys .create getModulesDir path) :=
      touch_adds sys (ofModule_create reaches)
    exact created.bind fun _ => moves_pure _
  have log := oneName_log accepted
  refine dirs.bind fun _ => (writeState_managing sys (oneName_of_plain plain)).bind fun _ => ?_
  refine (logModuleEvent_managing sys log).bind fun _ => ?_
  refine (runInstallScript_managing sys accepted plain).bind fun _ => ?_
  refine (applyOrRecord_managing sys (oneName_of_plain plain)).bind fun _ => ?_
  exact runLifecycleScripts_managing sys log _

theorem installFromZip_managing (zipPath : ByteString) (now counter : Nat) :
    Managing (installFromZip sys zipPath json now counter) := by
  have temp : ∀ action, Managing (touch (ε := ByteString) sys action getCacheDir
      (joinPath getCacheDir (tempDirName now counter))) :=
    fun action => touch_adds sys (ofModule_temp action now counter)
  have root : Managing (findModuleRoot (ε := ByteString) sys
      (joinPath getCacheDir (tempDirName now counter))) := by
    refine (ask_adds sys).bind fun _ => .ite (moves_pure _) ((ask_adds sys).bind fun _ => ?_)
    refine .ite ((askText_adds sys).bind fun _ => ?_) (moves_pure _)
    exact ((ask_adds sys).andAlso (ask_adds sys)).bind fun _ => .ite (moves_pure _) (moves_pure _)
  have place :
      Managing (placeModule sys (joinPath getCacheDir (tempDirName now counter)) json) := by
    refine (temp .create).bind fun _ => .ite (moves_throw _) ((temp .extract).bind fun _ => ?_)
    refine .ite ((askText_adds sys).bind fun _ => moves_throw _) (root.bind fun _ => ?_)
    refine Moves.bind_of (readModuleInfoFile_managing sys _ _) (readModuleInfoFile_spec sys _ _) ?_
    intro info' same
    obtain rfl : info = info' := by
      rw [accepted] at same
      exact Except.ok.inj same
    refine (ask_adds sys).bind fun _ => .ite (moves_throw _) ?_
    have rename : Managing (touch (ε := ByteString) sys .rename getModulesDir
        (modulePath info.name)) :=
      touch_adds sys (ofModule_dir nofun nofun ((oneName_of_plain plain).child modulesDir_straight))
    have create : Managing (touch (ε := ByteString) sys .create getModulesDir getModulesDir) :=
      touch_adds sys (ofModule_create modulesDir_reaches)
    refine (removeDir_managing sys (oneName_of_plain plain)).bind fun _ => create.bind fun _ => ?_
    exact rename.bind fun _ => .ite (moves_pure _) ((askText_adds sys).bind fun _ => moves_throw _)
  have placed : ∀ t, wp (attempt (placeModule sys
      (joinPath getCacheDir (tempDirName now counter)) json) : Act Trace ByteString _)
      (fun r _ => ∀ info', r = .ok info' → info' = info) (fun _ _ => True) t := by
    intro t
    rw [wp_attempt]
    refine wp_mono (placeModule_spec sys _ json t) (fun info' _ parsed => ?_) fun _ _ _ => nofun
    rintro _ ⟨⟩
    rw [accepted] at parsed
    exact (Except.ok.inj parsed).symm
  refine .ite (moves_throw _) ((ask_adds sys).bind fun _ => .ite (moves_throw _) ?_)
  refine (temp .create).bind fun _ => .ite (moves_throw _) ?_
  refine Moves.bind_of (.attempt place) placed fun r same => (temp .removeTree).bind fun _ => ?_
  cases r with
  | error _ => exact moves_throw _
  | ok info' =>
    obtain rfl := same info' rfl
    exact setUpModule_managing sys accepted plain

end Install

end Operations

/-! ### Which names are confined -/

/-- Installing a module with this information does only what the manager may do. -/
def InstallConfined (json : ByteString) : Prop :=
  ∀ (sys : System) (zipPath : ByteString) (now counter : Nat),
    ∀ x ∈ (exec (installFromZip sys zipPath json now counter) {}).2.touched, OfModule x

/-- What is done to a module by its name is only what the manager may do. -/
def NameConfined (name : ByteString) : Prop :=
  ∀ sys : System, ∀ act ∈ [enableModule sys name, disableModule sys name, removeModule sys name],
    ∀ x ∈ (exec act {}).2.touched, OfModule x

/-- A system on which files hold this text, and which does what is asked but for one time. -/
def answering (refused : Nat) (text : ByteString) : System where
  ok := (· != refused)
  message := fun _ => []
  content := fun _ => text

theorem nameConfined_iff {name : ByteString} : NameConfined name ↔ OneName name := by
  constructor
  · intro h
    let text := str "\x7b\"name\":\"a\"\x7d"
    have parsed : parseModuleInfo text =
        .ok ⟨str "a", [], [], [], true, false, false, false⟩ := by decide +kernel
    have all := h (answering 3 text) (removeModule (answering 3 text) name) (by simp)
    have touched : (exec (removeModule (answering 3 text) name) {}).2.touched =
        [⟨.removeTree, getModulesDir, modulePath name⟩,
          ⟨.unlink, getModuleLogsDir, moduleLogPath name⟩,
          ⟨.create, getModuleLogsDir, getModuleLogsDir⟩,
          ⟨.create, getModuleLogsDir, parentOf (moduleLogPath name)⟩,
          ⟨.write, getModuleLogsDir, moduleLogPath name⟩] := by
      simp [removeModule, loadModule, readModuleInfoFile, readModuleState, disableFirst,
        logModuleEvent, writeAt, andAlso, applyEnabledModules, attempt, ask, askText, touch,
        exec_bind, answering, parsed, -bind_pure_comp]
    rw [touched] at all
    simp only [List.forall_mem_cons, OfModule, if_pos, logsDir_ne_modulesDir, if_false] at all
    obtain ⟨module, -, -, parent, log, -⟩ := all
    exact oneName_of_confined module log parent
  · intro h sys act mem
    have managing : Managing act := by
      simp only [List.mem_cons, List.not_mem_nil, or_false] at mem
      rcases mem with rfl | rfl | rfl
      · exact enableModule_managing sys h
      · exact disableModule_managing sys h
      · exact removeModule_managing sys h
    exact Adds.all (managing {})

/-- An install removes what is where the module goes. -/
theorem installFromZip_removes {json : ByteString} {info : ModuleInfo}
    (accepted : parseModuleInfo json = .ok info) :
    ⟨.removeTree, getModulesDir, modulePath info.name⟩ ∈
      (exec (installFromZip (answering 9 []) (str "a.zip") json 0 0) {}).2.touched := by
  simp [installFromZip, placeModule, findModuleRoot, readModuleInfoFile, attempt, ask, askText,
    touch, exec_bind, answering, accepted, str]

theorem installConfined_iff {json : ByteString} {info : ModuleInfo}
    (accepted : parseModuleInfo json = .ok info) :
    InstallConfined json ↔ info.name ≠ str "." ∧ info.name ≠ str ".." := by
  constructor
  · intro h
    have module := h (answering 9 []) (str "a.zip") 0 0 _ (installFromZip_removes accepted)
    rw [OfModule, if_pos rfl] at module
    obtain ⟨c, loc⟩ := module
    have length := congrArg List.length loc
    dsimp only at length
    rw [modulesDir_loc, List.length_cons] at length
    constructor
    · rintro dot
      have : (fileLoc (modulePath (str "."))).length = 3 := by decide
      rw [dot, this] at length
      exact absurd length (by simp)
    · intro dots
      have : (fileLoc (modulePath (str ".."))).length = 2 := by decide
      rw [dots, this] at length
      exact absurd length (by simp)
  · intro notDots sys zipPath now counter
    have plain := plainName_of_accepted accepted notDots
    exact Adds.all (installFromZip_managing sys accepted plain zipPath now counter {})

/-- **A module acts in its own directory** if and only if an accepted name is not `.` or `..`,
and a name that is asked for is the name of one file with nothing but `.` in front of it. -/
theorem module_confined_iff {json : ByteString} {info : ModuleInfo}
    (accepted : parseModuleInfo json = .ok info) (name : ByteString) :
    (InstallConfined json ↔ info.name ≠ str "." ∧ info.name ≠ str "..") ∧
      (NameConfined name ↔ OneName name) :=
  ⟨installConfined_iff accepted, nameConfined_iff⟩

theorem module_confined_fonts :
    InstallConfined (str "\x7b\"name\":\"fonts\"\x7d") ∧ NameConfined (str "fonts") := by
  have parsed : parseModuleInfo (str "\x7b\"name\":\"fonts\"\x7d") =
      .ok ⟨str "fonts", [], [], [], true, false, false, false⟩ := by decide +kernel
  obtain ⟨install, named⟩ := module_confined_iff parsed (str "fonts")
  have plain : PlainName (str "fonts") := by decide
  exact ⟨install.mpr (by decide), named.mpr (oneName_of_plain plain)⟩

/-- A module called `..` replaces `/data/ams`, with all that is in it. -/
theorem dotdot_module_removes_parent :
    (parseModuleInfo (str "\x7b\"name\":\"..\"\x7d")).isOk ∧
      ∃ x ∈ (exec (installFromZip (answering 9 []) (str "a.zip")
          (str "\x7b\"name\":\"..\"\x7d") 0 0) {}).2.touched,
        x.action = .removeTree ∧ fileLoc x.path = [str "ams", str "data"] ∧ ¬ OfModule x := by
  have parsed : parseModuleInfo (str "\x7b\"name\":\"..\"\x7d") =
      .ok ⟨str "..", [], [], [], true, false, false, false⟩ := by decide +kernel
  have loc : fileLoc (modulePath (str "..")) = [str "ams", str "data"] := by decide
  refine ⟨by rw [parsed]; rfl, _, installFromZip_removes parsed, rfl, loc, ?_⟩
  rw [OfModule, if_pos rfl]
  rintro ⟨c, same⟩
  have length := congrArg List.length same
  dsimp only at length
  rw [loc, modulesDir_loc] at length
  exact absurd length (by simp)

end Apm.Ams
