import Apm.Lib.Walk
import Apm.Util.Bytes

/-!
Paths: `joinPath` of `src/util/fs.cpp` and the getters of `src/core/config.cpp`
outside emulator mode.
-/

namespace Apm.Fs

/-- Join two segments with one slash; an absolute right side wins. -/
def joinPath (left right : ByteString) : ByteString :=
  if right.isEmpty then left
  else if right.head? == some (chr '/') then right
  else if left.isEmpty then right
  else if left.getLast? == some (chr '/') then left ++ right
  else left ++ str "/" ++ right

theorem joinPath_filled {left right : ByteString} (filled : right ≠ []) :
    joinPath left right ≠ [] := by
  unfold joinPath
  rw [if_neg (by simpa using filled)]
  split
  · exact filled
  split
  · exact filled
  split
  · simp [filled]
  · simp [filled]

/-- What stands before the last slash. -/
def parentOf (path : ByteString) : ByteString := (path.rdropWhile (· != chr '/')).dropLast

/-- A component of a path. -/
def pathStep (segment : ByteString) : Lib.Walk.Step ByteString :=
  if segment.isEmpty || segment == str "." then .stay
  else if segment == str ".." then .up
  else .down segment

/-- The steps that the components of a path are. -/
def pathSteps (path : ByteString) : List (Lib.Walk.Step ByteString) :=
  (path.splitOn (chr '/')).map pathStep

theorem pathSteps_append_slash (left right : ByteString) :
    pathSteps (left ++ chr '/' :: right) = pathSteps left ++ pathSteps right := by
  rw [pathSteps, List.splitOn_append_cons_self, List.map_append, ← pathSteps, ← pathSteps]

/-- A path without a slash is one component. -/
theorem pathSteps_component {path : ByteString} (h : chr '/' ∉ path) :
    pathSteps path = [pathStep path] := by
  rw [pathSteps, List.splitOn_eq_singleton h, List.map_singleton]

/-- A longer component than `..` is a name. -/
theorem pathStep_of_length {segment : ByteString} (h : 3 ≤ segment.length) :
    pathStep segment = .down segment := by
  have notDot : segment ≠ str "." := by
    rintro rfl
    exact absurd h (by decide)
  have notDots : segment ≠ str ".." := by
    rintro rfl
    exact absurd h (by decide)
  have nonempty : segment ≠ [] := by
    rintro rfl
    exact absurd h (by decide)
  simp [pathStep, notDot, notDots, nonempty]

/-- Each step up takes two bytes, and a slash before the next. -/
theorem count_up_le (path : ByteString) : 3 * (pathSteps path).count .up ≤ path.length + 1 := by
  induction length : path.length using Nat.strong_induction_on generalizing path with
  | _ n ih =>
    have one : ∀ segment : ByteString, chr '/' ∉ segment →
        3 * (pathSteps segment).count .up ≤ segment.length + 1 := by
      intro segment noSlash
      rw [pathSteps_component noSlash]
      by_cases long : 3 ≤ segment.length
      · simp [pathStep_of_length long]
      · by_cases up : segment = str ".."
        · subst up
          decide
        · have : pathStep segment ≠ .up := by
            unfold pathStep
            split
            · exact nofun
            · rw [if_neg (by simpa using up)]
              exact nofun
          simp [this]
    by_cases slash : chr '/' ∈ path
    · obtain ⟨left, right, rfl, noSlash⟩ := List.eq_append_cons_of_mem slash
      rw [List.length_append, List.length_cons] at length
      have first := one left noSlash
      have rest := ih right.length (by omega) right rfl
      rw [pathSteps_append_slash, List.count_append]
      omega
    · exact length ▸ one path slash

end Apm.Fs

namespace Apm.Config

def getInstalledDir : ByteString := str "/data/local/tmp/apm/runtime/installed"
def getCommandsDir : ByteString := str "/data/local/tmp/apm/runtime/installed/commands"
def getDependenciesDir : ByteString := str "/data/local/tmp/apm/runtime/installed/dependencies"
def getTermuxInstalledDir : ByteString :=
  str "/data/local/tmp/apm/runtime/installed/termux/usr/.apm-installed"
def getTermuxPrefix : ByteString := str "/data/local/tmp/apm/runtime/installed/termux/usr"
def getTermuxRoot : ByteString := str "/data/local/tmp/apm/runtime/installed/termux"
def getTermuxEnvFile : ByteString := str "/data/local/tmp/apm/runtime/installed/termux/env.sh"
def getTermuxHomeDir : ByteString := str "/data/local/tmp/apm/runtime/installed/termux/home"
def getTermuxTmpDir : ByteString := str "/data/local/tmp/apm/runtime/installed/termux/tmp"
def getApmBinDir : ByteString := str "/data/local/tmp/apm/bin"
def getCacheDir : ByteString := str "/data/apm/cache"
def getModulesDir : ByteString := str "/data/ams/modules"
def getModuleLogsDir : ByteString := str "/data/ams/logs"
def getPkgsDir : ByteString := str "/data/apm/pkgs"
def getListsDir : ByteString := str "/data/apm/lists"
def getTrustedKeysDir : ByteString := str "/data/apm/keys"
def getDefaultArch : ByteString := str "arm64"

end Apm.Config
