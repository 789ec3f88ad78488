import Apm.Ams.ModuleInfo
import Apm.Core.Security
import Apm.Util.Path
import Apm.Util.Tree
import Mathlib.Data.List.Sort

/-!
`src/core/manual_package.cpp`: the package-info files of packages that are installed by hand.

A reading function gives what it read, and the rest of the text. Links among the files are not
followed.
-/

namespace Apm.Config

def MANUAL_PACKAGES_DIR : ByteString := str "/data/local/tmp/apm/runtime/manual-packages"

end Apm.Config

namespace Apm.Manual

open Apm.Fs
open Apm.Ams (skipWhitespace peek unescape)

structure PackageInfo where
  name : ByteString := []
  version : ByteString := []
  installTime : Nat := 0
  prefixDir : ByteString := []
  installedFiles : List ByteString := []
deriving DecidableEq

/-! ### The reader -/

def consume (expected : UInt8) (s : ByteString) : Except ByteString ByteString :=
  let s := skipWhitespace s
  if peek s != expected then
    .error (str "Expected '" ++ [expected] ++ str "' in package-info JSON")
  else .ok s.tail

/-- A string behind its opening quote. -/
def stringBody (result : ByteString) : ByteString → Except ByteString (ByteString × ByteString)
  | [] => .error (str "Unterminated string in package-info JSON")
  | c :: s =>
      if c == chr '"' then .ok (result, s)
      else if c == chr '\\' then
        match s with
        | [] => .error (str "Invalid escape in package-info JSON")
        | esc :: s =>
            match unescape esc with
            | some b => stringBody (result ++ [b]) s
            | none => .error (str "Unsupported escape in package-info JSON")
      else stringBody (result ++ [c]) s

def parseString (s : ByteString) : Except ByteString (ByteString × ByteString) :=
  let s := skipWhitespace s
  if peek s != chr '"' then .error (str "Expected string in package-info JSON")
  else stringBody [] s.tail

def uint64Max : Nat := 2 ^ 64 - 1

/-- One more digit of a number. -/
def pushDigit (value : Nat) (c : UInt8) : Except ByteString Nat :=
  let digit := c.toNat - 48
  if value > (uint64Max - digit) / 10 then .error (str "Numeric overflow in package-info JSON")
  else .ok (value * 10 + digit)

def parseUint64 (s : ByteString) : Except ByteString (Nat × ByteString) :=
  let s := skipWhitespace s
  let digits := s.takeWhile isdigit
  if digits.isEmpty then .error (str "Expected numeric value in package-info JSON")
  else do
    let value ← digits.foldlM pushDigit 0
    .ok (value, s.dropWhile isdigit)

/-- The loop of `parseStringArray`, with a bound on its turns. -/
def parseItems : Nat → List ByteString → ByteString →
    Except ByteString (List ByteString × ByteString)
  | 0, _, _ => .error (str "Malformed array in package-info JSON")
  | turns + 1, out, s => do
      let (entry, s) ← parseString s
      let out := out ++ [entry]
      let s := skipWhitespace s
      if peek s == chr ',' then parseItems turns out s.tail
      else if peek s == chr ']' then .ok (out, s.tail)
      else .error (str "Malformed array in package-info JSON")

def parseStringArray (out : List ByteString) (s : ByteString) :
    Except ByteString (List ByteString × ByteString) := do
  let s ← consume (chr '[') (skipWhitespace s)
  let s := skipWhitespace s
  if peek s == chr ']' then .ok (out, s.tail) else parseItems s.length out s

/-- `skipLiteral` fails without a message. -/
def skipLiteral (literal : String) (s : ByteString) : Except ByteString ByteString :=
  if (str literal).isPrefixOf s then .ok (s.drop (str literal).length) else .error []

def skipNumber (s : ByteString) : Except ByteString ByteString :=
  let s := skipWhitespace s
  let s := if peek s == chr '-' || peek s == chr '+' then s.tail else s
  let part (c : UInt8) := isdigit c || c == chr '.' || c == chr 'e' || c == chr 'E' ||
    c == chr '+' || c == chr '-'
  if (s.takeWhile part).isEmpty then .error (str "Malformed number in package-info JSON")
  else .ok (s.dropWhile part)

mutual

/-- `skipValue`. Between two calls a byte is read, so that twice the length is a bound. -/
def skipValue : Nat → ByteString → Except ByteString ByteString
  | 0, _ => .error []
  | bound + 1, s =>
      let s := skipWhitespace s
      let c := peek s
      if c == chr '"' then do
        let (_, s) ← parseString s
        .ok s
      else if c == chr '{' then
        let s := skipWhitespace s.tail
        if peek s == chr '}' then .ok s.tail else skipMembers bound s
      else if c == chr '[' then
        let s := skipWhitespace s.tail
        if peek s == chr ']' then .ok s.tail else skipItems bound s
      else if c == chr 't' then skipLiteral "true" s
      else if c == chr 'f' then skipLiteral "false" s
      else if c == chr 'n' then skipLiteral "null" s
      else if c == chr '-' || c == chr '+' || isdigit c then skipNumber s
      else .error (str "Unsupported token in package-info JSON")

/-- The loop over the members of an object that is skipped. -/
def skipMembers : Nat → ByteString → Except ByteString ByteString
  | 0, _ => .error []
  | bound + 1, s => do
      let (_, s) ← parseString s
      let s ← consume (chr ':') (skipWhitespace s)
      let s ← skipValue bound s
      let s := skipWhitespace s
      if peek s == chr '}' then .ok s.tail
      else
        let s ← consume (chr ',') s
        skipMembers bound s

/-- The loop over the items of an array that is skipped. -/
def skipItems : Nat → ByteString → Except ByteString ByteString
  | 0, _ => .error []
  | bound + 1, s => do
      let s ← skipValue bound s
      let s := skipWhitespace s
      if peek s == chr ']' then .ok s.tail
      else
        let s ← consume (chr ',') s
        skipItems bound s

end

/-- The value of a key. -/
def parseField (key : ByteString) (info : PackageInfo) (s : ByteString) :
    Except ByteString (PackageInfo × ByteString) := do
  if key == str "package" then
    let (name, s) ← parseString s
    .ok ({ info with name }, s)
  else if key == str "version" then
    let (version, s) ← parseString s
    .ok ({ info with version }, s)
  else if key == str "prefix" then
    let (prefixDir, s) ← parseString s
    .ok ({ info with prefixDir }, s)
  else if key == str "install_time" then
    let (installTime, s) ← parseUint64 s
    .ok ({ info with installTime }, s)
  else if key == str "installed_files" then
    let (installedFiles, s) ← parseStringArray info.installedFiles s
    .ok ({ info with installedFiles }, s)
  else
    let s ← skipValue (2 * s.length + 2) s
    .ok (info, s)

/-- The loop over the fields, with a bound on its turns. What follows the object is not looked
at. -/
def parseFields : Nat → Bool → PackageInfo → ByteString → Except ByteString PackageInfo
  | 0, _, _, _ => .error []
  | turns + 1, firstField, info, s => do
      let s := skipWhitespace s
      if peek s == chr '}' then .ok info
      else
        let s ← if firstField then .ok s else consume (chr ',') s
        let (key, s) ← parseString s
        let s ← consume (chr ':') (skipWhitespace s)
        let (info, s) ← parseField key info (skipWhitespace s)
        parseFields turns false info s

/-- `parsePackageInfo`. -/
def parsePackageInfo (json : ByteString) : Except ByteString PackageInfo := do
  let s ← consume (chr '{') (skipWhitespace json)
  let info ← parseFields (s.length + 1) true {} s
  if info.name.isEmpty then .error (str "package-info is missing 'package'")
  else if info.prefixDir.isEmpty then .error (str "package-info is missing 'prefix'")
  else .ok info

/-! ### The writer -/

/-- What a byte of a string is written as. -/
def escapeByte (c : UInt8) : ByteString :=
  if c == chr '\\' then str "\\\\"
  else if c == chr '"' then str "\\\""
  else if c == 8 then str "\\b"
  else if c == 12 then str "\\f"
  else if c == chr '\n' then str "\\n"
  else if c == chr '\r' then str "\\r"
  else if c == chr '\t' then str "\\t"
  else [c]

def escapeJsonString (input : ByteString) : ByteString := input.flatMap escapeByte

def quoted (text : ByteString) : ByteString := str "\"" ++ escapeJsonString text ++ str "\""

/-- The lines of the installed files. -/
def fileLines (files : List ByteString) : ByteString :=
  if files.isEmpty then []
  else (str ",\n").intercalate (files.map fun file => str "    " ++ quoted file) ++ str "\n"

def serializePackageInfo (info : PackageInfo) : ByteString :=
  str "\x7b\n  \"package\": " ++ quoted info.name ++
  str ",\n  \"version\": " ++ quoted info.version ++
  str ",\n  \"install_time\": " ++ decimal info.installTime ++
  str ",\n  \"prefix\": " ++ quoted info.prefixDir ++
  str ",\n  \"installed_files\": [\n" ++ fileLines info.installedFiles ++ str "  ]\n\x7d\n"

/-! ### The directory of the files -/

/-- The texts of the regular files with visible names, in the order of `listDir`. -/
def visibleFiles : Dir → List ByteString
  | .empty => []
  | .file name text rest => if hidden name then visibleFiles rest else text :: visibleFiles rest
  | .link _ _ rest => visibleFiles rest
  | .dir _ _ rest => visibleFiles rest

def listInstalledPackages (dir : Tree) : Except ByteString (List PackageInfo) := do
  let packages ← (visibleFiles dir.1).mapM parsePackageInfo
  .ok (packages.insertionSort fun a b => a.name ≤ b.name)

/-- The name of a package's file. -/
def infoFileName (name : ByteString) : ByteString := name ++ str ".json"

theorem infoFileName_fileName {name : ByteString}
    (valid : Security.validatePackageName name = none) : FileName (infoFileName name) := by
  constructor
  · simp [infoFileName, str]
  · intro slash
    rcases List.mem_append.mp slash with mem | mem
    · have := (Security.validatePackageName_chars valid).2 _ mem
      revert this
      decide
    · revert mem
      decide

/-- `saveInstalledPackage`: the directory afterwards. -/
def saveInstalledPackage (dir : Tree) (info : PackageInfo) : Except ByteString Tree :=
  if info.name.isEmpty then .error (str "Manual package name is empty")
  else
    match valid : Security.validatePackageName info.name with
    | some err => .error err
    | none =>
        let file := infoFileName info.name
        if isDir (dir.find file) then
          .error (str "Failed to write " ++ joinPath Config.MANUAL_PACKAGES_DIR file)
        else
          .ok (dir.writeFile ⟨file, infoFileName_fileName valid⟩ (serializePackageInfo info))

end Apm.Manual
