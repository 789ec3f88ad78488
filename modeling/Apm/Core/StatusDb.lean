import Apm.Core.Stanza

/-!
The status file (`src/core/status_db.cpp`): a stanza of `Key: value` lines for each
installed package.

Values are written as they are, so a value with line breaks is read as several lines.
-/

namespace Apm.Status

open Apm.Repo

/-! ### Reading -/

def parseBool (raw : ByteString) : Bool :=
  let s := raw.map tolower
  s == str "1" || s == str "yes" || s == str "true"

/-- The record of a stanza. -/
def readRecord (fields : Fields) : InstalledPackage where
  name := getField fields "Package"
  version := getField fields "Version"
  architecture := getField fields "Architecture"
  status := getField fields "Status"
  installRoot := getField fields "Installed-Root"
  repoUri := getField fields "Repo"
  repoDist := getField fields "Repo-Dist"
  repoComponent := getField fields "Repo-Component"
  installPrefix := getField fields "Install-Prefix"
  depends := parseDependsField (getField fields "Depends")
  autoInstalled := parseBool (getField fields "Auto-Installed")
  termuxPackage := parseBool (getField fields "Termux-Package")

/-- `loadStatusFile` on the text of the file; a missing file is an empty one. -/
def parseStatus (content : ByteString) : InstalledDb :=
  (parseStanzas content).foldl (fun out fields =>
    let pkg := readRecord fields
    if pkg.name.isEmpty then out else out.insert pkg.name pkg) ∅

/-! ### Writing -/

/-- `Key: value` and a line break, unless the value is empty. -/
def fieldLine (key : String) (value : ByteString) : ByteString :=
  if value.isEmpty then [] else str key ++ str ": " ++ value ++ str "\n"

def stanzaText (pkg : InstalledPackage) : ByteString :=
  str "Package: " ++ pkg.name ++ str "\n" ++
  fieldLine "Version" pkg.version ++
  fieldLine "Architecture" pkg.architecture ++
  fieldLine "Status" pkg.status ++
  fieldLine "Installed-Root" pkg.installRoot ++
  fieldLine "Repo" pkg.repoUri ++
  fieldLine "Repo-Dist" pkg.repoDist ++
  fieldLine "Repo-Component" pkg.repoComponent ++
  fieldLine "Install-Prefix" pkg.installPrefix ++
  (if pkg.termuxPackage then str "Termux-Package: yes\n" else []) ++
  (if pkg.depends.isEmpty then []
    else str "Depends: " ++ (str ", ").intercalate pkg.depends ++ str "\n") ++
  (if pkg.autoInstalled then str "Auto-Installed: yes\n" else []) ++
  str "\n"

/-- The text `writeStatusFile` writes, in the map's iteration order. -/
def statusText (db : InstalledDb) : ByteString :=
  (str "\n").intercalate (db.entries.map fun kv => stanzaText kv.2)

/-- The text gives back the records of the map, in some order. -/
def TextOf (text : ByteString) (db : InstalledDb) : Prop :=
  (parseStatus text).entries.Perm db.entries

theorem TextOf.lookup {text : ByteString} {db : InstalledDb} (h : TextOf text db)
    (name : ByteString) : (parseStatus text).lookup name = db.lookup name :=
  AList.perm_lookup h

end Apm.Status
