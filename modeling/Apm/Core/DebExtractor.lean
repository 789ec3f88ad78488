import Apm.Util.Path

/-!
`extractDebArchive` of `src/core/deb_extractor.cpp`, as far as the names of the members go:
which members are written, and where.
-/

namespace Apm.Deb

open Apm.Fs

/-- The name field of a member's header. -/
abbrev HeaderName := {name : ByteString // name.length = 16}

/-- The name of a member: without blanks at the end, and without one slash. -/
def memberName (header : ByteString) : ByteString :=
  let name := header.rdropWhile fun c => c == chr ' ' || c == chr '\n'
  if name.getLast? == some (chr '/') then name.dropLast else name

/-- A member that is written. -/
inductive Part where
  | control (path : ByteString)
  | data (path : ByteString)

def Part.path : Part → ByteString
  | control path | data path => path

/-- The part that a header announces, if the member is needed. -/
def partOf (outputDir header : ByteString) : Option Part :=
  let name := memberName header
  if (str "control.tar").isPrefixOf name then some (.control (joinPath outputDir name))
  else if (str "data.tar").isPrefixOf name then some (.data (joinPath outputDir name))
  else none

/-- Where the parts are; the last member of a kind counts. -/
structure DebParts where
  controlTarPath : ByteString := []
  dataTarPath : ByteString := []

def DebParts.add (parts : DebParts) : Part → DebParts
  | .control path => { parts with controlTarPath := path }
  | .data path => { parts with dataTarPath := path }

end Apm.Deb
