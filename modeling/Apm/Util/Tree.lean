import Apm.Lib.FileTree
import Apm.Util.Bytes
import Mathlib.Order.Defs.Unbundled

/-!
Directories of a disk as trees of named entries.
-/

namespace Apm.Fs

open Apm.Lib.FileTree (Entry)

/-- A name in a directory. -/
def FileName (name : ByteString) : Prop := name ≠ [] ∧ chr '/' ∉ name

instance (name : ByteString) : Decidable (FileName name) :=
  inferInstanceAs (Decidable (name ≠ [] ∧ chr '/' ∉ name))

abbrev Dir := Lib.FileTree.Dir ByteString ByteString

/-- A directory as it stands on a disk: in the order in which `listDir` gives its names. -/
def Tree := { d : Dir // d.Ordered FileName }

instance : DecidableEq Tree := inferInstanceAs (DecidableEq { d : Dir // d.Ordered FileName })

/-- `listDir` without hidden names leaves this one out. -/
def hidden (name : ByteString) : Bool := name.head? == some (chr '.')

/-- `PathNodeKind::Regular`. -/
def isRegular : Option (Entry ByteString ByteString) → Bool
  | some (.file _) => true
  | _ => false

/-- `PathNodeKind::Directory`. -/
def isDir : Option (Entry ByteString ByteString) → Bool
  | some (.dir _) => true
  | _ => false

namespace Tree

def empty : Tree := ⟨.empty, trivial⟩

def find (t : Tree) (name : ByteString) : Option (Entry ByteString ByteString) := t.1.find name

/-- The directory of that name. -/
def subdir (t : Tree) (name : ByteString) : Option Tree :=
  match found : t.1.find name with
  | some (.dir inner) => some ⟨inner, (t.2.of_find found).2 inner rfl⟩
  | _ => none

/-- Write a file. What is written to a link goes where it leads, and a directory is not written. -/
def writeFile (t : Tree) (name : { name // FileName name }) (text : ByteString) : Tree :=
  match t.find name with
  | some (.link _) | some (.dir _) => t
  | _ => ⟨t.1.put name (.file text), t.2.put name.2 trivial⟩

def makeDirs (t : Tree) (path : List { name // FileName name }) : Tree :=
  ⟨t.1.makeDirs (path.map (·.1)), t.2.makeDirs (by simp +contextual)⟩

end Tree

end Apm.Fs
