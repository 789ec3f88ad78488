import Apm.Util.Bytes
import Mathlib.Data.List.AList

/-!
The records of `repo_index.hpp` and `status_db.hpp`.

An `unordered_map` is a Mathlib `AList`: distinct keys in some iteration order.
Nothing may depend on that order unless it holds for every order.
-/

namespace Apm.Repo

inductive RepoFormat where
  | Debian | Termux
deriving DecidableEq, Repr

inductive RepoTrustPolicy where
  | Default | Require | Skip
deriving DecidableEq, Repr

inductive DebSignaturePolicy where
  | Disabled | Optional | Required
deriving DecidableEq, Repr

/-- The raw fields of a stanza. -/
abbrev Fields := AList fun _ : ByteString => ByteString

/-- Fields are compared by evaluation. -/
instance : DecidableEq Fields := fun a b => decidable_of_iff (a.entries = b.entries)
  AList.ext_iff.symm

structure PackageEntry where
  packageName : ByteString
  version : ByteString := []
  architecture : ByteString := []
  filename : ByteString := []
  sha256 : ByteString := []
  depends : List ByteString := []
  rawFields : Fields := ∅
  isTermuxPackage : Bool := false
  repoUri : ByteString := []
  repoDist : ByteString := []
  repoComponent : ByteString := []
deriving DecidableEq

abbrev PackageList := List PackageEntry

structure RepoSource where
  type : ByteString := str "deb"
  uri : ByteString
  dist : ByteString
  components : List ByteString
  arch : ByteString := []
  format : RepoFormat := .Debian
  isTermuxRepo : Bool := false
  trustPolicy : RepoTrustPolicy := .Default
  debSignaturePolicy : DebSignaturePolicy := .Disabled
deriving DecidableEq

/-- One source, component and architecture with its parsed packages. -/
structure RepoIndex where
  source : RepoSource
  component : ByteString
  arch : ByteString
  packagesPath : ByteString := []
  packages : PackageList
deriving DecidableEq

abbrev RepoIndexList := List RepoIndex

end Apm.Repo

namespace Apm.Status

structure InstalledPackage where
  name : ByteString
  version : ByteString := []
  architecture : ByteString := []
  status : ByteString := []
  installRoot : ByteString := []
  repoUri : ByteString := []
  repoDist : ByteString := []
  repoComponent : ByteString := []
  depends : List ByteString := []
  autoInstalled : Bool := false
  termuxPackage : Bool := false
  installPrefix : ByteString := []
deriving DecidableEq

abbrev InstalledDb := AList fun _ : ByteString => InstalledPackage

end Apm.Status
