import Apm.Util.Bytes

/-!
`src/core/release_parser.cpp`: the checksums that a Release text lists.
-/

namespace Apm.Repo

structure ReleaseChecksumEntry where
  hash : ByteString
  name : ByteString
  size : Nat
deriving DecidableEq

structure ReleaseInfo where
  sha256 : List ReleaseChecksumEntry := []
  md5 : List ReleaseChecksumEntry := []
deriving DecidableEq

inductive Section where
  | None | SHA256 | MD5

/-! ### One line -/

/-- The value of a string of digits. -/
def digitsValue (digits : ByteString) : Nat :=
  digits.foldl (fun n c => 10 * n + (c.toNat - 48)) 0

/-- `strtoull` to base 10; 0 for no number or one out of range. -/
def parseSize (sizeStr : ByteString) : Nat :=
  let negative := sizeStr.head? == some (chr '-')
  let digits := (if negative || sizeStr.head? == some (chr '+') then sizeStr.tail else sizeStr)
    |>.takeWhile isdigit
  let value := digitsValue digits
  if 2 ^ 64 ≤ value then 0 else if negative then (2 ^ 64 - value) % 2 ^ 64 else value

/-- `<hash><space><size><space><name>`. -/
def parseEntry (line : ByteString) : Option ReleaseChecksumEntry :=
  let trimmed := trim line
  let hash := upTo isspace trimmed
  let rest := (trimmed.drop hash.length).dropWhile isspace
  let sizeStr := upTo isspace rest
  let name := trim (rest.drop sizeStr.length)
  if hash.isEmpty || sizeStr.isEmpty || name.isEmpty then none
  else some { hash, name, size := parseSize sizeStr }

def ReleaseInfo.push (info : ReleaseInfo) (entry : ReleaseChecksumEntry) : Section → ReleaseInfo
  | .SHA256 => { info with sha256 := info.sha256 ++ [entry] }
  | .MD5 => { info with md5 := info.md5 ++ [entry] }
  | .None => info

/-- The section that a top-level line opens. -/
def sectionOf (line : ByteString) : Section :=
  let key := trim (upTo (· == chr ':') line)
  if key == str "SHA256" then .SHA256
  else if key == str "MD5Sum" then .MD5
  else .None

def releaseLine (x : ReleaseInfo × Section) (line : ByteString) : ReleaseInfo × Section :=
  let line := dropCr line
  match line with
  | [] => (x.1, .None)
  | first :: _ =>
      if first == chr ' ' || first == chr '\t' then
        match parseEntry line with
        | some entry => (x.1.push entry x.2, x.2)
        | none => x
      else (x.1, sectionOf line)

/-! ### The whole text -/

/-- Does the text list checksums, and which? -/
def parseReleaseCore (text : ByteString) : Bool × ReleaseInfo :=
  let info := ((getlines (chr '\n') text).foldl releaseLine ({}, .None)).1
  (!(info.sha256.isEmpty && info.md5.isEmpty), info)

/-- What a caller of `parseReleaseCore` goes on with: the entries, if there are any. -/
def parseReleaseText (text : ByteString) : Option ReleaseInfo :=
  let info := ((getlines (chr '\n') text).foldl releaseLine ({}, .None)).1
  if info.sha256.isEmpty && info.md5.isEmpty then none else some info

theorem parseReleaseText_eq (text : ByteString) :
    parseReleaseText text =
      if (parseReleaseCore text).1 then some (parseReleaseCore text).2 else none := by
  unfold parseReleaseText parseReleaseCore
  dsimp only
  split
  · rename_i empty
    simp [empty]
  · rename_i filled
    simp [filled]

def findSha256ForPath (info : ReleaseInfo) (name : ByteString) : Option ByteString :=
  (info.sha256.find? (·.name == name)).map (·.hash)

def findMd5ForPath (info : ReleaseInfo) (name : ByteString) : Option ByteString :=
  (info.md5.find? (·.name == name)).map (·.hash)

end Apm.Repo
