import Apm.Util.Bytes

/-!
The SHA-256 of FIPS 180-4, as the standard states it, for messages of whole bytes.

This is the yardstick, not a model of the repository: section numbers are the
standard's. The tables of constants are checked against their definition as
fractional parts of square and cube roots of the first primes.
-/

namespace Apm.Crypto.Fips180

abbrev Word := UInt32

/-! ### Functions and constants (sections 3.2, 4.1.2, 4.2.2, 5.3.3) -/

def ROTR (n : Word) (x : Word) : Word := (x >>> n) ||| (x <<< (32 - n))
def SHR (n : Word) (x : Word) : Word := x >>> n

def Ch (x y z : Word) : Word := (x &&& y) ^^^ (~~~x &&& z)
def Maj (x y z : Word) : Word := (x &&& y) ^^^ (x &&& z) ^^^ (y &&& z)
def bigSigma0 (x : Word) : Word := ROTR 2 x ^^^ ROTR 13 x ^^^ ROTR 22 x
def bigSigma1 (x : Word) : Word := ROTR 6 x ^^^ ROTR 11 x ^^^ ROTR 25 x
def smallSigma0 (x : Word) : Word := ROTR 7 x ^^^ ROTR 18 x ^^^ SHR 3 x
def smallSigma1 (x : Word) : Word := ROTR 17 x ^^^ ROTR 19 x ^^^ SHR 10 x

/-- The first 64 primes. -/
def primes : List Nat :=
  [2, 3, 5, 7, 11, 13, 17, 19, 23, 29, 31, 37, 41, 43, 47, 53, 59, 61, 67, 71, 73, 79, 83, 89,
   97, 101, 103, 107, 109, 113, 127, 131, 137, 139, 149, 151, 157, 163, 167, 173, 179, 181, 191,
   193, 197, 199, 211, 223, 227, 229, 233, 239, 241, 251, 257, 263, 269, 271, 277, 281, 283, 293,
   307, 311]

def K : List Word :=
  [0x428a2f98, 0x71374491, 0xb5c0fbcf, 0xe9b5dba5, 0x3956c25b, 0x59f111f1, 0x923f82a4, 0xab1c5ed5,
   0xd807aa98, 0x12835b01, 0x243185be, 0x550c7dc3, 0x72be5d74, 0x80deb1fe, 0x9bdc06a7, 0xc19bf174,
   0xe49b69c1, 0xefbe4786, 0x0fc19dc6, 0x240ca1cc, 0x2de92c6f, 0x4a7484aa, 0x5cb0a9dc, 0x76f988da,
   0x983e5152, 0xa831c66d, 0xb00327c8, 0xbf597fc7, 0xc6e00bf3, 0xd5a79147, 0x06ca6351, 0x14292967,
   0x27b70a85, 0x2e1b2138, 0x4d2c6dfc, 0x53380d13, 0x650a7354, 0x766a0abb, 0x81c2c92e, 0x92722c85,
   0xa2bfe8a1, 0xa81a664b, 0xc24b8b70, 0xc76c51a3, 0xd192e819, 0xd6990624, 0xf40e3585, 0x106aa070,
   0x19a4c116, 0x1e376c08, 0x2748774c, 0x34b0bcb5, 0x391c0cb3, 0x4ed8aa4a, 0x5b9cca4f, 0x682e6ff3,
   0x748f82ee, 0x78a5636f, 0x84c87814, 0x8cc70208, 0x90befffa, 0xa4506ceb, 0xbef9a3f7, 0xc67178f2]

/-- The eight working variables, and the eight words of a hash value. -/
structure Vars where
  (a b c d e f g h : Word)
deriving DecidableEq, Repr

/-- `H⁽⁰⁾`. -/
def H0 : Vars :=
  ⟨0x6a09e667, 0xbb67ae85, 0x3c6ef372, 0xa54ff53a, 0x510e527f, 0x9b05688c, 0x1f83d9ab, 0x5be0cd19⟩

/-- `w` is the first 32 bits of the fractional part of the `r`-th root of `p`: with
the integer part of the root in front it is the integer root of `p * 2 ^ (32 * r)`. -/
def IsRootFraction (r p : Nat) (w : Word) : Prop :=
  ∃ whole < 20, (whole * 2 ^ 32 + w.toNat) ^ r ≤ p * 2 ^ (32 * r) ∧
    p * 2 ^ (32 * r) < (whole * 2 ^ 32 + w.toNat + 1) ^ r

instance (r p : Nat) (w : Word) : Decidable (IsRootFraction r p w) := by
  unfold IsRootFraction; infer_instance

/-- Section 4.2.2: the `Kₜ` are cube root fractions of the first 64 primes. -/
theorem K_isRootFraction : ∀ t < 64, IsRootFraction 3 (primes.getD t 0) (K.getD t 0) := by
  decide +kernel

/-- Section 5.3.3: `H⁽⁰⁾` are square root fractions of the first eight primes. -/
theorem H0_isRootFraction :
    ∀ t < 8, IsRootFraction 2 (primes.getD t 0)
      ([H0.a, H0.b, H0.c, H0.d, H0.e, H0.f, H0.g, H0.h].getD t 0) := by
  decide +kernel

/-! ### Preprocessing (section 5) -/

/-- The number of zero bytes after the `0x80` byte: the least number that makes the
padded length 56 modulo 64. -/
def zeroBytes (len : Nat) : Nat := (119 - len % 64) % 64

theorem zeroBytes_least (len : Nat) :
    (len + 1 + zeroBytes len) % 64 = 56 ∧ ∀ k, (len + 1 + k) % 64 = 56 → zeroBytes len ≤ k := by
  unfold zeroBytes
  constructor
  · omega
  · intro k hk
    omega

/-- `n` as eight bytes, most significant first. -/
def be64 (n : Nat) : ByteString := (List.range 8).map fun j => UInt8.ofNat (n / 256 ^ (7 - j))

/-- Section 5.1.1: the message, a one bit, zero bits, and the bit length. -/
def pad (m : ByteString) : ByteString :=
  m ++ (0x80 :: List.replicate (zeroBytes m.length) 0) ++ be64 (8 * m.length)

/-- Section 5.2.1: block `i` of the padded message. -/
def block (p : ByteString) (i : Nat) : ByteString := (p.drop (64 * i)).take 64

/-! ### Hash computation (section 6.2.2) -/

/-- Big-endian word `t` of a block. -/
def wordOf (b : ByteString) (t : Nat) : Word :=
  UInt32.ofNat ((b.getD (4 * t) 0).toNat * 2 ^ 24 + (b.getD (4 * t + 1) 0).toNat * 2 ^ 16 +
    (b.getD (4 * t + 2) 0).toNat * 2 ^ 8 + (b.getD (4 * t + 3) 0).toNat)

/-- Step 1: the message schedule. -/
def W (b : ByteString) (t : Nat) : Word :=
  if t < 16 then wordOf b t
  else smallSigma1 (W b (t - 2)) + W b (t - 7) + smallSigma0 (W b (t - 15)) + W b (t - 16)

/-- Step 3, one round. -/
def round (b : ByteString) (v : Vars) (t : Nat) : Vars :=
  let T1 := v.h + bigSigma1 v.e + Ch v.e v.f v.g + K.getD t 0 + W b t
  let T2 := bigSigma0 v.a + Maj v.a v.b v.c
  { h := v.g, g := v.f, f := v.e, e := v.d + T1, d := v.c, c := v.b, b := v.a, a := T1 + T2 }

/-- Steps 2 to 4: the intermediate hash value after one more block. -/
def compress (H : Vars) (b : ByteString) : Vars :=
  let v := (List.range 64).foldl (round b) H
  ⟨v.a + H.a, v.b + H.b, v.c + H.c, v.d + H.d, v.e + H.e, v.f + H.f, v.g + H.g, v.h + H.h⟩

/-- The hash value `H⁽ᴺ⁾` of a padded message. -/
def hashBlocks (p : ByteString) : Vars :=
  (List.range (p.length / 64)).foldl (fun H i => compress H (block p i)) H0

/-- A byte as two lowercase hexadecimal digits. -/
def hexByte (b : UInt8) : ByteString := [hexDigit (b.toNat / 16), hexDigit (b.toNat % 16)]

/-- A word's four bytes, most significant first, in hexadecimal. -/
def hexWord (w : Word) : ByteString :=
  ((List.range 4).map fun j => UInt8.ofNat (w.toNat / 256 ^ (3 - j))).flatMap hexByte

/-- The digest in hexadecimal. -/
def hexDigest (v : Vars) : ByteString :=
  [v.a, v.b, v.c, v.d, v.e, v.f, v.g, v.h].flatMap hexWord

/-- The lowercase hexadecimal SHA-256 digest of a message. -/
def sha256Hex (m : ByteString) : ByteString := hexDigest (hashBlocks (pad m))

end Apm.Crypto.Fips180
