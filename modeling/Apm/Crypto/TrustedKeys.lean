import Apm.Crypto.Clearsign
import Apm.Crypto.Fips180
import Apm.Crypto.SignaturePacket
import Apm.Util.Tree

/-!
Signatures and the directory of trusted keys (`src/util/crypto/gpg_verify.cpp`):
`buildKeyFromBlob`, `loadKeyFile`, `verifyWithKey`, `verifyDetachedSignature` and
`verifyClearsignedRelease`.

The functions of BoringSSL are parameters. A result is undefined where a packet of 32 bits wraps.

## Main results

* `verifyDetachedSignature_iff`: which signatures are accepted, and for which key;
* `accepted_iff_any_key`: other files in the directory change nothing;
* `clearsigned_text_signed`: a text that is given back was signed line by line.
-/

namespace Apm.Crypto

open Apm.Fs Apm.Lib Apm.Lib.BigEndian Apm.Lib.Loop Apm.Lib.Text

/-! ### The cryptographic library -/

/-- What is used of BoringSSL. Where it gives nothing, it fails. -/
structure BoringSsl where
  evp : Evp
  EVP_DecodeBlock : BlockDecoder
  SHA256 : ByteString → Option ByteString
  EVP_PKEY : Type
  RSA : Type
  /-- `PEM_read_bio_PUBKEY`, or else `d2i_PUBKEY`. -/
  readPubkey : ByteString → Option EVP_PKEY
  EVP_PKEY_get0_RSA : EVP_PKEY → Option RSA
  /-- The modulus and the exponent. -/
  RSA_get0_key : RSA → Option Int × Option Int
  /-- There is room for a key and its numbers. -/
  RSA_new : Bool
  RSA_set0_key : Nat → Nat → Option RSA
  EVP_PKEY_new : Bool
  EVP_PKEY_set1_RSA : RSA → Option EVP_PKEY
  RSA_size : RSA → Nat
  /-- With the padding of PKCS#1; nothing also where nothing is recovered. -/
  RSA_public_decrypt : RSA → ByteString → Option ByteString

/-- `BN_num_bits`. -/
def numBits (n : Int) : Nat := if n = 0 then 0 else n.natAbs.log2 + 1

/-- A check that gives a result or says why not, where it is defined. -/
abbrev Check := ExceptT ByteString Option

/-- A check that is always defined. -/
def Check.of {α : Type} (x : Except ByteString α) : Check α := ExceptT.mk (some x)

theorem Check.bind_ok {α β : Type} {x : Check α} {f : α → Check β} {r : β} :
    (x >>= f).run = some (.ok r) ↔ ∃ a, x.run = some (.ok a) ∧ (f a).run = some (.ok r) := by
  have run : (x >>= f).run = x.run.bind (ExceptT.bindCont f) := rfl
  rw [run, Option.bind_eq_some_iff]
  constructor
  · rintro ⟨e, there, next⟩
    cases e with
    | error message => cases next
    | ok a => exact ⟨a, there, next⟩
  · rintro ⟨a, there, next⟩
    exact ⟨.ok a, there, next⟩

/-- It can be computed whether a check succeeds. -/
theorem Check.exists_ok {α : Type} {x : Check α} :
    (∃ r, x.run = some (.ok r)) ↔ x.run.any (·.isOk) = true := by
  constructor
  · rintro ⟨r, ok⟩
    rw [ok]
    rfl
  · intro ok
    obtain ⟨result, there, isOk⟩ := (Option.any_eq_true _ _).mp ok
    cases result with
    | error message => cases isOk
    | ok r => exact ⟨r, there⟩

theorem Check.run_of {α : Type} {x : Except ByteString α} {r : α} :
    (Check.of x).run = some (.ok r) ↔ x = .ok r := Option.some_inj

/-! ### Keys -/

section Keys

variable (w : Width) (lib : BoringSsl)

/-- The end of a path from its last dot on, in lower case. -/
def extension (path : ByteString) : Option ByteString :=
  let behind := path.rtakeWhile (· != chr '.')
  if behind.length = path.length then none else some ((chr '.' :: behind).map tolower)

def isTrustedKeyFile (path : ByteString) : Bool :=
  extension path == some (str ".asc") || extension path == some (str ".gpg")

/-- `sha256Hex`, empty where the hash fails. -/
def sha256Hex (data : ByteString) : ByteString := ((lib.SHA256 data).getD []).flatMap Fips180.hexByte

def modulusLengthValid (bits : Nat) : Bool := 2048 ≤ bits && bits ≤ 4096

structure LoadedKey where
  pkey : lib.EVP_PKEY
  keyBytes : Nat

/-- A turn of the search does not come back, so there are at most so many turns as octets. -/
def findRsaPublicKey (blob : ByteString) : Check RsaPublicKey :=
  ExceptT.mk (iterate (findTurn w blob) (blob.length + 1) 0).join

/-- A key that BoringSSL reads by itself. -/
def checkPubkey (pkey : lib.EVP_PKEY) : Except ByteString (LoadedKey lib) :=
  match lib.EVP_PKEY_get0_RSA pkey with
  | none => .error (str "Public key is not RSA")
  | some rsa =>
      match (lib.RSA_get0_key rsa).1 with
      | none => .error (str "RSA key missing or invalid modulus")
      | some n =>
          if n ≤ 0 then .error (str "RSA key missing or invalid modulus")
          else if !modulusLengthValid (numBits n) then
            .error (str "RSA key size outside 2048-4096 bit range")
          else .ok ⟨pkey, (numBits n + 7) / 8⟩

/-- The key with the numbers of a packet. -/
def importRsa (found : RsaPublicKey) : Except ByteString (LoadedKey lib) :=
  if !modulusLengthValid found.modulusBits then
    .error (str "RSA key size outside 2048-4096 bit range")
  else if !lib.RSA_new then .error (str "Failed to allocate RSA components")
  else
    match lib.RSA_set0_key (ofBytes found.modulus) (ofBytes found.exponent) with
    | none => .error (str "Failed to import RSA key: " ++ lib.evp.formatCryptoError)
    | some rsa =>
        match lib.RSA_get0_key rsa with
        | (some mod, some exp) =>
            if mod ≤ 0 || exp ≤ 0 || exp % 2 == 0 then .error (str "RSA key is invalid")
            else if numBits mod != found.modulusBits then
              .error (str "RSA modulus length mismatch")
            else if !lib.EVP_PKEY_new then
              .error (str "Failed to allocate EVP_PKEY: " ++ lib.evp.formatCryptoError)
            else
              match lib.EVP_PKEY_set1_RSA rsa with
              | none => .error (str "Failed to set up RSA key: " ++ lib.evp.formatCryptoError)
              | some pkey => .ok ⟨pkey, (found.modulusBits + 7) / 8⟩
        | _ => .error (str "RSA key is invalid")

/-- `buildKeyFromBlob`: the key, and its fingerprint. -/
def buildKeyFromBlob (blob : ByteString) : Check (LoadedKey lib × ByteString) := do
  let fingerprint := sha256Hex lib blob
  if fingerprint.isEmpty then throw (str "Failed to compute key fingerprint")
  else if blob.isEmpty then throw (str "Public key data is empty")
  else
    match lib.readPubkey blob with
    | some pkey =>
        let key ← Check.of (checkPubkey lib pkey)
        return (key, fingerprint)
    | none =>
        let found ← findRsaPublicKey w blob
        let key ← Check.of (importRsa lib found)
        return (key, fingerprint)

/-- `loadKeyFile`, on what the stream of the file gives. Its error state is not that of its buffer,
so that a read that fails is taken for the end of the file. -/
def loadKeyFile (path : ByteString) (file : Option (Buffer w)) :
    Check (LoadedKey lib × ByteString) := do
  match file with
  | none => throw (str "Failed to open key: " ++ path)
  | some content =>
      let (decoded, _) ← Check.of (decodeArmoredBlock lib.EVP_DecodeBlock content.bytes)
      buildKeyFromBlob w lib decoded

/-! ### Signatures -/

def normalizeSignature (mpi : ByteString) (keyBytes : Nat) : Except ByteString ByteString :=
  if keyBytes == 0 then .error (str "Invalid RSA modulus length")
  else if mpi.length > keyBytes then .error (str "Signature length exceeds RSA modulus length")
  else .ok (List.replicate (keyBytes - mpi.length) 0 ++ mpi)

/-- The DigestInfo of a SHA-256 digest up to the digest. -/
def sha256Prefix : ByteString :=
  [0x30, 0x31, 0x30, 0x0d, 0x06, 0x09, 0x60, 0x86, 0x48, 0x01, 0x65, 0x03, 0x04, 0x02, 0x01, 0x05,
    0x00, 0x04, 0x20]

def verifyWithKey (key : LoadedKey lib) (digest sigBytes : ByteString) : Except ByteString Unit :=
  match lib.EVP_PKEY_get0_RSA key.pkey with
  | none => .error (str "Loaded key is not RSA")
  | some rsa =>
      if sigBytes.length != lib.RSA_size rsa then
        .error (str "Signature length does not match RSA modulus length")
      else
        match lib.RSA_public_decrypt rsa sigBytes with
        | none => .error (str "RSA_public_decrypt failed: " ++ lib.evp.formatCryptoError)
        | some recovered =>
            if recovered.length != sha256Prefix.length + 32 then
              .error (str "Decrypted signature has unexpected DigestInfo length")
            else if recovered.take sha256Prefix.length != sha256Prefix then
              .error (str "Decrypted signature DigestInfo prefix mismatch")
            else if !digest.isPrefixOf (recovered.drop sha256Prefix.length) then
              .error (str "Decrypted signature digest mismatch")
            else .ok ()

/-! ### The key directory -/

/-- A directory of keys: its entries, the regular files behind its links, and what the stream of a
file gives, if it can be opened. -/
structure KeyDir where
  tree : Tree
  behind : ByteString → Option ByteString
  stream : ByteString → ByteString → Option (Buffer w)

/-- A file that the loop over the directory takes for a key: its path, and what its stream gives. -/
abbrev KeyFile := ByteString × Option (Buffer w)

namespace KeyDir

variable {w} (keys : KeyDir w)

/-- The regular file of that name, links followed. -/
def regular (name : ByteString) : Option ByteString :=
  match keys.tree.find name with
  | some (.file content) => some content
  | some (.link leads) => keys.behind leads
  | _ => none

def keyFile (dir name : ByteString) : Option (KeyFile w) :=
  match keys.regular name with
  | none => none
  | some content =>
      if isTrustedKeyFile (joinPath dir name) then
        some (joinPath dir name, keys.stream name content)
      else none

def keyFiles (dir : ByteString) : List (KeyFile w) :=
  (keys.tree.1.names.filter (!hidden ·)).filterMap (keys.keyFile dir)

end KeyDir

/-- One key file of the loop: the fingerprint of its key if that verifies the signature. -/
def tryKey (digest mpi : ByteString) (file : KeyFile w) : Check ByteString := do
  let (key, fingerprint) ← loadKeyFile w lib file.1 file.2
  let sigPadded ← Check.of (normalizeSignature mpi key.keyBytes)
  Check.of (verifyWithKey lib key digest sigPadded)
  return fingerprint

/-- The loop: the first fingerprint, or the last error if there is a key. -/
def tryKeys (digest mpi : ByteString) :
    List (KeyFile w) → Option ByteString → Option (Except (Option ByteString) ByteString)
  | [], lastErr => some (.error lastErr)
  | file :: rest, _ =>
      match (tryKey w lib digest mpi file).run with
      | none => none
      | some (.ok fingerprint) => some (.ok fingerprint)
      | some (.error keyErr) => tryKeys digest mpi rest (some keyErr)

/-- The end of both checks: a key of the directory for the digest. -/
def findSigner (what : String) (sig : ParsedSignature) (digest trustedKeysDir : ByteString)
    (keys : Option (KeyDir w)) : Check ByteString := do
  if ofBytes (digest.take 2) != sig.hashLeft16 then throw (str "Signature hash prefix mismatch")
  else
    match keys with
    | none => throw (str "Trusted keys directory missing: " ++ trustedKeysDir)
    | some keys =>
        ExceptT.mk <| (tryKeys w lib digest sig.signatureMpi (keys.keyFiles trustedKeysDir)
          none).map fun
            | .ok fingerprint => .ok fingerprint
            | .error none => .error (str "No trusted keys found in " ++ trustedKeysDir)
            | .error (some lastErr) =>
                .error (str what ++ str " did not match any trusted key" ++
                  if lastErr.isEmpty then [] else str ": " ++ lastErr)

def endSig : ByteString := str "-----END PGP SIGNATURE-----"

def extractSignatureArmor (text : ByteString) : Option ByteString :=
  match breakOn beginSig text with
  | none => none
  | some (_, block) =>
      match breakOn endSig block with
      | none => none
      | some (front, rest) =>
          some (front ++ endSig ++
            (rest.drop endSig.length).takeWhile fun c => c == chr '\n' || c == chr '\r')

/-- The text of a signature file: of a `.gpg` file its armor, if it has one. -/
def signatureText (sigPath sigText : ByteString) : ByteString :=
  if extension sigPath == some (str ".gpg") then (extractSignatureArmor sigText).getD sigText
  else sigText

/-- The beginning of both checks: an RSA signature of a SHA-256 digest. -/
def readSignature (sigText : ByteString) : Check ParsedSignature := do
  let (sigBlob, _) ← Check.of (decodeArmoredBlock lib.EVP_DecodeBlock sigText)
  let sig ← ExceptT.mk (parseSignaturePacket w sigBlob)
  if sig.hashAlgo != 8 then throw (str "Unsupported hash algorithm (SHA256 required)")
  else if sig.pubKeyAlgo != 1 && sig.pubKeyAlgo != 3 then
    throw (str "Unsupported signature algorithm (RSA only)")
  else return sig

/-- `verifyDetachedSignature`: the fingerprint of the key. -/
def verifyDetachedSignature (dataPath : ByteString) (data : Option InputFile)
    (sigPath : ByteString) (sigFile : Option ByteString) (trustedKeysDir : ByteString)
    (keys : Option (KeyDir w)) : Check ByteString := do
  match sigFile with
  | none => throw (str "Failed to open signature: " ++ sigPath)
  | some sigText =>
      let sig ← readSignature w lib (signatureText sigPath sigText)
      let digest ← Check.of (hashSignedData lib.evp sig dataPath data)
      findSigner w lib "Signature" sig digest trustedKeysDir keys

/-- `verifyClearsignedRelease`: the text with LF line ends. -/
def verifyClearsignedRelease (inReleasePath : ByteString) (file : Option ByteString)
    (trustedKeysDir : ByteString) (keys : Option (KeyDir w)) : Check ByteString := do
  match file with
  | none => throw (str "Failed to open InRelease: " ++ inReleasePath)
  | some all =>
      match extractSignatureArmor all with
      | none => throw (str "Clearsigned file missing PGP SIGNATURE block")
      | some sigArmor =>
          let sig ← readSignature w lib sigArmor
          let (decodedBody, canonicalBody) ← Check.of (extractClearsignedBodies all)
          let digest ← Check.of (hashSignedBuffer lib.evp sig canonicalBody)
          let _ ← findSigner w lib "InRelease" sig digest trustedKeysDir keys
          return decodedBody

end Keys

/-! ### Keys that verify -/

section Keys

variable (w : Width) (lib : BoringSsl)

/-- The key in the content of a key file. -/
def HoldsKey (content blob : ByteString) (key : LoadedKey lib) : Prop :=
  (∃ armored, decodeArmoredBlock lib.EVP_DecodeBlock content = .ok (blob, armored)) ∧
    (buildKeyFromBlob w lib blob).run = some (.ok (key, sha256Hex lib blob))

/-- With the key the DigestInfo of the digest is recovered from the number. -/
structure Recovers (key : LoadedKey lib) (digest mpi : ByteString) : Prop where
  filled : key.keyBytes ≠ 0
  short : mpi.length ≤ key.keyBytes
  recovered : ∃ rsa, lib.EVP_PKEY_get0_RSA key.pkey = some rsa ∧
    lib.RSA_size rsa = key.keyBytes ∧
    lib.RSA_public_decrypt rsa (List.replicate (key.keyBytes - mpi.length) 0 ++ mpi) =
      some (sha256Prefix ++ digest)

/-- The key of the file verifies the signature. -/
def SignedBy (digest mpi : ByteString) (content : Option (Buffer w)) (fingerprint : ByteString) :
    Prop :=
  ∃ text blob key, content = some text ∧ HoldsKey w lib text.bytes blob key ∧
    Recovers lib key digest mpi ∧ fingerprint = sha256Hex lib blob

variable {w lib}

theorem fingerprint_eq {blob fingerprint : ByteString} {key : LoadedKey lib}
    (built : (buildKeyFromBlob w lib blob).run = some (.ok (key, fingerprint))) :
    fingerprint = sha256Hex lib blob := by
  unfold buildKeyFromBlob at built
  dsimp only at built
  split at built
  · cases built
  split at built
  · cases built
  split at built
  · obtain ⟨key', -, made⟩ := Check.bind_ok.mp built
    cases made
    rfl
  · obtain ⟨found, -, more⟩ := Check.bind_ok.mp built
    obtain ⟨key', -, made⟩ := Check.bind_ok.mp more
    cases made
    rfl

theorem loadKeyFile_ok {path fingerprint : ByteString} {file : Option (Buffer w)}
    {key : LoadedKey lib} :
    (loadKeyFile w lib path file).run = some (.ok (key, fingerprint)) ↔
      ∃ text blob, file = some text ∧ HoldsKey w lib text.bytes blob key ∧
        fingerprint = sha256Hex lib blob := by
  cases file with
  | none =>
    constructor
    · intro loaded
      cases loaded
    · rintro ⟨text, blob, there, -⟩
      cases there
  | some text =>
    refine Check.bind_ok.trans ?_
    constructor
    · rintro ⟨⟨blob, armored⟩, decoded, built⟩
      have same := fingerprint_eq built
      exact ⟨text, blob, rfl, ⟨⟨armored, Check.run_of.mp decoded⟩, same ▸ built⟩, same⟩
    · rintro ⟨text', blob, there, ⟨⟨armored, decoded⟩, built⟩, rfl⟩
      cases there
      exact ⟨(blob, armored), Check.run_of.mpr decoded, built⟩

theorem normalizeSignature_ok {mpi sigPadded : ByteString} {keyBytes : Nat} :
    normalizeSignature mpi keyBytes = .ok sigPadded ↔
      keyBytes ≠ 0 ∧ mpi.length ≤ keyBytes ∧
        sigPadded = List.replicate (keyBytes - mpi.length) 0 ++ mpi := by
  unfold normalizeSignature
  by_cases filled : keyBytes = 0
  · rw [if_pos (by simpa using filled)]
    exact ⟨fun h => (by cases h), fun h => absurd filled h.1⟩
  rw [if_neg (by simpa using filled)]
  by_cases short : mpi.length ≤ keyBytes
  · rw [if_neg (Nat.not_lt.mpr short), Except.ok.injEq]
    exact ⟨fun h => ⟨filled, short, h.symm⟩, fun h => h.2.2.symm⟩
  · rw [if_pos (Nat.lt_of_not_le short)]
    exact ⟨fun h => (by cases h), fun h => absurd h.2.1 short⟩

theorem verifyWithKey_ok {key : LoadedKey lib} {digest sigBytes : ByteString}
    (whole : digest.length = 32) :
    verifyWithKey lib key digest sigBytes = .ok () ↔
      ∃ rsa, lib.EVP_PKEY_get0_RSA key.pkey = some rsa ∧ lib.RSA_size rsa = sigBytes.length ∧
        lib.RSA_public_decrypt rsa sigBytes = some (sha256Prefix ++ digest) := by
  unfold verifyWithKey
  cases lib.EVP_PKEY_get0_RSA key.pkey with
  | none => simp
  | some rsa =>
    by_cases size : lib.RSA_size rsa = sigBytes.length
    · cases decrypted : lib.RSA_public_decrypt rsa sigBytes with
      | none => simp [size, decrypted]
      | some recovered =>
        have cut := List.take_append_drop sha256Prefix.length recovered
        simp only [size, decrypted, bne_self_eq_false, Bool.false_eq_true, if_false,
          Option.some.injEq, exists_eq_left', true_and]
        constructor
        · intro accepted
          split at accepted
          · cases accepted
          rename_i length
          split at accepted
          · cases accepted
          rename_i front
          split at accepted
          · cases accepted
          rename_i back
          simp only [bne_iff_ne, ne_eq, Decidable.not_not, Bool.not_eq_true',
            Bool.not_eq_false] at length front back
          have same : digest = recovered.drop sha256Prefix.length := by
            refine (List.isPrefixOf_iff_prefix.mp back).eq_of_length ?_
            rw [List.length_drop]
            omega
          rw [← cut, front, ← same]
        · rintro rfl
          have length : (sha256Prefix ++ digest).length = sha256Prefix.length + 32 := by
            rw [List.length_append, whole]
          rw [if_neg (by simpa using length), if_neg (by simp), if_neg (by simp)]
    · simp [size, Ne.symm size]

/-- **One key file** verifies the signature if its key recovers the DigestInfo. -/
theorem tryKey_ok {digest mpi fingerprint : ByteString} {file : KeyFile w}
    (whole : digest.length = 32) :
    (tryKey w lib digest mpi file).run = some (.ok fingerprint) ↔
      SignedBy w lib digest mpi file.2 fingerprint := by
  refine Check.bind_ok.trans ?_
  constructor
  · rintro ⟨⟨key, fp⟩, loaded, more⟩
    obtain ⟨text, blob, there, holds, rfl⟩ := loadKeyFile_ok.mp loaded
    obtain ⟨sigPadded, padded, more⟩ := Check.bind_ok.mp more
    obtain ⟨filled, short, rfl⟩ := normalizeSignature_ok.mp (Check.run_of.mp padded)
    obtain ⟨_, verified, result⟩ := Check.bind_ok.mp more
    obtain ⟨rsa, got, size, decrypted⟩ := (verifyWithKey_ok whole).mp (Check.run_of.mp verified)
    cases result
    refine ⟨text, blob, key, there, holds, ⟨filled, short, rsa, got, ?_, decrypted⟩, rfl⟩
    rw [size, List.length_append, List.length_replicate, Nat.sub_add_cancel short]
  · rintro ⟨text, blob, key, there, holds, recovers, rfl⟩
    obtain ⟨filled, short, rsa, got, size, decrypted⟩ := recovers
    refine ⟨(key, sha256Hex lib blob), loadKeyFile_ok.mpr ⟨text, blob, there, holds, rfl⟩, ?_⟩
    refine Check.bind_ok.mpr ⟨_, Check.run_of.mpr
      (normalizeSignature_ok.mpr ⟨filled, short, rfl⟩), ?_⟩
    refine Check.bind_ok.mpr ⟨(), Check.run_of.mpr
      ((verifyWithKey_ok whole).mpr ⟨rsa, got, ?_, decrypted⟩), rfl⟩
    rw [size, List.length_append, List.length_replicate, Nat.sub_add_cancel short]

/-- **The loop** stops at the first key that verifies the signature. -/
theorem tryKeys_ok {digest mpi fingerprint : ByteString} {files : List (KeyFile w)}
    {lastErr : Option ByteString} :
    tryKeys w lib digest mpi files lastErr = some (.ok fingerprint) ↔
      ∃ front file back, files = front ++ file :: back ∧
        (tryKey w lib digest mpi file).run = some (.ok fingerprint) ∧
        ∀ earlier ∈ front, ∃ keyErr,
          (tryKey w lib digest mpi earlier).run = some (.error keyErr) := by
  induction files generalizing lastErr with
  | nil =>
    constructor
    · intro found
      cases found
    · rintro ⟨front, file, back, split, -⟩
      exact absurd split (by simp)
  | cons first rest ih =>
    rw [tryKeys]
    cases tried : (tryKey w lib digest mpi first).run with
    | none =>
      refine ⟨fun found => (by cases found), ?_⟩
      rintro ⟨front, file, back, split, verifies, refused⟩
      cases front with
      | nil =>
        cases split
        cases tried.symm.trans verifies
      | cons earlier front =>
        cases split
        obtain ⟨keyErr, failed⟩ := refused first List.mem_cons_self
        cases tried.symm.trans failed
    | some result =>
      cases result with
      | ok fp =>
        constructor
        · intro found
          cases found
          exact ⟨[], first, rest, rfl, tried, List.forall_mem_nil _⟩
        · rintro ⟨front, file, back, split, verifies, refused⟩
          cases front with
          | nil =>
            cases split
            cases tried.symm.trans verifies
            rfl
          | cons earlier front =>
            cases split
            obtain ⟨keyErr, failed⟩ := refused first List.mem_cons_self
            cases tried.symm.trans failed
      | error keyErr =>
        refine ih.trans ?_
        constructor
        · rintro ⟨front, file, back, rfl, verifies, refused⟩
          exact ⟨first :: front, file, back, rfl, verifies,
            List.forall_mem_cons.mpr ⟨⟨keyErr, tried⟩, refused⟩⟩
        · rintro ⟨front, file, back, split, verifies, refused⟩
          cases front with
          | nil =>
            cases split
            cases tried.symm.trans verifies
          | cons earlier front =>
            cases split
            exact ⟨front, file, back, rfl, verifies, (List.forall_mem_cons.mp refused).2⟩

end Keys

/-! ### Results in 64 bits -/

theorem Check.bind_defined {α β : Type} {x : Check α} {f : α → Check β}
    (defined : ∃ r, x.run = some r)
    (next : ∀ a, x.run = some (.ok a) → ∃ r, (f a).run = some r) :
    ∃ r, (x >>= f).run = some r := by
  have run : (x >>= f).run = x.run.bind (ExceptT.bindCont f) := rfl
  obtain ⟨r, there⟩ := defined
  rw [run, there]
  cases r with
  | error message => exact ⟨.error message, rfl⟩
  | ok a => exact next a there

theorem Check.of_defined {α : Type} (x : Except ByteString α) : ∃ r, (Check.of x).run = some r :=
  ⟨x, rfl⟩

/-- A turn of the search goes on behind the packet. -/
theorem findTurn_descends {w : Width} {blob : ByteString}
    (fits : blob.length < 2 ^ (w.bits - 1)) :
    Descends (fun off => blob.length - off) (findTurn w blob) := by
  intro off next turn
  by_cases wraps : Wraps w blob off
  · rw [findTurn_wraps fits wraps] at turn
    cases turn
  · rcases findTurn_cases fits wraps with ⟨result, stops⟩ | ⟨form, tag, n, -, -, inside, goes⟩
    · cases stops.symm.trans turn
    · cases goes.symm.trans turn
      dsimp only
      omega

theorem findRsaPublicKey_defined {blob : ByteString}
    (fits : blob.length < 2 ^ (Width.bits64.bits - 1)) :
    ∃ r, (findRsaPublicKey .bits64 blob).run = some r := by
  have descends := findTurn_descends fits
  have ends : iterate (findTurn .bits64 blob) (blob.length + 1) 0 = some (run descends 0) :=
    iterate_eq_run descends (Nat.lt_succ_self _)
  have found : (run descends 0).isSome := by
    refine run_invariant descends (fun _ => True) (fun r => r.isSome) (fun _ _ _ _ => trivial)
      (fun off r _ stop => ?_) trivial
    rcases findTurn_cases fits (not_wraps_bits64 fits) with ⟨result, stops⟩ |
      ⟨form, tag, n, -, -, -, goes⟩
    · cases stops.symm.trans stop
      rfl
    · cases goes.symm.trans stop
  obtain ⟨r, there⟩ := Option.isSome_iff_exists.mp found
  refine ⟨r, ?_⟩
  rw [findRsaPublicKey, ExceptT.run_mk, ends, there]
  rfl

section Bits64

variable {lib : BoringSsl}

/-- What is decoded is no longer than the text, or less than 2³¹ octets. -/
theorem decoded_fits (strict : StrictBase64 lib.EVP_DecodeBlock) {text blob : ByteString}
    {armored : Bool} (fits : text.length < 2 ^ (Width.bits64.bits - 1))
    (decoded : decodeArmoredBlock lib.EVP_DecodeBlock text = .ok (blob, armored)) :
    blob.length < 2 ^ (Width.bits64.bits - 1) := by
  have small {b64 out : ByteString} (h : decodeBase64 lib.EVP_DecodeBlock b64 = some out) :
      out.length < 2 ^ (Width.bits64.bits - 1) := by
    obtain ⟨n, cast, -, length, -⟩ := of_decodeBase64 strict h
    have bound : castToInt b64.length < 2 ^ 31 := by
      have := Int.bmod_lt (x := b64.length) (m := 2 ^ 32) (by decide)
      unfold castToInt
      omega
    rw [cast] at bound
    simp only [Width.bits]
    omega
  unfold decodeArmoredBlock at decoded
  split at decoded
  · split at decoded
    · rename_i out h
      cases decoded
      exact small h
    · cases decoded
  · cases h : decodeBase64 lib.EVP_DecodeBlock (text.filter (!isspace ·)) with
    | none =>
      rw [h] at decoded
      cases decoded
      exact fits
    | some out =>
      rw [h] at decoded
      cases decoded
      exact small h

theorem buildKeyFromBlob_defined {blob : ByteString}
    (fits : blob.length < 2 ^ (Width.bits64.bits - 1)) :
    ∃ r, (buildKeyFromBlob .bits64 lib blob).run = some r := by
  unfold buildKeyFromBlob
  dsimp only
  split
  · exact ⟨_, rfl⟩
  split
  · exact ⟨_, rfl⟩
  split
  · exact Check.bind_defined (Check.of_defined _) fun _ _ => ⟨_, rfl⟩
  · exact Check.bind_defined (findRsaPublicKey_defined fits) fun _ _ =>
      Check.bind_defined (Check.of_defined _) fun _ _ => ⟨_, rfl⟩

theorem tryKey_defined (strict : StrictBase64 lib.EVP_DecodeBlock) {digest mpi : ByteString}
    {file : KeyFile .bits64} : ∃ r, (tryKey .bits64 lib digest mpi file).run = some r := by
  refine Check.bind_defined ?_ fun _ _ => Check.bind_defined (Check.of_defined _) fun _ _ =>
    Check.bind_defined (Check.of_defined _) fun _ _ => ⟨_, rfl⟩
  obtain ⟨path, content⟩ := file
  cases content with
  | none => exact ⟨_, rfl⟩
  | some text =>
    refine Check.bind_defined (Check.of_defined _) fun found decoded => ?_
    exact buildKeyFromBlob_defined (decoded_fits strict text.fits (Check.run_of.mp decoded))

/-- The first of the files whose key verifies the signature, with its fingerprint. -/
def FirstSigner (lib : BoringSsl) (digest mpi : ByteString) (files : List (KeyFile .bits64))
    (fingerprint : ByteString) : Prop :=
  ∃ front file back, files = front ++ file :: back ∧
    SignedBy .bits64 lib digest mpi file.2 fingerprint ∧
    ∀ earlier ∈ front, ∀ other, ¬ SignedBy .bits64 lib digest mpi earlier.2 other

theorem tryKeys_bits64 (strict : StrictBase64 lib.EVP_DecodeBlock)
    {digest mpi fingerprint : ByteString} {files : List (KeyFile .bits64)}
    {lastErr : Option ByteString} (whole : digest.length = 32) :
    tryKeys .bits64 lib digest mpi files lastErr = some (.ok fingerprint) ↔
      FirstSigner lib digest mpi files fingerprint := by
  rw [tryKeys_ok]
  refine exists_congr fun front => exists_congr fun file => exists_congr fun back =>
    and_congr_right fun _ => and_congr (tryKey_ok whole) ?_
  refine forall₂_congr fun earlier mem => ?_
  constructor
  · rintro ⟨keyErr, refused⟩ other signed
    cases refused.symm.trans ((tryKey_ok whole).mpr signed)
  · intro none
    obtain ⟨r, tried⟩ : ∃ r, (tryKey .bits64 lib digest mpi earlier).run = some r :=
      tryKey_defined strict
    cases r with
    | error keyErr => exact ⟨keyErr, tried⟩
    | ok other => exact absurd ((tryKey_ok whole).mp tried) (none other)

end Bits64

/-! ### Which signatures are accepted -/

/-- The library computes the hash in pieces or at once, with 32 octets, and decodes base64. -/
structure Sound (lib : BoringSsl) (sha : ByteString → ByteString) : Prop where
  hash : ∀ updates, lib.evp.hash updates = some (sha updates.flatten)
  once : ∀ data, lib.SHA256 data = some (sha data)
  whole : ∀ data, (sha data).length = 32
  strict : StrictBase64 lib.EVP_DecodeBlock

/-- What is hashed: the data, the header of the signature, and its trailer. -/
def signedBytes (data : ByteString) (sig : ParsedSignature) : ByteString :=
  data ++ signatureHeader sig ++ signatureTrailer (signatureHeader sig)

section Accepted

variable {lib : BoringSsl} {sha : ByteString → ByteString}

theorem hashSignedData_sound (sound : Sound lib sha) {sig : ParsedSignature}
    {dataPath digest : ByteString} {data : Option InputFile} :
    hashSignedData lib.evp sig dataPath data = .ok digest ↔
      ∃ bytes, data = some ⟨bytes, false⟩ ∧ sha (signedBytes bytes sig) = digest := by
  cases data with
  | none =>
    constructor
    · intro hashed
      obtain ⟨ctx, -, failed⟩ := bind_ok.mp hashed
      cases failed
    · rintro ⟨bytes, there, -⟩
      cases there
  | some file =>
    obtain ⟨bytes, failed⟩ := file
    cases failed with
    | true =>
      constructor
      · intro hashed
        obtain ⟨ctx, -, more⟩ := bind_ok.mp hashed
        obtain ⟨ctx', -, failed⟩ := bind_ok.mp more
        cases failed
      · rintro ⟨bytes, there, -⟩
        cases there
    | false =>
      obtain ⟨pieces, flat, hashed⟩ := hashSignedData_ok lib.evp bytes
      rw [hashed, sound.hash, List.flatten_append, flat, Option.some_inj]
      have suffix : bytes ++ [signatureHeader sig, signatureTrailer (signatureHeader sig)].flatten =
          signedBytes bytes sig := by simp [signedBytes]
      rw [suffix]
      constructor
      · exact fun same => ⟨bytes, rfl, same⟩
      · rintro ⟨_, there, same⟩
        cases there
        exact same

theorem findSigner_ok (sound : Sound lib sha) {what : String} {sig : ParsedSignature}
    {data dir fingerprint : ByteString} {keys : Option (KeyDir .bits64)} :
    (findSigner .bits64 lib what sig (sha data) dir keys).run = some (.ok fingerprint) ↔
      ofBytes ((sha data).take 2) = sig.hashLeft16 ∧ ∃ k, keys = some k ∧
        FirstSigner lib (sha data) sig.signatureMpi (k.keyFiles dir) fingerprint := by
  unfold findSigner
  by_cases left : ofBytes ((sha data).take 2) = sig.hashLeft16
  · rw [if_neg (by simpa using left)]
    cases keys with
    | none =>
      constructor
      · intro found
        cases found
      · rintro ⟨-, k, there, -⟩
        cases there
    | some k =>
      simp only [left, Option.some.injEq, exists_eq_left', true_and]
      rw [← tryKeys_bits64 sound.strict (sound.whole data), ExceptT.run_mk,
        Option.map_eq_some_iff]
      constructor
      · rintro ⟨result, tried, same⟩
        split at same
        · cases same
          exact tried
        · cases same
        · cases same
      · exact fun tried => ⟨_, tried, rfl⟩
  · rw [if_pos (by simpa using left)]
    exact ⟨fun h => (by cases h), fun h => absurd h.1 left⟩

/-- **Which detached signatures are accepted**, and for which key. -/
theorem verifyDetachedSignature_iff (sound : Sound lib sha) (dataPath : ByteString)
    (data : Option InputFile) (sigPath : ByteString) (sigFile : Option ByteString)
    (dir : ByteString) (keys : Option (KeyDir .bits64)) (fingerprint : ByteString) :
    (verifyDetachedSignature .bits64 lib dataPath data sigPath sigFile dir keys).run =
        some (.ok fingerprint) ↔
      ∃ text sig bytes k, sigFile = some text ∧ data = some ⟨bytes, false⟩ ∧ keys = some k ∧
        (readSignature .bits64 lib (signatureText sigPath text)).run = some (.ok sig) ∧
        ofBytes ((sha (signedBytes bytes sig)).take 2) = sig.hashLeft16 ∧
        FirstSigner lib (sha (signedBytes bytes sig)) sig.signatureMpi (k.keyFiles dir)
          fingerprint := by
  cases sigFile with
  | none =>
    constructor
    · intro accepted
      cases accepted
    · rintro ⟨text, sig, bytes, k, there, -⟩
      cases there
  | some text =>
    refine Check.bind_ok.trans ?_
    constructor
    · rintro ⟨sig, read, more⟩
      obtain ⟨digest, hashed, found⟩ := Check.bind_ok.mp more
      obtain ⟨bytes, rfl, rfl⟩ := (hashSignedData_sound sound).mp (Check.run_of.mp hashed)
      obtain ⟨left, k, rfl, first⟩ := (findSigner_ok sound).mp found
      exact ⟨text, sig, bytes, k, rfl, rfl, rfl, read, left, first⟩
    · rintro ⟨_, sig, bytes, k, there, rfl, rfl, read, left, first⟩
      cases there
      refine ⟨sig, read, Check.bind_ok.mpr ⟨sha (signedBytes bytes sig), ?_, ?_⟩⟩
      · exact Check.run_of.mpr ((hashSignedData_sound sound).mpr ⟨bytes, rfl, rfl⟩)
      · exact (findSigner_ok sound).mpr ⟨left, k, rfl, first⟩

end Accepted

/-! ### Any key suffices -/

theorem exists_firstSigner {lib : BoringSsl} {digest mpi : ByteString}
    {files : List (KeyFile .bits64)} :
    (∃ fingerprint, FirstSigner lib digest mpi files fingerprint) ↔
      ∃ file ∈ files, ∃ fingerprint, SignedBy .bits64 lib digest mpi file.2 fingerprint := by
  constructor
  · rintro ⟨fingerprint, front, file, back, rfl, signed, -⟩
    exact ⟨file, List.mem_append_right _ List.mem_cons_self, fingerprint, signed⟩
  · rintro ⟨file, mem, signed⟩
    induction files with
    | nil => exact absurd mem List.not_mem_nil
    | cons first rest ih =>
      by_cases here : ∃ fingerprint, SignedBy .bits64 lib digest mpi first.2 fingerprint
      · obtain ⟨fingerprint, signed⟩ := here
        exact ⟨fingerprint, [], first, rest, rfl, signed, List.forall_mem_nil _⟩
      · have behind : file ∈ rest := by
          rcases List.mem_cons.mp mem with rfl | behind
          · exact absurd signed here
          · exact behind
        obtain ⟨fingerprint, front, signer, back, rfl, signed, before⟩ := ih behind
        refine ⟨fingerprint, first :: front, signer, back, rfl, signed, ?_⟩
        exact List.forall_mem_cons.mpr ⟨not_exists.mp here, before⟩

/-- **A signature is accepted if any key of the directory verifies it**: whatever the other files
hold, and whether or not they can be read. -/
theorem accepted_iff_any_key {lib : BoringSsl} {sha : ByteString → ByteString}
    (sound : Sound lib sha) (dataPath : ByteString) (data : Option InputFile)
    (sigPath : ByteString) (sigFile : Option ByteString) (dir : ByteString)
    (keys : Option (KeyDir .bits64)) :
    (∃ fingerprint, (verifyDetachedSignature .bits64 lib dataPath data sigPath sigFile dir keys).run
        = some (.ok fingerprint)) ↔
      ∃ text sig bytes k, sigFile = some text ∧ data = some ⟨bytes, false⟩ ∧ keys = some k ∧
        (readSignature .bits64 lib (signatureText sigPath text)).run = some (.ok sig) ∧
        ofBytes ((sha (signedBytes bytes sig)).take 2) = sig.hashLeft16 ∧
        ∃ file ∈ k.keyFiles dir, ∃ fingerprint,
          SignedBy .bits64 lib (sha (signedBytes bytes sig)) sig.signatureMpi file.2
            fingerprint := by
  simp only [verifyDetachedSignature_iff sound dataPath data sigPath sigFile dir keys]
  constructor
  · rintro ⟨fingerprint, text, sig, bytes, k, there, read, found, parsed, left, first⟩
    exact ⟨text, sig, bytes, k, there, read, found, parsed, left,
      exists_firstSigner.mp ⟨fingerprint, first⟩⟩
  · rintro ⟨text, sig, bytes, k, there, read, found, parsed, left, any⟩
    obtain ⟨fingerprint, first⟩ := exists_firstSigner.mpr any
    exact ⟨fingerprint, text, sig, bytes, k, there, read, found, parsed, left, first⟩

/-! ### Clear-signed texts -/

/-- The lines of the body that have been read so far. -/
def BodyState.Reads (x : BodyState) (lines : List ByteString) : Prop :=
  x.decodedLf = unlines (chr '\n') lines ∧ x.canonicalCrlf = crlfLines lines

theorem reads_bodyLine {x : BodyState} {lines : List ByteString} (reads : x.Reads lines)
    (line : ByteString) : ∃ more, (bodyLine x line).Reads (lines ++ more) := by
  obtain ⟨lf, crlf⟩ := reads
  unfold bodyLine
  cases x.inHeaders with
  | true => exact ⟨[], by simpa [BodyState.Reads] using ⟨lf, crlf⟩⟩
  | false =>
    refine ⟨[(unescape (dropCr line)).rdropWhile isBlank], ?_, ?_⟩
    · simp [lf, unlines, str, chr]
    · simp [crlf, crlfLines]

theorem reads_foldl (rows : List ByteString) {x : BodyState} {lines : List ByteString}
    (reads : x.Reads lines) : ∃ lines', (rows.foldl bodyLine x).Reads lines' := by
  induction rows generalizing x lines with
  | nil => exact ⟨lines, reads⟩
  | cons row rest ih =>
    obtain ⟨more, next⟩ := reads_bodyLine reads row
    exact ih next

/-- Both bodies are the same lines. -/
theorem lines_of_extractClearsignedBodies {input decoded canonical : ByteString}
    (extracted : extractClearsignedBodies input = .ok (decoded, canonical)) :
    ∃ lines, decoded = unlines (chr '\n') lines ∧ canonical = crlfLines lines ∧ lines ≠ [] := by
  unfold extractClearsignedBodies at extracted
  split at extracted
  · cases extracted
  · split at extracted
    · cases extracted
    · dsimp only at extracted
      split at extracted
      · cases extracted
      · rename_i filled
        cases extracted
        obtain ⟨lines, lf, crlf⟩ := reads_foldl _ (x := {})
          (⟨rfl, rfl⟩ : BodyState.Reads {} [])
        refine ⟨lines, lf, crlf, ?_⟩
        rintro rfl
        exact filled (by rw [lf]; rfl)

theorem hashSignedBuffer_sound {lib : BoringSsl} {sha : ByteString → ByteString}
    (sound : Sound lib sha) {sig : ParsedSignature} {text digest : ByteString} :
    hashSignedBuffer lib.evp sig text = .ok digest ↔ sha (signedBytes text sig) = digest := by
  rw [hashSignedBuffer_ok, sound.hash, Option.some_inj]
  cases text with
  | nil => simp [signedBytes]
  | cons c text => simp [signedBytes]

/-- **A clear-signed text is given back only if it was signed**: its lines are those that were
hashed, and a key of the directory verifies the digest. -/
theorem clearsigned_text_signed {lib : BoringSsl} {sha : ByteString → ByteString}
    (sound : Sound lib sha) (inReleasePath : ByteString) (file : Option ByteString)
    (dir : ByteString) (keys : Option (KeyDir .bits64)) (outCleartext : ByteString)
    (accepted : (verifyClearsignedRelease .bits64 lib inReleasePath file dir keys).run =
      some (.ok outCleartext)) :
    ∃ all sigArmor sig lines k, file = some all ∧ extractSignatureArmor all = some sigArmor ∧
      (readSignature .bits64 lib sigArmor).run = some (.ok sig) ∧ keys = some k ∧ lines ≠ [] ∧
      outCleartext = unlines (chr '\n') lines ∧
      ofBytes ((sha (signedBytes (crlfLines lines) sig)).take 2) = sig.hashLeft16 ∧
      ∃ fingerprint, FirstSigner lib (sha (signedBytes (crlfLines lines) sig)) sig.signatureMpi
        (k.keyFiles dir) fingerprint := by
  unfold verifyClearsignedRelease at accepted
  split at accepted
  · cases accepted
  · rename_i all
    split at accepted
    · cases accepted
    · rename_i sigArmor armor
      obtain ⟨sig, read, more⟩ := Check.bind_ok.mp accepted
      obtain ⟨⟨decoded, canonical⟩, bodies, more⟩ := Check.bind_ok.mp more
      obtain ⟨digest, hashed, more⟩ := Check.bind_ok.mp more
      obtain ⟨fingerprint, found, result⟩ := Check.bind_ok.mp more
      cases result
      obtain ⟨lines, rfl, rfl, filled⟩ :=
        lines_of_extractClearsignedBodies (Check.run_of.mp bodies)
      obtain rfl := (hashSignedBuffer_sound sound).mp (Check.run_of.mp hashed)
      obtain ⟨left, k, rfl, first⟩ := (findSigner_ok sound).mp found
      exact ⟨all, sigArmor, sig, lines, k, rfl, armor, read, rfl, filled, rfl, left, fingerprint,
        first⟩

/-! ### A library that works as BoringSSL does -/

/-- The digest in octets. -/
def sha256Digest (data : ByteString) : ByteString :=
  let padded := Fips180.pad data
  let blocks := (List.range (padded.length / 64)).map (Fips180.block padded)
  let v := blocks.foldl processBlock Fips180.H0
  [v.a, v.b, v.c, v.d, v.e, v.f, v.g, v.h].flatMap fun word => toBytes 4 word.toNat

/-- A power modulo `n`, bit by bit. -/
def powMod (n base exponent : Nat) : Nat → Nat
  | 0 => 1 % n
  | bits + 1 =>
      let half := powMod n base (exponent / 2) bits
      if exponent % 2 = 0 then half * half % n else half * half * base % n

/-- The modulus and the exponent of a key. -/
structure TextbookKey where
  modulus : Nat
  exponent : Nat

/-- The padding of PKCS#1 around what was signed: zero, one, some 255, and zero. -/
def unpad : ByteString → Option ByteString
  | 0 :: 1 :: rest =>
      match rest.dropWhile (· == 255) with
      | 0 :: data => some data
      | _ => none
  | _ => none

/-- Keys are read from packets only. -/
def textbook : BoringSsl where
  evp := {
    Ctx := ByteString
    new := some []
    init := some
    update := fun ctx data => some (ctx ++ data)
    final := fun ctx => some (sha256Digest ctx)
    formatCryptoError := [] }
  EVP_DecodeBlock := Base64.decodeBlock
  SHA256 := fun data => some (sha256Digest data)
  EVP_PKEY := TextbookKey
  RSA := TextbookKey
  readPubkey := fun _ => none
  EVP_PKEY_get0_RSA := some
  RSA_get0_key := fun key => (some key.modulus, some key.exponent)
  RSA_new := true
  RSA_set0_key := fun modulus exponent => some ⟨modulus, exponent⟩
  EVP_PKEY_new := true
  EVP_PKEY_set1_RSA := some
  RSA_size := fun key => (numBits key.modulus + 7) / 8
  RSA_public_decrypt := fun key bytes =>
    unpad (toBytes bytes.length (powMod key.modulus (ofBytes bytes) key.exponent 17))

theorem sound_textbook : Sound textbook sha256Digest where
  hash updates := by
    have fold (start : ByteString) :
        updates.foldlM (fun (ctx data : ByteString) => some (ctx ++ data)) start =
          some (start ++ updates.flatten) := by
      induction updates generalizing start with
      | nil => simp
      | cons first rest ih =>
        rw [List.foldlM_cons, List.flatten_cons, ← List.append_assoc]
        exact ih (start ++ first)
    have run : textbook.evp.hash updates =
        (updates.foldlM (fun (ctx data : ByteString) => some (ctx ++ data)) []).bind
          fun ctx => some (sha256Digest ctx) := rfl
    rw [run, fold]
    rfl
  once _ := rfl
  whole data := by
    unfold sha256Digest
    dsimp only
    simp
  strict := strictBase64_decodeBlock

/-- Two primes of 1025 and 1024 bits. -/
def sampleP : Nat := 2 ^ 1024 + 643
def sampleQ : Nat := 2 ^ 1023 + 1155

def sampleKey : TextbookKey := ⟨sampleP * sampleQ, 3⟩

/-- The packet of the key. -/
def samplePacket : Buffer .bits64 where
  bytes := LengthForm.newTwo.header 6 267 ++ [4, 0, 0, 0, 0, 1] ++ toBytes 2 2048 ++
    toBytes 256 sampleKey.modulus ++ toBytes 2 2 ++ [3]
  fits := by decide +kernel

/-- A signature of some data with the key. -/
def sampleSignature (data : ByteString) : ByteString :=
  let digest := sha256Digest (signedBytes data ⟨0, 1, 8, 0, [], [], []⟩)
  let padded := [0, 1] ++ List.replicate 202 255 ++ [0] ++ sha256Prefix ++ digest
  let d := (2 * (sampleP - 1) * (sampleQ - 1) + 1) / 3
  LengthForm.newTwo.header 2 268 ++ [4, 0, 1, 8, 0, 0] ++ toBytes 2 0 ++ digest.take 2 ++
    toBytes 2 2048 ++ toBytes 256 (powMod sampleKey.modulus (ofBytes padded) d 2048)

/-- A file that is no key, and the key. -/
def sampleKeys : KeyDir .bits64 where
  tree := (Tree.empty.writeFile ⟨str "a.asc", by decide⟩ (str "-----BEGIN")).writeFile
    ⟨str "k.gpg", by decide⟩ samplePacket.bytes
  behind _ := none
  stream name _ := if name == str "k.gpg" then some samplePacket else none

theorem accepted_iff_any_key_sample :
    ∃ file ∈ sampleKeys.keyFiles (str "/data/apm/keys"), ∃ digest mpi fingerprint,
      SignedBy .bits64 textbook digest mpi file.2 fingerprint := by
  have accepted := (accepted_iff_any_key sound_textbook (str "Release")
    (some ⟨str "Suite: stable", false⟩) (str "Release.gpg")
    (some (sampleSignature (str "Suite: stable"))) (str "/data/apm/keys") (some sampleKeys)).mp
    (Check.exists_ok.mpr (by decide +kernel))
  obtain ⟨text, sig, bytes, k, -, -, same, -, -, file, mem, fingerprint, signed⟩ := accepted
  cases same
  exact ⟨file, mem, _, _, fingerprint, signed⟩

/-- A file that is signed with the key as it is hashed. -/
def sampleInRelease : ByteString :=
  beginSigned ++ str "\n\nSuite: stable\n" ++ beginSig ++ str "\n\n" ++
    Base64.encode (sampleSignature (str "\r\nSuite: stable\r\n")) ++ str "\n" ++ endSig ++ str "\n"

theorem clearsigned_text_signed_sample : ∃ outCleartext lines, lines ≠ [] ∧
    outCleartext = unlines (chr '\n') lines ∧
    (verifyClearsignedRelease .bits64 textbook (str "InRelease") (some sampleInRelease)
      (str "/data/apm/keys") (some sampleKeys)).run = some (.ok outCleartext) := by
  obtain ⟨outCleartext, accepted⟩ : ∃ outCleartext, (verifyClearsignedRelease .bits64 textbook
      (str "InRelease") (some sampleInRelease) (str "/data/apm/keys") (some sampleKeys)).run =
        some (.ok outCleartext) := Check.exists_ok.mpr (by decide +kernel)
  obtain ⟨all, sigArmor, sig, lines, k, -, -, -, -, filled, same, -⟩ :=
    clearsigned_text_signed sound_textbook _ _ _ _ outCleartext accepted
  exact ⟨outCleartext, lines, filled, same, accepted⟩

end Apm.Crypto
