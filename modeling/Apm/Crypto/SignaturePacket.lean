import Apm.Crypto.Packets
import Apm.Crypto.Sha256File

/-!
Signature packets (`src/util/crypto/gpg_verify.cpp`): `parseSignaturePacket`, and what
`hashSignedData` and `hashSignedBuffer` hash.

## Main results

* `parseSignatureBody_iff`: the bodies that are accepted are those that are written from their
  fields;
* `signature_hashed`: the header that is hashed is the beginning of the body.
-/

namespace Apm.Crypto

open Apm.Lib.BigEndian

/-! ### Parsing -/

structure ParsedSignature where
  sigType : UInt8
  pubKeyAlgo : UInt8
  hashAlgo : UInt8
  hashLeft16 : Nat
  hashedSubpackets : ByteString
  unhashedSubpackets : ByteString
  signatureMpi : ByteString
deriving DecidableEq

section Parsers

variable (w : Width)

/-- An area of so many octets behind a check, and the offset behind it. -/
def readArea (buf : ByteString) (offset len : Nat) (exceeds : String) :
    Except ByteString (ByteString × Nat) :=
  if w.add offset len > buf.length then .error (str exceeds)
  else .ok ((buf.drop offset).take len, offset + len)

/-- What `parseSignaturePacket` reads behind the first six octets of a body. -/
def parseAreas (body : ByteString) (sigType pubKeyAlgo hashAlgo : UInt8) (hashedLen : Nat) :
    Except ByteString ParsedSignature := do
  let (hashedSubpackets, bOff) ←
    readArea w body 6 hashedLen "Hashed subpacket length exceeds signature size"
  let (unhashedLen, bOff) ← readLength w body bOff 2 "Signature missing unhashed subpacket length"
  let (unhashedSubpackets, bOff) ←
    readArea w body bOff unhashedLen "Unhashed subpacket length exceeds signature size"
  let (hashLeft16, bOff) ← readLength w body bOff 2 "Signature missing hash trailer"
  let mpi ← parseMpi w body bOff
  if mpi.offset != body.length then .error (str "Unexpected data after signature MPI")
  else .ok {
    sigType, pubKeyAlgo, hashAlgo, hashLeft16, hashedSubpackets, unhashedSubpackets
    signatureMpi := mpi.bytes }

/-- The part of `parseSignaturePacket` that reads the body. -/
def parseSignatureBody (body : ByteString) : Except ByteString ParsedSignature :=
  match body with
  | version :: sigType :: pubKeyAlgo :: hashAlgo :: hi :: lo :: _ =>
      if version != 4 then .error (str "Only OpenPGP signature V4 is supported")
      else parseAreas w body sigType pubKeyAlgo hashAlgo (ofBytes [hi, lo])
  | _ => .error (str "Signature packet too small")

/-- The body of the packet, if its range is defined. -/
def parseSignaturePacket (blob : ByteString) : Option (Except ByteString ParsedSignature) :=
  match parsePacketHeader w blob 0 with
  | .error message => some (.error message)
  | .ok header =>
      if header.tag != 2 then
        some (.error (str "Detached signature does not contain a signature packet"))
      else if w.add header.offset header.bodyLen > blob.length then
        some (.error (str "Signature packet truncated"))
      else
        (range blob header.offset (w.add header.offset header.bodyLen)).map (parseSignatureBody w)

end Parsers

/-! ### Hashing -/

/-- The digest functions of the cryptographic library. `none` is a failure. -/
structure Evp where
  Ctx : Type
  new : Option Ctx
  init : Ctx → Option Ctx
  update : Ctx → ByteString → Option Ctx
  final : Ctx → Option ByteString
  formatCryptoError : ByteString

namespace Evp

variable (evp : Evp)

def start : Except ByteString evp.Ctx :=
  match evp.new with
  | none => .error (str "SHA256 init failed: unable to allocate context")
  | some ctx =>
      match evp.init ctx with
      | none => .error (str "SHA256 init failed: " ++ evp.formatCryptoError)
      | some ctx => .ok ctx

/-- `EVP_DigestUpdate`, with the text of its failure. -/
def feed (ctx : evp.Ctx) (data : ByteString) (failure : String) : Except ByteString evp.Ctx :=
  match evp.update ctx data with
  | none => .error (str failure ++ evp.formatCryptoError)
  | some ctx => .ok ctx

def finish (ctx : evp.Ctx) : Except ByteString ByteString :=
  match evp.final ctx with
  | none => .error (str "SHA256 finalize failed: " ++ evp.formatCryptoError)
  | some digest => .ok digest

/-- The digest of some updates. -/
def hash (updates : List ByteString) : Option ByteString := do
  let ctx ← evp.new
  let ctx ← evp.init ctx
  let ctx ← updates.foldlM evp.update ctx
  evp.final ctx

/-- `while (in.good())`: the chunks of a file are fed. -/
def readLoop (chunk : Nat) (ctx : evp.Ctx) (bytes : ByteString) : Except ByteString evp.Ctx :=
  if _full : 0 < chunk ∧ chunk ≤ bytes.length then
    match evp.feed ctx (bytes.take chunk) "SHA256 update failed: " with
    | .error message => .error message
    | .ok ctx => readLoop chunk ctx (bytes.drop chunk)
  else if bytes.isEmpty then .ok ctx
  else evp.feed ctx bytes "SHA256 update failed: "
termination_by bytes.length
decreasing_by rw [List.length_drop]; omega

end Evp

/-- The header of the signature, as it is built again for hashing. -/
def signatureHeader (sig : ParsedSignature) : ByteString :=
  let hashedLen := sig.hashedSubpackets.length % 2 ^ 16
  [0x04, sig.sigType, sig.pubKeyAlgo, sig.hashAlgo] ++ toBytes 2 hashedLen ++ sig.hashedSubpackets

/-- The trailer behind a header. -/
def signatureTrailer (header : ByteString) : ByteString :=
  let trailerLen := header.length % 2 ^ 32
  [0x04, 0xff] ++ toBytes 4 trailerLen

/-- The end of `hashSignedData` and of `hashSignedBuffer`. -/
def hashHeader (evp : Evp) (sig : ParsedSignature) (ctx : evp.Ctx) :
    Except ByteString ByteString := do
  let header := signatureHeader sig
  let ctx ← evp.feed ctx header "SHA256 header update failed: "
  let ctx ← evp.feed ctx (signatureTrailer header) "SHA256 trailer update failed: "
  evp.finish ctx

def hashSignedData (evp : Evp) (sig : ParsedSignature) (dataPath : ByteString)
    (file : Option InputFile) : Except ByteString ByteString := do
  let ctx ← evp.start
  match file with
  | none => .error (str "Failed to open signed data: " ++ dataPath)
  | some file =>
      let ctx ← evp.readLoop 4096 ctx file.bytes
      if file.failed then .error (str "Failed reading signed data: " ++ dataPath)
      else hashHeader evp sig ctx

def hashSignedBuffer (evp : Evp) (sig : ParsedSignature) (canonicalText : ByteString) :
    Except ByteString ByteString := do
  let ctx ← evp.start
  let ctx ←
    if !canonicalText.isEmpty then evp.feed ctx canonicalText "SHA256 update failed: "
    else .ok ctx
  hashHeader evp sig ctx

/-! ### Bodies -/

theorem bind_ok {ε α β : Type} {x : Except ε α} {f : α → Except ε β} {r : β} :
    (x >>= f) = .ok r ↔ ∃ a, x = .ok a ∧ f a = .ok r := by
  cases x with
  | error e => simp [bind, Except.bind]
  | ok a => simp [bind, Except.bind]

theorem append_prefix_drop {a b buf : ByteString} {off : Nat} :
    a ++ b <+: buf.drop off ↔ a <+: buf.drop off ∧ b <+: buf.drop (off + a.length) := by
  constructor
  · rintro ⟨t, h⟩
    refine ⟨⟨b ++ t, by rw [← List.append_assoc, h]⟩, t, ?_⟩
    rw [← List.drop_drop, ← h, List.append_assoc, List.drop_left]
  · rintro ⟨⟨s, h⟩, t, h'⟩
    refine ⟨t, ?_⟩
    rw [← List.drop_drop, ← h, List.drop_left] at h'
    rw [List.append_assoc, h', h]

section Reading

variable {w : Width} {buf : ByteString} {off : Nat}

theorem end_le {a : ByteString} (here : a <+: buf.drop off) (inside : off ≤ buf.length) :
    off + a.length ≤ buf.length := by
  have long := here.length_le
  rw [List.length_drop] at long
  omega

theorem readArea_iff (fits : buf.length < 2 ^ (w.bits - 1)) (inside : off ≤ buf.length) {len : Nat}
    (small : len < 256 ^ 2) {exceeds : String} {area : ByteString} {o : Nat} :
    readArea w buf off len exceeds = .ok (area, o) ↔
      area.length = len ∧ area <+: buf.drop off ∧ o = off + area.length := by
  unfold readArea
  rw [add_small fits inside (Nat.lt_of_lt_of_le small (by decide))]
  constructor
  · intro h
    split at h
    · cases h
    · cases h
      have long : ((buf.drop off).take len).length = len := by
        rw [List.length_take, List.length_drop]
        omega
      exact ⟨long, List.take_prefix _ _, by rw [long]⟩
  · rintro ⟨rfl, here, rfl⟩
    rw [if_neg (Nat.not_lt.mpr (end_le here inside)), ← List.prefix_iff_eq_take.mp here]

/-- A number is a length and an area. -/
theorem parseMpi_eq :
    parseMpi w buf off = (do
      let (bitLen, bOff) ← readLength w buf off 2 "MPI truncated"
      let (bytes, bOff) ← readArea w buf bOff ((bitLen + 7) / 8) "MPI length exceeds buffer"
      .ok ⟨bytes, bitLen, bOff⟩) := by
  unfold parseMpi readLength readArea
  split
  · rfl
  · dsimp only [bind, Except.bind]
    split <;> rfl

theorem parseMpi_iff (fits : buf.length < 2 ^ (w.bits - 1)) (inside : off ≤ buf.length)
    {mpi : Mpi} :
    parseMpi w buf off = .ok mpi ↔
      mpi.bitLen < 256 ^ 2 ∧ mpi.bytes.length = (mpi.bitLen + 7) / 8 ∧
        toBytes 2 mpi.bitLen ++ mpi.bytes <+: buf.drop off ∧
        mpi.offset = off + 2 + mpi.bytes.length := by
  rw [parseMpi_eq, bind_ok]
  constructor
  · rintro ⟨⟨bitLen, o⟩, length, h⟩
    obtain ⟨bound, here, rfl⟩ := (readLength_iff fits inside (by decide)).mp length
    have inside' := end_le here inside
    rw [toBytes_length] at inside'
    obtain ⟨⟨bytes, o'⟩, area, h⟩ := bind_ok.mp h
    obtain ⟨long, there, rfl⟩ := (readArea_iff fits inside' (by omega)).mp area
    cases h
    exact ⟨bound, long, append_prefix_drop.mpr ⟨here, by rwa [toBytes_length]⟩, rfl⟩
  · obtain ⟨bytes, bitLen, o⟩ := mpi
    dsimp only
    rintro ⟨bound, long, here, rfl⟩
    obtain ⟨here, there⟩ := append_prefix_drop.mp here
    rw [toBytes_length] at there
    have inside' := end_le here inside
    rw [toBytes_length] at inside'
    refine ⟨(bitLen, off + 2), (readLength_iff fits inside (by decide)).mpr ⟨bound, here, rfl⟩, ?_⟩
    exact bind_ok.mpr ⟨(bytes, off + 2 + bytes.length),
      (readArea_iff fits inside' (by omega)).mpr ⟨long, there, rfl⟩, rfl⟩

end Reading

/-- The fields of a signature have the sizes that its body can write. -/
structure ParsedSignature.Fits (sig : ParsedSignature) (bits : Nat) : Prop where
  hashed : sig.hashedSubpackets.length < 256 ^ 2
  unhashed : sig.unhashedSubpackets.length < 256 ^ 2
  left : sig.hashLeft16 < 256 ^ 2
  number : bits < 256 ^ 2
  mpi : sig.signatureMpi.length = (bits + 7) / 8

/-- What stands behind the header of a body: the other subpackets, the beginning of the hash, and
the number. -/
def ParsedSignature.behind (sig : ParsedSignature) (bits : Nat) : ByteString :=
  toBytes 2 sig.unhashedSubpackets.length ++ (sig.unhashedSubpackets ++
    (toBytes 2 sig.hashLeft16 ++ (toBytes 2 bits ++ sig.signatureMpi)))

theorem signatureHeader_eq {sig : ParsedSignature} (h : sig.hashedSubpackets.length < 256 ^ 2) :
    signatureHeader sig =
      [0x04, sig.sigType, sig.pubKeyAlgo, sig.hashAlgo] ++ toBytes 2 sig.hashedSubpackets.length ++
        sig.hashedSubpackets := by
  have whole : sig.hashedSubpackets.length % 2 ^ 16 = sig.hashedSubpackets.length :=
    Nat.mod_eq_of_lt h
  unfold signatureHeader
  rw [whole]

/-- The areas are read one behind the other, to the end of the body. -/
theorem parseAreas_ok {w : Width} {body : ByteString} (fits : body.length < 2 ^ (w.bits - 1))
    (six : 6 ≤ body.length) {sigType pubKeyAlgo hashAlgo : UInt8} {hashedLen : Nat}
    (small : hashedLen < 256 ^ 2) {sig : ParsedSignature}
    (accepted : parseAreas w body sigType pubKeyAlgo hashAlgo hashedLen = .ok sig) :
    [sig.sigType, sig.pubKeyAlgo, sig.hashAlgo] = [sigType, pubKeyAlgo, hashAlgo] ∧
      sig.hashedSubpackets.length = hashedLen ∧
      ∃ bits, sig.Fits bits ∧ body.drop 6 = sig.hashedSubpackets ++ sig.behind bits := by
  obtain ⟨⟨hashed, o1⟩, area1, more1⟩ := bind_ok.mp accepted
  obtain ⟨⟨unhashedLen, o2⟩, length2, more2⟩ := bind_ok.mp more1
  obtain ⟨⟨unhashed, o3⟩, area3, more3⟩ := bind_ok.mp more2
  obtain ⟨⟨left, o4⟩, length4, more4⟩ := bind_ok.mp more3
  obtain ⟨mpi, number, result⟩ := bind_ok.mp more4
  obtain ⟨long1, at1, rfl⟩ := (readArea_iff fits six small).mp area1
  have inside1 := end_le at1 six
  obtain ⟨bound2, at2, rfl⟩ := (readLength_iff fits inside1 (by decide)).mp length2
  have inside2 := end_le at2 inside1
  rw [toBytes_length] at inside2
  obtain ⟨long3, at3, rfl⟩ := (readArea_iff fits inside2 bound2).mp area3
  have inside3 := end_le at3 inside2
  obtain ⟨bound4, at4, rfl⟩ := (readLength_iff fits inside3 (by decide)).mp length4
  have inside4 := end_le at4 inside3
  rw [toBytes_length] at inside4
  obtain ⟨bound5, long5, at5, next⟩ := (parseMpi_iff fits inside4).mp number
  split at result
  · cases result
  · rename_i last
    have last : mpi.offset = body.length := by simpa using last
    cases result
    refine ⟨rfl, long1, mpi.bitLen, ⟨long1 ▸ small, long3 ▸ bound2, bound4, bound5, long5⟩, ?_⟩
    have here : hashed ++ (toBytes 2 unhashed.length ++ (unhashed ++
        (toBytes 2 left ++ (toBytes 2 mpi.bitLen ++ mpi.bytes)))) <+: body.drop 6 := by
      rw [append_prefix_drop, append_prefix_drop, append_prefix_drop, append_prefix_drop,
        toBytes_length, toBytes_length]
      exact ⟨at1, long3 ▸ at2, at3, at4, at5⟩
    refine (here.eq_of_length ?_).symm
    simp only [List.length_append, toBytes_length, List.length_drop]
    omega

/-- **The bodies that are accepted** are the header and what stands behind it, and nothing more. -/
theorem parseSignatureBody_ok {w : Width} {body : ByteString} {sig : ParsedSignature}
    (fits : body.length < 2 ^ (w.bits - 1)) (accepted : parseSignatureBody w body = .ok sig) :
    ∃ bits, sig.Fits bits ∧ body = signatureHeader sig ++ sig.behind bits := by
  unfold parseSignatureBody at accepted
  split at accepted
  · rename_i version sigType pubKeyAlgo hashAlgo hi lo rest
    split at accepted
    · cases accepted
    · rename_i four
      have four : version = 4 := by simpa using four
      have octets : toBytes 2 (ofBytes [hi, lo]) = [hi, lo] := toBytes_ofBytes [hi, lo]
      have six : 6 ≤ (version :: sigType :: pubKeyAlgo :: hashAlgo :: hi :: lo :: rest).length :=
        Nat.le_add_left 6 _
      obtain ⟨same, long, bits, fields, behind⟩ :=
        parseAreas_ok fits six (ofBytes_lt [hi, lo]) accepted
      injection same with same1 same
      injection same with same2 same
      injection same with same3 same
      refine ⟨bits, fields, ?_⟩
      rw [signatureHeader_eq fields.hashed, long, octets, same1, same2, same3, List.append_assoc,
        ← behind, four]
      rfl
  · cases accepted

/-! ### What is hashed -/

/-- The length of the hashed subpackets, as a body has it. -/
def hashedLen (body : ByteString) : Nat := ofBytes ((body.drop 4).take 2)

/-- What the format puts behind the signed data: the beginning of the body, and its length. -/
def signedSuffix (body : ByteString) : List ByteString :=
  [body.take (6 + hashedLen body), [0x04, 0xff] ++ toBytes 4 (6 + hashedLen body)]

theorem hashedLen_eq {sig : ParsedSignature} (fits : sig.hashedSubpackets.length < 256 ^ 2)
    (behind : ByteString) :
    hashedLen (signatureHeader sig ++ behind) = sig.hashedSubpackets.length := by
  rw [hashedLen, signatureHeader_eq fits, List.append_assoc, List.append_assoc,
    List.drop_left' (by rfl), List.take_left' (toBytes_length 2 _), ofBytes_toBytes fits]

theorem signatureHeader_length {sig : ParsedSignature}
    (fits : sig.hashedSubpackets.length < 256 ^ 2) :
    (signatureHeader sig).length = 6 + sig.hashedSubpackets.length := by
  rw [signatureHeader_eq fits, List.length_append, List.length_append, toBytes_length]
  rfl

/-- The header and the trailer that are built again are those of the body. -/
theorem signedSuffix_eq {sig : ParsedSignature} (fits : sig.hashedSubpackets.length < 256 ^ 2)
    (behind : ByteString) :
    signedSuffix (signatureHeader sig ++ behind) =
      [signatureHeader sig, signatureTrailer (signatureHeader sig)] := by
  have length := signatureHeader_length fits
  have whole : (signatureHeader sig).length % 2 ^ 32 = (signatureHeader sig).length :=
    Nat.mod_eq_of_lt (by omega)
  rw [signedSuffix, hashedLen_eq fits, ← length, List.take_left]
  unfold signatureTrailer
  rw [whole]

section Hashing

variable (evp : Evp)

theorem Evp.feed_ok {ctx ctx' : evp.Ctx} {data : ByteString} {failure : String} :
    evp.feed ctx data failure = .ok ctx' ↔ evp.update ctx data = some ctx' := by
  unfold feed
  cases evp.update ctx data with
  | none => simp
  | some next => simp

theorem Evp.start_ok {ctx : evp.Ctx} :
    evp.start = .ok ctx ↔ (evp.new >>= evp.init) = some ctx := by
  unfold start
  cases evp.new with
  | none => simp
  | some fresh => cases h : evp.init fresh <;> simp [h]

theorem Evp.finish_ok {ctx : evp.Ctx} {digest : ByteString} :
    evp.finish ctx = .ok digest ↔ evp.final ctx = some digest := by
  unfold finish
  cases evp.final ctx with
  | none => simp
  | some made => simp

/-- The chunks of a file are its bytes. -/
theorem Evp.readLoop_pieces (chunk : Nat) (bytes : ByteString) :
    ∃ pieces : List ByteString, pieces.flatten = bytes ∧ ∀ ctx ctx' : evp.Ctx,
      evp.readLoop chunk ctx bytes = .ok ctx' ↔ pieces.foldlM evp.update ctx = some ctx' := by
  induction length : bytes.length using Nat.strong_induction_on generalizing bytes with
  | _ n ih =>
    by_cases full : 0 < chunk ∧ chunk ≤ bytes.length
    · obtain ⟨pieces, flat, rest⟩ := ih (bytes.drop chunk).length
        (by rw [List.length_drop]; omega) (bytes.drop chunk) rfl
      refine ⟨bytes.take chunk :: pieces, ?_, fun ctx ctx' => ?_⟩
      · rw [List.flatten_cons, flat, List.take_append_drop]
      · rw [readLoop, dif_pos full, List.foldlM_cons]
        unfold feed
        cases evp.update ctx (bytes.take chunk) with
        | none => simp
        | some next => exact rest next ctx'
    · by_cases empty : bytes = []
      · subst empty
        refine ⟨[], rfl, fun ctx ctx' => ?_⟩
        rw [readLoop, dif_neg full]
        simp
      · refine ⟨[bytes], List.append_nil _, fun ctx ctx' => ?_⟩
        rw [readLoop, dif_neg full, if_neg (by simpa using empty), feed_ok, List.foldlM_cons]
        simp

/-- Some updates and more of them. -/
theorem Evp.hash_append {updates more : List ByteString} {digest : ByteString} :
    evp.hash (updates ++ more) = some digest ↔
      ∃ ctx, evp.start = .ok ctx ∧ ∃ ctx', updates.foldlM evp.update ctx = some ctx' ∧
        (more.foldlM evp.update ctx' >>= evp.final) = some digest := by
  simp only [hash, start_ok, List.foldlM_append, Option.bind_eq_bind, Option.bind_eq_some_iff]
  grind

/-- Both functions end with the header and the trailer. -/
theorem hashHeader_ok {sig : ParsedSignature} {ctx : evp.Ctx} {digest : ByteString} :
    hashHeader evp sig ctx = .ok digest ↔
      ([signatureHeader sig, signatureTrailer (signatureHeader sig)].foldlM evp.update ctx >>=
        evp.final) = some digest := by
  simp only [hashHeader, bind_ok, evp.feed_ok, evp.finish_ok, List.foldlM_cons, List.foldlM_nil,
    Option.bind_eq_bind, Option.bind_eq_some_iff, Option.pure_def]
  grind

theorem hashSignedBuffer_ok {sig : ParsedSignature} {canonicalText digest : ByteString} :
    hashSignedBuffer evp sig canonicalText = .ok digest ↔
      evp.hash ((if canonicalText.isEmpty then [] else [canonicalText]) ++
        [signatureHeader sig, signatureTrailer (signatureHeader sig)]) = some digest := by
  rw [evp.hash_append, hashSignedBuffer, bind_ok]
  refine exists_congr fun ctx => and_congr_right fun _ => ?_
  cases canonicalText with
  | nil => exact (hashHeader_ok evp).trans (by simp)
  | cons c text =>
    refine bind_ok.trans (exists_congr fun ctx' => and_congr ?_ (hashHeader_ok evp))
    simp [evp.feed_ok]

theorem hashSignedData_ok {sig : ParsedSignature} {dataPath : ByteString} (bytes : ByteString) :
    ∃ pieces : List ByteString, pieces.flatten = bytes ∧ ∀ digest,
      hashSignedData evp sig dataPath (some ⟨bytes, false⟩) = .ok digest ↔
        evp.hash (pieces ++ [signatureHeader sig, signatureTrailer (signatureHeader sig)]) =
          some digest := by
  obtain ⟨pieces, flat, loop⟩ := evp.readLoop_pieces 4096 bytes
  refine ⟨pieces, flat, fun digest => ?_⟩
  rw [evp.hash_append, hashSignedData, bind_ok]
  refine exists_congr fun ctx => and_congr_right fun _ => ?_
  dsimp only
  rw [bind_ok]
  exact exists_congr fun ctx' => and_congr (loop ctx ctx') (hashHeader_ok evp)

end Hashing

/-- The body of a packet that is accepted. -/
theorem parseSignaturePacket_ok {w : Width} {blob : ByteString} {sig : ParsedSignature}
    (accepted : parseSignaturePacket w blob = some (.ok sig)) :
    ∃ header body, parsePacketHeader w blob 0 = .ok header ∧
      range blob header.offset (w.add header.offset header.bodyLen) = some body ∧
      parseSignatureBody w body = .ok sig := by
  unfold parseSignaturePacket at accepted
  split at accepted
  · cases accepted
  · rename_i header parsed
    split at accepted
    · cases accepted
    · split at accepted
      · cases accepted
      · obtain ⟨body, cut, read⟩ := Option.map_eq_some_iff.mp accepted
        exact ⟨header, body, parsed, cut, read⟩

theorem range_length_le {buf body : ByteString} {first last : Nat}
    (h : range buf first last = some body) : body.length ≤ buf.length := by
  unfold range at h
  split at h
  · cases h
    rw [List.length_take, List.length_drop]
    omega
  · cases h

/-- **What is hashed is what was signed.** A body that is accepted is its header and its areas, hash
prefix and number, to the end; and behind the data both functions hash the first `6 + hashedLen`
octets of the body and the trailer with that length. -/
theorem signature_hashed (w : Width) (blob : Buffer w) (sig : ParsedSignature)
    (accepted : parseSignaturePacket w blob.bytes = some (.ok sig)) :
    ∃ header body bits, parsePacketHeader w blob.bytes 0 = .ok header ∧
      range blob.bytes header.offset (w.add header.offset header.bodyLen) = some body ∧
      sig.Fits bits ∧ body = signatureHeader sig ++ sig.behind bits ∧
      6 + hashedLen body < 2 ^ 32 ∧
      [signatureHeader sig, signatureTrailer (signatureHeader sig)] = signedSuffix body ∧
      ∀ (evp : Evp) (text path : ByteString),
        (∀ digest, hashSignedBuffer evp sig text = .ok digest ↔
          evp.hash ((if text.isEmpty then [] else [text]) ++ signedSuffix body) = some digest) ∧
        ∃ pieces : List ByteString, pieces.flatten = text ∧ ∀ digest,
          hashSignedData evp sig path (some ⟨text, false⟩) = .ok digest ↔
            evp.hash (pieces ++ signedSuffix body) = some digest := by
  obtain ⟨header, body, parsed, cut, read⟩ := parseSignaturePacket_ok accepted
  have fits := Nat.lt_of_le_of_lt (range_length_le cut) blob.fits
  obtain ⟨bits, fields, text⟩ := parseSignatureBody_ok fits read
  have suffix := signedSuffix_eq fields.hashed (sig.behind bits)
  have length := hashedLen_eq fields.hashed (sig.behind bits)
  have small := fields.hashed
  rw [← text] at suffix length
  refine ⟨header, body, bits, parsed, cut, fields, text, by omega, suffix.symm, ?_⟩
  intro evp text path
  rw [suffix]
  exact ⟨fun digest => hashSignedBuffer_ok evp, hashSignedData_ok evp text⟩

/-- A packet with one octet of hashed subpackets. -/
def signedBlob : Buffer .bits64 :=
  ⟨[0xc2, 14, 4, 0, 1, 8, 0, 1, 7, 0, 0, 0xab, 0xcd, 0, 3, 5], by decide⟩

theorem signature_hashed_sample : ∃ body, signedSuffix body =
    [[4, 0, 1, 8, 0, 1, 7], [4, 0xff, 0, 0, 0, 7]] := by
  obtain ⟨header, body, bits, -, -, -, -, -, suffix, -⟩ := signature_hashed .bits64 signedBlob
    ⟨0, 1, 8, 0xabcd, [7], [], [5]⟩ (by decide +kernel)
  exact ⟨body, suffix.symm.trans (by rfl)⟩

end Apm.Crypto
