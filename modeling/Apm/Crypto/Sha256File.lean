import Apm.Crypto.Sha256

/-!
`SHA256::update` and `sha256File` of `src/util/crypto/sha256.cpp` on input that comes in pieces.

## Main results

* `finalHex_pieces`: however a text is cut into pieces, its digest is that of the whole, and so is
  the digest of a file.
-/

namespace Apm.Crypto

open Apm.Lib.BlockStream

/-! ### Files -/

/-- What a stream gives: bytes, and then its end or an error. -/
structure InputFile where
  bytes : ByteString
  failed : Bool

/-- `while (in.good())`: whole chunks are taken in, and what is left at the end, if anything. -/
def readLoop (chunk : Nat) (ctx : SHA256) (bytes : ByteString) : SHA256 :=
  if _full : 0 < chunk ∧ chunk ≤ bytes.length then
    readLoop chunk (ctx.update (bytes.take chunk)) (bytes.drop chunk)
  else if bytes.isEmpty then ctx
  else ctx.update bytes
termination_by bytes.length
decreasing_by rw [List.length_drop]; omega

def sha256File (path : ByteString) (file : Option InputFile) : Except ByteString ByteString :=
  match file with
  | none => .error (str "Could not open file for SHA256: " ++ path)
  | some file =>
      let ctx := readLoop 4096 SHA256.new file.bytes
      if file.failed then .error (str "Read error during SHA256: " ++ path) else .ok ctx.finalHex

/-! ### Pieces -/

namespace SHA256

theorem ext_chain {s s' : SHA256} (bits : s.bitLen = s'.bitLen)
    (blocks : (s.state, s.buffer) = (s'.state, s'.buffer)) : s = s' := by
  obtain ⟨state, buffer⟩ := Prod.mk.inj blocks
  cases s
  cases s'
  simp_all

/-- What `update` makes of the open block and its data. -/
theorem update_blocks (s : SHA256) (data : ByteString) :
    ((s.update data).state, (s.update data).buffer) =
      chain 64 processBlock s.state (s.buffer ++ data) := by
  rw [← feed_eq_chain _ _ _ s.buffer_lt]
  rfl

theorem update_nil (s : SHA256) : s.update [] = s := by
  apply ext_chain
  · simp [update]
  · rw [update_blocks, List.append_nil, chain_short s.buffer_lt]

/-- **Two updates are one** with both pieces of data. -/
theorem update_append (s : SHA256) (data more : ByteString) :
    (s.update data).update more = s.update (data ++ more) := by
  apply ext_chain
  · calc ((s.update data).update more).bitLen
        = s.bitLen + UInt64.ofNat data.length * 8 + UInt64.ofNat more.length * 8 := rfl
      _ = s.bitLen + UInt64.ofNat (data ++ more).length * 8 := by
          rw [List.length_append, UInt64.ofNat_add, UInt64.add_mul, UInt64.add_assoc]
  · have first := update_blocks s data
    rw [update_blocks, update_blocks, ← List.append_assoc,
      chain_append (by decide) s.state (s.buffer ++ data), ← first]

/-- Any number of updates are one. -/
theorem foldl_update (s : SHA256) (pieces : List ByteString) :
    pieces.foldl update s = s.update pieces.flatten := by
  induction pieces generalizing s with
  | nil => exact (update_nil s).symm
  | cons piece pieces ih => rw [List.foldl_cons, ih, update_append, List.flatten_cons]

end SHA256

/-- The loop takes in all bytes, whatever the size of its chunks. -/
theorem readLoop_eq (chunk : Nat) (ctx : SHA256) (bytes : ByteString) :
    readLoop chunk ctx bytes = ctx.update bytes := by
  induction length : bytes.length using Nat.strong_induction_on generalizing ctx bytes with
  | _ n ih =>
    rw [readLoop]
    split
    · rename_i full
      have shorter : (bytes.drop chunk).length < n := by
        rw [List.length_drop]
        omega
      rw [ih _ shorter _ _ rfl, SHA256.update_append, List.take_append_drop]
    · split
      · rename_i empty
        rw [List.isEmpty_iff.mp empty, SHA256.update_nil]
      · rfl

/-- **The digest does not depend on how the bytes come in**: pieces of any lengths give the digest
of one update with all of them, and so do the chunks of a file that is read to its end. -/
theorem finalHex_pieces (pieces : List ByteString) (path : ByteString) :
    (pieces.foldl SHA256.update SHA256.new).finalHex =
        (SHA256.new.update pieces.flatten).finalHex ∧
      sha256File path (some ⟨pieces.flatten, false⟩) =
        .ok (SHA256.new.update pieces.flatten).finalHex := by
  constructor
  · rw [SHA256.foldl_update]
  · unfold sha256File
    dsimp only
    rw [readLoop_eq]
    rfl

end Apm.Crypto
