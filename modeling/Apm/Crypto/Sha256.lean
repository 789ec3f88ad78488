import Apm.Crypto.Fips180
import Apm.Lib.BlockStream
import Mathlib.Data.List.GetD
import Mathlib.Tactic.Linarith

/-!
`src/util/crypto/sha256.cpp`: the `SHA256` digest context.

The compression function and the buffering agree with FIPS 180-4
(`processBlock_eq_compress`, `Absorbed.update`). The padding does not: `finalHex`
feeds the padding through `update`, which counts it, and only then reads the
length counter. `finalHex_eq_iff` says what that costs: the digest is the
standard's only when two different last blocks collide.
-/

namespace Apm.Crypto

open Apm.Lib.BlockStream
open Fips180 (Word Vars)

/-! ### The digest context -/

/-- The round constants of the source. -/
def K : List UInt32 :=
  [0x428a2f98, 0x71374491, 0xb5c0fbcf, 0xe9b5dba5, 0x3956c25b,
   0x59f111f1, 0x923f82a4, 0xab1c5ed5, 0xd807aa98, 0x12835b01,
   0x243185be, 0x550c7dc3, 0x72be5d74, 0x80deb1fe, 0x9bdc06a7,
   0xc19bf174, 0xe49b69c1, 0xefbe4786, 0x0fc19dc6, 0x240ca1cc,
   0x2de92c6f, 0x4a7484aa, 0x5cb0a9dc, 0x76f988da, 0x983e5152,
   0xa831c66d, 0xb00327c8, 0xbf597fc7, 0xc6e00bf3, 0xd5a79147,
   0x06ca6351, 0x14292967, 0x27b70a85, 0x2e1b2138, 0x4d2c6dfc,
   0x53380d13, 0x650a7354, 0x766a0abb, 0x81c2c92e, 0x92722c85,
   0xa2bfe8a1, 0xa81a664b, 0xc24b8b70, 0xc76c51a3, 0xd192e819,
   0xd6990624, 0xf40e3585, 0x106aa070, 0x19a4c116, 0x1e376c08,
   0x2748774c, 0x34b0bcb5, 0x391c0cb3, 0x4ed8aa4a, 0x5b9cca4f,
   0x682e6ff3, 0x748f82ee, 0x78a5636f, 0x84c87814, 0x8cc70208,
   0x90befffa, 0xa4506ceb, 0xbef9a3f7, 0xc67178f2]

def rotr (x n : UInt32) : UInt32 := (x >>> n) ||| (x <<< (32 - n))

/-- `w[i]` for `i < 16`. -/
def loadWord (block : ByteString) (i : Nat) : UInt32 :=
  ((block.getD (i * 4) 0).toUInt32 <<< 24) ||| ((block.getD (i * 4 + 1) 0).toUInt32 <<< 16) |||
    ((block.getD (i * 4 + 2) 0).toUInt32 <<< 8) ||| (block.getD (i * 4 + 3) 0).toUInt32

/-- One pass of the loop that fills `w[16..63]`. -/
def extendSchedule (w : List UInt32) (i : Nat) : List UInt32 :=
  let w15 := w.getD (i - 15) 0
  let w2 := w.getD (i - 2) 0
  let s0 := rotr w15 7 ^^^ rotr w15 18 ^^^ (w15 >>> 3)
  let s1 := rotr w2 17 ^^^ rotr w2 19 ^^^ (w2 >>> 10)
  w ++ [w.getD (i - 16) 0 + s0 + w.getD (i - 7) 0 + s1]

def schedule (block : ByteString) : List UInt32 :=
  (List.range' 16 48).foldl extendSchedule ((List.range 16).map (loadWord block))

/-- One pass of the compression loop over `a`, …, `h`. -/
def compressRound (w : List UInt32) (v : Vars) (i : Nat) : Vars :=
  let S1 := rotr v.e 6 ^^^ rotr v.e 11 ^^^ rotr v.e 25
  let ch := (v.e &&& v.f) ^^^ (~~~v.e &&& v.g)
  let temp1 := v.h + S1 + ch + K.getD i 0 + w.getD i 0
  let S0 := rotr v.a 2 ^^^ rotr v.a 13 ^^^ rotr v.a 22
  let maj := (v.a &&& v.b) ^^^ (v.a &&& v.c) ^^^ (v.b &&& v.c)
  let temp2 := S0 + maj
  { h := v.g, g := v.f, f := v.e, e := v.d + temp1, d := v.c, c := v.b, b := v.a,
    a := temp1 + temp2 }

/-- `SHA256::processBlock` as a function of `m_state`. -/
def processBlock (state : Vars) (block : ByteString) : Vars :=
  let w := schedule block
  let v := (List.range 64).foldl (compressRound w) state
  ⟨state.a + v.a, state.b + v.b, state.c + v.c, state.d + v.d,
    state.e + v.e, state.f + v.f, state.g + v.g, state.h + v.h⟩

/-- The members of class `SHA256`. `buffer` is the used part of `m_buffer`, so
`m_bufferSize` is its length; between calls it is never a full block. -/
structure SHA256 where
  bitLen : UInt64
  state : Vars
  buffer : ByteString
  buffer_lt : buffer.length < 64

namespace SHA256

/-- The constructor. -/
def new : SHA256 where
  bitLen := 0
  state := ⟨0x6a09e667, 0xbb67ae85, 0x3c6ef372, 0xa54ff53a,
    0x510e527f, 0x9b05688c, 0x1f83d9ab, 0x5be0cd19⟩
  buffer := []
  buffer_lt := by decide

/-- `SHA256::update`: count the bits, then run the copy loop. -/
def update (s : SHA256) (data : ByteString) : SHA256 where
  bitLen := s.bitLen + UInt64.ofNat data.length * 8
  state := (feed 64 processBlock s.state s.buffer data).1
  buffer := (feed 64 processBlock s.state s.buffer data).2
  buffer_lt := by
    rw [feed_eq_chain _ _ _ s.buffer_lt]
    exact chain_rest_lt (by decide) _ _

/-- `padLen` of `finalHex`. -/
def padLen (s : SHA256) : Nat :=
  let mod := s.buffer.length % 64
  if mod < 56 then 56 - mod else 64 + 56 - mod

/-- The first `padLen` bytes of `uint8_t pad[64] = {0x80}`. -/
def padding (s : SHA256) : ByteString := (0x80 :: List.replicate 63 0).take s.padLen

/-- `lenBytes`: the counter `m_bitLen`, most significant byte first. -/
def lenBytes (s : SHA256) : ByteString :=
  (List.range 8).map fun j => ((s.bitLen >>> UInt64.ofNat ((7 - j) * 8)) &&& 0xff).toUInt8

/-- The context at the end of `finalHex`. The counter is read after the padding
has gone through `update`. -/
def finish (s : SHA256) : SHA256 :=
  let padded := s.update s.padding
  padded.update padded.lenBytes

end SHA256

/-- `sprintf("%08x", word)`. -/
def hex8 (word : UInt32) : ByteString :=
  (List.range 8).map fun k => hexDigit (word.toNat / 16 ^ (7 - k) % 16)

/-- `SHA256::finalHex`. -/
def SHA256.finalHex (s : SHA256) : ByteString :=
  let v := s.finish.state
  [v.a, v.b, v.c, v.d, v.e, v.f, v.g, v.h].flatMap hex8

/-! ### The compression function is the standard's -/

theorem K_eq : K = Fips180.K := rfl

/-- Shifting bytes into place and joining them with `|` is positional notation. -/
theorem loadWord_eq (block : ByteString) (i : Nat) : loadWord block i = Fips180.wordOf block i := by
  unfold loadWord Fips180.wordOf
  rw [Nat.mul_comm 4 i]
  generalize block.getD (i * 4) 0 = a
  generalize block.getD (i * 4 + 1) 0 = b
  generalize block.getD (i * 4 + 2) 0 = c
  generalize block.getD (i * 4 + 3) 0 = d
  have ha := a.toNat_lt
  have hb := b.toNat_lt
  have hc := c.toNat_lt
  have hd := d.toNat_lt
  have join : ∀ hi lo k : Nat, lo < 2 ^ k → hi * 2 ^ k ||| lo = hi * 2 ^ k + lo := by
    intro hi lo k h
    rw [← Nat.shiftLeft_eq, Nat.shiftLeft_add_eq_or_of_lt h]
  have abc : a.toNat * 2 ^ 24 ||| b.toNat * 2 ^ 16 ||| c.toNat * 2 ^ 8 ||| d.toNat =
      a.toNat * 2 ^ 24 + b.toNat * 2 ^ 16 + c.toNat * 2 ^ 8 + d.toNat := by
    rw [Nat.or_assoc, Nat.or_assoc, join c.toNat _ 8 (by omega), join b.toNat _ 16 (by omega),
      join a.toNat _ 24 (by omega)]
    omega
  apply UInt32.toNat_inj.mp
  simp only [UInt32.toNat_or, UInt32.toNat_shiftLeft, UInt8.toNat_toUInt32, UInt32.toNat_ofNat',
    Nat.shiftLeft_eq]
  rw [show UInt32.toNat 24 % 32 = 24 from rfl, show UInt32.toNat 16 % 32 = 16 from rfl,
    show UInt32.toNat 8 % 32 = 8 from rfl, Nat.mod_eq_of_lt (by omega), Nat.mod_eq_of_lt (by omega),
    Nat.mod_eq_of_lt (by omega), abc, Nat.mod_eq_of_lt (by omega)]

theorem schedule_sigma0 (x : UInt32) :
    rotr x 7 ^^^ rotr x 18 ^^^ (x >>> 3) = Fips180.smallSigma0 x := rfl

theorem schedule_sigma1 (x : UInt32) :
    rotr x 17 ^^^ rotr x 19 ^^^ (x >>> 10) = Fips180.smallSigma1 x := rfl

/-- The schedule loop after `k` passes holds the standard's first `16 + k` words. -/
theorem extendSchedule_spec (block : ByteString) (k : Nat) :
    let w := (List.range' 16 k).foldl extendSchedule ((List.range 16).map (loadWord block))
    w.length = 16 + k ∧ ∀ t < 16 + k, w.getD t 0 = Fips180.W block t := by
  induction k with
  | zero =>
    refine ⟨by simp, fun t ht => ?_⟩
    rw [Fips180.W, if_pos (by omega), ← loadWord_eq]
    simp [List.getD_eq_getElem?_getD, List.getElem?_range (show t < 16 by omega)]
  | succ k ih =>
    obtain ⟨len, words⟩ := ih
    rw [List.range'_concat, List.foldl_append, Nat.one_mul]
    simp only [List.foldl_cons, List.foldl_nil]
    generalize (List.range' 16 k).foldl extendSchedule _ = w at len words
    refine ⟨by simp [extendSchedule, len]; omega, fun t ht => ?_⟩
    by_cases old : t < 16 + k
    · rw [extendSchedule, List.getD_append _ _ _ _ (by omega)]
      exact words t old
    · obtain rfl : t = 16 + k := by omega
      rw [extendSchedule, List.getD_append_right _ _ _ _ (by omega), len, Nat.sub_self,
        Fips180.W, if_neg (by omega)]
      simp only [List.getD_cons_zero, schedule_sigma0, schedule_sigma1]
      rw [words _ (by omega), words _ (by omega), words _ (by omega), words _ (by omega)]
      ac_rfl

theorem schedule_getD (block : ByteString) {t : Nat} (ht : t < 64) :
    (schedule block).getD t 0 = Fips180.W block t :=
  (extendSchedule_spec block 48).2 t ht

/-- **The compression function is the standard's.** -/
theorem processBlock_eq_compress : processBlock = Fips180.compress := by
  funext state block
  have rounds : (List.range 64).foldl (compressRound (schedule block)) state =
      (List.range 64).foldl (Fips180.round block) state := by
    refine List.foldl_ext _ _ state fun v i hi => ?_
    rw [compressRound, Fips180.round, schedule_getD block (List.mem_range.mp hi), K_eq]
    rfl
  simp only [processBlock, Fips180.compress, rounds, UInt32.add_comm]

/-! ### The buffered context against the whole message -/

/-- The context has taken in the bytes `m`: its state and buffer are those of the
unbuffered computation and its counter is the bit length. -/
structure Absorbed (s : SHA256) (m : ByteString) : Prop where
  blocks : (s.state, s.buffer) = chain 64 processBlock SHA256.new.state m
  bits : s.bitLen = UInt64.ofNat (8 * m.length)

theorem Absorbed.new : Absorbed SHA256.new [] where
  blocks := (chain_short (by decide)).symm
  bits := rfl

/-- One `update` appends its data to what was taken in. -/
theorem Absorbed.update {s : SHA256} {m : ByteString} (h : Absorbed s m) (data : ByteString) :
    Absorbed (s.update data) (m ++ data) where
  blocks := by
    rw [chain_append (by decide), ← h.blocks, ← feed_eq_chain _ _ _ s.buffer_lt]
    rfl
  bits := by
    rw [SHA256.update, h.bits]
    rw [List.length_append, Nat.mul_add, UInt64.ofNat_add,
      UInt64.ofNat_mul (a := 8) (b := data.length),
      UInt64.mul_comm _ 8]
    rfl

theorem Absorbed.buffer_length {s : SHA256} {m : ByteString} (h : Absorbed s m) :
    s.buffer.length = m.length % 64 := by
  rw [← chain_rest_length (f := processBlock) (by decide) SHA256.new.state m, ← h.blocks]

/-- The context after the constructor and one `update`. -/
theorem absorbed_update_new (m : ByteString) : Absorbed (SHA256.new.update m) m :=
  Absorbed.new.update m

/-! ### The padding of `finalHex` -/

/-- The padding bytes are the standard's. -/
theorem Absorbed.padding_eq {s : SHA256} {m : ByteString} (h : Absorbed s m) :
    s.padding = 0x80 :: List.replicate (Fips180.zeroBytes m.length) 0 := by
  have len : s.padLen = Fips180.zeroBytes m.length + 1 := by
    simp only [SHA256.padLen, h.buffer_length, Fips180.zeroBytes]
    split <;> omega
  rw [SHA256.padding, len, List.take_succ_cons, List.take_replicate]
  congr 2
  unfold Fips180.zeroBytes
  omega

/-- The length bytes are the counter in big-endian order. -/
theorem lenBytes_eq (s : SHA256) : s.lenBytes = Fips180.be64 s.bitLen.toNat := by
  unfold SHA256.lenBytes Fips180.be64
  refine List.map_congr_left fun j hj => ?_
  have hj := List.mem_range.mp hj
  apply UInt8.toNat_inj.mp
  simp only [UInt64.toNat_toUInt8, UInt64.toNat_and, UInt64.toNat_shiftRight, UInt64.toNat_ofNat',
    UInt8.toNat_ofNat']
  rw [Nat.mod_eq_of_lt (show (7 - j) * 8 < 2 ^ 64 by omega),
    Nat.mod_eq_of_lt (show (7 - j) * 8 < 64 by omega), Nat.shiftRight_eq_div_pow,
    show (UInt64.toNat 0xff) = 2 ^ 8 - 1 from rfl, Nat.and_two_pow_sub_one_eq_mod, Nat.mod_mod,
    Nat.mul_comm, Nat.pow_mul]

/-- The message with the padding in front of the length field. -/
def openPadded (m : ByteString) : ByteString :=
  m ++ 0x80 :: List.replicate (Fips180.zeroBytes m.length) 0

theorem openPadded_length (m : ByteString) : (openPadded m).length % 64 = 56 := by
  have := (Fips180.zeroBytes_least m.length).1
  simp only [openPadded, List.length_append, List.length_cons, List.length_replicate]
  omega

/-- The bytes of `openPadded m` in whole blocks. -/
def wholeBlocks (m : ByteString) : ByteString :=
  (openPadded m).take (64 * ((openPadded m).length / 64))

/-- The last block of the padded message when the length field holds `bits`. -/
def lastBlock (m : ByteString) (bits : Nat) : ByteString :=
  (openPadded m).drop (64 * ((openPadded m).length / 64)) ++ Fips180.be64 bits

/-- The length `finalHex` writes: the message's bits and the padding's. -/
def countedBits (m : ByteString) : Nat := 8 * (m.length + (Fips180.zeroBytes m.length + 1))

/-- The chaining value before the last block. -/
def chainedBefore (m : ByteString) : Vars :=
  (chain 64 processBlock SHA256.new.state (wholeBlocks m)).1

theorem lastBlock_length (m : ByteString) (bits : Nat) : (lastBlock m bits).length = 64 := by
  have := openPadded_length m
  simp only [lastBlock, Fips180.be64, List.length_append, List.length_drop, List.length_map,
    List.length_range]
  omega

theorem openPadded_append (m : ByteString) (bits : Nat) :
    openPadded m ++ Fips180.be64 bits = wholeBlocks m ++ lastBlock m bits := by
  rw [lastBlock, wholeBlocks, ← List.append_assoc, List.take_append_drop]

/-- Whatever the length field, hashing ends by compressing the last block. -/
theorem chain_openPadded (m : ByteString) (bits : Nat) :
    chain 64 processBlock SHA256.new.state (openPadded m ++ Fips180.be64 bits) =
      (processBlock (chainedBefore m) (lastBlock m bits), []) := by
  have whole : (wholeBlocks m).length % 64 = 0 := by
    simp only [wholeBlocks, List.length_take]
    omega
  rw [openPadded_append, chain_last (by decide) _ whole (lastBlock_length m bits)]
  rfl

/-- Eight bytes hold a length modulo `2 ^ 64`. -/
theorem be64_mod (n : Nat) : Fips180.be64 (n % 2 ^ 64) = Fips180.be64 n := by
  unfold Fips180.be64
  refine List.map_congr_left fun j hj => ?_
  have hj := List.mem_range.mp hj
  apply UInt8.toNat_inj.mp
  simp only [UInt8.toNat_ofNat']
  -- byte `j` only depends on the bits below `2 ^ (8 * (8 - j))`
  rw [show (256 : Nat) = 2 ^ 8 from rfl, ← Nat.pow_mul,
    show (2 : Nat) ^ 64 = 2 ^ (8 * (7 - j)) * 2 ^ (8 * (j + 1)) by
      rw [← Nat.pow_add]; congr 1; omega,
    Nat.mod_mul_right_div_self, Nat.mod_mod_of_dvd]
  exact Nat.pow_dvd_pow 2 (by omega)

theorem be64_inj {a b : Nat} (ha : a < 2 ^ 64) (hb : b < 2 ^ 64)
    (h : Fips180.be64 a = Fips180.be64 b) : a = b := by
  have byte : ∀ j < 8, a / 256 ^ (7 - j) % 256 = b / 256 ^ (7 - j) % 256 := by
    intro j hj
    have := congrArg (fun l => (l.getD j 0).toNat) h
    simpa [Fips180.be64, List.getD_eq_getElem?_getD, hj] using this
  have b0 := byte 0 (by decide)
  have b1 := byte 1 (by decide)
  have b2 := byte 2 (by decide)
  have b3 := byte 3 (by decide)
  have b4 := byte 4 (by decide)
  have b5 := byte 5 (by decide)
  have b6 := byte 6 (by decide)
  have b7 := byte 7 (by decide)
  norm_num at b0 b1 b2 b3 b4 b5 b6 b7
  omega

/-- The final state of the source: the length field counts the padding. -/
theorem finish_state (m : ByteString) :
    (SHA256.new.update m).finish.state =
      processBlock (chainedBefore m) (lastBlock m (countedBits m)) := by
  have taken := absorbed_update_new m
  have padded := taken.update (SHA256.new.update m).padding
  have stream : m ++ (SHA256.new.update m).padding = openPadded m := by
    rw [taken.padding_eq, openPadded]
  have counter : ((SHA256.new.update m).update (SHA256.new.update m).padding).lenBytes =
      Fips180.be64 (countedBits m) := by
    rw [lenBytes_eq, padded.bits, UInt64.toNat_ofNat', be64_mod, stream]
    simp [openPadded, countedBits]
  have final := (padded.update (Fips180.be64 (countedBits m))).blocks
  rw [stream, chain_openPadded] at final
  rw [SHA256.finish, counter]
  exact (Prod.ext_iff.mp final).1

/-- Hashing the numbered blocks of a list is chaining over the list. -/
theorem foldl_blocks_eq_chain (f : Vars → ByteString → Vars) (c : Vars) (p : ByteString) :
    (List.range (p.length / 64)).foldl (fun H i => f H (Fips180.block p i)) c =
      (chain 64 f c p).1 := by
  induction p using block_induction (n := 64) (by decide) generalizing c with
  | short l h => rw [Nat.div_eq_of_lt h, chain_short h]; rfl
  | block b l hb ih =>
    have count : (b ++ l).length / 64 = l.length / 64 + 1 := by
      rw [List.length_append, hb]
      omega
    have first : Fips180.block (b ++ l) 0 = b := by
      simp [Fips180.block, ← hb]
    have later : ∀ i, Fips180.block (b ++ l) (i + 1) = Fips180.block l i := by
      intro i
      rw [Fips180.block, Fips180.block, Nat.mul_succ, Nat.add_comm, ← List.drop_drop, ← hb,
        List.drop_left]
    rw [count, List.range_succ_eq_map, List.foldl_cons, List.foldl_map,
      chain_block l (by decide) hb,
      ← ih, first]
    simp only [Nat.succ_eq_add_one, later]

/-- The final hash value of the standard: the length field holds the message's bits. -/
theorem hashBlocks_pad (m : ByteString) :
    Fips180.hashBlocks (Fips180.pad m) =
      processBlock (chainedBefore m) (lastBlock m (8 * m.length)) := by
  have padded : Fips180.pad m = openPadded m ++ Fips180.be64 (8 * m.length) := rfl
  rw [Fips180.hashBlocks, foldl_blocks_eq_chain, padded, ← processBlock_eq_compress,
    show Fips180.H0 = SHA256.new.state from rfl, chain_openPadded]

/-! ### The digest text -/

/-- `%08x` prints the four bytes of the word. -/
theorem hex8_eq_hexWord : hex8 = Fips180.hexWord := by
  funext w
  have digits : ∀ k < 4, UInt8.toNat (UInt8.ofNat (w.toNat / 256 ^ (3 - k))) / 16 =
      w.toNat / 16 ^ (7 - 2 * k) % 16 ∧
      UInt8.toNat (UInt8.ofNat (w.toNat / 256 ^ (3 - k))) % 16 =
      w.toNat / 16 ^ (7 - (2 * k + 1)) % 16 := by
    intro k hk
    simp only [UInt8.toNat_ofNat']
    obtain rfl | rfl | rfl | rfl : k = 0 ∨ k = 1 ∨ k = 2 ∨ k = 3 := by omega
    all_goals norm_num; omega
  have d0 := digits 0 (by decide)
  have d1 := digits 1 (by decide)
  have d2 := digits 2 (by decide)
  have d3 := digits 3 (by decide)
  simp only [hex8, Fips180.hexWord, Fips180.hexByte, List.range, List.range.loop, List.map_cons,
    List.map_nil, List.flatMap_cons, List.flatMap_nil, List.cons_append, List.nil_append, d0, d1,
    d2, d3]

theorem hexWord_inj {w w' : Word} (h : Fips180.hexWord w = Fips180.hexWord w') : w = w' := by
  rw [← hex8_eq_hexWord] at h
  have digit : ∀ k < 8, w.toNat / 16 ^ (7 - k) % 16 = w'.toNat / 16 ^ (7 - k) % 16 := by
    intro k hk
    have := congrArg (fun l => l.getD k 0) h
    simp only [hex8, List.getD_eq_getElem?_getD, List.getElem?_map, List.getElem?_range hk,
      Option.map_some, Option.getD_some] at this
    exact hexDigit_inj (Nat.mod_lt _ (by decide)) (Nat.mod_lt _ (by decide)) this
  have lt := w.toNat_lt
  have lt' := w'.toNat_lt
  have d0 := digit 0 (by decide)
  have d1 := digit 1 (by decide)
  have d2 := digit 2 (by decide)
  have d3 := digit 3 (by decide)
  have d4 := digit 4 (by decide)
  have d5 := digit 5 (by decide)
  have d6 := digit 6 (by decide)
  have d7 := digit 7 (by decide)
  norm_num at d0 d1 d2 d3 d4 d5 d6 d7
  exact UInt32.toNat_inj.mp (by omega)

/-- The digest text determines the hash value. -/
theorem hexDigest_inj {v v' : Vars} (h : Fips180.hexDigest v = Fips180.hexDigest v') : v = v' := by
  simp only [Fips180.hexDigest, List.flatMap_cons, List.flatMap_nil] at h
  obtain ⟨ha, h⟩ := List.append_inj h rfl
  obtain ⟨hb, h⟩ := List.append_inj h rfl
  obtain ⟨hc, h⟩ := List.append_inj h rfl
  obtain ⟨hd, h⟩ := List.append_inj h rfl
  obtain ⟨he, h⟩ := List.append_inj h rfl
  obtain ⟨hf, h⟩ := List.append_inj h rfl
  obtain ⟨hg, h⟩ := List.append_inj h rfl
  obtain ⟨hh, -⟩ := List.append_inj h rfl
  cases v
  cases v'
  simp only [Vars.mk.injEq]
  exact ⟨hexWord_inj ha, hexWord_inj hb, hexWord_inj hc, hexWord_inj hd, hexWord_inj he,
    hexWord_inj hf, hexWord_inj hg, hexWord_inj hh⟩

theorem finalHex_eq_hexDigest (s : SHA256) : s.finalHex = Fips180.hexDigest s.finish.state := by
  rw [SHA256.finalHex, hex8_eq_hexWord]
  rfl

/-! ### When the source's digest is the standard's -/

/-- The message makes the compression function collide: the last block the source
hashes is not the standard's, and both compress to the same state. -/
structure LastBlockCollision (m : ByteString) : Prop where
  differ : lastBlock m (countedBits m) ≠ lastBlock m (8 * m.length)
  collide : processBlock (chainedBefore m) (lastBlock m (countedBits m)) =
    processBlock (chainedBefore m) (lastBlock m (8 * m.length))

/-- The two last blocks always differ: the counted padding is at most 64 bytes. -/
theorem lastBlock_differ (m : ByteString) (h : m.length < 2 ^ 61) :
    lastBlock m (countedBits m) ≠ lastBlock m (8 * m.length) := by
  intro same
  have field := List.append_cancel_left same
  rw [← be64_mod (countedBits m)] at field
  have := be64_inj (Nat.mod_lt _ (by decide)) (by omega) field
  unfold countedBits Fips180.zeroBytes at this
  omega

/-- **When `finalHex` is SHA-256.** The digest of one `update` with `m` is the
standard's digest of `m` exactly when `m` is a collision of the compression
function on its two candidate last blocks. -/
theorem finalHex_eq_iff (m : ByteString) (h : m.length < 2 ^ 61) :
    (SHA256.new.update m).finalHex = Fips180.sha256Hex m ↔ LastBlockCollision m := by
  rw [finalHex_eq_hexDigest, Fips180.sha256Hex, finish_state, hashBlocks_pad]
  constructor
  · intro same
    exact ⟨lastBlock_differ m h, hexDigest_inj same⟩
  · intro collision
    rw [collision.collide]

theorem finalHex_eq_iff_abc :
    (SHA256.new.update (str "abc")).finalHex = Fips180.sha256Hex (str "abc") ↔
      LastBlockCollision (str "abc") :=
  finalHex_eq_iff (str "abc") (by decide)

/-- The empty message already gets a wrong digest. -/
theorem finalHex_empty_ne :
    (SHA256.new.update []).finalHex ≠ Fips180.sha256Hex [] := by
  rw [finalHex_eq_hexDigest, Fips180.sha256Hex, finish_state, hashBlocks_pad]
  intro same
  have states := hexDigest_inj same
  have before : chainedBefore [] = SHA256.new.state := by
    rw [chainedBefore, show wholeBlocks [] = [] from rfl, chain_short (by decide)]
  rw [before] at states
  revert states
  decide +kernel

end Apm.Crypto
