import KFaceAuth.Lib.Sha256
import Mathlib.Data.List.Basic

/-!
# Portable SHA-256

The digest of model files and templates, computed without a library
(`digest_software`).

* `digestSoftware_spec`: it is the digest of the standard, for every byte string
  whose number of bits fits 64 bits.
-/

namespace KFaceAuth

open Sha256

/-- `INITIAL_STATE` -/
def initialState : Words :=
  ⟨0x6a09e667, 0xbb67ae85, 0x3c6ef372, 0xa54ff53a,
    0x510e527f, 0x9b05688c, 0x1f83d9ab, 0x5be0cd19⟩

/-- `ROUND_CONSTANTS` -/
def roundConstants : List Word :=
  [0x428a2f98, 0x71374491, 0xb5c0fbcf, 0xe9b5dba5, 0x3956c25b, 0x59f111f1, 0x923f82a4, 0xab1c5ed5,
    0xd807aa98, 0x12835b01, 0x243185be, 0x550c7dc3, 0x72be5d74, 0x80deb1fe, 0x9bdc06a7, 0xc19bf174,
    0xe49b69c1, 0xefbe4786, 0x0fc19dc6, 0x240ca1cc, 0x2de92c6f, 0x4a7484aa, 0x5cb0a9dc, 0x76f988da,
    0x983e5152, 0xa831c66d, 0xb00327c8, 0xbf597fc7, 0xc6e00bf3, 0xd5a79147, 0x06ca6351, 0x14292967,
    0x27b70a85, 0x2e1b2138, 0x4d2c6dfc, 0x53380d13, 0x650a7354, 0x766a0abb, 0x81c2c92e, 0x92722c85,
    0xa2bfe8a1, 0xa81a664b, 0xc24b8b70, 0xc76c51a3, 0xd192e819, 0xd6990624, 0xf40e3585, 0x106aa070,
    0x19a4c116, 0x1e376c08, 0x2748774c, 0x34b0bcb5, 0x391c0cb3, 0x4ed8aa4a, 0x5b9cca4f, 0x682e6ff3,
    0x748f82ee, 0x78a5636f, 0x84c87814, 0x8cc70208, 0x90befffa, 0xa4506ceb, 0xbef9a3f7, 0xc67178f2]

/-- `chunks_exact`: the full chunks. -/
def chunksExact (n : ℕ) (bs : List UInt8) : List (List UInt8) :=
  (List.range (bs.length / n)).map fun i => (bs.drop (n * i)).take n

/-- `chunks_exact(n).remainder()` -/
def remainder (n : ℕ) (bs : List UInt8) : List UInt8 := bs.drop (n * (bs.length / n))

/-- `bs[start..start + src.len()].copy_from_slice(src)` -/
def copyFromSlice (bs : List UInt8) (start : ℕ) (src : List UInt8) : List UInt8 :=
  bs.take start ++ src ++ bs.drop (start + src.length)

/-- One pass of the loop over `words[16..64]` in `compress`. -/
def expandWord (words : List Word) (index : ℕ) : List Word :=
  let word i := words.getD (index - i) 0
  let s0 := (word 15).rotateRight 7 ^^^ (word 15).rotateRight 18 ^^^ word 15 >>> 3
  let s1 := (word 2).rotateRight 17 ^^^ (word 2).rotateRight 19 ^^^ word 2 >>> 10
  words.set index (word 16 + s0 + word 7 + s1)

/-- The loop over the words of the block in `compress`. -/
def loadWords (block : List UInt8) : List Word :=
  (chunksExact 4 block).zipIdx.foldl
    (fun words entry => words.set entry.2 (BitVec.ofNat 32 (ofBe entry.1)))
    (List.replicate 64 0)

/-- One pass of the loop over the rounds in `compress`. -/
def compressRound (words : List Word) (v : Words) (index : ℕ) : Words :=
  let sum1 := v.e.rotateRight 6 ^^^ v.e.rotateRight 11 ^^^ v.e.rotateRight 25
  let choice := (v.e &&& v.f) ^^^ (~~~v.e &&& v.g)
  let temporary1 := v.h + sum1 + choice + roundConstants.getD index 0 + words.getD index 0
  let sum0 := v.a.rotateRight 2 ^^^ v.a.rotateRight 13 ^^^ v.a.rotateRight 22
  let majority := (v.a &&& v.b) ^^^ (v.a &&& v.c) ^^^ (v.b &&& v.c)
  let temporary2 := sum0 + majority
  { h := v.g, g := v.f, f := v.e, e := v.d + temporary1, d := v.c, c := v.b, b := v.a,
    a := temporary1 + temporary2 }

def compress (state : Words) (block : List UInt8) : Words :=
  let words := (List.range' 16 48).foldl expandWord (loadWords block)
  let v := (List.range 64).foldl (compressRound words) state
  ⟨state.a + v.a, state.b + v.b, state.c + v.c, state.d + v.d, state.e + v.e, state.f + v.f,
    state.g + v.g, state.h + v.h⟩

/-- The last one or two blocks, as `digest_software` fills them. -/
def digestTail (input : List UInt8) : List UInt8 :=
  let remainder := remainder 64 input
  -- `u64::try_from` does not fail, as a length is a `usize`
  let bitLength := input.length * 8 % 2 ^ 64
  let tail := copyFromSlice (List.replicate 128 0) 0 remainder
  let tail := tail.set remainder.length 0x80
  let tailLength := if remainder.length < 56 then 64 else 128
  let tail := copyFromSlice tail (tailLength - 8) (be64 bitLength)
  tail.take tailLength

def digestSoftware (input : List UInt8) : List UInt8 :=
  let state := (chunksExact 64 input).foldl compress initialState
  let state := (chunksExact 64 (digestTail input)).foldl compress state
  [state.a, state.b, state.c, state.d, state.e, state.f, state.g, state.h].flatMap
    fun word => be32 word.toNat

/-! ## The constants -/

theorem initialState_eq : initialState = initial := by
  decide +kernel

theorem roundConstants_eq (t : ℕ) : roundConstants.getD t 0 = constant t := by
  have hconstants : roundConstants = primes.map (rootWord 3) := by
    rw [primes_eq]
    decide +kernel
  have hzero : rootWord 3 0 = 0 := by decide +kernel
  rw [hconstants, ← hzero, List.getD_map, constant]

theorem rotateRight_eq (x : Word) {n : ℕ} (h : n < 32) : x.rotateRight n = rotr n x := by
  rw [BitVec.rotateRight, Nat.mod_eq_of_lt h]
  rfl

/-! ## One block -/

theorem length_chunksExact (n : ℕ) (bs : List UInt8) :
    (chunksExact n bs).length = bs.length / n := by
  simp [chunksExact]

/-- The loop that sets `words[index]` for the entries of a list, in turn. -/
theorem getD_foldl_set {α : Type} (f : α → Word) (l : List α) (words : List Word) (k t : ℕ)
    (h : k + l.length ≤ words.length) :
    ((l.zipIdx k).foldl (fun words entry => words.set entry.2 (f entry.1)) words).getD t 0 =
      if k ≤ t then ((l[t - k]?).map f).getD (words.getD t 0) else words.getD t 0 := by
  induction l generalizing words k with
  | nil => simp
  | cons x l ih =>
    rw [List.length_cons] at h
    rw [List.zipIdx_cons, List.foldl_cons, ih _ _ (by rw [List.length_set]; omega)]
    rcases lt_trichotomy k t with hlt | rfl | hlt
    · rw [if_pos (by omega), if_pos (by omega), show t - k = (t - (k + 1)) + 1 by omega,
        List.getElem?_cons_succ, List.getD_eq_getElem?_getD,
        List.getElem?_set_ne (by omega), ← List.getD_eq_getElem?_getD]
    · have hk : k < words.length := by omega
      rw [if_neg (by omega), if_pos le_rfl, Nat.sub_self, List.getD_eq_getElem?_getD,
        List.getElem?_set_self hk]
      rfl
    · rw [if_neg (by omega), if_neg (by omega), List.getD_eq_getElem?_getD,
        List.getElem?_set_ne (by omega), ← List.getD_eq_getElem?_getD]

variable {block : List UInt8}

theorem loadWords_getD (h : block.length = 64) {t : ℕ} (ht : t < 16) :
    (loadWords block).getD t 0 = blockWord (bits block) t := by
  have hlen : (chunksExact 4 block).length = 16 := by rw [length_chunksExact, h]
  rw [loadWords, getD_foldl_set fun bytes => BitVec.ofNat 32 (ofBe bytes),
    if_pos (Nat.zero_le t), blockWord_bits]
  · simp [chunksExact, h, ht]
  · rw [hlen]
    simp

theorem length_loadWords (block : List UInt8) : (loadWords block).length = 64 := by
  rw [loadWords]
  generalize (chunksExact 4 block).zipIdx = l
  have : ∀ words : List Word, words.length = 64 →
      (l.foldl (fun words entry => words.set entry.2 (BitVec.ofNat 32 (ofBe entry.1)))
        words).length = 64 := by
    induction l with
    | nil => exact fun _ h => h
    | cons x l ih => exact fun words h => ih _ (by rw [List.length_set, h])
  exact this _ List.length_replicate

theorem schedule_of_le {bs : List Bool} {t : ℕ} (h : 16 ≤ t) :
    schedule bs t = sigma1 (schedule bs (t - 2)) + schedule bs (t - 7) +
      sigma0 (schedule bs (t - 15)) + schedule bs (t - 16) := by
  rw [schedule, if_neg (by omega)]

/-- After `n` passes the first `16 + n` words are those of the schedule. -/
theorem expandWord_spec (h : block.length = 64) (n : ℕ) (hn : n ≤ 48) :
    ((List.range' 16 n).foldl expandWord (loadWords block)).length = 64 ∧
    ∀ t < 16 + n, ((List.range' 16 n).foldl expandWord (loadWords block)).getD t 0 =
      schedule (bits block) t := by
  induction n with
  | zero =>
    refine ⟨length_loadWords block, fun t ht => ?_⟩
    rw [schedule, if_pos ht]
    exact loadWords_getD h ht
  | succ n ih =>
    obtain ⟨hlen, hword⟩ := ih (by omega)
    rw [List.range'_concat, List.foldl_append, Nat.one_mul, List.foldl_cons, List.foldl_nil]
    refine ⟨by rw [expandWord, List.length_set, hlen], fun t ht => ?_⟩
    rcases Nat.lt_succ_iff_lt_or_eq.1 (show t < (16 + n).succ from ht) with hlt | rfl
    · rw [expandWord, List.getD_eq_getElem?_getD, List.getElem?_set_ne (by omega),
        ← List.getD_eq_getElem?_getD, hword t hlt]
    · rw [expandWord, List.getD_eq_getElem?_getD, List.getElem?_set_self (by omega),
        Option.getD_some, schedule_of_le (show 16 ≤ 16 + n by omega), sigma0, sigma1]
      simp only [hword _ (show 16 + n - 16 < 16 + n by omega),
        hword _ (show 16 + n - 15 < 16 + n by omega), hword _ (show 16 + n - 7 < 16 + n by omega),
        hword _ (show 16 + n - 2 < 16 + n by omega), rotateRight_eq _ (show 7 < 32 by decide),
        rotateRight_eq _ (show 18 < 32 by decide),
        rotateRight_eq _ (show 17 < 32 by decide), rotateRight_eq _ (show 19 < 32 by decide), shr]
      ac_rfl

theorem compressRound_spec {words : List Word} {bs : List Bool} {t : ℕ}
    (hwords : words.getD t 0 = schedule bs t) (v : Words) :
    compressRound words v t = round (constant t) (schedule bs t) v := by
  rw [compressRound, hwords, roundConstants_eq]
  rfl

theorem rounds_spec {words : List Word} {bs : List Bool}
    (hwords : ∀ t < 64, words.getD t 0 = schedule bs t) (v : Words) {n : ℕ} (hn : n ≤ 64) :
    (List.range n).foldl (compressRound words) v = rounds bs v n := by
  induction n with
  | zero => rfl
  | succ n ih =>
    rw [List.range_succ, List.foldl_append, ih (by omega), List.foldl_cons, List.foldl_nil,
      compressRound_spec (hwords n hn), rounds]

/-- One block is compressed as the standard says. -/
theorem compress_spec (state : Words) (h : block.length = 64) :
    compress state block = compression state (bits block) := by
  rw [compress, compression, rounds_spec (expandWord_spec h 48 le_rfl).2 state le_rfl]
  simp only [BitVec.add_comm]

/-! ## All blocks -/

theorem length_of_mem_chunksExact {n : ℕ} {bs chunk : List UInt8} (h : chunk ∈ chunksExact n bs) :
    chunk.length = n := by
  obtain ⟨i, hi, rfl⟩ := List.mem_map.1 h
  have hle : n * (i + 1) ≤ bs.length :=
    (Nat.mul_le_mul_left n (List.mem_range.1 hi)).trans (Nat.mul_div_le _ _)
  rw [List.length_take, List.length_drop]
  rw [Nat.mul_succ] at hle
  omega

theorem blocks_bits (bs : List UInt8) : blocks (bits bs) = (chunksExact 64 bs).map bits := by
  rw [blocks, chunksExact, length_bits, List.map_map, show 512 = 8 * 64 from rfl,
    Nat.mul_div_mul_left _ _ (by decide)]
  refine List.map_congr_left fun i _ => ?_
  rw [Nat.mul_assoc, drop_bits, take_bits]
  rfl

theorem compress_foldl (state : Words) (bs : List UInt8) :
    (chunksExact 64 bs).foldl compress state = (blocks (bits bs)).foldl compression state := by
  rw [blocks_bits, List.foldl_map]
  exact List.foldl_ext _ _ _ fun state chunk hchunk =>
    compress_spec state (length_of_mem_chunksExact hchunk)

/-- Chunks of bytes behind full chunks. -/
theorem chunksExact_append {n k : ℕ} (hn : 0 < n) {bs : List UInt8} (h : bs.length = n * k)
    (cs : List UInt8) : chunksExact n (bs ++ cs) = chunksExact n bs ++ chunksExact n cs := by
  rw [chunksExact, List.length_append, h, Nat.mul_add_div hn, List.range_add, List.map_append,
    chunksExact, h, Nat.mul_div_cancel_left _ hn]
  congr 1
  · refine List.map_congr_left fun i hi => ?_
    have hi : n * (i + 1) ≤ n * k := Nat.mul_le_mul_left n (List.mem_range.1 hi)
    rw [Nat.mul_succ] at hi
    rw [List.drop_append_of_le_length (by omega), List.take_append_of_le_length
      (by rw [List.length_drop]; omega)]
  · rw [List.map_map, chunksExact]
    refine List.map_congr_left fun i _ => ?_
    rw [Function.comp_apply, Nat.mul_add, ← h, List.drop_length_add_append]

theorem chunksExact_take (n : ℕ) (bs : List UInt8) :
    chunksExact n (bs.take (n * (bs.length / n))) = chunksExact n bs := by
  have hlen : (bs.take (n * (bs.length / n))).length / n = bs.length / n := by
    rcases Nat.eq_zero_or_pos n with rfl | hn
    · simp
    · rw [List.length_take, Nat.min_eq_left (Nat.mul_div_le _ _), Nat.mul_div_cancel_left _ hn]
  rw [chunksExact, hlen, chunksExact]
  refine List.map_congr_left fun i hi => ?_
  have hi : n * (i + 1) ≤ n * (bs.length / n) := Nat.mul_le_mul_left n (List.mem_range.1 hi)
  rw [Nat.mul_succ] at hi
  rw [List.drop_take, List.take_take, Nat.min_eq_left (by omega)]

/-! ## The padding -/

theorem length_remainder {n : ℕ} (bs : List UInt8) : (remainder n bs).length = bs.length % n := by
  rw [remainder, List.length_drop, Nat.mod_eq_sub_mul_div]

/-- The tail is the remainder with the padding of the standard. -/
theorem digestTail_eq {input : List UInt8} (h : input.length < 2 ^ 61) :
    digestTail input = remainder 64 input ++ 0x80 ::
      (List.replicate ((119 - input.length % 64) % 64) 0 ++ be64 (8 * input.length)) := by
  have hlen := length_remainder (n := 64) input
  have hlt : input.length % 64 < 64 := Nat.mod_lt _ (by decide)
  generalize input.length % 64 = r at hlen hlt ⊢
  have hbit : input.length * 8 % 2 ^ 64 = 8 * input.length := by omega
  have hbe : (be64 (8 * input.length)).length = 8 := rfl
  -- the first two writes
  have hset : (copyFromSlice (List.replicate 128 0) 0 (remainder 64 input)).set r 0x80 =
      remainder 64 input ++ 0x80 :: List.replicate (127 - r) 0 := by
    rw [copyFromSlice, List.take_zero, List.nil_append, Nat.zero_add, List.drop_replicate, hlen,
      List.set_append_right _ _ (by omega), hlen, Nat.sub_self,
      show 128 - r = 127 - r + 1 by omega, List.replicate_succ,
      List.set_cons_zero]
  -- the length is written behind, and what is after it is cut off
  have hcut : ∀ k, r + 1 + k ≤ 120 →
      (copyFromSlice (remainder 64 input ++ 0x80 :: List.replicate (127 - r) 0) (r + 1 + k)
        (be64 (8 * input.length))).take (r + 1 + k + 8) =
        remainder 64 input ++ 0x80 :: (List.replicate k 0 ++ be64 (8 * input.length)) := by
    intro k hk
    have htake : (remainder 64 input ++ 0x80 :: List.replicate (127 - r) 0).take (r + 1 + k) =
        remainder 64 input ++ 0x80 :: List.replicate k 0 := by
      rw [show r + 1 + k = (remainder 64 input).length + (k + 1) by omega,
        List.take_length_add_append, List.take_succ_cons, List.take_replicate,
        Nat.min_eq_left (by omega)]
    rw [copyFromSlice, htake, List.take_left' (by simp [hlen, hbe]; omega)]
    simp
  unfold digestTail
  simp only [hlen, hset, hbit]
  split_ifs with hr
  · rw [show (119 - r) % 64 = 55 - r by omega, ← hcut (55 - r) (by omega),
      show r + 1 + (55 - r) = 64 - 8 by omega]
  · rw [show (119 - r) % 64 = 119 - r by omega, ← hcut (119 - r) (by omega),
      show r + 1 + (119 - r) = 128 - 8 by omega]

/-- The portable digest is that of the standard. -/
theorem digestSoftware_spec (input : List UInt8) (h : input.length < 2 ^ 61) :
    (digestSoftware input).length = 32 ∧ bits (digestSoftware input) = digest (bits input) := by
  have hmul : (input.take (64 * (input.length / 64))).length = 64 * (input.length / 64) := by
    rw [List.length_take, Nat.min_eq_left (Nat.mul_div_le _ _)]
  have hsplit : input.take (64 * (input.length / 64)) ++ remainder 64 input = input :=
    List.take_append_drop _ _
  -- the chunks of the input and of the tail are those of the padded input
  have hchunks : chunksExact 64 input ++ chunksExact 64 (digestTail input) =
      chunksExact 64 (input ++ 0x80 ::
        (List.replicate ((119 - input.length % 64) % 64) 0 ++ be64 (8 * input.length))) := by
    rw [← chunksExact_take, ← chunksExact_append (by decide) hmul, digestTail_eq h,
      ← List.append_assoc, hsplit]
  have hstate : (chunksExact 64 (digestTail input)).foldl compress
      ((chunksExact 64 input).foldl compress initialState) =
      (blocks (pad (bits input))).foldl compression initial := by
    rw [← List.foldl_append, hchunks, compress_foldl, pad_bits h, initialState_eq]
  have hword : ∀ word : Word, bits (be32 word.toNat) = bitsOf 32 word.toNat := fun word => by
    rw [be32_eq, bits_toBe word.isLt]
  unfold digestSoftware digest
  simp only [hstate, List.flatMap_cons, List.flatMap_nil, bits_append, hword]
  exact ⟨rfl, rfl⟩

/-- The digest of `abc`. -/
theorem digestSoftware_abc :
    digestSoftware (ascii "abc") =
      [0xba, 0x78, 0x16, 0xbf, 0x8f, 0x01, 0xcf, 0xea, 0x41, 0x41, 0x40, 0xde, 0x5d, 0xae, 0x22,
        0x23, 0xb0, 0x03, 0x61, 0xa3, 0x96, 0x17, 0x7a, 0x9c, 0xb4, 0x10, 0xff, 0x61, 0xf2, 0x00,
        0x15, 0xad] ∧
    bits (digestSoftware (ascii "abc")) = digest (bits (ascii "abc")) :=
  ⟨by decide +kernel, (digestSoftware_spec (ascii "abc") (by decide +kernel)).2⟩

end KFaceAuth
