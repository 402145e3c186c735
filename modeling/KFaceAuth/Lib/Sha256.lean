import KFaceAuth.Lib.Bytes
import Mathlib.Data.Nat.Find
import Mathlib.Data.Nat.NthRoot.Defs
import Mathlib.Tactic.Common
import Mathlib.Tactic.Ring

/-!
# SHA-256

The secure hash standard (FIPS 180-4), in its own terms: a message is a string
of bits, padded to blocks of 512 bits, and the hash value is computed from one
block after the other. The constants are what the standard says they are, the
fractional parts of roots of the first primes.

* `value_bits`, `bits_toBe`: what the bits of bytes stand for;
* `pad_bits`: the padding of a message of bytes, in bytes.
-/

namespace KFaceAuth

namespace Sha256

/-! ## Bit strings -/

/-- The number that a bit string stands for, the most significant bit first. -/
def value (bits : List Bool) : ℕ := bits.foldl (fun n b => 2 * n + b.toNat) 0

/-- The last `w` bits of a number. -/
def bitsOf (w n : ℕ) : List Bool := (List.range w).map fun i => n.testBit (w - 1 - i)

/-- The bits of bytes. -/
def bits (bs : List UInt8) : List Bool := bs.flatMap fun b => bitsOf 8 b.toNat

/-! ## Functions and constants (4.1.2, 4.2.2, 5.3.3) -/

abbrev Word := BitVec 32

def rotr (n : ℕ) (x : Word) : Word := x >>> n ||| x <<< (32 - n)

def shr (n : ℕ) (x : Word) : Word := x >>> n

def ch (x y z : Word) : Word := (x &&& y) ^^^ (~~~x &&& z)

def maj (x y z : Word) : Word := (x &&& y) ^^^ (x &&& z) ^^^ (y &&& z)

def bigSigma0 (x : Word) : Word := rotr 2 x ^^^ rotr 13 x ^^^ rotr 22 x

def bigSigma1 (x : Word) : Word := rotr 6 x ^^^ rotr 11 x ^^^ rotr 25 x

def sigma0 (x : Word) : Word := rotr 7 x ^^^ rotr 18 x ^^^ shr 3 x

def sigma1 (x : Word) : Word := rotr 17 x ^^^ rotr 19 x ^^^ shr 10 x

/-- The primes below 312, which are the first sixty-four. -/
def primes : List ℕ := (List.range 312).filter fun n => 2 ≤ n ∧ ∀ m < n, 2 ≤ m → ¬ m ∣ n

/-- It is enough to try the divisors below 18, whose square is beyond the list. -/
theorem primes_eq : primes =
    (List.range 312).filter fun n => 2 ≤ n ∧ ∀ m < 18, 2 ≤ m → m < n → ¬ m ∣ n := by
  refine List.filter_congr fun n hn => ?_
  rw [decide_eq_decide, and_congr_right_iff]
  refine fun _ => ⟨fun h m _ htwo hlt => h m hlt htwo, fun h m hlt htwo hdvd => ?_⟩
  obtain ⟨k, rfl⟩ := hdvd
  rw [List.mem_range] at hn
  rcases Nat.lt_or_ge m 18 with hsmall | hlarge
  · exact h m hsmall htwo hlt (Nat.dvd_mul_right m k)
  · -- the cofactor is the small one
    have hk : k < 18 := by
      by_contra hk
      have := Nat.mul_le_mul hlarge (Nat.not_lt.1 hk)
      omega
    have hone : 2 ≤ k := by
      rcases k with _ | _ | k <;> omega
    exact h k hk hone ((Nat.lt_mul_iff_one_lt_left (by omega)).2 htwo) (Nat.dvd_mul_left k m)

/-- The first thirty-two bits of the fractional part of the `k`th root. -/
def rootWord (k p : ℕ) : Word := BitVec.ofNat 32 (Nat.nthRoot k (p * 2 ^ (32 * k)))

/-- The constant of a round, from the cube root of a prime. -/
def constant (t : ℕ) : Word := rootWord 3 (primes.getD t 0)

/-- Eight words: a hash value, or the working variables. -/
structure Words where
  a : Word
  b : Word
  c : Word
  d : Word
  e : Word
  f : Word
  g : Word
  h : Word
  deriving DecidableEq

/-- The initial hash value, from the square roots of the first eight primes. -/
def initial : Words :=
  let word i := rootWord 2 (primes.getD i 0)
  ⟨word 0, word 1, word 2, word 3, word 4, word 5, word 6, word 7⟩

/-! ## Padding (5.1.1) -/

theorem exists_zeros (l : ℕ) : ∃ k, (l + 1 + k) % 512 = 448 :=
  ⟨(959 - l % 512) % 512, by omega⟩

/-- The number of zero bits: the smallest solution of `l + 1 + k ≡ 448 mod 512`. -/
def zeros (l : ℕ) : ℕ := Nat.find (exists_zeros l)

def pad (message : List Bool) : List Bool :=
  message ++ true :: (List.replicate (zeros message.length) false ++ bitsOf 64 message.length)

/-! ## Hash computation (6.2.2) -/

/-- A word of a block. -/
def blockWord (block : List Bool) (t : ℕ) : Word :=
  BitVec.ofNat 32 (value ((block.drop (32 * t)).take 32))

/-- The message schedule. -/
def schedule (block : List Bool) (t : ℕ) : Word :=
  if t < 16 then blockWord block t
  else sigma1 (schedule block (t - 2)) + schedule block (t - 7) + sigma0 (schedule block (t - 15)) +
    schedule block (t - 16)

def round (k w : Word) (v : Words) : Words :=
  let t₁ := v.h + bigSigma1 v.e + ch v.e v.f v.g + k + w
  let t₂ := bigSigma0 v.a + maj v.a v.b v.c
  ⟨t₁ + t₂, v.a, v.b, v.c, v.d + t₁, v.e, v.f, v.g⟩

/-- The working variables after `t` rounds. -/
def rounds (block : List Bool) (v : Words) : ℕ → Words
  | 0 => v
  | t + 1 => round (constant t) (schedule block t) (rounds block v t)

def compression (hash : Words) (block : List Bool) : Words :=
  let v := rounds block hash 64
  ⟨v.a + hash.a, v.b + hash.b, v.c + hash.c, v.d + hash.d, v.e + hash.e, v.f + hash.f,
    v.g + hash.g, v.h + hash.h⟩

/-- The blocks of a padded message. -/
def blocks (message : List Bool) : List (List Bool) :=
  (List.range (message.length / 512)).map fun i => (message.drop (512 * i)).take 512

/-- The message digest. -/
def digest (message : List Bool) : List Bool :=
  let value := (blocks (pad message)).foldl compression initial
  [value.a, value.b, value.c, value.d, value.e, value.f, value.g, value.h].flatMap
    fun word => bitsOf 32 word.toNat

/-! ## The bits of bytes -/

theorem value_concat (l : List Bool) (b : Bool) : value (l ++ [b]) = 2 * value l + b.toNat := by
  rw [value, List.foldl_append]
  rfl

theorem value_append (l l' : List Bool) :
    value (l ++ l') = value l * 2 ^ l'.length + value l' := by
  induction l' using List.reverseRecOn with
  | nil => simp [value]
  | append_singleton l' b ih =>
    rw [← List.append_assoc, value_concat, ih, value_concat, List.length_append,
      List.length_singleton]
    ring

@[simp] theorem length_bitsOf (w n : ℕ) : (bitsOf w n).length = w := by
  simp [bitsOf]

@[simp] theorem length_bits (bs : List UInt8) : (bits bs).length = 8 * bs.length := by
  induction bs with
  | nil => rfl
  | cons b bs ih =>
    rw [bits, List.flatMap_cons, List.length_append, ← bits, ih, length_bitsOf, List.length_cons]
    ring

theorem bits_append (bs cs : List UInt8) : bits (bs ++ cs) = bits bs ++ bits cs := by
  simp [bits]

/-- A bit string is told by its length and its value. -/
theorem value_inj {l l' : List Bool} (hlen : l.length = l'.length) (h : value l = value l') :
    l = l' := by
  induction l using List.reverseRecOn generalizing l' with
  | nil => exact (List.length_eq_zero_iff.1 hlen.symm).symm
  | append_singleton l b ih =>
    rcases List.eq_nil_or_concat l' with rfl | ⟨l', b', rfl⟩
    · simp at hlen
    · rw [List.concat_eq_append] at hlen h ⊢
      rw [value_concat, value_concat] at h
      have hlast : b.toNat = b'.toNat := by
        have := Bool.toNat_lt b
        have := Bool.toNat_lt b'
        omega
      obtain rfl : b = b' := by
        cases b <;> cases b' <;> first | rfl | cases hlast
      rw [ih (by simpa using hlen) (by omega)]

theorem bitsOf_succ (w n : ℕ) : bitsOf (w + 1) n = bitsOf w (n / 2) ++ [n.testBit 0] := by
  rw [bitsOf, List.range_succ, List.map_append, bitsOf]
  congr 1
  · refine List.map_congr_left fun i hi => ?_
    rw [Nat.testBit_div_two]
    congr 1
    have := List.mem_range.1 hi
    omega
  · simp

theorem value_bitsOf {w n : ℕ} (h : n < 2 ^ w) : value (bitsOf w n) = n := by
  induction w generalizing n with
  | zero =>
    obtain rfl : n = 0 := by simpa using h
    rfl
  | succ w ih =>
    have hbit : (n.testBit 0).toNat = n % 2 := by
      rw [Nat.testBit_zero]
      rcases Nat.mod_two_eq_zero_or_one n with h | h <;> simp [h]
    rw [bitsOf_succ, value_concat, ih (by rw [pow_succ] at h; omega), hbit]
    omega

theorem value_bits (bs : List UInt8) : value (bits bs) = ofBe bs := by
  induction bs using List.reverseRecOn with
  | nil => rfl
  | append_singleton bs b ih =>
    have hb : value (bits [b]) = b.toNat := by
      rw [bits, List.flatMap_singleton]
      exact value_bitsOf b.toNat_lt
    rw [bits_append, value_append, ih, hb, ofBe_concat, length_bits, List.length_singleton]
    ring

/-- The bits of the big-endian bytes of a number are its bits. -/
theorem bits_toBe {k n : ℕ} (h : n < 256 ^ k) : bits (toBe k n) = bitsOf (8 * k) n := by
  have hpow : n < 2 ^ (8 * k) := by rwa [pow_mul]
  refine value_inj (by simp) ?_
  rw [value_bits, ofBe_toBe h, value_bitsOf hpow]

theorem drop_bits (bs : List UInt8) (k : ℕ) : (bits bs).drop (8 * k) = bits (bs.drop k) := by
  induction k generalizing bs with
  | zero => rfl
  | succ k ih =>
    cases bs with
    | nil => simp [bits]
    | cons b bs =>
      rw [List.drop_succ_cons, ← ih, ← List.singleton_append, bits_append, Nat.mul_succ,
        Nat.add_comm, ← List.drop_drop, List.drop_left' (by simp)]

theorem take_bits (bs : List UInt8) (k : ℕ) : (bits bs).take (8 * k) = bits (bs.take k) := by
  have hsplit : bits bs = bits (bs.take k) ++ bits (bs.drop k) := by
    rw [← bits_append, List.take_append_drop]
  rcases le_or_gt k bs.length with hk | hk
  · rw [hsplit, List.take_left' (by simp [hk])]
  · rw [List.take_of_length_le (Nat.le_of_lt hk), List.take_of_length_le (by simp; omega)]

/-! ## Messages of bytes -/

/-- The zero bytes of the padding of a message of `n` bytes. -/
theorem zeros_eq (n : ℕ) : zeros (8 * n) = 8 * ((119 - n % 64) % 64) + 7 := by
  refine (Nat.find_eq_iff _).2 ⟨by omega, fun k hk => by omega⟩

theorem bits_zeros (k : ℕ) : bits (List.replicate k 0) = List.replicate (8 * k) false := by
  induction k with
  | zero => rfl
  | succ k ih =>
    have hzero : bits [0] = List.replicate 8 false := by decide
    rw [List.replicate_succ', bits_append, ih, hzero, List.replicate_append_replicate, Nat.mul_succ]

/-- The padding of a message of bytes: one byte, zero bytes, and the length. -/
theorem pad_bits {bs : List UInt8} (h : bs.length < 2 ^ 61) :
    pad (bits bs) = bits (bs ++ 0x80 :: (List.replicate ((119 - bs.length % 64) % 64) 0 ++
      be64 (8 * bs.length))) := by
  have hone : bits [0x80] = true :: List.replicate 7 false := by decide
  rw [← List.singleton_append, bits_append, bits_append, bits_append, bits_zeros, hone, be64_eq,
    bits_toBe (by omega), pad, length_bits, zeros_eq, Nat.add_comm _ 7,
    ← List.replicate_append_replicate]
  simp

theorem blockWord_bits (block : List UInt8) (t : ℕ) :
    blockWord (bits block) t = BitVec.ofNat 32 (ofBe ((block.drop (4 * t)).take 4)) := by
  have hword : ((bits block).drop (32 * t)).take 32 = bits ((block.drop (4 * t)).take 4) := by
    rw [show 32 * t = 8 * (4 * t) by ring, drop_bits]
    exact take_bits _ 4
  rw [blockWord, hword, value_bits]

end Sha256

end KFaceAuth
