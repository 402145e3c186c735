import Mathlib.Algebra.Group.Nat.Defs
import Mathlib.Data.List.GetD
import Mathlib.Data.List.Induction
import Mathlib.Tactic.Common

/-!
# Bytes

Texts and numbers as bytes, as the files and the messages of the program have
them.

* `ofBe_toBe`, `toBe_ofBe`: big-endian bytes of a fixed width are the numbers
  below a power of 256.
-/

namespace KFaceAuth

/-- The bytes of an ASCII text. -/
def ascii (s : String) : List UInt8 := s.toList.map fun c => c.val.toUInt8

instance lawfulBEqBytes : LawfulBEq (List UInt8) := List.instLawfulBEq

/-- `from_be_bytes`, at any width. -/
def ofBe (bs : List UInt8) : ℕ := bs.foldl (fun n b => 256 * n + b.toNat) 0

/-- `u16::to_be_bytes`. -/
def be16 (n : ℕ) : List UInt8 := [(n / 2 ^ 8).toUInt8, n.toUInt8]

/-- `u32::to_be_bytes`. -/
def be32 (n : ℕ) : List UInt8 :=
  [(n / 2 ^ 24).toUInt8, (n / 2 ^ 16).toUInt8, (n / 2 ^ 8).toUInt8, n.toUInt8]

/-- `u64::to_be_bytes`. -/
def be64 (n : ℕ) : List UInt8 := be32 (n / 2 ^ 32) ++ be32 n

/-- A payload behind its length. -/
def framed (payload : List UInt8) : List UInt8 := be32 payload.length ++ payload

/-! ## Numbers of any width -/

/-- The `k` big-endian bytes of a number. -/
def toBe : ℕ → ℕ → List UInt8
  | 0, _ => []
  | k + 1, n => toBe k (n / 256) ++ [n.toUInt8]

@[simp] theorem length_toBe (k n : ℕ) : (toBe k n).length = k := by
  induction k generalizing n with
  | zero => rfl
  | succ k ih => rw [toBe, List.length_append, ih, List.length_singleton]

theorem ofBe_concat (bs : List UInt8) (b : UInt8) :
    ofBe (bs ++ [b]) = 256 * ofBe bs + b.toNat := by
  rw [ofBe, List.foldl_append]
  rfl

/-- The bytes of a number that fits have its value. -/
theorem ofBe_toBe {k n : ℕ} (h : n < 256 ^ k) : ofBe (toBe k n) = n := by
  induction k generalizing n with
  | zero =>
    have : n = 0 := by simpa using h
    rw [this]
    rfl
  | succ k ih =>
    have hn : n / 256 < 256 ^ k := Nat.div_lt_of_lt_mul (by rwa [Nat.pow_succ, Nat.mul_comm] at h)
    have hb : (n.toUInt8).toNat = n % 256 := rfl
    rw [toBe, ofBe_concat, ih hn, hb]
    exact Nat.div_add_mod n 256

/-- Bytes are those of their value. -/
theorem toBe_ofBe (bs : List UInt8) : toBe bs.length (ofBe bs) = bs := by
  induction bs using List.reverseRecOn with
  | nil => rfl
  | append_singleton bs b ih =>
    have hb : b.toNat < 256 := b.toNat_lt
    have hdiv : (256 * ofBe bs + b.toNat) / 256 = ofBe bs := by omega
    have hmod : (256 * ofBe bs + b.toNat) % 256 = b.toNat := by omega
    have hlast : (256 * ofBe bs + b.toNat).toUInt8 = b := by
      apply UInt8.toNat_inj.mp
      exact hmod
    rw [List.length_append, List.length_singleton, ofBe_concat, toBe, hdiv, ih, hlast]

theorem toBe_eq_of_ofBe {k n : ℕ} {bs : List UInt8} (hk : bs.length = k) (h : ofBe bs = n) :
    bs = toBe k n := by
  rw [← hk, ← h, toBe_ofBe]

theorem ofBe_lt (bs : List UInt8) : ofBe bs < 256 ^ bs.length := by
  induction bs using List.reverseRecOn with
  | nil => exact Nat.one_pos
  | append_singleton bs b ih =>
    have hb : b.toNat < 256 := b.toNat_lt
    rw [ofBe_concat, List.length_append, List.length_singleton, Nat.pow_succ]
    omega

theorem be16_eq (n : ℕ) : be16 n = toBe 2 n := rfl

theorem be32_eq (n : ℕ) : be32 n = toBe 4 n := by
  simp only [toBe, Nat.div_div_eq_div_mul, List.nil_append, List.cons_append]
  rfl

theorem be64_eq (n : ℕ) : be64 n = toBe 8 n := by
  have hdiv : n / 2 ^ 32 = n / 256 / 256 / 256 / 256 := by omega
  rw [be64, hdiv, be32_eq, be32_eq]
  simp only [toBe, List.nil_append, List.cons_append]

@[simp] theorem length_be16 (n : ℕ) : (be16 n).length = 2 := rfl
@[simp] theorem length_be32 (n : ℕ) : (be32 n).length = 4 := rfl
@[simp] theorem length_be64 (n : ℕ) : (be64 n).length = 8 := rfl

theorem ofBe_be16 {n : ℕ} (h : n < 2 ^ 16) : ofBe (be16 n) = n := by
  rw [be16_eq, ofBe_toBe h]

theorem ofBe_be32 {n : ℕ} (h : n < 2 ^ 32) : ofBe (be32 n) = n := by
  rw [be32_eq, ofBe_toBe h]

theorem ofBe_be64 {n : ℕ} (h : n < 2 ^ 64) : ofBe (be64 n) = n := by
  rw [be64_eq, ofBe_toBe h]

/-! ## Fields at offsets -/

/-- The field at an offset and what follows it. -/
theorem drop_eq_field_append {bs rest : List UInt8} {i n : ℕ} (h : bs.drop (i + n) = rest) :
    bs.drop i = (bs.drop i).take n ++ rest := by
  rw [← h, ← List.drop_drop, List.take_append_drop]

/-- The field that stands behind `i` bytes. -/
theorem field_of_eq_append {bs a b c : List UInt8} {i n : ℕ} (h : bs = a ++ (b ++ c))
    (hi : a.length = i) (hn : b.length = n) : (bs.drop i).take n = b := by
  rw [h, ← hi, List.drop_left, ← hn, List.take_left]

theorem length_field {bs : List UInt8} {i n : ℕ} (h : i + n ≤ bs.length) :
    ((bs.drop i).take n).length = n := by
  rw [List.length_take, List.length_drop]
  omega

/-- A field of one byte. -/
theorem field_one {bs : List UInt8} {i : ℕ} (h : i < bs.length) :
    (bs.drop i).take 1 = [bs.getD i 0] := by
  rw [List.drop_eq_getElem_cons h, List.getD_eq_getElem bs 0 h]
  rfl

theorem getD_of_eq_append {bs a c : List UInt8} {b : UInt8} {i : ℕ} (h : bs = a ++ (b :: c))
    (hi : a.length = i) : bs.getD i 0 = b := by
  rw [h, ← hi, List.getD_append_right _ _ _ _ (Nat.le_refl _), Nat.sub_self]
  rfl

/-! ## Texts -/

/-- The UTF-8 bytes of a text. -/
def utf8 (s : String) : List UInt8 := s.toByteArray.data.toList

/-- `str::from_utf8` accepts the bytes of a text and no others. -/
theorem fromUTF8_iff {bs : List UInt8} {s : String} :
    String.fromUTF8? ⟨bs.toArray⟩ = some s ↔ bs = utf8 s := by
  unfold String.fromUTF8? utf8
  constructor
  · intro h
    split at h
    · cases h
      rfl
    · cases h
  · rintro rfl
    rw [dif_pos s.isValidUTF8]
    rfl

/-! ## Readers that may fail -/

theorem bind_eq_ok {ε α β : Type} {x : Except ε α} {f : α → Except ε β} {b : β} :
    (x >>= f) = .ok b ↔ ∃ a, x = .ok a ∧ f a = .ok b := by
  cases x <;> simp [bind, Except.bind]

/-- A check that is passed. -/
theorem check_eq_ok {ε α : Type} {p : Prop} [Decidable p] {e : ε} {x : Except ε α} {a : α} :
    (if p then .error e else x) = .ok a ↔ ¬ p ∧ x = .ok a := by
  by_cases h : p <;> simp [h]

end KFaceAuth
