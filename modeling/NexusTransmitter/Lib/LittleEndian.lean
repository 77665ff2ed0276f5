/-
Fixed-width little-endian numbers as byte lists.

`encode n v` is the low `n` bytes of `v`, least significant first, and
`decode` reads a byte list back as a number.  The two are inverse up to the
width (`decode_encode`, `encode_decode`), and `testBit_decode` reads the bits
of a decoded number off the bytes, least significant bit first (`bits`).
-/
import Mathlib.Data.Nat.Bitwise
import Mathlib.Tactic.Common
import Mathlib.Tactic.Ring

namespace LittleEndian

/-- The low `n` bytes of `v`, least significant first. -/
def encode : ℕ → ℕ → List (BitVec 8)
  | 0, _ => []
  | n + 1, v => BitVec.ofNat 8 v :: encode n (v / 256)

/-- The number whose little-endian bytes are given. -/
def decode : List (BitVec 8) → ℕ
  | [] => 0
  | b :: bs => b.toNat + 256 * decode bs

@[simp] theorem length_encode (n v : ℕ) : (encode n v).length = n := by
  induction n generalizing v with
  | zero => rfl
  | succ n ih => simp [encode, ih]

@[simp] theorem decode_nil : decode [] = 0 := rfl

theorem decode_lt (bs : List (BitVec 8)) : decode bs < 256 ^ bs.length := by
  induction bs with
  | nil => simp
  | cons b bs ih =>
    have hb : b.toNat < 256 := b.isLt
    rw [decode, List.length_cons, pow_succ]
    omega

theorem decode_encode (n v : ℕ) : decode (encode n v) = v % 256 ^ n := by
  induction n generalizing v with
  | zero => simp [encode, Nat.mod_one]
  | succ n ih =>
    have hpow : 256 ^ (n + 1) = 256 * 256 ^ n := by ring
    rw [encode, decode, ih, hpow, Nat.mod_mul]
    rfl

theorem decode_encode_of_lt {n v : ℕ} (h : v < 256 ^ n) : decode (encode n v) = v := by
  rw [decode_encode, Nat.mod_eq_of_lt h]

theorem encode_decode (bs : List (BitVec 8)) : encode bs.length (decode bs) = bs := by
  induction bs with
  | nil => rfl
  | cons b bs ih =>
    have hb : b.toNat < 256 := b.isLt
    have hdiv : (b.toNat + 256 * decode bs) / 256 = decode bs := by omega
    have hlow : BitVec.ofNat 8 (b.toNat + 256 * decode bs) = b := by
      apply BitVec.eq_of_toNat_eq
      rw [BitVec.toNat_ofNat]
      omega
    rw [List.length_cons, decode, encode, hdiv, ih, hlow]

/-! ### Bits -/

/-- The bits of a byte, least significant first. -/
def byteBits (b : BitVec 8) : List Bool := (List.range 8).map b.getLsbD

/-- The bits of a byte list, least significant first within each byte. -/
def bits (bs : List (BitVec 8)) : List Bool := bs.flatMap byteBits

@[simp] theorem length_byteBits (b : BitVec 8) : (byteBits b).length = 8 := by simp [byteBits]

@[simp] theorem bits_nil : bits [] = [] := rfl

@[simp] theorem bits_cons (b : BitVec 8) (bs : List (BitVec 8)) :
    bits (b :: bs) = byteBits b ++ bits bs := rfl

@[simp] theorem bits_append (xs ys : List (BitVec 8)) : bits (xs ++ ys) = bits xs ++ bits ys :=
  List.flatMap_append

@[simp] theorem length_bits (bs : List (BitVec 8)) : (bits bs).length = 8 * bs.length := by
  induction bs with
  | nil => rfl
  | cons b bs ih => rw [bits_cons, List.length_append, length_byteBits, ih, List.length_cons]; ring

theorem bits_zeros (n : ℕ) : bits (List.replicate n 0#8) = List.replicate (8 * n) false := by
  induction n with
  | zero => rfl
  | succ n ih =>
    rw [List.replicate_succ, bits_cons, ih]
    show List.replicate 8 false ++ List.replicate (8 * n) false = _
    rw [List.replicate_append_replicate, Nat.mul_succ, Nat.add_comm]

theorem byteBits_getElem? (b : BitVec 8) (i : ℕ) :
    (byteBits b)[i]?.getD false = b.getLsbD i := by
  by_cases hi : i < 8
  · simp [byteBits, hi]
  · rw [List.getElem?_eq_none (by simpa using hi), BitVec.getLsbD_of_ge b i (by omega)]
    rfl

/-- The bits of the decoded number are the bits of the bytes. -/
theorem testBit_decode (bs : List (BitVec 8)) (i : ℕ) :
    (decode bs).testBit i = (bits bs)[i]?.getD false := by
  induction bs generalizing i with
  | nil => simp
  | cons b bs ih =>
    have hnum : decode (b :: bs) = 2 ^ 8 * decode bs + b.toNat := by rw [decode]; ring
    rw [hnum, Nat.testBit_two_pow_mul_add _ b.isLt, bits_cons]
    by_cases hi : i < 8
    · rw [if_pos hi, List.getElem?_append_left (by simpa using hi), byteBits_getElem?]
      rfl
    · rw [if_neg hi, List.getElem?_append_right (by simpa using hi), length_byteBits, ih]

/-- A byte list with a non-zero byte has a set bit. -/
theorem true_mem_bits {bs : List (BitVec 8)} (h : ∃ b ∈ bs, b ≠ 0#8) : true ∈ bits bs := by
  obtain ⟨b, hmem, hb⟩ := h
  by_contra hno
  apply hb
  apply BitVec.eq_of_getLsbD_eq
  intro i hi
  have hbit : b.getLsbD i ∈ bits bs := by
    rw [bits, List.mem_flatMap]
    exact ⟨b, hmem, List.mem_map.mpr ⟨i, List.mem_range.mpr hi, rfl⟩⟩
  cases hv : b.getLsbD i with
  | false => simp
  | true => exact absurd (hv ▸ hbit) hno

/-- Exclusive or of byte lists is exclusive or of their bits. -/
theorem bits_zipWith_xor (xs ys : List (BitVec 8)) :
    bits (List.zipWith (· ^^^ ·) xs ys) = List.zipWith xor (bits xs) (bits ys) := by
  induction xs generalizing ys with
  | nil => simp
  | cons x xs ih =>
    cases ys with
    | nil => simp
    | cons y ys =>
      rw [List.zipWith_cons_cons, bits_cons, bits_cons, bits_cons,
        List.zipWith_append (by simp), ih]
      congr 1
      simp [byteBits, List.range_succ]

end LittleEndian
