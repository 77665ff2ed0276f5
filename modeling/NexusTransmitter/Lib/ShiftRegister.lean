/-
Linear feedback shift registers, fed one bit at a time.

`shift poly` is one step of a right-shifting register with feedback word `poly`
(the reflected form of a cyclic redundancy check); `feedBits` feeds a list of
bits, least significant first.  The results are

* `feedBits_xor` — feeding is linear over exclusive or;
* `shift_injective` — the step is invertible when `poly` has its top bit set;
* `shift_iterate_split` — eight steps split into the low byte and the rest,
  which is what a byte-indexed table uses;
* `feedBits_ne_zero_of_burst` — a non-zero pattern confined to a window no
  longer than the register leaves a non-zero register.
-/
import Mathlib.Algebra.Group.Nat.Defs
import Mathlib.Data.List.Basic
import Mathlib.Logic.Function.Iterate
import Mathlib.Tactic.Common

namespace ShiftRegister

variable {w : ℕ}

/-! ### One step -/

/-- One step of the register: shift right, and add the feedback word when the
bit shifted out is set. -/
def shift (poly c : BitVec w) : BitVec w :=
  if c.getLsbD 0 then poly ^^^ (c >>> 1) else c >>> 1

@[simp] theorem shift_zero (poly : BitVec w) : shift poly 0#w = 0#w := by
  simp [shift]

theorem shift_xor (poly a b : BitVec w) :
    shift poly (a ^^^ b) = shift poly a ^^^ shift poly b := by
  unfold shift
  rw [BitVec.getLsbD_xor, BitVec.ushiftRight_xor_distrib]
  apply BitVec.eq_of_getLsbD_eq
  intro i _
  cases a.getLsbD 0 <;> cases b.getLsbD 0 <;>
    simp only [Bool.xor_false, Bool.xor_true, Bool.not_false, Bool.not_true, if_true,
      Bool.false_eq_true, if_false, BitVec.getLsbD_xor] <;>
    cases poly.getLsbD i <;> cases (a >>> 1).getLsbD i <;> cases (b >>> 1).getLsbD i <;> rfl

/-- The bit shifted out can be read off the top of the result, so nothing is
lost. -/
theorem shift_injective {poly : BitVec w} (hpoly : poly.msb = true) :
    Function.Injective (shift poly) := by
  intro a b h
  -- the shift clears the top bit, so the result has it exactly when `poly` was added
  have htop : ∀ c : BitVec w, (c >>> 1).msb = false := by
    intro c
    rw [BitVec.msb_eq_getLsbD_last, BitVec.getLsbD_ushiftRight]
    exact BitVec.getLsbD_of_ge c _ (by omega)
  have hbit : ∀ c : BitVec w, (shift poly c).msb = c.getLsbD 0 := by
    intro c
    unfold shift
    cases hc : c.getLsbD 0
    · simp only [Bool.false_eq_true, if_false, htop]
    · simp only [if_true, BitVec.msb_xor, hpoly, htop, Bool.xor_false]
  have hlow : a.getLsbD 0 = b.getLsbD 0 := by rw [← hbit a, ← hbit b, h]
  -- the same choice in both, so what was shifted down is the same too
  have hhigh : a >>> 1 = b >>> 1 := by
    unfold shift at h
    rw [hlow] at h
    cases hb : b.getLsbD 0
    · simpa [hb] using h
    · simpa [hb] using h
  apply BitVec.eq_of_getLsbD_eq
  intro i _
  rcases i with _ | i
  · exact hlow
  · have := congrArg (fun c => BitVec.getLsbD c i) hhigh
    simpa [BitVec.getLsbD_ushiftRight, Nat.add_comm] using this

theorem shift_iterate_xor (poly : BitVec w) (n : ℕ) (a b : BitVec w) :
    (shift poly)^[n] (a ^^^ b) = (shift poly)^[n] a ^^^ (shift poly)^[n] b := by
  induction n generalizing a b with
  | zero => rfl
  | succ n ih => rw [Function.iterate_succ_apply, shift_xor, ih]; rfl

@[simp] theorem shift_iterate_zero (poly : BitVec w) (n : ℕ) :
    (shift poly)^[n] 0#w = 0#w :=
  Function.iterate_fixed (shift_zero poly) n

theorem shift_iterate_eq_zero {poly : BitVec w} (hpoly : poly.msb = true) (n : ℕ)
    {c : BitVec w} : (shift poly)^[n] c = 0#w ↔ c = 0#w := by
  constructor
  · intro h
    refine (shift_injective hpoly).iterate n ?_
    rw [h, shift_iterate_zero]
  · rintro rfl
    exact shift_iterate_zero poly n

/-! ### Eight steps at once -/

/-- A register whose low `n` bits are clear only moves down through `n`
steps. -/
theorem shift_iterate_of_low_clear (poly : BitVec w) :
    ∀ (n : ℕ) (c : BitVec w), (∀ i < n, c.getLsbD i = false) →
      (shift poly)^[n] c = c >>> n
  | 0, c, _ => by simp
  | n + 1, c, h => by
    have hstep : shift poly c = c >>> 1 := by simp [shift, h 0 (Nat.succ_pos n)]
    rw [Function.iterate_succ_apply, hstep, shift_iterate_of_low_clear poly n (c >>> 1) ?_,
      ← BitVec.shiftRight_add, Nat.add_comm]
    intro i hi
    rw [BitVec.getLsbD_ushiftRight]
    exact h (1 + i) (by omega)

theorem getLsbD_lowMask (n i : ℕ) :
    (BitVec.ofNat w (2 ^ n - 1)).getLsbD i = (decide (i < w) && decide (i < n)) := by
  rw [BitVec.getLsbD_ofNat, Nat.testBit_two_pow_sub_one]

/-- `n` steps of a register: those of its low `n` bits, and the rest of it
moved down `n` places. -/
theorem shift_iterate_split (poly : BitVec w) (n : ℕ) (c : BitVec w) :
    (shift poly)^[n] c =
      (shift poly)^[n] (c &&& BitVec.ofNat w (2 ^ n - 1)) ^^^ (c >>> n) := by
  set mask := BitVec.ofNat w (2 ^ n - 1) with hmask
  have hsplit : c = (c &&& mask) ^^^ (c &&& ~~~mask) := by
    apply BitVec.eq_of_getLsbD_eq
    intro i hi
    simp only [BitVec.getLsbD_xor, BitVec.getLsbD_and, BitVec.getLsbD_not, hi, decide_true,
      Bool.true_and]
    cases c.getLsbD i <;> cases mask.getLsbD i <;> rfl
  have hclear : ∀ i < n, (c &&& ~~~mask).getLsbD i = false := by
    intro i hi
    simp only [BitVec.getLsbD_and, BitVec.getLsbD_not, hmask, getLsbD_lowMask]
    by_cases hw : i < w <;> simp [hw, hi]
  have hhigh : (c &&& ~~~mask) >>> n = c >>> n := by
    apply BitVec.eq_of_getLsbD_eq
    intro i _
    simp only [BitVec.getLsbD_ushiftRight, BitVec.getLsbD_and, BitVec.getLsbD_not, hmask,
      getLsbD_lowMask]
    by_cases hw : n + i < w
    · simp [hw]
    · simp [BitVec.getLsbD_of_ge c (n + i) (by omega)]
  conv_lhs => rw [hsplit]
  rw [shift_iterate_xor, shift_iterate_of_low_clear poly n _ hclear, hhigh]

/-! ### Feeding bits -/

/-- The register word whose only bit, the lowest, is `b`. -/
def bitWord (w : ℕ) (b : Bool) : BitVec w := (BitVec.ofBool b).setWidth w

@[simp] theorem getLsbD_bitWord (b : Bool) (i : ℕ) :
    (bitWord w b).getLsbD i = (decide (i < w) && (decide (i = 0) && b)) := by
  rw [bitWord, BitVec.getLsbD_setWidth, BitVec.getLsbD_ofBool]

@[simp] theorem bitWord_false : bitWord w false = 0#w := by
  apply BitVec.eq_of_getLsbD_eq
  intro i _
  simp

theorem bitWord_xor (a b : Bool) : bitWord w (a ^^ b) = bitWord w a ^^^ bitWord w b := by
  apply BitVec.eq_of_getLsbD_eq
  intro i hi
  simp only [BitVec.getLsbD_xor, getLsbD_bitWord, hi, decide_true, Bool.true_and]
  by_cases h0 : i = 0 <;> simp [h0]

/-- Feed one bit: add it to the bit about to be shifted out, then step. -/
def feedBit (poly c : BitVec w) (b : Bool) : BitVec w := shift poly (c ^^^ bitWord w b)

/-- Feed bits in order. -/
def feedBits (poly c : BitVec w) (bits : List Bool) : BitVec w := bits.foldl (feedBit poly) c

@[simp] theorem feedBits_nil (poly c : BitVec w) : feedBits poly c [] = c := rfl

@[simp] theorem feedBits_cons (poly c : BitVec w) (b : Bool) (bits : List Bool) :
    feedBits poly c (b :: bits) = feedBits poly (feedBit poly c b) bits := rfl

theorem feedBits_append (poly c : BitVec w) (x y : List Bool) :
    feedBits poly c (x ++ y) = feedBits poly (feedBits poly c x) y :=
  List.foldl_append

/-- Feeding is linear: registers and bit lists may be added separately. -/
theorem feedBits_xor (poly : BitVec w) :
    ∀ (x y : List Bool) (a b : BitVec w), x.length = y.length →
      feedBits poly (a ^^^ b) (List.zipWith xor x y) = feedBits poly a x ^^^ feedBits poly b y
  | [], [], a, b, _ => rfl
  | p :: x, q :: y, a, b, h => by
    have hstep : feedBit poly (a ^^^ b) (p ^^ q) = feedBit poly a p ^^^ feedBit poly b q := by
      unfold feedBit
      rw [← shift_xor, bitWord_xor]
      congr 1
      ac_rfl
    rw [List.zipWith_cons_cons, feedBits_cons, feedBits_cons, feedBits_cons, hstep]
    exact feedBits_xor poly x y _ _ (by simpa using h)

/-- The bits of a list, the first one lowest, as a register word. -/
def word (w : ℕ) : List Bool → BitVec w
  | [] => 0#w
  | b :: bits => bitWord w b ^^^ (word w bits <<< 1)

theorem getLsbD_word (bits : List Bool) (i : ℕ) :
    (word w bits).getLsbD i = (decide (i < w) && bits[i]?.getD false) := by
  induction bits generalizing i with
  | nil => simp [word]
  | cons b bits ih =>
    rw [word, BitVec.getLsbD_xor, getLsbD_bitWord, BitVec.getLsbD_shiftLeft, ih]
    rcases i with _ | i
    · simp
    · by_cases hi : i + 1 < w
      · simp [hi, show i < w by omega]
      · simp [hi]

theorem word_zipWith_xor : ∀ (x y : List Bool), x.length = y.length →
    word w (List.zipWith xor x y) = word w x ^^^ word w y
  | [], [], _ => by simp [word]
  | p :: x, q :: y, h => by
    rw [List.zipWith_cons_cons, word, word, word, word_zipWith_xor x y (by simpa using h),
      BitVec.shiftLeft_xor_distrib, bitWord_xor]
    ac_rfl

/-- At most a registerful of bits may be added in one go before stepping. -/
theorem feedBits_eq_iterate (poly : BitVec w) :
    ∀ (bits : List Bool) (c : BitVec w), bits.length ≤ w →
      feedBits poly c bits = (shift poly)^[bits.length] (c ^^^ word w bits)
  | [], c, _ => by simp [word]
  | b :: bits, c, h => by
    have hlen : bits.length + 1 ≤ w := h
    -- the later bits stand one place higher, and the step brings them down unchanged
    have hdown : shift poly (word w bits <<< 1) = word w bits := by
      have hlow : (word w bits <<< 1).getLsbD 0 = false := by simp
      rw [shift, hlow, if_neg (by decide)]
      apply BitVec.eq_of_getLsbD_eq
      intro i hi
      rw [BitVec.getLsbD_ushiftRight, BitVec.getLsbD_shiftLeft, getLsbD_word, getLsbD_word]
      by_cases hlt : 1 + i < w
      · simp [hlt, hi]
      · simp [hlt, List.getElem?_eq_none (show bits.length ≤ i by omega)]
    have hsum : shift poly (c ^^^ word w (b :: bits)) = feedBit poly c b ^^^ word w bits := by
      rw [word, ← BitVec.xor_assoc, shift_xor, hdown, feedBit]
    rw [feedBits_cons, feedBits_eq_iterate poly bits _ (by omega), List.length_cons,
      Function.iterate_succ_apply, hsum]

/-! ### Bursts -/

theorem feedBits_of_all_false (poly : BitVec w) :
    ∀ (bits : List Bool) (c : BitVec w), (∀ b ∈ bits, b = false) →
      feedBits poly c bits = (shift poly)^[bits.length] c
  | [], _, _ => rfl
  | b :: bits, c, h => by
    have hb : b = false := h b (by simp)
    subst hb
    rw [feedBits_cons, feedBits_of_all_false poly bits _ (fun b hb => h b (by simp [hb]))]
    simp [feedBit, Function.iterate_succ_apply]

/-- The positions of the set bits all lie in the `n` places from `k` on. -/
def Window (n k : ℕ) (bits : List Bool) : Prop :=
  ∀ i, bits[i]? = some true → k ≤ i ∧ i < k + n

/-- A non-zero pattern inside a window no longer than the register leaves a
non-zero register behind. -/
theorem feedBits_ne_zero_of_burst {poly : BitVec w} (hpoly : poly.msb = true) :
    ∀ (bits : List Bool) (k : ℕ), Window w k bits → true ∈ bits →
      feedBits poly 0#w bits ≠ 0#w
  | [], _, _, h => by simp at h
  | false :: bits, k, hwin, h => by
    -- a leading zero bit leaves the zero register as it is
    have hstep : feedBit poly 0#w false = 0#w := by simp [feedBit]
    rw [feedBits_cons, hstep]
    refine feedBits_ne_zero_of_burst hpoly bits (k - 1) ?_ (by simpa using h)
    intro i hi
    obtain ⟨h1, h2⟩ := hwin (i + 1) (by simpa using hi)
    omega
  | true :: bits, k, hwin, _ => by
    -- the window starts here, so everything after the next `w` bits is clear
    have hk : k = 0 := by
      have := (hwin 0 (by simp)).1
      omega
    have hw : 0 < w := by
      have := (hwin 0 (by simp)).2
      omega
    have hclear : ∀ b ∈ (true :: bits).drop w, b = false := by
      intro b hb
      obtain ⟨i, hi⟩ := List.mem_iff_getElem?.mp hb
      rw [List.getElem?_drop] at hi
      cases b with
      | false => rfl
      | true =>
        have := (hwin _ hi).2
        omega
    rw [← List.take_append_drop w (true :: bits), feedBits_append,
      feedBits_of_all_false poly _ _ hclear,
      feedBits_eq_iterate poly ((true :: bits).take w) _ (List.length_take_le _ _)]
    rw [Ne, shift_iterate_eq_zero hpoly, shift_iterate_eq_zero hpoly, BitVec.zero_xor]
    intro hzero
    -- the first bit of the window is still in the word
    have hlow : (word w ((true :: bits).take w)).getLsbD 0 = true := by
      rw [getLsbD_word, List.getElem?_take]
      simp [hw]
    rw [hzero] at hlow
    simp at hlow

end ShiftRegister
