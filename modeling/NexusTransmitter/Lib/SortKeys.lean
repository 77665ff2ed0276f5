/-
Keys that sort as what they stand for.

A number with a fixed number of digits, leading zeros among them, and a record whose fields
have a fixed width each, written one after another, sort as lists the way the numbers and
the records do.

* `append_lt_append` — the first field that differs decides;
* `digits_lt` — numbers of one width.
-/
import Mathlib.Algebra.Group.Nat.Defs
import Mathlib.Data.List.Basic
import Mathlib.Tactic.Common

namespace SortKeys

variable {α : Type*}

section Fields

variable [LT α] {l l' r r' : List α}

/-- What comes first decides, and if it is the same, what comes next. -/
theorem append_lt_append (hlen : l.length = l'.length) (h : l < l' ∨ l = l' ∧ r < r') :
    l ++ r < l' ++ r' := by
  rcases h with h | ⟨rfl, h⟩
  swap
  · exact List.append_left_lt h
  induction l generalizing l' with
  | nil =>
    rw [List.length_eq_zero_iff.mp hlen.symm] at h
    exact absurd h (List.not_lt_nil [])
  | cons a l ih =>
    cases l' with
    | nil => exact absurd h (List.not_lt_nil _)
    | cons b l' =>
      rw [List.cons_lt_cons_iff] at h
      rw [List.cons_append, List.cons_append, List.cons_lt_cons_iff]
      exact h.imp_right fun ⟨hab, hlt⟩ => ⟨hab, ih (Nat.succ.inj hlen) hlt⟩

end Fields

section Digits

variable {b w m n : ℕ} {d : ℕ → α}

/-- The last `w` digits of `n` in base `b`, each written by `d`. -/
def digits (b : ℕ) (d : ℕ → α) : ℕ → ℕ → List α
  | 0, _ => []
  | w + 1, n => digits b d w (n / b) ++ [d (n % b)]

@[simp] theorem length_digits (b : ℕ) (d : ℕ → α) (w n : ℕ) : (digits b d w n).length = w := by
  induction w generalizing n with
  | zero => rfl
  | succ w ih => rw [digits, List.length_append, ih, List.length_singleton]

theorem digits_zero (b : ℕ) (d : ℕ → α) (w : ℕ) : digits b d w 0 = List.replicate w (d 0) := by
  induction w with
  | zero => rfl
  | succ w ih => rw [digits, Nat.zero_div, Nat.zero_mod, ih, List.replicate_succ']

/-- Numbers of one width sort by size. -/
theorem digits_lt [LT α] (hb : 0 < b) (hd : ∀ i j, i < j → j < b → d i < d j) (h : m < n)
    (hn : n < b ^ w) : digits b d w m < digits b d w n := by
  induction w generalizing m n with
  | zero =>
    rw [Nat.pow_zero] at hn
    omega
  | succ w ih =>
    have hdiv : n / b < b ^ w := by
      rw [Nat.div_lt_iff_lt_mul hb, ← Nat.pow_succ]
      exact hn
    have hm := Nat.div_add_mod m b
    have hn' := Nat.div_add_mod n b
    rw [digits, digits]
    refine append_lt_append (by rw [length_digits, length_digits]) ?_
    rcases Nat.lt_or_eq_of_le (Nat.div_le_div_right (c := b) (Nat.le_of_lt h)) with hlt | heq
    · exact .inl (ih hlt hdiv)
    · -- the higher digits are the same, so the last one is smaller
      refine .inr ⟨by rw [heq], List.cons_lt_cons_iff.mpr (.inl ?_)⟩
      refine hd _ _ ?_ (Nat.mod_lt n hb)
      rw [heq] at hm
      omega

end Digits

end SortKeys
