/-
Endless sequences of answers.

What an environment answers to a program that keeps asking is a function on ℕ. The
program has only ever seen a front part of it, `front σ n`, and two front parts of
one sequence continue each other (`front_isPrefix`).

* `Recurs` — answers of some kind come again and again, that is, the others come
  only finitely often in a row; then a front part holds as many of them as one likes
  (`Recurs.exists_countP`), which is how a loop that each of them brings forward ends.
-/
import Mathlib.Data.List.Infix
import Mathlib.Data.List.Range
import Mathlib.Tactic.Common

namespace Schedule

variable {α : Type*} (σ : ℕ → α)

/-- The first `n` answers. -/
def front (n : ℕ) : List α := (List.range n).map σ

@[simp] theorem front_zero : front σ 0 = [] := rfl

theorem front_succ (n : ℕ) : front σ (n + 1) = front σ n ++ [σ n] := by
  rw [front, List.range_succ, List.map_append]
  rfl

@[simp] theorem length_front (n : ℕ) : (front σ n).length = n := by
  rw [front, List.length_map, List.length_range]

theorem mem_front {n : ℕ} {a : α} : a ∈ front σ n ↔ ∃ k < n, σ k = a := by
  simp only [front, List.mem_map, List.mem_range]

theorem front_isPrefix {m n : ℕ} (h : m ≤ n) : front σ m <+: front σ n := by
  induction n, h using Nat.le_induction with
  | base => exact List.prefix_rfl
  | succ n _ ih =>
    rw [front_succ]
    exact ih.trans (List.prefix_append _ _)

/-- A list of answers, then always the same one. -/
theorem front_getD (answers : List α) (d : α) :
    front (fun k => answers.getD k d) answers.length = answers := by
  refine List.ext_getElem (length_front _ _) fun k h1 h2 => ?_
  simp [front, h2]

variable {σ}

/-- Answers with `p` come again and again. -/
def Recurs (p : α → Prop) (σ : ℕ → α) : Prop := ∀ n, ∃ m, n ≤ m ∧ p (σ m)

/-- Among the first answers there are as many with `p` as one likes. -/
theorem Recurs.exists_countP {p : α → Prop} [DecidablePred p] (h : Recurs p σ) (k : ℕ) :
    ∃ n, k ≤ (front σ n).countP p := by
  induction k with
  | zero => exact ⟨0, Nat.zero_le _⟩
  | succ k ih =>
    obtain ⟨n, hn⟩ := ih
    obtain ⟨m, hm, hp⟩ := h n
    refine ⟨m + 1, ?_⟩
    have hle : (front σ n).countP p ≤ (front σ m).countP p :=
      (front_isPrefix σ hm).sublist.countP_le
    rw [front_succ, List.countP_append, List.countP_singleton, if_pos (by simpa using hp)]
    omega

end Schedule
