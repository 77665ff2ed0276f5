/-
Trying one candidate after another.

`firstOk` stops at the first candidate with which an attempt succeeds, and keeps the error of
the last attempt otherwise. When an attempt that fails restores the state, all of them are
made in the same state (`firstOk_tried`).
-/
import Mathlib.Data.List.Basic

namespace Alternatives

variable {σ κ α ε : Type*}

/-- The candidates one after another; `e` is the error so far. -/
def firstOk (attempt : σ → κ → Except ε α × σ) (e : ε) : List κ → σ → Except ε α × σ
  | [], s => (.error e, s)
  | k :: ks, s =>
    match attempt s k with
    | (.error e, s) => firstOk attempt e ks s
    | (.ok a, s) => (.ok a, s)

variable {attempt : σ → κ → Except ε α × σ} {s : σ} {e : ε} {ks : List κ}

/-- What it comes to, in a state that failing attempts restore. -/
inductive Tried (attempt : σ → κ → Except ε α × σ) (s : σ) (e : ε) (ks : List κ) :
    Except ε α × σ → Prop
  | found (pre : List κ) (k : κ) (post : List κ) {a : α} {s' : σ} (hks : ks = pre ++ k :: post)
      (hpre : ∀ j ∈ pre, ∃ e', attempt s j = (.error e', s)) (hk : attempt s k = (.ok a, s')) :
      Tried attempt s e ks (.ok a, s')
  | empty (hks : ks = []) : Tried attempt s e ks (.error e, s)
  | failed (pre : List κ) (k : κ) {e' : ε} (hks : ks = pre ++ [k])
      (hpre : ∀ j ∈ pre, ∃ e', attempt s j = (.error e', s)) (hk : attempt s k = (.error e', s)) :
      Tried attempt s e ks (.error e', s)

theorem firstOk_tried (h : ∀ k e' s', attempt s k = (.error e', s') → s' = s) (e : ε)
    (ks : List κ) : Tried attempt s e ks (firstOk attempt e ks s) := by
  induction ks generalizing e with
  | nil => exact .empty rfl
  | cons k ks ih =>
    rw [firstOk]
    split
    · rename_i e' s' hk
      obtain rfl := h k e' s' hk
      have hrest := ih e'
      generalize firstOk attempt e' ks s' = r at hrest
      have hfirst : ∀ pre, (∀ j ∈ pre, ∃ e', attempt s' j = (.error e', s')) →
          ∀ j ∈ k :: pre, ∃ e', attempt s' j = (.error e', s') := fun pre hpre j hj => by
        rcases List.mem_cons.mp hj with rfl | hj
        · exact ⟨e', hk⟩
        · exact hpre j hj
      cases hrest with
      | found pre k' post hks hpre hk' =>
        exact .found (k :: pre) k' post (by rw [hks, List.cons_append]) (hfirst pre hpre) hk'
      | empty hks => exact .failed [] k (by rw [hks, List.nil_append]) (by simp) hk
      | failed pre k' hks hpre hk' =>
        exact .failed (k :: pre) k' (by rw [hks, List.cons_append]) (hfirst pre hpre) hk'
    · rename_i a s' hk
      exact .found [] k ks rfl (by simp) hk

end Alternatives
