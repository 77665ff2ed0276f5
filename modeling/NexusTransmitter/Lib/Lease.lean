/-
Leases.

A holder keeps what he holds as long as he gets on with his work: when he does, he is given
a new stamp, and without work he gets none (`Renews`). A sweep takes the lease from those
whose stamp is too old.

* `lost_or_busy` — if there is, again and again, a sweep as late as one likes, a holder loses
  the lease for good or does more work than any bound.
-/
import Mathlib.Order.Monotone.Basic
import Mathlib.Tactic.Common

namespace Lease

variable {σ τ : Type*} {work : τ → ℕ} {stamp : τ → ℤ} {t t' t'' : τ}

/-- The holder goes on. -/
structure Renews (work : τ → ℕ) (stamp : τ → ℤ) (t t' : τ) : Prop where
  work_le : work t ≤ work t'
  stamp_eq : work t' = work t → stamp t' = stamp t

namespace Renews

theorem refl (t : τ) : Renews work stamp t t := ⟨le_rfl, fun _ => rfl⟩

theorem of_lt (h : work t < work t') : Renews work stamp t t' :=
  ⟨h.le, fun heq => absurd heq h.ne'⟩

theorem of_stamp (h : work t ≤ work t') (hstamp : stamp t' = stamp t) : Renews work stamp t t' :=
  ⟨h, fun _ => hstamp⟩

theorem trans (h : Renews work stamp t t') (h' : Renews work stamp t' t'') :
    Renews work stamp t t'' where
  work_le := h.work_le.trans h'.work_le
  stamp_eq := fun heq => by
    have hmid : work t' = work t := le_antisymm (heq ▸ h'.work_le) h.work_le
    exact (h'.stamp_eq (heq.trans hmid.symm)).trans (h.stamp_eq hmid)

/-- A holder whose work is bounded keeps one stamp in the end. -/
theorem exists_stamp {u : ℕ → τ} (h : ∀ n, Renews work stamp (u n) (u (n + 1))) {k : ℕ}
    (hk : ∀ n, work (u n) ≤ k) : ∃ N, ∀ n ≥ N, stamp (u n) = stamp (u N) := by
  have hmono : Monotone fun n => work (u n) := monotone_nat_of_le_succ fun n => (h n).work_le
  obtain ⟨w, N, hw⟩ := converges_of_monotone_of_bounded hmono hk
  refine ⟨N, fun n hn => ?_⟩
  induction n, hn using Nat.le_induction with
  | base => rfl
  | succ n hn ih =>
    have heq : work (u (n + 1)) = work (u n) := (hw _ (Nat.le_succ_of_le hn)).trans (hw n hn).symm
    exact ((h n).stamp_eq heq).trans ih

end Renews

section Runs

variable {run : ℕ → σ} {holds : σ → τ → Prop} {lost : σ → Prop}

/-- A holder who never loses the lease, step by step. -/
theorem exists_holders (hnext : ∀ n t, holds (run n) t →
      ∃ t', holds (run (n + 1)) t' ∧ Renews work stamp t t') {m : ℕ} (ht : holds (run m) t) :
    ∃ u : ℕ → τ, (∀ n, holds (run (m + n)) (u n)) ∧
      ∀ n, Renews work stamp (u n) (u (n + 1)) := by
  choose next hholds hrenews using hnext
  let u : ∀ n, { t // holds (run (m + n)) t } := fun n =>
    Nat.rec ⟨t, ht⟩ (fun n v => ⟨next (m + n) v.1 v.2, hholds (m + n) v.1 v.2⟩) n
  exact ⟨fun n => (u n).1, fun n => (u n).2, fun n => hrenews (m + n) (u n).1 (u n).2⟩

/-- **A lease is lost, or its holder is busy without end.** -/
theorem lost_or_busy
    (hnext : ∀ n t, holds (run n) t →
      (∃ t', holds (run (n + 1)) t' ∧ Renews work stamp t t') ∨ lost (run (n + 1)))
    (hlost : ∀ n, lost (run n) → lost (run (n + 1)))
    (hsweeps : ∀ N L, ∃ n ≥ N, ∀ t, holds (run n) t → stamp t ≤ L → lost (run (n + 1)))
    {m : ℕ} (ht : holds (run m) t) :
    (∃ N, ∀ n ≥ N, lost (run n)) ∨ ∀ k, ∃ n t, holds (run n) t ∧ k < work t := by
  by_cases hever : ∃ N, lost (run N)
  · obtain ⟨N, hN⟩ := hever
    exact .inl ⟨N, fun n hn => Nat.le_induction hN (fun n _ ih => hlost n ih) n hn⟩
  refine .inr fun k => ?_
  by_contra hk
  have hbound : ∀ n t, holds (run n) t → work t ≤ k := fun n t hn =>
    not_lt.mp fun hlt => hk ⟨n, t, hn, hlt⟩
  obtain ⟨u, hholds, hrenews⟩ := exists_holders
    (fun n t hn => (hnext n t hn).resolve_right fun hl => hever ⟨_, hl⟩) ht
  obtain ⟨N, hN⟩ := Renews.exists_stamp hrenews fun n => hbound _ _ (hholds n)
  -- a sweep that finds the last stamp
  obtain ⟨n, hn, hsweep⟩ := hsweeps (m + N) (stamp (u N))
  obtain ⟨j, rfl⟩ := Nat.exists_eq_add_of_le ((Nat.le_add_right m N).trans hn)
  exact hever ⟨_, hsweep (u j) (hholds j) (hN j (by omega)).le⟩

end Runs

end Lease
