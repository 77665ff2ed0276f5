/-
Parties that share a store of numbered objects.

Objects get increasing numbers as they are created. A party owns at most one
object at a time, and what it does is *confined*: of the objects there are, it
changes its own only, and it takes no other but a new one. Confinement composes
(`Confined.trans`), so it is proved operation by operation. Then, however
several parties take turns,

* `Separate.step` — no object gets two owners;
* `Separate.same_of_mem` — the object of another party is not touched;
* `Unowned.step` — an object that nobody owns is never touched again.
-/
import Mathlib.Data.List.Basic
import Mathlib.Tactic.Common

namespace Ownership

/-- A store of objects: `next` is the number of the next object, and `Same j`
says that two stores have the same object `j`. -/
structure Store (σ : Type*) where
  next : σ → ℕ
  Same : ℕ → σ → σ → Prop
  same_refl : ∀ j s, Same j s s
  same_trans : ∀ {j s t u}, Same j s t → Same j t u → Same j s u

variable {σ : Type*} (S : Store σ)

/-- A step of a party that owns `own` before it and `own'` after it. -/
structure Confined (own : Option ℕ) (s : σ) (own' : Option ℕ) (s' : σ) : Prop where
  next_le : S.next s ≤ S.next s'
  same : ∀ j < S.next s, own ≠ some j → S.Same j s s'
  own_or_new : ∀ i, own' = some i → own = some i ∨ S.next s ≤ i

namespace Confined

variable {S} {own own' own'' : Option ℕ} {s s' s'' : σ}

variable (S) in
theorem refl (own : Option ℕ) (s : σ) : Confined S own s own s :=
  ⟨Nat.le_refl _, fun j _ _ => S.same_refl j s, fun _ h => .inl h⟩

theorem trans (h : Confined S own s own' s') (h' : Confined S own' s' own'' s'') :
    Confined S own s own'' s'' where
  next_le := Nat.le_trans h.next_le h'.next_le
  same := by
    intro j hj hown
    -- the step in the middle took no object that was there before
    have hown' : own' ≠ some j := by
      intro heq
      rcases h.own_or_new j heq with h1 | h1
      · exact hown h1
      · omega
    exact S.same_trans (h.same j hj hown) (h'.same j (Nat.lt_of_lt_of_le hj h.next_le) hown')
  own_or_new := by
    intro i hi
    rcases h'.own_or_new i hi with h1 | h1
    · exact h.own_or_new i h1
    · exact .inr (Nat.le_trans h.next_le h1)

end Confined

/-! ### Several parties

The parties are a list of what each of them owns. The order does not matter
(`Separate.perm`, `Unowned.perm`), so the party that takes a step stands in
front. -/

/-- Every party's object exists, and is its own. -/
structure Separate (owns : List (Option ℕ)) (s : σ) : Prop where
  lt : ∀ i, some i ∈ owns → i < S.next s
  distinct : owns.Pairwise fun o o' => ∀ i, o = some i → o' ≠ some i

/-- The object exists and no party owns it. -/
structure Unowned (owns : List (Option ℕ)) (s : σ) (j : ℕ) : Prop where
  lt : j < S.next s
  not_mem : some j ∉ owns

variable {S} {own own' : Option ℕ} {owns owns' : List (Option ℕ)} {s s' : σ}

theorem Separate.perm (h : Separate S owns s) (hperm : owns.Perm owns') : Separate S owns' s where
  lt := fun i hi => h.lt i (hperm.mem_iff.mpr hi)
  distinct := (hperm.pairwise_iff fun {_ _} hd i hi heq => hd i heq hi).mp h.distinct

theorem Unowned.perm {j : ℕ} (h : Unowned S owns s j) (hperm : owns.Perm owns') :
    Unowned S owns' s j :=
  ⟨h.lt, fun hj => h.not_mem (hperm.mem_iff.mpr hj)⟩

/-- A confined step of one party, the others holding on to what they own. -/
theorem Separate.step (h : Separate S (own :: owns) s) (hstep : Confined S own s own' s')
    (hlt : ∀ i, own' = some i → i < S.next s') : Separate S (own' :: owns) s' where
  lt := by
    intro i hi
    rcases List.mem_cons.mp hi with hi | hi
    · exact hlt i hi.symm
    · exact Nat.lt_of_lt_of_le (h.lt i (List.mem_cons_of_mem _ hi)) hstep.next_le
  distinct := by
    obtain ⟨hown, hrest⟩ := List.pairwise_cons.mp h.distinct
    refine List.pairwise_cons.mpr ⟨fun o ho i hi heq => ?_, hrest⟩
    -- what the party holds now is its old object, or newer than all others
    rcases hstep.own_or_new i hi with h1 | h1
    · exact hown o ho i h1 heq
    · have := h.lt i (List.mem_cons_of_mem _ (heq ▸ ho))
      omega

/-- The step leaves the object of another party as it is. -/
theorem Separate.same_of_mem (h : Separate S (own :: owns) s) (hstep : Confined S own s own' s')
    {i : ℕ} (hi : some i ∈ owns) : S.Same i s s' :=
  hstep.same i (h.lt i (List.mem_cons_of_mem _ hi)) fun hown =>
    (List.pairwise_cons.mp h.distinct).1 _ hi i hown rfl

/-- The step leaves an object that nobody owns as it is, and nobody takes it. -/
theorem Unowned.step {j : ℕ} (h : Unowned S (own :: owns) s j)
    (hstep : Confined S own s own' s') : S.Same j s s' ∧ Unowned S (own' :: owns) s' j := by
  have hne : own ≠ some j := fun heq => h.not_mem (by rw [heq]; exact List.mem_cons_self)
  refine ⟨hstep.same j h.lt hne, Nat.lt_of_lt_of_le h.lt hstep.next_le, fun hj => ?_⟩
  rcases List.mem_cons.mp hj with hj | hj
  · rcases hstep.own_or_new j hj.symm with h1 | h1
    · exact hne h1
    · have := h.lt
      omega
  · exact h.not_mem (List.mem_cons_of_mem _ hj)

/-- A party that owns nothing may come or go. -/
theorem Separate.cons_none : Separate S (none :: owns) s ↔ Separate S owns s := by
  constructor
  · intro h
    exact ⟨fun i hi => h.lt i (List.mem_cons_of_mem _ hi), (List.pairwise_cons.mp h.distinct).2⟩
  · intro h
    refine ⟨fun i hi => h.lt i ?_,
      List.pairwise_cons.mpr ⟨fun o _ i hi => by simp at hi, h.distinct⟩⟩
    simpa using hi

theorem Unowned.cons_none {j : ℕ} : Unowned S (none :: owns) s j ↔ Unowned S owns s j :=
  ⟨fun h => ⟨h.lt, fun hj => h.not_mem (List.mem_cons_of_mem _ hj)⟩,
    fun h => ⟨h.lt, fun hj => h.not_mem (by simpa using hj)⟩⟩

end Ownership
