/-
A write-once archive.

Entries are put in under free names, one at a time; none is ever changed or taken out.
That is all a client of such an archive has to know: what was there is there for good
(`Puts.subset`), and a name leads to one content (`Puts.functional`). A system is such an
archive when each of its steps is a number of puts, of entries that its new state vouches
for, and it goes on vouching for them (`Puts.of_run`).
-/
import Mathlib.Data.Set.Insert
import Mathlib.Logic.Relation

namespace WriteOnce

variable {ν κ σ : Type*}

/-- An entry that `ok` allows is put in under a free name. -/
inductive Put (ok : ν × κ → Prop) : Set (ν × κ) → Set (ν × κ) → Prop
  | put {A : Set (ν × κ)} {n : ν} {k : κ} (hfree : ∀ k', (n, k') ∉ A) (hok : ok (n, k)) :
      Put ok A (insert (n, k) A)

/-- A number of puts. -/
def Puts (ok : ν × κ → Prop) : Set (ν × κ) → Set (ν × κ) → Prop := Relation.ReflTransGen (Put ok)

/-- A name leads to one content. -/
def Functional (A : Set (ν × κ)) : Prop := ∀ n k k', (n, k) ∈ A → (n, k') ∈ A → k = k'

variable {ok ok' : ν × κ → Prop} {A B : Set (ν × κ)}

theorem functional_empty : Functional (∅ : Set (ν × κ)) :=
  fun _ _ _ h => absurd h (Set.notMem_empty _)

/-! ### One put -/

theorem Put.subset (h : Put ok A B) : A ⊆ B := by
  cases h with
  | put hfree hok => exact Set.subset_insert _ _

theorem Put.mono (h : Put ok A B) (hok' : ∀ e, ok e → ok' e) : Put ok' A B := by
  cases h with
  | put hfree hok => exact .put hfree (hok' _ hok)

theorem Put.functional (h : Put ok A B) (hA : Functional A) : Functional B := by
  cases h with
  | @put n k hfree hok =>
    intro m i j hi hj
    rcases Set.mem_insert_iff.mp hi with hi | hi <;> rcases Set.mem_insert_iff.mp hj with hj | hj
    · cases hi
      cases hj
      rfl
    · cases hi
      exact absurd hj (hfree j)
    · cases hj
      exact absurd hi (hfree i)
    · exact hA m i j hi hj

/-! ### Many puts -/

theorem Puts.subset (h : Puts ok A B) : A ⊆ B := by
  induction h with
  | refl => exact Set.Subset.refl A
  | tail _ hput ih => exact ih.trans hput.subset

/-- More entries are allowed. -/
theorem Puts.mono (h : Puts ok A B) (hok' : ∀ e, ok e → ok' e) : Puts ok' A B :=
  Relation.ReflTransGen.mono (fun _ _ hput => hput.mono hok') _ _ h

/-- Only what is allowed has come in. -/
theorem Puts.allowed (h : Puts ok A B) {e : ν × κ} (he : e ∈ B) : e ∈ A ∨ ok e := by
  induction h with
  | refl => exact .inl he
  | tail _ hput ih =>
    cases hput with
    | put hfree hok =>
      rcases Set.mem_insert_iff.mp he with rfl | he
      · exact .inr hok
      · exact ih he

theorem Puts.functional (h : Puts ok A B) (hA : Functional A) : Functional B := by
  induction h with
  | refl => exact hA
  | tail _ hput ih => exact hput.functional ih

/-- One step that puts in at most one entry. -/
theorem Puts.of_insert {n : ν} {k : κ} (hfree : ∀ k', (n, k') ∉ A) (hok : ok (n, k))
    (hB : B = insert (n, k) A) : Puts ok A B := by
  rw [hB]
  exact .single (.put hfree hok)

/-- Puts beside entries that were there before, under other names. -/
theorem Puts.beside {D : Set (ν × κ)} (h : Puts ok A B) (hfree : ∀ e ∈ B, ∀ k, (e.1, k) ∉ D) :
    Puts ok (D ∪ A) (D ∪ B) := by
  induction h with
  | refl => exact .refl
  | tail _ hput ih =>
    cases hput with
    | @put n k hnew hok =>
      refine (ih fun e he => hfree e (Set.mem_insert_of_mem _ he)).tail ?_
      rw [Set.union_insert]
      refine .put (fun k' hk' => ?_) hok
      exact hk'.elim (hfree _ (Set.mem_insert _ _) k') (hnew k')

/-- **The refinement rule**: let each step of a system that keeps `inv` be a number of puts, of
entries that the new state vouches for; and let a state vouch for all that the one before
vouched for. Then every run is a number of puts of entries that its last state vouches for. -/
theorem Puts.of_run {step : σ → σ → Prop} (abs : σ → Set (ν × κ)) (vouch : σ → ν × κ → Prop)
    (inv : σ → Prop) (hinv : ∀ {x y}, inv x → step x y → inv y)
    (hvouch : ∀ {x y}, inv x → step x y → ∀ e, vouch x e → vouch y e)
    (hstep : ∀ {x y}, inv x → step x y → Puts (vouch y) (abs x) (abs y)) {x y : σ} (hx : inv x)
    (hrun : Relation.ReflTransGen step x y) : Puts (vouch y) (abs x) (abs y) := by
  have hboth : inv y ∧ Puts (vouch y) (abs x) (abs y) := by
    induction hrun with
    | refl => exact ⟨hx, .refl⟩
    | tail _ hlast ih =>
      obtain ⟨hy, hputs⟩ := ih
      exact ⟨hinv hy hlast, (hputs.mono (hvouch hy hlast)).trans (hstep hy hlast)⟩
  exact hboth.2

end WriteOnce
