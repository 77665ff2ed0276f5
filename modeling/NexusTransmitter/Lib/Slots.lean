/-
Slots of a shared table.

A table gives each slot an occupant or none. A party holds some of the slots, and all of
them are in use. In its `Turn` it may take slots that are free and give back slots that it
holds, which are free then; the slots of everybody else stay as they are. Turns compose
(`Turn.trans`), also when the others hold something (`Turn.frame`), so a leak of slots can
be ruled out operation by operation: after a whole run the table is what it was, but for
the slots held (`Turn.account`).
-/
import Mathlib.Data.Set.Basic
import Mathlib.Tactic.Common

namespace Slots

variable {α β : Type*}

/-- The slots of `O` are in use. -/
def Uses (O : Set α) (m : α → Option β) : Prop := ∀ a ∈ O, m a ≠ none

/-- A turn of a party that holds the slots `O` before it and `O'` after it. -/
structure Turn (O : Set α) (m : α → Option β) (O' : Set α) (m' : α → Option β) : Prop where
  same : ∀ a, a ∉ O → a ∉ O' → m' a = m a
  taken : ∀ a, a ∉ O → a ∈ O' → m a = none
  freed : ∀ a, a ∈ O → a ∉ O' → m' a = none
  uses : Uses O' m'

variable {O O' O'' R : Set α} {m m' m'' : α → Option β}

namespace Turn

theorem refl (h : Uses O m) : Turn O m O m where
  same := fun _ _ _ => rfl
  taken := fun _ ha ha' => absurd ha' ha
  freed := fun _ ha ha' => absurd ha ha'
  uses := h

theorem trans (h : Turn O m O' m') (h' : Turn O' m' O'' m'') : Turn O m O'' m'' where
  same := by
    intro a ha ha''
    by_cases ha' : a ∈ O'
    · -- it was taken and given back
      rw [h'.freed a ha' ha'', h.taken a ha ha']
    · rw [h'.same a ha' ha'', h.same a ha ha']
  taken := by
    intro a ha ha''
    by_cases ha' : a ∈ O'
    · exact h.taken a ha ha'
    · rw [← h.same a ha ha']
      exact h'.taken a ha' ha''
  freed := by
    intro a ha ha''
    by_cases ha' : a ∈ O'
    · exact h'.freed a ha' ha''
    · rw [h'.same a ha' ha'']
      exact h.freed a ha ha'
  uses := h'.uses

/-- What others hold is out of reach. -/
theorem disjoint (h : Turn O m O' m') (hR : Uses R m) (hd : ∀ a ∈ R, a ∉ O) : ∀ a ∈ R, a ∉ O' :=
  fun a ha ha' => hR a ha (h.taken a (hd a ha) ha')

theorem others (h : Turn O m O' m') (hR : Uses R m) (hd : ∀ a ∈ R, a ∉ O) :
    ∀ a ∈ R, m' a = m a :=
  fun a ha => h.same a (hd a ha) (h.disjoint hR hd a ha)

/-- **The frame rule**: a turn of one party is a turn of all together. -/
theorem frame (h : Turn O m O' m') (hR : Uses R m) (hd : ∀ a ∈ R, a ∉ O) :
    Turn (O ∪ R) m (O' ∪ R) m' where
  same := fun a ha ha' => h.same a (fun hO => ha (.inl hO)) fun hO' => ha' (.inl hO')
  taken := fun a ha ha' =>
    h.taken a (fun hO => ha (.inl hO)) (ha'.resolve_right fun hr => ha (.inr hr))
  freed := fun a ha ha' =>
    h.freed a (ha.resolve_right fun hr => ha' (.inr hr)) fun hO' => ha' (.inl hO')
  uses := by
    rintro a (ha | ha)
    · exact h.uses a ha
    · rw [h.others hR hd a ha]
      exact hR a ha

/-- A slot that was free is taken. -/
theorem take {a : α} (ha : m a = none) (hsame : ∀ x, x ≠ a → m' x = m x) (hused : m' a ≠ none) :
    Turn ∅ m {a} m' where
  same := fun x _ hx => hsame x hx
  taken := fun _ _ hx => hx ▸ ha
  freed := fun _ hx _ => absurd hx (Set.notMem_empty _)
  uses := fun _ hx => hx ▸ hused

/-- A slot is given back. -/
theorem free {a : α} (hsame : ∀ x, x ≠ a → m' x = m x) (hfree : m' a = none) :
    Turn {a} m ∅ m' where
  same := fun x hx _ => hsame x hx
  taken := fun _ _ hx => absurd hx (Set.notMem_empty _)
  freed := fun _ hx _ => hx ▸ hfree
  uses := fun _ hx => absurd hx (Set.notMem_empty _)

/-- **The account** of a run from a table in which the party held nothing. -/
theorem account (h : Turn ∅ m O m') :
    (∀ a ∈ O, m a = none ∧ m' a ≠ none) ∧ ∀ a ∉ O, m' a = m a :=
  ⟨fun a ha => ⟨h.taken a (Set.notMem_empty a) ha, h.uses a ha⟩,
    fun a ha => h.same a (Set.notMem_empty a) ha⟩

end Turn

end Slots
