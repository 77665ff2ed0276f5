/-
Searching a list, and scanning it from the front.

* `find_split`, `rfind_eq_some_iff` — a position found from either end is a splitting of
  the list around the element, which is not on the side where the search began;
* `takeWhile_front` — the longest front part with a property, when what follows does not
  begin with an element that has it.
-/
import Mathlib.Data.List.TakeWhile
import Mathlib.Tactic.Common

namespace Scanning

variable {α : Type*}

section Search

variable [DecidableEq α]

/-- The position of the first `a`. -/
def find (l : List α) (a : α) : Option ℕ := l.idxOf? a

/-- The position of the last `a`. -/
def rfind (l : List α) (a : α) : Option ℕ := (l.reverse.idxOf? a).map (l.length - 1 - ·)

variable {l u v : List α} {a : α} {n : ℕ}

theorem find_eq_none_iff : find l a = none ↔ a ∉ l := List.idxOf?_eq_none_iff

theorem rfind_eq_none_iff : rfind l a = none ↔ a ∉ l := by
  rw [rfind, Option.map_eq_none_iff, List.idxOf?_eq_none_iff, List.mem_reverse]

theorem find_split (h : a ∉ u) : find (u ++ a :: v) a = some u.length := by
  induction u with
  | nil => simp [find, List.idxOf?_cons]
  | cons x u ih =>
    obtain ⟨hne, hu⟩ : a ≠ x ∧ a ∉ u := by simpa using h
    have hx : (x == a) = false := by simpa using hne.symm
    have hind : List.idxOf? a (u ++ a :: v) = some u.length := ih hu
    rw [find, List.cons_append, List.idxOf?_cons, hx, if_neg (by decide), hind]
    rfl

theorem rfind_split (h : a ∉ v) : rfind (u ++ a :: v) a = some u.length := by
  have hrev : (u ++ a :: v).reverse = v.reverse ++ a :: u.reverse := by simp
  have hpos : List.idxOf? a (v.reverse ++ a :: u.reverse) = some v.reverse.length :=
    find_split (by simpa using h)
  rw [rfind, hrev, hpos, Option.map_some, List.length_reverse, List.length_append, List.length_cons]
  congr 1
  omega

theorem rfind_eq_some_iff :
    rfind l a = some n ↔ ∃ u v, l = u ++ a :: v ∧ a ∉ v ∧ u.length = n := by
  constructor
  · intro h
    have hmem : a ∈ l.reverse := by
      rw [List.mem_reverse]
      by_contra hno
      rw [rfind_eq_none_iff.mpr hno] at h
      cases h
    obtain ⟨v, u, hl, hv⟩ := List.eq_append_cons_of_mem hmem
    have hsplit : l = u.reverse ++ a :: v.reverse := by
      rw [← List.reverse_reverse l, hl]
      simp
    have hv' : a ∉ v.reverse := by simpa using hv
    rw [hsplit, rfind_split hv'] at h
    exact ⟨u.reverse, v.reverse, hsplit, hv', Option.some.inj h⟩
  · rintro ⟨u, v, rfl, hv, rfl⟩
    exact rfind_split hv

end Search

/-- A front part with `p`, and nothing with `p` right after it. -/
theorem takeWhile_front {p : α → Bool} {u v : List α} (hu : ∀ x ∈ u, p x)
    (hv : ∀ x ∈ v.head?, p x = false) : (u ++ v).takeWhile p = u := by
  rw [List.takeWhile_append_of_pos hu]
  cases v with
  | nil => rw [List.takeWhile_nil, List.append_nil]
  | cons x v =>
    have hx : p x = false := hv x (by simp)
    rw [List.takeWhile_cons, hx, if_neg (by decide), List.append_nil]

end Scanning
