/-
Options with values.

A command line is a list of options, each followed by its value; an option changes the
settings in a way that depends on the value, or rejects it. `parse` goes from left to right
and stops at the first thing that is wrong.

* `parse_iff` — what is taken are the lists of options with values that are all taken, and
  the settings are changed by one after the other;
* `Takes.field` — what an option sets is set by the last one that sets it.
-/
import Mathlib.Data.List.Basic

namespace Options

variable {κ ε α β : Type*}

/-- The options: what each does with its value, and what is said of an option that lacks its
value or that does not exist. -/
structure Table (κ ε α : Type*) where
  effect : κ → Option (κ → Except ε (α → α))
  missing : κ → ε
  unknown : κ → ε

variable (T : Table κ ε α)

def parse (a : α) : List κ → Except ε α
  | [] => .ok a
  | [opt] =>
    match T.effect opt with
    | none => .error (T.unknown opt)
    | some _ => .error (T.missing opt)
  | opt :: value :: rest =>
    match T.effect opt with
    | none => .error (T.unknown opt)
    | some f =>
      match f value with
      | .error e => .error e
      | .ok g => parse (g a) rest

/-- Options with values on the command line. -/
def render (opts : List (κ × κ)) : List κ := opts.flatMap fun o => [o.1, o.2]

/-- An option with a value is taken, and changes the settings by `g`. -/
def Sets (o : κ × κ) (g : α → α) : Prop := ∃ f, T.effect o.1 = some f ∧ f o.2 = .ok g

/-- The options change the settings one after the other. -/
inductive Takes : α → List (κ × κ) → α → Prop
  | nil (a : α) : Takes a [] a
  | cons {a b : α} {o : κ × κ} {g : α → α} {opts : List (κ × κ)} (ho : Sets T o g)
      (h : Takes (g a) opts b) : Takes a (o :: opts) b

variable {T} {a b : α} {opts : List (κ × κ)}

theorem parse_iff {args : List κ} :
    parse T a args = .ok b ↔ ∃ opts, args = render opts ∧ Takes T a opts b := by
  constructor
  · intro h
    fun_induction parse T a args with
    | case1 a =>
      cases h
      exact ⟨[], rfl, .nil _⟩
    | case2 => cases h
    | case3 => cases h
    | case4 => cases h
    | case5 => cases h
    | case6 a opt value rest f hf g hg ih =>
      obtain ⟨opts, hargs, htakes⟩ := ih h
      exact ⟨(opt, value) :: opts, by rw [hargs]; rfl, .cons ⟨f, hf, hg⟩ htakes⟩
  · rintro ⟨opts, rfl, h⟩
    induction h with
    | nil a => rfl
    | cons ho h ih =>
      obtain ⟨f, hf, hg⟩ := ho
      show parse T _ (_ :: _ :: _) = _
      rw [parse, hf]
      dsimp only
      rw [hg]
      exact ih

/-- Options that are all taken can be taken one after the other. -/
theorem exists_takes (h : ∀ o ∈ opts, ∃ g, Sets T o g) (a : α) : ∃ b, Takes T a opts b := by
  induction opts generalizing a with
  | nil => exact ⟨a, .nil a⟩
  | cons o opts ih =>
    obtain ⟨g, hg⟩ := h o List.mem_cons_self
    obtain ⟨b, hb⟩ := ih (fun o ho => h o (List.mem_cons_of_mem _ ho)) (g a)
    exact ⟨b, .cons hg hb⟩

theorem Takes.sets (h : Takes T a opts b) : ∀ o ∈ opts, ∃ g, Sets T o g := by
  induction h with
  | nil a => exact fun o ho => absurd ho List.not_mem_nil
  | cons ho h ih => exact List.forall_mem_cons.mpr ⟨⟨_, ho⟩, ih⟩

/-- The last value that the options pick. -/
def last (pick : κ × κ → Option β) (default : β) (opts : List (κ × κ)) : β :=
  (opts.filterMap pick).getLast?.getD default

/-- **The last one counts**: `pick` says to what an option sets the field. -/
theorem Takes.field (field : α → β) {pick : κ × κ → Option β}
    (hpick : ∀ o g, Sets T o g → ∀ a, field (g a) = (pick o).getD (field a))
    (h : Takes T a opts b) : field b = last pick (field a) opts := by
  induction h with
  | nil a => rfl
  | @cons a b o g opts ho h ih =>
    rw [ih, hpick o g ho, last, last, List.filterMap_cons]
    cases pick o with
    | none => rfl
    | some v =>
      dsimp only
      rw [List.getLast?_cons, Option.getD_some, Option.getD_some]

/-- What no option sets stays. -/
theorem Takes.unchanged {field : α → β}
    (hkeep : ∀ o g, Sets T o g → ∀ a, field (g a) = field a) (h : Takes T a opts b) :
    field b = field a := by
  induction h with
  | nil a => rfl
  | cons ho h ih => rw [ih, hkeep _ _ ho]

end Options
