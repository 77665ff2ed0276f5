/-
What is left of a file after a crash.

The trace of a file is what has been done to it: bytes are appended, the file is synced, and
it gets a second name by `link`. A crash may come after any call. Then a name that was given
before may be there or not, and what is found under it has all that was synced, is no longer
than the file was, and is otherwise arbitrary.

In an orderly trace (`Orderly`) a name is given to a synced file only, and nothing is appended
afterwards. Then a crash never shows half a file (`Orderly.found`).
-/
import Mathlib.Data.List.Basic
import Mathlib.Data.List.Infix

namespace Durability

variable {ν β : Type*}

/-- What is done to a file. -/
inductive Event (ν β : Type*)
  | create (n : ν)
  | append (bs : List β)
  | sync
  | link (n : ν)
  | unlink (n : ν)

/-- A file: its content, and what of it was synced. -/
structure File (β : Type*) where
  content : List β
  synced : List β

def File.step (f : File β) : Event ν β → File β
  | .append bs => { f with content := f.content ++ bs }
  | .sync => { f with synced := f.content }
  | _ => f

/-- The file after a trace. -/
def run (tr : List (Event ν β)) : File β := tr.foldl File.step { content := [], synced := [] }

@[simp] theorem run_nil : run ([] : List (Event ν β)) = { content := [], synced := [] } := rfl

theorem run_concat (tr : List (Event ν β)) (e : Event ν β) :
    run (tr ++ [e]) = (run tr).step e := by
  rw [run, List.foldl_append]
  rfl

/-- What may be found under a name that `link` has given, after a crash. -/
def Found (tr : List (Event ν β)) (n : ν) (c : List β) : Prop :=
  ∃ pre, pre <+: tr ∧ .link n ∈ pre ∧ (run pre).synced <+: c ∧ c.length ≤ (run pre).content.length

/-- From the first `link` on the file is complete, and synced. -/
def Orderly (tr : List (Event ν β)) : Prop :=
  ∀ pre n, pre <+: tr → .link n ∈ pre →
    (run pre).synced = (run tr).content ∧ (run pre).content = (run tr).content

variable {tr : List (Event ν β)} {n : ν} {bs c : List β}

namespace Orderly

theorem nil : Orderly ([] : List (Event ν β)) := by
  intro pre n hpre hn
  rw [List.prefix_nil.mp hpre] at hn
  cases hn

/-- A call that leaves a linked file as it is. -/
theorem concat {e : Event ν β} (h : Orderly tr)
    (hcontent : (∃ n, .link n ∈ tr) → ((run tr).step e).content = (run tr).content)
    (hlast : (∃ n, .link n ∈ tr ++ [e]) → ((run tr).step e).synced = ((run tr).step e).content) :
    Orderly (tr ++ [e]) := by
  intro pre n hpre hn
  rw [run_concat]
  rcases List.prefix_concat_iff.mp hpre with rfl | hpre
  · rw [run_concat]
    exact ⟨hlast ⟨n, hn⟩, rfl⟩
  · rw [hcontent ⟨n, hpre.subset hn⟩]
    exact h pre n hpre hn

theorem synced (h : Orderly tr) (hn : .link n ∈ tr) : (run tr).synced = (run tr).content :=
  (h tr n (List.prefix_refl tr) hn).1

theorem append (h : Orderly tr) (hno : ∀ n, .link n ∉ tr) (bs : List β) :
    Orderly (tr ++ [.append bs]) := by
  refine h.concat (fun ⟨n, hn⟩ => absurd hn (hno n)) fun ⟨n, hn⟩ => ?_
  rcases List.mem_append.mp hn with hn | hn
  · exact absurd hn (hno n)
  · simp at hn

theorem create (h : Orderly tr) (n : ν) : Orderly (tr ++ [.create n]) := by
  refine h.concat (fun _ => rfl) fun ⟨m, hm⟩ => ?_
  rcases List.mem_append.mp hm with hm | hm
  · exact h.synced hm
  · simp at hm

theorem unlink (h : Orderly tr) (n : ν) : Orderly (tr ++ [.unlink n]) := by
  refine h.concat (fun _ => rfl) fun ⟨m, hm⟩ => ?_
  rcases List.mem_append.mp hm with hm | hm
  · exact h.synced hm
  · simp at hm

theorem sync (h : Orderly tr) : Orderly (tr ++ [.sync]) := h.concat (fun _ => rfl) fun _ => rfl

/-- The file has just been synced. -/
theorem link (h : Orderly tr) (hsynced : (run tr).synced = (run tr).content) (n : ν) :
    Orderly (tr ++ [.link n]) :=
  h.concat (fun _ => rfl) fun _ => hsynced

/-- **A crash never shows half a file.** -/
theorem found (h : Orderly tr) (hf : Found tr n c) : .link n ∈ tr ∧ c = (run tr).content := by
  obtain ⟨pre, hpre, hn, hfront, hlen⟩ := hf
  obtain ⟨hsynced, hcontent⟩ := h pre n hpre hn
  rw [hsynced] at hfront
  rw [hcontent] at hlen
  exact ⟨hpre.subset hn, (hfront.eq_of_length_le hlen).symm⟩

/-- Nothing has to be lost. -/
theorem found_content (h : Orderly tr) (hn : .link n ∈ tr) : Found tr n (run tr).content :=
  ⟨tr, List.prefix_refl tr, hn, (h.synced hn) ▸ List.prefix_refl _, le_rfl⟩

end Orderly

/-! ### Several appends -/

theorem run_appends (tr : List (Event ν β)) (chunks : List (List β)) :
    run (tr ++ chunks.map .append) =
      { run tr with content := (run tr).content ++ chunks.flatten } := by
  induction chunks generalizing tr with
  | nil => simp
  | cons bs chunks ih =>
    rw [List.map_cons, List.append_cons, ih, run_concat]
    simp [File.step]

theorem link_mem_appends {chunks : List (List β)} :
    .link n ∈ tr ++ chunks.map .append ↔ .link n ∈ tr := by
  simp

theorem Orderly.appends (h : Orderly tr) (hno : ∀ n, .link n ∉ tr) (chunks : List (List β)) :
    Orderly (tr ++ chunks.map .append) := by
  induction chunks generalizing tr with
  | nil => simpa using h
  | cons bs chunks ih =>
    rw [List.map_cons, List.append_cons]
    exact ih (h.append hno bs) fun n hn => hno n (by simpa using hn)

end Durability
