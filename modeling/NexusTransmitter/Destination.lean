/-
Addresses: `transport/Destination`.

`parse` looks for the end of the host from the front when the text begins with a bracket,
and from the back otherwise; `str` writes brackets when the host has a colon in it.
`parse_iff` says which texts `parse` takes. These are more than its contract names
(`Form`), since it does not look at the host.

* `parse_form_iff` — on which texts `parse` does what the contract says;
* `parse_str_iff` — on which texts what `str` prints is parsed back.
-/
import Mathlib.Data.List.GetD
import NexusTransmitter.Lib.Scanning
import NexusTransmitter.Text

open Scanning

namespace Nexus

/-- `std::isdigit`. -/
def isDigit (b : Byte) : Bool := 0x30#8 ≤ b && b ≤ 0x39#8

def colon : Byte := 0x3A#8
def lbracket : Byte := 0x5B#8
def rbracket : Byte := 0x5D#8

/-- A non-empty string of decimal digits. -/
def Digits (p : Bytes) : Prop := p ≠ [] ∧ ∀ b ∈ p, isDigit b

theorem Digits.notMem {p : Bytes} (hp : Digits p) {b : Byte} (hb : isDigit b = false) : b ∉ p := by
  intro hmem
  rw [hp.2 b hmem] at hb
  cases hb

theorem digits_iff {p : Bytes} : Digits p ↔ p ≠ [] ∧ p.all isDigit = true := by
  rw [Digits, List.all_eq_true]

/-- `struct Destination`. -/
structure Destination where
  host : Bytes := str "0.0.0.0"
  port : Bytes := str "5555"
  deriving DecidableEq, Repr

namespace Destination

/-- The host and the port that `parse` finds, before it looks at them. -/
def split (uri : Bytes) : Option (Bytes × Bytes) :=
  if uri.head? = some lbracket then
    match find uri rbracket with
    | none => none
    | some close =>
      if close + 1 ≥ uri.length ∨ uri.getD (close + 1) 0#8 ≠ colon then none
      else some ((uri.drop 1).take (close - 1), uri.drop (close + 2))
  else
    match rfind uri colon with
    | none => some (str "0.0.0.0", uri)
    | some colon => some (uri.take colon, uri.drop (colon + 1))

def parse (uri : Bytes) : Option Destination :=
  match split uri with
  | none => none
  | some (newHost, newPort) =>
    if newHost = [] ∨ newPort = [] then none
    else if newPort.all isDigit then some { host := newHost, port := newPort }
    else none

protected def str (d : Destination) : Bytes :=
  (if colon ∈ d.host then [lbracket] ++ d.host ++ [rbracket] else d.host) ++ [colon] ++ d.port

example : parse (str "[::1]:80") = some { host := str "::1", port := str "80" } := by
  decide +kernel

/-! ### What is taken -/

/-- The texts that `parse` takes, with what it makes of them. -/
inductive Accepts : Bytes → Destination → Prop
  | port {p} (hp : Digits p) : Accepts p { port := p }
  | host {h p} (hh : h ≠ []) (hfront : h.head? ≠ some lbracket) (hp : Digits p) :
      Accepts (h ++ colon :: p) { host := h, port := p }
  | bracketed {h p} (hh : h ≠ []) (hclose : rbracket ∉ h) (hp : Digits p) :
      Accepts (lbracket :: (h ++ rbracket :: colon :: p)) { host := h, port := p }

/-- A host in brackets ends at the first closing one, which a colon must follow. -/
theorem split_of_close {h v : Bytes} (hh : rbracket ∉ h) :
    split (lbracket :: (h ++ rbracket :: v)) =
      if v.head? = some colon then some (h, v.drop 1) else none := by
  have hopen : rbracket ∉ lbracket :: h := by
    rw [List.mem_cons, not_or]
    exact ⟨by decide, hh⟩
  have hfind : find (lbracket :: (h ++ rbracket :: v)) rbracket = some (h.length + 1) :=
    find_split hopen
  rw [split, if_pos (by rfl), hfind]
  cases v with
  | nil =>
    dsimp only
    rw [if_pos (.inl (by simp)), if_neg (by simp)]
  | cons y p =>
    have hget : (lbracket :: (h ++ rbracket :: y :: p)).getD (h.length + 1 + 1) 0#8 = y := by
      rw [List.getD_cons_succ, List.getD_append_right _ _ _ _ (Nat.le_succ _),
        Nat.succ_sub (Nat.le_refl _), Nat.sub_self]
      rfl
    have hlen : ¬ h.length + 1 + 1 ≥ (lbracket :: (h ++ rbracket :: y :: p)).length := by
      simp only [List.length_cons, List.length_append]
      omega
    have hhost : ((lbracket :: (h ++ rbracket :: y :: p)).drop 1).take (h.length + 1 - 1) = h :=
      List.take_left' rfl
    have hport : (lbracket :: (h ++ rbracket :: y :: p)).drop (h.length + 1 + 2) = p := by
      rw [List.drop_succ_cons, ← List.drop_drop, List.drop_left' rfl]
      rfl
    simp only [hget, hhost, hport, hlen, false_or]
    by_cases hy : y = colon
    · subst hy
      simp
    · simp [hy]

theorem split_of_no_close {rest : Bytes} (h : rbracket ∉ rest) :
    split (lbracket :: rest) = none := by
  have hnone : find (lbracket :: rest) rbracket = none := by
    rw [find_eq_none_iff, List.mem_cons, not_or]
    exact ⟨by decide, h⟩
  rw [split, if_pos (by rfl), hnone]

/-- Without a bracket in front the host ends at the last colon. -/
theorem split_of_colon {h p : Bytes} (hfront : (h ++ colon :: p).head? ≠ some lbracket)
    (hp : colon ∉ p) : split (h ++ colon :: p) = some (h, p) := by
  rw [split, if_neg hfront, rfind_split hp]
  dsimp only
  rw [List.take_left' rfl, ← List.drop_drop, List.drop_left' rfl]
  rfl

theorem split_of_no_colon {uri : Bytes} (hfront : uri.head? ≠ some lbracket) (h : colon ∉ uri) :
    split uri = some (str "0.0.0.0", uri) := by
  rw [split, if_neg hfront, rfind_eq_none_iff.mpr h]

/-- The ways in which `parse` finds a host and a port. -/
theorem split_cases {uri h p : Bytes} (hs : split uri = some (h, p)) :
    (uri = lbracket :: (h ++ rbracket :: colon :: p) ∧ rbracket ∉ h) ∨
    (uri.head? ≠ some lbracket ∧ uri = h ++ colon :: p) ∨
    (h = str "0.0.0.0" ∧ p = uri) := by
  by_cases hfront : uri.head? = some lbracket
  · obtain ⟨rest, rfl⟩ := List.head?_eq_some_iff.mp hfront
    by_cases hclose : rbracket ∈ rest
    · obtain ⟨u, v, rfl, hu⟩ := List.eq_append_cons_of_mem hclose
      rw [split_of_close hu] at hs
      split at hs
      · rename_i hcolon
        obtain ⟨p', rfl⟩ := List.head?_eq_some_iff.mp hcolon
        obtain ⟨rfl, rfl⟩ := Prod.mk.inj (Option.some.inj hs)
        exact .inl ⟨rfl, hu⟩
      · cases hs
    · rw [split_of_no_close hclose] at hs
      cases hs
  · by_cases hcolon : colon ∈ uri
    · -- the last colon is the first one from behind
      obtain ⟨n, hn⟩ := Option.ne_none_iff_exists'.mp fun hnone => rfind_eq_none_iff.mp hnone hcolon
      obtain ⟨u, v, rfl, hv, -⟩ := rfind_eq_some_iff.mp hn
      rw [split_of_colon hfront hv] at hs
      obtain ⟨rfl, rfl⟩ := Prod.mk.inj (Option.some.inj hs)
      exact .inr (.inl ⟨hfront, rfl⟩)
    · rw [split_of_no_colon hfront hcolon] at hs
      obtain ⟨rfl, rfl⟩ := Prod.mk.inj (Option.some.inj hs)
      exact .inr (.inr ⟨rfl, rfl⟩)

theorem parse_of_split {uri h p : Bytes} (hs : split uri = some (h, p)) {d : Destination} :
    parse uri = some d ↔ h ≠ [] ∧ Digits p ∧ d = { host := h, port := p } := by
  rw [parse, hs, digits_iff]
  dsimp only
  split
  · rename_i hempty
    constructor
    · intro hd
      cases hd
    · rintro ⟨hh, ⟨hp, -⟩, -⟩
      exact absurd hempty (not_or.mpr ⟨hh, hp⟩)
  · rename_i hempty
    obtain ⟨hh, hp⟩ := not_or.mp hempty
    split
    · rename_i hall
      rw [Option.some.injEq]
      exact ⟨fun hd => ⟨hh, ⟨hp, hall⟩, hd.symm⟩, fun hd => hd.2.2.symm⟩
    · rename_i hall
      constructor
      · intro hd
        cases hd
      · rintro ⟨-, ⟨-, hd⟩, -⟩
        exact absurd hd hall

/-- `parse` takes exactly these texts. -/
theorem parse_iff (uri : Bytes) (d : Destination) : parse uri = some d ↔ Accepts uri d := by
  constructor
  · intro h
    cases hs : split uri with
    | none =>
      rw [parse, hs] at h
      cases h
    | some hp =>
      obtain ⟨hh, hdigits, rfl⟩ := (parse_of_split hs).mp h
      rcases split_cases hs with ⟨huri, hclose⟩ | ⟨hfront, huri⟩ | ⟨hhost, huri⟩
      · rw [huri]
        exact .bracketed hh hclose hdigits
      · rw [huri] at hfront ⊢
        refine .host hh ?_ hdigits
        rwa [List.head?_append_of_ne_nil _ hh] at hfront
      · rw [hhost, ← huri]
        exact .port hdigits
  · intro h
    cases h with
    | port hp =>
      have hfront : uri.head? ≠ some lbracket := fun hhead =>
        hp.notMem (by decide) (List.mem_of_mem_head? hhead)
      rw [parse_of_split (split_of_no_colon hfront (hp.notMem (by decide)))]
      exact ⟨by decide, hp, rfl⟩
    | @host h p hh hfront hp =>
      have hhead : (h ++ colon :: p).head? = h.head? := List.head?_append_of_ne_nil _ hh
      rw [← hhead] at hfront
      rw [parse_of_split (split_of_colon hfront (hp.notMem (by decide)))]
      exact ⟨hh, hp, rfl⟩
    | @bracketed h p hh hclose hp =>
      have hs := split_of_close (v := colon :: p) hclose
      rw [if_pos (by rfl)] at hs
      rw [parse_of_split hs]
      exact ⟨hh, hp, rfl⟩

/-! ### The contract -/

/-- The forms of an address that the contract names. -/
inductive Form : Bytes → Destination → Prop
  | port {p} (hp : Digits p) : Form p { port := p }
  | host {h p} (hh : h ≠ []) (hfree : colon ∉ h ∧ lbracket ∉ h ∧ rbracket ∉ h) (hp : Digits p) :
      Form (h ++ colon :: p) { host := h, port := p }
  | bracketed {h p} (hh : h ≠ []) (hfree : lbracket ∉ h ∧ rbracket ∉ h) (hp : Digits p) :
      Form (lbracket :: (h ++ rbracket :: colon :: p)) { host := h, port := p }

theorem head_ne_of_notMem {h : Bytes} {b : Byte} (hb : b ∉ h) : h.head? ≠ some b :=
  fun hhead => hb (List.mem_of_mem_head? hhead)

theorem Form.accepts {uri : Bytes} {d : Destination} (h : Form uri d) : Accepts uri d := by
  cases h with
  | port hp => exact .port hp
  | host hh hfree hp => exact .host hh (head_ne_of_notMem hfree.2.1) hp
  | bracketed hh hfree hp => exact .bracketed hh hfree.2 hp

/-- A colon or a bracket where the host should be: before the last colon of a text that
does not begin with a bracket, or in the brackets, with nothing but digits for a port. -/
def Stray (uri : Bytes) : Prop :=
  ∃ h p, Digits p ∧
    ((uri = h ++ colon :: p ∧ h.head? ≠ some lbracket ∧
        (colon ∈ h ∨ lbracket ∈ h ∨ rbracket ∈ h)) ∨
      (uri = lbracket :: (h ++ rbracket :: colon :: p) ∧ rbracket ∉ h ∧ lbracket ∈ h))

theorem Accepts.form {uri : Bytes} {d : Destination} (h : Accepts uri d) (hno : ¬ Stray uri) :
    Form uri d := by
  cases h with
  | port hp => exact .port hp
  | @host h p hh hfront hp =>
    have hfree : ¬ (colon ∈ h ∨ lbracket ∈ h ∨ rbracket ∈ h) := fun hmem =>
      hno ⟨h, p, hp, .inl ⟨rfl, hfront, hmem⟩⟩
    push Not at hfree
    exact .host hh hfree hp
  | @bracketed h p hh hclose hp =>
    have hfree : lbracket ∉ h := fun hmem => hno ⟨h, p, hp, .inr ⟨rfl, hclose, hmem⟩⟩
    exact .bracketed hh ⟨hfree, hclose⟩ hp

theorem Form.host_free {uri : Bytes} {d : Destination} (h : Form uri d) :
    Digits uri ∨ (colon ∉ d.host ∧ lbracket ∉ d.host ∧ rbracket ∉ d.host) ∨
      (uri.head? = some lbracket ∧ lbracket ∉ d.host) := by
  cases h with
  | port hp => exact .inl hp
  | host hh hfree hp => exact .inr (.inl hfree)
  | bracketed hh hfree hp => exact .inr (.inr ⟨rfl, hfree.1⟩)

/-- A stray colon or bracket gets into the host. -/
theorem Stray.not_form {uri : Bytes} (h : Stray uri) : ∃ d, Accepts uri d ∧ ¬ Form uri d := by
  obtain ⟨h, p, hp, ⟨rfl, hfront, hmem⟩ | ⟨rfl, hclose, hmem⟩⟩ := h
  · have hh : h ≠ [] := by
      rintro rfl
      simp at hmem
    have hhead : (h ++ colon :: p).head? = h.head? := List.head?_append_of_ne_nil _ hh
    refine ⟨{ host := h, port := p }, .host hh hfront hp, fun hform => ?_⟩
    rcases hform.host_free with hdigits | ⟨hcolon, hopen, hclose⟩ | ⟨hbracket, -⟩
    · exact hdigits.notMem (by decide) (List.mem_append_right _ List.mem_cons_self)
    · rcases hmem with hmem | hmem | hmem
      · exact hcolon hmem
      · exact hopen hmem
      · exact hclose hmem
    · exact hfront (hhead.symm.trans hbracket)
  · have hh : h ≠ [] := List.ne_nil_of_mem hmem
    refine ⟨{ host := h, port := p }, .bracketed hh hclose hp, fun hform => ?_⟩
    rcases hform.host_free with hdigits | ⟨-, hopen, -⟩ | ⟨-, hopen⟩
    · exact hdigits.notMem (by decide) List.mem_cons_self
    · exact hopen hmem
    · exact hopen hmem

theorem Form.not_stray {uri : Bytes} {d : Destination} (h : Form uri d) : ¬ Stray uri := by
  intro hstray
  obtain ⟨d', haccepts, hno⟩ := hstray.not_form
  have hd := (parse_iff uri d).mpr h.accepts
  rw [(parse_iff uri d').mpr haccepts] at hd
  cases hd
  exact hno h

/-- **What `parse` takes**: for every text, it takes exactly the forms of the contract, if
and only if there is no stray colon or bracket in it. -/
theorem parse_form_iff (uri : Bytes) :
    (∀ d, parse uri = some d ↔ Form uri d) ↔ ¬ Stray uri := by
  constructor
  · intro hall hstray
    obtain ⟨d, haccepts, hno⟩ := hstray.not_form
    exact hno ((hall d).mp ((parse_iff uri d).mpr haccepts))
  · intro hno d
    rw [parse_iff]
    exact ⟨fun h => h.form hno, fun h => h.accepts⟩

/-- An IPv6 address without brackets is taken, with its last group for a port. -/
theorem parse_bare_ipv6 : ¬ ∀ (uri : Bytes) (d : Destination), parse uri = some d ↔ Form uri d := by
  intro hall
  have hform :=
    (hall (str "fe80::1") { host := str "fe80:", port := str "1" }).mp (by decide +kernel)
  rcases hform.host_free with hdigits | ⟨hcolon, -, -⟩ | ⟨hopen, -⟩
  · exact hdigits.notMem (b := colon) (by decide) (by decide +kernel)
  · exact hcolon (by decide +kernel)
  · exact absurd hopen (by decide +kernel)

/-! ### Round trips -/

/-- A host that is written in another form than it was read in: with a colon and a closing
bracket it gets brackets of its own, and one that begins with a bracket and has no colon
gets none. -/
def Unprintable (uri : Bytes) : Prop :=
  ∃ h p, Digits p ∧
    ((uri = h ++ colon :: p ∧ h.head? ≠ some lbracket ∧ colon ∈ h ∧ rbracket ∈ h) ∨
      (uri = lbracket :: (h ++ rbracket :: colon :: p) ∧ rbracket ∉ h ∧
        h.head? = some lbracket ∧ colon ∉ h))

theorem Accepts.shape {uri : Bytes} {d : Destination} (h : Accepts uri d) :
    Digits uri ∨ (uri = d.host ++ colon :: d.port ∧ d.host.head? ≠ some lbracket) ∨
      (uri = lbracket :: (d.host ++ rbracket :: colon :: d.port) ∧ rbracket ∉ d.host) := by
  cases h with
  | port hp => exact .inl hp
  | host hh hfront hp => exact .inr (.inl ⟨rfl, hfront⟩)
  | bracketed hh hclose hp => exact .inr (.inr ⟨rfl, hclose⟩)

/-- What is printed with brackets is read back when no closing one is in the host. -/
theorem parse_str_of_colon {h p : Bytes} (hp : Digits p) (hcolon : colon ∈ h) :
    parse ({ host := h, port := p } : Destination).str = some { host := h, port := p } ↔
      rbracket ∉ h := by
  have hh : h ≠ [] := List.ne_nil_of_mem hcolon
  have hstr : ({ host := h, port := p } : Destination).str =
      lbracket :: (h ++ rbracket :: colon :: p) := by
    rw [Destination.str, if_pos hcolon]
    simp
  rw [hstr, parse_iff]
  constructor
  · intro haccepts
    rcases haccepts.shape with hdigits | ⟨huri, -⟩ | ⟨-, hclose⟩
    · exact absurd List.mem_cons_self (hdigits.notMem (b := lbracket) (by decide))
    · have hlen := congrArg List.length huri
      simp only [List.length_cons, List.length_append] at hlen
      omega
    · exact hclose
  · intro hclose
    exact .bracketed hh hclose hp

/-- What is printed without brackets is read back when it does not begin with one. -/
theorem parse_str_of_no_colon {h p : Bytes} (hp : Digits p) (hh : h ≠ []) (hcolon : colon ∉ h) :
    parse ({ host := h, port := p } : Destination).str = some { host := h, port := p } ↔
      h.head? ≠ some lbracket := by
  have hstr : ({ host := h, port := p } : Destination).str = h ++ colon :: p := by
    rw [Destination.str, if_neg hcolon]
    simp
  rw [hstr, parse_iff]
  constructor
  · intro haccepts
    rcases haccepts.shape with hdigits | ⟨-, hfront⟩ | ⟨huri, -⟩
    · have hmem : colon ∈ h ++ colon :: p := List.mem_append_right _ List.mem_cons_self
      exact absurd hmem (hdigits.notMem (by decide))
    · exact hfront
    · have hlen := congrArg List.length huri
      simp only [List.length_cons, List.length_append] at hlen
      omega
  · intro hfront
    exact .host hh hfront hp

theorem Accepts.parse_str {uri : Bytes} {d : Destination} (h : Accepts uri d)
    (hno : ¬ Unprintable uri) : parse d.str = some d := by
  cases h with
  | port hp => exact (parse_str_of_no_colon hp (by decide) (by decide +kernel)).mpr (by decide)
  | @host h p hh hfront hp =>
    by_cases hcolon : colon ∈ h
    · refine (parse_str_of_colon hp hcolon).mpr fun hclose => ?_
      exact hno ⟨h, p, hp, .inl ⟨rfl, hfront, hcolon, hclose⟩⟩
    · exact (parse_str_of_no_colon hp hh hcolon).mpr hfront
  | @bracketed h p hh hclose hp =>
    by_cases hcolon : colon ∈ h
    · exact (parse_str_of_colon hp hcolon).mpr hclose
    · refine (parse_str_of_no_colon hp hh hcolon).mpr fun hfront => ?_
      exact hno ⟨h, p, hp, .inr ⟨rfl, hclose, hfront, hcolon⟩⟩

/-- What is printed of an address that `parse` has taken is parsed to the same address, and
prints to itself. -/
def RoundTrips (uri : Bytes) : Prop :=
  ∀ d, parse uri = some d →
    parse d.str = some d ∧ (parse d.str).map Destination.str = some d.str

theorem roundTrips_iff {uri : Bytes} :
    RoundTrips uri ↔ ∀ d, Accepts uri d → parse d.str = some d := by
  constructor
  · intro h d haccepts
    exact (h d ((parse_iff uri d).mpr haccepts)).1
  · intro h d hd
    have hback := h d ((parse_iff uri d).mp hd)
    exact ⟨hback, by rw [hback, Option.map_some]⟩

theorem Unprintable.stray {uri : Bytes} (h : Unprintable uri) : Stray uri := by
  obtain ⟨h, p, hp, ⟨huri, hfront, hcolon, -⟩ | ⟨huri, hclose, hfront, -⟩⟩ := h
  · exact ⟨h, p, hp, .inl ⟨huri, hfront, .inl hcolon⟩⟩
  · exact ⟨h, p, hp, .inr ⟨huri, hclose, List.mem_of_mem_head? hfront⟩⟩

/-- On the forms of the contract the two always agree. -/
theorem Form.roundTrips {uri : Bytes} {d : Destination} (h : Form uri d) : RoundTrips uri :=
  roundTrips_iff.mpr fun _ haccepts => haccepts.parse_str fun hbad => h.not_stray hbad.stray

/-- **Round trips through `str`**: for every text, what `str` prints of the address is
parsed to the same address, if and only if brackets in the host do not mislead one of the
two. On the forms of the contract they never do. -/
theorem parse_str_iff (uri : Bytes) :
    (RoundTrips uri ↔ ¬ Unprintable uri) ∧ ∀ d, Form uri d → RoundTrips uri := by
  refine ⟨?_, fun d hform => hform.roundTrips⟩
  rw [roundTrips_iff]
  constructor
  · intro hall
    rintro ⟨h, p, hp, ⟨rfl, hfront, hcolon, hclose⟩ | ⟨rfl, hclose, hfront, hcolon⟩⟩
    · have hback := hall _ (.host (List.ne_nil_of_mem hcolon) hfront hp)
      exact (parse_str_of_colon hp hcolon).mp hback hclose
    · have hh : h ≠ [] := by
        rintro rfl
        cases hfront
      have hback := hall _ (.bracketed hh hclose hp)
      exact (parse_str_of_no_colon hp hh hcolon).mp hback hfront
  · intro hno d haccepts
    exact haccepts.parse_str hno

/-- A host that begins with a bracket of its own is printed without the outer ones. -/
theorem str_inner_bracket : ¬ ∀ uri : Bytes, RoundTrips uri := by
  intro hall
  have hback := (hall (str "[[a]:5") { host := str "[a", port := str "5" } (by decide +kernel)).1
  exact absurd hback (by decide +kernel)

end Destination

end Nexus
