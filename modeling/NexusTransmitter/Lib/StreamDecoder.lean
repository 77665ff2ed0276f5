/-
Incremental decoding of a stream that arrives in pieces.

A `Decoder` looks at the unread input and either needs more of it, takes one
frame off its front, or gives up; every decision it takes must stand when more
input arrives.  `run` takes frames until it can take no more.

* `foldl_feed` — however the input is cut into pieces, feeding the pieces one
  after another gives what one run over all of it gives;
* `Codec` adds an encoder that the decoder inverts exactly; `run_encodeAll_append`
  and `eq_encodeAll_append` say that running the decoder is the same as
  splitting the input into encodings, and `encodeAll_injective` that there is
  only one way to split.
-/
import Mathlib.Data.List.Basic
import Mathlib.Tactic.Common

namespace StreamDecoder

variable {α τ ε : Type*}

/-- The outcome of one look at the unread input; `used` is how much of it the
frame takes. -/
inductive Scan (τ ε : Type*)
  | needMore
  | ready (frame : τ) (used : ℕ)
  | error (e : ε)

/-- A frame decoder whose decisions are stable under more input. -/
structure Decoder (α τ ε : Type*) where
  scan : List α → Scan τ ε
  used_pos : ∀ {s f n}, scan s = .ready f n → 0 < n
  used_le : ∀ {s f n}, scan s = .ready f n → n ≤ s.length
  ready_append : ∀ {s f n} (t), scan s = .ready f n → scan (s ++ t) = .ready f n
  error_append : ∀ {s e} (t), scan s = .error e → scan (s ++ t) = .error e

/-- Where a run stops: short of input, with some of it unread, or at an
error. -/
inductive Stop (α ε : Type*)
  | needMore (unread : List α)
  | error (e : ε)

variable (D : Decoder α τ ε)

/-- Take frames off the input until no more can be taken. -/
def run (s : List α) : List τ × Stop α ε :=
  match h : D.scan s with
  | .needMore => ([], .needMore s)
  | .error e => ([], .error e)
  | .ready f n =>
    have : s.length - n < s.length := by
      have := D.used_pos h
      have := D.used_le h
      omega
    let r := run (s.drop n)
    (f :: r.1, r.2)
  termination_by s.length
  decreasing_by simpa using this

variable {D}

theorem run_of_needMore {s : List α} (h : D.scan s = .needMore) :
    run D s = ([], .needMore s) := by
  rw [run]; split <;> simp_all

theorem run_of_error {s : List α} {e : ε} (h : D.scan s = .error e) :
    run D s = ([], .error e) := by
  rw [run]; split <;> simp_all

theorem run_of_ready {s : List α} {f : τ} {n : ℕ} (h : D.scan s = .ready f n) :
    run D s = (f :: (run D (s.drop n)).1, (run D (s.drop n)).2) := by
  rw [run]; split <;> simp_all

variable (D) in
/-- The run stopped in front of the input `u`: it ran short there, or the
decoder gave up there. -/
def Stop.At (u : List α) : Stop α ε → Prop
  | .needMore v => v = u ∧ D.scan u = .needMore
  | .error e => D.scan u = .error e

/-- Running over `s ++ t` is running over `s`, then over what that left unread
followed by `t`. -/
theorem run_append (s t : List α) :
    run D (s ++ t) =
      match run D s with
      | (fs, .needMore u) => (fs ++ (run D (u ++ t)).1, (run D (u ++ t)).2)
      | (fs, .error e) => (fs, .error e) := by
  -- a frame or an error on `s` stays one on `s ++ t`; only `needMore` may change
  induction s using run.induct D with
  | case1 s hs => rw [run_of_needMore hs]; simp
  | case2 s e hs => rw [run_of_error hs, run_of_error (D.error_append t hs)]
  | case3 s f n hs _ ih =>
    have hdrop : (s ++ t).drop n = s.drop n ++ t := by
      rw [List.drop_append_of_le_length (D.used_le hs)]
    rw [run_of_ready hs, run_of_ready (D.ready_append t hs), hdrop, ih]
    rcases run D (s.drop n) with ⟨fs, u | e⟩ <;> rfl

/-! ### Input in pieces -/

variable (D) in
/-- Feed one piece to a run that may have stopped short of input. -/
def feed (r : List τ × Stop α ε) (piece : List α) : List τ × Stop α ε :=
  match r with
  | (fs, .needMore u) => (fs ++ (run D (u ++ piece)).1, (run D (u ++ piece)).2)
  | (fs, .error e) => (fs, .error e)

theorem feed_run (s piece : List α) : feed D (run D s) piece = run D (s ++ piece) := by
  rw [run_append]
  rfl

/-- Feeding pieces one after another is one run over all of the input. -/
theorem foldl_feed (s : List α) (pieces : List (List α)) :
    pieces.foldl (feed D) (run D s) = run D (s ++ pieces.flatten) := by
  induction pieces generalizing s with
  | nil => simp
  | cons piece pieces ih =>
    rw [List.foldl_cons, feed_run, ih, List.append_assoc, List.flatten_cons]

/-! ### Exact codecs -/

/-- A decoder with the encoder it inverts: on valid frames the decoder takes
exactly the encoding, and it takes nothing else. -/
structure Codec (α τ ε : Type*) extends Decoder α τ ε where
  Valid : τ → Prop
  encode : τ → List α
  scan_encode : ∀ {f} (t), Valid f → scan (encode f ++ t) = .ready f (encode f).length
  of_ready : ∀ {s f n}, scan s = .ready f n → Valid f ∧ s.take n = encode f

namespace Codec

variable (C : Codec α τ ε)

/-- The frames' encodings, one after another. -/
def encodeAll (fs : List τ) : List α := fs.flatMap C.encode

@[simp] theorem encodeAll_nil : C.encodeAll [] = [] := rfl

@[simp] theorem encodeAll_cons (f : τ) (fs : List τ) :
    C.encodeAll (f :: fs) = C.encode f ++ C.encodeAll fs := rfl

@[simp] theorem encodeAll_append (fs gs : List τ) :
    C.encodeAll (fs ++ gs) = C.encodeAll fs ++ C.encodeAll gs :=
  List.flatMap_append

variable {C}

theorem of_scan_ready {s : List α} {f : τ} {n : ℕ} (h : C.scan s = .ready f n) :
    C.Valid f ∧ s = C.encode f ++ s.drop n := by
  obtain ⟨hv, htake⟩ := C.of_ready h
  refine ⟨hv, ?_⟩
  rw [← htake, List.take_append_drop]

/-- A run over encodings followed by `t` gives the frames, then runs over
`t`. -/
theorem run_encodeAll_append {fs : List τ} (h : ∀ f ∈ fs, C.Valid f) (t : List α) :
    run C.toDecoder (C.encodeAll fs ++ t) =
      (fs ++ (run C.toDecoder t).1, (run C.toDecoder t).2) := by
  induction fs with
  | nil => rfl
  | cons f fs ih =>
    have hf := C.scan_encode (C.encodeAll fs ++ t) (h f (by simp))
    rw [encodeAll_cons, List.append_assoc, run_of_ready hf, List.drop_left,
      ih (fun g hg => h g (by simp [hg]))]
    rfl

/-- The frames a run gives are valid, and their encodings are what it took. -/
theorem eq_encodeAll_append {s : List α} {fs : List τ} {stop : Stop α ε}
    (h : run C.toDecoder s = (fs, stop)) :
    (∀ f ∈ fs, C.Valid f) ∧ ∃ u, s = C.encodeAll fs ++ u ∧ stop.At C.toDecoder u := by
  -- along the run: each frame it takes is the encoding it took it from
  induction s using run.induct C.toDecoder generalizing fs with
  | case1 s hs =>
    rw [run_of_needMore hs] at h
    obtain ⟨rfl, rfl⟩ := Prod.mk.inj h
    exact ⟨by simp, s, by simp, rfl, hs⟩
  | case2 s e hs =>
    rw [run_of_error hs] at h
    obtain ⟨rfl, rfl⟩ := Prod.mk.inj h
    exact ⟨by simp, s, by simp, hs⟩
  | case3 s f n hs _ ih =>
    rw [run_of_ready hs] at h
    obtain ⟨rfl, hstop⟩ := Prod.mk.inj h
    obtain ⟨hvalid, u, hu, hend⟩ := ih (Prod.ext rfl hstop)
    obtain ⟨hf, hs'⟩ := of_scan_ready hs
    refine ⟨?_, u, ?_, hend⟩
    · intro g hg
      rcases List.mem_cons.mp hg with rfl | hg
      · exact hf
      · exact hvalid g hg
    · rw [encodeAll_cons, List.append_assoc, ← hu, ← hs']

theorem scan_nil_of_valid {f : τ} (hf : C.Valid f) : C.scan [] = .needMore := by
  -- anything else at the empty input would have to stand before an encoding
  have henc := C.scan_encode [] hf
  rw [List.append_nil] at henc
  cases h : C.scan [] with
  | needMore => rfl
  | error e => exact absurd (C.error_append (C.encode f) h) (by rw [List.nil_append, henc]; simp)
  | ready g n =>
    have h1 := C.used_pos h
    have h2 := C.used_le h
    simp at h2
    omega

theorem run_encodeAll {fs : List τ} (h : ∀ f ∈ fs, C.Valid f) (hnil : C.scan [] = .needMore) :
    run C.toDecoder (C.encodeAll fs) = (fs, .needMore []) := by
  have := run_encodeAll_append h []
  rw [List.append_nil, run_of_needMore hnil, List.append_nil] at this
  exact this

/-- A byte string is split into encodings in at most one way. -/
theorem encodeAll_injective {fs gs : List τ} (hfs : ∀ f ∈ fs, C.Valid f)
    (hgs : ∀ g ∈ gs, C.Valid g) (h : C.encodeAll fs = C.encodeAll gs) : fs = gs := by
  by_cases hnil : C.scan [] = .needMore
  · have h1 := run_encodeAll hfs hnil
    rw [h, run_encodeAll hgs hnil] at h1
    exact (Prod.mk.inj h1).1.symm
  · -- the decoder acts on no input at all, so there is no valid frame
    have hnone : ∀ f, ¬ C.Valid f := fun f hf => hnil (scan_nil_of_valid hf)
    rcases fs with _ | ⟨f, fs⟩
    · rcases gs with _ | ⟨g, gs⟩
      · rfl
      · exact absurd (hgs g (by simp)) (hnone g)
    · exact absurd (hfs f (by simp)) (hnone f)

/-- Frames whose encodings are a front part of others' are a front part of them. -/
theorem prefix_of_encodeAll {fs gs : List τ} (hfs : ∀ f ∈ fs, C.Valid f)
    (hgs : ∀ g ∈ gs, C.Valid g) (h : C.encodeAll fs <+: C.encodeAll gs) : fs <+: gs := by
  obtain ⟨t, ht⟩ := h
  cases fs with
  | nil => exact List.nil_prefix
  | cons f fs =>
    have hnil := scan_nil_of_valid (hfs f List.mem_cons_self)
    have hrun := run_encodeAll_append hfs t
    rw [ht, run_encodeAll hgs hnil] at hrun
    exact ⟨_, (Prod.mk.inj hrun).1.symm⟩

end Codec

end StreamDecoder
