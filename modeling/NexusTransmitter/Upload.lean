/-
What an upload is, apart from how the server takes it in.

A byte stream is read as frames, and one left-to-right fold over the frames
(`Upload.frame`) says what has become of the upload: it has not started, its body
is coming in, or it has its verdict. `Verdict` is the grammar of uploads: one
HELLO, DATA frames of the declared total size, one END with the right checksum,
and a status for every first departure from that.

* `Upload.ofStream_answered_iff` — the fold gives a verdict exactly when the
  grammar does, and the same one.
-/
import NexusTransmitter.FrameParser

open StreamDecoder

namespace Nexus

/-- The payloads of the DATA frames, one after another. -/
def payloads (fs : List Frame) : Bytes :=
  fs.flatMap fun f => if f.type = .data then f.data else []

@[simp] theorem payloads_append (fs gs : List Frame) :
    payloads (fs ++ gs) = payloads fs ++ payloads gs := List.flatMap_append

/-- What an upload has come to. -/
inductive Upload
  | start
  | body (size : ℕ) (payload : Bytes)
  | answered (status : Status) (file : Option Bytes)
  deriving DecidableEq, Repr

namespace Upload

/-- One more frame. -/
def frame : Upload → Frame → Upload
  | start, f =>
    match f.type, parseHello f.data with
    | .hello, some hello => body hello.fileSize []
    | _, _ => answered .protocolError none
  | body size payload, f =>
    match f.type with
    | .data =>
      if size < payload.length + f.data.length then answered .sizeMismatch none
      else body size (payload ++ f.data)
    | .end =>
      match parseEnd f.data with
      | none => answered .protocolError none
      | some c =>
        if payload.length ≠ size then answered .sizeMismatch none
        else if c ≠ crc32 payload then answered .crcMismatch none
        else answered .ok (some payload)
    | _ => answered .protocolError none
  | answered status file, _ => answered status file

/-- The end of the frames. -/
def stop : Upload → Stop Byte Bytes → Upload
  | answered status file, _ => answered status file
  | _, .error _ => answered .protocolError none
  | u, .needMore _ => u

/-- What a byte stream comes to. -/
def ofStream (stream : Bytes) : Upload :=
  ((run frameDecoder stream).1.foldl frame start).stop (run frameDecoder stream).2

/-- There is a verdict. -/
def Answered : Upload → Prop
  | answered _ _ => True
  | _ => False

/-! ### The fold -/

@[simp] theorem foldl_answered (status : Status) (file : Option Bytes) (fs : List Frame) :
    fs.foldl frame (answered status file) = answered status file := by
  induction fs with
  | nil => rfl
  | cons f fs ih => exact ih

@[simp] theorem stop_answered (status : Status) (file : Option Bytes) (e : Stop Byte Bytes) :
    (answered status file).stop e = answered status file := rfl

/-- A verdict is reached at one frame, the first that gives one. -/
theorem foldl_answered_iff {u : Upload} (hu : ¬ u.Answered) {fs : List Frame} {status : Status}
    {file : Option Bytes} :
    fs.foldl frame u = answered status file ↔
      ∃ pre f post, fs = pre ++ f :: post ∧ ¬ (pre.foldl frame u).Answered ∧
        (pre.foldl frame u).frame f = answered status file := by
  constructor
  · intro h
    induction fs generalizing u with
    | nil =>
      rw [List.foldl_nil] at h
      exact absurd (by rw [h]; trivial) hu
    | cons f fs ih =>
      by_cases hf : (u.frame f).Answered
      · refine ⟨[], f, fs, rfl, hu, ?_⟩
        cases heq : u.frame f with
        | start => rw [heq] at hf; exact hf.elim
        | body size payload => rw [heq] at hf; exact hf.elim
        | answered status' file' =>
          rw [List.foldl_cons, heq, foldl_answered] at h
          rw [List.foldl_nil, heq, h]
      · obtain ⟨pre, g, post, rfl, hpre, hg⟩ := ih hf h
        exact ⟨f :: pre, g, post, rfl, hpre, hg⟩
  · rintro ⟨pre, f, post, rfl, -, hf⟩
    rw [List.foldl_append, List.foldl_cons, hf, foldl_answered]

/-- A HELLO that declares `size`, and DATA frames with no more than that. -/
def Opening (fs : List Frame) (size : ℕ) (payload : Bytes) : Prop :=
  ∃ hello ds name, fs = hello :: ds ∧ hello.type = .hello ∧
    parseHello hello.data = some { fileSize := size, name := name } ∧
    (∀ d ∈ ds, d.type = .data) ∧ payload = payloads ds ∧ payload.length ≤ size

theorem Opening.length_le {fs : List Frame} {size : ℕ} {payload : Bytes}
    (h : Opening fs size payload) : payload.length ≤ size := by
  obtain ⟨-, -, -, -, -, -, -, -, hle⟩ := h
  exact hle

theorem frame_ne_start (u : Upload) (f : Frame) : u.frame f ≠ start := by
  unfold frame
  split
  · split <;> simp
  · split
    · split <;> simp
    · split
      · simp
      · split
        · simp
        · split <;> simp
    · simp
  · simp

theorem foldl_eq_start {fs : List Frame} : fs.foldl frame start = start ↔ fs = [] := by
  constructor
  · intro h
    rcases List.eq_nil_or_concat fs with rfl | ⟨fs, f, rfl⟩
    · rfl
    · rw [List.concat_eq_append, List.foldl_append] at h
      exact absurd h (frame_ne_start _ f)
  · rintro rfl
    rfl

theorem frame_start {f : Frame} {size : ℕ} {payload : Bytes} :
    start.frame f = body size payload ↔
      f.type = .hello ∧ payload = [] ∧
        ∃ name, parseHello f.data = some { fileSize := size, name := name } := by
  rw [frame]
  cases htype : f.type <;> cases hhello : parseHello f.data with
  | none => simp
  | some hello =>
    obtain ⟨size', name⟩ := hello
    simp [eq_comm, and_comm]

theorem frame_body {f : Frame} {size size' : ℕ} {payload payload' : Bytes} :
    (body size payload).frame f = body size' payload' ↔
      f.type = .data ∧ size' = size ∧ payload' = payload ++ f.data ∧
        payload.length + f.data.length ≤ size := by
  cases htype : f.type with
  | data =>
    simp only [frame, htype, true_and]
    split
    · rename_i hlt
      exact iff_of_false (by simp) fun h => by omega
    · rename_i hle
      constructor
      · intro h
        cases h
        exact ⟨rfl, rfl, by omega⟩
      · rintro ⟨rfl, rfl, -⟩
        rfl
  | «end» =>
    refine iff_of_false ?_ (by simp)
    simp only [frame, htype]
    split
    · simp
    · split
      · simp
      · split <;> simp
  | hello => simp [frame, htype]
  | ack => simp [frame, htype]

theorem foldl_body {ds : List Frame} {size size' : ℕ} {payload payload' : Bytes} :
    ds.foldl frame (body size payload) = body size' payload' →
      (∀ d ∈ ds, d.type = .data) ∧ size' = size ∧ payload' = payload ++ payloads ds ∧
        (ds ≠ [] → payload'.length ≤ size) := by
  induction ds generalizing payload with
  | nil =>
    intro h
    cases h
    simp [payloads]
  | cons d ds ih =>
    intro h
    rw [List.foldl_cons] at h
    cases hd : (body size payload).frame d with
    | start => exact absurd hd (frame_ne_start _ _)
    | answered status file => rw [hd, foldl_answered] at h; cases h
    | body size₁ payload₁ =>
      obtain ⟨htype, rfl, rfl, hle⟩ := frame_body.mp hd
      rw [hd] at h
      obtain ⟨hds, rfl, rfl, hle'⟩ := ih h
      refine ⟨?_, rfl, by simp [payloads, htype], fun _ => ?_⟩
      · intro f hf
        rcases List.mem_cons.mp hf with rfl | hf
        · exact htype
        · exact hds f hf
      · by_cases hnil : ds = []
        · subst hnil
          simpa [payloads] using hle
        · exact hle' hnil

theorem foldl_of_data {ds : List Frame} {size : ℕ} {payload : Bytes}
    (hds : ∀ d ∈ ds, d.type = .data) (hle : (payload ++ payloads ds).length ≤ size) :
    ds.foldl frame (body size payload) = body size (payload ++ payloads ds) := by
  induction ds generalizing payload with
  | nil => simp [payloads]
  | cons d ds ih =>
    have hd := hds d (by simp)
    have hsplit : payload ++ payloads (d :: ds) = payload ++ d.data ++ payloads ds := by
      simp [payloads, hd]
    rw [hsplit] at hle ⊢
    have hstep : (body size payload).frame d = body size (payload ++ d.data) := by
      refine frame_body.mpr ⟨hd, rfl, rfl, ?_⟩
      simp only [List.length_append] at hle
      omega
    rw [List.foldl_cons, hstep]
    exact ih (fun e he => hds e (by simp [he])) hle

/-- The body is coming in exactly after an opening. -/
theorem foldl_eq_body {fs : List Frame} {size : ℕ} {payload : Bytes} :
    fs.foldl frame start = body size payload ↔ Opening fs size payload := by
  constructor
  · intro h
    cases fs with
    | nil => cases h
    | cons hello ds =>
      rw [List.foldl_cons] at h
      cases hfirst : start.frame hello with
      | start => exact absurd hfirst (frame_ne_start _ _)
      | answered status file => rw [hfirst, foldl_answered] at h; cases h
      | body size₁ payload₁ =>
        obtain ⟨htype, rfl, name, hhello⟩ := frame_start.mp hfirst
        rw [hfirst] at h
        obtain ⟨hds, rfl, hpay, hle⟩ := foldl_body h
        rw [List.nil_append] at hpay
        refine ⟨hello, ds, name, rfl, htype, hhello, hds, hpay, ?_⟩
        by_cases hnil : ds = []
        · subst hnil
          rw [hpay]
          exact Nat.zero_le _
        · exact hle hnil
  · rintro ⟨hello, ds, name, rfl, htype, hhello, hds, rfl, hle⟩
    have hfirst : start.frame hello = body size [] := frame_start.mpr ⟨htype, rfl, name, hhello⟩
    rw [List.foldl_cons, hfirst]
    have hle' : ([] ++ payloads ds).length ≤ size := hle
    exact foldl_of_data hds hle'

/-! ### The grammar -/

open FrameParser (encodeFrames)

/-- The frames have payloads a frame can have. -/
def Valid (fs : List Frame) : Prop := ∀ f ∈ fs, f.data.length ≤ MAX_PAYLOAD

/-- The verdict on a byte stream: its status, and with Ok the file. Whatever
follows the frame that decides it does not matter. -/
inductive Verdict (stream : Bytes) : Status → Option Bytes → Prop
  /-- A HELLO, DATA frames of the declared size, and an END with their CRC. -/
  | ok {fs size payload f rest} (hopen : Opening fs size payload)
      (hstream : stream = encodeFrames (fs ++ [f]) ++ rest) (hvalid : Valid (fs ++ [f]))
      (htype : f.type = .end) (hsize : payload.length = size)
      (hcrc : parseEnd f.data = some (crc32 payload)) : Verdict stream .ok (some payload)
  /-- A DATA frame that exceeds the declared size. -/
  | tooMuch {fs size payload f rest} (hopen : Opening fs size payload)
      (hstream : stream = encodeFrames (fs ++ [f]) ++ rest) (hvalid : Valid (fs ++ [f]))
      (htype : f.type = .data) (hsize : size < payload.length + f.data.length) :
      Verdict stream .sizeMismatch none
  /-- An END before the declared size is reached. -/
  | short {fs size payload f rest c} (hopen : Opening fs size payload)
      (hstream : stream = encodeFrames (fs ++ [f]) ++ rest) (hvalid : Valid (fs ++ [f]))
      (htype : f.type = .end) (hend : parseEnd f.data = some c) (hsize : payload.length < size) :
      Verdict stream .sizeMismatch none
  /-- An END after the declared size with another CRC. -/
  | badCrc {fs size payload f rest c} (hopen : Opening fs size payload)
      (hstream : stream = encodeFrames (fs ++ [f]) ++ rest) (hvalid : Valid (fs ++ [f]))
      (htype : f.type = .end) (hsize : payload.length = size) (hend : parseEnd f.data = some c)
      (hcrc : c ≠ crc32 payload) : Verdict stream .crcMismatch none
  /-- A first frame that is no valid HELLO. -/
  | badFirst {f rest} (hstream : stream = encodeFrames [f] ++ rest) (hvalid : Valid [f])
      (hfirst : f.type ≠ .hello ∨ parseHello f.data = none) : Verdict stream .protocolError none
  /-- A second HELLO, an ACK, or a malformed END. -/
  | badNext {fs size payload f rest} (hopen : Opening fs size payload)
      (hstream : stream = encodeFrames (fs ++ [f]) ++ rest) (hvalid : Valid (fs ++ [f]))
      (hnext : f.type = .hello ∨ f.type = .ack ∨ (f.type = .end ∧ parseEnd f.data = none)) :
      Verdict stream .protocolError none
  /-- Bytes that are no frame. -/
  | unparsable {fs rest e} (hopen : fs = [] ∨ ∃ size payload, Opening fs size payload)
      (hstream : stream = encodeFrames fs ++ rest) (hvalid : Valid fs)
      (herror : parseAt rest = .error e) : Verdict stream .protocolError none

theorem frame_start_answered {f : Frame} {status : Status} {file : Option Bytes} :
    start.frame f = answered status file ↔
      (f.type ≠ .hello ∨ parseHello f.data = none) ∧ status = .protocolError ∧ file = none := by
  rw [frame]
  cases htype : f.type <;> cases hhello : parseHello f.data <;> simp [eq_comm]

/-- The table of verdicts while the body comes in. -/
theorem frame_body_answered {f : Frame} {size : ℕ} {payload : Bytes} {status : Status}
    {file : Option Bytes} :
    (body size payload).frame f = answered status file ↔
      (f.type = .end ∧ parseEnd f.data = some (crc32 payload) ∧ payload.length = size ∧
        status = .ok ∧ file = some payload) ∨
      (f.type = .data ∧ size < payload.length + f.data.length ∧
        status = .sizeMismatch ∧ file = none) ∨
      (∃ c, f.type = .end ∧ parseEnd f.data = some c ∧ payload.length ≠ size ∧
        status = .sizeMismatch ∧ file = none) ∨
      (∃ c, f.type = .end ∧ parseEnd f.data = some c ∧ payload.length = size ∧
        c ≠ crc32 payload ∧ status = .crcMismatch ∧ file = none) ∨
      ((f.type = .hello ∨ f.type = .ack ∨ (f.type = .end ∧ parseEnd f.data = none)) ∧
        status = .protocolError ∧ file = none) := by
  cases htype : f.type with
  | hello => simp [frame, htype, eq_comm]
  | ack => simp [frame, htype, eq_comm]
  | data =>
    by_cases hlt : size < payload.length + f.data.length
    · simp [frame, htype, hlt, eq_comm]
    · simp [frame, htype, hlt]
  | «end» =>
    cases hend : parseEnd f.data with
    | none => simp [frame, htype, hend, eq_comm]
    | some c =>
      by_cases hsize : payload.length = size
      · by_cases hcrc : c = crc32 payload
        · simp [frame, htype, hend, hsize, hcrc, eq_comm]
        · simp [frame, htype, hend, hsize, hcrc, eq_comm]
      · simp [frame, htype, hend, hsize, eq_comm]

/-! ### Streams of frames -/

theorem run_encodeFrames {fs : List Frame} (hvalid : Valid fs) (rest : Bytes) :
    run frameDecoder (encodeFrames fs ++ rest) =
      (fs ++ (run frameDecoder rest).1, (run frameDecoder rest).2) :=
  Codec.run_encodeAll_append (C := frameCodec) hvalid rest

/-- A stream is its frames, and what the decoder stopped in front of. -/
theorem eq_encodeFrames (stream : Bytes) :
    Valid (run frameDecoder stream).1 ∧
      ∃ u, stream = encodeFrames (run frameDecoder stream).1 ++ u ∧
        Stop.At frameDecoder u (run frameDecoder stream).2 :=
  Codec.eq_encodeAll_append (C := frameCodec) (s := stream) (Prod.mk.eta (p := run _ _)).symm

/-- Frames that give a verdict give it whatever follows. -/
theorem ofStream_of_answered {fs : List Frame} (hvalid : Valid fs) {status : Status}
    {file : Option Bytes} (h : fs.foldl frame start = answered status file) (rest : Bytes) :
    ofStream (encodeFrames fs ++ rest) = answered status file := by
  rw [ofStream, run_encodeFrames hvalid, List.foldl_append, h, foldl_answered, stop_answered]

/-- Bytes that are no frame, before any verdict. -/
theorem ofStream_of_error {fs : List Frame} (hvalid : Valid fs)
    (h : ¬ (fs.foldl frame start).Answered) {rest e : Bytes} (he : parseAt rest = .error e) :
    ofStream (encodeFrames fs ++ rest) = answered .protocolError none := by
  have herr : run frameDecoder rest = ([], .error e) := run_of_error he
  rw [ofStream, run_encodeFrames hvalid, herr, List.append_nil]
  cases hfold : fs.foldl frame start with
  | start => rfl
  | body size payload => rfl
  | answered status file => rw [hfold] at h; exact absurd trivial h

/-- Frames with no verdict, and too few bytes for another frame. -/
theorem ofStream_of_needMore {fs : List Frame} (hvalid : Valid fs)
    {rest : Bytes} (h : parseAt rest = .needMore) :
    ofStream (encodeFrames fs ++ rest) = fs.foldl frame start := by
  have hmore : run frameDecoder rest = ([], .needMore rest) := run_of_needMore h
  rw [ofStream, run_encodeFrames hvalid, hmore, List.append_nil]
  cases fs.foldl frame start <;> rfl

theorem not_answered_of_opening {fs : List Frame}
    (h : fs = [] ∨ ∃ size payload, Opening fs size payload) :
    ¬ (fs.foldl frame start).Answered := by
  rcases h with rfl | ⟨size, payload, h⟩
  · exact id
  · rw [foldl_eq_body.mpr h]
    exact id

theorem opening_of_not_answered {fs : List Frame} (h : ¬ (fs.foldl frame start).Answered) :
    fs = [] ∨ ∃ size payload, Opening fs size payload := by
  cases hfold : fs.foldl frame start with
  | start => exact .inl (foldl_eq_start.mp hfold)
  | body size payload => exact .inr ⟨size, payload, foldl_eq_body.mp hfold⟩
  | answered status file => rw [hfold] at h; exact absurd trivial h

/-- A verdict of the grammar is one of the fold. -/
theorem ofStream_of_verdict {stream : Bytes} {status : Status} {file : Option Bytes}
    (h : Verdict stream status file) : ofStream stream = answered status file := by
  have hlast : ∀ {fs size payload f rest status file}, Opening fs size payload →
      stream = encodeFrames (fs ++ [f]) ++ rest → Valid (fs ++ [f]) →
      (body size payload).frame f = answered status file →
      ofStream stream = answered status file :=
    fun {fs size payload f rest _ _} hopen hs hv hf => by
      rw [hs]
      refine ofStream_of_answered hv ?_ rest
      rw [List.foldl_append, foldl_eq_body.mpr hopen]
      exact hf
  cases h with
  | ok hopen hs hv htype hsize hcrc =>
    exact hlast hopen hs hv (frame_body_answered.mpr (.inl ⟨htype, hcrc, hsize, rfl, rfl⟩))
  | tooMuch hopen hs hv htype hsize =>
    exact hlast hopen hs hv (frame_body_answered.mpr (.inr (.inl ⟨htype, hsize, rfl, rfl⟩)))
  | short hopen hs hv htype hend hsize =>
    exact hlast hopen hs hv (frame_body_answered.mpr
      (.inr (.inr (.inl ⟨_, htype, hend, Nat.ne_of_lt hsize, rfl, rfl⟩))))
  | badCrc hopen hs hv htype hsize hend hcrc =>
    exact hlast hopen hs hv (frame_body_answered.mpr
      (.inr (.inr (.inr (.inl ⟨_, htype, hend, hsize, hcrc, rfl, rfl⟩)))))
  | badNext hopen hs hv hnext =>
    exact hlast hopen hs hv (frame_body_answered.mpr
      (.inr (.inr (.inr (.inr ⟨hnext, rfl, rfl⟩)))))
  | @badFirst f rest hs hv hfirst =>
    rw [hs]
    exact ofStream_of_answered hv (frame_start_answered.mpr ⟨hfirst, rfl, rfl⟩) rest
  | unparsable hopen hs hv herror =>
    rw [hs]
    exact ofStream_of_error hv (not_answered_of_opening hopen) herror

/-- Frames that decide a stream, in the grammar. -/
theorem verdict_of_frames {stream u : Bytes} {fs : List Frame} (hvalid : Valid fs)
    (hstream : stream = encodeFrames fs ++ u) {status : Status} {file : Option Bytes}
    (h : fs.foldl frame start = answered status file) : Verdict stream status file := by
  obtain ⟨pre, f, post, rfl, hpre, hf⟩ := (foldl_answered_iff (u := start) id).mp h
  have hstream' : stream = encodeFrames (pre ++ [f]) ++ (encodeFrames post ++ u) := by
    rw [hstream, ← List.append_assoc]
    simp [FrameParser.encodeFrames]
  have hvalid' : Valid (pre ++ [f]) := by
    intro g hg
    rcases List.mem_append.mp hg with hg | hg
    · exact hvalid g (List.mem_append_left _ hg)
    · exact hvalid g (List.mem_append_right _ (List.mem_cons.mpr (.inl (List.mem_singleton.mp hg))))
  rcases opening_of_not_answered hpre with rfl | ⟨size, payload, hopen⟩
  · obtain ⟨hfirst, rfl, rfl⟩ := frame_start_answered.mp hf
    exact .badFirst hstream' hvalid' hfirst
  · rw [foldl_eq_body.mpr hopen] at hf
    have hle := hopen.length_le
    rcases frame_body_answered.mp hf with ⟨ht, hc, hs, rfl, rfl⟩ | ⟨ht, hs, rfl, rfl⟩ |
      ⟨c, ht, he, hs, rfl, rfl⟩ | ⟨c, ht, he, hs, hc, rfl, rfl⟩ | ⟨hn, rfl, rfl⟩
    · exact .ok hopen hstream' hvalid' ht hs hc
    · exact .tooMuch hopen hstream' hvalid' ht hs
    · exact .short hopen hstream' hvalid' ht he (by omega)
    · exact .badCrc hopen hstream' hvalid' ht hs he hc
    · exact .badNext hopen hstream' hvalid' hn

/-- A verdict of the fold is one of the grammar. -/
theorem verdict_of_ofStream {stream : Bytes} {status : Status} {file : Option Bytes}
    (h : ofStream stream = answered status file) : Verdict stream status file := by
  obtain ⟨hvalid, u, hstream, hstop⟩ := eq_encodeFrames stream
  rw [ofStream] at h
  cases hfold : (run frameDecoder stream).1.foldl frame start with
  | answered status' file' =>
    rw [hfold, stop_answered] at h
    exact verdict_of_frames hvalid hstream (hfold.trans h)
  | start | body =>
    -- only the end of the frames can have decided
    have hnot : ¬ ((run frameDecoder stream).1.foldl frame start).Answered := by
      rw [hfold]
      exact id
    have hnone := opening_of_not_answered hnot
    rw [hfold] at h
    cases hend : (run frameDecoder stream).2 with
    | needMore v => rw [hend] at h; cases h
    | error e =>
      rw [hend] at h hstop
      cases h
      exact .unparsable hnone hstream hvalid hstop

/-- The fold and the grammar agree on every stream. -/
theorem ofStream_answered_iff {stream : Bytes} {status : Status} {file : Option Bytes} :
    ofStream stream = answered status file ↔ Verdict stream status file :=
  ⟨verdict_of_ofStream, ofStream_of_verdict⟩

/-- A verdict stands, whatever follows. -/
theorem Verdict.mono {s t : Bytes} {status : Status} {file : Option Bytes}
    (h : Verdict s status file) (hst : s <+: t) : Verdict t status file := by
  obtain ⟨u, rfl⟩ := hst
  cases h with
  | ok hopen hs hv htype hsize hcrc =>
    exact .ok hopen (by rw [hs, List.append_assoc]) hv htype hsize hcrc
  | tooMuch hopen hs hv htype hsize =>
    exact .tooMuch hopen (by rw [hs, List.append_assoc]) hv htype hsize
  | short hopen hs hv htype hend hsize =>
    exact .short hopen (by rw [hs, List.append_assoc]) hv htype hend hsize
  | badCrc hopen hs hv htype hsize hend hcrc =>
    exact .badCrc hopen (by rw [hs, List.append_assoc]) hv htype hsize hend hcrc
  | badFirst hs hv hfirst => exact .badFirst (by rw [hs, List.append_assoc]) hv hfirst
  | badNext hopen hs hv hnext => exact .badNext hopen (by rw [hs, List.append_assoc]) hv hnext
  | unparsable hopen hs hv herror =>
    exact .unparsable hopen (by rw [hs, List.append_assoc]) hv (frameDecoder.error_append u herror)

/-- Without an END there is no Ok. -/
theorem foldl_ne_ok {fs : List Frame} (hfs : ∀ f ∈ fs, f.type ≠ .end) (file : Option Bytes) :
    fs.foldl frame start ≠ answered .ok file := by
  intro h
  obtain ⟨pre, f, post, rfl, hpre, hf⟩ := (foldl_answered_iff (u := start) id).mp h
  have htype : f.type ≠ .end := hfs f (by simp)
  cases hu : pre.foldl frame start with
  | start =>
    rw [hu] at hf
    obtain ⟨-, hok, -⟩ := frame_start_answered.mp hf
    cases hok
  | body size payload =>
    rw [hu] at hf
    rcases frame_body_answered.mp hf with ⟨ht, -⟩ | ⟨-, -, hok, -⟩ | ⟨c, -, -, -, hok, -⟩ |
      ⟨c, -, -, -, -, hok, -⟩ | ⟨-, hok, -⟩
    · exact htype ht
    all_goals cases hok
  | answered status file' =>
    rw [hu] at hpre
    exact hpre trivial

end Upload

end Nexus
