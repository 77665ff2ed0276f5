/-
What a run of `sendFile` sends, and when it returns what.

* `Client.sendFile_outcome` — what it has sent is a HELLO, DATA frames with what
  it read of the file, and an END with their checksum, as far as it got; it
  returns 2, 3 or 4 only with the END not out, and 0 or 6 only after an ACK that
  says so.
-/
import Mathlib.Data.List.Infix
import NexusTransmitter.Client
import NexusTransmitter.Upload

open StreamDecoder Nexus.Upload Nexus.FrameParser

namespace Nexus

/-- The bytes of an upload up to its END. -/
def bodyBytes (fileSize : ℕ) (name : Bytes) (ds : List Bytes) : Bytes :=
  buildHello fileSize name ++ ds.flatMap buildData

/-- All the bytes of an upload. -/
def uploadBytes (fileSize : ℕ) (name : Bytes) (ds : List Bytes) : Bytes :=
  bodyBytes fileSize name ds ++ buildEnd (crc32 ds.flatten)

theorem bodyBytes_append (fileSize : ℕ) (name : Bytes) (ds : List Bytes) (d : Bytes) :
    bodyBytes fileSize name (ds ++ [d]) = bodyBytes fileSize name ds ++ buildData d := by
  simp [bodyBytes]

/-! ### The frames of an upload -/

section Bytes

variable {fileSize : ℕ} {name : Bytes} {ds : List Bytes}

/-- The frames of an upload but for the END. -/
def opening (fileSize : ℕ) (name : Bytes) (ds : List Bytes) : List Frame :=
  { type := .hello, data := helloPayload fileSize name } ::
    ds.map fun d => { type := .data, data := d }

theorem encodeFrames_opening (fileSize : ℕ) (name : Bytes) (ds : List Bytes) :
    encodeFrames (opening fileSize name ds) = bodyBytes fileSize name ds := by
  have hds : encodeFrames (ds.map fun d => { type := .data, data := d }) =
      ds.flatMap buildData := by
    rw [encodeFrames, List.flatMap_map]
    rfl
  rw [bodyBytes, ← hds]
  rfl

theorem payloads_data (ds : List Bytes) :
    payloads (ds.map fun d => { type := .data, data := d }) = ds.flatten := by
  rw [payloads, List.flatMap_map]
  exact List.flatMap_id

theorem opening_no_end {f : Frame} (hf : f ∈ opening fileSize name ds) : f.type ≠ .end := by
  rcases List.mem_cons.mp hf with rfl | hf
  · simp
  · obtain ⟨d, -, rfl⟩ := List.mem_map.mp hf
    simp

theorem opening_valid (fileSize : ℕ) (name : Bytes) (hds : ∀ d ∈ ds, d.length ≤ MAX_PAYLOAD) :
    Valid (opening fileSize name ds) := by
  intro f hf
  rcases List.mem_cons.mp hf with rfl | hf
  · exact length_helloPayload_le fileSize name
  · obtain ⟨d, hd, rfl⟩ := List.mem_map.mp hf
    exact hds d hd

theorem parseAt_nil : parseAt [] = .needMore := by
  rw [parseAt, if_pos (by decide)]

/-- No part of an upload that ends before the END is Ok. -/
theorem no_file_of_front (hds : ∀ d ∈ ds, d.length ≤ MAX_PAYLOAD) {p : Bytes}
    (hp : p <+: bodyBytes fileSize name ds) (file : Option Bytes) : ¬ Verdict p .ok file := by
  intro h
  have hv := ofStream_of_verdict (h.mono hp)
  have hbody := ofStream_of_needMore (opening_valid fileSize name hds) parseAt_nil
  rw [List.append_nil, encodeFrames_opening] at hbody
  rw [hbody] at hv
  exact foldl_ne_ok (fun f hf => opening_no_end hf) file hv

/-- A frame of which bytes are missing is not parsed. -/
theorem parseAt_of_part {f : Frame} (hf : f.data.length ≤ MAX_PAYLOAD) {p q : Bytes}
    (h : buildFrame f.type f.data = p ++ q) (hq : q ≠ []) : parseAt p = .needMore := by
  by_contra hne
  have hscan := parseAt_append q hne
  have hlen := congrArg List.length h
  rw [← h, ← List.append_nil (buildFrame f.type f.data), parseAt_buildFrame f.type hf] at hscan
  have hle := (parseAt_ready hscan.symm).2.1
  rw [length_buildFrame, List.length_append] at hlen
  have := List.length_pos_of_ne_nil hq
  omega

/-- Nor is any part of an upload that ends within the END. -/
theorem no_file_of_part (hds : ∀ d ∈ ds, d.length ≤ MAX_PAYLOAD) {c : BitVec 32} {p q s : Bytes}
    (hend : buildEnd c = p ++ q) (hq : q ≠ []) (hs : s <+: bodyBytes fileSize name ds ++ p)
    (file : Option Bytes) : ¬ Verdict s .ok file := by
  intro h
  have hv := ofStream_of_verdict (h.mono hs)
  have hpart : parseAt p = .needMore :=
    parseAt_of_part (f := { type := .end, data := putU32 c }) (by simp [MAX_PAYLOAD]) hend hq
  have hbody := ofStream_of_needMore (opening_valid fileSize name hds) hpart
  rw [encodeFrames_opening] at hbody
  rw [hbody] at hv
  exact foldl_ne_ok (fun f hf => opening_no_end hf) file hv

/-- All the frames of an upload. -/
def uploadFrames (fileSize : ℕ) (name : Bytes) (ds : List Bytes) : List Frame :=
  opening fileSize name ds ++ [{ type := .end, data := putU32 (crc32 ds.flatten) }]

theorem encodeFrames_uploadFrames (fileSize : ℕ) (name : Bytes) (ds : List Bytes) :
    encodeFrames (uploadFrames fileSize name ds) = uploadBytes fileSize name ds := by
  rw [uploadFrames, encodeFrames, List.flatMap_append, ← encodeFrames, encodeFrames_opening]
  simp [uploadBytes, buildEnd]

theorem uploadFrames_valid (fileSize : ℕ) (name : Bytes) (hds : ∀ d ∈ ds, d.length ≤ MAX_PAYLOAD) :
    Valid (uploadFrames fileSize name ds) := by
  intro f hf
  rcases List.mem_append.mp hf with hf | hf
  · exact opening_valid fileSize name hds f hf
  · rw [List.mem_singleton.mp hf]
    simp [MAX_PAYLOAD]

/-- A whole upload is Ok exactly when it is as long as declared. -/
theorem verdict_uploadBytes (hlt : fileSize < 2 ^ 64) (hds : ∀ d ∈ ds, d.length ≤ MAX_PAYLOAD)
    {file : Option Bytes} :
    Verdict (uploadBytes fileSize name ds) .ok file ↔
      ds.flatten.length = fileSize ∧ file = some ds.flatten := by
  have hhello : parseHello (helloPayload fileSize name) =
      some { fileSize := fileSize, name := name.take MAX_NAME_LEN } := by
    rw [parseHello_helloPayload, Nat.mod_eq_of_lt hlt]
  rw [← ofStream_answered_iff, ← List.append_nil (uploadBytes fileSize name ds),
    ← encodeFrames_uploadFrames, ofStream_of_needMore (uploadFrames_valid fileSize name hds)
    parseAt_nil, uploadFrames, List.foldl_append]
  set e : Frame := { type := .end, data := putU32 (crc32 ds.flatten) } with he
  by_cases hle : ds.flatten.length ≤ fileSize
  · have hopen : Opening (opening fileSize name ds) fileSize ds.flatten :=
      ⟨_, _, _, rfl, rfl, hhello, by simp, (payloads_data ds).symm, hle⟩
    have hcrc : parseEnd e.data = some (crc32 ds.flatten) := parseEnd_putU32 _
    rw [foldl_eq_body.mpr hopen, List.foldl_cons, List.foldl_nil, frame_body_answered]
    constructor
    · rintro (⟨-, -, hlen, -, hfile⟩ | ⟨-, -, hok, -⟩ | ⟨c, -, -, -, hok, -⟩ |
        ⟨c, -, -, -, -, hok, -⟩ | ⟨-, hok, -⟩)
      · exact ⟨hlen, hfile⟩
      all_goals cases hok
    · rintro ⟨hlen, hfile⟩
      exact .inl ⟨rfl, hcrc, hlen, rfl, hfile⟩
  · -- more than declared: the fold is not in the body any more
    refine iff_of_false (fun h => ?_) fun h => hle (Nat.le_of_eq h.1)
    cases hfold : (opening fileSize name ds).foldl frame start with
    | start => cases foldl_eq_start.mp hfold
    | body size payload =>
      obtain ⟨hello, ds', name', hopen, -, hparse, -, rfl, hle'⟩ := foldl_eq_body.mp hfold
      cases hopen
      rw [hhello] at hparse
      cases hparse
      rw [payloads_data] at hle'
      exact hle hle'
    | answered status file' =>
      rw [hfold, foldl_answered] at h
      cases h
      exact foldl_ne_ok (fun f hf => opening_no_end hf) file hfold

end Bytes

/-- The `fileSize` of `sendFile`. -/
def ClientSys.fileSize (sys : ClientSys) : ℕ :=
  match sys.tellg with
  | none => 0
  | some tellg => (tellg % 2 ^ 64).toNat

theorem ClientSys.fileSize_lt (sys : ClientSys) : sys.fileSize < 2 ^ 64 := by
  rw [ClientSys.fileSize]
  split
  · decide
  · omega

namespace Client

/-! ### Sending -/

section Write

variable {c : Client} {data : Bytes} {sends : List SendAnswer}

/-- A `writeAll` sends a front part of its data, and all of it exactly when it
says so. -/
structure Wrote (c : Client) (data : Bytes) (r : Option Bytes × Client) (p q : Bytes) : Prop where
  data : data = p ++ q
  sent : r.2.sent = c.sent ++ p
  received : r.2.received = c.received
  reads : r.2.reads = c.reads
  all : r.1 = some [] ↔ q = []

theorem Wrote.stopped {p q : Bytes} {r : Option Bytes × Client} (hdata : data = p ++ q)
    (hq : q ≠ []) (hr : r.1 ≠ some []) (hsent : r.2.sent = c.sent ++ p)
    (hreceived : r.2.received = c.received) (hreads : r.2.reads = c.reads) : c.Wrote data r p q :=
  ⟨hdata, hsent, hreceived, hreads, iff_of_false hr hq⟩

theorem writeLoop_spec (c : Client) (data : Bytes) (sends : List SendAnswer) :
    ∃ p q, c.Wrote data (c.writeLoop data sends) p q := by
  fun_induction writeLoop c data sends with
  | case1 c sends => exact ⟨[], [], rfl, (List.append_nil _).symm, rfl, rfl, iff_of_true rfl rfl⟩
  | case2 c data hne =>
    exact ⟨[], data, .stopped rfl hne (by simp) (List.append_nil _).symm rfl rfl⟩
  | case3 c data hne n sends hpos ih =>
    obtain ⟨p, q, h⟩ := ih
    refine ⟨data.take (min n data.length) ++ p, q, ?_, ?_, h.received, h.reads, h.all⟩
    · rw [List.append_assoc, ← h.data, List.take_append_drop]
    · rw [h.sent, push, List.append_assoc]
  | case4 c data hne n sends hzero =>
    exact ⟨[], data, .stopped rfl hne (by simp) (List.append_nil _).symm rfl rfl⟩
  | case5 c data hne sends ih => exact ih
  | case6 c data hne sends =>
    exact ⟨[], data, .stopped rfl hne (by simp) (List.append_nil _).symm rfl rfl⟩
  | case7 c data hne text sends =>
    exact ⟨[], data, .stopped rfl hne (by simp) (List.append_nil _).symm rfl rfl⟩

theorem writeAll_spec (c : Client) (data : Bytes) :
    ∃ p q, c.Wrote data (c.writeAll data) p q := writeLoop_spec c data c.sends

end Write

/-! ### The ACK -/

/-- What `readAck` has come to is decided by the bytes received: it waits for a
frame, or it has failed and there is no ACK, or there is one. -/
inductive Read (received : Bytes) : Option AckResult → Prop
  | waits (hscan : parseAt received = .needMore) : Read received none
  | fails {result}
      (hscan : ∀ f n, parseAt received = .ready f n → f.type = .ack → parseAck f.data = none)
      (herror : result.error ≠ []) : Read received (some result)
  | takes {f n ack} (hscan : parseAt received = .ready f n) (htype : f.type = .ack)
      (hack : parseAck f.data = some ack) : Read received (some { ack := ack })

/-- The socket fails while too little is there for a frame. -/
theorem Read.unanswered {received : Bytes} {result : AckResult} (h : parseAt received = .needMore)
    (herror : result.error ≠ []) : Read received (some result) :=
  .fails (by rw [h]; simp) herror

/-- There is a frame. -/
theorem Read.of_ready {received : Bytes} {f : Frame} {n : ℕ} (h : parseAt received = .ready f n) :
    Read received (some (ackOfFrame f)) := by
  have hframe : ∀ g m, parseAt received = .ready g m → g = f := by
    intro g m hg
    rw [h] at hg
    cases hg
    rfl
  rw [ackOfFrame]
  split
  · rename_i htype
    refine .fails (fun g m hg hack => ?_) fun hnil => ?_
    · rw [hframe g m hg] at hack
      exact absurd hack htype
    · exact absurd (List.append_eq_nil_iff.mp hnil).1 (by simp)
  · rename_i htype
    rw [not_not] at htype
    split
    · rename_i hparse
      refine .fails (fun g m hg _ => ?_) (by simp)
      rw [hframe g m hg]
      exact hparse
    · rename_i ack hparse
      exact .takes h htype hparse

theorem readLoop_spec (c : Client) (parser : FrameParser) (reads : List ReadAnswer)
    (h : parser.unread = c.received) :
    Read (c.readLoop parser reads).2.received (c.readLoop parser reads).1 ∧
      (c.readLoop parser reads).2.sent = c.sent ∧ (c.readLoop parser reads).2.sends = c.sends := by
  fun_induction readLoop c parser reads with
  | case1 reads c parser e q hnext =>
    have hscan := (next_error hnext).1
    rw [h] at hscan
    refine ⟨.fails ?_ ?_, rfl, rfl⟩
    · intro f n hready
      rw [hscan] at hready
      cases hready
    · intro hnil
      exact absurd (List.append_eq_nil_iff.mp hnil).1 (by simp)
  | case2 reads c parser f q hnext =>
    obtain ⟨n, hscan, -⟩ := next_ready hnext
    rw [h] at hscan
    exact ⟨.of_ready hscan, rfl, rfl⟩
  | case3 c parser q hnext =>
    have hscan := (next_needMore hnext).1
    rw [h] at hscan
    exact ⟨.waits hscan, rfl, rfl⟩
  | case4 c parser q hnext reads =>
    have hscan := (next_needMore hnext).1
    rw [h] at hscan
    exact ⟨.unanswered hscan (by simp), rfl, rfl⟩
  | case5 c parser q hnext b bs reads ih =>
    obtain ⟨-, rfl⟩ := next_needMore hnext
    exact ih (by rw [unread_feed, h]; rfl)
  | case6 c parser q hnext reads ih =>
    obtain ⟨-, rfl⟩ := next_needMore hnext
    exact ih h
  | case7 c parser q hnext reads =>
    have hscan := (next_needMore hnext).1
    rw [h] at hscan
    exact ⟨.unanswered hscan (by simp), rfl, rfl⟩
  | case8 c parser q hnext text reads =>
    have hscan := (next_needMore hnext).1
    rw [h] at hscan
    refine ⟨.unanswered hscan fun hnil => ?_, rfl, rfl⟩
    exact absurd (List.append_eq_nil_iff.mp hnil).1 (by simp)

theorem readAck_spec (c : Client) (h : c.received = []) :
    Read c.readAck.2.received c.readAck.1 ∧ c.readAck.2.sent = c.sent ∧
      c.readAck.2.sends = c.sends :=
  readLoop_spec c .fresh c.reads (by rw [h]; rfl)

/-! ### The whole run -/

/-- The exit code that goes with a result of `readAck`. -/
def exitOf (r : AckResult) : ℕ :=
  if r.error ≠ [] then 5 else if r.ack.status ≠ Status.ok.code then 6 else 0

/-- A run has come as far as `readAck` has, on a connection that has answered `reads`. -/
def Hears (reads : List ReadAnswer) (r : Option ℕ × Client) : Prop :=
  ∃ c : Client, c.reads = reads ∧ c.received = [] ∧ r.1 = c.readAck.1.map exitOf ∧
    r.2.received = c.readAck.2.received

/-- What a run of `sendFile` has come to, when `ds` is what it has read of the
file. -/
inductive Outcome (fileSize : ℕ) (name : Bytes) (ds : List Bytes) (reads : List ReadAnswer) :
    Option ℕ × Client → Prop
  /-- The END has not been begun. -/
  | cut {r} (hexit : r.1 ∈ [none, some 2, some 3, some 4])
      (hsent : r.2.sent <+: bodyBytes fileSize name ds) (hreceived : r.2.received = []) :
      Outcome fileSize name ds reads r
  /-- Some of the END is missing. -/
  | ended {r p q} (hexit : r.1 ∈ [none, some 4]) (hsize : fileSize ≤ ds.flatten.length % 2 ^ 64)
      (hsent : r.2.sent = bodyBytes fileSize name ds ++ p)
      (hend : buildEnd (crc32 ds.flatten) = p ++ q) (hq : q ≠ []) (hreceived : r.2.received = []) :
      Outcome fileSize name ds reads r
  /-- All is out, and the answer is not all there. -/
  | waiting {r} (hexit : r.1 = none) (hsize : fileSize ≤ ds.flatten.length % 2 ^ 64)
      (hsent : r.2.sent = uploadBytes fileSize name ds) (hscan : parseAt r.2.received = .needMore)
      (hhears : Hears reads r) : Outcome fileSize name ds reads r
  /-- All is out, and there is no ACK. -/
  | unconfirmed {r} (hexit : r.1 = some 5) (hsize : fileSize ≤ ds.flatten.length % 2 ^ 64)
      (hsent : r.2.sent = uploadBytes fileSize name ds)
      (hscan : ∀ f n, parseAt r.2.received = .ready f n → f.type = .ack → parseAck f.data = none)
      (hhears : Hears reads r) : Outcome fileSize name ds reads r
  /-- All is out, and there is an ACK. -/
  | replied {r f n ack} (hexit : r.1 = some (if ack.status = Status.ok.code then 0 else 6))
      (hsize : fileSize ≤ ds.flatten.length % 2 ^ 64)
      (hsent : r.2.sent = uploadBytes fileSize name ds)
      (hscan : parseAt r.2.received = .ready f n) (htype : f.type = .ack)
      (hack : parseAck f.data = some ack)
      (hline : ack.status = Status.ok.code →
        .completed fileSize (crc32 ds.flatten) ack.message ∈ r.2.lines)
      (hhears : Hears reads r) : Outcome fileSize name ds reads r

section Run

variable {c : Client} {path name : Bytes} {fileSize : ℕ} {ds : List Bytes} {reads : List ReadAnswer}

theorem finish_outcome (hsent : c.sent = bodyBytes fileSize name ds) (hreceived : c.received = [])
    (hsize : fileSize ≤ ds.flatten.length % 2 ^ 64) :
    Outcome fileSize name ds c.reads (c.finish fileSize (({} : Crc32).update ds.flatten)) := by
  obtain ⟨p, q, hw⟩ := c.writeAll_spec (buildEnd (({} : Crc32).update ds.flatten).value)
  have hend : buildEnd (crc32 ds.flatten) = p ++ q := hw.data
  rw [finish]
  split
  · rename_i c' hrun
    rw [hrun] at hw
    refine .ended (by simp) hsize (hw.sent.trans (by rw [hsent])) hend ?_
      (hw.received.trans hreceived)
    intro hq
    exact absurd (hw.all.mpr hq) (by simp)
  rename_i err c' hrun
  rw [hrun] at hw
  split
  · rename_i herr
    refine .ended (by simp) hsize (hw.sent.trans (by rw [hsent])) hend ?_
      (hw.received.trans hreceived)
    intro hq
    exact herr (Option.some.inj (hw.all.mpr hq))
  rename_i herr
  rw [not_not] at herr
  subst herr
  -- the END is out
  have hq : q = [] := hw.all.mp rfl
  have hall : c'.sent = uploadBytes fileSize name ds := by
    rw [hw.sent, hsent, uploadBytes, hend, hq, List.append_nil]
  obtain ⟨hread, hkeep, -⟩ := c'.readAck_spec (hw.received.trans hreceived)
  rw [hall] at hkeep
  have hhears : ∀ r : Option ℕ × Client, r.1 = c'.readAck.1.map exitOf →
      r.2.received = c'.readAck.2.received → Hears c.reads r := fun r hexit hsame =>
    ⟨c', hw.reads, hw.received.trans hreceived, hexit, hsame⟩
  split
  · rename_i c'' hack
    rw [hack] at hread hkeep hhears
    cases hread with
    | waits hscan => exact .waiting rfl hsize hkeep hscan (hhears _ rfl rfl)
  rename_i result c'' hack
  rw [hack] at hread hkeep hhears
  cases hread with
  | fails hscan herror =>
    rw [if_pos herror]
    refine .unconfirmed rfl hsize hkeep hscan (hhears _ ?_ rfl)
    rw [Option.map_some, exitOf, if_pos herror]
  | @takes f n ack hscan htype hparse =>
    have hexit : exitOf { ack := ack } = if ack.status = Status.ok.code then 0 else 6 := by
      rw [exitOf, if_neg (by simp), ite_not]
    rw [if_neg (by simp)]
    by_cases hstatus : ack.status = Status.ok.code
    · rw [if_neg (not_not.mpr hstatus)]
      rw [if_pos hstatus] at hexit
      refine .replied (by rw [if_pos hstatus]) hsize hkeep hscan htype hparse (fun _ => ?_)
        (hhears _ (by rw [Option.map_some, hexit]) rfl)
      exact List.mem_append_right _ (List.mem_singleton.mpr rfl)
    · rw [if_pos hstatus]
      rw [if_neg hstatus] at hexit
      exact .replied (by rw [if_neg hstatus]) hsize hkeep hscan htype hparse
        (fun h => absurd h hstatus) (hhears _ (by rw [Option.map_some, hexit]) rfl)

/-- `ds` are chunks of the loop of `sendFile` when `sent` bytes have been read: none
is empty, and each is read because something is missing. -/
def Chunks (fileSize sent : ℕ) : List Bytes → Prop
  | [] => True
  | d :: ds => sent % 2 ^ 64 < fileSize ∧ d ≠ [] ∧ Chunks fileSize (sent + d.length) ds

theorem sendBody_outcome (path : Bytes) (hsent : c.sent = bodyBytes fileSize name ds)
    (hreceived : c.received = []) (fileReads : List Bytes) :
    ∃ ds', ds' <+: fileReads.map (List.take CHUNK_SIZE) ∧
      Chunks fileSize ds.flatten.length ds' ∧
      Outcome fileSize name (ds ++ ds') c.reads (c.sendBody path fileSize
        (ds.flatten.length % 2 ^ 64) (({} : Crc32).update ds.flatten) fileReads) := by
  induction fileReads generalizing c ds with
  | nil =>
    refine ⟨[], List.nil_prefix, trivial, ?_⟩
    rw [sendBody, List.append_nil]
    split
    · exact .cut (by simp) (hsent ▸ List.prefix_refl _) hreceived
    · rename_i hsize
      exact finish_outcome hsent hreceived (not_lt.mp hsize)
  | cons read fileReads ih =>
    rw [sendBody]
    by_cases hlt : ds.flatten.length % 2 ^ 64 < fileSize
    swap
    · rw [if_neg hlt]
      refine ⟨[], List.nil_prefix, trivial, ?_⟩
      rw [List.append_nil]
      exact finish_outcome hsent hreceived (not_lt.mp hlt)
    rw [if_pos hlt]
    set chunk := read.take CHUNK_SIZE with hchunk
    obtain ⟨p, q, hw⟩ := c.writeAll_spec (buildData chunk)
    have hone : [chunk] <+: (read :: fileReads).map (List.take CHUNK_SIZE) :=
      ⟨fileReads.map (List.take CHUNK_SIZE), rfl⟩
    -- what a `writeAll` that stops has sent is part of the frame
    have hpart : c.sent ++ p <+: bodyBytes fileSize name (ds ++ [chunk]) := by
      rw [hsent, bodyBytes_append, hw.data]
      exact (List.prefix_append_right_inj _).mpr (List.prefix_append p q)
    by_cases hempty : chunk.length ≤ 0
    · refine ⟨[], List.nil_prefix, trivial, ?_⟩
      rw [if_pos hempty, List.append_nil]
      exact .cut (by simp) (hsent ▸ List.prefix_refl _) hreceived
    have hne : chunk ≠ [] := fun hnil => hempty (by rw [hnil]; exact Nat.le_refl 0)
    have htaken : Chunks fileSize ds.flatten.length [chunk] := ⟨hlt, hne, trivial⟩
    simp only [if_neg hempty]
    split
    · rename_i c' hrun
      rw [hrun] at hw
      exact ⟨[chunk], hone, htaken, .cut (by simp) (hw.sent ▸ hpart) (hw.received.trans hreceived)⟩
    rename_i err c' hrun
    rw [hrun] at hw
    by_cases herr : err = []
    swap
    · rw [if_pos herr]
      exact ⟨[chunk], hone, htaken, .cut (by simp) (by rw [← hw.sent] at hpart; exact hpart)
        (hw.received.trans hreceived)⟩
    rw [if_neg (not_not.mpr herr)]
    subst herr
    have hq : q = [] := hw.all.mp rfl
    have hsent' : c'.sent = bodyBytes fileSize name (ds ++ [chunk]) := by
      rw [hw.sent, hsent, bodyBytes_append, hw.data, hq, List.append_nil]
    obtain ⟨ds', hfront, hchunks, hout⟩ := ih hsent' (hw.received.trans hreceived)
    have hflat : (ds ++ [chunk]).flatten = ds.flatten ++ chunk := by simp
    rw [hflat, List.length_append] at hchunks
    refine ⟨chunk :: ds', List.prefix_cons_inj chunk |>.mpr hfront, ⟨hlt, hne, hchunks⟩, ?_⟩
    rw [hflat, Crc32.update_append, List.length_append, List.append_assoc,
      List.singleton_append, hw.reads] at hout
    rwa [Nat.mod_add_mod]

/-- What a run of `sendFile` comes to, and what it has read. -/
theorem sendFile_chunks (path : Bytes) (sys : ClientSys) :
    ∃ ds, ds <+: sys.fileReads.map (List.take CHUNK_SIZE) ∧ Chunks sys.fileSize 0 ds ∧
      Outcome sys.fileSize (baseName path) ds sys.reads (sendFile path sys) := by
  rw [sendFile]
  split
  · exact ⟨[], List.nil_prefix, trivial, .cut (by simp) List.nil_prefix rfl⟩
  rename_i tellg htellg
  have hsize : sys.fileSize = (tellg % 2 ^ 64).toNat := by rw [ClientSys.fileSize, htellg]
  simp only [← hsize]
  split
  · exact ⟨[], List.nil_prefix, trivial, .cut (by simp) List.nil_prefix rfl⟩
  split
  · exact ⟨[], List.nil_prefix, trivial, .cut (by simp) List.nil_prefix rfl⟩
  rename_i hconnect
  set c : Client := ({ sends := sys.sends, reads := sys.reads, errno := sys.errno } : Client).log
    (.started (baseName path) sys.fileSize) with hc
  obtain ⟨p, q, hw⟩ := c.writeAll_spec (buildHello sys.fileSize (baseName path))
  have hp : (c.writeAll (buildHello sys.fileSize (baseName path))).2.sent = p := hw.sent
  have hpart : p <+: bodyBytes sys.fileSize (baseName path) [] := by
    rw [bodyBytes, hw.data, List.flatMap_nil, List.append_nil]
    exact List.prefix_append p q
  split
  · rename_i c' hrun
    rw [hrun] at hw hp
    exact ⟨[], List.nil_prefix, trivial, .cut (by simp) (hp ▸ hpart) hw.received⟩
  rename_i err c' hrun
  rw [hrun] at hw hp
  by_cases herr : err = []
  swap
  · rw [if_pos herr]
    rw [← hp] at hpart
    exact ⟨[], List.nil_prefix, trivial, .cut (by simp) hpart hw.received⟩
  rw [if_neg (not_not.mpr herr)]
  subst herr
  have hq : q = [] := hw.all.mp rfl
  have hsent : c'.sent = bodyBytes sys.fileSize (baseName path) [] := by
    rw [show c'.sent = p from hp, bodyBytes, hw.data, hq]
    simp
  have hbody := sendBody_outcome path hsent hw.received sys.fileReads
  rw [show c'.reads = sys.reads from hw.reads] at hbody
  exact hbody

/-- **What a run of `sendFile` comes to.** -/
theorem sendFile_outcome (path : Bytes) (sys : ClientSys) :
    ∃ ds, ds <+: sys.fileReads.map (List.take CHUNK_SIZE) ∧
      Outcome sys.fileSize (baseName path) ds sys.reads (sendFile path sys) := by
  obtain ⟨ds, hfront, -, hout⟩ := sendFile_chunks path sys
  exact ⟨ds, hfront, hout⟩

/-- What was read of the file fits into DATA frames. -/
theorem length_le_of_reads {fileReads : List Bytes}
    (h : ds <+: fileReads.map (List.take CHUNK_SIZE)) :
    ∀ d ∈ ds, d.length ≤ MAX_PAYLOAD := by
  intro d hd
  obtain ⟨read, -, rfl⟩ := List.mem_map.mp (h.subset hd)
  exact List.length_take_le CHUNK_SIZE read

/-- A client that returns 2, 3 or 4 has not sent all of an END. -/
theorem Outcome.no_file {r : Option ℕ × Client} (h : Outcome fileSize name ds reads r)
    (hds : ∀ d ∈ ds, d.length ≤ MAX_PAYLOAD) (hexit : r.1 ∈ [some 2, some 3, some 4]) {s : Bytes}
    (hs : s <+: r.2.sent) (file : Option Bytes) : ¬ Verdict s .ok file := by
  cases h with
  | cut _ hsent => exact no_file_of_front hds (hs.trans hsent) file
  | ended _ _ hsent hend hq => exact no_file_of_part hds hend hq (hsent ▸ hs) file
  | waiting hexit' =>
    rw [hexit'] at hexit
    simp at hexit
  | unconfirmed hexit' =>
    rw [hexit'] at hexit
    simp at hexit
  | replied hexit' =>
    rw [hexit'] at hexit
    split at hexit <;> simp at hexit

theorem Outcome.exit_mem {r : Option ℕ × Client} (h : Outcome fileSize name ds reads r) {code : ℕ}
    (hcode : r.1 = some code) : code ∈ [0, 2, 3, 4, 5, 6] := by
  cases h with
  | cut hexit =>
    rw [hcode] at hexit
    simp only [List.mem_cons, reduceCtorEq, Option.some.injEq, List.not_mem_nil, or_false,
      false_or] at hexit ⊢
    omega
  | ended hexit =>
    rw [hcode] at hexit
    simp only [List.mem_cons, reduceCtorEq, Option.some.injEq, List.not_mem_nil, or_false,
      false_or] at hexit ⊢
    omega
  | waiting hexit =>
    rw [hcode] at hexit
    cases hexit
  | unconfirmed hexit =>
    rw [hcode] at hexit
    cases hexit
    decide
  | replied hexit =>
    rw [hcode] at hexit
    split at hexit <;> cases hexit <;> decide

/-- The ACK that is parsed from a front part of one that was built is that one. -/
theorem ack_of_front {status : Status} {message received : Bytes} {f : Frame} {n : ℕ}
    {ack : AckPayload} (h : received <+: buildAck status message)
    (hscan : parseAt received = .ready f n) (hack : parseAck f.data = some ack) :
    ack = { status := status.code, message := message.take MAX_NAME_LEN } := by
  obtain ⟨rest, hrest⟩ := h
  have hfirst := parseAt_append rest (by rw [hscan]; simp)
  have hbuilt := parseAt_buildFrame .ack (length_ackPayload_le status message) []
  rw [List.append_nil, ← buildAck, ← hrest, hfirst, hscan] at hbuilt
  cases hbuilt
  rw [parseAck_ackPayload] at hack
  exact (Option.some.inj hack).symm

end Run

/-! ### The file in pieces -/

section Pieces

variable {F : Bytes} {ds : List Bytes}

/-- What the `k`-th `file.read` gives of a file that does not change. -/
def piece (F : Bytes) (k : ℕ) : Bytes := (F.drop (k * CHUNK_SIZE)).take CHUNK_SIZE

/-- All of the file, as `sendFile` reads it. -/
def pieces (F : Bytes) : List Bytes :=
  (List.range ((F.length + CHUNK_SIZE - 1) / CHUNK_SIZE)).map (piece F)

theorem flatten_piece (F : Bytes) (n : ℕ) :
    ((List.range n).map (piece F)).flatten = F.take (n * CHUNK_SIZE) := by
  induction n with
  | zero => simp
  | succ n ih =>
    rw [List.range_succ, List.map_append, List.flatten_append, ih, List.map_singleton,
      List.flatten_singleton, piece, ← List.take_add, Nat.succ_mul]

theorem flatten_pieces (F : Bytes) : (pieces F).flatten = F := by
  rw [pieces, flatten_piece]
  refine List.take_of_length_le ?_
  simp only [CHUNK_SIZE, MAX_PAYLOAD]
  omega

theorem length_piece_le (F : Bytes) (k : ℕ) : (piece F k).length ≤ CHUNK_SIZE :=
  List.length_take_le _ _

theorem piece_ne_nil {d : Bytes} (hd : d ∈ pieces F) : d ≠ [] := by
  obtain ⟨k, hk, rfl⟩ := List.mem_map.mp hd
  rw [List.mem_range] at hk
  intro hnil
  have hlen := congrArg List.length hnil
  simp only [piece, CHUNK_SIZE, MAX_PAYLOAD, List.length_take, List.length_drop,
    List.length_nil] at hlen hk
  omega

theorem take_pieces (F : Bytes) : (pieces F).map (List.take CHUNK_SIZE) = pieces F := by
  have htake : List.take CHUNK_SIZE ∘ piece F = piece F := by
    funext k
    rw [Function.comp_apply, List.take_of_length_le (length_piece_le F k)]
  rw [pieces, List.map_map, htake]

/-- Reads that give all of the file are its pieces. -/
theorem eq_pieces (hds : ds <+: pieces F) (hlen : F.length ≤ ds.flatten.length) :
    ds = pieces F := by
  obtain ⟨rest, hrest⟩ := hds
  have hflat := congrArg List.flatten hrest
  rw [List.flatten_append, flatten_pieces] at hflat
  have hnil : rest.flatten = [] := by
    have := congrArg List.length hflat
    rw [List.length_append] at this
    exact List.length_eq_zero_iff.mp (by omega)
  cases rest with
  | nil => rw [← hrest, List.append_nil]
  | cons d rest =>
    have hd : d ∈ pieces F := by rw [← hrest]; simp
    rw [List.flatten_cons, List.append_eq_nil_iff] at hnil
    exact absurd hnil.1 (piece_ne_nil hd)

end Pieces

/-! ### An undisturbed run -/

/-- The socket takes something of each `write`, or the call is interrupted. -/
def Patient (sends : List SendAnswer) : Prop :=
  ∀ ans ∈ sends, ans = .eintr ∨ ∃ n, 0 < n ∧ ans = .took n

/-- How many calls of `write` are not interrupted. -/
def moves (sends : List SendAnswer) : ℕ := sends.countP (· ≠ .eintr)

/-- Nothing disturbs the client, and the file, with content `F`, does not
change. -/
structure Undisturbed (F : Bytes) (sys : ClientSys) : Prop where
  tellg : sys.tellg = some (F.length : ℤ)
  seekFault : sys.seekFault = false
  connectFault : sys.connectFault = none
  fileReads : sys.fileReads <+: pieces F
  patient : Patient sys.sends

/-- A run that sends `data` to a patient socket: each call moves it on, and it
ends only with `data` or with the calls. -/
structure Flushes (c : Client) (data : Bytes) (c' : Client) : Prop where
  patient : Patient c'.sends
  moves : moves c.sends + c.sent.length ≤ moves c'.sends + c'.sent.length
  all : c'.sends = [] ∨ c'.sent = c.sent ++ data

section Patient

variable {c c' : Client} {path name : Bytes} {fileSize : ℕ} {ds : List Bytes}

theorem writeLoop_flushes (c : Client) (data : Bytes) (sends : List SendAnswer)
    (h : Patient sends) :
    Flushes { c with sends := sends } data (c.writeLoop data sends).2 ∧
      ((c.writeLoop data sends).1 = some [] ∨
        ((c.writeLoop data sends).1 = none ∧ (c.writeLoop data sends).2.sends = [])) := by
  fun_induction writeLoop c data sends with
  | case1 c sends => exact ⟨⟨h, Nat.le_refl _, .inr (List.append_nil _).symm⟩, .inl rfl⟩
  | case2 c data hne => exact ⟨⟨h, Nat.le_refl _, .inl rfl⟩, .inr ⟨rfl, rfl⟩⟩
  | case3 c data hne n sends hpos ih =>
    obtain ⟨hf, hr⟩ := ih fun ans hans => h ans (List.mem_cons_of_mem _ hans)
    have hmoves := hf.moves
    refine ⟨⟨hf.patient, ?_, ?_⟩, hr⟩
    · simp only [moves, push, List.length_append, List.length_take] at hmoves ⊢
      rw [List.countP_cons_of_pos (by simp)]
      omega
    · rcases hf.all with hnil | hsent
      · exact .inl hnil
      · right
        rw [hsent, push]
        simp
  | case4 c data hne n sends hzero =>
    rcases h (.took n) (by simp) with heq | ⟨m, hm, heq⟩
    · cases heq
    · cases heq
      have := List.length_pos_of_ne_nil hne
      omega
  | case5 c data hne sends ih =>
    obtain ⟨hf, hr⟩ := ih fun ans hans => h ans (List.mem_cons_of_mem _ hans)
    have hmoves := hf.moves
    refine ⟨⟨hf.patient, ?_, hf.all⟩, hr⟩
    simp only [moves] at hmoves ⊢
    rw [List.countP_cons_of_neg (by simp)]
    exact hmoves
  | case6 c data hne sends =>
    rcases h .eagain (by simp) with heq | ⟨m, -, heq⟩ <;> cases heq
  | case7 c data hne text sends =>
    rcases h (.err text) (by simp) with heq | ⟨m, -, heq⟩ <;> cases heq

theorem writeAll_flushes (h : Patient c.sends) (data : Bytes) :
    Flushes c data (c.writeAll data).2 ∧
      ((c.writeAll data).1 = some [] ∨
        ((c.writeAll data).1 = none ∧ (c.writeAll data).2.sends = [])) :=
  writeLoop_flushes c data c.sends h

/-- A run that waits has used all the answers there are. -/
theorem Flushes.starved {data : Bytes} (h : Flushes c data c') (hnil : c'.sends = [])
    (data' : Bytes) : Flushes c data' c' := ⟨h.patient, h.moves, .inl hnil⟩

/-- First one part, then another. -/
theorem Flushes.trans {c'' : Client} {data data' : Bytes} (h : Flushes c data c')
    (hsent : c'.sent = c.sent ++ data) (h' : Flushes c' data' c'') :
    Flushes c (data ++ data') c'' where
  patient := h'.patient
  moves := h.moves.trans h'.moves
  all := by
    rcases h'.all with hnil | hall
    · exact .inl hnil
    · right
      rw [hall, hsent, List.append_assoc]

/-- Only the log and what is about reading have changed since. -/
theorem Flushes.congr {c'' : Client} {data : Bytes} (h : Flushes c data c')
    (hsends : c''.sends = c'.sends) (hsent : c''.sent = c'.sent) : Flushes c data c'' where
  patient := hsends ▸ h.patient
  moves := by rw [hsends, hsent]; exact h.moves
  all := by rw [hsends, hsent]; exact h.all

/-- One frame is sent to a patient socket, and the run goes on. -/
theorem flushes_writeAll (h : Patient c.sends) (frame : Bytes) {rest : Bytes}
    (line : Bytes → ClientLine) {next : Client → Option ℕ × Client}
    (hnext : ∀ c', Patient c'.sends → c'.received = c.received → Flushes c' rest (next c').2) :
    Flushes c (frame ++ rest) (match c.writeAll frame with
      | (none, c) => (none, c)
      | (some err, c) => if err ≠ [] then (some 4, c.log (line err)) else next c).2 := by
  obtain ⟨hf, hr⟩ := writeAll_flushes h frame
  obtain ⟨p, q, hw⟩ := c.writeAll_spec frame
  rcases hrun : c.writeAll frame with ⟨_ | err, c'⟩ <;> rw [hrun] at hf hr hw
  · -- still waiting for this frame
    rcases hr with hr | ⟨-, hnil⟩
    · cases hr
    · exact hf.starved hnil _
  · obtain rfl : err = [] := by
      rcases hr with hr | ⟨hr, -⟩
      · exact Option.some.inj hr
      · cases hr
    have hall : c'.sent = c.sent ++ frame := by
      rw [hw.sent, hw.data, hw.all.mp rfl, List.append_nil]
    exact hf.trans hall (hnext c' hf.patient hw.received)

theorem finish_flushes (h : Patient c.sends) (hreceived : c.received = []) (crc : Crc32) :
    Flushes c (buildEnd crc.value) (c.finish fileSize crc).2 := by
  rw [finish, ← List.append_nil (buildEnd crc.value)]
  refine flushes_writeAll h (buildEnd crc.value) _ fun c' hpatient hkeep => ?_
  -- the END is out
  obtain ⟨-, hsent, hsends⟩ := c'.readAck_spec (hkeep.trans hreceived)
  have hstay : Flushes c' [] c' := ⟨hpatient, Nat.le_refl _, .inr (List.append_nil _).symm⟩
  have hack := hstay.congr hsends hsent
  split
  · rename_i c'' hread
    rw [hread] at hack
    exact hack
  rename_i result c'' hread
  rw [hread] at hack
  split
  · exact hack.congr rfl rfl
  split
  · exact hack.congr rfl rfl
  · exact hack.congr rfl rfl

theorem sendBody_flushes (h : Patient c.sends) (hreceived : c.received = []) {sent : ℕ}
    (crc : Crc32) (hlt : fileSize < 2 ^ 64) (fileReads : List Bytes)
    (hne : ∀ d ∈ fileReads.map (List.take CHUNK_SIZE), d ≠ [])
    (hsize : sent + (fileReads.map (List.take CHUNK_SIZE)).flatten.length = fileSize) :
    Flushes c ((fileReads.map (List.take CHUNK_SIZE)).flatMap buildData ++
        buildEnd (crc.update (fileReads.map (List.take CHUNK_SIZE)).flatten).value)
      (c.sendBody path fileSize sent crc fileReads).2 := by
  induction fileReads generalizing c sent crc with
  | nil =>
    rw [List.map_nil, List.flatten_nil, List.length_nil, Nat.add_zero] at hsize
    rw [sendBody, if_neg (by omega), List.map_nil, List.flatMap_nil, List.nil_append,
      List.flatten_nil, Crc32.update_nil]
    exact finish_flushes h hreceived crc
  | cons read fileReads ih =>
    set chunk := read.take CHUNK_SIZE with hchunk
    simp only [List.map_cons, List.forall_mem_cons] at hne
    rw [List.map_cons, List.flatten_cons, List.length_append, ← hchunk] at hsize
    have hpos := List.length_pos_of_ne_nil hne.1
    rw [← hchunk] at hpos
    rw [sendBody, if_pos (by omega)]
    simp only [← hchunk]
    rw [if_neg (by omega), List.map_cons, List.flatMap_cons, List.append_assoc, List.flatten_cons,
      Crc32.update_append]
    refine flushes_writeAll h (buildData chunk) _ fun c' hpatient hkeep => ?_
    rw [Nat.mod_eq_of_lt (by omega)]
    exact ih hpatient (hkeep.trans hreceived) (crc.update chunk) hne.2 (by omega)

theorem Undisturbed.fileSize_eq {F : Bytes} {sys : ClientSys} (h : Undisturbed F sys)
    (hlen : F.length < 2 ^ 63) : sys.fileSize = F.length := by
  rw [ClientSys.fileSize, h.tellg]
  show ((F.length : ℤ) % 2 ^ 64).toNat = F.length
  omega

theorem sendFile_flushes (path : Bytes) {F : Bytes} {sys : ClientSys} (h : Undisturbed F sys)
    (hfile : sys.fileReads = pieces F) (hlen : F.length < 2 ^ 63) :
    Flushes { sends := sys.sends, reads := sys.reads, errno := sys.errno }
      (uploadBytes F.length (baseName path) (pieces F)) (sendFile path sys).2 := by
  have hsize : ((F.length : ℤ) % 2 ^ 64).toNat = F.length := by omega
  simp only [sendFile, h.tellg, h.seekFault, h.connectFault, hsize, Bool.false_eq_true, if_false]
  set c : Client := ({ sends := sys.sends, reads := sys.reads, errno := sys.errno } : Client).log
    (.started (baseName path) F.length) with hc
  have hreads : sys.fileReads.map (List.take CHUNK_SIZE) = pieces F := by rw [hfile, take_pieces]
  have hpatient : Patient c.sends := h.patient
  have hstart : ∀ {data : Bytes} {c' : Client}, Flushes c data c' →
      Flushes { sends := sys.sends, reads := sys.reads, errno := sys.errno } data c' := fun hf =>
    ⟨hf.patient, hf.moves, hf.all⟩
  rw [uploadBytes, bodyBytes, List.append_assoc]
  refine hstart (flushes_writeAll hpatient (buildHello F.length (baseName path)) _
    fun c' hpatient' hkeep => ?_)
  rw [← hreads]
  exact sendBody_flushes hpatient' hkeep {} (by omega) sys.fileReads
    (by rw [hreads]; exact fun d hd => piece_ne_nil hd)
    (by rw [hreads, flatten_pieces, Nat.zero_add])

/-- What an undisturbed client has read of its file, and what it has come to. -/
theorem Undisturbed.outcome (path : Bytes) {F : Bytes} {sys : ClientSys} (h : Undisturbed F sys)
    (hlen : F.length < 2 ^ 63) :
    ∃ ds, ds <+: pieces F ∧ (F.length ≤ ds.flatten.length % 2 ^ 64 → ds = pieces F) ∧
      Outcome F.length (baseName path) ds sys.reads (sendFile path sys) := by
  obtain ⟨ds, hfront, hout⟩ := sendFile_outcome path sys
  rw [h.fileSize_eq hlen] at hout
  have hds : ds <+: pieces F := by
    have := hfront.trans (h.fileReads.map (List.take CHUNK_SIZE))
    rwa [take_pieces] at this
  have hle : ds.flatten.length ≤ F.length := by
    have := hds.flatten.length_le
    rwa [flatten_pieces] at this
  exact ⟨ds, hds, fun hsize => eq_pieces hds (by omega), hout⟩

/-- An undisturbed client sends its upload, and nothing else. -/
theorem sent_front (path : Bytes) {F : Bytes} {sys : ClientSys} (h : Undisturbed F sys)
    (hlen : F.length < 2 ^ 63) :
    (sendFile path sys).2.sent <+: uploadBytes F.length (baseName path) (pieces F) := by
  obtain ⟨ds, hds, hall, hout⟩ := h.outcome path hlen
  have hbody : bodyBytes F.length (baseName path) ds <+:
      uploadBytes F.length (baseName path) (pieces F) :=
    ((List.prefix_append_right_inj _).mpr (hds.flatMap buildData)).trans (List.prefix_append _ _)
  cases hout with
  | cut _ hsent => exact hsent.trans hbody
  | ended _ hsize hsent hend =>
    rw [hsent, hall hsize, uploadBytes, ← hall hsize, hend]
    exact (List.prefix_append_right_inj _).mpr (List.prefix_append _ _)
  | waiting _ hsize hsent => rw [hsent, hall hsize]
  | unconfirmed _ hsize hsent => rw [hsent, hall hsize]
  | replied _ hsize hsent => rw [hsent, hall hsize]

/-- With all of it out, the client is at its ACK. -/
theorem hears_of_sent (path : Bytes) {F : Bytes} {sys : ClientSys} (h : Undisturbed F sys)
    (hlen : F.length < 2 ^ 63)
    (hall : (sendFile path sys).2.sent = uploadBytes F.length (baseName path) (pieces F)) :
    Hears sys.reads (sendFile path sys) := by
  obtain ⟨ds, hds, hpieces, hout⟩ := h.outcome path hlen
  cases hout with
  | cut _ hsent =>
    have hshort := (hsent.trans ((List.prefix_append_right_inj _).mpr
      (hds.flatMap buildData))).length_le
    rw [hall, uploadBytes, List.length_append, buildEnd, length_buildFrame] at hshort
    simp only [HEADER_SIZE, bodyBytes, List.length_append] at hshort
    omega
  | ended _ hsize hsent hend hq =>
    rw [hall, hpieces hsize, uploadBytes, List.append_right_inj, ← hpieces hsize, hend] at hsent
    exact absurd (List.append_right_eq_self.mp hsent) hq
  | waiting _ _ _ _ hhears => exact hhears
  | unconfirmed _ _ _ _ hhears => exact hhears
  | replied _ _ _ _ _ _ _ hhears => exact hhears

/-- And all of it, once the socket has taken something often enough. -/
theorem sent_all (path : Bytes) {F : Bytes} {sys : ClientSys} (h : Undisturbed F sys)
    (hlen : F.length < 2 ^ 63)
    (hfile : sys.fileReads = pieces F)
    (hmoves : (uploadBytes F.length (baseName path) (pieces F)).length ≤ moves sys.sends) :
    (sendFile path sys).2.sent = uploadBytes F.length (baseName path) (pieces F) := by
  have hf := sendFile_flushes path h hfile hlen
  have hfront := sent_front path h hlen
  rcases hf.all with hnil | hall
  · have hm := hf.moves
    have hzero : moves [] = 0 := List.countP_nil
    rw [hnil, hzero, Nat.zero_add] at hm
    exact hfront.eq_of_length_le (hmoves.trans ((Nat.le_add_right _ _).trans hm))
  · rw [hall, List.nil_append]

end Patient

end Client

end Nexus
