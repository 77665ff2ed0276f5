/-
The client and the size it declares.

`sendFile` takes the size of the file once, and then reads chunks until it has sent
that much; the last chunk is not cut. What it sends is right as long as no read
gives more than is missing (`Fits`), however the file changes; a file that grew
makes it send more than it declared.

* `Client.honours_declaration` — what was sent keeps to the declaration, with any
  answers of the connection, exactly when the reads fit.
-/
import NexusTransmitter.ClientRun

open Nexus.Upload Nexus.FrameParser StreamDecoder

namespace Nexus

/-- The bytes `sent` are of a HELLO, DATA frames that are not empty and hold no more
than declared, and an END with their checksum once they hold all of it. -/
def Honours (fileSize : ℕ) (name sent : Bytes) : Prop :=
  ∃ ds : List Bytes, (∀ d ∈ ds, 0 < d.length ∧ d.length ≤ MAX_PAYLOAD) ∧
    ds.flatten.length ≤ fileSize ∧
    (sent <+: bodyBytes fileSize name ds ∨
      ds.flatten.length = fileSize ∧ sent <+: uploadBytes fileSize name ds)

/-- No read gives more than is missing, when `sent` bytes have been read. A read
that gives nothing is the last one. -/
def Fits (fileSize sent : ℕ) : List Bytes → Prop
  | [] => True
  | read :: fileReads =>
    sent < fileSize → read ≠ [] →
      sent + (read.take CHUNK_SIZE).length ≤ fileSize ∧
        Fits fileSize (sent + (read.take CHUNK_SIZE).length) fileReads

section Frames

variable {fileSize : ℕ} {name : Bytes} {xs ds : List Bytes}

/-- The DATA frames of a front part of an upload are a front part of its DATA
frames. -/
theorem prefix_of_bodyBytes (hxs : ∀ d ∈ xs, d.length ≤ MAX_PAYLOAD)
    (hds : ∀ d ∈ ds, d.length ≤ MAX_PAYLOAD)
    (h : bodyBytes fileSize name xs <+: uploadBytes fileSize name ds) : xs <+: ds := by
  rw [← encodeFrames_opening, ← encodeFrames_uploadFrames] at h
  have hframes : opening fileSize name xs <+: uploadFrames fileSize name ds :=
    Codec.prefix_of_encodeAll (C := frameCodec) (opening_valid fileSize name hxs)
      (uploadFrames_valid fileSize name hds) h
  rw [uploadFrames, opening, opening, List.cons_append, List.prefix_cons_inj,
    List.prefix_concat_iff] at hframes
  rcases hframes with heq | hfront
  · -- the END is none of the DATA frames
    have hend : ({ type := .end, data := putU32 (crc32 ds.flatten) } : Frame) ∈
        xs.map fun d => ({ type := .data, data := d } : Frame) := by
      rw [heq]
      simp
    simp at hend
  · simpa [Function.comp_def] using hfront.map Frame.data

end Frames

namespace Client

/-! ### Reads that fit -/

section Fits

variable {fileSize sent : ℕ} {name : Bytes} {ds fileReads : List Bytes} {reads : List ReadAnswer}

/-- While the reads fit, the chunks sent are as the declaration says. -/
theorem Chunks.le_of_fits (h : Chunks fileSize sent ds)
    (hfront : ds <+: fileReads.map (List.take CHUNK_SIZE)) (hfits : Fits fileSize sent fileReads)
    (hlt : fileSize < 2 ^ 64) (hle : sent ≤ fileSize) :
    (∀ d ∈ ds, d ≠ []) ∧ sent + ds.flatten.length ≤ fileSize := by
  induction ds generalizing sent fileReads with
  | nil => exact ⟨fun d hd => absurd hd List.not_mem_nil, hle⟩
  | cons d ds ih =>
    obtain ⟨hmissing, hne, hrest⟩ := h
    cases fileReads with
    | nil => exact absurd (List.prefix_nil.mp hfront) (List.cons_ne_nil d ds)
    | cons read fileReads =>
      obtain ⟨rfl, hfront'⟩ := List.cons_prefix_cons.mp hfront
      rw [Nat.mod_eq_of_lt (Nat.lt_of_le_of_lt hle hlt)] at hmissing
      have hread : read ≠ [] := by
        rintro rfl
        exact hne List.take_nil
      obtain ⟨hone, hfits⟩ := hfits hmissing hread
      obtain ⟨hall, htotal⟩ := ih hrest hfront' hfits hone
      refine ⟨List.forall_mem_cons.mpr ⟨hne, hall⟩, ?_⟩
      rw [List.flatten_cons, List.length_append]
      omega

/-- What a run has sent keeps to the declaration, if the chunks do. -/
theorem Outcome.honours {r : Option ℕ × Client} (h : Outcome fileSize name ds reads r)
    (hds : ∀ d ∈ ds, 0 < d.length ∧ d.length ≤ MAX_PAYLOAD) (hlt : fileSize < 2 ^ 64)
    (hle : ds.flatten.length ≤ fileSize) : Honours fileSize name r.2.sent := by
  have hall : fileSize ≤ ds.flatten.length % 2 ^ 64 → ds.flatten.length = fileSize := by omega
  refine ⟨ds, hds, hle, ?_⟩
  cases h with
  | cut hexit hsent => exact .inl hsent
  | ended hexit hsize hsent hend =>
    refine .inr ⟨hall hsize, ?_⟩
    rw [hsent, uploadBytes, hend]
    exact (List.prefix_append_right_inj _).mpr (List.prefix_append _ _)
  | waiting hexit hsize hsent => exact .inr ⟨hall hsize, by rw [hsent]⟩
  | unconfirmed hexit hsize hsent => exact .inr ⟨hall hsize, by rw [hsent]⟩
  | replied hexit hsize hsent => exact .inr ⟨hall hsize, by rw [hsent]⟩

theorem honours_of_fits (path : Bytes) (sys : ClientSys)
    (hfits : Fits sys.fileSize 0 sys.fileReads) :
    Honours sys.fileSize (baseName path) (sendFile path sys).2.sent := by
  obtain ⟨ds, hfront, hchunks, hout⟩ := sendFile_chunks path sys
  obtain ⟨hne, hle⟩ := hchunks.le_of_fits hfront hfits sys.fileSize_lt (Nat.zero_le _)
  rw [Nat.zero_add] at hle
  exact hout.honours
    (fun d hd => ⟨List.length_pos_of_ne_nil (hne d hd), length_le_of_reads hfront d hd⟩)
    sys.fileSize_lt hle

end Fits

/-! ### A read that does not -/

section Overrun

variable {fileSize sent : ℕ} {name path : Bytes} {xs fileReads : List Bytes}

/-- More DATA than declared keeps to no declaration. -/
theorem not_honours (hxs : ∀ d ∈ xs, d.length ≤ MAX_PAYLOAD) (hlt : fileSize < xs.flatten.length) :
    ¬ Honours fileSize name (bodyBytes fileSize name xs) := by
  rintro ⟨ds, hds, hle, hsent⟩
  have hfront : xs <+: ds := by
    have hbody : bodyBytes fileSize name xs <+: uploadBytes fileSize name ds := by
      rcases hsent with hsent | ⟨-, hsent⟩
      · exact hsent.trans (List.prefix_append _ _)
      · exact hsent
    exact prefix_of_bodyBytes hxs (fun d hd => (hds d hd).2) hbody
  have hlen := hfront.flatten.length_le
  omega

/-- A `write` that takes any frame. -/
def takesFrame : SendAnswer := .took (HEADER_SIZE + MAX_PAYLOAD + TRAILER_SIZE)

theorem writeAll_frame (c : Client) (type : FrameType) {data : Bytes} {sends : List SendAnswer}
    (hsends : c.sends = takesFrame :: sends) (hdata : data.length ≤ MAX_PAYLOAD) :
    c.writeAll (buildFrame type data) =
      (some [], { c with sent := c.sent ++ buildFrame type data, sends := sends }) := by
  have hlen := length_buildFrame type data
  have hpos : 0 < (buildFrame type data).length := by
    rw [hlen, HEADER_SIZE]
    omega
  rw [writeAll, hsends, takesFrame, writeLoop.eq_def, if_neg (List.ne_nil_of_length_pos hpos)]
  dsimp only
  rw [Nat.min_eq_right (by omega), if_pos hpos, List.take_length, List.drop_length,
    writeLoop.eq_def, if_pos rfl]
  rfl

/-- With no more answers, nothing more is sent. -/
theorem writeAll_starved (c : Client) (type : FrameType) (data : Bytes) (hsends : c.sends = []) :
    c.writeAll (buildFrame type data) = (none, c) := by
  have hpos : 0 < (buildFrame type data).length := by
    rw [length_buildFrame, HEADER_SIZE]
    omega
  rw [writeAll, hsends, writeLoop.eq_def, if_neg (List.ne_nil_of_length_pos hpos)]
  dsimp only
  rw [← hsends]

theorem sendBody_starved (c : Client) (hsends : c.sends = []) (crc : Crc32)
    (fileReads : List Bytes) :
    (c.sendBody path fileSize sent crc fileReads).2.sent = c.sent := by
  rw [sendBody.eq_def]
  split
  · cases fileReads with
    | nil => rfl
    | cons read fileReads =>
      dsimp only
      split
      · rfl
      · rw [buildData, writeAll_starved c .data _ hsends]
  · rw [finish, buildEnd, writeAll_starved c .end _ hsends]

/-- Reads that do not fit make the loop of `sendFile` send more than is missing, when
the socket takes it. -/
theorem sendBody_overruns (path : Bytes) (h : ¬ Fits fileSize sent fileReads)
    (hlt : fileSize < 2 ^ 64) :
    ∃ xs : List Bytes, (∀ d ∈ xs, d.length ≤ MAX_PAYLOAD) ∧ fileSize < sent + xs.flatten.length ∧
      ∀ (c : Client) (crc : Crc32), c.sends = List.replicate xs.length takesFrame →
        (c.sendBody path fileSize sent crc fileReads).2.sent = c.sent ++ xs.flatMap buildData := by
  induction fileReads generalizing sent with
  | nil => exact absurd trivial h
  | cons read fileReads ih =>
    rw [Fits] at h
    push Not at h
    obtain ⟨hmissing, hread, hover⟩ := h
    set chunk := read.take CHUNK_SIZE with hchunk
    have hlen : chunk.length ≤ MAX_PAYLOAD := List.length_take_le CHUNK_SIZE read
    have hpos : 0 < chunk.length := by
      rw [hchunk, List.length_take]
      exact Nat.lt_min.mpr ⟨by decide, List.length_pos_of_ne_nil hread⟩
    -- one turn of the loop
    have hturn : ∀ (c : Client) (crc : Crc32) (n : ℕ),
        c.sends = List.replicate (n + 1) takesFrame →
        ∃ c' : Client, c'.sends = List.replicate n takesFrame ∧
          c'.sent = c.sent ++ buildData chunk ∧
          c.sendBody path fileSize sent crc (read :: fileReads) =
            c'.sendBody path fileSize ((sent + chunk.length) % 2 ^ 64) (crc.update chunk)
              fileReads := by
      intro c crc n hsends
      refine ⟨{ c with sent := c.sent ++ buildData chunk, sends := List.replicate n takesFrame },
        rfl, rfl, ?_⟩
      rw [sendBody.eq_def, if_pos hmissing]
      dsimp only
      rw [← hchunk, if_neg (by omega), buildData, writeAll_frame c .data hsends hlen]
      dsimp only
      rw [if_neg (by simp)]
    by_cases hone : sent + chunk.length ≤ fileSize
    · obtain ⟨xs, hxs, htotal, hrun⟩ := ih (hover hone)
      refine ⟨chunk :: xs, List.forall_mem_cons.mpr ⟨hlen, hxs⟩, ?_, fun c crc hsends => ?_⟩
      · rw [List.flatten_cons, List.length_append]
        omega
      · obtain ⟨c', hsends', hsent', heq⟩ := hturn c crc xs.length hsends
        rw [heq, Nat.mod_eq_of_lt (by omega), hrun c' _ hsends', hsent', List.append_assoc,
          List.flatMap_cons]
    · refine ⟨[chunk], List.forall_mem_singleton.mpr hlen, ?_, fun c crc hsends => ?_⟩
      · rw [List.flatten_singleton]
        omega
      · obtain ⟨c', hsends', hsent', heq⟩ := hturn c crc 0 hsends
        rw [heq, sendBody_starved c' hsends', hsent', List.flatMap_singleton]

/-- A run with reads that do not fit, and a socket that takes what it gets. -/
theorem sendFile_overruns (path : Bytes) {tellg : ℤ}
    (h : ¬ Fits (tellg % 2 ^ 64).toNat 0 fileReads) :
    ∃ sys : ClientSys, sys.tellg = some tellg ∧ sys.fileReads = fileReads ∧
      ¬ Honours sys.fileSize (baseName path) (sendFile path sys).2.sent := by
  set fileSize := (tellg % 2 ^ 64).toNat with hsize
  obtain ⟨xs, hxs, htotal, hrun⟩ := sendBody_overruns path h (by omega)
  let sys : ClientSys :=
    { tellg := some tellg
      fileReads := fileReads
      sends := List.replicate (xs.length + 1) takesFrame }
  have hsent : (sendFile path sys).2.sent = bodyBytes fileSize (baseName path) xs := by
    simp only [sys, sendFile, Bool.false_eq_true, if_false, ← hsize, buildHello]
    rw [writeAll_frame _ .hello List.replicate_succ
      (length_helloPayload_le fileSize (baseName path))]
    simp only [ne_eq, not_true_eq_false, if_false]
    rw [hrun _ _ rfl, bodyBytes, buildHello]
    exact congrArg (· ++ xs.flatMap buildData) (List.nil_append _)
  have hdeclared : sys.fileSize = fileSize := rfl
  refine ⟨sys, rfl, rfl, ?_⟩
  rw [hsent, hdeclared]
  exact not_honours hxs (by omega)

end Overrun

/-- **What the client declares, and what it sends.** Whatever happens to the file and
to the connection, what `sendFile` has sent keeps to the HELLO, exactly when no read
gives more than is missing. -/
theorem honours_declaration (path : Bytes) (tellg : Option ℤ) (fileReads : List Bytes) :
    (∀ sys : ClientSys, sys.tellg = tellg → sys.fileReads = fileReads →
      Honours sys.fileSize (baseName path) (sendFile path sys).2.sent) ↔
    ∀ size, tellg = some size → Fits (size % 2 ^ 64).toNat 0 fileReads := by
  constructor
  · rintro hall size rfl
    by_contra hfits
    obtain ⟨sys, htellg, hreads, hnot⟩ := sendFile_overruns path hfits
    exact hnot (hall sys htellg hreads)
  · rintro hfits sys rfl rfl
    cases htellg : sys.tellg with
    | none =>
      refine ⟨[], nofun, Nat.zero_le _, .inl ?_⟩
      rw [sendFile, htellg]
      exact List.nil_prefix
    | some size =>
      refine honours_of_fits path sys ?_
      rw [ClientSys.fileSize, htellg]
      exact hfits size htellg

/-- A file of one byte that has grown to two when it is read. -/
theorem sends_more_than_declared :
    ¬ ∀ (path : Bytes) (sys : ClientSys),
      Honours sys.fileSize (baseName path) (sendFile path sys).2.sent := by
  intro hall
  let sys : ClientSys :=
    { tellg := some 1
      fileReads := [[1#8, 2#8]]
      sends := [.took 100, .took 100] }
  have hover := hall (str "a") sys
  have hdeclared : sys.fileSize = 1 := by decide +kernel
  have hname : baseName (str "a") = str "a" := by decide +kernel
  have hsent : (sendFile (str "a") sys).2.sent = bodyBytes 1 (str "a") [[1#8, 2#8]] := by
    decide +kernel
  rw [hdeclared, hname, hsent] at hover
  exact not_honours (by decide) (by decide) hover

end Client

end Nexus
