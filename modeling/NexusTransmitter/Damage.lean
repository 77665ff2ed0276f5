/-
What becomes of a damaged frame.

The checksums are there for bits that change on the way. A frame in which the changed bits lie
within 32 consecutive ones is given up by the parser, whatever comes after it, so the verdict
on the stream is `ProtocolError`: the session that receives it answers so, or has answered
something worse before, and nothing is stored. A client whose answer is damaged in that way
takes it for none.

* `parseAt_damaged` — no frame comes out of a damaged one;
* `Server.damaged_not_stored` — a damaged upload is not stored;
* `Client.damaged_not_believed` — a damaged ACK is not believed.
-/
import NexusTransmitter.BurstErrors
import NexusTransmitter.Transfer

open ShiftRegister LittleEndian Nexus.Upload Nexus.FrameParser

namespace Nexus

/-- The bytes of a frame in which the bits of `e` have been flipped. -/
def damaged (f : Frame) (e : Bytes) : Bytes :=
  List.zipWith (· ^^^ ·) (buildFrame f.type f.data) e

/-- A pattern for the bytes of a frame: it flips something, and all within 32 bits. -/
structure Burst (f : Frame) (e : Bytes) : Prop where
  length : e.length = (buildFrame f.type f.data).length
  flips : ∃ b ∈ e, b ≠ 0#8
  window : ∃ k, Window 32 k (bits e)

/-- A change within four bytes is a burst. -/
theorem Burst.of_bytes {f : Frame} {i j : ℕ} {w : Bytes} (hw : w.length ≤ 4)
    (hne : ∃ b ∈ w, b ≠ 0#8) (hlen : i + w.length + j = (buildFrame f.type f.data).length) :
    Burst f (List.replicate i 0#8 ++ w ++ List.replicate j 0#8) where
  length := by
    rw [← hlen]
    simp only [List.length_append, List.length_replicate]
  flips := by
    obtain ⟨b, hb, hb0⟩ := hne
    exact ⟨b, by simp [hb], hb0⟩
  window := by
    refine ⟨8 * i, fun p hp => ?_⟩
    rw [bits_append, bits_append, bits_zeros, bits_zeros] at hp
    have hno : ∀ n k : ℕ, (List.replicate n false)[k]? ≠ some true := by
      intro n k hk
      have hmem := List.mem_of_getElem? hk
      rw [List.mem_replicate] at hmem
      exact absurd hmem.2 (by decide)
    -- before the four bytes and after them every bit is 0
    by_cases hend : p < 8 * i + 8 * w.length
    · rw [List.getElem?_append_left (by simpa using hend)] at hp
      by_cases hbegin : p < 8 * i
      · rw [List.getElem?_append_left (by simpa using hbegin)] at hp
        exact absurd hp (hno _ _)
      · omega
    · rw [List.getElem?_append_right (by simpa using hend)] at hp
      exact absurd hp (hno _ _)

/-- A pattern, cut where the regions of the frame end. -/
theorem exists_cut {e : Bytes} {n : ℕ} (h : e.length = HEADER_SIZE + n + TRAILER_SIZE) :
    ∃ e₁ e₂ e₃ e₄ : Bytes, e = (e₁ ++ e₂) ++ (e₃ ++ e₄) ∧ e₁.length = HEADER_CRC_SPAN ∧
      e₂.length = 4 ∧ e₃.length = n ∧ e₄.length = 4 := by
  simp only [HEADER_SIZE, TRAILER_SIZE] at h
  refine ⟨(e.take 13).take 9, (e.take 13).drop 9, (e.drop 13).take n, (e.drop 13).drop n,
    ?_, ?_, ?_, ?_, ?_⟩
  · rw [List.take_append_drop, List.take_append_drop, List.take_append_drop]
  all_goals
    simp only [List.length_take, List.length_drop, HEADER_CRC_SPAN]
    omega

theorem parseAt_damaged {f : Frame} (hmax : f.data.length ≤ MAX_PAYLOAD) {e : Bytes}
    (h : Burst f e) (t : Bytes) : ∃ err, parseAt (damaged f e ++ t) = .error err := by
  obtain ⟨k, hwin⟩ := h.window
  have hlen := h.length
  rw [length_buildFrame] at hlen
  obtain ⟨e₁, e₂, e₃, e₄, rfl, h₁, h₂, h₃, h₄⟩ := exists_cut hlen
  exact parseAt_burst f.type hmax h₁ h₂ h₃ h₄ h.flips hwin t

/-! ### A damaged upload -/

/-- The verdict on a stream with a damaged frame, if there is no END before it. -/
theorem Upload.ofStream_damaged {pre : List Frame} {f : Frame} {e : Bytes}
    (hvalid : Valid (pre ++ [f])) (hpre : ∀ g ∈ pre, g.type ≠ .end) (hburst : Burst f e)
    (rest : Bytes) :
    ∃ status file, ofStream (encodeFrames pre ++ (damaged f e ++ rest)) = .answered status file ∧
      status ≠ .ok := by
  have hvalid' : Valid pre := fun g hg => hvalid g (List.mem_append_left _ hg)
  by_cases hdone : (pre.foldl frame start).Answered
  · cases hfold : pre.foldl frame start with
    | start => exact absurd hdone (by rw [hfold]; exact id)
    | body size payload => exact absurd hdone (by rw [hfold]; exact id)
    | answered status file =>
      refine ⟨status, file, ofStream_of_answered hvalid' hfold _, ?_⟩
      rintro rfl
      exact foldl_ne_ok hpre file hfold
  · obtain ⟨err, herr⟩ := parseAt_damaged (hvalid f (by simp)) hburst rest
    exact ⟨_, _, ofStream_of_error hvalid' hdone herr, by simp⟩

namespace Server

variable {config : ServerConfig} {l g : ℕ} {os₀ os : Os} {srv : Server}

/-- **A damaged upload is not stored.**  In every state that the server reaches, and for every
session, whatever else goes on: if what it has received is a front part of a stream in which
some frame has been damaged by a burst of at most 32 bits, and no END stands before that,

* then it has published nothing, and has linked nothing;
* once it has received the damaged frame, it has its verdict, which is not Ok. -/
theorem damaged_not_stored (h : Ready os₀ l g) (hreach : Reach config l g os₀ srv os) {s : Session}
    (hs : s ∈ srv.all) {pre : List Frame} {f : Frame} {e rest : Bytes} (hvalid : Valid (pre ++ [f]))
    (hpre : ∀ f ∈ pre, f.type ≠ .end) (hburst : Burst f e)
    (hreceived : s.hist.received <+: encodeFrames pre ++ (damaged f e ++ rest)) :
    (s.writer.published = none ∧ ∀ p, .link p none ∉ s.writer.log) ∧
      (encodeFrames pre ++ damaged f e <+: s.hist.received →
        ∃ status message, s.hist.acks = [(status, message)] ∧ status ≠ .ok) := by
  have hlast := (reach_good h hreach).disk.lasting s hs
  have hnot : ∀ file, ¬ Verdict s.hist.received .ok file := by
    intro file hv
    obtain ⟨status, file', hstream, hne⟩ := ofStream_damaged hvalid hpre hburst rest
    rw [ofStream_of_verdict (hv.mono hreceived)] at hstream
    cases hstream
    exact hne rfl
  have hpub : s.writer.published = none := by
    by_contra hsome
    obtain ⟨⟨p, i⟩, hp⟩ := Option.ne_none_iff_exists'.mp hsome
    obtain ⟨name, hans, -⟩ := hlast.file hp
    exact hnot _ (hlast.tracks.verdict_ok hans)
  refine ⟨⟨hpub, fun p hlink => ?_⟩, fun hall => ?_⟩
  · obtain ⟨i, hi⟩ := (hlast.calls.published p).mp hlink
    rw [hpub] at hi
    cases hi
  · obtain ⟨t, ht⟩ := hall
    obtain ⟨status, file, hstream, -⟩ := ofStream_damaged hvalid hpre hburst t
    rw [← List.append_assoc, ht] at hstream
    have hacks := Session.acks_of_ofStream hlast.account hlast.quiet hlast.tracks
      (by rw [hstream]; trivial)
    obtain ⟨status', message, hans⟩ :=
      hlast.account.answered_of_state fun hstate => hacks (hlast.account.silent_iff.mpr hstate)
    refine ⟨status', message, hans.acks, ?_⟩
    rintro rfl
    exact hnot _ (hlast.tracks.verdict_ok hans)

/-- A HELLO, of which a bit of the declared size has been flipped. -/
theorem damaged_not_stored_hello :
    ∃ r : Server × Os,
      Reach { outDir := str "in", idleTimeout := 30, maxSessions := 2 } 3 4 (bare 1 3 4) r.1 r.2 ∧
      ∃ s ∈ r.1.all, s.hist.received = damaged ⟨.hello, helloPayload 3 (str "a.txt")⟩
          (List.replicate 13 0#8 ++ [4#8] ++ List.replicate 18 0#8) ∧
        s.writer.published = none ∧
        ∃ status message, s.hist.acks = [(status, message)] ∧ status ≠ .ok := by
  obtain ⟨e, he⟩ : ∃ e : Bytes, e = List.replicate 13 0#8 ++ [4#8] ++ List.replicate 18 0#8 :=
    ⟨_, rfl⟩
  obtain ⟨f, hf⟩ : ∃ f : Frame, f = ⟨.hello, helloPayload 3 (str "a.txt")⟩ := ⟨_, rfl⟩
  have hburst : Burst f e := by
    rw [hf, he]
    exact .of_bytes (by decide) ⟨4#8, by decide, by decide⟩ (by decide)
  obtain ⟨r₁, h₁⟩ : ∃ r, (create { outDir := str "in", idleTimeout := 30, maxSessions := 2 } 3
      4).acceptConnections (registered (bare 1 3 4) 3 4) [{ fd := 5, now := 0 }] = r := ⟨_, rfl⟩
  have hevent := Step.event r₁.1
    { os := r₁.2
      openAnswer := .err []
      localTime := { year := 124, mon := 0, mday := 1, hour := 0, min := 0, sec := 0 }
      now := 0 }
    { fd := 5, events := EPOLLIN, reads := [.bytes (damaged f e)] }
    (by rw [← h₁]; rfl) (by rw [← h₁]; show 5 ≠ 3; decide) (by rw [← h₁]; show 5 ≠ 4; decide)
  generalize h₂ : handleSession _ _ _ = r₂ at hevent
  have haccept := Step.accept
    (create { outDir := str "in", idleTimeout := 30, maxSessions := 2 } 3 4)
    (registered (bare 1 3 4) 3 4) [{ fd := 5, now := 0 }] rfl
  rw [h₁] at haccept
  have hreach : Reach { outDir := str "in", idleTimeout := 30, maxSessions := 2 } 3 4 (bare 1 3 4)
      r₂.1 r₂.2 := .tail (.single haccept) hevent
  have hreceived : r₂.1.all.map (fun s => s.hist.received) = [damaged f e] := by
    rw [← h₂, ← h₁, hf, he]
    decide +kernel
  obtain ⟨s, hs⟩ := List.length_eq_one_iff.mp (by simpa using congrArg List.length hreceived)
  have hmem : s ∈ r₂.1.all := by rw [hs]; exact List.mem_singleton.mpr rfl
  have hall : s.hist.received = damaged f e := by
    rw [hs] at hreceived
    exact List.head_eq_of_cons_eq hreceived
  have hvalid : Valid ([] ++ [f]) := by
    intro g hg
    obtain rfl : g = f := List.mem_singleton.mp hg
    rw [hf]
    decide
  have hstream : s.hist.received = encodeFrames [] ++ (damaged f e ++ []) := by
    rw [hall, List.append_nil]
    rfl
  obtain ⟨⟨hpub, -⟩, hacks⟩ := damaged_not_stored (ready_bare 1 3 4) hreach hmem hvalid (by simp)
    hburst (by rw [hstream])
  refine ⟨r₂, hreach, s, hmem, ?_, hpub, hacks ?_⟩
  · rw [hall, hf, he]
  · rw [hstream, List.append_nil]

end Server

/-! ### A damaged answer -/

/-- **A damaged ACK is not believed.**  If what the client has read is a front part of a stream
that begins with a damaged ACK, it does not return 0 or 6, as one does who has an answer; and
once it has read all of the damaged one, it has returned 5. -/
theorem Client.damaged_not_believed (path : Bytes) (sys : ClientSys) {payload e rest : Bytes}
    (hmax : payload.length ≤ MAX_PAYLOAD) (hburst : Burst ⟨.ack, payload⟩ e)
    (hreceived : (sendFile path sys).2.received <+: damaged ⟨.ack, payload⟩ e ++ rest) :
    (sendFile path sys).1 ∉ [some 0, some 6] ∧
      (damaged ⟨.ack, payload⟩ e <+: (sendFile path sys).2.received →
        (sendFile path sys).1 = some 5) := by
  obtain ⟨ds, -, hout⟩ := sendFile_outcome path sys
  have hscan := fun t => parseAt_damaged (f := ⟨.ack, payload⟩) hmax hburst t
  -- nothing that begins so is empty, or more of it is needed
  have hnot : ∀ {u}, damaged ⟨.ack, payload⟩ e <+: u → parseAt u ≠ .needMore := by
    rintro _ ⟨t, rfl⟩
    obtain ⟨err, herr⟩ := hscan t
    rw [herr]
    simp
  cases hout with
  | cut hexit _ hnil =>
    refine ⟨fun hmem => ?_, fun hall => absurd parseAt_nil (hnil ▸ hnot hall)⟩
    simp only [List.mem_cons, List.not_mem_nil, or_false] at hexit hmem
    rcases hexit with hexit | hexit | hexit | hexit <;> rw [hexit] at hmem <;> simp at hmem
  | ended hexit _ _ _ _ hnil =>
    refine ⟨fun hmem => ?_, fun hall => absurd parseAt_nil (hnil ▸ hnot hall)⟩
    simp only [List.mem_cons, List.not_mem_nil, or_false] at hexit hmem
    rcases hexit with hexit | hexit <;> rw [hexit] at hmem <;> simp at hmem
  | waiting hexit _ _ hmore => exact ⟨by rw [hexit]; simp, fun hall => absurd hmore (hnot hall)⟩
  | unconfirmed hexit => exact ⟨by rw [hexit]; simp, fun _ => hexit⟩
  | replied hexit _ _ hready =>
    obtain ⟨t, ht⟩ := hreceived
    obtain ⟨err, herr⟩ := hscan rest
    rw [← ht, parseAt_append t (by rw [hready]; simp), hready] at herr
    cases herr

/-- An Ok of which the status has been changed on the way. -/
theorem Client.damaged_not_believed_ok :
    (sendFile (str "/tmp/a.txt")
      { tellg := some 0
        sends := [.took 1000, .took 1000]
        reads := [.bytes (damaged ⟨.ack, ackPayload .ok (str "20240101_000000.hex")⟩
          (List.replicate 13 0#8 ++ [6#8] ++ List.replicate 25 0#8))] }).1 = some 5 := by
  obtain ⟨sys, hsys⟩ : ∃ sys : ClientSys, sys =
      { tellg := some 0
        sends := [.took 1000, .took 1000]
        reads := [.bytes (damaged ⟨.ack, ackPayload .ok (str "20240101_000000.hex")⟩
          (List.replicate 13 0#8 ++ [6#8] ++ List.replicate 25 0#8))] } := ⟨_, rfl⟩
  have hburst : Burst ⟨.ack, ackPayload .ok (str "20240101_000000.hex")⟩
      (List.replicate 13 0#8 ++ [6#8] ++ List.replicate 25 0#8) :=
    .of_bytes (by decide) ⟨6#8, by decide, by decide⟩ (by decide)
  have hreceived : (sendFile (str "/tmp/a.txt") sys).2.received =
      damaged ⟨.ack, ackPayload .ok (str "20240101_000000.hex")⟩
        (List.replicate 13 0#8 ++ [6#8] ++ List.replicate 25 0#8) := by
    rw [hsys]
    decide +kernel
  rw [← hsys]
  have hfront : (sendFile (str "/tmp/a.txt") sys).2.received <+:
      damaged ⟨.ack, ackPayload .ok (str "20240101_000000.hex")⟩
        (List.replicate 13 0#8 ++ [6#8] ++ List.replicate 25 0#8) ++ [] := by
    rw [hreceived, List.append_nil]
  exact (damaged_not_believed _ sys (by decide) hburst hfront).2 (by rw [hreceived])

end Nexus
