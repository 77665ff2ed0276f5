/-
How `readAck` comes to its result.

The loop of `readAck` has no counter. It ends because the parser takes a decision at the
latest when a frame of the largest size would be complete, and this decision depends on
the bytes received alone (`decision`). What the connection answers is an endless sequence
here, and `ackAfter` is `readAck` with the first `n` of its answers.

* `readAck_first_frame` — `readAck` returns, after a bounded number of bytes; it returns an
  ACK exactly when the bytes received begin with one; and without an end of the stream, a
  timeout or an error before that, neither the cutting nor what comes after the first frame
  makes a difference.
-/
import NexusTransmitter.ClientRun
import NexusTransmitter.Lib.Schedule
import NexusTransmitter.ReadLoop

open Schedule Nexus.FrameParser

namespace Nexus

/-- The bytes of an answer, as many as the buffer of `readAck` takes. -/
def ReadAnswer.got : ReadAnswer → Bytes
  | .bytes bs => bs.take READ_SIZE
  | _ => []

/-- The stream that answers make. -/
def stream (reads : List ReadAnswer) : Bytes := reads.flatMap ReadAnswer.got

theorem stream_cons (a : ReadAnswer) (reads : List ReadAnswer) :
    stream (a :: reads) = a.got ++ stream reads := List.flatMap_cons

/-- With data or an interruption each time, there is a byte for each answer that is not
an interruption. -/
theorem countP_le_length_stream {reads : List ReadAnswer} (h : ∀ a ∈ reads, a.more = true) :
    reads.countP (· ≠ .eintr) ≤ (stream reads).length := by
  induction reads with
  | nil => exact Nat.zero_le _
  | cons a reads ih =>
    have hrest := ih fun b hb => h b (List.mem_cons_of_mem a hb)
    have hfirst := h a List.mem_cons_self
    rw [stream_cons, List.length_append, List.countP_cons]
    match a with
    | .eintr =>
      rw [if_neg (by decide)]
      omega
    | .bytes [] => cases hfirst
    | .bytes (b :: bs) =>
      have hgot : 0 < (ReadAnswer.bytes (b :: bs)).got.length := by
        simp only [ReadAnswer.got, READ_SIZE, List.length_take, List.length_cons]
        omega
      split <;> omega
    | .eagain => cases hfirst
    | .err text => cases hfirst

namespace Client

/-- What `readAck` makes of the bytes received; `none` when it reads on. -/
def decision (received : Bytes) : Option AckResult :=
  match parseAt received with
  | .needMore => none
  | .error e => some { error := str "повреждён ответ сервера: " ++ e }
  | .ready f _ => some (ackOfFrame f)

/-- A decision stands whatever comes after it. -/
theorem decision_append {received : Bytes} {r : AckResult} (h : decision received = some r)
    (rest : Bytes) : decision (received ++ rest) = some r := by
  have hscan : parseAt (received ++ rest) = parseAt received := by
    refine parseAt_append rest fun hmore => ?_
    rw [decision, hmore] at h
    cases h
  rw [decision, hscan]
  exact h

theorem isSome_decision {received : Bytes} (h : parseAt received ≠ .needMore) :
    (decision received).isSome := by
  rw [decision]
  split
  · exact absurd ‹_› h
  · rfl
  · rfl

/-! ### The loop over the answers -/

section Loop

variable {c : Client} {parser : FrameParser} {reads : List ReadAnswer}

/-- As long as nothing but data and interruptions come, the result is decided by the
bytes. -/
theorem readLoop_of_more (h : parser.unread = c.received) (hmore : ∀ a ∈ reads, a.more = true) :
    (c.readLoop parser reads).1 = decision (c.received ++ stream reads) := by
  fun_induction readLoop c parser reads with
  | case1 reads c parser e q hnext =>
    have hscan := (next_error hnext).1
    rw [h] at hscan
    exact (decision_append (by rw [decision, hscan]) _).symm
  | case2 reads c parser f q hnext =>
    obtain ⟨n, hscan, -⟩ := next_ready hnext
    rw [h] at hscan
    exact (decision_append (by rw [decision, hscan]) _).symm
  | case3 c parser q hnext =>
    have hscan := (next_needMore hnext).1
    rw [h] at hscan
    have hnil : stream [] = [] := rfl
    rw [hnil, List.append_nil, decision, hscan]
  | case4 c parser q hnext reads => cases hmore _ List.mem_cons_self
  | case5 c parser q hnext b bs reads ih =>
    obtain ⟨-, rfl⟩ := next_needMore hnext
    have hrest : ∀ a ∈ reads, a.more = true := fun a ha => hmore a (List.mem_cons_of_mem _ ha)
    rw [ih (by rw [unread_feed, h]; rfl) hrest, stream_cons, ← List.append_assoc]
    rfl
  | case6 c parser q hnext reads ih =>
    obtain ⟨-, rfl⟩ := next_needMore hnext
    exact ih h fun a ha => hmore a (List.mem_cons_of_mem _ ha)
  | case7 c parser q hnext reads => cases hmore _ List.mem_cons_self
  | case8 c parser q hnext text reads => cases hmore _ List.mem_cons_self

/-- An answer that is neither data nor an interruption ends the loop, if nothing did
before. -/
theorem readLoop_of_stop {a : ReadAnswer} (ha : a ∈ reads) (hstop : a.more = false) :
    (c.readLoop parser reads).1.isSome := by
  fun_induction readLoop c parser reads with
  | case1 reads c parser e q hnext => rfl
  | case2 reads c parser f q hnext => rfl
  | case3 c parser q hnext => cases ha
  | case4 c parser q hnext reads => rfl
  | case5 c parser q hnext b bs reads ih =>
    rcases List.mem_cons.mp ha with rfl | ha
    · cases hstop
    · exact ih ha
  | case6 c parser q hnext reads ih =>
    rcases List.mem_cons.mp ha with rfl | ha
    · cases hstop
    · exact ih ha
  | case7 c parser q hnext reads => rfl
  | case8 c parser q hnext text reads => rfl

/-- A result stands when there are more answers. -/
theorem readLoop_append {r : AckResult} (h : (c.readLoop parser reads).1 = some r)
    (later : List ReadAnswer) : (c.readLoop parser (reads ++ later)).1 = some r := by
  fun_induction readLoop c parser reads with
  | case1 reads c parser e q hnext => rwa [readLoop.eq_def, hnext]
  | case2 reads c parser f q hnext => rwa [readLoop.eq_def, hnext]
  | case3 c parser q hnext => cases h
  | case4 c parser q hnext reads => rwa [List.cons_append, readLoop.eq_def, hnext]
  | case5 c parser q hnext b bs reads ih =>
    rw [List.cons_append, readLoop.eq_def, hnext]
    exact ih h
  | case6 c parser q hnext reads ih =>
    rw [List.cons_append, readLoop.eq_def, hnext]
    exact ih h
  | case7 c parser q hnext reads => rwa [List.cons_append, readLoop.eq_def, hnext]
  | case8 c parser q hnext text reads => rwa [List.cons_append, readLoop.eq_def, hnext]

/-- The loop goes by the answers it is given. -/
theorem readLoop_reads (unused : List ReadAnswer) :
    ({ c with reads := unused } : Client).readLoop parser reads = c.readLoop parser reads := by
  fun_induction readLoop c parser reads with
  | case1 reads c parser e q hnext => rw [readLoop.eq_def, hnext]
  | case2 reads c parser f q hnext => rw [readLoop.eq_def, hnext]
  | case3 c parser q hnext => rw [readLoop.eq_def, hnext]
  | case4 c parser q hnext reads => rw [readLoop.eq_def, hnext]
  | case5 c parser q hnext b bs reads ih =>
    rw [readLoop.eq_def, hnext]
    exact ih
  | case6 c parser q hnext reads ih =>
    rw [readLoop.eq_def, hnext]
    exact ih
  | case7 c parser q hnext reads => rw [readLoop.eq_def, hnext]
  | case8 c parser q hnext text reads => rw [readLoop.eq_def, hnext]

/-- What has been received is what the answers have given that were used, and the loop
waits only when it has used all of them. -/
theorem readLoop_received (c : Client) (parser : FrameParser) (reads : List ReadAnswer) :
    ∃ used, used <+: reads ∧
      (c.readLoop parser reads).2.received = c.received ++ stream used ∧
      ((c.readLoop parser reads).1 = none → used = reads) := by
  fun_induction readLoop c parser reads with
  | case1 reads c parser e q hnext =>
    exact ⟨[], List.nil_prefix, (List.append_nil _).symm, by simp⟩
  | case2 reads c parser f q hnext =>
    exact ⟨[], List.nil_prefix, (List.append_nil _).symm, by simp⟩
  | case3 c parser q hnext => exact ⟨[], List.nil_prefix, (List.append_nil _).symm, fun _ => rfl⟩
  | case4 c parser q hnext reads =>
    exact ⟨[], List.nil_prefix, (List.append_nil _).symm, by simp⟩
  | case5 c parser q hnext b bs reads ih =>
    obtain ⟨used, hused, hreceived, hall⟩ := ih
    refine ⟨.bytes (b :: bs) :: used, (List.prefix_cons_inj _).mpr hused, ?_, fun hwait => ?_⟩
    · rw [hreceived, stream_cons, ← List.append_assoc]
      rfl
    · rw [hall hwait]
  | case6 c parser q hnext reads ih =>
    obtain ⟨used, hused, hreceived, hall⟩ := ih
    refine ⟨.eintr :: used, (List.prefix_cons_inj _).mpr hused, ?_, fun hwait => ?_⟩
    · rw [hreceived, stream_cons]
      rfl
    · rw [hall hwait]
  | case7 c parser q hnext reads =>
    exact ⟨[], List.nil_prefix, (List.append_nil _).symm, by simp⟩
  | case8 c parser q hnext text reads =>
    exact ⟨[], List.nil_prefix, (List.append_nil _).symm, by simp⟩

/-- A read is made only while less than the largest frame is there. -/
theorem readLoop_bounded (h : parser.unread = c.received)
    (hle : c.received.length ≤ HEADER_SIZE + MAX_PAYLOAD + TRAILER_SIZE - 1 + READ_SIZE) :
    (c.readLoop parser reads).2.received.length ≤
      HEADER_SIZE + MAX_PAYLOAD + TRAILER_SIZE - 1 + READ_SIZE := by
  fun_induction readLoop c parser reads with
  | case1 reads c parser e q hnext => exact hle
  | case2 reads c parser f q hnext => exact hle
  | case3 c parser q hnext => exact hle
  | case4 c parser q hnext reads => exact hle
  | case5 c parser q hnext b bs reads ih =>
    obtain ⟨hscan, rfl⟩ := next_needMore hnext
    rw [h] at hscan
    have hshort := length_lt_of_needMore hscan
    have hread : ((b :: bs).take READ_SIZE).length ≤ READ_SIZE := List.length_take_le _ _
    refine ih (by rw [unread_feed, h]; rfl) ?_
    rw [pull, List.length_append]
    omega
  | case6 c parser q hnext reads ih =>
    obtain ⟨-, rfl⟩ := next_needMore hnext
    exact ih h hle
  | case7 c parser q hnext reads => exact hle
  | case8 c parser q hnext text reads => exact hle

end Loop

/-! ### The records of a run -/

section Hears

variable {c : Client} {reads : List ReadAnswer} {r : Option ℕ × Client}

/-- What a client at its ACK has received. -/
theorem Hears.received (h : Hears reads r) :
    ∃ used, used <+: reads ∧ r.2.received = stream used := by
  obtain ⟨c, hreads, hc, -, hsame⟩ := h
  obtain ⟨used, hused, hreceived, -⟩ := readLoop_received c .fresh c.reads
  rw [hreads] at hused
  rw [hc, List.nil_append] at hreceived
  exact ⟨used, hused, hsame.trans hreceived⟩

/-- What the client has received is what the connection has given it. -/
theorem sendFile_received (path : Bytes) (sys : ClientSys) :
    ∃ used, used <+: sys.reads ∧ (sendFile path sys).2.received = stream used := by
  obtain ⟨ds, -, hout⟩ := sendFile_outcome path sys
  cases hout with
  | cut _ _ hreceived => exact ⟨[], List.nil_prefix, hreceived⟩
  | ended _ _ _ _ _ hreceived => exact ⟨[], List.nil_prefix, hreceived⟩
  | waiting _ _ _ _ hhears => exact hhears.received
  | unconfirmed _ _ _ _ hhears => exact hhears.received
  | replied _ _ _ _ _ _ _ hhears => exact hhears.received

/-- Nothing has been answered: the client waits with its HELLO. -/
theorem sendFile_unanswered (path : Bytes) (sys : ClientSys) {tellg : ℤ}
    (htellg : sys.tellg = some tellg) (hseek : sys.seekFault = false)
    (hconnect : sys.connectFault = none) (hsends : sys.sends = []) :
    (sendFile path sys).1 = none ∧ (sendFile path sys).2.sends = [] ∧
      (sendFile path sys).2.reads = sys.reads ∧ (sendFile path sys).2.received = [] := by
  have hne : buildHello ((tellg % 2 ^ 64).toNat) (baseName path) ≠ [] := by
    intro hnil
    have hlen := congrArg List.length hnil
    rw [buildHello, length_buildFrame] at hlen
    simp [HEADER_SIZE] at hlen
  simp only [sendFile, htellg, hseek, hconnect, Bool.false_eq_true, if_false, writeAll, log, hsends]
  rw [writeLoop, if_neg hne]
  exact ⟨rfl, rfl, rfl, rfl⟩

/-- A client at its ACK returns by that, however it comes. -/
theorem Hears.exit_of_ack {later : List ReadAnswer} (h : Hears (reads ++ later) r)
    (hmore : ∀ a ∈ reads, a.more = true) {status : Status} {message : Bytes}
    (hstream : stream reads = buildAck status message) :
    r.1 = some (if status.code = Status.ok.code then 0 else 6) := by
  obtain ⟨c, hreads, hc, hexit, -⟩ := h
  have hframe := parseAt_buildFrame .ack (length_ackPayload_le status message) []
  rw [List.append_nil, ← buildAck] at hframe
  have hack : ackOfFrame { type := .ack, data := ackPayload status message } =
      { ack := { status := status.code, message := message.take MAX_NAME_LEN } } := by
    rw [ackOfFrame, if_neg (by simp), parseAck_ackPayload]
  have hunread : FrameParser.fresh.unread = c.received := hc.symm
  have hloop := readLoop_of_more hunread hmore
  rw [hc, List.nil_append, hstream, decision, hframe] at hloop
  have hread : c.readAck.1 =
      some (ackOfFrame { type := .ack, data := ackPayload status message }) := by
    rw [readAck, hreads]
    exact readLoop_append hloop later
  rw [hexit, hread, hack, Option.map_some, exitOf, if_neg (by simp), ite_not]

end Hears

/-! ### The ACK -/

/-- The bytes begin with a whole frame that is an ACK. -/
def BeginsWith (received : Bytes) (ack : AckPayload) : Prop :=
  ∃ data rest, received = buildFrame .ack data ++ rest ∧ data.length ≤ MAX_PAYLOAD ∧
    parseAck data = some ack

/-- There is an ACK exactly when the bytes received begin with it. -/
theorem Read.ack_iff {received : Bytes} {result : Option AckResult} (h : Read received result)
    (ack : AckPayload) : result = some { ack := ack } ↔ BeginsWith received ack := by
  constructor
  · rintro rfl
    cases h with
    | fails hscan herror => exact absurd rfl herror
    | takes hscan htype hack =>
      obtain ⟨-, -, hle, htake⟩ := parseAt_ready hscan
      rw [htype] at htake
      exact ⟨_, _, by rw [← htake, List.take_append_drop], hle, hack⟩
  · rintro ⟨data, rest, rfl, hle, hack⟩
    have hframe := parseAt_buildFrame .ack hle rest
    cases h with
    | waits hscan =>
      rw [hframe] at hscan
      cases hscan
    | fails hscan herror =>
      rw [hscan _ _ hframe rfl] at hack
      cases hack
    | takes hscan htype hack' =>
      rw [hframe] at hscan
      cases hscan
      rw [hack] at hack'
      cases hack'
      rfl

/-! ### The first frame decides -/

/-- `readAck` with the first `n` answers of the connection. -/
def ackAfter (c : Client) (answers : ℕ → ReadAnswer) (n : ℕ) : Option AckResult × Client :=
  ({ c with reads := front answers n } : Client).readAck

section Answers

variable {c : Client} {answers : ℕ → ReadAnswer} {n : ℕ}

theorem ackAfter_eq (c : Client) (answers : ℕ → ReadAnswer) (n : ℕ) :
    c.ackAfter answers n = c.readLoop .fresh (front answers n) := readLoop_reads _

theorem ackAfter_mono {m : ℕ} {r : AckResult} (h : (c.ackAfter answers n).1 = some r)
    (hm : n ≤ m) : (c.ackAfter answers m).1 = some r := by
  obtain ⟨later, hlater⟩ := front_isPrefix answers hm
  rw [ackAfter_eq] at h ⊢
  rw [← hlater]
  exact readLoop_append h later

theorem ackAfter_of_more (hc : c.received = []) (hmore : ∀ k < n, (answers k).more = true) :
    (c.ackAfter answers n).1 = decision (stream (front answers n)) := by
  have hall : ∀ a ∈ front answers n, a.more = true := by
    intro a ha
    obtain ⟨k, hk, rfl⟩ := (mem_front answers).mp ha
    exact hmore k hk
  have hloop := readLoop_of_more (show FrameParser.fresh.unread = c.received from hc.symm) hall
  rwa [hc, List.nil_append, ← ackAfter_eq] at hloop

/-- Interruptions alone do not keep `readAck` from returning. -/
theorem ackAfter_returns (hc : c.received = []) (h : Recurs (· ≠ .eintr) answers) :
    ∃ n, (c.ackAfter answers n).1.isSome := by
  by_cases hmore : ∀ k, (answers k).more = true
  · -- enough bytes come for a decision
    obtain ⟨n, hn⟩ := h.exists_countP (HEADER_SIZE + MAX_PAYLOAD + TRAILER_SIZE)
    have hbytes : (front answers n).countP (· ≠ .eintr) ≤ (stream (front answers n)).length := by
      refine countP_le_length_stream fun a ha => ?_
      obtain ⟨k, -, rfl⟩ := (mem_front answers).mp ha
      exact hmore k
    refine ⟨n, ?_⟩
    rw [ackAfter_of_more hc fun k _ => hmore k]
    refine isSome_decision fun hscan => ?_
    have hshort := length_lt_of_needMore hscan
    omega
  · push Not at hmore
    obtain ⟨k, hk⟩ := hmore
    have hmem : answers k ∈ front answers (k + 1) :=
      (mem_front answers).mpr ⟨k, Nat.lt_succ_self k, rfl⟩
    refine ⟨k + 1, ?_⟩
    rw [ackAfter_eq]
    exact readLoop_of_stop hmem (by simpa using hk)

/-- **`readAck` is decided by the first frame, and always ends.**  Whatever the
connection answers,

* `readAck` returns, if not interrupted for ever;
* what it has received is what the answers have given that it used, all of them as long as
  it has not returned;
* it has never received more than the largest frame but one byte, and one buffer;
* it returns an ACK without an error exactly when the bytes received begin with a whole
  frame that is this ACK;
* when the bytes of two sequences of answers begin alike, up to the first decision of the
  parser and with nothing but data and interruptions before it, `readAck` returns the
  same for both. -/
theorem readAck_first_frame (hc : c.received = []) (answers : ℕ → ReadAnswer) :
    (Recurs (· ≠ .eintr) answers → ∃ n r, ∀ m, n ≤ m → (c.ackAfter answers m).1 = some r) ∧
    (∀ n, ∃ used, used <+: front answers n ∧ (c.ackAfter answers n).2.received = stream used ∧
      ((c.ackAfter answers n).1 = none → used = front answers n)) ∧
    (∀ n, (c.ackAfter answers n).2.received.length ≤
      HEADER_SIZE + MAX_PAYLOAD + TRAILER_SIZE - 1 + READ_SIZE) ∧
    (∀ n ack, (c.ackAfter answers n).1 = some { ack := ack } ↔
      BeginsWith (c.ackAfter answers n).2.received ack) ∧
    ∀ (n n' : ℕ) (answers' : ℕ → ReadAnswer) (rest : Bytes),
      (∀ k < n, (answers k).more = true) → (∀ k < n', (answers' k).more = true) →
      parseAt (stream (front answers n)) ≠ .needMore →
      stream (front answers' n') = stream (front answers n) ++ rest →
      ∃ r, (∀ m, n ≤ m → (c.ackAfter answers m).1 = some r) ∧
        ∀ m, n' ≤ m → (c.ackAfter answers' m).1 = some r := by
  refine ⟨fun h => ?_, fun n => ?_, fun n => ?_, fun n ack => ?_,
    fun n n' answers' rest hmore hmore' hscan hs => ?_⟩
  · obtain ⟨n, hn⟩ := ackAfter_returns hc h
    obtain ⟨r, hr⟩ := Option.isSome_iff_exists.mp hn
    exact ⟨n, r, fun m hm => ackAfter_mono hr hm⟩
  · obtain ⟨used, hused, hreceived, hall⟩ := readLoop_received c .fresh (front answers n)
    rw [hc, List.nil_append] at hreceived
    rw [ackAfter_eq]
    exact ⟨used, hused, hreceived, hall⟩
  · exact readLoop_bounded hc.symm (by rw [hc]; exact Nat.zero_le _)
  · exact Read.ack_iff (readAck_spec { c with reads := front answers n } hc).1 ack
  · obtain ⟨r, hr⟩ := Option.isSome_iff_exists.mp (isSome_decision hscan)
    refine ⟨r, fun m hm => ackAfter_mono ?_ hm, fun m hm => ackAfter_mono ?_ hm⟩
    · rw [ackAfter_of_more hc hmore, hr]
    · rw [ackAfter_of_more hc hmore', hs]
      exact decision_append hr rest

/-- A server that says Ok at once, and nothing more. -/
theorem readAck_first_frame_ok :
    (ackAfter { sends := [], reads := [] }
      (fun k => if k = 0 then .bytes (buildAck .ok [0x61#8]) else .eagain) 1).1 =
        some { ack := { status := 0#8, message := [0x61#8] } } := by
  refine ((readAck_first_frame (c := { sends := [], reads := [] }) rfl _).2.2.2.1 1 _).mpr ?_
  exact ⟨ackPayload .ok [0x61#8], [], by decide +kernel, by decide +kernel, by decide +kernel⟩

end Answers

end Client

end Nexus
