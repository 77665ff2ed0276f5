/-
How many reads one event costs.

`onReadable` has no bound of its own: it goes on as long as the connection has
data. Here the answers of `read` are an endless sequence, and `onReadableIn` is the
loop with at most `fuel` of them; where it returns, it does what `onReadable` does
with the answers it used (`onReadableIn_eq`).

* `handle_returns_iff` — whatever the disk does, one event costs finitely many reads
  exactly when it reads nothing, or some answer is no data, or the session is
  receiving and the data bring a verdict.
-/
import NexusTransmitter.SessionUpload

open StreamDecoder Nexus.Upload Nexus.FrameParser

namespace Nexus

/-- `read` gave data, or was interrupted: the loop reads on. -/
def ReadAnswer.more : ReadAnswer → Bool
  | .bytes bs => !bs.isEmpty
  | .eintr => true
  | _ => false

/-- The bytes that `read` gave. -/
def ReadAnswer.data : ReadAnswer → Bytes
  | .bytes bs => bs
  | _ => []

/-- The answers after the first one. -/
def later (answers : ℕ → ReadAnswer) : ℕ → ReadAnswer := fun k => answers (k + 1)

/-- The bytes of the first `n` answers. -/
def dataOf (answers : ℕ → ReadAnswer) (n : ℕ) : Bytes :=
  (List.range n).flatMap fun k => (answers k).data

theorem dataOf_succ (answers : ℕ → ReadAnswer) (n : ℕ) :
    dataOf answers (n + 1) = (answers 0).data ++ dataOf (later answers) n := by
  rw [dataOf, List.range_succ_eq_map, List.flatMap_cons, List.flatMap_map]
  rfl

/-- The stream has a verdict, or a body that no file can hold. -/
def Decided (stream : Bytes) : Prop :=
  (∃ status file, Verdict stream status file) ∨
    MAX_OFF < (payloads (run frameDecoder stream).1).length

namespace Session

/-- The loop of `onReadable` over an endless sequence of answers; `none` when it has
not returned within `fuel` reads. -/
def onReadableIn (s : Session) (sys : Sys) (answers : ℕ → ReadAnswer) :
    ℕ → Option (Bool × Session × Sys)
  | 0 => none
  | fuel + 1 =>
    match answers 0 with
    | .bytes [] =>
      if s.state = .draining then some (false, s, sys)
      else if s.completed then some (false, s, sys)
      else
        some (s.terminates sys
          (if s.helloReceived then str "клиент отключился, не завершив передачу"
            else str "клиент отключился до начала передачи"))
    | .bytes (b :: bs) =>
      let s := s.receive (b :: bs) sys.now
      if s.state = .receiving then
        match s.processFrames sys s.parser.buffered with
        | (true, s, sys) => s.onReadableIn sys (later answers) fuel
        | (false, s, sys) =>
          some (if s.state = .sendingAck then s.onWritable sys else (false, s, sys))
      else s.onReadableIn sys (later answers) fuel
    | .eagain => some (true, s, sys)
    | .eintr => s.onReadableIn sys (later answers) fuel
    | .err text => some (s.terminates sys (str "ошибка чтения: " ++ text))

/-- `handle` with at most `fuel` reads. -/
def handleIn (s : Session) (sys : Sys) (events : BitVec 32) (answers : ℕ → ReadAnswer)
    (fuel : ℕ) : Option (Bool × Session × Sys) :=
  if events &&& (EPOLLHUP ||| EPOLLERR) ≠ 0 ∧ events &&& EPOLLIN = 0 then
    if s.state ≠ .draining then some (s.terminates sys (str "соединение разорвано"))
    else some (false, s, sys)
  else
    match if events &&& EPOLLIN ≠ 0 then s.onReadableIn sys answers fuel
      else some (true, s, sys) with
    | none => none
    | some (false, s, sys) => some (false, s, sys)
    | some (true, s, sys) =>
      if events &&& EPOLLOUT ≠ 0 then some (s.onWritable sys) else some (true, s, sys)

/-- The call of `handle` returns. -/
def Returns (s : Session) (sys : Sys) (events : BitVec 32) (answers : ℕ → ReadAnswer) : Prop :=
  ∃ fuel, (s.handleIn sys events answers fuel).isSome

/-! ### The loop and the list of its reads -/

section Agrees

variable {s : Session} {sys : Sys} {answers : ℕ → ReadAnswer} {r : Bool × Session × Sys}

theorem map_range_succ (answers : ℕ → ReadAnswer) (n : ℕ) :
    (List.range (n + 1)).map answers = answers 0 :: (List.range n).map (later answers) := by
  rw [List.range_succ_eq_map, List.map_cons, List.map_map]
  rfl

/-- Where the loop returns, it does what `onReadable` does with these reads. -/
theorem onReadableIn_eq {fuel : ℕ} (h : s.onReadableIn sys answers fuel = some r) :
    s.onReadable sys ((List.range fuel).map answers) = r := by
  induction fuel generalizing s sys answers with
  | zero => cases h
  | succ fuel ih =>
    rw [onReadableIn] at h
    rw [map_range_succ]
    match hans : answers 0 with
    | .eagain =>
      simp only [hans] at h
      exact Option.some.inj h
    | .eintr =>
      simp only [hans] at h
      exact ih h
    | .err text =>
      simp only [hans] at h
      exact Option.some.inj h
    | .bytes [] =>
      simp only [hans] at h
      rw [onReadable]
      split at h
      · rw [if_pos ‹_›]
        exact Option.some.inj h
      rw [if_neg ‹_›]
      split at h
      · rw [if_pos ‹_›]
        exact Option.some.inj h
      · rw [if_neg ‹_›]
        exact Option.some.inj h
    | .bytes (b :: bs) =>
      simp only [hans] at h
      rw [onReadable]
      split at h
      · rw [if_pos ‹_›]
        rcases hframes : (s.receive (b :: bs) sys.now).processFrames sys
          (s.receive (b :: bs) sys.now).parser.buffered with ⟨_ | _, s', sys'⟩ <;>
          simp only [hframes] at h ⊢
        · exact Option.some.inj h
        · exact ih h
      · rw [if_neg ‹_›]
        exact ih h

theorem handleIn_eq {events : BitVec 32} {fuel : ℕ}
    (h : s.handleIn sys events answers fuel = some r) :
    s.handle sys events ((List.range fuel).map answers) = r := by
  rw [handleIn] at h
  rw [handle]
  split at h
  · rw [if_pos ‹_›]
    split at h
    · rw [if_pos ‹_›]
      exact Option.some.inj h
    · rw [if_neg ‹_›]
      exact Option.some.inj h
  rw [if_neg ‹_›]
  have hread : ∀ r', (if events &&& EPOLLIN ≠ 0 then s.onReadableIn sys answers fuel
      else some (true, s, sys)) = some r' →
      (if events &&& EPOLLIN ≠ 0 then s.onReadable sys ((List.range fuel).map answers)
        else (true, s, sys)) = r' := by
    intro r' hr
    split at hr
    · rw [if_pos ‹_›]
      exact onReadableIn_eq hr
    · rw [if_neg ‹_›]
      exact Option.some.inj hr
  split at h
  · cases h
  · rw [hread _ ‹_›]
    exact Option.some.inj h
  · rw [hread _ ‹_›]
    dsimp only
    split at h
    · rw [if_pos ‹_›]
      exact Option.some.inj h
    · rw [if_neg ‹_›]
      exact Option.some.inj h

/-- An event returns as soon as it does not read, or the loop over the reads does. -/
theorem returns_iff {events : BitVec 32} :
    s.Returns sys events answers ↔
      events &&& EPOLLIN = 0 ∨ ∃ fuel, (s.onReadableIn sys answers fuel).isSome := by
  constructor
  · rintro ⟨fuel, h⟩
    by_cases hin : events &&& EPOLLIN = 0
    · exact .inl hin
    · refine .inr ⟨fuel, ?_⟩
      rw [handleIn, if_neg fun hc => hin hc.2, if_pos hin] at h
      cases hr : s.onReadableIn sys answers fuel with
      | none =>
        rw [hr] at h
        cases h
      | some r => rfl
  · intro h
    by_cases hin : events &&& EPOLLIN = 0
    · refine ⟨0, ?_⟩
      rw [handleIn, if_neg (not_not.mpr hin)]
      split
      · split <;> rfl
      · dsimp only
        split <;> rfl
    · obtain ⟨fuel, hr⟩ := h.resolve_left hin
      refine ⟨fuel, ?_⟩
      obtain ⟨⟨b, s', sys'⟩, hr⟩ := Option.isSome_iff_exists.mp hr
      rw [handleIn, if_neg fun hc => hin hc.2, if_pos hin, hr]
      cases b
      · rfl
      · dsimp only
        split <;> rfl

end Agrees

/-! ### One turn of the loop -/

section Turn

variable {s : Session} {sys : Sys} {answers : ℕ → ReadAnswer}

/-- What holds of a session between two reads of one event. -/
structure Ready (s : Session) (os : Os) : Prop where
  sound : s.Sound os
  tracks : s.Tracks
  live : s.terminated = false
  state : s.state = .receiving

theorem Ready.receiving {os : Os} (h : s.Ready os) : s.Receiving os :=
  h.sound.inv.receiving h.live h.state

/-- One read: the loop returns, or it goes on after data. -/
theorem onReadableIn_succ (s : Session) (sys : Sys) (answers : ℕ → ReadAnswer) :
    (∃ r, ∀ fuel, s.onReadableIn sys answers (fuel + 1) = some r) ∨
      ((answers 0).more = true ∧ ∃ (s' : Session) (sys' : Sys), ∀ fuel,
        s.onReadableIn sys answers (fuel + 1) = s'.onReadableIn sys' (later answers) fuel) := by
  simp only [onReadableIn]
  match answers 0 with
  | .eagain => exact .inl ⟨_, fun _ => rfl⟩
  | .eintr => exact .inr ⟨rfl, s, sys, fun _ => rfl⟩
  | .err text => exact .inl ⟨_, fun _ => rfl⟩
  | .bytes [] =>
    refine .inl ?_
    dsimp only
    split
    · exact ⟨_, fun _ => rfl⟩
    split <;> exact ⟨_, fun _ => rfl⟩
  | .bytes (b :: bs) =>
    dsimp only
    split
    · split
      · exact .inr ⟨rfl, _, _, fun _ => rfl⟩
      · exact .inl ⟨_, fun _ => rfl⟩
    · exact .inr ⟨rfl, _, _, fun _ => rfl⟩

/-- A read that is no data ends the loop. -/
theorem returns_of_stop {n : ℕ} (h : (answers n).more = false) :
    ∃ fuel, (s.onReadableIn sys answers fuel).isSome := by
  induction n generalizing s sys answers with
  | zero =>
    rcases onReadableIn_succ s sys answers with ⟨r, hr⟩ | ⟨hmore, -⟩
    · exact ⟨1, by rw [hr 0]; rfl⟩
    · rw [h] at hmore
      cases hmore
  | succ n ih =>
    rcases onReadableIn_succ s sys answers with ⟨r, hr⟩ | ⟨-, s', sys', hgo⟩
    · exact ⟨1, by rw [hr 0]; rfl⟩
    · obtain ⟨fuel, hf⟩ : ∃ fuel, (s'.onReadableIn sys' (later answers) fuel).isSome := ih h
      exact ⟨fuel + 1, by rw [hgo]; exact hf⟩

/-- A session with a verdict discards what it reads, for ever. -/
theorem discards (hs : s.state ≠ .receiving) (h : ∀ n, (answers n).more = true) (fuel : ℕ) :
    s.onReadableIn sys answers fuel = none := by
  induction fuel generalizing s answers with
  | zero => rfl
  | succ fuel ih =>
    have hfirst := h 0
    have hlater : ∀ n, (later answers n).more = true := fun n => h (n + 1)
    rw [onReadableIn]
    match hans : answers 0 with
    | .eagain =>
      rw [hans] at hfirst
      cases hfirst
    | .eintr => exact ih hs hlater
    | .err text =>
      rw [hans] at hfirst
      cases hfirst
    | .bytes [] =>
      rw [hans] at hfirst
      cases hfirst
    | .bytes (b :: bs) =>
      have hs' : (s.receive (b :: bs) sys.now).state ≠ .receiving := hs
      dsimp only
      rw [if_neg hs']
      exact ih hs' hlater

/-- Bytes that a receiving session takes without a verdict leave it as it was. -/
theorem Ready.more (h : s.Ready sys.os) {bs : Bytes} {s' : Session} {sys' : Sys}
    (hrun : (s.receive bs sys.now).processFrames sys
      (s.receive bs sys.now).parser.buffered = (true, s', sys')) :
    s'.Ready sys'.os ∧ s'.hist.received = s.hist.received ++ bs := by
  set s₁ := s.receive bs sys.now with hs₁
  have hstep : Step s sys.os s₁ sys.os := .receive _ _ h.live
  have hinv := (hstep.inv h.sound.inv h.sound.wf).1
  have hp := processFrames_parsed hrun (hinv.receiving h.live h.state) h.sound.wf (Nat.le_refl _)
  obtain ⟨hstate, hmore⟩ := hp.again rfl
  have hsteps : Steps (s, sys.os) (s', sys'.os) := .head hstep hp.steps
  obtain ⟨hinv', -, hwf'⟩ := hsteps.inv h.sound.inv h.sound.wf
  have hkeep := (processFrames_steady s₁ sys s₁.parser.buffered).received
  rw [hrun] at hkeep
  refine ⟨⟨⟨hinv', hwf', ⟨fun _ => hmore, fun hs => ?_⟩,
    hsteps.calls h.sound.inv h.sound.wf h.sound.calls⟩,
    hsteps.tracks h.sound.inv h.sound.wf h.tracks, hp.live, hstate⟩, hkeep⟩
  rw [hstate] at hs
  cases hs

/-- What a receiving session has received has no verdict. -/
theorem Ready.not_decided {os : Os} (h : s.Ready os) : ¬ Decided s.hist.received := by
  obtain ⟨rest, hrec, hf⟩ := h.tracks.follows
  obtain ⟨rfl, hfold⟩ := h.receiving.follows hf
  have hmore := h.sound.quiet.receiving h.state
  rintro (⟨status, file, hv⟩ | hbig)
  · have hstream := ofStream_of_verdict hv
    rw [hrec, ofStream_of_needMore h.tracks.valid hmore, hfold] at hstream
    refine h.receiving.silent.not_answered ?_
    rw [hstream]
    trivial
  · have hscan : run frameDecoder s.parser.unread = ([], .needMore s.parser.unread) :=
      run_of_needMore hmore
    rw [hrec, run_encodeFrames h.tracks.valid, hscan, List.append_nil] at hbig
    cases h.receiving with
    | waiting hw =>
      rw [hw.frames] at hbig
      exact absurd hbig (Nat.not_lt_zero _)
    | body hb =>
      rw [← hb.frames] at hbig
      exact absurd hb.le_max (Nat.not_le.mpr hbig)

/-- While the loop does not return, the data bring no verdict. -/
theorem Ready.undecided (h : s.Ready sys.os) (hgo : ∀ fuel, s.onReadableIn sys answers fuel = none)
    (n : ℕ) : ¬ Decided (s.hist.received ++ dataOf answers n) := by
  induction n generalizing s sys answers with
  | zero =>
    rw [dataOf, List.range_zero, List.flatMap_nil, List.append_nil]
    exact h.not_decided
  | succ n ih =>
    rw [dataOf_succ]
    have hnext := fun fuel => hgo (fuel + 1)
    match hans : answers 0 with
    | .eagain => simp [onReadableIn, hans] at hnext
    | .eintr =>
      simp only [onReadableIn, hans] at hnext
      exact ih h hnext
    | .err text => simp [onReadableIn, hans] at hnext
    | .bytes [] =>
      simp only [onReadableIn, hans] at hnext
      have := hnext 0
      split at this
      · cases this
      split at this <;> cases this
    | .bytes (b :: bs) =>
      have hs : (s.receive (b :: bs) sys.now).state = .receiving := h.state
      cases hr : (s.receive (b :: bs) sys.now).processFrames sys
          (s.receive (b :: bs) sys.now).parser.buffered with
      | mk ok p =>
        cases ok with
        | false => simp [onReadableIn, hans, hs, hr] at hnext
        | true =>
          simp only [onReadableIn, hans, hs, hr, if_true] at hnext
          obtain ⟨h', hreceived⟩ := h.more hr
          rw [ReadAnswer.data, ← List.append_assoc, ← hreceived]
          exact ih h' hnext

end Turn

/-! ### A disk that works -/

section Obliging

variable {s : Session} {sys : Sys} {f : Frame} {p : FrameParser}

/-- The temporary file can be created, and each payload that may still come can be
written at once. -/
structure Obliging (s : Session) (sys : Sys) : Prop where
  opens : s.helloReceived = false → ∃ n, sys.openAnswer = .fd n ∧ sys.os.fds n = none ∧
    sys.os.dir (tempName s.writer.dir sys.os.pid sys.os.tempSeq) = none
  writes : ∃ k, sys.writes = List.replicate k (.took MAX_PAYLOAD) ∧
    2 ^ 64 ≤ k + s.hist.accepted.length

theorem open_works (w : FileWriter) {os : Os} {n : ℕ} (hfd : os.fds n = none)
    (hdir : os.dir (tempName w.dir os.pid os.tempSeq) = none) :
    (w.«open» os (.fd n)).1 = [] := by
  have hopen : os.nextTempSeq.openExcl (tempName w.dir os.pid os.tempSeq) (.fd n) =
      (.ok n, os.nextTempSeq.createFile (tempName w.dir os.pid os.tempSeq) n) := by
    simp [Os.openExcl, Os.nextTempSeq, hfd, hdir]
  simp only [FileWriter.open, hopen]

theorem write_works {w : FileWriter} {os : Os} {fd i m : ℕ} (h : w.Holds os fd i) {data : Bytes}
    (hne : data ≠ []) (hm : data.length ≤ m) (hmax : (os.data i).length + data.length ≤ MAX_OFF)
    (answers : List WriteAnswer) :
    (w.write os data (.took m :: answers)).1 = [] ∧
      (w.write os data (.took m :: answers)).2.1 = answers := by
  have hpos := List.length_pos_of_ne_nil hne
  have hall : min (max m 1) (min data.length (MAX_OFF - (os.data i).length)) = data.length := by
    omega
  have hsys : w.sysWrite os data (.took m) = (.took data.length, os.appendTo i data) := by
    rw [FileWriter.sysWrite, h.fd_eq]
    simp only [Os.write, h.file_fd]
    rw [if_neg (by omega), hall, List.take_length]
  rw [FileWriter.write.eq_def, if_neg hne]
  simp only [hsys, List.drop_length, FileWriter.write_nil, and_self]

theorem Obliging.onHello (h : s.Obliging sys) (hw : s.Waiting) {hello : HelloPayload}
    (hparse : parseHello f.data = some hello) :
    ∃ (s' : Session) (sys' : Sys), (s.take f p).onHello sys f.data = (true, s', sys') ∧
      s'.Obliging sys' := by
  obtain ⟨n, hans, hfd, hdir⟩ := h.opens hw.hello
  have hok : (s.writer.«open» sys.os sys.openAnswer).1 = [] := by
    rw [hans]
    exact open_works s.writer hfd hdir
  rcases hop : s.writer.«open» sys.os sys.openAnswer with ⟨err, w, os'⟩
  rw [hop] at hok
  obtain rfl : err = [] := hok
  rw [Session.onHello, if_neg (by simp [hw.hello])]
  simp only [hparse, start_writer, take_writer, hop, ne_eq, not_true_eq_false, if_false]
  exact ⟨_, _, rfl, fun hno => absurd hno (by simp [Session.log, Session.start]), h.writes⟩

theorem Obliging.onData (h : s.Obliging sys) {fd i : ℕ} (hb : s.Body sys.os fd i)
    (hlen : f.data.length ≤ MAX_PAYLOAD)
    (hsize : s.hist.accepted.length + f.data.length ≤ s.expectedSize)
    (hmax : s.hist.accepted.length + f.data.length ≤ MAX_OFF) :
    ∃ (s' : Session) (sys' : Sys), (s.take f p).onData sys f.data = (true, s', sys') ∧
      s'.Obliging sys' := by
  have hsum : (s.receivedSize + f.data.length) % 2 ^ 64 =
      s.hist.accepted.length + f.data.length := by
    rw [hb.received, Nat.mod_eq_of_lt]
    simp only [MAX_OFF] at hmax
    omega
  have hwrote : (s.writer.write sys.os f.data sys.writes).1 = [] ∧
      ∃ k, (s.writer.write sys.os f.data sys.writes).2.1 = List.replicate k (.took MAX_PAYLOAD) ∧
        2 ^ 64 ≤ k + (s.hist.accepted ++ f.data).length := by
    obtain ⟨k, hk, hroom⟩ := h.writes
    by_cases hne : f.data = []
    · rw [hne, FileWriter.write_nil, List.append_nil]
      exact ⟨rfl, k, hk, hroom⟩
    · -- one answer is used, and at least one byte less may come
      have hpos := List.length_pos_of_ne_nil hne
      have hlt : s.hist.accepted.length < 2 ^ 64 := by
        simp only [MAX_OFF] at hmax
        omega
      obtain ⟨j, rfl⟩ : ∃ j, k = j + 1 := ⟨k - 1, by omega⟩
      obtain ⟨herr, hrest⟩ := write_works hb.holds hne hlen (by rw [hb.data]; exact hmax)
        (List.replicate j (.took MAX_PAYLOAD))
      rw [← List.replicate_succ, ← hk] at herr hrest
      refine ⟨herr, j, hrest, ?_⟩
      rw [List.length_append]
      omega
  rcases hop : s.writer.write sys.os f.data sys.writes with ⟨err, writes, w, os'⟩
  rw [hop] at hwrote
  obtain ⟨herr, k, hk, hroom⟩ := hwrote
  obtain rfl : err = [] := herr
  rw [Session.onData, if_neg (by simp [hb.hello]), if_neg (by
    rw [take_receivedSize, take_expectedSize, hsum]
    omega)]
  simp only [take_writer, hop, ne_eq, not_true_eq_false, if_false]
  refine ⟨_, _, rfl, fun hh => ?_, k, hk, hroom⟩
  change s.helloReceived = false at hh
  rw [hb.hello] at hh
  cases hh

/-- A frame that brings no verdict is accepted. -/
theorem Obliging.onFrame (h : s.Obliging sys) (hr : s.Receiving sys.os)
    (hlen : f.data.length ≤ MAX_PAYLOAD) (hnot : ¬ (s.upload.frame f).Answered)
    (hmax : s.hist.accepted.length + (payloads [f]).length ≤ MAX_OFF) :
    ∃ (s' : Session) (sys' : Sys), (s.take f p).onFrame sys f = (true, s', sys') ∧
      s'.Obliging sys' := by
  have hstay : ∃ size payload, s.upload.frame f = .body size payload := by
    cases hframe : s.upload.frame f with
    | start => exact absurd hframe (frame_ne_start _ f)
    | body size payload => exact ⟨size, payload, rfl⟩
    | answered status file =>
      rw [hframe] at hnot
      exact absurd trivial hnot
  obtain ⟨size, payload, hframe⟩ := hstay
  rw [Session.onFrame]
  cases hr with
  | waiting hw =>
    rw [hw.upload, frame_start] at hframe
    obtain ⟨htype, -, name, hparse⟩ := hframe
    rw [htype]
    exact h.onHello hw hparse
  | body hb =>
    rw [hb.upload, frame_body] at hframe
    obtain ⟨htype, -, -, hsize⟩ := hframe
    have hpayload : payloads [f] = f.data := by simp [payloads, htype]
    rw [hpayload] at hmax
    rw [htype]
    exact h.onData hb hlen hsize hmax

theorem Receiving.accepted_eq (hr : s.Receiving sys.os) :
    s.hist.accepted = payloads s.hist.frames := by
  cases hr with
  | waiting hw =>
    rw [hw.accepted, hw.frames]
    rfl
  | body hb => exact hb.frames

/-- Frames that bring no verdict are accepted, one after another. -/
theorem Obliging.processFrames (h : s.Obliging sys) (hr : s.Receiving sys.os) (hwf : sys.os.WF)
    (ht : s.Tracks) {fuel : ℕ} (hfuel : s.parser.buffered ≤ fuel)
    (hund : ¬ Decided s.hist.received) :
    ∃ (s' : Session) (sys' : Sys), s.processFrames sys fuel = (true, s', sys') ∧
      s'.Obliging sys' := by
  induction fuel generalizing s sys with
  | zero => exact ⟨s, sys, rfl, h⟩
  | succ fuel ih =>
    rw [Session.processFrames]
    obtain ⟨rest, hrec, hf⟩ := ht.follows
    obtain ⟨rfl, hfold⟩ := hr.follows hf
    cases hnext : s.parser.next with
    | mk o q =>
      cases o with
      | needMore => exact ⟨s, sys, rfl, h⟩
      | error e =>
        -- bytes that are no frame are a verdict
        have hnot : ¬ (s.hist.frames.foldl frame Upload.start).Answered := by
          rw [hfold]
          exact hr.silent.not_answered
        refine absurd (.inl ⟨.protocolError, none, verdict_of_ofStream ?_⟩) hund
        rw [hrec, ofStream_of_error ht.valid hnot (next_error hnext).1]
      | ready f =>
        obtain ⟨hvalid, hrec', hfold'⟩ := ht.take hr hnext
        have hnot : ¬ (s.upload.frame f).Answered := by
          intro hans
          cases hframe : s.upload.frame f with
          | start => rw [hframe] at hans; exact hans
          | body size payload => rw [hframe] at hans; exact hans
          | answered status file =>
            refine hund (.inl ⟨status, file, verdict_of_ofStream ?_⟩)
            rw [hrec', ofStream_of_answered hvalid (hfold'.trans hframe)]
        have hmax : s.hist.accepted.length + (payloads [f]).length ≤ MAX_OFF := by
          by_contra hbig
          refine hund (.inr ?_)
          rw [hrec', run_encodeFrames hvalid, payloads_append, payloads_append, List.length_append,
            List.length_append, ← hr.accepted_eq]
          omega
        obtain ⟨s₁, sys₁, hrun, h₁⟩ := h.onFrame (p := q) hr
          (hvalid f (List.mem_append_right _ (List.mem_singleton.mpr rfl))) hnot hmax
        have hhandled := onFrame_handled hr hwf hnext hrun
        obtain ⟨hstate, hparser⟩ := hhandled.again rfl
        have hinv := hhandled.step.inv (by cases hr with
          | waiting h => exact .waiting h
          | body h => exact .body h) hwf
        have hkeep := (onFrame_steady (s.take f q) sys f).received
        rw [hrun] at hkeep
        have hshort := buffered_next hnext
        simp only [hrun]
        refine ih h₁ (hinv.1.receiving hhandled.live hstate) (hinv.2.wf hwf)
          (hhandled.step.tracks (by cases hr with
            | waiting h => exact .waiting h
            | body h => exact .body h) ht) ?_ ?_
        · simp only at hparser
          rw [hparser]
          omega
        · rw [show s₁.hist.received = s.hist.received from hkeep]
          exact hund

end Obliging

/-! ### How many reads an event costs -/

section Cost

variable {s : Session} {sys : Sys} {answers : ℕ → ReadAnswer}

/-- With a disk that works, a receiving session goes on reading data that bring no
verdict, for ever. -/
theorem Ready.reads_on (h : s.Ready sys.os) (ho : s.Obliging sys)
    (hmore : ∀ n, (answers n).more = true)
    (hund : ∀ n, ¬ Decided (s.hist.received ++ dataOf answers n)) (fuel : ℕ) :
    s.onReadableIn sys answers fuel = none := by
  induction fuel generalizing s sys answers with
  | zero => rfl
  | succ fuel ih =>
    have hfirst := hmore 0
    have hlater : ∀ n, (later answers n).more = true := fun n => hmore (n + 1)
    have hund' : ∀ n,
        ¬ Decided (s.hist.received ++ (answers 0).data ++ dataOf (later answers) n) := by
      intro n
      rw [List.append_assoc, ← dataOf_succ]
      exact hund (n + 1)
    rw [onReadableIn]
    match hans : answers 0 with
    | .eagain =>
      rw [hans] at hfirst
      cases hfirst
    | .eintr =>
      have hnone : ReadAnswer.eintr.data = [] := rfl
      simp only [hans, hnone, List.append_nil] at hund'
      exact ih h ho hlater hund'
    | .err text =>
      rw [hans] at hfirst
      cases hfirst
    | .bytes [] =>
      rw [hans] at hfirst
      cases hfirst
    | .bytes (b :: bs) =>
      simp only [hans, ReadAnswer.data] at hund'
      set s₁ := s.receive (b :: bs) sys.now with hs₁
      have hstep : Step s sys.os s₁ sys.os := .receive _ _ h.live
      have hinv := (hstep.inv h.sound.inv h.sound.wf).1
      have ho₁ : s₁.Obliging sys := ⟨ho.opens, ho.writes⟩
      have hstate : s₁.state = .receiving := h.state
      have hnot : ¬ Decided s₁.hist.received := by
        have := hund' 0
        rwa [dataOf, List.range_zero, List.flatMap_nil, List.append_nil] at this
      obtain ⟨s', sys', hrun, ho'⟩ := ho₁.processFrames (hinv.receiving h.live h.state) h.sound.wf
        (hstep.tracks h.sound.inv h.tracks) (Nat.le_refl _) hnot
      obtain ⟨h', hreceived⟩ := h.more hrun
      dsimp only
      rw [← hs₁, if_pos hstate]
      simp only [hrun]
      refine ih h' ho' hlater fun n => ?_
      rw [hreceived]
      exact hund' n

/-- The system `os`, with a disk that works. -/
theorem Ready.obliging {os : Os} {b : Session × Os} (h : s.Ready os) (hrun : Run b (s, os)) :
    ∃ sys : Sys, Run b (s, sys.os) ∧ s.Ready sys.os ∧ s.Obliging sys := by
  obtain ⟨k, hk⟩ : ∃ k : ℕ, 2 ^ 64 ≤ k := ⟨_, Nat.le_refl _⟩
  let sys : Os → Sys := fun os =>
    { os := os
      writes := List.replicate k (.took MAX_PAYLOAD)
      openAnswer := .fd 0
      localTime := { year := 124, mon := 0, mday := 1, hour := 0, min := 0, sec := 0 }
      now := 0 }
  have hwrites : 2 ^ 64 ≤ k + s.hist.accepted.length := Nat.le_add_right_of_le hk
  cases h.receiving with
  | waiting hw =>
    -- the file is not there yet, so it may be any system
    have hothers : s.Others os (.empty os.pid) := by
      refine ⟨rfl, fun _ => .empty os.pid, fun i hi => ?_, fun q i hi => ?_⟩
      · rw [hw.closed.ino] at hi
        cases hi
      · rw [hw.published] at hi
        cases hi
    exact ⟨sys (.empty os.pid), hrun.tail ⟨h.live, .others hothers⟩,
      ⟨h.sound.of_others hothers, h.tracks, h.live, h.state⟩, fun _ => ⟨0, rfl, rfl, rfl⟩,
      k, rfl, hwrites⟩
  | body hb =>
    refine ⟨sys os, hrun, h, fun hh => ?_, k, rfl, hwrites⟩
    rw [hb.hello] at hh
    cases hh

/-- **How many reads one event costs**: for a session in any state that it reaches, and
any endless sequence of answers of `read`, the call of `handle` returns, whatever the
system does otherwise, exactly when

* the event does not make it read,
* or some answer is the end of the stream, EAGAIN or an error,
* or the session is receiving, and what it has received and the data give a verdict,
  or more payload than a file can hold.

And where it returns, it has done what `handle` does with the answers used. -/
theorem handle_returns_iff {id fd conn : ℕ} {outDir : Bytes} {now : ℤ} {os₀ os : Os}
    (hwf : os₀.WF) (hrun : Run (create id fd conn outDir now, os₀) (s, os))
    (hlive : s.terminated = false) (events : BitVec 32) (answers : ℕ → ReadAnswer) :
    ((∀ sys : Sys, Run (create id fd conn outDir now, os₀) (s, sys.os) →
      s.Returns sys events answers) ↔
    events &&& EPOLLIN = 0 ∨ (∃ n, (answers n).more = false) ∨
      (s.state = .receiving ∧ ∃ n, Decided (s.hist.received ++ dataOf answers n))) ∧
    ∀ (sys : Sys) (fuel : ℕ) (r : Bool × Session × Sys),
      s.handleIn sys events answers fuel = some r →
        s.handle sys events ((List.range fuel).map answers) = r := by
  have hready : ∀ {os : Os}, Run (create id fd conn outDir now, os₀) (s, os) →
      s.state = .receiving → s.Ready os := fun hrun hs =>
    ⟨hrun.sound (create_sound id fd conn outDir now hwf),
      hrun.tracks (create_sound id fd conn outDir now hwf) (create_tracks id fd conn outDir now),
      hlive, hs⟩
  refine ⟨⟨?_, ?_⟩, fun sys fuel r hr => handleIn_eq hr⟩
  · intro hall
    by_contra hnot
    push Not at hnot
    obtain ⟨hin, hmore, hund⟩ := hnot
    have hmore' : ∀ n, (answers n).more = true := fun n => by simpa using hmore n
    -- there is a system with which the loop does not return
    have hloop : ∃ sys : Sys, Run (create id fd conn outDir now, os₀) (s, sys.os) ∧
        ∀ fuel, s.onReadableIn sys answers fuel = none := by
      by_cases hs : s.state = .receiving
      · obtain ⟨sys, hrun', hr, ho⟩ := (hready hrun hs).obliging hrun
        exact ⟨sys, hrun', hr.reads_on ho hmore' (hund hs)⟩
      · refine ⟨{ os := os, openAnswer := .err [], localTime := ?_, now := 0 }, hrun,
          discards hs hmore'⟩
        exact { year := 124, mon := 0, mday := 1, hour := 0, min := 0, sec := 0 }
    obtain ⟨sys, hrun', hnone⟩ := hloop
    obtain ⟨fuel, hf⟩ := (returns_iff.mp (hall sys hrun')).resolve_left hin
    rw [hnone fuel] at hf
    cases hf
  · rintro (hin | ⟨n, hstop⟩ | ⟨hs, n, hdecided⟩) sys hrun'
    · exact returns_iff.mpr (.inl hin)
    · exact returns_iff.mpr (.inr (returns_of_stop hstop))
    · refine returns_iff.mpr (.inr ?_)
      by_contra hnone
      push Not at hnone
      refine (hready hrun' hs).undecided (fun fuel => ?_) n hdecided
      simpa using hnone fuel

/-- A session that has read the HELLO of a file of three bytes, and then gets the rest of the
upload and no end of data after it. -/
theorem handle_returns_verdict :
    ∃ r : Bool × Session × Sys,
      (create 1 4 0 (str "in") 0).handle
          { os := .empty 1
            openAnswer := .fd 5
            localTime := { year := 124, mon := 0, mday := 1, hour := 0, min := 0, sec := 0 }
            now := 1 } EPOLLIN [.bytes (buildHello 3 (str "a.txt"))] = r ∧
      r.2.1.Returns r.2.2 EPOLLIN fun n =>
        .bytes (if n = 0 then buildData [1#8, 2#8, 3#8] ++ buildEnd (crc32 [1#8, 2#8, 3#8])
          else [0#8]) := by
  refine ⟨_, rfl, ?_⟩
  generalize hr : handle _ _ _ _ = r
  have hlive : r.2.1.terminated = false := by rw [← hr]; decide +kernel
  have hstate : r.2.1.state = .receiving := by rw [← hr]; decide +kernel
  have hreceived : r.2.1.hist.received = buildHello 3 (str "a.txt") := by rw [← hr]; decide +kernel
  have hcall := Call.handle (create 1 4 0 (str "in") 0)
    { os := .empty 1
      openAnswer := .fd 5
      localTime := { year := 124, mon := 0, mday := 1, hour := 0, min := 0, sec := 0 }
      now := 1 } EPOLLIN [.bytes (buildHello 3 (str "a.txt"))]
  rw [hr] at hcall
  refine (handle_returns_iff (.empty 1) (.single ⟨rfl, hcall⟩) hlive EPOLLIN _).1.mpr
    (.inr (.inr ⟨hstate, 1, .inl ⟨.ok, some [1#8, 2#8, 3#8], verdict_of_ofStream ?_⟩⟩)) _
    (.single ⟨rfl, hcall⟩)
  rw [hreceived]
  decide +kernel

/-- A client that has been told that its bytes are no frame, and sends more of them. -/
theorem endless_data :
    ¬ ∀ (s : Session) (sys : Sys) (answers : ℕ → ReadAnswer),
      Run (create 1 4 0 (str "in") 0, .empty 1) (s, sys.os) → s.terminated = false →
      (∀ n, ∃ m, n ≤ m ∧ answers m ≠ .eintr) → s.Returns sys EPOLLIN answers := by
  intro hall
  let sys : Sys :=
    { os := .empty 1
      sends := [.took 1000]
      openAnswer := .err []
      localTime := { year := 124, mon := 0, mday := 1, hour := 0, min := 0, sec := 0 }
      now := 1 }
  have hcall := Call.handle (create 1 4 0 (str "in") 0) sys EPOLLIN [.bytes (List.replicate 20 0#8)]
  obtain ⟨r, hr⟩ : ∃ r, (create 1 4 0 (str "in") 0).handle sys EPOLLIN
      [.bytes (List.replicate 20 0#8)] = r := ⟨_, rfl⟩
  rw [hr] at hcall
  have hdraining : r.2.1.state = .draining := by
    rw [← hr]
    decide +kernel
  have hlive : r.2.1.terminated = false := by
    rw [← hr]
    decide +kernel
  have hreturns := hall r.2.1 r.2.2 (fun _ => .bytes [0#8]) (.single ⟨rfl, hcall⟩) hlive
    fun n => ⟨n, Nat.le_refl n, by simp⟩
  obtain ⟨fuel, hf⟩ := (returns_iff.mp hreturns).resolve_left (by decide)
  rw [discards (by simp [hdraining]) fun _ => rfl] at hf
  cases hf

end Cost

end Session

end Nexus
