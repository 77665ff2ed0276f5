/-
What one event does to a session.

A session is always in one of four phases (`Session.Inv`): waiting for HELLO,
taking the body, answered, or cut off before any verdict. `Session.Step` says
once what can happen next in each of them, down to the file on disk; everything
the handlers do is a sequence of such steps (`handle_steps`, `terminate_step`),
so a property of a session is proved step by step and never by unfolding a
handler.
-/
import Mathlib.Logic.Relation
import NexusTransmitter.Session
import NexusTransmitter.Upload

namespace Nexus.Session

/-! ### Phases -/

/-- No verdict yet. -/
structure Silent (s : Session) : Prop where
  state : s.state = .receiving
  completed : s.completed = false
  published : s.writer.published = none
  acks : s.hist.acks = []
  states : s.hist.states = [.receiving]
  sent : s.hist.sent = []

/-- Waiting for HELLO. -/
structure Waiting (s : Session) : Prop extends Silent s where
  live : s.terminated = false
  hello : s.helloReceived = false
  closed : s.writer.Closed
  written : s.writer.written = 0
  received : s.receivedSize = 0
  crc : s.crc = {}
  frames : s.hist.frames = []
  accepted : s.hist.accepted = []

/-- Taking the body: the temporary file `i`, open as `fd`, holds what has been
accepted, and the counters agree with it. -/
structure Body (s : Session) (os : Os) (fd i : ℕ) : Prop extends Silent s where
  live : s.terminated = false
  hello : s.helloReceived = true
  frames : s.hist.accepted = payloads s.hist.frames
  holds : s.writer.Holds os fd i
  data : os.data i = s.hist.accepted
  written : s.writer.written = s.hist.accepted.length
  received : s.receivedSize = s.hist.accepted.length
  crc : s.crc = ({} : Crc32).update s.hist.accepted
  le_expected : s.hist.accepted.length ≤ s.expectedSize
  expected_lt : s.expectedSize < 2 ^ 64
  le_max : s.hist.accepted.length ≤ MAX_OFF

/-- The file `i` is published as `name`: that is its only name, nobody has it
open, and it holds what has been accepted, as much as was declared. -/
structure File (s : Session) (os : Os) (name : Bytes) (i : ℕ) : Prop where
  published : s.writer.published = some (finalPath s.writer.dir name, i)
  entry : ∀ p, os.dir p = some i ↔ p = finalPath s.writer.dir name
  unopened : ∀ f, os.fds f ≠ some (.file i)
  data : os.data i = s.hist.accepted
  frames : s.hist.accepted = payloads s.hist.frames
  size : s.hist.accepted.length = s.expectedSize
  name_eq : ∃ t suffix, suffix < 1000 ∧ name = candidateName (fileTimestamp t) suffix

/-- One verdict has been queued. -/
structure Answered (s : Session) (os : Os) (status : Status) (message : Bytes) : Prop where
  closed : s.writer.Closed
  acks : s.hist.acks = [(status, message)]
  out : s.out = buildAck status message
  sent : s.hist.sent = s.out.take s.outPos
  outPos_le : s.outPos ≤ s.out.length
  state : (s.state = .sendingAck ∧ s.hist.states = [.receiving, .sendingAck]) ∨
    (s.state = .draining ∧ s.hist.states = [.receiving, .sendingAck, .draining] ∧
      s.outPos = s.out.length)
  completed : s.completed = true ↔ status = .ok
  unpublished : status ≠ .ok → s.writer.published = none
  file : status = .ok → ∃ i, s.File os message i

/-- Cut off before any verdict. -/
structure Aborted (s : Session) : Prop extends Silent s where
  terminated : s.terminated = true
  closed : s.writer.Closed

/-- Every session is in one of the phases. -/
inductive Inv (s : Session) (os : Os) : Prop
  | waiting (h : s.Waiting)
  | body {fd i : ℕ} (h : s.Body os fd i)
  | answered {status : Status} {message : Bytes} (h : s.Answered os status message)
  | aborted (h : s.Aborted)

/-- No verdict yet, or one. That much holds of a session for good, also when it
has been destroyed. -/
inductive Account (s : Session) (os : Os) : Prop
  | silent (h : s.Silent)
  | answered {status : Status} {message : Bytes} (h : s.Answered os status message)

theorem Inv.account {s : Session} {os : Os} (h : s.Inv os) : s.Account os := by
  cases h with
  | waiting h => exact .silent h.toSilent
  | body h => exact .silent h.toSilent
  | answered h => exact .answered h
  | aborted h => exact .silent h.toSilent

/-- Waiting or taking the body. -/
inductive Receiving (s : Session) (os : Os) : Prop
  | waiting (h : s.Waiting)
  | body {fd i : ℕ} (h : s.Body os fd i)

theorem Answered.state_ne {s : Session} {os : Os} {status : Status} {message : Bytes}
    (h : s.Answered os status message) : s.state ≠ .receiving := by
  rcases h.state with ⟨h, -⟩ | ⟨h, -⟩ <;> simp [h]

theorem Inv.receiving {s : Session} {os : Os} (h : s.Inv os) (hlive : s.terminated = false)
    (hs : s.state = .receiving) : s.Receiving os := by
  cases h with
  | waiting h => exact .waiting h
  | body h => exact .body h
  | answered h => exact absurd hs h.state_ne
  | aborted h => rw [h.terminated] at hlive; cases hlive

namespace Receiving

variable {s : Session} {os : Os}

theorem silent (h : s.Receiving os) : s.Silent := by
  cases h with
  | waiting h => exact h.toSilent
  | body h => exact h.toSilent

theorem live (h : s.Receiving os) : s.terminated = false := by
  cases h with
  | waiting h => exact h.live
  | body h => exact h.live

theorem abort (h : s.Receiving os) :
    FileWriter.Dropped s.writer os (s.writer.abort os).1 (s.writer.abort os).2 := by
  cases h with
  | waiting h =>
    rw [FileWriter.abort_of_closed h.closed]
    exact .refl h.closed os
  | body h => exact FileWriter.abort_spec h.holds

theorem of_hello (h : s.Receiving os) (hh : s.helloReceived = true) :
    ∃ fd i, s.Body os fd i := by
  cases h with
  | waiting h => rw [h.hello] at hh; cases hh
  | body h => exact ⟨_, _, h⟩

theorem of_not_hello (h : s.Receiving os) (hh : s.helloReceived = false) : s.Waiting := by
  cases h with
  | waiting h => exact h
  | body h => rw [h.hello] at hh; cases hh

end Receiving

theorem Inv.abort {s : Session} {os : Os} (h : s.Inv os) :
    FileWriter.Dropped s.writer os (s.writer.abort os).1 (s.writer.abort os).2 := by
  cases h with
  | waiting h => exact (Receiving.waiting h).abort
  | body h => exact (Receiving.body h).abort
  | answered h =>
    rw [FileWriter.abort_of_closed h.closed]
    exact .refl h.closed os
  | aborted h =>
    rw [FileWriter.abort_of_closed h.closed]
    exact .refl h.closed os

/-! ### Steps -/

/-- Why a session refuses a frame, or a stream that is no frame (`none`), and
the status it answers. -/
inductive Refuses (s : Session) : Option Frame → Status → Prop
  | parseError {e : Bytes} : s.parser.next.1 = .error e → Refuses s none .protocolError
  | secondHello {f : Frame} : f.type = .hello → s.helloReceived = true →
      Refuses s (some f) .protocolError
  | badHello {f : Frame} : f.type = .hello → s.helloReceived = false → parseHello f.data = none →
      Refuses s (some f) .protocolError
  | dataFirst {f : Frame} : f.type = .data → s.helloReceived = false →
      Refuses s (some f) .protocolError
  | tooMuch {f : Frame} : f.type = .data → s.helloReceived = true →
      s.expectedSize < (s.receivedSize + f.data.length) % 2 ^ 64 → Refuses s (some f) .sizeMismatch
  | endFirst {f : Frame} : f.type = .end → s.helloReceived = false →
      Refuses s (some f) .protocolError
  | badEnd {f : Frame} : f.type = .end → s.helloReceived = true → parseEnd f.data = none →
      Refuses s (some f) .protocolError
  | short {f : Frame} {c : BitVec 32} : f.type = .end → s.helloReceived = true →
      parseEnd f.data = some c → s.receivedSize ≠ s.expectedSize →
      Refuses s (some f) .sizeMismatch
  | badCrc {f : Frame} {c : BitVec 32} : f.type = .end → s.helloReceived = true →
      parseEnd f.data = some c → s.receivedSize = s.expectedSize → s.crc.value ≠ c →
      Refuses s (some f) .crcMismatch
  | ack {f : Frame} : f.type = .ack → Refuses s (some f) .protocolError

/-- The next thing in the parser is `f`, or an error. -/
def Next (s : Session) : Option Frame → Prop
  | none => ∃ e, s.parser.next.1 = .error e
  | some f => s.parser.next.1 = .ready f

/-- What a session keeps up to a verdict. -/
structure Kept (s : Session) (f : Option Frame) (s' : Session) : Prop where
  id : s'.id = s.id
  fd : s'.fd = s.fd
  conn : s'.conn = s.conn
  completed : s'.completed = s.completed
  terminated : s'.terminated = s.terminated
  received : s'.hist.received = s.hist.received
  frames : s'.hist.frames = s.hist.frames ++ f.toList
  accepted : s'.hist.accepted = s.hist.accepted
  acks : s'.hist.acks = s.hist.acks
  states : s'.hist.states = s.hist.states
  sent : s'.hist.sent = s.hist.sent

/-- One step of a session. -/
inductive Step : Session → Os → Session → Os → Prop
  | receive {s os} (bs : Bytes) (now : ℤ) (live : s.terminated = false) :
      Step s os (s.receive bs now) os
  /-- HELLO is accepted and the temporary file is there. -/
  | started {s os f p hello w os' fd line} (h : s.Waiting) (hnext : s.parser.next = (.ready f, p))
      (htype : f.type = .hello) (hhello : parseHello f.data = some hello)
      (hopen : FileWriter.Opened s.writer os w os' fd) :
      Step s os (({ (s.take f p).start hello with writer := w } : Session).log line) os'
  /-- A DATA payload is accepted and written. -/
  | stored {s os f p fd i calls} (h : s.Body os fd i) (hnext : s.parser.next = (.ready f, p))
      (htype : f.type = .data)
      (hsize : s.hist.accepted.length + f.data.length ≤ s.expectedSize)
      (hmax : s.hist.accepted.length + f.data.length ≤ MAX_OFF)
      (hcalls : ∀ c ∈ calls, FileWriter.FsCall.isWrite c = true) :
      Step s os
        (({ s.take f p with
            writer := { s.writer with
              written := (s.writer.written + f.data.length) % 2 ^ 64
              log := s.writer.log ++ calls } } : Session).store f.data)
        (os.appendTo i f.data)
  /-- END is accepted and the file is published. -/
  | published {s os f p fd i w os' name} (h : s.Body os fd i)
      (hnext : s.parser.next = (.ready f, p)) (htype : f.type = .end)
      (hcrc : parseEnd f.data = some (crc32 s.hist.accepted))
      (hsize : s.hist.accepted.length = s.expectedSize)
      (hpub : FileWriter.Published s.writer os i w os' name) :
      Step s os (({ s.take f p with writer := w } : Session).succeed name) os'
  /-- A frame, or the stream, is refused, or the disk failed. -/
  | refused {s os s₁ f w os' line status message} (h : s.Receiving os) (hnext : s.Next f)
      (hkept : s.Kept f s₁) (hdrop : FileWriter.Dropped s.writer os w os')
      (hwhy : s.Refuses f status ∨ (status = .ioError ∧ ∃ c ∈ w.log, c.ok = false)) :
      Step s os ((({ s₁ with writer := w } : Session).log line).queueAck status message) os'
  | sent {s os} (n : ℕ) (now : ℤ) (live : s.terminated = false) (hs : s.state = .sendingAck)
      (hn : n ≤ s.out.length - s.outPos) : Step s os (s.advance n now) os
  | drained {s os} (now : ℤ) (live : s.terminated = false) (hs : s.state = .sendingAck)
      (hout : s.out.length ≤ s.outPos) : Step s os (s.drain now) os
  | line {s os} (line : LogLine) (live : s.terminated = false) : Step s os (s.log line) os
  | terminated {s os w os'} (lines : List LogLine) (live : s.terminated = false)
      (hdrop : FileWriter.Dropped s.writer os w os') :
      Step s os { s with
        terminated := true
        writer := w
        hist := { s.hist with lines := lines } } os'

/-- A step between pairs, and a run of steps. -/
def Steps : Session × Os → Session × Os → Prop :=
  Relation.ReflTransGen fun a b => Step a.1 a.2 b.1 b.2

/-! ### The environment keeps the phases -/

section Environment

variable {s : Session} {os os' : Os}

theorem File.of_same {name : Bytes} {i : ℕ} (h : s.File os name i) (hsame : os.SameFile i os') :
    s.File os' name i where
  published := h.published
  entry := fun p => (hsame.dir p).trans (h.entry p)
  unopened := fun f hf => h.unopened f ((hsame.fds f).mp hf)
  data := hsame.data.trans h.data
  frames := h.frames
  size := h.size
  name_eq := h.name_eq

/-- What is published does not depend on the rest of the session. -/
theorem File.congr {t : Session} {name : Bytes} {i : ℕ} (h : s.File os name i)
    (hwriter : t.writer = s.writer) (haccepted : t.hist.accepted = s.hist.accepted)
    (hframes : t.hist.frames = s.hist.frames) (hsize : t.expectedSize = s.expectedSize) :
    t.File os name i where
  published := by rw [hwriter]; exact h.published
  entry := by rw [hwriter]; exact h.entry
  unopened := h.unopened
  data := by rw [haccepted]; exact h.data
  frames := by rw [haccepted, hframes]; exact h.frames
  size := by rw [haccepted, hsize]; exact h.size
  name_eq := h.name_eq

theorem Answered.of_same {status : Status} {message : Bytes} (h : s.Answered os status message)
    (hpub : ∀ p i, s.writer.published = some (p, i) → os.SameFile i os') :
    s.Answered os' status message where
  closed := h.closed
  acks := h.acks
  out := h.out
  sent := h.sent
  outPos_le := h.outPos_le
  state := h.state
  completed := h.completed
  unpublished := h.unpublished
  file := by
    intro hok
    obtain ⟨i, hi⟩ := h.file hok
    exact ⟨i, hi.of_same (hpub _ _ hi.published)⟩

theorem Body.of_same {fd i : ℕ} (h : s.Body os fd i) (hsame : os.SameFile i os') :
    s.Body os' fd i :=
  ⟨h.toSilent, h.live, h.hello, h.frames, h.holds.of_same hsame, hsame.data.trans h.data, h.written,
    h.received, h.crc, h.le_expected, h.expected_lt, h.le_max⟩

/-- A session stays in its phase when nothing happens to its temporary file and
to the file it published. -/
theorem Inv.of_same (h : s.Inv os)
    (hown : ∀ i, s.writer.ino os = some i → os.SameFile i os')
    (hpub : ∀ p i, s.writer.published = some (p, i) → os.SameFile i os') : s.Inv os' := by
  cases h with
  | waiting h => exact .waiting h
  | body h => exact .body (h.of_same (hown _ h.holds.ino))
  | answered h => exact .answered (h.of_same hpub)
  | aborted h => exact .aborted h

end Environment

/-! ### Steps keep the phases -/

section Steps

variable {s s' : Session} {os os' : Os}

/-- The parser, the clock and the log have no part in the phase. -/
theorem Inv.passive (h : s.Inv os) (p : FrameParser) (t : ℤ) (bs : Bytes) (lines : List LogLine) :
    ({ s with
        parser := p
        lastActivity := t
        hist := { s.hist with received := bs, lines := lines } } : Session).Inv os := by
  have hsilent : s.Silent → ({ s with
      parser := p
      lastActivity := t
      hist := { s.hist with received := bs, lines := lines } } : Session).Silent := fun h =>
    ⟨h.state, h.completed, h.published, h.acks, h.states, h.sent⟩
  cases h with
  | waiting h =>
    exact .waiting ⟨hsilent h.toSilent, h.live, h.hello, h.closed, h.written, h.received, h.crc,
      h.frames, h.accepted⟩
  | body h =>
    exact .body ⟨hsilent h.toSilent, h.live, h.hello, h.frames, h.holds, h.data, h.written,
      h.received, h.crc, h.le_expected, h.expected_lt, h.le_max⟩
  | answered h =>
    refine .answered ⟨h.closed, h.acks, h.out, h.sent, h.outPos_le, h.state, h.completed,
      h.unpublished, fun hok => ?_⟩
    obtain ⟨i, hi⟩ := h.file hok
    exact ⟨i, hi.congr rfl rfl rfl rfl⟩
  | aborted h => exact .aborted ⟨hsilent h.toSilent, h.terminated, h.closed⟩

/-- HELLO opens an empty body. -/
theorem Waiting.started (h : s.Waiting) {f : Frame} (htype : f.type = .hello) (p : FrameParser)
    {hello : HelloPayload} (hlt : hello.fileSize < 2 ^ 64) {w : FileWriter} {fd : ℕ}
    (hopen : FileWriter.Opened s.writer os w os' fd) (line : LogLine) :
    (({ (s.take f p).start hello with writer := w } : Session).log line).Body os' fd
      os.nextIno where
  -- every counter is still at zero, and so is the length of what was accepted
  state := h.state
  completed := h.completed
  published := hopen.published.trans h.published
  acks := h.acks
  states := h.states
  sent := h.sent
  live := h.live
  hello := rfl
  frames := by
    show s.hist.accepted = payloads (s.hist.frames ++ [f])
    simp [h.accepted, h.frames, payloads, htype]
  holds := hopen.holds
  data := hopen.data.trans h.accepted.symm
  written := by
    show w.written = s.hist.accepted.length
    rw [hopen.written, h.written, h.accepted, List.length_nil]
  received := by
    show s.receivedSize = s.hist.accepted.length
    rw [h.received, h.accepted, List.length_nil]
  crc := by
    show s.crc = ({} : Crc32).update s.hist.accepted
    rw [h.crc, h.accepted, Crc32.update_nil]
  le_expected := by
    show s.hist.accepted.length ≤ hello.fileSize
    rw [h.accepted]
    exact Nat.zero_le _
  expected_lt := hlt
  le_max := by
    show s.hist.accepted.length ≤ MAX_OFF
    rw [h.accepted]
    exact Nat.zero_le _

/-- A DATA payload goes to the end of the body. -/
theorem Body.stored {fd i : ℕ} (h : s.Body os fd i) {f : Frame} (htype : f.type = .data)
    (p : FrameParser)
    (hsize : s.hist.accepted.length + f.data.length ≤ s.expectedSize)
    (hmax : s.hist.accepted.length + f.data.length ≤ MAX_OFF) (log : List FsCall) :
    (({ s.take f p with
        writer := { s.writer with
          written := (s.writer.written + f.data.length) % 2 ^ 64
          log := log } } : Session).store f.data).Body (os.appendTo i f.data) fd i := by
  have hlen : (s.hist.accepted ++ f.data).length = s.hist.accepted.length + f.data.length :=
    List.length_append
  -- both 64-bit counters stay below the largest file offset, so they never wrap
  have hmod : (s.hist.accepted.length + f.data.length) % 2 ^ 64 =
      (s.hist.accepted ++ f.data).length := by
    rw [hlen, Nat.mod_eq_of_lt]
    simp only [MAX_OFF] at hmax
    omega
  refine ⟨⟨h.state, h.completed, h.published, h.acks, h.states, h.sent⟩, h.live, h.hello, ?_,
    FileWriter.holds_appendTo h.holds f.data _ _, ?_, ?_, ?_, ?_, ?_, h.expected_lt, ?_⟩
  · show s.hist.accepted ++ f.data = payloads (s.hist.frames ++ [f])
    rw [payloads_append, ← h.frames]
    simp [payloads, htype]
  · show (os.appendTo i f.data).data i = s.hist.accepted ++ f.data
    simp [h.data]
  · show (s.writer.written + f.data.length) % 2 ^ 64 = (s.hist.accepted ++ f.data).length
    rw [h.written, hmod]
  · show (s.receivedSize + f.data.length) % 2 ^ 64 = (s.hist.accepted ++ f.data).length
    rw [h.received, hmod]
  · show s.crc.update f.data = ({} : Crc32).update (s.hist.accepted ++ f.data)
    rw [h.crc, Crc32.update_append]
  · show (s.hist.accepted ++ f.data).length ≤ s.expectedSize
    rwa [hlen]
  · show (s.hist.accepted ++ f.data).length ≤ MAX_OFF
    rwa [hlen]

/-- END publishes the body. -/
theorem Body.published_file {fd i : ℕ} (h : s.Body os fd i) {f : Frame} (htype : f.type = .end)
    (p : FrameParser)
    (hsize : s.hist.accepted.length = s.expectedSize) {w : FileWriter} {name : Bytes}
    (hpub : FileWriter.Published s.writer os i w os' name) :
    (({ s.take f p with writer := w } : Session).succeed name).Answered os' .ok name where
  closed := hpub.closed
  acks := by simp [succeed, queueAck, Session.log, take, h.acks]
  out := rfl
  sent := by simp [succeed, queueAck, Session.log, take, h.sent]
  outPos_le := Nat.zero_le _
  state := .inl ⟨rfl, by simp [succeed, queueAck, Session.log, take, h.states]⟩
  completed := iff_of_true rfl rfl
  unpublished := fun hne => absurd rfl hne
  file := by
    intro _
    refine ⟨i, ?_, ?_, hpub.file, hpub.data.trans h.data, ?_, hsize, hpub.name_eq⟩
    · show w.published = some (finalPath w.dir name, i)
      rw [hpub.dir]
      exact hpub.published
    · show ∀ p, os'.dir p = some i ↔ p = finalPath w.dir name
      rw [hpub.dir]
      exact hpub.entry
    · show s.hist.accepted = payloads (s.hist.frames ++ [f])
      rw [payloads_append, ← h.frames]
      simp [payloads, htype]

/-- A verdict that is not Ok. -/
theorem Silent.refused {s₁ : Session} {f : Option Frame} {w : FileWriter} (h : s.Silent)
    (hkept : s.Kept f s₁) (hdrop : FileWriter.Dropped s.writer os w os') {status : Status}
    (hstatus : status ≠ .ok) (line : LogLine) (message : Bytes) :
    ((({ s₁ with writer := w } : Session).log line).queueAck status message).Answered os' status
      message where
  closed := hdrop.closed
  acks := by simp [queueAck, Session.log, hkept.acks, h.acks]
  out := rfl
  sent := by simp [queueAck, Session.log, hkept.sent, h.sent]
  outPos_le := Nat.zero_le _
  state := .inl ⟨rfl, by simp [queueAck, Session.log, hkept.states, h.states]⟩
  completed := iff_of_false
    (by simp [queueAck, Session.log, hkept.completed, h.completed]) hstatus
  unpublished := fun _ => hdrop.published.trans h.published
  file := fun hok => absurd hok hstatus

theorem Refuses.status_ne {f : Option Frame} {status : Status} (h : s.Refuses f status) :
    status ≠ .ok := by
  cases h <;> simp

/-- Some more of the ACK goes out. -/
theorem Answered.advance {status : Status} {message : Bytes} (h : s.Answered os status message)
    (hs : s.state = .sendingAck) {n : ℕ} (hn : n ≤ s.out.length - s.outPos) (now : ℤ) :
    (s.advance n now).Answered os status message where
  closed := h.closed
  acks := h.acks
  out := h.out
  sent := by
    show s.hist.sent ++ _ = s.out.take (s.outPos + n)
    rw [h.sent, List.take_add]
  outPos_le := by
    show s.outPos + n ≤ s.out.length
    have := h.outPos_le
    omega
  state := by
    rcases h.state with hst | ⟨hst, -⟩
    · exact .inl hst
    · rw [hst] at hs; cases hs
  completed := h.completed
  unpublished := h.unpublished
  file := by
    intro hok
    obtain ⟨i, hi⟩ := h.file hok
    exact ⟨i, hi.congr rfl rfl rfl rfl⟩

/-- All of the ACK is out. -/
theorem Answered.drain {status : Status} {message : Bytes} (h : s.Answered os status message)
    (hs : s.state = .sendingAck) (hout : s.out.length ≤ s.outPos) (now : ℤ) :
    (s.drain now).Answered os status message where
  closed := h.closed
  acks := h.acks
  out := h.out
  sent := h.sent
  outPos_le := h.outPos_le
  state := by
    rcases h.state with ⟨-, hst⟩ | ⟨hst, -⟩
    · exact .inr ⟨rfl, by simp [Session.drain, hst], Nat.le_antisymm h.outPos_le hout⟩
    · rw [hst] at hs; cases hs
  completed := h.completed
  unpublished := h.unpublished
  file := by
    intro hok
    obtain ⟨i, hi⟩ := h.file hok
    exact ⟨i, hi.congr rfl rfl rfl rfl⟩

theorem Account.answered_of_state (h : s.Account os) (hs : s.state ≠ .receiving) :
    ∃ status message, s.Answered os status message := by
  cases h with
  | silent h => exact absurd h.state hs
  | answered h => exact ⟨_, _, h⟩

/-- A session that drops its temporary file keeps its account of what it did:
with a verdict it has none. -/
theorem Account.dropped (h : s.Account os) (hwf : os.WF) {w : FileWriter}
    (hdrop : FileWriter.Dropped s.writer os w os') (t : Bool) (lines : List LogLine) :
    ({ s with
        terminated := t
        writer := w
        hist := { s.hist with lines := lines } } : Session).Account os' := by
  cases h with
  | silent h =>
    exact .silent
      ⟨h.state, h.completed, hdrop.published.trans h.published, h.acks, h.states, h.sent⟩
  | answered h =>
    refine .answered ⟨hdrop.closed, h.acks, h.out, h.sent, h.outPos_le, h.state, h.completed,
      fun hne => hdrop.published.trans (h.unpublished hne), fun hok => ?_⟩
    obtain ⟨i, hi⟩ := h.file hok
    -- the writer is closed, so the published file is none of what it drops
    have hlt : i < os.nextIno := hwf.dir _ _ ((hi.entry _).mpr rfl)
    have hi' := hi.of_same (hdrop.step.confined.same i hlt (by rw [h.closed.ino]; simp))
    refine ⟨i, ?_, ?_, hi'.unopened, hi'.data, hi'.frames, hi'.size, hi'.name_eq⟩
    · show w.published = some (finalPath w.dir _, i)
      rw [hdrop.dir, hdrop.published]
      exact hi.published
    · show ∀ p, os'.dir p = some i ↔ p = finalPath w.dir _
      rw [hdrop.dir]
      exact hi'.entry

/-- Being terminated drops the temporary file, and nothing else. -/
theorem Inv.terminated (h : s.Inv os) (hwf : os.WF) {w : FileWriter}
    (hdrop : FileWriter.Dropped s.writer os w os') (lines : List LogLine) :
    ({ s with
        terminated := true
        writer := w
        hist := { s.hist with lines := lines } } : Session).Inv os' := by
  cases h.account.dropped hwf hdrop true lines with
  | silent hs => exact .aborted ⟨hs, rfl, hdrop.closed⟩
  | answered hs => exact .answered hs

/-- **What a step does** to the phase, and to the system: it is a step on the
session's own file. -/
theorem Step.inv (h : s.Inv os) (hwf : os.WF) (hstep : Step s os s' os') :
    s'.Inv os' ∧ Os.FileStep (s.writer.ino os) os (s'.writer.ino os') os' := by
  cases hstep with
  | receive bs now live => exact ⟨h.passive _ _ _ _, .refl _ os⟩
  | @started f p hello w os' fd line hw hnext htype hhello hopen =>
    have hbody := hw.started htype p (parseHello_fileSize_lt hhello) hopen line
    exact ⟨.body hbody, by rw [hw.closed.ino, hbody.holds.ino]; exact hopen.step⟩
  | @stored f p fd i calls hb hnext htype hsize hmax hcalls =>
    have hbody := hb.stored htype p hsize hmax (s.writer.log ++ calls)
    exact ⟨.body hbody, by rw [hb.holds.ino, hbody.holds.ino]; exact .appendTo os i f.data⟩
  | @published f p fd i w os' name hb hnext htype hcrc hsize hpub =>
    have hans := hb.published_file htype p hsize hpub
    exact ⟨.answered hans, by rw [hb.holds.ino, hans.closed.ino]; exact hpub.step⟩
  | @refused s₁ f w os' line status message hr hnext hkept hdrop hwhy =>
    -- `queueAck` keeps the file for Ok only, and a refusal never is
    have hstatus : status ≠ .ok := by
      rcases hwhy with hwhy | ⟨rfl, -⟩
      · exact hwhy.status_ne
      · simp
    have hans := hr.silent.refused hkept hdrop hstatus line message
    exact ⟨.answered hans, by rw [hans.closed.ino]; exact hdrop.step⟩
  | sent n now live hs hn =>
    -- an ACK is being sent, so there is a verdict
    obtain ⟨status, message, hans⟩ := h.account.answered_of_state (by rw [hs]; simp)
    exact ⟨.answered (hans.advance hs hn now), .refl _ os⟩
  | drained now live hs hout =>
    obtain ⟨status, message, hans⟩ := h.account.answered_of_state (by rw [hs]; simp)
    exact ⟨.answered (hans.drain hs hout now), .refl _ os⟩
  | line line live => exact ⟨h.passive _ _ _ _, .refl _ os⟩
  | @terminated w os' lines live hdrop =>
    refine ⟨h.terminated hwf hdrop lines, ?_⟩
    show Os.FileStep _ _ (FileWriter.ino w _) _
    rw [hdrop.closed.ino]
    exact hdrop.step

end Steps

/-! ### The handlers take steps -/

section Handlers

variable {s s₁ : Session} {os : Os} {sys : Sys}

/-- A run of steps keeps the phases. -/
theorem Steps.inv {a b : Session × Os} (h : Steps a b) (hinv : a.1.Inv a.2) (hwf : a.2.WF) :
    b.1.Inv b.2 ∧ Os.FileStep (a.1.writer.ino a.2) a.2 (b.1.writer.ino b.2) b.2 ∧ b.2.WF := by
  -- on the number of steps; the file steps of one session compose
  induction h with
  | refl => exact ⟨hinv, .refl _ _, hwf⟩
  | tail _ hstep ih =>
    obtain ⟨h1, h2, h3⟩ := ih
    obtain ⟨h4, h5⟩ := hstep.inv h1 h3
    exact ⟨h4, h2.trans h5, h5.wf h3⟩

theorem Kept.take (s : Session) (f : Frame) (p : FrameParser) : s.Kept (some f) (s.take f p) :=
  ⟨rfl, rfl, rfl, rfl, rfl, rfl, rfl, rfl, rfl, rfl, rfl⟩

theorem Kept.refl (s : Session) : s.Kept none s :=
  ⟨rfl, rfl, rfl, rfl, rfl, rfl, by simp, rfl, rfl, rfl, rfl⟩

/-- `fail` is a step of a receiving session, when the writer can let go of its
file. -/
theorem failed_step {f : Option Frame} {status : Status} {message : Bytes} {w : FileWriter}
    {os' : Os} {r : Bool × Session × Sys} (hrun : s₁.failed sys status message = r)
    (hr : s.Receiving os) (hnext : s.Next f) (hkept : s.Kept f s₁)
    (habort : s₁.writer.abort sys.os = (w, os')) (hdrop : FileWriter.Dropped s.writer os w os')
    (hwhy : s.Refuses f status ∨ (status = .ioError ∧ ∃ c ∈ w.log, c.ok = false)) :
    r.1 = false ∧ r.2.1.state = .sendingAck ∧ r.2.1.terminated = false ∧
      Step s os r.2.1 r.2.2.os := by
  have heq : s₁.failed sys status message =
      (false, (({ s₁ with writer := w } : Session).log (.failed status message)).queueAck status
        message, { sys with os := os' }) := by
    simp only [failed, fail, habort]
  rw [← hrun, heq]
  exact ⟨rfl, rfl, hkept.terminated.trans hr.live, .refused hr hnext hkept hdrop hwhy⟩

/-- What the handler of one frame comes to. -/
structure Handled (s : Session) (os : Os) (p : FrameParser) (r : Bool × Session × Sys) : Prop where
  step : Step s os r.2.1 r.2.2.os
  live : r.2.1.terminated = false
  again : r.1 = true → r.2.1.state = .receiving ∧ r.2.1.parser = p
  stop : r.1 = false → r.2.1.state = .sendingAck

theorem handled_of_failed {p : FrameParser} {r : Bool × Session × Sys}
    (h : r.1 = false ∧ r.2.1.state = .sendingAck ∧ r.2.1.terminated = false ∧
      Step s os r.2.1 r.2.2.os) : s.Handled os p r where
  step := h.2.2.2
  live := h.2.2.1
  again := fun htrue => by rw [h.1] at htrue; cases htrue
  stop := fun _ => h.2.1

section Frame

variable {f : Frame} {p : FrameParser} {r : Bool × Session × Sys}

theorem next_some (hnext : s.parser.next = (.ready f, p)) : s.Next (some f) := by
  simp only [Next, hnext]

/-- A frame refused before the disk is touched. -/
theorem handled_refused {status : Status} {message : Bytes} (hr : s.Receiving sys.os)
    (hnext : s.parser.next = (.ready f, p)) (hwhy : s.Refuses (some f) status)
    (hrun : (s.take f p).failed sys status message = r) : s.Handled sys.os p r :=
  handled_of_failed (failed_step hrun hr (next_some hnext) (.take s f p) (by rfl) hr.abort
    (.inl hwhy))

theorem onHello_handled (hr : s.Receiving sys.os) (hwf : sys.os.WF)
    (hnext : s.parser.next = (.ready f, p)) (htype : f.type = .hello)
    (hrun : (s.take f p).onHello sys f.data = r) : s.Handled sys.os p r := by
  rw [onHello] at hrun
  split at hrun
  · rename_i hh
    exact handled_refused hr hnext (.secondHello htype hh) hrun
  rename_i hh
  rw [Bool.not_eq_true, take_helloReceived] at hh
  have hw := hr.of_not_hello hh
  cases hhello : parseHello f.data with
  | none =>
    simp only [hhello] at hrun
    exact handled_refused hr hnext (.badHello htype hh hhello) hrun
  | some hello =>
    rcases hop : s.writer.«open» sys.os sys.openAnswer with ⟨err, w, os'⟩
    simp only [hhello, start_writer, take_writer, hop] at hrun
    rcases FileWriter.open_spec hw.closed hwf hop with ⟨herr, hdrop, hbad⟩ | ⟨fd, herr, hopen⟩
    · -- the temporary file could not be created
      rw [if_pos (by exact herr)] at hrun
      exact handled_of_failed (failed_step hrun hr (next_some hnext)
        ⟨rfl, rfl, rfl, rfl, rfl, rfl, rfl, rfl, rfl, rfl, rfl⟩
        (by exact FileWriter.abort_of_closed hdrop.closed _) hdrop (.inr ⟨rfl, hbad⟩))
    · rw [if_neg (by simpa using herr)] at hrun
      subst hrun
      exact ⟨.started hw hnext htype hhello hopen, hw.live, fun _ => ⟨hw.state, rfl⟩, by simp⟩

theorem onData_handled (hr : s.Receiving sys.os) (hnext : s.parser.next = (.ready f, p))
    (htype : f.type = .data) (hrun : (s.take f p).onData sys f.data = r) :
    s.Handled sys.os p r := by
  -- the checks of the source in its order, and the write last
  rw [onData] at hrun
  split at hrun
  · rename_i hh
    exact handled_refused hr hnext (.dataFirst htype (by simpa using hh)) hrun
  rename_i hh
  replace hh : s.helloReceived = true := by simpa using hh
  split at hrun
  · rename_i hmuch
    exact handled_refused hr hnext (.tooMuch htype hh hmuch) hrun
  rename_i hmuch
  rw [take_receivedSize, take_expectedSize] at hmuch
  obtain ⟨fd, i, hb⟩ := hr.of_hello hh
  have hle : s.hist.accepted.length ≤ 2 ^ 63 - 1 := hb.le_max
  obtain ⟨bs, tail, calls, hwrote⟩ := FileWriter.write_spec hb.holds
    (by rw [hb.written]; omega) (by rw [hb.data]; exact hb.le_max) f.data sys.writes
  rcases hop : s.writer.write sys.os f.data sys.writes with ⟨err, writes, w, os'⟩
  rw [hop] at hwrote
  obtain ⟨rfl, rfl⟩ := Prod.mk.inj hwrote.result
  simp only [take_writer, hop] at hrun
  by_cases herr : err = []
  · -- the whole payload is in the file
    have hbs : bs = f.data := by rw [hwrote.split, hwrote.error.mp herr, List.append_nil]
    subst hbs
    have hlen := hwrote.length_le
    rw [hb.data, List.length_append] at hlen
    -- so the sum the size check compares did not wrap
    have hlt : s.hist.accepted.length + f.data.length < 2 ^ 64 := by
      simp only [MAX_OFF] at hlen
      omega
    have hsize : s.hist.accepted.length + f.data.length ≤ s.expectedSize := by
      rw [hb.received, Nat.mod_eq_of_lt hlt] at hmuch
      omega
    rw [if_neg (by simpa using herr)] at hrun
    subst hrun
    exact ⟨.stored hb hnext htype hsize hlen hwrote.isWrite, hb.live, fun _ => ⟨hb.state, rfl⟩,
      by simp⟩
  · -- the disk failed somewhere in the payload
    rw [if_pos (by exact herr)] at hrun
    have hholds := FileWriter.holds_appendTo hb.holds bs
      ((s.writer.written + bs.length) % 2 ^ 64) (s.writer.log ++ calls)
    have hdrop := (FileWriter.abort_spec hholds).of_write hb.holds hwrote.isWrite
    -- a write that reports an error has logged a call that failed
    have hbad : ∃ c ∈ calls, c.ok = false := by
      by_contra hall
      refine herr (hwrote.error.mpr (hwrote.ok.mp fun c hc => ?_))
      by_contra hno
      exact hall ⟨c, hc, by simpa using hno⟩
    refine handled_of_failed (failed_step hrun hr (next_some hnext)
      ⟨rfl, rfl, rfl, rfl, rfl, rfl, rfl, rfl, rfl, rfl, rfl⟩ (by rfl) hdrop (.inr ⟨rfl, ?_⟩))
    rw [FileWriter.abort_of_holds hholds]
    obtain ⟨c, hc, hno⟩ := hbad
    exact ⟨c, by simp [hc], hno⟩

theorem onEnd_handled (hr : s.Receiving sys.os) (hwf : sys.os.WF)
    (hnext : s.parser.next = (.ready f, p)) (htype : f.type = .end)
    (hrun : (s.take f p).onEnd sys f.data = r) : s.Handled sys.os p (false, r.2) := by
  -- `onEnd` returns nothing: after END the loop over the frames always stops
  have hrefuse : ∀ {status message}, s.Refuses (some f) status →
      (s.take f p).failed sys status message = r → s.Handled sys.os p (false, r.2) :=
    fun hwhy hrun => by
      have h := handled_refused hr hnext hwhy hrun
      exact ⟨h.step, h.live, by simp, fun _ => h.stop (by rw [← hrun]; rfl)⟩
  rw [onEnd] at hrun
  split at hrun
  · rename_i hh
    exact hrefuse (.endFirst htype (by simpa using hh)) hrun
  rename_i hh
  replace hh : s.helloReceived = true := by simpa using hh
  cases hend : parseEnd f.data with
  | none =>
    simp only [hend] at hrun
    exact hrefuse (.badEnd htype hh hend) hrun
  | some c =>
    simp only [hend] at hrun
    split at hrun
    · rename_i hsize
      exact hrefuse (.short htype hh hend hsize) hrun
    rename_i hsize
    replace hsize : s.receivedSize = s.expectedSize := by simpa using hsize
    split at hrun
    · rename_i hcrc
      exact hrefuse (.badCrc htype hh hend hsize hcrc) hrun
    rename_i hcrc
    replace hcrc : s.crc.value = c := by simpa using hcrc
    obtain ⟨fd, i, hb⟩ := hr.of_hello hh
    rcases hop : s.writer.commit sys.os sys.fsyncFault sys.localTime sys.linkFaults with
      ⟨result, w, os'⟩
    simp only [take_writer, hop] at hrun
    rcases FileWriter.commit_spec hb.holds hwf hop with ⟨herr, hpub⟩ | ⟨herr, hdrop, hbad⟩
    · rw [if_neg (by simpa using herr)] at hrun
      subst hrun
      refine ⟨.published hb hnext htype ?_ (by rw [← hb.received, hsize]) hpub, hb.live, by simp,
        fun _ => rfl⟩
      rw [hend, ← hcrc, hb.crc]
      rfl
    · rw [if_pos (by exact herr)] at hrun
      have hfail := failed_step hrun hr (next_some hnext)
        ⟨rfl, rfl, rfl, rfl, rfl, rfl, rfl, rfl, rfl, rfl, rfl⟩ (by rfl) hdrop (.inr ⟨rfl, hbad⟩)
      exact ⟨hfail.2.2.2, hfail.2.2.1, by simp, fun _ => hfail.2.1⟩

theorem onFrame_handled (hr : s.Receiving sys.os) (hwf : sys.os.WF)
    (hnext : s.parser.next = (.ready f, p)) (hrun : (s.take f p).onFrame sys f = r) :
    s.Handled sys.os p r := by
  cases htype : f.type with
  | hello =>
    simp only [onFrame, htype] at hrun
    exact onHello_handled hr hwf hnext htype hrun
  | data =>
    simp only [onFrame, htype] at hrun
    exact onData_handled hr hnext htype hrun
  | «end» =>
    simp only [onFrame, htype] at hrun
    rw [← hrun]
    exact onEnd_handled hr hwf hnext htype rfl
  | ack =>
    simp only [onFrame, htype] at hrun
    exact handled_refused hr hnext (.ack htype) hrun

end Frame

/-- Nothing is left to do until the next event: no whole frame is buffered while
receiving, and some of the ACK is left while sending it. -/
structure Quiet (s : Session) : Prop where
  receiving : s.state = .receiving → parseAt s.parser.unread = .needMore
  sending : s.state = .sendingAck → s.outPos < s.out.length

/-- What the loop over the frames comes to. -/
structure Parsed (s : Session) (os : Os) (r : Bool × Session × Sys) : Prop where
  steps : Steps (s, os) (r.2.1, r.2.2.os)
  live : r.2.1.terminated = false
  again : r.1 = true → r.2.1.state = .receiving ∧ parseAt r.2.1.parser.unread = .needMore
  stop : r.1 = false → r.2.1.state = .sendingAck

theorem processFrames_parsed {fuel : ℕ} {r : Bool × Session × Sys}
    (hrun : s.processFrames sys fuel = r) (hr : s.Receiving sys.os) (hwf : sys.os.WF)
    (hfuel : s.parser.buffered ≤ fuel) : s.Parsed sys.os r := by
  -- each frame shortens the buffer, so the bytes buffered are enough fuel
  induction fuel generalizing s sys with
  | zero =>
    have hnil : s.parser.unread = [] :=
      List.eq_nil_of_length_eq_zero (by rw [FrameParser.length_unread]; omega)
    rw [← hrun]
    exact ⟨.refl, hr.live, fun _ => ⟨hr.silent.state, by rw [processFrames, hnil]; rfl⟩,
      by simp [processFrames]⟩
  | succ fuel ih =>
    rw [processFrames] at hrun
    split at hrun
    · rename_i hnext
      rw [← hrun]
      exact ⟨.refl, hr.live,
        fun _ => ⟨hr.silent.state, (FrameParser.next_needMore hnext).1⟩, by simp⟩
    · rename_i e p hnext
      have hfail := failed_step hrun hr (f := none) ⟨e, by rw [hnext]⟩ (.refl s) (by rfl) hr.abort
        (.inl (.parseError (by rw [hnext])))
      exact ⟨.single hfail.2.2.2, hfail.2.2.1, fun h => (by rw [hfail.1] at h; cases h),
        fun _ => hfail.2.1⟩
    · rename_i f p hnext
      have hhandled : ∀ r, (s.take f p).onFrame sys f = r → s.Handled sys.os p r :=
        fun r h => onFrame_handled hr hwf hnext h
      split at hrun
      · -- the frame is accepted, and the loop goes on
        rename_i s₁ sys₁ hframe
        have h := hhandled _ hframe
        obtain ⟨hst, hp⟩ := h.again rfl
        have hinv := h.step.inv (by cases hr with
          | waiting h => exact .waiting h
          | body h => exact .body h) hwf
        have hlt := FrameParser.buffered_next hnext
        have hrest := ih hrun (hinv.1.receiving h.live hst) (hinv.2.wf hwf)
          (by simp only at hp; rw [hp]; omega)
        exact ⟨.head h.step hrest.steps, hrest.live, hrest.again, hrest.stop⟩
      · -- a verdict ends the loop
        rename_i s₁ sys₁ hframe
        have h := hhandled _ hframe
        rw [← hrun]
        exact ⟨.single h.step, h.live, by simp, fun _ => h.stop rfl⟩

/-- What a handler of an event comes to. -/
structure Outcome (s : Session) (os : Os) (r : Bool × Session × Sys) : Prop where
  steps : Steps (s, os) (r.2.1, r.2.2.os)
  live : r.1 = true → r.2.1.terminated = false
  quiet : r.2.1.Quiet

theorem quiet_drain (s : Session) (now : ℤ) : (s.drain now).Quiet where
  receiving := fun h => by cases h
  sending := fun h => by cases h

theorem quiet_of_sending {s : Session} (hs : s.state = .sendingAck)
    (hlt : s.outPos < s.out.length) : s.Quiet where
  receiving := fun h => by rw [hs] at h; cases h
  sending := fun _ => hlt

theorem sendLoop_outcome {sends : List SendAnswer} {r : Bool × Session × Sys}
    (hrun : s.sendLoop sys sends = r) (hlive : s.terminated = false)
    (hs : s.state = .sendingAck) : s.Outcome sys.os r := by
  -- all sent already
  have hdone : ∀ {s : Session} {sends}, s.terminated = false → s.state = .sendingAck →
      ¬ s.outPos < s.out.length →
      s.Outcome sys.os (true, s.drain sys.now, { sys with sends := sends }) :=
    fun {s _} hlive hs hge =>
      ⟨.single (.drained _ hlive hs (Nat.le_of_not_lt hge)), fun _ => hlive, quiet_drain s _⟩
  -- one answer of `send` each time round, so on the answers
  induction sends generalizing s with
  | nil =>
    rw [sendLoop.eq_def] at hrun
    dsimp only at hrun
    split at hrun <;> rename_i hpos <;> rw [← hrun]
    · exact ⟨.refl, fun _ => hlive, quiet_of_sending hs hpos⟩
    · exact hdone hlive hs hpos
  | cons ans sends ih =>
    rw [sendLoop.eq_def] at hrun
    dsimp only at hrun
    split at hrun <;> rename_i hpos
    swap
    · rw [← hrun]
      exact hdone hlive hs hpos
    cases ans with
    | took n =>
      dsimp only at hrun
      split at hrun
      · -- some bytes went out
        have h := ih hrun hlive hs
        exact ⟨.head (.sent _ _ hlive hs (Nat.min_le_right _ _)) h.steps, h.live, h.quiet⟩
      · rw [← hrun]
        exact ⟨.single (.line _ hlive), by simp, quiet_of_sending (s := s.log _) hs hpos⟩
    | eagain =>
      rw [← hrun]
      exact ⟨.refl, fun _ => hlive, quiet_of_sending hs hpos⟩
    | eintr => exact ih hrun hlive hs
    | err text =>
      rw [← hrun]
      exact ⟨.single (.line _ hlive), by simp, quiet_of_sending (s := s.log _) hs hpos⟩

theorem onWritable_outcome {r : Bool × Session × Sys} (hrun : s.onWritable sys = r)
    (hlive : s.terminated = false) (hquiet : s.state ≠ .sendingAck → s.Quiet) :
    s.Outcome sys.os r := by
  rw [onWritable] at hrun
  split at hrun
  · rename_i hs
    rw [← hrun]
    exact ⟨.refl, fun _ => hlive, hquiet hs⟩
  · rename_i hs
    exact sendLoop_outcome hrun hlive (by simpa using hs)

/-- `terminate` is a step. -/
theorem terminate_step (h : s.Inv os) (hlive : s.terminated = false) (reason : Bytes)
    {r : Session × Os} (hrun : s.terminate os reason = r) : Step s os r.1 r.2 := by
  rw [terminate, if_neg (by rw [hlive]; decide)] at hrun
  rw [← hrun]
  exact .terminated _ hlive h.abort

theorem Quiet.terminate (h : s.Quiet) (os : Os) (reason : Bytes) :
    (s.terminate os reason).1.Quiet := by
  rw [Session.terminate]
  split
  · exact h
  · exact ⟨h.receiving, h.sending⟩

theorem terminates_outcome {reason : Bytes} {r : Bool × Session × Sys}
    (hrun : s.terminates sys reason = r) (h : s.Inv sys.os) (hlive : s.terminated = false)
    (hquiet : s.Quiet) : s.Outcome sys.os r := by
  rw [← hrun]
  exact ⟨.single (terminate_step h hlive reason rfl), by simp [terminates],
    hquiet.terminate sys.os reason⟩

theorem Quiet.receive (h : s.Quiet) (hs : s.state ≠ .receiving) (bs : Bytes) (now : ℤ) :
    (s.receive bs now).Quiet :=
  ⟨fun h => absurd h hs, h.sending⟩

theorem onReadable_outcome {reads : List ReadAnswer} {r : Bool × Session × Sys}
    (hrun : s.onReadable sys reads = r) (h : s.Inv sys.os) (hwf : sys.os.WF)
    (hlive : s.terminated = false) (hquiet : s.Quiet) : s.Outcome sys.os r := by
  -- on the answers of the reads; the phase and `Quiet` carry it from one to the next
  induction reads generalizing s sys with
  | nil =>
    rw [← hrun]
    exact ⟨.refl, fun _ => hlive, hquiet⟩
  | cons ans reads ih =>
    match ans with
    | .eagain =>
      rw [← hrun]
      exact ⟨.refl, fun _ => hlive, hquiet⟩
    | .eintr => exact ih hrun h hwf hlive hquiet
    | .err text => exact terminates_outcome hrun h hlive hquiet
    | .bytes [] =>
      -- the peer has closed: in order once the ACK or the file is out, else broken off
      rw [onReadable] at hrun
      split at hrun
      · rw [← hrun]
        exact ⟨.refl, by simp, hquiet⟩
      split at hrun
      · rw [← hrun]
        exact ⟨.refl, by simp, hquiet⟩
      · exact terminates_outcome hrun h hlive hquiet
    | .bytes (b :: bs) =>
      set s₁ := s.receive (b :: bs) sys.now with hs₁
      have hstep : Step s sys.os s₁ sys.os := .receive _ _ hlive
      have hinv := (hstep.inv h hwf).1
      rw [onReadable, ← hs₁] at hrun
      split at hrun <;> rename_i hst
      swap
      · -- only the parser was left out
        have hrest := ih hrun hinv hwf hlive (hquiet.receive hst _ _)
        exact ⟨.head hstep hrest.steps, hrest.live, hrest.quiet⟩
      have hparsed : ∀ r, s₁.processFrames sys s₁.parser.buffered = r → s₁.Parsed sys.os r :=
        fun r hr => processFrames_parsed hr (hinv.receiving hlive hst) hwf (Nat.le_refl _)
      split at hrun
      · rename_i s₂ sys₂ hframes
        have hp := hparsed _ hframes
        obtain ⟨hst₂, hmore⟩ := hp.again rfl
        obtain ⟨hinv₂, -, hwf₂⟩ := hp.steps.inv hinv hwf
        have hrest := ih hrun hinv₂ hwf₂ hp.live
          ⟨fun _ => hmore, fun hs => by rw [hst₂] at hs; cases hs⟩
        exact ⟨.head hstep (hp.steps.trans hrest.steps), hrest.live, hrest.quiet⟩
      · -- a verdict: the ACK is sent at once
        rename_i s₂ sys₂ hframes
        have hp := hparsed _ hframes
        have hst₂ : s₂.state = .sendingAck := hp.stop rfl
        rw [if_pos hst₂] at hrun
        have hrest := onWritable_outcome hrun hp.live fun hne => absurd hst₂ hne
        exact ⟨.head hstep (hp.steps.trans hrest.steps), hrest.live, hrest.quiet⟩

/-- **What `handle` does** is a run of steps; it leaves nothing to do until the
next event, and it leaves the session terminated only when it says so. -/
theorem handle_outcome {events : BitVec 32} {reads : List ReadAnswer} {r : Bool × Session × Sys}
    (hrun : s.handle sys events reads = r) (h : s.Inv sys.os) (hwf : sys.os.WF)
    (hlive : s.terminated = false) (hquiet : s.Quiet) : s.Outcome sys.os r := by
  rw [handle] at hrun
  split at hrun
  · split at hrun
    · exact terminates_outcome hrun h hlive hquiet
    · rw [← hrun]
      exact ⟨.refl, by simp, hquiet⟩
  have hread : ∀ r,
      (if events &&& EPOLLIN ≠ 0 then s.onReadable sys reads else (true, s, sys)) = r →
      s.Outcome sys.os r := by
    intro r hr
    split at hr
    · exact onReadable_outcome hr h hwf hlive hquiet
    · rw [← hr]
      exact ⟨.refl, fun _ => hlive, hquiet⟩
  split at hrun
  · rename_i s₁ sys₁ hr
    rw [← hrun]
    exact hread _ hr
  · rename_i s₁ sys₁ hr
    have h₁ := hread _ hr
    split at hrun
    · -- readable and writable in one event
      have h₂ := onWritable_outcome hrun (h₁.live rfl) fun _ => h₁.quiet
      exact ⟨h₁.steps.trans h₂.steps, h₂.live, h₂.quiet⟩
    · rw [← hrun]
      exact h₁

end Handlers

end Nexus.Session
