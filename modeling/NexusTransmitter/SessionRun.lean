/-
Runs of a session.

A session lives through calls of `handle` and `terminate`, in any order and with
any events; between them the rest of the world moves on, but leaves the
session's temporary file and the file it published alone (`Others`).

* `Run.sound` — in every state that calls on a session reach, as long as it is not
  terminated, it is in one of its phases with nothing left to do;
* `representation` — what that says about the fields, the counters and the disk.
-/
import NexusTransmitter.SessionStep

namespace Nexus.Session

/-! ### What a frame comes to -/

/-- What the handlers of frames return: a verdict at once, a verdict after an error of the
disk, an accepted HELLO or DATA, or the verdict on a file that is saved. -/
inductive FrameResult (s : Session) (sys : Sys) : Bool × Session × Sys → Prop
  | refused (status : Status) (message : Bytes) : FrameResult s sys (s.failed sys status message)
  | notOpened (hello : HelloPayload) (w : FileWriter) (os : Os) (err : Bytes) :
      FrameResult s sys
        ((({ s.start hello with writer := w } : Session).log (.diskError err)).failed
          { sys with os := os } .ioError err)
  | notStored (w : FileWriter) (os : Os) (writes : List WriteAnswer) (err : Bytes) :
      FrameResult s sys
        ((({ s with writer := w } : Session).log (.diskError err)).failed
          { sys with os := os, writes := writes } .ioError err)
  | opened (hello : HelloPayload) (w : FileWriter) (os : Os) (name : Bytes) (size : ℕ) :
      FrameResult s sys
        (true, ({ s.start hello with writer := w } : Session).log (.started name size),
          { sys with os := os })
  | stored (w : FileWriter) (os : Os) (writes : List WriteAnswer) (data : Bytes) :
      FrameResult s sys
        (true, ({ s with writer := w } : Session).store data,
          { sys with os := os, writes := writes })
  | saved (w : FileWriter) (os : Os) (name : Bytes) :
      FrameResult s sys
        (false, ({ s with writer := w } : Session).succeed name, { sys with os := os })

section Results

variable (s : Session) (sys : Sys)

theorem onHello_result (data : Bytes) : s.FrameResult sys (s.onHello sys data) := by
  unfold onHello
  split
  · exact .refused _ _
  split
  · exact .refused _ _
  · dsimp only
    split
    · exact .notOpened _ _ _ _
    · exact .opened _ _ _ _ _

theorem onData_result (data : Bytes) : s.FrameResult sys (s.onData sys data) := by
  unfold onData
  split
  · exact .refused _ _
  split
  · exact .refused _ _
  · dsimp only
    split
    · exact .notStored _ _ _ _
    · exact .stored _ _ _ _

/-- After an END there is a verdict, whatever `onEnd` returns. -/
theorem onEnd_result (data : Bytes) : s.FrameResult sys (false, (s.onEnd sys data).2) := by
  unfold onEnd
  split
  · exact .refused _ _
  split
  · exact .refused _ _
  split
  · exact .refused _ _
  split
  · exact .refused _ _
  · dsimp only
    split
    · exact .notStored _ _ sys.writes _
    · exact .saved _ _ _

theorem onFrame_result (f : Frame) : s.FrameResult sys (s.onFrame sys f) := by
  unfold onFrame
  split
  · exact onHello_result s sys f.data
  · exact onData_result s sys f.data
  · exact onEnd_result s sys f.data
  · exact .refused _ _

end Results

/-! ### What sending comes to -/

/-- What the loop of `onWritable` returns, with answers from `all`: the ACK moves on, and
then it waits for the socket, the socket has failed, or the ACK is out. -/
inductive SendResult (sys : Sys) (all : List SendAnswer) : Session → Bool × Session × Sys → Prop
  | stays (s : Session) {sends : List SendAnswer} (hsends : sends <:+ all) :
      SendResult sys all s (true, s, { sys with sends := sends })
  | fails (s : Session) (text : Bytes) {sends : List SendAnswer} (hsends : sends <:+ all) :
      SendResult sys all s (false, s.log (.ackSendError text), { sys with sends := sends })
  | drains (s : Session) {sends : List SendAnswer} (hsends : sends <:+ all) :
      SendResult sys all s (true, s.drain sys.now, { sys with sends := sends })
  | advances (s : Session) (n : ℕ) {r : Bool × Session × Sys}
      (h : SendResult sys all (s.advance n sys.now) r) : SendResult sys all s r

theorem sendLoop_result (s : Session) (sys : Sys) {all sends : List SendAnswer}
    (hsends : sends <:+ all) : SendResult sys all s (s.sendLoop sys sends) := by
  induction sends generalizing s with
  | nil =>
    rw [sendLoop.eq_def]
    dsimp only
    split
    · exact .stays s hsends
    · exact .drains s hsends
  | cons ans sends ih =>
    have hrest : sends <:+ all := (List.suffix_cons ans sends).trans hsends
    rw [sendLoop.eq_def]
    dsimp only
    split
    · cases ans with
      | took n =>
        dsimp only
        split
        · exact .advances s _ (ih _ hrest)
        · exact .fails s _ hrest
      | eagain => exact .stays s hrest
      | eintr => exact ih s hrest
      | err text => exact .fails s text hrest
    · exact .drains s hsends

/-! ### What frames leave alone -/

/-- The handlers of frames read nothing, and end nothing. -/
structure Steady (s s' : Session) : Prop where
  terminated : s'.terminated = s.terminated
  received : s'.hist.received = s.hist.received

section Steady

variable (s : Session) (sys : Sys)

theorem failed_steady (status : Status) (message : Bytes) :
    s.Steady (s.failed sys status message).2.1 := ⟨rfl, rfl⟩

theorem FrameResult.steady {s : Session} {sys : Sys} {r : Bool × Session × Sys}
    (h : s.FrameResult sys r) : s.Steady r.2.1 := by
  cases h <;> exact ⟨rfl, rfl⟩

theorem onFrame_steady (f : Frame) : s.Steady (s.onFrame sys f).2.1 :=
  (onFrame_result s sys f).steady

theorem processFrames_steady (fuel : ℕ) : s.Steady (s.processFrames sys fuel).2.1 := by
  induction fuel generalizing s sys with
  | zero => exact ⟨rfl, rfl⟩
  | succ fuel ih =>
    rw [processFrames]
    split
    · exact ⟨rfl, rfl⟩
    · exact failed_steady s sys _ _
    · rename_i f p _
      obtain ⟨h1, h2⟩ := onFrame_steady (s.take f p) sys f
      split <;> rename_i hframe <;> rw [hframe] at h1 h2
      · obtain ⟨h3, h4⟩ := ih _ _
        exact ⟨h3.trans h1, h4.trans h2⟩
      · exact ⟨h1, h2⟩

end Steady

/-! ### A session that was terminated stays so -/

section Terminated

variable {s : Session} {sys : Sys}

theorem SendResult.terminated {all : List SendAnswer} {r : Bool × Session × Sys}
    (h : SendResult sys all s r) : r.2.1.terminated = s.terminated := by
  induction h with
  | stays s hsends => rfl
  | fails s text hsends => rfl
  | drains s hsends => rfl
  | advances s n h ih => exact ih

theorem onWritable_terminated : (s.onWritable sys).2.1.terminated = s.terminated := by
  unfold onWritable
  split
  · rfl
  · exact (sendLoop_result s sys (List.suffix_refl _)).terminated

theorem terminate_terminated (os : Os) (reason : Bytes) :
    (s.terminate os reason).1.terminated = true := by
  unfold terminate
  split
  · assumption
  · rfl

theorem onReadable_terminated (h : s.terminated = true) (reads : List ReadAnswer) :
    (s.onReadable sys reads).2.1.terminated = true := by
  induction reads generalizing s sys with
  | nil => exact h
  | cons ans reads ih =>
    match ans with
    | .eagain => exact h
    | .eintr => exact ih h
    | .err text => exact terminate_terminated _ _
    | .bytes [] =>
      rw [onReadable]
      split
      · exact h
      split
      · exact h
      · exact terminate_terminated _ _
    | .bytes (b :: bs) =>
      rw [onReadable]
      split
      · have hp : ((s.receive (b :: bs) sys.now).processFrames sys
            (s.receive (b :: bs) sys.now).parser.buffered).2.1.terminated = s.terminated :=
          (processFrames_steady _ sys _).terminated
        split <;> rename_i hframes <;> rw [hframes] at hp
        · exact ih (hp.trans h)
        · split
          · exact onWritable_terminated.trans (hp.trans h)
          · exact hp.trans h
      · exact ih h

theorem handle_terminated (h : s.terminated = true) (events : BitVec 32)
    (reads : List ReadAnswer) : (s.handle sys events reads).2.1.terminated = true := by
  rw [handle]
  split
  · split
    · exact terminate_terminated _ _
    · exact h
  have hread : (if events &&& EPOLLIN ≠ 0 then s.onReadable sys reads
      else (true, s, sys)).2.1.terminated = true := by
    split
    · exact onReadable_terminated h reads
    · exact h
  split <;> rename_i hr <;> rw [hr] at hread
  · exact hread
  · split
    · exact onWritable_terminated.trans hread
    · exact hread

end Terminated

/-! ### Runs -/

/-- What the rest of the world may do: anything, but not to the session's
temporary file or the file it published. -/
structure Others (s : Session) (os os' : Os) : Prop where
  pid : os'.pid = os.pid
  wf : os.WF → os'.WF
  own : ∀ i, s.writer.ino os = some i → os.SameFile i os'
  published : ∀ p i, s.writer.published = some (p, i) → os.SameFile i os'

theorem others_of_sameFiles {s : Session} {os os' : Os} (h : os.SameFiles os') : s.Others os os' :=
  ⟨h.pid, h.wf, fun i _ => h.file i, fun _ i _ => h.file i⟩

/-- One call on a session, or a move of the rest of the world. -/
inductive Call : Session × Os → Session × Os → Prop
  | handle (s : Session) (sys : Sys) (events : BitVec 32) (reads : List ReadAnswer) :
      Call (s, sys.os) ((s.handle sys events reads).2.1, (s.handle sys events reads).2.2.os)
  | terminate (s : Session) (os : Os) (reason : Bytes) : Call (s, os) (s.terminate os reason)
  | others {s : Session} {os os' : Os} (h : s.Others os os') : Call (s, os) (s, os')

/-- A run of calls. -/
def Calls : Session × Os → Session × Os → Prop := Relation.ReflTransGen Call

/-- A run of calls on a session that was not terminated before. -/
def Run : Session × Os → Session × Os → Prop :=
  Relation.ReflTransGen fun a b => a.1.terminated = false ∧ Call a b

theorem create_waiting (id fd conn : ℕ) (outDir : Bytes) (now : ℤ) :
    (create id fd conn outDir now).Waiting :=
  ⟨⟨rfl, rfl, rfl, rfl, rfl, rfl⟩, rfl, rfl, ⟨rfl, rfl⟩, rfl, rfl, rfl, rfl, rfl⟩

theorem create_quiet (id fd conn : ℕ) (outDir : Bytes) (now : ℤ) :
    (create id fd conn outDir now).Quiet :=
  ⟨fun _ => rfl, fun h => nomatch h⟩

/-- What holds of a session between calls, as long as it is not terminated. -/
structure Sound (s : Session) (os : Os) : Prop where
  inv : s.Inv os
  wf : os.WF
  quiet : s.Quiet
  calls : s.writer.Calls os.pid

/-- A step keeps to the calls a writer may make. -/
theorem Step.calls {s s' : Session} {os os' : Os} (hstep : Step s os s' os')
    (h : s.writer.Calls os.pid) : s'.writer.Calls os.pid := by
  cases hstep with
  | receive bs now live => exact h
  | @started f p hello w os' fd line hw hnext htype hhello hopen => exact hopen.calls h
  | @stored f p fd i calls hb hnext htype hsize hmax hcalls =>
    exact h.append (FileWriter.harmless_of_isWrite s.writer hcalls) rfl (fun _ => rfl) rfl rfl
  | @published f p fd i w os' name hb hnext htype hcrc hsize hpub =>
    exact hpub.calls hb.published h
  | @refused s₁ f w os' line status message hr hnext hkept hdrop hwhy => exact hdrop.calls h
  | sent n now live hs hn => exact h
  | drained now live hs hout => exact h
  | line line live => exact h
  | @terminated w os' lines live hdrop => exact hdrop.calls h

theorem Steps.calls {a b : Session × Os} (hsteps : Steps a b) (hinv : a.1.Inv a.2)
    (hwf : a.2.WF) (h : a.1.writer.Calls a.2.pid) : b.1.writer.Calls b.2.pid := by
  induction hsteps with
  | refl => exact h
  | tail hprev hstep ih =>
    obtain ⟨hinv', -, hwf'⟩ := Steps.inv hprev hinv hwf
    rw [(hstep.inv hinv' hwf').2.sockets.pid]
    exact hstep.calls ih

theorem Sound.of_others {s : Session} {os os' : Os} (h : s.Sound os) (ho : s.Others os os') :
    s.Sound os' :=
  ⟨h.inv.of_same ho.own ho.published, ho.wf h.wf, h.quiet, by rw [ho.pid]; exact h.calls⟩

/-- A call on a session that is not terminated keeps it sound. -/
theorem Call.sound {a b : Session × Os} (hcall : Call a b) (hlive : a.1.terminated = false)
    (h : a.1.Sound a.2) : b.1.Sound b.2 := by
  cases hcall with
  | handle s sys events reads =>
    have hrun : s.handle sys events reads = s.handle sys events reads := rfl
    have hout := handle_outcome hrun h.inv h.wf hlive h.quiet
    obtain ⟨hinv, -, hwf⟩ := hout.steps.inv h.inv h.wf
    exact ⟨hinv, hwf, hout.quiet, hout.steps.calls h.inv h.wf h.calls⟩
  | terminate s os reason =>
    have hstep := terminate_step h.inv hlive reason rfl
    obtain ⟨hinv, hfile⟩ := hstep.inv h.inv h.wf
    refine ⟨hinv, hfile.wf h.wf, h.quiet.terminate os reason, ?_⟩
    rw [hfile.sockets.pid]
    exact hstep.calls h.calls
  | others ho => exact h.of_others ho

theorem Run.sound {a b : Session × Os} (hrun : Run a b) (h : a.1.Sound a.2) : b.1.Sound b.2 := by
  induction hrun with
  | refl => exact h
  | tail _ hcall ih => exact hcall.2.sound hcall.1 ih

theorem Call.terminated {a b : Session × Os} (hcall : Call a b) (h : a.1.terminated = true) :
    b.1.terminated = true := by
  cases hcall with
  | handle s sys events reads => exact handle_terminated h events reads
  | terminate s os reason => exact terminate_terminated os reason
  | others ho => exact h

/-- A session that is not terminated was not terminated in any state before. -/
theorem Calls.run {a b : Session × Os} (hrun : Calls a b) (hlive : b.1.terminated = false) :
    Run a b := by
  induction hrun with
  | refl => exact .refl
  | @tail b c _ hcall ih =>
    have hb : b.1.terminated = false := by
      by_contra hne
      rw [hcall.terminated (by simpa using hne)] at hlive
      cases hlive
    exact (ih hb).tail ⟨hb, hcall⟩

theorem create_sound (id fd conn : ℕ) (outDir : Bytes) (now : ℤ) {os : Os} (hwf : os.WF) :
    (create id fd conn outDir now).Sound os :=
  ⟨.waiting (create_waiting id fd conn outDir now), hwf, create_quiet id fd conn outDir now,
    .fresh outDir os.pid⟩

section Representation

variable {s : Session} {os : Os}

theorem Body.fields {fd i : ℕ} (h : s.Body os fd i) :
    s.writer.fd = some fd ∧ os.fds fd = some (.file i) ∧ os.dir s.writer.tempPath = some i ∧
      os.data i = payloads s.hist.frames ∧ s.receivedSize = (os.data i).length ∧
      s.writer.written = (os.data i).length ∧ s.receivedSize ≤ s.expectedSize ∧
      s.crc = ({} : Crc32).update (os.data i) := by
  have hdata := h.data
  refine ⟨h.holds.fd_eq, h.holds.file_fd, h.holds.entry_temp, hdata.trans h.frames, ?_, ?_, ?_, ?_⟩
  · rw [hdata, h.received]
  · rw [hdata, h.written]
  · rw [h.received]
    exact h.le_expected
  · rw [hdata]
    exact h.crc

/-- No frame the parser can deliver makes the sum of the sizes wrap. -/
theorem Body.no_wrap {fd i : ℕ} (h : s.Body os fd i) {p q : FrameParser} {frame : Frame}
    (hnext : p.next = (.ready frame, q)) : s.receivedSize + frame.data.length < 2 ^ 64 := by
  have h1 := (FrameParser.unread_eq_of_ready hnext).2
  have h2 := h.le_max
  rw [h.received]
  simp only [MAX_OFF, MAX_PAYLOAD] at h1 h2
  omega

/-- `link` succeeded exactly when a file is on record as published. -/
theorem link_iff_published {pid : ℕ} (h : s.writer.Calls pid) :
    (∃ p, .link p none ∈ s.writer.log) ↔ s.writer.published ≠ none := by
  constructor
  · rintro ⟨p, hp⟩
    obtain ⟨i, hi⟩ := (h.published p).mp hp
    rw [hi]
    exact Option.some_ne_none _
  · intro hne
    obtain ⟨⟨p, i⟩, hi⟩ := Option.ne_none_iff_exists'.mp hne
    exact ⟨p, (h.published p).mpr ⟨i, hi⟩⟩

/-- A session completed exactly when it published its file. -/
theorem Account.completed_iff (h : s.Account os) :
    s.completed = true ↔ s.writer.published ≠ none := by
  cases h with
  | silent h =>
    rw [h.completed, h.published]
    simp
  | answered h =>
    rw [h.completed]
    constructor
    · intro hok
      obtain ⟨i, hi⟩ := h.file hok
      rw [hi.published]
      exact Option.some_ne_none _
    · intro hne
      by_contra hno
      exact hne (h.unpublished hno)

/-- A session that completed has its file in the directory. -/
theorem Account.file_of_completed (h : s.Account os) (hc : s.completed = true) :
    s.state ≠ .receiving ∧ ∃ p i, s.writer.published = some (p, i) ∧ os.dir p = some i ∧
      os.data i = payloads s.hist.frames := by
  cases h with
  | silent h => rw [h.completed] at hc; cases hc
  | answered h =>
    obtain ⟨i, hi⟩ := h.file (h.completed.mp hc)
    exact ⟨h.state_ne, _, i, hi.published, (hi.entry _).mpr rfl, hi.data.trans hi.frames⟩

end Representation

/-- **The representation invariant of a session**, in every state that calls of
`handle` and `terminate` reach and in which it is not terminated:

* receiving before HELLO it has no temporary file, and nothing is counted;
* receiving after HELLO the temporary file is open and holds the accepted
  payloads, on which all counters agree, and no frame makes the size wrap;
* with a verdict it has no file open and no temporary file, and the position in
  the ACK is in bounds, at the end when draining;
* `completed` says whether its file has been published, which is then in the
  directory with those payloads. -/
theorem representation {id fd conn : ℕ} {outDir : Bytes} {now : ℤ} {os₀ os : Os} {s : Session}
    (hwf : os₀.WF) (hrun : Calls (create id fd conn outDir now, os₀) (s, os))
    (hlive : s.terminated = false) :
    (s.state = .receiving → s.helloReceived = false →
      s.writer.fd = none ∧ s.writer.tempPath = [] ∧ s.receivedSize = 0 ∧ s.crc = {}) ∧
    (s.state = .receiving → s.helloReceived = true →
      ∃ f i, (s.writer.fd = some f ∧ os.fds f = some (.file i) ∧
        os.dir s.writer.tempPath = some i ∧ os.data i = payloads s.hist.frames ∧
        s.receivedSize = (os.data i).length ∧ s.writer.written = (os.data i).length ∧
        s.receivedSize ≤ s.expectedSize ∧ s.crc = ({} : Crc32).update (os.data i)) ∧
        ∀ (p q : FrameParser) (frame : Frame), p.next = (.ready frame, q) →
          s.receivedSize + frame.data.length < 2 ^ 64) ∧
    (s.state ≠ .receiving →
      s.writer.fd = none ∧ s.writer.tempPath = [] ∧ s.outPos ≤ s.out.length ∧
        (s.state = .draining → s.outPos = s.out.length)) ∧
    ((s.completed = true ↔ ∃ p, .link p none ∈ s.writer.log) ∧
      (s.completed = true → s.state ≠ .receiving ∧
        ∃ p i, s.writer.published = some (p, i) ∧ os.dir p = some i ∧
          os.data i = payloads s.hist.frames)) := by
  have h : s.Sound os := (hrun.run hlive).sound (create_sound id fd conn outDir now hwf)
  refine ⟨fun hs hh => ?_, fun hs hh => ?_, fun hs => ?_, ?_, h.inv.account.file_of_completed⟩
  · have hw := (h.inv.receiving hlive hs).of_not_hello hh
    exact ⟨hw.closed.1, hw.closed.2, hw.received, hw.crc⟩
  · obtain ⟨f, i, hb⟩ := (h.inv.receiving hlive hs).of_hello hh
    exact ⟨f, i, hb.fields, fun p q frame hnext => hb.no_wrap hnext⟩
  · obtain ⟨status, message, hans⟩ := h.inv.account.answered_of_state hs
    refine ⟨hans.closed.1, hans.closed.2, hans.outPos_le, fun hd => ?_⟩
    rcases hans.state with ⟨hst, -⟩ | ⟨-, -, hpos⟩
    · rw [hst] at hd; cases hd
    · exact hpos
  · rw [h.inv.account.completed_iff, link_iff_published h.calls]

/-- A session that has read the HELLO of a file of three bytes. -/
theorem representation_after_hello :
    ∃ r : Bool × Session × Sys,
      (create 1 4 0 (str "in") 0).handle
          { os := .empty 1
            openAnswer := .fd 5
            localTime := { year := 2024, mon := 0, mday := 1, hour := 0, min := 0, sec := 0 }
            now := 1 } EPOLLIN [.bytes (buildHello 3 (str "a.txt"))] = r ∧
      ∃ f i, r.2.1.writer.fd = some f ∧ r.2.2.os.fds f = some (.file i) := by
  refine ⟨_, rfl, ?_⟩
  generalize hr : handle _ _ _ _ = r
  have hhello : r.2.1.helloReceived = true := by rw [← hr]; decide +kernel
  have hlive : r.2.1.terminated = false := by rw [← hr]; decide +kernel
  have hstate : r.2.1.state = .receiving := by rw [← hr]; decide +kernel
  have hcall := Call.handle (create 1 4 0 (str "in") 0)
    { os := .empty 1
      openAnswer := .fd 5
      localTime := { year := 2024, mon := 0, mday := 1, hour := 0, min := 0, sec := 0 }
      now := 1 } EPOLLIN [.bytes (buildHello 3 (str "a.txt"))]
  rw [hr] at hcall
  obtain ⟨f, i, h, -⟩ := (representation (.empty 1) (.single hcall) hlive).2.1 hstate hhello
  exact ⟨f, i, h.1, h.2.1⟩

end Nexus.Session
