/-
The records of a session.

`hist.received` and `hist.sent` are not in the source. Here each is tied, for every call of
`handle`, to what the system answers in that call:

* `handle_received` — `hist.received` grows by what the answers of `read` give, up to the
  first that ends the loop, or up to a verdict;
* `handle_sent` — `hist.sent` grows by what the answers of `send` take of the ACK, each of
  what the ones before it have left.
-/
import NexusTransmitter.ReadLoop
import NexusTransmitter.SessionTwins

namespace Nexus

/-- The bytes that answers of `read` give. -/
def given (reads : List ReadAnswer) : Bytes := reads.flatMap ReadAnswer.data

theorem given_cons (a : ReadAnswer) (reads : List ReadAnswer) :
    given (a :: reads) = a.data ++ given reads := List.flatMap_cons

theorem given_append (reads later : List ReadAnswer) :
    given (reads ++ later) = given reads ++ given later := List.flatMap_append

/-- What answers of `send` take of `p`, each of what the ones before it have left. -/
def takenBy : List SendAnswer → Bytes → Bytes
  | [], _ => []
  | ans :: sends, p => ans.taken p ++ takenBy sends (p.drop (ans.taken p).length)

theorem takenBy_append (sends later : List SendAnswer) (p : Bytes) :
    takenBy (sends ++ later) p =
      takenBy sends p ++ takenBy later (p.drop (takenBy sends p).length) := by
  induction sends generalizing p with
  | nil => rfl
  | cons ans sends ih =>
    rw [List.cons_append, takenBy, takenBy, ih, List.append_assoc, List.length_append,
      List.drop_drop]

namespace Session

/-! ### What a session has received -/

section Received

variable {s : Session} {sys : Sys}

/-- A handler that stops the loop over the frames has queued an ACK. -/
theorem FrameResult.stop {r : Bool × Session × Sys} (h : s.FrameResult sys r) (hr : r.1 = false) :
    r.2.1.state = .sendingAck := by
  cases h with
  | opened => cases hr
  | stored => cases hr
  | refused => rfl
  | notOpened => rfl
  | notStored => rfl
  | saved => rfl

theorem processFrames_stop (s : Session) (sys : Sys) (fuel : ℕ)
    (hr : (s.processFrames sys fuel).1 = false) :
    (s.processFrames sys fuel).2.1.state = .sendingAck := by
  induction fuel generalizing s sys with
  | zero => cases hr
  | succ fuel ih =>
    rw [processFrames] at hr ⊢
    split
    · rename_i hnext
      rw [hnext] at hr
      cases hr
    · rfl
    · rename_i f p hnext
      rw [hnext] at hr
      dsimp only at hr
      have hframe := onFrame_result (s.take f p) sys f
      split <;> rename_i s₁ sys₁ hrun <;> rw [hrun] at hr hframe
      · exact ih s₁ sys₁ hr
      · exact hframe.stop rfl

theorem SendResult.received {all : List SendAnswer} {r : Bool × Session × Sys}
    (h : SendResult sys all s r) : r.2.1.hist.received = s.hist.received := by
  induction h with
  | stays s hsends => rfl
  | fails s text hsends => rfl
  | drains s hsends => rfl
  | advances s n h ih => exact ih

theorem onWritable_received : (s.onWritable sys).2.1.hist.received = s.hist.received := by
  unfold onWritable
  split
  · rfl
  · exact (sendLoop_result s sys (List.suffix_refl _)).received

theorem SendResult.state {all : List SendAnswer} {r : Bool × Session × Sys}
    (h : SendResult sys all s r) : r.2.1.state = s.state ∨ r.2.1.state = .draining := by
  induction h with
  | stays s hsends => exact .inl rfl
  | fails s text hsends => exact .inl rfl
  | drains s hsends => exact .inr rfl
  | advances s n h ih => exact ih

/-- Writing does not make a session receive again. -/
theorem onWritable_state (hs : s.state ≠ .receiving) :
    (s.onWritable sys).2.1.state ≠ .receiving := by
  unfold onWritable
  split
  · exact hs
  · rcases (sendLoop_result s sys (List.suffix_refl sys.sends)).state with hsame | hdrained
    · rwa [hsame]
    · rw [hdrained]
      decide

theorem terminate_received (os : Os) (reason : Bytes) :
    (s.terminate os reason).1.hist.received = s.hist.received := by
  unfold terminate
  split <;> rfl

/-- A handler has received what the answers `used` give, and if the answers `rest` are left,
there is a verdict, or the first of them ends the loop. -/
structure Receives (s : Session) (used rest : List ReadAnswer) (r : Bool × Session × Sys) :
    Prop where
  received : r.2.1.hist.received = s.hist.received ++ given used
  ended : rest = [] ∨ r.2.1.state ≠ .receiving ∨ ∃ a ∈ rest.head?, a.more = false

/-- An answer that ends the loop. -/
theorem Receives.stop {a : ReadAnswer} (ha : a.more = false) (rest : List ReadAnswer)
    {r : Bool × Session × Sys} (hr : r.2.1.hist.received = s.hist.received) :
    s.Receives [] (a :: rest) r :=
  ⟨hr.trans (List.append_nil _).symm, .inr (.inr ⟨a, rfl, ha⟩)⟩

theorem onReadable_received (s : Session) (sys : Sys) (reads : List ReadAnswer) :
    ∃ used rest, reads = used ++ rest ∧ s.Receives used rest (s.onReadable sys reads) := by
  induction reads generalizing s sys with
  | nil => exact ⟨[], [], rfl, (List.append_nil _).symm, .inl rfl⟩
  | cons ans reads ih =>
    match ans with
    | .eagain => exact ⟨[], _, rfl, .stop rfl reads rfl⟩
    | .eintr =>
      obtain ⟨used, rest, rfl, hreceived, hended⟩ := ih s sys
      exact ⟨.eintr :: used, rest, rfl, hreceived, hended⟩
    | .err text => exact ⟨[], _, rfl, .stop rfl reads (terminate_received _ _)⟩
    | .bytes [] =>
      refine ⟨[], _, rfl, .stop rfl reads ?_⟩
      rw [onReadable]
      split
      · rfl
      split
      · rfl
      · exact terminate_received _ _
    | .bytes (b :: bs) =>
      have hread : (s.receive (b :: bs) sys.now).hist.received = s.hist.received ++ b :: bs := rfl
      have hgo : ∀ (s₁ : Session) (sys₁ : Sys),
          s₁.hist.received = s.hist.received ++ b :: bs →
          ∃ used rest, .bytes (b :: bs) :: reads = used ++ rest ∧
            s.Receives used rest (s₁.onReadable sys₁ reads) := by
        intro s₁ sys₁ hsame
        obtain ⟨used, rest, rfl, hreceived, hended⟩ := ih s₁ sys₁
        refine ⟨.bytes (b :: bs) :: used, rest, rfl, ?_, hended⟩
        rw [hreceived, hsame, given_cons, List.append_assoc]
        rfl
      rw [onReadable]
      split
      swap
      · exact hgo _ sys hread
      have hsteady := (processFrames_steady (s.receive (b :: bs) sys.now) sys
        (s.receive (b :: bs) sys.now).parser.buffered).received
      have hstop := processFrames_stop (s.receive (b :: bs) sys.now) sys
        (s.receive (b :: bs) sys.now).parser.buffered
      split <;> rename_i s₁ sys₁ hrun <;> rw [hrun] at hsteady hstop
      · exact hgo s₁ sys₁ (hsteady.trans hread)
      · -- a verdict: no more is read
        have hqueued : s₁.state = .sendingAck := hstop rfl
        rw [if_pos hqueued]
        refine ⟨[.bytes (b :: bs)], reads, rfl, ?_, .inr (.inl ?_)⟩
        · rw [onWritable_received, show s₁.hist.received = _ from hsteady, hread, given_cons]
          rw [given, List.flatMap_nil, List.append_nil]
          rfl
        · exact onWritable_state (by rw [hqueued]; decide)

theorem thenWritable_received (events : BitVec 32) (r : Bool × Session × Sys) :
    (thenWritable events r).2.1.hist.received = r.2.1.hist.received := by
  rw [thenWritable]
  split
  · exact onWritable_received
  · rfl

theorem thenWritable_state (events : BitVec 32) {r : Bool × Session × Sys}
    (hs : r.2.1.state ≠ .receiving) : (thenWritable events r).2.1.state ≠ .receiving := by
  rw [thenWritable]
  split
  · exact onWritable_state hs
  · exact hs

/-- **What a session has received** in one event is what the answers of `read` give. They are
all used, unless the event does not read, there is a verdict, or one of them ends the loop. -/
theorem handle_received (s : Session) (sys : Sys) (events : BitVec 32) (reads : List ReadAnswer) :
    ∃ used rest, reads = used ++ rest ∧
      (s.handle sys events reads).2.1.hist.received = s.hist.received ++ given used ∧
      (events &&& EPOLLIN = 0 → used = []) ∧
      (events &&& EPOLLIN ≠ 0 → rest = [] ∨ (s.handle sys events reads).2.1.state ≠ .receiving ∨
        ∃ a ∈ rest.head?, a.more = false) := by
  rw [handle_eq]
  by_cases hin : events &&& EPOLLIN = 0
  · refine ⟨[], reads, rfl, ?_, fun _ => rfl, fun hne => absurd hin hne⟩
    rw [given, List.flatMap_nil, List.append_nil]
    split
    · split
      · exact terminate_received _ _
      · rfl
    · rw [if_neg (not_not.mpr hin)]
      exact thenWritable_received events _
  · rw [if_neg fun h => hin h.2, if_pos hin]
    obtain ⟨used, rest, hreads, hreceived, hended⟩ := onReadable_received s sys reads
    refine ⟨used, rest, hreads, (thenWritable_received events _).trans hreceived,
      fun h => absurd h hin, fun _ => ?_⟩
    exact hended.imp_right (Or.imp_left (thenWritable_state events))

end Received

/-! ### What a session has sent -/

section Sent

variable {s : Session} {sys : Sys}

/-- The position in the ACK is the number of the bytes sent. -/
structure Aligned (s : Session) : Prop where
  unsent : s.state = .receiving → s.hist.sent = []
  outPos : s.state ≠ .receiving → s.outPos = s.hist.sent.length

theorem Account.aligned {os : Os} (h : s.Account os) : s.Aligned := by
  cases h with
  | silent h => exact ⟨fun _ => h.sent, fun hs => absurd h.state hs⟩
  | answered h =>
    refine ⟨fun hs => absurd hs h.state_ne, fun _ => ?_⟩
    rw [h.sent, List.length_take_of_le h.outPos_le]

theorem Aligned.log (h : s.Aligned) (line : LogLine) : (s.log line).Aligned := ⟨h.unsent, h.outPos⟩

theorem Aligned.terminate (h : s.Aligned) (os : Os) (reason : Bytes) :
    (s.terminate os reason).1.Aligned ∧
      (s.terminate os reason).1.hist.sent = s.hist.sent := by
  rw [Session.terminate]
  split
  · exact ⟨h, rfl⟩
  · exact ⟨⟨h.unsent, h.outPos⟩, rfl⟩

/-- A handler has used the answers `used` of `send`, and sent what they take of the ACK. -/
structure Sends (s : Session) (used : List SendAnswer) (r : Bool × Session × Sys) : Prop where
  sent : r.2.1.hist.sent = s.hist.sent ++ takenBy used (r.2.1.out.drop s.hist.sent.length)
  aligned : r.2.1.Aligned

/-- If some of the ACK is left, the socket would block. -/
def Blocked (used : List SendAnswer) (r : Bool × Session × Sys) : Prop :=
  r.1 = true → r.2.1.state = .sendingAck → r.2.2.sends = [] ∨ used.getLast? = some .eagain

/-- Nothing is sent. -/
theorem Sends.nothing {r : Bool × Session × Sys} (hsent : r.2.1.hist.sent = s.hist.sent)
    (h : r.2.1.Aligned) : s.Sends [] r :=
  ⟨hsent.trans (List.append_nil _).symm, h⟩

/-- First the answers `used`, then `later`, with the same ACK. -/
theorem Sends.trans {used later : List SendAnswer} {r r' : Bool × Session × Sys}
    (h : s.Sends used r) (h' : r.2.1.Sends later r') (hout : r'.2.1.out = r.2.1.out) :
    s.Sends (used ++ later) r' where
  sent := by
    rw [h'.sent, takenBy_append, hout, List.drop_drop, h.sent, List.append_assoc,
      List.length_append]
  aligned := h'.aligned

theorem Aligned.terminates (h : s.Aligned) (sys : Sys) (reason : Bytes) :
    s.Sends [] (s.terminates sys reason) :=
  .nothing (h.terminate sys.os reason).2 (h.terminate sys.os reason).1

/-- It is about what had been sent before. -/
theorem Sends.of_sent {s' : Session} {used : List SendAnswer} {r : Bool × Session × Sys}
    (h : s'.Sends used r) (hsent : s'.hist.sent = s.hist.sent) : s.Sends used r :=
  ⟨by rw [h.sent, hsent], h.aligned⟩

/-- The answer takes nothing. -/
theorem Sends.idle {a : SendAnswer} (ha : ∀ p, a.taken p = []) {r : Bool × Session × Sys}
    (hsent : r.2.1.hist.sent = s.hist.sent) (h : r.2.1.Aligned) : s.Sends [a] r where
  sent := by rw [hsent, takenBy, takenBy, ha, List.append_nil, List.append_nil]
  aligned := h

/-- The answer takes something. -/
theorem Sends.some (hs : s.state = .sendingAck) (hpos : s.outPos = s.hist.sent.length) (n : ℕ) :
    s.Sends [.took n] (true, s.advance (min n (s.out.length - s.outPos)) sys.now, sys) := by
  have htaken : (s.out.drop s.outPos).take (min n (s.out.length - s.outPos)) =
      (s.out.drop s.outPos).take n := by
    rw [← List.length_drop, ← List.take_eq_take_min]
  refine ⟨?_, fun h => ?_, fun _ => ?_⟩
  · show s.hist.sent ++ (s.out.drop s.outPos).take (min n (s.out.length - s.outPos)) = _
    rw [htaken, hpos, takenBy, takenBy, List.append_nil]
    rfl
  · change s.state = .receiving at h
    rw [hs] at h
    cases h
  · show s.outPos + min n (s.out.length - s.outPos) = (s.hist.sent ++ List.take _ _).length
    rw [List.length_append, List.length_take, List.length_drop, hpos]
    omega

theorem sendLoop_sends (hs : s.state = .sendingAck) (hpos : s.outPos = s.hist.sent.length)
    (sends : List SendAnswer) :
    (s.sendLoop sys sends).2.1.out = s.out ∧
      ∃ used, sends = used ++ (s.sendLoop sys sends).2.2.sends ∧
        s.Sends used (s.sendLoop sys sends) ∧ Blocked used (s.sendLoop sys sends) := by
  have haligned : s.Aligned := ⟨fun h => (by rw [hs] at h; cases h), fun _ => hpos⟩
  have hdrained : (s.drain sys.now).Aligned := ⟨fun h => (by cases h), fun _ => hpos⟩
  induction sends generalizing s with
  | nil =>
    rw [sendLoop.eq_def]
    dsimp only
    split
    · exact ⟨rfl, [], rfl, .nothing rfl haligned, fun _ _ => .inl rfl⟩
    · exact ⟨rfl, [], rfl, .nothing rfl hdrained, fun _ h => (by cases h)⟩
  | cons ans sends ih =>
    rw [sendLoop.eq_def]
    dsimp only
    split
    swap
    · exact ⟨rfl, [], rfl, .nothing rfl hdrained, fun _ h => (by cases h)⟩
    rename_i hleft
    -- the answer `a`, and then the loop
    have hgo : ∀ (a : SendAnswer) (s₁ : Session), s₁.state = .sendingAck → s₁.out = s.out →
        s.Sends [a] (true, s₁, sys) →
        (s₁.sendLoop sys sends).2.1.out = s.out ∧
          ∃ used, a :: sends = used ++ (s₁.sendLoop sys sends).2.2.sends ∧
            s.Sends used (s₁.sendLoop sys sends) ∧ Blocked used (s₁.sendLoop sys sends) := by
      intro a s₁ hs₁ hout hone
      have hpos₁ := hone.aligned.outPos (by rw [hs₁]; decide)
      obtain ⟨hsame, used, hused, hsends, hblocked⟩ := ih hs₁ hpos₁ hone.aligned
        ⟨fun h => (by cases h), fun _ => hpos₁⟩
      refine ⟨hsame.trans hout, a :: used, congrArg (a :: ·) hused, hone.trans hsends hsame,
        fun hgo hstate => ?_⟩
      refine (hblocked hgo hstate).imp_right fun hlast => ?_
      rw [List.getLast?_cons, hlast]
      rfl
    cases ans with
    | took n =>
      dsimp only
      split
      · exact hgo (.took n) _ hs rfl (.some hs hpos n)
      · rename_i hzero
        obtain rfl : n = 0 := by omega
        exact ⟨rfl, [.took 0], rfl, .idle (fun _ => rfl) rfl (haligned.log _),
          fun h => (by cases h)⟩
    | eagain =>
      exact ⟨rfl, [.eagain], rfl, .idle (fun _ => rfl) rfl haligned, fun _ _ => .inr rfl⟩
    | eintr => exact hgo .eintr s hs rfl (.idle (fun _ => rfl) rfl haligned)
    | err text =>
      exact ⟨rfl, [.err text], rfl, .idle (fun _ => rfl) rfl (haligned.log _),
        fun h => (by cases h)⟩

theorem onWritable_sent (h : s.Aligned) (sys : Sys) :
    (s.onWritable sys).2.1.out = s.out ∧
      ∃ used, sys.sends = used ++ (s.onWritable sys).2.2.sends ∧
        s.Sends used (s.onWritable sys) ∧ Blocked used (s.onWritable sys) := by
  rw [onWritable]
  split
  · rename_i hs
    exact ⟨rfl, [], rfl, .nothing rfl h, fun _ hstate => absurd hstate hs⟩
  · rename_i hs
    rw [not_not] at hs
    exact sendLoop_sends hs (h.outPos (by rw [hs]; decide)) sys.sends

/-- What the handlers of frames leave of it: nothing has been sent. -/
structure Unsent (r : Bool × Session × Sys) : Prop where
  sent : r.2.1.hist.sent = []
  aligned : r.2.1.Aligned
  again : r.1 = true → r.2.1.state = .receiving

theorem FrameResult.unsent {r : Bool × Session × Sys} (h : s.FrameResult sys r)
    (hs : s.state = .receiving) (hsent : s.hist.sent = []) : Unsent r := by
  have hstill : ∀ s' : Session, s'.state = .receiving → s'.hist.sent = [] → s'.Aligned :=
    fun s' hs' hsent' => ⟨fun _ => hsent', fun hne => absurd hs' hne⟩
  have hqueued : ∀ s' : Session, s'.state = .sendingAck → s'.outPos = 0 → s'.hist.sent = [] →
      s'.Aligned := fun s' hs' hpos hsent' =>
    ⟨fun _ => hsent', fun _ => by rw [hpos, hsent', List.length_nil]⟩
  cases h with
  | opened => exact ⟨hsent, hstill _ hs hsent, fun _ => hs⟩
  | stored => exact ⟨hsent, hstill _ hs hsent, fun _ => hs⟩
  | refused => exact ⟨hsent, hqueued _ rfl rfl hsent, fun h => (by cases h)⟩
  | notOpened => exact ⟨hsent, hqueued _ rfl rfl hsent, fun h => (by cases h)⟩
  | notStored => exact ⟨hsent, hqueued _ rfl rfl hsent, fun h => (by cases h)⟩
  | saved => exact ⟨hsent, hqueued _ rfl rfl hsent, fun h => (by cases h)⟩

theorem processFrames_unsent (hs : s.state = .receiving) (hsent : s.hist.sent = []) (sys : Sys)
    (fuel : ℕ) :
    Unsent (s.processFrames sys fuel) := by
  have hstill : s.Aligned := ⟨fun _ => hsent, fun hne => absurd hs hne⟩
  induction fuel generalizing s sys with
  | zero => exact ⟨hsent, hstill, fun _ => hs⟩
  | succ fuel ih =>
    rw [processFrames]
    split
    · exact ⟨hsent, hstill, fun _ => hs⟩
    · exact (FrameResult.refused .protocolError _).unsent hs hsent
    · rename_i f p _
      have hframe := (onFrame_result (s.take f p) sys f).unsent hs hsent
      split <;> rename_i s₁ sys₁ hrun <;> rw [hrun] at hframe
      · exact ih (hframe.again rfl) hframe.sent sys₁ hframe.aligned
      · exact hframe

theorem onReadable_sent (h : s.Aligned) (sys : Sys) (reads : List ReadAnswer) :
    ∃ used, sys.sends = used ++ (s.onReadable sys reads).2.2.sends ∧
      s.Sends used (s.onReadable sys reads) := by
  induction reads generalizing s sys with
  | nil => exact ⟨[], rfl, .nothing rfl h⟩
  | cons ans reads ih =>
    match ans with
    | .eagain => exact ⟨[], rfl, .nothing rfl h⟩
    | .eintr => exact ih h sys
    | .err text => exact ⟨[], rfl, h.terminates sys _⟩
    | .bytes [] =>
      rw [onReadable]
      split
      · exact ⟨[], rfl, .nothing rfl h⟩
      split
      · exact ⟨[], rfl, .nothing rfl h⟩
      · exact ⟨[], rfl, h.terminates sys _⟩
    | .bytes (b :: bs) =>
      have hread : (s.receive (b :: bs) sys.now).Aligned := ⟨h.unsent, h.outPos⟩
      rw [onReadable]
      split
      swap
      · obtain ⟨used, hused, hsends⟩ := ih hread sys
        exact ⟨used, hused, hsends.of_sent rfl⟩
      rename_i hs
      have hsent : s.hist.sent = [] := h.unsent hs
      have hunsent : Unsent ((s.receive (b :: bs) sys.now).processFrames sys
          (s.receive (b :: bs) sys.now).parser.buffered) := processFrames_unsent hs hsent sys _
      have hsettles := (processFrames_settles (s.receive (b :: bs) sys.now) sys
        (s.receive (b :: bs) sys.now).parser.buffered).sends
      split <;> rename_i s₁ sys₁ hrun <;> rw [hrun] at hunsent hsettles
      · obtain ⟨used, hused, hsends⟩ := ih hunsent.aligned sys₁
        exact ⟨used, hsettles.symm.trans hused, hsends.of_sent (hunsent.sent.trans hsent.symm)⟩
      · split
        · obtain ⟨-, used, hused, hsends, -⟩ := onWritable_sent hunsent.aligned sys₁
          exact ⟨used, hsettles.symm.trans hused, hsends.of_sent (hunsent.sent.trans hsent.symm)⟩
        · exact ⟨[], hsettles.symm, .nothing (hunsent.sent.trans hsent.symm) hunsent.aligned⟩

/-- **What a session has sent** in one event is what the answers of `send` that it uses take of
the ACK, from where it was. When the event says that the connection is writable, and the
session goes on with some of the ACK left, the socket would block. -/
theorem handle_sent (h : s.Aligned) (sys : Sys) (events : BitVec 32) (reads : List ReadAnswer) :
    ∃ used, sys.sends = used ++ (s.handle sys events reads).2.2.sends ∧
      (s.handle sys events reads).2.1.hist.sent = s.hist.sent ++
        takenBy used ((s.handle sys events reads).2.1.out.drop s.hist.sent.length) ∧
      (events &&& EPOLLOUT ≠ 0 → Blocked used (s.handle sys events reads)) := by
  rw [handle_eq]
  split
  · split
    · exact ⟨[], rfl, (h.terminate sys.os _).2.trans (List.append_nil _).symm,
        fun _ h => (by cases h)⟩
    · exact ⟨[], rfl, (List.append_nil _).symm, fun _ h => (by cases h)⟩
  have hread : ∃ used, sys.sends = used ++
      (if events &&& EPOLLIN ≠ 0 then s.onReadable sys reads else (true, s, sys)).2.2.sends ∧
      s.Sends used (if events &&& EPOLLIN ≠ 0 then s.onReadable sys reads else (true, s, sys)) := by
    split
    · exact onReadable_sent h sys reads
    · exact ⟨[], rfl, .nothing rfl h⟩
  generalize (if events &&& EPOLLIN ≠ 0 then s.onReadable sys reads else (true, s, sys)) = r
    at hread
  obtain ⟨used, hused, hsends⟩ := hread
  rw [thenWritable]
  split
  · -- readable and writable in one event
    obtain ⟨hout, later, hlater, hmore, hblocked⟩ := onWritable_sent hsends.aligned r.2.2
    refine ⟨used ++ later, by rw [List.append_assoc, ← hlater, hused],
      (hsends.trans hmore hout).sent, fun _ hgo hstate => ?_⟩
    refine (hblocked hgo hstate).imp_right fun hlast => ?_
    rw [List.getLast?_append, hlast]
    rfl
  · rename_i hstop
    exact ⟨used, hused, hsends.sent, fun hout hgo => absurd ⟨hgo, hout⟩ hstop⟩

end Sent

end Session

end Nexus
