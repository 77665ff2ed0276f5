/-
How much of the peer's bytes a session keeps.

Two things bound `m_buf`: whenever the session is about to read while receiving, the
parser has said `NeedMore`, so less than the largest frame is there; and `feed` drops the
part already parsed before it appends what was read. `moments` lists the session as it is
before each `read` and before each `next` of one call of `handle`.

* `parse_buffer_bounded` — in every state and at every moment the position is in the buffer
  and the buffer is bounded, and once the session has its verdict the parser is not
  touched any more.
-/
import NexusTransmitter.ReadLoop

open Nexus.FrameParser

namespace Nexus

/-- The size of the buffer of `onReadable`. -/
def READ_BUFFER : ℕ := 64 * 1024

/-- The most that is buffered when the session is about to read. -/
def MAX_BUFFERED : ℕ := HEADER_SIZE + MAX_PAYLOAD + TRAILER_SIZE - 1

namespace FrameParser

theorem length_feed_buf (p : FrameParser) (data : Bytes) :
    (p.feed data).buf.length = p.buffered + data.length := by
  have hcompact : p.compact.buf.length = p.buffered := by
    rw [compact]
    split
    · rename_i hpos
      rw [buffered, hpos, Nat.sub_zero]
    · exact List.length_drop
  have hbuf : (p.feed data).buf = p.compact.buf ++ data := rfl
  rw [hbuf, List.length_append, hcompact]

/-- Taking a frame moves the position and nothing else. -/
theorem next_buf (p : FrameParser) : p.next.2.buf = p.buf := by
  unfold next
  split <;> rfl

theorem buffered_le_of_needMore {p : FrameParser} (h : parseAt p.unread = .needMore) :
    p.buffered ≤ MAX_BUFFERED := by
  have hlt := length_lt_of_needMore h
  rw [length_unread] at hlt
  exact Nat.le_sub_one_of_lt hlt

end FrameParser

namespace Session

/-! ### What the handlers of frames do to the parser -/

/-- A handler of frames leaves the parser alone; it goes on in the same state, or the
session has its verdict. -/
structure Spares (s : Session) (r : Bool × Session × Sys) : Prop where
  parser : r.2.1.parser = s.parser
  again : r.1 = true → r.2.1.state = s.state
  answered : r.1 = false → r.2.1.state ≠ .receiving

section Spares

variable (s : Session) (sys : Sys)

theorem Spares.verdict {s : Session} {r : Bool × Session × Sys} (hfalse : r.1 = false)
    (hparser : r.2.1.parser = s.parser) (hstate : r.2.1.state = .sendingAck) : s.Spares r := by
  refine ⟨hparser, fun htrue => ?_, fun _ => by rw [hstate]; simp⟩
  rw [hfalse] at htrue
  cases htrue

theorem Spares.more {s : Session} {r : Bool × Session × Sys} (htrue : r.1 = true)
    (hparser : r.2.1.parser = s.parser) (hstate : r.2.1.state = s.state) : s.Spares r := by
  refine ⟨hparser, fun _ => hstate, fun hfalse => ?_⟩
  rw [htrue] at hfalse
  cases hfalse

theorem failed_spares (status : Status) (message : Bytes) :
    s.Spares (s.failed sys status message) := .verdict rfl rfl rfl

theorem FrameResult.spares {s : Session} {sys : Sys} {r : Bool × Session × Sys}
    (h : s.FrameResult sys r) : s.Spares r := by
  cases h with
  | refused status message => exact .verdict rfl rfl rfl
  | notOpened hello w os err => exact .verdict rfl rfl rfl
  | notStored w os writes err => exact .verdict rfl rfl rfl
  | opened hello w os name size => exact .more rfl rfl rfl
  | stored w os writes data => exact .more rfl rfl rfl
  | saved w os name => exact .verdict rfl rfl rfl

theorem onFrame_spares (f : Frame) : s.Spares (s.onFrame sys f) := (onFrame_result s sys f).spares

end Spares

/-! ### The moments of a call -/

/-- A moment of a call: the session is about to call `read`, or `next`. -/
inductive Moment
  | read (s : Session)
  | next (s : Session)

def Moment.session : Moment → Session
  | read s => s
  | next s => s

/-- The moments of `processFrames`. -/
def frameMoments (s : Session) (sys : Sys) : ℕ → List Moment
  | 0 => []
  | fuel + 1 =>
    .next s ::
      match s.parser.next with
      | (.needMore, _) => []
      | (.error _, _) => []
      | (.ready f, parser) =>
        match (s.take f parser).onFrame sys f with
        | (true, s, sys) => s.frameMoments sys fuel
        | (false, _, _) => []

/-- The moments of `onReadable`. -/
def readMoments (s : Session) (sys : Sys) : List ReadAnswer → List Moment
  | [] => [.read s]
  | .bytes [] :: _ => [.read s]
  | .bytes (b :: bs) :: reads =>
    .read s ::
      let s := s.receive (b :: bs) sys.now
      if s.state = .receiving then
        s.frameMoments sys s.parser.buffered ++
          match s.processFrames sys s.parser.buffered with
          | (true, s, sys) => s.readMoments sys reads
          | (false, _, _) => []
      else s.readMoments sys reads
  | .eagain :: _ => [.read s]
  | .eintr :: reads => .read s :: s.readMoments sys reads
  | .err _ :: _ => [.read s]

/-- The moments of `handle`. -/
def moments (s : Session) (sys : Sys) (events : BitVec 32) (reads : List ReadAnswer) :
    List Moment :=
  if events &&& (EPOLLHUP ||| EPOLLERR) ≠ 0 ∧ events &&& EPOLLIN = 0 then []
  else if events &&& EPOLLIN ≠ 0 then s.readMoments sys reads
  else []

theorem read_notMem_frameMoments {s t : Session} {sys : Sys} (fuel : ℕ) :
    .read t ∉ s.frameMoments sys fuel := by
  induction fuel generalizing s sys with
  | zero => exact List.not_mem_nil
  | succ fuel ih =>
    intro h
    rcases List.mem_cons.mp h with h | h
    · cases h
    · split at h
      · cases h
      · cases h
      · split at h
        · exact ih h
        · cases h

/-- Where the session is about to read, the rest of the loop is the loop from there on. -/
theorem onReadable_of_moment {s t : Session} {sys : Sys} {reads : List ReadAnswer}
    (h : .read t ∈ s.readMoments sys reads) :
    ∃ sys' reads', reads' <:+ reads ∧ s.onReadable sys reads = t.onReadable sys' reads' := by
  induction reads generalizing s sys with
  | nil =>
    cases List.mem_singleton.mp h
    exact ⟨sys, [], List.suffix_rfl, rfl⟩
  | cons ans reads ih =>
    have hlater : ∀ {s' : Session} {sys' : Sys}, .read t ∈ s'.readMoments sys' reads →
        ∃ sys'' reads', reads' <:+ ans :: reads ∧
          s'.onReadable sys' reads = t.onReadable sys'' reads' := by
      intro s' sys' h
      obtain ⟨sys'', reads', hsuffix, heq⟩ := ih h
      exact ⟨sys'', reads', hsuffix.trans (List.suffix_cons ans reads), heq⟩
    cases ans with
    | eagain =>
      cases List.mem_singleton.mp h
      exact ⟨sys, _, List.suffix_rfl, rfl⟩
    | err text =>
      cases List.mem_singleton.mp h
      exact ⟨sys, _, List.suffix_rfl, rfl⟩
    | eintr =>
      rcases List.mem_cons.mp h with h | h
      · cases h
        exact ⟨sys, _, List.suffix_rfl, rfl⟩
      · exact hlater h
    | bytes bs =>
      cases bs with
      | nil =>
        cases List.mem_singleton.mp h
        exact ⟨sys, _, List.suffix_rfl, rfl⟩
      | cons b bs =>
        rcases List.mem_cons.mp h with h | h
        · cases h
          exact ⟨sys, _, List.suffix_rfl, rfl⟩
        dsimp only at h
        rw [onReadable]
        split at h
        · rw [if_pos ‹_›]
          rcases List.mem_append.mp h with h | h
          · exact absurd h (read_notMem_frameMoments _)
          · rcases hframes : (s.receive (b :: bs) sys.now).processFrames sys
              (s.receive (b :: bs) sys.now).parser.buffered with ⟨_ | _, s', sys'⟩
            · rw [hframes] at h
              cases h
            · rw [hframes] at h
              exact hlater h
        · rw [if_neg ‹_›]
          exact hlater h

theorem onReadable_of_mem_moments {s t : Session} {sys : Sys} {events : BitVec 32}
    {reads : List ReadAnswer} (h : .read t ∈ s.moments sys events reads) :
    ∃ sys' reads', reads' <:+ reads ∧ s.onReadable sys reads = t.onReadable sys' reads' := by
  rw [moments] at h
  split at h
  · cases h
  split at h
  · exact onReadable_of_moment h
  · cases h

/-! ### The bound -/

/-- What holds of a session between calls. -/
structure Bounded (s : Session) : Prop where
  drained : s.state = .receiving → parseAt s.parser.unread = .needMore
  buf : s.parser.buf.length ≤ MAX_BUFFERED + READ_BUFFER

/-- What holds at a moment of a call. -/
structure Moment.Small (m : Moment) : Prop where
  buf : m.session.parser.buf.length ≤ MAX_BUFFERED + READ_BUFFER
  read : ∀ s, m = .read s → s.state = .receiving → s.parser.buffered ≤ MAX_BUFFERED
  next : ∀ s, m = .next s → s.state = .receiving

section Bound

variable {s : Session} {sys : Sys}

theorem Bounded.of_answered (hs : s.state ≠ .receiving)
    (hbuf : s.parser.buf.length ≤ MAX_BUFFERED + READ_BUFFER) : s.Bounded :=
  ⟨fun h => absurd h hs, hbuf⟩

theorem Bounded.small_read (h : s.Bounded) : (Moment.read s).Small where
  buf := h.buf
  read := by
    rintro _ ⟨⟩ hs
    exact buffered_le_of_needMore (h.drained hs)
  next := by
    rintro _ ⟨⟩

/-- The frames of one read move the position only. -/
theorem frameMoments_small (hs : s.state = .receiving)
    (hbuf : s.parser.buf.length ≤ MAX_BUFFERED + READ_BUFFER) (fuel : ℕ) :
    ∀ m ∈ s.frameMoments sys fuel, m.Small := by
  induction fuel generalizing s sys with
  | zero =>
    intro m hm
    cases hm
  | succ fuel ih =>
    intro m hm
    rcases List.mem_cons.mp hm with rfl | hm
    · refine ⟨hbuf, ?_, ?_⟩
      · rintro _ ⟨⟩
      · rintro _ ⟨⟩
        exact hs
    · split at hm
      · cases hm
      · cases hm
      · rename_i f parser hnext
        split at hm
        · rename_i s' sys' hrun
          have hkeep := onFrame_spares (s.take f parser) sys f
          rw [hrun] at hkeep
          have hparser : parser.buf = s.parser.buf := by
            rw [← next_buf s.parser, hnext]
          refine ih ((hkeep.again rfl).trans hs) ?_ m hm
          rw [hkeep.parser]
          exact hparser ▸ hbuf
        · cases hm

/-- When the frames of one read are processed, the parser needs more or there is a
verdict. -/
theorem processFrames_bounded (hs : s.state = .receiving)
    (hbuf : s.parser.buf.length ≤ MAX_BUFFERED + READ_BUFFER) {fuel : ℕ}
    (hfuel : s.parser.buffered ≤ fuel) : (s.processFrames sys fuel).2.1.Bounded := by
  induction fuel generalizing s sys with
  | zero =>
    have hnil : s.parser.unread = [] :=
      List.eq_nil_of_length_eq_zero (by rw [length_unread]; omega)
    exact ⟨fun _ => by change parseAt s.parser.unread = _; rw [hnil]; rfl, hbuf⟩
  | succ fuel ih =>
    rw [processFrames]
    split
    · rename_i q hnext
      exact ⟨fun _ => (next_needMore hnext).1, hbuf⟩
    · exact .of_answered ((failed_spares s sys _ _).answered rfl) hbuf
    · rename_i f parser hnext
      have hparser : parser.buf = s.parser.buf := by
        rw [← next_buf s.parser, hnext]
      have hshort := buffered_next hnext
      have hkeep := onFrame_spares (s.take f parser) sys f
      split <;> rename_i hrun <;> rw [hrun] at hkeep
      · refine ih ((hkeep.again rfl).trans hs) ?_ ?_
        · rw [hkeep.parser]
          exact hparser ▸ hbuf
        · rw [hkeep.parser]
          change parser.buffered ≤ fuel
          omega
      · refine .of_answered (hkeep.answered rfl) ?_
        rw [hkeep.parser]
        exact hparser ▸ hbuf

theorem Bounded.terminate (h : s.Bounded) (os : Os) (reason : Bytes) :
    (s.terminate os reason).1.Bounded := by
  rw [Session.terminate]
  split
  · exact h
  · exact ⟨h.drained, h.buf⟩

theorem Bounded.terminates (h : s.Bounded) (sys : Sys) (reason : Bytes) :
    (s.terminates sys reason).2.1.Bounded := h.terminate sys.os reason

/-- What is left of the ACK is sent without the parser. -/
theorem SendResult.spares {all : List SendAnswer} {r : Bool × Session × Sys}
    (h : SendResult sys all s r) (hs : s.state ≠ .receiving) :
    r.2.1.parser = s.parser ∧ r.2.1.state ≠ .receiving := by
  induction h with
  | stays s hsends => exact ⟨rfl, hs⟩
  | fails s text hsends => exact ⟨rfl, hs⟩
  | drains s hsends => exact ⟨rfl, by simp [drain]⟩
  | advances s n h ih => exact ih hs

theorem onWritable_spares (s : Session) (sys : Sys) :
    (s.onWritable sys).2.1.parser = s.parser ∧
      ((s.onWritable sys).2.1.state = .receiving → s.state = .receiving) := by
  unfold onWritable
  split
  · exact ⟨rfl, fun h => h⟩
  · rename_i hs
    have hsending : s.state ≠ .receiving := by
      rw [not_not.mp hs]
      simp
    obtain ⟨hparser, hstate⟩ :=
      (sendLoop_result s sys (List.suffix_refl _)).spares hsending
    exact ⟨hparser, fun h => absurd h hstate⟩

theorem Bounded.onWritable (h : s.Bounded) : (s.onWritable sys).2.1.Bounded := by
  obtain ⟨hparser, hstate⟩ := onWritable_spares s sys
  refine ⟨fun hs => ?_, ?_⟩
  · rw [hparser]
    exact h.drained (hstate hs)
  · rw [hparser]
    exact h.buf

theorem Bounded.receive (h : s.Bounded) {bs : Bytes} (hbs : bs.length ≤ READ_BUFFER) (now : ℤ) :
    (s.receive bs now).parser.buf.length ≤ MAX_BUFFERED + READ_BUFFER := by
  rw [Session.receive]
  dsimp only
  split
  · rename_i hs
    have hshort := buffered_le_of_needMore (h.drained hs)
    rw [length_feed_buf]
    omega
  · exact h.buf

/-- What `read` brings is gone through before the next one. -/
theorem Bounded.onReadable (h : s.Bounded) {reads : List ReadAnswer}
    (hreads : ∀ a ∈ reads, a.data.length ≤ READ_BUFFER) :
    (∀ m ∈ s.readMoments sys reads, m.Small) ∧ (s.onReadable sys reads).2.1.Bounded := by
  have hhere : ∀ m ∈ [Moment.read s], m.Small := by
    intro m hm
    rw [List.mem_singleton.mp hm]
    exact h.small_read
  induction reads generalizing s sys with
  | nil => exact ⟨hhere, h⟩
  | cons ans reads ih =>
    have hrest : ∀ a ∈ reads, a.data.length ≤ READ_BUFFER := fun a ha =>
      hreads a (List.mem_cons_of_mem ans ha)
    have hfirst := hreads ans List.mem_cons_self
    have hlater : ∀ {s' : Session} {sys' : Sys}, s'.Bounded →
        (∀ m ∈ Moment.read s :: s'.readMoments sys' reads, m.Small) ∧
          (s'.onReadable sys' reads).2.1.Bounded := by
      intro s' sys' h'
      have hhere' : ∀ m ∈ [Moment.read s'], m.Small := by
        intro m hm
        rw [List.mem_singleton.mp hm]
        exact h'.small_read
      obtain ⟨hmoments, hend⟩ := ih h' hrest hhere'
      exact ⟨List.forall_mem_cons.mpr ⟨h.small_read, hmoments⟩, hend⟩
    cases ans with
    | eagain => exact ⟨hhere, h⟩
    | err text => exact ⟨hhere, h.terminates _ _⟩
    | eintr => exact hlater h
    | bytes bs =>
      cases bs with
      | nil =>
        refine ⟨hhere, ?_⟩
        rw [Session.onReadable]
        split
        · exact h
        split
        · exact h
        · exact h.terminates _ _
      | cons b bs =>
        have hbuf := h.receive hfirst sys.now
        rw [readMoments, Session.onReadable]
        dsimp only
        by_cases hs : (s.receive (b :: bs) sys.now).state = .receiving
        · have hnext : ((s.receive (b :: bs) sys.now).processFrames sys _).2.1.Bounded :=
            processFrames_bounded hs hbuf (Nat.le_refl _)
          have hframes : ∀ m ∈ (s.receive (b :: bs) sys.now).frameMoments sys _, m.Small :=
            frameMoments_small hs hbuf (s.receive (b :: bs) sys.now).parser.buffered
          rw [if_pos hs, if_pos hs]
          rcases hrun : (s.receive (b :: bs) sys.now).processFrames sys
            (s.receive (b :: bs) sys.now).parser.buffered with ⟨_ | _, s', sys'⟩ <;>
            rw [hrun] at hnext <;> dsimp only
          · refine ⟨?_, ?_⟩
            · rw [List.append_nil]
              exact List.forall_mem_cons.mpr ⟨h.small_read, hframes⟩
            · split
              · exact hnext.onWritable
              · exact hnext
          · obtain ⟨hmoments, hend⟩ := hlater hnext
            refine ⟨List.forall_mem_cons.mpr ⟨h.small_read, ?_⟩, hend⟩
            exact List.forall_mem_append.mpr ⟨hframes, (List.forall_mem_cons.mp hmoments).2⟩
        · rw [if_neg hs, if_neg hs]
          exact hlater (.of_answered hs hbuf)

/-- One call: its moments, and the session after it. -/
theorem Bounded.handle (h : s.Bounded) (events : BitVec 32) {reads : List ReadAnswer}
    (hreads : ∀ a ∈ reads, a.data.length ≤ READ_BUFFER) :
    (∀ m ∈ s.moments sys events reads, m.Small) ∧ (s.handle sys events reads).2.1.Bounded := by
  rw [moments, Session.handle]
  split
  · refine ⟨List.forall_mem_nil _, ?_⟩
    split
    · exact h.terminates sys _
    · exact h
  obtain ⟨hmoments, hend⟩ := h.onReadable hreads
  have hread : (if events &&& EPOLLIN ≠ 0 then s.onReadable sys reads
      else (true, s, sys)).2.1.Bounded := by
    split
    · exact hend
    · exact h
  refine ⟨?_, ?_⟩
  · split
    · exact hmoments
    · exact List.forall_mem_nil _
  · split <;> rename_i hr <;> rw [hr] at hread
    · exact hread
    · split
      · exact hread.onWritable
      · exact hread

end Bound

/-! ### After the verdict -/

/-- A session with a verdict, as another one has become without its parser being
touched. -/
structure Untouched (s s' : Session) : Prop where
  state : s'.state ≠ .receiving
  parser : s'.parser = s.parser

section Untouched

variable {s s' : Session} {sys : Sys}

theorem Untouched.trans {s'' : Session} (h : s.Untouched s') (h' : s'.Untouched s'') :
    s.Untouched s'' := ⟨h'.state, h'.parser.trans h.parser⟩

theorem untouched_terminate (hs : s.state ≠ .receiving) (os : Os) (reason : Bytes) :
    s.Untouched (s.terminate os reason).1 := by
  rw [terminate]
  split <;> exact ⟨hs, rfl⟩

theorem untouched_onWritable (hs : s.state ≠ .receiving) : s.Untouched (s.onWritable sys).2.1 := by
  obtain ⟨hparser, hstate⟩ := onWritable_spares s sys
  exact ⟨fun h => hs (hstate h), hparser⟩

/-- What is read with a verdict is thrown away. -/
theorem untouched_onReadable (hs : s.state ≠ .receiving) (reads : List ReadAnswer) :
    (∀ m ∈ s.readMoments sys reads, ∃ t, m = .read t ∧ s.Untouched t) ∧
      s.Untouched (s.onReadable sys reads).2.1 := by
  have hself : s.Untouched s := ⟨hs, rfl⟩
  have hhere : ∀ m ∈ [Moment.read s], ∃ t, m = .read t ∧ s.Untouched t := by
    intro m hm
    exact ⟨s, List.mem_singleton.mp hm, hself⟩
  induction reads generalizing s sys with
  | nil => exact ⟨hhere, hself⟩
  | cons ans reads ih =>
    have hlater : ∀ {s' : Session}, s.Untouched s' →
        (∀ m ∈ Moment.read s :: s'.readMoments sys reads, ∃ t, m = .read t ∧ s.Untouched t) ∧
          s.Untouched (s'.onReadable sys reads).2.1 := by
      intro s' h'
      have hself' : s'.Untouched s' := ⟨h'.state, rfl⟩
      obtain ⟨hmoments, hend⟩ := ih h'.state hself' fun m hm =>
        ⟨s', List.mem_singleton.mp hm, hself'⟩
      refine ⟨List.forall_mem_cons.mpr ⟨⟨s, rfl, hself⟩, fun m hm => ?_⟩, h'.trans hend⟩
      obtain ⟨t, ht, hsame⟩ := hmoments m hm
      exact ⟨t, ht, h'.trans hsame⟩
    cases ans with
    | eagain => exact ⟨hhere, hself⟩
    | err text => exact ⟨hhere, untouched_terminate hs _ _⟩
    | eintr => exact hlater hself
    | bytes bs =>
      cases bs with
      | nil =>
        refine ⟨hhere, ?_⟩
        rw [onReadable]
        split
        · exact hself
        split
        · exact hself
        · exact untouched_terminate hs _ _
      | cons b bs =>
        have hs' : (s.receive (b :: bs) sys.now).state ≠ .receiving := hs
        rw [readMoments, onReadable]
        dsimp only
        rw [if_neg hs', if_neg hs']
        refine hlater ⟨hs', ?_⟩
        rw [receive]
        exact if_neg hs

theorem untouched_handle (hs : s.state ≠ .receiving) (events : BitVec 32)
    (reads : List ReadAnswer) :
    (∀ m ∈ s.moments sys events reads, ∃ t, m = .read t ∧ s.Untouched t) ∧
      s.Untouched (s.handle sys events reads).2.1 := by
  have hself : s.Untouched s := ⟨hs, rfl⟩
  rw [moments, handle]
  split
  · refine ⟨List.forall_mem_nil _, ?_⟩
    split
    · exact untouched_terminate hs _ _
    · exact hself
  obtain ⟨hmoments, hend⟩ := untouched_onReadable hs reads
  have hread : s.Untouched (if events &&& EPOLLIN ≠ 0 then s.onReadable sys reads
      else (true, s, sys)).2.1 := by
    split
    · exact hend
    · exact hself
  refine ⟨?_, ?_⟩
  · split
    · exact hmoments
    · exact List.forall_mem_nil _
  · split <;> rename_i hr <;> rw [hr] at hread
    · exact hread
    · split
      · exact hread.trans (untouched_onWritable hread.state)
      · exact hread

theorem Calls.untouched {os os' : Os} (hrun : Calls (s, os) (s', os')) (hs : s.state ≠ .receiving) :
    s.Untouched s' := by
  suffices H : ∀ b : Session × Os, Calls (s, os) b → s.Untouched b.1 from H _ hrun
  intro b hrun
  induction hrun with
  | refl => exact ⟨hs, rfl⟩
  | tail _ hcall ih =>
    refine ih.trans ?_
    cases hcall with
    | handle s sys events reads => exact (untouched_handle ih.state events reads).2
    | terminate s os reason => exact untouched_terminate ih.state os reason
    | others ho => exact ⟨ih.state, rfl⟩

end Untouched

/-! ### Whole runs -/

/-- A call in which no `read` gives more than the buffer holds. -/
inductive FittingCall : Session × Os → Session × Os → Prop
  | handle (s : Session) (sys : Sys) (events : BitVec 32) (reads : List ReadAnswer)
      (hreads : ∀ a ∈ reads, a.data.length ≤ READ_BUFFER) :
      FittingCall (s, sys.os) ((s.handle sys events reads).2.1, (s.handle sys events reads).2.2.os)
  | terminate (s : Session) (os : Os) (reason : Bytes) : FittingCall (s, os) (s.terminate os reason)
  | others {s : Session} {os os' : Os} (h : s.Others os os') : FittingCall (s, os) (s, os')

theorem bounded_of_calls {a b : Session × Os} (hrun : Relation.ReflTransGen FittingCall a b)
    (h : a.1.Bounded) : b.1.Bounded := by
  induction hrun with
  | refl => exact h
  | tail _ hcall ih =>
    cases hcall with
    | handle s sys events reads hreads => exact (ih.handle events hreads).2
    | terminate s os reason => exact ih.terminate os reason
    | others ho => exact ih

theorem bounded_create (id fd conn : ℕ) (outDir : Bytes) (now : ℤ) :
    (create id fd conn outDir now).Bounded := ⟨fun _ => rfl, Nat.zero_le _⟩

/-- **A peer cannot grow the parse buffer.**  In every state that calls reach, whatever the
peer sends and however it arrives,

* the position is in the buffer, and the buffer holds at most one byte less than the
  largest frame, and one read;
* the same holds at every moment of a call from there, and when the session is about to
  read while receiving, the unread part is shorter than the largest frame; the parser is
  called only while receiving, and where the session is about to read, the rest of
  `onReadable` is `onReadable` from there on;
* from the verdict on, the parser stays as it is, at every moment of a call and in every
  later state. -/
theorem parse_buffer_bounded {id fd conn : ℕ} {outDir : Bytes} {now : ℤ} {os₀ os : Os}
    {s : Session}
    (hrun : Relation.ReflTransGen FittingCall (create id fd conn outDir now, os₀) (s, os)) :
    (s.parser.pos ≤ s.parser.buf.length ∧
      s.parser.buf.length ≤ MAX_BUFFERED + READ_BUFFER) ∧
    (∀ (sys : Sys) (events : BitVec 32) (reads : List ReadAnswer),
      (∀ a ∈ reads, a.data.length ≤ READ_BUFFER) → ∀ m ∈ s.moments sys events reads,
        (m.session.parser.pos ≤ m.session.parser.buf.length ∧
          m.session.parser.buf.length ≤ MAX_BUFFERED + READ_BUFFER) ∧
        (∀ t, m = .read t → t.state = .receiving → t.parser.buffered ≤ MAX_BUFFERED) ∧
        (∀ t, m = .next t → t.state = .receiving) ∧
        ∀ t, m = .read t → ∃ sys' reads', reads' <:+ reads ∧
          s.onReadable sys reads = t.onReadable sys' reads') ∧
    (s.state ≠ .receiving →
      (∀ (sys : Sys) (events : BitVec 32) (reads : List ReadAnswer),
        ∀ m ∈ s.moments sys events reads, ∃ t, m = .read t ∧ t.parser = s.parser) ∧
      ∀ s' os', Calls (s, os) (s', os') → s'.state ≠ .receiving ∧ s'.parser = s.parser) := by
  have h : s.Bounded := bounded_of_calls hrun (bounded_create id fd conn outDir now)
  refine ⟨⟨s.parser.pos_le, h.buf⟩, fun sys events reads hreads m hm => ?_, fun hs => ⟨?_, ?_⟩⟩
  · have hsmall := (h.handle events hreads).1 m hm
    exact ⟨⟨m.session.parser.pos_le, hsmall.buf⟩, hsmall.read, hsmall.next,
      fun t ht => onReadable_of_mem_moments (ht ▸ hm)⟩
  · intro sys events reads m hm
    obtain ⟨t, ht, hsame⟩ := (untouched_handle hs events reads).1 m hm
    exact ⟨t, ht, hsame.parser⟩
  · intro s' os' hcalls
    have hsame := hcalls.untouched hs
    exact ⟨hsame.state, hsame.parser⟩

/-- A session that has read the HELLO of a file of three bytes, and then gets two frames and a
part of a third in one read. -/
theorem parse_buffer_bounded_after_hello :
    ∃ r : Bool × Session × Sys,
      (create 1 4 0 (str "in") 0).handle
          { os := .empty 1
            openAnswer := .fd 5
            writes := [.took 1, .took 1]
            localTime := { year := 124, mon := 0, mday := 1, hour := 0, min := 0, sec := 0 }
            now := 1 } EPOLLIN [.bytes (buildHello 3 (str "a.txt"))] = r ∧
      (r.2.1.moments r.2.2 EPOLLIN
        [.bytes (buildData [1#8] ++ buildData [2#8] ++ (buildData [3#8]).take 9)]).length = 5 ∧
      (r.2.1.moments r.2.2 EPOLLIN
        [.bytes (buildData [1#8] ++ buildData [2#8] ++ (buildData [3#8]).take 9)]).all
        fun m => m.session.parser.buf.length ≤ MAX_BUFFERED + READ_BUFFER := by
  refine ⟨_, rfl, ?_⟩
  generalize hr : handle _ _ _ _ = r
  have hcall := FittingCall.handle (create 1 4 0 (str "in") 0)
    { os := .empty 1
      openAnswer := .fd 5
      writes := [.took 1, .took 1]
      localTime := { year := 124, mon := 0, mday := 1, hour := 0, min := 0, sec := 0 }
      now := 1 } EPOLLIN [.bytes (buildHello 3 (str "a.txt"))] (by decide +kernel)
  rw [hr] at hcall
  refine ⟨by rw [← hr]; decide +kernel, List.all_eq_true.mpr fun m hm => decide_eq_true ?_⟩
  exact ((parse_buffer_bounded (.single hcall)).2.1 _ EPOLLIN _ (by decide +kernel) m hm).1.2

end Session

end Nexus
