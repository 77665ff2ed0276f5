/-
The outcome lines of a session.

Three functions log how a transfer ended: `succeed`, `fail` and `terminate`. The
flag that keeps `terminate` silent is set by `succeed` alone, so a session that
failed is reported once more when it is closed.

* `Tally` — how many outcome lines there are, said in the flags of the session;
* `replay_lapsed` — there is a second line exactly when some call cut off a session
  that had failed.
-/
import Mathlib.Data.List.Induction
import NexusTransmitter.SessionRun

namespace Nexus

/-- The lines that say how a transfer ended. -/
def LogLine.isOutcome : LogLine → Bool
  | .completed _ => true
  | .failed _ _ => true
  | .closedWithoutData _ => true
  | .aborted _ _ _ => true
  | _ => false

namespace Session

/-- The number of outcome lines logged for the session. -/
def outcomes (s : Session) : ℕ := s.hist.lines.countP LogLine.isOutcome

/-- `fail` was called on the session. -/
def Failed (s : Session) : Prop := s.state ≠ .receiving ∧ s.completed = false

/-- `fail` was called, and `terminate` after it. -/
def Lapsed (s : Session) : Prop := s.Failed ∧ s.terminated = true

/-- How many outcome lines there are: one for a verdict, and one for a `terminate`
that did not find the session completed. -/
structure Tally (s : Session) : Prop where
  count : s.outcomes = (if s.state = .receiving then 0 else 1) +
    if s.terminated = true ∧ s.completed = false then 1 else 0
  completed : s.completed = true → s.state ≠ .receiving

/-- Neither a verdict nor the end yet. -/
structure Open (s : Session) : Prop where
  state : s.state = .receiving
  completed : s.completed = false
  live : s.terminated = false
  outcomes : s.outcomes = 0

/-- A verdict, but not the end. -/
structure Settled (s : Session) : Prop where
  state : s.state ≠ .receiving
  live : s.terminated = false
  outcomes : s.outcomes = 1

section Phases

variable {s : Session}

theorem Open.tally (h : s.Open) : s.Tally where
  count := by simp [h.outcomes, h.state, h.live]
  completed := by
    intro hc
    rw [h.completed] at hc
    cases hc

theorem Settled.tally (h : s.Settled) : s.Tally where
  count := by simp [h.outcomes, h.state, h.live]
  completed := fun _ => h.state

theorem Tally.open (h : s.Tally) (hlive : s.terminated = false) (hs : s.state = .receiving) :
    s.Open where
  state := hs
  completed := by
    by_contra hc
    exact h.completed (by simpa using hc) hs
  live := hlive
  outcomes := by
    rw [h.count, hlive, if_pos hs]
    simp

theorem Tally.settled (h : s.Tally) (hlive : s.terminated = false) (hs : s.state ≠ .receiving) :
    s.Settled where
  state := hs
  live := hlive
  outcomes := by
    rw [h.count, hlive, if_neg hs]
    simp

/-- A session has more than one outcome line exactly when it has lapsed. -/
theorem Tally.outcomes_le_one (h : s.Tally) : s.outcomes ≤ 1 ↔ ¬ s.Lapsed := by
  rw [h.count]
  constructor
  · rintro hle ⟨⟨hstate, hc⟩, ht⟩
    rw [if_neg hstate, if_pos ⟨ht, hc⟩] at hle
    omega
  · intro hnot
    by_cases hstate : s.state = .receiving
    · rw [if_pos hstate]
      split <;> omega
    · rw [if_neg hstate, if_neg fun hc => hnot ⟨⟨hstate, hc.2⟩, hc.1⟩]

end Phases

/-! ### Frames -/

section Frames

variable {s : Session} {sys : Sys}

theorem outcomes_log (line : LogLine) :
    (s.log line).outcomes = s.outcomes + if line.isOutcome = true then 1 else 0 := by
  rw [outcomes, log, List.countP_append, List.countP_singleton]
  rfl

/-- `fail` logs a line. -/
theorem Open.failed (h : s.Open) (status : Status) (message : Bytes) :
    (s.failed sys status message).2.1.Settled where
  state := by simp [Session.failed, fail, queueAck]
  live := h.live
  outcomes := by
    show (({ s with writer := _ } : Session).log (.failed status message)).outcomes = 1
    rw [outcomes_log]
    exact congrArg (· + 1) h.outcomes

/-- A line that says something else. -/
theorem Open.log (h : s.Open) {line : LogLine} (hline : line.isOutcome = false) :
    (s.log line).Open where
  state := h.state
  completed := h.completed
  live := h.live
  outcomes := by
    rw [outcomes_log, h.outcomes, hline]
    rfl

/-- What a call on an open session comes to: it is open again, or it has a
verdict. -/
def Decides (r : Bool × Session × Sys) : Prop :=
  if r.1 = true then r.2.1.Open else r.2.1.Settled

theorem FrameResult.decides {r : Bool × Session × Sys} (hr : s.FrameResult sys r) (h : s.Open) :
    Decides r := by
  have hwriter : ∀ w, ({ s with writer := w } : Session).Open := fun w =>
    ⟨h.state, h.completed, h.live, h.outcomes⟩
  have hstart : ∀ hello w, ({ s.start hello with writer := w } : Session).Open := fun hello w =>
    ⟨h.state, h.completed, h.live, h.outcomes⟩
  cases hr with
  | refused status message => exact h.failed _ _
  | notOpened hello w os err => exact ((hstart hello w).log rfl).failed _ _
  | notStored w os writes err => exact ((hwriter w).log rfl).failed _ _
  | opened hello w os name size => exact (hstart hello w).log rfl
  | stored w os writes data => exact ⟨h.state, h.completed, h.live, h.outcomes⟩
  | saved w os name =>
    -- `succeed` logs a line, too
    refine ⟨by simp [succeed, queueAck], h.live, ?_⟩
    show (({ s with writer := w, completed := true } : Session).log (.completed name)).outcomes = 1
    rw [outcomes_log]
    exact congrArg (· + 1) h.outcomes

theorem Open.onFrame (h : s.Open) (f : Frame) : Decides (s.onFrame sys f) :=
  (onFrame_result s sys f).decides h

theorem Open.processFrames (h : s.Open) (fuel : ℕ) : Decides (s.processFrames sys fuel) := by
  induction fuel generalizing s sys with
  | zero => exact h
  | succ fuel ih =>
    rw [Session.processFrames]
    split
    · exact h
    · exact h.failed _ _
    · rename_i f p _
      have htake : (s.take f p).Open := ⟨h.state, h.completed, h.live, h.outcomes⟩
      have hframe : Decides ((s.take f p).onFrame sys f) := htake.onFrame f
      split <;> rename_i hrun <;> rw [hrun] at hframe
      · exact ih hframe
      · exact hframe

end Frames

/-! ### Events -/

/-- Only the sending of the ACK has moved on, or a line that is no outcome. -/
structure Quieter (s s' : Session) : Prop where
  state : s'.state ≠ .receiving
  completed : s'.completed = s.completed
  terminated : s'.terminated = s.terminated
  outcomes : s'.outcomes = s.outcomes

section Events

variable {s s' : Session} {sys : Sys}

theorem Quieter.refl (hs : s.state ≠ .receiving) : s.Quieter s := ⟨hs, rfl, rfl, rfl⟩

theorem Quieter.settled (h : s.Settled) (hq : s.Quieter s') : s'.Settled :=
  ⟨hq.state, hq.terminated.trans h.live, hq.outcomes.trans h.outcomes⟩

theorem Quieter.sendError (hs : s.state ≠ .receiving) (text : Bytes) :
    s.Quieter (s.log (.ackSendError text)) :=
  ⟨hs, rfl, rfl, outcomes_log _⟩

theorem SendResult.quieter {all : List SendAnswer} {r : Bool × Session × Sys}
    (h : SendResult sys all s r) (hs : s.state ≠ .receiving) : s.Quieter r.2.1 := by
  induction h with
  | stays s hsends => exact .refl hs
  | fails s text hsends => exact .sendError hs text
  | drains s hsends => exact ⟨by simp [drain], rfl, rfl, rfl⟩
  | advances s n h ih =>
    obtain ⟨hstate, hcompleted, hterminated, houtcomes⟩ := ih hs
    exact ⟨hstate, hcompleted, hterminated, houtcomes⟩

theorem onWritable_quieter (hs : s.state ≠ .receiving) : s.Quieter (s.onWritable sys).2.1 := by
  unfold onWritable
  split
  · exact .refl hs
  · exact (sendLoop_result s sys (List.suffix_refl _)).quieter hs

/-- A spurious event: there is no ACK to send. -/
theorem onWritable_receiving (hs : s.state = .receiving) : s.onWritable sys = (true, s, sys) := by
  rw [onWritable, if_pos (by simp [hs])]

theorem outcomes_terminate (hlive : s.terminated = false) (os : Os) (reason : Bytes) :
    (s.terminate os reason).1.outcomes = s.outcomes + if s.completed = false then 1 else 0 := by
  rw [terminate, if_neg (by simp [hlive])]
  show (s.hist.lines ++ s.terminateLines reason).countP LogLine.isOutcome = _
  rw [List.countP_append, terminateLines]
  congr 1
  cases s.completed <;> cases s.helloReceived <;> rfl

theorem terminate_state (os : Os) (reason : Bytes) :
    (s.terminate os reason).1.state = s.state := by
  rw [terminate]
  split <;> rfl

theorem terminate_completed (os : Os) (reason : Bytes) :
    (s.terminate os reason).1.completed = s.completed := by
  rw [terminate]
  split <;> rfl

theorem Tally.terminate (h : s.Tally) (os : Os) (reason : Bytes) :
    (s.terminate os reason).1.Tally := by
  by_cases hlive : s.terminated = false
  · refine ⟨?_, ?_⟩
    · rw [outcomes_terminate hlive, terminate_state, terminate_completed, terminate_terminated,
        h.count, hlive]
      simp
    · rw [terminate_state, terminate_completed]
      exact h.completed
  · rw [Session.terminate, if_pos (by simpa using hlive)]
    exact h

/-- A session that is being terminated lapses if it has failed. -/
theorem lapsed_terminate (os : Os) (reason : Bytes) :
    (s.terminate os reason).1.Lapsed ↔ s.Failed := by
  rw [Lapsed, Failed, terminate_state, terminate_completed, terminate_terminated]
  exact and_iff_left rfl

/-- The reads make `onReadable` call `terminate` on a session that has a verdict:
EOF before its ACK is out, or an error. -/
def cutsReading (state : State) : List ReadAnswer → Prop
  | [] => False
  | .bytes [] :: _ => state = .sendingAck
  | .bytes (_ :: _) :: reads => cutsReading state reads
  | .eagain :: _ => False
  | .eintr :: reads => cutsReading state reads
  | .err _ :: _ => True

/-- The event makes `handle` call `terminate` on such a session: the connection
broke before its ACK was out, or reading does. -/
def cuts (state : State) (events : BitVec 32) (reads : List ReadAnswer) : Prop :=
  if events &&& (EPOLLHUP ||| EPOLLERR) ≠ 0 ∧ events &&& EPOLLIN = 0 then state ≠ .draining
  else events &&& EPOLLIN ≠ 0 ∧ cutsReading state reads

/-- What an event comes to. -/
structure Logged (s s' : Session) (cut : Prop) : Prop where
  tally : s'.Tally
  lapsed : s'.Lapsed ↔ s.Failed ∧ cut

theorem Open.not_failed (h : s.Open) : ¬ s.Failed := fun hf => hf.1 h.state

/-- A session that ends without a verdict, or gets one, does not lapse. -/
theorem Open.logged (h : s.Open) {cut : Prop} (ht : s'.Tally)
    (hs : s'.state = .receiving ∨ s'.terminated = false) : s.Logged s' cut where
  tally := ht
  lapsed := by
    constructor
    · rintro ⟨⟨hstate, -⟩, hterm⟩
      rcases hs with hs | hs
      · exact absurd hs hstate
      · rw [hs] at hterm
        cases hterm
    · exact fun hf => absurd hf.1 h.not_failed

theorem Settled.logged_quieter (h : s.Settled) (hq : s.Quieter s') {cut : Prop} (hcut : ¬ cut) :
    s.Logged s' cut where
  tally := (hq.settled h).tally
  lapsed := by
    refine iff_of_false (fun hl => ?_) fun hf => hcut hf.2
    have := hl.2
    rw [(hq.settled h).live] at this
    cases this

theorem Settled.logged_terminate (h : s.Settled) (os : Os) (reason : Bytes) {cut : Prop}
    (hcut : s.Failed → cut) : s.Logged (s.terminate os reason).1 cut where
  tally := h.tally.terminate os reason
  lapsed := by
    rw [lapsed_terminate]
    exact ⟨fun hf => ⟨hf, hcut hf⟩, And.left⟩

/-- What a call on an open session comes to when it may also end the session. -/
structure Ends (r : Bool × Session × Sys) : Prop where
  tally : r.2.1.Tally
  early : r.2.1.state = .receiving ∨ r.2.1.terminated = false
  live : r.1 = true → r.2.1.terminated = false

theorem Open.ends (h : s.Open) (b : Bool) : Ends (b, s, sys) :=
  ⟨h.tally, .inl h.state, fun _ => h.live⟩

theorem Settled.ends (h : s.Settled) (b : Bool) : Ends (b, s, sys) :=
  ⟨h.tally, .inr h.live, fun _ => h.live⟩

theorem Open.terminates (h : s.Open) (reason : Bytes) : Ends (s.terminates sys reason) :=
  ⟨h.tally.terminate _ _, .inl ((terminate_state _ _).trans h.state), nofun⟩

theorem Settled.onWritable (h : s.Settled) : Ends (s.onWritable sys) :=
  ((onWritable_quieter h.state).settled h).ends _

theorem Open.onReadable (h : s.Open) (reads : List ReadAnswer) : Ends (s.onReadable sys reads) := by
  induction reads generalizing s sys with
  | nil => exact h.ends true
  | cons ans reads ih =>
    match ans with
    | .eagain => exact h.ends true
    | .eintr => exact ih h
    | .err text => exact h.terminates _
    | .bytes [] =>
      rw [Session.onReadable, if_neg (by simp [h.state]), if_neg (by simp [h.completed])]
      exact h.terminates _
    | .bytes (b :: bs) =>
      have hr : (s.receive (b :: bs) sys.now).Open := ⟨h.state, h.completed, h.live, h.outcomes⟩
      have hframes : Decides ((s.receive (b :: bs) sys.now).processFrames sys
          (s.receive (b :: bs) sys.now).parser.buffered) := hr.processFrames _
      rw [Session.onReadable, if_pos hr.state]
      split <;> rename_i hrun <;> rw [hrun] at hframes
      · exact ih hframes
      · split
        · exact Settled.onWritable hframes
        · exact Settled.ends hframes false

/-- An event of an open session. -/
theorem Open.handle (h : s.Open) (events : BitVec 32) (reads : List ReadAnswer) :
    Ends (s.handle sys events reads) := by
  rw [Session.handle]
  split
  · rw [if_pos (by simp [h.state])]
    exact h.terminates _
  have hread :
      Ends (if events &&& EPOLLIN ≠ 0 then s.onReadable sys reads else (true, s, sys)) := by
    split
    · exact h.onReadable reads
    · exact h.ends true
  split <;> rename_i hr <;> rw [hr] at hread
  · exact hread
  · rename_i s' sys'
    split
    · have hlive : s'.terminated = false := hread.live rfl
      by_cases hs : s'.state = .receiving
      · rw [onWritable_receiving hs]
        exact hread
      · exact (hread.tally.settled hlive hs).onWritable
    · exact hread

/-- Reading for a session that has a verdict. -/
theorem Settled.onReadable (h : s.Settled) (reads : List ReadAnswer) :
    s.Logged (s.onReadable sys reads).2.1 (cutsReading s.state reads) ∧
      ((s.onReadable sys reads).1 = true → s.Quieter (s.onReadable sys reads).2.1 ∧
        ¬ cutsReading s.state reads) := by
  have hstay : ∀ {cut : Prop}, ¬ cut → s.Logged s cut := fun hcut =>
    h.logged_quieter (.refl h.state) hcut
  have hfalse : ∀ {p : Prop}, false = true → p := fun hc => absurd hc Bool.false_ne_true
  induction reads generalizing s sys with
  | nil => exact ⟨hstay not_false, fun _ => ⟨.refl h.state, not_false⟩⟩
  | cons ans reads ih =>
    match ans with
    | .eagain => exact ⟨hstay not_false, fun _ => ⟨.refl h.state, not_false⟩⟩
    | .eintr => exact ih h hstay
    | .err text => exact ⟨h.logged_terminate _ _ fun _ => trivial, hfalse⟩
    | .bytes [] =>
      rw [Session.onReadable]
      split
      · rename_i hs
        exact ⟨hstay (by simp [cutsReading, hs]), hfalse⟩
      split
      · rename_i hs hc
        refine ⟨⟨h.tally, iff_of_false (fun hl => ?_) fun hf => ?_⟩, hfalse⟩
        · rw [Lapsed, h.live] at hl
          exact absurd hl.2 (by simp)
        · rw [Failed, hc] at hf
          exact absurd hf.1.2 (by simp)
      · rename_i hs _
        have hsend : s.state = .sendingAck := by
          have := h.state
          cases hstate : s.state <;> simp_all
        exact ⟨h.logged_terminate _ _ fun _ => hsend, hfalse⟩
    | .bytes (b :: bs) =>
      have hr : (s.receive (b :: bs) sys.now).Settled := ⟨h.state, h.live, h.outcomes⟩
      rw [Session.onReadable, if_neg hr.state]
      obtain ⟨⟨htally, hlapsed⟩, hgo⟩ := @ih _ sys hr fun hcut =>
        hr.logged_quieter (.refl hr.state) hcut
      refine ⟨⟨htally, hlapsed⟩, fun ht => ?_⟩
      obtain ⟨⟨hstate, hc, hterm, ho⟩, hcut⟩ := hgo ht
      exact ⟨⟨hstate, hc, hterm, ho⟩, hcut⟩

/-- An event of a session that has a verdict. -/
theorem Settled.handle (h : s.Settled) (events : BitVec 32) (reads : List ReadAnswer) :
    s.Logged (s.handle sys events reads).2.1 (cuts s.state events reads) := by
  rw [Session.handle, cuts]
  split
  · split
    · rename_i hs
      exact h.logged_terminate _ _ fun _ => hs
    · rename_i hs
      exact h.logged_quieter (.refl h.state) hs
  have hread : s.Logged (if events &&& EPOLLIN ≠ 0 then s.onReadable sys reads
        else (true, s, sys)).2.1 (events &&& EPOLLIN ≠ 0 ∧ cutsReading s.state reads) ∧
      ((if events &&& EPOLLIN ≠ 0 then s.onReadable sys reads else (true, s, sys)).1 = true →
        s.Quieter (if events &&& EPOLLIN ≠ 0 then s.onReadable sys reads
          else (true, s, sys)).2.1 ∧ ¬ (events &&& EPOLLIN ≠ 0 ∧ cutsReading s.state reads)) := by
    split
    · rename_i hin
      obtain ⟨⟨htally, hlapsed⟩, hgo⟩ := @Settled.onReadable s sys h reads
      refine ⟨⟨htally, ?_⟩, fun ht => ⟨(hgo ht).1, fun hcut => (hgo ht).2 hcut.2⟩⟩
      rw [hlapsed, and_iff_right hin]
    · rename_i hin
      have hcut : ¬ (events &&& EPOLLIN ≠ 0 ∧ cutsReading s.state reads) := fun hc => hin hc.1
      exact ⟨h.logged_quieter (.refl h.state) hcut, fun _ => ⟨.refl h.state, hcut⟩⟩
  split <;> rename_i hr <;> rw [hr] at hread
  · exact hread.1
  · rename_i s' sys'
    split
    · obtain ⟨hq, hcut⟩ := hread.2 rfl
      have hw := @onWritable_quieter s' sys' hq.state
      exact h.logged_quieter ⟨hw.state, hw.completed.trans hq.completed,
        hw.terminated.trans hq.terminated, hw.outcomes.trans hq.outcomes⟩ hcut
    · exact hread.1

end Events

/-! ### The life of a session -/

/-- What the server calls on a session. -/
inductive Request
  | handle (sys : Sys) (events : BitVec 32) (reads : List ReadAnswer)
  | terminate (os : Os) (reason : Bytes)
  | destroy (os : Os)

/-- The session after the call. -/
def Request.serve (s : Session) : Request → Session
  | .handle sys events reads => (s.handle sys events reads).2.1
  | .terminate os reason => (s.terminate os reason).1
  | .destroy os => (s.destroy os).1

/-- Only a session that was not terminated gets events. -/
def Request.Allowed (s : Session) : Request → Prop
  | .handle _ _ _ => s.terminated = false
  | _ => True

/-- The system during the call is such as `ok` says. -/
def Request.Meets (ok : Sys → Prop) : Request → Prop
  | .handle sys _ _ => ok sys
  | _ => True

/-- The call does not cut off a session that has failed. -/
def Request.Spares (s : Session) : Request → Prop
  | .handle _ events reads => s.Failed → ¬ cuts s.state events reads
  | .terminate _ _ => ¬ s.Failed
  | .destroy _ => True

/-- The session after some calls. -/
def replay (s : Session) (rs : List Request) : Session := rs.foldl Request.serve s

/-- `s` is what the calls `rs` make of the new session `s₀`. -/
structure Life (s₀ : Session) (rs : List Request) (s : Session) : Prop where
  created : ∃ id fd conn outDir now, s₀ = create id fd conn outDir now
  allowed : ∀ pre r post, rs = pre ++ r :: post → r.Allowed (replay s₀ pre)
  result : s = replay s₀ rs

section Life

variable {s₀ s : Session} {rs : List Request} {r : Request}

theorem replay_concat (s₀ : Session) (rs : List Request) (r : Request) :
    replay s₀ (rs ++ [r]) = r.serve (replay s₀ rs) := by
  rw [replay, List.foldl_concat]
  rfl

theorem Life.create (id fd conn : ℕ) (outDir : Bytes) (now : ℤ) :
    Life (create id fd conn outDir now) [] (create id fd conn outDir now) :=
  ⟨⟨id, fd, conn, outDir, now, rfl⟩, fun pre r post h => by simp at h, rfl⟩

/-- A property of all the calls of a longer run. -/
theorem forall_split_concat {p : Session → Request → Prop} :
    (∀ pre r' post, rs ++ [r] = pre ++ r' :: post → p (replay s₀ pre) r') ↔
      (∀ pre r' post, rs = pre ++ r' :: post → p (replay s₀ pre) r') ∧ p (replay s₀ rs) r := by
  constructor
  · intro h
    refine ⟨fun pre r' post heq => h pre r' (post ++ [r]) (by rw [heq]; simp), h rs r [] rfl⟩
  · rintro ⟨h, hr⟩ pre r' post heq
    cases post using List.reverseRecOn with
    | nil =>
      obtain ⟨rfl, hlast⟩ := List.append_inj' heq rfl
      cases hlast
      exact hr
    | append_singleton post x =>
      rw [← List.cons_append, ← List.append_assoc] at heq
      exact h pre r' post (List.append_inj_left' heq rfl)

theorem Life.call (h : Life s₀ rs s) (hr : r.Allowed s) : Life s₀ (rs ++ [r]) (r.serve s) where
  created := h.created
  allowed := forall_split_concat.mpr ⟨h.allowed, by rw [← h.result]; exact hr⟩
  result := by rw [replay_concat, ← h.result]

/-- **The step lemma**: a call makes a session lapse exactly when it does not spare
it. -/
theorem Tally.serve (h : s.Tally) (hr : r.Allowed s) :
    (r.serve s).Tally ∧ ((r.serve s).Lapsed ↔ s.Lapsed ∨ ¬ r.Spares s) := by
  cases r with
  | handle sys events reads =>
    have hlive : s.terminated = false := hr
    have hnot : ¬ s.Lapsed := by
      rintro ⟨-, hterm⟩
      rw [hlive] at hterm
      cases hterm
    have hlogged : s.Logged (s.handle sys events reads).2.1 (cuts s.state events reads) := by
      by_cases hs : s.state = .receiving
      · have hends := @Open.handle s sys (h.open hlive hs) events reads
        exact (h.open hlive hs).logged hends.tally hends.early
      · exact (h.settled hlive hs).handle events reads
    refine ⟨hlogged.tally, hlogged.lapsed.trans ?_⟩
    rw [or_iff_right hnot, Request.Spares, Classical.not_imp, not_not]
  | terminate os reason =>
    refine ⟨h.terminate os reason, (lapsed_terminate os reason).trans ?_⟩
    rw [Request.Spares, not_not]
    exact ⟨.inr, fun hl => hl.elim And.left fun hf => hf⟩
  | destroy os =>
    refine ⟨⟨h.count, h.completed⟩, ?_⟩
    rw [Request.Spares, not_true, or_false]
    exact Iff.rfl

/-- **The run lemma**: a session has lapsed exactly when some call of its life did
not spare it. -/
theorem replay_lapsed (h : Life s₀ rs s) :
    s.Tally ∧
      (¬ s.Lapsed ↔ ∀ pre r post, rs = pre ++ r :: post → r.Spares (replay s₀ pre)) := by
  obtain ⟨hcreated, hallowed, rfl⟩ := h
  induction rs using List.reverseRecOn with
  | nil =>
    obtain ⟨id, fd, conn, outDir, now, rfl⟩ := hcreated
    exact ⟨⟨rfl, nofun⟩, iff_of_true (fun hl => hl.1.1 rfl) fun pre r post heq => by simp at heq⟩
  | append_singleton rs r ih =>
    rw [forall_split_concat] at hallowed
    obtain ⟨htally, hlapsed⟩ := ih hallowed.1
    obtain ⟨htally', hlapsed'⟩ := htally.serve hallowed.2
    rw [replay_concat]
    refine ⟨htally', ?_⟩
    rw [hlapsed', not_or, hlapsed, not_not, forall_split_concat]

end Life

end Session

end Nexus
