/-
Progress of a transfer.

A client that has sent its upload waits for the ACK, and the server waits for whatever epoll
reports. The two never wait for each other: when nothing is on its way between them, the
session is writing its ACK and is registered for that. And there is always a way on: the
server can take in what is left of the upload, one buffer of `onReadable` after another, and
send its answer, and a client that has read that has returned.

* `Transfer.no_deadlock` — they never wait for each other;
* `Transfer.can_be_answered` — the answer can always be given.
-/
import NexusTransmitter.ServerFate
import NexusTransmitter.ServerMemory
import NexusTransmitter.Transfer

open Nexus.Upload Nexus.Client Nexus.FrameParser

namespace Nexus

/-! ### The fold -/

namespace Upload

/-- After an END there is a verdict. -/
theorem answered_of_end (u : Upload) {f : Frame} (htype : f.type = .end) :
    (u.frame f).Answered := by
  cases u with
  | start =>
    simp only [frame, htype]
    trivial
  | body size payload =>
    simp only [frame, htype]
    split
    · trivial
    · split
      · trivial
      · split <;> trivial
  | answered status file => trivial

/-- So there is one on an upload, whatever is in it. -/
theorem answered_of_upload (fileSize : ℕ) (name : Bytes) {ds : List Bytes}
    (hds : ∀ d ∈ ds, d.length ≤ MAX_PAYLOAD) :
    (ofStream (uploadBytes fileSize name ds)).Answered := by
  rw [← List.append_nil (uploadBytes fileSize name ds), ← encodeFrames_uploadFrames,
    ofStream_of_needMore (uploadFrames_valid fileSize name hds) parseAt_nil, uploadFrames,
    List.foldl_append]
  exact answered_of_end _ rfl

end Upload

/-! ### Events of a session -/

namespace Session

variable {s : Session} {sys : Sys}

theorem handle_in (s : Session) (sys : Sys) (reads : List ReadAnswer) :
    s.handle sys EPOLLIN reads = s.onReadable sys reads := by
  rw [handle, if_neg (by decide), if_pos (by decide)]
  rcases s.onReadable sys reads with ⟨_ | _, s₁, sys₁⟩
  · rfl
  · exact if_neg (by decide)

/-- A socket that takes nothing. -/
theorem onWritable_nil (hsends : sys.sends = []) :
    (s.onWritable sys).1 = true ∧ (s.onWritable sys).2.1.hist.received = s.hist.received := by
  rw [onWritable]
  split
  · exact ⟨rfl, rfl⟩
  rw [hsends, sendLoop.eq_def]
  dsimp only
  split <;> exact ⟨rfl, rfl⟩

/-- The session reads these bytes, and its socket takes nothing. -/
theorem handle_read (h : s.Sound sys.os) (hlive : s.terminated = false) (hs : s.state = .receiving)
    (hsends : sys.sends = []) {bs : Bytes} (hbs : bs ≠ []) {r : Bool × Session × Sys}
    (hr : s.handle sys EPOLLIN [.bytes bs] = r) :
    r.1 = true ∧ r.2.1.hist.received = s.hist.received ++ bs := by
  obtain ⟨b, bs, rfl⟩ := List.exists_cons_of_ne_nil hbs
  obtain ⟨s₁, hs₁⟩ : ∃ s₁, s₁ = s.receive (b :: bs) sys.now := ⟨_, rfl⟩
  have hstate : s₁.state = .receiving := by rw [hs₁]; exact hs
  have hin : s₁.Receiving sys.os := by
    rw [hs₁]
    exact ((Step.receive (b :: bs) sys.now hlive).inv h.inv h.wf).1.receiving hlive hs
  have hreceived : s₁.hist.received = s.hist.received ++ b :: bs := by rw [hs₁]; rfl
  have hparsed := processFrames_parsed rfl hin h.wf (Nat.le_refl s₁.parser.buffered)
  have hsteady := processFrames_steady s₁ sys s₁.parser.buffered
  have hsettles := processFrames_settles s₁ sys s₁.parser.buffered
  rw [handle_in, onReadable, ← hs₁, if_pos hstate] at hr
  rw [← hreceived, ← hr]
  clear hr
  generalize s₁.processFrames sys s₁.parser.buffered = q at hparsed hsteady hsettles ⊢
  obtain ⟨_ | _, s₂, sys₂⟩ := q
  · -- a verdict, and not a byte of the ACK goes out
    have hqueued : s₂.state = .sendingAck := hparsed.stop rfl
    obtain ⟨hok, hsame⟩ := onWritable_nil (s := s₂) (hsettles.sends.trans hsends)
    dsimp only
    rw [if_pos hqueued]
    exact ⟨hok, hsame.trans hsteady.received⟩
  · exact ⟨rfl, hsteady.received⟩

/-- The session writes what is left of its ACK, and its socket takes it. -/
theorem handle_write (hs : s.state = .sendingAck) (hlt : s.outPos < s.out.length)
    (hsent : s.hist.sent = s.out.take s.outPos)
    (hsends : sys.sends = [.took (s.out.length - s.outPos)]) {r : Bool × Session × Sys}
    (hr : s.handle sys EPOLLOUT [] = r) :
    r.1 = true ∧ r.2.1.hist.sent = s.out ∧ r.2.1.hist.received = s.hist.received ∧
      r.2.1.hist.acks = s.hist.acks := by
  have hall : s.hist.sent ++ (s.out.drop s.outPos).take (s.out.length - s.outPos) = s.out := by
    have hrest : (s.out.drop s.outPos).length ≤ s.out.length - s.outPos := by
      rw [List.length_drop]
    rw [hsent, List.take_of_length_le hrest, List.take_append_drop]
  have hdone : ¬ (s.advance (s.out.length - s.outPos) sys.now).outPos <
      (s.advance (s.out.length - s.outPos) sys.now).out.length := by
    show ¬ s.outPos + (s.out.length - s.outPos) < s.out.length
    omega
  rw [handle_out, onWritable, if_neg (by rw [hs]; decide), hsends, sendLoop.eq_def] at hr
  dsimp only at hr
  rw [if_pos hlt, min_self, if_pos (by omega), sendLoop.eq_def] at hr
  dsimp only at hr
  rw [if_neg hdone] at hr
  rw [← hr]
  exact ⟨rfl, hall, rfl, rfl⟩

end Session

namespace Server

variable {config : ServerConfig} {l g : ℕ} {os₀ os : Os} {srv : Server} {s : Session}

/-- An event after which the session stays. -/
theorem step_of_handle {sys : Sys} (h : Ready os₀ l g) (hreach : Reach config l g os₀ srv sys.os)
    (hs : s ∈ srv.live) (events : BitVec 32) {reads : List ReadAnswer}
    (hreads : ∀ a ∈ reads, a.data.length ≤ READ_BUFFER) {r : Bool × Session × Sys}
    (hr : s.handle sys events reads = r) (hok : r.1 = true) :
    ∃ y, FittingStep (srv, sys.os) y ∧ r.2.1 ∈ y.1.live := by
  have hlisted := listed h hreach hs
  obtain ⟨e, he, rfl⟩ := hlisted.entry
  have hl : ({ fd := e.session.fd, events := events, reads := reads } : Event).fd ≠
      srv.listenerFd := hlisted.listener
  obtain ⟨s', hends, hat, -⟩ :=
    handleSession_fate sys (reach_good h hreach) hl hlisted.signal he hr
  rw [eventFate, if_pos ⟨hok, .inr rfl⟩] at hends hat
  cases hends
  obtain ⟨e', he', hs'⟩ := hat
  exact ⟨_, .event srv sys _ hlisted.running hl hlisted.signal hreads,
    mem_live.mpr ⟨_, e', he', hs'⟩⟩

end Server

namespace Transfer

variable {path : Bytes} {c : ℕ} {config : ServerConfig} {l g : ℕ} {os₀ : Os} {t : Transfer}
  {s : Session}

/-- The client has sent its upload, and it has not returned. -/
def Awaits (path : Bytes) (t : Transfer) : Prop :=
  t.exit path = none ∧ ∃ ds, ds <+: t.sys.fileReads.map (List.take CHUNK_SIZE) ∧
    (t.client path).sent = uploadBytes t.sys.fileSize (baseName path) ds

/-- A session that has read the upload has its verdict. -/
theorem Awaits.answered (hwait : Awaits path t) (h : Server.Ready os₀ l g)
    (hreach : Reach path c config l g os₀ t) (hs : s ∈ t.srv.all)
    (hall : s.hist.received = (t.client path).sent) :
    ∃ status message, s.Answered t.os status message := by
  obtain ⟨-, ds, hds, hsent⟩ := hwait
  have hlast := (Server.reach_good h hreach.spec.1).disk.lasting s hs
  have hacks := Session.acks_of_ofStream hlast.account hlast.quiet hlast.tracks (by
    rw [hall, hsent]
    exact answered_of_upload _ _ (length_le_of_reads hds))
  exact hlast.account.answered_of_state fun hstate => hacks (hlast.account.silent_iff.mpr hstate)

/-- The client has read a front part of what its session has sent. -/
theorem received_of_session (h : Server.Ready os₀ l g) (hreach : Reach path c config l g os₀ t)
    (hs : s ∈ t.srv.all) (hconn : s.conn = c) : (t.client path).received <+: s.hist.sent := by
  rcases hreach.spec.2.toClient with hnil | ⟨s', hs', hconn', hfront⟩ | ⟨sent, hmem, -⟩
  · rw [hnil]
    exact List.nil_prefix
  · obtain rfl := session_unique h hreach hs hs' (hconn.trans hconn'.symm)
    exact hfront
  · rw [← hconn] at hmem
    exact absurd hmem (not_refused h hreach hs)

/-- **No deadlock.**  In every state that the system reaches in which the client has sent its
upload and has not returned: if its session has read all of that, and the client has read all
that the session has sent, then the session is not waiting for the client. It has some of its
ACK left to send, and is registered for `EPOLLOUT`. -/
theorem no_deadlock (h : Server.Ready os₀ l g) (hreach : Reach path c config l g os₀ t)
    (hwait : Awaits path t) (hs : s ∈ t.srv.live) (hall : s.hist.received = (t.client path).sent)
    (hread : (t.client path).received = s.hist.sent) :
    s.state = .sendingAck ∧ s.outPos < s.out.length ∧ t.os.epoll s.fd = some EPOLLOUT := by
  have hgood := Server.reach_good h hreach.spec.1
  obtain ⟨status, message, hans⟩ :=
    hwait.answered h hreach (List.mem_append_left _ hs) hall
  have hsending : s.state = .sendingAck := by
    rcases hans.state with ⟨hsending, -⟩ | ⟨-, -, hpos⟩
    · exact hsending
    -- else all of the ACK has been sent and read, and the client has returned
    have hsent : s.hist.sent = buildAck status message := by
      rw [hans.sent, hpos, List.take_length, hans.out]
    obtain ⟨ds, -, hout⟩ := sendFile_outcome path t.sys
    have hexit := exit_of_ack hout (hread.trans hsent)
    rw [hwait.1] at hexit
    cases hexit
  have hlisted := Server.listed h hreach.spec.1 hs
  refine ⟨hsending, hlisted.sound.quiet.sending hsending, ?_⟩
  rw [hlisted.epoll, Session.interest, if_pos hsending]

/-! ### A way on -/

/-- A step of the server alone, in which no `read` gives more than the buffer of `onReadable`
holds. -/
inductive ServerStep (path : Bytes) (c : ℕ) : Transfer → Transfer → Prop
  | server (t : Transfer) (srv : Server) (os : Os)
      (hstep : Server.FittingStep (t.srv, t.os) (srv, os))
      (horder : InOrder path c { t with srv := srv, os := os }) :
      ServerStep path c t { t with srv := srv, os := os }

def ServerSteps (path : Bytes) (c : ℕ) : Transfer → Transfer → Prop :=
  Relation.ReflTransGen (ServerStep path c)

theorem ServerStep.step {t' : Transfer} (h : ServerStep path c t t') : Step path c t t' := by
  cases h with
  | server srv os hstep horder => exact .server t srv os hstep.step horder

theorem ServerSteps.steps {t' : Transfer} (h : ServerSteps path c t t') : Steps path c t t' :=
  Relation.ReflTransGen.mono (fun _ _ => ServerStep.step) _ _ h

theorem ServerSteps.sys_eq {t' : Transfer} (h : ServerSteps path c t t') : t'.sys = t.sys := by
  induction h with
  | refl => rfl
  | tail hprev hstep ih =>
    cases hstep with
    | server srv os hstep horder => exact ih

/-- It is about the client alone. -/
theorem Awaits.congr {t' : Transfer} (h : Awaits path t) (hsys : t'.sys = t.sys) :
    Awaits path t' := by
  rw [Awaits, exit, client, hsys]
  exact h

/-- A step of the server that the order of the bytes allows. -/
theorem step_of_server (h : Server.Ready os₀ l g) (hreach : Reach path c config l g os₀ t)
    {y : Server × Os} (hstep : Server.FittingStep (t.srv, t.os) y) {s' : Session}
    (hs' : s' ∈ y.1.live) (hconn : s'.conn = c)
    (hreceived : s'.hist.received <+: (t.client path).sent)
    (hsent : (t.client path).received <+: s'.hist.sent) :
    ServerStep path c t { t with srv := y.1, os := y.2 } := by
  have hmem : s' ∈ y.1.all := List.mem_append_left _ hs'
  refine .server t y.1 y.2 hstep ⟨fun s'' hs'' hconn'' => ?_, .inr (.inl ⟨s', hmem, hconn, hsent⟩)⟩
  have hserver : Server.Reach config l g os₀ y.1 y.2 :=
    Relation.ReflTransGen.tail hreach.spec.1 hstep.step
  have hnodup := (Server.reach_good h hserver).numbers.conns.of_append_left
  obtain rfl := List.inj_on_of_nodup_map hnodup hs'' hmem (hconn''.trans hconn.symm)
  exact hreceived

/-- What the system answers while the server handles one event: what the socket takes, and no
file is opened. -/
def answers (os : Os) (localTime : Tm) (sends : List SendAnswer) : Sys where
  os := os
  sends := sends
  openAnswer := .err []
  localTime := localTime
  now := 0

theorem nonempty_tm : Nonempty Tm :=
  ⟨{ year := 124, mon := 0, mday := 1, hour := 0, min := 0, sec := 0 }⟩

/-- One event, in which the next part of the upload comes in. -/
theorem can_be_read (h : Server.Ready os₀ l g) (hreach : Reach path c config l g os₀ t)
    (hs : s ∈ t.srv.live) (hconn : s.conn = c) (hstate : s.state = .receiving) {bs : Bytes}
    (hbs : bs ≠ []) (hle : bs.length ≤ READ_BUFFER)
    (hfront : s.hist.received ++ bs <+: (t.client path).sent) :
    ∃ t' s', ServerStep path c t t' ∧ s' ∈ t'.srv.live ∧ s'.conn = c ∧
      s'.hist.received = s.hist.received ++ bs := by
  have hmem : s ∈ t.srv.all := List.mem_append_left _ hs
  obtain ⟨-, -, -, -, -, hsound, hlive⟩ := Server.listed h hreach.spec.1 hs
  obtain ⟨localTime⟩ := nonempty_tm
  obtain ⟨r, hr⟩ : ∃ r, s.handle (answers t.os localTime []) EPOLLIN [.bytes bs] = r := ⟨_, rfl⟩
  obtain ⟨hok, hreceived⟩ := Session.handle_read hsound hlive hstate rfl hbs hr
  obtain ⟨y, hstep, hs'⟩ := Server.step_of_handle h hreach.spec.1 hs EPOLLIN
    (fun a ha => by rw [List.mem_singleton.mp ha]; exact hle) hr hok
  have hlast := (Server.reach_good h hreach.spec.1).disk.lasting s hmem
  have hconn' : r.2.1.conn = c :=
    (hsound.handle_turn hlast.tracks hlive hr).1.moves.conn.trans hconn
  have hsilent : s.hist.sent = [] := by
    cases hsound.inv.account with
    | silent hsilent => exact hsilent.sent
    | answered hans => exact absurd hstate hans.state_ne
  have hread := received_of_session h hreach hmem hconn
  rw [hsilent, List.prefix_nil] at hread
  exact ⟨_, r.2.1, step_of_server h hreach hstep hs' hconn' (by rw [hreceived]; exact hfront)
    (by rw [hread]; exact List.nil_prefix), hs', hconn', hreceived⟩

/-- The session can come to its verdict: what is left of the upload comes in, one buffer after
another, until there is one. -/
theorem Awaits.can_be_decided (hwait : Awaits path t) (h : Server.Ready os₀ l g)
    (hreach : Reach path c config l g os₀ t) (hs : s ∈ t.srv.live) (hconn : s.conn = c) :
    ∃ t' s', ServerSteps path c t t' ∧ s' ∈ t'.srv.live ∧ s'.conn = c ∧
      ∃ status message, s'.Answered t'.os status message := by
  obtain ⟨rest, hrest⟩ := hreach.spec.2.toServer s (List.mem_append_left _ hs) hconn
  -- on the bytes that are left
  induction hn : rest.length using Nat.strong_induction_on generalizing t s rest with
  | _ n ih =>
    have hmem : s ∈ t.srv.all := List.mem_append_left _ hs
    by_cases hstate : s.state = .receiving
    swap
    · have hsound := (Server.listed h hreach.spec.1 hs).sound
      exact ⟨t, s, .refl, hs, hconn, hsound.inv.account.answered_of_state hstate⟩
    by_cases hnil : rest = []
    · rw [hnil, List.append_nil] at hrest
      exact ⟨t, s, .refl, hs, hconn, hwait.answered h hreach hmem hrest⟩
    have hpos := List.length_pos_of_ne_nil hnil
    have hne : rest.take READ_BUFFER ≠ [] := by
      rw [ne_eq, List.take_eq_nil_iff]
      exact fun h => h.elim (by decide) hnil
    have hfront : s.hist.received ++ rest.take READ_BUFFER <+: (t.client path).sent := by
      rw [← hrest]
      exact (List.prefix_append_right_inj _).mpr (List.take_prefix _ _)
    obtain ⟨t₁, s₁, hstep, hs₁, hconn₁, hreceived⟩ :=
      can_be_read h hreach hs hconn hstate hne (List.length_take_le _ _) hfront
    have hsteps : ServerSteps path c t t₁ := .single hstep
    have hrest₁ : s₁.hist.received ++ rest.drop READ_BUFFER = (t₁.client path).sent := by
      rw [hreceived, List.append_assoc, List.take_append_drop, hrest, client, client,
        hsteps.sys_eq]
    have hless : (rest.drop READ_BUFFER).length < n := by
      rw [List.length_drop, READ_BUFFER]
      omega
    obtain ⟨t₂, s₂, hsteps₂, hs₂, hconn₂, hans⟩ := ih _ hless (hwait.congr hsteps.sys_eq)
      (hreach.steps hsteps.steps) hs₁ hconn₁ _ hrest₁ rfl
    exact ⟨t₂, s₂, hsteps.trans hsteps₂, hs₂, hconn₂, hans⟩

/-- What is left of the ACK can be sent. -/
theorem can_be_sent (h : Server.Ready os₀ l g) (hreach : Reach path c config l g os₀ t)
    (hs : s ∈ t.srv.live) (hconn : s.conn = c) {status : Status} {message : Bytes}
    (hans : s.Answered t.os status message) :
    ∃ t' s', ServerSteps path c t t' ∧ s' ∈ t'.srv.live ∧ s'.conn = c ∧
      s'.hist.acks = [(status, message)] ∧ s'.hist.sent = buildAck status message := by
  have hmem : s ∈ t.srv.all := List.mem_append_left _ hs
  obtain ⟨-, -, -, -, -, hsound, hlive⟩ := Server.listed h hreach.spec.1 hs
  rcases hans.state with ⟨hsending, -⟩ | ⟨-, -, hpos⟩
  swap
  · refine ⟨t, s, .refl, hs, hconn, hans.acks, ?_⟩
    rw [hans.sent, hpos, List.take_length, hans.out]
  -- one event, in which the socket takes all that is left
  obtain ⟨localTime⟩ := nonempty_tm
  obtain ⟨r, hr⟩ : ∃ r,
      s.handle (answers t.os localTime [.took (s.out.length - s.outPos)]) EPOLLOUT [] = r :=
    ⟨_, rfl⟩
  obtain ⟨hok, hsent, hreceived, hacks⟩ :=
    Session.handle_write hsending (hsound.quiet.sending hsending) hans.sent rfl hr
  obtain ⟨y, hstep, hs'⟩ := Server.step_of_handle h hreach.spec.1 hs EPOLLOUT (by simp) hr hok
  have hlast := (Server.reach_good h hreach.spec.1).disk.lasting s hmem
  have hconn' : r.2.1.conn = c :=
    (hsound.handle_turn hlast.tracks hlive hr).1.moves.conn.trans hconn
  have hfront : s.hist.sent <+: s.out := by
    rw [hans.sent]
    exact List.take_prefix _ _
  have hmove := step_of_server h hreach hstep hs' hconn'
    (by rw [hreceived]; exact hreach.spec.2.toServer s hmem hconn)
    (by rw [hsent]; exact (received_of_session h hreach hmem hconn).trans hfront)
  exact ⟨_, r.2.1, .single hmove, hs', hconn', hacks.trans hans.acks, hsent.trans hans.out⟩

/-- **There is always a way on.**  From every state that the system reaches in which the client
has sent its upload and has not returned, and its session is in the table, the server can come
to a state, without the client and with reads that fit into its buffer, in which the session
has sent all of an ACK. From then on, whatever happens, a client that has read all of that has
returned, 0 if it says Ok, else 6. -/
theorem can_be_answered (h : Server.Ready os₀ l g) (hreach : Reach path c config l g os₀ t)
    (hwait : Awaits path t) (hs : s ∈ t.srv.live) (hconn : s.conn = c) :
    ∃ t' s' status message, ServerSteps path c t t' ∧ t'.sys = t.sys ∧ s' ∈ t'.srv.live ∧
      s'.conn = c ∧ s'.hist.acks = [(status, message)] ∧
      s'.hist.sent = buildAck status message ∧
      ∀ t'', Steps path c t' t'' → (t''.client path).received = buildAck status message →
        t''.exit path = some (if status = .ok then 0 else 6) := by
  obtain ⟨t₁, s₁, hsteps₁, hs₁, hconn₁, status, message, hans⟩ :=
    hwait.can_be_decided h hreach hs hconn
  obtain ⟨t₂, s₂, hsteps₂, hs₂, hconn₂, hacks, hsent⟩ :=
    can_be_sent h (hreach.steps hsteps₁.steps) hs₁ hconn₁ hans
  have hsteps : ServerSteps path c t t₂ := hsteps₁.trans hsteps₂
  refine ⟨t₂, s₂, status, message, hsteps, hsteps.sys_eq, hs₂, hconn₂, hacks, hsent,
    fun t'' _ hreceived => ?_⟩
  obtain ⟨ds, -, hout⟩ := sendFile_outcome path t''.sys
  rw [exit_of_ack hout hreceived]
  by_cases hok : status = .ok
  · rw [if_pos hok, hok, if_pos rfl]
  · rw [if_neg hok, if_neg fun hcode => hok (Status.code_injective hcode)]

/-- A client has sent an empty file. Its session has read that, and its socket takes nothing. -/
theorem waiting_reach :
    ∃ (t : Transfer) (s : Session),
      Reach (str "/tmp/a.txt") 0 { outDir := str "in", idleTimeout := 30, maxSessions := 2 } 3 4
        (Server.bare 1 3 4) t ∧
      Awaits (str "/tmp/a.txt") t ∧ s ∈ t.srv.live ∧ s.conn = 0 ∧
      s.hist.received = (t.client (str "/tmp/a.txt")).sent ∧
      (t.client (str "/tmp/a.txt")).received = s.hist.sent := by
  obtain ⟨sys, hsys⟩ : ∃ sys : ClientSys, sys =
      { tellg := some 0, sends := [.took 1000, .took 1000] } := ⟨_, rfl⟩
  have hevent := Server.Step.event accepted.1
    { os := accepted.2
      openAnswer := .fd 6
      localTime := { year := 124, mon := 0, mday := 1, hour := 0, min := 0, sec := 0 }
      now := 1 }
    { fd := 5, events := EPOLLIN, reads := [.bytes (uploadBytes 0 (str "a.txt") [])] }
    rfl (by decide) (by decide)
  generalize hr : Server.handleSession _ _ _ = r at hevent
  have hreach := accepted_reach (str "/tmp/a.txt") sys (by rw [hsys]) (by rw [hsys])
    (by rw [hsys]) (by rw [hsys])
  have hstep : Step (str "/tmp/a.txt") 0 ⟨sys, accepted.1, accepted.2⟩ ⟨sys, r.1, r.2⟩ := by
    refine .server _ r.1 r.2 hevent ⟨?_, .inl ?_⟩
    · rw [← hr, hsys]
      decide +kernel
    · rw [← hr, hsys]
      decide +kernel
  have hsession : ∃ s ∈ r.1.live, s.conn = 0 ∧
      s.hist.received = (sendFile (str "/tmp/a.txt") sys).2.sent ∧
      (sendFile (str "/tmp/a.txt") sys).2.received = s.hist.sent := by
    rw [← hr, hsys]
    decide +kernel
  have hwait : Awaits (str "/tmp/a.txt") ⟨sys, r.1, r.2⟩ := by
    show (sendFile (str "/tmp/a.txt") sys).1 = none ∧
      ∃ ds, ds <+: sys.fileReads.map (List.take CHUNK_SIZE) ∧
        (sendFile (str "/tmp/a.txt") sys).2.sent =
          uploadBytes sys.fileSize (baseName (str "/tmp/a.txt")) ds
    rw [hsys]
    exact ⟨by decide +kernel, [], List.nil_prefix, by decide +kernel⟩
  obtain ⟨s, hs, hconn, hreceived, hread⟩ := hsession
  exact ⟨_, s, hreach.steps (.single hstep), hwait, hs, hconn, hreceived, hread⟩

theorem no_deadlock_empty_file :
    ∃ (t : Transfer) (s : Session),
      Reach (str "/tmp/a.txt") 0 { outDir := str "in", idleTimeout := 30, maxSessions := 2 } 3 4
        (Server.bare 1 3 4) t ∧
      Awaits (str "/tmp/a.txt") t ∧ s ∈ t.srv.live ∧
      s.state = .sendingAck ∧ t.os.epoll s.fd = some EPOLLOUT := by
  obtain ⟨t, s, hreach, hwait, hs, -, hall, hread⟩ := waiting_reach
  obtain ⟨hstate, -, hepoll⟩ := no_deadlock (Server.ready_bare 1 3 4) hreach hwait hs hall hread
  exact ⟨t, s, hreach, hwait, hs, hstate, hepoll⟩

/-- A client has sent three bytes, and its session has read nothing yet. -/
theorem can_be_answered_unread :
    ∃ (t t' : Transfer) (s s' : Session) (status : Status) (message : Bytes),
      Reach (str "/tmp/a.txt") 0 { outDir := str "in", idleTimeout := 30, maxSessions := 2 } 3 4
        (Server.bare 1 3 4) t ∧
      Awaits (str "/tmp/a.txt") t ∧ s ∈ t.srv.live ∧ s.hist.received = [] ∧
      ServerSteps (str "/tmp/a.txt") 0 t t' ∧ s' ∈ t'.srv.live ∧
      s'.hist.sent = buildAck status message := by
  obtain ⟨sys, hsys⟩ : ∃ sys : ClientSys, sys =
      { tellg := some 3
        fileReads := [[1#8, 2#8, 3#8]]
        sends := [.took 1000, .took 1000, .took 1000] } := ⟨_, rfl⟩
  have hreach := accepted_reach (str "/tmp/a.txt") sys (by rw [hsys]) (by rw [hsys])
    (by rw [hsys]) (by rw [hsys])
  have hsession : ∃ s ∈ accepted.1.live, s.conn = 0 ∧ s.hist.received = [] := by decide +kernel
  have hwait : Awaits (str "/tmp/a.txt") ⟨sys, accepted.1, accepted.2⟩ := by
    show (sendFile (str "/tmp/a.txt") sys).1 = none ∧
      ∃ ds, ds <+: sys.fileReads.map (List.take CHUNK_SIZE) ∧
        (sendFile (str "/tmp/a.txt") sys).2.sent =
          uploadBytes sys.fileSize (baseName (str "/tmp/a.txt")) ds
    rw [hsys]
    exact ⟨by decide +kernel, [[1#8, 2#8, 3#8]], by decide, by decide +kernel⟩
  obtain ⟨s, hs, hconn, hreceived⟩ := hsession
  obtain ⟨t', s', status, message, hrun, -, hs', -, -, hsent, -⟩ :=
    can_be_answered (Server.ready_bare 1 3 4) hreach hwait hs hconn
  exact ⟨_, t', s, s', status, message, hreach, hwait, hs, hreceived, hrun, hs', hsent⟩

end Transfer

end Nexus
