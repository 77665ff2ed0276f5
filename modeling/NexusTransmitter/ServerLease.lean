/-
Idle connections lose their sessions.

A place in the table of the server is a lease: the stamp is `lastActivity`, the work is that
bytes come in or go out, and `sweepIdle` is the sweep. What goes out is one ACK, so in the
end it is the client alone who keeps a session in the table, and only by sending without end.

* `Session.handle_renews` — an event renews the lease of its session;
* `Server.Step.kept` — so does every step of the server, or the session is gone;
* `Server.idle_gone` — on an endless run a connection loses its session or sends without end.
-/
import NexusTransmitter.Lib.Lease
import NexusTransmitter.ServerFate
import NexusTransmitter.ServerOutcome

namespace Nexus

namespace Session

/-- The bytes that have come in and gone out, and the states there have been. -/
def moved (s : Session) : ℕ := s.hist.received.length + s.hist.sent.length + s.hist.states.length

/-- The session goes on with its lease. -/
abbrev Renews (s s' : Session) : Prop := Lease.Renews moved lastActivity s s'

variable {s s' : Session} {sys : Sys}

/-! ### Events -/

/-- Something else changes. -/
theorem same_renews (hreceived : s'.hist.received = s.hist.received)
    (hsent : s'.hist.sent = s.hist.sent) (hstates : s'.hist.states = s.hist.states)
    (hstamp : s'.lastActivity = s.lastActivity) : s.Renews s' := by
  have heq : s'.moved = s.moved := by rw [moved, hreceived, hsent, hstates, moved]
  exact .of_stamp heq.ge hstamp

/-- A new state. -/
theorem enters_renews {st : State} (hreceived : s'.hist.received = s.hist.received)
    (hsent : s'.hist.sent = s.hist.sent) (hstates : s'.hist.states = s.hist.states ++ [st]) :
    s.Renews s' := by
  refine .of_lt ?_
  rw [moved, moved, hreceived, hsent, hstates, List.length_append]
  exact Nat.lt_succ_self _

theorem FrameResult.renews {r : Bool × Session × Sys} (h : s.FrameResult sys r) :
    s.Renews r.2.1 := by
  cases h with
  | refused status message => exact enters_renews rfl rfl rfl
  | notOpened hello w os err => exact enters_renews rfl rfl rfl
  | notStored w os writes err => exact enters_renews rfl rfl rfl
  | opened hello w os name size => exact same_renews rfl rfl rfl rfl
  | stored w os writes data => exact same_renews rfl rfl rfl rfl
  | saved w os name => exact enters_renews rfl rfl rfl

theorem processFrames_renews (s : Session) (sys : Sys) (fuel : ℕ) :
    s.Renews (s.processFrames sys fuel).2.1 := by
  induction fuel generalizing s sys with
  | zero => exact .refl s
  | succ fuel ih =>
    rw [processFrames]
    split
    · exact .refl s
    · exact enters_renews rfl rfl rfl
    · rename_i f p _
      have htake : s.Renews (s.take f p) := same_renews rfl rfl rfl rfl
      have hframe := htake.trans (onFrame_result (s.take f p) sys f).renews
      split <;> rename_i hrun <;> rw [hrun] at hframe
      · exact hframe.trans (ih _ _)
      · exact hframe

/-- Some of the ACK goes out. -/
theorem advance_renews {n : ℕ} (hn : 0 < n) (hout : n ≤ s.out.length - s.outPos) (now : ℤ) :
    s.Renews (s.advance n now) := by
  refine .of_lt ?_
  show _ < s.hist.received.length + (s.hist.sent ++ (s.out.drop s.outPos).take n).length +
    s.hist.states.length
  rw [moved, List.length_append, List.length_take, List.length_drop, min_eq_left hout]
  omega

theorem sendLoop_renews (s : Session) (sys : Sys) (sends : List SendAnswer) :
    s.Renews (s.sendLoop sys sends).2.1 := by
  induction sends generalizing s with
  | nil =>
    rw [sendLoop.eq_def]
    dsimp only
    split
    · exact .refl s
    · exact enters_renews rfl rfl rfl
  | cons ans sends ih =>
    rw [sendLoop.eq_def]
    dsimp only
    split
    · cases ans with
      | took n =>
        dsimp only
        split
        · rename_i hn
          exact (advance_renews hn (min_le_right _ _) _).trans (ih _)
        · exact same_renews rfl rfl rfl rfl
      | eagain => exact .refl s
      | eintr => exact ih s
      | err text => exact same_renews rfl rfl rfl rfl
    · exact enters_renews rfl rfl rfl

theorem onWritable_renews (s : Session) (sys : Sys) : s.Renews (s.onWritable sys).2.1 := by
  rw [onWritable]
  split
  · exact .refl s
  · exact sendLoop_renews s sys _

theorem terminate_renews (s : Session) (os : Os) (reason : Bytes) :
    s.Renews (s.terminate os reason).1 := by
  rw [terminate]
  split
  · exact .refl s
  · exact same_renews rfl rfl rfl rfl

theorem receive_renews (s : Session) (b : Byte) (bs : Bytes) (now : ℤ) :
    s.Renews (s.receive (b :: bs) now) := by
  refine .of_lt ?_
  show _ < (s.hist.received ++ b :: bs).length + s.hist.sent.length + s.hist.states.length
  rw [moved, List.length_append, List.length_cons]
  omega

theorem onReadable_renews (s : Session) (sys : Sys) (reads : List ReadAnswer) :
    s.Renews (s.onReadable sys reads).2.1 := by
  induction reads generalizing s sys with
  | nil => exact .refl s
  | cons ans reads ih =>
    match ans with
    | .eagain => exact .refl s
    | .eintr => exact ih s sys
    | .err text => exact terminate_renews s _ _
    | .bytes [] =>
      rw [onReadable]
      split
      · exact .refl s
      split
      · exact .refl s
      · exact terminate_renews s _ _
    | .bytes (b :: bs) =>
      have hr := receive_renews s b bs sys.now
      rw [onReadable]
      split
      · have hframes := hr.trans
          (processFrames_renews _ sys (s.receive (b :: bs) sys.now).parser.buffered)
        split <;> rename_i hrun <;> rw [hrun] at hframes
        · exact hframes.trans (ih _ _)
        · split
          · exact hframes.trans (onWritable_renews _ _)
          · exact hframes
      · exact hr.trans (ih _ sys)

/-- **An event**: without bytes in or out the session gets no new stamp. -/
theorem handle_renews (s : Session) (sys : Sys) (events : BitVec 32) (reads : List ReadAnswer) :
    s.Renews (s.handle sys events reads).2.1 := by
  rw [handle]
  split
  · split
    · exact terminate_renews s _ _
    · exact .refl s
  have hread : s.Renews (if events &&& EPOLLIN ≠ 0 then s.onReadable sys reads
      else (true, s, sys)).2.1 := by
    split
    · exact onReadable_renews s sys reads
    · exact .refl s
  split <;> rename_i hr <;> rw [hr] at hread
  · exact hread
  · split
    · exact hread.trans (onWritable_renews _ _)
    · exact hread

/-- What goes out is one ACK. -/
theorem Lasting.moved_le {os : Os} (h : s.Lasting os) :
    s.moved ≤ s.hist.received.length + (HEADER_SIZE + MAX_PAYLOAD + TRAILER_SIZE) + 3 := by
  have hstates := h.account.states.1.length_le
  have hsent : s.hist.sent.length ≤ HEADER_SIZE + MAX_PAYLOAD + TRAILER_SIZE := by
    cases h.account with
    | silent h => simp [h.sent]
    | @answered status message hans =>
      have hlen := (hans.sent_iff h.quiet).1.length_le
      rw [buildAck, length_buildFrame] at hlen
      have hpayload := length_ackPayload_le status message
      omega
  rw [moved]
  exact Nat.add_le_add (Nat.add_le_add_left hsent _) hstates

end Session

open Session

namespace Server

section Lease

variable {os₀ os : Os} {b : List Session × Os} {srv : Server} {s s' : Session}

theorem At.of_live (h : Good os₀ b srv os none) (hs : s ∈ srv.live) : At srv s true := by
  obtain ⟨fd, e, he, rfl⟩ := mem_live.mp hs
  rw [At, (h.table.entry fd e he).1]
  exact ⟨e, he, rfl⟩

/-- The session of a connection goes on with its lease, or is gone. -/
def Kept (srv : Server) (s : Session) : Prop :=
  (∃ s' ∈ srv.live, s'.conn = s.conn ∧ s.Renews s') ∨ ∃ s' ∈ srv.gone, s'.conn = s.conn

theorem At.kept {p : Bool} (h : At srv s' p) (hconn : s'.conn = s.conn) (hr : s.Renews s') :
    srv.Kept s := by
  cases p with
  | false => exact .inr ⟨s', h, hconn⟩
  | true =>
    obtain ⟨e, he, rfl⟩ := h
    exact .inl ⟨_, mem_live.mpr ⟨_, e, he, rfl⟩, hconn, hr⟩

theorem Ends.renews {k : Fate} (h : Ends k s s') : s.Renews s' := by
  cases h with
  | stays => exact .refl s
  | closed _ os os' reason =>
    exact (terminate_renews s os reason).trans (same_renews rfl rfl rfl rfl)
  | erased _ os => exact same_renews rfl rfl rfl rfl

/-- **The step lemma.** -/
theorem Step.kept {x y : Server × Os} (hstep : Step x y) (h : Good os₀ b x.1 x.2 none)
    (hs : s ∈ x.1.live) : y.1.Kept s := by
  have hat := At.of_live h hs
  cases hstep with
  | dispatch srv sys ev hend =>
    rw [Server.dispatch]
    split
    · exact (hat.acceptConnections sys.os ev.incoming).kept rfl (.refl s)
    split
    · have hstop : At { srv with running := false } s true := hat
      exact hstop.kept rfl (.refl s)
    rename_i hl hg
    by_cases hfd : s.fd = ev.fd
    · obtain ⟨e, he, rfl⟩ := hat
      rw [hfd] at he
      obtain ⟨s', hends, hat', -⟩ := handleSession_fate sys h hl hg he rfl
      obtain ⟨hturn, -⟩ := (h.sound he).handle_turn (h.lasting he).tracks
        (h.table.synced ev.fd e (by simp) he).2 rfl
      exact hat'.kept (hends.keeps.conn.trans hturn.moves.conn)
        ((handle_renews _ sys ev.events ev.reads).trans hends.renews)
    · exact (hat.handleSession sys fun _ => hfd).kept rfl (.refl s)
  | sweepIdle srv os now order hend horder =>
    obtain ⟨s', hends, hat'⟩ := sweepIdle_fate hat os now horder
    exact hat'.kept hends.keeps.conn hends.renews
  | shutdown srv os order hend horder =>
    obtain ⟨s', hends, hat'⟩ := shutdown_fate hat os horder
    exact hat'.kept hends.keeps.conn hends.renews

theorem Step.gone {x y : Server × Os} (hstep : Step x y) : x.1.gone <:+ y.1.gone := by
  cases hstep with
  | dispatch srv sys ev hend =>
    rw [Server.dispatch]
    split
    · exact acceptConnections_gone _ _ _
    split
    · exact List.suffix_refl _
    · exact handleSession_gone _ _ _
  | sweepIdle srv os now order hend horder => exact closeSessions_gone _ _ _ _
  | shutdown srv os order hend horder => exact clear_gone _ _ _

/-- A sweep that comes late enough. -/
theorem sweepIdle_gone (hs : At srv s true) {now : ℤ} {order : List ℕ}
    (horder : order.Perm srv.sessions.keys)
    (hlate : s.lastActivity + (srv.config.idleTimeout * 10 ^ 9).bmod (2 ^ 64) < now) :
    ∃ s' ∈ (srv.sweepIdle os now order).1.gone, s'.conn = s.conn := by
  obtain ⟨s', hends, hat⟩ := sweepIdle_fate hs os now horder
  have hexpired : s.expired now srv.config.idleTimeout = true := by
    rw [Session.expired, decide_eq_true_iff]
    omega
  rw [if_pos hexpired] at hends hat
  exact ⟨s', hat, hends.keeps.conn⟩

end Lease

/-! ### Endless runs -/

/-- The server goes on without end, and again and again there is a sweep as late as one
likes. -/
structure Endless (config : ServerConfig) (l g : ℕ) (os₀ : Os) (run : ℕ → Server × Os) :
    Prop where
  start : run 0 = (create config l g, registered os₀ l g)
  step : ∀ n, Step (run n) (run (n + 1))
  sweeps : ∀ N T, ∃ n ≥ N, ∃ now order, T < now ∧ order.Perm (run n).1.sessions.keys ∧
    run (n + 1) = (run n).1.sweepIdle (run n).2 now order

/-- The session of a connection is in the table. -/
def Holds (c : ℕ) (x : Server × Os) (s : Session) : Prop := s ∈ x.1.live ∧ s.conn = c

/-- It is gone. -/
def Lost (c : ℕ) (x : Server × Os) : Prop := ∃ s ∈ x.1.gone, s.conn = c

section Endless

variable {os₀ : Os} {config : ServerConfig} {l g : ℕ} {run : ℕ → Server × Os}

theorem Endless.reach (h : Endless config l g os₀ run) (n : ℕ) :
    Reach config l g os₀ (run n).1 (run n).2 := by
  induction n with
  | zero => rw [h.start]; exact .refl
  | succ n ih => exact ih.tail (h.step n)

/-- **Idle connections lose their sessions**: whatever else happens on an endless run, and
whatever the client has sent so far, its session is gone in the end, and with it the place
in the table, unless the client goes on sending without end. -/
theorem idle_gone (h : Ready os₀ l g) (hrun : Endless config l g os₀ run) {m : ℕ} {s : Session}
    (hs : s ∈ (run m).1.live) :
    (∃ N, ∀ n ≥ N, ∃ s' ∈ (run n).1.gone, s'.conn = s.conn) ∨
      ∀ k, ∃ n, ∃ s' ∈ (run n).1.live, s'.conn = s.conn ∧ k < s'.hist.received.length := by
  have hgood := fun n => reach_good h (hrun.reach n)
  have hnext : ∀ n t, Holds s.conn (run n) t →
      (∃ t', Holds s.conn (run (n + 1)) t' ∧ t.Renews t') ∨ Lost s.conn (run (n + 1)) := by
    rintro n t ⟨ht, hconn⟩
    rcases (hrun.step n).kept (hgood n) ht with ⟨t', ht', hc, hr⟩ | ⟨t', ht', hc⟩
    · exact .inl ⟨t', ⟨ht', hc.trans hconn⟩, hr⟩
    · exact .inr ⟨t', ht', hc.trans hconn⟩
  have hlost : ∀ n, Lost s.conn (run n) → Lost s.conn (run (n + 1)) :=
    fun n ⟨t, ht, hc⟩ => ⟨t, (hrun.step n).gone.mem ht, hc⟩
  have hsweeps : ∀ N L, ∃ n ≥ N, ∀ t, Holds s.conn (run n) t →
      t.lastActivity ≤ L → Lost s.conn (run (n + 1)) := by
    intro N L
    obtain ⟨n, hn, now, order, hlate, horder, heq⟩ :=
      hrun.sweeps N (L + (config.idleTimeout * 10 ^ 9).bmod (2 ^ 64))
    refine ⟨n, hn, ?_⟩
    rintro t ⟨ht, hconn⟩ hstamp
    rw [heq, ← hconn]
    refine sweepIdle_gone (At.of_live (hgood n) ht) horder ?_
    rw [reach_config (hrun.reach n)]
    omega
  refine (Lease.lost_or_busy hnext hlost hsweeps ⟨hs, rfl⟩).imp_right fun hbusy k => ?_
  -- what goes out is bounded, so it is the client
  obtain ⟨n, t, ⟨ht, hc⟩, hk⟩ := hbusy (k + (HEADER_SIZE + MAX_PAYLOAD + TRAILER_SIZE) + 3)
  have hmoved := ((hgood n).disk.lasting t (List.mem_append_left _ ht)).moved_le
  exact ⟨n, t, ht, hc, by omega⟩

/-- A client connects and stays silent. -/
theorem idle_gone_silent :
    ∃ (run : ℕ → Server × Os) (s : Session),
      Endless { outDir := str "in", idleTimeout := 30, maxSessions := 2 } 3 4 (bare 1 3 4) run ∧
      s ∈ (run 1).1.live ∧ ∃ N, ∀ n ≥ N, ∃ s' ∈ (run n).1.gone, s'.conn = s.conn := by
  obtain ⟨r₁, h₁⟩ : ∃ r, (create { outDir := str "in", idleTimeout := 30, maxSessions := 2 } 3
      4).acceptConnections (registered (bare 1 3 4) 3 4) [{ fd := 5, now := 0 }] = r := ⟨_, rfl⟩
  obtain ⟨r₂, h₂⟩ : ∃ r, r₁.1.sweepIdle r₁.2 (10 ^ 11) [5] = r := ⟨_, rfl⟩
  have hreceived : r₁.1.live.map (fun s => s.hist.received) = [[]] := by rw [← h₁]; decide
  have hlive : r₂.1.live.length = 0 := by rw [← h₂, ← h₁]; decide
  have hkeys : r₂.1.sessions.keys = [] := by rw [← h₂, ← h₁]; decide
  let run : ℕ → Server × Os
    | 0 => (create { outDir := str "in", idleTimeout := 30, maxSessions := 2 } 3 4,
        registered (bare 1 3 4) 3 4)
    | 1 => r₁
    | _ + 2 => r₂
  have hswept : Step r₂ r₂ :=
    .sweepIdle r₂.1 r₂.2 0 [] (by rw [← h₂, ← h₁]; decide) (by rw [hkeys])
  have hrun : Endless { outDir := str "in", idleTimeout := 30, maxSessions := 2 } 3 4
      (bare 1 3 4) run := by
    refine ⟨rfl, fun n => ?_, fun N T => ⟨N + 2, by omega, T + 1, [], by omega, ?_, rfl⟩⟩
    · match n with
      | 0 =>
        have hstep := Step.accept
          (create { outDir := str "in", idleTimeout := 30, maxSessions := 2 } 3 4)
          (registered (bare 1 3 4) 3 4) [{ fd := 5, now := 0 }] rfl
        rwa [h₁] at hstep
      | 1 =>
        have hstep := Step.sweepIdle r₁.1 r₁.2 (10 ^ 11) [5] (by rw [← h₁]; decide)
          (by rw [← h₁]; decide)
        rwa [h₂] at hstep
      | _ + 2 => exact hswept
    · show [].Perm r₂.1.sessions.keys
      rw [hkeys]
  obtain ⟨s, hs⟩ := List.length_eq_one_iff.mp (by simpa using congrArg List.length hreceived)
  have hmem : s ∈ (run 1).1.live := by
    show s ∈ r₁.1.live
    rw [hs]
    exact List.mem_singleton.mpr rfl
  refine ⟨run, s, hrun, hmem,
    (idle_gone (m := 1) (ready_bare 1 3 4) hrun hmem).resolve_right fun hbusy => ?_⟩
  obtain ⟨n, t, ht, -, hpos⟩ := hbusy 0
  match n with
  | 0 => exact absurd ht List.not_mem_nil
  | 1 =>
    have hnil : t.hist.received ∈ r₁.1.live.map fun s => s.hist.received := List.mem_map_of_mem ht
    rw [hreceived, List.mem_singleton] at hnil
    rw [hnil] at hpos
    exact absurd hpos (Nat.lt_irrefl 0)
  | _ + 2 =>
    have hnone : r₂.1.live = [] := List.length_eq_zero_iff.mp hlive
    change t ∈ r₂.1.live at ht
    rw [hnone] at ht
    cases ht

end Endless

end Server

end Nexus
