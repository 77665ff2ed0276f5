/-
Where the connections of a server end up.

The system numbers the connections that `accept` gives.  Each of them gets one session, or
is answered Busy and closed, and none gets both: the sessions there have been and the
refused connections, taken together, are the numbers given out so far, each once.

* `acceptOne_dealt` — an accepted connection is dealt with, whatever fails;
* `Step.booked` — and stays so, whatever the server does next;
* `Step.refused_full` — only a full table refuses;
* `Server.connections_accounted` — the account in every reachable state.
-/
import NexusTransmitter.Refusal
import NexusTransmitter.ServerFate

namespace Nexus

/-! ### Numbers of connections -/

section NextConn

theorem FileWriter.abort_nextConn (w : FileWriter) (os : Os) :
    (w.abort os).2.nextConn = os.nextConn := by
  rw [FileWriter.abort]
  cases w.fd with
  | none =>
    dsimp only
    split <;> rfl
  | some fd =>
    dsimp only
    split <;> rfl

theorem Session.terminate_nextConn (s : Session) (os : Os) (reason : Bytes) :
    (s.terminate os reason).2.nextConn = os.nextConn := by
  rw [Session.terminate]
  split
  · rfl
  · exact s.writer.abort_nextConn os

theorem Session.destroy_nextConn (s : Session) (os : Os) :
    (s.destroy os).2.nextConn = os.nextConn :=
  s.writer.abort_nextConn (os.close s.fd)

end NextConn

namespace Server

section Account

variable {os₀ os os' : Os} {b : List Session × Os} {srv srv' : Server} {n : ℕ}

theorem drop_nextConn (srv : Server) (os : Os) (s : Session) :
    (srv.drop os s).2.nextConn = os.nextConn :=
  s.destroy_nextConn os

theorem closeSession_nextConn (srv : Server) (os : Os) (fd : ℕ) (reason : Bytes) :
    (srv.closeSession os fd reason).2.nextConn = os.nextConn := by
  rw [closeSession]
  split
  · rfl
  · rename_i e he
    exact (drop_nextConn _ _ _).trans (e.session.terminate_nextConn os reason)

theorem eraseSession_nextConn (srv : Server) (os : Os) (fd : ℕ) :
    (srv.eraseSession os fd).2.nextConn = os.nextConn := by
  rw [eraseSession]
  split
  · rfl
  · rename_i e he
    exact drop_nextConn _ os e.session

theorem closeSessions_nextConn (srv : Server) (os : Os) (fds : List ℕ) (reason : Bytes) :
    (fds.foldl (fun (p : Server × Os) fd => p.1.closeSession p.2 fd reason)
      (srv, os)).2.nextConn = os.nextConn := by
  induction fds generalizing srv os with
  | nil => rfl
  | cons fd fds ih => exact (ih _ _).trans (closeSession_nextConn srv os fd reason)

theorem clear_nextConn (srv : Server) (os : Os) (fds : List ℕ) :
    (fds.foldl (fun (p : Server × Os) fd => p.1.eraseSession p.2 fd)
      (srv, os)).2.nextConn = os.nextConn := by
  induction fds generalizing srv os with
  | nil => rfl
  | cons fd fds ih => exact (ih _ _).trans (eraseSession_nextConn srv os fd)

theorem epollMod_nextConn (os : Os) (fd : ℕ) (events : BitVec 32) (fault : Bool) :
    (os.epollMod fd events fault).2.nextConn = os.nextConn := by
  rw [Os.epollMod]
  split <;> rfl

theorem handleSession_nextConn (sys : Sys) (h : Good os₀ b srv sys.os none) (ev : Event) :
    (srv.handleSession sys ev).2.nextConn = sys.os.nextConn := by
  rw [handleSession]
  split
  · rfl
  rename_i e he
  have hconn : ∀ r, e.session.handle sys ev.events ev.reads = r →
      r.2.2.os.nextConn = sys.os.nextConn := fun r hr =>
    ((h.sound he).handle_turn (h.lasting he).tracks (h.table.synced ev.fd e (by simp) he).2
      hr).1.sockets.nextConn
  split <;> rename_i s sys' hrun <;> have hs := hconn _ hrun
  · exact (closeSession_nextConn _ _ _ _).trans hs
  dsimp only
  split
  · have hmod := epollMod_nextConn sys'.os ev.fd s.interest ev.modFault
    split <;> rename_i os' hrun' <;> rw [hrun'] at hmod
    · exact (closeSession_nextConn _ _ _ _).trans (hmod.trans hs)
    · exact hmod.trans hs
  · exact hs

/-! ### The account -/

/-- The connections that the server has dealt with: those of all its sessions, and those
that it has refused. -/
def dealt (srv : Server) : List ℕ := srv.conns ++ srv.refused.map Prod.fst

/-- The connections that came since the number `n` was next are dealt with, each once. -/
structure Booked (n : ℕ) (x : Server × Os) : Prop where
  since : n ≤ x.2.nextConn
  dealt : x.1.dealt.Perm (List.range' n (x.2.nextConn - n))

/-- No connection has come. -/
theorem Booked.keep (h : Booked n (srv, os)) (hconns : srv'.conns.Perm srv.conns)
    (hrefused : srv'.refused = srv.refused) (hos : os'.nextConn = os.nextConn) :
    Booked n (srv', os') where
  since := by
    show n ≤ os'.nextConn
    rw [hos]
    exact h.since
  dealt := by
    show (srv'.conns ++ srv'.refused.map Prod.fst).Perm (List.range' n (os'.nextConn - n))
    rw [hrefused, hos]
    exact (hconns.append_right _).trans h.dealt

/-- The next connection has come, and is dealt with. -/
theorem Booked.come (h : Booked n (srv, os))
    (hdealt : srv'.dealt.Perm (os.nextConn :: srv.dealt)) (hos : os'.nextConn = os.nextConn + 1) :
    Booked n (srv', os') where
  since := by
    have hsince : n ≤ os.nextConn := h.since
    show n ≤ os'.nextConn
    omega
  dealt := by
    have hsince : n ≤ os.nextConn := h.since
    have hnext : os'.nextConn - n = os.nextConn - n + 1 := by omega
    have hlast : n + (os.nextConn - n) = os.nextConn := by omega
    show srv'.dealt.Perm (List.range' n (os'.nextConn - n))
    rw [hnext, List.range'_1_concat, hlast]
    exact (hdealt.trans (h.dealt.cons _)).trans (List.perm_append_singleton _ _).symm

/-- An accepted connection is dealt with, also when it cannot be registered. -/
theorem acceptOne_dealt (srv : Server) (os : Os) (c : Incoming) (conn : ℕ) :
    (srv.acceptOne os c conn).1.dealt.Perm (conn :: srv.dealt) := by
  rw [acceptOne]
  split
  · -- refused
    exact List.perm_middle
  dsimp only
  split
  · exact (drop_conns _ _ _).append_right _
  rw [emplace]
  split
  · exact (drop_conns _ _ _).append_right _
  · -- the session is in the table
    rename_i hnew
    refine List.Perm.of_eq ?_
    show (((update _ _ _).live ++ srv.gone).map Session.conn) ++ srv.refused.map Prod.fst = _
    rw [live_update_new _ (AList.lookup_eq_none.mpr hnew)]
    rfl

theorem acceptOne_nextConn (srv : Server) (os : Os) (c : Incoming) (conn : ℕ) :
    (srv.acceptOne os c conn).2.nextConn = os.nextConn := by
  rw [acceptOne]
  split
  · rfl
  dsimp only
  have hadd : (os.epollAdd c.fd
      (Session.create srv.nextSessionId c.fd conn srv.config.outDir c.now).interest
      c.addFault).2.nextConn = os.nextConn := by
    rw [Os.epollAdd]
    split <;> rfl
  split <;> rename_i os' hrun <;> rw [hrun] at hadd
  · exact (drop_nextConn _ _ _).trans hadd
  rw [emplace]
  split
  · exact (drop_nextConn _ _ _).trans hadd
  · exact hadd

theorem acceptConnections_booked (h : Booked n (srv, os)) (cs : List Incoming) :
    Booked n (srv.acceptConnections os cs) := by
  induction cs generalizing srv os with
  | nil => exact h
  | cons c cs ih =>
    rw [acceptConnections]
    split
    · exact h
    · rename_i conn os₁ haccept
      rw [Os.accept] at haccept
      split at haccept <;> cases haccept
      exact ih (h.come (acceptOne_dealt srv _ c _) (acceptOne_nextConn srv _ c _))

/-- **The step lemma**: whatever the server does next, all connections stay accounted for. -/
theorem Step.booked {x y : Server × Os} (hstep : Step x y) (hgood : Good os₀ b x.1 x.2 none)
    (h : Booked n x) : Booked n y := by
  cases hstep with
  | dispatch srv sys ev hend =>
    rw [Server.dispatch]
    split
    · exact acceptConnections_booked h ev.incoming
    split
    · exact h.keep (.refl _) rfl rfl
    · exact h.keep (handleSession_conns sys hgood ev) (handleSession_refused srv sys ev)
        (handleSession_nextConn sys hgood ev)
  | sweepIdle srv os now order hend horder =>
    exact h.keep (sweepIdle_conns srv os now order) (closeSessions_refused srv os _ _)
      (closeSessions_nextConn srv os _ _)
  | shutdown srv os order hend horder =>
    exact h.keep (shutdown_conns srv os order) (clear_refused srv os order)
      (clear_nextConn srv os order)

/-! ### Who is refused -/

theorem acceptOne_keys (srv : Server) (os : Os) (c : Incoming) (conn : ℕ) :
    srv.sessions.keys.length ≤ (srv.acceptOne os c conn).1.sessions.keys.length := by
  rw [acceptOne]
  split
  · exact le_rfl
  dsimp only
  split
  · exact le_rfl
  rw [emplace]
  split
  · exact le_rfl
  · rename_i hnew
    show _ ≤ (srv.sessions.insert c.fd _).keys.length
    rw [AList.keys_insert, List.erase_of_not_mem hnew, List.length_cons]
    exact Nat.le_succ _

theorem acceptConnections_keys (srv : Server) (os : Os) (cs : List Incoming) :
    srv.sessions.keys.length ≤ (srv.acceptConnections os cs).1.sessions.keys.length := by
  induction cs generalizing srv os with
  | nil => exact le_rfl
  | cons c cs ih =>
    rw [acceptConnections]
    split
    · exact le_rfl
    · exact (acceptOne_keys srv _ c _).trans (ih _ _)

/-- A connection is refused only by a table that is full. -/
theorem acceptOne_refused_full {c : Incoming} {conn : ℕ}
    (h : (srv.acceptOne os c conn).1.refused ≠ srv.refused) :
    srv.config.maxSessions ≤ srv.sessions.keys.length := by
  by_contra hroom
  refine h ?_
  rw [acceptOne, if_neg (by omega)]
  dsimp only
  split
  · rfl
  · rw [emplace]
    split <;> rfl

theorem acceptConnections_refused_full {cs : List Incoming}
    (h : (srv.acceptConnections os cs).1.refused ≠ srv.refused) :
    srv.config.maxSessions ≤ (srv.acceptConnections os cs).1.sessions.keys.length := by
  induction cs generalizing srv os with
  | nil => exact absurd rfl h
  | cons c cs ih =>
    rw [acceptConnections] at h ⊢
    split at h
    · exact absurd rfl h
    rename_i conn os₁ haccept
    by_cases hone : (srv.acceptOne os₁ c conn).1.refused = srv.refused
    · rw [← hone] at h
      rw [← (acceptOne_fixed srv os₁ c conn).config]
      exact ih h
    · -- it was full already, and nobody leaves it while connections are accepted
      exact (acceptOne_refused_full hone).trans
        ((acceptOne_keys srv os₁ c conn).trans (acceptConnections_keys _ _ _))

/-- After a step that refused somebody the table is full. -/
theorem Step.refused_full {x y : Server × Os} (hstep : Step x y) (h : y.1.refused ≠ x.1.refused) :
    x.1.config.maxSessions ≤ y.1.sessions.keys.length := by
  cases hstep with
  | dispatch srv sys ev hend =>
    rw [Server.dispatch] at h ⊢
    split at h
    · rename_i hl
      rw [if_pos hl]
      exact acceptConnections_refused_full h
    split at h
    · exact absurd rfl h
    · exact absurd (handleSession_refused srv sys ev) h
  | sweepIdle srv os now order hend horder =>
    exact absurd (closeSessions_refused srv os _ _) h
  | shutdown srv os order hend horder => exact absurd (clear_refused srv os order) h

end Account

/-! ### Whole runs -/

section Connections

variable {os₀ os : Os} {config : ServerConfig} {l g : ℕ} {srv : Server}

theorem reach_booked (h : Ready os₀ l g) (hreach : Reach config l g os₀ srv os) :
    Booked os₀.nextConn (srv, os) := by
  have hall : ∀ y, Steps (create config l g, registered os₀ l g) y →
      Booked os₀.nextConn y := by
    intro y hsteps
    induction hsteps with
    | refl =>
      refine ⟨le_rfl, ?_⟩
      show List.Perm [] (List.range' os₀.nextConn (os₀.nextConn - os₀.nextConn))
      rw [Nat.sub_self]
      exact .nil
    | tail hprev hstep ih => exact hstep.booked (reach_good h hprev) ih
  exact hall _ hreach

/-- **Every connection is accounted for**, in every state that the server reaches, whatever
failed:

* each connection that it ever accepted has one session, in the table or gone, or was
  refused, and nothing is counted twice;
* the connections that are open are those of the sessions in the table, each under the
  descriptor of its session;
* a refused connection was sent nothing but a prefix of the Busy answer;
* a connection is refused only while the table is full. -/
theorem connections_accounted (h : Ready os₀ l g) (hreach : Reach config l g os₀ srv os) :
    (srv.all.map Session.conn ++ srv.refused.map Prod.fst).Perm
      (List.range' os₀.nextConn (os.nextConn - os₀.nextConn)) ∧
    (∀ fd c, os.fds fd = some (.socket c) ↔ ∃ s ∈ srv.live, s.fd = fd ∧ s.conn = c) ∧
    (∀ e ∈ srv.refused, e.2 <+: Refusal.busyAck) ∧
    (∀ y, Step (srv, os) y → y.1.refused ≠ srv.refused →
      y.1.live.length = config.maxSessions) := by
  have hgood := reach_good h hreach
  refine ⟨(reach_booked h hreach).dealt, fun fd c => ⟨fun hfd => ?_, ?_⟩,
    hgood.numbers.busy, fun y hstep hrefused => ?_⟩
  · obtain ⟨e, he, hconn⟩ := hgood.table.sockets fd c (by simp) hfd
    exact ⟨e.session, mem_live.mpr ⟨fd, e, he, rfl⟩, (hgood.table.entry fd e he).1, hconn⟩
  · rintro ⟨s, hs, rfl, rfl⟩
    obtain ⟨fd, e, he, rfl⟩ := mem_live.mp hs
    obtain ⟨hfd, hopen⟩ := hgood.table.entry fd e he
    rw [hfd]
    exact hopen
  · have hreach' : Reach config l g os₀ y.1 y.2 := Relation.ReflTransGen.tail hreach hstep
    have hsize := (reach_good h hreach').size
    have hfull := hstep.refused_full hrefused
    rw [reach_config hreach'] at hsize
    rw [reach_config hreach] at hfull
    have hlength : y.1.live.length = y.1.sessions.keys.length := by
      rw [live, List.length_map, AList.keys, List.keys, List.length_map]
    omega

/-- Three connections come at once, and there is room for two. -/
theorem connections_three :
    ∃ srv os, Reach { outDir := str "in", idleTimeout := 30, maxSessions := 2 } 3 4
        (bare 1 3 4) srv os ∧
      srv.refused.map Prod.fst = [2] ∧
      (srv.all.map Session.conn ++ [2]).Perm (List.range' 0 3) := by
  obtain ⟨r, hr⟩ : ∃ r, (create { outDir := str "in", idleTimeout := 30, maxSessions := 2 } 3
      4).acceptConnections (registered (bare 1 3 4) 3 4)
      [{ fd := 5, now := 0 }, { fd := 6, now := 0 }, { fd := 7, now := 0 }] = r := ⟨_, rfl⟩
  have hends : r.1.refused.map Prod.fst = [2] ∧ r.2.nextConn = 3 := by
    rw [← hr]
    decide +kernel
  obtain ⟨hrefused, hnext⟩ := hends
  have hstep := Step.accept (create { outDir := str "in", idleTimeout := 30, maxSessions := 2 } 3 4)
    (registered (bare 1 3 4) 3 4)
    [{ fd := 5, now := 0 }, { fd := 6, now := 0 }, { fd := 7, now := 0 }] rfl
  rw [hr] at hstep
  have hperm := (connections_accounted (ready_bare 1 3 4) (.single hstep)).1
  rw [hrefused, hnext] at hperm
  exact ⟨r.1, r.2, .single hstep, hrefused, hperm⟩

end Connections

end Server

end Nexus
