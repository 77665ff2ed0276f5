/-
The batches of the reactor.

`epoll_wait` returns a whole batch of events, and an event carries nothing but a
descriptor. While a batch is handled, sessions are closed, and connections are
accepted under the numbers that become free.

* `Server.dispatch_lookup` — an event leaves the entries of all other descriptors
  alone, also when it is one of the listener;
* `Server.events_find_owner` — every event of a batch comes to the session that
  was registered under its descriptor when the batch was taken.
-/
import NexusTransmitter.ServerRun

namespace Nexus

namespace Server

/-- The loop over a batch in `run`. The system of each `Sys` is the one that the
event before has left. -/
def dispatchAll (srv : Server) (os : Os) : List (Sys × Event) → Server × Os
  | [] => (srv, os)
  | (sys, ev) :: evs =>
    let (srv, os) := srv.dispatch { sys with os := os } ev
    srv.dispatchAll os evs

/-- What `epoll_wait` may return: every descriptor is registered, and there at
most once. -/
structure Batch (os : Os) (evs : List (Sys × Event)) : Prop where
  nodup : (evs.map fun p => p.2.fd).Nodup
  registered : ∀ p ∈ evs, (os.epoll p.2.fd).isSome

/-! ### What an event leaves alone -/

section Lookup

variable {srv : Server} {os : Os} {fd f : ℕ} {e : Entry}

theorem update_lookup_ne (e : Entry) (hf : f ≠ fd) :
    (srv.update fd e).sessions.lookup f = srv.sessions.lookup f :=
  AList.lookup_insert_ne hf

theorem closeSession_lookup_ne (reason : Bytes) (hf : f ≠ fd) :
    (srv.closeSession os fd reason).1.sessions.lookup f = srv.sessions.lookup f := by
  rw [closeSession]
  split
  · rfl
  · exact AList.lookup_erase_ne hf

theorem handleSession_lookup_ne (sys : Sys) {ev : Event} (hf : f ≠ ev.fd) :
    (srv.handleSession sys ev).1.sessions.lookup f = srv.sessions.lookup f := by
  rw [handleSession]
  split
  · rfl
  split
  · rw [closeSession_lookup_ne _ hf, update_lookup_ne _ hf]
  dsimp only
  split
  · split
    · rw [closeSession_lookup_ne _ hf, update_lookup_ne _ hf]
    · show ((srv.update _ _).update _ _).sessions.lookup f = _
      rw [update_lookup_ne _ hf, update_lookup_ne _ hf]
  · exact update_lookup_ne _ hf

/-- `m_sessions.emplace` never touches an entry that is there. -/
theorem acceptOne_lookup (c : Incoming) (conn : ℕ) (he : srv.sessions.lookup f = some e) :
    (srv.acceptOne os c conn).1.sessions.lookup f = some e := by
  rw [acceptOne]
  split
  · exact he
  dsimp only
  split
  · exact he
  rw [emplace]
  split
  · exact he
  · rename_i hnew
    have hf : f ≠ c.fd := by
      rintro rfl
      rw [AList.lookup_eq_none.mpr hnew] at he
      cases he
    rw [update_lookup_ne _ hf]
    exact he

theorem acceptConnections_lookup (cs : List Incoming) (he : srv.sessions.lookup f = some e) :
    (srv.acceptConnections os cs).1.sessions.lookup f = some e := by
  induction cs generalizing srv os with
  | nil => exact he
  | cons c cs ih =>
    rw [acceptConnections]
    split
    · exact he
    · exact ih (acceptOne_lookup c _ he)

/-- **What an event leaves alone**: the entries of the other descriptors. -/
theorem dispatch_lookup (sys : Sys) {ev : Event} (he : srv.sessions.lookup f = some e)
    (hf : f ≠ ev.fd) : (srv.dispatch sys ev).1.sessions.lookup f = some e := by
  rw [dispatch]
  split
  · exact acceptConnections_lookup _ he
  split
  · exact he
  · rw [handleSession_lookup_ne sys hf]
    exact he

end Lookup

/-! ### A whole batch -/

section Batch

variable {os₀ os : Os} {b : List Session × Os} {srv : Server} {f : ℕ} {e : Entry}

theorem dispatchAll_good (h : Good os₀ b srv os none) (hend : srv.ended = false)
    (evs : List (Sys × Event)) :
    Good os₀ b (srv.dispatchAll os evs).1 (srv.dispatchAll os evs).2 none := by
  induction evs generalizing srv os with
  | nil => exact h
  | cons p evs ih =>
    have hone : Good os₀ b (srv.dispatch { p.1 with os := os } p.2).1
        (srv.dispatch { p.1 with os := os } p.2).2 none :=
      @dispatch_good _ _ _ { p.1 with os := os } h hend _ _ rfl
    exact ih hone ((dispatch_fixed srv _ p.2).ended.trans hend)

theorem dispatchAll_fixed (srv : Server) (os : Os) (evs : List (Sys × Event)) :
    srv.Fixed (srv.dispatchAll os evs).1 := by
  induction evs generalizing srv os with
  | nil => exact .refl srv
  | cons p evs ih => exact (dispatch_fixed srv _ p.2).trans (ih _ _)

/-- The entry of a descriptor lasts until an event of that descriptor comes. -/
theorem dispatchAll_lookup {evs : List (Sys × Event)} (he : srv.sessions.lookup f = some e)
    (hf : ∀ p ∈ evs, f ≠ p.2.fd) : (srv.dispatchAll os evs).1.sessions.lookup f = some e := by
  induction evs generalizing srv os with
  | nil => exact he
  | cons p evs ih =>
    exact ih (dispatch_lookup _ he (hf p List.mem_cons_self))
      fun q hq => hf q (List.mem_cons_of_mem p hq)

theorem closeSession_closes (os : Os) (reason : Bytes) (he : srv.sessions.lookup f = some e) :
    ∃ os₁ os₂, (srv.closeSession os f reason).1.gone =
      ((e.session.terminate os₁ reason).1.destroy os₂).1 :: srv.gone := by
  rw [closeSession, he]
  exact ⟨os, _, rfl⟩

/-- An event of a session is a call of its `handle`: what that has left is in the table, or it
has been closed. -/
theorem handleSession_calls (sys : Sys) {ev : Event} (he : srv.sessions.lookup ev.fd = some e)
    {r : Bool × Session × Sys} (hr : e.session.handle sys ev.events ev.reads = r) :
    (r.1 = true ∧ ∃ e', (srv.handleSession sys ev).1.sessions.lookup ev.fd = some e' ∧
      e'.session = r.2.1) ∨
    ∃ os₁ os₂ reason, (srv.handleSession sys ev).1.gone =
      ((r.2.1.terminate os₁ reason).1.destroy os₂).1 :: srv.gone := by
  have hin : ∀ (srv : Server) (e' : Entry),
      (srv.update ev.fd e').sessions.lookup ev.fd = some e' := fun srv e' => AList.lookup_insert _
  have hclosed : ∀ (os : Os) (reason : Bytes), ∃ os₁ os₂ reason',
      ((srv.update ev.fd { e with session := r.2.1 }).closeSession os ev.fd reason).1.gone =
        ((r.2.1.terminate os₁ reason').1.destroy os₂).1 :: srv.gone := by
    intro os reason
    obtain ⟨os₁, os₂, hgone⟩ := closeSession_closes os reason
      (hin srv { e with session := r.2.1 })
    exact ⟨os₁, os₂, reason, hgone⟩
  obtain ⟨ok, s₁, sys₁⟩ := r
  simp only [handleSession, he, hr]
  cases ok with
  | false => exact .inr (hclosed sys₁.os _)
  | true =>
    dsimp only
    split
    · split
      · exact .inr (hclosed _ _)
      · exact .inl ⟨rfl, _, hin _ _, rfl⟩
    · exact .inl ⟨rfl, _, hin srv _, rfl⟩

/-- **No event comes to the wrong session**. In every state that the server
reaches, take a batch of events, with any descriptors for the connections that
are accepted meanwhile. When the turn of a session's event comes, there is under
its descriptor the very entry that was there when the batch was taken, with the
same connection open behind it: so it is this session whose `handle` is called,
what that leaves of it stays in the table or is closed, and the event changes no
other entry. -/
theorem events_find_owner {config : ServerConfig} {l g : ℕ} (h : Ready os₀ l g)
    (hreach : Reach config l g os₀ srv os) (hend : srv.ended = false)
    {evs : List (Sys × Event)} (hbatch : Batch os evs) (pre post : List (Sys × Event)) (sys : Sys)
    (ev : Event) (hevs : evs = pre ++ (sys, ev) :: post) (hl : ev.fd ≠ srv.listenerFd)
    (hg : ev.fd ≠ srv.signalFd) :
    ∃ e srv₁ os₁, srv.dispatchAll os pre = (srv₁, os₁) ∧
      srv.sessions.lookup ev.fd = some e ∧ srv₁.sessions.lookup ev.fd = some e ∧
      os₁.fds ev.fd = some (.socket e.session.conn) ∧
      srv₁.dispatch { sys with os := os₁ } ev = srv₁.handleSession { sys with os := os₁ } ev ∧
      (∀ r, e.session.handle { sys with os := os₁ } ev.events ev.reads = r →
        (r.1 = true ∧ ∃ e', (srv₁.dispatch { sys with os := os₁ } ev).1.sessions.lookup ev.fd =
          some e' ∧ e'.session = r.2.1) ∨
        ∃ os₂ os₃ reason, (srv₁.dispatch { sys with os := os₁ } ev).1.gone =
          ((r.2.1.terminate os₂ reason).1.destroy os₃).1 :: srv₁.gone) ∧
      ∀ f, f ≠ ev.fd → (srv₁.dispatch { sys with os := os₁ } ev).1.sessions.lookup f =
        srv₁.sessions.lookup f := by
  have hgood := reach_good h hreach
  have hnodup := hbatch.nodup
  have hregistered := hbatch.registered (sys, ev) (by rw [hevs]; simp)
  rw [hgood.table.epoll ev.fd (by simp) hl hg, Option.isSome_map] at hregistered
  obtain ⟨e, he⟩ := Option.isSome_iff_exists.mp hregistered
  -- the events before are of other descriptors
  have hother : ∀ p ∈ pre, ev.fd ≠ p.2.fd := by
    intro p hp heq
    rw [hevs, List.map_append, List.map_cons, List.nodup_append] at hnodup
    exact hnodup.2.2 _ (List.mem_map_of_mem hp) _ List.mem_cons_self heq.symm
  have he₁ : (srv.dispatchAll os pre).1.sessions.lookup ev.fd = some e :=
    dispatchAll_lookup he hother
  have hopen := ((dispatchAll_good hgood hend pre).table.entry _ e he₁).2
  have hfixed := dispatchAll_fixed srv os pre
  have hrun : ∀ sys', (srv.dispatchAll os pre).1.dispatch sys' ev =
      (srv.dispatchAll os pre).1.handleSession sys' ev := by
    intro sys'
    rw [dispatch, hfixed.listenerFd, hfixed.signalFd, if_neg hl, if_neg hg]
  refine ⟨e, _, _, rfl, he, he₁, hopen, hrun _, fun r hr => ?_, fun f hf => ?_⟩
  · rw [hrun]
    exact handleSession_calls _ he₁ hr
  · rw [hrun]
    exact handleSession_lookup_ne _ hf

/-- Two sessions. The first one is closed by the first event of a batch, and its
number is given out again before the event of the second one comes. -/
theorem events_find_owner_reused :
    ∃ (srv srv₁ : Server) (os : Os) (e : Entry),
      Reach { outDir := str "in", idleTimeout := 30, maxSessions := 3 } 3 4 (bare 1 3 4) srv os ∧
      (srv.sessions.lookup 5).map (fun e => e.session.conn) = some 0 ∧
      (srv₁.sessions.lookup 5).map (fun e => e.session.conn) = some 2 ∧
      srv.sessions.lookup 6 = some e ∧ srv₁.sessions.lookup 6 = some e := by
  let sys : Sys :=
    { os := bare 1 3 4
      openAnswer := .err []
      localTime := { year := 126, mon := 0, mday := 1, hour := 0, min := 0, sec := 0 }
      now := 0 }
  let pre : List (Sys × Event) :=
    [(sys, { fd := 5, events := EPOLLHUP }),
      (sys, { fd := 3, events := EPOLLIN, incoming := [{ fd := 5, now := 0 }] })]
  have hstep := Step.accept
    (create { outDir := str "in", idleTimeout := 30, maxSessions := 3 } 3 4)
    (registered (bare 1 3 4) 3 4) [{ fd := 5, now := 0 }, { fd := 6, now := 0 }] rfl
  generalize hr : acceptConnections _ _ _ = r at hstep
  have hbatch : Batch r.2 (pre ++ [(sys, { fd := 6, events := EPOLLIN })]) :=
    ⟨by decide, by rw [← hr]; decide +kernel⟩
  obtain ⟨e, srv₁, os₁, hrun, he, he₁, -⟩ :=
    events_find_owner (ready_bare 1 3 4) (.single hstep) (by rw [← hr]; rfl) hbatch pre [] sys
      { fd := 6, events := EPOLLIN } rfl (by rw [← hr]; decide +kernel)
      (by rw [← hr]; decide +kernel)
  refine ⟨r.1, srv₁, r.2, e, .single hstep, by rw [← hr]; decide +kernel, ?_, he, he₁⟩
  have hsrv : (r.1.dispatchAll r.2 pre).1 = srv₁ := by rw [hrun]
  rw [← hsrv, ← hr]
  decide +kernel

end Batch

end Server

end Nexus
