/-
What becomes of one session.

A session is in the table until the server closes it, and gone from then on. What
happens to it in an event of its own, in a sweep and at the end is a matter of the
session alone; other sessions, and events that are theirs, do not come into it.

* `Server.handleSession_fate` — an event of the session;
* `Server.sweepIdle_fate`, `Server.shutdown_fate` — a sweep, and the end;
* `Server.At.handleSession` — an event that is not the session's.
-/
import NexusTransmitter.ServerBatch
import NexusTransmitter.SessionTwins

namespace Nexus.Server

open Session

/-- The session is in the table, or it is gone. -/
def At (srv : Server) (s : Session) : Bool → Prop
  | true => ∃ e, srv.sessions.lookup s.fd = some e ∧ e.session = s
  | false => s ∈ srv.gone

/-- What the server does with a session: it leaves it in the table, closes it, or
destroys it at the end. -/
inductive Fate
  | stays
  | closed
  | erased
  deriving DecidableEq

def Fate.live : Fate → Bool
  | .stays => true
  | _ => false

/-- What that makes of the session. -/
inductive Ends : Fate → Session → Session → Prop
  | stays (s : Session) : Ends .stays s s
  | closed (s : Session) (os os' : Os) (reason : Bytes) :
      Ends .closed s ((s.terminate os reason).1.destroy os').1
  | erased (s : Session) (os : Os) : Ends .erased s (s.destroy os).1

section Ends

variable {k : Fate} {s s' t t' : Session}

theorem Ends.keeps (h : Ends k s s') : s.Keeps s' := by
  cases h with
  | stays => exact .refl s
  | closed _ os os' reason => exact (terminate_keeps s os reason).trans (destroy_keeps _ os')
  | erased _ os => exact destroy_keeps s os

theorem Ends.state (h : Ends k s s') : s'.state = s.state := by
  cases h with
  | stays => rfl
  | closed _ os os' reason => exact terminate_state os reason
  | erased _ os => rfl

/-- The same becomes of two that are alike. -/
theorem Ends.alike (h : Ends k s s') (h' : Ends k t t') (halike : Alike s t) : Alike s' t' := by
  cases h with
  | stays =>
    cases h'
    exact halike
  | closed _ os os' reason =>
    cases h' with
    | closed _ os₁ os₁' reason₁ => exact (halike.terminate os os₁ reason reason₁).destroy os' os₁'
  | erased _ os =>
    cases h' with
    | erased _ os₁ => exact halike.destroy os os₁

end Ends

/-! ### Who is gone stays gone -/

section Gone

theorem closeSession_gone (srv : Server) (os : Os) (fd : ℕ) (reason : Bytes) :
    srv.gone <:+ (srv.closeSession os fd reason).1.gone := by
  rw [closeSession]
  split
  · exact List.suffix_refl _
  · exact List.suffix_cons _ _

theorem eraseSession_gone (srv : Server) (os : Os) (fd : ℕ) :
    srv.gone <:+ (srv.eraseSession os fd).1.gone := by
  rw [eraseSession]
  split
  · exact List.suffix_refl _
  · exact List.suffix_cons _ _

theorem handleSession_gone (srv : Server) (sys : Sys) (ev : Event) :
    srv.gone <:+ (srv.handleSession sys ev).1.gone := by
  rw [handleSession]
  split
  · exact List.suffix_refl _
  split
  · exact closeSession_gone (srv.update _ _) _ _ _
  dsimp only
  split
  · split
    · exact closeSession_gone (srv.update _ _) _ _ _
    · exact List.suffix_refl _
  · exact List.suffix_refl _

theorem acceptOne_gone (srv : Server) (os : Os) (c : Incoming) (conn : ℕ) :
    srv.gone <:+ (srv.acceptOne os c conn).1.gone := by
  rw [acceptOne]
  split
  · exact List.suffix_refl _
  dsimp only
  split
  · exact List.suffix_cons _ _
  · rw [emplace]
    split
    · exact List.suffix_cons _ _
    · exact List.suffix_refl _

theorem acceptConnections_gone (srv : Server) (os : Os) (cs : List Incoming) :
    srv.gone <:+ (srv.acceptConnections os cs).1.gone := by
  induction cs generalizing srv os with
  | nil => exact List.suffix_refl _
  | cons c cs ih =>
    rw [acceptConnections]
    split
    · exact List.suffix_refl _
    · exact (acceptOne_gone srv _ c _).trans (ih _ _)

theorem closeSessions_gone (srv : Server) (os : Os) (fds : List ℕ) (reason : Bytes) :
    srv.gone <:+ (fds.foldl (fun (p : Server × Os) fd => p.1.closeSession p.2 fd reason)
      (srv, os)).1.gone := by
  induction fds generalizing srv os with
  | nil => exact List.suffix_refl _
  | cons fd fds ih => exact (closeSession_gone srv os fd reason).trans (ih _ _)

theorem clear_gone (srv : Server) (os : Os) (fds : List ℕ) :
    srv.gone <:+
      (fds.foldl (fun (p : Server × Os) fd => p.1.eraseSession p.2 fd) (srv, os)).1.gone := by
  induction fds generalizing srv os with
  | nil => exact List.suffix_refl _
  | cons fd fds ih => exact (eraseSession_gone srv os fd).trans (ih _ _)

end Gone

/-! ### Others -/

section At

variable {srv srv' : Server} {os : Os} {s : Session} {b : Bool}

theorem At.of_gone (h : s ∈ srv.gone) (hgone : srv.gone <:+ srv'.gone) : At srv' s false :=
  hgone.mem h

theorem At.frame (h : At srv s b) (hgone : srv.gone <:+ srv'.gone)
    (hlookup : ∀ e, srv.sessions.lookup s.fd = some e → srv'.sessions.lookup s.fd = some e) :
    At srv' s b := by
  cases b with
  | false => exact hgone.mem h
  | true =>
    obtain ⟨e, he, hs⟩ := h
    exact ⟨e, hlookup e he, hs⟩

/-- A connection comes. -/
theorem At.acceptOne (h : At srv s b) (os : Os) (c : Incoming) (conn : ℕ) :
    At (srv.acceptOne os c conn).1 s b :=
  h.frame (acceptOne_gone srv os c conn) fun _ he => acceptOne_lookup c conn he

theorem At.acceptConnections (h : At srv s b) (os : Os) (cs : List Incoming) :
    At (srv.acceptConnections os cs).1 s b :=
  h.frame (acceptConnections_gone srv os cs) fun _ he => acceptConnections_lookup cs he

/-- An event of another session. -/
theorem At.handleSession (h : At srv s b) (sys : Sys) {ev : Event}
    (hfd : b = true → s.fd ≠ ev.fd) : At (srv.handleSession sys ev).1 s b := by
  cases b with
  | false => exact At.of_gone h (handleSession_gone srv sys ev)
  | true =>
    exact h.frame (handleSession_gone srv sys ev) fun e he => by
      rw [handleSession_lookup_ne sys (hfd rfl)]
      exact he

end At

/-! ### The session itself -/

section Fate

variable {os₀ os : Os} {b : List Session × Os} {srv : Server} {s : Session} {e : Entry}

/-- The session is closed. -/
theorem closeSession_fate {fd : ℕ} (he : srv.sessions.lookup fd = some e) (os : Os)
    (reason : Bytes) :
    ∃ s', Ends .closed e.session s' ∧ At (srv.closeSession os fd reason).1 s' false := by
  refine ⟨_, .closed e.session os ((e.session.terminate os reason).2.epollDel fd) reason, ?_⟩
  simp only [closeSession, he]
  exact List.mem_cons_self

theorem eraseSession_fate {fd : ℕ} (he : srv.sessions.lookup fd = some e) (os : Os) :
    ∃ s', Ends .erased e.session s' ∧ At (srv.eraseSession os fd).1 s' false := by
  refine ⟨_, .erased e.session os, ?_⟩
  simp only [eraseSession, he]
  exact List.mem_cons_self

/-- What the server does after an event, with what `handle` has returned. -/
def eventFate (e : Entry) (ev : Event) (r : Bool × Session × Sys) : Fate :=
  if r.1 = true ∧ (r.2.1.interest = e.session.interest ∨ ev.modFault = false) then .stays
  else .closed

/-- **An event of the session**. -/
theorem handleSession_fate (sys : Sys) (h : Good os₀ b srv sys.os none) {ev : Event}
    (hl : ev.fd ≠ srv.listenerFd) (hg : ev.fd ≠ srv.signalFd)
    (he : srv.sessions.lookup ev.fd = some e) {r : Bool × Session × Sys}
    (hr : e.session.handle sys ev.events ev.reads = r) :
    ∃ s', Ends (eventFate e ev r) r.2.1 s' ∧
      At (srv.handleSession sys ev).1 s' (eventFate e ev r).live ∧
      (eventFate e ev r = .stays → (srv.handleSession sys ev).2.dir = r.2.2.os.dir ∧
        (srv.handleSession sys ev).2.tempSeq = r.2.2.os.tempSeq ∧
        (srv.handleSession sys ev).2.fds = r.2.2.os.fds) := by
  obtain ⟨hev, hlive⟩ := h.table.synced ev.fd e (by simp) he
  have hepoll := h.table.epoll ev.fd (by simp) hl hg
  rw [he, Option.map_some] at hepoll
  obtain ⟨hturn, -⟩ := (h.sound he).handle_turn (h.lasting he).tracks hlive hr
  obtain ⟨hfd, hopen⟩ := h.table.entry _ e he
  have hfd' : r.2.1.fd = ev.fd := hturn.moves.fd.trans hfd
  have hmod : (r.2.2.os.epoll ev.fd).isNone = false := by
    rw [hturn.sockets.epoll ev.fd _ (by simp) hopen, hepoll]
    rfl
  obtain ⟨ok, s₁, sys₁⟩ := r
  dsimp only at hfd' hmod
  have hin : ∀ e', (srv.update ev.fd e').sessions.lookup ev.fd = some e' := fun e' =>
    AList.lookup_insert _
  simp only [handleSession, he, hr]
  cases ok with
  | false =>
    -- `handle` has said so
    rw [eventFate, if_neg (by simp)]
    obtain ⟨s', hends, hat⟩ := closeSession_fate (hin { e with session := s₁ }) sys₁.os
      (str "обработчик события завершил сессию")
    exact ⟨s', hends, hat, by simp⟩
  | true =>
    dsimp only
    by_cases hsame : s₁.interest = e.session.interest
    · rw [eventFate, if_pos ⟨rfl, .inl hsame⟩, if_neg (by rw [hev, hsame]; simp)]
      refine ⟨s₁, .stays s₁, ⟨{ e with session := s₁ }, ?_, rfl⟩, fun _ => ⟨rfl, rfl, rfl⟩⟩
      rw [hfd']
      exact hin _
    rw [if_pos (by rw [hev]; exact hsame)]
    cases hfault : ev.modFault with
    | true =>
      have hrun : sys₁.os.epollMod ev.fd s₁.interest true = (false, sys₁.os) := by
        rw [Os.epollMod, if_pos (.inl rfl)]
      rw [eventFate, if_neg (by simp [hsame, hfault]), hrun]
      obtain ⟨s', hends, hat⟩ := closeSession_fate (hin { e with session := s₁ }) sys₁.os
        (str "ошибка перерегистрации в epoll")
      exact ⟨s', hends, hat, by simp⟩
    | false =>
      have hrun : sys₁.os.epollMod ev.fd s₁.interest false =
          (true, sys₁.os.setInterest ev.fd s₁.interest) := by
        rw [Os.epollMod, if_neg (by simp [hmod])]
      rw [eventFate, if_pos ⟨rfl, .inr hfault⟩, hrun]
      refine ⟨s₁, .stays s₁, ⟨{ session := s₁, events := s₁.interest }, ?_, rfl⟩,
        fun _ => ⟨rfl, rfl, rfl⟩⟩
      rw [hfd']
      exact AList.lookup_insert _

/-- Some sessions are closed, one after another. -/
theorem closeSessions_fate (h : At srv s true) (os : Os) (fds : List ℕ) (reason : Bytes) :
    ∃ s', Ends (if s.fd ∈ fds then .closed else .stays) s s' ∧
      At (fds.foldl (fun (p : Server × Os) fd => p.1.closeSession p.2 fd reason) (srv, os)).1 s'
        (if s.fd ∈ fds then Fate.closed else .stays).live := by
  induction fds generalizing srv os with
  | nil => exact ⟨s, .stays s, h⟩
  | cons fd fds ih =>
    by_cases hfd : s.fd = fd
    · obtain ⟨e, he, rfl⟩ := h
      rw [if_pos (List.mem_cons.mpr (.inl hfd))]
      rw [hfd] at he
      obtain ⟨s', hends, hat⟩ := closeSession_fate he os reason
      exact ⟨s', hends, At.of_gone hat (closeSessions_gone _ _ fds reason)⟩
    · have hmem : s.fd ∈ fd :: fds ↔ s.fd ∈ fds := by simp [hfd]
      simp only [hmem]
      refine ih ?_ _
      exact h.frame (closeSession_gone srv os fd reason) fun e he =>
        (closeSession_lookup_ne reason hfd).trans he

/-- **A sweep** closes the session exactly when it has expired. -/
theorem sweepIdle_fate (h : At srv s true) (os : Os) (now : ℤ) {order : List ℕ}
    (horder : order.Perm srv.sessions.keys) :
    ∃ s', Ends (if s.expired now srv.config.idleTimeout then .closed else .stays) s s' ∧
      At (srv.sweepIdle os now order).1 s'
        (if s.expired now srv.config.idleTimeout then Fate.closed else .stays).live := by
  obtain ⟨e, he, hs⟩ := h
  have hmem : s.fd ∈ srv.expired now order ↔ s.expired now srv.config.idleTimeout = true := by
    have hkey : s.fd ∈ order :=
      horder.mem_iff.mpr (AList.lookup_isSome.mp (by rw [he]; rfl))
    rw [expired, List.mem_filter, he]
    simp [hkey, hs]
  have hfate := closeSessions_fate ⟨e, he, hs⟩ os (srv.expired now order)
    (str "таймаут ожидания данных")
  simp only [hmem] at hfate
  exact hfate

/-- **The end** destroys every session. -/
theorem shutdown_fate (h : At srv s true) (os : Os) {order : List ℕ}
    (horder : order.Perm srv.sessions.keys) :
    ∃ s', Ends .erased s s' ∧ At (srv.shutdown os order).1 s' false := by
  obtain ⟨e, he, hs⟩ := h
  have hkey : s.fd ∈ order := horder.mem_iff.mpr (AList.lookup_isSome.mp (by rw [he]; rfl))
  have hclear : ∃ s', Ends .erased s s' ∧ At
      (order.foldl (fun (p : Server × Os) fd => p.1.eraseSession p.2 fd) (srv, os)).1 s' false := by
    clear horder
    induction order generalizing srv os with
    | nil => exact absurd hkey List.not_mem_nil
    | cons fd order ih =>
      by_cases hfd : s.fd = fd
      · subst hs
        rw [hfd] at he
        obtain ⟨s', hends, hat⟩ := eraseSession_fate he os
        exact ⟨s', hends, At.of_gone hat (clear_gone _ _ order)⟩
      · have hnext : (srv.eraseSession os fd).1.sessions.lookup s.fd = some e := by
          rw [eraseSession_lookup, if_neg hfd]
          exact he
        exact ih _ hnext ((List.mem_cons.mp hkey).resolve_left hfd)
  exact hclear

/-- **A connection for which there is room** gets a session; when it cannot be
registered, the session is destroyed at once. -/
theorem acceptOne_fate (h : Good os₀ b srv os none) {c : Incoming} (hfd : os.fds c.fd = none)
    (hend : srv.ended = false) (hroom : ¬ srv.sessions.keys.length ≥ srv.config.maxSessions) :
    ∃ s', Ends (if c.addFault then .erased else .stays)
        (Session.create srv.nextSessionId c.fd os.nextConn srv.config.outDir c.now) s' ∧
      At (srv.acceptOne (os.connect c.fd) c os.nextConn).1 s'
        (if c.addFault then Fate.erased else .stays).live ∧
      (c.addFault = false →
        (srv.acceptOne (os.connect c.fd) c os.nextConn).2 =
          (os.connect c.fd).setInterest c.fd EPOLLIN) := by
  have hnew := h.table.lookup_of_unused hfd
  obtain ⟨hl, hg⟩ := h.listening_connect hfd hend
  have hepoll : (os.connect c.fd).epoll c.fd = none := by
    rw [Os.connect_epoll, h.table.epoll c.fd (by simp) hl hg, hnew, Option.map_none]
  have hopen : (os.connect c.fd).fds c.fd = some (.socket os.nextConn) := by simp
  set s := Session.create srv.nextSessionId c.fd os.nextConn srv.config.outDir c.now with hs
  have hinterest : s.interest = EPOLLIN := rfl
  rw [acceptOne, if_neg hroom]
  dsimp only
  rw [← hs]
  cases hfault : c.addFault with
  | true =>
    have hadd : (os.connect c.fd).epollAdd c.fd s.interest true = (false, os.connect c.fd) := by
      rw [Os.epollAdd, if_pos (.inl rfl)]
    rw [hadd]
    exact ⟨_, .erased s (os.connect c.fd), List.mem_cons_self, by simp⟩
  | false =>
    have hadd : (os.connect c.fd).epollAdd c.fd s.interest false =
        (true, (os.connect c.fd).setInterest c.fd s.interest) := by
      rw [Os.epollAdd, if_neg (by simp [hepoll])]
    rw [hadd]
    dsimp only
    rw [emplace, if_neg (AList.lookup_eq_none.mp hnew)]
    exact ⟨s, .stays s, ⟨_, AList.lookup_insert _, rfl⟩, fun _ => rfl⟩

end Fate

/-! ### The connections of the sessions -/

section Conns

variable {os₀ os : Os} {b : List Session × Os} {srv : Server} {e e' : Entry} {fd : ℕ}

/-- The connections of all the sessions there have been. -/
def conns (srv : Server) : List ℕ := srv.all.map Session.conn

theorem update_conns (he : srv.sessions.lookup fd = some e)
    (hconn : e'.session.conn = e.session.conn) : (srv.update fd e').conns.Perm srv.conns := by
  refine List.Perm.trans ?_ ((all_perm he).map Session.conn).symm
  show ((e'.session :: (srv.others fd ++ srv.gone)).map Session.conn).Perm _
  rw [List.map_cons, List.map_cons, hconn]

theorem erase_conns (he : srv.sessions.lookup fd = some e) {s : Session}
    (hconn : s.conn = e.session.conn) :
    Server.conns { srv with sessions := srv.sessions.erase fd, gone := s :: srv.gone } |>.Perm
      srv.conns := by
  refine List.Perm.trans ?_ ((all_perm he).map Session.conn).symm
  show ((srv.others fd ++ s :: srv.gone).map Session.conn).Perm _
  rw [List.map_append, List.map_cons, hconn, List.map_cons, List.map_append]
  exact List.perm_middle

theorem closeSession_conns (srv : Server) (os : Os) (fd : ℕ) (reason : Bytes) :
    (srv.closeSession os fd reason).1.conns.Perm srv.conns := by
  rw [closeSession]
  split
  · exact .refl _
  · rename_i e he
    exact erase_conns he ((terminate_keeps e.session os reason).trans (destroy_keeps _ _)).conn

theorem eraseSession_conns (srv : Server) (os : Os) (fd : ℕ) :
    (srv.eraseSession os fd).1.conns.Perm srv.conns := by
  rw [eraseSession]
  split
  · exact .refl _
  · rename_i e he
    exact erase_conns he (destroy_keeps e.session os).conn

theorem sweepIdle_conns (srv : Server) (os : Os) (now : ℤ) (order : List ℕ) :
    (srv.sweepIdle os now order).1.conns.Perm srv.conns := by
  rw [sweepIdle]
  generalize srv.expired now order = fds
  induction fds generalizing srv os with
  | nil => exact .refl _
  | cons fd fds ih => exact (ih _ _).trans (closeSession_conns srv os fd _)

theorem shutdown_conns (srv : Server) (os : Os) (order : List ℕ) :
    (srv.shutdown os order).1.conns.Perm srv.conns := by
  have hclear : ((order.foldl (fun (p : Server × Os) fd => p.1.eraseSession p.2 fd)
      (srv, os)).1).conns.Perm srv.conns := by
    induction order generalizing srv os with
    | nil => exact .refl _
    | cons fd order ih => exact (ih _ _).trans (eraseSession_conns srv os fd)
  exact hclear

theorem handleSession_conns (sys : Sys) (h : Good os₀ b srv sys.os none) (ev : Event) :
    (srv.handleSession sys ev).1.conns.Perm srv.conns := by
  rw [handleSession]
  split
  · exact .refl _
  rename_i e he
  have hconn : ∀ r, e.session.handle sys ev.events ev.reads = r →
      r.2.1.conn = e.session.conn := fun r hr =>
    ((h.sound he).handle_turn (h.lasting he).tracks (h.table.synced ev.fd e (by simp) he).2
      hr).1.moves.conn
  split <;> rename_i s sys' hrun <;> have hs : s.conn = e.session.conn := hconn _ hrun
  · exact (closeSession_conns _ _ _ _).trans (update_conns he hs)
  dsimp only
  split
  · split
    · exact (closeSession_conns _ _ _ _).trans (update_conns he hs)
    · refine (update_conns (AList.lookup_insert _) ?_).trans (update_conns he hs)
      rfl
  · exact update_conns he hs

theorem drop_conns (srv : Server) (os : Os) (s : Session) :
    (srv.drop os s).1.conns.Perm (s.conn :: srv.conns) := by
  show ((srv.live ++ (s.destroy os).1 :: srv.gone).map Session.conn).Perm _
  rw [List.map_append, List.map_cons, (destroy_keeps s os).conn, conns, all, List.map_append]
  exact List.perm_middle

/-- No other connection comes in than the one that is accepted. -/
theorem acceptOne_conns (srv : Server) (os : Os) (c : Incoming) (conn : ℕ) :
    (srv.acceptOne os c conn).1.conns ⊆ conn :: srv.conns := by
  rw [acceptOne]
  split
  · exact List.subset_cons_self conn srv.conns
  dsimp only
  split
  · exact (drop_conns _ _ _).subset
  rw [emplace]
  split
  · exact (drop_conns _ _ _).subset
  · -- the session is in the table
    show ((_ :: (srv.others c.fd ++ srv.gone)).map Session.conn) ⊆ _
    refine List.cons_subset_cons conn ?_
    rw [conns, all, List.map_append, List.map_append]
    refine List.append_subset.mpr ⟨?_, List.subset_append_right _ _⟩
    refine List.Subset.trans ?_ (List.subset_append_left _ _)
    exact (((List.kerase_sublist c.fd srv.sessions.entries).map _).map _).subset

end Conns

end Nexus.Server
