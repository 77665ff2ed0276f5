/-
Runs of the server.

* `Server.reach_good` — in every state that the server reaches, its table agrees
  with the system, its sessions are sound, and the directory is in order;
* `Server.reactor_table` — what that says about the table.
-/
import NexusTransmitter.ServerTable

open Ownership

namespace Nexus

/-! ### Numbers -/

/-- The numbers of the sessions and connections there have been: ids are given
out one after another, in 64 bits, and no connection is there twice. Whoever was
refused has been sent nothing but the Busy answer. -/
structure Numbers (all : List Session) (refused : List (ℕ × Bytes)) (nextSessionId : ℕ) (os : Os) :
    Prop where
  ids : (all.map Session.id).Perm ((List.range all.length).map fun k => (k + 1) % 2 ^ 64)
  next : nextSessionId = (all.length + 1) % 2 ^ 64
  conns : (all.map Session.conn ++ refused.map Prod.fst).Nodup
  conns_lt : ∀ c ∈ all.map Session.conn ++ refused.map Prod.fst, c < os.nextConn
  busy : ∀ e ∈ refused, e.2 <+: buildAck .busy (str "сервер перегружен")

namespace Numbers

variable {L L' : List Session} {refused : List (ℕ × Bytes)} {next : ℕ} {os os' : Os}
  {s s' : Session}

theorem perm (h : Numbers L refused next os) (hperm : L.Perm L') : Numbers L' refused next os where
  ids := by
    rw [← hperm.length_eq]
    exact (hperm.symm.map _).trans h.ids
  next := by rw [← hperm.length_eq]; exact h.next
  conns := ((hperm.map _).append_right _).nodup_iff.mp h.conns
  conns_lt := fun c hc => h.conns_lt c (((hperm.map _).append_right _).mem_iff.mpr hc)
  busy := h.busy

/-- No connection has come. -/
theorem of_nextConn (h : Numbers L refused next os) (hos : os'.nextConn = os.nextConn) :
    Numbers L refused next os' where
  ids := h.ids
  next := h.next
  conns := h.conns
  conns_lt := by rw [hos]; exact h.conns_lt
  busy := h.busy

/-- A session keeps its numbers. -/
theorem replace (h : Numbers (s :: L) refused next os) (hid : s'.id = s.id)
    (hconn : s'.conn = s.conn) (hos : os'.nextConn = os.nextConn) :
    Numbers (s' :: L) refused next os' where
  ids := by simpa only [List.map_cons, hid, List.length_cons] using h.ids
  next := h.next
  conns := by simpa only [List.map_cons, hconn] using h.conns
  conns_lt := by simpa only [List.map_cons, hconn, hos] using h.conns_lt
  busy := h.busy

/-- A new session takes the next numbers. -/
theorem enter (h : Numbers L refused next os) (hid : s.id = next) (hconn : s.conn = os.nextConn)
    (hos : os'.nextConn = os.nextConn + 1) :
    Numbers (s :: L) refused ((next + 1) % 2 ^ 64) os' where
  ids := by
    rw [List.map_cons, List.length_cons, List.range_succ, List.map_append, List.map_singleton, hid,
      h.next]
    exact (List.perm_append_singleton _ _).symm.trans (h.ids.append_right _)
  next := by
    rw [List.length_cons, h.next, Nat.mod_add_mod]
  conns := by
    rw [List.map_cons, List.cons_append, List.nodup_cons, hconn]
    exact ⟨fun hc => Nat.lt_irrefl _ (h.conns_lt _ hc), h.conns⟩
  conns_lt := by
    rw [List.map_cons, List.cons_append, List.forall_mem_cons, hconn, hos]
    exact ⟨Nat.lt_succ_self _, fun c hc => Nat.lt_succ_of_lt (h.conns_lt c hc)⟩
  busy := h.busy

/-- A refused connection has a number, too. -/
theorem refuse (h : Numbers L refused next os) {sent : Bytes}
    (hsent : sent <+: buildAck .busy (str "сервер перегружен"))
    (hos : os'.nextConn = os.nextConn + 1) :
    Numbers L ((os.nextConn, sent) :: refused) next os' where
  ids := h.ids
  next := h.next
  conns := by
    rw [List.map_cons, List.perm_middle.nodup_iff, List.nodup_cons]
    exact ⟨fun hc => Nat.lt_irrefl _ (h.conns_lt _ hc), h.conns⟩
  conns_lt := by
    intro c hc
    rw [List.map_cons, List.perm_middle.mem_iff, List.mem_cons] at hc
    rw [hos]
    rcases hc with rfl | hc
    · exact Nat.lt_succ_self _
    · exact Nat.lt_succ_of_lt (h.conns_lt c hc)
  busy := List.forall_mem_cons.mpr ⟨hsent, h.busy⟩

/-- Up to 2^64 sessions the ids are different. -/
theorem nodup (h : Numbers L refused next os) (hlen : L.length ≤ 2 ^ 64) :
    (L.map Session.id).Nodup := by
  rw [h.ids.nodup_iff]
  refine (List.nodup_map_iff_inj_on List.nodup_range).mpr fun j hj k hk heq => ?_
  rw [List.mem_range] at hj hk
  omega

end Numbers

namespace Server

/-! ### What holds between two events -/

/-- The sessions under other descriptors. -/
def others (srv : Server) (fd : ℕ) : List Session :=
  (srv.sessions.erase fd).entries.map fun e => e.2.session

theorem live_perm {srv : Server} {fd : ℕ} {e : Entry} (he : srv.sessions.lookup fd = some e) :
    srv.live.Perm (e.session :: srv.others fd) := by
  have hmem : fd ∈ srv.sessions.entries.keys :=
    AList.lookup_isSome.mp (by rw [he]; rfl)
  obtain ⟨b, l₁, l₂, -, hl, hk⟩ := List.exists_of_kerase hmem
  obtain rfl : e = b := by
    have hb : b ∈ srv.sessions.lookup fd := AList.mem_lookup_iff.mpr (by rw [hl]; simp)
    rw [he] at hb
    exact Option.some.inj hb
  show (srv.sessions.entries.map _).Perm (_ :: (srv.sessions.entries.kerase fd).map _)
  rw [hk, hl]
  exact (List.perm_middle.map fun e : Sigma fun _ : ℕ => Entry => e.2.session)

theorem all_perm {srv : Server} {fd : ℕ} {e : Entry} (he : srv.sessions.lookup fd = some e) :
    srv.all.Perm (e.session :: (srv.others fd ++ srv.gone)) :=
  (live_perm he).append_right srv.gone

theorem mem_live {srv : Server} {s : Session} :
    s ∈ srv.live ↔ ∃ fd e, srv.sessions.lookup fd = some e ∧ e.session = s := by
  simp only [live, List.mem_map, Sigma.exists, ← AList.mem_lookup_iff, Option.mem_def]

/-- What holds of the server between two events, but for the descriptor `dirty`
that it is working on. Its sessions have come from those of `b`, when the
directory was in order. -/
structure Good (os₀ : Os) (b : List Session × Os) (srv : Server) (os : Os) (dirty : Option ℕ) :
    Prop where
  base : Disk srv.config.outDir os₀ b.1 b.2
  evolved : Evolves srv.config.outDir b (srv.all, os)
  live : ∀ s ∈ srv.live, s.Inv os
  gone : ∀ s ∈ srv.gone, s.writer.Closed
  numbers : Numbers srv.all srv.refused srv.nextSessionId os
  table : Table srv.listenerFd srv.signalFd srv.sessions os dirty
  size : srv.sessions.keys.length ≤ srv.config.maxSessions
  listening : srv.ended = false →
    os.fds srv.listenerFd = some .other ∧ os.fds srv.signalFd = some .other
  ended : srv.ended = true → srv.sessions = ∅

namespace Good

variable {os₀ os os' : Os} {b : List Session × Os} {srv : Server} {fd : ℕ} {d : Option ℕ}
  {e : Entry}

theorem disk (h : Good os₀ b srv os d) : Disk srv.config.outDir os₀ srv.all os :=
  h.base.evolves h.evolved

theorem lasting (h : Good os₀ b srv os d) (he : srv.sessions.lookup fd = some e) :
    e.session.Lasting os :=
  h.disk.lasting _ (List.mem_append_left _ (mem_live.mpr ⟨fd, e, he, rfl⟩))

theorem sound (h : Good os₀ b srv os d) (he : srv.sessions.lookup fd = some e) :
    e.session.Sound os :=
  ⟨h.live _ (mem_live.mpr ⟨fd, e, he, rfl⟩), h.disk.wf, (h.lasting he).quiet, (h.lasting he).calls⟩

/-- The session under `fd` moves: what that is to all, and to the others in the
table. -/
theorem move (h : Good os₀ b srv os d) (he : srv.sessions.lookup fd = some e) {s' : Session}
    (hm : e.session.Moves os s' os') (hs' : s'.Lasting os') :
    Evolves srv.config.outDir b (s' :: (srv.others fd ++ srv.gone), os') ∧
      ∀ t ∈ srv.others fd, t.Inv os' := by
  have hdisk := h.disk.perm (all_perm he)
  refine ⟨(h.evolved.tail (.perm (all_perm he))).tail (.move hm hs'), fun t ht => ?_⟩
  have ho := hdisk.others hm (List.mem_append_left _ ht)
  have hlive := h.live t ((live_perm he).mem_iff.mpr (List.mem_cons_of_mem _ ht))
  exact hlive.of_same ho.own ho.published

theorem not_ended (h : Good os₀ b srv os d) (he : srv.sessions.lookup fd = some e) :
    srv.ended = false := by
  by_contra hend
  rw [h.ended (by simpa using hend), AList.lookup_empty] at he
  cases he

/-- The session under `fd` takes a turn, and its entry is not in order yet. -/
theorem turn (h : Good os₀ b srv os d) (hd : ∀ f, f ≠ fd → d ≠ some f)
    (he : srv.sessions.lookup fd = some e) (e' : Entry) (ht : e.session.Turn os e'.session os') :
    Good os₀ b (srv.update fd e') os' (some fd) := by
  obtain ⟨hevolved, hothers⟩ := h.move he ht.moves (ht.sound.lasting ht.tracks)
  refine ⟨h.base, hevolved, List.forall_mem_cons.mpr ⟨ht.sound.inv, hothers⟩, h.gone, ?_,
    h.table.turn hd he ht.sockets ht.moves.fd ht.moves.conn, ?_, fun hend => ?_, fun hend => ?_⟩
  · exact (h.numbers.perm (all_perm he)).replace ht.moves.id ht.moves.conn ht.sockets.nextConn
  · have hmem : fd ∈ srv.sessions.keys := AList.lookup_isSome.mp (by rw [he]; rfl)
    have hpos := List.length_pos_of_mem hmem
    have hsize := h.size
    show (srv.sessions.insert fd e').keys.length ≤ srv.config.maxSessions
    rw [AList.keys_insert, List.length_cons, List.length_erase_of_mem hmem]
    omega
  · obtain ⟨hl, hg⟩ := h.listening hend
    exact ⟨(ht.sockets.fds _ _ (by simp)).mpr hl, (ht.sockets.fds _ _ (by simp)).mpr hg⟩
  · have := h.not_ended he
    change srv.ended = true at hend
    rw [this] at hend
    cases hend

/-- The session under `fd` leaves the table, destroyed. -/
theorem leave (h : Good os₀ b srv os d) (hd : ∀ f, f ≠ fd → d ≠ some f)
    (he : srv.sessions.lookup fd = some e) {s' : Session} (hm : e.session.Moves os s' os')
    (hs' : s'.Lasting os') (hclosed : s'.writer.Closed) (hc : Os.Closes fd os os') :
    Good os₀ b { srv with sessions := srv.sessions.erase fd, gone := s' :: srv.gone } os' none := by
  obtain ⟨hevolved, hothers⟩ := h.move he hm hs'
  have hperm : (s' :: (srv.others fd ++ srv.gone)).Perm (srv.others fd ++ s' :: srv.gone) :=
    List.perm_middle.symm
  refine ⟨h.base, hevolved.tail (.perm hperm), hothers,
    List.forall_mem_cons.mpr ⟨hclosed, h.gone⟩, ?_, h.table.closed hd hc, ?_, fun hend => ?_,
    fun hend => ?_⟩
  · exact ((h.numbers.perm (all_perm he)).replace hm.id hm.conn hc.nextConn).perm hperm
  · show (srv.sessions.erase fd).keys.length ≤ srv.config.maxSessions
    rw [AList.keys_erase]
    exact Nat.le_trans List.length_erase_le h.size
  · obtain ⟨hl, hg⟩ := h.listening hend
    exact ⟨(hc.fds _ _ (by simp)).mpr ⟨(h.table.ne_of_other he hl).symm, hl⟩,
      (hc.fds _ _ (by simp)).mpr ⟨(h.table.ne_of_other he hg).symm, hg⟩⟩
  · have := h.not_ended he
    change srv.ended = true at hend
    rw [this] at hend
    cases hend

/-- Something has happened that is not about files. -/
theorem sockets (h : Good os₀ b srv os d) (hsame : os.SameFiles os')
    (hconn : os'.nextConn = os.nextConn) {d' : Option ℕ}
    (htable : Table srv.listenerFd srv.signalFd srv.sessions os' d')
    (hlistening : srv.ended = false →
      os'.fds srv.listenerFd = some .other ∧ os'.fds srv.signalFd = some .other) :
    Good os₀ b srv os' d' where
  base := h.base
  evolved := h.evolved.tail (.sockets hsame)
  live := fun s hs => (h.live s hs).of_same (fun i _ => hsame.file i) fun _ i _ => hsame.file i
  gone := h.gone
  numbers := h.numbers.of_nextConn hconn
  table := htable
  size := h.size
  listening := hlistening
  ended := h.ended

/-- A stray event: the descriptor is not in the table. -/
theorem epollDel (h : Good os₀ b srv os none) (he : srv.sessions.lookup fd = none) :
    Good os₀ b srv (os.epollDel fd) none := by
  refine h.sockets (.epollDel os fd) rfl ⟨h.table.entry, h.table.synced, fun f hf hl hg => ?_,
    h.table.sockets⟩ h.listening
  rw [Os.epollDel_epoll]
  split
  · rename_i hfd
    rw [hfd, he, Option.map_none]
  · exact h.table.epoll f hf hl hg

/-- The entry of `fd` is in order again. -/
theorem clean (h : Good os₀ b srv os (some fd)) (he : srv.sessions.lookup fd = some e)
    (hev : e.events = e.session.interest) (hlive : e.session.terminated = false)
    (hepoll : os.epoll fd = some e.events) : Good os₀ b srv os none :=
  h.sockets (.refl os) rfl (h.table.clean he hev hlive hepoll) h.listening

/-- The entry of `fd` is in order again after `epoll_ctl`. -/
theorem registered (h : Good os₀ b srv os (some fd)) (he : srv.sessions.lookup fd = some e)
    (hev : e.events = e.session.interest) (hlive : e.session.terminated = false) :
    Good os₀ b srv (os.setInterest fd e.events) none :=
  (h.sockets (.setInterest os fd e.events) rfl (h.table.setInterest e.events) h.listening).clean he
    hev hlive (by rw [Os.setInterest_epoll, if_pos rfl])

end Good

/-! ### The functions of the server -/

/-- What no function of the server changes before the end of `run`. -/
structure Fixed (srv srv' : Server) : Prop where
  config : srv'.config = srv.config
  listenerFd : srv'.listenerFd = srv.listenerFd
  signalFd : srv'.signalFd = srv.signalFd
  ended : srv'.ended = srv.ended

section Fixed

variable {srv srv' srv'' : Server}

theorem Fixed.refl (srv : Server) : srv.Fixed srv := ⟨rfl, rfl, rfl, rfl⟩

theorem Fixed.trans (h : srv.Fixed srv') (h' : srv'.Fixed srv'') : srv.Fixed srv'' :=
  ⟨h'.config.trans h.config, h'.listenerFd.trans h.listenerFd, h'.signalFd.trans h.signalFd,
    h'.ended.trans h.ended⟩

theorem update_fixed (srv : Server) (fd : ℕ) (e : Entry) : srv.Fixed (srv.update fd e) :=
  ⟨rfl, rfl, rfl, rfl⟩

theorem closeSession_fixed (srv : Server) (os : Os) (fd : ℕ) (reason : Bytes) :
    srv.Fixed (srv.closeSession os fd reason).1 := by
  rw [closeSession]
  split <;> exact ⟨rfl, rfl, rfl, rfl⟩

theorem eraseSession_fixed (srv : Server) (os : Os) (fd : ℕ) :
    srv.Fixed (srv.eraseSession os fd).1 := by
  rw [eraseSession]
  split <;> exact ⟨rfl, rfl, rfl, rfl⟩

theorem acceptOne_fixed (srv : Server) (os : Os) (c : Incoming) (conn : ℕ) :
    srv.Fixed (srv.acceptOne os c conn).1 := by
  rw [acceptOne]
  split
  · exact ⟨rfl, rfl, rfl, rfl⟩
  dsimp only
  split
  · exact ⟨rfl, rfl, rfl, rfl⟩
  · rw [emplace]
    split <;> exact ⟨rfl, rfl, rfl, rfl⟩

theorem acceptConnections_fixed (srv : Server) (os : Os) (cs : List Incoming) :
    srv.Fixed (srv.acceptConnections os cs).1 := by
  induction cs generalizing srv os with
  | nil => exact .refl srv
  | cons c cs ih =>
    rw [acceptConnections]
    split
    · exact .refl srv
    · exact (acceptOne_fixed srv _ c _).trans (ih _ _)

theorem handleSession_fixed (srv : Server) (sys : Sys) (ev : Event) :
    srv.Fixed (srv.handleSession sys ev).1 := by
  rw [handleSession]
  split
  · exact .refl srv
  split
  · exact (update_fixed srv _ _).trans (closeSession_fixed _ _ _ _)
  dsimp only
  split
  · split
    · exact (update_fixed srv _ _).trans (closeSession_fixed _ _ _ _)
    · exact ⟨rfl, rfl, rfl, rfl⟩
  · exact ⟨rfl, rfl, rfl, rfl⟩

theorem dispatch_fixed (srv : Server) (sys : Sys) (ev : Event) :
    srv.Fixed (srv.dispatch sys ev).1 := by
  rw [dispatch]
  split
  · exact acceptConnections_fixed _ _ _
  split
  · exact ⟨rfl, rfl, rfl, rfl⟩
  · exact handleSession_fixed _ _ _

end Fixed

section Functions

variable {os₀ os os' : Os} {b : List Session × Os} {srv : Server} {fd : ℕ} {d : Option ℕ}
  {e : Entry}

/-- Nobody else than the descriptor in hand is dirty. -/
theorem none_ne (fd : ℕ) : ∀ f, f ≠ fd → (none : Option ℕ) ≠ some f := fun _ _ => by simp

theorem some_ne (fd : ℕ) : ∀ f, f ≠ fd → some fd ≠ some f := fun _ hf => by simpa using hf.symm

/-- A session that leaves the table is destroyed. -/
theorem drop_good (h : Good os₀ b srv os d) (hd : ∀ f, f ≠ fd → d ≠ some f)
    (he : srv.sessions.lookup fd = some e) {s : Session} {os₁ os₂ : Os}
    (ht : e.session.Turn os s os₁) (hsame : os₁.SameFiles os₂)
    (hclose : os₂.close fd = os₁.close fd) (hfds : os₂.fds = os₁.fds) {r : Server × Os}
    (hrun : ({ srv with sessions := srv.sessions.erase fd } : Server).drop os₂ s = r) :
    Good os₀ b r.1 r.2 none := by
  obtain ⟨hfd, hopen⟩ := h.table.entry fd e he
  have hs : s.fd = fd := ht.moves.fd.trans hfd
  have hsound := ht.sound.of_others (Session.others_of_sameFiles hsame)
  have hnofile : ∀ i, os₂.fds s.fd ≠ some (.file i) := by
    intro i hi
    rw [hs, hfds, (ht.sockets.fds _ _ (by simp)).mpr hopen] at hi
    cases hi
  obtain ⟨hm, hlast, hclosed, hsock⟩ := hsound.destroyed ht.tracks hnofile rfl
  rw [hs, hclose] at hsock
  rw [← hrun]
  exact h.leave hd he ((ht.moves.trans (.of_sameFiles ht.sound.wf hsame)).trans hm) hlast
    hclosed (ht.sockets.closes hsock)

theorem closeSession_good (h : Good os₀ b srv os d) (hd : ∀ f, f ≠ fd → d ≠ some f)
    (he : srv.sessions.lookup fd = some e) (reason : Bytes) {r : Server × Os}
    (hrun : srv.closeSession os fd reason = r) : Good os₀ b r.1 r.2 none := by
  simp only [closeSession, he] at hrun
  exact drop_good h hd he ((h.sound he).terminate_turn (h.lasting he).tracks rfl)
    (.epollDel _ fd) (Os.epollDel_close _ fd) rfl hrun

theorem closeSession_good' (h : Good os₀ b srv os none) (fd : ℕ) (reason : Bytes) {r : Server × Os}
    (hrun : srv.closeSession os fd reason = r) : Good os₀ b r.1 r.2 none := by
  cases he : srv.sessions.lookup fd with
  | none =>
    simp only [closeSession, he] at hrun
    rw [← hrun]
    exact h
  | some e => exact closeSession_good h (none_ne fd) he reason hrun

theorem eraseSession_good (h : Good os₀ b srv os none) (fd : ℕ) {r : Server × Os}
    (hrun : srv.eraseSession os fd = r) : Good os₀ b r.1 r.2 none := by
  cases he : srv.sessions.lookup fd with
  | none =>
    simp only [eraseSession, he] at hrun
    rw [← hrun]
    exact h
  | some e =>
    simp only [eraseSession, he] at hrun
    have hsound := h.sound he
    exact drop_good h (none_ne fd) he
      ⟨.refl hsound.wf, hsound, (h.lasting he).tracks, .refl os⟩ (.refl os) rfl rfl hrun

theorem handleSession_good {sys : Sys} (h : Good os₀ b srv sys.os none) {ev : Event}
    (hl : ev.fd ≠ srv.listenerFd) (hg : ev.fd ≠ srv.signalFd) {r : Server × Os}
    (hrun : srv.handleSession sys ev = r) : Good os₀ b r.1 r.2 none := by
  rw [handleSession] at hrun
  split at hrun
  · rename_i he
    rw [← hrun]
    exact h.epollDel he
  rename_i e he
  obtain ⟨hev, hlive⟩ := h.table.synced ev.fd e (by simp) he
  have hepoll := h.table.epoll ev.fd (by simp) hl hg
  rw [he, Option.map_some] at hepoll
  have hturn : ∀ r, e.session.handle sys ev.events ev.reads = r → _ := fun r hr =>
    (h.sound he).handle_turn (h.lasting he).tracks hlive hr
  split at hrun
  · -- the session is done
    rename_i s sys' hs
    have h₁ := h.turn (none_ne ev.fd) he { e with session := s } (hturn _ hs).1
    exact closeSession_good h₁ (some_ne ev.fd) (AList.lookup_insert _) _ hrun
  · rename_i s sys' hs
    obtain ⟨ht, hlive'⟩ := hturn _ hs
    have h₁ := h.turn (none_ne ev.fd) he { e with session := s } ht
    have he₁ : (srv.update ev.fd { e with session := s }).sessions.lookup ev.fd =
        some { e with session := s } := AList.lookup_insert _
    obtain ⟨hfd, hopen⟩ := h₁.table.entry _ _ he₁
    have hepoll' : sys'.os.epoll ev.fd = some e.events := by
      rw [ht.sockets.epoll ev.fd _ (by simp) (h.table.entry _ e he).2]
      exact hepoll
    dsimp only at hrun
    split at hrun
    · -- the session waits for something else now
      rename_i hne
      cases hmod : sys'.os.epollMod ev.fd s.interest ev.modFault with
      | mk ok os' =>
        rw [hmod] at hrun
        rw [Os.epollMod] at hmod
        split at hmod <;> cases hmod
        · exact closeSession_good h₁ (some_ne ev.fd) he₁ _ hrun
        · have h₂ := h.turn (none_ne ev.fd) he { session := s, events := s.interest } ht
          have heq : (srv.update ev.fd { e with session := s }).update ev.fd
              { session := s, events := s.interest } =
                srv.update ev.fd { session := s, events := s.interest } := by
            rw [update, update, update, AList.insert_insert]
          rw [← hrun]
          dsimp only
          rw [heq]
          exact h₂.registered (AList.lookup_insert _) rfl (hlive' rfl)
    · rename_i heq
      rw [← hrun]
      exact h₁.clean he₁ (not_not.mp heq).symm (hlive' rfl) hepoll'

theorem erase_of_lookup {m : SessionTable} (he : m.lookup fd = none) : m.erase fd = m :=
  AList.ext (List.kerase_of_notMem_keys (AList.lookup_eq_none.mp he))

theorem live_update_new (srv : Server) (hnew : srv.sessions.lookup fd = none) (e : Entry) :
    (srv.update fd e).live = e.session :: srv.live := by
  show e.session :: (srv.sessions.erase fd).entries.map _ = _
  rw [erase_of_lookup hnew]
  rfl

/-- The descriptor of a new connection is not in use by the server. -/
theorem Good.listening_connect (h : Good os₀ b srv os none) (hfd : os.fds fd = none)
    (hend : srv.ended = false) : fd ≠ srv.listenerFd ∧ fd ≠ srv.signalFd := by
  obtain ⟨hl, hg⟩ := h.listening hend
  refine ⟨fun heq => ?_, fun heq => ?_⟩
  · rw [← heq, hfd] at hl
    cases hl
  · rw [← heq, hfd] at hg
    cases hg

section AcceptOne

variable {c : Incoming} (h : Good os₀ b srv os none) (hfd : os.fds c.fd = none)

include h hfd

/-- What is still right while a connection is refused, or its session dropped:
the table, when the descriptor is closed again. -/
theorem table_disconnect {os' : Os} (hc : Os.Closes c.fd (os.connect c.fd) os') :
    Table srv.listenerFd srv.signalFd srv.sessions os' none := by
  have htable := (h.table.connect hfd).closed (some_ne c.fd) hc
  rwa [erase_of_lookup (h.table.lookup_of_unused hfd)] at htable

theorem listening_disconnect (hend : srv.ended = false) {os' : Os}
    (hc : Os.Closes c.fd (os.connect c.fd) os') :
    os'.fds srv.listenerFd = some .other ∧ os'.fds srv.signalFd = some .other := by
  obtain ⟨hl, hg⟩ := h.listening hend
  obtain ⟨hnl, hng⟩ := h.listening_connect hfd hend
  refine ⟨(hc.fds _ _ (by simp)).mpr ⟨hnl.symm, ?_⟩, (hc.fds _ _ (by simp)).mpr ⟨hng.symm, ?_⟩⟩
  · rw [Os.connect_fds, if_neg hnl.symm]
    exact hl
  · rw [Os.connect_fds, if_neg hng.symm]
    exact hg

theorem acceptOne_good (hend : srv.ended = false) {r : Server × Os}
    (hrun : srv.acceptOne (os.connect c.fd) c os.nextConn = r) : Good os₀ b r.1 r.2 none := by
  have hopen : (os.connect c.fd).fds c.fd = some (.socket os.nextConn) := by simp
  have hnofile : ∀ i, (os.connect c.fd).fds c.fd ≠ some (.file i) := by
    intro i
    rw [hopen]
    simp
  have hsame := Os.SameFiles.connect hfd
  have hnew := h.table.lookup_of_unused hfd
  rw [acceptOne] at hrun
  split at hrun
  · -- refused
    have hclose := Os.SameFiles.close hnofile
    have hc : Os.Closes c.fd (os.connect c.fd) ((os.connect c.fd).close c.fd) :=
      (Os.KeepsSockets.refl _).closes (.refl _)
    rw [← hrun]
    exact ⟨h.base, h.evolved.tail (.sockets (hsame.trans hclose)),
      fun s hs => (h.live s hs).of_same (fun i _ => (hsame.trans hclose).file i)
        fun _ i _ => (hsame.trans hclose).file i,
      h.gone, h.numbers.refuse (c.send.taken_front _) rfl, table_disconnect h hfd hc, h.size,
      fun _ => listening_disconnect h hfd hend hc, h.ended⟩
  rename_i hsize
  set s := Session.create srv.nextSessionId c.fd os.nextConn srv.config.outDir c.now with hs
  have hsound : s.Sound (os.connect c.fd) := Session.create_sound _ _ _ _ _ (hsame.wf h.disk.wf)
  have htracks : s.Tracks := Session.create_tracks _ _ _ _ _
  have hevolved : Evolves srv.config.outDir b (s :: srv.all, os.connect c.fd) :=
    (h.evolved.tail (.sockets hsame)).tail (.enter _ _ _ _)
  have hlive : ∀ t ∈ srv.live, t.Inv (os.connect c.fd) := fun t ht =>
    (h.live t ht).of_same (fun i _ => hsame.file i) fun _ i _ => hsame.file i
  have hnumbers : Numbers (s :: srv.all) srv.refused ((srv.nextSessionId + 1) % 2 ^ 64)
      (os.connect c.fd) := h.numbers.enter rfl rfl rfl
  dsimp only at hrun
  cases hadd : (os.connect c.fd).epollAdd c.fd s.interest c.addFault with
  | mk ok os' =>
    rw [hadd] at hrun
    rw [Os.epollAdd] at hadd
    split at hadd <;> cases hadd
    · -- the session is dropped before it is in the table
      obtain ⟨hm, hlast, hclosed, hsock⟩ := hsound.destroyed htracks hnofile rfl
      have hc := (Os.KeepsSockets.refl _).closes hsock
      rw [← hrun]
      refine ⟨h.base, (hevolved.tail (.move hm hlast)).tail (.perm List.perm_middle.symm),
        fun t ht => ?_, List.forall_mem_cons.mpr ⟨hclosed, h.gone⟩,
        (hnumbers.replace hm.id hm.conn hc.nextConn).perm List.perm_middle.symm,
        table_disconnect h hfd hc, h.size, fun _ => listening_disconnect h hfd hend hc, h.ended⟩
      have ho := (h.base.evolves hevolved).others hm (List.mem_append_left _ ht)
      exact (hlive t ht).of_same ho.own ho.published
    · set e : Entry := { session := s, events := s.interest } with he
      set srv₁ : Server := { srv with nextSessionId := (srv.nextSessionId + 1) % 2 ^ 64 } with hsrv₁
      have hinterest := Os.SameFiles.setInterest (os.connect c.fd) c.fd s.interest
      have htable :=
        (((h.table.connect hfd).setInterest s.interest).emplace (e := e) rfl hopen).clean
        (AList.lookup_insert _) rfl rfl (by rw [Os.setInterest_epoll, if_pos rfl])
      have hlisten : ∀ f, os.fds f = some .other →
          ((os.connect c.fd).setInterest c.fd s.interest).fds f = some .other := by
        intro f hf
        have hne : f ≠ c.fd := by
          intro heq
          rw [heq, hfd] at hf
          cases hf
        rw [Os.setInterest_fds, Os.connect_fds, if_neg hne]
        exact hf
      have hlive₁ : (srv₁.update c.fd e).live = s :: srv.live :=
        live_update_new srv₁ hnew e
      have hall : (srv₁.update c.fd e).all = s :: srv.all := by
        rw [all, hlive₁]
        rfl
      dsimp only at hrun
      rw [emplace, if_neg (AList.lookup_eq_none.mp hnew)] at hrun
      rw [← hrun]
      refine ⟨h.base, ?_, fun t ht => ?_, h.gone, ?_, htable, ?_, fun hend => ?_, fun hend' => ?_⟩
      · dsimp only
        rw [hall]
        exact hevolved.tail (.sockets hinterest)
      · rw [hlive₁] at ht
        rcases List.mem_cons.mp ht with rfl | ht
        · exact (hsound.of_others (Session.others_of_sameFiles hinterest)).inv
        · exact (hlive t ht).of_same (fun i _ => hinterest.file i) fun _ i _ => hinterest.file i
      · dsimp only
        rw [hall]
        exact hnumbers.of_nextConn rfl
      · show (srv.sessions.insert c.fd e).keys.length ≤ srv.config.maxSessions
        have hmem : c.fd ∉ srv.sessions.keys := AList.lookup_eq_none.mp hnew
        rw [AList.keys_insert, List.erase_of_not_mem hmem, List.length_cons]
        omega
      · exact ⟨hlisten _ (h.listening hend).1, hlisten _ (h.listening hend).2⟩
      · change srv.ended = true at hend'
        rw [hend] at hend'
        cases hend'

end AcceptOne

theorem acceptConnections_good (h : Good os₀ b srv os none) (hend : srv.ended = false)
    {cs : List Incoming} {r : Server × Os} (hrun : srv.acceptConnections os cs = r) :
    Good os₀ b r.1 r.2 none := by
  induction cs generalizing srv os with
  | nil =>
    rw [← hrun]
    exact h
  | cons c cs ih =>
    rw [acceptConnections] at hrun
    by_cases hfd : os.fds c.fd = none
    · have haccept : os.accept c.fd = some (os.nextConn, os.connect c.fd) := by
        rw [Os.accept, hfd]
        rfl
      simp only [haccept] at hrun
      exact ih (acceptOne_good h hfd hend rfl) ((acceptOne_fixed srv _ c _).ended.trans hend) hrun
    · have haccept : os.accept c.fd = none := by
        rw [Os.accept, if_pos (Option.isSome_iff_ne_none.mpr hfd)]
      simp only [haccept] at hrun
      rw [← hrun]
      exact h

theorem dispatch_good {sys : Sys} (h : Good os₀ b srv sys.os none) (hend : srv.ended = false)
    {ev : Event} {r : Server × Os} (hrun : srv.dispatch sys ev = r) : Good os₀ b r.1 r.2 none := by
  rw [dispatch] at hrun
  split at hrun
  · exact acceptConnections_good h hend hrun
  split at hrun
  · rw [← hrun]
    exact ⟨h.base, h.evolved, h.live, h.gone, h.numbers, h.table, h.size, h.listening, h.ended⟩
  · exact handleSession_good h ‹_› ‹_› hrun

theorem closeSessions_good (h : Good os₀ b srv os none) (fds : List ℕ) (reason : Bytes) :
    Good os₀ b (fds.foldl (fun (p : Server × Os) fd => p.1.closeSession p.2 fd reason) (srv, os)).1
      (fds.foldl (fun (p : Server × Os) fd => p.1.closeSession p.2 fd reason) (srv, os)).2
      none := by
  induction fds generalizing srv os with
  | nil => exact h
  | cons fd fds ih => exact ih (closeSession_good' h fd reason rfl)

theorem closeSessions_fixed (srv : Server) (os : Os) (fds : List ℕ) (reason : Bytes) :
    srv.Fixed
      (fds.foldl (fun (p : Server × Os) fd => p.1.closeSession p.2 fd reason) (srv, os)).1 := by
  induction fds generalizing srv os with
  | nil => exact .refl srv
  | cons fd fds ih => exact (closeSession_fixed srv os fd reason).trans (ih _ _)

theorem sweepIdle_good (h : Good os₀ b srv os none) {now : ℤ} {order : List ℕ} {r : Server × Os}
    (hrun : srv.sweepIdle os now order = r) : Good os₀ b r.1 r.2 none := by
  rw [← hrun]
  exact closeSessions_good h _ _

theorem eraseSession_lookup (srv : Server) (os : Os) (fd f : ℕ) :
    (srv.eraseSession os fd).1.sessions.lookup f =
      if f = fd then none else srv.sessions.lookup f := by
  rw [eraseSession]
  split
  · rename_i he
    split
    · rename_i hf
      rw [hf]
      exact he
    · rfl
  · show (srv.sessions.erase fd).lookup f = _
    split
    · rename_i hf
      rw [hf, AList.lookup_erase]
    · rename_i hf
      rw [AList.lookup_erase_ne hf]

theorem clear_good (h : Good os₀ b srv os none) (fds : List ℕ) :
    Good os₀ b (fds.foldl (fun (p : Server × Os) fd => p.1.eraseSession p.2 fd) (srv, os)).1
      (fds.foldl (fun (p : Server × Os) fd => p.1.eraseSession p.2 fd) (srv, os)).2 none := by
  induction fds generalizing srv os with
  | nil => exact h
  | cons fd fds ih => exact ih (eraseSession_good h fd rfl)

theorem clear_lookup (srv : Server) (os : Os) (fds : List ℕ) (f : ℕ) :
    (fds.foldl (fun (p : Server × Os) fd => p.1.eraseSession p.2 fd)
      (srv, os)).1.sessions.lookup f =
      if f ∈ fds then none else srv.sessions.lookup f := by
  induction fds generalizing srv os with
  | nil => simp
  | cons fd fds ih =>
    rw [List.foldl_cons, ih, eraseSession_lookup]
    by_cases hf : f = fd <;> by_cases hmem : f ∈ fds <;> simp [hf, hmem]

theorem clear_fixed (srv : Server) (os : Os) (fds : List ℕ) :
    srv.Fixed (fds.foldl (fun (p : Server × Os) fd => p.1.eraseSession p.2 fd) (srv, os)).1 := by
  induction fds generalizing srv os with
  | nil => exact .refl srv
  | cons fd fds ih => exact (eraseSession_fixed srv os fd).trans (ih _ _)

theorem shutdown_good (h : Good os₀ b srv os none) (hend : srv.ended = false) {order : List ℕ}
    (horder : order.Perm srv.sessions.keys) {r : Server × Os}
    (hrun : srv.shutdown os order = r) : Good os₀ b r.1 r.2 none := by
  have hclear := clear_good h order
  have hlookup := clear_lookup srv os order
  have hfixed := clear_fixed srv os order
  rw [shutdown] at hrun
  generalize order.foldl _ (srv, os) = p at hrun hclear hlookup hfixed
  obtain ⟨srv₁, os₁⟩ := p
  dsimp only at hclear hlookup hfixed
  have hempty : srv₁.sessions = ∅ := by
    refine AList.ext (List.eq_nil_iff_forall_not_mem.mpr fun e he => ?_)
    have hmem := hlookup e.1
    rw [AList.mem_lookup_iff.mpr he] at hmem
    split at hmem
    · cases hmem
    · rename_i hnot
      refine hnot (horder.mem_iff.mpr (AList.lookup_isSome.mp ?_))
      rw [← hmem]
      rfl
  have hother : os₁.fds srv₁.listenerFd = some .other :=
    (hclear.listening (hfixed.ended.trans hend)).1
  have hsame : os₁.SameFiles (os₁.close srv₁.listenerFd) := .close fun i => by
    rw [hother]
    simp
  have htable := hclear.table.closed (none_ne srv₁.listenerFd)
    ((Os.KeepsSockets.refl os₁).closes (.refl _))
  rw [hempty, erase_of_lookup (AList.lookup_empty _), ← hempty] at htable
  rw [← hrun]
  exact ⟨hclear.base, hclear.evolved.tail (.sockets hsame),
    fun s hs => (hclear.live s hs).of_same (fun i _ => hsame.file i) fun _ i _ => hsame.file i,
    hclear.gone, hclear.numbers.of_nextConn rfl, htable, hclear.size, fun hend => (by cases hend),
    fun _ => hempty⟩

end Functions

/-! ### Runs -/

section Runs

variable {os₀ : Os} {b : List Session × Os}

/-- **The step lemma**: whatever the server does next, the state is in order
again. -/
theorem Step.good {x y : Server × Os} (hstep : Step x y) (h : Good os₀ b x.1 x.2 none) :
    Good os₀ b y.1 y.2 none := by
  cases hstep with
  | dispatch srv sys ev hend => exact dispatch_good h hend rfl
  | sweepIdle srv os now order hend horder => exact sweepIdle_good h rfl
  | shutdown srv os order hend horder => exact shutdown_good h hend horder rfl

theorem Steps.good {x y : Server × Os} (hsteps : Steps x y) (h : Good os₀ b x.1 x.2 none) :
    Good os₀ b y.1 y.2 none := by
  induction hsteps with
  | refl => exact h
  | tail _ hstep ih => exact hstep.good ih

theorem good_create {l g : ℕ} (h : Ready os₀ l g) (config : ServerConfig) :
    Good os₀ ([], os₀) (create config l g) (registered os₀ l g) none where
  base := .nil h.wf config.outDir
  evolved :=
    .single (.sockets ((Os.SameFiles.setInterest os₀ l EPOLLIN).trans (.setInterest _ g EPOLLIN)))
  live := fun s hs => absurd hs List.not_mem_nil
  gone := fun s hs => absurd hs List.not_mem_nil
  numbers := ⟨.nil, rfl, .nil, fun c hc => absurd hc List.not_mem_nil,
    fun e he => absurd he List.not_mem_nil⟩
  table :=
    { entry := fun fd e he => by cases he
      synced := fun fd e _ he => by cases he
      epoll := by
        intro fd _ hl hg
        have hl' : fd ≠ l := hl
        have hg' : fd ≠ g := hg
        rw [registered, Os.setInterest_epoll, if_neg hg', Os.setInterest_epoll, if_neg hl', h.epoll]
        rfl
      sockets := fun fd c _ hf => absurd hf (h.sockets fd c) }
  size := Nat.zero_le _
  listening := fun _ => ⟨h.listener, h.signal⟩
  ended := fun hend => by cases hend

theorem Step.config_eq {x y : Server × Os} (hstep : Step x y) : y.1.config = x.1.config := by
  cases hstep with
  | dispatch srv sys ev hend => exact (dispatch_fixed srv sys ev).config
  | sweepIdle srv os now order hend horder => exact (closeSessions_fixed srv os _ _).config
  | shutdown srv os order hend horder => exact (clear_fixed srv os _).config

theorem reach_config {config : ServerConfig} {l g : ℕ} {srv : Server} {os : Os}
    (hreach : Reach config l g os₀ srv os) : srv.config = config := by
  have hsteps : ∀ {x y : Server × Os}, Steps x y → y.1.config = x.1.config := by
    intro x y hs
    induction hs with
    | refl => rfl
    | tail _ hstep ih => exact hstep.config_eq.trans ih
  exact hsteps hreach

/-- **Every reachable state is in order.** -/
theorem reach_good {config : ServerConfig} {l g : ℕ} {srv : Server} {os : Os} (h : Ready os₀ l g)
    (hreach : Reach config l g os₀ srv os) : Good os₀ ([], os₀) srv os none :=
  hreach.good (good_create h config)

/-- A session of the table, with what the server keeps of it. -/
structure Listed (srv : Server) (os : Os) (s : Session) : Prop where
  running : srv.ended = false
  entry : ∃ e, srv.sessions.lookup s.fd = some e ∧ e.session = s
  listener : s.fd ≠ srv.listenerFd
  signal : s.fd ≠ srv.signalFd
  epoll : os.epoll s.fd = some s.interest
  sound : s.Sound os
  live : s.terminated = false

theorem listed {config : ServerConfig} {l g : ℕ} {srv : Server} {os : Os} {s : Session}
    (h : Ready os₀ l g) (hreach : Reach config l g os₀ srv os) (hs : s ∈ srv.live) :
    Listed srv os s := by
  have hgood := reach_good h hreach
  obtain ⟨fd, e, he, rfl⟩ := mem_live.mp hs
  have hend : srv.ended = false := by
    by_contra hend
    rw [hgood.ended (by simpa using hend)] at he
    cases he
  obtain ⟨hlistener, hsignal⟩ := hgood.listening hend
  have hl := hgood.table.ne_of_other he hlistener
  have hg := hgood.table.ne_of_other he hsignal
  obtain ⟨hevents, hlive⟩ := hgood.table.synced fd e (by simp) he
  have hepoll := hgood.table.epoll fd (by simp) hl hg
  rw [he, Option.map_some, hevents] at hepoll
  obtain ⟨rfl, -⟩ := hgood.table.entry fd e he
  exact ⟨hend, ⟨e, he, rfl⟩, hl, hg, hepoll, hgood.sound he, hlive⟩

/-- **The table of the reactor**, in every state between two events:

* a key of the table is the descriptor of its session, and open; it is registered
  with the mask that the entry caches, which is what the session waits for;
* no other descriptor of a connection is registered, or even open: a connection
  that is not in the table has been closed;
* `accept` never gives a key of the table, and the table is never larger than
  allowed;
* the ids in the table are different, up to 2^64 sessions. -/
theorem reactor_table {config : ServerConfig} {l g : ℕ} {srv : Server} {os : Os}
    (h : Ready os₀ l g) (hreach : Reach config l g os₀ srv os) :
    (∀ fd e, srv.sessions.lookup fd = some e →
      e.session.fd = fd ∧ os.fds fd = some (.socket e.session.conn) ∧
        fd ≠ srv.listenerFd ∧ fd ≠ srv.signalFd ∧
        os.epoll fd = some e.events ∧ e.events = e.session.interest) ∧
    (∀ fd, fd ≠ srv.listenerFd → fd ≠ srv.signalFd →
      ((os.epoll fd).isSome ↔ fd ∈ srv.sessions)) ∧
    (∀ c, (∀ fd e, srv.sessions.lookup fd = some e → e.session.conn ≠ c) →
      ∀ fd, os.fds fd ≠ some (.socket c)) ∧
    (∀ fd, os.fds fd = none → fd ∉ srv.sessions) ∧
    srv.sessions.keys.length ≤ srv.config.maxSessions ∧
    (srv.all.length ≤ 2 ^ 64 → (srv.live.map Session.id).Nodup) := by
  have hgood := reach_good h hreach
  refine ⟨fun fd e he => ?_, fun fd hl hg => ?_, fun c hc fd hfd => ?_, fun fd hfd => ?_,
    hgood.size, fun hlen => ?_⟩
  · obtain ⟨hl, hg⟩ := hgood.listening (hgood.not_ended he)
    obtain ⟨hfd, hopen⟩ := hgood.table.entry fd e he
    have hnl := hgood.table.ne_of_other he hl
    have hng := hgood.table.ne_of_other he hg
    have hepoll := hgood.table.epoll fd (by simp) hnl hng
    rw [he, Option.map_some] at hepoll
    exact ⟨hfd, hopen, hnl, hng, hepoll, (hgood.table.synced fd e (by simp) he).1⟩
  · rw [hgood.table.epoll fd (by simp) hl hg, Option.isSome_map, AList.lookup_isSome]
  · obtain ⟨e, he, hconn⟩ := hgood.table.sockets fd c (by simp) hfd
    exact hc fd e he hconn
  · exact AList.lookup_eq_none.mp (hgood.table.lookup_of_unused hfd)
  · have hnodup := hgood.numbers.nodup hlen
    rw [all, List.map_append] at hnodup
    exact hnodup.of_append_left

/-- A server with one session. -/
theorem reactor_table_one_session :
    ∃ r : Server × Os,
      (create { outDir := str "in", idleTimeout := 30, maxSessions := 2 } 3 4).acceptConnections
        (registered (bare 1 3 4) 3 4) [{ fd := 5, now := 0 }] = r ∧
      ∃ e, r.1.sessions.lookup 5 = some e ∧ r.2.epoll 5 = some e.session.interest := by
  refine ⟨_, rfl, ?_⟩
  generalize hr : acceptConnections _ _ _ = r
  have hmem : (r.1.sessions.lookup 5).isSome := by rw [← hr]; decide +kernel
  have hstep := Step.accept
    (create { outDir := str "in", idleTimeout := 30, maxSessions := 2 } 3 4)
    (registered (bare 1 3 4) 3 4) [{ fd := 5, now := 0 }] rfl
  rw [hr] at hstep
  obtain ⟨e, he⟩ := Option.isSome_iff_exists.mp hmem
  obtain ⟨-, -, -, -, hepoll, hev⟩ := (reactor_table (ready_bare 1 3 4) (.single hstep)).1 5 e he
  exact ⟨e, he, hev ▸ hepoll⟩

/-- One session stays while the counter of the ids goes round: its id is 1, and
the next id is `k + 2`. -/
theorem ids_wrap (k : ℕ) :
    ∃ (srv : Server) (os : Os) (e : Entry),
      Reach { outDir := str "in", idleTimeout := 30, maxSessions := 2 } 3 4 (bare 1 3 4) srv os ∧
      srv.config.maxSessions = 2 ∧ srv.ended = false ∧
      srv.sessions = AList.singleton 5 e ∧ e.session.id = 1 ∧
      srv.nextSessionId = (k + 2) % 2 ^ 64 ∧ os.fds 6 = none := by
  induction k with
  | zero =>
    have hstep := Step.accept
      (create { outDir := str "in", idleTimeout := 30, maxSessions := 2 } 3 4)
      (registered (bare 1 3 4) 3 4) [{ fd := 5, now := 0 }] rfl
    exact ⟨_, _, _, .single hstep, rfl, rfl, rfl, rfl, rfl, rfl⟩
  | succ k ih =>
    obtain ⟨srv, os, e, hreach, hmax, hend, hsessions, hid, hnext, hfd⟩ := ih
    -- another connection comes, and `epoll_ctl` fails
    have hstep := Step.accept srv os [{ fd := 6, addFault := true, now := 0 }] hend
    have hsize : srv.sessions.keys.length = 1 := by rw [hsessions]; rfl
    have haccept : os.accept 6 = some (os.nextConn, os.connect 6) := by
      rw [Os.accept, hfd]
      rfl
    have hrun : srv.acceptConnections os [{ fd := 6, addFault := true, now := 0 }] =
        ({ srv with nextSessionId := (srv.nextSessionId + 1) % 2 ^ 64 } : Server).drop
          (os.connect 6) (Session.create srv.nextSessionId 6 os.nextConn srv.config.outDir 0) := by
      simp only [acceptConnections, haccept, acceptOne, hsize, hmax]
      rfl
    rw [hrun] at hstep
    refine ⟨_, _, e, hreach.tail hstep, hmax, hend, hsessions, hid, ?_, ?_⟩
    · show (srv.nextSessionId + 1) % 2 ^ 64 = _
      rw [hnext, Nat.mod_add_mod]
    · show ((os.connect 6).close 6).fds 6 = none
      simp

/-- The ids are not always different: after 2^64 connections the first id is
given out again. -/
theorem ids_repeat :
    ∃ (srv : Server) (os : Os),
      Reach { outDir := str "in", idleTimeout := 30, maxSessions := 2 } 3 4 (bare 1 3 4) srv os ∧
      ¬ (srv.live.map Session.id).Nodup := by
  obtain ⟨srv, os, e, hreach, hmax, hend, hsessions, hid, hnext, hfd⟩ := ids_wrap (2 ^ 64 - 1)
  have hgood := reach_good (ready_bare 1 3 4) hreach
  have hnew := hgood.table.lookup_of_unused hfd
  obtain ⟨hl, hg⟩ := hgood.listening_connect hfd hend
  have hepoll : os.epoll 6 = none := by
    rw [hgood.table.epoll 6 (by simp) hl hg, hnew, Option.map_none]
  have hsize : srv.sessions.keys.length = 1 := by rw [hsessions]; rfl
  have haccept : os.accept 6 = some (os.nextConn, os.connect 6) := by
    rw [Os.accept, hfd]
    rfl
  have hadd : (os.connect 6).epollAdd 6 EPOLLIN false =
      (true, (os.connect 6).setInterest 6 EPOLLIN) := by
    rw [Os.epollAdd, if_neg (by simp [hepoll])]
  set s := Session.create srv.nextSessionId 6 os.nextConn srv.config.outDir 0 with hs
  set srv₁ : Server := { srv with nextSessionId := (srv.nextSessionId + 1) % 2 ^ 64 } with hsrv₁
  have hrun : srv.acceptConnections os [{ fd := 6, now := 0 }] =
      (srv₁.update 6 { session := s, events := EPOLLIN },
        (os.connect 6).setInterest 6 EPOLLIN) := by
    have hinterest : s.interest = EPOLLIN := rfl
    simp only [acceptConnections, haccept, acceptOne, hsize, hmax, ← hs, hinterest, hadd, emplace]
    rw [if_neg (by decide), if_neg (AList.lookup_eq_none.mp hnew)]
  have hstep := Step.accept srv os [{ fd := 6, now := 0 }] hend
  rw [hrun] at hstep
  refine ⟨_, _, hreach.tail hstep, fun hnodup => ?_⟩
  -- the two sessions are in the table with the same id
  have hlive : (srv₁.update 6 { session := s, events := EPOLLIN }).live = s :: srv.live :=
    live_update_new srv₁ hnew _
  have hids : srv.live.map Session.id = [1] := by
    rw [live, hsessions, ← hid]
    rfl
  rw [hlive, List.map_cons, hids] at hnodup
  have hone : s.id = 1 := by
    show srv.nextSessionId = 1
    rw [hnext]
    rfl
  rw [hone] at hnodup
  exact absurd hnodup (by decide)

end Runs

end Server

end Nexus
