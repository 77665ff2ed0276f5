/-
How much the server keeps of what it is sent.

A session keeps the parse buffer, the answer that is being sent, and the name of the file.
None of them grows with what the client sends, and there are no more sessions than allowed,
so what the server keeps has a bound that is known when it starts.

* `Session.Stable.handle` — what every operation of a session keeps, an event keeps;
* `Server.FittingStep.origin` — where the sessions in the table come from;
* `Server.memory_bounded` — the bound.
-/
import Mathlib.Algebra.Order.BigOperators.Group.List
import NexusTransmitter.ParseBuffer
import NexusTransmitter.ServerLog
import NexusTransmitter.Timeouts

namespace Nexus

namespace Session

variable {s s' : Session} {sys : Sys} {p : Session → Prop}

/-! ### What an event keeps -/

/-- Every operation of a session keeps `p`. -/
structure Stable (p : Session → Prop) : Prop where
  receive : ∀ (s : Session) bs now, p s → p (s.receive bs now)
  take : ∀ (s : Session) f parser, p s → p (s.take f parser)
  onFrame : ∀ (s : Session) sys f, p s → p (s.onFrame sys f).2.1
  failed : ∀ (s : Session) sys status message, p s → p (s.failed sys status message).2.1
  advance : ∀ (s : Session) n now, p s → p (s.advance n now)
  drain : ∀ (s : Session) now, p s → p (s.drain now)
  log : ∀ (s : Session) line, p s → p (s.log line)
  terminate : ∀ (s : Session) os reason, p s → p (s.terminate os reason).1

theorem Stable.processFrames (h : Stable p) (hs : p s) (sys : Sys) (fuel : ℕ) :
    p (s.processFrames sys fuel).2.1 := by
  induction fuel generalizing s sys with
  | zero => exact hs
  | succ fuel ih =>
    rw [Session.processFrames]
    split
    · exact hs
    · exact h.failed s sys _ _ hs
    · rename_i f q _
      have hframe := h.onFrame _ sys f (h.take s f q hs)
      split <;> rename_i hrun <;> rw [hrun] at hframe
      · exact ih hframe _
      · exact hframe

theorem SendResult.stable {all : List SendAnswer} {r : Bool × Session × Sys}
    (hr : SendResult sys all s r) (h : Stable p) (hs : p s) : p r.2.1 := by
  induction hr with
  | stays s => exact hs
  | fails s text => exact h.log s _ hs
  | drains s => exact h.drain s _ hs
  | advances s n _ ih => exact ih (h.advance s n _ hs)

theorem Stable.onWritable (h : Stable p) (hs : p s) (sys : Sys) : p (s.onWritable sys).2.1 := by
  rw [Session.onWritable]
  split
  · exact hs
  · exact (sendLoop_result s sys List.suffix_rfl).stable h hs

theorem Stable.onReadable (h : Stable p) (hs : p s) (sys : Sys) (reads : List ReadAnswer) :
    p (s.onReadable sys reads).2.1 := by
  induction reads generalizing s sys with
  | nil => exact hs
  | cons ans reads ih =>
    match ans with
    | .eagain => exact hs
    | .eintr => exact ih hs sys
    | .err text => exact h.terminate s _ _ hs
    | .bytes [] =>
      rw [Session.onReadable]
      split
      · exact hs
      split
      · exact hs
      · exact h.terminate s _ _ hs
    | .bytes (b :: bs) =>
      have hr := h.receive s (b :: bs) sys.now hs
      rw [Session.onReadable]
      split
      · have hframes := h.processFrames hr sys (s.receive (b :: bs) sys.now).parser.buffered
        split <;> rename_i hrun <;> rw [hrun] at hframes
        · exact ih hframes _
        · split
          · exact h.onWritable hframes _
          · exact hframes
      · exact ih hr sys

theorem Stable.handle (h : Stable p) (hs : p s) (sys : Sys) (events : BitVec 32)
    (reads : List ReadAnswer) : p (s.handle sys events reads).2.1 := by
  rw [Session.handle]
  split
  · split
    · exact h.terminate s _ _ hs
    · exact hs
  have hread : p (if events &&& EPOLLIN ≠ 0 then s.onReadable sys reads
      else (true, s, sys)).2.1 := by
    split
    · exact h.onReadable hs sys reads
    · exact hs
  split <;> rename_i hr <;> rw [hr] at hread
  · exact hread
  · split
    · exact h.onWritable hread _
    · exact hread

/-! ### The answer and the name -/

/-- The size of the largest ACK. -/
def MAX_ACK : ℕ := HEADER_SIZE + 3 + MAX_NAME_LEN + TRAILER_SIZE

/-- The answer and the name of the file are no longer than the protocol allows. -/
structure Modest (s : Session) : Prop where
  out : s.out.length ≤ MAX_ACK
  name : s.sourceName.length ≤ MAX_NAME_LEN

theorem length_buildAck_le (status : Status) (message : Bytes) :
    (buildAck status message).length ≤ MAX_ACK := by
  have hmsg : (message.take MAX_NAME_LEN).length ≤ MAX_NAME_LEN := List.length_take_le _ _
  rw [buildAck, length_buildFrame, ackPayload_eq, MAX_ACK]
  simp only [List.length_append, length_putU16, List.length_singleton]
  omega

theorem Modest.congr (h : s.Modest) (hout : s'.out = s.out) (hname : s'.sourceName = s.sourceName) :
    s'.Modest :=
  ⟨by rw [hout]; exact h.out, by rw [hname]; exact h.name⟩

/-- An answer is queued. -/
theorem Modest.answer (h : s.Modest) {status : Status} {message : Bytes}
    (hout : s'.out = buildAck status message) (hname : s'.sourceName = s.sourceName) : s'.Modest :=
  ⟨by rw [hout]; exact length_buildAck_le status message, by rw [hname]; exact h.name⟩

theorem Modest.failed (h : s.Modest) (sys : Sys) (status : Status) (message : Bytes) :
    (s.failed sys status message).2.1.Modest :=
  h.answer rfl rfl

theorem length_baseName_le (path : Bytes) : (baseName path).length ≤ path.length := by
  rw [baseName, List.length_reverse]
  exact (List.takeWhile_sublist _).length_le.trans (by rw [List.length_reverse])

theorem parseHello_name_le {data : Bytes} {hello : HelloPayload}
    (h : parseHello data = some hello) : hello.name.length ≤ MAX_NAME_LEN := by
  rw [parseHello] at h
  split at h
  · cases h
  dsimp only at h
  split at h
  · cases h
  · rename_i hlen
    cases h
    exact (List.length_take_le _ _).trans (by omega)

/-- The name that HELLO gives is short. -/
theorem Modest.start (h : s.Modest) {hello : HelloPayload}
    (hname : hello.name.length ≤ MAX_NAME_LEN) : (s.start hello).Modest := by
  refine ⟨h.out, ?_⟩
  rw [Session.start]
  dsimp only
  split
  · decide
  · exact (length_baseName_le _).trans hname

theorem Modest.onHello (h : s.Modest) (sys : Sys) (data : Bytes) :
    (s.onHello sys data).2.1.Modest := by
  rw [Session.onHello]
  split
  · exact h.failed _ _ _
  split
  · exact h.failed _ _ _
  · rename_i hello hhello
    have hstart := h.start (parseHello_name_le hhello)
    dsimp only
    split
    · exact hstart.answer rfl rfl
    · exact hstart.congr rfl rfl

theorem Modest.onData (h : s.Modest) (sys : Sys) (data : Bytes) :
    (s.onData sys data).2.1.Modest := by
  rw [Session.onData]
  split
  · exact h.failed _ _ _
  split
  · exact h.failed _ _ _
  dsimp only
  split
  · exact h.answer rfl rfl
  · exact h.congr rfl rfl

theorem Modest.onEnd (h : s.Modest) (sys : Sys) (data : Bytes) : (s.onEnd sys data).2.1.Modest := by
  rw [Session.onEnd]
  split
  · exact h.failed _ _ _
  split
  · exact h.failed _ _ _
  split
  · exact h.failed _ _ _
  split
  · exact h.failed _ _ _
  dsimp only
  split
  · exact h.answer rfl rfl
  · exact h.answer rfl rfl

theorem Modest.terminate (h : s.Modest) (os : Os) (reason : Bytes) :
    (s.terminate os reason).1.Modest := by
  rw [Session.terminate]
  split
  · exact h
  · exact h.congr rfl rfl

theorem modest_stable : Stable Modest where
  receive := fun _ _ _ h => h.congr rfl rfl
  take := fun _ _ _ h => h.congr rfl rfl
  onFrame := by
    intro s sys f h
    rw [Session.onFrame]
    split
    · exact h.onHello sys f.data
    · exact h.onData sys f.data
    · exact h.onEnd sys f.data
    · exact h.failed _ _ _
  failed := fun _ sys status message h => h.failed sys status message
  advance := fun _ _ _ h => h.congr rfl rfl
  drain := fun _ _ h => h.congr rfl rfl
  log := fun _ _ h => h.congr rfl rfl
  terminate := fun _ os reason h => h.terminate os reason

/-- What a session keeps of what its client sends: `m_parser`, `m_out` and `m_sourceName`. -/
def memory (s : Session) : ℕ := s.parser.buf.length + s.out.length + s.sourceName.length

/-- The most that a session keeps. -/
def MAX_MEMORY : ℕ := MAX_BUFFERED + READ_BUFFER + MAX_ACK + MAX_NAME_LEN

theorem memory_le (hparser : s.Bounded) (h : s.Modest) : s.memory ≤ MAX_MEMORY := by
  have hbuf := hparser.buf
  have hout := h.out
  have hname := h.name
  rw [memory, MAX_MEMORY]
  omega

end Session

open Session

namespace Server

/-! ### Where sessions come from -/

section Origin

variable {srv : Server} {os : Os} {f : ℕ} {e : Entry}

/-- A session that has just been accepted. -/
def New (s : Session) : Prop := ∃ id fd conn outDir now, s = Session.create id fd conn outDir now

theorem acceptOne_origin {c : Incoming} {conn : ℕ}
    (he : (srv.acceptOne os c conn).1.sessions.lookup f = some e) :
    srv.sessions.lookup f = some e ∨ New e.session := by
  rw [acceptOne] at he
  split at he
  · exact .inl he
  dsimp only at he
  split at he
  · exact .inl he
  rw [emplace] at he
  split at he
  · exact .inl he
  by_cases hf : f = c.fd
  · rw [hf] at he
    rw [update, AList.lookup_insert] at he
    cases he
    exact .inr ⟨_, _, _, _, _, rfl⟩
  · rw [update_lookup_ne _ hf] at he
    exact .inl he

theorem acceptConnections_origin {cs : List Incoming}
    (he : (srv.acceptConnections os cs).1.sessions.lookup f = some e) :
    srv.sessions.lookup f = some e ∨ New e.session := by
  induction cs generalizing srv os with
  | nil => exact .inl he
  | cons c cs ih =>
    rw [acceptConnections] at he
    split at he
    · exact .inl he
    · rcases ih he with he | hnew
      · exact acceptOne_origin he
      · exact .inr hnew

theorem closeSession_origin {fd : ℕ} {reason : Bytes}
    (he : (srv.closeSession os fd reason).1.sessions.lookup f = some e) :
    srv.sessions.lookup f = some e := by
  by_cases hf : f = fd
  · rw [hf, closeSession_lookup_self] at he
    cases he
  · rwa [closeSession_lookup_ne _ hf] at he

theorem handleSession_origin {sys : Sys} {ev : Event}
    (he : (srv.handleSession sys ev).1.sessions.lookup f = some e) :
    srv.sessions.lookup f = some e ∨ ∃ e₀, srv.sessions.lookup ev.fd = some e₀ ∧
      e.session = (e₀.session.handle sys ev.events ev.reads).2.1 := by
  by_cases hf : f = ev.fd
  swap
  · rw [handleSession_lookup_ne sys hf] at he
    exact .inl he
  subst hf
  rw [handleSession] at he
  split at he
  · exact .inl he
  rename_i e₀ he₀
  refine .inr ⟨e₀, he₀, ?_⟩
  have hupdate : ∀ {e₁ : Entry} {srv' : Server},
      (srv'.update ev.fd e₁).sessions.lookup ev.fd = some e → e = e₁ := by
    intro e₁ srv' h
    rw [update, AList.lookup_insert] at h
    exact (Option.some.inj h).symm
  split at he <;> rename_i hrun <;> rw [hrun]
  · rw [hupdate (closeSession_origin he)]
  dsimp only at he
  split at he
  · split at he
    · rw [hupdate (closeSession_origin he)]
    · rw [hupdate he]
  · rw [hupdate he]

end Origin

/-- A step in which no `read` gives more than the buffer of `onReadable` holds. -/
inductive FittingStep : Server × Os → Server × Os → Prop
  | dispatch (srv : Server) (sys : Sys) (ev : Event) (h : srv.ended = false)
      (hreads : ∀ a ∈ ev.reads, a.data.length ≤ READ_BUFFER) :
      FittingStep (srv, sys.os) (srv.dispatch sys ev)
  | sweepIdle (srv : Server) (os : Os) (now : ℤ) (order : List ℕ) (h : srv.ended = false)
      (horder : order.Perm srv.sessions.keys) : FittingStep (srv, os) (srv.sweepIdle os now order)
  | shutdown (srv : Server) (os : Os) (order : List ℕ) (h : srv.ended = false)
      (horder : order.Perm srv.sessions.keys) : FittingStep (srv, os) (srv.shutdown os order)

theorem FittingStep.step {x y : Server × Os} (h : FittingStep x y) : Step x y := by
  cases h with
  | dispatch srv sys ev h hreads => exact .dispatch srv sys ev h
  | sweepIdle srv os now order h horder => exact .sweepIdle srv os now order h horder
  | shutdown srv os order h horder => exact .shutdown srv os order h horder

/-- An event of another descriptor than the listener's and the signalfd's. -/
theorem FittingStep.event (srv : Server) (sys : Sys) (ev : Event) (h : srv.ended = false)
    (hl : ev.fd ≠ srv.listenerFd) (hg : ev.fd ≠ srv.signalFd)
    (hreads : ∀ a ∈ ev.reads, a.data.length ≤ READ_BUFFER) :
    FittingStep (srv, sys.os) (srv.handleSession sys ev) := by
  have hstep := FittingStep.dispatch srv sys ev h hreads
  rwa [Server.dispatch, if_neg hl, if_neg hg] at hstep

/-- **The step lemma**: a session in the table was there before, or is new, or has been handled
with reads that fit. -/
theorem FittingStep.origin {x y : Server × Os} (h : FittingStep x y) {f : ℕ} {e : Entry}
    (he : y.1.sessions.lookup f = some e) :
    x.1.sessions.lookup f = some e ∨ New e.session ∨
      ∃ fd e₀ sys events, ∃ reads : List ReadAnswer, x.1.sessions.lookup fd = some e₀ ∧
        (∀ a ∈ reads, a.data.length ≤ READ_BUFFER) ∧
        e.session = (e₀.session.handle sys events reads).2.1 := by
  cases h with
  | dispatch srv sys ev h hreads =>
    rw [Server.dispatch] at he
    split at he
    · exact (acceptConnections_origin he).imp_right .inl
    split at he
    · exact .inl he
    · rcases handleSession_origin he with he | ⟨e₀, he₀, heq⟩
      · exact .inl he
      · exact .inr (.inr ⟨ev.fd, e₀, sys, ev.events, ev.reads, he₀, hreads, heq⟩)
  | sweepIdle srv os now order h horder =>
    have hlookup := closeSessions_lookup srv os (srv.expired now order)
      (str "таймаут ожидания данных") f
    rw [Server.sweepIdle] at he
    rw [he] at hlookup
    split at hlookup
    · cases hlookup
    · exact .inl hlookup.symm
  | shutdown srv os order h horder =>
    have hlookup := clear_lookup srv os order f
    have he' : (order.foldl (fun (p : Server × Os) fd => p.1.eraseSession p.2 fd)
        (srv, os)).1.sessions.lookup f = some e := he
    rw [he'] at hlookup
    split at hlookup
    · cases hlookup
    · exact .inl hlookup.symm

/-! ### Whole runs -/

section Memory

variable {os₀ os : Os} {config : ServerConfig} {l g : ℕ} {srv : Server}

theorem modest_lasts {ok : Sys → Prop} : Lasts ok Modest where
  create := fun _ _ _ _ _ => ⟨Nat.zero_le _, Nat.zero_le _⟩
  serve := by
    intro s r _ _ h
    cases r with
    | handle sys events reads => exact modest_stable.handle h sys events reads
    | terminate os reason => exact h.terminate os reason
    | destroy os => exact h.congr rfl rfl

/-- The states that a server reaches when all reads fit. -/
def FittingReach (config : ServerConfig) (listenerFd signalFd : ℕ) (os₀ : Os) (srv : Server)
    (os : Os) : Prop :=
  Relation.ReflTransGen FittingStep
    (create config listenerFd signalFd, registered os₀ listenerFd signalFd) (srv, os)

theorem FittingReach.reach (h : FittingReach config l g os₀ srv os) :
    Reach config l g os₀ srv os :=
  Relation.ReflTransGen.mono (fun _ _ => FittingStep.step) _ _ h

theorem FittingReach.bounded (h : FittingReach config l g os₀ srv os) {f : ℕ} {e : Entry}
    (he : srv.sessions.lookup f = some e) : e.session.Bounded := by
  have hall : ∀ y : Server × Os, Relation.ReflTransGen FittingStep
      (create config l g, registered os₀ l g) y →
      ∀ f e, y.1.sessions.lookup f = some e → e.session.Bounded := by
    intro y hrun
    induction hrun with
    | refl =>
      intro f e he
      cases he
    | tail _ hstep ih =>
      intro f e he
      rcases hstep.origin he with he | ⟨_, _, _, _, _, heq⟩ |
        ⟨fd, e₀, sys, events, reads, he₀, hreads, heq⟩
      · exact ih f e he
      · rw [heq]
        exact bounded_create _ _ _ _ _
      · rw [heq]
        exact ((ih fd e₀ he₀).handle events hreads).2
  exact hall _ h f e he

/-- **The memory of the server is bounded.**  Whatever the clients send, in whatever pieces it
is read and whatever fails: in every state that the server reaches there are at most
`maxSessions` sessions in its table, each of them keeps at most `MAX_MEMORY` bytes, and all
together at most `maxSessions` times as much. -/
theorem memory_bounded (h : Ready os₀ l g) (hreach : FittingReach config l g os₀ srv os) :
    srv.live.length ≤ config.maxSessions ∧ (∀ s ∈ srv.live, s.memory ≤ MAX_MEMORY) ∧
      (srv.live.map memory).sum ≤ config.maxSessions * MAX_MEMORY := by
  have hgood := reach_good h hreach.reach
  have hsize := hgood.size
  rw [reach_config hreach.reach] at hsize
  have hlength : srv.live.length ≤ config.maxSessions := by
    rw [live, List.length_map]
    rwa [AList.keys, List.keys, List.length_map] at hsize
  have hone : ∀ s ∈ srv.live, s.memory ≤ MAX_MEMORY := by
    intro s hs
    obtain ⟨fd, e, he, rfl⟩ := mem_live.mp hs
    have hmodest := (reach_all h hreach.reach.reachIn modest_lasts).live fd e he
    exact memory_le (hreach.bounded he) hmodest
  refine ⟨hlength, hone, ?_⟩
  calc (srv.live.map memory).sum ≤ (srv.live.map memory).length • MAX_MEMORY :=
        List.sum_le_card_nsmul _ _ (by simpa using hone)
    _ = srv.live.length * MAX_MEMORY := by rw [List.length_map, Nat.nsmul_eq_mul]
    _ ≤ config.maxSessions * MAX_MEMORY := Nat.mul_le_mul_right _ hlength

/-- A client has sent a HELLO and then an ACK: its session keeps the name, and owes it the
answer. -/
theorem memory_bounded_ack_owed :
    ∃ srv os, FittingReach { outDir := str "in", idleTimeout := 30, maxSessions := 2 } 3 4
        (bare 1 3 4) srv os ∧
      srv.live.map (fun s => (s.sourceName, s.state, s.outPos)) =
        [(str "a.txt", .sendingAck, 0)] ∧
      (srv.live.map memory).sum ≤ 2 * MAX_MEMORY := by
  obtain ⟨sys, hsys⟩ : ∃ sys : Sys, sys =
      { os := registered (bare 1 3 4) 3 4
        openAnswer := .fd 6
        localTime := { year := 124, mon := 0, mday := 1, hour := 0, min := 0, sec := 0 }
        now := 0 } := ⟨_, rfl⟩
  obtain ⟨r₁, h₁⟩ : ∃ r, (create { outDir := str "in", idleTimeout := 30, maxSessions := 2 } 3
      4).dispatch sys { fd := 3, events := EPOLLIN, incoming := [{ fd := 5, now := 0 }] } = r :=
    ⟨_, rfl⟩
  obtain ⟨r₂, h₂⟩ : ∃ r, r₁.1.dispatch { sys with os := r₁.2 }
      { fd := 5
        events := EPOLLIN
        reads := [.bytes (buildHello 3 (str "a.txt")), .bytes (buildAck .ok [])] } = r := ⟨_, rfl⟩
  have hends : r₁.1.ended = false ∧
      r₂.1.live.map (fun s => (s.sourceName, s.state, s.outPos)) =
        [(str "a.txt", .sendingAck, 0)] := by
    rw [← h₂, ← h₁, hsys]
    decide +kernel
  obtain ⟨hend, howed⟩ := hends
  have hstep₁ : FittingStep (create { outDir := str "in", idleTimeout := 30, maxSessions := 2 } 3 4,
      registered (bare 1 3 4) 3 4) r₁ := by
    have hstep := FittingStep.dispatch
      (create { outDir := str "in", idleTimeout := 30, maxSessions := 2 } 3 4) sys
      { fd := 3, events := EPOLLIN, incoming := [{ fd := 5, now := 0 }] } rfl (by simp)
    rw [h₁, hsys] at hstep
    exact hstep
  have hstep₂ : FittingStep r₁ r₂ := by
    have hstep := FittingStep.dispatch r₁.1 { sys with os := r₁.2 }
      { fd := 5
        events := EPOLLIN
        reads := [.bytes (buildHello 3 (str "a.txt")), .bytes (buildAck .ok [])] } hend
      (by decide +kernel)
    rw [h₂] at hstep
    exact hstep
  have hreach : FittingReach { outDir := str "in", idleTimeout := 30, maxSessions := 2 } 3 4
      (bare 1 3 4) r₂.1 r₂.2 := .tail (.single hstep₁) hstep₂
  exact ⟨r₂.1, r₂.2, hreach, howed, (memory_bounded (ready_bare 1 3 4) hreach).2.2⟩

end Memory

end Server

end Nexus
