/-
The reactor: `server/Server`.

The server keeps its sessions in a table by descriptor and takes the events that
epoll reports one by one (`Server.dispatch`); after each batch it closes the
sessions that were idle for too long (`sweepIdle`). What the system answers while
one event is handled is part of the `Event`. `unordered_map` has no order to rely
on, so where the source runs over the table, the order is an argument.

`gone` and `refused` are not in the source: they keep the sessions that were
destroyed and the connections that were answered Busy, for the statements about
them.
-/
import Mathlib.Data.List.AList
import NexusTransmitter.Session

namespace Nexus

/-- `Server::Entry`. -/
structure Entry where
  session : Session
  events : BitVec 32

structure ServerConfig where
  outDir : Bytes
  /-- In seconds. -/
  idleTimeout : ℤ
  maxSessions : ℕ

/-- `class Server`. `running` is the loop variable of `run`, and `ended` says
that `run` has returned. -/
structure Server where
  config : ServerConfig
  listenerFd : ℕ
  signalFd : ℕ
  nextSessionId : ℕ := 1
  sessions : AList (fun _ : ℕ => Entry) := ∅
  running : Bool := true
  ended : Bool := false
  gone : List Session := []
  /-- Connections answered Busy, with what was sent of the answer. -/
  refused : List (ℕ × Bytes) := []

/-- One connection that `accept` gives: its descriptor, what `write` does with a
Busy answer, whether `epoll_ctl` fails, and the time. -/
structure Incoming where
  fd : ℕ
  send : SendAnswer := .eagain
  addFault : Bool := false
  now : ℤ

/-- One event of a batch, with the answers of the system while it is handled
that are not in `Sys`. -/
structure Event where
  fd : ℕ
  events : BitVec 32
  incoming : List Incoming := []
  reads : List ReadAnswer := []
  modFault : Bool := false

namespace Os

/-- `epoll_ctl(EPOLL_CTL_ADD)`. -/
def epollAdd (os : Os) (fd : ℕ) (events : BitVec 32) (fault : Bool) : Bool × Os :=
  if fault ∨ (os.fds fd).isNone ∨ (os.epoll fd).isSome then (false, os)
  else (true, os.setInterest fd events)

/-- `epoll_ctl(EPOLL_CTL_MOD)`. -/
def epollMod (os : Os) (fd : ℕ) (events : BitVec 32) (fault : Bool) : Bool × Os :=
  if fault ∨ (os.epoll fd).isNone then (false, os) else (true, os.setInterest fd events)

end Os

namespace Server

/-- The sessions in the table. -/
def live (srv : Server) : List Session := srv.sessions.entries.map fun e => e.2.session

/-- All the sessions there have been. -/
def all (srv : Server) : List Session := srv.live ++ srv.gone

/-- The entry of a descriptor changes. -/
def update (srv : Server) (fd : ℕ) (e : Entry) : Server :=
  { srv with sessions := srv.sessions.insert fd e }

/-- A session is destroyed. -/
def drop (srv : Server) (os : Os) (s : Session) : Server × Os :=
  let (s, os) := s.destroy os
  ({ srv with gone := s :: srv.gone }, os)

/-- `m_sessions.emplace`, which leaves an entry that is there alone; then the new
one is destroyed. -/
def emplace (srv : Server) (os : Os) (fd : ℕ) (e : Entry) : Server × Os :=
  if fd ∈ srv.sessions then srv.drop os e.session else (srv.update fd e, os)

/-- The loop body of `acceptConnections`, for an accepted connection. -/
def acceptOne (srv : Server) (os : Os) (c : Incoming) (conn : ℕ) : Server × Os :=
  if srv.sessions.keys.length ≥ srv.config.maxSessions then
    let ack := buildAck .busy (str "сервер перегружен")
    ({ srv with refused := (conn, c.send.taken ack) :: srv.refused }, os.close c.fd)
  else
    let s := Session.create srv.nextSessionId c.fd conn srv.config.outDir c.now
    let srv := { srv with nextSessionId := (srv.nextSessionId + 1) % 2 ^ 64 }
    match os.epollAdd c.fd s.interest c.addFault with
    | (false, os) => srv.drop os s
    | (true, os) => srv.emplace os c.fd { session := s, events := s.interest }

/-- The loop of `acceptConnections`. Past the connections given there is none to
accept. -/
def acceptConnections (srv : Server) (os : Os) : List Incoming → Server × Os
  | [] => (srv, os)
  | c :: rest =>
    match os.accept c.fd with
    | none => (srv, os)
    | some (conn, os) =>
      let (srv, os) := srv.acceptOne os c conn
      srv.acceptConnections os rest

def closeSession (srv : Server) (os : Os) (fd : ℕ) (reason : Bytes) : Server × Os :=
  match srv.sessions.lookup fd with
  | none => (srv, os)
  | some e =>
    let (s, os) := e.session.terminate os reason
    ({ srv with sessions := srv.sessions.erase fd } : Server).drop (os.epollDel fd) s

def handleSession (srv : Server) (sys : Sys) (ev : Event) : Server × Os :=
  match srv.sessions.lookup ev.fd with
  | none => (srv, sys.os.epollDel ev.fd)
  | some e =>
    match e.session.handle sys ev.events ev.reads with
    | (false, s, sys) =>
      (srv.update ev.fd { e with session := s }).closeSession sys.os ev.fd
        (str "обработчик события завершил сессию")
    | (true, s, sys) =>
      let srv := srv.update ev.fd { e with session := s }
      if s.interest ≠ e.events then
        match sys.os.epollMod ev.fd s.interest ev.modFault with
        | (false, os) => srv.closeSession os ev.fd (str "ошибка перерегистрации в epoll")
        | (true, os) => (srv.update ev.fd { session := s, events := s.interest }, os)
      else (srv, sys.os)

/-- The body of the loop over a batch in `run`. -/
def dispatch (srv : Server) (sys : Sys) (ev : Event) : Server × Os :=
  if ev.fd = srv.listenerFd then srv.acceptConnections sys.os ev.incoming
  else if ev.fd = srv.signalFd then ({ srv with running := false }, sys.os)
  else srv.handleSession sys ev

/-- The descriptors in `order` whose sessions have expired. -/
def expired (srv : Server) (now : ℤ) (order : List ℕ) : List ℕ :=
  order.filter fun fd =>
    match srv.sessions.lookup fd with
    | none => false
    | some e => e.session.expired now srv.config.idleTimeout

def sweepIdle (srv : Server) (os : Os) (now : ℤ) (order : List ℕ) : Server × Os :=
  (srv.expired now order).foldl
    (fun (srv, os) fd => srv.closeSession os fd (str "таймаут ожидания данных")) (srv, os)

/-- One session of `m_sessions.clear()`. -/
def eraseSession (srv : Server) (os : Os) (fd : ℕ) : Server × Os :=
  match srv.sessions.lookup fd with
  | none => (srv, os)
  | some e => ({ srv with sessions := srv.sessions.erase fd } : Server).drop os e.session

/-- The end of `run`: `m_sessions.clear()`, and the listener is closed. The
destructor does the same when `run` ended for another reason. -/
def shutdown (srv : Server) (os : Os) (order : List ℕ) : Server × Os :=
  let (srv, os) := order.foldl (fun (srv, os) fd => srv.eraseSession os fd) (srv, os)
  ({ srv with running := false, ended := true }, os.close srv.listenerFd)

/-! ### Runs -/

/-- What `run` does next: an event of a batch, the sweep after a batch, or the
end. -/
inductive Step : Server × Os → Server × Os → Prop
  | dispatch (srv : Server) (sys : Sys) (ev : Event) (h : srv.ended = false) :
      Step (srv, sys.os) (srv.dispatch sys ev)
  | sweepIdle (srv : Server) (os : Os) (now : ℤ) (order : List ℕ) (h : srv.ended = false)
      (horder : order.Perm srv.sessions.keys) : Step (srv, os) (srv.sweepIdle os now order)
  | shutdown (srv : Server) (os : Os) (order : List ℕ) (h : srv.ended = false)
      (horder : order.Perm srv.sessions.keys) : Step (srv, os) (srv.shutdown os order)

/-- The listener is readable. -/
theorem Step.accept (srv : Server) (os : Os) (cs : List Incoming) (h : srv.ended = false) :
    Step (srv, os) (srv.acceptConnections os cs) := by
  have hstep := Step.dispatch srv
    { os := os
      openAnswer := .err []
      localTime := { year := 1970, mon := 0, mday := 1, hour := 0, min := 0, sec := 0 }
      now := 0 }
    { fd := srv.listenerFd, events := EPOLLIN, incoming := cs } h
  rwa [Server.dispatch, if_pos (by rfl)] at hstep

/-- An event of another descriptor. -/
theorem Step.event (srv : Server) (sys : Sys) (ev : Event) (h : srv.ended = false)
    (hl : ev.fd ≠ srv.listenerFd) (hg : ev.fd ≠ srv.signalFd) :
    Step (srv, sys.os) (srv.handleSession sys ev) := by
  have hstep := Step.dispatch srv sys ev h
  rwa [Server.dispatch, if_neg hl, if_neg hg] at hstep

/-- A run of the server. -/
def Steps : Server × Os → Server × Os → Prop := Relation.ReflTransGen Step

/-- The server at the start of the loop of `run`. -/
def create (config : ServerConfig) (listenerFd signalFd : ℕ) : Server where
  config := config
  listenerFd := listenerFd
  signalFd := signalFd

/-- The system at the start of the loop: the listener and the signalfd are
registered. -/
def registered (os : Os) (listenerFd signalFd : ℕ) : Os :=
  (os.setInterest listenerFd EPOLLIN).setInterest signalFd EPOLLIN

/-- A system in which the server can start: there are no connections, nothing is
registered, and the listener and the signalfd are open. -/
structure Ready (os : Os) (listenerFd signalFd : ℕ) : Prop where
  wf : os.WF
  sockets : ∀ f c, os.fds f ≠ some (.socket c)
  epoll : ∀ f, os.epoll f = none
  listener : os.fds listenerFd = some .other
  signal : os.fds signalFd = some .other

/-- Such a system, with nothing else in it. -/
def bare (pid listenerFd signalFd : ℕ) : Os :=
  { Os.empty pid with
    fds := fun f => if f = listenerFd ∨ f = signalFd then some .other else none }

theorem ready_bare (pid l g : ℕ) : Ready (bare pid l g) l g where
  wf := ⟨by simp [bare, Os.empty], fun _ _ h => (nomatch h), fun f i h => by
    simp only [bare] at h
    split at h <;> cases h⟩
  sockets := by
    intro f c h
    simp only [bare] at h
    split at h <;> cases h
  epoll := fun _ => rfl
  listener := by simp [bare]
  signal := by simp [bare]

/-- The states that a server reaches. -/
def Reach (config : ServerConfig) (listenerFd signalFd : ℕ) (os₀ : Os) (srv : Server) (os : Os) :
    Prop :=
  Steps (create config listenerFd signalFd, registered os₀ listenerFd signalFd) (srv, os)

end Server

end Nexus
