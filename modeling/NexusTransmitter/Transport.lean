/-
TCP: `transport/TcpTransport`.

`connect` and `create` go through the addresses that `getaddrinfo` gives and take the first
one with which all their calls succeed. What the system answers for one address is part of
the address (`Candidate`), and what `getaddrinfo` gives is a function of the two texts.

* `connect_spec`, `create_spec` — which address is taken, what is open afterwards, and what
  the error says;
* `formatPeer_parse` — an address that is logged can be given back on the command line.
-/
import NexusTransmitter.Lib.Alternatives
import NexusTransmitter.ServerLoop
import NexusTransmitter.Timeouts

open Alternatives Scanning

namespace Nexus

/-! ### Sockets -/

/-- What a socket has been told. -/
structure Socket where
  nonblock : Bool
  rcvTimeo : Timeval := ⟨0, 0⟩
  sndTimeo : Timeval := ⟨0, 0⟩
  reuseAddr : Bool := false
  connected : Bool := false
  listening : Bool := false
  deriving DecidableEq, Repr

/-- A process with its sockets. `lists` counts the results of `getaddrinfo` that it has not
freed yet. -/
structure Net where
  os : Os
  sockets : ℕ → Option Socket
  lists : ℕ := 0

/-- What the two calls of `fcntl` answer. -/
structure FlagAnswers where
  getFault : Option Bytes := none
  setFault : Option Bytes := none
  deriving DecidableEq, Repr

inductive ConnectAnswer
  | done
  | inProgress
  | err (text : Bytes)
  deriving DecidableEq, Repr

inductive PollAnswer
  | ready
  | timeout
  | err (text : Bytes)
  deriving DecidableEq, Repr

/-- What `getsockopt(SO_ERROR)` gives. -/
inductive SoErrorAnswer
  | clear
  | pending (text : Bytes)
  | err (text : Bytes)
  deriving DecidableEq, Repr

/-- An address for `connect`. -/
structure Candidate where
  fd : OpenAnswer
  unblock : FlagAnswers := {}
  connect : ConnectAnswer := .done
  poll : PollAnswer := .ready
  soError : SoErrorAnswer := .clear
  block : FlagAnswers := {}
  rcvFault : Option Bytes := none
  sndFault : Option Bytes := none
  /-- What `getnameinfo` gives. -/
  name : Option (Bytes × Bytes)
  deriving DecidableEq, Repr

/-- An address for `create`. -/
structure Interface where
  fd : OpenAnswer
  reuseFault : Bool := false
  bindFault : Option Bytes := none
  listenFault : Option Bytes := none
  name : Option (Bytes × Bytes)
  deriving DecidableEq, Repr

/-- `std::to_string` of an `int`. -/
def decInt (n : ℤ) : Bytes := (if n < 0 then str "-" else []) ++ dec n.natAbs

def formatPeer : Option (Bytes × Bytes) → Bytes
  | none => str "unknown"
  | some (host, serv) =>
    let h := if (find host colon).isSome then str "[" ++ host ++ str "]" else host
    h ++ str ":" ++ serv

namespace Net

/-- `getaddrinfo` has given a list. -/
def getaddrinfo (net : Net) : Net := { net with lists := net.lists + 1 }

def freeaddrinfo (net : Net) : Net := { net with lists := net.lists - 1 }

def socket (net : Net) (nonblock : Bool) (ans : OpenAnswer) : Except Bytes ℕ × Net :=
  match net.os.openOther ans with
  | (.error text, os) => (.error text, { net with os := os })
  | (.ok fd, os) =>
    (.ok fd, { net with
      os := os
      sockets := Function.update net.sockets fd (some { nonblock := nonblock }) })

def close (net : Net) (fd : ℕ) : Net :=
  { net with os := net.os.close fd, sockets := Function.update net.sockets fd none }

/-- The socket is told something. -/
def tell (net : Net) (fd : ℕ) (f : Socket → Socket) : Net :=
  { net with sockets := Function.update net.sockets fd ((net.sockets fd).map f) }

/-- The error, if one of the calls fails. -/
def setBlocking (net : Net) (fd : ℕ) (blocking : Bool) (a : FlagAnswers) : Option Bytes × Net :=
  match a.getFault with
  | some text => (some text, net)
  | none =>
    match a.setFault with
    | some text => (some text, net)
    | none => (none, net.tell fd fun s => { s with nonblock := !blocking })

def setIoTimeout (net : Net) (fd : ℕ) (timeoutMs : ℤ) (rcvFault sndFault : Option Bytes) :
    Option Bytes × Net :=
  let tv := Nexus.setIoTimeout timeoutMs
  match rcvFault with
  | some text => (some text, net)
  | none =>
    let net := net.tell fd fun s => { s with rcvTimeo := tv }
    match sndFault with
    | some text => (some text, net)
    | none => (none, net.tell fd fun s => { s with sndTimeo := tv })

end Net

/-! ### `TcpConnection` -/

namespace TcpConnection

/-- Whether the connection comes about, or `lastError`. -/
def await (a : Candidate) (timeoutMs : ℤ) : Except Bytes Unit :=
  match a.connect with
  | .done => .ok ()
  | .err text => .error text
  | .inProgress =>
    match a.poll with
    | .ready =>
      match a.soError with
      | .clear => .ok ()
      | .pending text => .error text
      | .err text => .error text
    | .timeout => .error (str "таймаут подключения (" ++ decInt timeoutMs ++ str " мс)")
    | .err text => .error text

/-- The body of the loop: the connection, or `lastError`. -/
def tryConnect (timeoutMs : ℤ) (net : Net) (a : Candidate) : Except Bytes (ℕ × Bytes) × Net :=
  match net.socket false a.fd with
  | (.error text, net) => (.error text, net)
  | (.ok fd, net) =>
    match net.setBlocking fd false a.unblock with
    | (some text, net) => (.error text, net.close fd)
    | (none, net) =>
      match await a timeoutMs with
      | .error text => (.error text, net.close fd)
      | .ok () =>
        let net := net.tell fd fun s => { s with connected := true }
        match net.setBlocking fd true a.block with
        | (some text, net) => (.error text, net.close fd)
        | (none, net) =>
          match net.setIoTimeout fd timeoutMs a.rcvFault a.sndFault with
          | (some text, net) => (.error text, net.close fd)
          | (none, net) => (.ok (fd, formatPeer a.name), net)

/-- `TcpConnection::connect`: the descriptor and the peer, and the error. -/
def connect (resolve : Bytes → Bytes → Except Bytes (List Candidate)) (dest : Destination)
    (timeoutMs : ℤ) (net : Net) : (Option (ℕ × Bytes) × Bytes) × Net :=
  match resolve (cStr dest.host) (cStr dest.port) with
  | .error text => ((none, str "не удалось разрешить адрес: " ++ text), net)
  | .ok res =>
    match firstOk (tryConnect timeoutMs) (str "нет подходящих адресов") res net.getaddrinfo with
    | (.ok conn, net) => ((some conn, []), net.freeaddrinfo)
    | (.error lastError, net) =>
      ((none, str "не удалось подключиться: " ++ lastError), net.freeaddrinfo)

end TcpConnection

/-! ### `TcpListener` -/

namespace TcpListener

/-- The body of the loop: the listener, or `lastError`. -/
def tryListen (net : Net) (a : Interface) : Except Bytes (ℕ × Bytes) × Net :=
  match net.socket true a.fd with
  | (.error text, net) => (.error text, net)
  | (.ok fd, net) =>
    let net := if a.reuseFault then net else net.tell fd fun s => { s with reuseAddr := true }
    match a.bindFault, a.listenFault with
    | some text, _ => (.error text, net.close fd)
    | none, some text => (.error text, net.close fd)
    | none, none =>
      (.ok (fd, str "tcp://" ++ formatPeer a.name),
        net.tell fd fun s => { s with listening := true })

/-- `TcpListener::create`: the descriptor and the description, and the error. -/
def create (resolve : Bytes → Bytes → Except Bytes (List Interface)) (dest : Destination)
    (net : Net) : (Option (ℕ × Bytes) × Bytes) × Net :=
  match resolve (cStr dest.host) (cStr dest.port) with
  | .error text => ((none, str "не удалось разрешить адрес: " ++ text), net)
  | .ok res =>
    match firstOk tryListen (str "нет подходящих адресов") res net.getaddrinfo with
    | (.ok listener, net) => ((some listener, []), net.freeaddrinfo)
    | (.error lastError, net) =>
      ((none, str "не удалось открыть слушающий сокет: " ++ lastError), net.freeaddrinfo)

end TcpListener

/-- A numeric address that is logged is an address that `parse` takes. -/
theorem formatPeer_parse {host serv : Bytes} (hhost : host ≠ []) (hopen : lbracket ∉ host)
    (hclose : rbracket ∉ host) (hserv : Digits serv) :
    Destination.parse (formatPeer (some (host, serv))) = some { host := host, port := serv } := by
  have hstr : formatPeer (some (host, serv)) =
      ({ host := host, port := serv } : Destination).str := by
    have hfind : (find host colon).isSome ↔ colon ∈ host := by
      rw [Option.isSome_iff_ne_none, ne_eq, find_eq_none_iff, not_not]
    simp only [formatPeer, hfind]
    rfl
  rw [hstr]
  by_cases hcolon : colon ∈ host
  · exact (Destination.parse_str_of_colon hserv hcolon).mpr hclose
  · exact (Destination.parse_str_of_no_colon hserv hhost hcolon).mpr
      (Destination.head_ne_of_notMem hopen)

/-! ### One descriptor more -/

namespace Net

/-- Nothing is said about descriptors that are not open. -/
structure Clean (net : Net) : Prop where
  epoll : ∀ f, net.os.fds f = none → net.os.epoll f = none
  sockets : ∀ f, net.os.fds f = none → net.sockets f = none

/-- The socket `s` has been opened under `fd`. -/
structure Opened (net : Net) (fd : ℕ) (s : Socket) (net' : Net) : Prop where
  free : net.os.fds fd = none
  os : net'.os = { net.os with fds := Function.update net.os.fds fd (some .other) }
  sockets : net'.sockets = Function.update net.sockets fd (some s)
  lists : net'.lists = net.lists

section Opened

variable {net net' : Net} {fd : ℕ} {s : Socket}

theorem Opened.tell (h : net.Opened fd s net') (f : Socket → Socket) :
    net.Opened fd (f s) (net'.tell fd f) where
  free := h.free
  os := h.os
  sockets := by simp [Net.tell, h.sockets]
  lists := h.lists

/-- When it is closed, all is as it was. -/
theorem Opened.close (h : net.Opened fd s net') (hclean : net.Clean) : net'.close fd = net := by
  have hfds : Function.update net.os.fds fd none = net.os.fds :=
    Function.update_eq_self_iff.mpr h.free.symm
  have hepoll : Function.update net.os.epoll fd none = net.os.epoll :=
    Function.update_eq_self_iff.mpr (hclean.epoll fd h.free).symm
  have hsockets : Function.update net.sockets fd none = net.sockets :=
    Function.update_eq_self_iff.mpr (hclean.sockets fd h.free).symm
  rw [Net.close, h.os, h.sockets, h.lists]
  simp only [Os.close, Function.update_idem, hfds, hepoll, hsockets]

theorem socket_cases (net : Net) (nonblock : Bool) (ans : OpenAnswer) :
    (∃ fd net', ans = .fd fd ∧ net.socket nonblock ans = (.ok fd, net') ∧
        net.Opened fd { nonblock := nonblock } net') ∨
      ((∀ fd, ans = .fd fd → net.os.fds fd ≠ none) ∧
        ∃ text, net.socket nonblock ans = (.error text, net)) := by
  rcases Server.openOther_cases net.os ans with ⟨text, h⟩ | ⟨fd, hfree, h⟩
  · refine .inr ⟨?_, text, by rw [socket, h]⟩
    rintro fd rfl hfree
    rw [Os.openOther, if_neg (by rw [hfree]; simp)] at h
    cases h
  · obtain ⟨net', hnet'⟩ : ∃ net' : Net, net' = { net with
        os := { net.os with fds := Function.update net.os.fds fd (some .other) }
        sockets := Function.update net.sockets fd (some { nonblock := nonblock }) } := ⟨_, rfl⟩
    refine .inl ⟨fd, net', ?_, by rw [socket, h, hnet'], hfree, by rw [hnet'], by rw [hnet'],
      by rw [hnet']⟩
    cases ans with
    | err text => cases h
    | fd n =>
      rw [Os.openOther] at h
      split at h <;> cases h
      rfl

theorem setBlocking_cases (h : net.Opened fd s net') (blocking : Bool) (a : FlagAnswers) :
    (a = {} ∧ ∃ net'', net'.setBlocking fd blocking a = (none, net'') ∧
        net.Opened fd { s with nonblock := !blocking } net'') ∨
      (a ≠ {} ∧ ∃ text, net'.setBlocking fd blocking a = (some text, net')) := by
  obtain ⟨_ | text, _ | text'⟩ := a
  · exact .inl ⟨rfl, _, rfl, h.tell fun s => { s with nonblock := !blocking }⟩
  · exact .inr ⟨by simp, text', rfl⟩
  · exact .inr ⟨by simp, text, rfl⟩
  · exact .inr ⟨by simp, text, rfl⟩

theorem setIoTimeout_cases (h : net.Opened fd s net') (timeoutMs : ℤ)
    (rcvFault sndFault : Option Bytes) :
    ((rcvFault = none ∧ sndFault = none) ∧ ∃ net'',
        net'.setIoTimeout fd timeoutMs rcvFault sndFault = (none, net'') ∧
        net.Opened fd { s with
          rcvTimeo := Nexus.setIoTimeout timeoutMs
          sndTimeo := Nexus.setIoTimeout timeoutMs } net'') ∨
      (¬ (rcvFault = none ∧ sndFault = none) ∧ ∃ text s' net'',
        net'.setIoTimeout fd timeoutMs rcvFault sndFault = (some text, net'') ∧
          net.Opened fd s' net'') := by
  cases rcvFault with
  | some text => exact .inr ⟨by simp, text, s, net', rfl, h⟩
  | none =>
    cases sndFault with
    | some text => exact .inr ⟨by simp, text, _, _, rfl, h.tell _⟩
    | none =>
      have hrcv := h.tell fun s => { s with rcvTimeo := Nexus.setIoTimeout timeoutMs }
      exact .inl ⟨⟨rfl, rfl⟩, _, rfl,
        hrcv.tell fun s => { s with sndTimeo := Nexus.setIoTimeout timeoutMs }⟩

/-- With the list freed, too. -/
theorem Opened.freeaddrinfo (h : net.getaddrinfo.Opened fd s net') :
    net.Opened fd s net'.freeaddrinfo where
  free := h.free
  os := h.os
  sockets := h.sockets
  lists := by rw [Net.freeaddrinfo, h.lists]; rfl

theorem Clean.getaddrinfo (h : net.Clean) : net.getaddrinfo.Clean := ⟨h.epoll, h.sockets⟩

/-- The first candidate that can be used is taken, in a state that the others restore. -/
theorem firstOk_cases {κ : Type*} {attempt : Net → κ → Except Bytes (ℕ × Bytes) × Net}
    {fdOf : κ → OpenAnswer} {text : κ → Bytes} {sock : κ → Socket} {usable : κ → Prop}
    (h : ∀ a, (usable a ∧ ∃ fd net', fdOf a = .fd fd ∧
        attempt net a = (.ok (fd, text a), net') ∧ net.Opened fd (sock a) net') ∨
      (¬ usable a ∧ ∃ e, attempt net a = (.error e, net))) (e : Bytes) (res : List κ) :
    (∃ pre a post fd net', res = pre ++ a :: post ∧ (∀ b ∈ pre, ¬ usable b) ∧ usable a ∧
        fdOf a = .fd fd ∧ firstOk attempt e res net = (.ok (fd, text a), net') ∧
        net.Opened fd (sock a) net') ∨
      ((∀ a ∈ res, ¬ usable a) ∧ ∃ e', firstOk attempt e res net = (.error e', net)) := by
  have hrestores : ∀ a e' net', attempt net a = (.error e', net') → net' = net := by
    intro a e' net' ha
    rcases h a with ⟨-, fd, net'', -, hok, -⟩ | ⟨-, e'', herr⟩
    · rw [ha] at hok
      cases hok
    · rw [ha] at herr
      cases herr
      rfl
  have hunusable : ∀ a, (∃ e', attempt net a = (.error e', net)) → ¬ usable a := by
    rintro a ⟨e', ha⟩ hu
    rcases h a with ⟨-, fd, net', -, hok, -⟩ | ⟨hno, -⟩
    · rw [ha] at hok
      cases hok
    · exact hno hu
  have htried := firstOk_tried hrestores e res
  generalize firstOk attempt e res net = r at htried ⊢
  cases htried with
  | found pre a post hks hpre hk =>
    rcases h a with ⟨hu, fd, net', hfd, hok, hopened⟩ | ⟨-, e', herr⟩
    · rw [hk] at hok
      cases hok
      exact .inl ⟨pre, a, post, fd, _, hks, fun b hb => hunusable b (hpre b hb), hu, hfd, rfl,
        hopened⟩
    · rw [hk] at herr
      cases herr
  | empty hks => exact .inr ⟨by simp [hks], e, rfl⟩
  | @failed pre a e' hks hpre hk =>
    refine .inr ⟨fun b hb => hunusable b ?_, e', rfl⟩
    rcases List.mem_append.mp (hks ▸ hb) with hb | hb
    · exact hpre b hb
    · rw [List.mem_singleton.mp hb]
      exact ⟨e', hk⟩

end Opened

end Net

/-! ### Connecting -/

namespace TcpConnection

/-- All calls for this address succeed. -/
structure Usable (os : Os) (a : Candidate) : Prop where
  fd : ∃ n, a.fd = .fd n ∧ os.fds n = none
  unblock : a.unblock = {}
  connected : a.connect = .done ∨ (a.connect = .inProgress ∧ a.poll = .ready ∧ a.soError = .clear)
  block : a.block = {}
  timeouts : a.rcvFault = none ∧ a.sndFault = none

section Connect

variable {net : Net}

theorem await_cases (a : Candidate) (timeoutMs : ℤ) :
    (await a timeoutMs = .ok () ∧
        (a.connect = .done ∨ (a.connect = .inProgress ∧ a.poll = .ready ∧ a.soError = .clear))) ∨
      ((∃ text, await a timeoutMs = .error text) ∧
        ¬ (a.connect = .done ∨
          (a.connect = .inProgress ∧ a.poll = .ready ∧ a.soError = .clear))) := by
  rw [await]
  cases a.connect with
  | done => exact .inl ⟨rfl, .inl rfl⟩
  | err text => exact .inr ⟨⟨_, rfl⟩, by simp⟩
  | inProgress =>
    cases a.poll with
    | timeout => exact .inr ⟨⟨_, rfl⟩, by simp⟩
    | err text => exact .inr ⟨⟨_, rfl⟩, by simp⟩
    | ready =>
      cases a.soError with
      | clear => exact .inl ⟨rfl, .inr ⟨rfl, rfl, rfl⟩⟩
      | pending text => exact .inr ⟨⟨_, rfl⟩, by simp⟩
      | err text => exact .inr ⟨⟨_, rfl⟩, by simp⟩

/-- The socket that `connect` returns. -/
def ready (timeoutMs : ℤ) : Socket where
  nonblock := false
  rcvTimeo := setIoTimeout timeoutMs
  sndTimeo := setIoTimeout timeoutMs
  connected := true

theorem tryConnect_cases (hclean : net.Clean) (timeoutMs : ℤ) (a : Candidate) :
    (Usable net.os a ∧ ∃ fd net', a.fd = .fd fd ∧
        tryConnect timeoutMs net a = (.ok (fd, formatPeer a.name), net') ∧
        net.Opened fd (ready timeoutMs) net') ∨
      (¬ Usable net.os a ∧ ∃ e, tryConnect timeoutMs net a = (.error e, net)) := by
  rw [tryConnect]
  rcases net.socket_cases false a.fd with ⟨fd, net₁, hfd, hrun, h₁⟩ | ⟨hno, text, hrun⟩ <;>
    rw [hrun]
  swap
  · exact .inr ⟨fun hu => hu.fd.elim fun n hn => hno n hn.1 hn.2, text, rfl⟩
  dsimp only
  rcases Net.setBlocking_cases h₁ false a.unblock with
    ⟨hunblock, net₂, hrun, h₂⟩ | ⟨hno, text, hrun⟩ <;> rw [hrun]
  swap
  · exact .inr ⟨fun hu => hno hu.unblock, text, congrArg _ (h₁.close hclean)⟩
  dsimp only
  rcases await_cases a timeoutMs with ⟨hrun, hconnected⟩ | ⟨⟨text, hrun⟩, hno⟩ <;> rw [hrun]
  swap
  · exact .inr ⟨fun hu => hno hu.connected, text, congrArg _ (h₂.close hclean)⟩
  dsimp only
  have h₃ := h₂.tell fun s => { s with connected := true }
  rcases Net.setBlocking_cases h₃ true a.block with ⟨hblock, net₄, hrun, h₄⟩ | ⟨hno, text, hrun⟩ <;>
    rw [hrun]
  swap
  · exact .inr ⟨fun hu => hno hu.block, text, congrArg _ (h₃.close hclean)⟩
  dsimp only
  rcases Net.setIoTimeout_cases h₄ timeoutMs a.rcvFault a.sndFault with
    ⟨htimeouts, net₅, hrun, h₅⟩ | ⟨hno, text, s, net₅, hrun, h₅⟩ <;> rw [hrun]
  swap
  · exact .inr ⟨fun hu => hno hu.timeouts, text, congrArg _ (h₅.close hclean)⟩
  exact .inl ⟨⟨⟨fd, hfd, h₁.free⟩, hunblock, hconnected, hblock, htimeouts⟩, fd, net₅, hfd, rfl, h₅⟩

/-- `connect` opens one descriptor, or it leaves everything as it was. -/
theorem connect_cases (hclean : net.Clean)
    (resolve : Bytes → Bytes → Except Bytes (List Candidate)) (dest : Destination)
    (timeoutMs : ℤ) :
    (∃ fd peer net', connect resolve dest timeoutMs net = ((some (fd, peer), []), net') ∧
        net.Opened fd (ready timeoutMs) net') ∨
      ∃ error, connect resolve dest timeoutMs net = ((none, error), net) := by
  rw [connect]
  cases resolve (cStr dest.host) (cStr dest.port) with
  | error text => exact .inr ⟨_, rfl⟩
  | ok res =>
    dsimp only
    rcases Net.firstOk_cases (fun a => tryConnect_cases hclean.getaddrinfo timeoutMs a)
        (str "нет подходящих адресов") res with
      ⟨-, a, -, fd, net', -, -, -, -, hrun, h⟩ | ⟨-, e, hrun⟩
    · rw [hrun]
      exact .inl ⟨fd, _, _, rfl, h.freeaddrinfo⟩
    · rw [hrun]
      exact .inr ⟨_, rfl⟩

/-- **What `connect` comes to**: it takes the first address with which all calls succeed, and
then one descriptor more is open, in blocking mode and with both timeouts; or there is no such
address, there is an error, and everything is as before. -/
theorem connect_spec (hclean : net.Clean)
    (resolve : Bytes → Bytes → Except Bytes (List Candidate)) (dest : Destination)
    (timeoutMs : ℤ) :
    (∃ pre a post fd net',
        resolve (cStr dest.host) (cStr dest.port) = .ok (pre ++ a :: post) ∧
        (∀ b ∈ pre, ¬ Usable net.os b) ∧ Usable net.os a ∧ a.fd = .fd fd ∧
        connect resolve dest timeoutMs net = ((some (fd, formatPeer a.name), []), net') ∧
        net.Opened fd (ready timeoutMs) net') ∨
      ((∀ res, resolve (cStr dest.host) (cStr dest.port) = .ok res → ∀ a ∈ res, ¬ Usable net.os a) ∧
        ∃ error, error ≠ [] ∧ connect resolve dest timeoutMs net = ((none, error), net)) := by
  rw [connect]
  cases hres : resolve (cStr dest.host) (cStr dest.port) with
  | error text => exact .inr ⟨by simp, _, by simp, rfl⟩
  | ok res =>
    dsimp only
    rcases Net.firstOk_cases (fun a => tryConnect_cases hclean.getaddrinfo timeoutMs a)
        (str "нет подходящих адресов") res with
      ⟨pre, a, post, fd, net', rfl, hpre, hu, hfd, hrun, h⟩ | ⟨hno, e, hrun⟩
    · rw [hrun]
      exact .inl ⟨pre, a, post, fd, _, rfl, hpre, hu, hfd, rfl, h.freeaddrinfo⟩
    · rw [hrun]
      refine .inr ⟨?_, _, ?_, rfl⟩
      · rintro _ ⟨⟩
        exact hno
      · simp

/-- The first address refuses, the second one answers in time. -/
theorem connect_spec_second :
    ∃ fd peer net', connect
        (fun _ _ => .ok
          [{ fd := .fd 3, connect := .err (str "Connection refused"), name := none },
            { fd := .fd 3, connect := .inProgress, name := some (str "127.0.0.1", str "5555") }])
        {} 15000 { os := Os.empty 1, sockets := fun _ => none } = ((some (fd, peer), []), net') ∧
      Net.Opened { os := Os.empty 1, sockets := fun _ => none } fd (ready 15000) net' := by
  rcases connect_spec
      (⟨fun _ _ => rfl, fun _ _ => rfl⟩ : Net.Clean { os := Os.empty 1, sockets := fun _ => none })
      (fun _ _ => .ok
        [{ fd := .fd 3, connect := .err (str "Connection refused"), name := none },
          { fd := .fd 3, connect := .inProgress, name := some (str "127.0.0.1", str "5555") }])
      {} 15000 with
    ⟨-, a, -, fd, net', -, -, -, -, hrun, hopened⟩ | ⟨hno, -⟩
  · exact ⟨fd, _, net', hrun, hopened⟩
  · refine absurd ?_ (hno _ rfl _ (List.mem_cons_of_mem _ List.mem_cons_self))
    exact ⟨⟨3, rfl, rfl⟩, rfl, .inr ⟨rfl, rfl, rfl⟩, rfl, rfl, rfl⟩

end Connect

end TcpConnection

/-! ### Listening -/

namespace TcpListener

/-- All calls for this address succeed. -/
structure Usable (os : Os) (a : Interface) : Prop where
  fd : ∃ n, a.fd = .fd n ∧ os.fds n = none
  bound : a.bindFault = none ∧ a.listenFault = none

section Create

variable {net : Net}

/-- The socket that `create` returns. -/
def ready (reuseFault : Bool) : Socket where
  nonblock := true
  reuseAddr := !reuseFault
  listening := true

theorem tryListen_cases (hclean : net.Clean) (a : Interface) :
    (Usable net.os a ∧ ∃ fd net', a.fd = .fd fd ∧
        tryListen net a = (.ok (fd, str "tcp://" ++ formatPeer a.name), net') ∧
        net.Opened fd (ready a.reuseFault) net') ∨
      (¬ Usable net.os a ∧ ∃ e, tryListen net a = (.error e, net)) := by
  rw [tryListen]
  rcases net.socket_cases true a.fd with ⟨fd, net₁, hfd, hrun, h₁⟩ | ⟨hno, text, hrun⟩ <;> rw [hrun]
  swap
  · exact .inr ⟨fun hu => hu.fd.elim fun n hn => hno n hn.1 hn.2, text, rfl⟩
  dsimp only
  have h₂ : net.Opened fd { nonblock := true, reuseAddr := !a.reuseFault }
      (if a.reuseFault then net₁ else net₁.tell fd fun s => { s with reuseAddr := true }) := by
    cases a.reuseFault with
    | true => exact h₁
    | false => exact h₁.tell fun s => { s with reuseAddr := true }
  generalize (if a.reuseFault then net₁ else net₁.tell fd fun s => { s with reuseAddr := true }) =
    net₂ at h₂ ⊢
  cases hbind : a.bindFault with
  | some text =>
    have hno : ¬ Usable net.os a := fun hu => by simp [hu.bound.1] at hbind
    exact .inr ⟨hno, text, congrArg _ (h₂.close hclean)⟩
  | none =>
    cases hlisten : a.listenFault with
    | some text =>
      have hno : ¬ Usable net.os a := fun hu => by simp [hu.bound.2] at hlisten
      exact .inr ⟨hno, text, congrArg _ (h₂.close hclean)⟩
    | none =>
      exact .inl ⟨⟨⟨fd, hfd, h₁.free⟩, hbind, hlisten⟩, fd, _, hfd, rfl,
        h₂.tell fun s => { s with listening := true }⟩

/-- **What `create` comes to**: the first address that can be bound and listened on is taken,
and one descriptor more is open; or there is none, there is an error, and everything is as
before. -/
theorem create_spec (hclean : net.Clean)
    (resolve : Bytes → Bytes → Except Bytes (List Interface)) (dest : Destination) :
    (∃ pre a post fd net',
        resolve (cStr dest.host) (cStr dest.port) = .ok (pre ++ a :: post) ∧
        (∀ b ∈ pre, ¬ Usable net.os b) ∧ Usable net.os a ∧ a.fd = .fd fd ∧
        create resolve dest net = ((some (fd, str "tcp://" ++ formatPeer a.name), []), net') ∧
        net.Opened fd (ready a.reuseFault) net') ∨
      ((∀ res, resolve (cStr dest.host) (cStr dest.port) = .ok res →
          ∀ a ∈ res, ¬ Usable net.os a) ∧
        ∃ error, error ≠ [] ∧ create resolve dest net = ((none, error), net)) := by
  rw [create]
  cases hres : resolve (cStr dest.host) (cStr dest.port) with
  | error text => exact .inr ⟨by simp, _, by simp, rfl⟩
  | ok res =>
    dsimp only
    rcases Net.firstOk_cases (fun a => tryListen_cases hclean.getaddrinfo a)
        (str "нет подходящих адресов") res with
      ⟨pre, a, post, fd, net', rfl, hpre, hu, hfd, hrun, h⟩ | ⟨hno, e, hrun⟩
    · rw [hrun]
      exact .inl ⟨pre, a, post, fd, _, rfl, hpre, hu, hfd, rfl, h.freeaddrinfo⟩
    · rw [hrun]
      refine .inr ⟨?_, _, ?_, rfl⟩
      · rintro _ ⟨⟩
        exact hno
      · simp

end Create

end TcpListener

end Nexus
