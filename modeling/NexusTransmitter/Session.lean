/-
One connection of the server: `server/Session`.

A `Session` is a state machine driven by epoll events. Its handlers are
translated one to one; what the system answers during one event is a `Sys`, and
the handlers hand on what is left of it. A log line is its kind with the values
it prints (`LogLine`), without the transfer speed.

`hist` is not in the source: it records what the session received, accepted and
did, for the statements about it.
-/
import NexusTransmitter.FileWriter
import NexusTransmitter.FrameParser

namespace Nexus

/-- `enum class State`. -/
inductive State
  | receiving
  | sendingAck
  | draining
  deriving DecidableEq, Repr

/-- A line of the log, written by a session. -/
inductive LogLine
  | diskError (error : Bytes)
  | started (sourceName : Bytes) (expectedSize : ℕ)
  | completed (fileName : Bytes)
  | failed (status : Status) (message : Bytes)
  | closedWithoutData (reason : Bytes)
  | aborted (reason : Bytes) (receivedSize expectedSize : ℕ)
  | ackSendError (text : Bytes)
  deriving DecidableEq, Repr

/-- What a session received and did. -/
structure History where
  /-- All bytes read from the connection. -/
  received : Bytes := []
  /-- The frames taken from the parser. -/
  frames : List Frame := []
  /-- The payloads of the DATA frames accepted, one after another. -/
  accepted : Bytes := []
  /-- The arguments of the calls of `queueAck`. -/
  acks : List (Status × Bytes) := []
  /-- The states passed through. -/
  states : List State := [.receiving]
  /-- All bytes the connection's `write` took. -/
  sent : Bytes := []
  lines : List LogLine := []

/-- `class Session`. `fd` is the descriptor of `m_conn` and `conn` the connection
behind it; `lastActivity` is in nanoseconds of the steady clock. -/
structure Session where
  id : ℕ
  fd : ℕ
  conn : ℕ
  state : State := .receiving
  parser : FrameParser := .fresh
  writer : FileWriter
  helloReceived : Bool := false
  completed : Bool := false
  terminated : Bool := false
  sourceName : Bytes := []
  expectedSize : ℕ := 0
  receivedSize : ℕ := 0
  crc : Crc32 := {}
  out : Bytes := []
  outPos : ℕ := 0
  lastActivity : ℤ
  hist : History := {}

/-- The system during one call of a handler: its state, and its answers to come.
The clock is read more than once in a call, but what a reading leaves behind is
overwritten by the next one, so `now` is the last. -/
structure Sys where
  os : Os
  sends : List SendAnswer := []
  writes : List WriteAnswer := []
  openAnswer : OpenAnswer
  fsyncFault : Option Bytes := none
  linkFaults : ℕ → Option Bytes := fun _ => none
  localTime : Tm
  now : ℤ
  /-- The text of the `errno` that an earlier call has left: a `send` that takes no
  byte sets none. -/
  errno : Bytes := str "Success"

def EPOLLIN : BitVec 32 := 0x001#32
def EPOLLOUT : BitVec 32 := 0x004#32
def EPOLLERR : BitVec 32 := 0x008#32
def EPOLLHUP : BitVec 32 := 0x010#32

namespace Session

/-- The constructor. -/
def create (id fd conn : ℕ) (outDir : Bytes) (now : ℤ) : Session where
  id := id
  fd := fd
  conn := conn
  writer := { dir := outDir }
  lastActivity := now

def touch (s : Session) (now : ℤ) : Session := { s with lastActivity := now }

/-- The duration `now - m_lastActivity` is compared with `timeout` seconds in
nanoseconds of 64 bits. The clock counts up from the start of the system, so the
duration itself is in range. -/
def expired (s : Session) (now timeout : ℤ) : Bool :=
  (timeout * 10 ^ 9).bmod (2 ^ 64) < now - s.lastActivity

def interest (s : Session) : BitVec 32 := if s.state = .sendingAck then EPOLLOUT else EPOLLIN

/-- A line in the log. -/
def log (s : Session) (line : LogLine) : Session :=
  { s with hist := { s.hist with lines := s.hist.lines ++ [line] } }

/-! ### Verdicts -/

def queueAck (s : Session) (status : Status) (message : Bytes) : Session :=
  { s with
    out := buildAck status message
    outPos := 0
    state := .sendingAck
    hist := { s.hist with
      acks := s.hist.acks ++ [(status, message)]
      states := s.hist.states ++ [.sendingAck] } }

def fail (s : Session) (os : Os) (status : Status) (message : Bytes) : Session × Os :=
  let (w, os) := s.writer.abort os
  ((({ s with writer := w } : Session).log (.failed status message)).queueAck status message, os)

def succeed (s : Session) (fileName : Bytes) : Session :=
  (({ s with completed := true } : Session).log (.completed fileName)).queueAck .ok fileName

/-- `fail`, and the handler returns `false`. -/
def failed (s : Session) (sys : Sys) (status : Status) (message : Bytes) : Bool × Session × Sys :=
  let (s, os) := s.fail sys.os status message
  (false, s, { sys with os := os })

/-! ### Frames -/

/-- A HELLO is accepted. -/
def start (s : Session) (hello : HelloPayload) : Session :=
  { s with
    helloReceived := true
    expectedSize := hello.fileSize
    sourceName := if hello.name = [] then str "(без имени)" else baseName hello.name }

/-- A DATA payload is in the file. -/
def store (s : Session) (data : Bytes) : Session :=
  { s with
    crc := s.crc.update data
    receivedSize := (s.receivedSize + data.length) % 2 ^ 64
    hist := { s.hist with accepted := s.hist.accepted ++ data } }

def onHello (s : Session) (sys : Sys) (data : Bytes) : Bool × Session × Sys :=
  if s.helloReceived then s.failed sys .protocolError (str "повторный HELLO")
  else
    match parseHello data with
    | none => s.failed sys .protocolError (str "некорректный HELLO")
    | some hello =>
      let s := s.start hello
      let (err, w, os) := s.writer.«open» sys.os sys.openAnswer
      let s : Session := { s with writer := w }
      let sys : Sys := { sys with os := os }
      if err ≠ [] then (s.log (.diskError err)).failed sys .ioError err
      else (true, s.log (.started s.sourceName s.expectedSize), sys)

def onData (s : Session) (sys : Sys) (data : Bytes) : Bool × Session × Sys :=
  if !s.helloReceived then s.failed sys .protocolError (str "DATA до HELLO")
  else if (s.receivedSize + data.length) % 2 ^ 64 > s.expectedSize then
    s.failed sys .sizeMismatch (str "принято больше данных, чем заявлено в HELLO")
  else
    let (err, writes, w, os) := s.writer.write sys.os data sys.writes
    let s : Session := { s with writer := w }
    let sys : Sys := { sys with os := os, writes := writes }
    if err ≠ [] then (s.log (.diskError err)).failed sys .ioError err
    else (true, s.store data, sys)

def onEnd (s : Session) (sys : Sys) (data : Bytes) : Bool × Session × Sys :=
  if !s.helloReceived then s.failed sys .protocolError (str "END до HELLO")
  else
    match parseEnd data with
    | none => s.failed sys .protocolError (str "некорректный END")
    | some fileCrc =>
      if s.receivedSize ≠ s.expectedSize then
        s.failed sys .sizeMismatch
          (str "получено " ++ formatSize s.receivedSize ++ str " вместо " ++
            formatSize s.expectedSize)
      else if s.crc.value ≠ fileCrc then
        s.failed sys .crcMismatch
          (str "CRC файла 0x" ++ hex s.crc.value.toNat ++ str " вместо 0x" ++ hex fileCrc.toNat)
      else
        let (result, w, os) :=
          s.writer.commit sys.os sys.fsyncFault sys.localTime sys.linkFaults
        let s : Session := { s with writer := w }
        let sys : Sys := { sys with os := os }
        if result.error ≠ [] then (s.log (.diskError result.error)).failed sys .ioError result.error
        else (true, s.succeed result.finalName, sys)

/-- The `switch` of `processFrames`. After an END it returns, whatever `onEnd`
said. -/
def onFrame (s : Session) (sys : Sys) (f : Frame) : Bool × Session × Sys :=
  match f.type with
  | .hello => s.onHello sys f.data
  | .data => s.onData sys f.data
  | .end => (false, (s.onEnd sys f.data).2)
  | .ack => s.failed sys .protocolError (str "клиент прислал ACK")

/-- A frame taken from the parser, which is `parser` now. -/
def take (s : Session) (f : Frame) (parser : FrameParser) : Session :=
  { s with parser := parser, hist := { s.hist with frames := s.hist.frames ++ [f] } }

/-- The loop of `processFrames`, for at most `fuel` frames. -/
def processFrames (s : Session) (sys : Sys) : ℕ → Bool × Session × Sys
  | 0 => (true, s, sys)
  | fuel + 1 =>
    match s.parser.next with
    | (.needMore, _) => (true, s, sys)
    | (.error e, _) => s.failed sys .protocolError e
    | (.ready f, parser) =>
      match (s.take f parser).onFrame sys f with
      | (true, s, sys) => s.processFrames sys fuel
      | (false, s, sys) => (false, s, sys)

/-! ### Events -/

/-- `n` more bytes of the ACK are out. -/
def advance (s : Session) (n : ℕ) (now : ℤ) : Session :=
  { s.touch now with
    outPos := s.outPos + n
    hist := { s.hist with sent := s.hist.sent ++ (s.out.drop s.outPos).take n } }

/-- The ACK is out. -/
def drain (s : Session) (now : ℤ) : Session :=
  { s.touch now with
    state := .draining
    hist := { s.hist with states := s.hist.states ++ [.draining] } }

/-- The loop of `onWritable`. Past the answers given the socket would block. -/
def sendLoop (s : Session) (sys : Sys) : List SendAnswer → Bool × Session × Sys
  | [] =>
    if s.outPos < s.out.length then (true, s, { sys with sends := [] })
    else (true, s.drain sys.now, { sys with sends := [] })
  | ans :: sends =>
    if s.outPos < s.out.length then
      match ans with
      | .took n =>
        if 0 < min n (s.out.length - s.outPos) then
          (s.advance (min n (s.out.length - s.outPos)) sys.now).sendLoop sys sends
        else (false, s.log (.ackSendError sys.errno), { sys with sends := sends })
      | .eagain => (true, s, { sys with sends := sends })
      | .eintr => s.sendLoop sys sends
      | .err text => (false, s.log (.ackSendError text), { sys with sends := sends })
    else (true, s.drain sys.now, { sys with sends := ans :: sends })

def onWritable (s : Session) (sys : Sys) : Bool × Session × Sys :=
  if s.state ≠ .sendingAck then (true, s, sys) else s.sendLoop sys sys.sends

/-- The lines that `terminate` logs. -/
def terminateLines (s : Session) (reason : Bytes) : List LogLine :=
  (if !s.completed && !s.helloReceived then [.closedWithoutData reason] else []) ++
    if !s.completed && s.helloReceived then [.aborted reason s.receivedSize s.expectedSize] else []

def terminate (s : Session) (os : Os) (reason : Bytes) : Session × Os :=
  if s.terminated then (s, os)
  else
    let (w, os) := s.writer.abort os
    ({ s with
      terminated := true
      writer := w
      hist := { s.hist with lines := s.hist.lines ++ s.terminateLines reason } }, os)

/-- `terminate`, and the handler returns `false`. -/
def terminates (s : Session) (sys : Sys) (reason : Bytes) : Bool × Session × Sys :=
  let (s, os) := s.terminate sys.os reason
  (false, s, { sys with os := os })

/-- Bytes read: they are parsed only while receiving. -/
def receive (s : Session) (bs : Bytes) (now : ℤ) : Session :=
  { s.touch now with
    parser := if s.state = .receiving then s.parser.feed bs else s.parser
    hist := { s.hist with received := s.hist.received ++ bs } }

/-- The loop of `onReadable` over the results of `read`. Past them the socket
would block. -/
def onReadable (s : Session) (sys : Sys) : List ReadAnswer → Bool × Session × Sys
  | [] => (true, s, sys)
  | .bytes [] :: _ =>
    if s.state = .draining then (false, s, sys)
    else if s.completed then (false, s, sys)
    else
      s.terminates sys
        (if s.helloReceived then str "клиент отключился, не завершив передачу"
          else str "клиент отключился до начала передачи")
  | .bytes (b :: bs) :: reads =>
    let s := s.receive (b :: bs) sys.now
    if s.state = .receiving then
      match s.processFrames sys s.parser.buffered with
      | (true, s, sys) => s.onReadable sys reads
      | (false, s, sys) => if s.state = .sendingAck then s.onWritable sys else (false, s, sys)
    else s.onReadable sys reads
  | .eagain :: _ => (true, s, sys)
  | .eintr :: reads => s.onReadable sys reads
  | .err text :: _ => s.terminates sys (str "ошибка чтения: " ++ text)

def handle (s : Session) (sys : Sys) (events : BitVec 32) (reads : List ReadAnswer) :
    Bool × Session × Sys :=
  if events &&& (EPOLLHUP ||| EPOLLERR) ≠ 0 ∧ events &&& EPOLLIN = 0 then
    if s.state ≠ .draining then s.terminates sys (str "соединение разорвано")
    else (false, s, sys)
  else
    match if events &&& EPOLLIN ≠ 0 then s.onReadable sys reads else (true, s, sys) with
    | (false, s, sys) => (false, s, sys)
    | (true, s, sys) =>
      if events &&& EPOLLOUT ≠ 0 then s.onWritable sys else (true, s, sys)

/-- The destructor: the connection is closed, then the writer's own destructor
runs. -/
def destroy (s : Session) (os : Os) : Session × Os :=
  let (w, os) := s.writer.abort (os.close s.fd)
  ({ s with writer := w }, os)

section Fields

variable (s : Session) (f : Frame) (p : FrameParser) (line : LogLine) (hello : HelloPayload)

@[simp] theorem take_writer : (s.take f p).writer = s.writer := rfl
@[simp] theorem take_helloReceived : (s.take f p).helloReceived = s.helloReceived := rfl
@[simp] theorem take_receivedSize : (s.take f p).receivedSize = s.receivedSize := rfl
@[simp] theorem take_expectedSize : (s.take f p).expectedSize = s.expectedSize := rfl
@[simp] theorem take_crc : (s.take f p).crc = s.crc := rfl
@[simp] theorem start_writer : (s.start hello).writer = s.writer := rfl
@[simp] theorem log_writer : (s.log line).writer = s.writer := rfl

end Fields

end Session

end Nexus
