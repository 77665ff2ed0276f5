/-
The client: `client/Client`.

A run of `sendFile` is one thread that waits for each call it makes. What the
system has answered so far is a `ClientSys`, and `sendFile` goes as far as these
answers take it: `none` says that it waits for the next one, `some code` that it
has returned. The progress lines of its log are left out.

`sent` and `received` are not in the source: they record what went over the
connection, for the statements about it.
-/
import NexusTransmitter.OperatingSystem
import NexusTransmitter.FrameParser

namespace Nexus

/-- What the system has answered to a run of `sendFile`. `tellg` is the end of
the file, if it can be opened; each of `fileReads` is what `file.read` puts into
the chunk. -/
structure ClientSys where
  tellg : Option ℤ
  seekFault : Bool := false
  connectFault : Option Bytes := none
  fileReads : List Bytes := []
  sends : List SendAnswer := []
  reads : List ReadAnswer := []
  /-- The text of the `errno` that an earlier call has left: a `send` that takes no
  byte sets none. -/
  errno : Bytes := str "Success"

/-- A line of the log, written by the client. -/
inductive ClientLine
  | cannotOpen (filePath : Bytes)
  | cannotSize (filePath : Bytes)
  | cannotConnect (error : Bytes)
  | started (name : Bytes) (fileSize : ℕ)
  | notStarted (error : Bytes)
  | changed (filePath : Bytes) (sent fileSize : ℕ)
  | interrupted (error : Bytes)
  | notEnded (error : Bytes)
  | unconfirmed (error : Bytes)
  | rejected (status : Byte) (message : Bytes)
  | completed (fileSize : ℕ) (crc : BitVec 32) (message : Bytes)
  deriving DecidableEq, Repr

/-- `AckResult`. The ACK means something only when the error is empty. -/
structure AckResult where
  ack : AckPayload := { status := Status.protocolError.code, message := [] }
  error : Bytes := []
  deriving DecidableEq, Repr

/-- A run of `sendFile`: the answers of the connection that it has not used yet,
and what it has sent, received and logged. -/
structure Client where
  sends : List SendAnswer
  reads : List ReadAnswer
  sent : Bytes := []
  received : Bytes := []
  lines : List ClientLine := []
  errno : Bytes := str "Success"
  deriving DecidableEq, Repr

def CHUNK_SIZE : ℕ := MAX_PAYLOAD

/-- The size of the buffer of `readAck`. -/
def READ_SIZE : ℕ := 4096

namespace Client

def log (c : Client) (line : ClientLine) : Client := { c with lines := c.lines ++ [line] }

/-- The connection's `write` has taken these bytes. -/
def push (c : Client) (p : Bytes) : Client := { c with sent := c.sent ++ p }

/-- The connection's `read` has given these bytes. -/
def pull (c : Client) (p : Bytes) : Client := { c with received := c.received ++ p }

/-- The loop of `writeAll` over the answers of `write`, with what is left of
`data`. The empty text is success. -/
def writeLoop (c : Client) (data : Bytes) (sends : List SendAnswer) : Option Bytes × Client :=
  if data = [] then (some [], { c with sends := sends })
  else
    match sends with
    | [] => (none, { c with sends := [] })
    | .took n :: sends =>
      if 0 < min n data.length then
        (c.push (data.take (min n data.length))).writeLoop (data.drop (min n data.length)) sends
      else (some (str "ошибка отправки: " ++ c.errno), { c with sends := sends })
    | .eintr :: sends => c.writeLoop data sends
    | .eagain :: sends =>
      (some (str "таймаут отправки: сервер не читает данные"), { c with sends := sends })
    | .err text :: sends => (some (str "ошибка отправки: " ++ text), { c with sends := sends })

def writeAll (c : Client) (data : Bytes) : Option Bytes × Client := c.writeLoop data c.sends

/-- What `readAck` makes of the frame it waited for. -/
def ackOfFrame (f : Frame) : AckResult :=
  if f.type ≠ .ack then { error := str "неожиданный кадр от сервера: " ++ f.type.typeName }
  else
    match parseAck f.data with
    | none => { error := str "некорректный ACK от сервера" }
    | some ack => { ack := ack }

/-- The loop of `readAck` over the answers of `read`. -/
def readLoop (c : Client) (parser : FrameParser) (reads : List ReadAnswer) :
    Option AckResult × Client :=
  match parser.next with
  | (.error e, _) =>
    (some { error := str "повреждён ответ сервера: " ++ e }, { c with reads := reads })
  | (.ready f, _) => (some (ackOfFrame f), { c with reads := reads })
  | (.needMore, parser) =>
    match reads with
    | [] => (none, { c with reads := [] })
    | .bytes [] :: reads =>
      (some { error := str "сервер закрыл соединение, не подтвердив приём" },
        { c with reads := reads })
    | .bytes (b :: bs) :: reads =>
      (c.pull ((b :: bs).take READ_SIZE)).readLoop (parser.feed ((b :: bs).take READ_SIZE)) reads
    | .eintr :: reads => c.readLoop parser reads
    | .eagain :: reads =>
      (some { error := str "таймаут ожидания подтверждения от сервера" }, { c with reads := reads })
    | .err text :: reads =>
      (some { error := str "ошибка чтения ответа: " ++ text }, { c with reads := reads })

def readAck (c : Client) : Option AckResult × Client := c.readLoop .fresh c.reads

/-- `sendFile` from the END on. -/
def finish (c : Client) (fileSize : ℕ) (crc : Crc32) : Option ℕ × Client :=
  match c.writeAll (buildEnd crc.value) with
  | (none, c) => (none, c)
  | (some err, c) =>
    if err ≠ [] then (some 4, c.log (.notEnded err))
    else
      match c.readAck with
      | (none, c) => (none, c)
      | (some ackResult, c) =>
        if ackResult.error ≠ [] then (some 5, c.log (.unconfirmed ackResult.error))
        else if ackResult.ack.status ≠ Status.ok.code then
          (some 6, c.log (.rejected ackResult.ack.status ackResult.ack.message))
        else (some 0, c.log (.completed fileSize crc.value ackResult.ack.message))

/-- `sendFile` from the loop over the file on. `sent` counts the bytes of the
file in 64 bits. -/
def sendBody (c : Client) (path : Bytes) (fileSize sent : ℕ) (crc : Crc32)
    (fileReads : List Bytes) : Option ℕ × Client :=
  if sent < fileSize then
    match fileReads with
    | [] => (none, c)
    | read :: fileReads =>
      let chunk := read.take CHUNK_SIZE
      if chunk.length ≤ 0 then (some 2, c.log (.changed path sent fileSize))
      else
        match c.writeAll (buildData chunk) with
        | (none, c) => (none, c)
        | (some err, c) =>
          if err ≠ [] then (some 4, c.log (.interrupted err))
          else
            c.sendBody path fileSize ((sent + chunk.length) % 2 ^ 64) (crc.update chunk) fileReads
  else c.finish fileSize crc

def sendFile (path : Bytes) (sys : ClientSys) : Option ℕ × Client :=
  let c : Client := { sends := sys.sends, reads := sys.reads, errno := sys.errno }
  match sys.tellg with
  | none => (some 2, c.log (.cannotOpen path))
  | some tellg =>
    let fileSize := (tellg % 2 ^ 64).toNat
    if sys.seekFault then (some 2, c.log (.cannotSize path))
    else
      match sys.connectFault with
      | some connErr => (some 3, c.log (.cannotConnect connErr))
      | none =>
        let name := baseName path
        let c := c.log (.started name fileSize)
        match c.writeAll (buildHello fileSize name) with
        | (none, c) => (none, c)
        | (some err, c) =>
          if err ≠ [] then (some 4, c.log (.notStarted err))
          else c.sendBody path fileSize 0 {} sys.fileReads

end Client

end Nexus
