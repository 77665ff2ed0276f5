/-
The wire format: `protocol/ByteIO` and `protocol/Protocol`.

A frame is

  magic(4) type(1) length(4) headerCrc(4) | payload(length) | payloadCrc(4)

with both checksums CRC-32 and all numbers in the byte order of the machine,
which is little-endian (x86). The builders and the payload parsers are
translated one to one; a payload pointer with its length is a byte list.
-/
import NexusTransmitter.Crc32

open LittleEndian

namespace Nexus

/-! ### `ByteIO` -/

def putU16 (v : ℕ) : Bytes := encode 2 v
def putU32 (v : BitVec 32) : Bytes := encode 4 v.toNat
def putU64 (v : ℕ) : Bytes := encode 8 v

def getU16 (p : Bytes) : ℕ := decode (p.take 2)
def getU32 (p : Bytes) : BitVec 32 := BitVec.ofNat 32 (decode (p.take 4))
def getU64 (p : Bytes) : ℕ := decode (p.take 8)

/-! ### Frame format and limits -/

/-- "NXFT" in little-endian. -/
def MAGIC : BitVec 32 := 0x5446584E#32

/-- magic(4) + type(1) + length(4), what `headerCrc` covers. -/
def HEADER_CRC_SPAN : ℕ := 9

def HEADER_SIZE : ℕ := 13
def TRAILER_SIZE : ℕ := 4
def MAX_PAYLOAD : ℕ := 64 * 1024
def MAX_NAME_LEN : ℕ := 1024

/-- `enum class Type`. -/
inductive FrameType
  | hello
  | data
  | «end»
  | ack
  deriving DecidableEq, Repr

namespace FrameType

/-- The enumerators' values. -/
def code : FrameType → Byte
  | hello => 1#8
  | data => 2#8
  | «end» => 3#8
  | ack => 4#8

/-- `static_cast<Type>` of a byte between `Hello` and `Ack`; `none` outside. -/
def ofCode (b : Byte) : Option FrameType :=
  if b = 1#8 then some hello
  else if b = 2#8 then some data
  else if b = 3#8 then some «end»
  else if b = 4#8 then some ack
  else none

theorem ofCode_eq_some {b : Byte} {t : FrameType} : ofCode b = some t ↔ b = t.code := by
  revert b
  cases t <;> decide +kernel

@[simp] theorem ofCode_code (t : FrameType) : ofCode t.code = some t := ofCode_eq_some.mpr rfl

def typeName : FrameType → Bytes
  | hello => str "HELLO"
  | data => str "DATA"
  | «end» => str "END"
  | ack => str "ACK"

end FrameType

/-- `enum class Status`, its declared values. -/
inductive Status
  | ok
  | protocolError
  | crcMismatch
  | sizeMismatch
  | ioError
  | timeout
  | busy
  deriving DecidableEq, Repr

namespace Status

/-- The enumerators' values. -/
def code : Status → Byte
  | ok => 0#8
  | protocolError => 1#8
  | crcMismatch => 2#8
  | sizeMismatch => 3#8
  | ioError => 4#8
  | timeout => 5#8
  | busy => 6#8

theorem code_injective : Function.Injective code := by
  intro s t h
  cases s <;> cases t <;> first | rfl | (exact absurd h (by decide))

end Status

/-- A parsed HELLO payload. -/
structure HelloPayload where
  fileSize : ℕ
  name : Bytes
  deriving DecidableEq, Repr

/-- A parsed ACK payload. The status is a cast byte, which need not be the
value of a declared enumerator. -/
structure AckPayload where
  status : Byte
  message : Bytes
  deriving DecidableEq, Repr

/-- One frame: its type and its payload. -/
structure Frame where
  type : FrameType
  data : Bytes
  deriving DecidableEq, Repr

/-! ### Builders -/

/-- The first nine bytes of a frame. -/
def frameHeader (type : FrameType) (len : ℕ) : Bytes :=
  putU32 MAGIC ++ [type.code] ++ putU32 (BitVec.ofNat 32 len)

def buildFrame (type : FrameType) (payload : Bytes) : Bytes :=
  frameHeader type payload.length ++ putU32 (crc32 (frameHeader type payload.length)) ++
    payload ++ putU32 (crc32 payload)

/-- A HELLO payload. -/
def helloPayload (fileSize : ℕ) (name : Bytes) : Bytes :=
  let nameLen := if name.length > MAX_NAME_LEN then MAX_NAME_LEN else name.length
  putU64 fileSize ++ putU16 nameLen ++ name.take nameLen

def buildHello (fileSize : ℕ) (name : Bytes) : Bytes :=
  buildFrame .hello (helloPayload fileSize name)

def buildData (data : Bytes) : Bytes := buildFrame .data data

def buildEnd (fileCrc : BitVec 32) : Bytes := buildFrame .end (putU32 fileCrc)

/-- An ACK payload. -/
def ackPayload (status : Status) (message : Bytes) : Bytes :=
  let msgLen := if message.length > MAX_NAME_LEN then MAX_NAME_LEN else message.length
  [status.code] ++ putU16 msgLen ++ message.take msgLen

def buildAck (status : Status) (message : Bytes) : Bytes :=
  buildFrame .ack (ackPayload status message)

/-! ### Payload parsers -/

def parseHello (data : Bytes) : Option HelloPayload :=
  if data.length < 10 then none
  else
    let nameLen := getU16 (data.drop 8)
    if data.length ≠ 10 + nameLen ∨ nameLen > MAX_NAME_LEN then none
    else some { fileSize := getU64 data, name := (data.drop 10).take nameLen }

def parseEnd (data : Bytes) : Option (BitVec 32) :=
  if data.length ≠ 4 then none else some (getU32 data)

def parseAck (data : Bytes) : Option AckPayload :=
  if data.length < 3 then none
  else
    let msgLen := getU16 (data.drop 1)
    if data.length ≠ 3 + msgLen then none
    else some { status := data.headD 0#8, message := (data.drop 3).take msgLen }

/-! ### What is put is what is got -/

@[simp] theorem length_putU16 (v : ℕ) : (putU16 v).length = 2 := length_encode 2 v
@[simp] theorem length_putU32 (v : BitVec 32) : (putU32 v).length = 4 := length_encode 4 _
@[simp] theorem length_putU64 (v : ℕ) : (putU64 v).length = 8 := length_encode 8 v

theorem getU16_putU16 {v : ℕ} (h : v < 2 ^ 16) (rest : Bytes) :
    getU16 (putU16 v ++ rest) = v := by
  rw [getU16, List.take_left' (length_putU16 v), putU16, decode_encode_of_lt (by omega)]

@[simp] theorem getU32_putU32 (v : BitVec 32) (rest : Bytes) : getU32 (putU32 v ++ rest) = v := by
  have hv : v.toNat < 256 ^ 4 := v.isLt
  rw [getU32, List.take_left' (length_putU32 v), putU32, decode_encode_of_lt hv,
    BitVec.ofNat_toNat, BitVec.setWidth_eq]

theorem getU64_putU64 (v : ℕ) (rest : Bytes) : getU64 (putU64 v ++ rest) = v % 2 ^ 64 := by
  rw [getU64, List.take_left' (length_putU64 v), putU64, decode_encode]
  rfl

theorem putU32_getU32 {p : Bytes} (h : 4 ≤ p.length) : putU32 (getU32 p) = p.take 4 := by
  have hlen : (p.take 4).length = 4 := by simpa using h
  have hlt : decode (p.take 4) < 2 ^ 32 := by
    have := decode_lt (p.take 4)
    rw [hlen] at this
    omega
  rw [putU32, getU32, BitVec.toNat_ofNat, Nat.mod_eq_of_lt hlt]
  calc encode 4 (decode (p.take 4))
      = encode (p.take 4).length (decode (p.take 4)) := by rw [hlen]
    _ = p.take 4 := encode_decode _

theorem getU64_lt (p : Bytes) : getU64 p < 2 ^ 64 := by
  have h := decode_lt (p.take 8)
  have hlen : (p.take 8).length ≤ 8 := List.length_take_le 8 p
  have hpow : 256 ^ (p.take 8).length ≤ 256 ^ 8 := Nat.pow_le_pow_right (by omega) hlen
  rw [getU64]
  omega

@[simp] theorem length_frameHeader (type : FrameType) (len : ℕ) :
    (frameHeader type len).length = HEADER_CRC_SPAN := by
  simp [frameHeader, HEADER_CRC_SPAN]

@[simp] theorem length_buildFrame (type : FrameType) (payload : Bytes) :
    (buildFrame type payload).length = HEADER_SIZE + payload.length + TRAILER_SIZE := by
  simp only [buildFrame, List.length_append, length_frameHeader, length_putU32, HEADER_CRC_SPAN,
    HEADER_SIZE, TRAILER_SIZE]

/-! ### Payload codecs -/

theorem helloPayload_eq (fileSize : ℕ) (name : Bytes) :
    helloPayload fileSize name =
      putU64 fileSize ++ putU16 (name.take MAX_NAME_LEN).length ++ name.take MAX_NAME_LEN := by
  rw [helloPayload]
  split
  · rw [List.length_take_of_le (by omega)]
  · rw [List.take_of_length_le (l := name) (i := MAX_NAME_LEN) (by omega), List.take_length]

theorem ackPayload_eq (status : Status) (message : Bytes) :
    ackPayload status message =
      [status.code] ++ putU16 (message.take MAX_NAME_LEN).length ++ message.take MAX_NAME_LEN := by
  rw [ackPayload]
  split
  · rw [List.length_take_of_le (by omega)]
  · rw [List.take_of_length_le (l := message) (i := MAX_NAME_LEN) (by omega), List.take_length]

theorem parseHello_helloPayload (fileSize : ℕ) (name : Bytes) :
    parseHello (helloPayload fileSize name) =
      some { fileSize := fileSize % 2 ^ 64, name := name.take MAX_NAME_LEN } := by
  have hname : (name.take MAX_NAME_LEN).length ≤ MAX_NAME_LEN := List.length_take_le _ _
  have hsize : getU64 (helloPayload fileSize name) = fileSize % 2 ^ 64 := by
    rw [helloPayload_eq, List.append_assoc, getU64_putU64]
  -- the name is cut before its length is put, so sixteen bits always hold it
  rw [helloPayload_eq] at hsize ⊢
  set n := name.take MAX_NAME_LEN with hn
  have hlen : getU16 ((putU64 fileSize ++ putU16 n.length ++ n).drop 8) = n.length := by
    rw [List.append_assoc, List.drop_left' (length_putU64 _), getU16_putU16]
    simp only [MAX_NAME_LEN] at hname
    omega
  have hdrop : (putU64 fileSize ++ putU16 n.length ++ n).drop 10 = n :=
    List.drop_left' (by simp)
  have htotal : (putU64 fileSize ++ putU16 n.length ++ n).length = 10 + n.length := by simp; omega
  rw [parseHello, if_neg (by omega)]
  simp only [hlen, hdrop, hsize, htotal]
  rw [if_neg (by omega), List.take_length]

theorem parseHello_fileSize_lt {data : Bytes} {h : HelloPayload} (hp : parseHello data = some h) :
    h.fileSize < 2 ^ 64 := by
  simp only [parseHello] at hp
  split at hp
  · cases hp
  · split at hp
    · cases hp
    · cases hp
      exact getU64_lt data

@[simp] theorem parseEnd_putU32 (c : BitVec 32) : parseEnd (putU32 c) = some c := by
  have := getU32_putU32 c []
  rw [List.append_nil] at this
  rw [parseEnd, if_neg (by simp), this]

theorem parseAck_ackPayload (status : Status) (message : Bytes) :
    parseAck (ackPayload status message) =
      some { status := status.code, message := message.take MAX_NAME_LEN } := by
  have hmsg : (message.take MAX_NAME_LEN).length ≤ MAX_NAME_LEN := List.length_take_le _ _
  rw [ackPayload_eq]
  set m := message.take MAX_NAME_LEN with hm
  have hlen : getU16 (([status.code] ++ putU16 m.length ++ m).drop 1) = m.length := by
    rw [List.append_assoc, List.singleton_append, List.drop_succ_cons, List.drop_zero,
      getU16_putU16]
    simp only [MAX_NAME_LEN] at hmsg
    omega
  have hdrop : ([status.code] ++ putU16 m.length ++ m).drop 3 = m := List.drop_left' (by simp)
  have htotal : ([status.code] ++ putU16 m.length ++ m).length = 3 + m.length := by simp; omega
  rw [parseAck, if_neg (by omega)]
  simp only [hlen, hdrop, htotal]
  rw [if_neg (by omega), List.take_length]
  rfl

theorem length_helloPayload_le (fileSize : ℕ) (name : Bytes) :
    (helloPayload fileSize name).length ≤ MAX_PAYLOAD := by
  have hname : (name.take MAX_NAME_LEN).length ≤ MAX_NAME_LEN := List.length_take_le _ _
  simp only [helloPayload_eq, List.length_append, length_putU64, length_putU16, MAX_PAYLOAD]
  simp only [MAX_NAME_LEN] at hname ⊢
  omega

theorem length_ackPayload_le (status : Status) (message : Bytes) :
    (ackPayload status message).length ≤ MAX_PAYLOAD := by
  have hmsg : (message.take MAX_NAME_LEN).length ≤ MAX_NAME_LEN := List.length_take_le _ _
  simp only [ackPayload_eq, List.length_append, length_putU16, List.length_singleton, MAX_PAYLOAD]
  simp only [MAX_NAME_LEN] at hmsg ⊢
  omega

end Nexus
