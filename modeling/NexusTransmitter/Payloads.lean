/-
The payloads of HELLO, END and ACK.

The builders and the parsers compute the lengths on their own, in different
widths. `parseHello_iff` and `parseEnd_iff` say that a parser accepts exactly
what its builder makes; `parseHelloChecked` and its neighbours are the parsers
once more, with each access to the buffer checked. `parseAck` looks at the layout
alone (`parseAck_iff`), so it takes more than `buildAck` makes.

* `payload_codecs_exact` — the codecs are inverse to each other, their frames are
  accepted by the frame parser, and no access goes past the end of the payload;
* `ack_codec_exact` — an ACK comes back as it was built, and what is accepted is
  laid out as an ACK; it is one that was built when its status is declared and its
  message is short enough.
-/
import NexusTransmitter.FrameParser

open LittleEndian StreamDecoder

namespace Nexus

/-! ### Accesses -/

/-- `n` bytes from `off` on; `none` when the access goes past the end. -/
def readAt (data : Bytes) (off n : ℕ) : Option Bytes :=
  if off + n ≤ data.length then some ((data.drop off).take n) else none

theorem readAt_of_le {data : Bytes} {off n : ℕ} (h : off + n ≤ data.length) :
    readAt data off n = some ((data.drop off).take n) := if_pos h

/-- `parseHello` with its accesses; the outer `none` is one past the end. -/
def parseHelloChecked (data : Bytes) : Option (Option HelloPayload) :=
  if data.length < 10 then some none
  else do
    let fileSize ← readAt data 0 8
    let nameLen ← readAt data 8 2
    if data.length ≠ 10 + decode nameLen ∨ decode nameLen > MAX_NAME_LEN then some none
    else do
      let name ← readAt data 10 (decode nameLen)
      some (some { fileSize := decode fileSize, name := name })

/-- `parseEnd` with its access. -/
def parseEndChecked (data : Bytes) : Option (Option (BitVec 32)) :=
  if data.length ≠ 4 then some none
  else do
    let fileCrc ← readAt data 0 4
    some (some (BitVec.ofNat 32 (decode fileCrc)))

/-- No access of `parseHello` goes past the end. -/
theorem parseHelloChecked_eq (data : Bytes) : parseHelloChecked data = some (parseHello data) := by
  rw [parseHelloChecked, parseHello]
  split
  · rfl
  rename_i hlen
  have hname : getU16 (data.drop 8) = decode ((data.drop 8).take 2) := rfl
  rw [readAt_of_le (by omega), readAt_of_le (by omega)]
  simp only [Option.bind_eq_bind, Option.bind_some, hname]
  split
  · rfl
  · -- the length of the name has been compared with the length of the payload
    rename_i hno
    rw [readAt_of_le (by omega), Option.bind_some, List.drop_zero]
    rfl

theorem parseEndChecked_eq (data : Bytes) : parseEndChecked data = some (parseEnd data) := by
  rw [parseEndChecked, parseEnd]
  split
  · rfl
  · rw [readAt_of_le (by omega), List.drop_zero]
    rfl

/-! ### What the parsers accept -/

theorem putU64_getU64 {p : Bytes} (h : 8 ≤ p.length) : putU64 (getU64 p) = p.take 8 := by
  have hlen : (p.take 8).length = 8 := by simpa using h
  have hback := encode_decode (p.take 8)
  rwa [hlen] at hback

theorem putU16_getU16 {p : Bytes} (h : 2 ≤ p.length) : putU16 (getU16 p) = p.take 2 := by
  have hlen : (p.take 2).length = 2 := by simpa using h
  have hback := encode_decode (p.take 2)
  rwa [hlen] at hback

theorem getU16_lt (p : Bytes) : getU16 p < 2 ^ 16 := by
  have h := decode_lt (p.take 2)
  have hlen : (p.take 2).length ≤ 2 := List.length_take_le 2 p
  have hpow : 256 ^ (p.take 2).length ≤ 256 ^ 2 := Nat.pow_le_pow_right (by omega) hlen
  rw [getU16]
  omega

theorem helloPayload_of_parseHello {data : Bytes} {hello : HelloPayload}
    (h : parseHello data = some hello) :
    hello.name.length ≤ MAX_NAME_LEN ∧ data = helloPayload hello.fileSize hello.name := by
  simp only [parseHello] at h
  split at h
  · cases h
  rename_i hmin
  split at h
  · cases h
  rename_i hlen
  obtain rfl := Option.some.inj h
  set n := getU16 (data.drop 8) with hn
  have hname : ((data.drop 10).take n).length = n := by
    rw [List.length_take, List.length_drop]
    omega
  have hle : ((data.drop 10).take n).length ≤ MAX_NAME_LEN := by omega
  refine ⟨hle, ?_⟩
  -- the payload is its eight bytes, its two bytes and its name
  have hrest : (data.drop 10).take n = data.drop 10 :=
    List.take_of_length_le (by rw [List.length_drop]; omega)
  have htwo : putU16 n = (data.drop 8).take 2 :=
    putU16_getU16 (by rw [List.length_drop]; omega)
  rw [helloPayload_eq, List.take_of_length_le hle, hname, putU64_getU64 (by omega), htwo, hrest,
    ← List.take_add, List.take_append_drop]

/-- `parseHello` accepts exactly the payloads of `buildHello`. -/
theorem parseHello_iff (data : Bytes) (fileSize : ℕ) (name : Bytes) :
    parseHello data = some { fileSize := fileSize, name := name } ↔
      fileSize < 2 ^ 64 ∧ name.length ≤ MAX_NAME_LEN ∧ data = helloPayload fileSize name := by
  constructor
  · intro h
    exact ⟨parseHello_fileSize_lt h, helloPayload_of_parseHello h⟩
  · rintro ⟨hlt, hname, rfl⟩
    rw [parseHello_helloPayload, Nat.mod_eq_of_lt hlt, List.take_of_length_le hname]

/-- `parseEnd` accepts exactly the payloads of `buildEnd`. -/
theorem parseEnd_iff (data : Bytes) (c : BitVec 32) : parseEnd data = some c ↔ data = putU32 c := by
  constructor
  · intro h
    rw [parseEnd] at h
    split at h
    · cases h
    · rename_i hlen
      obtain rfl := Option.some.inj h
      rw [putU32_getU32 (by omega), List.take_of_length_le (by omega)]
  · rintro rfl
    exact parseEnd_putU32 c

/-- A built frame that reaches the parser is taken, whatever comes behind it. -/
theorem next_feed_buildFrame (type : FrameType) {data : Bytes} (hdata : data.length ≤ MAX_PAYLOAD)
    (rest : Bytes) :
    (FrameParser.fresh.feed (buildFrame type data ++ rest)).next.1 =
      .ready { type := type, data := data } := by
  have hunread : (FrameParser.fresh.feed (buildFrame type data ++ rest)).unread =
      buildFrame type data ++ rest := by
    rw [FrameParser.unread_feed, FrameParser.fresh, FrameParser.unread_fresh, List.nil_append]
  rcases FrameParser.next_cases (FrameParser.fresh.feed (buildFrame type data ++ rest)) with
    ⟨h, -⟩ | ⟨e, h, -⟩ | ⟨f, n, q, h, hnext, -⟩ <;> rw [hunread, parseAt_buildFrame type hdata] at h
  · cases h
  · cases h
  · cases h
    rw [hnext]

/-- **The HELLO and END payload codecs are exact.**

* `parseHello` gives back what `buildHello` put in, the name cut to its limit, and
  `parseEnd` what `buildEnd` put in, and the frame parser takes both frames;
* what either parser accepts is exactly such a payload, and no other is accepted;
* neither reads past the end of any payload. -/
theorem payload_codecs_exact :
    (∀ (fileSize : BitVec 64) (name rest : Bytes),
      parseHello (helloPayload fileSize.toNat name) =
        some { fileSize := fileSize.toNat, name := name.take MAX_NAME_LEN } ∧
      (FrameParser.fresh.feed (buildHello fileSize.toNat name ++ rest)).next.1 =
        .ready { type := .hello, data := helloPayload fileSize.toNat name }) ∧
    (∀ (c : BitVec 32) (rest : Bytes),
      parseEnd (putU32 c) = some c ∧
      (FrameParser.fresh.feed (buildEnd c ++ rest)).next.1 =
        .ready { type := .end, data := putU32 c }) ∧
    (∀ (data : Bytes) (fileSize : ℕ) (name : Bytes),
      parseHello data = some { fileSize := fileSize, name := name } ↔
        fileSize < 2 ^ 64 ∧ name.length ≤ MAX_NAME_LEN ∧ data = helloPayload fileSize name) ∧
    (∀ (data : Bytes) (c : BitVec 32), parseEnd data = some c ↔ data = putU32 c) ∧
    ∀ data : Bytes, parseHelloChecked data = some (parseHello data) ∧
      parseEndChecked data = some (parseEnd data) := by
  refine ⟨fun fileSize name rest => ⟨?_, ?_⟩, fun c rest => ⟨parseEnd_putU32 c, ?_⟩, parseHello_iff,
    parseEnd_iff, fun data => ⟨parseHelloChecked_eq data, parseEndChecked_eq data⟩⟩
  · rw [parseHello_helloPayload, Nat.mod_eq_of_lt fileSize.isLt]
  · exact next_feed_buildFrame .hello (length_helloPayload_le _ name) rest
  · exact next_feed_buildFrame .end (by rw [length_putU32]; decide) rest

/-! ### ACK -/

/-- An accepted payload is a byte, two bytes of length and that many bytes. -/
theorem ackLayout_of_parseAck {data : Bytes} {ack : AckPayload} (h : parseAck data = some ack) :
    ack.message.length < 2 ^ 16 ∧
      data = ack.status :: (putU16 ack.message.length ++ ack.message) := by
  simp only [parseAck] at h
  split at h
  · cases h
  rename_i hmin
  split at h
  · cases h
  rename_i hlen
  obtain rfl := Option.some.inj h
  set n := getU16 (data.drop 1) with hn
  have hrest : (data.drop 3).take n = data.drop 3 :=
    List.take_of_length_le (by rw [List.length_drop]; omega)
  have hmessage : ((data.drop 3).take n).length = n := by
    rw [hrest, List.length_drop]
    omega
  have htwo : putU16 n = (data.drop 1).take 2 :=
    putU16_getU16 (by rw [List.length_drop]; omega)
  refine ⟨by rw [hmessage]; exact getU16_lt _, ?_⟩
  -- the payload is its first byte, its next two and the rest
  obtain ⟨b, rest, rfl⟩ := List.exists_cons_of_length_pos (l := data) (by omega)
  have hcut : (rest.take 2 ++ rest.drop 2) = rest := List.take_append_drop 2 rest
  rw [hmessage, htwo, hrest]
  exact congrArg (b :: ·) hcut.symm

/-- `parseAck` accepts exactly the payloads laid out as an ACK. -/
theorem parseAck_iff (data : Bytes) (status : Byte) (message : Bytes) :
    parseAck data = some { status := status, message := message } ↔
      message.length < 2 ^ 16 ∧ data = status :: (putU16 message.length ++ message) := by
  constructor
  · exact ackLayout_of_parseAck
  · rintro ⟨hlt, rfl⟩
    have hlen : getU16 ((status :: (putU16 message.length ++ message)).drop 1) = message.length :=
      getU16_putU16 hlt message
    have hdrop : (status :: (putU16 message.length ++ message)).drop 3 = message := by
      rw [List.drop_succ_cons, List.drop_left' (length_putU16 _)]
    have htotal : (status :: (putU16 message.length ++ message)).length = 3 + message.length := by
      rw [List.length_cons, List.length_append, length_putU16]
      omega
    rw [parseAck, if_neg (by omega)]
    simp only [hlen, hdrop, htotal]
    rw [if_neg (by omega), List.take_length, List.headD_cons]

/-- A layout is that of a built ACK when the status is its status and nothing was
cut off the message. -/
theorem layout_eq_ackPayload_iff (status : Status) (s : Byte) (message : Bytes) :
    s = status.code ∧ s :: (putU16 message.length ++ message) = ackPayload status message ↔
      s = status.code ∧ message.length ≤ MAX_NAME_LEN := by
  refine and_congr_right ?_
  rintro rfl
  constructor
  · intro h
    have hlen := congrArg List.length h
    rw [ackPayload_eq] at hlen
    simp only [List.length_cons, List.length_append, List.length_nil, length_putU16,
      List.length_take] at hlen
    omega
  · intro h
    rw [ackPayload_eq, List.take_of_length_le h, List.append_assoc, List.singleton_append]

/-- **The ACK payload codec.**

* `parseAck` gives back what `buildAck` put in, the message cut to its limit;
* what it accepts is laid out as an ACK: a byte, the length of the message and the
  message;
* this is a payload of `buildAck` exactly when the byte is a declared status and the
  message keeps to its limit. -/
theorem ack_codec_exact :
    (∀ (status : Status) (message : Bytes),
      parseAck (ackPayload status message) =
        some { status := status.code, message := message.take MAX_NAME_LEN }) ∧
    ∀ (data : Bytes) (s : Byte) (message : Bytes),
      parseAck data = some { status := s, message := message } →
        data = s :: (putU16 message.length ++ message) ∧
        ((∃ status : Status, s = status.code ∧ data = ackPayload status message) ↔
          (∃ status : Status, s = status.code) ∧ message.length ≤ MAX_NAME_LEN) := by
  refine ⟨parseAck_ackPayload, fun data s message h => ?_⟩
  obtain ⟨-, rfl⟩ := (parseAck_iff data s message).mp h
  refine ⟨rfl, ?_⟩
  rw [← exists_and_right]
  exact exists_congr fun status => layout_eq_ackPayload_iff status s message

/-- An Ok with a name of three bytes. -/
theorem ack_codec_exact_three_bytes :
    parseAck (ackPayload .ok [0x61#8, 0x2E#8, 0x62#8]) =
        some { status := 0#8, message := [0x61#8, 0x2E#8, 0x62#8] } ∧
      [0#8, 3#8, 0#8, 0x61#8, 0x2E#8, 0x62#8] =
        0#8 :: (putU16 ([0x61#8, 0x2E#8, 0x62#8] : Bytes).length ++ [0x61#8, 0x2E#8, 0x62#8]) :=
  ⟨ack_codec_exact.1 .ok [0x61#8, 0x2E#8, 0x62#8],
    (ack_codec_exact.2 [0#8, 3#8, 0#8, 0x61#8, 0x2E#8, 0x62#8] 0#8 [0x61#8, 0x2E#8, 0x62#8]
      (by decide)).1⟩

/-- A status that is not declared is accepted, and no ACK that is built has it. -/
theorem ack_undeclared :
    ¬ ∀ (data : Bytes) (s : Byte) (message : Bytes), data.length ≤ MAX_PAYLOAD →
      parseAck data = some { status := s, message := message } →
        ∃ status : Status, s = status.code ∧ data = ackPayload status message := by
  intro h
  obtain ⟨status, hcode, -⟩ := h [7#8, 0#8, 0#8] 7#8 [] (by decide) (by decide)
  cases status <;> exact absurd hcode (by decide)

end Nexus
