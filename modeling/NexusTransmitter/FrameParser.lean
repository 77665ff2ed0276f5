/-
The incremental frame parser `protocol/FrameParser`.

`FrameParser` keeps the bytes received and how many of them are already parsed;
`next` looks at the rest and takes one frame off it. All of `next` but the
advance of `m_pos` is `parseAt`, a function of the unread bytes, which is a
`StreamDecoder.Decoder` (`frameDecoder`: what it decides on a prefix stands when
more bytes arrive) and together with `buildFrame` a `StreamDecoder.Codec`
(`frameCodec`).

* `chunking_independent` — however a stream is cut into `feed` calls, draining
  the parser after each gives the same frames and the same end;
* `frame_codec_exact` — the parser takes exactly the encodings of
  `buildFrame`, one after another, and nothing else.
-/
import NexusTransmitter.Lib.StreamDecoder
import NexusTransmitter.Protocol

open StreamDecoder

namespace Nexus

/-! ### The parser -/

/-- `enum class ParseResult` with the fields of `ParseOutcome` that each result
gives a meaning to. -/
inductive ParseOutcome
  | needMore
  | ready (frame : Frame)
  | error (error : Bytes)
  deriving DecidableEq, Repr

/-- The body of `FrameParser::next` on the `avail` unread bytes `h`: the frame
at their front with its total length. -/
def parseAt (h : Bytes) : Scan Frame Bytes :=
  if h.length < HEADER_SIZE then .needMore
  else if getU32 h ≠ MAGIC then .error (str "неверная сигнатура кадра")
  else if getU32 (h.drop HEADER_CRC_SPAN) ≠ crc32 (h.take HEADER_CRC_SPAN) then
    .error (str "повреждён заголовок кадра (CRC)")
  else
    -- byte 4 is the type, the length starts at byte 5
    let len := (getU32 (h.drop 5)).toNat
    if len > MAX_PAYLOAD then .error (str "слишком большой кадр: " ++ dec len ++ str " Б")
    else
      let total := HEADER_SIZE + len + TRAILER_SIZE
      if h.length < total then .needMore
      else
        let payload := (h.drop HEADER_SIZE).take len
        if getU32 (h.drop (HEADER_SIZE + len)) ≠ crc32 payload then
          .error (str "повреждены данные кадра (CRC)")
        else
          let rawType := h.getD 4 0#8
          match FrameType.ofCode rawType with
          | none => .error (str "неизвестный тип кадра: " ++ dec rawType.toNat)
          | some type => .ready { type := type, data := payload } total

theorem parseAt_ready {h : Bytes} {f : Frame} {n : ℕ} (hp : parseAt h = .ready f n) :
    n = HEADER_SIZE + f.data.length + TRAILER_SIZE ∧ n ≤ h.length ∧
      f.data.length ≤ MAX_PAYLOAD ∧ h.take n = buildFrame f.type f.data := by
  -- every test of `parseAt` was passed
  simp only [parseAt] at hp
  split at hp
  · cases hp
  rename_i hheader
  split at hp
  · cases hp
  rename_i hmagic
  split at hp
  · cases hp
  rename_i hcrc
  split at hp
  · cases hp
  rename_i hmax
  split at hp
  · cases hp
  rename_i htotal
  split at hp
  · cases hp
  rename_i hpcrc
  split at hp
  · cases hp
  rename_i t htype
  simp only [Decidable.not_not] at hmagic hcrc hpcrc
  obtain ⟨rfl, rfl⟩ :
      { type := t, data := (h.drop HEADER_SIZE).take (getU32 (h.drop 5)).toNat } = f ∧
      HEADER_SIZE + (getU32 (h.drop 5)).toNat + TRAILER_SIZE = n := by
    simpa using hp
  set len := (getU32 (h.drop 5)).toNat with hlen
  simp only [HEADER_SIZE, HEADER_CRC_SPAN, TRAILER_SIZE, MAX_PAYLOAD] at *
  have hdata : ((h.drop 13).take len).length = len := by
    rw [List.length_take, List.length_drop]
    omega
  refine ⟨by rw [hdata], by omega, by omega, ?_⟩
  -- the header is the bytes that `frameHeader` puts
  have hhead : frameHeader t len = h.take 9 := by
    have h4 : putU32 MAGIC = h.take 4 := by rw [← hmagic, putU32_getU32 (by omega)]
    have h5 : putU32 (BitVec.ofNat 32 len) = (h.drop 5).take 4 := by
      rw [hlen, BitVec.ofNat_toNat, BitVec.setWidth_eq,
        putU32_getU32 (by rw [List.length_drop]; omega)]
    have hcode : [t.code] = (h.drop 4).take 1 := by
      have := (FrameType.ofCode_eq_some.mp htype).symm
      rw [this, List.getD_eq_getElem _ _ (show 4 < h.length by omega)]
      rw [List.drop_eq_getElem_cons (show 4 < h.length by omega)]
      rfl
    rw [frameHeader, h4, h5, hcode, ← List.take_add, ← List.take_add]
  -- and both checksums are the bytes they were compared with
  have hcrcBytes : putU32 (crc32 (h.take 9)) = (h.drop 9).take 4 := by
    rw [← hcrc, putU32_getU32 (by rw [List.length_drop]; omega)]
  have hpcrcBytes : putU32 (crc32 ((h.drop 13).take len)) = (h.drop (13 + len)).take 4 := by
    rw [← hpcrc, putU32_getU32 (by rw [List.length_drop]; omega)]
  rw [buildFrame, hdata, hhead, hcrcBytes, hpcrcBytes, ← List.take_add, ← List.take_add,
    ← List.take_add]

/-- No frame is longer than the largest one: with so many bytes there is a
decision. -/
theorem length_lt_of_needMore {h : Bytes} (hp : parseAt h = .needMore) :
    h.length < HEADER_SIZE + MAX_PAYLOAD + TRAILER_SIZE := by
  simp only [parseAt] at hp
  split at hp
  · rename_i hheader
    omega
  split at hp
  · cases hp
  split at hp
  · cases hp
  split at hp
  · cases hp
  rename_i hmax
  split at hp
  · rename_i htotal
    omega
  split at hp
  · cases hp
  split at hp <;> cases hp

theorem getU32_drop_append {h : Bytes} {n : ℕ} (hn : n + 4 ≤ h.length) (t : Bytes) :
    getU32 ((h ++ t).drop n) = getU32 (h.drop n) := by
  rw [List.drop_append_of_le_length (by omega), getU32, getU32,
    List.take_append_of_le_length (by rw [List.length_drop]; omega)]

/-- A decision taken on a prefix stands: every byte it looks at is there. -/
theorem parseAt_append {h : Bytes} (t : Bytes) (hp : parseAt h ≠ .needMore) :
    parseAt (h ++ t) = parseAt h := by
  by_cases hheader : h.length < HEADER_SIZE
  · exact absurd (by rw [parseAt, if_pos hheader]) hp
  simp only [HEADER_SIZE] at hheader
  have hmagic : getU32 (h ++ t) = getU32 h := getU32_drop_append (n := 0) (by omega) t
  have hspan : (h ++ t).take HEADER_CRC_SPAN = h.take HEADER_CRC_SPAN :=
    List.take_append_of_le_length (by simp only [HEADER_CRC_SPAN]; omega)
  have hcrc : getU32 ((h ++ t).drop HEADER_CRC_SPAN) = getU32 (h.drop HEADER_CRC_SPAN) :=
    getU32_drop_append (by simp only [HEADER_CRC_SPAN]; omega) t
  have hlen : getU32 ((h ++ t).drop 5) = getU32 (h.drop 5) := getU32_drop_append (by omega) t
  have htype : (h ++ t).getD 4 0#8 = h.getD 4 0#8 :=
    List.getD_append _ _ _ _ (by omega)
  simp only [parseAt, hmagic, hspan, hcrc, hlen, htype] at hp ⊢
  set len := (getU32 (h.drop 5)).toNat
  by_cases htotal : h.length < HEADER_SIZE + len + TRAILER_SIZE
  · -- the frame is not all there, so the decision was taken on the header
    simp only [if_pos htotal] at hp ⊢
    have hlong : ¬ (h ++ t).length < HEADER_SIZE := by
      simp only [List.length_append, HEADER_SIZE]
      omega
    have hlong' : ¬ h.length < HEADER_SIZE := by simpa only [HEADER_SIZE] using hheader
    simp only [if_neg hlong, if_neg hlong'] at hp ⊢
    split
    · rfl
    split
    · rfl
    split
    · rfl
    simp_all
  · -- the frame is all there, payload and trailer included
    simp only [HEADER_SIZE, TRAILER_SIZE] at htotal
    have hpay : ((h ++ t).drop HEADER_SIZE).take len = (h.drop HEADER_SIZE).take len := by
      simp only [HEADER_SIZE]
      rw [List.drop_append_of_le_length (by omega),
        List.take_append_of_le_length (by rw [List.length_drop]; omega)]
    have hpcrc : getU32 ((h ++ t).drop (HEADER_SIZE + len)) =
        getU32 (h.drop (HEADER_SIZE + len)) :=
      getU32_drop_append (by simp only [HEADER_SIZE]; omega) t
    have hcond : ∀ n ≤ h.length, ¬ (h ++ t).length < n := by
      intro n hn
      rw [List.length_append]
      omega
    rw [hpay, hpcrc, if_neg (hcond HEADER_SIZE (by simp only [HEADER_SIZE]; omega)),
      if_neg (hcond _ (by simp only [HEADER_SIZE, TRAILER_SIZE]; omega)),
      if_neg (show ¬ h.length < HEADER_SIZE by simp only [HEADER_SIZE]; omega),
      if_neg (show ¬ h.length < HEADER_SIZE + len + TRAILER_SIZE by
        simp only [HEADER_SIZE, TRAILER_SIZE]; omega)]

/-- A frame that was built is parsed back, whatever follows it. -/
theorem parseAt_buildFrame (type : FrameType) {data : Bytes} (hd : data.length ≤ MAX_PAYLOAD)
    (t : Bytes) :
    parseAt (buildFrame type data ++ t) =
      .ready { type := type, data := data } (HEADER_SIZE + data.length + TRAILER_SIZE) := by
  set s := buildFrame type data ++ t with hs
  set head := frameHeader type data.length with hhead
  have hheadLen : head.length = 9 := length_frameHeader _ _
  -- the frame, split at each offset the parser looks at
  have hs9 : s = head ++ (putU32 (crc32 head) ++ (data ++ (putU32 (crc32 data) ++ t))) := by
    simp [hs, buildFrame, ← hhead]
  have hs5 : s = (putU32 MAGIC ++ [type.code]) ++ (putU32 (BitVec.ofNat 32 data.length) ++
      (putU32 (crc32 head) ++ (data ++ (putU32 (crc32 data) ++ t)))) := by
    simp [hs9, hhead, frameHeader]
  have hs13 : s = (head ++ putU32 (crc32 head)) ++ (data ++ (putU32 (crc32 data) ++ t)) := by
    simp [hs9]
  have hsEnd : s = (head ++ putU32 (crc32 head) ++ data) ++ (putU32 (crc32 data) ++ t) := by
    simp [hs9]
  have hslen : HEADER_SIZE + data.length + TRAILER_SIZE ≤ s.length := by
    rw [hs, List.length_append, length_buildFrame]
    omega
  have hmagic : getU32 s = MAGIC := by
    rw [hs5, List.append_assoc]
    exact getU32_putU32 _ _
  have hspan : s.take HEADER_CRC_SPAN = head := by rw [hs9]; exact List.take_left' hheadLen
  have hcrc : getU32 (s.drop HEADER_CRC_SPAN) = crc32 head := by
    rw [hs9, List.drop_left' (show head.length = HEADER_CRC_SPAN from hheadLen), getU32_putU32]
  have hlen : (getU32 (s.drop 5)).toNat = data.length := by
    rw [hs5, List.drop_left' (by simp), getU32_putU32, BitVec.toNat_ofNat, Nat.mod_eq_of_lt]
    simp only [MAX_PAYLOAD] at hd
    omega
  have hpay : (s.drop HEADER_SIZE).take data.length = data := by
    rw [hs13, List.drop_left' (by simp [hheadLen, HEADER_SIZE]), List.take_left' rfl]
  have hpcrc : getU32 (s.drop (HEADER_SIZE + data.length)) = crc32 data := by
    rw [hsEnd, List.drop_left' (by simp [hheadLen, HEADER_SIZE]; omega), getU32_putU32]
  have htype : s.getD 4 0#8 = type.code := by
    rw [hs5, List.append_assoc, List.getD_append_right _ _ _ _ (by simp), length_putU32]
    rfl
  have h1 : ¬ s.length < HEADER_SIZE := by simp only [HEADER_SIZE, TRAILER_SIZE] at *; omega
  simp only [parseAt, hmagic, hspan, hcrc, hlen, hpay, hpcrc, htype, FrameType.ofCode_code, h1,
    not_lt.mpr hd, not_lt.mpr hslen, ne_eq, not_true_eq_false, if_false]

theorem parseAt_ready_pos {h : Bytes} {f : Frame} {n : ℕ} (hp : parseAt h = .ready f n) :
    0 < n := by
  have := (parseAt_ready hp).1
  simp only [HEADER_SIZE] at this
  omega

theorem parseAt_ready_append {h : Bytes} {f : Frame} {n : ℕ} (t : Bytes)
    (hp : parseAt h = .ready f n) : parseAt (h ++ t) = .ready f n := by
  rw [parseAt_append t (by rw [hp]; simp), hp]

theorem parseAt_error_append {h e : Bytes} (t : Bytes) (hp : parseAt h = .error e) :
    parseAt (h ++ t) = .error e := by
  rw [parseAt_append t (by rw [hp]; simp), hp]

/-- `parseAt` as a stream decoder. -/
def frameDecoder : Decoder Byte Frame Bytes where
  scan := parseAt
  used_pos := parseAt_ready_pos
  used_le := fun h => (parseAt_ready h).2.1
  ready_append := parseAt_ready_append
  error_append := parseAt_error_append

@[simp] theorem frameDecoder_scan : frameDecoder.scan = parseAt := rfl

/-- `parseAt` with `buildFrame`, which it inverts exactly. -/
def frameCodec : Codec Byte Frame Bytes where
  toDecoder := frameDecoder
  Valid := fun f => f.data.length ≤ MAX_PAYLOAD
  encode := fun f => buildFrame f.type f.data
  scan_encode := fun {f} t h => by
    rw [frameDecoder_scan, parseAt_buildFrame f.type h t, length_buildFrame]
  of_ready := fun h => (parseAt_ready h).2.2

/-- `class FrameParser`: `m_buf`, and the length `m_pos` of its parsed prefix. -/
structure FrameParser where
  buf : Bytes := []
  pos : ℕ := 0
  pos_le : pos ≤ buf.length := by exact Nat.zero_le _

namespace FrameParser

/-- The bytes at `m_buf.data() + m_pos`, received and not parsed yet. -/
def unread (p : FrameParser) : Bytes := p.buf.drop p.pos

def buffered (p : FrameParser) : ℕ := p.buf.length - p.pos

def compact (p : FrameParser) : FrameParser :=
  if p.pos = 0 then p else { buf := p.buf.drop p.pos }

def feed (p : FrameParser) (data : Bytes) : FrameParser where
  buf := p.compact.buf ++ data
  pos := p.compact.pos
  pos_le := by
    have := p.compact.pos_le
    rw [List.length_append]
    omega

/-- A parser that has just been constructed. -/
def fresh : FrameParser := {}

def reset (_ : FrameParser) : FrameParser := {}

def next (p : FrameParser) : ParseOutcome × FrameParser :=
  match h : parseAt p.unread with
  | .needMore => (.needMore, p)
  | .error e => (.error e, p)
  | .ready frame total =>
    (.ready frame, { p with
      pos := p.pos + total
      pos_le := by
        have h1 := (parseAt_ready h).2.1
        have h2 := p.pos_le
        rw [unread, List.length_drop] at h1
        omega })

@[simp] theorem length_unread (p : FrameParser) : p.unread.length = p.buffered := List.length_drop

@[simp] theorem unread_fresh : ({} : FrameParser).unread = [] := rfl

@[simp] theorem unread_compact (p : FrameParser) : p.compact.unread = p.unread := by
  unfold compact
  split
  · rfl
  · simp [unread]

@[simp] theorem unread_feed (p : FrameParser) (data : Bytes) :
    (p.feed data).unread = p.unread ++ data := by
  have hcut : (p.compact.buf ++ data).drop p.compact.pos = p.compact.unread ++ data :=
    List.drop_append_of_le_length p.compact.pos_le
  rw [← unread_compact p, ← hcut]
  rfl

/-- What `next` says depends on the unread bytes alone, and only a frame moves
the parser. -/
theorem next_cases (p : FrameParser) :
    (parseAt p.unread = .needMore ∧ p.next = (.needMore, p)) ∨
    (∃ e, parseAt p.unread = .error e ∧ p.next = (.error e, p)) ∨
    (∃ f n q, parseAt p.unread = .ready f n ∧ p.next = (.ready f, q) ∧
      q.unread = p.unread.drop n) := by
  unfold next
  split
  · rename_i h
    exact .inl ⟨h, rfl⟩
  · rename_i e h
    exact .inr (.inl ⟨e, h, rfl⟩)
  · rename_i f n h
    exact .inr (.inr ⟨f, n, _, h, rfl, by simp [unread]⟩)

theorem next_needMore {p q : FrameParser} (h : p.next = (.needMore, q)) :
    parseAt p.unread = .needMore ∧ q = p := by
  rcases next_cases p with ⟨h1, h2⟩ | ⟨e, h1, h2⟩ | ⟨f, n, r, h1, h2, h3⟩
  all_goals rw [h] at h2; cases h2
  exact ⟨h1, rfl⟩

theorem next_error {p q : FrameParser} {e : Bytes} (h : p.next = (.error e, q)) :
    parseAt p.unread = .error e ∧ q = p := by
  rcases next_cases p with ⟨h1, h2⟩ | ⟨e', h1, h2⟩ | ⟨f, n, r, h1, h2, h3⟩
  all_goals rw [h] at h2; cases h2
  exact ⟨h1, rfl⟩

theorem next_ready {p q : FrameParser} {f : Frame} (h : p.next = (.ready f, q)) :
    ∃ n, parseAt p.unread = .ready f n ∧ q.unread = p.unread.drop n := by
  rcases next_cases p with ⟨h1, h2⟩ | ⟨e', h1, h2⟩ | ⟨f', n, r, h1, h2, h3⟩
  all_goals rw [h] at h2; cases h2
  exact ⟨n, h1, h3⟩

theorem next_of_scan_error {p : FrameParser} {e : Bytes} (h : parseAt p.unread = .error e) :
    p.next = (.error e, p) := by
  rcases next_cases p with ⟨h1, -⟩ | ⟨e', h1, h2⟩ | ⟨f, n, q, h1, -⟩
  · rw [h] at h1; cases h1
  · rw [h] at h1; cases h1; exact h2
  · rw [h] at h1; cases h1

theorem buffered_next {p q : FrameParser} {f : Frame} (h : p.next = (.ready f, q)) :
    q.buffered < p.buffered := by
  obtain ⟨n, hscan, hq⟩ := next_ready h
  have h1 := frameDecoder.used_pos hscan
  have h2 := frameDecoder.used_le hscan
  rw [← length_unread, ← length_unread, hq, List.length_drop]
  omega

/-- The bytes `next` consumes for a frame are the frame's encoding. -/
theorem unread_eq_of_ready {p q : FrameParser} {f : Frame} (h : p.next = (.ready f, q)) :
    p.unread = buildFrame f.type f.data ++ q.unread ∧ f.data.length ≤ MAX_PAYLOAD := by
  obtain ⟨n, hscan, hq⟩ := next_ready h
  obtain ⟨hvalid, heq⟩ := Codec.of_scan_ready (C := frameCodec) hscan
  rw [hq]
  exact ⟨heq, hvalid⟩

/-! ### Draining -/

/-- Call `next` until it returns something other than `Ready`: the frames, the
last outcome, and the parser after it. -/
def drain (p : FrameParser) : List Frame × ParseOutcome × FrameParser :=
  match h : p.next with
  | (.ready f, q) =>
    have := buffered_next h
    let r := drain q
    (f :: r.1, r.2)
  | (.needMore, q) => ([], .needMore, q)
  | (.error e, q) => ([], .error e, q)
  termination_by p.buffered

/-- Feed pieces one after another, draining the parser after each. -/
def feedPieces (p : FrameParser) (pieces : List Bytes) :
    List Frame × ParseOutcome × FrameParser :=
  pieces.foldl
    (fun r piece =>
      let d := (r.2.2.feed piece).drain
      (r.1 ++ d.1, d.2))
    ([], .needMore, p)

/-- The state after draining, as a stopped run of the decoder. -/
def stopOf (o : ParseOutcome) (p : FrameParser) : Stop Byte Bytes :=
  match o with
  | .error e => .error e
  | _ => .needMore p.unread

theorem drain_of_ready {p q : FrameParser} {f : Frame} (h : p.next = (.ready f, q)) :
    p.drain = (f :: q.drain.1, q.drain.2) := by
  rw [drain]; split <;> simp_all

/-- Draining is a run of the decoder over the unread bytes; it ends in front of
what it could not take. -/
theorem drain_spec (p : FrameParser) :
    run frameDecoder p.unread = (p.drain.1, stopOf p.drain.2.1 p.drain.2.2) ∧
      p.drain.2.2.next = (p.drain.2.1, p.drain.2.2) ∧ ∀ f, p.drain.2.1 ≠ .ready f := by
  induction p using drain.induct with
  | case1 p f q h _ ih =>
    obtain ⟨n, hscan, hq⟩ := next_ready h
    rw [drain_of_ready h, run_of_ready (D := frameDecoder) hscan, ← hq]
    exact ⟨by rw [ih.1], ih.2⟩
  | case2 p q h =>
    obtain ⟨hscan, rfl⟩ := next_needMore h
    have hd : q.drain = ([], .needMore, q) := by rw [drain]; split <;> simp_all
    rw [hd, run_of_needMore (D := frameDecoder) hscan]
    exact ⟨rfl, h, by simp⟩
  | case3 p e q h =>
    obtain ⟨hscan, rfl⟩ := next_error h
    have hd : q.drain = ([], .error e, q) := by rw [drain]; split <;> simp_all
    rw [hd, run_of_error (D := frameDecoder) hscan]
    exact ⟨rfl, h, by simp⟩

theorem drain_of_error {p q : FrameParser} {e : Bytes} (h : p.next = (.error e, q)) :
    p.drain = ([], .error e, p) := by
  obtain ⟨-, rfl⟩ := next_error h
  rw [drain]; split <;> simp_all

/-- Feeding a drained parser one more piece and draining it again is one `feed`
of the decoder. -/
theorem drain_feed {o : ParseOutcome} {p : FrameParser} (hp : p.next = (o, p))
    (hready : ∀ f, o ≠ .ready f) (fs : List Frame) (piece : Bytes) :
    (fs ++ (p.feed piece).drain.1, stopOf (p.feed piece).drain.2.1 (p.feed piece).drain.2.2) =
      StreamDecoder.feed frameDecoder (fs, stopOf o p) piece := by
  cases o with
  | ready f => exact absurd rfl (hready f)
  | needMore =>
    have hrun := (drain_spec (p.feed piece)).1
    rw [unread_feed] at hrun
    simp [stopOf, StreamDecoder.feed, hrun]
  | error e =>
    have hscan : parseAt (p.feed piece).unread = .error e := by
      rw [unread_feed]
      exact frameDecoder.error_append piece (next_error hp).1
    rw [drain_of_error (next_of_scan_error hscan)]
    simp [stopOf, StreamDecoder.feed]

/-- Feeding pieces to a fresh parser is one run of the decoder over all of
them. -/
theorem feedPieces_spec (pieces : List Bytes) :
    ((feedPieces {} pieces).1,
        stopOf (feedPieces {} pieces).2.1 (feedPieces {} pieces).2.2) =
      run frameDecoder pieces.flatten ∧
    ∀ f, (feedPieces {} pieces).2.1 ≠ .ready f := by
  -- carried along the pieces: the parser is drained, and agrees with the run
  suffices H : ∀ (pieces : List Bytes) (r : List Frame × ParseOutcome × FrameParser),
      r.2.2.next = (r.2.1, r.2.2) → (∀ f, r.2.1 ≠ .ready f) →
      let r' := pieces.foldl
        (fun r piece =>
          ((r.1 ++ (r.2.2.feed piece).drain.1, (r.2.2.feed piece).drain.2) :
            List Frame × ParseOutcome × FrameParser)) r
      (r'.1, stopOf r'.2.1 r'.2.2) =
          pieces.foldl (StreamDecoder.feed frameDecoder) (r.1, stopOf r.2.1 r.2.2) ∧
        ∀ f, r'.2.1 ≠ .ready f by
    have hnil : parseAt [] = .needMore := rfl
    have hstart : ({} : FrameParser).next = (.needMore, {}) := rfl
    have hrun : run frameDecoder [] = ([], .needMore []) := run_of_needMore hnil
    have := H pieces ([], .needMore, {}) hstart (by simp)
    refine ⟨this.1.trans ?_, this.2⟩
    have hfold := foldl_feed (D := frameDecoder) [] pieces
    rw [hrun, List.nil_append] at hfold
    exact hfold
  intro pieces
  induction pieces with
  | nil => intro r hr hready; exact ⟨rfl, hready⟩
  | cons piece pieces ih =>
    intro r hr hready
    have hdrain := drain_spec (r.2.2.feed piece)
    have := ih (r.1 ++ (r.2.2.feed piece).drain.1, (r.2.2.feed piece).drain.2)
      hdrain.2.1 hdrain.2.2
    simp only [List.foldl_cons]
    rw [drain_feed hr hready] at this
    exact this

theorem stopOf_injective {o o' : ParseOutcome} {p p' : FrameParser} (ho : ∀ f, o ≠ .ready f)
    (ho' : ∀ f, o' ≠ .ready f) (h : stopOf o p = stopOf o' p') :
    o = o' ∧ (o = .needMore → p.unread = p'.unread) := by
  cases o with
  | ready f => exact absurd rfl (ho f)
  | needMore =>
    cases o' with
    | ready f => exact absurd rfl (ho' f)
    | needMore => simpa [stopOf] using h
    | error e => simp [stopOf] at h
  | error e =>
    cases o' with
    | ready f => exact absurd rfl (ho' f)
    | needMore => simp [stopOf] at h
    | error e' => simpa [stopOf] using h

/-- A use of the parser: feed it a piece (`some`), or call `next` (`none`). -/
def use (p : FrameParser) : Option Bytes → FrameParser
  | some piece => p.feed piece
  | none => p.next.2

theorem next_error_stable {p q : FrameParser} {e : Bytes} (h : p.next = (.error e, q))
    (uses : List (Option Bytes)) : (uses.foldl use q).next.1 = .error e := by
  obtain ⟨hscan, rfl⟩ := next_error h
  -- a parser in error consumes nothing, and more input does not change the error
  suffices H : parseAt (uses.foldl use q).unread = .error e by rw [next_of_scan_error H]
  clear h
  induction uses generalizing q with
  | nil => exact hscan
  | cons u uses ih =>
    refine ih ?_
    cases u with
    | some piece =>
      rw [use, unread_feed]
      exact frameDecoder.error_append piece hscan
    | none =>
      rw [use, next_of_scan_error hscan]
      exact hscan

/-- The loop that calls `next` until it is not `Ready` ends after at most one
call for each byte buffered, and one more. -/
theorem next_calls_end (p : FrameParser) :
    ∃ n ≤ p.buffered, ∀ f, ((fun q : FrameParser => q.next.2)^[n] p).next.1 ≠ .ready f := by
  -- each frame takes at least one byte, so there is a call to spare
  induction p using drain.induct with
  | case1 p f q h hlt ih =>
    obtain ⟨n, hn, hstop⟩ := ih
    refine ⟨n + 1, by omega, ?_⟩
    rw [Function.iterate_succ_apply, h]
    exact hstop
  | case2 p q h => exact ⟨0, by omega, by simp [h]⟩
  | case3 p e q h => exact ⟨0, by omega, by simp [h]⟩

/-- **Chunking independence.**  However a byte stream is cut into pieces, the
drained parser gives the same frames and the same end, and when that end is
`NeedMore` the same bytes are left unread; each draining loop ends; an error
stays whatever is fed or called afterwards; a call that says `NeedMore` changes
nothing. -/
theorem chunking_independent :
    (∀ xs ys : List Bytes, xs.flatten = ys.flatten →
      (feedPieces {} xs).1 = (feedPieces {} ys).1 ∧
      (feedPieces {} xs).2.1 = (feedPieces {} ys).2.1 ∧
      ((feedPieces {} xs).2.1 = .needMore →
        (feedPieces {} xs).2.2.unread = (feedPieces {} ys).2.2.unread)) ∧
    (∀ p : FrameParser, ∃ n ≤ p.buffered,
      ∀ f, ((fun q : FrameParser => q.next.2)^[n] p).next.1 ≠ .ready f) ∧
    (∀ (p : FrameParser) (e : Bytes) (uses : List (Option Bytes)), p.next.1 = .error e →
      (uses.foldl use p).next.1 = .error e) ∧
    (∀ p : FrameParser, p.next.1 = .needMore → p.next.2 = p) := by
  refine ⟨fun xs ys h => ?_, next_calls_end, fun p e uses h => ?_, fun p h => ?_⟩
  · obtain ⟨hx, hxr⟩ := feedPieces_spec xs
    obtain ⟨hy, hyr⟩ := feedPieces_spec ys
    rw [h, ← hy] at hx
    obtain ⟨hframes, hstop⟩ := Prod.mk.inj hx
    exact ⟨hframes, stopOf_injective hxr hyr hstop⟩
  · have hp : p.next = (.error e, p.next.2) := Prod.ext h rfl
    have hsame := (next_error hp).2
    rw [← hsame]
    exact next_error_stable hp uses
  · exact (next_needMore (Prod.ext h rfl)).2

/-- A DATA and an END frame, cut inside the header of the first and inside the payload of the
second. -/
theorem chunking_independent_two_frames :
    (feedPieces {} [(buildFrame .data [1#8, 2#8]).take 5,
      (buildFrame .data [1#8, 2#8]).drop 5 ++
        (buildFrame .end [1#8, 2#8, 3#8, 4#8]).take (HEADER_SIZE + 2),
      (buildFrame .end [1#8, 2#8, 3#8, 4#8]).drop (HEADER_SIZE + 2)]).1 =
      [⟨.data, [1#8, 2#8]⟩, ⟨.end, [1#8, 2#8, 3#8, 4#8]⟩] := by
  rw [(chunking_independent.1 _
    [buildFrame .data [1#8, 2#8] ++ buildFrame .end [1#8, 2#8, 3#8, 4#8]] (by decide +kernel)).1]
  decide +kernel

/-! ### Exactness -/

/-- The encodings of the frames, one after another. -/
def encodeFrames (fs : List Frame) : Bytes := fs.flatMap fun f => buildFrame f.type f.data

theorem drain_fresh (s : Bytes) :
    run frameDecoder s =
      ((({} : FrameParser).feed s).drain.1,
        stopOf (({} : FrameParser).feed s).drain.2.1 (({} : FrameParser).feed s).drain.2.2) := by
  have := (drain_spec (({} : FrameParser).feed s)).1
  rwa [unread_feed, unread_fresh, List.nil_append] at this

theorem drain_encodeFrames {fs : List Frame} (h : ∀ f ∈ fs, f.data.length ≤ MAX_PAYLOAD) :
    (({} : FrameParser).feed (encodeFrames fs)).drain.1 = fs ∧
    (({} : FrameParser).feed (encodeFrames fs)).drain.2.1 = .needMore ∧
    (({} : FrameParser).feed (encodeFrames fs)).drain.2.2.buffered = 0 := by
  have hrun : run frameDecoder (encodeFrames fs) = (fs, .needMore []) :=
    Codec.run_encodeAll (C := frameCodec) h rfl
  rw [drain_fresh] at hrun
  obtain ⟨hframes, hstop⟩ := Prod.mk.inj hrun
  have hend := (drain_spec (({} : FrameParser).feed (encodeFrames fs))).2.2
  -- the run stops with nothing unread, as a parser that was fed nothing does
  have hmore : ∀ f, ParseOutcome.needMore ≠ .ready f := fun f => by simp
  have hstop' : stopOf _ _ = stopOf .needMore ({} : FrameParser) := hstop
  obtain ⟨hout, hunread⟩ := stopOf_injective hend hmore hstop'
  refine ⟨hframes, hout, ?_⟩
  rw [← length_unread, hunread hout]
  rfl

theorem eq_encodeFrames_of_drain {s : Bytes}
    (h : (({} : FrameParser).feed s).drain.2.1 = .needMore)
    (hrest : (({} : FrameParser).feed s).drain.2.2.buffered = 0) :
    (∀ f ∈ (({} : FrameParser).feed s).drain.1, f.data.length ≤ MAX_PAYLOAD) ∧
      s = encodeFrames (({} : FrameParser).feed s).drain.1 := by
  obtain ⟨hvalid, u, hs, hstop⟩ := Codec.eq_encodeAll_append (C := frameCodec) (drain_fresh s)
  rw [h] at hstop
  have hu : u = [] := by
    rw [← hstop.1]
    exact List.eq_nil_of_length_eq_zero (by rw [length_unread, hrest])
  rw [hu, List.append_nil] at hs
  exact ⟨hvalid, hs⟩

/-- **The frame codec is exact in both directions.**  Encodings of frames are
parsed back in order without remainder; whatever `next` takes for a frame is
that frame's encoding; so a byte string parses without error and without
remainder exactly when it is a concatenation of encodings, and of one list of
frames only. -/
theorem frame_codec_exact :
    (∀ fs : List Frame, (∀ f ∈ fs, f.data.length ≤ MAX_PAYLOAD) →
      (({} : FrameParser).feed (encodeFrames fs)).drain.1 = fs ∧
      (({} : FrameParser).feed (encodeFrames fs)).drain.2.1 = .needMore ∧
      (({} : FrameParser).feed (encodeFrames fs)).drain.2.2.buffered = 0) ∧
    (∀ (p q : FrameParser) (f : Frame), p.next = (.ready f, q) →
      p.unread = buildFrame f.type f.data ++ q.unread ∧ f.data.length ≤ MAX_PAYLOAD) ∧
    (∀ s : Bytes,
      ((({} : FrameParser).feed s).drain.2.1 = .needMore ∧
        (({} : FrameParser).feed s).drain.2.2.buffered = 0) ↔
      ∃ fs : List Frame, (∀ f ∈ fs, f.data.length ≤ MAX_PAYLOAD) ∧ s = encodeFrames fs) ∧
    (∀ fs gs : List Frame, (∀ f ∈ fs, f.data.length ≤ MAX_PAYLOAD) →
      (∀ g ∈ gs, g.data.length ≤ MAX_PAYLOAD) → encodeFrames fs = encodeFrames gs → fs = gs) := by
  refine ⟨fun fs h => drain_encodeFrames h, fun p q f h => unread_eq_of_ready h, fun s => ?_,
    fun fs gs hfs hgs h => Codec.encodeAll_injective (C := frameCodec) hfs hgs h⟩
  constructor
  · rintro ⟨h, hrest⟩
    obtain ⟨hvalid, hs⟩ := eq_encodeFrames_of_drain h hrest
    exact ⟨_, hvalid, hs⟩
  · rintro ⟨fs, hvalid, rfl⟩
    exact (drain_encodeFrames hvalid).2

/-- An empty DATA frame and an END frame come back as the two of them. -/
theorem frame_codec_exact_two_frames :
    (({} : FrameParser).feed (encodeFrames [⟨.data, []⟩, ⟨.end, [1#8, 2#8, 3#8, 4#8]⟩])).drain.1 =
      [⟨.data, []⟩, ⟨.end, [1#8, 2#8, 3#8, 4#8]⟩] :=
  (frame_codec_exact.1 [⟨.data, []⟩, ⟨.end, [1#8, 2#8, 3#8, 4#8]⟩] (by decide)).1

end FrameParser

end Nexus
