/-
Detection of burst errors.

A frame carries two checksums, one over its header and one over its payload. An
error pattern confined to 32 consecutive bits either touches the 13 header
bytes, where it is a burst of the first codeword, or leaves the header (and with
it the length that steers the parser) alone and is a burst of the second one.
Neither goes unnoticed, since a burst no longer than the register leaves it
non-zero (`ShiftRegister.feedBits_ne_zero_of_burst`).

* `burst_detected` — the parser answers `Error` to every frame so damaged,
  whatever bytes follow it.
-/
import NexusTransmitter.FrameParser

open ShiftRegister LittleEndian StreamDecoder

namespace Nexus

/-! ### What makes `parseAt` give up -/

theorem parseAt_error_of_header {h : Bytes} (hlen : HEADER_SIZE ≤ h.length)
    (hcrc : getU32 (h.drop HEADER_CRC_SPAN) ≠ crc32 (h.take HEADER_CRC_SPAN)) :
    ∃ e, parseAt h = .error e := by
  simp only [parseAt, if_neg (not_lt.mpr hlen), if_pos hcrc]
  split
  · exact ⟨_, rfl⟩
  · exact ⟨_, rfl⟩

theorem parseAt_error_of_payload {h : Bytes} {len : ℕ} (hl : (getU32 (h.drop 5)).toNat = len)
    (hlen : HEADER_SIZE + len + TRAILER_SIZE ≤ h.length)
    (hcrc : getU32 (h.drop (HEADER_SIZE + len)) ≠ crc32 ((h.drop HEADER_SIZE).take len)) :
    ∃ e, parseAt h = .error e := by
  have hheader : ¬ h.length < HEADER_SIZE := by simp only [HEADER_SIZE] at *; omega
  simp only [parseAt, hl, if_neg hheader, if_neg (not_lt.mpr hlen), if_pos hcrc]
  split
  · exact ⟨_, rfl⟩
  split
  · exact ⟨_, rfl⟩
  split
  · exact ⟨_, rfl⟩
  · exact ⟨_, rfl⟩

/-! ### Damaged byte lists -/

theorem zipWith_xor_of_zero {x e : Bytes} (hlen : e.length = x.length)
    (h : ∀ b ∈ e, b = 0#8) : List.zipWith (· ^^^ ·) x e = x := by
  induction x generalizing e with
  | nil => simp
  | cons a x ih =>
    cases e with
    | nil => simp at hlen
    | cons b e =>
      have hb : b = 0#8 := h b (by simp)
      rw [List.zipWith_cons_cons, ih (by simpa using hlen) (fun b hb => h b (by simp [hb])), hb,
        BitVec.xor_zero]

theorem window_of_append_left {n k : ℕ} {x y : List Bool} (h : Window n k (x ++ y)) :
    Window n k x := by
  intro i hi
  have hlt : i < x.length := (List.getElem?_eq_some_iff.mp hi).1
  exact h i (by rw [List.getElem?_append_left hlt]; exact hi)

theorem window_of_append_right {n k : ℕ} {x y : List Bool} (h : Window n k (x ++ y)) :
    Window n (k - x.length) y := by
  intro i hi
  have := h (x.length + i) (by rw [List.getElem?_append_right (by omega)]; simpa using hi)
  omega

/-- A burst in a message or in the checksum after it breaks the checksum. -/
theorem crc_ne_of_burst {data edata stored estored : Bytes} {k : ℕ}
    (hlen : edata.length = data.length) (hstored : stored.length = 4)
    (hestored : estored.length = 4) (hok : BitVec.ofNat 32 (decode stored) = crc32 data)
    (hwin : Window 32 k (bits (edata ++ estored))) (hne : ∃ b ∈ edata ++ estored, b ≠ 0#8) :
    BitVec.ofNat 32 (decode (List.zipWith (· ^^^ ·) stored estored)) ≠
      crc32 (List.zipWith (· ^^^ ·) data edata) := by
  rw [Ne, crcMatches_xor_iff hlen hstored hestored hok]
  exact feedBits_ne_zero_of_burst polynomial_msb _ k hwin (true_mem_bits hne)

theorem ofNat_decode_putU32 (c : BitVec 32) : BitVec.ofNat 32 (decode (putU32 c)) = c := by
  have := getU32_putU32 c []
  rwa [List.append_nil, getU32, List.take_of_length_le (by simp)] at this

theorem getU32_append {x : Bytes} (h : x.length = 4) (t : Bytes) :
    getU32 (x ++ t) = BitVec.ofNat 32 (decode x) := by
  rw [getU32, List.take_left' h]

/-- The frame with an error pattern added, cut at the header, the header
checksum, the payload and the payload checksum, is given up by the parser. -/
theorem parseAt_burst (type : FrameType) {payload e₁ e₂ e₃ e₄ : Bytes} {k : ℕ}
    (hmax : payload.length ≤ MAX_PAYLOAD)
    (h₁ : e₁.length = HEADER_CRC_SPAN) (h₂ : e₂.length = 4) (h₃ : e₃.length = payload.length)
    (h₄ : e₄.length = 4) (hne : ∃ b ∈ (e₁ ++ e₂) ++ (e₃ ++ e₄), b ≠ 0#8)
    (hwin : Window 32 k (bits ((e₁ ++ e₂) ++ (e₃ ++ e₄)))) (t : Bytes) :
    ∃ e, parseAt
        (List.zipWith (· ^^^ ·) (buildFrame type payload) ((e₁ ++ e₂) ++ (e₃ ++ e₄)) ++ t) =
      .error e := by
  set head := frameHeader type payload.length with hhead
  have hheadLen : head.length = HEADER_CRC_SPAN := length_frameHeader _ _
  set s :=
    List.zipWith (· ^^^ ·) (buildFrame type payload) ((e₁ ++ e₂) ++ (e₃ ++ e₄)) ++ t with hs
  -- the damaged frame, region by region
  have hsplit : s = List.zipWith (· ^^^ ·) head e₁ ++
      (List.zipWith (· ^^^ ·) (putU32 (crc32 head)) e₂ ++
        (List.zipWith (· ^^^ ·) payload e₃ ++
          (List.zipWith (· ^^^ ·) (putU32 (crc32 payload)) e₄ ++ t))) := by
    have hframe : buildFrame type payload =
        (head ++ putU32 (crc32 head)) ++ (payload ++ putU32 (crc32 payload)) := by
      simp [buildFrame, ← hhead]
    rw [hs, hframe, List.zipWith_append (by simp [h₁, h₂, hheadLen]),
      List.zipWith_append (by rw [h₁, hheadLen]), List.zipWith_append h₃.symm]
    simp only [List.append_assoc]
  have hz₁ : (List.zipWith (· ^^^ ·) head e₁).length = HEADER_CRC_SPAN := by
    rw [List.length_zipWith, hheadLen, h₁, min_self]
  have hz₂ : (List.zipWith (· ^^^ ·) (putU32 (crc32 head)) e₂).length = 4 := by
    rw [List.length_zipWith, length_putU32, h₂, min_self]
  have hz₃ : (List.zipWith (· ^^^ ·) payload e₃).length = payload.length := by
    rw [List.length_zipWith, h₃, min_self]
  have hz₄ : (List.zipWith (· ^^^ ·) (putU32 (crc32 payload)) e₄).length = 4 := by
    rw [List.length_zipWith, length_putU32, h₄, min_self]
  have hslen : HEADER_SIZE + payload.length + TRAILER_SIZE ≤ s.length := by
    rw [hsplit]
    simp only [List.length_append, hz₁, hz₂, hz₃, hz₄, HEADER_SIZE, TRAILER_SIZE, HEADER_CRC_SPAN]
    omega
  by_cases hhit : ∃ b ∈ e₁ ++ e₂, b ≠ 0#8
  · -- the header or its checksum is damaged
    refine parseAt_error_of_header (by omega) ?_
    have hcrc := crc_ne_of_burst (h₁.trans hheadLen.symm) (length_putU32 (crc32 head)) h₂
      (ofNat_decode_putU32 (crc32 head))
      (window_of_append_left (by rw [← bits_append]; exact hwin)) hhit
    rwa [hsplit, List.drop_left' hz₁, List.take_left' hz₁, getU32_append hz₂]
  · -- the header is as it was built, so the parser looks at the whole frame
    have hzero : ∀ b ∈ e₁ ++ e₂, b = 0#8 := by
      intro b hb
      by_contra h
      exact hhit ⟨b, hb, h⟩
    rw [zipWith_xor_of_zero (h₁.trans hheadLen.symm)
        (fun b hb => hzero b (List.mem_append_left _ hb)),
      zipWith_xor_of_zero (by rw [h₂, length_putU32])
        (fun b hb => hzero b (List.mem_append_right _ hb))] at hsplit
    have hlen : (getU32 (s.drop 5)).toNat = payload.length := by
      have h5 : s = (putU32 MAGIC ++ [type.code]) ++ (putU32 (BitVec.ofNat 32 payload.length) ++
          (putU32 (crc32 head) ++ (List.zipWith (· ^^^ ·) payload e₃ ++
            (List.zipWith (· ^^^ ·) (putU32 (crc32 payload)) e₄ ++ t)))) := by
        simp [hsplit, hhead, frameHeader]
      rw [h5, List.drop_left' (by simp), getU32_putU32, BitVec.toNat_ofNat, Nat.mod_eq_of_lt]
      simp only [MAX_PAYLOAD] at hmax
      omega
    refine parseAt_error_of_payload hlen hslen ?_
    have htail : ∃ b ∈ e₃ ++ e₄, b ≠ 0#8 := by
      obtain ⟨b, hb, hb0⟩ := hne
      rcases List.mem_append.mp hb with hb | hb
      · exact absurd (hzero b hb) hb0
      · exact ⟨b, hb, hb0⟩
    have hcrc := crc_ne_of_burst h₃ (length_putU32 (crc32 payload)) h₄
      (ofNat_decode_putU32 (crc32 payload))
      (window_of_append_right (by rw [← bits_append]; exact hwin)) htail
    have h13 : s.drop HEADER_SIZE = List.zipWith (· ^^^ ·) payload e₃ ++
        (List.zipWith (· ^^^ ·) (putU32 (crc32 payload)) e₄ ++ t) := by
      rw [hsplit, ← List.append_assoc]
      exact List.drop_left' (by simp [hheadLen, HEADER_CRC_SPAN, HEADER_SIZE])
    rwa [← List.drop_drop, h13, List.drop_left' hz₃, List.take_left' hz₃, getU32_append hz₄]

/-- **Every burst of at most 32 bits is detected.**  `e` is the pattern added to
the frame's bytes: non-zero, with all its set bits within 32 consecutive ones.
However the damaged frame and what follows it reach the parser, `next` returns
`Error`. -/
theorem burst_detected (type : FrameType) (payload : Bytes) (hmax : payload.length ≤ MAX_PAYLOAD)
    (e : Bytes) (hlen : e.length = (buildFrame type payload).length) (hne : ∃ b ∈ e, b ≠ 0#8)
    (k : ℕ) (hwin : Window 32 k (bits e)) (rest : Bytes) (pieces : List Bytes)
    (hpieces : pieces.flatten = List.zipWith (· ^^^ ·) (buildFrame type payload) e ++ rest) :
    ∃ text, (pieces.foldl FrameParser.feed {}).next.1 = .error text := by
  have hunread : ∀ (p : FrameParser) (xs : List Bytes),
      (xs.foldl FrameParser.feed p).unread = p.unread ++ xs.flatten := by
    intro p xs
    induction xs generalizing p with
    | nil => simp
    | cons x xs ih => simp [ih]
  rw [length_buildFrame] at hlen
  simp only [HEADER_SIZE, TRAILER_SIZE] at hlen
  -- cut the pattern where the regions of the frame end
  have hcut : e = (e.take 9 ++ (e.drop 9).take 4) ++
      ((e.drop 13).take payload.length ++ e.drop (13 + payload.length)) := by
    rw [← List.take_add, ← List.drop_drop, List.take_append_drop, List.take_append_drop]
  have h₁ : (e.take 9).length = HEADER_CRC_SPAN := by
    simp only [List.length_take, HEADER_CRC_SPAN]
    omega
  have h₂ : ((e.drop 9).take 4).length = 4 := by
    simp only [List.length_take, List.length_drop]
    omega
  have h₃ : ((e.drop 13).take payload.length).length = payload.length := by
    simp only [List.length_take, List.length_drop]
    omega
  have h₄ : (e.drop (13 + payload.length)).length = 4 := by
    simp only [List.length_drop]
    omega
  obtain ⟨text, htext⟩ := parseAt_burst type hmax h₁ h₂ h₃ h₄ (by rw [← hcut]; exact hne)
    (by rw [← hcut]; exact hwin) rest
  rw [← hcut, ← hpieces] at htext
  refine ⟨text, ?_⟩
  rw [FrameParser.next_of_scan_error (by rw [hunread]; exact htext)]

/-- An END frame with the last bit of its type and the first bit of its length
flipped, and a byte behind it. -/
theorem burst_detected_across_type :
    ∃ text, (([List.zipWith (· ^^^ ·) (buildFrame .end [1#8, 2#8, 3#8, 4#8])
        ([0#8, 0#8, 0#8, 0#8, 0x80#8, 1#8] ++ List.replicate 15 0#8) ++ [7#8]] :
        List Bytes).foldl FrameParser.feed {}).next.1 = .error text := by
  refine burst_detected .end [1#8, 2#8, 3#8, 4#8] (by decide)
    ([0#8, 0#8, 0#8, 0#8, 0x80#8, 1#8] ++ List.replicate 15 0#8) (by rw [length_buildFrame]; rfl)
    ⟨1#8, by decide, by decide⟩ 39 ?_ [7#8] _ (by simp)
  intro i hi
  have hlt : i < 168 := (List.getElem?_eq_some_iff.mp hi).1
  revert hi
  revert i
  decide +kernel

end Nexus
