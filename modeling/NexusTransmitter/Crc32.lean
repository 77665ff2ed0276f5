/-
The CRC-32 of `common/Crc32`.

`Crc32.update` runs over its bytes with the 256-entry table of `makeTable`.
A table step is eight steps of the shift register with the reflected IEEE 802.3
generator (`update_eq_feedBits`), so the results on `ShiftRegister` apply; a
message followed by its own checksum is recognised by the register running out
to zero (`crcMatches_xor_iff`), which the error-detection results use.

* `Crc32.bit_serial` — however a message is cut into calls of `update`, the value
  is its bit-serial CRC-32.
-/
import NexusTransmitter.Lib.LittleEndian
import NexusTransmitter.Lib.ShiftRegister
import NexusTransmitter.Text

open ShiftRegister LittleEndian

namespace Nexus

/-- The reflected generator `0xEDB88320`. -/
def POLYNOMIAL : BitVec 32 := 0xEDB88320#32

theorem polynomial_msb : POLYNOMIAL.msb = true := by decide

/-- The inner loop of `makeTable`, run `k` times. -/
def makeEntry : ℕ → BitVec 32 → BitVec 32
  | 0, c => c
  | k + 1, c =>
    makeEntry k (if c &&& 1#32 ≠ 0#32 then 0xEDB88320#32 ^^^ (c >>> 1) else c >>> 1)

/-- The `std::array` of `makeTable`, as the function of its index. -/
def makeTable (i : Fin 256) : BitVec 32 := makeEntry 8 (BitVec.ofNat 32 i)

/-- `util::Crc32`: the register `m_crc`. -/
structure Crc32 where
  crc : BitVec 32 := 0xFFFFFFFF#32
  deriving DecidableEq, Repr

namespace Crc32

/-- The body of the loop of `Crc32::update`. -/
def updateByte (c : BitVec 32) (p : Byte) : BitVec 32 :=
  makeTable ⟨((c ^^^ p.setWidth 32) &&& 0xFF#32).toNat, by
    rw [BitVec.toNat_and]; exact Nat.lt_of_le_of_lt Nat.and_le_right (by decide)⟩ ^^^ (c >>> 8)

def update (c : Crc32) (data : Bytes) : Crc32 := { crc := data.foldl updateByte c.crc }

def value (c : Crc32) : BitVec 32 := c.crc ^^^ 0xFFFFFFFF#32

def reset (_ : Crc32) : Crc32 := { crc := 0xFFFFFFFF#32 }

@[simp] theorem update_nil (c : Crc32) : c.update [] = c := rfl

theorem update_append (c : Crc32) (x y : Bytes) : c.update (x ++ y) = (c.update x).update y := by
  simp [update]

end Crc32

/-- `util::crc32`: the checksum in one call. -/
def crc32 (data : Bytes) : BitVec 32 := (({} : Crc32).update data).value

example : crc32 (str "123456789") = 0xCBF43926#32 := by decide +kernel

/-! ### The table algorithm is the shift register -/

theorem and_one_ne_zero (c : BitVec 32) : c &&& 1#32 ≠ 0#32 ↔ c.getLsbD 0 = true := by
  rw [BitVec.and_one_eq_setWidth_ofBool_getLsbD]
  cases c.getLsbD 0 <;> decide

theorem makeEntry_eq_iterate (k : ℕ) (c : BitVec 32) :
    makeEntry k c = (shift POLYNOMIAL)^[k] c := by
  induction k generalizing c with
  | zero => rfl
  | succ k ih =>
    rw [makeEntry, ih, Function.iterate_succ_apply]
    congr 1
    simp only [and_one_ne_zero, shift, POLYNOMIAL]

/-- Adding a byte to the register and stepping eight times feeds its bits. -/
theorem feedBits_byteBits (c : BitVec 32) (p : Byte) :
    feedBits POLYNOMIAL c (byteBits p) = (shift POLYNOMIAL)^[8] (c ^^^ p.setWidth 32) := by
  have hword : word 32 (byteBits p) = p.setWidth 32 := by
    apply BitVec.eq_of_getLsbD_eq
    intro i hi
    rw [getLsbD_word, byteBits_getElem?, BitVec.getLsbD_setWidth]
  rw [feedBits_eq_iterate POLYNOMIAL (byteBits p) c (by simp), length_byteBits, hword]

/-- The table step is eight register steps. -/
theorem updateByte_eq_feedBits (c : BitVec 32) (p : Byte) :
    Crc32.updateByte c p = feedBits POLYNOMIAL c (byteBits p) := by
  -- the byte goes into the low eight bits, which the table answers for
  have hhigh : (c ^^^ p.setWidth 32) >>> 8 = c >>> 8 := by
    have hbyte : p.setWidth 32 >>> 8 = 0#32 := by
      apply BitVec.eq_of_getLsbD_eq
      intro i _
      simp
    rw [BitVec.ushiftRight_xor_distrib, hbyte, BitVec.xor_zero]
  rw [feedBits_byteBits, shift_iterate_split POLYNOMIAL 8, hhigh]
  simp only [Crc32.updateByte, makeTable, makeEntry_eq_iterate, BitVec.ofNat_toNat,
    BitVec.setWidth_eq, Nat.reducePow, Nat.reduceSub]

theorem update_eq_feedBits (c : Crc32) (data : Bytes) :
    (c.update data).crc = feedBits POLYNOMIAL c.crc (bits data) := by
  suffices h : ∀ r : BitVec 32, data.foldl Crc32.updateByte r = feedBits POLYNOMIAL r (bits data)
    from h c.crc
  induction data with
  | nil => intro r; rfl
  | cons p data ih =>
    intro r
    rw [List.foldl_cons, ih, updateByte_eq_feedBits, bits_cons, feedBits_append]

/-! ### Uses of a `Crc32` -/

/-- The CRC-32 of IEEE 802.3, bit by bit: the bits of the message, least
significant first, go through a register of ones with the reflected generator,
and what is left in it is complemented. -/
def bitSerial (data : Bytes) : BitVec 32 :=
  feedBits POLYNOMIAL 0xFFFFFFFF#32 (bits data) ^^^ 0xFFFFFFFF#32

theorem value_update (c : Crc32) (data : Bytes) :
    (c.update data).value = feedBits POLYNOMIAL c.crc (bits data) ^^^ 0xFFFFFFFF#32 := by
  rw [Crc32.value, update_eq_feedBits]

theorem crc32_eq_bitSerial (data : Bytes) : crc32 data = bitSerial data := value_update {} data

namespace Crc32

/-- A call on a `Crc32`. -/
inductive Use
  | update (data : Bytes)
  | value
  | reset
  deriving DecidableEq, Repr

/-- The object after a call. `value` is a const member. -/
def use (c : Crc32) : Use → Crc32
  | .update data => c.update data
  | .value => c
  | .reset => c.reset

/-- The bytes that an object stands for after a call, when it stood for `fed`
before. -/
def Use.fed (fed : Bytes) : Use → Bytes
  | .update data => fed ++ data
  | .value => fed
  | .reset => []

theorem use_of_fed {c : Crc32} {fed : Bytes} (h : c = ({} : Crc32).update fed) (u : Use) :
    c.use u = ({} : Crc32).update (u.fed fed) := by
  cases u with
  | update data => rw [use, h, ← update_append, Use.fed]
  | value => exact h
  | reset => rfl

/-- Whatever is called on an object, it stands for the bytes it was given since
the last `reset`. -/
theorem uses_of_fed {c : Crc32} {fed : Bytes} (h : c = ({} : Crc32).update fed) (uses : List Use) :
    uses.foldl use c = ({} : Crc32).update (uses.foldl Use.fed fed) := by
  induction uses generalizing c fed with
  | nil => exact h
  | cons u uses ih => exact ih (use_of_fed h u)

theorem foldl_fed_update (pieces : List Bytes) (fed : Bytes) :
    (pieces.map Use.update).foldl Use.fed fed = fed ++ pieces.flatten := by
  induction pieces generalizing fed with
  | nil => simp
  | cons piece pieces ih => rw [List.map_cons, List.foldl_cons, ih, Use.fed, List.append_assoc,
      List.flatten_cons]

/-- **`Crc32` is the CRC-32 of IEEE 802.3, and incremental.**  Any pieces given to
a new object, or to one after `reset`, have the bit-serial CRC-32 of all of them,
which is `crc32` in one call; and whatever calls are made on an object, in any
order, its value is that of the bytes given since the last `reset`. -/
theorem bit_serial :
    (∀ pieces : List Bytes,
      (pieces.foldl update {}).value = bitSerial pieces.flatten ∧
      (∀ c : Crc32, (pieces.foldl update c.reset).value = bitSerial pieces.flatten) ∧
      bitSerial pieces.flatten = crc32 pieces.flatten) ∧
    ∀ uses : List Use, (uses.foldl use {}).value = bitSerial (uses.foldl Use.fed []) := by
  have huses : ∀ uses : List Use,
      (uses.foldl use {}).value = bitSerial (uses.foldl Use.fed []) := by
    intro uses
    rw [uses_of_fed (update_nil {}).symm uses]
    exact crc32_eq_bitSerial _
  have hpieces : ∀ pieces : List Bytes,
      (pieces.foldl update {}).value = bitSerial pieces.flatten := by
    intro pieces
    have h := huses (pieces.map Use.update)
    rw [foldl_fed_update, List.nil_append, List.foldl_map] at h
    exact h
  refine ⟨fun pieces => ?_, huses⟩
  exact ⟨hpieces pieces, fun _ => hpieces pieces, (crc32_eq_bitSerial _).symm⟩

end Crc32

/-! ### A message with its checksum -/

theorem word_bits (bs : Bytes) : word 32 (bits bs) = BitVec.ofNat 32 (decode bs) := by
  apply BitVec.eq_of_getLsbD_eq
  intro i hi
  rw [getLsbD_word, BitVec.getLsbD_ofNat, testBit_decode]

/-- Feeding four bytes to a register leaves zero only when they are its own
little-endian bytes. -/
theorem feedBits_four_eq_zero (c : BitVec 32) {bs : Bytes} (h : bs.length = 4) :
    feedBits POLYNOMIAL c (bits bs) = 0#32 ↔ BitVec.ofNat 32 (decode bs) = c := by
  rw [feedBits_eq_iterate POLYNOMIAL _ _ (by simp [h]), shift_iterate_eq_zero polynomial_msb,
    word_bits, BitVec.xor_eq_zero_iff]
  exact eq_comm

/-- An error pattern over a message and its four checksum bytes goes unnoticed
exactly when the zero register runs over it to zero. -/
theorem crcMatches_xor_iff {data edata stored estored : Bytes}
    (hlen : edata.length = data.length) (hstored : stored.length = 4)
    (hestored : estored.length = 4) (hok : BitVec.ofNat 32 (decode stored) = crc32 data) :
    BitVec.ofNat 32 (decode (List.zipWith (· ^^^ ·) stored estored)) =
        crc32 (List.zipWith (· ^^^ ·) data edata) ↔
      feedBits POLYNOMIAL 0#32 (bits (edata ++ estored)) = 0#32 := by
  set init : BitVec 32 := 0xFFFFFFFF#32 with hinit
  -- the register after the damaged message, by linearity
  have hreg : crc32 (List.zipWith (· ^^^ ·) data edata) =
      crc32 data ^^^ feedBits POLYNOMIAL 0#32 (bits edata) := by
    have hlin := feedBits_xor POLYNOMIAL (bits data) (bits edata) init 0#32 (by simp [hlen])
    rw [BitVec.xor_zero, ← bits_zipWith_xor] at hlin
    simp only [crc32, Crc32.value, update_eq_feedBits]
    rw [hlin, BitVec.xor_assoc, BitVec.xor_assoc, BitVec.xor_comm (feedBits _ _ (bits edata))]
  -- the checksum that arrives differs from the right one by the pattern over it
  have hsum : BitVec.ofNat 32 (decode (List.zipWith (· ^^^ ·) stored estored)) =
      crc32 data ^^^ BitVec.ofNat 32 (decode estored) := by
    rw [← hok, ← word_bits, ← word_bits, ← word_bits, bits_zipWith_xor,
      word_zipWith_xor _ _ (by simp [hstored, hestored])]
  rw [hreg, hsum, bits_append, feedBits_append, feedBits_four_eq_zero _ hestored]
  constructor
  · intro h
    have := congrArg (crc32 data ^^^ ·) h
    simpa [← BitVec.xor_assoc] using this
  · intro h
    rw [h]

end Nexus
