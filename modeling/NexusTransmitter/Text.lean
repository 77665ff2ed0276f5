/-
Byte strings and the texts of `common/Paths` and `common/TimeUtil`.

A `std::string` and a `std::vector<std::uint8_t>` are both a list of bytes.
String literals are their UTF-8 bytes (`str`), numbers are printed by `dec` and
`hex` as the stream operators print them, and `baseName`, `formatSize` and
`fileTimestamp` are the functions of the same names.

`formatSize` goes through `double`; its arithmetic is exact apart from the
first conversion and the last rounding to one decimal, so it is written with
natural numbers and those two roundings (`toDouble`, `roundHalfEven`).
-/
import Mathlib.Algebra.Group.Nat.Defs
import Mathlib.Data.List.Basic
import Mathlib.Tactic.Common

namespace Nexus

abbrev Byte := BitVec 8

/-- A `std::string` or a `std::vector<std::uint8_t>`. -/
abbrev Bytes := List Byte

/-- The UTF-8 bytes of characters. -/
def ofChars (cs : List Char) : Bytes :=
  cs.flatMap fun c => (String.utf8EncodeChar c).map UInt8.toBitVec

/-- The bytes of a string literal. -/
def str (s : String) : Bytes := ofChars s.toList

/-- A number as `std::to_string` and `<<` print it. -/
def dec (n : ℕ) : Bytes := ofChars (Nat.toDigits 10 n)

/-- A number as `<<` prints it after `std::hex`. -/
def hex (n : ℕ) : Bytes := ofChars (Nat.toDigits 16 n)

/-- `std::setfill('0') << std::setw(w)`. -/
def setw (w : ℕ) (b : Bytes) : Bytes := List.replicate (w - b.length) 0x30#8 ++ b

/-! ### `common/Paths` -/

/-- The part of the path after its last slash. -/
def baseName (path : Bytes) : Bytes := (path.reverse.takeWhile (· ≠ 0x2F#8)).reverse

/-- Division rounded to the nearest integer, ties to even. -/
def roundHalfEven (a b : ℕ) : ℕ :=
  let q := a / b
  let r := a % b
  if 2 * r < b then q
  else if b < 2 * r then q + 1
  else if q % 2 = 0 then q else q + 1

/-- `static_cast<double>` of an unsigned integer: 53 significant bits. -/
def toDouble (n : ℕ) : ℕ :=
  if n < 2 ^ 53 then n
  else
    let ulp := 2 ^ (Nat.log2 n - 52)
    roundHalfEven n ulp * ulp

def units : List String := ["Б", "КиБ", "МиБ", "ГиБ", "ТиБ"]

/-- The loop of `formatSize`: the value held is `m / 1024 ^ u`, and `u` grows
while it is at least 1024 and a larger unit is left. -/
def unitIndex (m : ℕ) : ℕ → ℕ → ℕ
  | 0, u => u
  | left + 1, u => if 1024 ≤ m / 1024 ^ u then unitIndex m left (u + 1) else u

def formatSize (bytes : ℕ) : Bytes :=
  let m := toDouble bytes
  let u := unitIndex m (units.length - 1) 0
  if u = 0 then dec bytes ++ str " " ++ str (units.getD u "")
  else
    let tenths := roundHalfEven (m * 10) (1024 ^ u)
    dec (tenths / 10) ++ str "." ++ dec (tenths % 10) ++ str " " ++ str (units.getD u "")

/-! ### `common/TimeUtil` -/

/-- A `struct tm` as `localtime_r` fills it for the current time. `year` is
`tm_year + 1900`, an `int`. -/
structure Tm where
  year : ℕ
  mon : ℕ
  mday : ℕ
  hour : ℕ
  min : ℕ
  sec : ℕ
  year_lt : year < 2 ^ 31 := by decide
  mon_lt : mon < 12 := by decide
  mday_lt : mday < 32 := by decide
  hour_lt : hour < 24 := by decide
  min_lt : min < 60 := by decide
  sec_lt : sec < 61 := by decide

/-- `YYYYMMDD_HHMMSS` of a local time. -/
def fileTimestamp (t : Tm) : Bytes :=
  setw 4 (dec t.year) ++ setw 2 (dec (t.mon + 1)) ++ setw 2 (dec t.mday) ++ str "_" ++
    setw 2 (dec t.hour) ++ setw 2 (dec t.min) ++ setw 2 (dec t.sec)

example : formatSize 1468006 = str "1.4 МиБ" := by decide +kernel

/-! ### Lengths -/

theorem ofChars_eq_nil_iff {cs : List Char} : ofChars cs = [] ↔ cs = [] := by
  constructor
  · intro h
    cases cs with
    | nil => rfl
    | cons c cs =>
      have hlen := congrArg List.length h
      have hpos := Char.utf8Size_pos c
      simp only [ofChars, List.flatMap_cons, List.length_append, List.length_map,
        String.length_utf8EncodeChar, List.length_nil] at hlen
      omega
  · rintro rfl
    rfl

/-- A text is not empty when its literal is not. -/
@[simp] theorem str_eq_nil_iff {s : String} : str s = [] ↔ s = "" :=
  ofChars_eq_nil_iff.trans String.toList_eq_nil_iff

theorem length_ofChars_le (cs : List Char) : (ofChars cs).length ≤ 4 * cs.length := by
  induction cs with
  | nil => simp [ofChars]
  | cons c cs ih =>
    have hc : (String.utf8EncodeChar c).length ≤ 4 := by
      rw [String.length_utf8EncodeChar]
      exact Char.utf8Size_le_four c
    rw [ofChars, List.flatMap_cons, List.length_append, List.length_map, List.length_cons]
    have : (ofChars cs).length ≤ 4 * cs.length := ih
    rw [ofChars] at this
    omega

theorem length_dec_le {n k : ℕ} (h : n < 10 ^ k) (hk : 0 < k) : (dec n).length ≤ 4 * k := by
  refine Nat.le_trans (length_ofChars_le _) (Nat.mul_le_mul_left 4 ?_)
  exact (Nat.length_toDigits_le_iff (by decide) hk).mpr h

@[simp] theorem length_setw (w : ℕ) (b : Bytes) : (setw w b).length = max w b.length := by
  rw [setw, List.length_append, List.length_replicate]
  omega

theorem length_fileTimestamp_le (t : Tm) : (fileTimestamp t).length ≤ 100 := by
  -- four bytes for each digit are a crude bound, and enough
  have hyear : (dec t.year).length ≤ 4 * 10 :=
    length_dec_le (by have := t.year_lt; omega) (by omega)
  have htwo : ∀ n < 100, (dec n).length ≤ 4 * 2 := by
    intro n hn
    exact length_dec_le (by omega) (by omega)
  have h1 := htwo (t.mon + 1) (by have := t.mon_lt; omega)
  have h2 := htwo t.mday (by have := t.mday_lt; omega)
  have h3 := htwo t.hour (by have := t.hour_lt; omega)
  have h4 := htwo t.min (by have := t.min_lt; omega)
  have h5 := htwo t.sec (by have := t.sec_lt; omega)
  have hsep : (str "_").length ≤ 4 := length_ofChars_le _
  simp only [fileTimestamp, List.length_append, length_setw]
  omega

end Nexus
