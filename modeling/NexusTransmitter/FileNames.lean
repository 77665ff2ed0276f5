/-
The names of the files sort by time.

`fileTimestamp` writes the fields of the local time from the year down to the second, with a
fixed number of digits each, and `commit` puts a number of three digits behind it when the
name is taken.  As long as the year has four digits, the names of the directory sorted as
texts are sorted by time, and those of one second by their number.

* `setw_dec` — a number as `setw` and `setfill('0')` print it;
* `fileTimestamp_lt`, `candidateName_lt`, `finalPath_lt` — the order of the names.
-/
import NexusTransmitter.FileWriter
import NexusTransmitter.Lib.SortKeys

open SortKeys

namespace Nexus

/-! ### Digits -/

/-- The character of a digit. -/
def digit (k : ℕ) : Byte := BitVec.ofNat 8 (0x30 + k)

theorem digit_lt : ∀ i j, i < j → j < 10 → digit i < digit j := by
  intro i j hij hj
  rw [digit, digit, BitVec.lt_def, BitVec.toNat_ofNat, BitVec.toNat_ofNat]
  omega

theorem dec_of_lt {n : ℕ} (h : n < 10) : dec n = [digit n] := by
  have hall : ∀ k < 10, ofChars [Nat.digitChar k] = [digit k] := by decide
  rw [dec, Nat.toDigits_of_lt_base h]
  exact hall n h

theorem dec_of_le {n : ℕ} (h : 10 ≤ n) : dec n = dec (n / 10) ++ [digit (n % 10)] := by
  rw [dec, Nat.toDigits_of_base_le (by decide) h, ← dec_of_lt (Nat.mod_lt n (by decide)), dec, dec,
    Nat.toDigits_of_lt_base (Nat.mod_lt n (by decide)), ofChars, ofChars, ofChars,
    List.flatMap_append]

/-- Different numbers are printed differently. -/
theorem dec_injective : Function.Injective dec := by
  have hnil : ∀ n, dec n ≠ [] := fun n h => Nat.toDigits_ne_nil (ofChars_eq_nil_iff.mp h)
  have hdigit : ∀ i < 10, ∀ j < 10, digit i = digit j → i = j := by decide
  intro m n h
  induction m using Nat.strongRecOn generalizing n with
  | ind m ih =>
    by_cases hm : m < 10 <;> by_cases hn : n < 10
    · rw [dec_of_lt hm, dec_of_lt hn] at h
      exact hdigit m hm n hn (List.cons.inj h).1
    · rw [dec_of_lt hm, dec_of_le (by omega), ← List.nil_append [digit m]] at h
      exact absurd (List.append_inj' h rfl).1.symm (hnil _)
    · rw [dec_of_lt hn, dec_of_le (by omega), ← List.nil_append [digit n]] at h
      exact absurd (List.append_inj' h rfl).1 (hnil _)
    · rw [dec_of_le (by omega), dec_of_le (n := n) (by omega)] at h
      obtain ⟨hfront, hlast⟩ := List.append_inj' h rfl
      have hdiv := ih (m / 10) (by omega) hfront
      have hmod := hdigit _ (by omega) _ (by omega) (List.cons.inj hlast).1
      omega

theorem setw_concat (w : ℕ) (l : Bytes) (x : Byte) : setw (w + 1) (l ++ [x]) = setw w l ++ [x] := by
  rw [setw, setw, List.length_append, List.length_singleton, Nat.add_sub_add_right,
    List.append_assoc]

/-- A number that is not too large is printed with just as many digits as asked for. -/
theorem setw_dec {w n : ℕ} (hw : 0 < w) (h : n < 10 ^ w) :
    setw w (dec n) = digits 10 digit w n := by
  induction w generalizing n with
  | zero => omega
  | succ w ih =>
    by_cases hn : n < 10
    · -- one digit, and zeros before it
      have hzero : setw w [] = digits 10 digit w (n / 10) := by
        rw [Nat.div_eq_of_lt hn, digits_zero, setw, List.append_nil]
        rfl
      rw [dec_of_lt hn, digits, ← hzero, Nat.mod_eq_of_lt hn]
      exact setw_concat w [] (digit n)
    · have hpos : 0 < w := by
        by_contra hw'
        rw [show w = 0 by omega] at h
        omega
      have hdiv : n / 10 < 10 ^ w := by
        rw [Nat.div_lt_iff_lt_mul (by decide), ← Nat.pow_succ]
        exact h
      rw [dec_of_le (by omega), setw_concat, ih hpos hdiv, digits]

/-! ### Times -/

/-- The fields of a local time, the largest unit first. -/
def Tm.key (t : Tm) : List ℕ := [t.year, t.mon, t.mday, t.hour, t.min, t.sec]

section Stamp

variable {t t' t'' : Tm}

/-- `t'` is `t` or later. -/
def Tm.Le (t t' : Tm) : Prop := t.key < t'.key ∨ t.key = t'.key

theorem Tm.Le.refl (t : Tm) : t.Le t := .inr rfl

theorem Tm.Le.trans (h : t.Le t') (h' : t'.Le t'') : t.Le t'' := by
  rcases h with h | h
  · rcases h' with h' | h'
    · exact .inl (List.lt_trans h h')
    · exact .inl (h' ▸ h)
  · rw [Tm.Le, h]
    exact h'

theorem fileTimestamp_eq (h : t.year < 10000) :
    fileTimestamp t = digits 10 digit 4 t.year ++ (digits 10 digit 2 (t.mon + 1) ++
      (digits 10 digit 2 t.mday ++ (str "_" ++ (digits 10 digit 2 t.hour ++
        (digits 10 digit 2 t.min ++ digits 10 digit 2 t.sec))))) := by
  have hmon := t.mon_lt
  have hmday := t.mday_lt
  have hhour := t.hour_lt
  have hmin := t.min_lt
  have hsec := t.sec_lt
  have htwo : ∀ n < 100, setw 2 (dec n) = digits 10 digit 2 n := fun n hn =>
    setw_dec (by decide) hn
  rw [fileTimestamp, setw_dec (by decide) h, htwo _ (by omega), htwo _ (by omega),
    htwo _ (by omega), htwo _ (by omega), htwo _ (by omega)]
  simp only [List.append_assoc]

theorem length_fileTimestamp (h : t.year < 10000) : (fileTimestamp t).length = 15 := by
  rw [fileTimestamp_eq h]
  simp only [List.length_append, length_digits]
  rfl

theorem fileTimestamp_of_key (h : t.key = t'.key) : fileTimestamp t = fileTimestamp t' := by
  simp only [Tm.key, List.cons.injEq, and_true] at h
  obtain ⟨hyear, hmon, hmday, hhour, hmin, hsec⟩ := h
  rw [fileTimestamp, fileTimestamp, hyear, hmon, hmday, hhour, hmin, hsec]

/-- Stamps sort by time. -/
theorem fileTimestamp_lt (hy : t.year < 10000) (hy' : t'.year < 10000) (h : t.key < t'.key) :
    fileTimestamp t < fileTimestamp t' := by
  have hmon := t'.mon_lt
  have hmday := t'.mday_lt
  have hhour := t'.hour_lt
  have hmin := t'.min_lt
  have hsec := t'.sec_lt
  have hdigits : ∀ w m n, m < n → n < 10 ^ w → digits 10 digit w m < digits 10 digit w n :=
    fun w m n hmn hn => digits_lt (by decide) digit_lt hmn hn
  have hlen : ∀ w m n, (digits 10 digit w m).length = (digits 10 digit w n).length := by
    intro w m n
    rw [length_digits, length_digits]
  simp only [Tm.key, List.cons_lt_cons_iff, List.not_lt_nil, and_false, or_false] at h
  rw [fileTimestamp_eq hy, fileTimestamp_eq hy']
  refine append_lt_append (hlen _ _ _) (h.imp (fun h => hdigits _ _ _ h hy') ?_)
  rintro ⟨hyear, h⟩
  refine ⟨by rw [hyear], append_lt_append (hlen _ _ _) (h.imp ?_ ?_)⟩
  · exact fun h => hdigits _ _ _ (by omega) (by omega)
  rintro ⟨hmon', h⟩
  refine ⟨by rw [hmon'], append_lt_append (hlen _ _ _) (h.imp ?_ ?_)⟩
  · exact fun h => hdigits _ _ _ h (by omega)
  rintro ⟨hmday', h⟩
  refine ⟨by rw [hmday'], List.append_left_lt (append_lt_append (hlen _ _ _) (h.imp ?_ ?_))⟩
  · exact fun h => hdigits _ _ _ h (by omega)
  rintro ⟨hhour', h⟩
  refine ⟨by rw [hhour'], append_lt_append (hlen _ _ _) (h.imp ?_ ?_)⟩
  · exact fun h => hdigits _ _ _ h (by omega)
  rintro ⟨hmin', h⟩
  exact ⟨by rw [hmin'], hdigits _ _ _ h (by omega)⟩

end Stamp

/-! ### Names -/

/-- What `commit` puts behind the stamp. -/
def nameEnd (suffix : ℕ) : Bytes :=
  if suffix > 0 then str "_" ++ setw 3 (dec suffix) ++ str ".hex" else str ".hex"

theorem candidateName_eq (stamp : Bytes) (suffix : ℕ) :
    candidateName stamp suffix = stamp ++ nameEnd suffix := by
  rw [candidateName, nameEnd]
  split
  · simp only [List.append_assoc]
  · rfl

/-- The name without a number comes first. -/
theorem nameEnd_lt {k k' : ℕ} (h : k < k') (hk' : k' < 1000) : nameEnd k < nameEnd k' := by
  have hpos : k' > 0 := by omega
  have hthree : ∀ n < 1000, setw 3 (dec n) = digits 10 digit 3 n := fun n hn =>
    setw_dec (by decide) hn
  rw [nameEnd, nameEnd, if_pos hpos, hthree k' hk', List.append_assoc]
  split
  · rw [hthree k (by omega), List.append_assoc]
    refine List.append_left_lt (append_lt_append (by rw [length_digits, length_digits]) (.inl ?_))
    exact digits_lt (by decide) digit_lt h hk'
  · -- a full stop comes before an underscore
    have hdot : str ".hex" = 0x2E#8 :: str "hex" := by decide
    have hline : str "_" = [0x5F#8] := by decide
    rw [hdot, hline]
    exact List.cons_lt_cons_iff.mpr (.inl (by decide))

section Names

variable {t t' : Tm} {k k' : ℕ}

/-- Names sort by time, and those of one second by their number. -/
theorem candidateName_lt (hy : t.year < 10000) (hy' : t'.year < 10000) (hk' : k' < 1000)
    (h : t.key < t'.key ∨ t.key = t'.key ∧ k < k') :
    candidateName (fileTimestamp t) k < candidateName (fileTimestamp t') k' := by
  rw [candidateName_eq, candidateName_eq]
  refine append_lt_append (by rw [length_fileTimestamp hy, length_fileTimestamp hy']) ?_
  refine h.imp (fileTimestamp_lt hy hy') ?_
  rintro ⟨hkey, hk⟩
  exact ⟨fileTimestamp_of_key hkey, nameEnd_lt hk hk'⟩

theorem finalPath_lt {dir name name' : Bytes} (h : name < name') :
    finalPath dir name < finalPath dir name' :=
  List.append_left_lt h

example : candidateName (fileTimestamp ⟨2024, 0, 9, 23, 59, 59, by decide, by decide, by decide,
    by decide, by decide, by decide⟩) 12 = str "20240109_235959_012.hex" := by decide

end Names

end Nexus
