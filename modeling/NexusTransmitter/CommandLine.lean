/-
The command line: `main`.

`parseUnsigned` looks at how far `strtoul` came and at nothing else; `strtoul` is the
function of the C standard (blanks, a sign, digits; a negated value is reduced modulo
2^64, and one that is too large is ULONG_MAX). The loops over the options end with the
configuration, or with the line that is logged before the program exits.

* `parseUnsigned_iff` — which texts are taken, and as what;
* `parseUnsigned_plain_iff` — on which texts this is the number that was typed.
-/
import Mathlib.Data.List.Infix
import NexusTransmitter.Destination
import NexusTransmitter.Server

open Scanning

namespace Nexus

/-! ### `strtoul` -/

/-- `isspace`. -/
def isSpace (b : Byte) : Bool := b = 0x20#8 || (0x09#8 ≤ b && b ≤ 0x0D#8)

def isSign (b : Byte) : Bool := b = 0x2B#8 || b = 0x2D#8

/-- The value of a string of decimal digits. -/
def digitsValue (ds : Bytes) : ℕ := ds.foldl (fun v b => 10 * v + (b.toNat - 0x30)) 0

def ULONG_MAX : ℕ := 2 ^ 64 - 1

/-- The value that `strtoul` returns for a sign and digits. -/
def signedValue (sign digits : Bytes) : ℕ :=
  if digitsValue digits > ULONG_MAX then ULONG_MAX
  else if sign = [0x2D#8] then (2 ^ 64 - digitsValue digits) % 2 ^ 64
  else digitsValue digits

/-- `strtoul(s, &end, 10)` of a string without NUL: the value, and where `end` is. -/
def strtoul (s : Bytes) : ℕ × ℕ :=
  let blanks := s.takeWhile isSpace
  let rest := s.drop blanks.length
  let sign := (rest.take 1).takeWhile isSign
  let digits := (rest.drop sign.length).takeWhile isDigit
  if digits = [] then (0, 0)
  else (signedValue sign digits, blanks.length + sign.length + digits.length)

/-- What `c_str()` is to a C function: the bytes up to the first NUL. -/
def cStr (text : Bytes) : Bytes := text.takeWhile (· ≠ 0#8)

/-- `parseUnsigned`; the error is the line in the log. -/
def parseUnsigned (text optName : Bytes) : Except Bytes ℕ :=
  let s := cStr text
  let (v, stop) := strtoul s
  if stop = 0 ∨ stop ≠ s.length then
    .error (str "некорректное значение " ++ optName ++ str ": '" ++ text ++ str "'")
  else .ok v

/-! ### What is taken -/

/-- Blanks, perhaps a sign, and digits. -/
structure Numeral (s blanks sign digits : Bytes) : Prop where
  eq : s = blanks ++ (sign ++ digits)
  blanks : ∀ b ∈ blanks, isSpace b
  sign : sign = [] ∨ sign = [0x2B#8] ∨ sign = [0x2D#8]
  digits : Digits digits

theorem not_isSpace_of_isDigit {b : Byte} (h : isDigit b) : isSpace b = false := by
  revert b
  decide +kernel

theorem not_isSign_of_isDigit {b : Byte} (h : isDigit b) : isSign b = false := by
  revert b
  decide +kernel

/-- A digit comes first in a string of digits. -/
theorem Digits.head {p : Bytes} (hp : Digits p) {b : Byte} (hb : b ∈ p.head?) : isDigit b :=
  hp.2 b (List.mem_of_mem_head? hb)

namespace Numeral

variable {s blanks sign digits : Bytes}

/-- After the blanks there is a sign or a digit. -/
theorem no_blank (h : Numeral s blanks sign digits) {b : Byte} (hb : b ∈ (sign ++ digits).head?) :
    isSpace b = false := by
  rcases h.sign with hsign | hsign | hsign
  · rw [hsign, List.nil_append] at hb
    exact not_isSpace_of_isDigit (h.digits.head hb)
  · rw [hsign] at hb
    cases hb
    decide
  · rw [hsign] at hb
    cases hb
    decide

theorem takeWhile_blanks (h : Numeral s blanks sign digits) : s.takeWhile isSpace = blanks := by
  rw [h.eq]
  exact takeWhile_front h.blanks fun b hb => h.no_blank hb

theorem takeWhile_sign (h : Numeral s blanks sign digits) :
    ((sign ++ digits).take 1).takeWhile isSign = sign := by
  rcases h.sign with rfl | rfl | rfl
  · have hfirst : ∀ b ∈ (digits.take 1).head?, isSign b = false := by
      intro b hb
      exact not_isSign_of_isDigit (h.digits.2 b (List.mem_of_mem_take (List.mem_of_mem_head? hb)))
    exact takeWhile_front (List.forall_mem_nil _) hfirst
  · rfl
  · rfl

/-- `strtoul` reads the whole of it. -/
theorem strtoul_eq (h : Numeral s blanks sign digits) :
    strtoul s = (signedValue sign digits, s.length) := by
  have hrest : s.drop blanks.length = sign ++ digits := by rw [h.eq, List.drop_left' rfl]
  have hdigits : ((sign ++ digits).drop sign.length).takeWhile isDigit = digits := by
    rw [List.drop_left' rfl, List.takeWhile_eq_self_iff]
    exact h.digits.2
  rw [strtoul]
  simp only [h.takeWhile_blanks, hrest, h.takeWhile_sign, hdigits]
  rw [if_neg h.digits.1, h.eq, List.length_append, List.length_append, Nat.add_assoc]

end Numeral

theorem sign_cases (rest : Bytes) :
    (rest.take 1).takeWhile isSign = [] ∨ (rest.take 1).takeWhile isSign = [0x2B#8] ∨
      (rest.take 1).takeWhile isSign = [0x2D#8] := by
  cases rest with
  | nil => exact .inl rfl
  | cons b rest =>
    have hone : (b :: rest).take 1 = [b] := rfl
    rw [hone, List.takeWhile_cons]
    split
    · rename_i hb
      rcases (by simpa [isSign] using hb : b = 0x2B#8 ∨ b = 0x2D#8) with rfl | rfl
      · exact .inr (.inl rfl)
      · exact .inr (.inr rfl)
    · exact .inl rfl

/-- What `strtoul` reads to the end is a numeral. -/
theorem numeral_of_strtoul {s : Bytes} (hne : (strtoul s).2 ≠ 0) (hend : (strtoul s).2 = s.length) :
    ∃ blanks sign digits, Numeral s blanks sign digits ∧
      (strtoul s).1 = signedValue sign digits := by
  rw [strtoul] at hne hend ⊢
  set blanks := s.takeWhile isSpace with hblanks
  set rest := s.drop blanks.length with hrest
  set sign := (rest.take 1).takeWhile isSign with hsign
  set digits := (rest.drop sign.length).takeWhile isDigit with hdigits
  split at hne
  · exact absurd rfl hne
  rename_i hsome
  rw [if_neg hsome] at hend ⊢
  have hs : s = blanks ++ rest := List.prefix_append_drop (List.takeWhile_prefix isSpace)
  have hr : rest = sign ++ rest.drop sign.length :=
    List.prefix_append_drop ((List.takeWhile_prefix isSign).trans (List.take_prefix 1 rest))
  -- the scan came to the end, so the digits are all that is left
  have hd : digits = rest.drop sign.length := by
    refine (List.takeWhile_prefix isDigit).eq_of_length ?_
    have h1 := congrArg List.length hs
    have h2 := congrArg List.length hr
    rw [List.length_append] at h1 h2
    change digits.length = (rest.drop sign.length).length
    omega
  refine ⟨blanks, sign, digits, ⟨?_, ?_, ?_, hsome, ?_⟩, rfl⟩
  · rw [hd, ← hr, ← hs]
  · intro b hb
    exact List.mem_takeWhile_imp hb
  · exact sign_cases rest
  · intro b hb
    exact List.mem_takeWhile_imp hb

theorem parseUnsigned_iff (text optName : Bytes) (v : ℕ) :
    parseUnsigned text optName = .ok v ↔
      ∃ blanks sign digits, Numeral (cStr text) blanks sign digits ∧
        v = signedValue sign digits := by
  rw [parseUnsigned]
  constructor
  · intro h
    dsimp only at h
    split at h
    · cases h
    · rename_i hno
      push Not at hno
      obtain ⟨blanks, sign, digits, hnum, hv⟩ := numeral_of_strtoul hno.1 hno.2
      exact ⟨blanks, sign, digits, hnum, by rw [← hv]; exact (Except.ok.inj h).symm⟩
  · rintro ⟨blanks, sign, digits, hnum, rfl⟩
    have hlen : (cStr text).length ≠ 0 := by
      have hpos := List.length_pos_of_ne_nil hnum.digits.1
      rw [hnum.eq, List.length_append, List.length_append]
      omega
    rw [hnum.strtoul_eq]
    dsimp only
    rw [if_neg (by simpa using hlen)]

/-! ### The number that was typed -/

/-- The text is the decimal number `v`, of 64 bits. -/
def Plain (text : Bytes) (v : ℕ) : Prop := Digits text ∧ digitsValue text = v ∧ v ≤ ULONG_MAX

/-- The text is read as a number, up to its first NUL if it has one, but it is not just
the digits of a number of 64 bits. -/
def Misread (text : Bytes) : Prop :=
  ∃ blanks sign digits, Numeral (cStr text) blanks sign digits ∧
    (blanks ≠ [] ∨ sign ≠ [] ∨ cStr text ≠ text ∨ digitsValue digits > ULONG_MAX)

theorem cStr_of_digits {text : Bytes} (h : Digits text) : cStr text = text := by
  rw [cStr, List.takeWhile_eq_self_iff]
  intro b hb
  have hne : b ≠ 0#8 := by
    rintro rfl
    exact h.notMem (by decide) hb
  simpa using hne

theorem signedValue_nil {digits : Bytes} (h : digitsValue digits ≤ ULONG_MAX) :
    signedValue [] digits = digitsValue digits := by
  rw [signedValue, if_neg (by omega), if_neg (by decide)]

/-- A plain number is read as what it is. -/
theorem Plain.parse {text : Bytes} {v : ℕ} (h : Plain text v) (optName : Bytes) :
    parseUnsigned text optName = .ok v := by
  obtain ⟨hdigits, rfl, hle⟩ := h
  refine (parseUnsigned_iff text optName _).mpr ⟨[], [], text, ⟨?_, ?_, .inl rfl, hdigits⟩, ?_⟩
  · exact cStr_of_digits hdigits
  · exact List.forall_mem_nil _
  · exact (signedValue_nil hle).symm

/-- A numeral that is all digits has neither blanks nor a sign. -/
theorem Numeral.of_digits {text blanks sign digits : Bytes} (h : Numeral text blanks sign digits)
    (hd : Digits text) : blanks = [] ∧ sign = [] ∧ digits = text := by
  have hmem : ∀ b ∈ blanks ++ (sign ++ digits), isDigit b := by
    rw [← h.eq]
    exact hd.2
  have hblanks : blanks = [] := by
    refine List.eq_nil_iff_forall_not_mem.mpr fun b hb => ?_
    have hno := not_isSpace_of_isDigit (hmem b (List.mem_append_left _ hb))
    rw [h.blanks b hb] at hno
    cases hno
  have hsign : sign = [] := by
    rcases h.sign with hs | hs | hs
    · exact hs
    · have hplus := hmem 0x2B#8 (by simp [hs])
      exact absurd hplus (by decide)
    · have hminus := hmem 0x2D#8 (by simp [hs])
      exact absurd hminus (by decide)
  refine ⟨hblanks, hsign, ?_⟩
  rw [h.eq, hblanks, hsign, List.nil_append, List.nil_append]

/-- **What `parseUnsigned` takes**: for every text, it gives back exactly the decimal
numbers of 64 bits, if and only if the text is not one that is misread. -/
theorem parseUnsigned_plain_iff (text optName : Bytes) :
    (∀ v, parseUnsigned text optName = .ok v ↔ Plain text v) ↔ ¬ Misread text := by
  constructor
  · rintro hall ⟨blanks, sign, digits, hnum, hbad⟩
    have hok := (parseUnsigned_iff text optName _).mpr ⟨blanks, sign, digits, hnum, rfl⟩
    obtain ⟨hdigits, hvalue, hle⟩ := (hall _).mp hok
    have htext := cStr_of_digits hdigits
    rw [htext] at hnum
    obtain ⟨hblanks, hsign, rfl⟩ := hnum.of_digits hdigits
    rcases hbad with hbad | hbad | hbad | hbad
    · exact hbad hblanks
    · exact hbad hsign
    · exact hbad htext
    · rw [hvalue] at hbad
      omega
  · intro hno v
    refine ⟨fun hok => ?_, fun h => h.parse optName⟩
    obtain ⟨blanks, sign, digits, hnum, rfl⟩ := (parseUnsigned_iff text optName v).mp hok
    have hgood : ¬ (blanks ≠ [] ∨ sign ≠ [] ∨ cStr text ≠ text ∨ digitsValue digits > ULONG_MAX) :=
      fun hbad => hno ⟨blanks, sign, digits, hnum, hbad⟩
    push Not at hgood
    obtain ⟨rfl, rfl, htext, hle⟩ := hgood
    have hdigits : text = digits := by
      rw [← htext, hnum.eq, List.nil_append, List.nil_append]
    rw [hdigits, signedValue_nil hle]
    exact ⟨hnum.digits, rfl, hle⟩

/-- A negative number is taken for a very large one. -/
theorem parseUnsigned_minus_one :
    ¬ ∀ (text optName : Bytes) (v : ℕ), parseUnsigned text optName = .ok v ↔ Plain text v := by
  intro hall
  have hok : parseUnsigned (str "-1") (str "--timeout") = .ok ULONG_MAX := by
    refine (parseUnsigned_iff _ _ _).mpr ⟨[], [0x2D#8], [0x31#8], ⟨?_, ?_, .inr (.inr rfl), ?_⟩, ?_⟩
    · decide +kernel
    · exact List.forall_mem_nil _
    · exact ⟨by decide, by decide⟩
    · decide +kernel
  have hdigits := ((hall _ _ _).mp hok).1
  exact hdigits.notMem (b := 0x2D#8) (by decide) (by decide +kernel)

/-! ### Options -/

/-- `client::ClientConfig`. -/
structure ClientConfig where
  endpoint : Destination
  filePath : Bytes
  timeoutMs : ℤ := 15000
  deriving DecidableEq, Repr

def DEFAULT_PORT : Bytes := str "5555"

/-- `std::chrono::seconds(*secs)`: the count is signed, of 64 bits. -/
def idleSeconds (secs : ℕ) : ℤ := (secs : ℤ).bmod (2 ^ 64)

/-- `static_cast<int>(*secs * 1000)`, the product being an `unsigned long`. -/
def timeoutMillis (secs : ℕ) : ℤ := ((secs * 1000 % 2 ^ 64 : ℕ) : ℤ).bmod (2 ^ 32)

/-- The line of `needValue` for an option at the end. -/
def valueMissing (optName : Bytes) : Bytes := str "опция " ++ optName ++ str " требует значение"

def badDestination (value : Bytes) : Bytes :=
  str "некорректный адрес в --destination: '" ++ value ++ str "'"

/-- The loop of `runServer` over its options. -/
def serverOptions (dest : Destination) (cfg : ServerConfig) :
    List Bytes → Except Bytes (Destination × ServerConfig)
  | [] => .ok (dest, cfg)
  | [arg] =>
    if arg ∈ [str "--port", str "--destination", str "--dir", str "--timeout",
      str "--max-sessions"] then .error (valueMissing arg)
    else .error (str "неизвестная опция сервера: " ++ arg)
  | arg :: value :: rest =>
    if arg = str "--port" then serverOptions { dest with port := value } cfg rest
    else if arg = str "--destination" then
      match Destination.parse value with
      | none => .error (badDestination value)
      | some parsed => serverOptions parsed cfg rest
    else if arg = str "--dir" then serverOptions dest { cfg with outDir := value } rest
    else if arg = str "--timeout" then
      match parseUnsigned value arg with
      | .error line => .error line
      | .ok secs => serverOptions dest { cfg with idleTimeout := idleSeconds secs } rest
    else if arg = str "--max-sessions" then
      match parseUnsigned value arg with
      | .error line => .error line
      | .ok n => serverOptions dest { cfg with maxSessions := n } rest
    else .error (str "неизвестная опция сервера: " ++ arg)

/-- The loop of `runClient` over its options. -/
def clientOptions (cfg : ClientConfig) : List Bytes → Except Bytes ClientConfig
  | [] => .ok cfg
  | [arg] =>
    if arg ∈ [str "--host", str "--port", str "--destination", str "--timeout"] then
      .error (valueMissing arg)
    else .error (str "неизвестная опция клиента: " ++ arg)
  | arg :: value :: rest =>
    if arg = str "--host" then
      clientOptions { cfg with endpoint := { cfg.endpoint with host := value } } rest
    else if arg = str "--port" then
      clientOptions { cfg with endpoint := { cfg.endpoint with port := value } } rest
    else if arg = str "--destination" then
      match Destination.parse value with
      | none => .error (badDestination value)
      | some parsed => clientOptions { cfg with endpoint := parsed } rest
    else if arg = str "--timeout" then
      match parseUnsigned value arg with
      | .error line => .error line
      | .ok secs => clientOptions { cfg with timeoutMs := timeoutMillis secs } rest
    else .error (str "неизвестная опция клиента: " ++ arg)

/-- `runServer` up to the listener, for the arguments after `-s`. -/
def runServer (executableDir : Bytes) (args : List Bytes) :
    Except Bytes (Destination × ServerConfig) :=
  serverOptions { host := str "0.0.0.0", port := DEFAULT_PORT }
    { outDir := executableDir, idleTimeout := 30, maxSessions := 1024 } args

/-- `runClient` up to `sendFile`, for the arguments after `-c`. -/
def runClient (prog : Bytes) : List Bytes → Except Bytes ClientConfig
  | [] => .error (str "не указан путь к файлу: " ++ prog ++ str " -c <путь>")
  | path :: args =>
    if path.head? = some 0x2D#8 then
      .error (str "не указан путь к файлу: " ++ prog ++ str " -c <путь>")
    else
      clientOptions
        { endpoint := { host := str "127.0.0.1", port := DEFAULT_PORT }, filePath := path } args

example : (runClient (str "nexus") [str "a.txt", str "--timeout", str "20"]).toOption =
    some
      { endpoint := { host := str "127.0.0.1" }
        filePath := str "a.txt"
        timeoutMs := 20000 } := by
  decide +kernel

end Nexus
