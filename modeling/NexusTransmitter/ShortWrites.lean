/-
`FileWriter::write` under short writes.

The loop of `write` moves on by what the system took, and has no counter. What the system
answers to it is an endless sequence here. After enough answers the call is over, and what
would come after them makes no difference (`Returns`).

* `write_ends` — each answer that is not an interruption brings the call one byte forward, or
  ends it;
* `write_error` — an error returned is one the system has answered, or says that the file is
  as long as a file can be;
* `write_loses_nothing` — the call ends, the file has grown by a prefix of the data, by all
  of it unless an error is returned, and `m_written` is the length of the file all along.
-/
import NexusTransmitter.Lib.Schedule
import NexusTransmitter.FileWriter

open Schedule

namespace Nexus

namespace FileWriter

variable {w w' : FileWriter} {os os' : Os} {i : ℕ} {p err : Bytes} {σ : ℕ → WriteAnswer}

/-! ### The end of a call -/

/-- With the answers `σ` the call is over after some of them, and this is its result. -/
def Returns (w : FileWriter) (os : Os) (p : Bytes) (σ : ℕ → WriteAnswer) (err : Bytes)
    (w' : FileWriter) (os' : Os) : Prop :=
  ∃ n rest, ∀ extra, w.write os p (front σ n ++ extra) = (err, rest ++ extra, w', os')

/-- A call has one result only. -/
theorem Returns.unique {err₁ err₂ : Bytes} {w₁ w₂ : FileWriter} {os₁ os₂ : Os}
    (h₁ : w.Returns os p σ err₁ w₁ os₁) (h₂ : w.Returns os p σ err₂ w₂ os₂) :
    err₁ = err₂ ∧ w₁ = w₂ ∧ os₁ = os₂ := by
  obtain ⟨n₁, rest₁, h₁⟩ := h₁
  obtain ⟨n₂, rest₂, h₂⟩ := h₂
  obtain ⟨extra₁, he₁⟩ := front_isPrefix σ (Nat.le_max_left n₁ n₂)
  obtain ⟨extra₂, he₂⟩ := front_isPrefix σ (Nat.le_max_right n₁ n₂)
  have hsame := (h₁ extra₁).symm.trans ((congrArg _ (he₁.trans he₂.symm)).trans (h₂ extra₂))
  rw [Prod.mk.injEq, Prod.mk.injEq, Prod.mk.injEq] at hsame
  exact ⟨hsame.1, hsame.2.2.1, hsame.2.2.2⟩

/-- A call is over when there were as many answers that are not interruptions as there are
bytes. -/
theorem write_ends {fd : ℕ} (h : w.Holds os fd i) {answers : List WriteAnswer}
    (hcount : p.length ≤ answers.countP (· ≠ .eintr)) :
    ∃ err rest w' os', ∀ extra,
      w.write os p (answers ++ extra) = (err, rest ++ extra, w', os') := by
  induction answers generalizing w os p with
  | nil =>
    obtain rfl : p = [] := List.eq_nil_of_length_eq_zero (Nat.le_zero.mp hcount)
    exact ⟨[], [], w, os, fun extra => write_nil w os extra⟩
  | cons ans answers ih =>
    by_cases hp : p = []
    · subst hp
      exact ⟨[], ans :: answers, w, os, fun extra => write_nil w os _⟩
    rw [List.countP_cons] at hcount
    rcases write_cons_cases h hp ans with
      ⟨m, hpos, hm, -, hrun⟩ | ⟨rfl, hrun⟩ | ⟨text, -, hrun⟩
    · have hleft : (p.drop m).length ≤ answers.countP (· ≠ .eintr) := by
        rw [List.length_drop]
        split at hcount <;> omega
      obtain ⟨err, rest, w', os', hrest⟩ := ih (holds_appendTo h (p.take m) _ _) hleft
      exact ⟨err, rest, w', os', fun extra => (hrun _).trans (hrest extra)⟩
    · rw [if_neg (by decide)] at hcount
      obtain ⟨err, rest, w', os', hrest⟩ := ih h hcount
      exact ⟨err, rest, w', os', fun extra => (hrun _).trans (hrest extra)⟩
    · exact ⟨_, answers, _, os, fun extra => hrun _⟩

/-- If not interrupted for ever, a call returns. -/
theorem exists_returns {fd : ℕ} (h : w.Holds os fd i) (hσ : Recurs (· ≠ .eintr) σ) (p : Bytes) :
    ∃ err w' os', w.Returns os p σ err w' os' := by
  obtain ⟨n, hn⟩ := hσ.exists_countP p.length
  obtain ⟨err, rest, w', os', hrun⟩ := write_ends h hn
  exact ⟨err, w', os', n, rest, hrun⟩

/-- Past the answers of a list the device fails. -/
theorem write_append_err {fd : ℕ} (h : w.Holds os fd i) (p : Bytes) (answers : List WriteAnswer) :
    ∃ rest, ∀ extra, w.write os p (answers ++ .err (str "Input/output error") :: extra) =
      ((w.write os p answers).1, rest ++ extra, (w.write os p answers).2.2) := by
  induction answers generalizing w os p with
  | nil =>
    by_cases hp : p = []
    · subst hp
      refine ⟨[.err (str "Input/output error")], fun extra => ?_⟩
      rw [write_nil, write_nil]
      rfl
    · refine ⟨[], fun extra => ?_⟩
      have hsys : w.sysWrite os p (.err (str "Input/output error")) =
          (.err (str "Input/output error"), os) := by simp only [sysWrite, h.fd_eq, Os.write]
      rw [List.nil_append, write.eq_def, if_neg hp, write.eq_def w os p [], if_neg hp]
      simp only [hsys]
      rfl
  | cons ans answers ih =>
    by_cases hp : p = []
    · subst hp
      refine ⟨ans :: answers ++ [.err (str "Input/output error")], fun extra => ?_⟩
      rw [write_nil, write_nil, List.append_assoc]
      rfl
    rcases write_cons_cases h hp ans with ⟨m, -, -, -, hrun⟩ | ⟨-, hrun⟩ | ⟨text, -, hrun⟩
    · obtain ⟨rest, hrest⟩ := ih (holds_appendTo h (p.take m) _ _) (p.drop m)
      refine ⟨rest, fun extra => ?_⟩
      rw [List.cons_append, hrun, hrun, hrest]
    · obtain ⟨rest, hrest⟩ := ih h p
      refine ⟨rest, fun extra => ?_⟩
      rw [List.cons_append, hrun, hrun, hrest]
    · refine ⟨answers ++ [.err (str "Input/output error")], fun extra => ?_⟩
      rw [List.cons_append, hrun, hrun, List.append_assoc answers]
      rfl

/-- So a call with the answers of a list is one with an endless sequence of answers. -/
theorem returns_write {fd : ℕ} (h : w.Holds os fd i) (p : Bytes) (answers : List WriteAnswer) :
    w.Returns os p (fun k => answers.getD k (.err (str "Input/output error")))
      (w.write os p answers).1 (w.write os p answers).2.2.1 (w.write os p answers).2.2.2 := by
  obtain ⟨rest, hrun⟩ := write_append_err h p answers
  refine ⟨answers.length + 1, rest, fun extra => ?_⟩
  have hlast : answers.getD answers.length (.err (str "Input/output error")) =
      .err (str "Input/output error") := by simp
  rw [front_succ, front_getD, hlast, List.append_assoc]
  exact hrun extra

/-! ### Errors -/

/-- What the returned `err` says: the text of an error among the answers, or that the file `i`
has no room left. -/
def Blames (w : FileWriter) (os : Os) (i : ℕ) (answers : List WriteAnswer) (err : Bytes) : Prop :=
  ∃ text, (.err text ∈ answers ∨
      text = str "File too large" ∧ MAX_OFF ≤ (os.data i).length) ∧
    err = str "ошибка записи в " ++ w.tempPath ++ str ": " ++ text

theorem Blames.cons {answers : List WriteAnswer} (h : w.Blames os i answers err)
    (ans : WriteAnswer) : w.Blames os i (ans :: answers) err := by
  obtain ⟨text, hcause, herr⟩ := h
  exact ⟨text, hcause.imp_left (List.mem_cons_of_mem ans), herr⟩

theorem ne_nil_of_error {answers rest : List WriteAnswer}
    (hrun : w.write os p answers = (err, rest, w', os')) (herr : err ≠ []) : p ≠ [] := by
  rintro rfl
  rw [write_nil] at hrun
  exact herr (congrArg Prod.fst hrun).symm

/-- An error is returned only after an error of the system. -/
theorem write_error {fd : ℕ} (h : w.Holds os fd i) {answers rest : List WriteAnswer}
    (hrun : ∀ extra, w.write os p (answers ++ extra) = (err, rest ++ extra, w', os'))
    (herr : err ≠ []) : w.Blames os' i answers err := by
  induction answers generalizing w os p with
  | nil =>
    -- an interruption more is a round more, so without answers nothing is returned yet
    have hround : w.write os p [.eintr] = w.write os p [] := by
      rw [write.eq_def, if_neg (ne_nil_of_error (hrun []) herr)]
      simp only [sysWrite, h.fd_eq, Os.write]
    have hsame := (hrun []).symm.trans (hround.symm.trans (hrun [.eintr]))
    have hrest : rest ++ [] = rest ++ [.eintr] := congrArg (·.2.1) hsame
    simp at hrest
  | cons ans answers ih =>
    rcases write_cons_cases h (ne_nil_of_error (hrun []) herr) ans with
      ⟨m, -, -, -, hstep⟩ | ⟨-, hstep⟩ | ⟨text, hcause, hstep⟩
    · have hgo := ih (holds_appendTo h (p.take m) _ _) fun extra =>
        (hstep _).symm.trans (hrun extra)
      exact hgo.cons ans
    · exact (ih h fun extra => (hstep _).symm.trans (hrun extra)).cons ans
    · have hend := hrun []
      rw [List.cons_append, hstep, Prod.mk.injEq, Prod.mk.injEq, Prod.mk.injEq] at hend
      obtain ⟨rfl, -, -, rfl⟩ := hend
      refine ⟨text, hcause.imp_left ?_, rfl⟩
      rintro rfl
      exact List.mem_cons_self

/-! ### The file and the counter -/

/-- The writer holds the file `i`, and has counted its bytes. -/
structure Tally (w : FileWriter) (os : Os) (i : ℕ) : Prop where
  holds : ∃ fd, w.Holds os fd i
  written : w.written = (os.data i).length
  length_le : (os.data i).length ≤ MAX_OFF

theorem Tally.of_same (h : w.Tally os i) (hsame : os.SameFile i os') : w.Tally os' i where
  holds := h.holds.imp fun _ hh => hh.of_same hsame
  written := by rw [hsame.data, h.written]
  length_le := by
    rw [hsame.data]
    exact h.length_le

theorem tally_open (hw : w.Closed) (hzero : w.written = 0) (hwf : os.WF) {ans : OpenAnswer}
    (hopen : w.«open» os ans = ([], w', os')) : w'.Tally os' os.nextIno := by
  rcases open_spec hw hwf hopen with ⟨hne, -⟩ | ⟨fd, -, hopened⟩
  · exact absurd rfl hne
  · refine ⟨⟨fd, hopened.holds⟩, ?_, ?_⟩
    · rw [hopened.written, hzero, hopened.data, List.length_nil]
    · rw [hopened.data]
      exact Nat.zero_le _

/-- What a call did to the file and to the counter. -/
structure Grown (w : FileWriter) (os : Os) (i : ℕ) (p err : Bytes) (w' : FileWriter) (os' : Os)
    (q : Bytes) : Prop where
  os_eq : os' = os.appendTo i q
  data : os'.data i = os.data i ++ q
  written : w'.written = w.written + q.length
  ok : err = [] → q = p
  failed : err ≠ [] → q <+: p ∧ q.length < p.length

theorem Tally.write (h : w.Tally os i) {answers rest : List WriteAnswer}
    (hrun : w.write os p answers = (err, rest, w', os')) :
    w'.Tally os' i ∧ ∃ q, w.Grown os i p err w' os' q := by
  obtain ⟨fd, hholds⟩ := h.holds
  have hlt : w.written < 2 ^ 64 := by
    have hle := h.length_le
    rw [h.written]
    simp only [MAX_OFF] at hle
    omega
  obtain ⟨q, tail, calls, hq⟩ := write_spec hholds hlt h.length_le p answers
  have hresult := hq.result
  have herror := hq.error
  have hle := hq.length_le
  rw [hrun] at hresult herror
  cases hresult
  have hdata : (os.appendTo i q).data i = os.data i ++ q := by simp
  have hsum : (w.written + q.length) % 2 ^ 64 = w.written + q.length := by
    rw [List.length_append, ← h.written] at hle
    refine Nat.mod_eq_of_lt ?_
    simp only [MAX_OFF] at hle
    omega
  refine ⟨⟨⟨fd, holds_appendTo hholds q _ _⟩, ?_, ?_⟩, q, rfl, hdata, hsum, ?_, ?_⟩
  · rw [hdata, List.length_append, ← h.written]
    exact hsum
  · rw [hdata]
    exact hle
  · intro hok
    rw [hq.split, herror.mp hok, List.append_nil]
  · intro hfail
    have htail : 0 < tail.length := List.length_pos_of_ne_nil fun ht => hfail (herror.mpr ht)
    refine ⟨⟨tail, hq.split.symm⟩, ?_⟩
    rw [hq.split, List.length_append]
    omega

/-! ### From `open` on -/

/-- A writer from its first `open` on: calls of `write` that return, with whatever result,
and in between what others do that is not about its file. -/
inductive InUse (i : ℕ) : FileWriter → Os → Prop
  | opened {w w' : FileWriter} {os os' : Os} {ans : OpenAnswer} (hw : w.Closed)
      (hzero : w.written = 0) (hwf : os.WF) (hino : os.nextIno = i)
      (hopen : w.«open» os ans = ([], w', os')) : InUse i w' os'
  | wrote {w w' : FileWriter} {os os' : Os} {p err : Bytes} {σ : ℕ → WriteAnswer}
      (h : InUse i w os) (hret : w.Returns os p σ err w' os') : InUse i w' os'
  | other {w : FileWriter} {os os' : Os} (h : InUse i w os) (hsame : os.SameFile i os') :
      InUse i w os'

theorem InUse.tally (h : InUse i w os) : w.Tally os i := by
  induction h with
  | opened hw hzero hwf hino hopen =>
    subst hino
    exact tally_open hw hzero hwf hopen
  | wrote _ hret ih =>
    obtain ⟨n, rest, hrun⟩ := hret
    exact (ih.write (hrun [])).1
  | other _ hsame ih => exact ih.of_same hsame

/-- A call with the answers of a list is one of them. -/
theorem InUse.write (h : InUse i w os) (p : Bytes) (answers : List WriteAnswer) :
    InUse i (w.write os p answers).2.2.1 (w.write os p answers).2.2.2 := by
  obtain ⟨fd, hholds⟩ := h.tally.holds
  exact .wrote h (returns_write hholds p answers)

/-- **`write` loses and repeats nothing.**  For a writer in use, all data and all answers of
the system, short writes, interruptions and errors at any point:

* if not interrupted for ever, the call returns, with one result;
* with it the file has grown by all of the data, or with an error by a proper prefix of it,
  `m_written` has grown by as much, and nothing else has changed in the system; the error is
  one that the system has answered, or there is no room left in the file;
* so `m_written` is the length of the file, after any sequence of calls. -/
theorem write_loses_nothing (h : InUse i w os) (p : Bytes) (σ : ℕ → WriteAnswer) :
    (Recurs (· ≠ .eintr) σ →
      ∃! r : Bytes × FileWriter × Os, w.Returns os p σ r.1 r.2.1 r.2.2) ∧
    (∀ err w' os', w.Returns os p σ err w' os' →
      InUse i w' os' ∧ (∃ q, w.Grown os i p err w' os' q) ∧
        (err ≠ [] → ∃ n, w.Blames os' i (front σ n) err)) ∧
    w.written = (os.data i).length := by
  obtain ⟨fd, hholds⟩ := h.tally.holds
  refine ⟨fun hσ => ?_, fun err w' os' hret => ⟨.wrote h hret, ?_, fun herr => ?_⟩,
    h.tally.written⟩
  · obtain ⟨err, w', os', hret⟩ := exists_returns hholds hσ p
    refine ⟨(err, w', os'), hret, fun r hr => ?_⟩
    obtain ⟨h₁, h₂, h₃⟩ := hr.unique hret
    exact Prod.ext h₁ (Prod.ext h₂ h₃)
  · obtain ⟨n, rest, hrun⟩ := hret
    exact (h.tally.write (hrun [])).2
  · obtain ⟨n, rest, hrun⟩ := hret
    exact ⟨n, write_error hholds hrun herr⟩

theorem write_loses_nothing_one_byte :
    ∃ w os, InUse 0 w os ∧ ∃ err w' os' q,
      w.Returns os (str "abc") (fun k => if k % 2 = 0 then .eintr else .took 1) err w' os' ∧
        w.Grown os 0 (str "abc") err w' os' q ∧ err = [] ∧ InUse 0 w' os' := by
  have hopen : ({ dir := str "in" } : FileWriter).«open» (.empty 1) (.fd 3) = ([], _, _) := rfl
  have huse : InUse 0 _ _ := .opened ⟨rfl, rfl⟩ rfl (Os.WF.empty 1) rfl hopen
  refine ⟨_, _, huse, ?_⟩
  obtain ⟨hends, hgrown, -⟩ := write_loses_nothing huse (str "abc")
    fun k => if k % 2 = 0 then .eintr else .took 1
  have hrecurs : Recurs (· ≠ .eintr)
      fun k => if k % 2 = 0 then WriteAnswer.eintr else .took 1 := by
    intro n
    refine ⟨2 * n + 1, by omega, ?_⟩
    show (if (2 * n + 1) % 2 = 0 then WriteAnswer.eintr else .took 1) ≠ .eintr
    rw [if_neg (by omega)]
    decide
  obtain ⟨⟨err, w', os'⟩, hret, -⟩ := hends hrecurs
  obtain ⟨huse', ⟨q, hq⟩, hblames⟩ := hgrown err w' os' hret
  refine ⟨err, w', os', q, hret, hq, ?_, huse'⟩
  -- no answer is an error, and three bytes leave room
  by_contra herr
  obtain ⟨n, text, hcause | ⟨-, hroom⟩, -⟩ := hblames herr
  · obtain ⟨k, -, hk⟩ := (mem_front _).mp hcause
    split at hk <;> cases hk
  · have hshort : q.length < 3 := (hq.failed herr).2
    rw [hq.data] at hroom
    exact absurd (hroom.trans hshort.le) (by decide)

end FileWriter

end Nexus
