/-
What a session asks of its writer, and what the system may refuse it.

`open` takes the one name that the pid and the counter give, and fails if there is a
file of that name; `commit` goes on to the next name when a name is taken. So of the
two ways in which a file that is already there can stop an upload, only the second
needs a thousand files.

* `Treats.handle` — an event does to the writer what `open`, `write`, `commit` and
  `abort` do, and `open` comes first, in the state in which the event found the system;
* `replay_opens` — no `open` of a session fails with `EEXIST` exactly when every call
  that opens finds its name free.
-/
import NexusTransmitter.SessionLog

namespace Nexus

/-- The error text of `EEXIST`. -/
abbrev eexist : Bytes := str "File exists"

namespace FileWriter

/-- All the final names for one time were found taken. -/
def Exhausted (w : FileWriter) : Prop :=
  ∃ t, ∀ k < 1000, .link (w.candidate (fileTimestamp t) k) (some eexist) ∈ w.log

/-- The name of the temporary file was found taken. -/
def Clashed (w : FileWriter) : Prop := ∃ p, .open p (some eexist) ∈ w.log

/-- `open` failed. -/
def Refused (w : FileWriter) : Prop := ∃ p text, .open p (some text) ∈ w.log

/-- How the calls of `link` ended: the file was published, or all the names were taken,
or there was another error. -/
def Concluded (w : FileWriter) : Prop :=
  w.published ≠ none ∨ w.Exhausted ∨ ∃ p text, text ≠ eexist ∧ .link p (some text) ∈ w.log

/-! ### The calls of an operation -/

section Operations

variable {w : FileWriter} {os : Os}

theorem open_log (w : FileWriter) (os : Os) (ans : OpenAnswer) :
    ∃ e, (w.«open» os ans).2.1.log = w.log ++ [.open (tempName w.dir os.pid os.tempSeq) e] ∧
      (w.«open» os ans).2.1.dir = w.dir ∧ (w.«open» os ans).2.1.published = w.published ∧
      (e ≠ none → (w.«open» os ans).2.1.Closed) := by
  rcases open_cases w os ans with ⟨text, -, h⟩ | ⟨fd, -, -, h⟩
  · rw [h]
    exact ⟨some text, rfl, rfl, rfl, fun _ => ⟨rfl, rfl⟩⟩
  · rw [h]
    exact ⟨none, rfl, rfl, rfl, fun hne => absurd rfl hne⟩

/-- A name that is taken is refused. -/
theorem open_taken (w : FileWriter) {os : Os}
    (h : os.dir (tempName w.dir os.pid os.tempSeq) ≠ none) (ans : OpenAnswer) :
    ∃ p text, .open p (some text) ∈ (w.«open» os ans).2.1.log := by
  rcases open_cases w os ans with ⟨text, -, hrun⟩ | ⟨fd, -, hfree, -⟩
  · rw [hrun]
    exact ⟨_, text, List.mem_append_right _ (List.mem_singleton.mpr rfl)⟩
  · exact absurd hfree h

/-- A name that is free is not refused because it is taken. -/
theorem open_free (w : FileWriter) {os : Os} {ans : OpenAnswer}
    (h : os.dir (tempName w.dir os.pid os.tempSeq) = none) (hans : ans ≠ .err eexist)
    (hold : ∀ p, .open p (some eexist) ∉ w.log) (p : Bytes) :
    .open p (some eexist) ∉ (w.«open» os ans).2.1.log := by
  have hne : ∀ text, (os.nextTempSeq.openExcl (tempName w.dir os.pid os.tempSeq) ans).1 =
      .error text → text ≠ eexist := by
    intro text htext
    cases ans with
    | err text' =>
      rw [Os.openExcl] at htext
      cases htext
      exact fun heq => hans (by rw [heq])
    | fd n =>
      rw [Os.openExcl, if_neg (by simpa using h)] at htext
      split at htext <;> cases htext
      decide
  rw [FileWriter.«open»]
  split <;> rename_i hrun <;> intro hmem <;> rcases List.mem_append.mp hmem with hmem | hmem
  · exact hold p hmem
  · rw [List.mem_singleton] at hmem
    cases hmem
    exact hne _ (congrArg Prod.fst hrun) rfl
  · exact hold p hmem
  · rw [List.mem_singleton] at hmem
    cases hmem

theorem write_log (w : FileWriter) (os : Os) (p : Bytes) (answers : List WriteAnswer) :
    ∃ written calls, (w.write os p answers).2.2.1 =
        { w with written := written, log := w.log ++ calls } ∧
      ∀ c ∈ calls, FsCall.isWrite c = true := by
  have hnone : ∀ w : FileWriter, ∃ written calls,
      w = { w with written := written, log := w.log ++ calls } ∧
        ∀ c ∈ calls, FsCall.isWrite c = true :=
    fun w => ⟨w.written, [], by rw [List.append_nil], by simp⟩
  have hfail : ∀ (w : FileWriter) (text : Bytes), ∃ written calls,
      ({ w with log := w.log ++ [FsCall.writeError text] } : FileWriter) =
        { w with written := written, log := w.log ++ calls } ∧
        ∀ c ∈ calls, FsCall.isWrite c = true :=
    fun w text => ⟨w.written, [.writeError text], rfl, by simp [FsCall.isWrite]⟩
  induction answers generalizing w os p with
  | nil =>
    rw [write.eq_def]
    split
    · exact hnone w
    · exact hfail w _
  | cons ans answers ih =>
    rw [write.eq_def]
    split
    · exact hnone w
    dsimp only
    split
    · exact ih w _ p
    · exact hfail w _
    · rename_i n os' _
      obtain ⟨written, calls, hrun, hcalls⟩ := ih
        { w with written := (w.written + n) % 2 ^ 64, log := w.log ++ [FsCall.write (p.take n)] }
        os' (p.drop n)
      refine ⟨written, .write (p.take n) :: calls, by rw [hrun]; simp, ?_⟩
      exact List.forall_mem_cons.mpr ⟨rfl, hcalls⟩

theorem abort_log (w : FileWriter) (os : Os) :
    ∃ calls, (w.abort os).1.log = w.log ++ calls ∧ (w.abort os).1.dir = w.dir ∧
      (w.abort os).1.published = w.published ∧
      ∀ c ∈ calls, (∀ p e, c ≠ .open p e) ∧ ∀ p e, c ≠ .link p e := by
  unfold abort
  cases w.fd <;> dsimp only <;> split
  · exact ⟨[], by simp, rfl, rfl, by simp⟩
  · exact ⟨[.unlink w.tempPath], rfl, rfl, rfl, by simp⟩
  · exact ⟨[.close], rfl, rfl, rfl, by simp⟩
  · exact ⟨[.close, .unlink w.tempPath], by simp, rfl, rfl, by simp⟩

/-- What the calls of a `commit` say: the file was published, or some `link` failed
with another error than `EEXIST`, or all the names were taken. -/
inductive Tried (w w' : FileWriter) (stamp : Bytes) (calls : List FsCall) : Prop
  | published (h : w'.published ≠ none)
  | failed (hpub : w'.published = w.published) {p text : Bytes} (hne : text ≠ eexist)
      (h : .link p (some text) ∈ calls)
  | taken (hpub : w'.published = w.published)
      (h : ∀ k < 1000, .link (w.candidate stamp k) (some eexist) ∈ calls)
  | early (hpub : w'.published = w.published) (h : ∀ p e, .link p e ∉ calls)

theorem linkLoop_log (stamp : Bytes) (faults : ℕ → Option Bytes) (w : FileWriter) (os : Os)
    (left suffix : ℕ) :
    ∃ calls, (linkLoop stamp faults w os left suffix).2.1.log = w.log ++ calls ∧
      (linkLoop stamp faults w os left suffix).2.1.dir = w.dir ∧ (∀ p e, .open p e ∉ calls) ∧
      ((∀ k, faults k ≠ some eexist) →
        (linkLoop stamp faults w os left suffix).2.1.published ≠ none ∨
          (linkLoop stamp faults w os left suffix).2.1.published = w.published ∧
            ((∃ p text, text ≠ eexist ∧ .link p (some text) ∈ calls) ∨
              ∀ k, suffix ≤ k → k < suffix + left →
                .link (w.candidate stamp k) (some eexist) ∈ calls)) := by
  induction left generalizing w os suffix with
  | zero =>
    exact ⟨[], by rw [linkLoop, List.append_nil], rfl, by simp,
      fun _ => .inr ⟨rfl, .inr fun k h1 h2 =>
      absurd h1 (by omega)⟩⟩
  | succ left ih =>
    rw [linkLoop]
    split
    · exact ⟨_, rfl, rfl, by simp, fun _ => .inl (Option.some_ne_none _)⟩
    · -- the name is taken: the next one
      rename_i os' _
      obtain ⟨calls, hlog, hdir, hopen, hlinks⟩ := ih
        { w with log := w.log ++ [.link (finalPath w.dir (candidateName stamp suffix))
          (some (str "File exists"))] } os' (suffix + 1)
      refine ⟨.link (w.candidate stamp suffix) (some eexist) :: calls, ?_, hdir, ?_, fun hf => ?_⟩
      · rw [hlog]
        simp [candidate]
      · simpa using hopen
      refine (hlinks hf).imp_right (And.imp_right (Or.imp ?_ fun hall k h1 h2 => ?_))
      · rintro ⟨p, text, hne, hmem⟩
        exact ⟨p, text, hne, List.mem_cons_of_mem _ hmem⟩
      · by_cases hk : k = suffix
        · rw [hk]
          exact List.mem_cons_self
        · exact List.mem_cons_of_mem _ (hall k (by omega) (by omega))
    · rename_i text os' hlink
      refine ⟨_, rfl, rfl, by simp, fun hf => .inr ⟨rfl, .inl
        ⟨_, text, fun htext => ?_, List.mem_singleton.mpr rfl⟩⟩⟩
      subst htext
      unfold Os.link at hlink
      split at hlink
      · rename_i htext
        cases hlink
        exact hf suffix htext
      split at hlink
      · have heq := congrArg Prod.fst hlink
        simp only [LinkResult.err.injEq] at heq
        exact absurd heq (by decide)
      · split at hlink <;> cases hlink

theorem commit_log (w : FileWriter) (os : Os) (fsyncFault : Option Bytes) (now : Tm)
    (faults : ℕ → Option Bytes) :
    ∃ calls, (w.commit os fsyncFault now faults).2.1.log = w.log ++ calls ∧
      (w.commit os fsyncFault now faults).2.1.dir = w.dir ∧ (∀ p e, .open p e ∉ calls) ∧
      ((∀ k, faults k ≠ some eexist) →
        w.Tried (w.commit os fsyncFault now faults).2.1 (fileTimestamp now) calls) := by
  cases hfd : w.fd with
  | none =>
    simp only [commit, hfd]
    exact ⟨[], by simp, trivial, by simp, fun _ => .early rfl (by simp)⟩
  | some fd =>
  cases fsyncFault with
  | some text =>
    simp only [commit, hfd]
    exact ⟨[.fsync (some text)], rfl, trivial, by simp, fun _ => .early rfl (by simp)⟩
  | none =>
    simp only [commit, hfd]
    obtain ⟨calls, hlog, hdir, hopen, hlinks⟩ := linkLoop_log (fileTimestamp now) faults
      { w with fd := none, log := w.log ++ [.fsync none, .close] } (os.close fd) 1000 0
    refine ⟨[.fsync none, .close] ++ calls, by rw [hlog]; simp, hdir, by simpa using hopen,
      fun hf => ?_⟩
    rcases hlinks hf with hpub | ⟨hpub, ⟨p, text, hne, hmem⟩ | hall⟩
    · exact .published hpub
    · exact .failed hpub hne (List.mem_append_right _ hmem)
    · exact .taken hpub fun k hk => List.mem_append_right _ (hall k (Nat.zero_le _) (by omega))

end Operations

end FileWriter

/-- The errors in the answers are others than `EEXIST`, which is for the directory to
say. -/
structure Sys.Honest (sys : Sys) : Prop where
  openAnswer : sys.openAnswer ≠ .err eexist
  linkFaults : ∀ k, sys.linkFaults k ≠ some eexist

namespace Session

/-! ### What an event does to the writer -/

/-- `P`, which may speak of whether the HELLO has come, survives what an event can do
to a writer: an `open` in the state `sys.os` when the HELLO comes, then writing, a
`commit`, and an `abort` at any time. -/
structure Treats (P : Bool → FileWriter → Prop) (sys : Sys) : Prop where
  «open» : ∀ w, P false w → P true (w.«open» sys.os sys.openAnswer).2.1
  write : ∀ w os bs answers, P true w → P true (w.write os bs answers).2.2.1
  commit : ∀ w os, P true w →
    P true (w.commit os sys.fsyncFault sys.localTime sys.linkFaults).2.1
  abort : ∀ b w os, P b w → P b (w.abort os).1

/-- While the event goes on: the answers to come are those of `sys`, and before the
HELLO nothing has happened to the files. -/
structure Treated (P : Bool → FileWriter → Prop) (sys : Sys) (r : Bool × Session × Sys) :
    Prop where
  writer : P r.2.1.helloReceived r.2.1.writer
  openAnswer : r.2.2.openAnswer = sys.openAnswer
  fsyncFault : r.2.2.fsyncFault = sys.fsyncFault
  localTime : r.2.2.localTime = sys.localTime
  linkFaults : r.2.2.linkFaults = sys.linkFaults
  first : r.1 = true → r.2.1.helloReceived = false → r.2.2.os = sys.os

section Treated

variable {P : Bool → FileWriter → Prop} {sys sys' : Sys} {s : Session} {b : Bool}

theorem Treats.failed (h : Treats P sys) (hs : Treated P sys (b, s, sys')) (status : Status)
    (message : Bytes) : Treated P sys (s.failed sys' status message) where
  writer := h.abort _ _ _ hs.writer
  openAnswer := hs.openAnswer
  fsyncFault := hs.fsyncFault
  localTime := hs.localTime
  linkFaults := hs.linkFaults
  first := nofun

/-- The HELLO has come. -/
theorem Treated.of_hello (hs : Treated P sys (b, s, sys')) {b₁ : Bool} {s₁ : Session} {sys₁ : Sys}
    (hhello : s₁.helloReceived = true) (hw : P true s₁.writer)
    (h1 : sys₁.openAnswer = sys'.openAnswer) (h2 : sys₁.fsyncFault = sys'.fsyncFault)
    (h3 : sys₁.localTime = sys'.localTime) (h4 : sys₁.linkFaults = sys'.linkFaults) :
    Treated P sys (b₁, s₁, sys₁) where
  writer := by
    show P s₁.helloReceived s₁.writer
    rw [hhello]
    exact hw
  openAnswer := h1.trans hs.openAnswer
  fsyncFault := h2.trans hs.fsyncFault
  localTime := h3.trans hs.localTime
  linkFaults := h4.trans hs.linkFaults
  first := by
    intro _ hno
    change s₁.helloReceived = false at hno
    rw [hhello] at hno
    cases hno

theorem Treats.onHello (h : Treats P sys) (hs : Treated P sys (true, s, sys')) (data : Bytes) :
    Treated P sys (s.onHello sys' data) := by
  unfold Session.onHello
  split
  · exact h.failed hs _ _
  rename_i hhello
  split
  · exact h.failed hs _ _
  · have hno : s.helloReceived = false := by simpa using hhello
    have hopen : P true (s.writer.«open» sys'.os sys'.openAnswer).2.1 := by
      rw [hs.first rfl hno, hs.openAnswer]
      exact h.open _ (hno ▸ hs.writer)
    dsimp only
    split
    · refine h.failed (b := true) ?_ _ _
      exact hs.of_hello rfl hopen rfl rfl rfl rfl
    · exact hs.of_hello rfl hopen rfl rfl rfl rfl

theorem Treats.onData (h : Treats P sys) (hs : Treated P sys (true, s, sys')) (data : Bytes) :
    Treated P sys (s.onData sys' data) := by
  unfold Session.onData
  split
  · exact h.failed hs _ _
  rename_i hhello
  split
  · exact h.failed hs _ _
  · have hyes : s.helloReceived = true := by simpa using hhello
    have hwrite : P true (s.writer.write sys'.os data sys'.writes).2.2.1 :=
      h.write _ _ _ _ (hyes ▸ hs.writer)
    dsimp only
    split
    · refine h.failed (b := true) ?_ _ _
      exact hs.of_hello hyes hwrite rfl rfl rfl rfl
    · exact hs.of_hello hyes hwrite rfl rfl rfl rfl

theorem Treats.onEnd (h : Treats P sys) (hs : Treated P sys (true, s, sys')) (data : Bytes) :
    Treated P sys (false, (s.onEnd sys' data).2) := by
  have hfailed : ∀ {s sys'} (status : Status) (message : Bytes), Treated P sys (true, s, sys') →
      Treated P sys (false, (s.failed sys' status message).2) := fun status message hs =>
    { h.failed hs status message with first := nofun }
  unfold Session.onEnd
  split
  · exact hfailed _ _ hs
  rename_i hhello
  have hyes : s.helloReceived = true := by simpa using hhello
  split
  · exact hfailed _ _ hs
  split
  · exact hfailed _ _ hs
  split
  · exact hfailed _ _ hs
  · have hcommit : P true
        (s.writer.commit sys'.os sys'.fsyncFault sys'.localTime sys'.linkFaults).2.1 := by
      rw [hs.fsyncFault, hs.localTime, hs.linkFaults]
      exact h.commit _ _ (hyes ▸ hs.writer)
    dsimp only
    split
    · refine hfailed _ _ ?_
      exact hs.of_hello hyes hcommit rfl rfl rfl rfl
    · exact hs.of_hello hyes hcommit rfl rfl rfl rfl

theorem Treats.onFrame (h : Treats P sys) (hs : Treated P sys (true, s, sys')) (f : Frame) :
    Treated P sys (s.onFrame sys' f) := by
  unfold Session.onFrame
  split
  · exact h.onHello hs f.data
  · exact h.onData hs f.data
  · exact h.onEnd hs f.data
  · exact h.failed hs _ _

theorem Treats.processFrames (h : Treats P sys) (hs : Treated P sys (true, s, sys')) (fuel : ℕ) :
    Treated P sys (s.processFrames sys' fuel) := by
  induction fuel generalizing s sys' with
  | zero => exact hs
  | succ fuel ih =>
    rw [Session.processFrames]
    split
    · exact hs
    · exact h.failed hs _ _
    · rename_i f p _
      have hframe := h.onFrame (s := s.take f p)
        ⟨hs.writer, hs.openAnswer, hs.fsyncFault, hs.localTime, hs.linkFaults, hs.first⟩ f
      split <;> rename_i hrun <;> rw [hrun] at hframe
      · exact ih hframe
      · exact hframe

theorem SendResult.writer {all : List SendAnswer} {r : Bool × Session × Sys}
    (h : SendResult sys all s r) :
    r.2.1.writer = s.writer ∧ r.2.1.helloReceived = s.helloReceived := by
  induction h with
  | stays s hsends => exact ⟨rfl, rfl⟩
  | fails s text hsends => exact ⟨rfl, rfl⟩
  | drains s hsends => exact ⟨rfl, rfl⟩
  | advances s n h ih => exact ih

theorem onWritable_writer :
    (s.onWritable sys).2.1.writer = s.writer ∧
      (s.onWritable sys).2.1.helloReceived = s.helloReceived := by
  unfold onWritable
  split
  · exact ⟨rfl, rfl⟩
  · exact (sendLoop_result s sys (List.suffix_refl _)).writer

theorem terminate_helloReceived (os : Os) (reason : Bytes) :
    (s.terminate os reason).1.helloReceived = s.helloReceived := by
  rw [terminate]
  split <;> rfl

theorem terminate_writer (os : Os) (reason : Bytes) :
    (s.terminate os reason).1.writer = s.writer ∨
      (s.terminate os reason).1.writer = (s.writer.abort os).1 := by
  rw [terminate]
  split
  · exact .inl rfl
  · exact .inr rfl

theorem Treats.terminate (h : Treats P sys) (hs : P s.helloReceived s.writer) (os : Os)
    (reason : Bytes) :
    P (s.terminate os reason).1.helloReceived (s.terminate os reason).1.writer := by
  rw [terminate_helloReceived]
  rcases terminate_writer os reason with hw | hw <;> rw [hw]
  · exact hs
  · exact h.abort _ _ _ hs

theorem Treats.onReadable (h : Treats P sys) (hs : Treated P sys (true, s, sys'))
    (reads : List ReadAnswer) :
    P (s.onReadable sys' reads).2.1.helloReceived (s.onReadable sys' reads).2.1.writer := by
  induction reads generalizing s sys' with
  | nil => exact hs.writer
  | cons ans reads ih =>
    match ans with
    | .eagain => exact hs.writer
    | .eintr => exact ih hs
    | .err text => exact h.terminate hs.writer _ _
    | .bytes [] =>
      rw [Session.onReadable]
      split
      · exact hs.writer
      split
      · exact hs.writer
      · exact h.terminate hs.writer _ _
    | .bytes (b :: bs) =>
      have hr : Treated P sys (true, s.receive (b :: bs) sys'.now, sys') :=
        ⟨hs.writer, hs.openAnswer, hs.fsyncFault, hs.localTime, hs.linkFaults, hs.first⟩
      rw [Session.onReadable]
      split
      · have hframes := h.processFrames hr (s.receive (b :: bs) sys'.now).parser.buffered
        split <;> rename_i hrun <;> rw [hrun] at hframes
        · exact ih hframes
        · split
          · rw [onWritable_writer.1, onWritable_writer.2]
            exact hframes.writer
          · exact hframes.writer
      · exact ih hr

/-- **What an event does to the writer.** -/
theorem Treats.handle (h : Treats P sys) (hs : P s.helloReceived s.writer) (events : BitVec 32)
    (reads : List ReadAnswer) :
    P (s.handle sys events reads).2.1.helloReceived (s.handle sys events reads).2.1.writer := by
  have hstart : Treated P sys (true, s, sys) := ⟨hs, rfl, rfl, rfl, rfl, fun _ _ => rfl⟩
  rw [Session.handle]
  split
  · split
    · exact h.terminate hs _ _
    · exact hs
  have hread : P
      (if events &&& EPOLLIN ≠ 0 then s.onReadable sys reads else (true, s, sys)).2.1.helloReceived
      (if events &&& EPOLLIN ≠ 0 then s.onReadable sys reads else (true, s, sys)).2.1.writer := by
    split
    · exact h.onReadable hstart reads
    · exact hs
  split <;> rename_i hr <;> rw [hr] at hread
  · exact hread
  · split
    · rw [onWritable_writer.1, onWritable_writer.2]
      exact hread
    · exact hread

end Treated

/-! ### What the log says -/

/-- What the log of a session's writer says: nothing before the HELLO; nothing more after
an `open` that failed; and the calls of `link` came to an end. -/
structure Told (hello : Bool) (w : FileWriter) : Prop where
  fresh : hello = false → w.Closed ∧ w.log = []
  refused : w.Refused → w.Closed ∧ ∀ p e, .link p e ∉ w.log
  links : (∃ p e, .link p e ∈ w.log) → w.Concluded

section Told

variable {w w' : FileWriter} {calls : List FsCall} {sys : Sys} {os : Os} {b : Bool}

theorem concluded_mono (h : w.Concluded) (hlog : w'.log = w.log ++ calls) (hdir : w'.dir = w.dir)
    (hpub : w.published ≠ none → w'.published ≠ none) : w'.Concluded := by
  have hmem : ∀ c ∈ w.log, c ∈ w'.log := fun c hc => by
    rw [hlog]
    exact List.mem_append_left _ hc
  refine h.imp hpub (Or.imp ?_ ?_)
  · rintro ⟨t, ht⟩
    refine ⟨t, fun k hk => hmem _ ?_⟩
    rw [FileWriter.candidate, hdir]
    exact ht k hk
  · rintro ⟨p, text, hne, hc⟩
    exact ⟨p, text, hne, hmem _ hc⟩

/-- More calls, none of them an `open` or a `link`. -/
theorem Told.append (h : Told b w) (hlog : w'.log = w.log ++ calls) (hdir : w'.dir = w.dir)
    (hpub : w'.published = w.published) (hopen : ∀ p e, .open p e ∉ calls)
    (hlink : ∀ p e, .link p e ∉ calls) (hclosed : w.Closed → w'.Closed)
    (hfresh : b = false → w'.log = []) : Told b w' where
  fresh := fun hb => ⟨hclosed (h.fresh hb).1, hfresh hb⟩
  refused := by
    rintro ⟨p, text, hc⟩
    rw [hlog] at hc
    obtain ⟨hcl, hno⟩ := h.refused ⟨p, text, (List.mem_append.mp hc).resolve_right (hopen p _)⟩
    refine ⟨hclosed hcl, fun q e hq => ?_⟩
    rw [hlog] at hq
    exact (List.mem_append.mp hq).elim (hno q e) (hlink q e)
  links := by
    rintro ⟨p, e, hc⟩
    rw [hlog] at hc
    have hold := h.links ⟨p, e, (List.mem_append.mp hc).resolve_right (hlink p e)⟩
    exact concluded_mono hold hlog hdir
      fun hne => by rwa [hpub]

theorem Told.open (h : Told false w) (ans : OpenAnswer) : Told true (w.«open» os ans).2.1 := by
  obtain ⟨e, hlog, -, -, hclosed⟩ := FileWriter.open_log w os ans
  rw [(h.fresh rfl).2, List.nil_append] at hlog
  have hnolink : ∀ p e, .link p e ∉ (w.«open» os ans).2.1.log := by
    rw [hlog]
    simp
  refine ⟨nofun, ?_, fun ⟨p, e, hc⟩ => absurd hc (hnolink p e)⟩
  rintro ⟨p, text, hc⟩
  rw [hlog, List.mem_singleton] at hc
  cases hc
  exact ⟨hclosed (Option.some_ne_none _), hnolink⟩

theorem Told.write (h : Told true w) (bs : Bytes) (answers : List WriteAnswer) :
    Told true (w.write os bs answers).2.2.1 := by
  obtain ⟨written, calls, hrun, hcalls⟩ := FileWriter.write_log w os bs answers
  rw [hrun]
  exact h.append rfl rfl rfl (fun p e hc => (nomatch hcalls _ hc))
    (fun p e hc => (nomatch hcalls _ hc)) (fun hc => hc) nofun

theorem Told.abort (h : Told b w) : Told b (w.abort os).1 := by
  obtain ⟨calls, hlog, hdir, hpub, hcalls⟩ := FileWriter.abort_log w os
  refine h.append hlog hdir hpub (fun p e hc => (hcalls _ hc).1 p e rfl)
    (fun p e hc => (hcalls _ hc).2 p e rfl) (fun hc => ?_) fun hb => ?_
  · rw [FileWriter.abort_of_closed hc]
    exact hc
  · rw [FileWriter.abort_of_closed (h.fresh hb).1]
    exact (h.fresh hb).2

theorem Told.commit (h : Told true w) (hh : sys.Honest) (os : Os) :
    Told true (w.commit os sys.fsyncFault sys.localTime sys.linkFaults).2.1 := by
  obtain ⟨calls, hlog, hdir, hopen, htried⟩ :=
    FileWriter.commit_log w os sys.fsyncFault sys.localTime sys.linkFaults
  refine ⟨nofun, ?_, ?_⟩
  · rintro ⟨p, text, hc⟩
    rw [hlog] at hc
    have hrefused : w.Refused := ⟨p, text, (List.mem_append.mp hc).resolve_right (hopen p _)⟩
    -- there is no file to commit
    have hrun : w.commit os sys.fsyncFault sys.localTime sys.linkFaults =
        ({ finalName := [], error := str "файл не открыт" }, w, os) := by
      simp only [FileWriter.commit, (h.refused hrefused).1.1]
    rw [hrun]
    exact h.refused hrefused
  · rintro ⟨p, e, hc⟩
    have hnew : ∀ c ∈ calls,
        c ∈ (w.commit os sys.fsyncFault sys.localTime sys.linkFaults).2.1.log := fun c hc => by
      rw [hlog]
      exact List.mem_append_right _ hc
    cases htried hh.linkFaults with
    | published hpub => exact .inl hpub
    | failed hpub hne hmem => exact .inr (.inr ⟨_, _, hne, hnew _ hmem⟩)
    | taken hpub hall =>
      refine .inr (.inl ⟨sys.localTime, fun k hk => ?_⟩)
      rw [FileWriter.candidate, hdir]
      exact hnew _ (hall k hk)
    | early hpub hno =>
      rw [hlog] at hc
      have hold := h.links ⟨p, e, (List.mem_append.mp hc).resolve_right (hno p e)⟩
      exact concluded_mono hold hlog hdir
        fun hne => by rwa [hpub]

theorem told_treats (hh : sys.Honest) : Treats Told sys where
  «open» := fun _ h => h.open _
  write := fun _ _ bs answers h => h.write bs answers
  commit := fun _ os h => h.commit hh os
  abort := fun _ _ _ h => h.abort

end Told

/-! ### Calls that open -/

section Opens

variable {w w' : FileWriter} {sys : Sys} {os : Os} {b : Bool}

/-- What is in the log stays there, and the directory does not change. -/
structure Grows (w w' : FileWriter) : Prop where
  dir : w'.dir = w.dir
  log : ∀ c ∈ w.log, c ∈ w'.log

/-- More calls, and no `open`. -/
structure Goes (w w' : FileWriter) : Prop extends Grows w w' where
  «open» : ∀ p e, .open p e ∈ w'.log → .open p e ∈ w.log

theorem goes_append {calls : List FsCall} (hlog : w'.log = w.log ++ calls) (hdir : w'.dir = w.dir)
    (hopen : ∀ p e, .open p e ∉ calls) : Goes w w' where
  dir := hdir
  log := fun c hc => by
    rw [hlog]
    exact List.mem_append_left _ hc
  «open» := fun p e hc => by
    rw [hlog] at hc
    exact (List.mem_append.mp hc).resolve_right (hopen p e)

theorem open_grows (w : FileWriter) (os : Os) (ans : OpenAnswer) :
    Grows w (w.«open» os ans).2.1 := by
  obtain ⟨e, hlog, hdir, -, -⟩ := FileWriter.open_log w os ans
  exact ⟨hdir, fun c hc => by rw [hlog]; exact List.mem_append_left _ hc⟩

theorem write_goes (w : FileWriter) (os : Os) (bs : Bytes) (answers : List WriteAnswer) :
    Goes w (w.write os bs answers).2.2.1 := by
  obtain ⟨written, calls, hrun, hcalls⟩ := FileWriter.write_log w os bs answers
  rw [hrun]
  exact goes_append rfl rfl fun p e hc => (nomatch hcalls _ hc)

theorem commit_goes (w : FileWriter) (os : Os) (fsyncFault : Option Bytes) (now : Tm)
    (faults : ℕ → Option Bytes) : Goes w (w.commit os fsyncFault now faults).2.1 := by
  obtain ⟨calls, hlog, hdir, hopen, -⟩ := FileWriter.commit_log w os fsyncFault now
    faults
  exact goes_append hlog hdir hopen

theorem abort_goes (w : FileWriter) (os : Os) : Goes w (w.abort os).1 := by
  obtain ⟨calls, hlog, hdir, -, hcalls⟩ := FileWriter.abort_log w os
  exact goes_append hlog hdir fun p e hc => (hcalls _ hc).1 p e rfl

/-- It is enough to look at `open`. -/
theorem treats_of_goes {P : Bool → FileWriter → Prop}
    (hopen : ∀ w, P false w → P true (w.«open» sys.os sys.openAnswer).2.1)
    (hgoes : ∀ b w w', Goes w w' → P b w → P b w') : Treats P sys where
  «open» := hopen
  write := fun w os bs answers h => hgoes _ _ _ (write_goes w os bs answers) h
  commit := fun w os h => hgoes _ _ _ (commit_goes w os _ _ _) h
  abort := fun _ w os h => hgoes _ _ _ (abort_goes w os) h

/-- The writer is refused only if it was before, or its name is taken. -/
theorem treats_clashed (hh : sys.Honest) {dir : Bytes}
    (hfree : sys.os.dir (tempName dir sys.os.pid sys.os.tempSeq) = none) :
    Treats (fun _ w => w.dir = dir ∧ ¬ w.Clashed) sys := by
  refine treats_of_goes ?_ fun _ w w' hg h => ⟨hg.dir.trans h.1, fun hc => h.2 ?_⟩
  · rintro w ⟨hdir, hno⟩
    rw [← hdir] at hfree
    refine ⟨(open_grows w _ _).dir.trans hdir, fun ⟨p, hp⟩ => ?_⟩
    exact FileWriter.open_free w hfree hh.openAnswer (fun q hq => hno ⟨q, hq⟩) p hp
  · obtain ⟨p, hp⟩ := hc
    exact ⟨p, hg.open p _ hp⟩

/-- The writer is refused when the name is taken. -/
theorem treats_refused {dir : Bytes}
    (htaken : sys.os.dir (tempName dir sys.os.pid sys.os.tempSeq) ≠ none) :
    Treats (fun b w => w.dir = dir ∧ (b = true → w.Refused)) sys := by
  refine treats_of_goes ?_ fun _ w w' hg h => ⟨hg.dir.trans h.1, fun hb => ?_⟩
  · rintro w ⟨hdir, -⟩
    rw [← hdir] at htaken
    exact ⟨(open_grows w _ _).dir.trans hdir, fun _ => FileWriter.open_taken w htaken _⟩
  · obtain ⟨p, text, hp⟩ := h.2 hb
    exact ⟨p, text, hg.log _ hp⟩

/-- An `open` that failed stays on record. -/
theorem treats_refused_before (sys : Sys) : Treats (fun _ w => w.Refused) sys := by
  refine treats_of_goes ?_ fun _ w w' hg => ?_
  · rintro w ⟨p, text, hp⟩
    exact ⟨p, text, (open_grows w _ _).log _ hp⟩
  · rintro ⟨p, text, hp⟩
    exact ⟨p, text, hg.log _ hp⟩

/-- Without a HELLO there is no `open`. -/
theorem treats_waiting (sys : Sys) : Treats (fun b w => b = false → ¬ w.Clashed) sys := by
  refine treats_of_goes (fun _ _ hb => (nomatch hb)) fun _ w w' hg h hb hc => h hb ?_
  obtain ⟨p, hp⟩ := hc
  exact ⟨p, hg.open p _ hp⟩

/-- After the HELLO there is none either. -/
theorem treats_started (sys : Sys) : Treats (fun b w => b = true ∧ ¬ w.Clashed) sys := by
  refine treats_of_goes (fun _ h => (nomatch h.1)) fun _ w w' hg h => ⟨h.1, fun hc => h.2 ?_⟩
  obtain ⟨p, hp⟩ := hc
  exact ⟨p, hg.open p _ hp⟩

end Opens

/-! ### The life of a session -/

/-- If the HELLO comes with this call, the name of the temporary file is free. -/
def Request.FindsFree (s : Session) : Request → Prop
  | .handle sys events reads =>
    s.helloReceived = false → (s.handle sys events reads).2.1.helloReceived = true →
      sys.os.dir (tempName s.writer.dir sys.os.pid sys.os.tempSeq) = none
  | _ => True

section Life

variable {P : Bool → FileWriter → Prop} {s₀ s : Session} {rs : List Request} {r : Request}

theorem serve_writer {ok : Sys → Prop} (hP : ∀ sys, ok sys → Treats P sys) (hr : r.Meets ok)
    (habort : ∀ b w os, P b w → P b (w.abort os).1) (hs : P s.helloReceived s.writer) :
    P (r.serve s).helloReceived (r.serve s).writer := by
  cases r with
  | handle sys events reads => exact (hP sys hr).handle hs events reads
  | terminate os reason =>
    show P (s.terminate os reason).1.helloReceived (s.terminate os reason).1.writer
    rw [terminate_helloReceived]
    rcases terminate_writer os reason with hw | hw <;> rw [hw]
    · exact hs
    · exact habort _ _ _ hs
  | destroy os => exact habort _ _ _ hs

theorem told_create (id fd conn : ℕ) (outDir : Bytes) (now : ℤ) :
    Told (create id fd conn outDir now).helloReceived (create id fd conn outDir now).writer where
  fresh := fun _ => ⟨⟨rfl, rfl⟩, rfl⟩
  refused := by
    rintro ⟨p, text, hp⟩
    cases hp
  links := by
    rintro ⟨p, e, hp⟩
    cases hp

theorem Told.serve (h : Told s.helloReceived s.writer) (hr : r.Meets Sys.Honest) :
    Told (r.serve s).helloReceived (r.serve s).writer :=
  serve_writer (fun _ hh => told_treats hh) hr (fun _ _ _ h => h.abort) h

/-- A call that finds its name free. -/
theorem not_clashed_serve (hr : r.Meets Sys.Honest) (hfree : r.FindsFree s)
    (hs : ¬ s.writer.Clashed) : ¬ (r.serve s).writer.Clashed := by
  have habort : ∀ (w : FileWriter) os, ¬ w.Clashed → ¬ (w.abort os).1.Clashed :=
    fun w os hw ⟨p, hp⟩ => hw ⟨p, (abort_goes w os).open p _ hp⟩
  cases r with
  | handle sys events reads =>
    show ¬ (s.handle sys events reads).2.1.writer.Clashed
    cases hhello : s.helloReceived with
    | true => exact ((treats_started sys).handle ⟨hhello, hs⟩ events reads).2
    | false =>
    by_cases hdir : sys.os.dir (tempName s.writer.dir sys.os.pid sys.os.tempSeq) = none
    · exact ((treats_clashed hr hdir).handle ⟨rfl, hs⟩ events reads).2
    · refine (treats_waiting sys).handle (fun _ => hs) events reads ?_
      by_contra hcame
      exact hdir (hfree hhello (by simpa using hcame))
  | terminate os reason =>
    show ¬ (s.terminate os reason).1.writer.Clashed
    rcases terminate_writer os reason with hw | hw <;> rw [hw]
    · exact hs
    · exact habort _ _ hs
  | destroy os => exact habort _ _ hs

/-- A call that finds its name taken. -/
theorem refused_serve (hr : ¬ r.FindsFree s) : (r.serve s).writer.Refused := by
  cases r with
  | handle sys events reads =>
    rw [Request.FindsFree, Classical.not_imp, Classical.not_imp] at hr
    obtain ⟨hhello, hcame, htaken⟩ := hr
    exact ((treats_refused htaken).handle ⟨rfl, by rw [hhello]; nofun⟩ events reads).2 hcame
  | terminate os reason => exact absurd trivial hr
  | destroy os => exact absurd trivial hr

theorem refused_stays (hs : s.writer.Refused) : (r.serve s).writer.Refused :=
  serve_writer (fun sys (_ : True) => treats_refused_before sys) (by cases r <;> trivial)
    (fun _ w os ⟨p, text, hp⟩ => ⟨p, text, (abort_goes w os).log _ hp⟩) hs

/-- **The names that a session asks for**: when all its calls find their names free, no
`open` finds its name taken; and otherwise an `open` has failed. -/
theorem replay_opens (h : Life s₀ rs s) (hh : ∀ r ∈ rs, r.Meets Sys.Honest) :
    Told s.helloReceived s.writer ∧
      ((∀ pre r post, rs = pre ++ r :: post → r.FindsFree (replay s₀ pre)) →
        ¬ s.writer.Clashed) ∧
      (¬ (∀ pre r post, rs = pre ++ r :: post → r.FindsFree (replay s₀ pre)) →
        s.writer.Refused) := by
  obtain ⟨hcreated, -, rfl⟩ := h
  induction rs using List.reverseRecOn with
  | nil =>
    obtain ⟨id, fd, conn, outDir, now, rfl⟩ := hcreated
    refine ⟨told_create id fd conn outDir now, fun _ ⟨p, hp⟩ => (nomatch hp), fun hno => ?_⟩
    exact absurd (fun pre r post heq => by simp at heq) hno
  | append_singleton rs r ih =>
    obtain ⟨htold, hfree, htaken⟩ := ih fun r' hr' => hh r' (List.mem_append_left _ hr')
    have hr : r.Meets Sys.Honest :=
      hh r (List.mem_append_right _ (List.mem_singleton.mpr rfl))
    rw [replay_concat, forall_split_concat]
    refine ⟨htold.serve hr, fun hall => not_clashed_serve hr hall.2 (hfree hall.1), fun hno => ?_⟩
    by_cases hall : ∀ pre r post, rs = pre ++ r :: post → r.FindsFree (replay s₀ pre)
    · exact refused_serve fun hlast => hno ⟨hall, hlast⟩
    · exact refused_stays (htaken hall)

end Life

end Session

end Nexus
