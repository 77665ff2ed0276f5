/-
Two sessions that get the same.

One session shares a server with others, another is alone; the same events come to
both, and the system gives each the same answers. They differ in the names of their
files alone, and in the texts that contain such a name.

* `FileWriter.write_twins`, `FileWriter.commit_answered` — what a writer returns
  depends on its own file and on the answers, not on what else is on the disk;
* `Session.handle_shadow` — after an event the two have come to the same, but for
  how far an ACK is out of which a `write` has taken a part.
-/
import NexusTransmitter.Commit
import NexusTransmitter.SessionLog

namespace Nexus

/-- A temporary name is no final name. -/
theorem tempName_ne_final (dir stamp : Bytes) (pid seq suffix : ℕ) :
    tempName dir pid seq ≠ finalPath dir (candidateName stamp suffix) := by
  intro h
  have htemp : (tempName dir pid seq).getLast? = some 0x74#8 := by
    rw [tempName, ← List.append_assoc, List.getLast?_append]
    rfl
  have hfinal : (finalPath dir (candidateName stamp suffix)).getLast? = some 0x78#8 := by
    rw [finalPath, candidateName, List.getLast?_append]
    split
    · rw [List.getLast?_append]
      rfl
    · rw [List.getLast?_append]
      rfl
  rw [h, hfinal] at htemp
  exact absurd htemp (by decide)

namespace FileWriter

section Answered

variable {w w' : FileWriter} {os os' : Os} {fd fd' i i' : ℕ}

/-- With the name and the descriptor free, the answer decides what `open` says. -/
theorem open_answered (w : FileWriter) {ans : OpenAnswer}
    (hfree : os.dir (tempName w.dir os.pid os.tempSeq) = none)
    (hfd : ∀ n, ans = .fd n → os.fds n = none) :
    (w.«open» os ans).1 = [] ↔ ∃ n, ans = .fd n := by
  rcases open_cases w os ans with ⟨text, herr, -⟩ | ⟨fd, -, -, hrun⟩
  · refine iff_of_false herr ?_
    rintro ⟨n, rfl⟩
    have hopen : os.nextTempSeq.openExcl (tempName w.dir os.pid os.tempSeq) (.fd n) =
        (.ok n, os.nextTempSeq.createFile (tempName w.dir os.pid os.tempSeq) n) := by
      simp [Os.openExcl, Os.nextTempSeq, hfd n rfl, hfree]
    exact herr (by simp only [FileWriter.open, hopen])
  · refine iff_of_true (by rw [hrun]) ?_
    cases ans with
    | fd n => exact ⟨n, rfl⟩
    | err text => simp [FileWriter.open, Os.openExcl] at hrun

/-- Writers whose files are of one length get the same from `write`. -/
theorem write_twins (h : w.Holds os fd i) (h' : w'.Holds os' fd' i')
    (hlen : (os.data i).length = (os'.data i').length) (p : Bytes) (answers : List WriteAnswer) :
    ((w.write os p answers).1 = [] ↔ (w'.write os' p answers).1 = []) ∧
      (w.write os p answers).2.1 = (w'.write os' p answers).2.1 := by
  induction answers generalizing w w' os os' p with
  | nil =>
    by_cases hp : p = []
    · subst hp
      rw [write_nil, write_nil]
      exact ⟨Iff.rfl, rfl⟩
    · rw [write.eq_def, if_neg hp, write.eq_def, if_neg hp]
      exact ⟨iff_of_false (writeError_ne_nil w _) (writeError_ne_nil w' _), rfl⟩
  | cons ans answers ih =>
    by_cases hp : p = []
    · subst hp
      rw [write_nil, write_nil]
      exact ⟨Iff.rfl, rfl⟩
    have hsys : w.sysWrite os p ans = os.write fd p ans := by rw [sysWrite, h.fd_eq]
    have hsys' : w'.sysWrite os' p ans = os'.write fd' p ans := by rw [sysWrite, h'.fd_eq]
    rw [write.eq_def, if_neg hp, write.eq_def w', if_neg hp]
    simp only [hsys, hsys']
    cases ans with
    | eintr => exact ih h h' hlen p
    | err text => exact ⟨iff_of_false (writeError_ne_nil w _) (writeError_ne_nil w' _), rfl⟩
    | took n =>
      simp only [Os.write, h.file_fd, h'.file_fd, ← hlen]
      by_cases hroom : MAX_OFF - (os.data i).length = 0
      · simp only [if_pos hroom, and_true]
        exact iff_of_false (writeError_ne_nil w _) (writeError_ne_nil w' _)
      · -- both files grow by as many bytes
        simp only [if_neg hroom]
        refine ih (holds_appendTo h _ _ _) (holds_appendTo h' _ _ _) ?_ _
        simp [hlen]

/-- A final name is free, and `link` fails for each name or for none: then `commit` comes
down to its `fsync` and its `link`. -/
theorem commit_answered (h : w.Holds os fd i) {fsyncFault : Option Bytes} {now : Tm}
    {faults : ℕ → Option Bytes}
    (hfree : ∃ k < 1000, os.dir (w.candidate (fileTimestamp now) k) = none)
    (hfaults : ∀ k, faults k = faults 0) :
    (w.commit os fsyncFault now faults).1.error = [] ↔ fsyncFault = none ∧ faults 0 = none := by
  constructor
  · intro herr
    rcases commit_cases h fsyncFault now faults with
      ⟨k, calls, -, hsync, hfault, -⟩ | ⟨err, text, hne, hrun⟩ | ⟨err, calls, hne, -, -, hrun⟩
    · exact ⟨hsync, (hfaults k).symm.trans hfault⟩
    · rw [hrun] at herr
      exact absurd herr hne
    · rw [hrun] at herr
      exact absurd herr hne
  · rintro ⟨rfl, hfault⟩
    -- the first free name
    obtain ⟨hlt, hnone⟩ := Nat.find_spec hfree
    have htaken : ∀ j < Nat.find hfree, (os.dir (w.candidate (fileTimestamp now) j)).isSome := by
      intro j hj
      by_contra hno
      exact Nat.find_min hfree hj ⟨hj.trans hlt, by simpa using hno⟩
    have hentry : (os.close fd).dir w.tempPath = some i := h.entry_temp
    have hrun := linkLoop_of_firstFree
      (w := { w with fd := none, log := w.log ++ [.fsync none, .close] }) hentry
      ((hfaults _).trans hfault) hnone 1000 0 (Nat.zero_le _) (by omega)
      fun j _ hj => ⟨(hfaults j).trans hfault, htaken j hj⟩
    simp only [commit, h.fd_eq]
    rw [hrun]

/-- A `commit` that succeeds has published the file under a name with its timestamp. -/
theorem commit_published (h : w.Holds os fd i) {fsyncFault : Option Bytes} {now : Tm}
    {faults : ℕ → Option Bytes} (herr : (w.commit os fsyncFault now faults).1.error = []) :
    ∃ k, (w.commit os fsyncFault now faults).2.1.published =
      some (w.candidate (fileTimestamp now) k, i) := by
  rcases commit_cases h fsyncFault now faults with
    ⟨k, calls, -, -, -, -, -, -, hrun⟩ | ⟨err, text, hne, hrun⟩ | ⟨err, calls, hne, -, -, hrun⟩
  · exact ⟨k, by rw [hrun]⟩
  · rw [hrun] at herr
    exact absurd herr hne
  · rw [hrun] at herr
    exact absurd herr hne

end Answered

end FileWriter

/-- Neither writer has published its file, or both have, under names with one timestamp. -/
def FileWriter.Siblings (w w' : FileWriter) : Prop :=
  (w.published = none ∧ w'.published = none) ∨
    ∃ now k k' i i', w.published = some (w.candidate (fileTimestamp now) k, i) ∧
      w'.published = some (w'.candidate (fileTimestamp now) k', i')

namespace Session

/-! ### The two sessions -/

/-- What two sessions have in common for good: the frames, the bytes accepted, the
status, and whether the file is published. -/
structure Kin (s s' : Session) : Prop where
  fd : s.fd = s'.fd
  helloReceived : s.helloReceived = s'.helloReceived
  completed : s.completed = s'.completed
  expectedSize : s.expectedSize = s'.expectedSize
  frames : s.hist.frames = s'.hist.frames
  accepted : s.hist.accepted = s'.hist.accepted
  statuses : s.hist.acks.map Prod.fst = s'.hist.acks.map Prod.fst
  dir : s.writer.dir = s'.writer.dir
  published : s.writer.Siblings s'.writer

/-- Two sessions that differ in names alone. Out of ACKs of one length as much has gone. -/
structure Alike (s s' : Session) : Prop extends Kin s s' where
  state : s.state = s'.state
  parser : s.parser = s'.parser
  terminated : s.terminated = s'.terminated
  receivedSize : s.receivedSize = s'.receivedSize
  crc : s.crc = s'.crc
  lastActivity : s.lastActivity = s'.lastActivity
  received : s.hist.received = s'.hist.received
  states : s.hist.states = s'.hist.states
  progress : s.out.length = s'.out.length → s.state = .sendingAck → s.outPos = s'.outPos

/-- The system gives both the same answers. -/
structure Agree (sys sys' : Sys) : Prop where
  sends : sys.sends = sys'.sends
  writes : sys.writes = sys'.writes
  openAnswer : sys.openAnswer = sys'.openAnswer
  fsyncFault : sys.fsyncFault = sys'.fsyncFault
  linkFaults : sys.linkFaults = sys'.linkFaults
  localTime : sys.localTime = sys'.localTime
  now : sys.now = sys'.now

/-- Two handlers have come to the same. -/
structure Twins (r r' : Bool × Session × Sys) : Prop where
  code : r.1 = r'.1
  alike : Alike r.2.1 r'.2.1
  agree : Agree r.2.2 r'.2.2

/-- There is room for the file: its temporary name is free, if it is still to be opened,
the descriptor is, and one of its final names. A `link` fails for each name or for none. -/
structure Roomy (s : Session) (sys : Sys) : Prop where
  temp : s.helloReceived = false →
    sys.os.dir (tempName s.writer.dir sys.os.pid sys.os.tempSeq) = none
  fd : s.helloReceived = false → ∀ n, sys.openAnswer = .fd n → sys.os.fds n = none
  final : ∃ k < 1000, sys.os.dir (s.writer.candidate (fileTimestamp sys.localTime) k) = none
  faults : ∀ k, sys.linkFaults k = sys.linkFaults 0

section Twins

variable {s s' : Session} {sys sys' : Sys} {f : Frame} {p : FrameParser}

theorem Agree.files (h : Agree sys sys') (os os' : Os) :
    Agree { sys with os := os } { sys' with os := os' } :=
  ⟨h.sends, h.writes, h.openAnswer, h.fsyncFault, h.linkFaults, h.localTime, h.now⟩

/-! ### Verdicts -/

/-- The writers change, and neither publishes anything. -/
theorem Kin.writers (h : Kin s s') {w w' : FileWriter} (hdir : w.dir = s.writer.dir)
    (hdir' : w'.dir = s'.writer.dir) (hpub : w.published = s.writer.published)
    (hpub' : w'.published = s'.writer.published) :
    w.dir = w'.dir ∧ w.Siblings w' := by
  refine ⟨hdir.trans (h.dir.trans hdir'.symm), ?_⟩
  rcases h.published with ⟨hnone, hnone'⟩ | ⟨now, k, k', i, i', hi, hi'⟩
  · exact .inl ⟨hpub.trans hnone, hpub'.trans hnone'⟩
  · refine .inr ⟨now, k, k', i, i', hpub.trans ?_, hpub'.trans ?_⟩
    · rw [FileWriter.candidate, hdir]
      exact hi
    · rw [FileWriter.candidate, hdir']
      exact hi'

theorem Alike.log (h : Alike s s') (line line' : LogLine) : Alike (s.log line) (s'.log line') where
  toKin := ⟨h.fd, h.helloReceived, h.completed, h.expectedSize, h.frames, h.accepted, h.statuses,
    h.dir, h.published⟩
  state := h.state
  parser := h.parser
  terminated := h.terminated
  receivedSize := h.receivedSize
  crc := h.crc
  lastActivity := h.lastActivity
  received := h.received
  states := h.states
  progress := h.progress

theorem Alike.withWriters (h : Alike s s') {w w' : FileWriter} (hdir : w.dir = w'.dir)
    (hpub : w.Siblings w') : Alike { s with writer := w } { s' with writer := w' } where
  toKin := ⟨h.fd, h.helloReceived, h.completed, h.expectedSize, h.frames, h.accepted, h.statuses,
    hdir, hpub⟩
  state := h.state
  parser := h.parser
  terminated := h.terminated
  receivedSize := h.receivedSize
  crc := h.crc
  lastActivity := h.lastActivity
  received := h.received
  states := h.states
  progress := h.progress

theorem Alike.queueAck (h : Alike s s') (status : Status) (message message' : Bytes) :
    Alike (s.queueAck status message) (s'.queueAck status message') where
  toKin :=
    { fd := h.fd
      helloReceived := h.helloReceived
      completed := h.completed
      expectedSize := h.expectedSize
      frames := h.frames
      accepted := h.accepted
      statuses := by
        show (s.hist.acks ++ [(status, message)]).map Prod.fst =
          (s'.hist.acks ++ [(status, message')]).map Prod.fst
        rw [List.map_append, List.map_append, h.statuses]
        rfl
      dir := h.dir
      published := h.published }
  state := rfl
  parser := h.parser
  terminated := h.terminated
  receivedSize := h.receivedSize
  crc := h.crc
  lastActivity := h.lastActivity
  received := h.received
  states := congrArg (· ++ [State.sendingAck]) h.states
  progress := fun _ _ => rfl

/-- Both fail with one status. -/
theorem failed_twins (h : Alike s s') (ha : Agree sys sys') (status : Status)
    (message message' : Bytes) :
    Twins (s.failed sys status message) (s'.failed sys' status message') := by
  obtain ⟨hdir, hpub⟩ := FileWriter.abort_keeps s.writer sys.os
  obtain ⟨hdir', hpub'⟩ := FileWriter.abort_keeps s'.writer sys'.os
  obtain ⟨hd, hp⟩ := h.writers hdir hdir' hpub hpub'
  exact ⟨rfl, ((h.withWriters hd hp).log _ _).queueAck _ _ _, ha.files _ _⟩

/-- Both succeed. -/
theorem Alike.succeed (h : Alike s s') (name name' : Bytes) :
    Alike (s.succeed name) (s'.succeed name') := by
  have hdone : Alike { s with completed := true } { s' with completed := true } :=
    { toKin := ⟨h.fd, h.helloReceived, rfl, h.expectedSize, h.frames, h.accepted, h.statuses, h.dir,
        h.published⟩
      state := h.state
      parser := h.parser
      terminated := h.terminated
      receivedSize := h.receivedSize
      crc := h.crc
      lastActivity := h.lastActivity
      received := h.received
      states := h.states
      progress := h.progress }
  exact (hdone.log _ _).queueAck _ _ _

/-! ### Frames -/

theorem open_keeps (w : FileWriter) (os : Os) (ans : OpenAnswer) :
    (w.«open» os ans).2.1.dir = w.dir ∧ (w.«open» os ans).2.1.published = w.published := by
  rcases FileWriter.open_cases w os ans with ⟨text, -, hrun⟩ | ⟨fd, -, -, hrun⟩ <;> rw [hrun] <;>
    exact ⟨rfl, rfl⟩

theorem write_keeps (w : FileWriter) (os : Os) (p : Bytes) (answers : List WriteAnswer) :
    (w.write os p answers).2.2.1.dir = w.dir ∧
      (w.write os p answers).2.2.1.published = w.published := by
  fun_induction FileWriter.write w os p answers with
  | case1 => exact ⟨rfl, rfl⟩
  | case2 => exact ⟨rfl, rfl⟩
  | case3 _ _ _ _ _ _ _ _ ih => exact ih
  | case4 => exact ⟨rfl, rfl⟩
  | case5 _ _ _ _ _ _ _ _ _ ih => exact ih

theorem commit_keeps {w : FileWriter} {os : Os} {fd i : ℕ} (h : w.Holds os fd i)
    (fsyncFault : Option Bytes) (now : Tm) (faults : ℕ → Option Bytes) :
    (w.commit os fsyncFault now faults).2.1.dir = w.dir ∧
      ((w.commit os fsyncFault now faults).1.error ≠ [] →
        (w.commit os fsyncFault now faults).2.1.published = w.published) := by
  rcases FileWriter.commit_cases h fsyncFault now faults with
    ⟨k, calls, -, -, -, -, -, -, hrun⟩ | ⟨err, text, hne, hrun⟩ | ⟨err, calls, hne, -, -, hrun⟩ <;>
    rw [hrun]
  · exact ⟨rfl, fun herr => absurd rfl herr⟩
  · exact ⟨rfl, fun _ => rfl⟩
  · exact ⟨rfl, fun _ => rfl⟩

theorem Alike.take (h : Alike s s') (f : Frame) (p : FrameParser) :
    Alike (s.take f p) (s'.take f p) where
  toKin := ⟨h.fd, h.helloReceived, h.completed, h.expectedSize, congrArg (· ++ [f]) h.frames,
    h.accepted, h.statuses, h.dir, h.published⟩
  state := h.state
  parser := rfl
  terminated := h.terminated
  receivedSize := h.receivedSize
  crc := h.crc
  lastActivity := h.lastActivity
  received := h.received
  states := h.states
  progress := h.progress

theorem Alike.start (h : Alike s s') (hello : HelloPayload) :
    Alike (s.start hello) (s'.start hello) where
  toKin := ⟨h.fd, rfl, h.completed, rfl, h.frames, h.accepted, h.statuses, h.dir, h.published⟩
  state := h.state
  parser := h.parser
  terminated := h.terminated
  receivedSize := h.receivedSize
  crc := h.crc
  lastActivity := h.lastActivity
  received := h.received
  states := h.states
  progress := h.progress

theorem Alike.store (h : Alike s s') (data : Bytes) : Alike (s.store data) (s'.store data) where
  toKin := ⟨h.fd, h.helloReceived, h.completed, h.expectedSize, h.frames,
    congrArg (· ++ data) h.accepted, h.statuses, h.dir, h.published⟩
  state := h.state
  parser := h.parser
  terminated := h.terminated
  receivedSize := congrArg (fun n => (n + data.length) % 2 ^ 64) h.receivedSize
  crc := congrArg (Crc32.update · data) h.crc
  lastActivity := h.lastActivity
  received := h.received
  states := h.states
  progress := h.progress

theorem onHello_twins (h : Alike s s') (ha : Agree sys sys') (hroom : s.Roomy sys)
    (hroom' : s'.Roomy sys') (data : Bytes) :
    Twins (s.onHello sys data) (s'.onHello sys' data) := by
  have hsecond : s.helloReceived = true ↔ s'.helloReceived = true := by rw [h.helloReceived]
  rw [onHello, onHello]
  by_cases hh : s.helloReceived = true
  · rw [if_pos hh, if_pos (hsecond.mp hh)]
    exact failed_twins h ha _ _ _
  rw [if_neg hh, if_neg (hsecond.not.mp hh)]
  rw [Bool.not_eq_true] at hh
  cases parseHello data with
  | none => exact failed_twins h ha _ _ _
  | some hello =>
    have hh' : s'.helloReceived = false := h.helloReceived.symm.trans hh
    have herr : ((s.start hello).writer.«open» sys.os sys.openAnswer).1 = [] ↔
        ((s'.start hello).writer.«open» sys'.os sys'.openAnswer).1 = [] := by
      rw [start_writer, start_writer,
        FileWriter.open_answered s.writer (hroom.temp hh) (hroom.fd hh),
        FileWriter.open_answered s'.writer (hroom'.temp hh') (hroom'.fd hh'), ha.openAnswer]
    obtain ⟨hdir, hpub⟩ := open_keeps (s.start hello).writer sys.os sys.openAnswer
    obtain ⟨hdir', hpub'⟩ := open_keeps (s'.start hello).writer sys'.os sys'.openAnswer
    obtain ⟨hd, hp⟩ := h.writers hdir hdir' hpub hpub'
    have hopened := (h.start hello).withWriters hd hp
    dsimp only
    by_cases hok : ((s.start hello).writer.«open» sys.os sys.openAnswer).1 = []
    · rw [if_neg (not_not.mpr hok), if_neg (not_not.mpr (herr.mp hok))]
      exact ⟨rfl, hopened.log _ _, ha.files _ _⟩
    · rw [if_pos hok, if_pos fun hok' => hok (herr.mpr hok')]
      exact failed_twins (hopened.log _ _) (ha.files _ _) _ _ _

theorem onData_twins (h : Alike s s') (ha : Agree sys sys')
    (hbody : s.helloReceived = true → ∃ fd i fd' i', s.writer.Holds sys.os fd i ∧
      s'.writer.Holds sys'.os fd' i' ∧ (sys.os.data i).length = (sys'.os.data i').length)
    (data : Bytes) : Twins (s.onData sys data) (s'.onData sys' data) := by
  have hsize : (s.receivedSize + data.length) % 2 ^ 64 > s.expectedSize ↔
      (s'.receivedSize + data.length) % 2 ^ 64 > s'.expectedSize := by
    rw [h.receivedSize, h.expectedSize]
  rw [onData, onData]
  have hfirst : (!s.helloReceived) = true ↔ (!s'.helloReceived) = true := by rw [h.helloReceived]
  by_cases hh : (!s.helloReceived) = true
  · rw [if_pos hh, if_pos (hfirst.mp hh)]
    exact failed_twins h ha _ _ _
  rw [if_neg hh, if_neg (hfirst.not.mp hh)]
  by_cases hmuch : (s.receivedSize + data.length) % 2 ^ 64 > s.expectedSize
  · rw [if_pos hmuch, if_pos (hsize.mp hmuch)]
    exact failed_twins h ha _ _ _
  rw [if_neg hmuch, if_neg (hsize.not.mp hmuch)]
  obtain ⟨fd, i, fd', i', hholds, hholds', hlen⟩ := hbody (by simpa using hh)
  obtain ⟨herr, hwrites⟩ := FileWriter.write_twins hholds hholds' hlen data sys.writes
  rw [ha.writes] at hwrites herr
  obtain ⟨hdir, hpub⟩ := write_keeps s.writer sys.os data sys.writes
  obtain ⟨hdir', hpub'⟩ := write_keeps s'.writer sys'.os data sys'.writes
  obtain ⟨hd, hp⟩ := h.writers hdir hdir' hpub hpub'
  have hwritten := h.withWriters hd hp
  have hagree : Agree
      { sys with
        os := (s.writer.write sys.os data sys.writes).2.2.2
        writes := (s.writer.write sys.os data sys.writes).2.1 }
      { sys' with
        os := (s'.writer.write sys'.os data sys'.writes).2.2.2
        writes := (s'.writer.write sys'.os data sys'.writes).2.1 } :=
    ⟨ha.sends, ha.writes ▸ hwrites, ha.openAnswer, ha.fsyncFault, ha.linkFaults, ha.localTime,
      ha.now⟩
  dsimp only
  by_cases hok : (s.writer.write sys.os data sys.writes).1 = []
  · rw [if_neg (not_not.mpr hok), if_neg (not_not.mpr (herr.mp (ha.writes ▸ hok)))]
    exact ⟨rfl, hwritten.store data, hagree⟩
  · rw [if_pos hok, if_pos fun hok' => hok (ha.writes ▸ herr.mpr hok')]
    exact failed_twins (hwritten.log _ _) hagree _ _ _

theorem onEnd_twins (h : Alike s s') (ha : Agree sys sys') (hroom : s.Roomy sys)
    (hroom' : s'.Roomy sys')
    (hbody : s.helloReceived = true → ∃ fd i fd' i', s.writer.Holds sys.os fd i ∧
      s'.writer.Holds sys'.os fd' i')
    (data : Bytes) : Twins (s.onEnd sys data) (s'.onEnd sys' data) := by
  have hsize : s.receivedSize ≠ s.expectedSize ↔ s'.receivedSize ≠ s'.expectedSize := by
    rw [h.receivedSize, h.expectedSize]
  rw [onEnd, onEnd]
  have hfirst : (!s.helloReceived) = true ↔ (!s'.helloReceived) = true := by rw [h.helloReceived]
  by_cases hh : (!s.helloReceived) = true
  · rw [if_pos hh, if_pos (hfirst.mp hh)]
    exact failed_twins h ha _ _ _
  rw [if_neg hh, if_neg (hfirst.not.mp hh)]
  cases parseEnd data with
  | none => exact failed_twins h ha _ _ _
  | some c =>
    have hsum : s.crc.value ≠ c ↔ s'.crc.value ≠ c := by rw [h.crc]
    dsimp only
    by_cases hshort : s.receivedSize ≠ s.expectedSize
    · rw [if_pos hshort, if_pos (hsize.mp hshort)]
      exact failed_twins h ha _ _ _
    rw [if_neg hshort, if_neg (hsize.not.mp hshort)]
    by_cases hcrc : s.crc.value ≠ c
    · rw [if_pos hcrc, if_pos (hsum.mp hcrc)]
      exact failed_twins h ha _ _ _
    rw [if_neg hcrc, if_neg (hsum.not.mp hcrc)]
    obtain ⟨fd, i, fd', i', hholds, hholds'⟩ := hbody (by simpa using hh)
    have herr : (s.writer.commit sys.os sys.fsyncFault sys.localTime sys.linkFaults).1.error = [] ↔
        (s'.writer.commit sys'.os sys'.fsyncFault sys'.localTime sys'.linkFaults).1.error = [] := by
      rw [FileWriter.commit_answered hholds hroom.final hroom.faults,
        FileWriter.commit_answered hholds' hroom'.final hroom'.faults, ha.fsyncFault, ha.linkFaults]
    obtain ⟨hdir, hpub⟩ := commit_keeps hholds sys.fsyncFault sys.localTime sys.linkFaults
    obtain ⟨hdir', hpub'⟩ := commit_keeps hholds' sys'.fsyncFault sys'.localTime sys'.linkFaults
    by_cases hok : (s.writer.commit sys.os sys.fsyncFault sys.localTime sys.linkFaults).1.error = []
    · rw [if_neg (not_not.mpr hok), if_neg (not_not.mpr (herr.mp hok))]
      obtain ⟨k, hk⟩ := FileWriter.commit_published hholds hok
      obtain ⟨k', hk'⟩ := FileWriter.commit_published hholds' (herr.mp hok)
      have hd := hdir.trans (h.dir.trans hdir'.symm)
      refine ⟨rfl, (h.withWriters hd (.inr ⟨sys.localTime, k, k', i, i', ?_, ?_⟩)).succeed _ _,
        ha.files _ _⟩
      · rw [hk, FileWriter.candidate, FileWriter.candidate, hdir]
      · rw [hk', FileWriter.candidate, FileWriter.candidate, hdir', ha.localTime]
    · rw [if_pos hok, if_pos fun hok' => hok (herr.mpr hok')]
      obtain ⟨hd, hp⟩ := h.writers hdir hdir' (hpub hok) (hpub' fun hok' => hok (herr.mpr hok'))
      exact failed_twins ((h.withWriters hd hp).log _ _) (ha.files _ _) _ _ _

theorem onFrame_twins (h : Alike s s') (ha : Agree sys sys') (hr : s.Receiving sys.os)
    (hr' : s'.Receiving sys'.os) (hroom : s.Roomy sys) (hroom' : s'.Roomy sys') (f : Frame)
    (p : FrameParser) :
    Twins ((s.take f p).onFrame sys f) ((s'.take f p).onFrame sys' f) := by
  have hbody : s.helloReceived = true → ∃ fd i fd' i', s.writer.Holds sys.os fd i ∧
      s'.writer.Holds sys'.os fd' i' ∧ (sys.os.data i).length = (sys'.os.data i').length := by
    intro hh
    obtain ⟨fd, i, hb⟩ := hr.of_hello hh
    obtain ⟨fd', i', hb'⟩ := hr'.of_hello (h.helloReceived ▸ hh)
    exact ⟨fd, i, fd', i', hb.holds, hb'.holds, by rw [hb.data, hb'.data, h.accepted]⟩
  have htake := h.take f p
  cases htype : f.type with
  | hello =>
    simp only [onFrame, htype]
    exact onHello_twins htake ha ⟨hroom.temp, hroom.fd, hroom.final, hroom.faults⟩
      ⟨hroom'.temp, hroom'.fd, hroom'.final, hroom'.faults⟩ f.data
  | data =>
    simp only [onFrame, htype]
    exact onData_twins htake ha hbody f.data
  | «end» =>
    simp only [onFrame, htype]
    have hend := onEnd_twins htake ha ⟨hroom.temp, hroom.fd, hroom.final, hroom.faults⟩
      ⟨hroom'.temp, hroom'.fd, hroom'.final, hroom'.faults⟩
      (fun hh => by
        obtain ⟨fd, i, fd', i', hholds, hholds', -⟩ := hbody hh
        exact ⟨fd, i, fd', i', hholds, hholds'⟩) f.data
    exact ⟨rfl, hend.alike, hend.agree⟩
  | ack =>
    simp only [onFrame, htype]
    exact failed_twins htake ha _ _ _

theorem onHello_roomy (hroom : s.Roomy sys) {data : Bytes}
    (hgo : (s.onHello sys data).1 = true) :
    (s.onHello sys data).2.1.Roomy (s.onHello sys data).2.2 := by
  obtain ⟨k, hk, hfree⟩ := hroom.final
  rw [onHello] at hgo ⊢
  by_cases hh : s.helloReceived = true
  · rw [if_pos hh] at hgo
    cases hgo
  rw [if_neg hh] at hgo ⊢
  cases hparse : parseHello data with
  | none =>
    rw [hparse] at hgo
    cases hgo
  | some hello =>
    simp only [hparse] at hgo ⊢
    rcases FileWriter.open_cases (s.start hello).writer sys.os sys.openAnswer with
      ⟨text, herr, -⟩ | ⟨fd, -, -, hrun⟩
    · rw [if_pos herr] at hgo
      cases hgo
    simp only [hrun, ne_eq, not_true_eq_false, if_false]
    refine ⟨fun hno => (by cases hno), fun hno => (by cases hno), ⟨k, hk, ?_⟩, hroom.faults⟩
    -- the new entry is none of the final names
    have hne : s.writer.candidate (fileTimestamp sys.localTime) k ≠
        tempName s.writer.dir sys.os.pid sys.os.tempSeq := (tempName_ne_final _ _ _ _ _).symm
    show (sys.os.nextTempSeq.createFile (tempName s.writer.dir sys.os.pid sys.os.tempSeq) fd).dir
      (s.writer.candidate (fileTimestamp sys.localTime) k) = none
    rw [Os.createFile_dir, if_neg hne]
    exact hfree

theorem onData_roomy (hroom : s.Roomy sys) {data : Bytes} (hgo : (s.onData sys data).1 = true) :
    (s.onData sys data).2.1.Roomy (s.onData sys data).2.2 := by
  obtain ⟨k, hk, hfree⟩ := hroom.final
  rw [onData] at hgo ⊢
  by_cases hh : (!s.helloReceived) = true
  · rw [if_pos hh] at hgo
    cases hgo
  rw [if_neg hh] at hgo ⊢
  by_cases hmuch : (s.receivedSize + data.length) % 2 ^ 64 > s.expectedSize
  · rw [if_pos hmuch] at hgo
    cases hgo
  rw [if_neg hmuch] at hgo ⊢
  dsimp only at hgo ⊢
  by_cases hok : (s.writer.write sys.os data sys.writes).1 = []
  swap
  · rw [if_pos hok] at hgo
    cases hgo
  rw [if_neg (not_not.mpr hok)]
  have hhello : s.helloReceived ≠ false := by simpa using hh
  refine ⟨fun hno => absurd hno hhello, fun hno => absurd hno hhello, ⟨k, hk, ?_⟩, hroom.faults⟩
  show (s.writer.write sys.os data sys.writes).2.2.2.dir
    (finalPath (s.writer.write sys.os data sys.writes).2.2.1.dir _) = none
  rw [(FileWriter.write_dir s.writer sys.os data sys.writes).2, (write_keeps _ _ _ _).1]
  exact hfree

/-- There is room still after a frame that was accepted: all the disk has seen is the
temporary file. -/
theorem onFrame_roomy (hroom : s.Roomy sys) (f : Frame) (p : FrameParser)
    (hgo : ((s.take f p).onFrame sys f).1 = true) :
    ((s.take f p).onFrame sys f).2.1.Roomy ((s.take f p).onFrame sys f).2.2 := by
  have htake : (s.take f p).Roomy sys := ⟨hroom.temp, hroom.fd, hroom.final, hroom.faults⟩
  cases htype : f.type with
  | hello =>
    simp only [onFrame, htype] at hgo ⊢
    exact onHello_roomy htake hgo
  | data =>
    simp only [onFrame, htype] at hgo ⊢
    exact onData_roomy htake hgo
  | «end» =>
    simp only [onFrame, htype] at hgo
    cases hgo
  | ack =>
    simp only [onFrame, htype] at hgo
    cases hgo

/-- A frame that is accepted leaves the session receiving. -/
theorem onFrame_receiving (hr : s.Receiving sys.os) (hwf : sys.os.WF)
    (hnext : s.parser.next = (.ready f, p)) (hgo : ((s.take f p).onFrame sys f).1 = true) :
    ((s.take f p).onFrame sys f).2.1.Receiving ((s.take f p).onFrame sys f).2.2.os ∧
      ((s.take f p).onFrame sys f).2.2.os.WF := by
  have hhandled := onFrame_handled hr hwf hnext rfl
  have hinv : s.Inv sys.os := by
    cases hr with
    | waiting h => exact .waiting h
    | body h => exact .body h
  obtain ⟨hinv', hstep⟩ := hhandled.step.inv hinv hwf
  exact ⟨hinv'.receiving hhandled.live (hhandled.again hgo).1, hstep.wf hwf⟩

/-- What holds of the two while they receive. -/
structure Pair (s : Session) (sys : Sys) (s' : Session) (sys' : Sys) : Prop where
  alike : Alike s s'
  agree : Agree sys sys'
  left : s.Receiving sys.os
  right : s'.Receiving sys'.os
  wf : sys.os.WF
  wf' : sys'.os.WF
  room : s.Roomy sys
  room' : s'.Roomy sys'

/-- **The loop over the frames** comes to the same. -/
theorem processFrames_twins (h : Pair s sys s' sys') (fuel : ℕ) :
    Twins (s.processFrames sys fuel) (s'.processFrames sys' fuel) ∧
      ((s.processFrames sys fuel).1 = true →
        Pair (s.processFrames sys fuel).2.1 (s.processFrames sys fuel).2.2
          (s'.processFrames sys' fuel).2.1 (s'.processFrames sys' fuel).2.2) := by
  induction fuel generalizing s s' sys sys' with
  | zero => exact ⟨⟨rfl, h.alike, h.agree⟩, fun _ => h⟩
  | succ fuel ih =>
    have hparser := h.alike.parser
    rcases hnext : s.parser.next with ⟨_ | f | e, p⟩
    · have hnext' := hparser ▸ hnext
      simp only [processFrames, hnext, hnext']
      exact ⟨⟨rfl, h.alike, h.agree⟩, fun _ => h⟩
    · have hnext' := hparser ▸ hnext
      have htwins := onFrame_twins h.alike h.agree h.left h.right h.room h.room' f p
      have hgo := onFrame_receiving h.left h.wf hnext
      have hgo' := onFrame_receiving h.right h.wf' hnext'
      have hroom := onFrame_roomy h.room f p
      have hroom' := onFrame_roomy h.room' f p
      simp only [processFrames, hnext, hnext']
      rcases hrun : (s.take f p).onFrame sys f with ⟨_ | _, s₁, sys₁⟩ <;>
        rcases hrun' : (s'.take f p).onFrame sys' f with ⟨_ | _, s₁', sys₁'⟩ <;>
        rw [hrun, hrun'] at htwins <;> rw [hrun] at hgo hroom <;> rw [hrun'] at hgo' hroom'
      · exact ⟨htwins, fun hno => (by cases hno)⟩
      · exact absurd htwins.code (by simp)
      · exact absurd htwins.code (by simp)
      · obtain ⟨hr, hwf⟩ := hgo rfl
        obtain ⟨hr', hwf'⟩ := hgo' rfl
        exact ih ⟨htwins.alike, htwins.agree, hr, hr', hwf, hwf', hroom rfl, hroom' rfl⟩
    · have hnext' := hparser ▸ hnext
      simp only [processFrames, hnext, hnext']
      exact ⟨failed_twins h.alike h.agree _ _ _, fun hgo => (by cases hgo)⟩

/-! ### A session that has its verdict -/

/-- What a session keeps once it has its verdict. -/
structure Keeps (s t : Session) : Prop where
  fd : t.fd = s.fd
  conn : t.conn = s.conn
  helloReceived : t.helloReceived = s.helloReceived
  completed : t.completed = s.completed
  expectedSize : t.expectedSize = s.expectedSize
  frames : t.hist.frames = s.hist.frames
  accepted : t.hist.accepted = s.hist.accepted
  acks : t.hist.acks = s.hist.acks
  out : t.out = s.out
  dir : t.writer.dir = s.writer.dir
  published : t.writer.published = s.writer.published

variable {t t' : Session} {os os' : Os}

theorem Keeps.refl (s : Session) : s.Keeps s :=
  ⟨rfl, rfl, rfl, rfl, rfl, rfl, rfl, rfl, rfl, rfl, rfl⟩

theorem Keeps.trans {u : Session} (h : s.Keeps t) (h' : t.Keeps u) : s.Keeps u where
  fd := h'.fd.trans h.fd
  conn := h'.conn.trans h.conn
  helloReceived := h'.helloReceived.trans h.helloReceived
  completed := h'.completed.trans h.completed
  expectedSize := h'.expectedSize.trans h.expectedSize
  frames := h'.frames.trans h.frames
  accepted := h'.accepted.trans h.accepted
  acks := h'.acks.trans h.acks
  out := h'.out.trans h.out
  dir := h'.dir.trans h.dir
  published := h'.published.trans h.published

/-- Two that have the same in common keep it. -/
theorem Kin.keeps (h : Kin s s') (ht : s.Keeps t) (ht' : s'.Keeps t') : Kin t t' := by
  obtain ⟨hdir, hpub⟩ := h.writers ht.dir ht'.dir ht.published ht'.published
  refine ⟨?_, ?_, ?_, ?_, ?_, ?_, ?_, hdir, hpub⟩
  · rw [ht.fd, ht'.fd, h.fd]
  · rw [ht.helloReceived, ht'.helloReceived, h.helloReceived]
  · rw [ht.completed, ht'.completed, h.completed]
  · rw [ht.expectedSize, ht'.expectedSize, h.expectedSize]
  · rw [ht.frames, ht'.frames, h.frames]
  · rw [ht.accepted, ht'.accepted, h.accepted]
  · rw [ht.acks, ht'.acks, h.statuses]

/-- No step after the verdict touches it. -/
theorem Step.keeps (hstep : Step s os t os') (hs : s.state ≠ .receiving) :
    s.Keeps t ∧ t.state ≠ .receiving := by
  cases hstep with
  | receive bs now live => exact ⟨⟨rfl, rfl, rfl, rfl, rfl, rfl, rfl, rfl, rfl, rfl, rfl⟩, hs⟩
  | started hw => exact absurd hw.state hs
  | stored hb => exact absurd hb.state hs
  | published hb => exact absurd hb.state hs
  | refused hr => exact absurd hr.silent.state hs
  | sent n now live hsend => exact ⟨⟨rfl, rfl, rfl, rfl, rfl, rfl, rfl, rfl, rfl, rfl, rfl⟩, hs⟩
  | drained now live hsend =>
    exact ⟨⟨rfl, rfl, rfl, rfl, rfl, rfl, rfl, rfl, rfl, rfl, rfl⟩, by simp [drain]⟩
  | line line live => exact ⟨⟨rfl, rfl, rfl, rfl, rfl, rfl, rfl, rfl, rfl, rfl, rfl⟩, hs⟩
  | terminated lines live hdrop =>
    exact ⟨⟨rfl, rfl, rfl, rfl, rfl, rfl, rfl, rfl, rfl, hdrop.dir, hdrop.published⟩, hs⟩

theorem Steps.keeps {a b : Session × Os} (hsteps : Steps a b) (hs : a.1.state ≠ .receiving) :
    a.1.Keeps b.1 ∧ b.1.state ≠ .receiving := by
  induction hsteps with
  | refl => exact ⟨.refl _, hs⟩
  | tail _ hstep ih =>
    obtain ⟨hk, hstate⟩ := hstep.keeps ih.2
    exact ⟨ih.1.trans hk, hstate⟩

/-- A session that still waits for its HELLO has left the system alone. -/
theorem Steps.waiting {a b : Session × Os} (hsteps : Steps a b) (hs : b.1.state = .receiving)
    (hh : b.1.helloReceived = false) (hlive : b.1.terminated = false) :
    b.2 = a.2 ∧ a.1.state = .receiving ∧ a.1.helloReceived = false := by
  induction hsteps with
  | refl => exact ⟨rfl, hs, hh⟩
  | @tail b c _ hstep ih =>
    obtain ⟨s, os⟩ := b
    obtain ⟨t, os'⟩ := c
    cases hstep with
    | receive bs now live => exact ih hs hh live
    | started hw => cases hh
    | stored hb =>
      have hhello : s.helloReceived = false := hh
      rw [hb.hello] at hhello
      cases hhello
    | published hb => cases hs
    | refused hr => cases hs
    | sent n now live hsend =>
      have hstate : s.state = .receiving := hs
      rw [hsend] at hstate
      cases hstate
    | drained now live hsend => cases hs
    | line line live => exact ih hs hh live
    | terminated lines live hdrop => cases hlive

theorem terminate_keeps (s : Session) (os : Os) (reason : Bytes) :
    s.Keeps (s.terminate os reason).1 := by
  rw [terminate]
  split
  · exact .refl s
  · obtain ⟨hdir, hpub⟩ := FileWriter.abort_keeps s.writer os
    exact ⟨rfl, rfl, rfl, rfl, rfl, rfl, rfl, rfl, rfl, hdir, hpub⟩

theorem destroy_keeps (s : Session) (os : Os) : s.Keeps (s.destroy os).1 := by
  obtain ⟨hdir, hpub⟩ := FileWriter.abort_keeps s.writer (os.close s.fd)
  exact ⟨rfl, rfl, rfl, rfl, rfl, rfl, rfl, rfl, rfl, hdir, hpub⟩

theorem Alike.terminate (h : Alike s s') (os os' : Os) (reason reason' : Bytes) :
    Alike (s.terminate os reason).1 (s'.terminate os' reason').1 := by
  have hdone : s.terminated = true ↔ s'.terminated = true := by rw [h.terminated]
  have hkin := h.toKin.keeps (terminate_keeps s os reason) (terminate_keeps s' os' reason')
  rw [Session.terminate, Session.terminate] at hkin ⊢
  by_cases ht : s.terminated = true
  · rw [if_pos ht, if_pos (hdone.mp ht)]
    exact h
  rw [if_neg ht, if_neg (hdone.not.mp ht)] at hkin ⊢
  exact ⟨hkin, h.state, h.parser, rfl, h.receivedSize, h.crc, h.lastActivity, h.received, h.states,
    h.progress⟩

theorem Alike.destroy (h : Alike s s') (os os' : Os) :
    Alike (s.destroy os).1 (s'.destroy os').1 :=
  ⟨h.toKin.keeps (destroy_keeps s os) (destroy_keeps s' os'), h.state, h.parser, h.terminated,
    h.receivedSize, h.crc, h.lastActivity, h.received, h.states, h.progress⟩

theorem terminates_twins (h : Alike s s') (ha : Agree sys sys') (reason reason' : Bytes) :
    Twins (s.terminates sys reason) (s'.terminates sys' reason') :=
  ⟨rfl, h.terminate _ _ _ _, ha.files _ _⟩

/-! ### Sending -/

/-- There is no verdict yet, or the two ACKs are of one length, or no `write` takes a part
of one. -/
def AcksFit (sends : List SendAnswer) (s s' : Session) : Prop :=
  s.state = .receiving ∨ s.out.length = s'.out.length ∨
    ∀ n, .took n ∈ sends → n = 0 ∨ (s.out.length ≤ n ∧ s'.out.length ≤ n)

theorem Alike.drain (h : Alike s s') {now now' : ℤ} (hnow : now = now') :
    Alike (s.drain now) (s'.drain now') where
  toKin := ⟨h.fd, h.helloReceived, h.completed, h.expectedSize, h.frames, h.accepted, h.statuses,
    h.dir, h.published⟩
  state := rfl
  parser := h.parser
  terminated := h.terminated
  receivedSize := h.receivedSize
  crc := h.crc
  lastActivity := hnow
  received := h.received
  states := congrArg (· ++ [State.draining]) h.states
  progress := fun _ hs => by cases hs

theorem Alike.advance (h : Alike s s') (hs : s.state = .sendingAck) {n n' : ℕ}
    (hn : s.out.length = s'.out.length → n = n') {now now' : ℤ} (hnow : now = now') :
    Alike (s.advance n now) (s'.advance n' now') where
  toKin := ⟨h.fd, h.helloReceived, h.completed, h.expectedSize, h.frames, h.accepted, h.statuses,
    h.dir, h.published⟩
  state := h.state
  parser := h.parser
  terminated := h.terminated
  receivedSize := h.receivedSize
  crc := h.crc
  lastActivity := hnow
  received := h.received
  states := h.states
  progress := by
    intro hlen _
    show s.outPos + n = s'.outPos + n'
    rw [h.progress hlen hs, hn hlen]

theorem sendLoop_twins (h : Alike s s') (ha : Agree sys sys') (hs : s.state = .sendingAck)
    (hpos : s.outPos < s.out.length ↔ s'.outPos < s'.out.length) {sends : List SendAnswer}
    (hfit : AcksFit sends s s') : Twins (s.sendLoop sys sends) (s'.sendLoop sys' sends) := by
  -- what is left of the answers is the same
  have hagree : ∀ rest, Agree { sys with sends := rest } { sys' with sends := rest } := fun rest =>
    ⟨rfl, ha.writes, ha.openAnswer, ha.fsyncFault, ha.linkFaults, ha.localTime, ha.now⟩
  induction sends generalizing s s' with
  | nil =>
    rw [sendLoop, sendLoop]
    by_cases hlt : s.outPos < s.out.length
    · rw [if_pos hlt, if_pos (hpos.mp hlt)]
      exact ⟨rfl, h, hagree _⟩
    · rw [if_neg hlt, if_neg (hpos.not.mp hlt)]
      exact ⟨rfl, h.drain ha.now, hagree _⟩
  | cons ans sends ih =>
    have hfit' : AcksFit sends s s' :=
      hfit.imp_right fun hfit => hfit.imp_right fun hwhole n hn =>
        hwhole n (List.mem_cons_of_mem _ hn)
    rw [sendLoop.eq_def, sendLoop.eq_def s']
    by_cases hlt : s.outPos < s.out.length
    swap
    · simp only [if_neg hlt, if_neg (hpos.not.mp hlt)]
      exact ⟨rfl, h.drain ha.now, hagree _⟩
    have hlt' := hpos.mp hlt
    simp only [if_pos hlt, if_pos hlt']
    cases ans with
    | eagain => exact ⟨rfl, h, hagree _⟩
    | eintr => exact ih h hs hpos hfit'
    | err text => exact ⟨rfl, h.log _ _, hagree _⟩
    | took n =>
      by_cases hn : n = 0
      · subst hn
        simp only [Nat.zero_min, Nat.lt_irrefl, if_false]
        exact ⟨rfl, h.log _ _, hagree _⟩
      have hmin : 0 < min n (s.out.length - s.outPos) := by omega
      have hmin' : 0 < min n (s'.out.length - s'.outPos) := by omega
      simp only [if_pos hmin, if_pos hmin']
      have hsame : s.out.length = s'.out.length →
          min n (s.out.length - s.outPos) = min n (s'.out.length - s'.outPos) := fun hlen => by
        rw [hlen, h.progress hlen hs]
      refine ih (h.advance hs hsame ha.now) hs ?_ hfit'
      show s.outPos + _ < s.out.length ↔ s'.outPos + _ < s'.out.length
      rcases hfit with hrec | hlen | hwhole
      · rw [hs] at hrec
        cases hrec
      · rw [hsame hlen, hlen, h.progress hlen hs]
      · -- both are out
        rcases hwhole n List.mem_cons_self with h0 | ⟨hle, hle'⟩
        · exact absurd h0 hn
        · omega

theorem onWritable_twins (h : Alike s s') (ha : Agree sys sys')
    (hpos : s.state = .sendingAck → (s.outPos < s.out.length ↔ s'.outPos < s'.out.length))
    (hfit : AcksFit sys.sends s s') : Twins (s.onWritable sys) (s'.onWritable sys') := by
  have hsend : s.state ≠ .sendingAck ↔ s'.state ≠ .sendingAck := by rw [h.state]
  rw [onWritable, onWritable, ← ha.sends]
  by_cases hs : s.state ≠ .sendingAck
  · rw [if_pos hs, if_pos (hsend.mp hs)]
    exact ⟨rfl, h, ha⟩
  · rw [if_neg hs, if_neg (hsend.not.mp hs)]
    rw [not_not] at hs
    exact sendLoop_twins h ha hs (hpos hs) hfit

/-! ### Events -/

/-- A handler of frames leaves the answers of `send` alone; when it stops, an ACK is
queued. -/
structure Settles (sys : Sys) (r : Bool × Session × Sys) : Prop where
  sends : r.2.2.sends = sys.sends
  queued : r.1 = false → r.2.1.outPos < r.2.1.out.length

theorem queueAck_pending (s : Session) (status : Status) (message : Bytes) :
    (s.queueAck status message).outPos < (s.queueAck status message).out.length := by
  show 0 < (buildAck status message).length
  rw [buildAck, length_buildFrame, HEADER_SIZE]
  omega

theorem failed_settles (s : Session) (sys : Sys) (status : Status) (message : Bytes) :
    Settles sys (s.failed sys status message) :=
  ⟨rfl, fun _ => queueAck_pending _ _ _⟩

theorem FrameResult.settles {s : Session} {sys : Sys} {r : Bool × Session × Sys}
    (h : s.FrameResult sys r) : Settles sys r := by
  cases h with
  | refused status message => exact failed_settles s sys status message
  | notOpened hello w os err => exact ⟨rfl, fun _ => queueAck_pending _ _ _⟩
  | notStored w os writes err => exact ⟨rfl, fun _ => queueAck_pending _ _ _⟩
  | opened hello w os name size => exact ⟨rfl, by simp⟩
  | stored w os writes data => exact ⟨rfl, by simp⟩
  | saved w os name => exact ⟨rfl, fun _ => queueAck_pending _ _ _⟩

theorem onFrame_settles (s : Session) (sys : Sys) (f : Frame) : Settles sys (s.onFrame sys f) :=
  (onFrame_result s sys f).settles

theorem processFrames_settles (s : Session) (sys : Sys) (fuel : ℕ) :
    Settles sys (s.processFrames sys fuel) := by
  induction fuel generalizing s sys with
  | zero => exact ⟨rfl, by simp [processFrames]⟩
  | succ fuel ih =>
    rw [processFrames]
    split
    · exact ⟨rfl, by simp⟩
    · exact failed_settles s sys _ _
    · rename_i f p _
      have hframe := onFrame_settles (s.take f p) sys f
      split <;> rename_i s₁ sys₁ hrun <;> rw [hrun] at hframe
      · have hrest := ih s₁ sys₁
        exact ⟨hrest.sends.trans hframe.sends, hrest.queued⟩
      · exact hframe

theorem SendResult.sends {s : Session} {sys : Sys} {all : List SendAnswer}
    {r : Bool × Session × Sys} (h : SendResult sys all s r) : r.2.2.sends <:+ all := by
  induction h with
  | stays s hsends => exact hsends
  | fails s text hsends => exact hsends
  | drains s hsends => exact hsends
  | advances s n h ih => exact ih

theorem onWritable_sends (s : Session) (sys : Sys) :
    (s.onWritable sys).2.2.sends <:+ sys.sends := by
  rw [onWritable]
  split
  · exact List.suffix_refl _
  · exact (sendLoop_result s sys (List.suffix_refl _)).sends

theorem onReadable_sends (s : Session) (sys : Sys) (reads : List ReadAnswer) :
    (s.onReadable sys reads).2.2.sends <:+ sys.sends := by
  induction reads generalizing s sys with
  | nil => exact List.suffix_refl _
  | cons ans reads ih =>
    match ans with
    | .eagain => exact List.suffix_refl _
    | .eintr => exact ih s sys
    | .err text => exact List.suffix_refl _
    | .bytes [] =>
      rw [onReadable]
      split
      · exact List.suffix_refl _
      split <;> exact List.suffix_refl _
    | .bytes (b :: bs) =>
      rw [onReadable]
      split
      · have hframes := (processFrames_settles (s.receive (b :: bs) sys.now) sys
          (s.receive (b :: bs) sys.now).parser.buffered).sends
        split <;> rename_i s₁ sys₁ hrun <;> rw [hrun] at hframes <;>
          have hsends : sys₁.sends = sys.sends := hframes <;> rw [← hsends]
        · exact ih s₁ sys₁
        · split
          · exact onWritable_sends s₁ sys₁
          · exact List.suffix_refl _
      · exact ih _ sys

theorem AcksFit.mono {sends rest : List SendAnswer} (h : AcksFit sends s s')
    (hrest : rest ⊆ sends) : AcksFit rest s s' :=
  h.imp_right fun h => h.imp_right fun hwhole n hn => hwhole n (hrest hn)

/-- It is about the ACKs alone. -/
theorem AcksFit.of_keeps {sends : List SendAnswer} (h : AcksFit sends t t')
    (hs : t.state = .receiving → s.state = .receiving) (ht : s.Keeps t) (ht' : s'.Keeps t') :
    AcksFit sends s s' := by
  rcases h with hrec | h
  · exact .inl (hs hrec)
  · rw [ht.out, ht'.out] at h
    exact .inr h

theorem Alike.receive (h : Alike s s') (bs : Bytes) {now now' : ℤ} (hnow : now = now') :
    Alike (s.receive bs now) (s'.receive bs now') where
  toKin := ⟨h.fd, h.helloReceived, h.completed, h.expectedSize, h.frames, h.accepted, h.statuses,
    h.dir, h.published⟩
  state := h.state
  parser := by
    show (if s.state = .receiving then s.parser.feed bs else s.parser) =
      if s'.state = .receiving then s'.parser.feed bs else s'.parser
    rw [h.state, h.parser]
  terminated := h.terminated
  receivedSize := h.receivedSize
  crc := h.crc
  lastActivity := hnow
  received := congrArg (· ++ bs) h.received
  states := h.states
  progress := h.progress

/-- What an event comes to: the same, but for how far the ACK is out. -/
structure Shadow (sends : List SendAnswer) (r r' : Bool × Session × Sys) : Prop where
  kin : Kin r.2.1 r'.2.1
  twins : AcksFit sends r.2.1 r'.2.1 → Twins r r'

theorem Twins.shadow {r r' : Bool × Session × Sys} (h : Twins r r') (sends : List SendAnswer) :
    Shadow sends r r' := ⟨h.alike.toKin, fun _ => h⟩

theorem Pair.shadow (h : Pair s sys s' sys') (b : Bool) :
    Shadow sys.sends (b, s, sys) (b, s', sys') :=
  ⟨h.alike.toKin, fun _ => ⟨rfl, h.alike, h.agree⟩⟩

/-- Bytes come in. -/
theorem Pair.receive (h : Pair s sys s' sys') (bs : Bytes) :
    Pair (s.receive bs sys.now) sys (s'.receive bs sys'.now) sys' := by
  have hrec : ∀ {s : Session} {sys : Sys}, s.Receiving sys.os → sys.os.WF →
      (s.receive bs sys.now).Receiving sys.os := by
    intro s sys hr hwf
    have hinv : s.Inv sys.os := by
      cases hr with
      | waiting h => exact .waiting h
      | body h => exact .body h
    exact ((Step.receive bs sys.now hr.live).inv hinv hwf).1.receiving hr.live hr.silent.state
  have hroom : ∀ {s : Session} {sys : Sys}, s.Roomy sys → (s.receive bs sys.now).Roomy sys :=
    fun h => ⟨h.temp, h.fd, h.final, h.faults⟩
  exact ⟨h.alike.receive bs h.agree.now, h.agree, hrec h.left h.wf, hrec h.right h.wf', h.wf, h.wf',
    hroom h.room, hroom h.room'⟩

/-- **What the loop over the reads comes to** while the file is received. -/
theorem onReadable_shadow (h : Pair s sys s' sys') (reads : List ReadAnswer) :
    Shadow sys.sends (s.onReadable sys reads) (s'.onReadable sys' reads) := by
  induction reads generalizing s s' sys sys' with
  | nil => exact h.shadow true
  | cons ans reads ih =>
    match ans with
    | .eagain => exact h.shadow true
    | .eintr => exact ih h
    | .err text => exact (terminates_twins h.alike h.agree _ _).shadow _
    | .bytes [] =>
      have hdrain : ∀ {s : Session} {os : Os}, s.Receiving os → s.state ≠ .draining := fun hr => by
        rw [hr.silent.state]
        decide
      have hopen : ∀ {s : Session} {os : Os}, s.Receiving os → ¬ s.completed = true := fun hr => by
        rw [hr.silent.completed]
        decide
      rw [onReadable, onReadable, if_neg (hdrain h.left), if_neg (hdrain h.right),
        if_neg (hopen h.left), if_neg (hopen h.right)]
      exact (terminates_twins h.alike h.agree _ _).shadow _
    | .bytes (b :: bs) =>
      have hfed := h.receive (b :: bs)
      rw [onReadable, onReadable, if_pos hfed.left.silent.state, if_pos hfed.right.silent.state]
      generalize s.receive (b :: bs) sys.now = s₁ at hfed ⊢
      generalize s'.receive (b :: bs) sys'.now = s₁' at hfed ⊢
      obtain ⟨htwins, hpair⟩ := processFrames_twins hfed s₁.parser.buffered
      have hsettles := processFrames_settles s₁ sys s₁.parser.buffered
      have hsettles' := processFrames_settles s₁' sys' s₁.parser.buffered
      have hparsed := processFrames_parsed rfl hfed.left hfed.wf (Nat.le_refl _)
      rw [← hfed.alike.parser]
      rcases hrun : s₁.processFrames sys s₁.parser.buffered with ⟨_ | _, s₂, sys₂⟩ <;>
        rcases hrun' : s₁'.processFrames sys' s₁.parser.buffered with ⟨_ | _, s₂', sys₂'⟩ <;>
        rw [hrun, hrun'] at htwins hpair <;> rw [hrun] at hsettles hparsed <;>
        rw [hrun'] at hsettles'
      · -- a verdict: both ACKs are sent at once
        have hstate : s₂.state = .sendingAck := hparsed.stop rfl
        have hstate' : s₂'.state = .sendingAck := htwins.alike.state.symm.trans hstate
        simp only [if_pos hstate, if_pos hstate']
        have hpos := hsettles.queued rfl
        have hpos' := hsettles'.queued rfl
        have hlive' : s₂'.terminated = false := htwins.alike.terminated.symm.trans hparsed.live
        have hout : s₂.Outcome sys₂.os (s₂.onWritable sys₂) :=
          onWritable_outcome rfl hparsed.live fun hno => absurd hstate hno
        have hout' : s₂'.Outcome sys₂'.os (s₂'.onWritable sys₂') :=
          onWritable_outcome rfl hlive' fun hno => absurd hstate' hno
        obtain ⟨hkeeps, hne⟩ := hout.steps.keeps (by rw [hstate]; decide)
        obtain ⟨hkeeps', -⟩ := hout'.steps.keeps (by rw [hstate']; decide)
        refine ⟨htwins.alike.toKin.keeps hkeeps hkeeps', fun hfit => ?_⟩
        refine onWritable_twins htwins.alike htwins.agree (fun _ => iff_of_true hpos hpos') ?_
        rw [hsettles.sends]
        exact hfit.of_keeps (fun hrec => absurd hrec hne) hkeeps hkeeps'
      · exact absurd htwins.code (by simp)
      · exact absurd htwins.code (by simp)
      · have hsends : sys₂.sends = sys.sends := hsettles.sends
        rw [← hsends]
        exact ih (hpair rfl)

/-- Once there is a verdict, what is read makes no difference. -/
theorem onReadable_twins (h : Alike s s') (ha : Agree sys sys') (hs : s.state ≠ .receiving)
    (reads : List ReadAnswer) : Twins (s.onReadable sys reads) (s'.onReadable sys' reads) := by
  induction reads generalizing s s' with
  | nil => exact ⟨rfl, h, ha⟩
  | cons ans reads ih =>
    match ans with
    | .eagain => exact ⟨rfl, h, ha⟩
    | .eintr => exact ih h hs
    | .err text => exact terminates_twins h ha _ _
    | .bytes [] =>
      have hdrain : s.state = .draining ↔ s'.state = .draining := by rw [h.state]
      have hdone : s.completed = true ↔ s'.completed = true := by rw [h.completed]
      rw [onReadable, onReadable]
      by_cases hd : s.state = .draining
      · rw [if_pos hd, if_pos (hdrain.mp hd)]
        exact ⟨rfl, h, ha⟩
      rw [if_neg hd, if_neg (hdrain.not.mp hd)]
      by_cases hc : s.completed = true
      · rw [if_pos hc, if_pos (hdone.mp hc)]
        exact ⟨rfl, h, ha⟩
      · rw [if_neg hc, if_neg (hdone.not.mp hc)]
        exact terminates_twins h ha _ _
    | .bytes (b :: bs) =>
      have hs' : s'.state ≠ .receiving := by rw [← h.state]; exact hs
      have hfed : (s.receive (b :: bs) sys.now).state ≠ .receiving := hs
      have hfed' : (s'.receive (b :: bs) sys'.now).state ≠ .receiving := hs'
      rw [onReadable, onReadable, if_neg hfed, if_neg hfed']
      exact ih (h.receive (b :: bs) ha.now) hs

/-- The second half of `handle`: the connection is writable. -/
def thenWritable (events : BitVec 32) (r : Bool × Session × Sys) : Bool × Session × Sys :=
  if r.1 = true ∧ events &&& EPOLLOUT ≠ 0 then r.2.1.onWritable r.2.2 else r

theorem handle_eq (s : Session) (sys : Sys) (events : BitVec 32) (reads : List ReadAnswer) :
    s.handle sys events reads =
      if events &&& (EPOLLHUP ||| EPOLLERR) ≠ 0 ∧ events &&& EPOLLIN = 0 then
        if s.state ≠ .draining then s.terminates sys (str "соединение разорвано")
        else (false, s, sys)
      else
        thenWritable events
          (if events &&& EPOLLIN ≠ 0 then s.onReadable sys reads else (true, s, sys)) := by
  rw [handle]
  split
  · rfl
  generalize (if events &&& EPOLLIN ≠ 0 then s.onReadable sys reads else (true, s, sys)) = r
  obtain ⟨_ | _, s₁, sys₁⟩ := r
  · rfl
  · simp [thenWritable]

theorem thenWritable_keeps (events : BitVec 32) {r : Bool × Session × Sys} (hq : r.2.1.Quiet)
    (hlive : r.1 = true → r.2.1.terminated = false) (hs : r.2.1.state ≠ .receiving) :
    r.2.1.Keeps (thenWritable events r).2.1 ∧ (thenWritable events r).2.1.state ≠ .receiving := by
  rw [thenWritable]
  split
  · rename_i hgo
    exact (onWritable_outcome rfl (hlive hgo.1) fun _ => hq).steps.keeps hs
  · exact ⟨.refl _, hs⟩

theorem thenWritable_receiving {events : BitVec 32} {r : Bool × Session × Sys}
    (hs : r.2.1.state = .receiving) : thenWritable events r = r := by
  rw [thenWritable]
  split
  · rename_i hgo
    rw [onWritable_receiving hs, ← hgo.1]
  · rfl

/-- No verdict has been queued as long as the session is receiving. -/
theorem Account.receiving_iff (h : s.Account os) : s.state = .receiving ↔ s.hist.acks = [] := by
  cases h with
  | silent h => exact iff_of_true h.state h.acks
  | answered h => exact iff_of_false h.state_ne (by rw [h.acks]; simp)

theorem Kin.receiving_iff (h : Kin s s') (ha : s.Account os) (ha' : s'.Account os') :
    s.state = .receiving ↔ s'.state = .receiving := by
  rw [ha.receiving_iff, ha'.receiving_iff, ← List.map_eq_nil_iff, h.statuses, List.map_eq_nil_iff]

theorem thenWritable_shadow {sends : List SendAnswer} {r r' : Bool × Session × Sys}
    (h : Shadow sends r r') (hsends : r.2.2.sends <:+ sends) (hq : r.2.1.Quiet) (hq' : r'.2.1.Quiet)
    (hlive : r.1 = true → r.2.1.terminated = false)
    (hlive' : r'.1 = true → r'.2.1.terminated = false) (ha : r.2.1.Account r.2.2.os)
    (ha' : r'.2.1.Account r'.2.2.os) (events : BitVec 32) :
    Shadow sends (thenWritable events r) (thenWritable events r') := by
  have hrec := h.kin.receiving_iff ha ha'
  by_cases hs : r.2.1.state = .receiving
  · rw [thenWritable_receiving hs, thenWritable_receiving (hrec.mp hs)]
    exact h
  obtain ⟨hkeeps, hne⟩ := thenWritable_keeps events hq hlive hs
  obtain ⟨hkeeps', -⟩ := thenWritable_keeps events hq' hlive' (hrec.not.mp hs)
  refine ⟨h.kin.keeps hkeeps hkeeps', fun hfit => ?_⟩
  have hold := hfit.of_keeps (fun hrec => absurd hrec hne) hkeeps hkeeps'
  have htwins := h.twins hold
  have hgo : r.1 = true ∧ events &&& EPOLLOUT ≠ 0 ↔ r'.1 = true ∧ events &&& EPOLLOUT ≠ 0 := by
    rw [htwins.code]
  rw [thenWritable, thenWritable]
  by_cases hout : r.1 = true ∧ events &&& EPOLLOUT ≠ 0
  · rw [if_pos hout, if_pos (hgo.mp hout)]
    refine onWritable_twins htwins.alike htwins.agree (fun hsend => ?_) (hold.mono hsends.subset)
    exact iff_of_true (hq.sending hsend) (hq'.sending (htwins.alike.state ▸ hsend))
  · rw [if_neg hout, if_neg (hgo.not.mp hout)]
    exact htwins

/-- Both are in order, and no session has been terminated. -/
structure Both (s : Session) (sys : Sys) (s' : Session) (sys' : Sys) : Prop where
  left : s.Sound sys.os
  right : s'.Sound sys'.os
  live : s.terminated = false
  live' : s'.terminated = false

/-- **What an event comes to**, for two sessions that are alike. -/
theorem handle_shadow (hb : Both s sys s' sys') (h : Alike s s') (ha : Agree sys sys')
    (hroom : s.state = .receiving → s.Roomy sys ∧ s'.Roomy sys') (events : BitVec 32)
    (reads : List ReadAnswer) :
    Shadow sys.sends (s.handle sys events reads) (s'.handle sys' events reads) := by
  have hdrain : s.state ≠ .draining ↔ s'.state ≠ .draining := by rw [h.state]
  rw [handle_eq, handle_eq]
  by_cases hup : events &&& (EPOLLHUP ||| EPOLLERR) ≠ 0 ∧ events &&& EPOLLIN = 0
  · rw [if_pos hup, if_pos hup]
    by_cases hd : s.state ≠ .draining
    · rw [if_pos hd, if_pos (hdrain.mp hd)]
      exact (terminates_twins h ha _ _).shadow _
    · rw [if_neg hd, if_neg (hdrain.not.mp hd)]
      have htwins : Twins (false, s, sys) (false, s', sys') := ⟨rfl, h, ha⟩
      exact htwins.shadow _
  rw [if_neg hup, if_neg hup]
  by_cases hin : events &&& EPOLLIN ≠ 0
  · rw [if_pos hin, if_pos hin]
    have hout : s.Outcome sys.os (s.onReadable sys reads) :=
      onReadable_outcome rfl hb.left.inv hb.left.wf hb.live hb.left.quiet
    have hout' : s'.Outcome sys'.os (s'.onReadable sys' reads) :=
      onReadable_outcome rfl hb.right.inv hb.right.wf hb.live' hb.right.quiet
    refine thenWritable_shadow ?_ (onReadable_sends s sys reads) hout.quiet hout'.quiet hout.live
      hout'.live (hout.steps.inv hb.left.inv hb.left.wf).1.account
      (hout'.steps.inv hb.right.inv hb.right.wf).1.account events
    by_cases hs : s.state = .receiving
    · obtain ⟨hr, hr'⟩ := hroom hs
      exact onReadable_shadow ⟨h, ha, hb.left.inv.receiving hb.live hs,
        hb.right.inv.receiving hb.live' (h.state ▸ hs), hb.left.wf, hb.right.wf, hr, hr'⟩ reads
    · exact (onReadable_twins h ha hs reads).shadow _
  · rw [if_neg hin, if_neg hin]
    have htwins : Twins (true, s, sys) (true, s', sys') := ⟨rfl, h, ha⟩
    exact thenWritable_shadow (htwins.shadow _) (List.suffix_refl _) hb.left.quiet hb.right.quiet
      (fun _ => hb.live) (fun _ => hb.live') hb.left.inv.account hb.right.inv.account events

/-- A session that has its verdict keeps it through an event. -/
theorem handle_keeps (sys : Sys) (h : s.Sound sys.os) (hlive : s.terminated = false)
    (hs : s.state ≠ .receiving) (events : BitVec 32) (reads : List ReadAnswer) :
    s.Keeps (s.handle sys events reads).2.1 ∧
      (s.handle sys events reads).2.1.state ≠ .receiving :=
  (handle_outcome rfl h.inv h.wf hlive h.quiet).steps.keeps hs

end Twins

end Session

end Nexus
