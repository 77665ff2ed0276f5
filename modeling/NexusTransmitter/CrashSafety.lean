/-
What a crash leaves of the files.

`commit` calls `fsync` before it gives the file its final name. So whenever the machine
crashes, between whatever two calls of whatever session, what is found under a final name
afterwards is a whole file: everything that its session has accepted, on the word of a
checksum. What was not published yet is at most a temporary file.

* `Session.Ledger.serve` — the calls of a writer are orderly, and what they have written is
  what its session has accepted;
* `Server.crash_safe` — a crash never shows half an upload.
-/
import NexusTransmitter.Lib.Durability
import NexusTransmitter.ServerLog
import NexusTransmitter.ServerOutcome
import NexusTransmitter.SessionWriter

open Durability

namespace Nexus

/-- What a call does to the file. -/
def FsCall.events : FsCall → List (Durability.Event Bytes Byte)
  | .open path none => [.create path]
  | .write bs => [.append bs]
  | .fsync none => [.sync]
  | .link path none => [.link path]
  | .unlink path => [.unlink path]
  | _ => []

namespace FileWriter

/-! ### The trace of a writer -/

/-- What a writer has done to its file. -/
def trace (w : FileWriter) : List (Durability.Event Bytes Byte) := w.log.flatMap FsCall.events

section Trace

variable {w : FileWriter} {os : Os}

theorem trace_append {w' : FileWriter} {calls : List FsCall} (h : w'.log = w.log ++ calls) :
    w'.trace = w.trace ++ calls.flatMap FsCall.events := by
  rw [trace, h, List.flatMap_append, trace]

theorem link_mem_trace {p : Bytes} : .link p ∈ w.trace ↔ .link p none ∈ w.log := by
  rw [trace, List.mem_flatMap]
  constructor
  · rintro ⟨c, hc, he⟩
    cases c with
    | «open» path error => cases error <;> simp [FsCall.events] at he
    | write bs => simp [FsCall.events] at he
    | writeError text => simp [FsCall.events] at he
    | fsync error => cases error <;> simp [FsCall.events] at he
    | close => simp [FsCall.events] at he
    | link path error =>
      cases error with
      | none =>
        simp only [FsCall.events, List.mem_singleton, Durability.Event.link.injEq] at he
        rw [he]
        exact hc
      | some text => simp [FsCall.events] at he
    | unlink path => simp [FsCall.events] at he
  · exact fun hc => ⟨_, hc, List.mem_singleton.mpr rfl⟩

theorem open_trace (w : FileWriter) (os : Os) (ans : OpenAnswer) :
    (w.«open» os ans).2.1.trace = w.trace ∨
      ∃ p, (w.«open» os ans).2.1.trace = w.trace ++ [.create p] := by
  obtain ⟨e, hlog, -, -, -⟩ := open_log w os ans
  rw [trace_append hlog]
  cases e with
  | none => exact .inr ⟨_, rfl⟩
  | some text => exact .inl (List.append_nil _)

/-- `write` appends chunks of the data, all of it unless it returns an error. -/
theorem write_trace (w : FileWriter) (os : Os) (p : Bytes) (answers : List WriteAnswer) :
    ∃ chunks : List Bytes, (w.write os p answers).2.2.1.trace = w.trace ++ chunks.map .append ∧
      ((w.write os p answers).1 = [] → chunks.flatten = p) := by
  have hfail : ∀ (w : FileWriter) (text : Bytes),
      ({ w with log := w.log ++ [FsCall.writeError text] } : FileWriter).trace = w.trace :=
    fun w text => (trace_append rfl).trans (List.append_nil _)
  -- one answer a round
  induction answers generalizing w os p with
  | nil =>
    rw [write.eq_def]
    split
    · rename_i hp
      exact ⟨[], (List.append_nil _).symm, fun _ => hp.symm⟩
    · exact ⟨[], (hfail w _).trans (List.append_nil _).symm, fun h => by simp at h⟩
  | cons ans answers ih =>
    rw [write.eq_def]
    split
    · rename_i hp
      exact ⟨[], (List.append_nil _).symm, fun _ => hp.symm⟩
    dsimp only
    split
    · exact ih w _ p
    · exact ⟨[], (hfail w _).trans (List.append_nil _).symm, fun h => by simp at h⟩
    · rename_i n os' _
      obtain ⟨chunks, htrace, hall⟩ := ih
        { w with written := (w.written + n) % 2 ^ 64, log := w.log ++ [FsCall.write (p.take n)] }
        os' (p.drop n)
      refine ⟨p.take n :: chunks, ?_, fun h => ?_⟩
      · rw [htrace, trace_append rfl]
        simp [FsCall.events, trace]
      · rw [List.flatten_cons, hall h, List.take_append_drop]

theorem abort_trace (w : FileWriter) (os : Os) :
    (w.abort os).1.trace = w.trace ∨ ∃ p, (w.abort os).1.trace = w.trace ++ [.unlink p] := by
  unfold abort
  cases w.fd <;> dsimp only <;> split
  · exact .inl rfl
  · exact .inr ⟨w.tempPath, by simp [trace, FsCall.events]⟩
  · exact .inl ((trace_append rfl).trans (List.append_nil _))
  · exact .inr ⟨w.tempPath, by simp [trace, FsCall.events]⟩

/-- The loop links the file once, under a free name, or not at all. -/
theorem linkLoop_trace (stamp : Bytes) (faults : ℕ → Option Bytes) (w : FileWriter) (os : Os)
    (left suffix : ℕ) :
    ((linkLoop stamp faults w os left suffix).1.error ≠ [] ∧
        (linkLoop stamp faults w os left suffix).2.1.trace = w.trace) ∨
      ∃ p q, (linkLoop stamp faults w os left suffix).1.error = [] ∧
        (linkLoop stamp faults w os left suffix).2.1.trace = w.trace ++ [.link p, .unlink q] ∧
        (linkLoop stamp faults w os left suffix).2.1.fd = w.fd ∧
        (linkLoop stamp faults w os left suffix).2.1.tempPath = [] := by
  induction left generalizing w os suffix with
  | zero => exact .inl ⟨by simp [linkLoop], rfl⟩
  | succ left ih =>
    rw [linkLoop]
    split
    · exact .inr ⟨finalPath w.dir (candidateName stamp suffix), w.tempPath, rfl,
        by simp [trace, FsCall.events], rfl, rfl⟩
    · -- the name is taken: the next one
      rename_i os' _
      have hsame : ({ w with log := w.log ++
          [.link (finalPath w.dir (candidateName stamp suffix)) (some (str "File exists"))] } :
            FileWriter).trace = w.trace := (trace_append rfl).trans (List.append_nil _)
      have hrest := ih { w with log := w.log ++
        [.link (finalPath w.dir (candidateName stamp suffix)) (some (str "File exists"))] } os'
        (suffix + 1)
      rwa [hsame] at hrest
    · exact .inl ⟨by simp, (trace_append rfl).trans (List.append_nil _)⟩

/-- `commit` syncs the file before it links it. -/
theorem commit_trace (w : FileWriter) (os : Os) (fsyncFault : Option Bytes) (now : Tm)
    (faults : ℕ → Option Bytes) :
    ((w.commit os fsyncFault now faults).1.error ≠ [] ∧
      ((w.commit os fsyncFault now faults).2.1.trace = w.trace ∨
        (w.commit os fsyncFault now faults).2.1.trace = w.trace ++ [.sync])) ∨
      ∃ p q, (w.commit os fsyncFault now faults).1.error = [] ∧
        (w.commit os fsyncFault now faults).2.1.trace =
          w.trace ++ [.sync] ++ [.link p] ++ [.unlink q] ∧
        (w.commit os fsyncFault now faults).2.1.Closed := by
  cases hfd : w.fd with
  | none =>
    simp only [commit, hfd]
    exact .inl ⟨by simp, .inl trivial⟩
  | some fd =>
  cases fsyncFault with
  | some text =>
    simp only [commit, hfd]
    exact .inl ⟨by simp, .inl ((trace_append rfl).trans (List.append_nil _))⟩
  | none =>
    simp only [commit, hfd]
    have hsynced : ({ w with fd := none, log := w.log ++ [.fsync none, .close] } :
        FileWriter).trace = w.trace ++ [.sync] := by
      simp [trace, FsCall.events]
    have hlink := linkLoop_trace (fileTimestamp now) faults
      { w with fd := none, log := w.log ++ [.fsync none, .close] } (os.close fd) 1000 0
    rw [hsynced] at hlink
    refine hlink.imp (And.imp_right .inr) ?_
    rintro ⟨p, q, herr, htrace, hnone, htemp⟩
    exact ⟨p, q, herr, by rw [htrace]; simp, hnone, htemp⟩

end Trace

end FileWriter

/-! ### The ledger of a session -/

namespace Session

/-- The calls of the writer are orderly, and what they have written is what the session has
accepted: before a verdict, and for good when the file has its name. -/
structure Ledger (s : Session) : Prop where
  orderly : Orderly s.writer.trace
  fresh : s.helloReceived = false → s.writer.Closed ∧ s.writer.trace = []
  content : s.state = .receiving → (run s.writer.trace).content = s.hist.accepted
  unlinked : s.state = .receiving → ∀ p, .link p ∉ s.writer.trace
  linked : ∀ p, .link p ∈ s.writer.trace →
    s.writer.Closed ∧ (run s.writer.trace).content = s.hist.accepted
  accepted : s.helloReceived = false → s.hist.accepted = []

variable {s s' : Session} {sys : Sys} {os : Os}

namespace Ledger

/-- Something else changes, and if the state does, it is not `receiving` any more. -/
theorem congr (h : s.Ledger) (hwriter : s'.writer = s.writer)
    (hhello : s'.helloReceived = s.helloReceived)
    (hstate : s'.state = .receiving → s.state = .receiving)
    (haccepted : s'.hist.accepted = s.hist.accepted) : s'.Ledger where
  orderly := by rw [hwriter]; exact h.orderly
  fresh := by rw [hwriter, hhello]; exact h.fresh
  content := by rw [hwriter, haccepted]; exact fun hs => h.content (hstate hs)
  unlinked := by rw [hwriter]; exact fun hs => h.unlinked (hstate hs)
  linked := by rw [hwriter, haccepted]; exact h.linked
  accepted := by rw [hhello, haccepted]; exact h.accepted

/-- The writer lets go of its file. -/
theorem abort (h : s.Ledger) (os : Os) (hwriter : s'.writer = (s.writer.abort os).1)
    (hhello : s'.helloReceived = s.helloReceived)
    (hstate : s'.state = .receiving → s.state = .receiving)
    (haccepted : s'.hist.accepted = s.hist.accepted) : s'.Ledger := by
  have hclosed : s.writer.Closed → s'.writer = s.writer := fun hc => by
    rw [hwriter, FileWriter.abort_of_closed hc]
  rcases FileWriter.abort_trace s.writer os with htrace | ⟨p, htrace⟩ <;> rw [← hwriter] at htrace
  · refine ⟨by rw [htrace]; exact h.orderly, fun hh => ?_, fun hs => ?_, fun hs => ?_,
      fun q hq => ?_, by rw [hhello, haccepted]; exact h.accepted⟩
    · obtain ⟨hc, hnil⟩ := h.fresh (hhello ▸ hh)
      exact ⟨by rw [hclosed hc]; exact hc, htrace.trans hnil⟩
    · rw [htrace, haccepted]
      exact h.content (hstate hs)
    · rw [htrace]
      exact h.unlinked (hstate hs)
    · rw [htrace] at hq ⊢
      obtain ⟨hc, hall⟩ := h.linked q hq
      exact ⟨by rw [hclosed hc]; exact hc, hall.trans haccepted.symm⟩
  · have hcontent : (run s'.writer.trace).content = (run s.writer.trace).content := by
      rw [htrace, run_concat]
      rfl
    have hlink : ∀ q, .link q ∈ s'.writer.trace ↔ .link q ∈ s.writer.trace := fun q => by
      rw [htrace]
      simp
    refine ⟨by rw [htrace]; exact h.orderly.unlink p, fun hh => ?_, fun hs => ?_, fun hs q hq => ?_,
      fun q hq => ?_, by rw [hhello, haccepted]; exact h.accepted⟩
    · obtain ⟨hc, hnil⟩ := h.fresh (hhello ▸ hh)
      rw [hclosed hc]
      exact ⟨hc, hnil⟩
    · rw [hcontent, haccepted]
      exact h.content (hstate hs)
    · exact h.unlinked (hstate hs) q ((hlink q).mp hq)
    · obtain ⟨hc, hall⟩ := h.linked q ((hlink q).mp hq)
      exact ⟨by rw [hclosed hc]; exact hc, hcontent.trans (hall.trans haccepted.symm)⟩

/-- A session that fails before its file has its name. -/
theorem of_failed (sys : Sys) (horderly : Orderly s.writer.trace)
    (hno : ∀ p, .link p ∉ s.writer.trace) (hhello : s.helloReceived = true) (status : Status)
    (message : Bytes) :
    (s.failed sys status message).2.1.Ledger := by
  have hhello' : (s.failed sys status message).2.1.helloReceived = true := hhello
  have hwriter : (s.failed sys status message).2.1.writer = (s.writer.abort sys.os).1 := rfl
  have htrace : Orderly (s.writer.abort sys.os).1.trace ∧
      ∀ p, .link p ∉ (s.writer.abort sys.os).1.trace := by
    rcases FileWriter.abort_trace s.writer sys.os with htrace | ⟨p, htrace⟩ <;> rw [htrace]
    · exact ⟨horderly, hno⟩
    · exact ⟨horderly.unlink p, fun q hq => hno q (by simpa using hq)⟩
  rw [← hwriter] at htrace
  refine ⟨htrace.1, fun hh => ?_, nofun, nofun, fun p hp => absurd hp (htrace.2 p), fun hh => ?_⟩
  · rw [hhello'] at hh
    cases hh
  · rw [hhello'] at hh
    cases hh

theorem failed (h : s.Ledger) (status : Status) (message : Bytes) :
    (s.failed sys status message).2.1.Ledger :=
  h.abort sys.os rfl rfl nofun rfl

end Ledger

/-- While the session is receiving: it goes on only as long as it is. -/
structure Ledgered (r : Bool × Session × Sys) : Prop where
  ledger : r.2.1.Ledger
  receiving : r.1 = true → r.2.1.state = .receiving

section Frames

theorem Ledger.failed_ledgered (h : s.Ledger) (status : Status) (message : Bytes) :
    Ledgered (s.failed sys status message) :=
  ⟨h.failed status message, nofun⟩

theorem Ledger.onHello (h : s.Ledger) (hs : s.state = .receiving) (data : Bytes) :
    Ledgered (s.onHello sys data) := by
  unfold Session.onHello
  split
  · exact h.failed_ledgered _ _
  rename_i hhello
  split
  · exact h.failed_ledgered _ _
  rename_i hello _
  have hno : s.helloReceived = false := by simpa using hhello
  have hnil := (h.fresh hno).2
  -- the file is new, or there is none
  have htrace : Orderly (s.writer.«open» sys.os sys.openAnswer).2.1.trace ∧
      (run (s.writer.«open» sys.os sys.openAnswer).2.1.trace).content = [] ∧
      ∀ p, .link p ∉ (s.writer.«open» sys.os sys.openAnswer).2.1.trace := by
    rcases FileWriter.open_trace s.writer sys.os sys.openAnswer with htrace | ⟨p, htrace⟩ <;>
      rw [htrace, hnil]
    · exact ⟨.nil, rfl, fun p hp => nomatch hp⟩
    · exact ⟨Orderly.nil.create p, rfl, fun q hq => by simp at hq⟩
  obtain ⟨horderly, hcontent, hlink⟩ := htrace
  dsimp only
  split
  · exact ⟨.of_failed _ horderly hlink rfl _ _, nofun⟩
  · refine ⟨⟨horderly, nofun, fun _ => ?_, fun _ => hlink, fun p hp => absurd hp (hlink p), nofun⟩,
      fun _ => hs⟩
    exact hcontent.trans (h.accepted hno).symm

theorem Ledger.onData (h : s.Ledger) (hs : s.state = .receiving) (data : Bytes) :
    Ledgered (s.onData sys data) := by
  unfold Session.onData
  split
  · exact h.failed_ledgered _ _
  rename_i hhello
  have hyes : s.helloReceived = true := by simpa using hhello
  split
  · exact h.failed_ledgered _ _
  obtain ⟨chunks, htrace, hall⟩ := FileWriter.write_trace s.writer sys.os data sys.writes
  have horderly : Orderly (s.writer.write sys.os data sys.writes).2.2.1.trace := by
    rw [htrace]
    exact h.orderly.appends (h.unlinked hs) chunks
  have hlink : ∀ p, .link p ∉ (s.writer.write sys.os data sys.writes).2.2.1.trace := by
    intro p hp
    rw [htrace] at hp
    exact h.unlinked hs p (link_mem_appends.mp hp)
  dsimp only
  split
  · exact ⟨.of_failed _ horderly hlink (by exact hyes) _ _, nofun⟩
  · rename_i herr
    refine ⟨⟨horderly, fun hh => ?_, fun _ => ?_, fun _ => hlink, fun p hp => absurd hp (hlink p),
      fun hh => ?_⟩, fun _ => hs⟩
    · change s.helloReceived = false at hh
      rw [hyes] at hh
      cases hh
    · show (run (s.writer.write sys.os data sys.writes).2.2.1.trace).content =
        s.hist.accepted ++ data
      rw [htrace, run_appends, hall (not_not.mp herr), h.content hs]
    · change s.helloReceived = false at hh
      rw [hyes] at hh
      cases hh

theorem Ledger.onEnd (h : s.Ledger) (hs : s.state = .receiving) (data : Bytes) :
    (s.onEnd sys data).2.1.Ledger := by
  unfold Session.onEnd
  split
  · exact h.failed _ _
  rename_i hhello
  have hyes : s.helloReceived = true := by simpa using hhello
  split
  · exact h.failed _ _
  split
  · exact h.failed _ _
  split
  · exact h.failed _ _
  have hno := h.unlinked hs
  dsimp only
  rcases FileWriter.commit_trace s.writer sys.os sys.fsyncFault sys.localTime sys.linkFaults with
    ⟨herr, htrace⟩ | ⟨p, q, herr, htrace, hclosed⟩
  · rw [if_pos herr]
    refine .of_failed _ ?_ ?_ (by exact hyes) _ _
    · show Orderly (s.writer.commit sys.os sys.fsyncFault sys.localTime sys.linkFaults).2.1.trace
      rcases htrace with htrace | htrace <;> rw [htrace]
      · exact h.orderly
      · exact h.orderly.sync
    · show ∀ p, .link p ∉
        (s.writer.commit sys.os sys.fsyncFault sys.localTime sys.linkFaults).2.1.trace
      rcases htrace with htrace | htrace <;> rw [htrace]
      · exact hno
      · exact fun p hp => hno p (by simpa using hp)
  · have horderly : Orderly
        (s.writer.commit sys.os sys.fsyncFault sys.localTime sys.linkFaults).2.1.trace := by
      rw [htrace]
      exact ((h.orderly.sync).link (by rw [run_concat]; rfl) p).unlink q
    have hcontent : (run
        (s.writer.commit sys.os sys.fsyncFault sys.localTime sys.linkFaults).2.1.trace).content =
          s.hist.accepted := by
      rw [htrace, run_concat, run_concat, run_concat]
      exact h.content hs
    rw [if_neg (not_not.mpr herr)]
    refine ⟨horderly, fun hh => ?_, nofun, nofun, fun r hr => ⟨hclosed, hcontent⟩, fun hh => ?_⟩
    · change s.helloReceived = false at hh
      rw [hyes] at hh
      cases hh
    · change s.helloReceived = false at hh
      rw [hyes] at hh
      cases hh

theorem Ledger.onFrame (h : s.Ledger) (hs : s.state = .receiving) (f : Frame) :
    Ledgered (s.onFrame sys f) := by
  unfold Session.onFrame
  split
  · exact h.onHello hs f.data
  · exact h.onData hs f.data
  · exact ⟨h.onEnd hs f.data, nofun⟩
  · exact h.failed_ledgered _ _

theorem Ledger.processFrames (h : s.Ledger) (hs : s.state = .receiving) (fuel : ℕ) :
    Ledgered (s.processFrames sys fuel) := by
  induction fuel generalizing s sys with
  | zero => exact ⟨h, fun _ => hs⟩
  | succ fuel ih =>
    rw [Session.processFrames]
    obtain ⟨o, p⟩ := s.parser.next
    cases o with
    | needMore => exact ⟨h, fun _ => hs⟩
    | error e => exact h.failed_ledgered _ _
    | ready f =>
      have htake : (s.take f p).Ledger := h.congr rfl rfl (fun hs => hs) rfl
      have hframe : Ledgered ((s.take f p).onFrame sys f) := htake.onFrame hs f
      dsimp only
      generalize (s.take f p).onFrame sys f = r at hframe ⊢
      obtain ⟨_ | _, s', sys'⟩ := r
      · exact ⟨hframe.ledger, fun htrue => by cases htrue⟩
      · exact ih hframe.ledger (hframe.receiving rfl)

end Frames

/-! ### Events -/

section Events

theorem SendResult.ledger {all : List SendAnswer} {r : Bool × Session × Sys}
    (h : SendResult sys all s r) (hs : s.Ledger) : r.2.1.Ledger := by
  induction h with
  | stays s hsends => exact hs
  | fails s text hsends => exact hs.congr rfl rfl (fun hs => hs) rfl
  | drains s hsends => exact hs.congr rfl rfl nofun rfl
  | advances s n _ ih => exact ih (hs.congr rfl rfl (fun hs => hs) rfl)

theorem Ledger.onWritable (h : s.Ledger) (sys : Sys) : (s.onWritable sys).2.1.Ledger := by
  rw [Session.onWritable]
  split
  · exact h
  · exact (sendLoop_result s sys (List.suffix_refl _)).ledger h

theorem Ledger.terminate (h : s.Ledger) (os : Os) (reason : Bytes) :
    (s.terminate os reason).1.Ledger := by
  rw [Session.terminate]
  split
  · exact h
  · exact h.abort os rfl rfl (fun hs => hs) rfl

theorem Ledger.onReadable (h : s.Ledger) (sys : Sys) (reads : List ReadAnswer) :
    (s.onReadable sys reads).2.1.Ledger := by
  induction reads generalizing s sys with
  | nil => exact h
  | cons ans reads ih =>
    match ans with
    | .eagain => exact h
    | .eintr => exact ih h sys
    | .err text => exact h.terminate _ _
    | .bytes [] =>
      rw [Session.onReadable]
      split
      · exact h
      split
      · exact h
      · exact h.terminate _ _
    | .bytes (b :: bs) =>
      have hr : (s.receive (b :: bs) sys.now).Ledger := h.congr rfl rfl (fun hs => hs) rfl
      rw [Session.onReadable]
      split
      · rename_i hs
        have hframes : Ledgered ((s.receive (b :: bs) sys.now).processFrames sys
            (s.receive (b :: bs) sys.now).parser.buffered) := hr.processFrames hs _
        split <;> rename_i hrun <;> rw [hrun] at hframes
        · exact ih hframes.ledger _
        · split
          · exact hframes.ledger.onWritable _
          · exact hframes.ledger
      · exact ih hr sys

theorem Ledger.handle (h : s.Ledger) (sys : Sys) (events : BitVec 32) (reads : List ReadAnswer) :
    (s.handle sys events reads).2.1.Ledger := by
  rw [Session.handle]
  split
  · split
    · exact h.terminate _ _
    · exact h
  have hread : (if events &&& EPOLLIN ≠ 0 then s.onReadable sys reads
      else (true, s, sys)).2.1.Ledger := by
    split
    · exact h.onReadable sys reads
    · exact h
  split <;> rename_i hr <;> rw [hr] at hread
  · exact hread
  · split
    · exact hread.onWritable _
    · exact hread

/-- **The step lemma**: whatever the server calls on a session, its ledger stays in order. -/
theorem Ledger.serve (h : s.Ledger) (r : Request) : (r.serve s).Ledger := by
  cases r with
  | handle sys events reads => exact h.handle sys events reads
  | terminate os reason => exact h.terminate os reason
  | destroy os => exact h.abort (os.close s.fd) rfl rfl (fun hs => hs) rfl

theorem ledger_create (id fd conn : ℕ) (outDir : Bytes) (now : ℤ) :
    (create id fd conn outDir now).Ledger where
  orderly := .nil
  fresh := fun _ => ⟨⟨rfl, rfl⟩, rfl⟩
  content := fun _ => rfl
  unlinked := fun _ _ hp => nomatch hp
  linked := fun _ hp => nomatch hp
  accepted := fun _ => rfl

end Events

end Session

namespace Server

variable {os₀ os : Os} {config : ServerConfig} {l g : ℕ} {srv : Server}

theorem ledger_lasts {ok : Sys → Prop} : Lasts ok Session.Ledger where
  create := Session.ledger_create
  serve := fun _ r _ _ h => h.serve r

/-- **A crash never shows half an upload.**  Take any state that the server reaches, and let
the machine have crashed before it, after any of the calls that some session had made. If a
file is found under a name that the session gives with `link`, then the session has published
it under this name, and its content is all that the session has accepted: an upload that the
grammar accepts, as long as declared and with the right checksum, in the bytes received. -/
theorem crash_safe (h : Ready os₀ l g) (hreach : Reach config l g os₀ srv os) {s : Session}
    (hs : s ∈ srv.all) {p c : Bytes} (hfound : Found s.writer.trace p c) :
    (∃ i, s.writer.published = some (p, i) ∧ os.dir p = some i ∧ os.data i = c) ∧
      c = s.hist.accepted ∧ Upload.Verdict s.hist.received .ok (some c) := by
  have hledger := (reach_all h hreach.reachIn ledger_lasts).of_mem hs
  obtain ⟨hlink, hcontent⟩ := hledger.orderly.found hfound
  obtain ⟨-, haccepted⟩ := hledger.linked p hlink
  have hlast := (reach_good h hreach).disk.lasting s hs
  obtain ⟨i, hi⟩ := (hlast.calls.published p).mp (FileWriter.link_mem_trace.mp hlink)
  obtain ⟨name, hans, hfile, rfl⟩ := hlast.file hi
  have hc : c = s.hist.accepted := hcontent.trans haccepted
  exact ⟨⟨i, hi, (hfile.entry _).mpr rfl, hfile.data.trans hc.symm⟩, hc,
    hc ▸ hlast.tracks.verdict_ok hans⟩

/-- The machine crashes after the upload of three bytes, and nothing is lost. -/
theorem crash_safe_three_bytes :
    ∃ (s : Session) (p c : Bytes), Found s.writer.trace p c ∧
      (∃ i, s.writer.published = some (p, i)) ∧ Upload.Verdict s.hist.received .ok (some c) := by
  obtain ⟨srv, os, s, hreach, hgone, hc, -⟩ := three_bytes_reach
  have hs : s ∈ srv.all := List.mem_append_right _ (by rw [hgone]; exact List.mem_singleton.mpr rfl)
  have hlast := (reach_good (ready_bare 1 3 4) hreach).disk.lasting s hs
  obtain ⟨⟨p, i⟩, hp⟩ := Option.ne_none_iff_exists'.mp (hlast.account.completed_iff.mp hc)
  have hlink : .link p ∈ s.writer.trace :=
    FileWriter.link_mem_trace.mpr ((hlast.calls.published p).mpr ⟨i, hp⟩)
  have hledger := (reach_all (ready_bare 1 3 4) hreach.reachIn ledger_lasts).of_mem hs
  have hfound := hledger.orderly.found_content hlink
  obtain ⟨⟨j, hj, -⟩, -, hverdict⟩ := crash_safe (ready_bare 1 3 4) hreach hs hfound
  exact ⟨s, p, _, hfound, ⟨j, hj⟩, hverdict⟩

end Server

end Nexus
