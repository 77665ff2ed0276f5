/-
What the server publishes.

A file is published under the local time of its `commit`, and under the first number that is
free in this second.  A commit is the work of one session at one event; what the server
publishes in a step, it publishes at the time of the event.

* `FileWriter.commit_first` — `commit` takes the first name that is not in the directory;
* `Session.handle_publishes` — an event publishes a file under the time of the event, if at all;
* `Server.dispatch_outputs`, `sweepIdle_outputs`, `shutdown_outputs` — the published files of
  all sessions, after a step of the server and before it.
-/
import NexusTransmitter.ServerRun
import NexusTransmitter.SessionTwins
import NexusTransmitter.SessionWriter

namespace Nexus

/-! ### The first free name -/

/-- The `k`-th final name with a stamp. -/
def finalName (dir stamp : Bytes) (k : ℕ) : Bytes := finalPath dir (candidateName stamp k)

/-- The file was given a name with the stamp, and all names before it are taken. -/
def First (dir stamp : Bytes) (os : Os) (published : Option (Bytes × ℕ)) : Prop :=
  ∃ k < 1000, ∃ i, published = some (finalName dir stamp k, i) ∧
    ∀ j < k, (os.dir (finalName dir stamp j)).isSome

namespace FileWriter

variable {w : FileWriter} {os : Os} {stamp : Bytes} {faults : ℕ → Option Bytes} {now : Tm}

/-- What a `commit` leaves. -/
structure Named (w : FileWriter) (os : Os) (stamp : Bytes) (r : CommitResult × FileWriter × Os) :
    Prop where
  dir : r.2.1.dir = w.dir
  failed : r.1.error ≠ [] → r.2.1.published = w.published
  done : r.1.error = [] → First w.dir stamp os r.2.1.published

theorem linkLoop_first {left suffix : ℕ} (hleft : suffix + left = 1000)
    (htaken : ∀ j < suffix, (os.dir (finalName w.dir stamp j)).isSome) :
    w.Named os stamp (linkLoop stamp faults w os left suffix) := by
  induction left generalizing w suffix with
  | zero =>
    rw [linkLoop]
    exact ⟨rfl, fun _ => rfl, fun h => absurd h (by simp)⟩
  | succ left ih =>
    rw [linkLoop]
    rcases Os.link_cases os w.tempPath (finalPath w.dir (candidateName stamp suffix))
      (faults suffix) with ⟨i, -, -, hlink⟩ | ⟨-, hold, hlink⟩ | ⟨text, hlink⟩ <;> rw [hlink]
    · -- the name is free
      exact ⟨rfl, fun h => absurd rfl h, fun _ => ⟨suffix, by omega, i, rfl, htaken⟩⟩
    · -- the name is taken, so the next one is tried
      set w₁ : FileWriter := { w with
        log := w.log ++ [.link (finalPath w.dir (candidateName stamp suffix))
          (some (str "File exists"))] } with hw₁
      have hrest : w₁.Named os stamp (linkLoop stamp faults w₁ os left (suffix + 1)) := by
        refine ih (by omega) fun j hj => ?_
        rcases Nat.lt_succ_iff_lt_or_eq.mp hj with hj | rfl
        · exact htaken j hj
        · exact hold
      exact ⟨hrest.dir, hrest.failed, hrest.done⟩
    · exact ⟨rfl, fun _ => rfl, fun h => absurd h (by simp)⟩

theorem commit_first (w : FileWriter) (os : Os) (fsyncFault : Option Bytes) (now : Tm)
    (faults : ℕ → Option Bytes) :
    w.Named os (fileTimestamp now) (w.commit os fsyncFault now faults) := by
  rw [commit]
  split
  · exact ⟨rfl, fun _ => rfl, fun h => absurd h (by simp)⟩
  split
  · exact ⟨rfl, fun _ => rfl, fun h => absurd h (by simp)⟩
  · rename_i fd _ _
    set w₁ : FileWriter := { w with fd := none, log := w.log ++ [.fsync none, .close] } with hw₁
    have hloop : w₁.Named (os.close fd) (fileTimestamp now)
        (linkLoop (fileTimestamp now) faults w₁ (os.close fd) 1000 0) :=
      linkLoop_first rfl fun j hj => absurd hj (Nat.not_lt_zero j)
    exact ⟨hloop.dir, hloop.failed, hloop.done⟩

end FileWriter

namespace Session

variable {s s₁ s₂ : Session} {sys sys₁ : Sys} {r : Bool × Session × Sys}

/-! ### One event -/

/-- What an event publishes, if anything: the first free name at the time of the event. -/
structure Publishes (s : Session) (sys : Sys) (s' : Session) : Prop where
  dir : s'.writer.dir = s.writer.dir
  published : s'.writer.published = s.writer.published ∨
    First s.writer.dir (fileTimestamp sys.localTime) sys.os s'.writer.published

/-- What a handler publishes.  As long as it goes on it has published nothing, and no final
name has come up. -/
structure Names (s : Session) (sys : Sys) (r : Bool × Session × Sys) : Prop
    extends Publishes s sys r.2.1 where
  time : r.2.2.localTime = sys.localTime
  goes_on : r.1 = true → r.2.1.writer.published = s.writer.published ∧
    ∀ stamp j, (r.2.2.os.dir (finalName s.writer.dir stamp j)).isSome →
      (sys.os.dir (finalName s.writer.dir stamp j)).isSome

theorem Publishes.of_writer (hwriter : s₁.writer = s.writer) : Publishes s sys s₁ where
  dir := by rw [hwriter]
  published := .inl (by rw [hwriter])

/-- Then the writer has nothing to do any more. -/
theorem Publishes.congr (h : Publishes s sys s₁) (hwriter : s₂.writer = s₁.writer) :
    Publishes s sys s₂ where
  dir := by rw [hwriter]; exact h.dir
  published := by rw [hwriter]; exact h.published

namespace Names

/-- The writer has nothing to do with it. -/
theorem of_writer {b : Bool} (hwriter : s₁.writer = s.writer) : Names s sys (b, s₁, sys) where
  toPublishes := .of_writer hwriter
  time := rfl
  goes_on := fun _ => ⟨by rw [hwriter], fun _ _ h => h⟩

/-- The handler stops without having published anything. -/
theorem of_stop (hdir : s₁.writer.dir = s.writer.dir)
    (hpub : s₁.writer.published = s.writer.published) (htime : sys₁.localTime = sys.localTime) :
    Names s sys (false, s₁, sys₁) where
  dir := hdir
  published := .inl hpub
  time := htime
  goes_on := fun h => by cases h

theorem of_failed {status : Status} {message : Bytes} (hdir : s₁.writer.dir = s.writer.dir)
    (hpub : s₁.writer.published = s.writer.published) (htime : sys₁.localTime = sys.localTime) :
    Names s sys (s₁.failed sys₁ status message) := by
  obtain ⟨hdir', hpub'⟩ := FileWriter.abort_keeps s₁.writer sys₁.os
  exact of_stop (hdir'.trans hdir) (hpub'.trans hpub) htime

theorem failed {status : Status} {message : Bytes} : Names s sys (s.failed sys status message) :=
  of_failed rfl rfl rfl

/-- A handler that has gone on, and what comes next. -/
theorem publishes (h : Names s sys (true, s₁, sys₁)) (h' : Publishes s₁ sys₁ s₂) :
    Publishes s sys s₂ := by
  obtain ⟨hpub, hnames⟩ := h.goes_on rfl
  have hdir : s₁.writer.dir = s.writer.dir := h.dir
  have htime : sys₁.localTime = sys.localTime := h.time
  refine ⟨h'.dir.trans hdir, ?_⟩
  rcases h'.published with hpub' | ⟨k, hk, i, hpub', htaken⟩
  · exact .inl (hpub'.trans hpub)
  · rw [hdir, htime] at hpub'
    rw [hdir, htime] at htaken
    exact .inr ⟨k, hk, i, hpub', fun j hj => hnames _ j (htaken j hj)⟩

theorem trans (h : Names s sys (true, s₁, sys₁)) (h' : Names s₁ sys₁ r) : Names s sys r where
  toPublishes := h.publishes h'.toPublishes
  time := h'.time.trans h.time
  goes_on := by
    intro hr
    obtain ⟨hpub, hnames⟩ := h.goes_on rfl
    obtain ⟨hpub', hnames'⟩ := h'.goes_on hr
    have hdir : s₁.writer.dir = s.writer.dir := h.dir
    rw [hdir] at hnames'
    exact ⟨hpub'.trans hpub, fun stamp j hj => hnames stamp j (hnames' stamp j hj)⟩

end Names

theorem onHello_names (s : Session) (sys : Sys) (data : Bytes) :
    Names s sys (s.onHello sys data) := by
  rw [onHello]
  split
  · exact .failed
  split
  · exact .failed
  rename_i hello _
  obtain ⟨hdir, hpub⟩ := open_keeps s.writer sys.os sys.openAnswer
  dsimp only
  split
  · exact .of_failed hdir hpub rfl
  rename_i herr
  refine ⟨⟨hdir, .inl hpub⟩, rfl, fun _ => ⟨hpub, fun stamp j hj => ?_⟩⟩
  -- the name that has come up is a temporary one
  rcases FileWriter.open_cases s.writer sys.os sys.openAnswer with
    ⟨text, hne, -⟩ | ⟨fd, -, -, hrun⟩
  · exact absurd hne herr
  · change ((s.writer.«open» sys.os sys.openAnswer).2.2.dir _).isSome at hj
    have hne := (tempName_ne_final s.writer.dir stamp sys.os.pid sys.os.tempSeq j).symm
    rw [hrun, Os.createFile_dir] at hj
    rwa [finalName, if_neg hne] at hj

theorem onData_names (s : Session) (sys : Sys) (data : Bytes) :
    Names s sys (s.onData sys data) := by
  rw [onData]
  split
  · exact .failed
  split
  · exact .failed
  obtain ⟨hdir, hpub⟩ := write_keeps s.writer sys.os data sys.writes
  dsimp only
  split
  · exact .of_failed hdir hpub rfl
  · refine ⟨⟨hdir, .inl hpub⟩, rfl, fun _ => ⟨hpub, fun stamp j hj => ?_⟩⟩
    change ((s.writer.write sys.os data sys.writes).2.2.2.dir _).isSome at hj
    rwa [(FileWriter.write_dir s.writer sys.os data sys.writes).2] at hj

/-- After an END the handler stops. -/
theorem onEnd_names (s : Session) (sys : Sys) (data : Bytes) :
    Names s sys (false, (s.onEnd sys data).2) := by
  rw [onEnd]
  split
  · exact .failed
  split
  · exact .failed
  split
  · exact .failed
  split
  · exact .failed
  have hcommit := s.writer.commit_first sys.os sys.fsyncFault sys.localTime sys.linkFaults
  dsimp only
  split
  · rename_i herr
    exact .of_failed hcommit.dir (hcommit.failed herr) rfl
  · rename_i herr
    exact ⟨⟨hcommit.dir, .inr (hcommit.done (not_not.mp herr))⟩, rfl, fun h => by cases h⟩

theorem onFrame_names (s : Session) (sys : Sys) (f : Frame) : Names s sys (s.onFrame sys f) := by
  rw [onFrame]
  split
  · exact s.onHello_names sys f.data
  · exact s.onData_names sys f.data
  · exact s.onEnd_names sys f.data
  · exact .failed

theorem processFrames_names (s : Session) (sys : Sys) (fuel : ℕ) :
    Names s sys (s.processFrames sys fuel) := by
  induction fuel generalizing s sys with
  | zero => exact .of_writer rfl
  | succ fuel ih =>
    rw [processFrames]
    split
    · exact .of_writer rfl
    · exact .failed
    · rename_i f q _
      have htake : Names s sys (true, s.take f q, sys) := .of_writer rfl
      have hframe := htake.trans ((s.take f q).onFrame_names sys f)
      split <;> rename_i hrun <;> rw [hrun] at hframe
      · exact hframe.trans (ih _ _)
      · exact hframe

theorem terminate_publishes (s : Session) (sys : Sys) (reason : Bytes) :
    Publishes s sys (s.terminates sys reason).2.1 := by
  show Publishes s sys (s.terminate sys.os reason).1
  rw [terminate]
  split
  · exact .of_writer rfl
  · obtain ⟨hdir, hpub⟩ := FileWriter.abort_keeps s.writer sys.os
    exact ⟨hdir, .inl hpub⟩

theorem onReadable_publishes (s : Session) (sys : Sys) (reads : List ReadAnswer) :
    Publishes s sys (s.onReadable sys reads).2.1 := by
  induction reads generalizing s sys with
  | nil => exact .of_writer rfl
  | cons ans reads ih =>
    match ans with
    | .eagain => exact .of_writer rfl
    | .eintr => exact ih s sys
    | .err text => exact s.terminate_publishes sys _
    | .bytes [] =>
      rw [onReadable]
      split
      · exact .of_writer rfl
      split
      · exact .of_writer rfl
      · exact s.terminate_publishes sys _
    | .bytes (b :: bs) =>
      have hreceive : Names s sys (true, s.receive (b :: bs) sys.now, sys) :=
        .of_writer rfl
      rw [onReadable]
      split
      · have hframes := hreceive.trans ((s.receive (b :: bs) sys.now).processFrames_names sys
          (s.receive (b :: bs) sys.now).parser.buffered)
        split <;> rename_i hrun <;> rw [hrun] at hframes
        · exact hframes.publishes (ih _ _)
        · split
          · exact hframes.toPublishes.congr onWritable_writer.1
          · exact hframes.toPublishes
      · exact hreceive.publishes (ih _ _)

/-- **What one event publishes**: nothing, or a file under the first name that is free at the
time of the event. -/
theorem handle_publishes (s : Session) (sys : Sys) (events : BitVec 32)
    (reads : List ReadAnswer) : Publishes s sys (s.handle sys events reads).2.1 := by
  rw [handle]
  split
  · split
    · exact s.terminate_publishes sys _
    · exact .of_writer rfl
  have hread : Publishes s sys (if events &&& EPOLLIN ≠ 0 then s.onReadable sys reads
      else (true, s, sys)).2.1 := by
    split
    · exact s.onReadable_publishes sys reads
    · exact .of_writer rfl
  split <;> rename_i hr <;> rw [hr] at hread
  · exact hread
  · split
    · exact hread.congr onWritable_writer.1
    · exact hread

end Session

open Session

namespace Server

/-! ### What the sessions have published -/

section Outputs

variable {os₀ os : Os} {b : List Session × Os} {srv : Server} {e e' : Entry} {fd : ℕ}
  {o : Option (Bytes × ℕ)}

/-- What each session there has been has published. -/
def outputs (srv : Server) : List (Option (Bytes × ℕ)) := srv.all.map fun s => s.writer.published

theorem mem_outputs : o ∈ srv.outputs ↔ ∃ s ∈ srv.all, s.writer.published = o := List.mem_map

theorem terminate_published (s : Session) (os : Os) (reason : Bytes) :
    (s.terminate os reason).1.writer.published = s.writer.published := by
  rw [terminate]
  split
  · rfl
  · exact (FileWriter.abort_keeps s.writer os).2

theorem destroy_published (s : Session) (os : Os) :
    (s.destroy os).1.writer.published = s.writer.published :=
  (FileWriter.abort_keeps s.writer (os.close s.fd)).2

/-- A session of the table is replaced. -/
theorem update_outputs (he : srv.sessions.lookup fd = some e) :
    (srv.update fd e').outputs ⊆ e'.session.writer.published :: srv.outputs := by
  have hperm := (all_perm he).map fun s => s.writer.published
  intro o ho
  have ho' : o ∈ (e'.session :: (srv.others fd ++ srv.gone)).map fun s => s.writer.published := ho
  rw [List.map_cons, List.mem_cons] at ho'
  refine List.mem_cons.mpr (ho'.imp_right fun ho' => hperm.mem_iff.mpr ?_)
  rw [List.map_cons]
  exact List.mem_cons_of_mem _ ho'

/-- A session leaves the table, and has published what it had. -/
theorem erase_outputs (he : srv.sessions.lookup fd = some e) {s : Session}
    (hpub : s.writer.published = e.session.writer.published) :
    Server.outputs { srv with sessions := srv.sessions.erase fd, gone := s :: srv.gone } |>.Perm
      srv.outputs := by
  refine List.Perm.trans ?_ ((all_perm he).map fun s => s.writer.published).symm
  show ((srv.others fd ++ s :: srv.gone).map fun s => s.writer.published).Perm _
  rw [List.map_append, List.map_cons, hpub, List.map_cons, List.map_append]
  exact List.perm_middle

theorem closeSession_outputs (srv : Server) (os : Os) (fd : ℕ) (reason : Bytes) :
    (srv.closeSession os fd reason).1.outputs.Perm srv.outputs := by
  rw [closeSession]
  split
  · exact .refl _
  · rename_i e he
    exact erase_outputs he ((destroy_published _ _).trans (terminate_published e.session os reason))

theorem eraseSession_outputs (srv : Server) (os : Os) (fd : ℕ) :
    (srv.eraseSession os fd).1.outputs.Perm srv.outputs := by
  rw [eraseSession]
  split
  · exact .refl _
  · rename_i e he
    exact erase_outputs he (destroy_published e.session os)

theorem closeSessions_outputs (srv : Server) (os : Os) (fds : List ℕ) (reason : Bytes) :
    (fds.foldl (fun (p : Server × Os) fd => p.1.closeSession p.2 fd reason)
      (srv, os)).1.outputs.Perm srv.outputs := by
  induction fds generalizing srv os with
  | nil => exact .refl _
  | cons fd fds ih => exact (ih _ _).trans (closeSession_outputs srv os fd reason)

theorem clear_outputs (srv : Server) (os : Os) (fds : List ℕ) :
    (fds.foldl (fun (p : Server × Os) fd => p.1.eraseSession p.2 fd)
      (srv, os)).1.outputs.Perm srv.outputs := by
  induction fds generalizing srv os with
  | nil => exact .refl _
  | cons fd fds ih => exact (ih _ _).trans (eraseSession_outputs srv os fd)

theorem drop_outputs (srv : Server) (os : Os) (s : Session) :
    (srv.drop os s).1.outputs ⊆ s.writer.published :: srv.outputs := by
  intro o ho
  have ho' : o ∈ (srv.live ++ (s.destroy os).1 :: srv.gone).map fun s => s.writer.published := ho
  rw [List.map_append, List.map_cons, destroy_published] at ho'
  rw [outputs, all, List.map_append]
  exact List.perm_middle.mem_iff.mp ho'

/-- A new session has published nothing. -/
theorem acceptOne_outputs (srv : Server) (os : Os) (c : Incoming) (conn : ℕ) :
    (srv.acceptOne os c conn).1.outputs ⊆ none :: srv.outputs := by
  rw [acceptOne]
  split
  · exact List.subset_cons_self none srv.outputs
  dsimp only
  split
  · exact drop_outputs _ _ _
  rw [emplace]
  split
  · exact drop_outputs _ _ _
  · -- the session is in the table
    rename_i hnew
    rw [outputs, all]
    dsimp only
    rw [live_update_new _ (AList.lookup_eq_none.mpr hnew)]
    exact List.Subset.refl _

theorem acceptConnections_outputs (srv : Server) (os : Os) (cs : List Incoming) :
    (srv.acceptConnections os cs).1.outputs ⊆ none :: srv.outputs := by
  induction cs generalizing srv os with
  | nil => exact List.subset_cons_self none srv.outputs
  | cons c cs ih =>
    rw [acceptConnections]
    split
    · exact List.subset_cons_self none srv.outputs
    · exact List.Subset.trans (ih _ _)
        (List.cons_subset.mpr ⟨List.mem_cons_self, acceptOne_outputs srv _ c _⟩)

/-- The session that takes the event may publish a file, and no other session does. -/
theorem handleSession_outputs (sys : Sys) (h : Good os₀ b srv sys.os none) (ev : Event) :
    ∀ o ∈ (srv.handleSession sys ev).1.outputs, o ∈ srv.outputs ∨
      First srv.config.outDir (fileTimestamp sys.localTime) sys.os o := by
  rw [handleSession]
  split
  · exact fun o ho => .inl ho
  rename_i e he
  have hmem : e.session ∈ srv.all := List.mem_append_left _ (mem_live.mpr ⟨ev.fd, e, he, rfl⟩)
  have hhandle := e.session.handle_publishes sys ev.events ev.reads
  have hnew : ∀ o ∈ (e.session.handle sys ev.events ev.reads).2.1.writer.published :: srv.outputs,
      o ∈ srv.outputs ∨ First srv.config.outDir (fileTimestamp sys.localTime) sys.os o := by
    intro o ho
    rcases List.mem_cons.mp ho with rfl | ho
    · rw [← h.disk.dir _ hmem]
      refine hhandle.published.imp_left fun hpub => ?_
      rw [hpub]
      exact mem_outputs.mpr ⟨_, hmem, rfl⟩
    · exact .inl ho
  split <;> rename_i s sys' hrun <;> rw [hrun] at hnew
  · exact fun o ho => hnew o (update_outputs he ((closeSession_outputs _ _ _ _).mem_iff.mp ho))
  dsimp only
  split
  · split
    · exact fun o ho => hnew o (update_outputs he ((closeSession_outputs _ _ _ _).mem_iff.mp ho))
    · intro o ho
      rcases List.mem_cons.mp (update_outputs (AList.lookup_insert _) ho) with rfl | ho
      · exact hnew _ List.mem_cons_self
      · exact hnew o (update_outputs he ho)
  · exact fun o ho => hnew o (update_outputs he ho)

/-- **What a step publishes**: one file at most, under the first name that is free at the time
of the event. -/
theorem dispatch_outputs (sys : Sys) (h : Good os₀ b srv sys.os none) (ev : Event) {p : Bytes}
    {i : ℕ} (hp : some (p, i) ∈ (srv.dispatch sys ev).1.outputs) : some (p, i) ∈ srv.outputs ∨
      First srv.config.outDir (fileTimestamp sys.localTime) sys.os (some (p, i)) := by
  rw [dispatch] at hp
  split at hp
  · rcases List.mem_cons.mp (acceptConnections_outputs srv sys.os ev.incoming hp) with hnone | hold
    · cases hnone
    · exact .inl hold
  split at hp
  · exact .inl hp
  · exact handleSession_outputs sys h ev _ hp

/-- Who is idle publishes nothing. -/
theorem sweepIdle_outputs (srv : Server) (os : Os) (now : ℤ) (order : List ℕ) :
    (srv.sweepIdle os now order).1.outputs.Perm srv.outputs :=
  closeSessions_outputs srv os _ _

/-- The end publishes nothing. -/
theorem shutdown_outputs (srv : Server) (os : Os) (order : List ℕ) :
    (srv.shutdown os order).1.outputs.Perm srv.outputs :=
  clear_outputs srv os order

end Outputs

end Server

end Nexus
