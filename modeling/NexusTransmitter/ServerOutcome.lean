/-
What becomes of the transfers of a server.

* `Server.one_truthful_ack` — every session queues at most one ACK, sends
  nothing else, and says Ok exactly when it has published its file, which then
  stays;
* `Server.directory_confined` — the server creates its own names in the directory
  and nothing else, touches nothing that was there before, and leaves nothing
  behind but the files published.
-/
import NexusTransmitter.ServerOutputs
import NexusTransmitter.SessionRecords

open Ownership

namespace Nexus

/-! ### One session -/

namespace Session

section Lasting

variable {s : Session} {os : Os} {status : Status} {message : Bytes}

theorem Account.acks_length (h : s.Account os) : s.hist.acks.length ≤ 1 := by
  cases h with
  | silent h => simp [h.acks]
  | answered h => simp [h.acks]

theorem Account.answered_of_mem (h : s.Account os) (hmem : (status, message) ∈ s.hist.acks) :
    s.Answered os status message := by
  cases h with
  | silent h => simp [h.acks] at hmem
  | answered h =>
    rw [h.acks, List.mem_singleton] at hmem
    cases hmem
    exact h

/-- What was sent is a prefix of the ACK, and all of it when draining. -/
theorem Answered.sent_iff (h : s.Answered os status message) (hquiet : s.Quiet) :
    s.hist.sent <+: buildAck status message ∧
      (s.hist.sent = buildAck status message ↔ s.state = .draining) := by
  rw [h.sent, ← h.out]
  refine ⟨List.take_prefix _ _, fun hall => ?_, fun hd => ?_⟩
  · rcases h.state with ⟨hst, -⟩ | ⟨hst, -⟩
    · -- while sending, something is left
      have hlt := hquiet.sending hst
      have hlen := congrArg List.length hall
      rw [List.length_take_of_le (Nat.le_of_lt hlt)] at hlen
      omega
    · exact hst
  · rcases h.state with ⟨hst, -⟩ | ⟨-, -, hpos⟩
    · rw [hst] at hd
      cases hd
    · rw [hpos, List.take_length]

theorem Account.unsent (h : s.Account os) (hacks : s.hist.acks = []) :
    s.hist.sent = [] ∧ s.state = .receiving := by
  cases h with
  | silent h => exact ⟨h.sent, h.state⟩
  | answered h =>
    rw [h.acks] at hacks
    cases hacks

theorem Account.states (h : s.Account os) :
    s.hist.states <+: [.receiving, .sendingAck, .draining] ∧
      s.hist.states.getLast? = some s.state := by
  cases h with
  | silent h =>
    rw [h.states, h.state]
    decide
  | answered h =>
    rcases h.state with ⟨hst, hstates⟩ | ⟨hst, hstates, -⟩ <;> rw [hstates, hst] <;> decide

theorem Account.ok_iff (h : s.Account os) :
    (∃ message, (.ok, message) ∈ s.hist.acks) ↔ s.writer.published ≠ none := by
  rw [← h.completed_iff]
  constructor
  · rintro ⟨message, hmem⟩
    exact (h.answered_of_mem hmem).completed.mpr rfl
  · intro hc
    cases h with
    | silent h => rw [h.completed] at hc; cases hc
    | @answered status message h =>
      obtain rfl := h.completed.mp hc
      exact ⟨message, by rw [h.acks]; exact List.mem_singleton.mpr rfl⟩

end Lasting

end Session

namespace Server

section Outcome

variable {os₀ os : Os} {config : ServerConfig} {l g : ℕ} {srv : Server}

/-- A file that is published stays as it is, whatever the server does next. -/
theorem published_stays (h : Ready os₀ l g) (hreach : Reach config l g os₀ srv os) {s : Session}
    (hs : s ∈ srv.all) {p : Bytes} {i : ℕ} (hp : s.writer.published = some (p, i)) {srv' : Server}
    {os' : Os} (hsteps : Steps (srv, os) (srv', os')) : Os.SameFile i os os' := by
  have hgood := reach_good h hreach
  -- the run from here on, with the sessions there are now as its base
  have hgood' := hsteps.good (b := (srv.all, os))
    { hgood with base := hgood.disk, evolved := .refl }
  have hconfig : srv'.config = srv.config :=
    (reach_config (Relation.ReflTransGen.trans hreach hsteps)).trans (reach_config hreach).symm
  have hevolved := hgood'.evolved
  rw [hconfig] at hevolved
  exact (hgood.disk.unowned_evolves hevolved (hgood.disk.published s hs p i hp).2).1

/-- The name under which a file is published was free at the start: it would
still lead to the old file. -/
theorem published_new (h : Ready os₀ l g) (hreach : Reach config l g os₀ srv os) {s : Session}
    (hs : s ∈ srv.all) {p : Bytes} {i : ℕ} (hp : s.writer.published = some (p, i)) :
    os₀.dir p = none := by
  have hdisk := (reach_good h hreach).disk
  obtain ⟨name, -, hfile, rfl⟩ := (hdisk.lasting s hs).file hp
  by_contra hne
  obtain ⟨j, hj⟩ := Option.ne_none_iff_exists'.mp hne
  have hlt := h.wf.dir _ j hj
  have hj' := ((hdisk.initial j hlt).2.dir _).mpr hj
  rw [(hfile.entry _).mpr rfl] at hj'
  cases hj'
  exact absurd (hdisk.published s hs _ i hp).1 (Nat.not_le.mpr hlt)

/-- **One truthful ACK for each session**, in the table or gone, in every state
that the server reaches:

* it has queued at most one ACK; what it has sent is a prefix of that, and all of
  it exactly when the session is draining;
* its state has only gone on from receiving to sending to draining;
* the ACK says Ok exactly when `link` has published the file;
* a published file stays as it is, whatever happens next;
* and what a session in the table sends in its next call is what the answers of `send` take
  of the ACK, each of what the ones before it have left, up to one that would block. -/
theorem one_truthful_ack (h : Ready os₀ l g) (hreach : Reach config l g os₀ srv os) :
    (∀ s ∈ srv.all,
      s.hist.acks.length ≤ 1 ∧
      (∀ status message, (status, message) ∈ s.hist.acks →
        s.hist.sent <+: buildAck status message ∧
          (s.hist.sent = buildAck status message ↔ s.state = .draining)) ∧
      (s.hist.acks = [] → s.hist.sent = [] ∧ s.state = .receiving) ∧
      s.hist.states <+: [.receiving, .sendingAck, .draining] ∧
      s.hist.states.getLast? = some s.state ∧
      ((∃ message, (.ok, message) ∈ s.hist.acks) ↔ ∃ p, .link p none ∈ s.writer.log)) ∧
    (∀ s ∈ srv.all, ∀ p i, s.writer.published = some (p, i) →
      os.dir p = some i ∧ ∀ srv' os', Steps (srv, os) (srv', os') →
        os'.dir p = some i ∧ os'.data i = os.data i) ∧
    (∀ s ∈ srv.live, ∀ (sys : Sys) (events : BitVec 32) (reads : List ReadAnswer),
      ∃ used, sys.sends = used ++ (s.handle sys events reads).2.2.sends ∧
        (s.handle sys events reads).2.1.hist.sent = s.hist.sent ++
          takenBy used ((s.handle sys events reads).2.1.out.drop s.hist.sent.length) ∧
        (events &&& EPOLLOUT ≠ 0 → Session.Blocked used (s.handle sys events reads))) := by
  have hgood := reach_good h hreach
  refine ⟨fun s hs => ?_, fun s hs p i hp => ?_, fun s hs => ?_⟩
  · have hlast := hgood.disk.lasting s hs
    have hacc := hlast.account
    refine ⟨hacc.acks_length, fun status message hmem => ?_, hacc.unsent, hacc.states.1,
      hacc.states.2, ?_⟩
    · exact (hacc.answered_of_mem hmem).sent_iff hlast.quiet
    · rw [hacc.ok_iff, Session.link_iff_published hlast.calls]
  · obtain ⟨name, -, hfile, rfl⟩ := (hgood.disk.lasting s hs).file hp
    have hdir := (hfile.entry _).mpr rfl
    refine ⟨hdir, fun srv' os' hsteps => ?_⟩
    have hsame := published_stays h hreach hs hp hsteps
    exact ⟨(hsame.dir _).mpr hdir, hsame.data⟩
  · exact Session.handle_sent (hgood.disk.lasting s (List.mem_append_left _ hs)).account.aligned

/-- **The directory of the server**, in every state that it reaches:

* the temporary names that its sessions ever asked for are those of the counter
  one after another, each once, and the other names are timestamps;
* what an event publishes has the first free name at the local time of the event, and
  sweeps and the end publish nothing;
* nobody unlinks what he did not create, and what was there at the start is
  still there as it was;
* there is nothing else but the temporary files of sessions in the table and the
  published files;
* a session that has left the table has no temporary file; it has published one
  file under a new name if it completed, and nothing otherwise;
* no two sessions publish under one name. -/
theorem directory_confined (h : Ready os₀ l g) (hreach : Reach config l g os₀ srv os) :
    (∃ n, (srv.all.flatMap fun s => s.writer.opens).Perm
      (FileWriter.tempNames config.outDir os₀.pid os₀.tempSeq n)) ∧
    (∀ s ∈ srv.all, ∀ p error, .link p error ∈ s.writer.log →
      ∃ t suffix, suffix < 1000 ∧
        p = finalPath config.outDir (candidateName (fileTimestamp t) suffix)) ∧
    ((∀ sys ev, sys.os = os → ∀ p i, some (p, i) ∈ (srv.dispatch sys ev).1.outputs →
        some (p, i) ∈ srv.outputs ∨
          First config.outDir (fileTimestamp sys.localTime) os (some (p, i))) ∧
      (∀ now order, (srv.sweepIdle os now order).1.outputs.Perm srv.outputs) ∧
      ∀ order, (srv.shutdown os order).1.outputs.Perm srv.outputs) ∧
    (∀ s ∈ srv.all, ∀ p, .unlink p ∈ s.writer.log → .open p none ∈ s.writer.log) ∧
    (∀ p i, os₀.dir p = some i → os.dir p = some i ∧ os.data i = os₀.data i) ∧
    (∀ p i, os.dir p = some i ↔ os₀.dir p = some i ∨
      (∃ s ∈ srv.live, ∃ fd, s.writer.Holds os fd i ∧ p = s.writer.tempPath) ∨
      ∃ s ∈ srv.all, s.writer.published = some (p, i)) ∧
    (∀ s ∈ srv.gone, s.writer.fd = none ∧ s.writer.tempPath = [] ∧
      (s.completed = false → s.writer.published = none) ∧
      (s.completed = true → ∃ t suffix i, suffix < 1000 ∧
        s.writer.published =
          some (finalPath config.outDir (candidateName (fileTimestamp t) suffix), i) ∧
        os₀.dir (finalPath config.outDir (candidateName (fileTimestamp t) suffix)) = none ∧
        ∀ p, os.dir p = some i ↔
          p = finalPath config.outDir (candidateName (fileTimestamp t) suffix))) ∧
    srv.all.Pairwise fun s t => ∀ p i j,
      s.writer.published = some (p, i) → t.writer.published ≠ some (p, j) := by
  have hgood := reach_good h hreach
  have hdisk := hgood.disk
  rw [reach_config hreach] at hdisk
  have hnames : ∀ s ∈ srv.all, s.writer.dir = config.outDir := hdisk.dir
  refine ⟨?_, fun s hs p error hp => ?_, ⟨fun sys ev hos p i hp => ?_, sweepIdle_outputs srv os,
    shutdown_outputs srv os⟩, fun s hs => (hdisk.lasting s hs).calls.unlinked,
    fun p i hp => ?_, fun p i => ?_, fun s hs => ?_, ?_⟩
  · obtain ⟨n, hn, -⟩ := hdisk.asked
    exact ⟨n, hn⟩
  · rw [← hnames s hs]
    exact (hdisk.lasting s hs).calls.linked p error hp
  · subst hos
    rw [← reach_config hreach]
    exact dispatch_outputs sys hgood ev hp
  · have hsame := (hdisk.initial i (h.wf.dir p i hp)).2
    exact ⟨(hsame.dir p).mpr hp, hsame.data⟩
  · rw [hdisk.dir_iff h.wf p i]
    refine or_congr_right (or_congr_left ⟨?_, ?_⟩)
    · rintro ⟨s, hs, fd, hh, rfl⟩
      rcases List.mem_append.mp hs with hs | hs
      · exact ⟨s, hs, fd, hh, rfl⟩
      · exact absurd (hgood.gone s hs).2 hh.temp
    · rintro ⟨s, hs, fd, hh, rfl⟩
      exact ⟨s, List.mem_append_left _ hs, fd, hh, rfl⟩
  · have hall : s ∈ srv.all := List.mem_append_right _ hs
    have hlast := hdisk.lasting s hall
    refine ⟨(hgood.gone s hs).1, (hgood.gone s hs).2, fun hc => ?_, fun hc => ?_⟩
    · by_contra hne
      rw [hlast.account.completed_iff.mpr hne] at hc
      cases hc
    · obtain ⟨⟨p, i⟩, hp⟩ := Option.ne_none_iff_exists'.mp (hlast.account.completed_iff.mp hc)
      obtain ⟨name, -, hfile, rfl⟩ := hlast.file hp
      obtain ⟨t, suffix, hlt, rfl⟩ := hfile.name_eq
      rw [hnames s hall] at hp
      have hentry := hfile.entry
      rw [hnames s hall] at hentry
      exact ⟨t, suffix, i, hlt, hp, published_new h hreach hall hp, hentry⟩
  · refine hdisk.distinct.imp_of_mem fun {s t} hs ht hne p i j hp hq => ?_
    obtain ⟨name, -, hfile, hname⟩ := (hdisk.lasting s hs).file hp
    obtain ⟨name', -, hfile', hname'⟩ := (hdisk.lasting t ht).file hq
    have hi := (hfile.entry p).mpr hname
    rw [(hfile'.entry p).mpr hname'] at hi
    cases hi
    exact hne p p i hp hq

end Outcome

/-! ### A run -/

/-- A client sends three bytes, gets its ACK and goes; then the server stops. -/
theorem three_bytes_reach :
    ∃ (srv : Server) (os : Os) (s : Session),
      Reach { outDir := str "in", idleTimeout := 30, maxSessions := 2 } 3 4 (bare 1 3 4) srv os ∧
      srv.gone = [s] ∧ s.completed = true ∧
      s.hist.acks = [(.ok, str "20240101_000000.hex")] := by
  obtain ⟨r₁, h₁⟩ : ∃ r, (create { outDir := str "in", idleTimeout := 30, maxSessions := 2 } 3
      4).acceptConnections (registered (bare 1 3 4) 3 4) [{ fd := 5, now := 0 }] = r := ⟨_, rfl⟩
  obtain ⟨r₂, h₂⟩ : ∃ r, r₁.1.handleSession
      { os := r₁.2
        sends := [.took 1000]
        writes := [.took 3]
        openAnswer := .fd 6
        localTime := { year := 2024, mon := 0, mday := 1, hour := 0, min := 0, sec := 0 }
        now := 1 }
      { fd := 5
        events := EPOLLIN
        reads := [.bytes (buildHello 3 (str "a.txt") ++ buildData [1#8, 2#8, 3#8] ++
          buildEnd (crc32 [1#8, 2#8, 3#8]))] } = r := ⟨_, rfl⟩
  obtain ⟨r₃, h₃⟩ : ∃ r, r₂.1.shutdown r₂.2 [5] = r := ⟨_, rfl⟩
  have hstep₁ := Step.accept
    (create { outDir := str "in", idleTimeout := 30, maxSessions := 2 } 3 4)
    (registered (bare 1 3 4) 3 4) [{ fd := 5, now := 0 }] rfl
  have hstep₂ := Step.event r₁.1
    { os := r₁.2
      sends := [.took 1000]
      writes := [.took 3]
      openAnswer := .fd 6
      localTime := { year := 2024, mon := 0, mday := 1, hour := 0, min := 0, sec := 0 }
      now := 1 }
    { fd := 5
      events := EPOLLIN
      reads := [.bytes (buildHello 3 (str "a.txt") ++ buildData [1#8, 2#8, 3#8] ++
        buildEnd (crc32 [1#8, 2#8, 3#8]))] }
    (by rw [← h₁]; rfl) (by rw [← h₁]; decide) (by rw [← h₁]; decide)
  have hkeys : r₂.1.sessions.keys = [5] := by rw [← h₂, ← h₁]; decide +kernel
  have hstep₃ := Step.shutdown r₂.1 r₂.2 [5] (by rw [← h₂, ← h₁]; decide +kernel)
    (by rw [hkeys])
  rw [h₁] at hstep₁
  rw [h₂] at hstep₂
  rw [h₃] at hstep₃
  have hcompleted : r₃.1.gone.map Session.completed = [true] := by
    rw [← h₃, ← h₂, ← h₁]
    decide +kernel
  have hacks : r₃.1.gone.map (fun s => s.hist.acks) = [[(.ok, str "20240101_000000.hex")]] := by
    rw [← h₃, ← h₂, ← h₁]
    decide +kernel
  have hreach : Reach { outDir := str "in", idleTimeout := 30, maxSessions := 2 } 3 4 (bare 1 3 4)
      r₃.1 r₃.2 := ((Relation.ReflTransGen.single hstep₁).tail hstep₂).tail hstep₃
  obtain ⟨s, hs⟩ := List.length_eq_one_iff.mp (by simpa using congrArg List.length hcompleted)
  rw [hs] at hcompleted hacks
  exact ⟨r₃.1, r₃.2, s, hreach, hs, (List.cons.inj hcompleted).1, (List.cons.inj hacks).1⟩

theorem one_truthful_ack_three_bytes :
    ∃ (srv : Server) (os : Os) (s : Session),
      Reach { outDir := str "in", idleTimeout := 30, maxSessions := 2 } 3 4 (bare 1 3 4) srv os ∧
      s ∈ srv.gone ∧ s.hist.sent <+: buildAck .ok (str "20240101_000000.hex") ∧
      ∃ p, .link p none ∈ s.writer.log := by
  obtain ⟨srv, os, s, hreach, hgone, -, hacks⟩ := three_bytes_reach
  have hmem : s ∈ srv.gone := by rw [hgone]; exact List.mem_singleton.mpr rfl
  obtain ⟨-, hsent, -, -, -, hok⟩ :=
    (one_truthful_ack (ready_bare 1 3 4) hreach).1 s (List.mem_append_right _ hmem)
  have hack : (.ok, str "20240101_000000.hex") ∈ s.hist.acks := by
    rw [hacks]
    exact List.mem_singleton.mpr rfl
  exact ⟨srv, os, s, hreach, hmem, (hsent _ _ hack).1, hok.mp ⟨_, hack⟩⟩

theorem directory_confined_three_bytes :
    ∃ (srv : Server) (os : Os) (s : Session),
      Reach { outDir := str "in", idleTimeout := 30, maxSessions := 2 } 3 4 (bare 1 3 4) srv os ∧
      s ∈ srv.gone ∧ s.writer.tempPath = [] ∧
      ∃ p i, s.writer.published = some (p, i) ∧ ∀ q, os.dir q = some i ↔ q = p := by
  obtain ⟨srv, os, s, hreach, hgone, hc, -⟩ := three_bytes_reach
  have hmem : s ∈ srv.gone := by rw [hgone]; exact List.mem_singleton.mpr rfl
  obtain ⟨-, -, -, -, -, -, hleft, -⟩ := directory_confined (ready_bare 1 3 4) hreach
  obtain ⟨-, htemp, -, hpub⟩ := hleft s hmem
  obtain ⟨t, suffix, i, -, hp, -, hdir⟩ := hpub hc
  exact ⟨srv, os, s, hreach, hmem, htemp, _, i, hp, hdir⟩

end Server

end Nexus
