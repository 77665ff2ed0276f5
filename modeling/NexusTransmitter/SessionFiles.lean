/-
The files of many sessions in one directory.

Whatever a session does, handling an event, being terminated or being destroyed,
is a move confined to its own temporary file (`Session.Moves`). So of any number
of sessions that take turns in one directory it is enough to look at the one
that moves (`Disk.move`): the others, and every file that was there before them,
stay as they are. `Disk` is what then holds of the directory at any time.

* `Disk.move` — one session moves;
* `Disk.dir_iff` — the entries of the directory are the old ones, the temporary
  files in use and the files published.
-/
import NexusTransmitter.SessionUpload

open Ownership

namespace Nexus

namespace Session

/-! ### Moves -/

/-- What a session may do to itself and to the system, whatever it does. -/
structure Moves (s : Session) (os : Os) (s' : Session) (os' : Os) : Prop where
  id : s'.id = s.id
  fd : s'.fd = s.fd
  conn : s'.conn = s.conn
  dir : s'.writer.dir = s.writer.dir
  pid : os'.pid = os.pid
  wf : os'.WF
  asks : ∃ n, s.writer.Asks os s'.writer os' n
  confined : Confined Os.files (s.writer.ino os) os (s'.writer.ino os') os'
  /-- It publishes one file, its own. -/
  published : s'.writer.published = s.writer.published ∨
    (s.writer.published = none ∧ ∃ p i, s'.writer.published = some (p, i) ∧
      (s.writer.ino os = some i ∨ os.nextIno ≤ i))
  /-- Of its files there remain the temporary file and the one published. -/
  entries : ∀ p j, os'.dir p = some j → (s.writer.ino os = some j ∨ os.nextIno ≤ j) →
    s'.writer.ino os' = some j ∨ s'.writer.published = some (p, j)

namespace Moves

variable {s s' s'' : Session} {os os' os'' : Os}

/-- The session changes apart from its writer. -/
theorem of_writer (hwf : os.WF) (hid : s'.id = s.id) (hfd : s'.fd = s.fd)
    (hconn : s'.conn = s.conn) (hwriter : s'.writer = s.writer) : s.Moves os s' os where
  id := hid
  fd := hfd
  conn := hconn
  dir := by rw [hwriter]
  pid := rfl
  wf := hwf
  asks := ⟨0, .zero hwf (by rw [hwriter]) rfl⟩
  confined := by rw [hwriter]; exact .refl _ _ os
  published := .inl (by rw [hwriter])
  entries := by
    intro p j hp hj
    rw [hwriter]
    rcases hj with hj | hj
    · exact .inl hj
    · exact absurd (hwf.dir p j hp) (Nat.not_lt.mpr hj)

theorem refl (hwf : os.WF) : s.Moves os s os := of_writer hwf rfl rfl rfl rfl

/-- Nothing has happened to the files. -/
theorem of_sameFiles (hwf : os.WF) (hsame : os.SameFiles os') : s.Moves os s os' :=
  { refl hwf with
    pid := hsame.pid
    wf := hsame.wf hwf
    asks := ⟨0, .zero hwf rfl hsame.tempSeq⟩
    confined := by
      refine ⟨Nat.le_of_eq hsame.nextIno.symm, fun j _ _ => hsame.file j, fun i hi => .inl ?_⟩
      rw [← hi, FileWriter.ino, FileWriter.ino, hsame.dir]
    entries := by
      intro p j hp hj
      rw [hsame.dir] at hp
      rcases hj with hj | hj
      · rw [FileWriter.ino, hsame.dir]
        exact .inl hj
      · exact absurd (hwf.dir p j hp) (Nat.not_lt.mpr hj) }

/-- The session drops its temporary file. -/
theorem of_dropped (hwf : os.WF) (hdrop : FileWriter.Dropped s.writer os s'.writer os')
    (hid : s'.id = s.id) (hfd : s'.fd = s.fd) (hconn : s'.conn = s.conn) : s.Moves os s' os' where
  id := hid
  fd := hfd
  conn := hconn
  dir := hdrop.dir
  pid := hdrop.step.sockets.pid
  wf := hdrop.step.wf hwf
  asks := hdrop.asks hwf
  confined := by rw [hdrop.closed.ino]; exact hdrop.step.confined
  published := .inl hdrop.published
  entries := by
    intro p j hp hj
    rcases hj with hj | hj
    · exact absurd hp (hdrop.entry j hj p)
    · have hlt := (hdrop.step.wf hwf).dir p j hp
      rw [hdrop.next] at hlt
      exact absurd hlt (Nat.not_lt.mpr hj)

theorem trans (h : s.Moves os s' os') (h' : s'.Moves os' s'' os'') : s.Moves os s'' os'' where
  id := h'.id.trans h.id
  fd := h'.fd.trans h.fd
  conn := h'.conn.trans h.conn
  dir := h'.dir.trans h.dir
  pid := h'.pid.trans h.pid
  wf := h'.wf
  asks := by
    obtain ⟨m, hm⟩ := h.asks
    obtain ⟨n, hn⟩ := h'.asks
    exact ⟨m + n, hm.trans hn h.dir h.pid⟩
  confined := h.confined.trans h'.confined
  published := by
    rcases h'.published with hpub' | ⟨hnone, p, i, hpub', hi⟩
    · rw [hpub']
      exact h.published
    · rcases h.published with hpub | ⟨-, q, j, hpub, -⟩
      · refine .inr ⟨hpub ▸ hnone, p, i, hpub', ?_⟩
        rcases hi with hi | hi
        · exact h.confined.own_or_new i hi
        · exact .inr (Nat.le_trans h.confined.next_le hi)
      · rw [hnone] at hpub
        cases hpub
  entries := by
    intro p j hp hj
    by_cases hmine : s'.writer.ino os' = some j ∨ os'.nextIno ≤ j
    · exact h'.entries p j hp hmine
    -- the second move does not touch the file, so it was published by the first
    rw [not_or, Nat.not_le] at hmine
    have hp' := ((h'.confined.same j hmine.2 hmine.1).dir p).mp hp
    rcases h.entries p j hp' hj with hown | hpub
    · exact absurd hown hmine.1
    · rcases h'.published with hpub' | ⟨hnone, -⟩
      · exact .inr (hpub'.trans hpub)
      · rw [hnone] at hpub
        cases hpub

end Moves

section Step

variable {s s' : Session} {os os' : Os}

/-- A step of a session is a move. -/
theorem Step.moves (hstep : Step s os s' os') (h : s.Inv os) (hwf : os.WF) :
    s.Moves os s' os' := by
  have hfile := (hstep.inv h hwf).2
  have hwf' := hfile.wf hwf
  have hpid := hfile.sockets.pid
  have hconfined := hfile.confined
  cases hstep with
  | receive bs now live => exact .of_writer hwf rfl rfl rfl rfl
  | @started f p hello w os' fd line hw hnext htype hhello hopen =>
    have hino : w.ino os' = some os.nextIno := hopen.holds.ino
    refine ⟨rfl, rfl, rfl, hopen.dir, hpid, hwf', ⟨1, FileWriter.asks_open none hwf hopen.log
      hopen.seq⟩, hconfined, .inl hopen.published, fun q j hq hj => .inl ?_⟩
    -- the only new file is the temporary one
    have hlt := hwf'.dir q j hq
    rw [hopen.next] at hlt
    rcases hj with hj | hj
    · rw [hw.closed.ino] at hj
      cases hj
    · obtain rfl : j = os.nextIno := by omega
      exact hino
  | @stored f p fd i calls hb hnext htype hsize hmax hcalls =>
    have hopens : ({ s.writer with
        written := (s.writer.written + f.data.length) % 2 ^ 64
        log := s.writer.log ++ calls } : FileWriter).opens = s.writer.opens :=
      (FileWriter.harmless_of_isWrite s.writer hcalls).opens rfl
    refine ⟨rfl, rfl, rfl, rfl, hpid, hwf', ⟨0, .zero hwf hopens rfl⟩, hconfined, .inl rfl,
      fun q j hq hj => .inl ?_⟩
    rcases hj with hj | hj
    · exact hj
    · exact absurd (hwf.dir q j hq) (Nat.not_lt.mpr hj)
  | @published f p fd i w os' name hb hnext htype hcrc hsize hpub =>
    have hino := hb.holds.ino
    refine ⟨rfl, rfl, rfl, hpub.dir, hpid, hwf', ⟨0, .zero hwf hpub.opens hpub.seq⟩, hconfined,
      .inr ⟨hb.published, _, i, hpub.published, .inl hino⟩, fun q j hq hj => .inr ?_⟩
    have hlt := hwf'.dir q j hq
    rw [hpub.next] at hlt
    rcases hj with hj | hj
    · obtain rfl : i = j := by simpa [hino] using hj
      rw [(hpub.entry q).mp hq]
      exact hpub.published
    · exact absurd hlt (Nat.not_lt.mpr hj)
  | @refused s₁ f w os' line status message hr hnext hkept hdrop hwhy =>
    exact .of_dropped hwf hdrop hkept.id hkept.fd hkept.conn
  | sent n now live hs hn => exact .of_writer hwf rfl rfl rfl rfl
  | drained now live hs hout => exact .of_writer hwf rfl rfl rfl rfl
  | line line live => exact .of_writer hwf rfl rfl rfl rfl
  | @terminated w os' lines live hdrop => exact .of_dropped hwf hdrop rfl rfl rfl

theorem Steps.moves {a b : Session × Os} (hsteps : Steps a b) (h : a.1.Inv a.2) (hwf : a.2.WF) :
    a.1.Moves a.2 b.1 b.2 := by
  induction hsteps with
  | refl => exact .refl hwf
  | tail hprev hstep ih =>
    obtain ⟨hinv', -, hwf'⟩ := Steps.inv hprev h hwf
    exact ih.trans (hstep.moves hinv' hwf')

end Step

/-! ### What holds of a session for good -/

/-- What holds of a session from its creation on, also after it was
destroyed. -/
structure Lasting (s : Session) (os : Os) : Prop where
  account : s.Account os
  held : s.writer.Closed ∨ ∃ fd i, s.Body os fd i
  quiet : s.Quiet
  calls : s.writer.Calls os.pid
  tracks : s.Tracks

section Lasting

variable {s : Session} {os os' : Os}

theorem Sound.lasting (h : s.Sound os) (ht : s.Tracks) : s.Lasting os where
  account := h.inv.account
  held := by
    cases h.inv with
    | waiting h => exact .inl h.closed
    | body h => exact .inr ⟨_, _, h⟩
    | answered h => exact .inl h.closed
    | aborted h => exact .inl h.closed
  quiet := h.quiet
  calls := h.calls
  tracks := ht

namespace Lasting

/-- Others leave a session as it is. -/
theorem of_others (h : s.Lasting os) (ho : s.Others os os') : s.Lasting os' where
  account := by
    cases h.account with
    | silent h => exact .silent h
    | answered h => exact .answered (h.of_same ho.published)
  held := by
    rcases h.held with hc | ⟨fd, i, hb⟩
    · exact .inl hc
    · exact .inr ⟨fd, i, hb.of_same (ho.own i hb.holds.ino)⟩
  quiet := h.quiet
  calls := by rw [ho.pid]; exact h.calls
  tracks := h.tracks

theorem ino_eq (h : s.Lasting os) (ho : s.Others os os') : s.writer.ino os' = s.writer.ino os := by
  rcases h.held with hc | ⟨fd, i, hb⟩
  · rw [hc.ino, hc.ino]
  · rw [hb.holds.ino, (hb.holds.of_same (ho.own i hb.holds.ino)).ino]

theorem ino_lt (h : s.Lasting os) (hwf : os.WF) {i : ℕ} (hi : s.writer.ino os = some i) :
    i < os.nextIno := by
  rcases h.held with hc | ⟨fd, j, hb⟩
  · rw [hc.ino] at hi
    cases hi
  · obtain rfl : j = i := by simpa [hb.holds.ino] using hi
    exact hwf.dir _ _ hb.holds.entry_temp

/-- A published file is in the directory, and its session has let go of it. -/
theorem file (h : s.Lasting os) {p : Bytes} {i : ℕ} (hp : s.writer.published = some (p, i)) :
    ∃ name, s.Answered os .ok name ∧ s.File os name i ∧ p = finalPath s.writer.dir name := by
  cases h.account with
  | silent h => rw [h.published] at hp; cases hp
  | @answered status message h =>
    have hok : status = .ok := by
      by_contra hne
      rw [h.unpublished hne] at hp
      cases hp
    subst hok
    obtain ⟨j, hj⟩ := h.file rfl
    have heq := hj.published
    rw [hp] at heq
    cases heq
    exact ⟨message, h, hj, rfl⟩

end Lasting

theorem destroy_eq (s : Session) (os : Os) :
    s.destroy os =
      ({ s with writer := (s.writer.abort (os.close s.fd)).1 },
        (s.writer.abort (os.close s.fd)).2) := rfl

/-- **What destroying a session does**: its connection is closed and its
temporary file is gone. -/
theorem Sound.destroyed (h : s.Sound os) (ht : s.Tracks) (hfd : ∀ i, os.fds s.fd ≠ some (.file i))
    {r : Session × Os} (hr : s.destroy os = r) :
    s.Moves os r.1 r.2 ∧ r.1.Lasting r.2 ∧ r.1.writer.Closed ∧
      Os.KeepsSockets (os.close s.fd) r.2 := by
  have hsame : Os.SameFiles os (os.close s.fd) := .close hfd
  have hinv : s.Inv (os.close s.fd) := (h.of_others (others_of_sameFiles hsame)).inv
  have hwf := hsame.wf h.wf
  have hdrop := hinv.abort
  have hclose : s.Moves os s (os.close s.fd) := .of_sameFiles h.wf hsame
  rw [destroy_eq] at hr
  subst hr
  have hpid : (s.writer.abort (os.close s.fd)).2.pid = os.pid := hdrop.step.sockets.pid
  refine ⟨hclose.trans (.of_dropped hwf hdrop rfl rfl rfl), ⟨?_, .inl hdrop.closed,
    ⟨h.quiet.receiving, h.quiet.sending⟩, ?_, ?_⟩, hdrop.closed, hdrop.step.sockets⟩
  · exact hinv.account.dropped hwf hdrop s.terminated s.hist.lines
  · rw [hpid]
    exact hdrop.calls h.calls
  · exact ht.congr rfl rfl rfl rfl rfl fun c hc => hdrop.log.subset hc

end Lasting

/-! ### Turns -/

/-- What a call on a session comes to. -/
structure Turn (s : Session) (os : Os) (s' : Session) (os' : Os) : Prop where
  moves : s.Moves os s' os'
  sound : s'.Sound os'
  tracks : s'.Tracks
  sockets : Os.KeepsSockets os os'

section Turn

variable {s : Session}

theorem Sound.handle_turn {sys : Sys} (h : s.Sound sys.os) (ht : s.Tracks)
    (hlive : s.terminated = false) {events : BitVec 32} {reads : List ReadAnswer}
    {r : Bool × Session × Sys} (hrun : s.handle sys events reads = r) :
    s.Turn sys.os r.2.1 r.2.2.os ∧ (r.1 = true → r.2.1.terminated = false) := by
  have hout := handle_outcome hrun h.inv h.wf hlive h.quiet
  obtain ⟨hinv, hfile, hwf⟩ := hout.steps.inv h.inv h.wf
  exact ⟨⟨hout.steps.moves h.inv h.wf, ⟨hinv, hwf, hout.quiet, hout.steps.calls h.inv h.wf h.calls⟩,
    hout.steps.tracks h.inv h.wf ht, hfile.sockets⟩, hout.live⟩

theorem Sound.terminate_turn {os : Os} (h : s.Sound os) (ht : s.Tracks) {reason : Bytes}
    {r : Session × Os} (hrun : s.terminate os reason = r) : s.Turn os r.1 r.2 := by
  by_cases hlive : s.terminated = false
  · have hstep := terminate_step h.inv hlive reason hrun
    have hcall := Call.terminate s os reason
    rw [hrun] at hcall
    exact ⟨hstep.moves h.inv h.wf, hcall.sound hlive h, hstep.tracks h.inv ht,
      (hstep.inv h.inv h.wf).2.sockets⟩
  · rw [terminate, if_pos (by simpa using hlive)] at hrun
    rw [← hrun]
    exact ⟨.refl h.wf, h, ht, .refl os⟩

end Turn

end Session

/-! ### Many sessions -/

open Session FileWriter

/-- The temporary files of the sessions. -/
def owns (L : List Session) (os : Os) : List (Option ℕ) := L.map fun s => s.writer.ino os

/-- What holds of the directory `outDir` and of all the sessions `L` there have
been since the system was `os₀`: no file has two owners, the files published and
the files there were before belong to nobody, and there are no other entries but
the temporary files. -/
structure Disk (outDir : Bytes) (os₀ : Os) (L : List Session) (os : Os) : Prop where
  wf : os.WF
  pid : os.pid = os₀.pid
  next_le : os₀.nextIno ≤ os.nextIno
  lasting : ∀ s ∈ L, s.Lasting os
  dir : ∀ s ∈ L, s.writer.dir = outDir
  separate : Separate Os.files (owns L os) os
  published : ∀ s ∈ L, ∀ p i, s.writer.published = some (p, i) →
    os₀.nextIno ≤ i ∧ Unowned Os.files (owns L os) os i
  distinct : L.Pairwise fun s t =>
    ∀ p q i, s.writer.published = some (p, i) → t.writer.published ≠ some (q, i)
  initial : ∀ i < os₀.nextIno, Unowned Os.files (owns L os) os i ∧ Os.SameFile i os₀ os
  entries : ∀ p j, os.dir p = some j → j < os₀.nextIno ∨
    ∃ s ∈ L, s.writer.ino os = some j ∨ s.writer.published = some (p, j)
  asked : ∃ n, (L.flatMap fun s => s.writer.opens).Perm
      (tempNames outDir os₀.pid os₀.tempSeq n) ∧ os.tempSeq = (os₀.tempSeq + n) % 2 ^ 64

namespace Disk

variable {outDir : Bytes} {os₀ os os' : Os} {L L' : List Session} {s s' : Session}

theorem nil (hwf : os₀.WF) (outDir : Bytes) : Disk outDir os₀ [] os₀ where
  wf := hwf
  pid := rfl
  next_le := Nat.le_refl _
  lasting := fun _ h => absurd h List.not_mem_nil
  dir := fun _ h => absurd h List.not_mem_nil
  separate := ⟨fun _ h => absurd h List.not_mem_nil, .nil⟩
  published := fun _ h => absurd h List.not_mem_nil
  distinct := .nil
  initial := fun i hi => ⟨⟨hi, List.not_mem_nil⟩, .refl i os₀⟩
  entries := fun p j hp => .inl (hwf.dir p j hp)
  asked := ⟨0, .nil, by rw [Nat.add_zero, Nat.mod_eq_of_lt hwf.seq]⟩

theorem perm (h : Disk outDir os₀ L os) (hperm : L.Perm L') : Disk outDir os₀ L' os where
  wf := h.wf
  pid := h.pid
  next_le := h.next_le
  lasting := fun s hs => h.lasting s (hperm.mem_iff.mpr hs)
  dir := fun s hs => h.dir s (hperm.mem_iff.mpr hs)
  separate := h.separate.perm (hperm.map _)
  published := fun s hs p i hp =>
    ⟨(h.published s (hperm.mem_iff.mpr hs) p i hp).1,
      (h.published s (hperm.mem_iff.mpr hs) p i hp).2.perm (hperm.map _)⟩
  distinct := (hperm.pairwise_iff fun {_ _} hd p q i hp hq => hd q p i hq hp).mp h.distinct
  initial := fun i hi => ⟨(h.initial i hi).1.perm (hperm.map _), (h.initial i hi).2⟩
  entries := fun p j hp => (h.entries p j hp).imp_right fun ⟨s, hs, hj⟩ =>
    ⟨s, hperm.mem_iff.mp hs, hj⟩
  asked := by
    obtain ⟨n, hn, hseq⟩ := h.asked
    exact ⟨n, (hperm.symm.flatMap_right _).trans hn, hseq⟩

/-- Nothing has happened to the files. -/
theorem sockets (h : Disk outDir os₀ L os) (hsame : os.SameFiles os') : Disk outDir os₀ L os' := by
  have hino : ∀ w : FileWriter, w.ino os' = w.ino os := by
    intro w
    rw [FileWriter.ino, FileWriter.ino, hsame.dir]
  have howns : owns L os' = owns L os := List.map_congr_left fun s _ => hino s.writer
  have hunowned : ∀ i, Unowned Os.files (owns L os) os i → Unowned Os.files (owns L os') os' i :=
    fun i hi => ⟨Nat.lt_of_lt_of_eq hi.lt hsame.nextIno.symm, by rw [howns]; exact hi.not_mem⟩
  refine ⟨hsame.wf h.wf, hsame.pid.trans h.pid, by rw [hsame.nextIno]; exact h.next_le,
    fun s hs => (h.lasting s hs).of_others (others_of_sameFiles hsame), h.dir, ?_,
    fun s hs p i hp => ?_, h.distinct, fun i hi => ?_,
    fun p j hp => ?_, ?_⟩
  · rw [howns]
    exact ⟨fun i hi => Nat.lt_of_lt_of_eq (h.separate.lt i hi) hsame.nextIno.symm,
      h.separate.distinct⟩
  · exact ⟨(h.published s hs p i hp).1, hunowned i (h.published s hs p i hp).2⟩
  · exact ⟨hunowned i (h.initial i hi).1, (h.initial i hi).2.trans (hsame.file i)⟩
  · rw [hsame.dir] at hp
    rcases h.entries p j hp with hlt | ⟨s, hs, hj⟩
    · exact .inl hlt
    · exact .inr ⟨s, hs, by rwa [hino]⟩
  · rw [hsame.tempSeq]
    exact h.asked

/-- A new session has no files. -/
theorem enter (h : Disk outDir os₀ L os) (hs : s.Lasting os) (hdir : s.writer.dir = outDir)
    (hclosed : s.writer.Closed) (hpub : s.writer.published = none) (hopens : s.writer.opens = []) :
    Disk outDir os₀ (s :: L) os := by
  have howns : owns (s :: L) os = none :: owns L os := by
    rw [owns, List.map_cons, hclosed.ino]
    rfl
  have hunowned : ∀ i,
      Unowned Os.files (owns L os) os i → Unowned Os.files (owns (s :: L) os) os i :=
    fun i hi => by rw [howns]; exact Unowned.cons_none.mpr hi
  refine ⟨h.wf, h.pid, h.next_le, ?_, ?_, ?_, ?_, ?_, fun i hi => ⟨hunowned i (h.initial i hi).1,
    (h.initial i hi).2⟩, fun p j hp => (h.entries p j hp).imp_right fun ⟨t, ht, hj⟩ =>
      ⟨t, List.mem_cons_of_mem _ ht, hj⟩, ?_⟩
  · exact List.forall_mem_cons.mpr ⟨hs, h.lasting⟩
  · exact List.forall_mem_cons.mpr ⟨hdir, h.dir⟩
  · rw [howns]
    exact Separate.cons_none.mpr h.separate
  · refine List.forall_mem_cons.mpr ⟨fun p i hp => ?_, fun t ht p i hp => ?_⟩
    · rw [hpub] at hp
      cases hp
    · exact ⟨(h.published t ht p i hp).1, hunowned i (h.published t ht p i hp).2⟩
  · refine List.pairwise_cons.mpr ⟨fun t _ p q i hp => ?_, h.distinct⟩
    rw [hpub] at hp
    cases hp
  · rw [List.flatMap_cons, hopens, List.nil_append]
    exact h.asked

/-! ### One session moves -/

/-- What a move of one session is to the others. -/
theorem others (h : Disk outDir os₀ (s :: L) os) (hm : s.Moves os s' os') {t : Session}
    (ht : t ∈ L) : t.Others os os' where
  pid := hm.pid
  wf := fun _ => hm.wf
  own := fun _ hi => h.separate.same_of_mem hm.confined (List.mem_map.mpr ⟨t, ht, hi⟩)
  published := fun p i hp =>
    ((h.published t (List.mem_cons_of_mem _ ht) p i hp).2.step hm.confined).1

theorem owns_others (h : Disk outDir os₀ (s :: L) os) (hm : s.Moves os s' os') :
    owns L os' = owns L os :=
  List.map_congr_left fun t ht =>
    (h.lasting t (List.mem_cons_of_mem _ ht)).ino_eq (h.others hm ht)

/-- A file that the session has just published was its own, or is new. -/
theorem newly_published (h : Disk outDir os₀ (s :: L) os) {i : ℕ}
    (hi : s.writer.ino os = some i ∨ os.nextIno ≤ i) :
    os₀.nextIno ≤ i ∧ some i ∉ owns L os ∧ ¬ Unowned Os.files (owns (s :: L) os) os i := by
  have hunowned : ¬ Unowned Os.files (owns (s :: L) os) os i := by
    intro hu
    rcases hi with hi | hi
    · exact hu.not_mem (by rw [owns, List.map_cons, hi]; exact List.mem_cons_self)
    · exact Nat.not_lt.mpr hi hu.lt
  refine ⟨?_, fun hmem => ?_, hunowned⟩
  · by_contra hlt
    exact hunowned (h.initial i (Nat.not_le.mp hlt)).1
  · rcases hi with hi | hi
    · exact (List.pairwise_cons.mp h.separate.distinct).1 _ hmem i hi rfl
    · exact Nat.not_lt.mpr hi (h.separate.lt i (List.mem_cons_of_mem _ hmem))

/-- **One session moves**, and the directory stays in order. -/
theorem move (h : Disk outDir os₀ (s :: L) os) (hm : s.Moves os s' os') (hs' : s'.Lasting os') :
    Disk outDir os₀ (s' :: L) os' := by
  have howns : owns (s' :: L) os' = s'.writer.ino os' :: owns L os := by
    rw [owns, List.map_cons, ← h.owns_others hm]
    rfl
  have hunowned : ∀ i, Unowned Os.files (owns (s :: L) os) os i →
      Unowned Os.files (owns (s' :: L) os') os' i := by
    intro i hi
    rw [howns]
    exact (hi.step hm.confined).2
  refine ⟨hm.wf, hm.pid.trans h.pid, Nat.le_trans h.next_le hm.confined.next_le, ?_, ?_, ?_, ?_, ?_,
    fun i hi => ?_, fun p j hp => ?_, ?_⟩
  · refine List.forall_mem_cons.mpr ⟨hs', fun t ht => ?_⟩
    exact (h.lasting t (List.mem_cons_of_mem _ ht)).of_others (h.others hm ht)
  · refine List.forall_mem_cons.mpr ⟨hm.dir.trans (h.dir s List.mem_cons_self), fun t ht => ?_⟩
    exact h.dir t (List.mem_cons_of_mem _ ht)
  · rw [howns]
    exact h.separate.step hm.confined fun i hi => hs'.ino_lt hm.wf hi
  · refine List.forall_mem_cons.mpr ⟨fun p i hp => ?_, fun t ht p i hp => ?_⟩
    · rcases hm.published with hsame | ⟨-, q, j, hq, hj⟩
      · rw [hsame] at hp
        have hold := h.published s List.mem_cons_self p i hp
        exact ⟨hold.1, hunowned i hold.2⟩
      · -- the file was the session's own until now
        obtain rfl : i = j := by
          rw [hp] at hq
          cases hq
          rfl
        obtain ⟨hle, hmem, -⟩ := h.newly_published hj
        obtain ⟨name, hans, hfile, -⟩ := hs'.file hp
        refine ⟨hle, hm.wf.dir _ i ((hfile.entry _).mpr rfl), ?_⟩
        rw [howns, hans.closed.ino]
        simpa using hmem
    · have hold := h.published t (List.mem_cons_of_mem _ ht) p i hp
      exact ⟨hold.1, hunowned i hold.2⟩
  · obtain ⟨hhead, htail⟩ := List.pairwise_cons.mp h.distinct
    refine List.pairwise_cons.mpr ⟨fun t ht p q i hp hq => ?_, htail⟩
    rcases hm.published with hsame | ⟨-, p', j, hp', hj⟩
    · exact hhead t ht p q i (hsame ▸ hp) hq
    · obtain rfl : i = j := by
        rw [hp] at hp'
        cases hp'
        rfl
      exact (h.newly_published hj).2.2 (h.published t (List.mem_cons_of_mem _ ht) q i hq).2
  · obtain ⟨hold, hsame⟩ := h.initial i hi
    exact ⟨hunowned i hold, hsame.trans (hold.step hm.confined).1⟩
  · by_cases hmine : s.writer.ino os = some j ∨ os.nextIno ≤ j
    · exact .inr ⟨s', List.mem_cons_self, hm.entries p j hp hmine⟩
    -- a file that is not the session's
    rw [not_or, Nat.not_le] at hmine
    have hp' := ((hm.confined.same j hmine.2 hmine.1).dir p).mp hp
    refine (h.entries p j hp').imp_right fun ⟨t, ht, hj⟩ => ?_
    rcases List.mem_cons.mp ht with rfl | ht
    · have hpub := hj.resolve_left hmine.1
      refine ⟨s', List.mem_cons_self, .inr ?_⟩
      rcases hm.published with hsame | ⟨hnone, -⟩
      · exact hsame.trans hpub
      · rw [hnone] at hpub
        cases hpub
    · refine ⟨t, List.mem_cons_of_mem _ ht, hj.imp_left fun hj => ?_⟩
      rw [(h.lasting t (List.mem_cons_of_mem _ ht)).ino_eq (h.others hm ht)]
      exact hj
  · obtain ⟨n, hn, hseq⟩ := h.asked
    obtain ⟨m, hm', hseq'⟩ := hm.asks
    refine ⟨n + m, ?_, by rw [hseq', hseq, Nat.mod_add_mod, Nat.add_assoc]⟩
    rw [h.dir s List.mem_cons_self, h.pid, hseq] at hm'
    rw [tempNames_add, List.flatMap_cons, hm', List.append_assoc]
    refine (List.perm_append_comm.append_left _).trans ?_
    rw [← List.append_assoc, ← List.flatMap_cons (f := fun s : Session => s.writer.opens)]
    exact hn.append_right _

/-! ### Runs of many sessions -/

end Disk

/-- What may happen next to a number of sessions that share the directory
`outDir`: one of them moves, a new one comes, or it is not about files. The order
of the sessions does not matter. -/
inductive Evolve (outDir : Bytes) : List Session × Os → List Session × Os → Prop
  | perm {L L' : List Session} {os : Os} (h : L.Perm L') : Evolve outDir (L, os) (L', os)
  | sockets {L : List Session} {os os' : Os} (h : os.SameFiles os') :
      Evolve outDir (L, os) (L, os')
  | enter {L : List Session} {os : Os} (id fd conn : ℕ) (now : ℤ) :
      Evolve outDir (L, os) (Session.create id fd conn outDir now :: L, os)
  | move {L : List Session} {os os' : Os} {s s' : Session} (hm : s.Moves os s' os')
      (hs' : s'.Lasting os') : Evolve outDir (s :: L, os) (s' :: L, os')

/-- A run of many sessions. -/
def Evolves (outDir : Bytes) : List Session × Os → List Session × Os → Prop :=
  Relation.ReflTransGen (Evolve outDir)

namespace Disk

variable {outDir : Bytes} {os₀ : Os} {a b : List Session × Os}

theorem evolve (h : Disk outDir os₀ a.1 a.2) (he : Evolve outDir a b) :
    Disk outDir os₀ b.1 b.2 := by
  cases he with
  | perm hperm => exact h.perm hperm
  | sockets hsame => exact h.sockets hsame
  | enter id fd conn now =>
    have hsound := Session.create_sound id fd conn outDir now h.wf
    exact h.enter (hsound.lasting (Session.create_tracks id fd conn outDir now)) rfl ⟨rfl, rfl⟩
      rfl rfl
  | move hm hs' => exact h.move hm hs'

theorem evolves (h : Disk outDir os₀ a.1 a.2) (he : Evolves outDir a b) :
    Disk outDir os₀ b.1 b.2 := by
  induction he with
  | refl => exact h
  | tail _ hstep ih => exact ih.evolve hstep

/-- A file that belongs to nobody is never touched again. -/
theorem unowned_evolve (h : Disk outDir os₀ a.1 a.2) (he : Evolve outDir a b) {i : ℕ}
    (hi : Unowned Os.files (owns a.1 a.2) a.2 i) :
    Os.SameFile i a.2 b.2 ∧ Unowned Os.files (owns b.1 b.2) b.2 i := by
  cases he with
  | perm hperm => exact ⟨.refl i _, hi.perm (hperm.map _)⟩
  | @sockets L os os' hsame =>
    refine ⟨hsame.file i, Nat.lt_of_lt_of_eq hi.lt hsame.nextIno.symm, fun hmem => hi.not_mem ?_⟩
    obtain ⟨s, hs, hino⟩ := List.mem_map.mp hmem
    refine List.mem_map.mpr ⟨s, hs, ?_⟩
    rw [← hino, FileWriter.ino, FileWriter.ino, hsame.dir]
  | enter id fd conn now => exact ⟨.refl i _, Unowned.cons_none.mpr hi⟩
  | @move L os os' s s' hm hs' =>
    obtain ⟨hsame, hun⟩ := hi.step hm.confined
    refine ⟨hsame, ?_⟩
    rw [owns, List.map_cons] at *
    rwa [← owns, ← h.owns_others hm] at hun

theorem unowned_evolves (h : Disk outDir os₀ a.1 a.2) (he : Evolves outDir a b) {i : ℕ}
    (hi : Unowned Os.files (owns a.1 a.2) a.2 i) :
    Os.SameFile i a.2 b.2 ∧ Unowned Os.files (owns b.1 b.2) b.2 i := by
  induction he with
  | refl => exact ⟨.refl i _, hi⟩
  | tail hprev hstep ih =>
    obtain ⟨hsame, hun⟩ := (h.evolves hprev).unowned_evolve hstep ih.2
    exact ⟨ih.1.trans hsame, hun⟩

variable {os : Os} {L : List Session}

/-! ### The directory -/

/-- What is in the directory: the entries there were before, the temporary files
in use, and the files published. -/
theorem dir_iff (h : Disk outDir os₀ L os) (hwf₀ : os₀.WF) (p : Bytes) (j : ℕ) :
    os.dir p = some j ↔ os₀.dir p = some j ∨
      (∃ s ∈ L, ∃ fd, s.writer.Holds os fd j ∧ p = s.writer.tempPath) ∨
      ∃ s ∈ L, s.writer.published = some (p, j) := by
  constructor
  · intro hp
    rcases h.entries p j hp with hj | ⟨s, hs, hj | hj⟩
    · exact .inl (((h.initial j hj).2.dir p).mp hp)
    · rcases (h.lasting s hs).held with hc | ⟨fd, i, hb⟩
      · rw [hc.ino] at hj
        cases hj
      · obtain rfl : i = j := by simpa [hb.holds.ino] using hj
        exact .inr (.inl ⟨s, hs, fd, hb.holds, (hb.holds.entry p).mp hp⟩)
    · exact .inr (.inr ⟨s, hs, hj⟩)
  · rintro (hp | ⟨s, -, fd, hh, rfl⟩ | ⟨s, hs, hp⟩)
    · exact ((h.initial j (hwf₀.dir p j hp)).2.dir p).mpr hp
    · exact hh.entry_temp
    · obtain ⟨name, -, hfile, rfl⟩ := (h.lasting s hs).file hp
      exact (hfile.entry _).mpr rfl

end Disk

end Nexus
