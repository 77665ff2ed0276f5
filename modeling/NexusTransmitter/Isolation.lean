/-
Sessions are isolated.

The inputs of the reactor (`Input`) come in any order, for any number of connections.
From them every session's own events are taken (`own`) and given to a server that has
this session alone. The descriptors, the directory, the counter of the temporary names
and the table that the session shared with others are not to be told from the result,
but for the names of its files.

* `Server.mirrored` — every session has gone as it goes alone;
* `Server.contents_eq` — the files that the server has published are those that its
  sessions publish alone;
* `Server.sessions_isolated` — what follows for two orders of the same events.
-/
import NexusTransmitter.FileNames
import NexusTransmitter.ServerFate

namespace Nexus

/-- What the system answers while an event is handled. -/
structure Answers where
  sends : List SendAnswer := []
  writes : List WriteAnswer := []
  openAnswer : OpenAnswer
  fsyncFault : Option Bytes := none
  linkFaults : ℕ → Option Bytes := fun _ => none
  localTime : Tm
  now : ℤ
  errno : Bytes := str "Success"

def Answers.on (a : Answers) (os : Os) : Sys where
  os := os
  sends := a.sends
  writes := a.writes
  openAnswer := a.openAnswer
  fsyncFault := a.fsyncFault
  linkFaults := a.linkFaults
  localTime := a.localTime
  now := a.now
  errno := a.errno

/-! ### Temporary names -/

theorem tempName_injective (dir : Bytes) (pid : ℕ) : Function.Injective (tempName dir pid) := by
  intro m n h
  simp only [tempName, List.append_assoc, List.append_right_inj] at h
  exact dec_injective (List.append_left_injective _ h)

/-- When the directory had none of the temporary names of this process at the start, the next
one is free, as long as fewer than 2^64 have been asked for. -/
theorem Disk.temp_free {outDir : Bytes} {os₀ os : Os} {L : List Session}
    (h : Disk outDir os₀ L os) (hwf : os₀.WF)
    (hold : ∀ seq, os₀.dir (tempName outDir os₀.pid seq) = none)
    (hfew : (L.flatMap fun s => s.writer.opens).length < 2 ^ 64) :
    os.dir (tempName outDir os.pid os.tempSeq) = none := by
  by_contra hne
  obtain ⟨j, hj⟩ := Option.ne_none_iff_exists'.mp hne
  rcases (h.dir_iff hwf _ j).mp hj with hthere | ⟨s, hs, fd, hholds, hpath⟩ | ⟨s, hs, hpub⟩
  · rw [h.pid, hold] at hthere
    cases hthere
  · -- the name of a file in use is one that was asked for
    obtain ⟨n, hasked, hseq⟩ := h.asked
    have hopened := (h.lasting s hs).calls.temp hholds.temp
    have hmem : s.writer.tempPath ∈ L.flatMap fun s => s.writer.opens :=
      List.mem_flatMap.mpr ⟨s, hs, List.mem_filterMap.mpr ⟨_, hopened, rfl⟩⟩
    rw [hasked.length_eq, FileWriter.tempNames, List.length_map, List.length_range] at hfew
    rw [hasked.mem_iff, FileWriter.tempNames, List.mem_map] at hmem
    obtain ⟨k, hk, hname⟩ := hmem
    rw [List.mem_range] at hk
    rw [← hpath, h.pid, hseq] at hname
    have := tempName_injective outDir os₀.pid hname
    omega
  · obtain ⟨name, -, hfile, hname⟩ := (h.lasting s hs).file hpub
    obtain ⟨t, suffix, -, rfl⟩ := hfile.name_eq
    rw [h.dir s hs] at hname
    exact tempName_ne_final _ _ _ _ _ hname

namespace Server

open Session

/-- What `run` takes next: an event, a sweep, or the end. -/
inductive Input
  | dispatch (a : Answers) (ev : Event)
  | sweepIdle (now : ℤ) (order : List ℕ)
  | shutdown (order : List ℕ)

def Input.run (c : Server × Os) : Input → Server × Os
  | .dispatch a ev => c.1.dispatch (a.on c.2) ev
  | .sweepIdle now order => c.1.sweepIdle c.2 now order
  | .shutdown order => c.1.shutdown c.2 order

/-- A run of the server. -/
def runAll (c : Server × Os) (inputs : List Input) : Server × Os := inputs.foldl Input.run c

/-- An event of one session. -/
inductive Own
  | accept (c : Incoming)
  | event (a : Answers) (ev : Event)
  | sweepIdle (now : ℤ)
  | shutdown

def Own.run (c : Server × Os) : Own → Server × Os
  | .accept inc => c.1.acceptConnections c.2 [inc]
  | .event a ev => c.1.dispatch (a.on c.2) ev
  | .sweepIdle now => c.1.sweepIdle c.2 now c.1.sessions.keys
  | .shutdown => c.1.shutdown c.2 c.1.sessions.keys

/-- Among the connections accepted, the one with the number `x`, when there is room for
its session. -/
def admitted (x : ℕ) (srv : Server) (os : Os) : List Incoming → List Own
  | [] => []
  | c :: rest =>
    match os.accept c.fd with
    | none => []
    | some (conn, os) =>
      (if conn = x ∧ srv.sessions.keys.length < srv.config.maxSessions then [.accept c] else []) ++
        admitted x (srv.acceptOne os c conn).1 (srv.acceptOne os c conn).2 rest

/-- The session of the connection `x` is in the table. -/
def serves (srv : Server) (x : ℕ) : Bool := srv.live.any fun s => s.conn = x

/-- What an input is to the session of the connection `x`. -/
def Input.own (x : ℕ) (c : Server × Os) : Input → List Own
  | .dispatch a ev =>
    if ev.fd = c.1.listenerFd then admitted x c.1 c.2 ev.incoming
    else if ev.fd = c.1.signalFd then []
    else
      match c.1.sessions.lookup ev.fd with
      | none => []
      | some e => if e.session.conn = x then [.event a ev] else []
  | .sweepIdle now _ => if c.1.serves x then [.sweepIdle now] else []
  | .shutdown _ => if c.1.serves x then [.shutdown] else []

/-- The own events of the session of the connection `x`. -/
def own (x : ℕ) : Server × Os → List Input → List Own
  | _, [] => []
  | c, i :: inputs => i.own x c ++ own x (i.run c) inputs

/-- The answers of `send` in some events. -/
def sendsOf (events : List Own) : List SendAnswer :=
  events.flatMap fun
    | .event a _ => a.sends
    | _ => []

/-- The start of the loop of `run`. -/
def start (config : ServerConfig) (listenerFd signalFd : ℕ) (os₀ : Os) : Server × Os :=
  (create config listenerFd signalFd, registered os₀ listenerFd signalFd)

/-- A server that gets nothing but the events of one session. -/
def alone (config : ServerConfig) (listenerFd signalFd : ℕ) (os₀ : Os) (events : List Own) :
    Server × Os :=
  events.foldl Own.run (start config listenerFd signalFd os₀)

/-- What an input may be: `run` has not returned, a descriptor number that the system
gives is free and was so at the start, and there is room for the session's files. The
temporary name is free by `Disk.temp_free`. -/
def Input.Fair (os₀ : Os) (c : Server × Os) : Input → Prop
  | .dispatch a ev =>
    c.1.ended = false ∧
      (∀ inc ∈ ev.incoming, os₀.fds inc.fd = none) ∧
      ∀ e, c.1.sessions.lookup ev.fd = some e →
        e.session.Roomy (a.on c.2) ∧ ∀ n, a.openAnswer = .fd n → os₀.fds n = none
  | .sweepIdle _ order => c.1.ended = false ∧ order.Perm c.1.sessions.keys
  | .shutdown order => c.1.ended = false ∧ order.Perm c.1.sessions.keys

/-- All the inputs of a run are such. -/
def Fair (os₀ : Os) : Server × Os → List Input → Prop
  | _, [] => True
  | c, i :: inputs => i.Fair os₀ c ∧ Fair os₀ (i.run c) inputs

/-! ### The server that has the session alone -/

/-- Nothing has happened to the files yet, and to no descriptor but `fd`. -/
structure Untouched (os₀ os : Os) (fd : ℕ) : Prop where
  dir : os.dir = os₀.dir
  tempSeq : os.tempSeq = os₀.tempSeq
  fds : ∀ n, n ≠ fd → os.fds n = os₀.fds n

/-- The server `c'` has one session, and runs as long as `c` does. -/
structure Single (os₀ : Os) (c c' : Server × Os) : Prop where
  good : Good os₀ ([], os₀) c'.1 c'.2 none
  config : c'.1.config = c.1.config
  listenerFd : c'.1.listenerFd = c.1.listenerFd
  signalFd : c'.1.signalFd = c.1.signalFd
  ended : c.1.ended = false → c'.1.ended = false
  one : c'.1.conns.length = 1

/-- The session `s` of `c` has its counterpart in `t`, which is alone in `c'`; `b` and
`b'` say whether they are in the table. -/
structure Mirror (os₀ : Os) (events : List Own) (c c' : Server × Os) (s : Session) (b : Bool)
    (t : Session) (b' : Bool) : Prop where
  here : At c.1 s b
  there : At c'.1 t b'
  kin : Kin s t
  same : AcksFit (sendsOf events) s t → Alike s t ∧ b = b'
  untouched : b' = true → t.state = .receiving → t.helloReceived = false →
    Untouched os₀ c'.2 t.fd

/-- How the session of the connection `x` stands to the one that is alone. -/
inductive Track (config : ServerConfig) (l g : ℕ) (os₀ : Os) (x : ℕ) (events : List Own)
    (c : Server × Os) : Prop
  | absent (hconn : x ∉ c.1.conns) (hevents : events = [])
  | present {s t : Session} {b b' : Bool} (hconn : s.conn = x)
      (hsingle : Single os₀ c (alone config l g os₀ events))
      (hmirror : Mirror os₀ events c (alone config l g os₀ events) s b t b')

/-! ### Inputs -/

section Input

variable {os₀ : Os} {b : List Session × Os} {c : Server × Os} {s : Session} {p : Bool}

/-- The order in which a sweep or the end goes through the table is one of its keys. -/
def Input.Ordered (c : Server × Os) : Input → Prop
  | .dispatch _ _ => True
  | .sweepIdle _ order => order.Perm c.1.sessions.keys
  | .shutdown order => order.Perm c.1.sessions.keys

theorem Input.step {i : Input} (hend : c.1.ended = false) (hi : i.Ordered c) :
    Step c (i.run c) := by
  cases i with
  | dispatch a ev => exact .dispatch c.1 (a.on c.2) ev hend
  | sweepIdle now order => exact .sweepIdle c.1 c.2 now order hend hi
  | shutdown order => exact .shutdown c.1 c.2 order hend hi

theorem Input.Fair.ordered {i : Input} (h : i.Fair os₀ c) : i.Ordered c := by
  cases i with
  | dispatch a ev => trivial
  | sweepIdle now order => exact h.2
  | shutdown order => exact h.2

theorem Input.Fair.not_ended {i : Input} (h : i.Fair os₀ c) : c.1.ended = false := by
  cases i with
  | dispatch a ev => exact h.1
  | sweepIdle now order => exact h.1
  | shutdown order => exact h.1

/-- Up to the end nothing is fixed anew. -/
theorem Input.fixed (i : Input) (c : Server × Os) :
    (i.run c).1.config = c.1.config ∧ (i.run c).1.listenerFd = c.1.listenerFd ∧
      (i.run c).1.signalFd = c.1.signalFd ∧
      ((i.run c).1.ended = false → c.1.ended = false) := by
  cases i with
  | dispatch a ev =>
    have h := dispatch_fixed c.1 (a.on c.2) ev
    exact ⟨h.config, h.listenerFd, h.signalFd, fun hend => h.ended.symm.trans hend⟩
  | sweepIdle now order =>
    have h := closeSessions_fixed c.1 c.2 (c.1.expired now order) (str "таймаут ожидания данных")
    exact ⟨h.config, h.listenerFd, h.signalFd, fun hend => h.ended.symm.trans hend⟩
  | shutdown order =>
    have h := clear_fixed c.1 c.2 order
    exact ⟨h.config, h.listenerFd, h.signalFd, fun hend => nomatch hend⟩

theorem Input.gone (i : Input) (c : Server × Os) : c.1.gone <:+ (i.run c).1.gone := by
  cases i with
  | dispatch a ev =>
    show _ <:+ (c.1.dispatch (a.on c.2) ev).1.gone
    rw [Server.dispatch]
    split
    · exact acceptConnections_gone _ _ _
    split
    · exact List.suffix_refl _
    · exact handleSession_gone _ _ _
  | sweepIdle now order => exact closeSessions_gone c.1 c.2 _ _
  | shutdown order => exact clear_gone c.1 c.2 order

/-- A session that has its verdict keeps it, whatever comes next. -/
theorem Input.keeps {i : Input} (h : Good os₀ b c.1 c.2 none) (hi : i.Ordered c)
    (hat : At c.1 s p) (hs : s.state ≠ .receiving) :
    ∃ s' p', At (i.run c).1 s' p' ∧ s.Keeps s' ∧ s'.state ≠ .receiving := by
  have hends : ∀ {k : Fate} {s₁ s' : Session}, Ends k s₁ s' → s.Keeps s₁ → s₁.state ≠ .receiving →
      s.Keeps s' ∧ s'.state ≠ .receiving := fun hends hk hne =>
    ⟨hk.trans hends.keeps, by rw [hends.state]; exact hne⟩
  cases p with
  | false => exact ⟨s, false, At.of_gone hat (i.gone c), .refl s, hs⟩
  | true =>
    cases i with
    | sweepIdle now order =>
      obtain ⟨s', hfate, hat'⟩ := sweepIdle_fate hat c.2 now hi
      exact ⟨s', _, hat', hends hfate (.refl s) hs⟩
    | shutdown order =>
      obtain ⟨s', hfate, hat'⟩ := shutdown_fate hat c.2 hi
      exact ⟨s', _, hat', hends hfate (.refl s) hs⟩
    | dispatch a ev =>
      show ∃ s' p', At (c.1.dispatch (a.on c.2) ev).1 s' p' ∧ _
      rw [Server.dispatch]
      split
      · exact ⟨s, true, hat.acceptConnections _ _, .refl s, hs⟩
      rename_i hl
      split
      · exact ⟨s, true, hat, .refl s, hs⟩
      rename_i hg
      by_cases hfd : s.fd = ev.fd
      · -- an event of its own
        obtain ⟨e, he, rfl⟩ := hat
        rw [hfd] at he
        obtain ⟨s', hfate, hat', -⟩ := handleSession_fate (a.on c.2) h hl hg he rfl
        obtain ⟨hk, hne⟩ := handle_keeps (a.on c.2) (h.sound he)
          (h.table.synced ev.fd e (by simp) he).2 hs ev.events ev.reads
        exact ⟨s', _, hat', hends hfate hk hne⟩
      · exact ⟨s, true, hat.handleSession (a.on c.2) fun _ => hfd, .refl s, hs⟩

/-- No connection comes in but to the listener. -/
theorem Input.conns {i : Input} (h : Good os₀ b c.1 c.2 none)
    (hi : ∀ a ev, i = .dispatch a ev → ev.fd ≠ c.1.listenerFd) :
    (i.run c).1.conns.Perm c.1.conns := by
  cases i with
  | dispatch a ev =>
    show (c.1.dispatch (a.on c.2) ev).1.conns.Perm c.1.conns
    rw [Server.dispatch, if_neg (hi a ev rfl)]
    split
    · exact .refl _
    · exact handleSession_conns (a.on c.2) h ev
  | sweepIdle now order => exact sweepIdle_conns c.1 c.2 now order
  | shutdown order => exact shutdown_conns c.1 c.2 order

/-- Where a session is that has the connection `x`. -/
theorem mem_conns {x : ℕ} : x ∈ c.1.conns ↔ ∃ s ∈ c.1.all, s.conn = x := List.mem_map

theorem At.mem_all (h : At c.1 s p) : s ∈ c.1.all := by
  cases p with
  | false => exact List.mem_append_right _ h
  | true =>
    obtain ⟨e, he, hs⟩ := h
    exact List.mem_append_left _ (mem_live.mpr ⟨s.fd, e, he, hs⟩)

/-- A connection has one session. -/
theorem eq_of_conn (h : Good os₀ b c.1 c.2 none) {t : Session} (hs : s ∈ c.1.all) (ht : t ∈ c.1.all)
    (hconn : s.conn = t.conn) : s = t := by
  have hnodup := h.numbers.conns
  exact List.inj_on_of_nodup_map hnodup.of_append_left hs ht hconn

end Input

/-! ### The two servers -/

section Mirror

variable {os₀ : Os} {events events' : List Own} {c c' c₁ c₁' : Server × Os} {s t : Session}
  {p p' : Bool}

/-- The other server moves, and the session is where it was. -/
theorem Mirror.frame (h : Mirror os₀ events c c' s p t p') (hat : At c₁.1 s p) :
    Mirror os₀ events c₁ c' s p t p' :=
  ⟨hat, h.there, h.kin, h.same, h.untouched⟩

/-- Both sessions have come to something, and the servers do with them what they do. -/
theorem Mirror.next {s₁ t₁ s' t' : Session} {k k' : Fate} (hkin : Kin s₁ t₁)
    (hsame : AcksFit (sendsOf events) s₁ t₁ → Alike s₁ t₁ ∧ k = k') (hs : Ends k s₁ s')
    (ht : Ends k' t₁ t') (hat : At c.1 s' k.live) (hat' : At c'.1 t' k'.live)
    (huntouched : k' = .stays → t₁.state = .receiving → t₁.helloReceived = false →
      Untouched os₀ c'.2 t₁.fd) : Mirror os₀ events c c' s' k.live t' k'.live where
  here := hat
  there := hat'
  kin := hkin.keeps hs.keeps ht.keeps
  same := by
    intro hfit
    have hold : AcksFit (sendsOf events) s₁ t₁ :=
      hfit.of_keeps (fun hrec => hs.state.symm.trans hrec) hs.keeps ht.keeps
    obtain ⟨halike, rfl⟩ := hsame hold
    exact ⟨hs.alike ht halike, rfl⟩
  untouched := by
    intro hlive hstate hhello
    have hk : k' = .stays := by
      cases k' with
      | stays => rfl
      | closed => cases hlive
      | erased => cases hlive
    subst hk
    cases ht
    exact huntouched rfl hstate hhello

theorem sendsOf_subset (events more : List Own) : sendsOf events ⊆ sendsOf (events ++ more) := by
  rw [sendsOf, sendsOf, List.flatMap_append]
  exact List.subset_append_left _ _

/-- The two have gone apart, and have their verdicts. -/
theorem Mirror.apart {s' t' : Session} {q q' : Bool} (h : Mirror os₀ events c c' s p t p')
    (hnot : ¬ AcksFit (sendsOf events) s t) (more : List Own) (hs : s.Keeps s') (ht : t.Keeps t')
    (hstate : s'.state ≠ .receiving) (hstate' : t'.state ≠ .receiving) (hat : At c₁.1 s' q)
    (hat' : At c₁'.1 t' q') : Mirror os₀ (events ++ more) c₁ c₁' s' q t' q' where
  here := hat
  there := hat'
  kin := h.kin.keeps hs ht
  same := fun hfit => absurd ((hfit.of_keeps (fun hrec => absurd hrec hstate) hs ht).mono
    (sendsOf_subset events more)) hnot
  untouched := fun _ hrec => absurd hrec hstate'

/-- Both are gone. -/
theorem Mirror.gone (h : Mirror os₀ events c c' s false t false) (more : List Own)
    (hgone : c.1.gone <:+ c₁.1.gone) (hgone' : c'.1.gone <:+ c₁'.1.gone) :
    Mirror os₀ (events ++ more) c₁ c₁' s false t false where
  here := At.of_gone h.here hgone
  there := At.of_gone h.there hgone'
  kin := h.kin
  same := fun hfit => h.same (hfit.mono (sendsOf_subset events more))
  untouched := fun hno => by cases hno

theorem Single.of_fixed (h : Single os₀ c c') (hconfig : c₁.1.config = c.1.config)
    (hl : c₁.1.listenerFd = c.1.listenerFd) (hg : c₁.1.signalFd = c.1.signalFd)
    (hend : c₁.1.ended = false → c.1.ended = false) : Single os₀ c₁ c' :=
  ⟨h.good, h.config.trans hconfig.symm, h.listenerFd.trans hl.symm, h.signalFd.trans hg.symm,
    fun he => h.ended (hend he), h.one⟩

theorem Single.input (h : Single os₀ c c') (hend : c.1.ended = false) (i : Input) {i' : Input}
    (hi' : i'.Ordered c') (hlisten : ∀ a ev, i' = .dispatch a ev → ev.fd ≠ c'.1.listenerFd)
    (hended : (i.run c).1.ended = false → (i'.run c').1.ended = c'.1.ended) :
    Single os₀ (i.run c) (i'.run c') := by
  obtain ⟨hconfig, hl, hg, hpast⟩ := i.fixed c
  obtain ⟨hconfig', hl', hg', -⟩ := i'.fixed c'
  exact
    { good := (Input.step (h.ended hend) hi').good h.good
      config := by rw [hconfig', hconfig, h.config]
      listenerFd := by rw [hl', hl, h.listenerFd]
      signalFd := by rw [hg', hg, h.signalFd]
      ended := fun he => (hended he).trans (h.ended (hpast he))
      one := by rw [(Input.conns h.good hlisten).length_eq, h.one] }

theorem Single.all_eq (h : Single os₀ c c') (ht : t ∈ c'.1.all) : c'.1.all = [t] := by
  have hone : c'.1.all.length = 1 := by
    rw [← h.one, conns, List.length_map]
  obtain ⟨t₁, ht₁⟩ := List.length_eq_one_iff.mp hone
  rw [ht₁, List.mem_singleton] at ht
  rw [ht₁, ht]

/-- There is room for the session alone, too. -/
theorem Single.roomy (h : Single os₀ c c') (hwf : os₀.WF)
    (hname : os₀.dir (tempName c.1.config.outDir os₀.pid os₀.tempSeq) = none)
    (hgood : Good os₀ ([], os₀) c.1 c.2 none) {fd : ℕ} {e e' : Entry}
    (he : c.1.sessions.lookup fd = some e) (he' : c'.1.sessions.lookup fd = some e')
    (halike : Alike e.session e'.session) (hrec : e'.session.state = .receiving) {a : Answers}
    (hroom : e.session.Roomy (a.on c.2)) (hfd : ∀ n, a.openAnswer = .fd n → os₀.fds n = none)
    (huntouched : e'.session.helloReceived = false → Untouched os₀ c'.2 fd) :
    e'.session.Roomy (a.on c'.2) := by
  have hmem : e'.session ∈ c'.1.all :=
    List.mem_append_left _ (mem_live.mpr ⟨fd, e', he', rfl⟩)
  have hdisk := h.good.disk
  have hdir : e'.session.writer.dir = c.1.config.outDir := by
    rw [hdisk.dir _ hmem, h.config]
  have hhello : e'.session.helloReceived = false → e.session.helloReceived = false := fun hh =>
    halike.helloReceived.trans hh
  refine ⟨fun hh => ?_, fun hh n hn => ?_, ?_, hroom.faults⟩
  · have hclean := huntouched hh
    show c'.2.dir (tempName e'.session.writer.dir c'.2.pid c'.2.tempSeq) = none
    rw [hclean.dir, hclean.tempSeq, hdisk.pid, hdir]
    exact hname
  · -- the number is not that of the connection, which is open
    have hfree : c.2.fds n = none := hroom.fd (hhello hh) n hn
    have hne : n ≠ fd := by
      intro heq
      rw [heq, (hgood.table.entry fd e he).2] at hfree
      cases hfree
    show c'.2.fds n = none
    rw [(huntouched hh).fds n hne]
    exact hfd n hn
  · obtain ⟨k, hk, hfree⟩ := hroom.final
    refine ⟨k, hk, ?_⟩
    show c'.2.dir (finalPath e'.session.writer.dir _) = none
    rw [← halike.dir]
    by_contra hne
    obtain ⟨j, hj⟩ := Option.ne_none_iff_exists'.mp hne
    rcases (hdisk.dir_iff hwf _ j).mp hj with hold | ⟨t, ht, f, hholds, hpath⟩ | ⟨t, ht, hpub⟩
    · -- it was there before
      have hthere := (hgood.disk.dir_iff hwf _ j).mpr (.inl hold)
      have hnot : c.2.dir (finalPath e.session.writer.dir
        (candidateName (fileTimestamp a.localTime) k)) = none := hfree
      rw [show (a.on c'.2).localTime = a.localTime from rfl, hnot] at hthere
      cases hthere
    · -- a temporary name
      have hcalls := (hdisk.lasting t ht).calls
      obtain ⟨seq, hseq⟩ := hcalls.opened _ _ (hcalls.temp hholds.temp)
      rw [hseq, hdisk.dir t ht, ← hdisk.dir _ hmem, ← halike.dir] at hpath
      exact tempName_ne_final _ _ _ _ _ hpath.symm
    · -- nothing is published yet
      rw [h.all_eq hmem, List.mem_singleton] at ht
      subst ht
      cases (hdisk.lasting _ hmem).account with
      | silent hs =>
        rw [hs.published] at hpub
        cases hpub
      | answered hs => exact hs.state_ne hrec

theorem agree_on (a : Answers) (os os' : Os) : Agree (a.on os) (a.on os') :=
  ⟨rfl, rfl, rfl, rfl, rfl, rfl, rfl⟩

/-- **An event of the session**, when the two have not gone apart. -/
theorem Mirror.event (h : Mirror os₀ events c c' s true t true) (halike : Alike s t)
    (hsingle : Single os₀ c c') (hwf : os₀.WF)
    (hname : os₀.dir (tempName c.1.config.outDir os₀.pid os₀.tempSeq) = none)
    (hgood : Good os₀ ([], os₀) c.1 c.2 none) {a : Answers} {ev : Event} (hs : s.fd = ev.fd)
    (hl : ev.fd ≠ c.1.listenerFd) (hg : ev.fd ≠ c.1.signalFd)
    (hfair : (Input.dispatch a ev).Fair os₀ c) :
    ∃ s' t' q q', s'.conn = s.conn ∧
      Mirror os₀ (events ++ [.event a ev]) ((Input.dispatch a ev).run c)
        ((Input.dispatch a ev).run c') s' q t' q' := by
  have hl' : ev.fd ≠ c'.1.listenerFd := by rw [hsingle.listenerFd]; exact hl
  have hg' : ev.fd ≠ c'.1.signalFd := by rw [hsingle.signalFd]; exact hg
  have hrun : ∀ {c : Server × Os}, ev.fd ≠ c.1.listenerFd → ev.fd ≠ c.1.signalFd →
      (Input.dispatch a ev).run c = c.1.handleSession (a.on c.2) ev := by
    intro c hl hg
    rw [Input.run, Server.dispatch, if_neg hl, if_neg hg]
  rw [hrun hl hg, hrun hl' hg']
  obtain ⟨-, -, hroomy⟩ := hfair
  have ht : t.fd = ev.fd := h.kin.fd.symm.trans hs
  obtain ⟨e, he, rfl⟩ := h.here
  obtain ⟨e', he', rfl⟩ := h.there
  rw [hs] at he
  rw [ht] at he'
  have hlive := (hgood.table.synced ev.fd e (by simp) he).2
  have hlive' := (hsingle.good.table.synced ev.fd e' (by simp) he').2
  have hsound : e.session.Sound (a.on c.2).os := hgood.sound he
  have hsound' : e'.session.Sound (a.on c'.2).os := hsingle.good.sound he'
  obtain ⟨hroom, hnumbers⟩ := hroomy e he
  have hroom' : e.session.state = .receiving → e'.session.Roomy (a.on c'.2) := fun hrec =>
    hsingle.roomy hwf hname hgood he he' halike (halike.state.symm.trans hrec) hroom hnumbers
      fun hh => ht ▸ h.untouched rfl (halike.state.symm.trans hrec) hh
  -- what `handle` comes to
  have hshadow := handle_shadow ⟨hsound, hsound', hlive, hlive'⟩ halike (agree_on a c.2 c'.2)
    (fun hrec => ⟨hroom, hroom' hrec⟩) ev.events ev.reads
  obtain ⟨r, hr⟩ : ∃ r, e.session.handle (a.on c.2) ev.events ev.reads = r := ⟨_, rfl⟩
  obtain ⟨r', hr'⟩ : ∃ r, e'.session.handle (a.on c'.2) ev.events ev.reads = r := ⟨_, rfl⟩
  rw [hr, hr'] at hshadow
  have hturn := (hsound.handle_turn (hgood.lasting he).tracks hlive hr).1
  have hout' := handle_outcome hr' hsound'.inv hsound'.wf hlive' hsound'.quiet
  have hturn' := (hsound'.handle_turn (hsingle.good.lasting he').tracks hlive' hr').1
  obtain ⟨s', hends, hat, -⟩ := handleSession_fate (a.on c.2) hgood hl hg he hr
  obtain ⟨t', hends', hat', hos'⟩ :=
    handleSession_fate (a.on c'.2) hsingle.good hl' hg' he' hr'
  refine ⟨s', t', _, _, hends.keeps.conn.trans hturn.moves.conn, .next hshadow.kin ?_ hends hends'
    hat hat' ?_⟩
  · intro hfit
    have hsends : a.sends ⊆ sendsOf (events ++ [.event a ev]) := by
      rw [sendsOf, List.flatMap_append, List.flatMap_singleton]
      exact List.subset_append_right _ _
    have htwins := hshadow.twins (hfit.mono hsends)
    refine ⟨htwins.alike, ?_⟩
    have hinterest : ∀ {s t : Session}, s.state = t.state → s.interest = t.interest := by
      intro s t hstate
      rw [interest, interest, hstate]
    rw [eventFate, eventFate, htwins.code, hinterest htwins.alike.state, hinterest halike.state]
  · intro hstays hstate hhello
    -- a session that still waits for its HELLO has not touched anything
    obtain ⟨hdir, hseq, hfds⟩ := hos' hstays
    have hlive₁ : r'.2.1.terminated = false := by
      refine hout'.live ?_
      by_contra hno
      rw [eventFate, if_neg (fun hgo => hno hgo.1)] at hstays
      cases hstays
    obtain ⟨hsame, hrec, hwaits⟩ := hout'.steps.waiting hstate hhello hlive₁
    have hclean := h.untouched rfl hrec hwaits
    rw [hturn'.moves.fd]
    dsimp only at hsame
    exact ⟨by rw [hdir, hsame]; exact hclean.dir, by rw [hseq, hsame]; exact hclean.tempSeq,
      fun n hn => by rw [hfds, hsame]; exact hclean.fds n hn⟩

/-- In a server with one session, which has not expired, a sweep does nothing. -/
theorem Single.sweepIdle (h : Single os₀ c c') (hat : At c'.1 t true) {now : ℤ}
    (hfresh : t.expired now c'.1.config.idleTimeout = false) :
    c'.1.sweepIdle c'.2 now c'.1.sessions.keys = c' := by
  have hnone : c'.1.expired now c'.1.sessions.keys = [] := by
    rw [expired, List.filter_eq_nil_iff]
    intro fd _
    cases he : c'.1.sessions.lookup fd with
    | none => simp
    | some e =>
      have hmem : e.session ∈ c'.1.all := List.mem_append_left _ (mem_live.mpr ⟨fd, e, he, rfl⟩)
      rw [h.all_eq hat.mem_all, List.mem_singleton] at hmem
      simp [hmem, hfresh]
  rw [Server.sweepIdle, hnone]
  rfl

/-- **A sweep.** -/
theorem Mirror.sweepIdle (h : Mirror os₀ events c c' s true t true) (halike : Alike s t)
    (hsingle : Single os₀ c c') (now : ℤ) {order : List ℕ}
    (horder : order.Perm c.1.sessions.keys) :
    ∃ s' t' q q', s'.conn = s.conn ∧
      Mirror os₀ (events ++ [.sweepIdle now]) ((Input.sweepIdle now order).run c)
        ((Input.sweepIdle now c'.1.sessions.keys).run c') s' q t' q' := by
  have hexpired : s.expired now c.1.config.idleTimeout =
      t.expired now c'.1.config.idleTimeout := by
    rw [Session.expired, Session.expired, halike.lastActivity, hsingle.config]
  obtain ⟨s', hends, hat⟩ := sweepIdle_fate h.here c.2 now horder
  obtain ⟨t', hends', hat'⟩ := sweepIdle_fate h.there c'.2 now (.refl _)
  refine ⟨s', t', _, _, hends.keeps.conn, .next h.kin (fun _ => ⟨halike, ?_⟩) hends hends' hat hat'
    fun hstays hstate hhello => ?_⟩
  · rw [hexpired]
  · have hfresh : t.expired now c'.1.config.idleTimeout = false := by
      by_contra hno
      rw [Bool.not_eq_false] at hno
      rw [if_pos hno] at hstays
      cases hstays
    have hrun : (Input.sweepIdle now c'.1.sessions.keys).run c' = c' :=
      hsingle.sweepIdle h.there hfresh
    rw [hrun]
    exact h.untouched rfl hstate hhello

/-- **The end.** -/
theorem Mirror.shutdown (h : Mirror os₀ events c c' s true t true) (halike : Alike s t)
    {order : List ℕ} (horder : order.Perm c.1.sessions.keys) :
    ∃ s' t' q q', s'.conn = s.conn ∧
      Mirror os₀ (events ++ [.shutdown]) ((Input.shutdown order).run c)
        ((Input.shutdown c'.1.sessions.keys).run c') s' q t' q' := by
  obtain ⟨s', hends, hat⟩ := shutdown_fate h.here c.2 horder
  obtain ⟨t', hends', hat'⟩ := shutdown_fate h.there c'.2 (.refl _)
  exact ⟨s', t', _, _, hends.keeps.conn, .next h.kin (fun _ => ⟨halike, rfl⟩) hends hends' hat hat'
    fun hno => nomatch hno⟩

end Mirror

/-! ### Connections -/

section Track

variable {config : ServerConfig} {l g x : ℕ} {os₀ os : Os} {events : List Own} {srv : Server}
  {c : Server × Os}

theorem create_alike (id id' fd conn conn' : ℕ) (outDir : Bytes) (now : ℤ) :
    Alike (Session.create id fd conn outDir now) (Session.create id' fd conn' outDir now) where
  toKin := ⟨rfl, rfl, rfl, rfl, rfl, rfl, rfl, rfl, .inl ⟨rfl, rfl⟩⟩
  state := rfl
  parser := rfl
  terminated := rfl
  receivedSize := rfl
  crc := rfl
  lastActivity := rfl
  received := rfl
  states := rfl
  progress := fun _ _ => rfl

/-- What holds of the server while the events are taken from its inputs. -/
structure Base (config : ServerConfig) (l g : ℕ) (os₀ : Os) (c : Server × Os) : Prop where
  good : Good os₀ ([], os₀) c.1 c.2 none
  config : c.1.config = config
  listenerFd : c.1.listenerFd = l
  signalFd : c.1.signalFd = g

theorem base_start (h : Ready os₀ l g) (config : ServerConfig) :
    Base config l g os₀ (start config l g os₀) :=
  ⟨good_create h config, rfl, rfl, rfl⟩

theorem alone_concat (config : ServerConfig) (l g : ℕ) (os₀ : Os) (events : List Own) (o : Own) :
    alone config l g os₀ (events ++ [o]) = o.run (alone config l g os₀ events) := by
  rw [alone, List.foldl_append]
  rfl

/-- A connection for which there is room: its session is created on both servers. -/
theorem Base.admit (h : Base config l g os₀ (srv, os)) (hready : Ready os₀ l g)
    (hend : srv.ended = false) {inc : Incoming} (hfd : os.fds inc.fd = none)
    (hfd₀ : os₀.fds inc.fd = none) (hroom : srv.sessions.keys.length < srv.config.maxSessions) :
    Track config l g os₀ os.nextConn [.accept inc]
      (srv.acceptOne (os.connect inc.fd) inc os.nextConn) := by
  have hstart := base_start hready config
  have hroom' : ¬ (create config l g).sessions.keys.length ≥
      (create config l g).config.maxSessions := by
    have hmax : srv.config.maxSessions = config.maxSessions := by rw [h.config]
    show ¬ 0 ≥ config.maxSessions
    omega
  -- the server that has it alone
  have haccept : (registered os₀ l g).accept inc.fd =
      some (os₀.nextConn, (registered os₀ l g).connect inc.fd) := by
    have hfree : (registered os₀ l g).fds inc.fd = none := hfd₀
    rw [Os.accept, hfree]
    rfl
  have hrun : alone config l g os₀ [.accept inc] =
      (create config l g).acceptOne ((registered os₀ l g).connect inc.fd) inc os₀.nextConn := by
    show (create config l g).acceptConnections (registered os₀ l g) [inc] = _
    simp only [acceptConnections, haccept]
  have hgood : Good os₀ ([], os₀) (alone config l g os₀ [.accept inc]).1
      (alone config l g os₀ [.accept inc]).2 none :=
    (Step.accept (create config l g) (registered os₀ l g) [inc] rfl).good hstart.good
  have hconns := acceptOne_conns (create config l g) ((registered os₀ l g).connect inc.fd) inc
    os₀.nextConn
  have hfixed := acceptOne_fixed srv (os.connect inc.fd) inc os.nextConn
  have hfixed' := acceptOne_fixed (create config l g) ((registered os₀ l g).connect inc.fd) inc
    os₀.nextConn
  obtain ⟨s', hends, hat, -⟩ := acceptOne_fate h.good hfd hend (Nat.not_le.mpr hroom)
  obtain ⟨t', hends', hat', hos⟩ := acceptOne_fate hstart.good (c := inc) hfd₀ rfl hroom'
  change At ((create config l g).acceptOne ((registered os₀ l g).connect inc.fd) inc
    os₀.nextConn).1 _ _ at hat'
  change _ → ((create config l g).acceptOne ((registered os₀ l g).connect inc.fd) inc
    os₀.nextConn).2 = _ at hos
  rw [← hrun] at hconns hfixed' hat' hos
  have hone : (alone config l g os₀ [.accept inc]).1.conns.length = 1 := by
    have hle := (List.subperm_of_subset hgood.numbers.conns.of_append_left hconns).length_le
    have hpos := List.length_pos_of_mem (List.mem_map_of_mem (f := Session.conn) hat'.mem_all)
    exact Nat.le_antisymm hle hpos
  refine .present (s := s') (t := t') hends.keeps.conn
    ⟨hgood, ?_, ?_, ?_, fun _ => hfixed'.ended, hone⟩
    (.next (create_alike _ _ _ _ _ _ _).toKin (fun _ => ⟨create_alike _ _ _ _ _ _ _, rfl⟩) hends
      (h.config ▸ hends') hat hat' fun hstays _ _ => ?_)
  · exact hfixed'.config.trans (h.config.symm.trans hfixed.config.symm)
  · exact hfixed'.listenerFd.trans (h.listenerFd.symm.trans hfixed.listenerFd.symm)
  · exact hfixed'.signalFd.trans (h.signalFd.symm.trans hfixed.signalFd.symm)
  · -- it has been registered, no more
    have hfault : inc.addFault = false := by
      by_contra hno
      rw [if_pos (by simpa using hno)] at hstays
      cases hstays
    rw [hos hfault]
    refine ⟨rfl, rfl, fun n hn => ?_⟩
    have hne : n ≠ inc.fd := hn
    rw [Os.setInterest_fds, Os.connect_fds, if_neg hne]
    rfl

/-- A connection that is refused leaves no session. -/
theorem acceptOne_full {inc : Incoming} {conn : ℕ}
    (hfull : srv.sessions.keys.length ≥ srv.config.maxSessions) :
    (srv.acceptOne os inc conn).1.conns = srv.conns := by
  rw [acceptOne, if_pos hfull]
  rfl

theorem Base.acceptOne (h : Base config l g os₀ (srv, os)) (hend : srv.ended = false)
    {inc : Incoming} (hfd : os.fds inc.fd = none) :
    Base config l g os₀ (srv.acceptOne (os.connect inc.fd) inc os.nextConn) := by
  have hfixed := acceptOne_fixed srv (os.connect inc.fd) inc os.nextConn
  exact ⟨acceptOne_good h.good hfd hend rfl, hfixed.config.trans h.config,
    hfixed.listenerFd.trans h.listenerFd, hfixed.signalFd.trans h.signalFd⟩

/-- A connection is accepted. -/
theorem Track.acceptOne (h : Track config l g os₀ x events (srv, os))
    (hbase : Base config l g os₀ (srv, os)) (hready : Ready os₀ l g) (hend : srv.ended = false)
    {inc : Incoming} (hfd : os.fds inc.fd = none) (hfd₀ : os₀.fds inc.fd = none) :
    Track config l g os₀ x
      (events ++ if os.nextConn = x ∧ srv.sessions.keys.length < srv.config.maxSessions then
        [.accept inc] else []) (srv.acceptOne (os.connect inc.fd) inc os.nextConn) := by
  cases h with
  | absent hconn hevents =>
    subst hevents
    by_cases hnew : os.nextConn = x ∧ srv.sessions.keys.length < srv.config.maxSessions
    · rw [if_pos hnew]
      obtain ⟨rfl, hroom⟩ := hnew
      exact hbase.admit hready hend hfd hfd₀ hroom
    · rw [if_neg hnew]
      refine .absent (fun hmem => ?_) rfl
      by_cases hroom : srv.sessions.keys.length < srv.config.maxSessions
      · have hne : os.nextConn ≠ x := fun heq => hnew ⟨heq, hroom⟩
        rcases List.mem_cons.mp (acceptOne_conns _ _ _ _ hmem) with heq | hold
        · exact hne heq.symm
        · exact hconn hold
      · rw [acceptOne_full (Nat.not_lt.mp hroom)] at hmem
        exact hconn hmem
  | @present s t b b' hconn hsingle hmirror =>
    -- the number is new
    have hne : os.nextConn ≠ x := by
      rintro rfl
      have hmem : os.nextConn ∈ srv.conns :=
        mem_conns.mpr ⟨s, hmirror.here.mem_all, hconn⟩
      exact Nat.lt_irrefl _ (hbase.good.numbers.conns_lt _ (List.mem_append_left _ hmem))
    rw [if_neg fun hno => hne hno.1, List.append_nil]
    have hfixed := acceptOne_fixed srv (os.connect inc.fd) inc os.nextConn
    exact .present hconn (hsingle.of_fixed hfixed.config hfixed.listenerFd hfixed.signalFd
      fun hend => hfixed.ended.symm.trans hend) (hmirror.frame (hmirror.here.acceptOne _ _ _))

theorem Track.acceptConnections (h : Track config l g os₀ x events (srv, os))
    (hbase : Base config l g os₀ (srv, os)) (hready : Ready os₀ l g) (hend : srv.ended = false)
    {cs : List Incoming} (hfds : ∀ inc ∈ cs, os₀.fds inc.fd = none) :
    Track config l g os₀ x (events ++ admitted x srv os cs) (srv.acceptConnections os cs) := by
  induction cs generalizing srv os events with
  | nil =>
    rw [admitted, List.append_nil]
    exact h
  | cons inc cs ih =>
    obtain ⟨hfd₀, hrest⟩ := List.forall_mem_cons.mp hfds
    rw [admitted, Server.acceptConnections]
    by_cases hfd : os.fds inc.fd = none
    · have haccept : os.accept inc.fd = some (os.nextConn, os.connect inc.fd) := by
        rw [Os.accept, hfd]
        rfl
      simp only [haccept]
      rw [← List.append_assoc]
      exact ih (h.acceptOne hbase hready hend hfd hfd₀) (hbase.acceptOne hend hfd)
        ((acceptOne_fixed srv _ inc _).ended.trans hend) hrest
    · have haccept : os.accept inc.fd = none := by
        rw [Os.accept, if_pos (Option.isSome_iff_ne_none.mpr hfd)]
      simp only [haccept, List.append_nil]
      exact h

/-! ### Runs -/

theorem Base.input (h : Base config l g os₀ c) {i : Input} (hfair : i.Fair os₀ c) :
    Base config l g os₀ (i.run c) := by
  obtain ⟨hconfig, hl, hg, -⟩ := i.fixed c
  exact ⟨(Input.step hfair.not_ended hfair.ordered).good h.good, hconfig.trans h.config,
    hl.trans h.listenerFd, hg.trans h.signalFd⟩

theorem serves_iff : c.1.serves x = true ↔ ∃ s ∈ c.1.live, s.conn = x := by
  rw [serves, List.any_eq_true]
  simp

/-- An input is nothing to a session that is not there, unless it brings it. -/
theorem Input.own_absent {i : Input} (hconn : x ∉ c.1.conns)
    (hi : ∀ a ev, i = .dispatch a ev → ev.fd ≠ c.1.listenerFd) : i.own x c = [] := by
  have hserves : ¬ c.1.serves x = true := by
    rw [serves_iff]
    rintro ⟨s, hs, rfl⟩
    exact hconn (mem_conns.mpr ⟨s, List.mem_append_left _ hs, rfl⟩)
  cases i with
  | sweepIdle now order => exact if_neg hserves
  | shutdown order => exact if_neg hserves
  | dispatch a ev =>
    rw [Input.own, if_neg (hi a ev rfl)]
    split
    · rfl
    split
    · rfl
    · rename_i e he
      refine if_neg fun hx => hconn (mem_conns.mpr ⟨e.session, ?_, hx⟩)
      exact List.mem_append_left _ (mem_live.mpr ⟨ev.fd, e, he, rfl⟩)

/-- The input that the server gets which has the session alone. -/
def Input.twin (c : Server × Os) : Input → Input
  | .dispatch a ev => .dispatch a ev
  | .sweepIdle now _ => .sweepIdle now c.1.sessions.keys
  | .shutdown _ => .shutdown c.1.sessions.keys

theorem Input.twin_ordered (i : Input) (c : Server × Os) : (i.twin c).Ordered c := by
  cases i with
  | dispatch a ev => trivial
  | sweepIdle now order => exact .refl _
  | shutdown order => exact .refl _

theorem Input.own_cases {i : Input} (hi : ∀ a ev, i = .dispatch a ev → ev.fd ≠ c.1.listenerFd) :
    i.own x c = [] ∨ ∃ o, i.own x c = [o] ∧ ∀ c', o.run c' = (i.twin c').run c' := by
  cases i with
  | sweepIdle now order =>
    rw [Input.own]
    split
    · exact .inr ⟨.sweepIdle now, rfl, fun c' => rfl⟩
    · exact .inl rfl
  | shutdown order =>
    rw [Input.own]
    split
    · exact .inr ⟨.shutdown, rfl, fun c' => rfl⟩
    · exact .inl rfl
  | dispatch a ev =>
    rw [Input.own, if_neg (hi a ev rfl)]
    split
    · exact .inl rfl
    split
    · exact .inl rfl
    split
    · exact .inr ⟨.event a ev, rfl, fun c' => rfl⟩
    · exact .inl rfl

/-- What the two servers come to that go on with an input. -/
theorem Single.next {c' : Server × Os} (h : Single os₀ c c') {i : Input} (hfair : i.Fair os₀ c)
    (hi : ∀ a ev, i = .dispatch a ev → ev.fd ≠ c.1.listenerFd) :
    Single os₀ (i.run c) ((i.twin c').run c') := by
  refine h.input hfair.not_ended i (i.twin_ordered c') ?_ ?_
  · intro a ev heq
    rw [h.listenerFd]
    cases i with
    | dispatch a' ev' =>
      cases heq
      exact hi a ev rfl
    | sweepIdle now order => cases heq
    | shutdown order => cases heq
  · intro hend
    cases i with
    | dispatch a ev => exact (dispatch_fixed c'.1 (a.on c'.2) ev).ended
    | sweepIdle now order => exact (closeSessions_fixed c'.1 c'.2 _ _).ended
    | shutdown order => cases hend

/-- **An input that is not one of the listener**, for a session that is there. -/
theorem Mirror.input {c' : Server × Os} {s t : Session} {p p' : Bool}
    (h : Mirror os₀ events c c' s p t p') (hsingle : Single os₀ c c')
    (hbase : Base config l g os₀ c) (hready : Ready os₀ l g)
    (hname : os₀.dir (tempName config.outDir os₀.pid os₀.tempSeq) = none) {i : Input}
    (hfair : i.Fair os₀ c) (hi : ∀ a ev, i = .dispatch a ev → ev.fd ≠ c.1.listenerFd) :
    ∃ s' t' q q', s'.conn = s.conn ∧
      ((i.own s.conn c = [] ∧ Mirror os₀ events (i.run c) c' s' q t' q') ∨
        (i.own s.conn c ≠ [] ∧ Mirror os₀ (events ++ i.own s.conn c) (i.run c)
          ((i.twin c').run c') s' q t' q')) := by
  by_cases hfit : AcksFit (sendsOf events) s t
  swap
  · -- they have gone apart
    have hs : s.state ≠ .receiving := fun hrec => hfit (.inl hrec)
    have haccount := (hbase.good.disk.lasting s h.here.mem_all).account
    have haccount' := (hsingle.good.disk.lasting t h.there.mem_all).account
    have ht := (h.kin.receiving_iff haccount haccount').not.mp hs
    obtain ⟨s', q, hat, hk, hne⟩ := Input.keeps hbase.good hfair.ordered h.here hs
    rcases Input.own_cases (x := s.conn) hi with hown | ⟨o, hown, -⟩
    · refine ⟨s', t, q, p', hk.conn, .inl ⟨hown, ?_⟩⟩
      have happart := h.apart hfit [] hk (.refl t) hne ht hat h.there
      rwa [List.append_nil] at happart
    · obtain ⟨t', q', hat', hk', hne'⟩ := Input.keeps hsingle.good (i.twin_ordered c') h.there ht
      exact ⟨s', t', q, q', hk.conn, .inr ⟨by rw [hown]; simp,
        h.apart hfit _ hk hk' hne hne' hat hat'⟩⟩
  obtain ⟨halike, rfl⟩ := h.same hfit
  cases p with
  | false =>
    by_cases hown : i.own s.conn c = []
    · refine ⟨s, t, false, false, rfl, .inl ⟨hown, ?_⟩⟩
      exact h.frame (At.of_gone h.here (i.gone c))
    · exact ⟨s, t, false, false, rfl, .inr ⟨hown, h.gone _ (i.gone c) ((i.twin c').gone c')⟩⟩
  | true =>
    have hserves : c.1.serves s.conn = true := by
      obtain ⟨e, he, hs⟩ := h.here
      exact serves_iff.mpr ⟨s, mem_live.mpr ⟨s.fd, e, he, hs⟩, rfl⟩
    cases i with
    | sweepIdle now order =>
      have hown : (Input.sweepIdle now order).own s.conn c = [.sweepIdle now] := if_pos hserves
      obtain ⟨s', t', q, q', hconn, hm⟩ := h.sweepIdle halike hsingle now hfair.2
      exact ⟨s', t', q, q', hconn, .inr ⟨by rw [hown]; simp, by rw [hown]; exact hm⟩⟩
    | shutdown order =>
      have hown : (Input.shutdown order).own s.conn c = [.shutdown] := if_pos hserves
      obtain ⟨s', t', q, q', hconn, hm⟩ := h.shutdown halike hfair.2
      exact ⟨s', t', q, q', hconn, .inr ⟨by rw [hown]; simp, by rw [hown]; exact hm⟩⟩
    | dispatch a ev =>
      have hl := hi a ev rfl
      have hrun : (Input.dispatch a ev).run c = c.1.dispatch (a.on c.2) ev := rfl
      rw [hrun, Input.own, if_neg hl]
      rw [Server.dispatch, if_neg hl]
      by_cases hg : ev.fd = c.1.signalFd
      · rw [if_pos hg, if_pos hg]
        exact ⟨s, t, true, true, rfl, .inl ⟨rfl, h.frame h.here⟩⟩
      rw [if_neg hg, if_neg hg]
      obtain ⟨e, he, hs⟩ := h.here
      by_cases hfd : s.fd = ev.fd
      · -- its own event
        obtain ⟨s', t', q, q', hconn, hm⟩ := h.event halike hsingle hready.wf
          (hbase.config ▸ hname) hbase.good hfd hl hg hfair
        rw [hrun, Server.dispatch, if_neg hl, if_neg hg] at hm
        rw [hfd] at he
        simp only [he, hs, if_true]
        exact ⟨s', t', q, q', hconn, .inr ⟨by simp, hm⟩⟩
      · -- an event of another session, or of none
        have hother : ∀ e', c.1.sessions.lookup ev.fd = some e' → ¬ e'.session.conn = s.conn := by
          intro e' he' heq
          have hmem : e'.session ∈ c.1.all :=
            List.mem_append_left _ (mem_live.mpr ⟨ev.fd, e', he', rfl⟩)
          have hsame := eq_of_conn hbase.good hmem h.here.mem_all heq
          refine hfd ?_
          rw [← hsame]
          exact (hbase.good.table.entry _ e' he').1
        refine ⟨s, t, true, true, rfl, .inl ⟨?_, h.frame (h.here.handleSession _ fun _ => hfd)⟩⟩
        cases hlook : c.1.sessions.lookup ev.fd with
        | none => rfl
        | some e' => exact if_neg (hother e' hlook)

/-- **One input** of the reactor. -/
theorem Track.input (h : Track config l g os₀ x events c) (hbase : Base config l g os₀ c)
    (hready : Ready os₀ l g)
    (hname : os₀.dir (tempName config.outDir os₀.pid os₀.tempSeq) = none) {i : Input}
    (hfair : i.Fair os₀ c) : Track config l g os₀ x (events ++ i.own x c) (i.run c) := by
  by_cases hlisten : ∃ a ev, i = .dispatch a ev ∧ ev.fd = c.1.listenerFd
  · -- connections come
    obtain ⟨a, ev, rfl, hl⟩ := hlisten
    have hrun : (Input.dispatch a ev).run c = c.1.acceptConnections c.2 ev.incoming := by
      rw [Input.run, Server.dispatch, if_pos hl]
      rfl
    rw [hrun, Input.own, if_pos hl]
    exact h.acceptConnections hbase hready hfair.1 hfair.2.1
  have hi : ∀ a ev, i = .dispatch a ev → ev.fd ≠ c.1.listenerFd := fun a ev heq hl =>
    hlisten ⟨a, ev, heq, hl⟩
  cases h with
  | absent hconn hevents =>
    refine .absent (fun hmem => hconn ((Input.conns hbase.good hi).mem_iff.mp hmem)) ?_
    rw [hevents, Input.own_absent hconn hi]
    rfl
  | @present s t p p' hconn hsingle hmirror =>
    subst hconn
    obtain ⟨hconfig, hl, hg, hpast⟩ := i.fixed c
    obtain ⟨s', t', q, q', hconn', ⟨hown, hm⟩ | ⟨hown, hm⟩⟩ :=
      hmirror.input hsingle hbase hready hname hfair hi
    · rw [hown, List.append_nil]
      exact .present hconn' (hsingle.of_fixed hconfig hl hg hpast) hm
    · rcases Input.own_cases (x := s.conn) hi with hnone | ⟨o, hone, hrun⟩
      · exact absurd hnone hown
      have halone : alone config l g os₀ (events ++ i.own s.conn c) =
          (i.twin (alone config l g os₀ events)).run (alone config l g os₀ events) := by
        rw [hone, alone_concat, hrun]
      exact .present hconn' (by rw [halone]; exact hsingle.next hfair hi) (by rw [halone]; exact hm)

/-- **Every run**: whatever becomes of a session, alone it comes to the same. -/
theorem Track.run {inputs : List Input} (h : Track config l g os₀ x events c)
    (hbase : Base config l g os₀ c) (hready : Ready os₀ l g)
    (hname : os₀.dir (tempName config.outDir os₀.pid os₀.tempSeq) = none)
    (hfair : Fair os₀ c inputs) :
    Track config l g os₀ x (events ++ own x c inputs) (runAll c inputs) ∧
      Base config l g os₀ (runAll c inputs) := by
  induction inputs generalizing c events with
  | nil =>
    rw [own, List.append_nil]
    exact ⟨h, hbase⟩
  | cons i inputs ih =>
    obtain ⟨hi, hrest⟩ := hfair
    rw [own, ← List.append_assoc]
    exact ih (h.input hbase hready hname hi) (hbase.input hi) hrest

/-! ### Files -/

/-- The bytes in the temporary file. -/
def tempBytes (s : Session) (os : Os) : Option Bytes := (s.writer.ino os).map os.data

/-- The bytes in the published file. -/
def fileBytes (s : Session) (os : Os) : Option Bytes := s.writer.published.map fun e => os.data e.2

/-- A temporary file is there exactly while the body comes in, and holds what has been
accepted. -/
theorem temp_cases {b : List Session × Os} (h : Good os₀ b c.1 c.2 none) {s : Session} {p : Bool}
    (hat : At c.1 s p) :
    ((p = true ∧ s.state = .receiving ∧ s.helloReceived = true) ∧
      tempBytes s c.2 = some s.hist.accepted ∧
      ∃ seq, s.writer.tempPath = tempName s.writer.dir os₀.pid seq) ∨
    (¬ (p = true ∧ s.state = .receiving ∧ s.helloReceived = true) ∧
      tempBytes s c.2 = none ∧ s.writer.tempPath = []) := by
  have hclosed : s.writer.Closed → tempBytes s c.2 = none ∧ s.writer.tempPath = [] := fun hc =>
    ⟨by rw [tempBytes, hc.ino]; rfl, hc.2⟩
  have hcalls := (h.disk.lasting s hat.mem_all).calls
  rw [h.disk.pid] at hcalls
  cases p with
  | false => exact .inr ⟨by simp, hclosed (h.gone s hat)⟩
  | true =>
    obtain ⟨e, he, rfl⟩ := hat
    have hlive := (h.table.synced _ e (by simp) he).2
    cases (h.sound he).inv with
    | waiting hw => exact .inr ⟨by simp [hw.hello], hclosed hw.closed⟩
    | body hb =>
      refine .inl ⟨⟨rfl, hb.state, hb.hello⟩, ?_, hcalls.opened _ _ (hcalls.temp hb.holds.temp)⟩
      rw [tempBytes, hb.holds.ino, Option.map_some, hb.data]
    | answered ha => exact .inr ⟨by simp [ha.state_ne], hclosed ha.closed⟩
    | aborted ha =>
      rw [ha.terminated] at hlive
      cases hlive

theorem fileBytes_eq {s : Session} (h : s.Lasting os) :
    fileBytes s os = if s.writer.published.isSome then some s.hist.accepted else none := by
  rw [fileBytes]
  cases hpub : s.writer.published with
  | none => rfl
  | some e =>
    obtain ⟨p, i⟩ := e
    obtain ⟨name, -, hfile, -⟩ := h.file hpub
    rw [Option.map_some, hfile.data]
    rfl

/-- A session is in the table exactly when it is not gone. -/
theorem At.live_iff {b : List Session × Os} (h : Good os₀ b c.1 c.2 none) {s : Session} {p : Bool}
    (hat : At c.1 s p) : s ∈ c.1.live ↔ p = true := by
  cases p with
  | true =>
    obtain ⟨e, he, hs⟩ := hat
    exact iff_of_true (mem_live.mpr ⟨s.fd, e, he, hs⟩) rfl
  | false =>
    refine iff_of_false (fun hlive => ?_) (by simp)
    have hnodup := h.numbers.conns.of_append_left
    rw [all, List.map_append] at hnodup
    exact List.disjoint_of_nodup_append hnodup (List.mem_map_of_mem hlive)
      (List.mem_map_of_mem hat)

/-- What a session has in common with the one that is alone, in any case; and all of it,
but for names, if their ACKs fit. -/
structure Same (events : List Own) (c : Server × Os) (s : Session) (c' : Server × Os)
    (t : Session) : Prop where
  kin : Kin s t
  temp : tempBytes s c.2 = tempBytes t c'.2
  tempPath : (s.writer.tempPath = [] ∧ t.writer.tempPath = []) ∨
    ∃ dir pid seq seq', s.writer.tempPath = tempName dir pid seq ∧
      t.writer.tempPath = tempName dir pid seq'
  file : fileBytes s c.2 = fileBytes t c'.2
  whole : AcksFit (sendsOf events) s t → Alike s t ∧ (s ∈ c.1.live ↔ t ∈ c'.1.live)

theorem Mirror.bytes {c' : Server × Os} {s t : Session} {p p' : Bool}
    (h : Mirror os₀ events c c' s p t p') {b b' : List Session × Os}
    (hgood : Good os₀ b c.1 c.2 none) (hgood' : Good os₀ b' c'.1 c'.2 none) :
    Same events c s c' t := by
  have hlast := hgood.disk.lasting s h.here.mem_all
  have hlast' := hgood'.disk.lasting t h.there.mem_all
  -- both have a temporary file, or neither has
  have hboth : (p = true ∧ s.state = .receiving ∧ s.helloReceived = true) ↔
      (p' = true ∧ t.state = .receiving ∧ t.helloReceived = true) := by
    by_cases hfit : AcksFit (sendsOf events) s t
    · obtain ⟨halike, rfl⟩ := h.same hfit
      rw [halike.state, halike.helloReceived]
    · have hs : s.state ≠ .receiving := fun hrec => hfit (.inl hrec)
      have ht := (h.kin.receiving_iff hlast.account hlast'.account).not.mp hs
      simp [hs, ht]
  have htemp : tempBytes s c.2 = tempBytes t c'.2 ∧
      ((s.writer.tempPath = [] ∧ t.writer.tempPath = []) ∨
        ∃ dir pid seq seq', s.writer.tempPath = tempName dir pid seq ∧
          t.writer.tempPath = tempName dir pid seq') := by
    rcases temp_cases hgood h.here with ⟨hp, hbytes, seq, hseq⟩ | ⟨hp, hbytes, hnil⟩ <;>
      rcases temp_cases hgood' h.there with ⟨hp', hbytes', seq', hseq'⟩ | ⟨hp', hbytes', hnil'⟩
    · exact ⟨by rw [hbytes, hbytes', h.kin.accepted],
        .inr ⟨_, _, seq, seq', hseq, by rw [hseq', h.kin.dir]⟩⟩
    · exact absurd (hboth.mp hp) hp'
    · exact absurd (hboth.mpr hp') hp
    · exact ⟨hbytes.trans hbytes'.symm, .inl ⟨hnil, hnil'⟩⟩
  refine ⟨h.kin, htemp.1, htemp.2, ?_, fun hfit => ?_⟩
  · rw [fileBytes_eq hlast, fileBytes_eq hlast', h.kin.accepted]
    rcases h.kin.published with ⟨hnone, hnone'⟩ | ⟨now, k, k', i, i', hi, hi'⟩
    · rw [hnone, hnone']
    · rw [hi, hi']
      rfl
  · obtain ⟨halike, rfl⟩ := h.same hfit
    exact ⟨halike, (h.here.live_iff hgood).trans (h.there.live_iff hgood').symm⟩

/-- **Every session has gone as it goes alone.** -/
theorem mirrored (hready : Ready os₀ l g) {inputs : List Input}
    (hname : os₀.dir (tempName config.outDir os₀.pid os₀.tempSeq) = none)
    (hfair : Fair os₀ (start config l g os₀) inputs) {s : Session}
    (hs : s ∈ (runAll (start config l g os₀) inputs).1.all) :
    ∃ t, (alone config l g os₀ (own s.conn (start config l g os₀) inputs)).1.all = [t] ∧
      Same (own s.conn (start config l g os₀) inputs) (runAll (start config l g os₀) inputs) s
        (alone config l g os₀ (own s.conn (start config l g os₀) inputs)) t := by
  have hstart : Track config l g os₀ s.conn [] (start config l g os₀) :=
    .absent (fun hmem => absurd hmem List.not_mem_nil) rfl
  obtain ⟨htrack, hbase⟩ := hstart.run (base_start hready config) hready hname hfair
  rw [List.nil_append] at htrack
  cases htrack with
  | absent hconn hevents => exact absurd (mem_conns.mpr ⟨s, hs, rfl⟩) hconn
  | @present s' t p p' hconn hsingle hmirror =>
    obtain rfl := eq_of_conn hbase.good hmirror.here.mem_all hs hconn
    exact ⟨t, hsingle.all_eq hmirror.there.mem_all, hmirror.bytes hbase.good hsingle.good⟩

/-- The own events of all the sessions there have been. -/
def owns (c : Server × Os) (inputs : List Input) : List (List Own) :=
  (runAll c inputs).1.all.map fun s => own s.conn c inputs

/-- The contents of the files that have been published. -/
def contents (c : Server × Os) : List Bytes := c.1.all.filterMap fun s => fileBytes s c.2

/-- **The files published** are those that the sessions publish alone. -/
theorem contents_eq (hready : Ready os₀ l g) {inputs : List Input}
    (hname : os₀.dir (tempName config.outDir os₀.pid os₀.tempSeq) = none)
    (hfair : Fair os₀ (start config l g os₀) inputs) :
    contents (runAll (start config l g os₀) inputs) =
      (owns (start config l g os₀) inputs).flatMap fun events =>
        contents (alone config l g os₀ events) := by
  rw [contents, owns, List.filterMap_eq_flatMap_toList, List.flatMap_map]
  refine List.flatMap_congr fun s hs => ?_
  obtain ⟨t, hone, hsame⟩ := mirrored hready hname hfair hs
  rw [contents, hone, hsame.file, List.filterMap_cons, List.filterMap_nil]
  generalize fileBytes t _ = file
  cases file <;> rfl

/-- **Sessions are isolated.** Take any inputs of the reactor, for any number of
connections, with the answers of the system; then every session there has been has in
common with the one that gets its own events alone:

* the frames it took, the bytes it accepted and the status of its ACK, what is in its
  temporary file and in the file it has published, and their names but for the sequence
  number and the suffix;
* and all its states, when it ended, and whether it is in the table, unless the ACKs differ
  in length and a `write` has taken a part of one.

In two orders of the same events the same contents are published. Every file published is
there under a name of its own that was free at the start. -/
theorem sessions_isolated (hready : Ready os₀ l g) {inputs : List Input}
    (hname : os₀.dir (tempName config.outDir os₀.pid os₀.tempSeq) = none)
    (hfair : Fair os₀ (start config l g os₀) inputs) :
    (∀ s ∈ (runAll (start config l g os₀) inputs).1.all, ∃ t,
      (alone config l g os₀ (own s.conn (start config l g os₀) inputs)).1.all = [t] ∧
      Same (own s.conn (start config l g os₀) inputs) (runAll (start config l g os₀) inputs) s
        (alone config l g os₀ (own s.conn (start config l g os₀) inputs)) t) ∧
    (∀ inputs', Fair os₀ (start config l g os₀) inputs' →
      (owns (start config l g os₀) inputs').Perm (owns (start config l g os₀) inputs) →
      (contents (runAll (start config l g os₀) inputs')).Perm
        (contents (runAll (start config l g os₀) inputs))) ∧
    (∀ s ∈ (runAll (start config l g os₀) inputs).1.all, ∀ p i, s.writer.published = some (p, i) →
      (runAll (start config l g os₀) inputs).2.dir p = some i ∧ os₀.dir p = none) ∧
    (runAll (start config l g os₀) inputs).1.all.Pairwise fun s t => ∀ p i q j,
      s.writer.published = some (p, i) → t.writer.published = some (q, j) → p ≠ q ∧ i ≠ j := by
  have hstart : Track config l g os₀ 0 [] (start config l g os₀) :=
    .absent (fun hmem => absurd hmem List.not_mem_nil) rfl
  have hdisk := (hstart.run (base_start hready config) hready hname hfair).2.good.disk
  -- a file published is at its place
  have hthere : ∀ s ∈ (runAll (start config l g os₀) inputs).1.all, ∀ p i,
      s.writer.published = some (p, i) →
        (runAll (start config l g os₀) inputs).2.dir p = some i := by
    intro s hs p i hp
    obtain ⟨name, -, hfile, rfl⟩ := (hdisk.lasting s hs).file hp
    exact (hfile.entry _).mpr rfl
  refine ⟨fun s hs => mirrored hready hname hfair hs, fun inputs' hfair' hperm => ?_,
    fun s hs p i hp => ⟨hthere s hs p i hp, ?_⟩, ?_⟩
  · rw [contents_eq hready hname hfair, contents_eq hready hname hfair']
    exact hperm.flatMap_right _
  · -- an entry that was there would still lead to the old file
    by_contra hne
    obtain ⟨j, hj⟩ := Option.ne_none_iff_exists'.mp hne
    have hold := (hdisk.dir_iff hready.wf p j).mpr (.inl hj)
    rw [hthere s hs p i hp] at hold
    cases hold
    exact absurd (hdisk.published s hs p i hp).1 (Nat.not_le.mpr (hready.wf.dir p i hj))
  · refine hdisk.distinct.imp_of_mem fun {s t} hs ht hne p i q j hp hq => ⟨?_, ?_⟩
    · rintro rfl
      have heq := hthere s hs p i hp
      rw [hthere t ht p j hq] at heq
      cases heq
      exact hne p p _ hp hq
    · rintro rfl
      exact hne p q _ hp hq

end Track

/-! ### Two sessions in one second -/

section SameSecond

/-- A server of two sessions. -/
def two : ServerConfig := { outDir := str "in", idleTimeout := 30, maxSessions := 2 }

/-- A socket that takes `n` bytes, and a disk that works. -/
def takes (n : ℕ) : Answers where
  sends := [.took n]
  writes := [.took 3]
  openAnswer := .fd 7
  localTime := { year := 2024, mon := 0, mday := 1, hour := 0, min := 0, sec := 0 }
  now := 1

/-- The two clients connect. -/
def connectBoth : Input :=
  .dispatch (takes 0)
    { fd := 3, events := EPOLLIN, incoming := [{ fd := 5, now := 0 }, { fd := 6, now := 0 }] }

/-- A client sends three bytes. The `write` of the ACK takes as many bytes as an ACK has that
names a file without a suffix. -/
def sendThree (fd : ℕ) : Input :=
  .dispatch (takes (buildAck .ok (str "20240101_000000.hex")).length)
    { fd := fd
      events := EPOLLIN
      reads := [.bytes (buildHello 3 (str "a.txt") ++ buildData [1#8, 2#8, 3#8] ++
        buildEnd (crc32 [1#8, 2#8, 3#8]))] }

/-- Both do so in the same second. -/
def sameSecond : List Input := [connectBoth, sendThree 5, sendThree 6]

/-- There is room for the session whose event comes. -/
theorem roomy_of {os₀ : Os} {b : List Session × Os} {c : Server × Os} {fd : ℕ} {e : Entry}
    (h : Good os₀ b c.1 c.2 none) (hwf : os₀.WF) (he : c.1.sessions.lookup fd = some e)
    {a : Answers} (hold : ∀ seq, os₀.dir (tempName c.1.config.outDir os₀.pid seq) = none)
    (hfew : (c.1.all.flatMap fun s => s.writer.opens).length < 2 ^ 64)
    (hfd : ∀ n, a.openAnswer = .fd n → c.2.fds n = none)
    (hfinal : c.2.dir (finalPath c.1.config.outDir
      (candidateName (fileTimestamp a.localTime) 999)) = none)
    (hfaults : ∀ k, a.linkFaults k = a.linkFaults 0) : e.session.Roomy (a.on c.2) := by
  have hdir : e.session.writer.dir = c.1.config.outDir :=
    h.disk.dir _ (List.mem_append_left _ (mem_live.mpr ⟨fd, e, he, rfl⟩))
  refine ⟨fun _ => ?_, fun _ => hfd, ⟨999, by decide, ?_⟩, hfaults⟩
  · rw [hdir]
    exact h.disk.temp_free hwf hold hfew
  · rw [FileWriter.candidate, hdir]
    exact hfinal

theorem sendThree_fair {c : Server × Os} (h : Base two 3 4 (bare 1 3 4) c)
    (hend : c.1.ended = false)
    (hfew : (c.1.all.flatMap fun s => s.writer.opens).length < 2 ^ 64) (hfd : c.2.fds 7 = none)
    (hfinal : c.2.dir (finalPath (str "in") (candidateName (str "20240101_000000") 999)) = none)
    (fd : ℕ) : (sendThree fd).Fair (bare 1 3 4) c := by
  have hconfig : c.1.config.outDir = str "in" := by
    rw [h.config]
    rfl
  refine ⟨hend, fun inc hinc => absurd hinc List.not_mem_nil, fun e he => ⟨?_, ?_⟩⟩
  · refine roomy_of h.good (ready_bare 1 3 4).wf he (fun _ => rfl) hfew (fun n hn => ?_) ?_
      fun _ => rfl
    · cases hn
      exact hfd
    · rw [hconfig]
      exact hfinal
  · intro n hn
    cases hn
    rfl

/-- The system does nothing that it may not do. -/
theorem sameSecond_fair : Fair (bare 1 3 4) (start two 3 4 (bare 1 3 4)) sameSecond := by
  have hbase := base_start (ready_bare 1 3 4) two
  have hconnect : connectBoth.Fair (bare 1 3 4) (start two 3 4 (bare 1 3 4)) :=
    ⟨rfl, by decide, fun e he => by cases he⟩
  have hbase₁ := hbase.input hconnect
  have hfirst : (sendThree 5).Fair (bare 1 3 4)
      (connectBoth.run (start two 3 4 (bare 1 3 4))) :=
    sendThree_fair hbase₁ (by decide +kernel) (by decide +kernel) (by decide +kernel)
      (by decide +kernel) 5
  exact ⟨hconnect, hfirst, sendThree_fair (hbase₁.input hfirst) (by decide +kernel)
    (by decide +kernel) (by decide +kernel) (by decide +kernel) 6, trivial⟩

/-- The two sessions have not gone alike: that of the second client, whose file has got a
suffix, has sent a part of its ACK; alone, it has sent all of it. -/
theorem same_second_states :
    Fair (bare 1 3 4) (start two 3 4 (bare 1 3 4)) sameSecond ∧
    ∃ s ∈ (runAll (start two 3 4 (bare 1 3 4)) sameSecond).1.all,
      ∃ t ∈ (alone two 3 4 (bare 1 3 4)
        (own s.conn (start two 3 4 (bare 1 3 4)) sameSecond)).1.all,
        s.hist.states = [.receiving, .sendingAck] ∧
        t.hist.states = [.receiving, .sendingAck, .draining] := by
  have hshared : (1, [State.receiving, .sendingAck]) ∈
      (runAll (start two 3 4 (bare 1 3 4)) sameSecond).1.all.map fun s =>
        (s.conn, s.hist.states) := by decide +kernel
  have halone : [State.receiving, .sendingAck, .draining] ∈
      (alone two 3 4 (bare 1 3 4) (own 1 (start two 3 4 (bare 1 3 4)) sameSecond)).1.all.map
        fun t => t.hist.states := by decide +kernel
  obtain ⟨s, hs, heq⟩ := List.mem_map.mp hshared
  obtain ⟨t, ht, hstates⟩ := List.mem_map.mp halone
  obtain ⟨hconn, hstates'⟩ := Prod.mk.inj heq
  exact ⟨sameSecond_fair, s, hs, t, by rw [hconn]; exact ht, hstates', hstates⟩

/-- What they publish is the same all the same. -/
theorem sessions_isolated_same_second :
    (∀ s ∈ (runAll (start two 3 4 (bare 1 3 4)) sameSecond).1.all, ∃ t,
      (alone two 3 4 (bare 1 3 4)
        (own s.conn (start two 3 4 (bare 1 3 4)) sameSecond)).1.all = [t] ∧
      fileBytes s (runAll (start two 3 4 (bare 1 3 4)) sameSecond).2 =
        fileBytes t (alone two 3 4 (bare 1 3 4)
          (own s.conn (start two 3 4 (bare 1 3 4)) sameSecond)).2) ∧
    contents (runAll (start two 3 4 (bare 1 3 4)) sameSecond) =
      [[1#8, 2#8, 3#8], [1#8, 2#8, 3#8]] := by
  refine ⟨fun s hs => ?_, by decide +kernel⟩
  obtain ⟨t, hone, hsame⟩ :=
    (sessions_isolated (ready_bare 1 3 4) rfl sameSecond_fair).1 s hs
  exact ⟨t, hone, hsame.file⟩

end SameSecond


end Server

end Nexus
