/-
The main loop of the server.

`run` opens the epoll instance and the signalfd, registers the listener and the signalfd, and
then goes round: a batch of events, the sweep, and again, until a signal has come or
`epoll_wait` fails. The destructor releases what is left. All that the server does between
two batches is a `Server.Step`, so what is proved of every reachable state is proved of the
program.

* `Server.loop_steps` — the states of the loop are states that the server reaches;
* `Server.run_code` — what `run` returns;
* `Server.run_releases` — what a whole run leaves behind.
-/
import NexusTransmitter.ServerArchive
import NexusTransmitter.ServerBatch
import NexusTransmitter.ServerDescriptors

open WriteOnce

namespace Nexus

namespace Os

/-- A call that opens something else than a file or a connection: `epoll_create1`,
`signalfd`. -/
def openOther (os : Os) : OpenAnswer → Except Bytes ℕ × Os
  | .err text => (.error text, os)
  | .fd n =>
    if (os.fds n).isSome then (.error (str "Too many open files"), os)
    else (.ok n, { os with fds := Function.update os.fds n (some .other) })

/-- `close` of the epoll instance: nothing is registered any more. -/
def closeEpoll (os : Os) (fd : ℕ) : Os := { os.close fd with epoll := fun _ => none }

end Os

/-- A line of the log, written by `run`. -/
inductive ServerLine
  | epollCreate (text : Bytes)
  | sigprocmask (text : Bytes)
  | signalfd (text : Bytes)
  | epollCtl (text : Bytes)
  | started (address : Bytes)
  | outDir (dir : Bytes)
  | awaiting
  | epollWait (text : Bytes)
  | signal (signo : ℕ)
  | interrupted (pending : ℕ)
  | stopped
  deriving DecidableEq, Repr

/-- The order in which a hash table is walked, by its keys. -/
structure Walk where
  order : List ℕ → List ℕ
  perm : ∀ keys, (order keys).Perm keys

/-- What the system answers while `run` starts. -/
structure Startup where
  epollFd : OpenAnswer
  maskFault : Option Bytes := none
  signalFd : OpenAnswer
  listenerFault : Option Bytes := none
  signalFault : Option Bytes := none

/-- What `epoll_wait` gives, with the signals that can be read then, and the clock and the
order for `sweepIdle`. -/
inductive Round
  | eintr
  | err (text : Bytes)
  | ready (batch : List (Sys × Event)) (signals : List ℕ) (now : ℤ) (walk : Walk)

namespace Server

/-- The first half of `run`: the line of the error, if any, and the descriptors that are open
then. -/
def boot (listenerFd : ℕ) (a : Startup) (os : Os) :
    Option ServerLine × Option ℕ × Option ℕ × Os :=
  match os.openOther a.epollFd with
  | (.error text, os) => (some (.epollCreate text), none, none, os)
  | (.ok ep, os) =>
    match a.maskFault with
    | some text => (some (.sigprocmask text), some ep, none, os)
    | none =>
      match os.openOther a.signalFd with
      | (.error text, os) => (some (.signalfd text), some ep, none, os)
      | (.ok g, os) =>
        match os.epollAdd listenerFd EPOLLIN a.listenerFault.isSome with
        | (false, os) => (some (.epollCtl (a.listenerFault.getD [])), some ep, some g, os)
        | (true, os) =>
          match os.epollAdd g EPOLLIN a.signalFault.isSome with
          | (false, os) => (some (.epollCtl (a.signalFault.getD [])), some ep, some g, os)
          | (true, os) => (none, some ep, some g, os)

/-- An event of the signalfd is in the batch. -/
def signalled (listenerFd signalFd : ℕ) (batch : List (Sys × Event)) : Bool :=
  batch.any fun p => p.2.fd ≠ listenerFd ∧ p.2.fd = signalFd

/-- The loop of `run`, with the lines logged before. It has not returned when the rounds are
used up. -/
def loop (srv : Server) (os : Os) (lines : List ServerLine) :
    List Round → Option ℕ × List ServerLine × Server × Os
  | [] => (none, lines, srv, os)
  | .eintr :: rounds => srv.loop os lines rounds
  | .err text :: _ => (some 1, lines ++ [.epollWait text], srv, os)
  | .ready batch signals now walk :: rounds =>
    let lines := lines ++
      if signalled srv.listenerFd srv.signalFd batch then signals.map .signal else []
    let (srv, os) := srv.dispatchAll os batch
    let (srv, os) := srv.sweepIdle os now (walk.order srv.sessions.keys)
    if srv.running then srv.loop os lines rounds
    else
      let pending := srv.sessions.keys.length
      let (srv, os) := srv.shutdown os (walk.order srv.sessions.keys)
      (some 0, lines ++ (if pending > 0 then [.interrupted pending] else []) ++ [.stopped], srv, os)

/-- `class Server` when `run` has returned: `m_epollFd` and `m_signalFd`, if they are open, and
the rest. -/
structure Returned where
  epollFd : Option ℕ
  signalFd : Option ℕ
  srv : Server
  os : Os

/-- `Server::run`. `address` is what the listener is described by. -/
def run (config : ServerConfig) (listenerFd : ℕ) (address : Bytes) (a : Startup)
    (rounds : List Round) (os : Os) : Option ℕ × List ServerLine × Returned :=
  match boot listenerFd a os with
  | (some line, ep, g, os) => (some 1, [line], ⟨ep, g, create config listenerFd 0, os⟩)
  | (none, ep, g, os) =>
    let (code, lines, srv, os) := (create config listenerFd (g.getD 0)).loop os
      [.started address, .outDir config.outDir, .awaiting] rounds
    (code, lines, ⟨ep, g, srv, os⟩)

/-- The body of `~Server`. -/
def closeFds (epollFd signalFd : Option ℕ) (os : Os) : Os :=
  let os := match epollFd with
    | some ep => os.closeEpoll ep
    | none => os
  match signalFd with
  | some g => os.close g
  | none => os

/-- `~Server`: the two descriptors are closed, then the members are destroyed. -/
def Returned.destroy (r : Returned) (walk : Walk) : Os :=
  let os := closeFds r.epollFd r.signalFd r.os
  if r.srv.ended then os else (r.srv.shutdown os (walk.order r.srv.sessions.keys)).2

/-- What a round comes to. -/
def verdict (listenerFd signalFd : ℕ) : Round → Option ℕ
  | .eintr => none
  | .err _ => some 1
  | .ready batch _ _ _ => if signalled listenerFd signalFd batch then some 0 else none

/-! ### The loop -/

section Loop

variable {srv : Server} {os : Os}

theorem dispatchAll_steps (hend : srv.ended = false) (evs : List (Sys × Event)) :
    Steps (srv, os) (srv.dispatchAll os evs) := by
  induction evs generalizing srv os with
  | nil => exact .refl
  | cons p evs ih =>
    have hstep := Step.dispatch srv { p.1 with os := os } p.2 hend
    exact .head hstep (ih ((dispatch_fixed srv _ p.2).ended.trans hend))

theorem closeSession_running (srv : Server) (os : Os) (fd : ℕ) (reason : Bytes) :
    (srv.closeSession os fd reason).1.running = srv.running := by
  rw [closeSession]
  split <;> rfl

theorem closeSessions_running (srv : Server) (os : Os) (fds : List ℕ) (reason : Bytes) :
    (fds.foldl (fun (p : Server × Os) fd => p.1.closeSession p.2 fd reason)
      (srv, os)).1.running = srv.running := by
  induction fds generalizing srv os with
  | nil => rfl
  | cons fd fds ih => exact (ih _ _).trans (closeSession_running srv os fd reason)

theorem acceptOne_running (srv : Server) (os : Os) (c : Incoming) (conn : ℕ) :
    (srv.acceptOne os c conn).1.running = srv.running := by
  rw [acceptOne]
  split
  · rfl
  dsimp only
  split
  · rfl
  · rw [emplace]
    split <;> rfl

theorem acceptConnections_running (srv : Server) (os : Os) (cs : List Incoming) :
    (srv.acceptConnections os cs).1.running = srv.running := by
  induction cs generalizing srv os with
  | nil => rfl
  | cons c cs ih =>
    rw [acceptConnections]
    split
    · rfl
    · exact (ih _ _).trans (acceptOne_running srv _ c _)

theorem handleSession_running (srv : Server) (sys : Sys) (ev : Event) :
    (srv.handleSession sys ev).1.running = srv.running := by
  rw [handleSession]
  split
  · rfl
  split
  · exact closeSession_running _ _ _ _
  dsimp only
  split
  · split
    · exact closeSession_running _ _ _ _
    · rfl
  · rfl

/-- The loop goes on until a signal has come. -/
theorem dispatchAll_running (srv : Server) (os : Os) (evs : List (Sys × Event)) :
    (srv.dispatchAll os evs).1.running =
      (srv.running && !signalled srv.listenerFd srv.signalFd evs) := by
  induction evs generalizing srv os with
  | nil => simp [dispatchAll, signalled]
  | cons p evs ih =>
    have hfixed := dispatch_fixed srv { p.1 with os := os } p.2
    have hone : (srv.dispatch { p.1 with os := os } p.2).1.running =
        (srv.running && !decide (p.2.fd ≠ srv.listenerFd ∧ p.2.fd = srv.signalFd)) := by
      rw [dispatch]
      by_cases hl : p.2.fd = srv.listenerFd
      · rw [if_pos hl, acceptConnections_running]
        simp [hl]
      by_cases hg : p.2.fd = srv.signalFd
      · have hne : srv.signalFd ≠ srv.listenerFd := hg ▸ hl
        rw [if_neg hl, if_pos hg]
        simp [hg, hne]
      · rw [if_neg hl, if_neg hg, handleSession_running]
        simp [hg]
    rw [dispatchAll, ih, hone, hfixed.listenerFd, hfixed.signalFd]
    simp only [signalled, List.any_cons, Bool.not_or, Bool.and_assoc]

/-- One round: the batch, and the sweep. -/
theorem round_steps (hend : srv.ended = false) (os : Os) (batch : List (Sys × Event)) (now : ℤ)
    (walk : Walk) :
    Steps (srv, os) ((srv.dispatchAll os batch).1.sweepIdle (srv.dispatchAll os batch).2 now
      (walk.order (srv.dispatchAll os batch).1.sessions.keys)) :=
  (dispatchAll_steps hend batch).tail
    (.sweepIdle _ _ now _ ((dispatchAll_fixed srv os batch).ended.trans hend) (walk.perm _))

theorem round_fixed (srv : Server) (os : Os) (batch : List (Sys × Event)) (now : ℤ)
    (order : List ℕ) :
    srv.Fixed ((srv.dispatchAll os batch).1.sweepIdle (srv.dispatchAll os batch).2 now order).1 :=
  (dispatchAll_fixed srv os batch).trans (closeSessions_fixed _ _ _ _)

theorem round_running (srv : Server) (os : Os) (batch : List (Sys × Event)) (now : ℤ)
    (order : List ℕ) :
    ((srv.dispatchAll os batch).1.sweepIdle (srv.dispatchAll os batch).2 now order).1.running =
      (srv.running && !signalled srv.listenerFd srv.signalFd batch) :=
  (closeSessions_running _ _ _ _).trans (dispatchAll_running srv os batch)

/-- **The states of the loop are states that the server reaches**, and it has ended when the
loop has ended with 0. -/
theorem loop_steps (hend : srv.ended = false) (lines : List ServerLine) (rounds : List Round) :
    Steps (srv, os) (srv.loop os lines rounds).2.2 ∧
      ((srv.loop os lines rounds).2.2.1.ended = true ↔
        (srv.loop os lines rounds).1 = some 0) := by
  induction rounds generalizing srv os lines with
  | nil => exact ⟨.refl, by rw [loop, hend]; simp⟩
  | cons r rounds ih =>
    cases r with
    | eintr => exact ih hend lines
    | err text => exact ⟨.refl, by rw [loop, hend]; simp⟩
    | ready batch signals now walk =>
      have hsteps := round_steps hend os batch now walk
      have hend' := (round_fixed srv os batch now
        (walk.order (srv.dispatchAll os batch).1.sessions.keys)).ended.trans hend
      simp only [loop]
      generalize sweepIdle _ _ _ _ = c at hsteps hend' ⊢
      obtain ⟨srv', os'⟩ := c
      dsimp only at hend' ⊢
      split
      · obtain ⟨hrest, hiff⟩ := ih hend' _
        exact ⟨hsteps.trans hrest, hiff⟩
      · exact ⟨hsteps.tail (.shutdown srv' os' _ hend' (walk.perm _)), by simp [shutdown]⟩

/-- The first round that comes to something decides. -/
theorem loop_code (hrunning : srv.running = true) (lines : List ServerLine) (rounds : List Round) :
    (srv.loop os lines rounds).1 =
      rounds.findSome? (verdict srv.listenerFd srv.signalFd) := by
  induction rounds generalizing srv os lines with
  | nil => rfl
  | cons r rounds ih =>
    cases r with
    | eintr => exact ih hrunning lines
    | err text => rfl
    | ready batch signals now walk =>
      have hrun := round_running srv os batch now
        (walk.order (srv.dispatchAll os batch).1.sessions.keys)
      have hfixed := round_fixed srv os batch now
        (walk.order (srv.dispatchAll os batch).1.sessions.keys)
      rw [hrunning, Bool.true_and] at hrun
      rw [List.findSome?_cons, verdict]
      simp only [loop]
      generalize sweepIdle _ _ _ _ = c at hrun hfixed ⊢
      obtain ⟨srv', os'⟩ := c
      dsimp only at hrun hfixed ⊢
      cases hsig : signalled srv.listenerFd srv.signalFd batch with
      | true =>
        rw [hsig] at hrun
        rw [hrun]
        rfl
      | false =>
        rw [hsig] at hrun
        rw [if_pos (by rw [hrun]; rfl), ih (by rw [hrun]; rfl), hfixed.listenerFd,
          hfixed.signalFd]
        rfl

end Loop

/-! ### The destructor

It closes the epoll instance and the signalfd before the sessions are destroyed, which is as
good as afterwards. -/

section Destructor

variable {k : Os → Os} {os : Os} {ep g : Option ℕ}

/-- Something is done to the system that can be done as well after closing and removing
files. -/
structure Passes (k : Os → Os) : Prop where
  close : ∀ os fd, (k os).close fd = k (os.close fd)
  unlink : ∀ os path, (k os).unlink path = k (os.unlink path)

theorem Passes.comp {k' : Os → Os} (h : Passes k) (h' : Passes k') :
    Passes fun os => k' (k os) where
  close := fun os fd => by rw [h'.close, h.close]
  unlink := fun os path => by rw [h'.unlink, h.unlink]

theorem Passes.abort (h : Passes k) (w : FileWriter) (os : Os) :
    w.abort (k os) = ((w.abort os).1, k (w.abort os).2) := by
  unfold FileWriter.abort
  cases w.fd with
  | none =>
    dsimp only
    split
    · rfl
    · rw [h.unlink]
  | some fd =>
    dsimp only
    split
    · rw [h.close]
    · rw [h.close, h.unlink]

theorem Passes.drop (h : Passes k) (srv : Server) (os : Os) (s : Session) :
    srv.drop (k os) s = ((srv.drop os s).1, k (srv.drop os s).2) := by
  simp only [Server.drop, Session.destroy_eq, h.close, h.abort]

theorem Passes.eraseSession (h : Passes k) (srv : Server) (os : Os) (fd : ℕ) :
    srv.eraseSession (k os) fd = ((srv.eraseSession os fd).1, k (srv.eraseSession os fd).2) := by
  rw [Server.eraseSession, Server.eraseSession]
  split
  · rfl
  · exact h.drop _ _ _

theorem Passes.clear (h : Passes k) (srv : Server) (os : Os) (fds : List ℕ) :
    fds.foldl (fun (p : Server × Os) fd => p.1.eraseSession p.2 fd) (srv, k os) =
      ((fds.foldl (fun (p : Server × Os) fd => p.1.eraseSession p.2 fd) (srv, os)).1,
        k (fds.foldl (fun (p : Server × Os) fd => p.1.eraseSession p.2 fd) (srv, os)).2) := by
  induction fds generalizing srv os with
  | nil => rfl
  | cons fd fds ih => rw [List.foldl_cons, h.eraseSession, ih, List.foldl_cons]

theorem Passes.shutdown (h : Passes k) (srv : Server) (os : Os) (order : List ℕ) :
    (srv.shutdown (k os) order).2 = k (srv.shutdown os order).2 := by
  simp only [Server.shutdown, h.clear, h.close]

theorem update_none_comm {β : Type*} (m : ℕ → Option β) (a b : ℕ) :
    Function.update (Function.update m a none) b none =
      Function.update (Function.update m b none) a none := by
  by_cases hab : a = b
  · rw [hab]
  · exact Function.update_comm hab none none m

theorem close_passes (f : ℕ) : Passes fun os => os.close f where
  close := fun os fd => by
    simp only [Os.close, update_none_comm os.fds f fd, update_none_comm os.epoll f fd]
  unlink := fun _ _ => rfl

theorem closeEpoll_passes (f : ℕ) : Passes fun os => os.closeEpoll f where
  close := fun os fd => by
    have hnone : Function.update (fun _ : ℕ => (none : Option (BitVec 32))) fd none =
        fun _ => none := Function.update_eq_self fd _
    simp only [Os.closeEpoll, Os.close, update_none_comm os.fds f fd, hnone]
  unlink := fun _ _ => rfl

theorem closeFds_passes (ep g : Option ℕ) : Passes (closeFds ep g) := by
  have hep : Passes fun os => match ep with
      | some ep => os.closeEpoll ep
      | none => os := by
    cases ep with
    | none => exact ⟨fun _ _ => rfl, fun _ _ => rfl⟩
    | some ep => exact closeEpoll_passes ep
  have hg : Passes fun os => match g with
      | some g => os.close g
      | none => os := by
    cases g with
    | none => exact ⟨fun _ _ => rfl, fun _ _ => rfl⟩
    | some g => exact close_passes g
  exact hep.comp hg

theorem closeFds_fds (ep g : Option ℕ) (os : Os) (f : ℕ) :
    (closeFds ep g os).fds f = if ep = some f ∨ g = some f then none else os.fds f := by
  have hclose : ∀ (os : Os) (a : ℕ),
      (os.close a).fds f = if some a = some f then none else os.fds f :=
    fun os a => by simp [eq_comm]
  have hepoll : ∀ (os : Os) (a : ℕ),
      (os.closeEpoll a).fds f = if some a = some f then none else os.fds f := fun os a =>
    hclose os a
  cases ep <;> cases g <;> simp only [closeFds, hclose, hepoll] <;> grind

theorem closeFds_entries (ep g : Option ℕ) (os : Os) : (closeFds ep g os).entries = os.entries := by
  cases ep <;> cases g <;> rfl

theorem closeFds_epoll (ep : ℕ) (g : Option ℕ) (os : Os) (f : ℕ) :
    (closeFds (some ep) g os).epoll f = none := by
  cases g with
  | none => rfl
  | some g =>
    show (Os.close _ g).epoll f = none
    rw [Os.close_epoll]
    split <;> rfl

end Destructor

/-! ### The start -/

/-- A system in which `run` may be called: the listener is open, and nothing has begun. -/
structure Idle (os : Os) (listenerFd : ℕ) : Prop where
  wf : os.WF
  sockets : ∀ f c, os.fds f ≠ some (.socket c)
  epoll : ∀ f, os.epoll f = none
  listener : os.fds listenerFd = some .other

section Boot

variable {os₀ : Os} {l : ℕ}

theorem openOther_cases (os : Os) (ans : OpenAnswer) :
    (∃ text, os.openOther ans = (.error text, os)) ∨
      ∃ n, os.fds n = none ∧
        os.openOther ans = (.ok n, { os with fds := Function.update os.fds n (some .other) }) := by
  cases ans with
  | err text => exact .inl ⟨text, rfl⟩
  | fd n =>
    by_cases hn : (os.fds n).isSome
    · exact .inl ⟨_, if_pos hn⟩
    · exact .inr ⟨n, by simpa using hn, if_neg hn⟩

/-- Another descriptor is open. -/
theorem Idle.opens (h : Idle os₀ l) {n : ℕ} (hn : os₀.fds n = none) :
    Idle { os₀ with fds := Function.update os₀.fds n (some .other) } l := by
  have hl : l ≠ n := by
    rintro rfl
    rw [h.listener] at hn
    cases hn
  refine ⟨⟨h.wf.seq, h.wf.dir, fun f i hf => ?_⟩, fun f c hf => ?_, h.epoll, ?_⟩
  · by_cases hfn : f = n
    · subst hfn
      simp at hf
    · simp only [Function.update_of_ne hfn] at hf
      exact h.wf.fds f i hf
  · by_cases hfn : f = n
    · subst hfn
      simp at hf
    · simp only [Function.update_of_ne hfn] at hf
      exact h.sockets f c hf
  · simpa [hl] using h.listener

/-- What the first half of `run` comes to: it has opened what the destructor closes, and on
success the server can go on. -/
structure Booted (os₀ : Os) (l : ℕ) (b : Option ServerLine × Option ℕ × Option ℕ × Os) : Prop where
  fds : (closeFds b.2.1 b.2.2.1 b.2.2.2).fds = os₀.fds
  entries : b.2.2.2.entries = os₀.entries
  dir : b.2.2.2.dir = os₀.dir
  listener : b.2.1 ≠ some l ∧ b.2.2.1 ≠ some l
  epoll : b.2.1 = none → ∀ f, b.2.2.2.epoll f = none
  ready : b.1 = none → b.2.1 ≠ none ∧ ∃ g os₁, b.2.2.1 = some g ∧ Ready os₁ l g ∧
    b.2.2.2 = registered os₁ l g

theorem boot_spec (h : Idle os₀ l) (a : Startup) : Booted os₀ l (boot l a os₀) := by
  rw [boot]
  rcases openOther_cases os₀ a.epollFd with ⟨text, hep⟩ | ⟨ep, hfree, hep⟩
  · rw [hep]
    exact ⟨rfl, rfl, rfl, by simp, fun _ => h.epoll, by simp⟩
  rw [hep]
  have hidle := h.opens hfree
  have hnl : ep ≠ l := by
    rintro rfl
    rw [h.listener] at hfree
    cases hfree
  obtain ⟨os₁, hos₁⟩ : ∃ os₁ : Os, os₁ =
      { os₀ with fds := Function.update os₀.fds ep (some .other) } := ⟨_, rfl⟩
  rw [← hos₁] at hidle ⊢
  have hfds₁ : ∀ os₂ : Os, os₂.fds = os₁.fds → (closeFds (some ep) none os₂).fds = os₀.fds := by
    intro os₂ hos₂
    funext f
    rw [closeFds_fds, hos₂, hos₁]
    by_cases hf : f = ep
    · simp [hf, hfree]
    · simp [hf, Ne.symm hf]
  have hsame : os₁.dir = os₀.dir ∧ os₁.entries = os₀.entries := by rw [hos₁]; exact ⟨rfl, rfl⟩
  dsimp only
  split
  · exact ⟨hfds₁ os₁ rfl, hsame.2, hsame.1, by simp [hnl], by simp, by simp⟩
  rcases openOther_cases os₁ a.signalFd with ⟨text, hg⟩ | ⟨g, hfree', hg⟩
  · rw [hg]
    exact ⟨hfds₁ os₁ rfl, hsame.2, hsame.1, by simp [hnl], by simp, by simp⟩
  rw [hg]
  have hidle' := hidle.opens hfree'
  have hgl : g ≠ l := by
    rintro rfl
    rw [hidle.listener] at hfree'
    cases hfree'
  obtain ⟨os₂, hos₂⟩ : ∃ os₂ : Os, os₂ =
      { os₁ with fds := Function.update os₁.fds g (some .other) } := ⟨_, rfl⟩
  rw [← hos₂] at hidle' ⊢
  have hfds₂ : ∀ os₃ : Os, os₃.fds = os₂.fds →
      (closeFds (some ep) (some g) os₃).fds = os₀.fds := by
    intro os₃ hos₃
    funext f
    rw [← hfds₁ os₁ rfl, closeFds_fds, closeFds_fds, hos₃, hos₂]
    by_cases hf : f = g
    · simp [hf, hfree']
    · simp [hf, Ne.symm hf]
  have hsame' : os₂.dir = os₀.dir ∧ os₂.entries = os₀.entries := by rw [hos₂]; exact hsame
  have hready : Ready os₂ l g :=
    ⟨hidle'.wf, hidle'.sockets, hidle'.epoll, hidle'.listener, by rw [hos₂]; simp⟩
  dsimp only
  cases hadd : os₂.epollAdd l EPOLLIN a.listenerFault.isSome with
  | mk ok os₃ =>
    rw [Os.epollAdd] at hadd
    split at hadd <;> cases hadd
    · exact ⟨hfds₂ os₂ rfl, hsame'.2, hsame'.1, by simp [hnl, hgl], by simp, by simp⟩
    dsimp only
    cases hadd : (os₂.setInterest l EPOLLIN).epollAdd g EPOLLIN a.signalFault.isSome with
    | mk ok os₄ =>
      rw [Os.epollAdd] at hadd
      split at hadd <;> cases hadd
      · exact ⟨hfds₂ _ rfl, hsame'.2, hsame'.1, by simp [hnl, hgl], by simp, by simp⟩
      · exact ⟨hfds₂ _ rfl, hsame'.2, hsame'.1, by simp [hnl, hgl], by simp,
          fun _ => ⟨by simp, g, os₂, rfl, hready, rfl⟩⟩

end Boot

/-! ### The whole run -/

section Run

variable {os₀ : Os} {config : ServerConfig} {l : ℕ}

/-- What `run` returns: 1 if it could not start; then the first round that comes to something
decides. -/
theorem run_code (config : ServerConfig) (l : ℕ) (address : Bytes) (a : Startup)
    (rounds : List Round) (os : Os) :
    (run config l address a rounds os).1 =
      if (boot l a os).1.isSome then some 1
      else rounds.findSome? (verdict l ((boot l a os).2.2.1.getD 0)) := by
  rw [run]
  rcases boot l a os with ⟨_ | line, ep, g, os₁⟩
  · exact loop_code rfl _ rounds
  · rfl

/-- A server in which no session is left: the listener is closed. -/
theorem shutdown_create (config : ServerConfig) (l g : ℕ) (os : Os) (walk : Walk) :
    ((create config l g).shutdown os (walk.order (create config l g).sessions.keys)).2 =
      os.close l := by
  have hkeys : walk.order (create config l g).sessions.keys = [] :=
    (walk.perm []).eq_nil
  rw [hkeys]
  rfl

/-- The destructor brings every reachable state to an end: it does what the end of `run` does,
where that has not been done. -/
theorem destroy_reach {g : ℕ} {srv : Server} {os : Os} (hreach : Reach config l g os₀ srv os)
    (ep fd : Option ℕ) (walk : Walk) :
    ∃ srv' os', Reach config l g os₀ srv' os' ∧ srv'.ended = true ∧
      (∀ C e, Stored C srv'.all e → Stored C srv.all e) ∧
      (Returned.mk ep fd srv os).destroy walk = closeFds ep fd os' := by
  cases hend : srv.ended with
  | true => exact ⟨srv, os, hreach, hend, fun _ _ h => h, if_pos hend⟩
  | false =>
    refine ⟨_, _, hreach.tail (.shutdown srv os _ hend (walk.perm srv.sessions.keys)), rfl,
      fun _ _ => stored_of_shutdown, ?_⟩
    rw [Returned.destroy]
    dsimp only
    rw [hend, (closeFds_passes ep fd).shutdown]
    rfl

/-- The system when the server has been destroyed: the descriptors that were open before are open,
but the listener, and files have been put in that the sessions `L` have stored. -/
structure Leaves (config : ServerConfig) (l : ℕ) (L : List Session) (os₀ os : Os) : Prop where
  fds : ∀ f, os.fds f = if f = l then none else os₀.fds f
  epoll : ∀ f, os.epoll f = none
  puts : Puts (Stored Set.univ L) os₀.entries os.entries
  names : ∀ e ∈ os.entries, e ∈ os₀.entries ∨ ∃ t suffix, suffix < 1000 ∧
    e.1 = finalPath config.outDir (candidateName (fileTimestamp t) suffix)

section Ended

variable {os₂ os : Os} {srv : Server} {g : ℕ}

/-- A published file has a final name in the output directory. -/
theorem name_of_published (h : Ready os₂ l g) (hreach : Reach config l g os₂ srv os)
    {s : Session} (hs : s ∈ srv.all) {p : Bytes} {i : ℕ}
    (hp : s.writer.published = some (p, i)) :
    ∃ t suffix, suffix < 1000 ∧
      p = finalPath config.outDir (candidateName (fileTimestamp t) suffix) := by
  have hdisk := (reach_good h hreach).disk
  have hcalls := (hdisk.lasting s hs).calls
  obtain ⟨t, suffix, hlt, hpath⟩ := hcalls.linked _ _ ((hcalls.published p).mpr ⟨i, hp⟩)
  rw [hdisk.dir s hs, reach_config hreach] at hpath
  exact ⟨t, suffix, hlt, hpath⟩

/-- What has been put into the empty archive has been put into the directory. -/
theorem puts_of_ended (h : Ready os₂ l g) (hreach : Reach config l g os₂ srv os)
    (hend : srv.ended = true) : Puts (Stored Set.univ srv.all) os₂.entries os.entries := by
  obtain ⟨hentries, hfree⟩ := entries_of_ended h hreach hend
  have hputs := (puts_of_reach h hreach Set.univ).beside (D := os₂.entries) fun e he k hk => by
    have hsome : (os₂.dir e.1).map os₂.data = some k := hk
    rw [hfree e he] at hsome
    cases hsome
  rwa [Set.union_empty, ← hentries] at hputs

/-- The start has gone well, and the server has come to its end. -/
theorem leaves_of_ended {ep : ℕ}
    (hbooted : Booted os₀ l (none, some ep, some g, registered os₂ l g)) (hready : Ready os₂ l g)
    (hreach : Reach config l g os₂ srv os) (hend : srv.ended = true) :
    Leaves config l srv.all os₀ (closeFds (some ep) (some g) os) := by
  have hstart : os₂.entries = os₀.entries := hbooted.entries
  refine ⟨fun f => ?_, closeFds_epoll _ _ _, ?_, fun e he => ?_⟩
  · have hboot := congrFun hbooted.fds f
    have hlistener := hbooted.listener
    rw [closeFds_fds] at hboot ⊢
    rw [fds_of_not_held hready hreach (by rw [holding_of_ended hready hreach hend]; simp)]
    by_cases hf : some ep = some f ∨ some g = some f
    · -- it was free before
      have hne : f ≠ l := by
        rintro rfl
        exact hf.elim hlistener.1 hlistener.2
      rw [if_pos hf, if_neg hne]
      exact (if_pos hf).symm.trans hboot
    · have hsame : os₂.fds f = os₀.fds f := (if_neg hf).symm.trans hboot
      rw [if_neg hf, hsame]
      simp [hend]
  · rw [closeFds_entries, ← hstart]
    exact puts_of_ended hready hreach hend
  · rw [closeFds_entries, (entries_of_ended hready hreach hend).1, hstart] at he
    refine he.imp id ?_
    rintro ⟨s, hs, -, i, hp, -⟩
    exact name_of_published hready hreach hs hp

end Ended

/-- The server could not start, and the listener is closed all the same. -/
theorem leaves_of_fault {line : ServerLine} {ep g : Option ℕ} {os₁ : Os}
    (hbooted : Booted os₀ l (some line, ep, g, os₁)) (L : List Session) :
    Leaves config l L os₀ ((closeFds ep g os₁).close l) := by
  have hentries : ((closeFds ep g os₁).close l).entries = os₀.entries :=
    (closeFds_entries ep g os₁).trans hbooted.entries
  have hepoll : ∀ f, (closeFds ep g os₁).epoll f = none := by
    intro f
    cases ep with
    | some ep => exact closeFds_epoll ep g os₁ f
    | none =>
      cases g with
      | none => exact hbooted.epoll rfl f
      | some g =>
        show (Os.close _ g).epoll f = none
        rw [Os.close_epoll, hbooted.epoll rfl f]
        split <;> rfl
  refine ⟨fun f => ?_, fun f => ?_, ?_, fun e he => .inl ?_⟩
  · rw [Os.close_fds, hbooted.fds]
  · rw [Os.close_epoll, hepoll f]
    split <;> rfl
  · rw [hentries]
    exact .refl
  · rwa [hentries] at he

/-- However `run` returns, the destructor leaves this behind. -/
theorem run_leaves (h : Idle os₀ l) (config : ServerConfig) (address : Bytes) (a : Startup)
    (rounds : List Round) {code : ℕ} {lines : List ServerLine} {r : Returned}
    (hrun : run config l address a rounds os₀ = (some code, lines, r)) (walk : Walk) :
    Leaves config l r.srv.all os₀ (r.destroy walk) := by
  have hbooted := boot_spec h a
  rw [run] at hrun
  generalize boot l a os₀ = out at hrun hbooted
  obtain ⟨_ | line, ep, g, os₁⟩ := out
  · obtain ⟨hep, g', os₂, hg, hready, hos₁⟩ := hbooted.ready rfl
    obtain ⟨ep', rfl⟩ := Option.ne_none_iff_exists'.mp hep
    dsimp only at hg hos₁ hrun
    subst hg hos₁
    have hreach : Reach config l g' os₂ ((create config l g').loop (registered os₂ l g')
        [.started address, .outDir config.outDir, .awaiting] rounds).2.2.1 _ :=
      (loop_steps rfl _ rounds).1
    rw [Option.getD_some] at hrun
    generalize loop _ _ _ _ = out at hrun hreach
    obtain ⟨code', lines', srv, os⟩ := out
    cases hrun
    obtain ⟨srv', os', hreach', hend, hstored, hdestroy⟩ :=
      destroy_reach hreach (some ep') (some g') walk
    rw [hdestroy]
    have hleaves := leaves_of_ended hbooted hready hreach' hend
    exact { hleaves with puts := hleaves.puts.mono (hstored Set.univ) }
  · cases hrun
    have hdestroy : (Returned.mk ep g (create config l 0) os₁).destroy walk =
        (closeFds ep g os₁).close l := shutdown_create config l 0 _ walk
    rw [hdestroy]
    exact leaves_of_fault hbooted _

/-- **What a run leaves behind.**  Whatever the system answers while `run` starts, whatever
happens in the rounds and however `run` returns,

* it returns 1 if it could not start, and otherwise 0 or 1 as a signal or an error of
  `epoll_wait` comes first;
* when the server has been destroyed, the descriptors that were open before are open, but the
  listener, and no others;
* the directory is as before, and the files that were put in, each under a final name that was
  free, and each stored by a session of this run: it has published the path, and what it has
  received is an upload of the content, as the protocol asks. -/
theorem run_releases (h : Idle os₀ l) (config : ServerConfig) (address : Bytes) (a : Startup)
    (rounds : List Round) {code : ℕ} {lines : List ServerLine} {r : Returned}
    (hrun : run config l address a rounds os₀ = (some code, lines, r)) (walk : Walk) :
    some code = (if (boot l a os₀).1.isSome then some 1
      else rounds.findSome? (verdict l ((boot l a os₀).2.2.1.getD 0))) ∧
      (∀ f, (r.destroy walk).fds f = if f = l then none else os₀.fds f) ∧
      (∀ f, (r.destroy walk).epoll f = none) ∧
      Puts (Stored Set.univ r.srv.all) os₀.entries (r.destroy walk).entries ∧
      ∀ e ∈ (r.destroy walk).entries, e ∈ os₀.entries ∨
        ∃ t suffix, suffix < 1000 ∧
          e.1 = finalPath config.outDir (candidateName (fileTimestamp t) suffix) := by
  obtain ⟨hfds, hepoll, hputs, hnames⟩ := run_leaves h config address a rounds hrun walk
  have hcode := run_code config l address a rounds os₀
  rw [hrun] at hcode
  exact ⟨hcode, hfds, hepoll, hputs, hnames⟩

/-- A server to which a client has sent three bytes when the signal comes. -/
theorem run_releases_three_bytes :
    ∃ (rounds : List Round) (lines : List ServerLine) (r : Returned) (walk : Walk)
        (e : Bytes × Bytes),
      run { outDir := str "in", idleTimeout := 30, maxSessions := 2 } 3 (str "tcp://0.0.0.0:5050")
        { epollFd := .fd 4, signalFd := .fd 5 } rounds (bare 1 3 3) = (some 0, lines, r) ∧
      lines.getLast? = some .stopped ∧ (r.destroy walk).fds 3 = none ∧
      (r.destroy walk).fds 6 = none ∧ e ∈ (r.destroy walk).entries ∧
      Stored Set.univ r.srv.all e := by
  obtain ⟨sys, hsys⟩ : ∃ sys : Sys, sys =
      { os := Os.empty 1
        sends := [.took 1000]
        writes := [.took 3]
        openAnswer := .fd 7
        localTime := { year := 2024, mon := 0, mday := 1, hour := 0, min := 0, sec := 0 }
        now := 0 } := ⟨_, rfl⟩
  have hidle : Idle (bare 1 3 3) 3 :=
    let h := ready_bare 1 3 3
    ⟨h.wf, h.sockets, h.epoll, h.listener⟩
  obtain ⟨out, hout⟩ : ∃ out,
      run { outDir := str "in", idleTimeout := 30, maxSessions := 2 } 3 (str "tcp://0.0.0.0:5050")
        { epollFd := .fd 4, signalFd := .fd 5 }
        [.ready [(sys, { fd := 3, events := EPOLLIN, incoming := [{ fd := 6, now := 0 }] })] [] 0
            ⟨id, fun _ => .refl _⟩,
          .eintr,
          .ready [(sys, { fd := 6
                          events := EPOLLIN
                          reads := [.bytes (buildHello 3 (str "a.txt") ++
                            buildData [1#8, 2#8, 3#8] ++ buildEnd (crc32 [1#8, 2#8, 3#8]))] })]
            [] 0 ⟨id, fun _ => .refl _⟩,
          .ready [(sys, { fd := 5, events := EPOLLIN })] [15] 0 ⟨id, fun _ => .refl _⟩]
        (bare 1 3 3) = out := ⟨_, rfl⟩
  have hfacts : out.1 = some 0 ∧ out.2.1.getLast? = some .stopped ∧
      (out.2.2.destroy ⟨id, fun _ => .refl _⟩).dir (str "in/20240101_000000.hex") = some 0 := by
    rw [← hout, hsys]
    decide +kernel
  obtain ⟨code, lines, r⟩ := out
  obtain ⟨hcode, hlast, hdir⟩ := hfacts
  dsimp only at hcode hdir
  subst hcode
  obtain ⟨-, hfds, -, hputs, -⟩ := run_releases hidle _ _ _ _ hout ⟨id, fun _ => .refl _⟩
  have he : (str "in/20240101_000000.hex", (r.destroy ⟨id, fun _ => .refl _⟩).data 0) ∈
      (r.destroy ⟨id, fun _ => .refl _⟩).entries := by
    show ((r.destroy _).dir _).map _ = _
    rw [hdir]
    rfl
  refine ⟨_, lines, r, _, _, hout, hlast, (hfds 3).trans (if_pos rfl),
    (hfds 6).trans (if_neg (by decide)), he, (hputs.allowed he).resolve_left fun hold => ?_⟩
  cases hold

end Run

end Server

end Nexus
