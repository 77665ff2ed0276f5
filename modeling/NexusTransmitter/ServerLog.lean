/-
The outcome lines in the log of a server.

* `Server.reach_all` — what every call on a session preserves holds of all the sessions
  of a server, in every state that it reaches;
* `Server.reach_life` — every session of the server lives through calls of
  `handle`, `terminate` and the destructor, and gets no event once it is terminated;
* `Server.outcome_lines` — it has at most one outcome line exactly when no call
  cuts it off after it failed.
-/
import NexusTransmitter.ServerRun
import NexusTransmitter.SessionLog

namespace Nexus.Server

open Session (Life Request replay)

/-! ### What holds of all sessions -/

/-- A property of all the sessions there have been. -/
structure All (p : Session → Prop) (srv : Server) : Prop where
  live : ∀ fd e, srv.sessions.lookup fd = some e → p e.session
  gone : ∀ s ∈ srv.gone, p s

/-- What a property of sessions has to survive to hold of all of them, when the system
is such as `ok` says. -/
structure Lasts (ok : Sys → Prop) (p : Session → Prop) : Prop where
  create : ∀ id fd conn outDir now, p (Session.create id fd conn outDir now)
  serve : ∀ (s : Session) (r : Request), r.Meets ok → r.Allowed s → p s → p (r.serve s)

/-- A step in which the system is such as `ok` says. -/
inductive StepIn (ok : Sys → Prop) : Server × Os → Server × Os → Prop
  | dispatch (srv : Server) (sys : Sys) (ev : Event) (h : srv.ended = false) (hok : ok sys) :
      StepIn ok (srv, sys.os) (srv.dispatch sys ev)
  | sweepIdle (srv : Server) (os : Os) (now : ℤ) (order : List ℕ) (h : srv.ended = false)
      (horder : order.Perm srv.sessions.keys) : StepIn ok (srv, os) (srv.sweepIdle os now order)
  | shutdown (srv : Server) (os : Os) (order : List ℕ) (h : srv.ended = false)
      (horder : order.Perm srv.sessions.keys) : StepIn ok (srv, os) (srv.shutdown os order)

/-- The states that a server reaches in a system such as `ok` says. -/
def ReachIn (ok : Sys → Prop) (config : ServerConfig) (listenerFd signalFd : ℕ) (os₀ : Os)
    (srv : Server) (os : Os) : Prop :=
  Relation.ReflTransGen (StepIn ok)
    (create config listenerFd signalFd, registered os₀ listenerFd signalFd) (srv, os)

theorem StepIn.step {ok : Sys → Prop} {x y : Server × Os} (h : StepIn ok x y) : Step x y := by
  cases h with
  | dispatch srv sys ev hend hok => exact .dispatch srv sys ev hend
  | sweepIdle srv os now order hend horder => exact .sweepIdle srv os now order hend horder
  | shutdown srv os order hend horder => exact .shutdown srv os order hend horder

theorem Step.stepIn {x y : Server × Os} (h : Step x y) : StepIn (fun _ => True) x y := by
  cases h with
  | dispatch srv sys ev hend => exact .dispatch srv sys ev hend trivial
  | sweepIdle srv os now order hend horder => exact .sweepIdle srv os now order hend horder
  | shutdown srv os order hend horder => exact .shutdown srv os order hend horder

theorem ReachIn.reach {ok : Sys → Prop} {config : ServerConfig} {l g : ℕ} {os₀ : Os} {srv : Server}
    {os : Os} (h : ReachIn ok config l g os₀ srv os) : Reach config l g os₀ srv os :=
  Relation.ReflTransGen.mono (fun _ _ => StepIn.step) _ _ h

theorem Reach.reachIn {config : ServerConfig} {l g : ℕ} {os₀ : Os} {srv : Server} {os : Os}
    (h : Reach config l g os₀ srv os) : ReachIn (fun _ => True) config l g os₀ srv os :=
  Relation.ReflTransGen.mono (fun _ _ => Step.stepIn) _ _ h

section All

variable {ok : Sys → Prop} {p : Session → Prop} {srv : Server} {os : Os} {fd : ℕ} {s : Session}

theorem All.of_mem (h : All p srv) (hs : s ∈ srv.all) : p s := by
  rcases List.mem_append.mp hs with hs | hs
  · obtain ⟨fd, e, he, rfl⟩ := mem_live.mp hs
    exact h.live fd e he
  · exact h.gone s hs

theorem All.update (h : All p srv) {e : Entry} (he : p e.session) : All p (srv.update fd e) where
  live := by
    intro f e₁ he₁
    by_cases hf : f = fd
    · rw [hf, Server.update, AList.lookup_insert] at he₁
      cases he₁
      exact he
    · rw [Server.update, AList.lookup_insert_ne hf] at he₁
      exact h.live f e₁ he₁
  gone := h.gone

theorem All.erase (h : All p srv) (fd : ℕ) :
    All p { srv with sessions := srv.sessions.erase fd } where
  live := by
    intro f e₁ he₁
    refine h.live f e₁ ?_
    by_cases hf : f = fd
    · rw [hf, AList.lookup_erase] at he₁
      cases he₁
    · rw [← AList.lookup_erase_ne hf]
      exact he₁
  gone := h.gone

theorem All.drop (h : All p srv) (hp : Lasts ok p) (hs : p s) : All p (srv.drop os s).1 where
  live := h.live
  gone := List.forall_mem_cons.mpr ⟨hp.serve s (.destroy os) trivial trivial hs, h.gone⟩

theorem All.closeSession (h : All p srv) (hp : Lasts ok p) (fd : ℕ) (reason : Bytes) :
    All p (srv.closeSession os fd reason).1 := by
  rw [Server.closeSession]
  split
  · exact h
  · rename_i e he
    exact (h.erase fd).drop hp (hp.serve e.session (.terminate os reason) trivial
      trivial (h.live fd e he))

theorem All.eraseSession (h : All p srv) (hp : Lasts ok p) (fd : ℕ) :
    All p (srv.eraseSession os fd).1 := by
  rw [Server.eraseSession]
  split
  · exact h
  · rename_i e he
    exact (h.erase fd).drop hp (h.live fd e he)

theorem All.acceptOne (h : All p srv) (hp : Lasts ok p) (c : Incoming) (conn : ℕ) :
    All p (srv.acceptOne os c conn).1 := by
  rw [Server.acceptOne]
  split
  · exact ⟨h.live, h.gone⟩
  have hnew := hp.create srv.nextSessionId c.fd conn srv.config.outDir c.now
  have hsrv : All p { srv with nextSessionId := (srv.nextSessionId + 1) % 2 ^ 64 } :=
    ⟨h.live, h.gone⟩
  dsimp only
  split
  · exact hsrv.drop hp hnew
  rw [emplace]
  split
  · exact hsrv.drop hp hnew
  · exact hsrv.update hnew

theorem All.acceptConnections (h : All p srv) (hp : Lasts ok p) (cs : List Incoming) :
    All p (srv.acceptConnections os cs).1 := by
  induction cs generalizing srv os with
  | nil => exact h
  | cons c cs ih =>
    rw [Server.acceptConnections]
    split
    · exact h
    · exact ih (h.acceptOne hp c _)

theorem All.handleSession (h : All p srv) (hp : Lasts ok p) {sys : Sys} (hok : ok sys) (ev : Event)
    (hlive : ∀ e, srv.sessions.lookup ev.fd = some e → e.session.terminated = false) :
    All p (srv.handleSession sys ev).1 := by
  rw [Server.handleSession]
  split
  · exact h
  rename_i e he
  have hhandled := hp.serve e.session (.handle sys ev.events ev.reads) hok (hlive e he)
    (h.live _ e he)
  rw [Request.serve] at hhandled
  split <;> rename_i hrun <;> rw [hrun] at hhandled
  · exact (h.update hhandled).closeSession hp _ _
  have hupdated : ∀ events, All p (srv.update ev.fd { session := _, events := events }) :=
    fun _ => h.update hhandled
  dsimp only
  split
  · split
    · exact (hupdated e.events).closeSession hp _ _
    · exact (hupdated e.events).update hhandled
  · exact hupdated e.events

theorem All.sweepIdle (h : All p srv) (hp : Lasts ok p) (now : ℤ) (order : List ℕ) :
    All p (srv.sweepIdle os now order).1 := by
  rw [Server.sweepIdle]
  generalize srv.expired now order = fds
  induction fds generalizing srv os with
  | nil => exact h
  | cons fd fds ih => exact ih (h.closeSession hp fd _)

theorem All.shutdown (h : All p srv) (hp : Lasts ok p) (order : List ℕ) :
    All p (srv.shutdown os order).1 := by
  have hclear : All p (order.foldl (fun (q : Server × Os) fd => q.1.eraseSession q.2 fd)
      (srv, os)).1 := by
    induction order generalizing srv os with
    | nil => exact h
    | cons fd order ih => exact ih (h.eraseSession hp fd)
  exact ⟨hclear.live, hclear.gone⟩

/-- **The step lemma.** -/
theorem StepIn.all {os₀ : Os} {b : List Session × Os} {x y : Server × Os} (hstep : StepIn ok x y)
    (hgood : Good os₀ b x.1 x.2 none) (hp : Lasts ok p) (h : All p x.1) : All p y.1 := by
  cases hstep with
  | dispatch srv sys ev hend hok =>
    rw [Server.dispatch]
    split
    · exact h.acceptConnections hp _
    split
    · exact ⟨h.live, h.gone⟩
    · exact h.handleSession hp hok ev fun e he => (hgood.table.synced ev.fd e (by simp) he).2
  | sweepIdle srv os now order hend horder => exact h.sweepIdle hp now order
  | shutdown srv os order hend horder => exact h.shutdown hp order

/-- **What lasts holds of every session** that a server ever has. The calls find the
system in states that the server has reached. -/
theorem reach_all {os₀ : Os} {config : ServerConfig} {l g : ℕ} (h : Ready os₀ l g)
    (hreach : ReachIn ok config l g os₀ srv os)
    (hp : Lasts (fun sys => ok sys ∧ ∃ srv, ReachIn ok config l g os₀ srv sys.os) p) :
    All p srv := by
  have hsteps : ∀ {x : Server × Os}, Relation.ReflTransGen (StepIn ok)
      (create config l g, registered os₀ l g) x → All p x.1 := by
    intro x hx
    induction hx with
    | refl => exact ⟨fun fd e he => (by cases he), fun s hs => absurd hs List.not_mem_nil⟩
    | @tail x y hprev hstep ih =>
      have hgood := reach_good h (ReachIn.reach hprev)
      refine StepIn.all ?_ hgood hp ih
      cases hstep with
      | dispatch srv sys ev hend hok => exact .dispatch srv sys ev hend ⟨hok, srv, hprev⟩
      | sweepIdle srv os now order hend horder => exact .sweepIdle srv os now order hend horder
      | shutdown srv os order hend horder => exact .shutdown srv os order hend horder
  exact hsteps hreach

end All

/-! ### Outcome lines -/

section Outcome

variable {os₀ os : Os} {config : ServerConfig} {l g : ℕ} {srv : Server} {s : Session}

/-- Every session lives through the calls of the server, made in states that it has
reached. -/
theorem reach_life {ok : Sys → Prop} (h : Ready os₀ l g) (hreach : ReachIn ok config l g os₀ srv os)
    (hs : s ∈ srv.all) :
    ∃ s₀ rs, Life s₀ rs s ∧
      ∀ r ∈ rs, r.Meets fun sys => ok sys ∧ ∃ srv, ReachIn ok config l g os₀ srv sys.os := by
  have hlasts : Lasts (fun sys => ok sys ∧ ∃ srv, ReachIn ok config l g os₀ srv sys.os) fun s =>
      ∃ s₀ rs, Life s₀ rs s ∧
        ∀ r ∈ rs, r.Meets fun sys => ok sys ∧ ∃ srv, ReachIn ok config l g os₀ srv sys.os :=
    { create := fun id fd conn outDir now =>
        ⟨_, [], .create id fd conn outDir now, fun r hr => absurd hr List.not_mem_nil⟩
      serve := by
        rintro s r hok hr ⟨s₀, rs, hlife, hrs⟩
        refine ⟨s₀, _, hlife.call hr, fun r' hr' => ?_⟩
        rcases List.mem_append.mp hr' with hr' | hr'
        · exact hrs r' hr'
        · rw [List.mem_singleton.mp hr']
          exact hok }
  exact (reach_all h hreach hlasts).of_mem hs

/-- **Outcome lines**: every session of a server lives through calls, in any order
and with any answers of the system; and it has at most one outcome line exactly when
none of them cuts it off after it failed: no `terminate`, and no event that makes
`handle` call `terminate`. -/
theorem outcome_lines (h : Ready os₀ l g) (hreach : Reach config l g os₀ srv os)
    (hs : s ∈ srv.all) :
    (∃ s₀ rs, Life s₀ rs s) ∧
      ∀ s₀ rs, Life s₀ rs s →
        (s.outcomes ≤ 1 ↔
          ∀ pre r post, rs = pre ++ r :: post → r.Spares (replay s₀ pre)) := by
  obtain ⟨s₀, rs, hlife, -⟩ := reach_life h (Reach.reachIn hreach) hs
  refine ⟨⟨s₀, rs, hlife⟩, fun s₀ rs hlife => ?_⟩
  obtain ⟨htally, hlapsed⟩ := Session.replay_lapsed hlife
  exact htally.outcomes_le_one.trans hlapsed

/-- A client sends twenty bytes that are no frame, is told so, and goes. -/
theorem no_frame_reach :
    ∃ (srv : Server) (os : Os) (s : Session),
      Reach { outDir := str "in", idleTimeout := 30, maxSessions := 2 } 3 4 (bare 1 3 4) srv os ∧
      s ∈ srv.all ∧ s.outcomes = 2 := by
  obtain ⟨r₁, h₁⟩ : ∃ r, (create { outDir := str "in", idleTimeout := 30, maxSessions := 2 } 3
      4).acceptConnections (registered (bare 1 3 4) 3 4) [{ fd := 5, now := 0 }] = r := ⟨_, rfl⟩
  let sys : Os → Sys := fun os =>
    { os := os
      sends := [.took 1000]
      openAnswer := .err []
      localTime := { year := 124, mon := 0, mday := 1, hour := 0, min := 0, sec := 0 }
      now := 1 }
  let bad : Event := { fd := 5, events := EPOLLIN, reads := [.bytes (List.replicate 20 0#8)] }
  let eof : Event := { fd := 5, events := EPOLLIN, reads := [.bytes []] }
  obtain ⟨r₂, h₂⟩ : ∃ r, r₁.1.handleSession (sys r₁.2) bad = r := ⟨_, rfl⟩
  obtain ⟨r₃, h₃⟩ : ∃ r, r₂.1.handleSession (sys r₂.2) eof = r := ⟨_, rfl⟩
  have hstep₁ := Step.accept
    (create { outDir := str "in", idleTimeout := 30, maxSessions := 2 } 3 4)
    (registered (bare 1 3 4) 3 4) [{ fd := 5, now := 0 }] rfl
  have hstep₂ := Step.event r₁.1 (sys r₁.2) bad (by rw [← h₁]; rfl) (by rw [← h₁]; decide)
    (by rw [← h₁]; decide)
  have hstep₃ := Step.event r₂.1 (sys r₂.2) eof (by rw [← h₂, ← h₁]; decide +kernel)
    (by rw [← h₂, ← h₁]; decide +kernel) (by rw [← h₂, ← h₁]; decide +kernel)
  rw [h₁] at hstep₁
  rw [h₂] at hstep₂
  rw [h₃] at hstep₃
  have houtcomes : r₃.1.gone.map Session.outcomes = [2] := by
    rw [← h₃, ← h₂, ← h₁]
    decide +kernel
  have hmem : 2 ∈ r₃.1.gone.map Session.outcomes := by
    rw [houtcomes]
    exact List.mem_singleton.mpr rfl
  obtain ⟨s, hs, hcount⟩ := List.mem_map.mp hmem
  exact ⟨r₃.1, r₃.2, s, ((Relation.ReflTransGen.single hstep₁).tail hstep₂).tail hstep₃,
    List.mem_append_right _ hs, hcount⟩

/-- A session may have two outcome lines. -/
theorem two_outcome_lines :
    ¬ ∀ (srv : Server) (os : Os) (s : Session),
      Reach { outDir := str "in", idleTimeout := 30, maxSessions := 2 } 3 4 (bare 1 3 4) srv os →
      s ∈ srv.all → s.outcomes ≤ 1 := by
  intro hall
  obtain ⟨srv, os, s, hreach, hs, hcount⟩ := no_frame_reach
  have hle := hall srv os s hreach hs
  omega

theorem outcome_lines_no_frame :
    ∃ (s s₀ : Session) (rs : List Request), Life s₀ rs s ∧
      ¬ ∀ pre r post, rs = pre ++ r :: post → r.Spares (replay s₀ pre) := by
  obtain ⟨srv, os, s, hreach, hs, hcount⟩ := no_frame_reach
  obtain ⟨⟨s₀, rs, hlife⟩, hiff⟩ := outcome_lines (ready_bare 1 3 4) hreach hs
  refine ⟨s, s₀, rs, hlife, fun hall => ?_⟩
  have hle := (hiff s₀ rs hlife).mpr hall
  omega

end Outcome

end Nexus.Server
