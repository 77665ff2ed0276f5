/-
The directory is a chronicle.

As long as the clock is not set back, whatever is published later has a name that sorts
behind all the names that were published before.

* `Server.ClockStep.dated` — every published file has a time that has come, and all names
  before its own are taken;
* `Server.chronicle` — the names sort by the order of publication.
-/
import NexusTransmitter.FileNames
import NexusTransmitter.ServerArchive

namespace Nexus

namespace Server

/-! ### The clock -/

/-- A step of a server whose clock is not set back, before the year 10000.  The second
component is the latest time that there was. -/
inductive ClockStep : (Server × Os) × Tm → (Server × Os) × Tm → Prop
  | dispatch (srv : Server) (sys : Sys) (ev : Event) (t : Tm) (h : srv.ended = false)
      (hyear : sys.localTime.year < 10000) (hclock : t.Le sys.localTime) :
      ClockStep ((srv, sys.os), t) (srv.dispatch sys ev, sys.localTime)
  | sweepIdle (srv : Server) (os : Os) (now : ℤ) (order : List ℕ) (t : Tm) (h : srv.ended = false)
      (horder : order.Perm srv.sessions.keys) :
      ClockStep ((srv, os), t) (srv.sweepIdle os now order, t)
  | shutdown (srv : Server) (os : Os) (order : List ℕ) (t : Tm) (h : srv.ended = false)
      (horder : order.Perm srv.sessions.keys) :
      ClockStep ((srv, os), t) (srv.shutdown os order, t)

/-- A run of such a server. -/
def ClockSteps : (Server × Os) × Tm → (Server × Os) × Tm → Prop := Relation.ReflTransGen ClockStep

theorem ClockStep.step {x y : (Server × Os) × Tm} (h : ClockStep x y) : Step x.1 y.1 := by
  cases h with
  | dispatch srv sys ev t h hyear hclock => exact .dispatch srv sys ev h
  | sweepIdle srv os now order t h horder => exact .sweepIdle srv os now order h horder
  | shutdown srv os order t h horder => exact .shutdown srv os order h horder

theorem ClockStep.le {x y : (Server × Os) × Tm} (h : ClockStep x y) : x.2.Le y.2 := by
  cases h with
  | dispatch srv sys ev t h hyear hclock => exact hclock
  | sweepIdle srv os now order t h horder => exact .refl t
  | shutdown srv os order t h horder => exact .refl t

theorem ClockSteps.steps {x y : (Server × Os) × Tm} (h : ClockSteps x y) : Steps x.1 y.1 := by
  induction h with
  | refl => exact .refl
  | tail _ hstep ih => exact ih.tail hstep.step

section Chronicle

variable {os₀ os os' : Os} {config : ServerConfig} {l g : ℕ} {srv srv' : Server} {now now' : Tm}

/-- A final name that is taken stays taken. -/
theorem final_stays (h : Ready os₀ l g) (hreach : Reach config l g os₀ srv os)
    (hsteps : Steps (srv, os) (srv', os')) {stamp : Bytes} {j : ℕ}
    (htaken : (os.dir (finalName config.outDir stamp j)).isSome) :
    (os'.dir (finalName config.outDir stamp j)).isSome := by
  obtain ⟨hdisk, hevolves⟩ := evolves_of_steps h hreach hsteps
  have hdisk' := hdisk.evolves hevolves
  obtain ⟨i, hi⟩ := Option.isSome_iff_exists.mp htaken
  rcases (hdisk.dir_iff h.wf _ i).mp hi with hold | ⟨s, hs, fd, hholds, hpath⟩ | ⟨s, hs, hpub⟩
  · -- it was there at the start
    rw [(hdisk'.dir_iff h.wf _ i).mpr (.inl hold)]
    rfl
  · -- it is not a temporary name
    have hcalls := (hdisk.lasting s hs).calls
    obtain ⟨seq, hseq⟩ := hcalls.opened _ _ (hcalls.temp hholds.temp)
    rw [hseq, hdisk.dir s hs] at hpath
    exact absurd hpath.symm (tempName_ne_final _ _ _ _ _)
  · rw [((published_stays h hreach hs hpub hsteps).dir _).mpr hi]
    rfl

/-- A name that is taken before it is published is not published after all. -/
theorem free_of_new (h : Ready os₀ l g) (hreach : Reach config l g os₀ srv os)
    (hsteps : Steps (srv, os) (srv', os')) {stamp : Bytes} {k i : ℕ}
    (hnew : ∀ j, some (finalName config.outDir stamp k, j) ∉ srv.outputs)
    (hpub : some (finalName config.outDir stamp k, i) ∈ srv'.outputs) :
    os.dir (finalName config.outDir stamp k) = none := by
  obtain ⟨s', hs', hpub'⟩ := mem_outputs.mp hpub
  have hdisk := (evolves_of_steps h hreach hsteps).1
  by_contra hne
  obtain ⟨j, hj⟩ := Option.ne_none_iff_exists'.mp hne
  rcases (hdisk.dir_iff h.wf _ j).mp hj with hold | ⟨s, hs, fd, hholds, hpath⟩ | ⟨s, hs, hpub₁⟩
  · rw [published_new h (Relation.ReflTransGen.trans hreach hsteps) hs' hpub'] at hold
    cases hold
  · have hcalls := (hdisk.lasting s hs).calls
    obtain ⟨seq, hseq⟩ := hcalls.opened _ _ (hcalls.temp hholds.temp)
    rw [hseq, hdisk.dir s hs] at hpath
    exact tempName_ne_final _ _ _ _ _ hpath.symm
  · exact hnew j (mem_outputs.mpr ⟨s, hs, hpub₁⟩)

/-- Every published file has a time that has come, and the names of its second before its
own are taken. -/
def Dated (outDir : Bytes) (x : (Server × Os) × Tm) : Prop :=
  ∀ p i, some (p, i) ∈ x.1.1.outputs → ∃ t : Tm, t.year < 10000 ∧ t.Le x.2 ∧
    First outDir (fileTimestamp t) x.1.2 (some (p, i))

/-- What a step publishes, it publishes at the time of the step. -/
theorem ClockStep.outputs {x y : (Server × Os) × Tm} (hstep : ClockStep x y)
    (h : Good os₀ ([], os₀) x.1.1 x.1.2 none) {p : Bytes} {i : ℕ}
    (hp : some (p, i) ∈ y.1.1.outputs) : some (p, i) ∈ x.1.1.outputs ∨ (y.2.year < 10000 ∧
      First x.1.1.config.outDir (fileTimestamp y.2) x.1.2 (some (p, i))) := by
  cases hstep with
  | dispatch srv sys ev t hend hyear hclock =>
    exact (dispatch_outputs sys h ev hp).imp_right fun hfirst => ⟨hyear, hfirst⟩
  | sweepIdle srv os now order t hend horder =>
    exact .inl ((sweepIdle_outputs srv os now order).mem_iff.mp hp)
  | shutdown srv os order t hend horder =>
    exact .inl ((shutdown_outputs srv os order).mem_iff.mp hp)

theorem ClockStep.dated {x y : (Server × Os) × Tm} (hready : Ready os₀ l g)
    (hreach : Reach config l g os₀ x.1.1 x.1.2) (hstep : ClockStep x y)
    (h : Dated config.outDir x) : Dated config.outDir y := by
  have hone : Steps (x.1.1, x.1.2) (y.1.1, y.1.2) := .single hstep.step
  intro p i hp
  have hgood := reach_good hready hreach
  rcases hstep.outputs hgood hp with hold | ⟨hyear, hnew⟩
  · obtain ⟨t, hyear, hle, k, hk, j, hpath, htaken⟩ := h p i hold
    exact ⟨t, hyear, hle.trans hstep.le, k, hk, j, hpath,
      fun m hm => final_stays hready hreach hone (htaken m hm)⟩
  · rw [reach_config hreach] at hnew
    obtain ⟨k, hk, j, hpath, htaken⟩ := hnew
    exact ⟨y.2, hyear, .refl y.2, k, hk, j, hpath,
      fun m hm => final_stays hready hreach hone (htaken m hm)⟩

/-- **The step lemma**: what a step publishes has a name behind all the names there are. -/
theorem ClockStep.name_lt {x y : (Server × Os) × Tm} (hready : Ready os₀ l g)
    (hreach : Reach config l g os₀ x.1.1 x.1.2) (hstep : ClockStep x y)
    (h : Dated config.outDir x) {p q : Bytes} {i j : ℕ} (hp : some (p, i) ∈ x.1.1.outputs)
    (hq : some (q, j) ∈ y.1.1.outputs) (hnew : ∀ m, some (q, m) ∉ x.1.1.outputs) : p < q := by
  have hone : Steps (x.1.1, x.1.2) (y.1.1, y.1.2) := .single hstep.step
  obtain ⟨hyear', k', hk', j', hpath', -⟩ :=
    (hstep.outputs (reach_good hready hreach) hq).resolve_left (hnew j)
  rw [reach_config hreach] at hpath'
  cases hpath'
  obtain ⟨t, hyear, hle, k, hk, i', hpath, htaken⟩ := h p i hp
  cases hpath
  refine finalPath_lt (candidateName_lt hyear hyear' hk' ?_)
  rcases hle.trans hstep.le with hlt | heq
  · exact .inl hlt
  refine .inr ⟨heq, ?_⟩
  -- both were published in one second, the later one under a name that was free
  by_contra hge
  rw [← fileTimestamp_of_key heq] at hnew hq
  have hfree := free_of_new hready hreach hone hnew hq
  rcases Nat.lt_or_eq_of_le (Nat.not_lt.mp hge) with hlt | rfl
  · have htaken' := htaken k' hlt
    rw [hfree] at htaken'
    cases htaken'
  · exact hnew _ hp

/-- The states that a server with such a clock reaches. -/
def ClockReach (config : ServerConfig) (listenerFd signalFd : ℕ) (os₀ : Os) (srv : Server)
    (os : Os) (now : Tm) : Prop :=
  ∃ t₀, ClockSteps ((create config listenerFd signalFd, registered os₀ listenerFd signalFd), t₀)
    ((srv, os), now)

theorem ClockReach.reach (h : ClockReach config l g os₀ srv os now) :
    Reach config l g os₀ srv os := by
  obtain ⟨t₀, hsteps⟩ := h
  exact hsteps.steps

theorem ClockReach.dated (hready : Ready os₀ l g) (h : ClockReach config l g os₀ srv os now) :
    Dated config.outDir ((srv, os), now) := by
  obtain ⟨t₀, hsteps⟩ := h
  have hall : ∀ y, ClockSteps ((create config l g, registered os₀ l g), t₀) y →
      Dated config.outDir y := by
    intro y hrun
    induction hrun with
    | refl => exact fun p i hp => absurd hp List.not_mem_nil
    | tail hprev hstep ih => exact hstep.dated hready (ClockSteps.steps hprev) ih
  exact hall _ hsteps

theorem ClockReach.trans (h : ClockReach config l g os₀ srv os now)
    (hsteps : ClockSteps ((srv, os), now) ((srv', os'), now')) :
    ClockReach config l g os₀ srv' os' now' := by
  obtain ⟨t₀, hstart⟩ := h
  exact ⟨t₀, Relation.ReflTransGen.trans hstart hsteps⟩

/-- A published file stays published. -/
theorem outputs_stay (h : Ready os₀ l g) (hreach : Reach config l g os₀ srv os)
    (hsteps : Steps (srv, os) (srv', os')) {p : Bytes} {i : ℕ} (hp : some (p, i) ∈ srv.outputs) :
    ∃ j, some (p, j) ∈ srv'.outputs := by
  obtain ⟨s, hs, hpub⟩ := mem_outputs.mp hp
  obtain ⟨hdisk, hevolves⟩ := evolves_of_steps h hreach hsteps
  have hentry : (p, os.data i) ∈ archive Set.univ srv.all os :=
      ⟨s, hs, Set.mem_univ _, i, hpub, rfl⟩
  obtain ⟨s', hs', -, j, hpub', -⟩ := (hdisk.puts_of_evolves hevolves Set.univ).subset hentry
  exact ⟨j, mem_outputs.mpr ⟨s', hs', hpub'⟩⟩

/-- **The run lemma**: what is published in the end was published before, or has a name
behind all that was. -/
theorem ClockSteps.name_lt (h : Ready os₀ l g) (hreach : ClockReach config l g os₀ srv os now)
    {y : (Server × Os) × Tm} (hsteps : ClockSteps ((srv, os), now) y) {q : Bytes} {j : ℕ}
    (hq : some (q, j) ∈ y.1.1.outputs) :
    (∃ m, some (q, m) ∈ srv.outputs) ∨ ∀ p i, some (p, i) ∈ srv.outputs → p < q := by
  induction hsteps generalizing j with
  | refl => exact .inl ⟨j, hq⟩
  | @tail y z hprev hstep ih =>
    by_cases hold : ∃ m, some (q, m) ∈ y.1.1.outputs
    · obtain ⟨m, hm⟩ := hold
      exact ih hm
    · rw [not_exists] at hold
      refine .inr fun p i hp => ?_
      have hmid : ClockReach config l g os₀ y.1.1 y.1.2 y.2 := hreach.trans hprev
      obtain ⟨i', hp'⟩ := outputs_stay h hreach.reach (ClockSteps.steps hprev) hp
      exact hstep.name_lt h hmid.reach (hmid.dated h) hp' hq hold

/-- **The names sort by the order of publication.**  When the clock is not set back, then in
every state that the server reaches, and whatever it does from there: what is put into the
archive later has a name that sorts behind the names of all that is in it. -/
theorem chronicle (h : Ready os₀ l g) (hreach : ClockReach config l g os₀ srv os now)
    (hsteps : ClockSteps ((srv, os), now) ((srv', os'), now')) :
    ∀ e ∈ archive Set.univ srv.all os, ∀ e' ∈ archive Set.univ srv'.all os',
      e' ∉ archive Set.univ srv.all os → e.1 < e'.1 := by
  rintro e ⟨s, hs, -, i, hpub, -⟩ e' he' hnew
  obtain ⟨s', hs', -, j, hpub', -⟩ := id he'
  rcases ClockSteps.name_lt h hreach hsteps (mem_outputs.mpr ⟨s', hs', hpub'⟩) with
    ⟨m, hm⟩ | hlt
  · -- the name was there, and a name stands for one content
    obtain ⟨u, hu, hpubu⟩ := mem_outputs.mp hm
    obtain ⟨hdisk, hevolves⟩ := evolves_of_steps h hreach.reach (ClockSteps.steps hsteps)
    have hentry : (e'.1, os.data m) ∈ archive Set.univ srv.all os :=
      ⟨u, hu, Set.mem_univ _, m, hpubu, rfl⟩
    have hlater := (hdisk.puts_of_evolves hevolves Set.univ).subset hentry
    have hreach' : Reach config l g os₀ srv' os' :=
      Relation.ReflTransGen.trans hreach.reach (ClockSteps.steps hsteps)
    have heq : os.data m = e'.2 := functional_of_reach h hreach' Set.univ _ _ _ hlater he'
    rw [heq] at hentry
    exact absurd hentry hnew
  · exact hlt _ _ (mem_outputs.mpr ⟨s, hs, hpub⟩)

end Chronicle

/-! ### Two files in one second -/

/-- Two clients send a byte each in one second. -/
theorem chronicle_two_files :
    ∃ srv os now srv' os' now',
      ClockReach { outDir := str "in", idleTimeout := 30, maxSessions := 2 } 3 4 (bare 1 3 4)
        srv os now ∧
      ClockSteps ((srv, os), now) ((srv', os'), now') ∧
      srv.outputs.map (Option.map Prod.fst) = [some (str "in/20240101_000000.hex"), none] ∧
      srv'.outputs.map (Option.map Prod.fst) =
        [some (str "in/20240101_000000_001.hex"), some (str "in/20240101_000000.hex")] ∧
      ∀ e ∈ archive Set.univ srv.all os, ∀ e' ∈ archive Set.univ srv'.all os',
        e' ∉ archive Set.univ srv.all os → e.1 < e'.1 := by
  obtain ⟨sys, hsys⟩ : ∃ sys : Sys, sys =
      { os := registered (bare 1 3 4) 3 4
        sends := [.took 1000]
        writes := [.took 1]
        openAnswer := .fd 7
        localTime := { year := 2024, mon := 0, mday := 1, hour := 0, min := 0, sec := 0 }
        now := 1 } := ⟨_, rfl⟩
  obtain ⟨reads, hreads⟩ : ∃ reads : List ReadAnswer, reads =
      [.bytes (buildHello 1 (str "a") ++ buildData [1#8] ++ buildEnd (crc32 [1#8]))] := ⟨_, rfl⟩
  obtain ⟨r₁, h₁⟩ : ∃ r, (create { outDir := str "in", idleTimeout := 30, maxSessions := 2 } 3
      4).dispatch sys { fd := 3, events := EPOLLIN, incoming := [{ fd := 5, now := 0 },
        { fd := 6, now := 0 }] } = r := ⟨_, rfl⟩
  obtain ⟨r₂, h₂⟩ : ∃ r, r₁.1.dispatch { sys with os := r₁.2 }
      { fd := 5, events := EPOLLIN, reads := reads } = r := ⟨_, rfl⟩
  obtain ⟨r₃, h₃⟩ : ∃ r, r₂.1.dispatch { sys with os := r₂.2 }
      { fd := 6, events := EPOLLIN, reads := reads } = r := ⟨_, rfl⟩
  have hends : r₁.1.ended = false ∧ r₂.1.ended = false ∧
      r₂.1.outputs.map (Option.map Prod.fst) = [some (str "in/20240101_000000.hex"), none] ∧
      r₃.1.outputs.map (Option.map Prod.fst) =
        [some (str "in/20240101_000000_001.hex"), some (str "in/20240101_000000.hex")] := by
    rw [← h₃, ← h₂, ← h₁, hsys, hreads]
    decide +kernel
  obtain ⟨hend₁, hend₂, hone, htwo⟩ := hends
  have hyear : sys.localTime.year < 10000 := by rw [hsys]; decide
  have hstep₁ := ClockStep.dispatch
    (create { outDir := str "in", idleTimeout := 30, maxSessions := 2 } 3 4) sys
    { fd := 3, events := EPOLLIN, incoming := [{ fd := 5, now := 0 }, { fd := 6, now := 0 }] }
    sys.localTime rfl hyear (.refl _)
  have hstep₂ := ClockStep.dispatch r₁.1 { sys with os := r₁.2 }
    { fd := 5, events := EPOLLIN, reads := reads } sys.localTime hend₁ hyear (.refl _)
  have hstep₃ := ClockStep.dispatch r₂.1 { sys with os := r₂.2 }
    { fd := 6, events := EPOLLIN, reads := reads } sys.localTime hend₂ hyear (.refl _)
  rw [h₁] at hstep₁
  rw [h₂] at hstep₂
  rw [h₃] at hstep₃
  have hos : sys.os = registered (bare 1 3 4) 3 4 := by rw [hsys]
  rw [hos] at hstep₁
  have hreach : ClockReach { outDir := str "in", idleTimeout := 30, maxSessions := 2 } 3 4
      (bare 1 3 4) r₂.1 r₂.2 sys.localTime := ⟨sys.localTime, .tail (.single hstep₁) hstep₂⟩
  have hlater : ClockSteps ((r₂.1, r₂.2), sys.localTime) ((r₃.1, r₃.2), sys.localTime) :=
    .single hstep₃
  exact ⟨r₂.1, r₂.2, sys.localTime, r₃.1, r₃.2, sys.localTime, hreach, hlater, hone, htwo,
    chronicle (ready_bare 1 3 4) hreach hlater⟩

end Server

end Nexus
