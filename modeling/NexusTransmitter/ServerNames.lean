/-
The files that a server finds in its directory.

A final name that is taken costs an upload one more `link`. A temporary name that is
taken costs it everything: the name follows from the pid and from a counter that begins
at zero, and `open` does not try another one. So a server that gets the pid of one that
was killed may find its names in use.

* `Server.answered_iff_free` — a valid upload that meets no other error than `EEXIST` is
  answered Ok, or finds a thousand names taken, exactly when the temporary name was free
  when its HELLO came.
-/
import NexusTransmitter.ServerLog
import NexusTransmitter.ServerOutcome
import NexusTransmitter.SessionWriter

open Nexus.Upload

namespace Nexus

/-- The call succeeded, or failed with `EEXIST`. -/
def FsCall.Clear (c : FsCall) : Prop :=
  c.ok = true ∨ ∃ p, c = .open p (some eexist) ∨ c = .link p (some eexist)

namespace Session

variable {s : Session} {os : Os} {file : Option Bytes}

/-- A valid upload is answered Ok, unless the disk failed. -/
theorem Lasting.answered_ok (h : s.Lasting os) (hvalid : Verdict s.hist.received .ok file)
    (hok : ∀ c ∈ s.writer.log, c.ok = true) : ∃ name, (.ok, name) ∈ s.hist.acks := by
  have hup := upload_eq_ofStream h.account h.quiet h.tracks hok
  rw [ofStream_answered_iff.mpr hvalid] at hup
  obtain ⟨name, hacks⟩ := h.account.acks_iff.mpr ⟨file, hup⟩
  exact ⟨name, by rw [hacks]; exact List.mem_singleton.mpr rfl⟩

/-- A valid upload that was not refused its temporary file is answered Ok, or found all
the final names taken. -/
theorem Lasting.answered_of_told (h : s.Lasting os) (htold : Told s.helloReceived s.writer)
    (hvalid : Verdict s.hist.received .ok file) (hclear : ∀ c ∈ s.writer.log, c.Clear)
    (hfree : ¬ s.writer.Clashed) :
    (∃ name, (.ok, name) ∈ s.hist.acks) ∨ s.writer.Exhausted := by
  by_cases hok : ∀ c ∈ s.writer.log, c.ok = true
  · exact .inl (h.answered_ok hvalid hok)
  rw [not_forall] at hok
  obtain ⟨c, hc⟩ := hok
  rw [Classical.not_imp] at hc
  obtain ⟨hmem, hno⟩ := hc
  obtain ⟨p, rfl | rfl⟩ := (hclear c hmem).resolve_left hno
  · exact absurd ⟨p, hmem⟩ hfree
  · rcases htold.links ⟨p, _, hmem⟩ with hpub | hall | ⟨q, text, hne, hq⟩
    · exact .inl (h.account.ok_iff.mpr hpub)
    · exact .inr hall
    · -- another error
      rcases hclear _ hq with hq | ⟨q', hq | hq⟩
      · cases hq
      · cases hq
      · cases hq
        exact absurd rfl hne

/-- An upload that was refused its temporary file is not answered Ok, and tries no final
name. -/
theorem Lasting.not_answered_of_refused (h : s.Lasting os)
    (htold : Told s.helloReceived s.writer) (hrefused : s.writer.Refused) :
    ¬ ((∃ name, (.ok, name) ∈ s.hist.acks) ∨ s.writer.Exhausted) := by
  obtain ⟨-, hno⟩ := htold.refused hrefused
  rintro (hok | ⟨t, hall⟩)
  · obtain ⟨p, hp⟩ := (link_iff_published h.calls).mpr (h.account.ok_iff.mp hok)
    exact hno p none hp
  · exact hno _ _ (hall 0 (by decide))

end Session

namespace Server

open Session (Life Request replay)

section Names

variable {os₀ os : Os} {config : ServerConfig} {l g : ℕ} {srv : Server} {s : Session}
  {file : Option Bytes}

/-- **Files in the directory**: every session of a server lives through calls that find
the system in states of the run; and if it received a valid upload and no call on the
file system failed but for `EEXIST`, then it has answered Ok, or found the final names of
its time taken, all thousand of them, exactly when the call in which its HELLO came found
the name of the temporary file free. -/
theorem answered_iff_free (h : Ready os₀ l g)
    (hreach : ReachIn Sys.Honest config l g os₀ srv os) (hs : s ∈ srv.all)
    (hvalid : Verdict s.hist.received .ok file) (hclear : ∀ c ∈ s.writer.log, c.Clear) :
    (∃ s₀ rs, Life s₀ rs s ∧ ∀ r ∈ rs, r.Meets fun sys =>
      sys.Honest ∧ ∃ srv, ReachIn Sys.Honest config l g os₀ srv sys.os) ∧
    ∀ s₀ rs, Life s₀ rs s → (∀ r ∈ rs, r.Meets Sys.Honest) →
      ((∃ name, (.ok, name) ∈ s.hist.acks) ∨ s.writer.Exhausted ↔
        ∀ pre r post, rs = pre ++ r :: post → r.FindsFree (replay s₀ pre)) := by
  refine ⟨reach_life h hreach hs, fun s₀ rs hlife hhonest => ?_⟩
  have hlast := (reach_good h hreach.reach).disk.lasting s hs
  obtain ⟨htold, hfree, htaken⟩ := Session.replay_opens hlife hhonest
  constructor
  · intro hanswered
    by_contra hno
    exact hlast.not_answered_of_refused htold (htaken hno) hanswered
  · exact fun hall => hlast.answered_of_told htold hvalid hclear (hfree hall)

/-- A directory with the first temporary file of a process that had the pid 1. -/
def leftover : Os :=
  { bare 1 3 4 with
    dir := fun p => if p = tempName (str "in") 1 0 then some 0 else none
    nextIno := 1 }

theorem ready_leftover : Ready leftover 3 4 where
  wf := by
    refine ⟨by simp [leftover, bare, Os.empty], fun p i hp => ?_, fun f i hf => ?_⟩
    · simp only [leftover] at hp ⊢
      split at hp
      · cases hp
        decide
      · cases hp
    · exact absurd hf (by simp only [leftover, bare]; split <;> simp)
  sockets := (ready_bare 1 3 4).sockets
  epoll := (ready_bare 1 3 4).epoll
  listener := (ready_bare 1 3 4).listener
  signal := (ready_bare 1 3 4).signal

/-- A client sends a whole empty file, and the server refuses it. -/
theorem leftover_reach :
    ∃ (srv : Server) (os : Os) (s : Session),
      ReachIn Sys.Honest { outDir := str "in", idleTimeout := 30, maxSessions := 2 } 3 4 leftover
        srv os ∧
      s ∈ srv.all ∧ Verdict s.hist.received .ok (some []) ∧ (∀ c ∈ s.writer.log, c.Clear) ∧
      ¬ ((∃ name, (.ok, name) ∈ s.hist.acks) ∨ s.writer.Exhausted) := by
  obtain ⟨r₁, h₁⟩ : ∃ r, (create { outDir := str "in", idleTimeout := 30, maxSessions := 2 } 3
      4).acceptConnections (registered leftover 3 4) [{ fd := 5, now := 0 }] = r := ⟨_, rfl⟩
  let sys : Os → Sys := fun os =>
    { os := os
      sends := [.took 1000]
      openAnswer := .fd 6
      localTime := { year := 2024, mon := 0, mday := 1, hour := 0, min := 0, sec := 0 }
      now := 1 }
  let hello : Event :=
    { fd := 5
      events := EPOLLIN
      reads := [.bytes (buildHello 0 (str "a.txt") ++ buildEnd (crc32 []))] }
  have hhonest : ∀ os, (sys os).Honest := fun os => ⟨nofun, fun _ => nofun⟩
  obtain ⟨r₂, h₂⟩ : ∃ r, r₁.1.dispatch (sys r₁.2) hello = r := ⟨_, rfl⟩
  have hstep₁ : StepIn Sys.Honest _ _ := StepIn.dispatch
    (create { outDir := str "in", idleTimeout := 30, maxSessions := 2 } 3 4)
    (sys (registered leftover 3 4))
    { fd := 3, events := EPOLLIN, incoming := [{ fd := 5, now := 0 }] } rfl (hhonest _)
  have hstep₂ : StepIn Sys.Honest _ _ := StepIn.dispatch r₁.1 (sys r₁.2) hello (by rw [← h₁]; rfl)
    (hhonest _)
  rw [Server.dispatch, if_pos (by rfl), h₁] at hstep₁
  rw [h₂] at hstep₂
  have hlogs : r₂.1.live.map (fun s => s.writer.log) =
      [[.open (tempName (str "in") 1 0) (some eexist)]] := by
    rw [← h₂, ← h₁]
    decide +kernel
  have hacks : r₂.1.live.map (fun s => s.hist.acks.map Prod.fst) = [[.ioError]] := by
    rw [← h₂, ← h₁]
    decide +kernel
  have hreceived : r₂.1.live.map (fun s => s.hist.received) =
      [buildHello 0 (str "a.txt") ++ buildEnd (crc32 [])] := by
    rw [← h₂, ← h₁]
    decide +kernel
  obtain ⟨s, hs⟩ := List.length_eq_one_iff.mp (by simpa using congrArg List.length hlogs)
  rw [hs] at hlogs hacks hreceived
  have hlog : s.writer.log = [.open (tempName (str "in") 1 0) (some eexist)] :=
    (List.cons.inj hlogs).1
  have hack : s.hist.acks.map Prod.fst = [.ioError] := (List.cons.inj hacks).1
  have hrec : s.hist.received = buildHello 0 (str "a.txt") ++ buildEnd (crc32 []) :=
    (List.cons.inj hreceived).1
  refine ⟨r₂.1, r₂.2, s, (Relation.ReflTransGen.single hstep₁).tail hstep₂,
    List.mem_append_left _ (by rw [hs]; exact List.mem_singleton.mpr rfl), ?_, fun c hc => ?_, ?_⟩
  · rw [hrec]
    exact ofStream_answered_iff.mp (by decide +kernel)
  · rw [hlog, List.mem_singleton] at hc
    exact .inr ⟨_, .inl hc⟩
  · rintro (⟨name, hok⟩ | ⟨t, ht⟩)
    · have hmem := List.mem_map_of_mem (f := Prod.fst) hok
      rw [hack] at hmem
      simp at hmem
    · have hmem := ht 0 (by decide)
      rw [hlog] at hmem
      simp at hmem

/-- A file in the directory can make a valid upload fail. -/
theorem leftover_refused :
    ¬ ∀ (os₀ : Os) (srv : Server) (os : Os) (s : Session) (file : Option Bytes), Ready os₀ 3 4 →
      ReachIn Sys.Honest { outDir := str "in", idleTimeout := 30, maxSessions := 2 } 3 4 os₀
        srv os →
      s ∈ srv.all → Verdict s.hist.received .ok file → (∀ c ∈ s.writer.log, c.Clear) →
      (∃ name, (.ok, name) ∈ s.hist.acks) ∨ s.writer.Exhausted := by
  intro hall
  obtain ⟨srv, os, s, hreach, hs, hvalid, hclear, hno⟩ := leftover_reach
  exact hno (hall leftover srv os s _ ready_leftover hreach hs hvalid hclear)

theorem answered_iff_free_leftover :
    ∃ (srv : Server) (os : Os) (s s₀ : Session) (rs : List Request),
      ReachIn Sys.Honest { outDir := str "in", idleTimeout := 30, maxSessions := 2 } 3 4 leftover
        srv os ∧ Life s₀ rs s ∧
      ¬ ∀ pre r post, rs = pre ++ r :: post → r.FindsFree (replay s₀ pre) := by
  obtain ⟨srv, os, s, hreach, hs, hvalid, hclear, hno⟩ := leftover_reach
  obtain ⟨⟨s₀, rs, hlife, hrs⟩, hiff⟩ := answered_iff_free ready_leftover hreach hs hvalid hclear
  have hhonest : ∀ r ∈ rs, r.Meets Sys.Honest := by
    intro r hr
    have hmeets := hrs r hr
    cases r with
    | handle sys events reads => exact hmeets.1
    | terminate os reason => trivial
    | destroy os => trivial
  exact ⟨srv, os, s, s₀, rs, hreach, hlife, fun hall => hno ((hiff s₀ rs hlife hhonest).mpr hall)⟩

end Names

end Server

end Nexus
