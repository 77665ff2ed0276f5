/-
The server is a write-once archive.

To those who use its directory the server is a `WriteOnce` archive: the files its sessions
have published are the entries, and what may be put in is what one of its sessions has
received as an upload, as the protocol asks. Whatever else a session does, its temporary file,
its verdicts, its end, is not to be seen there.

* `Server.refines_archive` — every run of the server is a number of puts.
-/
import NexusTransmitter.Lib.WriteOnce
import NexusTransmitter.ServerOutcome

open Ownership WriteOnce

namespace Nexus

/-- The files that the sessions of the connections `C` have published, by their paths. -/
def archive (C : Set ℕ) (L : List Session) (os : Os) : Set (Bytes × Bytes) :=
  {e | ∃ s ∈ L, s.conn ∈ C ∧ ∃ i, s.writer.published = some (e.1, i) ∧ os.data i = e.2}

/-- The directory: the paths, with the contents of the files. -/
def Os.entries (os : Os) : Set (Bytes × Bytes) := {e | (os.dir e.1).map os.data = some e.2}

/-- An entry that one of these sessions has stored, for a connection in `C`: it has published a
file under the path, and the bytes it has received are an upload of the content. -/
def Stored (C : Set ℕ) (L : List Session) (e : Bytes × Bytes) : Prop :=
  ∃ s ∈ L, s.conn ∈ C ∧ (∃ i, s.writer.published = some (e.1, i)) ∧
    Upload.Verdict s.hist.received .ok (some e.2)

section Sessions

variable {outDir : Bytes} {os₀ os os' : Os} {C : Set ℕ} {L L' : List Session} {s s' : Session}
  {a b : List Session × Os} {p : Bytes} {i : ℕ}

theorem Disk.dir_of_published (h : Disk outDir os₀ L os) (hs : s ∈ L)
    (hp : s.writer.published = some (p, i)) : os.dir p = some i := by
  obtain ⟨name, -, hfile, rfl⟩ := (h.lasting s hs).file hp
  exact (hfile.entry _).mpr rfl

/-- The entries of the archive are in the directory. -/
theorem Disk.mem_entries (h : Disk outDir os₀ L os) {e : Bytes × Bytes} (he : e ∈ archive C L os) :
    e ∈ os.entries := by
  obtain ⟨s, hs, -, i, hp, hdata⟩ := he
  show (os.dir e.1).map os.data = some e.2
  rw [h.dir_of_published hs hp, Option.map_some, hdata]

/-- What is published has been uploaded. -/
theorem Disk.verdict (h : Disk outDir os₀ L os) (hs : s ∈ L)
    (hp : s.writer.published = some (p, i)) :
    Upload.Verdict s.hist.received .ok (some (os.data i)) := by
  obtain ⟨name, hans, hfile, -⟩ := (h.lasting s hs).file hp
  have hverdict := (h.lasting s hs).tracks.verdict_ok hans
  rwa [← hfile.data] at hverdict

/-- So what a session has stored is in the archive, with this content. -/
theorem Disk.stored_iff (h : Disk outDir os₀ L os) {e : Bytes × Bytes} :
    Stored C L e ↔ e ∈ archive C L os := by
  refine exists_congr fun s => and_congr_right fun hs => and_congr_right fun _ => ?_
  constructor
  · rintro ⟨⟨i, hp⟩, hverdict⟩
    refine ⟨i, hp, ?_⟩
    have hsame := Upload.ofStream_of_verdict (h.verdict hs hp)
    rw [Upload.ofStream_of_verdict hverdict] at hsame
    injection hsame with _ hfile
    exact (Option.some.inj hfile).symm
  · rintro ⟨i, hp, hdata⟩
    exact ⟨⟨i, hp⟩, hdata ▸ h.verdict hs hp⟩

theorem archive_perm (h : L.Perm L') (os : Os) : archive C L os = archive C L' os := by
  ext e
  exact exists_congr fun s => and_congr_left' h.mem_iff

theorem archive_congr (h : ∀ s ∈ L, ∀ p i, s.writer.published = some (p, i) →
    os'.data i = os.data i) : archive C L os' = archive C L os := by
  ext e
  refine exists_congr fun s => and_congr_right fun hs => and_congr_right fun _ =>
    exists_congr fun i => and_congr_right fun hp => ?_
  rw [h s hs e.1 i hp]

theorem archive_cons (s : Session) (L : List Session) (os : Os) :
    archive C (s :: L) os =
      {e | s.conn ∈ C ∧ ∃ i, s.writer.published = some (e.1, i) ∧ os.data i = e.2} ∪
        archive C L os := by
  ext e
  exact List.exists_mem_cons_iff _ s L

/-- A session of another connection, or one that has not published anything, adds nothing. -/
theorem archive_cons_of_none (hs : s.conn ∈ C → s.writer.published = none) (L : List Session)
    (os : Os) : archive C (s :: L) os = archive C L os := by
  rw [archive_cons, Set.union_eq_right]
  rintro e ⟨hc, i, hi, -⟩
  rw [hs hc] at hi
  cases hi

theorem archive_cons_of_some (hc : s.conn ∈ C) (hs : s.writer.published = some (p, i))
    (L : List Session) (os : Os) :
    archive C (s :: L) os = insert (p, os.data i) (archive C L os) := by
  rw [archive_cons, Set.insert_eq]
  congr 1
  ext ⟨q, k⟩
  rw [Set.mem_singleton_iff]
  constructor
  · rintro ⟨-, j, hj, rfl⟩
    rw [hs] at hj
    cases hj
    rfl
  · intro he
    cases he
    exact ⟨hc, i, hs, rfl⟩

/-- The files there are stay as they are in a move. -/
theorem Disk.archive_same (h : Disk outDir os₀ a.1 a.2) (he : Evolve outDir a b) :
    archive C a.1 b.2 = archive C a.1 a.2 :=
  archive_congr fun s hs p i hp => (h.unowned_evolve he (h.published s hs p i hp).2).1.data

/-- A path that a session has published is in nobody else's name. -/
theorem Disk.path_free (h : Disk outDir os₀ (s :: L) os) (hp : s.writer.published = some (p, i)) :
    ∀ k, (p, k) ∉ archive C L os := by
  rintro k ⟨t, ht, -, j, hq, -⟩
  have hdir := h.dir_of_published List.mem_cons_self hp
  rw [h.dir_of_published (List.mem_cons_of_mem _ ht) hq] at hdir
  cases hdir
  exact (List.pairwise_cons.mp h.distinct).1 t ht p p _ hp hq

/-- **The step lemma**: whatever happens to the sessions, at most one entry is put in, and the
session has stored it. -/
theorem Disk.puts (h : Disk outDir os₀ a.1 a.2) (he : Evolve outDir a b) (C : Set ℕ) :
    Puts (Stored C b.1) (archive C a.1 a.2) (archive C b.1 b.2) := by
  have hsame := h.archive_same (C := C) he
  have hafter := h.evolve he
  cases he with
  | @perm L L' os hperm =>
    rw [archive_perm hperm]
    exact .refl
  | @sockets L os os' hfiles =>
    dsimp only at hsame ⊢
    rw [hsame]
    exact .refl
  | @enter L os id fd conn now =>
    rw [archive_cons_of_none fun _ => rfl]
    exact .refl
  | @move L os os' s s' hm hs' =>
    dsimp only at hsame hafter ⊢
    rw [← hsame]
    rcases hm.published with hpub | ⟨hnone, p, i, hpub, -⟩
    · rw [archive_cons s', archive_cons s, hpub, hm.conn]
      exact .refl
    rw [archive_cons_of_none fun _ => hnone]
    by_cases hc : s'.conn ∈ C
    · rw [archive_cons_of_some hc hpub]
      refine .of_insert (hafter.path_free hpub) ?_ rfl
      exact ⟨s', List.mem_cons_self, hc, ⟨i, hpub⟩, hafter.verdict List.mem_cons_self hpub⟩
    · rw [archive_cons_of_none fun h => absurd h hc]
      exact .refl

/-- What is stored stays so. -/
theorem Disk.stored_evolve (h : Disk outDir os₀ a.1 a.2) (he : Evolve outDir a b)
    {e : Bytes × Bytes} (hst : Stored C a.1 e) : Stored C b.1 e :=
  (h.evolve he).stored_iff.mpr ((h.puts he C).subset (h.stored_iff.mp hst))

theorem Disk.puts_of_evolves (h : Disk outDir os₀ a.1 a.2) (he : Evolves outDir a b) (C : Set ℕ) :
    Puts (Stored C b.1) (archive C a.1 a.2) (archive C b.1 b.2) :=
  Puts.of_run (fun c : List Session × Os => archive C c.1 c.2) (fun c => Stored C c.1)
    (fun c => Disk outDir os₀ c.1 c.2) (fun hx => hx.evolve) (fun hx he _ => hx.stored_evolve he)
    (fun hx he => hx.puts he C) h he

end Sessions

namespace Server

variable {os₀ os os' : Os} {config : ServerConfig} {l g : ℕ} {srv srv' : Server}

/-- The run from a state on, with the sessions there are as its base. -/
theorem evolves_of_steps (h : Ready os₀ l g) (hreach : Reach config l g os₀ srv os)
    (hsteps : Steps (srv, os) (srv', os')) :
    Disk config.outDir os₀ srv.all os ∧ Evolves config.outDir (srv.all, os) (srv'.all, os') := by
  have hgood := reach_good h hreach
  have hgood' := hsteps.good (b := (srv.all, os))
    { hgood with base := hgood.disk, evolved := .refl }
  have hdisk := hgood.disk
  have hevolved := hgood'.evolved
  rw [reach_config hreach] at hdisk
  rw [reach_config (Relation.ReflTransGen.trans hreach hsteps)] at hevolved
  exact ⟨hdisk, hevolved⟩

theorem archive_create (C : Set ℕ) (config : ServerConfig) (l g : ℕ) (os : Os) :
    archive C (create config l g).all os = ∅ := by
  refine Set.eq_empty_iff_forall_notMem.mpr ?_
  rintro e ⟨s, hs, -⟩
  exact List.not_mem_nil hs

/-- What is in the archive has been put in. -/
theorem puts_of_reach (h : Ready os₀ l g) (hreach : Reach config l g os₀ srv os) (C : Set ℕ) :
    Puts (Stored C srv.all) ∅ (archive C srv.all os) := by
  obtain ⟨hstart, hall⟩ := evolves_of_steps h .refl hreach
  have hputs := hstart.puts_of_evolves hall C
  rwa [archive_create] at hputs

/-- So a name leads to one content. -/
theorem functional_of_reach (h : Ready os₀ l g) (hreach : Reach config l g os₀ srv os)
    (C : Set ℕ) : Functional (archive C srv.all os) :=
  (puts_of_reach h hreach C).functional functional_empty

/-- **The server is a write-once archive**, in every state that it reaches and whatever it
does from there, and so is what it does for any part of its connections:

* what it publishes is put in, entry by entry, under free names, each stored by one of the
  sessions of this run: it has published the path, and what it has received is an upload of the
  content; nothing else changes the archive, and at the start it is empty;
* the entries are in the directory, with just this content, and no two have one name. -/
theorem refines_archive (h : Ready os₀ l g) (hreach : Reach config l g os₀ srv os)
    (hsteps : Steps (srv, os) (srv', os')) (C : Set ℕ) :
    Puts (Stored C srv.all) ∅ (archive C srv.all os) ∧
      Puts (Stored C srv'.all) (archive C srv.all os) (archive C srv'.all os') ∧
      Functional (archive C srv'.all os') ∧
      ∀ e ∈ archive C srv'.all os', (os'.dir e.1).map os'.data = some e.2 := by
  obtain ⟨hdisk, hevolves⟩ := evolves_of_steps h hreach hsteps
  have hdisk' := hdisk.evolves hevolves
  have hreach' : Reach config l g os₀ srv' os' := Relation.ReflTransGen.trans hreach hsteps
  exact ⟨puts_of_reach h hreach C, hdisk.puts_of_evolves hevolves C,
    functional_of_reach h hreach' C, fun e he => hdisk'.mem_entries he⟩

/-- The end of a session stores nothing. -/
theorem stored_of_eraseSession {C : Set ℕ} {fd : ℕ} {e : Bytes × Bytes}
    (h : Stored C (srv.eraseSession os fd).1.all e) : Stored C srv.all e := by
  rw [eraseSession] at h
  split at h
  · exact h
  rename_i entry hentry
  have hmem : entry.session ∈ srv.all :=
    List.mem_append_left _ (mem_live.mpr ⟨fd, entry, hentry, rfl⟩)
  obtain ⟨s, hs, hc, ⟨i, hp⟩, hverdict⟩ := h
  rcases List.mem_append.mp hs with hs | hs
  · obtain ⟨f, other, hother, rfl⟩ := mem_live.mp hs
    change (srv.sessions.erase fd).lookup f = some other at hother
    have hne : f ≠ fd := by
      rintro rfl
      rw [AList.lookup_erase] at hother
      cases hother
    rw [AList.lookup_erase_ne hne] at hother
    exact ⟨other.session, List.mem_append_left _ (mem_live.mpr ⟨f, other, hother, rfl⟩), hc,
      ⟨i, hp⟩, hverdict⟩
  · rcases List.mem_cons.mp hs with rfl | hs
    · have hkeep := (FileWriter.abort_keeps entry.session.writer (os.close entry.session.fd)).2
      exact ⟨entry.session, hmem, hc, ⟨i, hkeep.symm.trans hp⟩, hverdict⟩
    · exact ⟨s, List.mem_append_right _ hs, hc, ⟨i, hp⟩, hverdict⟩

/-- Nor does the end of the server. -/
theorem stored_of_shutdown {C : Set ℕ} {order : List ℕ} {e : Bytes × Bytes}
    (h : Stored C (srv.shutdown os order).1.all e) : Stored C srv.all e := by
  have hclear : Stored C (order.foldl (fun (p : Server × Os) fd => p.1.eraseSession p.2 fd)
      (srv, os)).1.all e := h
  clear h
  induction order generalizing srv os with
  | nil => exact hclear
  | cons fd order ih => exact stored_of_eraseSession (ih hclear)

/-- When `run` has returned, the directory is what it was at the start and the archive. -/
theorem entries_of_ended (h : Ready os₀ l g) (hreach : Reach config l g os₀ srv os)
    (hend : srv.ended = true) :
    os.entries = os₀.entries ∪ archive Set.univ srv.all os ∧
      ∀ e ∈ archive Set.univ srv.all os, os₀.dir e.1 = none := by
  have hgood := reach_good h hreach
  have hdisk := hgood.disk
  have hnew : ∀ e ∈ archive Set.univ srv.all os, os₀.dir e.1 = none := by
    rintro ⟨p, k⟩ ⟨s, hs, -, i, hp, -⟩
    exact published_new h hreach hs hp
  refine ⟨Set.ext fun ⟨p, k⟩ => ⟨fun he => ?_, ?_⟩, hnew⟩
  · obtain ⟨j, hj, rfl⟩ := Option.map_eq_some_iff.mp he
    rcases hdisk.entries p j hj with hlt | ⟨s, hs, hino | hp⟩
    · -- a file of the start
      have hsame := (hdisk.initial j hlt).2
      refine .inl ?_
      show (os₀.dir p).map os₀.data = _
      rw [(hsame.dir p).mp hj, hsame.data]
      rfl
    · -- nobody has a temporary file any more
      have hlive : srv.live = [] := by
        rw [live, hgood.ended hend]
        rfl
      rw [all, hlive, List.nil_append] at hs
      rw [(hgood.gone s hs).ino] at hino
      cases hino
    · exact .inr ⟨s, hs, Set.mem_univ _, j, hp, rfl⟩
  · rintro (he | he)
    · obtain ⟨j, hj, rfl⟩ := Option.map_eq_some_iff.mp he
      have hsame := (hdisk.initial j (h.wf.dir p j hj)).2
      show (os.dir p).map os.data = _
      rw [(hsame.dir p).mpr hj, Option.map_some, hsame.data]
    · exact hdisk.mem_entries he

/-- A run in which three bytes are put in. -/
theorem refines_archive_three_bytes :
    ∃ (srv : Server) (os : Os) (e : Bytes × Bytes),
      e ∈ archive Set.univ srv.all os ∧
        Puts (Stored Set.univ srv.all) ∅ (archive Set.univ srv.all os) ∧
        (os.dir e.1).map os.data = some e.2 := by
  obtain ⟨srv, os, s, hreach, hgone, hc, -⟩ := three_bytes_reach
  have hs : s ∈ srv.all := List.mem_append_right _ (by rw [hgone]; exact List.mem_singleton.mpr rfl)
  have hlast := (reach_good (ready_bare 1 3 4) hreach).disk.lasting s hs
  obtain ⟨⟨p, i⟩, hp⟩ := Option.ne_none_iff_exists'.mp (hlast.account.completed_iff.mp hc)
  obtain ⟨hputs, -, -, hdir⟩ := refines_archive (ready_bare 1 3 4) hreach .refl Set.univ
  have he : (p, os.data i) ∈ archive Set.univ srv.all os := ⟨s, hs, Set.mem_univ _, i, hp, rfl⟩
  exact ⟨srv, os, _, he, hputs, hdir _ he⟩

end Server

end Nexus
