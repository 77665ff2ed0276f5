/-
A fleet: many clients and one server.

Each client `i` is a run of `sendFile` with a path of its own, and `conn i` is the number of
its connection, if the server ever accepts it; no two have the same. For every one of them the
system is a `Transfer`, in which the others are the rest of the world.

* `Fleet.exactly_once` — every client's file is stored once or not at all, as its exit code
  says, and apart from all others;
* `Fleet.of_transfer` — a transfer is a fleet in which the others have not begun.
-/
import Mathlib.Data.Fintype.EquivFin
import NexusTransmitter.Refusal
import NexusTransmitter.ServerArchive

open Nexus.Upload Nexus.Client

namespace Nexus

/-- The clients, as far as the system has answered them, and the server. -/
structure Fleet (ι : Type*) where
  sys : ι → ClientSys
  srv : Server
  os : Os

namespace Fleet

variable {ι : Type*}

/-- One client and the server. -/
def transfer (f : Fleet ι) (i : ι) : Transfer := ⟨f.sys i, f.srv, f.os⟩

/-- What the server has stored for a client. -/
def uploads (conn : ι → ℕ) (f : Fleet ι) (i : ι) : Set (Bytes × Bytes) :=
  archive {conn i} f.srv.all f.os

variable [DecidableEq ι]

@[simp] theorem transfer_update_self (f : Fleet ι) (i : ι) (sys : ClientSys) :
    Fleet.transfer { f with sys := Function.update f.sys i sys } i =
      { f.transfer i with sys := sys } := by
  simp [transfer]

@[simp] theorem transfer_update_of_ne (f : Fleet ι) {i j : ι} (h : i ≠ j) (sys : ClientSys) :
    Fleet.transfer { f with sys := Function.update f.sys j sys } i = f.transfer i := by
  simp [transfer, h]

/-- One of the clients goes on, if it has not returned, or the server does. -/
inductive Step (path : ι → Bytes) (conn : ι → ℕ) : Fleet ι → Fleet ι → Prop
  | client (f : Fleet ι) (i : ι) (sys : ClientSys) (hlive : (f.transfer i).exit (path i) = none)
      (hgrows : (f.sys i).Grows sys)
      (horder : Transfer.InOrder (path i) (conn i) { f.transfer i with sys := sys }) :
      Step path conn f { f with sys := Function.update f.sys i sys }
  | server (f : Fleet ι) (srv : Server) (os : Os) (hstep : Server.Step (f.srv, f.os) (srv, os))
      (horder : ∀ i, Transfer.InOrder (path i) (conn i)
        { f.transfer i with srv := srv, os := os }) :
      Step path conn f { f with srv := srv, os := os }

/-- A run of the system. -/
def Steps (path : ι → Bytes) (conn : ι → ℕ) : Fleet ι → Fleet ι → Prop :=
  Relation.ReflTransGen (Step path conn)

/-- The start: no client has been answered yet, and the server has no connection. -/
def start (tellg : ι → Option ℤ) (seekFault : ι → Bool) (connectFault : ι → Option Bytes)
    (config : ServerConfig) (l g : ℕ) (os₀ : Os) : Fleet ι where
  sys := fun i => { tellg := tellg i, seekFault := seekFault i, connectFault := connectFault i }
  srv := .create config l g
  os := Server.registered os₀ l g

/-- The states that the system reaches. -/
def Reach (path : ι → Bytes) (conn : ι → ℕ) (config : ServerConfig) (l g : ℕ) (os₀ : Os)
    (f : Fleet ι) : Prop :=
  ∃ tellg seekFault connectFault,
    Steps path conn (start tellg seekFault connectFault config l g os₀) f

section Run

variable {path : ι → Bytes} {conn : ι → ℕ} {config : ServerConfig} {l g : ℕ} {os₀ : Os}
  {f f' : Fleet ι}

/-- What one client sees of a step: the steps of the other clients are none of its own. -/
theorem Step.transfer (h : Step path conn f f') (i : ι) :
    Transfer.Steps (path i) (conn i) (f.transfer i) (f'.transfer i) := by
  cases h with
  | client j sys hlive hgrows horder =>
    by_cases hij : i = j
    · subst hij
      rw [transfer_update_self]
      exact .single (.client _ sys hlive hgrows horder)
    · rw [transfer_update_of_ne f hij]
      exact .refl
  | server srv os hstep horder => exact .single (.server _ srv os hstep (horder i))

theorem Steps.transfer (h : Steps path conn f f') (i : ι) :
    Transfer.Steps (path i) (conn i) (f.transfer i) (f'.transfer i) := by
  induction h with
  | refl => exact .refl
  | tail hprev hstep ih => exact ih.trans (hstep.transfer i)

theorem Reach.transfer (h : Reach path conn config l g os₀ f) (i : ι) :
    Transfer.Reach (path i) (conn i) config l g os₀ (f.transfer i) := by
  obtain ⟨tellg, seekFault, connectFault, hsteps⟩ := h
  exact ⟨tellg i, seekFault i, connectFault i, hsteps.transfer i⟩

theorem Reach.steps (h : Reach path conn config l g os₀ f) (hsteps : Steps path conn f f') :
    Reach path conn config l g os₀ f' := by
  obtain ⟨tellg, seekFault, connectFault, hstart⟩ := h
  exact ⟨tellg, seekFault, connectFault, hstart.trans hsteps⟩

/-! ### What is stored for a client -/

/-- A client has one session, so what it has stored is one file at most. -/
theorem uploads_subsingleton (h : Server.Ready os₀ l g) (hreach : Reach path conn config l g os₀ f)
    (i : ι) : (uploads conn f i).Subsingleton := by
  rintro ⟨p, k⟩ ⟨s, hs, hc, m, hp, rfl⟩ ⟨q, k'⟩ ⟨t, ht, hc', n, hq, rfl⟩
  have hconn : s.conn = t.conn := hc.trans hc'.symm
  obtain rfl := Transfer.session_unique h (hreach.transfer i) hs ht hconn
  rw [hp] at hq
  cases hq
  rfl

/-- What is stored is the client's own: it has been sent as the grammar asks. -/
theorem uploads_verdict (h : Server.Ready os₀ l g) (hreach : Reach path conn config l g os₀ f)
    {i : ι} {e : Bytes × Bytes} (he : e ∈ uploads conn f i) :
    Verdict ((f.transfer i).client (path i)).sent .ok (some e.2) := by
  obtain ⟨p, k⟩ := e
  obtain ⟨s, hs, hc, m, hp, rfl⟩ := he
  obtain ⟨hserver, horder⟩ := (hreach.transfer i).spec
  have hlast := (Server.reach_good h hserver).disk.lasting s hs
  obtain ⟨name, hans, hfile, -⟩ := hlast.file hp
  have hverdict := hlast.tracks.verdict_ok hans
  rw [← hfile.data] at hverdict
  exact hverdict.mono (horder.toServer s hs hc)

/-- Two clients have their files under different names. -/
theorem uploads_separate (h : Server.Ready os₀ l g) (hconn : Function.Injective conn)
    (hreach : Reach path conn config l g os₀ f) {i j : ι} (hij : i ≠ j) {e e' : Bytes × Bytes}
    (he : e ∈ uploads conn f i) (he' : e' ∈ uploads conn f j) : e.1 ≠ e'.1 := by
  obtain ⟨p, k⟩ := e
  obtain ⟨q, k'⟩ := e'
  obtain ⟨s, hs, hc, m, hp, rfl⟩ := he
  obtain ⟨t, ht, hc', n, hq, rfl⟩ := he'
  have hdisk := (Server.reach_good h (hreach.transfer i).spec.1).disk
  have hst : s ≠ t := by
    rintro rfl
    exact hij (hconn (Eq.trans (Eq.symm hc) hc'))
  rintro hpq
  obtain rfl : p = q := hpq
  -- the one entry leads to one inode, and nobody else publishes that
  have hmn := (hdisk.dir_of_published hs hp).symm.trans (hdisk.dir_of_published ht hq)
  cases hmn
  have hsymm : Std.Symm fun s t : Session =>
      ∀ p q i, s.writer.published = some (p, i) → t.writer.published ≠ some (q, i) :=
    ⟨fun s t hd p q i hp hq => hd q p i hq hp⟩
  exact hdisk.distinct.forall hs ht hst p p m hp hq

/-- A client that has returned 0 has its file stored, and that is new. -/
theorem stored_of_zero (h : Server.Ready os₀ l g) (hreach : Reach path conn config l g os₀ f)
    {i : ι} (hzero : (f.transfer i).exit (path i) = some 0) :
    ∃ fileSize ds name,
      ((f.transfer i).client (path i)).sent = uploadBytes fileSize (baseName (path i)) ds ∧
      ds.flatten.length = fileSize ∧
      .completed fileSize (crc32 ds.flatten) name ∈ ((f.transfer i).client (path i)).lines ∧
      os₀.dir (finalPath config.outDir name) = none ∧
      (finalPath config.outDir name, ds.flatten) ∈ uploads conn f i := by
  obtain ⟨ds, hfront, hout⟩ := sendFile_outcome (path i) (f.sys i)
  obtain ⟨s, hs, hconn, name, m, -, hfile, hsent, hline⟩ :=
    Transfer.session_of_zero h (hreach.transfer i) hout hzero
  have hserver := (hreach.transfer i).spec.1
  have hpub := hfile.published
  rw [(Server.reach_good h hserver).disk.dir s hs, Server.reach_config hserver] at hpub
  have hmem : (finalPath config.outDir name, s.hist.accepted) ∈ uploads conn f i :=
    ⟨s, hs, hconn, m, hpub, hfile.data⟩
  have hv := uploads_verdict h hreach hmem
  rw [hsent] at hv
  obtain ⟨hlen, hdata⟩ :=
    (verdict_uploadBytes (f.sys i).fileSize_lt (length_le_of_reads hfront)).mp hv
  refine ⟨_, ds, name, hsent, hlen, hline, Server.published_new h hserver hs hpub, ?_⟩
  have haccepted : s.hist.accepted = ds.flatten := Option.some.inj hdata
  rwa [haccepted] at hmem

/-- After 2, 3, 4 or 6 nothing is stored for the client, however the others go on. -/
theorem uploads_of_failed (h : Server.Ready os₀ l g) (hreach : Reach path conn config l g os₀ f)
    (hsteps : Steps path conn f f') {i : ι}
    (hexit : (f.transfer i).exit (path i) ∈ [some 2, some 3, some 4, some 6]) :
    uploads conn f' i = ∅ := by
  have hsame : (f'.transfer i).sys = (f.transfer i).sys := by
    simp only [List.mem_cons, List.not_mem_nil, or_false] at hexit
    rcases hexit with hexit | hexit | hexit | hexit <;> exact (hsteps.transfer i).sys_eq hexit
  have hexit' : (f'.transfer i).exit (path i) ∈ [some 2, some 3, some 4, some 6] := by
    rwa [Transfer.exit, hsame]
  refine Set.eq_empty_iff_forall_notMem.mpr ?_
  rintro e ⟨s, hs, hc, m, hp, -⟩
  have hreach' := (hreach.steps hsteps).transfer i
  rw [Transfer.not_published h hreach' hexit' hs hc] at hp
  cases hp

/-- **Exactly once.**  Take any state that the system reaches, and any that it reaches from
there, with whatever number of clients, however their steps and the server's alternate and
whatever fails. Then for every client:

* if it has returned 0, the server has stored, from then on, one new file for it: under the
  name the ACK has told, of exactly the bytes that were in its DATA frames, as many as it
  declared in HELLO;
* if it has returned 2, 3, 4 or 6, nothing is stored for it, then and later; the only other
  code is 5;
* in any case there is at most one file for it, which is in the directory, whose content it
  has sent itself, and whose name no other client's file has. -/
theorem exactly_once (h : Server.Ready os₀ l g) (hconn : Function.Injective conn)
    (hreach : Reach path conn config l g os₀ f) (hsteps : Steps path conn f f') (i : ι) :
    ((f.transfer i).exit (path i) = some 0 →
      ∃ fileSize ds name,
        ((f.transfer i).client (path i)).sent = uploadBytes fileSize (baseName (path i)) ds ∧
        ds.flatten.length = fileSize ∧
        .completed fileSize (crc32 ds.flatten) name ∈ ((f.transfer i).client (path i)).lines ∧
        os₀.dir (finalPath config.outDir name) = none ∧
        uploads conn f' i = {(finalPath config.outDir name, ds.flatten)}) ∧
    ((f.transfer i).exit (path i) ∈ [some 2, some 3, some 4, some 6] → uploads conn f' i = ∅) ∧
    (∀ code, (f.transfer i).exit (path i) = some code → code ∈ [0, 2, 3, 4, 5, 6]) ∧
    (uploads conn f' i).Subsingleton ∧
    ∀ e ∈ uploads conn f' i, (f'.os.dir e.1).map f'.os.data = some e.2 ∧
      Verdict ((f'.transfer i).client (path i)).sent .ok (some e.2) ∧
      ∀ j, j ≠ i → ∀ e' ∈ uploads conn f' j, e'.1 ≠ e.1 := by
  have hreach' := hreach.steps hsteps
  have hsingle := uploads_subsingleton h hreach' i
  obtain ⟨hdisk, hevolves⟩ := Server.evolves_of_steps h (hreach.transfer i).spec.1
    (hsteps.transfer i).server_steps
  refine ⟨fun hzero => ?_, uploads_of_failed h hreach hsteps, fun code hcode => ?_, hsingle,
    fun e he => ⟨?_, uploads_verdict h hreach' he,
      fun j hj e' he' => uploads_separate h hconn hreach' hj he' he⟩⟩
  · obtain ⟨fileSize, ds, name, hsent, hlen, hline, hnew, hmem⟩ := stored_of_zero h hreach hzero
    refine ⟨fileSize, ds, name, hsent, hlen, hline, hnew, ?_⟩
    -- what is stored stays, and there is no room for another
    have hputs := hdisk.puts_of_evolves hevolves {conn i}
    exact hsingle.eq_singleton_of_mem (hputs.subset hmem)
  · obtain ⟨ds, -, hout⟩ := sendFile_outcome (path i) (f.sys i)
    exact hout.exit_mem hcode
  · exact (hdisk.evolves hevolves).mem_entries he

/-! ### A transfer is a fleet -/

/-- A client that has not been answered has read nothing. -/
theorem received_start (path : Bytes) (tellg : Option ℤ) (seekFault : Bool)
    (connectFault : Option Bytes) :
    (sendFile path { tellg := tellg, seekFault := seekFault,
                     connectFault := connectFault }).2.received = [] := by
  have horder : Transfer.InOrder path 0 (Transfer.start tellg seekFault connectFault
      { outDir := [], idleTimeout := 0, maxSessions := 0 } 0 0 (Server.bare 0 0 0)) :=
    Transfer.start_inOrder tellg seekFault connectFault
  rcases horder.toClient with hnil | ⟨s, hs, -⟩ | ⟨sent, hmem, -⟩
  · exact hnil
  · exact absurd hs List.not_mem_nil
  · exact absurd hmem List.not_mem_nil

/-- The state of a transfer, with the other clients as they are. -/
def ofTransfer (idle : ι → ClientSys) (i : ι) (t : Transfer) : Fleet ι :=
  ⟨Function.update idle i t.sys, t.srv, t.os⟩

@[simp] theorem ofTransfer_self (idle : ι → ClientSys) (i : ι) (t : Transfer) :
    (ofTransfer idle i t).transfer i = t := by
  simp [ofTransfer, transfer]

@[simp] theorem ofTransfer_of_ne (idle : ι → ClientSys) {i j : ι} (h : j ≠ i) (t : Transfer) :
    (ofTransfer idle i t).transfer j = ⟨idle j, t.srv, t.os⟩ := by
  simp [ofTransfer, transfer, h]

theorem ofTransfer_start (tellg : Option ℤ) (seekFault : Bool) (connectFault : Option Bytes)
    (i : ι) :
    ofTransfer (fun _ => (Transfer.start tellg seekFault connectFault config l g os₀).sys) i
        (Transfer.start tellg seekFault connectFault config l g os₀) =
      start (fun _ => tellg) (fun _ => seekFault) (fun _ => connectFault) config l g os₀ := by
  simp [ofTransfer, start, Transfer.start]

/-- A transfer is a fleet in which the other clients have not begun. -/
theorem of_transfer (h : Server.Ready os₀ l g) {i : ι} {t : Transfer}
    (hreach : Transfer.Reach (path i) (conn i) config l g os₀ t)
    (hothers : ∀ j ≠ i, ∀ s ∈ t.srv.all, s.conn ≠ conn j) :
    ∃ f, Reach path conn config l g os₀ f ∧ f.transfer i = t := by
  obtain ⟨tellg, seekFault, connectFault, hsteps⟩ := hreach
  obtain ⟨idle, hidle⟩ : ∃ idle : ι → ClientSys, idle =
      fun _ => (Transfer.start tellg seekFault connectFault config l g os₀).sys := ⟨_, rfl⟩
  suffices hrun : Steps path conn
      (start (fun _ => tellg) (fun _ => seekFault) (fun _ => connectFault) config l g os₀)
      (ofTransfer idle i t) from ⟨_, ⟨_, _, _, hrun⟩, ofTransfer_self _ i t⟩
  induction hsteps with
  | refl =>
    rw [hidle, ofTransfer_start]
    exact .refl
  | @tail u v hprev hstep ih =>
    have hserver : Server.Reach config l g os₀ u.srv u.os := Transfer.Steps.server_steps hprev
    -- a connection of another client would still be there
    have hbefore : ∀ j ≠ i, ∀ s ∈ u.srv.all, s.conn ≠ conn j := by
      intro j hj s hs hc
      obtain ⟨-, hevolves⟩ := Server.evolves_of_steps h hserver hstep.server_steps
      obtain ⟨s', hs', hc'⟩ := Server.conn_of_evolves hevolves hs
      exact hothers j hj s' hs' (hc'.trans hc)
    refine (ih hbefore).tail ?_
    cases hstep with
    | client sys hlive hgrows horder =>
      have hsame : ofTransfer idle i { u with sys := sys } =
          { ofTransfer idle i u with
            sys := Function.update (ofTransfer idle i u).sys i sys } := by
        simp [ofTransfer]
      rw [hsame]
      refine .client (ofTransfer idle i u) i sys ?_ ?_ ?_
      · rw [ofTransfer_self]
        exact hlive
      · show (Function.update idle i u.sys i).Grows sys
        rw [Function.update_self]
        exact hgrows
      · rw [ofTransfer_self]
        exact horder
    | server srv os hserver horder =>
      refine .server (ofTransfer idle i u) srv os hserver fun j => ?_
      by_cases hj : j = i
      · subst hj
        rw [ofTransfer_self]
        exact horder
      · rw [ofTransfer_of_ne idle hj, hidle]
        exact ⟨fun s hs hc => absurd hc (hothers j hj s hs),
          .inl (received_start (path j) tellg seekFault connectFault)⟩

end Run

/-- Of two clients one has sent its file of three bytes; the other has not begun. -/
theorem exactly_once_three_bytes :
    ∃ (conn : Bool → ℕ) (f : Fleet Bool) (name : Bytes) (content : Bytes),
      (f.transfer false).exit (str "/tmp/a.txt") = some 0 ∧
      uploads conn f false = {(finalPath (str "in") name, content)} := by
  obtain ⟨t, s, hreach, hs, hconn, -, -, hexit, -⟩ := Transfer.three_bytes_reach
  -- a number that no connection has
  obtain ⟨n, hn⟩ := Infinite.exists_notMem_finset
    (insert 0 (t.srv.all.map Session.conn).toFinset)
  obtain ⟨hzero, hfree⟩ := not_or.mp fun h => hn (Finset.mem_insert.mpr h)
  obtain ⟨conn, hfalse, htrue⟩ : ∃ conn : Bool → ℕ, conn false = 0 ∧ conn true = n :=
    ⟨fun b => if b then n else 0, rfl, rfl⟩
  have hothers : ∀ j ≠ false, ∀ r ∈ t.srv.all, r.conn ≠ conn j := by
    rintro (_ | _) hj r hr hc
    · exact hj rfl
    · exact hfree (List.mem_toFinset.mpr (List.mem_map.mpr ⟨r, hr, hc.trans htrue⟩))
  obtain ⟨f, hf, htransfer⟩ : ∃ f, Reach (fun _ => str "/tmp/a.txt") conn
      { outDir := str "in", idleTimeout := 30, maxSessions := 2 } 3 4 (Server.bare 1 3 4) f ∧
        f.transfer false = t :=
    of_transfer (Server.ready_bare 1 3 4) (hfalse ▸ hreach) hothers
  have hinj : Function.Injective conn := by
    rintro (_ | _) (_ | _) heq
    · rfl
    · exact absurd (heq.symm.trans hfalse) (htrue ▸ hzero)
    · exact absurd (heq.trans hfalse) (htrue ▸ hzero)
    · rfl
  obtain ⟨hstored, -⟩ := exactly_once (Server.ready_bare 1 3 4) hinj hf .refl false
  rw [← htransfer] at hexit
  obtain ⟨fileSize, ds, name, -, -, -, -, huploads⟩ := hstored hexit
  exact ⟨conn, f, name, _, hexit, huploads⟩

end Fleet

end Nexus
