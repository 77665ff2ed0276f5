/-
The descriptors of the server.

A session holds the descriptor of its connection, and that of its temporary file while it
has one open. Whatever it does is a `Slots.Turn` on the table of open descriptors, and so
is whatever the server does.

* `Session.Step.turn` — what a step of a session does to the descriptors;
* `Server.descriptors` — in every state that the server reaches there is open what was open
  at the start, and what the sessions in the table hold; nothing leaks.
-/
import NexusTransmitter.Lib.Slots
import NexusTransmitter.ServerRun

namespace Nexus

/-! ### The writer -/

/-- A step on one file leaves a descriptor as it is, if that has not led to the file and
does not lead to a new one. -/
theorem Os.FileStep.fds_eq {own own' : Option ℕ} {os os' : Os} (h : FileStep own os own' os')
    (hwf : os.WF) {f : ℕ} (hf : ∀ i, own = some i → os.fds f ≠ some (.file i))
    (hf' : ∀ i, os'.fds f = some (.file i) → i < os.nextIno ∧ own ≠ some i) :
    os'.fds f = os.fds f := by
  -- by what the descriptor leads to afterwards, and before
  rcases hnew : os'.fds f with _ | ⟨i | c | _⟩
  · rcases hold : os.fds f with _ | ⟨i | c | _⟩
    · rfl
    · have hown : own ≠ some i := fun hi => hf i hi hold
      rw [((h.confined.same i (hwf.fds f i hold) hown).fds f).mpr hold] at hnew
      cases hnew
    · rw [(h.sockets.fds f _ (by simp)).mpr hold] at hnew
      cases hnew
    · rw [(h.sockets.fds f _ (by simp)).mpr hold] at hnew
      cases hnew
  · obtain ⟨hlt, hown⟩ := hf' i hnew
    exact (((h.confined.same i hlt hown).fds f).mp hnew).symm
  · exact ((h.sockets.fds f _ (by simp)).mp hnew).symm
  · exact ((h.sockets.fds f _ (by simp)).mp hnew).symm

namespace FileWriter

/-- The descriptor of the temporary file, while it is open. -/
def holding (w : FileWriter) : Set ℕ := {f | w.fd = some f}

variable {w w' : FileWriter} {os os' : Os} {fd i : ℕ}

theorem Closed.holding (h : w.Closed) : w.holding = ∅ := by
  ext f
  simp [FileWriter.holding, h.1]

theorem Holds.holding (h : w.Holds os fd i) : w.holding = {fd} := by
  ext f
  simp [FileWriter.holding, h.fd_eq, eq_comm]

theorem Opened.turn (h : w.Opened os w' os' fd) (hclosed : w.Closed) (hwf : os.WF) :
    Slots.Turn w.holding os.fds w'.holding os'.fds := by
  rw [hclosed.holding, h.holds.holding]
  refine .take ?_ (fun f hf => h.step.fds_eq hwf (fun i hi => by cases hi) fun i hi => ?_) ?_
  · -- any other descriptor leads where it has led
    rcases hold : os.fds fd with _ | ⟨i | c | _⟩
    · rfl
    · have hlt := hwf.fds fd i hold
      have hnew := ((h.step.confined.same i hlt (by simp)).fds fd).mpr hold
      rw [h.holds.file_fd] at hnew
      cases hnew
      exact absurd hlt (Nat.lt_irrefl _)
    · have hnew := (h.step.sockets.fds fd _ (by simp)).mpr hold
      rw [h.holds.file_fd] at hnew
      cases hnew
    · have hnew := (h.step.sockets.fds fd _ (by simp)).mpr hold
      rw [h.holds.file_fd] at hnew
      cases hnew
  · have hlt := (h.step.wf hwf).fds f i hi
    rw [h.next] at hlt
    have hne : i ≠ os.nextIno := by
      rintro rfl
      exact hf ((h.holds.file f).mp hi)
    exact ⟨by omega, by simp⟩
  · rw [h.holds.file_fd]
    simp

/-- A writer lets go of its file, whether it has dropped it or published it. -/
theorem Holds.turn (h : w.Holds os fd i) (hwf : os.WF) (hstep : Os.FileStep (some i) os none os')
    (hnext : os'.nextIno = os.nextIno) (hfile : ∀ f, os'.fds f ≠ some (.file i)) :
    Slots.Turn w.holding os.fds ∅ os'.fds := by
  rw [h.holding]
  refine .free (fun f hf => hstep.fds_eq hwf (fun j hj => ?_) fun j hj => ⟨?_, ?_⟩) ?_
  · cases hj
    exact fun hi => hf ((h.file f).mp hi)
  · exact hnext ▸ (hstep.wf hwf).fds f j hj
  · rintro hij
    cases hij
    exact hfile f hj
  · rcases hnew : os'.fds fd with _ | ⟨j | c | _⟩
    · rfl
    · have hown : some i ≠ some j := by
        rintro hij
        cases hij
        exact hfile fd hnew
      have hlt : j < os.nextIno := hnext ▸ (hstep.wf hwf).fds fd j hnew
      have hold := ((hstep.confined.same j hlt hown).fds fd).mp hnew
      rw [h.file_fd] at hold
      cases hold
      exact absurd rfl hown
    · have hold := (hstep.sockets.fds fd _ (by simp)).mp hnew
      rw [h.file_fd] at hold
      cases hold
    · have hold := (hstep.sockets.fds fd _ (by simp)).mp hnew
      rw [h.file_fd] at hold
      cases hold

/-- A writer that has nothing open changes no descriptor when it lets go. -/
theorem Closed.turn (h : w.Closed) (hwf : os.WF) (hstep : Os.FileStep (w.ino os) os none os')
    (hnext : os'.nextIno = os.nextIno) : Slots.Turn w.holding os.fds ∅ os'.fds := by
  rw [h.ino] at hstep
  have hsame : os'.fds = os.fds := funext fun f =>
    hstep.fds_eq hwf (fun i hi => by cases hi) fun i hi =>
      ⟨hnext ▸ (hstep.wf hwf).fds f i hi, by simp⟩
  rw [h.holding, hsame]
  exact .refl fun _ hf => absurd hf (Set.notMem_empty _)

theorem Dropped.turn (h : w.Dropped os w' os')
    (hheld : w.Closed ∨ ∃ fd i, w.Holds os fd i) (hwf : os.WF) :
    Slots.Turn w.holding os.fds w'.holding os'.fds := by
  rw [h.closed.holding]
  rcases hheld with hclosed | ⟨fd, i, hholds⟩
  · exact hclosed.turn hwf h.step h.next
  · have hstep := h.step
    rw [hholds.ino] at hstep
    exact hholds.turn hwf hstep h.next (h.file i hholds.ino)

end FileWriter

/-! ### The session -/

namespace Session

variable {s s' : Session} {os os' : Os}

theorem Inv.held (h : s.Inv os) : s.writer.Closed ∨ ∃ fd i, s.writer.Holds os fd i := by
  cases h with
  | waiting h => exact .inl h.closed
  | body h => exact .inr ⟨_, _, h.holds⟩
  | answered h => exact .inl h.closed
  | aborted h => exact .inl h.closed

theorem Receiving.held (h : s.Receiving os) : s.writer.Closed ∨ ∃ fd i, s.writer.Holds os fd i := by
  cases h with
  | waiting h => exact .inl h.closed
  | body h => exact .inr ⟨_, _, h.holds⟩

/-- What the writer holds open is a file. -/
theorem Inv.file_of_holding (h : s.Inv os) {f : ℕ} (hf : f ∈ s.writer.holding) :
    ∃ i, s.writer.ino os = some i ∧ os.fds f = some (.file i) := by
  rcases h.held with hclosed | ⟨fd, i, hholds⟩
  · rw [hclosed.holding] at hf
    cases hf
  · rw [hholds.holding] at hf
    cases hf
    exact ⟨i, hholds.ino, hholds.file_fd⟩

theorem Inv.uses (h : s.Inv os) : Slots.Uses s.writer.holding os.fds := by
  intro f hf
  obtain ⟨i, -, hi⟩ := h.file_of_holding hf
  rw [hi]
  simp

/-- **What a step of a session does to the descriptors.** -/
theorem Step.turn (hstep : Step s os s' os') (h : s.Inv os) (hwf : os.WF) :
    Slots.Turn s.writer.holding os.fds s'.writer.holding os'.fds := by
  cases hstep with
  | receive bs now live => exact .refl h.uses
  | started hw hnext htype hhello hopen => exact hopen.turn hw.closed hwf
  | @stored f p fd i calls hb hnext htype hsize hmax hcalls => exact .refl h.uses
  | @published f p fd i w os' name hb hnext htype hcrc hsize hpub =>
    have hturn := hb.holds.turn hwf hpub.step hpub.next hpub.file
    rw [← hpub.closed.holding] at hturn
    exact hturn
  | @refused s₁ f w os' line status message hr hnext hkept hdrop hwhy =>
    exact hdrop.turn hr.held hwf
  | sent n now live hs hn => exact .refl h.uses
  | drained now live hs hout => exact .refl h.uses
  | line line live => exact .refl h.uses
  | terminated lines live hdrop => exact hdrop.turn h.held hwf

theorem Steps.turn {a b : Session × Os} (hsteps : Steps a b) (h : a.1.Inv a.2) (hwf : a.2.WF) :
    Slots.Turn a.1.writer.holding a.2.fds b.1.writer.holding b.2.fds := by
  induction hsteps with
  | refl => exact .refl h.uses
  | tail hprev hstep ih =>
    obtain ⟨hinv, -, hwf'⟩ := Steps.inv hprev h hwf
    exact ih.trans (hstep.turn hinv hwf')

/-- What a session holds: its connection, and its temporary file. -/
def holding (s : Session) : List ℕ := s.fd :: s.writer.fd.toList

/-- The same as a set, in the order of the frame rule. -/
theorem setOf_holding (s : Session) : {f | f ∈ s.holding} = s.writer.holding ∪ {s.fd} := by
  ext f
  simp [holding, FileWriter.holding]

/-- A turn of the writer is one of the whole session, which keeps its connection. -/
theorem Inv.turn (h : s.Inv os) {c : ℕ} (hopen : os.fds s.fd = some (.socket c))
    (hfd : s'.fd = s.fd)
    (ht : Slots.Turn s.writer.holding os.fds s'.writer.holding os'.fds) :
    Slots.Turn {f | f ∈ s.holding} os.fds {f | f ∈ s'.holding} os'.fds := by
  rw [setOf_holding, setOf_holding, hfd]
  refine ht.frame ?_ ?_
  · rintro f rfl
    rw [hopen]
    simp
  · rintro f rfl hf
    obtain ⟨i, -, hi⟩ := h.file_of_holding hf
    rw [hopen] at hi
    cases hi

theorem Sound.terminate_slots (h : s.Sound os) (reason : Bytes) :
    Slots.Turn s.writer.holding os.fds (s.terminate os reason).1.writer.holding
      (s.terminate os reason).2.fds := by
  by_cases hlive : s.terminated = false
  · exact (terminate_step h.inv hlive reason rfl).turn h.inv h.wf
  · rw [terminate, if_pos (by simpa using hlive)]
    exact .refl h.inv.uses

/-- A session that is destroyed gives back all it holds. -/
theorem Sound.destroy_slots (h : s.Sound os) {c : ℕ} (hopen : os.fds s.fd = some (.socket c)) :
    Slots.Turn {f | f ∈ s.holding} os.fds ∅ (s.destroy os).2.fds := by
  have hsame : Os.SameFiles os (os.close s.fd) := .close fun i => by
    rw [hopen]
    simp
  have hinv : s.Inv (os.close s.fd) := (h.of_others (others_of_sameFiles hsame)).inv
  have hdrop := hinv.abort.turn hinv.held (hsame.wf h.wf)
  rw [hinv.abort.closed.holding] at hdrop
  have hclose : Slots.Turn {s.fd} os.fds ∅ (os.close s.fd).fds :=
    .free (fun f hf => by rw [Os.close_fds, if_neg hf]) (by rw [Os.close_fds, if_pos rfl])
  have hapart : ∀ f ∈ s.writer.holding, f ∉ ({s.fd} : Set ℕ) := by
    rintro f hf rfl
    obtain ⟨i, -, hi⟩ := h.inv.file_of_holding hf
    rw [hopen] at hi
    cases hi
  have hframe := hclose.frame h.inv.uses hapart
  rw [Set.empty_union, Set.union_comm, ← setOf_holding] at hframe
  exact hframe.trans hdrop

end Session

/-! ### The server -/

/-- The descriptors of some sessions. -/
def slots (L : List Session) : Set ℕ := {f | ∃ s ∈ L, f ∈ s.holding}

theorem slots_nil : slots [] = ∅ := by
  ext f
  simp [slots]

theorem slots_cons (s : Session) (L : List Session) :
    slots (s :: L) = {f | f ∈ s.holding} ∪ slots L := by
  ext f
  simp [slots]

theorem slots_perm {L L' : List Session} (h : L.Perm L') : slots L = slots L' := by
  ext f
  exact exists_congr fun s => and_congr_left' h.mem_iff

namespace Server

/-- All that the sessions in the table hold. -/
def holding (srv : Server) : List ℕ := srv.live.flatMap Session.holding

theorem mem_holding {srv : Server} {f : ℕ} : f ∈ srv.holding ↔ f ∈ slots srv.live :=
  List.mem_flatMap

section Slots

variable {os₀ os os' : Os} {b : List Session × Os} {srv : Server} {fd fd' f : ℕ} {d : Option ℕ}
  {e e' : Entry}

theorem mem_others {s : Session} (hs : s ∈ srv.others fd) :
    ∃ f e, f ≠ fd ∧ srv.sessions.lookup f = some e ∧ e.session = s := by
  obtain ⟨⟨f, e⟩, hmem, rfl⟩ := List.mem_map.mp hs
  have hlookup : e ∈ (srv.sessions.erase fd).lookup f := AList.mem_lookup_iff.mpr hmem
  by_cases hf : f = fd
  · rw [hf, AList.lookup_erase] at hlookup
    cases hlookup
  · rw [AList.lookup_erase_ne hf] at hlookup
    exact ⟨f, e, hf, hlookup, rfl⟩

namespace Good

theorem inv (h : Good os₀ b srv os d) (he : srv.sessions.lookup fd = some e) :
    e.session.Inv os := (h.sound he).inv

theorem opened (h : Good os₀ b srv os d) (he : srv.sessions.lookup fd = some e) :
    os.fds e.session.fd = some (.socket e.session.conn) := by
  obtain ⟨hfd, hopen⟩ := h.table.entry fd e he
  rw [hfd]
  exact hopen

/-- A session holds a socket and a file. -/
theorem holds (h : Good os₀ b srv os d) (he : srv.sessions.lookup fd = some e)
    (hf : f ∈ e.session.holding) :
    f = fd ∧ os.fds f = some (.socket e.session.conn) ∨
      ∃ i, e.session.writer.ino os = some i ∧ os.fds f = some (.file i) := by
  obtain ⟨hfd, hopen⟩ := h.table.entry fd e he
  rcases List.mem_cons.mp hf with rfl | hf
  · exact .inl ⟨hfd, h.opened he⟩
  · exact .inr ((h.inv he).file_of_holding (Option.mem_toList.mp hf))

theorem uses (h : Good os₀ b srv os d) (he : srv.sessions.lookup fd = some e) :
    Slots.Uses {f | f ∈ e.session.holding} os.fds := by
  intro f hf
  rcases h.holds he hf with ⟨-, hopen⟩ | ⟨i, -, hopen⟩ <;> rw [hopen] <;> simp

/-- Two sessions hold nothing in common. -/
theorem apart (h : Good os₀ b srv os d) (he : srv.sessions.lookup fd = some e)
    (he' : srv.sessions.lookup fd' = some e') (hne : fd' ≠ fd) :
    List.Disjoint e'.session.holding e.session.holding := by
  intro f hf' hf
  rcases h.holds he hf with ⟨rfl, hopen⟩ | ⟨i, hi, hopen⟩ <;>
    rcases h.holds he' hf' with ⟨rfl, hopen'⟩ | ⟨j, hj, hopen'⟩
  · exact hne rfl
  · rw [hopen] at hopen'
    cases hopen'
  · rw [hopen] at hopen'
    cases hopen'
  · -- the files of two sessions are two files
    rw [hopen] at hopen'
    cases hopen'
    have hother : e'.session ∈ srv.others fd ++ srv.gone := by
      refine List.mem_append_left _ (List.mem_map.mpr ⟨⟨fd', e'⟩, ?_, rfl⟩)
      exact AList.mem_lookup_iff.mp (by rw [AList.lookup_erase_ne hne]; exact he')
    have hdistinct := (h.disk.perm (all_perm he)).separate.distinct
    exact (List.pairwise_cons.mp hdistinct).1 _ (List.mem_map_of_mem hother) i hi hj

theorem others_uses (h : Good os₀ b srv os d) : Slots.Uses (slots (srv.others fd)) os.fds := by
  rintro f ⟨s, hs, hf⟩
  obtain ⟨f', e', -, he', rfl⟩ := mem_others hs
  exact h.uses he' f hf

theorem others_apart (h : Good os₀ b srv os d) (he : srv.sessions.lookup fd = some e) :
    ∀ f ∈ slots (srv.others fd), f ∉ e.session.holding := by
  rintro f ⟨s, hs, hf⟩ hf'
  obtain ⟨f', e', hne, he', rfl⟩ := mem_others hs
  exact h.apart he he' hne hf hf'

theorem live_uses (h : Good os₀ b srv os d) : Slots.Uses (slots srv.live) os.fds := by
  rintro f ⟨s, hs, hf⟩
  obtain ⟨fd, e, he, rfl⟩ := mem_live.mp hs
  exact h.uses he f hf

/-- A turn of the session under `fd` is one of the server. -/
theorem turn_slots (h : Good os₀ b srv os d) (he : srv.sessions.lookup fd = some e) {O : Set ℕ}
    (ht : Slots.Turn {f | f ∈ e.session.holding} os.fds O os'.fds) :
    Slots.Turn (slots srv.live) os.fds (O ∪ slots (srv.others fd)) os'.fds := by
  rw [slots_perm (live_perm he), slots_cons]
  exact ht.frame h.others_uses (h.others_apart he)

/-- The session under `fd` is destroyed, and all it held is given back. -/
theorem leave_slots (h : Good os₀ b srv os d) (he : srv.sessions.lookup fd = some e) {s : Session}
    {os₁ os₂ : Os} (ht : e.session.Turn os s os₁)
    (hturn : Slots.Turn e.session.writer.holding os.fds s.writer.holding os₁.fds)
    (hsame : os₁.SameFiles os₂) (hfds : os₂.fds = os₁.fds) :
    Slots.Turn (slots srv.live) os.fds (slots (srv.others fd)) (s.destroy os₂).2.fds := by
  have hsound := ht.sound.of_others (Session.others_of_sameFiles hsame)
  have hopen : os₂.fds s.fd = some (.socket e.session.conn) := by
    rw [hfds, ht.moves.fd, (ht.sockets.fds _ _ (by simp)).mpr (h.opened he)]
  have hall := (h.inv he).turn (h.opened he) ht.moves.fd hturn
  rw [← hfds] at hall
  have hleave := h.turn_slots he (hall.trans (hsound.destroy_slots hopen))
  rwa [Set.empty_union] at hleave

/-- The session under `fd` takes a turn. -/
theorem update_slots (h : Good os₀ b srv os d) (he : srv.sessions.lookup fd = some e) (e' : Entry)
    (ht : e.session.Turn os e'.session os')
    (hturn : Slots.Turn e.session.writer.holding os.fds e'.session.writer.holding os'.fds) :
    Slots.Turn (slots srv.live) os.fds (slots (srv.update fd e').live) os'.fds := by
  have hlive : (srv.update fd e').live = e'.session :: srv.others fd := rfl
  rw [hlive, slots_cons]
  exact h.turn_slots he ((h.inv he).turn (h.opened he) ht.moves.fd hturn)

end Good

theorem closeSession_slots (h : Good os₀ b srv os d) (fd : ℕ) (reason : Bytes) :
    Slots.Turn (slots srv.live) os.fds (slots (srv.closeSession os fd reason).1.live)
      (srv.closeSession os fd reason).2.fds := by
  rw [closeSession]
  split
  · exact .refl h.live_uses
  · rename_i e he
    exact h.leave_slots he ((h.sound he).terminate_turn (h.lasting he).tracks rfl)
      ((h.sound he).terminate_slots reason) (.epollDel _ fd) rfl

theorem eraseSession_slots (h : Good os₀ b srv os none) (fd : ℕ) :
    Slots.Turn (slots srv.live) os.fds (slots (srv.eraseSession os fd).1.live)
      (srv.eraseSession os fd).2.fds := by
  rw [eraseSession]
  split
  · exact .refl h.live_uses
  · rename_i e he
    have hsound := h.sound he
    exact h.leave_slots he ⟨.refl hsound.wf, hsound, (h.lasting he).tracks, .refl os⟩
      (.refl hsound.inv.uses) (.refl os) rfl

theorem handleSession_slots {sys : Sys} (h : Good os₀ b srv sys.os none) (ev : Event) :
    Slots.Turn (slots srv.live) sys.os.fds (slots (srv.handleSession sys ev).1.live)
      (srv.handleSession sys ev).2.fds := by
  rw [handleSession]
  split
  · exact .refl h.live_uses
  rename_i e he
  obtain ⟨-, hlive⟩ := h.table.synced ev.fd e (by simp) he
  have hsound := h.sound he
  have hturn : ∀ r, e.session.handle sys ev.events ev.reads = r → _ := fun r hr =>
    hsound.handle_turn (h.lasting he).tracks hlive hr
  have hslots : ∀ r, e.session.handle sys ev.events ev.reads = r →
      Slots.Turn e.session.writer.holding sys.os.fds r.2.1.writer.holding r.2.2.os.fds :=
    fun r hr => (Session.handle_outcome hr hsound.inv hsound.wf hlive hsound.quiet).steps.turn
      hsound.inv hsound.wf
  split
  · -- the session is done
    rename_i s sys' hs
    have hupdate := h.update_slots he { e with session := s } (hturn _ hs).1 (hslots _ hs)
    have hgood := h.turn (none_ne ev.fd) he { e with session := s } (hturn _ hs).1
    exact hupdate.trans (closeSession_slots hgood ev.fd _)
  · rename_i s sys' hs
    have hupdate := h.update_slots he { e with session := s } (hturn _ hs).1 (hslots _ hs)
    have hgood := h.turn (none_ne ev.fd) he { e with session := s } (hturn _ hs).1
    dsimp only
    split
    · cases hmod : sys'.os.epollMod ev.fd s.interest ev.modFault with
      | mk ok os' =>
        rw [Os.epollMod] at hmod
        split at hmod <;> cases hmod
        · exact hupdate.trans (closeSession_slots hgood ev.fd _)
        · have heq : (srv.update ev.fd { e with session := s }).update ev.fd
              { session := s, events := s.interest } =
                srv.update ev.fd { session := s, events := s.interest } := by
            rw [update, update, update, AList.insert_insert]
          dsimp only
          rw [heq]
          exact hupdate
    · exact hupdate

/-- A connection is accepted, or closed again, in one turn that starts with nothing. -/
theorem acceptOne_slots (h : Good os₀ b srv os none) {c : Incoming} (hfd : os.fds c.fd = none) :
    Slots.Turn (slots srv.live) os.fds
      (slots (srv.acceptOne (os.connect c.fd) c os.nextConn).1.live)
      (srv.acceptOne (os.connect c.fd) c os.nextConn).2.fds := by
  have hopen : (os.connect c.fd).fds c.fd = some (.socket os.nextConn) := by simp
  have hconnect : Slots.Turn ∅ os.fds {c.fd} (os.connect c.fd).fds :=
    .take hfd (fun f hf => by rw [Os.connect_fds, if_neg hf]) (by rw [hopen]; simp)
  have hnew := h.table.lookup_of_unused hfd
  -- whatever is held then, the sessions in the table hold theirs too
  have hframe : ∀ {O : Set ℕ} {os' : Os}, Slots.Turn {c.fd} (os.connect c.fd).fds O os'.fds →
      Slots.Turn (slots srv.live) os.fds (O ∪ slots srv.live) os'.fds := by
    intro O os' ht
    have hall := (hconnect.trans ht).frame h.live_uses fun f _ => Set.notMem_empty f
    rwa [Set.empty_union] at hall
  have hrefused : ∀ {os' : Os}, Slots.Turn {c.fd} (os.connect c.fd).fds ∅ os'.fds →
      Slots.Turn (slots srv.live) os.fds (slots srv.live) os'.fds := by
    intro os' ht
    have hall := hframe ht
    rwa [Set.empty_union] at hall
  rw [acceptOne]
  split
  · exact hrefused (.free (fun f hf => by rw [Os.close_fds, if_neg hf])
      (by rw [Os.close_fds, if_pos rfl]))
  dsimp only
  set s := Session.create srv.nextSessionId c.fd os.nextConn srv.config.outDir c.now with hs
  have hholding : {f | f ∈ s.holding} = {c.fd} := by
    ext f
    exact List.mem_singleton
  cases hadd : (os.connect c.fd).epollAdd c.fd s.interest c.addFault with
  | mk ok os' =>
    rw [Os.epollAdd] at hadd
    split at hadd <;> cases hadd
    · have hsound : s.Sound (os.connect c.fd) :=
        Session.create_sound _ _ _ _ _ ((Os.SameFiles.connect hfd).wf h.disk.wf)
      have hdestroy := hsound.destroy_slots hopen
      rw [hholding] at hdestroy
      exact hrefused hdestroy
    · dsimp only
      rw [emplace, if_neg (AList.lookup_eq_none.mp hnew)]
      have hlive := live_update_new
        ({ srv with nextSessionId := (srv.nextSessionId + 1) % 2 ^ 64 } : Server) hnew
        { session := s, events := s.interest }
      dsimp only
      rw [hlive, slots_cons, hholding]
      exact hframe (.refl fun f hf => by rw [hf, hopen]; simp)

theorem acceptConnections_slots (h : Good os₀ b srv os none) (hend : srv.ended = false)
    (cs : List Incoming) :
    Slots.Turn (slots srv.live) os.fds (slots (srv.acceptConnections os cs).1.live)
      (srv.acceptConnections os cs).2.fds := by
  induction cs generalizing srv os with
  | nil => exact .refl h.live_uses
  | cons c cs ih =>
    rw [acceptConnections]
    by_cases hfd : os.fds c.fd = none
    · have haccept : os.accept c.fd = some (os.nextConn, os.connect c.fd) := by
        rw [Os.accept, hfd]
        rfl
      rw [haccept]
      exact (acceptOne_slots h hfd).trans
        (ih (acceptOne_good h hfd hend rfl) ((acceptOne_fixed srv _ c _).ended.trans hend))
    · have haccept : os.accept c.fd = none := by
        rw [Os.accept, if_pos (Option.isSome_iff_ne_none.mpr hfd)]
      rw [haccept]
      exact .refl h.live_uses

theorem dispatch_slots {sys : Sys} (h : Good os₀ b srv sys.os none) (hend : srv.ended = false)
    (ev : Event) :
    Slots.Turn (slots srv.live) sys.os.fds (slots (srv.dispatch sys ev).1.live)
      (srv.dispatch sys ev).2.fds := by
  rw [dispatch]
  split
  · exact acceptConnections_slots h hend ev.incoming
  split
  · exact .refl h.live_uses
  · exact handleSession_slots h ev

theorem closeSessions_slots (h : Good os₀ b srv os none) (fds : List ℕ) (reason : Bytes) :
    Slots.Turn (slots srv.live) os.fds
      (slots (fds.foldl (fun (p : Server × Os) fd => p.1.closeSession p.2 fd reason)
        (srv, os)).1.live)
      (fds.foldl (fun (p : Server × Os) fd => p.1.closeSession p.2 fd reason) (srv, os)).2.fds := by
  induction fds generalizing srv os with
  | nil => exact .refl h.live_uses
  | cons fd fds ih =>
    exact (closeSession_slots h fd reason).trans (ih (closeSession_good' h fd reason rfl))

theorem clear_slots (h : Good os₀ b srv os none) (fds : List ℕ) :
    Slots.Turn (slots srv.live) os.fds
      (slots (fds.foldl (fun (p : Server × Os) fd => p.1.eraseSession p.2 fd) (srv, os)).1.live)
      (fds.foldl (fun (p : Server × Os) fd => p.1.eraseSession p.2 fd) (srv, os)).2.fds := by
  induction fds generalizing srv os with
  | nil => exact .refl h.live_uses
  | cons fd fds ih => exact (eraseSession_slots h fd).trans (ih (eraseSession_good h fd rfl))

end Slots

section Runs

variable {os₀ os os' : Os} {b : List Session × Os} {config : ServerConfig} {l g : ℕ}
  {srv srv' : Server}

/-- The descriptors are accounted for: what is open has been open at the start, or a session
in the table holds it. The listener is closed at the end. -/
structure Accounted (os₀ : Os) (l : ℕ) (srv : Server) (os : Os) : Prop where
  listenerFd : srv.listenerFd = l
  table : ∃ m, Slots.Turn ∅ os₀.fds (slots srv.live) m ∧
    ∀ f, os.fds f = if srv.ended = true ∧ f = l then none else m f

theorem Accounted.turn (h : Accounted os₀ l srv os) (hend : srv.ended = false) :
    Slots.Turn ∅ os₀.fds (slots srv.live) os.fds := by
  obtain ⟨m, hturn, hfds⟩ := h.table
  have hm : os.fds = m := funext fun f => by
    rw [hfds, if_neg fun hf => by rw [hend] at hf; cases hf.1]
  rwa [hm]

/-- A turn of the server before the end. -/
theorem Accounted.step (h : Accounted os₀ l srv os) (hend : srv.ended = false)
    (hfixed : srv.Fixed srv')
    (hturn : Slots.Turn (slots srv.live) os.fds (slots srv'.live) os'.fds) :
    Accounted os₀ l srv' os' where
  listenerFd := hfixed.listenerFd.trans h.listenerFd
  table := ⟨os'.fds, (h.turn hend).trans hturn, fun f => by
    rw [if_neg fun hf => by rw [hfixed.ended, hend] at hf; cases hf.1]⟩

/-- **The step lemma**: whatever the server does, the descriptors stay accounted for. -/
theorem Step.accounted {x y : Server × Os} (hstep : Step x y) (hgood : Good os₀ b x.1 x.2 none)
    (h : Accounted os₀ l x.1 x.2) : Accounted os₀ l y.1 y.2 := by
  cases hstep with
  | dispatch srv sys ev hend =>
    exact h.step hend (dispatch_fixed srv sys ev) (dispatch_slots hgood hend ev)
  | sweepIdle srv os now order hend horder =>
    exact h.step hend (closeSessions_fixed srv os _ _) (closeSessions_slots hgood _ _)
  | shutdown srv os order hend horder =>
    have hclear := h.step hend (clear_fixed srv os order) (clear_slots hgood order)
    have hend' := (clear_fixed srv os order).ended.trans hend
    rw [Server.shutdown]
    generalize order.foldl _ (srv, os) = p at hclear hend' ⊢
    obtain ⟨srv₁, os₁⟩ := p
    refine ⟨hclear.listenerFd, os₁.fds, hclear.turn hend', fun f => ?_⟩
    rw [Os.close_fds, hclear.listenerFd]
    simp

theorem Reach.accounted (h : Ready os₀ l g) (hreach : Reach config l g os₀ srv os) :
    Accounted os₀ l srv os := by
  suffices hall : ∀ y : Server × Os,
      Steps (create config l g, registered os₀ l g) y → Accounted os₀ l y.1 y.2 from hall _ hreach
  intro y hsteps
  induction hsteps with
  | refl =>
    have hnone : slots (create config l g).live = ∅ := slots_nil
    refine ⟨rfl, os₀.fds, ?_, fun f => by rw [if_neg fun hf => nomatch hf.1]; rfl⟩
    rw [hnone]
    exact .refl fun f hf => absurd hf (Set.notMem_empty f)
  | tail hprev hstep ih => exact hstep.accounted (reach_good h hprev) ih

theorem length_holding (srv : Server) :
    srv.holding.length ≤ 2 * srv.sessions.keys.length := by
  have hlen : srv.sessions.keys.length = srv.live.length := by
    rw [live, List.length_map]
    exact List.length_map _
  rw [hlen, holding]
  induction srv.live with
  | nil => exact Nat.le_refl _
  | cons s L ih =>
    have hone : s.holding.length ≤ 2 := by
      rw [Session.holding]
      cases s.writer.fd <;> simp
    rw [List.flatMap_cons, List.length_append, List.length_cons]
    omega

/-- Nobody holds a descriptor twice. -/
theorem nodup_holding {d : Option ℕ} (h : Good os₀ b srv os d) : srv.holding.Nodup := by
  rw [holding, Server.live, List.nodup_flatMap]
  refine ⟨fun s hs => ?_, ?_⟩
  · obtain ⟨fd, e, he, rfl⟩ := mem_live.mp hs
    rw [Session.holding, List.nodup_cons]
    refine ⟨fun hf => ?_, ?_⟩
    · obtain ⟨i, -, hi⟩ := (h.inv he).file_of_holding (Option.mem_toList.mp hf)
      rw [h.opened he] at hi
      cases hi
    · cases e.session.writer.fd with
      | none => exact .nil
      | some f => exact List.nodup_singleton f
  · refine List.pairwise_map.mpr (srv.sessions.nodupKeys.pairwise_ne.imp_of_mem ?_)
    intro x y hx hy hne
    exact h.apart (AList.mem_lookup_iff.mpr hy) (AList.mem_lookup_iff.mpr hx) hne

/-- When `run` has returned, nobody holds a descriptor. -/
theorem holding_of_ended (h : Ready os₀ l g) (hreach : Reach config l g os₀ srv os)
    (hend : srv.ended = true) : srv.holding = [] := by
  rw [holding, Server.live, (reach_good h hreach).ended hend]
  rfl

/-- A descriptor that no session holds is as it was at the start. -/
theorem fds_of_not_held (h : Ready os₀ l g) (hreach : Reach config l g os₀ srv os) {f : ℕ}
    (hf : f ∉ srv.holding) :
    os.fds f = if srv.ended = true ∧ f = l then none else os₀.fds f := by
  obtain ⟨m, hturn, hfds⟩ := (hreach.accounted h).table
  rw [hfds, hturn.account.2 f fun hheld => hf (mem_holding.mpr hheld)]

/-- **Nothing leaks.**  In every state that the server reaches, whatever fails:

* a session in the table holds its connection, and one file at most, and no two sessions hold
  the same descriptor; so there are two for each session that is allowed at most;
* what they hold was free at the start and is open;
* every other descriptor is as it was at the start, but the listener is closed once `run`
  has returned, and then nothing is held any more. -/
theorem descriptors (h : Ready os₀ l g) (hreach : Reach config l g os₀ srv os) :
    srv.holding.Nodup ∧ srv.holding.length ≤ 2 * config.maxSessions ∧
      (∀ f ∈ srv.holding, os₀.fds f = none ∧ os.fds f ≠ none) ∧
      (∀ f ∉ srv.holding,
        os.fds f = if srv.ended = true ∧ f = l then none else os₀.fds f) ∧
      (srv.ended = true → srv.holding = []) := by
  have hgood := reach_good h hreach
  obtain ⟨m, hturn, hfds⟩ := (hreach.accounted h).table
  have hsize := hgood.size
  rw [reach_config hreach] at hsize
  refine ⟨nodup_holding hgood, (length_holding srv).trans (by omega), fun f hf => ?_,
    fun f hf => fds_of_not_held h hreach hf, holding_of_ended h hreach⟩
  obtain ⟨hfree, hopen⟩ := hturn.account.1 f (mem_holding.mp hf)
  refine ⟨hfree, ?_⟩
  rw [hfds, if_neg fun hend => by rw [holding_of_ended h hreach hend.1] at hf; cases hf]
  exact hopen

/-- A server that has one session, with its connection. -/
theorem descriptors_one_session :
    ∃ r : Server × Os,
      (create { outDir := str "in", idleTimeout := 30, maxSessions := 2 } 3 4).acceptConnections
        (registered (bare 1 3 4) 3 4) [{ fd := 5, now := 0 }] = r ∧
      r.1.holding = [5] ∧ (bare 1 3 4).fds 5 = none ∧ r.2.fds 5 ≠ none ∧
      r.2.fds 3 = some .other := by
  refine ⟨_, rfl, ?_⟩
  generalize hr : acceptConnections _ _ _ = r
  have hstep := Step.accept
    (create { outDir := str "in", idleTimeout := 30, maxSessions := 2 } 3 4)
    (registered (bare 1 3 4) 3 4) [{ fd := 5, now := 0 }] rfl
  rw [hr] at hstep
  have hholding : r.1.holding = [5] := by
    rw [← hr]
    decide +kernel
  obtain ⟨-, -, hheld, hrest, hended⟩ := descriptors (ready_bare 1 3 4) (.single hstep)
  obtain ⟨hfree, hopen⟩ := hheld 5 (by rw [hholding]; simp)
  refine ⟨hholding, hfree, hopen, ?_⟩
  rw [hrest 3 (by rw [hholding]; simp), if_neg fun hend => ?_]
  · rfl
  · rw [hended hend.1] at hholding
    cases hholding

end Runs

end Server

end Nexus
