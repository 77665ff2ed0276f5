/-
The table of the reactor.

The same fact is on record four times: in the table of sessions, in the interest
list of epoll, in the mask that the table caches, and in the state of the session
itself. `Table` says that they agree, but for one descriptor that the server is
just working on; each lemma is one thing that can happen to that descriptor.
-/
import NexusTransmitter.Server
import NexusTransmitter.SessionFiles

open Ownership

namespace Nexus

/-- The type of `m_sessions`. -/
abbrev SessionTable := AList fun _ : ℕ => Entry

/-- The table agrees with the system: under every descriptor there is the session
of the connection behind it, registered with the events it waits for, and
nothing else is open or registered. Nothing of that need hold of the descriptor
`dirty`. -/
structure Table (listenerFd signalFd : ℕ) (sessions : SessionTable) (os : Os)
    (dirty : Option ℕ) : Prop where
  entry : ∀ fd e, sessions.lookup fd = some e →
    e.session.fd = fd ∧ os.fds fd = some (.socket e.session.conn)
  synced : ∀ fd e, dirty ≠ some fd → sessions.lookup fd = some e →
    e.events = e.session.interest ∧ e.session.terminated = false
  epoll : ∀ fd, dirty ≠ some fd → fd ≠ listenerFd → fd ≠ signalFd →
    os.epoll fd = (sessions.lookup fd).map Entry.events
  sockets : ∀ fd c, dirty ≠ some fd → os.fds fd = some (.socket c) →
    ∃ e, sessions.lookup fd = some e ∧ e.session.conn = c

namespace Table

variable {l g fd : ℕ} {m : SessionTable} {os os' : Os} {d : Option ℕ} {e e' : Entry}

/-- What is open under a descriptor of the table is a connection. -/
theorem ne_of_other (h : Table l g m os d) (he : m.lookup fd = some e) {f : ℕ}
    (hf : os.fds f = some .other) : fd ≠ f := by
  rintro rfl
  rw [(h.entry _ e he).2] at hf
  cases hf

/-- The session under a descriptor takes a turn. -/
theorem turn (h : Table l g m os d) (hd : ∀ f, f ≠ fd → d ≠ some f) (he : m.lookup fd = some e)
    (hsock : Os.KeepsSockets os os') (hfd : e'.session.fd = e.session.fd)
    (hconn : e'.session.conn = e.session.conn) : Table l g (m.insert fd e') os' (some fd) where
  entry := by
    intro f e₁ he₁
    by_cases hf : f = fd
    · subst hf
      rw [AList.lookup_insert] at he₁
      cases he₁
      obtain ⟨h1, h2⟩ := h.entry _ e he
      exact ⟨hfd.trans h1, by rw [hconn]; exact (hsock.fds _ _ (by simp)).mpr h2⟩
    · rw [AList.lookup_insert_ne hf] at he₁
      obtain ⟨h1, h2⟩ := h.entry _ e₁ he₁
      exact ⟨h1, (hsock.fds _ _ (by simp)).mpr h2⟩
  synced := by
    intro f e₁ hne he₁
    have hf : f ≠ fd := fun heq => hne (by rw [heq])
    rw [AList.lookup_insert_ne hf] at he₁
    exact h.synced f e₁ (hd f hf) he₁
  epoll := by
    intro f hne hl hg
    have hf : f ≠ fd := fun heq => hne (by rw [heq])
    have hold := h.epoll f (hd f hf) hl hg
    rw [AList.lookup_insert_ne hf, ← hold]
    cases he₁ : m.lookup f with
    | none =>
      rw [he₁] at hold
      rw [hold]
      exact hsock.epoll_none f hold
    | some e₁ => exact hsock.epoll f _ (by simp) (h.entry f e₁ he₁).2
  sockets := by
    intro f c hne hf'
    have hf : f ≠ fd := fun heq => hne (by rw [heq])
    rw [AList.lookup_insert_ne hf]
    exact h.sockets f c (hd f hf) ((hsock.fds _ _ (by simp)).mp hf')

/-- The descriptor is in order again. -/
theorem clean (h : Table l g m os (some fd)) (he : m.lookup fd = some e)
    (hev : e.events = e.session.interest) (hlive : e.session.terminated = false)
    (hepoll : os.epoll fd = some e.events) : Table l g m os none where
  entry := h.entry
  synced := by
    intro f e₁ _ he₁
    by_cases hf : f = fd
    · subst hf
      rw [he] at he₁
      cases he₁
      exact ⟨hev, hlive⟩
    · exact h.synced f e₁ (by simpa using Ne.symm hf) he₁
  epoll := by
    intro f _ hl hg
    by_cases hf : f = fd
    · subst hf
      rw [he, hepoll, Option.map_some]
    · exact h.epoll f (by simpa using Ne.symm hf) hl hg
  sockets := by
    intro f c _ hf'
    by_cases hf : f = fd
    · subst hf
      rw [(h.entry _ e he).2] at hf'
      cases hf'
      exact ⟨e, he, rfl⟩
    · exact h.sockets f c (by simpa using Ne.symm hf) hf'

/-- The descriptor is registered with another mask. -/
theorem setInterest (h : Table l g m os (some fd)) (events : BitVec 32) :
    Table l g m (os.setInterest fd events) (some fd) where
  entry := h.entry
  synced := h.synced
  epoll := by
    intro f hne hl hg
    rw [Os.setInterest_epoll, if_neg (fun heq => hne (by rw [heq]))]
    exact h.epoll f hne hl hg
  sockets := h.sockets

/-- The descriptor gets an entry. -/
theorem emplace (h : Table l g m os (some fd)) (hfd : e.session.fd = fd)
    (hopen : os.fds fd = some (.socket e.session.conn)) :
    Table l g (m.insert fd e) os (some fd) where
  entry := by
    intro f e₁ he₁
    by_cases hf : f = fd
    · subst hf
      rw [AList.lookup_insert] at he₁
      cases he₁
      exact ⟨hfd, hopen⟩
    · rw [AList.lookup_insert_ne hf] at he₁
      exact h.entry f e₁ he₁
  synced := by
    intro f e₁ hne he₁
    rw [AList.lookup_insert_ne (fun heq => hne (by rw [heq]))] at he₁
    exact h.synced f e₁ hne he₁
  epoll := by
    intro f hne hl hg
    rw [AList.lookup_insert_ne (fun heq => hne (by rw [heq]))]
    exact h.epoll f hne hl hg
  sockets := by
    intro f c hne hf'
    rw [AList.lookup_insert_ne (fun heq => hne (by rw [heq]))]
    exact h.sockets f c hne hf'

/-- The descriptor is closed, and its entry is gone. -/
theorem closed (h : Table l g m os d) (hd : ∀ f, f ≠ fd → d ≠ some f) (hc : Os.Closes fd os os') :
    Table l g (m.erase fd) os' none where
  entry := by
    intro f e₁ he₁
    have hf : f ≠ fd := by
      rintro rfl
      rw [AList.lookup_erase] at he₁
      cases he₁
    rw [AList.lookup_erase_ne hf] at he₁
    obtain ⟨h1, h2⟩ := h.entry f e₁ he₁
    exact ⟨h1, (hc.fds _ _ (by simp)).mpr ⟨hf, h2⟩⟩
  synced := by
    intro f e₁ _ he₁
    have hf : f ≠ fd := by
      rintro rfl
      rw [AList.lookup_erase] at he₁
      cases he₁
    rw [AList.lookup_erase_ne hf] at he₁
    exact h.synced f e₁ (hd f hf) he₁
  epoll := by
    intro f _ hl hg
    by_cases hf : f = fd
    · rw [hf, AList.lookup_erase, Option.map_none]
      exact hc.epoll_none fd (.inl rfl)
    have hold := h.epoll f (hd f hf) hl hg
    rw [AList.lookup_erase_ne hf, ← hold]
    cases he₁ : m.lookup f with
    | none =>
      rw [he₁] at hold
      rw [hold]
      exact hc.epoll_none f (.inr hold)
    | some e₁ => exact hc.epoll f _ (by simp) hf (h.entry f e₁ he₁).2
  sockets := by
    intro f c _ hf'
    obtain ⟨hf, hold⟩ := (hc.fds _ _ (by simp)).mp hf'
    rw [AList.lookup_erase_ne hf]
    exact h.sockets f c (hd f hf) hold

/-- A descriptor that was not in use is none of the table. -/
theorem lookup_of_unused (h : Table l g m os d) (hfd : os.fds fd = none) : m.lookup fd = none := by
  cases he : m.lookup fd with
  | none => rfl
  | some e =>
    rw [(h.entry fd e he).2] at hfd
    cases hfd

/-- A connection is accepted; what becomes of it is still open. -/
theorem connect (h : Table l g m os none) (hfd : os.fds fd = none) :
    Table l g m (os.connect fd) (some fd) where
  entry := by
    intro f e₁ he₁
    obtain ⟨h1, h2⟩ := h.entry f e₁ he₁
    have hf : f ≠ fd := by
      intro heq
      rw [heq, hfd] at h2
      cases h2
    exact ⟨h1, by rw [Os.connect_fds, if_neg hf]; exact h2⟩
  synced := fun f e₁ _ => h.synced f e₁ (by simp)
  epoll := fun f _ => h.epoll f (by simp)
  sockets := by
    intro f c hne hf'
    have hf : f ≠ fd := fun heq => hne (by rw [heq])
    rw [Os.connect_fds, if_neg hf] at hf'
    exact h.sockets f c (by simp) hf'

end Table

end Nexus
