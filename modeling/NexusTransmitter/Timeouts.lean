/-
What the value of `--timeout` comes to.

On the client the seconds become milliseconds in an `unsigned long`, an `int`, and the
`timeval` of the socket; on the server they become signed seconds, and in the comparison
of `expired` nanoseconds of 64 bits. The boundaries lie in different places.

* `clientWaits_iff`, `sweepWaits_iff` — where they lie;
* `timeout_means_iff` — for which values the timeouts are those that were typed.
-/
import NexusTransmitter.CommandLine
import NexusTransmitter.ServerBatch

namespace Nexus

/-- A signed number is the one that was meant if it is in range. -/
theorem bmod_eq_self_iff {x : ℤ} {m k : ℕ} (hm : m = 2 * k) (hk : 0 < k) :
    x.bmod m = x ↔ -k ≤ x ∧ x < k := by
  subst hm
  have hle := Int.le_bmod (x := x) (m := 2 * k) (by omega)
  have hlt := Int.bmod_lt (x := x) (m := 2 * k) (by omega)
  constructor
  · intro h
    rw [h] at hle hlt
    omega
  · rintro ⟨h1, h2⟩
    exact Int.bmod_eq_of_le (by omega) (by omega)

/-! ### The client -/

/-- `struct timeval`. -/
structure Timeval where
  sec : ℤ
  usec : ℤ
  deriving DecidableEq, Repr

/-- The `timeval` that `setIoTimeout` sets for reading and writing. -/
def setIoTimeout (timeoutMs : ℤ) : Timeval where
  sec := timeoutMs.tdiv 1000
  usec := timeoutMs.tmod 1000 * 1000

/-- The `timeval` is valid, and a socket with it waits for so many milliseconds. With zero in
both fields it waits for ever: `SO_RCVTIMEO` and `SO_SNDTIMEO` take that as no timeout. -/
def Timeval.Denotes (tv : Timeval) (ms : ℤ) : Prop :=
  tv ≠ { sec := 0, usec := 0 } ∧ 0 ≤ tv.sec ∧ 0 ≤ tv.usec ∧ tv.usec < 10 ^ 6 ∧
    tv.sec * 10 ^ 6 + tv.usec = ms * 1000

/-- The client waits for the seconds that were typed. -/
def ClientWaits (secs : ℕ) : Prop :=
  timeoutMillis secs = 1000 * secs ∧ (setIoTimeout (timeoutMillis secs)).Denotes (1000 * secs)

/-- Milliseconds are set as they are, but for zero. -/
theorem setIoTimeout_denotes_iff {ms : ℤ} (h : 0 ≤ ms) : (setIoTimeout ms).Denotes ms ↔ 0 < ms := by
  have hdiv : ms.tdiv 1000 = ms / 1000 := Int.tdiv_eq_ediv_of_nonneg h
  have hmod : ms.tmod 1000 = ms % 1000 := Int.tmod_eq_emod_of_nonneg h
  simp only [Timeval.Denotes, setIoTimeout, hdiv, hmod, ne_eq, Timeval.mk.injEq]
  omega

theorem timeoutMillis_eq (secs : ℕ) :
    timeoutMillis secs = ((secs * 1000 % 2 ^ 64 : ℕ) : ℤ).bmod (2 ^ 32) := rfl

theorem timeoutMillis_of_lt {secs : ℕ} (h : 1000 * secs < 2 ^ 31) :
    timeoutMillis secs = 1000 * secs := by
  have hmod : secs * 1000 % 2 ^ 64 = 1000 * secs := by
    rw [Nat.mul_comm]
    exact Nat.mod_eq_of_lt (by omega)
  rw [timeoutMillis_eq, hmod]
  refine ((bmod_eq_self_iff (k := 2 ^ 31) (by norm_num) (by norm_num)).mpr ?_).trans ?_
  · omega
  · push_cast
    rfl

/-- An `int` holds the milliseconds when they are below 2^31. -/
theorem timeoutMillis_eq_iff (secs : ℕ) :
    timeoutMillis secs = 1000 * secs ↔ 1000 * secs < 2 ^ 31 := by
  refine ⟨fun h => ?_, timeoutMillis_of_lt⟩
  have hlt : timeoutMillis secs < _ := Int.bmod_lt (by decide)
  rw [h] at hlt
  norm_num at hlt ⊢
  omega

theorem clientWaits_iff (secs : ℕ) : ClientWaits secs ↔ 0 < secs ∧ 1000 * secs < 2 ^ 31 := by
  rw [ClientWaits, timeoutMillis_eq_iff, and_comm (a := 0 < secs)]
  refine and_congr_right fun h => ?_
  rw [timeoutMillis_of_lt h, setIoTimeout_denotes_iff (by omega)]
  omega

/-! ### The sweep -/

namespace Server

theorem closeSession_lookup_self (srv : Server) (os : Os) (fd : ℕ) (reason : Bytes) :
    (srv.closeSession os fd reason).1.sessions.lookup fd = none := by
  rw [closeSession]
  split
  · assumption
  · exact AList.lookup_erase _ _

theorem closeSessions_lookup (srv : Server) (os : Os) (fds : List ℕ) (reason : Bytes) (fd : ℕ) :
    (fds.foldl (fun (p : Server × Os) fd => p.1.closeSession p.2 fd reason)
      (srv, os)).1.sessions.lookup fd = if fd ∈ fds then none else srv.sessions.lookup fd := by
  induction fds generalizing srv os with
  | nil => rfl
  | cons f fds ih =>
    rw [List.foldl_cons]
    refine (ih _ _).trans ?_
    by_cases hmem : fd ∈ fds
    · rw [if_pos hmem, if_pos (List.mem_cons_of_mem f hmem)]
    rw [if_neg hmem]
    by_cases hf : fd = f
    · subst hf
      rw [if_pos List.mem_cons_self]
      exact closeSession_lookup_self srv os fd reason
    · rw [if_neg (by simp [hf, hmem])]
      exact closeSession_lookup_ne reason hf

theorem mem_expired {srv : Server} {now : ℤ} {order : List ℕ}
    (horder : order.Perm srv.sessions.keys) {fd : ℕ} :
    fd ∈ srv.expired now order ↔
      ∃ e, srv.sessions.lookup fd = some e ∧ e.session.expired now srv.config.idleTimeout := by
  rw [expired, List.mem_filter, horder.mem_iff]
  cases he : srv.sessions.lookup fd with
  | none => simp
  | some e =>
    have hkey : fd ∈ srv.sessions.keys := AList.lookup_isSome.mp (by rw [he]; rfl)
    simp [hkey]

/-- A sweep takes out what has expired. -/
theorem sweepIdle_lookup (srv : Server) (os : Os) (now : ℤ) {order : List ℕ}
    (horder : order.Perm srv.sessions.keys) (fd : ℕ) :
    (srv.sweepIdle os now order).1.sessions.lookup fd =
      (srv.sessions.lookup fd).filter fun e => !e.session.expired now srv.config.idleTimeout := by
  refine (closeSessions_lookup srv os (srv.expired now order) _ fd).trans ?_
  have hmem : fd ∈ srv.expired now order ↔ _ := mem_expired horder
  cases he : srv.sessions.lookup fd with
  | none =>
    rw [if_neg (by simp [hmem, he])]
    rfl
  | some e =>
    by_cases hx : e.session.expired now srv.config.idleTimeout
    · rw [if_pos (hmem.mpr ⟨e, he, hx⟩), Option.filter_some_neg (by simp [hx])]
    · rw [if_neg (by simp [hmem, he, hx]), Option.filter_some_pos (by simp [hx])]

/-- At this reading of the clock, a sweep takes the sessions that were idle for more than
`secs` seconds out of the table, and leaves the others as they are. -/
def SweepWaits (srv : Server) (secs : ℕ) (now : ℤ) : Prop :=
  ∀ (os : Os) (order : List ℕ), order.Perm srv.sessions.keys →
    ∀ fd, (srv.sweepIdle os now order).1.sessions.lookup fd =
      (srv.sessions.lookup fd).filter fun e => now - e.session.lastActivity ≤ secs * 10 ^ 9

/-- The clock is steady: it reads no less than at the last activity of any session, and the
difference is one that it can count. -/
def Steady (srv : Server) (now : ℤ) : Prop :=
  ∀ fd e, srv.sessions.lookup fd = some e →
    e.session.lastActivity ≤ now ∧ now - e.session.lastActivity < 2 ^ 63

/-! ### The nanoseconds -/

/-- The seconds in the comparison of `expired`. -/
def nanos (secs : ℕ) : ℤ := (idleSeconds secs * 10 ^ 9).bmod (2 ^ 64)

theorem nanos_eq (secs : ℕ) : nanos secs = ((secs * 10 ^ 9 : ℕ) : ℤ).bmod (2 ^ 64) := by
  have hmul : nanos secs = ((secs : ℤ) * 10 ^ 9).bmod (2 ^ 64) := Int.bmod_mul_bmod
  rw [hmul]
  push_cast
  rfl

theorem nanos_of_lt {secs : ℕ} (h : secs * 10 ^ 9 < 2 ^ 63) : nanos secs = secs * 10 ^ 9 := by
  rw [nanos_eq]
  refine ((bmod_eq_self_iff (k := 2 ^ 63) (by norm_num) (by norm_num)).mpr ?_).trans ?_
  · omega
  · push_cast
    rfl

/-- The largest number of 64 bits is odd, so the nanoseconds are below it. -/
theorem nanos_lt (secs : ℕ) : nanos secs < 2 ^ 63 - 1 := by
  have hlt : nanos secs < _ := Int.bmod_lt (by decide)
  obtain ⟨k, hk⟩ := Int.dvd_bmod_sub_self (x := ((secs * 10 ^ 9 : ℕ) : ℤ)) (m := 2 ^ 64)
  rw [← nanos_eq] at hk
  norm_num at hlt hk ⊢
  omega

theorem expired_eq (s : Session) (secs : ℕ) (now : ℤ) :
    s.expired now (idleSeconds secs) = decide (nanos secs < now - s.lastActivity) := rfl

/-- While the nanoseconds are in range, a sweep waits as long as it should. -/
theorem sweepWaits_of_lt {srv : Server} {secs : ℕ} (h : secs * 10 ^ 9 < 2 ^ 63)
    (hcfg : srv.config.idleTimeout = idleSeconds secs) (now : ℤ) : srv.SweepWaits secs now := by
  intro os order horder fd
  rw [sweepIdle_lookup srv os now horder fd, hcfg]
  congr 1
  funext e
  rw [expired_eq, nanos_of_lt h, ← decide_not]
  exact decide_eq_decide.mpr not_lt

/-- A server with one session, that was active at zero. -/
def lone (secs : ℕ) : Server where
  config := { outDir := str "in", idleTimeout := idleSeconds secs, maxSessions := 1024 }
  listenerFd := 3
  signalFd := 4
  sessions := AList.singleton 5 { session := Session.create 1 5 0 (str "in") 0, events := EPOLLIN }

theorem lone_idleTimeout (secs : ℕ) : (lone secs).config.idleTimeout = idleSeconds secs := by
  rw [lone]

theorem lone_lookup {secs fd : ℕ} {e : Entry} (h : (lone secs).sessions.lookup fd = some e) :
    e.session.lastActivity = 0 := by
  have hmem : (⟨fd, e⟩ : Sigma fun _ : ℕ => Entry) ∈ (lone secs).sessions.entries :=
    AList.mem_lookup_iff.mp h
  cases List.mem_singleton.mp hmem
  rfl

/-- Beyond the range there is a session that is taken out too early. -/
theorem lone_swept {secs : ℕ} (h : 2 ^ 63 ≤ secs * 10 ^ 9) :
    (lone secs).Steady (2 ^ 63 - 1) ∧ ¬ (lone secs).SweepWaits secs (2 ^ 63 - 1) := by
  constructor
  · intro fd e he
    rw [lone_lookup he, sub_zero]
    decide
  · intro hall
    have hsweep := (sweepIdle_lookup (lone secs) (.empty 1) (2 ^ 63 - 1) (.refl _) 5).symm.trans
      (hall (.empty 1) _ (.refl _) 5)
    obtain ⟨e, he⟩ : ∃ e, (lone secs).sessions.lookup 5 = some e := ⟨_, rfl⟩
    have hlt : nanos secs < 2 ^ 63 - 1 - e.session.lastActivity := by
      rw [lone_lookup he, sub_zero]
      exact nanos_lt secs
    have hx : e.session.expired (2 ^ 63 - 1) (lone secs).config.idleTimeout = true := by
      rw [lone_idleTimeout, expired_eq]
      exact decide_eq_true hlt
    have hstay : (2 ^ 63 - 1 : ℤ) - e.session.lastActivity ≤ secs * 10 ^ 9 := by
      rw [lone_lookup he]
      norm_num at h ⊢
      omega
    rw [he, Option.filter_some_neg (by simpa using hx),
      Option.filter_some_pos (by simpa using hstay)] at hsweep
    cases hsweep

theorem sweepWaits_iff (secs : ℕ) :
    (∀ (srv : Server) now, srv.config.idleTimeout = idleSeconds secs → srv.Steady now →
        srv.SweepWaits secs now) ↔
      secs * 10 ^ 9 < 2 ^ 63 := by
  constructor
  · intro hall
    by_contra hlt
    obtain ⟨hsteady, hswept⟩ := lone_swept (Nat.le_of_not_lt hlt)
    exact hswept (hall (lone secs) (2 ^ 63 - 1) (lone_idleTimeout secs) hsteady)
  · intro hlt srv now hcfg _
    exact sweepWaits_of_lt hlt hcfg now

end Server

/-! ### The option -/

theorem clientOptions_timeout {text : Bytes} {secs : ℕ}
    (h : parseUnsigned text (str "--timeout") = .ok secs) (cfg : ClientConfig)
    (rest : List Bytes) :
    clientOptions cfg (str "--timeout" :: text :: rest) =
      clientOptions { cfg with timeoutMs := timeoutMillis secs } rest := by
  rw [clientOptions, if_neg (by decide +kernel), if_neg (by decide +kernel),
    if_neg (by decide +kernel), if_pos rfl, h]

theorem serverOptions_timeout {text : Bytes} {secs : ℕ}
    (h : parseUnsigned text (str "--timeout") = .ok secs) (dest : Destination)
    (cfg : ServerConfig) (rest : List Bytes) :
    serverOptions dest cfg (str "--timeout" :: text :: rest) =
      serverOptions dest { cfg with idleTimeout := idleSeconds secs } rest := by
  rw [serverOptions, if_neg (by decide +kernel), if_neg (by decide +kernel),
    if_neg (by decide +kernel), if_pos rfl, h]

/-- **What a timeout comes to**: the seconds that `parseUnsigned` returns are set on the
client as milliseconds and on the server as idle seconds. The client waits for as long as
was typed if and only if the milliseconds are not zero and below 2^31; with zero it waits for
ever. The server does, for every table and every reading of a steady clock, if and only if the
nanoseconds are below 2^63. -/
theorem timeout_means_iff (text : Bytes) (secs : ℕ)
    (h : parseUnsigned text (str "--timeout") = .ok secs) :
    (∀ cfg rest, clientOptions cfg (str "--timeout" :: text :: rest) =
      clientOptions { cfg with timeoutMs := timeoutMillis secs } rest) ∧
    (∀ dest cfg rest, serverOptions dest cfg (str "--timeout" :: text :: rest) =
      serverOptions dest { cfg with idleTimeout := idleSeconds secs } rest) ∧
    (ClientWaits secs ↔ 0 < secs ∧ 1000 * secs < 2 ^ 31) ∧
    ((∀ (srv : Server) now, srv.config.idleTimeout = idleSeconds secs → srv.Steady now →
        srv.SweepWaits secs now) ↔
      secs * 10 ^ 9 < 2 ^ 63) :=
  ⟨clientOptions_timeout h, serverOptions_timeout h, clientWaits_iff secs,
    Server.sweepWaits_iff secs⟩

theorem timeout_means_twenty :
    ClientWaits 20 ∧
      ∀ (srv : Server) now, srv.config.idleTimeout = idleSeconds 20 → srv.Steady now →
        srv.SweepWaits 20 now := by
  have hplain : Plain (str "20") 20 := ⟨⟨by decide +kernel, by decide +kernel⟩, by decide +kernel⟩
  obtain ⟨-, -, hclient, hserver⟩ :=
    timeout_means_iff (str "20") 20 (hplain.parse (str "--timeout"))
  exact ⟨hclient.mpr ⟨by decide, by decide⟩, hserver.mpr (by decide)⟩

/-- 4294968 seconds are 704 milliseconds for the client. -/
theorem timeout_wraps :
    timeoutMillis 4294968 = 704 ∧
      ¬ ∀ (text : Bytes) (secs : ℕ), parseUnsigned text (str "--timeout") = .ok secs →
        ClientWaits secs ∧
          ∀ (srv : Server) now, srv.config.idleTimeout = idleSeconds secs → srv.Steady now →
            srv.SweepWaits secs now := by
  refine ⟨by decide +kernel, fun hall => ?_⟩
  have hplain : Plain (str "4294968") 4294968 :=
    ⟨⟨by decide +kernel, by decide +kernel⟩, by decide +kernel⟩
  have hwaits := (hall _ _ (hplain.parse _)).1
  exact absurd ((clientWaits_iff 4294968).mp hwaits).2 (by decide)

end Nexus
