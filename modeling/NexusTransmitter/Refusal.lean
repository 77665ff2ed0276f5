/-
A refused client.

The client of a transfer whose connection the server answers Busy and closes at
once. TCP gives the answers of the connection one by one, each to the call that
`sendFile` is waiting for: bytes arrive in order, and a call may fail once the
server has closed the connection with bytes of the client unread. The client has
no timeout.

* `Client.sendFile_spent` — which answers of the connection a run has used;
* `Refusal.busy_learned` — a client that the server has answered Busy returns 6
  with that answer, unless one of its calls fails, and then it never does.
-/
import NexusTransmitter.Transfer

open Nexus.Upload Nexus.FrameParser

namespace Nexus

namespace Client

/-! ### The answers that are used -/

/-- The connection gives some bytes, or the call is interrupted. -/
def Steady (reads : List ReadAnswer) : Prop :=
  ∀ ans ∈ reads, ans = .eintr ∨ ∃ p, p ≠ [] ∧ ans = .bytes p

/-- A `writeAll` uses the answers `used` of `sends`. It fails exactly when the socket is
not patient. -/
structure Spends (sends : List SendAnswer) (r : Option Bytes × Client) (used : List SendAnswer) :
    Prop where
  sends : sends = used ++ r.2.sends
  patient : Patient used ↔ r.1 = none ∨ r.1 = some []
  starved : r.1 = none → r.2.sends = []

section Spent

variable {c c' : Client} {path name : Bytes} {fileSize : ℕ}

theorem patient_append {sends sends' : List SendAnswer} (h : Patient sends) :
    Patient (sends ++ sends') ↔ Patient sends' := by
  rw [Patient, List.forall_mem_append]
  exact and_iff_right h

theorem Spends.cons {sends used : List SendAnswer} {r : Option Bytes × Client} {ans : SendAnswer}
    (h : Spends sends r used) (hans : Patient [ans]) : Spends (ans :: sends) r (ans :: used) where
  sends := by rw [h.sends, List.cons_append]
  patient := by rw [← h.patient, ← List.singleton_append, patient_append hans]
  starved := h.starved

/-- The answer that ends it. -/
theorem Spends.failed {sends : List SendAnswer} {r : Option Bytes × Client} {ans : SendAnswer}
    (hsends : r.2.sends = sends) (hans : ¬ Patient [ans]) {err : Bytes} (herr : err ≠ [])
    (hr : r.1 = some err) : Spends (ans :: sends) r [ans] where
  sends := by rw [hsends, List.singleton_append]
  patient := by simp [hans, hr, herr]
  starved := by simp [hr]

theorem writeLoop_spends (c : Client) (data : Bytes) (sends : List SendAnswer) :
    ∃ used, Spends sends (c.writeLoop data sends) used := by
  have hnil : Patient [] := fun ans hans => absurd hans List.not_mem_nil
  fun_induction writeLoop c data sends with
  | case1 c sends => exact ⟨[], rfl, iff_of_true hnil (.inr rfl), by simp⟩
  | case2 c data hne => exact ⟨[], rfl, iff_of_true hnil (.inl rfl), fun _ => rfl⟩
  | case3 c data hne n sends hpos ih =>
    obtain ⟨used, h⟩ := ih
    refine ⟨_, h.cons fun ans hans => .inr ⟨n, ?_, List.mem_singleton.mp hans⟩⟩
    omega
  | case4 c data hne n sends hzero =>
    refine ⟨_, .failed rfl (fun h => ?_) (by simp) rfl⟩
    rcases h _ (List.mem_singleton.mpr rfl) with heq | ⟨m, hm, heq⟩
    · cases heq
    · cases heq
      have := List.length_pos_of_ne_nil hne
      omega
  | case5 c data hne sends ih =>
    obtain ⟨used, h⟩ := ih
    exact ⟨_, h.cons fun ans hans => .inl (List.mem_singleton.mp hans)⟩
  | case6 c data hne sends =>
    exact ⟨_, .failed rfl (by simp [Patient]) (by simp) rfl⟩
  | case7 c data hne text sends =>
    exact ⟨_, .failed rfl (by simp [Patient]) (by simp) rfl⟩

theorem writeAll_spends (c : Client) (data : Bytes) :
    ∃ used, Spends c.sends (c.writeAll data) used := writeLoop_spends c data c.sends

theorem steady_cons {ans : ReadAnswer} {reads : List ReadAnswer} (h : Steady [ans]) :
    Steady (ans :: reads) ↔ Steady reads := by
  rw [Steady, List.forall_mem_cons]
  exact and_iff_right (h ans (List.mem_singleton.mpr rfl))

/-- A `readAck` fails for want of a frame exactly when the connection is not steady. -/
theorem readLoop_spends (c : Client) (parser : FrameParser) (reads : List ReadAnswer)
    (h : parser.unread = c.received) :
    ∃ used, reads = used ++ (c.readLoop parser reads).2.reads ∧
      (Steady used ↔ (c.readLoop parser reads).1 = none ∨
        parseAt (c.readLoop parser reads).2.received ≠ .needMore) := by
  have hnil : Steady [] := fun ans hans => absurd hans List.not_mem_nil
  fun_induction readLoop c parser reads with
  | case1 reads c parser e q hnext =>
    have hscan := (next_error hnext).1
    rw [h] at hscan
    exact ⟨[], rfl, iff_of_true hnil (.inr (by rw [hscan]; simp))⟩
  | case2 reads c parser f q hnext =>
    obtain ⟨n, hscan, -⟩ := next_ready hnext
    rw [h] at hscan
    exact ⟨[], rfl, iff_of_true hnil (.inr (by rw [hscan]; simp))⟩
  | case3 c parser q hnext => exact ⟨[], rfl, iff_of_true hnil (.inl rfl)⟩
  | case4 c parser q hnext reads =>
    have hscan := (next_needMore hnext).1
    rw [h] at hscan
    exact ⟨[.bytes []], rfl, by simp [Steady, hscan]⟩
  | case5 c parser q hnext b bs reads ih =>
    obtain ⟨-, rfl⟩ := next_needMore hnext
    obtain ⟨used, hused, hiff⟩ := ih (by rw [unread_feed, h]; rfl)
    refine ⟨.bytes (b :: bs) :: used, by rw [List.cons_append, ← hused], ?_⟩
    rw [steady_cons (by simp [Steady]), hiff]
  | case6 c parser q hnext reads ih =>
    obtain ⟨-, rfl⟩ := next_needMore hnext
    obtain ⟨used, hused, hiff⟩ := ih h
    refine ⟨.eintr :: used, by rw [List.cons_append, ← hused], ?_⟩
    rw [steady_cons (by simp [Steady]), hiff]
  | case7 c parser q hnext reads =>
    have hscan := (next_needMore hnext).1
    rw [h] at hscan
    exact ⟨[.eagain], rfl, by simp [Steady, hscan]⟩
  | case8 c parser q hnext text reads =>
    have hscan := (next_needMore hnext).1
    rw [h] at hscan
    exact ⟨[.err text], rfl, by simp [Steady, hscan]⟩

/-- Which answers of the connection a run has used when it has come to `r`. -/
inductive Spent (c : Client) : Option ℕ × Client → Prop
  /-- It waits in a `write`. -/
  | sending {r} (hexit : r.1 = none) (hpatient : Patient c.sends) (hsends : r.2.sends = [])
      (hreads : r.2.reads = c.reads) : Spent c r
  /-- A `write` has failed. -/
  | broken {r used} (hexit : r.1 = some 4) (hused : c.sends = used ++ r.2.sends)
      (hbad : ¬ Patient used) (hreads : r.2.reads = c.reads) : Spent c r
  /-- It has come to the ACK. -/
  | reading {r used usedReads} (hused : c.sends = used ++ r.2.sends) (hpatient : Patient used)
      (hreads : c.reads = usedReads ++ r.2.reads)
      (hsteady : Steady usedReads ↔ r.1 = none ∨ parseAt r.2.received ≠ .needMore)
      (hline : r.1 = some 6 → ∃ f n ack, parseAt r.2.received = .ready f n ∧
        parseAck f.data = some ack ∧ .rejected ack.status ack.message ∈ r.2.lines) : Spent c r

/-- After a `writeAll` that has succeeded. -/
theorem Spent.after {used : List SendAnswer} {r : Option ℕ × Client}
    (hused : c.sends = used ++ c'.sends) (hpatient : Patient used) (hreads : c'.reads = c.reads)
    (h : Spent c' r) : Spent c r := by
  cases h with
  | sending hexit hpatient' hsends hreads' =>
    refine .sending hexit ?_ hsends (hreads'.trans hreads)
    rw [hused, patient_append hpatient]
    exact hpatient'
  | @broken used' hexit hused' hbad hreads' =>
    have hall : c.sends = (used ++ used') ++ r.2.sends := by
      rw [hused, hused', List.append_assoc]
    refine .broken hexit hall ?_ (hreads'.trans hreads)
    rw [patient_append hpatient]
    exact hbad
  | @reading used' usedReads hused' hpatient' hreads' hsteady hline =>
    have hall : c.sends = (used ++ used') ++ r.2.sends := by
      rw [hused, hused', List.append_assoc]
    refine .reading hall ?_ (hreads.symm.trans hreads') hsteady hline
    rw [patient_append hpatient]
    exact hpatient'

/-- A `writeAll` that has not succeeded ends the run. -/
theorem Spends.spent {used : List SendAnswer} {r : Option Bytes × Client} {r' : Option ℕ × Client}
    (h : Spends c.sends r used) (hr : r.1 ≠ some []) (hreads : r.2.reads = c.reads)
    (hexit : r'.1 = if r.1 = none then none else some 4) (hsends : r'.2.sends = r.2.sends)
    (hreads' : r'.2.reads = r.2.reads) : Spent c r' := by
  by_cases hnone : r.1 = none
  · have hnil := h.starved hnone
    rw [if_pos hnone] at hexit
    refine .sending hexit ?_ (hsends.trans hnil) (hreads'.trans hreads)
    rw [h.sends, hnil, List.append_nil]
    exact h.patient.mpr (.inl hnone)
  · rw [if_neg hnone] at hexit
    refine .broken hexit (hsends ▸ h.sends) ?_ (hreads'.trans hreads)
    rw [h.patient, not_or]
    exact ⟨hnone, hr⟩

/-- One frame is sent; then the run waits, gives up, or goes on. -/
theorem spent_writeAll (c : Client) (frame : Bytes) (line : Bytes → ClientLine)
    {next : Client → Option ℕ × Client}
    (hnext : ∀ c', c'.received = c.received → Spent c' (next c')) :
    Spent c (match c.writeAll frame with
      | (none, c) => (none, c)
      | (some err, c) => if err ≠ [] then (some 4, c.log (line err)) else next c) := by
  obtain ⟨used, hs⟩ := c.writeAll_spends frame
  obtain ⟨p, q, hw⟩ := c.writeAll_spec frame
  have hkeep := hw.reads
  have hreceived := hw.received
  rcases hrun : c.writeAll frame with ⟨_ | err, c'⟩ <;> rw [hrun] at hs hkeep hreceived
  · exact hs.spent (by simp) hkeep rfl rfl rfl
  · by_cases herr : err = []
    · subst herr
      exact .after hs.sends (hs.patient.mpr (.inr rfl)) hkeep (hnext c' hreceived)
    · show Spent c (if err ≠ [] then _ else _)
      rw [if_pos herr]
      exact hs.spent (by simpa using herr) hkeep (by simp) rfl rfl

theorem finish_spent (hreceived : c.received = []) (crc : Crc32) :
    Spent c (c.finish fileSize crc) := by
  rw [finish]
  refine spent_writeAll c (buildEnd crc.value) _ fun c' hkeep => ?_
  -- the END is out
  have hnil : c'.received = [] := hkeep.trans hreceived
  obtain ⟨usedReads, hreads, hsteady⟩ := readLoop_spends c' .fresh c'.reads (by rw [hnil]; rfl)
  obtain ⟨hread, -, hsends⟩ := c'.readAck_spec hnil
  have hnilPatient : Patient [] := fun ans hans => absurd hans List.not_mem_nil
  rw [← readAck] at hreads hsteady
  have hused : c'.sends = [] ++ c'.readAck.2.sends := by rw [hsends, List.nil_append]
  split
  · rename_i c'' hack
    rw [hack] at hreads hsteady hused
    exact .reading hused hnilPatient hreads (by simpa using hsteady) (by simp)
  rename_i result c'' hack
  rw [hack] at hreads hsteady hused hread
  have hsteady' : ∀ code, Steady usedReads ↔
      (some code : Option ℕ) = none ∨ parseAt c''.received ≠ .needMore := by
    intro code
    simpa using hsteady
  split
  · exact .reading hused hnilPatient hreads (hsteady' 5) (by simp)
  rename_i herror
  split
  · refine .reading hused hnilPatient hreads (hsteady' 6) fun _ => ?_
    cases hread with
    | fails _ hne => exact absurd hne herror
    | @takes f n ack hscan htype hparse =>
      exact ⟨f, n, ack, hscan, hparse, List.mem_append_right _ (List.mem_singleton.mpr rfl)⟩
  · exact .reading hused hnilPatient hreads (hsteady' 0) (by simp)

theorem sendBody_spent (hreceived : c.received = []) {sent : ℕ} (crc : Crc32)
    (hlt : fileSize < 2 ^ 64) (fileReads : List Bytes)
    (hne : ∀ d ∈ fileReads.map (List.take CHUNK_SIZE), d ≠ [])
    (hsize : sent + (fileReads.map (List.take CHUNK_SIZE)).flatten.length = fileSize) :
    Spent c (c.sendBody path fileSize sent crc fileReads) := by
  induction fileReads generalizing c sent crc with
  | nil =>
    rw [List.map_nil, List.flatten_nil, List.length_nil, Nat.add_zero] at hsize
    rw [sendBody, if_neg (by omega)]
    exact finish_spent hreceived crc
  | cons read fileReads ih =>
    set chunk := read.take CHUNK_SIZE with hchunk
    simp only [List.map_cons, List.forall_mem_cons] at hne
    rw [List.map_cons, List.flatten_cons, List.length_append, ← hchunk] at hsize
    have hpos := List.length_pos_of_ne_nil hne.1
    rw [← hchunk] at hpos
    rw [sendBody, if_pos (by omega)]
    simp only [← hchunk]
    rw [if_neg (by omega)]
    refine spent_writeAll c (buildData chunk) _ fun c' hkeep => ?_
    rw [Nat.mod_eq_of_lt (by omega)]
    exact ih (hkeep.trans hreceived) (crc.update chunk) hne.2 (by omega)

/-- The client has been connected, and its file has the content `F` throughout. -/
structure Connected (F : Bytes) (sys : ClientSys) : Prop where
  tellg : sys.tellg = some (F.length : ℤ)
  seekFault : sys.seekFault = false
  connectFault : sys.connectFault = none
  fileReads : sys.fileReads = pieces F

/-- **Which answers a run has used.** -/
theorem sendFile_spent (path : Bytes) {F : Bytes} {sys : ClientSys} (h : Connected F sys)
    (hlen : F.length < 2 ^ 63) :
    Spent { sends := sys.sends, reads := sys.reads, errno := sys.errno } (sendFile path sys) := by
  have hsize : ((F.length : ℤ) % 2 ^ 64).toNat = F.length := by omega
  simp only [sendFile, h.tellg, h.seekFault, h.connectFault, hsize, Bool.false_eq_true, if_false]
  set c : Client := ({ sends := sys.sends, reads := sys.reads, errno := sys.errno } : Client).log
    (.started (baseName path) F.length) with hc
  have hstart : ∀ {r : Option ℕ × Client}, Spent c r →
      Spent { sends := sys.sends, reads := sys.reads, errno := sys.errno } r := by
    intro r hspent
    have hused : sys.sends = [] ++ c.sends := rfl
    exact Spent.after hused (fun ans hans => absurd hans List.not_mem_nil) rfl hspent
  have hreads : sys.fileReads.map (List.take CHUNK_SIZE) = pieces F := by
    rw [h.fileReads, take_pieces]
  refine hstart (spent_writeAll c (buildHello F.length (baseName path)) _ fun c' hkeep => ?_)
  exact sendBody_spent hkeep {} (by omega) sys.fileReads
    (by rw [hreads]; exact fun d hd => piece_ne_nil hd)
    (by rw [hreads, flatten_pieces, Nat.zero_add])

end Spent

end Client

/-! ### Who was refused -/

namespace Server

section Refused

variable {srv : Server} {os : Os}

theorem closeSession_refused (srv : Server) (os : Os) (fd : ℕ) (reason : Bytes) :
    (srv.closeSession os fd reason).1.refused = srv.refused := by
  rw [closeSession]
  split <;> rfl

theorem eraseSession_refused (srv : Server) (os : Os) (fd : ℕ) :
    (srv.eraseSession os fd).1.refused = srv.refused := by
  rw [eraseSession]
  split <;> rfl

theorem acceptOne_refused (srv : Server) (os : Os) (c : Incoming) (conn : ℕ) :
    srv.refused ⊆ (srv.acceptOne os c conn).1.refused := by
  rw [acceptOne]
  split
  · exact List.subset_cons_self _ _
  dsimp only
  split
  · exact fun e he => he
  · rw [emplace]
    split <;> exact fun e he => he

theorem acceptConnections_refused (srv : Server) (os : Os) (cs : List Incoming) :
    srv.refused ⊆ (srv.acceptConnections os cs).1.refused := by
  induction cs generalizing srv os with
  | nil => exact fun e he => he
  | cons c cs ih =>
    rw [acceptConnections]
    split
    · exact fun e he => he
    · exact List.Subset.trans (acceptOne_refused srv _ c _) (ih _ _)

theorem handleSession_refused (srv : Server) (sys : Sys) (ev : Event) :
    (srv.handleSession sys ev).1.refused = srv.refused := by
  rw [handleSession]
  split
  · rfl
  split
  · exact closeSession_refused _ _ _ _
  dsimp only
  split
  · split
    · exact closeSession_refused _ _ _ _
    · rfl
  · rfl

theorem closeSessions_refused (srv : Server) (os : Os) (fds : List ℕ) (reason : Bytes) :
    (fds.foldl (fun (p : Server × Os) fd => p.1.closeSession p.2 fd reason) (srv, os)).1.refused =
      srv.refused := by
  induction fds generalizing srv os with
  | nil => rfl
  | cons fd fds ih => exact (ih _ _).trans (closeSession_refused srv os fd reason)

theorem clear_refused (srv : Server) (os : Os) (fds : List ℕ) :
    (fds.foldl (fun (p : Server × Os) fd => p.1.eraseSession p.2 fd) (srv, os)).1.refused =
      srv.refused := by
  induction fds generalizing srv os with
  | nil => rfl
  | cons fd fds ih => exact (ih _ _).trans (eraseSession_refused srv os fd)

/-- A connection that was refused stays refused. -/
theorem Step.refused {x y : Server × Os} (h : Step x y) : x.1.refused ⊆ y.1.refused := by
  cases h with
  | dispatch srv sys ev hend =>
    rw [Server.dispatch]
    split
    · exact acceptConnections_refused _ _ _
    split
    · exact fun e he => he
    · exact (handleSession_refused srv sys ev).symm ▸ List.Subset.refl _
  | sweepIdle srv os now order hend horder =>
    exact (closeSessions_refused srv os _ _).symm ▸ List.Subset.refl _
  | shutdown srv os order hend horder =>
    exact (clear_refused srv os order).symm ▸ List.Subset.refl _

/-- A connection that has a session keeps it. -/
theorem conn_of_evolves {outDir : Bytes} {a b : List Session × Os}
    (h : Evolves outDir a b) {s : Session} (hs : s ∈ a.1) : ∃ s' ∈ b.1, s'.conn = s.conn := by
  induction h with
  | refl => exact ⟨s, hs, rfl⟩
  | tail _ hstep ih =>
    obtain ⟨s', hs', hconn⟩ := ih
    cases hstep with
    | perm hperm => exact ⟨s', hperm.mem_iff.mp hs', hconn⟩
    | sockets _ => exact ⟨s', hs', hconn⟩
    | enter id fd conn now => exact ⟨s', List.mem_cons_of_mem _ hs', hconn⟩
    | @move L os os' s₁ s₂ hm hlast =>
      rcases List.mem_cons.mp hs' with rfl | hs'
      · exact ⟨s₂, List.mem_cons_self, hm.conn.trans hconn⟩
      · exact ⟨s', List.mem_cons_of_mem _ hs', hconn⟩

theorem conn_stays {config : ServerConfig} {l g : ℕ} {os₀ : Os} (h : Ready os₀ l g)
    (hreach : Reach config l g os₀ srv os) {y : Server × Os} (hstep : Step (srv, os) y)
    {s : Session} (hs : s ∈ srv.all) : ∃ s' ∈ y.1.all, s'.conn = s.conn := by
  have hgood := reach_good h hreach
  have hgood' := hstep.good (b := (srv.all, os))
    { hgood with base := hgood.disk, evolved := .refl }
  exact conn_of_evolves hgood'.evolved hs

end Refused

end Server

namespace Refusal

open Client

/-- What the server answers when it has no room. -/
def busyAck : Bytes := buildAck .busy (str "сервер перегружен")

/-- What a `send` may answer: it takes something or is interrupted, and it may fail when
the connection is torn. There is no timeout. -/
def Sends (torn : Prop) : SendAnswer → Prop
  | .took n => 0 < n
  | .eintr => True
  | .eagain => False
  | .err _ => torn

/-- What a `read` may answer: some bytes, the end of the stream once it has `ended`, or as
a `send`. -/
def Reads (torn ended : Prop) : ReadAnswer → Prop
  | .bytes p => p ≠ [] ∨ ended
  | .eintr => True
  | .eagain => False
  | .err _ => torn

/-- The server has closed the connection `c`, and bytes of the client are unread there
or still come. -/
def Torn (path : Bytes) (c : ℕ) (t : Transfer) : Prop :=
  ((∃ sent, (c, sent) ∈ t.srv.refused) ∧ (t.client path).sent ≠ []) ∨
    ∃ s ∈ t.srv.gone, s.conn = c

/-- The client has read all that the server has sent over `c`. -/
def Ended (path : Bytes) (c : ℕ) (t : Transfer) : Prop :=
  (c, (t.client path).received) ∈ t.srv.refused ∨
    ∃ s ∈ t.srv.all, s.conn = c ∧ (t.client path).received = s.hist.sent

/-- One more `send` is answered. -/
def sending (t : Transfer) (ans : SendAnswer) : Transfer :=
  { t with sys := { t.sys with sends := t.sys.sends ++ [ans] } }

/-- One more `read` is answered. -/
def reading (t : Transfer) (ans : ReadAnswer) : Transfer :=
  { t with sys := { t.sys with reads := t.sys.reads ++ [ans] } }

/-- Each answer was to a call that the client has made. -/
def Asked (path : Bytes) (t : Transfer) : Prop :=
  (t.client path).sends = [] ∧ (t.client path).reads = []

/-- TCP answers the call that the client waits for, or the server goes on. -/
inductive Step (path : Bytes) (c : ℕ) : Transfer → Transfer → Prop
  | send (t : Transfer) (ans : SendAnswer) (hlive : t.exit path = none)
      (hans : Sends (Torn path c t) ans) (hasked : Asked path (sending t ans))
      (horder : (sending t ans).InOrder path c) : Step path c t (sending t ans)
  | read (t : Transfer) (ans : ReadAnswer) (hlive : t.exit path = none)
      (hans : Reads (Torn path c t) (Ended path c t) ans) (hasked : Asked path (reading t ans))
      (horder : (reading t ans).InOrder path c) : Step path c t (reading t ans)
  | server (t : Transfer) (srv : Server) (os : Os) (hstep : Server.Step (t.srv, t.os) (srv, os))
      (horder : ({ t with srv := srv, os := os } : Transfer).InOrder path c) :
      Step path c t { t with srv := srv, os := os }

/-- The start: the client is connected, with a file of content `F`, and the server has no
connection. -/
def start (F : Bytes) (config : ServerConfig) (l g : ℕ) (os₀ : Os) : Transfer where
  sys := { tellg := some (F.length : ℤ), fileReads := pieces F }
  srv := .create config l g
  os := Server.registered os₀ l g

/-- The states that the system reaches. -/
def Reach (path : Bytes) (c : ℕ) (F : Bytes) (config : ServerConfig) (l g : ℕ) (os₀ : Os)
    (t : Transfer) : Prop :=
  Relation.ReflTransGen (Step path c) (start F config l g os₀) t

/-- No call on the connection has failed. -/
def Unbroken (sys : ClientSys) : Prop :=
  (∀ text, .err text ∉ sys.sends) ∧ ∀ text, .err text ∉ sys.reads

/-- The client is learning that the server is busy: it has something left to send or to
read, or it has returned 6 and has logged what the server says. -/
def Learns (path F : Bytes) (t : Transfer) : Prop :=
  (t.exit path = none ∧
    (moves t.sys.sends < (uploadBytes F.length (baseName path) (pieces F)).length ∨
      ((t.client path).sent = uploadBytes F.length (baseName path) (pieces F) ∧
        (t.client path).received.length < busyAck.length))) ∨
  (t.exit path = some 6 ∧
    .rejected Status.busy.code (str "сервер перегружен") ∈ (t.client path).lines)

/-! ### What holds in a run -/

/-- What holds in every state that the system reaches. -/
structure Held (path : Bytes) (c : ℕ) (F : Bytes) (t : Transfer) : Prop where
  connected : Connected F t.sys
  asked : Asked path t
  sends : ∀ ans ∈ t.sys.sends, Sends True ans
  reads : ∀ ans ∈ t.sys.reads, Reads True True ans
  ended : .bytes [] ∈ t.sys.reads →
    (∃ s ∈ t.srv.all, s.conn = c) ∨ ∃ sent, (c, sent) ∈ t.srv.refused ∧ sent ≠ busyAck

section Run

variable {path : Bytes} {c : ℕ} {F : Bytes} {config : ServerConfig} {l g : ℕ} {os₀ : Os}
  {t t' : Transfer}

theorem Sends.mono {torn torn' : Prop} (himp : torn → torn') {ans : SendAnswer}
    (h : Sends torn ans) :
    Sends torn' ans := by
  cases ans with
  | took n => exact h
  | eagain => exact h
  | eintr => exact h
  | err text => exact himp h

theorem Reads.mono {torn ended torn' ended' : Prop} (himp : torn → torn') (himp' : ended → ended')
    {ans : ReadAnswer} (h : Reads torn ended ans) : Reads torn' ended' ans := by
  cases ans with
  | bytes p => exact h.imp_right himp'
  | eagain => exact h
  | eintr => exact h
  | err text => exact himp h

theorem start_connected (F : Bytes) (config : ServerConfig) (l g : ℕ) (os₀ : Os) :
    Connected F (start F config l g os₀).sys := ⟨rfl, rfl, rfl, rfl⟩

/-- A run of this system is a run of the client and the server. -/
theorem Step.transfer (h : Step path c t t') : Transfer.Step path c t t' := by
  cases h with
  | send ans hlive hans hasked horder =>
    exact .client t _ hlive ⟨rfl, rfl, rfl, List.prefix_refl _, List.prefix_append _ _,
      List.prefix_refl _⟩ horder
  | read ans hlive hans hasked horder =>
    exact .client t _ hlive ⟨rfl, rfl, rfl, List.prefix_refl _, List.prefix_refl _,
      List.prefix_append _ _⟩ horder
  | server srv os hstep horder => exact .server t srv os hstep horder

theorem start_transfer : Transfer.Reach path c config l g os₀ (start F config l g os₀) := by
  have hstart := sendFile_unanswered path
    (Transfer.start (some (F.length : ℤ)) false none config l g os₀).sys rfl rfl rfl rfl
  have hread := sendFile_unanswered path (start F config l g os₀).sys rfl rfl rfl rfl
  refine ⟨some (F.length : ℤ), false, none,
    .single (.client _ _ hstart.1 ?_ ⟨?_, .inl hread.2.2.2⟩)⟩
  · exact ⟨rfl, rfl, rfl, List.nil_prefix, List.prefix_refl _, List.prefix_refl _⟩
  · exact fun s hs => absurd hs List.not_mem_nil

theorem Reach.transfer (h : Reach path c F config l g os₀ t) :
    Transfer.Reach path c config l g os₀ t :=
  start_transfer.steps (Relation.ReflTransGen.mono (fun _ _ => Step.transfer) _ _ h)

theorem Sends.append {sends : List SendAnswer} {torn : Prop} {ans : SendAnswer}
    (h : ∀ ans ∈ sends, Sends True ans) (hans : Sends torn ans) :
    ∀ ans' ∈ sends ++ [ans], Sends True ans' := by
  intro ans' hans'
  rcases List.mem_append.mp hans' with hans' | hans'
  · exact h ans' hans'
  · rw [List.mem_singleton.mp hans']
    exact hans.mono fun _ => trivial

theorem Reads.append {reads : List ReadAnswer} {torn ended : Prop} {ans : ReadAnswer}
    (h : ∀ ans ∈ reads, Reads True True ans) (hans : Reads torn ended ans) :
    ∀ ans' ∈ reads ++ [ans], Reads True True ans' := by
  intro ans' hans'
  rcases List.mem_append.mp hans' with hans' | hans'
  · exact h ans' hans'
  · rw [List.mem_singleton.mp hans']
    exact hans.mono (fun _ => trivial) fun _ => trivial

/-- A client that has read all of the Busy answer has returned 6. -/
theorem exit_of_busyAck (path : Bytes) {t : Transfer}
    (hreceived : (t.client path).received = busyAck) : t.exit path = some 6 := by
  obtain ⟨ds, -, hout⟩ := sendFile_outcome path t.sys
  exact Transfer.exit_of_ack hout hreceived

theorem start_held : Held path c F (start F config l g os₀) where
  connected := start_connected F config l g os₀
  asked := by
    have hread := sendFile_unanswered path (start F config l g os₀).sys rfl rfl rfl rfl
    exact ⟨hread.2.1, hread.2.2.1⟩
  sends := fun ans hans => absurd hans List.not_mem_nil
  reads := fun ans hans => absurd hans List.not_mem_nil
  ended := fun hmem => absurd hmem List.not_mem_nil

/-- **The step lemma.** -/
theorem Step.held (h : Server.Ready os₀ l g) (hreach : Transfer.Reach path c config l g os₀ t)
    (hstep : Step path c t t') (hheld : Held path c F t) : Held path c F t' := by
  have hconnected := hheld.connected
  cases hstep with
  | send ans hlive hans hasked horder =>
    exact ⟨⟨hconnected.tellg, hconnected.seekFault, hconnected.connectFault, hconnected.fileReads⟩,
      hasked, Sends.append hheld.sends hans, hheld.reads, hheld.ended⟩
  | read ans hlive hans hasked horder =>
    refine ⟨⟨hconnected.tellg, hconnected.seekFault, hconnected.connectFault, hconnected.fileReads⟩,
      hasked, hheld.sends, Reads.append hheld.reads hans, fun hmem => ?_⟩
    rcases List.mem_append.mp hmem with hmem | hmem
    · exact hheld.ended hmem
    rw [← List.mem_singleton.mp hmem] at hans
    rcases hans.resolve_left (not_not.mpr rfl) with hrefused | ⟨s, hs, hconn, -⟩
    · -- with all of the Busy answer it would not read on
      refine .inr ⟨_, hrefused, fun hbusy => ?_⟩
      rw [exit_of_busyAck path hbusy] at hlive
      cases hlive
    · exact .inl ⟨s, hs, hconn⟩
  | server srv os hstep horder =>
    refine ⟨hconnected, hheld.asked, hheld.sends, hheld.reads, fun hmem => ?_⟩
    rcases hheld.ended hmem with ⟨s, hs, hconn⟩ | ⟨sent, hrefused, hne⟩
    · obtain ⟨s', hs', hconn'⟩ := Server.conn_stays h hreach.spec.1 hstep hs
      exact .inl ⟨s', hs', hconn'.trans hconn⟩
    · exact .inr ⟨sent, hstep.refused hrefused, hne⟩

/-- **The run lemma.** -/
theorem Reach.held (h : Server.Ready os₀ l g) (hreach : Reach path c F config l g os₀ t) :
    Held path c F t := by
  induction hreach with
  | refl => exact start_held
  | tail hprev hstep ih => exact hstep.held h (Reach.transfer hprev) ih

/-! ### What the client learns -/

/-- A connection is refused once. -/
theorem refused_unique (h : Server.Ready os₀ l g) (hreach : Transfer.Reach path c config l g os₀ t)
    {p q : Bytes} (hp : (c, p) ∈ t.srv.refused) (hq : (c, q) ∈ t.srv.refused) : p = q := by
  have hnodup := (Server.reach_good h hreach.spec.1).numbers.conns.of_append_right
  exact congrArg Prod.snd (List.inj_on_of_nodup_map hnodup hp hq rfl)

/-- It reads nothing but the Busy answer. -/
theorem received_front (h : Server.Ready os₀ l g) (hreach : Transfer.Reach path c config l g os₀ t)
    (hrefused : (c, busyAck) ∈ t.srv.refused) : (t.client path).received <+: busyAck := by
  rcases hreach.spec.2.toClient with hnil | ⟨s, hs, hconn, -⟩ | ⟨sent, hmem, hfront⟩
  · rw [hnil]
    exact List.nil_prefix
  · rw [← hconn] at hrefused
    exact absurd hrefused (Transfer.not_refused h hreach hs)
  · rwa [refused_unique h hreach hrefused hmem]

/-- Once there is a frame in what it has read, it has all of the answer. -/
theorem received_eq (hfront : (t.client path).received <+: busyAck)
    (hscan : parseAt (t.client path).received ≠ .needMore) :
    (t.client path).received = busyAck := by
  obtain ⟨rest, hrest⟩ := hfront
  by_contra hne
  have hpart : ∀ f : Frame, f.data.length ≤ MAX_PAYLOAD → busyAck = buildFrame f.type f.data →
      rest ≠ [] → parseAt (t.client path).received = .needMore :=
    fun f hf hbuilt hrest' => parseAt_of_part hf (hbuilt.symm.trans hrest.symm) hrest'
  refine hscan (hpart ⟨.ack, ackPayload .busy (str "сервер перегружен")⟩
    (length_ackPayload_le _ _) rfl fun hnil => ?_)
  rw [hnil, List.append_nil] at hrest
  exact hne hrest

theorem patient_iff (hheld : Held path c F t) :
    Patient t.sys.sends ↔ ∀ text, .err text ∉ t.sys.sends := by
  constructor
  · intro hpatient text hmem
    rcases hpatient _ hmem with heq | ⟨n, -, heq⟩ <;> cases heq
  · intro hno ans hans
    have hsends := hheld.sends ans hans
    cases ans with
    | took n => exact .inr ⟨n, hsends, rfl⟩
    | eintr => exact .inl rfl
    | eagain => exact absurd hsends id
    | err text => exact absurd hans (hno text)

theorem steady_iff (hheld : Held path c F t) (hended : .bytes [] ∉ t.sys.reads) :
    Steady t.sys.reads ↔ ∀ text, .err text ∉ t.sys.reads := by
  constructor
  · intro hsteady text hmem
    rcases hsteady _ hmem with heq | ⟨p, -, heq⟩ <;> cases heq
  · intro hno ans hans
    have hreads := hheld.reads ans hans
    cases ans with
    | bytes p =>
      refine .inr ⟨p, fun hnil => ?_, rfl⟩
      rw [hnil] at hans
      exact hended hans
    | eintr => exact .inl rfl
    | eagain => exact absurd hreads id
    | err text => exact absurd hans (hno text)

/-- It does not see the end of the stream. -/
theorem not_ended (h : Server.Ready os₀ l g) (hreach : Transfer.Reach path c config l g os₀ t)
    (hheld : Held path c F t) (hrefused : (c, busyAck) ∈ t.srv.refused) :
    .bytes [] ∉ t.sys.reads := by
  intro hmem
  rcases hheld.ended hmem with ⟨s, hs, hconn⟩ | ⟨sent, hmem', hne⟩
  · rw [← hconn] at hrefused
    exact absurd hrefused (Transfer.not_refused h hreach hs)
  · exact hne (refused_unique h hreach hmem' hrefused)

/-- A client that has not returned has something left to do. -/
theorem pending (hheld : Held path c F t) (hlen : F.length < 2 ^ 63)
    (hfront : (t.client path).received <+: busyAck) (hpatient : Patient t.sys.sends)
    (hlive : t.exit path = none) :
    moves t.sys.sends < (uploadBytes F.length (baseName path) (pieces F)).length ∨
      ((t.client path).sent = uploadBytes F.length (baseName path) (pieces F) ∧
        (t.client path).received.length < busyAck.length) := by
  have hconnected := hheld.connected
  have hundisturbed : Undisturbed F t.sys := ⟨hconnected.tellg, hconnected.seekFault,
    hconnected.connectFault, hconnected.fileReads ▸ List.prefix_refl _, hpatient⟩
  have hsent := sent_front path hundisturbed hlen
  by_cases hall : (t.client path).sent = uploadBytes F.length (baseName path) (pieces F)
  · refine .inr ⟨hall, lt_of_le_of_ne hfront.length_le fun heq => ?_⟩
    rw [exit_of_busyAck path (hfront.eq_of_length heq)] at hlive
    cases hlive
  · have hmoves := (sendFile_flushes path hundisturbed hconnected.fileReads hlen).moves
    have hnil : (sendFile path t.sys).2.sends = [] := hheld.asked.1
    have hzero : moves [] = 0 := List.countP_nil
    rw [hnil, hzero, Nat.zero_add] at hmoves
    have hlt := lt_of_le_of_ne hsent.length_le fun heq => hall (hsent.eq_of_length heq)
    exact .inl (Nat.lt_of_le_of_lt hmoves hlt)

/-- **A refused client learns that it was refused** exactly when none of its calls on the
connection fails. -/
theorem busy_learned (h : Server.Ready os₀ l g) (hlen : F.length < 2 ^ 63)
    (hreach : Reach path c F config l g os₀ t)
    (hrefused : (c, buildAck .busy (str "сервер перегружен")) ∈ t.srv.refused) :
    Learns path F t ↔ Unbroken t.sys := by
  have htransfer := hreach.transfer
  have hheld := hreach.held h
  have hfront := received_front h htransfer hrefused
  have hspent := sendFile_spent path hheld.connected hlen
  obtain ⟨hsends, hreads⟩ := hheld.asked
  rw [Unbroken, ← patient_iff hheld, ← steady_iff hheld (not_ended h htransfer hheld hrefused)]
  have hnil : Steady [] := fun ans hans => absurd hans List.not_mem_nil
  constructor
  · -- every answer has been used, and the code is none of those of a failure
    intro hlearns
    cases hspent with
    | sending hexit hpatient _ hkeep =>
      have hnone : t.sys.reads = [] := hkeep.symm.trans hreads
      exact ⟨hpatient, hnone ▸ hnil⟩
    | broken hexit =>
      rcases hlearns with ⟨hlive, -⟩ | ⟨hsix, -⟩
      · rw [← Transfer.exit, hlive] at hexit
        cases hexit
      · rw [← Transfer.exit, hsix] at hexit
        cases hexit
    | reading hused hpatient hkeep hsteady hline =>
      rw [← Transfer.client, hsends, List.append_nil] at hused
      rw [← Transfer.client, hreads, List.append_nil] at hkeep
      have hused' : t.sys.sends = _ := hused
      have hkeep' : t.sys.reads = _ := hkeep
      rw [hused', hkeep']
      refine ⟨hpatient, hsteady.mpr ?_⟩
      rcases hlearns with ⟨hlive, -⟩ | ⟨hsix, -⟩
      · exact .inl hlive
      · obtain ⟨f, n, ack, hscan, -⟩ := hline hsix
        exact .inr (by rw [hscan]; simp)
  · rintro ⟨hpatient, hsteady⟩
    cases hspent with
    | sending hexit => exact .inl ⟨hexit, pending hheld hlen hfront hpatient hexit⟩
    | broken hexit hused hbad =>
      rw [← Transfer.client, hsends, List.append_nil] at hused
      have hused' : t.sys.sends = _ := hused
      rw [hused'] at hpatient
      exact absurd hpatient hbad
    | reading hused _ hkeep hiff hline =>
      rw [← Transfer.client, hreads, List.append_nil] at hkeep
      have hkeep' : t.sys.reads = _ := hkeep
      rw [hkeep'] at hsteady
      rcases hiff.mp hsteady with hexit | hscan
      · exact .inl ⟨hexit, pending hheld hlen hfront hpatient hexit⟩
      · have hsix := exit_of_busyAck path (received_eq hfront hscan)
        obtain ⟨f, n, ack, hscan', hack, hlog⟩ := hline hsix
        rw [ack_of_front hfront hscan' hack] at hlog
        exact .inr ⟨hsix, hlog⟩

end Run

/-! ### Two runs -/

/-- The client has been refused as the second connection, and the system has answered it
with `sys`. -/
structure Refused (sys : ClientSys) (t : Transfer) : Prop where
  sys : t.sys = sys
  refused : (1, busyAck) ∈ t.srv.refused
  conns : t.srv.all.map Session.conn = [0]

theorem Refused.inOrder {sys : ClientSys} {t : Transfer} {path : Bytes} (h : Refused sys t)
    (hfront : (sendFile path sys).2.received <+: busyAck) : t.InOrder path 1 where
  toServer := by
    intro s hs hone
    have hmem : s.conn ∈ t.srv.all.map Session.conn := List.mem_map_of_mem hs
    rw [h.conns, hone] at hmem
    exact absurd hmem (by decide)
  toClient := .inr (.inr ⟨busyAck, h.refused, by rw [Transfer.client, h.sys]; exact hfront⟩)

theorem Refused.send {sys sys' : ClientSys} {t : Transfer} (h : Refused sys t) (path : Bytes)
    (ans : SendAnswer) (hsys : sys' = { sys with sends := sys.sends ++ [ans] })
    (hlive : (sendFile path sys).1 = none) (hans : Sends ((sendFile path sys).2.sent ≠ []) ans)
    (hasked : (sendFile path sys').2.sends = [] ∧ (sendFile path sys').2.reads = [])
    (hfront : (sendFile path sys').2.received <+: busyAck) :
    ∃ t', Step path 1 t t' ∧ Refused sys' t' := by
  have h' : Refused sys' (sending t ans) :=
    ⟨by rw [hsys, sending, h.sys], h.refused, h.conns⟩
  have htorn : (sendFile path sys).2.sent ≠ [] → Torn path 1 t := fun hsent =>
    .inl ⟨⟨_, h.refused⟩, by rw [Transfer.client, h.sys]; exact hsent⟩
  refine ⟨_, .send t ans ?_ (hans.mono htorn) ?_ ?_, h'⟩
  · rw [Transfer.exit, h.sys]
    exact hlive
  · rw [Asked, Transfer.client, h'.sys]
    exact hasked
  · exact h'.inOrder hfront

theorem Refused.read {sys sys' : ClientSys} {t : Transfer} (h : Refused sys t) (path : Bytes)
    (p : Bytes) (hsys : sys' = { sys with reads := sys.reads ++ [.bytes p] })
    (hlive : (sendFile path sys).1 = none) (hp : p ≠ [])
    (hasked : (sendFile path sys').2.sends = [] ∧ (sendFile path sys').2.reads = [])
    (hfront : (sendFile path sys').2.received <+: busyAck) :
    ∃ t', Step path 1 t t' ∧ Refused sys' t' := by
  have h' : Refused sys' (reading t (.bytes p)) :=
    ⟨by rw [hsys, reading, h.sys], h.refused, h.conns⟩
  refine ⟨_, .read t (.bytes p) ?_ (.inl hp) ?_ ?_, h'⟩
  · rw [Transfer.exit, h.sys]
    exact hlive
  · rw [Asked, Transfer.client, h'.sys]
    exact hasked
  · exact h'.inOrder hfront

/-- A server with room for one session accepts one connection and refuses the next, which
is the client's. -/
theorem refused_reach :
    ∃ t, Reach (str "/tmp/a.txt") 1 [1#8, 2#8, 3#8]
        { outDir := str "in", idleTimeout := 30, maxSessions := 1 } 3 4 (Server.bare 1 3 4) t ∧
      Refused { tellg := some 3, fileReads := [[1#8, 2#8, 3#8]] } t := by
  obtain ⟨t₀, h₀⟩ : ∃ t, start [1#8, 2#8, 3#8]
      { outDir := str "in", idleTimeout := 30, maxSessions := 1 } 3 4 (Server.bare 1 3 4) = t :=
    ⟨_, rfl⟩
  obtain ⟨r, hr⟩ : ∃ r, t₀.srv.acceptConnections t₀.os
      [{ fd := 5, now := 0 }, { fd := 6, send := .took 1000, now := 0 }] = r := ⟨_, rfl⟩
  have hpieces : pieces [1#8, 2#8, 3#8] = [[1#8, 2#8, 3#8]] := by decide +kernel
  have hsys : t₀.sys = { tellg := some 3, fileReads := [[1#8, 2#8, 3#8]] } := by
    rw [← h₀, start, hpieces]
    rfl
  have h : Refused { tellg := some 3, fileReads := [[1#8, 2#8, 3#8]] }
      { t₀ with srv := r.1, os := r.2 } := by
    refine ⟨hsys, ?_, ?_⟩
    · rw [← hr, ← h₀]
      decide +kernel
    · rw [← hr, ← h₀]
      decide +kernel
  have haccept : Server.Step (t₀.srv, t₀.os) (r.1, r.2) := by
    rw [← hr]
    exact Server.Step.accept t₀.srv t₀.os _ (by rw [← h₀]; rfl)
  have hstep : Step (str "/tmp/a.txt") 1 t₀ { t₀ with srv := r.1, os := r.2 } :=
    .server t₀ r.1 r.2 haccept (h.inOrder (by decide +kernel))
  exact ⟨_, .single (h₀.symm ▸ hstep), h⟩

/-- The client has sent ten bytes when its next `send` fails. -/
theorem reset_reach :
    ∃ t, Reach (str "/tmp/a.txt") 1 [1#8, 2#8, 3#8]
        { outDir := str "in", idleTimeout := 30, maxSessions := 1 } 3 4 (Server.bare 1 3 4) t ∧
      (1, busyAck) ∈ t.srv.refused ∧ t.exit (str "/tmp/a.txt") = some 4 := by
  obtain ⟨t, hreach, h⟩ := refused_reach
  obtain ⟨t₁, hstep₁, h₁⟩ := h.send (str "/tmp/a.txt") (.took 10) rfl
    (by decide +kernel) (show 0 < 10 by decide) (by decide +kernel) (by decide +kernel)
  obtain ⟨t₂, hstep₂, h₂⟩ := h₁.send (str "/tmp/a.txt") (.err (str "Connection reset by peer")) rfl
    (by decide +kernel) (show _ ≠ [] by decide +kernel) (by decide +kernel) (by decide +kernel)
  refine ⟨t₂, (hreach.tail hstep₁).tail hstep₂, h₂.refused, ?_⟩
  rw [Transfer.exit, h₂.sys]
  decide +kernel

/-- The client may never learn that it was refused. -/
theorem busy_lost :
    ¬ ∀ t, Reach (str "/tmp/a.txt") 1 [1#8, 2#8, 3#8]
        { outDir := str "in", idleTimeout := 30, maxSessions := 1 } 3 4 (Server.bare 1 3 4) t →
      (1, buildAck .busy (str "сервер перегружен")) ∈ t.srv.refused →
      ∀ code, t.exit (str "/tmp/a.txt") = some code → code = 6 ∧
        .rejected Status.busy.code (str "сервер перегружен") ∈
          (t.client (str "/tmp/a.txt")).lines := by
  intro hall
  obtain ⟨t, hreach, hrefused, hexit⟩ := reset_reach
  have hsix := (hall t hreach hrefused 4 hexit).1
  exact absurd hsix (by decide)

/-- The client has sent its upload before the connection is torn, and reads the answer. -/
theorem busy_learned_in_time :
    ∃ t, Reach (str "/tmp/a.txt") 1 [1#8, 2#8, 3#8]
        { outDir := str "in", idleTimeout := 30, maxSessions := 1 } 3 4 (Server.bare 1 3 4) t ∧
      t.exit (str "/tmp/a.txt") = some 6 ∧ Learns (str "/tmp/a.txt") [1#8, 2#8, 3#8] t := by
  obtain ⟨t, hreach, h⟩ := refused_reach
  obtain ⟨t₁, hstep₁, h₁⟩ := h.send (str "/tmp/a.txt") (.took 1000) rfl
    (by decide +kernel) (show 0 < 1000 by decide) (by decide +kernel) (by decide +kernel)
  obtain ⟨t₂, hstep₂, h₂⟩ := h₁.send (str "/tmp/a.txt") (.took 1000) rfl
    (by decide +kernel) (show 0 < 1000 by decide) (by decide +kernel) (by decide +kernel)
  obtain ⟨t₃, hstep₃, h₃⟩ := h₂.send (str "/tmp/a.txt") (.took 1000) rfl
    (by decide +kernel) (show 0 < 1000 by decide) (by decide +kernel) (by decide +kernel)
  obtain ⟨t₄, hstep₄, h₄⟩ := h₃.read (str "/tmp/a.txt") busyAck rfl
    (by decide +kernel) (by decide +kernel) (by decide +kernel) (by decide +kernel)
  have hreach₄ := (((hreach.tail hstep₁).tail hstep₂).tail hstep₃).tail hstep₄
  refine ⟨t₄, hreach₄, ?_, (busy_learned (Server.ready_bare 1 3 4) (by decide) hreach₄
    h₄.refused).mpr ?_⟩
  · rw [Transfer.exit, h₄.sys]
    decide +kernel
  · rw [h₄.sys]
    exact ⟨fun text hmem => by simp at hmem, fun text hmem => by simp at hmem⟩

end Refusal

end Nexus
