/-
A transfer: one client and the server.

The system is a run of `sendFile` together with the whole server and whatever
other clients it has. `c` is the number of the client's connection at the server,
if the server ever accepts it. What TCP promises is `InOrder`: either side has
read a front part of what the other's `send` has taken. Anything else may happen
between any two steps, and either side may fail at any time.

* `Transfer.agreement` — what the exit code of the client says about the file;
* `Transfer.end_to_end` — an undisturbed transfer publishes the client's file.
-/
import NexusTransmitter.ReadAck
import NexusTransmitter.ServerOutcome

open Nexus.Upload Nexus.Client

namespace Nexus

/-! ### A session and an upload -/

/-- A part of an upload has no verdict. -/
theorem no_verdict_of_part {fileSize : ℕ} {name : Bytes} {ds : List Bytes}
    (hlt : fileSize < 2 ^ 64) (hds : ∀ d ∈ ds, d.length ≤ MAX_PAYLOAD)
    (hsize : ds.flatten.length = fileSize) {p : Bytes} (hp : p <+: uploadBytes fileSize name ds)
    (hne : p ≠ uploadBytes fileSize name ds) (status : Status) (file : Option Bytes) :
    ¬ Verdict p status file := by
  intro hv
  -- the verdict would be the one on the whole upload
  have hall : Verdict (uploadBytes fileSize name ds) .ok (some ds.flatten) :=
    (verdict_uploadBytes hlt hds).mpr ⟨hsize, rfl⟩
  have hsame := ofStream_of_verdict (hv.mono hp)
  rw [ofStream_of_verdict hall] at hsame
  cases hsame
  by_cases hle : p.length ≤ (bodyBytes fileSize name ds).length
  · have hfront := List.prefix_of_prefix_length_le hp (List.prefix_append _ _) hle
    exact no_file_of_front hds hfront _ hv
  · have hbody : bodyBytes fileSize name ds <+: p :=
      List.prefix_of_prefix_length_le (List.prefix_append _ _) hp (by omega)
    obtain ⟨e, rfl⟩ := hbody
    obtain ⟨q, hq⟩ := (List.prefix_append_right_inj _).mp hp
    refine no_file_of_part hds hq.symm ?_ (List.prefix_refl _) _ hv
    rintro rfl
    rw [List.append_nil] at hq
    exact hne (by rw [uploadBytes, hq])

namespace Session

variable {s : Session} {sys : Sys}

/-- However an upload is cut into reads, the session takes in all of it. -/
theorem receives_upload (h : s.Sound sys.os) (hlive : s.terminated = false) (ht : s.Tracks)
    {fileSize : ℕ} {name : Bytes} {ds : List Bytes} (hlt : fileSize < 2 ^ 64)
    (hds : ∀ d ∈ ds, d.length ≤ MAX_PAYLOAD) (hsize : ds.flatten.length = fileSize)
    {events : BitVec 32} (hin : events &&& EPOLLIN ≠ 0) {reads : List ReadAnswer}
    (hmore : ∀ a ∈ reads, a.more = true)
    (hfront : s.hist.received ++ given reads <+: uploadBytes fileSize name ds)
    (hok : ∀ call ∈ (s.handle sys events reads).2.1.writer.log, call.ok = true) :
    (s.handle sys events reads).2.1.hist.received = s.hist.received ++ given reads := by
  obtain ⟨used, rest, rfl, hreceived, -, hended⟩ := handle_received s sys events reads
  rcases hended hin with rfl | hstate | ⟨a, ha, hstop⟩
  · rw [hreceived, List.append_nil]
  · -- a verdict, so there is nothing left to read
    have hcall := Call.handle s sys events (used ++ rest)
    have hsound := hcall.sound hlive h
    have htracks := hcall.tracks hlive h ht
    obtain ⟨status, message, hans⟩ := hsound.inv.account.answered_of_state hstate
    have hup := upload_eq_ofStream hsound.inv.account hsound.quiet htracks hok
    rw [hans.upload] at hup
    have hpart : s.hist.received ++ given used <+: s.hist.received ++ given (used ++ rest) := by
      rw [given_append, ← List.append_assoc]
      exact List.prefix_append _ _
    have hwhole : s.hist.received ++ given used = uploadBytes fileSize name ds := by
      by_contra hne
      rw [hreceived] at hup
      exact no_verdict_of_part hlt hds hsize (hpart.trans hfront) hne _ _
        (verdict_of_ofStream hup.symm)
    rw [hreceived]
    exact hpart.eq_of_length_le (by rw [hwhole]; exact hfront.length_le)
  · have := hmore a (List.mem_append_right used (List.mem_of_mem_head? ha))
    rw [hstop] at this
    cases this

theorem handle_out (s : Session) (sys : Sys) (reads : List ReadAnswer) :
    s.handle sys EPOLLOUT reads = s.onWritable sys := by
  rw [handle, if_neg (by decide), if_neg (by decide)]
  exact if_pos (by decide)

/-- A patient socket takes all of the ACK, however little at a time. -/
theorem sendLoop_patient {sends : List SendAnswer} (h : Patient sends)
    (hsent : s.hist.sent = s.out.take s.outPos) (hmoves : s.out.length - s.outPos ≤ moves sends) :
    (s.sendLoop sys sends).2.1.hist.sent = s.out := by
  have hdone : ¬ s.outPos < s.out.length → s.hist.sent = s.out := fun hge => by
    rw [hsent, List.take_of_length_le (Nat.le_of_not_lt hge)]
  induction sends generalizing s with
  | nil =>
    have hzero : moves [] = 0 := List.countP_nil
    rw [sendLoop.eq_def]
    dsimp only
    rw [if_neg (by omega)]
    exact hdone (by omega)
  | cons ans sends ih =>
    have hrest : Patient sends := fun a ha => h a (List.mem_cons_of_mem _ ha)
    rw [sendLoop.eq_def]
    dsimp only
    split
    swap
    · exact hdone ‹_›
    rename_i hleft
    rcases h ans List.mem_cons_self with rfl | ⟨n, hn, rfl⟩
    · have hskip : moves (.eintr :: sends) = moves sends := List.countP_cons_of_neg (by simp)
      exact ih hrest hsent (by omega) hdone
    · have hcount : moves (.took n :: sends) = moves sends + 1 := List.countP_cons_of_pos (by simp)
      dsimp only
      rw [if_pos (by omega)]
      set m := min n (s.out.length - s.outPos) with hm
      have hsent' : (s.advance m sys.now).hist.sent = s.out.take (s.outPos + m) := by
        show s.hist.sent ++ (s.out.drop s.outPos).take m = _
        rw [hsent, List.take_add]
      refine ih hrest hsent' ?_ fun hge => ?_
      · show s.out.length - (s.outPos + m) ≤ moves sends
        omega
      · rw [hsent']
        exact List.take_of_length_le (Nat.le_of_not_lt hge)

/-- So an ACK goes out on a socket that takes something often enough. -/
theorem handle_patient {os : Os} {status : Status} {message : Bytes}
    (h : s.Answered os status message) (hs : s.state = .sendingAck) (hpatient : Patient sys.sends)
    (hmoves : (buildAck status message).length ≤ moves sys.sends) (reads : List ReadAnswer) :
    (s.handle sys EPOLLOUT reads).2.1.hist.sent = buildAck status message := by
  rw [handle_out, onWritable, if_neg (not_not.mpr hs), ← h.out]
  exact sendLoop_patient hpatient h.sent (by rw [h.out]; omega)

end Session

/-- The system answers some more calls of a client. -/
structure ClientSys.Grows (sys sys' : ClientSys) : Prop where
  tellg : sys'.tellg = sys.tellg
  seekFault : sys'.seekFault = sys.seekFault
  connectFault : sys'.connectFault = sys.connectFault
  fileReads : sys.fileReads <+: sys'.fileReads
  sends : sys.sends <+: sys'.sends
  reads : sys.reads <+: sys'.reads

/-- A client, as far as the system has answered it, and the server. -/
structure Transfer where
  sys : ClientSys
  srv : Server
  os : Os

namespace Transfer

/-- How far the client has come. -/
def exit (path : Bytes) (t : Transfer) : Option ℕ := (sendFile path t.sys).1

def client (path : Bytes) (t : Transfer) : Client := (sendFile path t.sys).2

/-- Either side has read a front part of what the other has sent. -/
structure InOrder (path : Bytes) (c : ℕ) (t : Transfer) : Prop where
  toServer : ∀ s ∈ t.srv.all, s.conn = c → s.hist.received <+: (t.client path).sent
  toClient : (t.client path).received = [] ∨
    (∃ s ∈ t.srv.all, s.conn = c ∧ (t.client path).received <+: s.hist.sent) ∨
    ∃ sent, (c, sent) ∈ t.srv.refused ∧ (t.client path).received <+: sent

/-- The client goes on, if it has not returned, or the server does. -/
inductive Step (path : Bytes) (c : ℕ) : Transfer → Transfer → Prop
  | client (t : Transfer) (sys : ClientSys) (hlive : t.exit path = none) (hgrows : t.sys.Grows sys)
      (horder : InOrder path c { t with sys := sys }) : Step path c t { t with sys := sys }
  | server (t : Transfer) (srv : Server) (os : Os) (hstep : Server.Step (t.srv, t.os) (srv, os))
      (horder : InOrder path c { t with srv := srv, os := os }) :
      Step path c t { t with srv := srv, os := os }

/-- A run of the system. -/
def Steps (path : Bytes) (c : ℕ) : Transfer → Transfer → Prop := Relation.ReflTransGen (Step path c)

/-- The start: nothing has been answered yet, and the server has no connection. -/
def start (tellg : Option ℤ) (seekFault : Bool) (connectFault : Option Bytes)
    (config : ServerConfig) (l g : ℕ) (os₀ : Os) : Transfer where
  sys := { tellg := tellg, seekFault := seekFault, connectFault := connectFault }
  srv := .create config l g
  os := Server.registered os₀ l g

/-- The states that the system reaches. -/
def Reach (path : Bytes) (c : ℕ) (config : ServerConfig) (l g : ℕ) (os₀ : Os) (t : Transfer) :
    Prop :=
  ∃ tellg seekFault connectFault,
    Steps path c (start tellg seekFault connectFault config l g os₀) t

section Run

variable {path : Bytes} {c : ℕ} {config : ServerConfig} {l g : ℕ} {os₀ : Os} {t t' : Transfer}

/-- The server's side of a run. -/
theorem Step.server_steps (h : Step path c t t') :
    Server.Steps (t.srv, t.os) (t'.srv, t'.os) := by
  cases h with
  | client sys hlive hgrows horder => exact .refl
  | server srv os hstep horder => exact .single hstep

theorem Steps.server_steps (h : Steps path c t t') :
    Server.Steps (t.srv, t.os) (t'.srv, t'.os) := by
  induction h with
  | refl => exact .refl
  | tail hprev hstep ih => exact ih.trans hstep.server_steps

theorem Step.inOrder (h : Step path c t t') : InOrder path c t' := by
  cases h with
  | client sys hlive hgrows horder => exact horder
  | server srv os hstep horder => exact horder

theorem Steps.inOrder (h : Steps path c t t') (horder : InOrder path c t) : InOrder path c t' := by
  cases h with
  | refl => exact horder
  | tail hprev hstep => exact hstep.inOrder

/-- A client that has returned stays as it is. -/
theorem Steps.sys_eq (h : Steps path c t t') {code : ℕ} (hexit : t.exit path = some code) :
    t'.sys = t.sys := by
  induction h with
  | refl => rfl
  | tail hprev hstep ih =>
    cases hstep with
    | client sys hlive hgrows horder =>
      rw [exit, ih, ← exit, hexit] at hlive
      cases hlive
    | server srv os hstep horder => exact ih

theorem not_received (hreads : t.sys.reads = []) : (t.client path).received = [] := by
  obtain ⟨used, hused, hreceived⟩ := sendFile_received path t.sys
  rw [hreads, List.prefix_nil] at hused
  rw [client, hreceived, hused]
  rfl

theorem start_inOrder (tellg : Option ℤ) (seekFault : Bool) (connectFault : Option Bytes) :
    InOrder path c (start tellg seekFault connectFault config l g os₀) where
  toServer := fun _ hs => absurd hs List.not_mem_nil
  toClient := .inl (not_received rfl)

/-- What holds in every state of the system. -/
theorem Reach.spec (hreach : Reach path c config l g os₀ t) :
    Server.Reach config l g os₀ t.srv t.os ∧ InOrder path c t := by
  obtain ⟨tellg, seekFault, connectFault, hsteps⟩ := hreach
  exact ⟨hsteps.server_steps, hsteps.inOrder (start_inOrder tellg seekFault connectFault)⟩

theorem Reach.steps (hreach : Reach path c config l g os₀ t) (hsteps : Steps path c t t') :
    Reach path c config l g os₀ t' := by
  obtain ⟨tellg, seekFault, connectFault, hstart⟩ := hreach
  exact ⟨tellg, seekFault, connectFault, hstart.trans hsteps⟩

/-! ### What the client knows -/

/-- There is one session for a connection. -/
theorem session_unique (h : Server.Ready os₀ l g) (hreach : Reach path c config l g os₀ t)
    {s s' : Session} (hs : s ∈ t.srv.all) (hs' : s' ∈ t.srv.all) (hconn : s.conn = s'.conn) :
    s = s' := by
  have hnodup := (Server.reach_good h hreach.spec.1).numbers.conns.of_append_left
  exact List.inj_on_of_nodup_map hnodup hs hs' hconn

/-- And none for one that was refused. -/
theorem not_refused (h : Server.Ready os₀ l g) (hreach : Reach path c config l g os₀ t)
    {s : Session} (hs : s ∈ t.srv.all) {sent : Bytes} : (s.conn, sent) ∉ t.srv.refused := by
  intro hmem
  have hdisjoint := (List.nodup_append.mp (Server.reach_good h hreach.spec.1).numbers.conns).2.2
  exact hdisjoint _ (List.mem_map_of_mem hs) _ (List.mem_map_of_mem hmem) rfl

/-- A file that is published is a verdict on what the client has sent. -/
theorem verdict_of_published (h : Server.Ready os₀ l g) (hreach : Reach path c config l g os₀ t)
    {s : Session} (hs : s ∈ t.srv.all) (hconn : s.conn = c) (hpub : s.writer.published ≠ none) :
    ∃ p, p <+: (t.client path).sent ∧ Verdict p .ok (some s.hist.accepted) := by
  obtain ⟨hserver, horder⟩ := hreach.spec
  have hlast := (Server.reach_good h hserver).disk.lasting s hs
  obtain ⟨⟨p, i⟩, hp⟩ := Option.ne_none_iff_exists'.mp hpub
  obtain ⟨name, hans, -, -⟩ := hlast.file hp
  exact ⟨_, horder.toServer s hs hconn, hlast.tracks.verdict_ok hans⟩

/-- An ACK that the client has parsed is what its session has answered, or the
Busy answer. -/
theorem answer_of_ack (h : Server.Ready os₀ l g) (hreach : Reach path c config l g os₀ t)
    {f : Frame} {n : ℕ} {ack : AckPayload} (hscan : parseAt (t.client path).received = .ready f n)
    (hack : parseAck f.data = some ack) :
    (∃ s ∈ t.srv.all, s.conn = c ∧ ∃ status message, s.Answered t.os status message ∧
      ack = { status := status.code, message := message.take MAX_NAME_LEN }) ∨
    (ack.status = Status.busy.code ∧ ∃ sent, (c, sent) ∈ t.srv.refused) := by
  obtain ⟨hserver, horder⟩ := hreach.spec
  have hgood := Server.reach_good h hserver
  rcases horder.toClient with hnil | ⟨s, hs, hconn, hfront⟩ | ⟨sent, hmem, hfront⟩
  · rw [hnil, parseAt_nil] at hscan
    cases hscan
  · have hlast := hgood.disk.lasting s hs
    cases hlast.account with
    | silent hsilent =>
      rw [hsilent.sent, List.prefix_nil] at hfront
      rw [hfront, parseAt_nil] at hscan
      cases hscan
    | @answered status message hans =>
      have hsent := (hans.sent_iff hlast.quiet).1
      exact .inl ⟨s, hs, hconn, status, message, hans,
        ack_of_front (hfront.trans hsent) hscan hack⟩
  · refine .inr ⟨?_, sent, hmem⟩
    rw [ack_of_front (hfront.trans (hgood.numbers.busy _ hmem)) hscan hack]

/-- A client that returns 0 has the Ok of its session. -/
theorem session_of_zero (h : Server.Ready os₀ l g) (hreach : Reach path c config l g os₀ t)
    {fileSize : ℕ} {ds : List Bytes}
    (hout : Outcome fileSize (baseName path) ds t.sys.reads (sendFile path t.sys))
    (hzero : t.exit path = some 0) :
    ∃ s ∈ t.srv.all, s.conn = c ∧ ∃ name i, s.Answered t.os .ok name ∧ s.File t.os name i ∧
      (t.client path).sent = uploadBytes fileSize (baseName path) ds ∧
      .completed fileSize (crc32 ds.flatten) name ∈ (t.client path).lines := by
  cases hout with
  | cut hexit => rw [← exit, hzero] at hexit; simp at hexit
  | ended hexit => rw [← exit, hzero] at hexit; simp at hexit
  | waiting hexit => rw [← exit, hzero] at hexit; cases hexit
  | unconfirmed hexit => rw [← exit, hzero] at hexit; cases hexit
  | @replied f n ack hexit hsize hsent hscan htype hack hline =>
    rw [← exit, hzero] at hexit
    have hok : ack.status = Status.ok.code := by
      by_contra hno
      rw [if_neg hno] at hexit
      cases hexit
    have hline' := hline hok
    rcases answer_of_ack h hreach hscan hack with
      ⟨s, hs, hconn, status, message, hans, rfl⟩ | ⟨hbusy, -⟩
    · obtain rfl := Status.code_injective hok
      obtain ⟨i, hfile⟩ := hans.file rfl
      obtain ⟨tm, suffix, hlt, hname⟩ := hfile.name_eq
      -- the name is short, so the ACK has all of it
      have hshort : message.take MAX_NAME_LEN = message :=
        List.take_of_length_le ((hname ▸ length_candidateName_le tm hlt).trans (by decide))
      rw [hshort] at hline'
      exact ⟨s, hs, hconn, message, i, hans, hfile, hsent, hline'⟩
    · rw [hbusy] at hok
      exact absurd (Status.code_injective hok) (by decide)

/-- After 2, 3, 4 or 6 nothing is published for the connection. -/
theorem not_published (h : Server.Ready os₀ l g) (hreach : Reach path c config l g os₀ t)
    (hexit : t.exit path ∈ [some 2, some 3, some 4, some 6]) {s : Session} (hs : s ∈ t.srv.all)
    (hconn : s.conn = c) : s.writer.published = none := by
  obtain ⟨ds, hfront, hout⟩ := sendFile_outcome path t.sys
  have hds := length_le_of_reads hfront
  by_contra hpub
  by_cases hsix : t.exit path = some 6
  · cases hout with
    | cut hexit' => rw [← exit, hsix] at hexit'; simp at hexit'
    | ended hexit' => rw [← exit, hsix] at hexit'; simp at hexit'
    | waiting hexit' => rw [← exit, hsix] at hexit'; cases hexit'
    | unconfirmed hexit' => rw [← exit, hsix] at hexit'; cases hexit'
    | @replied f n ack hexit' _ _ hscan _ hack =>
      rw [← exit, hsix] at hexit'
      have hno : ack.status ≠ Status.ok.code := by
        intro hok
        rw [if_pos hok] at hexit'
        cases hexit'
      rcases answer_of_ack h hreach hscan hack with
        ⟨s', hs', hconn', status, message, hans, rfl⟩ | ⟨-, sent, hmem⟩
      · obtain rfl := session_unique h hreach hs hs' (hconn.trans hconn'.symm)
        refine hpub (hans.unpublished fun hok => hno ?_)
        rw [hok]
      · rw [← hconn] at hmem
        exact not_refused h hreach hs hmem
  · obtain ⟨p, hp, hv⟩ := verdict_of_published h hreach hs hconn hpub
    refine hout.no_file hds ?_ hp _ hv
    simp only [List.mem_cons, List.not_mem_nil, or_false] at hexit ⊢
    tauto

/-- **What the exit code says.**  In every state that the system reaches, however
the steps of the client and of the server alternate and whatever fails:

* a client that returns 0 has a session which has published a file of exactly the
  bytes that were in its DATA frames, as many as it declared in HELLO, and the
  ACK has named that file;
* for a client that returns 2, 3, 4 or 6 nothing has been published, and nothing
  will be;
* the only other code is 5. -/
theorem agreement (h : Server.Ready os₀ l g) (hreach : Reach path c config l g os₀ t) :
    (t.exit path = some 0 →
      ∃ s ∈ t.srv.all, (∀ s' ∈ t.srv.all, s'.conn = c ↔ s' = s) ∧
        ∃ fileSize ds name i,
          (t.client path).sent = uploadBytes fileSize (baseName path) ds ∧
          ds.flatten.length = fileSize ∧
          s.writer.published = some (finalPath s.writer.dir name, i) ∧
          t.os.dir (finalPath s.writer.dir name) = some i ∧ t.os.data i = ds.flatten ∧
          .completed fileSize (crc32 ds.flatten) name ∈ (t.client path).lines) ∧
    (t.exit path ∈ [some 2, some 3, some 4, some 6] → ∀ t', Steps path c t t' →
      t'.exit path = t.exit path ∧
        ∀ s ∈ t'.srv.all, s.conn = c →
          s.writer.published = none ∧ ∀ p, .link p none ∉ s.writer.log) ∧
    (∀ code, t.exit path = some code → code ∈ [0, 2, 3, 4, 5, 6]) := by
  obtain ⟨ds, hfront, hout⟩ := sendFile_outcome path t.sys
  have hds := length_le_of_reads hfront
  refine ⟨fun hzero => ?_, fun hexit t' hsteps => ?_, fun code hcode => hout.exit_mem hcode⟩
  · obtain ⟨s, hs, hconn, name, i, hans, hfile, hsent, hline⟩ := session_of_zero h hreach hout hzero
    have hlast := (Server.reach_good h hreach.spec.1).disk.lasting s hs
    have hv := (hlast.tracks.verdict_ok hans).mono (hreach.spec.2.toServer s hs hconn)
    rw [hsent] at hv
    obtain ⟨hlen, hdata⟩ := (verdict_uploadBytes t.sys.fileSize_lt hds).mp hv
    refine ⟨s, hs, fun s' hs' => ⟨fun hconn' => ?_, fun heq => heq ▸ hconn⟩, t.sys.fileSize, ds,
      name, i, hsent, hlen, hfile.published, (hfile.entry _).mpr rfl, ?_, hline⟩
    · exact session_unique h hreach hs' hs (hconn'.trans hconn.symm)
    · rw [hfile.data]
      exact Option.some.inj hdata
  · have hsys : t'.sys = t.sys := by
      simp only [List.mem_cons, List.not_mem_nil, or_false] at hexit
      rcases hexit with hexit | hexit | hexit | hexit <;> exact hsteps.sys_eq hexit
    have hsame : t'.exit path = t.exit path := by rw [exit, exit, hsys]
    refine ⟨hsame, fun s hs hconn => ?_⟩
    have hreach' := hreach.steps hsteps
    have hnone := not_published h hreach' (hsame ▸ hexit) hs hconn
    refine ⟨hnone, fun p hp => ?_⟩
    have hlast := (Server.reach_good h hreach'.spec.1).disk.lasting s hs
    obtain ⟨i, hi⟩ := (hlast.calls.published p).mp hp
    rw [hnone] at hi
    cases hi

/-- An ACK that has come in whole ends the client. -/
theorem exit_of_ack {fileSize : ℕ} {ds : List Bytes}
    (hout : Outcome fileSize (baseName path) ds t.sys.reads (sendFile path t.sys)) {status : Status}
    {message : Bytes} (hreceived : (t.client path).received = buildAck status message) :
    t.exit path = some (if status.code = Status.ok.code then 0 else 6) := by
  have hparse : parseAt (t.client path).received =
      .ready { type := .ack, data := ackPayload status message }
        (HEADER_SIZE + (ackPayload status message).length + TRAILER_SIZE) := by
    have hbuilt := parseAt_buildFrame .ack (length_ackPayload_le status message) []
    rw [List.append_nil] at hbuilt
    rw [hreceived, buildAck, hbuilt]
  have hne : (t.client path).received ≠ [] := by
    intro hnil
    rw [hnil, parseAt_nil] at hparse
    cases hparse
  cases hout with
  | cut _ _ hnil => exact absurd hnil hne
  | ended _ _ _ _ _ hnil => exact absurd hnil hne
  | waiting _ _ _ hscan =>
    rw [← client, hparse] at hscan
    cases hscan
  | unconfirmed _ _ _ hscan =>
    have hnone := hscan _ _ hparse rfl
    rw [parseAck_ackPayload] at hnone
    cases hnone
  | replied hexit _ _ hscan _ hack =>
    rw [← client, hparse] at hscan
    cases hscan
    rw [parseAck_ackPayload] at hack
    cases hack
    exact hexit

/-- **An undisturbed transfer**, in every state that the system reaches in which
the client, with a file of content `F`, has not been disturbed, its connection has
a session, and no file-system call of that has failed:

* the session has read a front part of what the client has sent, and the client
  sends its upload and nothing else, all of it once the socket has taken something
  often enough;
* however the upload is cut into reads and events, the session reads all that comes;
* what the client has received is what `read` has given it;
* once the session has read all of the upload, it has published one new file with
  the content `F` and has queued Ok with its name;
* that ACK goes out, all of it once the socket has taken something often enough;
* once the client has read all of that ACK, it has returned 0, and that it does
  however the ACK is cut. -/
theorem end_to_end (h : Server.Ready os₀ l g) (hreach : Reach path c config l g os₀ t) {F : Bytes}
    (hlen : F.length < 2 ^ 63) (hclient : Undisturbed F t.sys) {s : Session} (hs : s ∈ t.srv.all)
    (hconn : s.conn = c) (hok : ∀ call ∈ s.writer.log, call.ok = true) :
    s.hist.received <+: (t.client path).sent ∧
    (t.client path).sent <+: uploadBytes F.length (baseName path) (pieces F) ∧
    (t.sys.fileReads = pieces F →
      (uploadBytes F.length (baseName path) (pieces F)).length ≤ moves t.sys.sends →
      (t.client path).sent = uploadBytes F.length (baseName path) (pieces F)) ∧
    (∀ (sys : Sys) (events : BitVec 32) (reads : List ReadAnswer),
      sys.os = t.os → s ∈ t.srv.live → events &&& EPOLLIN ≠ 0 → (∀ a ∈ reads, a.more = true) →
      s.hist.received ++ given reads <+: uploadBytes F.length (baseName path) (pieces F) →
      (∀ call ∈ (s.handle sys events reads).2.1.writer.log, call.ok = true) →
      (s.handle sys events reads).2.1.hist.received = s.hist.received ++ given reads) ∧
    (∃ used, used <+: t.sys.reads ∧ (t.client path).received = stream used) ∧
    (s.hist.received = uploadBytes F.length (baseName path) (pieces F) →
      ∃ name i, s.hist.acks = [(.ok, name)] ∧
        s.writer.published = some (finalPath s.writer.dir name, i) ∧
        (∀ p, .link p none ∈ s.writer.log ↔ p = finalPath s.writer.dir name) ∧
        os₀.dir (finalPath s.writer.dir name) = none ∧
        (∀ p, t.os.dir p = some i ↔ p = finalPath s.writer.dir name) ∧ t.os.data i = F ∧
        (∀ (sys : Sys) (reads : List ReadAnswer), s.state = .sendingAck → Patient sys.sends →
          (buildAck .ok name).length ≤ moves sys.sends →
          (s.handle sys EPOLLOUT reads).2.1.hist.sent = buildAck .ok name) ∧
        ((t.client path).received = buildAck .ok name → t.exit path = some 0) ∧
        ∀ reads later, t.sys.reads = reads ++ later → (∀ a ∈ reads, a.more = true) →
          stream reads = buildAck .ok name → t.exit path = some 0) := by
  have hlast := (Server.reach_good h hreach.spec.1).disk.lasting s hs
  have hpieces : ∀ d ∈ pieces F, d.length ≤ MAX_PAYLOAD := by
    have hreads : pieces F <+: (pieces F).map (List.take CHUNK_SIZE) := by rw [take_pieces]
    exact length_le_of_reads hreads
  have hflat := flatten_pieces F
  refine ⟨hreach.spec.2.toServer s hs hconn, sent_front path hclient hlen,
    sent_all path hclient hlen, fun sys events reads hos hs hin hmore hfront hcalls => ?_,
    sendFile_received path t.sys, fun hall => ?_⟩
  · have hlisted := Server.listed h hreach.spec.1 hs
    exact Session.receives_upload (hos ▸ hlisted.sound) hlisted.live hlast.tracks (by omega) hpieces
      (by rw [hflat]) hin hmore hfront hcalls
  obtain ⟨ds, -, hout⟩ := sendFile_outcome path t.sys
  -- the session has come to what the grammar says of the upload
  have hv : Verdict s.hist.received .ok (some F) := by
    rw [hall]
    exact (verdict_uploadBytes (by omega) hpieces).mpr ⟨by rw [hflat], by rw [hflat]⟩
  have hup := Session.upload_eq_ofStream hlast.account hlast.quiet hlast.tracks hok
  rw [ofStream_of_verdict hv] at hup
  obtain ⟨name, hacks⟩ := hlast.account.acks_iff.mpr ⟨_, hup⟩
  have hans := hlast.account.answered_of_mem (hacks ▸ List.mem_singleton.mpr rfl)
  obtain ⟨i, hfile⟩ := hans.file rfl
  have hdata : s.hist.accepted = F := by
    rw [hans.upload] at hup
    cases hup
    rfl
  -- all of it is out, so the client is at its ACK
  have hsent : (t.client path).sent = uploadBytes F.length (baseName path) (pieces F) := by
    refine (sent_front path hclient hlen).eq_of_length_le ?_
    rw [← hall]
    exact (hreach.spec.2.toServer s hs hconn).length_le
  have hhears := hears_of_sent path hclient hlen hsent
  refine ⟨name, i, hacks, hfile.published, fun p => ?_, ?_, hfile.entry, ?_,
    fun sys reads hsending hpatient hmoves =>
      Session.handle_patient hans hsending hpatient hmoves reads,
    fun hreceived => by rw [exit_of_ack hout hreceived, if_pos rfl],
    fun reads later hreads hmore hstream => ?_⟩
  · rw [hlast.calls.published, hfile.published]
    simp [eq_comm]
  · exact Server.published_new h hreach.spec.1 hs hfile.published
  · rw [hfile.data, hdata]
  · rw [hreads] at hhears
    exact hhears.exit_of_ack hmore hstream

end Run

/-! ### A run -/

/-- A server that has accepted one connection. -/
def accepted : Server × Os :=
  (Server.create { outDir := str "in", idleTimeout := 30, maxSessions := 2 } 3 4).acceptConnections
    (Server.registered (Server.bare 1 3 4) 3 4) [{ fd := 5, now := 0 }]

/-- Whatever its client has sent, its session has read nothing of that yet, and nothing has come
back. -/
theorem accepted_reach (path : Bytes) (sys : ClientSys) {size : ℤ} (htellg : sys.tellg = some size)
    (hseek : sys.seekFault = false) (hconnect : sys.connectFault = none) (hreads : sys.reads = []) :
    Reach path 0 { outDir := str "in", idleTimeout := 30, maxSessions := 2 } 3 4
      (Server.bare 1 3 4) ⟨sys, accepted.1, accepted.2⟩ := by
  have hnew : ∀ s ∈ accepted.1.all, s.hist.received = [] := by decide +kernel
  have horder : ∀ sys : ClientSys, sys.reads = [] →
      InOrder path 0 ⟨sys, accepted.1, accepted.2⟩ := by
    refine fun sys hreads => ⟨fun s hs _ => ?_, .inl (not_received hreads)⟩
    rw [hnew s hs]
    exact List.nil_prefix
  have haccept := Server.Step.accept
    (Server.create { outDir := str "in", idleTimeout := 30, maxSessions := 2 } 3 4)
    (Server.registered (Server.bare 1 3 4) 3 4) [{ fd := 5, now := 0 }] rfl
  have hunanswered := sendFile_unanswered path { tellg := some size } rfl rfl rfl rfl
  refine ⟨some size, false, none, .tail (.single (.server _ _ _ haccept (horder _ rfl)))
    (.client _ sys hunanswered.1 ?_ (horder sys hreads))⟩
  exact ⟨htellg, hseek, hconnect, List.nil_prefix, List.nil_prefix, List.nil_prefix⟩

/-- A client sends a file of three bytes, with a short write and an interrupted
one; the session reads the upload in two parts, and the client the ACK. -/
theorem three_bytes_reach :
    ∃ (t : Transfer) (s : Session),
      Reach (str "/tmp/a.txt") 0 { outDir := str "in", idleTimeout := 30, maxSessions := 2 } 3 4
        (Server.bare 1 3 4) t ∧
      s ∈ t.srv.all ∧ s.conn = 0 ∧ (∀ call ∈ s.writer.log, call.ok = true) ∧
      Undisturbed [1#8, 2#8, 3#8] t.sys ∧ t.exit (str "/tmp/a.txt") = some 0 ∧
      s.hist.received =
        uploadBytes 3 (baseName (str "/tmp/a.txt")) (pieces [1#8, 2#8, 3#8]) ∧
      s.hist.acks = [(.ok, str "20240101_000000.hex")] ∧
      t.sys.reads =
        [.bytes ((buildAck .ok (str "20240101_000000.hex")).take 7), .eintr,
          .bytes ((buildAck .ok (str "20240101_000000.hex")).drop 7)] := by
  obtain ⟨sys₁, hsys₁⟩ : ∃ sys : ClientSys, sys =
      { tellg := some 3
        fileReads := [[1#8, 2#8, 3#8]]
        sends := [.took 10, .eintr, .took 1000, .took 1000, .took 1000] } := ⟨_, rfl⟩
  obtain ⟨sys₂, hsys₂⟩ : ∃ sys : ClientSys, sys =
      { sys₁ with
        reads :=
          [.bytes ((buildAck .ok (str "20240101_000000.hex")).take 7), .eintr,
            .bytes ((buildAck .ok (str "20240101_000000.hex")).drop 7)] } := ⟨_, rfl⟩
  have hevent := Server.Step.event accepted.1
    { os := accepted.2
      sends := [.took 1000]
      writes := [.took 3]
      openAnswer := .fd 6
      localTime := { year := 2024, mon := 0, mday := 1, hour := 0, min := 0, sec := 0 }
      now := 1 }
    { fd := 5
      events := EPOLLIN
      reads :=
        [.bytes ((uploadBytes 3 (str "a.txt") [[1#8, 2#8, 3#8]]).take 40),
          .bytes ((uploadBytes 3 (str "a.txt") [[1#8, 2#8, 3#8]]).drop 40)] }
    rfl (by decide) (by decide)
  generalize h₂ : Server.handleSession _ _ _ = r₂ at hevent
  have hreach := accepted_reach (str "/tmp/a.txt") sys₁ (by rw [hsys₁]) (by rw [hsys₁])
    (by rw [hsys₁]) (by rw [hsys₁])
  have hstep₁ : Step (str "/tmp/a.txt") 0 ⟨sys₁, accepted.1, accepted.2⟩ ⟨sys₁, r₂.1, r₂.2⟩ := by
    refine .server _ r₂.1 r₂.2 ?_ ⟨?_, .inl ?_⟩
    · exact hevent
    · rw [← h₂, hsys₁]
      decide +kernel
    · rw [← h₂, hsys₁]
      decide +kernel
  have hstep₂ : Step (str "/tmp/a.txt") 0 ⟨sys₁, r₂.1, r₂.2⟩ ⟨sys₂, r₂.1, r₂.2⟩ := by
    refine .client _ sys₂ ?_ ?_ ⟨?_, .inr (.inl ?_)⟩
    · show (sendFile (str "/tmp/a.txt") sys₁).1 = none
      rw [hsys₁]
      decide +kernel
    · rw [hsys₂, hsys₁]
      exact ⟨rfl, rfl, rfl, List.prefix_refl _, List.prefix_refl _, List.nil_prefix⟩
    · rw [← h₂, hsys₂, hsys₁]
      decide +kernel
    · rw [← h₂, hsys₂, hsys₁]
      decide +kernel
  have hsession : ∃ s ∈ r₂.1.all, s.conn = 0 ∧ (∀ call ∈ s.writer.log, call.ok = true) ∧
      s.hist.received = uploadBytes 3 (baseName (str "/tmp/a.txt")) (pieces [1#8, 2#8, 3#8]) ∧
      s.hist.acks = [(.ok, str "20240101_000000.hex")] := by
    rw [← h₂]
    decide +kernel
  have hundisturbed : Undisturbed [1#8, 2#8, 3#8] sys₂ := by
    rw [hsys₂, hsys₁]
    refine ⟨rfl, rfl, rfl, by decide +kernel, ?_⟩
    rw [Patient]
    simp
  obtain ⟨s, hs, hconn, hok, hreceived, hacks⟩ := hsession
  refine ⟨⟨sys₂, r₂.1, r₂.2⟩, s, hreach.steps ((Relation.ReflTransGen.single hstep₁).tail hstep₂),
    hs, hconn, hok, hundisturbed, ?_, hreceived, hacks, by rw [hsys₂]⟩
  show (sendFile (str "/tmp/a.txt") sys₂).1 = some 0
  rw [hsys₂, hsys₁]
  decide +kernel

theorem agreement_three_bytes :
    ∃ (t : Transfer) (s : Session),
      Reach (str "/tmp/a.txt") 0 { outDir := str "in", idleTimeout := 30, maxSessions := 2 } 3 4
        (Server.bare 1 3 4) t ∧
      s ∈ t.srv.all ∧ ∃ fileSize ds name i,
        (t.client (str "/tmp/a.txt")).sent = uploadBytes fileSize (baseName (str "/tmp/a.txt")) ds ∧
        s.writer.published = some (finalPath s.writer.dir name, i) ∧ t.os.data i = ds.flatten := by
  obtain ⟨t, s, hreach, hs, hconn, -, -, hexit, -⟩ := three_bytes_reach
  obtain ⟨s', hs', -, fileSize, ds, name, i, hsent, -, hpub, -, hdata, -⟩ :=
    (agreement (Server.ready_bare 1 3 4) hreach).1 hexit
  exact ⟨t, s', hreach, hs', fileSize, ds, name, i, hsent, hpub, hdata⟩

theorem end_to_end_three_bytes :
    ∃ (t : Transfer) (s : Session),
      Reach (str "/tmp/a.txt") 0 { outDir := str "in", idleTimeout := 30, maxSessions := 2 } 3 4
        (Server.bare 1 3 4) t ∧
      s ∈ t.srv.all ∧ ∃ name i, s.hist.acks = [(.ok, name)] ∧
        t.os.dir (finalPath s.writer.dir name) = some i ∧ t.os.data i = [1#8, 2#8, 3#8] ∧
        t.exit (str "/tmp/a.txt") = some 0 := by
  obtain ⟨t, s, hreach, hs, hconn, hok, hclient, -, hall, hack, hreads⟩ := three_bytes_reach
  obtain ⟨-, -, -, -, -, hdone⟩ :=
    end_to_end (Server.ready_bare 1 3 4) hreach (by decide) hclient hs hconn hok
  obtain ⟨name, i, hacks, -, -, -, hdir, hdata, -, -, hreturns⟩ := hdone hall
  rw [hack] at hacks
  cases hacks
  exact ⟨t, s, hreach, hs, _, i, hack, (hdir _).mpr rfl, hdata,
    hreturns _ [] (by rw [hreads, List.append_nil]) (by decide +kernel) (by decide +kernel)⟩

end Transfer

end Nexus
