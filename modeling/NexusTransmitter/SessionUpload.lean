/-
The session and the upload grammar.

However its input is cut into reads, a session does what one fold over the whole
stream says: what it has come to (`Session.upload`) is `Upload.ofStream` of all
the bytes it received, as long as the disk does what it is told
(`upload_eq_ofStream`). The simulation behind it is `Tracks`: the bytes received
are the frames taken so far with what the parser has not read yet.

* `accepts_upload_grammar` — it answers each status on exactly the streams to
  which the grammar gives that status, and it publishes exactly the accepted
  payloads.
-/
import NexusTransmitter.SessionRun

open StreamDecoder Nexus.Upload Nexus.FrameParser

namespace Nexus.Session

/-- What a session has come to. -/
def upload (s : Session) : Upload :=
  match s.hist.acks with
  | (status, _) :: _ => .answered status (if status = .ok then some s.hist.accepted else none)
  | [] => if s.helloReceived then .body s.expectedSize s.hist.accepted else .start

section Upload

variable {s s' : Session} {os os' : Os}

theorem Waiting.upload (h : s.Waiting) : s.upload = .start := by
  rw [Session.upload, h.acks]
  simp [h.hello]

theorem Body.upload {fd i : ℕ} (h : s.Body os fd i) :
    s.upload = .body s.expectedSize s.hist.accepted := by
  rw [Session.upload, h.acks]
  simp [h.hello]

theorem Answered.upload {status : Status} {message : Bytes} (h : s.Answered os status message) :
    s.upload = .answered status (if status = .ok then some s.hist.accepted else none) := by
  rw [Session.upload, h.acks]

theorem Silent.not_answered (h : s.Silent) : ¬ s.upload.Answered := by
  rw [Session.upload, h.acks]
  cases s.helloReceived <;> exact not_false

/-- A frame that a session refuses is one the fold refuses, with the same
status. -/
theorem Refuses.frame {f : Frame} {status : Status} (h : s.Refuses (some f) status)
    (hr : s.Receiving os) : s.upload.frame f = .answered status none := by
  cases hr with
  | waiting hw =>
    rw [hw.upload, frame_start_answered]
    cases h with
    | secondHello ht hh => rw [hw.hello] at hh; cases hh
    | badHello ht hh hp => exact ⟨.inr hp, rfl, rfl⟩
    | dataFirst ht hh => exact ⟨.inl (by rw [ht]; simp), rfl, rfl⟩
    | endFirst ht hh => exact ⟨.inl (by rw [ht]; simp), rfl, rfl⟩
    | ack ht => exact ⟨.inl (by rw [ht]; simp), rfl, rfl⟩
    | tooMuch ht hh => rw [hw.hello] at hh; cases hh
    | badEnd ht hh => rw [hw.hello] at hh; cases hh
    | short ht hh => rw [hw.hello] at hh; cases hh
    | badCrc ht hh => rw [hw.hello] at hh; cases hh
  | body hb =>
    rw [hb.upload, frame_body_answered]
    cases h with
    | secondHello ht hh => exact .inr (.inr (.inr (.inr ⟨.inl ht, rfl, rfl⟩)))
    | badHello ht hh => rw [hb.hello] at hh; cases hh
    | dataFirst ht hh => rw [hb.hello] at hh; cases hh
    | endFirst ht hh => rw [hb.hello] at hh; cases hh
    | ack ht => exact .inr (.inr (.inr (.inr ⟨.inr (.inl ht), rfl, rfl⟩)))
    | tooMuch ht hh hlt =>
      refine .inr (.inl ⟨ht, ?_, rfl, rfl⟩)
      rw [← hb.received]
      exact Nat.lt_of_lt_of_le hlt (Nat.mod_le _ _)
    | badEnd ht hh hp => exact .inr (.inr (.inr (.inr ⟨.inr (.inr ⟨ht, hp⟩), rfl, rfl⟩)))
    | short ht hh hp hne =>
      rw [hb.received] at hne
      exact .inr (.inr (.inl ⟨_, ht, hp, hne, rfl, rfl⟩))
    | badCrc ht hh hp heq hne =>
      rw [hb.received] at heq
      rw [hb.crc] at hne
      exact .inr (.inr (.inr (.inl ⟨_, ht, hp, heq, fun hc => hne hc.symm, rfl, rfl⟩)))

/-! ### The simulation -/

/-- How the bytes received, the frames taken and the verdict belong together:
without a verdict the rest of the bytes is in the parser, and the fold over the
frames has come as far as the session; with a verdict the fold has it too,
unless the rest is no frame or the disk failed. -/
inductive Follows (s : Session) (rest : Bytes) : Prop
  | silent (hacks : s.hist.acks = []) (hrest : rest = s.parser.unread)
      (hfold : s.hist.frames.foldl frame Upload.start = s.upload)
  | decided (hacks : s.hist.acks ≠ []) (hfold : s.hist.frames.foldl frame Upload.start = s.upload)
  | unparsable {e : Bytes} (hacks : s.hist.acks ≠ []) (herror : parseAt rest = .error e)
      (hfold : ¬ (s.hist.frames.foldl frame Upload.start).Answered)
      (hupload : s.upload = .answered .protocolError none)
  | diskFailed (hacks : s.hist.acks ≠ []) (hupload : s.upload = .answered .ioError none)
      (hbad : ∃ c ∈ s.writer.log, c.ok = false)

structure Tracks (s : Session) : Prop where
  valid : Valid s.hist.frames
  follows : ∃ rest, s.hist.received = encodeFrames s.hist.frames ++ rest ∧ s.Follows rest

theorem create_tracks (id fd conn : ℕ) (outDir : Bytes) (now : ℤ) :
    (create id fd conn outDir now).Tracks :=
  { valid := fun _ h => absurd h List.not_mem_nil
    follows := ⟨[], rfl, .silent rfl rfl rfl⟩ }

theorem Receiving.follows {rest : Bytes} (hr : s.Receiving os) (h : s.Follows rest) :
    rest = s.parser.unread ∧ s.hist.frames.foldl frame Upload.start = s.upload := by
  cases h with
  | silent hacks hrest hfold => exact ⟨hrest, hfold⟩
  | decided hacks => exact absurd hr.silent.acks hacks
  | unparsable hacks => exact absurd hr.silent.acks hacks
  | diskFailed hacks => exact absurd hr.silent.acks hacks

/-- A frame taken from the parser: its bytes move from the rest to the frames. -/
theorem Tracks.take (h : s.Tracks) (hr : s.Receiving os) {f : Frame} {p : FrameParser}
    (hnext : s.parser.next = (.ready f, p)) :
    Valid (s.hist.frames ++ [f]) ∧
      s.hist.received = encodeFrames (s.hist.frames ++ [f]) ++ p.unread ∧
      (s.hist.frames ++ [f]).foldl frame Upload.start = s.upload.frame f := by
  obtain ⟨rest, hrec, hf⟩ := h.follows
  obtain ⟨rfl, hfold⟩ := hr.follows hf
  obtain ⟨hunread, hlen⟩ := unread_eq_of_ready hnext
  refine ⟨fun g hg => ?_, ?_, by rw [List.foldl_append, hfold]; rfl⟩
  · rcases List.mem_append.mp hg with hg | hg
    · exact h.valid g hg
    · rw [List.mem_singleton.mp hg]
      exact hlen
  · rw [hrec, hunread]
    simp [encodeFrames]

theorem Body.not_much {fd i : ℕ} (hb : s.Body os fd i) {f : Frame} (htype : f.type = .data)
    (hsize : s.hist.accepted.length + f.data.length ≤ s.expectedSize) :
    s.upload.frame f = .body s.expectedSize (s.hist.accepted ++ f.data) := by
  rw [hb.upload]
  exact frame_body.mpr ⟨htype, rfl, rfl, hsize⟩

theorem Tracks.receive (h : s.Tracks) (hinv : s.Inv os) (hlive : s.terminated = false)
    (bs : Bytes) (now : ℤ) : (s.receive bs now).Tracks := by
  obtain ⟨rest, hrec, hf⟩ := h.follows
  refine ⟨h.valid, rest ++ bs, ?_, ?_⟩
  · show s.hist.received ++ bs = encodeFrames s.hist.frames ++ (rest ++ bs)
    rw [hrec, List.append_assoc]
  by_cases hs : s.state = .receiving
  · obtain ⟨rfl, hfold⟩ := (hinv.receiving hlive hs).follows hf
    refine .silent (hinv.receiving hlive hs).silent.acks ?_ hfold
    simp [Session.receive, hs]
  · cases hf with
    | silent hacks =>
      obtain ⟨status, message, hans⟩ := hinv.account.answered_of_state hs
      rw [hans.acks] at hacks
      cases hacks
    | decided hacks hfold => exact .decided hacks hfold
    | unparsable hacks herror hfold hupload =>
      exact .unparsable hacks (frameDecoder.error_append bs herror) hfold hupload
    | diskFailed hacks hupload hbad => exact .diskFailed hacks hupload hbad

/-- What is refused moves to the frames, or is no frame. -/
theorem Tracks.refuse (h : s.Tracks) (hr : s.Receiving os) {f : Option Frame}
    (hnext : s.Next f) :
    Valid (s.hist.frames ++ f.toList) ∧ ∃ rest,
      s.hist.received = encodeFrames (s.hist.frames ++ f.toList) ++ rest ∧
      ((∃ g, f = some g ∧
          (s.hist.frames ++ f.toList).foldl frame Upload.start = s.upload.frame g) ∨
        (f = none ∧ (∃ e, parseAt rest = .error e) ∧
          ¬ ((s.hist.frames ++ f.toList).foldl frame Upload.start).Answered)) := by
  cases f with
  | some f =>
    obtain ⟨hvalid, hrec, hfold⟩ := h.take hr (p := s.parser.next.2) (Prod.ext hnext rfl)
    exact ⟨hvalid, _, hrec, .inl ⟨f, rfl, hfold⟩⟩
  | none =>
    obtain ⟨rest, hrec, hf⟩ := h.follows
    obtain ⟨rfl, hfold⟩ := hr.follows hf
    obtain ⟨e, he⟩ := hnext
    rw [Option.toList_none, List.append_nil]
    refine ⟨h.valid, _, hrec, .inr ⟨rfl, ⟨e, ?_⟩, ?_⟩⟩
    · exact (next_error (q := s.parser.next.2) (Prod.ext he rfl)).1
    · rw [hfold]
      exact hr.silent.not_answered

theorem Tracks.refused (h : s.Tracks) (hr : s.Receiving os) {f : Option Frame} {s₁ : Session}
    {w : FileWriter} {status : Status} (hnext : s.Next f) (hkept : s.Kept f s₁)
    (hdrop : FileWriter.Dropped s.writer os w os')
    (hwhy : s.Refuses f status ∨ (status = .ioError ∧ ∃ c ∈ w.log, c.ok = false))
    (line : LogLine) (message : Bytes) :
    ((({ s₁ with writer := w } : Session).log line).queueAck status message).Tracks := by
  have hne : status ≠ .ok := by
    rcases hwhy with hwhy | ⟨rfl, -⟩
    · exact hwhy.status_ne
    · simp
  have hans : ((({ s₁ with writer := w } : Session).log line).queueAck status message).Answered os'
      status message := hr.silent.refused hkept hdrop hne line message
  have hup := hans.upload
  rw [if_neg hne] at hup
  have hacks := hans.acks
  obtain ⟨hvalid, rest, hrec, hcase⟩ := h.refuse hr hnext
  rw [← hkept.frames] at hvalid hrec hcase
  rw [← hkept.received] at hrec
  refine ⟨hvalid, rest, hrec, ?_⟩
  rcases hwhy with hwhy | ⟨rfl, hbad⟩
  · rcases hcase with ⟨g, rfl, hfold⟩ | ⟨rfl, ⟨e, he⟩, hfold⟩
    · exact .decided (by rw [hacks]; simp) (hfold.trans ((hwhy.frame hr).trans hup.symm))
    · cases hwhy
      exact .unparsable (by rw [hacks]; simp) he hfold hup
  · exact .diskFailed (by rw [hacks]; simp) hup hbad

/-- Nothing the simulation is about has changed. -/
theorem Tracks.congr (h : s.Tracks) (hreceived : s'.hist.received = s.hist.received)
    (hframes : s'.hist.frames = s.hist.frames) (hacks : s'.hist.acks = s.hist.acks)
    (hparser : s'.parser = s.parser) (hupload : s'.upload = s.upload)
    (hlog : ∀ c ∈ s.writer.log, c ∈ s'.writer.log) : s'.Tracks := by
  obtain ⟨rest, hrec, hf⟩ := h.follows
  refine ⟨by rw [hframes]; exact h.valid, rest, by rw [hreceived, hframes, hrec], ?_⟩
  cases hf with
  | silent ha hrest hfold =>
    exact .silent (hacks.trans ha) (by rw [hparser]; exact hrest) (by rw [hframes, hupload, hfold])
  | decided ha hfold => exact .decided (by rw [hacks]; exact ha) (by rw [hframes, hupload, hfold])
  | unparsable ha herror hfold hup =>
    exact .unparsable (by rw [hacks]; exact ha) herror (by rw [hframes]; exact hfold)
      (hupload.trans hup)
  | diskFailed ha hup hbad =>
    obtain ⟨c, hc, hno⟩ := hbad
    exact .diskFailed (by rw [hacks]; exact ha) (hupload.trans hup) ⟨c, hlog c hc, hno⟩

/-- **The step lemma of the simulation.** -/
theorem Step.tracks (hstep : Step s os s' os') (hinv : s.Inv os) (h : s.Tracks) : s'.Tracks := by
  cases hstep with
  | receive bs now live => exact h.receive hinv live bs now
  | @started f p hello w os' fd line hw hnext htype hhello hopen =>
    obtain ⟨hvalid, hrec, hfold⟩ := h.take (.waiting hw : s.Receiving os) hnext
    refine ⟨hvalid, p.unread, hrec, .silent hw.acks rfl (hfold.trans ?_)⟩
    rw [hw.upload, (hw.started htype p (parseHello_fileSize_lt hhello) hopen line).upload]
    refine frame_start.mpr ⟨htype, ?_, hello.name, hhello⟩
    exact hw.accepted
  | @stored f p fd i calls hb hnext htype hsize hmax hcalls =>
    obtain ⟨hvalid, hrec, hfold⟩ := h.take (.body hb) hnext
    refine ⟨hvalid, p.unread, hrec, .silent hb.acks rfl (hfold.trans ?_)⟩
    rw [hb.not_much htype hsize, (hb.stored htype p hsize hmax (s.writer.log ++ calls)).upload]
    rfl
  | @published f p fd i w os' name hb hnext htype hcrc hsize hpub =>
    obtain ⟨hvalid, hrec, hfold⟩ := h.take (.body hb) hnext
    have hans := hb.published_file htype p hsize hpub
    refine ⟨hvalid, p.unread, hrec, .decided (by rw [hans.acks]; simp) (hfold.trans ?_)⟩
    rw [hans.upload, hb.upload]
    exact frame_body_answered.mpr (.inl ⟨htype, hcrc, hsize, rfl, rfl⟩)
  | @refused s₁ f w os' line status message hr hnext hkept hdrop hwhy =>
    exact h.refused hr hnext hkept hdrop hwhy line message
  | sent n now live hs hn => exact h.congr rfl rfl rfl rfl rfl fun _ hc => hc
  | drained now live hs hout => exact h.congr rfl rfl rfl rfl rfl fun _ hc => hc
  | line line live => exact h.congr rfl rfl rfl rfl rfl fun _ hc => hc
  | @terminated w os' lines live hdrop =>
    exact h.congr rfl rfl rfl rfl rfl fun _ hc => hdrop.log.subset hc

theorem Steps.tracks {a b : Session × Os} (hsteps : Steps a b) (hinv : a.1.Inv a.2)
    (hwf : a.2.WF) (h : a.1.Tracks) : b.1.Tracks := by
  induction hsteps with
  | refl => exact h
  | tail hprev hstep ih => exact hstep.tracks (Steps.inv hprev hinv hwf).1 ih

theorem Call.tracks {a b : Session × Os} (hcall : Call a b) (hlive : a.1.terminated = false)
    (hs : a.1.Sound a.2) (h : a.1.Tracks) : b.1.Tracks := by
  cases hcall with
  | handle s sys events reads =>
    exact (handle_outcome rfl hs.inv hs.wf hlive hs.quiet).steps.tracks hs.inv hs.wf h
  | terminate s os reason => exact (terminate_step hs.inv hlive reason rfl).tracks hs.inv h
  | others ho => exact h

theorem Run.tracks {a b : Session × Os} (hrun : Run a b) (hs : a.1.Sound a.2) (h : a.1.Tracks) :
    b.1.Tracks := by
  induction hrun with
  | refl => exact h
  | tail hprev hcall ih => exact hcall.2.tracks hcall.1 (Run.sound hprev hs) ih

theorem Account.silent_iff (h : s.Account os) : s.hist.acks = [] ↔ s.state = .receiving := by
  cases h with
  | silent h => exact iff_of_true h.acks h.state
  | answered h => exact iff_of_false (by rw [h.acks]; simp) h.state_ne

/-- **The session does what the fold says**, when the disk does what it is
told. -/
theorem upload_eq_ofStream (h : s.Account os) (hquiet : s.Quiet) (ht : s.Tracks)
    (hok : ∀ c ∈ s.writer.log, c.ok = true) : s.upload = ofStream s.hist.received := by
  obtain ⟨rest, hrec, hf⟩ := ht.follows
  rw [hrec]
  cases hf with
  | silent hacks hrest hfold =>
    have hmore := hquiet.receiving (h.silent_iff.mp hacks)
    rw [hrest, ofStream_of_needMore ht.valid hmore, hfold]
  | decided hacks hfold =>
    obtain ⟨status, message, hans⟩ :=
      h.answered_of_state fun hs => hacks (h.silent_iff.mpr hs)
    have hup := hans.upload
    rw [hup, ofStream_of_answered ht.valid (hfold.trans hup)]
  | unparsable hacks herror hfold hup => rw [hup, ofStream_of_error ht.valid hfold herror]
  | diskFailed hacks hup hbad =>
    obtain ⟨c, hc, hno⟩ := hbad
    rw [hok c hc] at hno
    cases hno

/-- A session that has received enough for a verdict has one. -/
theorem acks_of_ofStream (h : s.Account os) (hquiet : s.Quiet) (ht : s.Tracks)
    (hans : (ofStream s.hist.received).Answered) : s.hist.acks ≠ [] := by
  intro hacks
  have hstate := h.silent_iff.mp hacks
  obtain ⟨rest, hrec, hf⟩ := ht.follows
  cases hf with
  | silent _ hrest hfold =>
    rw [hrec, hrest, ofStream_of_needMore ht.valid (hquiet.receiving hstate), hfold] at hans
    cases h with
    | silent h => exact h.not_answered hans
    | answered h => exact absurd hstate h.state_ne
  | decided hne => exact hne hacks
  | unparsable hne => exact hne hacks
  | diskFailed hne => exact hne hacks

/-- An Ok is the verdict on what was received, whatever the disk did. -/
theorem Tracks.verdict_ok (ht : s.Tracks) {message : Bytes} (h : s.Answered os .ok message) :
    Verdict s.hist.received .ok (some s.hist.accepted) := by
  obtain ⟨rest, hrec, hf⟩ := ht.follows
  have hup : s.upload = .answered .ok (some s.hist.accepted) := h.upload
  cases hf with
  | silent hacks =>
    rw [h.acks] at hacks
    cases hacks
  | decided hacks hfold => exact verdict_of_frames ht.valid hrec (hfold.trans hup)
  | unparsable hacks herror hfold hupload =>
    rw [hup] at hupload
    cases hupload
  | diskFailed hacks hupload hbad =>
    rw [hup] at hupload
    cases hupload

/-- The verdict, read off what the session has come to. -/
theorem Account.acks_iff (h : s.Account os) {status : Status} :
    (∃ message, s.hist.acks = [(status, message)]) ↔ ∃ file, s.upload = .answered status file := by
  constructor
  · rintro ⟨message, hacks⟩
    rw [Session.upload, hacks]
    exact ⟨_, rfl⟩
  · rintro ⟨file, hup⟩
    by_cases hs : s.state = .receiving
    · rw [Session.upload, h.silent_iff.mpr hs] at hup
      cases hh : s.helloReceived <;> simp [hh] at hup
    · obtain ⟨status', message, hans⟩ := h.answered_of_state hs
      rw [hans.upload] at hup
      cases hup
      exact ⟨message, hans.acks⟩

end Upload

/-- **The session accepts exactly the upload grammar.**  For every run in which
its file-system calls succeed, however the stream was cut into reads:

* it has come to what the fold over the whole stream says;
* it has answered a status exactly when the grammar gives the stream that
  status;
* it has published a file exactly when the status is Ok, the accepted payloads,
  under the name it answered; otherwise it has published nothing. -/
theorem accepts_upload_grammar {id fd conn : ℕ} {outDir : Bytes} {now : ℤ} {os₀ os : Os}
    {s : Session} (hwf : os₀.WF) (hrun : Run (create id fd conn outDir now, os₀) (s, os))
    (hok : ∀ c ∈ s.writer.log, c.ok = true) :
    s.upload = ofStream s.hist.received ∧
    (∀ status, (∃ message, s.hist.acks = [(status, message)]) ↔
      ∃ file, Verdict s.hist.received status file) ∧
    (∀ file, Verdict s.hist.received .ok file →
      ∃ name i payload, file = some payload ∧ s.hist.acks = [(.ok, name)] ∧
        s.writer.published = some (finalPath s.writer.dir name, i) ∧
        os.dir (finalPath s.writer.dir name) = some i ∧ os.data i = payload) ∧
    ((∀ file, ¬ Verdict s.hist.received .ok file) → s.writer.published = none) := by
  have hs : s.Sound os := hrun.sound (create_sound id fd conn outDir now hwf)
  have h : s.Account os := hs.inv.account
  have ht : s.Tracks :=
    hrun.tracks (create_sound id fd conn outDir now hwf) (create_tracks id fd conn outDir now)
  have hup : s.upload = ofStream s.hist.received := upload_eq_ofStream h hs.quiet ht hok
  have hverdict : ∀ status file, Verdict s.hist.received status file ↔
      s.upload = .answered status file := by
    intro status file
    rw [hup, ofStream_answered_iff]
  refine ⟨hup, fun status => ?_, fun file hv => ?_, fun hno => ?_⟩
  · rw [h.acks_iff]
    exact exists_congr fun file => (hverdict status file).symm
  · have hans' := (hverdict .ok file).mp hv
    obtain ⟨name, hacks⟩ := h.acks_iff.mpr ⟨file, hans'⟩
    have hst : s.state ≠ .receiving := by
      intro hs
      rw [h.silent_iff.mpr hs] at hacks
      cases hacks
    obtain ⟨status, message, hans⟩ := h.answered_of_state hst
    rw [hans.acks] at hacks
    cases hacks
    obtain ⟨i, hi⟩ := hans.file rfl
    rw [hans.upload] at hans'
    cases hans'
    exact ⟨name, i, _, rfl, hans.acks, hi.published, (hi.entry _).mpr rfl, hi.data⟩
  · by_contra hpub
    have hcompleted := h.completed_iff.mpr hpub
    have hst := (h.file_of_completed hcompleted).1
    obtain ⟨status, message, hans⟩ := h.answered_of_state hst
    obtain rfl := hans.completed.mp hcompleted
    exact hno _ ((hverdict .ok _).mpr hans.upload)

/-- The upload of three bytes, in two reads. -/
theorem accepts_upload_grammar_three_bytes :
    ∃ r : Bool × Session × Sys,
      (create 1 4 0 (str "in") 0).handle
          { os := .empty 1
            openAnswer := .fd 5
            writes := [.took 2, .took 1]
            localTime := { year := 2024, mon := 0, mday := 1, hour := 0, min := 0, sec := 0 }
            now := 1 } EPOLLIN
          [.bytes (buildHello 3 (str "a.txt") ++ [0x4E#8]),
            .bytes ((buildData [1#8, 2#8, 3#8]).tail ++ buildEnd (crc32 [1#8, 2#8, 3#8]))] = r ∧
      ∃ name i, r.2.1.hist.acks = [(.ok, name)] ∧
        r.2.2.os.dir (finalPath r.2.1.writer.dir name) = some i := by
  refine ⟨_, rfl, ?_⟩
  generalize hr : handle _ _ _ _ = r
  have hok : ∀ c ∈ r.2.1.writer.log, c.ok = true := by rw [← hr]; decide +kernel
  have hacks : r.2.1.hist.acks = [(.ok, str "20240101_000000.hex")] := by rw [← hr]; decide +kernel
  have hcall := Call.handle (create 1 4 0 (str "in") 0)
    { os := .empty 1
      openAnswer := .fd 5
      writes := [.took 2, .took 1]
      localTime := { year := 2024, mon := 0, mday := 1, hour := 0, min := 0, sec := 0 }
      now := 1 } EPOLLIN
    [.bytes (buildHello 3 (str "a.txt") ++ [0x4E#8]),
      .bytes ((buildData [1#8, 2#8, 3#8]).tail ++ buildEnd (crc32 [1#8, 2#8, 3#8]))]
  rw [hr] at hcall
  have h := accepts_upload_grammar (.empty 1) (.single ⟨rfl, hcall⟩) hok
  obtain ⟨file, hverdict⟩ := (h.2.1 .ok).mp ⟨_, hacks⟩
  obtain ⟨name, i, -, -, hname, -, hdir, -⟩ := h.2.2.1 file hverdict
  exact ⟨name, i, hname, hdir⟩

end Nexus.Session
