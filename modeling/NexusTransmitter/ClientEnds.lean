/-
Every run of the client ends.

Whatever the server does, and however the file changes while it is read, `sendFile` returns,
if no call is interrupted for ever: each round of its loop reads something, so there are at
most as many as the file has bytes; each `write` moves `writeAll` on or ends it; and `readAck`
ends with the first frame. What it returns does not depend on answers to calls that it does
not make any more.

* `sendFile_extend` — later answers change nothing;
* `sendFile_isSome` — how many answers are enough;
* `sendFile_returns` — the run ends.
-/
import NexusTransmitter.ReadAck
import NexusTransmitter.Transfer

open Schedule

namespace Nexus.Client

/-! ### Later answers -/

/-- There are more answers. -/
def extend (c : Client) (sends : List SendAnswer) (reads : List ReadAnswer) : Client :=
  { c with sends := c.sends ++ sends, reads := c.reads ++ reads }

section Extend

variable {c : Client} {data : Bytes} {parser : FrameParser} (S : List SendAnswer)
  (R : List ReadAnswer)

theorem writeLoop_extend {sends : List SendAnswer} {err : Bytes}
    (h : (c.writeLoop data sends).1 = some err) :
    (c.extend S R).writeLoop data (sends ++ S) =
      (some err, (c.writeLoop data sends).2.extend S R) := by
  fun_induction writeLoop c data sends with
  | case1 c sends =>
    cases h
    rw [writeLoop.eq_def, if_pos rfl]
    rfl
  | case2 c data hne => cases h
  | case3 c data hne n sends hpos ih =>
    rw [List.cons_append, writeLoop.eq_def, if_neg hne]
    dsimp only
    rw [if_pos hpos]
    exact ih h
  | case4 c data hne n sends hzero =>
    cases h
    rw [List.cons_append, writeLoop.eq_def, if_neg hne]
    dsimp only
    rw [if_neg hzero]
    rfl
  | case5 c data hne sends ih =>
    rw [List.cons_append, writeLoop.eq_def, if_neg hne]
    exact ih h
  | case6 c data hne sends =>
    cases h
    rw [List.cons_append, writeLoop.eq_def, if_neg hne]
    rfl
  | case7 c data hne text sends =>
    cases h
    rw [List.cons_append, writeLoop.eq_def, if_neg hne]
    rfl

theorem writeAll_extend {err : Bytes} (h : (c.writeAll data).1 = some err) :
    (c.extend S R).writeAll data = (some err, (c.writeAll data).2.extend S R) :=
  writeLoop_extend S R h

theorem readLoop_extend {reads : List ReadAnswer} {r : AckResult}
    (h : (c.readLoop parser reads).1 = some r) :
    (c.extend S R).readLoop parser (reads ++ R) =
      (some r, (c.readLoop parser reads).2.extend S R) := by
  fun_induction readLoop c parser reads with
  | case1 reads c parser e q hnext =>
    cases h
    rw [readLoop.eq_def, hnext]
    rfl
  | case2 reads c parser f q hnext =>
    cases h
    rw [readLoop.eq_def, hnext]
    rfl
  | case3 c parser q hnext => cases h
  | case4 c parser q hnext reads =>
    cases h
    rw [List.cons_append, readLoop.eq_def, hnext]
    rfl
  | case5 c parser q hnext b bs reads ih =>
    rw [List.cons_append, readLoop.eq_def, hnext]
    exact ih h
  | case6 c parser q hnext reads ih =>
    rw [List.cons_append, readLoop.eq_def, hnext]
    exact ih h
  | case7 c parser q hnext reads =>
    cases h
    rw [List.cons_append, readLoop.eq_def, hnext]
    rfl
  | case8 c parser q hnext text reads =>
    cases h
    rw [List.cons_append, readLoop.eq_def, hnext]
    rfl

theorem readAck_extend {r : AckResult} (h : c.readAck.1 = some r) :
    (c.extend S R).readAck = (some r, c.readAck.2.extend S R) :=
  readLoop_extend S R h

variable {path : Bytes} {fileSize sent : ℕ} {crc : Crc32} {code : ℕ}

theorem finish_extend (h : (c.finish fileSize crc).1 = some code) :
    (c.extend S R).finish fileSize crc = (some code, (c.finish fileSize crc).2.extend S R) := by
  rw [finish] at h
  rw [finish, finish]
  rcases hw : c.writeAll (buildEnd crc.value) with ⟨_ | err, c'⟩ <;> rw [hw] at h
  · cases h
  rw [writeAll_extend S R (by rw [hw]), hw]
  dsimp only at h ⊢
  by_cases herr : err = []
  swap
  · rw [if_pos herr] at h ⊢
    cases h
    rw [if_pos herr]
    rfl
  rw [if_neg (not_not.mpr herr)] at h
  rw [if_neg (not_not.mpr herr), if_neg (not_not.mpr herr)]
  rcases hr : c'.readAck with ⟨_ | ackResult, c''⟩ <;> rw [hr] at h
  · cases h
  rw [readAck_extend S R (by rw [hr]), hr]
  dsimp only at h ⊢
  split_ifs at h ⊢ <;> cases h <;> rfl

theorem sendBody_extend (later : List Bytes) {fileReads : List Bytes}
    (h : (c.sendBody path fileSize sent crc fileReads).1 = some code) :
    (c.extend S R).sendBody path fileSize sent crc (fileReads ++ later) =
      (some code, (c.sendBody path fileSize sent crc fileReads).2.extend S R) := by
  induction fileReads generalizing c sent crc with
  | nil =>
    rw [sendBody] at h
    rw [sendBody.eq_def, sendBody]
    by_cases hlt : sent < fileSize
    · rw [if_pos hlt] at h
      cases h
    · rw [if_neg hlt] at h ⊢
      rw [if_neg hlt]
      exact finish_extend S R h
  | cons read fileReads ih =>
    rw [sendBody] at h
    rw [List.cons_append, sendBody, sendBody]
    by_cases hlt : sent < fileSize
    swap
    · rw [if_neg hlt] at h ⊢
      rw [if_neg hlt]
      exact finish_extend S R h
    rw [if_pos hlt] at h ⊢
    rw [if_pos hlt]
    dsimp only at h ⊢
    by_cases hempty : (read.take CHUNK_SIZE).length ≤ 0
    · rw [if_pos hempty] at h ⊢
      cases h
      rw [if_pos hempty]
      rfl
    rw [if_neg hempty] at h ⊢
    rw [if_neg hempty]
    rcases hw : c.writeAll (buildData (read.take CHUNK_SIZE)) with ⟨_ | err, c'⟩ <;> rw [hw] at h
    · cases h
    rw [writeAll_extend S R (by rw [hw]), hw]
    dsimp only at h ⊢
    by_cases herr : err = []
    · rw [if_neg (not_not.mpr herr)] at h
      rw [if_neg (not_not.mpr herr), if_neg (not_not.mpr herr)]
      exact ih h
    · rw [if_pos herr] at h ⊢
      cases h
      rw [if_pos herr]
      rfl

/-- **Later answers change nothing**: a run that has returned is as it was. -/
theorem sendFile_extend {sys sys' : ClientSys} (hgrows : sys.Grows sys')
    (herrno : sys'.errno = sys.errno) (h : (sendFile path sys).1 = some code) :
    ∃ S R, sendFile path sys' = (some code, (sendFile path sys).2.extend S R) := by
  obtain ⟨htellg, hseek, hconnect, ⟨later, hlater⟩, ⟨S, hsends⟩, ⟨R, hreads⟩⟩ := hgrows
  refine ⟨S, R, ?_⟩
  rw [sendFile] at h
  rw [sendFile, sendFile, htellg, hseek, hconnect, herrno, ← hlater, ← hsends, ← hreads]
  cases htell : sys.tellg with
  | none =>
    rw [htell] at h
    cases h
    rfl
  | some tellg =>
  rw [htell] at h
  dsimp only at h ⊢
  by_cases hfault : sys.seekFault = true
  · rw [if_pos hfault] at h ⊢
    cases h
    rw [if_pos hfault]
    rfl
  rw [if_neg hfault] at h ⊢
  rw [if_neg hfault]
  cases hconn : sys.connectFault with
  | some connErr =>
    rw [hconn] at h
    cases h
    rfl
  | none =>
  rw [hconn] at h
  dsimp only at h ⊢
  -- the client after its first line
  obtain ⟨c, hc⟩ : ∃ c : Client,
      ({ sends := sys.sends, reads := sys.reads, errno := sys.errno } : Client).log
        (.started (baseName path) (tellg % 2 ^ 64).toNat) = c := ⟨_, rfl⟩
  have hext :
      ({ sends := sys.sends ++ S, reads := sys.reads ++ R, errno := sys.errno } : Client).log
        (.started (baseName path) (tellg % 2 ^ 64).toNat) = c.extend S R := by rw [← hc]; rfl
  rw [hc] at h ⊢
  rw [hext]
  rcases hw : c.writeAll (buildHello (tellg % 2 ^ 64).toNat (baseName path)) with ⟨_ | err, c'⟩ <;>
    rw [hw] at h
  · cases h
  rw [writeAll_extend S R (by rw [hw]), hw]
  dsimp only at h ⊢
  by_cases herr : err = []
  · rw [if_neg (not_not.mpr herr)] at h
    rw [if_neg (not_not.mpr herr), if_neg (not_not.mpr herr)]
    exact sendBody_extend S R later h
  · rw [if_pos herr] at h ⊢
    cases h
    rw [if_pos herr]
    rfl

end Extend

/-! ### Enough answers -/

section Enough

variable {c : Client} {data : Bytes} {path : Bytes} {fileSize sent : ℕ} {crc : Crc32}

/-- The largest frame. -/
def MAX_FRAME : ℕ := HEADER_SIZE + MAX_PAYLOAD + TRAILER_SIZE

/-- Each `write` that is not interrupted moves the loop on by a byte, or ends it. -/
theorem writeLoop_isSome {sends : List SendAnswer} (h : data.length ≤ moves sends) :
    (c.writeLoop data sends).1.isSome ∧ ((c.writeLoop data sends).1 = some [] →
      moves sends ≤ moves (c.writeLoop data sends).2.sends + data.length) := by
  fun_induction writeLoop c data sends with
  | case1 c sends => exact ⟨rfl, fun _ => Nat.le_refl _⟩
  | case2 c data hne =>
    have hpos := List.length_pos_of_ne_nil hne
    have hzero : moves [] = 0 := rfl
    omega
  | case3 c data hne n sends hpos ih =>
    have hmoves : moves (.took n :: sends) = moves sends + 1 := List.countP_cons_of_pos (by simp)
    rw [List.length_drop] at ih
    obtain ⟨hsome, hleft⟩ := ih (by omega)
    exact ⟨hsome, fun hall => by have := hleft hall; omega⟩
  | case4 c data hne n sends hzero => exact ⟨rfl, by simp⟩
  | case5 c data hne sends ih =>
    have hmoves : moves (.eintr :: sends) = moves sends := List.countP_cons_of_neg (by simp)
    rw [hmoves] at h ⊢
    exact ih h
  | case6 c data hne sends => exact ⟨rfl, by simp⟩
  | case7 c data hne text sends => exact ⟨rfl, by simp⟩

theorem length_frame_le (type : FrameType) {payload : Bytes} (h : payload.length ≤ MAX_PAYLOAD) :
    (buildFrame type payload).length ≤ MAX_FRAME := by
  rw [length_buildFrame, MAX_FRAME]
  omega

theorem writeAll_isSome (hlen : data.length ≤ MAX_FRAME) {k : ℕ}
    (hmoves : k + MAX_FRAME ≤ moves c.sends) :
    ∃ err c', c.writeAll data = (some err, c') ∧ c'.reads = c.reads ∧
      (err = [] → k ≤ moves c'.sends) := by
  obtain ⟨p, q, hw⟩ := c.writeAll_spec data
  have henough : data.length ≤ moves c.sends := by omega
  obtain ⟨hsome, hleft⟩ := writeLoop_isSome (c := c) henough
  rw [← writeAll] at hsome hleft
  obtain ⟨err, herr⟩ := Option.isSome_iff_exists.mp hsome
  refine ⟨err, (c.writeAll data).2, Prod.ext herr rfl, hw.reads, ?_⟩
  rintro rfl
  have hle := hleft herr
  show k ≤ moves (c.writeAll data).2.sends
  omega

/-- The result is a matter of the answers alone. -/
theorem readLoop_congr (c' : Client) {parser : FrameParser} {reads : List ReadAnswer} :
    (c'.readLoop parser reads).1 = (c.readLoop parser reads).1 := by
  fun_induction readLoop c parser reads generalizing c' with
  | case1 reads c parser e q hnext => rw [readLoop.eq_def, hnext]
  | case2 reads c parser f q hnext => rw [readLoop.eq_def, hnext]
  | case3 c parser q hnext => rw [readLoop.eq_def, hnext]
  | case4 c parser q hnext reads => rw [readLoop.eq_def, hnext]
  | case5 c parser q hnext b bs reads ih =>
    rw [readLoop.eq_def, hnext]
    exact ih _
  | case6 c parser q hnext reads ih =>
    rw [readLoop.eq_def, hnext]
    exact ih _
  | case7 c parser q hnext reads => rw [readLoop.eq_def, hnext]
  | case8 c parser q hnext text reads => rw [readLoop.eq_def, hnext]

theorem finish_isSome (hmoves : MAX_FRAME ≤ moves c.sends)
    (hreads : (c.readLoop .fresh c.reads).1.isSome) : (c.finish fileSize crc).1.isSome := by
  have hlen : (buildEnd crc.value).length ≤ MAX_FRAME :=
    length_frame_le .end (by simp [MAX_PAYLOAD])
  obtain ⟨err, c', hw, hr, -⟩ := writeAll_isSome (c := c) (k := 0) hlen (by omega)
  rw [finish, hw]
  dsimp only
  split
  · rfl
  rw [← readLoop_congr c', ← hr, ← readAck] at hreads
  obtain ⟨ackResult, hack⟩ := Option.isSome_iff_exists.mp hreads
  rw [show c'.readAck = (some ackResult, c'.readAck.2) from Prod.ext hack rfl]
  dsimp only
  split
  · rfl
  split <;> rfl

/-- Each round reads a part of the file that is not empty, and sends one frame. -/
theorem sendBody_isSome (hsize : fileSize + CHUNK_SIZE ≤ 2 ^ 64) {fileReads : List Bytes}
    (hfile : fileSize - sent ≤ fileReads.length)
    (hmoves : (fileSize - sent + 1) * MAX_FRAME ≤ moves c.sends)
    (hreads : (c.readLoop .fresh c.reads).1.isSome) :
    (c.sendBody path fileSize sent crc fileReads).1.isSome := by
  induction fileReads generalizing c sent crc with
  | nil =>
    rw [List.length_nil] at hfile
    rw [sendBody, if_neg (by omega)]
    refine finish_isSome ((Nat.le_mul_of_pos_left _ ?_).trans hmoves) hreads
    omega
  | cons read fileReads ih =>
    rw [sendBody]
    by_cases hlt : sent < fileSize
    swap
    · rw [if_neg hlt]
      exact finish_isSome ((Nat.le_mul_of_pos_left _ (Nat.succ_pos _)).trans hmoves) hreads
    rw [if_pos hlt]
    have hchunk : (read.take CHUNK_SIZE).length ≤ CHUNK_SIZE := List.length_take_le _ _
    generalize read.take CHUNK_SIZE = chunk at hchunk ⊢
    dsimp only
    split
    · rfl
    rename_i hempty
    -- the rest of the file, and what is left for it
    have hsent : (sent + chunk.length) % 2 ^ 64 = sent + chunk.length := Nat.mod_eq_of_lt (by omega)
    have hrest : (fileSize - (sent + chunk.length) + 1) * MAX_FRAME + MAX_FRAME ≤
        moves c.sends := by
      refine le_trans ?_ hmoves
      rw [← Nat.succ_mul]
      exact Nat.mul_le_mul_right _ (by omega)
    obtain ⟨err, c', hw, hr, hleft⟩ := writeAll_isSome (length_frame_le .data hchunk) hrest
    rw [buildData, hw]
    dsimp only
    split
    · rfl
    rename_i herr
    rw [hsent]
    refine ih ?_ (hleft (not_not.mp herr)) ?_
    · rw [List.length_cons] at hfile
      omega
    · rw [readLoop_congr, hr]
      exact hreads

/-- **How many answers are enough.** -/
theorem sendFile_isSome {sys : ClientSys} (hsize : sys.fileSize + CHUNK_SIZE ≤ 2 ^ 64)
    (hfile : sys.fileSize ≤ sys.fileReads.length)
    (hmoves : (sys.fileSize + 2) * MAX_FRAME ≤ moves sys.sends)
    (hreads : (c.readLoop .fresh sys.reads).1.isSome) : (sendFile path sys).1.isSome := by
  rw [sendFile]
  cases htell : sys.tellg with
  | none => rfl
  | some tellg =>
  have heq : sys.fileSize = (tellg % 2 ^ 64).toNat := by rw [ClientSys.fileSize, htell]
  rw [heq] at hsize hfile hmoves
  dsimp only
  split
  · rfl
  cases sys.connectFault with
  | some connErr => rfl
  | none =>
  dsimp only
  obtain ⟨err, c', hw, hr, hleft⟩ := writeAll_isSome
    (c := ({ sends := sys.sends, reads := sys.reads, errno := sys.errno } : Client).log
      (.started (baseName path) (tellg % 2 ^ 64).toNat))
    (length_frame_le .hello (length_helloPayload_le (tellg % 2 ^ 64).toNat (baseName path)))
    (k := ((tellg % 2 ^ 64).toNat + 1) * MAX_FRAME) (by rw [← Nat.succ_mul]; exact hmoves)
  rw [buildHello, hw]
  dsimp only
  split
  · rfl
  rename_i herr
  refine sendBody_isSome hsize (by omega) (by simpa using hleft (not_not.mp herr)) ?_
  rw [readLoop_congr, hr]
  exact hreads

end Enough

/-! ### The last line -/

section Lines

variable {c : Client} {path : Bytes} {fileSize sent : ℕ} {crc : Crc32}

theorem writeAll_lines (c : Client) (data : Bytes) : (c.writeAll data).2.lines = c.lines := by
  rw [writeAll]
  generalize c.sends = sends
  fun_induction writeLoop c data sends with
  | case1 c sends => rfl
  | case2 c data hne => rfl
  | case3 c data hne n sends hpos ih => exact ih
  | case4 c data hne n sends hzero => rfl
  | case5 c data hne sends ih => exact ih
  | case6 c data hne sends => rfl
  | case7 c data hne text sends => rfl

theorem readAck_lines (c : Client) : c.readAck.2.lines = c.lines := by
  rw [readAck]
  generalize c.reads = reads, FrameParser.fresh = parser
  fun_induction readLoop c parser reads with
  | case1 reads c parser e q hnext => rfl
  | case2 reads c parser f q hnext => rfl
  | case3 c parser q hnext => rfl
  | case4 c parser q hnext reads => rfl
  | case5 c parser q hnext b bs reads ih => exact ih
  | case6 c parser q hnext reads ih => exact ih
  | case7 c parser q hnext reads => rfl
  | case8 c parser q hnext text reads => rfl

/-- The exit code that goes with a line. -/
def closing : ClientLine → Option ℕ
  | .cannotOpen _ => some 2
  | .cannotSize _ => some 2
  | .cannotConnect _ => some 3
  | .started _ _ => none
  | .notStarted _ => some 4
  | .changed _ _ _ => some 2
  | .interrupted _ => some 4
  | .notEnded _ => some 4
  | .unconfirmed _ => some 5
  | .rejected _ _ => some 6
  | .completed _ _ _ => some 0

/-- The exit codes in the log. -/
def codes (c : Client) : List ℕ := c.lines.filterMap closing

theorem codes_log {line : ClientLine} {code : ℕ} (hc : c.codes = [])
    (h : closing line = some code) :
    (c.log line).codes = [code] := by
  rw [codes] at hc
  rw [codes, log, List.filterMap_append, hc]
  simp [h]

theorem codes_writeAll (c : Client) (data : Bytes) : (c.writeAll data).2.codes = c.codes := by
  rw [codes, writeAll_lines, codes]

theorem finish_codes (hc : c.codes = []) :
    (c.finish fileSize crc).2.codes = (c.finish fileSize crc).1.toList := by
  have hw := codes_writeAll c (buildEnd crc.value)
  rw [finish]
  split <;> rename_i hrun <;> rw [hrun] at hw <;> have hc' := hw.trans hc
  · exact hc'
  split
  · exact codes_log hc' rfl
  rename_i c' _
  have hr : c'.readAck.2.codes = [] := by rw [codes, readAck_lines, ← codes, hc']
  split <;> rename_i hack <;> rw [hack] at hr
  · exact hr
  split
  · exact codes_log hr rfl
  split
  · exact codes_log hr rfl
  · exact codes_log hr rfl

theorem sendBody_codes (hc : c.codes = []) (fileReads : List Bytes) :
    (c.sendBody path fileSize sent crc fileReads).2.codes =
      (c.sendBody path fileSize sent crc fileReads).1.toList := by
  induction fileReads generalizing c sent crc with
  | nil =>
    rw [sendBody]
    split
    · exact hc
    · exact finish_codes hc
  | cons read fileReads ih =>
    rw [sendBody]
    split
    swap
    · exact finish_codes hc
    dsimp only
    split
    · exact codes_log hc rfl
    have hw := codes_writeAll c (buildData (read.take CHUNK_SIZE))
    split <;> rename_i hrun <;> rw [hrun] at hw <;> have hc' := hw.trans hc
    · exact hc'
    split
    · exact codes_log hc' rfl
    · exact ih hc'

/-- **The last line names the exit code**, and no line before it does. -/
theorem sendFile_codes (path : Bytes) (sys : ClientSys) :
    (sendFile path sys).2.codes = (sendFile path sys).1.toList := by
  rw [sendFile]
  split
  · exact codes_log rfl rfl
  dsimp only
  split
  · exact codes_log rfl rfl
  split
  · exact codes_log rfl rfl
  rename_i tellg _ _ _ _
  have hw := codes_writeAll
    (({ sends := sys.sends, reads := sys.reads, errno := sys.errno } : Client).log
    (.started (baseName path) (tellg % 2 ^ 64).toNat))
    (buildHello (tellg % 2 ^ 64).toNat (baseName path))
  split <;> rename_i hrun <;> rw [hrun] at hw
  · exact hw
  split
  · exact codes_log hw rfl
  · exact sendBody_codes hw _

end Lines

/-! ### The run ends -/

/-- The first `n` answers of each kind. -/
def answered (sys : ClientSys) (fileReads : ℕ → Bytes) (sends : ℕ → SendAnswer)
    (reads : ℕ → ReadAnswer) (n : ℕ) : ClientSys :=
  { sys with fileReads := front fileReads n, sends := front sends n, reads := front reads n }

theorem answered_grows (sys : ClientSys) (fileReads : ℕ → Bytes) (sends : ℕ → SendAnswer)
    (reads : ℕ → ReadAnswer) {m n : ℕ} (h : m ≤ n) :
    (answered sys fileReads sends reads m).Grows (answered sys fileReads sends reads n) where
  tellg := rfl
  seekFault := rfl
  connectFault := rfl
  fileReads := front_isPrefix fileReads h
  sends := front_isPrefix sends h
  reads := front_isPrefix reads h

/-- **Every run of the client ends.**  Let the file change in any way while it is read, and
let the connection answer in any way, but not with interruptions for ever. Then from some
point on `sendFile` has returned, and further answers do not matter: it has one of its exit
codes, and the one line of its log that names an exit code names this one. -/
theorem sendFile_returns (path : Bytes) (sys : ClientSys)
    (hsize : sys.fileSize + CHUNK_SIZE ≤ 2 ^ 64) (fileReads : ℕ → Bytes) {sends : ℕ → SendAnswer}
    (hsends : Recurs (· ≠ .eintr) sends) {reads : ℕ → ReadAnswer}
    (hreads : Recurs (· ≠ .eintr) reads) :
    ∃ (N code : ℕ) (c : Client), code ∈ [0, 2, 3, 4, 5, 6] ∧ c.codes = [code] ∧
      ∀ n ≥ N, ∃ S R, sendFile path (answered sys fileReads sends reads n) =
        (some code, c.extend S R) := by
  obtain ⟨n₁, hn₁⟩ := hsends.exists_countP ((sys.fileSize + 2) * MAX_FRAME)
  obtain ⟨n₂, hn₂⟩ := ackAfter_returns (c := { sends := [], reads := [] }) rfl hreads
  obtain ⟨r, hr⟩ := Option.isSome_iff_exists.mp hn₂
  obtain ⟨N, h₁, h₂, h₃⟩ : ∃ N, n₁ ≤ N ∧ n₂ ≤ N ∧ sys.fileSize ≤ N :=
    ⟨n₁ + n₂ + sys.fileSize, by omega, by omega, by omega⟩
  have hmoves : (sys.fileSize + 2) * MAX_FRAME ≤ moves (front sends N) :=
    hn₁.trans ((front_isPrefix sends h₁).sublist.countP_le)
  have hack : ((ackAfter { sends := [], reads := [] } reads N).1).isSome := by
    rw [ackAfter_mono hr h₂]
    rfl
  rw [ackAfter_eq] at hack
  have hfile : sys.fileSize ≤ (front fileReads N).length := by rwa [length_front]
  have hsome : (sendFile path (answered sys fileReads sends reads N)).1.isSome :=
    sendFile_isSome hsize hfile hmoves hack
  obtain ⟨code, hcode⟩ := Option.isSome_iff_exists.mp hsome
  refine ⟨N, code, (sendFile path (answered sys fileReads sends reads N)).2, ?_, ?_, fun n hn =>
    sendFile_extend (answered_grows sys fileReads sends reads hn) rfl hcode⟩
  · obtain ⟨ds, -, hout⟩ := sendFile_outcome path (answered sys fileReads sends reads N)
    exact hout.exit_mem hcode
  · rw [sendFile_codes, hcode]
    rfl

/-- A server that takes a byte at a time and never answers. -/
theorem sendFile_returns_three_bytes :
    ∃ (N code : ℕ) (c : Client), code ∈ [0, 2, 3, 4, 5, 6] ∧ c.codes = [code] ∧
      ∀ n ≥ N, ∃ S R, sendFile (str "a.txt") (answered { tellg := some 3 }
        (fun _ => [1#8, 2#8, 3#8]) (fun _ => .took 1) (fun _ => .eagain) n) =
          (some code, c.extend S R) :=
  sendFile_returns (str "a.txt") { tellg := some 3 } (by decide) (fun _ => [1#8, 2#8, 3#8])
    (fun n => ⟨n, le_rfl, by simp⟩) (fun n => ⟨n, le_rfl, by simp⟩)

end Nexus.Client
