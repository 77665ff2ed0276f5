/-
The temporary file of one upload: `server/FileWriter`.

A `FileWriter` creates a temporary file, appends to it, and either publishes it
under the first free final name (`commit`) or removes it (`abort`). The members
`log` and `published` are not in the source: they record the file-system calls
the writer made and the entry it published, for the statements about it.

At rest a writer is `Closed`, or it `Holds` one file: its descriptor and its only
entry lead to one inode. One lemma for each operation says what becomes of such a
writer, of the file and of everything else.
-/
import NexusTransmitter.OperatingSystem

namespace Nexus

/-- A file-system call a writer made, with its error if it failed. A `write`
that was interrupted is not recorded. -/
inductive FsCall
  | open (path : Bytes) (error : Option Bytes)
  | write (bs : Bytes)
  | writeError (text : Bytes)
  | fsync (error : Option Bytes)
  | close
  | link (path : Bytes) (error : Option Bytes)
  | unlink (path : Bytes)
  deriving DecidableEq, Repr

/-- The call succeeded. -/
def FsCall.ok : FsCall → Bool
  | .open _ error => error.isNone
  | .writeError _ => false
  | .fsync error => error.isNone
  | .link _ error => error.isNone
  | _ => true

/-- `class FileWriter`. A descriptor `m_fd` of -1 is `none`. -/
structure FileWriter where
  dir : Bytes
  tempPath : Bytes := []
  fd : Option ℕ := none
  written : ℕ := 0
  log : List FsCall := []
  published : Option (Bytes × ℕ) := none

/-- `FileWriter::CommitResult`. -/
structure CommitResult where
  finalName : Bytes
  error : Bytes
  deriving DecidableEq, Repr

/-- The temporary path that `FileWriter::open` builds. -/
def tempName (dir : Bytes) (pid seq : ℕ) : Bytes :=
  dir ++ (str "/.nxft_" ++ dec pid ++ str "_" ++ dec seq ++ str ".part")

/-- The final name that `FileWriter::commit` tries for one suffix. -/
def candidateName (stamp : Bytes) (suffix : ℕ) : Bytes :=
  if suffix > 0 then stamp ++ str "_" ++ setw 3 (dec suffix) ++ str ".hex"
  else stamp ++ str ".hex"

theorem length_candidateName_le (t : Tm) {suffix : ℕ} (h : suffix < 1000) :
    (candidateName (fileTimestamp t) suffix).length ≤ 132 := by
  have hstamp := length_fileTimestamp_le t
  have hdec : (dec suffix).length ≤ 4 * 3 := length_dec_le (by omega) (by decide)
  have hsep : (str "_").length ≤ 4 := length_ofChars_le _
  have hext : (str ".hex").length ≤ 16 := length_ofChars_le _
  rw [candidateName]
  split
  · simp only [List.length_append, length_setw]
    omega
  · rw [List.length_append]
    omega

/-- A final name in the directory. -/
def finalPath (dir name : Bytes) : Bytes := dir ++ str "/" ++ name

namespace FileWriter

/-! ### Operations -/

def «open» (w : FileWriter) (os : Os) (ans : OpenAnswer) : Bytes × FileWriter × Os :=
  let path := tempName w.dir os.pid os.tempSeq
  match os.nextTempSeq.openExcl path ans with
  | (.error text, os) =>
    (str "не удалось создать " ++ path ++ str ": " ++ text,
      { w with tempPath := [], fd := none, log := w.log ++ [.open path (some text)] }, os)
  | (.ok fd, os) =>
    ([], { w with tempPath := path, fd := some fd, log := w.log ++ [.open path none] }, os)

/-- `::write(m_fd, p, left)`. -/
def sysWrite (w : FileWriter) (os : Os) (p : Bytes) (ans : WriteAnswer) : WriteAnswer × Os :=
  match w.fd with
  | none => (.err (str "Bad file descriptor"), os)
  | some fd => os.write fd p ans

/-- `p` is the data left to write. Past the answers given the device fails. -/
def write (w : FileWriter) (os : Os) (p : Bytes) (answers : List WriteAnswer) :
    Bytes × List WriteAnswer × FileWriter × Os :=
  if p = [] then ([], answers, w, os)
  else
    match answers with
    | [] =>
      let text := str "Input/output error"
      (str "ошибка записи в " ++ w.tempPath ++ str ": " ++ text, [],
        { w with log := w.log ++ [FsCall.writeError text] }, os)
    | ans :: answers =>
      match w.sysWrite os p ans with
      | (.eintr, os) => write w os p answers
      | (.err text, os) =>
        (str "ошибка записи в " ++ w.tempPath ++ str ": " ++ text, answers,
          { w with log := w.log ++ [FsCall.writeError text] }, os)
      | (.took n, os) =>
        write { w with
          written := (w.written + n) % 2 ^ 64
          log := w.log ++ [FsCall.write (p.take n)] } os (p.drop n) answers

/-- The loop of `FileWriter::commit` over the suffixes, `left` of them still to
try. `faults` gives the error of each `link`, if other than `EEXIST`. -/
def linkLoop (stamp : Bytes) (faults : ℕ → Option Bytes) (w : FileWriter) (os : Os) :
    ℕ → ℕ → CommitResult × FileWriter × Os
  | 0, _ =>
    ({ finalName := [], error := str "исчерпаны варианты имени для " ++ stamp ++ str ".hex" },
      w, os)
  | left + 1, suffix =>
    let name := candidateName stamp suffix
    let path := finalPath w.dir name
    match os.link w.tempPath path (faults suffix) with
    | (.done ino, os) =>
      ({ finalName := name, error := [] },
        { w with
          tempPath := []
          log := w.log ++ [.link path none, .unlink w.tempPath]
          published := some (path, ino) },
        os.unlink w.tempPath)
    | (.eexist, os) =>
      linkLoop stamp faults
        { w with log := w.log ++ [.link path (some (str "File exists"))] } os left (suffix + 1)
    | (.err text, os) =>
      ({ finalName := [], error := str "не удалось создать " ++ path ++ str ": " ++ text },
        { w with log := w.log ++ [.link path (some text)] }, os)

def commit (w : FileWriter) (os : Os) (fsyncFault : Option Bytes) (now : Tm)
    (linkFaults : ℕ → Option Bytes) : CommitResult × FileWriter × Os :=
  match w.fd with
  | none => ({ finalName := [], error := str "файл не открыт" }, w, os)
  | some fd =>
    match fsyncFault with
    | some text =>
      ({ finalName := [], error := str "fsync: " ++ text },
        { w with log := w.log ++ [.fsync (some text)] }, os)
    | none =>
      linkLoop (fileTimestamp now) linkFaults
        { w with fd := none, log := w.log ++ [.fsync none, .close] } (os.close fd) 1000 0

def abort (w : FileWriter) (os : Os) : FileWriter × Os :=
  let (w, os) : FileWriter × Os := match w.fd with
    | some fd => ({ w with fd := none, log := w.log ++ [.close] }, os.close fd)
    | none => (w, os)
  if w.tempPath = [] then (w, os)
  else ({ w with tempPath := [], log := w.log ++ [.unlink w.tempPath] }, os.unlink w.tempPath)

/-! ### States of a writer -/

/-- No descriptor and no temporary file. -/
def Closed (w : FileWriter) : Prop := w.fd = none ∧ w.tempPath = []

/-- The writer has its temporary file, with inode `i`, open as `fd`; nothing else
leads to the inode. -/
structure Holds (w : FileWriter) (os : Os) (fd i : ℕ) : Prop where
  fd_eq : w.fd = some fd
  temp : w.tempPath ≠ []
  file : ∀ f, os.fds f = some (.file i) ↔ f = fd
  entry : ∀ p, os.dir p = some i ↔ p = w.tempPath

/-- The inode of the temporary file, if there is one. -/
def ino (w : FileWriter) (os : Os) : Option ℕ :=
  if w.tempPath = [] then none else os.dir w.tempPath

theorem Closed.ino {w : FileWriter} (h : w.Closed) (os : Os) : w.ino os = none := if_pos h.2

namespace Holds

variable {w : FileWriter} {os os' : Os} {fd i : ℕ}

theorem file_fd (h : w.Holds os fd i) : os.fds fd = some (.file i) := (h.file fd).mpr rfl

theorem entry_temp (h : w.Holds os fd i) : os.dir w.tempPath = some i := (h.entry _).mpr rfl

theorem ino (h : w.Holds os fd i) : w.ino os = some i := by
  rw [FileWriter.ino, if_neg h.temp, h.entry_temp]

/-- A writer that holds a file still holds it when nothing has happened to the
file. -/
theorem of_same (h : w.Holds os fd i) (hsame : os.SameFile i os') : w.Holds os' fd i :=
  ⟨h.fd_eq, h.temp, fun f => (hsame.fds f).trans (h.file f),
    fun p => (hsame.dir p).trans (h.entry p)⟩

end Holds

/-! ### The calls of a writer -/

/-- What the calls of one writer are: it creates the temporary name and the
final names in its directory only, it unlinks nothing that it did not create,
and it published the file exactly when a `link` succeeded. -/
structure Calls (w : FileWriter) (pid : ℕ) : Prop where
  opened : ∀ p e, .open p e ∈ w.log → ∃ seq, p = tempName w.dir pid seq
  linked : ∀ p e, .link p e ∈ w.log →
    ∃ t suffix, suffix < 1000 ∧ p = finalPath w.dir (candidateName (fileTimestamp t) suffix)
  unlinked : ∀ p, .unlink p ∈ w.log → .open p none ∈ w.log
  temp : w.tempPath ≠ [] → .open w.tempPath none ∈ w.log
  published : ∀ p, .link p none ∈ w.log ↔ ∃ i, w.published = some (p, i)

/-- More calls of a writer that leave its claims as they are: no `open`, no
`link` that succeeds, no `unlink` but of its own temporary name. -/
structure Harmless (w : FileWriter) (calls : List FsCall) : Prop where
  opened : ∀ p e, .open p e ∉ calls
  linked : ∀ p e, .link p e ∈ calls → e ≠ none ∧
    ∃ t suffix, suffix < 1000 ∧ p = finalPath w.dir (candidateName (fileTimestamp t) suffix)
  unlinked : ∀ p, .unlink p ∈ calls → p ≠ [] ∧ p = w.tempPath

namespace Calls

variable {w w' : FileWriter} {pid : ℕ} {calls : List FsCall}

theorem fresh (dir : Bytes) (pid : ℕ) : ({ dir := dir } : FileWriter).Calls pid :=
  ⟨by simp, by simp, by simp, by simp, by simp⟩

theorem append (h : w.Calls pid) (hcalls : w.Harmless calls) (hdir : w'.dir = w.dir)
    (htemp : w'.tempPath ≠ [] → w'.tempPath = w.tempPath) (hpub : w'.published = w.published)
    (hlog : w'.log = w.log ++ calls) : w'.Calls pid where
  opened := by
    intro p e hp
    rw [hlog, List.mem_append] at hp
    rw [hdir]
    exact h.opened p e (hp.resolve_right (hcalls.opened p e))
  linked := by
    intro p e hp
    rw [hlog, List.mem_append] at hp
    rw [hdir]
    exact hp.elim (h.linked p e) fun hp => (hcalls.linked p e hp).2
  unlinked := by
    intro p hp
    rw [hlog, List.mem_append] at hp ⊢
    rcases hp with hp | hp
    · exact .inl (h.unlinked p hp)
    · obtain ⟨hne, rfl⟩ := hcalls.unlinked p hp
      exact .inl (h.temp hne)
  temp := by
    intro hne
    have heq := htemp hne
    rw [hlog, List.mem_append, heq]
    exact .inl (h.temp (heq ▸ hne))
  published := by
    intro p
    rw [hlog, List.mem_append, hpub, ← h.published p]
    exact or_iff_left fun hp => (hcalls.linked p none hp).1 rfl

end Calls

/-! ### The temporary names -/

/-- The paths that a writer asked `open` for. -/
def opens (w : FileWriter) : List Bytes :=
  w.log.filterMap fun
    | .open path _ => some path
    | _ => none

/-- The `n` temporary names from the counter `seq` on. -/
def tempNames (dir : Bytes) (pid seq n : ℕ) : List Bytes :=
  (List.range n).map fun k => tempName dir pid ((seq + k) % 2 ^ 64)

theorem tempNames_add (dir : Bytes) (pid seq m n : ℕ) :
    tempNames dir pid seq (m + n) =
      tempNames dir pid seq m ++ tempNames dir pid ((seq + m) % 2 ^ 64) n := by
  simp only [tempNames, List.range_add, List.map_append, List.map_map]
  congr 2
  funext k
  rw [Function.comp_apply, Nat.mod_add_mod, Nat.add_assoc]

/-- The writer asked for the next `n` temporary names, and nobody else asked
for one. -/
def Asks (w : FileWriter) (os : Os) (w' : FileWriter) (os' : Os) (n : ℕ) : Prop :=
  w'.opens = w.opens ++ tempNames w.dir os.pid os.tempSeq n ∧
    os'.tempSeq = (os.tempSeq + n) % 2 ^ 64

/-- An `open`, whatever came of it. -/
theorem asks_open {w w' : FileWriter} {os os' : Os} (e : Option Bytes) (hwf : os.WF)
    (hlog : w'.log = w.log ++ [.open (tempName w.dir os.pid os.tempSeq) e])
    (hseq : os'.tempSeq = (os.tempSeq + 1) % 2 ^ 64) : w.Asks os w' os' 1 := by
  have hname : tempNames w.dir os.pid os.tempSeq 1 = [tempName w.dir os.pid os.tempSeq] := by
    rw [tempNames, List.range_one, List.map_singleton, Nat.add_zero, Nat.mod_eq_of_lt hwf.seq]
  refine ⟨?_, hseq⟩
  rw [hname]
  simp [opens, hlog]

namespace Asks

variable {w w' w'' : FileWriter} {os os' os'' : Os}

theorem zero (hwf : os.WF) (hopens : w'.opens = w.opens) (hseq : os'.tempSeq = os.tempSeq) :
    w.Asks os w' os' 0 :=
  ⟨by simp [tempNames, hopens], by rw [hseq, Nat.add_zero, Nat.mod_eq_of_lt hwf.seq]⟩

theorem trans {m n : ℕ} (h : w.Asks os w' os' m) (h' : w'.Asks os' w'' os'' n)
    (hdir : w'.dir = w.dir) (hpid : os'.pid = os.pid) : w.Asks os w'' os'' (m + n) := by
  refine ⟨?_, ?_⟩
  · rw [h'.1, h.1, hdir, hpid, h.2, List.append_assoc, tempNames_add]
  · rw [h'.2, h.2, Nat.mod_add_mod, Nat.add_assoc]

end Asks

theorem Harmless.opens {w w' : FileWriter} {calls : List FsCall} (h : w.Harmless calls)
    (hlog : w'.log = w.log ++ calls) : w'.opens = w.opens := by
  simp only [FileWriter.opens, hlog, List.filterMap_append]
  rw [List.append_right_eq_self, List.filterMap_eq_nil_iff]
  intro c hc
  cases c with
  | «open» p e => exact absurd hc (h.opened p e)
  | _ => rfl

theorem tempName_ne_nil (dir : Bytes) (pid seq : ℕ) : tempName dir pid seq ≠ [] := by
  simp [tempName]

/-! ### `open` -/

/-- `open` fails and leaves the writer closed, or creates a file nobody had. -/
theorem open_cases (w : FileWriter) (os : Os) (ans : OpenAnswer) :
    (∃ text, (w.«open» os ans).1 ≠ [] ∧
      (w.«open» os ans).2 =
        ({ w with
            tempPath := []
            fd := none
            log := w.log ++ [.open (tempName w.dir os.pid os.tempSeq) (some text)] },
          os.nextTempSeq)) ∨
    (∃ fd, os.fds fd = none ∧ os.dir (tempName w.dir os.pid os.tempSeq) = none ∧
      w.«open» os ans =
        ([], { w with
            tempPath := tempName w.dir os.pid os.tempSeq
            fd := some fd
            log := w.log ++ [.open (tempName w.dir os.pid os.tempSeq) none] },
          os.nextTempSeq.createFile (tempName w.dir os.pid os.tempSeq) fd)) := by
  rcases os.nextTempSeq.openExcl_cases (tempName w.dir os.pid os.tempSeq) ans with
    ⟨text, h⟩ | ⟨fd, h1, h2, h⟩
  · refine .inl ⟨text, ?_, ?_⟩
    · simp only [«open», h]
      simp
    · simp only [«open», h]
  · exact .inr ⟨fd, h1, h2, by simp only [«open», h]⟩

theorem holds_createFile (w : FileWriter) {os : Os} (hwf : os.WF) {path : Bytes} (hpath : path ≠ [])
    {fd : ℕ} (log : List FsCall) :
    ({ w with tempPath := path, fd := some fd, log := log } : FileWriter).Holds
      (os.createFile path fd) fd os.nextIno where
  fd_eq := rfl
  temp := hpath
  file := by
    intro f
    have : os.fds f ≠ some (.file os.nextIno) := fun h => Nat.lt_irrefl _ (hwf.fds f _ h)
    by_cases hf : f = fd <;> simp [hf]
    simpa [hf] using this
  entry := by
    intro p
    have : os.dir p ≠ some os.nextIno := fun h => Nat.lt_irrefl _ (hwf.dir p _ h)
    by_cases hp : p = path <;> simp [hp]
    simpa [hp] using this

/-! ### `write` -/

/-- The calls that `write` makes. -/
def FsCall.isWrite : FsCall → Bool
  | .write _ => true
  | .writeError _ => true
  | _ => false

theorem write_nil (w : FileWriter) (os : Os) (answers : List WriteAnswer) :
    w.write os [] answers = ([], answers, w, os) := by
  rw [write.eq_def, if_pos rfl]

theorem holds_appendTo {w : FileWriter} {os : Os} {fd i : ℕ} (h : w.Holds os fd i) (bs : Bytes)
    (written : ℕ) (log : List FsCall) :
    ({ w with written := written, log := log } : FileWriter).Holds (os.appendTo i bs) fd i :=
  ⟨h.fd_eq, h.temp, h.file, h.entry⟩

theorem appendTo_nil (os : Os) (i : ℕ) : os.appendTo i [] = os := by
  simp [Os.appendTo]

theorem appendTo_appendTo (os : Os) (i : ℕ) (x y : Bytes) :
    (os.appendTo i x).appendTo i y = os.appendTo i (x ++ y) := by
  simp [Os.appendTo, List.append_assoc]

theorem writeError_ne_nil (w : FileWriter) (text : Bytes) :
    str "ошибка записи в " ++ w.tempPath ++ str ": " ++ text ≠ [] := by
  simp

/-- The first round of the loop of `write`, whatever the answers after it: some bytes,
an interruption, or an error. -/
theorem write_cons_cases {w : FileWriter} {os : Os} {fd i : ℕ} (h : w.Holds os fd i) {p : Bytes}
    (hp : p ≠ []) (ans : WriteAnswer) :
    (∃ m, 0 < m ∧ m ≤ p.length ∧ (os.data i ++ p.take m).length ≤ MAX_OFF ∧
      ∀ answers, w.write os p (ans :: answers) =
        write { w with
          written := (w.written + m) % 2 ^ 64
          log := w.log ++ [.write (p.take m)] } (os.appendTo i (p.take m)) (p.drop m) answers) ∨
    (ans = .eintr ∧ ∀ answers, w.write os p (ans :: answers) = w.write os p answers) ∨
    ∃ text, (ans = .err text ∨ text = str "File too large" ∧ MAX_OFF ≤ (os.data i).length) ∧
      ∀ answers, w.write os p (ans :: answers) =
        (str "ошибка записи в " ++ w.tempPath ++ str ": " ++ text, answers,
          { w with log := w.log ++ [.writeError text] }, os) := by
  have hsys : w.sysWrite os p ans = os.write fd p ans := by simp only [sysWrite, h.fd_eq]
  have hround : ∀ answers, w.write os p (ans :: answers) =
      match os.write fd p ans with
      | (.eintr, os) => w.write os p answers
      | (.err text, os) =>
        (str "ошибка записи в " ++ w.tempPath ++ str ": " ++ text, answers,
          { w with log := w.log ++ [.writeError text] }, os)
      | (.took n, os) =>
        write { w with
          written := (w.written + n) % 2 ^ 64
          log := w.log ++ [.write (p.take n)] } os (p.drop n) answers := by
    intro answers
    rw [write.eq_def, if_neg hp]
    simp only [hsys]
  rcases Os.write_cases h.file_fd hp ans with
    ⟨m, hpos, hm, hroom, hans⟩ | ⟨heintr, hans⟩ | ⟨text, hcause, hans⟩
  · exact .inl ⟨m, hpos, hm, hroom, fun answers => by rw [hround, hans]⟩
  · exact .inr (.inl ⟨heintr, fun answers => by rw [hround, hans]⟩)
  · exact .inr (.inr ⟨text, hcause, fun answers => by rw [hround, hans]⟩)

/-- `write` appends a prefix `bs` of the data to the file, all of it unless it
returns an error. -/
structure Wrote (w : FileWriter) (os : Os) (i : ℕ) (p : Bytes)
    (r : Bytes × List WriteAnswer × FileWriter × Os) (bs tail : Bytes) (calls : List FsCall) :
    Prop where
  split : p = bs ++ tail
  result : r.2.2 =
    ({ w with written := (w.written + bs.length) % 2 ^ 64, log := w.log ++ calls },
      os.appendTo i bs)
  error : r.1 = [] ↔ tail = []
  ok : (∀ c ∈ calls, c.ok = true) ↔ tail = []
  isWrite : ∀ c ∈ calls, FsCall.isWrite c = true
  length_le : (os.data i ++ bs).length ≤ MAX_OFF

theorem write_spec {w : FileWriter} {os : Os} {fd i : ℕ} (h : w.Holds os fd i)
    (hw : w.written < 2 ^ 64) (hmax : (os.data i).length ≤ MAX_OFF) (p : Bytes)
    (answers : List WriteAnswer) :
    ∃ bs tail calls, Wrote w os i p (w.write os p answers) bs tail calls := by
  have hkeep : ∀ {w : FileWriter}, w.written < 2 ^ 64 →
      (w.written + ([] : Bytes).length) % 2 ^ 64 = w.written := by
    intro w hw
    rw [List.length_nil, Nat.add_zero, Nat.mod_eq_of_lt hw]
  -- nothing left to write
  have hdone : ∀ {w : FileWriter} {os : Os} answers, w.written < 2 ^ 64 →
      (os.data i).length ≤ MAX_OFF → Wrote w os i [] (w.write os [] answers) [] [] [] :=
    fun {w os} answers hw hmax =>
      ⟨rfl, by rw [write_nil, hkeep hw, List.append_nil, appendTo_nil], by rw [write_nil],
        by simp, by simp, by simpa using hmax⟩
  -- the loop gives up in front of `p`
  have hfail : ∀ {w : FileWriter} {os : Os} {p : Bytes} {text rest}, p ≠ [] → w.written < 2 ^ 64 →
      (os.data i).length ≤ MAX_OFF →
      Wrote w os i p (str "ошибка записи в " ++ w.tempPath ++ str ": " ++ text, rest,
        { w with log := w.log ++ [.writeError text] }, os) [] p [.writeError text] :=
    fun {w os p text rest} hp hw hmax =>
      ⟨rfl, by rw [hkeep hw, appendTo_nil], iff_of_false (writeError_ne_nil w text) hp,
        by simpa [FsCall.ok] using hp, by simp [FsCall.isWrite], by simpa using hmax⟩
  induction answers generalizing w os p with
  | nil =>
    by_cases hp : p = []
    · subst hp
      exact ⟨_, _, _, hdone [] hw hmax⟩
    · refine ⟨[], p, [.writeError (str "Input/output error")], ?_⟩
      rw [write.eq_def, if_neg hp]
      exact hfail hp hw hmax
  | cons ans answers ih =>
    by_cases hp : p = []
    · subst hp
      exact ⟨_, _, _, hdone _ hw hmax⟩
    rcases write_cons_cases h hp ans with
      ⟨m, -, hm, hroom, hrun⟩ | ⟨-, hrun⟩ | ⟨text, -, hrun⟩
    · -- `m` bytes are written, and the loop goes on behind them
      have htake : (p.take m).length = m := List.length_take_of_le hm
      have hdata : ((os.appendTo i (p.take m)).data i) = os.data i ++ p.take m := by simp
      obtain ⟨bs, tail, calls, hrest⟩ :=
        ih (holds_appendTo h (p.take m) _ _) (Nat.mod_lt _ (by decide)) (by rw [hdata]; exact hroom)
          (p.drop m)
      refine ⟨p.take m ++ bs, tail, .write (p.take m) :: calls, ?_, ?_, ?_, ?_, ?_, ?_⟩
      · rw [List.append_assoc, ← hrest.split, List.take_append_drop]
      · rw [hrun, hrest.result, appendTo_appendTo]
        simp [htake, Nat.add_assoc]
      · rw [hrun]
        exact hrest.error
      · simpa [FsCall.ok] using hrest.ok
      · simpa [FsCall.isWrite] using hrest.isWrite
      · rw [← List.append_assoc, ← hdata]
        exact hrest.length_le
    · rw [hrun]
      exact ih h hw hmax p
    · rw [hrun]
      exact ⟨_, _, _, hfail hp hw hmax⟩

/-! ### `commit` -/

/-- The final path that `commit` tries for one suffix. -/
def candidate (w : FileWriter) (stamp : Bytes) (suffix : ℕ) : Bytes :=
  finalPath w.dir (candidateName stamp suffix)

/-- The loop over the names stops at the first one that does not fail with
`EEXIST`: it publishes the file there, or fails there. -/
theorem linkLoop_cases (stamp : Bytes) (faults : ℕ → Option Bytes) {w : FileWriter} {os : Os}
    {i : ℕ} (hi : os.dir w.tempPath = some i) (left suffix : ℕ) :
    (∃ k calls, suffix ≤ k ∧ k < suffix + left ∧ faults k = none ∧
      os.dir (w.candidate stamp k) = none ∧
      (∀ j, suffix ≤ j → j < k → faults j = none ∧ (os.dir (w.candidate stamp j)).isSome) ∧
      (∀ c ∈ calls, ∃ j text, j < k ∧ c = .link (w.candidate stamp j) (some text)) ∧
      linkLoop stamp faults w os left suffix =
        ({ finalName := candidateName stamp k, error := [] },
          { w with
            tempPath := []
            log := w.log ++ calls ++ [.link (w.candidate stamp k) none, .unlink w.tempPath]
            published := some (w.candidate stamp k, i) },
          (os.addEntry (w.candidate stamp k) i).unlink w.tempPath)) ∨
    (∃ err calls, err ≠ [] ∧ (left ≠ 0 → calls ≠ []) ∧
      (∀ c ∈ calls, ∃ j text, j < suffix + left ∧ c = .link (w.candidate stamp j) (some text)) ∧
      linkLoop stamp faults w os left suffix =
        ({ finalName := [], error := err }, { w with log := w.log ++ calls }, os)) := by
  induction left generalizing w suffix with
  | zero =>
    refine .inr ⟨_, [], ?_, by simp, by simp, by rw [linkLoop, List.append_nil]⟩
    simp
  | succ left ih =>
    rcases Os.link_cases os w.tempPath (w.candidate stamp suffix) (faults suffix) with
      ⟨i', hi', hnew, hlink⟩ | ⟨hfault, hold, hlink⟩ | ⟨text, hlink⟩
    · -- the name is free
      obtain rfl : i = i' := by simpa [hi] using hi'
      have hfault : faults suffix = none := by
        cases h : faults suffix with
        | none => rfl
        | some text => rw [h, Os.link] at hlink; cases hlink
      refine .inl ⟨suffix, [], Nat.le_refl _, by omega, hfault, hnew,
        fun j h1 h2 => absurd h1 (by omega), by simp, ?_⟩
      simp only [linkLoop, candidate] at hlink ⊢
      rw [hlink, List.append_nil]
    · -- the name is taken: the next one
      set w₁ : FileWriter := { w with
        log := w.log ++ [.link (w.candidate stamp suffix) (some (str "File exists"))] } with hw₁
      have hrun : linkLoop stamp faults w os (left + 1) suffix =
          linkLoop stamp faults w₁ os left (suffix + 1) := by
        simp only [linkLoop, candidate] at hlink ⊢
        rw [hlink]
        rfl
      rw [hrun]
      rcases ih (w := w₁) hi (suffix + 1) with
        ⟨k, calls, h1, h2, h3, h4, h5, h6, h7⟩ | ⟨err, calls, h1, -, h3, h4⟩
      · refine .inl ⟨k, .link (w.candidate stamp suffix) (some (str "File exists")) :: calls,
          by omega, by omega, h3, h4, fun j hj hjk => ?_, ?_, ?_⟩
        · by_cases hjs : j = suffix
          · rw [hjs]
            exact ⟨hfault, hold⟩
          · exact h5 j (by omega) hjk
        · intro c hc
          rcases List.mem_cons.mp hc with rfl | hc
          · exact ⟨suffix, _, by omega, rfl⟩
          · exact h6 c hc
        · rw [h7, hw₁]
          simp [candidate]
      · refine .inr ⟨err, .link (w.candidate stamp suffix) (some (str "File exists")) :: calls,
          h1, by simp, ?_, by rw [h4, hw₁]; simp⟩
        intro c hc
        rcases List.mem_cons.mp hc with rfl | hc
        · exact ⟨suffix, _, by omega, rfl⟩
        · obtain ⟨j, text, hj, rfl⟩ := h3 c hc
          exact ⟨j, text, by omega, rfl⟩
    · refine .inr ⟨str "не удалось создать " ++ w.candidate stamp suffix ++ str ": " ++ text,
        [.link (w.candidate stamp suffix) (some text)], ?_, by simp, ?_, ?_⟩
      · simp
      · intro c hc
        exact ⟨suffix, text, by omega, List.mem_singleton.mp hc⟩
      · simp only [linkLoop, candidate] at hlink ⊢
        rw [hlink]

/-- The system after `abort` of a writer that holds a file. -/
def discard (w : FileWriter) (os : Os) (fd : ℕ) : Os := (os.close fd).unlink w.tempPath

/-- The system after a `commit` that published the file under `path`. -/
def publish (w : FileWriter) (os : Os) (fd : ℕ) (path : Bytes) (i : ℕ) : Os :=
  ((os.close fd).addEntry path i).unlink w.tempPath

/-- `commit` publishes the file under the first free name, or fails at `fsync`
or at `link`; then the file is still there under its temporary name. -/
theorem commit_cases {w : FileWriter} {os : Os} {fd i : ℕ} (h : w.Holds os fd i)
    (fsyncFault : Option Bytes) (now : Tm) (linkFaults : ℕ → Option Bytes) :
    (∃ k calls, k < 1000 ∧ fsyncFault = none ∧ linkFaults k = none ∧
      os.dir (w.candidate (fileTimestamp now) k) = none ∧
      (∀ j < k, linkFaults j = none ∧ (os.dir (w.candidate (fileTimestamp now) j)).isSome) ∧
      (∀ c ∈ calls, ∃ j text, j < k ∧ c = .link (w.candidate (fileTimestamp now) j) (some text)) ∧
      w.commit os fsyncFault now linkFaults =
        ({ finalName := candidateName (fileTimestamp now) k, error := [] },
          { w with
            fd := none
            tempPath := []
            log := w.log ++ [.fsync none, .close] ++ calls ++
              [.link (w.candidate (fileTimestamp now) k) none, .unlink w.tempPath]
            published := some (w.candidate (fileTimestamp now) k, i) },
          w.publish os fd (w.candidate (fileTimestamp now) k) i)) ∨
    (∃ err text, err ≠ [] ∧
      w.commit os fsyncFault now linkFaults =
        ({ finalName := [], error := err },
          { w with log := w.log ++ [.fsync (some text)] }, os)) ∨
    (∃ err calls, err ≠ [] ∧ calls ≠ [] ∧
      (∀ c ∈ calls, ∃ j text, j < 1000 ∧
        c = .link (w.candidate (fileTimestamp now) j) (some text)) ∧
      w.commit os fsyncFault now linkFaults =
        ({ finalName := [], error := err },
          { w with fd := none, log := w.log ++ [.fsync none, .close] ++ calls }, os.close fd)) := by
  cases fsyncFault with
  | some text =>
    refine .inr (.inl ⟨str "fsync: " ++ text, text, ?_, by simp only [commit, h.fd_eq]⟩)
    simp
  | none =>
    set w₁ : FileWriter := { w with fd := none, log := w.log ++ [.fsync none, .close] } with hw₁
    have hrun : w.commit os none now linkFaults =
        linkLoop (fileTimestamp now) linkFaults w₁ (os.close fd) 1000 0 := by
      simp only [commit, h.fd_eq, hw₁]
    rw [hrun]
    have hentry : (os.close fd).dir w₁.tempPath = some i := h.entry_temp
    rcases linkLoop_cases (fileTimestamp now) linkFaults hentry 1000 0 with
      ⟨k, calls, h1, h2, h3, h4, h5, h6, h7⟩ | ⟨err, calls, h1, h2, h3, h4⟩
    · exact .inl ⟨k, calls, by omega, rfl, h3, h4, fun j hj => h5 j (by omega) hj, h6, h7⟩
    · refine .inr (.inr ⟨err, calls, h1, h2 (by decide), fun c hc => ?_, h4⟩)
      obtain ⟨j, text, hj, hc⟩ := h3 c hc
      exact ⟨j, text, by omega, hc⟩

/-! ### `abort` -/

theorem abort_keeps (w : FileWriter) (os : Os) :
    (w.abort os).1.dir = w.dir ∧ (w.abort os).1.published = w.published := by
  unfold abort
  cases w.fd <;> by_cases htemp : w.tempPath = [] <;> simp [htemp]

theorem abort_of_closed {w : FileWriter} (h : w.Closed) (os : Os) : w.abort os = (w, os) := by
  simp only [abort, h.1, h.2, if_true]

theorem abort_of_holds {w : FileWriter} {os : Os} {fd i : ℕ} (h : w.Holds os fd i) :
    w.abort os =
      ({ w with fd := none, tempPath := [], log := w.log ++ [.close, .unlink w.tempPath] },
        w.discard os fd) := by
  simp only [abort, h.fd_eq, if_neg h.temp, discard]
  simp

/-- `abort` when the descriptor is closed already, as after a `commit` that
failed at `link`. -/
theorem abort_of_temp {w : FileWriter} (hfd : w.fd = none) (htemp : w.tempPath ≠ []) (os : Os) :
    w.abort os =
      ({ w with tempPath := [], log := w.log ++ [.unlink w.tempPath] }, os.unlink w.tempPath) := by
  simp only [abort, hfd, if_neg htemp]

theorem closed_abort (w : FileWriter) (os : Os) : (w.abort os).1.Closed := by
  unfold abort
  cases hfd : w.fd <;> by_cases h : w.tempPath = [] <;> simp [h, hfd, Closed]

/-! ### What becomes of the file -/

/-- The writer has a new empty file. -/
structure Opened (w : FileWriter) (os : Os) (w' : FileWriter) (os' : Os) (fd : ℕ) : Prop where
  holds : w'.Holds os' fd os.nextIno
  step : Os.FileStep none os (some os.nextIno) os'
  next : os'.nextIno = os.nextIno + 1
  data : os'.data os.nextIno = []
  seq : os'.tempSeq = (os.tempSeq + 1) % 2 ^ 64
  dir : w'.dir = w.dir
  written : w'.written = w.written
  published : w'.published = w.published
  log : w'.log = w.log ++ [.open (tempName w.dir os.pid os.tempSeq) none]
  calls : w.Calls os.pid → w'.Calls os.pid

/-- The writer let go of its file, if it had one, and nothing leads to the file
any more. -/
structure Dropped (w : FileWriter) (os : Os) (w' : FileWriter) (os' : Os) : Prop where
  closed : w'.Closed
  step : Os.FileStep (w.ino os) os none os'
  next : os'.nextIno = os.nextIno
  entry : ∀ i, w.ino os = some i → ∀ p, os'.dir p ≠ some i
  file : ∀ i, w.ino os = some i → ∀ f, os'.fds f ≠ some (.file i)
  asks : os.WF → ∃ n, w.Asks os w' os' n
  dir : w'.dir = w.dir
  published : w'.published = w.published
  log : w.log <+: w'.log
  calls : w.Calls os.pid → w'.Calls os.pid

/-- The file `i` is in the directory under the final name `name`, and closed. -/
structure Published (w : FileWriter) (os : Os) (i : ℕ) (w' : FileWriter) (os' : Os)
    (name : Bytes) : Prop where
  closed : w'.Closed
  step : Os.FileStep (some i) os none os'
  next : os'.nextIno = os.nextIno
  entry : ∀ p, os'.dir p = some i ↔ p = finalPath w.dir name
  file : ∀ f, os'.fds f ≠ some (.file i)
  data : os'.data i = os.data i
  opens : w'.opens = w.opens
  seq : os'.tempSeq = os.tempSeq
  dir : w'.dir = w.dir
  published : w'.published = some (finalPath w.dir name, i)
  name_eq : ∃ t suffix, suffix < 1000 ∧ name = candidateName (fileTimestamp t) suffix
  log : w.log <+: w'.log
  calls : w.published = none → w.Calls os.pid → w'.Calls os.pid

variable {w : FileWriter} {os : Os} {fd i : ℕ}

theorem Calls.openFailed {pid : ℕ} (h : w.Calls pid) (seq : ℕ) (text : Bytes) :
    ({ w with log := w.log ++ [.open (tempName w.dir pid seq) (some text)] } : FileWriter).Calls
      pid where
  opened := by
    intro p e hp
    rcases List.mem_append.mp hp with hp | hp
    · exact h.opened p e hp
    · exact ⟨seq, by simp at hp; exact hp.1⟩
  linked := fun p e hp => h.linked p e (by simpa using hp)
  unlinked := fun p hp => by simpa using h.unlinked p (by simpa using hp)
  temp := fun hne => List.mem_append_left _ (h.temp hne)
  published := fun p => by simpa using h.published p

theorem Calls.opened' {pid : ℕ} (h : w.Calls pid) (seq fd : ℕ) :
    ({ w with
        tempPath := tempName w.dir pid seq
        fd := some fd
        log := w.log ++ [.open (tempName w.dir pid seq) none] } : FileWriter).Calls pid where
  opened := by
    intro p e hp
    rcases List.mem_append.mp hp with hp | hp
    · exact h.opened p e hp
    · exact ⟨seq, by simp at hp; exact hp.1⟩
  linked := fun p e hp => h.linked p e (by simpa using hp)
  unlinked := fun p hp => List.mem_append_left _ (h.unlinked p (by simpa using hp))
  temp := fun _ => by simp
  published := fun p => by simpa using h.published p

/-- A writer with nothing to let go of. -/
theorem Dropped.refl (h : w.Closed) (os : Os) : Dropped w os w os where
  closed := h
  step := by rw [h.ino]; exact .refl none os
  next := rfl
  entry := fun i hi => by rw [h.ino] at hi; cases hi
  file := fun i hi => by rw [h.ino] at hi; cases hi
  asks := fun hwf => ⟨0, .zero hwf rfl rfl⟩
  dir := rfl
  published := rfl
  log := List.prefix_refl _
  calls := id

/-- `open` of a closed writer leaves it closed and reports an error, or gives it
a new file. -/
theorem open_spec (hw : w.Closed) (hwf : os.WF) {ans : OpenAnswer} {r : Bytes × FileWriter × Os}
    (hr : w.«open» os ans = r) :
    (r.1 ≠ [] ∧ Dropped w os r.2.1 r.2.2 ∧ ∃ c ∈ r.2.1.log, c.ok = false) ∨
    (∃ fd, r.1 = [] ∧ Opened w os r.2.1 r.2.2 fd) := by
  subst hr
  rcases open_cases w os ans with ⟨text, hne, h⟩ | ⟨fd, hfd, hdir, h⟩
  · refine .inl ⟨hne, ?_⟩
    rw [h]
    refine ⟨⟨⟨rfl, rfl⟩, ?_, rfl, fun i hi => ?_, fun i hi => ?_,
      fun _ => ⟨1, asks_open _ hwf rfl rfl⟩, rfl, rfl, List.prefix_append _ _, fun hcalls => ?_⟩,
      _, List.mem_append_right _ (List.mem_singleton.mpr rfl), rfl⟩
    · rw [hw.ino]
      exact Os.FileStep.nextTempSeq none os
    · rw [hw.ino] at hi; cases hi
    · rw [hw.ino] at hi; cases hi
    · have := hcalls.openFailed os.tempSeq text
      simp only [hw.1, hw.2] at this ⊢
      exact this
  · refine .inr ⟨fd, by rw [h], ?_⟩
    have hwf' : os.nextTempSeq.WF := (Os.FileStep.nextTempSeq none os).wf hwf
    rw [h]
    refine ⟨holds_createFile w hwf' (tempName_ne_nil _ _ _) _, ?_, rfl, by simp, rfl, rfl, rfl, rfl,
      rfl, fun hcalls => hcalls.opened' os.tempSeq fd⟩
    have hfd' : os.nextTempSeq.fds fd = none := hfd
    exact (Os.FileStep.nextTempSeq none os).trans (.createFile hdir hfd')

theorem harmless_of_isWrite (w : FileWriter) {calls : List FsCall}
    (h : ∀ c ∈ calls, FsCall.isWrite c = true) : w.Harmless calls where
  opened := fun _ _ hc => absurd (h _ hc) (by simp [FsCall.isWrite])
  linked := fun _ _ hc => absurd (h _ hc) (by simp [FsCall.isWrite])
  unlinked := fun _ hc => absurd (h _ hc) (by simp [FsCall.isWrite])

/-- Closing the file and unlinking its name leaves nothing that leads to it. -/
theorem dropped_of_holds (h : w.Holds os fd i) {w' : FileWriter} {calls : List FsCall}
    (hclosed : w'.Closed) (hdir : w'.dir = w.dir) (hpub : w'.published = w.published)
    (hlog : w'.log = w.log ++ calls) (hcalls : w.Harmless calls) :
    Dropped w os w' (w.discard os fd) where
  closed := hclosed
  step := by
    rw [h.ino]
    exact ((Os.FileStep.close h.file_fd).trans (.unlink (by simpa using h.entry_temp))).release
  next := rfl
  entry := by
    intro j hj p hp
    obtain rfl : i = j := by simpa [h.ino] using hj
    by_cases hpt : p = w.tempPath
    · simp [discard, hpt] at hp
    · exact hpt ((h.entry p).mp (by simpa [discard, hpt] using hp))
  file := by
    intro j hj f hf
    obtain rfl : i = j := by simpa [h.ino] using hj
    by_cases hff : f = fd
    · simp [discard, hff] at hf
    · exact hff ((h.file f).mp (by simpa [discard, hff] using hf))
  asks := fun hwf => ⟨0, .zero hwf (hcalls.opens hlog) rfl⟩
  dir := hdir
  published := hpub
  log := hlog ▸ List.prefix_append _ _
  calls := fun hc => hc.append hcalls hdir (fun hne => absurd hclosed.2 hne) hpub hlog

theorem abort_spec (h : w.Holds os fd i) : Dropped w os (w.abort os).1 (w.abort os).2 := by
  rw [abort_of_holds h]
  refine dropped_of_holds h ⟨rfl, rfl⟩ rfl rfl rfl ⟨by simp, by simp, fun p hp => ?_⟩
  obtain rfl : p = w.tempPath := by simpa using hp
  exact ⟨h.temp, rfl⟩

/-- A drop after a write is a drop. -/
theorem Dropped.of_write (hh : w.Holds os fd i) {w' : FileWriter} {os' : Os} {bs : Bytes}
    {written : ℕ} {calls : List FsCall} (hcalls : ∀ c ∈ calls, FsCall.isWrite c = true)
    (h : Dropped { w with written := written, log := w.log ++ calls } (os.appendTo i bs) w' os') :
    Dropped w os w' os' := by
  have hino := hh.ino
  have hino' := (holds_appendTo hh bs written (w.log ++ calls)).ino
  have hopens :
      ({ w with written := written, log := w.log ++ calls } : FileWriter).opens = w.opens :=
    (harmless_of_isWrite w hcalls).opens rfl
  refine ⟨h.closed, ?_, h.next, fun j hj => h.entry j ?_, fun j hj => h.file j ?_, fun hwf => ?_,
    h.dir, h.published, (List.prefix_append _ _).trans h.log, fun hc => h.calls
      (hc.append (harmless_of_isWrite w hcalls) rfl (fun _ => rfl) rfl rfl)⟩
  · have hstep := h.step
    rw [hino'] at hstep
    rw [hino]
    exact (Os.FileStep.appendTo os i bs).trans hstep
  · rwa [hino', ← hino]
  · rwa [hino', ← hino]
  · obtain ⟨n, hn⟩ := h.asks ((Os.FileStep.appendTo os i bs).wf hwf)
    exact ⟨n, by rw [← hopens]; exact hn.1, hn.2⟩

/-- The calls after a successful `link` and the `unlink` that follows it. -/
theorem Calls.publish {pid : ℕ} (hc : w.Calls pid) (htemp : w.tempPath ≠ [])
    (hnone : w.published = none) {calls : List FsCall} (hcalls : w.Harmless calls) {name : Bytes}
    (hname : ∃ t suffix, suffix < 1000 ∧ name = candidateName (fileTimestamp t) suffix)
    {w' : FileWriter} (hdir : w'.dir = w.dir) (hclosed : w'.Closed)
    (hpub : w'.published = some (finalPath w.dir name, i))
    (hlog : w'.log = w.log ++ calls ++ [.link (finalPath w.dir name) none, .unlink w.tempPath]) :
    w'.Calls pid where
  opened := by
    intro p e hp
    have hp' : FsCall.open p e ∈ w.log := by simpa [hlog, hcalls.opened p e] using hp
    rw [hdir]
    exact hc.opened p e hp'
  linked := by
    intro p e hp
    have hp' : FsCall.link p e ∈ w.log ∨ FsCall.link p e ∈ calls ∨
        (p = finalPath w.dir name ∧ e = none) := by simpa [hlog] using hp
    rw [hdir]
    rcases hp' with hp | hp | ⟨rfl, -⟩
    · exact hc.linked p e hp
    · exact (hcalls.linked p e hp).2
    · obtain ⟨t, k, hk, rfl⟩ := hname
      exact ⟨t, k, hk, rfl⟩
  unlinked := by
    intro p hp
    have hp' : FsCall.unlink p ∈ w.log ∨ FsCall.unlink p ∈ calls ∨ p = w.tempPath := by
      simpa [hlog] using hp
    have hopened : FsCall.open p none ∈ w.log := by
      rcases hp' with hp | hp | rfl
      · exact hc.unlinked p hp
      · rw [(hcalls.unlinked p hp).2]
        exact hc.temp htemp
      · exact hc.temp htemp
    rw [hlog, List.append_assoc]
    exact List.mem_append_left _ hopened
  temp := fun hne => absurd hclosed.2 hne
  published := by
    intro p
    have hold : FsCall.link p none ∉ w.log := by
      intro hp
      obtain ⟨j, hj⟩ := (hc.published p).mp hp
      rw [hnone] at hj
      cases hj
    have hnew : FsCall.link p none ∉ calls := fun hp => (hcalls.linked p none hp).1 rfl
    simp [hlog, hold, hnew, hpub, eq_comm]

/-- Moving the file from its temporary to a final name. -/
theorem published_of_holds (h : w.Holds os fd i) (hwf : os.WF) {name : Bytes}
    (hfree : os.dir (finalPath w.dir name) = none)
    (hname : ∃ t suffix, suffix < 1000 ∧ name = candidateName (fileTimestamp t) suffix)
    {w' : FileWriter} {calls : List FsCall} (hclosed : w'.Closed) (hdir : w'.dir = w.dir)
    (hpub : w'.published = some (finalPath w.dir name, i)) (hcalls : w.Harmless calls)
    (hlog : w'.log = w.log ++ calls ++ [.link (finalPath w.dir name) none, .unlink w.tempPath]) :
    Published w os i w' (w.publish os fd (finalPath w.dir name) i) name := by
  set path := finalPath w.dir name with hpath
  have hpt : path ≠ w.tempPath := by
    intro heq
    rw [heq, h.entry_temp] at hfree
    cases hfree
  have hclose : Os.FileStep (some i) os (some i) (os.close fd) := Os.FileStep.close h.file_fd
  have hadd : Os.FileStep (some i) (os.close fd) (some i) ((os.close fd).addEntry path i) :=
    Os.FileStep.addEntry (by simpa using hwf.dir _ _ h.entry_temp) (by simpa using hfree)
  have hunlink : Os.FileStep (some i) ((os.close fd).addEntry path i) (some i)
      (w.publish os fd path i) :=
    Os.FileStep.unlink (by simpa [hpt.symm] using h.entry_temp)
  refine ⟨hclosed, ((hclose.trans hadd).trans hunlink).release, rfl, fun p => ?_, fun f hf => ?_,
    rfl, ?_, rfl, hdir, hpub, hname, ?_,
    fun hnone hc => hc.publish h.temp hnone hcalls hname hdir hclosed
      hpub hlog⟩
  · rw [← hpath]
    by_cases hp : p = path
    · simp [publish, hp, hpt]
    by_cases hpt' : p = w.tempPath
    · simp [publish, hpt', hpt.symm]
    · simpa [publish, hp, hpt'] using (not_congr (h.entry p)).mpr hpt'
  · by_cases hff : f = fd
    · simp [publish, hff] at hf
    · exact hff ((h.file f).mp (by simpa [publish, hff] using hf))
  · have hopens : ({ w with log := w.log ++ calls } : FileWriter).opens = w.opens :=
      hcalls.opens rfl
    rw [← hopens]
    simp [opens, hlog]
  · rw [hlog, List.append_assoc]
    exact List.prefix_append _ _

/-- The calls of a loop over the final names that failed. -/
theorem harmless_links {calls : List FsCall} {now : Tm} (hcalls : ∀ c ∈ calls, ∃ j text, j < 1000 ∧
    c = .link (w.candidate (fileTimestamp now) j) (some text)) : w.Harmless calls where
  opened := by
    intro p e hp
    obtain ⟨_, _, _, heq⟩ := hcalls _ hp
    cases heq
  linked := by
    intro p e hp
    obtain ⟨j, text, hj, heq⟩ := hcalls _ hp
    cases heq
    exact ⟨by simp, now, j, hj, rfl⟩
  unlinked := by
    intro p hp
    obtain ⟨_, _, _, heq⟩ := hcalls _ hp
    cases heq

theorem Harmless.append {x y : List FsCall} (hx : w.Harmless x) (hy : w.Harmless y) :
    w.Harmless (x ++ y) :=
  ⟨fun p e hp => (List.mem_append.mp hp).elim (hx.opened p e) (hy.opened p e),
    fun p e hp => (List.mem_append.mp hp).elim (hx.linked p e) (hy.linked p e),
    fun p hp => (List.mem_append.mp hp).elim (hx.unlinked p) (hy.unlinked p)⟩

theorem harmless_unlink (h : w.tempPath ≠ []) : w.Harmless [.unlink w.tempPath] :=
  ⟨by simp, by simp, fun p hp => by
    obtain rfl : p = w.tempPath := by simpa using hp
    exact ⟨h, rfl⟩⟩

theorem harmless_close (error : Option Bytes) : w.Harmless [.fsync error, .close] :=
  ⟨by simp, by simp, by simp⟩

/-- `commit` publishes the file, or fails, and then `abort` drops it. -/
theorem commit_spec (h : w.Holds os fd i) (hwf : os.WF) {fsyncFault : Option Bytes} {now : Tm}
    {linkFaults : ℕ → Option Bytes} {r : CommitResult × FileWriter × Os}
    (hr : w.commit os fsyncFault now linkFaults = r) :
    (r.1.error = [] ∧ Published w os i r.2.1 r.2.2 r.1.finalName) ∨
    (r.1.error ≠ [] ∧ Dropped w os (r.2.1.abort r.2.2).1 (r.2.1.abort r.2.2).2 ∧
      ∃ c ∈ (r.2.1.abort r.2.2).1.log, c.ok = false) := by
  subst hr
  rcases commit_cases h fsyncFault now linkFaults with
    ⟨k, calls, hk, -, -, hfree, -, hcalls, hrun⟩ | ⟨err, text, herr, hrun⟩ |
      ⟨err, calls, herr, hne, hcalls, hrun⟩
  · rw [hrun]
    have hlinks : w.Harmless calls := harmless_links fun c hc => by
      obtain ⟨j, text, hj, heq⟩ := hcalls c hc
      exact ⟨j, text, by omega, heq⟩
    exact .inl ⟨rfl, published_of_holds h hwf hfree ⟨now, k, hk, rfl⟩ ⟨rfl, rfl⟩ rfl rfl
      ((harmless_close none).append hlinks) (by simp [candidate])⟩
  · have h' : ({ w with log := w.log ++ [.fsync (some text)] } : FileWriter).Holds os fd i :=
      ⟨h.fd_eq, h.temp, h.file, h.entry⟩
    rw [hrun, abort_of_holds h']
    have hcalls := (harmless_close (some text)).append (harmless_unlink h.temp)
    exact .inr ⟨herr, dropped_of_holds h ⟨rfl, rfl⟩ rfl rfl (by simp) hcalls,
      .fsync (some text), by simp, rfl⟩
  · rw [hrun, abort_of_temp (by rfl) (by exact h.temp)]
    have hall := ((harmless_close none).append (harmless_links hcalls)).append
      (harmless_unlink h.temp)
    refine .inr ⟨herr, dropped_of_holds h ⟨rfl, rfl⟩ rfl rfl (by simp) hall, ?_⟩
    obtain ⟨c, hc⟩ := List.exists_mem_of_ne_nil _ hne
    obtain ⟨j, text, -, rfl⟩ := hcalls c hc
    exact ⟨.link (w.candidate (fileTimestamp now) j) (some text), by simp [hc], rfl⟩

end FileWriter

end Nexus
