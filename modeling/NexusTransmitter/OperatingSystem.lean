/-
The operating system as the program sees it.

`Os` is the state its system calls read and change: the directory entries with
the inodes behind them, one table of open descriptors for files and sockets
alike, and the interest list of the reactor's epoll instance. What the system is
free to choose in a call (which free descriptor number, how much of a buffer,
whether the call fails and why) is an argument of the call, its *answer*; the
rest follows the manual pages: `O_EXCL` refuses an existing entry, `link` does
not replace one, no file grows beyond `off_t`, a closed descriptor leaves epoll.

The files are an `Ownership.Store` (`Os.files`): a file is its inode's contents
with the entries and the descriptors that lead to it. What a program does with
the one file it has open is confined to that file (`Os.confined_appendTo` and
its neighbours).
-/
import NexusTransmitter.Lib.Ownership
import NexusTransmitter.Text

open Ownership

namespace Nexus

/-- Where an open descriptor leads: to an inode, to an accepted connection, or
to something else (the listener, the signalfd, the epoll instance). -/
inductive Handle
  | file (ino : ℕ)
  | socket (conn : ℕ)
  | other
  deriving DecidableEq, Repr

/-- `tempSeq` is the static counter of `nextTempSeq`, which is shared by the
whole process; everything else is the kernel's. -/
structure Os where
  pid : ℕ
  tempSeq : ℕ
  /-- Directory entries: path to inode number. -/
  dir : Bytes → Option ℕ
  /-- File contents by inode number. -/
  data : ℕ → Bytes
  nextIno : ℕ
  /-- Open descriptors. -/
  fds : ℕ → Option Handle
  nextConn : ℕ
  /-- Registered descriptors with their event masks. -/
  epoll : ℕ → Option (BitVec 32)

/-- The largest file size, `off_t` being signed 64-bit. -/
def MAX_OFF : ℕ := 2 ^ 63 - 1

/-! ### Answers -/

/-- What `read` gives: the bytes, none of them at the end of the stream, or an
error. `err` carries the `strerror` text of an `errno` the program does not
test for. -/
inductive ReadAnswer
  | bytes (bs : Bytes)
  | eagain
  | eintr
  | err (text : Bytes)
  deriving DecidableEq, Repr

/-- What `send` gives: how much of the buffer it took, or an error. -/
inductive SendAnswer
  | took (n : ℕ)
  | eagain
  | eintr
  | err (text : Bytes)
  deriving DecidableEq, Repr

/-- What a `send` of `p` takes. -/
def SendAnswer.taken (ans : SendAnswer) (p : Bytes) : Bytes :=
  match ans with
  | .took n => p.take n
  | _ => []

theorem SendAnswer.taken_front (ans : SendAnswer) (p : Bytes) : ans.taken p <+: p := by
  cases ans with
  | took n => exact List.take_prefix n p
  | eagain => exact List.nil_prefix
  | eintr => exact List.nil_prefix
  | err text => exact List.nil_prefix

/-- What `write` on a file gives. -/
inductive WriteAnswer
  | took (n : ℕ)
  | eintr
  | err (text : Bytes)
  deriving DecidableEq, Repr

/-- What `open` gives: a descriptor number, or an error other than `EEXIST`. -/
inductive OpenAnswer
  | fd (n : ℕ)
  | err (text : Bytes)
  deriving DecidableEq, Repr

/-- What `link` returns; `done` names the inode now linked twice. -/
inductive LinkResult
  | done (ino : ℕ)
  | eexist
  | err (text : Bytes)
  deriving DecidableEq, Repr

namespace Os

/-! ### Files -/

/-- `nextTempSeq`: the counter it returned before is `os.tempSeq`. -/
def nextTempSeq (os : Os) : Os := { os with tempSeq := (os.tempSeq + 1) % 2 ^ 64 }

/-- A new empty file under `path`, open as `fd`. -/
def createFile (os : Os) (path : Bytes) (fd : ℕ) : Os :=
  { os with
    dir := Function.update os.dir path (some os.nextIno)
    data := Function.update os.data os.nextIno []
    fds := Function.update os.fds fd (some (.file os.nextIno))
    nextIno := os.nextIno + 1 }

/-- `open(path, O_WRONLY | O_CREAT | O_EXCL)`. -/
def openExcl (os : Os) (path : Bytes) : OpenAnswer → Except Bytes ℕ × Os
  | .err text => (.error text, os)
  | .fd n =>
    if (os.dir path).isSome then (.error (str "File exists"), os)
    else if (os.fds n).isSome then (.error (str "Too many open files"), os)
    else (.ok n, os.createFile path n)

/-- More bytes at the end of the file `ino`. -/
def appendTo (os : Os) (ino : ℕ) (bs : Bytes) : Os :=
  { os with data := Function.update os.data ino (os.data ino ++ bs) }

/-- `write(fd, p, len)` at the end of the file. A regular file takes at least
one byte, at most what is offered, and no more than fits below `MAX_OFF`. -/
def write (os : Os) (fd : ℕ) (p : Bytes) : WriteAnswer → WriteAnswer × Os
  | .eintr => (.eintr, os)
  | .err text => (.err text, os)
  | .took n =>
    match os.fds fd with
    | some (.file ino) =>
      let room := MAX_OFF - (os.data ino).length
      if room = 0 then (.err (str "File too large"), os)
      else
        let m := min (max n 1) (min p.length room)
        (.took m, os.appendTo ino (p.take m))
    | _ => (.err (str "Bad file descriptor"), os)

/-- `close(fd)`: the number is free again, and gone from epoll. -/
def close (os : Os) (fd : ℕ) : Os :=
  { os with
    fds := Function.update os.fds fd none
    epoll := Function.update os.epoll fd none }

/-- A second entry for the file `ino`. -/
def addEntry (os : Os) (path : Bytes) (ino : ℕ) : Os :=
  { os with dir := Function.update os.dir path (some ino) }

/-- `link(old, new)`, with the error it fails with, if any, when that is not
`EEXIST`. -/
def link (os : Os) (old new : Bytes) : Option Bytes → LinkResult × Os
  | some text => (.err text, os)
  | none =>
    match os.dir old with
    | none => (.err (str "No such file or directory"), os)
    | some ino =>
      if (os.dir new).isSome then (.eexist, os) else (.done ino, os.addEntry new ino)

/-- `unlink(path)`. -/
def unlink (os : Os) (path : Bytes) : Os :=
  { os with dir := Function.update os.dir path none }

/-! ### Sockets and epoll -/

/-- A new connection, open as `fd`. -/
def connect (os : Os) (fd : ℕ) : Os :=
  { os with
    fds := Function.update os.fds fd (some (.socket os.nextConn))
    nextConn := os.nextConn + 1 }

/-- `accept4`: a connection under a descriptor number that is not in use; `none`
when there is no connection to accept. -/
def accept (os : Os) (fd : ℕ) : Option (ℕ × Os) :=
  if (os.fds fd).isSome then none else some (os.nextConn, os.connect fd)

/-- `epoll_ctl(ADD)` and `epoll_ctl(MOD)`. -/
def setInterest (os : Os) (fd : ℕ) (events : BitVec 32) : Os :=
  { os with epoll := Function.update os.epoll fd (some events) }

/-- `epoll_ctl(DEL)`. -/
def epollDel (os : Os) (fd : ℕ) : Os :=
  { os with epoll := Function.update os.epoll fd none }

/-! ### Well-formed states -/

/-- Inode numbers in use have been given out, and the counter is one of 64
bits. -/
structure WF (os : Os) : Prop where
  seq : os.tempSeq < 2 ^ 64
  dir : ∀ p i, os.dir p = some i → i < os.nextIno
  fds : ∀ f i, os.fds f = some (.file i) → i < os.nextIno

/-- A system with nothing in it. -/
def empty (pid : ℕ) : Os where
  pid := pid
  tempSeq := 0
  dir := fun _ => none
  data := fun _ => []
  nextIno := 0
  fds := fun _ => none
  nextConn := 0
  epoll := fun _ => none

theorem WF.empty (pid : ℕ) : (empty pid).WF :=
  ⟨by simp [Os.empty], fun _ _ h => (nomatch h), fun _ _ h => (nomatch h)⟩

section Fields

variable (os : Os) (path q : Bytes) (fd f ino i : ℕ) (bs : Bytes)

@[simp] theorem nextTempSeq_dir : os.nextTempSeq.dir = os.dir := rfl
@[simp] theorem nextTempSeq_data : os.nextTempSeq.data = os.data := rfl
@[simp] theorem nextTempSeq_fds : os.nextTempSeq.fds = os.fds := rfl
@[simp] theorem nextTempSeq_nextIno : os.nextTempSeq.nextIno = os.nextIno := rfl
@[simp] theorem nextTempSeq_pid : os.nextTempSeq.pid = os.pid := rfl
@[simp] theorem nextTempSeq_epoll : os.nextTempSeq.epoll = os.epoll := rfl
@[simp] theorem nextTempSeq_nextConn : os.nextTempSeq.nextConn = os.nextConn := rfl
@[simp] theorem nextTempSeq_tempSeq : os.nextTempSeq.tempSeq = (os.tempSeq + 1) % 2 ^ 64 := rfl

@[simp] theorem createFile_dir :
    (os.createFile path fd).dir q = if q = path then some os.nextIno else os.dir q := by
  simp [createFile, Function.update_apply]
@[simp] theorem createFile_data :
    (os.createFile path fd).data i = if i = os.nextIno then [] else os.data i := by
  simp [createFile, Function.update_apply]
@[simp] theorem createFile_fds :
    (os.createFile path fd).fds f = if f = fd then some (.file os.nextIno) else os.fds f := by
  simp [createFile, Function.update_apply]
@[simp] theorem createFile_nextIno : (os.createFile path fd).nextIno = os.nextIno + 1 := rfl
@[simp] theorem createFile_pid : (os.createFile path fd).pid = os.pid := rfl
@[simp] theorem createFile_epoll : (os.createFile path fd).epoll = os.epoll := rfl
@[simp] theorem createFile_nextConn : (os.createFile path fd).nextConn = os.nextConn := rfl
@[simp] theorem createFile_tempSeq : (os.createFile path fd).tempSeq = os.tempSeq := rfl

@[simp] theorem appendTo_dir : (os.appendTo ino bs).dir = os.dir := rfl
@[simp] theorem appendTo_data :
    (os.appendTo ino bs).data i = if i = ino then os.data ino ++ bs else os.data i := by
  simp [appendTo, Function.update_apply]
@[simp] theorem appendTo_fds : (os.appendTo ino bs).fds = os.fds := rfl
@[simp] theorem appendTo_nextIno : (os.appendTo ino bs).nextIno = os.nextIno := rfl
@[simp] theorem appendTo_pid : (os.appendTo ino bs).pid = os.pid := rfl
@[simp] theorem appendTo_epoll : (os.appendTo ino bs).epoll = os.epoll := rfl
@[simp] theorem appendTo_nextConn : (os.appendTo ino bs).nextConn = os.nextConn := rfl
@[simp] theorem appendTo_tempSeq : (os.appendTo ino bs).tempSeq = os.tempSeq := rfl

@[simp] theorem close_dir : (os.close fd).dir = os.dir := rfl
@[simp] theorem close_data : (os.close fd).data = os.data := rfl
@[simp] theorem close_fds : (os.close fd).fds f = if f = fd then none else os.fds f := by
  simp [close, Function.update_apply]
@[simp] theorem close_nextIno : (os.close fd).nextIno = os.nextIno := rfl
@[simp] theorem close_pid : (os.close fd).pid = os.pid := rfl
@[simp] theorem close_epoll : (os.close fd).epoll f = if f = fd then none else os.epoll f := by
  simp [close, Function.update_apply]
@[simp] theorem close_nextConn : (os.close fd).nextConn = os.nextConn := rfl
@[simp] theorem close_tempSeq : (os.close fd).tempSeq = os.tempSeq := rfl

@[simp] theorem addEntry_dir :
    (os.addEntry path ino).dir q = if q = path then some ino else os.dir q := by
  simp [addEntry, Function.update_apply]
@[simp] theorem addEntry_data : (os.addEntry path ino).data = os.data := rfl
@[simp] theorem addEntry_fds : (os.addEntry path ino).fds = os.fds := rfl
@[simp] theorem addEntry_nextIno : (os.addEntry path ino).nextIno = os.nextIno := rfl
@[simp] theorem addEntry_pid : (os.addEntry path ino).pid = os.pid := rfl
@[simp] theorem addEntry_epoll : (os.addEntry path ino).epoll = os.epoll := rfl
@[simp] theorem addEntry_nextConn : (os.addEntry path ino).nextConn = os.nextConn := rfl
@[simp] theorem addEntry_tempSeq : (os.addEntry path ino).tempSeq = os.tempSeq := rfl

@[simp] theorem unlink_dir : (os.unlink path).dir q = if q = path then none else os.dir q := by
  simp [unlink, Function.update_apply]
@[simp] theorem unlink_data : (os.unlink path).data = os.data := rfl
@[simp] theorem unlink_fds : (os.unlink path).fds = os.fds := rfl
@[simp] theorem unlink_nextIno : (os.unlink path).nextIno = os.nextIno := rfl
@[simp] theorem unlink_pid : (os.unlink path).pid = os.pid := rfl
@[simp] theorem unlink_epoll : (os.unlink path).epoll = os.epoll := rfl
@[simp] theorem unlink_nextConn : (os.unlink path).nextConn = os.nextConn := rfl
@[simp] theorem unlink_tempSeq : (os.unlink path).tempSeq = os.tempSeq := rfl

@[simp] theorem connect_fds :
    (os.connect fd).fds f = if f = fd then some (.socket os.nextConn) else os.fds f := by
  simp [connect, Function.update_apply]
@[simp] theorem connect_epoll : (os.connect fd).epoll = os.epoll := rfl
@[simp] theorem connect_nextConn : (os.connect fd).nextConn = os.nextConn + 1 := rfl

variable (events : BitVec 32)

@[simp] theorem setInterest_fds : (os.setInterest fd events).fds = os.fds := rfl
@[simp] theorem setInterest_epoll :
    (os.setInterest fd events).epoll f = if f = fd then some events else os.epoll f := by
  simp [setInterest, Function.update_apply]
@[simp] theorem setInterest_nextConn : (os.setInterest fd events).nextConn = os.nextConn := rfl

@[simp] theorem epollDel_fds : (os.epollDel fd).fds = os.fds := rfl
@[simp] theorem epollDel_epoll :
    (os.epollDel fd).epoll f = if f = fd then none else os.epoll f := by
  simp [epollDel, Function.update_apply]
@[simp] theorem epollDel_nextConn : (os.epollDel fd).nextConn = os.nextConn := rfl

theorem epollDel_close : (os.epollDel fd).close fd = os.close fd := by
  simp [epollDel, close]

end Fields

/-! ### What a call can do -/

theorem openExcl_cases (os : Os) (path : Bytes) (ans : OpenAnswer) :
    (∃ text, os.openExcl path ans = (.error text, os)) ∨
    (∃ fd, os.fds fd = none ∧ os.dir path = none ∧
      os.openExcl path ans = (.ok fd, os.createFile path fd)) := by
  cases ans with
  | err text => exact .inl ⟨text, rfl⟩
  | fd n =>
    by_cases hdir : (os.dir path).isSome
    · exact .inl ⟨_, by rw [openExcl, if_pos hdir]⟩
    by_cases hfd : (os.fds n).isSome
    · exact .inl ⟨_, by rw [openExcl, if_neg hdir, if_pos hfd]⟩
    · exact .inr ⟨n, by simpa using hfd, by simpa using hdir,
        by rw [openExcl, if_neg hdir, if_neg hfd]⟩

/-- A write to an open file takes a non-empty prefix, is interrupted, or fails, which is
the system's answer unless the file is as long as it can be. -/
theorem write_cases {os : Os} {fd ino : ℕ} (h : os.fds fd = some (.file ino)) {p : Bytes}
    (hp : p ≠ []) (ans : WriteAnswer) :
    (∃ m, 0 < m ∧ m ≤ p.length ∧ (os.data ino ++ p.take m).length ≤ MAX_OFF ∧
      os.write fd p ans = (.took m, os.appendTo ino (p.take m))) ∨
    (ans = .eintr ∧ os.write fd p ans = (.eintr, os)) ∨
    ∃ text, (ans = .err text ∨ text = str "File too large" ∧ MAX_OFF ≤ (os.data ino).length) ∧
      os.write fd p ans = (.err text, os) := by
  cases ans with
  | eintr => exact .inr (.inl ⟨rfl, rfl⟩)
  | err text => exact .inr (.inr ⟨text, .inl rfl, rfl⟩)
  | took n =>
    have hlen : 0 < p.length := List.length_pos_of_ne_nil hp
    simp only [write, h]
    split
    · exact .inr (.inr ⟨_, .inr ⟨rfl, by omega⟩, rfl⟩)
    · refine .inl ⟨min (max n 1) (min p.length (MAX_OFF - (os.data ino).length)), ?_, ?_, ?_, rfl⟩
      · omega
      · omega
      · rw [List.length_append, List.length_take]
        omega

theorem link_cases (os : Os) (old new : Bytes) (fault : Option Bytes) :
    (∃ ino, os.dir old = some ino ∧ os.dir new = none ∧
      os.link old new fault = (.done ino, os.addEntry new ino)) ∨
    (fault = none ∧ (os.dir new).isSome ∧ os.link old new fault = (.eexist, os)) ∨
    ∃ text, os.link old new fault = (.err text, os) := by
  cases fault with
  | some text => exact .inr (.inr ⟨text, rfl⟩)
  | none =>
    unfold link
    cases hold : os.dir old with
    | none => exact .inr (.inr ⟨_, rfl⟩)
    | some ino =>
      by_cases hnew : (os.dir new).isSome
      · exact .inr (.inl ⟨rfl, hnew, by simp [hnew]⟩)
      · exact .inl ⟨ino, rfl, by simpa using hnew, by simp [hnew]⟩

/-! ### Steps on one file -/

/-- The file `j` is the same: its contents and all that leads to it. -/
structure SameFile (j : ℕ) (os os' : Os) : Prop where
  data : os'.data j = os.data j
  dir : ∀ p, os'.dir p = some j ↔ os.dir p = some j
  fds : ∀ f, os'.fds f = some (.file j) ↔ os.fds f = some (.file j)

theorem SameFile.refl (j : ℕ) (os : Os) : SameFile j os os :=
  ⟨rfl, fun _ => Iff.rfl, fun _ => Iff.rfl⟩

theorem SameFile.trans {j : ℕ} {os os' os'' : Os} (h : SameFile j os os')
    (h' : SameFile j os' os'') : SameFile j os os'' where
  data := h'.data.trans h.data
  dir := fun p => (h'.dir p).trans (h.dir p)
  fds := fun f => (h'.fds f).trans (h.fds f)

/-- The files of the system as a store of objects. -/
def files : Store Os where
  next := Os.nextIno
  Same := SameFile
  same_refl := SameFile.refl
  same_trans := SameFile.trans

@[simp] theorem files_next : files.next = Os.nextIno := rfl
@[simp] theorem files_same : files.Same = SameFile := rfl

/-- Everything about files is as before. -/
structure SameFiles (os os' : Os) : Prop where
  pid : os'.pid = os.pid
  tempSeq : os'.tempSeq = os.tempSeq
  dir : os'.dir = os.dir
  data : os'.data = os.data
  nextIno : os'.nextIno = os.nextIno
  fds : ∀ f i, os'.fds f = some (.file i) ↔ os.fds f = some (.file i)

namespace SameFiles

variable {os os' os'' : Os}

theorem file (h : SameFiles os os') (j : ℕ) : SameFile j os os' :=
  ⟨by rw [h.data], fun p => by rw [h.dir], fun f => h.fds f j⟩

theorem wf (h : SameFiles os os') (hwf : os.WF) : os'.WF where
  seq := by rw [h.tempSeq]; exact hwf.seq
  dir := by rw [h.dir, h.nextIno]; exact hwf.dir
  fds := fun f i hf => by rw [h.nextIno]; exact hwf.fds f i ((h.fds f i).mp hf)

theorem trans (h : SameFiles os os') (h' : SameFiles os' os'') : SameFiles os os'' where
  pid := h'.pid.trans h.pid
  tempSeq := h'.tempSeq.trans h.tempSeq
  dir := h'.dir.trans h.dir
  data := h'.data.trans h.data
  nextIno := h'.nextIno.trans h.nextIno
  fds := fun f i => (h'.fds f i).trans (h.fds f i)

theorem refl (os : Os) : SameFiles os os := ⟨rfl, rfl, rfl, rfl, rfl, fun _ _ => Iff.rfl⟩

/-- A descriptor that leads to no file is closed. -/
theorem close {fd : ℕ} (hfd : ∀ i, os.fds fd ≠ some (.file i)) : SameFiles os (os.close fd) where
  pid := rfl
  tempSeq := rfl
  dir := rfl
  data := rfl
  nextIno := rfl
  fds := by
    intro f i
    rw [close_fds]
    split
    · rename_i hf
      rw [hf]
      exact iff_of_false (by simp) (hfd i)
    · rfl

/-- A descriptor that was not in use leads to a connection. -/
theorem connect {fd : ℕ} (hfd : os.fds fd = none) : SameFiles os (os.connect fd) where
  pid := rfl
  tempSeq := rfl
  dir := rfl
  data := rfl
  nextIno := rfl
  fds := by
    intro f i
    rw [connect_fds]
    split
    · rename_i hf
      rw [hf, hfd]
      exact iff_of_false (by simp) (by simp)
    · rfl

theorem setInterest (os : Os) (fd : ℕ) (events : BitVec 32) :
    SameFiles os (os.setInterest fd events) :=
  ⟨rfl, rfl, rfl, rfl, rfl, fun _ _ => Iff.rfl⟩

theorem epollDel (os : Os) (fd : ℕ) : SameFiles os (os.epollDel fd) :=
  ⟨rfl, rfl, rfl, rfl, rfl, fun _ _ => Iff.rfl⟩

end SameFiles

/-- Sockets and other descriptors are as before, and so is what epoll has
registered for them. -/
structure KeepsSockets (os os' : Os) : Prop where
  pid : os'.pid = os.pid
  nextConn : os'.nextConn = os.nextConn
  fds : ∀ f h, (∀ i, h ≠ .file i) → (os'.fds f = some h ↔ os.fds f = some h)
  epoll : ∀ f h, (∀ i, h ≠ .file i) → os.fds f = some h → os'.epoll f = os.epoll f
  epoll_none : ∀ f, os.epoll f = none → os'.epoll f = none

theorem KeepsSockets.refl (os : Os) : KeepsSockets os os :=
  ⟨rfl, rfl, fun _ _ _ => Iff.rfl, fun _ _ _ _ => rfl, fun _ h => h⟩

theorem KeepsSockets.trans {os os' os'' : Os} (h : KeepsSockets os os')
    (h' : KeepsSockets os' os'') : KeepsSockets os os'' where
  pid := h'.pid.trans h.pid
  nextConn := h'.nextConn.trans h.nextConn
  fds := fun f g hg => (h'.fds f g hg).trans (h.fds f g hg)
  epoll := fun f g hg hf => (h'.epoll f g hg ((h.fds f g hg).mpr hf)).trans (h.epoll f g hg hf)
  epoll_none := fun f hf => h'.epoll_none f (h.epoll_none f hf)

/-- Sockets and other descriptors are as before, and so is what epoll has
registered for them, but the descriptor `fd` is closed. -/
structure Closes (fd : ℕ) (os os' : Os) : Prop where
  nextConn : os'.nextConn = os.nextConn
  fds : ∀ f h, (∀ i, h ≠ .file i) → (os'.fds f = some h ↔ f ≠ fd ∧ os.fds f = some h)
  epoll : ∀ f h, (∀ i, h ≠ .file i) → f ≠ fd → os.fds f = some h → os'.epoll f = os.epoll f
  epoll_none : ∀ f, f = fd ∨ os.epoll f = none → os'.epoll f = none

theorem KeepsSockets.closes {os os₁ os' : Os} {fd : ℕ} (h : KeepsSockets os os₁)
    (h' : KeepsSockets (os₁.close fd) os') : Closes fd os os' where
  nextConn := h'.nextConn.trans h.nextConn
  fds := by
    intro f g hg
    rw [h'.fds f g hg, close_fds, ← h.fds f g hg]
    by_cases hf : f = fd <;> simp [hf]
  epoll := by
    intro f g hg hne hf
    have hf₁ := (h.fds f g hg).mpr hf
    rw [h'.epoll f g hg (by simpa [hne] using hf₁), close_epoll, if_neg hne, h.epoll f g hg hf]
  epoll_none := fun f hf => h'.epoll_none f (by
    rw [close_epoll]
    split
    · rfl
    · exact h.epoll_none f (hf.resolve_left ‹_›))

/-- A step of a party on the file it owns, if any; `own'` is its file after the
step. -/
structure FileStep (own : Option ℕ) (os : Os) (own' : Option ℕ) (os' : Os) : Prop where
  confined : Confined files own os own' os'
  sockets : KeepsSockets os os'
  wf : os.WF → os'.WF

namespace FileStep

variable {own own' own'' : Option ℕ} {os os' os'' : Os}

theorem refl (own : Option ℕ) (os : Os) : FileStep own os own os :=
  ⟨.refl files own os, .refl os, id⟩

theorem trans (h : FileStep own os own' os') (h' : FileStep own' os' own'' os'') :
    FileStep own os own'' os'' :=
  ⟨h.confined.trans h'.confined, h.sockets.trans h'.sockets, fun hwf => h'.wf (h.wf hwf)⟩

/-- The party may let go of its file. -/
theorem release (h : FileStep own os own' os') : FileStep own os none os' :=
  ⟨⟨h.confined.next_le, h.confined.same, by simp⟩, h.sockets, h.wf⟩

theorem nextTempSeq (own : Option ℕ) (os : Os) : FileStep own os own os.nextTempSeq where
  confined := ⟨Nat.le_refl _, fun _ _ _ => ⟨rfl, fun _ => Iff.rfl, fun _ => Iff.rfl⟩,
    fun _ h => .inl h⟩
  sockets := ⟨rfl, rfl, fun _ _ _ => Iff.rfl, fun _ _ _ _ => rfl, fun _ h => h⟩
  wf := fun h => ⟨Nat.mod_lt _ (by decide), h.dir, h.fds⟩

theorem createFile {path : Bytes} {fd : ℕ} (hdir : os.dir path = none) (hfd : os.fds fd = none) :
    FileStep none os (some os.nextIno) (os.createFile path fd) where
  confined := by
    -- neither the entry nor the descriptor was in use, so no other file loses one
    refine ⟨Nat.le_succ _, fun j hj _ => ?_, fun i hi => .inr (Nat.le_of_eq (by simpa using hi))⟩
    have hne : j ≠ os.nextIno := Nat.ne_of_lt hj
    refine ⟨by simp [hne], fun p => ?_, fun f => ?_⟩
    · by_cases hp : p = path
      · simp [hp, hdir, hne.symm]
      · simp [hp]
    · by_cases hf : f = fd
      · simp [hf, hfd, hne.symm]
      · simp [hf]
  sockets := by
    refine ⟨rfl, rfl, fun f h hh => ?_, fun _ _ _ _ => rfl, fun _ h => h⟩
    by_cases hf : f = fd
    · simp [hf, hfd, (hh os.nextIno).symm]
    · simp [hf]
  wf := by
    intro h
    refine ⟨h.seq, fun p i hp => ?_, fun f i hf => ?_⟩
    · rw [createFile_dir] at hp
      rw [createFile_nextIno]
      split at hp
      · cases hp; omega
      · have := h.dir p i hp
        omega
    · rw [createFile_fds] at hf
      rw [createFile_nextIno]
      split at hf
      · cases hf; omega
      · have := h.fds f i hf
        omega

theorem appendTo (os : Os) (i : ℕ) (bs : Bytes) :
    FileStep (some i) os (some i) (os.appendTo i bs) where
  confined := by
    refine ⟨Nat.le_refl _, fun j _ hj => ?_, fun _ h => .inl h⟩
    have hne : j ≠ i := fun h => hj (by rw [h])
    exact ⟨by simp [hne], fun _ => Iff.rfl, fun _ => Iff.rfl⟩
  sockets := ⟨rfl, rfl, fun _ _ _ => Iff.rfl, fun _ _ _ _ => rfl, fun _ h => h⟩
  wf := fun h => ⟨h.seq, h.dir, h.fds⟩

theorem close {i fd : ℕ} (hfd : os.fds fd = some (.file i)) :
    FileStep (some i) os (some i) (os.close fd) where
  confined := by
    refine ⟨Nat.le_refl _, fun j _ hj => ⟨rfl, fun _ => Iff.rfl, fun f => ?_⟩, fun _ h => .inl h⟩
    by_cases hf : f = fd
    · simpa [hf, hfd] using hj
    · simp [hf]
  sockets := by
    refine ⟨rfl, rfl, fun f h hh => ?_, fun f h hh hf => ?_, fun f hf => ?_⟩
    · by_cases hf : f = fd
      · simp [hf, hfd, (hh i).symm]
      · simp [hf]
    · have hne : f ≠ fd := fun heq => hh i (by simpa [heq, hfd] using hf.symm)
      simp [hne]
    · simp [hf]
  wf := by
    intro h
    refine ⟨h.seq, h.dir, fun f i hf => ?_⟩
    rw [close_fds] at hf
    split at hf
    · cases hf
    · exact h.fds f i hf

theorem addEntry {i : ℕ} {path : Bytes} (hi : i < os.nextIno) (hdir : os.dir path = none) :
    FileStep (some i) os (some i) (os.addEntry path i) where
  confined := by
    refine ⟨Nat.le_refl _, fun j _ hj => ⟨rfl, fun p => ?_, fun _ => Iff.rfl⟩, fun _ h => .inl h⟩
    by_cases hp : p = path
    · simpa [hp, hdir] using hj
    · simp [hp]
  sockets := ⟨rfl, rfl, fun _ _ _ => Iff.rfl, fun _ _ _ _ => rfl, fun _ h => h⟩
  wf := by
    intro h
    refine ⟨h.seq, fun p j hp => ?_, h.fds⟩
    rw [addEntry_dir] at hp
    split at hp
    · cases hp; exact hi
    · exact h.dir p j hp

theorem unlink {i : ℕ} {path : Bytes} (hdir : os.dir path = some i) :
    FileStep (some i) os (some i) (os.unlink path) where
  confined := by
    refine ⟨Nat.le_refl _, fun j _ hj => ⟨rfl, fun p => ?_, fun _ => Iff.rfl⟩, fun _ h => .inl h⟩
    by_cases hp : p = path
    · simpa [hp, hdir] using hj
    · simp [hp]
  sockets := ⟨rfl, rfl, fun _ _ _ => Iff.rfl, fun _ _ _ _ => rfl, fun _ h => h⟩
  wf := by
    intro h
    refine ⟨h.seq, fun p j hp => ?_, h.fds⟩
    rw [unlink_dir] at hp
    split at hp
    · cases hp
    · exact h.dir p j hp

end FileStep

end Os

end Nexus
