/-
`commit` and `abort` in any directory.

`FileWriter` says what the operations do to a writer that holds its file. Here
nothing is assumed: of any writer, in any directory and with any failures,
`commit` succeeds exactly when `fsync` does and the loop over the names comes to
a free one (`FirstFree`), and whatever happens it does not touch any other entry.

* `commit_atomic` — when `commit` succeeds, under which name, and what it and
  `abort` leave in the directory.
-/
import NexusTransmitter.FileWriter

namespace Nexus

namespace FileWriter

/-- The name with suffix `k` is the first that does not exist, and `link` fails
with nothing but `EEXIST` up to there. -/
structure FirstFree (w : FileWriter) (os : Os) (stamp : Bytes) (faults : ℕ → Option Bytes)
    (k : ℕ) : Prop where
  lt : k < 1000
  fault : faults k = none
  free : os.dir (w.candidate stamp k) = none
  taken : ∀ j < k, faults j = none ∧ (os.dir (w.candidate stamp j)).isSome

/-! ### The loop over the names -/

section Loop

variable {w : FileWriter} {os : Os} {stamp : Bytes} {faults : ℕ → Option Bytes}

/-- The loop comes to the first free name. -/
theorem linkLoop_of_firstFree {i k : ℕ} (hi : os.dir w.tempPath = some i) (hk : faults k = none)
    (hfree : os.dir (w.candidate stamp k) = none) (left suffix : ℕ) (hle : suffix ≤ k)
    (hlt : k < suffix + left)
    (htaken : ∀ j, suffix ≤ j → j < k → faults j = none ∧ (os.dir (w.candidate stamp j)).isSome) :
    (linkLoop stamp faults w os left suffix).1 =
      { finalName := candidateName stamp k, error := [] } := by
  induction left generalizing w suffix with
  | zero => omega
  | succ left ih =>
    by_cases heq : suffix = k
    · subst heq
      have hlink : os.link w.tempPath (w.candidate stamp suffix) (faults suffix) =
          (.done i, os.addEntry (w.candidate stamp suffix) i) := by
        rw [hk, Os.link, hi, hfree]
        rfl
      simp only [linkLoop, candidate] at hlink ⊢
      rw [hlink]
    · -- one more name is taken
      obtain ⟨hnone, hold⟩ := htaken suffix (Nat.le_refl _) (by omega)
      have hlink : os.link w.tempPath (w.candidate stamp suffix) (faults suffix) =
          (.eexist, os) := by
        rw [hnone, Os.link, hi]
        simp only [hold, if_true]
      have hrun := ih (w := { w with
        log := w.log ++ [.link (w.candidate stamp suffix) (some (str "File exists"))] }) hi hfree
        (suffix + 1) (by omega) (by omega) fun j hj hjk => htaken j (by omega) hjk
      simp only [linkLoop, candidate] at hlink hrun ⊢
      rw [hlink]
      exact hrun

/-- A `link` of a file that is not there fails. -/
theorem link_of_no_file {old : Bytes} (h : os.dir old = none) (new : Bytes) (fault : Option Bytes) :
    ∃ text, os.link old new fault = (.err text, os) := by
  cases fault with
  | none => exact ⟨_, by rw [Os.link, h]⟩
  | some text => exact ⟨text, rfl⟩

/-- So the loop fails at once when the temporary file is not there. -/
theorem linkLoop_of_no_file (h : os.dir w.tempPath = none) (left suffix : ℕ) :
    ∃ err log, err ≠ [] ∧ linkLoop stamp faults w os left suffix =
      ({ finalName := [], error := err }, { w with log := log }, os) := by
  cases left with
  | zero =>
    refine ⟨_, w.log, ?_, rfl⟩
    simp
  | succ left =>
    obtain ⟨text, hlink⟩ := link_of_no_file h (w.candidate stamp suffix) (faults suffix)
    refine ⟨str "не удалось создать " ++ w.candidate stamp suffix ++ str ": " ++ text,
      w.log ++ [.link (w.candidate stamp suffix) (some text)], ?_, ?_⟩
    · simp
    · simp only [linkLoop, candidate] at hlink ⊢
      rw [hlink]

end Loop

/-! ### `commit` -/

/-- What `commit` leaves behind: the file under its final name, or everything
where it was. -/
inductive Committed (w : FileWriter) (os : Os) (fsyncFault : Option Bytes) (stamp : Bytes)
    (faults : ℕ → Option Bytes) (r : CommitResult × FileWriter × Os) : Prop
  | published (fd i k : ℕ) (hfd : w.fd = some fd) (hfsync : fsyncFault = none)
      (hfile : os.dir w.tempPath = some i) (hfirst : w.FirstFree os stamp faults k)
      (hresult : r.1 = { finalName := candidateName stamp k, error := [] })
      (hclosed : r.2.1.Closed) (hos : r.2.2 = w.publish os fd (w.candidate stamp k) i)
  | failed (herror : r.1.error ≠ []) (htemp : r.2.1.tempPath = w.tempPath)
      (hdir : r.2.2.dir = os.dir) (hdata : r.2.2.data = os.data)
      (hno : ¬ ∃ fd i k, w.fd = some fd ∧ fsyncFault = none ∧ os.dir w.tempPath = some i ∧
        w.FirstFree os stamp faults k)

theorem commit_committed (w : FileWriter) (os : Os) (fsyncFault : Option Bytes) (now : Tm)
    (faults : ℕ → Option Bytes) :
    Committed w os fsyncFault (fileTimestamp now) faults (w.commit os fsyncFault now faults) := by
  cases hfd : w.fd with
  | none =>
    have hrun : w.commit os fsyncFault now faults =
        ({ finalName := [], error := str "файл не открыт" }, w, os) := by simp only [commit, hfd]
    have hne : str "файл не открыт" ≠ [] := by simp
    rw [hrun]
    refine .failed hne rfl rfl rfl ?_
    rintro ⟨fd, i, k, h, -⟩
    rw [hfd] at h
    cases h
  | some fd =>
  cases fsyncFault with
  | some text =>
    have hrun : w.commit os (some text) now faults =
        ({ finalName := [], error := str "fsync: " ++ text },
          { w with log := w.log ++ [.fsync (some text)] }, os) := by simp only [commit, hfd]
    rw [hrun]
    refine .failed (by simp) rfl rfl rfl ?_
    rintro ⟨fd', i, k, -, h, -⟩
    cases h
  | none =>
  set w₁ : FileWriter := { w with fd := none, log := w.log ++ [.fsync none, .close] } with hw₁
  have hrun : w.commit os none now faults =
      linkLoop (fileTimestamp now) faults w₁ (os.close fd) 1000 0 := by
    simp only [commit, hfd, hw₁]
  rw [hrun]
  cases hi : os.dir w.tempPath with
  | none =>
    -- somebody has removed the temporary file
    have hentry : (os.close fd).dir w₁.tempPath = none := hi
    obtain ⟨err, log, herr, hloop⟩ :=
      @linkLoop_of_no_file _ _ (fileTimestamp now) faults hentry 1000 0
    rw [hloop]
    refine .failed herr rfl rfl rfl ?_
    rintro ⟨fd', i, k, -, -, h, -⟩
    rw [hi] at h
    cases h
  | some i =>
  have hentry : (os.close fd).dir w₁.tempPath = some i := hi
  rcases linkLoop_cases (fileTimestamp now) faults hentry 1000 0 with
    ⟨k, calls, -, hk, hfault, hfree, htaken, -, hloop⟩ | ⟨err, calls, herr, -, -, hloop⟩
  · rw [hloop]
    exact .published fd i k hfd rfl hi
      ⟨by omega, hfault, hfree, fun j hj => htaken j (Nat.zero_le _) hj⟩ rfl ⟨rfl, rfl⟩ rfl
  · -- with a free name the loop would have come to it
    have hfail := congrArg (fun r => r.1.error) hloop
    rw [hloop]
    refine .failed herr rfl rfl rfl ?_
    rintro ⟨fd', j, k, -, -, -, hfirst⟩
    have hfree : (os.close fd).dir (w₁.candidate (fileTimestamp now) k) = none := hfirst.free
    have hsome := linkLoop_of_firstFree hentry hfirst.fault hfree 1000 0 (Nat.zero_le _)
      (by have := hfirst.lt; omega) fun j _ hj => hfirst.taken j hj
    dsimp only at hfail
    rw [hsome] at hfail
    exact herr hfail.symm

/-! ### `abort` -/

theorem abort_dir (w : FileWriter) (os : Os) (p : Bytes) :
    (w.abort os).2.dir p = if w.tempPath ≠ [] ∧ p = w.tempPath then none else os.dir p := by
  unfold abort
  cases w.fd <;> by_cases htemp : w.tempPath = [] <;> simp [htemp]

/-- A second `abort` does nothing. -/
theorem abort_abort (w : FileWriter) (os : Os) :
    (w.abort os).1.abort (w.abort os).2 = w.abort os := by
  rw [abort_of_closed (closed_abort w os)]

/-! ### From `open` on -/

/-- `write` has no part in the directory. -/
theorem write_dir (w : FileWriter) (os : Os) (p : Bytes) (answers : List WriteAnswer) :
    (w.write os p answers).2.2.1.tempPath = w.tempPath ∧
      (w.write os p answers).2.2.2.dir = os.dir := by
  have hsys : ∀ (w : FileWriter) (os : Os) (p : Bytes) (ans : WriteAnswer),
      (w.sysWrite os p ans).2.dir = os.dir := by
    intro w os p ans
    unfold sysWrite Os.write
    split
    · rfl
    split
    · rfl
    · rfl
    split
    · dsimp only
      split <;> rfl
    · rfl
  induction answers generalizing w os p with
  | nil =>
    rw [write.eq_def]
    split <;> exact ⟨rfl, rfl⟩
  | cons ans answers ih =>
    rw [write.eq_def]
    split
    · exact ⟨rfl, rfl⟩
    have hdir := hsys w os p ans
    dsimp only
    split <;> rename_i hans <;> rw [hans] at hdir
    · obtain ⟨h1, h2⟩ := ih w _ p
      exact ⟨h1, h2.trans hdir⟩
    · exact ⟨rfl, hdir⟩
    · obtain ⟨h1, h2⟩ := ih _ _ _
      exact ⟨h1, h2.trans hdir⟩

/-- Some more calls of `write`. -/
def writes (w : FileWriter) (os : Os) (ps : List (Bytes × List WriteAnswer)) : FileWriter × Os :=
  ps.foldl (fun (w, os) (p, answers) => (w.write os p answers).2.2) (w, os)

theorem writes_dir (w : FileWriter) (os : Os) (ps : List (Bytes × List WriteAnswer)) :
    (w.writes os ps).1.tempPath = w.tempPath ∧ (w.writes os ps).2.dir = os.dir := by
  induction ps generalizing w os with
  | nil => exact ⟨rfl, rfl⟩
  | cons p ps ih =>
    obtain ⟨h1, h2⟩ := write_dir w os p.1 p.2
    obtain ⟨h3, h4⟩ := ih (w.write os p.1 p.2).2.2.1 (w.write os p.1 p.2).2.2.2
    exact ⟨h3.trans h1, h4.trans h2⟩

/-- `open`, writes, a `commit` that fails and `abort` leave the directory as it
was. -/
theorem dir_of_failed {w w₁ : FileWriter} {os os₁ : Os} {ans : OpenAnswer}
    (hopen : w.«open» os ans = ([], w₁, os₁)) (ps : List (Bytes × List WriteAnswer))
    (fsyncFault : Option Bytes) (now : Tm) (faults : ℕ → Option Bytes)
    {r : CommitResult × FileWriter × Os}
    (hr : (w₁.writes os₁ ps).1.commit (w₁.writes os₁ ps).2 fsyncFault now faults = r)
    (herror : r.1.error ≠ []) : (r.2.1.abort r.2.2).2.dir = os.dir := by
  obtain ⟨htemp, hdir⟩ := writes_dir w₁ os₁ ps
  have hcommit := commit_committed (w₁.writes os₁ ps).1 (w₁.writes os₁ ps).2 fsyncFault now faults
  rw [hr] at hcommit
  rcases open_cases w os ans with ⟨text, hne, -⟩ | ⟨fd, -, hfree, hrun⟩
  · rw [hopen] at hne
    exact absurd rfl hne
  rw [hopen] at hrun
  cases hrun
  cases hcommit with
  | published fd i k _ _ _ _ hresult => rw [hresult] at herror; exact absurd rfl herror
  | failed _ htemp' hdir' =>
    -- the temporary name was free before `open` made it
    funext p
    rw [abort_dir, htemp', htemp, hdir', hdir]
    by_cases hp : p = tempName w.dir os.pid os.tempSeq
    · rw [if_pos ⟨tempName_ne_nil _ _ _, hp⟩, hp, hfree]
    · rw [if_neg fun h => hp h.2, Os.createFile_dir, if_neg hp, Os.nextTempSeq_dir]

/-- **`commit` publishes atomically under the first free name.**  For every
writer, directory, time and failures:

* it succeeds exactly when the file is open, `fsync` succeeds, and `link` succeeds
  on the first name that does not exist, having failed with `EEXIST` on all
  before;
* then the file has that name instead of its temporary one, nothing else in the
  directory has changed, no contents have, and `abort` does nothing;
* otherwise it has changed nothing there, and `abort` removes the temporary name;
* from `open` on, a `commit` that fails and `abort` leave the directory as it was;
* a second `abort` does nothing. -/
theorem commit_atomic :
    (∀ (w : FileWriter) (os : Os) (fsyncFault : Option Bytes) (now : Tm)
        (faults : ℕ → Option Bytes) (r : CommitResult × FileWriter × Os),
      w.commit os fsyncFault now faults = r →
        (r.1.error = [] ↔ ∃ fd i k, w.fd = some fd ∧ fsyncFault = none ∧
          os.dir w.tempPath = some i ∧ w.FirstFree os (fileTimestamp now) faults k) ∧
        (r.1.error = [] → ∃ i k, os.dir w.tempPath = some i ∧
          w.FirstFree os (fileTimestamp now) faults k ∧
          r.1.finalName = candidateName (fileTimestamp now) k ∧
          (∀ p, r.2.2.dir p =
            if p = finalPath w.dir r.1.finalName then some i
            else if p = w.tempPath then none else os.dir p) ∧
          r.2.2.data = os.data ∧ r.2.1.abort r.2.2 = r.2) ∧
        (r.1.error ≠ [] → r.2.2.dir = os.dir ∧ r.2.2.data = os.data ∧
          ∀ p, (r.2.1.abort r.2.2).2.dir p =
            if w.tempPath ≠ [] ∧ p = w.tempPath then none else os.dir p)) ∧
    (∀ (w w₁ : FileWriter) (os os₁ : Os) (ans : OpenAnswer)
        (ps : List (Bytes × List WriteAnswer)) (fsyncFault : Option Bytes) (now : Tm)
        (faults : ℕ → Option Bytes) (r : CommitResult × FileWriter × Os),
      w.«open» os ans = ([], w₁, os₁) →
      (w₁.writes os₁ ps).1.commit (w₁.writes os₁ ps).2 fsyncFault now faults = r →
      r.1.error ≠ [] → (r.2.1.abort r.2.2).2.dir = os.dir) ∧
    ∀ (w : FileWriter) (os : Os), (w.abort os).1.abort (w.abort os).2 = w.abort os := by
  refine ⟨fun w os fsyncFault now faults r hr => ?_,
    fun w w₁ os os₁ ans ps fsyncFault now faults r hopen hr => dir_of_failed hopen ps _ _ _ hr,
    abort_abort⟩
  have hcommit := commit_committed w os fsyncFault now faults
  rw [hr] at hcommit
  cases hcommit with
  | published fd i k hfd hfsync hfile hfirst hresult hclosed hos =>
    have hok : r.1.error = [] := by rw [hresult]
    refine ⟨iff_of_true hok ⟨fd, i, k, hfd, hfsync, hfile, hfirst⟩, fun _ => ?_,
      fun hne => absurd hok hne⟩
    refine ⟨i, k, hfile, hfirst, by rw [hresult], fun p => ?_, by rw [hos]; rfl,
      abort_of_closed hclosed _⟩
    -- the final name was free, the temporary one was not
    have hne : w.candidate (fileTimestamp now) k ≠ w.tempPath := by
      intro heq
      have hfree := hfirst.free
      rw [heq, hfile] at hfree
      cases hfree
    have hname : finalPath w.dir r.1.finalName = w.candidate (fileTimestamp now) k := by
      rw [hresult]
      rfl
    rw [hos, hname, publish, Os.unlink_dir, Os.addEntry_dir, Os.close_dir]
    by_cases hp : p = w.candidate (fileTimestamp now) k
    · rw [if_pos hp, if_pos hp, if_neg (by rw [hp]; exact hne)]
    · rw [if_neg hp, if_neg hp]
  | failed herror htemp hdir hdata hno =>
    refine ⟨iff_of_false herror hno, fun hok => absurd hok herror, fun _ => ⟨hdir, hdata, ?_⟩⟩
    intro p
    rw [abort_dir, htemp, hdir]

/-- Two files of the same second: the second one gets the suffix 1. -/
theorem commit_atomic_second_name :
    ∃ r : CommitResult × FileWriter × Os,
      ({ dir := str "in", tempPath := str "in/t", fd := some 3 } : FileWriter).commit
        { Os.empty 1 with
          dir := fun p =>
            if p = str "in/t" then some 1
            else if p = str "in/20240101_000000.hex" then some 0 else none
          nextIno := 2 } none
        { year := 2024, mon := 0, mday := 1, hour := 0, min := 0, sec := 0 } (fun _ => none) = r ∧
      r.1.finalName = str "20240101_000000_001.hex" ∧
      r.2.2.dir (str "in/20240101_000000_001.hex") = some 1 ∧ r.2.1.abort r.2.2 = r.2 := by
  refine ⟨_, rfl, ?_⟩
  generalize hr : commit _ _ _ _ _ = r
  have hname : r.1 = { finalName := str "20240101_000000_001.hex", error := [] } := by
    rw [← hr]
    decide +kernel
  obtain ⟨i, k, hi, -, -, hdir, -, habort⟩ :=
    (commit_atomic.1 _ _ _ _ _ r hr).2.1 (by rw [hname])
  refine ⟨by rw [hname], ?_, habort⟩
  have hone : i = 1 := by
    dsimp only at hi
    rw [if_pos rfl] at hi
    exact (Option.some.inj hi).symm
  rw [hdir, hname, hone]
  exact if_pos (by decide +kernel)

end FileWriter

end Nexus
