/-
The whole program: `main`.

A run of the program is given by its arguments and by what the system answers. It prints the
help, or it is a server, or a client: `runServer` and `runClient` with the transport, the
loop of the server and `sendFile` put together as the source does. A run that has not
returned yet has no exit code.

* `executableDir_split` — where files are stored if there is no `--dir`;
* `Program.main_releases` — what a run that returns leaves behind;
* `Program.main_code` — what the exit code says.
-/
import NexusTransmitter.ClientEnds
import NexusTransmitter.Settings
import NexusTransmitter.Transport

open Options Scanning WriteOnce

namespace Nexus

/-! ### `executableDir` -/

def slash : Byte := 0x2F#8

/-- `executableDir`. `link` is what `/proc/self/exe` leads to, if it can be read; the buffer
has 4096 bytes. -/
def executableDir (link : Option Bytes) : Bytes :=
  match link with
  | none => str "."
  | some target =>
    let path := target.take 4095
    match rfind path slash with
    | none => str "."
    | some 0 => str "/"
    | some n => path.take n

/-- The directory of the program, and its name, are the two parts of its path. -/
theorem executableDir_split {dir name : Bytes} (hdir : dir ≠ []) (hname : slash ∉ name)
    (hlen : (dir ++ slash :: name).length < 4096) :
    executableDir (some (dir ++ slash :: name)) = dir ∧
      baseName (dir ++ slash :: name) = name := by
  have hfind : rfind (dir ++ slash :: name) slash = some dir.length := rfind_split hname
  have hpos : dir.length ≠ 0 := fun h => hdir (List.length_eq_zero_iff.mp h)
  constructor
  · rw [executableDir, List.take_of_length_le (by omega), hfind]
    split
    · rename_i h
      cases h
    · rename_i h
      exact absurd (Option.some.inj h) hpos
    · rename_i n _ h
      rw [← Option.some.inj h, List.take_left]
  · have hrev : (dir ++ slash :: name).reverse = name.reverse ++ slash :: dir.reverse := by simp
    have hall : ∀ b ∈ name.reverse, decide (b ≠ slash) = true := by
      intro b hb
      simpa using ne_of_mem_of_not_mem (List.mem_reverse.mp hb) hname
    have hfront : (name.reverse ++ slash :: dir.reverse).takeWhile (· ≠ slash) = name.reverse :=
      takeWhile_front hall (by simp)
    rw [baseName, hrev]
    exact (congrArg List.reverse hfront).trans name.reverse_reverse

/-! ### Opening a file to read -/

namespace Os

/-- `open(path, O_RDONLY)`, as the constructor of `ifstream` does. -/
def openRead (os : Os) (path : Bytes) : OpenAnswer → Except Bytes ℕ × Os
  | .err text => (.error text, os)
  | .fd n =>
    match os.dir path with
    | none => (.error (str "No such file or directory"), os)
    | some ino =>
      if (os.fds n).isSome then (.error (str "Too many open files"), os)
      else (.ok n, { os with fds := Function.update os.fds n (some (.file ino)) })

theorem openRead_cases (os : Os) (path : Bytes) (ans : OpenAnswer) :
    (∃ text, os.openRead path ans = (.error text, os)) ∨
      ∃ n ino, os.fds n = none ∧ os.dir path = some ino ∧ os.openRead path ans =
        (.ok n, { os with fds := Function.update os.fds n (some (.file ino)) }) := by
  cases ans with
  | err text => exact .inl ⟨text, rfl⟩
  | fd n =>
    rw [openRead]
    cases hdir : os.dir path with
    | none => exact .inl ⟨_, rfl⟩
    | some ino =>
      by_cases hn : (os.fds n).isSome
      · exact .inl ⟨_, if_pos hn⟩
      · exact .inr ⟨n, ino, by simpa using hn, rfl, if_neg hn⟩

end Os

/-! ### The program -/

/-- What the system answers to a server. `walk` is the order of the sessions in the
destructor. -/
structure ServerAnswers where
  resolve : Bytes → Bytes → Except Bytes (List Interface)
  startup : Startup
  rounds : List Round
  walk : Walk

/-- What the system answers to a client. -/
structure ClientAnswers where
  file : OpenAnswer
  tellg : ℤ
  seekFault : Bool := false
  resolve : Bytes → Bytes → Except Bytes (List Candidate)
  fileReads : List Bytes := []
  sends : List SendAnswer := []
  reads : List ReadAnswer := []
  errno : Bytes := str "Success"

structure ProgramAnswers where
  /-- What `/proc/self/exe` leads to. -/
  exe : Option Bytes
  server : ServerAnswers
  client : ClientAnswers

/-- What the program writes. The lines of the sessions are kept with them. -/
inductive ProgramLine
  | help (prog : Bytes)
  | error (text : Bytes)
  | server (line : ServerLine)
  | client (line : ClientLine)
  deriving DecidableEq, Repr

/-- How a line is marked. -/
inductive Level
  | info
  | warn
  | error
  deriving DecidableEq, Repr

def ServerLine.level : ServerLine → Level
  | .epollCreate _ => .error
  | .sigprocmask _ => .error
  | .signalfd _ => .error
  | .epollCtl _ => .error
  | .started _ => .info
  | .outDir _ => .info
  | .awaiting => .info
  | .epollWait _ => .error
  | .signal _ => .info
  | .interrupted _ => .warn
  | .stopped => .info

def ClientLine.level : ClientLine → Level
  | .cannotOpen _ => .error
  | .cannotSize _ => .error
  | .cannotConnect _ => .error
  | .started _ _ => .info
  | .notStarted _ => .error
  | .changed _ _ _ => .error
  | .interrupted _ => .error
  | .notEnded _ => .error
  | .unconfirmed _ => .error
  | .rejected _ _ => .error
  | .completed _ _ _ => .info

/-- The help is not marked. -/
def ProgramLine.level : ProgramLine → Option Level
  | .help _ => none
  | .error _ => some .error
  | .server line => some line.level
  | .client line => some line.level

namespace Program

/-- `runServer` from the listener on, with the destructor of the server. -/
def serve (dest : Destination) (cfg : ServerConfig) (a : ServerAnswers) (net : Net) :
    Option ℕ × List ProgramLine × Net :=
  match TcpListener.create a.resolve dest net with
  | ((none, err), net) => (some 1, [.error err], net)
  | ((some (fd, address), _), net) =>
    match Server.run cfg fd address a.startup a.rounds net.os with
    | (none, lines, r) => (none, lines.map .server, { net with os := r.os })
    | (some code, lines, r) =>
      (some code, lines.map .server,
        { net with os := r.destroy a.walk, sockets := Function.update net.sockets fd none })

/-- `sendFile` with the file and the connection, which are closed when it returns. -/
def send (cfg : ClientConfig) (a : ClientAnswers) (net : Net) :
    Option ℕ × List ProgramLine × Net :=
  match net.os.openRead cfg.filePath a.file with
  | (.error _, os) =>
    let (code, c) := Client.sendFile cfg.filePath { tellg := none }
    (code, c.lines.map .client, { net with os := os })
  | (.ok file, os) =>
    let net := { net with os := os }
    if a.seekFault then
      let (code, c) := Client.sendFile cfg.filePath { tellg := some a.tellg, seekFault := true }
      (code, c.lines.map .client, net.close file)
    else
      match TcpConnection.connect a.resolve cfg.endpoint cfg.timeoutMs net with
      | ((none, connErr), net) =>
        let (code, c) := Client.sendFile cfg.filePath
          { tellg := some a.tellg, connectFault := some connErr }
        (code, c.lines.map .client, net.close file)
      | ((some (conn, _), _), net) =>
        let (code, c) := Client.sendFile cfg.filePath
          { tellg := some a.tellg, fileReads := a.fileReads, sends := a.sends, reads := a.reads,
            errno := a.errno }
        (code, c.lines.map .client,
          if code.isSome then (net.close conn).close file else net)

/-- `main`, for the arguments after the name of the program. -/
def main (prog : Bytes) (args : List Bytes) (a : ProgramAnswers) (net : Net) :
    Option ℕ × List ProgramLine × Net :=
  match args with
  | [] => (some 1, [.help prog], net)
  | mode :: args =>
    if mode = str "-h" ∨ mode = str "--help" then (some 0, [.help prog], net)
    else if mode = str "-s" then
      match runServer (executableDir a.exe) args with
      | .error line => (some 1, [.error line], net)
      | .ok (dest, cfg) => serve dest cfg a.server net
    else if mode = str "-c" then
      match runClient prog args with
      | .error line => (some 1, [.error line], net)
      | .ok cfg => send cfg a.client net
    else (some 1, [.error (str "неизвестный режим '" ++ mode ++ str "'"), .help prog], net)

/-- The sessions that the server of `serve` has had. -/
def served (dest : Destination) (cfg : ServerConfig) (a : ServerAnswers) (net : Net) :
    List Session :=
  match TcpListener.create a.resolve dest net with
  | ((none, _), _) => []
  | ((some (fd, address), _), net) =>
    (Server.run cfg fd address a.startup a.rounds net.os).2.2.srv.all

/-- The sessions that there have been in a run of `main`. -/
def sessions (args : List Bytes) (a : ProgramAnswers) (net : Net) : List Session :=
  match args with
  | [] => []
  | mode :: args =>
    if mode = str "-s" then
      match runServer (executableDir a.exe) args with
      | .error _ => []
      | .ok (dest, cfg) => served dest cfg a.server net
    else []

/-- A process that has just begun: there is no connection, no epoll instance, and no socket
under a number that is free. -/
structure Fresh (net : Net) : Prop where
  wf : net.os.WF
  connections : ∀ f c, net.os.fds f ≠ some (.socket c)
  epoll : ∀ f, net.os.epoll f = none
  sockets : ∀ f, net.os.fds f = none → net.sockets f = none

/-- All is closed and freed that has been opened since. -/
structure Released (net net' : Net) : Prop where
  fds : net'.os.fds = net.os.fds
  epoll : net'.os.epoll = net.os.epoll
  sockets : net'.sockets = net.sockets
  lists : net'.lists = net.lists

theorem Released.refl (net : Net) : Released net net := ⟨rfl, rfl, rfl, rfl⟩

variable {net net' : Net} {code : ℕ} {lines : List ProgramLine}

theorem Fresh.clean (h : Fresh net) : net.Clean := ⟨fun f _ => h.epoll f, h.sockets⟩

/-- What `runServer` makes of the options. -/
def serverSettings (exe : Option Bytes) (opts : List (Bytes × Bytes)) :
    Destination × ServerConfig :=
  ServerOption.configured ({ host := str "0.0.0.0", port := DEFAULT_PORT },
    { outDir := executableDir exe, idleTimeout := 30, maxSessions := 1024 }) opts

/-- The three things that `main` may come to: it writes a text, or it is a server, or a
client. -/
theorem main_cases {prog : Bytes} {args : List Bytes} {a : ProgramAnswers}
    (hrun : main prog args a net = (some code, lines, net')) :
    ((code = 0 ↔ args ≠ [] ∧ ∀ line ∈ lines, line.level ≠ some .error) ∧ code ≤ 1 ∧ net' = net) ∨
      (∃ opts, args = str "-s" :: render opts ∧ (∀ o ∈ opts, ServerOption.Valid o) ∧
        serve (serverSettings a.exe opts).1 (serverSettings a.exe opts).2 a.server net =
          (some code, lines, net') ∧
        sessions args a net =
          served (serverSettings a.exe opts).1 (serverSettings a.exe opts).2 a.server net) ∨
      ∃ cfg, args ≠ [] ∧ send cfg a.client net = (some code, lines, net') := by
  cases args with
  | nil =>
    cases hrun
    exact .inl ⟨by simp, by decide, rfl⟩
  | cons mode args =>
    rw [main] at hrun
    split_ifs at hrun with hhelp hserver hclient
    · cases hrun
      exact .inl ⟨by simp [ProgramLine.level], by decide, rfl⟩
    · cases hopts : runServer (executableDir a.exe) args with
      | error line =>
        rw [hopts] at hrun
        cases hrun
        exact .inl ⟨by simp [ProgramLine.level], by decide, rfl⟩
      | ok s =>
        rw [hopts] at hrun
        obtain ⟨opts, rfl, hvalid, rfl⟩ := runServer_ok hopts
        refine .inr (.inl ⟨opts, by rw [hserver], hvalid, hrun, ?_⟩)
        rw [sessions, if_pos hserver, hopts]
        rfl
    · cases hopts : runClient prog args with
      | error line =>
        rw [hopts] at hrun
        cases hrun
        exact .inl ⟨by simp [ProgramLine.level], by decide, rfl⟩
      | ok cfg =>
        rw [hopts] at hrun
        exact .inr (.inr ⟨cfg, by simp, hrun⟩)
    · cases hrun
      exact .inl ⟨by simp [ProgramLine.level], by decide, rfl⟩

/-- A socket under a number that was free: `run` may be called with it. -/
theorem Fresh.idle (h : Fresh net) {fd : ℕ} {s : Socket} (hopened : net.Opened fd s net') :
    Server.Idle net'.os fd := by
  rw [hopened.os]
  refine ⟨⟨h.wf.seq, h.wf.dir, fun f i hf => ?_⟩, fun f c hf => ?_, h.epoll, by simp⟩
  · by_cases hfd : f = fd
    · simp [hfd] at hf
    · exact h.wf.fds f i (by simpa [hfd] using hf)
  · by_cases hfd : f = fd
    · simp [hfd] at hf
    · exact h.connections f c (by simpa [hfd] using hf)

theorem verdict_le {l g : ℕ} {rounds : List Round}
    (h : rounds.findSome? (Server.verdict l g) = some code) : code ≤ 1 := by
  obtain ⟨r, -, hr⟩ := List.exists_of_findSome?_eq_some h
  cases r with
  | eintr => cases hr
  | err text =>
    cases hr
    exact le_rfl
  | ready batch signals now walk =>
    rw [Server.verdict] at hr
    split at hr <;> cases hr
    exact Nat.zero_le 1

/-- A file is open under a number that was free. -/
def openFile (net : Net) (n ino : ℕ) : Net :=
  { net with os := { net.os with fds := Function.update net.os.fds n (some (.file ino)) } }

theorem openFile_close (h : net.Clean) {n : ℕ} (hn : net.os.fds n = none) (ino : ℕ) :
    (openFile net n ino).close n = net := by
  have hfds : Function.update net.os.fds n none = net.os.fds :=
    Function.update_eq_self_iff.mpr hn.symm
  have hepoll : Function.update net.os.epoll n none = net.os.epoll :=
    Function.update_eq_self_iff.mpr (h.epoll n hn).symm
  have hsockets : Function.update net.sockets n none = net.sockets :=
    Function.update_eq_self_iff.mpr (h.sockets n hn).symm
  simp only [openFile, Net.close, Os.close, Function.update_idem, hfds, hepoll, hsockets]

theorem openFile_clean (h : net.Clean) (n ino : ℕ) : (openFile net n ino).Clean := by
  have hfree : ∀ f, (openFile net n ino).os.fds f = none → net.os.fds f = none := by
    intro f hf
    by_cases hfn : f = n
    · simp [openFile, hfn] at hf
    · simpa [openFile, hfn] using hf
  exact ⟨fun f hf => h.epoll f (hfree f hf), fun f hf => h.sockets f (hfree f hf)⟩

theorem exit_le {path : Bytes} {sys : ClientSys} (h : (Client.sendFile path sys).1 = some code) :
    code ≤ 6 := by
  obtain ⟨ds, -, hout⟩ := Client.sendFile_outcome path sys
  have hmem := hout.exit_mem h
  simp only [List.mem_cons, List.not_mem_nil, or_false] at hmem
  omega

/-- A client leaves nothing behind. -/
theorem send_spec (h : net.Clean) {cfg : ClientConfig} {a : ClientAnswers}
    (hrun : send cfg a net = (some code, lines, net')) : code ≤ 6 ∧ net' = net := by
  rw [send] at hrun
  rcases net.os.openRead_cases cfg.filePath a.file with ⟨text, hopen⟩ | ⟨n, ino, hn, -, hopen⟩ <;>
    rw [hopen] at hrun <;> dsimp only at hrun
  · obtain ⟨hcode, hrest⟩ := Prod.mk.inj hrun
    exact ⟨exit_le hcode, (Prod.mk.inj hrest).2.symm⟩
  have hclose := openFile_close h hn ino
  split at hrun
  · obtain ⟨hcode, hrest⟩ := Prod.mk.inj hrun
    exact ⟨exit_le hcode, (Prod.mk.inj hrest).2.symm.trans hclose⟩
  have hclean := openFile_clean h n ino
  rcases TcpConnection.connect_cases hclean a.resolve cfg.endpoint cfg.timeoutMs with
    ⟨fd, peer, net₁, hconnect, hopened⟩ | ⟨err, hconnect⟩
  all_goals
    rw [openFile] at hconnect
    rw [hconnect] at hrun
    obtain ⟨hcode, hrest⟩ := Prod.mk.inj hrun
    obtain ⟨-, hnet⟩ := Prod.mk.inj hrest
  · rw [if_pos (by rw [hcode]; rfl), hopened.close hclean, hclose] at hnet
    exact ⟨exit_le hcode, hnet.symm⟩
  · exact ⟨exit_le hcode, hnet.symm.trans hclose⟩

/-- What a server leaves behind. -/
theorem serve_spec (h : Fresh net) {dest : Destination} {cfg : ServerConfig} {a : ServerAnswers}
    (hrun : serve dest cfg a net = (some code, lines, net')) :
    code ≤ 1 ∧ Released net net' ∧
      Puts (Stored Set.univ (served dest cfg a net)) net.os.entries net'.os.entries ∧
      ∀ e ∈ net'.os.entries, e ∈ net.os.entries ∨ ∃ t suffix, suffix < 1000 ∧
        e.1 = finalPath cfg.outDir (candidateName (fileTimestamp t) suffix) := by
  rw [serve] at hrun
  rw [served]
  rcases TcpListener.create_spec h.clean a.resolve dest with
    ⟨-, i, -, fd, net₁, -, -, -, -, hcreate, hopened⟩ | ⟨-, err, -, hcreate⟩ <;>
    rw [hcreate] at hrun ⊢ <;> dsimp only at hrun ⊢
  swap
  · cases hrun
    exact ⟨le_rfl, .refl net, .refl, fun e he => .inl he⟩
  have hidle := h.idle hopened
  rcases hserver : Server.run cfg fd (str "tcp://" ++ formatPeer i.name) a.startup a.rounds net₁.os
    with ⟨_ | code', lines', r⟩ <;> rw [hserver] at hrun <;> cases hrun
  obtain ⟨hfds, hepoll, hputs, hnames⟩ :=
    Server.run_leaves hidle cfg _ a.startup a.rounds hserver a.walk
  have hcode :=
    Server.run_code cfg fd (str "tcp://" ++ formatPeer i.name) a.startup a.rounds net₁.os
  rw [hserver] at hcode
  dsimp only at hcode
  have hentries : net₁.os.entries = net.os.entries := by rw [hopened.os]; rfl
  rw [hentries] at hputs hnames
  refine ⟨?_, ⟨?_, ?_, ?_, hopened.lists⟩, hputs, hnames⟩
  · split at hcode
    · exact (Option.some.inj hcode).le
    · exact verdict_le hcode.symm
  · funext f
    refine (hfds f).trans ?_
    rw [hopened.os]
    by_cases hf : f = fd
    · rw [if_pos hf, hf, hopened.free]
    · simp [hf]
  · funext f
    rw [h.epoll]
    exact hepoll f
  · dsimp only
    rw [hopened.sockets, Function.update_idem]
    exact Function.update_eq_self_iff.mpr (h.sockets fd hopened.free).symm

/-- **What a run of the program leaves behind.**  Let a process begin with any arguments, and
let the system answer in any way. If the program returns, then

* its exit code is at most 6;
* the descriptors, what epoll has, the sockets and the lists of addresses are as they were
  before;
* the directory is as before, and the files that were put in, each stored by a session of this
  run: it has published the path, and what it has received is an upload of the content;
* a file is put in only if the arguments are `-s` and valid options, under a final name in the
  directory that the last `--dir` names, which is that of the program if there is none. -/
theorem main_releases (h : Fresh net) {prog : Bytes} {args : List Bytes} {a : ProgramAnswers}
    (hrun : main prog args a net = (some code, lines, net')) :
    code ≤ 6 ∧ Released net net' ∧
      Puts (Stored Set.univ (sessions args a net)) net.os.entries net'.os.entries ∧
      ∀ e ∈ net'.os.entries, e ∈ net.os.entries ∨ ∃ opts t suffix,
        args = str "-s" :: render opts ∧ (∀ o ∈ opts, ServerOption.Valid o) ∧ suffix < 1000 ∧
          e.1 = finalPath (last dirOf (executableDir a.exe) opts)
            (candidateName (fileTimestamp t) suffix) := by
  rcases main_cases hrun with
    ⟨-, hcode, rfl⟩ | ⟨opts, rfl, hvalid, hserve, hsessions⟩ | ⟨cfg, -, hsend⟩
  · exact ⟨by omega, .refl _, .refl, fun e he => .inl he⟩
  · rw [hsessions]
    obtain ⟨hcode, hreleased, hputs, hnames⟩ := serve_spec h hserve
    refine ⟨hcode.trans (by decide), hreleased, hputs, fun e he => (hnames e he).imp id ?_⟩
    rintro ⟨t, suffix, hlt, hpath⟩
    exact ⟨opts, t, suffix, rfl, hvalid, hlt, hpath⟩
  · obtain ⟨hcode, rfl⟩ := send_spec h.clean hsend
    exact ⟨hcode, .refl _, .refl, fun e he => .inl he⟩

/-- A server to which a client has sent three bytes when the signal comes. -/
theorem main_releases_server :
    ∃ (a : ProgramAnswers) (lines : List ProgramLine) (net' : Net) (e : Bytes × Bytes),
      main (str "nexus") [str "-s", str "--dir", str "in"] a
        { os := Os.empty 1, sockets := fun _ => none } = (some 0, lines, net') ∧
      .server (.interrupted 1) ∈ lines ∧
      Released { os := Os.empty 1, sockets := fun _ => none } net' ∧ e ∈ net'.os.entries ∧
      Stored Set.univ (sessions [str "-s", str "--dir", str "in"] a
        { os := Os.empty 1, sockets := fun _ => none }) e := by
  obtain ⟨net, hnet⟩ : ∃ net : Net, net = { os := Os.empty 1, sockets := fun _ => none } := ⟨_, rfl⟩
  have hfresh : Fresh net := by
    rw [hnet]
    exact ⟨.empty 1, fun _ _ => by simp [Os.empty], fun _ => rfl, fun _ _ => rfl⟩
  obtain ⟨sys, hsys⟩ : ∃ sys : Sys, sys =
      { os := Os.empty 1
        sends := [.took 1000]
        writes := [.took 3]
        openAnswer := .fd 7
        localTime := { year := 2024, mon := 0, mday := 1, hour := 0, min := 0, sec := 0 }
        now := 0 } := ⟨_, rfl⟩
  obtain ⟨walk, hwalk⟩ : ∃ walk : Walk, walk = ⟨id, fun _ => .refl _⟩ := ⟨_, rfl⟩
  obtain ⟨a, ha⟩ : ∃ a : ProgramAnswers, a =
      { exe := some (str "/opt/nexus")
        server :=
          { resolve := fun _ _ => .ok [{ fd := .fd 3, name := some (str "0.0.0.0", str "5555") }]
            startup := { epollFd := .fd 4, signalFd := .fd 5 }
            rounds :=
              [.ready [(sys, { fd := 3, events := EPOLLIN, incoming := [{ fd := 6, now := 0 }] })]
                [] 0 walk,
                .ready [(sys, { fd := 6
                                events := EPOLLIN
                                reads := [.bytes (buildHello 3 (str "a.txt") ++
                                  buildData [1#8, 2#8, 3#8] ++
                                  buildEnd (crc32 [1#8, 2#8, 3#8]))] })] [] 0 walk,
                .ready [(sys, { fd := 5, events := EPOLLIN })] [15] 0 walk]
            walk := walk }
        client := { file := .err [], tellg := 0, resolve := fun _ _ => .ok [] } } := ⟨_, rfl⟩
  obtain ⟨out, hout⟩ : ∃ out, main (str "nexus") [str "-s", str "--dir", str "in"] a net = out :=
    ⟨_, rfl⟩
  have hfacts : out.1 = some 0 ∧ .server (.interrupted 1) ∈ out.2.1 ∧
      out.2.2.os.dir (str "in/20240101_000000.hex") = some 0 := by
    rw [← hout, ha, hwalk, hsys, hnet]
    decide +kernel
  obtain ⟨code, lines, net'⟩ := out
  obtain ⟨hcode, hline, hdir⟩ := hfacts
  dsimp only at hcode hdir
  subst hcode
  obtain ⟨-, hreleased, hputs, -⟩ := main_releases hfresh hout
  have he : (str "in/20240101_000000.hex", net'.os.data 0) ∈ net'.os.entries := by
    show (net'.os.dir _).map _ = _
    rw [hdir]
    rfl
  rw [hnet] at hout hreleased hputs
  refine ⟨a, lines, net', _, hout, hline, hreleased, he,
    (hputs.allowed he).resolve_left fun hold => ?_⟩
  cases hold

/-! ### The exit code and the log -/

/-- No line is an error. -/
def Quiet (lines : List ProgramLine) : Prop := ∀ line ∈ lines, line.level ≠ some .error

theorem quiet_server {ls : List ServerLine} :
    Quiet (ls.map .server) ↔ ∀ line ∈ ls, line.level ≠ .error := by
  simp [Quiet, ProgramLine.level]

theorem quiet_client {ls : List ClientLine} :
    Quiet (ls.map .client) ↔ ∀ line ∈ ls, line.level ≠ .error := by
  simp [Quiet, ProgramLine.level]

theorem loop_code_iff {srv : Server} {os : Os} {ls : List ServerLine}
    (hls : ∀ line ∈ ls, line.level ≠ .error) {rounds : List Round}
    (h : (srv.loop os ls rounds).1 = some code) :
    code = 0 ↔ ∀ line ∈ (srv.loop os ls rounds).2.1, line.level ≠ .error := by
  induction rounds generalizing srv os ls with
  | nil => cases h
  | cons r rounds ih =>
    cases r with
    | eintr => exact ih hls h
    | err text =>
      cases h
      simp [Server.loop, ServerLine.level]
    | ready batch signals now walk =>
      have hls' : ∀ line ∈ ls ++ (if Server.signalled srv.listenerFd srv.signalFd batch then
          signals.map ServerLine.signal else []), line.level ≠ .error := by
        intro line hline
        rcases List.mem_append.mp hline with hline | hline
        · exact hls line hline
        · split at hline
          · obtain ⟨signo, -, rfl⟩ := List.mem_map.mp hline
            exact fun h => by cases h
          · cases hline
      simp only [Server.loop] at h ⊢
      split at h
      · rename_i hrunning
        rw [if_pos hrunning]
        exact ih hls' h
      · rename_i hrunning
        rw [if_neg hrunning]
        cases h
        refine ⟨fun _ line hline => ?_, fun _ => rfl⟩
        rcases List.mem_append.mp hline with hline | hline
        · rcases List.mem_append.mp hline with hline | hline
          · exact hls' line hline
          · split at hline
            · rw [List.mem_singleton.mp hline]
              exact fun h => by cases h
            · cases hline
        · rw [List.mem_singleton.mp hline]
          exact fun h => by cases h

theorem boot_level {l : ℕ} {a : Startup} {os : Os} {line : ServerLine}
    (h : (Server.boot l a os).1 = some line) : line.level = .error := by
  rw [Server.boot] at h
  split at h
  · cases h
    rfl
  split at h
  · cases h
    rfl
  split at h
  · cases h
    rfl
  split at h
  · cases h
    rfl
  split at h <;> cases h
  rfl

theorem serve_code_iff {dest : Destination} {cfg : ServerConfig} {a : ServerAnswers}
    (hrun : serve dest cfg a net = (some code, lines, net')) : code = 0 ↔ Quiet lines := by
  rw [serve] at hrun
  split at hrun
  · cases hrun
    simp [Quiet, ProgramLine.level]
  · split at hrun <;> cases hrun
    rename_i hserver
    rw [quiet_server]
    rw [Server.run] at hserver
    split at hserver
    · rename_i hboot
      cases hserver
      simpa using boot_level (congrArg Prod.fst hboot)
    · obtain ⟨hcode, hrest⟩ := Prod.mk.inj hserver
      obtain ⟨rfl, -⟩ := Prod.mk.inj hrest
      exact loop_code_iff (by simp [ServerLine.level]) hcode

theorem level_eq_error_iff {line : ClientLine} :
    line.level = .error ↔ ∃ c, Client.closing line = some c ∧ c ≠ 0 := by
  cases line <;> simp [ClientLine.level, Client.closing]

/-- The line that names an exit code is an error, unless it names 0. -/
theorem sendFile_code_iff {path : Bytes} {sys : ClientSys}
    (h : (Client.sendFile path sys).1 = some code) :
    code = 0 ↔ ∀ line ∈ (Client.sendFile path sys).2.lines, line.level ≠ .error := by
  have hcodes : (Client.sendFile path sys).2.lines.filterMap Client.closing = [code] := by
    have := Client.sendFile_codes path sys
    rwa [h] at this
  constructor
  · rintro rfl line hline herror
    obtain ⟨c, hc, hne⟩ := level_eq_error_iff.mp herror
    have hmem := List.mem_filterMap.mpr ⟨line, hline, hc⟩
    rw [hcodes, List.mem_singleton] at hmem
    exact hne hmem
  · intro hquiet
    obtain ⟨line, hline, hc⟩ := List.mem_filterMap.mp (hcodes ▸ List.mem_singleton_self code)
    by_contra hne
    exact hquiet line hline (level_eq_error_iff.mpr ⟨code, hc, hne⟩)

theorem send_code_iff {cfg : ClientConfig} {a : ClientAnswers}
    (hrun : send cfg a net = (some code, lines, net')) : code = 0 ↔ Quiet lines := by
  have hmain : ∀ (sys : ClientSys) (net₁ : Net),
      ((Client.sendFile cfg.filePath sys).1,
        (Client.sendFile cfg.filePath sys).2.lines.map ProgramLine.client, net₁) =
          (some code, lines, net') → (code = 0 ↔ Quiet lines) := by
    intro sys net₁ heq
    obtain ⟨hcode, hrest⟩ := Prod.mk.inj heq
    obtain ⟨rfl, -⟩ := Prod.mk.inj hrest
    rw [quiet_client]
    exact sendFile_code_iff hcode
  rw [send] at hrun
  split at hrun <;> dsimp only at hrun
  · exact hmain _ _ hrun
  split at hrun
  · exact hmain _ _ hrun
  split at hrun
  · exact hmain _ _ hrun
  · exact hmain _ _ hrun

/-- **What the exit code says**: a run of the program has ended with 0 if and only if it has
returned, there was something on the command line, and no line of its log is an error. -/
theorem main_code (prog : Bytes) (args : List Bytes) (a : ProgramAnswers) (net : Net) :
    (main prog args a net).1 = some 0 ↔
      (main prog args a net).1.isSome ∧ args ≠ [] ∧ Quiet (main prog args a net).2.1 := by
  rcases hrun : main prog args a net with ⟨_ | code, lines, net'⟩
  · simp
  have hiff : code = 0 ↔ args ≠ [] ∧ Quiet lines := by
    rcases main_cases hrun with ⟨hiff, -⟩ | ⟨opts, rfl, -, hserve, -⟩ | ⟨cfg, hne, hsend⟩
    · exact hiff
    · rw [serve_code_iff hserve]
      simp
    · rw [send_code_iff hsend]
      simp [hne]
  simpa using hiff

end Program

end Nexus
