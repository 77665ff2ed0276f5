/-
What the options of the command line set.

The loops of `runServer` and `runClient` are `Options.parse` with two tables. So they take
lists of options with values, and each field of the configuration is set by the last option
that sets it, or has its default.

* `runServer_iff`, `runClient_iff` — which arguments are taken, and the configuration.
-/
import NexusTransmitter.CommandLine
import NexusTransmitter.Lib.Options

open Options

namespace Nexus

/-! ### What an option sets -/

section Picks

/-- The host that an option sets, if it sets one. -/
def hostOf (o : Bytes × Bytes) : Option Bytes :=
  if o.1 = str "--host" then some o.2
  else if o.1 = str "--destination" then (Destination.parse o.2).map Destination.host
  else none

def portOf (o : Bytes × Bytes) : Option Bytes :=
  if o.1 = str "--port" then some o.2
  else if o.1 = str "--destination" then (Destination.parse o.2).map Destination.port
  else none

def dirOf (o : Bytes × Bytes) : Option Bytes := if o.1 = str "--dir" then some o.2 else none

/-- The number that is the value of the option `name`. -/
def numberOf (name : Bytes) (o : Bytes × Bytes) : Option ℕ :=
  if o.1 = name then (parseUnsigned o.2 name).toOption else none

theorem hostOf_destination (value : Bytes) :
    hostOf (str "--destination", value) = (Destination.parse value).map Destination.host :=
  rfl

theorem portOf_destination (value : Bytes) :
    portOf (str "--destination", value) = (Destination.parse value).map Destination.port :=
  rfl

/-- The option `--destination`, which sets `set`. -/
def addressed {α : Type} (set : Destination → α → α) (value : Bytes) : Except Bytes (α → α) :=
  match Destination.parse value with
  | none => .error (badDestination value)
  | some parsed => .ok (set parsed)

/-- The option `name`, which takes a number and sets `set`. -/
def numeric {α : Type} (name : Bytes) (set : ℕ → α → α) (value : Bytes) :
    Except Bytes (α → α) :=
  match parseUnsigned value name with
  | .error line => .error line
  | .ok n => .ok (set n)

variable {α : Type} {g : α → α} {value : Bytes}

theorem addressed_ok {set : Destination → α → α} : addressed set value = .ok g ↔
    ∃ parsed, Destination.parse value = some parsed ∧ g = set parsed := by
  rw [addressed]
  cases Destination.parse value with
  | none => simp
  | some parsed => simp [eq_comm]

theorem numeric_ok {name : Bytes} {set : ℕ → α → α} : numeric name set value = .ok g ↔
    ∃ n, numberOf name (name, value) = some n ∧ g = set n := by
  rw [numeric, numberOf, if_pos rfl]
  cases parseUnsigned value name with
  | error line => simp [Except.toOption]
  | ok n => simp [Except.toOption, eq_comm]

end Picks

/-! ### The server -/

namespace ServerOption

/-- A branch of the loop of `runServer`: what an option does with its value. -/
abbrev Effect := Bytes → Except Bytes (Destination × ServerConfig → Destination × ServerConfig)

def port : Effect := fun value => .ok fun s => ({ s.1 with port := value }, s.2)

def destination : Effect := addressed fun parsed s => (parsed, s.2)

def dir : Effect := fun value => .ok fun s => (s.1, { s.2 with outDir := value })

def timeout : Effect :=
  numeric (str "--timeout") fun secs s => (s.1, { s.2 with idleTimeout := idleSeconds secs })

def maxSessions : Effect :=
  numeric (str "--max-sessions") fun n s => (s.1, { s.2 with maxSessions := n })

def table : Table Bytes Bytes (Destination × ServerConfig) where
  effect := fun opt =>
    if opt = str "--port" then some port
    else if opt = str "--destination" then some destination
    else if opt = str "--dir" then some dir
    else if opt = str "--timeout" then some timeout
    else if opt = str "--max-sessions" then some maxSessions
    else none
  missing := valueMissing
  unknown := fun opt => str "неизвестная опция сервера: " ++ opt

/-- The options there are. -/
theorem effect_cases {opt : Bytes} {f : Effect} (h : table.effect opt = some f) :
    (opt = str "--port" ∧ f = port) ∨ (opt = str "--destination" ∧ f = destination) ∨
      (opt = str "--dir" ∧ f = dir) ∨ (opt = str "--timeout" ∧ f = timeout) ∨
      (opt = str "--max-sessions" ∧ f = maxSessions) := by
  simp only [table] at h
  split_ifs at h with h₁ h₂ h₃ h₄ h₅ <;> cases h
  · exact .inl ⟨h₁, rfl⟩
  · exact .inr (.inl ⟨h₂, rfl⟩)
  · exact .inr (.inr (.inl ⟨h₃, rfl⟩))
  · exact .inr (.inr (.inr (.inl ⟨h₄, rfl⟩)))
  · exact .inr (.inr (.inr (.inr ⟨h₅, rfl⟩)))

theorem effect_isSome {opt : Bytes} : (table.effect opt).isSome ↔
    opt ∈ [str "--port", str "--destination", str "--dir", str "--timeout",
      str "--max-sessions"] := by
  simp only [List.mem_cons, List.not_mem_nil, or_false]
  constructor
  · intro h
    obtain ⟨f, hf⟩ := Option.isSome_iff_exists.mp h
    rcases effect_cases hf with ⟨h, -⟩ | ⟨h, -⟩ | ⟨h, -⟩ | ⟨h, -⟩ | ⟨h, -⟩ <;> simp [h]
  · rintro (rfl | rfl | rfl | rfl | rfl) <;> decide

/-- The loop is the one of the library. -/
theorem options_eq : ∀ (args : List Bytes) (dest : Destination) (cfg : ServerConfig),
    serverOptions dest cfg args = parse table (dest, cfg) args
  | [], _, _ => rfl
  | [arg], dest, cfg => by
    rw [serverOptions, parse]
    split <;> rename_i hmem
    · obtain ⟨f, hf⟩ := Option.isSome_iff_exists.mp (effect_isSome.mpr hmem)
      rw [hf]
      rfl
    · rw [Option.not_isSome_iff_eq_none.mp (mt effect_isSome.mp hmem)]
      rfl
  | arg :: value :: rest, dest, cfg => by
    have ih := options_eq rest
    rw [serverOptions, parse, table]
    dsimp only
    split_ifs with h₁ h₂ h₃ h₄ h₅
    · exact ih _ _
    · dsimp only [destination, addressed]
      cases Destination.parse value with
      | none => rfl
      | some parsed => exact ih _ _
    · exact ih _ _
    · dsimp only [timeout, numeric]
      rw [h₄]
      cases parseUnsigned value (str "--timeout") with
      | error line => rfl
      | ok secs => exact ih _ _
    · dsimp only [maxSessions, numeric]
      rw [h₅]
      cases parseUnsigned value (str "--max-sessions") with
      | error line => rfl
      | ok n => exact ih _ _
    · rfl

/-- The option is known, and its value is one that it takes. -/
def Valid (o : Bytes × Bytes) : Prop :=
  o.1 = str "--port" ∨ (o.1 = str "--destination" ∧ (Destination.parse o.2).isSome) ∨
    o.1 = str "--dir" ∨
    (o.1 = str "--timeout" ∧ (numberOf (str "--timeout") o).isSome) ∨
    (o.1 = str "--max-sessions" ∧ (numberOf (str "--max-sessions") o).isSome)

variable {o : Bytes × Bytes} {g : Destination × ServerConfig → Destination × ServerConfig}

/-- The seconds that an option sets. -/
def idleOf (o : Bytes × Bytes) : Option ℤ := (numberOf (str "--timeout") o).map idleSeconds

/-- What is set is what the option picks. -/
theorem sets_fields (h : Sets table o g) (s : Destination × ServerConfig) :
    Valid o ∧ (g s).1.host = (hostOf o).getD s.1.host ∧ (g s).1.port = (portOf o).getD s.1.port ∧
      (g s).2.outDir = (dirOf o).getD s.2.outDir ∧
      (g s).2.idleTimeout = (idleOf o).getD s.2.idleTimeout ∧
      (g s).2.maxSessions = (numberOf (str "--max-sessions") o).getD s.2.maxSessions := by
  obtain ⟨opt, value⟩ := o
  obtain ⟨f, hf, hg⟩ := h
  dsimp only at hf hg
  rcases effect_cases hf with ⟨rfl, rfl⟩ | ⟨rfl, rfl⟩ | ⟨rfl, rfl⟩ | ⟨rfl, rfl⟩ | ⟨rfl, rfl⟩
  · cases hg
    exact ⟨.inl rfl, rfl, rfl, rfl, rfl, rfl⟩
  · obtain ⟨parsed, hparse, rfl⟩ := addressed_ok.mp hg
    refine ⟨.inr (.inl ⟨rfl, ?_⟩), ?_, ?_, rfl, rfl, rfl⟩
    · exact Option.isSome_iff_exists.mpr ⟨_, hparse⟩
    · rw [hostOf_destination, hparse]
      rfl
    · rw [portOf_destination, hparse]
      rfl
  · cases hg
    exact ⟨.inr (.inr (.inl rfl)), rfl, rfl, rfl, rfl, rfl⟩
  · obtain ⟨secs, hn, rfl⟩ := numeric_ok.mp hg
    have hvalid := Option.isSome_iff_exists.mpr ⟨_, hn⟩
    refine ⟨.inr (.inr (.inr (.inl ⟨rfl, hvalid⟩))), rfl, rfl, rfl, ?_, rfl⟩
    dsimp only
    rw [idleOf, hn, Option.map_some, Option.getD_some]
  · obtain ⟨n, hn, rfl⟩ := numeric_ok.mp hg
    have hvalid := Option.isSome_iff_exists.mpr ⟨_, hn⟩
    refine ⟨.inr (.inr (.inr (.inr ⟨rfl, hvalid⟩))), rfl, rfl, rfl, rfl, ?_⟩
    dsimp only
    rw [hn, Option.getD_some]

theorem Valid.sets (h : Valid o) : ∃ g, Sets table o g := by
  obtain ⟨opt, value⟩ := o
  rcases h with rfl | ⟨rfl, h⟩ | rfl | ⟨rfl, h⟩ | ⟨rfl, h⟩
  · exact ⟨_, port, rfl, rfl⟩
  · obtain ⟨parsed, hparse⟩ := Option.isSome_iff_exists.mp h
    exact ⟨_, destination, rfl, addressed_ok.mpr ⟨parsed, hparse, rfl⟩⟩
  · exact ⟨_, dir, rfl, rfl⟩
  · obtain ⟨secs, hn⟩ := Option.isSome_iff_exists.mp h
    exact ⟨_, timeout, rfl, numeric_ok.mpr ⟨secs, hn, rfl⟩⟩
  · obtain ⟨n, hn⟩ := Option.isSome_iff_exists.mp h
    exact ⟨_, maxSessions, rfl, numeric_ok.mpr ⟨n, hn, rfl⟩⟩

/-- The configuration that the options make of `s`. -/
def configured (s : Destination × ServerConfig) (opts : List (Bytes × Bytes)) :
    Destination × ServerConfig where
  fst.host := last hostOf s.1.host opts
  fst.port := last portOf s.1.port opts
  snd.outDir := last dirOf s.2.outDir opts
  snd.idleTimeout := last idleOf s.2.idleTimeout opts
  snd.maxSessions := last (numberOf (str "--max-sessions")) s.2.maxSessions opts

theorem takes_eq {s t : Destination × ServerConfig} {opts : List (Bytes × Bytes)}
    (h : Takes table s opts t) : t = configured s opts := by
  have hhost := h.field (fun s => s.1.host) fun o g ho a => (sets_fields ho a).2.1
  have hport := h.field (fun s => s.1.port) fun o g ho a => (sets_fields ho a).2.2.1
  have hdir := h.field (fun s => s.2.outDir) fun o g ho a => (sets_fields ho a).2.2.2.1
  have hidle := h.field (fun s => s.2.idleTimeout) fun o g ho a => (sets_fields ho a).2.2.2.2.1
  have hmax := h.field (fun s => s.2.maxSessions) fun o g ho a => (sets_fields ho a).2.2.2.2.2
  obtain ⟨⟨host, port⟩, ⟨outDir, idleTimeout, maxSessions⟩⟩ := t
  rw [configured, ← hhost, ← hport, ← hdir, ← hidle, ← hmax]

end ServerOption

/-- What `runServer` has taken is a list of valid options. -/
theorem runServer_ok {executableDir : Bytes} {args : List Bytes} {s : Destination × ServerConfig}
    (h : runServer executableDir args = .ok s) :
    ∃ opts, args = render opts ∧ (∀ o ∈ opts, ServerOption.Valid o) ∧
      s = ServerOption.configured ({ host := str "0.0.0.0", port := DEFAULT_PORT },
        { outDir := executableDir, idleTimeout := 30, maxSessions := 1024 }) opts := by
  rw [runServer, ServerOption.options_eq, parse_iff] at h
  obtain ⟨opts, hargs, htakes⟩ := h
  refine ⟨opts, hargs, fun o ho => ?_, ServerOption.takes_eq htakes⟩
  obtain ⟨g, hg⟩ := htakes.sets o ho
  exact (ServerOption.sets_fields hg s).1

/-- **The options of the server**: it takes the lists of options with values that are all
valid. Each field has the value that the last option for it sets, or its default. -/
theorem runServer_iff (executableDir : Bytes) (args : List Bytes) (s : Destination × ServerConfig) :
    runServer executableDir args = .ok s ↔
      ∃ opts, args = render opts ∧ (∀ o ∈ opts, ServerOption.Valid o) ∧
        s = ServerOption.configured ({ host := str "0.0.0.0", port := DEFAULT_PORT },
          { outDir := executableDir, idleTimeout := 30, maxSessions := 1024 }) opts := by
  refine ⟨runServer_ok, ?_⟩
  rintro ⟨opts, hargs, hvalid, rfl⟩
  obtain ⟨b, hb⟩ := exists_takes (fun o ho => (hvalid o ho).sets) _
  rw [runServer, ServerOption.options_eq, parse_iff]
  exact ⟨opts, hargs, ServerOption.takes_eq hb ▸ hb⟩

/-! ### The client -/

namespace ClientOption

/-- A branch of the loop of `runClient`. -/
abbrev Effect := Bytes → Except Bytes (ClientConfig → ClientConfig)

def host : Effect := fun value =>
  .ok fun cfg => { cfg with endpoint := { cfg.endpoint with host := value } }

def port : Effect := fun value =>
  .ok fun cfg => { cfg with endpoint := { cfg.endpoint with port := value } }

def destination : Effect := addressed fun parsed cfg => { cfg with endpoint := parsed }

def timeout : Effect :=
  numeric (str "--timeout") fun secs cfg => { cfg with timeoutMs := timeoutMillis secs }

def table : Table Bytes Bytes ClientConfig where
  effect := fun opt =>
    if opt = str "--host" then some host
    else if opt = str "--port" then some port
    else if opt = str "--destination" then some destination
    else if opt = str "--timeout" then some timeout
    else none
  missing := valueMissing
  unknown := fun opt => str "неизвестная опция клиента: " ++ opt

theorem effect_cases {opt : Bytes} {f : Effect} (h : table.effect opt = some f) :
    (opt = str "--host" ∧ f = host) ∨ (opt = str "--port" ∧ f = port) ∨
      (opt = str "--destination" ∧ f = destination) ∨ (opt = str "--timeout" ∧ f = timeout) := by
  simp only [table] at h
  split_ifs at h with h₁ h₂ h₃ h₄ <;> cases h
  · exact .inl ⟨h₁, rfl⟩
  · exact .inr (.inl ⟨h₂, rfl⟩)
  · exact .inr (.inr (.inl ⟨h₃, rfl⟩))
  · exact .inr (.inr (.inr ⟨h₄, rfl⟩))

theorem effect_isSome {opt : Bytes} : (table.effect opt).isSome ↔
    opt ∈ [str "--host", str "--port", str "--destination", str "--timeout"] := by
  simp only [List.mem_cons, List.not_mem_nil, or_false]
  constructor
  · intro h
    obtain ⟨f, hf⟩ := Option.isSome_iff_exists.mp h
    rcases effect_cases hf with ⟨h, -⟩ | ⟨h, -⟩ | ⟨h, -⟩ | ⟨h, -⟩ <;> simp [h]
  · rintro (rfl | rfl | rfl | rfl) <;> decide

theorem options_eq : ∀ (args : List Bytes) (cfg : ClientConfig),
    clientOptions cfg args = parse table cfg args
  | [], _ => rfl
  | [arg], cfg => by
    rw [clientOptions, parse]
    split <;> rename_i hmem
    · obtain ⟨f, hf⟩ := Option.isSome_iff_exists.mp (effect_isSome.mpr hmem)
      rw [hf]
      rfl
    · rw [Option.not_isSome_iff_eq_none.mp (mt effect_isSome.mp hmem)]
      rfl
  | arg :: value :: rest, cfg => by
    have ih := options_eq rest
    rw [clientOptions, parse, table]
    dsimp only
    split_ifs with h₁ h₂ h₃ h₄
    · exact ih _
    · exact ih _
    · dsimp only [destination, addressed]
      cases Destination.parse value with
      | none => rfl
      | some parsed => exact ih _
    · dsimp only [timeout, numeric]
      rw [h₄]
      cases parseUnsigned value (str "--timeout") with
      | error line => rfl
      | ok secs => exact ih _
    · rfl

/-- The option is known, and its value is one that it takes. -/
def Valid (o : Bytes × Bytes) : Prop :=
  o.1 = str "--host" ∨ o.1 = str "--port" ∨
    (o.1 = str "--destination" ∧ (Destination.parse o.2).isSome) ∨
    (o.1 = str "--timeout" ∧ (numberOf (str "--timeout") o).isSome)

/-- The milliseconds that an option sets. -/
def millisOf (o : Bytes × Bytes) : Option ℤ := (numberOf (str "--timeout") o).map timeoutMillis

variable {o : Bytes × Bytes} {g : ClientConfig → ClientConfig}

theorem sets_fields (h : Sets table o g) (cfg : ClientConfig) :
    Valid o ∧ (g cfg).endpoint.host = (hostOf o).getD cfg.endpoint.host ∧
      (g cfg).endpoint.port = (portOf o).getD cfg.endpoint.port ∧
      (g cfg).filePath = cfg.filePath ∧
      (g cfg).timeoutMs = (millisOf o).getD cfg.timeoutMs := by
  obtain ⟨opt, value⟩ := o
  obtain ⟨f, hf, hg⟩ := h
  dsimp only at hf hg
  rcases effect_cases hf with ⟨rfl, rfl⟩ | ⟨rfl, rfl⟩ | ⟨rfl, rfl⟩ | ⟨rfl, rfl⟩
  · cases hg
    exact ⟨.inl rfl, rfl, rfl, rfl, rfl⟩
  · cases hg
    exact ⟨.inr (.inl rfl), rfl, rfl, rfl, rfl⟩
  · obtain ⟨parsed, hparse, rfl⟩ := addressed_ok.mp hg
    refine ⟨.inr (.inr (.inl ⟨rfl, ?_⟩)), ?_, ?_, rfl, rfl⟩
    · exact Option.isSome_iff_exists.mpr ⟨_, hparse⟩
    · rw [hostOf_destination, hparse]
      rfl
    · rw [portOf_destination, hparse]
      rfl
  · obtain ⟨secs, hn, rfl⟩ := numeric_ok.mp hg
    have hvalid := Option.isSome_iff_exists.mpr ⟨_, hn⟩
    refine ⟨.inr (.inr (.inr ⟨rfl, hvalid⟩)), rfl, rfl, rfl, ?_⟩
    dsimp only
    rw [millisOf, hn, Option.map_some, Option.getD_some]

theorem Valid.sets (h : Valid o) : ∃ g, Sets table o g := by
  obtain ⟨opt, value⟩ := o
  rcases h with rfl | rfl | ⟨rfl, h⟩ | ⟨rfl, h⟩
  · exact ⟨_, host, rfl, rfl⟩
  · exact ⟨_, port, rfl, rfl⟩
  · obtain ⟨parsed, hparse⟩ := Option.isSome_iff_exists.mp h
    exact ⟨_, destination, rfl, addressed_ok.mpr ⟨parsed, hparse, rfl⟩⟩
  · obtain ⟨secs, hn⟩ := Option.isSome_iff_exists.mp h
    exact ⟨_, timeout, rfl, numeric_ok.mpr ⟨secs, hn, rfl⟩⟩

/-- The configuration that the options make of `cfg`. -/
def configured (cfg : ClientConfig) (opts : List (Bytes × Bytes)) : ClientConfig where
  endpoint.host := last hostOf cfg.endpoint.host opts
  endpoint.port := last portOf cfg.endpoint.port opts
  filePath := cfg.filePath
  timeoutMs := last millisOf cfg.timeoutMs opts

theorem takes_eq {cfg cfg' : ClientConfig} {opts : List (Bytes × Bytes)}
    (h : Takes table cfg opts cfg') : cfg' = configured cfg opts := by
  have hhost := h.field (fun cfg => cfg.endpoint.host) fun o g ho a => (sets_fields ho a).2.1
  have hport := h.field (fun cfg => cfg.endpoint.port) fun o g ho a => (sets_fields ho a).2.2.1
  have hpath : cfg'.filePath = cfg.filePath :=
    h.unchanged fun o g ho a => (sets_fields ho a).2.2.2.1
  have htime := h.field (fun cfg => cfg.timeoutMs) fun o g ho a => (sets_fields ho a).2.2.2.2
  obtain ⟨⟨host, port⟩, filePath, timeoutMs⟩ := cfg'
  rw [configured, ← hhost, ← hport, ← hpath, ← htime]

end ClientOption

/-- **The options of the client**: it takes a path that does not begin with a hyphen, and
then the lists of options with values that are all valid. -/
theorem runClient_iff (prog : Bytes) (args : List Bytes) (cfg : ClientConfig) :
    runClient prog args = .ok cfg ↔
      ∃ path opts, args = path :: render opts ∧ path.head? ≠ some 0x2D#8 ∧
        (∀ o ∈ opts, ClientOption.Valid o) ∧
        cfg = ClientOption.configured
          { endpoint := { host := str "127.0.0.1", port := DEFAULT_PORT }, filePath := path }
          opts := by
  cases args with
  | nil =>
    constructor
    · intro h
      cases h
    · rintro ⟨path, opts, hargs, -⟩
      cases hargs
  | cons path args =>
    rw [runClient]
    split
    · rename_i hhyphen
      constructor
      · intro h
        cases h
      · rintro ⟨path', opts, hargs, hpath, -⟩
        cases hargs
        exact absurd hhyphen hpath
    · rename_i hhyphen
      rw [ClientOption.options_eq, parse_iff]
      constructor
      · rintro ⟨opts, rfl, h⟩
        refine ⟨path, opts, rfl, hhyphen, fun o ho => ?_, ClientOption.takes_eq h⟩
        obtain ⟨g, hg⟩ := h.sets o ho
        exact (ClientOption.sets_fields hg cfg).1
      · rintro ⟨path', opts, hargs, -, hvalid, rfl⟩
        cases hargs
        obtain ⟨b, hb⟩ := exists_takes (fun o ho => (hvalid o ho).sets) _
        exact ⟨opts, rfl, ClientOption.takes_eq hb ▸ hb⟩

end Nexus
