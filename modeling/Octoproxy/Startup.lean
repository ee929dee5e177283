import Mathlib.Data.List.Perm.Lattice
import Octoproxy.Affinity
import Octoproxy.Backend
import Octoproxy.Confinement
import Octoproxy.Lists

namespace Octoproxy
open Lists
set_option autoImplicit true

/-- The backends stand in the order in which their map is drained, which may be any. -/
structure FileConfig where
  listenAddress : String
  balance : Balance
  hostRule : Option String
  metricAddress : String
  backends : List (String × FileBackendConfig)
  named : (backends.map Prod.fst).Nodup

structure Cmd where
  listenAddress : Option String
  config : String

/-- What a start gets from outside: the two files, what the libraries parse, and for each name what
its backend is built from. An error lists its contexts. -/
structure StartEnv where
  loadFromFile : String → Except (List String) FileConfig
  openHostRule : String → Except (List String) (Except (List String) HostRuler)
  parseAddress : String → Option SocketAddr
  parsePort : String → Option (BitVec 16)
  showAddress : SocketAddr → String
  parseUri : String → Except (List String) String
  build : String → BuildEnv

/-- What `Config::new` sets up: the configuration, the new backends under their names, the balancer
and the addresses. -/
structure Startup (K : Type) where
  config : Config
  entries : List (String × Backend K)
  balancer : Balancer
  listenAddress : SocketAddr
  metricAddress : SocketAddr
  proxyUri : String
  listed : config.backends.map ConfigBackend.backendName = entries.map Prod.fst

def context (text : String) : Except (List String) α → Except (List String) α :=
  Except.mapError (text :: ·)

def parseSocketAddress (env : StartEnv) (address : String) : Except (List String) SocketAddr :=
  match env.parseAddress address with
  | some addr => .ok addr
  | none =>
    match env.parsePort address with
    | some port => .ok ⟨.v4 0x7f000001, port⟩
    | none => .error ["cannot parse listen address into socket address"]

/-- The backends are shared by their place in the list. -/
def number (names : List String) : List ConfigBackend :=
  names.zipIdx.map fun (name, i) => ⟨i, name⟩

/-- The first backend that cannot be built ends the loop. -/
def populateBackends [NatCast K] (env : String → BuildEnv) (now : Nat) :
    List (String × FileBackendConfig) → Except (List String) (List (String × Backend K))
  | [] => .ok []
  | (name, file) :: files =>
    match Backend.new (env name) now file with
    | .error e => .error ["Fail to initialize backend", e]
    | .ok b => (populateBackends env now files).map fun entries => (name, b) :: entries

theorem number_length (names : List String) : (number names).length = names.length := by
  simp [number]

theorem number_backend (names : List String) :
    (number names).map ConfigBackend.backend = List.range (number names).length := by
  have h := List.zipIdx_map_snd 0 names
  rw [number_length, List.range_eq_range', ← h, number, List.map_map]
  rfl

theorem number_name (names : List String) :
    (number names).map ConfigBackend.backendName = names := by
  have h := List.zipIdx_map_fst 0 names
  rw [number, List.map_map]
  exact h

section
variable {K : Type} [NatCast K] {env : String → BuildEnv} {now : Nat}

def Builds (env : String → BuildEnv) (now : Nat) (file : String × FileBackendConfig)
    (entry : String × Backend K) : Prop :=
  entry.1 = file.1 ∧ Backend.new (env file.1) now file.2 = .ok entry.2

theorem populateBackends_ok_iff {files : List (String × FileBackendConfig)}
    {entries : List (String × Backend K)} :
    populateBackends env now files = .ok entries ↔
      List.Forall₂ (Builds env now) files entries := by
  induction files generalizing entries with
  | nil =>
    rw [List.forall₂_nil_left_iff, populateBackends]
    constructor
    · rintro ⟨⟩
      rfl
    · rintro rfl
      rfl
  | cons file files ih =>
    obtain ⟨name, file⟩ := file
    rw [List.forall₂_cons_left_iff, populateBackends]
    cases hb : Backend.new (K := K) (env name) now file with
    | error e =>
      constructor
      · rintro ⟨⟩
      · rintro ⟨entry, _, ⟨_, hn⟩, _⟩
        cases hb.symm.trans hn
    | ok b =>
      cases hp : populateBackends (K := K) env now files with
      | error e =>
        constructor
        · rintro ⟨⟩
        · rintro ⟨entry, rest, _, hrest, _⟩
          cases hp.symm.trans (ih.2 hrest)
      | ok rest =>
        constructor
        · rintro ⟨⟩
          exact ⟨(name, b), rest, ⟨rfl, hb⟩, ih.1 hp, rfl⟩
        · rintro ⟨⟨name', b'⟩, rest', ⟨rfl, hn⟩, hrest, rfl⟩
          cases hb.symm.trans hn
          cases hp.symm.trans (ih.2 hrest)
          rfl

theorem populateBackends_names {files : List (String × FileBackendConfig)}
    {entries : List (String × Backend K)} (h : populateBackends env now files = .ok entries) :
    entries.map Prod.fst = files.map Prod.fst := by
  have hb := populateBackends_ok_iff.1 h
  clear h
  induction hb with
  | nil => rfl
  | cons hb _ ih => rw [List.map_cons, List.map_cons, ih, hb.1]

end

def FileConfig.readHostRule (env : StartEnv) (file : FileConfig) :
    Except (List String) (Option HostRuler) :=
  match file.hostRule with
  | none => .ok none
  | some path => do
    let opened ← context "Failed to open host rewrite file" (env.openHostRule path)
    let parsed ← context "Failed to parse host rewrite config"
      (context "Failed to parse host rule toml" opened)
    return HostRuler.new parsed

/-- The end of `Config::new`, with everything but the backends at hand. -/
def FileConfig.setUp [NatCast K] (hashRing : Nat → String → Option Nat) (env : StartEnv) (now : Nat)
    (file : FileConfig) (listenAddress metricAddress : SocketAddr) (proxyUri : String)
    (hostRule : Option HostRuler) : Except (List String) (Startup K) :=
  match h : populateBackends env.build now file.backends with
  | .error e => .error ("Could not setup backends" :: e)
  | .ok entries => .ok {
      config := {
        backends := number (entries.map Prod.fst)
        hostRule := hostRule
        numbered := number_backend _
        named := by
          rw [number_name, populateBackends_names h]
          exact file.named }
      entries := entries
      balancer := populateLoadBalance hashRing file.balance file.backends.length
      listenAddress := listenAddress
      metricAddress := metricAddress
      proxyUri := proxyUri
      listed := number_name _ }

def Config.new [NatCast K] (hashRing : Nat → String → Option Nat) (env : StartEnv) (now : Nat)
    (opts : Cmd) : Except (List String) (Startup K) := do
  let file ← context "Could not load config file" (env.loadFromFile opts.config)
  -- the command line overwrites the file
  let listenAddress ← context "Could not parse proxy listen address"
    (parseSocketAddress env (opts.listenAddress.getD file.listenAddress))
  let metricAddress ← context "Could not parse metric listen address"
    (parseSocketAddress env file.metricAddress)
  let proxyUri ← context "Could not parse proxy listen address"
    (env.parseUri ("http://" ++ env.showAddress listenAddress))
  let hostRule ← file.readHostRule env
  file.setUp hashRing env now listenAddress metricAddress proxyUri hostRule

namespace Startup
variable (S : Startup K)

def find (name : String) : Option (Backend K) := S.entries.lookup name

def nameOf (b : Nat) : Option String := S.config.backends[b]?.map ConfigBackend.backendName

def byName (st : String → BackendStatus) (b : Nat) : BackendStatus :=
  (S.nameOf b).elim .unknown st

def owner : AvailableBackend → Option String
  | .gotBackend b => S.nameOf b
  | _ => none

/-- The names that are Normal, in the order in which the balancer gets them. -/
def available (st : String → BackendStatus) : List String :=
  (S.config.availableBackends (S.byName st)).map ConfigBackend.backendName

end Startup

/-- Two starts listen on the same addresses, have the same backends under the same names, and route
the same rules to them. -/
structure Startup.Alike (S T : Startup K) : Prop where
  listen : S.listenAddress = T.listenAddress ∧ S.proxyUri = T.proxyUri
  metric : S.metricAddress = T.metricAddress
  found : ∀ name, S.find name = T.find name
  rules : S.config.hostRule = T.config.hostRule
  balancer : S.balancer = T.balancer
  owner : ∀ st name, S.owner (S.config.namedBackend (S.byName st) name) =
    T.owner (T.config.namedBackend (T.byName st) name)
  available : ∀ st, (S.available st).Perm (T.available st)

/-- The same file, its map of backends drained in another order. -/
structure FileConfig.Reorders (g f : FileConfig) : Prop where
  listenAddress : g.listenAddress = f.listenAddress
  balance : g.balance = f.balance
  hostRule : g.hostRule = f.hostRule
  metricAddress : g.metricAddress = f.metricAddress
  backends : g.backends.Perm f.backends

/-- Everything but the backends can be set up: the addresses and the uri of the proxy are parsed,
and the file of rules is read if there is one. -/
structure FileConfig.Settles (env : StartEnv) (opts : Cmd) (file : FileConfig) : Prop where
  listen : ∃ addr uri,
    parseSocketAddress env (opts.listenAddress.getD file.listenAddress) = .ok addr ∧
      env.parseUri ("http://" ++ env.showAddress addr) = .ok uri
  metric : ∃ addr, parseSocketAddress env file.metricAddress = .ok addr
  rules : ∃ ruler, file.readHostRule env = .ok ruler

def StartEnv.loading (env : StartEnv) (file : FileConfig) : StartEnv :=
  { env with loadFromFile := fun _ => .ok file }

structure FileConfig.Starts [NatCast K] (hashRing : Nat → String → Option Nat) (env : StartEnv)
    (now : Nat) (opts : Cmd) (file : FileConfig) (S : Startup K) : Prop where
  listen : parseSocketAddress env (opts.listenAddress.getD file.listenAddress) =
    .ok S.listenAddress
  uri : env.parseUri ("http://" ++ env.showAddress S.listenAddress) = .ok S.proxyUri
  metric : parseSocketAddress env file.metricAddress = .ok S.metricAddress
  rules : file.readHostRule env = .ok S.config.hostRule
  built : populateBackends env.build now file.backends = .ok S.entries
  balancer : S.balancer = populateLoadBalance hashRing file.balance file.backends.length

section
variable {K : Type} {S T : Startup K}

theorem Startup.nameOf_backend (S : Startup K) {x : ConfigBackend} (hx : x ∈ S.config.backends) :
    S.nameOf x.backend = some x.backendName := by
  obtain ⟨i, hi, rfl⟩ := List.mem_iff_getElem.1 hx
  rw [Startup.nameOf, Config.getElem_backend _ hi, List.getElem?_eq_getElem hi]
  rfl

theorem Startup.byName_backend (S : Startup K) (st : String → BackendStatus) {x : ConfigBackend}
    (hx : x ∈ S.config.backends) : S.byName st x.backend = st x.backendName := by
  rw [Startup.byName, S.nameOf_backend hx]
  rfl

theorem Startup.owner_named (S : Startup K) (st : String → BackendStatus) (name : String) :
    S.owner (S.config.namedBackend (S.byName st) name) =
      if name ∈ S.entries.map Prod.fst ∧ st name = .normal then some name else none := by
  rw [← S.listed]
  obtain ⟨x, hx, rfl, hn, ha⟩ | ⟨hnone, ha⟩ := S.config.namedBackend_cases (S.byName st) name
  · rw [S.byName_backend st hx] at hn
    rw [ha, if_pos ⟨List.mem_map_of_mem hx, hn⟩]
    exact S.nameOf_backend hx
  · rw [ha, if_neg]
    · rfl
    · rintro ⟨hm, hn⟩
      obtain ⟨x, hx, rfl⟩ := List.mem_map.1 hm
      exact hnone x hx rfl ((S.byName_backend st hx).trans hn)

theorem Startup.available_eq (S : Startup K) (st : String → BackendStatus) :
    S.available st = (S.entries.map Prod.fst).filter fun name => st name = .normal := by
  rw [← S.listed, List.filter_map, Startup.available, Config.availableBackends]
  congr 1
  apply List.filter_congr
  intro x hx
  simp only [S.byName_backend st hx, Function.comp_apply]

end

theorem bind_eq_ok {x : Except ε α} {f : α → Except ε β} {b : β} :
    x >>= f = .ok b ↔ ∃ a, x = .ok a ∧ f a = .ok b := by
  cases x with
  | error e =>
    constructor
    · intro h
      cases h
    · rintro ⟨a, h, _⟩
      cases h
  | ok a =>
    constructor
    · exact fun h => ⟨a, rfl, h⟩
    · rintro ⟨a', h, hf⟩
      cases h
      exact hf

@[simp] theorem context_eq_ok {x : Except (List String) α} {a : α} :
    context text x = .ok a ↔ x = .ok a := by
  cases x with
  | error e => exact ⟨nofun, nofun⟩
  | ok _ => rfl

section
variable {K : Type} [NatCast K] {hashRing : Nat → String → Option Nat} {env : StartEnv}
  {now : Nat} {opts : Cmd} {f g : FileConfig} {S T : Startup K}

theorem FileConfig.exists_setUp (hashRing : Nat → String → Option Nat)
    {entries : List (String × Backend K)}
    (h : populateBackends env.build now f.backends = .ok entries) (listen metric : SocketAddr)
    (uri : String) (rules : Option HostRuler) :
    ∃ S : Startup K, f.setUp hashRing env now listen metric uri rules = .ok S := by
  unfold FileConfig.setUp
  split
  · rename_i hp
    cases h.symm.trans hp
  · exact ⟨_, rfl⟩

theorem Config.new_ok (h : Config.new hashRing env now opts = .ok S) :
    ∃ f, env.loadFromFile opts.config = .ok f ∧ f.Starts hashRing env now opts S := by
  simp only [Config.new, bind_eq_ok, context_eq_ok] at h
  obtain ⟨f, hload, listen, hlisten, metric, hmetric, uri, huri, rules, hrules, h⟩ := h
  unfold FileConfig.setUp at h
  split at h
  · cases h
  · rename_i hp
    cases h
    exact ⟨f, hload, hlisten, huri, hmetric, hrules, hp, rfl⟩

theorem Config.exists_new (hashRing : Nat → String → Option Nat)
    {entries : List (String × Backend K)} (hload : env.loadFromFile opts.config = .ok f)
    (hs : f.Settles env opts) (h : populateBackends env.build now f.backends = .ok entries) :
    ∃ S : Startup K, Config.new hashRing env now opts = .ok S := by
  obtain ⟨⟨listen, uri, hlisten, huri⟩, ⟨metric, hmetric⟩, ⟨rules, hrules⟩⟩ := hs
  obtain ⟨S, hS⟩ := FileConfig.exists_setUp hashRing h listen metric uri rules
  refine ⟨S, ?_⟩
  simp only [Config.new, bind_eq_ok, context_eq_ok]
  exact ⟨f, hload, listen, hlisten, metric, hmetric, uri, huri, rules, hrules, hS⟩

theorem FileConfig.Starts.settles (h : f.Starts hashRing env now opts S) : f.Settles env opts :=
  ⟨⟨_, _, h.listen, h.uri⟩, ⟨_, h.metric⟩, ⟨_, h.rules⟩⟩

theorem lookup_builds {files : List (String × FileBackendConfig)}
    {entries : List (String × Backend K)} (h : List.Forall₂ (Builds build now) files entries)
    (name : String) : entries.lookup name =
      (files.lookup name).bind fun file => (Backend.new (build name) now file).toOption := by
  induction h with
  | nil => rfl
  | @cons file entry files entries hb _ ih =>
    obtain ⟨key, file⟩ := file
    obtain ⟨key', b⟩ := entry
    obtain ⟨hkey, hb⟩ := hb
    obtain rfl : key' = key := hkey
    by_cases he : name = key'
    · subst he
      rw [List.lookup_cons_self, List.lookup_cons_self, Option.bind_some, hb]
      rfl
    · have hne : (name == key') = false := beq_eq_false_iff_ne.2 he
      rw [List.lookup_cons, List.lookup_cons, hne]
      exact ih

theorem Config.new_ok_iff (hashRing : Nat → String → Option Nat) (env : StartEnv) (now : Nat)
    (opts : Cmd) :
    (∃ S : Startup K, Config.new hashRing env now opts = .ok S) ↔
      ∃ f, env.loadFromFile opts.config = .ok f ∧ f.Settles env opts ∧
        ∀ e ∈ f.backends, ∃ b : Backend K, Backend.new (env.build e.1) now e.2 = .ok b := by
  constructor
  · rintro ⟨S, hS⟩
    obtain ⟨f, hload, hstarts⟩ := Config.new_ok hS
    refine ⟨f, hload, hstarts.settles, ?_⟩
    intro e he
    obtain ⟨entry, _, hn⟩ := exists_of_forall₂ (populateBackends_ok_iff.1 hstarts.built) e he
    exact ⟨entry.2, hn⟩
  · rintro ⟨f, hload, hs, h⟩
    obtain ⟨entries, hb⟩ : ∃ entries : List (String × Backend K),
        List.Forall₂ (Builds env.build now) f.backends entries := by
      apply forall₂_of_exists
      intro e he
      obtain ⟨b, hb⟩ := h e he
      exact ⟨(e.1, b), rfl, hb⟩
    exact Config.exists_new hashRing hload hs (populateBackends_ok_iff.2 hb)

theorem populateBackends_perm {files files' : List (String × FileBackendConfig)}
    {entries : List (String × Backend K)} (h : populateBackends build now files = .ok entries)
    (hp : files'.Perm files) :
    ∃ entries', populateBackends build now files' = .ok entries' ∧ entries'.Perm entries := by
  obtain ⟨entries', hb, hperm⟩ := List.perm_comp_forall₂ hp (populateBackends_ok_iff.1 h)
  exact ⟨entries', populateBackends_ok_iff.2 hb, hperm⟩

theorem FileConfig.Reorders.listen (h : g.Reorders f) (opts : Cmd) :
    opts.listenAddress.getD g.listenAddress = opts.listenAddress.getD f.listenAddress := by
  rw [h.listenAddress]

theorem FileConfig.Reorders.rules (h : g.Reorders f) (env : StartEnv) :
    g.readHostRule env = f.readHostRule env := by
  rw [FileConfig.readHostRule, h.hostRule, FileConfig.readHostRule]

/-- Another order of the file starts as well, with the same addresses, rules and balancer. -/
theorem FileConfig.Reorders.starts (h : g.Reorders f) (hS : f.Starts hashRing env now opts S) :
    ∃ T : Startup K, Config.new hashRing (env.loading g) now opts = .ok T ∧
      g.Starts hashRing env now opts T ∧ T.entries.Perm S.entries ∧
      T.listenAddress = S.listenAddress ∧ T.proxyUri = S.proxyUri ∧
      T.metricAddress = S.metricAddress ∧ T.config.hostRule = S.config.hostRule ∧
      T.balancer = S.balancer := by
  obtain ⟨entries, hbuilt, hperm⟩ := populateBackends_perm hS.built h.backends
  have hsettles : g.Settles (env.loading g) opts := by
    refine ⟨⟨S.listenAddress, S.proxyUri, ?_, hS.uri⟩, ⟨S.metricAddress, ?_⟩,
      ⟨_, (h.rules _).trans hS.rules⟩⟩
    · rw [h.listen]
      exact hS.listen
    · rw [h.metricAddress]
      exact hS.metric
  obtain ⟨T, hT⟩ := Config.exists_new hashRing (f := g) rfl hsettles hbuilt
  obtain ⟨g', hload, hstarts⟩ := Config.new_ok hT
  cases hload
  have hlisten : T.listenAddress = S.listenAddress := by
    have hl := hstarts.listen
    rw [h.listen] at hl
    exact Except.ok.inj (hl.symm.trans hS.listen)
  have hmetric : T.metricAddress = S.metricAddress := by
    have hm := hstarts.metric
    rw [h.metricAddress] at hm
    exact Except.ok.inj (hm.symm.trans hS.metric)
  have huri : T.proxyUri = S.proxyUri := by
    have hu := hstarts.uri
    rw [hlisten] at hu
    exact Except.ok.inj (hu.symm.trans hS.uri)
  have hrules : T.config.hostRule = S.config.hostRule :=
    Except.ok.inj (((h.rules _).symm.trans hstarts.rules).symm.trans hS.rules)
  have hentries : T.entries = entries := Except.ok.inj (hstarts.built.symm.trans hbuilt)
  refine ⟨T, hT, ⟨hstarts.listen, hstarts.uri, hstarts.metric, hstarts.rules, hstarts.built,
    hstarts.balancer⟩, hentries ▸ hperm, hlisten, huri, hmetric, hrules, ?_⟩
  rw [hstarts.balancer, hS.balancer, h.balance, h.backends.length_eq]

end

theorem lookup_eq_some_iff {l : List (String × β)} (hn : (l.map Prod.fst).Nodup) (name : String)
    (b : β) : l.lookup name = some b ↔ (name, b) ∈ l := by
  induction l with
  | nil => simp
  | cons x l ih =>
    obtain ⟨name', b'⟩ := x
    obtain ⟨hx, hn⟩ := List.nodup_cons.1 hn
    by_cases he : name = name'
    · subst he
      rw [List.lookup_cons_self, List.mem_cons]
      constructor
      · rintro ⟨⟩
        exact .inl rfl
      · intro hm
        obtain he | hm := hm
        · rw [(Prod.mk.inj he).2]
        · exact absurd (List.mem_map_of_mem hm) hx
    · have hlookup : ((name', b') :: l).lookup name = l.lookup name := by
        rw [List.lookup_cons, beq_eq_false_iff_ne.2 he]
      rw [hlookup, ih hn, List.mem_cons]
      constructor
      · exact .inr
      · exact fun hm => hm.resolve_left fun hx => he (Prod.mk.inj hx).1

theorem lookup_perm {l l' : List (String × β)} (hp : l.Perm l') (hn : (l.map Prod.fst).Nodup)
    (name : String) : l.lookup name = l'.lookup name := by
  apply Option.ext
  intro b
  rw [lookup_eq_some_iff hn, lookup_eq_some_iff ((hp.map Prod.fst).nodup_iff.1 hn), hp.mem_iff]

/-- A start succeeds exactly when the file loads, everything but the backends can be set up, and
every backend can be built. It finds under every name what was built from the entry of that name.
The order in which the map of the file is drained has no part in it: in every order the rules lead
to the same backends and the balancer chooses among the same. -/
theorem startup_order_irrelevant {K : Type} [NatCast K] (hashRing : Nat → String → Option Nat)
    (env : StartEnv) (now : Nat) (opts : Cmd) :
    ((∃ S : Startup K, Config.new hashRing env now opts = .ok S) ↔
      ∃ f, env.loadFromFile opts.config = .ok f ∧ f.Settles env opts ∧
        ∀ e ∈ f.backends, ∃ b : Backend K, Backend.new (env.build e.1) now e.2 = .ok b) ∧
    ∀ (f : FileConfig) (S : Startup K), env.loadFromFile opts.config = .ok f →
      Config.new hashRing env now opts = .ok S →
      (∀ name, S.find name = (f.backends.lookup name).bind fun file =>
        (Backend.new (env.build name) now file).toOption) ∧
      ∀ g : FileConfig, g.Reorders f → ∃ T : Startup K,
        Config.new hashRing (env.loading g) now opts = .ok T ∧ T.Alike S := by
  refine ⟨Config.new_ok_iff hashRing env now opts, ?_⟩
  intro f S hf hS
  obtain ⟨f', hload, hstarts⟩ := Config.new_ok hS
  cases hf.symm.trans hload
  refine ⟨lookup_builds (populateBackends_ok_iff.1 hstarts.built), ?_⟩
  intro g hg
  obtain ⟨T, hT, hstarts', hentries, hlisten, huri, hmetric, hrules, hbal⟩ := hg.starts hstarts
  have hn : (T.entries.map Prod.fst).Nodup := by
    rw [populateBackends_names hstarts'.built]
    exact g.named
  refine ⟨T, hT, ⟨hlisten, huri⟩, hmetric, ?_, hrules, hbal, ?_, ?_⟩
  · exact lookup_perm hentries hn
  · intro st name
    simp only [T.owner_named, S.owner_named, (hentries.map Prod.fst).mem_iff]
  · intro st
    rw [T.available_eq, S.available_eq]
    exact (hentries.map Prod.fst).filter _

def twoBackendFile : FileConfig where
  listenAddress := "127.0.0.1:8080"
  balance := .uriHash
  hostRule := none
  metricAddress := "8404"
  backends := [("a", plainConfig), ("b", { plainConfig with status := some .closed })]
  named := by decide

def FileConfig.reversed (f : FileConfig) : FileConfig :=
  { f with
    backends := f.backends.reverse
    named := ((List.reverse_perm f.backends).map Prod.fst).nodup_iff.2 f.named }

/-- The one address and the one port of that file are parsed. -/
def twoBackendEnv : StartEnv where
  loadFromFile := fun _ => .ok twoBackendFile
  openHostRule := fun _ => .error ["No such file or directory (os error 2)"]
  parseAddress := fun s => if s = "127.0.0.1:8080" then some ⟨.v4 0x7f000001, 8080⟩ else none
  parsePort := fun s => if s = "8404" then some 8404 else none
  showAddress := fun _ => "127.0.0.1:8080"
  parseUri := .ok
  build := fun _ => workingTls

theorem twoBackendFile_settles : twoBackendFile.Settles twoBackendEnv ⟨none, "config.toml"⟩ :=
  ⟨⟨⟨.v4 0x7f000001, 8080⟩, "http://127.0.0.1:8080", rfl, rfl⟩,
    ⟨⟨.v4 0x7f000001, 8404⟩, rfl⟩, ⟨none, rfl⟩⟩

theorem twoBackendFile_builds (e : String × FileBackendConfig) (he : e ∈ twoBackendFile.backends) :
    ∃ b : Backend ℚ, Backend.new (twoBackendEnv.build e.1) 0 e.2 = .ok b := by
  obtain rfl | rfl := List.mem_pair.1 he
  · exact ⟨_, rfl⟩
  · exact ⟨_, rfl⟩

theorem twoBackendFile_startup : ∃ S T : Startup ℚ,
    Config.new (fun _ _ => some 0) twoBackendEnv 0 ⟨none, "config.toml"⟩ = .ok S ∧
      (S.find "b").map Backend.getStatus = some .closed ∧
      (S.find "a").map Backend.getStatus = some .normal ∧
      Config.new (fun _ _ => some 0) (twoBackendEnv.loading twoBackendFile.reversed) 0
        ⟨none, "config.toml"⟩ = .ok T ∧ T.Alike S := by
  obtain ⟨hok, hfind⟩ := startup_order_irrelevant (K := ℚ) (fun _ _ => some 0) twoBackendEnv 0
    ⟨none, "config.toml"⟩
  obtain ⟨S, hS⟩ := hok.2 ⟨twoBackendFile, rfl, twoBackendFile_settles, twoBackendFile_builds⟩
  obtain ⟨hnames, horder⟩ := hfind twoBackendFile S rfl hS
  obtain ⟨T, hT, halike⟩ := horder twoBackendFile.reversed
    ⟨rfl, rfl, rfl, rfl, List.reverse_perm _⟩
  refine ⟨S, T, hS, ?_, ?_, hT, halike⟩
  · rw [hnames]
    rfl
  · rw [hnames]
    rfl

/-- Every entry can be drained at any place. -/
theorem exists_perm_at {l : List α} (hx : x ∈ l) (hi : i < l.length) :
    ∃ l' : List α, l'.Perm l ∧ l'[i]? = some x := by
  obtain ⟨before, after, rfl⟩ := List.append_of_mem hx
  have hle : i ≤ (before ++ after).length := by
    simp only [List.length_append, List.length_cons] at hi ⊢
    omega
  refine ⟨(before ++ after).insertIdx i x, ?_, ?_⟩
  · exact (List.perm_insertIdx x _ hle).trans List.perm_middle.symm
  · rw [List.getElem?_insertIdx_self, if_pos hle]

theorem filter_normal {status : Nat → BackendStatus} (l : List ConfigBackend)
    (hs : ∀ b, status b = .normal) :
    (l.filter fun b => status b.backend = .normal) = l := by
  apply List.filter_eq_self.2
  intro b _
  rw [hs]
  rfl

/-- While all backends are Normal the ring's id is the backend. -/
theorem Config.picks_of_all [LE C] [DecidableLE C] {cfg : Config} {c : Call C}
    (ring : String → Option Nat) (hs : ∀ b, c.status b = .normal)
    (hrule : c.peer.getBackendNameByRule = .noRule) (hi : i < cfg.backends.length)
    (hring : ring c.peer.getHostname = some i) (htwo : 2 ≤ cfg.backends.length) :
    cfg.Picks (.uriHash ring) c i := by
  have htwo' : 2 ≤ (cfg.availableBackends c.status).length := by
    rwa [Config.availableBackends, filter_normal _ hs]
  rw [Config.picks_owner_iff cfg ring c i hrule hi hring htwo' (hs i)]
  left
  rw [Config.normalBefore, filter_normal _ hs, List.length_take]
  omega

/-- Which backend owns a host under the hash ring is up to the order in which the map is drained:
for every backend of the file there is an order in which it owns the host. -/
theorem uri_hash_owner_by_order {K C : Type} [NatCast K] [LE C] [DecidableLE C]
    (hashRing : Nat → String → Option Nat) (env : StartEnv) (now : Nat) (opts : Cmd)
    (f : FileConfig) (S : Startup K) (peer : PeerInfo) (i : Nat) (name : String)
    (hf : env.loadFromFile opts.config = .ok f)
    (hS : Config.new hashRing env now opts = .ok S) (hbal : f.balance = .uriHash)
    (htwo : 2 ≤ f.backends.length) (hrule : peer.getBackendNameByRule = .noRule)
    (hi : i < f.backends.length)
    (hring : hashRing f.backends.length peer.getHostname = some i)
    (hname : name ∈ f.backends.map Prod.fst) :
    ∃ (g : FileConfig) (T : Startup K), g.Reorders f ∧
      Config.new hashRing (env.loading g) now opts = .ok T ∧
      ∀ c : Call C, c.peer = peer → (∀ b, c.status b = .normal) →
        ∃ b bal, T.config.nextAvailableBackend T.balancer c = .ok (.gotBackend b, bal) ∧
          T.nameOf b = some name := by
  obtain ⟨f', hload, hstarts⟩ := Config.new_ok hS
  cases hf.symm.trans hload
  obtain ⟨e, he, rfl⟩ := List.mem_map.1 hname
  obtain ⟨l, hperm, hat⟩ := exists_perm_at he hi
  let g : FileConfig :=
    { f with backends := l, named := (hperm.map Prod.fst).nodup_iff.2 f.named }
  have hg : g.Reorders f := ⟨rfl, rfl, rfl, rfl, hperm⟩
  obtain ⟨T, hT, hstarts', _, _, _, _, _, hbal'⟩ := hg.starts hstarts
  have hnames : T.config.backends.map ConfigBackend.backendName = l.map Prod.fst :=
    T.listed.trans (populateBackends_names hstarts'.built)
  have hlen : T.config.backends.length = f.backends.length := by
    have hl := congrArg List.length hnames
    rw [List.length_map, List.length_map, hperm.length_eq] at hl
    exact hl
  have hring' : T.balancer = .uriHash (hashRing f.backends.length) := by
    rw [hbal', hstarts.balancer, hbal]
    rfl
  refine ⟨g, T, hg, hT, ?_⟩
  rintro c rfl hs
  obtain ⟨bal, hpick⟩ := Config.picks_of_all (hashRing f.backends.length) hs hrule
    (hlen ▸ hi) hring (hlen ▸ htwo)
  refine ⟨i, bal, ?_, ?_⟩
  · rw [hring']
    exact hpick
  · have hat' := congrArg (·[i]?) hnames
    simp only [List.getElem?_map, hat, Option.map_some] at hat'
    exact hat'

/-- The ring answers the first place for every host, and the second backend of the file can come
to stand there. -/
theorem twoBackendFile_owner : ∃ (g : FileConfig) (T : Startup ℚ), g.Reorders twoBackendFile ∧
    Config.new (fun _ _ => some 0) (twoBackendEnv.loading g) 0 ⟨none, "config.toml"⟩ = .ok T ∧
    ∀ c : Call Nat, c.peer = .new "example.com:80" ⟨.v4 0, 0⟩ → (∀ b, c.status b = .normal) →
      ∃ b bal, T.config.nextAvailableBackend T.balancer c = .ok (.gotBackend b, bal) ∧
        T.nameOf b = some "b" := by
  obtain ⟨S, hS⟩ := (Config.new_ok_iff (K := ℚ) (fun _ _ => some 0) twoBackendEnv 0
    ⟨none, "config.toml"⟩).2 ⟨twoBackendFile, rfl, twoBackendFile_settles, twoBackendFile_builds⟩
  exact uri_hash_owner_by_order (C := Nat) (fun _ _ => some 0) twoBackendEnv 0
    ⟨none, "config.toml"⟩ twoBackendFile S (.new "example.com:80" ⟨.v4 0, 0⟩) 0 "b" rfl hS rfl
    (by decide) rfl (by decide) rfl (by decide)

end Octoproxy
