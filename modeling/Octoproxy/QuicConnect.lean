import Octoproxy.Metric

namespace Octoproxy
set_option autoImplicit true

/-- What the resolver and the QUIC library answer during one connection attempt: opening the
local endpoint, starting to connect, whether a 0-RTT connection is there at once, and the end of
the handshake. -/
structure QuicNet where
  lookupHost : String → Except String (List SocketAddr)
  client : SocketAddr → Except String Unit
  connect : SocketAddr → String → Except String Unit
  into0rtt : SocketAddr → Bool
  handshake : SocketAddr → Except String Unit

structure QuicConnConfig where
  use0rtt : Bool
  serverName : String
  remoteAddress : String
  lastAddrs : Option (SocketAddr × SocketAddr)
  ipv4Only : Bool

namespace QuicConnConfig

def new (serverName remoteAddress : String) (ipv4Only use0rtt : Bool) : QuicConnConfig :=
  ⟨use0rtt, serverName, remoteAddress, none, ipv4Only⟩

def tryConnect (cfg : QuicConnConfig) (net : QuicNet) (remoteAddr endpointAddr : SocketAddr) :
    Except String Unit := do
  net.client endpointAddr
  net.connect remoteAddr cfg.serverName
  if cfg.use0rtt && net.into0rtt remoteAddr then return () else net.handshake remoteAddr

/-- The local address for a remote one; `none` is the `continue` that skips it. -/
def endpointAddr (cfg : QuicConnConfig) (remoteAddr : SocketAddr) : Option SocketAddr :=
  match remoteAddr.ip with
  | .v4 _ => some ⟨.v4 0, 0⟩
  | .v6 _ => if cfg.ipv4Only then none else some ⟨.v6 0, 0⟩

/-- The loop of `connect_addr` over the addresses of the answer. -/
def connectEach (cfg : QuicConnConfig) (net : QuicNet) (lastErr : Option String) :
    List SocketAddr → QuicConnConfig × Except String Unit
  | [] => (cfg, .error (lastErr.getD "could not resolve to any address"))
  | remoteAddr :: addrs =>
    match cfg.endpointAddr remoteAddr with
    | none => cfg.connectEach net lastErr addrs
    | some endpointAddr =>
      match cfg.tryConnect net remoteAddr endpointAddr with
      | .ok () => ({ cfg with lastAddrs := some (remoteAddr, endpointAddr) }, .ok ())
      | .error err => cfg.connectEach net (some err) addrs

def connectAddr (cfg : QuicConnConfig) (net : QuicNet) : QuicConnConfig × Except String Unit :=
  match net.lookupHost cfg.remoteAddress with
  | .error err => (cfg, .error err)
  | .ok addrs => cfg.connectEach net none addrs

def newConnection (cfg : QuicConnConfig) (net : QuicNet) :
    QuicConnConfig × Except String Unit :=
  match cfg.lastAddrs with
  | some (remoteAddr, endpointAddr) => (cfg, cfg.tryConnect net remoteAddr endpointAddr)
  | none => cfg.connectAddr net

/-- The configuration after a history of calls, each with its own answers. -/
def afterConnections (cfg : QuicConnConfig) (history : List QuicNet) : QuicConnConfig :=
  history.foldl (fun cfg net => (cfg.newConnection net).1) cfg

/-- The address is not skipped, and a connection to it can be had now: the endpoint opens, the
connection starts, and it is there at once by 0-RTT or after its handshake. -/
def Accepts (cfg : QuicConnConfig) (net : QuicNet) (remoteAddr : SocketAddr) : Prop :=
  ∃ endpointAddr, cfg.endpointAddr remoteAddr = some endpointAddr ∧
    net.client endpointAddr = .ok () ∧ net.connect remoteAddr cfg.serverName = .ok () ∧
    (cfg.use0rtt = true ∧ net.into0rtt remoteAddr = true ∨ net.handshake remoteAddr = .ok ())

/-- Some address of the current answer accepts a connection. -/
def Resolves (cfg : QuicConnConfig) (net : QuicNet) : Prop :=
  ∃ addrs, net.lookupHost cfg.remoteAddress = .ok addrs ∧ ∃ a ∈ addrs, cfg.Accepts net a

/-- The address that an earlier call has left is as good as the current answer. -/
def CacheAgrees (cfg : QuicConnConfig) (net : QuicNet) : Prop :=
  ∀ remoteAddr endpointAddr, cfg.lastAddrs = some (remoteAddr, endpointAddr) →
    (cfg.Accepts net remoteAddr ↔ cfg.Resolves net)

section
variable {cfg : QuicConnConfig} {net : QuicNet} {a e : SocketAddr}

theorem connectEach_skip (he : cfg.endpointAddr a = none) :
    cfg.connectEach net lastErr (a :: addrs) = cfg.connectEach net lastErr addrs := by
  simp only [connectEach, he]

theorem connectEach_accept (he : cfg.endpointAddr a = some e)
    (ht : cfg.tryConnect net a e = .ok ()) :
    cfg.connectEach net lastErr (a :: addrs) = ({ cfg with lastAddrs := some (a, e) }, .ok ()) := by
  simp only [connectEach, he, ht]

theorem connectEach_refuse (he : cfg.endpointAddr a = some e)
    (ht : cfg.tryConnect net a e = .error err) :
    cfg.connectEach net lastErr (a :: addrs) = cfg.connectEach net (some err) addrs := by
  simp only [connectEach, he, ht]

theorem tryConnect_ok_iff : cfg.tryConnect net a e = .ok () ↔
    net.client e = .ok () ∧ net.connect a cfg.serverName = .ok () ∧
      (cfg.use0rtt = true ∧ net.into0rtt a = true ∨ net.handshake a = .ok ()) := by
  unfold tryConnect
  cases net.client e with
  | error err => exact ⟨nofun, nofun⟩
  | ok _ =>
    cases net.connect a cfg.serverName with
    | error err => exact ⟨nofun, nofun⟩
    | ok _ =>
      by_cases h : (cfg.use0rtt && net.into0rtt a) = true
      · have hearly := Bool.and_eq_true_iff.1 h
        exact ⟨fun _ => ⟨rfl, rfl, .inl hearly⟩, fun _ => if_pos h⟩
      · have hlate : (if cfg.use0rtt && net.into0rtt a then .ok () else net.handshake a) =
          net.handshake a := if_neg h
        refine ⟨fun ht => ⟨rfl, rfl, .inr (hlate.symm.trans ht)⟩, ?_⟩
        rintro ⟨_, _, hearly | ht⟩
        · exact absurd (Bool.and_eq_true_iff.2 hearly) h
        · exact hlate.trans ht

theorem accepts_iff (he : cfg.endpointAddr a = some e) :
    cfg.Accepts net a ↔ cfg.tryConnect net a e = .ok () := by
  rw [tryConnect_ok_iff]
  constructor
  · rintro ⟨e', he', ht⟩
    cases he.symm.trans he'
    exact ht
  · intro ht
    exact ⟨e, he, ht⟩

end

theorem connectEach_ok_iff (cfg : QuicConnConfig) (net : QuicNet) (lastErr : Option String)
    (addrs : List SocketAddr) :
    (cfg.connectEach net lastErr addrs).2 = .ok () ↔ ∃ a ∈ addrs, cfg.Accepts net a := by
  induction addrs generalizing lastErr with
  | nil => simp [connectEach]
  | cons a addrs ih =>
    rw [List.exists_mem_cons_iff]
    cases he : cfg.endpointAddr a with
    | none =>
      have hskip : ¬ cfg.Accepts net a := by
        rintro ⟨e, hs, _⟩
        cases he.symm.trans hs
      rw [connectEach_skip he, ih, or_iff_right hskip]
    | some e =>
      rw [accepts_iff he]
      cases ht : cfg.tryConnect net a e with
      | ok _ =>
        rw [connectEach_accept he ht]
        exact ⟨fun _ => .inl rfl, fun _ => rfl⟩
      | error err =>
        rw [connectEach_refuse he ht, ih, or_iff_right nofun]

theorem connectAddr_ok_iff (cfg : QuicConnConfig) (net : QuicNet) :
    (cfg.connectAddr net).2 = .ok () ↔ cfg.Resolves net := by
  unfold connectAddr Resolves
  cases net.lookupHost cfg.remoteAddress with
  | error err => simp
  | ok addrs => simp [connectEach_ok_iff]

/-- A remembered address was not skipped, and its endpoint is the one of its family. -/
def Remembers (cfg : QuicConnConfig) : Prop :=
  ∀ remoteAddr endpointAddr, cfg.lastAddrs = some (remoteAddr, endpointAddr) →
    cfg.endpointAddr remoteAddr = some endpointAddr

theorem Remembers.connectEach {cfg : QuicConnConfig} (h : cfg.Remembers) (net : QuicNet)
    (lastErr : Option String) (addrs : List SocketAddr) :
    (cfg.connectEach net lastErr addrs).1.Remembers := by
  induction addrs generalizing lastErr with
  | nil => exact h
  | cons a addrs ih =>
    cases he : cfg.endpointAddr a with
    | none =>
      rw [connectEach_skip he]
      exact ih lastErr
    | some e =>
      cases ht : cfg.tryConnect net a e with
      | ok _ =>
        rw [connectEach_accept he ht]
        intro r e' hl
        cases hl
        exact he
      | error err =>
        rw [connectEach_refuse he ht]
        exact ih (some err)

theorem Remembers.newConnection {cfg : QuicConnConfig} (h : cfg.Remembers) (net : QuicNet) :
    (cfg.newConnection net).1.Remembers := by
  unfold QuicConnConfig.newConnection
  cases cfg.lastAddrs with
  | some addrs => exact h
  | none =>
    unfold connectAddr
    cases net.lookupHost cfg.remoteAddress with
    | error err => exact h
    | ok addrs => exact h.connectEach net none addrs

theorem Remembers.afterConnections {cfg : QuicConnConfig} (h : cfg.Remembers)
    (history : List QuicNet) : (cfg.afterConnections history).Remembers := by
  induction history generalizing cfg with
  | nil => exact h
  | cons net history ih => exact ih (h.newConnection net)

theorem newConnection_ok_iff {cfg : QuicConnConfig} (h : cfg.Remembers) (net : QuicNet) :
    ((cfg.newConnection net).2 = .ok () ↔ cfg.Resolves net) ↔ cfg.CacheAgrees net := by
  unfold newConnection CacheAgrees
  cases hl : cfg.lastAddrs with
  | none => simp [connectAddr_ok_iff]
  | some addrs =>
    obtain ⟨r, e⟩ := addrs
    have hr : cfg.Accepts net r ↔ cfg.tryConnect net r e = .ok () := accepts_iff (h r e hl)
    constructor
    · intro hiff r' e' he
      cases he
      exact hr.trans hiff
    · intro hiff
      exact hr.symm.trans (hiff r e rfl)

end QuicConnConfig

/-- After every history of calls, a call succeeds when a fresh resolution would exactly when the
remembered address, if there is one, agrees with the current answer. -/
theorem reconnection_agrees_iff (serverName remoteAddress : String) (ipv4Only use0rtt : Bool)
    (history : List QuicNet) (net : QuicNet) :
    let cfg :=
      (QuicConnConfig.new serverName remoteAddress ipv4Only use0rtt).afterConnections history
    ((cfg.newConnection net).2 = .ok () ↔ cfg.Resolves net) ↔ cfg.CacheAgrees net := by
  apply QuicConnConfig.newConnection_ok_iff
  apply QuicConnConfig.Remembers.afterConnections
  intro r e hl
  cases hl

/-- The name resolves to the only address that accepts a connection. -/
def movedTo (a : SocketAddr) : QuicNet where
  lookupHost := fun _ => .ok [a]
  client := fun _ => .ok ()
  connect := fun _ _ => .ok ()
  into0rtt := fun _ => false
  handshake := fun r => if r = a then .ok () else .error "timed out"

/-- A server that has moved since the first connection is not found again. -/
theorem moved_server_unreached :
    ¬ ∀ (serverName remoteAddress : String) (ipv4Only use0rtt : Bool) (history : List QuicNet)
      (net : QuicNet),
      let cfg :=
        (QuicConnConfig.new serverName remoteAddress ipv4Only use0rtt).afterConnections history
      (cfg.newConnection net).2 = .ok () ↔ cfg.Resolves net := by
  intro h
  have hr := h "localhost" "localhost:8443" true false [movedTo ⟨.v4 1, 8443⟩]
    (movedTo ⟨.v4 2, 8443⟩)
  have hfresh := hr.2 ⟨[⟨.v4 2, 8443⟩], rfl, _, List.mem_cons_self, ⟨.v4 0, 0⟩, rfl, rfl, rfl,
    .inr rfl⟩
  cases hfresh

end Octoproxy
