import Mathlib.Algebra.Order.Field.Rat
import Octoproxy.Metric
import Octoproxy.Transition

namespace Octoproxy
open Transition
set_option autoImplicit true

/-- The entries of a backend's configuration that are read outside the client builders. -/
structure FileBackendConfig where
  status : Option BackendStatus
  protocol : BackendProtocol
  address : String
  retryTimeout : Nat
  maxRetries : Nat
deriving DecidableEq

/-- What the certificate files and the libraries answer while a client is built. The files are
read again at every build, so each build has answers of its own. -/
structure BuildEnv where
  parseDomain : String → Option String
  tlsConfig : Bool
  h2Builder : String → Bool
  quicBuilder : String → Bool

/-- A built client: its kind, and which of the backend's builds it came from. -/
structure MixClient where
  kind : BackendProtocol
  build : Nat
deriving DecidableEq

structure CancellationToken where
  id : Nat
  cancelled : Bool
deriving DecidableEq

def FileBackendConfig.buildClient (env : BuildEnv) (cfg : FileBackendConfig) :
    Option (BackendProtocol × String) := do
  let domain ← env.parseDomain cfg.address
  guard env.tlsConfig
  match cfg.protocol with
  | .http2 => guard (env.h2Builder cfg.address)
  | .quic => guard (env.quicBuilder cfg.address)
  return (cfg.protocol, domain)

structure Backend (K : Type) where
  retryTimeout : Nat
  maxRetries : Nat
  metric : MetricData K
  client : MixClient
  retrying : Bool
  cancellationToken : CancellationToken
  fileBackendConfig : FileBackendConfig

def buildFailed : String := "Could not build client from backend file"

def BackendProtocol.next : BackendProtocol → BackendProtocol
  | .http2 => .quic
  | .quic => .http2

namespace Backend

def new [NatCast K] (env : BuildEnv) (now : Nat) (cfg : FileBackendConfig) :
    Except String (Backend K) :=
  match cfg.buildClient env with
  | none => .error buildFailed
  | some (kind, _) => .ok {
      retryTimeout := cfg.retryTimeout
      maxRetries := cfg.maxRetries
      metric := newMetric now (cfg.status.getD .normal) cfg.protocol
      client := ⟨kind, 0⟩
      retrying := false
      cancellationToken := ⟨0, false⟩
      fileBackendConfig := cfg }

def setStatus (b : Backend K) (status : BackendStatus) : Backend K :=
  { b with metric := { b.metric with status := status } }

def getStatus (b : Backend K) : BackendStatus := b.metric.status

def cancel (b : Backend K) : Backend K :=
  { b with cancellationToken := { b.cancellationToken with cancelled := true } }

def renewCancellationToken (b : Backend K) : Backend K :=
  { b with cancellationToken := ⟨b.cancellationToken.id + 1, false⟩, retrying := false }

/-- The metric's share of `reset_client`; the client's own connection is not part of this
state. -/
def resetClient (b : Backend K) : Backend K :=
  { b with metric := { b.metric with failures := 0, activeConnections := 0, activePeers := ∅ } }

/-- `switch_protocol` up to the point where it waits for the client's lock. The configured
protocol is changed before the build that may fail. -/
def installNext (env : BuildEnv) (b : Backend K) : Backend K × Except String Unit :=
  let nextProto := b.fileBackendConfig.protocol.next
  let b := { b with fileBackendConfig := { b.fileBackendConfig with protocol := nextProto } }
  match b.fileBackendConfig.buildClient env with
  | none => (b, .error buildFailed)
  | some (kind, _) =>
    let b := { b with client := ⟨kind, b.client.build + 1⟩ }
    let b := b.renewCancellationToken
    ({ b with metric := { b.metric with protocol := nextProto } }, .ok ())

def switchProtocol (env : BuildEnv) (b : Backend K) : Backend K × Except String Unit :=
  match b.installNext env with
  | (b, .error e) => (b, .error e)
  | (b, .ok ()) => (b.resetClient, .ok ())

def nextBuild (env : BuildEnv) (b : Backend K) : Option (BackendProtocol × String) :=
  { b.fileBackendConfig with protocol := b.fileBackendConfig.protocol.next }.buildClient env

/-- Configuration, client and metric name the same protocol. -/
def Agrees (b : Backend K) : Prop :=
  b.client.kind = b.fileBackendConfig.protocol ∧ b.metric.protocol = b.fileBackendConfig.protocol

def Unswitched (b b' : Backend K) : Prop :=
  b'.fileBackendConfig.protocol = b.fileBackendConfig.protocol ∧ b'.client = b.client ∧
    b'.metric.protocol = b.metric.protocol ∧ b'.getStatus = b.getStatus ∧
    b'.cancellationToken.cancelled = b.cancellationToken.cancelled

end Backend

theorem buildClient_kind {cfg : FileBackendConfig} (h : cfg.buildClient env = some r) :
    r.1 = cfg.protocol := by
  unfold FileBackendConfig.buildClient at h
  simp only [Option.bind_eq_bind, Option.bind_eq_some_iff] at h
  obtain ⟨domain, _, _, _, h⟩ := h
  cases hp : cfg.protocol <;> rw [hp] at h <;>
    obtain ⟨_, _, h⟩ := Option.bind_eq_some_iff.1 h <;> cases h <;> rfl

theorem BackendProtocol.next_ne (p : BackendProtocol) : p.next ≠ p := by
  cases p <;> exact nofun

def switchBackendProtocol (bs : List (Backend K)) (req : Nat × BuildEnv) :
    List (Backend K) × Except String Unit :=
  match bs[req.1]? with
  | none => (bs, .error "no suck backends")
  | some b =>
    let r := b.cancel.switchProtocol req.2
    (bs.set req.1 r.1, r.2)

def switchStep (bs : List (Backend K)) (req : Nat × BuildEnv) : Option (List (Backend K)) :=
  some (switchBackendProtocol bs req).1

/-- An answer with an error changes no backend, and the addressed backend is consistent. -/
def AtomicSwitch (bs : List (Backend K)) (req : Nat × BuildEnv) : Prop :=
  ∀ (i : Nat) (b b' : Backend K), bs[i]? = some b →
    (switchBackendProtocol bs req).1[i]? = some b' →
    ((switchBackendProtocol bs req).2 ≠ .ok () → b.Unswitched b') ∧ (i = req.1 → b'.Agrees)

/-- The client for the other protocol can be built, if the request addresses a backend. -/
def Buildable (bs : List (Backend K)) (req : Nat × BuildEnv) : Prop :=
  ∀ b, bs[req.1]? = some b → (b.nextBuild req.2).isSome

theorem Backend.switchProtocol_none {b : Backend K} (h : b.nextBuild env = none) :
    b.switchProtocol env = ({ b with
      fileBackendConfig := { b.fileBackendConfig with
        protocol := b.fileBackendConfig.protocol.next } }, .error buildFailed) := by
  unfold Backend.nextBuild at h
  simp only [Backend.switchProtocol, Backend.installNext, h]

theorem Backend.switchProtocol_some {b : Backend K} (h : b.nextBuild env = some r) :
    (b.switchProtocol env).2 = .ok () ∧ (b.switchProtocol env).1.Agrees := by
  have hk := buildClient_kind h
  unfold Backend.nextBuild at h
  simp only [Backend.switchProtocol, Backend.installNext, h]
  exact ⟨trivial, hk, rfl⟩

theorem Backend.new_agrees [NatCast K] {b : Backend K} (h : Backend.new env now cfg = .ok b) :
    b.Agrees := by
  unfold Backend.new at h
  split at h
  · cases h
  · rename_i hb
    cases h
    exact ⟨buildClient_kind hb, rfl⟩

theorem switchBackendProtocol_some {bs : List (Backend K)} {req : Nat × BuildEnv}
    (h : bs[req.1]? = some b) :
    switchBackendProtocol bs req =
      (bs.set req.1 (b.cancel.switchProtocol req.2).1, (b.cancel.switchProtocol req.2).2) := by
  simp only [switchBackendProtocol, h]

theorem atomicSwitch_iff_buildable (bs : List (Backend K)) (req : Nat × BuildEnv) :
    AtomicSwitch bs req ↔ Buildable bs req := by
  cases hb : bs[req.1]? with
  | none =>
    have hs : switchBackendProtocol bs req = (bs, .error "no suck backends") := by
      simp only [switchBackendProtocol, hb]
    constructor
    · intro _ b hb'
      cases hb.symm.trans hb'
    · intro _ i b b' hi hi'
      rw [hs] at hi'
      cases hi.symm.trans hi'
      refine ⟨fun _ => ⟨rfl, rfl, rfl, rfl, rfl⟩, ?_⟩
      rintro rfl
      cases hb.symm.trans hi
  | some b =>
    have hlt : req.1 < bs.length := (List.getElem?_eq_some_iff.1 hb).1
    have hs := switchBackendProtocol_some hb
    have hself : (switchBackendProtocol bs req).1[req.1]? =
        some (b.cancel.switchProtocol req.2).1 := by
      rw [hs]
      exact List.getElem?_set_self hlt
    constructor
    · intro h b₁ hb₁
      cases hb.symm.trans hb₁
      by_contra hn
      rw [Option.not_isSome_iff_eq_none] at hn
      have hfail : b.cancel.switchProtocol req.2 = _ := Backend.switchProtocol_none hn
      obtain ⟨hu, _⟩ := h req.1 b _ hb hself
      rw [hs, hfail] at hu
      exact BackendProtocol.next_ne _ (hu nofun).1
    · intro h i b₁ b' hi hi'
      obtain ⟨r, hr⟩ := Option.isSome_iff_exists.1 (h b hb)
      obtain ⟨hok, hag⟩ := Backend.switchProtocol_some (b := b.cancel) hr
      rw [hs]
      refine ⟨fun hne => absurd hok hne, ?_⟩
      rintro rfl
      cases hself.symm.trans hi'
      exact hag

/-- Over every sequence of requests, switching is atomic exactly when every client that is
asked for can be built. -/
theorem switches_atomic_iff (bs : List (Backend K)) (reqs : List (Nat × BuildEnv)) :
    AllSteps switchStep AtomicSwitch bs reqs ↔ AllSteps switchStep Buildable bs reqs :=
  allSteps_congr atomicSwitch_iff_buildable

def brokenTls : BuildEnv where
  parseDomain := some
  tlsConfig := false
  h2Builder := fun _ => true
  quicBuilder := fun _ => true

def workingTls : BuildEnv := { brokenTls with tlsConfig := true }

def plainConfig : FileBackendConfig where
  status := none
  protocol := .http2
  address := "localhost:8443"
  retryTimeout := 1
  maxRetries := 0

def plainBackend : Backend ℚ where
  retryTimeout := 1
  maxRetries := 0
  metric := newMetric 0 .normal .http2
  client := ⟨.http2, 0⟩
  retrying := false
  cancellationToken := ⟨0, false⟩
  fileBackendConfig := plainConfig

/-- A switch whose certificate files cannot be read is answered with an error, and leaves the
configured protocol changed and the token cancelled. -/
theorem failed_switch_leaves_traces :
    ¬ ∀ (bs : List (Backend ℚ)) (reqs : List (Nat × BuildEnv)),
      AllSteps switchStep AtomicSwitch bs reqs := by
  intro h
  obtain ⟨hu, _⟩ := (h [plainBackend] [(0, brokenTls)]).1 0 plainBackend _ rfl rfl
  obtain ⟨hp, _⟩ := hu nofun
  cases hp

end Octoproxy
