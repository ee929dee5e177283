import Mathlib.Data.Finmap
import Mathlib.Algebra.Order.Field.Basic

namespace Octoproxy
set_option autoImplicit true

inductive BackendStatus where
  | normal
  | closed
  | unknown
  | forceClosed
deriving DecidableEq

inductive BackendProtocol where
  | http2
  | quic
deriving DecidableEq

inductive IpAddr where
  | v4 (octets : BitVec 32)
  | v6 (segments : BitVec 128)
deriving DecidableEq

structure SocketAddr where
  ip : IpAddr
  port : BitVec 16
deriving DecidableEq

/-- The moving average of a backend's latency. `K` is an exact ordered field in place of `f64`,
and instants are nanoseconds; the constant `decay` is inside the weight function of `observe`. -/
structure PeakEWMA (K : Type) where
  rtt : K
  lastEvent : Nat

def PeakEWMA.new [NatCast K] (now : Nat) : PeakEWMA K := ⟨(50000000 : Nat), now⟩

section Observe
variable [Field K] [LinearOrder K]

/-- The new `rtt` of `PeakEWMA::observe` after `dur` without an observation. -/
def observeRtt (weight : Nat → K) (dur : Nat) (old rtt : K) : K :=
  if old < rtt then rtt else old * weight dur + rtt * (1 - weight dur)

def PeakEWMA.observe (weight : Nat → K) (now : Nat) (rtt : K) (e : PeakEWMA K) : PeakEWMA K :=
  ⟨observeRtt weight (now - e.lastEvent) e.rtt rtt, now⟩

/-- `PeakEWMA::get`; the increment is made in 32 bits, before the conversion. -/
def PeakEWMA.get (weight : Nat → K) (now : Nat) (activeRequests : UInt32) (e : PeakEWMA K) : K :=
  ((activeRequests + 1).toNat : K) * e.rtt * weight (now - e.lastEvent)

end Observe

structure MetricData (K : Type) where
  activeConnections : UInt32
  protocol : BackendProtocol
  activePeers : Finmap (fun _ : SocketAddr => UInt32)
  status : BackendStatus
  connectionTime : Nat
  peakEwma : PeakEWMA K
  transmissionTime : Nat
  incomingBytes : UInt64
  outgoingBytes : UInt64
  totalIncomingBytes : UInt64
  totalOutgoingBytes : UInt64
  failures : UInt32

/-- `MetricData::default`, made at the instant `now`. -/
def MetricData.default [NatCast K] (now : Nat) : MetricData K where
  activeConnections := 0
  protocol := .quic
  activePeers := ∅
  status := .normal
  connectionTime := 0
  peakEwma := .new now
  transmissionTime := 0
  incomingBytes := 0
  outgoingBytes := 0
  totalIncomingBytes := 0
  totalOutgoingBytes := 0
  failures := 0

/-- `Metric::new`: the first two publishes set the status and the protocol. -/
def newMetric [NatCast K] (now : Nat) (status : BackendStatus) (protocol : BackendProtocol) :
    MetricData K :=
  { MetricData.default now with status := status, protocol := protocol }

inductive MetricOp where
  | addPeer (peer : SocketAddr)
  | subPeer (peer : SocketAddr)
  | incrActiveConnection
  | decrActiveConnection
  | changeStatus (status : BackendStatus)
  | changeProtocol (protocol : BackendProtocol)
  | summary (connectionTime transmissionTime : Nat) (incomingBytes outgoingBytes : UInt64)
  | reset
  | addFailures

/-- A total that stays as it is when `checked_add` fails. -/
def addTotal (total n : UInt64) : UInt64 :=
  if total.toNat + n.toNat < 2 ^ 64 then total + n else total

def addPeer (peers : Finmap (fun _ : SocketAddr => UInt32)) (peer : SocketAddr) :
    Finmap (fun _ : SocketAddr => UInt32) :=
  match peers.lookup peer with
  | some counter => peers.insert peer (counter + 1)
  | none => peers.insert peer 1

def subPeer (peers : Finmap (fun _ : SocketAddr => UInt32)) (peer : SocketAddr) :
    Finmap (fun _ : SocketAddr => UInt32) :=
  match peers.lookup peer with
  | some counter => if counter = 1 then peers.erase peer else peers.insert peer (counter - 1)
  | none => peers

/-- How often the table holds a peer. -/
def peerCount (peers : Finmap (fun _ : SocketAddr => UInt32)) (peer : SocketAddr) : Nat :=
  (peers.lookup peer).elim 0 UInt32.toNat

def NoZeroCount (peers : Finmap (fun _ : SocketAddr => UInt32)) : Prop :=
  ∀ peer, peers.lookup peer ≠ some 0

/-- `absorb_first`, run at the instant `now`. Counters wrap, as in a release build. -/
def MetricData.absorb [Field K] [LinearOrder K] (weight : Nat → K) (now : Nat)
    (d : MetricData K) : MetricOp → MetricData K
  | .incrActiveConnection => { d with activeConnections := d.activeConnections + 1 }
  | .decrActiveConnection => { d with activeConnections := d.activeConnections - 1 }
  | .summary connectionTime transmissionTime incomingBytes outgoingBytes =>
    { d with
      connectionTime := connectionTime
      peakEwma := d.peakEwma.observe weight now (connectionTime : K)
      transmissionTime := transmissionTime
      incomingBytes := incomingBytes
      outgoingBytes := outgoingBytes
      totalIncomingBytes := addTotal d.totalIncomingBytes incomingBytes
      totalOutgoingBytes := addTotal d.totalOutgoingBytes outgoingBytes }
  | .addFailures => { d with failures := d.failures + 1 }
  | .reset => { d with failures := 0, activeConnections := 0, activePeers := ∅ }
  | .addPeer peer => { d with activePeers := addPeer d.activePeers peer }
  | .subPeer peer => { d with activePeers := subPeer d.activePeers peer }
  | .changeStatus status => { d with status := status }
  | .changeProtocol protocol => { d with protocol := protocol }

inductive MetricCall where
  | incrConnection (peer : SocketAddr)
  | setProtocol (protocol : BackendProtocol)
  | setStatus (status : BackendStatus)
  | reset
  | summary (connectionTime transmissionTime : Nat) (incomingBytes outgoingBytes : UInt64)
      (peer : SocketAddr)
  | addFailures (peer : SocketAddr)

def MetricCall.ops : MetricCall → List MetricOp
  | .incrConnection peer => [.incrActiveConnection, .addPeer peer]
  | .setProtocol protocol => [.changeProtocol protocol]
  | .setStatus status => [.changeStatus status]
  | .reset => [.reset]
  | .summary connectionTime transmissionTime incomingBytes outgoingBytes peer =>
    [.decrActiveConnection, .subPeer peer,
      .summary connectionTime transmissionTime incomingBytes outgoingBytes]
  | .addFailures peer => [.addFailures, .subPeer peer, .decrActiveConnection]

def MetricData.call [Field K] [LinearOrder K] (weight : Nat → K) (now : Nat) (d : MetricData K)
    (c : MetricCall) : MetricData K :=
  c.ops.foldl (MetricData.absorb weight now) d

section PeerTable
variable {peers : Finmap (fun _ : SocketAddr => UInt32)} {peer : SocketAddr}

theorem toNat_add_one (c : UInt32) (h : c.toNat + 1 < 2 ^ 32) : (c + 1).toNat = c.toNat + 1 := by
  rw [UInt32.toNat_add]
  exact Nat.mod_eq_of_lt h

theorem toNat_sub_one (c : UInt32) (h : c ≠ 0) : (c - 1).toNat = c.toNat - 1 := by
  have hc : 0 < c.toNat := Nat.pos_of_ne_zero fun he => h (UInt32.toNat_inj.1 he)
  rw [UInt32.toNat_sub_of_le]
  · rfl
  · exact UInt32.le_iff_toNat_le.2 hc

theorem peers_eq_empty (hz : NoZeroCount peers) (h : ∀ peer, peerCount peers peer = 0) :
    peers = ∅ := by
  apply Finmap.ext_lookup
  intro peer
  rw [Finmap.lookup_empty]
  have hp := h peer
  unfold peerCount at hp
  cases hl : peers.lookup peer with
  | none => rfl
  | some c =>
    rw [hl] at hp
    have hc : c = 0 := UInt32.toNat_inj.1 hp
    exact absurd (hl.trans (congrArg some hc)) (hz peer)

theorem noZeroCount_empty : NoZeroCount ∅ := by
  intro peer
  rw [Finmap.lookup_empty]
  exact nofun

theorem addPeer_count (hb : peerCount peers peer + 1 < 2 ^ 32) (q : SocketAddr) :
    peerCount (addPeer peers peer) q =
      if q = peer then peerCount peers peer + 1 else peerCount peers q := by
  unfold peerCount addPeer at *
  by_cases hq : q = peer
  · subst hq
    rw [if_pos rfl]
    cases hl : peers.lookup q with
    | none =>
      simp only [Finmap.lookup_insert]
      rfl
    | some c =>
      rw [hl] at hb
      simp only [Finmap.lookup_insert, Option.elim_some]
      exact toNat_add_one c hb
  · rw [if_neg hq]
    cases hl : peers.lookup peer <;> simp only [Finmap.lookup_insert_of_ne _ hq]

theorem addPeer_noZero (hz : NoZeroCount peers) (hb : peerCount peers peer + 1 < 2 ^ 32) :
    NoZeroCount (addPeer peers peer) := by
  intro q
  unfold addPeer
  by_cases hq : q = peer
  · subst hq
    cases hl : peers.lookup q with
    | none => simp only [Finmap.lookup_insert, ne_eq, Option.some.injEq]; decide
    | some c =>
      simp only [Finmap.lookup_insert, ne_eq, Option.some.injEq]
      intro hc
      simp only [peerCount, hl, Option.elim_some] at hb
      have he := toNat_add_one c hb
      rw [hc] at he
      cases he
  · cases hl : peers.lookup peer <;> simp only [Finmap.lookup_insert_of_ne _ hq] <;> exact hz q

theorem subPeer_count (hz : NoZeroCount peers) (q : SocketAddr) :
    peerCount (subPeer peers peer) q =
      if q = peer then peerCount peers peer - 1 else peerCount peers q := by
  unfold peerCount subPeer
  by_cases hq : q = peer
  · subst hq
    rw [if_pos rfl]
    cases hl : peers.lookup q with
    | none => simp only [hl, Option.elim_none]
    | some c =>
      have hc : c ≠ 0 := fun he => hz q (by rw [hl, he])
      simp only [Option.elim_some]
      split
      · rename_i h1
        rw [Finmap.lookup_erase, h1]
        rfl
      · rw [Finmap.lookup_insert]
        exact toNat_sub_one c hc
  · rw [if_neg hq]
    cases hl : peers.lookup peer with
    | none => rfl
    | some c =>
      simp only
      split
      · rw [Finmap.lookup_erase_ne hq]
      · rw [Finmap.lookup_insert_of_ne _ hq]

theorem subPeer_noZero (hz : NoZeroCount peers) : NoZeroCount (subPeer peers peer) := by
  intro q
  unfold subPeer
  cases hl : peers.lookup peer with
  | none => exact hz q
  | some c =>
    simp only
    split
    · by_cases hq : q = peer
      · rw [hq, Finmap.lookup_erase]
        exact nofun
      · rw [Finmap.lookup_erase_ne hq]
        exact hz q
    · rename_i h1
      by_cases hq : q = peer
      · rw [hq, Finmap.lookup_insert, ne_eq, Option.some.injEq]
        intro he
        apply h1
        rw [← UInt32.sub_add_cancel c 1, he]
        rfl
      · rw [Finmap.lookup_insert_of_ne _ hq]
        exact hz q

end PeerTable

end Octoproxy
