import Mathlib.Data.UInt

namespace Octoproxy
set_option autoImplicit true

inductive QuicCongestionFactory where
  | cubic
  | bbr
deriving DecidableEq

/-- The part of the section that `init_quic_transport_config` reads. -/
structure QuicFileConfig where
  expectedRtt : UInt32
  maxStreamBandwidth : UInt32
  congestion : QuicCongestionFactory
deriving DecidableEq

def defaultQuicFileConfig : QuicFileConfig := ⟨100, 12500 * 1000, .cubic⟩

/-- The settings of `quinn::TransportConfig` that are changed; `initialRtt` is in milliseconds. -/
structure TransportConfig where
  streamReceiveWindow : Nat
  sendWindow : Nat
  initialRtt : Nat
  datagramReceiveBufferSize : Option Nat
  congestionControllerFactory : QuicCongestionFactory
deriving DecidableEq

/-- A product of 32 bits, and whether it has lost its upper half. A release build keeps the rest. -/
def overflowingMul (a b : UInt32) : UInt32 × Bool := (a * b, 2 ^ 32 ≤ a.toNat * b.toNat)

theorem overflowingMul_snd : (overflowingMul a b).2 = false ↔ a.toNat * b.toNat < 2 ^ 32 := by
  rw [overflowingMul, decide_eq_false_iff_not, Nat.not_le]

theorem overflowingMul_fst (h : a.toNat * b.toNat < 2 ^ 32) :
    (overflowingMul a b).1.toNat = a.toNat * b.toNat := by
  rw [overflowingMul, UInt32.toNat_mul, Nat.mod_eq_of_lt h]

namespace QuicFileConfig
variable (c : QuicFileConfig)

def streamRwnd : UInt32 × Bool := overflowingMul (c.maxStreamBandwidth / 1000) c.expectedRtt

def sendWindow : UInt32 × Bool := overflowingMul 8 c.streamRwnd.1

def initialRtt : UInt32 × Bool := overflowingMul c.expectedRtt 3

def initQuicTransportConfig : TransportConfig where
  streamReceiveWindow := c.streamRwnd.1.toNat
  sendWindow := c.sendWindow.1.toNat
  initialRtt := c.initialRtt.1.toNat
  datagramReceiveBufferSize := some c.streamRwnd.1.toNat
  congestionControllerFactory := c.congestion

/-- The bandwidth-delay product, which the stream window is meant to be. -/
def streamWindow : Nat := c.maxStreamBandwidth.toNat / 1000 * c.expectedRtt.toNat

/-- No product overflows, and the settings have the values of the integers. -/
structure Exact : Prop where
  streamRwnd : c.streamRwnd.2 = false
  sendWindow : c.sendWindow.2 = false
  initialRtt : c.initialRtt.2 = false
  values : c.initQuicTransportConfig = ⟨c.streamWindow, 8 * c.streamWindow,
    c.expectedRtt.toNat * 3, some c.streamWindow, c.congestion⟩

/-- Eight stream windows and three round trips are below `2 ^ 32`. -/
def Fits : Prop := 8 * c.streamWindow < 2 ^ 32 ∧ c.expectedRtt.toNat * 3 < 2 ^ 32

instance : Decidable c.Fits := inferInstanceAs (Decidable (_ ∧ _))

theorem bandwidth_toNat :
    (c.maxStreamBandwidth / 1000).toNat = c.maxStreamBandwidth.toNat / 1000 :=
  UInt32.toNat_div _ _

theorem streamRwnd_exact (h : c.streamWindow < 2 ^ 32) : c.streamRwnd.1.toNat = c.streamWindow := by
  rw [streamRwnd, overflowingMul_fst, bandwidth_toNat, streamWindow]
  rwa [bandwidth_toNat]

end QuicFileConfig

/-- The windows and the initial round trip time are exact exactly when they fit into 32 bits. -/
theorem quic_windows_exact_iff (c : QuicFileConfig) : c.Exact ↔ c.Fits := by
  constructor
  · intro h
    have hw : c.streamWindow < 2 ^ 32 := by
      have hmul := overflowingMul_snd.1 h.streamRwnd
      rwa [c.bandwidth_toNat] at hmul
    have hs := overflowingMul_snd.1 h.sendWindow
    rw [c.streamRwnd_exact hw] at hs
    exact ⟨hs, overflowingMul_snd.1 h.initialRtt⟩
  · rintro ⟨hs, hr⟩
    have hw : c.streamWindow < 2 ^ 32 := by omega
    have hrwnd := c.streamRwnd_exact hw
    have hsend : (8 : UInt32).toNat * c.streamRwnd.1.toNat < 2 ^ 32 := by rwa [hrwnd]
    refine ⟨?_, overflowingMul_snd.2 hsend, overflowingMul_snd.2 hr, ?_⟩
    · apply overflowingMul_snd.2
      rwa [c.bandwidth_toNat]
    · have hsend' : c.sendWindow.1.toNat = 8 * c.streamWindow := by
        rw [QuicFileConfig.sendWindow, overflowingMul_fst hsend, hrwnd]
        rfl
      have hrtt : c.initialRtt.1.toNat = c.expectedRtt.toNat * 3 := overflowingMul_fst hr
      rw [QuicFileConfig.initQuicTransportConfig, hrwnd, hsend', hrtt]

example : defaultQuicFileConfig.Fits := by decide

/-- Ten gigabits per second with a round trip of half a second: the send window wraps to about a
seventh of its value. -/
theorem long_fat_link_wraps : ¬ ∀ c : QuicFileConfig, c.Exact := by
  intro h
  have hc := h ⟨500, 1250000000, .cubic⟩
  have hs : (QuicFileConfig.sendWindow ⟨500, 1250000000, .cubic⟩).2 = true := by decide
  cases hs.symm.trans hc.sendWindow

end Octoproxy
