import Octoproxy.MetricStore

namespace Octoproxy
open LeftRight
set_option autoImplicit true

/-- The counters of a backend without bounds, and what was set last. -/
structure Tally where
  failures : Nat
  active : Int
  incoming : Nat
  outgoing : Nat
  status : BackendStatus
  protocol : BackendProtocol

def Tally.zero : Tally := ⟨0, 0, 0, 0, .normal, .quic⟩

/-- A reset starts the failures and the connections again, and not the totals. -/
def Tally.count (t : Tally) : MetricCall → Tally
  | .incrConnection _ => { t with active := t.active + 1 }
  | .setProtocol protocol => { t with protocol := protocol }
  | .setStatus status => { t with status := status }
  | .reset => { t with failures := 0, active := 0 }
  | .summary _ _ incomingBytes outgoingBytes _ => { t with
      active := t.active - 1
      incoming := t.incoming + incomingBytes.toNat
      outgoing := t.outgoing + outgoingBytes.toNat }
  | .addFailures _ => { t with failures := t.failures + 1, active := t.active - 1 }

def tally (calls : List (Nat × MetricCall)) : Tally := calls.foldl (fun t c => t.count c.2) .zero

def Totals (total : UInt64) (n : Nat) : Prop :=
  total.toNat ≤ n ∧ (n < 2 ^ 64 → total.toNat = n)

/-- The counters that wrap are right modulo their size. -/
structure Shows (d : MetricData K) (t : Tally) : Prop where
  failures : d.failures.toNat = t.failures % 2 ^ 32
  active : (d.activeConnections.toNat : Int) = t.active % 2 ^ 32
  incoming : Totals d.totalIncomingBytes t.incoming
  outgoing : Totals d.totalOutgoingBytes t.outgoing
  status : d.status = t.status
  protocol : d.protocol = t.protocol

theorem addTotal_cases (total n : UInt64) :
    total.toNat + n.toNat < 2 ^ 64 ∧ (addTotal total n).toNat = total.toNat + n.toNat ∨
      2 ^ 64 ≤ total.toNat + n.toNat ∧ addTotal total n = total := by
  unfold addTotal
  split
  · rename_i h
    refine .inl ⟨h, ?_⟩
    rw [UInt64.toNat_add]
    exact Nat.mod_eq_of_lt h
  · rename_i h
    exact .inr ⟨Nat.not_lt.1 h, rfl⟩

theorem addTotal_ge (total n : UInt64) : total.toNat ≤ (addTotal total n).toNat := by
  obtain ⟨_, h⟩ | ⟨_, h⟩ := addTotal_cases total n
  · omega
  · rw [h]

theorem Totals.add (h : Totals total m) (n : UInt64) : Totals (addTotal total n) (m + n.toNat) := by
  obtain ⟨hle, heq⟩ := h
  obtain ⟨_, ha⟩ | ⟨hbig, ha⟩ := addTotal_cases total n
  · refine ⟨by omega, ?_⟩
    intro hfit
    rw [ha, heq (by omega)]
  · rw [ha]
    refine ⟨by omega, ?_⟩
    intro hfit
    omega

theorem toNat_incr (c : UInt32) (h : (c.toNat : Int) = a % 2 ^ 32) :
    ((c + 1).toNat : Int) = (a + 1) % 2 ^ 32 := by
  rw [UInt32.toNat_add]
  have h1 : (1 : UInt32).toNat = 1 := rfl
  rw [h1]
  omega

theorem toNat_decr (c : UInt32) (h : (c.toNat : Int) = a % 2 ^ 32) :
    ((c - 1).toNat : Int) = (a - 1) % 2 ^ 32 := by
  rw [UInt32.toNat_sub]
  have h1 : (1 : UInt32).toNat = 1 := rfl
  rw [h1]
  omega

theorem toNat_failed (c : UInt32) (h : c.toNat = n % 2 ^ 32) :
    (c + 1).toNat = (n + 1) % 2 ^ 32 := by
  rw [UInt32.toNat_add]
  have h1 : (1 : UInt32).toNat = 1 := rfl
  rw [h1]
  omega

section
variable {K : Type} [Field K] [LinearOrder K] {weight : Nat → K} {d : MetricData K} {t : Tally}

theorem Shows.call (h : Shows d t) (now : Nat) (c : MetricCall) :
    Shows (d.call weight now c) (t.count c) := by
  cases c with
  | incrConnection peer => exact { h with active := toNat_incr _ h.active }
  | setProtocol protocol => exact { h with protocol := rfl }
  | setStatus status => exact { h with status := rfl }
  | reset => exact { h with failures := rfl, active := rfl }
  | summary connectionTime transmissionTime incomingBytes outgoingBytes peer =>
    exact { h with
      active := toNat_decr _ h.active
      incoming := h.incoming.add incomingBytes
      outgoing := h.outgoing.add outgoingBytes }
  | addFailures peer => exact { h with
      failures := toNat_failed _ h.failures
      active := toNat_decr _ h.active }

theorem plainMetric_append (weight : Nat → K) (d : MetricData K)
    (before after : List (Nat × MetricCall)) :
    plainMetric weight d (before ++ after) =
      plainMetric weight (plainMetric weight d before) after := by
  simp only [plainMetric, List.foldl_append]

theorem Shows.plainMetric (h : Shows d t) (calls : List (Nat × MetricCall)) :
    Shows (plainMetric weight d calls) (calls.foldl (fun t c => t.count c.2) t) := by
  induction calls generalizing d t with
  | nil => exact h
  | cons c calls ih => exact ih (h.call c.1 c.2)

theorem plainMetric_totals (weight : Nat → K) (d : MetricData K)
    (calls : List (Nat × MetricCall)) :
    d.totalIncomingBytes.toNat ≤ (plainMetric weight d calls).totalIncomingBytes.toNat ∧
      d.totalOutgoingBytes.toNat ≤ (plainMetric weight d calls).totalOutgoingBytes.toNat := by
  induction calls generalizing d with
  | nil => exact ⟨Nat.le_refl _, Nat.le_refl _⟩
  | cons c calls ih =>
    obtain ⟨now, c⟩ := c
    obtain ⟨hin, hout⟩ := ih (d.call weight now c)
    cases c with
    | summary ct tt i o peer =>
      exact ⟨(addTotal_ge _ i).trans hin, (addTotal_ge _ o).trans hout⟩
    | _ => exact ⟨hin, hout⟩

/-- Readers see the plain record in everything but the moving average. -/
theorem seenMetric_eq (d : MetricData K) (calls : List (Nat × MetricCall)) :
    ∃ e, seenMetric weight d calls = { plainMetric weight d calls with peakEwma := e } := by
  unfold seenMetric
  refine published_induction (I := fun l d' => ∀ calls, batches calls = l →
    ∃ e, d' = { plainMetric weight d calls with peakEwma := e }) ?_ ?_ _ calls rfl
  · intro calls he
    obtain rfl := List.map_eq_nil_iff.1 he
    exact ⟨_, rfl⟩
  · intro pre a now d' ih calls he
    obtain ⟨front, last, rfl, hf, hl⟩ := List.map_eq_append_iff.1 he
    obtain ⟨c, rfl, rfl⟩ := List.map_eq_singleton_iff.1 hl
    obtain ⟨e, rfl⟩ := ih front hf
    refine ⟨c.2.observe weight now e, ?_⟩
    rw [plainMetric_append]
    exact call_replace weight now c.1 _ e c.2

/-- After every sequence of calls readers see what has been counted, and totals that are at least
what they saw at any time before. -/
theorem counters_show (weight : Nat → K) (now : Nat) (before after : List (Nat × MetricCall)) :
    Shows (seenMetric weight (.default now) (before ++ after)) (tally (before ++ after)) ∧
      (seenMetric weight (.default now) before).totalIncomingBytes.toNat ≤
        (seenMetric weight (.default now) (before ++ after)).totalIncomingBytes.toNat ∧
      (seenMetric weight (.default now) before).totalOutgoingBytes.toNat ≤
        (seenMetric weight (.default now) (before ++ after)).totalOutgoingBytes.toNat := by
  have hstart : Shows (MetricData.default (K := K) now) .zero :=
    ⟨rfl, rfl, ⟨Nat.le_refl 0, fun _ => rfl⟩, ⟨Nat.le_refl 0, fun _ => rfl⟩, rfl, rfl⟩
  obtain ⟨e, hbefore⟩ : ∃ e, seenMetric weight (.default now) before = _ := seenMetric_eq _ before
  obtain ⟨e', hafter⟩ : ∃ e, seenMetric weight (.default now) (before ++ after) = _ :=
    seenMetric_eq _ (before ++ after)
  rw [hbefore, hafter]
  refine ⟨{ hstart.plainMetric (before ++ after) with }, ?_⟩
  have hgrow := plainMetric_totals weight (plainMetric weight (.default now) before) after
  rw [← plainMetric_append] at hgrow
  exact hgrow

end

end Octoproxy
