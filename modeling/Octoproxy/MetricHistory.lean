import Mathlib.Algebra.Order.Field.Rat
import Mathlib.Tactic.Linarith
import Octoproxy.Metric

namespace Octoproxy
set_option autoImplicit true

section Observations
variable {K : Type} [Field K] [LinearOrder K]

/-- A call of `PeakEWMA::observe`, with the decay that it computes. -/
structure Observation (K : Type) where
  weight : Nat → K
  now : Nat
  rtt : K

def PeakEWMA.observeAll (e : PeakEWMA K) (obs : List (Observation K)) : PeakEWMA K :=
  obs.foldl (fun e o => e.observe o.weight o.now o.rtt) e

/-- The product of the weights of observations made after the instant `last`. -/
def faded (last : Nat) : List (Observation K) → K
  | [] => 1
  | o :: obs => o.weight (o.now - last) * faded o.now obs

def Observation.Fading (o : Observation K) : Prop := ∀ dur, 0 < o.weight dur ∧ o.weight dur ≤ 1

structure Observation.Below (o o' : Observation K) : Prop where
  weight : o.weight = o'.weight
  now : o.now = o'.now
  rtt : o.rtt ≤ o'.rtt

theorem observeAll_append (e : PeakEWMA K) (obs obs' : List (Observation K)) :
    e.observeAll (obs ++ obs') = (e.observeAll obs).observeAll obs' :=
  List.foldl_append

variable [IsStrictOrderedRing K] {weight : Nat → K} {old old' rtt rtt' bound : K}

theorem observeRtt_ge_rtt (hw : 0 < weight dur) : rtt ≤ observeRtt weight dur old rtt := by
  unfold observeRtt
  split
  · exact le_rfl
  · rename_i h
    have hmul := mul_le_mul_of_nonneg_right (not_lt.1 h) hw.le
    linarith

theorem observeRtt_ge_old (hw : weight dur ≤ 1) (hold : 0 ≤ old) (hrtt : 0 ≤ rtt) :
    old * weight dur ≤ observeRtt weight dur old rtt := by
  unfold observeRtt
  split
  · rename_i h
    exact (mul_le_of_le_one_right hold hw).trans h.le
  · have hmul := mul_nonneg hrtt (sub_nonneg.2 hw)
    linarith

theorem observeRtt_le (hw : weight dur ≤ 1) (hold : old ≤ bound) (hrtt : rtt ≤ bound) :
    observeRtt weight dur old rtt ≤ bound := by
  unfold observeRtt
  split
  · exact hrtt
  · rename_i h
    have hmul := mul_le_mul_of_nonneg_right (not_lt.1 h) (sub_nonneg.2 hw)
    linarith

theorem observeRtt_mono (hw : 0 < weight dur) (hw' : weight dur ≤ 1) (hold : old ≤ old')
    (hrtt : rtt ≤ rtt') : observeRtt weight dur old rtt ≤ observeRtt weight dur old' rtt' := by
  by_cases h : old < rtt
  · rw [observeRtt, if_pos h]
    exact hrtt.trans (observeRtt_ge_rtt hw)
  · by_cases h' : old' < rtt'
    · rw [observeRtt.eq_1 weight dur old', if_pos h']
      exact observeRtt_le hw' (hold.trans h'.le) hrtt
    · rw [observeRtt, observeRtt, if_neg h, if_neg h']
      exact add_le_add (mul_le_mul_of_nonneg_right hold hw.le)
        (mul_le_mul_of_nonneg_right hrtt (sub_nonneg.2 hw'))

theorem observe_nonneg {e : PeakEWMA K} {o : Observation K} (hw : o.Fading) (ho : 0 ≤ o.rtt) :
    0 ≤ (e.observe o.weight o.now o.rtt).rtt :=
  ho.trans (observeRtt_ge_rtt (hw _).1)

theorem faded_nonneg {obs : List (Observation K)} (hw : ∀ o ∈ obs, o.Fading) (last : Nat) :
    0 ≤ faded last obs := by
  induction obs generalizing last with
  | nil => exact zero_le_one
  | cons o obs ih =>
    obtain ⟨ho, hobs⟩ := List.forall_mem_cons.1 hw
    exact mul_nonneg (ho _).1.le (ih hobs o.now)

/-- A value fades by no more than the weights say. -/
theorem observeAll_ge {obs : List (Observation K)} (hw : ∀ o ∈ obs, o.Fading)
    (ho : ∀ o ∈ obs, 0 ≤ o.rtt) (e : PeakEWMA K) (he : 0 ≤ e.rtt) :
    e.rtt * faded e.lastEvent obs ≤ (e.observeAll obs).rtt := by
  induction obs generalizing e with
  | nil => exact (mul_one e.rtt).le
  | cons o obs ih =>
    obtain ⟨hwo, hwobs⟩ := List.forall_mem_cons.1 hw
    obtain ⟨hoo, hoobs⟩ := List.forall_mem_cons.1 ho
    have hstep : e.rtt * o.weight (o.now - e.lastEvent) ≤
        (e.observe o.weight o.now o.rtt).rtt := observeRtt_ge_old (hwo _).2 he hoo
    calc e.rtt * faded e.lastEvent (o :: obs)
        = e.rtt * o.weight (o.now - e.lastEvent) * faded o.now obs := (mul_assoc _ _ _).symm
      _ ≤ (e.observe o.weight o.now o.rtt).rtt * faded o.now obs :=
          mul_le_mul_of_nonneg_right hstep (faded_nonneg hwobs o.now)
      _ ≤ ((e.observe o.weight o.now o.rtt).observeAll obs).rtt :=
          ih hwobs hoobs _ (observe_nonneg hwo hoo)

theorem observeAll_le {obs : List (Observation K)} (hw : ∀ o ∈ obs, o.Fading) (e : PeakEWMA K)
    (he : e.rtt ≤ bound) : (e.observeAll obs).rtt ≤ (obs.map Observation.rtt).foldl max bound := by
  induction obs generalizing e bound with
  | nil => exact he
  | cons o obs ih =>
    obtain ⟨hwo, hwobs⟩ := List.forall_mem_cons.1 hw
    exact ih hwobs _ (observeRtt_le (hwo _).2 (le_max_of_le_left he) (le_max_right bound o.rtt))

theorem observeAll_mono {obs obs' : List (Observation K)} (hw : ∀ o ∈ obs, o.Fading)
    (hb : List.Forall₂ Observation.Below obs obs') {e e' : PeakEWMA K}
    (hlast : e.lastEvent = e'.lastEvent) (he : e.rtt ≤ e'.rtt) :
    (e.observeAll obs).rtt ≤ (e'.observeAll obs').rtt := by
  induction hb generalizing e e' with
  | nil => exact he
  | cons hoo hobs ih =>
    obtain ⟨hwo, hwobs⟩ := List.forall_mem_cons.1 hw
    apply ih hwobs hoo.now
    simp only [PeakEWMA.observe, ← hoo.weight, ← hoo.now, ← hlast]
    exact observeRtt_mono (hwo _).1 (hwo _).2 he hoo.rtt

/-- Peaks are kept: the average is at least the last observation, and at least every earlier one
and the initial value as far as the weights since then have left them. It never exceeds what has
been seen, and grows with every observation. -/
theorem peak_ewma_bounds (e : PeakEWMA K) (obs : List (Observation K)) (he : 0 ≤ e.rtt)
    (hw : ∀ o ∈ obs, o.Fading) (ho : ∀ o ∈ obs, 0 ≤ o.rtt) :
    (∀ o, obs.getLast? = some o → o.rtt ≤ (e.observeAll obs).rtt) ∧
    (e.observeAll obs).rtt ≤ (obs.map Observation.rtt).foldl max e.rtt ∧
    e.rtt * faded e.lastEvent obs ≤ (e.observeAll obs).rtt ∧
    (∀ before o after, obs = before ++ o :: after →
      o.rtt * faded o.now after ≤ (e.observeAll obs).rtt) ∧
    ∀ obs', List.Forall₂ Observation.Below obs obs' →
      (e.observeAll obs).rtt ≤ (e.observeAll obs').rtt := by
  have hpeak : ∀ before o after, obs = before ++ o :: after →
      o.rtt * faded o.now after ≤ (e.observeAll obs).rtt := by
    rintro before o after rfl
    have hwo := hw o (List.mem_append_right before List.mem_cons_self)
    have hoo := ho o (List.mem_append_right before List.mem_cons_self)
    have hwafter : ∀ x ∈ after, x.Fading := fun x hx =>
      hw x (List.mem_append_right before (List.mem_cons_of_mem o hx))
    have hoafter : ∀ x ∈ after, 0 ≤ x.rtt := fun x hx =>
      ho x (List.mem_append_right before (List.mem_cons_of_mem o hx))
    have hge := observeAll_ge hwafter hoafter
      ((e.observeAll before).observe o.weight o.now o.rtt) (observe_nonneg hwo hoo)
    rw [observeAll_append]
    apply le_trans _ hge
    exact mul_le_mul_of_nonneg_right (observeRtt_ge_rtt (hwo _).1) (faded_nonneg hwafter o.now)
  refine ⟨?_, observeAll_le hw e le_rfl, observeAll_ge hw ho e he, hpeak, ?_⟩
  · intro o hl
    obtain ⟨before, rfl⟩ := List.getLast?_eq_some_iff.1 hl
    exact (mul_one o.rtt).symm.le.trans (hpeak before o [] rfl)
  · intro obs' hb
    exact observeAll_mono hw hb rfl le_rfl

end Observations

def halving (now : Nat) (rtt : ℚ) : Observation ℚ := ⟨fun _ => 1 / 2, now, rtt⟩

/-- A peak of 8 is still a quarter of that after two weights of one half. -/
theorem peak_ewma_after_peak :
    (∀ o ∈ [halving 1 8, halving 2 0, halving 3 0], o.Fading ∧ 0 ≤ o.rtt) ∧
      8 * (1 / 2 * (1 / 2 * 1)) ≤
        ((⟨5, 0⟩ : PeakEWMA ℚ).observeAll [halving 1 8, halving 2 0, halving 3 0]).rtt := by
  have hall : ∀ o ∈ [halving 1 8, halving 2 0, halving 3 0], o.Fading ∧ 0 ≤ o.rtt := by
    simp only [List.forall_mem_cons, Observation.Fading, halving]
    norm_num
  obtain ⟨-, -, -, hpeak, -⟩ := peak_ewma_bounds (⟨5, 0⟩ : PeakEWMA ℚ) _ (by norm_num)
    (fun o ho => (hall o ho).1) (fun o ho => (hall o ho).2)
  exact ⟨hall, hpeak [] _ _ rfl⟩

section Absorb
variable {K : Type} [Field K] [LinearOrder K] {weight : Nat → K} {d : MetricData K}
  {bag : Multiset SocketAddr} {op : MetricOp}

/-- Operations absorbed one after another, each at an instant of its own. -/
def MetricData.absorbAll (weight : Nat → K) (d : MetricData K) (ops : List (Nat × MetricOp)) :
    MetricData K :=
  ops.foldl (fun d op => d.absorb weight op.1 op.2) d

def MetricOp.observation (weight : Nat → K) (now : Nat) : MetricOp → Option (Observation K)
  | .summary connectionTime _ _ _ => some ⟨weight, now, connectionTime⟩
  | _ => none

/-- The latency of a backend is the average over its summaries. -/
theorem absorbAll_peakEwma (d : MetricData K) (ops : List (Nat × MetricOp)) :
    (d.absorbAll weight ops).peakEwma =
      d.peakEwma.observeAll (ops.filterMap fun op => op.2.observation weight op.1) := by
  induction ops generalizing d with
  | nil => rfl
  | cons op ops ih =>
    obtain ⟨now, op⟩ := op
    rw [List.filterMap_cons]
    cases op <;> exact ih _

/-- What an operation does to the bag of peers that the table stands for. -/
def MetricOp.onBag (bag : Multiset SocketAddr) : MetricOp → Multiset SocketAddr
  | .addPeer peer => peer ::ₘ bag
  | .subPeer peer => bag.erase peer
  | .reset => 0
  | _ => bag

def peerBag (ops : List (Nat × MetricOp)) : Multiset SocketAddr :=
  ops.foldl (fun bag op => op.2.onBag bag) 0

def MetricOp.adds (peer : SocketAddr) : MetricOp → Bool
  | .addPeer peer' => peer' = peer
  | _ => false

def addCount (peer : SocketAddr) (ops : List (Nat × MetricOp)) : Nat :=
  ops.countP fun op => op.2.adds peer

/-- The table stores no zero, and counts every peer as often as the bag does. -/
structure Represents (peers : Finmap (fun _ : SocketAddr => UInt32))
    (bag : Multiset SocketAddr) : Prop where
  noZero : NoZeroCount peers
  count : ∀ peer, peerCount peers peer = bag.count peer

theorem Represents.absorb (h : Represents d.activePeers bag)
    (hb : ∀ peer, op.adds peer = true → bag.count peer + 1 < 2 ^ 32) :
    Represents (d.absorb weight now op).activePeers (op.onBag bag) := by
  cases op with
  | addPeer peer =>
    have hlt : peerCount d.activePeers peer + 1 < 2 ^ 32 := by
      rw [h.count]
      exact hb peer (decide_eq_true rfl)
    refine ⟨addPeer_noZero h.noZero hlt, ?_⟩
    intro q
    simp only [MetricData.absorb, MetricOp.onBag, addPeer_count hlt, Multiset.count_cons, h.count]
    split
    · rename_i hq
      rw [hq]
    · rfl
  | subPeer peer =>
    refine ⟨subPeer_noZero h.noZero, ?_⟩
    intro q
    simp only [MetricData.absorb, MetricOp.onBag, subPeer_count h.noZero, h.count]
    split
    · rename_i hq
      rw [hq, Multiset.count_erase_self]
    · rename_i hq
      rw [Multiset.count_erase_of_ne hq]
  | reset => exact ⟨noZeroCount_empty, fun q => rfl⟩
  | _ => exact h

theorem count_onBag_le (bag : Multiset SocketAddr) (op : MetricOp) (peer : SocketAddr) :
    (op.onBag bag).count peer ≤ bag.count peer + if op.adds peer then 1 else 0 := by
  cases op with
  | addPeer q =>
    rw [MetricOp.onBag, Multiset.count_cons]
    simp only [MetricOp.adds, decide_eq_true_eq, eq_comm (a := q), Nat.le_refl]
  | subPeer q => exact Multiset.count_le_of_le peer (Multiset.erase_le q bag)
  | reset => exact Nat.zero_le _
  | _ => exact le_rfl

theorem addCount_concat (peer : SocketAddr) (ops : List (Nat × MetricOp)) (op : Nat × MetricOp) :
    addCount peer (ops ++ [op]) = addCount peer ops + if op.2.adds peer then 1 else 0 := by
  rw [addCount, List.countP_append, List.countP_singleton]
  rfl

theorem peerBag_concat (ops : List (Nat × MetricOp)) (op : Nat × MetricOp) :
    peerBag (ops ++ [op]) = op.2.onBag (peerBag ops) :=
  List.foldl_append

theorem count_peerBag_le (ops : List (Nat × MetricOp)) (peer : SocketAddr) :
    (peerBag ops).count peer ≤ addCount peer ops := by
  induction ops using List.reverseRecOn with
  | nil => exact Nat.zero_le _
  | append_singleton ops op ih =>
    rw [peerBag_concat, addCount_concat]
    exact (count_onBag_le (peerBag ops) op.2 peer).trans (Nat.add_le_add_right ih _)

/-- No counter exceeds the number of additions, so none of them wraps. -/
theorem Represents.absorbAll (d : MetricData K) (hd : d.activePeers = ∅)
    (ops : List (Nat × MetricOp)) (hadd : ∀ peer, addCount peer ops < 2 ^ 32) :
    Represents (d.absorbAll weight ops).activePeers (peerBag ops) := by
  induction ops using List.reverseRecOn with
  | nil =>
    rw [MetricData.absorbAll, List.foldl_nil, hd]
    exact ⟨noZeroCount_empty, fun peer => rfl⟩
  | append_singleton ops op ih =>
    have hops : ∀ peer, addCount peer ops < 2 ^ 32 := by
      intro peer
      have hlt := hadd peer
      rw [addCount_concat] at hlt
      exact Nat.lt_of_le_of_lt (Nat.le_add_right _ _) hlt
    rw [peerBag_concat, MetricData.absorbAll, List.foldl_append]
    apply (ih hops).absorb
    intro peer ha
    have hlt := hadd peer
    rw [addCount_concat, if_pos ha] at hlt
    exact Nat.lt_of_le_of_lt (Nat.add_le_add_right (count_peerBag_le ops peer) 1) hlt

/-- After every sequence of operations that adds no peer `2 ^ 32` times, the table of peers stores
no zero and is the bag that the operations describe. -/
theorem peer_table_is_bag (weight : Nat → K) (now : Nat) (ops : List (Nat × MetricOp))
    (hadd : ∀ peer, addCount peer ops < 2 ^ 32) :
    NoZeroCount ((MetricData.default now).absorbAll weight ops).activePeers ∧
      ∀ peer, peerCount ((MetricData.default now).absorbAll weight ops).activePeers peer =
        (peerBag ops).count peer := by
  have hrep : Represents ((MetricData.default now).absorbAll weight ops).activePeers
      (peerBag ops) := Represents.absorbAll (MetricData.default now) rfl ops hadd
  exact ⟨hrep.noZero, hrep.count⟩

end Absorb

/-- A peer is taken off before it is there, then added twice and taken off once. -/
def unbalancedOps (peer : SocketAddr) : List (Nat × MetricOp) :=
  [(0, .subPeer peer), (1, .addPeer peer), (2, .addPeer peer), (3, .subPeer peer)]

theorem peer_table_unbalanced :
    (∀ peer, addCount peer (unbalancedOps ⟨.v4 0, 0⟩) < 2 ^ 32) ∧
      peerCount ((MetricData.default 0).absorbAll (fun _ => (1 : ℚ))
        (unbalancedOps ⟨.v4 0, 0⟩)).activePeers ⟨.v4 0, 0⟩ = 1 := by
  have hadd : ∀ peer, addCount peer (unbalancedOps ⟨.v4 0, 0⟩) < 2 ^ 32 := by
    intro peer
    exact Nat.lt_of_le_of_lt List.countP_le_length (by decide)
  refine ⟨hadd, ?_⟩
  rw [(peer_table_is_bag (fun _ => (1 : ℚ)) 0 _ hadd).2]
  decide

end Octoproxy
