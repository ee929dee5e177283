import Mathlib.Algebra.Order.Field.Rat
import Octoproxy.Metric
import Octoproxy.Transition

namespace Octoproxy
open Transition
set_option autoImplicit true

/-- A tunnel of one backend: whether the increment spawned for it has run, and whether its end
has been reported. The two happen in either order. -/
structure Tunnel where
  peer : SocketAddr
  counted : Bool
  ended : Bool
deriving DecidableEq

def Tunnel.isOpen (t : Tunnel) : Bool := t.counted && !t.ended

structure Accounts (K : Type) where
  metric : MetricData K
  tunnels : List Tunnel

inductive TunnelAct where
  | start (peer : SocketAddr)
  | incr (i : Nat)
  | summary (i : Nat) (connectionTime transmissionTime : Nat) (incomingBytes outgoingBytes : UInt64)
  | addFailures (i : Nat)
  | reset

namespace Accounts

def openCount (s : Accounts K) : Nat := s.tunnels.countP Tunnel.isOpen

def openCountOf (s : Accounts K) (peer : SocketAddr) : Nat :=
  s.tunnels.countP fun t => t.isOpen && (t.peer = peer)

section
variable [Field K] [LinearOrder K] (weight : Nat → K)

def finish (s : Accounts K) (now i : Nat) (call : SocketAddr → MetricCall) :
    Option (Accounts K) :=
  match s.tunnels[i]? with
  | none => none
  | some t =>
    if t.ended then none
    else some ⟨s.metric.call weight now (call t.peer), s.tunnels.set i { t with ended := true }⟩

/-- One action at the instant `a.1`. A tunnel's increment runs once and so does its end. -/
def step (s : Accounts K) (a : Nat × TunnelAct) : Option (Accounts K) :=
  match a.2 with
  | .start peer => some { s with tunnels := s.tunnels ++ [⟨peer, false, false⟩] }
  | .incr i =>
    match s.tunnels[i]? with
    | none => none
    | some t =>
      if t.counted then none
      else some ⟨s.metric.call weight a.1 (.incrConnection t.peer),
        s.tunnels.set i { t with counted := true }⟩
  | .summary i connectionTime transmissionTime incomingBytes outgoingBytes =>
    s.finish weight a.1 i (.summary connectionTime transmissionTime incomingBytes outgoingBytes)
  | .addFailures i => s.finish weight a.1 i .addFailures
  | .reset => some { s with metric := s.metric.call weight a.1 .reset }

end

def NoUnderflow (s : Accounts K) (a : Nat × TunnelAct) : Prop :=
  match a.2 with
  | .summary _ _ _ _ _ | .addFailures _ => s.metric.activeConnections ≠ 0
  | _ => True

def Quiescent (s : Accounts K) : Prop := ∀ t ∈ s.tunnels, t.counted ∧ t.ended

/-- A tunnel ends after its own increment, a reset waits until no counted tunnel is open, and
the open tunnels fit the counter. -/
def WellTimed (s : Accounts K) (a : Nat × TunnelAct) : Prop :=
  match a.2 with
  | .start _ => True
  | .incr _ => s.openCount + 1 < 2 ^ 32
  | .summary i _ _ _ _ | .addFailures i => ∀ t, s.tunnels[i]? = some t → t.counted
  | .reset => ∀ t ∈ s.tunnels, t.counted → t.ended

/-- The metric counts the open tunnels, and no tunnel has ended uncounted. -/
structure Balanced (s : Accounts K) : Prop where
  active : s.metric.activeConnections.toNat = s.openCount
  peers : ∀ peer, peerCount s.metric.activePeers peer = s.openCountOf peer
  noZero : NoZeroCount s.metric.activePeers
  counted : ∀ t ∈ s.tunnels, t.ended → t.counted

theorem countP_replace (p : Tunnel → Bool) {l : List Tunnel} (h : l[i]? = some t) (t' : Tunnel) :
    (l.set i t').countP p + (if p t then 1 else 0) = l.countP p + (if p t' then 1 else 0) := by
  obtain ⟨hi, ht⟩ := List.getElem?_eq_some_iff.1 h
  have hle := List.boole_getElem_le_countP (p := p) hi
  rw [List.countP_set hi, ht]
  rw [ht] at hle
  omega

theorem isOpen_ended (t : Tunnel) : Tunnel.isOpen { t with ended := true } = false := by
  rw [Tunnel.isOpen, Bool.not_true, Bool.and_false]

theorem isOpen_uncounted {t : Tunnel} (hc : t.counted = false) : t.isOpen = false := by
  rw [Tunnel.isOpen, hc, Bool.false_and]

theorem isOpen_counted {t : Tunnel} (he : t.ended = false) :
    Tunnel.isOpen { t with counted := true } = true := by
  unfold Tunnel.isOpen
  rw [he]
  rfl

theorem Balanced.start {s : Accounts K} (hb : Balanced s) (peer : SocketAddr) :
    Balanced { s with tunnels := s.tunnels ++ [⟨peer, false, false⟩] } where
  active := by
    rw [hb.active, openCount, openCount, List.countP_append]
    rfl
  peers := by
    intro q
    rw [hb.peers, openCountOf, openCountOf, List.countP_append]
    rfl
  noZero := hb.noZero
  counted := by
    intro t ht he
    rcases List.mem_append.1 ht with ht | ht
    · exact hb.counted t ht he
    · rw [List.mem_singleton.1 ht] at he
      cases he

theorem openCountOf_le (s : Accounts K) (peer : SocketAddr) :
    s.openCountOf peer ≤ s.openCount := by
  apply List.countP_mono_left
  intro t _ h
  exact (Bool.and_eq_true _ _ ▸ h).1

theorem Balanced.finish {s s' : Accounts K} (hb : Balanced s) (ht : s.tunnels[i]? = some t)
    (hc : t.counted = true) (he : t.ended = false)
    (ha : s'.metric.activeConnections = s.metric.activeConnections - 1)
    (hp : s'.metric.activePeers = subPeer s.metric.activePeers t.peer)
    (hts : s'.tunnels = s.tunnels.set i { t with ended := true }) :
    s.metric.activeConnections ≠ 0 ∧ Balanced s' := by
  have hopen : t.isOpen = true := by rw [Tunnel.isOpen, hc, he]; rfl
  have hclosed := isOpen_ended t
  have hn := countP_replace Tunnel.isOpen ht { t with ended := true }
  rw [hopen, hclosed] at hn
  have hpos : 0 < s.openCount := List.countP_pos_iff.2 ⟨t, List.mem_of_getElem? ht, hopen⟩
  have hne : s.metric.activeConnections ≠ 0 := by
    intro hz
    have hact := hb.active
    rw [hz] at hact
    change 0 = s.openCount at hact
    omega
  refine ⟨hne, ?_, ?_, ?_, ?_⟩
  · rw [ha, toNat_sub_one _ hne, hb.active, openCount, openCount, hts]
    simp only [if_true, Bool.false_eq_true, if_false] at hn
    omega
  · intro q
    have hn := countP_replace (fun u => u.isOpen && (u.peer = q)) ht { t with ended := true }
    simp only [hopen, hclosed, Bool.true_and, Bool.false_and, decide_eq_true_eq,
      Bool.false_eq_true, if_false] at hn
    rw [hp, subPeer_count hb.noZero, hb.peers, hb.peers, openCountOf, openCountOf, openCountOf, hts]
    by_cases hqp : q = t.peer
    · subst hqp
      rw [if_pos rfl] at hn ⊢
      omega
    · rw [if_neg hqp]
      rw [if_neg (Ne.symm hqp)] at hn
      omega
  · rw [hp]
    exact subPeer_noZero hb.noZero
  · intro u hu hue
    rw [hts] at hu
    rcases List.mem_or_eq_of_mem_set hu with hu | rfl
    · exact hb.counted u hu hue
    · exact hc

theorem Balanced.not_ended {s : Accounts K} {i : Nat} {t : Tunnel} (hb : Balanced s)
    (ht : s.tunnels[i]? = some t) (hc : t.counted = false) : t.ended = false := by
  rw [Bool.eq_false_iff]
  intro he
  cases hc.symm.trans (hb.counted t (List.mem_of_getElem? ht) he)

theorem Balanced.quiescent {s : Accounts K} (hb : Balanced s) (hq : Quiescent s) :
    s.metric.activeConnections = 0 ∧ s.metric.activePeers = ∅ := by
  have hopen : s.openCount = 0 := by
    apply List.countP_eq_zero.2
    intro t ht
    rw [Tunnel.isOpen, (hq t ht).1, (hq t ht).2]
    exact nofun
  constructor
  · apply UInt32.toNat_inj.1
    rw [hb.active, hopen]
    rfl
  · apply peers_eq_empty hb.noZero
    intro peer
    have hle := openCountOf_le s peer
    rw [hb.peers]
    omega

theorem Balanced.early_end {s s' : Accounts K} (hb : Balanced s) (ht : s.tunnels[i]? = some t)
    (hc : t.counted = false)
    (hact : s'.metric.activeConnections = s.metric.activeConnections - 1)
    (hts : s'.tunnels = s.tunnels.set i { t with ended := true }) :
    s.metric.activeConnections = 0 ∨ s'.metric.activeConnections.toNat < s'.openCount := by
  by_cases hz : s.metric.activeConnections = 0
  · exact .inl hz
  · right
    have hpos : s.metric.activeConnections.toNat ≠ 0 := fun h => hz (UInt32.toNat_inj.1 h)
    have hn := countP_replace Tunnel.isOpen ht { t with ended := true }
    rw [isOpen_uncounted hc, isOpen_ended] at hn
    have hb := hb.active
    rw [hact, toNat_sub_one _ hz, openCount, hts]
    unfold openCount at hb
    omega

theorem wellTimed_open {s : Accounts K} (ht : s.tunnels[i]? = some t) (ho : t.isOpen = true)
    (now : Nat) : WellTimed s (now, .addFailures i) := by
  intro u hu
  cases ht.symm.trans hu
  exact (Bool.and_eq_true _ _ ▸ ho).1

section
variable [Field K] [LinearOrder K] {weight : Nat → K} {s s' : Accounts K} {a : Nat × TunnelAct}

theorem step_cases (h : s.step weight a = some s') :
    (∃ peer, a.2 = .start peer ∧
      s' = { s with tunnels := s.tunnels ++ [⟨peer, false, false⟩] }) ∨
    (∃ i t, a.2 = .incr i ∧ s.tunnels[i]? = some t ∧ t.counted = false ∧
      s' = ⟨s.metric.call weight a.1 (.incrConnection t.peer),
        s.tunnels.set i { t with counted := true }⟩) ∨
    (∃ i t, (a.2 = .addFailures i ∨ ∃ c m x y, a.2 = .summary i c m x y) ∧
      s.tunnels[i]? = some t ∧ t.ended = false ∧
      s'.metric.activeConnections = s.metric.activeConnections - 1 ∧
      s'.metric.activePeers = subPeer s.metric.activePeers t.peer ∧
      s'.tunnels = s.tunnels.set i { t with ended := true }) ∨
    (a.2 = .reset ∧ s' = { s with metric := s.metric.call weight a.1 .reset }) := by
  obtain ⟨now, a⟩ := a
  have hfinish {i : Nat} {call : SocketAddr → MetricCall}
      (h : s.finish weight now i call = some s') : ∃ t, s.tunnels[i]? = some t ∧ t.ended = false ∧
        s' = ⟨s.metric.call weight now (call t.peer),
          s.tunnels.set i { t with ended := true }⟩ := by
    unfold finish at h
    split at h
    · cases h
    · rename_i t ht
      split at h
      · cases h
      · rename_i he
        cases h
        exact ⟨t, ht, Bool.eq_false_iff.2 he, rfl⟩
  cases a with
  | start peer =>
    cases h
    exact .inl ⟨peer, rfl, rfl⟩
  | incr i =>
    simp only [step] at h
    split at h
    · cases h
    · rename_i t ht
      split at h
      · cases h
      · rename_i hc
        cases h
        exact .inr (.inl ⟨i, t, rfl, ht, Bool.eq_false_iff.2 hc, rfl⟩)
  | summary i c m x y =>
    obtain ⟨t, ht, he, rfl⟩ := hfinish h
    exact .inr (.inr (.inl ⟨i, t, .inr ⟨c, m, x, y, rfl⟩, ht, he, rfl, rfl, rfl⟩))
  | addFailures i =>
    obtain ⟨t, ht, he, rfl⟩ := hfinish h
    exact .inr (.inr (.inl ⟨i, t, .inl rfl, ht, he, rfl, rfl, rfl⟩))
  | reset =>
    cases h
    exact .inr (.inr (.inr ⟨rfl, rfl⟩))

theorem Balanced.incr (hb : Balanced s) (ht : s.tunnels[i]? = some t) (hc : t.counted = false)
    (hlt : s.openCount + 1 < 2 ^ 32) (now : Nat) :
    Balanced ⟨s.metric.call weight now (.incrConnection t.peer),
      s.tunnels.set i { t with counted := true }⟩ := by
  have hopen := isOpen_counted (hb.not_ended ht hc)
  have hclosed := isOpen_uncounted hc
  have hpeer : peerCount s.metric.activePeers t.peer + 1 < 2 ^ 32 := by
    have hle := openCountOf_le s t.peer
    rw [hb.peers]
    omega
  refine ⟨?_, ?_, addPeer_noZero hb.noZero hpeer, ?_⟩
  · have hn := countP_replace Tunnel.isOpen ht { t with counted := true }
    rw [hopen, hclosed] at hn
    have ha := toNat_add_one s.metric.activeConnections (by rw [hb.active]; omega)
    rw [hb.active] at ha
    exact ha.trans hn.symm
  · intro q
    have hn := countP_replace (fun u => u.isOpen && (u.peer = q)) ht { t with counted := true }
    have hq := addPeer_count hpeer q
    simp only [hopen, hclosed, Bool.true_and, Bool.false_and, decide_eq_true_eq,
      Bool.false_eq_true, if_false] at hn
    rw [hb.peers, hb.peers] at hq
    refine hq.trans ?_
    by_cases hqp : q = t.peer
    · subst hqp
      rw [if_pos rfl] at hn ⊢
      exact hn.symm
    · rw [if_neg hqp]
      rw [if_neg (Ne.symm hqp)] at hn
      exact hn.symm
  · intro u hu hue
    rcases List.mem_or_eq_of_mem_set hu with hu | rfl
    · exact hb.counted u hu hue
    · rfl

theorem Balanced.reset (hb : Balanced s) (hend : ∀ t ∈ s.tunnels, t.counted → t.ended)
    (now : Nat) : Balanced { s with metric := s.metric.call weight now .reset } := by
  have hclosed : ∀ t ∈ s.tunnels, t.isOpen = false := by
    intro t ht
    unfold Tunnel.isOpen
    cases hc : t.counted with
    | false => rfl
    | true => rw [hend t ht hc]; rfl
  refine ⟨?_, ?_, noZeroCount_empty, hb.counted⟩
  · symm
    apply List.countP_eq_zero.2
    intro t ht
    rw [hclosed t ht]
    exact nofun
  · intro q
    symm
    apply List.countP_eq_zero.2
    intro t ht
    rw [hclosed t ht]
    exact nofun

theorem Balanced.step (hb : Balanced s) (hw : WellTimed s a) (h : s.step weight a = some s') :
    NoUnderflow s a ∧ Balanced s' := by
  obtain ⟨now, a⟩ := a
  rcases step_cases h with ⟨peer, ha, rfl⟩ | ⟨i, t, ha, ht, hc, rfl⟩ |
    ⟨i, t, ha, ht, he, hact, hp, hts⟩ | ⟨ha, rfl⟩
  · cases ha
    exact ⟨trivial, hb.start peer⟩
  · cases ha
    exact ⟨trivial, hb.incr ht hc hw now⟩
  · rcases ha with ha | ⟨c, m, x, y, ha⟩
    · cases ha
      exact hb.finish ht (hw t ht) he hact hp hts
    · cases ha
      exact hb.finish ht (hw t ht) he hact hp hts
  · cases ha
    exact ⟨trivial, hb.reset hw now⟩

theorem finish_open (weight : Nat → K) (ht : s.tunnels[i]? = some t) (ho : t.isOpen = true) :
    ∃ s', s.step weight (0, .addFailures i) = some s' ∧ s'.openCount + 1 = s.openCount ∧
      s'.metric.activeConnections = s.metric.activeConnections - 1 := by
  have he : t.ended = false := by
    rw [Tunnel.isOpen, Bool.and_eq_true, Bool.not_eq_true'] at ho
    exact ho.2
  refine ⟨⟨s.metric.call weight 0 (.addFailures t.peer), s.tunnels.set i { t with ended := true }⟩,
    ?_, ?_, rfl⟩
  · simp only [step, finish, ht, he]
    rfl
  · have hn := countP_replace Tunnel.isOpen ht { t with ended := true }
    rw [ho, isOpen_ended] at hn
    exact hn

/-- If more tunnels are open than the counter knows of, their ends take it below zero. -/
theorem underflow_of_deficit (weight : Nat → K)
    (hd : s.metric.activeConnections.toNat < s.openCount) :
    ∃ more t, run (step weight) s more = some t ∧ AllSteps (step weight) WellTimed s more ∧
      ¬ AllSteps (step weight) NoUnderflow s more := by
  induction hn : s.metric.activeConnections.toNat generalizing s with
  | zero =>
    obtain ⟨t, ht, ho⟩ := List.countP_pos_iff.1 (Nat.zero_lt_of_lt hd)
    obtain ⟨i, hi⟩ := List.mem_iff_getElem?.1 ht
    obtain ⟨s', hs, _⟩ := finish_open weight hi ho
    have hz : s.metric.activeConnections = 0 := UInt32.toNat_inj.1 hn
    exact ⟨[(0, .addFailures i)], s', run_cons.2 ⟨s', hs, rfl⟩,
      (allSteps_cons hs).2 ⟨wellTimed_open hi ho 0, trivial⟩, fun h => h.1 hz⟩
  | succ n ih =>
    obtain ⟨t, ht, ho⟩ := List.countP_pos_iff.1 (Nat.zero_lt_of_lt hd)
    obtain ⟨i, hi⟩ := List.mem_iff_getElem?.1 ht
    obtain ⟨s', hs, hcount, hact⟩ := finish_open weight hi ho
    have hne : s.metric.activeConnections ≠ 0 := by
      intro hz
      rw [hz] at hn
      cases hn
    have hact' : s'.metric.activeConnections.toNat = n := by
      rw [hact, toNat_sub_one _ hne, hn]
      rfl
    obtain ⟨more, u, hr, hw, hu⟩ := ih (s := s') (by omega) hact'
    exact ⟨(0, .addFailures i) :: more, u, run_cons.2 ⟨s', hs, hr⟩,
      (allSteps_cons hs).2 ⟨wellTimed_open hi ho 0, hw⟩, fun h => hu (h.2 s' hs)⟩

theorem Balanced.late_incr (hb : Balanced s) (ht : s.tunnels[i]? = some t)
    (hc : t.counted = false) (hge : ¬ s.openCount + 1 < 2 ^ 32) (now : Nat) :
    (s.metric.call weight now (.incrConnection t.peer)).activeConnections.toNat <
      openCount ⟨s.metric, s.tunnels.set i { t with counted := true }⟩ := by
  have hopen := isOpen_counted (hb.not_ended ht hc)
  have hclosed := isOpen_uncounted hc
  have hn := countP_replace Tunnel.isOpen ht { t with counted := true }
  rw [hopen, hclosed] at hn
  have hlt := s.metric.activeConnections.toNat_lt
  have hzero : (s.metric.activeConnections + 1).toNat = 0 := by
    have hact := hb.active
    rw [UInt32.toNat_add, hact]
    change (s.openCount + 1) % 2 ^ 32 = 0
    omega
  refine hzero.trans_lt ?_
  change 0 < List.countP Tunnel.isOpen (s.tunnels.set i { t with counted := true })
  simp only [if_true, Bool.false_eq_true, if_false] at hn
  omega

/-- An action that is not well timed decrements the counter at zero, or leaves more tunnels open
than the counter knows of. -/
theorem Balanced.ill_timed (hb : Balanced s) (hw : ¬ WellTimed s a)
    (h : s.step weight a = some s') :
    ¬ NoUnderflow s a ∨ s'.metric.activeConnections.toNat < s'.openCount := by
  obtain ⟨now, a⟩ := a
  rcases step_cases h with ⟨peer, ha, rfl⟩ | ⟨i, t, ha, ht, hc, rfl⟩ |
    ⟨i, t, ha, ht, he, hact, hp, hts⟩ | ⟨ha, rfl⟩
  · cases ha
    exact absurd trivial hw
  · cases ha
    exact .inr (hb.late_incr ht hc hw now)
  · have hc : t.counted = false := by
      rw [Bool.eq_false_iff]
      intro hc
      apply hw
      rcases ha with ha | ⟨c, m, x, y, ha⟩ <;> cases ha <;> intro u hu <;>
        cases ht.symm.trans hu <;> exact hc
    obtain hz | hlt := hb.early_end ht hc hact hts
    · left
      rcases ha with ha | ⟨c, m, x, y, ha⟩ <;> cases ha <;> exact fun hn => hn hz
    · exact .inr hlt
  · cases ha
    right
    simp only [WellTimed, not_forall] at hw
    obtain ⟨t, ht, hc, he⟩ := hw
    have hopen : t.isOpen = true := by
      rw [Tunnel.isOpen, hc, Bool.eq_false_iff.2 he]
      rfl
    exact List.countP_pos_iff.2 ⟨t, ht, hopen⟩

/-- After an action that is not well timed, well-timed ones can decrement the counter at zero. -/
theorem ill_timed_underflows (hb : Balanced s) (hw : ¬ WellTimed s a)
    (h : s.step weight a = some s') :
    ∃ more t, run (step weight) s (a :: more) = some t ∧
      AllSteps (step weight) WellTimed s' more ∧
      ¬ AllSteps (step weight) NoUnderflow s (a :: more) := by
  obtain hu | hd := hb.ill_timed hw h
  · exact ⟨[], s', run_cons.2 ⟨s', h, rfl⟩, trivial, fun hn => hu hn.1⟩
  · obtain ⟨more, t, hr, hm, hn⟩ := underflow_of_deficit weight hd
    exact ⟨more, t, run_cons.2 ⟨s', h, hr⟩, hm, fun ha => hn (ha.2 s' h)⟩

end

def init [NatCast K] (now : Nat) (status : BackendStatus) (protocol : BackendProtocol) :
    Accounts K := ⟨newMetric now status protocol, []⟩

theorem init_balanced [NatCast K] (now : Nat) (status : BackendStatus)
    (protocol : BackendProtocol) : Balanced (init now status protocol : Accounts K) :=
  ⟨rfl, fun _ => rfl, noZeroCount_empty, nofun⟩

/-- In every run of well-timed actions the counter is never decremented at zero, and whenever
all tunnels have ended and been counted, counter and peer table are empty. -/
theorem accounting_of_wellTimed [Field K] [LinearOrder K] (weight : Nat → K) (now : Nat)
    (status : BackendStatus) (protocol : BackendProtocol) (acts : List (Nat × TunnelAct))
    (s : Accounts K) (hrun : run (step weight) (init now status protocol) acts = some s)
    (hw : AllSteps (step weight) WellTimed (init now status protocol) acts) :
    AllSteps (step weight) NoUnderflow (init now status protocol) acts ∧
      (Quiescent s → s.metric.activeConnections = 0 ∧ s.metric.activePeers = ∅) := by
  have hb := init_balanced (K := K) now status protocol
  constructor
  · exact hw.mono Balanced (fun hb hw h => hb.step hw h) hb hrun
  · apply Balanced.quiescent
    exact run_invariant Balanced (fun hb hw h => (hb.step hw h).2) hb hw hrun

def lateIncrement : List (Nat × TunnelAct) :=
  [(0, .start ⟨.v4 0, 0⟩), (1, .addFailures 0), (2, .incr 0)]

/-- A tunnel that fails before its spawned increment has run decrements the counter at zero. -/
theorem early_end_underflows :
    ¬ ∀ (weight : Nat → ℚ) (now : Nat) (status : BackendStatus) (protocol : BackendProtocol)
      (acts : List (Nat × TunnelAct)) (s : Accounts ℚ),
      run (step weight) (init now status protocol) acts = some s →
      AllSteps (step weight) NoUnderflow (init now status protocol) acts ∧
        (Quiescent s → s.metric.activeConnections = 0 ∧ s.metric.activePeers = ∅) := by
  intro h
  obtain ⟨hn, _⟩ := h (fun _ => 1) 0 .normal .quic lateIncrement _ rfl
  exact (hn.2 _ rfl).1 rfl

def twoTunnels : List (Nat × TunnelAct) :=
  [(0, .start ⟨.v4 0, 0⟩), (1, .start ⟨.v4 1, 0⟩), (2, .incr 1), (3, .incr 0),
    (4, .summary 0 1 2 10 20), (5, .addFailures 1), (6, .reset), (7, .start ⟨.v4 0, 0⟩),
    (8, .incr 2), (9, .summary 2 1 1 0 0)]

/-- Two tunnels overlap, one of them fails, and after a reset comes a third. -/
theorem accounting_of_two_tunnels :
    AllSteps (step fun _ => (1 : ℚ)) NoUnderflow (init 0 .normal .quic) twoTunnels ∧
    ∃ s, run (step fun _ => (1 : ℚ)) (init 0 .normal .quic) twoTunnels = some s ∧
      s.metric.activeConnections = 0 ∧ s.metric.activePeers = ∅ := by
  obtain ⟨s, hr, htunnels⟩ : ∃ s, run (step fun _ => (1 : ℚ)) (init 0 .normal .quic) twoTunnels =
      some s ∧ s.tunnels = [⟨⟨.v4 0, 0⟩, true, true⟩, ⟨⟨.v4 1, 0⟩, true, true⟩,
        ⟨⟨.v4 0, 0⟩, true, true⟩] := ⟨_, rfl, rfl⟩
  have hw : AllSteps (step fun _ => (1 : ℚ)) WellTimed (init 0 .normal .quic) twoTunnels := by
    have hended : ∀ t ∈ [(⟨⟨.v4 0, 0⟩, true, true⟩ : Tunnel), ⟨⟨.v4 1, 0⟩, true, true⟩],
        t.counted → t.ended := by
      intro t ht _
      simp only [List.mem_cons, List.not_mem_nil, or_false] at ht
      obtain rfl | rfl := ht <;> rfl
    refine (allSteps_cons rfl).2 ⟨trivial, (allSteps_cons rfl).2 ⟨trivial, ?_⟩⟩
    refine (allSteps_cons rfl).2 ⟨(by decide : 0 + 1 < 2 ^ 32), ?_⟩
    refine (allSteps_cons rfl).2 ⟨(by decide : 1 + 1 < 2 ^ 32), ?_⟩
    refine (allSteps_cons rfl).2 ⟨fun _ ht => Option.some.inj ht ▸ rfl, ?_⟩
    refine (allSteps_cons rfl).2 ⟨fun _ ht => Option.some.inj ht ▸ rfl, ?_⟩
    refine (allSteps_cons rfl).2 ⟨hended, (allSteps_cons rfl).2 ⟨trivial, ?_⟩⟩
    refine (allSteps_cons rfl).2 ⟨(by decide : 0 + 1 < 2 ^ 32), ?_⟩
    exact (allSteps_cons rfl).2 ⟨fun _ ht => Option.some.inj ht ▸ rfl, trivial⟩
  obtain ⟨hn, hq⟩ := accounting_of_wellTimed (fun _ => (1 : ℚ)) 0 .normal .quic twoTunnels s hr hw
  refine ⟨hn, s, hr, hq ?_⟩
  intro t ht
  rw [htunnels] at ht
  simp only [List.mem_cons, List.not_mem_nil, or_false] at ht
  obtain rfl | rfl | rfl := ht <;> exact ⟨rfl, rfl⟩

end Accounts

end Octoproxy
