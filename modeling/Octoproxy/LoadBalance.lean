import Mathlib.Algebra.Order.Field.Rat
import Octoproxy.Config
import Octoproxy.Lists

namespace Octoproxy
open Lists
set_option autoImplicit true

section RoundRobin
variable {T α : Type}

/-- A finished call of `RoundRobin::next_available_backend`: who made it, the cursor it found and
what it returned. -/
structure Served (α T : Type) where
  caller : α
  position : Nat
  item : Option T
deriving DecidableEq

/-- Calls from any number of callers. The guard on the cursor lives to the end of the body, so
they are whole calls in the order in which the mutex was taken. -/
def RoundRobin.calls (items : List T) : Nat → List α → Except Panic (List (Served α T) × Nat)
  | nextItemIndex, [] => .ok ([], nextItemIndex)
  | nextItemIndex, caller :: callers => do
    let (item, next) ← RoundRobin.next nextItemIndex items
    let (served, last) ← RoundRobin.calls items next callers
    return (⟨caller, nextItemIndex, item⟩ :: served, last)

theorem RoundRobin.next_lt {items earlier : List T} (hpos : 0 < earlier.length)
    (hle : earlier.length ≤ items.length) (h : RoundRobin.next i earlier = .ok (item, last)) :
    last < items.length := by
  rw [RoundRobin.next_pos i earlier hpos] at h
  cases h
  exact Nat.lt_of_lt_of_le (Nat.mod_lt _ hpos) hle

theorem RoundRobin.calls_cons {items : List T} {served : List (Served α T)}
    (hs : start < items.length)
    (h : RoundRobin.calls items ((start + 1) % items.length) callers = .ok (served, last)) :
    RoundRobin.calls items start (caller :: callers) =
      .ok (⟨caller, start, items[start]?⟩ :: served, last) := by
  rw [RoundRobin.calls, RoundRobin.next_pos start items (Nat.zero_lt_of_lt hs)]
  simp only [bind, Except.bind, h]
  rfl

/-- The callers are served in turn, each with the next position. -/
theorem RoundRobin.calls_spec (items : List T) (callers : List α) (hs : start < items.length) :
    ∃ served last, RoundRobin.calls items start callers = .ok (served, last) ∧
      last < items.length ∧ served.map Served.caller = callers ∧
      served.map Served.position =
        (List.range callers.length).map (fun i => (start + i) % items.length) ∧
      ∀ s ∈ served, s.item = items[s.position]? := by
  induction callers generalizing start with
  | nil => exact ⟨[], start, rfl, hs, rfl, rfl, fun s h => absurd h List.not_mem_nil⟩
  | cons caller callers ih =>
    have hn : (start + 1) % items.length < items.length := Nat.mod_lt _ (Nat.zero_lt_of_lt hs)
    obtain ⟨served, last, hc, hl, hcallers, hpos, hitem⟩ := ih hn
    refine ⟨_, last, calls_cons hs hc, hl, ?_, ?_, ?_⟩
    · rw [List.map_cons, hcallers]
    · rw [List.map_cons, hpos, List.length_cons, List.range_succ_eq_map, List.map_cons,
        List.map_map]
      congr 1
      · exact (Nat.mod_eq_of_lt hs).symm
      apply List.map_congr_left
      intro i _
      rw [Function.comp_apply, Nat.mod_add_mod]
      congr 1
      omega
    · intro s h
      cases List.mem_cons.1 h with
      | inl he =>
        subst s
        rfl
      | inr h => exact hitem s h

/-- From every cursor that a call on a list of at most this length has left, calls in any order
return the items in turn, and every position comes up as often as every other, give or take
one. -/
theorem round_robin_fair (items : List T) (callers : List α) (start : Nat)
    (hs : start < items.length) :
    (∀ earlier : List T, 0 < earlier.length → earlier.length ≤ items.length →
      ∀ i item last, RoundRobin.next i earlier = .ok (item, last) → last < items.length) ∧
    ∃ served last, RoundRobin.calls items start callers = .ok (served, last) ∧
      served.map Served.caller = callers ∧
      (∀ (i : Nat) (s : Served α T), served[i]? = some s →
        s.position = (start + i) % items.length ∧
          ∃ item, items[(start + i) % items.length]? = some item ∧ s.item = some item) ∧
      ∀ p < items.length,
        (served.map Served.position).count p = callers.length / items.length ∨
          (served.map Served.position).count p = callers.length ⌈/⌉ items.length := by
  refine ⟨fun earlier hpos hle i item last h => RoundRobin.next_lt hpos hle h, ?_⟩
  obtain ⟨served, last, hc, -, hcallers, hpos, hitem⟩ := RoundRobin.calls_spec items callers hs
  refine ⟨served, last, hc, hcallers, ?_, ?_⟩
  · intro i s hi
    have hlen : i < callers.length := by
      rw [← hcallers, List.length_map]
      exact (List.getElem?_eq_some_iff.1 hi).1
    have hp : (served.map Served.position)[i]? = some s.position := by
      rw [List.getElem?_map, hi]
      rfl
    rw [hpos, List.getElem?_map, List.getElem?_range hlen] at hp
    have hp' : s.position = (start + i) % items.length := (Option.some.inj hp).symm
    have hlt : (start + i) % items.length < items.length := Nat.mod_lt _ (Nat.zero_lt_of_lt hs)
    refine ⟨hp', items[(start + i) % items.length], List.getElem?_eq_getElem hlt, ?_⟩
    rw [hitem s (List.mem_of_getElem? hi), hp', List.getElem?_eq_getElem hlt]
  · intro p hp
    rw [hpos]
    exact count_consecutive hs hp callers.length

/-- Five calls of two callers on three items, from the last one on. -/
theorem round_robin_five_calls :
    2 < ["a", "b", "c"].length ∧
      ∃ served last, RoundRobin.calls ["a", "b", "c"] 2 [0, 0, 1, 0, 1] = .ok (served, last) ∧
        ((served.map Served.position).count 2 = 1 ∨ (served.map Served.position).count 2 = 2) := by
  refine ⟨by decide, ?_⟩
  obtain ⟨-, served, last, hc, -, -, hcount⟩ :=
    round_robin_fair ["a", "b", "c"] [0, 0, 1, 0, 1] 2 (by decide)
  exact ⟨served, last, hc, hcount 2 (by decide)⟩

end RoundRobin

section Fold
variable {T C : Type} [LinearOrder C] {cost : T → C} {l : List T}

theorem LeastLoadedTime.fold_earliest (h : EarliestMin cost l b) (rest : List T) :
    ∃ r, rest.foldl (LeastLoadedTime.pick cost) (some (cost b, b)) = some (cost r, r) ∧
      EarliestMin cost (l ++ rest) r := by
  induction rest generalizing l b with
  | nil => exact ⟨b, rfl, by rwa [List.append_nil]⟩
  | cons x rest ih =>
    have hpick : LeastLoadedTime.pick cost (some (cost b, b)) x =
        some (cost (if cost b ≤ cost x then b else x), if cost b ≤ cost x then b else x) := by
      simp only [LeastLoadedTime.pick]
      split <;> rfl
    obtain ⟨r, hr, hmin⟩ := ih (h.concat x)
    rw [List.append_assoc, List.singleton_append] at hmin
    exact ⟨r, by rw [List.foldl_cons, hpick, hr], hmin⟩

theorem LeastLoadedTime.next_earliest (cost : T → C) (hne : l ≠ []) :
    ∃ r, LeastLoadedTime.next cost l = some r ∧ EarliestMin cost l r := by
  cases l with
  | nil => exact absurd rfl hne
  | cons x rest =>
    have hx : EarliestMin cost [x] x :=
      ⟨[], [], rfl, fun y hy => absurd hy List.not_mem_nil, fun y hy => absurd hy List.not_mem_nil⟩
    obtain ⟨r, hr, hmin⟩ := LeastLoadedTime.fold_earliest hx rest
    exact ⟨r, congrArg (Option.map Prod.snd) hr, hmin⟩

end Fold

/-- A backend with what `get_peak_ewma` reads of its metric, at an instant of its own. -/
structure Reading (K : Type) where
  backend : ConfigBackend
  metric : MetricData K
  now : Nat

section LeastLoadedTime
variable {K : Type} [Field K] {weight : Nat → K} {r : Reading K} {l : List (Reading K)}

def Reading.getPeakEwma (weight : Nat → K) (r : Reading K) : K :=
  r.metric.peakEwma.get weight r.now r.metric.activeConnections

/-- The cost that is meant, with an increment that cannot wrap. -/
def Reading.cost (weight : Nat → K) (r : Reading K) : K :=
  ((r.metric.activeConnections.toNat : K) + 1) * r.metric.peakEwma.rtt *
    weight (r.now - r.metric.peakEwma.lastEvent)

def Reading.full (r : Reading K) : Bool := r.metric.activeConnections.toNat + 1 == 2 ^ 32

theorem Reading.getPeakEwma_full (h : r.full = true) : r.getPeakEwma weight = 0 := by
  have hz : r.metric.activeConnections + 1 = 0 := by
    apply UInt32.toNat_inj.1
    have hr : r.metric.activeConnections.toNat + 1 = 2 ^ 32 := eq_of_beq h
    rw [UInt32.toNat_add, UInt32.toNat_one, hr, Nat.mod_self]
    rfl
  rw [Reading.getPeakEwma, PeakEWMA.get, hz]
  simp

theorem Reading.getPeakEwma_of_not_full (h : r.full = false) :
    r.getPeakEwma weight = r.cost weight := by
  have hne : r.metric.activeConnections.toNat + 1 ≠ 2 ^ 32 := ne_of_beq_false h
  have hlt := r.metric.activeConnections.toNat_lt
  rw [Reading.getPeakEwma, PeakEWMA.get, toNat_add_one _ (by omega), Nat.cast_succ]
  rfl

variable [LinearOrder K]

def PicksLeast (weight : Nat → K) (l : List (Reading K)) : Prop :=
  ∃ r, LeastLoadedTime.next (Reading.getPeakEwma weight) l = some r ∧
    EarliestMin (Reading.cost weight) l r

/-- The first backend with a full counter, if there is one, is cheaper than all before it and no
dearer than any after it. -/
def FullIsLeast (weight : Nat → K) (l : List (Reading K)) : Prop :=
  ∀ pre r post, l = pre ++ r :: post → r.full = true → (∀ x ∈ pre, x.full = false) →
    (∀ x ∈ pre, r.cost weight < x.cost weight) ∧ ∀ x ∈ post, r.cost weight ≤ x.cost weight

theorem picksLeast_of_no_full (hne : l ≠ []) (h : ∀ x ∈ l, x.full = false) :
    PicksLeast weight l := by
  obtain ⟨r, hr, hmin⟩ := LeastLoadedTime.next_earliest (Reading.getPeakEwma weight) hne
  exact ⟨r, hr, hmin.congr fun x hx => Reading.getPeakEwma_of_not_full (h x hx)⟩

variable [IsStrictOrderedRing K]

theorem Reading.cost_pos (hw : ∀ d, 0 < weight d) (hr : 0 < r.metric.peakEwma.rtt) :
    0 < r.cost weight := by
  have hc : 0 < (r.metric.activeConnections.toNat : K) + 1 := by positivity
  exact mul_pos (mul_pos hc hr) (hw _)

theorem next_of_full (hw : ∀ d, 0 < weight d) {pre post : List (Reading K)}
    (hrtt : ∀ x ∈ pre ++ r :: post, 0 < x.metric.peakEwma.rtt)
    (hfull : r.full = true) (hpre : ∀ x ∈ pre, x.full = false) :
    LeastLoadedTime.next (Reading.getPeakEwma weight) (pre ++ r :: post) = some r := by
  have hmin : EarliestMin (Reading.getPeakEwma weight) (pre ++ r :: post) r := by
    refine ⟨pre, post, rfl, ?_, ?_⟩
    · intro x hx
      rw [Reading.getPeakEwma_full hfull, Reading.getPeakEwma_of_not_full (hpre x hx)]
      exact Reading.cost_pos hw (hrtt x (List.mem_append_left _ hx))
    · intro x hx
      rw [Reading.getPeakEwma_full hfull]
      cases hx' : x.full with
      | true => exact (Reading.getPeakEwma_full hx').ge
      | false =>
        rw [Reading.getPeakEwma_of_not_full hx']
        apply le_of_lt
        exact Reading.cost_pos hw (hrtt x (List.mem_append_right pre (List.mem_cons_of_mem r hx)))
  have hne : pre ++ r :: post ≠ [] :=
    List.append_ne_nil_of_right_ne_nil pre (List.cons_ne_nil r post)
  obtain ⟨r', hr', hmin'⟩ := LeastLoadedTime.next_earliest (Reading.getPeakEwma weight) hne
  rw [hr', hmin'.unique hmin]

/-- The least loaded backend is chosen exactly when no counter is full, or the first backend with
a full one is the least loaded in spite of it. -/
theorem picks_least_iff (weight : Nat → K) (l : List (Reading K)) (hne : l ≠ [])
    (hw : ∀ d, 0 < weight d) (hrtt : ∀ r ∈ l, 0 < r.metric.peakEwma.rtt) :
    PicksLeast weight l ↔ FullIsLeast weight l := by
  constructor
  · rintro ⟨r', hnext, hmin⟩ pre r post rfl hfull hpre
    cases (next_of_full hw hrtt hfull hpre).symm.trans hnext
    apply hmin.at_first
    intro hmem
    cases hfull.symm.trans (hpre r' hmem)
  · intro h
    cases hf : l.find? Reading.full with
    | none =>
      apply picksLeast_of_no_full hne
      intro x hx
      exact Bool.eq_false_of_not_eq_true (List.find?_eq_none.1 hf x hx)
    | some r =>
      obtain ⟨hfull, pre, post, rfl, hpre⟩ := List.find?_eq_some_iff_append.1 hf
      have hpre' : ∀ x ∈ pre, x.full = false := by simpa using hpre
      obtain ⟨hlt, hle⟩ := h pre r post rfl hfull hpre'
      exact ⟨r, next_of_full hw hrtt hfull hpre', pre, post, rfl, hlt, hle⟩

end LeastLoadedTime

def idleMetric : MetricData ℚ := newMetric 0 .normal .http2

/-- A connection was counted, then the backend was reset, and then the connection ended. -/
def wrappedMetric : MetricData ℚ :=
  [MetricOp.incrActiveConnection, .reset, .decrActiveConnection].foldl
    (MetricData.absorb (fun _ => 1) 0) idleMetric

def idleReading : Reading ℚ := ⟨⟨0, "a"⟩, idleMetric, 0⟩

def wrappedReading : Reading ℚ := ⟨⟨1, "b"⟩, wrappedMetric, 0⟩

theorem new_rtt_pos (now : Nat) : 0 < (PeakEWMA.new now : PeakEWMA ℚ).rtt := by
  simp [PeakEWMA.new]

/-- Cost halves with the first instant that passes since the last event. -/
def fading (elapsed : Nat) : ℚ := 1 / (elapsed + 1)

def busyReading (backend : Nat) (active : UInt32) (now : Nat) : Reading ℚ :=
  ⟨⟨backend, "b"⟩, { idleMetric with activeConnections := active }, now⟩

/-- The second one costs less than the first, and as much as the third. -/
def threeReadings : List (Reading ℚ) := [busyReading 0 2 0, busyReading 1 1 0, busyReading 2 3 1]

theorem busyReading_cost (i : Nat) (active : UInt32) (now : Nat) :
    (busyReading i active now).cost fading =
      ((active.toNat : ℚ) + 1) * (PeakEWMA.new 0 : PeakEWMA ℚ).rtt * (1 / (now + 1)) := rfl

theorem second_reading_least :
    LeastLoadedTime.next (Reading.getPeakEwma fading) threeReadings = some (busyReading 1 1 0) ∧
      PicksLeast fading threeReadings := by
  have hrtt : ∀ r ∈ threeReadings, 0 < r.metric.peakEwma.rtt := by
    intro r hr
    simp only [threeReadings, List.mem_cons, List.not_mem_nil, or_false] at hr
    obtain rfl | rfl | rfl := hr <;> exact new_rtt_pos 0
  have hpicks : PicksLeast fading threeReadings := by
    apply (picks_least_iff fading _ (List.cons_ne_nil _ _) (fun d => by unfold fading; positivity)
      hrtt).2
    intro pre r post hl hr _
    have hfull : ∀ r ∈ threeReadings, r.full = false := by decide
    have hmem : r ∈ threeReadings := by
      have hl : threeReadings = pre ++ r :: post := hl
      rw [hl]
      exact List.mem_append_right pre List.mem_cons_self
    cases (hfull r hmem).symm.trans hr
  have hmin : EarliestMin (Reading.cost fading) threeReadings (busyReading 1 1 0) := by
    have h1 : (1 : UInt32).toNat = 1 := rfl
    have h2 : (2 : UInt32).toNat = 2 := rfl
    have h3 : (3 : UInt32).toNat = 3 := rfl
    refine ⟨[busyReading 0 2 0], [busyReading 2 3 1], rfl, ?_, ?_⟩ <;> intro x hx <;>
      rw [List.mem_singleton.1 hx, busyReading_cost, busyReading_cost]
    · rw [h1, h2]
      norm_num [PeakEWMA.new]
    · rw [h1, h3]
      norm_num [PeakEWMA.new]
  refine ⟨?_, hpicks⟩
  obtain ⟨r, hnext, hr⟩ := hpicks
  rw [← hr.unique hmin]
  exact hnext

/-- A counter that has wrapped below zero makes its backend look free of charge, and it is chosen
before an idle one. -/
theorem wrapped_counter_chosen :
    ¬ ∀ (weight : Nat → ℚ) (l : List (Reading ℚ)), l ≠ [] → (∀ d, 0 < weight d) →
      (∀ r ∈ l, 0 < r.metric.peakEwma.rtt) → PicksLeast weight l := by
  intro h
  have hrtt : ∀ r ∈ [idleReading] ++ wrappedReading :: [], 0 < r.metric.peakEwma.rtt := by
    intro r hr
    obtain rfl | rfl : r = idleReading ∨ r = wrappedReading := by simpa using hr
    · exact new_rtt_pos 0
    · exact new_rtt_pos 0
  have hidle : ∀ x ∈ [idleReading], x.full = false := by
    intro x hx
    rw [List.mem_singleton.1 hx]
    rfl
  obtain ⟨r, hnext, hmin⟩ := h (fun _ => 1) ([idleReading] ++ wrappedReading :: [])
    (List.cons_ne_nil _ _) (fun _ => one_pos) hrtt
  cases (next_of_full (fun _ => one_pos) hrtt rfl hidle).symm.trans hnext
  have hle := hmin.le (x := idleReading) List.mem_cons_self
  have hw : wrappedReading.metric.activeConnections.toNat = 2 ^ 32 - 1 := rfl
  have hi : idleReading.metric.activeConnections.toNat = 0 := rfl
  simp only [Reading.cost, hw, hi] at hle
  norm_num [idleReading, wrappedReading, wrappedMetric, idleMetric, newMetric, MetricData.default,
    MetricData.absorb, PeakEWMA.new] at hle

end Octoproxy
