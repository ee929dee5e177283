import Mathlib.Data.Rat.Defs
import Mathlib.Algebra.Order.Field.Rat
import Mathlib.Tactic.Ring
import Octoproxy.LeftRight
import Octoproxy.MetricHistory

namespace Octoproxy
open LeftRight
set_option autoImplicit true

variable {K : Type} [Field K] [LinearOrder K]

def MetricCall.observe (weight : Nat → K) (now : Nat) : MetricCall → PeakEWMA K → PeakEWMA K
  | .summary connectionTime _ _ _ _, e => e.observe weight now (connectionTime : K)
  | _, e => e

theorem call_peakEwma (weight : Nat → K) (now : Nat) (d : MetricData K) (c : MetricCall) :
    (d.call weight now c).peakEwma = c.observe weight now d.peakEwma := by
  cases c <;> rfl

/-- Apart from the moving average, a call does not depend on when it is absorbed. -/
theorem call_replace (weight : Nat → K) (now then' : Nat) (d : MetricData K) (e : PeakEWMA K)
    (c : MetricCall) : ({ d with peakEwma := e } : MetricData K).call weight now c =
      { d.call weight then' c with peakEwma := c.observe weight now e } := by
  cases c <;> rfl

/-- Timed calls as the batches that the two copies absorb. -/
def batches (calls : List (Nat × MetricCall)) : List (Nat × List MetricOp) :=
  calls.map fun c => (c.1, c.2.ops)

section
variable (weight : Nat → K)

/-- The `MetricData` that readers see after the calls, each of which ends in a publish. -/
def seenMetric (d : MetricData K) (calls : List (Nat × MetricCall)) : MetricData K :=
  (publishAll (MetricData.absorb weight) d (batches calls)).published

/-- The plain record: every call once, in order, at its own instant. -/
def plainMetric (d : MetricData K) (calls : List (Nat × MetricCall)) : MetricData K :=
  calls.foldl (fun d c => d.call weight c.1 c.2) d

def StoreRefines (d : MetricData K) (calls : List (Nat × MetricCall)) : Prop :=
  ∀ pre, pre <+: calls → seenMetric weight d pre = plainMetric weight d pre

end

/-- `e^(-elapsed/decay)` is in `(0, 1]`. -/
def Decays (weight : Nat → K) : Prop := ∀ dur, 0 < weight dur ∧ weight dur ≤ 1

/-- The call `b` hides that `a` is absorbed a second time as late as `b`: `a` observes nothing, no
time has passed, or `b` observes a time that is no shorter than the average and the time before it.
The last case is that of a time observed twice, the first time right at the last event. -/
def HidesDelay (e : PeakEWMA K) (a b : Nat × MetricCall) : Prop :=
  match a.2, b.2 with
  | .summary x _ _ _ _, .summary y _ _ _ _ =>
    a.1 = b.1 ∨ x ≤ y ∧ e.rtt ≤ (y : K) ∨ x = y ∧ a.1 = e.lastEvent
  | .summary _ _ _ _ _, _ => a.1 = b.1
  | _, _ => True

variable {weight : Nat → K}

theorem sequential_batches (d : MetricData K) (calls : List (Nat × MetricCall)) :
    sequential (MetricData.absorb weight) d (batches calls) = plainMetric weight d calls := by
  simp only [sequential, batches, plainMetric, List.foldl_map]
  rfl

theorem storeRefines_iff_refines (d : MetricData K) (calls : List (Nat × MetricCall)) :
    StoreRefines weight d calls ↔
      Refines (MetricData.absorb weight) d (batches calls) := by
  constructor
  · intro h l hl
    obtain ⟨pre, hp, rfl⟩ := List.prefix_map_iff.1 hl
    have hs := h pre hp
    rw [← sequential_batches] at hs
    exact hs
  · intro h pre hp
    have hs := h (batches pre) (hp.map _)
    rw [sequential_batches] at hs
    exact hs

theorem tolerates_iff_observe (d : MetricData K) (a b : Nat × MetricCall) :
    Tolerates (MetricData.absorb weight) d (a.1, a.2.ops) (b.1, b.2.ops) ↔
      b.2.observe weight b.1 (a.2.observe weight b.1 d.peakEwma) =
        b.2.observe weight b.1 (a.2.observe weight a.1 d.peakEwma) := by
  have hlate (t : Nat) : (d.call weight t a.2).call weight b.1 b.2 =
      { (d.call weight b.1 a.2).call weight b.1 b.2 with
        peakEwma := b.2.observe weight b.1 (a.2.observe weight t d.peakEwma) } := by
    have ha := call_replace weight t b.1 d d.peakEwma a.2
    rw [ha, call_replace weight b.1 b.1]
  have he (t : Nat) : ((d.call weight t a.2).call weight b.1 b.2).peakEwma =
      b.2.observe weight b.1 (a.2.observe weight t d.peakEwma) := by
    rw [call_peakEwma, call_peakEwma]
  change (d.call weight b.1 a.2).call weight b.1 b.2 =
    (d.call weight a.1 a.2).call weight b.1 b.2 ↔ _
  constructor
  · intro h
    rw [← he, ← he, h]
  · intro h
    rw [hlate b.1, hlate a.1, h]

section
variable [IsStrictOrderedRing K] {old x y c : K}

omit [IsStrictOrderedRing K] in
theorem observeRtt_of_le (h : old ≤ x) (dur : Nat) : observeRtt weight dur old x = x := by
  unfold observeRtt
  split
  · rfl
  · rename_i hlt
    rw [le_antisymm h (not_lt.1 hlt)]
    ring

omit [IsStrictOrderedRing K] in
theorem observeRtt_of_ge (h : x ≤ old) (dur : Nat) :
    observeRtt weight dur old x = old * weight dur + x * (1 - weight dur) :=
  if_neg (not_lt.2 h)

theorem observeRtt_twice (hw : Decays weight) (dur dur' : Nat) :
    observeRtt weight dur (observeRtt weight dur' old x) x =
      observeRtt weight dur' (observeRtt weight dur old x) x := by
  by_cases h : old ≤ x
  · rw [observeRtt_of_le h, observeRtt_of_le h, observeRtt_of_le le_rfl, observeRtt_of_le le_rfl]
  · have hge := (not_le.1 h).le
    rw [observeRtt_of_ge (observeRtt_ge_rtt (hw dur').1), observeRtt_of_ge hge,
      observeRtt_of_ge (observeRtt_ge_rtt (hw dur).1), observeRtt_of_ge hge]
    ring

theorem HidesDelay.hides (hw : Decays weight) {e : PeakEWMA K} {a b : Nat × MetricCall}
    (h : HidesDelay e a b) :
    b.2.observe weight b.1 (a.2.observe weight b.1 e) =
      b.2.observe weight b.1 (a.2.observe weight a.1 e) := by
  obtain ⟨s, a⟩ := a
  obtain ⟨t, b⟩ := b
  cases a with
  | summary x _ _ _ _ =>
    cases b with
    | summary y _ _ _ _ =>
      simp only [MetricCall.observe, PeakEWMA.observe, PeakEWMA.mk.injEq, and_true, Nat.sub_self]
      obtain rfl | ⟨hxy, hey⟩ | ⟨rfl, rfl⟩ := h
      · rw [Nat.sub_self]
      · have hx : (x : K) ≤ y := Nat.cast_le.2 hxy
        rw [observeRtt_of_le (observeRtt_le (hw _).2 hey hx),
          observeRtt_of_le (observeRtt_le (hw _).2 hey hx)]
      · rw [Nat.sub_self]
        exact observeRtt_twice hw _ _
    | _ =>
      cases h
      rfl
  | _ => rfl

/-- A decay to one and the same weight, however much time has passed. -/
def steady (c : K) (dur : Nat) : K := if dur = 0 then 1 else c

theorem steady_decays (hc : 0 < c) (hc' : c ≤ 1) : Decays (steady c) := by
  intro dur
  unfold steady
  split
  · exact ⟨one_pos, le_rfl⟩
  · exact ⟨hc, hc'⟩

omit [IsStrictOrderedRing K] in
theorem observeRtt_steady_zero (c old x : K) : observeRtt (steady c) 0 old x = max old x := by
  by_cases h : old ≤ x
  · rw [observeRtt_of_le h, max_eq_right h]
  · have hge := (not_le.1 h).le
    rw [observeRtt_of_ge hge, max_eq_left hge, steady, if_pos rfl]
    ring

omit [IsStrictOrderedRing K] in
theorem observeRtt_steady (h : 0 < dur) (hge : x ≤ old) :
    observeRtt (steady c) dur old x = old * c + x * (1 - c) := by
  rw [observeRtt_of_ge hge, steady, if_neg (Nat.ne_of_gt h)]

theorem observeRtt_steady_lt (h : 0 < dur) (hc' : c < 1) (hlt : x < old) :
    observeRtt (steady c) dur old x < old := by
  rw [observeRtt_steady h hlt.le]
  have hmul := mul_pos (sub_pos.2 hlt) (sub_pos.2 hc')
  linarith

/-- If no steady decay tells the difference, the second time exceeds whatever the first one made of
the average. -/
theorem le_of_steady (hs : old < x ∨ 0 < s) (ht : 0 < t)
    (h : ∀ c : K, 0 < c → c < 1 →
      observeRtt (steady c) 0 (observeRtt (steady c) t old x) y =
        observeRtt (steady c) d (observeRtt (steady c) s old x) y) (hd : 0 < d) :
    x ≤ y ∧ old ≤ y := by
  have hle : ∀ c : K, 0 < c → c < 1 → observeRtt (steady c) t old x ≤ y := by
    intro c hc hc'
    have hsame : observeRtt (steady c) s old x = observeRtt (steady c) t old x := by
      obtain hs | hs := hs
      · rw [observeRtt, observeRtt, if_pos hs, if_pos hs]
      · simp only [observeRtt, steady, if_neg (Nat.ne_of_gt hs), if_neg (Nat.ne_of_gt ht)]
    by_contra hlt
    have he := h c hc hc'
    rw [hsame, observeRtt_steady_zero, max_eq_left (not_le.1 hlt).le] at he
    exact (observeRtt_steady_lt hd hc' (not_le.1 hlt)).ne he.symm
  have hhalf : (0 : K) < 1 / 2 ∧ (1 / 2 : K) < 1 := ⟨half_pos one_pos, half_lt_self one_pos⟩
  have hdecay := steady_decays hhalf.1 hhalf.2.le
  have hx : x ≤ y := (observeRtt_ge_rtt (hdecay t).1).trans (hle _ hhalf.1 hhalf.2)
  refine ⟨hx, ?_⟩
  by_contra hlt
  have hlt := not_le.1 hlt
  -- a weight so close to 1 that the average stays above the second time
  have hpos : 0 < old - x := sub_pos.2 (hx.trans_lt hlt)
  have hq : (y - x) / (old - x) < 1 := (div_lt_one hpos).2 (sub_lt_sub_right hlt x)
  have hq' : 0 ≤ (y - x) / (old - x) := div_nonneg (sub_nonneg.2 hx) hpos.le
  obtain ⟨c, hc, hc'⟩ := exists_between hq
  have hr := hle c (hq'.trans_lt hc) hc'
  rw [observeRtt_steady ht (hx.trans_lt hlt).le] at hr
  have hmul := (div_lt_iff₀ hpos).1 hc
  linarith

/-- A second time that is shorter than the average and not the first one shows the delay, when the
first one came right at the last event. -/
theorem eq_of_steady (ht : 0 < t) (hge : x ≤ old) (hlt : y < old)
    (h : observeRtt (steady (1 / 2)) 0 (observeRtt (steady (1 / 2)) t old x) y =
      observeRtt (steady (1 / 2)) t (observeRtt (steady (1 / 2)) 0 old x) y) : x = y := by
  rw [observeRtt_steady_zero, observeRtt_steady_zero, max_eq_left hge, observeRtt_steady ht hge,
    observeRtt_steady ht hlt.le] at h
  obtain hxy | hxy | hxy := lt_trichotomy x y
  · exfalso
    have hmax : max (old * (1 / 2) + x * (1 - 1 / 2)) y < old * (1 / 2) + y * (1 - 1 / 2) := by
      apply max_lt <;> linarith
    exact hmax.ne h
  · exact hxy
  · exfalso
    rw [max_eq_left (by linarith)] at h
    linarith

theorem HidesDelay.of_hides {e : PeakEWMA K} {a b : Nat × MetricCall} (ha : e.lastEvent ≤ a.1)
    (hb : a.1 ≤ b.1)
    (h : ∀ weight : Nat → K, Decays weight →
      b.2.observe weight b.1 (a.2.observe weight b.1 e) =
        b.2.observe weight b.1 (a.2.observe weight a.1 e)) : HidesDelay e a b := by
  obtain ⟨s, a⟩ := a
  obtain ⟨t, b⟩ := b
  have hhalf : Decays (steady (1 / 2 : K)) :=
    steady_decays (half_pos one_pos) (half_lt_self one_pos).le
  cases a with
  | summary x _ _ _ _ =>
    cases b with
    | summary y _ _ _ _ =>
      simp only [MetricCall.observe, PeakEWMA.observe, PeakEWMA.mk.injEq, and_true,
        Nat.sub_self] at h
      by_cases hst : s = t
      · exact .inl hst
      right
      have hpos : 0 < t - s := by omega
      have hpos' : 0 < t - e.lastEvent := by omega
      by_cases hs : e.rtt < x ∨ 0 < s - e.lastEvent
      · left
        have hle := le_of_steady hs hpos'
          (fun c hc hc' => h (steady c) (steady_decays hc hc'.le)) hpos
        exact ⟨Nat.cast_le.1 hle.1, hle.2⟩
      · push Not at hs
        have hlast : s = e.lastEvent := by omega
        by_cases hy : e.rtt ≤ y
        · exact .inl ⟨Nat.cast_le.1 (hs.1.trans hy), hy⟩
        · right
          have hc := h _ hhalf
          rw [hlast, Nat.sub_self] at hc
          exact ⟨Nat.cast_inj.1 (eq_of_steady hpos' hs.1 (not_le.1 hy) hc), hlast⟩
    | _ =>
      simp only [MetricCall.observe, PeakEWMA.observe, PeakEWMA.mk.injEq] at h
      exact (h _ hhalf).2.symm
  | _ => trivial

end

theorem storeRefines_two (d : MetricData K) (a b : Nat × MetricCall)
    (h : StoreRefines weight d [a, b]) :
    b.2.observe weight b.1 (a.2.observe weight b.1 d.peakEwma) =
      b.2.observe weight b.1 (a.2.observe weight a.1 d.peakEwma) := by
  rw [storeRefines_iff_refines, refines_iff] at h
  exact (tolerates_iff_observe d a b).1 (h [] (a.1, a.2.ops) (b.1, b.2.ops) (List.prefix_refl _))

theorem storeRefines_of_hidden [IsStrictOrderedRing K] (hw : Decays weight) (d : MetricData K)
    {calls : List (Nat × MetricCall)}
    (h : ∀ pre a b, pre ++ [a] ++ [b] <+: calls →
      HidesDelay (plainMetric weight d pre).peakEwma a b) : StoreRefines weight d calls := by
  rw [storeRefines_iff_refines, refines_iff]
  intro l x y hp
  obtain ⟨calls', hp', he⟩ := List.prefix_map_iff.1 hp
  obtain ⟨front, last, rfl, he, hy⟩ := List.map_eq_append_iff.1 he.symm
  obtain ⟨pre, mid, rfl, rfl, hx⟩ := List.map_eq_append_iff.1 he
  obtain ⟨b, rfl, rfl⟩ := List.map_eq_singleton_iff.1 hy
  obtain ⟨a, rfl, rfl⟩ := List.map_eq_singleton_iff.1 hx
  rw [tolerates_iff_observe]
  apply HidesDelay.hides hw
  change HidesDelay (sequential (MetricData.absorb weight) d (batches pre)).peakEwma a b
  rw [sequential_batches]
  exact h pre a b hp'

/-- Readers of the two copies see the plain record if every call that follows a summary hides that
the other copy absorbs that summary again at the later instant. A call that does not hide it shows
it, for some decay. -/
theorem store_refines_when_hidden (K : Type) [Field K] [LinearOrder K] [IsStrictOrderedRing K] :
    (∀ (weight : Nat → K) (d : MetricData K) (calls : List (Nat × MetricCall)), Decays weight →
      (∀ pre a b, pre ++ [a] ++ [b] <+: calls →
        HidesDelay (plainMetric weight d pre).peakEwma a b) → StoreRefines weight d calls) ∧
    ∀ (d : MetricData K) (a b : Nat × MetricCall), d.peakEwma.lastEvent ≤ a.1 → a.1 ≤ b.1 →
      ((∀ weight, Decays weight → StoreRefines weight d [a, b]) ↔ HidesDelay d.peakEwma a b) := by
  refine ⟨fun weight d calls hw => storeRefines_of_hidden hw d, ?_⟩
  intro d a b ha hb
  constructor
  · intro h
    exact .of_hides ha hb fun weight hw => storeRefines_two d a b (h weight hw)
  · intro h weight hw
    apply storeRefines_of_hidden hw
    intro pre a' b' hp
    cases pre with
    | nil =>
      cases hp.eq_of_length rfl
      exact h
    | cons c pre =>
      have hlen := hp.length_le
      simp only [List.length_append, List.length_cons, List.length_nil] at hlen
      omega

/-- Two summaries in rising order, and a status change together with the second one. -/
def risingSummaries : List (Nat × MetricCall) :=
  [(1, .summary 60000000 0 0 0 ⟨.v4 0, 0⟩), (3, .summary 70000000 0 0 0 ⟨.v4 0, 0⟩),
    (3, .setStatus .closed), (5, .reset)]

theorem store_refines_rising :
    StoreRefines (steady (1 / 2 : ℚ)) (.default 0) risingSummaries := by
  refine (store_refines_when_hidden ℚ).1 _ _ _ (steady_decays (by norm_num) (by norm_num)) ?_
  intro pre a b hp
  obtain _ | ⟨c, _ | ⟨c', _ | ⟨c'', pre⟩⟩⟩ := pre
  · obtain ⟨rest, hrest⟩ := hp
    cases hrest
    exact .inr (.inl ⟨by decide, by norm_num [plainMetric, MetricData.default, PeakEWMA.new]⟩)
  · obtain ⟨rest, hrest⟩ := hp
    cases hrest
    rfl
  · obtain ⟨rest, hrest⟩ := hp
    cases hrest
    trivial
  · have hlen := hp.length_le
    simp only [List.length_append, List.length_cons, List.length_nil, risingSummaries] at hlen
    omega

def lateSummary : List (Nat × MetricCall) :=
  [(1, .summary 5 0 0 0 ⟨.v4 0, 0⟩), (2, .setStatus .closed)]

/-- A summary at instant 1 and a status change at instant 2: the copy that readers then see has
observed the summary at instant 2. -/
theorem store_shows_late_summary :
    ¬ ∀ (weight : Nat → ℚ) (d : MetricData ℚ) (calls : List (Nat × MetricCall)), Decays weight →
      calls.Pairwise (fun a b => a.1 ≤ b.1) → StoreRefines weight d calls := by
  intro h
  have he := h (fun _ => 1) (.default 0) lateSummary (fun _ => ⟨one_pos, le_rfl⟩) (by decide)
    lateSummary (List.prefix_refl _)
  have hl := congrArg (fun d => d.peakEwma.lastEvent) he
  have hs : (seenMetric (fun _ => (1 : ℚ)) (.default 0) lateSummary).peakEwma.lastEvent = 2 := rfl
  have hp : (plainMetric (fun _ => (1 : ℚ)) (.default 0) lateSummary).peakEwma.lastEvent = 1 := rfl
  rw [hs, hp] at hl
  cases hl

end Octoproxy
