import Mathlib.Data.List.Basic

namespace Transition
set_option autoImplicit true

variable {σ α : Type} (step : σ → α → Option σ)

/-- The state after a sequence of actions, if each of them is possible where it is taken. -/
def run : σ → List α → Option σ
  | s, [] => some s
  | s, a :: as => (step s a).bind fun s' => run s' as

/-- Every action of the run is taken in a state that `P` allows for it. -/
def AllSteps (P : σ → α → Prop) : σ → List α → Prop
  | _, [] => True
  | s, a :: as => P s a ∧ ∀ s', step s a = some s' → AllSteps P s' as

variable {step} {P Q : σ → α → Prop}

@[simp] theorem run_nil (s : σ) : run step s [] = some s := rfl

theorem run_cons {s t : σ} : run step s (a :: as) = some t ↔
    ∃ s', step s a = some s' ∧ run step s' as = some t :=
  Option.bind_eq_some_iff

theorem run_append {s t : σ} : run step s (as ++ bs) = some t ↔
    ∃ s', run step s as = some s' ∧ run step s' bs = some t := by
  induction as generalizing s with
  | nil => simp
  | cons a as ih =>
    constructor
    · intro h
      obtain ⟨u, hu, hr⟩ := run_cons.1 h
      obtain ⟨v, hv, hr'⟩ := ih.1 hr
      exact ⟨v, run_cons.2 ⟨u, hu, hv⟩, hr'⟩
    · rintro ⟨v, hv, hr'⟩
      obtain ⟨u, hu, hr⟩ := run_cons.1 hv
      exact run_cons.2 ⟨u, hu, ih.2 ⟨v, hr, hr'⟩⟩

/-- What holds at the start and is kept by every allowed step holds after every run. -/
theorem run_invariant (I : σ → Prop) {s t : σ}
    (hstep : ∀ {s s' : σ} {a : α}, I s → P s a → step s a = some s' → I s')
    (hs : I s) (hp : AllSteps step P s as) (hr : run step s as = some t) : I t := by
  induction as generalizing s with
  | nil =>
    cases hr
    exact hs
  | cons a as ih =>
    obtain ⟨u, hu, hr'⟩ := run_cons.1 hr
    exact ih (hstep hs hp.1 hu) (hp.2 u hu) hr'

theorem allSteps_of_forall (h : ∀ s a, P s a) {s : σ} : AllSteps step P s as := by
  induction as generalizing s with
  | nil => trivial
  | cons a as ih => exact ⟨h s a, fun _ _ => ih⟩

theorem allSteps_of_mem {Q : α → Prop} (h : ∀ a ∈ as, Q a) {s : σ} :
    AllSteps step (fun _ a => Q a) s as := by
  induction as generalizing s with
  | nil => trivial
  | cons a as ih =>
    obtain ⟨ha, has⟩ := List.forall_mem_cons.1 h
    exact ⟨ha, fun _ _ => ih has⟩

theorem run_preserves (I : σ → Prop) {s t : σ}
    (hstep : ∀ {s s' : σ} {a : α}, I s → step s a = some s' → I s')
    (hs : I s) (hr : run step s as = some t) : I t :=
  run_invariant (P := fun _ _ => True) I (fun hi _ => hstep hi) hs
    (allSteps_of_forall fun _ _ => trivial) hr

/-- What holds of the empty run and of every run with one more step holds of every run, together
with the actions it has taken. -/
theorem run_history (I : List α → σ → Prop) {s t : σ} (hs : I [] s)
    (hstep : ∀ {as : List α} {u v : σ} {a : α},
      run step s as = some u → I as u → step u a = some v → I (as ++ [a]) v)
    (hr : run step s as = some t) : I as t := by
  have hfrom : ∀ (bs before : List α) (u : σ), run step s before = some u → I before u →
      run step u bs = some t → I (before ++ bs) t := by
    intro bs
    induction bs with
    | nil =>
      intro before u _ hi hb
      cases hb
      rwa [List.append_nil]
    | cons b bs ih =>
      intro before u hu hi hb
      obtain ⟨v, hv, hb'⟩ := run_cons.1 hb
      rw [← List.singleton_append, ← List.append_assoc]
      apply ih (before ++ [b]) v _ (hstep hu hi hv) hb'
      exact run_append.2 ⟨u, hu, run_cons.2 ⟨v, hv, rfl⟩⟩
  exact hfrom as [] s rfl hs hr

/-- A run allowed by `P` is allowed by whatever follows from `P` and an invariant. -/
theorem AllSteps.mono (I : σ → Prop) {s t : σ}
    (hstep : ∀ {s s' : σ} {a : α}, I s → P s a → step s a = some s' → Q s a ∧ I s')
    (hs : I s) (hp : AllSteps step P s as) (hr : run step s as = some t) :
    AllSteps step Q s as := by
  induction as generalizing s with
  | nil => trivial
  | cons a as ih =>
    obtain ⟨u, hu, hr'⟩ := run_cons.1 hr
    obtain ⟨hq, hi⟩ := hstep hs hp.1 hu
    refine ⟨hq, ?_⟩
    intro v hv
    cases hu.symm.trans hv
    exact ih hi (hp.2 u hu) hr'

theorem allSteps_cons {s s' : σ} (h : step s a = some s') :
    AllSteps step P s (a :: as) ↔ P s a ∧ AllSteps step P s' as := by
  constructor
  · rintro ⟨hp, hr⟩
    exact ⟨hp, hr s' h⟩
  · rintro ⟨hp, hr⟩
    refine ⟨hp, ?_⟩
    intro u hu
    cases h.symm.trans hu
    exact hr

instance AllSteps.decidable [h : ∀ s a, Decidable (P s a)] :
    (s : σ) → (as : List α) → Decidable (AllSteps step P s as)
  | _, [] => isTrue trivial
  | s, a :: as =>
    match hs : step s a with
    | none =>
      decidable_of_iff (P s a) ⟨fun hp => ⟨hp, fun _ h => nomatch hs.symm.trans h⟩, And.left⟩
    | some s' =>
      have := AllSteps.decidable s' as
      decidable_of_iff (P s a ∧ AllSteps step P s' as) (allSteps_cons hs).symm

theorem allSteps_congr (h : ∀ s a, P s a ↔ Q s a) {s : σ} :
    AllSteps step P s as ↔ AllSteps step Q s as := by
  induction as generalizing s with
  | nil => exact Iff.rfl
  | cons a as ih => exact and_congr (h s a) (forall_congr' fun s' => imp_congr_right fun _ => ih)

/-- Two conditions on steps allow the same runs if they agree wherever an invariant holds that
one of them keeps. -/
theorem allSteps_iff_of_step {R : σ → α → Prop} (I : σ → Prop) {s t : σ}
    (hstep : ∀ {s s' : σ} {a : α}, I s → R s a → step s a = some s' →
      (P s a ↔ Q s a) ∧ (Q s a → I s'))
    (hs : I s) (hR : AllSteps step R s as) (hr : run step s as = some t) :
    AllSteps step P s as ↔ AllSteps step Q s as := by
  induction as generalizing s with
  | nil => exact Iff.rfl
  | cons a as ih =>
    obtain ⟨u, hu, hr'⟩ := run_cons.1 hr
    obtain ⟨hiff, hi⟩ := hstep hs hR.1 hu
    rw [allSteps_cons hu, allSteps_cons hu, hiff]
    exact and_congr_right fun hq => ih (hi hq) (hR.2 u hu) hr'

theorem allSteps_append {s t : σ} (h : run step s as = some t) :
    AllSteps step P s (as ++ bs) ↔ AllSteps step P s as ∧ AllSteps step P t bs := by
  induction as generalizing s with
  | nil =>
    cases h
    exact ⟨fun hb => ⟨trivial, hb⟩, And.right⟩
  | cons a as ih =>
    obtain ⟨u, hu, hr⟩ := run_cons.1 h
    rw [List.cons_append, allSteps_cons hu, allSteps_cons hu, ih hr, and_assoc]

theorem allSteps_iff {s : σ} : AllSteps step P s as ↔
    ∀ before a after t, as = before ++ a :: after → run step s before = some t → P t a := by
  constructor
  · rintro h before a after t rfl hr
    exact ((allSteps_append hr).1 h).2.1
  · intro h
    induction as generalizing s with
    | nil => trivial
    | cons a as ih =>
      refine ⟨h [] a as s rfl rfl, ?_⟩
      intro u hu
      apply ih
      rintro before b after t rfl hr
      exact h (a :: before) b after t rfl (run_cons.2 ⟨u, hu, hr⟩)

/-- If outside `D` there is always an allowed step that lowers a measure, some run ends in `D`. -/
theorem exists_run_of_measure (I D : σ → Prop) (Φ : σ → Nat)
    (hstep : ∀ {s : σ}, I s → ¬ D s → ∃ a s', P s a ∧ step s a = some s' ∧ I s' ∧ Φ s' < Φ s)
    {s : σ} (hs : I s) : ∃ as t, run step s as = some t ∧ AllSteps step P s as ∧ D t := by
  induction hn : Φ s using Nat.strongRecOn generalizing s with
  | ind n ih =>
    by_cases hd : D s
    · exact ⟨[], s, rfl, trivial, hd⟩
    · obtain ⟨a, s', hp, ha, hi, hlt⟩ := hstep hs hd
      rw [hn] at hlt
      obtain ⟨as, t, hr, hall, ht⟩ := ih (Φ s') hlt hi rfl
      exact ⟨a :: as, t, run_cons.2 ⟨s', ha, hr⟩, (allSteps_cons ha).2 ⟨hp, hall⟩, ht⟩

theorem exists_run_of_runs (I D : σ → Prop) (Φ : σ → Nat)
    (hstep : ∀ {s : σ}, I s → ¬ D s →
      ∃ as s', run step s as = some s' ∧ AllSteps step P s as ∧ I s' ∧ Φ s' < Φ s)
    {s : σ} (hs : I s) :
    ∃ as t, run step s as = some t ∧ AllSteps step P s as ∧ I t ∧ D t := by
  induction hn : Φ s using Nat.strongRecOn generalizing s with
  | ind n ih =>
    by_cases hd : D s
    · exact ⟨[], s, rfl, trivial, hs, hd⟩
    · obtain ⟨as, s', ha, hp, hi, hlt⟩ := hstep hs hd
      rw [hn] at hlt
      obtain ⟨bs, t, hr, hall, ht⟩ := ih (Φ s') hlt hi rfl
      exact ⟨as ++ bs, t, run_append.2 ⟨s', ha, hr⟩, (allSteps_append ha).2 ⟨hp, hall⟩, ht⟩

section
variable {w : σ → α → Nat}

def cost (step : σ → α → Option σ) (w : σ → α → Nat) : σ → List α → Nat
  | _, [] => 0
  | s, a :: as => w s a + (step s a).elim 0 fun s' => cost step w s' as

theorem cost_cons {s s' : σ} (h : step s a = some s') :
    cost step w s (a :: as) = w s a + cost step w s' as := by
  rw [cost, h]
  rfl

theorem cost_append {s t : σ} (h : run step s as = some t) :
    cost step w s (as ++ bs) = cost step w s as + cost step w t bs := by
  induction as generalizing s with
  | nil =>
    cases h
    exact (Nat.zero_add _).symm
  | cons a as ih =>
    obtain ⟨u, hu, hr⟩ := run_cons.1 h
    rw [List.cons_append, cost_cons hu, cost_cons hu, ih hr, Nat.add_assoc]

theorem cost_le_potential (I : σ → Prop) (Φ : σ → Nat) {s t : σ}
    (hstep : ∀ {s s' : σ} {a : α}, I s → P s a → step s a = some s' →
      I s' ∧ w s a + Φ s' ≤ Φ s)
    (hs : I s) (hp : AllSteps step P s as) (hr : run step s as = some t) :
    cost step w s as ≤ Φ s := by
  induction as generalizing s with
  | nil => exact Nat.zero_le _
  | cons a as ih =>
    obtain ⟨u, hu, hr'⟩ := run_cons.1 hr
    obtain ⟨hi, hpay⟩ := hstep hs hp.1 hu
    have hrest := ih hi (hp.2 u hu) hr'
    rw [cost_cons hu]
    omega

variable (step P w) in
/-- Some allowed run leads from one state to another, at that cost. -/
def Leads (s : σ) (n : Nat) (t : σ) : Prop :=
  ∃ as, run step s as = some t ∧ AllSteps step P s as ∧ cost step w s as = n

theorem Leads.refl (s : σ) : Leads step P w s 0 s := ⟨[], rfl, trivial, rfl⟩

theorem Leads.single {s t : σ} (h : step s a = some t) (hp : P s a) :
    Leads step P w s (w s a) t := by
  refine ⟨[a], run_cons.2 ⟨t, h, rfl⟩, (allSteps_cons h).2 ⟨hp, trivial⟩, ?_⟩
  rw [cost_cons h, cost, Nat.add_zero]

theorem Leads.trans {s t u : σ} (h : Leads step P w s m t) (h' : Leads step P w t n u) :
    Leads step P w s (m + n) u := by
  obtain ⟨as, hr, hp, hc⟩ := h
  obtain ⟨bs, hr', hp', hc'⟩ := h'
  refine ⟨as ++ bs, run_append.2 ⟨t, hr, hr'⟩, (allSteps_append hr).2 ⟨hp, hp'⟩, ?_⟩
  rw [cost_append hr, hc, hc']

end

section
variable {ε : Type} {P : List ε → ε → Prop}

/-- Every entry of a log is allowed after the entries before it. -/
def Throughout (P : List ε → ε → Prop) (log : List ε) : Prop :=
  ∀ before e after, log = before ++ e :: after → P before e

theorem throughout_nil : Throughout P [] := by
  intro before e after h
  cases before <;> cases h

theorem Throughout.concat (h : Throughout P log) (he : P log e) : Throughout P (log ++ [e]) := by
  intro before e' after hl
  obtain rfl | ⟨after', e'', rfl⟩ := List.eq_nil_or_concat after
  · obtain ⟨rfl, he'⟩ := List.append_inj' hl rfl
    cases he'
    exact he
  · rw [List.concat_eq_append, ← List.cons_append, ← List.append_assoc] at hl
    exact h before e' after' (List.append_inj' hl rfl).1

end

end Transition
