import Octoproxy.RetryBudget

namespace Octoproxy
open TaskPool Transition
set_option autoImplicit true

inductive ClientCall where
  | resetClient
  | tryConnect
deriving DecidableEq

inductive ControlFlow where
  | continues
  | breaks
deriving DecidableEq

structure Retry (K : Type) where
  backend : Backend K
  calls : List ClientCall
  flow : ControlFlow

/-- `retry_connect`; `ok` is the outcome of the attempt, if it makes one. -/
def Backend.retryConnect (b : Backend K) (ok : Bool) : Retry K :=
  match b.getStatus with
  | .normal => ⟨b, [], .breaks⟩
  | .forceClosed => ⟨b, [], .breaks⟩
  | .closed | .unknown =>
    if b.retrying then ⟨b, [], .breaks⟩
    else
      let b := { b with retrying := true }
      let calls := [.resetClient, .tryConnect]
      if ok then
        let b := b.setStatus .normal
        ⟨{ b with retrying := false }, calls, .breaks⟩
      else
        let b := if b.getStatus ≠ .closed then b.setStatus .closed else b
        ⟨{ b with retrying := false }, calls, .continues⟩

/-- One round of the loop. While it waits for the tick, other tasks do `others` to the backend. -/
def Retry.tick (others : Backend K → Backend K) (ok : Bool) (r : Retry K) : Retry K :=
  match r.flow with
  | .breaks => r
  | .continues =>
    let next := (others r.backend).retryConnect ok
    ⟨next.backend, r.calls ++ next.calls, next.flow⟩

def retryRounds (others : Nat → Backend K → Backend K) (outcome : Nat → Bool) (b : Backend K) :
    Nat → Retry K
  | 0 => ⟨b, [], .continues⟩
  | n + 1 => (retryRounds others outcome b n).tick (others n) (outcome n)

def Backend.tries (b : Backend K) : Nat := if b.maxRetries = 0 then 2 ^ 32 - 1 else b.maxRetries

/-- A panic ends the task before its first tick. -/
def retryForever (others : Nat → Backend K → Backend K) (outcome : Nat → Bool) (b : Backend K) :
    Retry K :=
  match interval b.retryTimeout with
  | none => ⟨b, [], .breaks⟩
  | some _ => retryRounds others outcome b b.tries

def undisturbed : Nat → Backend K → Backend K := fun _ => id

def attemptCalls : Nat → List ClientCall
  | 0 => []
  | n + 1 => attemptCalls n ++ [.resetClient, .tryConnect]

/-- The first success is the attempt number `k`, counted from 1. -/
def FirstSuccess (outcome : Nat → Bool) (k : Nat) : Prop :=
  ∃ i, k = i + 1 ∧ outcome i = true ∧ ∀ j < i, outcome j = false

/-- Alone, the loop makes an attempt at every tick up to the first success or the end of its budget,
and its status tells how that went. It gives way to a task that settles the status meanwhile. -/
structure RetriesAlone (b : Backend K) (outcome : Nat → Bool) : Prop where
  attempts : ∃ n, (retryForever undisturbed outcome b).calls = attemptCalls n ∧
    (∀ k, FirstSuccess outcome k → n = min b.tries k) ∧ ((∀ i, outcome i = false) → n = b.tries)
  success : (∃ i < b.tries, outcome i = true) →
    (retryForever undisturbed outcome b).backend.getStatus = .normal
  failure : (∀ i < b.tries, outcome i = false) →
    (retryForever undisturbed outcome b).backend.getStatus = .closed
  flag : (retryForever undisturbed outcome b).backend.retrying = false
  yields : ∀ (others : Nat → Backend K → Backend K) (j : Nat), j < b.tries →
    (retryRounds others outcome b j).flow = .continues →
    ((others j (retryRounds others outcome b j).backend).getStatus = .normal ∨
      (others j (retryRounds others outcome b j).backend).getStatus = .forceClosed) →
    (retryForever others outcome b).calls = (retryRounds others outcome b j).calls ∧
      (retryForever others outcome b).backend.getStatus =
        (others j (retryRounds others outcome b j).backend).getStatus

section
variable {b : Backend K} {others : Nat → Backend K → Backend K} {outcome : Nat → Bool}

theorem Backend.tries_pos (b : Backend K) : 0 < b.tries := by
  unfold Backend.tries
  split
  · decide
  · rename_i h
    exact Nat.pos_of_ne_zero h

theorem Backend.retryConnect_needless (h : b.getStatus = .normal ∨ b.getStatus = .forceClosed)
    (ok : Bool) : b.retryConnect ok = ⟨b, [], .breaks⟩ := by
  unfold Backend.retryConnect
  obtain h | h := h <;> rw [h]

theorem Backend.retryConnect_yields (h : b.getStatus = .closed ∨ b.getStatus = .unknown)
    (hf : b.retrying = true) (ok : Bool) : b.retryConnect ok = ⟨b, [], .breaks⟩ := by
  unfold Backend.retryConnect
  obtain h | h := h <;> simp only [h, hf, if_true]

theorem Backend.down_of_needed (h : ¬ (b.getStatus = .normal ∨ b.getStatus = .forceClosed)) :
    b.getStatus = .closed ∨ b.getStatus = .unknown := by
  cases hst : b.getStatus with
  | normal => exact absurd (.inl hst) h
  | forceClosed => exact absurd (.inr hst) h
  | closed => exact .inl rfl
  | unknown => exact .inr rfl

/-- A backend that is down and not being retried gets one attempt, and its status tells how that
went. -/
theorem Backend.retryConnect_down (h : b.getStatus = .closed ∨ b.getStatus = .unknown)
    (hf : b.retrying = false) (ok : Bool) :
    b.retryConnect ok = ⟨b.setStatus (if ok then .normal else .closed),
      [.resetClient, .tryConnect], if ok then .breaks else .continues⟩ := by
  have hclosed : (if ({ b with retrying := true } : Backend K).getStatus ≠ .closed then
      ({ b with retrying := true } : Backend K).setStatus .closed
      else { b with retrying := true }) =
        ({ b with retrying := true } : Backend K).setStatus .closed := by
    split
    · rfl
    · rename_i hc
      exact (Backend.setStatus_self (not_not.1 hc)).symm
  unfold Backend.retryConnect
  obtain h | h := h <;> cases ok <;>
    simp only [h, hf, Bool.false_eq_true, if_false, if_true, hclosed,
      Backend.setStatus_retried hf]

theorem Retry.tick_breaks {r : Retry K} (h : r.flow = .breaks) (others : Backend K → Backend K)
    (ok : Bool) : r.tick others ok = r := by
  rw [Retry.tick, h]

theorem retryRounds_breaks (h : (retryRounds others outcome b m).flow = .breaks) (hle : m ≤ n) :
    retryRounds others outcome b n = retryRounds others outcome b m := by
  induction n, hle using Nat.le_induction with
  | base => rfl
  | succ n _ ih => rw [retryRounds, Retry.tick_breaks (by rw [ih, h]), ih]

def failedRounds (b : Backend K) (n : Nat) : Retry K :=
  ⟨if n = 0 then b else b.setStatus .closed, attemptCalls n, .continues⟩

theorem tick_failedRounds (hs : b.getStatus = .closed ∨ b.getStatus = .unknown)
    (hf : b.retrying = false) (n : Nat) (ok : Bool) :
    (failedRounds b n).tick id ok = ⟨b.setStatus (if ok then .normal else .closed),
      attemptCalls (n + 1), if ok then .breaks else .continues⟩ := by
  have hdown : (failedRounds b n).backend.getStatus = .closed ∨
      (failedRounds b n).backend.getStatus = .unknown := by
    unfold failedRounds
    split
    · exact hs
    · exact .inl rfl
  have hflag : (failedRounds b n).backend.retrying = false := by
    unfold failedRounds
    split <;> exact hf
  have hset (st : BackendStatus) : (failedRounds b n).backend.setStatus st = b.setStatus st := by
    unfold failedRounds
    split <;> rfl
  have hround := Backend.retryConnect_down hdown hflag ok
  rw [hset] at hround
  rw [Retry.tick.eq_def]
  simp only [failedRounds, id] at hround ⊢
  rw [hround]
  rfl

theorem retryRounds_failing (hs : b.getStatus = .closed ∨ b.getStatus = .unknown)
    (hf : b.retrying = false) (h : ∀ i < n, outcome i = false) :
    retryRounds undisturbed outcome b n = failedRounds b n := by
  induction n with
  | zero => rfl
  | succ n ih =>
    rw [retryRounds, ih fun i hi => h i (Nat.lt_succ_of_lt hi), undisturbed,
      tick_failedRounds hs hf, h n (Nat.lt_succ_self n)]
    rfl

theorem retryRounds_success (hs : b.getStatus = .closed ∨ b.getStatus = .unknown)
    (hf : b.retrying = false) (h : ∀ j < i, outcome j = false) (hi : outcome i = true)
    (hlt : i < n) :
    retryRounds undisturbed outcome b n = ⟨b.setStatus .normal, attemptCalls (i + 1), .breaks⟩ := by
  have hround : retryRounds undisturbed outcome b (i + 1) =
      ⟨b.setStatus .normal, attemptCalls (i + 1), .breaks⟩ := by
    rw [retryRounds, retryRounds_failing hs hf h, undisturbed, tick_failedRounds hs hf, hi]
    rfl
  rw [retryRounds_breaks (by rw [hround]) hlt, hround]

/-- Another task's success, or a request to keep the backend closed, ends the loop at the next
tick. -/
theorem retryRounds_needless (hgo : (retryRounds others outcome b j).flow = .continues)
    (hs : (others j (retryRounds others outcome b j).backend).getStatus = .normal ∨
      (others j (retryRounds others outcome b j).backend).getStatus = .forceClosed)
    (hlt : j < n) :
    retryRounds others outcome b n = ⟨others j (retryRounds others outcome b j).backend,
      (retryRounds others outcome b j).calls, .breaks⟩ := by
  have hround : retryRounds others outcome b (j + 1) =
      ⟨others j (retryRounds others outcome b j).backend,
        (retryRounds others outcome b j).calls, .breaks⟩ := by
    rw [retryRounds, Retry.tick, hgo]
    simp only [Backend.retryConnect_needless hs, List.append_nil]
  rw [retryRounds_breaks (by rw [hround]) hlt, hround]

theorem retryForever_eq (hint : b.retryTimeout ≠ 0) :
    retryForever others outcome b = retryRounds others outcome b b.tries := by
  simp only [retryForever, interval, if_neg hint]

theorem retryForever_needless (hint : b.retryTimeout ≠ 0)
    (hgo : (retryRounds others outcome b j).flow = .continues)
    (hs : (others j (retryRounds others outcome b j).backend).getStatus = .normal ∨
      (others j (retryRounds others outcome b j).backend).getStatus = .forceClosed)
    (hlt : j < b.tries) :
    (retryForever others outcome b).calls = (retryRounds others outcome b j).calls ∧
      (retryForever others outcome b).backend.getStatus =
        (others j (retryRounds others outcome b j).backend).getStatus := by
  rw [retryForever_eq hint, retryRounds_needless hgo hs hlt]
  exact ⟨rfl, rfl⟩

theorem FirstSuccess.of_exists (h : ∃ i, outcome i = true) :
    ∃ i, outcome i = true ∧ ∀ j < i, outcome j = false := by
  classical
  refine ⟨Nat.find h, Nat.find_spec h, ?_⟩
  intro j hj
  exact Bool.eq_false_of_not_eq_true (Nat.find_min h hj)

theorem FirstSuccess.eq (h : FirstSuccess outcome k) (hi : outcome i = true)
    (hlt : ∀ j < i, outcome j = false) : k = i + 1 := by
  obtain ⟨i', rfl, hi', hlt'⟩ := h
  obtain hj | rfl | hj := Nat.lt_trichotomy i i'
  · cases hi.symm.trans (hlt' i hj)
  · rfl
  · cases hi'.symm.trans (hlt i' hj)

/-- The budget runs to the end, or up to the first success in it. -/
theorem retriesAlone_of_interval (hs : b.getStatus = .closed ∨ b.getStatus = .unknown)
    (hf : b.retrying = false) (hint : b.retryTimeout ≠ 0) : RetriesAlone b outcome := by
  have hyields : ∀ (others : Nat → Backend K → Backend K) (j : Nat), j < b.tries →
      (retryRounds others outcome b j).flow = .continues → _ → _ :=
    fun others j hj hgo hst => retryForever_needless hint hgo hst hj
  by_cases hex : ∃ i < b.tries, outcome i = true
  · obtain ⟨i', hlt', hi'⟩ := hex
    obtain ⟨i, hi, hbefore⟩ := FirstSuccess.of_exists ⟨i', hi'⟩
    have hlt : i < b.tries := by
      by_contra hge
      cases hi'.symm.trans (hbefore i' (by omega))
    have hrun : retryForever undisturbed outcome b =
        ⟨b.setStatus .normal, attemptCalls (i + 1), .breaks⟩ :=
      (retryForever_eq hint).trans (retryRounds_success hs hf hbefore hi hlt)
    refine ⟨⟨i + 1, by rw [hrun], ?_, ?_⟩, fun _ => by rw [hrun]; rfl, ?_, by rw [hrun]; exact hf,
      hyields⟩
    · intro k hk
      rw [hk.eq hi hbefore]
      omega
    · intro hnone
      cases hi.symm.trans (hnone i)
    · intro hnone
      cases hi.symm.trans (hnone i hlt)
  · have hnone : ∀ i < b.tries, outcome i = false := by
      intro i hi
      exact Bool.eq_false_of_not_eq_true fun ht => hex ⟨i, hi, ht⟩
    have hrun : retryForever undisturbed outcome b =
        ⟨b.setStatus .closed, attemptCalls b.tries, .continues⟩ := by
      rw [retryForever_eq hint, retryRounds_failing hs hf hnone, failedRounds,
        if_neg (Nat.ne_of_gt b.tries_pos)]
    refine ⟨⟨b.tries, by rw [hrun], ?_, fun _ => rfl⟩, fun h => absurd h hex,
      fun _ => by rw [hrun]; rfl, by rw [hrun]; exact hf, hyields⟩
    rintro k ⟨i, rfl, hi, -⟩
    have hge : b.tries ≤ i := Nat.le_of_not_lt fun hlt => hex ⟨i, hlt, hi⟩
    omega

theorem interval_of_retriesAlone (h : RetriesAlone b outcome) : b.retryTimeout ≠ 0 := by
  intro hint
  have hcalls : (retryForever undisturbed outcome b).calls = [] := by
    simp only [retryForever, interval, if_pos hint]
  obtain ⟨n, hn, hsome, hnone⟩ := h.attempts
  have hzero : n = 0 := by
    cases n with
    | zero => rfl
    | succ n =>
      rw [hcalls] at hn
      exact absurd hn.symm (List.append_ne_nil_of_right_ne_nil _ (List.cons_ne_nil _ _))
  have hpos := b.tries_pos
  by_cases hex : ∃ i, outcome i = true
  · obtain ⟨i, hi, hbefore⟩ := FirstSuccess.of_exists hex
    have hmin := hsome (i + 1) ⟨i, rfl, hi, hbefore⟩
    omega
  · have hall := hnone fun i => Bool.eq_false_of_not_eq_true fun ht => hex ⟨i, ht⟩
    omega

/-- A retry task that is alone retries as it should exactly when its interval is not zero. -/
theorem retries_alone_iff (b : Backend K) (hs : b.getStatus = .closed ∨ b.getStatus = .unknown)
    (hf : b.retrying = false) (outcome : Nat → Bool) :
    RetriesAlone b outcome ↔ b.retryTimeout ≠ 0 :=
  ⟨interval_of_retriesAlone, retriesAlone_of_interval hs hf⟩

end

/-- Without a limit the loop makes two attempts when the first fails and the second succeeds. -/
theorem retries_alone_second_attempt :
    (plainBackend.setStatus .unknown).getStatus = .unknown ∧
      (retryForever undisturbed (fun i => i == 1) (plainBackend.setStatus .unknown)).calls =
        [.resetClient, .tryConnect, .resetClient, .tryConnect] ∧
      (retryForever undisturbed (fun i => i == 1)
        (plainBackend.setStatus .unknown)).backend.getStatus = .normal := by
  have hfirst : FirstSuccess (fun i => i == 1) 2 := by
    refine ⟨1, rfl, rfl, ?_⟩
    intro j hj
    rw [Nat.lt_one_iff.1 hj]
    rfl
  obtain ⟨⟨n, hcalls, hn, -⟩, hnormal, -⟩ :=
    (retries_alone_iff (plainBackend.setStatus .unknown) (.inr rfl) rfl fun i => i == 1).2 nofun
  rw [hcalls, hn 2 hfirst]
  exact ⟨rfl, rfl, hnormal ⟨1, by decide, rfl⟩⟩

/-- A closed backend that is to be retried every 0 seconds is not retried at all. -/
theorem zero_interval_not_retried :
    ¬ ∀ b : Backend ℚ, b.getStatus = .closed ∨ b.getStatus = .unknown → b.retrying = false →
      ∀ outcome, RetriesAlone b outcome := by
  intro h
  have hcalls := (h ({ plainBackend with retryTimeout := 0 }.setStatus .closed) (.inl rfl) rfl
    fun _ => true).success ⟨0, by decide, rfl⟩
  cases hcalls

section
variable {forever : Option Nat} {b b' : Backend K} {t : Task}

def Solo (forever : Option Nat) : Pool (Backend K) Task → Nat → Pool (Backend K) Task → Prop :=
  AttemptsBy forever fun _ _ => True

theorem always_allows (forever : Option Nat) :
    Allows (K := K) forever (fun _ _ => True) fun _ => True :=
  fun _ _ _ _ _ _ => trivial

theorem retryForever_calm (pc : RetryPc) :
    ∀ u ∈ [Task.retryForever pc], u.isRequest = false := by
  intro u hu
  rw [List.mem_singleton.1 hu]
  rfl

theorem solo_move (hm : ∀ w, (Task.retryForever pc).move forever b true w o = some ⟨b', t, []⟩) :
    Solo forever ⟨b, [.retryForever pc]⟩ (Task.retryForever pc).retryAttempts ⟨b', [t]⟩ :=
  leads_move (i := 0) (always_allows forever) (retryForever_calm pc) Nat.zero_lt_one rfl trivial hm

def ControlFlow.task (n : Nat) : ControlFlow → Task
  | .continues => .retryForever (.ticking (some n))
  | .breaks => .finished

theorem solo_succeed (hf : b.retrying = false) :
    Solo forever ⟨{ b with retrying := true }, [.retryForever (.attempting left client)]⟩ 0
      ⟨b.setStatus .normal, [.finished]⟩ := by
  have hok : Solo forever
      ⟨{ b with retrying := true }, [.retryForever (.attempting left client)]⟩ 0
      ⟨{ b with retrying := true }, [.retryForever .succeeded]⟩ :=
    solo_move (o := .ok) fun _ => rfl
  have hset : Solo forever ⟨{ b with retrying := true }, [.retryForever .succeeded]⟩ 0
      ⟨({ b with retrying := true } : Backend K).setStatus .normal, [.retryForever .recovered]⟩ :=
    solo_move (o := .ok) fun _ => rfl
  have hclear : Solo forever ⟨({ b with retrying := true } : Backend K).setStatus .normal,
      [.retryForever .recovered]⟩ 0 ⟨b.setStatus .normal, [.finished]⟩ := by
    apply solo_move (o := .ok)
    intro w
    rw [← Backend.setStatus_retried hf]
    rfl
  exact hok.trans (hset.trans hclear)

theorem solo_round (forever : Option Nat) (b : Backend K) (n : Nat) (ok : Bool) :
    Solo forever ⟨b, [.retryForever (.ticking (some (n + 1)))]⟩
      ((b.retryConnect ok).calls.count .tryConnect)
      ⟨(b.retryConnect ok).backend, [(b.retryConnect ok).flow.task n]⟩ := by
  have htick : Solo forever ⟨b, [.retryForever (.ticking (some (n + 1)))]⟩ 0
      ⟨b, [.retryForever (.checking (some (n + 1)))]⟩ :=
    solo_move (o := .ok) fun _ => rfl
  by_cases hneed : b.getStatus = .normal ∨ b.getStatus = .forceClosed
  · have hend : Solo forever ⟨b, [.retryForever (.checking (some (n + 1)))]⟩ 0
        ⟨b, [.finished]⟩ := by
      apply solo_move (o := .ok)
      intro w
      obtain h | h := hneed <;> simp only [Task.move, Backend.retryForever, h]
    rw [Backend.retryConnect_needless hneed]
    exact htick.trans hend
  have hdown := Backend.down_of_needed hneed
  cases hf : b.retrying with
  | true =>
    have hcheck : Solo forever ⟨b, [.retryForever (.checking (some (n + 1)))]⟩ 0
        ⟨b, [.retryForever (.flagging (some (n + 1)))]⟩ := by
      apply solo_move (o := .ok)
      intro w
      obtain h | h := hdown <;> simp only [Task.move, Backend.retryForever, h]
    have hyield : Solo forever ⟨b, [.retryForever (.flagging (some (n + 1)))]⟩ 0
        ⟨b, [.finished]⟩ := by
      apply solo_move (o := .ok)
      intro w
      simp only [Task.move, Backend.retryForever, hf, if_true]
    rw [Backend.retryConnect_yields hdown hf]
    exact htick.trans (hcheck.trans hyield)
  | false =>
    have hcalm := retryForever_calm (.ticking (some (n + 1)))
    have hattempt : Solo forever ⟨b, [.retryForever (.ticking (some (n + 1)))]⟩ 1
        ⟨{ b with retrying := true }, [.retryForever (.attempting (some (n + 1)) b.client)]⟩ :=
      leads_attempt (i := 0) (always_allows forever) hcalm Nat.zero_lt_one hdown hf trivial trivial
        n
    have hmiss : Solo forever
        ⟨{ b with retrying := true }, [.retryForever (.attempting (some (n + 1)) b.client)]⟩ 0
        ⟨b.setStatus .closed, [.retryForever (.ticking (some n))]⟩ :=
      leads_miss (i := 0) (always_allows forever) hcalm Nat.zero_lt_one hf trivial trivial trivial
        b.client n
    rw [Backend.retryConnect_down hdown hf]
    cases ok with
    | true => exact hattempt.trans (solo_succeed hf)
    | false => exact hattempt.trans hmiss

theorem solo_rounds (forever : Option Nat) (b : Backend K) (outcome : Nat → Bool) (hle : m ≤ n) :
    Solo forever ⟨b, [.retryForever (.ticking (some n))]⟩
      ((retryRounds undisturbed outcome b m).calls.count .tryConnect)
      ⟨(retryRounds undisturbed outcome b m).backend,
        [(retryRounds undisturbed outcome b m).flow.task (n - m)]⟩ := by
  induction m with
  | zero => exact Leads.refl _
  | succ m ih =>
    have hm := ih (Nat.le_of_succ_le hle)
    rw [retryRounds]
    cases hflow : (retryRounds undisturbed outcome b m).flow with
    | breaks =>
      rw [hflow] at hm
      rw [Retry.tick_breaks hflow, hflow]
      exact hm
    | continues =>
      have hsub : n - m = (n - (m + 1)) + 1 := by omega
      rw [hflow, hsub] at hm
      have hround := hm.trans (solo_round forever (retryRounds undisturbed outcome b m).backend
        (n - (m + 1)) (outcome m))
      rw [← List.count_append] at hround
      rw [Retry.tick, hflow]
      exact hround

/-- A retry task that is alone in the pool does what the loop does, attempt by attempt. -/
theorem solo_retryForever (b : Backend K) (outcome : Nat → Bool) :
    Solo (some (2 ^ 32 - 1)) ⟨b, [.retryForever .starting]⟩
      ((retryForever undisturbed outcome b).calls.count .tryConnect)
      ⟨(retryForever undisturbed outcome b).backend, [.finished]⟩ := by
  have hbudget : b.budget (some (2 ^ 32 - 1)) = some b.tries := by
    unfold Backend.budget Backend.tries
    split <;> rfl
  by_cases hint : b.retryTimeout = 0
  · have hpanic : Solo (some (2 ^ 32 - 1)) ⟨b, [.retryForever .starting]⟩ 0 ⟨b, [.finished]⟩ := by
      apply solo_move (o := .ok)
      intro w
      simp only [Task.move, Backend.retryForever, interval, if_pos hint, waitFor, if_true]
    simp only [retryForever, interval, if_pos hint]
    exact hpanic
  have hstart : Solo (some (2 ^ 32 - 1)) ⟨b, [.retryForever .starting]⟩ 0
      ⟨b, [.retryForever (.ticking (some b.tries))]⟩ := by
    apply solo_move (o := .ok)
    intro w
    simp only [Task.move, Backend.retryForever, interval, if_neg hint, waitFor, if_true, hbudget]
  have hrounds := hstart.trans (solo_rounds (some (2 ^ 32 - 1)) b outcome (Nat.le_refl b.tries))
  rw [Nat.zero_add, Nat.sub_self] at hrounds
  rw [retryForever_eq hint]
  cases hflow : (retryRounds undisturbed outcome b b.tries).flow with
  | breaks =>
    rw [hflow] at hrounds
    exact hrounds
  | continues =>
    rw [hflow] at hrounds
    exact hrounds.trans (solo_move (o := .ok) fun _ => rfl)

end

end Octoproxy
