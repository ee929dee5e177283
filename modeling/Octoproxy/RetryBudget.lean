import Octoproxy.Recovery

namespace Octoproxy
open TaskPool Transition
set_option autoImplicit true

def Task.retryAttempts : Task → Nat
  | .retryForever (.resetting _) => 1
  | _ => 0

/-- A connection that is in flight on the backend: it has chosen it, and may still fail and spawn
a retry task. -/
def Task.mayFail : Task → Bool
  | .handleConnection _ .selected => true
  | .handleConnection _ (.attempting _) => true
  | .handleConnection _ .failed => true
  | .handleConnection _ .marked => true
  | _ => false

def Request.isConnection : Request → Bool
  | .connect _ => true
  | _ => false

def retryAttempts (p : Pool (Backend K) Task) : Act Request Outcome → Nat
  | .enter _ => 0
  | .run i _ => p.tasks[i]?.elim 0 Task.retryAttempts

/-- The action belongs to the outage: no admin request, and no return to `Normal`. -/
def Outlasts (forever : Option Nat) (p : Pool (Backend K) Task) (a : Act Request Outcome) : Prop :=
  (∀ r, a = .enter r → r.isConnection = true) ∧
    ∀ p', (backendTasks K forever).step p a = some p' → p'.state.getStatus ≠ .normal

instance (forever : Option Nat) (p : Pool (Backend K) Task) (a : Act Request Outcome) :
    Decidable (Outlasts forever p a) :=
  have : Decidable (∀ r, a = .enter r → r.isConnection = true) :=
    match a with
    | .enter r => decidable_of_iff (r.isConnection = true)
        ⟨by rintro h _ ⟨⟩; exact h, fun h => h r rfl⟩
    | .run _ _ => isTrue nofun
  have : Decidable (∀ p' ∈ (backendTasks K forever).step p a, p'.state.getStatus ≠ .normal) :=
    inferInstance
  inferInstanceAs (Decidable (_ ∧ _))

/-- In every run of the outage the retry tasks together make at most `max_retries` attempts. -/
def WithinBudget (forever : Option Nat) (p : Pool (Backend K) Task) : Prop :=
  ∀ acts p', run (backendTasks K forever).step p acts = some p' →
    AllSteps (backendTasks K forever).step (Outlasts forever) p acts →
    cost (backendTasks K forever).step retryAttempts p acts ≤ p.state.maxRetries

/-- A backend that has failed: it is closed, no admin request is in progress, and no retry task
has been spawned yet. -/
structure Failed [NatCast K] (forever : Option Nat) (p : Pool (Backend K) Task) : Prop where
  reachable : Reachable forever p
  closed : p.state.getStatus = .closed
  alone : ∀ u ∈ p.tasks, u.isRequest = false ∧ u.retries = false

def Backend.worth (b : Backend K) : Nat := if b.retryTimeout = 0 then 0 else b.maxRetries

/-- The attempts that a task, and those it may spawn, can still make. -/
def Task.potential (limit : Nat) : Task → Nat
  | .handleConnection _ .selected => limit
  | .handleConnection _ (.attempting _) => limit
  | .handleConnection _ .failed => limit
  | .handleConnection _ .marked => limit
  | .retryForever .starting => limit
  | .retryForever (.ticking left) => left.getD 0
  | .retryForever (.checking left) => left.getD 0
  | .retryForever (.flagging left) => left.getD 0
  | .retryForever (.storing left) => left.getD 0
  | .retryForever (.resetting left) => left.getD 0
  | .retryForever (.attempting left _) => left.getD 0 - 1
  | .retryForever (.failed left) => left.getD 0 - 1
  | .retryForever (.remarking left) => left.getD 0 - 1
  | .retryForever (.missed left) => left.getD 0 - 1
  | _ => 0

def Task.budgeted : Task → Bool
  | .retryForever (.ticking left) => left.isSome
  | .retryForever (.checking left) => 0 < left.getD 0
  | .retryForever (.flagging left) => 0 < left.getD 0
  | .retryForever (.storing left) => 0 < left.getD 0
  | .retryForever (.resetting left) => 0 < left.getD 0
  | .retryForever (.attempting left _) => 0 < left.getD 0
  | .retryForever (.failed left) => 0 < left.getD 0
  | .retryForever (.remarking left) => 0 < left.getD 0
  | .retryForever (.missed left) => 0 < left.getD 0
  | _ => true

section
variable {t : Task} {b : Backend K}

theorem Backend.ne_normal_of_closed (hc : b.getStatus = .closed) : b.getStatus ≠ .normal := by
  rw [hc]
  exact nofun

theorem Backend.budget_pos (hb : 0 < b.maxRetries) : b.budget forever = some b.maxRetries :=
  if_neg (Nat.ne_of_gt hb)

theorem Backend.worth_pos (hi : b.retryTimeout ≠ 0) : b.worth = b.maxRetries := if_neg hi

theorem Task.Step.isRequest (h : t.Step forever b readable writable m)
    (ht : t.isRequest = false) : m.task.isRequest = false := by
  cases h <;> first | rfl | cases ht

theorem Task.Step.budgeted (h : t.Step forever b readable writable m) (hb : 0 < b.maxRetries)
    (ht : t.budgeted = true) : m.task.budgeted = true := by
  cases h with
  | retryStart _ _ => simp only [Task.budgeted, Backend.budget_pos hb, Option.isSome_some]
  | retryTick hfree hl =>
    rename_i left
    cases left with
    | none => cases ht
    | some n =>
      have hn : n ≠ 0 := fun h0 => hl (congrArg some h0)
      simpa only [Task.budgeted, Option.getD_some, decide_eq_true_eq] using Nat.pos_of_ne_zero hn
  | retryMiss =>
    rename_i left
    cases left with
    | none => cases ht
    | some n => rfl
  | _ => first | rfl | exact ht

theorem Task.Step.worth (h : t.Step forever b readable writable m) :
    m.state.worth = b.worth := by
  simp only [Backend.worth, h.retryTimeout, h.maxRetries]

theorem Task.Step.pays (h : t.Step forever b readable writable m) (hb : 0 < b.maxRetries)
    (hs : b.getStatus ≠ .normal) (hreq : t.isRequest = false) (ht : t.budgeted = true) :
    t.retryAttempts + m.task.potential b.worth + total (Task.potential b.worth) m.spawned ≤
      t.potential b.worth := by
  cases h with
  | select hn => exact absurd hn hs
  | spawnRetry => simp [Task.retryAttempts, Task.potential, total]
  | retryStart _ hi =>
    simp [Task.retryAttempts, Task.potential, Backend.budget_pos hb, Backend.worth_pos hi, total]
  | retryAttempt =>
    simp only [Task.budgeted, decide_eq_true_eq] at ht
    simp only [Task.retryAttempts, Task.potential, total]
    omega
  | retryMiss =>
    rename_i left
    cases left <;> simp [Task.retryAttempts, Task.potential, total]
  | statusSpawn => cases hreq
  | _ => simp [Task.retryAttempts, Task.potential, total]

end

/-- Every task of the outage is bounded, and none is an admin request. -/
structure Bounded (limit : Nat) (p : Pool (Backend K) Task) : Prop where
  maxRetries : 0 < p.state.maxRetries
  worth : p.state.worth = limit
  down : p.state.getStatus ≠ .normal
  tasks : ∀ u ∈ p.tasks, u.isRequest = false ∧ u.budgeted = true

theorem Bounded.step {limit : Nat} {p p' : Pool (Backend K) Task} (h : Bounded limit p)
    (ho : Outlasts forever p a) (hs : (backendTasks K forever).step p a = some p') :
    Bounded limit p' ∧
      retryAttempts p a + total (Task.potential limit) p'.tasks ≤
        total (Task.potential limit) p.tasks := by
  obtain ⟨hpos, hm, hd, ht⟩ := h
  cases a with
  | enter r =>
    have hr := ho.1 r rfl
    cases hs
    cases r with
    | connect named =>
      refine ⟨⟨hpos, hm, hd, forall_spawn ht ⟨rfl, rfl⟩⟩, ?_⟩
      rw [total_spawn]
      simp [retryAttempts, backendTasks, Request.task, Task.potential]
    | _ => cases hr
  | run i o =>
    have hd' := ho.2 p' hs
    obtain ⟨t, m, hti, hstep, rfl⟩ := step_task hs
    obtain ⟨hreq, hbud⟩ := ht t (List.mem_of_getElem? hti)
    refine ⟨⟨?_, hstep.worth.trans hm, hd', ?_⟩, ?_⟩
    · exact Nat.lt_of_lt_of_eq hpos hstep.maxRetries.symm
    · refine forall_advance hti ht (fun _ => ⟨hstep.isRequest hreq, hstep.budgeted hpos hbud⟩) ?_
      intro u hu
      rw [hstep.spawned hu]
      exact ⟨rfl, rfl⟩
    · have hpays := hstep.pays hpos hd hreq hbud
      have htotal := total_advance (m := m) (Task.potential limit) hti
      rw [hm] at hpays
      simp only [retryAttempts, hti, Option.elim_some]
      omega

/-- Before any retry task has been spawned, the connections in flight hold the whole potential. -/
theorem total_potential (limit : Nat) {ts : List Task}
    (h : ∀ u ∈ ts, u.isRequest = false ∧ u.retries = false) :
    total (Task.potential limit) ts = limit * ts.countP Task.mayFail := by
  induction ts with
  | nil => rfl
  | cons t ts ih =>
    have ht : t.potential limit = if t.mayFail then limit else 0 := by
      obtain ⟨hreq, hret⟩ := h t List.mem_cons_self
      cases t with
      | handleConnection named pc => cases pc <;> rfl
      | retryForever pc => cases hret
      | finished => rfl
      | _ => cases hreq
    rw [total, ih fun u hu => h u (List.mem_cons_of_mem t hu), ht, List.countP_cons, Nat.mul_add]
    split <;> simp [Nat.add_comm]

/-- A retry task that panics makes no attempt. -/
theorem worth_mul_le {b : Backend K} (h : b.retryTimeout = 0 ∨ n ≤ 1) :
    b.worth * n ≤ b.maxRetries := by
  unfold Backend.worth
  obtain h | h := h
  · rw [if_pos h, Nat.zero_mul]
    exact Nat.zero_le _
  · split
    · rw [Nat.zero_mul]
      exact Nat.zero_le _
    · exact (Nat.mul_le_mul_left b.maxRetries h).trans_eq (Nat.mul_one _)

theorem withinBudget_of_few [NatCast K] {p : Pool (Backend K) Task} (h : Failed forever p)
    (hpos : 0 < p.state.maxRetries)
    (hfew : p.state.retryTimeout = 0 ∨ p.tasks.countP Task.mayFail ≤ 1) :
    WithinBudget forever p := by
  intro acts p' hr ho
  have hb : Bounded p.state.worth p := by
    refine ⟨hpos, rfl, Backend.ne_normal_of_closed h.closed, ?_⟩
    intro u hu
    obtain ⟨hreq, hret⟩ := h.alone u hu
    refine ⟨hreq, ?_⟩
    cases u with
    | retryForever pc => cases hret
    | _ => rfl
  have hcost := cost_le_potential (Bounded p.state.worth)
    (fun q => total (Task.potential p.state.worth) q.tasks) (fun hi hp hs => hi.step hp hs) hb ho hr
  have htotal := total_potential p.state.worth h.alone
  exact Nat.le_trans hcost (htotal.trans_le (worth_mul_le hfew))

section
variable {forever : Option Nat} {b b' : Backend K} {ts : List Task} {t t' : Task}

def Attempts (forever : Option Nat) :
    Pool (Backend K) Task → Nat → Pool (Backend K) Task → Prop :=
  Leads (backendTasks K forever).step (Outlasts forever) retryAttempts

theorem Task.hold_ne_write (h : t.isRequest = false) : t.hold ≠ .write := by
  cases t with
  | handleConnection named pc => cases pc <;> exact nofun
  | retryForever pc => cases pc <;> exact nofun
  | finished => exact nofun
  | _ => cases h

theorem readable_of_calm {p : Pool (Backend K) Task} (h : ∀ u ∈ p.tasks, u.isRequest = false) :
    (backendTasks K forever).readable p = true :=
  Program.readable_of fun u hu => Task.hold_ne_write (h u hu)

theorem forall_set {Q : Task → Prop} (h : ∀ u ∈ ts, Q u) (ht : Q t) : ∀ u ∈ ts.set i t, Q u := by
  intro u hu
  obtain hu | rfl := List.mem_or_eq_of_mem_set hu
  · exact h u hu
  · exact ht

/-- While no request is in progress, a task can take its step as if it were alone. -/
theorem step_calm (hts : ∀ u ∈ ts, u.isRequest = false) (hi : i < ts.length)
    (ht : t.isRequest = false) (hm : ∀ w, t.move forever b true w o = some ⟨b', t', sp⟩) :
    (backendTasks K forever).step ⟨b, ts.set i t⟩ (.run i o) =
      some ⟨b', ts.set i t' ++ sp⟩ := by
  have hget : (ts.set i t)[i]? = some t := List.getElem?_set_self hi
  have hfree : (backendTasks K forever).readable ⟨b, ts.set i t⟩ = true :=
    readable_of_calm (forall_set hts ht)
  have hmove : (backendTasks K forever).move b
      ((backendTasks K forever).readable ⟨b, ts.set i t⟩)
      ((backendTasks K forever).writable ⟨b, ts.set i t⟩) t o = some ⟨b', t', sp⟩ := by
    rw [hfree]
    exact hm _
  rw [Program.step_of_move hget hmove, Pool.advance, List.set_set]

def AttemptsBy (forever : Option Nat) (P : Pool (Backend K) Task → Act Request Outcome → Prop) :
    Pool (Backend K) Task → Nat → Pool (Backend K) Task → Prop :=
  Leads (backendTasks K forever).step P retryAttempts

def Allows (forever : Option Nat) (P : Pool (Backend K) Task → Act Request Outcome → Prop)
    (Q : Backend K → Prop) : Prop :=
  ∀ p i o p', (backendTasks K forever).step p (.run i o) = some p' → Q p'.state → P p (.run i o)

theorem outlasts_allows (forever : Option Nat) :
    Allows (K := K) forever (Outlasts forever) fun b => b.getStatus ≠ .normal := by
  intro p i o p' hstep hs
  refine ⟨nofun, ?_⟩
  intro p'' hp''
  cases hstep.symm.trans hp''
  exact hs

section
variable {P : Pool (Backend K) Task → Act Request Outcome → Prop} {Q : Backend K → Prop}

theorem leads_solo (hP : Allows forever P Q) (hts : ∀ u ∈ ts, u.isRequest = false)
    (hi : i < ts.length) (ht : t.isRequest = false) (hq : Q b')
    (hm : ∀ w, t.move forever b true w o = some ⟨b', t', sp⟩) :
    AttemptsBy forever P ⟨b, ts.set i t⟩ t.retryAttempts ⟨b', ts.set i t' ++ sp⟩ := by
  have hget : (ts.set i t)[i]? = some t := List.getElem?_set_self hi
  have hstep := step_calm hts hi ht hm
  have hlead := Leads.single (w := retryAttempts) hstep (hP _ _ _ _ hstep hq)
  simp only [retryAttempts, hget, Option.elim_some] at hlead
  exact hlead

theorem leads_move (hP : Allows forever P Q) (hts : ∀ u ∈ ts, u.isRequest = false)
    (hi : i < ts.length) (ht : t.isRequest = false) (hq : Q b')
    (hm : ∀ w, t.move forever b true w o = some ⟨b', t', []⟩) :
    AttemptsBy forever P ⟨b, ts.set i t⟩ t.retryAttempts ⟨b', ts.set i t'⟩ := by
  have hlead := leads_solo hP hts hi ht hq hm
  rwa [List.append_nil] at hlead

theorem Backend.setStatus_self (h : b.getStatus = st) : b.setStatus st = b := by
  subst h
  rfl

theorem Backend.clear_flag (h : b.retrying = false) : { b with retrying := false } = b := by
  rw [← h]

theorem Backend.setStatus_retried (hf : b.retrying = false) (st : BackendStatus) :
    { ({ b with retrying := true } : Backend K).setStatus st with retrying := false } =
      b.setStatus st :=
  Backend.clear_flag (b := b.setStatus st) hf

theorem leads_attempt (hP : Allows forever P Q) (hts : ∀ u ∈ ts, u.isRequest = false)
    (hi : i < ts.length) (hdown : b.getStatus = .closed ∨ b.getStatus = .unknown)
    (hf : b.retrying = false) (hq : Q b) (hq' : Q { b with retrying := true }) (n : Nat) :
    AttemptsBy forever P ⟨b, ts.set i (.retryForever (.ticking (some (n + 1))))⟩ 1
      ⟨{ b with retrying := true },
        ts.set i (.retryForever (.attempting (some (n + 1)) b.client))⟩ := by
  have htick : AttemptsBy forever P ⟨b, ts.set i (.retryForever (.ticking (some (n + 1))))⟩ 0
      ⟨b, ts.set i (.retryForever (.checking (some (n + 1))))⟩ :=
    leads_move (o := .ok) hP hts hi rfl hq fun _ => rfl
  have hcheck : AttemptsBy forever P ⟨b, ts.set i (.retryForever (.checking (some (n + 1))))⟩ 0
      ⟨b, ts.set i (.retryForever (.flagging (some (n + 1))))⟩ := by
    apply leads_move (o := .ok) hP hts hi rfl hq
    intro w
    obtain h | h := hdown <;> simp only [Task.move, Backend.retryForever, h]
  have hflag : AttemptsBy forever P ⟨b, ts.set i (.retryForever (.flagging (some (n + 1))))⟩ 0
      ⟨b, ts.set i (.retryForever (.storing (some (n + 1))))⟩ := by
    apply leads_move (o := .ok) hP hts hi rfl hq
    intro w
    simp only [Task.move, Backend.retryForever, hf, Bool.false_eq_true, if_false]
  have hstore : AttemptsBy forever P ⟨b, ts.set i (.retryForever (.storing (some (n + 1))))⟩ 0
      ⟨{ b with retrying := true }, ts.set i (.retryForever (.resetting (some (n + 1))))⟩ :=
    leads_move (o := .ok) hP hts hi rfl hq' fun _ => rfl
  have hattempt : AttemptsBy forever P
      ⟨{ b with retrying := true }, ts.set i (.retryForever (.resetting (some (n + 1))))⟩ 1
      ⟨{ b with retrying := true },
        ts.set i (.retryForever (.attempting (some (n + 1)) b.client))⟩ :=
    leads_move (o := .ok) hP hts hi rfl hq' fun _ => rfl
  exact htick.trans (hcheck.trans (hflag.trans (hstore.trans hattempt)))

theorem leads_miss (hP : Allows forever P Q) (hts : ∀ u ∈ ts, u.isRequest = false)
    (hi : i < ts.length) (hf : b.retrying = false) (hq : Q (b.setStatus .closed))
    (hq' : Q { b with retrying := true })
    (hc : Q (({ b with retrying := true } : Backend K).setStatus .closed)) (client : MixClient)
    (n : Nat) :
    AttemptsBy forever P
      ⟨{ b with retrying := true }, ts.set i (.retryForever (.attempting (some (n + 1)) client))⟩ 0
      ⟨b.setStatus .closed, ts.set i (.retryForever (.ticking (some n)))⟩ := by
  have hfail : AttemptsBy forever P
      ⟨{ b with retrying := true }, ts.set i (.retryForever (.attempting (some (n + 1)) client))⟩ 0
      ⟨{ b with retrying := true }, ts.set i (.retryForever (.failed (some (n + 1))))⟩ :=
    leads_move (o := .err) hP hts hi rfl hq' fun _ => rfl
  have hmark : AttemptsBy forever P
      ⟨{ b with retrying := true }, ts.set i (.retryForever (.failed (some (n + 1))))⟩ 0
      ⟨({ b with retrying := true } : Backend K).setStatus .closed,
        ts.set i (.retryForever (.missed (some (n + 1))))⟩ := by
    by_cases hst : ({ b with retrying := true } : Backend K).getStatus = .closed
    · rw [Backend.setStatus_self hst]
      apply leads_move (o := .ok) hP hts hi rfl hq'
      intro w
      simp only [Task.move, Backend.retryForever, hst, ne_eq, not_true_eq_false, if_false]
    · have hchanged : AttemptsBy forever P
          ⟨{ b with retrying := true }, ts.set i (.retryForever (.failed (some (n + 1))))⟩ 0
          ⟨{ b with retrying := true }, ts.set i (.retryForever (.remarking (some (n + 1))))⟩ := by
        apply leads_move (o := .ok) hP hts hi rfl hq'
        intro w
        simp only [Task.move, Backend.retryForever, ne_eq, hst, not_false_eq_true, if_true]
      exact hchanged.trans (leads_move (o := .ok) hP hts hi rfl hc fun _ => rfl)
  have hclear : AttemptsBy forever P
      ⟨({ b with retrying := true } : Backend K).setStatus .closed,
        ts.set i (.retryForever (.missed (some (n + 1))))⟩ 0
      ⟨b.setStatus .closed, ts.set i (.retryForever (.ticking (some n)))⟩ := by
    apply leads_move (o := .ok) hP hts hi rfl hq
    intro w
    rw [← Backend.setStatus_retried hf]
    rfl
  exact hfail.trans (hmark.trans hclear)

end

theorem attempts_solo (hts : ∀ u ∈ ts, u.isRequest = false) (hi : i < ts.length)
    (ht : t.isRequest = false) (hs : b'.getStatus ≠ .normal)
    (hm : ∀ w, t.move forever b true w o = some ⟨b', t', sp⟩) :
    Attempts forever ⟨b, ts.set i t⟩ t.retryAttempts ⟨b', ts.set i t' ++ sp⟩ :=
  leads_solo (outlasts_allows forever) hts hi ht hs hm

theorem attempts_move (hts : ∀ u ∈ ts, u.isRequest = false) (hi : i < ts.length)
    (ht : t.isRequest = false) (hs : b'.getStatus ≠ .normal)
    (hm : ∀ w, t.move forever b true w o = some ⟨b', t', []⟩) :
    Attempts forever ⟨b, ts.set i t⟩ t.retryAttempts ⟨b', ts.set i t'⟩ :=
  leads_move (outlasts_allows forever) hts hi ht hs hm

theorem attempts_round (hts : ∀ u ∈ ts, u.isRequest = false) (hi : i < ts.length)
    (hc : b.getStatus = .closed) (hf : b.retrying = false) :
    Attempts forever ⟨b, ts.set i (.retryForever (.ticking (some (n + 1))))⟩ 1
      ⟨b, ts.set i (.retryForever (.ticking (some n)))⟩ := by
  have hs := Backend.ne_normal_of_closed hc
  have hattempt := leads_attempt (outlasts_allows forever) hts hi (.inl hc) hf hs hs n
  have hmiss := leads_miss (outlasts_allows forever) hts hi hf nofun hs nofun b.client n
  rw [Backend.setStatus_self hc] at hmiss
  exact hattempt.trans hmiss

/-- A retry task can use up its whole budget, since it leaves the flag clear between ticks. -/
theorem attempts_rounds (forever : Option Nat) (hts : ∀ u ∈ ts, u.isRequest = false)
    (hi : i < ts.length) (hc : b.getStatus = .closed) (hf : b.retrying = false) (n : Nat) :
    Attempts forever ⟨b, ts.set i (.retryForever (.ticking (some n)))⟩ n
      ⟨b, ts.set i (.retryForever (.ticking (some 0)))⟩ := by
  induction n with
  | zero => exact Leads.refl _
  | succ n ih =>
    have := (attempts_round hts hi hc hf).trans ih
    rwa [Nat.add_comm 1 n] at this

theorem attempts_spawn (forever : Option Nat) (hts : ∀ u ∈ ts, u.isRequest = false)
    (hi : i < ts.length) (hc : b.getStatus = .closed) (ht : t.mayFail = true) :
    ∃ named, Attempts forever ⟨b, ts.set i t⟩ 0
      ⟨b, ts.set i (.handleConnection named .select) ++ [.retryForever .starting]⟩ := by
  have hs := Backend.ne_normal_of_closed hc
  have hmarked (named : Bool) : Attempts forever ⟨b, ts.set i (.handleConnection named .marked)⟩ 0
      ⟨b, ts.set i (.handleConnection named .select) ++ [.retryForever .starting]⟩ :=
    attempts_solo (o := .ok) hts hi rfl hs fun _ => rfl
  have hfailed (named : Bool) : Attempts forever ⟨b, ts.set i (.handleConnection named .failed)⟩ 0
      ⟨b, ts.set i (.handleConnection named .marked)⟩ := by
    apply attempts_move (o := .ok) hts hi rfl hs
    intro w
    simp only [Task.move, Backend.handleConnection, Backend.setStatus_self hc]
  have hattempting (named : Bool) (c : MixClient) :
      Attempts forever ⟨b, ts.set i (.handleConnection named (.attempting c))⟩ 0
        ⟨b, ts.set i (.handleConnection named .failed)⟩ :=
    attempts_move (o := .err) hts hi rfl hs fun _ => rfl
  have hselected (named : Bool) : Attempts forever
      ⟨b, ts.set i (.handleConnection named .selected)⟩ 0
      ⟨b, ts.set i (.handleConnection named (.attempting b.client))⟩ :=
    attempts_move (o := .ok) hts hi rfl hs fun _ => rfl
  cases t with
  | handleConnection named pc =>
    refine ⟨named, ?_⟩
    cases pc with
    | selected =>
      exact (hselected named).trans ((hattempting named _).trans
        ((hfailed named).trans (hmarked named)))
    | attempting c => exact (hattempting named c).trans ((hfailed named).trans (hmarked named))
    | failed => exact (hfailed named).trans (hmarked named)
    | marked => exact hmarked named
    | _ => cases ht
  | _ => cases ht

theorem attempts_spend (hpos : 0 < b.maxRetries) (hint : b.retryTimeout ≠ 0)
    (hts : ∀ u ∈ ts, u.isRequest = false) (hc : b.getStatus = .closed) (hf : b.retrying = false) :
    Attempts forever ⟨b, ts ++ [.retryForever .starting]⟩ b.maxRetries
      ⟨b, ts ++ [.retryForever (.ticking (some 0))]⟩ := by
  have hset (u : Task) : (ts ++ [Task.retryForever .starting]).set ts.length u = ts ++ [u] := by
    simp
  have hlen : ts.length < (ts ++ [Task.retryForever .starting]).length := by simp
  have hcalm : ∀ u ∈ ts ++ [Task.retryForever .starting], u.isRequest = false :=
    forall_spawn (p := ⟨b, ts⟩) hts rfl
  have hstart : Attempts forever ⟨b, ts ++ [.retryForever .starting]⟩ 0
      ⟨b, ts ++ [.retryForever (.ticking (some b.maxRetries))]⟩ := by
    have hmove (w : Bool) : (Task.retryForever .starting).move forever b true w .ok =
        some ⟨b, .retryForever (.ticking (some b.maxRetries)), []⟩ := by
      simp only [Task.move, Backend.retryForever, interval, if_neg hint, waitFor, if_true,
        Backend.budget_pos hpos]
    have := attempts_move hcalm hlen rfl (Backend.ne_normal_of_closed hc) hmove
    rwa [hset, hset] at this
  have hrounds := attempts_rounds forever hcalm hlen hc hf b.maxRetries
  rw [hset, hset] at hrounds
  have := hstart.trans hrounds
  rwa [Nat.zero_add] at this

theorem attempts_failing (forever : Option Nat) (hpos : 0 < b.maxRetries)
    (hint : b.retryTimeout ≠ 0) (hts : ∀ u ∈ ts, u.isRequest = false)
    (hc : b.getStatus = .closed) (hf : b.retrying = false)
    (hn : ts.countP Task.mayFail = n + 1) :
    ∃ ts', (∀ u ∈ ts', u.isRequest = false) ∧ ts'.countP Task.mayFail = n ∧
      Attempts forever ⟨b, ts⟩ b.maxRetries ⟨b, ts'⟩ := by
  obtain ⟨t, ht, hfail⟩ := List.countP_pos_iff.1 (Nat.lt_of_lt_of_eq (Nat.succ_pos n) hn.symm)
  obtain ⟨i, hget⟩ := List.mem_iff_getElem?.1 ht
  obtain ⟨hi, rfl⟩ := List.getElem?_eq_some_iff.1 hget
  obtain ⟨named, hspawn⟩ := attempts_spawn forever hts hi hc hfail
  rw [List.set_getElem_self hi] at hspawn
  have hcalm : ∀ u ∈ ts.set i (.handleConnection named .select), u.isRequest = false :=
    forall_set hts rfl
  have hspend := hspawn.trans (attempts_spend hpos hint hcalm hc hf)
  rw [Nat.zero_add] at hspend
  refine ⟨ts.set i (.handleConnection named .select) ++ [Task.retryForever (.ticking (some 0))],
    forall_spawn (p := ⟨b, _⟩) hcalm rfl, ?_, hspend⟩
  have hlast : [Task.retryForever (.ticking (some 0))].countP Task.mayFail = 0 := rfl
  rw [List.countP_append, hlast, List.countP_set hi, hfail, hn]
  rfl

/-- The attempts of an outage can reach the budgets of all connections that were in flight. -/
theorem attempts_total (hpos : 0 < b.maxRetries) (hint : b.retryTimeout ≠ 0)
    (hts : ∀ u ∈ ts, u.isRequest = false) (hc : b.getStatus = .closed) (hf : b.retrying = false) :
    ∃ p', Attempts forever ⟨b, ts⟩ (b.maxRetries * ts.countP Task.mayFail) p' := by
  induction hn : ts.countP Task.mayFail generalizing ts with
  | zero => exact ⟨_, Leads.refl _⟩
  | succ n ih =>
    obtain ⟨ts', hts', hn', hlead⟩ := attempts_failing forever hpos hint hts hc hf hn
    obtain ⟨p', hrest⟩ := ih hts' hn'
    refine ⟨p', ?_⟩
    rw [Nat.mul_succ, Nat.add_comm]
    exact hlead.trans hrest

end

theorem Failed.flag_clear [NatCast K] {p : Pool (Backend K) Task} (h : Failed forever p) :
    p.state.retrying = false := by
  by_contra hf
  obtain ⟨u, hu, ho⟩ := h.reachable.orderly.owned (Bool.of_not_eq_false hf)
  have hr := (h.alone u hu).2
  cases u with
  | retryForever pc => cases hr
  | _ => cases ho

/-- The retry tasks of an outage stay within `max_retries` exactly when at most one connection was
in flight on the backend when it failed, or they all panic. -/
theorem retries_within_budget_iff [NatCast K] (forever : Option Nat) (p : Pool (Backend K) Task)
    (h : Failed forever p) (hpos : 0 < p.state.maxRetries) :
    WithinBudget forever p ↔ p.state.retryTimeout = 0 ∨ p.tasks.countP Task.mayFail ≤ 1 := by
  constructor
  · intro hw
    by_cases hint : p.state.retryTimeout = 0
    · exact .inl hint
    · right
      have hcalm := fun u hu => (h.alone u hu).1
      obtain ⟨p', acts, hr, ho, hcost⟩ := attempts_total hpos hint hcalm h.closed h.flag_clear
      have hle := hw acts p' hr ho
      rw [hcost] at hle
      exact Nat.le_of_mul_le_mul_left (by rwa [Nat.mul_one]) hpos
  · exact withinBudget_of_few h hpos

def onceConfig : FileBackendConfig := { plainConfig with maxRetries := 1 }

def onceBackend : Backend ℚ :=
  { plainBackend with maxRetries := 1, fileBackendConfig := onceConfig }

/-- A connection in flight has found out that the backend is down, with these others in flight. -/
def failedPool (others : List Task) : Pool (Backend ℚ) Task :=
  ⟨onceBackend.setStatus .closed, .handleConnection false .marked :: others⟩

theorem one_failed_within_budget :
    Failed none (failedPool []) ∧ WithinBudget none (failedPool []) := by
  have hf : Failed none (failedPool []) := by
    refine ⟨⟨workingTls, 0, onceConfig, onceBackend,
      [.enter (.connect false), .run 0 .ok, .run 0 .ok, .run 0 .err, .run 0 .ok],
      rfl, rfl⟩, rfl, ?_⟩
    decide
  exact ⟨hf, (retries_within_budget_iff none _ hf (by decide)).2 (.inr (by decide))⟩

/-- Two connections are in flight when the backend fails. The first one's retry task makes its
attempt and clears the flag before the second one's retry task looks at it. -/
def twoFailures : List (Act Request Outcome) :=
  [.run 0 .ok, .run 1 .err, .run 1 .ok, .run 1 .ok,
    .run 2 .ok, .run 2 .ok, .run 2 .ok, .run 2 .ok, .run 2 .ok, .run 2 .ok, .run 2 .err, .run 2 .ok,
    .run 2 .ok, .run 3 .ok, .run 3 .ok, .run 3 .ok, .run 3 .ok, .run 3 .ok, .run 3 .ok]

theorem two_failed_exceed_budget :
    ¬ ∀ p : Pool (Backend ℚ) Task, Failed none p → 0 < p.state.maxRetries →
      WithinBudget none p := by
  intro h
  have hf : Failed none (failedPool [.handleConnection false (.attempting ⟨.http2, 0⟩)]) := by
    refine ⟨⟨workingTls, 0, onceConfig, onceBackend,
      [.enter (.connect false), .enter (.connect false), .run 0 .ok, .run 0 .ok, .run 1 .ok,
        .run 1 .ok, .run 0 .err, .run 0 .ok], rfl, rfl⟩, rfl, ?_⟩
    decide
  have hle := h _ hf (by decide) twoFailures _ rfl (by decide)
  revert hle
  decide

end Octoproxy
