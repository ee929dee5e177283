import Octoproxy.CallCancel

namespace Octoproxy
open TaskPool Transition
set_option autoImplicit true

/-- Nobody is inside a mutex, and no client is poisoned. -/
structure Calling.Idle (s : Calling K SR) : Prop where
  orderly : s.Orderly
  locking : ∀ c ∈ s.callers, ∀ build t, c.call = some (build, t) → t.locking = true
  clean : ∀ build, (s.clients build).isPoisoned = false

/-- Task `j` is in a call that will succeed, and nobody else is inside a mutex. -/
structure Calling.AtWork (j : Nat) (p : Pool (Backend K) Task) (s : Calling K SR) : Prop where
  orderly : s.Orderly
  pool_eq : s.pool = p
  others : ∀ (k : Nat) d, j ≠ k → s.callers[k]? = some d →
    ∀ build t, d.call = some (build, t) → t.locking = true
  clean : ∀ build, (s.clients build).isPoisoned = false
  call : ∃ c build t, s.callers[j]? = some c ∧ c.call = some (build, t) ∧
    t.doomed (s.clients build) = false

structure Calling.Ready (j : Nat) (c : Caller SR) (o : Outcome) (s : Calling K SR) : Prop where
  orderly : s.Orderly
  others : ∀ (k : Nat) d, j ≠ k → s.callers[k]? = some d →
    ∀ build t, d.call = some (build, t) → t.locking = true
  clean : ∀ build, (s.clients build).isPoisoned = false
  caller : s.callers[j]? = some c
  goes : c.mayGoOn o = true

def Calling.CallOver (j : Nat) (s : Calling K SR) : Prop :=
  ∃ c build t, s.callers[j]? = some c ∧ c.call = some (build, t) ∧ t.over = true

section
variable {s : Calling K SR} {c : Caller SR} {t : ClientTask SR} {j : Nat}
  {p p' : Pool (Backend K) Task}

theorem ClientRequest.locking (r : ClientRequest) : (r.task : ClientTask SR).locking = true := by
  cases r <;> rfl

theorem Caller.arrived_locking {b : Backend K} {u : Task}
    (h : (Caller.arrived b head u : Caller SR).call = some (build, t)) : t.locking = true := by
  obtain ⟨r, _, hr⟩ := Option.map_eq_some_iff.1 h
  cases hr
  exact r.locking

theorem ClientTask.doomed_of_locking {cl : Client SR} (h : t.locking = true)
    (hcl : cl.isPoisoned = false) : t.doomed cl = false := by
  cases t with
  | newStreamFut host pc => cases pc <;> first | exact hcl | rfl
  | resetClient pc => rfl
  | connection conn => rfl
  | _ => cases h

theorem ClientTask.ends_of_over {cl : Client SR} (h : t.over = true) (hd : t.doomed cl = false)
    (o : Outcome) : t.ends o = true := by
  cases t with
  | streamed conn client host => rfl
  | finished => cases o <;> rfl
  | failed err => cases hd
  | _ => cases h

theorem Calling.AtWork.free (h : s.AtWork j p) (hc : s.callers[j]? = some c)
    (hcall : c.call = some (build, t)) (hl : t.locking = true) : s.free build = true := by
  apply free_of_locking
  intro d hd b u hdcall
  obtain ⟨k, hk⟩ := List.mem_iff_getElem?.1 hd
  by_cases hjk : j = k
  · subst hjk
    cases hc.symm.trans hk
    cases hcall.symm.trans hdcall
    exact hl
  · exact h.others k d hjk hk b u hdcall

theorem Calling.AtWork.step [Inhabited SR] (forever : Option Nat) (h : s.AtWork j p)
    (hover : ¬ s.CallOver j) :
    ∃ a s', s.step forever a = some s' ∧ s'.AtWork j p ∧
      (s'.callers[j]?.elim 0 (Caller.callRank s'.clients)) <
        s.callers[j]?.elim 0 (Caller.callRank s.clients) := by
  obtain ⟨c, build, t, hc, hcall, hdoom⟩ := h.call
  have hnot : t.over = false := by
    cases ho : t.over with
    | false => rfl
    | true => exact absurd ⟨c, build, t, hc, hcall, ho⟩ hover
  obtain ⟨o, m, hs, hrank, hdoom', hpoison, _⟩ :=
    call_goes_on forever h.orderly hc hcall hnot fun hl => h.free hc hcall hl
  have hlt := (List.getElem?_eq_some_iff.1 hc).1
  have hself : (s.afterCall j c build m).clients build = m.state := Function.update_self ..
  have hnew : (s.afterCall j c build m).callers[j]? =
      some { c with call := some (build, m.task) } := List.getElem?_set_self hlt
  have hpool := (afterCall_pool hc build m).trans h.pool_eq
  refine ⟨_, _, hs, ⟨h.orderly.step hs, hpool, ?_, ?_, ?_⟩, ?_⟩
  · intro k d hjk hk
    have hold : s.callers[k]? = some d := (List.getElem?_set_ne hjk).symm.trans hk
    exact h.others k d hjk hold
  · intro b
    by_cases hb : b = build
    · subst hb
      rw [hself]
      cases hp : m.state.isPoisoned with
      | false => rfl
      | true => exact absurd (hpoison hp) (Bool.eq_false_iff.1 (h.clean b))
    · have hsame : (s.afterCall j c build m).clients b = s.clients b :=
        Function.update_of_ne hb ..
      rw [hsame]
      exact h.clean b
  · refine ⟨_, build, m.task, hnew, rfl, ?_⟩
    rw [hself]
    cases hd : m.task.doomed m.state with
    | false => rfl
    | true => exact absurd (hdoom' hd) (Bool.eq_false_iff.1 hdoom)
  · rw [hnew, hc]
    simp only [Option.elim_some, Caller.callRank, hcall, hself]
    exact hrank

theorem Calling.AtWork.runs [Inhabited SR] (forever : Option Nat) (h : s.AtWork j p) :
    ∃ acts s', run (Calling.step forever) s acts = some s' ∧ s'.AtWork j p ∧ s'.CallOver j := by
  obtain ⟨acts, s', hr, _, hw, hover⟩ := exists_run_of_runs (P := fun _ _ => True) (AtWork j p)
    (CallOver j) (fun s => s.callers[j]?.elim 0 (Caller.callRank s.clients))
    (by
      intro s₁ hw hover
      obtain ⟨a, s₂, hs, hw', hlt⟩ := hw.step forever hover
      exact ⟨[a], s₂, run_cons.2 ⟨s₂, hs, rfl⟩, (allSteps_cons hs).2 ⟨trivial, trivial⟩, hw', hlt⟩)
    h
  exact ⟨acts, s', hr, hw, hover⟩

theorem Calling.Ready.goOn (h : s.Ready j c o)
    (hm : c.task.move forever s.backend ((backendTasks K forever).readable s.pool)
      ((backendTasks K forever).writable s.pool) o = some m) :
    s.step forever (.run j (.task o)) = some (s.afterTask j c.host m) ∧
      (s.afterTask j c.host m).Idle := by
  have hs : s.step forever (.run j (.task o)) = some (s.afterTask j c.host m) := by
    simp only [step, h.caller, Option.bind_some, runTask, if_pos h.goes, hm, Option.map_some]
  refine ⟨hs, h.orderly.step hs, ?_, h.clean⟩
  intro d hd build u hcall
  obtain hd | hd := List.mem_append.1 hd
  · obtain ⟨k, hk⟩ := List.mem_iff_getElem?.1 hd
    by_cases hjk : j = k
    · subst hjk
      rw [List.getElem?_set_self (List.getElem?_eq_some_iff.1 h.caller).1] at hk
      cases hk
      exact Caller.arrived_locking hcall
    · rw [List.getElem?_set_ne hjk] at hk
      exact h.others k d hjk hk build u hcall
  · obtain ⟨w, _, rfl⟩ := List.mem_map.1 hd
    cases hcall

theorem Calling.Idle.enter (forever : Option Nat) (h : s.Idle) (r : Request) :
    ∃ s', s.step forever (.enter r (.fromStr "")) = some s' ∧ s'.Idle ∧
      s'.pool = s.pool.spawn r.task := by
  have hstep : s.step forever (.enter r (.fromStr "")) =
      some { s with callers := s.callers ++ [⟨r.task, r.host (.fromStr ""), none⟩] } := rfl
  refine ⟨_, hstep, ⟨h.orderly.step hstep, ?_, h.clean⟩, ?_⟩
  · intro d hd build u hcall
    obtain hd | hd := List.mem_append.1 hd
    · exact h.locking d hd build u hcall
    · rw [List.mem_singleton.1 hd] at hcall
      cases hcall
  · simp only [pool, List.map_append]
    rfl

/-- Whatever call task `j` is in runs to its end, and leaves it any way to go on. -/
theorem Calling.Idle.runs_call [Inhabited SR] (forever : Option Nat) (h : s.Idle)
    (hc : s.callers[j]? = some c) (o : Outcome) :
    ∃ acts s' d, run (Calling.step forever) s acts = some s' ∧ s'.pool = s.pool ∧
      s'.Ready j d o := by
  have hothers : ∀ (k : Nat) d, j ≠ k → s.callers[k]? = some d →
      ∀ build t, d.call = some (build, t) → t.locking = true :=
    fun k d _ hk => h.locking d (List.mem_of_getElem? hk)
  cases hcall : c.call with
  | none =>
    have hgo : c.mayGoOn o = true := by
      rw [Caller.mayGoOn, hcall]
      rfl
    exact ⟨[], s, c, rfl, rfl, h.orderly, hothers, h.clean, hc, hgo⟩
  | some call =>
    obtain ⟨build, t⟩ := call
    have hl := h.locking c (List.mem_of_getElem? hc) build t hcall
    have hdoom := ClientTask.doomed_of_locking hl (h.clean build)
    have hwork : s.AtWork j s.pool :=
      ⟨h.orderly, rfl, hothers, h.clean, c, build, t, hc, hcall, hdoom⟩
    obtain ⟨acts, s', hr, hw, d, b, u, hd, hdcall, hover⟩ := hwork.runs forever
    obtain ⟨d', b', u', hd', hdcall', hdoom'⟩ := hw.call
    cases hd.symm.trans hd'
    cases hdcall.symm.trans hdcall'
    have hgo : d.mayGoOn o = true := by
      rw [Caller.mayGoOn, hdcall]
      exact ClientTask.ends_of_over hover hdoom' o
    exact ⟨acts, s', d, hr, hw.pool_eq, hw.orderly, hw.others, hw.clean, hd, hgo⟩

/-- A step of the tasks is one of theirs with their calls, which are made in one go. -/
theorem Calling.Idle.realises [Inhabited SR] (h : s.Idle)
    (hs : (backendTasks K forever).step s.pool a = some p') :
    ∃ acts s', run (Calling.step forever) s acts = some s' ∧ s'.Idle ∧ s'.pool = p' := by
  cases a with
  | enter r =>
    obtain ⟨s', hstep, hi, hp⟩ := h.enter forever r
    cases hs
    exact ⟨[.enter r (.fromStr "")], s', run_cons.2 ⟨s', hstep, rfl⟩, hi, hp⟩
  | run j o =>
    obtain ⟨t, m, ht, hm, rfl⟩ := Program.step_run hs
    obtain ⟨c, hc, rfl⟩ : ∃ c, s.callers[j]? = some c ∧ c.task = t := by
      rw [pool, List.getElem?_map] at ht
      exact Option.map_eq_some_iff.1 ht
    obtain ⟨acts, s₁, d, hr, hp, hready⟩ := h.runs_call forever hc o
    have htask : d.task = c.task := by
      have hsame := task_getElem? hready.caller
      rw [hp] at hsame
      exact Option.some.inj (hsame.symm.trans (task_getElem? hc))
    have hback : s₁.backend = s.backend := congrArg Pool.state hp
    have hm' : d.task.move forever s₁.backend ((backendTasks K forever).readable s₁.pool)
        ((backendTasks K forever).writable s₁.pool) o = some m := by
      rw [htask, hback, hp]
      exact hm
    obtain ⟨hstep, hidle⟩ := hready.goOn hm'
    refine ⟨acts ++ [.run j (.task o)], _,
      run_append.2 ⟨s₁, hr, run_cons.2 ⟨_, hstep, rfl⟩⟩, hidle, ?_⟩
    rw [afterTask_pool, hp]

theorem Calling.Idle.realises_run [Inhabited SR] (h : s.Idle)
    (hr : run (backendTasks K forever).step s.pool moves = some p') :
    ∃ acts s', run (Calling.step forever) s acts = some s' ∧ s'.Idle ∧ s'.pool = p' := by
  induction moves generalizing s with
  | nil =>
    cases hr
    exact ⟨[], s, rfl, h, rfl⟩
  | cons a moves ih =>
    obtain ⟨p₁, hs, hr⟩ := run_cons.1 hr
    obtain ⟨acts, s₁, ha, hi, rfl⟩ := h.realises hs
    obtain ⟨acts', s', ha', hi', hp⟩ := ih hi hr
    exact ⟨acts ++ acts', s', run_append.2 ⟨s₁, ha, ha'⟩, hi', hp⟩

end

/-- The tasks of a backend reach the same states with their calls as without them. -/
theorem calling_pools (SR : Type) [Inhabited SR] (forever : Option Nat) (b : Backend K)
    (p : Pool (Backend K) Task) :
    (∃ (acts : List (CallingAct SR)) (s : Calling K SR),
      run (Calling.step forever) (.start b) acts = some s ∧ s.pool = p) ↔
    ∃ moves, run (backendTasks K forever).step ⟨b, []⟩ moves = some p := by
  constructor
  · rintro ⟨acts, s, hr, rfl⟩
    exact Calling.run_pool hr
  · rintro ⟨moves, hr⟩
    have hstart : (Calling.start b : Calling K SR).Idle := by
      refine ⟨Calling.start_orderly b, ?_, fun _ => rfl⟩
      intro c hc
      cases hc
    obtain ⟨acts, s, ha, _, hp⟩ := hstart.realises_run hr
    exact ⟨acts, s, ha, hp⟩

end Octoproxy
