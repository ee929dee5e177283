import Octoproxy.CallLocks
import Octoproxy.Cancellation

namespace Octoproxy
open TaskPool Transition
set_option autoImplicit true

/-- The next step of the task or of its call is up to the network. -/
def Caller.awaits (c : Caller SR) : Bool :=
  match c.call with
  | some (_, .newStreamFut _ .connecting) => true
  | some (_, .streamed _ _ _) => true
  | some _ => false
  | none =>
    match c.task with
    | .handleConnection _ (.transferring _) => true
    | _ => false

/-- A step of the tasks that are there, in which whoever waits for the network is cancelled. -/
def CallUnanswered (q : FairLocks.Queued (Calling K SR) CallLock) :
    FairLock.QueueAct (CallingAct SR) (CallOutcome SR) → Prop
  | .enter _ => False
  | .wait _ => True
  | .run i o => ∀ c, q.state.callers[i]? = some c → c.awaits = true → o = .task .cancelled

def Caller.callRank (clients : Nat → Client SR) (c : Caller SR) : Nat :=
  c.call.elim 0 fun call => call.2.rank (clients call.1)

def backendQueue (q : FairLocks.Queued (Calling K SR) CallLock) :
    FairLock.Queued (Backend K) Task :=
  ⟨q.state.pool, q.queue .backend⟩

/-- A step of the tasks costs more than the calls that begin with it. -/
def callYieldRank (i : Nat) (q : FairLocks.Queued (Calling K SR) CallLock) : Nat :=
  8 * yieldRank i (backendQueue q) + total (Caller.callRank q.state.clients) q.state.callers

structure CallYielding (forever : Option Nat) (i : Nat)
    (q : FairLocks.Queued (Calling K SR) CallLock) : Prop where
  orderly : q.state.Orderly
  line : FairLocks.InLine (callLocks K SR forever) q
  yielding : Yielding i (backendQueue q)

def Yields (forever : Option Nat) (i : Nat) (q : FairLocks.Queued (Calling K SR) CallLock) : Prop :=
  ∃ acts q', run (FairLocks.step (callLocks K SR forever)) q acts = some q' ∧
    AllSteps (FairLocks.step (callLocks K SR forever)) CallUnanswered q acts ∧
    CallYielding forever i q' ∧ callYieldRank i q' < callYieldRank i q

def Calling.Busy (s : Calling K SR) : Prop :=
  ∃ (j : Nat) (c : Caller SR) (build : Nat) (t : ClientTask SR), s.callers[j]? = some c ∧
    c.call = some (build, t) ∧ t.over = false ∧ t.locking = false ∧ c.awaits = false

section
variable {s : Calling K SR} {q : FairLocks.Queued (Calling K SR) CallLock} {c d : Caller SR}
  {i j k build : Nat}

theorem ClientTask.rank_le (cl : Client SR) (t : ClientTask SR) : t.rank cl ≤ 6 := by
  cases t with
  | newStreamFut host pc =>
    cases pc with
    | looping =>
      simp only [rank, Client.loopRank]
      split
      · omega
      · split <;> omega
      · omega
    | _ => exact Nat.le_of_ble_eq_true rfl
  | resetClient pc => cases pc <;> exact Nat.le_of_ble_eq_true rfl
  | _ => exact Nat.zero_le 6

theorem Caller.callRank_le (clients : Nat → Client SR) (c : Caller SR) :
    c.callRank clients ≤ 6 := by
  unfold callRank
  cases c.call with
  | none => exact Nat.zero_le 6
  | some call => exact call.2.rank_le (clients call.1)

theorem Caller.spawned_callRank (clients : Nat → Client SR) (ts : List Task) :
    total (Caller.callRank clients) (ts.map Caller.spawned) = 0 := by
  induction ts with
  | nil => rfl
  | cons t ts ih =>
    rw [List.map_cons, total, ih]
    rfl

theorem Caller.wants_inside (h : c.call = some (build, t)) :
    c.wants = if t.locking then some (.client build) else none := by
  rw [wants, h]

theorem Caller.waits_backend (h : c.wants = some .backend) : c.task.wants ≠ .released := by
  intro hw
  cases hcall : c.call with
  | none =>
    rw [wants_outside hcall, if_pos hw] at h
    cases h
  | some call =>
    rw [wants_inside hcall] at h
    split at h <;> cases h

theorem update_client (queue : CallLock → List Nat) (build : Nat) (l : List Nat) :
    Function.update queue (.client build) l .backend = queue .backend := by
  apply Function.update_of_ne
  intro h
  cases h

theorem Calling.exists_caller (ht : s.pool.tasks[i]? = some t) :
    ∃ c, s.callers[i]? = some c ∧ c.task = t := by
  rw [pool, List.getElem?_map] at ht
  exact Option.map_eq_some_iff.1 ht

theorem CallYielding.outside (h : CallYielding forever i q) (hc : q.state.callers[j]? = some c)
    (hw : c.task.wants ≠ .released) : c.call = none := by
  by_contra hcall
  have hh := (h.orderly.fits c (List.mem_of_getElem? hc)).hold hcall
  exact hh (c.task.hold_or_wants.resolve_right hw)

theorem CallYielding.turn_step (h : CallYielding forever i q) (hc : q.state.callers[j]? = some c)
    (hturn : Turn forever (backendQueue q) j c.task m rest) (hgo : c.mayGoOn o = true)
    (hs : q.state.step forever (.run j (.task o)) = some s) :
    ∃ q', FairLocks.step (callLocks K SR forever) q (.run j (.task o)) = some q' ∧
      q'.state = s ∧ q'.queue .backend = rest := by
  have hwanted := Calling.wanted_eq forever hc
  cases hcall : c.call with
  | none =>
    rw [Caller.wants_outside hcall] at hwanted
    obtain ⟨hw, hrest⟩ | ⟨hw, hq⟩ := hturn.queue
    · rw [if_pos hw] at hwanted
      exact ⟨_, FairLocks.step_of_free hwanted hs, rfl, hrest.symm⟩
    · rw [if_neg hw] at hwanted
      exact ⟨_, FairLocks.step_of_head hwanted hq hs, rfl,
        Function.update_self .backend rest q.queue⟩
  | some call =>
    obtain ⟨build, u⟩ := call
    have hrest : rest = q.queue .backend := by
      obtain ⟨_, hrest⟩ | ⟨hw, _⟩ := hturn.queue
      · exact hrest
      · cases (h.outside hc hw).symm.trans hcall
    rw [Caller.wants_inside hcall] at hwanted
    cases hl : u.locking with
    | false =>
      rw [hl] at hwanted
      exact ⟨_, FairLocks.step_of_free hwanted hs, rfl, hrest.symm⟩
    | true =>
      rw [hl] at hwanted
      have hleaves : (callLocks K SR forever).leaves q.state j (.task o) = true := by
        rw [Caller.mayGoOn, hcall] at hgo
        have hends : u.ends o = true := hgo
        have hquits : c.quits (.task o) = true := by
          simp only [Caller.quits, hcall, Option.any_some, hl, hends, Bool.and_self]
        have hcallers : ((callLocks K SR forever).tasks q.state)[j]? = some c := hc
        simp only [FairLocks.System.leaves, hcallers, Option.any_some]
        exact hquits
      refine ⟨_, FairLocks.step_of_leave hwanted hleaves hs, rfl, ?_⟩
      rw [hrest]
      exact update_client q.queue build ((q.queue (.client build)).erase j)

theorem CallYielding.cancel_yields (h : CallYielding forever i q)
    (hc : q.state.callers[j]? = some c) (hgo : c.mayGoOn o = true)
    (hturn : Turn forever (backendQueue q) j c.task m rest)
    (hm : c.task.move forever q.state.backend ((backendTasks K forever).readable q.state.pool)
      ((backendTasks K forever).writable q.state.pool) o = some m)
    (hun : c.awaits = true → o = .cancelled)
    (hy : Yielding i ⟨q.state.pool.advance j m, rest⟩)
    (hlt : yieldRank i ⟨q.state.pool.advance j m, rest⟩ < yieldRank i (backendQueue q)) :
    Yields forever i q := by
  have hs : q.state.step forever (.run j (.task o)) = some (q.state.afterTask j c.host m) := by
    simp only [Calling.step, hc, Option.bind_some, Calling.runTask, if_pos hgo, hm,
      Option.map_some]
  obtain ⟨q', hstep, hstate, hqueue⟩ := h.turn_step hc hturn hgo hs
  have hback : backendQueue q' = ⟨q.state.pool.advance j m, rest⟩ := by
    rw [backendQueue, hstate, hqueue, Calling.afterTask_pool]
  refine ⟨[.run j (.task o)], q', run_cons.2 ⟨q', hstep, rfl⟩, ?_, ⟨?_, ?_, ?_⟩, ?_⟩
  · refine (allSteps_cons hstep).2 ⟨?_, trivial⟩
    intro d hd ha
    cases hc.symm.trans hd
    rw [hun ha]
  · rw [hstate]
    exact h.orderly.step hs
  · exact h.line.step hstep
  · rw [hback]
    exact hy
  · have hset := total_set (Caller.callRank q.state.clients) hc (.arrived m.state c.host m.task)
    have hle := Caller.callRank_le q.state.clients (.arrived m.state c.host m.task)
    have hnew := Caller.spawned_callRank q.state.clients m.spawned
    rw [callYieldRank, callYieldRank, hback, hstate]
    simp only [Calling.afterTask, total_append]
    omega

theorem Calling.call_run (hc : q.state.callers[j]? = some c)
    (hcall : c.call = some (build, t)) (hun : c.awaits = false)
    (hplace : t.locking = true → q.queue (.client build) = [] ∨
      ∃ rest, q.queue (.client build) = j :: rest)
    (hs : q.state.step forever (.run j (.call o)) = some s) :
    ∃ acts q', run (FairLocks.step (callLocks K SR forever)) q acts = some q' ∧
      AllSteps (FairLocks.step (callLocks K SR forever)) CallUnanswered q acts ∧
      q'.state = s ∧ q'.queue .backend = q.queue .backend := by
  have hallowed : ∀ {q₁ : FairLocks.Queued (Calling K SR) CallLock}, q₁.state = q.state →
      CallUnanswered q₁ (.run j (.call o)) := by
    intro q₁ hq₁ d hd ha
    rw [hq₁] at hd
    cases hc.symm.trans hd
    cases hun.symm.trans ha
  have hmove : (callLocks K SR forever).move q.state j (.call o) = some s := hs
  have hwanted := Calling.wanted_eq forever hc
  rw [Caller.wants_inside hcall] at hwanted
  cases hl : t.locking with
  | false =>
    rw [hl] at hwanted
    have hstep := FairLocks.step_of_free hwanted hmove
    exact ⟨[_], _, run_cons.2 ⟨_, hstep, rfl⟩, (allSteps_cons hstep).2 ⟨hallowed rfl, trivial⟩, rfl,
      rfl⟩
  | true =>
    rw [hl] at hwanted
    obtain hnil | ⟨rest, hq⟩ := hplace hl
    · have hwait := FairLocks.step_of_wait (q := q) hwanted (by rw [hnil]; exact List.not_mem_nil)
      have hturn : Function.update q.queue (.client build) (q.queue (.client build) ++ [j])
          (.client build) = [j] := by
        rw [Function.update_self, hnil]
        rfl
      have hstep := FairLocks.step_of_head
        (q := ⟨q.state, Function.update q.queue (.client build) (q.queue (.client build) ++ [j])⟩)
        hwanted hturn hmove
      refine ⟨[.wait j, .run j (.call o)], _, run_cons.2 ⟨_, hwait, run_cons.2 ⟨_, hstep, rfl⟩⟩,
        (allSteps_cons hwait).2 ⟨trivial, (allSteps_cons hstep).2 ⟨hallowed rfl, trivial⟩⟩, rfl, ?_⟩
      simp only [Function.update_idem]
      exact update_client q.queue build _
    · have hstep := FairLocks.step_of_head hwanted hq hmove
      exact ⟨[_], _, run_cons.2 ⟨_, hstep, rfl⟩, (allSteps_cons hstep).2 ⟨hallowed rfl, trivial⟩,
        rfl, update_client q.queue build rest⟩

theorem CallYielding.call_yields [Inhabited SR] (h : CallYielding forever i q)
    (hc : q.state.callers[j]? = some c) (hcall : c.call = some (build, t)) (hover : t.over = false)
    (hun : c.awaits = false)
    (hplace : t.locking = true → q.state.free build = true ∧ (q.queue (.client build) = [] ∨
      ∃ rest, q.queue (.client build) = j :: rest)) :
    Yields forever i q := by
  obtain ⟨o, m, hs, hrank, _, hpoison, hothers⟩ :=
    Calling.call_goes_on forever h.orderly hc hcall hover fun hl => (hplace hl).1
  obtain ⟨acts, q', hr, hall, hstate, hqueue⟩ :=
    Calling.call_run hc hcall hun (fun hl => (hplace hl).2) hs
  have hback : backendQueue q' = backendQueue q := by
    rw [backendQueue, hstate, hqueue, Calling.afterCall_pool hc build m, backendQueue]
  have hself : (q.state.afterCall j c build m).clients build = m.state := Function.update_self ..
  refine ⟨acts, q', hr, hall, ⟨?_, ?_, ?_⟩, ?_⟩
  · rw [hstate]
    exact h.orderly.step hs
  · exact run_preserves _ (fun hl hs => hl.step hs) h.line hr
  · rw [hback]
    exact h.yielding
  · have hlt : total (Caller.callRank (q.state.afterCall j c build m).clients)
        (q.state.afterCall j c build m).callers <
          total (Caller.callRank q.state.clients) q.state.callers := by
      apply total_set_lt hc
      · simp only [Caller.callRank, hcall, Option.elim_some, hself]
        exact hrank
      · intro k d hjk hd
        unfold Caller.callRank
        cases hdc : d.call with
        | none => exact Nat.le_refl 0
        | some call =>
          obtain ⟨b, u⟩ := call
          by_cases hb : b = build
          · subst hb
            have hr := ClientTask.rank_of_released (hothers k d u hjk hd hdc) hpoison
            simp only [Option.elim_some, hself, hr.1]
            exact Nat.le_refl _
          · have hsame : (q.state.afterCall j c build m).clients b = q.state.clients b :=
              Function.update_of_ne hb ..
            simp only [Option.elim_some, hsame]
            exact Nat.le_refl _
    rw [callYieldRank, callYieldRank, hback, hstate]
    omega

theorem Task.move_err {t : Task} {b : Backend K}
    (hr : t.request host = some (.newStreamFut host'))
    (h : t.move forever b readable writable .cancelled = some m) :
    t.move forever b readable writable .err = some m := by
  have hrace : ∀ {x : Option Bool}, b.race .cancelled = x → x ≠ none → x = some false := by
    intro x hx hn
    simp only [Backend.race] at hx
    split at hx
    · exact hx.symm
    · exact absurd hx.symm hn
  cases t with
  | handleConnection named pc =>
    cases pc with
    | attempting c =>
      simp only [move, Backend.handleConnection] at h ⊢
      split at h
      · cases h
      · rename_i hx
        cases hrace hx (Option.some_ne_none true)
      · exact h
    | _ => cases hr
  | retryForever pc =>
    cases pc with
    | attempting left c =>
      simp only [move, Backend.retryForever] at h ⊢
      split at h
      · cases h
      · rename_i hx
        cases hrace hx (Option.some_ne_none true)
      · exact h
    | _ => cases hr
  | switchBackendStatus pc => cases hr
  | resetBackend pc => cases pc <;> cases hr
  | switchBackendProtocol env pc => cases pc <;> cases hr
  | finished => cases hr

theorem Task.attempt_not_request {t : Task} (h : t.request host = some (.newStreamFut host')) :
    t.isRequest = false ∧ t.hold = .read := by
  cases t with
  | handleConnection named pc => cases pc <;> first | exact ⟨rfl, rfl⟩ | cases h
  | retryForever pc => cases pc <;> first | exact ⟨rfl, rfl⟩ | cases h
  | switchBackendStatus pc => cases h
  | resetBackend pc => cases pc <;> cases h
  | switchBackendProtocol env pc => cases pc <;> cases h
  | finished => cases h

theorem Task.request_of_precedesCancel {t : Task} (h : t.precedesCancel = true) :
    t.request host = none := by
  cases t with
  | switchBackendStatus pc => rfl
  | resetBackend pc => cases pc <;> first | rfl | cases h
  | switchBackendProtocol env pc => cases pc <;> first | rfl | cases h
  | _ => cases h

theorem Calling.exists_holder (h : s.free build = false) :
    ∃ (k : Nat) (d : Caller SR) (v : ClientTask SR), s.callers[k]? = some d ∧
      d.call = some (build, v) ∧ v.hold ≠ .released := by
  obtain ⟨v, hv, hhold⟩ := List.all_eq_false.1 h
  have hhold : v.hold ≠ .released := fun hr => hhold (beq_iff_eq.2 hr)
  obtain hv | hv := List.mem_append.1 hv
  · obtain ⟨d, hd, hvd⟩ := List.mem_flatMap.1 hv
    obtain ⟨k, hk⟩ := List.mem_iff_getElem?.1 hd
    unfold Caller.here at hvd
    split at hvd
    · rename_i b w hcall
      split at hvd
      · rename_i hb
        subst hb
        rw [List.mem_singleton.1 hvd] at hhold
        exact ⟨k, d, w, hk, hcall, hhold⟩
      · cases hvd
    · cases hvd
  · obtain ⟨x, _, hvx⟩ := List.mem_flatMap.1 hv
    split at hvx
    · rw [List.mem_singleton.1 hvx] at hhold
      exact absurd rfl hhold
    · cases hvx

theorem Calling.exists_dial (hbusy : ¬ s.Busy) (hk : s.callers[k]? = some d)
    (hd : d.call = some (build, v)) (hhold : v.hold ≠ .released) :
    ∃ host, v = .newStreamFut host .connecting := by
  have hl : v.locking = false := by
    cases hl : v.locking with
    | false => rfl
    | true => exact absurd (ClientTask.hold_of_locking hl) hhold
  cases v with
  | newStreamFut host pc =>
    cases pc with
    | locking => cases hl
    | connecting => exact ⟨host, rfl⟩
    | looping =>
      refine absurd ⟨k, d, build, _, hk, hd, rfl, rfl, ?_⟩ hbusy
      rw [Caller.awaits, hd]
    | checked conn client =>
      refine absurd ⟨k, d, build, _, hk, hd, rfl, rfl, ?_⟩ hbusy
      rw [Caller.awaits, hd]
  | resetClient pc =>
    refine absurd ⟨k, d, build, _, hk, hd, rfl, hl, ?_⟩ hbusy
    rw [Caller.awaits, hd]
  | _ => exact absurd rfl hhold

/-- A task that dials has been told to stop, and lets go of the mutex and then of the lock. -/
theorem CallYielding.dialler_yields (h : CallYielding forever i q) (htold : ToldToStop q.state.pool)
    (hk : q.state.callers[k]? = some d)
    (hdial : d.call = some (build, .newStreamFut host .connecting)) : Yields forever i q := by
  have hfits := h.orderly.fits d (List.mem_of_getElem? hk)
  rw [Caller.Fits, hdial] at hfits
  obtain ⟨_, r, hr, hserves⟩ := hfits
  cases r with
  | resetClient => cases hserves
  | newStreamFut host' =>
    obtain ⟨hreq, hread⟩ := Task.attempt_not_request hr
    have hpk := Calling.task_getElem? hk
    have hh : d.task.hold ≠ .released := by
      intro hh
      cases hread.symm.trans hh
    have hne : k ≠ i := by
      rintro rfl
      obtain ⟨t, ht, hreq' | rfl, _⟩ := h.yielding.request
      · cases hpk.symm.trans ht
        cases hreq.symm.trans hreq'
      · rw [Option.some.inj (hpk.symm.trans ht)] at hh
        exact hh rfl
    have hgo : d.mayGoOn .cancelled = true := by
      rw [Caller.mayGoOn, hdial]
      rfl
    obtain ⟨m, hturn, hy, hlt⟩ := h.yielding.holder_turn forever hpk hne hh
      (htold d.task (List.mem_of_getElem? hpk) hread)
    exact h.cancel_yields hk hgo hturn hturn.move (fun _ => rfl) hy hlt

/-- A reset that waits for its mutex gets it, or another call does, or the task that dials inside
it lets go. -/
theorem CallYielding.reset_yields [Inhabited SR] (h : CallYielding forever i q)
    (hbusy : ¬ q.state.Busy) (hc : q.state.callers[j]? = some c)
    (hcall : c.call = some (build, .resetClient .locking))
    (hwhy : c.task.hold ≠ .read ∨ c.task.precedesCancel = true ∨ ToldToStop q.state.pool) :
    Yields forever i q := by
  have hfits := h.orderly.fits c (List.mem_of_getElem? hc)
  cases hfree : q.state.free build with
  | true =>
    cases hqueue : q.queue (.client build) with
    | nil =>
      have hun : c.awaits = false := by rw [Caller.awaits, hcall]
      exact h.call_yields hc hcall rfl hun fun _ => ⟨hfree, .inl hqueue⟩
    | cons k rest =>
      have hk := h.line.waiting (.client build) k (by rw [hqueue]; exact List.mem_cons_self)
      obtain ⟨d, hd, hw⟩ := Option.bind_eq_some_iff.1 hk
      obtain ⟨t, hdcall, hl⟩ := Caller.waits_client hw
      have hun : d.awaits = false := by
        rw [Caller.awaits, hdcall]
        cases t with
        | newStreamFut host pc => cases pc <;> first | rfl | cases hl
        | resetClient pc => rfl
        | _ => cases hl
      exact h.call_yields hd hdcall (ClientTask.over_of_locking hl) hun
        fun _ => ⟨hfree, .inr ⟨rest, hqueue⟩⟩
  | false =>
    obtain ⟨k, d, v, hk, hdial, hhold⟩ := Calling.exists_holder hfree
    have hdhold := (h.orderly.fits d (List.mem_of_getElem? hk)).hold
      (by rw [hdial]; exact Option.some_ne_none _)
    have htold : ToldToStop q.state.pool := by
      obtain hw | hpre | htold := hwhy
      · -- a writer would keep the other one out
        have hwrite : c.task.hold = .write := by
          cases hh : c.task.hold with
          | released => exact absurd hh (hfits.hold (by rw [hcall]; exact Option.some_ne_none _))
          | read => exact absurd hh hw
          | write => rfl
        obtain rfl := h.orderly.exclusive j k _ _ (Calling.task_getElem? hc)
          (Calling.task_getElem? hk) hwrite hdhold
        cases hc.symm.trans hk
        cases hcall.symm.trans hdial
        exact absurd rfl hhold
      · rw [Caller.Fits, hcall] at hfits
        obtain ⟨_, r, hr, _⟩ := hfits
        cases (Task.request_of_precedesCancel hpre).symm.trans hr
      · exact htold
    obtain ⟨host, rfl⟩ := Calling.exists_dial hbusy hk hdial hhold
    exact h.dialler_yields htold hk hdial

/-- How a call can be left without an answer, where nobody is at work: it is dropped, or it is
over. Only a reset has to wait for its mutex. -/
theorem Calling.call_ends (hbusy : ¬ s.Busy) (hc : s.callers[j]? = some c)
    (hcall : c.call = some (build, t)) (hserves : t.Serves r) :
    t.ends .cancelled = true ∨
    (t.ends .err = true ∧ c.awaits = false ∧ ∃ host, r = .newStreamFut host) ∨
    t = .resetClient .locking := by
  cases t with
  | newStreamFut host pc =>
    cases pc with
    | locking => exact .inl rfl
    | connecting => exact .inl rfl
    | looping =>
      refine absurd ⟨j, c, build, _, hc, hcall, rfl, rfl, ?_⟩ hbusy
      rw [Caller.awaits, hcall]
    | checked conn client =>
      refine absurd ⟨j, c, build, _, hc, hcall, rfl, rfl, ?_⟩ hbusy
      rw [Caller.awaits, hcall]
  | streamed conn client host => exact .inl rfl
  | finished => exact .inl rfl
  | failed err =>
    have hun : c.awaits = false := by rw [Caller.awaits, hcall]
    cases r with
    | resetClient => cases hserves
    | newStreamFut host => exact .inr (.inl ⟨rfl, hun, host, rfl⟩)
  | resetClient pc =>
    have hun : c.awaits = false := by rw [Caller.awaits, hcall]
    cases pc with
    | locking => exact .inr (.inr rfl)
    | locked => exact absurd ⟨j, c, build, _, hc, hcall, rfl, rfl, hun⟩ hbusy
    | storing => exact absurd ⟨j, c, build, _, hc, hcall, rfl, rfl, hun⟩ hbusy
  | connection conn => cases r <;> cases hserves

/-- Until the request is at its end, there are steps towards it that need no answer. Calls that do
not wait for the network come first; then every mutex is free or with one that dials. -/
theorem CallYielding.yields [Inhabited SR] (h : CallYielding forever i q)
    (hend : q.state.pool.tasks[i]? ≠ some .finished) : Yields forever i q := by
  by_cases hbusy : q.state.Busy
  · obtain ⟨j, c, build, t, hc, hcall, hover, hl, hun⟩ := hbusy
    exact h.call_yields hc hcall hover hun fun h => absurd h (Bool.eq_false_iff.1 hl)
  · obtain ⟨t, ht, hw, hi, hy, hlt⟩ | ⟨j, t, m, rest, hturn, hwhy, hy, hlt⟩ :=
      h.yielding.turn forever hend
    · obtain ⟨c, hc, rfl⟩ := Calling.exists_caller ht
      have hwanted := Calling.wanted_eq forever hc
      rw [Caller.wants_outside (h.outside hc hw), if_neg hw] at hwanted
      have hstep := FairLocks.step_of_wait hwanted hi
      have hback : backendQueue
          ⟨q.state, Function.update q.queue .backend (q.queue .backend ++ [i])⟩ =
            ⟨q.state.pool, q.queue .backend ++ [i]⟩ :=
        congrArg (FairLock.Queued.mk q.state.pool)
          (Function.update_self CallLock.backend (q.queue .backend ++ [i]) q.queue)
      refine ⟨[.wait i], _, run_cons.2 ⟨_, hstep, rfl⟩, (allSteps_cons hstep).2 ⟨trivial, trivial⟩,
        ⟨h.orderly, h.line.step hstep, ?_⟩, ?_⟩
      · rw [hback]
        exact hy
      · rw [callYieldRank, callYieldRank, hback]
        exact Nat.add_lt_add_right (Nat.mul_lt_mul_of_pos_left hlt (Nat.succ_pos 7)) _
    · obtain ⟨c, hc, rfl⟩ := Calling.exists_caller hturn.task
      cases hcall : c.call with
      | none =>
        have hgo : c.mayGoOn .cancelled = true := by
          rw [Caller.mayGoOn, hcall]
          rfl
        exact h.cancel_yields hc hgo hturn hturn.move (fun _ => rfl) hy hlt
      | some call =>
        obtain ⟨build, u⟩ := call
        have hgo : ∀ {o}, u.ends o = true → c.mayGoOn o = true := by
          intro o h
          rw [Caller.mayGoOn, hcall]
          exact h
        have hfits := h.orderly.fits c (List.mem_of_getElem? hc)
        rw [Caller.Fits, hcall] at hfits
        obtain ⟨_, r, hr, hserves⟩ := hfits
        obtain hcancel | ⟨herr, hun, host, rfl⟩ | rfl := Calling.call_ends hbusy hc hcall hserves
        · exact h.cancel_yields hc (hgo hcancel) hturn hturn.move (fun _ => rfl) hy hlt
        · refine h.cancel_yields hc (hgo herr) hturn (Task.move_err hr hturn.move) ?_ hy hlt
          intro ha
          cases hun.symm.trans ha
        · exact h.reset_yields hbusy hc hcall hwhy

end

/-- With the calls on the clients' mutexes, too, and under all the queues, an admin request can be
completed without an answer from the network and without another request, unless somebody can come
before it under a new token. -/
theorem call_request_needs_no_answer [Inhabited SR] (forever : Option Nat) (b : Backend K)
    (acts : List (FairLock.QueueAct (CallingAct SR) (CallOutcome SR)))
    (q : FairLocks.Queued (Calling K SR) CallLock) (i : Nat) (c : Caller SR)
    (hr : run (FairLocks.step (callLocks K SR forever)) ⟨.start b, fun _ => []⟩ acts = some q)
    (hc : q.state.callers[i]? = some c) (hreq : c.task.isRequest = true)
    (hway : ClearWay i c.task (backendQueue q)) :
    ∃ more q', run (FairLocks.step (callLocks K SR forever)) q more = some q' ∧
      AllSteps (FairLocks.step (callLocks K SR forever)) CallUnanswered q more ∧
      ∃ c', q'.state.callers[i]? = some c' ∧ c'.task = .finished := by
  obtain ⟨plain, hp⟩ := callLocks_run hr
  have ho : q.state.Orderly := Calling.run_orderly hp
  have hline : FairLocks.InLine (callLocks K SR forever) q := FairLocks.InLine.of_run hr
  have hy : Yielding i (backendQueue q) := by
    refine ⟨ho.exclusive, ⟨hline.nodup .backend, ?_⟩, c.task, Calling.task_getElem? hc, .inl hreq,
      hway.clear ho.exclusive⟩
    intro j hj
    obtain ⟨d, hd, hw⟩ := Option.bind_eq_some_iff.1 (hline.waiting .backend j hj)
    refine ⟨d.task, Calling.task_getElem? hd, ?_⟩
    exact Caller.waits_backend hw
  obtain ⟨more, q', hmore, hall, _, hend⟩ := exists_run_of_runs (CallYielding forever i)
    (fun q => q.state.pool.tasks[i]? = some .finished) (callYieldRank i)
    (fun h hend => h.yields hend) ⟨ho, hline, hy⟩
  obtain ⟨c', hc', hfin⟩ := Calling.exists_caller hend
  exact ⟨more, q', hmore, hall, c', hc', hfin⟩

/-- The reset waits for the client's mutex behind a connection that waits for it and one that dials,
and the protocol switch is in front of it for the lock. -/
theorem queuedCalls_need_no_answer :
    ∃ q : FairLocks.Queued (Calling ℚ Nat) CallLock,
      run (FairLocks.step (callLocks ℚ Nat none)) ⟨.start plainBackend, fun _ => []⟩ queuedCalls =
        some q ∧
      q.queue (.client 0) = [1, 2] ∧ q.queue .backend = [3] ∧
      ∃ more q', run (FairLocks.step (callLocks ℚ Nat none)) q more = some q' ∧
        AllSteps (FairLocks.step (callLocks ℚ Nat none)) CallUnanswered q more ∧
        ∃ c', q'.state.callers[2]? = some c' ∧ c'.task = .finished := by
  obtain ⟨q, hq, hclient, hbackend, htasks, hc⟩ :
      ∃ q : FairLocks.Queued (Calling ℚ Nat) CallLock,
        run (FairLocks.step (callLocks ℚ Nat none)) ⟨.start plainBackend, fun _ => []⟩
          queuedCalls = some q ∧
        q.queue (.client 0) = [1, 2] ∧ q.queue .backend = [3] ∧
        q.state.pool.tasks = [.handleConnection false (.attempting ⟨.http2, 0⟩),
          .handleConnection false (.attempting ⟨.http2, 0⟩), .resetBackend .resetting,
          .switchBackendProtocol workingTls .cancelled] ∧
        q.state.backend.cancellationToken.cancelled = true := ⟨_, rfl, rfl, rfl, rfl, rfl⟩
  have hbehind : RequestsBehind 2 (backendQueue q) := by
    constructor
    · intro j t _ ht hw
      have hm := List.mem_of_getElem? ht
      rw [backendQueue, htasks] at hm
      simp only [List.mem_cons, List.not_mem_nil, or_false] at hm
      obtain rfl | rfl | rfl | rfl := hm <;> cases hw
    · rw [backendQueue, hbackend]
      exact List.pairwise_singleton _ 3
  obtain ⟨c, hcaller, htask⟩ : ∃ c, q.state.callers[2]? = some c ∧
      c.task = .resetBackend .resetting :=
    Calling.exists_caller (by rw [htasks]; rfl)
  exact ⟨q, hq, hclient, hbackend, call_request_needs_no_answer none plainBackend queuedCalls q 2 c
    hq hcaller (by rw [htask]; rfl) (.inr ⟨hc, hbehind⟩)⟩

end Octoproxy
