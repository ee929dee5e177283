import Octoproxy.Calls
import Octoproxy.Drain
import Octoproxy.FairLocks

namespace Octoproxy
open TaskPool Transition
set_option autoImplicit true

/-- The backend's lock, or the mutex of a client. -/
inductive CallLock where
  | backend
  | client (build : Nat)
deriving DecidableEq

def ClientTask.locking : ClientTask SR → Bool
  | .newStreamFut _ .locking => true
  | .resetClient .locking => true
  | _ => false

def ClientTask.over : ClientTask SR → Bool
  | .streamed _ _ _ => true
  | .failed _ => true
  | .finished => true
  | _ => false

/-- The lock that the next step takes, of the task or of its call. -/
def Caller.wants (c : Caller SR) : Option CallLock :=
  match c.call with
  | some (build, t) => if t.locking then some (.client build) else none
  | none => if c.task.wants = .released then none else some .backend

/-- A cancelled attempt stops waiting for the mutex. -/
def Caller.quits (c : Caller SR) : CallOutcome SR → Bool
  | .task o => c.call.any fun call => call.2.locking && call.2.ends o
  | .call _ => false

def CallingAct.isRun : CallingAct SR → Bool
  | .run _ _ => true
  | _ => false

namespace Client

def isPoisoned (s : Client SR) : Bool :=
  match s.inner with
  | .poisoned => true
  | _ => false

/-- How far a call that has the mutex is from the end of its loop. -/
def loopRank (s : Client SR) : Nat :=
  match s.inner with
  | .poisoned => 1
  | .connected conn _ => if s.isFinished conn then 5 else 2
  | .notConnected => 4

end Client

/-- How far a call is from its end, if the connection it asks for is established. -/
def ClientTask.rank (s : Client SR) : ClientTask SR → Nat
  | .newStreamFut _ .locking => 6
  | .newStreamFut _ .looping => s.loopRank
  | .newStreamFut _ .connecting => 3
  | .newStreamFut _ (.checked _ _) => 1
  | .resetClient .locking => 3
  | .resetClient .locked => 2
  | .resetClient .storing => 1
  | _ => 0

/-- The attempt that the call is part of, or the one that comes after it, is going to fail. -/
def ClientTask.doomed (s : Client SR) : ClientTask SR → Bool
  | .newStreamFut _ .locking => s.isPoisoned
  | .newStreamFut _ .looping => s.isPoisoned
  | .failed _ => true
  | .finished => s.isPoisoned
  | _ => false

/-- How far a task is from its end. A doomed attempt costs a round more, and a task that has
selected its backend cannot know. -/
def Caller.rank (clients : Nat → Client SR) (c : Caller SR) : Nat :=
  match c.call with
  | some (build, t) =>
    8 * (c.task.rank + if t.doomed (clients build) then 10 else 0) + t.rank (clients build)
  | none =>
    match c.task with
    | .handleConnection _ .selected => 8 * 14
    | t => 8 * t.rank

section
variable {s : Calling K SR}

theorem Calling.step_callers (h : s.step forever (.run i o) = some s') :
    ∃ c new, s'.callers = s.callers.set i c ++ new := by
  cases o with
  | task o =>
    obtain ⟨c, m, _, _, _, rfl⟩ := step_task h
    exact ⟨_, _, rfl⟩
  | call o =>
    obtain ⟨c, build, t, m, _, _, _, _, rfl⟩ := step_call h
    exact ⟨_, [], (List.append_nil _).symm⟩

theorem Calling.enter_callers {a : CallingAct SR} (ha : a.isRun = false)
    (h : s.step forever a = some s') : ∃ new, s'.callers = s.callers ++ new := by
  cases a with
  | enter r head =>
    cases h
    exact ⟨_, rfl⟩
  | finish k =>
    obtain ⟨build, conn, _, rfl⟩ := step_finish h
    exact ⟨[], (List.append_nil _).symm⟩
  | run i o => cases ha

end

def callLocks (K SR : Type) (forever : Option Nat) :
    FairLocks.System (Calling K SR) (Caller SR) CallLock (CallingAct SR) (CallOutcome SR) where
  tasks := Calling.callers
  wants := Caller.wants
  quits := Caller.quits
  enter s a := if a.isRun then none else s.step forever a
  move s i o := s.step forever (.run i o)
  entered := by
    intro s a s' h
    split at h
    · cases h
    · rename_i ha
      exact Calling.enter_callers (Bool.eq_false_iff.2 ha) h
  moved := Calling.step_callers

section
variable {cl : Client SR} {t : ClientTask SR}

theorem Client.isFinished_push (cl : Client SR) (inner : ClientState SR) :
    (⟨inner, cl.handles ++ [⟨false, false⟩]⟩ : Client SR).isFinished cl.handles.length = false := by
  simp only [isFinished, List.getElem?_concat_length]
  rfl

def ClientTask.Proceeds (cl : Client SR) (free : Bool) (t : ClientTask SR) : Prop :=
  ∃ o m, o ≠ .dropped ∧ t.move cl true free o = some m ∧ m.task.rank m.state < t.rank cl ∧
    (m.task.doomed m.state = true → t.doomed cl = true) ∧
    (m.state.isPoisoned = true → cl.isPoisoned = true)

theorem ClientOutcome.ok_ne_dropped (client : SR) : (.ok client : ClientOutcome SR) ≠ .dropped := by
  intro h
  cases h

theorem ClientTask.looping_proceeds [Inhabited SR] (cl : Client SR) (free : Bool)
    (host : Option ConnectHeadBuf) :
    (newStreamFut host .looping : ClientTask SR).Proceeds cl free := by
  have hok := ClientOutcome.ok_ne_dropped (default : SR)
  have hno : ∀ {p : Prop}, false = true → p := fun h => absurd h Bool.false_ne_true
  cases hi : cl.inner with
  | poisoned =>
    refine ⟨.ok default, ⟨cl, .failed "connection is poisoned", []⟩, hok, ?_, ?_, ?_, id⟩
    · simp only [move, Client.newStreamFut, hi]
    · simp only [rank, Client.loopRank, hi]
      omega
    · intro _
      simp only [doomed, Client.isPoisoned, hi]
  | notConnected =>
    refine ⟨.ok default, ⟨cl, .newStreamFut host .connecting, []⟩, hok, ?_, ?_, hno, id⟩
    · simp only [move, Client.newStreamFut, hi]
    · simp only [rank, Client.loopRank, hi]
      omega
  | connected conn client =>
    cases hf : cl.isFinished conn with
    | true =>
      refine ⟨.ok default, ⟨{ cl with inner := .notConnected }, .newStreamFut host .looping, []⟩,
        hok, ?_, ?_, hno, hno⟩
      · simp only [move, Client.newStreamFut, hi, hf, if_true]
      · simp only [rank, Client.loopRank, hi, hf, if_true]
        omega
    | false =>
      refine ⟨.ok default, ⟨cl, .newStreamFut host (.checked conn client), []⟩, hok, ?_, ?_, hno,
        id⟩
      · simp only [move, Client.newStreamFut, hi, hf]
        rfl
      · simp only [rank, Client.loopRank, hi, hf]
        exact Nat.lt_succ_self 1

theorem ClientTask.locked_proceeds [Inhabited SR] (cl : Client SR) (free : Bool) :
    (resetClient .locked : ClientTask SR).Proceeds cl free := by
  have hok := ClientOutcome.ok_ne_dropped (default : SR)
  have hno : ∀ {p : Prop}, false = true → p := fun h => absurd h Bool.false_ne_true
  cases hi : cl.inner with
  | poisoned =>
    refine ⟨.ok default, ⟨cl, .resetClient .storing, []⟩, hok, ?_, Nat.lt_succ_self 1, hno, id⟩
    simp only [move, Client.resetClient, hi]
  | notConnected =>
    refine ⟨.ok default, ⟨cl, .finished, []⟩, hok, ?_, Nat.succ_pos 1, ?_, id⟩
    · simp only [move, Client.resetClient, hi]
    · intro hd
      simp only [doomed, Client.isPoisoned, hi] at hd
      cases hd
  | connected conn client =>
    refine ⟨.ok default, ⟨cl.abort conn, .resetClient .storing, []⟩, hok, ?_,
      Nat.lt_succ_self 1, hno, id⟩
    simp only [move, Client.resetClient, hi]

theorem ClientTask.proceeds [Inhabited SR] (cl : Client SR) (ht : t.Serves r)
    (hover : t.over = false) (hfree : t.locking = true → free = true) : t.Proceeds cl free := by
  have hok := ClientOutcome.ok_ne_dropped (default : SR)
  have hno : ∀ {p : Prop}, false = true → p := fun h => absurd h Bool.false_ne_true
  cases t with
  | newStreamFut host pc =>
    cases pc with
    | locking =>
      obtain rfl := hfree rfl
      refine ⟨.ok default, ⟨cl, .newStreamFut host .looping, []⟩, hok, rfl, ?_, id, id⟩
      simp only [rank, Client.loopRank]
      split
      · omega
      · split <;> omega
      · omega
    | looping => exact looping_proceeds cl free host
    | checked conn client => exact ⟨.ok default, _, hok, rfl, Nat.zero_lt_one, hno, id⟩
    | connecting =>
      refine ⟨.ok default, _, hok, rfl, ?_, hno, hno⟩
      simp only [rank, Client.loopRank, Client.isFinished_push]
      exact Nat.lt_succ_self 2
  | resetClient pc =>
    cases pc with
    | locking =>
      obtain rfl := hfree rfl
      exact ⟨.ok default, _, hok, rfl, Nat.lt_succ_self 2, hno, id⟩
    | locked => exact locked_proceeds cl free
    | storing => exact ⟨.ok default, _, hok, rfl, Nat.zero_lt_one, hno, hno⟩
  | connection conn => cases r <;> cases ht
  | streamed conn client host => cases hover
  | failed err => cases hover
  | finished => cases hover

theorem ClientTask.hold_of_locking (h : t.locking = true) : t.hold = .released := by
  cases t with
  | newStreamFut host pc => cases pc <;> first | rfl | cases h
  | resetClient pc => cases pc <;> first | rfl | cases h
  | _ => rfl

theorem ClientTask.over_of_locking (h : t.locking = true) : t.over = false := by
  cases t with
  | newStreamFut host pc => rfl
  | resetClient pc => rfl
  | connection conn => rfl
  | _ => cases h

theorem ClientTask.holds (ht : t.Serves r) (hl : t.locking = false) (ho : t.over = false) :
    t.hold = .write := by
  cases t with
  | newStreamFut host pc => cases pc <;> first | rfl | cases hl
  | resetClient pc => cases pc <;> first | rfl | cases hl
  | connection conn => cases r <;> cases ht
  | _ => cases ho

theorem ClientTask.rank_of_released {cl' : Client SR} (ht : t.hold = .released)
    (hp : cl'.isPoisoned = true → cl.isPoisoned = true) :
    t.rank cl' = t.rank cl ∧ (t.doomed cl' = true → t.doomed cl = true) := by
  cases t with
  | newStreamFut host pc => cases pc <;> first | exact ⟨rfl, hp⟩ | cases ht
  | resetClient pc => cases pc <;> exact ⟨rfl, id⟩
  | finished => exact ⟨rfl, hp⟩
  | _ => exact ⟨rfl, id⟩

theorem surcharge_le {p q : Bool} (h : p = true → q = true) :
    (if p then 10 else 0) ≤ if q then 10 else 0 := by
  cases p with
  | false => exact Nat.zero_le _
  | true => rw [h rfl]

theorem Caller.rank_le {c : Caller SR} {clients clients' : Nat → Client SR}
    (h : ∀ build t, c.call = some (build, t) → clients' build = clients build ∨
      t.hold = .released ∧
        ((clients' build).isPoisoned = true → (clients build).isPoisoned = true)) :
    c.rank clients' ≤ c.rank clients := by
  unfold rank
  split
  · rename_i build t hcall
    obtain hsame | ⟨hfree, hp⟩ := h build t hcall
    · rw [hsame]
    · obtain ⟨hrank, hdoom⟩ := ClientTask.rank_of_released hfree hp
      have hle := surcharge_le hdoom
      omega
  · exact Nat.le_refl _

end

section
variable {s : Calling K SR} {c d : Caller SR} {t u : ClientTask SR} {i j build : Nat}

theorem Calling.Orderly.apart (h : s.Orderly) (hij : i ≠ j) (hi : s.callers[i]? = some c)
    (hj : s.callers[j]? = some d) (hc : c.call = some (build, t)) (hd : d.call = some (build, u))
    (ht : t.hold = .write) : u.hold = .released := by
  obtain ⟨moves, q, hq, hcov⟩ := h.clients build
  have hall := (clientAfter_orderly hq).exclusive.covers hcov
  have hpair := (List.pairwise_flatMap.1 (List.pairwise_append.1 hall).1).2
  have hct : t ∈ c.here build := by
    rw [Caller.here, hc]
    simp
  have hdu : u ∈ d.here build := by
    rw [Caller.here, hd]
    simp
  obtain ⟨hil, rfl⟩ := List.getElem?_eq_some_iff.1 hi
  obtain ⟨hjl, rfl⟩ := List.getElem?_eq_some_iff.1 hj
  rw [List.pairwise_iff_getElem] at hpair
  obtain hlt | hlt := Nat.lt_or_gt_of_ne hij
  · exact (hpair i j hil hjl hlt t hct u hdu).1 ht
  · exact (hpair j i hjl hil hlt u hdu t hct).2 ht

theorem Calling.released_of_free (h : s.free build = true) (hj : s.callers[j]? = some d)
    (hd : d.call = some (build, u)) : u.hold = .released := by
  have hdu : u ∈ d.here build := by
    rw [Caller.here, hd]
    simp
  have hmem : u ∈ s.callsOn build :=
    List.mem_append_left _ (List.mem_flatMap.2 ⟨d, List.mem_of_getElem? hj, hdu⟩)
  exact beq_iff_eq.1 (List.all_eq_true.1 h u hmem)

/-- A call that can have its mutex, if it needs it, goes on. The other calls on its client are
outside the mutex. -/
theorem Calling.call_goes_on [Inhabited SR] (forever : Option Nat) (h : s.Orderly)
    (hc : s.callers[i]? = some c) (hcall : c.call = some (build, t)) (hover : t.over = false)
    (hfree : t.locking = true → s.free build = true) :
    ∃ o m, s.step forever (.run i (.call o)) = some (s.afterCall i c build m) ∧
      m.task.rank m.state < t.rank (s.clients build) ∧
      (m.task.doomed m.state = true → t.doomed (s.clients build) = true) ∧
      (m.state.isPoisoned = true → (s.clients build).isPoisoned = true) ∧
      ∀ (j : Nat) d u, i ≠ j → s.callers[j]? = some d → d.call = some (build, u) →
        u.hold = .released := by
  have hfits := h.fits c (List.mem_of_getElem? hc)
  rw [Caller.Fits, hcall] at hfits
  obtain ⟨_, r, _, hserves⟩ := hfits
  obtain ⟨o, m, ho, hm, hrank, hdoom, hpoison⟩ :=
    ClientTask.proceeds (s.clients build) hserves hover hfree
  refine ⟨o, m, ?_, hrank, hdoom, hpoison, ?_⟩
  · have hrun : s.runCall i c o = some (s.afterCall i c build m) := by
      cases o with
      | dropped => exact absurd rfl ho
      | _ => simp only [runCall, hcall, Option.bind_some, hm, Option.map_some]
    simp only [step, hc, Option.bind_some, hrun]
  · intro j d u hij hj hd
    cases hl : t.locking with
    | true => exact released_of_free (hfree hl) hj hd
    | false => exact h.apart hij hc hj hcall hd (ClientTask.holds hserves hl hover)

def Calling.Settles (forever : Option Nat) (s : Calling K SR) (i : Nat) : Prop :=
  ∃ o s', s.step forever (.run i o) = some s' ∧
    total (Caller.rank s'.clients) s'.callers < total (Caller.rank s.clients) s.callers

theorem Calling.call_settles [Inhabited SR] (forever : Option Nat) (h : s.Orderly)
    (hc : s.callers[i]? = some c) (hcall : c.call = some (build, t)) (hover : t.over = false)
    (hfree : t.locking = true → s.free build = true) :
    s.Settles forever i := by
  obtain ⟨o, m, hs, hrank, hdoom, hpoison, hothers⟩ :=
    call_goes_on forever h hc hcall hover hfree
  have hself : (s.afterCall i c build m).clients build = m.state := Function.update_self ..
  refine ⟨.call o, _, hs, total_set_lt hc ?_ ?_⟩
  · have hle := surcharge_le hdoom
    simp only [Caller.rank, hcall, hself]
    omega
  · intro j d hij hj
    apply Caller.rank_le
    intro build' u hd
    by_cases hb : build' = build
    · subst hb
      rw [hself]
      exact .inr ⟨hothers j d u hij hj hd, hpoison⟩
    · exact .inl (Function.update_of_ne hb ..)

end

def Task.weight (poisoned : Bool) : Task → Nat
  | .handleConnection _ .selected => 8 * 14
  | .handleConnection _ (.attempting _) => 8 * (3 + if poisoned then 10 else 0) + 6
  | .retryForever (.attempting _ _) => 8 * (3 + if poisoned then 10 else 0) + 6
  | .retryForever (.resetting _) => 8 * 4 + 3
  | .resetBackend .resetting => 8 * 3 + 3
  | .switchBackendProtocol _ .installed => 8 * 1 + 3
  | t => 8 * t.rank

theorem Caller.arrived_rank (b : Backend K) (host : Option ConnectHeadBuf) (t : Task)
    (clients : Nat → Client SR) :
    (Caller.arrived b host t).rank clients = t.weight (clients b.client.build).isPoisoned := by
  cases t with
  | handleConnection named pc => cases pc <;> rfl
  | retryForever pc => cases pc <;> rfl
  | switchBackendStatus pc => cases pc <;> rfl
  | resetBackend pc => cases pc <;> rfl
  | switchBackendProtocol env pc => cases pc <;> rfl
  | finished => rfl

theorem Caller.spawned_rank (clients : Nat → Client SR) {ts : List Task}
    (h : ∀ t ∈ ts, t = .retryForever .starting) :
    total (Caller.rank clients) (ts.map Caller.spawned) = 8 * total Task.rank ts := by
  induction ts with
  | nil => rfl
  | cons t ts ih =>
    obtain rfl := h t List.mem_cons_self
    have htail := ih fun u hu => h u (List.mem_cons_of_mem _ hu)
    have hhead : (Caller.spawned (.retryForever .starting)).rank clients = 8 * 9 := rfl
    have hrank : Task.rank (.retryForever .starting) = 9 := rfl
    rw [List.map_cons, total, total, htail, hhead, hrank]
    omega

theorem Caller.rank_outside {c : Caller SR} (hc : c.call = none) (clients : Nat → Client SR) :
    8 * c.task.rank ≤ c.rank clients := by
  simp only [rank, hc]
  split
  · rename_i ht
    rw [ht]
    exact Nat.le_of_ble_eq_true rfl
  · exact Nat.le_refl _

/-- A step outside the calls that brings the task nearer to its end does so with its calls too. -/
theorem Task.Step.weight {t : Task} {b : Backend K} (h : t.Step forever b readable writable m)
    (hr : t.request host = none) (hlt : m.task.rank + n < t.rank) (p : Bool)
    (clients : Nat → Client SR) :
    m.task.weight p + 8 * n < (⟨t, host, none⟩ : Caller SR).rank clients := by
  cases h with
  | attempt hfree =>
    simp only [Task.rank] at hlt
    simp only [Task.weight, Caller.rank]
    split <;> omega
  | retryAttempt => cases hr
  | _ =>
    simp only [Task.rank] at hlt
    simp only [Task.weight, Caller.rank, Task.rank]
    omega

section
variable {s : Calling K SR} {c : Caller SR}

theorem Calling.total_afterTask (hc : s.callers[i]? = some c)
    (hm : c.task.Step forever s.backend readable writable m)
    (hlt : m.task.weight (s.clients m.state.client.build).isPoisoned +
      8 * total Task.rank m.spawned < c.rank s.clients) :
    total (Caller.rank (s.afterTask i c.host m).clients) (s.afterTask i c.host m).callers <
      total (Caller.rank s.clients) s.callers := by
  have hset := total_set (Caller.rank s.clients) hc (.arrived m.state c.host m.task)
  have hstarting : ∀ u ∈ m.spawned, u = .retryForever .starting := fun u hu => hm.spawned hu
  have hnew := Caller.spawned_rank s.clients hstarting
  rw [Caller.arrived_rank] at hset
  simp only [afterTask, total_append]
  omega

theorem Calling.task_settles (forever : Option Nat) (h : s.Orderly)
    (hc : s.callers[i]? = some c) (hcall : c.call = none) (hpos : 0 < c.task.rank)
    (hread : c.task.wants = .read → (backendTasks K forever).readable s.pool = true)
    (hwrite : c.task.wants = .write → (backendTasks K forever).writable s.pool = true) :
    s.Settles forever i := by
  obtain ⟨o, m, hm, hlt⟩ :=
    (backendTasks_ranked K forever).proceed hpos s.backend _ _ hread hwrite
  have hfits := h.fits c (List.mem_of_getElem? hc)
  rw [Caller.Fits, hcall] at hfits
  have hstep := Task.move_step hm
  refine ⟨.task o, s.afterTask i c.host m, ?_, total_afterTask hc hstep ?_⟩
  · have hgo : c.mayGoOn o = true := by
      rw [Caller.mayGoOn, hcall]
      rfl
    have hm' : c.task.move forever s.backend ((backendTasks K forever).readable s.pool)
      ((backendTasks K forever).writable s.pool) o = some m := hm
    simp only [step, hc, Option.bind_some, runTask, if_pos hgo, hm', Option.map_some]
  · have hw := hstep.weight hfits hlt (s.clients m.state.client.build).isPoisoned s.clients
    have hself : (⟨c.task, c.host, none⟩ : Caller SR) = c := by
      rw [← hcall]
    rwa [hself] at hw

theorem Calling.end_settles (forever : Option Nat) (hc : s.callers[i]? = some c)
    (hcall : c.call = some (build, t)) (ho : t.ends o = true)
    (hm : c.task.move forever s.backend ((backendTasks K forever).readable s.pool)
      ((backendTasks K forever).writable s.pool) o = some m)
    (hlt : m.task.weight (s.clients m.state.client.build).isPoisoned +
      8 * total Task.rank m.spawned <
        8 * (c.task.rank + if t.doomed (s.clients build) then 10 else 0)) :
    s.Settles forever i := by
  refine ⟨.task o, s.afterTask i c.host m, ?_, total_afterTask hc (Task.move_step hm) ?_⟩
  · have hgo : c.mayGoOn o = true := by
      rw [Caller.mayGoOn, hcall]
      exact ho
    simp only [step, hc, Option.bind_some, runTask, if_pos hgo, hm, Option.map_some]
  · simp only [Caller.rank, hcall]
    omega

theorem ClientTask.ended_stream {t : ClientTask SR} (ht : t.Serves (.newStreamFut host))
    (hover : t.over = true) (cl : Client SR) :
    t.ends .ok = true ∨ t.ends .err = true ∧ t.doomed cl = true := by
  cases t with
  | streamed conn client host' => exact .inl rfl
  | failed err => exact .inr ⟨rfl, rfl⟩
  | finished => cases ht
  | _ => cases hover

theorem ClientTask.ended_reset {t : ClientTask SR} (ht : t.Serves .resetClient)
    (hover : t.over = true) : t = .finished := by
  cases t with
  | finished => rfl
  | streamed conn client host => cases ht
  | failed err => cases ht
  | _ => cases hover

theorem Calling.ended_settles (forever : Option Nat) (h : s.Orderly)
    (hc : s.callers[i]? = some c) (hcall : c.call = some (build, t)) (hover : t.over = true) :
    s.Settles forever i := by
  have hfits := h.fits c (List.mem_of_getElem? hc)
  rw [Caller.Fits, hcall] at hfits
  obtain ⟨rfl, r, hr, hserves⟩ := hfits
  obtain ⟨task, host, call⟩ := c
  cases task with
  | handleConnection named pc =>
    cases pc with
    | attempting cl =>
      cases hr
      obtain ho | ⟨ho, hd⟩ :=
        ClientTask.ended_stream hserves hover (s.clients s.backend.client.build)
      · refine end_settles forever hc hcall ho rfl ?_
        simp only [Task.weight, Task.rank, total]
        omega
      · refine end_settles forever hc hcall ho rfl ?_
        simp only [Task.weight, Task.rank, hd, total, if_true]
        omega
    | _ => cases hr
  | retryForever pc =>
    cases pc with
    | attempting left cl =>
      cases hr
      obtain ho | ⟨ho, hd⟩ :=
        ClientTask.ended_stream hserves hover (s.clients s.backend.client.build)
      · refine end_settles forever hc hcall ho rfl ?_
        simp only [Task.weight, Task.rank, total]
        omega
      · refine end_settles forever hc hcall ho rfl ?_
        simp only [Task.weight, Task.rank, hd, total, if_true]
        omega
    | resetting left =>
      -- the reset does not end the poisoning, so the next attempt is doomed with this one
      cases hr
      obtain rfl := ClientTask.ended_reset hserves hover
      refine end_settles (o := .ok) forever hc hcall rfl rfl ?_
      change 8 * (3 + if (s.clients s.backend.client.build).isPoisoned then 10 else 0) + 6 <
        8 * (4 + if (s.clients s.backend.client.build).isPoisoned then 10 else 0)
      omega
    | _ => cases hr
  | switchBackendStatus pc => cases hr
  | resetBackend pc =>
    cases pc with
    | resetting =>
      cases hr
      obtain rfl := ClientTask.ended_reset hserves hover
      refine end_settles (o := .ok) forever hc hcall rfl rfl ?_
      simp only [Task.weight, Task.rank, total]
      omega
    | _ => cases hr
  | switchBackendProtocol env pc =>
    cases pc with
    | installed =>
      cases hr
      obtain rfl := ClientTask.ended_reset hserves hover
      refine end_settles (o := .ok) forever hc hcall rfl rfl ?_
      simp only [Task.weight, Task.rank, total]
      omega
    | _ => cases hr
  | finished => cases hr

theorem Caller.Fits.rank_pos {b : Backend K} (h : c.Fits b) (hc : c.call ≠ none) :
    0 < c.task.rank := by
  apply Nat.pos_of_ne_zero
  intro hz
  have hh := h.hold hc
  rw [Task.rank_eq_zero hz] at hh
  exact hh rfl

theorem Caller.Fits.done {b : Backend K} (h : c.Fits b) (hz : c.rank clients = 0) :
    c.task = .finished ∧ c.call = none := by
  by_cases hc : c.call = none
  · have hle := Caller.rank_outside hc clients
    exact ⟨Task.rank_eq_zero (by omega), hc⟩
  · have hpos := h.rank_pos hc
    obtain ⟨⟨build, t⟩, hcall⟩ := Option.ne_none_iff_exists'.1 hc
    simp only [Caller.rank, hcall] at hz
    omega

theorem Calling.wanted_eq (forever : Option Nat) (hc : s.callers[i]? = some c) :
    (callLocks K SR forever).wanted s i = c.wants :=
  congrArg (·.bind Caller.wants) hc

theorem Caller.waits_client (h : c.wants = some (.client build)) :
    ∃ t, c.call = some (build, t) ∧ t.locking = true := by
  unfold wants at h
  split at h
  · rename_i build' t hcall
    split at h
    · rename_i hl
      cases h
      exact ⟨t, hcall, hl⟩
    · cases h
  · split at h <;> cases h

theorem Calling.free_of_locking (h : ∀ c ∈ s.callers, ∀ build t, c.call = some (build, t) →
    t.locking = true) (build : Nat) : s.free build = true := by
  apply List.all_eq_true.2
  intro u hu
  apply beq_iff_eq.2
  obtain hu | hu := List.mem_append.1 hu
  · obtain ⟨c, hc, hu⟩ := List.mem_flatMap.1 hu
    unfold Caller.here at hu
    split at hu
    · rename_i b t hcall
      split at hu
      · rw [List.mem_singleton.1 hu]
        exact ClientTask.hold_of_locking (h c hc b t hcall)
      · cases hu
    · cases hu
  · obtain ⟨x, _, hu⟩ := List.mem_flatMap.1 hu
    split at hu
    · rw [List.mem_singleton.1 hu]
      rfl
    · cases hu

theorem Caller.wants_outside (h : c.call = none) :
    c.wants = if c.task.wants = .released then none else some .backend := by
  rw [wants, h]

theorem Calling.outside_settles (forever : Option Nat) (h : s.Orderly)
    (hpos : 0 < total (Caller.rank s.clients) s.callers)
    (hcalls : ∀ c ∈ s.callers, c.call = none) :
    (∃ (i : Nat) (c : Caller SR), s.callers[i]? = some c ∧ c.wants = none ∧ s.Settles forever i) ∨
    (∃ (i : Nat) (c : Caller SR), s.callers[i]? = some c ∧ c.wants = some .backend) ∧
      ∀ (i : Nat) c, s.callers[i]? = some c → c.wants = some .backend → s.Settles forever i := by
  have hout : ∀ {i : Nat} {c}, s.callers[i]? = some c → c.call = none :=
    fun hc => hcalls _ (List.mem_of_getElem? hc)
  by_cases hgo : ∃ c ∈ s.callers, 0 < c.task.rank ∧ c.task.wants = .released
  · left
    obtain ⟨c, hc, hp, hw⟩ := hgo
    obtain ⟨i, hi⟩ := List.mem_iff_getElem?.1 hc
    refine ⟨i, c, hi, ?_, ?_⟩
    · rw [Caller.wants_outside (hout hi), if_pos hw]
    · apply task_settles forever h hi (hout hi) hp
      · rw [hw]
        exact nofun
      · rw [hw]
        exact nofun
  · -- everyone who has something left to do waits for the backend's lock
    right
    have hfree : ∀ u ∈ s.pool.tasks, Task.hold u = .released := by
      intro u hu
      obtain ⟨c, hc, rfl⟩ := List.mem_map.1 hu
      by_contra hh
      obtain ⟨hw, hp⟩ := (backendTasks_ranked K forever).holder hh
      exact hgo ⟨c, hc, hp, hw⟩
    have hwritable : (backendTasks K forever).writable s.pool = true := Program.writable_of hfree
    have hreadable := Program.readable_of_writable hwritable
    constructor
    · obtain ⟨i, c, hi, hp⟩ := exists_of_total_pos hpos
      have hw : c.task.wants ≠ .released := by
        intro hw
        refine hgo ⟨c, List.mem_of_getElem? hi, Nat.pos_of_ne_zero ?_, hw⟩
        intro hz
        have htask := Task.rank_eq_zero hz
        simp only [Caller.rank, hout hi, htask, Task.rank] at hp
        omega
      exact ⟨i, c, hi, by rw [Caller.wants_outside (hout hi), if_neg hw]⟩
    · intro i c hc hw
      have hw' : c.task.wants ≠ .released := by
        intro hz
        have hnone : c.wants = none := by rw [Caller.wants_outside (hout hc), if_pos hz]
        cases hnone.symm.trans hw
      exact task_settles forever h hc (hout hc) ((backendTasks_ranked K forever).waits hw')
        (fun _ => hreadable) (fun _ => hwritable)

/-- While every call waits for its mutex, any of them can have it. -/
theorem Calling.locking_settles [Inhabited SR] (forever : Option Nat) (h : s.Orderly)
    (hlocking : ∀ c ∈ s.callers, ∀ build t, c.call = some (build, t) → t.locking = true)
    (hc : s.callers[i]? = some c) (hw : c.wants = some (.client build)) :
    s.Settles forever i := by
  obtain ⟨t, hcall, hl⟩ := Caller.waits_client hw
  have hfree := free_of_locking hlocking build
  exact call_settles forever h hc hcall (ClientTask.over_of_locking hl) fun _ => hfree

theorem Calling.inside_settles [Inhabited SR] (forever : Option Nat) (h : s.Orderly)
    (hc : s.callers[i]? = some c) (hcall : c.call = some (build, t)) (hl : ¬ t.locking = true) :
    c.wants = none ∧ s.Settles forever i := by
  have hw : c.wants = none := by
    simp only [Caller.wants, hcall, if_neg hl]
  refine ⟨hw, ?_⟩
  cases hover : t.over with
  | false => exact call_settles forever h hc hcall hover fun h => absurd h hl
  | true => exact ended_settles forever h hc hcall hover

/-- Unless some call or task can go on without a lock, there is a lock that is free. -/
theorem Calling.settles [Inhabited SR] (forever : Option Nat) (h : s.Orderly)
    (hpos : 0 < total (Caller.rank s.clients) s.callers) :
    (∃ (i : Nat) (c : Caller SR), s.callers[i]? = some c ∧ c.wants = none ∧ s.Settles forever i) ∨
    ∃ l, (∃ (i : Nat) (c : Caller SR), s.callers[i]? = some c ∧ c.wants = some l) ∧
      ∀ (i : Nat) c, s.callers[i]? = some c → c.wants = some l → s.Settles forever i := by
  by_cases hcalls : ∀ c ∈ s.callers, c.call = none
  · obtain hgo | hlock := outside_settles forever h hpos hcalls
    · exact .inl hgo
    · exact .inr ⟨.backend, hlock⟩
  · push Not at hcalls
    obtain ⟨c, hmem, hne⟩ := hcalls
    by_cases hlocking : ∀ c ∈ s.callers, ∀ build t, c.call = some (build, t) → t.locking = true
    · right
      obtain ⟨⟨build, t⟩, hcall⟩ := Option.ne_none_iff_exists'.1 hne
      obtain ⟨i, hi⟩ := List.mem_iff_getElem?.1 hmem
      refine ⟨.client build, ⟨i, c, hi, ?_⟩, ?_⟩
      · simp only [Caller.wants, hcall, hlocking c hmem build t hcall, if_true]
      · exact fun j d hd hw => locking_settles forever h hlocking hd hw
    · left
      push Not at hlocking
      obtain ⟨d, hd, build, t, hcall, hl⟩ := hlocking
      obtain ⟨i, hi⟩ := List.mem_iff_getElem?.1 hd
      exact ⟨i, d, hi, inside_settles forever h hi hcall hl⟩

end

theorem Caller.wants_pos {c : Caller SR} (h : c.wants = some l) (clients : Nat → Client SR) :
    0 < c.rank clients := by
  cases hcall : c.call with
  | none =>
    have hw : c.task.wants ≠ .released := by
      intro hw
      have hnone : c.wants = none := by simp only [wants, hcall, if_pos hw]
      cases hnone.symm.trans h
    have hpos := (backendTasks_ranked Unit none).waits hw
    have hle := rank_outside hcall clients
    omega
  | some call =>
    obtain ⟨build, t⟩ := call
    have hl : t.locking = true := by
      by_contra hl
      have hnone : c.wants = none := by simp only [wants, hcall, if_neg hl]
      cases hnone.symm.trans h
    have hpos : 0 < t.rank (clients build) := by
      cases t with
      | newStreamFut host pc => cases pc <;> first | exact Nat.succ_pos _ | cases hl
      | resetClient pc => cases pc <;> exact Nat.succ_pos _
      | _ => cases hl
    simp only [rank, hcall]
    omega

theorem callLocks_ranked [Inhabited SR] (K : Type) (forever : Option Nat) :
    FairLocks.Ranked (callLocks K SR forever) Calling.Orderly
      fun s => total (Caller.rank s.clients) s.callers where
  keeps := fun h hs => h.step hs
  rest := by
    intro s _ hzero i
    by_contra hne
    obtain ⟨l, hl⟩ := Option.ne_none_iff_exists'.1 hne
    obtain ⟨c, hc, hw⟩ := Option.bind_eq_some_iff.1 hl
    have hz := rank_of_total hzero (List.mem_of_getElem? hc)
    exact absurd hz (Nat.ne_of_gt (Caller.wants_pos hw s.clients))
  progress := by
    intro s h hpos
    obtain ⟨i, c, hc, hw, o, s', hs, hlt⟩ | ⟨l, ⟨i, c, hc, hw⟩, hall⟩ :=
      Calling.settles forever h hpos
    · exact .inl ⟨i, o, s', (Calling.wanted_eq forever hc).trans hw, hs, hlt⟩
    · refine .inr ⟨l, ⟨i, (Calling.wanted_eq forever hc).trans hw⟩, ?_⟩
      intro j hj
      obtain ⟨d, hd, hdw⟩ := Option.bind_eq_some_iff.1 hj
      exact hall j d hd hdw

theorem callLocks_run {q q' : FairLocks.Queued (Calling K SR) CallLock}
    (hr : run (FairLocks.step (callLocks K SR forever)) q acts = some q') :
    ∃ plain, run (Calling.step forever) q.state plain = some q'.state := by
  apply FairLocks.run_plain _ (fun hs => ⟨_, hs⟩) hr
  intro s a s' hs
  simp only [callLocks] at hs
  split at hs
  · cases hs
  · exact ⟨a, hs⟩

/-- Under the queues of the backend's lock and of its clients' mutexes, which tasks take one
inside the other, the tasks that are there can all run to their ends without another request. -/
theorem calls_no_deadlock [Inhabited SR] (forever : Option Nat) (b : Backend K)
    (acts : List (FairLock.QueueAct (CallingAct SR) (CallOutcome SR)))
    (q : FairLocks.Queued (Calling K SR) CallLock)
    (hr : run (FairLocks.step (callLocks K SR forever)) ⟨.start b, fun _ => []⟩ acts = some q) :
    (∃ plain, run (Calling.step forever) (.start b) plain = some q.state) ∧
    ∃ more q', run (FairLocks.step (callLocks K SR forever)) q more = some q' ∧
      AllSteps (FairLocks.step (callLocks K SR forever)) FairLocks.Internal q more ∧
      (∀ l, q'.queue l = []) ∧
      ∀ c ∈ q'.state.callers, c.task = .finished ∧ c.call = none := by
  obtain ⟨plain, hp⟩ := callLocks_run hr
  obtain ⟨more, q', hmore, hall, hq, ho, hzero⟩ :=
    (callLocks_ranked K forever).drains (FairLocks.InLine.of_run hr) (Calling.run_orderly hp)
  exact ⟨⟨plain, hp⟩, more, q', hmore, hall, hq,
    fun c hc => (ho.fits c hc).done (rank_of_total hzero hc)⟩

/-- A connection dials while another one and a reset of the backend wait for the client's mutex,
and a protocol switch waits behind them for the lock. -/
def queuedCalls : List (FairLock.QueueAct (CallingAct Nat) (CallOutcome Nat)) :=
  let task (i : Nat) : FairLock.QueueAct (CallingAct Nat) (CallOutcome Nat) := .run i (.task .ok)
  let call (i : Nat) : FairLock.QueueAct (CallingAct Nat) (CallOutcome Nat) :=
    .run i (.call (.ok 7))
  [.enter (.enter (.connect false) (.fromStr "example.com:80")), task 0, .wait 0, task 0, .wait 0,
    call 0, call 0, .enter (.enter (.connect false) (.fromStr "example.org:80")), task 1, .wait 1,
    task 1, .wait 1, .enter (.enter .reset (.fromStr "")), .wait 2, task 2, task 2, .wait 2,
    .enter (.enter (.switchProtocol workingTls) (.fromStr "")), .wait 3, task 3, task 3, .wait 3]

theorem queuedCalls_settle :
    ∃ q : FairLocks.Queued (Calling ℚ Nat) CallLock,
      run (FairLocks.step (callLocks ℚ Nat none)) ⟨.start plainBackend, fun _ => []⟩ queuedCalls =
        some q ∧
      q.queue (.client 0) = [1, 2] ∧ q.queue .backend = [3] ∧
      ∃ more q', run (FairLocks.step (callLocks ℚ Nat none)) q more = some q' ∧
        (∀ l, q'.queue l = []) ∧
        ∀ c ∈ q'.state.callers, c.task = .finished ∧ c.call = none := by
  obtain ⟨q, hq, hclient, hbackend⟩ : ∃ q : FairLocks.Queued (Calling ℚ Nat) CallLock,
      run (FairLocks.step (callLocks ℚ Nat none)) ⟨.start plainBackend, fun _ => []⟩ queuedCalls =
        some q ∧ q.queue (.client 0) = [1, 2] ∧ q.queue .backend = [3] := ⟨_, rfl, rfl, rfl⟩
  obtain ⟨_, more, q', hmore, _, hempty, hdone⟩ :=
    calls_no_deadlock none plainBackend queuedCalls q hq
  exact ⟨q, hq, hclient, hbackend, more, q', hmore, hempty, hdone⟩

end Octoproxy
