import Octoproxy.FairLock
import Octoproxy.Reachable

namespace Octoproxy
open TaskPool Transition
set_option autoImplicit true

/-- How the task's next step takes the lock. A peer without a rule reads the statuses without
it. -/
def Task.wants : Task → Hold
  | .handleConnection named .select => if named then .read else .released
  | .handleConnection _ .selected => .read
  | .handleConnection _ (.connected _) => .read
  | .retryForever .starting => .read
  | .retryForever (.ticking (some 0)) => .released
  | .retryForever (.ticking _) => .read
  | .switchBackendStatus .starting => .read
  | .switchBackendStatus .cancelled => .read
  | .switchBackendStatus .reopened => .write
  | .resetBackend .starting => .read
  | .resetBackend .released => .write
  | .switchBackendProtocol _ .starting => .read
  | .switchBackendProtocol _ .cancelled => .write
  | _ => .released

/-- How far a task is from its end if every attempt and every transfer succeeds. -/
def Task.rank : Task → Nat
  | .handleConnection _ .select => 1
  | .handleConnection _ (.transferring _) => 1
  | .handleConnection _ (.connected _) => 2
  | .handleConnection _ (.attempting _) => 3
  | .handleConnection _ .selected => 4
  | .handleConnection _ .marked => 11
  | .handleConnection _ .failed => 12
  | .retryForever .recovered => 1
  | .retryForever .succeeded => 2
  | .retryForever (.attempting _ _) => 3
  | .retryForever (.resetting _) => 4
  | .retryForever (.storing _) => 5
  | .retryForever (.flagging _) => 6
  | .retryForever (.checking _) => 7
  | .retryForever (.ticking _) => 8
  | .retryForever .starting => 9
  | .retryForever (.missed _) => 9
  | .retryForever (.remarking _) => 10
  | .retryForever (.failed _) => 11
  | .switchBackendStatus .closing => 1
  | .switchBackendStatus .spawning => 10
  | .switchBackendStatus .renewing => 11
  | .switchBackendStatus .reopened => 12
  | .switchBackendStatus .reopening => 13
  | .switchBackendStatus .reading => 14
  | .switchBackendStatus .cancelled => 15
  | .switchBackendStatus .cancelling => 16
  | .switchBackendStatus .starting => 17
  | .resetBackend .renewing => 1
  | .resetBackend .released => 2
  | .resetBackend .resetting => 3
  | .resetBackend .cancelling => 4
  | .resetBackend .starting => 5
  | .switchBackendProtocol _ .installed => 1
  | .switchBackendProtocol _ .switching => 2
  | .switchBackendProtocol _ .cancelled => 3
  | .switchBackendProtocol _ .cancelling => 4
  | .switchBackendProtocol _ .starting => 5
  | .finished => 0

section
variable (b : Backend K) {readable writable : Bool}

theorem Backend.handleConnection_proceeds (named : Bool) (pc : HandlePc)
    (hr : Task.wants (.handleConnection named pc) = .read → readable = true) :
    ∃ o m, b.handleConnection readable named pc o = some m ∧
      m.task.rank + total Task.rank m.spawned < Task.rank (.handleConnection named pc) := by
  cases pc with
  | select =>
    have hfree : (readable || !named) = true := by
      cases named with
      | false => exact Bool.or_true _
      | true =>
        rw [hr rfl]
        rfl
    refine ⟨.err, ⟨b, .finished, []⟩, ?_, Nat.succ_pos _⟩
    simp only [Backend.handleConnection, waitFor, hfree]
    rfl
  | selected =>
    rw [hr rfl]
    exact ⟨.ok, _, rfl, Nat.lt_add_one _⟩
  | connected c =>
    rw [hr rfl]
    exact ⟨.ok, _, rfl, Nat.lt_add_one _⟩
  | _ => exact ⟨.ok, _, rfl, Nat.lt_add_one _⟩

theorem Backend.retryForever_proceeds (forever : Option Nat) (pc : RetryPc)
    (hr : Task.wants (.retryForever pc) = .read → readable = true) :
    ∃ o m, b.retryForever forever readable pc o = some m ∧
      m.task.rank + total Task.rank m.spawned < Task.rank (.retryForever pc) := by
  cases pc with
  | starting =>
    rw [hr rfl]
    cases hi : interval b.retryTimeout with
    | none => exact ⟨.ok, ⟨b, .finished, []⟩, by rw [Backend.retryForever, hi]; rfl, Nat.succ_pos _⟩
    | some _ => exact ⟨.ok, _, by rw [Backend.retryForever, hi]; rfl, Nat.lt_add_one _⟩
  | ticking left =>
    cases left with
    | none =>
      rw [hr rfl]
      exact ⟨.ok, _, rfl, Nat.lt_add_one _⟩
    | some n =>
      cases n with
      | zero => exact ⟨.ok, _, rfl, Nat.succ_pos _⟩
      | succ n =>
        rw [hr rfl]
        exact ⟨.ok, _, rfl, Nat.lt_add_one _⟩
  | checking left =>
    cases hs : b.getStatus with
    | normal => exact ⟨.ok, ⟨b, .finished, []⟩, by rw [Backend.retryForever, hs], Nat.succ_pos _⟩
    | forceClosed =>
      exact ⟨.ok, ⟨b, .finished, []⟩, by rw [Backend.retryForever, hs], Nat.succ_pos _⟩
    | closed => exact ⟨.ok, _, by rw [Backend.retryForever, hs], Nat.lt_add_one _⟩
    | unknown => exact ⟨.ok, _, by rw [Backend.retryForever, hs], Nat.lt_add_one _⟩
  | flagging left =>
    cases hf : b.retrying with
    | true => exact ⟨.ok, ⟨b, .finished, []⟩, by rw [Backend.retryForever, if_pos hf],
        Nat.succ_pos _⟩
    | false => exact ⟨.ok, _, by rw [Backend.retryForever, hf]; rfl, Nat.lt_add_one _⟩
  | failed left =>
    by_cases hs : b.getStatus = .closed
    · exact ⟨.ok, ⟨b, .retryForever (.missed left), []⟩,
        by rw [Backend.retryForever, if_neg (not_not.2 hs)], Nat.lt_succ_of_lt (Nat.lt_add_one _)⟩
    · exact ⟨.ok, _, by rw [Backend.retryForever, if_pos hs], Nat.lt_add_one _⟩
  | _ => exact ⟨.ok, _, rfl, Nat.lt_add_one _⟩

theorem Backend.switchBackendStatus_proceeds (pc : StatusPc)
    (hr : Task.wants (.switchBackendStatus pc) = .read → readable = true)
    (hw : Task.wants (.switchBackendStatus pc) = .write → writable = true) :
    ∃ m, b.switchBackendStatus readable writable pc = some m ∧
      m.task.rank + total Task.rank m.spawned < Task.rank (.switchBackendStatus pc) := by
  cases pc with
  | starting =>
    rw [hr rfl]
    exact ⟨_, rfl, Nat.lt_add_one _⟩
  | cancelled =>
    rw [hr rfl]
    exact ⟨_, rfl, Nat.lt_add_one _⟩
  | reopened =>
    rw [hw rfl]
    exact ⟨_, rfl, Nat.lt_add_one _⟩
  | reading =>
    by_cases hs : b.getStatus = .forceClosed
    · exact ⟨_, by rw [Backend.switchBackendStatus, hs], Nat.lt_add_one _⟩
    · refine ⟨⟨b, .switchBackendStatus .closing, []⟩, ?_, Nat.le_add_left 2 12⟩
      cases hs' : b.getStatus with
      | forceClosed => exact absurd hs' hs
      | _ => rw [Backend.switchBackendStatus, hs']
  | _ => exact ⟨_, rfl, Nat.lt_add_one _⟩

theorem Backend.resetBackend_proceeds (pc : ResetPc)
    (hr : Task.wants (.resetBackend pc) = .read → readable = true)
    (hw : Task.wants (.resetBackend pc) = .write → writable = true) :
    ∃ m, b.resetBackend readable writable pc = some m ∧
      m.task.rank + total Task.rank m.spawned < Task.rank (.resetBackend pc) := by
  cases pc with
  | starting =>
    rw [hr rfl]
    exact ⟨_, rfl, Nat.lt_add_one _⟩
  | released =>
    rw [hw rfl]
    exact ⟨_, rfl, Nat.lt_add_one _⟩
  | _ => exact ⟨_, rfl, Nat.lt_add_one _⟩

theorem Backend.switchBackendProtocol_proceeds (env : BuildEnv) (pc : ProtocolPc)
    (hr : Task.wants (.switchBackendProtocol env pc) = .read → readable = true)
    (hw : Task.wants (.switchBackendProtocol env pc) = .write → writable = true) :
    ∃ m, b.switchBackendProtocol readable writable env pc = some m ∧
      m.task.rank + total Task.rank m.spawned < Task.rank (.switchBackendProtocol env pc) := by
  cases pc with
  | starting =>
    rw [hr rfl]
    exact ⟨_, rfl, Nat.lt_add_one _⟩
  | cancelled =>
    rw [hw rfl]
    exact ⟨_, rfl, Nat.lt_add_one _⟩
  | switching =>
    cases hi : b.installNext env with
    | mk b' r =>
      cases r with
      | error e => exact ⟨⟨b', .finished, []⟩, by rw [Backend.switchBackendProtocol, hi],
          Nat.succ_pos _⟩
      | ok _ => exact ⟨_, by rw [Backend.switchBackendProtocol, hi], Nat.lt_add_one _⟩
  | _ => exact ⟨_, rfl, Nat.lt_add_one _⟩

end

theorem Task.rank_eq_zero {t : Task} (h : t.rank = 0) : t = .finished := by
  cases t with
  | handleConnection named pc => cases pc <;> cases h
  | retryForever pc => cases pc <;> cases h
  | switchBackendStatus pc => cases pc <;> cases h
  | resetBackend pc => cases pc <;> cases h
  | switchBackendProtocol env pc => cases pc <;> cases h
  | finished => rfl

theorem Task.hold_or_wants (t : Task) : t.hold = .released ∨ t.wants = .released := by
  cases t with
  | handleConnection named pc => cases pc <;> first | exact .inl rfl | exact .inr rfl
  | retryForever pc => cases pc <;> first | exact .inl rfl | exact .inr rfl
  | switchBackendStatus pc => cases pc <;> first | exact .inl rfl | exact .inr rfl
  | resetBackend pc => cases pc <;> first | exact .inl rfl | exact .inr rfl
  | switchBackendProtocol env pc => cases pc <;> first | exact .inl rfl | exact .inr rfl
  | finished => exact .inl rfl

theorem backendTasks_ranked (K : Type) (forever : Option Nat) :
    FairLock.Ranked (backendTasks K forever) Task.wants Task.rank where
  holder := by
    intro t ht
    refine ⟨t.hold_or_wants.resolve_left ht, Nat.pos_of_ne_zero ?_⟩
    intro h
    rw [Task.rank_eq_zero h] at ht
    exact ht rfl
  waits := by
    intro t ht
    apply Nat.pos_of_ne_zero
    intro h
    rw [Task.rank_eq_zero h] at ht
    exact ht rfl
  proceed := by
    intro t ht b r w hr hw
    cases t with
    | handleConnection named pc => exact b.handleConnection_proceeds named pc hr
    | retryForever pc => exact b.retryForever_proceeds forever pc hr
    | switchBackendStatus pc => exact ⟨.ok, b.switchBackendStatus_proceeds pc hr hw⟩
    | resetBackend pc => exact ⟨.ok, b.resetBackend_proceeds pc hr hw⟩
    | switchBackendProtocol env pc =>
      exact ⟨.ok, b.switchBackendProtocol_proceeds env pc hr hw⟩
    | finished => cases ht

/-- Under the queue of the lock, whatever has been asked of a new backend, the tasks that are
there can all run to their ends without another request. -/
theorem no_deadlock [NatCast K] (forever : Option Nat) (env : BuildEnv) (now : Nat)
    (cfg : FileBackendConfig) (b : Backend K) (acts : List (FairLock.QueueAct Request Outcome))
    (q : FairLock.Queued (Backend K) Task) (hb : Backend.new env now cfg = .ok b)
    (hr : run (FairLock.step (backendTasks K forever) Task.wants) ⟨⟨b, []⟩, []⟩ acts = some q) :
    Reachable forever q.pool ∧
    ∃ acts' q', run (FairLock.step (backendTasks K forever) Task.wants) q acts' = some q' ∧
      AllSteps (FairLock.step (backendTasks K forever) Task.wants) FairLock.Internal q acts' ∧
      q'.queue = [] ∧ ∀ t ∈ q'.pool.tasks, t = .finished := by
  obtain ⟨acts₁, hrun⟩ := FairLock.run_pool hr
  obtain ⟨acts', q', hr', hall, hq, hranks⟩ :=
    (backendTasks_ranked K forever).drains (FairLock.InLine.of_run hr)
  exact ⟨⟨env, now, cfg, b, acts₁, hb, hrun⟩, acts', q', hr', hall, hq,
    fun t ht => Task.rank_eq_zero (hranks t ht)⟩

/-- A tunnel holds the lock for reading, and two requests queue behind it for writing. -/
def twoRequestsWait : List (FairLock.QueueAct Request Outcome) :=
  [.enter (.connect false), .run 0 .ok, .wait 0, .run 0 .ok, .run 0 .ok, .wait 0, .run 0 .ok,
    .enter .reset, .enter (.switchProtocol workingTls), .wait 1, .run 1 .ok, .run 1 .ok, .run 1 .ok,
    .wait 2, .run 2 .ok, .run 2 .ok, .wait 1, .wait 2]

theorem no_deadlock_two_requests :
    ∃ q, run (FairLock.step (backendTasks ℚ none) Task.wants) ⟨⟨plainBackend, []⟩, []⟩
        twoRequestsWait = some q ∧ q.queue = [1, 2] ∧
      ∃ acts' q', run (FairLock.step (backendTasks ℚ none) Task.wants) q acts' = some q' ∧
        AllSteps (FairLock.step (backendTasks ℚ none) Task.wants) FairLock.Internal q acts' ∧
        q'.queue = [] ∧ ∀ t ∈ q'.pool.tasks, t = .finished := by
  refine ⟨_, rfl, rfl, ?_⟩
  exact (no_deadlock none workingTls 0 plainConfig plainBackend twoRequestsWait _ rfl rfl).2

end Octoproxy
