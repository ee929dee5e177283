import Octoproxy.Drain
import Octoproxy.RetryBudget

namespace Octoproxy
open TaskPool Transition
set_option autoImplicit true

/-- A step of the tasks that are there, without an answer from the network. -/
def Unanswered (_ : FairLock.Queued (Backend K) Task) : FairLock.QueueAct Request Outcome → Prop
  | .wait _ => True
  | .run _ .cancelled => True
  | _ => False

/-- How many steps a holder of the lock takes until it lets go, if every attempt and every
transfer is cancelled. -/
def Task.grip : Task → Nat
  | .handleConnection _ (.attempting _) => 3
  | .handleConnection _ .failed => 2
  | .handleConnection _ .marked => 1
  | .handleConnection _ (.transferring _) => 1
  | .retryForever (.checking _) => 8
  | .retryForever (.flagging _) => 7
  | .retryForever (.storing _) => 6
  | .retryForever (.resetting _) => 5
  | .retryForever (.attempting _ _) => 4
  | .retryForever (.failed _) => 3
  | .retryForever (.remarking _) => 2
  | .retryForever (.missed _) => 1
  | .retryForever .succeeded => 2
  | .retryForever .recovered => 1
  | .switchBackendStatus .cancelling => 1
  | .switchBackendStatus .reading => 2
  | .switchBackendStatus .closing => 1
  | .switchBackendStatus .reopening => 1
  | .switchBackendStatus .renewing => 1
  | .resetBackend .cancelling => 2
  | .resetBackend .resetting => 1
  | .resetBackend .renewing => 1
  | .switchBackendProtocol _ .cancelling => 1
  | .switchBackendProtocol _ .switching => 2
  | .switchBackendProtocol _ .installed => 1
  | _ => 0

def Task.precedesCancel : Task → Bool
  | .switchBackendStatus .starting => true
  | .switchBackendStatus .cancelling => true
  | .resetBackend .starting => true
  | .resetBackend .cancelling => true
  | .switchBackendProtocol _ .starting => true
  | .switchBackendProtocol _ .cancelling => true
  | _ => false

/-- A request that has got the lock for writing, and needs no other. -/
def Task.past : Task → Bool
  | .switchBackendStatus .renewing => true
  | .switchBackendStatus .spawning => true
  | .resetBackend .renewing => true
  | .switchBackendProtocol _ .switching => true
  | .switchBackendProtocol _ .installed => true
  | .finished => true
  | _ => false

section
variable {t : Task} {b : Backend K}

theorem Task.grip_le (t : Task) : t.grip ≤ 8 := by
  cases t with
  | handleConnection named pc => cases pc <;> exact Nat.le_of_ble_eq_true rfl
  | retryForever pc => cases pc <;> exact Nat.le_of_ble_eq_true rfl
  | switchBackendStatus pc => cases pc <;> exact Nat.le_of_ble_eq_true rfl
  | resetBackend pc => cases pc <;> exact Nat.le_of_ble_eq_true rfl
  | switchBackendProtocol env pc => cases pc <;> exact Nat.le_of_ble_eq_true rfl
  | finished => exact Nat.zero_le 8

theorem Task.wants_of_precedesCancel (h : t.precedesCancel = true) : t.wants ≠ .write := by
  cases t with
  | switchBackendStatus pc => cases pc <;> first | exact absurd h Bool.false_ne_true | exact nofun
  | resetBackend pc => cases pc <;> first | exact absurd h Bool.false_ne_true | exact nofun
  | switchBackendProtocol env pc =>
    cases pc <;> first | exact absurd h Bool.false_ne_true | exact nofun
  | _ => cases h

theorem Task.Step.spawned_grip (h : t.Step forever b readable writable m) :
    total Task.grip m.spawned = 0 := by
  cases h <;> rfl

theorem Task.Step.keeps_cancelled (h : t.Step forever b readable writable m)
    (ht : t.hold ≠ .write) (hc : b.cancellationToken.cancelled = true) :
    m.state.cancellationToken.cancelled = true := by
  cases h with
  | statusRenew => exact absurd rfl ht
  | resetRenew => exact absurd rfl ht
  | protocolError _ => exact absurd rfl ht
  | protocolInstall _ => exact absurd rfl ht
  | statusCancel => rfl
  | resetCancel => rfl
  | protocolCancel => rfl
  | _ => exact hc

theorem Task.Step.keeps_request (h : t.Step forever b readable writable m)
    (ht : t.isRequest = true) : m.task.isRequest = true ∨ m.task = .finished := by
  cases h <;> first | exact .inl rfl | exact .inr rfl | cases ht

theorem Task.Step.waits_write (h : t.Step forever b readable writable m)
    (hm : m.task.hold = .write) : t.hold = .write ∨ t.wants = .write := by
  cases h <;> first | exact .inl rfl | exact .inr rfl | cases hm

theorem Task.past_of_write (ht : t.isRequest = true) (hw : t.hold = .write) : t.past = true := by
  cases t with
  | switchBackendStatus pc => cases pc <;> first | rfl | cases hw
  | resetBackend pc => cases pc <;> first | rfl | cases hw
  | switchBackendProtocol env pc => cases pc <;> first | rfl | cases hw
  | _ => cases ht

theorem Task.Step.past (h : t.Step forever b readable writable m) (ht : t.past = true) :
    m.task.past = true := by
  cases h <;> first | rfl | cases ht

theorem Task.wants_of_past (h : t.past = true) : t.wants = .released := by
  cases t with
  | switchBackendStatus pc => cases pc <;> first | rfl | cases h
  | resetBackend pc => cases pc <;> first | rfl | cases h
  | switchBackendProtocol env pc => cases pc <;> first | rfl | cases h
  | finished => rfl
  | _ => cases h

theorem Task.hold_of_past (h : t.past = true) : t.hold ≠ .read := by
  cases t with
  | switchBackendStatus pc =>
    cases pc <;> first | exact absurd h Bool.false_ne_true | exact nofun
  | resetBackend pc => cases pc <;> first | exact absurd h Bool.false_ne_true | exact nofun
  | switchBackendProtocol env pc =>
    cases pc <;> first | exact absurd h Bool.false_ne_true | exact nofun
  | finished => exact nofun
  | _ => cases h

theorem Task.isRequest_of_wants (h : t.wants = .write) : t.isRequest = true := by
  cases t with
  | handleConnection named pc =>
    cases pc with
    | select => cases named <;> cases h
    | _ => cases h
  | retryForever pc =>
    cases pc with
    | ticking left =>
      match left with
      | some 0 => cases h
      | none => cases h
      | some (n + 1) => cases h
    | _ => cases h
  | finished => cases h
  | _ => rfl

theorem Task.Step.cancels (h : t.Step forever b readable writable m)
    (ht : t.precedesCancel = true) :
    m.task.precedesCancel = true ∨ m.state.cancellationToken.cancelled = true := by
  cases h <;> first | exact .inl rfl | exact .inr rfl | cases ht

theorem Backend.handleConnection_lets_go (named : Bool) (pc : HandlePc)
    (hh : Task.hold (.handleConnection named pc) ≠ .released)
    (hc : b.cancellationToken.cancelled = true) :
    ∃ m, b.handleConnection readable named pc .cancelled = some m ∧
      m.task.grip < Task.grip (.handleConnection named pc) := by
  cases pc with
  | attempting c =>
    exact ⟨⟨b, .handleConnection named .failed, []⟩,
      by simp only [Backend.handleConnection, Backend.race, if_pos hc], Nat.lt_add_one _⟩
  | transferring c =>
    exact ⟨⟨b, .finished, []⟩,
      by simp only [Backend.handleConnection, Backend.race, if_pos hc], Nat.lt_add_one _⟩
  | failed => exact ⟨_, rfl, Nat.lt_add_one _⟩
  | marked => exact ⟨_, rfl, Nat.lt_add_one _⟩
  | _ => exact absurd rfl hh

theorem Backend.retryForever_lets_go (pc : RetryPc)
    (hh : Task.hold (.retryForever pc) ≠ .released)
    (hc : b.cancellationToken.cancelled = true) :
    ∃ m, b.retryForever forever readable pc .cancelled = some m ∧
      m.task.grip < Task.grip (.retryForever pc) := by
  cases pc with
  | starting => exact absurd rfl hh
  | ticking left => exact absurd rfl hh
  | checking left =>
    cases hs : b.getStatus with
    | normal => exact ⟨⟨b, .finished, []⟩, by rw [Backend.retryForever, hs], Nat.succ_pos _⟩
    | forceClosed => exact ⟨⟨b, .finished, []⟩, by rw [Backend.retryForever, hs], Nat.succ_pos _⟩
    | closed => exact ⟨_, by rw [Backend.retryForever, hs], Nat.lt_add_one _⟩
    | unknown => exact ⟨_, by rw [Backend.retryForever, hs], Nat.lt_add_one _⟩
  | flagging left =>
    cases hf : b.retrying with
    | true => exact ⟨⟨b, .finished, []⟩, by rw [Backend.retryForever, if_pos hf], Nat.succ_pos _⟩
    | false => exact ⟨_, by rw [Backend.retryForever, hf]; rfl, Nat.lt_add_one _⟩
  | attempting left c =>
    exact ⟨⟨b, .retryForever (.failed left), []⟩,
      by simp only [Backend.retryForever, Backend.race, if_pos hc], Nat.lt_add_one _⟩
  | failed left =>
    by_cases hs : b.getStatus = .closed
    · exact ⟨⟨b, .retryForever (.missed left), []⟩,
        by rw [Backend.retryForever, if_neg (not_not.2 hs)], Nat.lt_succ_of_lt (Nat.lt_add_one _)⟩
    · exact ⟨_, by rw [Backend.retryForever, if_pos hs], Nat.lt_add_one _⟩
  | _ => exact ⟨_, rfl, Nat.lt_add_one _⟩

theorem Task.request_lets_go (ht : t.isRequest = true) (hh : t.hold ≠ .released) :
    ∃ m, t.move forever b readable writable .cancelled = some m ∧ m.task.grip < t.grip := by
  cases t with
  | switchBackendStatus pc =>
    cases pc with
    | reading =>
      cases hs : b.getStatus <;>
        exact ⟨_, by rw [Task.move, Backend.switchBackendStatus, hs], Nat.lt_add_one _⟩
    | starting => exact absurd rfl hh
    | cancelled => exact absurd rfl hh
    | reopened => exact absurd rfl hh
    | spawning => exact absurd rfl hh
    | _ => exact ⟨_, rfl, Nat.lt_add_one _⟩
  | resetBackend pc =>
    cases pc with
    | starting => exact absurd rfl hh
    | released => exact absurd rfl hh
    | _ => exact ⟨_, rfl, Nat.lt_add_one _⟩
  | switchBackendProtocol env pc =>
    cases pc with
    | starting => exact absurd rfl hh
    | cancelled => exact absurd rfl hh
    | switching =>
      cases hi : b.installNext env with
      | mk b' r =>
        cases r with
        | error e => exact ⟨_, Task.move_switching_error hi, Nat.succ_pos _⟩
        | ok _ => exact ⟨_, Task.move_switching_ok hi, Nat.lt_add_one _⟩
    | _ => exact ⟨_, rfl, Nat.lt_add_one _⟩
  | _ => cases ht

theorem Task.lets_go (hh : t.hold ≠ .released)
    (hc : t.isRequest = true ∨ b.cancellationToken.cancelled = true) :
    ∃ m, t.move forever b readable writable .cancelled = some m ∧ m.task.grip < t.grip := by
  cases hreq : t.isRequest with
  | true => exact Task.request_lets_go hreq hh
  | false =>
    have hc' : b.cancellationToken.cancelled = true := by
      apply hc.resolve_left
      rw [hreq]
      exact nofun
    cases t with
    | handleConnection named pc => exact Backend.handleConnection_lets_go named pc hh hc'
    | retryForever pc => exact Backend.retryForever_lets_go pc hh hc'
    | finished => exact absurd rfl hh
    | _ => cases hreq

theorem Task.request_proceeds (forever : Option Nat) (ht : t.isRequest = true)
    (hr : t.wants = .read → readable = true) (hw : t.wants = .write → writable = true) :
    ∃ m, t.move forever b readable writable .cancelled = some m ∧ m.task.rank < t.rank := by
  have hdrop : ∀ {m : Move (Backend K) Task},
      m.task.rank + total Task.rank m.spawned < t.rank → m.task.rank < t.rank := by
    intro m hm
    omega
  cases t with
  | switchBackendStatus pc =>
    obtain ⟨m, hm, hlt⟩ := b.switchBackendStatus_proceeds pc hr hw
    exact ⟨m, hm, hdrop hlt⟩
  | resetBackend pc =>
    obtain ⟨m, hm, hlt⟩ := b.resetBackend_proceeds pc hr hw
    exact ⟨m, hm, hdrop hlt⟩
  | switchBackendProtocol env pc =>
    obtain ⟨m, hm, hlt⟩ := b.switchBackendProtocol_proceeds env pc hr hw
    exact ⟨m, hm, hdrop hlt⟩
  | _ => cases ht

/-- Whoever waits gets the lock once it is free, and needs no answer for that. -/
theorem Task.takes (forever : Option Nat) (ht : t.wants ≠ .released)
    (hr : t.wants = .read → readable = true) (hw : t.wants = .write → writable = true) :
    ∃ m, t.move forever b readable writable .cancelled = some m := by
  cases hreq : t.isRequest with
  | true =>
    obtain ⟨m, hm, _⟩ := Task.request_proceeds (b := b) forever hreq hr hw
    exact ⟨m, hm⟩
  | false =>
    have hread : t.wants = .read := by
      cases hwt : t.wants with
      | released => exact absurd hwt ht
      | read => rfl
      | write => cases hreq.symm.trans (Task.isRequest_of_wants hwt)
    obtain rfl := hr hread
    cases t with
    | handleConnection named pc =>
      cases pc with
      | select => exact ⟨_, rfl⟩
      | selected => exact ⟨_, rfl⟩
      | connected c => exact ⟨_, rfl⟩
      | _ => exact absurd rfl ht
    | retryForever pc =>
      cases pc with
      | starting => exact ⟨_, rfl⟩
      | ticking left =>
        match left with
        | some 0 => exact absurd rfl ht
        | none => exact ⟨_, rfl⟩
        | some (n + 1) => exact ⟨_, rfl⟩
      | _ => exact absurd rfl ht
    | finished => exact absurd rfl ht
    | _ => cases hreq

end

/-- The connections and retry tasks that hold the lock find the token cancelled. -/
def ToldToStop (p : Pool (Backend K) Task) : Prop :=
  ∀ u ∈ p.tasks, u.hold = .read → u.isRequest = true ∨
    p.state.cancellationToken.cancelled = true

/-- No other task has the lock for writing or waits for it so. -/
structure Unrivalled (i : Nat) (q : FairLock.Queued (Backend K) Task) : Prop where
  holding : ∀ (j : Nat) t, j ≠ i → q.pool.tasks[j]? = some t → t.hold ≠ .write
  queued : ∀ (j : Nat) t, j ≠ i → q.pool.tasks[j]? = some t → j ∈ q.queue → t.wants ≠ .write

/-- Only requests wait behind another task that has the lock for writing or waits for it so. -/
structure RequestsBehind (i : Nat) (q : FairLock.Queued (Backend K) Task) : Prop where
  holding : ∀ (j : Nat) t, j ≠ i → q.pool.tasks[j]? = some t → t.hold = .write →
    ∀ k ∈ q.queue, ∀ u, q.pool.tasks[k]? = some u → u.isRequest = true
  queued : q.queue.Pairwise fun j k => ∀ t u, q.pool.tasks[j]? = some t →
    q.pool.tasks[k]? = some u → j ≠ i → t.wants = .write → u.isRequest = true

/-- The way of request `i`: it has the token still to cancel and meets no other writer, or the token
is cancelled and nobody can come under a new one, or only requests use the lock, or it needs the
lock no more. -/
inductive Clear (i : Nat) (t : Task) (q : FairLock.Queued (Backend K) Task) : Prop where
  | ahead (hpre : t.precedesCancel = true) (h : Unrivalled i q)
  | told (hc : q.pool.state.cancellationToken.cancelled = true)
      (hw : ∀ (j : Nat) u, j ≠ i → q.pool.tasks[j]? = some u → u.hold ≠ .write)
      (h : RequestsBehind i q)
  | alone (hold : ∀ u ∈ q.pool.tasks, u.hold ≠ .released → u.isRequest = true)
      (wait : ∀ j ∈ q.queue, ∀ u, q.pool.tasks[j]? = some u → u.isRequest = true)
  | past (h : t.past = true)

/-- The request at `i` can be brought to its end. -/
structure Yielding (i : Nat) (q : FairLock.Queued (Backend K) Task) : Prop where
  exclusive : Exclusive Task.hold q.pool
  line : FairLock.InLine Task.wants q
  request : ∃ t, q.pool.tasks[i]? = some t ∧ (t.isRequest = true ∨ t = .finished) ∧ Clear i t q

/-- Steps of the request cost more than its place in the queue and what it comes to hold, and a
place costs more than what its owner comes to hold. -/
def yieldRank (i : Nat) (q : FairLock.Queued (Backend K) Task) : Nat :=
  20 * (q.pool.tasks[i]?.elim 0 Task.rank) + total Task.grip q.pool.tasks + 9 * q.queue.length +
    if i ∈ q.queue then 0 else 10

/-- Task `j` takes its step `m`, and leaves the queue if it waits at its head. -/
structure Turn (forever : Option Nat) (q : FairLock.Queued (Backend K) Task) (j : Nat) (t : Task)
    (m : Move (Backend K) Task) (rest : List Nat) : Prop where
  task : q.pool.tasks[j]? = some t
  move : t.move forever q.pool.state ((backendTasks K forever).readable q.pool)
    ((backendTasks K forever).writable q.pool) .cancelled = some m
  queue : t.wants = .released ∧ rest = q.queue ∨ t.wants ≠ .released ∧ q.queue = j :: rest

section
variable {q : FairLock.Queued (Backend K) Task} {t u : Task} {m : Move (Backend K) Task}
  {rest : List Nat}

theorem Turn.step (h : Turn forever q j u m rest) :
    u.Step forever q.pool.state ((backendTasks K forever).readable q.pool)
      ((backendTasks K forever).writable q.pool) m :=
  Task.move_step h.move

theorem Turn.run (h : Turn forever q j u m rest) :
    FairLock.step (backendTasks K forever) Task.wants q (.run j .cancelled) =
      some ⟨q.pool.advance j m, rest⟩ := by
  have hs := Program.step_of_move (P := backendTasks K forever) h.task h.move
  obtain ⟨hw, rfl⟩ | ⟨hw, hq⟩ := h.queue
  · exact FairLock.step_of_free h.task hw hs
  · exact FairLock.step_of_head h.task hw hq hs

theorem Turn.sublist (h : Turn forever q j u m rest) : rest.Sublist q.queue := by
  obtain ⟨_, rfl⟩ | ⟨_, hq⟩ := h.queue
  · exact List.Sublist.refl _
  · rw [hq]
    exact List.sublist_cons_self j rest

theorem Turn.not_mem (h : Turn forever q j u m rest) (hl : FairLock.InLine Task.wants q) :
    j ∉ rest := by
  obtain ⟨hw, rfl⟩ | ⟨_, hq⟩ := h.queue
  · intro hj
    obtain ⟨t, ht, hwt⟩ := hl.waiting j hj
    cases h.task.symm.trans ht
    exact hwt hw
  · have hn := hl.nodup
    rw [hq] at hn
    exact (List.nodup_cons.1 hn).1

theorem Turn.waiting (h : Turn forever q j u m rest) (hl : FairLock.InLine Task.wants q)
    (hk : k ∈ rest) (hv : (q.pool.advance j m).tasks[k]? = some v) :
    k ∈ q.queue ∧ k ≠ j ∧ q.pool.tasks[k]? = some v := by
  have hkq := h.sublist.subset hk
  have hkj : k ≠ j := by
    rintro rfl
    exact h.not_mem hl hk
  obtain ⟨w, hw, _⟩ := hl.waiting k hkq
  have hsame := (getElem?_advance_ne (m := m) (Ne.symm hkj) hw).symm.trans hv
  exact ⟨hkq, hkj, hsame ▸ hw⟩

theorem Turn.holding (h : Turn forever q j u m rest)
    (hv : (q.pool.advance j m).tasks[k]? = some v) (hh : v.hold ≠ .released) :
    v = m.task ∨ k ≠ j ∧ q.pool.tasks[k]? = some v := by
  obtain ⟨_, rfl⟩ | ⟨hjk, hk⟩ | hsp :=
    getElem?_of_advance (List.getElem?_eq_some_iff.1 h.task).1 hv
  · exact .inl rfl
  · exact .inr ⟨Ne.symm hjk, hk⟩
  · rw [h.step.spawned hsp] at hh
    exact absurd rfl hh

theorem Unrivalled.turn (h : Unrivalled i q) (hl : FairLock.InLine Task.wants q)
    (hturn : Turn forever q j u m rest) : Unrivalled i ⟨q.pool.advance j m, rest⟩ := by
  constructor
  · intro k v hk hv hw
    have hh : v.hold ≠ .released := by
      rw [hw]
      exact nofun
    obtain ⟨rfl, rfl⟩ | ⟨_, hv⟩ | hsp :=
      getElem?_of_advance (List.getElem?_eq_some_iff.1 hturn.task).1 hv
    · obtain hwrite | hwants := hturn.step.waits_write hw
      · exact h.holding j u hk hturn.task hwrite
      · obtain ⟨hr, _⟩ | ⟨_, hq⟩ := hturn.queue
        · cases hr.symm.trans hwants
        · refine h.queued j u hk hturn.task ?_ hwants
          rw [hq]
          exact List.mem_cons_self
    · exact h.holding k v hk hv hw
    · rw [hturn.step.spawned hsp] at hw
      cases hw
  · intro k v hk hv hrest
    obtain ⟨hkq, _, hv⟩ := hturn.waiting hl hrest hv
    exact h.queued k v hk hv hkq

theorem Unrivalled.requestsBehind (h : Unrivalled i q) : RequestsBehind i q := by
  refine ⟨fun j t hj ht hw => absurd hw (h.holding j t hj ht), ?_⟩
  apply List.pairwise_of_forall_mem_list
  intro j hj _ _ t _ ht _ hji hw
  exact absurd hw (h.queued j t hji ht hj)

theorem RequestsBehind.turn (h : RequestsBehind i q) (hl : FairLock.InLine Task.wants q)
    (hturn : Turn forever q j u m rest)
    (hw : ∀ (k : Nat) v, k ≠ i → (q.pool.advance j m).tasks[k]? = some v → v.hold ≠ .write) :
    RequestsBehind i ⟨q.pool.advance j m, rest⟩ := by
  refine ⟨fun k v hk hv hwrite => absurd hwrite (hw k v hk hv), ?_⟩
  refine (h.queued.sublist hturn.sublist).imp_of_mem ?_
  intro k l hk hl' himp t v ht hv
  exact himp t v (hturn.waiting hl hk ht).2.2 (hturn.waiting hl hl' hv).2.2

theorem RequestsBehind.behind (h : RequestsBehind i q) (hturn : Turn forever q j u m rest)
    (hl : FairLock.InLine Task.wants q) (hji : j ≠ i) (hu : u.wants = .write) :
    ∀ k ∈ rest, ∀ v, (q.pool.advance j m).tasks[k]? = some v → v.isRequest = true := by
  intro k hk v hv
  obtain ⟨hr, _⟩ | ⟨_, hq⟩ := hturn.queue
  · cases hr.symm.trans hu
  · have hpair := h.queued
    rw [hq] at hpair
    exact (List.pairwise_cons.1 hpair).1 k hk u v hturn.task (hturn.waiting hl hk hv).2.2 hji hu

theorem Task.isRequest_of_hold (h : t.isRequest = true ∨ t = .finished) (hh : t.hold ≠ .released) :
    t.isRequest = true := by
  apply h.resolve_right
  rintro rfl
  exact hh rfl

theorem Clear.alone_turn (hturn : Turn forever q j u m rest)
    (hl : FairLock.InLine Task.wants q) (hu : u.isRequest = true)
    (hold : ∀ v ∈ q.pool.tasks, v.hold ≠ .released → v.isRequest = true)
    (wait : ∀ k ∈ q.queue, ∀ v, q.pool.tasks[k]? = some v → v.isRequest = true) :
    Clear i t ⟨q.pool.advance j m, rest⟩ := by
  refine .alone ?_ ?_
  · intro v hv hh
    obtain ⟨k, hk⟩ := List.mem_iff_getElem?.1 hv
    obtain rfl | ⟨_, hv⟩ := hturn.holding hk hh
    · exact Task.isRequest_of_hold (hturn.step.keeps_request hu) hh
    · exact hold v (List.mem_of_getElem? hv) hh
  · intro k hk v hv
    obtain ⟨hkq, _, hv⟩ := hturn.waiting hl hk hv
    exact wait k hkq v hv

theorem Clear.other_turn (h : Clear i t q) (hl : FairLock.InLine Task.wants q)
    (hturn : Turn forever q j u m rest) (hji : j ≠ i)
    (hu : u.hold ≠ .released ∨ u.wants ≠ .released)
    (hfree : u.wants = .write → ∀ v ∈ q.pool.tasks, v.hold = .released) :
    Clear i t ⟨q.pool.advance j m, rest⟩ := by
  cases h with
  | ahead hpre h => exact .ahead hpre (h.turn hl hturn)
  | past hp => exact .past hp
  | alone hold wait =>
    refine Clear.alone_turn hturn hl ?_ hold wait
    obtain hh | hw := hu
    · exact hold u (List.mem_of_getElem? hturn.task) hh
    · obtain ⟨hr, _⟩ | ⟨_, hq⟩ := hturn.queue
      · exact absurd hr hw
      · exact wait j (by rw [hq]; exact List.mem_cons_self) u hturn.task
  | told hc hw h =>
    by_cases hwants : u.wants = .write
    · -- from here on only requests use the lock
      refine .alone ?_ (h.behind hturn hl hji hwants)
      intro v hv hh
      obtain ⟨k, hk⟩ := List.mem_iff_getElem?.1 hv
      obtain rfl | ⟨_, hv⟩ := hturn.holding hk hh
      · exact Task.isRequest_of_hold
          (hturn.step.keeps_request (Task.isRequest_of_wants hwants)) hh
      · exact absurd (hfree hwants v (List.mem_of_getElem? hv)) hh
    · have hwriters : ∀ (k : Nat) v, k ≠ i → (q.pool.advance j m).tasks[k]? = some v →
          v.hold ≠ .write := by
        intro k v hk hv hwrite
        have hh : v.hold ≠ .released := by
          rw [hwrite]
          exact nofun
        obtain rfl | ⟨_, hv⟩ := hturn.holding hv hh
        · obtain hwu | hwu := hturn.step.waits_write hwrite
          · exact hw j u hji hturn.task hwu
          · exact hwants hwu
        · exact hw k v hk hv hwrite
      refine .told ?_ hwriters (h.turn hl hturn hwriters)
      exact hturn.step.keeps_cancelled (hw j u hji hturn.task) hc

theorem Clear.self_turn (h : Clear i t q) (hl : FairLock.InLine Task.wants q)
    (hturn : Turn forever q i t m rest) (hreq : t.isRequest = true) :
    Clear i m.task ⟨q.pool.advance i m, rest⟩ := by
  have hwriters : (∀ (k : Nat) v, k ≠ i → q.pool.tasks[k]? = some v → v.hold ≠ .write) →
      ∀ (k : Nat) v, k ≠ i → (q.pool.advance i m).tasks[k]? = some v → v.hold ≠ .write := by
    intro hw k v hk hv hwrite
    obtain ⟨rfl, _⟩ | ⟨_, hv⟩ | hsp :=
      getElem?_of_advance (List.getElem?_eq_some_iff.1 hturn.task).1 hv
    · exact hk rfl
    · exact hw k v hk hv hwrite
    · rw [hturn.step.spawned hsp] at hwrite
      cases hwrite
  cases h with
  | ahead hpre h =>
    have hnext := h.turn hl hturn
    obtain hpre' | hc := hturn.step.cancels hpre
    · exact .ahead hpre' hnext
    · exact .told hc hnext.holding hnext.requestsBehind
  | past hp => exact .past (hturn.step.past hp)
  | alone hold wait => exact Clear.alone_turn hturn hl hreq hold wait
  | told hc hw h =>
    by_cases hwrite : t.hold = .write
    · exact .past (hturn.step.past (Task.past_of_write hreq hwrite))
    · exact .told (hturn.step.keeps_cancelled hwrite hc) (hwriters hw)
        (h.turn hl hturn (hwriters hw))

theorem Clear.wait (h : Clear i t q) (ht : q.pool.tasks[i]? = some t) (hreq : t.isRequest = true) :
    Clear i t ⟨q.pool, q.queue ++ [i]⟩ := by
  have hi : ∀ {u}, q.pool.tasks[i]? = some u → u.isRequest = true := by
    intro u hu
    cases ht.symm.trans hu
    exact hreq
  cases h with
  | ahead hpre h =>
    refine .ahead hpre ⟨h.holding, ?_⟩
    intro j u hj hu hm
    obtain hm | hm := List.mem_append.1 hm
    · exact h.queued j u hj hu hm
    · exact absurd (List.mem_singleton.1 hm) hj
  | past hp => exact .past hp
  | alone hold wait =>
    refine .alone hold ?_
    intro j hj u hu
    obtain hj | hj := List.mem_append.1 hj
    · exact wait j hj u hu
    · rw [List.mem_singleton.1 hj] at hu
      exact hi hu
  | told hc hw h =>
    refine .told hc hw ⟨fun j u hj hu hwu => absurd hwu (hw j u hj hu), ?_⟩
    refine List.pairwise_append.2 ⟨h.queued, List.pairwise_singleton _ _, ?_⟩
    intro j _ k hk u v _ hv _ _
    rw [List.mem_singleton.1 hk] at hv
    exact hi hv

theorem Clear.toldToStop (h : Clear i t q) :
    (t.precedesCancel = true ∧ Unrivalled i q) ∨ t.past = true ∨ ToldToStop q.pool := by
  cases h with
  | ahead hpre h => exact .inl ⟨hpre, h⟩
  | past hp => exact .inr (.inl hp)
  | told hc _ _ => exact .inr (.inr fun _ _ _ => .inr hc)
  | alone hold _ =>
    refine .inr (.inr fun u hu hread => .inl (hold u hu ?_))
    rw [hread]
    exact nofun

theorem Yielding.other_turn (h : Yielding i q) (hturn : Turn forever q j u m rest) (hji : j ≠ i)
    (hu : u.hold ≠ .released ∨ u.wants ≠ .released)
    (hfree : u.wants = .write → ∀ v ∈ q.pool.tasks, v.hold = .released) :
    Yielding i ⟨q.pool.advance j m, rest⟩ := by
  obtain ⟨t, ht, hreq, hclear⟩ := h.request
  refine ⟨?_, h.line.step hturn.run, t, getElem?_advance_ne hji ht, hreq, ?_⟩
  · exact h.exclusive.step (backendTasks_locks K forever)
      (Program.step_of_move hturn.task hturn.move)
  · exact hclear.other_turn h.line hturn hji hu hfree

theorem Yielding.self_turn (h : Yielding i q) (hturn : Turn forever q i t m rest)
    (hreq : t.isRequest = true) : Yielding i ⟨q.pool.advance i m, rest⟩ := by
  obtain ⟨t', ht', _, hclear⟩ := h.request
  cases hturn.task.symm.trans ht'
  refine ⟨?_, h.line.step hturn.run, m.task, getElem?_advance hturn.task,
    hturn.step.keeps_request hreq, ?_⟩
  · exact h.exclusive.step (backendTasks_locks K forever)
      (Program.step_of_move hturn.task hturn.move)
  · exact hclear.self_turn h.line hturn hreq

theorem Turn.grip (h : Turn forever q j u m rest) :
    total Task.grip (q.pool.advance j m).tasks + u.grip =
      total Task.grip q.pool.tasks + m.task.grip := by
  have hgrip := total_advance Task.grip h.task (m := m)
  have hsp := h.step.spawned_grip
  omega

theorem Turn.yieldRank_self (h : Turn forever q i t m rest) (hlt : m.task.rank < t.rank) :
    yieldRank i ⟨q.pool.advance i m, rest⟩ < yieldRank i q := by
  have hgrip := h.grip
  have hle := m.task.grip_le
  have hlen := h.sublist.length_le
  rw [yieldRank, yieldRank, getElem?_advance h.task, h.task]
  simp only [Option.elim_some]
  split <;> split <;> omega

theorem Turn.yieldRank_other (h : Turn forever q j u m rest) (hji : j ≠ i)
    (ht : q.pool.tasks[i]? = some t) (hcost : u.wants ≠ .released ∨ m.task.grip < u.grip) :
    yieldRank i ⟨q.pool.advance j m, rest⟩ < yieldRank i q := by
  have hgrip := h.grip
  have hle := m.task.grip_le
  have hcost' : total Task.grip (q.pool.advance j m).tasks + 9 * rest.length <
      total Task.grip q.pool.tasks + 9 * q.queue.length := by
    obtain ⟨hw, rfl⟩ | ⟨_, hq⟩ := h.queue
    · have hlt := hcost.resolve_left (absurd hw)
      omega
    · rw [hq, List.length_cons]
      omega
  have hmem : i ∈ rest ↔ i ∈ q.queue := by
    obtain ⟨_, rfl⟩ | ⟨_, hq⟩ := h.queue
    · exact Iff.rfl
    · rw [hq, List.mem_cons]
      exact ⟨.inr, fun hi => hi.resolve_left (Ne.symm hji)⟩
  rw [yieldRank, yieldRank, getElem?_advance_ne hji ht, ht]
  simp only [hmem]
  omega

/-- A task that goes towards the end of request `i`, and why it is not in vain. -/
def Leads (forever : Option Nat) (i : Nat) (q : FairLock.Queued (Backend K) Task) : Prop :=
  ∃ j t m rest, Turn forever q j t m rest ∧
    (t.hold ≠ .read ∨ t.precedesCancel = true ∨ ToldToStop q.pool) ∧
    Yielding i ⟨q.pool.advance j m, rest⟩ ∧
    yieldRank i ⟨q.pool.advance j m, rest⟩ < yieldRank i q

theorem Yielding.self_leads (h : Yielding i q) (ht : q.pool.tasks[i]? = some t)
    (hreq : t.isRequest = true)
    (hr : t.wants = .read → (backendTasks K forever).readable q.pool = true)
    (hw : t.wants = .write → (backendTasks K forever).writable q.pool = true)
    (hq : t.wants = .released ∧ rest = q.queue ∨ t.wants ≠ .released ∧ q.queue = i :: rest) :
    Leads forever i q := by
  obtain ⟨m, hm, hlt⟩ := Task.request_proceeds (b := q.pool.state) forever hreq hr hw
  have hturn : Turn forever q i t m rest := ⟨ht, hm, hq⟩
  refine ⟨i, t, m, rest, hturn, ?_, h.self_turn hturn hreq, hturn.yieldRank_self hlt⟩
  obtain ⟨t', ht', _, hclear⟩ := h.request
  cases ht.symm.trans ht'
  obtain ⟨hpre, _⟩ | hpast | htold := hclear.toldToStop
  · exact .inr (.inl hpre)
  · exact .inl (Task.hold_of_past hpast)
  · exact .inr (.inr htold)

theorem Yielding.holder_turn (h : Yielding i q) (forever : Option Nat)
    (hj : q.pool.tasks[j]? = some u) (hji : j ≠ i) (hh : u.hold ≠ .released)
    (hc : u.isRequest = true ∨ q.pool.state.cancellationToken.cancelled = true) :
    ∃ m, Turn forever q j u m q.queue ∧ Yielding i ⟨q.pool.advance j m, q.queue⟩ ∧
      yieldRank i ⟨q.pool.advance j m, q.queue⟩ < yieldRank i q := by
  obtain ⟨t, ht, _⟩ := h.request
  have hw := u.hold_or_wants.resolve_left hh
  obtain ⟨m, hm, hlt⟩ := Task.lets_go hh hc
  have hturn : Turn forever q j u m q.queue := ⟨hj, hm, .inl ⟨hw, rfl⟩⟩
  refine ⟨m, hturn, h.other_turn hturn hji (.inl hh) ?_, ?_⟩
  · rw [hw]
    exact nofun
  · exact hturn.yieldRank_other hji ht (.inr hlt)

theorem Yielding.head_leads (h : Yielding i q) (hj : q.pool.tasks[j]? = some u) (hji : j ≠ i)
    (hu : u.wants ≠ .released) (hq : q.queue = j :: rest)
    (hr : u.wants = .read → (backendTasks K forever).readable q.pool = true)
    (hw : u.wants = .write → ∀ v ∈ q.pool.tasks, v.hold = .released) :
    Leads forever i q := by
  obtain ⟨t, ht, _⟩ := h.request
  obtain ⟨m, hm⟩ := Task.takes (b := q.pool.state) forever hu hr
    fun hwu => Program.writable_of (P := backendTasks K forever) (hw hwu)
  have hturn : Turn forever q j u m rest := ⟨hj, hm, .inr ⟨hu, hq⟩⟩
  refine ⟨j, u, m, rest, hturn, ?_, h.other_turn hturn hji (.inr hu) hw, ?_⟩
  · left
    rw [u.hold_or_wants.resolve_right hu]
    exact nofun
  · exact hturn.yieldRank_other hji ht (.inl hu)

/-- A request that has the lock for writing lets go of it. -/
theorem Yielding.writer_leads {k : Nat} {v : Task} (h : Yielding i q) (forever : Option Nat)
    (ht : q.pool.tasks[i]? = some t) (hw : t.wants ≠ .released)
    (hk : q.pool.tasks[k]? = some v) (hwrite : v.hold = .write) : Leads forever i q := by
  have hki : k ≠ i := by
    rintro rfl
    cases ht.symm.trans hk
    rw [t.hold_or_wants.resolve_right hw] at hwrite
    cases hwrite
  have hh : v.hold ≠ .released := by
    rw [hwrite]
    exact nofun
  have hv : v.isRequest = true := by
    by_contra hn
    exact Task.hold_ne_write (Bool.eq_false_iff.2 hn) hwrite
  obtain ⟨m, hturn, hy⟩ := h.holder_turn forever hk hki hh (.inl hv)
  refine ⟨k, v, m, q.queue, hturn, .inl ?_, hy⟩
  rw [hwrite]
  exact nofun

/-- Before somebody is queued for writing, the token has been cancelled. -/
theorem Yielding.told_of_queued (h : Yielding i q) (ht : q.pool.tasks[i]? = some t)
    (hw : t.wants ≠ .released) (hj : q.pool.tasks[j]? = some u) (hjq : j ∈ q.queue)
    (hu : u.wants = .write) : ToldToStop q.pool := by
  obtain ⟨t', ht', _, hclear⟩ := h.request
  cases ht.symm.trans ht'
  obtain ⟨hpre, hno⟩ | hpast | htold := hclear.toldToStop
  · by_cases hji : j = i
    · subst hji
      cases ht.symm.trans hj
      exact absurd hu (Task.wants_of_precedesCancel hpre)
    · exact absurd hu (hno.queued j u hji hj hjq)
  · exact absurd (Task.wants_of_past hpast) hw
  · exact htold

/-- Who is at the head of the queue gets the lock, or there is one in the way that lets go. -/
theorem Yielding.queue_leads (forever : Option Nat) (h : Yielding i q)
    (ht : q.pool.tasks[i]? = some t) (hreq : t.isRequest = true) (hw : t.wants ≠ .released)
    (hi : i ∈ q.queue) : Leads forever i q := by
  obtain ⟨j, rest, hq⟩ := List.exists_cons_of_ne_nil (List.ne_nil_of_mem hi)
  have hjq : j ∈ q.queue := by
    rw [hq]
    exact List.mem_cons_self
  obtain ⟨u, hj, hu⟩ := h.line.waiting j hjq
  by_cases hwriter : ∃ v ∈ q.pool.tasks, v.hold = .write
  · obtain ⟨v, hv, hwrite⟩ := hwriter
    obtain ⟨k, hk⟩ := List.mem_iff_getElem?.1 hv
    exact h.writer_leads forever ht hw hk hwrite
  have hreadable : (backendTasks K forever).readable q.pool = true :=
    Program.readable_of fun v hv hwrite => hwriter ⟨v, hv, hwrite⟩
  by_cases hholder : u.wants = .write ∧ ∃ v ∈ q.pool.tasks, v.hold ≠ .released
  · -- the readers in the writer's way have been told to stop
    obtain ⟨hwu, v, hv, hh⟩ := hholder
    obtain ⟨k, hk⟩ := List.mem_iff_getElem?.1 hv
    have htold := h.told_of_queued ht hw hj hjq hwu
    have hki : k ≠ i := by
      rintro rfl
      cases ht.symm.trans hk
      exact hh (t.hold_or_wants.resolve_right hw)
    have hread : v.hold = .read := by
      cases hv' : v.hold with
      | released => exact absurd hv' hh
      | read => rfl
      | write => exact absurd ⟨v, hv, hv'⟩ hwriter
    obtain ⟨m, hturn, hy⟩ := h.holder_turn forever hk hki hh (htold v hv hread)
    exact ⟨k, v, m, q.queue, hturn, .inr (.inr htold), hy⟩
  · have hfree : u.wants = .write → ∀ v ∈ q.pool.tasks, v.hold = .released := by
      intro hwu v hv
      by_contra hh
      exact hholder ⟨hwu, v, hv, hh⟩
    by_cases hji : j = i
    · subst hji
      cases ht.symm.trans hj
      exact h.self_leads ht hreq (fun _ => hreadable)
        (fun hwu => Program.writable_of (P := backendTasks K forever) (hfree hwu)) (.inr ⟨hw, hq⟩)
    · exact h.head_leads hj hji hu hq (fun _ => hreadable) hfree

theorem Yielding.waits (h : Yielding i q) (ht : q.pool.tasks[i]? = some t)
    (hreq : t.isRequest = true) (hw : t.wants ≠ .released) (hi : i ∉ q.queue) :
    Yielding i ⟨q.pool, q.queue ++ [i]⟩ ∧
      yieldRank i ⟨q.pool, q.queue ++ [i]⟩ < yieldRank i q := by
  obtain ⟨t', ht', hend, hclear⟩ := h.request
  cases ht.symm.trans ht'
  have hs := FairLock.step_of_wait (P := backendTasks K none) ht hw hi
  refine ⟨⟨h.exclusive, h.line.step hs, t, ht, hend, hclear.wait ht hreq⟩, ?_⟩
  have hmem : i ∈ q.queue ++ [i] := List.mem_append_right _ List.mem_cons_self
  simp only [yieldRank, if_pos hmem, if_neg hi, List.length_append, List.length_singleton]
  omega

/-- Until the request is at its end, it joins the queue of the lock, or some task brings it
nearer. -/
theorem Yielding.turn (forever : Option Nat) (h : Yielding i q)
    (hend : q.pool.tasks[i]? ≠ some .finished) :
    (∃ t, q.pool.tasks[i]? = some t ∧ t.wants ≠ .released ∧ i ∉ q.queue ∧
      Yielding i ⟨q.pool, q.queue ++ [i]⟩ ∧
      yieldRank i ⟨q.pool, q.queue ++ [i]⟩ < yieldRank i q) ∨ Leads forever i q := by
  obtain ⟨t, ht, hreq, _⟩ := h.request
  have hreq : t.isRequest = true := by
    apply hreq.resolve_right
    rintro rfl
    exact hend ht
  by_cases hw : t.wants = .released
  · right
    apply h.self_leads ht hreq _ _ (.inl ⟨hw, rfl⟩)
    · rw [hw]
      exact nofun
    · rw [hw]
      exact nofun
  · by_cases hi : i ∈ q.queue
    · exact .inr (h.queue_leads forever ht hreq hw hi)
    · exact .inl ⟨t, ht, hw, hi, h.waits ht hreq hw hi⟩

theorem Yielding.progress (h : Yielding i q) (hend : q.pool.tasks[i]? ≠ some .finished) :
    ∃ a q', Unanswered q a ∧ FairLock.step (backendTasks K forever) Task.wants q a = some q' ∧
      Yielding i q' ∧ yieldRank i q' < yieldRank i q := by
  obtain ⟨t, ht, hw, hi, hy⟩ | ⟨j, t, m, rest, hturn, _, hy⟩ := h.turn forever hend
  · exact ⟨.wait i, _, trivial, FairLock.step_of_wait ht hw hi, hy⟩
  · exact ⟨.run j .cancelled, _, trivial, hturn.run, hy⟩

end

/-- The token is still to be cancelled by request `i`, and no other task writes or waits to; or it
is cancelled, and nobody but requests waits behind another writer. -/
def ClearWay (i : Nat) (t : Task) (q : FairLock.Queued (Backend K) Task) : Prop :=
  t.precedesCancel = true ∧ Unrivalled i q ∨
    q.pool.state.cancellationToken.cancelled = true ∧ RequestsBehind i q

theorem ClearWay.clear {q : FairLock.Queued (Backend K) Task} (h : ClearWay i t q)
    (hex : Exclusive Task.hold q.pool) : Clear i t q := by
  obtain ⟨hpre, h⟩ | ⟨hc, h⟩ := h
  · exact .ahead hpre h
  · by_cases hw : ∃ j u, j ≠ i ∧ q.pool.tasks[j]? = some u ∧ u.hold = .write
    · obtain ⟨j, u, hji, hu, hwrite⟩ := hw
      refine .alone ?_ (h.holding j u hji hu hwrite)
      intro v hv hh
      obtain ⟨k, hk⟩ := List.mem_iff_getElem?.1 hv
      obtain rfl := hex j k u v hu hk hwrite hh
      cases hu.symm.trans hk
      by_contra hn
      exact Task.hold_ne_write (Bool.eq_false_iff.2 hn) hwrite
    · exact .told hc (fun j u hji hu hwrite => hw ⟨j, u, hji, hu, hwrite⟩) h

/-- Under the queue of the lock, an admin request can be completed without an answer from the
network and without another request, unless somebody can come before it under a new token. -/
theorem request_needs_no_answer [NatCast K] (forever : Option Nat) (env : BuildEnv) (now : Nat)
    (cfg : FileBackendConfig) (b : Backend K) (acts : List (FairLock.QueueAct Request Outcome))
    (q : FairLock.Queued (Backend K) Task) (i : Nat) (t : Task)
    (hb : Backend.new env now cfg = .ok b)
    (hr : run (FairLock.step (backendTasks K forever) Task.wants) ⟨⟨b, []⟩, []⟩ acts = some q)
    (ht : q.pool.tasks[i]? = some t) (hreq : t.isRequest = true) (hway : ClearWay i t q) :
    ∃ more q', run (FairLock.step (backendTasks K forever) Task.wants) q more = some q' ∧
      AllSteps (FairLock.step (backendTasks K forever) Task.wants) Unanswered q more ∧
      q'.pool.tasks[i]? = some .finished := by
  obtain ⟨acts₁, hrun⟩ := FairLock.run_pool hr
  have hreach : Reachable forever q.pool := ⟨env, now, cfg, b, acts₁, hb, hrun⟩
  have hex := hreach.orderly.exclusive
  exact exists_run_of_measure (Yielding i) (fun q => q.pool.tasks[i]? = some .finished)
    (yieldRank i) (fun hy hend => hy.progress hend)
    ⟨hex, FairLock.InLine.of_run hr, t, ht, .inl hreq, hway.clear hex⟩

/-- The protocol switch waits behind the reset, and both behind the tunnel. -/
theorem switch_needs_no_answer :
    ∃ q, run (FairLock.step (backendTasks ℚ none) Task.wants) ⟨⟨plainBackend, []⟩, []⟩
        twoRequestsWait = some q ∧ q.queue = [1, 2] ∧
      ∃ more q', run (FairLock.step (backendTasks ℚ none) Task.wants) q more = some q' ∧
        AllSteps (FairLock.step (backendTasks ℚ none) Task.wants) Unanswered q more ∧
        q'.pool.tasks[2]? = some .finished := by
  obtain ⟨q, hr, hq, htasks, hc⟩ : ∃ q,
      run (FairLock.step (backendTasks ℚ none) Task.wants) ⟨⟨plainBackend, []⟩, []⟩
        twoRequestsWait = some q ∧ q.queue = [1, 2] ∧
      q.pool.tasks = [.handleConnection false (.transferring ⟨.http2, 0⟩),
        .resetBackend .released, .switchBackendProtocol workingTls .cancelled] ∧
      q.pool.state.cancellationToken.cancelled = true := ⟨_, rfl, rfl, rfl, rfl⟩
  have hbehind : RequestsBehind 2 q := by
    constructor
    · intro j t _ ht hw
      rw [htasks] at ht
      have hm := List.mem_of_getElem? ht
      simp only [List.mem_cons, List.not_mem_nil, or_false] at hm
      obtain rfl | rfl | rfl := hm <;> cases hw
    · rw [hq]
      refine List.pairwise_pair.2 ?_
      intro t u _ hu _ _
      rw [htasks] at hu
      cases hu
      rfl
  exact ⟨q, hr, hq, request_needs_no_answer none workingTls 0 plainConfig plainBackend
    twoRequestsWait q 2 _ rfl hr (by rw [htasks]; rfl) rfl (.inr ⟨hc, hbehind⟩)⟩

/-- A request that will take the lock for writing, and has not got it yet. -/
def Task.beforeLock : Task → Bool
  | .switchBackendStatus .reopening => true
  | .switchBackendStatus .reopened => true
  | .resetBackend .starting => true
  | .resetBackend .cancelling => true
  | .resetBackend .resetting => true
  | .resetBackend .released => true
  | .switchBackendProtocol _ .starting => true
  | .switchBackendProtocol _ .cancelling => true
  | .switchBackendProtocol _ .cancelled => true
  | _ => false

theorem Task.Step.beforeLock {t : Task} {b : Backend K}
    (h : t.Step forever b readable writable m) (ht : t.beforeLock = true) :
    m.task.beforeLock = true ∨ writable := by
  cases h with
  | statusLock hfree => exact .inr hfree
  | resetLock hfree => exact .inr hfree
  | protocolLock hfree => exact .inr hfree
  | _ => first | exact .inl rfl | cases ht

/-- The transfer of task `j` is over, or goes on while task `i` waits for it. -/
def Outlived (i j : Nat) (p : Pool (Backend K) Task) : Prop :=
  p.tasks[j]? = some .finished ∨
    (∃ named c, p.tasks[j]? = some (.handleConnection named (.transferring c))) ∧
      ∃ t, p.tasks[i]? = some t ∧ t.beforeLock = true

theorem Outlived.step {p p' : Pool (Backend K) Task} (h : Outlived i j p)
    (hs : (backendTasks K forever).step p a = some p') : Outlived i j p' := by
  cases a with
  | enter r =>
    cases hs
    have hkeep : ∀ {k : Nat} {u}, p.tasks[k]? = some u →
        (p.spawn r.task).tasks[k]? = some u := fun hk =>
      (List.getElem?_append_left (List.getElem?_eq_some_iff.1 hk).1).trans hk
    obtain hj | ⟨⟨named, c, hj⟩, t, hi, ht⟩ := h
    · exact .inl (hkeep hj)
    · exact .inr ⟨⟨named, c, hkeep hj⟩, t, hkeep hi, ht⟩
  | run k o =>
    obtain ⟨u, m, hu, hm, rfl⟩ := step_task hs
    obtain hj | ⟨⟨named, c, hj⟩, t, hi, ht⟩ := h
    · -- a finished task takes no step
      left
      apply getElem?_advance_ne _ hj
      rintro rfl
      cases hu.symm.trans hj
      cases hm
    · by_cases hkj : k = j
      · subst hkj
        cases hu.symm.trans hj
        cases hm
        exact .inl (getElem?_advance hu)
      · have hj' := getElem?_advance_ne (m := m) hkj hj
        by_cases hki : k = i
        · subst hki
          cases hu.symm.trans hi
          obtain ht' | hfree := hm.beforeLock ht
          · exact .inr ⟨⟨named, c, hj'⟩, m.task, getElem?_advance hu, ht'⟩
          · -- the lock is not free for writing during the transfer
            cases Program.writable_eq hfree (List.mem_of_getElem? hj)
        · exact .inr ⟨⟨named, c, hj'⟩, t, getElem?_advance_ne hki hi, ht⟩

/-- When a reset, a protocol switch or a reopening is done, every transfer that was under way
when it came has ended. -/
theorem request_ends_transfers (forever : Option Nat) (acts : List (Act Request Outcome))
    {p p' : Pool (Backend K) Task} {i j : Nat} {t : Task}
    (hr : run (backendTasks K forever).step p acts = some p')
    (hi : p.tasks[i]? = some t) (ht : t.beforeLock = true)
    (hj : p.tasks[j]? = some (.handleConnection named (.transferring c)))
    (hend : p'.tasks[i]? = some .finished) : p'.tasks[j]? = some .finished := by
  have hout : Outlived i j p' :=
    run_preserves (Outlived i j) (fun h hs => h.step hs) (.inr ⟨⟨named, c, hj⟩, t, hi, ht⟩) hr
  obtain hj' | ⟨_, u, hu, hlock⟩ := hout
  · exact hj'
  · cases hend.symm.trans hu
    cases hlock

/-- A connection has its tunnel, and a request to reset the backend has cancelled the token. -/
def transferReset : Pool (Backend ℚ) Task :=
  ⟨plainBackend.cancel,
    [.handleConnection false (.transferring ⟨.http2, 0⟩), .resetBackend .resetting]⟩

def resetCompletes : List (Act Request Outcome) :=
  [.run 1 .ok, .run 0 .cancelled, .run 1 .ok, .run 1 .ok]

theorem reset_ends_transfer :
    ∃ p', run (backendTasks ℚ none).step transferReset resetCompletes = some p' ∧
      p'.tasks[0]? = some .finished :=
  ⟨_, rfl, request_ends_transfers none resetCompletes (p := transferReset) (i := 1) (j := 0)
    rfl rfl rfl rfl rfl⟩

end Octoproxy
