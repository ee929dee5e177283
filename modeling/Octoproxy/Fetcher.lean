import Octoproxy.Transition

namespace Octoproxy
open Transition
set_option autoImplicit true

inductive MetricApiReq where
  | switchBackendStatus (backendId : Nat)
  | switchBackendProtocol (backendId : Nat)
  | resetBackend (backendId : Nat)
  | allBackends
deriving DecidableEq

/-- `β` stands for the metric of a backend. -/
inductive MetricApiResp (β : Type) where
  | switchBackendStatus
  | switchBackendProtocol
  | resetBackend
  | allBackends (items : List β)
  | error (msg : String)

def MetricApiReq.isAction : MetricApiReq → Bool
  | .allBackends => false
  | _ => true

def MetricApiReq.AnsweredBy : MetricApiReq → MetricApiResp β → Prop
  | _, .error _ => True
  | .switchBackendStatus _, .switchBackendStatus => True
  | .switchBackendProtocol _, .switchBackendProtocol => True
  | .resetBackend _, .resetBackend => True
  | .allBackends, .allBackends _ => True
  | _, _ => False

/-- The server's answer, from the list of its backends and the result of the action. -/
def backendMetricSwitcher (items : List β) (result : Except String Unit) :
    MetricApiReq → MetricApiResp β
  | .allBackends => .allBackends items
  | .switchBackendStatus _ => match result with
    | .error e => .error e
    | .ok () => .switchBackendStatus
  | .resetBackend _ => match result with
    | .error e => .error e
    | .ok () => .resetBackend
  | .switchBackendProtocol _ => match result with
    | .error e => .error e
    | .ok () => .switchBackendProtocol

theorem backendMetricSwitcher_answers (items : List β) (result : Except String Unit)
    (req : MetricApiReq) : req.AnsweredBy (backendMetricSwitcher items result req) := by
  cases req with
  | allBackends => trivial
  | switchBackendStatus id => cases result <;> trivial
  | switchBackendProtocol id => cases result <;> trivial
  | resetBackend id => cases result <;> trivial

/-- What `read_message` gives: a binary message, which may not decode, one of the kinds that are
passed over, a close frame, or an error. -/
inductive Received (β : Type) where
  | binary (res : Except String (MetricApiResp β))
  | ignored
  | close
  | failed

inductive MetricApiNotify where
  | allBackends
  | error (msg : String)
deriving DecidableEq

/-- The fetcher with the state of its network loop: the requests queued for it, the one whose
answer it waits for, and what it has told the rest of the program. -/
structure Fetcher (β : Type) where
  pending : Bool
  pendingOnId : Nat
  queue : List MetricApiReq
  awaiting : Option MetricApiReq
  running : Bool
  backends : List β
  notified : List MetricApiNotify
  closed : Bool

inductive FetcherAct (β : Type) where
  | resetBackend (selected : Nat)
  | switchBackendProtocol (selected : Nat)
  | switchBackendStatus (selected : Nat)
  | select (ticker : Bool) (written : Except String Unit)
  | receive (res : Received β)

namespace Fetcher

def new : Fetcher β := ⟨false, 0, [], none, true, [], [], false⟩

/-- Whether the request is taken. `none` is the panic of a send to a loop that has ended. -/
def backendAction (s : Fetcher β) (msg : MetricApiReq) : Option (Fetcher β × Bool) :=
  if s.pending then some (s, false)
  else if s.running then some ({ s with pending := true, queue := s.queue ++ [msg] }, true)
  else none

def request (s : Fetcher β) (msg : Nat → MetricApiReq) (selected : Nat) : Option (Fetcher β) :=
  match s.backendAction (msg selected) with
  | none => none
  | some (s, true) => some { s with pendingOnId := selected }
  | some (s, false) => some s

def resetBackend (s : Fetcher β) : Nat → Option (Fetcher β) := s.request .resetBackend

def switchBackendProtocol (s : Fetcher β) : Nat → Option (Fetcher β) :=
  s.request .switchBackendProtocol

def switchBackendStatus (s : Fetcher β) : Nat → Option (Fetcher β) :=
  s.request .switchBackendStatus

def fail (s : Fetcher β) (e : String) : Fetcher β :=
  { s with running := false, notified := s.notified ++ [.error e] }

def writeMessage (s : Fetcher β) (req : MetricApiReq) : Except String Unit → Fetcher β
  | .ok () => { s with awaiting := some req }
  | .error e => s.fail e

/-- The upper half of the loop: a queued request or the ticker's is written to the socket. -/
def selectRequest (s : Fetcher β) (ticker : Bool) (written : Except String Unit) :
    Option (Fetcher β) :=
  if s.running && s.awaiting.isNone then
    if ticker then some (s.writeMessage .allBackends written)
    else match s.queue with
      | [] => none
      | req :: queue => some ({ s with queue := queue }.writeMessage req written)
  else none

def answer (s : Fetcher β) : MetricApiResp β → Fetcher β
  | .switchBackendProtocol => { s with pending := false }
  | .switchBackendStatus => { s with pending := false }
  | .resetBackend => { s with pending := false }
  | .allBackends items => { s with
      backends := items
      notified := s.notified ++ [.allBackends] }
  | .error msg => { s with notified := s.notified ++ [.error msg] }

/-- The lower half of the loop. -/
def receive (s : Fetcher β) (res : Received β) : Option (Fetcher β) :=
  if s.running && s.awaiting.isSome then
    let s := { s with awaiting := none }
    match res with
    | .binary (.ok res) => some (s.answer res)
    | .binary (.error e) => some (s.fail e)
    | .ignored => some s
    | .close => some { s with running := false, closed := true }
    | .failed => some { s with running := false, closed := true }
  else none

def step (s : Fetcher β) : FetcherAct β → Option (Fetcher β)
  | .resetBackend selected => s.resetBackend selected
  | .switchBackendProtocol selected => s.switchBackendProtocol selected
  | .switchBackendStatus selected => s.switchBackendStatus selected
  | .select ticker written => s.selectRequest ticker written
  | .receive res => s.receive res

def outstanding (s : Fetcher β) : Nat :=
  (s.queue ++ s.awaiting.toList).countP MetricApiReq.isAction

/-- The flag stands for the one action that is outstanding, and without one the next is taken. -/
structure Gated (s : Fetcher β) : Prop where
  flag : s.pending = true ↔ s.outstanding = 1
  single : s.outstanding ≤ 1
  accepts : s.outstanding = 0 → ∀ msg, ∃ s', s.backendAction msg = some (s', true)

/-- The connection holds, and every request gets one answer that belongs to it. -/
def Served (s : Fetcher β) : FetcherAct β → Prop
  | .select _ written => written = .ok ()
  | .receive res => ∃ req answer, s.awaiting = some req ∧ res = .binary (.ok answer) ∧
      req.AnsweredBy answer
  | _ => True

def Granted (s : Fetcher β) : FetcherAct β → Prop
  | .receive (.binary (.ok (.error _))) => ∀ req, s.awaiting = some req → req.isAction = false
  | _ => True

section
variable {s s' : Fetcher β}

theorem request_cases (h : s.request msg selected = some s') :
    s.pending = true ∧ s' = s ∨ s.pending = false ∧ s.running = true ∧ s' = { s with
      pending := true
      queue := s.queue ++ [msg selected]
      pendingOnId := selected } := by
  unfold request backendAction at h
  cases hp : s.pending with
  | true =>
    simp only [hp, if_true, Option.some.injEq] at h
    exact .inl ⟨rfl, h.symm⟩
  | false =>
    cases hr : s.running with
    | true =>
      simp only [hp, hr, Bool.false_eq_true, if_false, if_true, Option.some.injEq] at h
      exact .inr ⟨rfl, rfl, h.symm⟩
    | false =>
      simp only [hp, hr, Bool.false_eq_true, if_false] at h
      cases h

theorem selectRequest_cases (h : s.selectRequest ticker (.ok ()) = some s') :
    s.awaiting = none ∧ (s' = { s with awaiting := some .allBackends } ∨
      ∃ req queue, s.queue = req :: queue ∧
        s' = { s with queue := queue, awaiting := some req }) := by
  simp only [selectRequest, writeMessage] at h
  split at h
  · rename_i hc
    obtain ⟨_, ha⟩ := Bool.and_eq_true_iff.1 hc
    refine ⟨Option.isNone_iff_eq_none.1 ha, ?_⟩
    split at h
    · cases h
      exact .inl rfl
    · split at h
      · cases h
      · rename_i req queue hq
        cases h
        exact .inr ⟨req, queue, hq, rfl⟩
  · cases h

theorem outstanding_eq (s : Fetcher β) : s.outstanding =
    s.queue.countP MetricApiReq.isAction + s.awaiting.toList.countP MetricApiReq.isAction :=
  List.countP_append

/-- While the loop runs, the flag alone decides whether the next action is taken. -/
theorem gated_of_running (hr : s.running = true) :
    s.Gated ↔ (s.pending = true ↔ s.outstanding = 1) ∧ s.outstanding ≤ 1 := by
  constructor
  · intro hg
    exact ⟨hg.flag, hg.single⟩
  · rintro ⟨hf, h1⟩
    refine ⟨hf, h1, ?_⟩
    intro h0 msg
    have hp : ¬ s.pending = true := by
      rw [hf, h0]
      exact nofun
    exact ⟨_, by rw [backendAction, if_neg hp, if_pos hr]⟩

theorem Gated.request (hg : s.Gated) (h : s.request msg selected = some s')
    (hm : (msg selected).isAction = true) (hr : s.running = true) :
    s'.Gated ∧ s'.running = true := by
  obtain ⟨_, rfl⟩ | ⟨hp, _, rfl⟩ := request_cases h
  · exact ⟨hg, hr⟩
  · have h0 : s.outstanding = 0 := by
      have hn : ¬ s.outstanding = 1 := by
        rw [← hg.flag, hp]
        exact nofun
      have := hg.single
      omega
    rw [outstanding_eq] at h0
    refine ⟨(gated_of_running ?_).2 ?_, hr⟩
    · exact hr
    · simp only [outstanding_eq, List.countP_append, List.countP_singleton, hm, if_true, true_iff]
      omega

theorem Gated.select (hg : s.Gated) (h : s.selectRequest ticker (.ok ()) = some s')
    (hr : s.running = true) : s'.Gated ∧ s'.running = true := by
  obtain ⟨hf, h1⟩ := (gated_of_running hr).1 hg
  obtain ⟨ha, rfl | ⟨req, queue, hq, rfl⟩⟩ := selectRequest_cases h
  · have ho : outstanding { s with awaiting := some .allBackends } = s.outstanding := by
      simp only [outstanding_eq, ha]
      rfl
    refine ⟨(gated_of_running ?_).2 ?_, hr⟩
    · exact hr
    · rw [ho]
      exact ⟨hf, h1⟩
  · have ho : outstanding { s with queue := queue, awaiting := some req } = s.outstanding := by
      simp only [outstanding_eq, ha, hq, Option.toList_some, Option.toList_none, List.countP_nil,
        List.countP_cons]
      omega
    refine ⟨(gated_of_running ?_).2 ?_, hr⟩
    · exact hr
    · rw [ho]
      exact ⟨hf, h1⟩

theorem answer_outstanding (s : Fetcher β) (res : MetricApiResp β) :
    (s.answer res).outstanding = s.outstanding := by
  cases res <;> rfl

theorem answer_running (s : Fetcher β) (res : MetricApiResp β) :
    (s.answer res).running = s.running := by
  cases res <;> rfl

theorem answer_tick {req : MetricApiReq} (ha : req.isAction = false) (hans : req.AnsweredBy res)
    (s : Fetcher β) : (s.answer res).pending = s.pending := by
  cases req with
  | allBackends =>
    cases res with
    | allBackends items => rfl
    | error msg => rfl
    | _ => cases hans
  | _ => cases ha

theorem answer_action {req : MetricApiReq} (ha : req.isAction = true) (hans : req.AnsweredBy res)
    (s : Fetcher β) : (∃ msg, res = .error msg) ∨ (s.answer res).pending = false := by
  cases res with
  | allBackends items =>
    cases req with
    | allBackends => cases ha
    | _ => cases hans
  | error msg => exact .inl ⟨msg, rfl⟩
  | _ => exact .inr rfl

theorem Gated.receive {req : MetricApiReq} (hg : s.Gated) (hr : s.running = true)
    (hreq : s.awaiting = some req) (hans : req.AnsweredBy res)
    (h : s.receive (.binary (.ok res)) = some s') :
    (s'.Gated ↔ ∀ msg, res = .error msg → req.isAction = false) ∧ s'.running = true := by
  obtain ⟨hf, h1⟩ := (gated_of_running hr).1 hg
  have hs' : s' = answer { s with awaiting := none } res := by
    simpa [Fetcher.receive, hr, hreq] using h.symm
  have hrun : s'.running = true := by
    rw [hs', answer_running]
    exact hr
  have hleft : s'.outstanding = s.queue.countP MetricApiReq.isAction := by
    rw [hs', answer_outstanding, outstanding_eq]
    rfl
  have hall : s.outstanding =
      s.queue.countP MetricApiReq.isAction + if req.isAction then 1 else 0 := by
    simp only [outstanding_eq, hreq, Option.toList_some, List.countP_singleton]
  refine ⟨?_, hrun⟩
  rw [gated_of_running hrun]
  cases ha : req.isAction with
  | false =>
    have hp : s'.pending = s.pending := by
      rw [hs']
      exact answer_tick ha hans _
    have ho : s'.outstanding = s.outstanding := by
      rw [hleft, hall, ha]
      rfl
    rw [hp, ho]
    exact ⟨fun _ _ _ => rfl, fun _ => ⟨hf, h1⟩⟩
  | true =>
    rw [ha, if_pos rfl] at hall
    have h0 : s'.outstanding = 0 := by omega
    obtain ⟨msg, rfl⟩ | hp := answer_action ha hans { s with awaiting := none }
    · have hp : s'.pending = true := by
        rw [hs']
        exact hf.2 (by omega)
      rw [hp, h0]
      constructor
      · rintro ⟨hf', _⟩
        exact absurd (hf'.1 rfl) nofun
      · intro hn
        exact absurd (hn msg rfl) nofun
    · rw [← hs'] at hp
      rw [hp, h0]
      constructor
      · rintro _ msg rfl
        rw [hs'] at hp
        have := hf.2 (by omega)
        exact absurd (this.symm.trans hp) nofun
      · intro _
        exact ⟨⟨nofun, nofun⟩, by omega⟩

/-- One step keeps the gate exactly when it does not answer an action with an error. -/
theorem gated_step_iff (hg : s.Gated) (hr : s.running = true) (hs : s.Served a)
    (h : s.step a = some s') : (s'.Gated ↔ s.Granted a) ∧ s'.running = true := by
  have keeps (hk : s'.Gated ∧ s'.running = true) (ha : s.Granted a) :
      (s'.Gated ↔ s.Granted a) ∧ s'.running = true :=
    ⟨⟨fun _ => ha, fun _ => hk.1⟩, hk.2⟩
  cases a with
  | resetBackend selected => exact keeps (hg.request h rfl hr) trivial
  | switchBackendProtocol selected => exact keeps (hg.request h rfl hr) trivial
  | switchBackendStatus selected => exact keeps (hg.request h rfl hr) trivial
  | select ticker written =>
    cases hs
    exact keeps (hg.select h hr) trivial
  | receive res =>
    obtain ⟨req, res, hreq, rfl, hans⟩ := hs
    obtain ⟨hiff, hrun⟩ := hg.receive hr hreq hans h
    refine ⟨hiff.trans ?_, hrun⟩
    cases res with
    | error msg =>
      constructor
      · intro hn req' hreq'
        cases hreq.symm.trans hreq'
        exact hn msg rfl
      · intro hn _ _
        exact hn req hreq
    | _ => exact ⟨fun _ => trivial, fun _ => nofun⟩

end

def KeepsGate (s : Fetcher β) (a : FetcherAct β) : Prop := ∀ s', s.step a = some s' → s'.Gated

theorem new_gated : (new : Fetcher β).Gated :=
  (gated_of_running rfl).2 ⟨⟨nofun, nofun⟩, Nat.zero_le 1⟩

end Fetcher

/-- In a session whose requests are all answered, the flag stands for the outstanding action in
every state exactly when no action is answered with an error. -/
theorem request_gate_iff (acts : List (FetcherAct β))
    (hserved : AllSteps Fetcher.step Fetcher.Served .new acts)
    (hrun : run Fetcher.step .new acts = some s) :
    AllSteps Fetcher.step Fetcher.KeepsGate .new acts ↔
      AllSteps Fetcher.step Fetcher.Granted .new acts := by
  refine allSteps_iff_of_step (fun s => s.Gated ∧ s.running = true) ?_ ⟨Fetcher.new_gated, rfl⟩
    hserved hrun
  rintro s s' a ⟨hg, hr⟩ hs h
  obtain ⟨hiff, hrun⟩ := Fetcher.gated_step_iff hg hr hs h
  refine ⟨?_, fun hq => ⟨hiff.2 hq, hrun⟩⟩
  rw [← hiff]
  constructor
  · intro hk
    exact hk s' h
  · intro hk t ht
    cases h.symm.trans ht
    exact hk

def oneAction (id : Nat) (res : MetricApiResp Unit) : List (FetcherAct Unit) :=
  [.resetBackend id, .select false (.ok ()), .receive (.binary (.ok res))]

theorem oneAction_served (id : Nat) (h : (MetricApiReq.resetBackend id).AnsweredBy res) :
    AllSteps Fetcher.step Fetcher.Served .new (oneAction id res) := by
  refine (allSteps_cons rfl).2 ⟨trivial, (allSteps_cons rfl).2 ⟨rfl, ?_⟩⟩
  refine (allSteps_cons rfl).2 ⟨?_, trivial⟩
  exact ⟨_, res, rfl, rfl, h⟩

/-- An action on a backend that does not exist is answered with an error, and no action is taken
any more. -/
theorem error_answer_blocks_gate :
    ¬ ∀ (acts : List (FetcherAct Unit)) (s : Fetcher Unit),
      AllSteps Fetcher.step Fetcher.Served .new acts → run Fetcher.step .new acts = some s →
      AllSteps Fetcher.step Fetcher.KeepsGate .new acts := by
  intro h
  have hk := h (oneAction 7 (.error "no suck backends")) _ (oneAction_served 7 trivial) rfl
  have hg := (hk.2 _ rfl).2 _ rfl |>.1 _ rfl
  obtain ⟨s', hs'⟩ := hg.accepts rfl .allBackends
  cases hs'

/-- The second action is refused while the first is outstanding, a tick comes in between, and after
the answer the third is taken. -/
def threeActions : List (FetcherAct Unit) :=
  [.resetBackend 0, .switchBackendStatus 1, .select true (.ok ()),
    .receive (.binary (.ok (.allBackends [()]))), .select false (.ok ()),
    .receive (.binary (.ok .resetBackend)), .switchBackendProtocol 2]

theorem success_keeps_gate :
    AllSteps Fetcher.step Fetcher.KeepsGate .new threeActions ∧
    ∃ s : Fetcher Unit, run Fetcher.step .new threeActions = some s ∧
      s.queue = [.switchBackendProtocol 2] ∧ s.pendingOnId = 2 := by
  obtain ⟨s, hr, hq⟩ : ∃ s : Fetcher Unit, run Fetcher.step .new threeActions = some s ∧
      s.queue = [.switchBackendProtocol 2] ∧ s.pendingOnId = 2 := ⟨_, rfl, rfl, rfl⟩
  refine ⟨(request_gate_iff threeActions ?_ hr).2 ?_, s, hr, hq⟩
  · refine (allSteps_cons rfl).2 ⟨trivial, (allSteps_cons rfl).2 ⟨trivial, ?_⟩⟩
    refine (allSteps_cons rfl).2 ⟨rfl, (allSteps_cons rfl).2 ⟨?_, ?_⟩⟩
    · exact ⟨.allBackends, _, rfl, rfl, trivial⟩
    refine (allSteps_cons rfl).2 ⟨rfl, (allSteps_cons rfl).2 ⟨?_, ?_⟩⟩
    · exact ⟨.resetBackend 0, _, rfl, rfl, trivial⟩
    exact (allSteps_cons rfl).2 ⟨trivial, trivial⟩
  · refine (allSteps_cons rfl).2 ⟨trivial, (allSteps_cons rfl).2 ⟨trivial, ?_⟩⟩
    refine (allSteps_cons rfl).2 ⟨trivial, (allSteps_cons rfl).2 ⟨trivial, ?_⟩⟩
    refine (allSteps_cons rfl).2 ⟨trivial, (allSteps_cons rfl).2 ⟨trivial, ?_⟩⟩
    exact (allSteps_cons rfl).2 ⟨trivial, trivial⟩

end Octoproxy
