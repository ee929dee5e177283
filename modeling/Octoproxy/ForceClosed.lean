import Octoproxy.Reachable

namespace Octoproxy
open TaskPool Transition
set_option autoImplicit true

/-- An attempt is under way, or about to begin, on a status that was read before: the task may
still write the status without reading it again. -/
def Task.inFlight : Task → Bool
  | .handleConnection _ .selected => true
  | .handleConnection _ (.attempting _) => true
  | .handleConnection _ .failed => true
  | .retryForever (.flagging _) => true
  | .retryForever (.storing _) => true
  | .retryForever (.resetting _) => true
  | .retryForever (.attempting _ _) => true
  | .retryForever .succeeded => true
  | .retryForever (.failed _) => true
  | .retryForever (.remarking _) => true
  | _ => false

def Quiet (p : Pool (Backend K) Task) : Prop := ∀ u ∈ p.tasks, u.inFlight = false

def Task.closes : Task → Bool
  | .switchBackendStatus .closing => true
  | _ => false

def Task.switches : Task → Bool
  | .switchBackendStatus .closing => true
  | .switchBackendStatus .reopening => true
  | _ => false

def Closes (p : Pool (Backend K) Task) : Act Request Outcome → Bool
  | .enter _ => false
  | .run i _ => p.tasks[i]?.any Task.closes

def Switches (p : Pool (Backend K) Task) : Act Request Outcome → Bool
  | .enter _ => false
  | .run i _ => p.tasks[i]?.any Task.switches

/-- A request closes the backend only while nothing is in flight on it. -/
def ClosesQuietly (p : Pool (Backend K) Task) (a : Act Request Outcome) : Prop :=
  Closes p a → Quiet p

instance (p : Pool (Backend K) Task) : Decidable (Quiet p) :=
  inferInstanceAs (Decidable (∀ u ∈ p.tasks, u.inFlight = false))

instance (p : Pool (Backend K) Task) (a : Act Request Outcome) : Decidable (ClosesQuietly p a) :=
  inferInstanceAs (Decidable (Closes p a → Quiet p))

/-- After each request of the run that closes the backend, and however the tasks then go on, the
backend is closed for as long as no request switches its status. -/
def StaysClosed (forever : Option Nat) (p : Pool (Backend K) Task)
    (acts : List (Act Request Outcome)) : Prop :=
  ∀ before a rest p₁ p₂, acts = before ++ a :: rest →
    run (backendTasks K forever).step p before = some p₁ → Closes p₁ a = true →
    (backendTasks K forever).step p₁ a = some p₂ →
    ∀ after p₃, run (backendTasks K forever).step p₂ after = some p₃ →
      AllSteps (backendTasks K forever).step (fun p a => Switches p a = false) p₂ after →
      p₃.state.getStatus = .forceClosed

variable {p p' : Pool (Backend K) Task}

/-- No attempt begins on a backend that is closed by force. -/
theorem Task.Step.inFlight {t : Task} {b : Backend K} (h : t.Step forever b readable writable m)
    (hs : b.getStatus = .forceClosed) (ht : t.inFlight = false) : m.task.inFlight = false := by
  cases h with
  | select hn => cases hs.symm.trans hn
  | retryNeeded hn =>
    obtain hn | hn := hn
    · cases hs.symm.trans hn
    · cases hs.symm.trans hn
  | attempt _ => cases ht
  | fail => cases ht
  | retryClaim _ => cases ht
  | retryStore => cases ht
  | retryAttempt => cases ht
  | retrySucceed => cases ht
  | retryFail => cases ht
  | retryChanged _ => cases ht
  | _ => rfl

theorem Quiet.step (hq : Quiet p) (hs : p.state.getStatus = .forceClosed)
    (h : (backendTasks K forever).step p a = some p') : Quiet p' := by
  cases a with
  | enter r =>
    cases h
    apply forall_spawn hq
    cases r <;> rfl
  | run i o =>
    obtain ⟨t, m, ht, hm, rfl⟩ := step_task h
    apply forall_advance ht hq
    · exact hm.inFlight hs
    · intro u hu
      rw [hm.spawned hu]
      rfl

/-- A task writes the status only while its attempt is in flight, requests apart. -/
theorem Task.writes_inFlight {t : Task} (ht : t.inFlight = false) (hs : t.switches = false) :
    t.writes = none := by
  cases t with
  | handleConnection _ pc => cases pc <;> first | rfl | cases ht
  | retryForever pc => cases pc <;> first | rfl | cases ht
  | switchBackendStatus pc => cases pc <;> first | rfl | cases hs
  | _ => rfl

theorem quiet_keeps_status (hq : Quiet p) (hn : Switches p a = false)
    (h : (backendTasks K forever).step p a = some p') :
    p'.state.getStatus = p.state.getStatus := by
  cases a with
  | enter r =>
    cases h
    rfl
  | run i o =>
    obtain ⟨t, m, ht, hm, rfl⟩ := step_task h
    have hw : t.writes = none := by
      apply Task.writes_inFlight (hq t (List.mem_of_getElem? ht))
      simpa only [Switches, ht, Option.any_some] using hn
    have hs := hm.status
    rwa [hw] at hs

/-- A closed backend on which nothing is in flight stays so until its status is switched. -/
theorem closed_run (hs : p.state.getStatus = .forceClosed) (hq : Quiet p)
    (hn : AllSteps (backendTasks K forever).step (fun p a => Switches p a = false) p acts)
    (hr : run (backendTasks K forever).step p acts = some p') :
    p'.state.getStatus = .forceClosed ∧ Quiet p' := by
  apply run_invariant (fun p => p.state.getStatus = .forceClosed ∧ Quiet p) _ ⟨hs, hq⟩ hn hr
  intro p p' a hi hn h
  exact ⟨(quiet_keeps_status hi.2 hn h).trans hi.1, hi.2.step hi.1 h⟩

theorem Task.Step.closes {t : Task} {b : Backend K} (h : t.Step forever b readable writable m)
    (hc : t.closes = true) : m = ⟨b.setStatus .forceClosed, .finished, []⟩ := by
  cases h with
  | statusClose => rfl
  | _ => cases hc

theorem Task.quiet_of_closes {t : Task} (hc : t.closes = true) : t.inFlight = false := by
  cases t with
  | switchBackendStatus pc => rfl
  | _ => cases hc

theorem closes_step (hc : Closes p a = true) (hq : Quiet p)
    (h : (backendTasks K forever).step p a = some p') :
    p'.state.getStatus = .forceClosed ∧ Quiet p' := by
  cases a with
  | enter _ => cases hc
  | run i o =>
    obtain ⟨t, m, ht, hm, rfl⟩ := step_task h
    simp only [Closes, ht, Option.any_some] at hc
    obtain rfl := hm.closes hc
    refine ⟨rfl, ?_⟩
    apply forall_advance ht hq
    · exact fun _ => rfl
    · exact nofun

/-- Some run in which no request switches the status takes the backend out of `ForceClosed`. -/
def Overwritable (forever : Option Nat) (p : Pool (Backend K) Task) : Prop :=
  ∃ acts p', run (backendTasks K forever).step p acts = some p' ∧
    AllSteps (backendTasks K forever).step (fun p a => Switches p a = false) p acts ∧
    p'.state.getStatus ≠ .forceClosed

namespace Overwritable
variable {i : Nat}

theorem of_status (h : p.state.getStatus ≠ .forceClosed) : Overwritable forever p :=
  ⟨[], p, rfl, trivial, h⟩

theorem of_move (ht : p.tasks[i]? = some t) (hn : t.switches = false) (o : Outcome)
    (hm : t.move forever p.state ((backendTasks K forever).readable p)
      ((backendTasks K forever).writable p) o = some m)
    (h : Overwritable forever (p.advance i m)) : Overwritable forever p := by
  obtain ⟨acts, p', hr, ha, hs⟩ := h
  have hstep : (backendTasks K forever).step p (.run i o) = some (p.advance i m) :=
    Program.step_of_move ht hm
  have hsw : Switches p (.run i o) = false := by
    simp only [Switches, ht, Option.any_some, hn]
  exact ⟨.run i o :: acts, p', run_cons.2 ⟨_, hstep, hr⟩, (allSteps_cons hstep).2 ⟨hsw, ha⟩, hs⟩

theorem failed (ht : p.tasks[i]? = some (.handleConnection named .failed)) :
    Overwritable forever p :=
  of_move ht rfl .ok rfl (of_status nofun)

theorem attempting (ht : p.tasks[i]? = some (.handleConnection named (.attempting c))) :
    Overwritable forever p :=
  of_move ht rfl .err rfl (failed (getElem?_advance ht))

theorem selected (ht : p.tasks[i]? = some (.handleConnection named .selected))
    (hr : (backendTasks K forever).readable p = true) : Overwritable forever p := by
  have hm : Task.move forever p.state ((backendTasks K forever).readable p)
      ((backendTasks K forever).writable p) (.handleConnection named .selected) .ok =
        some ⟨p.state, .handleConnection named (.attempting p.state.client), []⟩ := by
    simp only [Task.move, Backend.handleConnection, hr, waitFor, if_true]
  exact of_move ht rfl .ok hm (attempting (getElem?_advance ht))

theorem retryRemarking (ht : p.tasks[i]? = some (.retryForever (.remarking left))) :
    Overwritable forever p :=
  of_move ht rfl .ok rfl (of_status nofun)

theorem retrySucceeded (ht : p.tasks[i]? = some (.retryForever .succeeded)) :
    Overwritable forever p :=
  of_move ht rfl .ok rfl (of_status nofun)

theorem retryFailed (ht : p.tasks[i]? = some (.retryForever (.failed left))) :
    Overwritable forever p := by
  by_cases hs : p.state.getStatus = .forceClosed
  · have hm : Task.move forever p.state ((backendTasks K forever).readable p)
        ((backendTasks K forever).writable p) (.retryForever (.failed left)) .ok =
          some ⟨p.state, .retryForever (.remarking left), []⟩ := by
      simp only [Task.move, Backend.retryForever, hs]
      rfl
    exact of_move ht rfl .ok hm (retryRemarking (getElem?_advance ht))
  · exact of_status hs

theorem retryAttempting (ht : p.tasks[i]? = some (.retryForever (.attempting left c))) :
    Overwritable forever p :=
  of_move ht rfl .err rfl (retryFailed (getElem?_advance ht))

theorem retryResetting (ht : p.tasks[i]? = some (.retryForever (.resetting left))) :
    Overwritable forever p :=
  of_move ht rfl .ok rfl (retryAttempting (getElem?_advance ht))

theorem retryStoring (ht : p.tasks[i]? = some (.retryForever (.storing left))) :
    Overwritable forever p :=
  of_move ht rfl .ok rfl (retryResetting (getElem?_advance ht))

theorem retryFlagging (ht : p.tasks[i]? = some (.retryForever (.flagging left)))
    (hf : p.state.retrying = false) : Overwritable forever p := by
  have hm : Task.move forever p.state ((backendTasks K forever).readable p)
      ((backendTasks K forever).writable p) (.retryForever (.flagging left)) .ok =
        some ⟨p.state, .retryForever (.storing left), []⟩ := by
    simp only [Task.move, Backend.retryForever, hf]
    rfl
  exact of_move ht rfl .ok hm (retryStoring (getElem?_advance ht))

theorem retryWaiting (ho : Orderly p) (ht : p.tasks[i]? = some (.retryForever (.flagging left))) :
    Overwritable forever p := by
  cases hf : p.state.retrying with
  | false => exact retryFlagging ht hf
  | true =>
    obtain ⟨u, hu, ho⟩ := ho.owned hf
    obtain ⟨j, hj⟩ := List.mem_iff_getElem?.1 hu
    have hji : j ≠ i := by
      rintro rfl
      cases hj.symm.trans ht
      cases ho
    cases u with
    | retryForever pc =>
      cases pc with
      | resetting _ => exact retryResetting hj
      | attempting _ _ => exact retryAttempting hj
      | succeeded => exact retrySucceeded hj
      | failed _ => exact retryFailed hj
      | remarking _ => exact retryRemarking hj
      | recovered => exact of_move hj rfl .ok rfl (retryFlagging (getElem?_advance_ne hji ht) rfl)
      | missed _ => exact of_move hj rfl .ok rfl (retryFlagging (getElem?_advance_ne hji ht) rfl)
      | _ => cases ho
    | _ => cases ho

theorem selectedAfter (ho : Exclusive Task.hold p)
    (ht : p.tasks[i]? = some (.handleConnection named .selected))
    {j : Nat} (hj : p.tasks[j]? = some w) (hw : w.hold = .write) (hn : w.switches = false)
    (hm : w.move forever p.state ((backendTasks K forever).readable p)
      ((backendTasks K forever).writable p) .ok = some m) (hr : m.task.hold = .released) :
    Overwritable forever p := by
  have hji : j ≠ i := by
    rintro rfl
    cases hj.symm.trans ht
    cases hw
  apply of_move hj hn .ok hm
  apply selected (getElem?_advance_ne hji ht)
  apply Exclusive.readable ho hj hw
  · rw [show (backendTasks K forever).hold m.task = .released from hr]
    exact nofun
  · intro u hu
    rw [(Task.move_step hm).spawned hu]
    exact nofun

theorem selectedAfterSwitch (ho : Orderly p)
    (ht : p.tasks[i]? = some (.handleConnection named .selected)) {j : Nat}
    (hj : p.tasks[j]? = some (.switchBackendProtocol env .switching)) :
    Overwritable forever p := by
  have hji : j ≠ i := by
    rintro rfl
    cases hj.symm.trans ht
  cases hi : p.state.installNext env with
  | mk b r =>
    cases r with
    | error e => exact selectedAfter ho.exclusive ht hj rfl rfl (Task.move_switching_error hi) rfl
    | ok _ =>
      have hm : Task.move forever p.state ((backendTasks K forever).readable p)
          ((backendTasks K forever).writable p) (.switchBackendProtocol env .switching) .ok =
            some ⟨b, .switchBackendProtocol env .installed, []⟩ := Task.move_switching_ok hi
      have hex := ho.exclusive.advance (o := .ok) (backendTasks_locks K forever) hj hm
      apply of_move hj rfl .ok hm
      exact selectedAfter hex (getElem?_advance_ne hji ht) (getElem?_advance hj) rfl rfl rfl rfl

theorem selectedWaiting (ho : Orderly p)
    (ht : p.tasks[i]? = some (.handleConnection named .selected)) : Overwritable forever p := by
  cases hr : (backendTasks K forever).readable p with
  | true => exact selected ht hr
  | false =>
    obtain ⟨j, w, hj, hw⟩ := Program.exists_writer hr
    cases w with
    | handleConnection _ pc => cases pc <;> cases hw
    | retryForever pc => cases pc <;> cases hw
    | switchBackendStatus pc =>
      cases pc with
      | renewing => exact selectedAfter ho.exclusive ht hj rfl rfl rfl rfl
      | _ => cases hw
    | resetBackend pc =>
      cases pc with
      | renewing => exact selectedAfter ho.exclusive ht hj rfl rfl rfl rfl
      | _ => cases hw
    | switchBackendProtocol env pc =>
      cases pc with
      | switching => exact selectedAfterSwitch ho ht hj
      | installed => exact selectedAfter ho.exclusive ht hj rfl rfl rfl rfl
      | _ => cases hw
    | finished => cases hw

/-- Whatever is in flight on the backend can go on to write its status. -/
theorem of_inFlight (ho : Orderly p) (ht : p.tasks[i]? = some t) (hf : t.inFlight = true) :
    Overwritable forever p := by
  cases t with
  | handleConnection named pc =>
    cases pc with
    | selected => exact selectedWaiting ho ht
    | attempting c => exact attempting ht
    | failed => exact failed ht
    | _ => cases hf
  | retryForever pc =>
    cases pc with
    | flagging left => exact retryWaiting ho ht
    | storing left => exact retryStoring ht
    | resetting left => exact retryResetting ht
    | attempting left c => exact retryAttempting ht
    | succeeded => exact retrySucceeded ht
    | failed left => exact retryFailed ht
    | remarking left => exact retryRemarking ht
    | _ => cases hf
  | _ => cases hf

end Overwritable

theorem closes_possible (hc : Closes p a = true) :
    ∃ p', (backendTasks K forever).step p a = some p' := by
  cases a with
  | enter _ => cases hc
  | run i o =>
    cases ht : p.tasks[i]? with
    | none =>
      rw [Closes, ht] at hc
      cases hc
    | some t =>
      simp only [Closes, ht, Option.any_some] at hc
      cases t with
      | switchBackendStatus pc =>
        cases pc with
        | closing => exact ⟨_, by simp only [Program.step, ht]; rfl⟩
        | _ => cases hc
      | _ => cases hc

/-- If something is in flight on the backend while a request closes it, it can be overwritten. -/
theorem overwritable_of_closes (ho : Orderly p) (hc : Closes p a = true) (hq : ¬ Quiet p)
    (h : (backendTasks K forever).step p a = some p') : Overwritable forever p' := by
  have ho' := ho.step h
  cases a with
  | enter _ => cases hc
  | run i o =>
    obtain ⟨t, m, ht, hm, rfl⟩ := step_task h
    simp only [Closes, ht, Option.any_some] at hc
    simp only [Quiet, not_forall, Bool.not_eq_false] at hq
    obtain ⟨u, hu, hf⟩ := hq
    obtain rfl | hu := mem_advance_of_mem ht hu
    · cases (Task.quiet_of_closes hc).symm.trans hf
    · obtain ⟨j, hj⟩ := List.mem_iff_getElem?.1 hu
      exact Overwritable.of_inFlight ho' hj hf

/-- In a run of a new backend, each request that closes it does so for good exactly when nothing
is in flight on the backend at that moment. -/
theorem force_closed_sticks_iff [NatCast K] (forever : Option Nat) (env : BuildEnv) (now : Nat)
    (cfg : FileBackendConfig) (b : Backend K) (hb : Backend.new env now cfg = .ok b)
    (acts : List (Act Request Outcome)) :
    StaysClosed forever ⟨b, []⟩ acts ↔
      AllSteps (backendTasks K forever).step ClosesQuietly ⟨b, []⟩ acts := by
  rw [allSteps_iff]
  constructor
  · intro h before a rest p₁ hacts h₁ hc
    have ho : Orderly p₁ := Reachable.orderly ⟨env, now, cfg, b, before, hb, h₁⟩
    obtain ⟨p₂, h₂⟩ := closes_possible hc
    by_contra hq
    obtain ⟨after, p₃, h₃, hn, hs⟩ := overwritable_of_closes ho hc hq h₂
    exact hs (h before a rest p₁ p₂ hacts h₁ hc h₂ after p₃ h₃ hn)
  · intro h before a rest p₁ p₂ hacts h₁ hc h₂ after p₃ h₃ hn
    have hq : Quiet p₁ := h before a rest p₁ hacts h₁ hc
    obtain ⟨hs₂, hq₂⟩ := closes_step hc hq h₂
    exact (closed_run hs₂ hq₂ hn h₃).1

/-- A request closes the backend, then a connection arrives and looks at it. -/
def closeThenConnect : List (Act Request Outcome) :=
  [.enter .switchStatus, .run 0 .ok, .run 0 .ok, .run 0 .ok, .run 0 .ok, .run 0 .ok,
    .enter (.connect false), .run 1 .ok]

theorem force_closed_sticks_for_connection :
    StaysClosed none ⟨plainBackend, []⟩ closeThenConnect :=
  (force_closed_sticks_iff none workingTls 0 plainConfig plainBackend rfl closeThenConnect).2
    (by decide)

/-- The connection's attempt is under way while the backend is closed, and is cancelled. -/
def closeDuringAttempt : List (Act Request Outcome) :=
  [.enter (.connect false), .run 0 .ok, .run 0 .ok,
    .enter .switchStatus, .run 1 .ok, .run 1 .ok, .run 1 .ok, .run 1 .ok]

/-- The cancelled attempt of a connection puts `Closed` over `ForceClosed`. -/
theorem cancelled_attempt_reopens :
    ¬ ∀ (env : BuildEnv) (now : Nat) (cfg : FileBackendConfig) (b : Backend ℚ)
      (acts : List (Act Request Outcome)), Backend.new env now cfg = .ok b →
      StaysClosed none ⟨b, []⟩ acts := by
  intro h
  have hs := h workingTls 0 plainConfig plainBackend (closeDuringAttempt ++ [.run 1 .ok]) rfl
    closeDuringAttempt (.run 1 .ok) [] _ _ rfl rfl rfl rfl [.run 0 .cancelled, .run 0 .ok] _ rfl
    (by decide)
  cases hs

end Octoproxy
