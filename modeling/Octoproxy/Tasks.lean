import Octoproxy.Backend
import Octoproxy.TaskPool

namespace Octoproxy
open TaskPool Transition
set_option autoImplicit true

inductive Outcome where
  | ok
  | err
  | cancelled
deriving DecidableEq

/-- Where `handle_connection` stands with one backend. -/
inductive HandlePc where
  | select
  | selected
  | attempting (client : MixClient)
  | failed
  | marked
  | connected (client : MixClient)
  | transferring (client : MixClient)

/-- Where `retry_forever` stands; `left` is what remains of its budget. -/
inductive RetryPc where
  | starting
  | ticking (left : Option Nat)
  | checking (left : Option Nat)
  | flagging (left : Option Nat)
  | storing (left : Option Nat)
  | resetting (left : Option Nat)
  | attempting (left : Option Nat) (client : MixClient)
  | succeeded
  | recovered
  | failed (left : Option Nat)
  | remarking (left : Option Nat)
  | missed (left : Option Nat)

inductive StatusPc where
  | starting
  | cancelling
  | cancelled
  | reading
  | closing
  | reopening
  | reopened
  | renewing
  | spawning

inductive ResetPc where
  | starting
  | cancelling
  | resetting
  | released
  | renewing

inductive ProtocolPc where
  | starting
  | cancelling
  | cancelled
  | switching
  | installed

inductive Task where
  | handleConnection (named : Bool) (pc : HandlePc)
  | retryForever (pc : RetryPc)
  | switchBackendStatus (pc : StatusPc)
  | resetBackend (pc : ResetPc)
  | switchBackendProtocol (env : BuildEnv) (pc : ProtocolPc)
  | finished

/-- The requests that make a task; `named` tells whether the peer's rule names the backend. -/
inductive Request where
  | connect (named : Bool)
  | switchStatus
  | reset
  | switchProtocol (env : BuildEnv)

def Request.task : Request → Task
  | .connect named => .handleConnection named .select
  | .switchStatus => .switchBackendStatus .starting
  | .reset => .resetBackend .starting
  | .switchProtocol env => .switchBackendProtocol env .starting

/-- The guard on the backend that a task holds between two of its steps. -/
def Task.hold : Task → Hold
  | .handleConnection _ (.attempting _) => .read
  | .handleConnection _ .failed => .read
  | .handleConnection _ .marked => .read
  | .handleConnection _ (.transferring _) => .read
  | .handleConnection _ _ => .released
  | .retryForever .starting => .released
  | .retryForever (.ticking _) => .released
  | .retryForever _ => .read
  | .switchBackendStatus .cancelling => .read
  | .switchBackendStatus .reading => .read
  | .switchBackendStatus .closing => .read
  | .switchBackendStatus .reopening => .read
  | .switchBackendStatus .renewing => .write
  | .switchBackendStatus _ => .released
  | .resetBackend .cancelling => .read
  | .resetBackend .resetting => .read
  | .resetBackend .renewing => .write
  | .resetBackend _ => .released
  | .switchBackendProtocol _ .cancelling => .read
  | .switchBackendProtocol _ .switching => .write
  | .switchBackendProtocol _ .installed => .write
  | .switchBackendProtocol _ _ => .released
  | .finished => .released

/-- Whether an attempt or a transfer has succeeded. It races against the backend's token, which
cannot be replaced while the guard is held. -/
def Backend.race (b : Backend K) : Outcome → Option Bool
  | .ok => some true
  | .err => some false
  | .cancelled => if b.cancellationToken.cancelled then some false else none

/-- `tokio::time::interval` panics when its period is zero. -/
def interval (period : Nat) : Option Nat := if period = 0 then none else some period

/-- The number of ticks a retry task waits for, if it is bounded; `forever` stands for a
configured 0. -/
def Backend.budget (forever : Option Nat) (b : Backend K) : Option Nat :=
  if b.maxRetries = 0 then forever else some b.maxRetries

/-- The step is possible once the lock can be taken. -/
def waitFor (free : Bool) (m : Move (Backend K) Task) : Option (Move (Backend K) Task) :=
  if free then some m else none

namespace Backend
variable (b : Backend K)

/-- A selection that passes this backend over is over for it: the connection comes back as a new
one. Only the lookup of a named backend waits for the lock. -/
def handleConnection (readable named : Bool) :
    HandlePc → Outcome → Option (Move (Backend K) Task)
  | .select, o => waitFor (readable || !named)
      (if o = .ok ∧ b.getStatus = .normal then ⟨b, .handleConnection named .selected, []⟩
        else ⟨b, .finished, []⟩)
  | .selected, _ => waitFor readable ⟨b, .handleConnection named (.attempting b.client), []⟩
  | .attempting c, o => match b.race o with
    | none => none
    | some true => some ⟨b, .handleConnection named (.connected c), []⟩
    | some false => some ⟨b, .handleConnection named .failed, []⟩
  | .failed, _ => some ⟨b.setStatus .closed, .handleConnection named .marked, []⟩
  | .marked, _ => some ⟨b, .handleConnection named .select, [.retryForever .starting]⟩
  | .connected c, _ => waitFor readable ⟨b, .handleConnection named (.transferring c), []⟩
  | .transferring _, o => match b.race o with
    | none => none
    | some _ => some ⟨b, .finished, []⟩

/-- The body of `retry_connect` runs from `checking` to the end of the tick. A panic ends the task
and gives its guard back. -/
def retryForever (forever : Option Nat) (readable : Bool) :
    RetryPc → Outcome → Option (Move (Backend K) Task)
  | .starting, _ => waitFor readable (match interval b.retryTimeout with
    | none => ⟨b, .finished, []⟩
    | some _ => ⟨b, .retryForever (.ticking (b.budget forever)), []⟩)
  | .ticking (some 0), _ => some ⟨b, .finished, []⟩
  | .ticking left, _ => waitFor readable ⟨b, .retryForever (.checking left), []⟩
  | .checking left, _ => match b.getStatus with
    | .normal => some ⟨b, .finished, []⟩
    | .forceClosed => some ⟨b, .finished, []⟩
    | .closed => some ⟨b, .retryForever (.flagging left), []⟩
    | .unknown => some ⟨b, .retryForever (.flagging left), []⟩
  | .flagging left, _ =>
    if b.retrying then some ⟨b, .finished, []⟩ else some ⟨b, .retryForever (.storing left), []⟩
  | .storing left, _ => some ⟨{ b with retrying := true }, .retryForever (.resetting left), []⟩
  | .resetting left, _ => some ⟨b, .retryForever (.attempting left b.client), []⟩
  | .attempting left _, o => match b.race o with
    | none => none
    | some true => some ⟨b, .retryForever .succeeded, []⟩
    | some false => some ⟨b, .retryForever (.failed left), []⟩
  | .succeeded, _ => some ⟨b.setStatus .normal, .retryForever .recovered, []⟩
  | .recovered, _ => some ⟨{ b with retrying := false }, .finished, []⟩
  | .failed left, _ =>
    if b.getStatus ≠ .closed then some ⟨b, .retryForever (.remarking left), []⟩
    else some ⟨b, .retryForever (.missed left), []⟩
  | .remarking left, _ => some ⟨b.setStatus .closed, .retryForever (.missed left), []⟩
  | .missed left, _ =>
    some ⟨{ b with retrying := false }, .retryForever (.ticking (left.map (· - 1))), []⟩

def switchBackendStatus (readable writable : Bool) : StatusPc → Option (Move (Backend K) Task)
  | .starting => waitFor readable ⟨b, .switchBackendStatus .cancelling, []⟩
  | .cancelling => some ⟨b.cancel, .switchBackendStatus .cancelled, []⟩
  | .cancelled => waitFor readable ⟨b, .switchBackendStatus .reading, []⟩
  | .reading => match b.getStatus with
    | .forceClosed => some ⟨b, .switchBackendStatus .reopening, []⟩
    | .normal => some ⟨b, .switchBackendStatus .closing, []⟩
    | .closed => some ⟨b, .switchBackendStatus .closing, []⟩
    | .unknown => some ⟨b, .switchBackendStatus .closing, []⟩
  | .closing => some ⟨b.setStatus .forceClosed, .finished, []⟩
  | .reopening => some ⟨b.setStatus .unknown, .switchBackendStatus .reopened, []⟩
  | .reopened => waitFor writable ⟨b, .switchBackendStatus .renewing, []⟩
  | .renewing => some ⟨b.renewCancellationToken, .switchBackendStatus .spawning, []⟩
  | .spawning => some ⟨b, .finished, [.retryForever .starting]⟩

def resetBackend (readable writable : Bool) : ResetPc → Option (Move (Backend K) Task)
  | .starting => waitFor readable ⟨b, .resetBackend .cancelling, []⟩
  | .cancelling => some ⟨b.cancel, .resetBackend .resetting, []⟩
  | .resetting => some ⟨b.resetClient, .resetBackend .released, []⟩
  | .released => waitFor writable ⟨b, .resetBackend .renewing, []⟩
  | .renewing => some ⟨b.renewCancellationToken, .finished, []⟩

def switchBackendProtocol (readable writable : Bool) (env : BuildEnv) :
    ProtocolPc → Option (Move (Backend K) Task)
  | .starting => waitFor readable ⟨b, .switchBackendProtocol env .cancelling, []⟩
  | .cancelling => some ⟨b.cancel, .switchBackendProtocol env .cancelled, []⟩
  | .cancelled => waitFor writable ⟨b, .switchBackendProtocol env .switching, []⟩
  | .switching => match b.installNext env with
    | (b, .error _) => some ⟨b, .finished, []⟩
    | (b, .ok ()) => some ⟨b, .switchBackendProtocol env .installed, []⟩
  | .installed => some ⟨b.resetClient, .finished, []⟩

end Backend

def Task.move (forever : Option Nat) (b : Backend K) (readable writable : Bool) :
    Task → Outcome → Option (Move (Backend K) Task)
  | .handleConnection named pc, o => b.handleConnection readable named pc o
  | .retryForever pc, o => b.retryForever forever readable pc o
  | .switchBackendStatus pc, _ => b.switchBackendStatus readable writable pc
  | .resetBackend pc, _ => b.resetBackend readable writable pc
  | .switchBackendProtocol env pc, _ => b.switchBackendProtocol readable writable env pc
  | .finished, _ => none

/-- What one step of a task can do: `readable` and `writable` tell whether the lock is free. -/
inductive Task.Step (forever : Option Nat) (b : Backend K) (readable writable : Prop) :
    Task → Move (Backend K) Task → Prop where
  | select : b.getStatus = .normal → Step forever b readable writable
      (.handleConnection named .select) ⟨b, .handleConnection named .selected, []⟩
  | passOver : Step forever b readable writable
      (.handleConnection named .select) ⟨b, .finished, []⟩
  | attempt : readable → Step forever b readable writable
      (.handleConnection named .selected) ⟨b, .handleConnection named (.attempting b.client), []⟩
  | connect : Step forever b readable writable
      (.handleConnection named (.attempting c)) ⟨b, .handleConnection named (.connected c), []⟩
  | fail : Step forever b readable writable
      (.handleConnection named (.attempting c)) ⟨b, .handleConnection named .failed, []⟩
  | mark : Step forever b readable writable
      (.handleConnection named .failed) ⟨b.setStatus .closed, .handleConnection named .marked, []⟩
  | spawnRetry : Step forever b readable writable (.handleConnection named .marked)
      ⟨b, .handleConnection named .select, [.retryForever .starting]⟩
  | transfer : readable → Step forever b readable writable
      (.handleConnection named (.connected c)) ⟨b, .handleConnection named (.transferring c), []⟩
  | transferred : Step forever b readable writable
      (.handleConnection named (.transferring c)) ⟨b, .finished, []⟩
  | retryPanic : readable → b.retryTimeout = 0 →
      Step forever b readable writable (.retryForever .starting) ⟨b, .finished, []⟩
  | retryStart : readable → b.retryTimeout ≠ 0 → Step forever b readable writable
      (.retryForever .starting) ⟨b, .retryForever (.ticking (b.budget forever)), []⟩
  | retryExceed : Step forever b readable writable
      (.retryForever (.ticking (some 0))) ⟨b, .finished, []⟩
  | retryTick : readable → left ≠ some 0 → Step forever b readable writable
      (.retryForever (.ticking left)) ⟨b, .retryForever (.checking left), []⟩
  | retryNeedless : b.getStatus = .normal ∨ b.getStatus = .forceClosed →
      Step forever b readable writable (.retryForever (.checking left)) ⟨b, .finished, []⟩
  | retryNeeded : b.getStatus = .closed ∨ b.getStatus = .unknown →
      Step forever b readable writable
        (.retryForever (.checking left)) ⟨b, .retryForever (.flagging left), []⟩
  | retryYield : b.retrying = true →
      Step forever b readable writable (.retryForever (.flagging left)) ⟨b, .finished, []⟩
  | retryClaim : b.retrying = false → Step forever b readable writable
      (.retryForever (.flagging left)) ⟨b, .retryForever (.storing left), []⟩
  | retryStore : Step forever b readable writable (.retryForever (.storing left))
      ⟨{ b with retrying := true }, .retryForever (.resetting left), []⟩
  | retryAttempt : Step forever b readable writable
      (.retryForever (.resetting left)) ⟨b, .retryForever (.attempting left b.client), []⟩
  | retrySucceed : Step forever b readable writable
      (.retryForever (.attempting left c)) ⟨b, .retryForever .succeeded, []⟩
  | retryFail : Step forever b readable writable
      (.retryForever (.attempting left c)) ⟨b, .retryForever (.failed left), []⟩
  | retryRecover : Step forever b readable writable
      (.retryForever .succeeded) ⟨b.setStatus .normal, .retryForever .recovered, []⟩
  | retryDone : Step forever b readable writable
      (.retryForever .recovered) ⟨{ b with retrying := false }, .finished, []⟩
  | retryClosed : b.getStatus = .closed → Step forever b readable writable
      (.retryForever (.failed left)) ⟨b, .retryForever (.missed left), []⟩
  | retryChanged : b.getStatus ≠ .closed → Step forever b readable writable
      (.retryForever (.failed left)) ⟨b, .retryForever (.remarking left), []⟩
  | retryMark : Step forever b readable writable
      (.retryForever (.remarking left)) ⟨b.setStatus .closed, .retryForever (.missed left), []⟩
  | retryMiss : Step forever b readable writable (.retryForever (.missed left))
      ⟨{ b with retrying := false }, .retryForever (.ticking (left.map (· - 1))), []⟩
  | statusStart : readable → Step forever b readable writable
      (.switchBackendStatus .starting) ⟨b, .switchBackendStatus .cancelling, []⟩
  | statusCancel : Step forever b readable writable
      (.switchBackendStatus .cancelling) ⟨b.cancel, .switchBackendStatus .cancelled, []⟩
  | statusRead : readable → Step forever b readable writable
      (.switchBackendStatus .cancelled) ⟨b, .switchBackendStatus .reading, []⟩
  | statusIsClosed : b.getStatus = .forceClosed → Step forever b readable writable
      (.switchBackendStatus .reading) ⟨b, .switchBackendStatus .reopening, []⟩
  | statusIsOpen : b.getStatus ≠ .forceClosed → Step forever b readable writable
      (.switchBackendStatus .reading) ⟨b, .switchBackendStatus .closing, []⟩
  | statusClose : Step forever b readable writable
      (.switchBackendStatus .closing) ⟨b.setStatus .forceClosed, .finished, []⟩
  | statusReopen : Step forever b readable writable (.switchBackendStatus .reopening)
      ⟨b.setStatus .unknown, .switchBackendStatus .reopened, []⟩
  | statusLock : writable → Step forever b readable writable
      (.switchBackendStatus .reopened) ⟨b, .switchBackendStatus .renewing, []⟩
  | statusRenew : Step forever b readable writable (.switchBackendStatus .renewing)
      ⟨b.renewCancellationToken, .switchBackendStatus .spawning, []⟩
  | statusSpawn : Step forever b readable writable
      (.switchBackendStatus .spawning) ⟨b, .finished, [.retryForever .starting]⟩
  | resetStart : readable → Step forever b readable writable
      (.resetBackend .starting) ⟨b, .resetBackend .cancelling, []⟩
  | resetCancel : Step forever b readable writable
      (.resetBackend .cancelling) ⟨b.cancel, .resetBackend .resetting, []⟩
  | resetClient : Step forever b readable writable
      (.resetBackend .resetting) ⟨b.resetClient, .resetBackend .released, []⟩
  | resetLock : writable → Step forever b readable writable
      (.resetBackend .released) ⟨b, .resetBackend .renewing, []⟩
  | resetRenew : Step forever b readable writable
      (.resetBackend .renewing) ⟨b.renewCancellationToken, .finished, []⟩
  | protocolStart : readable → Step forever b readable writable
      (.switchBackendProtocol env .starting) ⟨b, .switchBackendProtocol env .cancelling, []⟩
  | protocolCancel : Step forever b readable writable (.switchBackendProtocol env .cancelling)
      ⟨b.cancel, .switchBackendProtocol env .cancelled, []⟩
  | protocolLock : writable → Step forever b readable writable
      (.switchBackendProtocol env .cancelled) ⟨b, .switchBackendProtocol env .switching, []⟩
  | protocolError : (b.installNext env).2 ≠ .ok () → Step forever b readable writable
      (.switchBackendProtocol env .switching) ⟨(b.installNext env).1, .finished, []⟩
  | protocolInstall : (b.installNext env).2 = .ok () → Step forever b readable writable
      (.switchBackendProtocol env .switching)
      ⟨(b.installNext env).1, .switchBackendProtocol env .installed, []⟩
  | protocolReset : Step forever b readable writable
      (.switchBackendProtocol env .installed) ⟨b.resetClient, .finished, []⟩

theorem interval_eq_none : interval period = none ↔ period = 0 := by
  unfold interval
  split
  · rename_i h
    exact ⟨fun _ => h, fun _ => rfl⟩
  · rename_i h
    exact ⟨nofun, fun h0 => absurd h0 h⟩

theorem interval_eq_some (h : interval period = some p) : period ≠ 0 := by
  intro h0
  cases h.symm.trans (interval_eq_none.2 h0)

theorem waitFor_eq_some (h : waitFor (K := K) free m = some m') : free = true ∧ m' = m := by
  cases free with
  | false => cases h
  | true => exact ⟨rfl, (Option.some.inj h).symm⟩

section
variable {b : Backend K} {readable writable : Bool}

theorem Backend.handleConnection_step {writable : Prop}
    (h : b.handleConnection readable named pc o = some m) :
    Task.Step forever b readable writable (.handleConnection named pc) m := by
  cases pc with
  | select =>
    obtain ⟨_, rfl⟩ := waitFor_eq_some h
    split
    · rename_i hs
      exact .select hs.2
    · exact .passOver
  | selected =>
    obtain ⟨hr, rfl⟩ := waitFor_eq_some h
    exact .attempt hr
  | attempting c =>
    simp only [Backend.handleConnection] at h
    split at h
    · cases h
    · cases h
      exact .connect
    · cases h
      exact .fail
  | failed =>
    cases h
    exact .mark
  | marked =>
    cases h
    exact .spawnRetry
  | connected c =>
    obtain ⟨hr, rfl⟩ := waitFor_eq_some h
    exact .transfer hr
  | transferring c =>
    simp only [Backend.handleConnection] at h
    split at h
    · cases h
    · cases h
      exact .transferred

theorem Backend.retryForever_step (h : b.retryForever forever readable pc o = some m) :
    Task.Step forever b readable writable (.retryForever pc) m := by
  cases pc with
  | starting =>
    obtain ⟨hr, rfl⟩ := waitFor_eq_some h
    split <;> rename_i hi
    · exact .retryPanic hr (interval_eq_none.1 hi)
    · exact .retryStart hr (interval_eq_some hi)
  | ticking left =>
    by_cases hl : left = some 0
    · subst hl
      cases h
      exact .retryExceed
    · rw [Backend.retryForever] at h
      · obtain ⟨hr, rfl⟩ := waitFor_eq_some h
        exact .retryTick hr hl
      · exact hl
  | checking left =>
    simp only [Backend.retryForever] at h
    split at h <;> rename_i hs <;> cases h
    · exact .retryNeedless (.inl hs)
    · exact .retryNeedless (.inr hs)
    · exact .retryNeeded (.inl hs)
    · exact .retryNeeded (.inr hs)
  | flagging left =>
    simp only [Backend.retryForever] at h
    split at h <;> rename_i hf <;> cases h
    · exact .retryYield hf
    · exact .retryClaim (Bool.eq_false_iff.2 hf)
  | attempting left c =>
    simp only [Backend.retryForever] at h
    split at h
    · cases h
    · cases h
      exact .retrySucceed
    · cases h
      exact .retryFail
  | failed left =>
    simp only [Backend.retryForever] at h
    split at h <;> rename_i hs <;> cases h
    · exact .retryChanged hs
    · exact .retryClosed (not_not.1 hs)
  | storing left => cases h; exact .retryStore
  | resetting left => cases h; exact .retryAttempt
  | succeeded => cases h; exact .retryRecover
  | recovered => cases h; exact .retryDone
  | remarking left => cases h; exact .retryMark
  | missed left => cases h; exact .retryMiss

theorem Backend.switchBackendStatus_step
    (h : b.switchBackendStatus readable writable pc = some m) :
    Task.Step forever b readable writable (.switchBackendStatus pc) m := by
  cases pc with
  | starting =>
    obtain ⟨hr, rfl⟩ := waitFor_eq_some h
    exact .statusStart hr
  | cancelled =>
    obtain ⟨hr, rfl⟩ := waitFor_eq_some h
    exact .statusRead hr
  | reopened =>
    obtain ⟨hw, rfl⟩ := waitFor_eq_some h
    exact .statusLock hw
  | reading =>
    simp only [Backend.switchBackendStatus] at h
    split at h <;> rename_i hs <;> cases h
    · exact .statusIsClosed hs
    all_goals
      apply Task.Step.statusIsOpen
      rw [hs]
      exact nofun
  | cancelling => cases h; exact .statusCancel
  | closing => cases h; exact .statusClose
  | reopening => cases h; exact .statusReopen
  | renewing => cases h; exact .statusRenew
  | spawning => cases h; exact .statusSpawn

theorem Backend.resetBackend_step (h : b.resetBackend readable writable pc = some m) :
    Task.Step forever b readable writable (.resetBackend pc) m := by
  cases pc with
  | starting =>
    obtain ⟨hr, rfl⟩ := waitFor_eq_some h
    exact .resetStart hr
  | released =>
    obtain ⟨hw, rfl⟩ := waitFor_eq_some h
    exact .resetLock hw
  | cancelling => cases h; exact .resetCancel
  | resetting => cases h; exact .resetClient
  | renewing => cases h; exact .resetRenew

theorem Backend.switchBackendProtocol_step
    (h : b.switchBackendProtocol readable writable env pc = some m) :
    Task.Step forever b readable writable (.switchBackendProtocol env pc) m := by
  cases pc with
  | starting =>
    obtain ⟨hr, rfl⟩ := waitFor_eq_some h
    exact .protocolStart hr
  | cancelled =>
    obtain ⟨hw, rfl⟩ := waitFor_eq_some h
    exact .protocolLock hw
  | switching =>
    simp only [Backend.switchBackendProtocol] at h
    split at h <;> rename_i hi <;> cases h
    · have hs : Task.Step forever b readable writable (.switchBackendProtocol env .switching)
          ⟨(b.installNext env).1, .finished, []⟩ := by
        apply Task.Step.protocolError
        rw [hi]
        exact nofun
      rwa [hi] at hs
    · have hs : Task.Step forever b readable writable (.switchBackendProtocol env .switching)
          ⟨(b.installNext env).1, .switchBackendProtocol env .installed, []⟩ := by
        apply Task.Step.protocolInstall
        rw [hi]
      rwa [hi] at hs
  | cancelling => cases h; exact .protocolCancel
  | installed => cases h; exact .protocolReset

theorem Task.move_step {t : Task} (h : t.move forever b readable writable o = some m) :
    t.Step forever b readable writable m := by
  cases t with
  | handleConnection named pc => exact Backend.handleConnection_step h
  | retryForever pc => exact Backend.retryForever_step h
  | switchBackendStatus pc => exact Backend.switchBackendStatus_step h
  | resetBackend pc => exact Backend.resetBackend_step h
  | switchBackendProtocol env pc => exact Backend.switchBackendProtocol_step h
  | finished => cases h

end

def Task.writes : Task → Option BackendStatus
  | .handleConnection _ .failed => some .closed
  | .retryForever .succeeded => some .normal
  | .retryForever (.remarking _) => some .closed
  | .switchBackendStatus .closing => some .forceClosed
  | .switchBackendStatus .reopening => some .unknown
  | _ => none

theorem Backend.installNext_status (env : BuildEnv) (b : Backend K) :
    (b.installNext env).1.getStatus = b.getStatus := by
  simp only [Backend.installNext]
  split <;> rfl

theorem Task.Step.status {t : Task} {b : Backend K}
    (h : t.Step forever b readable writable m) :
    m.state.getStatus = t.writes.getD b.getStatus := by
  cases h with
  | protocolError _ => exact Backend.installNext_status _ b
  | protocolInstall _ => exact Backend.installNext_status _ b
  | _ => rfl

theorem Task.Step.spawned {t : Task} {b : Backend K}
    (h : t.Step forever b readable writable m) (hu : u ∈ m.spawned) :
    u = .retryForever .starting := by
  cases h with
  | spawnRetry => exact List.mem_singleton.1 hu
  | statusSpawn => exact List.mem_singleton.1 hu
  | _ => cases hu

def backendTasks (K : Type) (forever : Option Nat) : Program (Backend K) Task Request Outcome where
  hold := Task.hold
  entry := Request.task
  move := Task.move forever

theorem Task.move_switching_error {b : Backend K} (hi : b.installNext env = (b', .error e)) :
    Task.move forever b readable writable (.switchBackendProtocol env .switching) o =
      some ⟨b', .finished, []⟩ := by
  simp only [Task.move, Backend.switchBackendProtocol, hi]

theorem Task.move_switching_ok {b : Backend K} (hi : b.installNext env = (b', .ok ())) :
    Task.move forever b readable writable (.switchBackendProtocol env .switching) o =
      some ⟨b', .switchBackendProtocol env .installed, []⟩ := by
  simp only [Task.move, Backend.switchBackendProtocol, hi]

/-- A request that meets no other task does what `switchProtocol` does in one go. -/
theorem switchBackendProtocol_alone (forever : Option Nat) (b : Backend K) (env : BuildEnv) :
    ∃ acts, run (backendTasks K forever).step ⟨b, []⟩ (.enter (.switchProtocol env) :: acts) =
      some ⟨(b.cancel.switchProtocol env).1, [.finished]⟩ := by
  have hlock : run (backendTasks K forever).step ⟨b, []⟩
      [.enter (.switchProtocol env), .run 0 .ok, .run 0 .ok, .run 0 .ok] =
        some ⟨b.cancel, [.switchBackendProtocol env .switching]⟩ := rfl
  have hstep {m} (hm : Task.move forever b.cancel true true
      (.switchBackendProtocol env .switching) .ok = some m) :
      (backendTasks K forever).step ⟨b.cancel, [.switchBackendProtocol env .switching]⟩
        (.run 0 .ok) = some (Pool.advance ⟨b.cancel, _⟩ 0 m) :=
    Program.step_of_move rfl hm
  unfold Backend.switchProtocol
  cases hi : b.cancel.installNext env with
  | mk b' r =>
    cases r with
    | error e =>
      have hs := hstep (Task.move_switching_error hi)
      exact ⟨_, run_append.2 ⟨_, hlock, run_cons.2 ⟨_, hs, run_nil _⟩⟩⟩
    | ok _ =>
      have hs := hstep (Task.move_switching_ok hi)
      have hdone : (backendTasks K forever).step ⟨b', [.switchBackendProtocol env .installed]⟩
          (.run 0 .ok) = some ⟨b'.resetClient, [.finished]⟩ := rfl
      exact ⟨_, run_append.2 ⟨_, hlock, run_cons.2 ⟨_, hs, run_cons.2 ⟨_, hdone, run_nil _⟩⟩⟩⟩

end Octoproxy
