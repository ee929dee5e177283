import Octoproxy.ForceClosed

namespace Octoproxy
open TaskPool Transition
set_option autoImplicit true

namespace Task

def isRequest : Task → Bool
  | .switchBackendStatus _ => true
  | .resetBackend _ => true
  | .switchBackendProtocol _ _ => true
  | _ => false

def marked : Task → Bool
  | .handleConnection _ .marked => true
  | _ => false

def retries : Task → Bool
  | .retryForever _ => true
  | _ => false

def recovered : Task → Bool
  | .retryForever .recovered => true
  | _ => false

def loadsFlag : Task → Bool
  | .retryForever (.flagging _) => true
  | _ => false

/-- The task will try the backend, or spawn a task that will. -/
def pursues : Task → Bool
  | .handleConnection _ .marked => true
  | .retryForever .recovered => false
  | .retryForever _ => true
  | .switchBackendStatus .reopened => true
  | .switchBackendStatus .renewing => true
  | .switchBackendStatus .spawning => true
  | _ => false

/-- A request that has cancelled the token, and has yet to renew it or to close the backend. -/
def renews : Task → Bool
  | .switchBackendStatus .cancelled => true
  | .switchBackendStatus .reading => true
  | .switchBackendStatus .closing => true
  | .switchBackendStatus .reopening => true
  | .switchBackendStatus .reopened => true
  | .switchBackendStatus .renewing => true
  | .resetBackend .resetting => true
  | .resetBackend .released => true
  | .resetBackend .renewing => true
  | .switchBackendProtocol _ .cancelled => true
  | .switchBackendProtocol _ .switching => true
  | _ => false

def unlimited : Task → Bool
  | .retryForever (.ticking left) => left.isNone
  | .retryForever (.checking left) => left.isNone
  | .retryForever (.flagging left) => left.isNone
  | .retryForever (.storing left) => left.isNone
  | .retryForever (.resetting left) => left.isNone
  | .retryForever (.attempting left _) => left.isNone
  | .retryForever (.failed left) => left.isNone
  | .retryForever (.remarking left) => left.isNone
  | .retryForever (.missed left) => left.isNone
  | _ => true

end Task

def Backend.Down (b : Backend K) : Prop := b.getStatus = .closed ∨ b.getStatus = .unknown

/-- If no request is in progress and no connection is about to spawn a retry task, a backend that
is down has a retry task, and attempts on it are not cancelled. -/
def Recoverable (p : Pool (Backend K) Task) : Prop :=
  (∀ u ∈ p.tasks, u.isRequest = false) → (∀ u ∈ p.tasks, u.marked = false) → p.state.Down →
    (∃ u ∈ p.tasks, u.retries = true) ∧ p.state.cancellationToken.cancelled = false

def BuildsClient (p : Pool (Backend K) Task) : Act Request Outcome → Prop
  | .enter _ => True
  | .run i _ => ∀ env ∈ p.tasks[i]?.bind Task.installs, (p.state.nextBuild env).isSome

/-- A retry task that leaves because of the flag does not leave the backend to one that is
already done. -/
def YieldsToOwner (p : Pool (Backend K) Task) : Act Request Outcome → Prop
  | .enter _ => True
  | .run i _ => p.tasks[i]?.any Task.loadsFlag → p.state.retrying = true → p.state.Down →
      ∀ u ∈ p.tasks, u.recovered = false

structure Careful (p : Pool (Backend K) Task) (a : Act Request Outcome) : Prop where
  closes : ClosesQuietly p a
  builds : BuildsClient p a
  yields : YieldsToOwner p a

instance (b : Backend K) : Decidable b.Down :=
  inferInstanceAs (Decidable (b.getStatus = .closed ∨ b.getStatus = .unknown))

instance (p : Pool (Backend K) Task) : Decidable (Recoverable p) :=
  inferInstanceAs (Decidable (_ → _ → _ → _))

instance (p : Pool (Backend K) Task) : (a : Act Request Outcome) → Decidable (BuildsClient p a)
  | .enter _ => isTrue trivial
  | .run i _ =>
    inferInstanceAs
      (Decidable (∀ env ∈ p.tasks[i]?.bind Task.installs, (p.state.nextBuild env).isSome))

instance (p : Pool (Backend K) Task) : (a : Act Request Outcome) → Decidable (YieldsToOwner p a)
  | .enter _ => isTrue trivial
  | .run _ _ => inferInstanceAs (Decidable (_ → _ → _ → ∀ u ∈ p.tasks, u.recovered = false))

instance (p : Pool (Backend K) Task) (a : Act Request Outcome) : Decidable (Careful p a) :=
  decidable_of_iff (ClosesQuietly p a ∧ BuildsClient p a ∧ YieldsToOwner p a)
    ⟨fun h => ⟨h.1, h.2.1, h.2.2⟩, fun h => ⟨h.closes, h.builds, h.yields⟩⟩

/-- What keeps a backend recoverable, whoever is in the middle of what. -/
structure Recovering (p : Pool (Backend K) Task) : Prop where
  maxRetries : p.state.maxRetries = 0
  retryTimeout : p.state.retryTimeout ≠ 0
  unlimited : ∀ u ∈ p.tasks, u.unlimited = true
  quiet : p.state.getStatus = .forceClosed → Quiet p
  orderly : Orderly p
  renewed : p.state.cancellationToken.cancelled = true →
    p.state.getStatus = .forceClosed ∨ ∃ u ∈ p.tasks, u.renews = true
  pursued : p.state.Down → ∃ u ∈ p.tasks, u.pursues = true

theorem Recovering.recoverable (h : Recovering p) : Recoverable p := by
  intro hreq hmark hd
  constructor
  · obtain ⟨u, hu, hp⟩ := h.pursued hd
    refine ⟨u, hu, ?_⟩
    have hr := hreq u hu
    have hm := hmark u hu
    cases u with
    | handleConnection named pc =>
      cases pc with
      | marked => cases hm
      | _ => cases hp
    | retryForever pc => rfl
    | switchBackendStatus pc => cases hr
    | _ => cases hp
  · by_contra hc
    obtain hs | ⟨u, hu, hr⟩ := h.renewed (Bool.of_not_eq_false hc)
    · obtain hd | hd := hd
      · cases hs.symm.trans hd
      · cases hs.symm.trans hd
    · have hn := hreq u hu
      cases u with
      | handleConnection => cases hr
      | retryForever => cases hr
      | finished => cases hr
      | _ => cases hn

theorem Backend.installNext_maxRetries (env : BuildEnv) (b : Backend K) :
    (b.installNext env).1.maxRetries = b.maxRetries := by
  simp only [Backend.installNext]
  split <;> rfl

theorem Backend.installNext_retryTimeout (env : BuildEnv) (b : Backend K) :
    (b.installNext env).1.retryTimeout = b.retryTimeout := by
  simp only [Backend.installNext]
  split <;> rfl

section
variable {t : Task} {b : Backend K}

theorem Task.Step.maxRetries (h : t.Step forever b readable writable m) :
    m.state.maxRetries = b.maxRetries := by
  cases h with
  | protocolError _ => exact Backend.installNext_maxRetries _ b
  | protocolInstall _ => exact Backend.installNext_maxRetries _ b
  | _ => rfl

theorem Task.Step.retryTimeout (h : t.Step forever b readable writable m) :
    m.state.retryTimeout = b.retryTimeout := by
  cases h with
  | protocolError _ => exact Backend.installNext_retryTimeout _ b
  | protocolInstall _ => exact Backend.installNext_retryTimeout _ b
  | _ => rfl

theorem Task.Step.unlimited (h : t.Step none b readable writable m) (hb : b.maxRetries = 0)
    (ht : t.unlimited = true) : m.task.unlimited = true := by
  cases h with
  | retryStart _ _ => simp only [Task.unlimited, Backend.budget, hb, if_true, Option.isNone_none]
  | retryMiss =>
    rw [Task.unlimited, Option.isNone_iff_eq_none] at ht
    subst ht
    rfl
  | _ => first | rfl | exact ht

/-- A cancelled token is left to the request that cancelled it, or the backend is closed. -/
theorem Task.Step.renews (h : t.Step forever b readable writable m)
    (hb : ∀ env ∈ t.installs, (b.nextBuild env).isSome)
    (hc : m.state.cancellationToken.cancelled = true) :
    m.task.renews = true ∨ m.state.getStatus = .forceClosed ∨
      b.cancellationToken.cancelled = true ∧ t.renews = false := by
  cases h with
  | statusCancel => exact .inl rfl
  | statusRead _ => exact .inl rfl
  | statusIsClosed _ => exact .inl rfl
  | statusIsOpen _ => exact .inl rfl
  | statusClose => exact .inr (.inl rfl)
  | statusReopen => exact .inl rfl
  | statusLock _ => exact .inl rfl
  | statusRenew => cases hc
  | resetCancel => exact .inl rfl
  | resetClient => exact .inl rfl
  | resetLock _ => exact .inl rfl
  | resetRenew => cases hc
  | protocolCancel => exact .inl rfl
  | protocolLock _ => exact .inl rfl
  | protocolError he =>
    have hn := hb _ rfl
    rw [(Backend.installNext_error he).2] at hn
    cases hn
  | protocolInstall he => cases (Backend.installNext_ok he).2.symm.trans hc
  | _ => exact .inr (.inr ⟨hc, rfl⟩)

theorem Task.Step.down (h : t.Step forever b readable writable m) (hd : m.state.Down) :
    m.task.pursues = true ∨ b.Down := by
  have hs := h.status
  unfold Backend.Down at hd
  rw [hs] at hd
  cases h with
  | mark => exact .inl rfl
  | retryMark => exact .inl rfl
  | statusReopen => exact .inl rfl
  | retryRecover => obtain hd | hd := hd <;> cases hd
  | statusClose => obtain hd | hd := hd <;> cases hd
  | _ => exact .inr hd

/-- A task that pursues the backend gives it up only to the owner of the flag. -/
theorem Task.Step.pursues (h : t.Step forever b readable writable m) (hb : b.retryTimeout ≠ 0)
    (hl : t.unlimited = true) (hd : m.state.Down) (hp : t.pursues = true) :
    m.task.pursues = true ∨ (∃ u ∈ m.spawned, u.pursues = true) ∨
      b.retrying = true ∧ t.loadsFlag = true := by
  cases h with
  | spawnRetry => exact .inr (.inl ⟨_, List.mem_singleton_self _, rfl⟩)
  | statusSpawn => exact .inr (.inl ⟨_, List.mem_singleton_self _, rfl⟩)
  | retryYield hf => exact .inr (.inr ⟨hf, rfl⟩)
  | retryPanic _ hi => exact absurd hi hb
  | retryExceed => cases hl
  | retryNeedless hs =>
    obtain hs | hs := hs <;> obtain hd | hd := hd <;> cases hs.symm.trans hd
  | retryRecover => obtain hd | hd := hd <;> cases hd
  | _ => first | exact .inl rfl | cases hp

theorem Task.closes_of_writes (h : t.writes = some .forceClosed) : t.closes = true := by
  cases t with
  | handleConnection _ pc => cases pc <;> cases h
  | retryForever pc => cases pc <;> cases h
  | switchBackendStatus pc => cases pc <;> first | rfl | cases h
  | _ => cases h

theorem Task.switches_of_renews (h : t.renews = false) : t.switches = false := by
  cases t with
  | switchBackendStatus pc => cases pc <;> first | rfl | cases h
  | _ => rfl

theorem Task.owns_of_loads (h : t.loadsFlag = true) : t.ownsFlag = false := by
  cases t with
  | retryForever pc => cases pc <;> first | rfl | cases h
  | _ => rfl

theorem Task.pursues_of_owns (ho : t.ownsFlag = true) (hr : t.recovered = false) :
    t.pursues = true := by
  cases t with
  | retryForever pc => cases pc <;> first | rfl | cases hr
  | _ => cases ho

end

section
variable {p p' : Pool (Backend K) Task}

theorem Recovering.enter (h : Recovering p) (r : Request) : Recovering (p.spawn r.task) where
  maxRetries := h.maxRetries
  retryTimeout := h.retryTimeout
  unlimited := by
    apply forall_spawn h.unlimited
    cases r <;> rfl
  quiet := by
    intro hs
    apply forall_spawn (h.quiet hs)
    cases r <;> rfl
  orderly := h.orderly.enter r
  renewed := fun hc => (h.renewed hc).imp_right exists_spawn
  pursued := fun hd => exists_spawn (h.pursued hd)

/-- The backend becomes closed by force only through a request, while nothing is in flight. -/
theorem Recovering.quiet_step (h : Recovering p) (hq : ClosesQuietly p a)
    (hs : (backendTasks K none).step p a = some p') (hf : p'.state.getStatus = .forceClosed) :
    Quiet p' := by
  by_cases hp : p.state.getStatus = .forceClosed
  · exact (h.quiet hp).step hp hs
  · cases a with
    | enter r =>
      cases hs
      exact absurd hf hp
    | run i o =>
      obtain ⟨t, m, ht, hm, rfl⟩ := step_task hs
      have hw : t.writes.getD p.state.getStatus = .forceClosed := hm.status.symm.trans hf
      cases hc : t.writes with
      | none =>
        rw [hc] at hw
        exact absurd hw hp
      | some st =>
        rw [hc] at hw
        cases hw
        have hcl : Closes p (.run i o) = true := by
          simp only [Closes, ht, Option.any_some]
          exact Task.closes_of_writes hc
        exact (closes_step hcl (hq hcl) hs).2

theorem Recovering.renewed_step (h : Recovering p) (hc : Careful p (.run i o))
    (hs : (backendTasks K none).step p (.run i o) = some p')
    (hcan : p'.state.cancellationToken.cancelled = true) :
    p'.state.getStatus = .forceClosed ∨ ∃ u ∈ p'.tasks, u.renews = true := by
  obtain ⟨t, m, ht, hm, rfl⟩ := step_task hs
  have hbuild : ∀ env ∈ t.installs, (p.state.nextBuild env).isSome := by
    have hb := hc.builds
    simp only [BuildsClient, ht, Option.bind_some] at hb
    exact hb
  obtain hr | hf | ⟨hcan, hr⟩ := hm.renews hbuild hcan
  · exact .inr ⟨_, task_mem_advance ht, hr⟩
  · exact .inl hf
  · obtain hf | he := h.renewed hcan
    · left
      have hn : Switches p (.run i o) = false := by
        simp only [Switches, ht, Option.any_some]
        exact Task.switches_of_renews hr
      exact (quiet_keeps_status (h.quiet hf) hn hs).trans hf
    · right
      apply exists_advance ht he
      intro hr'
      cases hr.symm.trans hr'

theorem Recovering.pursued_step (h : Recovering p) (hc : Careful p (.run i o))
    (hs : (backendTasks K none).step p (.run i o) = some p') (hd : p'.state.Down) :
    ∃ u ∈ p'.tasks, u.pursues = true := by
  obtain ⟨t, m, ht, hm, rfl⟩ := step_task hs
  obtain hp | hb := hm.down hd
  · exact ⟨_, task_mem_advance ht, hp⟩
  obtain ⟨u, hu, hp⟩ := h.pursued hb
  obtain rfl | hu := mem_advance_of_mem ht hu
  · obtain hp | ⟨v, hv, hp⟩ | ⟨hf, hload⟩ :=
      hm.pursues h.retryTimeout (h.unlimited u (List.mem_of_getElem? ht)) hd hp
    · exact ⟨_, task_mem_advance ht, hp⟩
    · exact ⟨v, spawned_mem_advance hv, hp⟩
    -- the task leaves, so the one that holds the flag has to stay
    · obtain ⟨v, hv, ho⟩ := h.orderly.owned hf
      have hany : p.tasks[i]?.any Task.loadsFlag = true := by
        simp only [ht, Option.any_some, hload]
      have hp := Task.pursues_of_owns ho (hc.yields hany hf hb v hv)
      obtain rfl | hv := mem_advance_of_mem ht hv
      · cases (Task.owns_of_loads hload).symm.trans ho
      · exact ⟨v, hv, hp⟩
  · exact ⟨u, hu, hp⟩

theorem Recovering.step (h : Recovering p) (hc : Careful p a)
    (hs : (backendTasks K none).step p a = some p') : Recovering p' := by
  cases a with
  | enter r =>
    cases hs
    exact h.enter r
  | run i o =>
    obtain ⟨t, m, ht, hm, rfl⟩ := step_task hs
    constructor
    · exact hm.maxRetries.trans h.maxRetries
    · intro hz
      exact h.retryTimeout (hm.retryTimeout.symm.trans hz)
    · apply forall_advance ht h.unlimited
      · exact hm.unlimited h.maxRetries
      · intro u hu
        rw [hm.spawned hu]
        rfl
    · exact h.quiet_step hc.closes hs
    · exact h.orderly.step hs
    · exact h.renewed_step hc hs
    · exact h.pursued_step hc hs

theorem new_recovering [NatCast K] {b : Backend K} (hb : Backend.new env now cfg = .ok b)
    (hm : cfg.maxRetries = 0) (hi : cfg.retryTimeout ≠ 0) (hs : cfg.status ≠ some .closed)
    (hs' : cfg.status ≠ some .unknown) : Recovering ⟨b, []⟩ := by
  have ho := new_orderly hb
  unfold Backend.new at hb
  split at hb
  · cases hb
  · cases hb
    refine ⟨hm, hi, nofun, fun _ => nofun, ho, nofun, ?_⟩
    intro hd
    unfold Backend.Down Backend.getStatus at hd
    cases hc : cfg.status with
    | none =>
      simp only [newMetric, hc, Option.getD_none] at hd
      obtain hd | hd := hd <;> cases hd
    | some st =>
      simp only [newMetric, hc, Option.getD_some] at hd
      obtain rfl | rfl := hd
      · exact absurd hc hs
      · exact absurd hc hs'

end

/-- A backend that is retried at a proper interval, and not configured to start out of service, is
recoverable in every state that careful steps lead to. -/
theorem recoverable_of_careful [NatCast K] (env : BuildEnv) (now : Nat) (cfg : FileBackendConfig)
    (b : Backend K) (acts : List (Act Request Outcome)) (p : Pool (Backend K) Task)
    (hb : Backend.new env now cfg = .ok b) (hm : cfg.maxRetries = 0) (hi : cfg.retryTimeout ≠ 0)
    (hs : cfg.status ≠ some .closed) (hs' : cfg.status ≠ some .unknown)
    (hc : AllSteps (backendTasks K none).step Careful ⟨b, []⟩ acts)
    (hr : run (backendTasks K none).step ⟨b, []⟩ acts = some p) : Recoverable p := by
  apply Recovering.recoverable
  exact run_invariant Recovering (fun h hc hs => h.step hc hs)
    (new_recovering hb hm hi hs hs') hc hr

/-- A connection fails, and leaves the backend to a retry task. -/
def failOnce : List (Act Request Outcome) :=
  [.enter (.connect false), .run 0 .ok, .run 0 .ok, .run 0 .err, .run 0 .ok, .run 0 .ok]

theorem recoverable_after_failure :
    ∃ p, run (backendTasks ℚ none).step ⟨plainBackend, []⟩ failOnce = some p ∧ p.state.Down ∧
      Recoverable p :=
  ⟨_, rfl, by decide, recoverable_of_careful workingTls 0 plainConfig plainBackend failOnce _ rfl
    rfl nofun nofun nofun (by decide) rfl⟩

/-- The run leads to a backend that is down for good. -/
def Stranded (cfg : FileBackendConfig) (acts : List (Act Request Outcome)) : Prop :=
  ∃ (b : Backend ℚ) (p : Pool (Backend ℚ) Task), Backend.new workingTls 0 cfg = .ok b ∧
    cfg.maxRetries = 0 ∧ run (backendTasks ℚ none).step ⟨b, []⟩ acts = some p ∧ ¬ Recoverable p

/-- A protocol switch fails, and the next attempt is cancelled by the token it leaves. -/
def failedSwitch : List (Act Request Outcome) :=
  [.enter (.switchProtocol brokenTls), .run 0 .ok, .run 0 .ok, .run 0 .ok, .run 0 .ok,
    .enter (.connect false), .run 1 .ok, .run 1 .ok, .run 1 .cancelled, .run 1 .ok, .run 1 .ok]

/-- The backend is closed by force while a connection is in flight on it. -/
def closedInFlight : List (Act Request Outcome) :=
  closeDuringAttempt ++ [.run 1 .ok, .run 0 .cancelled, .run 0 .ok, .run 0 .ok]

/-- Of two connections in flight, the second fails when the first one's retry task has just
recorded its success: the second retry task leaves because of the flag. -/
def leftToFinished : List (Act Request Outcome) :=
  [.enter (.connect false), .enter (.connect false), .run 0 .ok, .run 0 .ok, .run 1 .ok,
    .run 1 .ok, .run 0 .err, .run 0 .ok, .run 0 .ok, .run 2 .ok, .run 2 .ok, .run 2 .ok,
    .run 2 .ok, .run 2 .ok, .run 2 .ok, .run 2 .ok, .run 2 .ok, .run 1 .err, .run 1 .ok,
    .run 1 .ok, .run 3 .ok, .run 3 .ok, .run 3 .ok, .run 3 .ok, .run 2 .ok]

/-- Five ways for a backend to stay down: it starts so, it is to be retried every 0 seconds, a
protocol switch fails, it is closed by force during an attempt, or a retry task leaves it to one
that is already done. -/
theorem stranded_five_ways :
    Stranded { plainConfig with status := some .closed } [] ∧
      Stranded { plainConfig with retryTimeout := 0 } (failOnce ++ [.run 1 .ok]) ∧
      Stranded plainConfig failedSwitch ∧ Stranded plainConfig closedInFlight ∧
      Stranded plainConfig leftToFinished :=
  ⟨⟨_, _, rfl, rfl, rfl, by decide⟩, ⟨_, _, rfl, rfl, rfl, by decide⟩,
    ⟨_, _, rfl, rfl, rfl, by decide⟩, ⟨_, _, rfl, rfl, rfl, by decide⟩,
    ⟨_, _, rfl, rfl, rfl, by decide⟩⟩

end Octoproxy
