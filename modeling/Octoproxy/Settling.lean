import Octoproxy.Drain
import Octoproxy.FairLocks
import Octoproxy.Proxy

namespace Octoproxy
open TaskPool Transition
set_option autoImplicit true

/-- The backend whose lock the task's next step takes. A selection without a rule reads the
statuses from the metrics, past the locks. -/
def ProxyTask.wants (cfg : Config) : ProxyTask → Option Nat
  | .connection peer .select seen _ => if peer.isNamed then cfg.nextRead peer seen else none
  | .connection peer (.on b pc) _ _ =>
    if (Task.handleConnection peer.isNamed pc).wants = .released then none else some b
  | .connection _ _ _ _ => none
  | .onBackend b t => if t.wants = .released then none else some b

def Config.readsLeft (cfg : Config) (peer : PeerInfo) (seen : List (Nat × BackendStatus)) : Nat :=
  match peer.getBackendNameByRule with
  | .direct => 0
  | .gotBackend _ => if seen.isEmpty then 1 else 0
  | .noRule => cfg.backends.length - seen.length

/-- How far a task is from its end if every attempt and every transfer succeeds. A connection
whose attempt has failed selects again, and leaves a retry task behind. -/
def ProxyTask.rank (cfg : Config) : ProxyTask → Nat
  | .connection _ (.starting _) _ _ => cfg.backends.length + 7
  | .connection peer .select seen _ => cfg.readsLeft peer seen + 5
  | .connection peer (.on _ .failed) _ _ => cfg.readsLeft peer [] + 16
  | .connection peer (.on _ .marked) _ _ => cfg.readsLeft peer [] + 15
  | .connection peer (.on _ pc) _ _ => (Task.handleConnection peer.isNamed pc).rank
  | .connection _ .dialling _ _ => 2
  | .connection _ .copying _ _ => 1
  | .connection _ .finished _ _ => 0
  | .onBackend _ t => t.rank

def ProxyTask.Done : ProxyTask → Prop
  | .connection _ .finished _ _ => True
  | .onBackend _ .finished => True
  | _ => False

def ProxyAct.isRun : ProxyAct C → Bool
  | .run _ _ _ _ => true
  | _ => false

section
variable {s : Proxy K} {cfg : Config}

theorem Proxy.step_tasks [LE C] [DecidableLE C] {cost : ConfigBackend → C}
    (h : s.step cfg forever (.run i roll cost o) = some s') :
    ∃ t new, s'.tasks = s.tasks.set i t ++ new := by
  simp only [Proxy.step] at h
  split at h
  · cases h
  · rename_i peer pc seen log _
    cases pc with
    | starting inbound =>
      cases h
      exact ⟨_, _, rfl⟩
    | select =>
      simp only [Proxy.runConnection, Proxy.readStatus] at h
      split at h
      · split at h
        · cases h
          exact ⟨_, _, rfl⟩
        · cases h
      · cases h
        exact ⟨_, _, rfl⟩
    | on b pc =>
      obtain ⟨m, _, rfl⟩ := Option.map_eq_some_iff.1 h
      exact ⟨_, _, rfl⟩
    | dialling =>
      cases h
      exact ⟨_, _, rfl⟩
    | copying =>
      cases h
      exact ⟨_, _, rfl⟩
    | finished => cases h
  · obtain ⟨m, _, rfl⟩ := Option.map_eq_some_iff.1 h
    exact ⟨_, _, rfl⟩

theorem Proxy.enter_tasks [LE C] [DecidableLE C] {a : ProxyAct C} (ha : a.isRun = false)
    (h : s.step cfg forever a = some s') : ∃ new, s'.tasks = s.tasks ++ new := by
  cases a with
  | accept inbound host addr =>
    cases h
    exact ⟨_, rfl⟩
  | request req env =>
    simp only [Proxy.step] at h
    split at h
    · split at h <;> cases h
      · exact ⟨_, rfl⟩
      · exact ⟨[], (List.append_nil _).symm⟩
    · cases h
      exact ⟨[], (List.append_nil _).symm⟩
  | run i roll cost o => cases ha

end

def proxyLocks [LE C] [DecidableLE C] (K : Type) (cfg : Config) (forever : Option Nat) :
    FairLocks.System (Proxy K) ProxyTask Nat (ProxyAct C)
      (Nat × (ConfigBackend → C) × Outcome) where
  tasks := Proxy.tasks
  wants := ProxyTask.wants cfg
  quits _ _ := false
  enter s a := if a.isRun then none else s.step cfg forever a
  move s i o := s.step cfg forever (.run i o.1 o.2.1 o.2.2)
  entered := by
    intro s a s' h
    split at h
    · cases h
    · rename_i ha
      exact Proxy.enter_tasks (Bool.eq_false_iff.2 ha) h
  moved := Proxy.step_tasks

section
variable {s : Proxy K} {cfg : Config} {t t' : ProxyTask} {new : List ProxyTask}

theorem Proxy.total_advance (ht : s.tasks[i]? = some t)
    (h : t'.rank cfg + total (ProxyTask.rank cfg) new < t.rank cfg) (bs : Nat → Backend K)
    (bal : Balancer) :
    total (ProxyTask.rank cfg) (s.advance i bs bal t' new).tasks <
      total (ProxyTask.rank cfg) s.tasks := by
  have hset := total_set (ProxyTask.rank cfg) ht t'
  rw [Proxy.advance, total_append]
  omega

theorem Config.readsLeft_le (cfg : Config) (peer : PeerInfo)
    (seen : List (Nat × BackendStatus)) : cfg.readsLeft peer seen ≤ cfg.backends.length + 1 := by
  unfold Config.readsLeft
  split
  · omega
  · split <;> omega
  · omega

theorem Config.readsLeft_read (h : cfg.nextRead peer seen = some b) (x : Nat × BackendStatus) :
    cfg.readsLeft peer (seen ++ [x]) < cfg.readsLeft peer seen := by
  cases hrule : peer.getBackendNameByRule with
  | direct =>
    simp only [Config.nextRead, hrule] at h
    cases h
  | gotBackend name =>
    simp only [Config.nextRead, hrule] at h
    simp only [Config.readsLeft, hrule]
    cases seen with
    | nil => exact Nat.succ_pos _
    | cons y seen => cases h
  | noRule =>
    simp only [Config.nextRead, hrule] at h
    obtain ⟨y, hy, _⟩ := Option.map_eq_some_iff.1 h
    have hlt := (List.getElem?_eq_some_iff.1 hy).1
    simp only [Config.readsLeft, hrule, List.length_append, List.length_singleton]
    omega

theorem Connection.enter_rank (cfg : Config) (c : Connection K) (inbound : IncomingConnection)
    (seen : List (Nat × BackendStatus)) (log log' : List Event) :
    (ProxyTask.connection (c.enter cfg inbound).peer (c.enter cfg inbound).pc [] log').rank cfg <
      (ProxyTask.connection c.peer (.starting inbound) seen log).rank cfg := by
  cases inbound with
  | connectMethod =>
    have hle := cfg.readsLeft_le (cfg.findRuleForPeer c.peer) []
    change cfg.readsLeft (cfg.findRuleForPeer c.peer) [] + 5 < cfg.backends.length + 7
    omega
  | nonConnectMethod => exact Nat.succ_pos _

theorem Connection.choose_rank [LE C] [DecidableLE C] (cfg : Config) (c : Connection K)
    (f : Findings C) (log : List Event) :
    (ProxyTask.connection (c.choose cfg f).peer (c.choose cfg f).pc [] log).rank cfg < 5 := by
  unfold Connection.choose
  split
  · exact Nat.succ_pos _
  · rename_i answer bal _
    cases answer with
    | direct => exact Nat.lt_of_lt_of_le (Nat.lt_succ_self 2) (by decide)
    | block => exact Nat.succ_pos _
    | noBackend => exact Nat.succ_pos _
    | gotBackend b => exact Nat.lt_succ_self 4

theorem Connection.directConnection_rank (cfg : Config) (c : Connection K) (log : List Event) :
    (ProxyTask.connection c.directConnection.peer c.directConnection.pc [] log).rank cfg < 2 := by
  unfold Connection.directConnection
  split
  · exact Nat.succ_pos _
  · exact Nat.lt_succ_self 1

theorem Backend.handleConnection_settles (cfg : Config) (st : Backend K) (readable : Bool)
    (peer : PeerInfo) (pc : HandlePc) (b : Nat) (seen : List (Nat × BackendStatus))
    (log : List Event)
    (hr : (Task.handleConnection peer.isNamed pc).wants ≠ .released → readable = true) :
    ∃ o m, st.handleConnection readable peer.isNamed pc o = some m ∧ ∀ log',
      (ProxyTask.connection peer (m.task.resume b) [] log').rank cfg +
          total (ProxyTask.rank cfg) (m.spawned.map (.onBackend b)) <
        (ProxyTask.connection peer (.on b pc) seen log).rank cfg := by
  cases pc with
  | select =>
    have hfree : (readable || !peer.isNamed) = true := by
      cases hn : peer.isNamed with
      | false => exact Bool.or_true _
      | true =>
        rw [hr (by simp [Task.wants, hn])]
        rfl
    refine ⟨.err, ⟨st, .finished, []⟩, ?_, fun _ => Nat.succ_pos _⟩
    simp only [Backend.handleConnection, waitFor, hfree]
    rfl
  | selected =>
    rw [hr (by simp [Task.wants])]
    exact ⟨.ok, _, rfl, fun _ => Nat.lt_add_one _⟩
  | connected c =>
    rw [hr (by simp [Task.wants])]
    exact ⟨.ok, _, rfl, fun _ => Nat.lt_add_one _⟩
  | marked =>
    refine ⟨.ok, _, rfl, ?_⟩
    intro log'
    change cfg.readsLeft peer [] + 5 + (9 + 0) < cfg.readsLeft peer [] + 15
    omega
  | _ => exact ⟨.ok, _, rfl, fun _ => Nat.lt_add_one _⟩

theorem total_onBackend (b : Nat) (ts : List Task) :
    total (ProxyTask.rank cfg) (ts.map (.onBackend b)) = total Task.rank ts := by
  induction ts with
  | nil => rfl
  | cons t ts ih => rw [List.map_cons, total, total, ih]; rfl

theorem Proxy.step_run [LE C] [DecidableLE C] {cost : ConfigBackend → C}
    (ht : s.tasks[i]? = some (.connection peer pc seen log)) :
    s.step cfg forever (.run i roll cost o) =
      s.runConnection cfg i peer seen log roll cost o pc := by
  simp only [Proxy.step, ht]

/-- A connection that can have the lock it needs, if any, has a step to take. -/
theorem Proxy.connection_settles [LE C] [DecidableLE C] [Inhabited C]
    (ht : s.tasks[i]? = some (.connection peer pc seen log))
    (hpos : 0 < (ProxyTask.connection peer pc seen log).rank cfg)
    (hfree : ∀ b, (ProxyTask.connection peer pc seen log).wants cfg = some b →
      s.readable b = true) :
    ∃ (o : Nat × (ConfigBackend → C) × Outcome) (s' : Proxy K),
      s.step cfg forever (.run i o.1 o.2.1 o.2.2) = some s' ∧
      total (ProxyTask.rank cfg) s'.tasks < total (ProxyTask.rank cfg) s.tasks := by
  -- the balancer's inputs and the outcome only matter where they are read
  let calm : Nat × (ConfigBackend → C) × Outcome := (0, fun _ => default, .ok)
  cases pc with
  | starting inbound =>
    refine ⟨calm, _, step_run ht, total_advance ht ?_ _ _⟩
    exact Connection.enter_rank cfg (s.view peer (.starting inbound) log) inbound seen log _
  | select =>
    cases hn : cfg.nextRead peer seen with
    | some b =>
      have hread : (s.readable b || !peer.isNamed) = true := by
        cases hnamed : peer.isNamed with
        | false => exact Bool.or_true _
        | true =>
          rw [hfree b (by rw [ProxyTask.wants, hnamed, hn]; rfl)]
          rfl
      refine ⟨calm, s.advance i s.backends s.balancer
        (.connection peer .select (seen ++ [(b, (s.backends b).getStatus)]) log) [], ?_, ?_⟩
      · rw [step_run ht]
        simp only [Proxy.runConnection, hn, Proxy.readStatus]
        exact if_pos hread
      · apply total_advance ht
        have hlt := Config.readsLeft_read hn (b, (s.backends b).getStatus)
        exact Nat.add_lt_add_right hlt 5
    | none =>
      let f : Findings C := ⟨seenStatus seen, 0, fun _ => default, true, .ok⟩
      refine ⟨calm, s.settle i ((s.view peer .select log).choose cfg f) [], ?_,
        total_advance ht ?_ _ _⟩
      · rw [step_run ht]
        simp only [Proxy.runConnection, hn]
        rfl
      · have hlt := Connection.choose_rank cfg (s.view peer .select log) f
        exact Nat.lt_of_lt_of_le (hlt _) (Nat.le_add_left 5 _)
  | on b pc =>
    obtain ⟨o, m, hm, hlt⟩ := (s.backends b).handleConnection_settles cfg (s.readable b) peer pc b
      seen log (fun hw => hfree b (if_neg hw))
    refine ⟨(0, fun _ => default, o), s.settle i ((s.view peer (.on b pc) log).proceed b pc m)
      (m.spawned.map (.onBackend b)), ?_, total_advance ht (hlt _) _ _⟩
    rw [step_run ht]
    simp only [Proxy.runConnection, hm]
    rfl
  | dialling =>
    refine ⟨calm, _, step_run ht, total_advance ht ?_ _ _⟩
    exact Connection.directConnection_rank cfg (s.view peer .dialling log) _
  | copying =>
    refine ⟨calm, _, step_run ht, total_advance ht ?_ _ _⟩
    exact Nat.succ_pos _
  | finished => cases hpos

theorem Proxy.onBackend_settles [LE C] [DecidableLE C] [Inhabited C] (forever : Option Nat)
    (ht : s.tasks[i]? = some (.onBackend b u)) (hpos : 0 < Task.rank u)
    (hfree : u.wants ≠ .released → s.readable b = true ∧ s.writable b = true) :
    ∃ (o : Nat × (ConfigBackend → C) × Outcome) (s' : Proxy K),
      s.step cfg forever (.run i o.1 o.2.1 o.2.2) = some s' ∧
      total (ProxyTask.rank cfg) s'.tasks < total (ProxyTask.rank cfg) s.tasks := by
  obtain ⟨o, m, hm, hlt⟩ := (backendTasks_ranked K forever).proceed hpos (s.backends b)
    (s.readable b) (s.writable b) (fun hw => (hfree (by rw [hw]; exact nofun)).1)
    (fun hw => (hfree (by rw [hw]; exact nofun)).2)
  refine ⟨(0, fun _ => default, o), s.advance i (Function.update s.backends b m.state) s.balancer
    (.onBackend b m.task) (m.spawned.map (.onBackend b)), ?_, total_advance ht ?_ _ _⟩
  · have hm : u.move forever (s.backends b) (s.readable b) (s.writable b) o = some m := hm
    simp only [Proxy.step, ht, Proxy.runOnBackend, hm]
    rfl
  · rw [total_onBackend]
    exact hlt

/-- A task that can have the lock it needs, if any, has a step to take. -/
theorem Proxy.task_settles [LE C] [DecidableLE C] [Inhabited C] (forever : Option Nat)
    (ht : s.tasks[i]? = some t) (hpos : 0 < t.rank cfg)
    (hfree : ∀ b, t.wants cfg = some b → s.readable b = true ∧ s.writable b = true) :
    ∃ (o : Nat × (ConfigBackend → C) × Outcome) (s' : Proxy K),
      s.step cfg forever (.run i o.1 o.2.1 o.2.2) = some s' ∧
      total (ProxyTask.rank cfg) s'.tasks < total (ProxyTask.rank cfg) s.tasks := by
  cases t with
  | connection peer pc seen log => exact connection_settles ht hpos fun b hb => (hfree b hb).1
  | onBackend b t => exact onBackend_settles forever ht hpos fun hw => hfree b (if_neg hw)

theorem ProxyTask.wants_pos (h : t.wants cfg = some b) : 0 < t.rank cfg := by
  cases t with
  | connection peer pc seen log =>
    cases pc with
    | select => exact Nat.succ_pos _
    | on b pc => cases pc <;> exact Nat.succ_pos _
    | _ => cases h
  | onBackend b t =>
    refine (backendTasks_ranked Unit none).waits ?_
    intro hw
    cases (if_pos hw).symm.trans h

theorem ProxyTask.holder (cfg : Config) (hu : u ∈ t.here b) (hh : u.hold ≠ .released) :
    t.wants cfg = none ∧ 0 < t.rank cfg := by
  cases t with
  | connection peer pc seen log =>
    cases pc with
    | select =>
      simp only [ProxyTask.here] at hu
      split at hu
      · obtain rfl := List.mem_singleton.1 hu
        exact absurd rfl hh
      · cases hu
    | on b' pc =>
      simp only [ProxyTask.here] at hu
      split at hu
      · obtain rfl := List.mem_singleton.1 hu
        refine ⟨if_pos ((Task.hold_or_wants _).resolve_left hh), ?_⟩
        cases pc <;> exact Nat.succ_pos _
      · cases hu
    | _ => cases hu
  | onBackend b' t =>
    simp only [ProxyTask.here] at hu
    split at hu
    · obtain rfl := List.mem_singleton.1 hu
      obtain ⟨hw, hpos⟩ := (backendTasks_ranked Unit none).holder hh
      exact ⟨if_pos hw, hpos⟩
    · cases hu

/-- When everyone who has something left to do waits for a lock, all the locks are free. -/
theorem Proxy.free_of_waiting
    (h : ∀ t ∈ s.tasks, 0 < t.rank cfg → t.wants cfg ≠ none) (b : Nat) :
    s.readable b = true ∧ s.writable b = true := by
  have hreleased : ∀ u ∈ s.tasksOn b, u.hold = .released := by
    intro u hu
    obtain ⟨t, ht, hu⟩ := List.mem_flatMap.1 hu
    by_contra hh
    obtain ⟨hw, hpos⟩ := ProxyTask.holder cfg hu hh
    exact h t ht hpos hw
  constructor
  · apply List.all_eq_true.2
    intro u hu
    rw [hreleased u hu]
    rfl
  · apply List.all_eq_true.2
    intro u hu
    rw [hreleased u hu]
    rfl

end

theorem ProxyTask.rank_eq_zero {t : ProxyTask} (h : t.rank cfg = 0) : t.Done := by
  cases t with
  | connection peer pc seen log =>
    cases pc with
    | on b pc => cases pc <;> cases h
    | finished => trivial
    | _ => cases h
  | onBackend b t =>
    rw [Task.rank_eq_zero h]
    trivial

theorem proxyLocks_ranked [LE C] [DecidableLE C] [Inhabited C] (K : Type) (cfg : Config)
    (forever : Option Nat) : FairLocks.Ranked (proxyLocks (C := C) K cfg forever)
      (fun _ => True) fun s => total (ProxyTask.rank cfg) s.tasks where
  keeps := fun _ _ => trivial
  rest := by
    intro s _ hzero i
    by_contra hne
    obtain ⟨b, hb⟩ := Option.ne_none_iff_exists'.1 hne
    obtain ⟨t, ht, hb⟩ := Option.bind_eq_some_iff.1 hb
    have hz := rank_of_total hzero (List.mem_of_getElem? ht)
    exact absurd hz (Nat.ne_of_gt (ProxyTask.wants_pos hb))
  progress := by
    intro s _ hpos
    by_cases hfree : ∃ t ∈ s.tasks, 0 < t.rank cfg ∧ t.wants cfg = none
    · left
      obtain ⟨t, ht, hp, hw⟩ := hfree
      obtain ⟨i, hi⟩ := List.mem_iff_getElem?.1 ht
      obtain ⟨o, s', hs, hlt⟩ :=
        Proxy.task_settles (C := C) forever hi hp (by rw [hw]; exact nofun)
      refine ⟨i, o, s', ?_, hs, hlt⟩
      exact (congrArg (·.bind (ProxyTask.wants cfg)) hi).trans hw
    · right
      have hwait : ∀ t ∈ s.tasks, 0 < t.rank cfg → t.wants cfg ≠ none :=
        fun t ht hp hw => hfree ⟨t, ht, hp, hw⟩
      obtain ⟨i, t, hi, hp⟩ := exists_of_total_pos hpos
      obtain ⟨b, hb⟩ := Option.ne_none_iff_exists'.1 (hwait t (List.mem_of_getElem? hi) hp)
      refine ⟨b, ⟨i, (congrArg (·.bind (ProxyTask.wants cfg)) hi).trans hb⟩, ?_⟩
      intro j hj
      obtain ⟨u, hu, hj⟩ := Option.bind_eq_some_iff.1 hj
      exact Proxy.task_settles forever hu (ProxyTask.wants_pos hj)
        fun c _ => Proxy.free_of_waiting hwait c

/-- Under the queues of all the backends' locks, whatever connections and requests have come to
the proxy, the tasks that are there can all run to their ends without another one. -/
theorem proxy_no_deadlock [LE C] [DecidableLE C] [Inhabited C] (cfg : Config)
    (forever : Option Nat) (b₀ : Nat → Backend K) (bal : Balancer)
    (acts : List (FairLock.QueueAct (ProxyAct C) (Nat × (ConfigBackend → C) × Outcome)))
    (q : FairLocks.Queued (Proxy K) Nat)
    (hr : run (FairLocks.step (proxyLocks K cfg forever)) ⟨.start b₀ bal, fun _ => []⟩ acts =
      some q) :
    (∃ plain : List (ProxyAct C),
      run (Proxy.step cfg forever) (.start b₀ bal) plain = some q.state) ∧
    ∃ more q', run (FairLocks.step (proxyLocks (C := C) K cfg forever)) q more = some q' ∧
      AllSteps (FairLocks.step (proxyLocks K cfg forever)) FairLocks.Internal q more ∧
      (∀ b, q'.queue b = []) ∧ ∀ t ∈ q'.state.tasks, t.Done := by
  constructor
  · apply FairLocks.run_plain _ _ hr
    · intro s a s' hs
      simp only [proxyLocks] at hs
      split at hs
      · cases hs
      · exact ⟨a, hs⟩
    · intro s i o s' hs
      exact ⟨.run i o.1 o.2.1 o.2.2, hs⟩
  · obtain ⟨more, q', hmore, hall, hq, _, hzero⟩ :=
      (proxyLocks_ranked K cfg forever).drains (FairLocks.InLine.of_run hr) trivial
    exact ⟨more, q', hmore, hall, hq,
      fun t ht => ProxyTask.rank_eq_zero (rank_of_total hzero ht)⟩

/-- A connection holds the lock of the first backend while it connects, and a reset waits for it
in the queue. -/
def resetQueues : List (FairLock.QueueAct (ProxyAct Nat) (Nat × (ConfigBackend → Nat) × Outcome)) :=
  let go (i : Nat) : FairLock.QueueAct (ProxyAct Nat) (Nat × (ConfigBackend → Nat) × Outcome) :=
    .run i (0, fun _ => 0, .ok)
  [.enter (.accept .connectMethod "example.com:80" ⟨.v4 0, 0⟩),
    .enter (.request (.resetBackend 0) workingTls), go 0, go 0, go 0, go 0, go 0, .wait 0, go 0,
    .wait 1, go 1, go 1, go 1, .wait 1]

theorem resetQueues_settles : ∃ q : FairLocks.Queued (Proxy ℚ) Nat,
    run (FairLocks.step (proxyLocks ℚ threeBackends none))
      ⟨.start (fun _ => plainBackend) (.roundRobin 0), fun _ => []⟩ resetQueues = some q ∧
    q.queue 0 = [1] ∧ q.state.writable 0 = false ∧
    ∃ more q', run (FairLocks.step (proxyLocks (C := Nat) ℚ threeBackends none)) q more = some q' ∧
      (∀ b, q'.queue b = []) ∧ ∀ t ∈ q'.state.tasks, t.Done := by
  obtain ⟨q, hq, hqueue, hheld⟩ : ∃ q : FairLocks.Queued (Proxy ℚ) Nat,
      run (FairLocks.step (proxyLocks ℚ threeBackends none))
        ⟨.start (fun _ => plainBackend) (.roundRobin 0), fun _ => []⟩ resetQueues = some q ∧
      q.queue 0 = [1] ∧ q.state.writable 0 = false := ⟨_, rfl, rfl, rfl⟩
  obtain ⟨_, more, q', hmore, _, hempty, hdone⟩ := proxy_no_deadlock threeBackends none
    (fun _ => plainBackend) (.roundRobin 0) resetQueues q hq
  exact ⟨q, hq, hqueue, hheld, more, q', hmore, hempty, hdone⟩

end Octoproxy
