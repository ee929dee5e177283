import Octoproxy.Confinement
import Octoproxy.Cover
import Octoproxy.Fetcher
import Octoproxy.Reachable

namespace Octoproxy
open TaskPool Transition
set_option autoImplicit true

/-- A task of the whole proxy. A connection has the statuses that its selection has read so far
and its log; a retry task or an admin request stays with one backend. -/
inductive ProxyTask where
  | connection (peer : PeerInfo) (pc : ConnectionPc) (seen : List (Nat × BackendStatus))
      (log : List Event)
  | onBackend (b : Nat) (t : Task)

structure Proxy (K : Type) where
  backends : Nat → Backend K
  balancer : Balancer
  tasks : List ProxyTask

/-- A connection comes in, an admin request comes in, or a task takes its next step. -/
inductive ProxyAct (C : Type) where
  | accept (inbound : IncomingConnection) (host : String) (addr : SocketAddr)
  | request (req : MetricApiReq) (env : BuildEnv)
  | run (i : Nat) (roll : Nat) (cost : ConfigBackend → C) (outcome : Outcome)

/-- The backend whose status a selection reads next. A rule's backend is the only one that is
looked at; without a rule they are all read, one after the other. -/
def Config.nextRead (cfg : Config) (peer : PeerInfo) (seen : List (Nat × BackendStatus)) :
    Option Nat :=
  match peer.getBackendNameByRule with
  | .direct => none
  | .gotBackend name =>
    if seen.isEmpty then
      (cfg.backends.find? fun b => b.backendName = name).map ConfigBackend.backend
    else none
  | .noRule => cfg.backends[seen.length]?.map ConfigBackend.backend

def seenStatus (seen : List (Nat × BackendStatus)) (b : Nat) : BackendStatus :=
  (seen.lookup b).getD .closed

/-- The task that a request makes, and its backend. -/
def MetricApiReq.task (env : BuildEnv) : MetricApiReq → Option (Nat × Request)
  | .switchBackendStatus id => some (id, .switchStatus)
  | .switchBackendProtocol id => some (id, .switchProtocol env)
  | .resetBackend id => some (id, .reset)
  | .allBackends => none

/-- What the task is to backend `b`. A connection that has read `b` as Normal may choose it. -/
def ProxyTask.here (b : Nat) : ProxyTask → List Task
  | .connection peer (.on b' pc) _ _ =>
    if b' = b then [.handleConnection peer.isNamed pc] else []
  | .connection peer .select seen _ =>
    if (b, .normal) ∈ seen then [.handleConnection peer.isNamed .selected] else []
  | .connection _ _ _ _ => []
  | .onBackend b' t => if b' = b then [t] else []

namespace Proxy

def start (backends : Nat → Backend K) (balancer : Balancer) : Proxy K := ⟨backends, balancer, []⟩

def tasksOn (s : Proxy K) (b : Nat) : List Task := s.tasks.flatMap (ProxyTask.here b)

def readable (s : Proxy K) (b : Nat) : Bool := (s.tasksOn b).all fun t => t.hold != .write

def writable (s : Proxy K) (b : Nat) : Bool := (s.tasksOn b).all fun t => t.hold == .released

def advance (s : Proxy K) (i : Nat) (backends : Nat → Backend K) (balancer : Balancer)
    (t : ProxyTask) (spawned : List ProxyTask) : Proxy K :=
  ⟨backends, balancer, s.tasks.set i t ++ spawned⟩

def view (s : Proxy K) (peer : PeerInfo) (pc : ConnectionPc) (log : List Event) : Connection K :=
  ⟨peer, pc, s.backends, s.balancer, log⟩

/-- One read of a selection. For a rule's backend it goes through the lock. -/
def readStatus (s : Proxy K) (i : Nat) (peer : PeerInfo) (seen : List (Nat × BackendStatus))
    (log : List Event) (b : Nat) : Option (Proxy K) :=
  if s.readable b || !peer.isNamed then
    some (s.advance i s.backends s.balancer
      (.connection peer .select (seen ++ [(b, (s.backends b).getStatus)]) log) [])
  else none

def settle (s : Proxy K) (i : Nat) (c : Connection K) (spawned : List ProxyTask) : Proxy K :=
  s.advance i c.backends c.balancer (.connection c.peer c.pc [] c.log) spawned

def runConnection [LE C] [DecidableLE C] (cfg : Config) (s : Proxy K) (i : Nat) (peer : PeerInfo)
    (seen : List (Nat × BackendStatus)) (log : List Event) (roll : Nat)
    (cost : ConfigBackend → C) (outcome : Outcome) : ConnectionPc → Option (Proxy K)
  | .starting inbound =>
    some (s.settle i ((s.view peer (.starting inbound) log).enter cfg inbound) [])
  | .select =>
    match cfg.nextRead peer seen with
    | some b => s.readStatus i peer seen log b
    | none => some (s.settle i
        ((s.view peer .select log).choose cfg ⟨seenStatus seen, roll, cost, true, outcome⟩) [])
  | .on b pc =>
    ((s.backends b).handleConnection (s.readable b) peer.isNamed pc outcome).map fun m =>
      s.settle i ((s.view peer (.on b pc) log).proceed b pc m) (m.spawned.map (.onBackend b))
  | .dialling => some (s.settle i (s.view peer .dialling log).directConnection [])
  | .copying => some (s.settle i { s.view peer .copying log with pc := .finished } [])
  | .finished => none

def runOnBackend (forever : Option Nat) (s : Proxy K) (i b : Nat) (t : Task)
    (outcome : Outcome) : Option (Proxy K) :=
  (t.move forever (s.backends b) (s.readable b) (s.writable b) outcome).map fun m =>
    s.advance i (Function.update s.backends b m.state) s.balancer (.onBackend b m.task)
      (m.spawned.map (.onBackend b))

def step [LE C] [DecidableLE C] (cfg : Config) (forever : Option Nat) (s : Proxy K) :
    ProxyAct C → Option (Proxy K)
  | .accept inbound host addr => some { s with
      tasks := s.tasks ++ [.connection (.new host addr) (.starting inbound) [] []] }
  | .request req env =>
    match req.task env with
    | some (id, r) =>
      if id < cfg.backends.length then some { s with tasks := s.tasks ++ [.onBackend id r.task] }
      else some s
    | none => some s
  | .run i roll cost outcome =>
    match s.tasks[i]? with
    | none => none
    | some (.connection peer pc seen log) =>
      s.runConnection cfg i peer seen log roll cost outcome pc
    | some (.onBackend b t) => s.runOnBackend forever i b t outcome

end Proxy

/-- A run of the tasks of one backend leads to that state of it, with those tasks and some that
hold no lock. -/
def Projects (forever : Option Nat) (b₀ b : Backend K) (ts : List Task) : Prop :=
  (backendTasks K forever).Brings ⟨b₀, []⟩ b ts

section
variable {b₀ b : Backend K} {ts : List Task}

theorem projects_nil (forever : Option Nat) (b : Backend K) : Projects forever b b [] :=
  Program.brings_nil (backendTasks K forever) b

theorem Projects.select (h : Projects forever b₀ b ts) (hn : b.getStatus = .normal)
    (named : Bool) (hfree : ((ts.all fun u => u.hold != .write) || !named) = true) :
    Projects forever b₀ b (.handleConnection named .selected :: ts) := by
  refine (h.enter (.connect named)).move (m := ⟨b, .handleConnection named .selected, []⟩)
    (o := .ok) ?_
  have hall : ((backendTasks K forever).entry (.connect named) :: ts).all
      (fun u => (backendTasks K forever).hold u != .write) = ts.all fun u => u.hold != .write := rfl
  rw [hall]
  exact (if_pos hfree).trans (congrArg some (if_pos ⟨rfl, hn⟩))

end

namespace Proxy

section
variable {s : Proxy K} {t t' : ProxyTask} {new : List ProxyTask} {b₀ bs : Nat → Backend K}

theorem tasksOn_perm (ht : s.tasks[i]? = some t) (b : Nat) :
    (s.tasksOn b).Perm (t.here b ++ (s.tasks.eraseIdx i).flatMap (ProxyTask.here b)) :=
  (perm_of_getElem? ht).flatMap_right (ProxyTask.here b)

theorem tasksOn_advance (ht : s.tasks[i]? = some t) (bs : Nat → Backend K) (bal : Balancer)
    (t' : ProxyTask) (new : List ProxyTask) (b : Nat) :
    ((s.advance i bs bal t' new).tasksOn b).Perm (t'.here b ++
      (new.flatMap (ProxyTask.here b) ++ (s.tasks.eraseIdx i).flatMap (ProxyTask.here b))) := by
  have hp := (set_append_perm ht t' new).flatMap_right (ProxyTask.here b)
  have hrest : (new ++ s.tasks.eraseIdx i).flatMap (ProxyTask.here b) =
      new.flatMap (ProxyTask.here b) ++ (s.tasks.eraseIdx i).flatMap (ProxyTask.here b) :=
    List.flatMap_append
  rwa [List.flatMap_cons, hrest] at hp

/-- What a step of one task is to a backend, with the other tasks that are about it. -/
def Local (forever : Option Nat) (b₀ : Nat → Backend K) (s : Proxy K) (bs : Nat → Backend K)
    (t t' : ProxyTask) (new : List ProxyTask) (b : Nat) : Prop :=
  ∀ rest, s.readable b = ((t.here b ++ rest).all fun u => u.hold != .write) →
    s.writable b = ((t.here b ++ rest).all fun u => u.hold == .released) →
    Projects forever (b₀ b) (s.backends b) (t.here b ++ rest) →
    Projects forever (b₀ b) (bs b) (t'.here b ++ (new.flatMap (ProxyTask.here b) ++ rest))

theorem Local.advance (hl : s.Local forever b₀ bs t t' new b) (ht : s.tasks[i]? = some t)
    (h : Projects forever (b₀ b) (s.backends b) (s.tasksOn b)) (bal : Balancer) :
    Projects forever (b₀ b) (bs b) ((s.advance i bs bal t' new).tasksOn b) := by
  have hp := tasksOn_perm ht b
  exact (hl _ hp.all_eq hp.all_eq (h.perm hp)).perm (tasksOn_advance ht bs bal t' new b).symm

theorem local_of_here (hb : bs b = s.backends b) (hh : t'.here b = t.here b)
    (hnew : new.flatMap (ProxyTask.here b) = []) : s.Local forever b₀ bs t t' new b := by
  intro rest _ _ h
  rw [hb, hh, hnew]
  exact h

theorem local_of_gone (hb : bs b = s.backends b) (hh : t'.here b = []) (ht : t.here b = [u])
    (hu : u.hold = .released) (hnew : new.flatMap (ProxyTask.here b) = []) :
    s.Local forever b₀ bs t t' new b := by
  intro rest _ _ h
  rw [ht] at h
  rw [hb, hh, hnew]
  exact h.drop hu

theorem local_of_move (ht : t.here b = [u]) (hb : bs b = m.state)
    (hm : u.move forever (s.backends b) (s.readable b) (s.writable b) o = some m)
    (hh : t'.here b = [m.task] ∨ t'.here b = [] ∧ m.task.hold = .released)
    (hnew : new.flatMap (ProxyTask.here b) = m.spawned) :
    s.Local forever b₀ bs t t' new b := by
  intro rest hr hw h
  rw [ht] at hr hw h
  rw [hr, hw] at hm
  have hp := h.move hm
  rw [hb, hnew]
  obtain hh | ⟨hh, hfree⟩ := hh
  · rw [hh]
    exact hp
  · rw [hh]
    exact hp.drop hfree

end

end Proxy

section
variable {s : Proxy K} {b₀ : Nat → Backend K}

theorem here_onBackend_self (b : Nat) (t : Task) : (ProxyTask.onBackend b t).here b = [t] :=
  if_pos rfl

theorem here_onBackend_ne (h : b' ≠ b) (t : Task) : (ProxyTask.onBackend b' t).here b = [] :=
  if_neg h

theorem spawned_here_self (b : Nat) (ts : List Task) :
    (ts.map (ProxyTask.onBackend b)).flatMap (ProxyTask.here b) = ts := by
  induction ts with
  | nil => rfl
  | cons t ts ih => rw [List.map_cons, List.flatMap_cons, here_onBackend_self, ih]; rfl

theorem spawned_here_ne (h : b' ≠ b) (ts : List Task) :
    (ts.map (ProxyTask.onBackend b')).flatMap (ProxyTask.here b) = [] := by
  induction ts with
  | nil => rfl
  | cons t ts ih => rw [List.map_cons, List.flatMap_cons, here_onBackend_ne h, ih]; rfl

theorem Proxy.runOnBackend_projects (ht : s.tasks[i]? = some (.onBackend b t))
    (hs : s.runOnBackend forever i b t o = some s')
    (h : ∀ c, Projects forever (b₀ c) (s.backends c) (s.tasksOn c)) (c : Nat) :
    Projects forever (b₀ c) (s'.backends c) (s'.tasksOn c) := by
  obtain ⟨m, hm, rfl⟩ := Option.map_eq_some_iff.1 hs
  refine Local.advance ?_ ht (h c) s.balancer
  by_cases hc : b = c
  · subst hc
    exact local_of_move (here_onBackend_self b t) (Function.update_self ..) hm
      (.inl (here_onBackend_self b m.task)) (spawned_here_self b m.spawned)
  · apply local_of_here
    · exact Function.update_of_ne (Ne.symm hc) ..
    · rw [here_onBackend_ne hc, here_onBackend_ne hc]
    · exact spawned_here_ne hc m.spawned

theorem here_on_self (peer : PeerInfo) (b : Nat) (pc : HandlePc) (log : List Event) :
    (ProxyTask.connection peer (.on b pc) seen log).here b =
      [.handleConnection peer.isNamed pc] :=
  if_pos rfl

theorem here_on_ne (h : b' ≠ b) (peer : PeerInfo) (pc : HandlePc) (log : List Event) :
    (ProxyTask.connection peer (.on b' pc) seen log).here b = [] :=
  if_neg h

theorem here_seen (h : (b, .normal) ∈ seen) (peer : PeerInfo) (log : List Event) :
    (ProxyTask.connection peer .select seen log).here b =
      [.handleConnection peer.isNamed .selected] :=
  if_pos h

theorem here_unseen (h : (b, .normal) ∉ seen) (peer : PeerInfo) (log : List Event) :
    (ProxyTask.connection peer .select seen log).here b = [] :=
  if_neg h

theorem Proxy.local_of_unchosen {t' : ProxyTask} (hh : t'.here c = []) (peer : PeerInfo)
    (seen : List (Nat × BackendStatus)) (log : List Event) :
    s.Local forever b₀ s.backends (.connection peer .select seen log) t' [] c := by
  by_cases hc : (c, .normal) ∈ seen
  · exact local_of_gone rfl hh (here_seen hc peer log) rfl rfl
  · apply local_of_here rfl _ rfl
    rw [hh, here_unseen hc]

theorem seenStatus_normal (h : seenStatus seen b = .normal) : (b, .normal) ∈ seen := by
  unfold seenStatus at h
  cases hl : seen.lookup b with
  | none =>
    rw [hl] at h
    cases h
  | some st =>
    rw [hl] at h
    cases h
    obtain ⟨l₁, l₂, rfl, _⟩ := List.lookup_eq_some_iff.1 hl
    exact List.mem_append_right _ List.mem_cons_self

theorem Config.Answers.read_normal {cfg : Config} {read : Nat → BackendStatus}
    (h : cfg.Answers peer read (.gotBackend b)) : read b = .normal := by
  unfold Config.Answers at h
  split at h
  · cases h
  · rename_i name _
    obtain ⟨x, _, _, hn, hg⟩ | ⟨_, hg⟩ := cfg.namedBackend_cases read name
    · cases h.trans hg
      exact hn
    · cases h.trans hg
  · obtain h | ⟨x, _, hn, hg⟩ := h
    · cases h
    · cases hg
      exact hn

theorem Proxy.choose_projects [LE C] [DecidableLE C] (cfg : Config)
    (ht : s.tasks[i]? = some (.connection peer .select seen log)) (roll : Nat)
    (cost : ConfigBackend → C) (o : Outcome)
    (h : ∀ c, Projects forever (b₀ c) (s.backends c) (s.tasksOn c)) (c : Nat) :
    let s' := s.settle i
      ((s.view peer .select log).choose cfg ⟨seenStatus seen, roll, cost, true, o⟩) []
    Projects forever (b₀ c) (s'.backends c) (s'.tasksOn c) := by
  dsimp only
  unfold Connection.choose
  split
  · exact (local_of_unchosen rfl peer seen log).advance ht (h c) _
  · rename_i answer bal hn
    refine Local.advance ?_ ht (h c) _
    cases answer with
    | direct => exact local_of_unchosen rfl peer seen log
    | block => exact local_of_unchosen rfl peer seen log
    | noBackend => exact local_of_unchosen rfl peer seen log
    | gotBackend b =>
      have ha : cfg.Answers peer (seenStatus seen) (.gotBackend b) := Config.next_answers hn
      have hseen := seenStatus_normal ha.read_normal
      by_cases hc : b = c
      · subst hc
        apply local_of_here rfl _ rfl
        rw [here_seen hseen]
        exact here_on_self peer b .selected _
      · exact local_of_unchosen (here_on_ne hc ..) peer seen log

theorem Proxy.readStatus_projects (ht : s.tasks[i]? = some (.connection peer .select seen log))
    (hs : s.readStatus i peer seen log b = some s')
    (h : ∀ c, Projects forever (b₀ c) (s.backends c) (s.tasksOn c)) (c : Nat) :
    Projects forever (b₀ c) (s'.backends c) (s'.tasksOn c) := by
  unfold Proxy.readStatus at hs
  split at hs
  · rename_i hfree
    cases hs
    refine Local.advance ?_ ht (h c) _
    by_cases hseen : (c, .normal) ∈ seen
    · apply local_of_here rfl _ rfl
      rw [here_seen hseen, here_seen (List.mem_append_left _ hseen)]
    · by_cases hnew : (c, .normal) = (b, (s.backends b).getStatus)
      · -- The first time that the selection finds the backend Normal.
        obtain ⟨rfl, hn⟩ := Prod.mk.inj hnew
        intro rest hr _ hp
        rw [here_unseen hseen] at hr hp
        rw [hr] at hfree
        rw [here_seen (List.mem_append_right _ (List.mem_singleton.2 hnew))]
        exact hp.select hn.symm peer.isNamed hfree
      · apply local_of_here rfl _ rfl
        rw [here_unseen hseen, here_unseen]
        intro hm
        obtain hm | hm := List.mem_append.1 hm
        · exact hseen hm
        · exact hnew (List.mem_singleton.1 hm)
  · cases hs

/-- After a step on a backend the connection is still there, or it has let go of it. -/
theorem Task.Step.resume_here {st : Backend K}
    (h : (Task.handleConnection (PeerInfo.isNamed peer) pc).Step forever st readable writable m)
    (b : Nat) (log : List Event) :
    (ProxyTask.connection peer (m.task.resume b) [] log).here b = [m.task] ∨
      (ProxyTask.connection peer (m.task.resume b) [] log).here b = [] ∧
        m.task.hold = .released := by
  cases h with
  | passOver => exact .inr ⟨rfl, rfl⟩
  | transferred => exact .inr ⟨rfl, rfl⟩
  | spawnRetry => exact .inr ⟨here_unseen List.not_mem_nil peer log, rfl⟩
  | _ => exact .inl (here_on_self peer b _ log)

theorem resume_here_ne (h : b ≠ c) (t : Task) (peer : PeerInfo) (log : List Event) :
    (ProxyTask.connection peer (t.resume b) [] log).here c = [] := by
  unfold Task.resume
  split
  · exact here_unseen List.not_mem_nil peer log
  · exact here_on_ne h peer _ log
  · rfl

theorem Proxy.proceed_projects {pc : HandlePc}
    (ht : s.tasks[i]? = some (.connection peer (.on b pc) seen log))
    (hm : (s.backends b).handleConnection (s.readable b) peer.isNamed pc o = some m)
    (h : ∀ c, Projects forever (b₀ c) (s.backends c) (s.tasksOn c)) (c : Nat) :
    let s' := s.settle i ((s.view peer (.on b pc) log).proceed b pc m)
      (m.spawned.map (.onBackend b))
    Projects forever (b₀ c) (s'.backends c) (s'.tasksOn c) := by
  refine Local.advance ?_ ht (h c) _
  by_cases hc : b = c
  · subst hc
    have hstep : (Task.handleConnection peer.isNamed pc).Step forever (s.backends b)
        (s.readable b) True m := Backend.handleConnection_step hm
    exact local_of_move (here_on_self peer b pc log) (Function.update_self ..) hm
      (hstep.resume_here b _) (spawned_here_self b m.spawned)
  · apply local_of_here
    · exact Function.update_of_ne (Ne.symm hc) ..
    · rw [here_on_ne hc]
      exact resume_here_ne hc m.task peer _
    · exact spawned_here_ne hc m.spawned

theorem Proxy.settle_projects (ht : s.tasks[i]? = some t) (c' : Connection K)
    (hb : c'.backends = s.backends) (hold : ∀ c, t.here c = [])
    (hnew : ∀ c, (ProxyTask.connection c'.peer c'.pc [] c'.log).here c = [])
    (h : ∀ c, Projects forever (b₀ c) (s.backends c) (s.tasksOn c)) (c : Nat) :
    Projects forever (b₀ c) ((s.settle i c' []).backends c) ((s.settle i c' []).tasksOn c) := by
  refine Local.advance ?_ ht (h c) _
  apply local_of_here (congrFun hb c) _ rfl
  rw [hold, hnew]

theorem Proxy.runConnection_projects [LE C] [DecidableLE C] {cfg : Config}
    {cost : ConfigBackend → C} (ht : s.tasks[i]? = some (.connection peer pc seen log))
    (hs : s.runConnection cfg i peer seen log roll cost o pc = some s')
    (h : ∀ c, Projects forever (b₀ c) (s.backends c) (s.tasksOn c)) (c : Nat) :
    Projects forever (b₀ c) (s'.backends c) (s'.tasksOn c) := by
  cases pc with
  | starting inbound =>
    cases hs
    cases inbound with
    | connectMethod =>
      exact settle_projects ht _ rfl (fun _ => rfl)
        (fun _ => here_unseen List.not_mem_nil ..) h c
    | nonConnectMethod => exact settle_projects ht _ rfl (fun _ => rfl) (fun _ => rfl) h c
  | select =>
    simp only [Proxy.runConnection] at hs
    split at hs
    · exact readStatus_projects ht hs h c
    · cases hs
      exact choose_projects cfg ht roll cost o h c
  | on b pc =>
    obtain ⟨m, hm, rfl⟩ := Option.map_eq_some_iff.1 hs
    exact proceed_projects ht hm h c
  | dialling =>
    cases hs
    unfold Connection.directConnection
    split
    · exact settle_projects ht _ rfl (fun _ => rfl) (fun _ => rfl) h c
    · exact settle_projects ht _ rfl (fun _ => rfl) (fun _ => rfl) h c
  | copying =>
    cases hs
    exact settle_projects ht _ rfl (fun _ => rfl) (fun _ => rfl) h c
  | finished => cases hs

theorem tasksOn_concat (s : Proxy K) (t : ProxyTask) (c : Nat) :
    Proxy.tasksOn { s with tasks := s.tasks ++ [t] } c = s.tasksOn c ++ t.here c := by
  unfold Proxy.tasksOn
  rw [List.flatMap_append, List.flatMap_cons, List.flatMap_nil, List.append_nil]

/-- Every step of the proxy is, to every backend, a run of the backend's own tasks. -/
theorem Proxy.step_projects [LE C] [DecidableLE C] {cfg : Config} {a : ProxyAct C}
    (hs : s.step cfg forever a = some s')
    (h : ∀ c, Projects forever (b₀ c) (s.backends c) (s.tasksOn c)) (c : Nat) :
    Projects forever (b₀ c) (s'.backends c) (s'.tasksOn c) := by
  cases a with
  | accept inbound host addr =>
    cases hs
    have hnil : (ProxyTask.connection (.new host addr) (.starting inbound) [] []).here c = [] := rfl
    rw [tasksOn_concat, hnil, List.append_nil]
    exact h c
  | request req env =>
    simp only [Proxy.step] at hs
    split at hs
    · rename_i id r _
      split at hs
      · cases hs
        rw [tasksOn_concat]
        by_cases hc : id = c
        · subst hc
          rw [here_onBackend_self]
          exact ((h id).enter r).perm (List.perm_append_singleton _ _).symm
        · rw [here_onBackend_ne hc, List.append_nil]
          exact h c
      · cases hs
        exact h c
    · cases hs
      exact h c
  | run i roll cost o =>
    simp only [Proxy.step] at hs
    split at hs
    · cases hs
    · rename_i ht
      exact runConnection_projects ht hs h c
    · rename_i ht
      exact runOnBackend_projects ht hs h c

/-- In every run of the whole proxy, every backend goes through a run of its own tasks: its state
is the one that they bring about, and all the tasks that hold its lock are among them. -/
theorem proxy_projects [LE C] [DecidableLE C] (cfg : Config) (forever : Option Nat)
    (b₀ : Nat → Backend K) (bal : Balancer) (acts : List (ProxyAct C)) (s : Proxy K)
    (hr : run (Proxy.step cfg forever) (.start b₀ bal) acts = some s) (b : Nat) :
    ∃ moves q, run (backendTasks K forever).step ⟨b₀ b, []⟩ moves = some q ∧
      Covers Task.hold q (s.backends b) (s.tasksOn b) := by
  have h := run_preserves (fun s => ∀ c, Projects forever (b₀ c) (s.backends c) (s.tasksOn c))
    (fun h hs => Proxy.step_projects hs h) (fun c => projects_nil forever (b₀ c)) hr
  exact h b

end

/-- A connection finds the first backend Normal while the administrator resets it. -/
def visitAndReset : List (ProxyAct Nat) :=
  [.accept .connectMethod "example.com:80" ⟨.v4 0, 0⟩, .request (.resetBackend 0) workingTls,
    .run 0 0 (fun _ => 0) .ok, .run 0 0 (fun _ => 0) .ok, .run 1 0 (fun _ => 0) .ok,
    .run 1 0 (fun _ => 0) .ok, .run 1 0 (fun _ => 0) .ok, .run 1 0 (fun _ => 0) .ok]

/-- On the first backend the connection has selected it, and the reset holds its lock. -/
theorem visitAndReset_projects : ∃ s : Proxy ℚ,
    run (Proxy.step threeBackends none) (.start (fun _ => plainBackend) (.roundRobin 0))
      visitAndReset = some s ∧
    (s.backends 0).cancellationToken.cancelled = true ∧
    ∃ moves q, run (backendTasks ℚ none).step ⟨plainBackend, []⟩ moves = some q ∧
      Covers Task.hold q (s.backends 0)
        [.handleConnection false .selected, .resetBackend .renewing] :=
  ⟨_, rfl, rfl, proxy_projects threeBackends none (fun _ => plainBackend) (.roundRobin 0)
    visitAndReset _ rfl 0⟩

theorem Task.ownsFlag_hold {t : Task} (h : t.ownsFlag = true) : t.hold = .read := by
  cases t with
  | retryForever pc => cases pc <;> first | rfl | cases h
  | _ => cases h

/-- The tasks of a backend in good order are so among the tasks of the whole proxy. -/
theorem Orderly.covers {q : Pool (Backend K) Task} (h : Orderly q)
    (hc : Covers Task.hold q b ts) :
    (ts.Pairwise fun t u => (t.hold = .write → u.hold = .released) ∧
      (u.hold = .write → t.hold = .released)) ∧
    (b.retrying = true → ∃ u ∈ ts, u.ownsFlag = true) := by
  refine ⟨h.exclusive.covers hc, ?_⟩
  obtain ⟨rfl, idle, hp, hidle⟩ := hc
  intro hf
  obtain ⟨u, hu, ho⟩ := h.owned hf
  obtain hu | hu := List.mem_append.1 (hp.mem_iff.1 hu)
  · exact ⟨u, hu, ho⟩
  · cases (hidle u hu).symm.trans (Task.ownsFlag_hold ho)

/-- In every run of the whole proxy on new backends, a task that holds the lock of a backend for
writing is the only one that holds it, and a flag that is set has a retry task to clear it. -/
theorem proxy_orderly [NatCast K] [LE C] [DecidableLE C] (cfg : Config) (forever : Option Nat)
    (b₀ : Nat → Backend K) (bal : Balancer) (acts : List (ProxyAct C)) (s : Proxy K)
    (hr : run (Proxy.step cfg forever) (.start b₀ bal) acts = some s) (b : Nat)
    (hb : ∃ env now file, Backend.new env now file = .ok (b₀ b)) :
    (∀ (i j : Nat) t u x y, i ≠ j → s.tasks[i]? = some t → s.tasks[j]? = some u →
      x ∈ t.here b → y ∈ u.here b → x.hold = .write → y.hold = .released) ∧
    ((s.backends b).retrying = true →
      ∃ t ∈ s.tasks, ∃ u ∈ t.here b, u.ownsFlag = true) := by
  have h := run_preserves (fun s => ∀ c, Projects forever (b₀ c) (s.backends c) (s.tasksOn c))
    (fun h hs => Proxy.step_projects hs h) (fun c => projects_nil forever (b₀ c)) hr
  obtain ⟨moves, q, hq, hc⟩ := h b
  obtain ⟨env, now, file, hn⟩ := hb
  have hreach : Reachable forever q := ⟨env, now, file, b₀ b, moves, hn, hq⟩
  obtain ⟨hapart, howned⟩ := hreach.orderly.covers hc
  constructor
  · have hpair := (List.pairwise_flatMap.1 hapart).2
    intro i j t u x y hij ht hu hx hy hw
    obtain ⟨hi, rfl⟩ := List.getElem?_eq_some_iff.1 ht
    obtain ⟨hj, rfl⟩ := List.getElem?_eq_some_iff.1 hu
    rw [List.pairwise_iff_getElem] at hpair
    obtain hlt | hlt := Nat.lt_or_gt_of_ne hij
    · exact (hpair i j hi hj hlt x hx y hy).1 hw
    · exact (hpair j i hj hi hlt y hy x hx).2 hw
  · intro hf
    obtain ⟨u, hu, ho⟩ := howned hf
    obtain ⟨t, ht, hu⟩ := List.mem_flatMap.1 hu
    exact ⟨t, ht, u, hu, ho⟩

/-- The request has the lock for writing, and the connection waits for it. -/
theorem visitAndReset_orderly : ∃ s : Proxy ℚ,
    run (Proxy.step threeBackends none) (.start (fun _ => plainBackend) (.roundRobin 0))
      visitAndReset = some s ∧
    s.tasks[1]? = some (.onBackend 0 (.resetBackend .renewing)) ∧
    (∀ (i j : Nat) t u x y, i ≠ j → s.tasks[i]? = some t → s.tasks[j]? = some u →
      x ∈ t.here 0 → y ∈ u.here 0 → x.hold = .write → y.hold = .released) ∧
    ((s.backends 0).retrying = true → ∃ t ∈ s.tasks, ∃ u ∈ t.here 0, u.ownsFlag = true) :=
  ⟨_, rfl, rfl, proxy_orderly threeBackends none (fun _ => plainBackend) (.roundRobin 0)
    visitAndReset _ rfl 0 ⟨workingTls, 0, plainConfig, rfl⟩⟩

end Octoproxy
