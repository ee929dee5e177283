import Octoproxy.Client
import Octoproxy.Cover
import Octoproxy.Separation

namespace Octoproxy
open TaskPool Transition
set_option autoImplicit true

/-- A task of a backend, the head that its stream begins with, and the call that it is in, with
the build of the client that it calls. -/
structure Caller (SR : Type) where
  task : Task
  host : Option ConnectHeadBuf
  call : Option (Nat × ClientTask SR)

/-- A backend, what is behind the mutex of each client that it builds, its tasks, and the
connection tasks that run, each with the build of its client. -/
structure Calling (K SR : Type) where
  backend : Backend K
  clients : Nat → Client SR
  callers : List (Caller SR)
  connections : List (Nat × Nat)

/-- What a task meets outside its calls and at the end of one, and what a call meets. -/
inductive CallOutcome (SR : Type) where
  | task (o : Outcome)
  | call (o : ClientOutcome SR)

inductive CallingAct (SR : Type) where
  | enter (r : Request) (head : ConnectHeadBuf)
  | run (i : Nat) (o : CallOutcome SR)
  | finish (k : Nat)

def Request.host (head : ConnectHeadBuf) : Request → Option ConnectHeadBuf
  | .connect _ => some head
  | _ => none

/-- The call that a task makes where it stands. -/
def Task.request (host : Option ConnectHeadBuf) : Task → Option ClientRequest
  | .handleConnection _ (.attempting _) => some (.newStreamFut host)
  | .retryForever (.resetting _) => some .resetClient
  | .retryForever (.attempting _ _) => some (.newStreamFut none)
  | .resetBackend .resetting => some .resetClient
  | .switchBackendProtocol _ .installed => some .resetClient
  | _ => none

/-- How the task may go on from its call. A call that waits is dropped when the attempt is
cancelled, and a stream that has been created is answered or dropped. -/
def ClientTask.ends : ClientTask SR → Outcome → Bool
  | .newStreamFut _ .locking, .cancelled => true
  | .newStreamFut _ .connecting, .cancelled => true
  | .streamed _ _ _, _ => true
  | .failed _, .err => true
  | .finished, _ => true
  | _, _ => false

/-- The connection task that a call leaves behind. -/
def ClientTask.running (build : Nat) : ClientTask SR → Option (Nat × Nat)
  | .connection conn => some (build, conn)
  | _ => none

namespace Caller

def arrived (b : Backend K) (host : Option ConnectHeadBuf) (t : Task) : Caller SR :=
  ⟨t, host, (t.request host).map fun r => (b.client.build, r.task)⟩

def spawned (t : Task) : Caller SR := ⟨t, none, none⟩

def mayGoOn (c : Caller SR) (o : Outcome) : Bool := c.call.all fun call => call.2.ends o

def here (build : Nat) (c : Caller SR) : List (ClientTask SR) :=
  match c.call with
  | some (b, t) => if b = build then [t] else []
  | none => []

end Caller

namespace Calling
variable (s : Calling K SR)

def start (b : Backend K) : Calling K SR := ⟨b, fun _ => .new, [], []⟩

def pool : Pool (Backend K) Task := ⟨s.backend, s.callers.map Caller.task⟩

def connectionsOn (build : Nat) : List (ClientTask SR) :=
  s.connections.flatMap fun x => if x.1 = build then [.connection x.2] else []

def callsOn (build : Nat) : List (ClientTask SR) :=
  s.callers.flatMap (Caller.here build) ++ s.connectionsOn build

def free (build : Nat) : Bool := (s.callsOn build).all fun t => t.hold == .released

def afterTask (i : Nat) (host : Option ConnectHeadBuf) (m : Move (Backend K) Task) :
    Calling K SR :=
  { s with
    backend := m.state
    callers := s.callers.set i (.arrived m.state host m.task) ++ m.spawned.map Caller.spawned }

def afterCall (i : Nat) (c : Caller SR) (build : Nat) (m : Move (Client SR) (ClientTask SR)) :
    Calling K SR :=
  { s with
    clients := Function.update s.clients build m.state
    callers := s.callers.set i { c with call := some (build, m.task) }
    connections := s.connections ++ m.spawned.filterMap (ClientTask.running build) }

def afterFinish (k build conn : Nat) : Calling K SR :=
  { s with
    clients := Function.update s.clients build ((s.clients build).finish conn)
    connections := s.connections.eraseIdx k }

def runTask (forever : Option Nat) (i : Nat) (c : Caller SR) (o : Outcome) :
    Option (Calling K SR) :=
  if c.mayGoOn o then
    (c.task.move forever s.backend ((backendTasks K forever).readable s.pool)
      ((backendTasks K forever).writable s.pool) o).map (s.afterTask i c.host)
  else none

/-- Only the task can drop its call. -/
def runCall (i : Nat) (c : Caller SR) : ClientOutcome SR → Option (Calling K SR)
  | .dropped => none
  | o => c.call.bind fun call =>
    (call.2.move (s.clients call.1) true (s.free call.1) o).map (s.afterCall i c call.1)

/-- A request comes in, a task or its call takes a step, or a connection ends. -/
def step (forever : Option Nat) (s : Calling K SR) : CallingAct SR → Option (Calling K SR)
  | .enter r head => some { s with callers := s.callers ++ [⟨r.task, r.host head, none⟩] }
  | .run i (.task o) => s.callers[i]?.bind fun c => s.runTask forever i c o
  | .run i (.call o) => s.callers[i]?.bind fun c => s.runCall i c o
  | .finish k => s.connections[k]?.map fun x => s.afterFinish k x.1 x.2

end Calling

section
variable {s s' : Calling K SR}

theorem Calling.step_task (h : s.step forever (.run i (.task o)) = some s') :
    ∃ c m, s.callers[i]? = some c ∧ c.mayGoOn o = true ∧
      c.task.move forever s.backend ((backendTasks K forever).readable s.pool)
        ((backendTasks K forever).writable s.pool) o = some m ∧ s' = s.afterTask i c.host m := by
  obtain ⟨c, hc, h⟩ := Option.bind_eq_some_iff.1 h
  unfold runTask at h
  split at h
  · rename_i hgo
    obtain ⟨m, hm, rfl⟩ := Option.map_eq_some_iff.1 h
    exact ⟨c, m, hc, hgo, hm, rfl⟩
  · cases h

theorem Calling.step_call (h : s.step forever (.run i (.call o)) = some s') :
    ∃ c build t m, s.callers[i]? = some c ∧ c.call = some (build, t) ∧ o ≠ .dropped ∧
      t.move (s.clients build) true (s.free build) o = some m ∧
      s' = s.afterCall i c build m := by
  obtain ⟨c, hc, h⟩ := Option.bind_eq_some_iff.1 h
  have hgo : ∀ {o : ClientOutcome SR}, o ≠ .dropped → s.runCall i c o = some s' →
      ∃ build t m, c.call = some (build, t) ∧
        t.move (s.clients build) true (s.free build) o = some m ∧
        s' = s.afterCall i c build m := by
    intro o ho h
    cases o with
    | dropped => exact absurd rfl ho
    | _ =>
      obtain ⟨⟨build, t⟩, hcall, h⟩ := Option.bind_eq_some_iff.1 h
      obtain ⟨m, hm, rfl⟩ := Option.map_eq_some_iff.1 h
      exact ⟨build, t, m, hcall, hm, rfl⟩
  have ho : o ≠ .dropped := by
    rintro rfl
    cases h
  obtain ⟨build, t, m, hcall, hm, hs⟩ := hgo ho h
  exact ⟨c, build, t, m, hc, hcall, ho, hm, hs⟩

theorem Calling.step_finish (h : s.step forever (.finish k) = some s') :
    ∃ build conn, s.connections[k]? = some (build, conn) ∧ s' = s.afterFinish k build conn := by
  obtain ⟨⟨build, conn⟩, hk, rfl⟩ := Option.map_eq_some_iff.1 h
  exact ⟨build, conn, hk, rfl⟩

theorem Calling.afterTask_pool (s : Calling K SR) (i : Nat) (host : Option ConnectHeadBuf)
    (m : Move (Backend K) Task) : (s.afterTask i host m).pool = s.pool.advance i m := by
  have hspawned : (m.spawned.map (@Caller.spawned SR)).map Caller.task = m.spawned := by
    rw [List.map_map]
    exact List.map_id m.spawned
  simp only [pool, afterTask, Pool.advance, List.map_append, List.map_set, hspawned]
  rfl

theorem Calling.afterCall_pool (hc : s.callers[i]? = some c) (build : Nat)
    (m : Move (Client SR) (ClientTask SR)) : (s.afterCall i c build m).pool = s.pool :=
  congrArg (Pool.mk s.backend) (map_set_same hc rfl)

/-- What the calls do is no step of the tasks, and everything else is one. -/
theorem Calling.step_pool (h : s.step forever a = some s') :
    s'.pool = s.pool ∨ ∃ b, (backendTasks K forever).step s.pool b = some s'.pool := by
  cases a with
  | enter r head =>
    cases h
    refine .inr ⟨.enter r, congrArg some ?_⟩
    simp only [pool, List.map_append]
    rfl
  | run i o =>
    cases o with
    | task o =>
      obtain ⟨c, m, hc, _, hm, rfl⟩ := step_task h
      rw [afterTask_pool]
      have ht : s.pool.tasks[i]? = some c.task := by
        rw [pool, List.getElem?_map, hc]
        rfl
      exact .inr ⟨.run i o, Program.step_of_move ht hm⟩
    | call o =>
      obtain ⟨c, build, t, m, hc, _, _, _, rfl⟩ := step_call h
      exact .inl (afterCall_pool hc build m)
  | finish k =>
    obtain ⟨build, conn, _, rfl⟩ := step_finish h
    exact .inl rfl

theorem Calling.run_pool (h : run (Calling.step forever) s acts = some s') :
    ∃ moves, run (backendTasks K forever).step s.pool moves = some s'.pool := by
  induction acts generalizing s with
  | nil =>
    cases h
    exact ⟨[], rfl⟩
  | cons a acts ih =>
    obtain ⟨s₁, hs, hr⟩ := run_cons.1 h
    obtain ⟨moves, hm⟩ := ih hr
    obtain hp | ⟨b, hb⟩ := step_pool hs
    · exact ⟨moves, hp ▸ hm⟩
    · exact ⟨b :: moves, run_cons.2 ⟨_, hb, hm⟩⟩

end

/-- A run of the calls on one client, from when it is built, leads to that state of it, with those
calls and some that do not hold its mutex. -/
def ClientBrings (cl : Client SR) (ts : List (ClientTask SR)) : Prop :=
  (clientTasks SR).Brings ⟨Client.new, []⟩ cl ts

section
variable {s s' : Calling K SR} {cl : Client SR} {ts : List (ClientTask SR)} {t : ClientTask SR}

theorem ClientTask.move_readable (cl : Client SR) (r r' free : Bool) (t : ClientTask SR)
    (o : ClientOutcome SR) : t.move cl r free o = t.move cl r' free o := by
  cases t <;> rfl

theorem ClientBrings.move (h : ClientBrings cl (t :: ts))
    (hm : t.move cl true ((t :: ts).all fun u => u.hold == .released) o = some m) :
    ClientBrings m.state (m.task :: (m.spawned ++ ts)) := by
  rw [ClientTask.move_readable cl true ((t :: ts).all fun u => u.hold != .write)] at hm
  exact Program.Brings.move h hm

theorem ClientBrings.ends (h : ClientBrings cl (t :: ts)) (ht : t.ends o = true) :
    ClientBrings cl ts := by
  cases t with
  | newStreamFut host pc =>
    cases pc with
    | locking => exact Program.Brings.drop h rfl
    | connecting => exact Program.Brings.drop (h.move (o := .dropped) rfl) rfl
    | _ => cases o <;> cases ht
  | resetClient pc => cases o <;> cases ht
  | connection conn => cases o <;> cases ht
  | _ => exact Program.Brings.drop h rfl

theorem ClientBrings.finish (h : ClientBrings cl (.connection conn :: ts)) :
    ClientBrings (cl.finish conn) ts :=
  Program.Brings.drop (h.move (o := .dropped) rfl) rfl

theorem ClientBrings.arrive (h : ClientBrings cl ts) (b : Backend K)
    (host : Option ConnectHeadBuf) (u : Task) (build : Nat) :
    ClientBrings cl ((Caller.arrived b host u).here build ++ ts) := by
  unfold Caller.here Caller.arrived
  cases u.request host with
  | none => exact h
  | some r =>
    by_cases hb : b.client.build = build
    · simp only [Option.map_some, if_pos hb]
      exact Program.Brings.enter h r
    · simp only [Option.map_some, if_neg hb]
      exact h

/-- The calls and connections on a client besides the call of task `i`. -/
def Calling.othersOn (s : Calling K SR) (i build : Nat) : List (ClientTask SR) :=
  (s.callers.eraseIdx i).flatMap (Caller.here build) ++ s.connectionsOn build

theorem Calling.callsOn_perm (hc : s.callers[i]? = some c) (build : Nat) :
    (s.callsOn build).Perm (c.here build ++ s.othersOn i build) := by
  have hp := (perm_of_getElem? hc).flatMap_right (Caller.here build)
  rw [List.flatMap_cons] at hp
  rw [callsOn, othersOn, ← List.append_assoc]
  exact hp.append_right _

theorem spawned_here (ts : List Task) (build : Nat) :
    (ts.map (@Caller.spawned SR)).flatMap (Caller.here build) = [] := by
  induction ts with
  | nil => rfl
  | cons t ts ih =>
    rw [List.map_cons, List.flatMap_cons, ih]
    rfl

theorem Calling.callsOn_afterTask (hc : s.callers[i]? = some c) (host : Option ConnectHeadBuf)
    (m : Move (Backend K) Task) (build : Nat) :
    ((s.afterTask i host m).callsOn build).Perm
      ((Caller.arrived m.state host m.task).here build ++ s.othersOn i build) := by
  have hp := (set_append_perm hc (.arrived m.state host m.task)
    (m.spawned.map Caller.spawned)).flatMap_right (Caller.here build)
  have hnew : (m.spawned.map (@Caller.spawned SR)).flatMap (Caller.here build) = [] :=
    spawned_here m.spawned build
  rw [List.flatMap_cons] at hp
  simp only [List.flatMap_append, hnew, List.nil_append, List.append_nil] at hp
  have hall := hp.append_right (s.connectionsOn build)
  rw [List.append_assoc] at hall
  have hcallers : (s.afterTask i host m).callers.flatMap (Caller.here build) =
      (s.callers.set i (.arrived m.state host m.task)).flatMap (Caller.here build) := by
    simp only [afterTask, List.flatMap_append, hnew, List.append_nil]
  rw [callsOn, hcallers]
  exact hall

theorem running_self (h : ∀ u ∈ ts, ∃ conn, u = .connection conn) (build : Nat) :
    ((ts.filterMap (ClientTask.running build)).flatMap fun x =>
      if x.1 = build then [.connection x.2] else []) = ts := by
  induction ts with
  | nil => rfl
  | cons u ts ih =>
    obtain ⟨conn, rfl⟩ := h u List.mem_cons_self
    have htail := ih fun v hv => h v (List.mem_cons_of_mem _ hv)
    have hhead : ClientTask.running build (.connection conn : ClientTask SR) =
        some (build, conn) := rfl
    rw [List.filterMap_cons_some hhead, List.flatMap_cons, htail, if_pos rfl]
    rfl

theorem running_ne (h : b ≠ build) (ts : List (ClientTask SR)) :
    ((ts.filterMap (ClientTask.running b)).flatMap fun x =>
      if x.1 = build then [(.connection x.2 : ClientTask SR)] else []) = [] := by
  rw [List.flatMap_eq_nil_iff]
  intro x hx
  obtain ⟨u, _, hu⟩ := List.mem_filterMap.1 hx
  cases u with
  | connection conn =>
    cases hu
    exact if_neg h
  | _ => cases hu

theorem Calling.callsOn_afterCall (hc : s.callers[i]? = some c) (build : Nat)
    (m : Move (Client SR) (ClientTask SR)) (hsp : ∀ u ∈ m.spawned, ∃ conn, u = .connection conn) :
    ((s.afterCall i c build m).callsOn build).Perm
      (m.task :: (m.spawned ++ s.othersOn i build)) := by
  have hp := (set_append_perm hc { c with call := some (build, m.task) } []).flatMap_right
    (Caller.here build)
  have hself : Caller.here build { c with call := some (build, m.task) } = [m.task] := if_pos rfl
  rw [List.flatMap_cons, List.append_nil, List.nil_append, hself] at hp
  have hconns : (s.afterCall i c build m).connectionsOn build =
      s.connectionsOn build ++ m.spawned := by
    simp only [connectionsOn, afterCall, List.flatMap_append, running_self hsp]
  rw [callsOn, hconns]
  apply (hp.append_right _).trans
  rw [List.singleton_append, List.cons_append, othersOn, ← List.append_assoc]
  exact List.perm_append_comm.cons m.task

theorem Calling.callsOn_afterCall_ne (hc : s.callers[i]? = some c) (hcall : c.call = some (b, t))
    (hb : b ≠ build) (m : Move (Client SR) (ClientTask SR)) :
    ((s.afterCall i c b m).callsOn build).Perm (s.callsOn build) := by
  have hp := (set_append_perm hc { c with call := some (b, m.task) } []).flatMap_right
    (Caller.here build)
  have hnew : Caller.here build { c with call := some (b, m.task) } = [] := if_neg hb
  have hold : c.here build = [] := by
    rw [Caller.here, hcall]
    exact if_neg hb
  rw [List.flatMap_cons, List.append_nil, List.nil_append, hnew, List.nil_append] at hp
  have hconns : (s.afterCall i c b m).connectionsOn build = s.connectionsOn build := by
    simp only [connectionsOn, afterCall, List.flatMap_append, running_ne hb, List.append_nil]
  have hself := callsOn_perm hc build
  rw [hold, List.nil_append] at hself
  rw [callsOn, hconns]
  exact (hp.append_right _).trans hself.symm

theorem Calling.clients_afterTask (h : ClientBrings (s.clients build) (s.callsOn build))
    (hc : s.callers[i]? = some c) (hgo : c.mayGoOn o = true) (m : Move (Backend K) Task) :
    ClientBrings (s.clients build) ((s.afterTask i c.host m).callsOn build) := by
  refine Program.Brings.perm ?_ (callsOn_afterTask hc c.host m build).symm
  apply ClientBrings.arrive
  have hp := Program.Brings.perm h (callsOn_perm hc build)
  cases hcall : c.call with
  | none =>
    rw [Caller.here, hcall] at hp
    exact hp
  | some call =>
    obtain ⟨b, t⟩ := call
    rw [Caller.mayGoOn, hcall] at hgo
    rw [Caller.here, hcall] at hp
    by_cases hb : b = build
    · simp only [if_pos hb] at hp
      exact ClientBrings.ends hp hgo
    · simp only [if_neg hb] at hp
      exact hp

theorem Calling.clients_afterCall (h : ∀ build, ClientBrings (s.clients build) (s.callsOn build))
    (hc : s.callers[i]? = some c) (hcall : c.call = some (b, t))
    (hm : t.move (s.clients b) true (s.free b) o = some m) (build : Nat) :
    ClientBrings ((s.afterCall i c b m).clients build) ((s.afterCall i c b m).callsOn build) := by
  by_cases hb : b = build
  · subst hb
    have hself : c.here b = [t] := by
      rw [Caller.here, hcall]
      exact if_pos rfl
    have hperm := callsOn_perm hc b
    rw [hself] at hperm
    rw [free, hperm.all_eq] at hm
    have hsp : ∀ u ∈ m.spawned, ∃ conn, u = .connection conn := by
      intro u hu
      have hmove : (clientTasks SR).move (s.clients b) true _ t o = some m := hm
      exact (ClientTask.move_step hmove).spawned hu
    have hnew : (s.afterCall i c b m).clients b = m.state := Function.update_self ..
    rw [hnew]
    exact Program.Brings.perm (ClientBrings.move (Program.Brings.perm (h b) hperm) hm)
      (callsOn_afterCall hc b m hsp).symm
  · have hsame : (s.afterCall i c b m).clients build = s.clients build :=
      Function.update_of_ne (Ne.symm hb) ..
    rw [hsame]
    exact Program.Brings.perm (h build) (callsOn_afterCall_ne hc hcall hb m).symm

theorem Calling.clients_afterFinish (h : ClientBrings (s.clients build) (s.callsOn build))
    (hk : s.connections[k]? = some (b, conn)) :
    ClientBrings ((s.afterFinish k b conn).clients build)
      ((s.afterFinish k b conn).callsOn build) := by
  have hp := (perm_of_getElem? hk).flatMap_right
    fun x => if x.1 = build then [(.connection x.2 : ClientTask SR)] else []
  rw [List.flatMap_cons] at hp
  have hall := hp.append_left (s.callers.flatMap (Caller.here build))
  have hbrings := Program.Brings.perm h hall
  by_cases hb : b = build
  · subst hb
    rw [if_pos rfl] at hbrings
    have hnew : (s.afterFinish k b conn).clients b = (s.clients b).finish conn :=
      Function.update_self ..
    rw [hnew]
    exact ClientBrings.finish (Program.Brings.perm hbrings List.perm_middle)
  · rw [if_neg hb] at hbrings
    have hsame : (s.afterFinish k b conn).clients build = s.clients build :=
      Function.update_of_ne (Ne.symm hb) ..
    rw [hsame]
    exact hbrings

/-- Every step is, to every client, a run of the calls on it. -/
theorem Calling.step_clients (hs : s.step forever a = some s')
    (h : ∀ build, ClientBrings (s.clients build) (s.callsOn build)) (build : Nat) :
    ClientBrings (s'.clients build) (s'.callsOn build) := by
  cases a with
  | enter r head =>
    cases hs
    have hnil : Caller.here build (⟨r.task, r.host head, none⟩ : Caller SR) = [] := rfl
    have hcalls : callsOn { s with callers := s.callers ++ [⟨r.task, r.host head, none⟩] } build =
        s.callsOn build := by
      rw [callsOn, List.flatMap_append, List.flatMap_cons, hnil]
      simp only [List.flatMap_nil, List.append_nil]
      rfl
    rw [hcalls]
    exact h build
  | run i o =>
    cases o with
    | task o =>
      obtain ⟨c, m, hc, hgo, _, rfl⟩ := step_task hs
      exact clients_afterTask (h build) hc hgo m
    | call o =>
      obtain ⟨c, b, t, m, hc, hcall, _, hm, rfl⟩ := step_call hs
      exact clients_afterCall h hc hcall hm build
  | finish k =>
    obtain ⟨b, conn, hk, rfl⟩ := step_finish hs
    exact clients_afterFinish (h build) hk

end

def ClientTask.Serves : ClientTask SR → ClientRequest → Prop
  | .newStreamFut host _, .newStreamFut host' => host = host'
  | .streamed _ _ host, .newStreamFut host' => host = host'
  | .failed _, .newStreamFut _ => True
  | .resetClient _, .resetClient => True
  | .finished, .resetClient => True
  | _, _ => False

/-- The task is in the call that it makes where it stands, and calls the backend's client. -/
def Caller.Fits (b : Backend K) (c : Caller SR) : Prop :=
  match c.call with
  | none => c.task.request c.host = none
  | some (build, t) =>
    build = b.client.build ∧ ∃ r, c.task.request c.host = some r ∧ t.Serves r

section
variable {b b' : Backend K} {c : Caller SR}

theorem ClientRequest.serves (r : ClientRequest) : (r.task : ClientTask SR).Serves r := by
  cases r with
  | newStreamFut host => rfl
  | resetClient => trivial

theorem ClientTask.Step.serves {t : ClientTask SR} {cl : Client SR} (h : t.Step cl free o m)
    (ho : o ≠ .dropped) (ht : t.Serves r) : m.task.Serves r := by
  cases h with
  | dropLock => exact absurd rfl ho
  | dropConnect => exact absurd rfl ho
  | dropReset => exact absurd rfl ho
  | finish => cases r <;> cases ht
  | _ =>
    cases r with
    | newStreamFut host => first | exact ht | trivial
    | resetClient => exact ht

theorem Caller.arrived_fits (b : Backend K) (host : Option ConnectHeadBuf) (t : Task) :
    (Caller.arrived b host t : Caller SR).Fits b := by
  unfold Fits arrived
  cases hr : t.request host with
  | none => exact rfl
  | some r => exact ⟨rfl, r, rfl, r.serves⟩

theorem Caller.Fits.congr (h : c.Fits b) (hb : c.call ≠ none → b'.client = b.client) :
    c.Fits b' := by
  unfold Fits at h ⊢
  cases hc : c.call with
  | none =>
    rw [hc] at h
    exact h
  | some call =>
    rw [hc] at h
    refine ⟨?_, h.2⟩
    rw [hb (by rw [hc]; exact nofun)]
    exact h.1

theorem Task.request_of_released {t : Task} (h : t.hold = .released) : t.request host = none := by
  cases t with
  | handleConnection named pc => cases pc <;> first | rfl | cases h
  | retryForever pc => cases pc <;> first | rfl | cases h
  | switchBackendStatus pc => rfl
  | resetBackend pc => cases pc <;> first | rfl | cases h
  | switchBackendProtocol env pc => cases pc <;> first | rfl | cases h
  | finished => rfl

theorem Caller.Fits.hold (h : c.Fits b) (hc : c.call ≠ none) : c.task.hold ≠ .released := by
  unfold Fits at h
  split at h
  · rename_i hn
    exact absurd hn hc
  · obtain ⟨_, r, hr, _⟩ := h
    intro hh
    cases (Task.request_of_released hh).symm.trans hr

theorem Task.Step.keeps_client {t : Task} (h : t.Step forever b readable writable m)
    (ht : t.hold ≠ .write) : m.state.client = b.client := by
  obtain hc | ⟨_, env, he, _⟩ := h.client
  · exact hc
  · cases t with
    | switchBackendProtocol env pc => cases pc <;> first | exact absurd rfl ht | cases he
    | _ => cases he

end

/-- The lock is held by one writer or by readers, the calls are those of the tasks, and each
client is as they can bring it about. -/
structure Calling.Orderly (s : Calling K SR) : Prop where
  exclusive : Exclusive Task.hold s.pool
  fits : ∀ c ∈ s.callers, c.Fits s.backend
  clients : ∀ build, ClientBrings (s.clients build) (s.callsOn build)

section
variable {s s' : Calling K SR}

theorem Calling.task_getElem? {c : Caller SR} {i : Nat} (hc : s.callers[i]? = some c) :
    s.pool.tasks[i]? = some c.task := by
  rw [pool, List.getElem?_map, hc]
  rfl

theorem Calling.start_orderly (b : Backend K) : (start b : Calling K SR).Orderly where
  exclusive := exclusive_nil _ _
  fits := by
    intro c hc
    cases hc
  clients := fun _ => Program.brings_nil (clientTasks SR) Client.new

theorem Calling.fits_afterTask (h : s.Orderly) (hc : s.callers[i]? = some c)
    (hm : c.task.Step forever s.backend readable writable m) :
    ∀ u ∈ (s.afterTask i c.host m).callers, u.Fits m.state := by
  intro u hu
  obtain hu | hu := List.mem_append.1 hu
  · obtain ⟨j, hj⟩ := List.mem_iff_getElem?.1 hu
    by_cases hij : i = j
    · subst hij
      rw [List.getElem?_set_self (List.getElem?_eq_some_iff.1 hc).1] at hj
      cases hj
      exact Caller.arrived_fits m.state c.host m.task
    · rw [List.getElem?_set_ne hij] at hj
      have hfits := h.fits u (List.mem_of_getElem? hj)
      apply hfits.congr
      intro hcall
      apply hm.keeps_client
      intro hw
      exact hij (h.exclusive i j _ _ (task_getElem? hc) (task_getElem? hj) hw (hfits.hold hcall))
  · obtain ⟨t, ht, rfl⟩ := List.mem_map.1 hu
    rw [hm.spawned ht]
    rfl

theorem Calling.fits_afterCall (h : s.Orderly) (hc : s.callers[i]? = some c)
    (hcall : c.call = some (build, t)) (ho : o ≠ .dropped)
    (hm : t.Step (s.clients build) unlocked o m) :
    ∀ u ∈ (s.afterCall i c build m).callers, u.Fits s.backend := by
  intro u hu
  obtain hu | rfl := List.mem_or_eq_of_mem_set hu
  · exact h.fits u hu
  · have hfits := h.fits c (List.mem_of_getElem? hc)
    rw [Caller.Fits, hcall] at hfits
    obtain ⟨hb, r, hr, ht⟩ := hfits
    exact ⟨hb, r, hr, hm.serves ho ht⟩

theorem Calling.Orderly.step (h : s.Orderly) (hs : s.step forever a = some s') : s'.Orderly where
  exclusive := by
    obtain hp | ⟨b, hb⟩ := step_pool hs
    · rw [hp]
      exact h.exclusive
    · exact h.exclusive.step (backendTasks_locks K forever) hb
  fits := by
    cases a with
    | enter r head =>
      cases hs
      intro u hu
      obtain hu | hu := List.mem_append.1 hu
      · exact h.fits u hu
      · rw [List.mem_singleton.1 hu]
        cases r <;> rfl
    | run i o =>
      cases o with
      | task o =>
        obtain ⟨c, m, hc, _, hm, rfl⟩ := step_task hs
        exact fits_afterTask h hc (Task.move_step hm)
      | call o =>
        obtain ⟨c, build, t, m, hc, hcall, ho, hm, rfl⟩ := step_call hs
        have hmove : (clientTasks SR).move (s.clients build) true _ t o = some m := hm
        exact fits_afterCall h hc hcall ho (ClientTask.move_step hmove)
    | finish k =>
      obtain ⟨build, conn, _, rfl⟩ := step_finish hs
      exact h.fits
  clients := step_clients hs h.clients

theorem Calling.run_orderly {b : Backend K}
    (hr : run (Calling.step forever) (.start b) acts = some s) : s.Orderly :=
  run_preserves Orderly (fun h hs => h.step hs) (start_orderly b) hr

end

/-- In every run of a backend's tasks together with their calls, the tasks go through a run of
their own, so do the calls and connections on every client, and whoever is in a call is in the one
that it makes there, on the client of the moment, and holds the backend's lock. -/
theorem calls_in_order (forever : Option Nat) (b : Backend K) (acts : List (CallingAct SR))
    (s : Calling K SR) (hr : run (Calling.step forever) (.start b) acts = some s) :
    (∃ moves, run (backendTasks K forever).step ⟨b, []⟩ moves = some s.pool) ∧
    (∀ build, ∃ moves q, clientAfter moves = some q ∧
      Covers ClientTask.hold q (s.clients build) (s.callsOn build)) ∧
    ∀ c ∈ s.callers, ∀ build t, c.call = some (build, t) →
      build = s.backend.client.build ∧ c.task.hold ≠ .released ∧
      ∃ r, c.task.request c.host = some r ∧ t.Serves r := by
  have ho := Calling.run_orderly hr
  refine ⟨Calling.run_pool hr, ho.clients, ?_⟩
  intro c hc build t hcall
  have hfits := ho.fits c hc
  have hhold := hfits.hold (by rw [hcall]; exact nofun)
  rw [Caller.Fits, hcall] at hfits
  exact ⟨hfits.1, hhold, hfits.2⟩

/-- A connection dials the server, and a reset of the backend waits for the client's mutex. -/
def resetBehindDial : List (CallingAct Nat) :=
  let task (i : Nat) : CallingAct Nat := .run i (.task .ok)
  let call (i : Nat) : CallingAct Nat := .run i (.call (.ok 7))
  [.enter (.connect false) (.fromStr "example.com:80"), task 0, task 0, call 0, call 0,
    .enter .reset (.fromStr ""), task 1, task 1]

theorem resetBehindDial_in_order :
    ∃ s : Calling ℚ Nat, run (Calling.step none) (.start plainBackend) resetBehindDial = some s ∧
      s.free 0 = false ∧
      ∀ c ∈ s.callers, ∀ build t, c.call = some (build, t) →
        build = s.backend.client.build ∧ c.task.hold ≠ .released ∧
        ∃ r, c.task.request c.host = some r ∧ t.Serves r :=
  ⟨_, rfl, rfl, (calls_in_order none plainBackend resetBehindDial _ rfl).2.2⟩

end Octoproxy
