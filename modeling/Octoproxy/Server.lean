import Octoproxy.TaskPool

namespace Octoproxy
open TaskPool Transition
set_option autoImplicit true

/-- Where the loop of `run_h2` stands. It returns when the listener fails. -/
inductive ListenerPc where
  | accepting
  | acquiring (inbound : Nat)
  | returned
deriving DecidableEq

/-- Where `handle_h2_connection` stands: before the TLS handshake has ended, after it, and at its
two ends. -/
inductive H2HandlerPc where
  | handshaking
  | serving
  | refused
  | closed
deriving DecidableEq

structure H2Handler where
  inbound : Nat
  pc : H2HandlerPc
deriving DecidableEq

/-- What a handler meets: the end of the handshake, a request on the connection, and the end of
the connection. -/
inductive H2Event where
  | handshake (ok : Bool)
  | request (isConnect : Bool)
  | close

/-- The HTTP/2 side of the server. `backlog` are the connections that wait to be accepted, in the
order of their arrival, and `tunnels` has the handler of every tunnel that was spawned. -/
structure Server where
  permits : Nat
  listener : ListenerPc
  backlog : List Nat
  handlers : List H2Handler
  tunnels : List Nat

inductive ServerAct where
  | arrive (inbound : Nat)
  | accept
  | acceptFails
  | acquire
  | handle (i : Nat) (e : H2Event)

/-- The next place of a handler, and whether it spawns a tunnel there. -/
def H2HandlerPc.next : H2HandlerPc → H2Event → Option (H2HandlerPc × Bool)
  | .handshaking, .handshake true => some (.serving, false)
  | .handshaking, .handshake false => some (.refused, false)
  | .serving, .request isConnect => some (.serving, isConnect)
  | .serving, .close => some (.closed, false)
  | _, _ => none

def H2HandlerPc.permits : H2HandlerPc → Nat
  | .handshaking | .serving => 1
  | .refused | .closed => 0

def ListenerPc.held : ListenerPc → List Nat
  | .acquiring inbound => [inbound]
  | .accepting | .returned => []

namespace Server

def new (maxConcurrentTasks : Nat) : Server := ⟨maxConcurrentTasks, .accepting, [], [], []⟩

def step (s : Server) : ServerAct → Option Server
  | .arrive inbound => some { s with backlog := s.backlog ++ [inbound] }
  | .accept => match s.listener, s.backlog with
    | .accepting, inbound :: backlog =>
      some { s with listener := .acquiring inbound, backlog := backlog }
    | _, _ => none
  | .acceptFails => match s.listener with
    | .accepting => some { s with listener := .returned }
    | _ => none
  | .acquire => match s.listener, s.permits with
    | .acquiring inbound, permits + 1 => some { s with
        listener := .accepting
        permits := permits
        handlers := s.handlers ++ [⟨inbound, .handshaking⟩] }
    | _, _ => none
  | .handle i e => match s.handlers[i]? with
    | none => none
    | some h => (h.pc.next e).map fun (pc, spawns) => { s with
        -- the permit is dropped at the end of the handler's task
        permits := s.permits + (1 - pc.permits)
        handlers := s.handlers.set i ⟨h.inbound, pc⟩
        tunnels := s.tunnels ++ if spawns then [i] else [] }

def started (s : Server) : List Nat := s.handlers.map H2Handler.inbound

def running (s : Server) : Nat := total (fun h => h.pc.permits) s.handlers

end Server

def arrivals (acts : List ServerAct) : List Nat :=
  acts.filterMap fun a => match a with
    | .arrive inbound => some inbound
    | _ => none

/-- Nothing arrives, the listener does not fail and every handshake succeeds. -/
def Calm (_ : Server) : ServerAct → Prop
  | .arrive _ | .acceptFails | .handle _ (.handshake false) => False
  | _ => True

/-- Every permit is at hand or with a handler, every connection is in one place and in the order
of arrival, and tunnels belong to connections that have passed the handshake. -/
structure Server.Admits (n : Nat) (arrived : List Nat) (s : Server) : Prop where
  permits : s.permits + s.running = n
  order : s.started ++ s.listener.held ++ s.backlog = arrived
  tunnels : ∀ i ∈ s.tunnels, ∃ h, s.handlers[i]? = some h ∧ (h.pc = .serving ∨ h.pc = .closed)

section
variable {s s' : Server}

theorem Server.new_admits (n : Nat) : (Server.new n).Admits n [] :=
  ⟨rfl, rfl, nofun⟩

theorem Server.step_handle (h : s.step (.handle i e) = some s') :
    ∃ u pc spawns, s.handlers[i]? = some u ∧ u.pc.next e = some (pc, spawns) ∧
      s' = { s with
        permits := s.permits + (1 - pc.permits)
        handlers := s.handlers.set i ⟨u.inbound, pc⟩
        tunnels := s.tunnels ++ if spawns then [i] else [] } := by
  simp only [Server.step] at h
  split at h
  · cases h
  · rename_i u hu
    obtain ⟨⟨pc, spawns⟩, hn, rfl⟩ := Option.map_eq_some_iff.1 h
    exact ⟨u, pc, spawns, hu, hn, rfl⟩

theorem Server.step_accept (h : s.step .accept = some s') :
    ∃ inbound backlog, s.listener = .accepting ∧ s.backlog = inbound :: backlog ∧
      s' = { s with listener := .acquiring inbound, backlog := backlog } := by
  simp only [Server.step] at h
  split at h
  · rename_i hl hb
    cases h
    exact ⟨_, _, hl, hb, rfl⟩
  · cases h

theorem Server.step_acquire (h : s.step .acquire = some s') :
    ∃ inbound permits, s.listener = .acquiring inbound ∧ s.permits = permits + 1 ∧
      s' = { s with
        listener := .accepting
        permits := permits
        handlers := s.handlers ++ [⟨inbound, .handshaking⟩] } := by
  simp only [Server.step] at h
  split at h
  · rename_i hl hp
    cases h
    exact ⟨_, _, hl, hp, rfl⟩
  · cases h

theorem Server.step_acceptFails (h : s.step .acceptFails = some s') :
    s.listener = .accepting ∧ s' = { s with listener := .returned } := by
  simp only [Server.step] at h
  split at h
  · rename_i hl
    cases h
    exact ⟨hl, rfl⟩
  · cases h

theorem H2HandlerPc.next_permits {pc pc' : H2HandlerPc} (h : pc.next e = some (pc', spawns)) :
    pc.permits = 1 ∧ pc'.permits ≤ 1 := by
  unfold H2HandlerPc.next at h
  split at h <;> cases h <;> exact ⟨rfl, by decide⟩

theorem H2HandlerPc.next_served {pc pc' : H2HandlerPc} (h : pc.next e = some (pc', spawns))
    (hs : pc = .serving ∨ pc = .closed ∨ spawns = true) : pc' = .serving ∨ pc' = .closed := by
  unfold H2HandlerPc.next at h
  split at h <;> cases h <;> simp at hs ⊢

theorem arrivals_concat (acts : List ServerAct) (a : ServerAct) :
    arrivals (acts ++ [a]) = arrivals acts ++ arrivals [a] := by
  unfold arrivals
  exact List.filterMap_append

theorem Server.Admits.handle (h : s.Admits n arrived) (hs : s.step (.handle i e) = some s') :
    s'.Admits n arrived := by
  obtain ⟨u, pc, spawns, hu, hn, rfl⟩ := Server.step_handle hs
  obtain ⟨hone, hle⟩ := H2HandlerPc.next_permits hn
  refine ⟨?_, ?_, ?_⟩
  · have htotal := total_set (fun h => h.pc.permits) hu ⟨u.inbound, pc⟩
    have hp := h.permits
    simp only [Server.running] at hp ⊢
    dsimp only at htotal
    omega
  · have hmap : (s.handlers.set i ⟨u.inbound, pc⟩).map H2Handler.inbound =
        s.handlers.map H2Handler.inbound := map_set_same hu rfl
    have ho := h.order
    simp only [Server.started] at ho ⊢
    rw [hmap]
    exact ho
  · intro j hj
    have hset : (s.handlers.set i ⟨u.inbound, pc⟩)[i]? = some ⟨u.inbound, pc⟩ :=
      List.getElem?_set_self (List.getElem?_eq_some_iff.1 hu).1
    obtain hj | hj := List.mem_append.1 hj
    · obtain ⟨v, hv, hpc⟩ := h.tunnels j hj
      by_cases hij : i = j
      · subst hij
        cases hu.symm.trans hv
        refine ⟨_, hset, H2HandlerPc.next_served hn ?_⟩
        exact hpc.elim .inl fun hc => .inr (.inl hc)
      · exact ⟨v, (List.getElem?_set_ne hij).trans hv, hpc⟩
    · cases spawns with
      | false => cases hj
      | true =>
        obtain rfl := List.mem_singleton.1 hj
        exact ⟨_, hset, H2HandlerPc.next_served hn (.inr (.inr rfl))⟩

theorem Server.Admits.acquire (h : s.Admits n arrived) (hs : s.step .acquire = some s') :
    s'.Admits n arrived := by
  obtain ⟨inbound, permits, hl, hp, rfl⟩ := Server.step_acquire hs
  refine ⟨?_, ?_, ?_⟩
  · have hsum := h.permits
    simp only [Server.running, total_append, total, H2HandlerPc.permits] at hsum ⊢
    omega
  · have ho := h.order
    simp only [Server.started, hl, ListenerPc.held, List.map_append, List.append_nil] at ho ⊢
    exact ho
  · intro j hj
    obtain ⟨v, hv, hpc⟩ := h.tunnels j hj
    exact ⟨v, List.getElem?_append_left (List.getElem?_eq_some_iff.1 hv).1 ▸ hv, hpc⟩

theorem Server.Admits.step (h : s.Admits n arrived) (hs : s.step a = some s') :
    s'.Admits n (arrived ++ arrivals [a]) := by
  cases a with
  | arrive inbound =>
    cases hs
    refine { h with order := ?_ }
    have ho : s.started ++ s.listener.held ++ s.backlog = arrived := h.order
    rw [← ho, List.append_assoc _ s.backlog]
    rfl
  | accept =>
    obtain ⟨inbound, backlog, hl, hb, rfl⟩ := Server.step_accept hs
    rw [show arrivals [.accept] = [] from rfl, List.append_nil]
    refine { h with order := ?_ }
    have ho := h.order
    rw [hl, hb, ListenerPc.held, List.append_nil] at ho
    rw [← ho, ListenerPc.held, List.append_assoc]
    rfl
  | acceptFails =>
    obtain ⟨hl, rfl⟩ := Server.step_acceptFails hs
    rw [show arrivals [.acceptFails] = [] from rfl, List.append_nil]
    refine { h with order := ?_ }
    have ho := h.order
    rw [hl] at ho
    exact ho
  | acquire =>
    rw [show arrivals [.acquire] = [] from rfl, List.append_nil]
    exact h.acquire hs
  | handle i e =>
    rw [show arrivals [.handle i e] = [] from rfl, List.append_nil]
    exact h.handle hs

theorem Server.run_admits (h : run Server.step (.new n) acts = some s) :
    s.Admits n (arrivals acts) := by
  apply run_history (fun acts s => s.Admits n (arrivals acts)) (Server.new_admits n) _ h
  intro acts u v a _ hu hs
  rw [arrivals_concat]
  exact hu.step hs

def H2HandlerPc.rank : H2HandlerPc → Nat
  | .handshaking => 2
  | .serving => 1
  | .refused | .closed => 0

/-- How much the server has to do until everyone who has arrived has a handler. -/
def Server.toDo (s : Server) : Nat :=
  4 * s.backlog.length + 3 * s.listener.held.length + total (fun h => h.pc.rank) s.handlers

theorem H2HandlerPc.exists_next {pc : H2HandlerPc} (h : 0 < pc.permits) :
    ∃ e pc', pc.next e = some (pc', false) ∧ pc'.rank < pc.rank ∧ e ≠ .handshake false := by
  cases pc with
  | handshaking => exact ⟨.handshake true, .serving, rfl, by decide, nofun⟩
  | serving => exact ⟨.close, .closed, rfl, by decide, nofun⟩
  | refused => cases h
  | closed => cases h

theorem Server.exists_handle (h : 0 < s.running) :
    ∃ i e s', Calm s (.handle i e) ∧ s.step (.handle i e) = some s' ∧ s'.toDo < s.toDo ∧
      s'.listener = s.listener := by
  obtain ⟨i, u, hu, hpos⟩ := exists_of_total_pos h
  obtain ⟨e, pc, hn, hlt, hne⟩ := H2HandlerPc.exists_next hpos
  have hs : s.step (.handle i e) = some { s with
      permits := s.permits + (1 - pc.permits)
      handlers := s.handlers.set i ⟨u.inbound, pc⟩
      tunnels := s.tunnels ++ [] } := by
    simp only [Server.step, hu, hn]
    rfl
  refine ⟨i, e, _, ?_, hs, ?_, rfl⟩
  · cases e with
    | handshake ok =>
      cases ok with
      | false => exact absurd rfl hne
      | true => trivial
    | _ => trivial
  · have htotal := total_set (fun h => h.pc.rank) hu ⟨u.inbound, pc⟩
    simp only [Server.toDo]
    dsimp only at htotal
    omega

theorem arrivals_of_calm (h : Calm s a) : arrivals [a] = [] := by
  cases a with
  | arrive inbound => cases h
  | _ => rfl

/-- As long as someone waits, the server has a calm step to take: the connection is accepted or
gets its permit, or a handler goes on, which then has the permit. -/
theorem Server.Admits.proceeds (h : s.Admits n arrived) (hn : 0 < n)
    (hl : s.listener ≠ .returned) (hwait : s.started ≠ arrived) :
    ∃ a s', Calm s a ∧ s.step a = some s' ∧ (s'.Admits n arrived ∧ s'.listener ≠ .returned) ∧
      s'.toDo < s.toDo := by
  have hkeep : ∀ {a s'}, Calm s a → s.step a = some s' → s'.Admits n arrived := by
    intro a s' hc hs
    have ha := h.step hs
    rwa [arrivals_of_calm hc, List.append_nil] at ha
  cases hlis : s.listener with
  | returned => exact absurd hlis hl
  | accepting =>
    cases hb : s.backlog with
    | nil =>
      have ho := h.order
      rw [hlis, hb] at ho
      simp only [ListenerPc.held, List.append_nil] at ho
      exact absurd ho hwait
    | cons inbound backlog =>
      have hs : s.step .accept =
          some { s with listener := .acquiring inbound, backlog := backlog } := by
        simp only [Server.step, hlis, hb]
      have hc : Calm s .accept := trivial
      have hne : ListenerPc.acquiring inbound ≠ .returned := by simp
      refine ⟨.accept, _, hc, hs, ⟨hkeep hc hs, hne⟩, ?_⟩
      simp only [Server.toDo, hlis, hb, ListenerPc.held, List.length_cons, List.length_nil]
      omega
  | acquiring inbound =>
    cases hp : s.permits with
    | succ permits =>
      have hs : s.step .acquire = some { s with
          listener := .accepting
          permits := permits
          handlers := s.handlers ++ [⟨inbound, .handshaking⟩] } := by
        simp only [Server.step, hlis, hp]
      have hc : Calm s .acquire := trivial
      have hne : ListenerPc.accepting ≠ .returned := by simp
      refine ⟨.acquire, _, hc, hs, ⟨hkeep hc hs, hne⟩, ?_⟩
      simp only [Server.toDo, hlis, ListenerPc.held, List.length_cons, List.length_nil,
        total_append, total, H2HandlerPc.rank]
      omega
    | zero =>
      have hsum := h.permits
      obtain ⟨i, e, s', hc, hs, hlt, heq⟩ := Server.exists_handle (s := s) (by omega)
      have hne : s'.listener ≠ .returned := by
        rw [heq]
        exact hl
      exact ⟨_, s', hc, hs, ⟨hkeep hc hs, hne⟩, hlt⟩

/-- A server that has no permits starts nobody. -/
theorem Server.started_zero (h : run Server.step (.new 0) acts = some s) : s.started = [] := by
  have hall : s.handlers = [] := by
    apply run_history (fun _ s => s.handlers = []) rfl _ h
    intro acts u v a hr hu hs
    have hperm := (run_admits hr).permits
    cases a with
    | acquire =>
      obtain ⟨_, _, _, hp, _⟩ := Server.step_acquire hs
      omega
    | handle i e =>
      obtain ⟨w, _, _, hw, _⟩ := Server.step_handle hs
      rw [hu] at hw
      cases hw
    | arrive inbound =>
      cases hs
      exact hu
    | accept =>
      obtain ⟨_, _, _, _, rfl⟩ := Server.step_accept hs
      exact hu
    | acceptFails =>
      obtain ⟨_, rfl⟩ := Server.step_acceptFails hs
      exact hu
  rw [Server.started, hall]
  rfl

end

/-- In every run at most `n` handlers run at a time, the connections are started in the order of
their arrival, none is lost or started twice, one that has been accepted waits only while `n`
handlers run, and tunnels are spawned only after a successful handshake. While the listener works
everyone who has arrived can still be started, unless there are no permits at all. -/
theorem server_admits (n : Nat) (acts : List ServerAct) (s : Server)
    (hrun : run Server.step (.new n) acts = some s) :
    s.Admits n (arrivals acts) ∧
    (∀ inbound, s.listener = .acquiring inbound → s.step .acquire = none → s.running = n) ∧
    (n = 0 → s.started = []) ∧
    (0 < n → s.listener ≠ .returned → ∃ more t, run Server.step s more = some t ∧
      AllSteps Server.step Calm s more ∧ t.started = arrivals acts) := by
  have h := Server.run_admits hrun
  refine ⟨h, ?_, ?_, ?_⟩
  · intro inbound hl hs
    have hsum := h.permits
    simp only [Server.step, hl] at hs
    cases hp : s.permits with
    | zero => omega
    | succ permits =>
      rw [hp] at hs
      cases hs
  · rintro rfl
    exact Server.started_zero hrun
  · intro hn hl
    exact exists_run_of_measure (P := Calm)
      (fun t => t.Admits n (arrivals acts) ∧ t.listener ≠ .returned)
      (fun t => t.started = arrivals acts) Server.toDo
      (fun hi hd => hi.1.proceeds hn hi.2 hd) ⟨h, hl⟩

/-- One permit and two connections: the second waits for the end of the first, which has spawned
a tunnel. -/
def crowdedActs : List ServerAct :=
  [.arrive 7, .arrive 8, .accept, .acquire, .accept, .handle 0 (.handshake true),
    .handle 0 (.request true)]

theorem crowdedActs_admits : ∃ s, run Server.step (.new 1) crowdedActs = some s ∧
    s.started = [7] ∧ s.listener = .acquiring 8 ∧ s.running = 1 ∧ s.tunnels = [0] ∧
    ∃ more t, run Server.step s more = some t ∧ t.started = [7, 8] := by
  obtain ⟨_, hfull, _, hmore⟩ := server_admits 1 crowdedActs _ rfl
  refine ⟨_, rfl, rfl, rfl, hfull 8 rfl rfl, rfl, ?_⟩
  obtain ⟨more, t, hr, _, ht⟩ := hmore (by decide) nofun
  exact ⟨more, t, hr, ht⟩

end Octoproxy
