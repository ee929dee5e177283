import Octoproxy.Failover

namespace Octoproxy
open TaskPool Transition
set_option autoImplicit true

/-- What `next_available_backend` may answer a peer, having read these statuses. -/
def Config.Answers (cfg : Config) (peer : PeerInfo) (read : Nat → BackendStatus)
    (answer : AvailableBackend) : Prop :=
  match peer.getBackendNameByRule with
  | .direct => answer = .direct
  | .gotBackend name => answer = cfg.namedBackend read name
  | .noRule => answer = .noBackend ∨
      ∃ b ∈ cfg.backends, read b.backend = .normal ∧ answer = .gotBackend b.backend

section
variable {C : Type} [LE C] [DecidableLE C] {cfg : Config} {c : Call C}

theorem Config.next_of_few (hrule : c.peer.getBackendNameByRule = .noRule)
    (hl : (cfg.availableBackends c.status).length < 2)
    (h : cfg.nextAvailableBackend bal c = .ok (answer, bal')) :
    answer = .noBackend ∨ ∃ b ∈ cfg.availableBackends c.status, answer = .gotBackend b.backend := by
  rw [Config.nextAvailableBackend, hrule] at h
  generalize cfg.availableBackends c.status = l at h hl ⊢
  cases l with
  | nil =>
    cases h
    exact .inl rfl
  | cons b l =>
    cases l with
    | nil =>
      cases h
      exact .inr ⟨b, List.mem_singleton_self b, rfl⟩
    | cons b' l =>
      rw [List.length_cons, List.length_cons] at hl
      omega

theorem Config.next_of_many (hrule : c.peer.getBackendNameByRule = .noRule)
    (hl : 2 ≤ (cfg.availableBackends c.status).length)
    (h : cfg.nextAvailableBackend bal c = .ok (answer, bal')) :
    answer = .noBackend ∨ ∃ b ∈ cfg.availableBackends c.status, answer = .gotBackend b.backend := by
  obtain ⟨r, bal₁, hn, hfit, hunfit⟩ := bal.next_spec c.roll c.cost
    (cfg.availableBackends c.status) c.peer (by omega)
  rw [Config.next_of_two hrule hl, hn] at h
  cases h
  by_cases hf : bal.Fits (cfg.availableBackends c.status).length
  · obtain ⟨b, hb, rfl⟩ := hfit hf
    exact .inr ⟨b, hb, rfl⟩
  · rw [hunfit hf]
    exact .inl rfl

theorem Config.next_answers (h : cfg.nextAvailableBackend bal c = .ok (answer, bal')) :
    cfg.Answers c.peer c.status answer := by
  unfold Config.Answers
  cases hrule : c.peer.getBackendNameByRule with
  | direct =>
    rw [Config.nextAvailableBackend, hrule] at h
    cases h
    rfl
  | gotBackend name =>
    rw [Config.nextAvailableBackend, hrule] at h
    cases h
    rfl
  | noRule =>
    have ha : answer = .noBackend ∨
        ∃ b ∈ cfg.availableBackends c.status, answer = .gotBackend b.backend := by
      by_cases hl : (cfg.availableBackends c.status).length < 2
      · exact Config.next_of_few hrule hl h
      · exact Config.next_of_many hrule (by omega) h
    obtain ha | ⟨b, hb, ha⟩ := ha
    · exact .inl ha
    · obtain ⟨hm, hn⟩ := Config.mem_availableBackends.1 hb
      exact .inr ⟨b, hm, hn, ha⟩

end

/-- A named backend is answered only if it is listed under the name and was read as Normal. -/
theorem Config.namedBackend_cases (cfg : Config) (read : Nat → BackendStatus) (name : String) :
    (∃ b ∈ cfg.backends, b.backendName = name ∧ read b.backend = .normal ∧
      cfg.namedBackend read name = .gotBackend b.backend) ∨
    (∀ b ∈ cfg.backends, b.backendName = name → read b.backend ≠ .normal) ∧
      cfg.namedBackend read name = .block := by
  unfold Config.namedBackend
  split
  · rename_i b hb
    have hmem := List.mem_of_find?_eq_some hb
    have hname : b.backendName = name := by simpa only [decide_eq_true_eq] using List.find?_some hb
    split
    · rename_i hn
      exact .inl ⟨b, hmem, hname, hn, rfl⟩
    · rename_i hn
      refine .inr ⟨?_, rfl⟩
      intro b' hb' hname'
      rwa [List.inj_on_of_nodup_map cfg.named hb' hmem (hname'.trans hname.symm)]
  · rename_i hb
    refine .inr ⟨?_, rfl⟩
    intro b hmem hname
    exact absurd (decide_eq_true hname) (List.find?_eq_none.1 hb b hmem)

/-- What the log of a connection may hold, whatever the other tasks have done meanwhile. -/
structure Confined (cfg : Config) (peer : PeerInfo) (log : List Event) : Prop where
  direct : ∀ sec, peer.rule = .gotRule sec → sec.direct = true → ∀ b head, .attempt b head ∉ log
  attempts : ∀ sec name, peer.rule = .gotRule sec → sec.direct = false →
    sec.backend = some name → ∀ before b head after, log = before ++ .attempt b head :: after →
      ∃ x ∈ cfg.backends, x.backend = b ∧ x.backendName = name ∧
        ∃ prior read, before = prior ++ [.chose read (.gotBackend b)] ∧ read b = .normal
  choices : ∀ sec name, peer.rule = .gotRule sec → sec.direct = false →
    sec.backend = some name → ∀ before read answer after,
      log = before ++ .chose read answer :: after →
      (∃ x ∈ cfg.backends, x.backendName = name ∧ read x.backend = .normal ∧
        answer = .gotBackend x.backend) ∨
      (∀ x ∈ cfg.backends, x.backendName = name → read x.backend ≠ .normal) ∧
        answer = .block ∧ after = []
  undialled : ∀ sec name, peer.rule = .gotRule sec → sec.direct = false →
    sec.backend = some name → ∀ host, .dial host ∉ log
  heads : ∀ b head, .attempt b head ∈ log → head = peer.target
  dials : ∀ host, .dial host ∈ log → peer.target.asStr = some host

/-- The entries that a connection may add to its log. -/
def Allowed (cfg : Config) (peer : PeerInfo) (before : List Event) (e : Event) : Prop :=
  (∀ read, .chose read .block ∉ before) ∧
  match e with
  | .chose read answer => cfg.Answers peer read answer
  | .attempt b head => head = peer.getHostByRule ∧
      ∃ prior read, before = prior ++ [.chose read (.gotBackend b)]
  | .dial host => peer.getHostByRule.asStr = some host ∧
      ∃ prior read, before = prior ++ [.chose read .direct]
  | _ => True

namespace Connection

/-- What is known at each point of `handle_connection` for the peer `peer₀`. -/
def Follows (cfg : Config) (peer₀ : PeerInfo) (s : Connection K) : Prop :=
  match s.pc with
  | .starting _ => s.peer = peer₀ ∧ s.log = []
  | .on _ .select => False
  | .on b .selected => s.peer = cfg.findRuleForPeer peer₀ ∧
      ∃ prior read, s.log = prior ++ [.chose read (.gotBackend b)]
  | .dialling => s.peer = cfg.findRuleForPeer peer₀ ∧
      ∃ prior read, s.log = prior ++ [.chose read .direct]
  | _ => s.peer = cfg.findRuleForPeer peer₀

structure Obeys (cfg : Config) (peer₀ : PeerInfo) (s : Connection K) : Prop where
  follows : s.Follows cfg peer₀
  unblocked : s.pc ≠ .finished → ∀ read, .chose read .block ∉ s.log
  allowed : Throughout (Allowed cfg (cfg.findRuleForPeer peer₀)) s.log

theorem start_obeys (cfg : Config) (inbound : IncomingConnection) (peer₀ : PeerInfo)
    (backends : Nat → Backend K) (balancer : Balancer) :
    (start inbound peer₀ backends balancer).Obeys cfg peer₀ :=
  ⟨⟨rfl, rfl⟩, fun _ _ => List.not_mem_nil, throughout_nil⟩

section
variable {cfg : Config} {peer₀ : PeerInfo} {s : Connection K}

theorem Obeys.log_concat (hs : s.Obeys cfg peer₀) (hpc : s.pc ≠ .finished)
    (he : Allowed cfg (cfg.findRuleForPeer peer₀) s.log e) (hb : ∀ read, e ≠ .chose read .block) :
    (∀ read, .chose read .block ∉ s.log ++ [e]) ∧
      Throughout (Allowed cfg (cfg.findRuleForPeer peer₀)) (s.log ++ [e]) := by
  refine ⟨?_, hs.allowed.concat he⟩
  intro read hm
  obtain hm | hm := List.mem_append.1 hm
  · exact hs.unblocked hpc read hm
  · exact hb read (List.mem_singleton.1 hm).symm

theorem Obeys.enter (hs : s.Obeys cfg peer₀) (hpc : s.pc = .starting inbound) :
    (s.enter cfg inbound).Obeys cfg peer₀ := by
  have hf := hs.follows
  unfold Follows at hf
  rw [hpc] at hf
  obtain ⟨hp, hl⟩ := hf
  cases inbound with
  | connectMethod =>
    refine ⟨?_, ?_, hs.allowed⟩
    · exact congrArg cfg.findRuleForPeer hp
    · intro _
      apply hs.unblocked
      rw [hpc]
      exact nofun
  | nonConnectMethod =>
    have hne : s.pc ≠ .finished := by rw [hpc]; exact nofun
    obtain ⟨hu, ha⟩ := hs.log_concat (e := .forward) hne ⟨hs.unblocked hne, trivial⟩ nofun
    exact ⟨congrArg cfg.findRuleForPeer hp, fun _ => hu, ha⟩

theorem Obeys.choose [LE C] [DecidableLE C] (hs : s.Obeys cfg peer₀) (hpc : s.pc = .select)
    (f : Findings C) : (s.choose cfg f).Obeys cfg peer₀ := by
  have hp := hs.follows
  unfold Follows at hp
  rw [hpc] at hp
  have hne : s.pc ≠ .finished := by rw [hpc]; exact nofun
  unfold Connection.choose
  split
  · exact ⟨hp, fun h => absurd rfl h, hs.allowed⟩
  · rename_i answer bal h
    have ha := Config.next_answers h
    dsimp only at ha
    rw [hp] at ha
    have hal : Allowed cfg (cfg.findRuleForPeer peer₀) s.log (.chose f.read answer) :=
      ⟨hs.unblocked hne, ha⟩
    cases answer with
    | direct =>
      obtain ⟨hu, ht⟩ := hs.log_concat hne hal nofun
      exact ⟨⟨hp, _, _, rfl⟩, fun _ => hu, ht⟩
    | block => exact ⟨hp, fun h => absurd rfl h, hs.allowed.concat hal⟩
    | noBackend => exact ⟨hp, fun h => absurd rfl h, hs.allowed.concat hal⟩
    | gotBackend b =>
      obtain ⟨hu, ht⟩ := hs.log_concat hne hal nofun
      exact ⟨⟨hp, _, _, rfl⟩, fun _ => hu, ht⟩

theorem Obeys.proceed (hs : s.Obeys cfg peer₀) {pc : HandlePc} (hpc : s.pc = .on b pc)
    (hm : (s.backends b).handleConnection readable named pc o = some m) :
    (s.proceed b pc m).Obeys cfg peer₀ := by
  have hf := hs.follows
  unfold Follows at hf
  rw [hpc] at hf
  have hne : s.pc ≠ .finished := by rw [hpc]; exact nofun
  have hu := hs.unblocked hne
  have hkeep : Throughout (Allowed cfg (cfg.findRuleForPeer peer₀)) (s.log ++ []) := by
    rw [List.append_nil]
    exact hs.allowed
  have hukeep : ∀ read, .chose read .block ∉ s.log ++ [] := by
    rw [List.append_nil]
    exact hu
  have hstep : Task.Step none (s.backends b) readable True (.handleConnection named pc) m :=
    Backend.handleConnection_step hm
  cases hstep with
  | select _ => cases hf
  | passOver => cases hf
  | attempt _ =>
    obtain ⟨hp, hl⟩ := hf
    obtain ⟨hu', ha⟩ := hs.log_concat (e := .attempt b s.peer.getHostByRule) hne
      ⟨hu, by rw [hp], hl⟩ nofun
    exact ⟨hp, fun _ => hu', ha⟩
  | connect => exact ⟨hf, fun _ => hukeep, hkeep⟩
  | fail => exact ⟨hf, fun _ => hukeep, hkeep⟩
  | mark =>
    obtain ⟨hu', ha⟩ := hs.log_concat (e := .mark b) hne ⟨hu, trivial⟩ nofun
    exact ⟨hf, fun _ => hu', ha⟩
  | spawnRetry =>
    obtain ⟨hu', ha⟩ := hs.log_concat (e := .spawnRetry b) hne ⟨hu, trivial⟩ nofun
    exact ⟨hf, fun _ => hu', ha⟩
  | transfer _ => exact ⟨hf, fun _ => hukeep, hkeep⟩
  | transferred => exact ⟨hf, fun _ => hukeep, hkeep⟩

theorem Obeys.directConnection (hs : s.Obeys cfg peer₀) (hpc : s.pc = .dialling) :
    s.directConnection.Obeys cfg peer₀ := by
  have hf := hs.follows
  unfold Follows at hf
  rw [hpc] at hf
  obtain ⟨hp, hl⟩ := hf
  have hne : s.pc ≠ .finished := by rw [hpc]; exact nofun
  unfold Connection.directConnection
  split
  · exact ⟨hp, fun h => absurd rfl h, hs.allowed⟩
  · rename_i host hh
    rw [hp] at hh
    obtain ⟨hu, ha⟩ := hs.log_concat (e := .dial host) hne ⟨hs.unblocked hne, hh, hl⟩ nofun
    exact ⟨hp, fun _ => hu, ha⟩

theorem Obeys.step [LE C] [DecidableLE C] (hs : s.Obeys cfg peer₀) {a : ConnectionAct K C}
    (h : s.step cfg a = some s') : s'.Obeys cfg peer₀ := by
  cases a with
  | others backends balancer =>
    cases h
    exact ⟨hs.follows, hs.unblocked, hs.allowed⟩
  | run f =>
    unfold Connection.step at h
    dsimp only at h
    split at h
    · rename_i inbound hpc
      cases h
      exact hs.enter hpc
    · rename_i hpc
      cases h
      exact hs.choose hpc f
    · rename_i b pc hpc
      obtain ⟨m, hm, rfl⟩ := Option.map_eq_some_iff.1 h
      exact hs.proceed hpc hm
    · rename_i hpc
      cases h
      exact hs.directConnection hpc
    · rename_i hpc
      cases h
      have hp := hs.follows
      unfold Follows at hp
      rw [hpc] at hp
      exact ⟨hp, fun h => absurd rfl h, hs.allowed⟩
    · cases h

end

end Connection

theorem PeerInfo.rule_direct {p : PeerInfo} (hr : p.rule = .gotRule sec) (hd : sec.direct = true) :
    p.getBackendNameByRule = .direct := by
  simp only [PeerInfo.getBackendNameByRule, hr, hd, if_true]

theorem PeerInfo.rule_named {p : PeerInfo} (hr : p.rule = .gotRule sec)
    (hd : sec.direct = false) (hb : sec.backend = some name) :
    p.getBackendNameByRule = .gotBackend name := by
  simp only [PeerInfo.getBackendNameByRule, hr, hd, hb]
  rfl

section
variable {cfg : Config} {peer : PeerInfo} {log : List Event} {read : Nat → BackendStatus}

/-- An attempt follows the selection that has answered its backend. -/
theorem attempt_chosen (h : Throughout (Allowed cfg peer) log)
    (hl : log = before ++ .attempt b head :: after) :
    ∃ prior read, before = prior ++ [.chose read (.gotBackend b)] ∧
      cfg.Answers peer read (.gotBackend b) := by
  obtain ⟨_, _, prior, read, rfl⟩ := h before _ after hl
  rw [List.append_assoc] at hl
  exact ⟨prior, read, rfl, (h prior _ _ hl).2⟩

theorem dial_chosen (h : Throughout (Allowed cfg peer) log)
    (hl : log = before ++ .dial host :: after) : ∃ read, cfg.Answers peer read .direct := by
  obtain ⟨_, _, prior, read, rfl⟩ := h before _ after hl
  rw [List.append_assoc] at hl
  exact ⟨read, (h prior _ _ hl).2⟩

/-- Nothing follows an answer that blocks the connection. -/
theorem block_last (h : Throughout (Allowed cfg peer) log)
    (hl : log = before ++ .chose read .block :: after) : after = [] := by
  cases after with
  | nil => rfl
  | cons e after =>
    rw [← List.singleton_append, ← List.append_assoc] at hl
    have hu := (h _ e after hl).1 read
    exact absurd (List.mem_append_right _ (List.mem_singleton_self _)) hu

theorem Config.Answers.direct {answer : AvailableBackend} (h : cfg.Answers peer read answer)
    (hr : peer.rule = .gotRule sec) (hd : sec.direct = true) : answer = .direct := by
  simpa only [Config.Answers, PeerInfo.rule_direct hr hd] using h

theorem Config.Answers.named {answer : AvailableBackend} (h : cfg.Answers peer read answer)
    (hr : peer.rule = .gotRule sec) (hd : sec.direct = false) (hb : sec.backend = some name) :
    (∃ x ∈ cfg.backends, x.backendName = name ∧ read x.backend = .normal ∧
      answer = .gotBackend x.backend) ∨
    (∀ x ∈ cfg.backends, x.backendName = name → read x.backend ≠ .normal) ∧ answer = .block := by
  have ha : answer = cfg.namedBackend read name := by
    simpa only [Config.Answers, PeerInfo.rule_named hr hd hb] using h
  rw [ha]
  exact cfg.namedBackend_cases read name

theorem confined_of_allowed (h : Throughout (Allowed cfg peer) log) : Confined cfg peer log where
  direct := by
    intro sec hr hd b head hm
    obtain ⟨before, after, hl⟩ := List.append_of_mem hm
    obtain ⟨prior, read, _, ha⟩ := attempt_chosen h hl
    cases ha.direct hr hd
  attempts := by
    intro sec name hr hd hb before b head after hl
    obtain ⟨prior, read, hbefore, ha⟩ := attempt_chosen h hl
    obtain ⟨x, hx, hname, hn, hg⟩ | ⟨_, hg⟩ := ha.named hr hd hb
    · cases hg
      exact ⟨x, hx, rfl, hname, prior, read, hbefore, hn⟩
    · cases hg
  choices := by
    intro sec name hr hd hb before read answer after hl
    have ha : cfg.Answers peer read answer := (h before _ after hl).2
    obtain hg | ⟨hno, hg⟩ := ha.named hr hd hb
    · exact .inl hg
    · subst hg
      exact .inr ⟨hno, rfl, block_last h hl⟩
  undialled := by
    intro sec name hr hd hb host hm
    obtain ⟨before, after, hl⟩ := List.append_of_mem hm
    obtain ⟨read, ha⟩ := dial_chosen h hl
    obtain ⟨x, _, _, _, hg⟩ | ⟨_, hg⟩ := ha.named hr hd hb
    · cases hg
    · cases hg
  heads := by
    intro b head hm
    obtain ⟨before, after, hl⟩ := List.append_of_mem hm
    exact (h before _ after hl).2.1.trans peer.getHostByRule_target
  dials := by
    intro host hm
    obtain ⟨before, after, hl⟩ := List.append_of_mem hm
    rw [← peer.getHostByRule_target]
    exact (h before _ after hl).2.1

end

/-- Whatever the other tasks do to the statuses and to the balancer, every connection keeps to
the rule of its peer. -/
theorem rule_confines [LE C] [DecidableLE C] (cfg : Config) (inbound : IncomingConnection)
    (peer : PeerInfo) (backends : Nat → Backend K) (balancer : Balancer)
    (acts : List (ConnectionAct K C)) (s : Connection K)
    (hrun : run (Connection.step cfg) (.start inbound peer backends balancer) acts = some s) :
    Confined cfg (cfg.findRuleForPeer peer) s.log := by
  apply confined_of_allowed
  have ho := run_preserves (Connection.Obeys cfg peer) (fun ho h => ho.step h)
    (Connection.start_obeys cfg inbound peer backends balancer) hrun
  exact ho.allowed

/-- The rule for one host rewrites it and names the second backend. -/
def namedRule : Config where
  backends := threeBackends.backends
  hostRule := some ⟨[("example.com", ⟨some "example.org", some "b", false⟩)], by decide⟩
  numbered := by decide
  named := by decide

def examplePeer : PeerInfo := .new "example.com:80" ⟨.v4 0, 0⟩

def finding (read : Nat → BackendStatus) (outcome : Outcome) : ConnectionAct ℚ Nat :=
  .run ⟨read, 0, fun _ => 0, true, outcome⟩

def secondClosed (b : Nat) : BackendStatus := if b = 1 then .closed else .normal

/-- The named backend fails once; then it is closed, although the others are not. -/
def failNamed : List (ConnectionAct ℚ Nat) :=
  [finding (fun _ => .normal) .ok, finding (fun _ => .normal) .ok, finding (fun _ => .normal) .ok,
    finding (fun _ => .normal) .err, finding (fun _ => .normal) .ok, finding (fun _ => .normal) .ok,
    finding secondClosed .ok]

theorem rule_confines_failover :
    ∃ s, run (Connection.step namedRule)
        (.start .connectMethod examplePeer (fun _ => plainBackend) (.roundRobin 0)) failNamed =
          some s ∧
      s.log = [.chose (fun _ => .normal) (.gotBackend 1),
        .attempt 1 (namedRule.findRuleForPeer examplePeer).getHostByRule, .mark 1, .spawnRetry 1,
        .chose secondClosed .block] ∧
      Confined namedRule (namedRule.findRuleForPeer examplePeer) s.log :=
  ⟨_, rfl, rfl, rule_confines namedRule .connectMethod examplePeer (fun _ => plainBackend)
    (.roundRobin 0) failNamed _ rfl⟩

end Octoproxy
