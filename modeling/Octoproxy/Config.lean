import Octoproxy.Balance

namespace Octoproxy
set_option autoImplicit true

/-- A backend as the proxy lists it. `backend` stands for the shared `Arc<RwLock<Backend>>`. -/
structure ConfigBackend where
  backend : Nat
  backendName : String
deriving DecidableEq

/-- The fixed part of `Config`. Every listed backend is its own, and the names are keys of the
map in the configuration file. -/
structure Config where
  backends : List ConfigBackend
  hostRule : Option HostRuler
  numbered : backends.map ConfigBackend.backend = List.range backends.length
  named : (backends.map ConfigBackend.backendName).Nodup

inductive AvailableBackend where
  | direct
  | block
  | noBackend
  | gotBackend (backend : Nat)
deriving DecidableEq

/-- What one call of `next_available_backend` reads. Every status is read at most once in a
call, so `status` may be any function, whatever other tasks write in the meantime. -/
structure Call (C : Type) where
  peer : PeerInfo
  status : Nat → BackendStatus
  roll : Nat
  cost : ConfigBackend → C

namespace Config

def findRuleForPeer (cfg : Config) (peer : PeerInfo) : PeerInfo :=
  match cfg.hostRule with
  | some h => h.findRule peer
  | none => peer

def availableBackends (cfg : Config) (status : Nat → BackendStatus) : List ConfigBackend :=
  cfg.backends.filter fun b => status b.backend = .normal

/-- The branch of `next_available_backend` for a rule that names a backend. -/
def namedBackend (cfg : Config) (status : Nat → BackendStatus) (name : String) :
    AvailableBackend :=
  match cfg.backends.find? fun b => b.backendName = name with
  | some b => if status b.backend = .normal then .gotBackend b.backend else .block
  | none => .block

def nextAvailableBackend [LE C] [DecidableLE C] (cfg : Config) (bal : Balancer) (c : Call C) :
    Except Panic (AvailableBackend × Balancer) :=
  match c.peer.getBackendNameByRule with
  | .gotBackend name => .ok (cfg.namedBackend c.status name, bal)
  | .direct => .ok (.direct, bal)
  | .noRule =>
    match cfg.availableBackends c.status with
    | [] => .ok (.noBackend, bal)
    | [b] => .ok (.gotBackend b.backend, bal)
    | backends =>
      (bal.next c.roll c.cost backends c.peer).map fun r =>
        (match r.1 with
          | some b => .gotBackend b.backend
          | none => .noBackend, r.2)

def afterCalls [LE C] [DecidableLE C] (cfg : Config) (bal : Balancer) :
    List (Call C) → Except Panic Balancer
  | [] => .ok bal
  | c :: cs => (cfg.nextAvailableBackend bal c).bind fun r => cfg.afterCalls r.2 cs

theorem mem_availableBackends {cfg : Config} {b : ConfigBackend} :
    b ∈ cfg.availableBackends status ↔ b ∈ cfg.backends ∧ status b.backend = .normal := by
  simp only [availableBackends, List.mem_filter, decide_eq_true_eq]

theorem availableBackends_nil {cfg : Config} :
    cfg.availableBackends status = [] ↔ ∀ b ∈ cfg.backends, status b.backend ≠ .normal := by
  simp only [availableBackends, List.filter_eq_nil_iff, decide_eq_true_eq]

section
variable {C : Type} [LE C] [DecidableLE C] {cfg : Config} {bal : Balancer} {c : Call C}

theorem next_of_two (hrule : c.peer.getBackendNameByRule = .noRule)
    (h : 2 ≤ (cfg.availableBackends c.status).length) :
    cfg.nextAvailableBackend bal c =
      (bal.next c.roll c.cost (cfg.availableBackends c.status) c.peer).map fun r =>
        (match r.1 with
          | some b => .gotBackend b.backend
          | none => .noBackend, r.2) := by
  unfold nextAvailableBackend
  rw [hrule]
  generalize cfg.availableBackends c.status = l at h ⊢
  match l, h with
  | [], h => simp at h
  | [_], h => simp at h
  | _ :: _ :: _, _ => rfl

/-- The call answers, with `NoBackend` only when no backend is Normal and with a Normal one
otherwise. -/
def Selects (cfg : Config) (bal : Balancer) (c : Call C) : Prop :=
  ∃ r bal', cfg.nextAvailableBackend bal c = .ok (r, bal') ∧
    (r = .noBackend ↔ ∀ b ∈ cfg.backends, c.status b.backend ≠ .normal) ∧
    (r ≠ .noBackend →
      ∃ b ∈ cfg.backends, r = .gotBackend b.backend ∧ c.status b.backend = .normal)

/-- The state left by earlier calls suits the number of backends that are Normal now. -/
def Suits (cfg : Config) (bal : Balancer) (c : Call C) : Prop :=
  (cfg.availableBackends c.status).length < 2 ∨
    bal.Fits (cfg.availableBackends c.status).length

theorem exists_next (cfg : Config) (bal : Balancer) (c : Call C) :
    ∃ r bal', cfg.nextAvailableBackend bal c = .ok (r, bal') := by
  cases hrule : c.peer.getBackendNameByRule with
  | gotBackend name => exact ⟨_, _, by rw [nextAvailableBackend, hrule]⟩
  | direct => exact ⟨_, _, by rw [nextAvailableBackend, hrule]⟩
  | noRule =>
    by_cases h : 2 ≤ (cfg.availableBackends c.status).length
    · obtain ⟨r, bal', hn, _⟩ := bal.next_spec c.roll c.cost
        (cfg.availableBackends c.status) c.peer (by omega)
      exact ⟨_, _, by rw [next_of_two hrule h, hn]; rfl⟩
    · unfold nextAvailableBackend
      rw [hrule]
      generalize cfg.availableBackends c.status = l at h ⊢
      match l, h with
      | [], _ => exact ⟨_, _, rfl⟩
      | [_], _ => exact ⟨_, _, rfl⟩
      | _ :: _ :: _, h => simp at h

/-- No history of calls makes a balancer panic. -/
theorem exists_afterCalls (cfg : Config) (bal : Balancer) (cs : List (Call C)) :
    ∃ bal', cfg.afterCalls bal cs = .ok bal' := by
  induction cs generalizing bal with
  | nil => exact ⟨bal, rfl⟩
  | cons c cs ih =>
    obtain ⟨r, bal₁, hn⟩ := exists_next cfg bal c
    obtain ⟨bal', hb⟩ := ih bal₁
    exact ⟨bal', by rw [afterCalls, hn]; exact hb⟩

theorem selects_of_few (hrule : c.peer.getBackendNameByRule = .noRule)
    (h : (cfg.availableBackends c.status).length < 2) : cfg.Selects bal c := by
  unfold Selects
  rw [← availableBackends_nil, nextAvailableBackend, hrule]
  cases hl : cfg.availableBackends c.status with
  | nil => exact ⟨_, _, rfl, ⟨fun _ => rfl, fun _ => rfl⟩, fun hr => absurd rfl hr⟩
  | cons b l =>
    cases l with
    | nil =>
      have hb : b ∈ cfg.availableBackends c.status := by rw [hl]; exact List.mem_cons_self
      obtain ⟨hm, hs⟩ := mem_availableBackends.1 hb
      exact ⟨_, _, rfl, ⟨nofun, nofun⟩, fun _ => ⟨b, hm, rfl, hs⟩⟩
    | cons b' l =>
      rw [hl, List.length_cons, List.length_cons] at h
      omega

theorem selects_iff_fits (hrule : c.peer.getBackendNameByRule = .noRule)
    (h : 2 ≤ (cfg.availableBackends c.status).length) :
    cfg.Selects bal c ↔ bal.Fits (cfg.availableBackends c.status).length := by
  have hne : ¬ ∀ b ∈ cfg.backends, c.status b.backend ≠ .normal := by
    rw [← availableBackends_nil]
    intro hl
    rw [hl] at h
    simp at h
  obtain ⟨r, bal', hn, hfit, hunfit⟩ := bal.next_spec c.roll c.cost
    (cfg.availableBackends c.status) c.peer (by omega)
  unfold Selects
  rw [next_of_two hrule h, hn]
  constructor
  · rintro ⟨r', bal'', he, hno, _⟩
    by_contra hf
    rw [hunfit hf] at he
    cases he
    exact hne (hno.1 rfl)
  · intro hf
    obtain ⟨b, hb, rfl⟩ := hfit hf
    obtain ⟨hm, hs⟩ := mem_availableBackends.1 hb
    refine ⟨_, _, rfl, ⟨nofun, fun hall => absurd hall hne⟩, fun _ => ⟨b, hm, rfl, hs⟩⟩

/-- After every history of calls the next one selects soundly and completely exactly when fewer
than two backends are Normal or the round-robin cursor points among those that are. -/
theorem selection_iff_suits (hashRing : Nat → String → Option Nat) (balance : Balance)
    (cfg : Config) (history : List (Call C)) (c : Call C)
    (hrule : c.peer.getBackendNameByRule = .noRule) :
    ∃ bal, cfg.afterCalls (populateLoadBalance hashRing balance cfg.backends.length) history =
        .ok bal ∧ (cfg.Selects bal c ↔ cfg.Suits bal c) := by
  obtain ⟨bal, hb⟩ := exists_afterCalls cfg
    (populateLoadBalance hashRing balance cfg.backends.length) history
  refine ⟨bal, hb, ?_⟩
  by_cases h : (cfg.availableBackends c.status).length < 2
  · exact ⟨fun _ => .inl h, fun _ => selects_of_few hrule h⟩
  · rw [selects_iff_fits hrule (by omega), Suits]
    exact ⟨.inr, fun hs => hs.resolve_left h⟩

end

end Config

def threeBackends : Config where
  backends := [⟨0, "a"⟩, ⟨1, "b"⟩, ⟨2, "c"⟩]
  hostRule := none
  numbered := by decide
  named := by decide

def plainCall (status : Nat → BackendStatus) : Call Nat where
  peer := .new "example.com:80" ⟨.v4 0, 0⟩
  status := status
  roll := 0
  cost := fun _ => 0

/-- Two calls with three Normal backends leave the cursor at 2. When the last backend then
closes, two are Normal and the next call answers `NoBackend`. -/
theorem round_robin_misses_backends :
    ¬ ∀ (hashRing : Nat → String → Option Nat) (balance : Balance) (cfg : Config)
      (history : List (Call Nat)) (c : Call Nat),
      c.peer.getBackendNameByRule = .noRule →
      ∃ bal, cfg.afterCalls (populateLoadBalance hashRing balance cfg.backends.length) history =
        .ok bal ∧ cfg.Selects bal c := by
  intro h
  have hn : threeBackends.nextAvailableBackend (.roundRobin 2)
      (plainCall fun b => if b = 2 then .closed else .normal) =
        .ok (.noBackend, .roundRobin 1) := rfl
  have ha : threeBackends.afterCalls (populateLoadBalance (fun _ _ => none) .roundRobin 3)
      [plainCall fun _ => .normal, plainCall fun _ => .normal] = .ok (.roundRobin 2) := rfl
  obtain ⟨bal, hb, r, bal', hr, hno, _⟩ := h (fun _ _ => none) .roundRobin threeBackends
    [plainCall fun _ => .normal, plainCall fun _ => .normal]
    (plainCall fun b => if b = 2 then .closed else .normal) rfl
  cases ha.symm.trans hb
  cases hn.symm.trans hr
  exact hno.1 rfl ⟨0, "a"⟩ (by decide) rfl

/-- A backend has failed before the second call, and the cursor is back at the start. -/
theorem selection_after_failure :
    ∃ bal, threeBackends.afterCalls (populateLoadBalance (fun _ _ => none) .roundRobin 3)
        [plainCall fun _ => .normal, plainCall fun b => if b = 2 then .closed else .normal] =
          .ok bal ∧
      threeBackends.Selects bal (plainCall fun b => if b = 2 then .closed else .normal) := by
  obtain ⟨bal, hb, hiff⟩ := Config.selection_iff_suits (fun _ _ => none) .roundRobin threeBackends
    [plainCall fun _ => .normal, plainCall fun b => if b = 2 then .closed else .normal]
    (plainCall fun b => if b = 2 then .closed else .normal) rfl
  refine ⟨bal, hb, hiff.2 (.inr ?_)⟩
  have ha : threeBackends.afterCalls (populateLoadBalance (fun _ _ => none) .roundRobin 3)
      [plainCall fun _ => .normal, plainCall fun b => if b = 2 then .closed else .normal] =
        .ok (.roundRobin 0) := rfl
  cases ha.symm.trans hb
  exact (by decide : 0 < 2)

end Octoproxy
