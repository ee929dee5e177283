import Octoproxy.Confinement

namespace Octoproxy
open TaskPool Transition
set_option autoImplicit true

def Event.attempted : Event → Option Nat
  | .attempt b _ => some b
  | _ => none

def Event.retried : Event → Option Nat
  | .spawnRetry b => some b
  | _ => none

def Config.normals (cfg : Config) (status : Nat → BackendStatus) : List Nat :=
  (cfg.availableBackends status).map ConfigBackend.backend

namespace Connection

def statuses (s : Connection K) (b : Nat) : BackendStatus := (s.backends b).getStatus

def attempted (s : Connection K) : List Nat := s.log.filterMap Event.attempted

def retried (s : Connection K) : List Nat := s.log.filterMap Event.retried

def hasLeft (s : Connection K) : Bool :=
  match s.pc with
  | .on _ (.connected _) => true
  | .on _ (.transferring _) => true
  | .finished => true
  | _ => false

def loopSteps (s : Connection K) : ConnectionAct K C → Nat
  | .others _ _ => 0
  | .run _ => if s.hasLeft then 0 else 1

/-- No other task changes a status, before the selection or while it reads, and an attempt ends as
`fate` says. -/
def Undisturbed (fate : Nat → Bool) (s : Connection K) : ConnectionAct K C → Prop
  | .others backends _ => ∀ b, (backends b).getStatus = s.statuses b
  | .run f => (s.pc = .select → f.read = s.statuses) ∧
      ∀ b c, s.pc = .on b (.attempting c) → (s.backends b).race f.outcome = some (fate b)

end Connection

namespace Connection

/-- The backends that the loop is done with, has tried and has closed. -/
structure Tally (cfg : Config) (fate : Nat → Bool) (start : Nat → BackendStatus)
    (s : Connection K) (done tried closed : List Nat) : Prop where
  retried : s.retried = done
  attempted : s.attempted = tried
  statuses : ∀ b, s.statuses b = if b ∈ closed then .closed else start b
  distinct : tried.Nodup
  normal : ∀ b ∈ tried, b ∈ cfg.normals start
  failed : ∀ b ∈ done, fate b = false

/-- The peer's rule, once it has been looked up, names no backend. -/
def Unruled (cfg : Config) (s : Connection K) : Prop :=
  match s.pc with
  | .starting _ => (cfg.findRuleForPeer s.peer).getBackendNameByRule = .noRule
  | _ => s.peer.getBackendNameByRule = .noRule

end Connection

/-- How far the backends have come at each point of the loop. -/
def ConnectionPc.Reached (fate : Nat → Bool) (normals done tried closed : List Nat) :
    ConnectionPc → Prop
  | .starting .connectMethod => tried = done ∧ closed = done
  | .select => tried = done ∧ closed = done
  | .on b .selected => tried = done ∧ closed = done ∧ b ∈ normals ∧ b ∉ done
  | .on b (.attempting _) => tried = done ++ [b] ∧ closed = done
  | .on b .failed => tried = done ++ [b] ∧ closed = done ∧ fate b = false
  | .on b .marked => tried = done ++ [b] ∧ closed = done ++ [b] ∧ fate b = false
  | .on b (.connected _) => tried = done ++ [b] ∧ closed = done ∧ fate b = true
  | .on b (.transferring _) => tried = done ++ [b] ∧ closed = done ∧ fate b = true
  | .finished => closed = done ∧ ∃ last, tried = done ++ last ∧ ∀ b ∈ last, fate b = true
  | _ => False

/-- The invariant of the loop. -/
structure Connection.Loops (cfg : Config) (fate : Nat → Bool) (start : Nat → BackendStatus)
    (s : Connection K) : Prop where
  unruled : s.Unruled cfg
  reached : ∃ done tried closed, s.Tally cfg fate start done tried closed ∧
    s.pc.Reached fate (cfg.normals start) done tried closed

/-- A bound on the steps that the loop can still take while `n` backends are Normal: five for each
of them that fails. -/
def ConnectionPc.remaining (n : Nat) : ConnectionPc → Nat
  | .starting _ => 5 * n + 2
  | .select => 5 * n + 1
  | .on _ .selected => 5 * n
  | .on _ (.attempting _) => 5 * n - 1
  | .on _ .failed => 5 * n - 2
  | .on _ .marked => 5 * n + 2
  | _ => 0

def Connection.remaining (cfg : Config) (s : Connection K) : Nat :=
  s.pc.remaining (cfg.normals s.statuses).length

section
variable {cfg : Config} {status : Nat → BackendStatus}

theorem Config.Answers.unruled {answer : AvailableBackend} (h : cfg.Answers peer status answer)
    (hrule : peer.getBackendNameByRule = .noRule) :
    answer = .noBackend ∨
      ∃ x ∈ cfg.backends, status x.backend = .normal ∧ answer = .gotBackend x.backend := by
  rw [Config.Answers, hrule] at h
  exact h

theorem Config.mem_normals :
    b ∈ cfg.normals status ↔ (∃ x ∈ cfg.backends, x.backend = b) ∧ status b = .normal := by
  constructor
  · intro h
    obtain ⟨x, hx, rfl⟩ := List.mem_map.1 h
    obtain ⟨hm, hn⟩ := Config.mem_availableBackends.1 hx
    exact ⟨⟨x, hm, rfl⟩, hn⟩
  · rintro ⟨⟨x, hm, rfl⟩, hn⟩
    exact List.mem_map_of_mem (Config.mem_availableBackends.2 ⟨hm, hn⟩)

theorem Config.normals_close (h : b ∈ cfg.normals status) :
    (cfg.normals (Function.update status b .closed)).length < (cfg.normals status).length := by
  have hsplit : cfg.availableBackends (Function.update status b .closed) =
      (cfg.availableBackends status).filter fun x => x.backend ≠ b := by
    simp only [Config.availableBackends, List.filter_filter]
    apply List.filter_congr
    intro x _
    by_cases hx : x.backend = b
    · simp [hx]
    · simp [hx]
  obtain ⟨x, hx, rfl⟩ := List.mem_map.1 h
  simp only [Config.normals, List.length_map, hsplit]
  apply List.length_filter_lt_length_iff_exists.2
  exact ⟨x, hx, by simp⟩

end

namespace Connection

section
variable {cfg : Config} {fate : Nat → Bool} {start : Nat → BackendStatus} {s s' : Connection K}
  {done tried closed : List Nat}

theorem attempted_append (h : s'.log = s.log ++ es) :
    s'.attempted = s.attempted ++ es.filterMap Event.attempted := by
  rw [attempted, h, List.filterMap_append]
  rfl

theorem retried_append (h : s'.log = s.log ++ es) :
    s'.retried = s.retried ++ es.filterMap Event.retried := by
  rw [retried, h, List.filterMap_append]
  rfl

theorem Tally.of_log (h : s.Tally cfg fate start done tried closed) (hlog : s'.log = s.log ++ es)
    (ha : es.filterMap Event.attempted = []) (hr : es.filterMap Event.retried = [])
    (hst : s'.statuses = s.statuses) : s'.Tally cfg fate start done tried closed where
  retried := by
    rw [retried_append hlog, hr, List.append_nil]
    exact h.retried
  attempted := by
    rw [attempted_append hlog, ha, List.append_nil]
    exact h.attempted
  statuses := fun b => (congrFun hst b).trans (h.statuses b)
  distinct := h.distinct
  normal := h.normal
  failed := h.failed

theorem Tally.of_eq (h : s.Tally cfg fate start done tried closed) (hlog : s'.log = s.log)
    (hst : s'.statuses = s.statuses) : s'.Tally cfg fate start done tried closed := by
  have hlog' : s'.log = s.log ++ [] := by
    rw [List.append_nil]
    exact hlog
  exact h.of_log hlog' rfl rfl hst

theorem Tally.normal_now (h : s.Tally cfg fate start done tried closed)
    (hb : b ∈ cfg.normals start) (hc : b ∉ closed) : b ∈ cfg.normals s.statuses := by
  obtain ⟨hx, hn⟩ := Config.mem_normals.1 hb
  apply Config.mem_normals.2
  refine ⟨hx, ?_⟩
  rw [h.statuses, if_neg hc]
  exact hn

theorem Tally.normal_start (h : s.Tally cfg fate start done tried closed)
    (hb : b ∈ cfg.normals s.statuses) : b ∈ cfg.normals start ∧ b ∉ closed := by
  obtain ⟨hx, hn⟩ := Config.mem_normals.1 hb
  rw [h.statuses] at hn
  split at hn
  · cases hn
  · rename_i hc
    exact ⟨Config.mem_normals.2 ⟨hx, hn⟩, hc⟩

theorem Tally.not_mem (h : s.Tally cfg fate start done (done ++ [b]) closed) : b ∉ done := by
  intro hb
  exact (List.nodup_append.1 h.distinct).2.2 b hb b (List.mem_singleton_self b) rfl

/-- The backend that is being tried is still Normal. -/
theorem Tally.trying (h : s.Tally cfg fate start done (done ++ [b]) done) :
    b ∈ cfg.normals s.statuses :=
  h.normal_now (h.normal b (List.mem_append_right _ (List.mem_singleton_self b))) h.not_mem

theorem Tally.attempt (h : s.Tally cfg fate start done done done) (hb : b ∈ cfg.normals start)
    (hn : b ∉ done) (hlog : s'.log = s.log ++ [.attempt b head])
    (hst : s'.statuses = s.statuses) :
    s'.Tally cfg fate start done (done ++ [b]) done where
  retried := by
    rw [retried_append hlog, h.retried]
    exact List.append_nil done
  attempted := by
    rw [attempted_append hlog, h.attempted]
    rfl
  statuses := fun b => (congrFun hst b).trans (h.statuses b)
  distinct := by
    apply List.nodup_append.2
    refine ⟨h.distinct, List.nodup_singleton b, ?_⟩
    rintro a ha c hc rfl
    rw [List.mem_singleton.1 hc] at ha
    exact hn ha
  normal := by
    intro a ha
    obtain ha | ha := List.mem_append.1 ha
    · exact h.normal a ha
    · rw [List.mem_singleton.1 ha]
      exact hb
  failed := h.failed

theorem Tally.mark (h : s.Tally cfg fate start done (done ++ [b]) done)
    (hlog : s'.log = s.log ++ [.mark b])
    (hst : s'.statuses = Function.update s.statuses b .closed) :
    s'.Tally cfg fate start done (done ++ [b]) (done ++ [b]) where
  retried := by
    rw [retried_append hlog, h.retried]
    exact List.append_nil done
  attempted := by
    rw [attempted_append hlog, h.attempted]
    exact List.append_nil (done ++ [b])
  statuses := by
    intro a
    rw [hst]
    by_cases ha : a = b
    · subst ha
      simp
    · rw [Function.update_of_ne ha, h.statuses]
      simp [ha]
  distinct := h.distinct
  normal := h.normal
  failed := h.failed

theorem Tally.spawnRetry (h : s.Tally cfg fate start done (done ++ [b]) (done ++ [b]))
    (hb : fate b = false) (hlog : s'.log = s.log ++ [.spawnRetry b])
    (hst : s'.statuses = s.statuses) :
    s'.Tally cfg fate start (done ++ [b]) (done ++ [b]) (done ++ [b]) where
  retried := by
    rw [retried_append hlog, h.retried]
    rfl
  attempted := by
    rw [attempted_append hlog, h.attempted]
    exact List.append_nil (done ++ [b])
  statuses := fun b => (congrFun hst b).trans (h.statuses b)
  distinct := h.distinct
  normal := h.normal
  failed := by
    intro a ha
    obtain ha | ha := List.mem_append.1 ha
    · exact h.failed a ha
    · rw [List.mem_singleton.1 ha]
      exact hb

theorem statuses_proceed (b : Nat) (pc : HandlePc) (t : Task) (sp : List Task) :
    (s.proceed b pc ⟨s.backends b, t, sp⟩).statuses = s.statuses := by
  funext a
  simp only [statuses, proceed, Function.update_eq_self]

theorem statuses_close (b : Nat) (pc : HandlePc) (t : Task) (sp : List Task) :
    (s.proceed b pc ⟨(s.backends b).setStatus .closed, t, sp⟩).statuses =
      Function.update s.statuses b .closed := by
  funext a
  by_cases ha : a = b
  · subst ha
    simp only [statuses, proceed, Function.update_self]
    rfl
  · simp only [statuses, proceed, Function.update_of_ne ha]

theorem loopSteps_run {f : Findings C} (h : s.hasLeft = false) : s.loopSteps (.run f) = 1 := by
  rw [loopSteps, h, if_neg Bool.false_ne_true]

theorem loopSteps_left {f : Findings C} (h : s.hasLeft = true) : s.loopSteps (.run f) = 0 := by
  rw [loopSteps, h, if_pos rfl]

theorem remaining_proceed (b : Nat) (pc : HandlePc) (t : Task) (sp : List Task) :
    (s.proceed b pc ⟨s.backends b, t, sp⟩).remaining cfg =
      (t.resume b).remaining (cfg.normals s.statuses).length := by
  rw [remaining, statuses_proceed]
  rfl

theorem Loops.enter (h : s.Loops cfg fate start) (hpc : s.pc = .starting inbound) :
    (s.enter cfg inbound).Loops cfg fate start ∧
      1 + (s.enter cfg inbound).remaining cfg ≤ s.remaining cfg := by
  obtain ⟨hrule, done, tried, closed, ht, hr⟩ := h
  unfold Unruled at hrule
  rw [hpc] at hrule hr
  rw [remaining, remaining, hpc]
  cases inbound with
  | connectMethod =>
    refine ⟨⟨hrule, done, tried, closed, ht.of_eq rfl rfl, hr⟩, ?_⟩
    exact Nat.le_of_eq (Nat.add_comm 1 _)
  | nonConnectMethod => cases hr

theorem choose_eq [LE C] [DecidableLE C] {f : Findings C} {answer : AvailableBackend}
    (h : cfg.nextAvailableBackend s.balancer ⟨s.peer, f.read, f.roll, f.cost⟩ = .ok (answer, bal)) :
    s.choose cfg f = { s with
      pc := answer.next
      balancer := bal
      log := s.log ++ [.chose f.read answer] } := by
  rw [Connection.choose, h]

theorem Loops.choose [LE C] [DecidableLE C] (h : s.Loops cfg fate start) (hpc : s.pc = .select)
    {f : Findings C} (hread : f.read = s.statuses) :
    (s.choose cfg f).Loops cfg fate start ∧
      1 + (s.choose cfg f).remaining cfg ≤ s.remaining cfg := by
  obtain ⟨hrule, done, tried, closed, ht, hr⟩ := h
  unfold Unruled at hrule
  rw [hpc] at hrule hr
  obtain ⟨rfl, rfl⟩ := hr
  obtain ⟨answer, bal, hn⟩ := Config.exists_next cfg s.balancer ⟨s.peer, f.read, f.roll, f.cost⟩
  have ha := (Config.next_answers hn).unruled hrule
  rw [choose_eq hn, remaining, remaining, hpc]
  obtain rfl | ⟨x, hx, hnormal, rfl⟩ := ha
  · refine ⟨⟨hrule, _, _, _, ht.of_log rfl rfl rfl rfl, rfl, [], ?_, ?_⟩, Nat.le_add_left 1 _⟩
    · exact (List.append_nil _).symm
    · intro b hb
      cases hb
  · change f.read x.backend = .normal at hnormal
    rw [hread] at hnormal
    have hb : x.backend ∈ cfg.normals s.statuses := Config.mem_normals.2 ⟨⟨x, hx, rfl⟩, hnormal⟩
    refine ⟨⟨hrule, _, _, _, ht.of_log rfl rfl rfl rfl, rfl, rfl, ht.normal_start hb⟩, ?_⟩
    exact Nat.le_of_eq (Nat.add_comm 1 _)

/-- A step of the loop that leaves the statuses alone and brings it nearer to its end. -/
theorem proceed_pays {pc : HandlePc} (f : Findings C) (hpc : s.pc = .on b pc)
    (hleft : s.hasLeft = false)
    (hlt : (t.resume b).remaining (cfg.normals s.statuses).length <
      (ConnectionPc.on b pc).remaining (cfg.normals s.statuses).length) :
    s.loopSteps (.run f) + (s.proceed b pc ⟨s.backends b, t, sp⟩).remaining cfg ≤
      s.remaining cfg := by
  rw [loopSteps_run hleft, remaining_proceed, remaining, hpc]
  omega

theorem Loops.attempted (h : s.Loops cfg fate start) (hpc : s.pc = .on b (.attempting c))
    (hrace : (s.backends b).race o = some (fate b))
    (hm : (s.backends b).handleConnection readable named (.attempting c) o = some m)
    (f : Findings C) :
    (s.proceed b (.attempting c) m).Loops cfg fate start ∧
      s.loopSteps (.run f) + (s.proceed b (.attempting c) m).remaining cfg ≤ s.remaining cfg := by
  obtain ⟨hrule, done, tried, closed, ht, hr⟩ := h
  unfold Unruled at hrule
  rw [hpc] at hrule hr
  obtain ⟨rfl, rfl⟩ := hr
  have hpos := List.length_pos_of_mem ht.trying
  simp only [Backend.handleConnection, hrace] at hm
  cases hfate : fate b with
  | true =>
    rw [hfate] at hm
    cases hm
    refine ⟨⟨hrule, _, _, _, ht.of_log rfl rfl rfl (statuses_proceed ..), rfl, rfl, hfate⟩, ?_⟩
    apply proceed_pays f hpc (by rw [hasLeft, hpc])
    simp only [Task.resume, ConnectionPc.remaining]
    omega
  | false =>
    rw [hfate] at hm
    cases hm
    refine ⟨⟨hrule, _, _, _, ht.of_log rfl rfl rfl (statuses_proceed ..), rfl, rfl, hfate⟩, ?_⟩
    apply proceed_pays f hpc (by rw [hasLeft, hpc])
    simp only [Task.resume, ConnectionPc.remaining]
    omega

theorem Loops.proceed {pc : HandlePc} (h : s.Loops cfg fate start) (hpc : s.pc = .on b pc)
    (hrace : ∀ c, pc = .attempting c → (s.backends b).race o = some (fate b))
    (hm : (s.backends b).handleConnection readable named pc o = some m) (f : Findings C) :
    (s.proceed b pc m).Loops cfg fate start ∧
      s.loopSteps (.run f) + (s.proceed b pc m).remaining cfg ≤ s.remaining cfg := by
  have h' := h
  obtain ⟨hrule, done, tried, closed, ht, hr⟩ := h
  unfold Unruled at hrule
  rw [hpc] at hrule hr
  cases pc with
  | select => cases hr
  | selected =>
    obtain ⟨_, rfl⟩ := waitFor_eq_some hm
    obtain ⟨rfl, rfl, hb, hn⟩ := hr
    refine ⟨⟨hrule, _, _, _, ht.attempt hb hn rfl (statuses_proceed ..), rfl, rfl⟩, ?_⟩
    have hpos := List.length_pos_of_mem (ht.normal_now hb hn)
    apply proceed_pays f hpc (by rw [hasLeft, hpc])
    simp only [Task.resume, ConnectionPc.remaining]
    omega
  | attempting c => exact h'.attempted hpc (hrace c rfl) hm f
  | failed =>
    cases hm
    obtain ⟨rfl, rfl, hfate⟩ := hr
    refine ⟨⟨hrule, _, _, _, ht.mark rfl (statuses_close ..), rfl, rfl, hfate⟩, ?_⟩
    -- the only step that leaves fewer Normal backends
    have hless := Config.normals_close ht.trying
    rw [loopSteps_run (by rw [hasLeft, hpc]), remaining, remaining, statuses_close, hpc]
    simp only [Connection.proceed, Task.resume, ConnectionPc.remaining]
    omega
  | marked =>
    cases hm
    obtain ⟨rfl, rfl, hfate⟩ := hr
    refine ⟨⟨hrule, _, _, _, ht.spawnRetry hfate rfl (statuses_proceed ..), rfl, rfl⟩, ?_⟩
    apply proceed_pays f hpc (by rw [hasLeft, hpc])
    simp only [Task.resume, ConnectionPc.remaining]
    omega
  | connected c =>
    obtain ⟨_, rfl⟩ := waitFor_eq_some hm
    refine ⟨⟨hrule, _, _, _, ht.of_log rfl rfl rfl (statuses_proceed ..), hr⟩, ?_⟩
    rw [loopSteps_left (by rw [hasLeft, hpc]), remaining_proceed]
    exact Nat.zero_le _
  | transferring c =>
    simp only [Backend.handleConnection] at hm
    split at hm
    · cases hm
    · cases hm
      obtain ⟨rfl, rfl, hfate⟩ := hr
      rw [loopSteps_left (by rw [hasLeft, hpc]), remaining_proceed]
      refine ⟨⟨hrule, _, _, _, ht.of_log rfl rfl rfl (statuses_proceed ..), rfl, [b], rfl, ?_⟩,
        Nat.zero_le _⟩
      intro a ha
      rw [List.mem_singleton.1 ha]
      exact hfate

theorem Loops.others (h : s.Loops cfg fate start) {backends : Nat → Backend K}
    (hst : ∀ b, (backends b).getStatus = s.statuses b) (balancer : Balancer) :
    ({ s with backends := backends, balancer := balancer } : Connection K).Loops cfg fate
      start := by
  obtain ⟨hrule, done, tried, closed, ht, hr⟩ := h
  exact ⟨hrule, done, tried, closed, ht.of_eq rfl (funext hst), hr⟩

/-- What a step of the loop finds when nobody disturbs it and the lock is free. -/
def undisturbedFindings (fate : Nat → Bool) (s : Connection K) (f : Findings C) : Findings C :=
  { f with
    read := s.statuses
    readable := true
    outcome := match s.pc with
      | .on b _ => if fate b then .ok else .err
      | _ => .ok }

theorem undisturbedFindings_undisturbed (f : Findings C) :
    s.Undisturbed fate (.run (s.undisturbedFindings fate f)) := by
  refine ⟨fun _ => rfl, ?_⟩
  intro b c hpc
  simp only [undisturbedFindings, hpc]
  cases fate b <;> rfl

section
variable {C : Type} [LE C] [DecidableLE C] {a : ConnectionAct K C}

theorem Loops.step (h : s.Loops cfg fate start) (hu : s.Undisturbed fate a)
    (hs : s.step cfg a = some s') :
    s'.Loops cfg fate start ∧ s.loopSteps a + s'.remaining cfg ≤ s.remaining cfg := by
  cases a with
  | others backends balancer =>
    cases hs
    refine ⟨h.others hu balancer, ?_⟩
    have hst : ({ s with backends := backends, balancer := balancer } : Connection K).statuses =
        s.statuses := funext hu
    rw [remaining, remaining, hst, loopSteps, Nat.zero_add]
  | run f =>
    obtain ⟨hread, hrace⟩ := hu
    unfold Connection.step at hs
    dsimp only at hs
    split at hs
    · rename_i inbound hpc
      cases hs
      rw [loopSteps_run (by rw [hasLeft, hpc])]
      exact h.enter hpc
    · rename_i hpc
      cases hs
      rw [loopSteps_run (by rw [hasLeft, hpc])]
      exact h.choose hpc (hread hpc)
    · rename_i b pc hpc
      obtain ⟨m, hm, rfl⟩ := Option.map_eq_some_iff.1 hs
      apply h.proceed hpc _ hm
      rintro c rfl
      exact hrace b c hpc
    · rename_i hpc
      obtain ⟨_, _, _, _, _, hr⟩ := h
      rw [hpc] at hr
      cases hr
    · rename_i hpc
      obtain ⟨_, _, _, _, _, hr⟩ := h
      rw [hpc] at hr
      cases hr
    · cases hs

/-- As long as the loop is not over, it takes a step whenever it gets the lock. -/
theorem Loops.progress (h : s.Loops cfg fate start) (hleft : s.hasLeft = false) {f : Findings C}
    (hr : f.readable = true) (hu : s.Undisturbed fate (.run f)) :
    ∃ s', s.step cfg (.run f) = some s' := by
  unfold Connection.step
  dsimp only
  split
  · exact ⟨_, rfl⟩
  · exact ⟨_, rfl⟩
  · rename_i b pc hpc
    simp only [hasLeft, hpc] at hleft
    cases pc with
    | selected => exact ⟨_, by rw [hr]; rfl⟩
    | attempting c =>
      simp only [Backend.handleConnection, hu.2 b c hpc]
      cases fate b <;> exact ⟨_, rfl⟩
    | failed => exact ⟨_, rfl⟩
    | marked => exact ⟨_, rfl⟩
    | select =>
      obtain ⟨_, _, _, _, _, hr⟩ := h
      rw [hpc] at hr
      cases hr
    | _ => cases hleft
  · exact ⟨_, rfl⟩
  · exact ⟨_, rfl⟩
  · rename_i hpc
    simp only [hasLeft, hpc] at hleft
    cases hleft

theorem Loops.ends (h : s.Loops cfg fate start) (f : Findings C) :
    ∃ (acts : List (ConnectionAct K C)) (s' : Connection K),
      run (Connection.step cfg) s acts = some s' ∧
        AllSteps (Connection.step cfg) (Undisturbed fate) s acts ∧ s'.hasLeft = true := by
  apply exists_run_of_measure (Loops cfg fate start) _ (remaining cfg) _ h
  intro s h hleft
  rw [Bool.not_eq_true] at hleft
  have hu : s.Undisturbed fate (.run (s.undisturbedFindings fate f)) :=
    undisturbedFindings_undisturbed f
  obtain ⟨s', hs⟩ := h.progress hleft rfl hu
  obtain ⟨h', hpay⟩ := h.step hu hs
  refine ⟨_, s', hu, hs, h', ?_⟩
  rw [loopSteps_run hleft] at hpay
  omega

end

end

end Connection

end Octoproxy
