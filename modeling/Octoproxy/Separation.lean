import Octoproxy.Reachable

namespace Octoproxy
open TaskPool Transition
set_option autoImplicit true

/-- The client whose stream a connection has opened but does not yet transfer over. -/
def Task.between : Task → Option MixClient
  | .handleConnection _ (.connected c) => some c
  | _ => none

/-- The client that a connection is opening a stream on, or has opened one on. -/
def Task.opens : Task → Option MixClient
  | .handleConnection _ (.attempting c) => some c
  | .handleConnection _ (.connected c) => some c
  | _ => none

def Installs (p : Pool (Backend K) Task) : Act Request Outcome → Prop
  | .enter _ => False
  | .run i _ => ∃ env ∈ p.tasks[i]?.bind Task.installs, (p.state.nextBuild env).isSome

/-- The client is replaced only while no connection stands between its two read sections. -/
def InstallsApart (p : Pool (Backend K) Task) (a : Act Request Outcome) : Prop :=
  Installs p a → ∀ u ∈ p.tasks, u.between = none

instance (p : Pool (Backend K) Task) : (a : Act Request Outcome) → Decidable (Installs p a)
  | .enter _ => isFalse id
  | .run i _ =>
    inferInstanceAs
      (Decidable (∃ env ∈ p.tasks[i]?.bind Task.installs, (p.state.nextBuild env).isSome))

instance (p : Pool (Backend K) Task) (a : Act Request Outcome) : Decidable (InstallsApart p a) :=
  inferInstanceAs (Decidable (Installs p a → ∀ u ∈ p.tasks, u.between = none))

/-- After each switch of the run, and however the tasks then go on, every transfer that starts
before the next switch is over a stream of the client that it has installed. -/
def Separates (forever : Option Nat) (p : Pool (Backend K) Task)
    (acts : List (Act Request Outcome)) : Prop :=
  ∀ before a rest p₁ p₂, acts = before ++ a :: rest →
    run (backendTasks K forever).step p before = some p₁ → Installs p₁ a →
    (backendTasks K forever).step p₁ a = some p₂ →
    ∀ after p₃, run (backendTasks K forever).step p₂ after = some p₃ →
      AllSteps (backendTasks K forever).step (fun p a => ¬ Installs p a) p₂ after →
      ∀ i o t c p₄, p₃.tasks[i]? = some t → t.between = some c →
        (backendTasks K forever).step p₃ (.run i o) = some p₄ → c = p₂.state.client

theorem Task.opens_of_between {t : Task} (h : t.between = some c) : t.opens = some c := by
  cases t with
  | handleConnection named pc =>
    cases pc with
    | connected c' => exact h
    | _ => cases h
  | _ => cases h

section
variable {b : Backend K}

theorem Backend.installNext_isSome (h : (b.nextBuild env).isSome) :
    (b.installNext env).2 = .ok () ∧ (b.installNext env).1.client.build = b.client.build + 1 := by
  obtain ⟨r, hr⟩ := Option.isSome_iff_exists.1 h
  unfold Backend.nextBuild at hr
  simp only [Backend.installNext, hr]
  exact ⟨trivial, rfl⟩

theorem Backend.nextBuild_isSome (h : (b.installNext env).2 = .ok ()) :
    (b.nextBuild env).isSome := by
  by_contra hn
  rw [Option.not_isSome_iff_eq_none, Backend.nextBuild] at hn
  simp only [Backend.installNext, hn] at h
  cases h

theorem Backend.installNext_client (h : (b.installNext env).2 ≠ .ok ()) :
    (b.installNext env).1.client = b.client := by
  simp only [Backend.installNext] at h ⊢
  split at h
  · rfl
  · exact absurd rfl h

variable {t : Task}

theorem Task.Step.client (h : t.Step forever b readable writable m) :
    m.state.client = b.client ∨
      m.state.client.build = b.client.build + 1 ∧ ∃ env ∈ t.installs, (b.nextBuild env).isSome := by
  cases h with
  | protocolError he => exact .inl (Backend.installNext_client he)
  | protocolInstall hi =>
    have hn := Backend.nextBuild_isSome hi
    exact .inr ⟨(Backend.installNext_isSome hn).2, _, rfl, hn⟩
  | _ => exact .inl rfl

theorem Task.Step.opens (h : t.Step forever b readable writable m) (hc : m.task.opens = some c) :
    c = b.client ∨ t.opens = some c := by
  cases h with
  | attempt _ => exact .inl (Option.some.inj hc).symm
  | connect => exact .inr hc
  | _ => cases hc

end

variable {p p' : Pool (Backend K) Task}

def Current (c : MixClient) (p : Pool (Backend K) Task) : Prop :=
  p.state.client = c ∧ ∀ u ∈ p.tasks, ∀ c' ∈ u.opens, c' = c

theorem Current.step (h : Current c p) (hn : ¬ Installs p a)
    (hs : (backendTasks K forever).step p a = some p') : Current c p' := by
  obtain ⟨hc, hu⟩ := h
  cases a with
  | enter r =>
    cases hs
    refine ⟨hc, forall_spawn hu ?_⟩
    cases r <;> exact nofun
  | run i o =>
    obtain ⟨t, m, ht, hm, rfl⟩ := step_task hs
    constructor
    · obtain he | ⟨_, env, henv, hb⟩ := hm.client
      · exact he.trans hc
      · refine absurd ⟨env, ?_, hb⟩ hn
        rw [ht]
        exact henv
    · refine forall_advance ht hu ?_ ?_
      · intro hold c' hc'
        obtain rfl | ho := hm.opens hc'
        · exact hc
        · exact hold c' ho
      · intro u hsp
        rw [hm.spawned hsp]
        exact nofun

/-- No stream belongs to a client that is yet to come. -/
def Aged (p : Pool (Backend K) Task) : Prop :=
  ∀ u ∈ p.tasks, ∀ c ∈ u.opens, c.build ≤ p.state.client.build

theorem Aged.step (h : Aged p) (hs : (backendTasks K forever).step p a = some p') : Aged p' := by
  cases a with
  | enter r =>
    cases hs
    apply forall_spawn h
    cases r <;> exact nofun
  | run i o =>
    obtain ⟨t, m, ht, hm, rfl⟩ := step_task hs
    have hle : p.state.client.build ≤ m.state.client.build := by
      obtain he | ⟨he, _⟩ := hm.client
      · exact Nat.le_of_eq (congrArg MixClient.build he.symm)
      · rw [he]
        exact Nat.le_succ _
    have hold : ∀ u ∈ p.tasks, ∀ c ∈ u.opens, c.build ≤ m.state.client.build :=
      fun u hu c hc => Nat.le_trans (h u hu c hc) hle
    refine forall_advance ht hold ?_ ?_
    · intro ho c hc
      obtain rfl | hc := hm.opens hc
      · exact hle
      · exact ho c hc
    · intro u hsp
      rw [hm.spawned hsp]
      exact nofun

theorem Reachable.aged [NatCast K] (h : Reachable forever p) : Aged p := by
  obtain ⟨env, now, cfg, b, acts, hb, hr⟩ := h
  refine run_preserves Aged (fun ha hs => ha.step hs) ?_ hr
  intro u hu
  cases hu

theorem installs_switching (h : Installs p (.run i o)) :
    ∃ env, p.tasks[i]? = some (.switchBackendProtocol env .switching) ∧
      (p.state.nextBuild env).isSome := by
  obtain ⟨env, henv, hb⟩ := h
  obtain ⟨t, ht, hi⟩ := Option.bind_eq_some_iff.1 henv
  refine ⟨env, ?_, hb⟩
  rw [ht]
  cases t with
  | switchBackendProtocol env' pc =>
    cases pc with
    | switching =>
      cases hi
      rfl
    | _ => cases hi
  | _ => cases hi

theorem installs_step (hi : Installs p (.run i o))
    (hs : (backendTasks K forever).step p (.run i o) = some p') :
    ∃ env, p.tasks[i]? = some (.switchBackendProtocol env .switching) ∧
      p' = p.advance i ⟨(p.state.installNext env).1, .switchBackendProtocol env .installed, []⟩ ∧
      p'.state.client.build = p.state.client.build + 1 := by
  obtain ⟨env, ht, hb⟩ := installs_switching hi
  obtain ⟨hok, hbuild⟩ := Backend.installNext_isSome hb
  refine ⟨env, ht, ?_⟩
  obtain ⟨t, m, ht', hm, rfl⟩ := step_task hs
  cases ht.symm.trans ht'
  cases hm with
  | protocolError he => exact absurd hok he
  | protocolInstall _ => exact ⟨rfl, hbuild⟩

/-- While the client is replaced no connection is opening a stream. -/
theorem current_of_installs (ho : Orderly p) (hi : Installs p a)
    (hapart : ∀ u ∈ p.tasks, u.between = none)
    (hs : (backendTasks K forever).step p a = some p') : Current p'.state.client p' := by
  cases a with
  | enter r => exact absurd hi id
  | run i o =>
    obtain ⟨env, ht, rfl, _⟩ := installs_step hi hs
    refine ⟨rfl, ?_⟩
    intro u hu c hc
    obtain rfl | hu | hu := mem_advance hu
    · cases hc
    · cases hu
    · have hb := hapart u hu
      obtain ⟨j, hj⟩ := List.mem_iff_getElem?.1 hu
      have hread : u.hold = .read := by
        cases u with
        | handleConnection named pc =>
          cases pc with
          | attempting c' => rfl
          | connected c' => cases hb
          | _ => cases hc
        | _ => cases hc
      have hij := ho.exclusive i j _ u ht hj rfl (by rw [hread]; exact nofun)
      subst hij
      cases ht.symm.trans hj
      cases hc

/-- A connection between its read sections starts its transfer once the lock can be taken. -/
theorem transfer_possible (hj : p.tasks[j]? = some u) (hc : u.between = some c)
    (hr : (backendTasks K forever).readable p = true) :
    ∃ p', (backendTasks K forever).step p (.run j .ok) = some p' := by
  cases u with
  | handleConnection named pc =>
    cases pc with
    | connected c' =>
      have hm : (backendTasks K forever).move p.state ((backendTasks K forever).readable p)
          ((backendTasks K forever).writable p) (.handleConnection named (.connected c')) .ok =
            some ⟨p.state, .handleConnection named (.transferring c'), []⟩ := by
        rw [hr]
        rfl
      exact ⟨_, Program.step_of_move hj hm⟩
    | _ => cases hc
  | _ => cases hc

/-- A connection that a switch has overtaken can go on to transfer over its old stream. -/
theorem overtaken (ho : Orderly p) (ha : Aged p) (hi : Installs p a)
    (hs : (backendTasks K forever).step p a = some p') (hu : u ∈ p.tasks)
    (hc : u.between = some c) :
    ∃ after p₃ j p₄, run (backendTasks K forever).step p' after = some p₃ ∧
      AllSteps (backendTasks K forever).step (fun p a => ¬ Installs p a) p' after ∧
      p₃.tasks[j]? = some u ∧ (backendTasks K forever).step p₃ (.run j .ok) = some p₄ ∧
      c ≠ p'.state.client := by
  have ho' := ho.step hs
  cases a with
  | enter r => exact absurd hi id
  | run i o =>
    obtain ⟨env, ht, rfl, hbuild⟩ := installs_step hi hs
    obtain ⟨j, hj⟩ := List.mem_iff_getElem?.1 hu
    have hij : i ≠ j := by
      rintro rfl
      cases ht.symm.trans hj
      cases hc
    have hold : c.build ≤ p.state.client.build := ha u hu c (Task.opens_of_between hc)
    generalize hp' : p.advance i ⟨(p.state.installNext env).1,
      .switchBackendProtocol env .installed, []⟩ = p' at ho' hbuild ⊢
    have hti : p'.tasks[i]? = some (.switchBackendProtocol env .installed) := by
      rw [← hp']
      exact getElem?_advance ht
    have htj : p'.tasks[j]? = some u := by
      rw [← hp']
      exact getElem?_advance_ne hij hj
    -- the request resets the new client and releases the lock
    have hreset : (backendTasks K forever).step p' (.run i .ok) =
        some (p'.advance i ⟨p'.state.resetClient, .finished, []⟩) := Program.step_of_move hti rfl
    have hfree : (backendTasks K forever).readable
        (p'.advance i ⟨p'.state.resetClient, .finished, []⟩) = true :=
      Exclusive.readable ho'.exclusive hti rfl nofun nofun
    have hj' := getElem?_advance_ne (m := ⟨p'.state.resetClient, .finished, []⟩) hij htj
    obtain ⟨p₄, h₄⟩ := transfer_possible hj' hc hfree
    refine ⟨[.run i .ok], _, j, p₄, run_cons.2 ⟨_, hreset, rfl⟩, ⟨?_, fun _ _ => trivial⟩, hj', h₄,
      ?_⟩
    · rintro ⟨env', henv, _⟩
      rw [hti] at henv
      cases henv
    · rintro rfl
      rw [hbuild] at hold
      exact Nat.not_succ_le_self _ hold

theorem installs_possible (hi : Installs p a) :
    ∃ p', (backendTasks K forever).step p a = some p' := by
  cases a with
  | enter r => exact absurd hi id
  | run i o =>
    obtain ⟨env, ht, hb⟩ := installs_switching hi
    obtain ⟨hok, _⟩ := Backend.installNext_isSome hb
    have hinst : p.state.installNext env = ((p.state.installNext env).1, .ok ()) :=
      Prod.ext rfl hok
    have hm : Task.move forever p.state ((backendTasks K forever).readable p)
        ((backendTasks K forever).writable p) (.switchBackendProtocol env .switching) o =
          some ⟨_, .switchBackendProtocol env .installed, []⟩ := Task.move_switching_ok hinst
    exact ⟨_, Program.step_of_move ht hm⟩

/-- In a run of a new backend, each switch separates the old tunnels from the new ones exactly when
no connection stands between its two read sections at that moment. -/
theorem switch_separates_iff [NatCast K] (forever : Option Nat) (env : BuildEnv) (now : Nat)
    (cfg : FileBackendConfig) (b : Backend K) (hb : Backend.new env now cfg = .ok b)
    (acts : List (Act Request Outcome)) :
    Separates forever ⟨b, []⟩ acts ↔
      AllSteps (backendTasks K forever).step InstallsApart ⟨b, []⟩ acts := by
  rw [allSteps_iff]
  constructor
  · intro h before a rest p₁ hacts h₁ hi u hu
    have hr : Reachable forever p₁ := ⟨env, now, cfg, b, before, hb, h₁⟩
    obtain ⟨p₂, h₂⟩ := installs_possible hi
    cases hc : u.between with
    | none => rfl
    | some c =>
      obtain ⟨after, p₃, j, p₄, h₃, hn, hj, h₄, hne⟩ := overtaken hr.orderly hr.aged hi h₂ hu hc
      exact absurd (h before a rest p₁ p₂ hacts h₁ hi h₂ after p₃ h₃ hn j .ok u c p₄ hj hc h₄) hne
  · intro h before a rest p₁ p₂ hacts h₁ hi h₂ after p₃ h₃ hn i o t c p₄ ht hc _
    have hr : Reachable forever p₁ := ⟨env, now, cfg, b, before, hb, h₁⟩
    have hcur := current_of_installs hr.orderly hi (h before a rest p₁ hacts h₁ hi) h₂
    obtain ⟨_, hopen⟩ := run_invariant (Current p₂.state.client) Current.step hcur hn h₃
    exact hopen t (List.mem_of_getElem? ht) c (Task.opens_of_between hc)

/-- A connection has selected the backend and waits for its first guard during the switch, and has
its tunnel afterwards. -/
def switchThenConnect : List (Act Request Outcome) :=
  [.enter (.connect false), .run 0 .ok, .enter (.switchProtocol workingTls), .run 1 .ok, .run 1 .ok,
    .run 1 .ok, .run 1 .ok, .run 1 .ok, .run 0 .ok, .run 0 .ok, .run 0 .ok]

theorem switch_separates_next_tunnel : Separates none ⟨plainBackend, []⟩ switchThenConnect :=
  (switch_separates_iff none workingTls 0 plainConfig plainBackend rfl switchThenConnect).2
    (by decide)

/-- A connection has opened its stream, and a request switches the protocol before the connection
takes the lock again. -/
def switchBetween : List (Act Request Outcome) :=
  [.enter (.connect false), .run 0 .ok, .run 0 .ok, .run 0 .ok,
    .enter (.switchProtocol workingTls), .run 1 .ok, .run 1 .ok, .run 1 .ok]

/-- The tunnel goes over the stream of the client that has been replaced. -/
theorem overtaken_tunnel_uses_old_client :
    ¬ ∀ (env : BuildEnv) (now : Nat) (cfg : FileBackendConfig) (b : Backend ℚ)
      (acts : List (Act Request Outcome)), Backend.new env now cfg = .ok b →
      Separates none ⟨b, []⟩ acts := by
  intro h
  have hs := h workingTls 0 plainConfig plainBackend (switchBetween ++ [.run 1 .ok]) rfl
    switchBetween (.run 1 .ok) [] _ _ rfl rfl ⟨workingTls, rfl, rfl⟩ rfl [.run 1 .ok] _ rfl
    ⟨nofun, fun _ _ => trivial⟩ 0 .ok _ ⟨.http2, 0⟩ _ rfl rfl rfl
  cases hs

end Octoproxy
