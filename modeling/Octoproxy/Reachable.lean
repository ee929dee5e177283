import Octoproxy.Tasks

namespace Octoproxy
open TaskPool Transition
set_option autoImplicit true

/-- A state that the tasks of a new backend can bring about. -/
def Reachable [NatCast K] (forever : Option Nat) (p : Pool (Backend K) Task) : Prop :=
  ∃ env now cfg b acts, Backend.new env now cfg = .ok b ∧
    run (backendTasks K forever).step ⟨b, []⟩ acts = some p

theorem step_task {p p' : Pool (Backend K) Task}
    (h : (backendTasks K forever).step p (.run i o) = some p') :
    ∃ t m, p.tasks[i]? = some t ∧
      t.Step forever p.state ((backendTasks K forever).readable p)
        ((backendTasks K forever).writable p) m ∧ p' = p.advance i m := by
  obtain ⟨t, m, ht, hm, hp⟩ := Program.step_run h
  exact ⟨t, m, ht, Task.move_step hm, hp⟩

section
variable {t : Task} {b : Backend K}

theorem Task.Step.hold_read (h : t.Step forever b readable writable m)
    (hr : m.task.hold = .read) : t.hold = .read ∨ readable := by
  cases h with
  | attempt hfree => exact .inr hfree
  | transfer hfree => exact .inr hfree
  | retryTick hfree _ => exact .inr hfree
  | statusStart hfree => exact .inr hfree
  | statusRead hfree => exact .inr hfree
  | resetStart hfree => exact .inr hfree
  | protocolStart hfree => exact .inr hfree
  | _ => first | exact .inl rfl | cases hr

theorem Task.Step.hold_write (h : t.Step forever b readable writable m)
    (hw : m.task.hold = .write) : t.hold = .write ∨ writable := by
  cases h with
  | statusLock hfree => exact .inr hfree
  | resetLock hfree => exact .inr hfree
  | protocolLock hfree => exact .inr hfree
  | _ => first | exact .inl rfl | cases hw

end

theorem backendTasks_locks (K : Type) (forever : Option Nat) : (backendTasks K forever).Locks where
  entry := by
    intro r
    cases r <;> rfl
  spawned := by
    intro b r w t o m h u hu
    rw [(Task.move_step h).spawned hu]
    rfl
  read := fun h => (Task.move_step h).hold_read
  write := fun h => (Task.move_step h).hold_write

def Task.installs : Task → Option BuildEnv
  | .switchBackendProtocol env .switching => some env
  | _ => none

/-- A retry task between storing and clearing the flag. -/
def Task.ownsFlag : Task → Bool
  | .retryForever (.resetting _) => true
  | .retryForever (.attempting _ _) => true
  | .retryForever .succeeded => true
  | .retryForever .recovered => true
  | .retryForever (.failed _) => true
  | .retryForever (.remarking _) => true
  | .retryForever (.missed _) => true
  | _ => false

theorem Backend.installNext_error {b : Backend K} (h : (b.installNext env).2 ≠ .ok ()) :
    (b.installNext env).1.retrying = b.retrying ∧ b.nextBuild env = none := by
  simp only [Backend.installNext] at h ⊢
  unfold Backend.nextBuild
  split at h
  · rename_i hb
    exact ⟨rfl, hb⟩
  · exact absurd rfl h

theorem Backend.installNext_ok {b : Backend K} (h : (b.installNext env).2 = .ok ()) :
    (b.installNext env).1.retrying = false ∧
      (b.installNext env).1.cancellationToken.cancelled = false := by
  simp only [Backend.installNext] at h ⊢
  split at h
  · cases h
  · exact ⟨rfl, rfl⟩

section
variable {t : Task} {b : Backend K}

/-- The flag is only cleared by its owner, or together with the token. -/
theorem Task.Step.owns (h : t.Step forever b readable writable m)
    (hf : m.state.retrying = true) :
    m.task.ownsFlag = true ∨ b.retrying = true ∧ t.ownsFlag = false := by
  cases h with
  | retryStore => exact .inl rfl
  | retryAttempt => exact .inl rfl
  | retrySucceed => exact .inl rfl
  | retryFail => exact .inl rfl
  | retryRecover => exact .inl rfl
  | retryClosed _ => exact .inl rfl
  | retryChanged _ => exact .inl rfl
  | retryMark => exact .inl rfl
  | retryDone => cases hf
  | retryMiss => cases hf
  | statusRenew => cases hf
  | resetRenew => cases hf
  | protocolError he => exact .inr ⟨(Backend.installNext_error he).1.symm.trans hf, rfl⟩
  | protocolInstall he => cases (Backend.installNext_ok he).1.symm.trans hf
  | _ => exact .inr ⟨hf, rfl⟩

end

/-- The lock is held by one writer or by readers, and a flag that is set has an owner. -/
structure Orderly (p : Pool (Backend K) Task) : Prop where
  exclusive : Exclusive Task.hold p
  owned : p.state.retrying = true → ∃ u ∈ p.tasks, u.ownsFlag = true

theorem Orderly.enter {p : Pool (Backend K) Task} (h : Orderly p) (r : Request) :
    Orderly (p.spawn r.task) := by
  refine ⟨?_, fun hf => exists_spawn (h.owned hf)⟩
  apply h.exclusive.spawn
  cases r <;> rfl

theorem Orderly.step {p p' : Pool (Backend K) Task} (h : Orderly p)
    (hs : (backendTasks K forever).step p a = some p') : Orderly p' := by
  cases a with
  | enter r =>
    cases hs
    exact h.enter r
  | run i o =>
    refine ⟨h.exclusive.step (backendTasks_locks K forever) hs, ?_⟩
    obtain ⟨t, m, ht, hm, rfl⟩ := step_task hs
    intro hf
    obtain ho | ⟨hf, ho⟩ := hm.owns hf
    · exact ⟨_, task_mem_advance ht, ho⟩
    · apply exists_advance ht (h.owned hf)
      intro ho'
      cases ho.symm.trans ho'

theorem new_orderly [NatCast K] {b : Backend K} (hb : Backend.new env now cfg = .ok b) :
    Orderly ⟨b, []⟩ := by
  unfold Backend.new at hb
  split at hb
  · cases hb
  · cases hb
    exact ⟨exclusive_nil _ _, nofun⟩

theorem Reachable.orderly [NatCast K] {p : Pool (Backend K) Task} (h : Reachable forever p) :
    Orderly p := by
  obtain ⟨env, now, cfg, b, acts, hb, hr⟩ := h
  exact run_preserves Orderly (fun ho hs => ho.step hs) (new_orderly hb) hr

end Octoproxy
