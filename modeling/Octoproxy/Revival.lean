import Octoproxy.Reachable

namespace Octoproxy
open TaskPool Transition
set_option autoImplicit true

/-- Task `i` is a retry task, and one of the actions was the success of its attempt. -/
def AttemptSucceeded (forever : Option Nat) (p : Pool (Backend K) Task) (i : Nat)
    (acts : List (Act Request Outcome)) : Prop :=
  ∃ before after p' left c, acts = before ++ .run i .ok :: after ∧
    run (backendTasks K forever).step p before = some p' ∧
    p'.tasks[i]? = some (.retryForever (.attempting left c))

theorem AttemptSucceeded.append {p : Pool (Backend K) Task}
    (h : AttemptSucceeded forever p i acts) (more : List (Act Request Outcome)) :
    AttemptSucceeded forever p i (acts ++ more) := by
  obtain ⟨before, after, p', left, c, rfl, hr, hi⟩ := h
  exact ⟨before, after ++ more, p', left, c, by rw [List.append_assoc, List.cons_append], hr, hi⟩

section
variable {t : Task} {b : Backend K}

theorem Task.writes_normal (h : t.writes = some .normal) : t = .retryForever .succeeded := by
  cases t with
  | handleConnection named pc => cases pc <;> cases h
  | retryForever pc => cases pc <;> first | rfl | cases h
  | switchBackendStatus pc => cases pc <;> cases h
  | _ => cases h

theorem Backend.race_true (h : b.race o = some true) : o = .ok := by
  cases o with
  | ok => rfl
  | err => cases h
  | cancelled =>
    simp only [Backend.race] at h
    split at h <;> cases h

theorem Task.move_succeeded {readable writable : Bool}
    (hm : t.move forever b readable writable o = some m)
    (h : m.task = .retryForever .succeeded) :
    o = .ok ∧ ∃ left c, t = .retryForever (.attempting left c) := by
  cases Task.move_step hm with
  | retrySucceed =>
    rename_i left c
    refine ⟨?_, left, c, rfl⟩
    simp only [Task.move, Backend.retryForever] at hm
    split at hm
    · cases hm
    · rename_i hrace
      exact Backend.race_true hrace
    · cases hm
  | _ => cases h

end

section
variable {p p' : Pool (Backend K) Task}

theorem writes_of_normal (hs : (backendTasks K forever).step p a = some p')
    (hdown : p.state.getStatus ≠ .normal) (hup : p'.state.getStatus = .normal) :
    ∃ i o, a = .run i o ∧ p.tasks[i]? = some (.retryForever .succeeded) := by
  cases a with
  | enter r =>
    cases hs
    exact absurd hup hdown
  | run i o =>
    obtain ⟨t, m, ht, hm, rfl⟩ := step_task hs
    have hst : t.writes.getD p.state.getStatus = .normal := hm.status.symm.trans hup
    refine ⟨i, o, rfl, ?_⟩
    cases hw : t.writes with
    | none =>
      rw [hw] at hst
      exact absurd hst hdown
    | some s =>
      rw [hw] at hst
      cases hst
      rw [ht, Task.writes_normal hw]

theorem run_writes_normal (hr : run (backendTasks K forever).step p acts = some p')
    (hdown : p.state.getStatus ≠ .normal) (hup : p'.state.getStatus = .normal) :
    ∃ before i o after p₁, acts = before ++ .run i o :: after ∧
      run (backendTasks K forever).step p before = some p₁ ∧
      p₁.tasks[i]? = some (.retryForever .succeeded) := by
  induction acts generalizing p with
  | nil =>
    cases hr
    exact absurd hup hdown
  | cons a acts ih =>
    obtain ⟨p₁, hs, hr'⟩ := run_cons.1 hr
    by_cases hdown' : p₁.state.getStatus = .normal
    · obtain ⟨i, o, rfl, hi⟩ := writes_of_normal hs hdown hdown'
      exact ⟨[], i, o, acts, p, rfl, rfl, hi⟩
    · obtain ⟨before, i, o, after, p₂, rfl, hb, hi⟩ := ih hr' hdown'
      exact ⟨a :: before, i, o, after, p₂, rfl, run_cons.2 ⟨p₁, hs, hb⟩, hi⟩

/-- A retry task that is about to write Normal owes it to its own attempt. -/
theorem succeeded_attempt {b : Backend K}
    (hr : run (backendTasks K forever).step ⟨b, []⟩ acts = some p) :
    ∀ i : Nat, p.tasks[i]? = some (.retryForever .succeeded) →
      AttemptSucceeded forever ⟨b, []⟩ i acts := by
  apply run_history (fun acts p => ∀ i : Nat, p.tasks[i]? = some (.retryForever .succeeded) →
    AttemptSucceeded forever ⟨b, []⟩ i acts) _ _ hr
  · intro i hi
    cases hi
  · intro acts u v a hu hall hs j hj
    cases a with
    | enter r =>
      cases hs
      obtain hj | hj := getElem?_of_spawn hj
      · exact (hall j hj).append _
      · cases r <;> cases hj
    | run i o =>
      obtain ⟨t, m, ht, hm, rfl⟩ := Program.step_run hs
      obtain ⟨rfl, htask⟩ | ⟨_, hold⟩ | hnew :=
        getElem?_of_advance (List.getElem?_eq_some_iff.1 ht).1 hj
      · obtain ⟨rfl, left, c, rfl⟩ := Task.move_succeeded hm htask.symm
        exact ⟨acts, [], u, left, c, rfl, hu, ht⟩
      · exact (hall j hold).append _
      · cases (Task.move_step hm).spawned hnew

end

/-- Between a moment at which a backend is not Normal and a later one at which it is, a retry
task has written the status, and its own attempt had succeeded before. -/
theorem normal_only_by_retry (forever : Option Nat) (b : Backend K)
    (acts acts' : List (Act Request Outcome)) (p p' : Pool (Backend K) Task)
    (hr : run (backendTasks K forever).step ⟨b, []⟩ acts = some p)
    (hdown : p.state.getStatus ≠ .normal)
    (hr' : run (backendTasks K forever).step p acts' = some p')
    (hup : p'.state.getStatus = .normal) :
    ∃ before i o after p₁, acts' = before ++ .run i o :: after ∧
      run (backendTasks K forever).step p before = some p₁ ∧
      p₁.tasks[i]? = some (.retryForever .succeeded) ∧
      AttemptSucceeded forever ⟨b, []⟩ i (acts ++ before) := by
  obtain ⟨before, i, o, after, p₁, hacts, hb, hi⟩ := run_writes_normal hr' hdown hup
  have hall : run (backendTasks K forever).step ⟨b, []⟩ (acts ++ before) = some p₁ :=
    run_append.2 ⟨p, hr, hb⟩
  exact ⟨before, i, o, after, p₁, hacts, hb, hi, succeeded_attempt hall i hi⟩

/-- A connection fails and marks the backend. -/
def markClosed : List (Act Request Outcome) :=
  [.enter (.connect false), .run 0 .ok, .run 0 .ok, .run 0 .err, .run 0 .ok]

def justMarked : Pool (Backend ℚ) Task :=
  ⟨plainBackend.setStatus .closed, [.handleConnection false .marked]⟩

/-- The retry task that it spawns reaches the backend again. -/
def reachAgain : List (Act Request Outcome) := .run 0 .ok :: List.replicate 8 (.run 1 .ok)

theorem normal_after_retry :
    ∃ p', run (backendTasks ℚ none).step justMarked reachAgain = some p' ∧
      p'.state.getStatus = .normal ∧
      ∃ before i o after p₁, reachAgain = before ++ .run i o :: after ∧
        run (backendTasks ℚ none).step justMarked before = some p₁ ∧
        p₁.tasks[i]? = some (.retryForever .succeeded) ∧
        AttemptSucceeded none ⟨plainBackend, []⟩ i (markClosed ++ before) :=
  ⟨_, rfl, rfl, normal_only_by_retry none plainBackend markClosed reachAgain justMarked _ rfl nofun
    rfl rfl⟩

end Octoproxy
