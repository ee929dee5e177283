import Mathlib.Data.List.Nodup
import Octoproxy.TaskPool

namespace FairLock
open TaskPool Transition
set_option autoImplicit true

/-- A pool of tasks, with those that wait for its lock in the order in which they came. -/
structure Queued (σ τ : Type) where
  pool : Pool σ τ
  queue : List Nat

inductive QueueAct (ε ω : Type) where
  | enter (e : ε)
  | wait (i : Nat)
  | run (i : Nat) (o : ω)

def Internal (_ : Queued σ τ) : QueueAct ε ω → Prop
  | .enter _ => False
  | _ => True

section
variable (P : Program σ τ ε ω) (wants : τ → Hold)

/-- A step that takes the lock is only open to the first of the queue, for reading as for
writing. `wants` tells how the next step of a task takes the lock. -/
def step (q : Queued σ τ) : QueueAct ε ω → Option (Queued σ τ)
  | .enter e => some ⟨q.pool.spawn (P.entry e), q.queue⟩
  | .wait i =>
    match q.pool.tasks[i]? with
    | none => none
    | some t =>
      if wants t ≠ .released ∧ i ∉ q.queue then some ⟨q.pool, q.queue ++ [i]⟩ else none
  | .run i o =>
    match q.pool.tasks[i]? with
    | none => none
    | some t =>
      if wants t = .released then (P.step q.pool (.run i o)).map fun p => ⟨p, q.queue⟩
      else if q.queue.head? = some i then
        (P.step q.pool (.run i o)).map fun p => ⟨p, q.queue.tail⟩
      else none

end

section
variable {P : Program σ τ ε ω} {wants : τ → Hold} {q q' : Queued σ τ}

theorem step_wait (h : step P wants q (.wait i) = some q') :
    ∃ t, q.pool.tasks[i]? = some t ∧ wants t ≠ .released ∧ i ∉ q.queue ∧
      q' = ⟨q.pool, q.queue ++ [i]⟩ := by
  simp only [step] at h
  split at h
  · cases h
  · rename_i t ht
    split at h
    · rename_i hw
      cases h
      exact ⟨t, ht, hw.1, hw.2, rfl⟩
    · cases h

theorem step_run (h : step P wants q (.run i o) = some q') :
    ∃ t p, q.pool.tasks[i]? = some t ∧ P.step q.pool (.run i o) = some p ∧
      (wants t = .released ∧ q' = ⟨p, q.queue⟩ ∨
        ∃ rest, wants t ≠ .released ∧ q.queue = i :: rest ∧ q' = ⟨p, rest⟩) := by
  simp only [step] at h
  split at h
  · cases h
  · rename_i t ht
    split at h
    · rename_i hw
      obtain ⟨p, hp, rfl⟩ := Option.map_eq_some_iff.1 h
      exact ⟨t, p, ht, hp, .inl ⟨hw, rfl⟩⟩
    · rename_i hw
      split at h
      · rename_i hq
        obtain ⟨p, hp, rfl⟩ := Option.map_eq_some_iff.1 h
        obtain ⟨rest, hq⟩ := List.head?_eq_some_iff.1 hq
        refine ⟨t, p, ht, hp, .inr ⟨rest, hw, hq, ?_⟩⟩
        rw [hq, List.tail_cons]
      · cases h

/-- The order of the queue only removes behaviour: a step is one of the pool, or changes nothing
in it. -/
theorem step_pool (h : step P wants q a = some q') :
    q'.pool = q.pool ∨ ∃ b, P.step q.pool b = some q'.pool := by
  cases a with
  | enter e =>
    cases h
    exact .inr ⟨.enter e, rfl⟩
  | wait i =>
    obtain ⟨_, _, _, _, rfl⟩ := step_wait h
    exact .inl rfl
  | run i o =>
    obtain ⟨_, p, _, hp, ⟨_, rfl⟩ | ⟨_, _, _, rfl⟩⟩ := step_run h
    · exact .inr ⟨_, hp⟩
    · exact .inr ⟨_, hp⟩

theorem run_pool (h : run (step P wants) q acts = some q') :
    ∃ acts', run P.step q.pool acts' = some q'.pool := by
  induction acts generalizing q with
  | nil =>
    cases h
    exact ⟨[], rfl⟩
  | cons a acts ih =>
    obtain ⟨q₁, hs, hr⟩ := run_cons.1 h
    obtain ⟨acts', hr'⟩ := ih hr
    obtain he | ⟨b, hb⟩ := step_pool hs
    · exact ⟨acts', he ▸ hr'⟩
    · exact ⟨b :: acts', run_cons.2 ⟨_, hb, hr'⟩⟩

/-- The queue holds tasks that want the lock, each of them once. -/
structure InLine (wants : τ → Hold) (q : Queued σ τ) : Prop where
  nodup : q.queue.Nodup
  waiting : ∀ i ∈ q.queue, ∃ t, q.pool.tasks[i]? = some t ∧ wants t ≠ .released

theorem InLine.run (h : InLine wants q) (hs : P.step q.pool (.run i o) = some p)
    (hq : rest.Sublist q.queue) (hi : i ∉ rest) : InLine wants ⟨p, rest⟩ := by
  obtain ⟨_, m, _, _, rfl⟩ := Program.step_run hs
  refine ⟨hq.nodup h.nodup, ?_⟩
  intro j hj
  obtain ⟨u, hu, hw⟩ := h.waiting j (hq.subset hj)
  refine ⟨u, getElem?_advance_ne ?_ hu, hw⟩
  rintro rfl
  exact hi hj

theorem InLine.step (h : InLine wants q) (hs : step P wants q a = some q') :
    InLine wants q' := by
  cases a with
  | enter e =>
    cases hs
    refine ⟨h.nodup, ?_⟩
    intro i hi
    obtain ⟨t, ht, hw⟩ := h.waiting i hi
    refine ⟨t, ?_, hw⟩
    exact (List.getElem?_append_left (List.getElem?_eq_some_iff.1 ht).1).trans ht
  | wait i =>
    obtain ⟨t, ht, hw, hi, rfl⟩ := step_wait hs
    refine ⟨?_, ?_⟩
    · rw [← List.concat_eq_append]
      exact (List.nodup_concat q.queue i).2 ⟨hi, h.nodup⟩
    · intro j hj
      obtain hj | hj := List.mem_append.1 hj
      · exact h.waiting j hj
      · rw [List.mem_singleton.1 hj]
        exact ⟨t, ht, hw⟩
  | run i o =>
    obtain ⟨t, p, ht, hp, ⟨hw, rfl⟩ | ⟨rest, _, hq, rfl⟩⟩ := step_run hs
    · apply h.run hp (List.Sublist.refl _)
      intro hi
      obtain ⟨u, hu, hwu⟩ := h.waiting i hi
      cases ht.symm.trans hu
      exact hwu hw
    · have hn := h.nodup
      rw [hq] at hn
      apply h.run hp _ (List.nodup_cons.1 hn).1
      rw [hq]
      exact List.sublist_cons_self i rest

theorem InLine.of_run (h : Transition.run (FairLock.step P wants) ⟨p, []⟩ acts = some q) :
    InLine wants q := by
  refine run_preserves (InLine wants) (fun hl hs => hl.step hs) ?_ h
  exact ⟨List.nodup_nil, fun i hi => absurd hi List.not_mem_nil⟩

end

/-- Every task has a way to its end. A step on it lowers the task's rank by more than it adds
with new tasks, and none that holds the lock waits for it. -/
structure Ranked (P : Program σ τ ε ω) (wants : τ → Hold) (rank : τ → Nat) : Prop where
  holder : ∀ {t}, P.hold t ≠ .released → wants t = .released ∧ 0 < rank t
  waits : ∀ {t}, wants t ≠ .released → 0 < rank t
  proceed : ∀ {t}, 0 < rank t → ∀ s r w, (wants t = .read → r = true) →
    (wants t = .write → w = true) →
      ∃ o m, P.move s r w t o = some m ∧ rank m.task + total rank m.spawned < rank t

section
variable {P : Program σ τ ε ω} {wants : τ → Hold} {rank : τ → Nat} {q : Queued σ τ}

theorem step_of_free (ht : q.pool.tasks[i]? = some t) (hw : wants t = .released)
    (hs : P.step q.pool (.run i o) = some p) : step P wants q (.run i o) = some ⟨p, q.queue⟩ := by
  simp only [step, ht, if_pos hw, hs, Option.map_some]

theorem step_of_head (ht : q.pool.tasks[i]? = some t) (hw : wants t ≠ .released)
    (hq : q.queue = i :: rest) (hs : P.step q.pool (.run i o) = some p) :
    step P wants q (.run i o) = some ⟨p, rest⟩ := by
  simp only [step, ht, if_neg hw, hq, List.head?_cons, if_true, hs, Option.map_some,
    List.tail_cons]

theorem Ranked.run (h : Ranked P wants rank) (ht : q.pool.tasks[i]? = some t) (hr : 0 < rank t)
    (hread : wants t = .read → P.readable q.pool = true)
    (hwrite : wants t = .write → P.writable q.pool = true)
    (hq : wants t = .released ∨ q.queue.head? = some i) :
    ∃ o q', step P wants q (.run i o) = some q' ∧
      total rank q'.pool.tasks < total rank q.pool.tasks := by
  obtain ⟨o, m, hm, hlt⟩ := h.proceed hr q.pool.state _ _ hread hwrite
  have hs := Program.step_of_move ht hm
  have hpay := total_advance rank ht (m := m)
  have hlow : total rank (q.pool.advance i m).tasks < total rank q.pool.tasks := by omega
  by_cases hw : wants t = .released
  · exact ⟨o, _, step_of_free ht hw hs, hlow⟩
  · obtain ⟨rest, hq⟩ := List.head?_eq_some_iff.1 (hq.resolve_left hw)
    exact ⟨o, _, step_of_head ht hw hq hs, hlow⟩

theorem step_of_wait (ht : q.pool.tasks[i]? = some t) (hw : wants t ≠ .released)
    (hi : i ∉ q.queue) : step P wants q (.wait i) = some ⟨q.pool, q.queue ++ [i]⟩ := by
  simp only [step, ht, if_pos (And.intro hw hi)]

theorem Ranked.progress (h : Ranked P wants rank) (hq : InLine wants q)
    (hr : 0 < total rank q.pool.tasks) :
    ∃ acts q', Transition.run (step P wants) q acts = some q' ∧
      AllSteps (step P wants) Internal q acts ∧
      total rank q'.pool.tasks < total rank q.pool.tasks := by
  by_cases hhold : ∃ t ∈ q.pool.tasks, P.hold t ≠ .released
  · -- a task with the lock needs nothing else
    obtain ⟨t, ht, hh⟩ := hhold
    obtain ⟨i, hi⟩ := List.mem_iff_getElem?.1 ht
    obtain ⟨hw, hpos⟩ := h.holder hh
    obtain ⟨o, q', hs, hlt⟩ := h.run hi hpos (by rw [hw]; exact nofun) (by rw [hw]; exact nofun)
      (.inl hw)
    exact ⟨[.run i o], q', run_cons.2 ⟨q', hs, rfl⟩, (allSteps_cons hs).2 ⟨trivial, trivial⟩, hlt⟩
  · push Not at hhold
    have hwritable : P.writable q.pool = true := Program.writable_of hhold
    have hreadable : P.readable q.pool = true := Program.readable_of_writable hwritable
    cases hqueue : q.queue with
    | cons i rest =>
      -- the lock is free, so the first of the queue gets it
      obtain ⟨t, ht, hw⟩ := hq.waiting i (by rw [hqueue]; exact List.mem_cons_self)
      have hpos : 0 < rank t := h.waits hw
      obtain ⟨o, q', hs, hlt⟩ := h.run ht hpos (fun _ => hreadable) (fun _ => hwritable)
        (.inr (by rw [hqueue]; rfl))
      exact ⟨[.run i o], q', run_cons.2 ⟨q', hs, rfl⟩, (allSteps_cons hs).2 ⟨trivial, trivial⟩, hlt⟩
    | nil =>
      obtain ⟨i, t, ht, hpos⟩ := exists_of_total_pos hr
      by_cases hw : wants t = .released
      · obtain ⟨o, q', hs, hlt⟩ := h.run ht hpos (fun _ => hreadable) (fun _ => hwritable) (.inl hw)
        exact ⟨[.run i o], q', run_cons.2 ⟨q', hs, rfl⟩, (allSteps_cons hs).2 ⟨trivial, trivial⟩,
          hlt⟩
      · have hwait := step_of_wait (P := P) ht hw (by rw [hqueue]; exact List.not_mem_nil)
        obtain ⟨o, q', hs, hlt⟩ := h.run (q := ⟨q.pool, q.queue ++ [i]⟩) ht hpos
          (fun _ => hreadable) (fun _ => hwritable) (.inr (by rw [hqueue]; rfl))
        exact ⟨[.wait i, .run i o], q', run_cons.2 ⟨_, hwait, run_cons.2 ⟨q', hs, rfl⟩⟩,
          (allSteps_cons hwait).2 ⟨trivial, (allSteps_cons hs).2 ⟨trivial, trivial⟩⟩, hlt⟩

/-- The tasks that are there can all run to their ends, and then nobody waits. -/
theorem Ranked.drains (h : Ranked P wants rank) (hq : InLine wants q) :
    ∃ acts q', Transition.run (step P wants) q acts = some q' ∧
      AllSteps (step P wants) Internal q acts ∧ q'.queue = [] ∧
      ∀ t ∈ q'.pool.tasks, rank t = 0 := by
  obtain ⟨acts, q', hr, hall, hline, hzero⟩ := exists_run_of_runs (P := Internal) (InLine wants)
    (fun q' => total rank q'.pool.tasks = 0) (fun q' => total rank q'.pool.tasks)
    (by
      intro q₁ hline hpos
      obtain ⟨acts, q₂, hr, hall, hlt⟩ := h.progress hline (Nat.pos_of_ne_zero hpos)
      exact ⟨acts, q₂, hr, hall, run_preserves _ (fun hl hs => hl.step hs) hline hr, hlt⟩) hq
  have hranks : ∀ t ∈ q'.pool.tasks, rank t = 0 := fun t ht => rank_of_total hzero ht
  refine ⟨acts, q', hr, hall, ?_, hranks⟩
  rw [List.eq_nil_iff_forall_not_mem]
  intro i hi
  obtain ⟨t, ht, hw⟩ := hline.waiting i hi
  exact absurd (hranks t (List.mem_of_getElem? ht)) (Nat.ne_of_gt (h.waits hw))

end

end FairLock
