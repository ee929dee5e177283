import Mathlib.Data.List.Perm.Basic
import Octoproxy.TaskPool

namespace TaskPool
open Transition
set_option autoImplicit true

theorem perm_of_getElem? {ts : List τ} (ht : ts[i]? = some t) :
    ts.Perm (t :: ts.eraseIdx i) := by
  obtain ⟨hi, rfl⟩ := List.getElem?_eq_some_iff.1 ht
  exact (List.getElem_cons_eraseIdx_perm hi).symm

theorem set_append_perm {ts : List τ} (ht : ts[i]? = some t) (u : τ) (new : List τ) :
    (ts.set i u ++ new).Perm (u :: (new ++ ts.eraseIdx i)) := by
  have hi := (List.getElem?_eq_some_iff.1 ht).1
  calc (ts.set i u ++ new).Perm (u :: ts.eraseIdx i ++ new) :=
        (List.set_perm_cons_eraseIdx hi u).append_right new
    _ = u :: (ts.eraseIdx i ++ new) := rfl
    List.Perm _ (u :: (new ++ ts.eraseIdx i)) := List.perm_append_comm.cons u

/-- The pool has that state and those tasks, and beside them some that hold no lock. -/
def Covers (hold : τ → Hold) (q : Pool σ τ) (s : σ) (ts : List τ) : Prop :=
  q.state = s ∧ ∃ idle, q.tasks.Perm (ts ++ idle) ∧ ∀ u ∈ idle, hold u = .released

theorem covers_nil (hold : τ → Hold) (s : σ) : Covers hold ⟨s, []⟩ s [] :=
  ⟨rfl, [], List.Perm.refl _, fun _ hu => absurd hu List.not_mem_nil⟩

section
variable {hold : τ → Hold} {q : Pool σ τ} {s : σ} {ts ts' : List τ}

theorem Covers.perm (h : Covers hold q s ts) (hp : ts.Perm ts') : Covers hold q s ts' := by
  obtain ⟨hs, idle, hq, hidle⟩ := h
  exact ⟨hs, idle, hq.trans (hp.append_right idle), hidle⟩

theorem Covers.drop (h : Covers hold q s (t :: ts)) (ht : hold t = .released) :
    Covers hold q s ts := by
  obtain ⟨hs, idle, hq, hidle⟩ := h
  refine ⟨hs, t :: idle, hq.trans ?_, List.forall_mem_cons.2 ⟨ht, hidle⟩⟩
  have hmiddle : (ts ++ t :: idle).Perm (t :: (ts ++ idle)) := List.perm_middle
  exact hmiddle.symm

theorem Covers.mem (h : Covers hold q s ts) (ht : t ∈ ts) : t ∈ q.tasks := by
  obtain ⟨_, idle, hq, _⟩ := h
  exact hq.mem_iff.2 (List.mem_append_left idle ht)

/-- The tasks left out of account do not hold up the others. -/
theorem Covers.all_eq (h : Covers hold q s ts) (f : Hold → Bool) (hf : f .released = true) :
    (q.tasks.all fun t => f (hold t)) = ts.all fun t => f (hold t) := by
  obtain ⟨_, idle, hq, hidle⟩ := h
  have hfree : (idle.all fun t => f (hold t)) = true := by
    apply List.all_eq_true.2
    intro u hu
    rw [hidle u hu, hf]
  rw [hq.all_eq, List.all_append, hfree, Bool.and_true]

end

theorem Exclusive.pairwise {hold : τ → Hold} {q : Pool σ τ} (h : Exclusive hold q) :
    q.tasks.Pairwise fun t u =>
      (hold t = .write → hold u = .released) ∧ (hold u = .write → hold t = .released) := by
  have hne : ∀ {i j : Nat} {t u : τ}, q.tasks[i]? = some t → q.tasks[j]? = some u → i ≠ j →
      hold t = .write → hold u = .released := by
    intro i j t u hi hj hij hw
    by_contra hu
    exact hij (h i j t u hi hj hw hu)
  rw [List.pairwise_iff_getElem]
  intro i j hi hj hlt
  have hti := List.getElem?_eq_getElem hi
  have htj := List.getElem?_eq_getElem hj
  exact ⟨hne hti htj (Nat.ne_of_lt hlt), hne htj hti (Nat.ne_of_gt hlt)⟩

theorem Exclusive.covers {hold : τ → Hold} {q : Pool σ τ} {s : σ} {ts : List τ}
    (h : Exclusive hold q) (hc : Covers hold q s ts) :
    ts.Pairwise fun t u =>
      (hold t = .write → hold u = .released) ∧ (hold u = .write → hold t = .released) := by
  obtain ⟨_, idle, hp, _⟩ := hc
  have hall := (hp.pairwise_iff (fun h => And.symm h)).1 h.pairwise
  exact (List.pairwise_append.1 hall).1

section
variable {P : Program σ τ ε ω} {q : Pool σ τ} {s : σ} {ts : List τ}

theorem Covers.enter (h : Covers P.hold q s ts) (e : ε) :
    ∃ q', P.step q (.enter e) = some q' ∧ Covers P.hold q' s (P.entry e :: ts) := by
  obtain ⟨hs, idle, hq, hidle⟩ := h
  refine ⟨_, rfl, hs, idle, ?_, hidle⟩
  exact (List.perm_append_singleton _ _).trans (hq.cons (P.entry e))

theorem Covers.run (h : Covers P.hold q s (t :: ts))
    (hm : P.move s ((t :: ts).all fun u => P.hold u != .write)
      ((t :: ts).all fun u => P.hold u == .released) t o = some m) :
    ∃ i q', P.step q (.run i o) = some q' ∧
      Covers P.hold q' m.state (m.task :: (m.spawned ++ ts)) := by
  obtain ⟨i, hi⟩ := List.mem_iff_getElem?.1 (h.mem List.mem_cons_self)
  have hread : P.readable q = (t :: ts).all fun u => P.hold u != .write :=
    h.all_eq (fun x => x != .write) rfl
  have hwrite : P.writable q = (t :: ts).all fun u => P.hold u == .released :=
    h.all_eq (fun x => x == .released) rfl
  rw [← hread, ← hwrite, ← h.1] at hm
  refine ⟨i, _, Program.step_of_move hi hm, rfl, ?_⟩
  obtain ⟨_, idle, hq, hidle⟩ := h
  refine ⟨idle, ?_, hidle⟩
  have hrest : (q.tasks.eraseIdx i).Perm (ts ++ idle) :=
    ((perm_of_getElem? hi).symm.trans hq).cons_inv
  apply (set_append_perm hi m.task m.spawned).trans
  rw [List.cons_append, List.append_assoc]
  exact (hrest.append_left m.spawned).cons m.task

variable {p₀ : Pool σ τ} {ts' : List τ}

/-- Some run leads to that state, with those tasks and some that hold no lock. -/
def Program.Brings (P : Program σ τ ε ω) (p₀ : Pool σ τ) (s : σ) (ts : List τ) : Prop :=
  ∃ acts q, run P.step p₀ acts = some q ∧ Covers P.hold q s ts

theorem Program.brings_nil (P : Program σ τ ε ω) (s : σ) : P.Brings ⟨s, []⟩ s [] :=
  ⟨[], _, rfl, covers_nil P.hold s⟩

theorem Program.Brings.perm (h : P.Brings p₀ s ts) (hp : ts.Perm ts') : P.Brings p₀ s ts' := by
  obtain ⟨acts, q, hr, hc⟩ := h
  exact ⟨acts, q, hr, hc.perm hp⟩

theorem Program.Brings.drop (h : P.Brings p₀ s (t :: ts)) (ht : P.hold t = .released) :
    P.Brings p₀ s ts := by
  obtain ⟨acts, q, hr, hc⟩ := h
  exact ⟨acts, q, hr, hc.drop ht⟩

theorem Program.Brings.enter (h : P.Brings p₀ s ts) (e : ε) : P.Brings p₀ s (P.entry e :: ts) := by
  obtain ⟨acts, q, hr, hc⟩ := h
  obtain ⟨q', hs, hc'⟩ := hc.enter e
  exact ⟨acts ++ [.enter e], q', run_append.2 ⟨q, hr, run_cons.2 ⟨q', hs, rfl⟩⟩, hc'⟩

theorem Program.Brings.move (h : P.Brings p₀ s (t :: ts))
    (hm : P.move s ((t :: ts).all fun u => P.hold u != .write)
      ((t :: ts).all fun u => P.hold u == .released) t o = some m) :
    P.Brings p₀ m.state (m.task :: (m.spawned ++ ts)) := by
  obtain ⟨acts, q, hr, hc⟩ := h
  obtain ⟨i, q', hs, hc'⟩ := hc.run hm
  exact ⟨acts ++ [.run i o], q', run_append.2 ⟨q, hr, run_cons.2 ⟨q', hs, rfl⟩⟩, hc'⟩

end

end TaskPool
