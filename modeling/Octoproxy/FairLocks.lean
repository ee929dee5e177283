import Mathlib.Logic.Function.Basic
import Octoproxy.FairLock

namespace FairLocks
open FairLock (QueueAct)
open Transition
set_option autoImplicit true

/-- Tasks that share any number of locks. `wants` tells whose lock the next step of a task takes,
and `quits` with which outcomes it stops waiting instead; a step changes the task that takes it,
and may add others. -/
structure System (σ τ β ε ω : Type) where
  tasks : σ → List τ
  wants : τ → Option β
  quits : τ → ω → Bool
  enter : σ → ε → Option σ
  move : σ → Nat → ω → Option σ
  entered : ∀ {s e s'}, enter s e = some s' → ∃ new, tasks s' = tasks s ++ new
  moved : ∀ {s i o s'}, move s i o = some s' →
    ∃ t' new, tasks s' = (tasks s).set i t' ++ new

/-- A state, with those that wait for each lock in the order in which they came. -/
structure Queued (σ β : Type) where
  state : σ
  queue : β → List Nat

def Internal (_ : Queued σ β) : QueueAct ε ω → Prop
  | .enter _ => False
  | _ => True

def System.wanted (S : System σ τ β ε ω) (s : σ) (i : Nat) : Option β :=
  (S.tasks s)[i]?.bind S.wants

/-- Task `i` does not wait for its turn. -/
def System.leaves (S : System σ τ β ε ω) (s : σ) (i : Nat) (o : ω) : Bool :=
  (S.tasks s)[i]?.any fun t => S.quits t o

section
variable [DecidableEq β] (S : System σ τ β ε ω)

/-- A step that takes a lock is only open to the first of its queue, but anyone may leave it. -/
def step (q : Queued σ β) : QueueAct ε ω → Option (Queued σ β)
  | .enter e => (S.enter q.state e).map fun s => ⟨s, q.queue⟩
  | .wait i =>
    match S.wanted q.state i with
    | none => none
    | some b =>
      if i ∈ q.queue b then none
      else some ⟨q.state, Function.update q.queue b (q.queue b ++ [i])⟩
  | .run i o =>
    match S.wanted q.state i with
    | none => (S.move q.state i o).map fun s => ⟨s, q.queue⟩
    | some b =>
      if (q.queue b).head? = some i ∨ S.leaves q.state i o = true then
        (S.move q.state i o).map fun s => ⟨s, Function.update q.queue b ((q.queue b).erase i)⟩
      else none

/-- Everyone in a queue waits for its lock, once. -/
structure InLine (q : Queued σ β) : Prop where
  nodup : ∀ b, (q.queue b).Nodup
  waiting : ∀ b, ∀ i ∈ q.queue b, S.wanted q.state i = some b

/-- As long as anything is left to do, some task that needs no lock can go on, or else there is a
lock that everyone who needs it could take if it were their turn. -/
structure Ranked (I : σ → Prop) (Φ : σ → Nat) : Prop where
  keeps : ∀ {s i o s'}, I s → S.move s i o = some s' → I s'
  rest : ∀ {s}, I s → Φ s = 0 → ∀ i, S.wanted s i = none
  progress : ∀ {s}, I s → 0 < Φ s →
    (∃ i o s', S.wanted s i = none ∧ S.move s i o = some s' ∧ Φ s' < Φ s) ∨
    ∃ b, (∃ i, S.wanted s i = some b) ∧
      ∀ i, S.wanted s i = some b → ∃ o s', S.move s i o = some s' ∧ Φ s' < Φ s

end

section
variable {S : System σ τ β ε ω} {q : Queued σ β}

theorem System.wanted_enter (h : S.enter s e = some s') (hw : S.wanted s i = some b) :
    S.wanted s' i = some b := by
  obtain ⟨new, hn⟩ := S.entered h
  obtain ⟨t, ht, hb⟩ := Option.bind_eq_some_iff.1 hw
  have hlt := (List.getElem?_eq_some_iff.1 ht).1
  rw [System.wanted, hn, List.getElem?_append_left hlt, ht]
  exact hb

theorem System.wanted_move (h : S.move s i o = some s') (hij : i ≠ j)
    (hw : S.wanted s j = some b) : S.wanted s' j = some b := by
  obtain ⟨t', new, hn⟩ := S.moved h
  obtain ⟨t, ht, hb⟩ := Option.bind_eq_some_iff.1 hw
  have hlt := (List.getElem?_eq_some_iff.1 ht).1
  rw [System.wanted, hn, List.getElem?_append_left (by rwa [List.length_set]),
    List.getElem?_set_ne hij, ht]
  exact hb

theorem InLine.waits (h : InLine S q) (hs : S.move q.state i o = some s)
    (hb : S.wanted q.state i ≠ some c) (hj : j ∈ q.queue c) : S.wanted s j = some c := by
  have hj := h.waiting c j hj
  refine System.wanted_move hs ?_ hj
  rintro rfl
  exact hb hj

end

section
variable [DecidableEq β] {S : System σ τ β ε ω} {q q' : Queued σ β}

theorem step_wait (h : step S q (.wait i) = some q') :
    ∃ b, S.wanted q.state i = some b ∧ i ∉ q.queue b ∧
      q' = ⟨q.state, Function.update q.queue b (q.queue b ++ [i])⟩ := by
  simp only [step] at h
  split at h
  · cases h
  · rename_i b hb
    split at h
    · cases h
    · rename_i hi
      cases h
      exact ⟨b, hb, hi, rfl⟩

theorem step_run (h : step S q (.run i o) = some q') :
    ∃ s, S.move q.state i o = some s ∧
      (S.wanted q.state i = none ∧ q' = ⟨s, q.queue⟩ ∨
        ∃ b, S.wanted q.state i = some b ∧
          ((q.queue b).head? = some i ∨ S.leaves q.state i o = true) ∧
          q' = ⟨s, Function.update q.queue b ((q.queue b).erase i)⟩) := by
  simp only [step] at h
  split at h
  · rename_i hw
    obtain ⟨s, hs, rfl⟩ := Option.map_eq_some_iff.1 h
    exact ⟨s, hs, .inl ⟨hw, rfl⟩⟩
  · rename_i b hb
    split at h
    · rename_i hturn
      obtain ⟨s, hs, rfl⟩ := Option.map_eq_some_iff.1 h
      exact ⟨s, hs, .inr ⟨b, hb, hturn, rfl⟩⟩
    · cases h

/-- The queues only remove behaviour: if requests and moves are steps of `T`, every run under the
queues leads where a run of `T` does. -/
theorem run_plain {T : σ → α → Option σ}
    (henter : ∀ {s e s'}, S.enter s e = some s' → ∃ a, T s a = some s')
    (hmove : ∀ {s i o s'}, S.move s i o = some s' → ∃ a, T s a = some s')
    (h : run (step S) q acts = some q') : ∃ plain, run T q.state plain = some q'.state := by
  have hgo : ∀ {s s'}, (∃ plain, run T q.state plain = some s) → (∃ a, T s a = some s') →
      ∃ plain, run T q.state plain = some s' := by
    rintro s s' ⟨plain, hp⟩ ⟨a, ha⟩
    exact ⟨plain ++ [a], run_append.2 ⟨s, hp, run_cons.2 ⟨s', ha, rfl⟩⟩⟩
  apply run_preserves (fun q₁ => ∃ plain, run T q.state plain = some q₁.state) _ ⟨[], rfl⟩ h
  intro q₁ q₂ a hi hs
  cases a with
  | enter e =>
    obtain ⟨s, he, rfl⟩ := Option.map_eq_some_iff.1 hs
    exact hgo hi (henter he)
  | wait i =>
    obtain ⟨_, _, _, rfl⟩ := step_wait hs
    exact hi
  | run i o =>
    obtain ⟨s, hm, ⟨_, rfl⟩ | ⟨_, _, _, rfl⟩⟩ := step_run hs
    · exact hgo hi (hmove hm)
    · exact hgo hi (hmove hm)

theorem InLine.update (h : InLine S q) (hothers : ∀ c, c ≠ b → ∀ i ∈ q.queue c,
    S.wanted s i = some c) (hn : l.Nodup) (hl : ∀ i ∈ l, S.wanted s i = some b) :
    InLine S ⟨s, Function.update q.queue b l⟩ := by
  constructor
  · intro c
    by_cases hc : c = b
    · subst hc
      simpa only [Function.update_self] using hn
    · simpa only [Function.update_of_ne hc] using h.nodup c
  · intro c
    by_cases hc : c = b
    · subst hc
      simpa only [Function.update_self] using hl
    · simpa only [Function.update_of_ne hc] using hothers c hc

theorem InLine.wait (h : InLine S q) (hb : S.wanted q.state i = some b) (hi : i ∉ q.queue b) :
    InLine S ⟨q.state, Function.update q.queue b (q.queue b ++ [i])⟩ := by
  apply h.update (fun c _ => h.waiting c)
  · rw [← List.concat_eq_append]
    exact (List.nodup_concat _ i).2 ⟨hi, h.nodup b⟩
  · intro j hj
    obtain hj | hj := List.mem_append.1 hj
    · exact h.waiting b j hj
    · rw [List.mem_singleton.1 hj]
      exact hb

theorem InLine.step (h : InLine S q) (hs : FairLocks.step S q a = some q') : InLine S q' := by
  cases a with
  | enter e =>
    obtain ⟨s, he, rfl⟩ := Option.map_eq_some_iff.1 hs
    exact ⟨h.nodup, fun b i hi => System.wanted_enter he (h.waiting b i hi)⟩
  | wait i =>
    obtain ⟨b, hb, hi, rfl⟩ := step_wait hs
    exact h.wait hb hi
  | run i o =>
    obtain ⟨s, hm, ⟨hw, rfl⟩ | ⟨b, hb, _, rfl⟩⟩ := step_run hs
    · refine ⟨h.nodup, ?_⟩
      intro c j hj
      refine h.waits hm ?_ hj
      rw [hw]
      intro he
      cases he
    · have hn := h.nodup b
      apply h.update _ (hn.erase i)
      · intro j hj
        obtain ⟨hji, hj⟩ := hn.mem_erase_iff.1 hj
        exact System.wanted_move hm (Ne.symm hji) (h.waiting b j hj)
      · intro c hc j hj
        refine h.waits hm ?_ hj
        rw [hb]
        intro he
        exact hc (Option.some.inj he).symm

theorem InLine.of_run (h : run (FairLocks.step S) ⟨s, fun _ => []⟩ acts = some q) : InLine S q := by
  refine run_preserves (InLine S) (fun hl hs => hl.step hs) ?_ h
  exact ⟨fun _ => List.nodup_nil, fun b i hi => absurd hi List.not_mem_nil⟩

theorem step_of_free (hw : S.wanted q.state i = none) (hs : S.move q.state i o = some s) :
    step S q (.run i o) = some ⟨s, q.queue⟩ := by
  simp only [step, hw, hs, Option.map_some]

theorem step_of_head (hb : S.wanted q.state i = some b) (hq : q.queue b = i :: rest)
    (hs : S.move q.state i o = some s) :
    step S q (.run i o) = some ⟨s, Function.update q.queue b rest⟩ := by
  simp only [step, hb, hq, hs, List.head?_cons, true_or, if_true, Option.map_some,
    List.erase_cons_head]

theorem step_of_leave (hb : S.wanted q.state i = some b) (hl : S.leaves q.state i o = true)
    (hs : S.move q.state i o = some s) :
    step S q (.run i o) = some ⟨s, Function.update q.queue b ((q.queue b).erase i)⟩ := by
  simp only [step, hb, hl, hs, or_true, if_true, Option.map_some]

theorem step_of_wait (hb : S.wanted q.state i = some b) (hi : i ∉ q.queue b) :
    step S q (.wait i) = some ⟨q.state, Function.update q.queue b (q.queue b ++ [i])⟩ := by
  simp only [step, hb, if_neg hi]

/-- One or two steps of the tasks that are there bring them nearer to their ends. -/
theorem Ranked.proceeds (h : Ranked S I Φ) (hq : InLine S q) (hi : I q.state)
    (hpos : 0 < Φ q.state) :
    ∃ acts q', run (FairLocks.step S) q acts = some q' ∧
      AllSteps (FairLocks.step S) Internal q acts ∧ I q'.state ∧ Φ q'.state < Φ q.state := by
  have hone : ∀ {i o s queue}, S.move q.state i o = some s →
      FairLocks.step S q (.run i o) = some ⟨s, queue⟩ → Φ s < Φ q.state →
      ∃ acts q', run (FairLocks.step S) q acts = some q' ∧
        AllSteps (FairLocks.step S) Internal q acts ∧ I q'.state ∧ Φ q'.state < Φ q.state := by
    intro i o s queue hm hs hlt
    exact ⟨[.run i o], ⟨s, queue⟩, run_cons.2 ⟨_, hs, rfl⟩,
      (allSteps_cons hs).2 ⟨trivial, trivial⟩, h.keeps hi hm, hlt⟩
  obtain ⟨i, o, s, hw, hs, hlt⟩ | ⟨b, ⟨i, hb⟩, hall⟩ := h.progress hi hpos
  · exact hone hs (step_of_free hw hs) hlt
  · cases hqueue : q.queue b with
    | cons j rest =>
      -- the first of the queue has its turn
      have hj : S.wanted q.state j = some b :=
        hq.waiting b j (by rw [hqueue]; exact List.mem_cons_self)
      obtain ⟨o, s, hs, hlt⟩ := hall j hj
      exact hone hs (step_of_head hj hqueue hs) hlt
    | nil =>
      obtain ⟨o, s, hs, hlt⟩ := hall i hb
      have hwait := step_of_wait hb (q := q) (by rw [hqueue]; exact List.not_mem_nil)
      have hturn : Function.update q.queue b (q.queue b ++ [i]) b = [i] := by
        rw [Function.update_self, hqueue]
        rfl
      have hrun := step_of_head (q := ⟨q.state, Function.update q.queue b (q.queue b ++ [i])⟩)
        hb hturn hs
      exact ⟨[.wait i, .run i o], _, run_cons.2 ⟨_, hwait, run_cons.2 ⟨_, hrun, rfl⟩⟩,
        (allSteps_cons hwait).2 ⟨trivial, (allSteps_cons hrun).2 ⟨trivial, trivial⟩⟩,
        h.keeps hi hs, hlt⟩

/-- The tasks that are there can all run to their ends, and then nobody waits. -/
theorem Ranked.drains (h : Ranked S I Φ) (hq : InLine S q) (hi : I q.state) :
    ∃ acts q', run (FairLocks.step S) q acts = some q' ∧
      AllSteps (FairLocks.step S) Internal q acts ∧ (∀ b, q'.queue b = []) ∧ I q'.state ∧
      Φ q'.state = 0 := by
  obtain ⟨acts, q', hr, hall, ⟨hline, hi'⟩, hzero⟩ := exists_run_of_runs (P := Internal)
    (fun q' => InLine S q' ∧ I q'.state) (fun q' => Φ q'.state = 0) (fun q' => Φ q'.state)
    (by
      rintro q₁ ⟨hline, hi₁⟩ hpos
      obtain ⟨acts, q₂, hr, hall, hi₂, hlt⟩ :=
        h.proceeds hline hi₁ (Nat.pos_of_ne_zero hpos)
      exact ⟨acts, q₂, hr, hall, ⟨run_preserves _ (fun hl hs => hl.step hs) hline hr, hi₂⟩, hlt⟩)
    ⟨hq, hi⟩
  refine ⟨acts, q', hr, hall, ?_, hi', hzero⟩
  intro b
  rw [List.eq_nil_iff_forall_not_mem]
  intro i hi
  cases (h.rest hi' hzero i).symm.trans (hline.waiting b i hi)

end

end FairLocks
