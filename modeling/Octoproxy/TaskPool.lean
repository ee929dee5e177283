import Mathlib.Data.List.Basic
import Octoproxy.Transition

namespace TaskPool
set_option autoImplicit true

/-- How a task holds the lock of the shared state. -/
inductive Hold where
  | released
  | read
  | write
deriving DecidableEq

structure Pool (σ τ : Type) where
  state : σ
  tasks : List τ

/-- What one step of a task leaves: the shared state, the task, and the tasks it spawned. -/
structure Move (σ τ : Type) where
  state : σ
  task : τ
  spawned : List τ

inductive Act (ε ω : Type) where
  | enter (e : ε)
  | run (i : Nat) (o : ω)

/-- The code of the tasks. A move is told whether the lock can be taken for reading and for
writing. -/
structure Program (σ τ ε ω : Type) where
  hold : τ → Hold
  entry : ε → τ
  move : σ → Bool → Bool → τ → ω → Option (Move σ τ)

def Pool.spawn (p : Pool σ τ) (t : τ) : Pool σ τ := ⟨p.state, p.tasks ++ [t]⟩

def Pool.advance (p : Pool σ τ) (i : Nat) (m : Move σ τ) : Pool σ τ :=
  ⟨m.state, p.tasks.set i m.task ++ m.spawned⟩

namespace Program

variable (P : Program σ τ ε ω)

def readable (p : Pool σ τ) : Bool := p.tasks.all fun t => P.hold t != .write

def writable (p : Pool σ τ) : Bool := p.tasks.all fun t => P.hold t == .released

def step (p : Pool σ τ) : Act ε ω → Option (Pool σ τ)
  | .enter e => some (p.spawn (P.entry e))
  | .run i o => do
    let t ← p.tasks[i]?
    let m ← P.move p.state (P.readable p) (P.writable p) t o
    return p.advance i m

variable {P}

theorem step_run {p p' : Pool σ τ} (h : P.step p (.run i o) = some p') :
    ∃ t m, p.tasks[i]? = some t ∧
      P.move p.state (P.readable p) (P.writable p) t o = some m ∧ p' = p.advance i m := by
  obtain ⟨t, ht, h⟩ := Option.bind_eq_some_iff.1 h
  obtain ⟨m, hm, h⟩ := Option.bind_eq_some_iff.1 h
  cases h
  exact ⟨t, m, ht, hm, rfl⟩

theorem step_of_move {p : Pool σ τ} (ht : p.tasks[i]? = some t)
    (hm : P.move p.state (P.readable p) (P.writable p) t o = some m) :
    P.step p (.run i o) = some (p.advance i m) := by
  simp only [step, ht, hm, Option.bind_eq_bind, Option.bind_some, Option.pure_def]

end Program

variable {p : Pool σ τ} {Q : τ → Prop}

theorem forall_spawn (h : ∀ u ∈ p.tasks, Q u) (ht : Q t) : ∀ u ∈ (p.spawn t).tasks, Q u := by
  intro u hu
  obtain hu | hu := List.mem_append.1 hu
  · exact h u hu
  · rw [List.mem_singleton.1 hu]
    exact ht

theorem exists_spawn (h : ∃ u ∈ p.tasks, Q u) : ∃ u ∈ (p.spawn t).tasks, Q u := by
  obtain ⟨u, hu, hq⟩ := h
  exact ⟨u, List.mem_append_left _ hu, hq⟩

theorem getElem?_of_spawn {j : Nat} (h : (p.spawn t).tasks[j]? = some u) :
    p.tasks[j]? = some u ∨ u = t := by
  rw [Pool.spawn, List.getElem?_append] at h
  split at h
  · exact .inl h
  · exact .inr (List.mem_singleton.1 (List.mem_of_getElem? h))

theorem mem_advance (h : u ∈ (p.advance i m).tasks) :
    u = m.task ∨ u ∈ m.spawned ∨ u ∈ p.tasks := by
  obtain h | h := List.mem_append.1 h
  · obtain h | h := List.mem_or_eq_of_mem_set h
    · exact .inr (.inr h)
    · exact .inl h
  · exact .inr (.inl h)

theorem task_mem_advance (ht : p.tasks[i]? = some t) : m.task ∈ (p.advance i m).tasks := by
  have hi := (List.getElem?_eq_some_iff.1 ht).1
  exact List.mem_append_left _ (List.mem_set hi _)

theorem spawned_mem_advance (h : u ∈ m.spawned) : u ∈ (p.advance i m).tasks :=
  List.mem_append_right _ h

theorem getElem?_advance (ht : p.tasks[i]? = some t) :
    (p.advance i m).tasks[i]? = some m.task := by
  have hi := (List.getElem?_eq_some_iff.1 ht).1
  rw [Pool.advance, List.getElem?_append_left (by rwa [List.length_set])]
  exact List.getElem?_set_self hi

theorem getElem?_advance_ne (hij : i ≠ j) (hj : p.tasks[j]? = some u) :
    (p.advance i m).tasks[j]? = some u := by
  have hl := (List.getElem?_eq_some_iff.1 hj).1
  rw [Pool.advance, List.getElem?_append_left (by rwa [List.length_set]), List.getElem?_set_ne hij]
  exact hj

theorem getElem?_of_advance (hi : i < p.tasks.length)
    (h : (p.advance i m).tasks[j]? = some u) :
    i = j ∧ u = m.task ∨ i ≠ j ∧ p.tasks[j]? = some u ∨ u ∈ m.spawned := by
  rw [Pool.advance, List.getElem?_append] at h
  split at h
  · by_cases hij : i = j
    · subst hij
      rw [List.getElem?_set_self hi] at h
      exact .inl ⟨rfl, (Option.some.inj h).symm⟩
    · rw [List.getElem?_set_ne hij] at h
      exact .inr (.inl ⟨hij, h⟩)
  · exact .inr (.inr (List.mem_of_getElem? h))

theorem mem_advance_of_mem (ht : p.tasks[i]? = some t) (h : u ∈ p.tasks) :
    u = t ∨ u ∈ (p.advance i m).tasks := by
  obtain ⟨j, hj⟩ := List.mem_iff_getElem?.1 h
  by_cases hij : i = j
  · subst hij
    exact .inl (Option.some.inj (hj.symm.trans ht))
  · refine .inr (List.mem_append_left _ (List.mem_iff_getElem?.2 ⟨j, ?_⟩))
    rw [List.getElem?_set_ne hij]
    exact hj

/-- What every task satisfies is kept if the stepping task and what it spawns keep it. -/
theorem forall_advance (ht : p.tasks[i]? = some t) (h : ∀ u ∈ p.tasks, Q u)
    (htask : Q t → Q m.task) (hsp : ∀ u ∈ m.spawned, Q u) :
    ∀ u ∈ (p.advance i m).tasks, Q u := by
  intro u hu
  obtain rfl | hu | hu := mem_advance hu
  · exact htask (h t (List.mem_of_getElem? ht))
  · exact hsp u hu
  · exact h u hu

theorem exists_advance (ht : p.tasks[i]? = some t) (h : ∃ u ∈ p.tasks, Q u)
    (htask : Q t → Q m.task ∨ ∃ u ∈ m.spawned, Q u) :
    ∃ u ∈ (p.advance i m).tasks, Q u := by
  obtain ⟨u, hu, hq⟩ := h
  obtain rfl | hu := mem_advance_of_mem ht hu
  · obtain hq | ⟨v, hv, hq⟩ := htask hq
    · exact ⟨m.task, task_mem_advance ht, hq⟩
    · exact ⟨v, spawned_mem_advance hv, hq⟩
  · exact ⟨u, hu, hq⟩

theorem map_set_same {l : List α} {f : α → β} (hu : l[i]? = some u) (h : f u' = f u) :
    (l.set i u').map f = l.map f := by
  apply List.ext_getElem?
  intro j
  rw [List.getElem?_map, List.getElem?_map]
  by_cases hij : i = j
  · subst hij
    rw [List.getElem?_set_self (List.getElem?_eq_some_iff.1 hu).1, hu]
    exact congrArg some h
  · rw [List.getElem?_set_ne hij]

def total (f : τ → Nat) : List τ → Nat
  | [] => 0
  | t :: ts => f t + total f ts

theorem total_append (f : τ → Nat) (ts us : List τ) :
    total f (ts ++ us) = total f ts + total f us := by
  induction ts with
  | nil => exact (Nat.zero_add _).symm
  | cons t ts ih => rw [List.cons_append, total, total, ih, Nat.add_assoc]

theorem total_spawn (f : τ → Nat) (t : τ) :
    total f (p.spawn t).tasks = total f p.tasks + f t :=
  total_append f p.tasks [t]

theorem total_set (f : τ → Nat) {ts : List τ} (ht : ts[i]? = some t) (t' : τ) :
    total f (ts.set i t') + f t = total f ts + f t' := by
  induction ts generalizing i with
  | nil => cases List.getElem?_nil.symm.trans ht
  | cons x xs ih =>
    cases i with
    | zero =>
      cases ht
      simp only [List.set_cons_zero, total]
      omega
    | succ i =>
      have := ih ht
      simp only [List.set_cons_succ, total]
      omega

theorem total_le {f g : τ → Nat} {ts : List τ} (h : ∀ t ∈ ts, g t ≤ f t) :
    total g ts ≤ total f ts := by
  induction ts with
  | nil => exact Nat.le_refl 0
  | cons t ts ih =>
    have hhead := h t List.mem_cons_self
    have htail := ih fun u hu => h u (List.mem_cons_of_mem t hu)
    simp only [total]
    omega

/-- One number falls, and no other one rises. -/
theorem total_set_lt {f g : τ → Nat} {ts : List τ} (ht : ts[i]? = some t) (hlt : g t' < f t)
    (hle : ∀ (j : Nat) u, i ≠ j → ts[j]? = some u → g u ≤ f u) :
    total g (ts.set i t') < total f ts := by
  induction ts generalizing i with
  | nil => cases List.getElem?_nil.symm.trans ht
  | cons x xs ih =>
    cases i with
    | zero =>
      cases ht
      have htail : total g xs ≤ total f xs := by
        apply total_le
        intro u hu
        obtain ⟨j, hj⟩ := List.mem_iff_getElem?.1 hu
        exact hle (j + 1) u (Nat.zero_ne_add_one j) hj
      simp only [List.set_cons_zero, total]
      omega
    | succ i =>
      have hhead := hle 0 x (Nat.succ_ne_zero i) rfl
      have htail := ih ht fun j u hij hj => hle (j + 1) u (fun h => hij (Nat.succ.inj h)) hj
      simp only [List.set_cons_succ, total]
      omega

theorem total_advance (f : τ → Nat) (ht : p.tasks[i]? = some t) :
    total f (p.advance i m).tasks + f t = total f p.tasks + f m.task + total f m.spawned := by
  have := total_set f ht m.task
  rw [Pool.advance, total_append]
  omega

theorem exists_of_total_pos {ts : List τ} (h : 0 < total f ts) :
    ∃ (i : Nat) (t : τ), ts[i]? = some t ∧ 0 < f t := by
  induction ts with
  | nil => cases h
  | cons t ts ih =>
    by_cases ht : 0 < f t
    · exact ⟨0, t, rfl, ht⟩
    · have hts : 0 < total f ts := by
        simp only [total] at h
        omega
      obtain ⟨i, u, hu, hr⟩ := ih hts
      exact ⟨i + 1, u, hu, hr⟩

theorem rank_of_total {ts : List τ} (h : total f ts = 0) (ht : t ∈ ts) : f t = 0 := by
  induction ht with
  | head ts =>
    simp only [total] at h
    omega
  | tail u _ ih =>
    simp only [total] at h
    exact ih (by omega)

def Exclusive (hold : τ → Hold) (p : Pool σ τ) : Prop :=
  ∀ (i j : Nat) t u, p.tasks[i]? = some t → p.tasks[j]? = some u → hold t = .write →
    hold u ≠ .released → i = j

theorem exclusive_nil (hold : τ → Hold) (s : σ) : Exclusive hold ⟨s, []⟩ := by
  intro i j t u hi
  cases List.getElem?_nil.symm.trans hi

/-- No task takes the lock unless it has been told that it can. -/
structure Program.Locks (P : Program σ τ ε ω) : Prop where
  entry : ∀ e, P.hold (P.entry e) = .released
  spawned : ∀ {s r w t o m}, P.move s r w t o = some m → ∀ u ∈ m.spawned, P.hold u = .released
  read : ∀ {s r w t o m}, P.move s r w t o = some m → P.hold m.task = .read →
    P.hold t = .read ∨ r = true
  write : ∀ {s r w t o m}, P.move s r w t o = some m → P.hold m.task = .write →
    P.hold t = .write ∨ w = true

section
variable {P : Program σ τ ε ω}

theorem Program.readable_ne (h : P.readable p = true) (hu : u ∈ p.tasks) : P.hold u ≠ .write := by
  have := List.all_eq_true.1 h u hu
  simpa only [bne_iff_ne] using this

theorem Program.exists_writer (h : P.readable p = false) :
    ∃ (i : Nat) (t : τ), p.tasks[i]? = some t ∧ P.hold t = .write := by
  obtain ⟨t, ht, hw⟩ := List.all_eq_false.1 h
  obtain ⟨i, hi⟩ := List.mem_iff_getElem?.1 ht
  exact ⟨i, t, hi, by simpa only [bne_iff_ne, not_not] using hw⟩

theorem Program.writable_eq (h : P.writable p = true) (hu : u ∈ p.tasks) :
    P.hold u = .released := by
  have := List.all_eq_true.1 h u hu
  simpa only [beq_iff_eq] using this

theorem Program.readable_of (h : ∀ u ∈ p.tasks, P.hold u ≠ .write) : P.readable p = true :=
  List.all_eq_true.2 fun u hu => bne_iff_ne.2 (h u hu)

theorem Program.writable_of (h : ∀ u ∈ p.tasks, P.hold u = .released) : P.writable p = true :=
  List.all_eq_true.2 fun u hu => beq_iff_eq.2 (h u hu)

theorem Program.readable_of_writable (h : P.writable p = true) : P.readable p = true := by
  apply readable_of
  intro u hu hw
  cases (writable_eq h hu).symm.trans hw

theorem Exclusive.readable (h : Exclusive P.hold p) (ht : p.tasks[i]? = some t)
    (hw : P.hold t = .write) (hm : P.hold m.task ≠ .write)
    (hsp : ∀ u ∈ m.spawned, P.hold u ≠ .write) : P.readable (p.advance i m) = true := by
  apply Program.readable_of
  intro u hu
  obtain ⟨j, hj⟩ := List.mem_iff_getElem?.1 hu
  obtain ⟨_, rfl⟩ | ⟨hij, hj⟩ | hu := getElem?_of_advance (List.getElem?_eq_some_iff.1 ht).1 hj
  · exact hm
  · intro hwu
    apply hij
    apply h i j t u ht hj hw
    rw [hwu]
    exact nofun
  · exact hsp u hu

theorem Exclusive.spawn (h : Exclusive hold p) (ht : hold t = .released) :
    Exclusive hold (p.spawn t) := by
  have hold_old : ∀ {j : Nat} {u}, (p.spawn t).tasks[j]? = some u → hold u ≠ .released →
      p.tasks[j]? = some u := by
    intro j u hu hne
    obtain hu | rfl := getElem?_of_spawn hu
    · exact hu
    · exact absurd ht hne
  intro i j a b hi hj hw hb
  apply h i j a b (hold_old hi _) (hold_old hj hb) hw hb
  rw [hw]
  exact nofun

theorem Exclusive.advance (hP : P.Locks) (h : Exclusive P.hold p) (ht : p.tasks[i]? = some t)
    (hm : P.move p.state (P.readable p) (P.writable p) t o = some m) :
    Exclusive P.hold (p.advance i m) := by
  have hi := (List.getElem?_eq_some_iff.1 ht).1
  intro j k a b hj hk hw hb
  have hwne : P.hold a ≠ .released := by
    rw [hw]
    exact nofun
  obtain ⟨rfl, rfl⟩ | ⟨hij, hj⟩ | hj := getElem?_of_advance hi hj
  · obtain ⟨rfl, rfl⟩ | ⟨hik, hk⟩ | hk := getElem?_of_advance hi hk
    · rfl
    · obtain hold | hfree := hP.write hm hw
      · exact h _ _ _ _ ht hk hold hb
      · exact absurd (Program.writable_eq hfree (List.mem_of_getElem? hk)) hb
    · exact absurd (hP.spawned hm _ hk) hb
  · obtain ⟨rfl, rfl⟩ | ⟨hik, hk⟩ | hk := getElem?_of_advance hi hk
    · cases hb' : P.hold m.task with
      | released => exact absurd hb' hb
      | read =>
        obtain hold | hfree := hP.read hm hb'
        · exact h _ _ _ _ hj ht hw (by rw [hold]; exact nofun)
        · exact absurd hw (Program.readable_ne hfree (List.mem_of_getElem? hj))
      | write =>
        obtain hold | hfree := hP.write hm hb'
        · exact h _ _ _ _ hj ht hw (by rw [hold]; exact nofun)
        · exact absurd (Program.writable_eq hfree (List.mem_of_getElem? hj)) hwne
    · exact h _ _ _ _ hj hk hw hb
    · exact absurd (hP.spawned hm _ hk) hb
  · exact absurd (hP.spawned hm _ hj) hwne

theorem Exclusive.step (hP : P.Locks) (h : Exclusive P.hold p) (hs : P.step p a = some p') :
    Exclusive P.hold p' := by
  cases a with
  | enter e =>
    cases hs
    exact h.spawn (hP.entry e)
  | run i o =>
    obtain ⟨t, m, ht, hm, rfl⟩ := Program.step_run hs
    exact h.advance hP ht hm

end

end TaskPool
