import Octoproxy.Client

namespace Octoproxy
open TaskPool Transition
set_option autoImplicit true

def streamedOn (p : Pool (Client SR) (ClientTask SR)) :
    Act ClientRequest (ClientOutcome SR) → Option Nat
  | .run i _ => match p.tasks[i]? with
    | some (.newStreamFut _ (.checked conn _)) => some conn
    | _ => none
  | .enter _ => none

/-- The step ends a `reset_client` that has had the mutex. -/
def EndsReset (p : Pool (Client SR) (ClientTask SR))
    (a : Act ClientRequest (ClientOutcome SR)) : Prop :=
  Resets p a ∨ ∃ i o, a = .run i o ∧ p.tasks[i]? = some (.resetClient .locked) ∧
    p.state.inner = .notConnected

def ResetWithin (p : Pool (Client SR) (ClientTask SR))
    (acts : List (Act ClientRequest (ClientOutcome SR))) : Prop :=
  ∃ before a after q, acts = before ++ a :: after ∧
    run (clientTasks SR).step p before = some q ∧ EndsReset q a

/-- The connections below `n` are behind: none of them is stored or will be made. -/
structure Client.Behind (n : Nat) (s : Client SR) : Prop where
  made : n ≤ s.handles.length
  stored : ∀ conn client, s.inner = .connected conn client → n ≤ conn

section
variable {s : Client SR} {t : ClientTask SR} {p p' q : Pool (Client SR) (ClientTask SR)}
  {acts : List (Act ClientRequest (ClientOutcome SR))}

theorem ClientTask.Step.handles_le (h : t.Step s free o m) :
    s.handles.length ≤ m.state.handles.length := by
  cases h with
  | established => simp
  | abort hi => simp [Client.abort]
  | finish => simp [Client.finish]
  | _ => exact Nat.le_refl _

theorem ClientTask.Step.behind (h : t.Step s free o m) (hn : s.Behind n) : m.state.Behind n := by
  refine ⟨Nat.le_trans hn.made h.handles_le, ?_⟩
  cases h with
  | interrupted => exact nofun
  | refused => exact nofun
  | store => exact nofun
  | established =>
    rintro conn client ⟨⟩
    exact hn.made
  | _ => exact hn.stored

theorem Client.Behind.step (hn : p.state.Behind n) (h : (clientTasks SR).step p a = some p') :
    p'.state.Behind n := by
  cases a with
  | enter r =>
    cases h
    exact hn
  | run i o =>
    obtain ⟨t, m, _, hm, rfl⟩ := client_step h
    exact hm.behind hn

theorem Client.Behind.run (hn : p.state.Behind n)
    (h : Transition.run (clientTasks SR).step p acts = some p') : p'.state.Behind n :=
  run_preserves (fun p => p.state.Behind n) (fun hi hs => hi.step hs) hn h

theorem ClientOrderly.streamedOn (h : ClientOrderly p) (ha : streamedOn p a = some conn) :
    ∃ client, p.state.inner = .connected conn client := by
  cases a with
  | enter r => cases ha
  | run i o =>
    simp only [Octoproxy.streamedOn] at ha
    split at ha
    · rename_i host conn' client ht
      cases ha
      exact ⟨client, h.fits _ (List.mem_of_getElem? ht)⟩
    · cases ha

theorem EndsReset.notConnected (h : EndsReset p a) (hs : (clientTasks SR).step p a = some p') :
    p'.state.inner = .notConnected := by
  obtain ⟨i, o, rfl, hi⟩ | ⟨i, o, rfl, hi, hinner⟩ := h
  · obtain ⟨t, m, ht, hm, rfl⟩ := client_step hs
    cases ht.symm.trans hi
    cases hm with
    | store => rfl
  · obtain ⟨t, m, ht, hm, rfl⟩ := client_step hs
    cases ht.symm.trans hi
    cases hm with
    | abort hc => cases hinner.symm.trans hc
    | resetIdle _ => exact hinner
    | resetPoisoned hc => cases hinner.symm.trans hc

theorem EndsReset.behind (h : EndsReset p a) (hs : (clientTasks SR).step p a = some p') :
    p'.state.Behind p'.state.handles.length := by
  refine ⟨Nat.le_refl _, ?_⟩
  intro conn client hc
  cases (h.notConnected hs).symm.trans hc

theorem handles_le_of_run (h : run (clientTasks SR).step p acts = some p') :
    p.state.handles.length ≤ p'.state.handles.length := by
  apply run_preserves (fun q => p.state.handles.length ≤ q.state.handles.length) _ (Nat.le_refl _) h
  intro q q' a hle hs
  cases a with
  | enter r =>
    cases hs
    exact hle
  | run i o =>
    obtain ⟨t, m, _, hm, rfl⟩ := client_step hs
    exact Nat.le_trans hle hm.handles_le

theorem ResetWithin.behind (h : ResetWithin p acts)
    (hr : run (clientTasks SR).step p acts = some p') : p'.state.Behind p.state.handles.length := by
  obtain ⟨before, a, after, q, rfl, hq, ha⟩ := h
  obtain ⟨u, hu, hr⟩ := run_append.1 hr
  cases hq.symm.trans hu
  obtain ⟨v, hv, hr⟩ := run_cons.1 hr
  have hle := handles_le_of_run (run_append.2 ⟨q, hq, run_cons.2 ⟨v, hv, run_nil v⟩⟩)
  have hb := (ha.behind hv).run hr
  refine ⟨Nat.le_trans hle hb.made, ?_⟩
  intro conn client hc
  exact Nat.le_trans hle (hb.stored conn client hc)

theorem ClientOrderly.behind (h : ClientOrderly p) (hi : p.state.inner = .connected conn client) :
    p.state.Behind conn := by
  refine ⟨Nat.le_of_lt (h.accounted.stored conn client hi), ?_⟩
  intro conn' client' hi'
  cases hi.symm.trans hi'
  exact Nat.le_refl _

end

/-- Of two streams the later one is on the same connection or on a newer one: a newer one only
when the older has finished or been aborted, and always when a reset has ended in between. -/
theorem streams_advance (before between : List (Act ClientRequest (ClientOutcome SR)))
    (a b : Act ClientRequest (ClientOutcome SR)) (q q' : Pool (Client SR) (ClientTask SR))
    (conn conn' : Nat) (hq : clientAfter before = some q)
    (hq' : run (clientTasks SR).step q (a :: between) = some q')
    (ha : streamedOn q a = some conn) (hb : streamedOn q' b = some conn') :
    conn ≤ conn' ∧ (conn ≠ conn' → q'.state.Ended conn) ∧
      (ResetWithin q (a :: between) → conn < conn') := by
  have ho := clientAfter_orderly hq
  have ho' : ClientOrderly q' := run_preserves ClientOrderly (fun h hs => h.step hs) ho hq'
  obtain ⟨client, hi⟩ := ho.streamedOn ha
  obtain ⟨client', hi'⟩ := ho'.streamedOn hb
  have hlt := ho.accounted.stored conn client hi
  refine ⟨?_, ?_, ?_⟩
  · exact ((ho.behind hi).run hq').stored conn' client' hi'
  · intro hne
    apply ho'.accounted.ended conn (Nat.lt_of_lt_of_le hlt (handles_le_of_run hq'))
    intro client'' hc
    cases hi'.symm.trans hc
    exact hne rfl
  · intro hreset
    exact Nat.lt_of_lt_of_le hlt ((hreset.behind hq').stored conn' client' hi')

/-- A stream is created, the client is reset, and the next stream needs a connection of its own. -/
def visitBeforeReset : List (Act ClientRequest (ClientOutcome Nat)) :=
  [.enter (.newStreamFut none), .run 0 (.ok 0), .run 0 (.ok 0), .run 0 (.ok 7), .run 0 (.ok 0)]

def visitAfterReset : List (Act ClientRequest (ClientOutcome Nat)) :=
  [.enter .resetClient, .run 2 (.ok 0), .run 2 (.ok 0), .run 2 (.ok 0),
    .enter (.newStreamFut none), .run 3 (.ok 0), .run 3 (.ok 0), .run 3 (.ok 8), .run 3 (.ok 0)]

theorem visitAfterReset_advances : ∃ q q', clientAfter visitBeforeReset = some q ∧
    run (clientTasks Nat).step q (.run 0 (.ok 0) :: visitAfterReset) = some q' ∧
    streamedOn q (.run 0 (.ok 0)) = some 0 ∧ streamedOn q' (.run 3 (.ok 0)) = some 1 ∧
    q'.state.Ended 0 := by
  refine ⟨_, _, rfl, rfl, rfl, rfl, ?_⟩
  obtain ⟨_, hended, _⟩ := streams_advance visitBeforeReset visitAfterReset (.run 0 (.ok 0))
    (.run 3 (.ok 0)) _ _ 0 1 rfl rfl rfl rfl
  exact hended (by decide)

end Octoproxy
