import Octoproxy.ConnectHead
import Octoproxy.TaskPool

namespace Octoproxy
open TaskPool Transition
set_option autoImplicit true

/-- What can be seen of a connection task through its handle. An aborted task may still run until
its next await. -/
structure JoinHandle where
  finished : Bool
  aborted : Bool
deriving DecidableEq

/-- `conn` is the number of a handle, and `client` the send side that came with it. -/
inductive ClientState (SR : Type) where
  | poisoned
  | notConnected
  | connected (conn : Nat) (client : SR)
deriving DecidableEq

/-- The state behind the client's mutex, and the handles of all tasks that `new_connection` has
handed out. -/
structure Client (SR : Type) where
  inner : ClientState SR
  handles : List JoinHandle

/-- Where `new_stream_fut` stands. It waits in `locking` and in `connecting`, and may be dropped
there; `checked` holds what it borrows from the guard. -/
inductive StreamFutPc (SR : Type) where
  | locking
  | looping
  | checked (conn : Nat) (client : SR)
  | connecting
deriving DecidableEq

inductive ResetClientPc where
  | locking
  | locked
  | storing
deriving DecidableEq

/-- A call on the client, the result of one, or a connection task. -/
inductive ClientTask (SR : Type) where
  | newStreamFut (host : Option ConnectHeadBuf) (pc : StreamFutPc SR)
  | resetClient (pc : ResetClientPc)
  | connection (conn : Nat)
  | streamed (conn : Nat) (client : SR) (host : Option ConnectHeadBuf)
  | failed (err : String)
  | finished

inductive ClientRequest where
  | newStreamFut (host : Option ConnectHeadBuf)
  | resetClient

/-- What a call meets where it waits: `new_connection` returns, or the call is dropped. -/
inductive ClientOutcome (SR : Type) where
  | ok (client : SR)
  | err (e : String)
  | dropped

def ClientRequest.task : ClientRequest → ClientTask SR
  | .newStreamFut host => .newStreamFut host .locking
  | .resetClient => .resetClient .locking

/-- The mutex is held from `lock` to the end of the call. -/
def ClientTask.hold : ClientTask SR → Hold
  | .newStreamFut _ .locking => .released
  | .newStreamFut _ _ => .write
  | .resetClient .locking => .released
  | .resetClient _ => .write
  | _ => .released

namespace Client
variable (s : Client SR)

def new : Client SR := ⟨.notConnected, []⟩

def isFinished (conn : Nat) : Bool := s.handles[conn]?.any JoinHandle.finished

def isAborted (conn : Nat) : Bool := s.handles[conn]?.any JoinHandle.aborted

def finish (conn : Nat) : Client SR :=
  { s with handles := s.handles.modify conn fun h => { h with finished := true } }

def abort (conn : Nat) : Client SR :=
  { s with handles := s.handles.modify conn fun h => { h with aborted := true } }

/-- One step of `new_stream_fut`. A connection that has been seen finished, and one that has just
been made, are looked at again. -/
def newStreamFut (free : Bool) (host : Option ConnectHeadBuf) :
    StreamFutPc SR → ClientOutcome SR → Option (Move (Client SR) (ClientTask SR))
  | .locking, .dropped => some ⟨s, .finished, []⟩
  | .locking, _ => if free then some ⟨s, .newStreamFut host .looping, []⟩ else none
  | .looping, _ => match s.inner with
    | .poisoned => some ⟨s, .failed "connection is poisoned", []⟩
    | .connected conn client =>
      if s.isFinished conn then
        some ⟨{ s with inner := .notConnected }, .newStreamFut host .looping, []⟩
      else some ⟨s, .newStreamFut host (.checked conn client), []⟩
    | .notConnected => some ⟨s, .newStreamFut host .connecting, []⟩
  | .checked conn client, _ => some ⟨s, .streamed conn client host, []⟩
  | .connecting, .dropped => some ⟨s, .finished, []⟩
  | .connecting, .err e => some ⟨{ s with inner := .poisoned }, .failed e, []⟩
  | .connecting, .ok client =>
    let conn := s.handles.length
    some ⟨⟨.connected conn client, s.handles ++ [⟨false, false⟩]⟩, .newStreamFut host .looping,
      [.connection conn]⟩

def resetClient (free : Bool) :
    ResetClientPc → ClientOutcome SR → Option (Move (Client SR) (ClientTask SR))
  | .locking, .dropped => some ⟨s, .finished, []⟩
  | .locking, _ => if free then some ⟨s, .resetClient .locked, []⟩ else none
  | .locked, _ => match s.inner with
    | .connected conn _ => some ⟨s.abort conn, .resetClient .storing, []⟩
    | .notConnected => some ⟨s, .finished, []⟩
    | .poisoned => some ⟨s, .resetClient .storing, []⟩
  | .storing, _ => some ⟨{ s with inner := .notConnected }, .finished, []⟩

end Client

def ClientTask.move (s : Client SR) (_ free : Bool) :
    ClientTask SR → ClientOutcome SR → Option (Move (Client SR) (ClientTask SR))
  | .newStreamFut host pc, o => s.newStreamFut free host pc o
  | .resetClient pc, o => s.resetClient free pc o
  | .connection conn, _ => some ⟨s.finish conn, .finished, []⟩
  | _, _ => none

def clientTasks (SR : Type) :
    Program (Client SR) (ClientTask SR) ClientRequest (ClientOutcome SR) where
  hold := ClientTask.hold
  entry := ClientRequest.task
  move := ClientTask.move

inductive ClientTask.Step (s : Client SR) (free : Prop) :
    ClientTask SR → ClientOutcome SR → Move (Client SR) (ClientTask SR) → Prop
  | dropLock : Step s free (.newStreamFut host .locking) .dropped ⟨s, .finished, []⟩
  | lock : free →
      Step s free (.newStreamFut host .locking) o ⟨s, .newStreamFut host .looping, []⟩
  | poisoned : s.inner = .poisoned →
      Step s free (.newStreamFut host .looping) o ⟨s, .failed "connection is poisoned", []⟩
  | interrupted : s.inner = .connected conn client → s.isFinished conn = true →
      Step s free (.newStreamFut host .looping) o
        ⟨{ s with inner := .notConnected }, .newStreamFut host .looping, []⟩
  | check : s.inner = .connected conn client → s.isFinished conn = false →
      Step s free (.newStreamFut host .looping) o ⟨s, .newStreamFut host (.checked conn client), []⟩
  | connect : s.inner = .notConnected →
      Step s free (.newStreamFut host .looping) o ⟨s, .newStreamFut host .connecting, []⟩
  | stream :
      Step s free (.newStreamFut host (.checked conn client)) o ⟨s, .streamed conn client host, []⟩
  | dropConnect : Step s free (.newStreamFut host .connecting) .dropped ⟨s, .finished, []⟩
  | refused : Step s free (.newStreamFut host .connecting) (.err e)
      ⟨{ s with inner := .poisoned }, .failed e, []⟩
  | established : Step s free (.newStreamFut host .connecting) (.ok client)
      ⟨⟨.connected s.handles.length client, s.handles ++ [⟨false, false⟩]⟩,
        .newStreamFut host .looping, [.connection s.handles.length]⟩
  | dropReset : Step s free (.resetClient .locking) .dropped ⟨s, .finished, []⟩
  | lockReset : free → Step s free (.resetClient .locking) o ⟨s, .resetClient .locked, []⟩
  | abort : s.inner = .connected conn client →
      Step s free (.resetClient .locked) o ⟨s.abort conn, .resetClient .storing, []⟩
  | resetIdle : s.inner = .notConnected →
      Step s free (.resetClient .locked) o ⟨s, .finished, []⟩
  | resetPoisoned : s.inner = .poisoned →
      Step s free (.resetClient .locked) o ⟨s, .resetClient .storing, []⟩
  | store :
      Step s free (.resetClient .storing) o ⟨{ s with inner := .notConnected }, .finished, []⟩
  | finish : Step s free (.connection conn) o ⟨s.finish conn, .finished, []⟩

section
variable {s : Client SR}

theorem Client.newStreamFut_step (h : s.newStreamFut free host pc o = some m) :
    ClientTask.Step s free (.newStreamFut host pc) o m := by
  cases pc with
  | locking =>
    cases o with
    | dropped =>
      cases h
      exact .dropLock
    | _ =>
      simp only [Client.newStreamFut] at h
      split at h <;> rename_i hf <;> cases h
      exact .lock hf
  | looping =>
    simp only [Client.newStreamFut] at h
    split at h
    · rename_i hi
      cases h
      exact .poisoned hi
    · rename_i conn client hi
      split at h <;> rename_i hf <;> cases h
      · exact .interrupted hi hf
      · exact .check hi (Bool.eq_false_iff.2 hf)
    · rename_i hi
      cases h
      exact .connect hi
  | checked conn client =>
    cases h
    exact .stream
  | connecting =>
    cases o with
    | dropped =>
      cases h
      exact .dropConnect
    | err e =>
      cases h
      exact .refused
    | ok client =>
      cases h
      exact .established

theorem Client.resetClient_step (h : s.resetClient free pc o = some m) :
    ClientTask.Step s free (.resetClient pc) o m := by
  cases pc with
  | locking =>
    cases o with
    | dropped =>
      cases h
      exact .dropReset
    | _ =>
      simp only [Client.resetClient] at h
      split at h <;> rename_i hf <;> cases h
      exact .lockReset hf
  | locked =>
    simp only [Client.resetClient] at h
    split at h <;> rename_i hi <;> cases h
    · exact .abort hi
    · exact .resetIdle hi
    · exact .resetPoisoned hi
  | storing =>
    cases h
    exact .store

theorem ClientTask.move_step {t : ClientTask SR}
    (h : (clientTasks SR).move s readable free t o = some m) : t.Step s free o m := by
  cases t with
  | newStreamFut host pc => exact Client.newStreamFut_step h
  | resetClient pc => exact Client.resetClient_step h
  | connection conn =>
    cases h
    exact .finish
  | _ => cases h

theorem ClientTask.Step.spawned {t : ClientTask SR} (h : t.Step s free o m) (hu : u ∈ m.spawned) :
    ∃ conn, u = .connection conn := by
  cases h with
  | established => exact ⟨_, List.mem_singleton.1 hu⟩
  | _ => cases hu

theorem ClientTask.Step.hold {t : ClientTask SR} (h : t.Step s free o m)
    (hh : m.task.hold ≠ .released) : t.hold = .write ∨ free := by
  cases h with
  | lock hf => exact .inr hf
  | lockReset hf => exact .inr hf
  | _ => first | exact .inl rfl | exact absurd rfl hh

end

theorem ClientTask.hold_ne_read (t : ClientTask SR) : t.hold ≠ .read := by
  cases t with
  | newStreamFut host pc => cases pc <;> exact nofun
  | resetClient pc => cases pc <;> exact nofun
  | _ => exact nofun

theorem clientTasks_locks (SR : Type) : (clientTasks SR).Locks where
  entry := by
    intro r
    cases r <;> rfl
  spawned := by
    intro s r w t o m h u hu
    obtain ⟨conn, rfl⟩ := (ClientTask.move_step h).spawned hu
    rfl
  read := fun _ hr => absurd hr (ClientTask.hold_ne_read _)
  write := by
    intro s r w t o m h hw
    have hs : t.Step s w o m := ClientTask.move_step h
    have hne : m.task.hold ≠ .released := by
      rw [show m.task.hold = .write from hw]
      exact nofun
    exact hs.hold hne

theorem client_step {p p' : Pool (Client SR) (ClientTask SR)}
    (h : (clientTasks SR).step p (.run i o) = some p') :
    ∃ t m, p.tasks[i]? = some t ∧
      t.Step p.state ((clientTasks SR).writable p) o m ∧ p' = p.advance i m := by
  obtain ⟨t, m, ht, hm, hp⟩ := Program.step_run h
  exact ⟨t, m, ht, ClientTask.move_step hm, hp⟩

def Client.Ended (s : Client SR) (conn : Nat) : Prop :=
  s.isFinished conn = true ∨ s.isAborted conn = true

/-- Of the tasks that were handed out, only the stored one may be left alone. -/
structure Client.Accounted (s : Client SR) : Prop where
  stored : ∀ conn client, s.inner = .connected conn client → conn < s.handles.length
  ended : ∀ conn, conn < s.handles.length → (∀ client, s.inner ≠ .connected conn client) →
    s.Ended conn

def ClientTask.Fits (s : Client SR) : ClientTask SR → Prop
  | .newStreamFut _ (.checked conn client) => s.inner = .connected conn client
  | .newStreamFut _ .connecting => s.inner = .notConnected
  | .resetClient .storing =>
      s.inner = .poisoned ∨
        ∃ conn client, s.inner = .connected conn client ∧ s.isAborted conn = true
  | _ => True

theorem any_modify {l : List α} {f : α → α} {q : α → Bool} (h : ∀ x, q (f x) = q x) (i j : Nat) :
    (l.modify i f)[j]?.any q = l[j]?.any q := by
  rw [List.getElem?_modify]
  cases l[j]? with
  | none => rfl
  | some x =>
    change q (if i = j then f x else x) = q x
    split
    · exact h x
    · rfl

theorem any_modify_of_any {l : List α} {f : α → α} {q : α → Bool} (h : ∀ x, q (f x) = true)
    (i : Nat) {j : Nat} (hj : l[j]?.any q = true) : (l.modify i f)[j]?.any q = true := by
  rw [List.getElem?_modify]
  cases hl : l[j]? with
  | none =>
    rw [hl] at hj
    cases hj
  | some x =>
    rw [hl] at hj
    change q (if i = j then f x else x) = true
    split
    · exact h x
    · exact hj

namespace Client

section
variable {s : Client SR}

theorem isAborted_finish (conn c : Nat) : (s.finish conn).isAborted c = s.isAborted c := by
  apply any_modify
  intro h
  rfl

theorem isFinished_abort (conn c : Nat) : (s.abort conn).isFinished c = s.isFinished c := by
  apply any_modify
  intro h
  rfl

theorem isAborted_abort (h : conn < s.handles.length) : (s.abort conn).isAborted conn = true := by
  simp only [isAborted, abort, List.getElem?_modify, List.getElem?_eq_getElem h]
  rfl

theorem Ended.finish (h : s.Ended c) (conn : Nat) : (s.finish conn).Ended c := by
  obtain h | h := h
  · left
    apply any_modify_of_any _ conn h
    intro x
    rfl
  · exact .inr ((isAborted_finish conn c).trans h)

theorem Ended.abort (h : s.Ended c) (conn : Nat) : (s.abort conn).Ended c := by
  obtain h | h := h
  · exact .inl ((isFinished_abort conn c).trans h)
  · right
    apply any_modify_of_any _ conn h
    intro x
    rfl

theorem Ended.push (h : s.Ended c) (hc : c < s.handles.length) (inner : ClientState SR)
    (x : JoinHandle) : Ended ⟨inner, s.handles ++ [x]⟩ c := by
  unfold Ended isFinished isAborted at h ⊢
  rwa [List.getElem?_append_left hc]

theorem new_accounted : (new : Client SR).Accounted := ⟨nofun, nofun⟩

theorem Accounted.all_ended (h : s.Accounted) (hi : s.inner = .notConnected)
    (hc : conn < s.handles.length) : s.Ended conn := by
  apply h.ended conn hc
  intro client
  rw [hi]
  exact nofun

theorem Accounted.give_up (h : s.Accounted)
    (hi : ∀ conn client, s.inner = .connected conn client → s.Ended conn) :
    ({ s with inner := .notConnected } : Client SR).Accounted := by
  refine ⟨nofun, ?_⟩
  intro conn hc _
  change s.Ended conn
  by_cases hs : ∃ client, s.inner = .connected conn client
  · obtain ⟨client, hs⟩ := hs
    exact hi conn client hs
  · exact h.ended conn hc (not_exists.1 hs)

end

end Client

section
variable {s : Client SR} {t : ClientTask SR}

theorem ClientTask.Step.accounted (h : t.Step s free o m) (ha : s.Accounted) (hf : t.Fits s) :
    m.state.Accounted := by
  cases h with
  | interrupted hi hfin =>
    apply ha.give_up
    intro conn client hc
    cases hi.symm.trans hc
    exact .inl hfin
  | store =>
    apply ha.give_up
    intro conn client hc
    obtain hp | ⟨conn', client', hi, hab⟩ := hf
    · cases hp.symm.trans hc
    · cases hi.symm.trans hc
      exact .inr hab
  | refused =>
    refine ⟨nofun, ?_⟩
    intro conn hc _
    exact ha.all_ended hf hc
  | established =>
    constructor
    · rintro conn client ⟨⟩
      simp
    · intro conn hc hn
      have hne : conn ≠ s.handles.length := by
        rintro rfl
        exact hn _ rfl
      have hlt : conn < s.handles.length := by
        simp only [List.length_append, List.length_singleton] at hc
        omega
      exact (ha.all_ended hf hlt).push hlt _ _
  | abort hi =>
    constructor
    · intro conn client hc
      simpa [Client.abort] using ha.stored conn client hc
    · intro conn hc hn
      have hlt : conn < s.handles.length := by simpa [Client.abort] using hc
      exact (ha.ended conn hlt hn).abort _
  | finish =>
    constructor
    · intro conn client hc
      simpa [Client.finish] using ha.stored conn client hc
    · intro conn hc hn
      have hlt : conn < s.handles.length := by simpa [Client.finish] using hc
      exact (ha.ended conn hlt hn).finish _
  | _ => exact ha

theorem ClientTask.Step.fits (h : t.Step s free o m) (ha : s.Accounted) :
    m.task.Fits m.state := by
  cases h with
  | check hi _ => exact hi
  | connect hi => exact hi
  | abort hi => exact .inr ⟨_, _, hi, Client.isAborted_abort (ha.stored _ _ hi)⟩
  | resetPoisoned hi => exact .inl hi
  | _ => trivial

theorem ClientTask.fits_of_released (h : t.hold = .released) : t.Fits s := by
  cases t with
  | newStreamFut host pc => cases pc <;> trivial
  | resetClient pc => cases pc <;> trivial
  | _ => trivial

theorem ClientTask.Step.keeps_fits (h : t.Step s free o m) (ht : t.hold ≠ .write)
    {u : ClientTask SR} (hu : u.Fits s) : u.Fits m.state := by
  cases h with
  | finish =>
    cases u with
    | newStreamFut host pc => cases pc <;> exact hu
    | resetClient pc =>
      cases pc with
      | storing =>
        obtain hp | ⟨conn, client, hi, hab⟩ := hu
        · exact .inl hp
        · exact .inr ⟨conn, client, hi, (Client.isAborted_finish _ conn).trans hab⟩
      | _ => exact hu
    | _ => exact hu
  | _ => first | exact hu | exact absurd rfl ht

end

structure ClientOrderly (p : Pool (Client SR) (ClientTask SR)) : Prop where
  exclusive : Exclusive ClientTask.hold p
  fits : ∀ u ∈ p.tasks, u.Fits p.state
  accounted : p.state.Accounted

section
variable {p p' : Pool (Client SR) (ClientTask SR)}

theorem ClientOrderly.step (h : ClientOrderly p) (hs : (clientTasks SR).step p a = some p') :
    ClientOrderly p' := by
  refine ⟨h.exclusive.step (clientTasks_locks SR) hs, ?_, ?_⟩
  · cases a with
    | enter r =>
      cases hs
      apply forall_spawn h.fits
      cases r <;> trivial
    | run i o =>
      obtain ⟨t, m, ht, hm, rfl⟩ := client_step hs
      intro u hu
      obtain ⟨j, hj⟩ := List.mem_iff_getElem?.1 hu
      obtain ⟨_, rfl⟩ | ⟨hij, hj⟩ | hsp := getElem?_of_advance (List.getElem?_eq_some_iff.1 ht).1 hj
      · exact hm.fits h.accounted
      · by_cases hw : t.hold = .write
        -- the others are outside the mutex
        · apply ClientTask.fits_of_released
          by_contra hne
          exact hij (h.exclusive i j t u ht hj hw hne)
        · exact hm.keeps_fits hw (h.fits u (List.mem_of_getElem? hj))
      · obtain ⟨conn, rfl⟩ := hm.spawned hsp
        trivial
  · cases a with
    | enter r =>
      cases hs
      exact h.accounted
    | run i o =>
      obtain ⟨t, m, ht, hm, rfl⟩ := client_step hs
      exact hm.accounted h.accounted (h.fits t (List.mem_of_getElem? ht))

theorem new_clientOrderly : ClientOrderly (⟨Client.new, []⟩ : Pool (Client SR) (ClientTask SR)) :=
  ⟨exclusive_nil _ _, nofun, Client.new_accounted⟩

end

def FailsAttempt (p : Pool (Client SR) (ClientTask SR)) (a : Act ClientRequest (ClientOutcome SR)) :
    Prop :=
  ∃ i host e, a = .run i (.err e) ∧ p.tasks[i]? = some (.newStreamFut host .connecting)

def Resets (p : Pool (Client SR) (ClientTask SR)) (a : Act ClientRequest (ClientOutcome SR)) :
    Prop :=
  ∃ i o, a = .run i o ∧ p.tasks[i]? = some (.resetClient .storing)

/-- A `new_stream_fut` that takes a step is about to get the mutex or to be dropped, or it fails;
in particular none is connecting. -/
def Refuses (p : Pool (Client SR) (ClientTask SR)) (a : Act ClientRequest (ClientOutcome SR)) :
    Prop :=
  ∀ i o host pc p', a = .run i o → p.tasks[i]? = some (.newStreamFut host pc) →
    (clientTasks SR).step p a = some p' →
    pc = .locking ∧ (p'.tasks[i]? = some (.newStreamFut host .looping) ∨
      o = .dropped ∧ p'.tasks[i]? = some .finished) ∨
    pc = .looping ∧ p'.tasks[i]? = some (.failed "connection is poisoned")

section
variable {s : Client SR} {t : ClientTask SR} {p p' : Pool (Client SR) (ClientTask SR)}

theorem ClientTask.Step.poisons (h : t.Step s free o m) (hs : s.inner ≠ .poisoned)
    (hm : m.state.inner = .poisoned) :
    ∃ host e, t = .newStreamFut host .connecting ∧ o = .err e := by
  cases h with
  | refused => exact ⟨_, _, rfl, rfl⟩
  | established => cases hm
  | interrupted => cases hm
  | store => cases hm
  | _ => exact absurd hm hs

theorem ClientTask.Step.stays_poisoned (h : t.Step s free o m) (hf : t.Fits s)
    (hs : s.inner = .poisoned) (ht : t ≠ .resetClient .storing) : m.state.inner = .poisoned := by
  cases h with
  | refused => rfl
  | established => cases hf.symm.trans hs
  | interrupted hi _ => cases hi.symm.trans hs
  | store => exact absurd rfl ht
  | _ => exact hs

theorem ClientTask.Step.refuses (h : ClientTask.Step s free (.newStreamFut host pc) o m)
    (hf : ClientTask.Fits s (.newStreamFut host pc)) (hs : s.inner = .poisoned) :
    pc = .locking ∧ (m.task = .newStreamFut host .looping ∨ o = .dropped ∧ m.task = .finished) ∨
      pc = .looping ∧ m.task = .failed "connection is poisoned" := by
  cases h with
  | dropLock => exact .inl ⟨rfl, .inr ⟨rfl, rfl⟩⟩
  | lock _ => exact .inl ⟨rfl, .inl rfl⟩
  | poisoned _ => exact .inr ⟨rfl, rfl⟩
  | interrupted hi _ => cases hi.symm.trans hs
  | check hi _ => cases hi.symm.trans hs
  | connect hi => cases hi.symm.trans hs
  | _ => cases hf.symm.trans hs

theorem fails_of_poisons (hp : p.state.inner ≠ .poisoned)
    (hs : (clientTasks SR).step p a = some p') (hp' : p'.state.inner = .poisoned) :
    FailsAttempt p a := by
  cases a with
  | enter r =>
    cases hs
    exact absurd hp' hp
  | run i o =>
    obtain ⟨t, m, ht, hm, rfl⟩ := client_step hs
    obtain ⟨host, e, rfl, rfl⟩ := hm.poisons hp hp'
    exact ⟨i, host, e, rfl, ht⟩

theorem ClientOrderly.refuses (h : ClientOrderly p) (hp : p.state.inner = .poisoned)
    (a : Act ClientRequest (ClientOutcome SR)) : Refuses p a := by
  rintro i o host pc p' rfl hti hs
  obtain ⟨t, m, ht, hm, rfl⟩ := client_step hs
  cases ht.symm.trans hti
  obtain ⟨hpc, hl | ⟨ho, hl⟩⟩ | ⟨hpc, hl⟩ := hm.refuses (h.fits _ (List.mem_of_getElem? ht)) hp
  · exact .inl ⟨hpc, .inl ((getElem?_advance ht).trans (congrArg some hl))⟩
  · exact .inl ⟨hpc, .inr ⟨ho, (getElem?_advance ht).trans (congrArg some hl)⟩⟩
  · exact .inr ⟨hpc, (getElem?_advance ht).trans (congrArg some hl)⟩

theorem ClientOrderly.stays_poisoned (h : ClientOrderly p) (hp : p.state.inner = .poisoned)
    (ha : ¬ Resets p a) (hs : (clientTasks SR).step p a = some p') :
    p'.state.inner = .poisoned := by
  cases a with
  | enter r =>
    cases hs
    exact hp
  | run i o =>
    obtain ⟨t, m, ht, hm, rfl⟩ := client_step hs
    apply hm.stays_poisoned (h.fits t (List.mem_of_getElem? ht)) hp
    rintro rfl
    exact ha ⟨i, o, rfl, ht⟩

end

def clientAfter (acts : List (Act ClientRequest (ClientOutcome SR))) :
    Option (Pool (Client SR) (ClientTask SR)) :=
  run (clientTasks SR).step ⟨Client.new, []⟩ acts

/-- The call `i` has seen the stored connection unfinished. -/
def SeenOpen (acts : List (Act ClientRequest (ClientOutcome SR))) (i : Nat)
    (host : Option ConnectHeadBuf) (conn : Nat) (client : SR) : Prop :=
  ∃ before o after q, acts = before ++ .run i o :: after ∧ clientAfter before = some q ∧
    q.tasks[i]? = some (.newStreamFut host .looping) ∧ q.state.inner = .connected conn client ∧
    q.state.isFinished conn = false

/-- The call `i` has created its stream on the connection that was stored then, after having seen
it unfinished. -/
def CreatedOn (acts : List (Act ClientRequest (ClientOutcome SR))) (i : Nat)
    (host : Option ConnectHeadBuf) (conn : Nat) (client : SR) : Prop :=
  ∃ before o after q q', acts = before ++ .run i o :: after ∧ clientAfter before = some q ∧
    SeenOpen before i host conn client ∧ q.state.inner = .connected conn client ∧
    (clientTasks SR).step q (.run i o) = some q' ∧
    (∀ c cl, q.tasks[i]? ≠ some (.streamed c cl host)) ∧
    q'.tasks[i]? = some (.streamed conn client host)

section
variable {acts : List (Act ClientRequest (ClientOutcome SR))}
  {p p' : Pool (Client SR) (ClientTask SR)} {client : SR}

theorem clientAfter_orderly (h : clientAfter acts = some p) : ClientOrderly p :=
  run_preserves ClientOrderly (fun ho hs => ho.step hs) new_clientOrderly h

theorem SeenOpen.append (h : SeenOpen acts i host conn client)
    (more : List (Act ClientRequest (ClientOutcome SR))) :
    SeenOpen (acts ++ more) i host conn client := by
  obtain ⟨before, o, after, q, rfl, h⟩ := h
  exact ⟨before, o, after ++ more, q, by rw [List.append_assoc]; rfl, h⟩

theorem CreatedOn.append (h : CreatedOn acts i host conn client)
    (more : List (Act ClientRequest (ClientOutcome SR))) :
    CreatedOn (acts ++ more) i host conn client := by
  obtain ⟨before, o, after, q, q', rfl, h⟩ := h
  exact ⟨before, o, after ++ more, q, q', by rw [List.append_assoc]; rfl, h⟩

structure Streams (acts : List (Act ClientRequest (ClientOutcome SR)))
    (p : Pool (Client SR) (ClientTask SR)) : Prop where
  checked : ∀ (i : Nat) host conn client,
    p.tasks[i]? = some (.newStreamFut host (.checked conn client)) →
    SeenOpen acts i host conn client
  streamed : ∀ (i : Nat) host conn client, p.tasks[i]? = some (.streamed conn client host) →
    CreatedOn acts i host conn client

theorem ClientTask.Step.checked {t : ClientTask SR} {s : Client SR} (h : t.Step s free o m)
    (hm : m.task = .newStreamFut host (.checked conn client)) :
    t = .newStreamFut host .looping ∧ s.inner = .connected conn client ∧
      s.isFinished conn = false := by
  cases h with
  | check hi hf =>
    cases hm
    exact ⟨rfl, hi, hf⟩
  | _ => cases hm

theorem ClientTask.Step.streamed {t : ClientTask SR} {s : Client SR} (h : t.Step s free o m)
    (hm : m.task = .streamed conn client host) :
    t = .newStreamFut host (.checked conn client) := by
  cases h with
  | stream =>
    cases hm
    rfl
  | _ => cases hm

theorem Streams.step (h : Streams acts p) (hrun : clientAfter acts = some p)
    (hs : (clientTasks SR).step p a = some p') : Streams (acts ++ [a]) p' := by
  have ho := clientAfter_orderly hrun
  cases a with
  | enter r =>
    cases hs
    constructor
    · intro i host conn client hi
      obtain hi | hr := getElem?_of_spawn hi
      · exact (h.checked i host conn client hi).append _
      · cases r <;> cases hr
    · intro i host conn client hi
      obtain hi | hr := getElem?_of_spawn hi
      · exact (h.streamed i host conn client hi).append _
      · cases r <;> cases hr
  | run j o =>
    have hs' := hs
    obtain ⟨t, m, ht, hm, rfl⟩ := client_step hs
    have hlt := (List.getElem?_eq_some_iff.1 ht).1
    constructor
    · intro i host conn client hi
      obtain ⟨rfl, hc⟩ | ⟨_, hi⟩ | hsp := getElem?_of_advance hlt hi
      · obtain ⟨rfl, hin, hf⟩ := hm.checked hc.symm
        exact ⟨acts, o, [], p, rfl, hrun, ht, hin, hf⟩
      · exact (h.checked i host conn client hi).append _
      · obtain ⟨_, hc⟩ := hm.spawned hsp
        cases hc
    · intro i host conn client hi
      obtain ⟨rfl, hc⟩ | ⟨_, hi⟩ | hsp := getElem?_of_advance hlt hi
      · obtain rfl := hm.streamed hc.symm
        have hstored : p.state.inner = .connected conn client :=
          ho.fits _ (List.mem_of_getElem? ht)
        refine ⟨acts, o, [], p, _, rfl, hrun, h.checked _ _ _ _ ht, hstored, hs', ?_, ?_⟩
        · intro c cl hcl
          cases ht.symm.trans hcl
        · rw [getElem?_advance ht, hc]
      · exact (h.streamed i host conn client hi).append _
      · obtain ⟨_, hc⟩ := hm.spawned hsp
        cases hc

theorem clientAfter_streams (h : clientAfter acts = some p) : Streams acts p := by
  have hnew : Streams [] (⟨Client.new, []⟩ : Pool (Client SR) (ClientTask SR)) := by
    constructor
    · intro i host conn client hi
      cases List.getElem?_nil.symm.trans hi
    · intro i host conn client hi
      cases List.getElem?_nil.symm.trans hi
  exact run_history Streams hnew (fun hr hi hs => hi.step hr hs) h

end

/-- In every state that calls and connection tasks can bring about, each connection task that was
handed out and is not stored has ended, each stream was created on a stored connection that the
same call had seen unfinished, a poisoned client refuses until it is reset, and only a failed
attempt poisons it. -/
theorem client_connections_accounted (acts : List (Act ClientRequest (ClientOutcome SR)))
    (p : Pool (Client SR) (ClientTask SR)) (hrun : clientAfter acts = some p) :
    (∀ conn, conn < p.state.handles.length →
      (∀ client, p.state.inner ≠ .connected conn client) → p.state.Ended conn) ∧
    (∀ (i : Nat) host conn client, p.tasks[i]? = some (.streamed conn client host) →
      CreatedOn acts i host conn client) ∧
    (p.state.inner = .poisoned → ∀ more p', run (clientTasks SR).step p more = some p' →
      AllSteps (clientTasks SR).step (fun q a => ¬ Resets q a) p more →
      p'.state.inner = .poisoned ∧ AllSteps (clientTasks SR).step Refuses p more) ∧
    (p.state.inner ≠ .poisoned → ∀ a p', (clientTasks SR).step p a = some p' →
      p'.state.inner = .poisoned → FailsAttempt p a) := by
  have ho := clientAfter_orderly hrun
  refine ⟨ho.accounted.ended, (clientAfter_streams hrun).streamed, ?_, ?_⟩
  · intro hp more p' hmore hreset
    have hkeep {q q' : Pool (Client SR) (ClientTask SR)}
        {a : Act ClientRequest (ClientOutcome SR)}
        (hq : ClientOrderly q ∧ q.state.inner = .poisoned) (ha : ¬ Resets q a)
        (hs : (clientTasks SR).step q a = some q') :
        ClientOrderly q' ∧ q'.state.inner = .poisoned :=
      ⟨hq.1.step hs, hq.1.stays_poisoned hq.2 ha hs⟩
    constructor
    · exact (run_invariant _ hkeep ⟨ho, hp⟩ hreset hmore).2
    · exact AllSteps.mono (fun q => ClientOrderly q ∧ q.state.inner = .poisoned)
        (fun hq ha hs => ⟨hq.1.refuses hq.2 _, hkeep hq ha hs⟩) ⟨ho, hp⟩ hreset hmore
  · intro hp a p' hs hp'
    exact fails_of_poisons hp hs hp'

/-- A stream is created and its connection finishes; the next call is dropped while it reconnects,
and the one after it is refused. -/
def droppedReconnection : List (Act ClientRequest (ClientOutcome Nat)) :=
  [.enter (.newStreamFut none), .run 0 (.ok 0), .run 0 (.ok 0), .run 0 (.ok 7), .run 0 (.ok 0),
    .run 0 (.ok 0), .run 1 (.ok 0), .enter (.newStreamFut none), .run 2 (.ok 0), .run 2 (.ok 0),
    .run 2 (.ok 0), .run 2 .dropped, .enter (.newStreamFut none), .run 3 (.ok 0), .run 3 (.ok 0),
    .run 3 (.err "connection refused")]

theorem client_after_dropped_reconnection :
    ∃ p, clientAfter droppedReconnection = some p ∧ p.state.inner = .poisoned ∧
      p.tasks[0]? = some (.streamed 0 7 none) ∧ p.state.Ended 0 ∧
      CreatedOn droppedReconnection 0 none 0 7 := by
  refine ⟨_, rfl, rfl, rfl, ?_⟩
  obtain ⟨hended, hcreated, _⟩ := client_connections_accounted droppedReconnection _ rfl
  exact ⟨hended 0 (by decide) nofun, hcreated 0 none 0 7 rfl⟩

end Octoproxy
