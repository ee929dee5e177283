import Octoproxy.Fetcher

namespace Octoproxy
open Transition
set_option autoImplicit true

inductive KeyCode where
  | down
  | up
  | char (c : Char)
  | other
deriving DecidableEq

structure KeyEvent where
  code : KeyCode
  isPress : Bool
  noModifiers : Bool
deriving DecidableEq

inductive TuiEvent where
  | key (e : KeyEvent)
  | other
deriving DecidableEq

/-- What the arms of `App::event` do. -/
inductive AppCommand where
  | quit
  | selectNextBackend
  | selectPrevBackend
  | switchBackendStatus
  | switchBackendProtocol
  | resetBackend
  | nothing
deriving DecidableEq

def KeyCode.command : KeyCode → AppCommand
  | .down => .selectNextBackend
  | .up => .selectPrevBackend
  | .char c =>
    if c = 'k' then .selectNextBackend
    else if c = 'j' then .selectPrevBackend
    else if c = ' ' then .switchBackendStatus
    else if c = 's' then .switchBackendProtocol
    else if c = 'r' then .resetBackend
    else .nothing
  | .other => .nothing

/-- `check_quit` comes first, and does not ask whether the key was pressed or released. -/
def TuiEvent.command : TuiEvent → AppCommand
  | .other => .nothing
  | .key e =>
    if e.code = .char 'q' ∧ e.noModifiers = true then .quit
    else if e.isPress then e.code.command
    else .nothing

/-- `backendsState` is the selected index of the `ListState`. -/
structure App (β : Type) where
  backendsState : Option Nat
  fetcher : Fetcher β
  doQuit : Bool
  logText : String

/-- A subtraction of 64 bits with its borrow, which a release build drops. -/
def overflowingSub (a b : Nat) : Nat × Bool :=
  if b ≤ a then (a - b, false) else (a + UInt64.size - b, true)

inductive AppAct (β : Type) where
  | event (ev : TuiEvent)
  | select (ticker : Bool) (written : Except String Unit)
  | receive (res : Received β)

namespace App

def new (fetcher : Fetcher β) : App β := ⟨some 0, fetcher, false, ""⟩

/-- The index that `select_next_backend` selects, and whether its computation went below zero. -/
def nextIndex (s : App β) : Nat × Bool :=
  match s.backendsState with
  | some i =>
    let (last, borrow) := overflowingSub s.fetcher.backends.length 1
    if i ≥ last then (0, borrow) else (i + 1, borrow)
  | none => (0, false)

/-- The same for `select_prev_backend`. -/
def prevIndex (s : App β) : Nat × Bool :=
  match s.backendsState with
  | some i => if i = 0 then overflowingSub s.fetcher.backends.length 1 else (i - 1, false)
  | none => (0, false)

def selectNextBackend (s : App β) : App β := { s with backendsState := some s.nextIndex.1 }

def selectPrevBackend (s : App β) : App β := { s with backendsState := some s.prevIndex.1 }

def request (s : App β) (send : Fetcher β → Nat → Option (Fetcher β)) : Option (App β) :=
  match s.backendsState with
  | some selected => (send s.fetcher selected).map fun f => { s with fetcher := f, logText := "" }
  | none => some s

def event (s : App β) (ev : TuiEvent) : Option (App β) :=
  match ev.command with
  | .quit => some { s with doQuit := true }
  | .selectNextBackend => some s.selectNextBackend
  | .selectPrevBackend => some s.selectPrevBackend
  | .switchBackendStatus => s.request Fetcher.switchBackendStatus
  | .switchBackendProtocol => s.request Fetcher.switchBackendProtocol
  | .resetBackend => s.request Fetcher.resetBackend
  | .nothing => some s

/-- The user's events, and the steps of the fetcher's network loop in its own thread. -/
def step (s : App β) : AppAct β → Option (App β)
  | .event ev => s.event ev
  | .select ticker written =>
    (s.fetcher.selectRequest ticker written).map fun f => { s with fetcher := f }
  | .receive res => (s.fetcher.receive res).map fun f => { s with fetcher := f }

end App

def AppAct.command : AppAct β → AppCommand
  | .event ev => ev.command
  | _ => .nothing

def AppAct.fetched : AppAct β → Option (List β)
  | .receive (.binary (.ok (.allBackends items))) => some items
  | _ => none

def AppCommand.selects : AppCommand → Bool
  | .selectNextBackend => true
  | .selectPrevBackend => true
  | _ => false

section
variable {f f' : Fetcher β} {s s' : App β} {a : AppAct β}

theorem Fetcher.request_backends (h : f.request msg selected = some f') :
    f'.backends = f.backends := by
  obtain ⟨_, rfl⟩ | ⟨_, _, rfl⟩ := Fetcher.request_cases h <;> rfl

theorem Fetcher.writeMessage_backends (f : Fetcher β) (req : MetricApiReq)
    (written : Except String Unit) : (f.writeMessage req written).backends = f.backends := by
  cases written <;> rfl

theorem Fetcher.selectRequest_backends (h : f.selectRequest ticker written = some f') :
    f'.backends = f.backends := by
  simp only [Fetcher.selectRequest] at h
  split at h
  · split at h
    · cases h
      exact f.writeMessage_backends _ _
    · split at h
      · cases h
      · cases h
        exact Fetcher.writeMessage_backends _ _ _
  · cases h

theorem Fetcher.receive_backends (h : f.receive res = some f') :
    f'.backends = (AppAct.receive res).fetched.getD f.backends := by
  simp only [Fetcher.receive] at h
  split at h
  · split at h
    · rename_i res
      cases h
      cases res <;> rfl
    · cases h
      rfl
    · cases h
      rfl
    · cases h
      rfl
    · cases h
      rfl
  · cases h

theorem App.request_cases (send : Fetcher β → Nat → Option (Fetcher β))
    (hsend : ∀ {f f' : Fetcher β} {i : Nat}, send f i = some f' → f'.backends = f.backends)
    (h : s.request send = some s') :
    s'.backendsState = s.backendsState ∧ s'.fetcher.backends = s.fetcher.backends := by
  unfold App.request at h
  split at h
  · rename_i selected _
    obtain ⟨f, hf, rfl⟩ := Option.map_eq_some_iff.1 h
    exact ⟨rfl, hsend hf⟩
  · cases h
    exact ⟨rfl, rfl⟩

/-- A step either moves the selection, or keeps it and takes over a list that it brings. -/
theorem App.step_cases (h : s.step a = some s') :
    (a.command = .selectNextBackend ∧ s' = s.selectNextBackend) ∨
    (a.command = .selectPrevBackend ∧ s' = s.selectPrevBackend) ∨
    (a.command.selects = false ∧ s'.backendsState = s.backendsState ∧
      s'.fetcher.backends = a.fetched.getD s.fetcher.backends) := by
  cases a with
  | event ev =>
    change s.event ev = some s' at h
    have ha : (AppAct.event ev : AppAct β).command = ev.command := rfl
    rw [App.event] at h
    rw [ha]
    cases hc : ev.command <;> simp only [hc] at h
    case quit =>
      cases h
      exact .inr (.inr ⟨rfl, rfl, rfl⟩)
    case selectNextBackend =>
      cases h
      exact .inl ⟨rfl, rfl⟩
    case selectPrevBackend =>
      cases h
      exact .inr (.inl ⟨rfl, rfl⟩)
    case nothing =>
      cases h
      exact .inr (.inr ⟨rfl, rfl, rfl⟩)
    all_goals exact .inr (.inr ⟨rfl, App.request_cases _ Fetcher.request_backends h⟩)
  | select ticker written =>
    obtain ⟨f, hf, rfl⟩ := Option.map_eq_some_iff.1 h
    exact .inr (.inr ⟨rfl, rfl, Fetcher.selectRequest_backends hf⟩)
  | receive res =>
    obtain ⟨f, hf, rfl⟩ := Option.map_eq_some_iff.1 h
    exact .inr (.inr ⟨rfl, rfl, Fetcher.receive_backends hf⟩)

def App.underflows (s : App β) (a : AppAct β) : Bool :=
  match a.command with
  | .selectNextBackend => s.nextIndex.2
  | .selectPrevBackend => s.prevIndex.2
  | _ => false

/-- On a list that is not empty the selection points into it, and next and previous undo each
other. -/
structure App.Selecting (s : App β) : Prop where
  valid : s.fetcher.backends ≠ [] →
    ∃ i, s.backendsState = some i ∧ i < s.fetcher.backends.length
  prev_next : s.fetcher.backends ≠ [] → s.selectNextBackend.selectPrevBackend = s
  next_prev : s.fetcher.backends ≠ [] → s.selectPrevBackend.selectNextBackend = s

/-- The step computes no index below zero and leaves a valid selection. -/
def App.Steady (s : App β) (a : AppAct β) : Prop :=
  s.underflows a = false ∧ ∀ s', s.step a = some s' → s'.Selecting

/-- The selection is only moved when there is a list. -/
def App.MovesOnList (s : App β) (a : AppAct β) : Prop :=
  a.command.selects = true → s.fetcher.backends ≠ []

def nextAround (len i : Nat) : Nat := if i + 1 = len then 0 else i + 1

def prevAround (len i : Nat) : Nat := if i = 0 then len - 1 else i - 1

theorem nextAround_lt (h : i < len) : nextAround len i < len := by
  unfold nextAround
  split <;> omega

theorem prevAround_lt (h : i < len) : prevAround len i < len := by
  unfold prevAround
  split <;> omega

theorem prevAround_nextAround (len i : Nat) : prevAround len (nextAround len i) = i := by
  by_cases hl : i + 1 = len
  · rw [nextAround, if_pos hl, prevAround, if_pos rfl]
    omega
  · rw [nextAround, if_neg hl, prevAround, if_neg (Nat.succ_ne_zero i), Nat.add_sub_cancel]

theorem nextAround_prevAround (h : i < len) : nextAround len (prevAround len i) = i := by
  by_cases h0 : i = 0
  · rw [prevAround, if_pos h0, nextAround, if_pos (by omega), h0]
  · rw [prevAround, if_neg h0, nextAround, if_neg (by omega)]
    omega

theorem overflowingSub_one (h : i < len) : overflowingSub len 1 = (len - 1, false) :=
  if_pos (Nat.zero_lt_of_lt h)

theorem App.nextIndex_of_lt (hs : s.backendsState = some i) (hi : i < s.fetcher.backends.length) :
    s.nextIndex = (nextAround s.fetcher.backends.length i, false) := by
  rw [App.nextIndex, hs, nextAround]
  simp only [overflowingSub_one hi]
  split <;> split <;> first | rfl | omega

theorem App.prevIndex_of_lt (hs : s.backendsState = some i) (hi : i < s.fetcher.backends.length) :
    s.prevIndex = (prevAround s.fetcher.backends.length i, false) := by
  rw [App.prevIndex, hs, prevAround]
  simp only [overflowingSub_one hi]
  split <;> rfl

theorem App.selectNextBackend_of_lt (hs : s.backendsState = some i)
    (hi : i < s.fetcher.backends.length) : s.selectNextBackend =
      { s with backendsState := some (nextAround s.fetcher.backends.length i) } := by
  rw [App.selectNextBackend, App.nextIndex_of_lt hs hi]

theorem App.selectPrevBackend_of_lt (hs : s.backendsState = some i)
    (hi : i < s.fetcher.backends.length) : s.selectPrevBackend =
      { s with backendsState := some (prevAround s.fetcher.backends.length i) } := by
  rw [App.selectPrevBackend, App.prevIndex_of_lt hs hi]

theorem App.selecting_of_lt (hs : s.backendsState = some i)
    (hi : i < s.fetcher.backends.length) : s.Selecting := by
  refine ⟨fun _ => ⟨i, hs, hi⟩, fun _ => ?_, fun _ => ?_⟩
  · have hprev : ({ s with backendsState := some (nextAround s.fetcher.backends.length i) } :
        App β).selectPrevBackend = _ := App.selectPrevBackend_of_lt rfl (nextAround_lt hi)
    rw [App.selectNextBackend_of_lt hs hi, hprev, prevAround_nextAround _ i, ← hs]
  · have hnext : ({ s with backendsState := some (prevAround s.fetcher.backends.length i) } :
        App β).selectNextBackend = _ := App.selectNextBackend_of_lt rfl (prevAround_lt hi)
    rw [App.selectPrevBackend_of_lt hs hi, hnext, nextAround_prevAround hi, ← hs]

/-- Before the first list nothing but the start is selected; after it, something in the list. -/
def App.Tracks (n : Nat) (s : App β) : Prop :=
  (s.fetcher.backends = [] ∧ s.backendsState = some 0) ∨
    (s.fetcher.backends.length = n ∧ ∃ i < n, s.backendsState = some i)

def AppAct.FetchesOnly (n : Nat) (a : AppAct β) : Prop :=
  ∀ items, a.fetched = some items → items.length = n

theorem App.Tracks.selecting (h : s.Tracks n) : s.Selecting := by
  obtain ⟨hnil, _⟩ | ⟨rfl, i, hi, hs⟩ := h
  · exact ⟨fun hne => absurd hnil hne, fun hne => absurd hnil hne, fun hne => absurd hnil hne⟩
  · exact App.selecting_of_lt hs hi

theorem App.Tracks.keep (h : s.Tracks n) (ha : a.FetchesOnly n)
    (hs : s'.backendsState = s.backendsState)
    (hb : s'.fetcher.backends = a.fetched.getD s.fetcher.backends) : s'.Tracks n := by
  unfold App.Tracks
  rw [hs, hb]
  cases hf : a.fetched with
  | none => exact h
  | some items =>
    have hlen := ha items hf
    obtain ⟨_, h0⟩ | ⟨_, i, hi, hsel⟩ := h
    · cases n with
      | zero => exact .inl ⟨List.length_eq_zero_iff.1 hlen, h0⟩
      | succ n => exact .inr ⟨hlen, 0, Nat.succ_pos n, h0⟩
    · exact .inr ⟨hlen, i, hi, hsel⟩

theorem App.Tracks.next (h : s.Tracks n) (hne : s.fetcher.backends ≠ []) :
    s.nextIndex.2 = false ∧ s.selectNextBackend.Tracks n := by
  obtain ⟨hnil, _⟩ | ⟨rfl, i, hi, hs⟩ := h
  · exact absurd hnil hne
  · rw [App.nextIndex_of_lt hs hi, App.selectNextBackend_of_lt hs hi]
    exact ⟨rfl, .inr ⟨rfl, _, nextAround_lt hi, rfl⟩⟩

theorem App.Tracks.prev (h : s.Tracks n) (hne : s.fetcher.backends ≠ []) :
    s.prevIndex.2 = false ∧ s.selectPrevBackend.Tracks n := by
  obtain ⟨hnil, _⟩ | ⟨rfl, i, hi, hs⟩ := h
  · exact absurd hnil hne
  · rw [App.prevIndex_of_lt hs hi, App.selectPrevBackend_of_lt hs hi]
    exact ⟨rfl, .inr ⟨rfl, _, prevAround_lt hi, rfl⟩⟩

/-- On an empty list both computations borrow. -/
theorem App.Tracks.borrow (h : s.Tracks n) (hnil : s.fetcher.backends = []) :
    s.nextIndex.2 = true ∧ s.prevIndex.2 = true := by
  have hs : s.backendsState = some 0 := by
    obtain ⟨_, hs⟩ | ⟨hlen, i, hi, _⟩ := h
    · exact hs
    · rw [hnil] at hlen
      exact absurd hi (by rw [← hlen]; exact Nat.not_lt_zero i)
  rw [App.nextIndex, App.prevIndex, hs, hnil]
  exact ⟨rfl, rfl⟩

/-- A step is steady exactly when it does not move the selection on an empty list. -/
theorem App.Tracks.step (h : s.Tracks n) (ha : a.FetchesOnly n) (hstep : s.step a = some s') :
    (s.Steady a ↔ s.MovesOnList a) ∧ (s.MovesOnList a → s'.Tracks n) := by
  have hsteady (hu : s.underflows a = false) (ht : s'.Tracks n) : s.Steady a := by
    refine ⟨hu, ?_⟩
    intro u hu
    cases hstep.symm.trans hu
    exact ht.selecting
  -- Without a list the move borrows, and neither side holds.
  have hempty (hu : s.underflows a = true) (hc : a.command.selects = true)
      (hnil : s.fetcher.backends = []) :
      (s.Steady a ↔ s.MovesOnList a) ∧ (s.MovesOnList a → s'.Tracks n) := by
    refine ⟨⟨fun hst => ?_, fun hm => ?_⟩, fun hm => ?_⟩
    · cases hu.symm.trans hst.1
    · exact absurd hnil (hm hc)
    · exact absurd hnil (hm hc)
  have hlist (hu : s.underflows a = false) (hm : s.MovesOnList a) (ht : s'.Tracks n) :
      (s.Steady a ↔ s.MovesOnList a) ∧ (s.MovesOnList a → s'.Tracks n) :=
    ⟨⟨fun _ => hm, fun _ => hsteady hu ht⟩, fun _ => ht⟩
  obtain ⟨hc, rfl⟩ | ⟨hc, rfl⟩ | ⟨hc, hs, hb⟩ := App.step_cases hstep
  · have hu : s.underflows a = s.nextIndex.2 := by rw [App.underflows, hc]
    by_cases hnil : s.fetcher.backends = []
    · exact hempty (hu.trans (h.borrow hnil).1) (by rw [hc]; rfl) hnil
    · obtain ⟨hb, ht⟩ := h.next hnil
      exact hlist (hu.trans hb) (fun _ => hnil) ht
  · have hu : s.underflows a = s.prevIndex.2 := by rw [App.underflows, hc]
    by_cases hnil : s.fetcher.backends = []
    · exact hempty (hu.trans (h.borrow hnil).2) (by rw [hc]; rfl) hnil
    · obtain ⟨hb, ht⟩ := h.prev hnil
      exact hlist (hu.trans hb) (fun _ => hnil) ht
  · have hu : s.underflows a = false := by
      unfold App.underflows
      cases hcmd : a.command with
      | selectNextBackend => rw [hcmd] at hc; cases hc
      | selectPrevBackend => rw [hcmd] at hc; cases hc
      | _ => rfl
    exact hlist hu (fun hsel => nomatch hc.symm.trans hsel) (h.keep ha hs hb)

/-- Over lists of one length, every step of a run computes its index without a borrow and leaves
a valid selection exactly when the selection is never moved before the first list has come. -/
theorem selection_valid_iff (n : Nat) (acts : List (AppAct β)) (s : App β)
    (hn : ∀ a ∈ acts, a.FetchesOnly n) (hr : run App.step (App.new .new) acts = some s) :
    AllSteps App.step App.Steady (App.new .new) acts ↔
      AllSteps App.step App.MovesOnList (App.new .new) acts :=
  allSteps_iff_of_step (App.Tracks n) (fun h ha hstep => h.step ha hstep) (.inl ⟨rfl, rfl⟩)
    (allSteps_of_mem hn) hr

end

def pressDown : AppAct Unit := .event (.key ⟨.down, true, true⟩)

def fetchTwo : List (AppAct Unit) :=
  [.select true (.ok ()), .receive (.binary (.ok (.allBackends [(), ()])))]

theorem fetchTwo_only : ∀ a ∈ pressDown :: fetchTwo ++ [pressDown], a.FetchesOnly 2 := by
  simp only [fetchTwo, pressDown, List.cons_append, List.nil_append, List.forall_mem_cons]
  refine ⟨nofun, nofun, ?_, nofun, nofun⟩
  intro items h
  cases h
  rfl

theorem selection_after_fetch :
    (∀ a ∈ fetchTwo ++ [pressDown], a.FetchesOnly 2) ∧
      AllSteps App.step App.Steady (App.new .new) (fetchTwo ++ [pressDown]) := by
  have hn : ∀ a ∈ fetchTwo ++ [pressDown], a.FetchesOnly 2 :=
    fun a ha => fetchTwo_only a (List.mem_cons_of_mem _ ha)
  refine ⟨hn, (selection_valid_iff 2 _ _ hn rfl).2 ?_⟩
  refine ⟨nofun, ?_⟩
  rintro s ⟨⟩
  refine ⟨nofun, ?_⟩
  rintro s ⟨⟩
  exact ⟨fun _ => List.cons_ne_nil _ _, fun _ _ => trivial⟩

/-- Down is pressed before the first list has come. -/
theorem early_key_underflows :
    ¬ ∀ (n : Nat) (acts : List (AppAct Unit)) (s : App Unit),
      (∀ a ∈ acts, a.FetchesOnly n) → run App.step (App.new .new) acts = some s →
      AllSteps App.step App.Steady (App.new .new) acts := by
  intro h
  have hsteady := h 2 (pressDown :: fetchTwo ++ [pressDown]) _ fetchTwo_only rfl
  cases hsteady.1.1

end Octoproxy
