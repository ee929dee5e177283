import Mathlib.Data.List.Basic
import Mathlib.Order.Defs.Unbundled
import Octoproxy.Peer

namespace Octoproxy
set_option autoImplicit true

inductive Panic where
  | remainderByZero
deriving DecidableEq

/-- The remainder of the source, which panics on a zero divisor. -/
def checkedRem (a n : Nat) : Except Panic Nat :=
  if n = 0 then .error .remainderByZero else .ok (a % n)

theorem checkedRem_pos (a : Nat) (hn : 0 < n) : checkedRem a n = .ok (a % n) :=
  if_neg (Nat.ne_of_gt hn)

section
variable {T C : Type}

def Frist.next (items : List T) : Option T := items.head?

def RoundRobin.next (nextItemIndex : Nat) (items : List T) : Except Panic (Option T × Nat) := do
  let backend := items[nextItemIndex]?
  let next ← checkedRem (nextItemIndex + 1) items.length
  return (backend, next)

/-- `SliceRandom::choose`, with the generator's output as an argument. -/
def Random.next (roll : Nat) (items : List T) : Option T := items[roll % items.length]?

def LeastLoadedTime.pick [LE C] [DecidableLE C] (cost : T → C) (b : Option (C × T))
    (backend : T) : Option (C × T) :=
  match b with
  | none => some (cost backend, backend)
  | some (costT, bk) =>
    if costT ≤ cost backend then some (costT, bk) else some (cost backend, backend)

def LeastLoadedTime.next [LE C] [DecidableLE C] (cost : T → C) (backends : List T) : Option T :=
  (backends.foldl (LeastLoadedTime.pick cost) none).map Prod.snd

/-- The loop of `UriHash::next_available_backend`, with the rounds it has left. -/
def UriHash.probe (items : List T) : Nat → Nat → Except Panic (Option T)
  | 0, _ => .ok none
  | n + 1, bid =>
    match items[bid]? with
    | some item => .ok (some item)
    | none => (checkedRem (bid + 1) items.length).bind (UriHash.probe items n)

def UriHash.next (ring : String → Option Nat) (items : List T) (info : PeerInfo) :
    Except Panic (Option T) :=
  match ring info.getHostname with
  | some backendId =>
    (UriHash.probe items (items.length + 1) backendId).map fun found =>
      match found with
      | some item => some item
      | none => items[0]?
  | none => .ok items[0]?

theorem RoundRobin.next_pos (i : Nat) (items : List T) (h : 0 < items.length) :
    RoundRobin.next i items = .ok (items[i]?, (i + 1) % items.length) := by
  unfold RoundRobin.next
  rw [checkedRem_pos _ h]
  rfl

theorem Random.next_mem (roll : Nat) (items : List T) (h : 0 < items.length) :
    ∃ b ∈ items, Random.next roll items = some b := by
  have hlt := Nat.mod_lt roll h
  exact ⟨items[roll % items.length], List.getElem_mem hlt, List.getElem?_eq_getElem hlt⟩

theorem LeastLoadedTime.fold_mem [LE C] [DecidableLE C] (cost : T → C) (l : List T) (b : C × T) :
    ∃ r, l.foldl (LeastLoadedTime.pick cost) (some b) = some r ∧ r.2 ∈ b.2 :: l := by
  induction l generalizing b with
  | nil => exact ⟨b, rfl, List.mem_cons_self⟩
  | cons x xs ih =>
    simp only [List.foldl_cons, LeastLoadedTime.pick]
    split
    · obtain ⟨r, hr, hm⟩ := ih b
      refine ⟨r, hr, ?_⟩
      rcases List.mem_cons.1 hm with he | hm
      · exact he ▸ List.mem_cons_self
      · exact List.mem_cons_of_mem _ (List.mem_cons_of_mem _ hm)
    · obtain ⟨r, hr, hm⟩ := ih (cost x, x)
      exact ⟨r, hr, List.mem_cons_of_mem _ hm⟩

theorem LeastLoadedTime.next_mem [LE C] [DecidableLE C] (cost : T → C) (items : List T)
    (h : 0 < items.length) : ∃ b ∈ items, LeastLoadedTime.next cost items = some b := by
  cases items with
  | nil => cases h
  | cons x xs =>
    obtain ⟨r, hr, hm⟩ := LeastLoadedTime.fold_mem cost xs (cost x, x)
    exact ⟨r.2, hm, congrArg (Option.map Prod.snd) hr⟩

/-- The position that `UriHash` takes for an id: itself, or one past it, wrapped around. -/
def UriHash.slot (len backendId : Nat) : Nat :=
  if backendId < len then backendId else (backendId + 1) % len

theorem UriHash.slot_lt (backendId : Nat) (h : 0 < len) : UriHash.slot len backendId < len := by
  unfold UriHash.slot
  split
  · assumption
  · exact Nat.mod_lt _ h

theorem UriHash.probe_eq (items : List T) (h : 0 < items.length) (backendId : Nat) :
    UriHash.probe items (items.length + 1) backendId =
      .ok items[UriHash.slot items.length backendId]? := by
  unfold UriHash.slot
  by_cases hb : backendId < items.length
  · simp only [UriHash.probe, List.getElem?_eq_getElem hb, if_pos hb]
  · have hm := Nat.mod_lt (backendId + 1) h
    obtain ⟨n, hn⟩ : ∃ n, items.length = n + 1 := ⟨items.length - 1, by omega⟩
    have hnone : items[backendId]? = none := List.getElem?_eq_none (by omega)
    rw [UriHash.probe, hnone, if_neg hb, checkedRem_pos _ h, hn]
    rw [hn] at hm
    simp only [Except.bind, UriHash.probe]
    rw [List.getElem?_eq_getElem (by omega)]

theorem UriHash.next_eq (ring : String → Option Nat) (items : List T) (info : PeerInfo)
    (h : 0 < items.length) :
    UriHash.next ring items info =
      .ok items[(ring info.getHostname).elim 0 (UriHash.slot items.length)]? := by
  unfold UriHash.next
  cases ring info.getHostname with
  | none => rfl
  | some backendId =>
    simp only [UriHash.probe_eq items h, Option.elim_some,
      List.getElem?_eq_getElem (UriHash.slot_lt backendId h)]
    rfl

end

inductive Balance where
  | roundRobin
  | random
  | leastLoadedTime
  | uriHash
  | frist
deriving DecidableEq

/-- An algorithm together with the state it keeps between calls. -/
inductive Balancer where
  | roundRobin (nextItemIndex : Nat)
  | random
  | leastLoadedTime
  | uriHash (ring : String → Option Nat)
  | frist

/-- `populate_load_balance`. `hashRing n` stands for the lookup of a `HashRing` over `0..n`. -/
def populateLoadBalance (hashRing : Nat → String → Option Nat) (balance : Balance)
    (backendsLen : Nat) : Balancer :=
  match balance with
  | .roundRobin => .roundRobin 0
  | .random => .random
  | .leastLoadedTime => .leastLoadedTime
  | .uriHash => .uriHash (hashRing backendsLen)
  | .frist => .frist

def Balancer.next {T C : Type} [LE C] [DecidableLE C] (bal : Balancer) (roll : Nat)
    (cost : T → C) (items : List T) (info : PeerInfo) : Except Panic (Option T × Balancer) :=
  match bal with
  | .roundRobin i => (RoundRobin.next i items).map fun r => (r.1, .roundRobin r.2)
  | .random => .ok (Random.next roll items, .random)
  | .leastLoadedTime => .ok (LeastLoadedTime.next cost items, .leastLoadedTime)
  | .uriHash ring => (UriHash.next ring items info).map fun r => (r, .uriHash ring)
  | .frist => .ok (Frist.next items, .frist)

/-- The round-robin cursor points into a list of this length. -/
def Balancer.Fits (bal : Balancer) (len : Nat) : Prop :=
  match bal with
  | .roundRobin i => i < len
  | _ => True

/-- On a non-empty list no algorithm panics, and each picks an item unless a round-robin cursor
lies past the end. -/
theorem Balancer.next_spec {T C : Type} [LE C] [DecidableLE C] (bal : Balancer) (roll : Nat)
    (cost : T → C) (items : List T) (info : PeerInfo) (h : 0 < items.length) :
    ∃ r bal', bal.next roll cost items info = .ok (r, bal') ∧
      (bal.Fits items.length → ∃ b ∈ items, r = some b) ∧
      (¬ bal.Fits items.length → r = none) := by
  cases bal with
  | roundRobin i =>
    refine ⟨items[i]?, .roundRobin ((i + 1) % items.length), ?_, ?_, ?_⟩
    · rw [Balancer.next, RoundRobin.next_pos i items h]
      rfl
    · intro hi
      exact ⟨items[i], List.getElem_mem hi, List.getElem?_eq_getElem hi⟩
    · intro hi
      exact List.getElem?_eq_none (Nat.le_of_not_lt hi)
  | random =>
    exact ⟨_, _, rfl, fun _ => Random.next_mem roll items h, fun hn => absurd trivial hn⟩
  | leastLoadedTime =>
    exact ⟨_, _, rfl, fun _ => LeastLoadedTime.next_mem cost items h, fun hn => absurd trivial hn⟩
  | uriHash ring =>
    have hlt : (ring info.getHostname).elim 0 (UriHash.slot items.length) < items.length := by
      cases ring info.getHostname with
      | none => exact h
      | some backendId => exact UriHash.slot_lt backendId h
    refine ⟨items[(ring info.getHostname).elim 0 (UriHash.slot items.length)]?, .uriHash ring,
      ?_, ?_, fun hn => absurd trivial hn⟩
    · rw [Balancer.next, UriHash.next_eq ring items info h]
      rfl
    · intro _
      exact ⟨_, List.getElem_mem hlt, List.getElem?_eq_getElem hlt⟩
  | frist =>
    refine ⟨_, _, rfl, ?_, fun hn => absurd trivial hn⟩
    cases items with
    | nil => cases h
    | cons x xs => exact fun _ => ⟨x, List.mem_cons_self, rfl⟩

end Octoproxy
