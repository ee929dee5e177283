import Octoproxy.Failover

namespace Octoproxy
open TaskPool Transition
set_option autoImplicit true

/-- Where a call of the listener's service stands. A request without an authority is answered at
once, and so is a CONNECT, which is upgraded afterwards; the others wait for their handler's
answer, unless the browser goes away. -/
inductive ServicePc (ρ : Type) where
  | badRequest
  | upgrading
  | upgradeFailed
  | upgraded
  | waiting
  | answered (res : ρ)
  | abandoned

structure ServiceCall (ρ : Type) where
  inbound : IncomingConnection
  peer : Option PeerInfo
  pc : ServicePc ρ

/-- What the channel carries to `listening_proxy`. `call` stands for the connection or for the
sender of the answer, which both belong to one call. -/
structure Handoff where
  call : Nat
  inbound : IncomingConnection
  peer : PeerInfo

structure Handler (ρ : Type) where
  handoff : Handoff
  answer : Option ρ

structure Dispatcher (ρ : Type) where
  calls : List (ServiceCall ρ)
  channel : List Handoff
  handlers : List (Handler ρ)

inductive DispatchAct (ρ : Type) where
  | call (inbound : IncomingConnection) (authority : Option String) (addr : SocketAddr)
  | upgrade (i : Nat) (ok : Bool)
  | abandon (i : Nat)
  | receive
  | answer (k : Nat) (res : ρ)

def ServicePc.sent : ServicePc ρ → Bool
  | .badRequest | .upgrading | .upgradeFailed => false
  | .upgraded | .waiting | .answered _ | .abandoned => true

/-- The answer reaches a call that still waits for it. -/
def ServicePc.receive (res : ρ) : ServicePc ρ → ServicePc ρ
  | .waiting => .answered res
  | pc => pc

def ServiceCall.receive (res : ρ) (c : ServiceCall ρ) : ServiceCall ρ :=
  { c with pc := c.pc.receive res }

namespace Dispatcher

def start : Dispatcher ρ := ⟨[], [], []⟩

/-- A request comes in. Only a request that is no CONNECT is sent on at once. -/
def serve (s : Dispatcher ρ) (addr : SocketAddr) :
    IncomingConnection → Option String → Dispatcher ρ
  | inbound, none => { s with calls := s.calls ++ [⟨inbound, none, .badRequest⟩] }
  | .connectMethod, some host =>
    { s with calls := s.calls ++ [⟨.connectMethod, some (.new host addr), .upgrading⟩] }
  | .nonConnectMethod, some host => { s with
      calls := s.calls ++ [⟨.nonConnectMethod, some (.new host addr), .waiting⟩]
      channel := s.channel ++ [⟨s.calls.length, .nonConnectMethod, .new host addr⟩] }

def step (s : Dispatcher ρ) : DispatchAct ρ → Option (Dispatcher ρ)
  | .call inbound authority addr => some (s.serve addr inbound authority)
  | .upgrade i ok => match s.calls[i]? with
    | some ⟨inbound, some peer, .upgrading⟩ =>
      if ok then some { s with
        calls := s.calls.set i ⟨inbound, some peer, .upgraded⟩
        channel := s.channel ++ [⟨i, inbound, peer⟩] }
      else some { s with calls := s.calls.set i ⟨inbound, some peer, .upgradeFailed⟩ }
    | _ => none
  | .abandon i => match s.calls[i]? with
    | some ⟨inbound, peer, .waiting⟩ =>
      some { s with calls := s.calls.set i ⟨inbound, peer, .abandoned⟩ }
    | _ => none
  | .receive => match s.channel with
    | m :: channel => some { s with channel := channel, handlers := s.handlers ++ [⟨m, none⟩] }
    | [] => none
  | .answer k res => match s.handlers[k]? with
    | some ⟨⟨i, .nonConnectMethod, peer⟩, none⟩ => some { s with
        calls := s.calls.modify i (ServiceCall.receive res)
        handlers := s.handlers.set k ⟨⟨i, .nonConnectMethod, peer⟩, some res⟩ }
    | _ => none

def handoffs (s : Dispatcher ρ) : List Handoff := s.handlers.map Handler.handoff ++ s.channel

end Dispatcher

inductive Dispatcher.Step (s : Dispatcher ρ) : DispatchAct ρ → Dispatcher ρ → Prop where
  | call : Step s (.call inbound authority addr) (s.serve addr inbound authority)
  | upgrade : s.calls[i]? = some ⟨inbound, some peer, .upgrading⟩ → Step s (.upgrade i true)
      ⟨s.calls.set i ⟨inbound, some peer, .upgraded⟩, s.channel ++ [⟨i, inbound, peer⟩], s.handlers⟩
  | upgradeFails : s.calls[i]? = some ⟨inbound, some peer, .upgrading⟩ → Step s (.upgrade i false)
      ⟨s.calls.set i ⟨inbound, some peer, .upgradeFailed⟩, s.channel, s.handlers⟩
  | abandon : s.calls[i]? = some ⟨inbound, peer, .waiting⟩ → Step s (.abandon i)
      ⟨s.calls.set i ⟨inbound, peer, .abandoned⟩, s.channel, s.handlers⟩
  | receive : s.channel = m :: ms →
      Step s .receive ⟨s.calls, ms, s.handlers ++ [⟨m, none⟩]⟩
  | answer : s.handlers[k]? = some ⟨⟨i, .nonConnectMethod, peer⟩, none⟩ → Step s (.answer k res)
      ⟨s.calls.modify i (ServiceCall.receive res), s.channel,
        s.handlers.set k ⟨⟨i, .nonConnectMethod, peer⟩, some res⟩⟩

theorem Dispatcher.step_cases {s s' : Dispatcher ρ} (hs : s.step a = some s') : Step s a s' := by
  cases a with
  | call inbound authority addr =>
    cases hs
    exact .call
  | upgrade i ok =>
    simp only [Dispatcher.step] at hs
    split at hs
    · rename_i hc
      cases ok with
      | true =>
        cases hs
        exact .upgrade hc
      | false =>
        cases hs
        exact .upgradeFails hc
    · cases hs
  | abandon i =>
    simp only [Dispatcher.step] at hs
    split at hs
    · rename_i hc
      cases hs
      exact .abandon hc
    · cases hs
  | receive =>
    simp only [Dispatcher.step] at hs
    split at hs
    · rename_i hc
      cases hs
      exact .receive hc
    · cases hs
  | answer k res =>
    simp only [Dispatcher.step] at hs
    split at hs
    · rename_i hk
      cases hs
      exact .answer hk
    · cases hs

/-- Every call that has sent something has sent it once, for its own peer; a call that waits has
not been answered by its handler, and one that was answered has its own handler's answer. -/
structure Dispatcher.Matches (s : Dispatcher ρ) : Prop where
  once : (s.handoffs.map Handoff.call).Nodup
  sent : ∀ i c, s.calls[i]? = some c → (c.pc.sent = true ↔ ∃ m ∈ s.handoffs, m.call = i)
  source : ∀ m ∈ s.handoffs, ∃ c, s.calls[m.call]? = some c ∧ c.inbound = m.inbound ∧
    c.peer = some m.peer
  waits : ∀ i c, s.calls[i]? = some c → c.pc = .waiting → c.inbound = .nonConnectMethod ∧
    ∀ h ∈ s.handlers, h.handoff.call = i → h.answer = none
  answers : ∀ i c res, s.calls[i]? = some c → c.pc = .answered res →
    ∃ h ∈ s.handlers, h.handoff.call = i ∧ h.answer = some res

section
variable {s s' : Dispatcher ρ}

theorem Dispatcher.start_matches : (start : Dispatcher ρ).Matches where
  once := List.nodup_nil
  sent := by
    intro i c h
    cases List.getElem?_nil.symm.trans h
  source := by
    intro m hm
    cases hm
  waits := by
    intro i c h
    cases List.getElem?_nil.symm.trans h
  answers := by
    intro i c res h
    cases List.getElem?_nil.symm.trans h

theorem Dispatcher.Matches.keep (h : s.Matches) {calls : List (ServiceCall ρ)}
    (hi : calls[i]? = some c) (hothers : ∀ j, j ≠ i → calls[j]? = s.calls[j]?)
    (hsent : c.pc.sent = true ↔ ∃ m ∈ s.handoffs, m.call = i)
    (hsource : ∀ m ∈ s.handoffs, m.call = i → c.inbound = m.inbound ∧ c.peer = some m.peer)
    (hw : c.pc ≠ .waiting) (ha : ∀ res, c.pc ≠ .answered res) :
    Matches ⟨calls, s.channel, s.handlers⟩ where
  once := h.once
  sent := by
    intro j d hj
    by_cases hij : j = i
    · subst hij
      cases hi.symm.trans hj
      exact hsent
    · exact h.sent j d ((hothers j hij).symm.trans hj)
  source := by
    intro m hm
    by_cases hij : m.call = i
    · rw [← hij] at hi
      exact ⟨c, hi, hsource m hm hij⟩
    · obtain ⟨d, hd, hsrc⟩ := h.source m hm
      exact ⟨d, (hothers _ hij).trans hd, hsrc⟩
  waits := by
    intro j d hj hpc
    by_cases hij : j = i
    · subst hij
      cases hi.symm.trans hj
      exact absurd hpc hw
    · exact h.waits j d ((hothers j hij).symm.trans hj) hpc
  answers := by
    intro j d res hj hpc
    by_cases hij : j = i
    · subst hij
      cases hi.symm.trans hj
      exact absurd hpc (ha res)
    · exact h.answers j d res ((hothers j hij).symm.trans hj) hpc

theorem Dispatcher.Matches.send (h : s.Matches) {calls : List (ServiceCall ρ)}
    (hi : calls[i]? = some ⟨inbound, some peer, pc⟩)
    (hothers : ∀ j, j ≠ i → calls[j]? = s.calls[j]?) (hsent : pc.sent = true)
    (hw : pc = .waiting → inbound = .nonConnectMethod) (ha : ∀ res, pc ≠ .answered res)
    (hfresh : ∀ m ∈ s.handoffs, m.call ≠ i) :
    Matches ⟨calls, s.channel ++ [⟨i, inbound, peer⟩], s.handlers⟩ := by
  have hhandoffs : handoffs ⟨calls, s.channel ++ [⟨i, inbound, peer⟩], s.handlers⟩ =
      s.handoffs ++ [⟨i, inbound, peer⟩] := (List.append_assoc ..).symm
  refine ⟨?_, ?_, ?_, ?_, ?_⟩
  · rw [hhandoffs, List.map_append, List.map_singleton, ← List.concat_eq_append]
    refine (List.nodup_concat _ i).2 ⟨?_, h.once⟩
    intro hm
    obtain ⟨m, hm, he⟩ := List.mem_map.1 hm
    exact hfresh m hm he
  · intro j d hj
    rw [hhandoffs]
    by_cases hij : j = i
    · subst hij
      cases hi.symm.trans hj
      refine ⟨fun _ => ?_, fun _ => hsent⟩
      exact ⟨_, List.mem_append_right _ List.mem_cons_self, rfl⟩
    · rw [h.sent j d ((hothers j hij).symm.trans hj)]
      constructor
      · rintro ⟨m, hm, he⟩
        exact ⟨m, List.mem_append_left _ hm, he⟩
      · rintro ⟨m, hm, he⟩
        obtain hm | hm := List.mem_append.1 hm
        · exact ⟨m, hm, he⟩
        · rw [List.mem_singleton.1 hm] at he
          exact absurd he.symm hij
  · intro m hm
    rw [hhandoffs] at hm
    obtain hm | hm := List.mem_append.1 hm
    · obtain ⟨d, hd, hsrc⟩ := h.source m hm
      exact ⟨d, (hothers _ (hfresh m hm)).trans hd, hsrc⟩
    · obtain rfl := List.mem_singleton.1 hm
      exact ⟨_, hi, rfl, rfl⟩
  · intro j d hj hpc
    by_cases hij : j = i
    · subst hij
      cases hi.symm.trans hj
      refine ⟨hw hpc, ?_⟩
      intro x hx he
      exact absurd he (hfresh _ (List.mem_append_left _ (List.mem_map_of_mem hx)))
    · exact h.waits j d ((hothers j hij).symm.trans hj) hpc
  · intro j d res hj hpc
    by_cases hij : j = i
    · subst hij
      cases hi.symm.trans hj
      exact absurd hpc (ha res)
    · exact h.answers j d res ((hothers j hij).symm.trans hj) hpc

theorem Dispatcher.Matches.fresh (h : s.Matches) (hm : m ∈ s.handoffs) :
    m.call ≠ s.calls.length := by
  obtain ⟨c, hc, _⟩ := h.source m hm
  exact Nat.ne_of_lt (List.getElem?_eq_some_iff.1 hc).1

theorem Dispatcher.Matches.serve (h : s.Matches) (addr : SocketAddr)
    (inbound : IncomingConnection) (authority : Option String) :
    (s.serve addr inbound authority).Matches := by
  have hself (c : ServiceCall ρ) : (s.calls ++ [c])[s.calls.length]? = some c :=
    List.getElem?_concat_length
  have hothers (c : ServiceCall ρ) (j : Nat) (hj : j ≠ s.calls.length) :
      (s.calls ++ [c])[j]? = s.calls[j]? := by
    by_cases hlt : j < s.calls.length
    · exact List.getElem?_append_left hlt
    · have hlen : (s.calls ++ [c]).length = s.calls.length + 1 := List.length_append
      rw [List.getElem?_eq_none (by omega), List.getElem?_eq_none (by omega)]
  have hnone : ¬ ∃ m ∈ s.handoffs, m.call = s.calls.length :=
    fun ⟨m, hm, he⟩ => h.fresh hm he
  cases authority with
  | none =>
    refine h.keep (hself ⟨inbound, none, .badRequest⟩) (hothers _) ?_ ?_ nofun nofun
    · exact iff_of_false nofun hnone
    · exact fun m hm he => absurd he (h.fresh hm)
  | some host =>
    cases inbound with
    | connectMethod =>
      refine h.keep (hself ⟨.connectMethod, some (.new host addr), .upgrading⟩) (hothers _) ?_ ?_
        nofun nofun
      · exact iff_of_false nofun hnone
      · exact fun m hm he => absurd he (h.fresh hm)
    | nonConnectMethod =>
      exact h.send (hself ⟨.nonConnectMethod, some (.new host addr), .waiting⟩) (hothers _) rfl
        (fun _ => rfl) nofun (fun m hm => h.fresh hm)

theorem Dispatcher.Matches.unsent (h : s.Matches)
    (hc : s.calls[i]? = some ⟨inbound, some peer, .upgrading⟩) (hm : m ∈ s.handoffs) :
    m.call ≠ i := by
  intro he
  cases (h.sent i _ hc).2 ⟨m, hm, he⟩

theorem getElem?_set_call {l : List α} (hc : l[i]? = some c) (d : α) : (l.set i d)[i]? = some d :=
  List.getElem?_set_self (List.getElem?_eq_some_iff.1 hc).1

theorem Dispatcher.Matches.upgrade (h : s.Matches)
    (hc : s.calls[i]? = some ⟨inbound, some peer, .upgrading⟩) :
    Matches ⟨s.calls.set i ⟨inbound, some peer, .upgraded⟩, s.channel ++ [⟨i, inbound, peer⟩],
      s.handlers⟩ :=
  h.send (getElem?_set_call hc _) (fun _ hij => List.getElem?_set_ne hij.symm) rfl nofun nofun
    (fun _ hm => h.unsent hc hm)

theorem Dispatcher.Matches.upgradeFails (h : s.Matches)
    (hc : s.calls[i]? = some ⟨inbound, some peer, .upgrading⟩) :
    Matches ⟨s.calls.set i ⟨inbound, some peer, .upgradeFailed⟩, s.channel, s.handlers⟩ := by
  refine h.keep (getElem?_set_call hc _) (fun j hij => List.getElem?_set_ne hij.symm) ?_ ?_ nofun
    nofun
  · exact iff_of_false nofun (fun ⟨m, hm, he⟩ => h.unsent hc hm he)
  · exact fun m hm he => absurd he (h.unsent hc hm)

theorem Dispatcher.Matches.abandon (h : s.Matches)
    (hc : s.calls[i]? = some ⟨inbound, peer, .waiting⟩) :
    Matches ⟨s.calls.set i ⟨inbound, peer, .abandoned⟩, s.channel, s.handlers⟩ := by
  refine h.keep (getElem?_set_call hc _) (fun j hij => List.getElem?_set_ne hij.symm) ?_ ?_ nofun
    nofun
  · exact iff_of_true rfl ((h.sent i _ hc).1 rfl)
  · rintro m hm rfl
    obtain ⟨c, hc', hsrc⟩ := h.source m hm
    cases hc.symm.trans hc'
    exact hsrc

theorem handoffs_receive (hc : s.channel = m :: ms) :
    Dispatcher.handoffs ⟨s.calls, ms, s.handlers ++ [⟨m, none⟩]⟩ = s.handoffs := by
  simp only [Dispatcher.handoffs, hc, List.map_append, List.map_cons, List.map_nil,
    List.append_assoc]
  rfl

theorem Dispatcher.Matches.receive (h : s.Matches) (hc : s.channel = m :: ms) :
    Matches ⟨s.calls, ms, s.handlers ++ [⟨m, none⟩]⟩ := by
  have hhandoffs := handoffs_receive hc
  refine ⟨?_, ?_, ?_, ?_, ?_⟩
  · rw [hhandoffs]
    exact h.once
  · rw [hhandoffs]
    exact h.sent
  · rw [hhandoffs]
    exact h.source
  · intro i c hi hpc
    obtain ⟨hin, hall⟩ := h.waits i c hi hpc
    refine ⟨hin, ?_⟩
    intro x hx he
    obtain hx | hx := List.mem_append.1 hx
    · exact hall x hx he
    · rw [List.mem_singleton.1 hx]
  · intro i c res hi hpc
    obtain ⟨x, hx, hres⟩ := h.answers i c res hi hpc
    exact ⟨x, List.mem_append_left _ hx, hres⟩

theorem ServicePc.receive_sent (pc : ServicePc ρ) (res : ρ) : (pc.receive res).sent = pc.sent := by
  cases pc <;> rfl

theorem ServicePc.receive_not_waiting (pc : ServicePc ρ) (res : ρ) : pc.receive res ≠ .waiting := by
  intro h
  cases pc <;> cases h

/-- An answered call has the new answer if it was waiting, and the old one otherwise. -/
theorem ServicePc.of_receive_answered {pc : ServicePc ρ} (h : pc.receive res = .answered res') :
    res = res' ∨ pc = .answered res' := by
  cases pc with
  | waiting =>
    cases h
    exact .inl rfl
  | _ => exact .inr h

theorem mem_set_of_ne {l : List α} (hk : l[k]? = some x) (hy : y ∈ l) (hne : y ≠ x) :
    y ∈ l.set k z := by
  obtain ⟨j, hj⟩ := List.mem_iff_getElem?.1 hy
  have hjk : k ≠ j := by
    rintro rfl
    exact hne (Option.some.inj (hj.symm.trans hk))
  apply List.mem_of_getElem? (i := j)
  rw [List.getElem?_set_ne hjk, hj]

theorem handoffs_answer (hk : s.handlers[k]? = some ⟨⟨i, .nonConnectMethod, peer⟩, none⟩)
    (res : ρ) (calls : List (ServiceCall ρ)) : Dispatcher.handoffs ⟨calls, s.channel,
      s.handlers.set k ⟨⟨i, .nonConnectMethod, peer⟩, some res⟩⟩ = s.handoffs :=
  congrArg (· ++ s.channel) (map_set_same hk rfl)

theorem Dispatcher.Matches.answer (h : s.Matches)
    (hk : s.handlers[k]? = some ⟨⟨i, .nonConnectMethod, peer⟩, none⟩) (res : ρ) :
    Matches ⟨s.calls.modify i (ServiceCall.receive res), s.channel,
      s.handlers.set k ⟨⟨i, .nonConnectMethod, peer⟩, some res⟩⟩ := by
  have hhandoffs := handoffs_answer hk res (s.calls.modify i (ServiceCall.receive res))
  have hcalls (j : Nat) (c : ServiceCall ρ)
      (hj : (s.calls.modify i (ServiceCall.receive res))[j]? = some c) :
      ∃ d, s.calls[j]? = some d ∧ c = if i = j then d.receive res else d := by
    rw [List.getElem?_modify] at hj
    obtain ⟨d, hd, hc⟩ := Option.map_eq_some_iff.1 hj
    exact ⟨d, hd, hc.symm⟩
  refine ⟨?_, ?_, ?_, ?_, ?_⟩
  · rw [hhandoffs]
    exact h.once
  · intro j c hj
    rw [hhandoffs]
    obtain ⟨d, hd, rfl⟩ := hcalls j c hj
    rw [← h.sent j d hd]
    split
    · rw [ServiceCall.receive, ServicePc.receive_sent]
    · rfl
  · intro m hm
    rw [hhandoffs] at hm
    obtain ⟨d, hd, hin, hpeer⟩ := h.source m hm
    refine ⟨if i = m.call then d.receive res else d, ?_, ?_, ?_⟩
    · rw [List.getElem?_modify, hd]
      split <;> rfl
    · split <;> exact hin
    · split <;> exact hpeer
  · intro j c hj hpc
    obtain ⟨d, hd, rfl⟩ := hcalls j c hj
    by_cases hij : i = j
    · rw [if_pos hij] at hpc
      exact absurd hpc (d.pc.receive_not_waiting res)
    · rw [if_neg hij] at hpc ⊢
      obtain ⟨hin, hall⟩ := h.waits j d hd hpc
      refine ⟨hin, ?_⟩
      intro x hx he
      obtain hx | rfl := List.mem_or_eq_of_mem_set hx
      · exact hall x hx he
      · exact absurd he hij
  · intro j c res' hj hpc
    obtain ⟨d, hd, rfl⟩ := hcalls j c hj
    have hold (hpc : d.pc = .answered res') : ∃ x ∈ s.handlers.set k
        ⟨⟨i, .nonConnectMethod, peer⟩, some res⟩, x.handoff.call = j ∧ x.answer = some res' := by
      obtain ⟨x, hx, he, hres⟩ := h.answers j d res' hd hpc
      refine ⟨x, mem_set_of_ne hk hx ?_, he, hres⟩
      rintro rfl
      cases hres
    by_cases hij : i = j
    · rw [if_pos hij] at hpc
      obtain rfl | hpc := ServicePc.of_receive_answered hpc
      · exact ⟨_, List.mem_of_getElem? (List.getElem?_set_self
          (List.getElem?_eq_some_iff.1 hk).1), hij, rfl⟩
      · exact hold hpc
    · rw [if_neg hij] at hpc
      exact hold hpc

theorem Dispatcher.Matches.step (h : s.Matches) (hs : Step s a s') : s'.Matches := by
  cases hs with
  | call => exact h.serve _ _ _
  | upgrade hc => exact h.upgrade hc
  | upgradeFails hc => exact h.upgradeFails hc
  | abandon hc => exact h.abandon hc
  | receive hc => exact h.receive hc
  | answer hk => exact h.answer hk _

theorem Dispatcher.run_matches (hr : run Dispatcher.step start acts = some s) : s.Matches :=
  run_preserves Matches (fun h hs => h.step (step_cases hs)) start_matches hr

theorem Dispatcher.step_prefix (hs : Step s a s') : s.handoffs <+: s'.handoffs ∧
    s.handlers.map Handler.handoff <+: s'.handlers.map Handler.handoff := by
  have hsend (calls : List (ServiceCall ρ)) (sent : List Handoff) :
      s.handoffs <+: handoffs ⟨calls, s.channel ++ sent, s.handlers⟩ :=
    ⟨sent, List.append_assoc ..⟩
  have hquiet (calls : List (ServiceCall ρ)) :
      s.handoffs <+: handoffs ⟨calls, s.channel, s.handlers⟩ := List.prefix_rfl
  cases hs with
  | call =>
    rename_i inbound authority addr
    cases authority with
    | none => exact ⟨hquiet _, List.prefix_rfl⟩
    | some host =>
      cases inbound with
      | connectMethod => exact ⟨hquiet _, List.prefix_rfl⟩
      | nonConnectMethod => exact ⟨hsend _ _, List.prefix_rfl⟩
  | upgrade => exact ⟨hsend _ _, List.prefix_rfl⟩
  | upgradeFails => exact ⟨hquiet _, List.prefix_rfl⟩
  | abandon => exact ⟨hquiet _, List.prefix_rfl⟩
  | receive hc =>
    rw [handoffs_receive hc, List.map_append]
    exact ⟨List.prefix_rfl, List.prefix_append ..⟩
  | answer hk =>
    rename_i k res i peer
    have hmap : (s.handlers.set k ⟨⟨i, .nonConnectMethod, peer⟩, some res⟩).map Handler.handoff =
        s.handlers.map Handler.handoff := map_set_same hk rfl
    rw [handoffs_answer hk, hmap]
    exact ⟨List.prefix_rfl, List.prefix_rfl⟩

theorem Dispatcher.run_prefix (hr : run Dispatcher.step s acts = some s') :
    s.handoffs <+: s'.handoffs ∧
      s.handlers.map Handler.handoff <+: s'.handlers.map Handler.handoff := by
  refine run_preserves (fun u => s.handoffs <+: u.handoffs ∧
    s.handlers.map Handler.handoff <+: u.handlers.map Handler.handoff) ?_
    ⟨List.prefix_rfl, List.prefix_rfl⟩ hr
  intro u v a hu hs
  have hstep := Dispatcher.step_prefix (step_cases hs)
  exact ⟨hu.1.trans hstep.1, hu.2.trans hstep.2⟩

end

/-- The proxy's own steps: it takes messages from the channel, and a handler answers its call with
that call's reply. -/
def Replying (reply : Nat → ρ) (s : Dispatcher ρ) : DispatchAct ρ → Prop
  | .receive => True
  | .answer k res => ∀ h, s.handlers[k]? = some h → res = reply h.handoff.call
  | _ => False

/-- The calls that waited in `s` still wait, or have their reply. -/
def Dispatcher.Serves (reply : Nat → ρ) (s t : Dispatcher ρ) : Prop :=
  ∀ (i : Nat) (c : ServiceCall ρ), s.calls[i]? = some c → c.pc = .waiting →
    ∃ d : ServiceCall ρ, t.calls[i]? = some d ∧ (d.pc = .waiting ∨ d.pc = .answered (reply i))

def Handler.toDo (h : Handler ρ) : Nat := if h.answer.isNone then 1 else 0

def Dispatcher.toDo (s : Dispatcher ρ) : Nat := 2 * s.channel.length + total Handler.toDo s.handlers

section
variable {reply : Nat → ρ} {s t t' : Dispatcher ρ}

theorem Dispatcher.Serves.step (h : Serves reply s t) (ha : Replying reply t a)
    (hs : Step t a t') : Serves reply s t' := by
  cases hs with
  | call => cases ha
  | upgrade => cases ha
  | upgradeFails => cases ha
  | abandon => cases ha
  | receive => exact h
  | answer hk =>
    rename_i k res i peer
    obtain rfl : res = reply i := ha _ hk
    intro j c hj hpc
    obtain ⟨d, hd, hwait⟩ := h j c hj hpc
    refine ⟨if i = j then d.receive (reply i) else d, ?_, ?_⟩
    · rw [List.getElem?_modify, hd]
      split <;> rfl
    · by_cases hij : i = j
      · subst hij
        rw [if_pos rfl, ServiceCall.receive]
        obtain hw | hw := hwait
        · exact .inr (by rw [hw]; rfl)
        · exact .inr (by rw [hw]; rfl)
      · rwa [if_neg hij]

/-- While a call waits, the channel has a message or the call's own handler has not answered. -/
theorem Dispatcher.Matches.proceeds (h : t.Matches) (reply : Nat → ρ) (hc : c ∈ t.calls)
    (hpc : c.pc = .waiting) :
    ∃ a t', Replying reply t a ∧ t.step a = some t' ∧ t'.toDo < t.toDo := by
  cases hchan : t.channel with
  | cons m channel =>
    refine ⟨.receive, ⟨t.calls, channel, t.handlers ++ [⟨m, none⟩]⟩, trivial, ?_, ?_⟩
    · simp only [Dispatcher.step, hchan]
    · have hnew : Handler.toDo (⟨m, none⟩ : Handler ρ) = 1 := rfl
      simp only [toDo, hchan, total_append, total, hnew, List.length_cons]
      omega
  | nil =>
    obtain ⟨i, hi⟩ := List.mem_iff_getElem?.1 hc
    have hsent : c.pc.sent = true := by rw [hpc]; rfl
    obtain ⟨m, hm, hcall⟩ := (h.sent i c hi).1 hsent
    obtain ⟨hin, hall⟩ := h.waits i c hi hpc
    have hm' : m ∈ t.handlers.map Handler.handoff := by
      simpa only [handoffs, hchan, List.append_nil] using hm
    obtain ⟨x, hx, rfl⟩ := List.mem_map.1 hm'
    obtain ⟨k, hk⟩ := List.mem_iff_getElem?.1 hx
    obtain ⟨d, hd, hin', _⟩ := h.source _ hm
    rw [hcall] at hd
    cases hi.symm.trans hd
    have hans := hall x hx hcall
    obtain ⟨⟨j, inbound, peer⟩, answer⟩ := x
    obtain rfl : inbound = .nonConnectMethod := hin'.symm.trans hin
    obtain rfl : answer = none := hans
    obtain rfl : j = i := hcall
    have hstep : t.step (.answer k (reply j)) = some ⟨t.calls.modify j
        (ServiceCall.receive (reply j)), t.channel,
        t.handlers.set k ⟨⟨j, .nonConnectMethod, peer⟩, some (reply j)⟩⟩ := by
      simp only [Dispatcher.step, hk]
    refine ⟨.answer k (reply j), _, ?_, hstep, ?_⟩
    · intro y hy
      cases hk.symm.trans hy
      rfl
    · have htotal := total_set Handler.toDo hk ⟨⟨j, .nonConnectMethod, peer⟩, some (reply j)⟩
      have hold : Handler.toDo (⟨⟨j, .nonConnectMethod, peer⟩, none⟩ : Handler ρ) = 1 := rfl
      have hnew : Handler.toDo (⟨⟨j, .nonConnectMethod, peer⟩, some (reply j)⟩ : Handler ρ) = 0 :=
        rfl
      simp only [toDo]
      omega

end

/-- In every run each call's message is sent at most once, for that call's own request and peer,
and the messages are received in the order in which they were sent. A call that waits has its
message on the way or with a handler that has not answered, and one that was answered has its own
handler's answer. Whatever the handlers reply, the proxy can give every waiting call its reply
without any further step of the browsers. -/
theorem dispatch_matches (acts : List (DispatchAct ρ)) (s : Dispatcher ρ)
    (hrun : run Dispatcher.step .start acts = some s) :
    s.Matches ∧
    (∀ more t, run Dispatcher.step s more = some t → s.handoffs <+: t.handoffs ∧
      s.handlers.map Handler.handoff <+: t.handlers.map Handler.handoff) ∧
    ∀ reply : Nat → ρ, ∃ more t, run Dispatcher.step s more = some t ∧
      AllSteps Dispatcher.step (Replying reply) s more ∧
      ∀ (i : Nat) (c : ServiceCall ρ), s.calls[i]? = some c → c.pc = .waiting →
        ∃ d : ServiceCall ρ, t.calls[i]? = some d ∧ d.pc = .answered (reply i) := by
  have hm := Dispatcher.run_matches hrun
  refine ⟨hm, fun _ _ => Dispatcher.run_prefix, ?_⟩
  intro reply
  have hstep {u : Dispatcher ρ} (hu : u.Matches ∧ s.Serves reply u)
      (hleft : ¬ (s.Serves reply u ∧ ∀ c ∈ u.calls, c.pc ≠ .waiting)) :
      ∃ a v, Replying reply u a ∧ u.step a = some v ∧ (v.Matches ∧ s.Serves reply v) ∧
        v.toDo < u.toDo := by
    have hwait : ∃ c ∈ u.calls, c.pc = .waiting := by
      by_contra hno
      exact hleft ⟨hu.2, fun c hc hpc => hno ⟨c, hc, hpc⟩⟩
    obtain ⟨c, hc, hpc⟩ := hwait
    obtain ⟨a, v, ha, hv, hlt⟩ := hu.1.proceeds reply hc hpc
    have hstep := Dispatcher.step_cases hv
    exact ⟨a, v, ha, hv, ⟨hu.1.step hstep, hu.2.step ha hstep⟩, hlt⟩
  obtain ⟨more, t, hr, hall, ht⟩ :=
    exists_run_of_measure _ _ _ hstep ⟨hm, fun _ c hc hpc => ⟨c, hc, .inl hpc⟩⟩
  refine ⟨more, t, hr, hall, ?_⟩
  intro i c hc hpc
  obtain ⟨d, hd, hwait⟩ := ht.1 i c hc hpc
  exact ⟨d, hd, hwait.resolve_left (ht.2 d (List.mem_of_getElem? hd))⟩

/-- A request that waits for its handler, a tunnel whose message is on the way, and a request
without an authority. -/
def threeCalls : List (DispatchAct Nat) :=
  [.call .nonConnectMethod (some "a.org") ⟨.v4 1, 7⟩,
    .call .connectMethod (some "b.org:443") ⟨.v4 1, 8⟩,
    .call .nonConnectMethod none ⟨.v4 2, 7⟩, .upgrade 1 true, .receive]

theorem threeCalls_matches : ∃ s, run Dispatcher.step .start threeCalls = some s ∧ s.Matches ∧
    s.handoffs.map Handoff.call = [0, 1] ∧ s.channel.map Handoff.call = [1] ∧
    ∃ more t, run Dispatcher.step s more = some t ∧
      ∃ d : ServiceCall Nat, t.calls[0]? = some d ∧ d.pc = .answered 200 := by
  obtain ⟨s, hs, hsent, hchan, c, hc, hpc⟩ : ∃ s : Dispatcher Nat,
      run Dispatcher.step .start threeCalls = some s ∧ s.handoffs.map Handoff.call = [0, 1] ∧
      s.channel.map Handoff.call = [1] ∧ ∃ c, s.calls[0]? = some c ∧ c.pc = .waiting :=
    ⟨_, rfl, rfl, rfl, _, rfl, rfl⟩
  obtain ⟨hm, _, hreply⟩ := dispatch_matches threeCalls s hs
  obtain ⟨more, t, hr, _, hall⟩ := hreply fun _ => 200
  exact ⟨s, hs, hm, hsent, hchan, more, t, hr, hall 0 c hc hpc⟩

end Octoproxy
