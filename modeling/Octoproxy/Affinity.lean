import Octoproxy.Config

namespace Octoproxy
set_option autoImplicit true

namespace Config

def normalBefore (cfg : Config) (status : Nat → BackendStatus) (i : Nat) : Nat :=
  ((cfg.backends.take i).filter fun b => status b.backend = .normal).length

theorem getElem_backend (cfg : Config) (hi : i < cfg.backends.length) :
    cfg.backends[i].backend = i := by
  have h := cfg.numbered
  have hm : (cfg.backends.map ConfigBackend.backend)[i]? = (List.range cfg.backends.length)[i]? :=
    congrArg (·[i]?) h
  rw [List.getElem?_map, List.getElem?_eq_getElem hi, List.getElem?_range hi] at hm
  exact Option.some.inj hm

theorem availableBackends_nodup (cfg : Config) (status : Nat → BackendStatus) :
    ((cfg.availableBackends status).map ConfigBackend.backend).Nodup := by
  have h : (cfg.backends.map ConfigBackend.backend).Nodup := by
    rw [cfg.numbered]
    exact List.nodup_range
  exact (List.filter_sublist.map ConfigBackend.backend).nodup h

/-- A Normal backend stands in the filtered list behind the Normal ones listed before it. -/
theorem availableBackends_at (cfg : Config) (hi : i < cfg.backends.length)
    (hs : status i = .normal) :
    (cfg.availableBackends status)[cfg.normalBefore status i]? = some cfg.backends[i] := by
  have hsplit : cfg.availableBackends status =
      ((cfg.backends.take i).filter fun b => status b.backend = .normal) ++
        cfg.backends[i] :: ((cfg.backends.drop (i + 1)).filter fun b =>
          status b.backend = .normal) := by
    have hl : cfg.backends =
        cfg.backends.take i ++ cfg.backends[i] :: cfg.backends.drop (i + 1) := by
      rw [List.cons_getElem_drop_succ, List.take_append_drop]
    rw [availableBackends]
    conv => lhs; rw [hl]
    rw [List.filter_append, List.filter_cons_of_pos]
    rw [getElem_backend cfg hi, hs]
    rfl
  rw [hsplit, normalBefore, List.getElem?_append_right (Nat.le_refl _), Nat.sub_self]
  rfl

theorem normalBefore_lt (cfg : Config) (hi : i < cfg.backends.length)
    (hs : status i = .normal) :
    cfg.normalBefore status i < (cfg.availableBackends status).length := by
  have h := availableBackends_at cfg hi hs
  by_contra hn
  rw [List.getElem?_eq_none (Nat.le_of_not_lt hn)] at h
  cases h

theorem availableBackends_at_iff (cfg : Config) (hi : i < cfg.backends.length)
    (hs : status i = .normal) (hj : j < (cfg.availableBackends status).length) :
    (cfg.availableBackends status)[j].backend = i ↔ j = cfg.normalBefore status i := by
  have hk := normalBefore_lt cfg hi hs
  have hat : (cfg.availableBackends status)[cfg.normalBefore status i].backend = i := by
    have h := availableBackends_at cfg hi hs
    rw [List.getElem?_eq_getElem hk] at h
    rw [Option.some.inj h, getElem_backend cfg hi]
  constructor
  · intro he
    have hn := availableBackends_nodup cfg status
    rw [List.nodup_iff_injective_getElem] at hn
    have hf := @hn ⟨j, by rwa [List.length_map]⟩
      ⟨cfg.normalBefore status i, by rwa [List.length_map]⟩
      (by simp only [List.getElem_map, he, hat])
    exact congrArg Fin.val hf
  · rintro rfl
    exact hat

section
variable {C : Type} [LE C] [DecidableLE C]

def Picks (cfg : Config) (bal : Balancer) (c : Call C) (i : Nat) : Prop :=
  ∃ bal', cfg.nextAvailableBackend bal c = .ok (.gotBackend i, bal')

/-- The ring's id, which numbers all backends, happens to be the owner's place among the Normal
ones: all backends before the owner are Normal, or the id lies past the end of the filtered list
and wraps around onto the owner. -/
def Aligned (cfg : Config) (status : Nat → BackendStatus) (i : Nat) : Prop :=
  cfg.normalBefore status i = i ∨
    ((cfg.availableBackends status).length ≤ i ∧
      (i + 1) % (cfg.availableBackends status).length = cfg.normalBefore status i)

theorem picks_owner_iff (cfg : Config) (ring : String → Option Nat) (c : Call C) (i : Nat)
    (hrule : c.peer.getBackendNameByRule = .noRule) (hi : i < cfg.backends.length)
    (hring : ring c.peer.getHostname = some i)
    (htwo : 2 ≤ (cfg.availableBackends c.status).length) (hs : c.status i = .normal) :
    cfg.Picks (.uriHash ring) c i ↔ cfg.Aligned c.status i := by
  have hlt : UriHash.slot (cfg.availableBackends c.status).length i <
      (cfg.availableBackends c.status).length := UriHash.slot_lt i (by omega)
  have hk := normalBefore_lt cfg hi hs
  have hnext : cfg.nextAvailableBackend (.uriHash ring) c = .ok (.gotBackend
      (cfg.availableBackends c.status)[UriHash.slot _ i].backend, .uriHash ring) := by
    rw [next_of_two hrule htwo, Balancer.next, UriHash.next_eq _ _ _ (by omega), hring,
      Option.elim_some, List.getElem?_eq_getElem hlt]
    rfl
  have hpick : cfg.Picks (.uriHash ring) c i ↔
      (cfg.availableBackends c.status)[UriHash.slot _ i].backend = i := by
    unfold Picks
    rw [hnext]
    constructor
    · rintro ⟨bal', he⟩
      simp only [Except.ok.injEq, Prod.mk.injEq, AvailableBackend.gotBackend.injEq] at he
      exact he.1
    · intro he
      rw [he]
      exact ⟨_, rfl⟩
  rw [hpick, availableBackends_at_iff cfg hi hs hlt, Aligned, UriHash.slot]
  split <;> omega

/-- Over two availability states the owner keeps its host exactly when the ring's id is aligned
with the filtered list in both. -/
theorem affinity_iff_aligned (cfg : Config) (ring : String → Option Nat) (c c' : Call C) (i : Nat)
    (hpeer : c'.peer = c.peer) (hrule : c.peer.getBackendNameByRule = .noRule)
    (hi : i < cfg.backends.length) (hring : ring c.peer.getHostname = some i)
    (htwo : 2 ≤ (cfg.availableBackends c.status).length)
    (htwo' : 2 ≤ (cfg.availableBackends c'.status).length)
    (hs : c.status i = .normal) (hs' : c'.status i = .normal) :
    (cfg.Picks (.uriHash ring) c i ∧ cfg.Picks (.uriHash ring) c' i) ↔
      (cfg.Aligned c.status i ∧ cfg.Aligned c'.status i) := by
  rw [picks_owner_iff cfg ring c i hrule hi hring htwo hs,
    picks_owner_iff cfg ring c' i (by rwa [hpeer]) hi (by rwa [hpeer]) htwo' hs']

end

end Config

/-- Three backends, a host owned by the second: it is served by the second while all are Normal
and by the third once the first is closed. -/
theorem uri_hash_moves_host :
    ¬ ∀ (cfg : Config) (ring : String → Option Nat) (c c' : Call Nat) (i : Nat),
      c'.peer = c.peer → c.peer.getBackendNameByRule = .noRule → i < cfg.backends.length →
      ring c.peer.getHostname = some i →
      2 ≤ (cfg.availableBackends c.status).length →
      2 ≤ (cfg.availableBackends c'.status).length →
      c.status i = .normal → c'.status i = .normal →
      cfg.Picks (.uriHash ring) c i ∧ cfg.Picks (.uriHash ring) c' i := by
  intro h
  obtain ⟨_, bal', hp⟩ := h threeBackends (fun _ => some 1) (plainCall fun _ => .normal)
    (plainCall fun b => if b = 0 then .closed else .normal) 1 rfl rfl (by decide) rfl
    (by decide) (by decide) rfl rfl
  have hn : threeBackends.nextAvailableBackend (.uriHash fun _ => some 1)
      (plainCall fun b => if b = 0 then .closed else .normal) =
        .ok (.gotBackend 2, .uriHash fun _ => some 1) := rfl
  cases hn.symm.trans hp

theorem uri_hash_keeps_first_host :
    threeBackends.Picks (.uriHash fun _ => some 0) (plainCall fun _ => .normal) 0 ∧
      threeBackends.Picks (.uriHash fun _ => some 0)
        (plainCall fun b => if b = 2 then .closed else .normal) 0 :=
  (Config.affinity_iff_aligned threeBackends _ _ _ 0 rfl rfl (by decide) rfl (by decide)
    (by decide) rfl rfl).2 ⟨.inl rfl, .inl rfl⟩

end Octoproxy
