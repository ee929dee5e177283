import Octoproxy.Config

namespace Octoproxy
set_option autoImplicit true

/-- What a rule says to those who ask it: no rule says as much as an empty section. -/
def HostRules.effect : HostRules → HostRuleSection
  | .gotRule sec => sec
  | .unknown => ⟨none, none, false⟩
  | .noRule => ⟨none, none, false⟩

def HostRuleSection.Speaks (sec : HostRuleSection) : Prop :=
  sec.rewrite.isSome = true ∨ sec.backend.isSome = true ∨ sec.direct = true

theorem HostRuleSection.isEmpty_iff {sec : HostRuleSection} :
    sec.isEmpty = true ↔ sec = ⟨none, none, false⟩ := by
  obtain ⟨rewrite, backend, direct⟩ := sec
  cases rewrite <;> cases backend <;> cases direct <;> simp [HostRuleSection.isEmpty]

theorem HostRuleSection.speaks_iff {sec : HostRuleSection} :
    sec.Speaks ↔ sec.isEmpty = false := by
  obtain ⟨rewrite, backend, direct⟩ := sec
  cases rewrite <;> cases backend <;> cases direct <;> simp [HostRuleSection.isEmpty, Speaks]

section
variable {r r' : HostRules} {l : List (String × HostRuleSection)}

theorem PeerInfo.getBackendNameByRule_effect (p : PeerInfo) (h : r.effect = r'.effect) :
    (p.setRule r).getBackendNameByRule = (p.setRule r').getBackendNameByRule := by
  have hsec (r : HostRules) : (p.setRule r).getBackendNameByRule =
      (p.setRule (.gotRule r.effect)).getBackendNameByRule := by
    cases r <;> rfl
  rw [hsec r, hsec r', h]

theorem PeerInfo.getHostByRule_effect (p : PeerInfo) (h : r.effect = r'.effect) :
    (p.setRule r).getHostByRule = (p.setRule r').getHostByRule := by
  have hsec (r : HostRules) : (p.setRule r).getHostByRule =
      (p.setRule (.gotRule r.effect)).getHostByRule := by
    cases r <;> rfl
  rw [hsec r, hsec r', h]

theorem lookup_cons_ne (h : host ≠ name) (sec : HostRuleSection) :
    ((name, sec) :: l).lookup host = l.lookup host := by
  rw [List.lookup_cons, beq_false_of_ne h]

theorem lookup_eq_none (h : host ∉ l.map Prod.fst) : l.lookup host = none := by
  apply List.lookup_eq_none_iff.2
  intro s hs
  apply bne_iff_ne.2
  rintro rfl
  exact h (List.mem_map_of_mem hs)

/-- With distinct hosts, dropping sections hides those sections and no others. -/
theorem lookup_filter (keep : HostRuleSection → Bool) (hn : (l.map Prod.fst).Nodup)
    (host : String) : (l.filter fun s => keep s.2).lookup host = (l.lookup host).filter keep := by
  induction l with
  | nil => rfl
  | cons s l ih =>
    obtain ⟨name, sec⟩ := s
    obtain ⟨hname, hn⟩ := List.nodup_cons.1 hn
    have hrest := ih hn
    rw [List.filter_cons]
    by_cases hh : host = name
    · subst hh
      rw [List.lookup_cons_self, Option.filter_some]
      split
      · exact List.lookup_cons_self
      · rw [hrest, lookup_eq_none hname]
        rfl
    · rw [lookup_cons_ne hh]
      split
      · rw [lookup_cons_ne hh, hrest]
      · exact hrest

end

/-- The rule that a lookup in the map of sections sets. -/
def HostRules.found : Option HostRuleSection → HostRules
  | some sec => .gotRule sec
  | none => .noRule

/-- The section of a host once those that say nothing are gone. -/
def HostRuler.speaking (parsed : HostRuler) (host : String) : Option HostRuleSection :=
  (parsed.sections.lookup host).filter fun sec => !sec.isEmpty

section
variable {parsed : HostRuler} {cfg : Config} {p : PeerInfo}

theorem HostRuler.findRule_unknown (h : p.rule = .unknown) :
    parsed.findRule p = p.setRule (.found (parsed.sections.lookup p.getHostname)) := by
  rw [HostRuler.findRule, if_neg (by rw [h]; exact nofun)]
  cases parsed.sections.lookup p.getHostname <;> rfl

/-- A ruler without its empty sections, or none at all, finds the sections that say something. -/
theorem Config.findRuleForPeer_unknown (hcfg : cfg.hostRule = HostRuler.new parsed)
    (h : p.rule = .unknown) :
    ∃ r, cfg.findRuleForPeer p = p.setRule r ∧
      r.effect = (HostRules.found (parsed.speaking p.getHostname)).effect ∧
      ∀ sec, r = .gotRule sec ↔ parsed.speaking p.getHostname = some sec := by
  have hlookup : (parsed.sections.filter fun s => !s.2.isEmpty).lookup p.getHostname =
      parsed.speaking p.getHostname :=
    lookup_filter (fun sec => !sec.isEmpty) parsed.nodup p.getHostname
  unfold Config.findRuleForPeer
  rw [hcfg, HostRuler.new]
  by_cases hnil : (parsed.sections.filter fun s => !s.2.isEmpty).isEmpty = true
  · -- No ruler is left, and the rule stays unknown.
    rw [List.isEmpty_iff.1 hnil] at hlookup
    have hnone : parsed.speaking p.getHostname = none := hlookup.symm
    rw [if_pos hnil, hnone]
    refine ⟨.unknown, ?_, rfl, fun sec => ⟨nofun, nofun⟩⟩
    rw [← h]
    rfl
  · rw [if_neg hnil]
    refine ⟨.found (parsed.speaking p.getHostname), ?_, rfl, ?_⟩
    · rw [← hlookup]
      exact HostRuler.findRule_unknown h
    · intro sec
      cases parsed.speaking p.getHostname with
      | none => exact ⟨nofun, nofun⟩
      | some sec' => simp only [HostRules.found, HostRules.gotRule.injEq, Option.some.injEq]

theorem found_effect (parsed : HostRuler) (host : String) :
    (HostRules.found (parsed.speaking host)).effect =
      (HostRules.found (parsed.sections.lookup host)).effect := by
  unfold HostRuler.speaking
  cases parsed.sections.lookup host with
  | none => rfl
  | some sec =>
    rw [Option.filter_some]
    cases he : sec.isEmpty with
    | false => rfl
    | true => rw [HostRuleSection.isEmpty_iff.1 he]; rfl

/-- Routing does not depend on the sections that say nothing, and a peer gets a rule exactly when
the section of its host says something. -/
theorem pruned_rules_route_alike (parsed : HostRuler) (cfg : Config)
    (hcfg : cfg.hostRule = HostRuler.new parsed) (host : String) (addr : SocketAddr) :
    (cfg.findRuleForPeer (.new host addr)).getBackendNameByRule =
        (parsed.findRule (.new host addr)).getBackendNameByRule ∧
      (cfg.findRuleForPeer (.new host addr)).getHostByRule =
        (parsed.findRule (.new host addr)).getHostByRule ∧
      ((∃ sec, (cfg.findRuleForPeer (.new host addr)).rule = .gotRule sec) ↔
        ∃ sec, parsed.sections.lookup (PeerInfo.new host addr).getHostname = some sec ∧
          sec.Speaks) := by
  obtain ⟨r, hr, heffect, hgot⟩ := Config.findRuleForPeer_unknown (p := .new host addr) hcfg rfl
  rw [found_effect] at heffect
  rw [hr, HostRuler.findRule_unknown rfl]
  refine ⟨PeerInfo.getBackendNameByRule_effect _ heffect,
    PeerInfo.getHostByRule_effect _ heffect, ?_⟩
  apply exists_congr
  intro sec
  rw [HostRuleSection.speaks_iff]
  apply (hgot sec).trans
  rw [HostRuler.speaking, Option.filter_eq_some_iff, Bool.not_eq_true']

end

/-- One host with an empty section, and one that is sent to a backend. -/
def twoSections : HostRuler where
  sections := [("a.com", ⟨none, none, false⟩), ("b.com", ⟨none, some "b", false⟩)]
  nodup := by decide

theorem two_sections_route_alike :
    ({ threeBackends with hostRule := HostRuler.new twoSections } : Config).hostRule =
        HostRuler.new twoSections ∧
      (({ threeBackends with hostRule := HostRuler.new twoSections } : Config).findRuleForPeer
        (.new "a.com:80" ⟨.v4 0, 0⟩)).getBackendNameByRule =
        (twoSections.findRule (.new "a.com:80" ⟨.v4 0, 0⟩)).getBackendNameByRule :=
  ⟨rfl, (pruned_rules_route_alike twoSections _ rfl "a.com:80" ⟨.v4 0, 0⟩).1⟩

end Octoproxy
