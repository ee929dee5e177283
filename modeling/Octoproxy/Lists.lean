import Mathlib.Algebra.Order.Floor.Div
import Mathlib.Data.Int.CardIntervalMod
import Mathlib.Data.List.Forall2

namespace Lists
set_option autoImplicit true

section EarliestMin
variable {T C : Type} [LinearOrder C] {cost cost' : T → C} {l : List T}

/-- The item is the first of those with the lowest cost. -/
def EarliestMin (cost : T → C) (l : List T) (b : T) : Prop :=
  ∃ pre post, l = pre ++ b :: post ∧ (∀ x ∈ pre, cost b < cost x) ∧ ∀ x ∈ post, cost b ≤ cost x

theorem EarliestMin.le (h : EarliestMin cost l b) (hx : x ∈ l) : cost b ≤ cost x := by
  obtain ⟨pre, post, rfl, hpre, hpost⟩ := h
  rw [List.mem_append, List.mem_cons] at hx
  obtain hx | rfl | hx := hx
  · exact (hpre x hx).le
  · exact le_rfl
  · exact hpost x hx

theorem EarliestMin.mem (h : EarliestMin cost l b) : b ∈ l := by
  obtain ⟨pre, post, rfl, -⟩ := h
  exact List.mem_append_right pre List.mem_cons_self

/-- A list has at most one earliest minimum. -/
theorem EarliestMin.unique (h : EarliestMin cost l b) (h' : EarliestMin cost l b') : b = b' := by
  obtain ⟨pre, post, rfl, hpre, hpost⟩ := h
  obtain ⟨pre', post', hl, hpre', hpost'⟩ := h'
  obtain ⟨as, h1, h2⟩ | ⟨as, h1, h2⟩ := List.append_eq_append_iff.1 hl
  · cases as with
    | nil => exact (List.cons.inj h2).1
    | cons x as =>
      obtain ⟨rfl, rfl⟩ := List.cons.inj h2
      have hlt := hpre' b (h1 ▸ List.mem_append_right pre List.mem_cons_self)
      exact absurd (hpost b' (List.mem_append_right as List.mem_cons_self)) (not_le.2 hlt)
  · cases as with
    | nil => exact (List.cons.inj h2).1.symm
    | cons x as =>
      obtain ⟨rfl, rfl⟩ := List.cons.inj h2
      have hlt := hpre b' (h1 ▸ List.mem_append_right pre' List.mem_cons_self)
      exact absurd (hpost' b (List.mem_append_right as List.mem_cons_self)) (not_le.2 hlt)

/-- A minimum can only be the earliest one where it first occurs. -/
theorem EarliestMin.at_first {pre post : List T} (h : EarliestMin cost (pre ++ b :: post) b)
    (hb : b ∉ pre) : (∀ x ∈ pre, cost b < cost x) ∧ ∀ x ∈ post, cost b ≤ cost x := by
  refine ⟨?_, fun x hx => h.le (List.mem_append_right pre (List.mem_cons_of_mem b hx))⟩
  obtain ⟨pre', post', hl, hpre', -⟩ := h
  obtain ⟨as, rfl, h2⟩ | ⟨as, rfl, h2⟩ := List.append_eq_append_iff.1 hl
  · intro x hx
    exact hpre' x (List.mem_append_left as hx)
  · cases as with
    | nil => rwa [List.append_nil]
    | cons x as =>
      obtain ⟨rfl, -⟩ := List.cons.inj h2
      exact absurd (List.mem_append_right pre' List.mem_cons_self) hb

theorem EarliestMin.concat (h : EarliestMin cost l b) (x : T) :
    EarliestMin cost (l ++ [x]) (if cost b ≤ cost x then b else x) := by
  split
  · rename_i hle
    obtain ⟨pre, post, rfl, hpre, hpost⟩ := h
    refine ⟨pre, post ++ [x], by simp, hpre, ?_⟩
    intro y hy
    obtain hy | hy := List.mem_append.1 hy
    · exact hpost y hy
    · rw [List.mem_singleton.1 hy]
      exact hle
  · rename_i hlt
    refine ⟨l, [], rfl, ?_, fun y hy => absurd hy List.not_mem_nil⟩
    intro y hy
    exact lt_of_lt_of_le (not_le.1 hlt) (h.le hy)

theorem EarliestMin.congr (hc : ∀ x ∈ l, cost x = cost' x) (h : EarliestMin cost l b) :
    EarliestMin cost' l b := by
  have hb := hc b h.mem
  obtain ⟨pre, post, rfl, hpre, hpost⟩ := h
  refine ⟨pre, post, rfl, ?_, ?_⟩
  · intro x hx
    rw [← hb, ← hc x (List.mem_append_left _ hx)]
    exact hpre x hx
  · intro x hx
    rw [← hb, ← hc x (List.mem_append_right pre (List.mem_cons_of_mem b hx))]
    exact hpost x hx

end EarliestMin

section Pointwise
variable {α β : Type} {R S : α → β → Prop} {l : List α}

theorem forall₂_of_exists (h : ∀ a ∈ l, ∃ b, R a b) : ∃ bs, List.Forall₂ R l bs := by
  induction l with
  | nil => exact ⟨[], .nil⟩
  | cons a l ih =>
    obtain ⟨⟨b, hb⟩, hl⟩ := List.forall_mem_cons.1 h
    obtain ⟨bs, hbs⟩ := ih hl
    exact ⟨b :: bs, .cons hb hbs⟩

theorem exists_of_forall₂ (h : List.Forall₂ R l bs) : ∀ a ∈ l, ∃ b, R a b := by
  induction h with
  | nil => exact fun a ha => absurd ha List.not_mem_nil
  | cons hab _ ih => exact List.forall_mem_cons.2 ⟨⟨_, hab⟩, ih⟩

theorem forall₂_mono (hRS : ∀ a ∈ l, ∀ b, R a b → S a b) (h : List.Forall₂ R l bs) :
    List.Forall₂ S l bs := by
  induction h with
  | nil => exact .nil
  | cons hab _ ih =>
    obtain ⟨ha, hl⟩ := List.forall_mem_cons.1 hRS
    exact .cons (ha _ hab) (ih hl)

theorem forall₂_agree (hR : ∀ {a b b'}, R a b → R a b' → b = b')
    (hS : ∀ {a b b'}, S a b → S a b' → b = b') (h : List.Forall₂ R l bs)
    (h' : List.Forall₂ S l bs) : ∀ a ∈ l, ∀ b, R a b ↔ S a b := by
  induction h with
  | nil => exact fun a ha => absurd ha List.not_mem_nil
  | cons hab _ ih =>
    cases h' with
    | cons hab' h' =>
      refine List.forall_mem_cons.2 ⟨?_, ih h'⟩
      intro b
      constructor
      · intro hb
        rwa [hR hb hab]
      · intro hb
        rwa [hS hb hab']

/-- Two partial functions have the same results on a list exactly when they agree on its entries,
or each of them is undefined somewhere on it. -/
theorem forall₂_congr_iff (hR : ∀ {a b b'}, R a b → R a b' → b = b')
    (hS : ∀ {a b b'}, S a b → S a b' → b = b') :
    (∀ bs, List.Forall₂ R l bs ↔ List.Forall₂ S l bs) ↔
      (∀ a ∈ l, ∀ b, R a b ↔ S a b) ∨ (∃ a ∈ l, ∀ b, ¬ R a b) ∧ ∃ a ∈ l, ∀ b, ¬ S a b := by
  constructor
  · intro h
    by_cases hall : ∀ a ∈ l, ∃ b, R a b
    · left
      obtain ⟨bs, hbs⟩ := forall₂_of_exists hall
      exact forall₂_agree hR hS hbs ((h bs).1 hbs)
    · right
      push Not at hall
      refine ⟨hall, ?_⟩
      by_contra hS'
      push Not at hS'
      obtain ⟨bs, hbs⟩ := forall₂_of_exists hS'
      obtain ⟨a, ha, hno⟩ := hall
      obtain ⟨b, hb⟩ := exists_of_forall₂ ((h bs).2 hbs) a ha
      exact hno b hb
  · rintro (hagree | ⟨⟨a, ha, hno⟩, a', ha', hno'⟩) bs
    · constructor
      · intro h
        exact forall₂_mono (fun a ha b => (hagree a ha b).1) h
      · intro h
        exact forall₂_mono (fun a ha b => (hagree a ha b).2) h
    · constructor
      · intro h
        obtain ⟨b, hb⟩ := exists_of_forall₂ h a ha
        exact absurd hb (hno b)
      · intro h
        obtain ⟨b, hb⟩ := exists_of_forall₂ h a' ha'
        exact absurd hb (hno' b)

end Pointwise

section Count
variable {start n p k : Nat}

theorem add_mod_eq_iff (hs : start < n) (hp : p < n) (i : Nat) :
    (start + i) % n = p ↔ i ≡ p + (n - start) [MOD n] := by
  have hstart : start + (p + (n - start)) = p + n := by omega
  have hrem : (p + n) % n = p := by rw [Nat.add_mod_right, Nat.mod_eq_of_lt hp]
  constructor
  · intro h
    apply Nat.ModEq.add_left_cancel' start
    rw [hstart]
    exact h.trans hrem.symm
  · intro h
    have hadd := h.add_left start
    rw [hstart] at hadd
    exact Eq.trans hadd hrem

theorem ceilDiv_eq_succ (hn : 0 < n) (hk : 0 < k % n) : k ⌈/⌉ n = k / n + 1 := by
  have hdiv := Nat.div_add_mod' k n
  have hlt := Nat.mod_lt k hn
  rw [Nat.ceilDiv_eq_add_pred_div]
  apply Nat.div_eq_of_lt_le
  · rw [Nat.succ_mul]
    omega
  · rw [Nat.succ_mul, Nat.succ_mul]
    omega

/-- Of `k` consecutive numbers, either `⌊k / n⌋` or `⌈k / n⌉` have a given remainder. -/
theorem count_consecutive (hs : start < n) (hp : p < n) (k : Nat) :
    ((List.range k).map fun i => (start + i) % n).count p = k / n ∨
      ((List.range k).map fun i => (start + i) % n).count p = k ⌈/⌉ n := by
  have hn : 0 < n := Nat.zero_lt_of_lt hs
  have hcount : ((List.range k).map fun i => (start + i) % n).count p =
      k.count (· ≡ p + (n - start) [MOD n]) := by
    rw [List.count, List.countP_map, Nat.count]
    apply List.countP_congr
    intro i _
    simpa only [Function.comp_apply, beq_iff_eq, decide_eq_true_eq] using add_mod_eq_iff hs hp i
  rw [hcount, Nat.count_modEq_card k hn]
  split
  · rename_i hlt
    right
    exact (ceilDiv_eq_succ hn (Nat.zero_lt_of_lt hlt)).symm
  · left
    rfl

end Count

end Lists
