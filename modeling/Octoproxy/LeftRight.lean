import Mathlib.Data.List.Basic
import Mathlib.Data.List.Infix

namespace LeftRight
set_option autoImplicit true

variable {σ ω τ : Type}

/-- Two copies of one value. `pending` are the operations that the published copy has absorbed
and the other one has not. -/
structure Store (σ ω : Type) where
  published : σ
  other : σ
  pending : List ω

def Store.new (d : σ) : Store σ ω := ⟨d, d, []⟩

section
variable (absorb : τ → σ → ω → σ)

def absorbAll (t : τ) (d : σ) (ops : List ω) : σ := ops.foldl (absorb t) d

/-- The copy that was not published catches up, absorbs the new operations and is published;
both happen at the instant `t`. -/
def Store.publish (s : Store σ ω) (batch : τ × List ω) : Store σ ω :=
  ⟨absorbAll absorb batch.1 (absorbAll absorb batch.1 s.other s.pending) batch.2,
    s.published, batch.2⟩

def publishAll (d : σ) (batches : List (τ × List ω)) : Store σ ω :=
  batches.foldl (Store.publish absorb) (.new d)

/-- Every operation applied once, in order, at the instant it was issued, to one copy. -/
def sequential (d : σ) (batches : List (τ × List ω)) : σ :=
  batches.foldl (fun d b => absorbAll absorb b.1 d b.2) d

/-- Readers see the sequential value after every publish. -/
def Refines (d : σ) (batches : List (τ × List ω)) : Prop :=
  ∀ pre, pre <+: batches → (publishAll absorb d pre).published = sequential absorb d pre

/-- Absorbing `a` as late as `b` is issued makes no difference once `b` is absorbed. -/
def Tolerates (d : σ) (a b : τ × List ω) : Prop :=
  absorbAll absorb b.1 (absorbAll absorb b.1 d a.2) b.2 =
    absorbAll absorb b.1 (absorbAll absorb a.1 d a.2) b.2

end

variable {absorb : τ → σ → ω → σ} {d : σ}

theorem publishAll_concat (pre : List (τ × List ω)) (a : τ × List ω) :
    publishAll absorb d (pre ++ [a]) = (publishAll absorb d pre).publish absorb a := by
  simp only [publishAll, List.foldl_append, List.foldl_cons, List.foldl_nil]

theorem sequential_concat (pre : List (τ × List ω)) (a : τ × List ω) :
    sequential absorb d (pre ++ [a]) = absorbAll absorb a.1 (sequential absorb d pre) a.2 := by
  simp only [sequential, List.foldl_append, List.foldl_cons, List.foldl_nil]

theorem published_one (a : τ × List ω) :
    (publishAll absorb d [a]).published = sequential absorb d [a] := rfl

theorem published_two (pre : List (τ × List ω)) (a b : τ × List ω) :
    (publishAll absorb d (pre ++ [a] ++ [b])).published =
      absorbAll absorb b.1 (absorbAll absorb b.1 (publishAll absorb d pre).published a.2) b.2 := by
  rw [publishAll_concat, publishAll_concat]
  rfl

/-- What holds of the operations absorbed so far, at whatever instants, holds of the published
copy. -/
theorem published_induction {I : List (τ × List ω) → σ → Prop} (hnew : I [] d)
    (habsorb : ∀ pre a t d', I pre d' → I (pre ++ [a]) (absorbAll absorb t d' a.2))
    (batches : List (τ × List ω)) : I batches (publishAll absorb d batches).published := by
  -- two batches at a time: the copy that is published now was published two batches before
  have hboth : I batches (publishAll absorb d batches).published ∧
      ∀ a, I (batches ++ [a]) (publishAll absorb d (batches ++ [a])).published := by
    induction batches using List.reverseRecOn with
    | nil => exact ⟨hnew, fun a => habsorb [] a a.1 d hnew⟩
    | append_singleton pre a ih =>
      refine ⟨ih.2 a, ?_⟩
      intro b
      rw [published_two]
      exact habsorb _ b b.1 _ (habsorb pre a b.1 _ ih.1)
  exact hboth.1

theorem refines_concat {pre : List (τ × List ω)} :
    Refines absorb d (pre ++ [a]) ↔ Refines absorb d pre ∧
      (publishAll absorb d (pre ++ [a])).published = sequential absorb d (pre ++ [a]) := by
  constructor
  · intro h
    exact ⟨fun l hl => h l (hl.trans (List.prefix_append _ _)), h _ (List.prefix_refl _)⟩
  · rintro ⟨h, he⟩ l hl
    rcases List.prefix_concat_iff.1 hl with rfl | hl
    · exact he
    · exact h l hl

/-- Two copies behave as one exactly when every batch tolerates being absorbed a second time,
late, at the instant of the next one. -/
theorem refines_iff (batches : List (τ × List ω)) :
    Refines absorb d batches ↔ ∀ pre a b, pre ++ [a] ++ [b] <+: batches →
      Tolerates absorb (sequential absorb d pre) a b := by
  induction batches using List.reverseRecOn with
  | nil =>
    refine ⟨fun _ pre a b h => ?_, fun _ pre h => ?_⟩
    · simp at h
    · rw [List.prefix_nil.1 h]
      rfl
  | append_singleton l b ih =>
    rw [refines_concat, ih]
    constructor
    · rintro ⟨hl, hb⟩ pre a c hp
      rcases List.prefix_concat_iff.1 hp with he | hp
      · obtain ⟨rfl, rfl⟩ := List.append_singleton_inj.1 he
        have hpre := ih.2 hl pre (List.prefix_append _ _)
        rw [published_two, hpre, sequential_concat, sequential_concat] at hb
        exact hb
      · exact hl pre a c hp
    · intro h
      have hl : ∀ pre a c, pre ++ [a] ++ [c] <+: l →
          Tolerates absorb (sequential absorb d pre) a c :=
        fun pre a c hp => h pre a c (hp.trans (List.prefix_append _ _))
      refine ⟨hl, ?_⟩
      rcases List.eq_nil_or_concat l with rfl | ⟨pre, a, rfl⟩
      · exact published_one b
      · rw [List.concat_eq_append] at ih hl h ⊢
        have hpre := ih.2 hl pre (List.prefix_append _ _)
        rw [published_two, hpre, sequential_concat, sequential_concat]
        exact h pre a b (List.prefix_refl _)

end LeftRight
