import Mathlib.Data.List.Basic

namespace Segments
set_option autoImplicit true

/-- As much of the next piece as fits into `cap` elements of room. At the end of the stream
nothing is read. -/
def takeSome (cap : Nat) : List (List α) → List α × List (List α)
  | [] => ([], [])
  | p :: ps => if cap < p.length then (p.take cap, p.drop cap :: ps) else (p, ps)

/-- Exactly `n` elements, over as many pieces as it takes; `none` if the stream ends first. -/
def takeExact : Nat → List (List α) → Option (List α × List (List α))
  | 0, ps => some ([], ps)
  | _ + 1, [] => none
  | n + 1, p :: ps =>
    if n + 1 < p.length then some (p.take (n + 1), p.drop (n + 1) :: ps)
    else (takeExact (n + 1 - p.length) ps).map fun r => (p ++ r.1, r.2)

def cutsOf : List (List α) → List Nat
  | [] => []
  | p :: ps => p.length :: (cutsOf ps).map (p.length + ·)

theorem takeSome_append (cap : Nat) (ps : List (List α)) :
    (takeSome cap ps).1 ++ (takeSome cap ps).2.flatten = ps.flatten := by
  cases ps with
  | nil => rfl
  | cons p ps =>
    simp only [takeSome]
    split
    · simp [← List.append_assoc]
    · rfl

theorem takeSome_nonempty (cap : Nat) (ps : List (List α)) (hne : ∀ p ∈ ps, p ≠ []) :
    ∀ p ∈ (takeSome cap ps).2, p ≠ [] := by
  cases ps with
  | nil => simp [takeSome]
  | cons p ps =>
    intro q hq
    simp only [takeSome] at hq
    split at hq
    · rename_i hc
      rcases List.mem_cons.1 hq with rfl | hq
      · simpa using hc
      · exact hne q (by simp [hq])
    · exact hne q (by simp [hq])

theorem takeExact_append {ps : List (List α)} (h : takeExact n ps = some r) :
    r.1.length = n ∧ r.1 ++ r.2.flatten = ps.flatten := by
  induction ps generalizing n r with
  | nil =>
    cases n with
    | zero => cases h; exact ⟨rfl, rfl⟩
    | succ n => cases h
  | cons p ps ih =>
    cases n with
    | zero => cases h; exact ⟨rfl, rfl⟩
    | succ n =>
      simp only [takeExact] at h
      split at h
      · rename_i hp
        cases h
        simp [← List.append_assoc]
        omega
      · rename_i hp
        obtain ⟨r', hr', rfl⟩ := Option.map_eq_some_iff.1 h
        obtain ⟨hl, ha⟩ := ih hr'
        simp [hl, ha]
        omega

theorem takeExact_nonempty {ps : List (List α)} (h : takeExact n ps = some r)
    (hne : ∀ p ∈ ps, p ≠ []) : ∀ p ∈ r.2, p ≠ [] := by
  induction ps generalizing n r with
  | nil =>
    cases n with
    | zero => cases h; simp
    | succ n => cases h
  | cons p ps ih =>
    have hps : ∀ q ∈ ps, q ≠ [] := fun q hq => hne q (by simp [hq])
    cases n with
    | zero => cases h; exact hne
    | succ n =>
      simp only [takeExact] at h
      split at h
      · rename_i hp
        cases h
        intro q hq
        rcases List.mem_cons.1 hq with rfl | hq
        · simpa using hp
        · exact hps q hq
      · obtain ⟨r', hr', rfl⟩ := Option.map_eq_some_iff.1 h
        exact @ih _ r' hr' hps

theorem takeExact_isSome (ps : List (List α)) (h : n ≤ ps.flatten.length) :
    ∃ r, takeExact n ps = some r := by
  induction ps generalizing n with
  | nil =>
    obtain rfl : n = 0 := by simpa using h
    exact ⟨_, rfl⟩
  | cons p ps ih =>
    cases n with
    | zero => exact ⟨_, rfl⟩
    | succ n =>
      simp only [takeExact]
      split
      · exact ⟨_, rfl⟩
      · rw [List.flatten_cons, List.length_append] at h
        obtain ⟨r, hr⟩ := @ih (n + 1 - p.length) (by omega)
        exact ⟨_, by rw [hr]; rfl⟩

theorem takeExact_cuts {ps : List (List α)} (h : takeExact n ps = some r) (hc : 0 < c) :
    c ∈ cutsOf r.2 ↔ n + c ∈ cutsOf ps := by
  induction ps generalizing n r with
  | nil =>
    cases n with
    | zero => cases h; simp
    | succ n => cases h
  | cons p ps ih =>
    cases n with
    | zero => cases h; simp
    | succ n =>
      simp only [takeExact] at h
      split at h
      · rename_i hp
        cases h
        simp only [cutsOf, List.length_drop, List.mem_cons, List.mem_map]
        constructor
        · rintro (rfl | ⟨d, hd, rfl⟩)
          · exact .inl (by omega)
          · exact .inr ⟨d, hd, by omega⟩
        · rintro (he | ⟨d, hd, he⟩)
          · exact .inl (by omega)
          · exact .inr ⟨d, hd, by omega⟩
      · rename_i hp
        obtain ⟨r', hr', rfl⟩ := Option.map_eq_some_iff.1 h
        simp only [ih hr', cutsOf, List.mem_cons, List.mem_map]
        constructor
        · intro hm
          exact .inr ⟨_, hm, by omega⟩
        · rintro (he | ⟨d, hd, he⟩)
          · omega
          · have hd' : d = n + 1 - p.length + c := by omega
            exact hd' ▸ hd

theorem cutsOf_pos (ps : List (List α)) (hne : ∀ p ∈ ps, p ≠ []) : ∀ c ∈ cutsOf ps, 0 < c := by
  induction ps with
  | nil => simp [cutsOf]
  | cons p ps ih =>
    have hp : 0 < p.length := List.length_pos_of_ne_nil (hne p (by simp))
    intro c hc
    rcases List.mem_cons.1 hc with rfl | hc
    · exact hp
    · obtain ⟨d, _, rfl⟩ := List.mem_map.1 hc
      omega

/-- A stream that arrives in pieces, none of them empty. -/
structure Segmented (α : Type) where
  pieces : List (List α)
  nonempty : ∀ p ∈ pieces, p ≠ []

namespace Segmented

def content (s : Segmented α) : List α := s.pieces.flatten

def cuts (s : Segmented α) : List Nat := cutsOf s.pieces

def readSome (cap : Nat) (s : Segmented α) : List α × Segmented α :=
  ((takeSome cap s.pieces).1, ⟨(takeSome cap s.pieces).2, takeSome_nonempty cap _ s.nonempty⟩)

def readExact (n : Nat) (s : Segmented α) : Option (List α × Segmented α) :=
  match h : takeExact n s.pieces with
  | none => none
  | some r => some (r.1, ⟨r.2, takeExact_nonempty h s.nonempty⟩)

/-- A whole piece; `none` at the end of the stream. -/
def readPiece : Segmented α → Option (List α × Segmented α)
  | ⟨[], _⟩ => none
  | ⟨p :: ps, h⟩ => some (p, ⟨ps, fun q hq => h q (List.mem_cons_of_mem p hq)⟩)

theorem readSome_content (cap : Nat) (s : Segmented α) :
    (s.readSome cap).1 ++ (s.readSome cap).2.content = s.content :=
  takeSome_append cap s.pieces

theorem cuts_pos (s : Segmented α) : ∀ c ∈ s.cuts, 0 < c := cutsOf_pos s.pieces s.nonempty

theorem readExact_eq {s t : Segmented α} :
    s.readExact n = some (a, t) ↔ takeExact n s.pieces = some (a, t.pieces) := by
  obtain ⟨ps, hne⟩ := t
  unfold readExact
  split
  · rename_i h
    simp [h]
  · rename_i r h
    refine Iff.trans ?_ (Eq.congr_left h).symm
    cases r
    simp

theorem readExact_isSome (s : Segmented α) (h : n ≤ s.content.length) :
    ∃ a t, s.readExact n = some (a, t) := by
  obtain ⟨⟨a, ps⟩, hr⟩ := takeExact_isSome s.pieces h
  exact ⟨a, ⟨ps, takeExact_nonempty hr s.nonempty⟩, readExact_eq.2 hr⟩

theorem readExact_content {s t : Segmented α} (h : s.readExact n = some (a, t)) :
    a.length = n ∧ a ++ t.content = s.content :=
  takeExact_append (readExact_eq.1 h)

theorem readExact_cuts {s t : Segmented α} (h : s.readExact n = some (a, t)) (hc : 0 < c) :
    c ∈ t.cuts ↔ n + c ∈ s.cuts :=
  takeExact_cuts (readExact_eq.1 h) hc

/-- One read fills its buffer exactly when no piece ends before the buffer is full. -/
theorem readSome_full_iff (s : Segmented α) (h : n ≤ s.content.length) :
    (s.readSome n).1.length = n ↔ ∀ c ∈ s.cuts, ¬ c < n := by
  obtain ⟨ps, hne⟩ := s
  cases ps with
  | nil =>
    obtain rfl : n = 0 := by simpa [content] using h
    simp [readSome, takeSome]
  | cons p ps =>
    simp only [readSome, takeSome, cuts, cutsOf, List.mem_cons, List.mem_map]
    constructor
    · rintro hl c (rfl | ⟨d, _, rfl⟩) <;> split at hl <;> simp at hl <;> omega
    · intro hc
      have hp := hc p.length (.inl rfl)
      split
      · simp; omega
      · simp only; omega

end Segmented

end Segments
