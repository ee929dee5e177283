import Mathlib.Data.List.Basic

namespace Pipes
set_option autoImplicit true

/-- One direction of a stream: what has been written to it, how much of that has been read, and
whether its writer has shut it down. -/
structure Pipe (α : Type) where
  written : List α
  read : Nat
  closed : Bool
  read_le : read ≤ written.length

namespace Pipe

def new : Pipe α := ⟨[], 0, false, Nat.le_refl 0⟩

def received (p : Pipe α) : List α := p.written.take p.read

def pending (p : Pipe α) : List α := p.written.drop p.read

def write (p : Pipe α) (xs : List α) : Pipe α where
  written := p.written ++ xs
  read := p.read
  closed := p.closed
  read_le := by
    rw [List.length_append]
    exact Nat.le_trans p.read_le (Nat.le_add_right _ _)

def shutdown (p : Pipe α) : Pipe α := { p with closed := true }

/-- Reads `n` elements if there are so many. -/
def take (p : Pipe α) (n : Nat) : Option (List α × Pipe α) :=
  if h : p.read + n ≤ p.written.length then
    some (p.pending.take n, ⟨p.written, p.read + n, p.closed, h⟩)
  else none

section
variable {p p' : Pipe α}

@[simp] theorem received_append_pending (p : Pipe α) : p.received ++ p.pending = p.written :=
  List.take_append_drop p.read p.written

@[simp] theorem received_write (p : Pipe α) (xs : List α) : (p.write xs).received = p.received :=
  List.take_append_of_le_length p.read_le

theorem received_prefix (p : Pipe α) : p.received <+: p.written := List.take_prefix _ _

/-- What a read leaves: the elements come off the front of what is pending. -/
theorem take_cases (h : p.take n = some (xs, p')) :
    p'.received = p.received ++ xs ∧ p'.written = p.written ∧ p'.closed = p.closed ∧
      xs.length = n := by
  unfold take at h
  split at h
  · rename_i hn
    cases h
    refine ⟨?_, rfl, rfl, ?_⟩
    · exact List.take_add
    · rw [List.length_take, pending, List.length_drop]
      omega
  · cases h

end

end Pipe

/-- One direction of a copy: what has been read and not yet written, and whether the end of the
source has been seen. -/
structure Copier (α : Type) where
  buf : List α
  eof : Bool

def Copier.new : Copier α := ⟨[], false⟩

inductive CopyAct where
  | fill (n : Nat)
  | drain (n : Nat)
  | reachEnd
  | shutdown

/-- A step of a copy from `src` to `dst`. The end of the source is passed on once the buffer is
empty. -/
def copy (src dst : Pipe α) (c : Copier α) : CopyAct → Option (Pipe α × Pipe α × Copier α)
  | .fill n =>
    if c.eof || n == 0 then none
    else (src.take n).map fun r => (r.2, dst, { c with buf := c.buf ++ r.1 })
  | .drain n =>
    if n == 0 || c.buf.length < n then none
    else some (src, dst.write (c.buf.take n), { c with buf := c.buf.drop n })
  | .reachEnd =>
    if src.closed && src.pending.isEmpty then some (src, dst, { c with eof := true }) else none
  | .shutdown => if c.eof && c.buf.isEmpty then some (src, dst.shutdown, c) else none

/-- What one step of a copy can do. -/
inductive CopyStep (src dst : Pipe α) (c : Copier α) : Pipe α → Pipe α → Copier α → Prop where
  | fill : c.eof = false → src.take n = some (xs, src') →
      CopyStep src dst c src' dst { c with buf := c.buf ++ xs }
  | drain : xs ≠ [] → c.buf = xs ++ left →
      CopyStep src dst c src (dst.write xs) { c with buf := left }
  | reachEnd : src.closed = true → src.pending = [] →
      CopyStep src dst c src dst { c with eof := true }
  | shutdown : c.eof = true → c.buf = [] → CopyStep src dst c src dst.shutdown c

section
variable {src dst src' dst' : Pipe α} {c c' : Copier α}

theorem copy_step (h : copy src dst c a = some (src', dst', c')) :
    CopyStep src dst c src' dst' c' := by
  cases a with
  | fill n =>
    simp only [copy] at h
    split at h
    · cases h
    · rename_i hc
      obtain ⟨⟨xs, p⟩, ht, h⟩ := Option.map_eq_some_iff.1 h
      cases h
      have heof : c.eof = false := by
        cases he : c.eof with
        | false => rfl
        | true => exact absurd (by rw [he]; rfl) hc
      exact .fill heof ht
  | drain n =>
    simp only [copy] at h
    split at h
    · cases h
    · rename_i hc
      cases h
      have hn : n ≠ 0 ∧ n ≤ c.buf.length := by simpa using hc
      refine .drain ?_ (List.take_append_drop n c.buf).symm
      intro hnil
      have hlen := congrArg List.length hnil
      rw [List.length_take, List.length_nil] at hlen
      omega
  | reachEnd =>
    simp only [copy] at h
    split at h
    · rename_i hc
      cases h
      obtain ⟨hclosed, hp⟩ := Bool.and_eq_true_iff.1 hc
      exact .reachEnd hclosed (List.isEmpty_iff.1 hp)
    · cases h
  | shutdown =>
    simp only [copy] at h
    split at h
    · rename_i hc
      cases h
      obtain ⟨he, hb⟩ := Bool.and_eq_true_iff.1 hc
      exact .shutdown he (List.isEmpty_iff.1 hb)
    · cases h

/-- A copy neither loses nor adds anything, and keeps the order. -/
theorem CopyStep.carries (h : CopyStep src dst c src' dst' c') :
    ∃ xs, src'.received = src.received ++ xs ∧
      dst'.written ++ c'.buf = dst.written ++ c.buf ++ xs := by
  cases h with
  | fill _ ht =>
    obtain ⟨hr, _⟩ := Pipe.take_cases ht
    exact ⟨_, hr, (List.append_assoc ..).symm⟩
  | drain _ hb =>
    refine ⟨[], (List.append_nil _).symm, ?_⟩
    rw [List.append_nil, hb, ← List.append_assoc]
    rfl
  | reachEnd _ _ => exact ⟨[], (List.append_nil _).symm, (List.append_nil _).symm⟩
  | shutdown _ _ => exact ⟨[], (List.append_nil _).symm, (List.append_nil _).symm⟩

theorem CopyStep.src_written (h : CopyStep src dst c src' dst' c') :
    src'.written = src.written ∧ src'.closed = src.closed := by
  cases h with
  | fill _ ht =>
    obtain ⟨_, hw, hcl, _⟩ := Pipe.take_cases ht
    exact ⟨hw, hcl⟩
  | _ => exact ⟨rfl, rfl⟩

theorem CopyStep.dst_received (h : CopyStep src dst c src' dst' c') :
    dst'.received = dst.received := by
  cases h with
  | drain _ _ => exact dst.received_write _
  | _ => rfl

/-- The destination is shut down only after everything has been passed on. -/
structure Ends (src dst : Pipe α) (c : Copier α) : Prop where
  eof : c.eof = true → src.closed = true ∧ src.pending = []
  shut : dst.closed = true → c.eof = true ∧ c.buf = []

theorem ends_new (h : dst.closed = false) : Ends src dst .new where
  eof := nofun
  shut := fun hd => nomatch h.symm.trans hd

theorem Ends.step (h : Ends src dst c) (hs : CopyStep src dst c src' dst' c') :
    Ends src' dst' c' := by
  cases hs with
  | fill he _ =>
    refine ⟨fun hc => absurd (he.symm.trans hc) Bool.false_ne_true, ?_⟩
    intro hd
    cases he.symm.trans (h.shut hd).1
  | drain hne hb =>
    refine ⟨h.eof, ?_⟩
    intro hd
    rw [(h.shut hd).2] at hb
    exact absurd (List.append_eq_nil_iff.1 hb.symm).1 hne
  | reachEnd hcl hp => exact ⟨fun _ => ⟨hcl, hp⟩, fun hd => ⟨rfl, (h.shut hd).2⟩⟩
  | shutdown he hb => exact ⟨h.eof, fun _ => ⟨he, hb⟩⟩

theorem Ends.write (h : Ends src dst c) (hs : src.closed = false) (xs : List α) :
    Ends (src.write xs) dst c where
  eof := fun he => nomatch hs.symm.trans (h.eof he).1
  shut := h.shut

theorem Ends.shutdown (h : Ends src dst c) : Ends src.shutdown dst c where
  eof := fun he => ⟨rfl, (h.eof he).2⟩
  shut := h.shut

/-- A copy may go on while the one before it does. -/
theorem Ends.after (h : Ends src dst c) (h₀ : Ends src₀ src c₀)
    (hs : CopyStep src₀ src c₀ src₀' src' c₀') : Ends src' dst c := by
  cases hs with
  | fill _ _ => exact h
  | drain hne hb =>
    apply h.write
    cases hcl : src.closed with
    | false => rfl
    | true =>
      rw [(h₀.shut hcl).2] at hb
      exact absurd (List.append_eq_nil_iff.1 hb.symm).1 hne
  | reachEnd _ _ => exact h
  | shutdown _ _ => exact h.shutdown

/-- Before the end has been seen, the source may change in any way. -/
theorem Ends.reread (h : Ends src dst c) (hc : c.eof = false) : Ends src' dst c where
  eof := fun he => nomatch hc.symm.trans he
  shut := h.shut

theorem Ends.before (h : Ends src dst c) (hd : dst'.closed = dst.closed) : Ends src dst' c where
  eof := h.eof
  shut := fun hc => h.shut (hd.symm.trans hc)

end

end Pipes
