import Octoproxy.Pipe

namespace Pipes
set_option autoImplicit true

/-- Two copies in a row. Before it copies, the near side writes a head, of which `left` is left,
and the far side reads `consumed` off the stream. `cut` says that the stream or the sink was given
up before its writer had shut it down, which a reader cannot tell from an end. -/
structure Line (α : Type) where
  source : Pipe α
  stream : Pipe α
  sink : Pipe α
  near : Copier α
  far : Copier α
  left : List α
  consumed : List α
  cut : Bool

namespace Line

def new (head : List α) : Line α := ⟨.new, .new, .new, .new, .new, head, [], false⟩

def send (l : Line α) (xs : List α) : Line α := { l with source := l.source.write xs }

def endSend (l : Line α) : Line α := { l with source := l.source.shutdown }

/-- Writes the next `n` elements of the head. -/
def lead (l : Line α) (n : Nat) : Line α :=
  { l with stream := l.stream.write (l.left.take n), left := l.left.drop n }

/-- Writes the same, and then forgets that it did. -/
def leadAgain (l : Line α) (n : Nat) : Line α :=
  { l with stream := l.stream.write (l.left.take n) }

def copyNear (l : Line α) (a : CopyAct) : Option (Line α) :=
  (copy l.source l.stream l.near a).map fun (src, dst, c) =>
    { l with source := src, stream := dst, near := c }

def consume (l : Line α) (n : Nat) : Option (List α × Line α) :=
  (l.stream.take n).map fun (xs, p) => (xs, { l with stream := p, consumed := l.consumed ++ xs })

def copyFar (l : Line α) (a : CopyAct) : Option (Line α) :=
  (copy l.stream l.sink l.far a).map fun (src, dst, c) =>
    { l with stream := src, sink := dst, far := c }

def giveUpStream (l : Line α) : Line α :=
  { l with stream := l.stream.shutdown, cut := l.cut || !l.stream.closed }

def giveUpSink (l : Line α) : Line α :=
  { l with sink := l.sink.shutdown, cut := l.cut || !l.sink.closed }

/-- Where everything is that the near side was given, and where the end is unless the line was
cut. -/
structure Sound (head : List α) (l : Line α) : Prop where
  first : l.stream.written ++ (l.left ++ l.near.buf) = head ++ l.source.received
  fresh : l.left ≠ [] → l.near = .new ∧ l.source.received = []
  second : l.stream.received = l.consumed ++ (l.sink.written ++ l.far.buf)
  ends : l.cut = false → Ends l.source l.stream l.near ∧ Ends l.stream l.sink l.far

section
variable {l l' : Line α} {head : List α}

theorem new_sound (head : List α) : (new head).Sound head where
  first := rfl
  fresh := fun _ => ⟨rfl, rfl⟩
  second := rfl
  ends := fun _ => ⟨ends_new rfl, ends_new rfl⟩

theorem copyNear_cases (h : l.copyNear a = some l') : ∃ src dst c,
    CopyStep l.source l.stream l.near src dst c ∧
      l' = { l with source := src, stream := dst, near := c } := by
  obtain ⟨⟨src, dst, c⟩, hcopy, rfl⟩ := Option.map_eq_some_iff.1 h
  exact ⟨src, dst, c, copy_step hcopy, rfl⟩

theorem copyFar_cases (h : l.copyFar a = some l') : ∃ src dst c,
    CopyStep l.stream l.sink l.far src dst c ∧
      l' = { l with stream := src, sink := dst, far := c } := by
  obtain ⟨⟨src, dst, c⟩, hcopy, rfl⟩ := Option.map_eq_some_iff.1 h
  exact ⟨src, dst, c, copy_step hcopy, rfl⟩

theorem consume_cases (h : l.consume n = some (xs, l')) : ∃ p,
    l.stream.take n = some (xs, p) ∧
      l' = { l with stream := p, consumed := l.consumed ++ xs } := by
  obtain ⟨⟨ys, p⟩, ht, hl⟩ := Option.map_eq_some_iff.1 h
  cases hl
  exact ⟨p, ht, rfl⟩

theorem Sound.send (h : l.Sound head) (hopen : l.source.closed = false) (xs : List α) :
    (l.send xs).Sound head where
  first := by
    rw [Line.send, Pipe.received_write]
    exact h.first
  fresh := by
    rw [Line.send, Pipe.received_write]
    exact h.fresh
  second := h.second
  ends := fun hc => ⟨(h.ends hc).1.write hopen xs, (h.ends hc).2⟩

theorem Sound.endSend (h : l.Sound head) : l.endSend.Sound head where
  first := h.first
  fresh := h.fresh
  second := h.second
  ends := fun hc => ⟨(h.ends hc).1.shutdown, (h.ends hc).2⟩

/-- While the head is being written, the stream takes more. -/
theorem Sound.ends_lead (h : l.Sound head) (hleft : l.left ≠ []) (xs : List α)
    (hc : l.cut = false) :
    Ends l.source (l.stream.write xs) l.near ∧ Ends (l.stream.write xs) l.sink l.far := by
  obtain ⟨hnear, hfar⟩ := h.ends hc
  have hopen : l.stream.closed = false := by
    cases hcl : l.stream.closed with
    | false => rfl
    | true =>
      have heof := (hnear.shut hcl).1
      rw [(h.fresh hleft).1] at heof
      cases heof
  exact ⟨hnear.before rfl, hfar.write hopen xs⟩

theorem Sound.lead (h : l.Sound head) (hleft : l.left ≠ []) (n : Nat) :
    (l.lead n).Sound head where
  first := by
    dsimp only [Line.lead, Pipe.write]
    rw [List.append_assoc, ← List.append_assoc (l.left.take n), List.take_append_drop]
    exact h.first
  fresh := fun _ => h.fresh hleft
  second := by
    rw [Line.lead, Pipe.received_write]
    exact h.second
  ends := h.ends_lead hleft _

/-- What was written and forgotten stays in front of the head. -/
theorem Sound.leadAgain (h : l.Sound head) (hleft : l.left ≠ []) (n : Nat) :
    (l.leadAgain n).Sound (l.stream.written ++ l.left.take n ++ l.left) where
  first := by
    obtain ⟨hnear, hsrc⟩ := h.fresh hleft
    dsimp only [Line.leadAgain, Pipe.write]
    rw [hnear, hsrc, List.append_nil]
    exact congrArg _ (List.append_nil _)
  fresh := fun _ => h.fresh hleft
  second := by
    rw [Line.leadAgain, Pipe.received_write]
    exact h.second
  ends := h.ends_lead hleft _

theorem Sound.copyNear (h : l.Sound head) (hleft : l.left = []) (hs : l.copyNear a = some l') :
    l'.Sound head := by
  obtain ⟨src, dst, c, hstep, rfl⟩ := copyNear_cases hs
  obtain ⟨xs, hr, hw⟩ := hstep.carries
  have hfirst := h.first
  rw [hleft, List.nil_append] at hfirst
  refine ⟨?_, fun hne => absurd hleft hne, ?_, ?_⟩
  · dsimp only
    rw [hleft, List.nil_append, hw, hfirst, hr, List.append_assoc]
  · dsimp only
    rw [hstep.dst_received]
    exact h.second
  · intro hc
    obtain ⟨hnear, hfar⟩ := h.ends hc
    exact ⟨hnear.step hstep, hfar.after hnear hstep⟩

theorem Sound.consume (h : l.Sound head) (hfar : l.far = .new) (hsink : l.sink.written = [])
    (hs : l.consume n = some (xs, l')) : l'.Sound head := by
  obtain ⟨p, ht, rfl⟩ := consume_cases hs
  obtain ⟨hr, hw, hcl, _⟩ := Pipe.take_cases ht
  have hsecond := h.second
  rw [hsink, hfar] at hsecond
  refine ⟨?_, h.fresh, ?_, ?_⟩
  · dsimp only
    rw [hw]
    exact h.first
  · have hnil : [] ++ (Copier.new : Copier α).buf = [] := rfl
    dsimp only
    rw [hr, hsecond, hsink, hfar, hnil, List.append_nil, List.append_nil]
  · intro hc
    obtain ⟨hnear, hend⟩ := h.ends hc
    exact ⟨hnear.before hcl, hend.reread (by rw [hfar]; rfl)⟩

theorem Sound.copyFar (h : l.Sound head) (hs : l.copyFar a = some l') : l'.Sound head := by
  obtain ⟨src, dst, c, hstep, rfl⟩ := copyFar_cases hs
  obtain ⟨xs, hr, hw⟩ := hstep.carries
  obtain ⟨hsrc, hcl⟩ := hstep.src_written
  refine ⟨?_, h.fresh, ?_, ?_⟩
  · dsimp only
    rw [hsrc]
    exact h.first
  · dsimp only
    rw [hr, hw, h.second, List.append_assoc]
  · intro hc
    obtain ⟨hnear, hfar⟩ := h.ends hc
    exact ⟨hnear.before hcl, hfar.step hstep⟩

theorem shutdown_of_closed {p : Pipe α} (h : p.closed = true) : p.shutdown = p := by
  obtain ⟨written, read, closed, hr⟩ := p
  obtain rfl : closed = true := h
  rfl

theorem Sound.giveUpStream (h : l.Sound head) : l.giveUpStream.Sound head where
  first := h.first
  fresh := h.fresh
  second := h.second
  ends := by
    intro hc
    obtain ⟨hcut, hcl⟩ : l.cut = false ∧ l.stream.closed = true := by
      simpa [Line.giveUpStream] using hc
    rw [Line.giveUpStream, shutdown_of_closed hcl]
    exact h.ends hcut

theorem Sound.giveUpSink (h : l.Sound head) : l.giveUpSink.Sound head where
  first := h.first
  fresh := h.fresh
  second := h.second
  ends := by
    intro hc
    obtain ⟨hcut, hcl⟩ : l.cut = false ∧ l.sink.closed = true := by
      simpa [Line.giveUpSink] using hc
    rw [Line.giveUpSink, shutdown_of_closed hcl]
    exact h.ends hcut

theorem copyNear_of_copy (h : copy l.source l.stream l.near a = some (src, dst, c)) :
    l.copyNear a = some { l with source := src, stream := dst, near := c } :=
  congrArg (Option.map _) h

theorem copyFar_of_copy (h : copy l.stream l.sink l.far a = some (src, dst, c)) :
    l.copyFar a = some { l with stream := src, sink := dst, far := c } :=
  congrArg (Option.map _) h

theorem consume_of_take (h : l.stream.take n = some (xs, p)) :
    l.consume n = some (xs, { l with stream := p, consumed := l.consumed ++ xs }) :=
  congrArg (Option.map _) h

/-- What has arrived comes from the front of the head and what the source was given. -/
theorem Sound.arrived_prefix (h : l.Sound head) :
    l.consumed ++ l.sink.written <+: head ++ l.source.written := by
  have hread : l.consumed ++ l.sink.written <+: l.stream.received := by
    rw [h.second, ← List.append_assoc]
    exact List.prefix_append _ _
  have hsent : l.stream.written <+: head ++ l.source.received := by
    rw [← h.first]
    exact List.prefix_append _ _
  have hgiven : head ++ l.source.received <+: head ++ l.source.written :=
    (List.prefix_append_right_inj head).2 l.source.received_prefix
  exact ((hread.trans l.stream.received_prefix).trans hsent).trans hgiven

/-- At the end of a line that was not cut, everything has arrived. -/
theorem Sound.ended (h : l.Sound head) (hcut : l.cut = false) (hc : l.sink.closed = true) :
    l.source.closed = true ∧ l.consumed ++ l.sink.written = head ++ l.source.written := by
  obtain ⟨hnear, hfar⟩ := h.ends hcut
  obtain ⟨heof₂, hbuf₂⟩ := hfar.shut hc
  obtain ⟨hcl, hp₂⟩ := hfar.eof heof₂
  obtain ⟨heof₁, hbuf₁⟩ := hnear.shut hcl
  obtain ⟨hclosed, hp₁⟩ := hnear.eof heof₁
  have hleft : l.left = [] := by
    by_contra hne
    rw [(h.fresh hne).1] at heof₁
    cases heof₁
  refine ⟨hclosed, ?_⟩
  have hsecond := h.second
  have hfirst := h.first
  rw [hbuf₂, List.append_nil] at hsecond
  rw [hleft, hbuf₁, List.append_nil, List.append_nil] at hfirst
  calc l.consumed ++ l.sink.written
    _ = l.stream.received := hsecond.symm
    _ = l.stream.received ++ l.stream.pending := by rw [hp₂, List.append_nil]
    _ = l.stream.written := l.stream.received_append_pending
    _ = head ++ l.source.received := hfirst
    _ = head ++ (l.source.received ++ l.source.pending) := by rw [hp₁, List.append_nil]
    _ = head ++ l.source.written := by rw [Pipe.received_append_pending]

/-- With `taken` in front, the sink has got what `given` and the source have; and all of it at the
end of a line that was not cut. -/
def Carries (given taken : List α) (l : Line α) : Prop :=
  taken ++ l.sink.written <+: given ++ l.source.written ∧
  (l.cut = false → l.sink.closed = true → l.source.closed = true ∧
    taken ++ l.sink.written = given ++ l.source.written)

theorem Sound.carries (h : l.Sound head) : l.Carries head l.consumed :=
  ⟨h.arrived_prefix, h.ended⟩

theorem Carries.cancel (xs : List α) (h : l.Carries (xs ++ given) (xs ++ taken)) :
    l.Carries given taken := by
  obtain ⟨hp, hend⟩ := h
  rw [List.append_assoc, List.append_assoc] at hp hend
  refine ⟨(List.prefix_append_right_inj xs).1 hp, ?_⟩
  intro hcut hc
  exact ⟨(hend hcut hc).1, List.append_cancel_left (hend hcut hc).2⟩

end

end Line

end Pipes
