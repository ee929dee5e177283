import Mathlib.Logic.Function.Iterate
import Octoproxy.ConnectHead

namespace Octoproxy
open Segments
set_option autoImplicit true

/-- What the send stream answers to one attempt to write: it takes some bytes, has no room, or
is closed. -/
inductive SendAnswer where
  | accept (n : Nat)
  | pending
  | failed
deriving DecidableEq

inductive RecvAnswer where
  | ready
  | pending
  | failed
deriving DecidableEq

inductive Poll where
  | ready
  | pending
  | failed
deriving DecidableEq

/-- One poll of a `write_all` future made for `buf`: the bytes the stream took, how the poll
ended and the answers that are left. The progress is lost with the future. -/
def pollWriteAll : Bytes → List SendAnswer → Bytes × Poll × List SendAnswer
  | [], answers => ([], .ready, answers)
  | _ :: _, [] => ([], .pending, [])
  | _ :: _, .pending :: answers => ([], .pending, answers)
  | _ :: _, .failed :: answers => ([], .failed, answers)
  | b :: bs, .accept n :: answers =>
    let r := pollWriteAll ((b :: bs).drop n) answers
    ((b :: bs).take n ++ r.1, r.2)

inductive QuicStreamState where
  | init
  | write (buf : ConnectHeadBuf)
  | read
deriving DecidableEq

/-- The `poll_fn` of `QuicConnConfig::new_stream` with the two streams it captures. `wire` is
what the send stream has taken so far, `result` the answer of the finished future. -/
structure NewStream where
  state : QuicStreamState
  wire : Bytes
  sendAnswers : List SendAnswer
  recv : Segmented UInt8
  recvAnswers : List RecvAnswer
  result : Option Bool

namespace NewStream

def start (sendAnswers : List SendAnswer) (recv : Segmented UInt8)
    (recvAnswers : List RecvAnswer) : NewStream :=
  ⟨.init, [], sendAnswers, recv, recvAnswers, none⟩

/-- The `Read` state: one chunk of at most two bytes, whatever it holds. -/
def pollRead (s : NewStream) : NewStream :=
  match s.recvAnswers with
  | [] => s
  | .pending :: answers => { s with recvAnswers := answers }
  | .failed :: answers => { s with recvAnswers := answers, result := some false }
  | .ready :: answers =>
    { s with recv := (s.recv.readSome 2).2, recvAnswers := answers, result := some true }

/-- The `Write` state: a new future is made for the whole head. -/
def pollWrite (s : NewStream) (buf : ConnectHeadBuf) : NewStream :=
  let r := pollWriteAll buf.buf s.sendAnswers
  let s := { s with state := .write buf, wire := s.wire ++ r.1, sendAnswers := r.2.2 }
  match r.2.1 with
  | .ready => pollRead { s with state := .read }
  | .pending => s
  | .failed => { s with result := some false }

def poll (host : ConnectHeadBuf) (s : NewStream) : NewStream :=
  if s.result.isSome then s
  else match s.state with
    | .init => s.pollWrite host
    | .write buf => s.pollWrite buf
    | .read => s.pollRead

end NewStream

def taken : List SendAnswer → Nat
  | [] => 0
  | .accept n :: answers => n + taken answers
  | _ :: answers => taken answers

@[simp] theorem taken_append (as bs : List SendAnswer) :
    taken (as ++ bs) = taken as + taken bs := by
  induction as with
  | nil => simp [taken]
  | cons a as ih =>
    cases a with
    | accept n => simp only [List.cons_append, taken, ih, Nat.add_assoc]
    | pending => simp only [List.cons_append, taken, ih]
    | failed => simp only [List.cons_append, taken, ih]

/-- The stream has no room only before it has taken the first byte of a head of `len` bytes or
after it has taken all of them. -/
def TakenAtOnce (len : Nat) (answers : List SendAnswer) : Prop :=
  ∀ pre post, answers = pre ++ .pending :: post → taken pre = 0 ∨ len ≤ taken pre

theorem pollWriteAll_ready (buf : Bytes) (answers : List SendAnswer)
    (h : (pollWriteAll buf answers).2.1 = .ready) :
    (pollWriteAll buf answers).1 = buf ∧ ∃ used, answers = used ++ (pollWriteAll buf answers).2.2 ∧
      .pending ∉ used ∧ buf.length ≤ taken used := by
  induction answers generalizing buf with
  | nil =>
    cases buf with
    | nil => exact ⟨rfl, [], rfl, List.not_mem_nil, Nat.zero_le _⟩
    | cons b bs => cases h
  | cons a answers ih =>
    cases buf with
    | nil => exact ⟨rfl, [], rfl, List.not_mem_nil, Nat.zero_le _⟩
    | cons b bs =>
      cases a with
      | pending => cases h
      | failed => cases h
      | accept n =>
        obtain ⟨ha, used, hu, hp, hl⟩ := ih ((b :: bs).drop n) h
        refine ⟨?_, .accept n :: used, congrArg (SendAnswer.accept n :: ·) hu, ?_, ?_⟩
        · simp only [pollWriteAll, ha, List.take_append_drop]
        · exact List.not_mem_cons_of_ne_of_not_mem nofun hp
        · rw [List.length_drop] at hl
          simp only [taken]
          omega

theorem pollWriteAll_pending (buf : Bytes) (answers : List SendAnswer)
    (h : (pollWriteAll buf answers).2.1 = .pending) :
    buf ≠ [] ∧ ((pollWriteAll buf answers).2.2 = [] ∨
      ∃ used, answers = used ++ .pending :: (pollWriteAll buf answers).2.2 ∧
        .pending ∉ used ∧ taken used < buf.length ∧
        (pollWriteAll buf answers).1 = buf.take (taken used)) := by
  induction answers generalizing buf with
  | nil =>
    cases buf with
    | nil => cases h
    | cons b bs => exact ⟨nofun, .inl rfl⟩
  | cons a answers ih =>
    cases buf with
    | nil => cases h
    | cons b bs =>
      cases a with
      | pending =>
        refine ⟨nofun, .inr ⟨[], rfl, List.not_mem_nil, ?_, rfl⟩⟩
        exact Nat.succ_pos _
      | failed => cases h
      | accept n =>
        refine ⟨nofun, ?_⟩
        obtain ⟨_, hr | ⟨used, hu, hp, hl, ht⟩⟩ := ih ((b :: bs).drop n) h
        · exact .inl hr
        · refine .inr ⟨.accept n :: used, congrArg (SendAnswer.accept n :: ·) hu, ?_, ?_, ?_⟩
          · exact List.not_mem_cons_of_ne_of_not_mem nofun hp
          · rw [List.length_drop] at hl
            simp only [taken]
            omega
          · simp only [pollWriteAll, taken, ht, List.take_add]

theorem takenAtOnce_of_used (hp : .pending ∉ used) (hl : len ≤ taken used)
    (rest : List SendAnswer) : TakenAtOnce len (used ++ rest) := by
  intro pre post he
  rcases List.append_eq_append_iff.1 he with ⟨mid, rfl, _⟩ | ⟨mid, rfl, hm⟩
  · right
    rw [taken_append]
    omega
  · cases mid with
    | nil => right; simpa using hl
    | cons x mid =>
      cases hm
      exact absurd (List.mem_append_right _ List.mem_cons_self) hp

theorem takenAtOnce_pending_iff (hp : .pending ∉ used) (hl : taken used < len)
    (rest : List SendAnswer) :
    TakenAtOnce len (used ++ .pending :: rest) ↔ taken used = 0 ∧ TakenAtOnce len rest := by
  constructor
  · intro h
    have h0 : taken used = 0 := (h used rest rfl).resolve_right (by omega)
    refine ⟨h0, ?_⟩
    rintro pre post rfl
    have h' := h (used ++ .pending :: pre) post (by simp)
    rw [taken_append, h0, Nat.zero_add] at h'
    exact h'
  · rintro ⟨h0, h⟩ pre post he
    rcases List.append_eq_append_iff.1 he with ⟨mid, rfl, hm⟩ | ⟨mid, rfl, hm⟩
    · cases mid with
      | nil => simp [h0]
      | cons x mid =>
        cases hm
        rcases h mid post rfl with hz | hz
        · exact .inl (by simp [taken, h0, hz])
        · exact .inr (by simp [taken, h0, hz])
    · cases mid with
      | nil => simp at h0 ⊢; omega
      | cons x mid =>
        cases hm
        exact absurd (List.mem_append_right _ List.mem_cons_self) hp

namespace NewStream

theorem pollRead_state (s : NewStream) : s.pollRead.state = s.state := by
  unfold pollRead
  split <;> rfl

theorem pollRead_wire (s : NewStream) : s.pollRead.wire = s.wire := by
  unfold pollRead
  split <;> rfl

theorem poll_read (host : ConnectHeadBuf) (s : NewStream) (h : s.state = .read) :
    (s.poll host).state = .read ∧ (s.poll host).wire = s.wire := by
  unfold poll
  split
  · exact ⟨h, rfl⟩
  · rw [h]
    exact ⟨s.pollRead_state.trans h, s.pollRead_wire⟩

theorem polls_read (host : ConnectHeadBuf) (s : NewStream) (h : s.state = .read) (n : Nat) :
    ((poll host)^[n] s).wire = s.wire := by
  induction n generalizing s with
  | zero => rfl
  | succ n ih =>
    rw [Function.iterate_succ_apply, ih _ (poll_read host s h).1, (poll_read host s h).2]

/-- A stream that will not answer any more keeps the head in the `Write` state. -/
theorem polls_starved (host : ConnectHeadBuf) (s : NewStream) (hs : s.state = .write buf)
    (hb : buf.buf ≠ []) (ha : s.sendAnswers = []) (n : Nat) :
    ((poll host)^[n] s).state ≠ .read := by
  induction n generalizing s with
  | zero =>
    rw [Function.iterate_zero, id, hs]
    exact nofun
  | succ n ih =>
    rw [Function.iterate_succ_apply]
    obtain ⟨b, bs, hbuf⟩ := List.exists_cons_of_ne_nil hb
    apply ih
    · unfold poll
      split
      · exact hs
      · simp only [hs, pollWrite, ha, hbuf, pollWriteAll]
    · unfold poll
      split
      · exact ha
      · simp only [hs, pollWrite, ha, hbuf, pollWriteAll]

theorem polls_done (host : ConnectHeadBuf) (s : NewStream) (h : s.result.isSome) (n : Nat) :
    (poll host)^[n] s = s := by
  induction n with
  | zero => rfl
  | succ n ih =>
    rw [Function.iterate_succ_apply, poll, if_pos h, ih]

/-- Every poll without room leaves behind what it wrote; the head follows in full. -/
theorem polls_write (host : ConnectHeadBuf) (n : Nat) (s : NewStream)
    (hs : s.state = .init ∨ s.state = .write host) (hr : s.result = none)
    (hread : ((poll host)^[n] s).state = .read) :
    ∃ again, ((poll host)^[n] s).wire = s.wire ++ again ++ host.buf ∧
      (again = [] ↔ TakenAtOnce host.buf.length s.sendAnswers) := by
  induction n generalizing s with
  | zero =>
    rw [Function.iterate_zero, id] at hread
    rcases hs with hs | hs <;> rw [hs] at hread <;> cases hread
  | succ n ih =>
    rw [Function.iterate_succ_apply] at hread ⊢
    have hpoll : s.poll host = s.pollWrite host := by
      unfold poll
      rw [hr]
      rcases hs with hs | hs <;> rw [hs] <;> rfl
    rw [hpoll] at hread ⊢
    unfold pollWrite at hread ⊢
    cases hp : (pollWriteAll host.buf s.sendAnswers).2.1 with
    | ready =>
      obtain ⟨ha, used, hu, hn, hl⟩ := pollWriteAll_ready _ _ hp
      simp only [hp] at hread ⊢
      refine ⟨[], ?_, ?_⟩
      · rw [polls_read host _ (pollRead_state _), pollRead_wire, ha, List.append_nil]
      · rw [hu]
        exact ⟨fun _ => takenAtOnce_of_used hn hl _, fun _ => rfl⟩
    | pending =>
      obtain ⟨hb, he | ⟨used, hu, hn, hl, ht⟩⟩ := pollWriteAll_pending _ _ hp
      · simp only [hp] at hread
        exact absurd hread (polls_starved host _ rfl hb he n)
      · simp only [hp] at hread ⊢
        obtain ⟨again, hw, hiff⟩ := ih { s with
            state := .write host
            wire := s.wire ++ (pollWriteAll host.buf s.sendAnswers).1
            sendAnswers := (pollWriteAll host.buf s.sendAnswers).2.2 } (.inr rfl) hr hread
        refine ⟨host.buf.take (taken used) ++ again, ?_, ?_⟩
        · rw [hw, ht]
          simp only [List.append_assoc]
        · rw [hu, takenAtOnce_pending_iff hn hl, ← hiff, List.append_eq_nil_iff,
            List.take_eq_nil_iff]
          exact and_congr_left fun _ => ⟨fun h => h.resolve_right hb, .inl⟩
    | failed =>
      simp only [hp] at hread
      rw [polls_done host _ rfl] at hread
      cases hread

end NewStream

/-- When the `Read` state is reached, the stream carries the head once and nothing else exactly
when no poll was turned away after it had written a part of the head. -/
theorem quic_head_once_iff (host : ConnectHeadBuf) (sendAnswers : List SendAnswer)
    (recv : Segmented UInt8) (recvAnswers : List RecvAnswer) (n : Nat)
    (hread : ((NewStream.poll host)^[n] (.start sendAnswers recv recvAnswers)).state = .read) :
    ((NewStream.poll host)^[n] (.start sendAnswers recv recvAnswers)).wire = host.buf ↔
      TakenAtOnce host.buf.length sendAnswers := by
  obtain ⟨again, hw, hiff⟩ := NewStream.polls_write host n (.start sendAnswers recv recvAnswers)
    (.inl rfl) rfl hread
  rw [hw]
  refine Iff.trans ?_ hiff
  constructor
  · intro h
    have hl := congrArg List.length h
    simp only [NewStream.start, List.nil_append, List.length_append] at hl
    apply List.eq_nil_of_length_eq_zero
    omega
  · rintro rfl
    rfl

def partialAnswers : List SendAnswer := [.accept 1, .pending, .accept 4]

/-- The head of `ab`: one byte is taken, then there is no room, then all four bytes are taken. -/
theorem quic_head_repeats_byte :
    ¬ ∀ (host : ConnectHeadBuf) (sendAnswers : List SendAnswer) (recv : Segmented UInt8)
      (recvAnswers : List RecvAnswer) (n : Nat),
      ((NewStream.poll host)^[n] (.start sendAnswers recv recvAnswers)).state = .read →
      ((NewStream.poll host)^[n] (.start sendAnswers recv recvAnswers)).wire = host.buf := by
  intro h
  have hw := h (.fromStr "ab") partialAnswers ⟨[], nofun⟩ [] 2 rfl
  exact absurd hw (by decide)

theorem quic_head_once_after_wait :
    ((NewStream.poll (.fromStr "ab"))^[2]
      (.start [.pending, .accept 3, .accept 1] ⟨[], nofun⟩ [])).wire =
        (ConnectHeadBuf.fromStr "ab").buf := by
  apply (quic_head_once_iff (.fromStr "ab") _ _ _ 2 rfl).2
  intro pre post he
  match pre, he with
  | [], _ => exact .inl rfl
  | [_], he => cases he
  | [_, _], he => cases he
  | _ :: _ :: _ :: _, he => simp at he

/-- What the server writes first on every stream. -/
def acknowledgement : Bytes := asBytes "OK"

namespace NewStream

/-- Only a poll that returns the stream reads from it, and it reads once. -/
def ReadsOnce (recv : Segmented UInt8) (s : NewStream) : Prop :=
  if s.result = some true then s.recv = (recv.readSome 2).2 else s.recv = recv

variable {s : NewStream} {recv : Segmented UInt8}

theorem ReadsOnce.pollRead (h : s.recv = recv) (hr : s.result = none) :
    s.pollRead.ReadsOnce recv := by
  unfold NewStream.pollRead ReadsOnce
  split
  · simp only [hr, h, reduceCtorEq, if_false]
  · simp only [hr, h, reduceCtorEq, if_false]
  · simp only [h, Option.some.injEq, Bool.false_eq_true, if_false]
  · simp only [h, if_true]

theorem ReadsOnce.pollWrite (h : s.recv = recv) (hr : s.result = none) (buf : ConnectHeadBuf) :
    (s.pollWrite buf).ReadsOnce recv := by
  simp only [NewStream.pollWrite]
  split
  · exact .pollRead h hr
  · simp only [ReadsOnce, hr, h, reduceCtorEq, if_false]
  · simp only [ReadsOnce, h, Option.some.injEq, Bool.false_eq_true, if_false]

theorem ReadsOnce.poll (host : ConnectHeadBuf) (h : s.ReadsOnce recv) :
    (s.poll host).ReadsOnce recv := by
  unfold NewStream.poll
  cases hr : s.result with
  | some r => exact h
  | none =>
    have hs : s.recv = recv := by
      simpa only [ReadsOnce, hr, reduceCtorEq, if_false] using h
    cases hst : s.state with
    | init => exact .pollWrite hs hr host
    | write buf => exact .pollWrite hs hr buf
    | read => exact .pollRead hs hr

theorem readsOnce_start (host : ConnectHeadBuf) (sendAnswers : List SendAnswer)
    (recv : Segmented UInt8) (recvAnswers : List RecvAnswer) (n : Nat) :
    ((NewStream.poll host)^[n] (.start sendAnswers recv recvAnswers)).ReadsOnce recv := by
  apply Function.Iterate.rec (ReadsOnce recv) _ fun _ => ReadsOnce.poll host
  rfl

end NewStream

/-- When `new_stream` returns a stream, the acknowledgement has arrived in full, and what follows
it is left to be read. -/
def Acknowledged (recv : Segmented UInt8) : Prop :=
  ∀ (host : ConnectHeadBuf) (sendAnswers : List SendAnswer) (recvAnswers : List RecvAnswer)
    (n : Nat), ((NewStream.poll host)^[n] (.start sendAnswers recv recvAnswers)).result =
      some true →
    ∃ d, recv.content = acknowledgement ++ d ∧
      ((NewStream.poll host)^[n] (.start sendAnswers recv recvAnswers)).recv.content = d

theorem acknowledged_iff (recv : Segmented UInt8) :
    Acknowledged recv ↔ ∃ d, recv.content = acknowledgement ++ d ∧
      (recv.readSome 2).2.content = d := by
  constructor
  · intro h
    exact h ⟨[]⟩ [] [.ready] 1 rfl
  · intro h host sendAnswers recvAnswers n hr
    have hs := NewStream.readsOnce_start host sendAnswers recv recvAnswers n
    unfold NewStream.ReadsOnce at hs
    rw [if_pos hr] at hs
    rw [hs]
    exact h

/-- The acknowledgement of a server is consumed, and one that does not arrive is noticed, exactly
when it arrives and its two bytes arrive together. -/
theorem quic_acknowledged_iff (recv : Segmented UInt8)
    (h : recv.content <+: acknowledgement ∨ acknowledgement <+: recv.content) :
    Acknowledged recv ↔ 2 ≤ recv.content.length ∧ 1 ∉ recv.cuts := by
  have happ := recv.readSome_content 2
  have hcuts : 1 ∉ recv.cuts ↔ ∀ c ∈ recv.cuts, ¬ c < 2 := by
    constructor
    · intro h1 c hc hlt
      have hpos := recv.cuts_pos c hc
      obtain rfl : c = 1 := by omega
      exact h1 hc
    · intro hall h1
      exact hall 1 h1 (by decide)
  rw [acknowledged_iff, hcuts]
  constructor
  · rintro ⟨d, hd, hrest⟩
    have hlen : 2 ≤ recv.content.length := by
      rw [hd, List.length_append]
      exact Nat.le_add_right _ _
    refine ⟨hlen, (recv.readSome_full_iff hlen).1 ?_⟩
    rw [hrest, hd] at happ
    rw [List.append_cancel_right happ]
    rfl
  · rintro ⟨hlen, hall⟩
    have hfull := (recv.readSome_full_iff hlen).2 hall
    obtain ⟨d, hd⟩ : ∃ d, acknowledgement ++ d = recv.content := by
      rcases h with h | h
      · exact ⟨[], (List.append_nil _).trans (h.eq_of_length_le hlen).symm⟩
      · exact h
    refine ⟨d, hd.symm, ?_⟩
    exact (List.append_inj (happ.trans hd.symm) hfull).2

/-- Two bytes that arrive one by one: the second is left in front of the tunnelled data. -/
theorem quic_acknowledgement_left_over :
    ¬ ∀ recv : Segmented UInt8,
      recv.content <+: acknowledgement ∨ acknowledgement <+: recv.content → Acknowledged recv := by
  intro h
  obtain ⟨d, hd, hr⟩ := h ⟨[[79], [75]], by decide⟩ (.inl (by decide)) ⟨[]⟩ [] [.ready] 1 rfl
  have hl : d = [75] := hr.symm
  subst hl
  exact absurd hd (by decide)

theorem quic_acknowledged_together :
    Acknowledged ⟨[[79, 75, 1], [2]], by decide⟩ :=
  (quic_acknowledged_iff _ (.inr (by decide))).2 (by decide)

end Octoproxy
