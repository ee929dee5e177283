import Octoproxy.QuicStream

namespace Octoproxy.ProxyClient
open Segments
set_option autoImplicit true

inductive TunnelState where
  | writing
  | reading
deriving DecidableEq

/-- The errors of the future: the two ends of file, an answer that is not a success (with the part
of it that the message quotes), and an error of the stream. -/
inductive TunnelError where
  | eofWriting
  | eofReading
  | unsuccessful (quoted : Bytes)
  | io
deriving DecidableEq

/-- The request that `tunnel::new` puts into the buffer. -/
def connectRequest (host : String) : Bytes :=
  asBytes ("CONNECT " ++ host ++ " HTTP/1.1\r\nHost: " ++ host ++ "\r\n\r\n")

def success11 : Bytes := asBytes "HTTP/1.1 200"

def success10 : Bytes := asBytes "HTTP/1.0 200"

def blankLine : Bytes := asBytes "\r\n\r\n"

/-- The `Tunnel` future with its stream: what the stream has taken, how it answers from now on,
and what it has still to deliver. A piece is what one `read_buf` returns. -/
structure Tunnel where
  buf : Bytes
  state : TunnelState
  wire : Bytes
  sendAnswers : List SendAnswer
  inbound : Segmented UInt8
  recvAnswers : List RecvAnswer
  result : Option (Except TunnelError Unit)

/-- What is decided from all that has been read so far; `none` reads more. -/
def verdict (read : Bytes) : Option (Except TunnelError Unit) :=
  if 12 < read.length then
    if success11 <+: read ∨ success10 <+: read then
      if blankLine <:+ read then some (.ok ()) else none
    else some (.error (.unsuccessful (read.take 16)))
  else none

namespace Tunnel

def withStream (host : String) (sendAnswers : List SendAnswer) (inbound : Segmented UInt8)
    (recvAnswers : List RecvAnswer) : Tunnel :=
  ⟨connectRequest host, .writing, [], sendAnswers, inbound, recvAnswers, none⟩

/-- The turns of the loop that read, until the stream has no answer. -/
def pollReading (s : Tunnel) : List RecvAnswer → Tunnel
  | [] => { s with recvAnswers := [] }
  | .pending :: answers => { s with recvAnswers := answers }
  | .failed :: answers => { s with recvAnswers := answers, result := some (.error .io) }
  | .ready :: answers =>
    match s.inbound.readPiece with
    | none => { s with recvAnswers := answers, result := some (.error .eofReading) }
    | some (read, inbound) =>
      match verdict (s.buf ++ read) with
      | some r => { s with
          buf := s.buf ++ read
          inbound := inbound
          recvAnswers := answers
          result := some r }
      | none => pollReading { s with buf := s.buf ++ read, inbound := inbound } answers

/-- The turns of the loop that write. The bytes that were taken leave the buffer at once. -/
def pollWriting (s : Tunnel) : List SendAnswer → Tunnel
  | [] => { s with sendAnswers := [] }
  | .pending :: answers => { s with sendAnswers := answers }
  | .failed :: answers => { s with sendAnswers := answers, result := some (.error .io) }
  | .accept n :: answers =>
    let s := { s with wire := s.wire ++ s.buf.take n, buf := s.buf.drop n }
    if s.buf = [] then
      pollReading { s with state := .reading, sendAnswers := answers } s.recvAnswers
    else if n = 0 then { s with sendAnswers := answers, result := some (.error .eofWriting) }
    else pollWriting s answers

def poll (s : Tunnel) : Tunnel :=
  if s.result.isSome then s
  else match s.state with
    | .writing => s.pollWriting s.sendAnswers
    | .reading => s.pollReading s.recvAnswers

end Tunnel

/-- A head that reports success and ends at its first empty line. -/
structure SuccessHead (head : Bytes) : Prop where
  starts : success11 <+: head ∨ success10 <+: head
  ends : blankLine <:+ head
  first : ∀ before after, head = before ++ blankLine ++ after → after = []

/-- The stream does not fail, takes the request in the end, and delivers all it has. -/
structure Willing (request : Bytes) (sendAnswers : List SendAnswer) (inbound : Segmented UInt8)
    (recvAnswers : List RecvAnswer) : Prop where
  sends : ∀ a ∈ sendAnswers, a ≠ .failed ∧ a ≠ .accept 0
  takes : request.length ≤ taken sendAnswers
  receives : .failed ∉ recvAnswers
  delivers : inbound.pieces.length ≤ recvAnswers.count .ready

/-- The request goes out in full and once before anything is read, and the future ends well with
`d` left in the stream. -/
structure Establishes (host : String) (sendAnswers : List SendAnswer) (inbound : Segmented UInt8)
    (recvAnswers : List RecvAnswer) (d : Bytes) : Prop where
  writes : ∀ n, let s := Tunnel.poll^[n] (.withStream host sendAnswers inbound recvAnswers)
    s.state = .writing ∧ s.inbound = inbound ∧ s.wire <+: connectRequest host ∨
      s.state = .reading ∧ s.wire = connectRequest host
  resolves : ∃ n, let s := Tunnel.poll^[n] (.withStream host sendAnswers inbound recvAnswers)
    s.result = some (.ok ()) ∧ s.inbound.content = d

def readAll (buf : Bytes) : List Bytes → Except TunnelError Unit × List Bytes
  | [] => (.error .eofReading, [])
  | p :: ps =>
    match verdict (buf ++ p) with
    | some r => (r, ps)
    | none => readAll (buf ++ p) ps

section
variable {head : Bytes}

theorem SuccessHead.long (h : SuccessHead head) : 12 < head.length := by
  by_contra hl
  have hsuccess : head = success11 ∨ head = success10 := by
    rcases h.starts with hs | hs
    · exact .inl (hs.eq_of_length_le (Nat.le_of_not_lt hl)).symm
    · exact .inr (hs.eq_of_length_le (Nat.le_of_not_lt hl)).symm
  have hends := h.ends
  rcases hsuccess with rfl | rfl
  · exact absurd hends (by decide)
  · exact absurd hends (by decide)

theorem SuccessHead.verdict (h : SuccessHead head) : verdict head = some (.ok ()) := by
  unfold ProxyClient.verdict
  rw [if_pos h.long, if_pos h.starts, if_pos h.ends]

theorem SuccessHead.verdict_none (h : SuccessHead head) (hb : buf ++ rest = head)
    (hr : rest ≠ []) : ProxyClient.verdict buf = none := by
  unfold ProxyClient.verdict
  split
  · rename_i hl
    have hin : buf <+: head := ⟨rest, hb⟩
    have hstarts : success11 <+: buf ∨ success10 <+: buf := by
      rcases h.starts with hs | hs
      · exact .inl (List.prefix_of_prefix_length_le hs hin (Nat.le_of_lt hl))
      · exact .inr (List.prefix_of_prefix_length_le hs hin (Nat.le_of_lt hl))
    have hends : ¬ blankLine <:+ buf := by
      rintro ⟨before, rfl⟩
      exact hr (h.first before rest hb.symm)
    rw [if_pos hstarts, if_neg hends]
  · rfl

theorem readAll_rest (buf p : Bytes) (ps : List Bytes) :
    (readAll buf (p :: ps)).2.flatten.length ≤ ps.flatten.length := by
  induction ps generalizing buf p with
  | nil =>
    rw [readAll]
    cases verdict (buf ++ p) <;> exact Nat.le_refl 0
  | cons q qs ih =>
    rw [readAll]
    cases verdict (buf ++ p) with
    | some r => exact Nat.le_refl _
    | none =>
      refine Nat.le_trans (ih (buf ++ p) q) ?_
      rw [List.flatten_cons, List.length_append]
      exact Nat.le_add_left _ _

/-- Reading ends well right behind the head exactly when a piece ends there. -/
theorem readAll_iff (h : SuccessHead head) (pieces : List Bytes) (buf : Bytes)
    (hc : buf ++ pieces.flatten = head ++ d) (hb : buf.length < head.length) :
    (readAll buf pieces).1 = .ok () ∧ (readAll buf pieces).2.flatten = d ↔
      head.length - buf.length ∈ cutsOf pieces := by
  induction pieces generalizing buf with
  | nil => simp [readAll, cutsOf]
  | cons p ps ih =>
    rw [List.flatten_cons, ← List.append_assoc] at hc
    have hl := congrArg List.length hc
    simp only [List.length_append] at hl
    simp only [cutsOf, List.mem_cons, List.mem_map]
    rcases Nat.lt_trichotomy (buf ++ p).length head.length with hlt | heq | hgt
    · -- the piece ends inside the head
      obtain ⟨rest, hrest⟩ : buf ++ p <+: head :=
        List.prefix_of_prefix_length_le ⟨_, hc⟩ ⟨_, rfl⟩ (Nat.le_of_lt hlt)
      have hne : rest ≠ [] := by
        rintro rfl
        rw [← hrest, List.append_nil] at hlt
        exact Nat.lt_irrefl _ hlt
      rw [readAll, h.verdict_none hrest hne, ih (buf ++ p) hc hlt]
      rw [List.length_append] at hlt ⊢
      constructor
      · intro hm
        exact .inr ⟨_, hm, by omega⟩
      · rintro (he | ⟨c, hm, he⟩)
        · omega
        · have hcut : head.length - (buf.length + p.length) = c := by omega
          rwa [hcut]
    · -- the piece ends with the head
      obtain ⟨rfl, hd⟩ := List.append_inj hc heq
      rw [readAll, h.verdict]
      rw [List.length_append] at heq ⊢
      exact ⟨fun _ => .inl (by omega), fun _ => ⟨rfl, hd⟩⟩
    · -- the piece goes on behind the head
      have hrest := readAll_rest buf p ps
      rw [List.length_append] at hgt
      constructor
      · rintro ⟨_, hd⟩
        rw [hd] at hrest
        omega
      · rintro (he | ⟨c, hm, he⟩) <;> omega

end

namespace Tunnel

/-- What is still to be read decides as the whole stream does; a good end has left what reading
the whole stream leaves. -/
def Decides (inbound : Segmented UInt8) (s : Tunnel) : Prop :=
  match s.result with
  | none => readAll s.buf s.inbound.pieces = readAll [] inbound.pieces
  | some (.ok ()) => readAll [] inbound.pieces = (.ok (), s.inbound.pieces)
  | some (.error _) => True

/-- Where the future stands: the request is on its way and nothing has been read, or it is out. -/
def Proceeds (request : Bytes) (inbound : Segmented UInt8) (s : Tunnel) : Prop :=
  match s.state with
  | .writing => s.inbound = inbound ∧ s.wire ++ s.buf = request ∧ s.result ≠ some (.ok ())
  | .reading => s.wire = request ∧ s.Decides inbound

variable {inbound : Segmented UInt8} {request : Bytes}

theorem pollReading_frame (s : Tunnel) (answers : List RecvAnswer) :
    (s.pollReading answers).state = s.state ∧ (s.pollReading answers).wire = s.wire := by
  induction answers generalizing s with
  | nil => exact ⟨rfl, rfl⟩
  | cons a answers ih =>
    cases a with
    | pending => exact ⟨rfl, rfl⟩
    | failed => exact ⟨rfl, rfl⟩
    | ready =>
      rw [pollReading]
      split
      · exact ⟨rfl, rfl⟩
      · split
        · exact ⟨rfl, rfl⟩
        · exact ih _

theorem readPiece_pieces {s t : Segmented UInt8} (h : s.readPiece = some (p, t)) :
    s.pieces = p :: t.pieces := by
  obtain ⟨ps, hne⟩ := s
  cases ps with
  | nil => cases h
  | cons q qs =>
    cases h
    rfl

theorem readPiece_none {s : Segmented UInt8} (h : s.readPiece = none) : s.pieces = [] := by
  obtain ⟨ps, hne⟩ := s
  cases ps with
  | nil => rfl
  | cons q qs => cases h

theorem Decides.pollReading (answers : List RecvAnswer) {s : Tunnel} (hr : s.result = none)
    (h : readAll s.buf s.inbound.pieces = readAll [] inbound.pieces) :
    (s.pollReading answers).Decides inbound := by
  induction answers generalizing s with
  | nil => simpa only [Tunnel.pollReading, Decides, hr] using h
  | cons a answers ih =>
    cases a with
    | pending => simpa only [Tunnel.pollReading, Decides, hr] using h
    | failed => exact trivial
    | ready =>
      rw [Tunnel.pollReading]
      split
      · exact trivial
      · rename_i read rest hp
        rw [readPiece_pieces hp, readAll] at h
        split
        · rename_i r hv
          rw [hv] at h
          cases r with
          | ok _ => exact h.symm
          | error e => exact trivial
        · rename_i hv
          rw [hv] at h
          exact ih hr h

theorem Proceeds.pollWriting (answers : List SendAnswer) {s : Tunnel} (hs : s.state = .writing)
    (hr : s.result = none) (hi : s.inbound = inbound) (hw : s.wire ++ s.buf = request) :
    (s.pollWriting answers).Proceeds request inbound := by
  have hne : s.result ≠ some (.ok ()) := by
    rw [hr]
    exact nofun
  induction answers generalizing s with
  | nil =>
    simp only [Proceeds, Tunnel.pollWriting, hs]
    exact ⟨hi, hw, hne⟩
  | cons a answers ih =>
    cases a with
    | pending =>
      simp only [Proceeds, Tunnel.pollWriting, hs]
      exact ⟨hi, hw, hne⟩
    | failed =>
      simp only [Proceeds, Tunnel.pollWriting, hs]
      exact ⟨hi, hw, nofun⟩
    | accept n =>
      have hw' : s.wire ++ s.buf.take n ++ s.buf.drop n = request := by
        rw [List.append_assoc, List.take_append_drop, hw]
      rw [Tunnel.pollWriting]
      split
      · rename_i he
        simp only at he
        rw [he, List.append_nil] at hw'
        obtain ⟨hstate, hwire⟩ := pollReading_frame { s with
          wire := s.wire ++ s.buf.take n
          buf := s.buf.drop n
          state := .reading
          sendAnswers := answers } s.recvAnswers
        simp only [Proceeds, hstate]
        refine ⟨hwire.trans hw', .pollReading _ hr ?_⟩
        simp only [he, hi]
      · split
        · simp only [Proceeds, hs]
          exact ⟨hi, hw', nofun⟩
        · exact ih hs hr hi hw' hne

theorem Proceeds.poll {s : Tunnel} (h : s.Proceeds request inbound) :
    s.poll.Proceeds request inbound := by
  unfold Tunnel.poll
  split
  · exact h
  · rename_i hr
    rw [Option.not_isSome_iff_eq_none] at hr
    cases hs : s.state with
    | writing =>
      simp only [Proceeds, hs] at h
      exact .pollWriting _ hs hr h.1 h.2.1
    | reading =>
      simp only [Proceeds, hs, Decides, hr] at h
      obtain ⟨hstate, hwire⟩ := s.pollReading_frame s.recvAnswers
      simp only [Proceeds, hstate, hs]
      exact ⟨hwire.trans h.1, .pollReading _ hr h.2⟩

theorem proceeds (host : String) (sendAnswers : List SendAnswer) (inbound : Segmented UInt8)
    (recvAnswers : List RecvAnswer) (n : Nat) :
    (Tunnel.poll^[n] (.withStream host sendAnswers inbound recvAnswers)).Proceeds
      (connectRequest host) inbound := by
  apply Function.Iterate.rec (Proceeds (connectRequest host) inbound) _ fun _ => Proceeds.poll
  exact ⟨rfl, rfl, nofun⟩

theorem resolved {host : String} {sendAnswers : List SendAnswer}
    {recvAnswers : List RecvAnswer} {n : Nat}
    (hr : (Tunnel.poll^[n] (.withStream host sendAnswers inbound recvAnswers)).result =
      some (.ok ())) :
    readAll [] inbound.pieces = (.ok (),
      (Tunnel.poll^[n] (.withStream host sendAnswers inbound recvAnswers)).inbound.pieces) := by
  have hp := proceeds host sendAnswers inbound recvAnswers n
  unfold Proceeds at hp
  split at hp
  · exact absurd hr hp.2.2
  · have hdec := hp.2
    simp only [Decides, hr] at hdec
    exact hdec

section
variable {s : Tunnel} (answers : List RecvAnswer)

theorem pollReading_decided (hp : s.inbound.readPiece = some (p, left))
    (hv : verdict (s.buf ++ p) = some r) :
    (s.pollReading (.ready :: answers)).result = some r := by
  simp only [pollReading, hp, hv]

theorem pollReading_more (hp : s.inbound.readPiece = some (p, left))
    (hv : verdict (s.buf ++ p) = none) :
    s.pollReading (.ready :: answers) =
      pollReading { s with buf := s.buf ++ p, inbound := left } answers := by
  simp only [pollReading, hp, hv]

end

theorem pollReading_resolves (answers : List RecvAnswer) {s : Tunnel} (hs : s.state = .reading)
    (hr : s.result = none) (hf : .failed ∉ answers)
    (hd : s.inbound.pieces.length ≤ answers.count .ready)
    (h : (readAll s.buf s.inbound.pieces).1 = .ok ()) :
    ∃ n, (Tunnel.poll^[n] (s.pollReading answers)).result = some (.ok ()) := by
  induction answers generalizing s with
  | nil =>
    have hp : s.inbound.pieces = [] := List.eq_nil_of_length_eq_zero (Nat.le_zero.1 hd)
    rw [hp] at h
    cases h
  | cons a answers ih =>
    have hf' : .failed ∉ answers := fun hm => hf (List.mem_cons_of_mem a hm)
    cases a with
    | failed => exact absurd List.mem_cons_self hf
    | pending =>
      rw [List.count_cons_of_ne (by decide)] at hd
      obtain ⟨n, hn⟩ := ih (s := { s with recvAnswers := answers }) hs hr hf' hd h
      refine ⟨n + 1, ?_⟩
      have hpoll : poll { s with recvAnswers := answers } =
          pollReading { s with recvAnswers := answers } answers := by
        simp only [poll, hr, hs, Option.isSome_none, Bool.false_eq_true, if_false]
      rw [Function.iterate_succ_apply, pollReading, hpoll]
      exact hn
    | ready =>
      rw [List.count_cons_self] at hd
      cases hp : s.inbound.readPiece with
      | none =>
        rw [readPiece_none hp] at h
        cases h
      | some r =>
        obtain ⟨read, left⟩ := r
        rw [readPiece_pieces hp] at h hd
        rw [readAll] at h
        cases hv : verdict (s.buf ++ read) with
        | some r =>
          rw [hv] at h
          rw [← show r = .ok () from h]
          exact ⟨0, pollReading_decided answers hp hv⟩
        | none =>
          rw [hv] at h
          rw [pollReading_more answers hp hv]
          apply ih (s := { s with buf := s.buf ++ read, inbound := left }) hs hr hf' _ h
          exact Nat.le_of_succ_le_succ hd

theorem pollWriting_resolves (answers : List SendAnswer) {s : Tunnel} (hs : s.state = .writing)
    (hr : s.result = none) (hb : s.buf ≠ [])
    (hf : ∀ a ∈ answers, a ≠ .failed ∧ a ≠ .accept 0) (ht : s.buf.length ≤ taken answers)
    (hrecv : .failed ∉ s.recvAnswers)
    (hd : s.inbound.pieces.length ≤ s.recvAnswers.count .ready)
    (h : (readAll [] s.inbound.pieces).1 = .ok ()) :
    ∃ n, (Tunnel.poll^[n] (s.pollWriting answers)).result = some (.ok ()) := by
  induction answers generalizing s with
  | nil => exact absurd (List.eq_nil_of_length_eq_zero (Nat.le_zero.1 ht)) hb
  | cons a answers ih =>
    have hf' : ∀ a ∈ answers, a ≠ .failed ∧ a ≠ .accept 0 :=
      fun b hm => hf b (List.mem_cons_of_mem a hm)
    obtain ⟨hnf, hn0⟩ := hf a List.mem_cons_self
    cases a with
    | failed => exact absurd rfl hnf
    | pending =>
      obtain ⟨n, hn⟩ := ih (s := { s with sendAnswers := answers }) hs hr hb hf' ht hrecv hd h
      refine ⟨n + 1, ?_⟩
      have hpoll : poll { s with sendAnswers := answers } =
          pollWriting { s with sendAnswers := answers } answers := by
        simp only [poll, hr, hs, Option.isSome_none, Bool.false_eq_true, if_false]
      rw [Function.iterate_succ_apply, pollWriting, hpoll]
      exact hn
    | accept k =>
      rw [pollWriting]
      split
      · rename_i he
        refine pollReading_resolves _ rfl hr hrecv hd ?_
        simp only at he ⊢
        rw [he]
        exact h
      · rename_i hb'
        split
        · rename_i hk
          exact absurd (congrArg SendAnswer.accept hk) hn0
        · refine ih hs hr hb' hf' ?_ hrecv hd h
          simp only [taken] at ht
          simp only [List.length_drop]
          omega

end Tunnel

theorem connectRequest_ne_nil (host : String) : connectRequest host ≠ [] := by
  intro h
  have hl := congrArg List.length h
  simp only [connectRequest, asBytes_append, List.length_append, List.length_nil] at hl
  have hc : (asBytes "CONNECT ").length = 8 := rfl
  omega

/-- Whatever the schedule of writes and waits, the tunnel is established exactly when one of the
reads ends where the head ends. -/
theorem tunnel_establishes_iff (host : String) (sendAnswers : List SendAnswer)
    (inbound : Segmented UInt8) (recvAnswers : List RecvAnswer) (head d : Bytes)
    (hhead : SuccessHead head) (hin : inbound.content = head ++ d)
    (hw : Willing (connectRequest host) sendAnswers inbound recvAnswers) :
    Establishes host sendAnswers inbound recvAnswers d ↔ head.length ∈ inbound.cuts := by
  have hlen := hhead.long
  have hread := readAll_iff hhead inbound.pieces [] hin (by rw [List.length_nil]; omega)
  rw [List.length_nil, Nat.sub_zero] at hread
  constructor
  · rintro ⟨_, n, hr, hd⟩
    apply hread.1
    rw [Tunnel.resolved hr]
    exact ⟨rfl, hd⟩
  · intro hcut
    obtain ⟨hok, hrest⟩ := hread.2 hcut
    refine ⟨?_, ?_⟩
    · intro n
      have hp := Tunnel.proceeds host sendAnswers inbound recvAnswers n
      unfold Tunnel.Proceeds at hp
      split at hp
      · rename_i hs
        exact .inl ⟨hs, hp.1, _, hp.2.1⟩
      · rename_i hs
        exact .inr ⟨hs, hp.1⟩
    · obtain ⟨n, hn⟩ := Tunnel.pollWriting_resolves sendAnswers
        (s := .withStream host sendAnswers inbound recvAnswers) rfl rfl
        (connectRequest_ne_nil host) hw.sends hw.takes hw.receives hw.delivers hok
      have hr : (Tunnel.poll^[n + 1] (.withStream host sendAnswers inbound recvAnswers)).result =
          some (.ok ()) := hn
      rw [Tunnel.resolved hr] at hrest
      exact ⟨n + 1, hr, hrest⟩

theorem first_of_windows (h : ∀ i < head.length - 4, (head.drop i).take 4 ≠ blankLine)
    (before after : Bytes) (he : head = before ++ blankLine ++ after) : after = [] := by
  by_contra hne
  have hpos : 0 < after.length := List.length_pos_of_ne_nil hne
  have hl := congrArg List.length he
  simp only [List.length_append, show blankLine.length = 4 from rfl] at hl
  apply h before.length (by omega)
  rw [he, List.append_assoc, List.drop_left]
  rfl

def shortHead : Bytes := asBytes "HTTP/1.1 200\r\n\r\n"

theorem shortHead_success : SuccessHead shortHead where
  starts := .inl (by decide)
  ends := by decide
  first := first_of_windows (by decide)

/-- The head and the first tunnelled byte arrive in one read, and the tunnel waits for a head that
has gone by. -/
theorem tunnel_misses_joined_head :
    ¬ ∀ (host : String) (sendAnswers : List SendAnswer) (inbound : Segmented UInt8)
      (recvAnswers : List RecvAnswer) (head d : Bytes), SuccessHead head →
      inbound.content = head ++ d → Willing (connectRequest host) sendAnswers inbound recvAnswers →
      Establishes host sendAnswers inbound recvAnswers d := by
  intro h
  have hw : Willing (connectRequest "a:80") [.accept 64] ⟨[shortHead ++ [7]], by decide⟩ [.ready] :=
    ⟨by decide, by decide, by decide, by decide⟩
  obtain ⟨_, n, hr, _⟩ := h "a:80" _ _ _ shortHead [7] shortHead_success rfl hw
  have hread : (readAll [] [shortHead ++ [7]]).1 = .ok () := congrArg Prod.fst (Tunnel.resolved hr)
  exact absurd hread (by decide)

theorem tunnel_establishes_split_head :
    Establishes "a:80" [.accept 10, .pending, .accept 64]
      ⟨[shortHead.take 14, shortHead.drop 14, [7]], by decide⟩
      [.pending, .ready, .ready, .ready] [7] :=
  (tunnel_establishes_iff "a:80" _ _ _ shortHead [7] shortHead_success rfl
    ⟨by decide, by decide, by decide, by decide⟩).2 (by decide)

end Octoproxy.ProxyClient
