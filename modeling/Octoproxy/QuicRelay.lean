import Octoproxy.QuicStream
import Octoproxy.Relay

namespace Octoproxy
open Pipes Segments Transition
set_option autoImplicit true

/-- Where a tunnel stands on the client: in a state of `new_stream`, in `transfer`, or over. -/
inductive QuicClientPc where
  | writing
  | reading
  | transferring
  | over
deriving DecidableEq

/-- A tunnel over QUIC with both of its ends. The way up has the head in front, and after `again`,
what earlier polls have written of it; the way down has the acknowledgement in front, of which
the client has read `down.consumed`. -/
structure QuicRelay where
  up : Line UInt8
  down : Line UInt8
  client : QuicClientPc
  server : TunnelPc
  dialled : Option String
  tunnelling : Bool
  again : Bytes

/-- `leave` is the end of the client's task and `endTunnel` that of the server's, for whatever
reason. -/
inductive QuicRelayAct where
  | send (xs : Bytes)
  | endSend
  | reply (xs : Bytes)
  | endReply
  | pollWrite (n : Nat)
  | readChunk (n : Nat)
  | transferUp (a : CopyAct)
  | transferDown (a : CopyAct)
  | leave
  | acknowledge (n : Nat)
  | readLen (n : Nat)
  | readUrl (n : Nat)
  | dial (ok : Bool)
  | tunnelUp (a : CopyAct)
  | tunnelDown (a : CopyAct)
  | endTunnel

namespace QuicRelay

def start (head : ConnectHeadBuf) : QuicRelay where
  up := .new head.buf
  down := .new acknowledgement
  client := .writing
  server := .readingLen []
  dialled := none
  tunnelling := true
  again := []

/-- A poll of `new_stream` in which the stream takes `n` bytes. The next one starts over. -/
def pollWrite (s : QuicRelay) (n : Nat) : Option QuicRelay :=
  if s.client = .writing ∧ n ≤ s.up.left.length then
    if n = s.up.left.length then some { s with up := s.up.lead n, client := .reading }
    else some { s with up := s.up.leadAgain n, again := s.again ++ s.up.left.take n }
  else none

/-- One chunk of at most two bytes, or none at the end of the stream. -/
def readChunk (s : QuicRelay) (n : Nat) : Option QuicRelay :=
  if s.client = .reading ∧ n ≤ 2 ∧
      (n ≠ 0 ∨ s.down.stream.closed = true ∧ s.down.stream.pending = []) then
    (s.down.consume n).map fun (_, down) => { s with down := down, client := .transferring }
  else none

/-- Both streams of the client are dropped, and a dropped send stream is finished. -/
def leave (s : QuicRelay) : QuicRelay :=
  { s with up := s.up.giveUpStream, down := s.down.giveUpSink, client := .over }

/-- The same for the server and, once it is there, the connection to the target. -/
def endTunnel (s : QuicRelay) : QuicRelay := { s with
  up := if s.dialled.isSome then s.up.giveUpSink else s.up
  down := s.down.giveUpStream
  tunnelling := false }

/-- The server writes `OK` before it calls `tunnel`. -/
def acknowledge (s : QuicRelay) (n : Nat) : Option QuicRelay :=
  if s.tunnelling = true ∧ n ≠ 0 ∧ n ≤ s.down.left.length then
    some { s with down := s.down.lead n }
  else none

def inTunnel (s : QuicRelay) : Bool := s.tunnelling && s.down.left.isEmpty

def readLen (s : QuicRelay) (n : Nat) : Option QuicRelay :=
  match s.server with
  | .readingLen got =>
    if s.inTunnel && (n != 0 && got.length + n ≤ 2) then
      (s.up.consume n).map fun (xs, up) => { s with
        up := up
        server := if (got ++ xs).length = 2 then .readingUrl (getU16 (got ++ xs))
          else .readingLen (got ++ xs) }
    else none
  | _ => none

def readUrl (s : QuicRelay) (n : Nat) : Option QuicRelay :=
  match s.server with
  | .readingUrl len =>
    if s.inTunnel && n ≤ spareCapacity len &&
        (n != 0 || s.up.stream.closed && s.up.stream.pending.isEmpty) then
      (s.up.consume n).map fun (xs, up) =>
        match fromUtf8 xs with
        | some url => { s with up := up, server := .dialling url }
        | none => s.endTunnel
    else none
  | _ => none

def dial (s : QuicRelay) (ok : Bool) : Option QuicRelay :=
  match s.server with
  | .dialling url =>
    if s.inTunnel then
      if ok then some { s with dialled := some url, server := .copying } else some s.endTunnel
    else none
  | _ => none

def tunnelUp (s : QuicRelay) (a : CopyAct) : Option QuicRelay :=
  match s.server with
  | .copying =>
    if s.inTunnel then (s.up.copyFar a).map fun up => { s with up := up } else none
  | _ => none

def tunnelDown (s : QuicRelay) (a : CopyAct) : Option QuicRelay :=
  match s.server with
  | .copying =>
    if s.inTunnel then (s.down.copyNear a).map fun down => { s with down := down } else none
  | _ => none

def step (s : QuicRelay) : QuicRelayAct → Option QuicRelay
  | .send xs => if s.up.source.closed then none else some { s with up := s.up.send xs }
  | .endSend => some { s with up := s.up.endSend }
  | .reply xs =>
    if s.dialled.isNone || s.down.source.closed then none
    else some { s with down := s.down.send xs }
  | .endReply => if s.dialled.isNone then none else some { s with down := s.down.endSend }
  | .pollWrite n => s.pollWrite n
  | .readChunk n => s.readChunk n
  | .transferUp a =>
    if s.client = .transferring then (s.up.copyNear a).map fun up => { s with up := up } else none
  | .transferDown a =>
    if s.client = .transferring then (s.down.copyFar a).map fun down => { s with down := down }
    else none
  | .leave => if s.client = .over then none else some s.leave
  | .acknowledge n => s.acknowledge n
  | .readLen n => s.readLen n
  | .readUrl n => s.readUrl n
  | .dial ok => s.dial ok
  | .tunnelUp a => s.tunnelUp a
  | .tunnelDown a => s.tunnelDown a
  | .endTunnel => if s.tunnelling then some s.endTunnel else none

end QuicRelay

/-- The target gets, in order and once, what follows the address that was dialled in what earlier
polls have written, the head and what the browser has sent. The browser gets what follows the
chunk that was read of the acknowledgement and what the target has sent. -/
structure QuicRelay.Faithful (host : String) (s : QuicRelay) : Prop where
  silent : s.dialled = none → s.up.sink.written = [] ∧ s.down.source.written = []
  up : ∀ url, s.dialled = some url → ∃ len : Bytes, len.length = 2 ∧
    s.up.Carries (s.again ++ (ConnectHeadBuf.fromStr host).buf) (len ++ asBytes url)
  read : ∀ url, s.dialled = some url → asBytes url ≠ [] → ∃ inbound rest : Segmented UInt8,
    inbound.content = s.up.stream.written ∧ tunnelHead inbound = .ok (url, rest) ∧
      rest.content = s.up.sink.written ++ (s.up.far.buf ++ s.up.stream.pending)
  down : s.down.Carries acknowledgement s.down.consumed

/-- No poll stops after a part of the head, and the acknowledgement is read as a whole. -/
def QuicRelay.Whole (s : QuicRelay) : QuicRelayAct → Prop
  | .pollWrite n => n = 0 ∨ n = s.up.left.length
  | .readChunk n => n = 2
  | _ => True

instance (s : QuicRelay) : (a : QuicRelayAct) → Decidable (s.Whole a)
  | .pollWrite n => inferInstanceAs (Decidable (n = 0 ∨ n = s.up.left.length))
  | .readChunk n => inferInstanceAs (Decidable (n = 2))
  | .send _ | .endSend | .reply _ | .endReply | .transferUp _ | .transferDown _ | .leave
  | .acknowledge _ | .readLen _ | .readUrl _ | .dial _ | .tunnelUp _ | .tunnelDown _
  | .endTunnel => isTrue trivial

inductive QuicRelay.Step (s : QuicRelay) : QuicRelayAct → QuicRelay → Prop where
  | send : s.up.source.closed = false → Step s (.send xs) { s with up := s.up.send xs }
  | endSend : Step s .endSend { s with up := s.up.endSend }
  | reply : s.dialled ≠ none → s.down.source.closed = false →
      Step s (.reply xs) { s with down := s.down.send xs }
  | endReply : Step s .endReply { s with down := s.down.endSend }
  | headWritten : s.client = .writing → n = s.up.left.length →
      Step s (.pollWrite n) { s with up := s.up.lead n, client := .reading }
  | headAgain : s.client = .writing → n ≠ s.up.left.length → Step s (.pollWrite n)
      { s with up := s.up.leadAgain n, again := s.again ++ s.up.left.take n }
  | readChunk : s.client = .reading → s.down.consume n = some (xs, l) →
      Step s (.readChunk n) { s with down := l, client := .transferring }
  | transferUp : s.client = .transferring → s.up.copyNear a = some l →
      Step s (.transferUp a) { s with up := l }
  | transferDown : s.client = .transferring → s.down.copyFar a = some l →
      Step s (.transferDown a) { s with down := l }
  | leave : Step s .leave s.leave
  | acknowledge : s.down.left ≠ [] → Step s (.acknowledge n) { s with down := s.down.lead n }
  | readLen : s.server = .readingLen got → s.up.consume n = some (xs, l) →
      Step s (.readLen n) { s with
        up := l
        server := if (got ++ xs).length = 2 then .readingUrl (getU16 (got ++ xs))
          else .readingLen (got ++ xs) }
  | readUrl : s.server = .readingUrl len → n ≤ spareCapacity len →
      s.up.consume n = some (xs, l) → fromUtf8 xs = some url →
      Step s (.readUrl n) { s with up := l, server := .dialling url }
  | dial : s.server = .dialling url →
      Step s (.dial ok) { s with dialled := some url, server := .copying }
  | tunnelUp : s.server = .copying → s.up.copyFar a = some l →
      Step s (.tunnelUp a) { s with up := l }
  | tunnelDown : s.server = .copying → s.down.left = [] → s.down.copyNear a = some l →
      Step s (.tunnelDown a) { s with down := l }
  -- the server's task ends at its own will, or because the address cannot be read or dialled
  | endTunnel : Step s a s.endTunnel

theorem QuicRelay.step_pollWrite {s s' : QuicRelay} (hs : s.pollWrite n = some s') :
    Step s (.pollWrite n) s' := by
  unfold QuicRelay.pollWrite at hs
  split at hs
  · rename_i hc
    split at hs
    · rename_i hn
      cases hs
      exact .headWritten hc.1 hn
    · rename_i hn
      cases hs
      exact .headAgain hc.1 hn
  · cases hs

theorem QuicRelay.step_readUrl {s s' : QuicRelay} (hs : s.readUrl n = some s') :
    Step s (.readUrl n) s' := by
  unfold QuicRelay.readUrl at hs
  split at hs
  · rename_i len hpc
    split at hs
    · rename_i hc
      obtain ⟨⟨xs, l⟩, hcons, rfl⟩ := Option.map_eq_some_iff.1 hs
      have hroom : n ≤ spareCapacity len := by
        have := (Bool.and_eq_true_iff.1 (Bool.and_eq_true_iff.1 hc).1).2
        simpa using this
      dsimp only
      split
      · rename_i url hurl
        exact .readUrl hpc hroom hcons hurl
      · exact .endTunnel
    · cases hs
  · cases hs

theorem QuicRelay.step_dial {s s' : QuicRelay} (hs : s.dial ok = some s') :
    Step s (.dial ok) s' := by
  unfold QuicRelay.dial at hs
  split at hs
  · rename_i url hpc
    split at hs
    · split at hs
      · cases hs
        exact .dial hpc
      · cases hs
        exact .endTunnel
    · cases hs
  · cases hs

theorem QuicRelay.step_cases {s s' : QuicRelay} (hs : s.step a = some s') : Step s a s' := by
  cases a with
  | send xs =>
    simp only [QuicRelay.step] at hs
    split at hs
    · cases hs
    · rename_i hcl
      cases hs
      exact .send (Bool.eq_false_iff.2 hcl)
  | endSend =>
    cases hs
    exact .endSend
  | reply xs =>
    simp only [QuicRelay.step] at hs
    split at hs
    · cases hs
    · rename_i hc
      cases hs
      have hopen : s.dialled ≠ none ∧ s.down.source.closed = false := by simpa using hc
      exact .reply hopen.1 hopen.2
  | endReply =>
    simp only [QuicRelay.step] at hs
    split at hs
    · cases hs
    · cases hs
      exact .endReply
  | pollWrite n => exact QuicRelay.step_pollWrite hs
  | readChunk n =>
    simp only [QuicRelay.step, QuicRelay.readChunk] at hs
    split at hs
    · rename_i hc
      obtain ⟨⟨xs, l⟩, hcons, rfl⟩ := Option.map_eq_some_iff.1 hs
      exact .readChunk hc.1 hcons
    · cases hs
  | transferUp a =>
    simp only [QuicRelay.step] at hs
    split at hs
    · rename_i hc
      obtain ⟨l, hcopy, rfl⟩ := Option.map_eq_some_iff.1 hs
      exact .transferUp hc hcopy
    · cases hs
  | transferDown a =>
    simp only [QuicRelay.step] at hs
    split at hs
    · rename_i hc
      obtain ⟨l, hcopy, rfl⟩ := Option.map_eq_some_iff.1 hs
      exact .transferDown hc hcopy
    · cases hs
  | leave =>
    simp only [QuicRelay.step] at hs
    split at hs
    · cases hs
    · cases hs
      exact .leave
  | acknowledge n =>
    simp only [QuicRelay.step, QuicRelay.acknowledge] at hs
    split at hs
    · rename_i hc
      cases hs
      apply QuicRelay.Step.acknowledge
      intro hnil
      rw [hnil, List.length_nil] at hc
      omega
    · cases hs
  | readLen n =>
    simp only [QuicRelay.step, QuicRelay.readLen] at hs
    split at hs
    · rename_i got hpc
      split at hs
      · obtain ⟨⟨xs, l⟩, hcons, rfl⟩ := Option.map_eq_some_iff.1 hs
        exact .readLen hpc hcons
      · cases hs
    · cases hs
  | readUrl n => exact QuicRelay.step_readUrl hs
  | dial ok => exact QuicRelay.step_dial hs
  | tunnelUp a =>
    simp only [QuicRelay.step, QuicRelay.tunnelUp] at hs
    split at hs
    · rename_i hpc
      split at hs
      · obtain ⟨l, hcopy, rfl⟩ := Option.map_eq_some_iff.1 hs
        exact .tunnelUp hpc hcopy
      · cases hs
    · cases hs
  | tunnelDown a =>
    simp only [QuicRelay.step, QuicRelay.tunnelDown] at hs
    split at hs
    · rename_i hpc
      split at hs
      · rename_i hc
        obtain ⟨l, hcopy, rfl⟩ := Option.map_eq_some_iff.1 hs
        have hleft : s.down.left = [] := List.isEmpty_iff.1 (Bool.and_eq_true_iff.1 hc).2
        exact .tunnelDown hpc hleft hcopy
      · cases hs
    · cases hs
  | endTunnel =>
    simp only [QuicRelay.step] at hs
    split at hs
    · cases hs
      exact .endTunnel
    · cases hs

/-- Both ways are sound, and each side has read and written as much as its state says. -/
structure QuicRelay.Sound (head : Bytes) (s : QuicRelay) : Prop where
  up : s.up.Sound (s.again ++ head)
  down : s.down.Sound acknowledgement
  heading : s.client = .writing → s.up.left = head ∧ s.up.stream.written = s.again
  headed : s.client = .reading ∨ s.client = .transferring → s.up.left = []
  unread : s.client = .writing ∨ s.client = .reading →
    s.down.consumed = [] ∧ s.down.far = .new ∧ s.down.sink.written = []
  reads : s.server.Reads s.up.consumed s.dialled
  silent : s.dialled = none →
    s.up.sink.written = [] ∧ s.up.far = .new ∧ s.down.source.written = []

section
variable {head : Bytes} {s s' : QuicRelay}

theorem QuicRelay.start_sound (head : ConnectHeadBuf) :
    (QuicRelay.start head).Sound head.buf where
  up := Line.new_sound head.buf
  down := Line.new_sound acknowledgement
  heading := fun _ => ⟨rfl, rfl⟩
  headed := by
    intro h
    cases h with
    | inl h => cases h
    | inr h => cases h
  unread := fun _ => ⟨rfl, rfl, rfl⟩
  reads := ⟨rfl, rfl⟩
  silent := fun _ => ⟨rfl, rfl, rfl⟩

theorem QuicRelay.Sound.headAgain (h : s.Sound head) (hhead : head ≠ [])
    (hc : s.client = .writing) (n : Nat) : QuicRelay.Sound head
      { s with up := s.up.leadAgain n, again := s.again ++ s.up.left.take n } := by
  obtain ⟨hleft, hwritten⟩ := h.heading hc
  have hup := h.up.leadAgain (by rwa [hleft]) n
  rw [hwritten] at hup
  exact { h with
    up := by rwa [hleft] at hup ⊢
    heading := fun _ => ⟨hleft, congrArg (· ++ s.up.left.take n) hwritten⟩ }

theorem QuicRelay.Sound.headWritten (h : s.Sound head) (hhead : head ≠ [])
    (hc : s.client = .writing) (hn : n = s.up.left.length) :
    QuicRelay.Sound head { s with up := s.up.lead n, client := .reading } := by
  have hne : s.up.left ≠ [] := by rwa [(h.heading hc).1]
  have hnil : (s.up.lead n).left = [] := List.drop_eq_nil_of_le (Nat.le_of_eq hn.symm)
  exact { h with
    up := h.up.lead hne n
    heading := by simp
    headed := fun _ => hnil
    unread := fun _ => h.unread (.inl hc) }

theorem QuicRelay.Sound.readChunk (h : s.Sound head) (hc : s.client = .reading)
    (hcons : s.down.consume n = some (xs, l)) :
    QuicRelay.Sound head { s with down := l, client := .transferring } := by
  obtain ⟨_, hfar, hsink⟩ := h.unread (.inr hc)
  have hdown := h.down.consume hfar hsink hcons
  obtain ⟨p, _, rfl⟩ := Line.consume_cases hcons
  exact { h with
    down := hdown
    heading := by simp
    headed := fun _ => h.headed (.inl hc)
    unread := by simp }

theorem QuicRelay.Sound.leave (h : s.Sound head) : s.leave.Sound head :=
  { h with
    up := h.up.giveUpStream
    down := h.down.giveUpSink
    heading := by simp [QuicRelay.leave]
    headed := by simp [QuicRelay.leave]
    unread := by simp [QuicRelay.leave] }

theorem QuicRelay.Sound.endTunnel (h : s.Sound head) : s.endTunnel.Sound head := by
  cases hd : s.dialled.isSome with
  | true =>
    simp only [QuicRelay.endTunnel, hd]
    exact { h with
      up := h.up.giveUpSink
      down := h.down.giveUpStream }
  | false =>
    simp only [QuicRelay.endTunnel, hd]
    exact { h with down := h.down.giveUpStream }

theorem QuicRelay.Sound.consume (h : s.Sound head) (hd : s.dialled = none)
    (hcons : s.up.consume n = some (xs, l)) {next : TunnelPc}
    (hnext : next.Reads (s.up.consumed ++ xs) none) :
    QuicRelay.Sound head { s with up := l, server := next } := by
  obtain ⟨hsink, hfar, _⟩ := h.silent hd
  have hup := h.up.consume hfar hsink hcons
  obtain ⟨p, ht, rfl⟩ := Line.consume_cases hcons
  obtain ⟨_, hw, _, _⟩ := Pipe.take_cases ht
  exact { h with
    up := hup
    heading := fun hc => ⟨(h.heading hc).1, hw.trans (h.heading hc).2⟩
    reads := by
      dsimp only
      rwa [hd] }

theorem QuicRelay.Sound.readLen (h : s.Sound head) (hpc : s.server = .readingLen got)
    (hcons : s.up.consume n = some (xs, l)) : QuicRelay.Sound head { s with
      up := l
      server := if (got ++ xs).length = 2 then .readingUrl (getU16 (got ++ xs))
        else .readingLen (got ++ xs) } := by
  have hreads := h.reads
  rw [hpc] at hreads
  obtain ⟨hgot, hd⟩ := hreads
  apply h.consume hd hcons
  rw [hgot]
  split
  · rename_i hlen
    exact ⟨⟨hlen, rfl⟩, rfl⟩
  · exact ⟨rfl, rfl⟩

theorem QuicRelay.Sound.readUrl (h : s.Sound head) (hpc : s.server = .readingUrl len)
    (hroom : n ≤ spareCapacity len) (hcons : s.up.consume n = some (xs, l))
    (hurl : fromUtf8 xs = some url) :
    QuicRelay.Sound head { s with up := l, server := .dialling url } := by
  have hreads := h.reads
  rw [hpc] at hreads
  obtain ⟨⟨hlen, hnum⟩, hd⟩ := hreads
  obtain ⟨p, ht, _⟩ := Line.consume_cases hcons
  obtain ⟨_, _, _, hn⟩ := Pipe.take_cases ht
  apply h.consume hd hcons
  refine ⟨⟨s.up.consumed, hlen, ?_, ?_⟩, rfl⟩
  · rw [asBytes_of_fromUtf8 hurl]
  · rw [asBytes_of_fromUtf8 hurl, hn, ← hnum]
    exact hroom

theorem QuicRelay.Sound.dialled_ne (h : s.Sound head) (hpc : s.server = .copying) :
    s.dialled ≠ none := by
  have hreads := h.reads
  rw [hpc] at hreads
  exact hreads.dialled_ne

theorem QuicRelay.Sound.tunnelUp (h : s.Sound head) (hpc : s.server = .copying)
    (hs : s.up.copyFar a = some l) : QuicRelay.Sound head { s with up := l } := by
  have hup := h.up.copyFar hs
  obtain ⟨src, dst, c, hstep, rfl⟩ := Line.copyFar_cases hs
  exact { h with
    up := hup
    heading := fun hc => ⟨(h.heading hc).1, hstep.src_written.1.trans (h.heading hc).2⟩
    silent := fun hn => absurd hn (h.dialled_ne hpc) }

theorem QuicRelay.Sound.tunnelDown (h : s.Sound head) (hpc : s.server = .copying)
    (hleft : s.down.left = []) (hs : s.down.copyNear a = some l) :
    QuicRelay.Sound head { s with down := l } := by
  have hdown := h.down.copyNear hleft hs
  obtain ⟨src, dst, c, _, rfl⟩ := Line.copyNear_cases hs
  exact { h with
    down := hdown
    silent := fun hn => absurd hn (h.dialled_ne hpc) }

theorem QuicRelay.Sound.transferUp (h : s.Sound head) (hc : s.client = .transferring)
    (hs : s.up.copyNear a = some l) : QuicRelay.Sound head { s with up := l } := by
  have hup := h.up.copyNear (h.headed (.inr hc)) hs
  obtain ⟨src, dst, c, _, rfl⟩ := Line.copyNear_cases hs
  exact { h with
    up := hup
    heading := by simp [hc] }

theorem QuicRelay.Sound.transferDown (h : s.Sound head) (hc : s.client = .transferring)
    (hs : s.down.copyFar a = some l) : QuicRelay.Sound head { s with down := l } := by
  have hdown := h.down.copyFar hs
  obtain ⟨src, dst, c, hstep, rfl⟩ := Line.copyFar_cases hs
  exact { h with
    down := hdown
    unread := by simp [hc] }

theorem QuicRelay.Sound.step (h : s.Sound head) (hhead : head ≠ []) (hs : Step s a s') :
    s'.Sound head := by
  cases hs with
  | send hopen => exact { h with up := h.up.send hopen _ }
  | endSend => exact { h with up := h.up.endSend }
  | reply hd hopen => exact { h with
      down := h.down.send hopen _
      silent := fun hn => absurd hn hd }
  | endReply => exact { h with down := h.down.endSend }
  | headWritten hc hn => exact h.headWritten hhead hc hn
  | headAgain hc _ => exact h.headAgain hhead hc _
  | readChunk hc hcons => exact h.readChunk hc hcons
  | transferUp hc hcopy => exact h.transferUp hc hcopy
  | transferDown hc hcopy => exact h.transferDown hc hcopy
  | leave => exact h.leave
  | acknowledge hleft => exact { h with down := h.down.lead hleft _ }
  | readLen hpc hcons => exact h.readLen hpc hcons
  | readUrl hpc hroom hcons hurl => exact h.readUrl hpc hroom hcons hurl
  | dial hpc =>
    have hreads := h.reads
    rw [hpc] at hreads
    exact { h with
      reads := ⟨_, rfl, hreads.1⟩
      silent := by simp }
  | tunnelUp hpc hcopy => exact h.tunnelUp hpc hcopy
  | tunnelDown hpc hleft hcopy => exact h.tunnelDown hpc hleft hcopy
  | endTunnel => exact h.endTunnel

theorem QuicRelay.Sound.faithful (h : s.Sound (ConnectHeadBuf.fromStr host).buf) :
    s.Faithful host where
  silent := fun hd => ⟨(h.silent hd).1, (h.silent hd).2.2⟩
  up := by
    intro url hd
    obtain ⟨len, hlen, hcons, _⟩ := h.reads.heads hd
    refine ⟨len, hlen, ?_⟩
    rw [← hcons]
    exact h.up.carries
  read := fun url hd hurl => tunnelHead_of_heads h.up (h.reads.heads hd) hurl
  down := h.down.carries

end

/-- Nothing of the head is in front of it, and what the client has read of the acknowledgement is
all of it or, before `transfer`, nothing. -/
structure QuicRelay.Clean (s : QuicRelay) : Prop where
  once : s.again = []
  chunk : s.down.consumed = acknowledgement ∨
    s.client ≠ .transferring ∧ s.down.consumed = [] ∧ s.down.sink.written = []

section
variable {head : Bytes} {s s' : QuicRelay}

theorem QuicRelay.Clean.readChunk (h : s.Clean) (hsound : s.Sound head)
    (hc : s.client = .reading) (hcons : s.down.consume 2 = some (xs, l)) :
    QuicRelay.Clean { s with down := l, client := .transferring } := by
  have hdown := (hsound.readChunk hc hcons).down.arrived_prefix
  obtain ⟨hnil, _, hsink⟩ := hsound.unread (.inr hc)
  obtain ⟨p, ht, rfl⟩ := Line.consume_cases hcons
  obtain ⟨_, _, _, hlen⟩ := Pipe.take_cases ht
  dsimp only at hdown
  rw [hnil, hsink, List.nil_append, List.append_nil] at hdown
  obtain ⟨rest, hrest⟩ := hdown
  refine ⟨h.once, .inl ?_⟩
  dsimp only
  rw [hnil, List.nil_append]
  exact (List.append_inj hrest (by rw [hlen]; rfl)).1

/-- Only the client's own copy writes to the browser, and only after the chunk has been read. -/
theorem QuicRelay.Clean.transferDown (h : s.Clean) (hc : s.client = .transferring)
    (hs : s.down.copyFar a = some l) : QuicRelay.Clean { s with down := l } := by
  obtain ⟨src, dst, c, _, rfl⟩ := Line.copyFar_cases hs
  obtain hack | ⟨hne, _⟩ := h.chunk
  · exact ⟨h.once, .inl hack⟩
  · exact absurd hc hne

theorem QuicRelay.Clean.keep (h : s.Clean) (hagain : s'.again = s.again)
    (hclient : s'.client = .transferring → s.client = .transferring)
    (hconsumed : s'.down.consumed = s.down.consumed)
    (hsink : s'.down.sink.written = s.down.sink.written) : s'.Clean where
  once := hagain.trans h.once
  chunk := by
    rw [hconsumed, hsink]
    obtain hack | ⟨hc, hnil⟩ := h.chunk
    · exact .inl hack
    · exact .inr ⟨fun hc' => hc (hclient hc'), hnil⟩

theorem QuicRelay.Clean.step (h : s.Clean) (hsound : s.Sound head) (hw : s.Whole a)
    (hs : Step s a s') : s'.Clean := by
  cases hs with
  | headAgain _ hn =>
    obtain rfl := hw.resolve_right hn
    exact h.keep (List.append_nil s.again) id rfl rfl
  | readChunk hc hcons =>
    obtain rfl := hw
    exact h.readChunk hsound hc hcons
  | transferDown hc hcopy => exact h.transferDown hc hcopy
  | tunnelDown _ _ hcopy =>
    obtain ⟨src, dst, c, _, rfl⟩ := Line.copyNear_cases hcopy
    exact h.keep rfl id rfl rfl
  | headWritten => exact h.keep rfl (by simp) rfl rfl
  | leave => exact h.keep rfl (by simp [QuicRelay.leave]) rfl rfl
  | _ => exact h.keep rfl id rfl rfl

theorem QuicRelay.Clean.carries_down (h : s.Clean) (hsound : s.Sound head) :
    s.down.Carries [] [] := by
  have hc := hsound.down.carries
  obtain hack | ⟨_, hnil, hsink⟩ := h.chunk
  · rw [hack, ← List.append_nil acknowledgement] at hc
    exact hc.cancel _
  · refine ⟨?_, ?_⟩
    · rw [hsink]
      exact List.nil_prefix
    · intro hcut hcl
      have hend := (hc.2 hcut hcl).2
      rw [hnil, hsink] at hend
      cases hend

theorem QuicRelay.Clean.carries_up (h : s.Clean)
    (hsound : s.Sound (ConnectHeadBuf.fromStr host).buf) (hd : s.dialled = some host) :
    s.up.Carries [] [] := by
  have hup := hsound.up
  rw [h.once, List.nil_append] at hup
  exact carries_of_heads hup (hsound.reads.heads hd)

end

/-- Whatever the network, the two ends and the two proxies do in a tunnel over QUIC, it is faithful
up to what earlier polls have left in front of the head and what the client has left of the
acknowledgement. Where no poll stops after a part of the head and the acknowledgement is read as a
whole, it is as faithful as one over HTTP/2. -/
theorem quic_relay_faithful (host : String) (acts : List QuicRelayAct) (s : QuicRelay)
    (hr : run QuicRelay.step (.start (ConnectHeadBuf.fromStr host)) acts = some s) :
    s.Faithful host ∧
    (AllSteps QuicRelay.step QuicRelay.Whole (.start (ConnectHeadBuf.fromStr host)) acts →
      (s.dialled = some host → s.up.Carries [] []) ∧ s.down.Carries [] []) := by
  have hhead : (ConnectHeadBuf.fromStr host).buf ≠ [] := by
    simp [ConnectHeadBuf.fromStr, ConnectHeadBuf.fromBytes, putU16]
  have hstart := QuicRelay.start_sound (ConnectHeadBuf.fromStr host)
  have hsound := run_preserves (QuicRelay.Sound _)
    (fun h hs => h.step hhead (QuicRelay.step_cases hs)) hstart hr
  refine ⟨hsound.faithful, ?_⟩
  intro hwhole
  have hclean : QuicRelay.Clean s := by
    have hfirst : QuicRelay.Clean (.start (ConnectHeadBuf.fromStr host)) :=
      ⟨rfl, .inr ⟨by simp [QuicRelay.start], rfl, rfl⟩⟩
    exact (run_invariant (fun u => u.Sound (ConnectHeadBuf.fromStr host).buf ∧ u.Clean)
      (fun h hw hs => ⟨h.1.step hhead (QuicRelay.step_cases hs),
        h.2.step h.1 hw (QuicRelay.step_cases hs)⟩) ⟨hstart, hfirst⟩ hwhole hr).2
  exact ⟨hclean.carries_up hsound, hclean.carries_down hsound⟩

/-- The head is written by one poll after one that was turned away, the server answers before it
reads, and the client leaves before the target has ended. -/
def quicVisit : List QuicRelayAct :=
  [.send [7], .pollWrite 0, .acknowledge 2, .pollWrite 4, .readChunk 2, .readLen 2, .readUrl 2,
    .dial true, .transferUp (.fill 1), .transferUp (.drain 1), .tunnelUp (.fill 1),
    .tunnelUp (.drain 1), .reply [1, 2], .tunnelDown (.fill 2), .tunnelDown (.drain 2),
    .transferDown (.fill 1), .transferDown (.drain 1), .leave]

theorem quicVisit_faithful : ∃ s,
    run QuicRelay.step (.start (ConnectHeadBuf.fromStr "ab")) quicVisit = some s ∧
      s.dialled = some "ab" ∧ s.up.sink.written = [7] ∧ s.down.sink.written = [1] ∧
      s.down.cut = true ∧ s.Faithful "ab" ∧ s.up.Carries [] [] ∧ s.down.Carries [] [] := by
  obtain ⟨hfaithful, hwhole⟩ := quic_relay_faithful "ab" quicVisit _ rfl
  obtain ⟨hup, hdown⟩ := hwhole (by decide)
  exact ⟨_, rfl, rfl, rfl, rfl, rfl, hfaithful, hup rfl, hdown⟩

end Octoproxy
