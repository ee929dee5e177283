import Octoproxy.ConnectHead
import Octoproxy.Line
import Octoproxy.Transition

namespace Octoproxy
open Pipes Segments Transition
set_option autoImplicit true

inductive TunnelPc where
  | readingLen (got : Bytes)
  | readingUrl (len : Nat)
  | dialling (url : String)
  | copying

/-- A tunnel over HTTP/2 with both of its ends. `left` is what `new_stream` has still to write of
the head, `consumed` what `tunnel` has read as the head. -/
structure Relay where
  left : Bytes
  pc : TunnelPc
  consumed : Bytes
  dialled : Option String
  browserOut : Pipe UInt8
  streamUp : Pipe UInt8
  targetIn : Pipe UInt8
  targetOut : Pipe UInt8
  streamDown : Pipe UInt8
  browserIn : Pipe UInt8
  clientUp : Copier UInt8
  serverUp : Copier UInt8
  serverDown : Copier UInt8
  clientDown : Copier UInt8
  transferring : Bool
  tunnelling : Bool

/-- The browser and the target send and end; the client's `new_stream` and `transfer` and the
server's `tunnel` take a step, or end with an error. -/
inductive RelayAct where
  | send (xs : Bytes)
  | endSend
  | reply (xs : Bytes)
  | endReply
  | writeHead (n : Nat)
  | transferUp (a : CopyAct)
  | transferDown (a : CopyAct)
  | cancel
  | readLen (n : Nat)
  | readUrl (n : Nat)
  | dial (ok : Bool)
  | tunnelUp (a : CopyAct)
  | tunnelDown (a : CopyAct)
  | abort

namespace Relay

def start (head : ConnectHeadBuf) : Relay where
  left := head.buf
  pc := .readingLen []
  consumed := []
  dialled := none
  browserOut := .new
  streamUp := .new
  targetIn := .new
  targetOut := .new
  streamDown := .new
  browserIn := .new
  clientUp := .new
  serverUp := .new
  serverDown := .new
  clientDown := .new
  transferring := true
  tunnelling := true

def writeHead (s : Relay) (n : Nat) : Option Relay :=
  if s.transferring && (n != 0 && n ≤ s.left.length) then
    some { s with streamUp := s.streamUp.write (s.left.take n), left := s.left.drop n }
  else none

/-- `transfer` is called with the stream that `new_stream` returns. -/
def transferUp (s : Relay) (a : CopyAct) : Option Relay :=
  if s.transferring && s.left.isEmpty then
    (copy s.browserOut s.streamUp s.clientUp a).map fun (src, dst, c) =>
      { s with browserOut := src, streamUp := dst, clientUp := c }
  else none

def transferDown (s : Relay) (a : CopyAct) : Option Relay :=
  if s.transferring && s.left.isEmpty then
    (copy s.streamDown s.browserIn s.clientDown a).map fun (src, dst, c) =>
      { s with streamDown := src, browserIn := dst, clientDown := c }
  else none

/-- `read_u16` takes as many reads as it needs. -/
def readLen (s : Relay) (n : Nat) : Option Relay :=
  match s.pc with
  | .readingLen got =>
    if s.tunnelling && (n != 0 && got.length + n ≤ 2) then
      (s.streamUp.take n).map fun (xs, p) => { s with
        streamUp := p
        consumed := s.consumed ++ xs
        pc := if (got ++ xs).length = 2 then .readingUrl (getU16 (got ++ xs))
          else .readingLen (got ++ xs) }
    else none
  | _ => none

/-- The one `read_buf` for the address. Only at the end of the stream it reads nothing. -/
def readUrl (s : Relay) (n : Nat) : Option Relay :=
  match s.pc with
  | .readingUrl len =>
    if s.tunnelling && n ≤ spareCapacity len &&
        (n != 0 || s.streamUp.closed && s.streamUp.pending.isEmpty) then
      (s.streamUp.take n).map fun (xs, p) =>
        match fromUtf8 xs with
        | some url => { s with
            streamUp := p
            consumed := s.consumed ++ xs
            pc := .dialling url }
        | none => { s with tunnelling := false }
    else none
  | _ => none

def dial (s : Relay) (ok : Bool) : Option Relay :=
  match s.pc with
  | .dialling url =>
    if s.tunnelling && ok then some { s with dialled := some url, pc := .copying }
    else some { s with tunnelling := false }
  | _ => none

def tunnelUp (s : Relay) (a : CopyAct) : Option Relay :=
  match s.pc with
  | .copying =>
    if s.tunnelling then (copy s.streamUp s.targetIn s.serverUp a).map fun (src, dst, c) =>
      { s with streamUp := src, targetIn := dst, serverUp := c }
    else none
  | _ => none

def tunnelDown (s : Relay) (a : CopyAct) : Option Relay :=
  match s.pc with
  | .copying =>
    if s.tunnelling then (copy s.targetOut s.streamDown s.serverDown a).map fun (src, dst, c) =>
      { s with targetOut := src, streamDown := dst, serverDown := c }
    else none
  | _ => none

def step (s : Relay) : RelayAct → Option Relay
  | .send xs =>
    if s.browserOut.closed then none else some { s with browserOut := s.browserOut.write xs }
  | .endSend => some { s with browserOut := s.browserOut.shutdown }
  | .reply xs =>
    if s.dialled.isNone || s.targetOut.closed then none
    else some { s with targetOut := s.targetOut.write xs }
  | .endReply =>
    if s.dialled.isNone then none else some { s with targetOut := s.targetOut.shutdown }
  | .writeHead n => s.writeHead n
  | .transferUp a => s.transferUp a
  | .transferDown a => s.transferDown a
  | .cancel => some { s with transferring := false }
  | .readLen n => s.readLen n
  | .readUrl n => s.readUrl n
  | .dial ok => s.dial ok
  | .tunnelUp a => s.tunnelUp a
  | .tunnelDown a => s.tunnelDown a
  | .abort => some { s with tunnelling := false }

end Relay

/-- The target gets, in order and once, what follows the address that was dialled in the head and
what the browser has sent; the browser gets what the target has sent. A shutdown is passed on
only after everything before it. The address is what `tunnelHead` decodes from the stream in some
segmentation. -/
structure Relay.Faithful (host : String) (s : Relay) : Prop where
  silent : s.dialled = none → s.targetIn.written = [] ∧ s.browserIn.written = []
  up : ∀ url, s.dialled = some url → ∃ len : Bytes, len.length = 2 ∧
    len ++ (asBytes url ++ s.targetIn.written) <+:
      (ConnectHeadBuf.fromStr host).buf ++ s.browserOut.written ∧
    (s.targetIn.closed = true → s.browserOut.closed = true ∧
      len ++ (asBytes url ++ s.targetIn.written) =
        (ConnectHeadBuf.fromStr host).buf ++ s.browserOut.written)
  read : ∀ url, s.dialled = some url → asBytes url ≠ [] → ∃ inbound rest : Segmented UInt8,
    inbound.content = s.streamUp.written ∧ tunnelHead inbound = .ok (url, rest) ∧
      rest.content = s.targetIn.written ++ (s.serverUp.buf ++ s.streamUp.pending)
  same : s.dialled = some host → s.targetIn.written <+: s.browserOut.written ∧
    (s.targetIn.closed = true → s.targetIn.written = s.browserOut.written)
  down : s.browserIn.written <+: s.targetOut.written ∧
    (s.browserIn.closed = true → s.targetOut.closed = true ∧
      s.browserIn.written = s.targetOut.written)

def Heads (consumed : Bytes) (url : String) : Prop :=
  ∃ len : Bytes, len.length = 2 ∧ consumed = len ++ asBytes url ∧
    (asBytes url).length ≤ spareCapacity (getU16 len)

/-- What `tunnel` knows at each point of what it has read. -/
def TunnelPc.Reads (consumed : Bytes) (dialled : Option String) : TunnelPc → Prop
  | .readingLen got => consumed = got ∧ dialled = none
  | .readingUrl len => (consumed.length = 2 ∧ len = getU16 consumed) ∧ dialled = none
  | .dialling url => Heads consumed url ∧ dialled = none
  | .copying => ∃ url, dialled = some url ∧ Heads consumed url

theorem TunnelPc.Reads.dialled_ne (h : TunnelPc.copying.Reads consumed dialled) :
    dialled ≠ none := by
  obtain ⟨url, hd, _⟩ := h
  rw [hd]
  exact Option.some_ne_none url

theorem TunnelPc.Reads.heads {pc : TunnelPc} (h : pc.Reads consumed dialled)
    (hd : dialled = some url) : Heads consumed url := by
  cases pc with
  | copying =>
    obtain ⟨url', hd', hlen⟩ := h
    cases hd.symm.trans hd'
    exact hlen
  | _ => cases hd.symm.trans h.2

/-- The way from the browser to the target, with the head in front. -/
def Relay.up (s : Relay) : Line UInt8 :=
  ⟨s.browserOut, s.streamUp, s.targetIn, s.clientUp, s.serverUp, s.left, s.consumed, false⟩

def Relay.down (s : Relay) : Line UInt8 :=
  ⟨s.targetOut, s.streamDown, s.browserIn, s.serverDown, s.clientDown, [], [], false⟩

/-- Both directions are sound, and the server has read its head from the first. -/
structure Relay.Sound (head : Bytes) (s : Relay) : Prop where
  up : s.up.Sound head
  down : s.down.Sound []
  reads : s.pc.Reads s.consumed s.dialled
  silent : s.dialled = none →
    s.targetIn.written = [] ∧ s.serverUp = .new ∧ s.targetOut.written = []

section
variable {head : Bytes} {s s' : Relay}

theorem Relay.start_sound (head : ConnectHeadBuf) : (Relay.start head).Sound head.buf where
  up := Line.new_sound head.buf
  down := Line.new_sound []
  reads := ⟨rfl, rfl⟩
  silent := fun _ => ⟨rfl, rfl, rfl⟩

theorem Relay.Sound.writeHead (h : s.Sound head) (hs : s.writeHead n = some s') :
    s'.Sound head := by
  unfold Relay.writeHead at hs
  split at hs
  · rename_i hc
    cases hs
    have hn : n ≠ 0 ∧ n ≤ s.left.length := by
      have := (Bool.and_eq_true_iff.1 hc).2
      simpa using this
    have hleft : s.left ≠ [] := by
      intro hnil
      rw [hnil, List.length_nil] at hn
      omega
    exact { h with up := h.up.lead hleft n }
  · cases hs

theorem Relay.Sound.transferUp (h : s.Sound head) (hs : s.transferUp a = some s') :
    s'.Sound head := by
  unfold Relay.transferUp at hs
  split at hs
  · rename_i hc
    have hleft : s.left = [] := List.isEmpty_iff.1 (Bool.and_eq_true_iff.1 hc).2
    obtain ⟨⟨src, dst, c⟩, hcopy, rfl⟩ := Option.map_eq_some_iff.1 hs
    have hup : s.up.copyNear a = some _ := Line.copyNear_of_copy hcopy
    exact { h with up := h.up.copyNear hleft hup }
  · cases hs

theorem Relay.Sound.transferDown (h : s.Sound head) (hs : s.transferDown a = some s') :
    s'.Sound head := by
  unfold Relay.transferDown at hs
  split at hs
  · obtain ⟨⟨src, dst, c⟩, hcopy, rfl⟩ := Option.map_eq_some_iff.1 hs
    have hdown : s.down.copyFar a = some _ := Line.copyFar_of_copy hcopy
    exact { h with down := h.down.copyFar hdown }
  · cases hs

theorem Relay.Sound.consume (h : s.Sound head) (hd : s.dialled = none)
    (ht : s.streamUp.take n = some (xs, p)) {next : TunnelPc}
    (hnext : next.Reads (s.consumed ++ xs) none) :
    Relay.Sound head { s with streamUp := p, consumed := s.consumed ++ xs, pc := next } := by
  obtain ⟨hin, hup, _⟩ := h.silent hd
  have hline : s.up.consume n = some (xs, _) := Line.consume_of_take ht
  refine { h with
    up := h.up.consume hup hin hline
    reads := ?_ }
  dsimp only
  rw [hd]
  exact hnext

theorem Relay.Sound.readLen (h : s.Sound head) (hs : s.readLen n = some s') : s'.Sound head := by
  unfold Relay.readLen at hs
  split at hs
  · rename_i got hpc
    split at hs
    · obtain ⟨⟨xs, p⟩, ht, rfl⟩ := Option.map_eq_some_iff.1 hs
      have hreads := h.reads
      rw [hpc] at hreads
      obtain ⟨hgot, hd⟩ := hreads
      apply h.consume hd ht
      rw [hgot]
      split
      · rename_i hlen
        exact ⟨⟨hlen, rfl⟩, rfl⟩
      · exact ⟨rfl, rfl⟩
    · cases hs
  · cases hs

theorem Relay.Sound.readUrl (h : s.Sound head) (hs : s.readUrl n = some s') : s'.Sound head := by
  unfold Relay.readUrl at hs
  split at hs
  · rename_i len hpc
    split at hs
    · rename_i hc
      obtain ⟨⟨xs, p⟩, ht, rfl⟩ := Option.map_eq_some_iff.1 hs
      have hreads := h.reads
      rw [hpc] at hreads
      obtain ⟨⟨hlen, hnum⟩, hd⟩ := hreads
      have hroom : n ≤ spareCapacity len := by
        have := (Bool.and_eq_true_iff.1 (Bool.and_eq_true_iff.1 hc).1).2
        simpa using this
      dsimp only
      split
      · rename_i url hurl
        apply h.consume hd ht
        refine ⟨⟨s.consumed, hlen, ?_, ?_⟩, rfl⟩
        · rw [asBytes_of_fromUtf8 hurl]
        · obtain ⟨_, _, _, hn⟩ := Pipe.take_cases ht
          rw [asBytes_of_fromUtf8 hurl, hn, ← hnum]
          exact hroom
      · exact { h with }
    · cases hs
  · cases hs

theorem Relay.Sound.dial (h : s.Sound head) (hs : s.dial ok = some s') : s'.Sound head := by
  unfold Relay.dial at hs
  split at hs
  · rename_i url hpc
    split at hs
    · cases hs
      have hreads := h.reads
      rw [hpc] at hreads
      exact { h with
        reads := ⟨url, rfl, hreads.1⟩
        silent := nofun }
    · cases hs
      exact { h with }
  · cases hs

theorem Relay.Sound.dialled (h : s.Sound head) (hpc : s.pc = .copying) : s.dialled ≠ none := by
  have hreads := h.reads
  rw [hpc] at hreads
  exact hreads.dialled_ne

theorem Relay.Sound.tunnelUp (h : s.Sound head) (hs : s.tunnelUp a = some s') :
    s'.Sound head := by
  unfold Relay.tunnelUp at hs
  split at hs
  · rename_i hpc
    split at hs
    · obtain ⟨⟨src, dst, c⟩, hcopy, rfl⟩ := Option.map_eq_some_iff.1 hs
      have hup : s.up.copyFar a = some _ := Line.copyFar_of_copy hcopy
      exact { h with
        up := h.up.copyFar hup
        silent := fun hd => absurd hd (h.dialled hpc) }
    · cases hs
  · cases hs

theorem Relay.Sound.tunnelDown (h : s.Sound head) (hs : s.tunnelDown a = some s') :
    s'.Sound head := by
  unfold Relay.tunnelDown at hs
  split at hs
  · rename_i hpc
    split at hs
    · obtain ⟨⟨src, dst, c⟩, hcopy, rfl⟩ := Option.map_eq_some_iff.1 hs
      have hdown : s.down.copyNear a = some _ := Line.copyNear_of_copy hcopy
      exact { h with
        down := h.down.copyNear rfl hdown
        silent := fun hd => absurd hd (h.dialled hpc) }
    · cases hs
  · cases hs

theorem Relay.Sound.step (h : s.Sound head) (hs : s.step a = some s') : s'.Sound head := by
  cases a with
  | send xs =>
    simp only [Relay.step] at hs
    split at hs
    · cases hs
    · rename_i hcl
      cases hs
      exact { h with up := h.up.send (Bool.eq_false_iff.2 hcl) xs }
  | endSend =>
    cases hs
    exact { h with up := h.up.endSend }
  | reply xs =>
    simp only [Relay.step] at hs
    split at hs
    · cases hs
    · rename_i hc
      cases hs
      have hopen : s.dialled ≠ none ∧ s.targetOut.closed = false := by simpa using hc
      exact { h with
        down := h.down.send hopen.2 xs
        silent := fun hd => absurd hd hopen.1 }
  | endReply =>
    simp only [Relay.step] at hs
    split at hs
    · cases hs
    · cases hs
      exact { h with down := h.down.endSend }
  | writeHead n => exact h.writeHead hs
  | transferUp a => exact h.transferUp hs
  | transferDown a => exact h.transferDown hs
  | cancel =>
    cases hs
    exact { h with }
  | readLen n => exact h.readLen hs
  | readUrl n => exact h.readUrl hs
  | dial ok => exact h.dial hs
  | tunnelUp a => exact h.tunnelUp hs
  | tunnelDown a => exact h.tunnelDown hs
  | abort =>
    cases hs
    exact { h with }

theorem tunnelHead_pieces {len : Bytes} (hlen : len.length = 2) {url : String}
    (hcap : (asBytes url).length ≤ spareCapacity (getU16 len)) {ps : List Bytes}
    (hne : ∀ p ∈ len :: asBytes url :: ps, p ≠ []) (hps : ∀ p ∈ ps, p ≠ []) :
    tunnelHead ⟨len :: asBytes url :: ps, hne⟩ = .ok (url, ⟨ps, hps⟩) := by
  have hbody : ∀ p ∈ asBytes url :: ps, p ≠ [] := fun p hp => hne p (List.mem_cons_of_mem _ hp)
  have hexact : Segmented.readExact 2 ⟨len :: asBytes url :: ps, hne⟩ =
      some (len, ⟨asBytes url :: ps, hbody⟩) := by
    apply Segmented.readExact_eq.2
    simp only [takeExact, hlen, Nat.lt_irrefl, if_false, Nat.sub_self, Option.map_some,
      List.append_nil]
  have hsome : Segmented.readSome (spareCapacity (getU16 len)) ⟨asBytes url :: ps, hbody⟩ =
      (asBytes url, ⟨ps, hps⟩) := by
    simp only [Segmented.readSome, takeSome, if_neg (Nat.not_lt.2 hcap)]
  simp only [tunnelHead, hexact, hsome, fromUtf8_asBytes]

/-- The address is what `tunnelHead` decodes from the stream in some segmentation. -/
theorem tunnelHead_of_heads {l : Line UInt8} (h : l.Sound head) (hheads : Heads l.consumed url)
    (hurl : asBytes url ≠ []) : ∃ inbound rest : Segmented UInt8,
      inbound.content = l.stream.written ∧ tunnelHead inbound = .ok (url, rest) ∧
        rest.content = l.sink.written ++ (l.far.buf ++ l.stream.pending) := by
  obtain ⟨len, hlen, hcons, hcap⟩ := hheads
  have hwritten : l.stream.written = len ++ (asBytes url ++
      (l.sink.written ++ (l.far.buf ++ l.stream.pending))) := by
    rw [← l.stream.received_append_pending, h.second, hcons]
    simp only [List.append_assoc]
  generalize l.sink.written ++ (l.far.buf ++ l.stream.pending) = rest at hwritten ⊢
  -- everything after the address is one piece, unless there is nothing
  have hps : ∃ ps : List Bytes, ps.flatten = rest ∧ ∀ p ∈ ps, p ≠ [] := by
    cases rest with
    | nil => exact ⟨[], rfl, fun _ hp => absurd hp List.not_mem_nil⟩
    | cons x xs =>
      refine ⟨[x :: xs], List.flatten_singleton, ?_⟩
      intro p hp
      rw [List.mem_singleton.1 hp]
      exact List.cons_ne_nil x xs
  obtain ⟨ps, hflat, hps⟩ := hps
  have hlen' : len ≠ [] := by
    intro hnil
    rw [hnil] at hlen
    cases hlen
  have hne : ∀ p ∈ len :: asBytes url :: ps, p ≠ [] :=
    List.forall_mem_cons.2 ⟨hlen', List.forall_mem_cons.2 ⟨hurl, hps⟩⟩
  refine ⟨⟨_, hne⟩, ⟨ps, hps⟩, ?_, tunnelHead_pieces hlen hcap hne hps, hflat⟩
  rw [hwritten, ← hflat]
  rfl

/-- What follows the address comes from the browser if that is the host of the head. -/
theorem carries_of_heads {l : Line UInt8} (h : l.Sound (ConnectHeadBuf.fromStr host).buf)
    (hheads : Heads l.consumed host) : l.Carries [] [] := by
  obtain ⟨len, hlen, hcons, _⟩ := hheads
  have hc := h.carries
  rw [hcons, ConnectHeadBuf.fromStr, ConnectHeadBuf.fromBytes] at hc
  obtain rfl : len = putU16 ((asBytes host).length % 65536) := by
    obtain ⟨left, hl⟩ := hc.1
    rw [List.append_assoc, List.append_assoc, List.append_assoc] at hl
    exact (List.append_inj hl (by rw [hlen, putU16_length])).1
  rw [← List.append_nil (putU16 _ ++ asBytes host)] at hc
  exact hc.cancel _

theorem Relay.Sound.faithful (h : s.Sound (ConnectHeadBuf.fromStr host).buf) :
    s.Faithful host := by
  have hup := h.up.carries
  have hdown := h.down.carries
  refine ⟨?_, ?_, fun url hd hurl => tunnelHead_of_heads h.up (h.reads.heads hd) hurl, ?_, ?_⟩
  · intro hd
    obtain ⟨hin, _, hout⟩ := h.silent hd
    have hp : s.browserIn.written <+: s.targetOut.written := hdown.1
    rw [hout] at hp
    exact ⟨hin, List.prefix_nil.1 hp⟩
  · intro url hd
    obtain ⟨len, hlen, hcons, _⟩ := h.reads.heads hd
    have hassoc : len ++ (asBytes url ++ s.targetIn.written) =
        s.consumed ++ s.targetIn.written := by
      rw [hcons, List.append_assoc]
    refine ⟨len, hlen, ?_⟩
    rw [hassoc]
    exact ⟨hup.1, hup.2 rfl⟩
  · intro hd
    obtain ⟨hp, hend⟩ := carries_of_heads h.up (h.reads.heads hd)
    exact ⟨hp, fun hc => (hend rfl hc).2⟩
  · exact ⟨hdown.1, hdown.2 rfl⟩

end

end Octoproxy
