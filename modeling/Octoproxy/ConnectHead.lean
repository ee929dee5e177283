import Mathlib.Data.List.Basic
import Octoproxy.Segments

namespace Octoproxy
open Segments
set_option autoImplicit true

abbrev Bytes := List UInt8

def asBytes (s : String) : Bytes := s.toByteArray.data.toList

def fromUtf8 (b : Bytes) : Option String := String.fromUTF8? b.toByteArray

@[simp] theorem fromUtf8_asBytes (s : String) : fromUtf8 (asBytes s) = some s := by
  have hb : (asBytes s).toByteArray = s.toByteArray := by
    apply ByteArray.ext
    rw [List.data_toByteArray, asBytes, Array.toArray_toList]
  unfold fromUtf8 String.fromUTF8?
  rw [hb, dif_pos s.isValidUTF8]
  rfl

theorem asBytes_append (s t : String) : asBytes (s ++ t) = asBytes s ++ asBytes t := by
  simp [asBytes]

theorem asBytes_of_fromUtf8 (h : fromUtf8 b = some s) : asBytes s = b := by
  unfold fromUtf8 String.fromUTF8? at h
  split at h
  · cases h
    simp [asBytes, String.fromUTF8]
  · cases h

def putU16 (n : Nat) : Bytes := [UInt8.ofNat (n / 256), UInt8.ofNat n]

def getU16 : Bytes → Nat
  | [hi, lo] => hi.toNat * 256 + lo.toNat
  | _ => 0

@[simp] theorem putU16_length (n : Nat) : (putU16 n).length = 2 := rfl

theorem getU16_putU16 (hn : n < 65536) : getU16 (putU16 n) = n := by
  simp only [putU16, getU16, UInt8.toNat_ofNat']
  omega

/-- The head of a tunnelled stream: the address to dial, behind its length. -/
structure ConnectHeadBuf where
  buf : Bytes
deriving DecidableEq

def ConnectHeadBuf.fromBytes (hostBuf : Bytes) : ConnectHeadBuf :=
  -- `as u16` drops the high bits of the length
  ⟨putU16 (hostBuf.length % 65536) ++ hostBuf⟩

def ConnectHeadBuf.fromStr (host : String) : ConnectHeadBuf :=
  .fromBytes (asBytes host)

/-- `ConnectHeadBuf::as_str`; `none` is the panic of its `unwrap`. -/
def ConnectHeadBuf.asStr (h : ConnectHeadBuf) : Option String := fromUtf8 (h.buf.drop 2)

inductive TunnelError where
  | unexpectedEof
  | utf8
  | connect
deriving DecidableEq

/-- Room in a `BytesMut::with_capacity(n)`. A full buffer grows by 64 bytes when it is asked
for room, which for a new one happens only at capacity zero. -/
def spareCapacity (n : Nat) : Nat := if n = 0 then 64 else n

/-- The part of `tunnel` up to the dial: the address it dials and the stream it then copies. -/
def tunnelHead (inbound : Segmented UInt8) : Except TunnelError (String × Segmented UInt8) :=
  match inbound.readExact 2 with
  | none => .error .unexpectedEof
  | some (len, inbound) =>
    let urlLen := getU16 len
    let (buf, inbound) := inbound.readSome (spareCapacity urlLen)
    match fromUtf8 buf with
    | none => .error .utf8
    | some url => .ok (url, inbound)

def tunnel (connect : String → Bool) (inbound : Segmented UInt8) :
    Except TunnelError (String × Bytes) := do
  let (url, inbound) ← tunnelHead inbound
  if connect url then .ok (url, inbound.content) else .error .connect

/-- Whenever `host` can be dialled at all, it is what `tunnel` dials, and it forwards `p`. -/
def DecodesTo (inbound : Segmented UInt8) (host : String) (p : Bytes) : Prop :=
  ∀ connect : String → Bool, connect host = true → tunnel connect inbound = .ok (host, p)

theorem decodesTo_iff (inbound : Segmented UInt8) (host : String) (p : Bytes) :
    DecodesTo inbound host p ↔
      ∃ rest, tunnelHead inbound = .ok (host, rest) ∧ rest.content = p := by
  constructor
  · intro h
    have ht := h (fun _ => true) rfl
    unfold tunnel at ht
    cases hh : tunnelHead inbound with
    | error e =>
      rw [hh] at ht
      cases ht
    | ok r =>
      rw [hh] at ht
      cases ht
      exact ⟨r.2, rfl, rfl⟩
  · rintro ⟨rest, hh, rfl⟩ connect hc
    unfold tunnel
    rw [hh]
    exact if_pos hc

theorem tunnelHead_head (inbound : Segmented UInt8) (host : String) (p : Bytes)
    (hpos : 1 ≤ (asBytes host).length) (hlen : (asBytes host).length ≤ 65535)
    (hin : inbound.content = (ConnectHeadBuf.fromStr host).buf ++ p) :
    ∃ body : Segmented UInt8, body.content = asBytes host ++ p ∧
      (∀ c, 0 < c → (c ∈ body.cuts ↔ 2 + c ∈ inbound.cuts)) ∧
      tunnelHead inbound = match fromUtf8 (body.readSome (asBytes host).length).1 with
        | none => .error .utf8
        | some url => .ok (url, (body.readSome (asBytes host).length).2) := by
  have hbuf : inbound.content = putU16 (asBytes host).length ++ (asBytes host ++ p) := by
    rw [hin, ConnectHeadBuf.fromStr, ConnectHeadBuf.fromBytes, Nat.mod_eq_of_lt (by omega),
      List.append_assoc]
  obtain ⟨len, body, hr⟩ := inbound.readExact_isSome (n := 2) (by simp [hbuf])
  obtain ⟨hl, hc⟩ := Segmented.readExact_content hr
  obtain ⟨rfl, hbody⟩ := List.append_inj (hc.trans hbuf) (by simp [hl])
  refine ⟨body, hbody, fun c hc => Segmented.readExact_cuts hr hc, ?_⟩
  have hn : getU16 (putU16 (asBytes host).length) = (asBytes host).length :=
    getU16_putU16 (by omega)
  have hcap : spareCapacity (asBytes host).length = (asBytes host).length :=
    if_neg (by omega)
  simp only [tunnelHead, hr, hn, hcap]

/-- The head is decoded as it was sent exactly when the transport never breaks the stream
inside the address. -/
theorem tunnel_decodes_iff (inbound : Segmented UInt8) (host : String) (p : Bytes)
    (hpos : 1 ≤ (asBytes host).length) (hlen : (asBytes host).length ≤ 65535)
    (hin : inbound.content = (ConnectHeadBuf.fromStr host).buf ++ p) :
    DecodesTo inbound host p ↔
      ∀ c ∈ inbound.cuts, ¬ (2 < c ∧ c < 2 + (asBytes host).length) := by
  obtain ⟨body, hbody, hcuts, ht⟩ := tunnelHead_head inbound host p hpos hlen hin
  have hfull := body.readSome_full_iff (n := (asBytes host).length) (by simp [hbody])
  have happ := body.readSome_content (asBytes host).length
  rw [hbody] at happ
  have hmove : (∀ c ∈ body.cuts, ¬ c < (asBytes host).length) ↔
      ∀ c ∈ inbound.cuts, ¬ (2 < c ∧ c < 2 + (asBytes host).length) := by
    constructor
    · rintro h c hc ⟨hlo, hhi⟩
      refine h (c - 2) ((hcuts _ (by omega)).2 ?_) (by omega)
      rwa [Nat.add_sub_cancel' (by omega)]
    · intro h c hc hlt
      have hp := body.cuts_pos c hc
      exact h (2 + c) ((hcuts c hp).1 hc) ⟨by omega, by omega⟩
  rw [← hmove, ← hfull, decodesTo_iff]
  constructor
  · rintro ⟨rest, hok, hrest⟩
    rw [ht] at hok
    split at hok
    · cases hok
    · rename_i url hu
      cases hok
      rw [← asBytes_of_fromUtf8 hu]
  · intro hl
    obtain ⟨ha, hr⟩ := List.append_inj happ hl
    refine ⟨_, ?_, hr⟩
    rw [ht, ha, fromUtf8_asBytes]

def splitHost : Segmented UInt8 := ⟨[[0, 2, 97], [98]], by decide⟩

/-- Two reads inside the address `ab` make the server dial `a` and forward the `b`. -/
theorem tunnel_truncates_split_host :
    ¬ ∀ (inbound : Segmented UInt8) (host : String) (p : Bytes),
      1 ≤ (asBytes host).length → (asBytes host).length ≤ 65535 →
      inbound.content = (ConnectHeadBuf.fromStr host).buf ++ p → DecodesTo inbound host p := by
  intro h
  have hd : tunnel (fun _ => true) splitHost = .ok ("a", [98]) := rfl
  have hok := h splitHost "ab" [] (by decide) (by decide) rfl (fun _ => true) rfl
  rw [hd] at hok
  simp at hok

/-- The stream breaks inside the length, before the address and behind it. -/
theorem tunnel_decodes_harmless_cuts :
    DecodesTo ⟨[[0], [2], [97, 98], [7, 8]], by decide⟩ "ab" [7, 8] :=
  (tunnel_decodes_iff _ "ab" [7, 8] (by decide) (by decide) rfl).2 (by decide)

end Octoproxy
