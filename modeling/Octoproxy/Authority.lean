import Octoproxy.Peer

namespace Octoproxy
set_option autoImplicit true

theorem rfind_eq_none_iff : rfind c xs = none ↔ c ∉ xs := by
  induction xs with
  | nil => simp [rfind]
  | cons x xs ih =>
    simp only [rfind]
    cases h : rfind c xs with
    | some i =>
      rw [h] at ih
      have hm : c ∈ xs := by
        by_contra hn
        cases ih.2 hn
      simp [hm]
    | none =>
      have hn := ih.1 h
      simp [hn, eq_comm]

theorem rfind_append (h : c ∉ ys) : rfind c (xs ++ c :: ys) = some xs.length := by
  induction xs with
  | nil => simp [rfind, rfind_eq_none_iff.2 h]
  | cons x xs ih => simp [rfind, ih]

theorem rfind_getElem? (h : rfind c xs = some i) : xs[i]? = some c := by
  induction xs generalizing i with
  | nil => cases h
  | cons x xs ih =>
    simp only [rfind] at h
    split at h
    · rename_i j hj
      cases h
      exact ih hj
    · split at h
      · rename_i hx
        cases h
        exact congrArg some hx
      · cases h

namespace PeerInfo

theorem host_of_nonDafault {p : PeerInfo} (h : p.portIndex = .nonDafault i) :
    p.host.toList[i]? = some ':' := by
  have hi := p.indexed.symm.trans h
  unfold HostPortIndex.new at hi
  split at hi
  · rename_i hr
    cases hi
    exact rfind_getElem? hr
  · cases hi

theorem getHostname_append {p : PeerInfo} (h : p.portIndex = .nonDafault i) :
    p.getHostname ++ ":" ++ p.getPortStr = p.host := by
  have hc := host_of_nonDafault h
  obtain ⟨hi, hc⟩ := List.getElem?_eq_some_iff.1 hc
  apply String.toList_inj.1
  simp only [getHostname, getPortStr, h, String.toList_append, String.toList_ofList]
  have hdrop : ':' :: p.host.toList.drop (i + 1) = p.host.toList.drop i := by
    rw [← hc]
    exact List.getElem_cons_drop hi
  rw [List.append_assoc]
  exact (congrArg _ hdrop).trans (List.take_append_drop i _)

theorem getValidHost_eq (p : PeerInfo) :
    p.getValidHost = .fromStr (p.getHostname ++ ":" ++ p.getPortStr) := by
  unfold getValidHost
  split
  · rename_i hi
    rw [getHostname_append hi]
  · rename_i hi
    rw [joinPort_eq]
    simp only [getHostname, hi]

end PeerInfo

structure Port where
  text : String
  nonempty : text ≠ ""
  digits : ∀ c ∈ text.toList, c.isDigit

/-- Names and IPv4 addresses have no colon. An IPv6 literal has some, and stands in brackets. -/
inductive AuthorityHost where
  | name (text : String) (plain : ':' ∉ text.toList)
  | ipv6 (literal : String) (colons : ':' ∈ literal.toList)

def AuthorityHost.text : AuthorityHost → String
  | .name text _ => text
  | .ipv6 literal _ => "[" ++ literal ++ "]"

structure Authority where
  host : AuthorityHost
  port : Option Port

namespace Authority

def text (a : Authority) : String :=
  match a.port with
  | some port => a.host.text ++ ":" ++ port.text
  | none => a.host.text

def portText (a : Authority) : String :=
  match a.port with
  | some port => port.text
  | none => "80"

def peer (a : Authority) (addr : SocketAddr) : PeerInfo := .new a.text addr

/-- The peer knows the host and the port of the authority. -/
def Splits (a : Authority) : Prop :=
  ∀ addr, (a.peer addr).getHostname = a.host.text ∧ (a.peer addr).getPortStr = a.portText ∧
    (a.peer addr).getValidHost = .fromStr (a.host.text ++ ":" ++ a.portText)

/-- Every ruler picks the rule that it picks for the same host with any port. -/
def KeepsRule (a : Authority) : Prop :=
  ∀ (r : HostRuler) (port : Port) (addr addr' : SocketAddr),
    (r.findRule (a.peer addr)).rule =
      (r.findRule (peer ⟨a.host, some port⟩ addr')).rule

def BareLiteral (a : Authority) : Prop :=
  match a.host with
  | .name _ _ => False
  | .ipv6 _ _ => a.port = none

end Authority

theorem Port.no_colon (port : Port) : ':' ∉ port.text.toList := by
  intro hc
  exact absurd (port.digits _ hc) (by decide)

namespace PeerInfo

theorem new_some (host : String) (h : ':' ∉ port.toList) (addr : SocketAddr) :
    (new (host ++ ":" ++ port) addr).portIndex = .nonDafault host.toList.length := by
  have hr : rfind ':' (host ++ ":" ++ port).toList = some host.toList.length := by
    simp only [String.toList_append, List.append_assoc]
    exact rfind_append h
  simp only [new, HostPortIndex.new, hr]

theorem new_none {host : String} (h : ':' ∉ host.toList) (addr : SocketAddr) :
    (new host addr).portIndex = .default := by
  simp only [new, HostPortIndex.new, rfind_eq_none_iff.2 h]

theorem getHostname_ne {host : String} (h : ':' ∈ host.toList) (addr : SocketAddr) :
    (new host addr).getHostname ≠ host := by
  intro he
  cases hi : (new host addr).portIndex with
  | default =>
    have hn : rfind ':' host.toList = none := by
      simp only [new, HostPortIndex.new] at hi
      split at hi
      · cases hi
      · assumption
    exact rfind_eq_none_iff.1 hn h
  | nonDafault i =>
    have happ : (new host addr).getHostname ++ ":" ++ (new host addr).getPortStr = host :=
      getHostname_append hi
    rw [he] at happ
    have hl := congrArg (fun s => s.toList.length) happ
    simp at hl

end PeerInfo

namespace Authority

theorem splits_of_port {a : Authority} {port : Port} (h : a.port = some port) : a.Splits := by
  intro addr
  have hi : (a.peer addr).portIndex = .nonDafault a.host.text.toList.length := by
    simp only [peer, text, h]
    exact PeerInfo.new_some _ port.no_colon addr
  have ht : (a.peer addr).host = a.host.text ++ ":" ++ port.text := by
    simp only [peer, text, h, PeerInfo.new]
  have hname : (a.peer addr).getHostname = a.host.text := by
    simp [PeerInfo.getHostname, hi, ht, List.append_assoc]
  have hport : (a.peer addr).getPortStr = a.portText := by
    simp [PeerInfo.getPortStr, hi, ht, portText, h, List.append_assoc]
  refine ⟨hname, hport, ?_⟩
  rw [PeerInfo.getValidHost_eq, hname, hport]

theorem splits_of_name {a : Authority} (hh : ':' ∉ a.host.text.toList) (h : a.port = none) :
    a.Splits := by
  intro addr
  have hi : (a.peer addr).portIndex = .default := by
    simp only [peer, text, h]
    exact PeerInfo.new_none hh addr
  have hname : (a.peer addr).getHostname = a.host.text := by
    simp only [PeerInfo.getHostname, hi]
    simp only [peer, text, h, PeerInfo.new]
  have hport : (a.peer addr).getPortStr = a.portText := by
    simp only [PeerInfo.getPortStr, hi, portText, h]
    rfl
  refine ⟨hname, hport, ?_⟩
  rw [PeerInfo.getValidHost_eq, hname, hport]

theorem not_splits {a : Authority} (hh : ':' ∈ a.host.text.toList) (h : a.port = none) :
    ¬ a.Splits := by
  intro hs
  obtain ⟨hname, _⟩ := hs ⟨.v4 0, 0⟩
  simp only [peer, text, h] at hname
  exact PeerInfo.getHostname_ne hh _ hname

theorem splits_iff (a : Authority) : a.Splits ↔ ¬ a.BareLiteral := by
  obtain ⟨host, port⟩ := a
  cases port with
  | some port =>
    refine ⟨fun _ => ?_, fun _ => splits_of_port rfl⟩
    cases host <;> exact nofun
  | none =>
    cases host with
    | name text plain => exact ⟨fun _ => nofun, fun _ => splits_of_name plain rfl⟩
    | ipv6 literal colons =>
      have hc : ':' ∈ (AuthorityHost.ipv6 literal colons).text.toList := by
        simp [AuthorityHost.text, colons]
      exact ⟨fun hs => absurd hs (not_splits hc rfl), fun hn => absurd rfl hn⟩

theorem findRule_congr (r : HostRuler) {host host' : String} (addr addr' : SocketAddr)
    (h : (PeerInfo.new host addr).getHostname = (PeerInfo.new host' addr').getHostname) :
    (r.findRule (.new host addr)).rule = (r.findRule (.new host' addr')).rule := by
  unfold HostRuler.findRule
  rw [if_neg nofun, if_neg nofun, h]
  cases r.sections.lookup (PeerInfo.new host' addr').getHostname <;> rfl

theorem Splits.keepsRule {a : Authority} (h : a.Splits) : a.KeepsRule := by
  intro r port addr addr'
  apply findRule_congr
  have hp : (⟨a.host, some port⟩ : Authority).Splits := splits_of_port rfl
  exact (h addr).1.trans (hp addr').1.symm

end Authority

/-- An authority is split, and its rule found, as its grammar says exactly when it is not an IPv6
literal without a port. -/
theorem authority_split_iff (a : Authority) : a.Splits ∧ a.KeepsRule ↔ ¬ a.BareLiteral := by
  rw [← a.splits_iff]
  exact ⟨And.left, fun h => ⟨h, h.keepsRule⟩⟩

theorem bare_literal_splits_inside :
    ¬ ∀ a : Authority, a.Splits ∧ a.KeepsRule := by
  intro h
  obtain ⟨hs, _⟩ := h ⟨.ipv6 "::1" (by decide), none⟩
  obtain ⟨hname, _⟩ := hs ⟨.v4 0, 0⟩
  exact absurd hname (by decide)

namespace Authority

/-- The address that a request for the authority is meant for. -/
def hostByRule (a : Authority) (rewrite : Option String) : String :=
  rewrite.getD a.host.text ++ ":" ++ a.portText

def ruled (a : Authority) (addr : SocketAddr) (rule : HostRules) : PeerInfo :=
  (a.peer addr).setRule rule

/-- The head of a peer under that rule: its prefix is the length of the rest, and the rest is the
address that is meant. -/
def Faithful (a : Authority) (addr : SocketAddr) (rule : HostRules) : Prop :=
  getU16 ((a.ruled addr rule).getHostByRule.buf.take 2) =
      ((a.ruled addr rule).getHostByRule.buf.drop 2).length ∧
    (a.ruled addr rule).getHostByRule.asStr = some (a.hostByRule (a.ruled addr rule).rewrite)

/-- A rewritten host with the port, or an authority that lacks one with the default port, is at most
65535 bytes long. -/
def Fits (a : Authority) : Option String → Prop
  | some host => (asBytes host).length + 1 + (asBytes a.portText).length ≤ 65535
  | none => a.port = none → (asBytes a.text).length + 3 ≤ 65535

end Authority

end Octoproxy
