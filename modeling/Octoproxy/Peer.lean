import Octoproxy.ConnectHead
import Octoproxy.Metric

namespace Octoproxy
set_option autoImplicit true

/-- The position of the last `c`. Positions count characters where the source counts bytes;
they are only used to cut the text at a colon. -/
def rfind (c : Char) : List Char → Option Nat
  | [] => none
  | x :: xs =>
    match rfind c xs with
    | some i => some (i + 1)
    | none => if x = c then some 0 else none

inductive HostPortIndex where
  | default
  | nonDafault (i : Nat)
deriving DecidableEq

def HostPortIndex.defaultPort : String := "80"

def HostPortIndex.new (host : String) : HostPortIndex :=
  match rfind ':' host.toList with
  | some i => .nonDafault i
  | none => .default

structure HostRuleSection where
  rewrite : Option String
  backend : Option String
  direct : Bool
deriving DecidableEq

inductive HostRules where
  | unknown
  | noRule
  | gotRule (sec : HostRuleSection)
deriving DecidableEq

inductive PeerBackendRule where
  | noRule
  | direct
  | gotBackend (name : String)
deriving DecidableEq

/-- A client and the host it asks for. The port index is the one of that host. -/
structure PeerInfo where
  host : String
  addr : SocketAddr
  portIndex : HostPortIndex
  rule : HostRules
  indexed : portIndex = HostPortIndex.new host

namespace PeerInfo

def new (host : String) (addr : SocketAddr) : PeerInfo :=
  ⟨host, addr, .new host, .unknown, rfl⟩

def getHostname (p : PeerInfo) : String :=
  match p.portIndex with
  | .nonDafault i => String.ofList (p.host.toList.take i)
  | .default => p.host

def getPortStr (p : PeerInfo) : String :=
  match p.portIndex with
  | .nonDafault i => String.ofList (p.host.toList.drop (i + 1))
  | .default => HostPortIndex.defaultPort

/-- The bytes of `host:port`, as `get_valid_host` and `get_host_by_rule` put them together. -/
def joinPort (p : PeerInfo) (host : String) : Bytes :=
  asBytes host ++ [':'.toUInt8] ++ asBytes p.getPortStr

def getValidHost (p : PeerInfo) : ConnectHeadBuf :=
  match p.portIndex with
  | .nonDafault _ => .fromStr p.host
  | .default => .fromBytes (p.joinPort p.host)

def setRule (p : PeerInfo) (rule : HostRules) : PeerInfo := { p with rule := rule }

def getHostByRule (p : PeerInfo) : ConnectHeadBuf :=
  match p.rule with
  | .gotRule ⟨some host, _, _⟩ => .fromBytes (p.joinPort host)
  | _ => p.getValidHost

def getBackendNameByRule (p : PeerInfo) : PeerBackendRule :=
  match p.rule with
  | .unknown | .noRule => .noRule
  | .gotRule sec =>
    if sec.direct then .direct
    else match sec.backend with
      | some name => .gotBackend name
      | none => .noRule

end PeerInfo

def PeerInfo.rewrite (p : PeerInfo) : Option String :=
  match p.rule with
  | .gotRule sec => sec.rewrite
  | _ => none

/-- The address a connection is meant for: the rewritten host with the peer's port, or else the
host that the peer has asked for. -/
def PeerInfo.target (p : PeerInfo) : ConnectHeadBuf :=
  match p.rewrite with
  | some host => .fromStr (host ++ ":" ++ p.getPortStr)
  | none => p.getValidHost

theorem PeerInfo.joinPort_eq (p : PeerInfo) (host : String) :
    .fromBytes (p.joinPort host) = ConnectHeadBuf.fromStr (host ++ ":" ++ p.getPortStr) := by
  simp only [ConnectHeadBuf.fromStr, asBytes_append, PeerInfo.joinPort]
  rfl

theorem PeerInfo.getHostByRule_target (p : PeerInfo) : p.getHostByRule = p.target := by
  unfold PeerInfo.getHostByRule PeerInfo.target PeerInfo.rewrite
  split
  · rename_i host _ _ hr
    rw [hr]
    exact p.joinPort_eq host
  · rename_i hr
    cases hrule : p.rule with
    | gotRule sec =>
      obtain ⟨rewrite, backend, direct⟩ := sec
      cases rewrite with
      | none => rfl
      | some host => exact absurd hrule (hr host backend direct)
    | _ => rfl

/-- The sections of a host rule file, one per host. -/
structure HostRuler where
  sections : List (String × HostRuleSection)
  nodup : (sections.map Prod.fst).Nodup

def HostRuleSection.isEmpty (sec : HostRuleSection) : Bool :=
  sec.rewrite.isNone && sec.backend.isNone && !sec.direct

/-- `HostRuler::new` after parsing: sections that say nothing are dropped, and a file of only
such sections gives no ruler. -/
def HostRuler.new (parsed : HostRuler) : Option HostRuler :=
  let sections := parsed.sections.filter fun s => !s.2.isEmpty
  if sections.isEmpty then none
  else some ⟨sections, (List.filter_sublist.map Prod.fst).nodup parsed.nodup⟩

def HostRuler.findRule (r : HostRuler) (p : PeerInfo) : PeerInfo :=
  if p.rule = .noRule then p
  else match r.sections.lookup p.getHostname with
    | some sec => p.setRule (.gotRule sec)
    | none => p.setRule .noRule

end Octoproxy
