import Mathlib.Logic.Function.Basic
import Octoproxy.Config
import Octoproxy.Tasks

namespace Octoproxy
open TaskPool Transition
set_option autoImplicit true

inductive IncomingConnection where
  | connectMethod
  | nonConnectMethod

/-- What a connection does that others can see. `forward` hands a plain request back to the
proxy's own listener. -/
inductive Event where
  | chose (read : Nat → BackendStatus) (answer : AvailableBackend)
  | attempt (backend : Nat) (head : ConnectHeadBuf)
  | mark (backend : Nat)
  | spawnRetry (backend : Nat)
  | dial (host : String)
  | forward

inductive ConnectionPc where
  | starting (inbound : IncomingConnection)
  | select
  | on (backend : Nat) (pc : HandlePc)
  | dialling
  | copying
  | finished

/-- One connection, with what it shares with the other tasks and a log of what it has done. -/
structure Connection (K : Type) where
  peer : PeerInfo
  pc : ConnectionPc
  backends : Nat → Backend K
  balancer : Balancer
  log : List Event

/-- What a step of a connection meets: the statuses that a selection reads, which others may
change while it reads, the balancer's inputs, the lock, and how an attempt ends. -/
structure Findings (C : Type) where
  read : Nat → BackendStatus
  roll : Nat
  cost : ConfigBackend → C
  readable : Bool
  outcome : Outcome

/-- A step of the connection, or anything that the other tasks do to what they share. -/
inductive ConnectionAct (K C : Type) where
  | others (backends : Nat → Backend K) (balancer : Balancer)
  | run (f : Findings C)

def PeerInfo.isNamed (p : PeerInfo) : Bool :=
  match p.getBackendNameByRule with
  | .gotBackend _ => true
  | _ => false

def AvailableBackend.next : AvailableBackend → ConnectionPc
  | .gotBackend b => .on b .selected
  | .block => .finished
  | .noBackend => .finished
  | .direct => .dialling

/-- Back in the loop of `handle_connection` after a step on backend `b`. -/
def Task.resume (b : Nat) : Task → ConnectionPc
  | .handleConnection _ .select => .select
  | .handleConnection _ pc => .on b pc
  | _ => .finished

namespace Connection

def start (inbound : IncomingConnection) (peer : PeerInfo) (backends : Nat → Backend K)
    (balancer : Balancer) : Connection K := ⟨peer, .starting inbound, backends, balancer, []⟩

def enter (cfg : Config) (s : Connection K) : IncomingConnection → Connection K
  | .connectMethod => { s with peer := cfg.findRuleForPeer s.peer, pc := .select }
  | .nonConnectMethod => { s with
      peer := cfg.findRuleForPeer s.peer
      pc := .finished
      log := s.log ++ [.forward] }

def choose [LE C] [DecidableLE C] (cfg : Config) (s : Connection K) (f : Findings C) :
    Connection K :=
  match cfg.nextAvailableBackend s.balancer ⟨s.peer, f.read, f.roll, f.cost⟩ with
  | .error _ => { s with pc := .finished }
  | .ok (answer, balancer) => { s with
      pc := answer.next
      balancer := balancer
      log := s.log ++ [.chose f.read answer] }

def events (s : Connection K) (b : Nat) : HandlePc → List Event
  | .selected => [.attempt b s.peer.getHostByRule]
  | .failed => [.mark b]
  | .marked => [.spawnRetry b]
  | _ => []

def proceed (s : Connection K) (b : Nat) (pc : HandlePc) (m : Move (Backend K) Task) :
    Connection K :=
  { s with
    pc := m.task.resume b
    backends := Function.update s.backends b m.state
    log := s.log ++ s.events b pc }

def directConnection (s : Connection K) : Connection K :=
  match s.peer.getHostByRule.asStr with
  | none => { s with pc := .finished }
  | some host => { s with pc := .copying, log := s.log ++ [.dial host] }

/-- `handle_connection`, one step at a time. On a backend it takes the steps of the backend's
own tasks. -/
def step [LE C] [DecidableLE C] (cfg : Config) (s : Connection K) :
    ConnectionAct K C → Option (Connection K)
  | .others backends balancer => some { s with backends := backends, balancer := balancer }
  | .run f =>
    match s.pc with
    | .starting inbound => some (s.enter cfg inbound)
    | .select => some (s.choose cfg f)
    | .on b pc =>
      ((s.backends b).handleConnection f.readable s.peer.isNamed pc f.outcome).map (s.proceed b pc)
    | .dialling => some s.directConnection
    | .copying => some { s with pc := .finished }
    | .finished => none

end Connection

end Octoproxy
