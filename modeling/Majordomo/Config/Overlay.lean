import Majordomo.Config.Environment
import Majordomo.Toml.Document

/-! # Settings from a document

A document changes the settings that it mentions and leaves the others. Keys that
mean nothing here are ignored; a value of the wrong kind spoils the document.
-/
namespace Majordomo.Config

open Toml (Value Members)

inductive Section
  | named (members : Members)
  /-- All settings in a fixed order. -/
  | ordered (items : List Value)

namespace Section

/-- Reads a value as the settings of one part. A date holds none of them. -/
def ofValue? : Value → Option Section
  | .table _ members => some (.named members)
  | .moment => some (.named [])
  | .array items | .tables items => some (.ordered items)
  | _ => none

/-- Reads a setting with `read`: the one called `name`, or the one at `index` if they are in
order. One that is not mentioned keeps the value `old`. -/
def setting {α : Type} (read : Value → Option α) (index : Nat) (name : String) (old : α) :
    Section → Option α
  | named members =>
    match members.get? name with
    | some v => read v
    | none => some old
  | ordered items => items[index]?.bind read

end Section

def text? : Value → Option String
  | .text s => some s
  | _ => none

def uint64? : Value → Option UInt64
  | .integer n => if 0 ≤ n ∧ n < UInt64.size then some (.ofNat n.toNat) else none
  | _ => none

def uint32? : Value → Option UInt32
  | .integer n => if 0 ≤ n ∧ n < UInt32.size then some (.ofNat n.toNat) else none
  | _ => none

def Broker.overlay (base : Broker) (s : Section) : Option Broker := do
  return { address := ← s.setting text? 0 "bind_address" base.address
           heartbeatInterval :=
             ← s.setting uint64? 1 "heartbeat_interval_ms" base.heartbeatInterval
           heartbeatLiveness := ← s.setting uint32? 2 "heartbeat_liveness" base.heartbeatLiveness
           inboundCapacity := ← s.setting uint64? 3 "inbound_capacity" base.inboundCapacity
           peerCapacity := ← s.setting uint64? 4 "peer_capacity" base.peerCapacity }

def Client.overlay (base : Client) (s : Section) : Option Client := do
  return { server := ← s.setting text? 0 "server_address" base.server
           address := ← s.setting text? 1 "client_address" base.address
           manager := ← s.setting text? 2 "session_manager_service" base.manager
           handshakeTimeout := ← s.setting uint64? 3 "handshake_timeout_ms" base.handshakeTimeout
           threshold := ← s.setting uint64? 4 "backpressure_threshold" base.threshold
           queueCapacity := ← s.setting uint64? 5 "queue_capacity" base.queueCapacity }

def Worker.overlay (base : Worker) (s : Section) : Option Worker := do
  return { broker := ← s.setting text? 0 "broker_address" base.broker
           heartbeatInterval :=
             ← s.setting uint64? 1 "heartbeat_interval_ms" base.heartbeatInterval
           heartbeatLiveness := ← s.setting uint32? 2 "heartbeat_liveness" base.heartbeatLiveness
           reconnectDelay := ← s.setting uint64? 3 "reconnect_delay_ms" base.reconnectDelay }

def policyNamed? : String → Option Policy
  | "log" => some .log
  | "shutdown" => some .shutdown
  | _ => none

/-- Reads a policy: its name, or a table with nothing under its name. -/
def policy? : Value → Option Policy
  | .text name => policyNamed? name
  | .table _ [(name, v)] =>
    match v with
    | .table _ [] | .array [] => policyNamed? name
    | _ => none
  | _ => none

/-- Changes one part with `f` if the document mentions it. -/
def part {α : Type} (document : Members) (name : String) (f : α → Section → Option α) (base : α) :
    Option α :=
  match document.get? name with
  | none => some base
  | some v => (Section.ofValue? v).bind (f base)

def overlay (base : Config) (document : Members) : Option Config := do
  let policy ← match document.get? "error_policy" with
    | some v => policy? v
    | none => some base.policy
  return { broker := ← part document "broker" Broker.overlay base.broker
           client := ← part document "client" Client.overlay base.client
           worker := ← part document "worker" Worker.overlay base.worker
           policy }

/-- The settings of a document over those of the environment. -/
def ofToml? (env : Environment) (text : String) : Option Config :=
  (Toml.Document.ofText? text).bind (overlay (ofEnvironment env))

/-! ## Files -/

/-- What is stored under a path. -/
inductive Stored
  | nothing
  /-- Something that cannot be read as a file. -/
  | unreadable
  | file (bytes : List UInt8)
deriving DecidableEq, Inhabited

/-- The settings at hand: those of the file that the environment names, or of the usual one. A
file that is missing, unreadable or no document changes nothing. -/
def load (env : Environment) (disk : String → Stored) : Config :=
  match disk ((env.text? "MUF_CONFIG").getD "muf.toml") with
  | .file bytes =>
    ((Text.Utf8.decode? bytes).bind (ofToml? env)).getD (ofEnvironment env)
  | _ => ofEnvironment env

end Majordomo.Config
