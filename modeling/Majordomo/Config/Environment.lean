import Majordomo.Config.Settings
import Majordomo.Text.Decimal

/-! # Settings from the environment

A variable counts if it holds a text, is not empty, and reads as the kind of value
that is asked for. Every setting has a default.
-/
namespace Majordomo

abbrev Environment := List (String × List UInt8)

namespace Environment

def text? (name : String) (env : Environment) : Option String :=
  (env.lookup name).bind Text.Utf8.decode?

def textOr (name default : String) (env : Environment) : String :=
  ((env.text? name).filter (· ≠ "")).getD default

/-- A number of at most `bits` bits from the variable. -/
def nat? (bits : Nat) (name : String) (env : Environment) : Option Nat :=
  (env.text? name).bind (Text.Decimal.unsigned? bits)

def uint64Or (name : String) (default : UInt64) (env : Environment) : UInt64 :=
  ((env.nat? 64 name).map UInt64.ofNat).getD default

def uint32Or (name : String) (default : UInt32) (env : Environment) : UInt32 :=
  ((env.nat? 32 name).map UInt32.ofNat).getD default

def policyOr (name : String) (default : Policy) (env : Environment) : Policy :=
  match (env.text? name).map Policy.ofText with
  | some (.ok p) => p
  | _ => default

/-- Where the broker is reached, if nothing else is said. -/
def server (env : Environment) : String := env.textOr "MUF_SERVER_ADDRESS" "127.0.0.1:5555"

def heartbeatInterval (env : Environment) : UInt64 := env.uint64Or "MUF_HEARTBEAT_INTERVAL_MS" 2500
def heartbeatLiveness (env : Environment) : UInt32 := env.uint32Or "MUF_HEARTBEAT_LIVENESS" 5

end Environment

namespace Config

def Broker.ofEnvironment (env : Environment) : Broker where
  address := env.textOr "MUF_BROKER_ADDR" "0.0.0.0:5555"
  heartbeatInterval := env.heartbeatInterval
  heartbeatLiveness := env.heartbeatLiveness
  inboundCapacity := 1024
  peerCapacity := 256

def Client.ofEnvironment (env : Environment) : Client where
  server := env.server
  address := env.textOr "MUF_CLIENT_ADDRESS" env.server
  manager := env.textOr "MUF_SESSION_MANAGER_SERVICE" "session-manager"
  handshakeTimeout := env.uint64Or "MUF_HANDSHAKE_TIMEOUT_MS" 20000
  threshold := env.uint64Or "MUF_BACKPRESSURE_THRESHOLD" 100
  queueCapacity := 1024

def Worker.ofEnvironment (env : Environment) : Worker where
  broker := env.server
  heartbeatInterval := env.heartbeatInterval
  heartbeatLiveness := env.heartbeatLiveness
  reconnectDelay := 2500

/-- The settings of every part, with the policy that only logs. -/
def basic (env : Environment) : Config where
  broker := .ofEnvironment env
  client := .ofEnvironment env
  worker := .ofEnvironment env
  policy := .log

def ofEnvironment (env : Environment) : Config :=
  { basic env with policy := env.policyOr "MUF_ERROR_POLICY" .log }

end Config
end Majordomo
