import Majordomo.Duration
import Majordomo.Monitor

/-! # Settings

What an installation can set, for the three programs that share it. Durations are in
milliseconds.
-/
namespace Majordomo

structure Config.Broker where
  address : String
  heartbeatInterval : UInt64
  /-- How many intervals of silence a worker is granted. -/
  heartbeatLiveness : UInt32
  /-- How many messages may wait for the broker. -/
  inboundCapacity : UInt64
  /-- How many messages may wait for one peer. -/
  peerCapacity : UInt64
deriving DecidableEq, Inhabited

structure Config.Client where
  server : String
  /-- The address that the client gives as its own. -/
  address : String
  manager : String
  handshakeTimeout : UInt64
  /-- By how much the messages sent may outnumber the replies. -/
  threshold : UInt64
  queueCapacity : UInt64
deriving DecidableEq, Inhabited

structure Config.Worker where
  broker : String
  heartbeatInterval : UInt64
  /-- How many intervals of silence the broker is granted. -/
  heartbeatLiveness : UInt32
  reconnectDelay : UInt64
deriving DecidableEq, Inhabited

structure Config where
  broker : Config.Broker
  client : Config.Client
  worker : Config.Worker
  policy : Policy
deriving DecidableEq, Inhabited

namespace Config

/-- The time between two heartbeats is never zero. -/
def period (interval : UInt64) : Nat := max 1 interval.toNat

def Broker.interval (c : Broker) : Nat := period c.heartbeatInterval

/-- A worker that has been silent for so long counts as dead. There is no such time if it is longer
than any duration. -/
def Broker.expiry? (c : Broker) : Option Nat :=
  ((Duration.ofMillis (.ofNat c.interval)).times? c.heartbeatLiveness).map Duration.millis

def Worker.interval (c : Worker) : Nat := period c.heartbeatInterval

end Config
end Majordomo
