import Majordomo.Broker.Server
import Majordomo.Config.Overlay
import Majordomo.Proofs.Duration
import Majordomo.Proofs.Text.Decimal
import Majordomo.Proofs.Text.Utf8

/-! # How long a worker may be silent

The settings grant a worker a number of intervals. The time that these amount to is exact; but for
some settings it is longer than any duration, and nothing keeps them out.
-/
namespace Majordomo
namespace Config.Broker
variable (c : Broker)

theorem interval_lt : c.interval < 2 ^ 64 :=
  Nat.max_lt.mpr ⟨by decide,c.heartbeatInterval.toNat_lt⟩

/-- The interval as many times as the liveness says, if that is a duration. -/
theorem expiry?_eq :
    c.expiry? =
      if c.interval * c.heartbeatLiveness.toNat / 1000 < 2 ^ 64 then
        some (c.interval * c.heartbeatLiveness.toNat)
      else none := by
  have ht : (Duration.ofMillis (.ofNat c.interval)).total = c.interval * 1000000 := by
    rw [Duration.total_ofMillis, UInt64.toNat_ofNat', Nat.mod_eq_of_lt c.interval_lt]
  rw [expiry?]
  cases hd : (Duration.ofMillis (.ofNat c.interval)).times? c.heartbeatLiveness with
  | none =>
    have hn := Duration.times?_eq_none.mp hd
    rw [ht, Nat.mul_right_comm] at hn
    rw [if_neg (by omega), Option.map_none]
  | some d =>
    have hn := mt Duration.times?_eq_none.mpr (hd ▸ Option.some_ne_none d)
    have hm := Duration.total_of_times? hd
    rw [ht, Nat.mul_right_comm] at hn hm
    rw [if_pos (by omega), Option.map_some, Duration.millis_eq, hm,
      Nat.mul_div_cancel _ (by decide)]

end Config.Broker

/-! ## What the environment may set -/

namespace Environment

def heartbeat (interval : UInt64) (liveness : UInt32) : Environment :=
  [("MUF_HEARTBEAT_INTERVAL_MS",Text.Utf8.encode interval.toNat.repr),
    ("MUF_HEARTBEAT_LIVENESS",Text.Utf8.encode liveness.toNat.repr)]

theorem nat?_of_lookup {env : Environment} {name : String} {bits n : Nat}
    (he : env.lookup name = some (Text.Utf8.encode n.repr)) (hn : n < 2 ^ bits) :
    env.nat? bits name = some n := by
  rw [nat?, text?, he, Option.bind_some, Text.Utf8.decode?_encode, Option.bind_some,
    Text.Decimal.unsigned?_repr hn]

theorem heartbeatInterval_ofEnvironment (env : Environment) :
    (Config.ofEnvironment env).broker.heartbeatInterval = env.heartbeatInterval := rfl

theorem heartbeatLiveness_ofEnvironment (env : Environment) :
    (Config.ofEnvironment env).broker.heartbeatLiveness = env.heartbeatLiveness := rfl

variable (interval : UInt64) (liveness : UInt32)

theorem heartbeatInterval_heartbeat :
    (Config.ofEnvironment (heartbeat interval liveness)).broker.heartbeatInterval = interval := by
  rw [heartbeatInterval_ofEnvironment, heartbeatInterval, uint64Or,
    nat?_of_lookup rfl interval.toNat_lt]
  exact UInt64.ofNat_toNat

theorem heartbeatLiveness_heartbeat :
    (Config.ofEnvironment (heartbeat interval liveness)).broker.heartbeatLiveness = liveness := by
  rw [heartbeatLiveness_ofEnvironment, heartbeatLiveness, uint32Or,
    nat?_of_lookup rfl liveness.toNat_lt]
  exact UInt32.ofNat_toNat

end Environment

/-! ## The life that is granted -/

namespace Broker.Server

/-- Whatever the settings, and the environment may set every interval and every liveness: the time
after which a silent worker counts as dead is the interval, or one millisecond if that is zero, as
many times as the liveness says, and the broker starts with it; or this has more seconds than fit
into 64 bits, and then there is no such time, and the broker does not start. -/
theorem expiry_exact_or_missing (c : Config.Broker) (policy : Policy) :
    let ms := max 1 c.heartbeatInterval.toNat * c.heartbeatLiveness.toNat
    (ms / 1000 < 2 ^ 64 ∧ c.expiry? = some ms ∧
        (∃ s, start c policy = some s ∧ s.mediator.lifetime = ms) ∨
      2 ^ 64 ≤ ms / 1000 ∧ c.expiry? = none ∧ start c policy = none) ∧
    ∃ env, (Config.ofEnvironment env).broker.heartbeatInterval = c.heartbeatInterval ∧
      (Config.ofEnvironment env).broker.heartbeatLiveness = c.heartbeatLiveness := by
  intro ms
  have hx : c.expiry? = if ms / 1000 < 2 ^ 64 then some ms else none := c.expiry?_eq
  refine ⟨?_,.heartbeat c.heartbeatInterval c.heartbeatLiveness,
    Environment.heartbeatInterval_heartbeat ..,Environment.heartbeatLiveness_heartbeat ..⟩
  by_cases hm : ms / 1000 < 2 ^ 64
  · rw [if_pos hm] at hx
    exact .inl ⟨hm,hx,_,by rw [start, hx, Option.map_some],rfl⟩
  · rw [if_neg hm] at hx
    exact .inr ⟨Nat.le_of_not_lt hm,hx,by rw [start, hx, Option.map_none]⟩

/-- The greatest numbers that the environment or a document may set are let in, and leave no time
after which a worker counts as dead. -/
theorem greatest_settings_grant_no_expiry :
    let env := Environment.heartbeat 18446744073709551615 4294967295
    let document :=
      "[broker]\nheartbeat_interval_ms = 9223372036854775807\nheartbeat_liveness = 4294967295\n"
    let c := (Config.ofEnvironment env).broker
    (c.heartbeatInterval,c.heartbeatLiveness) = (18446744073709551615,4294967295) ∧
    c.expiry? = none ∧ (start c .log).isNone = true ∧
    ∃ d, (Config.ofToml? [] document).map (·.broker) = some d ∧
      (d.heartbeatInterval,d.heartbeatLiveness) = (9223372036854775807,4294967295) ∧
      d.expiry? = none ∧ (start d .log).isNone = true := by
  intro env document c
  let d := { Config.Broker.ofEnvironment [] with
    heartbeatInterval := 9223372036854775807, heartbeatLiveness := 4294967295 }
  exact ⟨by decide +kernel,by decide +kernel,by decide +kernel,d,by decide +kernel,rfl,
    by decide +kernel,by decide +kernel⟩

end Broker.Server
end Majordomo
