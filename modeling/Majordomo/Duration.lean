/-! # Durations

A duration has whole seconds, a number of 64 bits, and the nanoseconds of one second more.
-/
namespace Majordomo

namespace Word

/-- The product of two numbers, if it has 64 bits. -/
def mul? (a b : UInt64) : Option UInt64 :=
  if a.toNat * b.toNat < UInt64.size then some (a * b) else none

/-- The sum of two numbers, if it has 64 bits. -/
def add? (a b : UInt64) : Option UInt64 :=
  if a.toNat + b.toNat < UInt64.size then some (a + b) else none

end Word

structure Duration where
  seconds : UInt64
  nanos : UInt32
  nanos_lt : nanos.toNat < 1000000000
deriving DecidableEq

namespace Duration

/-- The nanoseconds of what is left of the milliseconds after whole seconds. -/
def fraction (ms : UInt64) : UInt32 := (ms % 1000).toUInt32 * 1000000

theorem toNat_fraction (ms : UInt64) : (fraction ms).toNat = ms.toNat % 1000 * 1000000 := by
  have hm : ms.toNat % 1000 < 1000 := Nat.mod_lt _ (by decide)
  simp only [fraction, UInt32.toNat_mul, UInt64.toNat_toUInt32, UInt64.toNat_mod,
    UInt64.reduceToNat, UInt32.reduceToNat]
  rw [Nat.mod_eq_of_lt (by omega : ms.toNat % 1000 < 2 ^ 32), Nat.mod_eq_of_lt (by omega)]

def ofMillis (ms : UInt64) : Duration where
  seconds := ms / 1000
  nanos := fraction ms
  nanos_lt := by
    rw [toNat_fraction]
    omega

/-- The whole milliseconds. -/
def millis (d : Duration) : Nat := d.seconds.toNat * 1000 + d.nanos.toNat / 1000000

/-- The duration `n` times over, unless its seconds exceed 64 bits. -/
def times? (n : UInt32) (d : Duration) : Option Duration := do
  let nanos := d.nanos.toUInt64 * n.toUInt64
  let seconds ← Word.add? (← Word.mul? d.seconds n.toUInt64) (nanos / 1000000000)
  return {
    seconds
    nanos := (nanos % 1000000000).toUInt32
    nanos_lt := by
      simp only [UInt64.toNat_toUInt32, UInt64.toNat_mod, UInt64.reduceToNat]
      omega }

end Duration
end Majordomo
