import Majordomo.Bytes
import Majordomo.Text.Blank
import Majordomo.Text.Decimal
import Majordomo.Text.Hex

/-! # Addresses

How the address of a broker is written: `host:port`, with or without a scheme, and
with a star for the host. A client calls a star localhost; a broker that listens at
a star listens at every interface.
-/
namespace Majordomo.Address

/-- What follows `start` in `s`, if `s` begins with it. -/
def after? (start : String) (s : String) : Option String :=
  if start.toList.isPrefixOf s.toList then some (String.ofList (s.toList.drop start.length))
  else none

/-- The host and port of an address, with `host` in place of a star. -/
def hostPort (host address : String) : String :=
  let address := (after? "tcp://" address).getD address
  match after? "*:" address with
  | some port => host ++ ":" ++ port
  | none => address

def endpointUri (address : String) : String :=
  let address := Text.trim address
  if (after? "http://" address).isSome ∨ (after? "https://" address).isSome then address
  else "http://" ++ hostPort "127.0.0.1" address

/-- A host by the bytes of its number, the highest first. -/
structure Host where
  bytes : List UInt8
deriving DecidableEq, Inhabited

namespace Host

def any : Host := ⟨[0, 0, 0, 0]⟩
def localhost : Host := ⟨[127, 0, 0, 1]⟩

/-- Whether one can listen at the host without a network. -/
def isLocal (h : Host) : Bool := h = any || h.bytes.head? = some 127

def text (h : Host) : String := ".".intercalate (h.bytes.map fun b => toString b.toNat)

/-- Reads a part of a number: in hexadecimal digits after `0x`, in octal digits after a zero,
else in decimal digits. -/
def part? (s : String) : Option Nat :=
  match s.toList with
  | '0' :: 'x' :: digits | '0' :: 'X' :: digits =>
    Text.Decimal.natOf? Text.Hex.value? 16 digits
  | '0' :: c :: digits =>
    Text.Decimal.natOf? (fun c => (Text.Decimal.digit? c).filter (· < 8)) 8 (c :: digits)
  | digits => Text.Decimal.natOf? Text.Decimal.digit? 10 digits

/-- The number in `width` bytes, if it has no more. -/
def fit? (width n : Nat) : Option (List UInt8) :=
  let bytes := Bytes.bigEndian width n
  if Bytes.ofBigEndian bytes = n then some bytes else none

/-- The bytes of the parts: one for each but the last, which takes the rest of `width`. -/
def join? : Nat → List Nat → Option (List UInt8)
  | width + 1, [n] => fit? (width + 1) n
  | width + 1, n :: rest => do return (← fit? 1 n) ++ (← join? width rest)
  | _, _ => none

/-- Reads a host: one to four numbers, or the name of this machine. -/
def ofText? (s : String) : Option Host :=
  if s = "localhost" then some localhost
  else ((s.splitOn ".").mapM part?).bind fun parts => (join? 4 parts).map Host.mk

end Host

def listen? (address : String) : Option Host := do
  let text := (hostPort "0.0.0.0" (Text.trim address)).toList.reverse
  let port := (text.takeWhile (· ≠ ':')).reverse
  let host := ((text.dropWhile (· ≠ ':')).drop 1).reverse
  let _ ← Text.Decimal.unsigned? 16 (String.ofList port)
  let host ← Host.ofText? (String.ofList host)
  guard host.isLocal
  return host

end Majordomo.Address
