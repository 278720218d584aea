import Majordomo.Text.Utf8
import Majordomo.Text.Hex
import Majordomo.Text.Quoted

/-! # Frames and messages

A frame is an opaque run of bytes; a message is an ordered list of frames.
-/
namespace Majordomo

structure Frame where
  bytes : List UInt8
deriving DecidableEq, Inhabited

namespace Frame

/-- The frame that separates addresses from content. -/
def empty : Frame := ⟨[]⟩

def ofText (s : String) : Frame := ⟨Text.Utf8.encode s⟩

def isEmpty (f : Frame) : Bool := f.bytes.isEmpty
def size (f : Frame) : Nat := f.bytes.length

/-- The text of the frame, with invalid runs of bytes replaced. -/
def toText (f : Frame) : String := Text.Utf8.decodeLossy f.bytes

def startsWith (s : String) (f : Frame) : Bool := (Text.Utf8.encode s).isPrefixOf f.bytes

/-- Upper-case hexadecimal text of the frame; peers are registered under it. -/
def hex (f : Frame) : String := Text.Hex.upper f.bytes

/-- A control character: below the space, or between delete and U+009F. -/
def isControl (c : Char) : Bool := c.toNat < 0x20 || (0x7F ≤ c.toNat && c.toNat ≤ 0x9F)

/-- How the frame is shown: quoted if it is text without control characters, else by its bytes. -/
def shown (f : Frame) : String :=
  match Text.Utf8.decode? f.bytes with
  | some s => if s.toList.any isControl then "0x" ++ f.hex else Text.Quoted.text s
  | none => "0x" ++ f.hex

/-- Bytewise order, a proper beginning first. -/
def order (f g : Frame) : Ordering := go f.bytes g.bytes
where
  go : List UInt8 → List UInt8 → Ordering
    | [], [] => .eq
    | [], _ :: _ => .lt
    | _ :: _, [] => .gt
    | a :: as, b :: bs => if a < b then .lt else if b < a then .gt else go as bs

end Frame

/-- The frames that make up one message, first to last. -/
abbrev Message := List Frame

namespace Message

/-- The message with its last frame replaced; an empty one gets `f` as its only frame. -/
def setLast (f : Frame) : Message → Message
  | [] => [f]
  | [_] => [f]
  | g :: gs@(_ :: _) => g :: setLast f gs

def lastText (m : Message) : String := (m.getLast?.map Frame.toText).getD ""

def shown (m : Message) : String := "[" ++ ", ".intercalate (m.map Frame.shown) ++ "]"

end Message
end Majordomo
