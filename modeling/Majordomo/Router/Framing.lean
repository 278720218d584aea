import Majordomo.Bytes
import Majordomo.Router.Protobuf

/-! # Messages in a stream of bytes

Every message comes after a byte that says whether it is compressed, and after its
length in four bytes. Compressed messages are not understood.
-/
namespace Majordomo.Router.Framing

/-- The longest message that is taken. -/
def limit : Nat := 4 * 1024 * 1024

def encode (m : Message) : List UInt8 :=
  let payload := Protobuf.encode m
  0 :: Bytes.bigEndian 4 payload.length ++ payload

inductive Next
  | incomplete
  | broken
  | message (m : Message) (rest : List UInt8)
deriving DecidableEq, Inhabited

def next : List UInt8 → Next
  | flag :: a :: b :: c :: d :: rest =>
    let length := Bytes.ofBigEndian [a, b, c, d]
    if flag ≠ 0 ∨ limit < length then .broken
    else if rest.length < length then .incomplete
    else match Protobuf.decode? (rest.take length) with
      | some m => .message m (rest.drop length)
      | none => .broken
  | _ => .incomplete

end Majordomo.Router.Framing
