import TieredHart.Bytes
import TieredHart.Failure

namespace TieredHart

structure ByteBuffer where
  bytes : Array UInt8
  deriving DecidableEq

namespace ByteBuffer

def empty : ByteBuffer := ⟨#[]⟩

-- An empty buffer with room for so many bytes, which nothing but a failure to make it can show.
def withCapacity (capacity : Nat) : Except Failure ByteBuffer := do
  checkAllocation capacity
  return empty

def size (buffer : ByteBuffer) : Nat := buffer.bytes.size

def append (buffer : ByteBuffer) (data : List UInt8) : ByteBuffer := ⟨buffer.bytes ++ data⟩

def pushByte (buffer : ByteBuffer) (value : UInt8) : ByteBuffer := ⟨buffer.bytes.push value⟩

def pushHalf (buffer : ByteBuffer) (value : UInt16) : ByteBuffer := buffer.append (Bytes.ofNat 2 value.toNat)

def pushWord (buffer : ByteBuffer) (value : UInt32) : ByteBuffer := buffer.append (Bytes.ofNat 4 value.toNat)

def read (buffer : ByteBuffer) (count offset : Nat) : Except Failure Nat :=
  if offset + count ≤ buffer.size then .ok (Bytes.value (buffer.bytes.extract offset (offset + count)).toList)
  else .error .outOfBounds

end ByteBuffer
end TieredHart
