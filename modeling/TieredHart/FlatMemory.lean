import TieredHart.Bus
import TieredHart.Bytes

namespace TieredHart

structure FlatMemory where
  bytes : Array UInt8
  deriving DecidableEq

namespace FlatMemory

def ofBytes (size : Nat) (bytes : List UInt8) : Except Failure FlatMemory := do
  checkAllocation size
  return ⟨(bytes.take size ++ List.replicate (size - bytes.length) 0).toArray⟩

def covers (memory : FlatMemory) (va : Word) (width : Width) : Bool := va.toNat + width.bytes ≤ memory.bytes.size

def read (memory : FlatMemory) (va : Word) (width : Width) : Word :=
  BitVec.ofNat 64 (Bytes.value (memory.bytes.extract va.toNat (va.toNat + width.bytes)).toList)

def write (memory : FlatMemory) (va : Word) (width : Width) (value : Word) : FlatMemory :=
  ⟨Bytes.overwrite memory.bytes va.toNat (Bytes.ofNat width.bytes value.toNat)⟩

def bus : Bus FlatMemory where
  load va width := do
    let memory := (← get).device
    if memory.covers va width then return .ok (memory.read va width) else return .error (.loadAccess va)
  store va width value := do
    if (← get).device.covers va width then
      modify fun s => { s with device := s.device.write va width value }
      return .ok ()
    else return .error (.storeAccess va)

end FlatMemory
end TieredHart
