import TieredHart.Hart.Basic
import TieredHart.Instruction.Op

namespace TieredHart

structure Attached (σ : Type) where
  lines : Word
  device : σ

-- The data side of a hart. Addresses are virtual and aligned; a load answers with the bytes in the low end of a word.
-- A guest fault is an answer, a host failure is an error.
structure Bus (σ : Type) where
  load : Word → Width → EStateM Failure (Attached σ) (Except Fault Word)
  store : Word → Width → Word → EStateM Failure (Attached σ) (Except Fault Unit)

structure Core (σ : Type) where
  hart : Hart
  device : σ

namespace Core

variable {σ α : Type}

def onBus (action : EStateM Failure (Attached σ) α) : EStateM Failure (Core σ) α := fun core =>
  match action ⟨core.hart.mip, core.device⟩ with
  | .ok a s => .ok a ⟨{ core.hart with mip := s.lines }, s.device⟩
  | .error e s => .error e ⟨{ core.hart with mip := s.lines }, s.device⟩

def updateHart (change : Hart → Except Failure Hart) : EStateM Failure (Core σ) Unit := fun core =>
  match change core.hart with
  | .ok hart => .ok () { core with hart := hart }
  | .error e => .error e core

def modifyHart (change : Hart → Hart) : EStateM Failure (Core σ) Unit :=
  modify fun core => { core with hart := change core.hart }

end Core

end TieredHart
