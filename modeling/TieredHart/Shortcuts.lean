import TieredHart.Block

namespace TieredHart

-- Direct-mapped cache of block numbers. A slot is only a hint: it says nothing about whether the block still exists.
structure Shortcuts where
  slots : List (Nat × Nat)
  deriving DecidableEq

namespace Shortcuts

def slotCount : Nat := 4096

def empty : Shortcuts := ⟨[]⟩

def index (pa : Nat) : Nat := pa / 2 % slotCount

def slot? (cache : Shortcuts) (i : Nat) : Option Nat := (cache.slots.find? (·.1 = i)).map (·.2)

def clear (cache : Shortcuts) (i : Nat) : Shortcuts := ⟨cache.slots.filter (·.1 ≠ i)⟩

def insert (cache : Shortcuts) (block : Block) : Shortcuts :=
  ⟨(index block.entryPa, block.id) :: (cache.clear (index block.entryPa)).slots⟩

-- A slot counts when its block is still owned by someone, valid and entered at this very address. Slots of dead blocks
-- are cleared on the way.
def lookup (cache : Shortcuts) (owned : Nat → Option Block) (pa : Nat) : Option Block × Shortcuts :=
  match cache.slot? (index pa) with
  | none => (none, cache)
  | some id =>
    match owned id with
    | none => (none, cache.clear (index pa))
    | some block =>
      if block.valid then (if block.entryPa = pa then some block else none, cache)
      else (none, cache.clear (index pa))

def live (owned : Nat → Option Block) (id : Nat) : Bool :=
  match owned id with
  | some block => block.valid
  | none => false

def purge (cache : Shortcuts) (owned : Nat → Option Block) : Shortcuts :=
  ⟨cache.slots.filter fun slot => live owned slot.2⟩

end Shortcuts

structure BlockOwner where
  nextId : Nat
  owned : List (String × Block)
  deriving DecidableEq

namespace BlockOwner

def empty : BlockOwner := ⟨0, []⟩

def byId (owner : BlockOwner) (id : Nat) : Option Block := (owner.owned.find? (·.2.id = id)).map (·.2)

def nameOf (owner : BlockOwner) (id : Nat) : Option String := (owner.owned.find? (·.2.id = id)).map (·.1)

def byName (owner : BlockOwner) (name : String) : Option Block := (owner.owned.find? (·.1 = name)).map (·.2)

def drop (owner : BlockOwner) (name : String) : BlockOwner :=
  { owner with owned := owner.owned.filter (·.1 ≠ name) }

def put (owner : BlockOwner) (name : String) (block : Block) : BlockOwner :=
  { owner with owned := (name, block) :: (owner.drop name).owned }

def create (owner : BlockOwner) (name : String) (pa : Nat) : BlockOwner :=
  let block : Block := ⟨owner.nextId, pa, BitVec.ofNat 64 pa, 0, 0, ⟨0, 0⟩, .directBranch, false,
    ⟨⟨Page.frame pa, 0⟩, none⟩, true, 0⟩
  { owner.put name block with nextId := owner.nextId + 1 }

end BlockOwner
end TieredHart
