namespace TieredHart

-- A violation is a fact the engine relies on found false at the moment it is used. None is a guest's doing.
inductive Violation where
  | staleInstall (pa : Nat)
  | doubleInstall (pa : Nat)
  | staleBlock (pa stamped frame live : Nat)
  | malformedCode (index : Nat)
  | badOpcode (opcode index : Nat)
  deriving DecidableEq

-- Why the host gives up. Guest faults are ordinary results and never appear here; running out of fuel says only that
-- the bound a caller gave was too small.
inductive Failure where
  | overflow
  -- A store whose range ends past the last address.
  | storeEnd (pa len : Nat)
  | outOfBounds
  | allocation
  | assertion
  | shiftAmount
  | registerNumber
  | interruptLine
  | violated (violation : Violation)
  | outOfFuel
  deriving DecidableEq

def hostLimit : Nat := 0x10000000000000000

-- What depends on the host: the largest range that it maps, and what a slot of a queue takes. The values are those where
-- a program sees 2 ^ 47 bytes and is placed two thirds of the way up; whatever is proved holds for others as well.
structure Host where
  mapLimit : Nat := 0x800000000000 / 3 * 2
  slotBytes : Nat := 40

def checkedAdd (a b : Nat) : Except Failure Nat :=
  if a + b < hostLimit then .ok (a + b) else .error .overflow

-- The smallest multiple of a unit that is not below a size. A whole unit is added on the way, so a size within a unit
-- of the limit fails, even where the multiple itself would fit.
def checkedRoundUp (unit size : Nat) : Except Failure Nat := do
  let padded ← checkedAdd size unit
  return (padded - 1) / unit * unit

-- A single allocation of the host stays below half of its range.
def allocationLimit : Nat := 0x8000000000000000

def checkAllocation (bytes : Nat) : Except Failure Unit :=
  if bytes < allocationLimit then .ok () else .error .allocation

end TieredHart
