import TieredHart.Hart.Basic

namespace TieredHart

inductive Csr where
  | mstatus | misa | mie | mtvec | mscratch | mepc | mcause | mtval | mip | minstret | instret | mhartid
  deriving DecidableEq

namespace Csr

def ofNumber? : Nat → Option Csr
  | 0x300 => some mstatus
  | 0x301 => some misa
  | 0x304 => some mie
  | 0x305 => some mtvec
  | 0x340 => some mscratch
  | 0x341 => some mepc
  | 0x342 => some mcause
  | 0x343 => some mtval
  | 0x344 => some mip
  | 0xB02 => some minstret
  | 0xC02 => some instret
  | 0xF14 => some mhartid
  | _ => none

def readOnly : Csr → Bool
  | instret | mhartid => true
  | _ => false

def misaValue : Word := 0x8000000000000104

end Csr

namespace Hart

def readCsr (hart : Hart) : Csr → Word
  | .mstatus => hart.mstatus
  | .misa => Csr.misaValue
  | .mie => hart.mie
  | .mtvec => hart.mtvec
  | .mscratch => hart.mscratch
  | .mepc => hart.mepc
  | .mcause => hart.mcause
  | .mtval => hart.mtval
  | .mip => hart.mip
  | .minstret | .instret => hart.instret
  | .mhartid => hart.hartid

-- Each register keeps only its legal bits: mstatus has MIE and MPIE beside a fixed MPP, mtvec is in direct mode, mepc
-- is even. A read-only register refuses the write; misa accepts and ignores it.
def writeCsr? (hart : Hart) (csr : Csr) (value : Word) : Option Hart :=
  match csr with
  | .mstatus => some { hart with mstatus := (value &&& (Status.mie ||| Status.mpie)) ||| Status.mpp }
  | .misa => some hart
  | .mie => some { hart with mie := value }
  | .mtvec => some { hart with mtvec := value &&& ~~~3 }
  | .mscratch => some { hart with mscratch := value }
  | .mepc => some { hart with mepc := value &&& ~~~1 }
  | .mcause => some { hart with mcause := value }
  | .mtval => some { hart with mtval := value }
  | .mip => some { hart with mip := value }
  | .minstret => some { hart with instret := value }
  | .instret | .mhartid => none

def readCsrAt? (hart : Hart) (number : Nat) : Option Word := (Csr.ofNumber? (number % 65536)).map hart.readCsr

def writeCsrAt? (hart : Hart) (number : Nat) (value : Word) : Option Hart :=
  (Csr.ofNumber? (number % 65536)).bind (hart.writeCsr? · value)

end Hart
end TieredHart
