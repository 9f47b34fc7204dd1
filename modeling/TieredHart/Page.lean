namespace TieredHart

abbrev Word := BitVec 64

-- Physical addresses are naturals: their arithmetic is checked, so nothing ever wraps.
namespace Page

def size : Nat := 4096

def frame (pa : Nat) : Nat := pa / 4096

def base (pa : Nat) : Nat := pa / 4096 * 4096

def offset (pa : Nat) : Nat := pa % 4096

def rest (pa : Nat) : Nat := 4096 - offset pa

end Page

namespace Word

def page (va : Word) : Nat := va.toNat / 4096

def pageOffset (va : Word) : Nat := va.toNat % 4096

def pageBase (va : Word) : Word := BitVec.ofNat 64 (va.toNat / 4096 * 4096)

-- First address of the following virtual page; the last page is followed by the first.
def nextPage (va : Word) : Word := BitVec.ofNat 64 ((va.toNat / 4096 + 1) * 4096)

def ofImmediate (imm : Int) : Word := BitVec.ofInt 64 imm

end Word
end TieredHart
