namespace TieredHart.Text

def hexDigits (n : Nat) : String := String.ofList (Nat.toDigits 16 n)

def hex (n : Nat) : String := "0x" ++ hexDigits n

def hexFilled (width n : Nat) : String :=
  let digits := Nat.toDigits 16 n
  "0x" ++ String.ofList (List.replicate (width - digits.length) '0' ++ digits)

def hexBytes (bytes : List UInt8) : String :=
  String.ofList (bytes.flatMap fun b => [Nat.digitChar (b.toNat / 16), Nat.digitChar (b.toNat % 16)])

def digit? (c : Char) : Option Nat :=
  if '0' ≤ c ∧ c ≤ '9' then some (c.toNat - 48)
  else if 'a' ≤ c ∧ c ≤ 'f' then some (c.toNat - 87)
  else none

def digitsFrom? (value : Nat) : List Char → Option Nat
  | [] => some value
  | c :: rest => (digit? c).bind fun d => digitsFrom? (value * 16 + d) rest

def ofHex? (text : String) : Option Nat :=
  match text.toList with
  | '0' :: 'x' :: c :: rest => digitsFrom? 0 (c :: rest)
  | _ => none

def pairs? : List Char → Option (List UInt8)
  | [] => some []
  | high :: low :: rest =>
    (digitsFrom? 0 [high, low]).bind fun b => (pairs? rest).map (UInt8.ofNat b :: ·)
  | _ => none

def ofHexBytes? (text : String) : Option (List UInt8) := pairs? text.toList

end TieredHart.Text
