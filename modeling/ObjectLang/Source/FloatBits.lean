/-! # Floats by their bits

A float is written as the hexadecimal digits of its IEEE 754 bits, sixteen of them in lower case
after `0x`; all that are not numbers are written `nan`.
-/

namespace ObjectLang.Source.FloatBits

/-- The fraction takes the lowest 52 bits, the exponent the next eleven. -/
def fractionModulus : Nat := 0x10000000000000

def isNaN (bits : UInt64) : Bool :=
  let n := bits.toNat
  n / fractionModulus % 2048 == 2047 && n % fractionModulus != 0

def render (bits : UInt64) : String :=
  if isNaN bits then
    "nan"
  else
    let digits := Nat.toDigits 16 bits.toNat
    "0x" ++ String.ofList (List.replicate (16 - digits.length) '0' ++ digits)

def digit? (c : Char) : Option Nat :=
  if '0' ≤ c ∧ c ≤ '9' then some (c.toNat - '0'.toNat)
  else if 'a' ≤ c ∧ c ≤ 'f' then some (c.toNat - 'a'.toNat + 10)
  else if 'A' ≤ c ∧ c ≤ 'F' then some (c.toNat - 'A'.toNat + 10)
  else none

def number? (digits : List Char) : Option Nat :=
  digits.foldlM (fun n c => (digit? c).map (16 * n + ·)) 0

/-- Reads bits back.  Leading zeros may be left out, but one digit has to be there, and the number
has to fit into 64 bits. -/
def parse? (text : String) : Option UInt64 :=
  match text.toList with
  | '0' :: 'x' :: c :: cs => ((number? (c :: cs)).filter (· < UInt64.size)).map UInt64.ofNat
  | _ => none

end ObjectLang.Source.FloatBits
