import RasterFallback.Text.Utf8

/-!
Percent encoding: a percent sign and two hexadecimal digits stand for a byte.
A percent sign without them stands for itself.
-/
namespace RasterFallback.Text

/-- The value of a hexadecimal digit of either case. -/
def hexValue? (c : Char) : Option Nat :=
  if '0' ≤ c && c ≤ '9' then some (c.toNat - '0'.toNat)
  else if 'a' ≤ c && c ≤ 'f' then some (c.toNat - 'a'.toNat + 10)
  else if 'A' ≤ c && c ≤ 'F' then some (c.toNat - 'A'.toNat + 10)
  else none

def hexDigit (n : Nat) : Char :=
  if n < 10 then Char.ofNat ('0'.toNat + n) else Char.ofNat ('a'.toNat + n - 10)

/-- The byte behind a percent sign, if two hexadecimal digits follow it. -/
def escapedByte? : List Char → Option UInt8
  | a :: b :: _ => do
    let high ← hexValue? a
    let low ← hexValue? b
    pure (UInt8.ofNat (high * 16 + low))
  | _ => none

/-- The bytes that a percent-encoded text stands for. -/
def percentDecode : List Char → List UInt8
  | [] => []
  | c :: s =>
    if c = '%' then
      match escapedByte? s with
      | some b => b :: percentDecode (s.drop 2)
      | none => String.utf8EncodeChar c ++ percentDecode s
    else String.utf8EncodeChar c ++ percentDecode s
  termination_by s => s.length

end RasterFallback.Text
