/-!
Binary floating-point values as m · 2^q, and which decimals round to them.
-/
namespace RasterFallback.Decimal

/-- Field widths of an interchange format. -/
structure Format where
  fractionBits : Nat
  exponentBits : Nat

def binary32 : Format := ⟨23, 8⟩

def binary64 : Format := ⟨52, 11⟩

def Format.leastExponent (f : Format) : Int :=
  2 - (Nat.pow 2 (f.exponentBits - 1) : Nat) - f.fractionBits

/-- A non-negative finite value m · 2^q. -/
structure Magnitude where
  m : Nat
  q : Int
  /-- The gap to the value below is half the gap to the value above. -/
  narrowBelow : Bool
  deriving DecidableEq, Repr

/-- What the bits of a format stand for. -/
inductive Value where
  | nan
  | infinite (negative : Bool)
  | finite (negative : Bool) (size : Magnitude)
  deriving DecidableEq, Repr

/-- Reads a bit pattern, sign first, then the exponent, then the fraction. -/
def Format.value (f : Format) (bits : Nat) : Value :=
  let fraction := bits % Nat.pow 2 f.fractionBits
  let exponent := bits / Nat.pow 2 f.fractionBits % Nat.pow 2 f.exponentBits
  let negative := bits / Nat.pow 2 (f.fractionBits + f.exponentBits) % 2 == 1
  if exponent + 1 = Nat.pow 2 f.exponentBits then
    if fraction = 0 then .infinite negative else .nan
  else if exponent = 0 then .finite negative ⟨fraction, f.leastExponent, false⟩
  else
    .finite negative ⟨Nat.pow 2 f.fractionBits + fraction, f.leastExponent + (exponent - 1),
      fraction == 0 && exponent > 1⟩

/-- The decimal digits · 10^exponent. -/
structure Dec where
  digits : Nat
  exponent : Int
  deriving DecidableEq, Repr

/-- Compares a · 10^i with n · 2^j exactly. -/
def compareScaled (a : Nat) (i : Int) (n : Nat) (j : Int) : Ordering :=
  compare (a * Nat.pow 10 i.toNat * Nat.pow 2 (-j).toNat) (n * Nat.pow 2 j.toNat * Nat.pow 10 (-i).toNat)

/-- Whether `d` lies among the reals that round to `x`, to nearest and ties to even. -/
def Magnitude.readsBack (x : Magnitude) (d : Dec) : Bool :=
  let low := if x.narrowBelow then 4 * x.m - 1 else 4 * x.m - 2
  let closed := x.m % 2 == 0
  let atLow := compareScaled d.digits d.exponent low (x.q - 2)
  let atHigh := compareScaled d.digits d.exponent (4 * x.m + 2) (x.q - 2)
  (atLow == .gt || closed && atLow == .eq) && (atHigh == .lt || closed && atHigh == .eq)

end RasterFallback.Decimal
