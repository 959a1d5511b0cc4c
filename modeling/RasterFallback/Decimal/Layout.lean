import RasterFallback.Decimal.Shortest
import RasterFallback.Text.Blank

/-!
How numbers are written: the shortest digits, positionally or with an exponent.
-/
namespace RasterFallback.Decimal
open RasterFallback.Text

structure Layout where
  /-- Which exponents of the leading digit are written positionally. -/
  positional : Int → Bool
  tie : Tie
  /-- Whether a power of ten that is not negative is written with a plus sign. -/
  plus : Bool := false

/-- Digits that hold a point somewhere, `point` digits standing before it. -/
def pointed (digits : List Char) (point : Int) : List Char :=
  if point ≤ 0 then
    '0' :: '.' :: (List.replicate (-point).toNat '0' ++ digits)
  else
    let n := point.toNat
    let whole := digits.take n ++ List.replicate (n - digits.length) '0'
    let rest := digits.drop n
    whole ++ '.' :: (if rest.isEmpty then ['0'] else rest)

/-- Digits with a point after the first and a power of ten. -/
def scientific (plus : Bool) (digits : List Char) (e : Int) : List Char :=
  let head := match digits with
    | [] => ['0']
    | [d] => [d]
    | d :: rest => d :: '.' :: rest
  head ++ 'e' :: ((if plus && 0 ≤ e then ['+'] else []) ++ (toString e).toList)

def Layout.magnitude (l : Layout) (x : Magnitude) : List Char :=
  if x.m = 0 then ['0', '.', '0']
  else
    let d := x.shortest l.tie
    let all := (toString d.digits).toList
    let digits := dropEndWhile (· == '0') all
    let e : Int := d.exponent + all.length - 1
    if l.positional e then pointed digits (e + 1) else scientific l.plus digits e

/-- The text of a value, with its sign. -/
def Layout.text (l : Layout) : Value → String
  | .nan => "NaN"
  | .infinite negative => if negative then "-inf" else "inf"
  | .finite negative x => String.ofList ((if negative then ['-'] else []) ++ l.magnitude x)

end RasterFallback.Decimal
