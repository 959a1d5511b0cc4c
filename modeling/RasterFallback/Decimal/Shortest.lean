import RasterFallback.Decimal.Binary

/-!
The fewest digits that read back to a value: grids of ever smaller powers of
ten are tried, and on each the two neighbours of the value. The first grid
with a hit decides; of two hits the nearer is taken, and a rule settles ties.
-/
namespace RasterFallback.Decimal

/-- Which of two equally near neighbours is taken. -/
inductive Tie where
  | up
  | toEven
  deriving DecidableEq, Repr

namespace Magnitude

/-- The least k with x < 10^k, for a positive x. -/
def scale (x : Magnitude) : Int :=
  let low := (x.q + Nat.log2 x.m) * 30103 / 100000
  let below (k : Int) : Bool := compareScaled 1 k x.m x.q == .gt
  if below low then low else if below (low + 1) then low + 1 else low + 2

/-- The nearer of the two neighbours of x on the grid 10^g that read back. -/
def onGrid? (x : Magnitude) (tie : Tie) (g : Int) : Option Dec :=
  let num := x.m * Nat.pow 2 x.q.toNat * Nat.pow 10 (-g).toNat
  let den := Nat.pow 2 (-x.q).toNat * Nat.pow 10 g.toNat
  let lower : Dec := ⟨num / den, g⟩
  let upper : Dec := ⟨num / den + 1, g⟩
  match x.readsBack lower, x.readsBack upper with
  | true, true =>
    match compare (2 * num) ((2 * (num / den) + 1) * den), tie with
    | .lt, _ => some lower
    | .gt, _ => some upper
    | .eq, .up => some upper
    | .eq, .toEven => if num / den % 2 = 0 then some lower else some upper
  | true, false => some lower
  | false, true => some upper
  | false, false => none

def exact (x : Magnitude) : Dec :=
  ⟨x.m * Nat.pow 2 x.q.toNat * Nat.pow 5 (-x.q).toNat, -((-x.q).toNat : Int)⟩

/-- The shortest decimal that reads back to x, of at most seventeen digits. -/
def shortest (x : Magnitude) (tie : Tie) : Dec :=
  if x.m = 0 then ⟨0, 0⟩
  else ((List.range 17).findSome? fun n : Nat => x.onGrid? tie (x.scale - (n + 1))).getD x.exact

end Magnitude

end RasterFallback.Decimal
