import RasterFallback.Text.Blank
import RasterFallback.Text.Digits
import RasterFallback.Text.Search

/-!
Sizes in whole pixels: one length for a square, or width and height with one
space between them.
-/
namespace RasterFallback
open RasterFallback.Text

structure Size where
  width : Nat
  height : Nat
  deriving DecidableEq, Repr

/-- Lengths are less than this. -/
def lengthLimit : Nat := Nat.pow 2 32

/-- A length in pixels at the front, and what follows it. -/
def pixels? (s : List Char) : Option (Nat × List Char) := do
  let ds := s.takeWhile Char.isDigit
  let rest ← behind? ['p', 'x'] (s.dropWhile Char.isDigit)
  if ds.isEmpty || lengthLimit ≤ natOfDigits ds then none
  else some (natOfDigits ds, rest)

/-- The size that a value gives, blanks around it left out. -/
def backgroundSize? (value : String) : Option Size := do
  let (w, rest) ← pixels? (trim value.toList)
  match rest with
  | [] => some ⟨w, w⟩
  | ' ' :: s =>
    match ← pixels? s with
    | (h, []) => some ⟨w, h⟩
    | _ => none
  | _ => none

end RasterFallback
