/-!
Decimal digits and the numbers they spell.
-/
namespace RasterFallback.Text

def digitValue (c : Char) : Nat := c.toNat - '0'.toNat

def natOfDigits (ds : List Char) : Nat := ds.foldl (fun n c => n * 10 + digitValue c) 0

end RasterFallback.Text
