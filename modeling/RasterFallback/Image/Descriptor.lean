import RasterFallback.Image.Size
import RasterFallback.Image.Source
import RasterFallback.Stylesheet.Basic

/-!
Which rules show a drawing at a known size. Of several backgrounds and sizes
the last that is understood counts; others are passed over.
-/
namespace RasterFallback
open RasterFallback.Text

/-- A drawing with the size it is shown at. -/
structure ImageDescriptor where
  source : ImageSource
  size : Size
  /-- Where the declaration of the drawing was read. -/
  declSource : Option Position := none
  deriving DecidableEq, Repr

/-- What the declarations so far say. -/
structure RuleScan where
  image : Option (ImageSource × Option Position) := none
  size : Option Size := none
  deriving DecidableEq, Repr

namespace RuleScan

def observe (scan : RuleScan) (d : Declaration) : RuleScan :=
  if d.prop = "background" ∨ d.prop = "background-image" then
    match backgroundImage? d.value with
    | some source => { scan with image := some (source, d.source) }
    | none => scan
  else if d.prop = "background-size" then
    match backgroundSize? d.value with
    | some size => { scan with size := some size }
    | none => scan
  else scan

/-- The descriptor, once drawing and size are both known. -/
def finish (scan : RuleScan) : Option ImageDescriptor := do
  let (source, position) ← scan.image
  let size ← scan.size
  some ⟨source, size, position⟩

end RuleScan

/-- The drawing of a rule, unless its selector holds the marker. -/
def Rule.image? (marker : String) (r : Rule) : Option ImageDescriptor :=
  if occurs marker.toList r.selector.toList then none
  else (r.declarations.foldl RuleScan.observe {}).finish

end RasterFallback
