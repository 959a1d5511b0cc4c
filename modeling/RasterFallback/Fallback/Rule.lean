import RasterFallback.Digest.Sha256
import RasterFallback.Image.Descriptor
import RasterFallback.Stylesheet.Selector

/-!
The raster of a drawing and the rule that shows it. A raster is named for its
drawing and its size; the rule puts the marker before every selector.
-/
namespace RasterFallback
open RasterFallback.Text RasterFallback.Digest

def Size.ending (s : Size) : List Char :=
  '-' :: (toString s.width).toList ++ 'x' :: (toString s.height).toList ++ ".png".toList

def contentHash (markup : String) : String :=
  String.ofList (hexDigits (sha256 (utf8Bytes markup.toList)))

/-- The name of a drawing without its file ending. -/
def ImageSource.stem : ImageSource → List Char
  | .file path => (before? svgEnding path.toList).getD path.toList
  | .inline markup => (contentHash markup).toList

def ImageDescriptor.rasterName (d : ImageDescriptor) : String :=
  String.ofList (d.source.stem ++ d.size.ending)

/-- The marker before every selector of the rule. -/
def fallbackSelector (marker : String) (r : Rule) : String :=
  String.intercalate ", " (r.selectors.map fun s => marker ++ " " ++ s)

/-- The rule that shows the raster `name` where the marker holds. It keeps the
positions of the rule and of the declaration that it stands in for. -/
def fallbackRule (marker : String) (r : Rule) (d : ImageDescriptor) (name : String) : Rule :=
  ⟨fallbackSelector marker r,
    [⟨"background-image", "url(" ++ name ++ ")", false, d.declSource⟩], r.source⟩

def dataUrl (markup : String) : String :=
  "data:image/svg+xml;base64," ++ String.ofList (Base64.encode (utf8Bytes markup.toList))

@[simp] theorem contentHash_length (markup : String) : (contentHash markup).length = 64 := by
  have : ∀ bytes : List UInt8, (hexDigits bytes).length = 2 * bytes.length := by
    intro bytes
    induction bytes with
    | nil => rfl
    | cons b bytes ih => simp [hexDigits] at ih ⊢; omega
  simp [contentHash, this]

end RasterFallback
