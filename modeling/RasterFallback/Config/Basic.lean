import RasterFallback.Json.Fault
import RasterFallback.Text.Blank

/-!
Settings of a run, and what makes them unusable.
-/
namespace RasterFallback
open RasterFallback.Text

/-- The program that turns a drawing into a raster, and its first arguments. -/
structure RendererConfig where
  program : String := "phantomjs"
  args : List String := []
  deriving DecidableEq, Repr

structure Config where
  /-- The marker: fallback rules apply where this selector matches an ancestor. -/
  fallbackSelector : String := ".no-svg"
  /-- Where paths of drawings start. -/
  basePath : String := ""
  /-- Where rasters are put. -/
  dest : String := ""
  /-- Fallbacks are added, but nothing is rendered. -/
  disableConvert : Bool := false
  renderer : RendererConfig := {}
  deriving DecidableEq, Repr

inductive ConfigFault where
  | emptySelector
  | emptyProgram
  /-- A configuration text that cannot be read. -/
  | unreadable (whole : List Char) (e : Json.Error)
  deriving DecidableEq

def ConfigFault.message : ConfigFault → String
  | emptySelector => "fallbackSelector must not be empty"
  | emptyProgram => "renderer program must not be empty"
  | unreadable whole e => e.message whole

/-- Passes settings whose marker is not blank and whose program is not empty. -/
def Config.validate (c : Config) : Except ConfigFault Unit :=
  if (trim c.fallbackSelector.toList).isEmpty then .error .emptySelector
  else if c.renderer.program.isEmpty then .error .emptyProgram
  else .ok ()

end RasterFallback
