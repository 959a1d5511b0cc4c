import RasterFallback.Conversion.Event
import RasterFallback.Conversion.Failure
import RasterFallback.Files.Tree

/-!
Renderers: what turns one drawing into one raster. All that the run knows of a
renderer is its answer and what it leaves in the file tree.
-/
namespace RasterFallback
open RasterFallback.Files

/-- One raster to render. The paths in it are resolved. -/
structure RenderJob where
  source : ImageSource
  size : Size
  dest : String
  deriving DecidableEq, Repr

/-- What a renderer leaves behind: its answer, what it remembers, and the files. -/
structure Rendered (σ : Type) where
  result : Except Failure Unit
  memory : σ
  files : Tree
  events : List Event := []

/-- A renderer that remembers a `σ` between its jobs. -/
abbrev Renderer (σ : Type) := RenderJob → σ → Tree → Rendered σ

end RasterFallback
