import RasterFallback.Config.Text
import RasterFallback.Conversion.Failure
import RasterFallback.Files.Tree

/-!
Settings that are kept in files.
-/
namespace RasterFallback
open RasterFallback.Files

/-- The settings of a text, if it could be read. -/
def Config.ofRead (text : Except SystemError String) : Except Failure Config := do
  (Config.parse (← text.mapError .io)).mapError .config

/-- Loads settings from a file. -/
def Config.load (files : Tree) (path : String) : Except Failure Config :=
  Config.ofRead (files.readText path)

end RasterFallback
