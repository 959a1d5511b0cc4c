import RasterFallback.Files.Tree
import RasterFallback.Image.Source

/-!
Whether a raster has to be rendered. A raster is current if it is not older
than the file it was made from; for markup it is enough that it exists.
-/
namespace RasterFallback
open RasterFallback.Files

inductive Freshness where
  /-- The raster is missing or older than its source. -/
  | render
  | upToDate
  | missingSource
  deriving DecidableEq, Repr

/-- The entry at a path, or nothing if there is none. -/
def Files.Tree.stat? (t : Tree) (path : String) : Except SystemError (Option Entry) :=
  match t.stat path with
  | .ok e => .ok (some e)
  | .error .notFound => .ok none
  | .error e => .error e

/-- Compares the raster at `dest` with its source. -/
def freshness (t : Tree) (source : ImageSource) (dest : String) : Except SystemError Freshness :=
  match source with
  | .file path => do
    match ← t.stat? path with
    | none => .ok .missingSource
    | some src =>
      match ← t.stat? dest with
      | none => .ok .render
      | some raster => .ok (if raster.modified < src.modified then .render else .upToDate)
  | .inline _ => do
    match ← t.stat? dest with
    | none => .ok .render
    | some _ => .ok .upToDate

end RasterFallback
