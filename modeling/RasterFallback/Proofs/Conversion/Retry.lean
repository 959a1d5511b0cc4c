import RasterFallback.Proofs.Conversion.Stability

/-!
What a failure of the renderer leaves. The run ends with the files as the renderer left them,
and the next conversion goes by these alone: a raster is tried again exactly if it is stale.
-/
namespace RasterFallback
open RasterFallback.Text RasterFallback.Files RasterFallback.Files.Tree

section Turns

variable {σ : Type} {c : Config} {r : Renderer σ} {t : Turn σ}

end Turns

section Conversion

variable {σ : Type} {c : Config} {r : Renderer σ} {tasks : List ConversionTask} {run : Run σ}

end Conversion

end RasterFallback
