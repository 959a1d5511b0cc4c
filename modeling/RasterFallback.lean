import RasterFallback.Command.Recorded
import RasterFallback.CommandLine.Demo
import RasterFallback.Conversion.Scripted
import RasterFallback.Main
import RasterFallback.Proofs.Config.Loading
import RasterFallback.Proofs.Conversion.Course
import RasterFallback.Proofs.Conversion.Destination
import RasterFallback.Proofs.Conversion.Once
import RasterFallback.Proofs.Conversion.Retry
import RasterFallback.Proofs.Conversion.Stability
import RasterFallback.Proofs.Fallback.RasterName
import RasterFallback.Proofs.Fallback.Rerun
import RasterFallback.Proofs.Fallback.Selectors
import RasterFallback.Proofs.Image.DataUrl
import RasterFallback.Proofs.Image.Layers
import RasterFallback.Proofs.Image.Size
import RasterFallback.Proofs.Stylesheet.FaultPlace
import RasterFallback.Proofs.Stylesheet.Reprinting
import RasterFallback.Proofs.Stylesheet.SelectorTokens
import RasterFallback.Proofs.Stylesheet.Sources
import RasterFallback.Proofs.Stylesheet.Unread
import RasterFallback.Proofs.Text.Encodings
import RasterFallback.Stylesheet.Edit
