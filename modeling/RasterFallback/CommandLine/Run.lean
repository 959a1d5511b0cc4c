import RasterFallback.CommandLine.Options
import RasterFallback.CommandLine.Report
import RasterFallback.Config.Load
import RasterFallback.Conversion.CommandRenderer
import RasterFallback.Conversion.Pipeline

/-!
The program: reads a stylesheet, adds fallbacks, renders rasters, and writes the
result.
-/
namespace RasterFallback.CommandLine
open RasterFallback.Text RasterFallback.Files

/-- What a run leaves. -/
structure Outcome where
  code : Nat
  stdout : String := ""
  stderr : String := ""
  files : Tree

/-- What a run is given. -/
structure World where
  stdin : List UInt8 := []
  files : Tree
  /-- Starts renderers. -/
  launch : Command.Launcher Unit

def version : String := "0.1.0"

def usage : String := "Usage: " ++ pluginName ++ " [OPTIONS] <INPUT>\n"

def Options.readsInput (o : Options) (t : Tree) : Bool :=
  o.input = "-" || (o.input :: o.config.toList).any fun path => t.device? path = some .stdin

/-- The text of the standard input, of which then nothing is left. -/
def World.takeInput (w : World) : Except SystemError String × World :=
  (match ofUtf8? w.stdin with
    | some text => .ok text
    | none => .error .invalidText,
    { w with stdin := [] })

/-- The text that a path leads to. The standard input has a device. -/
def World.readText (w : World) (path : String) : Except SystemError String × World :=
  if w.files.device? path = some .stdin then w.takeInput else (w.files.readText path, w)

/-- The settings that a path leads to. -/
def World.load (w : World) (path : String) : Except Failure Config × World :=
  if w.files.device? path = some .stdin then
    let (text, w) := w.takeInput
    (Config.ofRead text, w)
  else (Config.load w.files path, w)

def Options.settings (o : Options) (w : World) : Except Report Config × World :=
  match o.config with
  | none => (.ok (o.apply {}), w)
  | some path =>
    let (loaded, w) := w.load path
    ((loaded.mapError (.because ("failed to load config " ++ path))).map o.apply, w)

def Options.stylesheet (o : Options) (w : World) : Except Report String :=
  if o.input = "-" then w.takeInput.1.mapError (.becauseOf "failed to read stdin")
  else (w.readText o.input).1.mapError (.becauseOf ("failed to read " ++ o.input))

/-- The settings and the stylesheet of a run, all checked. What the settings are read from
is not read again. -/
def Options.prepare (o : Options) (w : World) : Except Report (Config × Stylesheet) := do
  let (settings, w) := o.settings w
  let c ← settings
  c.validate.mapError fun fault => .ofFailure (.config fault)
  let css ← o.stylesheet w
  let sheet ← (Stylesheet.parse css).mapError fun e =>
    .because ("failed to parse " ++ o.input) (.parse e)
  .ok (c, sheet)

/-- Writes the result, or prints it where a device leads to a channel. `warnings` are
printed before. -/
def Options.deliver (o : Options) (warnings css : String) (t : Tree) : Outcome :=
  match o.output with
  | none => ⟨0, css, warnings, t⟩
  | some path =>
    match t.device? path, t.write path (utf8Bytes css.toList) with
    | some .stdout, _ => ⟨0, css, warnings, t⟩
    | some .stderr, _ => ⟨0, "", warnings ++ css, t⟩
    | _, .ok t => ⟨0, "", warnings, t⟩
    | _, .error e => ⟨1, "", warnings ++ (Report.becauseOf ("failed to write " ++ path) e).text, t⟩

def Options.warningLines (o : Options) (warnings : List Warning) : String :=
  String.join (warnings.map fun w => o.input ++ ": warning: " ++ w.message ++ "\n")

/-- Runs with options. Warnings come out also where the conversion fails. -/
def Options.run (o : Options) (w : World) : Outcome :=
  match o.prepare w with
  | .error report => ⟨1, "", report.text, w.files⟩
  | .ok (c, sheet) =>
    let (sheet, result, run) :=
      process c (c.renderer.renderer w.launch) sheet { files := w.files, memory := () }
    let warnings := o.warningLines run.warnings
    match result with
    | .error e =>
      ⟨1, "", warnings ++ (Report.because "image conversion failed" e).text, run.files⟩
    | .ok () => o.deliver warnings (sheet.text ++ "\n") run.files

def run (args : List String) (w : World) : Outcome :=
  match Request.ofArgs args with
  | .error fault => ⟨2, "", "error: " ++ fault.message ++ "\n\n" ++ usage, w.files⟩
  | .ok .version => ⟨0, pluginName ++ " " ++ version ++ "\n", "", w.files⟩
  | .ok .help => ⟨0, usage, "", w.files⟩
  | .ok (.run o) => o.run w

end RasterFallback.CommandLine
