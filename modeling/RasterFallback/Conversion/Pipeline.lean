import RasterFallback.Conversion.Freshness
import RasterFallback.Fallback.Insertion
import RasterFallback.Conversion.Renderer
import RasterFallback.Stylesheet.Parser
import RasterFallback.Stylesheet.Printer

/-!
The conversion: tasks are done in their order, one at a time. A missing source
raises a warning; the first failure ends the run.
-/
namespace RasterFallback
open RasterFallback.Files

/-- How far a run has come. -/
structure Run (σ : Type) where
  files : Tree
  /-- What the renderer remembers. -/
  memory : σ
  warnings : List Warning := []
  /-- The jobs handed to the renderer. -/
  jobs : List RenderJob := []
  events : List Event := []

namespace Run

variable {σ : Type}

def log (run : Run σ) (e : Event) : Run σ := { run with events := run.events ++ [e] }

def warn (run : Run σ) (w : Warning) : Run σ :=
  { run.log (.warned w) with warnings := run.warnings ++ [w] }

def render (run : Run σ) (r : Renderer σ) (job : RenderJob) : Except Failure Unit × Run σ :=
  let done := r job run.memory run.files
  (done.result,
    { run with files := done.files, memory := done.memory, jobs := run.jobs ++ [job],
               events := run.events ++ done.events })

end Run

/-- The source of a task, the path of a file resolved. -/
def Config.source (c : Config) (t : Tree) : ImageSource → Except SystemError ImageSource
  | .file path => do
    let path ← t.resolvePath c.basePath path
    .ok (.file path)
  | .inline markup => .ok (.inline markup)

/-- The job of a task, its paths resolved: first that of the raster, then that of the source. -/
def Config.job (c : Config) (t : Tree) (task : ConversionTask) : Except SystemError RenderJob := do
  let dest ← t.resolvePath c.dest task.imageName
  let source ← c.source t task.descriptor.source
  .ok ⟨source, task.descriptor.size, dest⟩

/-- The text of the warning about a source that is missing. -/
def RenderJob.missingText (job : RenderJob) (task : ConversionTask) : String :=
  "could not find `" ++ task.descriptor.source.reference ++ "` at `" ++ job.source.reference ++ "`"

def runTask {σ : Type} (c : Config) (r : Renderer σ) (task : ConversionTask) (run : Run σ) :
    Except Failure Unit × Run σ :=
  match c.job run.files task with
  | .error e => (.error (.io e), run)
  | .ok job =>
    match freshness run.files job.source job.dest with
    | .error e => (.error (.io e), run)
    | .ok .missingSource => (.ok (), run.warn (task.warning (job.missingText task)))
    | .ok .upToDate => (.ok (), run.log (.upToDate job.dest))
    | .ok .render =>
      match (parent? job.dest).map run.files.createDirAll with
      | some (.error e, files) => (.error (.io e), { run with files := files })
      | some (.ok (), files) =>
        ({ run with files := files }.log (.rendering job.dest job.size)).render r job
      | none => (run.log (.rendering job.dest job.size)).render r job

def runTasks {σ : Type} (c : Config) (r : Renderer σ) :
    List ConversionTask → Run σ → Except Failure Unit × Run σ
  | [], run => (.ok (), run)
  | task :: tasks, run =>
    match runTask c r task run with
    | (.ok (), run) => runTasks c r tasks run
    | (.error e, run) => (.error e, run)

/-- Converts the images of tasks, unless the settings ask to leave that. -/
def convert {σ : Type} (c : Config) (r : Renderer σ) (tasks : List ConversionTask) (run : Run σ) :
    Except Failure Unit × Run σ :=
  if c.disableConvert then (.ok (), run.log (.skipped tasks.length)) else runTasks c r tasks run

/-- Adds fallbacks to a stylesheet and converts its images. The new stylesheet stands
even where the conversion fails. -/
def process {σ : Type} (c : Config) (r : Renderer σ) (s : Stylesheet) (run : Run σ) :
    Stylesheet × Except Failure Unit × Run σ :=
  let (sheet, tasks) := s.withFallbacks c.fallbackSelector
  (sheet, convert c r tasks (run.log (.inserted tasks.length)))

/-- Adds fallbacks to a stylesheet text and converts its images. Only if all succeeds there
is a new text. -/
def processText {σ : Type} (c : Config) (r : Renderer σ) (css : String) (run : Run σ) :
    Except Failure String × Run σ :=
  match Stylesheet.parse css with
  | .error e => (.error (.parse e), run)
  | .ok sheet =>
    let (sheet, result, run) := process c r sheet run
    (result.map fun () => sheet.text, run)

end RasterFallback
