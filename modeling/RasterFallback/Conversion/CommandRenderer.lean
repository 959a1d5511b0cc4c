import RasterFallback.Command.Launch
import RasterFallback.Conversion.Renderer

/-!
Renderers that are programs. A program is run once for each job, with the
source, the size and the destination behind its own arguments. Only silence
and the code zero count as success.
-/
namespace RasterFallback
open RasterFallback.Text RasterFallback.Files

def ImageSource.argument : ImageSource → String
  | .file path => path
  | .inline markup => dataUrl markup

def RendererConfig.command (c : RendererConfig) (job : RenderJob) : Command :=
  { program := c.program,
    args := c.args ++ [job.source.argument, toString job.size.width, toString job.size.height,
      job.dest] }

namespace Command

/-- Printed bytes as text without blanks around it. -/
def printed (bytes : List UInt8) : String := String.ofList (trim (lenient bytes))

/-- What a program printed, its standard output first, if it is not blank. -/
def Output.complaint? (o : Output) : Option String :=
  [printed o.stdout, printed o.stderr].find? fun s => !s.isEmpty

/-- Passes an output that is silent and successful. What was printed comes
before how the program ended. -/
def Output.check (o : Output) : Except Failure Unit :=
  match o.complaint? with
  | some text => .error (.render text)
  | none =>
    if o.status.success then .ok ()
    else .error (.render ("renderer exited with " ++ o.status.text))

end Command

/-- The text for a program that did not start. -/
def RendererConfig.launchText (c : RendererConfig) (fault : Command.LaunchFault) : String :=
  "Failed to run renderer `" ++ c.program ++ "`: " ++ fault.message

/-- Runs the program of the settings for every job. -/
def RendererConfig.renderer {σ : Type} (c : RendererConfig) (launch : Command.Launcher σ) :
    Renderer σ := fun job memory t =>
  let (answer, memory, t) := (c.command job).run launch memory t
  ⟨match answer with
    | .ok output => output.check
    | .error fault => .error (.render (c.launchText fault)),
    memory, t, [.running c.program job.dest job.size]⟩

end RasterFallback
