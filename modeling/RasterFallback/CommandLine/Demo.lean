import RasterFallback.CommandLine.Run

/-!
A demonstration: adds the fallback to a small stylesheet and renders its one drawing with
the program that the arguments name.
-/
namespace RasterFallback.CommandLine.Demo
open RasterFallback.Files

def stylesheet : String :=
  ".icon \x7b\n\tbackground: url(images/email.svg) no-repeat;\n\tbackground-size: 20px 20px;\n\x7d"

def settings (r : RendererConfig) : Config :=
  { basePath := "demos/assets", dest := "target/demo-out", renderer := r }

/-- The renderer that the arguments name, or the default one. -/
def rendererOf : List String → RendererConfig
  | [] => {}
  | program :: args => ⟨program, args⟩

def convertSample (c : Config) (w : World) : Except Failure String × Run Unit :=
  let start : Run Unit := { files := w.files, memory := () }
  match c.validate with
  | .error fault => (.error (.config fault), start)
  | .ok () => processText c (c.renderer.renderer w.launch) stylesheet start

def run (args : List String) (w : World) : Outcome :=
  let c := settings (rendererOf args)
  let opening := "Rendering into " ++ c.dest ++ " with " ++ c.renderer.program ++ "\n"
  match convertSample c w with
  | (.error e, run) => ⟨1, opening, "Error: " ++ e.record ++ "\n", run.files⟩
  | (.ok css, run) =>
    ⟨0, opening ++ String.join (run.warnings.map fun v => "warning: " ++ v.message ++ "\n") ++
      css ++ "\n", "", run.files⟩

end RasterFallback.CommandLine.Demo
