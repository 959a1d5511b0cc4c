import RasterFallback.Command.Launch

/-!
A launcher that runs nothing: it writes commands down and gives one and the
same answer to all of them.
-/
namespace RasterFallback.Command

/-- Answers `output` to every command and remembers the commands in their order. -/
def recorded (output : Output) : Launcher (List Command) := fun c seen t =>
  (.ok output, seen ++ [c], t)

end RasterFallback.Command
