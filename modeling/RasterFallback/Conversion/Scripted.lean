import RasterFallback.Conversion.Renderer

/-!
A renderer that draws nothing and does as it is told, to try a conversion with.
-/
namespace RasterFallback
open RasterFallback.Files

/-- A job is refused with a text if its destination ends in the names of an
entry of `refusals`; the first such entry counts. Any other job leaves a file
that was last changed at `clock`, unless `writes` is false. -/
structure Script where
  refusals : List (String × String) := []
  writes : Bool := true
  clock : Nat := 0
  deriving DecidableEq, Repr

namespace Script

/-- The text that a job is refused with. -/
def refusal? (s : Script) (job : RenderJob) : Option String :=
  (s.refusals.find? fun r => endsWith job.dest r.1).map Prod.snd

def draw (s : Script) (job : RenderJob) (t : Tree) : Except SystemError Tree := do
  .ok ((← t.write job.dest []).touchFile job.dest s.clock)

def renderer (s : Script) : Renderer Unit := fun job _ t =>
  match s.refusal? job with
  | some text => ⟨.error (.render text), (), t, []⟩
  | none =>
    if s.writes then
      match s.draw job t with
      | .ok t => ⟨.ok (), (), t, []⟩
      | .error e => ⟨.error (.io e), (), t, []⟩
    else ⟨.ok (), (), t, []⟩

end Script

end RasterFallback
