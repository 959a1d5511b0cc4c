import RasterFallback.Fallback.Rule

/-!
What is left to do for a rule that got a fallback, and the warnings that doing
it may raise.
-/
namespace RasterFallback
open RasterFallback.Text

def pluginName : String := "svg-fallback"

/-- One raster to make. -/
structure ConversionTask where
  descriptor : ImageDescriptor
  /-- Relative to the destination directory. -/
  imageName : String
  ruleSelector : String
  ruleSource : Option Position
  deriving DecidableEq, Repr

def ConversionTask.ofRule (r : Rule) (d : ImageDescriptor) (name : String) : ConversionTask :=
  ⟨d, name, r.selector, r.source⟩

/-- A problem that does not end the run, with the rule it arose from. -/
structure Warning where
  text : String
  selector : Option String := none
  source : Option Position := none
  deriving DecidableEq, Repr

/-- The position, the text and the selector of a warning. -/
def Warning.message (w : Warning) : String :=
  (match w.source with
    | some p => p.text ++ ": "
    | none => "") ++ w.text ++
  match w.selector with
  | some s => " (in `" ++ s ++ "`)"
  | none => ""

/-- A warning about the rule of a task. -/
def ConversionTask.warning (t : ConversionTask) (text : String) : Warning :=
  ⟨text, some t.ruleSelector, t.ruleSource⟩

end RasterFallback
