import RasterFallback.Conversion.Task

/-!
What a run writes into its log.
-/
namespace RasterFallback

inductive Event where
  /-- So many rules have a fallback now. -/
  | inserted (count : Nat)
  | warned (w : Warning)
  /-- So many tasks were left undone, as the settings ask. -/
  | skipped (count : Nat)
  | upToDate (dest : String)
  | rendering (dest : String) (size : Size)
  | running (program dest : String) (size : Size)
  deriving DecidableEq, Repr

/-- Width and height with a cross between them. -/
def Size.text (s : Size) : String := toString s.width ++ "x" ++ toString s.height

/-- The line of an event, its level first. -/
def Event.text : Event → String
  | inserted count => "DEBUG " ++ toString count ++ " fallback rule(s) added"
  | warned w => "DEBUG warning: " ++ w.message
  | skipped count => "DEBUG conversion disabled, skipping " ++ toString count ++ " task(s)"
  | upToDate dest => "DEBUG " ++ dest ++ " is up to date"
  | rendering dest size => "INFO rendering " ++ dest ++ " at " ++ size.text
  | running program dest size =>
    "DEBUG running " ++ program ++ " for " ++ dest ++ " (" ++ size.text ++ ")"

end RasterFallback
