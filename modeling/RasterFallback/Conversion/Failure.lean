import RasterFallback.Config.Basic
import RasterFallback.Files.SystemError
import RasterFallback.Stylesheet.ParseError

/-!
What ends a run.
-/
namespace RasterFallback
open RasterFallback.Text RasterFallback.Files

inductive Failure where
  | parse (e : ParseError)
  /-- What the renderer said. -/
  | render (text : String)
  | io (e : SystemError)
  | config (fault : ConfigFault)
  deriving DecidableEq

/-- The wording of a failure. What the renderer said is shown as it is. -/
def Failure.message : Failure → String
  | parse e => e.message
  | render text => text
  | io e => "I/O error: " ++ e.message
  | config fault => "Invalid configuration: " ++ fault.message

def systemRecord (e : SystemError) : String :=
  match e.report? with
  | some (code, kind, text) =>
    Css.record "Os" [("code", toString code), ("kind", kind), ("message", quotedText text)]
  | none =>
    Css.record "Error" [("kind", e.notice.1), ("message", quotedText e.notice.2)]

def Failure.record : Failure → String
  | parse e =>
    Css.record "Parse" [("line", toString e.position.line), ("column", toString e.position.column),
      ("message", quotedText e.fault.message)]
  | render text => Css.applied "Render" (quotedText text)
  | io e => Css.applied "Io" (systemRecord e)
  | config fault => Css.applied "Config" (quotedText fault.message)

end RasterFallback
