import RasterFallback.Css.Components

/-!
The urls that a property value mentions, at any depth of functions,
parentheses and square brackets.
-/
namespace RasterFallback
open RasterFallback.Text RasterFallback.Css

/-- The content of a string that stands alone but for space. -/
def soleString? (cs : Components) : Option String :=
  match cs.skipSpace with
  | .leaf l rest =>
    match l.token, rest.skipSpace with
    | .quotedString content, .nil _ => some content
    | _, _ => none
  | _ => none

/-- Whether a function is the url function. Case does not matter. -/
def isUrlName (name : String) : Bool := lowerAscii name.toList = ['u', 'r', 'l']

/-- The urls in their order. Broken ones, and all that stands in braces, are passed over. -/
def urlsOf : Components → List String
  | .nil _ => []
  | .leaf l rest =>
    match l.token with
    | .unquotedUrl url => url :: urlsOf rest
    | _ => urlsOf rest
  | .block opener inner _ rest =>
    match opener.token with
    | .opening .curly => urlsOf rest
    | .function name =>
      (if isUrlName name then (soleString? inner).toList else urlsOf inner) ++ urlsOf rest
    | _ => urlsOf inner ++ urlsOf rest

/-- The urls of a value, escapes resolved. -/
def urlArguments (value : String) : List String := urlsOf (Components.ofText value.toList)

end RasterFallback
