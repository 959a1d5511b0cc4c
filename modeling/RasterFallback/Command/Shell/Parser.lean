import RasterFallback.Command.Shell.Lexer

/-!
From tokens to scripts.
-/
namespace RasterFallback.Command.Shell

/-- Why a script cannot be read, with the line. -/
inductive ScriptFault where
  | openQuote (line : Nat)
  /-- Nothing stands for the end of the script. -/
  | unexpected (line : Nat) (name : Option String)
  deriving DecidableEq, Repr

namespace ScriptFault

def line : ScriptFault → Nat
  | openQuote n => n
  | unexpected n _ => n

def message : ScriptFault → String
  | openQuote _ => "Syntax error: Unterminated quoted string"
  | unexpected _ (some "\n") => "Syntax error: newline unexpected"
  | unexpected _ (some name) => "Syntax error: \"" ++ name ++ "\" unexpected"
  | unexpected _ none => "Syntax error: end of file unexpected"

end ScriptFault

/-- How a token is named where it may not stand. -/
def Token.name : Token → String
  | .word _ => "word"
  | .redirection _ .read => "<"
  | .redirection _ .write => ">"
  | .redirection _ .append => ">>"
  | .redirection _ .share => ">&"
  | .operator name => name

structure Parsing where
  done : Script := []
  link : Link := .always
  open? : Option Simple := none
  deriving Repr

namespace Parsing

def add (p : Parsing) (line : Nat) (f : Simple → Simple) : Parsing :=
  { p with open? := some (f (p.open?.getD { line := line })) }

/-- Ends the open command. Without one, only another line or the end may follow. -/
def close (p : Parsing) (link : Link) : Option Parsing :=
  match p.open? with
  | some c => some ⟨p.done ++ [(p.link, c)], link, none⟩
  | none => none

end Parsing

def parseFrom (p : Parsing) : List (Nat × Token) → Except ScriptFault Parsing
  | [] => .ok p
  | (line, .word w) :: ts =>
    parseFrom (p.add line fun c => { c with words := c.words ++ [w] }) ts
  | (line, .redirection n d) :: (_, .word w) :: ts =>
    parseFrom (p.add line fun c => { c with redirections := c.redirections ++ [⟨n, d, w⟩] }) ts
  | (line, .redirection _ _) :: ts =>
    .error (.unexpected line ((ts.head?).map fun t => t.2.name))
  | (line, .operator name) :: ts =>
    let link? := match name with
      | "&&" => some Link.onSuccess
      | "||" => some Link.onFailure
      | ";" | "\n" => some Link.always
      | _ => none
    match link?.bind p.close with
    | some p => parseFrom p ts
    | none => if name = "\n" then parseFrom p ts else .error (.unexpected line (some name))

def Script.parse (text : List Char) : Except ScriptFault Script :=
  let last := 1 + text.count '\n'
  match tokens? text with
  | none => .error (.openQuote last)
  | some ts => do
    let p ← parseFrom {} ts
    match p.close .always with
    | some p => .ok p.done
    | none => if p.link = .always then .ok p.done else .error (.unexpected last none)

end RasterFallback.Command.Shell
