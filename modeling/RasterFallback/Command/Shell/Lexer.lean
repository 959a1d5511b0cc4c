import RasterFallback.Command.Shell.Script
import RasterFallback.Text.Digits

/-!
The tokens of a script. The script is read character by character; the mode
tells what the characters so far have opened.
-/
namespace RasterFallback.Command.Shell
open RasterFallback.Text

inductive Token where
  | word (w : Word)
  | redirection (channel : Nat) (direction : Direction)
  | operator (name : String)
  deriving DecidableEq, Repr

inductive Mode where
  | plain
  | single
  | double
  /-- Behind a backslash. -/
  | escape (quoted : Bool)
  /-- Behind a dollar sign. -/
  | dollar (quoted : Bool)
  /-- Inside braces behind a dollar sign. -/
  | braced (quoted : Bool) (name : List Char)
  /-- Inside a name behind a dollar sign. -/
  | name (quoted : Bool)
  /-- Behind the first character of an operator. -/
  | operator (c : Char)
  | comment
  deriving DecidableEq, Repr

/-- `tokens` have their lines; the last comes first. `bare` holds as long as no
part of the open word is quoted. -/
structure Lexing where
  tokens : List (Nat × Token) := []
  word : Option Word := none
  bare : Bool := true
  mode : Mode := .plain
  line : Nat := 1
  deriving DecidableEq, Repr

namespace Lexing

def emit (l : Lexing) (t : Token) : Lexing := { l with tokens := (l.line, t) :: l.tokens }

/-- Adds a piece to the open word, or opens one. -/
def push (l : Lexing) (p : Piece) : Lexing := { l with word := some (l.word.getD [] ++ [p]) }

def letter (l : Lexing) (c : Char) : Lexing := l.push (.text [c])

def close (l : Lexing) : Lexing :=
  match l.word with
  | some w => { l.emit (.word w) with word := none, bare := true }
  | none => { l with bare := true }

/-- The number that an open word of bare digits is. -/
def channel? (l : Lexing) : Option Nat := do
  let w ← l.word
  let ds := w.flatMap fun | .text s => s | .value _ _ => ['$']
  if l.bare && ds.all Char.isDigit then some (natOfDigits ds) else none

/-- A redirection. Bare digits right before it name the channel. -/
def redirect (l : Lexing) (standard : Nat) (d : Direction) : Lexing :=
  match l.channel? with
  | some n => { l with word := none }.emit (.redirection n d)
  | none => l.close.emit (.redirection standard d)

def parameter (c : Char) : Parameter :=
  if c.isDigit then .argument (c.toNat - '0'.toNat)
  else if c = '@' then .all
  else if c = '*' then .joined
  else if c = '#' then .count
  else if c = '?' then .status
  else if c = '$' then .process
  else .unset

def parameterNamed (name : List Char) : Parameter :=
  match name with
  | [c] => parameter c
  | cs => if cs.all Char.isDigit then .argument (natOfDigits cs) else .unset

def isNameStart (c : Char) : Bool := c.isAlpha || c == '_'

def quotedMode (quoted : Bool) : Mode := if quoted then .double else .plain

def plainStep (l : Lexing) (c : Char) : Lexing :=
  let l := { l with mode := .plain }
  match c with
  | ' ' | '\t' => l.close
  | '\n' =>
    let l := l.close.emit (.operator "\n")
    { l with line := l.line + 1 }
  | '\x27' => { l.push (.text []) with mode := .single, bare := false }
  | '\x22' => { l.push (.text []) with mode := .double, bare := false }
  | '\\' => { l with mode := .escape false, bare := false }
  | '$' => { l with mode := .dollar false }
  | '#' => if l.word.isNone then { l with mode := .comment } else l.letter c
  | '&' | '|' | '>' => { l with mode := .operator c }
  | '<' => l.redirect 0 .read
  | ';' => l.close.emit (.operator ";")
  | '(' => l.close.emit (.operator "(")
  | ')' => l.close.emit (.operator ")")
  | c => l.letter c

def doubleStep (l : Lexing) (c : Char) : Lexing :=
  let l := { l with mode := .double }
  match c with
  | '\x22' => { l with mode := .plain }
  | '\\' => { l with mode := .escape true }
  | '$' => { l with mode := .dollar true }
  | '\n' => { l.letter c with line := l.line + 1 }
  | c => l.letter c

def resume (l : Lexing) (quoted : Bool) (c : Char) : Lexing :=
  if quoted then l.doubleStep c else l.plainStep c

/-- The operator that ends before `c`, or with it. -/
def operatorStep (l : Lexing) (first c : Char) : Lexing :=
  match first, c with
  | '&', '&' => { l.close.emit (.operator "&&") with mode := .plain }
  | '|', '|' => { l.close.emit (.operator "||") with mode := .plain }
  | '>', '>' => { l.redirect 1 .append with mode := .plain }
  | '>', '&' => { l.redirect 1 .share with mode := .plain }
  | '>', c => (l.redirect 1 .write).plainStep c
  | first, c => (l.close.emit (.operator (String.singleton first))).plainStep c

def step (l : Lexing) (c : Char) : Lexing :=
  match l.mode with
  | .plain => l.plainStep c
  | .double => l.doubleStep c
  | .single =>
    if c = '\x27' then { l with mode := .plain }
    else if c = '\n' then { l.letter c with line := l.line + 1 }
    else l.letter c
  | .escape false =>
    if c = '\n' then { l with mode := .plain, line := l.line + 1 }
    else { l.letter c with mode := .plain }
  | .escape true =>
    let l := { l with mode := .double }
    if c = '\n' then { l with line := l.line + 1 }
    else if c = '$' || c = '\x60' || c = '\x22' || c = '\\' then l.letter c
    else (l.letter '\\').letter c
  | .dollar quoted =>
    if c = '\x7b' then { l with mode := .braced quoted [] }
    else if isNameStart c then { l.push (.value .unset quoted) with mode := .name quoted }
    else if c.isDigit || ['@', '*', '#', '?', '$', '!', '-'].contains c then
      { l.push (.value (parameter c) quoted) with mode := quotedMode quoted }
    else (l.letter '$').resume quoted c
  | .braced quoted name =>
    if c = '\x7d' then
      { l.push (.value (parameterNamed name) quoted) with mode := quotedMode quoted }
    else { l with mode := .braced quoted (name ++ [c]) }
  | .name quoted => if isNameStart c || c.isDigit then l else l.resume quoted c
  | .operator first => l.operatorStep first c
  | .comment => if c = '\n' then l.plainStep c else l

/-- The tokens with their lines, unless a quote is open at the end. -/
def finish (l : Lexing) : Option (List (Nat × Token)) :=
  match l.mode with
  | .single | .double | .escape true | .dollar true | .name true | .braced .. => none
  | .escape false => some (l.letter '\\').close.tokens.reverse
  | .dollar false => some (l.letter '$').close.tokens.reverse
  | .operator '>' => some (l.redirect 1 .write).tokens.reverse
  | .operator c => some (l.close.emit (.operator (String.singleton c))).tokens.reverse
  | .plain | .name false | .comment => some l.close.tokens.reverse

end Lexing

/-- The tokens of a script, unless a quote is open at its end. -/
def tokens? (script : List Char) : Option (List (Nat × Token)) :=
  (script.foldl Lexing.step {}).finish

end RasterFallback.Command.Shell
