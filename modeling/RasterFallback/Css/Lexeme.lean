import RasterFallback.Css.Lexer
import RasterFallback.Text.Position

/-!
A text as the sequence of its tokens, each with the piece of text it was read
from and the position where that piece starts. The pieces make up the text.
-/
namespace RasterFallback.Css
open RasterFallback.Text

structure Lexeme where
  token : Token
  text : List Char
  start : Position
  deriving DecidableEq

def Lexeme.stop (l : Lexeme) : Position := l.start.after l.text

/-- The lexemes of a text that starts at `p`. -/
def lexemes (p : Position) (s : List Char) : List Lexeme :=
  match s with
  | [] => []
  | c :: s =>
    let read := Token.read c s
    let piece := c :: consumed s read.2
    ⟨read.1, piece, p⟩ :: lexemes (p.after piece) read.2
  termination_by s.length
  decreasing_by have := (Token.read_suffix c s).length_le; simp; omega

/-- Nothing is lost between the lexemes. -/
theorem lexemes_text (p : Position) (s : List Char) :
    (lexemes p s).flatMap Lexeme.text = s := by
  fun_induction lexemes p s with
  | case1 => rfl
  | case2 p c s read piece ih =>
    rw [List.flatMap_cons, ih]
    exact congrArg (c :: ·) (consumed_append (Token.read_suffix c s))

end RasterFallback.Css
