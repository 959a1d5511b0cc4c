/-!
Positions in a text: the line, and the column in UTF-16 code units, both from
one. A line break is a line feed, a form feed, or a carriage return with the
line feed after it.
-/
namespace RasterFallback.Text

structure Position where
  line : Nat
  column : Nat
  deriving DecidableEq, Repr, Inhabited

namespace Position

/-- The position of the first character of a text. -/
def first : Position := ⟨1, 1⟩

def newline (p : Position) : Position := ⟨p.line + 1, 1⟩

/-- The position after one character that is no line break. -/
def forward (p : Position) (c : Char) : Position :=
  ⟨p.line, p.column + if c.toNat < 0x10000 then 1 else 2⟩

/-- The position after a text that starts at `p`. -/
def after (p : Position) : List Char → Position
  | '\r' :: '\n' :: s => p.newline.after s
  | '\r' :: s => p.newline.after s
  | '\n' :: s => p.newline.after s
  | '\x0c' :: s => p.newline.after s
  | c :: s => (p.forward c).after s
  | [] => p

/-- A line and a column with a colon between them. -/
def text (p : Position) : String := toString p.line ++ ":" ++ toString p.column

@[simp] theorem after_nil (p : Position) : p.after [] = p := rfl

end Position

end RasterFallback.Text
