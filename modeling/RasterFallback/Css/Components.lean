import RasterFallback.Css.Lexeme

/-!
Component values: lexemes grouped by their brackets. A bracket is closed only
by its own counterpart; any other closing bracket inside is a lexeme like
others, and what is still open at the end of the text has no closing lexeme.
-/
namespace RasterFallback.Css
open RasterFallback.Text

/-- A sequence of single lexemes and bracketed blocks, ending at `stop`. -/
inductive Components where
  | nil (stop : Position)
  | leaf (l : Lexeme) (rest : Components)
  | block (opener : Lexeme) (inner : Components) (closer : Option Lexeme) (rest : Components)
  deriving DecidableEq

namespace Components

/-- The position of the first component, or of the end. -/
def start : Components → Position
  | nil stop => stop
  | leaf l _ => l.start
  | block opener _ _ _ => opener.start

def lexemes : Components → List Lexeme
  | nil _ => []
  | leaf l rest => l :: rest.lexemes
  | block opener inner closer rest =>
    opener :: (inner.lexemes ++ closer.toList ++ rest.lexemes)

/-- The text of all lexemes, with `behind` after it. -/
def textBefore : Components → List Char → List Char
  | nil _, behind => behind
  | leaf l rest, behind => l.text ++ rest.textBefore behind
  | block opener inner closer rest, behind =>
    opener.text ++ inner.textBefore (closer.toList.flatMap Lexeme.text ++ rest.textBefore behind)

def text (cs : Components) : List Char := cs.textBefore []

/-- How many components there are, at every depth. -/
def size : Components → Nat
  | nil _ => 0
  | leaf _ rest => rest.size + 1
  | block _ inner _ rest => inner.size + rest.size + 1

def blockText (opener : Lexeme) (inner : Components) (closer : Option Lexeme) : List Char :=
  opener.text ++ inner.text ++ (closer.toList.flatMap Lexeme.text)

/-- The components from the first that is neither blank nor comment. -/
def skipSpace : Components → Components
  | leaf l rest => if l.token.isSpace then rest.skipSpace else leaf l rest
  | cs => cs

/-- What follows an open bracket: the lexeme that closes it, and the components behind. -/
structure Tail where
  closer : Option Lexeme
  rest : Components

/-- Groups lexemes while the brackets `pending` are open, the innermost first. The
answer has the components of the innermost level and one tail for each open
bracket. -/
def group (stop : Position) : List Lexeme → List Bracket → Components × List Tail
  | [], pending => (nil stop, pending.map fun _ => ⟨none, nil stop⟩)
  | l :: ls, pending =>
    match l.token.opens? with
    | some b =>
      match group stop ls (b :: pending) with
      | (inner, tail :: outer) => (block l inner tail.closer tail.rest, outer)
      | (inner, []) => (block l inner none (nil stop), [])
    | none =>
      match pending with
      | [] =>
        let g := group stop ls []
        (leaf l g.1, g.2)
      | b :: pending =>
        if l.token.closes? = some b then
          let g := group stop ls pending
          (nil l.start, ⟨some l, g.1⟩ :: g.2)
        else
          let g := group stop ls (b :: pending)
          (leaf l g.1, g.2)

/-- The components of a text. -/
def ofText (s : List Char) : Components :=
  (group (Position.first.after s) (Css.lexemes Position.first s) []).1

@[simp] theorem skipSpace_nil (p : Position) : (nil p).skipSpace = nil p := rfl

theorem skipSpace_size (cs : Components) : cs.skipSpace.size ≤ cs.size := by
  induction cs with
  | nil => exact Nat.le_refl _
  | leaf l rest ih =>
    rw [skipSpace]
    split
    · exact Nat.le_succ_of_le ih
    · exact Nat.le_refl _
  | block => exact Nat.le_refl _

/-- The lexemes of a level and of all tails behind it. -/
def spread (g : Components × List Tail) : List Lexeme :=
  g.1.lexemes ++ g.2.flatMap fun t => t.closer.toList ++ t.rest.lexemes

theorem group_length (stop : Position) (ls : List Lexeme) (pending : List Bracket) :
    (group stop ls pending).2.length = pending.length := by
  fun_induction group stop ls pending with
  | case1 => simp
  | case2 l ls pending b _ inner tail outer h ih => simpa [h] using ih
  | case3 l ls pending b _ inner h ih => simp [h] at ih
  | case4 l ls _ g ih => simpa using ih
  | case5 l ls _ b pending _ g ih => simpa using ih
  | case6 l ls _ b pending _ g ih => simpa using ih

theorem spread_group (stop : Position) (ls : List Lexeme) (pending : List Bracket) :
    spread (group stop ls pending) = ls := by
  fun_induction group stop ls pending with
  | case1 pending => induction pending <;> simp_all [spread, lexemes]
  | case2 l ls pending b _ inner tail outer h ih =>
    simp [spread, h, lexemes] at ih ⊢
    exact ih
  | case3 l ls pending b _ inner h ih =>
    have := group_length stop ls (b :: pending)
    simp [h] at this
  | case4 l ls _ g ih => simp_all [spread, lexemes, g]
  | case5 l ls _ b pending _ g ih => simp_all [spread, lexemes, g]
  | case6 l ls _ b pending _ g ih => simp_all [spread, lexemes, g]

theorem lexemes_ofText (s : List Char) :
    (ofText s).lexemes = Css.lexemes Position.first s := by
  have h := spread_group (Position.first.after s) (Css.lexemes Position.first s) []
  have hl := group_length (Position.first.after s) (Css.lexemes Position.first s) []
  rw [List.length_nil, List.length_eq_zero_iff] at hl
  simpa [spread, hl, ofText] using h

theorem textBefore_eq (cs : Components) (behind : List Char) :
    cs.textBefore behind = cs.lexemes.flatMap Lexeme.text ++ behind := by
  induction cs generalizing behind with
  | nil stop => rfl
  | leaf l rest ih => simp [textBefore, lexemes, ih]
  | block opener inner closer rest ihi ihr =>
    simp [textBefore, lexemes, ihi, ihr, List.flatMap_append]

theorem text_eq (cs : Components) : cs.text = cs.lexemes.flatMap Lexeme.text := by
  rw [text, textBefore_eq, List.append_nil]

/-- The components of a text spell it. -/
@[simp] theorem text_ofText (s : List Char) : (ofText s).text = s := by
  rw [text_eq, lexemes_ofText, lexemes_text]

end Components

end RasterFallback.Css
