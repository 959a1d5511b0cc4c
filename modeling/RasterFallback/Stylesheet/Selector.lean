import RasterFallback.Stylesheet.Basic
import RasterFallback.Text.Blank

/-!
The selectors of a selector list: the pieces between commas that stand outside
brackets and quoted strings.
-/
namespace RasterFallback
open RasterFallback.Text

/-- What the characters before a place leave open there. -/
structure SelectorScan where
  /-- How many parentheses and square brackets are open. -/
  depth : Nat := 0
  /-- The quote mark of an open string, and whether a backslash stands before the place. -/
  quote : Option (Char × Bool) := none
  deriving DecidableEq, Repr

namespace SelectorScan

def outside : SelectorScan := ⟨0, none⟩

/-- The state behind the character `c`. A backslash counts inside strings only,
and a closing bracket without an opening one changes nothing. -/
def step (st : SelectorScan) (c : Char) : SelectorScan :=
  match st.quote with
  | some (q, escaped) =>
    if escaped then { st with quote := some (q, false) }
    else if c = '\\' then { st with quote := some (q, true) }
    else if c = q then { st with quote := none }
    else st
  | none =>
    if c = '\x22' || c = '\x27' then { st with quote := some (c, false) }
    else if c = '(' || c = '[' then { st with depth := st.depth + 1 }
    else if c = ')' || c = ']' then { st with depth := st.depth - 1 }
    else st

/-- The character ends a selector. -/
def cuts (st : SelectorScan) (c : Char) : Bool :=
  st.quote.isNone && st.depth == 0 && c == ','

def run (st : SelectorScan) (s : List Char) : SelectorScan := s.foldl step st

/-- Puts a character in front of the first piece. -/
def extend (c : Char) : List (List Char) → List (List Char)
  | [] => [[c]]
  | p :: ps => (c :: p) :: ps

/-- The pieces between the cuts. -/
def pieces (st : SelectorScan) : List Char → List (List Char)
  | [] => [[]]
  | c :: s => if st.cuts c then [] :: (st.step c).pieces s else extend c ((st.step c).pieces s)

@[simp] theorem run_nil (st : SelectorScan) : st.run [] = st := rfl

@[simp] theorem run_cons (st : SelectorScan) (c : Char) (s : List Char) :
    st.run (c :: s) = (st.step c).run s := rfl

end SelectorScan

/-- The trimmed selectors of a list, blank ones left out. -/
def splitSelectors (s : String) : List String :=
  ((SelectorScan.outside.pieces s.toList).map trim).filterMap fun p =>
    if p.isEmpty then none else some (String.ofList p)

def Rule.selectors (r : Rule) : List String := splitSelectors r.selector

end RasterFallback
