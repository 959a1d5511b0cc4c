import RasterFallback.Text.Position

/-!
Stylesheet trees: rules with declarations, comments, and at-rules that have no
block, a block of declarations, or a block of further nodes.
-/
namespace RasterFallback
open RasterFallback.Text

/-- A property with its value. The source is where it was read. -/
structure Declaration where
  prop : String
  value : String
  important : Bool := false
  source : Option Position := none
  deriving DecidableEq, Repr

/-- A selector list with its declarations in order. -/
structure Rule where
  selector : String
  declarations : List Declaration := []
  source : Option Position := none
  deriving DecidableEq, Repr

structure AtHead where
  name : String
  params : String
  source : Option Position := none
  deriving DecidableEq, Repr

inductive Node where
  | rule (r : Rule)
  | comment (content : String)
  /-- An at-rule that ends without a block. -/
  | statement (head : AtHead)
  /-- An at-rule with a block of declarations. -/
  | descriptors (head : AtHead) (declarations : List Declaration)
  /-- An at-rule with a block of nodes. -/
  | group (head : AtHead) (nodes : List Node)
  deriving Repr

structure Stylesheet where
  nodes : List Node
  deriving Repr

mutual

/-- The rules at and below a node, in document order. -/
def Node.rules : Node → List Rule
  | .rule r => [r]
  | .group _ nodes => rulesOf nodes
  | .comment _ => []
  | .statement _ => []
  | .descriptors _ _ => []

/-- The rules at every depth of a list of nodes, in document order. -/
def rulesOf : List Node → List Rule
  | [] => []
  | n :: ns => n.rules ++ rulesOf ns

end

/-- All rules in document order. -/
def Stylesheet.rules (s : Stylesheet) : List Rule := rulesOf s.nodes

@[simp] theorem rulesOf_append (a b : List Node) : rulesOf (a ++ b) = rulesOf a ++ rulesOf b := by
  induction a with
  | nil => rfl
  | cons n ns ih => simp [rulesOf, ih]

end RasterFallback
