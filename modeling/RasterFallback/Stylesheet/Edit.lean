import RasterFallback.Stylesheet.Basic

/-!
Changes at one place of a stylesheet. A path leads through groups to a list of
nodes; where it leads nowhere, nothing changes.
-/
namespace RasterFallback

/-- Changes the list of nodes at a path. -/
def editAt (f : List Node → List Node) : List Nat → List Node → List Node
  | [], nodes => f nodes
  | i :: path, nodes => nodes.modify i fun
    | .group h inner => .group h (editAt f path inner)
    | n => n

/-- Puts a node at an index, or at the end if there are fewer nodes. -/
def insertNode (i : Nat) (n : Node) (nodes : List Node) : List Node :=
  nodes.take i ++ n :: nodes.drop i

/-- Adds a declaration at the end of the rule at an index. -/
def appendDeclaration (i : Nat) (d : Declaration) (nodes : List Node) : List Node :=
  nodes.modify i fun
    | .rule r => .rule { r with declarations := r.declarations ++ [d] }
    | n => n

/-- Changes the list of nodes at a path of a stylesheet. -/
def Stylesheet.edit (f : List Node → List Node) (path : List Nat) (s : Stylesheet) : Stylesheet :=
  ⟨editAt f path s.nodes⟩

end RasterFallback
