import RasterFallback.Stylesheet.Basic

/-!
The normal form in which stylesheets are written: one declaration a line, a tab
for each level, and every node on lines of its own.
-/
namespace RasterFallback

/-- A line of the normal form. What it quotes may hold line breaks of its own. -/
abbrev Line := List Char

/-- One tab for each level. -/
def indent (n : Nat) : Line := List.replicate n '\t'

/-- A declaration in a block at a level. -/
def Declaration.line (level : Nat) (d : Declaration) : Line :=
  indent (level + 1) ++ d.prop.toList ++ [':', ' '] ++ d.value.toList ++
    (if d.important then " !important".toList else []) ++ [';']

def blockLines (level : Nat) (head : Line) (inner : List Line) : List Line :=
  (indent level ++ head ++ [' ', '\x7b']) :: (inner ++ [indent level ++ ['\x7d']])

def AtHead.text (h : AtHead) : Line :=
  '@' :: h.name.toList ++ if h.params.isEmpty then [] else ' ' :: h.params.toList

mutual

def Node.lines (level : Nat) : Node → List Line
  | .comment content => [indent level ++ ['/', '*'] ++ content.toList ++ ['*', '/']]
  | .rule r => blockLines level r.selector.toList (r.declarations.map (Declaration.line level))
  | .statement h => [indent level ++ h.text ++ [';']]
  | .descriptors h ds => blockLines level h.text (ds.map (Declaration.line level))
  | .group h nodes => blockLines level h.text (nodesLines (level + 1) nodes)

/-- Nodes at a level, one after the other. -/
def nodesLines (level : Nat) : List Node → List Line
  | [] => []
  | n :: ns => n.lines level ++ nodesLines level ns

end

/-- The written form of a stylesheet, with a line break between each two lines. -/
def Stylesheet.text (s : Stylesheet) : String :=
  String.ofList (List.intercalate ['\n'] (nodesLines 0 s.nodes))

@[simp] theorem nodesLines_nil (level : Nat) : nodesLines level [] = [] := by
  simp [nodesLines]

@[simp] theorem nodesLines_cons (level : Nat) (n : Node) (ns : List Node) :
    nodesLines level (n :: ns) = n.lines level ++ nodesLines level ns := by
  simp [nodesLines]

theorem nodesLines_append (level : Nat) (ms ns : List Node) :
    nodesLines level (ms ++ ns) = nodesLines level ms ++ nodesLines level ns := by
  induction ms with
  | nil => simp
  | cons m ms ih => simp [ih]

end RasterFallback
