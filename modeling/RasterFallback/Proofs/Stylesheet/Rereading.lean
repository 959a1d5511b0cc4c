import RasterFallback.Proofs.Stylesheet.Spelling

/-!
Reading a stylesheet that was written. Line breaks and tabs between its parts are read
as nothing, so if its heads are readable, its declarations alone decide whether it is
read back.
-/
namespace RasterFallback
open RasterFallback.Text RasterFallback.Css RasterFallback.Css.Components

/-- Lines, each with a line break before it. -/
def brokenLines (ls : List Line) : List Char := ls.flatMap ('\n' :: ·)

theorem brokenLines_append (ls ms : List Line) :
    brokenLines (ls ++ ms) = brokenLines ls ++ brokenLines ms := List.flatMap_append

theorem brokenLines_singleton (l : Line) : brokenLines [l] = '\n' :: l := by simp [brokenLines]

theorem intercalate_brokenLines (ls : List Line) :
    '\n' :: List.intercalate ['\n'] ls = brokenLines ls ∨ ls = [] := by
  induction ls with
  | nil => exact .inr rfl
  | cons l ls ih =>
    refine .inl ?_
    cases ls with
    | nil => simp [brokenLines]
    | cons m ls =>
      have h := ih.resolve_right (List.cons_ne_nil _ _)
      simp only [brokenLines, List.flatMap_cons] at h ⊢
      rw [← h]
      simp [List.intercalate]

section Blanks

variable {α : Type} {read : Components → Option (List α)}
  (hread : ∀ (content : String) (text : List Char) (rest : Components),
    read (leaf ⟨.whitespace content, text, .first⟩ rest) = read rest)
include hread

theorem readsAs_indent (level : Nat) : ReadsAs read (indent level) (some []) := by
  induction level with
  | zero => exact ReadsAs.nil
  | succ level ih =>
    exact joined_nil (some ([] : List α)) ▸ (ReadsAs.blank hread (c := '\t') rfl).append ih

/-- A line break and indentation make no difference. -/
theorem ReadsAs.onLine {s : List Char} {a : Option (List α)} (h : ReadsAs read s a)
    (level : Nat) : ReadsAs read ('\n' :: (indent level ++ s)) a :=
  joined_nil a ▸ (ReadsAs.blank hread (c := '\n') rfl).append
    (joined_nil a ▸ (readsAs_indent hread level).append h)

end Blanks

/-- A reading that there is only where `b` holds. -/
def onlyIf {α : Type} (b : Bool) (a : α) : Option α := if b then some a else none

theorem joined_onlyIf {α : Type} (b c : Bool) (x y : List α) :
    joined (onlyIf b x) (onlyIf c y) = onlyIf (b && c) (x ++ y) := by
  cases b <;> cases c <;> rfl

theorem joined_end {α : Type} (a : Option (List α)) : joined a (some []) = a := by
  cases a <;> simp [joined]

theorem map_onlyIf {α β : Type} (b : Bool) (a : α) (f : α → β) :
    (onlyIf b a).map f = onlyIf b (f a) := by
  cases b <;> rfl

/-- A declaration is read as itself if it is `sound`, and not at all otherwise. -/
def ReadsIfSound (sound : Declaration → Bool) (d : Declaration) : Prop :=
  ReadsAs declarations? d.text (onlyIf (sound d) [d.unplaced])

variable {sound : Declaration → Bool}

theorem readsAs_declarations (level : Nat) {ds : List Declaration}
    (h : ∀ d ∈ ds, ReadsIfSound sound d) :
    ReadsAs declarations? (brokenLines (ds.map (Declaration.line level)))
      (onlyIf (ds.all sound) (ds.map Declaration.unplaced)) := by
  induction ds with
  | nil => exact ReadsAs.nil
  | cons d ds ih =>
    have hline : Declaration.line level d = indent (level + 1) ++ d.text := by
      simp only [Declaration.line, Declaration.text, Declaration.tail, List.append_assoc,
        List.cons_append, List.nil_append]
    have hfirst := (h d (List.mem_cons_self ..)).onLine declarations?_whitespace (level + 1)
    have hmore := ih fun e he => h e (List.mem_cons_of_mem _ he)
    have hboth := hfirst.append hmore
    rw [joined_onlyIf, ← hline] at hboth
    exact hboth

theorem brokenLines_blockLines (level : Nat) (head : Line) (inner : List Line) :
    brokenLines (blockLines level head inner) = '\n' :: (indent level ++ (head ++ [' ', '\x7b'] ++
      (brokenLines inner ++ '\n' :: (indent level ++ [])) ++ ['\x7d'])) := by
  simp [blockLines, brokenLines]

mutual

theorem readsAs_node (level : Nat) : ∀ n : Node, n.headsReadable →
    (∀ d ∈ n.declarations, ReadsIfSound sound d) →
    ReadsAs nodes? (brokenLines (n.lines level)) (onlyIf (n.declarations.all sound) [n.unplaced])
  | .comment content, hheads, _ => by
    have h := (readsAs_comment hheads).onLine nodes?_whitespace level
    rw [Node.lines, brokenLines_singleton, List.append_assoc, List.append_assoc]
    exact h
  | .statement head, hheads, _ => by
    have h := (readsAs_statement hheads).onLine nodes?_whitespace level
    rw [Node.lines, brokenLines_singleton, List.append_assoc]
    exact h
  | .rule r, hheads, hds => by
    have hbody := (readsAs_declarations level hds).append
      (ReadsAs.nil.onLine declarations?_whitespace level)
    rw [joined_end] at hbody
    have h := (readsAs_rule hheads hbody).onLine nodes?_whitespace level
    rw [map_onlyIf] at h
    rw [Node.lines, brokenLines_blockLines]
    exact h
  | .descriptors head ds, hheads, hds => by
    simp only [Node.headsReadable, Bool.and_eq_true, Bool.not_eq_true'] at hheads
    have hbody := (readsAs_declarations level hds).append
      (ReadsAs.nil.onLine declarations?_whitespace level)
    rw [joined_end] at hbody
    have h := (readsAs_descriptors hheads.2 hheads.1 hbody).onLine nodes?_whitespace level
    rw [map_onlyIf] at h
    rw [Node.lines, brokenLines_blockLines]
    exact h
  | .group head nodes, hheads, hds => by
    simp only [Node.headsReadable, Bool.and_eq_true] at hheads
    have hbody := (readsAs_nodes (level + 1) nodes hheads.2 hds).append
      (ReadsAs.nil.onLine nodes?_whitespace level)
    rw [joined_end] at hbody
    have h := (readsAs_group hheads.1.2 hheads.1.1 hbody).onLine nodes?_whitespace level
    rw [map_onlyIf] at h
    rw [Node.lines, brokenLines_blockLines]
    exact h

/-- Nodes with readable heads are read as themselves if their declarations are sound, and not at
all otherwise. -/
theorem readsAs_nodes (level : Nat) : ∀ ns : List Node, headsReadableIn ns →
    (∀ d ∈ declarationsIn ns, ReadsIfSound sound d) →
    ReadsAs nodes? (brokenLines (nodesLines level ns))
      (onlyIf ((declarationsIn ns).all sound) (unplacedNodes ns))
  | [], _, _ => by
    rw [nodesLines_nil, unplacedNodes]
    exact ReadsAs.nil
  | n :: ns, hheads, hds => by
    simp only [headsReadableIn, Bool.and_eq_true] at hheads
    simp only [declarationsIn, List.mem_append] at hds
    have hfirst := readsAs_node level n hheads.1 fun d hd => hds d (.inl hd)
    have hmore := readsAs_nodes level ns hheads.2 fun d hd => hds d (.inr hd)
    have hboth := hfirst.append hmore
    rw [joined_onlyIf, ← brokenLines_append] at hboth
    simpa [nodesLines_cons, declarationsIn, unplacedNodes, List.all_append] using hboth

end

theorem toOption_parse (css : String) :
    (Stylesheet.parse css).toOption.map (fun s => unplacedNodes s.nodes) =
      nodes? (grouped [] css.toList).1 := by
  have hgroup : (grouped [] css.toList).1 = (ofText css.toList).unplaced :=
    congrArg Prod.fst (group_unplaced _ _ [])
  rw [hgroup, nodes?_unplaced, Stylesheet.parse, toOption_bind, nodes?]
  cases parseNodes (ofText css.toList) <;> rfl

/-- A written stylesheet with readable heads is read back, positions aside, if its declarations
are sound, and not at all otherwise. -/
theorem parse_text {s : Stylesheet} (hheads : headsReadableIn s.nodes)
    (hds : ∀ d ∈ declarationsIn s.nodes, ReadsIfSound sound d) :
    (Stylesheet.parse s.text).toOption.map (fun s => unplacedNodes s.nodes) =
      onlyIf ((declarationsIn s.nodes).all sound) (unplacedNodes s.nodes) := by
  have hnodes := readsAs_nodes 0 s.nodes hheads hds [] [] (List.forall_mem_nil _)
  rw [List.append_nil, grouped_nil, nodes?_nil, joined_end] at hnodes
  rw [toOption_parse, Stylesheet.text, String.toList_ofList, ← hnodes.1]
  rcases intercalate_brokenLines (nodesLines 0 s.nodes) with hlines | hlines
  · have hbreak := ReadsAs.blank nodes?_whitespace (c := '\n') rfl
      (List.intercalate ['\n'] (nodesLines 0 s.nodes)) [] (List.forall_mem_nil _)
    rw [joined_nil, List.singleton_append, hlines] at hbreak
    exact hbreak.1.symm
  · rw [hlines]
    rfl

end RasterFallback
