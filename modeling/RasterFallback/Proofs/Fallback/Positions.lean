import RasterFallback.Proofs.Fallback.Repetition
import RasterFallback.Proofs.Stylesheet.Unplaced
import RasterFallback.Stylesheet.Printer

/-!
Positions are carried along and never looked at: without them a stylesheet gets the
same fallbacks and is written as the same text.
-/
namespace RasterFallback
open RasterFallback.Text

def ImageDescriptor.unplaced (d : ImageDescriptor) : ImageDescriptor :=
  { d with declSource := none }

def RuleScan.unplaced (scan : RuleScan) : RuleScan :=
  { scan with image := scan.image.map fun found => (found.1, none) }

theorem RuleScan.observe_unplaced (scan : RuleScan) (d : Declaration) :
    scan.unplaced.observe d.unplaced = (scan.observe d).unplaced := by
  by_cases himage : d.prop = "background" ∨ d.prop = "background-image"
  · cases hi : backgroundImage? d.value <;>
      simp [observe, Declaration.unplaced, himage, hi, unplaced]
  · by_cases hsize : d.prop = "background-size"
    · cases hs : backgroundSize? d.value <;>
        simp [observe, Declaration.unplaced, hsize, hs, unplaced]
    · simp [observe, Declaration.unplaced, himage, hsize]

theorem RuleScan.foldl_unplaced (ds : List Declaration) (scan : RuleScan) :
    (ds.map Declaration.unplaced).foldl observe scan.unplaced =
      (ds.foldl observe scan).unplaced := by
  induction ds generalizing scan with
  | nil => rfl
  | cons d ds ih =>
    rw [List.map_cons, List.foldl_cons, List.foldl_cons, observe_unplaced, ih]

theorem RuleScan.finish_unplaced (scan : RuleScan) :
    scan.unplaced.finish = scan.finish.map ImageDescriptor.unplaced := by
  obtain ⟨image, size⟩ := scan
  cases image <;> cases size <;> rfl

theorem Rule.image?_unplaced (marker : String) (r : Rule) :
    r.unplaced.image? marker = (r.image? marker).map ImageDescriptor.unplaced := by
  have hscan := RuleScan.foldl_unplaced r.declarations {}
  unfold Rule.image?
  show (if occurs marker.toList r.selector.toList then none else _) = _
  split
  · rfl
  · rw [← RuleScan.finish_unplaced, ← hscan]
    rfl

theorem Rule.fallback_unplaced (marker : String) (r : Rule) (d : ImageDescriptor) :
    r.unplaced.fallback marker d.unplaced = (r.fallback marker d).unplaced := rfl

theorem Rule.unplaced_restates (a b : Rule) : a.unplaced.Restates b.unplaced ↔ a.Restates b := by
  have hcontent (ds : List Declaration) :
      (ds.map Declaration.unplaced).map Declaration.content = ds.map Declaration.content := by
    rw [List.map_map]
    rfl
  rw [Rule.Restates, Rule.Restates, Rule.unplaced, Rule.unplaced, hcontent, hcontent]

theorem Node.newFallback?_unplaced (marker : String) (n : Node) (next? : Option Node) :
    n.unplaced.newFallback? marker (next?.map Node.unplaced) =
      (n.newFallback? marker next?).map Rule.unplaced := by
  cases n with
  | rule r =>
    cases hr : r.image? marker with
    | none =>
      have hr' : r.unplaced.image? marker = none := by rw [Rule.image?_unplaced, hr]; rfl
      rw [Node.unplaced, Node.newFallback?_none hr, Node.newFallback?_none hr']
      rfl
    | some d =>
      have hr' : r.unplaced.image? marker = some d.unplaced := by rw [Rule.image?_unplaced, hr]; rfl
      by_cases hp : ∃ next, next? = some (.rule next) ∧ next.Restates (r.fallback marker d)
      · obtain ⟨next, rfl, hf⟩ := hp
        rw [Node.newFallback?_present hr hf]
        exact Node.newFallback?_present hr' ((Rule.unplaced_restates _ _).2 hf)
      · have hm : ∀ next, next? = some (.rule next) → ¬next.Restates (r.fallback marker d) :=
          fun next hn hf => hp ⟨next, hn, hf⟩
        rw [Node.newFallback?_missing hr hm, Option.map_some, ← Rule.fallback_unplaced,
          Node.unplaced]
        refine Node.newFallback?_missing hr' fun next hn hf => ?_
        cases next? with
        | none => cases hn
        | some m =>
          cases m with
          | rule q =>
            obtain rfl : q.unplaced = next := Node.rule.inj (Option.some.inj hn)
            exact hm q rfl ((Rule.unplaced_restates _ _).1 hf)
          | _ => cases hn
  | _ => rfl

theorem unplacedNodes_append (ms ns : List Node) :
    unplacedNodes (ms ++ ns) = unplacedNodes ms ++ unplacedNodes ns := by
  induction ms with
  | nil => rfl
  | cons m ms ih => rw [List.cons_append, unplacedNodes, unplacedNodes, ih, List.cons_append]

theorem unplacedNodes_head? (ns : List Node) :
    (unplacedNodes ns).head? = ns.head?.map Node.unplaced := by
  cases ns <;> rfl

mutual

theorem Node.completed_unplaced (marker : String) : ∀ n : Node,
    n.unplaced.completed marker = (n.completed marker).unplaced
  | .group h nodes => congrArg (Node.group h.unplaced) (completedNodes_unplaced marker nodes)
  | .rule _ => rfl
  | .comment _ => rfl
  | .statement _ => rfl
  | .descriptors _ _ => rfl

theorem completedNodes_unplaced (marker : String) : ∀ ns : List Node,
    completedNodes marker (unplacedNodes ns) = unplacedNodes (completedNodes marker ns)
  | [] => rfl
  | n :: ns => by
    rw [unplacedNodes, completedNodes_cons, unplacedNodes_head?, Node.newFallback?_unplaced,
      Node.completed_unplaced marker n, completedNodes_unplaced marker ns, completedNodes_cons,
      unplacedNodes, unplacedNodes_append]
    cases n.newFallback? marker ns.head? <;> rfl

end

theorem lines_unplaced (level : Nat) (ds : List Declaration) :
    (ds.map Declaration.unplaced).map (Declaration.line level) =
      ds.map (Declaration.line level) := by
  rw [List.map_map]
  rfl

mutual

theorem Node.lines_unplaced (level : Nat) : ∀ n : Node, n.unplaced.lines level = n.lines level
  | .group h nodes => by
    rw [Node.unplaced, Node.lines, Node.lines, nodesLines_unplaced (level + 1) nodes]
    rfl
  | .rule r => by
    rw [Node.unplaced, Node.lines, Node.lines, Rule.unplaced, RasterFallback.lines_unplaced]
  | .descriptors h ds => by
    rw [Node.unplaced, Node.lines, Node.lines, RasterFallback.lines_unplaced]
    rfl
  | .comment _ => rfl
  | .statement h => by
    rw [Node.unplaced, Node.lines, Node.lines]
    rfl

theorem nodesLines_unplaced (level : Nat) : ∀ ns : List Node,
    nodesLines level (unplacedNodes ns) = nodesLines level ns
  | [] => rfl
  | n :: ns => by
    rw [unplacedNodes, nodesLines_cons, nodesLines_cons, Node.lines_unplaced level n,
      nodesLines_unplaced level ns]

end

theorem text_eq_of_unplaced {s t : Stylesheet} (h : unplacedNodes s.nodes = unplacedNodes t.nodes) :
    s.text = t.text := by
  rw [Stylesheet.text, Stylesheet.text, ← nodesLines_unplaced 0 s.nodes, h,
    nodesLines_unplaced 0 t.nodes]

/-- A stylesheet that reads like one with its fallbacks has them, and is written like it. -/
theorem text_withFallbacks_of_unplaced (marker : String) {s t : Stylesheet}
    (h : unplacedNodes t.nodes = unplacedNodes (s.withFallbacks marker).1.nodes) :
    (t.withFallbacks marker).1.text = (s.withFallbacks marker).1.text := by
  refine text_eq_of_unplaced ?_
  simp only [Stylesheet.withFallbacks, nodesWithFallbacks_eq] at h ⊢
  rw [← completedNodes_unplaced, h, completedNodes_unplaced, completedNodes_completedNodes]

end RasterFallback
