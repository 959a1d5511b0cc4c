import RasterFallback.Fallback.Insertion

/-!
What inserting fallbacks does to a stylesheet, said without the walk that does
it: node by node, with nothing but the next sibling in view. Tasks are read off
the rules in document order, and the nodes of the input stay where they are.
-/
namespace RasterFallback

/-- What a declaration says, wherever it stands. -/
def Declaration.content (d : Declaration) : String × String × Bool := (d.prop, d.value, d.important)

/-- Two rules have one selector and say the same in the same order. -/
def Rule.Restates (a b : Rule) : Prop :=
  a.selector = b.selector ∧
    a.declarations.map Declaration.content = b.declarations.map Declaration.content

instance (a b : Rule) : Decidable (a.Restates b) := inferInstanceAs (Decidable (_ ∧ _))

theorem Declaration.agrees_iff (a b : Declaration) : a.agrees b = true ↔ a.content = b.content := by
  simp [agrees, content, and_assoc]

theorem declarationsAgree_iff (as bs : List Declaration) :
    declarationsAgree as bs = true ↔ as.map Declaration.content = bs.map Declaration.content := by
  fun_induction declarationsAgree as bs with
  | case1 => simp
  | case2 a as b bs ih => simp [Declaration.agrees_iff, ih]
  | case3 as bs hnil hcons =>
    cases as with
    | nil =>
      cases bs with
      | nil => exact (hnil rfl rfl).elim
      | cons b bs => simp
    | cons a as =>
      cases bs with
      | nil => simp
      | cons b bs => exact (hcons a as b bs rfl rfl).elim

theorem Rule.agrees_iff (a b : Rule) : a.agrees b = true ↔ a.Restates b := by
  simp [Rule.agrees, Rule.Restates, declarationsAgree_iff]

theorem RuleScan.observe_background {scan : RuleScan} {d : Declaration}
    (h : d.prop = "background-image") : (scan.observe d).size = scan.size := by
  unfold RuleScan.observe
  rw [if_pos (.inr h)]
  split <;> rfl

/-- A rule that says what a fallback says has no size, so it shows no drawing. -/
theorem Rule.image?_of_restates {marker name : String} {r next : Rule} {d : ImageDescriptor}
    (h : next.Restates (fallbackRule marker r d name)) (m : String) : next.image? m = none := by
  obtain ⟨-, hds⟩ := h
  obtain ⟨e, he, hcontent⟩ : ∃ e, next.declarations = [e] ∧
      e.content = ("background-image", "url(" ++ name ++ ")", false) := by
    match hn : next.declarations with
    | [] => simp [hn, fallbackRule] at hds
    | [e] => exact ⟨e, rfl, by simpa [hn, fallbackRule, Declaration.content] using hds⟩
    | e :: f :: es => simp [hn, fallbackRule] at hds
  have hprop : e.prop = "background-image" := congrArg Prod.fst hcontent
  have hsize : (RuleScan.observe {} e).size = none := RuleScan.observe_background hprop
  unfold Rule.image?
  split
  · rfl
  · simp [he, RuleScan.finish, hsize]

theorem Rule.image?_fallback (marker : String) (r : Rule) (d : ImageDescriptor) (m : String) :
    (r.fallback marker d).image? m = none :=
  Rule.image?_of_restates ⟨rfl, rfl⟩ m

/-- The fallback that a node still lacks, given its next sibling. -/
def Node.newFallback? (marker : String) (next? : Option Node) : Node → Option Rule
  | .rule r =>
    match r.image? marker with
    | none => none
    | some d =>
      let fallback := fallbackRule marker r d d.rasterName
      match next? with
      | some (.rule next) => if next.Restates fallback then none else some fallback
      | _ => some fallback
  | .group _ _ => none
  | .comment _ => none
  | .statement _ => none
  | .descriptors _ _ => none

mutual

/-- A node with new fallbacks in its block, if it has a block of nodes. -/
def Node.completed (marker : String) : Node → Node
  | .group h nodes => .group h (completedNodes marker nodes)
  | .rule r => .rule r
  | .comment content => .comment content
  | .statement h => .statement h
  | .descriptors h ds => .descriptors h ds

/-- Every node, with the fallback that it lacks right behind it. -/
def completedNodes (marker : String) : List Node → List Node
  | [] => []
  | n :: ns =>
    n.completed marker ::
      (((n.newFallback? marker ns.head?).map Node.rule).toList ++ completedNodes marker ns)

end

/-- The task of a rule, if it shows a drawing. -/
def Rule.task? (marker : String) (r : Rule) : Option ConversionTask :=
  (r.image? marker).map fun d => ⟨d, d.rasterName, r.selector, r.source⟩

mutual

/-- The second node is the first, up to rules added in its block. -/
inductive Node.Extends : Node → Node → Prop where
  | same (n : Node) : Node.Extends n n
  | group (h : AtHead) {ms ns : List Node} (inner : NodesExtend ms ns) :
      Node.Extends (.group h ms) (.group h ns)

/-- The second list has the nodes of the first in their order, and rules added between them. -/
inductive NodesExtend : List Node → List Node → Prop where
  | nil : NodesExtend [] []
  | keep {m n : Node} {ms ns : List Node} (head : m.Extends n) (rest : NodesExtend ms ns) :
      NodesExtend (m :: ms) (n :: ns)
  | add (r : Rule) {ms ns : List Node} (rest : NodesExtend ms ns) : NodesExtend ms (.rule r :: ns)

end

@[simp] theorem completed_rule (marker : String) (r : Rule) :
    (Node.rule r).completed marker = .rule r := rfl

theorem completedNodes_cons (marker : String) (n : Node) (ns : List Node) :
    completedNodes marker (n :: ns) = n.completed marker ::
      (((n.newFallback? marker ns.head?).map Node.rule).toList ++ completedNodes marker ns) := rfl

theorem Node.newFallback?_none {marker : String} {r : Rule} (h : r.image? marker = none)
    (next? : Option Node) : (Node.rule r).newFallback? marker next? = none := by
  simp [Node.newFallback?, h]

theorem Node.newFallback?_present {marker : String} {r next : Rule} {d : ImageDescriptor}
    (h : r.image? marker = some d) (hn : next.Restates (r.fallback marker d)) :
    (Node.rule r).newFallback? marker (some (.rule next)) = none := by
  simp only [Node.newFallback?, h]
  exact if_pos hn

theorem Node.newFallback?_missing {marker : String} {r : Rule} {d : ImageDescriptor}
    {next? : Option Node} (h : r.image? marker = some d)
    (hn : ∀ next, next? = some (.rule next) → ¬next.Restates (r.fallback marker d)) :
    (Node.rule r).newFallback? marker next? = some (r.fallback marker d) := by
  simp only [Node.newFallback?, h]
  split
  · rename_i next
    exact if_neg (hn next rfl)
  · rfl

@[simp] theorem rulesOf_cons_rule (r : Rule) (ns : List Node) :
    rulesOf (.rule r :: ns) = r :: rulesOf ns := rfl

theorem Rule.task?_some {marker : String} {r : Rule} {d : ImageDescriptor}
    (h : r.image? marker = some d) : r.task? marker = some (r.task d) := by
  rw [Rule.task?, h]
  rfl

theorem Rule.task?_none {marker : String} {r : Rule} (h : r.image? marker = none) :
    r.task? marker = none := by
  rw [Rule.task?, h]
  rfl

/-- The walk, which passes over every fallback in place, does what is asked for node by node. -/
theorem nodesWithFallbacks_eq (marker : String) (ns : List Node) :
    nodesWithFallbacks marker ns =
      (completedNodes marker ns, (rulesOf ns).filterMap (Rule.task? marker)) := by
  refine nodesWithFallbacks.induct marker
    (fun n => (∀ r, n ≠ .rule r) → nodeWithFallbacks marker n =
      (n.completed marker, n.rules.filterMap (Rule.task? marker)))
    (fun ns => nodesWithFallbacks marker ns =
      (completedNodes marker ns, (rulesOf ns).filterMap (Rule.task? marker)))
    ?group ?rule ?comment ?statement ?descriptors ?nil ?plain ?present ?missing ?last ?other ns
  case group =>
    intro h nodes ih _
    simp [nodeWithFallbacks, Node.completed, Node.rules, ih]
  case rule => intro r hr; exact (hr r rfl).elim
  case comment => intro content _; rfl
  case statement => intro h _; rfl
  case descriptors => intro h ds _; rfl
  case nil => rfl
  case plain =>
    intro r ns himage ih
    rw [nodesWithFallbacks, himage, completedNodes_cons, Node.newFallback?_none himage]
    simp [ih, Rule.task?_none himage]
  case present =>
    intro r d himage next rest hagrees ih
    have hn := (Rule.agrees_iff _ _).1 hagrees
    have hnext : next.image? marker = none := Rule.image?_of_restates hn marker
    rw [nodesWithFallbacks, himage]
    simp only [hagrees, ↓reduceIte, ih, completedNodes_cons, List.head?_cons,
      Node.newFallback?_present himage hn, Node.newFallback?_none hnext]
    simp [Rule.task?_some himage, Rule.task?_none hnext]
  case missing =>
    intro r d himage next rest hagrees ih
    have hn : ¬next.Restates (r.fallback marker d) := fun h =>
      hagrees ((Rule.agrees_iff _ _).2 h)
    have hnew : (Node.rule r).newFallback? marker (some (.rule next)) =
        some (r.fallback marker d) := by
      refine Node.newFallback?_missing himage fun n h => ?_
      obtain rfl : next = n := by simpa using h
      exact hn
    rw [nodesWithFallbacks, himage, completedNodes_cons, List.head?_cons, hnew]
    simp [hagrees, ih, Rule.task?_some himage]
  case last =>
    intro r d himage ns hns ih
    have hnew : (Node.rule r).newFallback? marker ns.head? = some (r.fallback marker d) := by
      refine Node.newFallback?_missing himage fun n h => ?_
      obtain ⟨rest, rfl⟩ := List.head?_eq_some_iff.1 h
      exact (hns n rest rfl).elim
    rw [nodesWithFallbacks, himage, completedNodes_cons, hnew]
    simp [ih, Rule.task?_some himage]
  case other =>
    intro n ns hn ihn ih
    have hnew : n.newFallback? marker ns.head? = none := by
      cases n with
      | rule r => exact (hn r rfl).elim
      | _ => rfl
    rw [nodesWithFallbacks, completedNodes_cons, hnew, ihn fun r h => hn r h, ih]
    · simp [rulesOf]
    · exact hn

theorem NodesExtend.add_option (r? : Option Rule) {ms ns : List Node} (h : NodesExtend ms ns) :
    NodesExtend ms ((r?.map Node.rule).toList ++ ns) := by
  cases r? with
  | none => exact h
  | some r => exact .add r h

mutual

theorem Node.extends_completed (marker : String) : (n : Node) → n.Extends (n.completed marker)
  | .group h nodes => .group h (nodesExtend_completedNodes marker nodes)
  | .rule r => .same (.rule r)
  | .comment content => .same (.comment content)
  | .statement h => .same (.statement h)
  | .descriptors h ds => .same (.descriptors h ds)

theorem nodesExtend_completedNodes (marker : String) :
    (ns : List Node) → NodesExtend ns (completedNodes marker ns)
  | [] => .nil
  | n :: ns =>
    .keep (n.extends_completed marker) (.add_option _ (nodesExtend_completedNodes marker ns))

end

/-- Fallbacks stand right behind the rules that lack them, at every depth, and nothing else
changes. Each rule with a drawing gives one task, in document order. What stands in place of
a fallback, and is passed over, shows a drawing under no marker. -/
theorem withFallbacks_eq_completed (marker : String) (s : Stylesheet) :
    (s.withFallbacks marker).1.nodes = completedNodes marker s.nodes ∧
    (s.withFallbacks marker).2 = s.rules.filterMap (Rule.task? marker) ∧
    NodesExtend s.nodes (s.withFallbacks marker).1.nodes ∧
    ∀ (r next : Rule) (d : ImageDescriptor), r.image? marker = some d →
      next.Restates (fallbackRule marker r d d.rasterName) → ∀ m, next.image? m = none := by
  have h := nodesWithFallbacks_eq marker s.nodes
  refine ⟨congrArg Prod.fst h, congrArg Prod.snd h, ?_, fun r next d _ hn m => ?_⟩
  · rw [show (s.withFallbacks marker).1.nodes = _ from congrArg Prod.fst h]
    exact nodesExtend_completedNodes marker s.nodes
  · exact Rule.image?_of_restates hn m

/-- A rule that shows a drawing at a known size. -/
def iconRule : Rule :=
  ⟨".icon", [⟨"background", "url(a.svg)", false, none⟩, ⟨"background-size", "8px", false, none⟩],
    none⟩

def iconDescriptor : ImageDescriptor := ⟨.file "a.svg", ⟨8, 8⟩, none⟩

theorem iconRule_image? : iconRule.image? ".no-svg" = some iconDescriptor := by decide +kernel

theorem withFallbacks_eq_completed_icon :
    (Stylesheet.withFallbacks ".no-svg" ⟨[.rule iconRule]⟩).1.nodes =
        [.rule iconRule, .rule (iconRule.fallback ".no-svg" iconDescriptor)] ∧
      iconRule.image? ".no-svg" = some iconDescriptor ∧
      (iconRule.fallback ".no-svg" iconDescriptor).image? ".old" = none := by
  obtain ⟨hnodes, -, -, hshown⟩ := withFallbacks_eq_completed ".no-svg" ⟨[.rule iconRule]⟩
  have hnew : (Node.rule iconRule).newFallback? ".no-svg" none =
      some (iconRule.fallback ".no-svg" iconDescriptor) :=
    Node.newFallback?_missing iconRule_image? nofun
  have hcompleted : completedNodes ".no-svg" [.rule iconRule] =
      [.rule iconRule, .rule (iconRule.fallback ".no-svg" iconDescriptor)] := by
    rw [completedNodes_cons, List.head?_nil, hnew]
    rfl
  exact ⟨hnodes.trans hcompleted, iconRule_image?,
    hshown _ _ _ iconRule_image? ⟨rfl, rfl⟩ ".old"⟩

end RasterFallback
