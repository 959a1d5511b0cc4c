import RasterFallback.Proofs.Fallback.Insertion

/-!
Inserting fallbacks again. Every fallback that the first time left behind its
rule is found in place, and none of them asks for a fallback of its own, so the
second time changes nothing. With another marker new fallbacks may come, but no
new tasks: what was put in shows a drawing under no marker.
-/
namespace RasterFallback

variable (marker : String)

theorem Node.newFallback?_completed (n : Node) (next? : Option Node) :
    (n.completed marker).newFallback? marker (next?.map (Node.completed marker)) =
      n.newFallback? marker next? := by
  have hnext : ∀ next, next?.map (Node.completed marker) = some (.rule next) ↔
      next? = some (.rule next) := by
    intro next
    cases next? with
    | none => simp
    | some m => cases m <;> simp [Node.completed]
  cases n with
  | rule r =>
    cases hr : r.image? marker with
    | none => simp [Node.newFallback?_none hr]
    | some d =>
      by_cases hp : ∃ next, next? = some (.rule next) ∧ next.Restates (r.fallback marker d)
      · obtain ⟨next, hn, hf⟩ := hp
        rw [(hnext next).2 hn, hn, completed_rule, Node.newFallback?_present hr hf]
      · have hm : ∀ next, next? = some (.rule next) → ¬next.Restates (r.fallback marker d) :=
          fun next hn hf => hp ⟨next, hn, hf⟩
        rw [completed_rule, Node.newFallback?_missing hr hm,
          Node.newFallback?_missing hr fun next hn => hm next ((hnext next).1 hn)]
  | _ => rfl

theorem completedNodes_head? (ns : List Node) :
    (completedNodes marker ns).head? = ns.head?.map (Node.completed marker) := by
  cases ns <;> rfl

theorem Node.exists_of_newFallback? {n : Node} {next? : Option Node} {f : Rule}
    (h : n.newFallback? marker next? = some f) :
    ∃ r d, n = .rule r ∧ r.image? marker = some d ∧ f = r.fallback marker d := by
  cases n with
  | rule r =>
    cases hr : r.image? marker with
    | none => simp [Node.newFallback?_none hr] at h
    | some d =>
      refine ⟨r, d, rfl, hr, ?_⟩
      simp only [Node.newFallback?, hr] at h
      split at h
      · split at h
        · cases h
        · exact (Option.some.inj h).symm
      · exact (Option.some.inj h).symm
  | _ => cases h

/-- A fallback lacks none, and its rule lacks none before it. -/
theorem completedNodes_fallback {r : Rule} {d : ImageDescriptor} (hr : r.image? marker = some d)
    (ns : List Node) :
    completedNodes marker (.rule r :: .rule (r.fallback marker d) :: ns) =
      .rule r :: .rule (r.fallback marker d) :: completedNodes marker ns := by
  have hf := Rule.image?_fallback marker r d marker
  rw [completedNodes_cons, completedNodes_cons, List.head?_cons,
    Node.newFallback?_present hr ⟨rfl, rfl⟩, Node.newFallback?_none hf]
  rfl

mutual

theorem Node.completed_completed : (n : Node) →
    (n.completed marker).completed marker = n.completed marker
  | .group h nodes => congrArg (Node.group h) (completedNodes_completedNodes nodes)
  | .rule _ => rfl
  | .comment _ => rfl
  | .statement _ => rfl
  | .descriptors _ _ => rfl

theorem completedNodes_completedNodes : (ns : List Node) →
    completedNodes marker (completedNodes marker ns) = completedNodes marker ns
  | [] => rfl
  | n :: ns => by
    have ihn := Node.completed_completed n
    have ih := completedNodes_completedNodes ns
    rw [completedNodes_cons]
    cases hf : n.newFallback? marker ns.head? with
    | none =>
      have hnone : (n.completed marker).newFallback? marker (completedNodes marker ns).head? =
          none := by
        rw [completedNodes_head?, Node.newFallback?_completed, hf]
      simp only [Option.map_none, Option.toList_none, List.nil_append]
      rw [completedNodes_cons, hnone, ihn, ih]
      rfl
    | some f =>
      obtain ⟨r, d, rfl, hr, rfl⟩ := Node.exists_of_newFallback? marker hf
      simp only [Option.map_some, Option.toList_some, List.singleton_append, completed_rule]
      rw [completedNodes_fallback marker hr, ih]

end

/-- A stylesheet that has its fallbacks stays what it is, positions included. -/
theorem withFallbacks_withFallbacks (s : Stylesheet) :
    ((s.withFallbacks marker).1.withFallbacks marker).1 = (s.withFallbacks marker).1 := by
  simp only [Stylesheet.withFallbacks, nodesWithFallbacks_eq, completedNodes_completedNodes]

section Tasks

/-- A fallback that was put in gives no task, whatever the marker asked for. -/
theorem tasks_newFallback? (m : String) (n : Node) (next? : Option Node) :
    (rulesOf ((n.newFallback? marker next?).map Node.rule).toList).filterMap (Rule.task? m) =
      [] := by
  cases hf : n.newFallback? marker next? with
  | none => rfl
  | some f =>
    obtain ⟨r, d, -, -, rfl⟩ := Node.exists_of_newFallback? marker hf
    have htask : (r.fallback marker d).task? m = none :=
      Rule.task?_none (Rule.image?_fallback marker r d m)
    simp [rulesOf, htask]

mutual

theorem Node.tasks_completed (m : String) : (n : Node) →
    (n.completed marker).rules.filterMap (Rule.task? m) = n.rules.filterMap (Rule.task? m)
  | .group _ nodes => tasks_completedNodes m nodes
  | .rule _ => rfl
  | .comment _ => rfl
  | .statement _ => rfl
  | .descriptors _ _ => rfl

theorem tasks_completedNodes (m : String) : (ns : List Node) →
    (rulesOf (completedNodes marker ns)).filterMap (Rule.task? m) =
      (rulesOf ns).filterMap (Rule.task? m)
  | [] => rfl
  | n :: ns => by
    have ihn := Node.tasks_completed m n
    have ih := tasks_completedNodes m ns
    have hnew := tasks_newFallback? marker m n ns.head?
    rw [completedNodes_cons, rulesOf, rulesOf, rulesOf_append, List.filterMap_append,
      List.filterMap_append, List.filterMap_append, ihn, hnew, ih, List.nil_append]

end

end Tasks

/-- The stylesheet after runs under several markers, one after the other. -/
def Stylesheet.afterRuns (markers : List String) (s : Stylesheet) : Stylesheet :=
  markers.foldl (fun t m => (t.withFallbacks m).1) s

/-- One run adds no rule that gives a task, and takes none away. -/
theorem filterMap_task?_withFallbacks (m : String) (s : Stylesheet) :
    (s.withFallbacks marker).1.rules.filterMap (Rule.task? m) =
      s.rules.filterMap (Rule.task? m) := by
  have hnodes : (s.withFallbacks marker).1.nodes = completedNodes marker s.nodes :=
    congrArg Prod.fst (nodesWithFallbacks_eq marker s.nodes)
  rw [Stylesheet.rules, hnodes]
  exact tasks_completedNodes marker m s.nodes

theorem filterMap_task?_afterRuns (markers : List String) (s : Stylesheet) :
    (s.afterRuns markers).rules.filterMap (Rule.task? marker) =
      s.rules.filterMap (Rule.task? marker) := by
  induction markers generalizing s with
  | nil => rfl
  | cons m markers ih =>
    show ((s.withFallbacks m).1.afterRuns markers).rules.filterMap (Rule.task? marker) = _
    rw [ih, filterMap_task?_withFallbacks]

/-- Whatever markers ran over a stylesheet before, its tasks are those of the rules that it had
at first: the same drawings, names, selectors and positions in the same order. -/
theorem tasks_afterRuns (markers : List String) (s : Stylesheet) :
    ((s.afterRuns markers).withFallbacks marker).2 = (s.withFallbacks marker).2 ∧
      (s.withFallbacks marker).2 = s.rules.filterMap (Rule.task? marker) := by
  have htasks (t : Stylesheet) : (t.withFallbacks marker).2 =
      t.rules.filterMap (Rule.task? marker) :=
    congrArg Prod.snd (nodesWithFallbacks_eq marker t.nodes)
  constructor
  · rw [htasks, htasks, filterMap_task?_afterRuns]
  · exact htasks s

end RasterFallback
