import RasterFallback.Conversion.Task

/-!
Fallbacks in a stylesheet: behind every rule with a drawing goes the rule that
shows its raster. One that stands there already is kept, so that doing it a
second time changes nothing.
-/
namespace RasterFallback

/-- Two declarations say the same, wherever they stand. -/
def Declaration.agrees (a b : Declaration) : Bool :=
  a.prop == b.prop && a.value == b.value && a.important == b.important

/-- Two lists of declarations say the same in the same order. -/
def declarationsAgree : List Declaration → List Declaration → Bool
  | [], [] => true
  | a :: as, b :: bs => a.agrees b && declarationsAgree as bs
  | _, _ => false

/-- Two rules say the same, wherever they stand. -/
def Rule.agrees (a b : Rule) : Bool :=
  a.selector == b.selector && declarationsAgree a.declarations b.declarations

/-- The rule that belongs behind a rule with the drawing `d`. -/
def Rule.fallback (marker : String) (r : Rule) (d : ImageDescriptor) : Rule :=
  fallbackRule marker r d d.rasterName

/-- The task of a rule with the drawing `d`. -/
def Rule.task (r : Rule) (d : ImageDescriptor) : ConversionTask :=
  .ofRule r d d.rasterName

mutual

/-- A node with the fallbacks inside it, and the tasks of the rules there. -/
def nodeWithFallbacks (marker : String) : Node → Node × List ConversionTask
  | .group h nodes =>
    let inner := nodesWithFallbacks marker nodes
    (.group h inner.1, inner.2)
  | .rule r => (.rule r, [])
  | .comment content => (.comment content, [])
  | .statement h => (.statement h, [])
  | .descriptors h ds => (.descriptors h ds, [])

/-- A list of nodes with its fallbacks, and the tasks of its rules. The rule behind
a rule with a drawing is passed over if it is the fallback. -/
def nodesWithFallbacks (marker : String) : List Node → List Node × List ConversionTask
  | [] => ([], [])
  | .rule r :: ns =>
    match r.image? marker with
    | none =>
      let more := nodesWithFallbacks marker ns
      (.rule r :: more.1, more.2)
    | some d =>
      match ns with
      | .rule next :: rest =>
        if next.agrees (r.fallback marker d) then
          let more := nodesWithFallbacks marker rest
          (.rule r :: .rule next :: more.1, r.task d :: more.2)
        else
          let more := nodesWithFallbacks marker (.rule next :: rest)
          (.rule r :: .rule (r.fallback marker d) :: more.1, r.task d :: more.2)
      | ns =>
        let more := nodesWithFallbacks marker ns
        (.rule r :: .rule (r.fallback marker d) :: more.1, r.task d :: more.2)
  | n :: ns =>
    let inner := nodeWithFallbacks marker n
    let more := nodesWithFallbacks marker ns
    (inner.1 :: more.1, inner.2 ++ more.2)

end

/-- The stylesheet with its fallbacks, and the tasks in document order. -/
def Stylesheet.withFallbacks (marker : String) (s : Stylesheet) : Stylesheet × List ConversionTask :=
  let r := nodesWithFallbacks marker s.nodes
  (⟨r.1⟩, r.2)

end RasterFallback
