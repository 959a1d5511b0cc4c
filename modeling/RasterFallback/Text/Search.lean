/-!
Pieces of a text: whether one occurs, and what is left without it.
-/
namespace RasterFallback.Text

def occurs (piece : List Char) : List Char → Bool
  | [] => piece.isEmpty
  | c :: s => piece.isPrefixOf (c :: s) || occurs piece s

/-- The text behind `front`, if it starts with it. -/
def behind? : List Char → List Char → Option (List Char)
  | [], s => some s
  | c :: front, d :: s => if c = d then behind? front s else none
  | _ :: _, [] => none

/-- The text before `back`, if it ends with it. -/
def before? (back s : List Char) : Option (List Char) :=
  (behind? back.reverse s.reverse).map List.reverse

/-- A piece occurs if it stands somewhere in the text in one run. -/
theorem occurs_iff {piece s : List Char} : occurs piece s = true ↔ piece <:+: s := by
  induction s with
  | nil => simp [occurs]
  | cons c s ih => simp [occurs, List.infix_cons_iff, ih]

theorem behind?_eq_some {front s rest : List Char} :
    behind? front s = some rest ↔ s = front ++ rest := by
  induction front generalizing s with
  | nil => simp [behind?, eq_comm]
  | cons c front ih =>
    cases s with
    | nil => simp [behind?]
    | cons d s =>
      by_cases h : c = d
      · simp [behind?, h, ih]
      · have : ¬d = c := fun e => h e.symm
        simp [behind?, h, this]

theorem before?_eq_some {back s rest : List Char} :
    before? back s = some rest ↔ s = rest ++ back := by
  constructor
  · intro h
    obtain ⟨t, ht, rfl⟩ := Option.map_eq_some_iff.mp h
    have := congrArg List.reverse (behind?_eq_some.mp ht)
    simpa using this
  · rintro rfl
    refine Option.map_eq_some_iff.mpr ⟨rest.reverse, behind?_eq_some.mpr ?_, by simp⟩
    simp

end RasterFallback.Text
