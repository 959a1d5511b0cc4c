import RasterFallback.Text.Blank

/-!
Trimming as leaving out what pads a text. A trimmed text begins and ends with no blank, so
it is what trimming leaves of it, whatever blanks are around it.
-/
namespace RasterFallback.Text

/-- All of the text is blank. -/
def AllBlank (s : List Char) : Prop := ∀ x ∈ s, isBlank x

/-- A text with no blanks around it that ends in neither a semicolon nor an opening brace. -/
structure IsTrimmed (t : List Char) : Prop where
  first : ∀ x ∈ t.head?, isBlank x = false
  last : ∀ x ∈ t.getLast?, isBlank x = false ∧ x ≠ ';' ∧ x ≠ '\x7b'

/-- The text `s` is `t` with blanks around it. -/
def Pads (t s : List Char) : Prop := ∃ r u, s = r ++ (t ++ u) ∧ AllBlank r ∧ AllBlank u

variable {s t u : List Char}

theorem allBlank_nil : AllBlank [] := List.forall_mem_nil _

theorem dropWhile_of_allBlank (hs : AllBlank s) : s.dropWhile isBlank = [] := by
  have h := @List.dropWhile_append_of_pos Char isBlank s [] hs
  rwa [List.append_nil] at h

theorem dropEndWhile_of_last {p : Char → Bool} (h : ∀ x ∈ s.getLast?, p x = false) :
    dropEndWhile p s = s := by
  rcases List.eq_nil_or_concat s with rfl | ⟨front, x, rfl⟩
  · rfl
  · rw [List.concat_eq_append] at *
    have hx := h x List.getLast?_concat
    rw [dropEndWhile_concat, if_neg (by simp [hx])]

theorem trimEnd_append (hs : ∀ x ∈ s.getLast?, isBlank x = false) (ht : AllBlank t) :
    trimEnd (s ++ t) = s := by
  have hrev : AllBlank t.reverse := fun x hx => ht x (List.mem_reverse.1 hx)
  have hdrop : trimEnd (s ++ t) = trimEnd s := by
    rw [trimEnd, dropEndWhile, List.reverse_append, List.dropWhile_append_of_pos hrev]
    rfl
  rw [hdrop]
  exact dropEndWhile_of_last hs

/-- Trimming leaves what stands between the blanks. -/
theorem trim_append {r : List Char} (hr : AllBlank r) (hfirst : ∀ x ∈ s.head?, isBlank x = false)
    (hlast : ∀ x ∈ s.getLast?, isBlank x = false) (ht : AllBlank t) :
    trim (r ++ (s ++ t)) = s := by
  rw [trim, trimStart, List.dropWhile_append_of_pos hr]
  cases s with
  | nil =>
    rw [List.nil_append, dropWhile_of_allBlank ht]
    rfl
  | cons x s =>
    rw [List.cons_append, List.dropWhile_cons_of_neg (by simp [hfirst x rfl]), ← List.cons_append,
      trimEnd_append hlast ht]

/-- Nothing is trimmed where no blank is at the ends. -/
theorem trim_eq_self (hfirst : ∀ x ∈ s.head?, isBlank x = false)
    (hlast : ∀ x ∈ s.getLast?, isBlank x = false) : trim s = s := by
  have h := trim_append allBlank_nil hfirst hlast allBlank_nil
  rwa [List.append_nil, List.nil_append] at h

theorem Pads.trim (h : Pads t s) (ht : IsTrimmed t) : trim s = t := by
  obtain ⟨r, u, rfl, hr, hu⟩ := h
  exact trim_append hr ht.first (fun x hx => (ht.last x hx).1) hu

/-- What is padded ends as the trimmed text does, or in a blank. -/
theorem Pads.last (h : Pads t s) {x : Char} (hx : s.getLast? = some x) :
    isBlank x ∨ t.getLast? = some x := by
  obtain ⟨r, u, rfl, hr, hu⟩ := h
  rw [List.getLast?_append, List.getLast?_append] at hx
  cases hul : u.getLast? with
  | some y =>
    rw [hul] at hx
    obtain rfl : y = x := Option.some.inj hx
    exact .inl (hu y (List.mem_of_getLast? hul))
  | none =>
    rw [hul] at hx
    cases htl : t.getLast? with
    | some y =>
      rw [htl] at hx
      exact .inr hx
    | none =>
      rw [htl] at hx
      exact .inl (hr x (List.mem_of_getLast? hx))

theorem exists_trimEnd (s : List Char) : ∃ u, s = trimEnd s ++ u ∧ AllBlank u := by
  refine ⟨(s.reverse.takeWhile isBlank).reverse, ?_, fun x hx => ?_⟩
  · rw [trimEnd, dropEndWhile, ← List.reverse_append, List.takeWhile_append_dropWhile,
      List.reverse_reverse]
  · exact List.all_eq_true.1 List.all_takeWhile x (List.mem_reverse.1 hx)

/-- Trimming leaves out blanks only. -/
theorem pads_trim (s : List Char) : Pads (Text.trim s) s := by
  obtain ⟨u, hu, hblank⟩ := exists_trimEnd (trimStart s)
  refine ⟨s.takeWhile isBlank, u, ?_, fun x hx => ?_, hblank⟩
  · rw [Text.trim, ← hu]
    exact List.takeWhile_append_dropWhile.symm
  · exact List.all_eq_true.1 List.all_takeWhile x hx

theorem not_isBlank_of_head?_dropWhile {x : Char} (hx : x ∈ (s.dropWhile isBlank).head?) :
    isBlank x = false := by
  have h := List.head?_dropWhile_not isBlank s
  rw [Option.mem_def.1 hx] at h
  exact h

/-- What trimming leaves begins and ends with no blank. -/
theorem trim_ends (s : List Char) : (∀ x ∈ (Text.trim s).head?, isBlank x = false) ∧
    ∀ x ∈ (Text.trim s).getLast?, isBlank x = false := by
  constructor
  · intro x hx
    obtain ⟨u, hu, -⟩ := exists_trimEnd (trimStart s)
    refine not_isBlank_of_head?_dropWhile (s := s) ?_
    have hfirst : (trimEnd (trimStart s)).head? = some x := hx
    show x ∈ (trimStart s).head?
    rw [hu, List.head?_append, hfirst]
    rfl
  · intro x hx
    rw [Text.trim, trimEnd, dropEndWhile, List.getLast?_reverse] at hx
    exact not_isBlank_of_head?_dropWhile hx

/-- What is in a text is blank or in what trimming leaves. -/
theorem mem_trim {x : Char} (hx : x ∈ s) : isBlank x ∨ x ∈ Text.trim s := by
  obtain ⟨r, u, hs, hr, hu⟩ := pads_trim s
  rw [hs] at hx
  rcases List.mem_append.1 hx with hx | hx
  · exact .inl (hr x hx)
  · rcases List.mem_append.1 hx with hx | hx
    · exact .inr hx
    · exact .inl (hu x hx)

end RasterFallback.Text
