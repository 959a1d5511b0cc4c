import RasterFallback.Proofs.Css.Standing

/-!
What a text leaves open at its end: a string, a comment or a url without its end mark, and a
block without its closing bracket. Whatever would be written behind belongs to it, so of the
lexemes only the last can be open, and of components only those that nothing stands behind.
-/
namespace RasterFallback.Css
open RasterFallback.Text

/-- Something can stand behind the lexeme and not belong to it, if it is a string, a comment or
a url. -/
def Lexeme.IsEnded (l : Lexeme) : Prop :=
  l.token.isEnclosed → ∃ c k z, l.text = c :: k ∧ z ≠ [] ∧ Token.read c (k ++ z) = (l.token, z)

theorem Lexeme.isEnded_of_token {l : Lexeme} (h : l.token.isEnclosed = false) : l.IsEnded :=
  fun hl => absurd hl (by simp [h])

theorem Lexeme.isEnded_of_readsOff {l : Lexeme} {r : List Char}
    (h : Components.ReadsOff l.unplaced r) (hr : r ≠ []) : l.IsEnded := by
  obtain ⟨c, k, hl, hread⟩ := h
  exact fun _ => ⟨c, k, r, congrArg Lexeme.text hl, hr, hread⟩

/-- Each lexeme is read in front of the text of those behind it. -/
def AreRead : List Lexeme → Prop
  | [] => True
  | l :: ls => Components.ReadsOff l.unplaced (ls.flatMap Lexeme.text) ∧ AreRead ls

theorem areRead_lexemes (p : Position) (s : List Char) : AreRead (lexemes p s) := by
  fun_induction lexemes p s with
  | case1 => trivial
  | case2 p c s read piece ih =>
    refine ⟨⟨c, consumed s read.2, rfl, ?_⟩, ih⟩
    rw [lexemes_text, consumed_append (Token.read_suffix c s)]
    rfl

namespace AreRead

variable {l : Lexeme} {ls front behind : List Lexeme}

theorem append_right (h : AreRead (front ++ behind)) : AreRead behind := by
  induction front with
  | nil => exact h
  | cons l front ih => exact ih h.2

theorem text_ne_nil (h : AreRead ls) (hls : ls ≠ []) : ls.flatMap Lexeme.text ≠ [] := by
  obtain ⟨l, ls, rfl⟩ := List.exists_cons_of_ne_nil hls
  obtain ⟨⟨c, k, hl, -⟩, -⟩ := h
  have htext : l.text = c :: k := congrArg Lexeme.text hl
  simp [htext]

theorem isEnded (h : AreRead (l :: ls)) (hls : ls ≠ []) : l.IsEnded :=
  Lexeme.isEnded_of_readsOff h.1 (h.2.text_ne_nil hls)

/-- Lexemes with something behind them are ended. -/
theorem isEnded_append (h : AreRead (front ++ behind)) (hne : behind ≠ [])
    (hbehind : ∀ l ∈ behind, l.IsEnded) : ∀ l ∈ front ++ behind, l.IsEnded := by
  induction front with
  | nil => exact hbehind
  | cons l front ih =>
    exact List.forall_mem_cons.2 ⟨h.isEnded (by simp [hne]), ih h.2⟩

end AreRead

/-- A string that goes on takes some of what stands behind, unless a line break cuts it off. -/
theorem quotedContent_of_rest_eq {q : Char} {z : List Char} (h : (quotedContent q z).2.2 = z) :
    z = [] ∨ (quotedContent q z).2.1 = true := by
  have hlong {c : Char} {s r : List Char} (hs : r <:+ s) (hr : r = c :: s) : False := by
    have hlen := hs.length_le
    rw [hr, List.length_cons] at hlen
    omega
  fun_cases quotedContent q z with
  | case1 => exact .inl rfl
  | case2 s => simp [quotedContent] at h
  | case3 c s hc hn => exact .inr rfl
  | case4 s =>
    rw [quotedContent] at h
    simp_all
  | case5 s he hline hc hn =>
    have hread : (quotedContent q ('\\' :: s)).2.2 = (quotedContent q (dropNewline s)).2.2 := by
      rw [quotedContent]
      simp [hc, hn, he, hline]
    exact (hlong ((quotedContent_suffix q _).trans (dropNewline_suffix s)) (hread ▸ h)).elim
  | case6 s he hline r hc hn =>
    have hread : (quotedContent q ('\\' :: s)).2.2 = (quotedContent q (escape s).2).2.2 := by
      rw [quotedContent]
      simp [hc, hn, he, hline]
    exact (hlong ((quotedContent_suffix q _).trans (escape_suffix s)) (hread ▸ h)).elim
  | case7 c s hc hn hs r =>
    have hread : (quotedContent q (c :: s)).2.2 = (quotedContent q s).2.2 := by
      simp [quotedContent, hc, hn, hs]
    exact (hlong (quotedContent_suffix q s) (hread ▸ h)).elim

theorem isEnclosed_of_closes {t : Token} {b : Bracket} (h : t.closes? = some b) :
    t.isEnclosed = false := by
  cases t <;> first | rfl | cases h

theorem isBad_of_closes {t : Token} {b : Bracket} (h : t.closes? = some b) : t.isBad = false := by
  cases t <;> first | rfl | cases h

theorem isBad_of_opens {t : Token} {b : Bracket} (h : t.opens? = some b) : t.isBad = false := by
  cases t <;> first | rfl | cases h

namespace Components

/-- Every block has its closing bracket. -/
def isShut : Components → Bool
  | nil _ => true
  | leaf _ rest => rest.isShut
  | block _ inner closer rest => closer.isSome && inner.isShut && rest.isShut

/-- Nothing is left open: no string, comment or url, and no block. -/
structure IsEnded (cs : Components) : Prop where
  lexemes : ∀ l ∈ cs.lexemes, l.IsEnded
  shut : cs.isShut

variable {b : Option Bracket} {cs ds inner rest : Components} {l opener k : Lexeme}

theorem Closed.isShut (h : cs.Closed b) : cs.isShut := by
  induction cs generalizing b with
  | nil => rfl
  | leaf l rest ih => exact ih h.2.2
  | block opener inner closer rest ihi ihr =>
    obtain ⟨c, k, -, rfl, -, hinner, hrest⟩ := h
    simp [Components.isShut, ihi hinner, ihr hrest]

theorem isShut_append : (cs.append ds).isShut = (cs.isShut && ds.isShut) := by
  induction cs with
  | nil => rfl
  | leaf l rest ih => exact ih
  | block opener inner closer rest _ ih => simp [isShut, ih, Bool.and_assoc]

theorem isEnded_nil (p : Position) : (nil p).IsEnded := ⟨nofun, rfl⟩

theorem IsEnded.leaf (hl : l.IsEnded) (hrest : rest.IsEnded) : (Components.leaf l rest).IsEnded :=
  ⟨List.forall_mem_cons.2 ⟨hl, hrest.lexemes⟩, hrest.shut⟩

theorem IsEnded.block {d : Bracket} (hk : k.token.closes? = some d) (hinner : inner.Closed b)
    (hread : AreRead (Components.block opener inner (some k) rest).lexemes)
    (hrest : rest.IsEnded) : (Components.block opener inner (some k) rest).IsEnded := by
  have hlexemes : (Components.block opener inner (some k) rest).lexemes =
      (opener :: inner.lexemes) ++ (k :: rest.lexemes) := by simp [Components.lexemes]
  refine ⟨?_, by simp [isShut, hinner.isShut, hrest.shut]⟩
  rw [hlexemes] at hread ⊢
  refine hread.isEnded_append (List.cons_ne_nil k rest.lexemes)
    (List.forall_mem_cons.2 ⟨?_, hrest.lexemes⟩)
  exact Lexeme.isEnded_of_token (isEnclosed_of_closes hk)

/-- Components whose last ones are `ds`. -/
def EndsIn (cs ds : Components) : Prop := ∃ front : Components, cs = front.append ds

theorem EndsIn.refl (cs : Components) : cs.EndsIn cs := ⟨nil .first, rfl⟩

theorem EndsIn.leaf (h : cs.EndsIn (leaf l rest)) : cs.EndsIn rest := by
  obtain ⟨front, rfl⟩ := h
  exact ⟨front.append (.leaf l (nil .first)), by rw [append_assoc]; rfl⟩

theorem EndsIn.block {closer : Option Lexeme} (h : cs.EndsIn (block opener inner closer rest)) :
    cs.EndsIn rest := by
  obtain ⟨front, rfl⟩ := h
  exact ⟨front.append (.block opener inner closer (nil .first)), by rw [append_assoc]; rfl⟩

/-- Whether something is left open depends on the last components alone. -/
theorem EndsIn.isEnded_iff (h : cs.EndsIn ds) (hformed : cs.Formed b) (hread : AreRead cs.lexemes)
    (hne : ds.lexemes ≠ []) : cs.IsEnded ↔ ds.IsEnded := by
  obtain ⟨front, rfl⟩ := h
  have hfront : front.isShut := (hformed.closed fun p hp => hne (by rw [hp]; rfl)).isShut
  rw [lexemes_append] at hread
  constructor
  · intro hcs
    have hshut := hcs.shut
    rw [isShut_append, Bool.and_eq_true] at hshut
    refine ⟨fun l hl => hcs.lexemes l ?_, hshut.2⟩
    rw [lexemes_append]
    exact List.mem_append_right _ hl
  · intro hds
    refine ⟨?_, by rw [isShut_append, hfront, hds.shut, Bool.and_self]⟩
    rw [lexemes_append]
    exact hread.isEnded_append hne hds.lexemes

theorem Closed.formed (h : cs.Closed b) : cs.Formed b := by
  induction cs with
  | nil => trivial
  | leaf l rest ih => exact ⟨h.1, h.2.1, ih h.2.2⟩
  | block opener inner closer rest _ ih =>
    obtain ⟨c, k, ho, rfl, hk, hinner, hrest⟩ := h
    exact ⟨c, ho, hk, hinner, ih hrest⟩

/-- Grouped components are closed if all their blocks are. -/
theorem Formed.closed_of_isShut (h : cs.Formed b) (hshut : cs.isShut) : cs.Closed b := by
  induction cs with
  | nil => trivial
  | leaf l rest ih => exact ⟨h.1, h.2.1, ih h.2.2 hshut⟩
  | block opener inner closer rest _ ih =>
    simp only [isShut, Bool.and_eq_true] at hshut
    obtain ⟨k, rfl⟩ := Option.isSome_iff_exists.1 hshut.1.1
    obtain ⟨c, ho, hk, hinner, hrest⟩ := h
    exact ⟨c, k, ho, rfl, hk, hinner, ih hrest hshut.2⟩

theorem areRead_ofText (s : List Char) : AreRead (ofText s).lexemes := by
  rw [lexemes_ofText]
  exact areRead_lexemes ..

/-- Of the lexemes of a text only the last can be open. -/
theorem isEnded_ofText_of_last {s : List Char} (hshut : (ofText s).isShut)
    (hlast : ∀ l ∈ (ofText s).lexemes.getLast?, l.token.isEnclosed = false) :
    (ofText s).IsEnded := by
  refine ⟨?_, hshut⟩
  rcases List.eq_nil_or_concat (ofText s).lexemes with hnil | ⟨front, l, hl⟩
  · rw [hnil]
    exact nofun
  · have hread := areRead_ofText s
    rw [List.concat_eq_append] at hl
    rw [hl, List.getLast?_concat] at hlast
    rw [hl] at hread ⊢
    exact hread.isEnded_append (List.cons_ne_nil l [])
      (List.forall_mem_singleton.2 (Lexeme.isEnded_of_token (hlast l rfl)))

end Components

end RasterFallback.Css
