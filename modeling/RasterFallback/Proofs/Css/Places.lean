import Mathlib.Data.List.Nodup
import RasterFallback.Proofs.Css.Ended

/-!
Where lexemes stand. Each starts where the one before it leaves off, so the positions of
lexemes grow from one to the next, and tell them apart.
-/
namespace RasterFallback.Text.Position

/-- The order of positions in a text. -/
def Before (p q : Position) : Prop := p.line < q.line ∨ p.line = q.line ∧ p.column < q.column

section Order

variable {p q r : Position}

theorem Before.ne (h : p.Before q) : p ≠ q := by
  rintro rfl
  simp [Before] at h

theorem Before.trans (h : p.Before q) (h' : q.Before r) : p.Before r := by
  simp only [Before] at *
  omega

theorem before_newline (p : Position) : p.Before p.newline := .inl (Nat.lt_succ_self _)

theorem before_forward (p : Position) (c : Char) : p.Before (p.forward c) := by
  refine .inr ⟨rfl, ?_⟩
  simp only [forward]
  split <;> omega

theorem Before.after (h : p.Before q) (s : List Char) : p.Before (q.after s) := by
  fun_induction Position.after q s with
  | case1 q s ih => exact ih (h.trans q.before_newline)
  | case2 q s _ ih => exact ih (h.trans q.before_newline)
  | case3 q s ih => exact ih (h.trans q.before_newline)
  | case4 q s ih => exact ih (h.trans q.before_newline)
  | case5 q c s _ _ _ _ ih => exact ih (h.trans (q.before_forward c))
  | case6 q => exact h

/-- A text takes room. -/
theorem before_after {s : List Char} (hs : s ≠ []) (p : Position) : p.Before (p.after s) := by
  fun_cases Position.after p s with
  | case1 s => exact p.before_newline.after s
  | case2 s => exact p.before_newline.after s
  | case3 s => exact p.before_newline.after s
  | case4 s => exact p.before_newline.after s
  | case5 c s => exact (p.before_forward c).after s
  | case6 => exact absurd rfl hs

end Order

end RasterFallback.Text.Position

namespace RasterFallback.Css
open RasterFallback.Text

theorem start_lexemes (p : Position) (s : List Char) :
    ∀ l ∈ lexemes p s, l.start = p ∨ p.Before l.start := by
  fun_induction lexemes p s with
  | case1 => exact fun l hl => absurd hl List.not_mem_nil
  | case2 p c s read piece ih =>
    refine List.forall_mem_cons.2 ⟨.inl rfl, fun l hl => .inr ?_⟩
    have hpiece : p.Before (p.after piece) := p.before_after (List.cons_ne_nil _ _)
    rcases ih l hl with h | h
    · exact h ▸ hpiece
    · exact hpiece.trans h

/-- The positions of lexemes grow. -/
theorem pairwise_lexemes (p : Position) (s : List Char) :
    (lexemes p s).Pairwise fun a b => a.start.Before b.start := by
  fun_induction lexemes p s with
  | case1 => exact .nil
  | case2 p c s read piece ih =>
    refine List.pairwise_cons.2 ⟨fun l hl => ?_, ih⟩
    have hpiece : p.Before (p.after piece) := p.before_after (List.cons_ne_nil _ _)
    rcases start_lexemes _ _ l hl with h | h
    · exact h ▸ hpiece
    · exact hpiece.trans h

theorem nodup_starts (p : Position) (s : List Char) : ((lexemes p s).map Lexeme.start).Nodup :=
  List.pairwise_map.2 <| (pairwise_lexemes p s).imp Position.Before.ne

/-- A position is the start of one lexeme only. -/
theorem eq_of_start_eq {p : Position} {s : List Char} {a b : Lexeme} (ha : a ∈ lexemes p s)
    (hb : b ∈ lexemes p s) (h : a.start = b.start) : a = b :=
  List.inj_on_of_nodup_map (nodup_starts p s) ha hb h

/-- Lexemes of which each starts where the one before it leaves off. -/
def AreAdjoined : List Lexeme → Prop
  | [] => True
  | l :: ls => (∀ m ∈ ls.head?, m.start = l.stop) ∧ AreAdjoined ls

theorem areAdjoined_lexemes (p : Position) (s : List Char) : AreAdjoined (lexemes p s) := by
  fun_induction lexemes p s with
  | case1 => trivial
  | case2 p c s read piece ih =>
    refine ⟨?_, ih⟩
    cases hrest : read.2 with
    | nil => simp [lexemes]
    | cons d t =>
      rw [lexemes]
      exact fun m hm => Option.some.inj hm ▸ rfl

namespace AreAdjoined

variable {front behind : List Lexeme} {a b : Lexeme}

theorem append_right (h : AreAdjoined (front ++ behind)) : AreAdjoined behind := by
  induction front with
  | nil => exact h
  | cons l front ih => exact ih h.2

theorem append_left (h : AreAdjoined (front ++ behind)) : AreAdjoined front := by
  induction front with
  | nil => trivial
  | cons l front ih =>
    exact ⟨fun m hm => h.1 m (List.mem_head?_append_of_mem_head? hm), ih h.2⟩

theorem start_eq {ls : List Lexeme} (h : AreAdjoined ls) (hab : [a, b] <:+: ls) :
    b.start = a.stop := by
  obtain ⟨front, behind, rfl⟩ := hab
  exact h.append_left.append_right.1 b rfl

end AreAdjoined

namespace Components

/-- The brackets at every depth, each with what closes it. -/
def brackets : Components → List (Lexeme × Option Lexeme)
  | nil _ => []
  | leaf _ rest => rest.brackets
  | block opener inner closer rest => (opener, closer) :: (inner.brackets ++ rest.brackets)

section Brackets

variable {cs : Components} {l : Lexeme}

theorem sublist_brackets (cs : Components) : (cs.brackets.map Prod.fst).Sublist cs.lexemes := by
  induction cs with
  | nil => exact .slnil
  | leaf l rest ih => exact ih.cons l
  | block opener inner closer rest ihi ihr =>
    simp only [brackets, lexemes, List.map_cons, List.map_append]
    exact ((ihi.trans (List.sublist_append_left ..)).append ihr).cons_cons opener

theorem mem_of_mem_brackets {k : Option Lexeme} (h : (l, k) ∈ cs.brackets) : l ∈ cs.lexemes :=
  cs.sublist_brackets.subset (List.mem_map_of_mem h)

/-- Within closed components every bracket is closed. -/
theorem Closed.exists_closer {b : Option Bracket} (h : cs.Closed b) (hl : l ∈ cs.lexemes)
    (hopens : l.token.opens?.isSome) : ∃ k, (l, some k) ∈ cs.brackets := by
  induction cs generalizing b with
  | nil => cases hl
  | leaf m rest ih =>
    obtain ⟨hm, -, hrest⟩ := h
    rcases List.mem_cons.1 hl with rfl | hl
    · simp [hm] at hopens
    · exact ih hrest hl
  | block opener inner closer rest ihi ihr =>
    obtain ⟨c, k, -, rfl, hk, hinner, hrest⟩ := h
    simp only [lexemes, List.mem_cons, List.mem_append, Option.toList_some, List.not_mem_nil,
      or_false] at hl
    rcases hl with rfl | (hl | rfl) | hl
    · exact ⟨k, List.mem_cons_self ..⟩
    · obtain ⟨m, hm⟩ := ihi hinner hl
      exact ⟨m, List.mem_cons_of_mem _ (List.mem_append_left _ hm)⟩
    · simp [opens?_of_closes? hk] at hopens
    · obtain ⟨m, hm⟩ := ihr hrest hl
      exact ⟨m, List.mem_cons_of_mem _ (List.mem_append_right _ hm)⟩

/-- A bracket of a text is either closed or not. -/
theorem closer_unique {s : List Char} {j k : Option Lexeme} (hj : (l, j) ∈ (ofText s).brackets)
    (hk : (l, k) ∈ (ofText s).brackets) : j = k := by
  have hnodup : ((ofText s).brackets.map Prod.fst).Nodup := by
    refine (sublist_brackets _).nodup ?_
    rw [lexemes_ofText]
    exact (nodup_starts .first s).of_map _
  exact congrArg Prod.snd (List.inj_on_of_nodup_map hnodup hj hk rfl)

/-- Whether components stand within others, at any depth. -/
def IsWithin (ds cs : Components) : Prop :=
  ds.lexemes <:+: cs.lexemes ∧ ds.brackets ⊆ cs.brackets

theorem isWithin_leaf (l : Lexeme) (rest : Components) : rest.IsWithin (leaf l rest) :=
  ⟨(List.suffix_cons ..).isInfix, fun _ => id⟩

theorem isWithin_inner (opener : Lexeme) (inner : Components) (closer : Option Lexeme)
    (rest : Components) : inner.IsWithin (block opener inner closer rest) :=
  ⟨⟨[opener], closer.toList ++ rest.lexemes, by simp [lexemes]⟩,
    fun _ h => List.mem_cons_of_mem _ (List.mem_append_left _ h)⟩

theorem isWithin_rest (opener : Lexeme) (inner : Components) (closer : Option Lexeme)
    (rest : Components) : rest.IsWithin (block opener inner closer rest) :=
  ⟨⟨opener :: (inner.lexemes ++ closer.toList), [], by simp [lexemes]⟩,
    fun _ h => List.mem_cons_of_mem _ (List.mem_append_right _ h)⟩

end Brackets

end Components

end RasterFallback.Css
