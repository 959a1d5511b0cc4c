import RasterFallback.Proofs.Css.Grouping
import RasterFallback.Proofs.Css.Sign

/-!
Runs: texts that are closed in themselves and hold no unwanted token outside their
brackets. A run in front of a break is grouped as it would be by itself, wherever it
stands inside braces.
-/
namespace RasterFallback.Css
open RasterFallback.Text

namespace Components

/-- The tokens outside brackets, opening ones among them. -/
def tops : Components → List Token
  | nil _ => []
  | leaf l rest => l.token :: rest.tops
  | block opener _ _ rest => opener.token :: rest.tops

/-- The last component is a semicolon or an opening brace, and all tokens outside
brackets before it are `ok`. -/
def runsTo (ok : Token → Bool) : Components → Bool
  | nil _ => false
  | leaf l (nil _) => l.token = .semicolon
  | block opener (nil _) none (nil _) => opener.token = .opening .curly
  | leaf l rest => ok l.token && rest.runsTo ok
  | block opener _ _ rest => ok opener.token && rest.runsTo ok

/-- In front of the break `x` the text `t` is closed, with tokens outside brackets that are `ok`. -/
def isRun (ok : Token → Bool) (x : Char) (t : List Char) : Bool := (ofText (t ++ [x])).runsTo ok

/-- The components of a text while the brackets `pending` are open, and what follows them. -/
def grouped (pending : List Bracket) (s : List Char) : Components × List Tail :=
  group .first (spelled s) pending

theorem grouped_nil : grouped [] [] = (nil .first, []) := by
  simp [grouped, spelled, Css.lexemes, group]

theorem tops_unplaced (cs : Components) : cs.unplaced.tops = cs.tops := by
  induction cs with
  | nil => rfl
  | leaf l rest ih => simp [unplaced, tops, ih]
  | block opener inner closer rest _ ih => simp [unplaced, tops, ih]

theorem tops_append (cs ds : Components) : (cs.append ds).tops = cs.tops ++ ds.tops := by
  induction cs with
  | nil => rfl
  | leaf l rest ih => simp [tops, ih]
  | block opener inner closer rest _ ih => simp [tops, ih]

/-- Closed components are closed inside the bracket `b` too, if none of them closes it. -/
theorem Closed.inside {cs : Components} (h : cs.Closed none) {b : Option Bracket}
    (hb : ∀ k ∈ b, ∀ t ∈ cs.tops, t.closes? ≠ some k) : cs.Closed b := by
  induction cs with
  | nil => trivial
  | leaf l rest ih =>
    obtain ⟨ho, -, hrest⟩ := h
    refine ⟨ho, fun k hk => hb k hk l.token (List.mem_cons_self ..), ih hrest ?_⟩
    exact fun k hk t ht => hb k hk t (List.mem_cons_of_mem _ ht)
  | block opener inner closer rest _ ih =>
    obtain ⟨c, k, ho, hcloser, hk, hinner, hrest⟩ := h
    refine ⟨c, k, ho, hcloser, hk, hinner, ih hrest ?_⟩
    exact fun k hk t ht => hb k hk t (List.mem_cons_of_mem _ ht)

theorem exists_of_runsTo {ok : Token → Bool} {cs : Components} (h : cs.runsTo ok) :
    ∃ ps es e, cs = append ps es ∧ (∀ t ∈ ps.tops, ok t) ∧ es.lexemes = [e] ∧
      e.token.sign?.isSome := by
  fun_induction runsTo ok cs with
  | case1 => simp at h
  | case2 l p =>
    have hl : l.token = .semicolon := by simpa using h
    exact ⟨nil .first, leaf l (nil p), l, rfl, by simp [tops], rfl, by rw [hl]; rfl⟩
  | case3 opener p q =>
    have ho : opener.token = .opening .curly := by simpa using h
    exact ⟨nil .first, block opener (nil p) none (nil q), opener, rfl, by simp [tops], rfl,
      by rw [ho]; rfl⟩
  | case4 l rest _ ih =>
    obtain ⟨hl, hrest⟩ : ok l.token = true ∧ rest.runsTo ok = true := by simpa using h
    obtain ⟨ps, es, e, rfl, hps, hes⟩ := ih hrest
    exact ⟨leaf l ps, es, e, rfl, by simpa [tops, hl] using hps, hes⟩
  | case5 opener inner closer rest _ ih =>
    obtain ⟨ho, hrest⟩ : ok opener.token = true ∧ rest.runsTo ok = true := by simpa using h
    obtain ⟨ps, es, e, rfl, hps, hes⟩ := ih hrest
    exact ⟨block opener inner closer ps, es, e, rfl, by simpa [tops, ho] using hps, hes⟩

end Components

theorem spelled_of_append {s : List Char} {ls ms : List Lexeme} (h : spelled s = ls ++ ms) :
    spelled (ms.flatMap Lexeme.text) = ms := by
  induction ls generalizing s with
  | nil => rw [← List.nil_append ms, ← h, spelled_text]
  | cons l ls ih =>
    cases s with
    | nil => simp [spelled_nil] at h
    | cons c s =>
      rw [spelled_cons, List.cons_append] at h
      exact ih (List.cons.inj h).2

theorem eq_nil_of_spelled {s : List Char} (h : spelled s = []) : s = [] := by
  rw [← spelled_text s, h]
  rfl

theorem text_of_sign {s : List Char} {ls : List Lexeme} {e : Lexeme}
    (h : spelled s = ls ++ [e]) (he : e.token.sign?.isSome) : ∃ c, e.text = [c] := by
  have hlast := spelled_of_append h
  rw [List.flatMap_singleton] at hlast
  cases htext : e.text with
  | nil => simp [htext, spelled_nil] at hlast
  | cons c t =>
    rw [htext, spelled_cons] at hlast
    obtain ⟨htoken, hrest⟩ := List.cons.inj hlast
    obtain ⟨x, hx⟩ := Option.isSome_iff_exists.1 he
    rw [← htoken] at hx
    have hsign := (Token.read_sign hx).2
    rw [eq_nil_of_spelled hrest] at hsign
    exact ⟨c, by rw [← hsign]⟩

namespace Components

/-- A run is grouped alike in front of its break, whatever follows and wherever inside braces
it stands. -/
theorem grouped_of_isRun {ok : Token → Bool} {x : Char} {t : List Char} (hx : isBreak x)
    (h : isRun ok x t) (hok : ok (.closing .curly) = false) :
    ∃ ps : Components, (∀ k ∈ ps.tops, ok k) ∧ ps.text = t ∧
      ps.tops <+: (ofText (t ++ [x])).tops ∧
      ∀ (w : List Char) (pending : List Bracket), (∀ b ∈ pending.head?, b = .curly) →
        grouped pending (t ++ x :: w) =
          (ps.append (grouped pending (x :: w)).1, (grouped pending (x :: w)).2) := by
  obtain ⟨ps, es, e, hcs, hps, hes, he⟩ := exists_of_runsTo h
  have hspelled : spelled (t ++ [x]) = ps.unplaced.lexemes ++ [e.unplaced] := by
    rw [spelled, ← lexemes_ofText, hcs, lexemes_append, hes, List.map_append, lexemes_unplaced]
    rfl
  -- The sign at the end is the break.
  obtain ⟨c, hc⟩ := text_of_sign hspelled he
  have htext := congrArg (List.flatMap Lexeme.text) hspelled
  rw [spelled_text, List.flatMap_append, List.flatMap_singleton, hc, ← text_eq,
    text_unplaced] at htext
  obtain ⟨rfl, hxc⟩ := List.append_inj' htext rfl
  have hbreak : spelled [x] = [e.unplaced] := by
    have hlast := spelled_of_append hspelled
    rwa [List.flatMap_singleton, hc, ← hxc] at hlast
  rw [← hbreak] at hspelled
  refine ⟨ps.unplaced, by rwa [tops_unplaced], text_unplaced ps, ?_, fun w pending hpending => ?_⟩
  · rw [hcs, tops_append, tops_unplaced]
    exact List.prefix_append ..
  have hformed : (ofText (ps.text ++ [x])).Formed none := formed_group ..
  rw [hcs] at hformed
  have hclosed : ps.Closed pending.head? := by
    refine (Formed.closed hformed ?_).inside fun b hb k hk => ?_
    · rintro p rfl
      cases hes
    · obtain rfl := hpending b hb
      intro hcloses
      have hk := hps k hk
      cases k <;> simp_all [Token.closes?]
  rw [grouped, spelled_append_break hx hspelled, group_append hclosed]
  rfl

end Components

end RasterFallback.Css
