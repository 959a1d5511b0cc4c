import RasterFallback.Css.Components
import RasterFallback.Proofs.Css.Settled

/-!
Lexemes and components without their positions, and how both go together for two
texts one behind the other. What a text in front of a break is read as does not
depend on what follows, and closed components are grouped alike wherever they stand.
-/
namespace RasterFallback.Css
open RasterFallback.Text

def Lexeme.unplaced (l : Lexeme) : Lexeme := { l with start := .first }

@[simp] theorem Lexeme.unplaced_token (l : Lexeme) : l.unplaced.token = l.token := rfl

@[simp] theorem Lexeme.unplaced_text (l : Lexeme) : l.unplaced.text = l.text := rfl

@[simp] theorem Lexeme.unplaced_start (l : Lexeme) : l.unplaced.start = .first := rfl

/-- The lexemes of a text without their positions. -/
def spelled (s : List Char) : List Lexeme := (lexemes .first s).map Lexeme.unplaced

theorem lexemes_unplaced (p q : Position) (s : List Char) :
    (lexemes p s).map Lexeme.unplaced = (lexemes q s).map Lexeme.unplaced := by
  fun_induction lexemes p s generalizing q with
  | case1 => simp [lexemes]
  | case2 p c s read piece ih =>
    rw [lexemes]
    simp only [List.map_cons, ih (q.after piece)]
    rfl

theorem spelled_nil : spelled [] = [] := by simp [spelled, lexemes]

theorem spelled_cons (c : Char) (s : List Char) : spelled (c :: s) =
    ⟨(Token.read c s).1, c :: consumed s (Token.read c s).2, .first⟩ ::
      spelled (Token.read c s).2 := by
  rw [spelled, lexemes]
  simp only [List.map_cons, lexemes_unplaced _ .first]
  rfl

theorem spelled_text (s : List Char) : (spelled s).flatMap Lexeme.text = s := by
  have htext : (spelled s).flatMap Lexeme.text = (lexemes .first s).flatMap Lexeme.text := by
    simp [spelled, List.flatMap_map]
  rw [htext, lexemes_text]

/-- A text that is read as `ls` in front of `z` is read so in front of `w` too, if each of its
tokens is. -/
theorem spelled_append_congr {a z w : List Char} {ls : List Lexeme}
    (h : spelled (a ++ z) = ls ++ spelled z)
    (hread : ∀ (c : Char) (b m : List Char) (t : Token), c :: b <:+ a →
      Token.read c (b ++ z) = (t, m ++ z) → (m = [] → ls.getLast? = some ⟨t, c :: b, .first⟩) →
      Token.read c (b ++ w) = (t, m ++ w)) :
    spelled (a ++ w) = ls ++ spelled w := by
  induction hn : a.length using Nat.strongRecOn generalizing a ls with
  | ind n ih =>
    have htext := congrArg (List.flatMap Lexeme.text) h
    rw [List.flatMap_append, spelled_text, spelled_text] at htext
    cases a with
    | nil =>
      obtain rfl : ls = [] := by simpa using h
      rfl
    | cons c a =>
      cases ls with
      | nil =>
        have hlen := congrArg List.length htext
        simp at hlen
        omega
      | cons l ls =>
        rw [List.cons_append, spelled_cons, List.cons_append] at h
        obtain ⟨hl, hrest⟩ := List.cons.inj h
        -- The first token leaves `z` with all that is in front of it.
        obtain ⟨m, hm⟩ : ∃ m, (Token.read c (a ++ z)).2 = m ++ z := by
          have ht := congrArg (List.flatMap Lexeme.text) hrest
          rw [List.flatMap_append, spelled_text, spelled_text] at ht
          exact ⟨_, ht⟩
        obtain ⟨k, rfl⟩ : ∃ k, k ++ m = a := by
          obtain ⟨k, hk⟩ := hm ▸ Token.read_suffix c (a ++ z)
          exact ⟨k, List.append_cancel_right (by simpa using hk)⟩
        have hconsumed (u : List Char) : consumed (k ++ m ++ u) (m ++ u) = k := by
          rw [List.append_assoc, consumed_append_self]
        have hfirst : Token.read c (k ++ m ++ z) = (l.token, m ++ z) := Prod.ext (hl ▸ rfl) hm
        have hltext : (⟨l.token, c :: k, .first⟩ : Lexeme) = l := by
          rw [← hl, hm, hconsumed]
        rw [hm] at hrest
        have hmore : spelled (m ++ w) = ls ++ spelled w := by
          refine ih m.length ?_ hrest (fun d b m' t hsuffix hd hlast => ?_) rfl
          · simp at hn
            omega
          · have hin : m <:+ c :: (k ++ m) := ⟨c :: k, rfl⟩
            exact hread d b m' t (hsuffix.trans hin) hd fun hm' => by
              rw [List.getLast?_cons, hlast hm']
              rfl
        have hagain := hread c (k ++ m) m l.token List.suffix_rfl hfirst fun hm' => by
          subst hm'
          obtain rfl : ls = [] := by simpa using hrest
          rw [List.append_nil, hltext]
          rfl
        rw [List.cons_append, spelled_cons, hagain, hmore, hconsumed, hltext, List.cons_append]

/-- What a text is read as in front of a break does not depend on what follows the break. -/
theorem spelled_append_break {x : Char} (hx : isBreak x) {a v : List Char} {ls : List Lexeme}
    (h : spelled (a ++ x :: v) = ls ++ spelled (x :: v)) (w : List Char) :
    spelled (a ++ x :: w) = ls ++ spelled (x :: w) :=
  spelled_append_congr h fun c b _ _ _ hread _ => (Token.read_settles hx c b).of_append hread w

namespace Components

/-- Components without their positions. -/
def unplaced : Components → Components
  | nil _ => nil .first
  | leaf l rest => leaf l.unplaced rest.unplaced
  | block opener inner closer rest =>
    block opener.unplaced inner.unplaced (closer.map Lexeme.unplaced) rest.unplaced

def append : Components → Components → Components
  | nil _, ds => ds
  | leaf l rest, ds => leaf l (rest.append ds)
  | block opener inner closer rest, ds => block opener inner closer (rest.append ds)

@[simp] theorem nil_append (p : Position) (ds : Components) : (nil p).append ds = ds := rfl

@[simp] theorem leaf_append (l : Lexeme) (cs ds : Components) :
    (leaf l cs).append ds = leaf l (cs.append ds) := rfl

@[simp] theorem block_append (opener : Lexeme) (inner : Components) (closer : Option Lexeme)
    (cs ds : Components) :
    (block opener inner closer cs).append ds = block opener inner closer (cs.append ds) := rfl

theorem append_assoc (cs ds es : Components) :
    (cs.append ds).append es = cs.append (ds.append es) := by
  induction cs with
  | nil => rfl
  | leaf l rest ih => simp [ih]
  | block opener inner closer rest _ ih => simp [ih]

theorem unplaced_append_nil (cs : Components) : cs.unplaced.append (nil .first) = cs.unplaced := by
  induction cs with
  | nil => rfl
  | leaf l rest ih => simp [unplaced, ih]
  | block opener inner closer rest _ ih => simp [unplaced, ih]

theorem lexemes_append (cs ds : Components) :
    (cs.append ds).lexemes = cs.lexemes ++ ds.lexemes := by
  induction cs with
  | nil => rfl
  | leaf l rest ih => simp [lexemes, ih]
  | block opener inner closer rest _ ih => simp [lexemes, ih]

theorem lexemes_unplaced (cs : Components) :
    cs.unplaced.lexemes = cs.lexemes.map Lexeme.unplaced := by
  induction cs with
  | nil => rfl
  | leaf l rest ih => simp [unplaced, lexemes, ih]
  | block opener inner closer rest ihi ihr => cases closer <;> simp [unplaced, lexemes, ihi, ihr]

theorem text_leaf (l : Lexeme) (rest : Components) : (leaf l rest).text = l.text ++ rest.text := rfl

theorem text_block (opener : Lexeme) (inner : Components) (closer : Option Lexeme)
    (rest : Components) :
    (block opener inner closer rest).text = blockText opener inner closer ++ rest.text := by
  simp [text_eq, lexemes, blockText]

theorem text_append (cs ds : Components) : (cs.append ds).text = cs.text ++ ds.text := by
  rw [text_eq, text_eq, text_eq, lexemes_append, List.flatMap_append]

theorem text_unplaced (cs : Components) : cs.unplaced.text = cs.text := by
  rw [text_eq, text_eq, lexemes_unplaced, List.flatMap_map]
  rfl

theorem skipSpace_unplaced (cs : Components) : cs.unplaced.skipSpace = cs.skipSpace.unplaced := by
  induction cs with
  | nil => rfl
  | leaf l rest ih =>
    rw [unplaced, skipSpace, skipSpace, Lexeme.unplaced_token, ih]
    split <;> rfl
  | block => rfl

def Tail.unplaced (t : Tail) : Tail := ⟨t.closer.map Lexeme.unplaced, t.rest.unplaced⟩

section Step

variable (stop : Position) {l : Lexeme} (ls : List Lexeme) {pending : List Bracket} {b : Bracket}

theorem opens?_of_closes? {t : Token} (h : t.closes? = some b) : t.opens? = none := by
  cases t <;> simp_all [Token.closes?, Token.opens?]

theorem group_opening (h : l.token.opens? = some b) {inner : Components} {tail : Tail}
    {outer : List Tail} (hg : group stop ls (b :: pending) = (inner, tail :: outer)) :
    group stop (l :: ls) pending = (block l inner tail.closer tail.rest, outer) := by
  rw [group.eq_def]
  simp [h, hg]

theorem group_closing (h : l.token.closes? = some b) : group stop (l :: ls) (b :: pending) =
    (nil l.start, ⟨some l, (group stop ls pending).1⟩ :: (group stop ls pending).2) := by
  rw [group.eq_def]
  simp [h, opens?_of_closes? h]

theorem group_leaf (ho : l.token.opens? = none)
    (hc : ∀ b ∈ pending.head?, l.token.closes? ≠ some b) :
    group stop (l :: ls) pending =
      (leaf l (group stop ls pending).1, (group stop ls pending).2) := by
  rw [group.eq_def]
  cases pending with
  | nil => simp [ho]
  | cons b pending =>
    have hb : l.token.closes? ≠ some b := hc b rfl
    simp [ho, hb]

end Step

theorem group_unplaced (stop : Position) (ls : List Lexeme) (pending : List Bracket) :
    group .first (ls.map Lexeme.unplaced) pending =
      ((group stop ls pending).1.unplaced, (group stop ls pending).2.map Tail.unplaced) := by
  fun_induction group stop ls pending with
  | case1 pending => simp [group, unplaced, Tail.unplaced]
  | case2 l ls pending b hopens inner tail outer h ih =>
    rw [h] at ih
    exact group_opening .first _ (l := l.unplaced) hopens ih
  | case3 l ls pending b hopens inner h ih =>
    have hlen := group_length stop ls (b :: pending)
    simp [h] at hlen
  | case4 l ls hopens g ih =>
    rw [List.map_cons, group_leaf .first _ (l := l.unplaced) hopens (by simp), ih]
    rfl
  | case5 l ls hopens b pending hcloses g ih =>
    rw [List.map_cons, group_closing .first _ (l := l.unplaced) hcloses, ih]
    rfl
  | case6 l ls hopens b pending hcloses g ih =>
    rw [List.map_cons, group_leaf .first _ (l := l.unplaced) hopens (by simpa using hcloses), ih]
    rfl

/-- No component is closed by the bracket `b` and every block has its closing bracket. -/
def Closed (b : Option Bracket) : Components → Prop
  | nil _ => True
  | leaf l rest =>
    l.token.opens? = none ∧ (∀ k ∈ b, l.token.closes? ≠ some k) ∧ rest.Closed b
  | block opener inner closer rest =>
    ∃ c k, opener.token.opens? = some c ∧ closer = some k ∧ k.token.closes? = some c ∧
      inner.Closed (some c) ∧ rest.Closed b

/-- Closed components are grouped alike, whatever follows them. -/
theorem group_append {cs : Components} {pending : List Bracket} (h : cs.Closed pending.head?)
    (ls : List Lexeme) :
    group .first (cs.unplaced.lexemes ++ ls) pending =
      (cs.unplaced.append (group .first ls pending).1, (group .first ls pending).2) := by
  induction cs generalizing pending ls with
  | nil p => rfl
  | leaf l rest ih =>
    obtain ⟨ho, hc, hrest⟩ := h
    rw [unplaced, lexemes, List.cons_append, group_leaf .first _ (l := l.unplaced) ho hc, ih hrest]
    rfl
  | block opener inner closer rest ihi ihr =>
    obtain ⟨c, k, ho, rfl, hk, hinner, hrest⟩ := h
    have hinside := @ihi (c :: pending) hinner (k.unplaced :: (rest.unplaced.lexemes ++ ls))
    rw [group_closing .first _ (l := k.unplaced) hk, ihr hrest] at hinside
    have hblock := group_opening .first _ (l := opener.unplaced) ho hinside
    simp only [Lexeme.unplaced_start, unplaced_append_nil] at hblock
    simpa [unplaced, lexemes] using hblock

/-- Every block but the last is closed, and no component is closed by the bracket `b`. -/
def Formed (b : Option Bracket) : Components → Prop
  | nil _ => True
  | leaf l rest =>
    l.token.opens? = none ∧ (∀ k ∈ b, l.token.closes? ≠ some k) ∧ rest.Formed b
  | block opener inner closer rest =>
    ∃ c, opener.token.opens? = some c ∧
      match closer with
      | some k => k.token.closes? = some c ∧ inner.Closed (some c) ∧ rest.Formed b
      | none => inner.Formed (some c) ∧ ∃ p, rest = nil p

/-- The levels of a grouping: closed ones up to a level, and nothing behind it. -/
def LevelsFormed : Components → List Bracket → List Tail → Prop
  | cs, [], [] => cs.Formed none
  | cs, b :: pending, tail :: outer =>
    (∃ k, tail.closer = some k ∧ k.token.closes? = some b ∧ cs.Closed (some b) ∧
        LevelsFormed tail.rest pending outer) ∨
      (cs.Formed (some b) ∧ ∀ t ∈ tail :: outer, t.closer = none ∧ ∃ p, t.rest = nil p)
  | _, _, _ => False

theorem LevelsFormed.leaf {cs : Components} {pending : List Bracket} {outer : List Tail}
    (h : LevelsFormed cs pending outer) {l : Lexeme} (ho : l.token.opens? = none)
    (hc : ∀ b ∈ pending.head?, l.token.closes? ≠ some b) :
    LevelsFormed (.leaf l cs) pending outer := by
  cases pending with
  | nil =>
    cases outer with
    | nil => exact ⟨ho, by simp, h⟩
    | cons t outer => exact h.elim
  | cons b pending =>
    cases outer with
    | nil => exact h.elim
    | cons t outer =>
      rcases h with ⟨k, ht, hk, hcs, hrest⟩ | ⟨hcs, hrest⟩
      · exact .inl ⟨k, ht, hk, ⟨ho, hc, hcs⟩, hrest⟩
      · exact .inr ⟨⟨ho, hc, hcs⟩, hrest⟩

theorem LevelsFormed.block {inner : Components} {b : Bracket} {pending : List Bracket}
    {tail : Tail} {outer : List Tail} (h : LevelsFormed inner (b :: pending) (tail :: outer))
    {l : Lexeme} (ho : l.token.opens? = some b) (hlen : outer.length = pending.length) :
    LevelsFormed (.block l inner tail.closer tail.rest) pending outer := by
  rcases h with ⟨k, ht, hk, hinner, hrest⟩ | ⟨hinner, hrest⟩
  · cases pending with
    | nil =>
      cases outer with
      | nil => exact ⟨b, ho, by rw [ht]; exact ⟨hk, hinner, hrest⟩⟩
      | cons t outer => exact hrest.elim
    | cons b' pending =>
      cases outer with
      | nil => exact hrest.elim
      | cons t outer =>
        rcases hrest with ⟨k', ht', hk', hcs, hrest⟩ | ⟨hcs, hrest⟩
        · exact .inl ⟨k', ht', hk', ⟨b, k, ho, ht, hk, hinner, hcs⟩, hrest⟩
        · exact .inr ⟨⟨b, ho, by rw [ht]; exact ⟨hk, hinner, hcs⟩⟩, hrest⟩
  · obtain ⟨ht, hnil⟩ := hrest tail (List.mem_cons_self ..)
    have hblock (c : Option Bracket) : Formed c (.block l inner tail.closer tail.rest) :=
      ⟨b, ho, by rw [ht]; exact ⟨hinner, hnil⟩⟩
    cases pending with
    | nil =>
      obtain rfl : outer = [] := by simpa using hlen
      exact hblock none
    | cons b' pending =>
      obtain ⟨t, outer, rfl⟩ := List.exists_cons_of_length_eq_add_one hlen
      exact .inr ⟨hblock _, fun u hu => hrest u (List.mem_cons_of_mem _ hu)⟩

/-- Grouping leaves open only what the text ends in. -/
theorem group_formed (stop : Position) (ls : List Lexeme) (pending : List Bracket) :
    LevelsFormed (group stop ls pending).1 pending (group stop ls pending).2 := by
  fun_induction group stop ls pending with
  | case1 pending =>
    cases pending with
    | nil => trivial
    | cons b pending =>
      refine .inr ⟨trivial, ?_⟩
      intro t ht
      obtain ⟨b', -, rfl⟩ : ∃ b' ∈ b :: pending, (⟨none, nil stop⟩ : Tail) = t := List.mem_map.1 ht
      exact ⟨rfl, stop, rfl⟩
  | case2 l ls pending b hopens inner tail outer h ih =>
    have hlen := group_length stop ls (b :: pending)
    rw [h] at ih hlen
    exact ih.block hopens (by simpa using hlen)
  | case3 l ls pending b hopens inner h ih =>
    have hlen := group_length stop ls (b :: pending)
    simp [h] at hlen
  | case4 l ls hopens g ih => exact ih.leaf hopens (by simp)
  | case5 l ls hopens b pending hcloses g ih => exact .inl ⟨l, rfl, hcloses, trivial, ih⟩
  | case6 l ls hopens b pending hcloses g ih => exact ih.leaf hopens (by simpa using hcloses)

/-- Outside all brackets there is nothing behind what is grouped. -/
theorem group_snd (stop : Position) (ls : List Lexeme) : (group stop ls []).2 = [] :=
  List.length_eq_zero_iff.1 (group_length stop ls [])

theorem formed_group (stop : Position) (ls : List Lexeme) : (group stop ls []).1.Formed none := by
  have h := group_formed stop ls []
  rwa [group_snd] at h

/-- Components with something behind them are closed. -/
theorem Formed.closed {b : Option Bracket} {cs ds : Components} (h : (cs.append ds).Formed b)
    (hds : ∀ p, ds ≠ nil p) : cs.Closed b := by
  induction cs with
  | nil => trivial
  | leaf l rest ih => exact ⟨h.1, h.2.1, ih h.2.2⟩
  | block opener inner closer rest _ ih =>
    obtain ⟨c, ho, h⟩ := h
    cases closer with
    | some k => exact ⟨c, k, ho, rfl, h.1, h.2.1, ih h.2.2⟩
    | none =>
      -- An open block is the last component.
      obtain ⟨-, p, hp⟩ := h
      cases rest with
      | nil => exact (hds p hp).elim
      | leaf => cases hp
      | block => cases hp

end Components

end RasterFallback.Css
