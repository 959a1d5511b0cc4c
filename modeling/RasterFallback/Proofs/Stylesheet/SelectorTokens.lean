import RasterFallback.Css.Components
import RasterFallback.Fallback.Rule
import RasterFallback.Proofs.Css.Grouping
import RasterFallback.Proofs.Css.Origin
import RasterFallback.Proofs.Css.Sign
import RasterFallback.Proofs.Css.Url
import RasterFallback.Stylesheet.Parser

/-!
Selector lists seen as tokens. The selectors of a list are cut by a scan over characters
that knows quotes and brackets, but neither escapes, comments nor urls. Where these hide
no quote, bracket or comma, the scan cuts at the commas that stand outside all brackets,
and at no others.
-/
namespace RasterFallback.Css
open RasterFallback.Text

/-- Quotes and brackets, which guard commas. -/
def isGuard (c : Char) : Bool :=
  c == '\x22' || c == '\x27' || c == '(' || c == ')' || c == '[' || c == ']'

/-- The characters that matter where selectors are cut. -/
def isMark (c : Char) : Bool := isGuard c || c == ','

namespace Token

/-- Strings, whether they are whole or not. -/
def isString : Token → Bool
  | .quotedString _ => true
  | .badString _ => true
  | _ => false

/-- Tokens that begin with a name and a parenthesis. -/
def isCall : Token → Bool
  | .function _ => true
  | .unquotedUrl _ => true
  | .badUrl _ => true
  | _ => false

/-- How many parentheses and square brackets are open behind the token, of `depth` before. -/
def depthBehind (depth : Nat) : Token → Nat
  | .function _ => depth + 1
  | .opening .paren => depth + 1
  | .opening .square => depth + 1
  | .closing .paren => depth - 1
  | .closing .square => depth - 1
  | _ => depth

end Token

/-- The marks in the text of the lexeme are what they seem: those of a sign or a string, or the
parentheses of a function or url. -/
def Lexeme.isFrank (l : Lexeme) : Bool :=
  match l.token with
  | .quotedString _ => true
  | .badString _ => false
  | .function _ => l.text.dropLast.all (!isMark ·)
  | .unquotedUrl _ | .badUrl _ =>
    (l.text.takeWhile (· != '(')).all (!isMark ·) &&
      (l.text.dropWhile (· != '(')).tail.dropLast.all (!isGuard ·)
  | t => t.sign?.isSome || l.text.all (!isMark ·)

namespace Components

/-- All lexemes are frank, and brackets are closed by their counterparts before any other
bracket is. Braces stand inside other brackets only. -/
def isTidy (inside : Bool) : Components → Bool
  | nil _ => true
  | leaf l rest =>
    l.isFrank && !(inside && (l.token = .closing .paren || l.token = .closing .square)) &&
      rest.isTidy inside
  | block opener inner _ rest =>
    opener.isFrank && (inside || opener.token != .opening .curly) && inner.isTidy true &&
      rest.isTidy inside

/-- Puts a text in front of the first of several pieces. -/
def prepend (t : List Char) : List (List Char) → List (List Char)
  | [] => [t]
  | p :: ps => (t ++ p) :: ps

/-- The pieces between the commas that stand outside all brackets. -/
def commaPieces : Components → List (List Char)
  | nil _ => [[]]
  | leaf l rest =>
    if l.token = .comma then [] :: rest.commaPieces else prepend l.text rest.commaPieces
  | block opener inner closer rest => prepend (blockText opener inner closer) rest.commaPieces

end Components

section Reading

/-- Strings are read behind their quote mark, and calls as names. -/
theorem Token.read_string_or_call (c : Char) (s : List Char) :
    ((Token.read c s).1.isString = true →
      (c = '\x22' ∨ c = '\x27') ∧ Token.read c s = quotedToken c s) ∧
    ((Token.read c s).1.isCall = true → Token.read c s = nameToken (c :: s)) := by
  have horigin := Token.read_origin c s
  unfold Origin at horigin
  generalize Token.read c s = r at horigin ⊢
  obtain ⟨t, rest⟩ := r
  cases t
  case quotedString => exact ⟨fun _ => horigin, nofun⟩
  case badString => exact ⟨fun _ => horigin, nofun⟩
  case function => exact ⟨nofun, fun _ => horigin.2⟩
  case unquotedUrl => exact ⟨nofun, fun _ => horigin.2⟩
  case badUrl => exact ⟨nofun, fun _ => horigin.2⟩
  all_goals exact ⟨nofun, nofun⟩

theorem urlEnd_paren {s : List Char} (h : (urlEnd s).1 = true) (hrest : (urlEnd s).2 ≠ []) :
    ∃ b, s = b ++ ')' :: (urlEnd s).2 := by
  induction s with
  | nil => exact absurd rfl hrest
  | cons c s ih =>
    unfold urlEnd at h hrest ⊢
    split
    · rename_i hc
      exact ⟨[], by simp [hc]⟩
    · rename_i hc
      rw [if_neg hc] at h hrest
      split
      · rename_i hblank
        rw [if_pos hblank] at h hrest
        obtain ⟨b, hb⟩ := ih h hrest
        exact ⟨c :: b, by rw [List.cons_append, ← hb]⟩
      · rename_i hblank
        rw [if_neg hblank] at h
        cases h

theorem urlContent_paren {s : List Char} (h : (urlContent s).1.isSome = true)
    (hrest : (urlContent s).2 ≠ []) : ∃ b, s = b ++ ')' :: (urlContent s).2 := by
  fun_induction urlContent s with
  | case1 => exact absurd rfl hrest
  | case2 s => exact ⟨[], rfl⟩
  | case3 c s hc hblank e =>
    have hend : e.1 = true := by
      cases hend : e.1 with
      | true => rfl
      | false =>
        rw [hend] at h
        cases h
    obtain ⟨b, hb⟩ := urlEnd_paren hend hrest
    exact ⟨c :: b, congrArg (c :: ·) hb⟩
  | case4 => cases h
  | case5 => cases h
  | case6 s _ r _ _ _ ih =>
    have hsome : r.1.isSome = true := by simpa using h
    obtain ⟨b, hb⟩ := ih hsome hrest
    obtain ⟨t, ht⟩ := escape_suffix s
    refine ⟨'\\' :: (t ++ b), ?_⟩
    rw [List.cons_append, List.append_assoc, ← hb, ht]
  | case7 c s _ _ _ _ r ih =>
    have hsome : r.1.isSome = true := by simpa using h
    obtain ⟨b, hb⟩ := ih hsome hrest
    exact ⟨c :: b, congrArg (c :: ·) hb⟩

/-- A url ends with its parenthesis, or with the text. -/
theorem urlToken_paren (f : Token) (s : List Char) : urlToken f s = (f, s) ∨
    (∀ n, (urlToken f s).1 ≠ .function n) ∧
      ((urlToken f s).2 ≠ [] → ∃ b, s = b ++ ')' :: (urlToken f s).2) := by
  have hbody : s.dropWhile isAsciiBlank <:+ s := List.dropWhile_suffix _
  unfold urlToken
  dsimp only
  split
  · exact .inl rfl
  · exact .inl rfl
  · obtain ⟨k, hk⟩ := hbody
    refine .inr ?_
    split
    · rename_i content rest hcontent
      refine ⟨nofun, fun hrest => ?_⟩
      obtain ⟨b, hb⟩ := urlContent_paren (s := s.dropWhile isAsciiBlank) (by rw [hcontent]; rfl)
        (by rw [hcontent]; exact hrest)
      rw [hcontent] at hb
      exact ⟨k ++ b, by rw [List.append_assoc, ← hb, hk]⟩
    · rename_i rest hbroken
      refine ⟨nofun, fun hrest => ?_⟩
      have hrest' : rest <:+ s.dropWhile isAsciiBlank := by
        have hsuffix := urlContent_suffix (s.dropWhile isAsciiBlank)
        rwa [hbroken] at hsuffix
      obtain ⟨m, hm⟩ := (brokenUrlEnd_suffix rest).trans hrest'
      rcases brokenUrlEnd_eq rest with hnone | ⟨left, hleft⟩
      · rw [hnone] at hrest
        exact absurd rfl hrest
      · rw [hleft] at hm ⊢
        exact ⟨k ++ m, by rw [List.append_assoc, List.drop_succ_cons, List.drop_zero, hm, hk]⟩

/-- What is read of a call: a name with its parenthesis, and for a url all up to the
parenthesis that ends it, or to the end of the text. -/
theorem nameToken_call {s : List Char} (h : (nameToken s).1.isCall = true) :
    ∃ t behind, s = t ++ '(' :: behind ∧
      ((∃ n, nameToken s = (.function n, behind)) ∨
        (∀ n, (nameToken s).1 ≠ .function n) ∧
          ((nameToken s).2 ≠ [] → ∃ b, behind = b ++ ')' :: (nameToken s).2)) := by
  obtain ⟨t, ht⟩ := name_suffix s
  unfold nameToken at h ⊢
  simp only at h ⊢
  split at h
  · rename_i behind hbehind
    rw [hbehind] at ht
    refine ⟨t, behind, ht.symm, ?_⟩
    by_cases hurl : lowerAscii (name s).1 = ['u', 'r', 'l']
    · rw [if_pos hurl]
      rcases urlToken_paren (.function (String.ofList (name s).1)) behind with hsame | hparen
      · exact .inl ⟨_, hsame⟩
      · exact .inr hparen
    · rw [if_neg hurl]
      exact .inl ⟨_, rfl⟩
  · cases h

end Reading

end RasterFallback.Css

namespace RasterFallback
open RasterFallback.Text RasterFallback.Css RasterFallback.Css.Components

namespace SelectorScan

theorem pieces_ne_nil (st : SelectorScan) (s : List Char) : st.pieces s ≠ [] := by
  cases s with
  | nil => exact List.cons_ne_nil [] []
  | cons c s =>
    rw [pieces]
    split
    · exact List.cons_ne_nil _ _
    · cases (st.step c).pieces s <;> exact List.cons_ne_nil _ _

theorem prepend_nil {ps : List (List Char)} (h : ps ≠ []) : prepend [] ps = ps := by
  cases ps with
  | nil => exact absurd rfl h
  | cons p ps => rfl

theorem prepend_append (s t : List Char) (ps : List (List Char)) :
    prepend (s ++ t) ps = prepend s (prepend t ps) := by
  cases ps with
  | nil => rfl
  | cons p ps =>
    show (s ++ t ++ p) :: ps = (s ++ (t ++ p)) :: ps
    rw [List.append_assoc]

theorem prepend_cons (c : Char) (t : List Char) (ps : List (List Char)) :
    prepend (c :: t) ps = extend c (prepend t ps) := by
  cases ps <;> rfl

/-- The text holds no cut, and leads from `st` to `st'`. -/
def Passes (st : SelectorScan) (t : List Char) (st' : SelectorScan) : Prop :=
  ∀ w, st.pieces (t ++ w) = prepend t (st'.pieces w)

namespace Passes

variable {st st' st'' : SelectorScan} {s t : List Char} {c : Char}

theorem nil (st : SelectorScan) : st.Passes [] st :=
  fun w => (prepend_nil (pieces_ne_nil st w)).symm

theorem cons (hc : st.cuts c = false) (h : (st.step c).Passes t st') : st.Passes (c :: t) st' := by
  intro w
  rw [List.cons_append, pieces, hc, h w, prepend_cons]
  rfl

theorem append (h : st.Passes s st') (h' : st'.Passes t st'') : st.Passes (s ++ t) st'' := by
  intro w
  rw [List.append_assoc, h, h', prepend_append]

end Passes

variable {depth : Nat} {c q : Char} {t : List Char}

theorem step_plain (hc : isGuard c = false) :
    (⟨depth, none⟩ : SelectorScan).step c = ⟨depth, none⟩ := by
  simp only [isGuard, Bool.or_eq_false_iff, beq_eq_false_iff_ne] at hc
  obtain ⟨⟨⟨⟨⟨h1, h2⟩, h3⟩, h4⟩, h5⟩, h6⟩ := hc
  simp [step, h1, h2, h3, h4, h5, h6]

/-- Characters that are no guards change nothing, and cut nothing if they are no commas or
brackets are open. -/
theorem passes_plain (depth : Nat) (ht : t.all (!isGuard ·) = true) (hcut : ',' ∉ t ∨ 0 < depth) :
    Passes ⟨depth, none⟩ t ⟨depth, none⟩ := by
  induction t with
  | nil => exact .nil _
  | cons c t ih =>
    rw [List.all_cons, Bool.and_eq_true, Bool.not_eq_true'] at ht
    refine .cons ?_ ?_
    · rcases hcut with hcomma | hdepth
      · have hc : c ≠ ',' := fun h => hcomma (h ▸ List.mem_cons_self ..)
        simp [cuts, hc]
      · have hopen : ¬depth = 0 := by omega
        simp [cuts, hopen]
    · rw [step_plain ht.1]
      refine ih ht.2 (hcut.imp_left fun hcomma hmem => hcomma (List.mem_cons_of_mem _ hmem))

theorem passes_unmarked (ht : t.all (!isMark ·) = true) (depth : Nat) :
    Passes ⟨depth, none⟩ t ⟨depth, none⟩ := by
  rw [List.all_eq_true] at ht
  have hmark : ∀ c ∈ t, isGuard c = false ∧ c ≠ ',' := by
    intro c hc
    simpa [isMark] using ht c hc
  have hguard : t.all (!isGuard ·) = true := by
    rw [List.all_eq_true]
    intro c hc
    rw [(hmark c hc).1, Bool.not_false]
  refine passes_plain depth hguard (.inl fun hcomma => ?_)
  exact (hmark ',' hcomma).2 rfl

/-- Inside a string only its quote mark and backslashes matter. -/
theorem passes_quoted (ht : ∀ c ∈ t, c ≠ q ∧ c ≠ '\\') :
    Passes ⟨depth, some (q, false)⟩ t ⟨depth, some (q, false)⟩ := by
  induction t with
  | nil => exact .nil _
  | cons c t ih =>
    obtain ⟨hq, hslash⟩ := ht c (List.mem_cons_self ..)
    refine .cons rfl ?_
    have hstep : (⟨depth, some (q, false)⟩ : SelectorScan).step c = ⟨depth, some (q, false)⟩ := by
      simp [step, hq, hslash]
    rw [hstep]
    exact ih fun d hd => ht d (List.mem_cons_of_mem _ hd)

/-- What stands behind a backslash is not looked at. -/
theorem passes_escaped (ht : ∀ c ∈ t, c ≠ q ∧ c ≠ '\\') :
    Passes ⟨depth, some (q, false)⟩ ('\\' :: c :: t) ⟨depth, some (q, false)⟩ := by
  refine .cons rfl (.cons rfl ?_)
  have hslash : (⟨depth, some (q, false)⟩ : SelectorScan).step '\\' = ⟨depth, some (q, true)⟩ := rfl
  have hskipped : (⟨depth, some (q, true)⟩ : SelectorScan).step c = ⟨depth, some (q, false)⟩ := rfl
  rw [hslash, hskipped]
  exact passes_quoted ht

end SelectorScan

section Strings

variable {s : List Char}

theorem dropNewline_split (hs : startsNewline s = true) :
    ∃ c t, s = c :: (t ++ dropNewline s) ∧ ∀ d ∈ t, isNewline d = true := by
  unfold dropNewline
  split
  · exact ⟨'\r', ['\n'], rfl, List.forall_mem_singleton.2 rfl⟩
  · cases s with
    | nil => cases hs
    | cons c s => exact ⟨c, [], rfl, List.forall_mem_nil _⟩

theorem dropSpace_split (s : List Char) :
    ∃ t, s = t ++ dropSpace s ∧ ∀ d ∈ t, isAsciiBlank d = true := by
  cases s with
  | nil => exact ⟨[], rfl, List.forall_mem_nil _⟩
  | cons c s =>
    rw [dropSpace]
    split
    · rename_i hnewline
      obtain ⟨d, t, hs, ht⟩ := dropNewline_split (s := c :: s) hnewline
      refine ⟨d :: t, hs, ?_⟩
      obtain ⟨rfl, -⟩ := List.cons.inj hs
      have hall : ∀ x ∈ c :: t, isNewline x = true := List.forall_mem_cons.2 ⟨hnewline, ht⟩
      intro x hx
      simp [isAsciiBlank, hall x hx]
    · split
      · rename_i hblank
        exact ⟨[c], rfl, List.forall_mem_singleton.2 hblank⟩
      · exact ⟨[], rfl, List.forall_mem_nil _⟩

/-- An escape takes one character, and then hexadecimal digits and blanks. -/
theorem escape_split (hs : s ≠ []) : ∃ c t, s = c :: (t ++ (escape s).2) ∧
    ∀ d ∈ t, (hexValue? d).isSome = true ∨ isAsciiBlank d = true := by
  cases s with
  | nil => exact absurd rfl hs
  | cons c s =>
    rw [escape]
    split
    · rename_i hhex
      let digits := ((c :: s).take 6).takeWhile fun d => (hexValue? d).isSome
      have hfirst : digits = c :: (s.take 5).takeWhile fun d => (hexValue? d).isSome := by
        show (List.takeWhile _ (c :: s.take 5)) = _
        rw [List.takeWhile_cons, if_pos hhex]
      have hprefix : digits <+: c :: s :=
        (List.takeWhile_prefix _).trans (List.take_prefix 6 (c :: s))
      obtain ⟨behind, hbehind⟩ := hprefix
      have hdrop : (c :: s).drop digits.length = behind := by
        rw [← hbehind, List.drop_left]
      obtain ⟨t, ht, hblank⟩ := dropSpace_split behind
      refine ⟨c, (s.take 5).takeWhile (fun d => (hexValue? d).isSome) ++ t, ?_, ?_⟩
      · show c :: s = c :: (_ ++ dropSpace ((c :: s).drop digits.length))
        rw [hdrop, List.append_assoc, ← ht, ← List.cons_append, ← hfirst, hbehind]
      · intro d hd
        rcases List.mem_append.1 hd with hd | hd
        · exact .inl (List.all_eq_true.1 List.all_takeWhile d hd)
        · exact .inr (hblank d hd)
    · exact ⟨c, [], rfl, List.forall_mem_nil _⟩

/-- The scan leaves a string where its token ends, unless the text ends there. -/
theorem passes_quotedContent {q : Char} (hq : q = '\x22' ∨ q = '\x27') (depth : Nat) (s : List Char)
    (h : (quotedContent q s).2.1 = false) :
    ∃ body st, s = body ++ (quotedContent q s).2.2 ∧
      SelectorScan.Passes ⟨depth, some (q, false)⟩ body st ∧
      ((quotedContent q s).2.2 ≠ [] → st = ⟨depth, none⟩) := by
  have hescaped : ∀ d, (hexValue? d).isSome = true ∨ isAsciiBlank d = true → d ≠ q ∧ d ≠ '\\' := by
    rintro d hd
    constructor
    · rintro rfl
      rcases hq with rfl | rfl <;> revert hd <;> decide
    · rintro rfl
      revert hd
      decide
  have hquote : (⟨depth, some (q, false)⟩ : SelectorScan).step q = ⟨depth, none⟩ := by
    have hslash : q ≠ '\\' := by rcases hq with rfl | rfl <;> decide
    simp [SelectorScan.step, hslash]
  fun_induction quotedContent q s with
  | case1 => exact ⟨[], _, rfl, .nil _, fun hrest => absurd rfl hrest⟩
  | case2 =>
    refine ⟨[q], ⟨depth, none⟩, rfl, .cons rfl ?_, fun _ => rfl⟩
    rw [hquote]
    exact .nil _
  | case3 => cases h
  | case4 s hempty =>
    obtain rfl := List.isEmpty_iff.1 hempty
    exact ⟨['\\'], _, rfl, .cons rfl (.nil _), fun hrest => absurd rfl hrest⟩
  | case5 s _ hnewline _ _ ih =>
    obtain ⟨c, t, hs, ht⟩ := dropNewline_split hnewline
    obtain ⟨body, st, hbody, hpasses, hend⟩ := ih h
    refine ⟨'\\' :: c :: (t ++ body), st, ?_, ?_, hend⟩
    · show '\\' :: s = _
      rw [List.cons_append, List.cons_append, List.append_assoc, ← hbody, ← hs]
    · have hjoined : ∀ d ∈ t, d ≠ q ∧ d ≠ '\\' :=
        fun d hd => hescaped d (.inr (by simp [isAsciiBlank, ht d hd]))
      exact (SelectorScan.passes_escaped hjoined).append hpasses
  | case6 s hempty _ r _ _ ih =>
    obtain ⟨c, t, hs, ht⟩ := escape_split fun hnil => hempty (List.isEmpty_iff.2 hnil)
    obtain ⟨body, st, hbody, hpasses, hend⟩ := ih h
    refine ⟨'\\' :: c :: (t ++ body), st, ?_, ?_, hend⟩
    · show '\\' :: s = '\\' :: c :: (t ++ body) ++ (quotedContent q (escape s).2).2.2
      rw [List.cons_append, List.cons_append, List.append_assoc, ← hbody, ← hs]
    · have hhex : ∀ d ∈ t, d ≠ q ∧ d ≠ '\\' := fun d hd => hescaped d (ht d hd)
      exact (SelectorScan.passes_escaped hhex).append hpasses
  | case7 c s hc _ hslash r ih =>
    obtain ⟨body, st, hbody, hpasses, hend⟩ := ih h
    refine ⟨c :: body, st, congrArg (c :: ·) hbody, ?_, hend⟩
    exact (SelectorScan.passes_quoted (List.forall_mem_singleton.2 ⟨hc, hslash⟩)).append hpasses

end Strings

/-- The state of the scan between lexemes, where `depth` brackets are open. -/
def between (depth : Nat) : SelectorScan := ⟨depth, none⟩

section Lexemes

variable {c : Char} {s rest : List Char} {t : Token} {depth : Nat}

theorem passes_string (hread : Token.read c s = (t, rest)) (ht : t.isString = true)
    (hgood : t.isBad = false) (depth : Nat) :
    ∃ st, (between depth).Passes (c :: consumed s rest) st ∧ (rest ≠ [] → st = between depth) := by
  have hstring := (Token.read_string_or_call c s).1 (by rw [hread]; exact ht)
  obtain ⟨hquote, hquoted⟩ := hstring
  rw [hquoted] at hread
  unfold quotedToken at hread
  split at hread
  · obtain ⟨rfl, -⟩ := Prod.mk.inj hread
    cases hgood
  · rename_i content rest' hcontent
    obtain ⟨-, rfl⟩ := Prod.mk.inj hread
    obtain ⟨body, st, hbody, hpasses, hend⟩ :=
      passes_quotedContent hquote depth s (by rw [hcontent])
    rw [hcontent] at hbody hend
    have hconsumed : consumed s rest' = body := by
      rw [hbody]
      exact consumed_append_self body rest'
    have hstep : (between depth).step c = ⟨depth, some (c, false)⟩ := by
      rcases hquote with rfl | rfl <;> rfl
    have hcuts : (between depth).cuts c = false := by
      rcases hquote with rfl | rfl <;> simp [SelectorScan.cuts]
    rw [hconsumed]
    exact ⟨st, .cons hcuts (hstep ▸ hpasses), hend⟩

theorem passes_opening (depth : Nat) : (between depth).Passes ['('] (between (depth + 1)) :=
  .cons (by simp [SelectorScan.cuts]) (.nil _)

theorem dropWhile_ne_of_mem {x : Char} {l : List Char} (h : x ∈ l) :
    ∃ u, l.dropWhile (· != x) = x :: u := by
  induction l with
  | nil => cases h
  | cons y l ih =>
    rw [List.dropWhile_cons]
    by_cases hy : y = x
    · exact ⟨l, by simp [hy]⟩
    · rw [if_pos (by simpa using hy)]
      exact ih ((List.mem_cons.1 h).resolve_left (Ne.symm hy))

/-- Between the parentheses of a url nothing is cut. -/
theorem passes_url {text : List Char} (hopen : '(' ∈ text)
    (hfront : (text.takeWhile (· != '(')).all (!isMark ·) = true)
    (hbody : (text.dropWhile (· != '(')).tail.dropLast.all (!isGuard ·) = true) (depth : Nat) :
    ∃ st, (between depth).Passes text st ∧ (text.getLast? = some ')' → st = between depth) := by
  obtain ⟨u, hu⟩ := dropWhile_ne_of_mem hopen
  have htext : text = text.takeWhile (· != '(') ++ '(' :: u := by
    rw [← hu, List.takeWhile_append_dropWhile]
  rw [hu, List.tail_cons] at hbody
  have hstart := (SelectorScan.passes_unmarked hfront depth).append (passes_opening depth)
  rcases List.eq_nil_or_concat u with rfl | ⟨body, z, rfl⟩
  · refine ⟨_, by rw [htext]; exact hstart, fun hlast => ?_⟩
    rw [htext, List.getLast?_concat] at hlast
    cases hlast
  · rw [List.concat_eq_append] at htext hbody
    rw [List.dropLast_concat] at hbody
    have hinside := SelectorScan.passes_plain (depth + 1) hbody (.inr (Nat.succ_pos _))
    have hclose : (between (depth + 1)).Passes [z] ((between (depth + 1)).step z) :=
      .cons (by simp [SelectorScan.cuts, between]) (.nil _)
    have hall : text = text.takeWhile (· != '(') ++ ['('] ++ (body ++ [z]) := by
      rw [List.append_assoc]
      exact htext
    refine ⟨(between (depth + 1)).step z, ?_, fun hlast => ?_⟩
    · rw [hall]
      exact hstart.append (hinside.append hclose)
    · rw [hall, ← List.append_assoc, List.getLast?_concat] at hlast
      obtain rfl := Option.some.inj hlast
      rfl

/-- A frank url leaves the scan where it was, and a frank function one parenthesis deeper. -/
theorem passes_call (hread : Token.read c s = (t, rest)) (ht : t.isCall = true) (p : Position)
    (hfrank : (⟨t, c :: consumed s rest, p⟩ : Lexeme).isFrank = true) (depth : Nat) :
    ∃ st, (between depth).Passes (c :: consumed s rest) st ∧
      (rest ≠ [] → st = between (t.depthBehind depth)) := by
  have hname := (Token.read_string_or_call c s).2 (by rw [hread]; exact ht)
  rw [hread] at hname
  obtain ⟨front, behind, hsplit, hkind⟩ := nameToken_call (s := c :: s) (by rw [← hname]; exact ht)
  rw [← hname] at hkind
  have htext : (c :: consumed s rest) ++ rest = c :: s := by
    have hsuffix := Token.read_suffix c s
    rw [hread] at hsuffix
    rw [List.cons_append, consumed_append hsuffix]
  rcases hkind with ⟨n, hn⟩ | ⟨hno, hparen⟩
  · obtain ⟨rfl, rfl⟩ := Prod.mk.inj hn
    have hcall : c :: consumed s rest = front ++ ['('] := by
      apply List.append_cancel_right
      rw [htext, hsplit, List.append_assoc]
      rfl
    rw [Lexeme.isFrank, hcall, List.dropLast_concat] at hfrank
    rw [hcall]
    exact ⟨_, (SelectorScan.passes_unmarked hfrank depth).append (passes_opening depth),
      fun _ => rfl⟩
  · have hopen : '(' ∈ c :: consumed s rest := by
      by_cases hrest : rest = []
      · rw [hrest, List.append_nil] at htext
        rw [hrest, htext, hsplit]
        exact List.mem_append_right _ (List.mem_cons_self ..)
      · obtain ⟨b, rfl⟩ := hparen hrest
        have hcall : c :: consumed s rest = front ++ '(' :: (b ++ [')']) := by
          apply List.append_cancel_right
          rw [htext, hsplit]
          simp
        rw [hcall]
        exact List.mem_append_right _ (List.mem_cons_self ..)
    have hlast (hrest : rest ≠ []) : (c :: consumed s rest).getLast? = some ')' := by
      obtain ⟨b, rfl⟩ := hparen hrest
      have hcall : c :: consumed s rest = front ++ '(' :: b ++ [')'] := by
        apply List.append_cancel_right
        rw [htext, hsplit]
        simp
      rw [hcall, List.getLast?_concat]
    have hparts : ((c :: consumed s rest).takeWhile (· != '(')).all (!isMark ·) = true ∧
        ((c :: consumed s rest).dropWhile (· != '(')).tail.dropLast.all (!isGuard ·) = true := by
      cases t with
      | unquotedUrl content => exact Bool.and_eq_true_iff.1 hfrank
      | badUrl content => exact Bool.and_eq_true_iff.1 hfrank
      | function n => exact absurd rfl (hno n)
      | _ => cases ht
    have hdepth : t.depthBehind depth = depth := by
      cases t with
      | function n => exact absurd rfl (hno n)
      | unquotedUrl content => rfl
      | badUrl content => rfl
      | _ => cases ht
    obtain ⟨st, hpasses, hend⟩ := passes_url hopen hparts.1 hparts.2 depth
    rw [hdepth]
    exact ⟨st, hpasses, fun hrest => hend (hlast hrest)⟩

/-- A lexeme that is frank leads the scan to the depth of its brackets, if the text goes on. It is
cut nowhere, unless it is a comma outside all brackets. -/
theorem passes_lexeme (hread : Token.read c s = (t, rest)) (p : Position)
    (hfrank : (⟨t, c :: consumed s rest, p⟩ : Lexeme).isFrank = true) (depth : Nat)
    (hcomma : t ≠ .comma ∨ 0 < depth) :
    ∃ st, (between depth).Passes (c :: consumed s rest) st ∧
      (rest ≠ [] → st = between (t.depthBehind depth)) := by
  by_cases hstring : t.isString = true
  · have hplain : t.isBad = false ∧ t.depthBehind depth = depth := by
      cases t with
      | quotedString content => exact ⟨rfl, rfl⟩
      | badString content => exact absurd hfrank Bool.false_ne_true
      | _ => cases hstring
    obtain ⟨hgood, hdepth⟩ := hplain
    rw [hdepth]
    exact passes_string hread hstring hgood depth
  · by_cases hcall : t.isCall = true
    · exact passes_call hread hcall p hfrank depth
    · cases hsign : t.sign? with
      | some x =>
        obtain ⟨rfl, hrest⟩ := Token.read_sign (x := x) (by rw [hread]; exact hsign)
        rw [hread] at hrest
        obtain rfl : rest = s := hrest
        have hself : consumed rest rest = [] := consumed_append_self [] rest
        have hsteps : (between depth).cuts c = false ∧
            (between depth).step c = between (t.depthBehind depth) := by
          cases t with
          | comma =>
            have hdepth : ¬depth = 0 := by
              rcases hcomma with hcomma | hdepth
              · exact absurd rfl hcomma
              · omega
            obtain rfl := Option.some.inj hsign
            exact ⟨by simp [SelectorScan.cuts, between, hdepth], rfl⟩
          | colon =>
            obtain rfl := Option.some.inj hsign
            exact ⟨by simp [SelectorScan.cuts], rfl⟩
          | semicolon =>
            obtain rfl := Option.some.inj hsign
            exact ⟨by simp [SelectorScan.cuts], rfl⟩
          | opening b =>
            cases b <;> obtain rfl := Option.some.inj hsign <;>
              exact ⟨by simp [SelectorScan.cuts], rfl⟩
          | closing b =>
            cases b <;> obtain rfl := Option.some.inj hsign <;>
              exact ⟨by simp [SelectorScan.cuts], rfl⟩
          | _ => cases hsign
        rw [hself]
        exact ⟨_, .cons hsteps.1 (.nil _), fun _ => hsteps.2⟩
      | none =>
        have hplain : (c :: consumed s rest).all (!isMark ·) = true ∧
            t.depthBehind depth = depth := by
          cases t with
          | quotedString content => exact absurd rfl hstring
          | badString content => exact absurd rfl hstring
          | function n => exact absurd rfl hcall
          | unquotedUrl content => exact absurd rfl hcall
          | badUrl content => exact absurd rfl hcall
          | opening b => cases b <;> cases hsign
          | closing b => cases b <;> cases hsign
          | comma => cases hsign
          | colon => cases hsign
          | semicolon => cases hsign
          | _ => exact ⟨hfrank, rfl⟩
        rw [hplain.2]
        exact ⟨_, SelectorScan.passes_unmarked hplain.1 depth, fun _ => rfl⟩

end Lexemes

section Levels

/-- How many of the open brackets guard commas. -/
def guards (pending : List Bracket) : Nat := pending.countP (· != .curly)

/-- All levels are tidy: that of the innermost open bracket, and those behind the others. -/
def LevelsTidy : Components → List Bracket → List Tail → Prop
  | cs, [], _ => cs.isTidy false = true
  | cs, _ :: _, [] => cs.isTidy true = true
  | cs, _ :: pending, tail :: outer => cs.isTidy true = true ∧ LevelsTidy tail.rest pending outer

/-- The pieces of several levels. Commas inside brackets do not count. -/
def levelPieces : Components → List Tail → List (List Char)
  | cs, [] => cs.commaPieces
  | cs, tail :: outer =>
    prepend (cs.text ++ tail.closer.toList.flatMap Lexeme.text) (levelPieces tail.rest outer)

variable {l : Lexeme} {cs rest : Components} {tails : List Tail}

theorem levelPieces_leaf (h : l.token ≠ .comma ∨ tails ≠ []) :
    levelPieces (leaf l rest) tails = prepend l.text (levelPieces rest tails) := by
  cases tails with
  | nil =>
    rw [levelPieces, commaPieces, if_neg (h.resolve_right fun hne => hne rfl)]
    rfl
  | cons tail outer =>
    rw [levelPieces, levelPieces, text_leaf, List.append_assoc, SelectorScan.prepend_append]

theorem levelPieces_block (opener : Lexeme) (inner : Components) (tail : Tail)
    (outer : List Tail) :
    levelPieces (block opener inner tail.closer tail.rest) outer =
      prepend opener.text (levelPieces inner (tail :: outer)) := by
  have hinner : levelPieces inner (tail :: outer) =
      prepend (inner.text ++ tail.closer.toList.flatMap Lexeme.text)
        (levelPieces tail.rest outer) := rfl
  have hall : levelPieces (block opener inner tail.closer tail.rest) outer =
      prepend (blockText opener inner tail.closer) (levelPieces tail.rest outer) := by
    cases outer with
    | nil => rfl
    | cons tail' outer' =>
      rw [levelPieces, levelPieces, text_block, List.append_assoc, SelectorScan.prepend_append]
  rw [hall, hinner, ← SelectorScan.prepend_append, blockText, List.append_assoc]

theorem LevelsTidy.leaf {pending : List Bracket} (h : LevelsTidy (leaf l rest) pending tails) :
    l.isFrank = true ∧ (pending ≠ [] → l.token ≠ .closing .paren ∧ l.token ≠ .closing .square) ∧
      LevelsTidy rest pending tails := by
  have htidy : ∀ inside, (Components.leaf l rest).isTidy inside = true → l.isFrank = true ∧
      (inside = true → l.token ≠ .closing .paren ∧ l.token ≠ .closing .square) ∧
        rest.isTidy inside = true := by
    intro inside h
    rw [isTidy] at h
    cases inside <;> simp_all
  cases pending with
  | nil =>
    obtain ⟨hfrank, -, hrest⟩ := htidy false h
    exact ⟨hfrank, fun hne => absurd rfl hne, hrest⟩
  | cons b pending =>
    cases tails with
    | nil =>
      obtain ⟨hfrank, hclosing, hrest⟩ := htidy true h
      exact ⟨hfrank, fun _ => hclosing rfl, hrest⟩
    | cons tail outer =>
      obtain ⟨hfrank, hclosing, hrest⟩ := htidy true h.1
      exact ⟨hfrank, fun _ => hclosing rfl, hrest, h.2⟩

theorem LevelsTidy.block {inner : Components} {tail : Tail} {pending : List Bracket}
    (h : LevelsTidy (block l inner tail.closer tail.rest) pending tails) (b : Bracket) :
    l.isFrank = true ∧ (pending = [] → l.token ≠ .opening .curly) ∧
      LevelsTidy inner (b :: pending) (tail :: tails) := by
  have htidy : ∀ inside, (Components.block l inner tail.closer tail.rest).isTidy inside = true →
      l.isFrank = true ∧ (inside = false → l.token ≠ .opening .curly) ∧ inner.isTidy true = true ∧
        tail.rest.isTidy inside = true := by
    intro inside h
    rw [isTidy] at h
    cases inside <;> simp_all
  cases pending with
  | nil =>
    obtain ⟨hfrank, hbrace, hinner, hrest⟩ := htidy false h
    exact ⟨hfrank, fun _ => hbrace rfl, hinner, hrest⟩
  | cons b' pending =>
    cases tails with
    | nil =>
      obtain ⟨hfrank, -, hinner, hrest⟩ := htidy true h
      exact ⟨hfrank, nofun, hinner, hrest⟩
    | cons tail' outer =>
      obtain ⟨hfrank, -, hinner, hrest⟩ := htidy true h.1
      exact ⟨hfrank, nofun, hinner, hrest, h.2⟩

theorem guards_cons (b : Bracket) (pending : List Bracket) :
    guards (b :: pending) = guards pending + if b = .curly then 0 else 1 := by
  unfold guards
  rw [List.countP_cons]
  cases b <;> rfl

/-- Outermost there is no brace, so that some bracket guards if any is open. -/
theorem guards_pos {pending : List Bracket} (hne : pending ≠ [])
    (hlast : pending.getLast? ≠ some .curly) : 0 < guards pending := by
  induction pending with
  | nil => exact absurd rfl hne
  | cons b pending ih =>
    rw [guards_cons]
    cases pending with
    | nil =>
      have hb : b ≠ .curly := fun h => hlast (congrArg some h)
      simp [hb]
    | cons b' pending =>
      have hmore := ih (List.cons_ne_nil _ _) (by rwa [List.getLast?_cons_cons] at hlast)
      omega

theorem depthBehind_of_opens {t : Token} {b : Bracket} (h : t.opens? = some b)
    (pending : List Bracket) : t.depthBehind (guards pending) = guards (b :: pending) := by
  rw [guards_cons]
  cases t with
  | function n =>
    obtain rfl := Option.some.inj h
    rfl
  | opening b' =>
    obtain rfl := Option.some.inj h
    cases b' <;> rfl
  | _ => cases h

theorem depthBehind_of_closes {t : Token} {b : Bracket} (h : t.closes? = some b)
    (pending : List Bracket) : t.depthBehind (guards (b :: pending)) = guards pending := by
  rw [guards_cons]
  cases t with
  | closing b' =>
    obtain rfl := Option.some.inj h
    cases b' <;> rfl
  | _ => cases h

theorem depthBehind_of_other {t : Token} (hopen : t.opens? = none) (hparen : t ≠ .closing .paren)
    (hsquare : t ≠ .closing .square) (depth : Nat) : t.depthBehind depth = depth := by
  cases t with
  | function n => cases hopen
  | opening b => cases hopen
  | closing b =>
    cases b with
    | paren => exact absurd rfl hparen
    | square => exact absurd rfl hsquare
    | curly => rfl
  | _ => rfl

theorem levelPieces_nil (stop : Position) (pending : List Bracket) :
    levelPieces (nil stop) (pending.map fun _ => ⟨none, nil stop⟩) = [[]] := by
  induction pending with
  | nil => rfl
  | cons b pending ih =>
    show prepend [] (levelPieces (nil stop) (pending.map fun _ => ⟨none, nil stop⟩)) = _
    rw [ih]
    rfl

/-- A frank lexeme that is no comma outside all brackets goes before the first piece. -/
theorem pieces_lexeme {c : Char} {s rest : List Char} {t : Token} {pending pending' : List Bracket}
    (hread : Token.read c s = (t, rest)) (p : Position)
    (hfrank : (⟨t, c :: consumed s rest, p⟩ : Lexeme).isFrank = true)
    (hcomma : t ≠ .comma ∨ 0 < guards pending)
    (hdepth : t.depthBehind (guards pending) = guards pending') :
    (between (guards pending)).pieces (c :: s) =
      prepend (c :: consumed s rest) ((between (guards pending')).pieces rest) := by
  have hsuffix : rest <:+ s := by
    have hread_suffix := Token.read_suffix c s
    rwa [hread] at hread_suffix
  have hsplit : c :: s = (c :: consumed s rest) ++ rest :=
    (congrArg (c :: ·) (consumed_append hsuffix)).symm
  obtain ⟨st, hpasses, hend⟩ := passes_lexeme hread p hfrank (guards pending) hcomma
  calc (between (guards pending)).pieces (c :: s)
    _ = (between (guards pending)).pieces ((c :: consumed s rest) ++ rest) := by rw [← hsplit]
    _ = prepend (c :: consumed s rest) (st.pieces rest) := hpasses rest
    _ = prepend (c :: consumed s rest) ((between (guards pending')).pieces rest) := by
      -- If nothing follows the lexeme it does not matter where it leads.
      by_cases hnil : rest = []
      · rw [hnil]
        rfl
      · rw [hend hnil, hdepth]

theorem isFrank_of_closes {b : Bracket} (h : l.token.closes? = some b) : l.isFrank = true := by
  unfold Lexeme.isFrank
  cases htoken : l.token with
  | closing b' => cases b' <;> rfl
  | _ => simp [htoken, Token.closes?] at h

/-- Outside all others, closing brackets change nothing. -/
theorem depthBehind_outermost {t : Token} (hopen : t.opens? = none) :
    t.depthBehind (guards []) = guards [] := by
  by_cases hparen : t = .closing .paren
  · rw [hparen]
    rfl
  · by_cases hsquare : t = .closing .square
    · rw [hsquare]
      rfl
    · exact depthBehind_of_other hopen hparen hsquare _

theorem ne_comma_of_opens {t : Token} {b : Bracket} (h : t.opens? = some b) : t ≠ .comma := by
  rintro rfl
  cases h

theorem ne_comma_of_closes {t : Token} {b : Bracket} (h : t.closes? = some b) : t ≠ .comma := by
  rintro rfl
  cases h

/-- The scan of a text that stands inside `pending` cuts what its levels say. -/
theorem pieces_group (p stop : Position) (s : List Char) (pending : List Bracket)
    (hlast : pending.getLast? ≠ some .curly)
    (htidy : LevelsTidy (group stop (Css.lexemes p s) pending).1 pending
      (group stop (Css.lexemes p s) pending).2) :
    (between (guards pending)).pieces s =
      levelPieces (group stop (Css.lexemes p s) pending).1
        (group stop (Css.lexemes p s) pending).2 := by
  fun_induction Css.lexemes p s generalizing pending with
  | case1 p => exact (levelPieces_nil stop pending).symm
  | case2 p c s read piece ih =>
    have hread : Token.read c s = (read.1, read.2) := rfl
    cases hopen : read.1.opens? with
    | some b =>
      obtain ⟨tail, outer, hlevels⟩ : ∃ tail outer, (group stop (Css.lexemes (p.after piece) read.2)
          (b :: pending)).2 = tail :: outer := by
        have hlength := group_length stop (Css.lexemes (p.after piece) read.2) (b :: pending)
        exact List.exists_cons_of_length_eq_add_one hlength
      have hblock := group_opening (l := ⟨read.1, piece, p⟩) stop _ hopen (Prod.ext rfl hlevels)
      rw [hblock] at htidy ⊢
      obtain ⟨hfrank, hbrace, hinner⟩ := htidy.block b
      have hlast' : (b :: pending).getLast? ≠ some .curly := by
        cases pending with
        | nil =>
          intro hcurly
          obtain rfl : b = .curly := Option.some.inj hcurly
          refine hbrace rfl ?_
          cases htoken : read.1 <;> simp_all [Token.opens?]
        | cons b' pending => rwa [List.getLast?_cons_cons]
      rw [← hlevels] at hinner
      rw [levelPieces_block, ← hlevels, ← ih (b :: pending) hlast' hinner]
      exact pieces_lexeme hread p hfrank (.inl (ne_comma_of_opens hopen))
        (depthBehind_of_opens hopen pending)
    | none =>
      cases pending with
      | nil =>
        rw [group_leaf (l := ⟨read.1, piece, p⟩) stop _ hopen (by simp)] at htidy ⊢
        obtain ⟨hfrank, -, hrest⟩ := htidy.leaf
        have hinner := ih [] hlast hrest
        rw [group_snd] at hinner ⊢
        by_cases hcomma : read.1 = .comma
        · obtain ⟨rfl, hrest⟩ := Token.read_sign (c := c) (s := s) (x := ',') (by rw [hcomma]; rfl)
          have hcut : (between (guards [])).pieces (',' :: s) =
              [] :: (between (guards [])).pieces s := rfl
          rw [levelPieces, commaPieces, if_pos hcomma, hcut, ← hrest, hinner]
          rfl
        · rw [levelPieces_leaf (.inl hcomma), ← hinner]
          exact pieces_lexeme hread p hfrank (.inl hcomma) (depthBehind_outermost hopen)
      | cons b pending =>
        by_cases hclose : read.1.closes? = some b
        · rw [group_closing (l := ⟨read.1, piece, p⟩) stop _ hclose] at htidy ⊢
          have hlast' : pending.getLast? ≠ some .curly := by
            cases pending with
            | nil => simp
            | cons b' pending => rwa [List.getLast?_cons_cons] at hlast
          have hlexeme := pieces_lexeme hread p
            (isFrank_of_closes (l := ⟨read.1, piece, p⟩) hclose) (.inl (ne_comma_of_closes hclose))
            (depthBehind_of_closes hclose pending)
          have htext : (nil p).text ++ (some (⟨read.1, piece, p⟩ : Lexeme)).toList.flatMap
              Lexeme.text = piece := by
            simp [text, textBefore]
          rw [hlexeme, ih pending hlast' htidy.2, levelPieces, htext]
        · rw [group_leaf (l := ⟨read.1, piece, p⟩) stop _ hopen (by simpa using hclose)] at htidy ⊢
          obtain ⟨hfrank, hclosing, hrest⟩ := htidy.leaf
          obtain ⟨hparen, hsquare⟩ := hclosing (List.cons_ne_nil b pending)
          have hlevels :
              (group stop (Css.lexemes (p.after piece) read.2) (b :: pending)).2 ≠ [] := by
            intro hnil
            have hlength := group_length stop (Css.lexemes (p.after piece) read.2) (b :: pending)
            rw [hnil] at hlength
            cases hlength
          rw [levelPieces_leaf (.inr hlevels), ← ih (b :: pending) hlast hrest]
          exact pieces_lexeme hread p hfrank (.inr (guards_pos (List.cons_ne_nil b pending) hlast))
            (depthBehind_of_other hopen hparen hsquare _)

end Levels

/-- The pieces of a text between the commas outside all brackets, trimmed and without the
blank ones. -/
def commaSelectors (s : String) : List String :=
  ((ofText s.toList).commaPieces.map trim).filterMap fun p =>
    if p.isEmpty then none else some (String.ofList p)

/-- Where all marks are what they seem, a selector list is cut at its commas outside all brackets
and nowhere else, so that the marker stands before each of its selectors. -/
theorem selectors_of_tidy (r : Rule) (h : (ofText r.selector.toList).isTidy false = true)
    (marker : String) : r.selectors = commaSelectors r.selector ∧
      fallbackSelector marker r =
        String.intercalate ", " ((commaSelectors r.selector).map fun s => marker ++ " " ++ s) := by
  have hpieces : SelectorScan.outside.pieces r.selector.toList =
      (ofText r.selector.toList).commaPieces := by
    have hlevels : (group (Position.first.after r.selector.toList)
        (Css.lexemes Position.first r.selector.toList) []).2 = [] :=
      List.length_eq_zero_iff.1 (group_length ..)
    have hgroup := pieces_group .first (Position.first.after r.selector.toList) r.selector.toList []
      nofun h
    rwa [hlevels] at hgroup
  have hselectors : r.selectors = commaSelectors r.selector := by
    unfold Rule.selectors splitSelectors commaSelectors
    rw [hpieces]
  exact ⟨hselectors, by rw [fallbackSelector, hselectors]⟩

def listedRule : Rule :=
  { selector := ".icon, .icon-2,:is(.a, .b), [title=\x22x,y\x22]", declarations := [] }

theorem selectors_of_tidy_listed : (ofText listedRule.selector.toList).isTidy false = true ∧
    listedRule.selectors = [".icon", ".icon-2", ":is(.a, .b)", "[title=\x22x,y\x22]"] := by
  have htidy : (ofText listedRule.selector.toList).isTidy false = true := by decide +kernel
  refine ⟨htidy, ?_⟩
  rw [(selectors_of_tidy listedRule htidy ".no-svg").1]
  decide +kernel

/-- The rules of a text with their selectors, those between the commas that are tokens, and the
selector of their fallback. -/
def selectorsOf (css : String) : Option (List (List String × List String × String)) :=
  (Stylesheet.parse css).toOption.map fun s =>
    s.rules.map fun r => (r.selectors, commaSelectors r.selector, fallbackSelector ".no-svg" r)

/-- An escaped comma is cut at, and a quote mark in a comment hides the comma behind it, so that
the second selector gets no marker. -/
theorem selectors_untidy :
    selectorsOf ".a\\,b\x7b\x7d" = some [([".a\\", "b"], [".a\\,b"], ".no-svg .a\\, .no-svg b")] ∧
      selectorsOf ".a/*\x27*/, .b\x7b\x7d" =
        some [([".a/*\x27*/, .b"], [".a/*\x27*/", ".b"], ".no-svg .a/*\x27*/, .b")] := by
  constructor <;> decide +kernel

end RasterFallback
