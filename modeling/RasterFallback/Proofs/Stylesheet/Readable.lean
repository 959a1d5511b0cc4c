import RasterFallback.Proofs.Css.Run
import RasterFallback.Proofs.Stylesheet.Unplaced
import RasterFallback.Stylesheet.Printer

/-!
Parts of a stylesheet that can be read back. A part is readable if the text it is
written as, in front of the sign that ends it, is closed in itself, holds no token
that would end it before, and gives the part back when blanks around it are left out.
-/
namespace RasterFallback
open RasterFallback.Text RasterFallback.Css

/-- A token that a value may hold outside brackets. -/
def isValueToken (t : Token) : Bool :=
  decide (t ≠ .semicolon) && decide (t ≠ .closing .curly) && !t.isBad

def isPreludeToken (t : Token) : Bool := isValueToken t && decide (t ≠ .opening .curly)

/-- A token that a selector list may begin with. -/
def startsRule : Token → Bool
  | .whitespace _ => false
  | .cdo => false
  | .cdc => false
  | .comment _ => false
  | .closing .curly => false
  | .atKeyword _ => false
  | _ => true

theorem parseNodes_of_startsRule {l : Lexeme} (h : startsRule l.token) (rest : Components) :
    parseNodes (.leaf l rest) = ruleNodes (.leaf l rest) := by
  rw [parseNodes_leaf]
  cases hl : l.token
  case closing b => cases b <;> simp_all [startsRule]
  all_goals simp_all [startsRule]

theorem nodes?_of_startsRule {l : Lexeme} (h : startsRule l.token) (rest : Components) :
    nodes? (.leaf l rest) = rule? (.leaf l rest) := by
  rw [nodes?, parseNodes_of_startsRule h, toOption_ruleNodes]

/-- What nodes are read from that begin with a lexeme. -/
theorem nodes?_leaf_cases {l : Lexeme} {rest : Components} {ns : List Node}
    (h : nodes? (.leaf l rest) = some ns) :
    (((∃ content, l.token = .whitespace content) ∨ l.token = .cdo ∨ l.token = .cdc) ∧
        nodes? rest = some ns) ∨
      (∃ content more, l.token = .comment content ∧ isWholeComment l.text ∧
        nodes? rest = some more ∧ ns = .comment content :: more) ∨
      (∃ name, l.token = .atKeyword name ∧ atRule? name rest = some ns) ∨
      startsRule l.token ∧ rule? (.leaf l rest) = some ns := by
  rw [nodes?_leaf] at h
  cases hl : l.token
  case whitespace content => exact .inl ⟨.inl ⟨content, rfl⟩, by rwa [hl] at h⟩
  case cdo => exact .inl ⟨.inr (.inl rfl), by rwa [hl] at h⟩
  case cdc => exact .inl ⟨.inr (.inr rfl), by rwa [hl] at h⟩
  case comment content =>
    rw [hl] at h
    dsimp only at h
    split at h
    · rename_i hwhole
      obtain ⟨more, hmore, rfl⟩ := Option.map_eq_some_iff.1 h
      exact .inr (.inl ⟨content, more, rfl, hwhole, hmore, rfl⟩)
    · cases h
  case atKeyword name => exact .inr (.inr (.inl ⟨name, rfl, by rwa [hl] at h⟩))
  case closing c =>
    rw [hl] at h
    cases c with
    | curly => cases h
    | paren => exact .inr (.inr (.inr ⟨rfl, h⟩))
    | square => exact .inr (.inr (.inr ⟨rfl, h⟩))
  all_goals exact .inr (.inr (.inr ⟨rfl, by rwa [hl] at h⟩))

/-- A name that needs no escapes. -/
def isPlainName (s : List Char) : Bool :=
  startsName s && s.all fun c => isNameChar c && c != '\x00'

/-- What is written between the colon and the semicolon of a declaration. -/
def Declaration.tail (d : Declaration) : List Char :=
  ' ' :: d.value.toList ++ if d.important then " !important".toList else []

def Declaration.isReadable (d : Declaration) : Bool :=
  isPlainName d.prop.toList && Components.isRun isValueToken ';' d.tail &&
    splitImportant d.tail == (d.value.toList, d.important)

/-- A selector list that is readable in front of the brace of its block. -/
def isReadableSelector (selector : String) : Bool :=
  Components.isRun isPreludeToken '\x7b' (selector.toList ++ [' ']) &&
    selectorText (selector.toList ++ [' ', '\x7b']) == selector &&
    (selector.isEmpty ||
      (Components.ofText (selector.toList ++ [' ', '\x7b'])).tops.head?.any startsRule)

/-- What is written behind the name of an at-rule. -/
def AtHead.tail (h : AtHead) : List Char := if h.params.isEmpty then [] else ' ' :: h.params.toList

/-- An at-rule that is readable in front of the sign `x`, with the blanks `gap` before it. -/
def AtHead.isReadable (gap : List Char) (x : Char) (h : AtHead) : Bool :=
  isPlainName h.name.toList && Components.isRun isPreludeToken x (h.tail ++ gap) &&
    paramsText (h.tail ++ gap ++ [x]) == h.params

def isReadableComment (content : String) : Bool :=
  commentContent (content.toList ++ ['*', '/']) == (content.toList, [])

mutual

/-- Comments, selector lists and heads of at-rules at and below a node are readable, and
every at-rule has the kind of block that its name asks for. -/
def Node.headsReadable : Node → Bool
  | .rule r => isReadableSelector r.selector
  | .comment content => isReadableComment content
  | .statement h => h.isReadable [] ';'
  | .descriptors h _ => !isGrouping h.name && h.isReadable [' '] '\x7b'
  | .group h nodes => isGrouping h.name && h.isReadable [' '] '\x7b' && headsReadableIn nodes

def headsReadableIn : List Node → Bool
  | [] => true
  | n :: ns => n.headsReadable && headsReadableIn ns

end

mutual

/-- The declarations at every depth of a node. -/
def Node.declarations : Node → List Declaration
  | .rule r => r.declarations
  | .descriptors _ ds => ds
  | .group _ nodes => declarationsIn nodes
  | .comment _ => []
  | .statement _ => []

def declarationsIn : List Node → List Declaration
  | [] => []
  | n :: ns => n.declarations ++ declarationsIn ns

end

/-- Every part of the stylesheet is readable by itself. -/
def Stylesheet.isReadable (s : Stylesheet) : Bool :=
  headsReadableIn s.nodes && (declarationsIn s.nodes).all Declaration.isReadable

theorem value?_append {ps : Components} (h : ∀ t ∈ ps.tops, isValueToken t) (ds : Components) :
    value? (ps.append ds) = (value? ds).map fun v => (ps.text ++ v.1, v.2) := by
  induction ps with
  | nil =>
    rw [Components.nil_append]
    cases value? ds <;> simp [Components.text_eq, Components.lexemes]
  | leaf l rest ih =>
    have hl := h l.token (List.mem_cons_self ..)
    simp only [isValueToken, Bool.and_eq_true, decide_eq_true_eq, Bool.not_eq_true'] at hl
    rw [Components.leaf_append, value?_leaf, if_neg hl.1.1, if_neg (by simp [hl.2]),
      ih fun t ht => h t (List.mem_cons_of_mem _ ht)]
    cases value? ds <;> simp [Components.text_eq, Components.lexemes]
  | block opener inner closer rest _ ih =>
    rw [Components.block_append, value?_block, ih fun t ht => h t (List.mem_cons_of_mem _ ht)]
    cases value? ds <;>
      simp [Components.text_eq, Components.lexemes, Components.blockText, List.flatMap_append]

theorem prelude?_append {ps : Components} (h : ∀ t ∈ ps.tops, isPreludeToken t) (ds : Components) :
    prelude? (ps.append ds) = (prelude? ds).map fun p => (ps.text ++ p.1, p.2) := by
  induction ps with
  | nil =>
    rw [Components.nil_append]
    cases prelude? ds <;> simp [Components.text_eq, Components.lexemes]
  | leaf l rest ih =>
    have hl := h l.token (List.mem_cons_self ..)
    simp only [isPreludeToken, isValueToken, Bool.and_eq_true, decide_eq_true_eq,
      Bool.not_eq_true'] at hl
    rw [Components.leaf_append, prelude?_leaf, if_neg hl.1.1.1, if_neg hl.1.1.2,
      if_neg (by simp [hl.1.2]), ih fun t ht => h t (List.mem_cons_of_mem _ ht)]
    cases prelude? ds <;> simp [Components.text_eq, Components.lexemes]
  | block opener inner closer rest _ ih =>
    have ho := h opener.token (List.mem_cons_self ..)
    simp only [isPreludeToken, Bool.and_eq_true, decide_eq_true_eq] at ho
    rw [Components.block_append, prelude?_block, if_neg ho.2,
      ih fun t ht => h t (List.mem_cons_of_mem _ ht)]
    cases prelude? ds <;>
      simp [Components.text_eq, Components.lexemes, Components.blockText, List.flatMap_append]

/-- A selector list is read as a rule. -/
theorem nodes?_append {ps : Components} {t : Token} (hps : ps.tops.head? = some t)
    (ht : startsRule t) (ds : Components) : nodes? (ps.append ds) = rule? (ps.append ds) := by
  cases ps with
  | nil => cases hps
  | block opener inner closer rest => exact nodes?_block ..
  | leaf l rest =>
    obtain rfl := Option.some.inj hps
    exact nodes?_of_startsRule ht _

/-- A plain name ends where no character of a name follows. -/
theorem name_plain {s : List Char} (h : s.all fun c => isNameChar c && c != '\x00') {x : Char}
    (hx : isNameChar x = false) (hslash : x ≠ '\\') (w : List Char) :
    name (s ++ x :: w) = (s, x :: w) := by
  induction s with
  | nil => simp [name, hx, hslash]
  | cons c s ih =>
    simp only [List.all_cons, Bool.and_eq_true, bne_iff_ne] at h
    rw [List.cons_append, name, if_pos h.1.1, ih (by simpa using h.2)]
    simp [unnull, h.1.2]

theorem startsName_append_of_plain {s : List Char} (h : isPlainName s) (w : List Char) :
    startsName (s ++ w) := by
  simp only [isPlainName, Bool.and_eq_true] at h
  cases s with
  | nil => simp [startsName] at h
  | cons c s =>
    have hslash : c ≠ '\\' := by
      rintro rfl
      simp [isNameChar, isNameStart] at h
    cases s with
    | nil =>
      have hminus : c ≠ '-' := by
        rintro rfl
        simp [startsName] at h
      simpa [startsName, hminus, hslash] using h.1
    | cons d s =>
      by_cases hminus : c = '-'
      · subst hminus
        exact h.1
      · simpa [startsName, hminus, hslash] using h.1

/-- Behind an at sign a plain name is a single token up to where it ends. -/
theorem read_atName {s : List Char} (h : isPlainName s) {x : Char} (hx : isNameChar x = false)
    (hslash : x ≠ '\\') (w : List Char) :
    Token.read '@' (s ++ x :: w) = (.atKeyword (String.ofList s), x :: w) := by
  have hstart := startsName_append_of_plain h (x :: w)
  simp only [isPlainName, Bool.and_eq_true] at h
  have hat : Token.read '@' (s ++ x :: w) =
      if startsName (s ++ x :: w) then
        (.atKeyword (String.ofList (name (s ++ x :: w)).1), (name (s ++ x :: w)).2)
      else (.delim '@', s ++ x :: w) := by
    simp [Token.read, isAsciiBlank, isNewline, startsNumber, startsDigit, fraction?]
  rw [hat, if_pos hstart, name_plain h.2 hx hslash]

/-- A plain name in front of a break is a single token. -/
theorem read_plainName {c : Char} {s : List Char} (h : isPlainName (c :: s)) {x : Char}
    (hx : isBreak x) (w : List Char) :
    Token.read c (s ++ x :: w) = (.ident (String.ofList (c :: s)), x :: w) := by
  have hstart := startsName_append_of_plain h (x :: w)
  simp only [isPlainName, Bool.and_eq_true] at h
  have hname : nameToken (c :: s ++ x :: w) = (.ident (String.ofList (c :: s)), x :: w) := by
    rw [nameToken, name_plain h.2 (not_nameChar_of_isBreak hx) (ne_of_isBreak hx rfl)]
    rcases isBreak_cases hx with rfl | rfl | rfl | rfl | rfl <;> rfl
  rw [List.cons_append] at hstart hname
  rw [Token.read_name hstart, hname]
  rintro ⟨-, harrow⟩
  -- An arrow would end the name.
  obtain ⟨t, rfl⟩ : ['-', '>'] <+: s := prefix_of_break hx (by decide) harrow
  exact absurd (List.all_eq_true.1 h.2 '>' (by simp)) (by decide)

end RasterFallback
