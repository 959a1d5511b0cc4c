import Mathlib.Data.List.Forall2
import Mathlib.Data.List.Nodup
import RasterFallback.Json.Text
import RasterFallback.Json.Value
import RasterFallback.Proofs.Text.Encodings

/-!
What JSON texts are, whoever reads them. Blanks may stand around values and names, and the
characters of a string may be written in several ways. A text spells an object also if it has the
members in another order, has others besides, or leaves out some that have their defaults.
-/
namespace RasterFallback.Json
open RasterFallback.Text

def AreBlank (s : List Char) : Prop := ∀ c ∈ s, isBlank c

theorem areBlank_nil : AreBlank [] := nofun

section Strings

/-- Four hexadecimal digits and the number they spell. -/
inductive IsHexFour : Nat → List Char → Prop where
  | digits {a b c d : Char} {k l m n : Nat} (ha : hexValue? a = some k) (hb : hexValue? b = some l)
      (hc : hexValue? c = some m) (hd : hexValue? d = some n) :
      IsHexFour (((k * 16 + l) * 16 + m) * 16 + n) [a, b, c, d]

/-- How a character is written within a string. -/
inductive SpellsChar : Char → List Char → Prop where
  | plain {c : Char} (control : 0x20 ≤ c.toNat) (quote : c ≠ '\x22') (slash : c ≠ '\\') :
      SpellsChar c [c]
  | letter {c l : Char} (h : letterEscape? l = some c) : SpellsChar c ['\\', l]
  | unit {c : Char} {t : List Char} (h : IsHexFour c.toNat t) : SpellsChar c ('\\' :: 'u' :: t)
  | pair {c : Char} {m n : Nat} {t u : List Char} (hm : IsHexFour m t) (hn : IsHexFour n u)
      (first : isFirstSurrogate m) (second : isSecondSurrogate n)
      (h : c.toNat = 0x10000 + (m - 0xD800) * 0x400 + (n - 0xDC00)) :
      SpellsChar c ('\\' :: 'u' :: (t ++ '\\' :: 'u' :: u))

/-- How a text is written between quote marks. -/
inductive Spells : List Char → List Char → Prop where
  | nil : Spells [] []
  | cons {c : Char} {s t u : List Char} (hc : SpellsChar c t) (hs : Spells s u) :
      Spells (c :: s) (t ++ u)

/-- What a string may consist of. Halves of pairs may stand alone. -/
inductive IsPiece : List Char → Prop where
  | plain {c : Char} (control : 0x20 ≤ c.toNat) (quote : c ≠ '\x22') (slash : c ≠ '\\') :
      IsPiece [c]
  | letter {l : Char} (h : (letterEscape? l).isSome) : IsPiece ['\\', l]
  | unit {n : Nat} {t : List Char} (h : IsHexFour n t) : IsPiece ('\\' :: 'u' :: t)

/-- What may stand between the quote marks of a string, whether it spells a text or not. -/
inductive IsString : List Char → Prop where
  | nil : IsString []
  | cons {t u : List Char} (ht : IsPiece t) (hu : IsString u) : IsString (t ++ u)

def quoted (t : List Char) : List Char := '\x22' :: (t ++ ['\x22'])

end Strings

section Numbers

/-- At least one digit. -/
def AreDigits (t : List Char) : Prop := t ≠ [] ∧ ∀ c ∈ t, c.isDigit

/-- The whole part of a number does not begin with a zero, unless it is one. -/
inductive IsWhole : List Char → Prop where
  | zero : IsWhole ['0']
  | positive {c : Char} {t : List Char} (hc : c.isDigit) (hzero : c ≠ '0')
      (ht : ∀ d ∈ t, d.isDigit) : IsWhole (c :: t)

inductive IsFraction : List Char → Prop where
  | none : IsFraction []
  | digits {t : List Char} (ht : AreDigits t) : IsFraction ('.' :: t)

inductive IsExponent : List Char → Prop where
  | none : IsExponent []
  | digits {e : Char} {sign t : List Char} (he : e = 'e' ∨ e = 'E')
      (hsign : sign = [] ∨ sign = ['+'] ∨ sign = ['-']) (ht : AreDigits t) :
      IsExponent (e :: (sign ++ t))

inductive IsNumber : List Char → Prop where
  | parts {minus whole fraction exponent : List Char} (hminus : minus = [] ∨ minus = ['-'])
      (hwhole : IsWhole whole) (hfraction : IsFraction fraction) (hexponent : IsExponent exponent) :
      IsNumber (minus ++ (whole ++ (fraction ++ exponent)))

end Numbers

/-- A value with blanks around it. -/
def IsPadded (v t : List Char) : Prop :=
  ∃ front behind, AreBlank front ∧ AreBlank behind ∧ t = front ++ (v ++ behind)

/-- A member of an object: a name, a colon and the text of a value. -/
def IsMember {α : Type} (named : α → List Char → Prop) (m : α × List Char) (t : List Char) :
    Prop :=
  ∃ k key value, named m.1 k ∧ IsPadded (quoted k) key ∧ IsPadded m.2 value ∧
    t = key ++ ':' :: value

/-- Texts with commas between them, or blanks if there are none. -/
inductive AreSeparated {α : Type} (one : α → List Char → Prop) : List α → List Char → Prop where
  | none {t : List Char} (ht : AreBlank t) : AreSeparated one [] t
  | last {a : α} {t : List Char} (ha : one a t) : AreSeparated one [a] t
  | cons {a b : α} {as : List α} {t u : List Char} (ha : one a t)
      (hbs : AreSeparated one (b :: as) u) : AreSeparated one (a :: b :: as) (t ++ ',' :: u)

/-- Values of any kind and depth. -/
inductive IsValue : List Char → Prop where
  | word {t : List Char} (h : t = "null".toList ∨ t = "true".toList ∨ t = "false".toList) :
      IsValue t
  | number {t : List Char} (h : IsNumber t) : IsValue t
  | string {t : List Char} (h : IsString t) : IsValue (quoted t)
  | list {vs : List (List Char)} {t : List Char} (h : AreSeparated IsPadded vs t)
      (hvs : ∀ v ∈ vs, IsValue v) : IsValue ('[' :: (t ++ [']']))
  | object {ms : List (List Char × List Char)} {t : List Char}
      (h : AreSeparated (IsMember fun name k => k = name ∧ IsString k) ms t)
      (hms : ∀ m ∈ ms, IsValue m.2) : IsValue ('\x7b' :: (t ++ ['\x7d']))

/-- The value of a member of an object. -/
def Value.member? (name : String) : Value → Option Value
  | .object ms => ms.lookup name
  | _ => none

mutual

/-- Whether a text spells a value. Members of an object that have the values of `defaults` may be
left out; the order of members does not matter, and members with other names may be added. -/
def Value.IsSpelled : Value → Option Value → List Char → Prop
  | .null, _, t => t = "null".toList
  | .bool b, _, t => t = if b then "true".toList else "false".toList
  | .whole n, _, t => t = (toString n).toList
  | .string s, _, t => ∃ k, Spells s.toList k ∧ t = quoted k
  | .array vs, _, t =>
    ∃ ts u, AreSeparated IsPadded ts u ∧ t = '[' :: (u ++ [']']) ∧ areSpelled vs ts
  | .object ms, defaults, t =>
    ∃ (ts : List (String × List Char)) (u : List Char),
      AreSeparated (IsMember fun name k => Spells name.toList k) ts u ∧
      t = '\x7b' :: (u ++ ['\x7d']) ∧
      ((ts.map Prod.fst).filter fun name => name ∈ ms.map Prod.fst).Nodup ∧
      (∀ m ∈ ts, m.1 ∉ ms.map Prod.fst → IsValue m.2) ∧ membersSpelled ms defaults ts

def areSpelled : List Value → List (List Char) → Prop
  | [], ts => ts = []
  | v :: vs, ts => ∃ t us, ts = t :: us ∧ v.IsSpelled none t ∧ areSpelled vs us

/-- Members that are there spell the values, and those that are not there have their defaults. -/
def membersSpelled : List (String × Value) → Option Value → List (String × List Char) → Prop
  | [], _, _ => True
  | (name, v) :: ms, defaults, ts =>
    (∀ t, (name, t) ∈ ts → v.IsSpelled (defaults.bind (Value.member? name)) t) ∧
      (name ∉ ts.map Prod.fst → defaults.bind (Value.member? name) = some v) ∧
      membersSpelled ms defaults ts

end

theorem membersSpelled_iff {ms : List (String × Value)} {defaults : Option Value}
    {ts : List (String × List Char)} : membersSpelled ms defaults ts ↔
      ∀ m ∈ ms, (∀ t, (m.1, t) ∈ ts → m.2.IsSpelled (defaults.bind (Value.member? m.1)) t) ∧
        (m.1 ∉ ts.map Prod.fst → defaults.bind (Value.member? m.1) = some m.2) := by
  induction ms with
  | nil => simp [membersSpelled]
  | cons m ms ih => rw [membersSpelled, ih, List.forall_mem_cons, and_assoc]

section Written

theorem isHexFour_control {n : Nat} (h : n < 0x20) :
    IsHexFour n ['0', '0', hexDigit (n / 16), hexDigit (n % 16)] := by
  have hhigh : hexValue? (hexDigit (n / 16)) = some (n / 16) :=
    hexValue?_hexDigitIn false (by omega)
  have hlow : hexValue? (hexDigit (n % 16)) = some (n % 16) :=
    hexValue?_hexDigitIn false (by omega)
  have hzero : hexValue? '0' = some 0 := rfl
  have hn : ((0 * 16 + 0) * 16 + n / 16) * 16 + n % 16 = n := by omega
  have hfour := IsHexFour.digits hzero hzero hhigh hlow
  rwa [hn] at hfour

/-- Every character is written as one that stands for it. -/
theorem spellsChar_escaped (c : Char) : SpellsChar c (escaped c) := by
  by_cases hletter : c ∈ ['\x22', '\\', '\x08', '\x0c', '\n', '\r', '\t']
  · simp only [List.mem_cons, List.not_mem_nil, or_false] at hletter
    rcases hletter with rfl | rfl | rfl | rfl | rfl | rfl | rfl
    all_goals exact .letter rfl
  · simp only [List.mem_cons, List.not_mem_nil, or_false, not_or] at hletter
    obtain ⟨hquote, hslash, hback, hfeed, hline, hreturn, htab⟩ := hletter
    unfold escaped
    rw [if_neg hquote, if_neg hslash, if_neg hback, if_neg hfeed, if_neg hline, if_neg hreturn,
      if_neg htab]
    split
    case isTrue hcontrol => exact .unit (isHexFour_control hcontrol)
    case isFalse hcontrol => exact .plain (Nat.le_of_not_lt hcontrol) hquote hslash

theorem spells_escaped (s : List Char) : Spells s (s.flatMap escaped) := by
  induction s with
  | nil => exact .nil
  | cons c s ih => exact .cons (spellsChar_escaped c) ih

theorem isPadded_self (v : List Char) : IsPadded v v := ⟨[], [], areBlank_nil, areBlank_nil, by simp⟩

theorem areSeparated_commaSeparated {α : Type} {one : α → List Char → Prop} {as : List α}
    {ts : List (List Char)} (h : List.Forall₂ one as ts) :
    AreSeparated one as (commaSeparated ts) := by
  induction h with
  | nil => exact .none areBlank_nil
  | @cons a t as ts ha has ih =>
    cases has with
    | nil => exact .last ha
    | cons hb has => exact .cons ha ih

theorem isSpelled_string (s : String) (defaults : Option Value) :
    (Value.string s).IsSpelled defaults (Value.string s).text := by
  rw [Value.IsSpelled, Value.text]
  exact ⟨s.toList.flatMap escaped, spells_escaped s.toList, rfl⟩

theorem isSpelled_bool (b : Bool) (defaults : Option Value) :
    (Value.bool b).IsSpelled defaults (Value.bool b).text := by
  rw [Value.IsSpelled, Value.text]

theorem isSpelled_array {vs : List Value} (h : ∀ v ∈ vs, v.IsSpelled none v.text)
    (defaults : Option Value) : (Value.array vs).IsSpelled defaults (Value.array vs).text := by
  have hitems : areSpelled vs (itemTexts vs) := by
    induction vs with
    | nil => rw [areSpelled, itemTexts]
    | cons v vs ih =>
      obtain ⟨hv, hvs⟩ := List.forall_mem_cons.1 h
      rw [areSpelled, itemTexts]
      exact ⟨v.text, itemTexts vs, rfl, hv, ih hvs⟩
  have hpadded : List.Forall₂ IsPadded (itemTexts vs) (itemTexts vs) :=
    List.forall₂_same.2 fun t _ => isPadded_self t
  rw [Value.IsSpelled, Value.text]
  exact ⟨itemTexts vs, _, areSeparated_commaSeparated hpadded, rfl, hitems⟩

theorem areSeparated_memberTexts (ms : List (String × Value)) :
    AreSeparated (IsMember fun name k => Spells name.toList k) (ms.map fun m => (m.1, m.2.text))
      (commaSeparated (memberTexts ms)) := by
  apply areSeparated_commaSeparated
  induction ms with
  | nil =>
    rw [memberTexts]
    exact .nil
  | cons m ms ih =>
    obtain ⟨name, v⟩ := m
    rw [memberTexts]
    exact .cons ⟨_, _, _, spells_escaped name.toList, isPadded_self _, isPadded_self _, rfl⟩ ih

/-- An object whose names differ is written in full. -/
theorem isSpelled_object {ms : List (String × Value)} (hnodup : (ms.map Prod.fst).Nodup)
    {defaults : Option Value}
    (h : ∀ m ∈ ms, m.2.IsSpelled (defaults.bind (Value.member? m.1)) m.2.text) :
    (Value.object ms).IsSpelled defaults (Value.object ms).text := by
  have hnames : (ms.map fun m => (m.1, m.2.text)).map Prod.fst = ms.map Prod.fst := by
    rw [List.map_map]
    rfl
  rw [Value.IsSpelled, Value.text]
  refine ⟨_, _, areSeparated_memberTexts ms, rfl, ?_, ?_, ?_⟩
  · rw [hnames]
    exact hnodup.filter _
  · intro m hm hunknown
    refine absurd ?_ hunknown
    rw [← hnames]
    exact List.mem_map_of_mem hm
  · apply membersSpelled_iff.2
    intro m hm
    refine ⟨?_, ?_⟩
    · intro t ht
      obtain ⟨n, hn, heq⟩ := List.mem_map.1 ht
      -- Only one member has the name.
      obtain ⟨hname, rfl⟩ := Prod.mk.inj heq
      obtain rfl : n = m := List.inj_on_of_nodup_map hnodup hn hm hname
      exact h n hm
    · intro hname
      rw [hnames] at hname
      exact absurd (List.mem_map_of_mem hm) hname

end Written

end RasterFallback.Json
