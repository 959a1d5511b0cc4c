import RasterFallback.Css.Lexeme

/-!
Signs: tokens that are always spelled by one and the same character. Nothing else
is read as a sign, and outside other tokens the character is nothing else.
-/
namespace RasterFallback.Css
open RasterFallback.Text

theorem sign?_numericToken (s : List Char) : (numericToken s).1.sign? = none := by
  unfold numericToken
  generalize numeral s = n
  obtain ⟨n, rest⟩ := n
  simp only
  split
  · rfl
  · split <;> rfl

theorem sign?_quotedToken (q : Char) (s : List Char) : (quotedToken q s).1.sign? = none := by
  unfold quotedToken
  split <;> rfl

theorem sign?_hashToken (s : List Char) : (hashToken s).1.sign? = none := by
  unfold hashToken
  split
  · rfl
  · split
    · split <;> rfl
    · rfl

theorem sign?_symbolOrMatch (c : Char) {t : Token} (ht : t.sign? = none) (s : List Char) :
    (symbolOrMatch c t s).1.sign? = none := by
  unfold symbolOrMatch
  split
  · exact ht
  · rfl

theorem sign?_urlToken {f : Token} (hf : f.sign? = none) (s : List Char) :
    (urlToken f s).1.sign? = none := by
  unfold urlToken
  simp only
  split
  · exact hf
  · exact hf
  · split <;> rfl

theorem sign?_nameToken (s : List Char) : (nameToken s).1.sign? = none := by
  unfold nameToken
  simp only
  split
  · split
    · exact sign?_urlToken rfl _
    · rfl
  · rfl

theorem sign?_of_isPair {t : Token} (ht : t.isPair) : t.sign? = none := by
  cases t <;> simp_all [Token.isPair, Token.sign?]

/-- A sign is read from its character alone. -/
theorem Token.read_sign {c x : Char} {s : List Char} (h : (Token.read c s).1.sign? = some x) :
    c = x ∧ (Token.read c s).2 = s := by
  have hno {t : Token} (ht : t.sign? = none) (he : t.sign? = some x) : False := by
    rw [ht] at he
    cases he
  have hreading := Token.reading c s
  generalize Token.read c s = r at h hreading ⊢
  cases hreading with
  | blank | cdc | cdo | comment | keyword | delim => cases h
  | number => exact (hno (sign?_numericToken _) h).elim
  | quoted => exact (hno (sign?_quotedToken _ _) h).elim
  | hash => exact (hno (sign?_hashToken _) h).elim
  | pair ht => exact (hno (sign?_symbolOrMatch c (sign?_of_isPair ht) s) h).elim
  | sign ht => exact ⟨Option.some.inj (ht.symm.trans h), rfl⟩
  | named => exact (hno (sign?_nameToken _) h).elim

theorem Token.read_colon (s : List Char) : Token.read ':' s = (.colon, s) := by
  simp [Token.read, isAsciiBlank, isNewline, startsNumber, startsDigit, fraction?]

theorem Token.read_semicolon (s : List Char) : Token.read ';' s = (.semicolon, s) := by
  simp [Token.read, isAsciiBlank, isNewline, startsNumber, startsDigit, fraction?]

theorem Token.read_openBrace (s : List Char) :
    Token.read '\x7b' s = (.opening .curly, s) := by
  simp [Token.read, isAsciiBlank, isNewline, startsNumber, startsDigit, fraction?]

theorem Token.read_closeBrace (s : List Char) :
    Token.read '\x7d' s = (.closing .curly, s) := by
  simp [Token.read, isAsciiBlank, isNewline, startsNumber, startsDigit, fraction?]

end RasterFallback.Css
