import RasterFallback.Css.Number

/-!
One token at a time. `Token.read` takes the first character and the rest, and
leaves an end piece of the rest: so it always gets forward.
-/
namespace RasterFallback.Css
open RasterFallback.Text

/-- Whether two texts are equal. Ends that are one and the same in memory are not gone
through. -/
def sameText : (s t : List Char) → Decidable (s = t)
  | [], [] => isTrue rfl
  | [], _ :: _ => isFalse nofun
  | _ :: _, [] => isFalse nofun
  | c :: s, d :: t =>
    if hc : c = d then
      match withPtrEqDecEq s t fun _ => sameText s t with
      | isTrue h => isTrue (by rw [hc, h])
      | isFalse h => isFalse fun e => h (List.cons.inj e).2
    else isFalse fun e => hc (List.cons.inj e).1

/-- What of `s` lies before its end piece `rest`. -/
def consumed (s rest : List Char) : List Char :=
  match s with
  | [] => []
  | c :: t =>
    match sameText s rest with
    | isTrue _ => []
    | isFalse _ => c :: consumed t rest

theorem consumed_append {s rest : List Char} (h : rest <:+ s) : consumed s rest ++ rest = s := by
  induction s with
  | nil => simpa [consumed] using h
  | cons c t ih =>
    unfold consumed
    split
    · simp_all
    · rename_i hne _
      have ht : rest <:+ t := (List.suffix_cons_iff.1 h).resolve_left fun e => hne e.symm
      rw [List.cons_append, ih ht]

/-- The content of a string up to its quote mark, whether an open line end cut
it off, and the text behind it. A backslash joins lines. -/
def quotedContent (q : Char) (s : List Char) : List Char × Bool × List Char :=
  match s with
  | [] => ([], false, [])
  | c :: s =>
    if c = q then ([], false, s)
    else if isNewline c then ([], true, c :: s)
    else if c = '\\' then
      if s.isEmpty then ([], false, [])
      else if startsNewline s then quotedContent q (dropNewline s)
      else
        let r := quotedContent q (escape s).2
        ((escape s).1 :: r.1, r.2)
    else
      let r := quotedContent q s
      (unnull c :: r.1, r.2)
  termination_by s.length
  decreasing_by
    · have := (dropNewline_suffix s).length_le; simp; omega
    · have := escape_length s; simp; omega
    · simp

/-- A string behind its quote mark `q`. -/
def quotedToken (q : Char) (s : List Char) : Token × List Char :=
  match quotedContent q s with
  | (content, true, rest) => (.badString (String.ofList content), rest)
  | (content, false, rest) => (.quotedString (String.ofList content), rest)

/-- A character that an unquoted url may not hold. -/
def breaksUrl (c : Char) : Bool :=
  c == '\x22' || c == '\x27' || c == '(' || c == '\x7f' || c == '\x0b' ||
    (0x01 ≤ c.toNat && c.toNat ≤ 0x08) || (0x0E ≤ c.toNat && c.toNat ≤ 0x1F)

/-- Only blanks may stand between a url and its parenthesis. The first part of
the answer says whether that holds. -/
def urlEnd : List Char → Bool × List Char
  | [] => (true, [])
  | c :: s => if c = ')' then (true, s) else if isAsciiBlank c then urlEnd s else (false, s)

/-- The content of an unquoted url, unless something breaks it. -/
def urlContent (s : List Char) : Option (List Char) × List Char :=
  match s with
  | [] => (some [], [])
  | c :: s =>
    if c = ')' then (some [], s)
    else if isAsciiBlank c then
      let e := urlEnd s
      (if e.1 then some [] else none, e.2)
    else if breaksUrl c then (none, s)
    else if c = '\\' then
      if startsNewline s then (none, s)
      else
        let r := urlContent (escape s).2
        (r.1.map ((escape s).1 :: ·), r.2)
    else
      let r := urlContent s
      (r.1.map (unnull c :: ·), r.2)
  termination_by s.length
  decreasing_by
    · have := escape_length s; simp; omega
    · simp

/-- The rest of a broken url from its closing parenthesis on. An escaped
parenthesis does not close it. -/
def brokenUrlEnd : List Char → List Char
  | [] => []
  | '\\' :: ')' :: s => brokenUrlEnd s
  | '\\' :: '\\' :: s => brokenUrlEnd s
  | c :: s => if c = ')' then c :: s else brokenUrlEnd s

/-- What follows `url(`: the function if a quote mark comes first, or else an
unquoted url. -/
def urlToken (function : Token) (s : List Char) : Token × List Char :=
  let body := s.dropWhile isAsciiBlank
  match body with
  | '\x22' :: _ => (function, s)
  | '\x27' :: _ => (function, s)
  | _ =>
    match urlContent body with
    | (some content, rest) => (.unquotedUrl (String.ofList content), rest)
    | (none, rest) =>
      let e := brokenUrlEnd rest
      (.badUrl (String.ofList (consumed body e)), e.drop 1)

def lowerAscii (s : List Char) : List Char := s.map Char.toLower

/-- A name, or a function or url if a parenthesis follows at once. -/
def nameToken (s : List Char) : Token × List Char :=
  let n := (name s).1
  match (name s).2 with
  | '(' :: rest =>
    let function := Token.function (String.ofList n)
    if lowerAscii n = ['u', 'r', 'l'] then urlToken function rest else (function, rest)
  | rest => (.ident (String.ofList n), rest)

/-- The content of a comment and the text behind it. -/
def commentContent : List Char → List Char × List Char
  | [] => ([], [])
  | '*' :: '/' :: s => ([], s)
  | c :: s => (c :: (commentContent s).1, (commentContent s).2)

/-- A token for a symbol, or a pair with an equals sign. -/
def symbolOrMatch (c : Char) (pair : Token) : List Char → Token × List Char
  | '=' :: s => (pair, s)
  | s => (.delim c, s)

def hashToken (s : List Char) : Token × List Char :=
  if startsName s then (.idHash (String.ofList (name s).1), (name s).2)
  else
    match s with
    | c :: _ =>
      if c.isDigit || c == '-' then (.hash (String.ofList (name s).1), (name s).2)
      else (.delim '#', s)
    | [] => (.delim '#', s)

/-- The token that starts with the character `c` before the text `s`, and what follows it. -/
def Token.read (c : Char) (s : List Char) : Token × List Char :=
  if isAsciiBlank c then
    (.whitespace (String.ofList (c :: s.takeWhile isAsciiBlank)), s.dropWhile isAsciiBlank)
  else if startsNumber (c :: s) then numericToken (c :: s)
  else
    match c, s with
    | '-', '-' :: '>' :: rest => (.cdc, rest)
    | '<', '!' :: '-' :: '-' :: rest => (.cdo, rest)
    | '/', '*' :: rest =>
      (.comment (String.ofList (commentContent rest).1), (commentContent rest).2)
    | '\x22', _ => quotedToken c s
    | '\x27', _ => quotedToken c s
    | '#', _ => hashToken s
    | '@', _ =>
      if startsName s then (.atKeyword (String.ofList (name s).1), (name s).2)
      else (.delim c, s)
    | '$', _ => symbolOrMatch c .suffixMatch s
    | '*', _ => symbolOrMatch c .substringMatch s
    | '^', _ => symbolOrMatch c .prefixMatch s
    | '|', _ => symbolOrMatch c .dashMatch s
    | '~', _ => symbolOrMatch c .includeMatch s
    | '(', _ => (.opening .paren, s)
    | '[', _ => (.opening .square, s)
    | '\x7b', _ => (.opening .curly, s)
    | ')', _ => (.closing .paren, s)
    | ']', _ => (.closing .square, s)
    | '\x7d', _ => (.closing .curly, s)
    | ',', _ => (.comma, s)
    | ':', _ => (.colon, s)
    | ';', _ => (.semicolon, s)
    | _, _ => if startsName (c :: s) then nameToken (c :: s) else (.delim c, s)

theorem startsName_name_suffix {c : Char} {s : List Char} (h : startsName (c :: s) = true) :
    (name (c :: s)).2 <:+ s := by
  rw [name]
  split
  · exact name_suffix s
  · split
    · exact (name_suffix _).trans (escape_suffix s)
    · rename_i hc hb
      exfalso
      unfold startsName at h
      split at h <;> simp_all [isNameChar]

theorem quotedContent_suffix (q : Char) (s : List Char) : (quotedContent q s).2.2 <:+ s := by
  fun_induction quotedContent q s with
  | case1 => exact List.suffix_rfl
  | case2 => exact List.suffix_cons ..
  | case3 => exact List.suffix_rfl
  | case4 => exact List.nil_suffix
  | case5 s _ _ _ _ ih => exact (ih.trans (dropNewline_suffix s)).trans (List.suffix_cons ..)
  | case6 s _ _ _ _ r ih => exact (ih.trans (escape_suffix s)).trans (List.suffix_cons ..)
  | case7 c s _ _ _ r ih => exact ih.trans (List.suffix_cons ..)

theorem urlEnd_suffix (s : List Char) : (urlEnd s).2 <:+ s := by
  induction s with
  | nil => exact List.suffix_rfl
  | cons c s ih =>
    unfold urlEnd
    split
    · exact List.suffix_cons ..
    · split
      · exact ih.trans (List.suffix_cons ..)
      · exact List.suffix_cons ..

theorem urlContent_suffix (s : List Char) : (urlContent s).2 <:+ s := by
  fun_induction urlContent s with
  | case1 => exact List.suffix_rfl
  | case2 => exact List.suffix_cons ..
  | case3 c s _ _ e => exact (urlEnd_suffix s).trans (List.suffix_cons ..)
  | case4 => exact List.suffix_cons ..
  | case5 => exact List.suffix_cons ..
  | case6 s _ _ _ _ r ih => exact (ih.trans (escape_suffix s)).trans (List.suffix_cons ..)
  | case7 c s _ _ _ _ r ih => exact ih.trans (List.suffix_cons ..)

theorem brokenUrlEnd_suffix (s : List Char) : brokenUrlEnd s <:+ s := by
  fun_induction brokenUrlEnd s with
  | case1 => exact List.suffix_rfl
  | case2 s ih => exact (ih.trans (List.suffix_cons ..)).trans (List.suffix_cons ..)
  | case3 s ih => exact (ih.trans (List.suffix_cons ..)).trans (List.suffix_cons ..)
  | case4 => exact List.suffix_rfl
  | case5 c s _ _ _ ih => exact ih.trans (List.suffix_cons ..)

theorem urlToken_suffix (f : Token) (s : List Char) : (urlToken f s).2 <:+ s := by
  have hb : s.dropWhile isAsciiBlank <:+ s := List.dropWhile_suffix _
  unfold urlToken
  simp only
  split
  · exact List.suffix_rfl
  · exact List.suffix_rfl
  · have hc := (urlContent_suffix (s.dropWhile isAsciiBlank)).trans hb
    split
    · rename_i h; rw [h] at hc; exact hc
    · rename_i h; rw [h] at hc
      exact ((List.drop_suffix ..).trans (brokenUrlEnd_suffix _)).trans hc

theorem nameToken_suffix {c : Char} {s : List Char} (h : startsName (c :: s) = true) :
    (nameToken (c :: s)).2 <:+ s := by
  have hn := startsName_name_suffix h
  unfold nameToken
  simp only
  split
  · rename_i rest hr
    rw [hr] at hn
    have hn := (List.suffix_cons _ rest).trans hn
    split
    · exact (urlToken_suffix _ rest).trans hn
    · exact hn
  · exact hn

theorem commentContent_suffix (s : List Char) : (commentContent s).2 <:+ s := by
  fun_induction commentContent s with
  | case1 => exact List.suffix_rfl
  | case2 s => exact (List.suffix_cons ..).trans (List.suffix_cons ..)
  | case3 c s _ ih => exact ih.trans (List.suffix_cons ..)

theorem symbolOrMatch_suffix (c : Char) (t : Token) (s : List Char) :
    (symbolOrMatch c t s).2 <:+ s := by
  unfold symbolOrMatch
  split
  · exact List.suffix_cons ..
  · exact List.suffix_rfl

theorem hashToken_suffix (s : List Char) : (hashToken s).2 <:+ s := by
  unfold hashToken
  split
  · exact name_suffix s
  · split
    · split
      · exact name_suffix _
      · exact List.suffix_rfl
    · exact List.suffix_rfl

theorem quotedToken_suffix (q : Char) (s : List Char) : (quotedToken q s).2 <:+ s := by
  have h := quotedContent_suffix q s
  unfold quotedToken
  split <;> simp_all

/-- The kinds of tokens that the character `c` begins before the text `s`, each with what its
reader answers. -/
inductive Token.Reading (c : Char) (s : List Char) : Token × List Char → Prop where
  | blank (h : isAsciiBlank c) : Reading c s
      (.whitespace (String.ofList (c :: s.takeWhile isAsciiBlank)), s.dropWhile isAsciiBlank)
  | number (h : startsNumber (c :: s)) : Reading c s (numericToken (c :: s))
  | cdc {rest : List Char} (hc : c = '-') (h : s = '-' :: '>' :: rest) : Reading c s (.cdc, rest)
  | cdo {rest : List Char} (hc : c = '<') (h : s = '!' :: '-' :: '-' :: rest) :
      Reading c s (.cdo, rest)
  | comment {rest : List Char} (hc : c = '/') (h : s = '*' :: rest) : Reading c s
      (.comment (String.ofList (commentContent rest).1), (commentContent rest).2)
  | quoted (hc : c = '\x22' ∨ c = '\x27') : Reading c s (quotedToken c s)
  | hash (hc : c = '#') : Reading c s (hashToken s)
  | keyword (hc : c = '@') (h : startsName s) :
      Reading c s (.atKeyword (String.ofList (name s).1), (name s).2)
  | pair {t : Token} (h : t.isPair) : Reading c s (symbolOrMatch c t s)
  | sign {t : Token} (h : t.sign? = some c) : Reading c s (t, s)
  | named (h : startsName (c :: s)) : Reading c s (nameToken (c :: s))
  | delim : Reading c s (.delim c, s)

/-- Every token is read in one of these ways. -/
theorem Token.reading (c : Char) (s : List Char) : Reading c s (Token.read c s) := by
  unfold Token.read
  split
  case isTrue h => exact .blank h
  split
  case isTrue h => exact .number h
  split
  case h_1 => exact .cdc rfl rfl
  case h_2 => exact .cdo rfl rfl
  case h_3 => exact .comment rfl rfl
  case h_4 => exact .quoted (.inl rfl)
  case h_5 => exact .quoted (.inr rfl)
  case h_6 => exact .hash rfl
  case h_7 =>
    split
    case isTrue h => exact .keyword rfl h
    case isFalse => exact .delim
  case h_8 | h_9 | h_10 | h_11 | h_12 => exact .pair rfl
  case h_22 =>
    split
    case isTrue h => exact .named h
    case isFalse => exact .delim
  all_goals exact .sign rfl

/-- What follows a token is an end piece of what follows its first character. -/
theorem Token.read_suffix (c : Char) (s : List Char) : (Token.read c s).2 <:+ s := by
  have hreading := Token.reading c s
  generalize Token.read c s = r at hreading ⊢
  cases hreading with
  | blank => exact List.dropWhile_suffix _
  | number h => exact numericToken_tail h
  | cdc _ h => exact h ▸ (List.suffix_cons ..).trans (List.suffix_cons ..)
  | cdo _ h =>
    exact h ▸ ((List.suffix_cons ..).trans (List.suffix_cons ..)).trans (List.suffix_cons ..)
  | comment _ h => exact h ▸ (commentContent_suffix _).trans (List.suffix_cons ..)
  | quoted => exact quotedToken_suffix ..
  | hash => exact hashToken_suffix s
  | keyword => exact name_suffix s
  | pair => exact symbolOrMatch_suffix ..
  | named h => exact nameToken_suffix h
  | sign | delim => exact List.suffix_rfl

end RasterFallback.Css
