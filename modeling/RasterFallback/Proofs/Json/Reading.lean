import RasterFallback.Proofs.Json.Passing

/-!
Values of known types are read as what they spell. A record is read member by member: whatever
the order of the members, it has been read as far as the names that were there.
-/
namespace RasterFallback.Json
open RasterFallback.Text

section Strings

variable {c : Char} {s t u rest : List Char} {m n : Nat}

theorem readString_quote (s : List Char) : readString ('\x22' :: s) = .ok ([], s) := by
  rw [readString]

theorem readString_plain (hcontrol : 0x20 ≤ c.toNat) (hquote : c ≠ '\x22') (hslash : c ≠ '\\')
    (s : List Char) :
    readString (c :: s) = (readString s).map fun r => (c :: r.1, r.2) := by
  rw [readString, if_neg (by omega)]
  · cases readString s <;> rfl
  · exact hquote
  · exact hslash

theorem readString_escape (h : readEscape s = .ok (c, rest)) :
    readString ('\\' :: s) = (readString rest).map fun r => (c :: r.1, r.2) := by
  rw [readString]
  split
  · rename_i e he
    rw [h] at he
    cases he
  · rename_i d r hr
    rw [h] at hr
    cases hr
    cases readString rest <;> rfl

/-- Halves of pairs are no characters. -/
theorem not_surrogate (c : Char) :
    isFirstSurrogate c.toNat = false ∧ isSecondSurrogate c.toNat = false := by
  have hvalid : c.toNat < 0xD800 ∨ 0xDFFF < c.toNat ∧ c.toNat < 0x110000 := c.valid
  simp only [isFirstSurrogate, isSecondSurrogate, Bool.and_eq_false_iff, decide_eq_false_iff_not]
  omega

theorem readEscape_unit (h : IsHexFour c.toNat t) (s : List Char) :
    readEscape ('u' :: (t ++ s)) = .ok (c, s) := by
  obtain ⟨hfirst, hsecond⟩ := not_surrogate c
  simp [readEscape, hexFour_append h, hfirst, hsecond, bind, Except.bind, Char.ofNat_toNat]

theorem secondSurrogate_append (hn : IsHexFour n u) (second : isSecondSurrogate n)
    (h : c.toNat = 0x10000 + (m - 0xD800) * 0x400 + (n - 0xDC00)) (s : List Char) :
    secondSurrogate m ('\\' :: 'u' :: (u ++ s)) = .ok (c, s) := by
  simp [secondSurrogate, hexFour_append hn, second, bind, Except.bind, ← h, Char.ofNat_toNat]

theorem readEscape_pair (hm : IsHexFour m t) (hn : IsHexFour n u) (first : isFirstSurrogate m)
    (second : isSecondSurrogate n) (h : c.toNat = 0x10000 + (m - 0xD800) * 0x400 + (n - 0xDC00))
    (s : List Char) : readEscape ('u' :: (t ++ '\\' :: 'u' :: (u ++ s))) = .ok (c, s) := by
  have hsecond : isSecondSurrogate m = false := by
    simp only [isFirstSurrogate, Bool.and_eq_true, decide_eq_true_eq] at first
    simp only [isSecondSurrogate, Bool.and_eq_false_iff, decide_eq_false_iff_not]
    omega
  have hpair := secondSurrogate_append hn second h s
  simp [readEscape, hexFour_append hm, first, hsecond, hpair, bind, Except.bind]

/-- However a character is written, it is read as itself. -/
theorem readString_char (h : SpellsChar c t) (s : List Char) :
    readString (t ++ s) = (readString s).map fun r => (c :: r.1, r.2) := by
  cases h with
  | plain control quote slash => exact readString_plain control quote slash s
  | @letter l h =>
    have hl : l ≠ 'u' := by
      rintro rfl
      cases h
    have hread : readEscape (l :: s) = .ok (c, s) := by
      rw [readEscape, h]
      exact hl
    exact readString_escape hread
  | unit h => exact readString_escape (readEscape_unit h s)
  | pair hm hn first second h =>
    have hread := readEscape_pair hm hn first second h s
    rw [List.cons_append, List.cons_append, List.append_assoc, List.cons_append, List.cons_append]
    exact readString_escape hread

theorem readString_append (h : Spells s t) (rest : List Char) :
    readString (t ++ '\x22' :: rest) = .ok (s, rest) := by
  induction h with
  | nil => exact readString_quote rest
  | cons hc _ ih =>
    rw [List.append_assoc, readString_char hc, ih]
    rfl

end Strings

/-- Whether a reader takes a text for a value, whatever is in front of it or behind. -/
def Reads {α : Type} (read : Reader α) (a : α) (t : List Char) : Prop :=
  ∀ front rest, AreBlank front → read (front ++ (t ++ rest)) = .ok (a, rest)

section Values

variable {α : Type} {read : Reader α} {t : List Char}

theorem reads_string {s : String} {k : List Char} (h : Spells s.toList k) (expected : String) :
    Reads (string expected) s (quoted k) := by
  intro front rest hfront
  have htext : front ++ (quoted k ++ rest) = front ++ '\x22' :: (k ++ '\x22' :: rest) := by
    simp [quoted]
  have hquote : skipBlanks (front ++ '\x22' :: (k ++ '\x22' :: rest)) =
      '\x22' :: (k ++ '\x22' :: rest) := skipBlanks_append_cons hfront rfl _
  rw [htext, string, hquote]
  simp [readString_append h, bind, Except.bind]

theorem reads_boolean (b : Bool) :
    Reads boolean b (if b then "true".toList else "false".toList) := by
  intro front rest hfront
  have hblanks (c : Char) (s : List Char) (hc : isBlank c = false) :
      boolean (front ++ (c :: s ++ rest)) = boolean (c :: s ++ rest) := by
    rw [boolean, boolean, List.cons_append, skipBlanks_append_cons hfront hc, skipBlanks_cons hc]
  cases b with
  | true => exact (hblanks 't' "rue".toList rfl).trans rfl
  | false => exact (hblanks 'f' "alse".toList rfl).trans rfl

end Values

/-- What stands in front of an element or a member: nothing in front of the first, else a comma. -/
def IsLead (first : Bool) (s : List Char) : Prop :=
  if first then s = [] else ∃ b, AreBlank b ∧ s = b ++ [',']

theorem isLead_first : IsLead true [] := rfl

theorem isLead_next {b : List Char} (hb : AreBlank b) : IsLead false (b ++ [',']) := ⟨b, hb, rfl⟩

section Lists

variable {α : Type} {read : Reader α} {first : Bool} {lead front behind t v : List Char}
  {as : List α} {vs : List (List Char)}

theorem nextItem?_end (hb : AreBlank behind) (first : Bool) (rest : List Char) :
    nextItem? first (behind ++ ']' :: rest) = .ok none := by
  rw [nextItem?, skipBlanks_append_cons hb rfl]
  rfl

theorem nextItem?_begins (hlead : IsLead first lead) (hfront : AreBlank front)
    (hv : BeginsValue v) (rest : List Char) :
    nextItem? first (lead ++ (front ++ (v ++ rest))) = .ok (some (v ++ rest)) := by
  obtain ⟨c, u, rfl, hblank, hcomma, hbracket⟩ := hv
  have hskip : skipBlanks (front ++ c :: (u ++ rest)) = c :: (u ++ rest) :=
    skipBlanks_append_cons hfront hblank _
  rw [List.cons_append]
  cases first with
  | true =>
    obtain rfl : lead = [] := hlead
    rw [List.nil_append, nextItem?, hskip]
    simp [hcomma, hbracket]
  | false =>
    obtain ⟨b, hb, rfl⟩ := hlead
    rw [List.append_assoc, List.singleton_append, nextItem?, skipBlanks_append_cons hb rfl]
    simp [hskip, hbracket]

theorem items_end (hb : AreBlank behind) (fuel : Nat) (first : Bool) (rest : List Char) :
    items read (fuel + 1) first (behind ++ ']' :: rest) = .ok ([], behind ++ ']' :: rest) := by
  rw [items, nextItem?_end hb]
  rfl

/-- One more element is read. -/
theorem items_cons {a : α} (hread : Reads read a v) (hv : BeginsValue v) (ht : IsPadded v t)
    (hlead : IsLead first lead) :
    ∃ behind, AreBlank behind ∧ ∀ fuel rest more r,
      items read fuel false (behind ++ rest) = .ok (more, r) →
        items read (fuel + 1) first (lead ++ (t ++ rest)) = .ok (a :: more, r) := by
  obtain ⟨front, behind, hfront, hbehind, rfl⟩ := ht
  refine ⟨behind, hbehind, ?_⟩
  intro fuel rest more r hmore
  have hitem := nextItem?_begins hlead hfront hv (behind ++ rest)
  have hvalue := hread [] (behind ++ rest) areBlank_nil
  rw [List.append_assoc, List.append_assoc, items, hitem]
  simp only [bind, Except.bind]
  rw [List.nil_append] at hvalue
  rw [hvalue]
  simp only [hmore]

theorem items_separated (h : AreSeparated IsPadded vs t) (has : List.Forall₂ (Reads read) as vs)
    (hvs : ∀ v ∈ vs, BeginsValue v) (hne : vs ≠ []) (hlead : IsLead first lead) {fuel : Nat}
    (hfuel : vs.length < fuel) (rest : List Char) : ∃ behind, AreBlank behind ∧
      items read fuel first (lead ++ (t ++ ']' :: rest)) = .ok (as, behind ++ ']' :: rest) := by
  induction h generalizing as first lead fuel with
  | none => exact absurd rfl hne
  | @last v t ht =>
    obtain ⟨a, as, hread, hmore, rfl⟩ := List.forall₂_cons_right_iff.1 has
    obtain rfl := List.forall₂_nil_right_iff.1 hmore
    obtain ⟨behind, hbehind, hcons⟩ := items_cons hread (hvs v (List.mem_cons_self ..)) ht hlead
    obtain ⟨fuel, rfl⟩ : ∃ k, fuel = k + 1 + 1 := Nat.exists_eq_add_of_le' hfuel
    refine ⟨behind, hbehind, ?_⟩
    exact hcons (fuel + 1) _ [] _ (items_end hbehind fuel false rest)
  | @cons v w vs t u ht _ ih =>
    obtain ⟨hv, hvs⟩ := List.forall_mem_cons.1 hvs
    obtain ⟨a, as, hread, hmore, rfl⟩ := List.forall₂_cons_right_iff.1 has
    obtain ⟨b, hb, hcons⟩ := items_cons hread hv ht hlead
    obtain ⟨fuel, rfl⟩ := Nat.exists_eq_add_one_of_ne_zero (Nat.ne_zero_of_lt hfuel)
    rw [List.length_cons] at hfuel
    obtain ⟨behind, hbehind, hitems⟩ := ih hmore hvs (List.cons_ne_nil _ _) (isLead_next hb)
      (Nat.lt_of_succ_lt_succ hfuel)
    refine ⟨behind, hbehind, ?_⟩
    rw [List.append_assoc, List.cons_append]
    apply hcons
    rwa [List.append_assoc, List.singleton_append] at hitems

theorem AreSeparated.length_le {β : Type} {one : β → List Char → Prop} {bs : List β}
    (h : AreSeparated one bs t) : bs.length ≤ t.length + 1 := by
  induction h with
  | none => exact Nat.zero_le _
  | last => exact Nat.succ_le_succ (Nat.zero_le _)
  | cons _ _ ih =>
    simp only [List.length_cons, List.length_append] at ih ⊢
    omega

theorem endList_append (hb : AreBlank behind) (rest : List Char) :
    endList (behind ++ ']' :: rest) = .ok rest := by
  rw [endList, skipBlanks_append_cons hb rfl]
  rfl

theorem reads_list (h : AreSeparated IsPadded vs t) (has : List.Forall₂ (Reads read) as vs)
    (hvs : ∀ v ∈ vs, BeginsValue v) : Reads (list read) as ('[' :: (t ++ [']'])) := by
  intro front rest hfront
  have hitems : ∃ behind, AreBlank behind ∧
      items read ((t ++ ']' :: rest).length + 1) true (t ++ ']' :: rest) =
        .ok (as, behind ++ ']' :: rest) := by
    cases vs with
    | nil =>
      obtain rfl := List.forall₂_nil_right_iff.1 has
      cases h with
      | none ht => exact ⟨t, ht, items_end ht _ true rest⟩
    | cons v vs =>
      have hfuel : (v :: vs).length < (t ++ ']' :: rest).length + 1 := by
        have := h.length_le
        simp only [List.length_append, List.length_cons] at this ⊢
        omega
      exact items_separated h has hvs (List.cons_ne_nil _ _) isLead_first hfuel rest
  obtain ⟨behind, hbehind, hitems⟩ := hitems
  have htext : front ++ ('[' :: (t ++ [']']) ++ rest) = front ++ '[' :: (t ++ ']' :: rest) := by
    simp
  rw [htext, list, skipBlanks_append_cons hfront rfl]
  simp only [hitems, bind, Except.bind, endList_append hbehind]

end Lists

section Records

variable {β : Type} {fields : List (Member β)} {mix : List String → β} {first : Bool}
  {lead front behind t : List Char} {seen : List String} {b : β}

theorem nextName?_end (hb : AreBlank behind) (first : Bool) (rest : List Char) :
    nextName? first (behind ++ '\x7d' :: rest) = .ok none := by
  rw [nextName?, skipBlanks_append_cons hb rfl]
  rfl

theorem nextName?_quote (hlead : IsLead first lead) (hfront : AreBlank front) (s : List Char) :
    nextName? first (lead ++ (front ++ '\x22' :: s)) = .ok (some s) := by
  have hskip : skipBlanks (front ++ '\x22' :: s) = '\x22' :: s :=
    skipBlanks_append_cons hfront rfl s
  cases first with
  | true =>
    obtain rfl : lead = [] := hlead
    rw [List.nil_append, nextName?, hskip]
    rfl
  | false =>
    obtain ⟨b, hb, rfl⟩ := hlead
    rw [List.append_assoc, List.singleton_append, nextName?, skipBlanks_append_cons hb rfl]
    simp [hskip]

theorem members_end (hb : AreBlank behind) (fuel : Nat) (first : Bool) (seen : List String) (b : β)
    (rest : List Char) : members fields (fuel + 1) first seen b (behind ++ '\x7d' :: rest) =
      .ok (b, behind ++ '\x7d' :: rest) := by
  rw [members, nextName?_end hb]
  rfl

theorem colon_append (hb : AreBlank behind) (s : List Char) :
    colon (behind ++ ':' :: s) = .ok s := by
  rw [colon, skipBlanks_append_cons hb rfl]
  rfl

theorem nextName?_key {k key : List Char} (hkey : IsPadded (quoted k) key)
    (hlead : IsLead first lead) : ∃ behind, AreBlank behind ∧ ∀ s,
      nextName? first (lead ++ (key ++ ':' :: s)) =
        .ok (some (k ++ '\x22' :: (behind ++ ':' :: s))) := by
  obtain ⟨front, behind, hfront, hbehind, rfl⟩ := hkey
  refine ⟨behind, hbehind, ?_⟩
  intro s
  have htext : lead ++ (front ++ (quoted k ++ behind) ++ ':' :: s) =
      lead ++ (front ++ '\x22' :: (k ++ '\x22' :: (behind ++ ':' :: s))) := by
    simp [quoted]
  rw [htext, nextName?_quote hlead hfront]

section Names

variable {name : String} {k key s r : List Char} (hk : Spells name.toList k)
  (hkey : IsPadded (quoted k) key) (hlead : IsLead first lead)

include hk hkey hlead

/-- The value of a member with another name is passed over. -/
theorem members_unknown (hfind : (fields.find? fun f => f.name == name) = none)
    (hskip : ∀ fuel, s.length < fuel → skipValue fuel s = .ok r) (fuel : Nat) :
    members fields (fuel + 1) first seen b (lead ++ (key ++ ':' :: s)) =
      members fields fuel false seen b r := by
  obtain ⟨behind, hbehind, hname⟩ := nextName?_key hkey hlead
  have hvalue : skipValue ((behind ++ ':' :: s).length + 1) s = .ok r := by
    apply hskip
    simp only [List.length_append, List.length_cons]
    omega
  rw [members, hname]
  simp only [bind, Except.bind, readString_append hk, String.ofList_toList, hfind,
    colon_append hbehind, hvalue]

/-- The value of a member that was not there before changes the record. -/
theorem members_known {f : Member β} {change : β → β}
    (hfind : (fields.find? fun f => f.name == name) = some f) (hseen : name ∉ seen)
    (hread : f.read s = .ok (change, r)) (fuel : Nat) :
    members fields (fuel + 1) first seen b (lead ++ (key ++ ':' :: s)) =
      members fields fuel false (name :: seen) (change b) r := by
  obtain ⟨behind, hbehind, hname⟩ := nextName?_key hkey hlead
  rw [members, hname]
  simp [bind, Except.bind, readString_append hk, hfind, colon_append hbehind, hseen, hread]

end Names

/-- How a member is read into a record that has been read as far as the names `mix` is given. -/
structure IsRead (fields : List (Member β)) (mix : List String → β) (m : String × List Char) :
    Prop where
  unknown : m.1 ∉ fields.map Member.name → IsValue m.2
  known : ∀ f ∈ fields, f.name = m.1 → ∃ change, Reads f.read change m.2 ∧
    ∀ names, change (mix names) = mix (f.name :: names)

/-- The names that have been read, behind one more. -/
def nowSeen (fields : List (Member β)) (seen : List String) (name : String) : List String :=
  if name ∈ fields.map Member.name then name :: seen else seen

theorem members_cons {name : String} {v : List Char}
    (hm : IsMember (fun name k => Spells name.toList k) (name, v) t)
    (hread : IsRead fields mix (name, v)) (hseen : name ∈ fields.map Member.name → name ∉ seen)
    (hlead : IsLead first lead) : ∃ behind, AreBlank behind ∧ ∀ fuel rest, EndsValue rest →
      members fields (fuel + 1) first seen (mix seen) (lead ++ (t ++ rest)) =
        members fields fuel false (nowSeen fields seen name) (mix (nowSeen fields seen name))
          (behind ++ rest) := by
  obtain ⟨k, key, value, hk, hkey, hvalue, rfl⟩ := hm
  cases hfind : fields.find? fun f => f.name == name with
  | none =>
    have hunknown : name ∉ fields.map Member.name := by
      simpa using hfind
    obtain ⟨behind, hbehind, hskip⟩ := (hread.unknown hunknown).passes.padded hvalue
    refine ⟨behind, hbehind, ?_⟩
    intro fuel rest hrest
    rw [nowSeen, if_neg hunknown, List.append_assoc, List.cons_append]
    apply members_unknown hk hkey hlead hfind
    intro fuel hfuel
    apply hskip _ _ _ hrest
    rw [List.length_append] at hfuel
    omega
  | some f =>
    obtain rfl : f.name = name := by
      simpa using List.find?_some hfind
    have hf : f ∈ fields := List.mem_of_find?_eq_some hfind
    have hknown : f.name ∈ fields.map Member.name := List.mem_map_of_mem hf
    obtain ⟨change, hreads, hchange⟩ := hread.known f hf rfl
    obtain ⟨front, behind, hfront, hbehind, rfl⟩ := hvalue
    refine ⟨behind, hbehind, ?_⟩
    intro fuel rest hrest
    rw [nowSeen, if_pos hknown, ← hchange, List.append_assoc, List.cons_append]
    apply members_known hk hkey hlead hfind (hseen hknown)
    rw [List.append_assoc, List.append_assoc]
    exact hreads front (behind ++ rest) hfront

/-- A name that has been read is new if no later member has it. -/
theorem not_mem_nowSeen {name : String} {names : List String}
    (hnodup : ((name :: names).filter fun n => n ∈ fields.map Member.name).Nodup)
    (hseen : ∀ n ∈ name :: names, n ∈ fields.map Member.name → n ∉ seen) :
    ∀ n ∈ names, n ∈ fields.map Member.name → n ∉ nowSeen fields seen name := by
  intro n hn hknown
  have hold := hseen n (List.mem_cons_of_mem _ hn) hknown
  unfold nowSeen
  split
  · rename_i hname
    rw [List.filter_cons_of_pos (by simpa using hname)] at hnodup
    have hne : n ≠ name := by
      rintro rfl
      exact (List.nodup_cons.1 hnodup).1 (List.mem_filter.2 ⟨hn, by simpa using hknown⟩)
    simp [hne, hold]
  · exact hold

theorem mem_nowSeen {name n : String} :
    n ∈ nowSeen fields seen name ↔ n ∈ seen ∨ n ∈ fields.map Member.name ∧ n = name := by
  unfold nowSeen
  split
  · rename_i hname
    rw [List.mem_cons]
    constructor
    · rintro (rfl | hn)
      · exact .inr ⟨hname, rfl⟩
      · exact .inl hn
    · rintro (hn | ⟨-, rfl⟩)
      · exact .inr hn
      · exact .inl rfl
  · rename_i hname
    constructor
    · exact .inl
    · rintro (hn | ⟨hknown, rfl⟩)
      · exact hn
      · exact absurd hknown hname

theorem mem_foldl_nowSeen {names : List String} {n : String} :
    n ∈ names.foldl (nowSeen fields) seen ↔
      n ∈ seen ∨ n ∈ fields.map Member.name ∧ n ∈ names := by
  induction names generalizing seen with
  | nil => simp
  | cons name names ih =>
    rw [List.foldl_cons, ih, mem_nowSeen, List.mem_cons, or_assoc, ← and_or_left]

theorem members_separated {ms : List (String × List Char)}
    (h : AreSeparated (IsMember fun name k => Spells name.toList k) ms t)
    (hms : ∀ m ∈ ms, IsRead fields mix m)
    (hnodup : ((ms.map Prod.fst).filter fun n => n ∈ fields.map Member.name).Nodup)
    (hseen : ∀ n ∈ ms.map Prod.fst, n ∈ fields.map Member.name → n ∉ seen) (hne : ms ≠ [])
    (hlead : IsLead first lead) {fuel : Nat} (hfuel : ms.length < fuel) (rest : List Char) :
    ∃ behind, AreBlank behind ∧
      members fields fuel first seen (mix seen) (lead ++ (t ++ '\x7d' :: rest)) =
        .ok (mix ((ms.map Prod.fst).foldl (nowSeen fields) seen), behind ++ '\x7d' :: rest) := by
  induction h generalizing first lead fuel seen with
  | none => exact absurd rfl hne
  | @last m t hm =>
    have hread := hms m (List.mem_cons_self ..)
    have hnew := hseen m.1 (List.mem_cons_self ..)
    obtain ⟨behind, hbehind, hcons⟩ := members_cons hm hread hnew hlead
    obtain ⟨fuel, rfl⟩ : ∃ k, fuel = k + 1 + 1 := Nat.exists_eq_add_of_le' hfuel
    refine ⟨behind, hbehind, ?_⟩
    rw [hcons (fuel + 1) _ (endsValue_brace rest)]
    exact members_end hbehind fuel false _ _ rest
  | @cons m n ms t u hm _ ih =>
    obtain ⟨hread, hms⟩ := List.forall_mem_cons.1 hms
    have hnew := hseen m.1 (List.mem_cons_self ..)
    obtain ⟨b, hb, hcons⟩ := members_cons hm hread hnew hlead
    obtain ⟨fuel, rfl⟩ := Nat.exists_eq_add_one_of_ne_zero (Nat.ne_zero_of_lt hfuel)
    have hnodup' : (((n :: ms).map Prod.fst).filter fun n => n ∈ fields.map Member.name).Nodup :=
      hnodup.sublist ((List.sublist_cons_self ..).filter _)
    obtain ⟨behind, hbehind, hmore⟩ := ih hms hnodup' (not_mem_nowSeen hnodup hseen)
      (List.cons_ne_nil _ _) (isLead_next hb) (Nat.lt_of_succ_lt_succ hfuel)
    refine ⟨behind, hbehind, ?_⟩
    rw [List.append_assoc, List.cons_append, hcons fuel _ (endsValue_comma _)]
    rwa [List.append_assoc, List.singleton_append] at hmore

/-- A record is read as far as the names of its members are known. -/
theorem reads_record {ms : List (String × List Char)}
    (h : AreSeparated (IsMember fun name k => Spells name.toList k) ms t)
    (hms : ∀ m ∈ ms, IsRead fields mix m)
    (hnodup : ((ms.map Prod.fst).filter fun n => n ∈ fields.map Member.name).Nodup)
    (name : String) :
    Reads (record name fields (mix [])) (mix ((ms.map Prod.fst).foldl (nowSeen fields) []))
      ('\x7b' :: (t ++ ['\x7d'])) := by
  intro front rest hfront
  have hmembers : ∃ behind, AreBlank behind ∧
      members fields ((t ++ '\x7d' :: rest).length + 1) true [] (mix []) (t ++ '\x7d' :: rest) =
        .ok (mix ((ms.map Prod.fst).foldl (nowSeen fields) []), behind ++ '\x7d' :: rest) := by
    cases ms with
    | nil =>
      cases h with
      | none ht => exact ⟨t, ht, members_end ht _ true [] _ rest⟩
    | cons m ms =>
      have hfuel : (m :: ms).length < (t ++ '\x7d' :: rest).length + 1 := by
        have := h.length_le
        simp only [List.length_append, List.length_cons] at this ⊢
        omega
      exact members_separated h hms hnodup (by simp) (List.cons_ne_nil _ _) isLead_first hfuel rest
  obtain ⟨behind, hbehind, hmembers⟩ := hmembers
  have htext : front ++ ('\x7b' :: (t ++ ['\x7d']) ++ rest) =
      front ++ '\x7b' :: (t ++ '\x7d' :: rest) := by
    simp
  have hend : skipBlanks (behind ++ '\x7d' :: rest) = '\x7d' :: rest :=
    skipBlanks_append_cons hbehind rfl rest
  rw [htext, record, skipBlanks_append_cons hfront rfl]
  simp only [hmembers, bind, Except.bind, hend, List.drop_succ_cons, List.drop_zero]

variable (mix) in
/-- An object is read as the record that it spells, whatever the order of its members is and
whichever defaults it leaves out. -/
theorem reads_object {vs : List (String × Value)} {defaults : Option Value}
    (h : (Value.object vs).IsSpelled defaults t) (hnames : fields.map Member.name = vs.map Prod.fst)
    (hfields : ∀ f ∈ fields, ∀ v u, (f.name, v) ∈ vs →
      v.IsSpelled (defaults.bind (Value.member? f.name)) u →
        ∃ change, Reads f.read change u ∧ ∀ names, change (mix names) = mix (f.name :: names))
    (hmix : ∀ names, (∀ m ∈ vs, m.1 ∉ names → defaults.bind (Value.member? m.1) = some m.2) →
      mix names = b) (name : String) : Reads (record name fields (mix [])) b t := by
  rw [Value.IsSpelled] at h
  obtain ⟨ms, u, hms, rfl, hnodup, hunknown, hspelled⟩ := h
  have hspelled := membersSpelled_iff.1 hspelled
  rw [← hnames] at hnodup hunknown
  have hread : ∀ m ∈ ms, IsRead fields mix m := by
    intro m hm
    refine ⟨hunknown m hm, ?_⟩
    intro f hf hname
    obtain ⟨w, hw, hfw⟩ : ∃ w ∈ vs, w.1 = f.name := by
      have hmem := List.mem_map_of_mem (f := Member.name) hf
      rw [hnames] at hmem
      exact List.mem_map.1 hmem
    have hu := (hspelled w hw).1 m.2
    rw [hfw] at hu
    apply hfields f hf w.2 m.2
    · rw [← hfw]
      exact hw
    · apply hu
      rw [hname]
      exact hm
  have hall : mix ((ms.map Prod.fst).foldl (nowSeen fields) []) = b := by
    apply hmix
    intro w hw hunseen
    apply (hspelled w hw).2
    intro hmem
    apply hunseen
    apply mem_foldl_nowSeen.2
    rw [hnames]
    exact .inr ⟨List.mem_map_of_mem hw, hmem⟩
  have hreads := reads_record hms hread hnodup name
  rwa [hall] at hreads

end Records

end RasterFallback.Json
