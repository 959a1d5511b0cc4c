import Mathlib.Data.List.Induction
import RasterFallback.Proofs.Files.Folders

/-!
Where paths lead by their spelling. A dot stays, a step upwards takes the last name away, and
the root is above itself. There are no links in a tree, so a path that leads anywhere leads
to the place that it spells, and a path that is followed from a base goes on from there.
-/
namespace RasterFallback.Files

namespace Tree

/-- Where a name leads from a place. -/
def enter (p : Place) (name : String) : Place :=
  if name = "." then p else if name = ".." then p.dropLast else p ++ [name]

/-- Where names lead from a place, one after the other. -/
def enterAll (p : Place) (names : List String) : Place := names.foldl enter p

/-- The place that an absolute path spells. -/
def lexicalPlace (path : String) : Place := enterAll [] (steps path)

/-- One name more: a step upwards takes back the last name, or climbs where none is left. -/
def climbOn (c : Nat × List String) (name : String) : Nat × List String :=
  if name = "." then c
  else if name = ".." then (if c.2 = [] then (c.1 + 1, []) else (c.1, c.2.dropLast))
  else (c.1, c.2 ++ [name])

/-- How far names climb above the place where they start, and the names that lead on from there. -/
def climb (names : List String) : Nat × List String := names.foldl climbOn (0, [])

section Spelling

variable {t : Tree} {dir p : Place} {names : List String} {path base reference : String}

theorem enterAll_append (p : Place) (front back : List String) :
    enterAll p (front ++ back) = enterAll (enterAll p front) back := List.foldl_append

theorem enterAll_concat {name : String} (p : Place) (names : List String) (hdot : name ≠ ".")
    (hup : name ≠ "..") : enterAll p (names ++ [name]) = enterAll p names ++ [name] := by
  rw [enterAll_append]
  show enter (enterAll p names) name = _
  rw [enter, if_neg hdot, if_neg hup]

/-- Dots lead nowhere. -/
theorem enterAll_filter (p : Place) (names : List String) :
    enterAll p (names.filter (· ≠ ".")) = enterAll p names := by
  induction names generalizing p with
  | nil => rfl
  | cons name names ih =>
    by_cases hdot : name = "."
    · rw [List.filter_cons_of_neg (by simp [hdot]), ih]
      show _ = enterAll (enter p name) names
      rw [enter, if_pos hdot]
    · rw [List.filter_cons_of_pos (by simp [hdot])]
      exact ih (enter p name)

theorem enterAll_placeOf (path : String) : enterAll [] (placeOf path) = lexicalPlace path :=
  enterAll_filter [] (steps path)

/-- Without steps upwards a path spells the place of its names. -/
theorem IsDirect.lexicalPlace_eq (h : IsDirect path) : lexicalPlace path = placeOf path := by
  have hnames (p : Place) (names : List String) (hup : ".." ∉ names) :
      enterAll p names = p ++ names.filter (· ≠ ".") := by
    induction names generalizing p with
    | nil => exact (List.append_nil p).symm
    | cons name names ih =>
      obtain ⟨hname, hnames⟩ := List.ne_and_not_mem_of_not_mem_cons hup
      show enterAll (enter p name) names = _
      rw [ih _ hnames, enter, if_neg hname.symm]
      by_cases hdot : name = "."
      · simp [hdot]
      · simp [hdot]
  exact hnames [] (steps path) h.onward

theorem isDir_iff : t.IsDir p ↔ ∃ e, t.get? p = some e ∧ e.isDir = true := by
  constructor
  · rintro ⟨m, hm⟩
    exact ⟨_, hm, rfl⟩
  · rintro ⟨e, he, hdir⟩
    cases e with
    | dir m => exact ⟨m, he⟩
    | file content m => cases hdir
    | device d m => cases hdir

/-- A name that is not too long leads from a directory to where it is spelled to lead. -/
theorem follow_enter (h : t.IsDir dir) (name : String) (names : List String) :
    t.follow dir (name :: names) =
      if nameLimit < name.utf8ByteSize then .error .nameTooLong
      else t.follow (enter dir name) names := by
  obtain ⟨m, hm⟩ := h
  rw [follow, hm, enter]
  dsimp only
  split
  · rename_i hdot
    rw [hdot, if_neg (by decide)]
  · split
    · rename_i hup
      rw [hup, if_neg (by decide)]
    · rfl

/-- No name leads on from what is no directory. -/
theorem follow_file {e : Entry} (h : t.get? dir = some e) (hfile : e.isDir = false)
    (name : String) (names : List String) :
    t.follow dir (name :: names) = .error .notDirectory := by
  rw [follow, h]
  cases e with
  | dir m => cases hfile
  | file content m => rfl
  | device d m => rfl

theorem follow_eq_enterAll (h : t.follow dir names = .ok p) : p = enterAll dir names := by
  induction names generalizing dir with
  | nil => exact (Except.ok.inj h).symm
  | cons name names ih =>
    rw [follow_enter (isDir_of_follow h)] at h
    split at h
    · cases h
    · exact ih h

/-- Without their dots names lead to the same place. -/
theorem follow_filter (h : t.follow dir names = .ok p) :
    t.follow dir (names.filter (· ≠ ".")) = .ok p := by
  induction names generalizing dir with
  | nil => exact h
  | cons name names ih =>
    have hdir := isDir_of_follow h
    rw [follow_enter hdir] at h
    split at h
    · cases h
    · rename_i hshort
      have hrest := ih h
      by_cases hdot : name = "."
      · rw [enter, if_pos hdot] at hrest
        rwa [List.filter_cons_of_neg (by simp [hdot])]
      · rwa [List.filter_cons_of_pos (by simp [hdot]), follow_enter hdir, if_neg hshort]

/-- Where names are not found, they are not found without their dots, or they lead to a place
where nothing stands. -/
theorem missing_filter (h : t.follow dir names = .error .notFound) :
    t.follow dir (names.filter (· ≠ ".")) = .error .notFound ∨
      ∃ p, t.follow dir (names.filter (· ≠ ".")) = .ok p ∧ t.get? p = none := by
  induction names generalizing dir with
  | nil => cases h
  | cons name names ih =>
    cases hget : t.get? dir with
    | none =>
      cases hrest : (name :: names).filter (· ≠ ".") with
      | nil => exact .inr ⟨dir, rfl, hget⟩
      | cons first rest =>
        refine .inl ?_
        rw [follow, hget]
    | some e =>
      cases hkind : e.isDir with
      | false =>
        rw [follow_file hget hkind] at h
        cases h
      | true =>
        have hdir : t.IsDir dir := isDir_iff.2 ⟨e, hget, hkind⟩
        rw [follow_enter hdir] at h
        split at h
        · cases h
        · rename_i hshort
          have hrest := ih h
          by_cases hdot : name = "."
          · rw [enter, if_pos hdot] at hrest
            rwa [List.filter_cons_of_neg (by simp [hdot])]
          · rwa [List.filter_cons_of_pos (by simp [hdot]), follow_enter hdir, if_neg hshort]

theorem locate_eq_lexicalPlace (habs : isAbsolute path = true) (h : t.locate path = .ok p) :
    p = lexicalPlace path := by
  rw [locate_absolute habs] at h
  obtain ⟨-, -, h⟩ := bind_eq_ok.1 h
  rw [follow_eq_enterAll h, ← enterAll_filter, filter_walk, enterAll_placeOf]

theorem get?_of_stat (habs : isAbsolute path = true) {e : Entry} (h : t.stat path = .ok e) :
    t.get? (lexicalPlace path) = some e := by
  unfold stat at h
  obtain ⟨p, hlocate, h⟩ := bind_eq_ok.1 h
  rw [← locate_eq_lexicalPlace habs hlocate]
  cases hget : t.get? p with
  | none =>
    rw [hget] at h
    cases h
  | some e' =>
    rw [hget] at h
    exact congrArg some (Except.ok.inj h)

/-- A path that leads to an entry is found without its dots. -/
theorem follow_of_stat (habs : isAbsolute path = true) {e : Entry} (h : t.stat path = .ok e) :
    t.follow [] (placeOf path) = .ok (lexicalPlace path) := by
  unfold stat at h
  obtain ⟨p, hlocate, -⟩ := bind_eq_ok.1 h
  obtain rfl := locate_eq_lexicalPlace habs hlocate
  rw [locate_absolute habs] at hlocate
  obtain ⟨-, -, hfollow⟩ := bind_eq_ok.1 hlocate
  rw [← filter_walk]
  exact follow_filter hfollow

/-- A path that leads to no entry is not found, or its place is empty, without its dots. -/
theorem missing_of_stat (habs : isAbsolute path = true) (h : t.stat path = .error .notFound) :
    t.follow [] (placeOf path) = .error .notFound ∨ t.get? (lexicalPlace path) = none := by
  have hcheck := checkPath_of_notFound habs h
  rw [stat, locate_absolute habs, hcheck] at h
  cases hfollow : t.follow [] (walk path) with
  | ok p =>
    obtain rfl : p = lexicalPlace path := by
      rw [follow_eq_enterAll hfollow, ← enterAll_filter, filter_walk, enterAll_placeOf]
    cases hget : t.get? (lexicalPlace path) with
    | none => exact .inr rfl
    | some e => simp [hfollow, hget, bind, Except.bind] at h
  | error fault =>
    obtain rfl : fault = .notFound := by simpa [hfollow, bind, Except.bind] using h
    rw [← filter_walk]
    refine (missing_filter hfollow).imp_right ?_
    rintro ⟨p, hp, hnone⟩
    rwa [← enterAll_placeOf, ← filter_walk, ← follow_eq_enterAll hp]

theorem splitSlash_append_slash (s s' : List Char) :
    splitSlash (s ++ '/' :: s') = splitSlash s ++ splitSlash s' := by
  induction s with
  | nil => exact splitSlash_slash s'
  | cons c s ih =>
    rw [List.cons_append, splitSlash, splitSlash, ih]
    split
    · rfl
    · cases hs : splitSlash s with
      | nil => exact absurd hs (splitSlash_ne_nil s)
      | cons q qs => rfl

/-- Letters behind a text lengthen its last piece. -/
theorem splitSlash_append_letters (s : List Char) : ∃ front last, ∀ x : List Char, '/' ∉ x →
    splitSlash (s ++ x) = front ++ [last ++ x] := by
  induction s with
  | nil => exact ⟨[], [], fun x hx => splitSlash_of_not_mem hx⟩
  | cons c s ih =>
    obtain ⟨front, last, hs⟩ := ih
    by_cases hc : c = '/'
    · refine ⟨[] :: front, last, fun x hx => ?_⟩
      rw [List.cons_append, splitSlash, if_pos hc, hs x hx]
      rfl
    · cases front with
      | nil =>
        refine ⟨[], c :: last, fun x hx => ?_⟩
        rw [List.cons_append, splitSlash, if_neg hc, hs x hx]
        rfl
      | cons p front =>
        refine ⟨(c :: p) :: front, last, fun x hx => ?_⟩
        rw [List.cons_append, splitSlash, if_neg hc, hs x hx]
        rfl

/-- Letters behind a text lengthen its last step. -/
theorem steps_append_letters (s : List Char) : ∃ folders last, ∀ x : List Char, '/' ∉ x → x ≠ [] →
    steps (String.ofList (s ++ x)) = folders ++ [String.ofList (last ++ x)] := by
  obtain ⟨front, last, hs⟩ := splitSlash_append_letters s
  refine ⟨(front.filter fun p => !p.isEmpty).map String.ofList, last, fun x hx hne => ?_⟩
  simp [steps, hs x hx, hne]

theorem steps_ofList_append_slash (s s' : List Char) :
    steps (String.ofList (s ++ '/' :: s')) = steps (String.ofList s) ++ steps (String.ofList s') := by
  simp only [steps, String.toList_ofList, splitSlash_append_slash, List.filter_append,
    List.map_append]

theorem steps_append_slash (front back : String) :
    steps (front ++ "/" ++ back) = steps front ++ steps back := by
  have happend : front ++ "/" ++ back = String.ofList (front.toList ++ '/' :: back.toList) := by
    apply String.toList_injective
    simp
  rw [happend, steps_ofList_append_slash, String.ofList_toList, String.ofList_toList]

/-- The steps of a path that is followed from a base are those of the base and its own, but for
an absolute path. -/
theorem steps_join (base reference : String) : steps (join base reference) =
    (if isAbsolute reference then [] else steps base) ++ steps reference := by
  unfold join
  split
  · rfl
  · split
    · rename_i hbase
      rcases Bool.or_eq_true _ _ ▸ hbase with hempty | hslash
      · rw [String.isEmpty_iff.1 hempty, String.empty_append]
        rfl
      · obtain ⟨b, hb⟩ := List.getLast?_eq_some_iff.1 (beq_iff_eq.1 hslash)
        have hbase : base = String.ofList (b ++ '/' :: []) := by
          rw [← hb, String.ofList_toList]
        have hjoin : base ++ reference = String.ofList (b ++ '/' :: reference.toList) := by
          apply String.toList_injective
          simp [hb]
        rw [hjoin, hbase, steps_ofList_append_slash, steps_ofList_append_slash,
          String.ofList_toList]
        simp [show steps (String.ofList []) = [] from rfl]
    · exact steps_append_slash base reference

theorem lexicalPlace_join (base reference : String) : lexicalPlace (join base reference) =
    enterAll (if isAbsolute reference then [] else lexicalPlace base) (steps reference) := by
  rw [lexicalPlace, steps_join, enterAll_append]
  split <;> rfl

/-- Names take as many names off a place as they climb, and go on from there. -/
theorem enterAll_eq_climb (p : Place) (names : List String) :
    enterAll p names = p.take (p.length - (climb names).1) ++ (climb names).2 := by
  induction names using List.reverseRecOn with
  | nil => simp [enterAll, climb]
  | append_singleton names name ih =>
    have hclimb : climb (names ++ [name]) = climbOn (climb names) name := List.foldl_append
    have henter : enterAll p (names ++ [name]) = enter (enterAll p names) name :=
      enterAll_append p names [name]
    rw [henter, hclimb, ih, enter, climbOn]
    split
    · rfl
    · split
      · split
        · rename_i hnil
          rw [hnil, List.append_nil, List.append_nil, List.dropLast_eq_take, List.take_take,
            List.length_take]
          congr 1
          omega
        · rename_i hnil
          rw [List.dropLast_append_of_ne_nil hnil]
      · rw [List.append_assoc]

end Spelling

/-- The entry at a place is as it was, or it is a directory that was made or touched. -/
def Stays (t t' : Tree) (p : Place) : Prop :=
  t'.get? p = t.get? p ∨ t'.IsDir p ∧ (t.get? p = none ∨ t.IsDir p)

/-- Nothing vanishes, and what is no directory does not become one. -/
def Stands (t t' : Tree) : Prop :=
  ∀ p e, t.get? p = some e → ∃ e', t'.get? p = some e' ∧ (e.isDir = false → e'.isDir = false)

/-- From `t` to `t'` nothing changes but for directories that are made or touched. -/
structure Enlarges (t t' : Tree) : Prop where
  home : t'.home = t.home
  stays : ∀ p, t.Stays t' p

section Stays

variable {t t' t'' : Tree} {p dir : Place} {path : String} {names : List String} {e : Entry}

theorem Stays.refl (t : Tree) (p : Place) : t.Stays t p := .inl rfl

theorem Stays.trans (h : t.Stays t' p) (h' : t'.Stays t'' p) : t.Stays t'' p := by
  rcases h' with hsame | ⟨hnew, hold⟩
  · rcases h with hfirst | ⟨hdir, hbefore⟩
    · exact .inl (hsame.trans hfirst)
    · exact .inr ⟨(isDir_of_eq hsame).2 hdir, hbefore⟩
  · refine .inr ⟨hnew, ?_⟩
    rcases h with hfirst | ⟨-, hbefore⟩
    · rwa [hfirst, isDir_of_eq hfirst] at hold
    · exact hbefore

/-- What is no directory is the same before and after. -/
theorem Stays.get?_iff (h : t.Stays t' p) (hfile : e.isDir = false) :
    t'.get? p = some e ↔ t.get? p = some e := by
  rcases h with hsame | ⟨⟨m, hm⟩, hold⟩
  · rw [hsame]
  · constructor
    · intro hget
      rw [hm] at hget
      obtain rfl := Option.some.inj hget
      cases hfile
    · intro hget
      rcases hold with hnone | ⟨m', hm'⟩
      · rw [hnone] at hget
        cases hget
      · rw [hm'] at hget
        obtain rfl := Option.some.inj hget
        cases hfile

theorem Stays.stands (h : t.Stays t' p) (he : t.get? p = some e) :
    ∃ e', t'.get? p = some e' ∧ (e.isDir = false → e'.isDir = false) := by
  rcases h with hsame | ⟨⟨m, hm⟩, hnone | ⟨m', hm'⟩⟩
  · exact ⟨e, hsame.trans he, id⟩
  · rw [hnone] at he
    cases he
  · rw [hm'] at he
    obtain rfl := Option.some.inj he
    exact ⟨.dir m, hm, nofun⟩

/-- Names lead on where every directory is one still. -/
theorem follow_of_dirs (hdirs : ∀ q, t.IsDir q → t'.IsDir q) (h : t.follow dir names = .ok p) :
    t'.follow dir names = .ok p := by
  induction names generalizing dir with
  | nil => exact h
  | cons name names ih =>
    have hdir := isDir_of_follow h
    rw [follow_enter hdir] at h
    rw [follow_enter (hdirs dir hdir)]
    split at h
    · cases h
    · rename_i hshort
      rw [if_neg hshort]
      exact ih h

theorem stat_of_dirs (habs : isAbsolute path = true) (hdirs : ∀ q, t.IsDir q → t'.IsDir q)
    {e' : Entry} (h : t.stat path = .ok e) (hget : t'.get? (lexicalPlace path) = some e') :
    t'.stat path = .ok e' := by
  unfold stat at h ⊢
  obtain ⟨p, hlocate, -⟩ := bind_eq_ok.1 h
  refine bind_eq_ok.2 ⟨p, ?_, ?_⟩
  · rw [locate_absolute habs] at hlocate ⊢
    obtain ⟨u, hcheck, hfollow⟩ := bind_eq_ok.1 hlocate
    exact bind_eq_ok.2 ⟨u, hcheck, follow_of_dirs hdirs hfollow⟩
  · rw [locate_eq_lexicalPlace habs hlocate, hget]

/-- Names lead where they led, or to what is no directory any more, but not to nothing. -/
theorem Stands.follow (h : t.Stands t') (hfound : t.follow dir names ≠ .error .notFound) :
    t'.follow dir names = t.follow dir names ∨ t'.follow dir names = .error .notDirectory := by
  induction names generalizing dir with
  | nil => exact .inl rfl
  | cons name names ih =>
    cases hat : t.get? dir with
    | none =>
      rw [Tree.follow, hat] at hfound
      exact absurd rfl hfound
    | some e =>
      obtain ⟨e', he', hfile⟩ := h dir e hat
      cases hdir' : e'.isDir with
      | false => exact .inr (follow_file he' hdir' name names)
      | true =>
        have hdir : e.isDir = true := by
          cases hdir : e.isDir with
          | true => rfl
          | false => exact absurd hdir' (by simp [hfile hdir])
        rw [follow_enter (isDir_iff.2 ⟨e, hat, hdir⟩)] at hfound ⊢
        rw [follow_enter (isDir_iff.2 ⟨e', he', hdir'⟩)]
        split
        · exact .inl rfl
        · rename_i hshort
          rw [if_neg hshort] at hfound
          exact ih hfound

theorem Enlarges.refl (t : Tree) : t.Enlarges t := ⟨rfl, .refl t⟩

theorem Enlarges.trans (h : t.Enlarges t') (h' : t'.Enlarges t'') : t.Enlarges t'' :=
  ⟨h'.home.trans h.home, fun p => (h.stays p).trans (h'.stays p)⟩

theorem isDir_of_slot {name : String} (h : t.slot path = .ok (dir, some name)) : t.IsDir dir := by
  unfold slot at h
  obtain ⟨-, -, h⟩ := bind_eq_ok.1 h
  split at h
  · cases h
  · obtain ⟨start, -, h⟩ := bind_eq_ok.1 h
    obtain ⟨above, -, h⟩ := bind_eq_ok.1 h
    split at h
    · cases h
    · rename_i m hm
      split at h
      · cases h
      · split at h
        · cases h
        · obtain ⟨rfl, -⟩ := Prod.mk.inj (Except.ok.inj h)
          exact ⟨m, hm⟩
    · cases h

theorem enlarges_mkdir (h : t.mkdir path = .ok t') : t.Enlarges t' := by
  unfold mkdir at h
  obtain ⟨⟨dir, name?⟩, hslot, h⟩ := bind_eq_ok.1 h
  cases name? with
  | none => cases h
  | some name =>
    have hdir := isDir_of_slot hslot
    dsimp only at h
    split at h
    · cases h
    · rename_i hnone
      obtain rfl := Except.ok.inj h
      refine ⟨home_add hdir, fun q => ?_⟩
      unfold Stays IsDir
      rw [get?_add hdir]
      split
      · rename_i hq
        rw [hq]
        exact .inr ⟨⟨t.clock, rfl⟩, .inl (Option.not_isSome_iff_eq_none.1 hnone)⟩
      · split
        · rename_i hq
          rw [hq]
          exact .inr ⟨⟨t.clock, rfl⟩, .inr hdir⟩
        · exact .inl rfl

theorem enlarges_mkdirOrKeep (t : Tree) (path : String) : t.Enlarges (t.mkdirOrKeep path).2 := by
  unfold mkdirOrKeep
  split
  · rename_i made hmade
    exact enlarges_mkdir hmade
  · split
    · exact .refl t
    · exact .refl t

theorem enlarges_mkdirs (fuel : Nat) (t : Tree) (path : String) :
    t.Enlarges (mkdirs fuel t path).2 := by
  induction fuel generalizing path t with
  | zero => exact .refl t
  | succ fuel ih =>
    rw [mkdirs]
    split
    · exact .refl t
    · split
      · rename_i made hmade
        exact enlarges_mkdir hmade
      · split
        · exact .refl t
        · rename_i up _
          have habove := ih t up
          split
          · rename_i above hmade
            rw [hmade] at habove
            exact habove.trans (enlarges_mkdirOrKeep above path)
          · exact habove
      · exact enlarges_mkdirOrKeep t path

/-- Making directories changes no file, wherever the path leads. -/
theorem enlarges_createDirAll (t : Tree) (path : String) :
    t.Enlarges (t.createDirAll path).2 := enlarges_mkdirs _ t path

end Stays

end Tree

end RasterFallback.Files
