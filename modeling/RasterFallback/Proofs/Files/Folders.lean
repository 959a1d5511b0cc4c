import RasterFallback.Proofs.Except
import RasterFallback.Proofs.Files.Walk

/-!
What making directories changes. A path is made directory by directory, from the first that
is missing; entries that are there stay, and all that is new or touched is a directory on
the way of the path.
-/
namespace RasterFallback.Files

/-- Void pieces are no names: they are empty, or a dot. -/
def isVoid (p : List Char) : Bool := p.isEmpty || p == ['.']

section Spelling

variable {ps : List (List Char)} {s : List Char} {path up : String}

theorem dropVoid_absolute (ps : List (List Char)) : dropVoid true ps = ps.dropWhile isVoid := by
  induction ps with
  | nil => rfl
  | cons p ps ih =>
    rw [dropVoid, List.dropWhile_cons, ih]
    simp [isVoid]

theorem filter_dropWhile_isVoid (ps : List (List Char)) :
    (ps.dropWhile isVoid).filter (!isVoid ·) = ps.filter (!isVoid ·) := by
  induction ps with
  | nil => rfl
  | cons p ps ih =>
    rw [List.dropWhile_cons]
    split
    · rename_i hvoid
      rw [ih, List.filter_cons_of_neg (by simp [hvoid])]
    · rfl

theorem splitSlash_slash (s : List Char) : splitSlash ('/' :: s) = [] :: splitSlash s := by
  rw [splitSlash]
  simp

theorem splitSlash_append {p : List Char} (hp : '/' ∉ p) (s : List Char) :
    splitSlash (p ++ '/' :: s) = p :: splitSlash s := by
  induction p with
  | nil => exact splitSlash_slash s
  | cons c p ih =>
    obtain ⟨hc, hp⟩ := List.ne_and_not_mem_of_not_mem_cons hp
    rw [List.cons_append, splitSlash, if_neg hc.symm, ih hp]

theorem splitSlash_of_not_mem {p : List Char} (hp : '/' ∉ p) : splitSlash p = [p] := by
  induction p with
  | nil => rfl
  | cons c p ih =>
    obtain ⟨hc, hp⟩ := List.ne_and_not_mem_of_not_mem_cons hp
    rw [splitSlash, if_neg hc.symm, ih hp]

theorem not_mem_of_mem_splitSlash {p : List Char} (hp : p ∈ splitSlash s) : '/' ∉ p := by
  induction s generalizing p with
  | nil =>
    rw [List.mem_singleton.1 hp]
    exact List.not_mem_nil
  | cons c s ih =>
    rw [splitSlash] at hp
    split at hp
    · rcases List.mem_cons.1 hp with rfl | hp
      · exact List.not_mem_nil
      · exact ih hp
    · rename_i hc
      cases hs : splitSlash s with
      | nil => exact absurd hs (splitSlash_ne_nil s)
      | cons q qs =>
        rw [hs] at hp ih
        rcases List.mem_cons.1 hp with rfl | hp
        · have hq : '/' ∉ q := ih (List.mem_cons_self ..)
          exact fun hmem => (List.mem_cons.1 hmem).elim (fun h => hc h.symm) hq
        · exact ih (List.mem_cons_of_mem _ hp)

/-- Pieces without slashes are got back from their joint spelling. -/
theorem splitSlash_joinSlash (hne : ps ≠ []) (hps : ∀ p ∈ ps, '/' ∉ p) :
    splitSlash (joinSlash ps) = ps := by
  induction ps with
  | nil => exact absurd rfl hne
  | cons p ps ih =>
    have hp := hps p (List.mem_cons_self ..)
    cases ps with
    | nil => exact splitSlash_of_not_mem hp
    | cons q qs =>
      have hrest : ∀ r ∈ q :: qs, '/' ∉ r := fun r hr => hps r (List.mem_cons_of_mem _ hr)
      have hjoin : joinSlash (p :: q :: qs) = p ++ '/' :: joinSlash (q :: qs) := rfl
      rw [hjoin, splitSlash_append hp, ih (List.cons_ne_nil q qs) hrest]

namespace Tree

theorem isAbsolute_ofList (s : List Char) : isAbsolute (String.ofList ('/' :: s)) = true := by
  simp [isAbsolute]

theorem steps_absolute (s : List Char) :
    steps (String.ofList ('/' :: s)) =
      ((splitSlash s).filter fun p => !p.isEmpty).map String.ofList := by
  rw [steps, String.toList_ofList, splitSlash_slash]
  rfl

theorem placeOf_absolute (s : List Char) :
    placeOf (String.ofList ('/' :: s)) = ((splitSlash s).filter (!isVoid ·)).map String.ofList := by
  have hdot (p : List Char) : String.ofList p = "." ↔ p = ['.'] :=
    ⟨fun h => String.ofList_injective h, fun h => h ▸ rfl⟩
  rw [placeOf, steps_absolute, List.filter_map, List.filter_filter]
  congr 2
  funext p
  have hname : decide (String.ofList p ≠ ".") = !(p == ['.']) := by
    rw [Bool.eq_iff_iff]
    simp [hdot]
  show (decide (String.ofList p ≠ ".") && !p.isEmpty) = !isVoid p
  rw [hname, isVoid, Bool.not_or, Bool.and_comm]

theorem exists_of_isAbsolute (h : isAbsolute path = true) : ∃ s, path = String.ofList ('/' :: s) := by
  unfold isAbsolute at h
  cases htext : path.toList with
  | nil =>
    rw [htext] at h
    cases h
  | cons c s =>
    rw [htext] at h
    obtain rfl : c = '/' := by simpa using h
    exact ⟨s, by rw [← htext, String.ofList_toList]⟩

theorem pieces_absolute (s : List Char) : pieces (String.ofList ('/' :: s)) = splitSlash s := by
  rw [pieces, if_pos (isAbsolute_ofList s)]
  simp

/-- The names of an absolute path are those on its way, but for dots. -/
theorem names_eq_placeOf (h : isAbsolute path = true) : names path = placeOf path := by
  obtain ⟨s, rfl⟩ := exists_of_isAbsolute h
  rw [placeOf_absolute, names, pieces_absolute]
  cases splitSlash s with
  | nil => rfl
  | cons p ps =>
    have hrest : (ps.filter fun q => !(q.isEmpty || q == ['.'])) = ps.filter (!isVoid ·) := rfl
    dsimp only
    rw [h, Bool.and_true, hrest, List.filter_cons]
    cases hvoid : isVoid p with
    | true =>
      rw [isVoid] at hvoid
      rw [if_pos hvoid]
      rfl
    | false =>
      rw [isVoid] at hvoid
      rw [if_neg (Bool.eq_false_iff.1 hvoid)]
      rfl

theorem isAbsolute_append {s : String} (h : isAbsolute s = true) (s' : String) :
    isAbsolute (s ++ s') = true := by
  unfold isAbsolute at h ⊢
  rw [String.toList_append]
  cases hs : s.toList with
  | nil => rw [hs] at h; cases h
  | cons c cs => rw [hs] at h; exact h

theorem isAbsolute_join {base : String} (h : isAbsolute base = true) (path : String) :
    isAbsolute (join base path) = true := by
  unfold join
  split
  · assumption
  · split
    · exact isAbsolute_append h path
    · exact isAbsolute_append (isAbsolute_append h "/") path

/-- The path of the working directory. That of the root stands in for it where it was removed. -/
def homePath (t : Tree) : String := pathOf (t.home.getD [])

/-- A path that is followed from the home of a tree starts at the root. -/
theorem isAbsolute_resolve (t : Tree) (base reference : String) :
    isAbsolute (resolve t.homePath base reference) = true := by
  have hhome : isAbsolute t.homePath = true := isAbsolute_ofList _
  refine isAbsolute_join ?_ reference
  split
  · assumption
  · exact isAbsolute_join hhome base

/-- The path above a direct path is direct, and leads to the place above. -/
theorem IsDirect.parent (h : IsDirect path) (hup : parent? path = some up) :
    IsDirect up ∧ ∃ name, placeOf path = placeOf up ++ [name] := by
  obtain ⟨s, rfl⟩ := exists_of_isAbsolute h.absolute
  have habs : isAbsolute (String.ofList ('/' :: s)) = true := h.absolute
  have hpieces := pieces_absolute s
  unfold parent? at hup
  simp only [habs, hpieces, dropVoid_absolute, if_true] at hup
  split at hup
  · cases hup
  · rename_i p rest hrest
    obtain rfl := Option.some.inj hup
    -- `kept` are the pieces above, as they stand in the path.
    let kept := (rest.dropWhile isVoid).reverse
    have hkept : ∀ q ∈ kept, q ∈ splitSlash s := by
      intro q hq
      have hq : q ∈ rest := (List.dropWhile_sublist _).subset (List.mem_reverse.1 hq)
      have hq : q ∈ (splitSlash s).reverse.dropWhile isVoid := by
        rw [hrest]
        exact List.mem_cons_of_mem _ hq
      exact List.mem_reverse.1 ((List.dropWhile_sublist _).subset hq)
    have hfilter (f : List Char → Bool) (hf : f [] = false) :
        (splitSlash (joinSlash kept)).filter f = kept.filter f := by
      by_cases hnil : kept = []
      · rw [hnil]
        simp [joinSlash, splitSlash, hf]
      · rw [splitSlash_joinSlash hnil fun q hq => not_mem_of_mem_splitSlash (hkept q hq)]
    refine ⟨⟨isAbsolute_ofList _, ?_⟩, String.ofList p, ?_⟩
    · intro hmem
      rw [steps_absolute, hfilter _ rfl] at hmem
      refine h.onward ?_
      rw [steps_absolute]
      obtain ⟨q, hq, hname⟩ := List.mem_map.1 hmem
      obtain ⟨hq, hnonempty⟩ := List.mem_filter.1 hq
      exact List.mem_map.2 ⟨q, List.mem_filter.2 ⟨hkept q hq, hnonempty⟩, hname⟩
    · have hp : isVoid p = false := by
        have hhead := List.head?_dropWhile_not isVoid (splitSlash s).reverse
        rw [hrest] at hhead
        simpa using hhead
      have hnames : (splitSlash s).filter (!isVoid ·) = kept.filter (!isVoid ·) ++ [p] := by
        have hreverse : (splitSlash s).reverse.filter (!isVoid ·) = p :: rest.filter (!isVoid ·) := by
          rw [← filter_dropWhile_isVoid, hrest, List.filter_cons_of_pos (by simp [hp])]
        rw [List.filter_reverse, ← filter_dropWhile_isVoid rest] at hreverse
        have := congrArg List.reverse hreverse
        rw [List.reverse_reverse, List.reverse_cons, ← List.filter_reverse] at this
        exact this
      rw [placeOf_absolute, placeOf_absolute, hfilter _ rfl, hnames, List.map_append,
        List.map_singleton]

end Tree

end Spelling

namespace Tree

/-- The working directory is the same, unless it was removed. -/
def KeepsHome (t t' : Tree) : Prop := t'.home = t.home ∨ t'.home = none

theorem KeepsHome.refl (t : Tree) : t.KeepsHome t := .inl rfl

theorem KeepsHome.trans {t t' t'' : Tree} (h : t.KeepsHome t') (h' : t'.KeepsHome t'') :
    t.KeepsHome t'' := by
  rcases h' with hsame | hgone
  · rwa [KeepsHome, hsame]
  · exact .inr hgone

/-- From `t` to `t'` directories on the way to `p` are made or touched, and nothing else changes. -/
structure Grows (p : Place) (t t' : Tree) : Prop where
  home : t'.home = t.home
  clock : t'.clock = t.clock
  places : ∀ q, t'.get? q = t.get? q ∨
    q <+: p ∧ (t.get? q = none ∨ t.IsDir q) ∧ t'.get? q = some (.dir t.clock)
  wellFormed : t.WellFormed → t'.WellFormed

namespace Grows

variable {p up : Place} {t t' t'' : Tree}

theorem refl (p : Place) (t : Tree) : Grows p t t :=
  ⟨rfl, rfl, fun _ => .inl rfl, id⟩

theorem mono (h : Grows up t t') (hup : up <+: p) : Grows p t t' := by
  refine ⟨h.home, h.clock, fun q => ?_, h.wellFormed⟩
  rcases h.places q with hsame | ⟨hq, hold, hnew⟩
  · exact .inl hsame
  · exact .inr ⟨hq.trans hup, hold, hnew⟩

theorem trans (h : Grows p t t') (h' : Grows p t' t'') : Grows p t t'' := by
  refine ⟨h'.home.trans h.home, h'.clock.trans h.clock, fun q => ?_,
    fun hwf => h'.wellFormed (h.wellFormed hwf)⟩
  rcases h.places q with hsame | ⟨hq, hold, hnew⟩
  · have hdir := isDir_of_eq hsame
    rcases h'.places q with hsame' | ⟨hq, hold, hnew⟩
    · exact .inl (hsame'.trans hsame)
    · rw [hsame, hdir] at hold
      rw [h.clock] at hnew
      exact .inr ⟨hq, hold, hnew⟩
  · refine .inr ⟨hq, hold, ?_⟩
    rcases h'.places q with hsame' | ⟨-, -, hnew'⟩
    · exact hsame'.trans hnew
    · rw [hnew', h.clock]

end Grows

variable {t t' : Tree} {path : String}

theorem get?_set (t : Tree) {p : Place} (hp : p ≠ []) (e : Entry) (q : Place) :
    (t.set p e).get? q = if q = p then some e else t.get? q := by
  split
  · rename_i hq
    rw [hq, get?_set_self t hp]
  · rename_i hq
    exact get?_set_ne t hq e

/-- A tree stays well formed where an entry is exchanged, if a directory stays one. -/
theorem WellFormed.set (hwf : t.WellFormed) {p : Place} {old e : Entry} (hp : p ≠ [])
    (hold : t.get? p = some old) (hdir : old.isDir = true → e.isDir = true) :
    (t.set p e).WellFormed := by
  intro q hsome up hup hne
  have hthere : (t.get? q).isSome := by
    rw [get?_set t hp] at hsome
    split at hsome
    · rename_i hq
      rw [hq, hold]
      rfl
    · exact hsome
  obtain ⟨m, hm⟩ := hwf q hthere up hup hne
  unfold IsDir
  rw [get?_set t hp]
  split
  · rename_i heq
    rw [heq, hold] at hm
    obtain rfl := Option.some.inj hm
    cases e with
    | dir m' => exact ⟨m', rfl⟩
    | file content m' => cases hdir rfl
    | device d m' => cases hdir rfl
  · exact ⟨m, hm⟩

section Add

variable {dir : Place} {name : String} {e : Entry}

theorem add_eq (hdir : t.IsDir dir) (name : String) (e : Entry) :
    t.add dir name e = if dir = [] then t.set (dir ++ [name]) e
      else (t.set (dir ++ [name]) e).set dir (.dir t.clock) := by
  obtain ⟨m, hm⟩ := hdir
  have hne : dir ≠ dir ++ [name] := fun h => by simpa using congrArg List.length h
  have hkept : (t.set (dir ++ [name]) e).get? dir = some (.dir m) := by
    rw [get?_set_ne t hne, hm]
  unfold add
  simp only [hkept]
  rfl

/-- A new entry touches the directory it stands in, and nothing else. -/
theorem get?_add (hdir : t.IsDir dir) (name : String) (e : Entry) (q : Place) :
    (t.add dir name e).get? q = if q = dir ++ [name] then some e
      else if q = dir then some (.dir t.clock) else t.get? q := by
  have hp : dir ++ [name] ≠ [] := by simp
  have hne : dir ++ [name] ≠ dir := fun h => by simpa using congrArg List.length h
  rw [add_eq hdir]
  by_cases hroot : dir = []
  · rw [if_pos hroot, get?_set t hp]
    split
    · rfl
    · split
      · rename_i hq
        rw [hq, hroot]
        rfl
      · rfl
  · rw [if_neg hroot, get?_set _ hroot, get?_set t hp]
    by_cases hq : q = dir
    · rw [if_pos hq, if_neg (hq ▸ hne.symm), if_pos hq]
    · rw [if_neg hq, if_neg hq]

theorem home_add (hdir : t.IsDir dir) : (t.add dir name e).home = t.home := by
  rw [add_eq hdir]
  split <;> rfl

theorem clock_add (hdir : t.IsDir dir) : (t.add dir name e).clock = t.clock := by
  rw [add_eq hdir]
  split <;> rfl

theorem WellFormed.add (hwf : t.WellFormed) (hdir : t.IsDir dir) (name : String) (e : Entry)
    (hnone : t.get? (dir ++ [name]) = none) : (t.add dir name e).WellFormed := by
  have hkept : ∀ q, t.IsDir q → (t.add dir name e).IsDir q := by
    rintro q ⟨m, hm⟩
    unfold IsDir
    rw [get?_add hdir]
    split
    · rename_i hq
      rw [hq, hnone] at hm
      cases hm
    · split
      · exact ⟨_, rfl⟩
      · exact ⟨m, hm⟩
  have hway : ∀ q, q <+: dir → t.IsDir q := by
    intro q hq
    by_cases heq : q = dir
    · exact heq ▸ hdir
    · obtain ⟨m, hm⟩ := hdir
      exact hwf.isDir_of_prefix hm hq heq
  intro q hsome up hup hne
  rw [get?_add hdir] at hsome
  split at hsome
  · rename_i hq
    rw [hq] at hup hne
    exact hkept up (hway up ((List.prefix_concat_iff.1 hup).resolve_left hne))
  · split at hsome
    · rename_i hq
      exact hkept up (hway up (hq ▸ hup))
    · exact hkept up (hwf q hsome up hup hne)

theorem grows_add (hdir : t.IsDir dir) (hnone : t.get? (dir ++ [name]) = none) :
    Grows (dir ++ [name]) t (t.add dir name (.dir t.clock)) := by
  refine ⟨home_add hdir, clock_add hdir, fun q => ?_, fun hwf => hwf.add hdir name _ hnone⟩
  rw [get?_add hdir]
  by_cases hq : q = dir ++ [name]
  · subst hq
    exact .inr ⟨List.prefix_rfl, .inl hnone, if_pos rfl⟩
  · by_cases hq' : q = dir
    · subst hq'
      exact .inr ⟨List.prefix_append .., .inr hdir, by rw [if_neg hq, if_pos rfl]⟩
    · exact .inl (by rw [if_neg hq, if_neg hq'])

end Add

/-- A slot is a name in a directory, and the place of its path. -/
theorem IsDirect.slot_eq_ok (h : IsDirect path) {dir : Place} {name : String}
    (hslot : t.slot path = .ok (dir, some name)) :
    t.IsDir dir ∧ placeOf path = dir ++ [name] ∧ checkPath path = .ok () ∧
      t.follow [] (steps path) = .ok (dir ++ [name]) := by
  unfold slot at hslot
  rw [origin_absolute h.absolute] at hslot
  obtain ⟨_, hcheck, hslot⟩ := bind_eq_ok.1 hslot
  split at hslot
  · cases hslot
  · rename_i last hlast
    obtain ⟨front, hsteps⟩ := List.getLast?_eq_some_iff.1 hlast
    have hup : ".." ∉ front := fun hmem => h.onward (hsteps ▸ List.mem_append_left _ hmem)
    rw [hsteps, List.dropLast_concat] at hslot
    obtain ⟨start, hstart, hslot⟩ := bind_eq_ok.1 hslot
    obtain rfl := Except.ok.inj hstart
    obtain ⟨above, hfollow, hslot⟩ := bind_eq_ok.1 hslot
    have hat := follow_eq hup hfollow
    split at hslot
    · cases hslot
    · rename_i m hm
      split at hslot
      · cases hslot
      · rename_i hdots
        obtain ⟨hdot, hdots⟩ : last ≠ "." ∧ last ≠ ".." := by simpa using hdots
        split at hslot
        · cases hslot
        · rename_i hshort
          obtain ⟨rfl, rfl⟩ : above = dir ∧ last = name := by simpa using hslot
          have hdir : t.IsDir above := ⟨m, hm⟩
          refine ⟨hdir, ?_, hcheck, ?_⟩
          · rw [placeOf, hsteps, List.filter_append, hat]
            simp [hdot]
          · rw [hsteps, follow_append, hfollow]
            show t.follow above [last] = .ok (above ++ [last])
            rw [follow_of_isDir hdir hdots, if_neg hdot, if_neg hshort]
            rfl
    · cases hslot

theorem IsDirect.grows_mkdir (h : IsDirect path) (hmade : t.mkdir path = .ok t') :
    Grows (placeOf path) t t' := by
  unfold mkdir at hmade
  obtain ⟨⟨dir, name?⟩, hslot, hmade⟩ := bind_eq_ok.1 hmade
  cases name? with
  | none => cases hmade
  | some name =>
    obtain ⟨hdir, hplace, -⟩ := h.slot_eq_ok hslot
    dsimp only at hmade
    split at hmade
    · cases hmade
    · rename_i hnone
      obtain rfl := Except.ok.inj hmade
      rw [hplace]
      exact grows_add hdir (Option.not_isSome_iff_eq_none.1 hnone)

theorem IsDirect.grows_mkdirOrKeep (h : IsDirect path) (t : Tree) :
    Grows (placeOf path) t (t.mkdirOrKeep path).2 := by
  unfold mkdirOrKeep
  split
  · rename_i made hmade
    exact h.grows_mkdir hmade
  · split
    · exact .refl ..
    · exact .refl ..

theorem IsDirect.grows_mkdirs (h : IsDirect path) (fuel : Nat) (t : Tree) :
    Grows (placeOf path) t (mkdirs fuel t path).2 := by
  induction fuel generalizing path t with
  | zero => exact .refl ..
  | succ fuel ih =>
    rw [mkdirs]
    split
    · exact .refl ..
    · split
      · rename_i made hmade
        exact h.grows_mkdir hmade
      · split
        · exact .refl ..
        · rename_i up hup
          obtain ⟨hdirect, name, hplace⟩ := h.parent hup
          have habove : Grows (placeOf path) t (mkdirs fuel t up).2 :=
            (ih hdirect t).mono (hplace ▸ List.prefix_append ..)
          split
          · rename_i above hmade
            rw [hmade] at habove
            exact habove.trans (h.grows_mkdirOrKeep above)
          · exact habove
      · exact h.grows_mkdirOrKeep t

theorem IsDirect.grows_createDirAll (h : IsDirect path) (t : Tree) :
    Grows (placeOf path) t (t.createDirAll path).2 := h.grows_mkdirs _ t

end Tree

end RasterFallback.Files
