import RasterFallback.Conversion.Freshness

/-!
Where absolute paths lead. A path without steps upwards leads to the place of its names,
through directories only; so what it leads to changes only where an entry on the way
or at the place itself does.
-/
namespace RasterFallback.Files
open RasterFallback.Text

namespace Tree

/-- The place of the names of an absolute path that takes no steps upwards. -/
def placeOf (path : String) : Place := (steps path).filter (· ≠ ".")

/-- The names that a path leads through; behind a slash at the end a directory must stand. -/
def walk (path : String) : List String := steps path ++ if endsInSlash path then ["."] else []

/-- A slash or a dot stands at the end of the path, which then leads to directories only. -/
def AsksForDir (path : String) : Prop := (walk path).getLast? = some "."

instance (path : String) : Decidable (AsksForDir path) :=
  inferInstanceAs (Decidable ((walk path).getLast? = some "."))

/-- The path starts at the root and takes no steps upwards. -/
structure IsDirect (path : String) : Prop where
  absolute : isAbsolute path = true
  onward : ".." ∉ steps path

/-- A directory stands at the place. -/
def IsDir (t : Tree) (p : Place) : Prop := ∃ m, t.get? p = some (.dir m)

/-- Every entry stands in a directory, and so do all directories above it. -/
def WellFormed (t : Tree) : Prop :=
  ∀ p, (t.get? p).isSome → ∀ q, q <+: p → q ≠ p → t.IsDir q

/-- Nothing stands at the place, and nothing but directories on the way to it. -/
structure Vacant (t : Tree) (p : Place) : Prop where
  nothing : t.get? p = none
  way : ∀ q, q <+: p → t.get? q = none ∨ t.IsDir q

theorem isDir_root (t : Tree) : t.IsDir [] := ⟨t.clock, rfl⟩

theorem isDir_of_eq {t t' : Tree} {p : Place} (h : t'.get? p = t.get? p) :
    t'.IsDir p ↔ t.IsDir p := by
  unfold IsDir
  rw [h]

section Follow

variable {t t' : Tree} {dir p : Place} {names : List String}

theorem follow_of_isDir {name : String} (h : t.IsDir dir) (hup : name ≠ "..") :
    t.follow dir (name :: names) =
      if name = "." then t.follow dir names
      else if nameLimit < name.utf8ByteSize then .error .nameTooLong
      else t.follow (dir ++ [name]) names := by
  obtain ⟨m, hm⟩ := h
  rw [follow, hm]
  simp [hup]

theorem isDir_of_follow {name : String} (h : t.follow dir (name :: names) = .ok p) :
    t.IsDir dir := by
  rw [follow] at h
  split at h
  · cases h
  · rename_i m hm
    exact ⟨m, hm⟩
  · cases h

/-- Following names leads to their place. -/
theorem follow_eq (hup : ".." ∉ names) (h : t.follow dir names = .ok p) :
    p = dir ++ names.filter (· ≠ ".") := by
  induction names generalizing dir with
  | nil =>
    obtain rfl : dir = p := Except.ok.inj h
    simp
  | cons name names ih =>
    obtain ⟨hname, hnames⟩ := List.ne_and_not_mem_of_not_mem_cons hup
    have hdir := isDir_of_follow h
    rw [follow_of_isDir hdir hname.symm] at h
    split at h
    · rename_i hdot
      rw [ih hnames h]
      simp [hdot]
    · rename_i hdot
      split at h
      · cases h
      · rw [ih hnames h]
        simp [hdot]

/-- Names lead on where all that was a directory on the way still is one. What stands at the end
of the way does not matter, unless a dot asks for a directory there. -/
theorem follow_of_isDir_mono (hup : ".." ∉ names) (h : t.follow dir names = .ok p)
    (hdirs : ∀ q, q <+: p → (q = p → names.getLast? = some ".") → t.IsDir q → t'.IsDir q) :
    t'.follow dir names = .ok p := by
  induction names generalizing dir with
  | nil => exact h
  | cons name names ih =>
    obtain ⟨hname, hnames⟩ := List.ne_and_not_mem_of_not_mem_cons hup
    have hdir := isDir_of_follow h
    have hp := follow_eq hup h
    -- If the way ends here, only dots follow.
    have hend : dir = p → (name :: names).getLast? = some "." := by
      intro heq
      rw [heq, List.self_eq_append_right, List.filter_eq_nil_iff] at hp
      have hlast := List.getLast_mem (List.cons_ne_nil name names)
      rw [List.getLast?_eq_some_getLast (List.cons_ne_nil name names)]
      simpa using hp _ hlast
    have hmore : ∀ q, q <+: p → (q = p → names.getLast? = some ".") → t.IsDir q → t'.IsDir q := by
      refine fun q hq hdot => hdirs q hq fun heq => ?_
      rw [List.getLast?_cons, hdot heq]
      rfl
    have hprefix : dir <+: p := hp ▸ List.prefix_append ..
    rw [follow_of_isDir hdir hname.symm] at h
    rw [follow_of_isDir (hdirs dir hprefix hend hdir) hname.symm]
    split
    · rename_i hdot
      rw [if_pos hdot] at h
      exact ih hnames h hmore
    · rename_i hdot
      rw [if_neg hdot] at h
      split at h
      · cases h
      · rename_i hshort
        rw [if_neg hshort]
        exact ih hnames h hmore

/-- On a way of directories names of a fair length lead on until something is missing. -/
theorem follow_of_way (dir : Place) (hup : ".." ∉ names)
    (hshort : ∀ name ∈ names, name.utf8ByteSize ≤ nameLimit)
    (hway : ∀ q, q <+: dir ++ names.filter (· ≠ ".") → t.get? q = none ∨ t.IsDir q) :
    t.follow dir names = .error .notFound ∨
      t.follow dir names = .ok (dir ++ names.filter (· ≠ ".")) := by
  induction names generalizing dir with
  | nil => exact .inr (by simp [follow])
  | cons name names ih =>
    obtain ⟨hname, hnames⟩ := List.ne_and_not_mem_of_not_mem_cons hup
    have hmore : ∀ n ∈ names, n.utf8ByteSize ≤ nameLimit :=
      fun n hn => hshort n (List.mem_cons_of_mem _ hn)
    rcases hway dir (List.prefix_append ..) with hnone | hdir
    · refine .inl ?_
      rw [follow, hnone]
    · have hfits : ¬nameLimit < name.utf8ByteSize :=
        Nat.not_lt.2 (hshort name (List.mem_cons_self ..))
      rw [follow_of_isDir hdir hname.symm, if_neg hfits]
      by_cases hdot : name = "."
      · rw [if_pos hdot]
        have hplace : dir ++ (name :: names).filter (· ≠ ".") =
            dir ++ names.filter (· ≠ ".") := by simp [hdot]
        rw [hplace] at hway ⊢
        exact ih _ hnames hmore hway
      · rw [if_neg hdot]
        have hplace : dir ++ (name :: names).filter (· ≠ ".") =
            dir ++ [name] ++ names.filter (· ≠ ".") := by simp [hdot]
        rw [hplace] at hway ⊢
        exact ih _ hnames hmore hway

/-- Where names are not found, something is missing and all before it are directories. -/
theorem way_of_follow_notFound (hwf : t.WellFormed) (hup : ".." ∉ names)
    (hbefore : ∀ q, q <+: dir → q ≠ dir → t.IsDir q)
    (h : t.follow dir names = .error .notFound) :
    t.Vacant (dir ++ names.filter (· ≠ ".")) := by
  induction names generalizing dir with
  | nil => cases h
  | cons name names ih =>
    obtain ⟨hname, hnames⟩ := List.ne_and_not_mem_of_not_mem_cons hup
    rw [follow] at h
    split at h
    · rename_i hnone
      -- Nothing stands below a place where nothing stands.
      have hbelow : ∀ q, dir <+: q → t.get? q = none := by
        intro q hq
        by_cases heq : dir = q
        · rw [← heq, hnone]
        · refine Option.not_isSome_iff_eq_none.1 fun hsome => ?_
          obtain ⟨m, hm⟩ := hwf q hsome dir hq heq
          rw [hnone] at hm
          cases hm
      refine ⟨hbelow _ (List.prefix_append ..), fun q hq => ?_⟩
      rcases List.prefix_or_prefix_of_prefix hq (List.prefix_append dir _) with hle | hge
      · by_cases heq : q = dir
        · exact .inl (heq ▸ hnone)
        · exact .inr (hbefore q hle heq)
      · exact .inl (hbelow q hge)
    · rename_i m hm
      have hdir : t.IsDir dir := ⟨m, hm⟩
      rw [if_neg hname.symm] at h
      split at h
      · rename_i hdot
        have hplace : dir ++ (name :: names).filter (· ≠ ".") =
            dir ++ names.filter (· ≠ ".") := by simp [hdot]
        rw [hplace]
        exact ih hnames hbefore h
      · rename_i hdot
        split at h
        · cases h
        · have hplace : dir ++ (name :: names).filter (· ≠ ".") =
              dir ++ [name] ++ names.filter (· ≠ ".") := by simp [hdot]
          rw [hplace]
          refine ih hnames (fun q hq hne => ?_) h
          rcases List.prefix_concat_iff.1 hq with heq | hle
          · exact absurd heq hne
          · by_cases heq : q = dir
            · exact heq ▸ hdir
            · exact hbefore q hle heq
    · cases h

theorem follow_append (t : Tree) (dir : Place) (before after : List String) :
    t.follow dir (before ++ after) = (t.follow dir before).bind fun p => t.follow p after := by
  induction before generalizing dir with
  | nil => rfl
  | cons name before ih =>
    rw [List.cons_append, follow, follow]
    split
    · rfl
    · split
      · exact ih _
      · split
        · exact ih _
        · split
          · rfl
          · exact ih _
    · rfl

end Follow

section Stat

variable {t t' : Tree} {path : String} {e e' : Entry}

theorem filter_walk (path : String) : (walk path).filter (· ≠ ".") = placeOf path := by
  unfold walk placeOf
  split <;> simp

theorem IsDirect.not_mem_walk (h : IsDirect path) : ".." ∉ walk path := by
  have hup := h.onward
  unfold walk
  split <;> simp [hup]

theorem isEmpty_of_isAbsolute (habs : isAbsolute path = true) : path.isEmpty = false := by
  refine Bool.eq_false_iff.2 fun hempty => ?_
  rw [String.isEmpty_iff.1 hempty] at habs
  revert habs
  decide

theorem origin_absolute (habs : isAbsolute path = true) : t.origin path = .ok [] := by
  rw [origin, if_pos habs]

theorem locate_absolute (habs : isAbsolute path = true) (t : Tree) :
    t.locate path = (checkPath path).bind fun _ => t.follow [] (walk path) := by
  unfold locate walk
  rw [origin_absolute habs]
  rfl

/-- What a direct path leads to stands at its place. -/
theorem IsDirect.stat_eq_ok (h : IsDirect path) :
    t.stat path = .ok e ↔ checkPath path = .ok () ∧
      t.follow [] (walk path) = .ok (placeOf path) ∧ t.get? (placeOf path) = some e := by
  unfold stat
  rw [locate_absolute h.absolute]
  cases hcheck : checkPath path with
  | error fault => simp [Except.bind, bind]
  | ok _ =>
    cases hfollow : t.follow [] (walk path) with
    | error fault => simp [Except.bind, bind]
    | ok p =>
      have hp : p = placeOf path := by
        rw [follow_eq h.not_mem_walk hfollow, filter_walk, List.nil_append]
      subst hp
      cases hget : t.get? (placeOf path) <;> simp [Except.bind, bind, hget]

theorem IsDirect.get?_of_stat (h : IsDirect path) (hstat : t.stat path = .ok e) :
    t.get? (placeOf path) = some e := (h.stat_eq_ok.1 hstat).2.2

theorem WellFormed.isDir_of_prefix (hwf : t.WellFormed) {p q : Place} (hp : t.get? p = some e)
    (hq : q <+: p) (hne : q ≠ p) : t.IsDir q := hwf p (by rw [hp]; rfl) q hq hne

/-- What a direct path leads to may be exchanged, if a directory stays one where the path asks
for it. -/
theorem IsDirect.stat_of_get? (h : IsDirect path) (hwf : t'.WellFormed)
    (hstat : t.stat path = .ok e) (hget : t'.get? (placeOf path) = some e')
    (hdir : AsksForDir path → e.isDir = true → e'.isDir = true) : t'.stat path = .ok e' := by
  obtain ⟨hcheck, hfollow, hold⟩ := h.stat_eq_ok.1 hstat
  refine h.stat_eq_ok.2 ⟨hcheck, ?_, hget⟩
  refine follow_of_isDir_mono h.not_mem_walk hfollow fun q hq hasks hqdir => ?_
  by_cases hne : q = placeOf path
  · replace hasks := hasks hne
    subst hne
    obtain ⟨m, hm⟩ := hqdir
    obtain rfl : Entry.dir m = e := Option.some.inj (hm.symm.trans hold)
    cases e' with
    | dir m' => exact ⟨m', hget⟩
    | file content m' => cases hdir hasks rfl
    | device d m' => cases hdir hasks rfl
  · exact hwf.isDir_of_prefix hget hq hne

theorem checkPath_of_notFound (habs : isAbsolute path = true)
    (hstat : t.stat path = .error .notFound) : checkPath path = .ok () := by
  unfold stat at hstat
  rw [locate_absolute habs] at hstat
  cases hcheck : checkPath path with
  | ok _ => rfl
  | error fault =>
    have hfault : fault = .notFound := by simpa [hcheck, Except.bind, bind] using hstat
    subst hfault
    unfold checkPath at hcheck
    rw [isEmpty_of_isAbsolute habs] at hcheck
    split at hcheck
    · cases hcheck
    · rw [if_neg Bool.false_ne_true] at hcheck
      split at hcheck <;> cases hcheck

/-- Nothing is found where a place is vacant, and there only. -/
theorem IsDirect.vacant_of_notFound (h : IsDirect path) (hwf : t.WellFormed)
    (hstat : t.stat path = .error .notFound) : t.Vacant (placeOf path) := by
  have hcheck := checkPath_of_notFound h.absolute hstat
  -- A dot behind the names asks for an entry at their place and leads nowhere else.
  have hmissing : t.follow [] (walk path ++ ["."]) = .error .notFound := by
    unfold stat at hstat
    rw [locate_absolute h.absolute, hcheck] at hstat
    rw [follow_append]
    cases hfollow : t.follow [] (walk path) with
    | error fault => simpa [hfollow, Except.bind, bind] using hstat
    | ok p =>
      cases hget : t.get? p with
      | none => simp [Except.bind, follow, hget]
      | some e => simp [hfollow, hget, Except.bind, bind] at hstat
  have hup : ".." ∉ walk path ++ ["."] := by simp [h.not_mem_walk]
  have hvacant := way_of_follow_notFound hwf hup
    (fun q hq hne => absurd (List.prefix_nil.1 hq) hne) hmissing
  rwa [List.filter_append, filter_walk, List.nil_append,
    show ["."].filter (· ≠ ".") = [] by decide, List.append_nil] at hvacant

theorem IsDirect.stat_ne_ok (h : IsDirect path) (hvacant : t.Vacant (placeOf path)) (e : Entry) :
    t.stat path ≠ .ok e := by
  intro hstat
  have hsome := h.get?_of_stat hstat
  rw [hvacant.nothing] at hsome
  cases hsome

/-- Names of a fair length at a vacant place are not found. -/
theorem IsDirect.stat_of_vacant (h : IsDirect path) (hcheck : checkPath path = .ok ())
    (hshort : ∀ name ∈ steps path, name.utf8ByteSize ≤ nameLimit)
    (hvacant : t.Vacant (placeOf path)) : t.stat path = .error .notFound := by
  have hwalk : ∀ name ∈ walk path, name.utf8ByteSize ≤ nameLimit := by
    intro name hname
    unfold walk at hname
    rcases List.mem_append.1 hname with hstep | hdot
    · exact hshort name hstep
    · split at hdot
      · rw [List.mem_singleton.1 hdot]
        decide
      · cases hdot
  have hfollow := follow_of_way [] h.not_mem_walk hwalk fun q hq => hvacant.way q (by
    rwa [List.nil_append, filter_walk] at hq)
  rw [List.nil_append, filter_walk] at hfollow
  unfold stat
  rw [locate_absolute h.absolute, hcheck]
  rcases hfollow with hmissing | hfound
  · simp [Except.bind, bind, hmissing]
  · simp [Except.bind, bind, hfound, hvacant.nothing]

end Stat

theorem mem_of_lookup {p : Place} {e : Entry} {entries : List (Place × Entry)}
    (h : entries.lookup p = some e) : (p, e) ∈ entries := by
  induction entries with
  | nil => cases h
  | cons x entries ih =>
    obtain ⟨q, e'⟩ := x
    rw [List.lookup_cons] at h
    split at h
    · rename_i heq
      obtain rfl := Option.some.inj h
      rw [beq_iff_eq.1 heq]
      exact List.mem_cons_self ..
    · exact List.mem_cons_of_mem _ (ih h)

/-- A tree is well formed if all places above its entries are those of directories. -/
theorem wellFormed_of_entries {t : Tree}
    (h : ∀ x ∈ t.entries, ∀ n < x.1.length, (t.get? (x.1.take n)).any Entry.isDir = true) :
    t.WellFormed := by
  intro p hp q hq hne
  obtain ⟨e, he⟩ := Option.isSome_iff_exists.1 hp
  unfold get? at he
  split at he
  · rename_i hroot
    rw [hroot] at hq hne
    exact absurd (List.prefix_nil.1 hq) hne
  · have hlength : q.length < p.length := by
      rcases Nat.lt_or_eq_of_le hq.length_le with hlt | heq
      · exact hlt
      · exact absurd (hq.eq_of_length heq) hne
    have hdir := h (p, e) (mem_of_lookup he) q.length hlength
    rw [← List.prefix_iff_eq_take.1 hq] at hdir
    obtain ⟨e', he', hdir⟩ := (Option.any_eq_true _ _).1 hdir
    cases e' with
    | dir m => exact ⟨m, he'⟩
    | file content m => cases hdir
    | device d m => cases hdir

end Tree

end RasterFallback.Files
