import RasterFallback.Conversion.Scripted
import RasterFallback.Proofs.Files.Folders

/-!
What a conversion may expect of a renderer that reports success. The scripted renderer
does what is expected wherever it writes a file.
-/
namespace RasterFallback
open RasterFallback.Files RasterFallback.Files.Tree

/-- An entry is as it was, or it is a directory on the way to `p` which was made or touched. -/
def KeptBut (p : Place) (t t' : Tree) (q : Place) : Prop :=
  t'.get? q = t.get? q ∨
    q <+: p ∧ (t.get? q = none ∨ t.IsDir q) ∧ ∃ m, t'.get? q = some (.dir m) ∧ t.clock ≤ m

/-- What the success of a renderer means: the raster is there and its time is late enough, and
no other entry has changed, except for directories on the way to it. The working directory is
gone only if the raster was put in its place. Time does not go back, and entries stand in
directories as before. -/
structure Delivers (late : Nat → Prop) (dest : String) (t t' : Tree) : Prop where
  raster : ∃ raster, t'.stat dest = .ok raster ∧ late raster.modified
  others : ∀ q, q ≠ placeOf dest → KeptBut (placeOf dest) t t' q
  home : t'.home = t.home ∨ t.home = some (placeOf dest) ∧ t'.home = none
  clock : t.clock ≤ t'.clock
  wellFormed : t.WellFormed → t'.WellFormed

section Writing

variable {t t' : Tree} {path : String} {content : List UInt8}

/-- Writing makes a file, or replaces one, or leaves all to a device. -/
theorem write_eq_ok (hdirect : IsDirect path) (h : t.write path content = .ok t') :
    ∃ dir name, t.IsDir dir ∧ placeOf path = dir ++ [name] ∧ checkPath path = .ok () ∧
      t.follow [] (steps path) = .ok (dir ++ [name]) ∧ (endsInSlash path = false ∧
        (t.get? (dir ++ [name]) = none ∧ t' = t.add dir name (.file content t.clock) ∨
        (∃ old m, t.get? (dir ++ [name]) = some (.file old m)) ∧
          t' = t.set (dir ++ [name]) (.file content t.clock)) ∨
      (∃ d m, t.get? (dir ++ [name]) = some (.device d m)) ∧ t' = t) := by
  unfold write at h
  obtain ⟨⟨dir, name?⟩, hslot, h⟩ := bind_eq_ok.1 h
  cases name? with
  | none => cases h
  | some name =>
    obtain ⟨hdir, hplace, hcheck, hfollow⟩ := hdirect.slot_eq_ok hslot
    refine ⟨dir, name, hdir, hplace, hcheck, hfollow, ?_⟩
    dsimp only at h
    cases hget : t.get? (dir ++ [name]) with
    | none =>
      rw [hget] at h
      dsimp only at h
      split at h
      · cases h
      · rename_i hslash
        exact .inl ⟨Bool.eq_false_iff.2 hslash, .inl ⟨rfl, (Except.ok.inj h).symm⟩⟩
    | some e =>
      rw [hget] at h
      cases e with
      | dir m => cases h
      | file old m =>
        dsimp only at h
        split at h
        · cases h
        · rename_i hslash
          exact .inl ⟨Bool.eq_false_iff.2 hslash, .inr ⟨⟨old, m, rfl⟩, (Except.ok.inj h).symm⟩⟩
      | device d m =>
        dsimp only at h
        split at h
        · cases h
        · split at h
          · cases h
          · exact .inr ⟨⟨d, m, rfl⟩, (Except.ok.inj h).symm⟩

/-- A file that is written is there, from the time of the clock. -/
theorem delivers_write (hdirect : IsDirect path) (h : t.write path content = .ok t')
    (hdevice : ∀ d m, t.get? (placeOf path) ≠ some (.device d m)) :
    Delivers (· = t.clock) path t t' ∧ t'.stat path = .ok (.file content t.clock) := by
  obtain ⟨dir, name, hdir, hplace, hcheck, hfollow, hcases⟩ := write_eq_ok hdirect h
  have hp : dir ++ [name] ≠ [] := by simp
  have hne : dir ≠ dir ++ [name] := fun h => by simpa using congrArg List.length h
  have hup : ".." ∉ steps path := hdirect.onward
  -- The file is found once it stands there and all directories still do.
  have hstat (hslash : endsInSlash path = false)
      (hget : t'.get? (dir ++ [name]) = some (.file content t.clock))
      (hfile : ¬t.IsDir (dir ++ [name]))
      (hdirs : ∀ q, q ≠ dir ++ [name] → t.IsDir q → t'.IsDir q) :
      t'.stat path = .ok (.file content t.clock) := by
    refine hdirect.stat_eq_ok.2 ⟨hcheck, ?_, hplace ▸ hget⟩
    have hwalk : walk path = steps path := by simp [walk, hslash]
    rw [hwalk, hplace]
    refine follow_of_isDir_mono hup hfollow fun q _ _ hq => hdirs q ?_ hq
    rintro rfl
    exact hfile hq
  rcases hcases with ⟨hslash, ⟨hnone, rfl⟩ | ⟨⟨old, m, hold⟩, rfl⟩⟩ | ⟨⟨d, m, hd⟩, -⟩
  · have hfile : ¬t.IsDir (dir ++ [name]) := fun ⟨m, hm⟩ => by rw [hnone] at hm; cases hm
    have hget : (t.add dir name (.file content t.clock)).get? (dir ++ [name]) =
        some (.file content t.clock) := by rw [get?_add hdir, if_pos rfl]
    have hothers (q : Place) (hq : q ≠ dir ++ [name]) :
        KeptBut (dir ++ [name]) t (t.add dir name (.file content t.clock)) q := by
      unfold KeptBut
      rw [get?_add hdir, if_neg hq]
      split
      · rename_i hqdir
        subst hqdir
        exact .inr ⟨List.prefix_append .., .inr hdir, t.clock, rfl, Nat.le_refl _⟩
      · exact .inl rfl
    have hfound := hstat hslash hget hfile fun q hq ⟨m, hm⟩ => by
      rcases hothers q hq with hsame | ⟨-, -, m', hm', -⟩
      · exact ⟨m, hsame.trans hm⟩
      · exact ⟨m', hm'⟩
    exact ⟨⟨⟨_, hfound, rfl⟩, hplace ▸ hothers, .inl (home_add hdir),
      Nat.le_of_eq (clock_add hdir).symm, fun hwf => hwf.add hdir name _ hnone⟩, hfound⟩
  · have hfile : ¬t.IsDir (dir ++ [name]) := fun ⟨m, hm⟩ => by rw [hold] at hm; cases hm
    have hget : (t.set (dir ++ [name]) (.file content t.clock)).get? (dir ++ [name]) =
        some (.file content t.clock) := get?_set_self t hp _
    have hothers (q : Place) (hq : q ≠ dir ++ [name]) :
        KeptBut (dir ++ [name]) t (t.set (dir ++ [name]) (.file content t.clock)) q :=
      .inl (get?_set_ne t hq _)
    have hfound := hstat hslash hget hfile fun q hq ⟨m, hm⟩ => ⟨m, by rw [get?_set_ne t hq, hm]⟩
    exact ⟨⟨⟨_, hfound, rfl⟩, hplace ▸ hothers, .inl rfl, Nat.le_refl _,
      fun hwf => hwf.set hp hold fun h => nomatch h⟩, hfound⟩
  · exact absurd (hplace ▸ hd) (hdevice d m)

/-- Only the time of a file changes that is touched. -/
theorem Delivers.touchFile {late : Nat → Prop} (h : Delivers late path t t') {m : Nat}
    (hdirect : IsDirect path) (hfile : t'.stat path = .ok (.file content m)) (time : Nat) :
    Delivers (· = time) path t (t'.touchFile path time) := by
  obtain ⟨hcheck, hfollow, hget⟩ := hdirect.stat_eq_ok.1 hfile
  have hlocate : t'.locate path = .ok (placeOf path) := by
    rw [locate_absolute hdirect.absolute, hcheck]
    exact hfollow
  have htouched : t'.touchFile path time = t'.set (placeOf path) (.file content time) := by
    unfold Tree.touchFile
    simp only [hlocate, hget]
  have hp : placeOf path ≠ [] := by
    intro hroot
    rw [hroot] at hget
    cases hget
  have hwf (hwf : t'.WellFormed) : (t'.set (placeOf path) (.file content time)).WellFormed :=
    hwf.set hp hget fun h => nomatch h
  rw [htouched]
  refine ⟨⟨.file content time, hdirect.stat_eq_ok.2 ⟨hcheck, ?_, get?_set_self t' hp _⟩, rfl⟩,
    fun q hq => ?_, h.home, h.clock, fun hold => hwf (h.wellFormed hold)⟩
  · refine follow_of_isDir_mono hdirect.not_mem_walk hfollow fun q _ _ ⟨m', hm'⟩ => ?_
    have hq : q ≠ placeOf path := by
      rintro rfl
      rw [hget] at hm'
      cases hm'
    exact ⟨m', by rw [get?_set_ne t' hq, hm']⟩
  · unfold KeptBut
    rw [get?_set_ne t' hq]
    exact h.others q hq

theorem Delivers.keepsHome {late : Nat → Prop} (h : Delivers late path t t') : t.KeepsHome t' :=
  h.home.imp_right And.right

theorem Delivers.mono {late late' : Nat → Prop} (h : Delivers late path t t')
    (himp : ∀ m, late m → late' m) : Delivers late' path t t' := by
  obtain ⟨raster, hraster, hlate⟩ := h.raster
  exact ⟨⟨raster, hraster, himp _ hlate⟩, h.others, h.home, h.clock, h.wellFormed⟩

end Writing

/-- The scripted renderer delivers what it writes, at the time that it is told. -/
theorem Script.delivers {s : Script} {job : RenderJob} {t : Tree} {late : Nat → Prop}
    (hdirect : IsDirect job.dest) (hwrites : s.writes = true)
    (hdevice : ∀ d m, t.get? (placeOf job.dest) ≠ some (.device d m)) (hlate : late s.clock)
    (hok : (s.renderer job () t).result = .ok ()) :
    Delivers late job.dest t (s.renderer job () t).files := by
  unfold Script.renderer at hok ⊢
  cases hrefusal : s.refusal? job with
  | some text =>
    rw [hrefusal] at hok
    cases hok
  | none =>
    simp only [hrefusal, hwrites, if_true] at hok ⊢
    cases hdraw : s.draw job t with
    | error e =>
      rw [hdraw] at hok
      cases hok
    | ok t' =>
      dsimp only
      unfold Script.draw at hdraw
      obtain ⟨made, hmade, hdraw⟩ := bind_eq_ok.1 hdraw
      obtain rfl := Except.ok.inj hdraw
      obtain ⟨hwritten, hfile⟩ := delivers_write hdirect hmade hdevice
      refine (hwritten.touchFile hdirect hfile s.clock).mono ?_
      rintro _ rfl
      exact hlate

end RasterFallback
