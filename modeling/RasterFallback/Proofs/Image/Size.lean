import RasterFallback.Image.Size
import RasterFallback.Proofs.Text.Trim

/-!
What is understood as a size. The written forms of sizes are a grammar of their own: decimal
digits with the unit behind them, once or twice. A value gives a size exactly if it is one of
these forms with blanks around it.
-/
namespace RasterFallback
open RasterFallback.Text

/-- A number of pixels that fits 32 bits: decimal digits that spell it, and the unit behind them. -/
def WritesLength (t : List Char) (n : Nat) : Prop :=
  ∃ ds : List Char, ds ≠ [] ∧ (∀ c ∈ ds, c.isDigit) ∧ Nat.ofDigitChars 10 ds 0 = n ∧
    n < UInt32.size ∧ t = ds ++ ['p', 'x']

/-- The written forms of a size. -/
inductive WritesSize : List Char → Size → Prop where
  | square {t : List Char} {n : Nat} (side : WritesLength t n) : WritesSize t ⟨n, n⟩
  | oblong {t u : List Char} {w h : Nat} (width : WritesLength t w) (height : WritesLength u h) :
    WritesSize (t ++ ' ' :: u) ⟨w, h⟩

section Lengths

variable {s t rest : List Char} {n : Nat}

theorem natOfDigits_eq (ds : List Char) : natOfDigits ds = Nat.ofDigitChars 10 ds 0 := by
  have hstep : (fun n c => n * 10 + digitValue c) = fun n c => 10 * n + (c.toNat - '0'.toNat) := by
    funext n c
    rw [digitValue, Nat.mul_comm]
  rw [natOfDigits, Nat.ofDigitChars, hstep]

theorem pixels?_append {ds : List Char} (hne : ds ≠ []) (hds : ∀ c ∈ ds, c.isDigit)
    (hn : natOfDigits ds < lengthLimit) (rest : List Char) :
    pixels? (ds ++ 'p' :: 'x' :: rest) = some (natOfDigits ds, rest) := by
  have hp : ('p' :: 'x' :: rest).takeWhile Char.isDigit = [] := rfl
  have hdrop : ('p' :: 'x' :: rest).dropWhile Char.isDigit = 'p' :: 'x' :: rest := rfl
  have htake : (ds ++ 'p' :: 'x' :: rest).takeWhile Char.isDigit = ds := by
    rw [List.takeWhile_append_of_pos hds, hp, List.append_nil]
  simp [pixels?, htake, List.dropWhile_append_of_pos hds, hdrop, behind?, hne, hn]

/-- A length is read up to its unit, whatever stands behind. -/
theorem pixels?_eq_some : pixels? s = some (n, rest) ↔ ∃ t, WritesLength t n ∧ s = t ++ rest := by
  constructor
  · intro h
    obtain ⟨behind, hbehind, h⟩ := Option.bind_eq_some_iff.1 h
    split at h
    · cases h
    · rename_i hds
      obtain ⟨rfl, rfl⟩ := Prod.mk.inj (Option.some.inj h)
      rw [Bool.or_eq_true, not_or, List.isEmpty_iff, decide_eq_true_eq, Nat.not_le] at hds
      refine ⟨_, ⟨s.takeWhile Char.isDigit, hds.1, List.all_eq_true.1 List.all_takeWhile,
        (natOfDigits_eq _).symm, hds.2, rfl⟩, ?_⟩
      rw [List.append_assoc, ← behind?_eq_some.1 hbehind, List.takeWhile_append_dropWhile]
  · rintro ⟨t, ⟨ds, hne, hds, rfl, hn, rfl⟩, rfl⟩
    rw [← natOfDigits_eq] at hn ⊢
    simpa using pixels?_append hne hds hn rest

theorem not_isBlank_of_isDigit {c : Char} (h : c.isDigit) : isBlank c = false := by
  obtain ⟨hlow, hhigh⟩ : 48 ≤ c.toNat ∧ c.toNat ≤ 57 := Char.isDigit_iff_toNat.1 h
  simp only [isBlank, Bool.or_eq_false_iff, Bool.and_eq_false_iff, beq_eq_false_iff_ne,
    decide_eq_false_iff_not]
  omega

theorem WritesLength.ends (h : WritesLength t n) :
    (∀ x ∈ t.head?, isBlank x = false) ∧ t.getLast? = some 'x' := by
  obtain ⟨ds, hne, hds, -, -, rfl⟩ := h
  obtain ⟨c, ds, rfl⟩ := List.exists_cons_of_ne_nil hne
  refine ⟨fun x hx => ?_, by rw [List.getLast?_append]; rfl⟩
  obtain rfl : c = x := Option.some.inj hx
  exact not_isBlank_of_isDigit (hds c (List.mem_cons_self ..))

end Lengths

section Sizes

variable {t : List Char} {s : Size}

theorem WritesSize.ends (h : WritesSize t s) :
    (∀ x ∈ t.head?, isBlank x = false) ∧ ∀ x ∈ t.getLast?, isBlank x = false := by
  have hlast {u : List Char} (hu : u.getLast? = some 'x') (x : Char) (hx : u.getLast? = some x) :
      isBlank x = false := by
    obtain rfl : 'x' = x := Option.some.inj (hu.symm.trans hx)
    decide
  cases h with
  | square side => exact ⟨side.ends.1, hlast side.ends.2⟩
  | @oblong t u w h width height =>
    refine ⟨fun x hx => width.ends.1 x ?_, hlast ?_⟩
    · obtain ⟨ds, hne, -, -, -, rfl⟩ := width
      obtain ⟨c, ds, rfl⟩ := List.exists_cons_of_ne_nil hne
      exact hx
    · rw [List.getLast?_append, List.getLast?_cons, height.ends.2]
      rfl

theorem backgroundSize?_eq_some_trim {value : String} :
    backgroundSize? value = some s ↔ WritesSize (trim value.toList) s := by
  constructor
  · intro h
    obtain ⟨⟨w, rest⟩, hw, h⟩ := Option.bind_eq_some_iff.1 h
    obtain ⟨t, ht, htrim⟩ := pixels?_eq_some.1 hw
    rw [htrim]
    dsimp only at h
    split at h
    · obtain rfl := Option.some.inj h
      rw [List.append_nil]
      exact .square ht
    · obtain ⟨⟨k, behind⟩, hk, hsize⟩ := Option.bind_eq_some_iff.1 h
      obtain ⟨u, hu, rfl⟩ := pixels?_eq_some.1 hk
      cases behind with
      | nil =>
        obtain rfl := Option.some.inj hsize
        rw [List.append_nil]
        exact .oblong ht hu
      | cons c behind => cases hsize
    · cases h
  · intro h
    have hwhole {u : List Char} {n : Nat} (hu : WritesLength u n) : pixels? u = some (n, []) :=
      pixels?_eq_some.2 ⟨u, hu, (List.append_nil u).symm⟩
    rw [backgroundSize?]
    generalize trim value.toList = t at h
    cases h with
    | square side => rw [hwhole side]; rfl
    | @oblong t u w k width height =>
      have hfirst : pixels? (t ++ ' ' :: u) = some (w, ' ' :: u) :=
        pixels?_eq_some.2 ⟨t, width, rfl⟩
      simp [hfirst, hwhole height]

/-- A value gives a size exactly if it is a written form of the size with blanks around it, and
gives none if it is no written form of any. -/
theorem backgroundSize?_eq_some_iff (value : String) :
    (∀ s, backgroundSize? value = some s ↔ ∃ t, Pads t value.toList ∧ WritesSize t s) ∧
      (backgroundSize? value = none ↔ ∀ t s, Pads t value.toList → ¬WritesSize t s) := by
  have hsome (s : Size) : backgroundSize? value = some s ↔
      ∃ t, Pads t value.toList ∧ WritesSize t s := by
    rw [backgroundSize?_eq_some_trim]
    constructor
    · exact fun h => ⟨_, pads_trim value.toList, h⟩
    · rintro ⟨t, ⟨r, u, hvalue, hr, hu⟩, ht⟩
      rwa [hvalue, trim_append hr ht.ends.1 ht.ends.2 hu]
  refine ⟨hsome, ?_⟩
  rw [Option.eq_none_iff_forall_ne_some]
  constructor
  · exact fun h t s ht hs => h s ((hsome s).2 ⟨t, ht, hs⟩)
  · intro h s hs
    obtain ⟨t, ht, hwrites⟩ := (hsome s).1 hs
    exact h t s ht hwrites

/-- Leading zeros do not count, and a side of 2 ^ 32 pixels is too long. -/
example : backgroundSize? "\t020px 4294967295px " = some ⟨20, 4294967295⟩ ∧
    backgroundSize? "20px 4294967296px" = none := by
  decide +kernel

end Sizes

end RasterFallback
