import RasterFallback.Proofs.Stylesheet.SelectorTokens
import RasterFallback.Proofs.Text.Trim

/-!
Selector lists taken apart and joined again. Every selector of a list is scanned from outside
all brackets and strings, and all but the last lead back there. A marker that does so too can
stand before each of them: the list of the marked selectors is cut into just these.
-/
namespace RasterFallback
open RasterFallback.Text RasterFallback.Css RasterFallback.Css.Components

namespace SelectorScan

/-- No character of the text is cut at when the scan reaches the text in this state. -/
def Uncut : SelectorScan → List Char → Prop
  | _, [] => True
  | st, c :: s => st.cuts c = false ∧ (st.step c).Uncut s

/-- None of the texts is cut at, and each but the last leads out of all brackets and strings.
The first is reached in the given state. -/
def Chain : SelectorScan → List (List Char) → Prop
  | _, [] => True
  | st, p :: ps => st.Uncut p ∧ (ps ≠ [] → st.run p = outside) ∧ outside.Chain ps

/-- The quote mark of an open string is not blank. -/
def Marked (st : SelectorScan) : Prop :=
  ∀ q escaped, st.quote = some (q, escaped) → isBlank q = false

variable {st : SelectorScan} {c : Char} {m p s t u : List Char} {ps : List (List Char)}

theorem run_append (st : SelectorScan) (s t : List Char) : st.run (s ++ t) = (st.run s).run t :=
  List.foldl_append

theorem uncut_append : st.Uncut (s ++ t) ↔ st.Uncut s ∧ (st.run s).Uncut t := by
  induction s generalizing st with
  | nil => simp [Uncut]
  | cons c s ih => simp [Uncut, ih, and_assoc]

theorem Uncut.passes (h : st.Uncut s) : st.Passes s (st.run s) := by
  induction s generalizing st with
  | nil => exact .nil st
  | cons c s ih => exact .cons h.1 (ih h.2)

theorem uncut_of_pieces (h : st.pieces s = [s]) : st.Uncut s := by
  induction s generalizing st with
  | nil => trivial
  | cons c s ih =>
    rw [pieces] at h
    split at h
    · cases h
    · rename_i hcut
      obtain ⟨p, ps, hps⟩ := List.exists_cons_of_ne_nil (pieces_ne_nil (st.step c) s)
      rw [hps] at h
      obtain ⟨hp, rfl⟩ := List.cons.inj h
      obtain rfl := (List.cons.inj hp).2
      exact ⟨Bool.eq_false_iff.2 hcut, ih hps⟩

theorem eq_outside_of_cuts (h : st.cuts c = true) : st = outside ∧ st.step c = outside := by
  obtain ⟨depth, quote⟩ := st
  simp only [cuts, Bool.and_eq_true, Option.isNone_iff_eq_none, beq_iff_eq] at h
  obtain ⟨⟨rfl, rfl⟩, rfl⟩ := h
  exact ⟨rfl, rfl⟩

/-- The pieces of a list are scanned one after the other, each but the first from outside. -/
theorem chain_pieces (st : SelectorScan) (s : List Char) : st.Chain (st.pieces s) := by
  induction s generalizing st with
  | nil => exact ⟨trivial, fun h => absurd rfl h, trivial⟩
  | cons c s ih =>
    rw [pieces]
    split
    · rename_i hcut
      obtain ⟨rfl, hstep⟩ := eq_outside_of_cuts hcut
      have hmore := ih (outside.step c)
      rw [hstep] at hmore ⊢
      exact ⟨trivial, fun _ => rfl, hmore⟩
    · rename_i hcut
      obtain ⟨p, ps, hps⟩ := List.exists_cons_of_ne_nil (pieces_ne_nil (st.step c) s)
      have hmore := ih (st.step c)
      rw [hps] at hmore ⊢
      exact ⟨⟨Bool.eq_false_iff.2 hcut, hmore.1⟩, hmore.2⟩

section Blanks

/-- Brackets, quote marks and backslashes are not blank. -/
theorem not_isBlank_of_isGuard (hc : isGuard c = true) : isBlank c = false := by
  simp only [isGuard, Bool.or_eq_true, beq_iff_eq] at hc
  rcases hc with ((((rfl | rfl) | rfl) | rfl) | rfl) | rfl <;> decide

theorem step_blank (hc : isBlank c = true) (hst : st.quote = none) : st.step c = st := by
  have hguard : isGuard c = false := by
    rw [← Bool.not_eq_true]
    intro hguard
    rw [not_isBlank_of_isGuard hguard] at hc
    cases hc
  obtain ⟨depth, quote⟩ := st
  obtain rfl : quote = none := hst
  exact step_plain hguard

theorem run_blank (hu : AllBlank u) : outside.run u = outside := by
  induction u with
  | nil => rfl
  | cons c u ih =>
    rw [run_cons, step_blank (hu c (List.mem_cons_self ..)) rfl]
    exact ih fun x hx => hu x (List.mem_cons_of_mem _ hx)

theorem marked_outside : outside.Marked := nofun

theorem quote_step {q : Char} {escaped : Bool} (h : (st.step c).quote = some (q, escaped)) :
    (∃ before, st.quote = some (q, before)) ∨ q = '\x22' ∨ q = '\x27' := by
  obtain ⟨depth, quote⟩ := st
  cases quote with
  | none => grind [SelectorScan.step]
  | some found =>
    obtain ⟨mark, before⟩ := found
    grind [SelectorScan.step]

theorem Marked.step (h : st.Marked) (c : Char) : (st.step c).Marked := by
  intro q escaped hquote
  rcases quote_step hquote with ⟨before, hbefore⟩ | rfl | rfl
  · exact h q before hbefore
  · decide
  · decide

theorem Marked.run (h : st.Marked) (s : List Char) : (st.run s).Marked := by
  induction s generalizing st with
  | nil => exact h
  | cons c s ih => exact ih (h.step c)

theorem eq_outside_of_step_blank (h : st.Marked) (hc : isBlank c = true)
    (hstep : st.step c = outside) : st = outside := by
  cases hquote : st.quote with
  | none => rwa [step_blank hc hquote] at hstep
  | some found =>
    obtain ⟨q, escaped⟩ := found
    have hmark : isBlank q = false := h q escaped hquote
    have hclosed : (st.step c).quote = none := by
      rw [hstep]
      rfl
    grind [SelectorScan.step]

/-- Blanks do not close a string, so what leads outside with blanks behind it does so without. -/
theorem eq_outside_of_run_blank (h : st.Marked) (hu : AllBlank u) (hrun : st.run u = outside) :
    st = outside := by
  induction u generalizing st with
  | nil => exact hrun
  | cons c u ih =>
    have hstep : st.step c = outside :=
      ih (h.step c) (fun x hx => hu x (List.mem_cons_of_mem _ hx)) hrun
    exact eq_outside_of_step_blank h (hu c (List.mem_cons_self ..)) hstep

theorem Uncut.of_pads (h : outside.Uncut s) (ht : Pads t s) : outside.Uncut t := by
  obtain ⟨r, u, rfl, hr, -⟩ := ht
  have hmore := (uncut_append.1 h).2
  rw [run_blank hr] at hmore
  exact (uncut_append.1 hmore).1

theorem run_of_pads (h : outside.run s = outside) (ht : Pads t s) : outside.run t = outside := by
  obtain ⟨r, u, rfl, hr, hu⟩ := ht
  rw [run_append, run_append, run_blank hr] at h
  exact eq_outside_of_run_blank (marked_outside.run t) hu h

end Blanks

/-- Trimming the pieces and leaving out the blank ones keeps a chain. -/
theorem Chain.kept (h : outside.Chain ps) :
    outside.Chain ((ps.map trim).filter fun p => !p.isEmpty) := by
  induction ps with
  | nil => trivial
  | cons p ps ih =>
    obtain ⟨hp, hrun, hps⟩ := h
    rw [List.map_cons, List.filter_cons]
    split
    · refine ⟨hp.of_pads (pads_trim p), fun hne => ?_, ih hps⟩
      apply run_of_pads (hrun ?_) (pads_trim p)
      rintro rfl
      exact hne rfl
    · exact ih hps

/-- A text that leads back outside can be put before each text of a chain. -/
theorem Chain.prefixed (hm : outside.Uncut m) (hrun : outside.run m = outside)
    (h : outside.Chain ps) : outside.Chain (ps.map (m ++ ·)) := by
  induction ps with
  | nil => trivial
  | cons p ps ih =>
    obtain ⟨hp, hlast, hps⟩ := h
    refine ⟨uncut_append.2 ⟨hm, by rwa [hrun]⟩, fun hne => ?_, ih hps⟩
    rw [run_append, hrun]
    apply hlast
    rintro rfl
    exact hne rfl

theorem map_trim_extend_space (h : ps ≠ []) : (extend ' ' ps).map trim = ps.map trim := by
  obtain ⟨p, ps, rfl⟩ := List.exists_cons_of_ne_nil h
  rfl

/-- A joined chain is cut where it was joined. -/
theorem Chain.pieces_intercalate (h : outside.Chain ps) (hne : ps ≠ []) :
    (outside.pieces (List.intercalate [',', ' '] ps)).map trim = ps.map trim := by
  induction ps with
  | nil => exact absurd rfl hne
  | cons p ps ih =>
    obtain ⟨hp, hrun, hps⟩ := h
    cases ps with
    | nil =>
      have hpieces := hp.passes []
      rw [List.append_nil] at hpieces
      rw [List.intercalate_singleton, hpieces]
      show [trim (p ++ [])] = [trim p]
      rw [List.append_nil]
    | cons q ps =>
      have hrest := ih hps (List.cons_ne_nil q ps)
      have hpieces := hp.passes (',' :: ' ' :: List.intercalate [',', ' '] (q :: ps))
      rw [hrun (List.cons_ne_nil q ps)] at hpieces
      have hcut (w : List Char) : outside.pieces (',' :: ' ' :: w) =
          [] :: extend ' ' (outside.pieces w) := rfl
      rw [List.intercalate_cons_cons, List.append_assoc]
      show (outside.pieces (p ++ ',' :: ' ' :: List.intercalate [',', ' '] (q :: ps))).map trim = _
      rw [hpieces, hcut, prepend, List.append_nil, List.map_cons, List.map_cons,
        map_trim_extend_space (pieces_ne_nil _ _), hrest]

end SelectorScan

open SelectorScan

theorem splitSelectors_eq (s : String) : splitSelectors s =
    (((outside.pieces s.toList).map trim).filter fun p => !p.isEmpty).map String.ofList := by
  rw [splitSelectors]
  induction (outside.pieces s.toList).map trim with
  | nil => rfl
  | cons p ps ih =>
    cases p with
    | nil => exact ih
    | cons c p => exact congrArg (String.ofList (c :: p) :: ·) ih

/-- Selectors that are joined to a list are the selectors of the list. -/
theorem splitSelectors_intercalate {ps : List (List Char)} (h : outside.Chain ps)
    (hps : ∀ p ∈ ps, p ≠ [] ∧ trim p = p) :
    splitSelectors (String.ofList (List.intercalate [',', ' '] ps)) = ps.map String.ofList := by
  rw [splitSelectors_eq, String.toList_ofList]
  by_cases hne : ps = []
  · rw [hne]
    rfl
  · have htrim : ps.map trim = ps := calc
      ps.map trim = ps.map id := List.map_congr_left fun p hp => (hps p hp).2
      _ = ps := List.map_id ps
    have hfilter : (ps.filter fun p => !p.isEmpty) = ps := by
      rw [List.filter_eq_self]
      intro p hp
      simpa using (hps p hp).1
    rw [h.pieces_intercalate hne, htrim, hfilter]

/-- A marker that can stand before a selector: it begins with no blank, and the scan of it cuts
nothing and leaves neither bracket nor string open. -/
structure IsWhole (marker : List Char) : Prop where
  first : ∃ c ∈ marker.head?, isBlank c = false
  uncut : outside.pieces marker = [marker]
  back : outside.run marker = outside

theorem IsWhole.trim_append {marker p : List Char} (h : IsWhole marker)
    (hlast : ∀ x ∈ p.getLast?, isBlank x = false) (hp : p ≠ []) :
    trim (marker ++ [' '] ++ p) = marker ++ [' '] ++ p := by
  obtain ⟨c, hc, hblank⟩ := h.first
  obtain ⟨rest, rfl⟩ := List.head?_eq_some_iff.1 hc
  apply trim_eq_self
  · intro x hx
    obtain rfl : c = x := by simpa using hx
    exact hblank
  · intro x hx
    rw [List.getLast?_append] at hx
    cases hy : p.getLast? with
    | none => exact absurd (List.getLast?_eq_none_iff.1 hy) hp
    | some y =>
      rw [hy] at hx
      obtain rfl : y = x := Option.some.inj hx
      exact hlast y hy

/-- The selectors of a fallback are those of its rule, each behind the marker: none is lost, none
is added and no two are merged, whatever brackets and strings the last of them leaves open. -/
theorem selectors_fallbackSelector {marker : String} (h : IsWhole marker.toList) (r q : Rule)
    (hq : q.selector = fallbackSelector marker r) :
    q.selectors = r.selectors.map fun s => marker ++ " " ++ s := by
  let kept := ((outside.pieces r.selector.toList).map trim).filter fun p => !p.isEmpty
  let marked := kept.map (marker.toList ++ [' '] ++ ·)
  have hselectors : r.selectors = kept.map String.ofList := splitSelectors_eq r.selector
  have htext : fallbackSelector marker r = String.ofList (List.intercalate [',', ' '] marked) := by
    apply String.toList_injective
    refine Eq.trans ?_ String.toList_ofList.symm
    rw [fallbackSelector, hselectors, String.toList_intercalate, List.map_map, List.map_map]
    apply congrArg (List.intercalate [',', ' '])
    apply List.map_congr_left
    intro p _
    simp
  have hchain : outside.Chain marked := by
    have hspace : outside.run (marker.toList ++ [' ']) = outside := by
      rw [run_append, h.back]
      rfl
    have huncut : outside.Uncut (marker.toList ++ [' ']) :=
      uncut_append.2 ⟨uncut_of_pieces h.uncut, by rw [h.back]; exact ⟨rfl, trivial⟩⟩
    exact (chain_pieces outside r.selector.toList).kept.prefixed huncut hspace
  have hmarked : ∀ p ∈ marked, p ≠ [] ∧ trim p = p := by
    intro p hp
    obtain ⟨s, hs, rfl⟩ := List.mem_map.1 hp
    obtain ⟨hs, hne⟩ := List.mem_filter.1 hs
    obtain ⟨piece, -, rfl⟩ := List.mem_map.1 hs
    refine ⟨by simp, h.trim_append (trim_ends piece).2 ?_⟩
    simpa using hne
  rw [Rule.selectors, hq, htext, splitSelectors_intercalate hchain hmarked, hselectors,
    List.map_map, List.map_map]
  apply List.map_congr_left
  intro p _
  apply String.toList_injective
  simp

/-- A selector list with a blank place in it, whose last selector leaves a bracket and a string
open. -/
def openRule : Rule := { selector := ".a, , [title=\x22x,y, .b" }

theorem selectors_fallbackSelector_open : IsWhole ":is(.ie8, .ie9)".toList ∧
    (⟨fallbackSelector ":is(.ie8, .ie9)" openRule, [], none⟩ : Rule).selectors =
      [":is(.ie8, .ie9) .a", ":is(.ie8, .ie9) [title=\x22x,y, .b"] := by
  have hmarker : IsWhole ":is(.ie8, .ie9)".toList :=
    ⟨⟨':', by decide, by decide⟩, by decide, by decide⟩
  refine ⟨hmarker, ?_⟩
  rw [selectors_fallbackSelector hmarker openRule _ rfl]
  decide

end RasterFallback
