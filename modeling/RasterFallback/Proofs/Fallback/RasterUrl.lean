import RasterFallback.Proofs.Css.Url
import RasterFallback.Proofs.Fallback.Insertion
import RasterFallback.Proofs.Image.Drawing

/-!
The url in a fallback against the name of its raster. The name is put between
the parentheses as it is, so it is read back if and only if every character of
the path stands for itself there. Blanks, opening parentheses and backslashes
do not: a path may hold them where it was quoted or escaped.
-/
namespace RasterFallback
open RasterFallback.Text RasterFallback.Css RasterFallback.Digest

theorem standsInUrl_of_isDigit {c : Char} (h : c.isDigit) : standsInUrl c := by
  have hall : ∀ n < 58, 48 ≤ n → standsInUrl (Char.ofNat n) = true := by decide
  have hc : 48 ≤ c.toNat ∧ c.toNat ≤ 57 := by
    simpa [Char.isDigit, UInt32.le_iff_toNat_le] using h
  rw [← Char.ofNat_toNat c]
  exact hall c.toNat (by omega) hc.1

theorem standsInUrl_hexDigit {n : Nat} (h : n < 16) : standsInUrl (hexDigit n) := by
  have hall : ∀ n < 16, standsInUrl (hexDigit n) = true := by decide
  exact hall n h

theorem standsInUrl_contentHash {markup : String} {c : Char} (h : c ∈ (contentHash markup).toList) :
    standsInUrl c := by
  rw [contentHash, String.toList_ofList, hexDigits, List.mem_flatMap] at h
  obtain ⟨b, -, hc⟩ := h
  have hb := b.toNat_lt
  rcases List.mem_cons.1 hc with rfl | hc
  · exact standsInUrl_hexDigit (by omega)
  · obtain rfl := List.mem_singleton.1 hc
    exact standsInUrl_hexDigit (by omega)

theorem isDigit_of_mem_toString {n : Nat} {c : Char} (h : c ∈ (toString n).toList) :
    c.isDigit = true := by
  have hdigit : c ∈ Nat.toDigits 10 n := by simpa using h
  exact Nat.isDigit_of_mem_toDigits (by decide) (by decide) hdigit

/-- Every size is written in characters that stand for themselves in a url. -/
theorem standsInUrl_ending {s : Size} {c : Char} (h : c ∈ s.ending) : standsInUrl c := by
  have hpng : ∀ c ∈ ".png".toList, standsInUrl c := List.all_eq_true.1 (by decide)
  rcases List.mem_append.1 h with h | h
  · rcases List.mem_append.1 h with h | h
    · rcases List.mem_cons.1 h with rfl | h
      · rfl
      · exact standsInUrl_of_isDigit (isDigit_of_mem_toString h)
    · rcases List.mem_cons.1 h with rfl | h
      · rfl
      · exact standsInUrl_of_isDigit (isDigit_of_mem_toString h)
  · exact hpng c h

theorem breaksPath_of_standsInUrl {c : Char} (h : standsInUrl c) : breaksPath c = false := by
  simp only [standsInUrl, breaksUrl, Bool.not_eq_true', Bool.or_eq_false_iff] at h
  simp [breaksPath, h.1.1.1.1, h.1.1.2.1.1.1.1.1.1, h.1.1.2.1.1.1.1.1.2]

/-- The stem of a raster name holds neither a quote mark nor a closing parenthesis. -/
theorem breaksPath_stem {marker : String} {r : Rule} {d : ImageDescriptor}
    (h : r.image? marker = some d) : ∀ c ∈ d.source.stem, breaksPath c = false := by
  intro c hc
  cases hsource : d.source with
  | inline markup =>
    rw [hsource] at hc
    exact breaksPath_of_standsInUrl (standsInUrl_contentHash hc)
  | file path =>
    obtain ⟨stem, -, hpath, hstem⟩ := Rule.stem_of_image? h hsource
    have hbefore : before? svgEnding path.toList = some stem := before?_eq_some.2 hpath
    rw [hsource, ImageSource.stem, hbefore] at hc
    exact hstem c hc

theorem toList_rasterName (d : ImageDescriptor) :
    d.rasterName.toList = d.source.stem ++ d.size.ending := String.toList_ofList

theorem getLast?_ending (s : Size) : s.ending.getLast? = some 'g' := by
  rw [Size.ending, List.getLast?_append]
  rfl

/-- No parenthesis in a raster name closes a url early, and none behind it is escaped. -/
theorem openUrl_rasterName {marker : String} {r : Rule} {d : ImageDescriptor}
    (h : r.image? marker = some d) :
    OpenUrl d.rasterName.toList ∧ Unquoted d.rasterName.toList := by
  have hchars : ∀ c ∈ d.rasterName.toList, breaksPath c = false := by
    intro c hc
    rw [toList_rasterName] at hc
    rcases List.mem_append.1 hc with hc | hc
    · exact breaksPath_stem h c hc
    · exact breaksPath_of_standsInUrl (standsInUrl_ending hc)
  refine ⟨⟨fun hmem => ?_, ?_⟩, fun c hc => ?_⟩
  · exact absurd (hchars ')' hmem) (by decide)
  · rw [toList_rasterName, List.getLast?_append, getLast?_ending]
    simp
  · have hc := hchars c hc
    simp only [breaksPath, Bool.or_eq_false_iff, beq_eq_false_iff_ne] at hc
    exact ⟨hc.1.2, hc.1.1⟩

theorem rasterUrl_eq (name : String) :
    "url(" ++ name ++ ")" = String.ofList ('u' :: 'r' :: 'l' :: '(' :: (name.toList ++ [')'])) := by
  apply String.toList_injective
  simp

theorem standsInUrl_rasterName_iff {marker : String} {r : Rule} {d : ImageDescriptor}
    (h : r.image? marker = some d) :
    (∀ c ∈ d.rasterName.toList, standsInUrl c) ↔
      ∀ path, d.source = .file path → ∀ c ∈ path.toList, standsInUrl c := by
  have hname : (∀ c ∈ d.rasterName.toList, standsInUrl c) ↔ ∀ c ∈ d.source.stem, standsInUrl c := by
    rw [toList_rasterName]
    constructor
    · exact fun hall c hc => hall c (List.mem_append_left _ hc)
    · intro hall c hc
      rcases List.mem_append.1 hc with hc | hc
      · exact hall c hc
      · exact standsInUrl_ending hc
  rw [hname]
  cases hsource : d.source with
  | inline markup =>
    constructor
    · exact fun _ path hpath => by cases hpath
    · exact fun _ c hc => standsInUrl_contentHash hc
  | file path =>
    obtain ⟨stem, -, hpath, -⟩ := Rule.stem_of_image? h hsource
    have hbefore : before? svgEnding path.toList = some stem := before?_eq_some.2 hpath
    have hsvg : ∀ c ∈ svgEnding, standsInUrl c := List.all_eq_true.1 (by decide)
    rw [ImageSource.stem, hbefore, Option.getD_some]
    constructor
    · rintro hall p hp c hc
      obtain rfl := ImageSource.file.inj hp
      rw [hpath] at hc
      rcases List.mem_append.1 hc with hc | hc
      · exact hall c hc
      · exact hsvg c hc
    · intro hall c hc
      exact hall path rfl c (hpath ▸ List.mem_append_left _ hc)

/-- The one declaration of a fallback is read back as the name of the raster that is made, and
as nothing else, exactly if the path of the drawing, if it has one, holds only characters that
stand for themselves in an unquoted url. -/
theorem urlArguments_fallback_iff {marker : String} {r : Rule} {d : ImageDescriptor}
    (h : r.image? marker = some d) :
    ∃ e, (fallbackRule marker r d d.rasterName).declarations = [e] ∧
      (urlArguments e.value = [(r.task d).imageName] ↔
        ∀ path, d.source = .file path → ∀ c ∈ path.toList, standsInUrl c) := by
  obtain ⟨hopen, hquotes⟩ := openUrl_rasterName h
  refine ⟨_, rfl, ?_⟩
  rw [rasterUrl_eq, urlArguments_url hopen hquotes, ← standsInUrl_rasterName_iff h,
    ← unquoted?_eq_self_iff]
  show _ = [d.rasterName] ↔ _
  cases hu : unquoted? d.rasterName.toList with
  | none => simp
  | some u =>
    simp only [Option.map_some, Option.toList_some, List.cons.injEq, and_true, Option.some.injEq]
    rw [← String.toList_inj, String.toList_ofList]

theorem urlArguments_fallback_icon :
    iconRule.image? ".no-svg" = some iconDescriptor ∧
      ∃ e, (fallbackRule ".no-svg" iconRule iconDescriptor iconDescriptor.rasterName).declarations =
        [e] ∧ urlArguments e.value = [(iconRule.task iconDescriptor).imageName] := by
  obtain ⟨e, he, hiff⟩ := urlArguments_fallback_iff iconRule_image?
  refine ⟨iconRule_image?, e, he, hiff.2 fun path hpath => ?_⟩
  obtain rfl := ImageSource.file.inj hpath
  exact List.all_eq_true.1 (by decide)

/-- A rule that shows a drawing whose path holds a space. -/
def spacedRule : Rule :=
  ⟨".a", [⟨"background", "url(\x22a b.svg\x22)", false, none⟩,
    ⟨"background-size", "20px", false, none⟩], none⟩

def spacedDescriptor : ImageDescriptor := ⟨.file "a b.svg", ⟨20, 20⟩, none⟩

/-- A space in a path breaks the url of the fallback off. -/
theorem urlArguments_fallback_spaced :
    spacedRule.image? ".no-svg" = some spacedDescriptor ∧
      (spacedRule.task spacedDescriptor).imageName = "a b-20x20.png" ∧
      (fallbackRule ".no-svg" spacedRule spacedDescriptor spacedDescriptor.rasterName).declarations =
        [⟨"background-image", "url(a b-20x20.png)", false, none⟩] ∧
      urlArguments "url(a b-20x20.png)" = [] := by
  decide +kernel

end RasterFallback
