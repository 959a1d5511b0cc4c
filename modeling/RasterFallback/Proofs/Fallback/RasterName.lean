import RasterFallback.Proofs.Fallback.RasterUrl

/-!
Which drawings share the name of a raster. The size is read back from the end of
a name, whatever the stem looks like: the digits of the height end at the last
`x` of the name and those of the width at the last dash before it. The stem gives
back the path, since every path has the ending that its stem lacks.
-/
namespace RasterFallback
open RasterFallback.Text

/-- A run of `p` at the end of a list is found from the end: the last member without `p`
cuts the list. -/
theorem append_cons_inj_of_all {α : Type} {p : α → Prop} {x : α} (hx : ¬p x)
    {s t ds es : List α} (hds : ∀ a ∈ ds, p a) (hes : ∀ a ∈ es, p a)
    (h : s ++ x :: ds = t ++ x :: es) : s = t ∧ ds = es := by
  rcases List.append_eq_append_iff.1 h with ⟨u, rfl, hu⟩ | ⟨u, rfl, hu⟩
  · cases u with
    | nil => simpa using hu
    | cons y u =>
      obtain ⟨-, hmem⟩ := List.cons.inj hu
      exact absurd (hds x (hmem ▸ by simp)) hx
  · cases u with
    | nil => simpa [eq_comm] using hu
    | cons y u =>
      obtain ⟨-, hmem⟩ := List.cons.inj hu
      exact absurd (hes x (hmem ▸ by simp)) hx

theorem toList_toString_inj {m n : Nat} (h : (toString m).toList = (toString n).toList) :
    m = n := by
  have hdigits : Nat.toDigits 10 m = Nat.toDigits 10 n := by simpa using h
  calc
    m = Nat.ofDigitChars 10 (Nat.toDigits 10 m) 0 := Nat.ofDigitChars_ten_toDigits.symm
    _ = Nat.ofDigitChars 10 (Nat.toDigits 10 n) 0 := by rw [hdigits]
    _ = n := Nat.ofDigitChars_ten_toDigits

/-- A number behind a separator is read back from the end of a text. -/
theorem append_number_inj {x : Char} (hx : x.isDigit = false) {s t : List Char} {m n : Nat}
    (h : s ++ x :: (toString m).toList = t ++ x :: (toString n).toList) : s = t ∧ m = n := by
  obtain ⟨hst, hmn⟩ := append_cons_inj_of_all (p := fun c => c.isDigit = true) (by simp [hx])
    (fun _ => isDigit_of_mem_toString) (fun _ => isDigit_of_mem_toString) h
  exact ⟨hst, toList_toString_inj hmn⟩

/-- Stem and size are read back from a name, also if the stem itself ends like a name. -/
theorem append_ending_inj {s t : List Char} {m n : Size} (h : s ++ m.ending = t ++ n.ending) :
    s = t ∧ m = n := by
  obtain ⟨w, v⟩ := m
  obtain ⟨w', v'⟩ := n
  have hnumbers : (s ++ '-' :: (toString w).toList) ++ 'x' :: (toString v).toList =
      (t ++ '-' :: (toString w').toList) ++ 'x' :: (toString v').toList := by
    apply List.append_cancel_right
    simpa [Size.ending] using h
  obtain ⟨hwidth, rfl⟩ := append_number_inj (by decide) hnumbers
  obtain ⟨rfl, rfl⟩ := append_number_inj (by decide) hwidth
  exact ⟨rfl, rfl⟩

/-- Two drawings whose rasters share a name wherever they have the same size. -/
inductive ImageSource.NamedAlike : ImageSource → ImageSource → Prop
  | files (path : String) : NamedAlike (.file path) (.file path)
  | inlines {markup markup' : String} (h : contentHash markup = contentHash markup') :
      NamedAlike (.inline markup) (.inline markup')
  | inlineFile (markup : String) :
      NamedAlike (.inline markup) (.file (contentHash markup ++ ".svg"))
  | fileInline (markup : String) :
      NamedAlike (.file (contentHash markup ++ ".svg")) (.inline markup)

namespace ImageSource

/-- The path of a drawing has the ending that its stem lacks. Markup has no path. -/
def HasEnding : ImageSource → Prop
  | .file path => svgEnding <:+ path.toList
  | .inline _ => True

theorem HasEnding.toList_file {path : String} (h : (file path).HasEnding) :
    path.toList = (file path).stem ++ svgEnding := by
  obtain ⟨stem, hstem⟩ := h
  have hbefore : before? svgEnding path.toList = some stem := before?_eq_some.2 hstem.symm
  rw [ImageSource.stem, hbefore, Option.getD_some, hstem]

theorem stem_file_append (name : String) : (file (name ++ ".svg")).stem = name.toList := by
  have hbefore : before? svgEnding (name ++ ".svg").toList = some name.toList :=
    before?_eq_some.2 (by simp [svgEnding])
  rw [ImageSource.stem, hbefore, Option.getD_some]

/-- A file has the stem of a markup if it is called by its hash. -/
theorem HasEnding.stem_eq_iff {path markup : String} (h : (file path).HasEnding) :
    (file path).stem = (inline markup).stem ↔ path = contentHash markup ++ ".svg" := by
  constructor
  · intro hstem
    apply String.toList_injective
    rw [h.toList_file, hstem]
    simp [ImageSource.stem, svgEnding]
  · rintro rfl
    exact stem_file_append _

theorem stem_eq_iff {a b : ImageSource} (ha : a.HasEnding) (hb : b.HasEnding) :
    a.stem = b.stem ↔ a.NamedAlike b := by
  constructor
  · intro h
    cases a with
    | file path =>
      cases b with
      | file path' =>
        obtain rfl : path = path' := by
          apply String.toList_injective
          rw [ha.toList_file, hb.toList_file, h]
        exact .files path
      | inline markup =>
        obtain rfl := ha.stem_eq_iff.1 h
        exact .fileInline markup
    | inline markup =>
      cases b with
      | file path =>
        obtain rfl := hb.stem_eq_iff.1 h.symm
        exact .inlineFile markup
      | inline markup' => exact .inlines (String.toList_injective h)
  · rintro (path | hhash | markup | markup)
    · rfl
    · exact congrArg String.toList hhash
    · exact (stem_file_append _).symm
    · exact stem_file_append _

end ImageSource

theorem Rule.hasEnding_of_image? {marker : String} {r : Rule} {d : ImageDescriptor}
    (h : r.image? marker = some d) : d.source.HasEnding := by
  cases hsource : d.source with
  | file path =>
    obtain ⟨stem, -, hpath, -⟩ := Rule.stem_of_image? h hsource
    exact ⟨stem, hpath.symm⟩
  | inline markup => trivial

/-- The rasters of two drawings, each shown by some rule, have one name if and only if their
sizes are equal and they come from one path, from markup with one hash, or the one from
markup and the other from the file that is called by the hash of it. -/
theorem rasterName_eq_iff {marker marker' : String} {r r' : Rule} {d d' : ImageDescriptor}
    (h : r.image? marker = some d) (h' : r'.image? marker' = some d') :
    d.rasterName = d'.rasterName ↔ d.size = d'.size ∧ d.source.NamedAlike d'.source := by
  rw [← ImageSource.stem_eq_iff (Rule.hasEnding_of_image? h) (Rule.hasEnding_of_image? h'),
    ← String.toList_inj, toList_rasterName, toList_rasterName]
  constructor
  · intro hname
    obtain ⟨hstem, hsize⟩ := append_ending_inj hname
    exact ⟨hsize, hstem⟩
  · rintro ⟨hsize, hstem⟩
    rw [hsize, hstem]

/-- A rule that shows markup. -/
def markupRule : Rule :=
  ⟨".a", [⟨"background", "url(data:image/svg+xml,%3Csvg/%3E)", false, none⟩,
    ⟨"background-size", "20px", false, none⟩], none⟩

/-- A rule that shows the file that is called by the hash of that markup. -/
def hashRule : Rule :=
  ⟨".b", [⟨"background-size", "20px 20px", false, none⟩,
    ⟨"background-image",
      "url(d4dc56669143034f31aa309635d4113d9ad76a02b1739da22c965ed2049be9e6.svg)", false, none⟩],
    none⟩

theorem rasterName_markup_file :
    markupRule.image? ".no-svg" = some ⟨.inline "<svg/>", ⟨20, 20⟩, none⟩ ∧
      hashRule.image? ".no-svg" =
        some ⟨.file (contentHash "<svg/>" ++ ".svg"), ⟨20, 20⟩, none⟩ ∧
      ImageDescriptor.rasterName ⟨.inline "<svg/>", ⟨20, 20⟩, none⟩ =
        ImageDescriptor.rasterName ⟨.file (contentHash "<svg/>" ++ ".svg"), ⟨20, 20⟩, none⟩ := by
  have hmarkup : markupRule.image? ".no-svg" = some ⟨.inline "<svg/>", ⟨20, 20⟩, none⟩ := by
    decide +kernel
  have hfile : hashRule.image? ".no-svg" =
      some ⟨.file (contentHash "<svg/>" ++ ".svg"), ⟨20, 20⟩, none⟩ := by
    decide +kernel
  exact ⟨hmarkup, hfile, (rasterName_eq_iff hmarkup hfile).2 ⟨rfl, .inlineFile "<svg/>"⟩⟩

end RasterFallback
