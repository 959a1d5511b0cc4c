import RasterFallback.Image.Source
import RasterFallback.Proofs.Css.Seam

/-!
Layers of a background. Values joined by a comma and a blank mention the urls of the one and then
those of the other, if the first leaves nothing open; so the first layer with a data url gives the
drawing, and without one the first path does.
-/
namespace RasterFallback
open RasterFallback.Text RasterFallback.Css

section Urls

theorem soleString?_unplaced (cs : Components) : soleString? cs.unplaced = soleString? cs := by
  unfold soleString?
  rw [Components.skipSpace_unplaced]
  cases cs.skipSpace with
  | nil => rfl
  | leaf l rest =>
    simp only [Components.unplaced, Lexeme.unplaced_token,
      Components.skipSpace_unplaced]
    cases l.token <;> cases rest.skipSpace <;> rfl
  | block => rfl

/-- Where components stand does not matter for the urls in them. -/
theorem urlsOf_unplaced (cs : Components) : urlsOf cs.unplaced = urlsOf cs := by
  induction cs with
  | nil => rfl
  | leaf l rest ih => simp only [Components.unplaced, urlsOf, Lexeme.unplaced_token, ih]
  | block opener inner closer rest ihi ihr =>
    simp only [Components.unplaced, urlsOf, Lexeme.unplaced_token, soleString?_unplaced, ihi, ihr]

theorem urlsOf_append (cs ds : Components) : urlsOf (cs.append ds) = urlsOf cs ++ urlsOf ds := by
  induction cs with
  | nil => rfl
  | leaf l rest ih =>
    rw [Components.leaf_append, urlsOf, urlsOf, ih]
    split <;> rfl
  | block opener inner closer rest _ ih =>
    rw [Components.block_append, urlsOf, urlsOf, ih]
    split <;> simp

/-- A token that is neither a url nor a bracket mentions none. -/
theorem urlsOf_leaf {l : Lexeme} (h : l.token.isFlat) (rest : Components) :
    urlsOf (.leaf l rest) = urlsOf rest := by
  rw [urlsOf]
  split
  · rename_i url hl
    rw [hl] at h
    cases h
  · rfl

theorem urlsOf_ofText (s : List Char) :
    urlsOf (Components.ofText s) = urlsOf (Components.group .first (spelled s) []).1 := by
  rw [spelled, Components.group_unplaced (Position.first.after s), Components.ofText,
    urlsOf_unplaced]

theorem urlsOf_group_append {cs : Components} (h : cs.Closed none) (ls : List Lexeme) :
    urlsOf (Components.group .first (cs.lexemes.map Lexeme.unplaced ++ ls) []).1 =
      urlsOf cs ++ urlsOf (Components.group .first ls []).1 := by
  have hgroup := @Components.group_append cs [] h ls
  rw [← Components.lexemes_unplaced, hgroup, urlsOf_append, urlsOf_unplaced]

theorem urlsOf_group_flat {l : Lexeme} (h : l.token.isFlat) (ls : List Lexeme) :
    urlsOf (Components.group .first (l :: ls) []).1 =
      urlsOf (Components.group .first ls []).1 := by
  have hopens : l.token.opens? = none := by
    simp only [Token.isFlat, Bool.and_eq_true, Option.isNone_iff_eq_none] at h
    exact h.1.1
  rw [Components.group_leaf .first ls hopens (by simp), urlsOf_leaf h]

theorem urlsOf_comma (s : List Char) :
    urlsOf (Components.ofText (',' :: s)) = urlsOf (Components.ofText s) := by
  have hread : Token.read ',' s = (.comma, s) := by
    simp [Token.read, isAsciiBlank, isNewline, startsNumber, startsDigit, fraction?]
  rw [urlsOf_ofText, spelled_cons, hread, urlsOf_group_flat rfl, ← urlsOf_ofText]

theorem urlsOf_dropBlanks (s : List Char) :
    urlsOf (Components.ofText (s.dropWhile isAsciiBlank)) = urlsOf (Components.ofText s) := by
  cases s with
  | nil => rfl
  | cons c s =>
    by_cases hc : isAsciiBlank c = true
    · rw [List.dropWhile_cons_of_pos hc, urlsOf_ofText (c :: s), spelled_cons, Token.read_blank hc,
        urlsOf_group_flat rfl, ← urlsOf_ofText]
    · rw [List.dropWhile_cons_of_neg hc]

theorem urlsOf_blank {c : Char} (hc : isAsciiBlank c) (s : List Char) :
    urlsOf (Components.ofText (c :: s)) = urlsOf (Components.ofText s) := by
  rw [← urlsOf_dropBlanks (c :: s), List.dropWhile_cons_of_pos hc, urlsOf_dropBlanks]

/-- The urls of a text that leaves nothing open come before those behind a comma and a blank. -/
theorem urlsOf_append_comma {a : List Char} (h : (Components.ofText a).IsEnded) (b : List Char) :
    urlsOf (Components.ofText (a ++ ',' :: ' ' :: b)) =
      urlsOf (Components.ofText a) ++ urlsOf (Components.ofText b) := by
  have hclosed : (Components.ofText a).Closed none :=
    Components.Formed.closed_of_isShut (Components.formed_group ..) h.shut
  have ha : spelled a = (Components.ofText a).lexemes.map Lexeme.unplaced := by
    rw [Components.lexemes_ofText, spelled]
  rw [urlsOf_ofText (a ++ _)]
  rcases spelled_append_of_isEnded (x := ',') (y := ' ') rfl h rfl b with hjoin |
    ⟨front, l, t, hlast, hl, ht, hjoin⟩
  · rw [hjoin, ha, urlsOf_group_append hclosed, ← urlsOf_ofText, urlsOf_comma,
      urlsOf_blank (by decide)]
  · -- The name at the end mentions no url, and none with the comma that it takes.
    obtain ⟨fs, ks, hlexemes, rfl, hk⟩ := List.map_eq_append_iff.1 (ha ▸ hlast)
    obtain ⟨k, rfl, rfl⟩ := List.map_eq_singleton_iff.1 hk
    obtain ⟨ds, p, hds, rfl, hcs⟩ := hclosed.exists_append_leaf hlexemes hl
    rw [hjoin, urlsOf_group_append hds, urlsOf_group_flat ht, ← urlsOf_ofText,
      urlsOf_blank (by decide), hcs, urlsOf_append, urlsOf_leaf (l := k) hl, urlsOf,
      List.append_nil]

end Urls

/-- Some url of the value is a data url that holds a drawing. -/
def HoldsDataUrl (value : String) : Prop := ∃ url ∈ urlArguments value, (dataUrl? url.toList).isSome

/-- The drawing that the first path in the value names. -/
def firstPath? (value : String) : Option ImageSource :=
  ((urlArguments value).findSome? fun u => filePath? u.toList).map fun p => .file (String.ofList p)

theorem holdsDataUrl_iff (value : String) : HoldsDataUrl value ↔
    ((urlArguments value).findSome? fun u => dataUrl? u.toList).isSome := by
  rw [HoldsDataUrl, List.findSome?_isSome_iff]

theorem not_holdsDataUrl_iff (value : String) : ¬HoldsDataUrl value ↔
    ((urlArguments value).findSome? fun u => dataUrl? u.toList) = none := by
  rw [holdsDataUrl_iff, Option.not_isSome_iff_eq_none]

/-- The first data url decides, whatever stands behind it. -/
theorem imageOfUrls?_append_of_holdsDataUrl {value : String} (h : HoldsDataUrl value)
    (urls : List String) :
    imageOfUrls? (urlArguments value ++ urls) = imageOfUrls? (urlArguments value) := by
  obtain ⟨d, hd⟩ := Option.isSome_iff_exists.1 ((holdsDataUrl_iff value).1 h)
  rw [imageOfUrls?, imageOfUrls?, List.findSome?_append, hd]
  rfl

/-- Urls before a data url do not matter, if none of them is one. -/
theorem imageOfUrls?_append_of_not_holdsDataUrl {a b : String} (ha : ¬HoldsDataUrl a)
    (hb : HoldsDataUrl b) :
    imageOfUrls? (urlArguments a ++ urlArguments b) = imageOfUrls? (urlArguments b) := by
  obtain ⟨d, hd⟩ := Option.isSome_iff_exists.1 ((holdsDataUrl_iff b).1 hb)
  rw [imageOfUrls?, imageOfUrls?, List.findSome?_append, (not_holdsDataUrl_iff a).1 ha, hd]
  rfl

/-- Layers of a background are read apart from each other. If the first leaves no comment, string,
url or bracket open, the urls of both are those of the first and then those of the second. A data
url in the first decides, or else one in the second; without any the first path in the first
counts, or else the first in the second. -/
theorem backgroundImage?_layers {a : String} (h : (Components.ofText a.toList).IsEnded)
    (b : String) :
    urlArguments (a ++ ", " ++ b) = urlArguments a ++ urlArguments b ∧
      (HoldsDataUrl a → backgroundImage? (a ++ ", " ++ b) = backgroundImage? a) ∧
      (¬HoldsDataUrl a → HoldsDataUrl b → backgroundImage? (a ++ ", " ++ b) = backgroundImage? b) ∧
      (¬HoldsDataUrl a → ¬HoldsDataUrl b →
        backgroundImage? (a ++ ", " ++ b) = (firstPath? a).or (firstPath? b)) := by
  have hurls : urlArguments (a ++ ", " ++ b) = urlArguments a ++ urlArguments b := by
    have htext : (a ++ ", " ++ b).toList = a.toList ++ ',' :: ' ' :: b.toList := by simp
    rw [urlArguments, htext, urlsOf_append_comma h]
    rfl
  rw [backgroundImage?, hurls]
  refine ⟨rfl, fun ha => ?_, fun ha hb => ?_, fun ha hb => ?_⟩
  · exact imageOfUrls?_append_of_holdsDataUrl ha _
  · exact imageOfUrls?_append_of_not_holdsDataUrl ha hb
  · rw [imageOfUrls?, List.findSome?_append, (not_holdsDataUrl_iff a).1 ha,
      (not_holdsDataUrl_iff b).1 hb, firstPath?, firstPath?, ← Option.map_or, List.findSome?_append]
    rfl

/-- Functions in functions, a bracket that closes nothing and a backslash at the end. -/
def imageSet : String :=
  "] image-set(url(a.png) 1x, cross-fade(url(\x22b.svg\x22), 40%)) \x7burl(n.svg)\x7d x\\"

theorem backgroundImage?_layers_imageSet :
    (Components.ofText imageSet.toList).IsEnded ∧
      urlArguments (imageSet ++ ", " ++ "url(c.svg)") = ["a.png", "b.svg", "c.svg"] ∧
      backgroundImage? (imageSet ++ ", " ++ "url(c.svg)") = some (.file "b.svg") := by
  have hshut : (Components.ofText imageSet.toList).isShut ∧
      ∀ l ∈ (Components.ofText imageSet.toList).lexemes.getLast?, l.token.isEnclosed = false := by
    decide +kernel
  have hended := Components.isEnded_ofText_of_last hshut.1 hshut.2
  obtain ⟨hurls, -, -, hpath⟩ := backgroundImage?_layers hended "url(c.svg)"
  have ha : urlArguments imageSet = ["a.png", "b.svg"] := by decide +kernel
  have hb : urlArguments "url(c.svg)" = ["c.svg"] := by decide +kernel
  refine ⟨hended, by rw [hurls, ha, hb]; rfl, ?_⟩
  rw [hpath]
  · decide +kernel
  · rw [not_holdsDataUrl_iff, ha]
    decide +kernel
  · rw [not_holdsDataUrl_iff, hb]
    decide +kernel

end RasterFallback
