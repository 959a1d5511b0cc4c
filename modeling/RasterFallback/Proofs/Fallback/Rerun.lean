import RasterFallback.Conversion.Pipeline
import RasterFallback.Conversion.Scripted
import RasterFallback.Proofs.Fallback.Positions
import RasterFallback.Proofs.Fallback.RasterUrl
import RasterFallback.Proofs.Stylesheet.Rereading

/-!
A run over the text that a run has made. Of a readable stylesheet whose fallbacks get
readable selector lists, all but the urls of the rasters is sure to be read back: the
names in them are written as they are, and a blank in a name breaks its url off.
-/
namespace RasterFallback
open RasterFallback.Text RasterFallback.Css RasterFallback.Css.Components

theorem trimEnd_paren (s : List Char) : trimEnd (s ++ [')']) = s ++ [')'] := by
  rw [trimEnd, dropEndWhile_concat, if_neg (by decide)]

theorem trim_paren (s : List Char) : trim (s ++ [')']) = s.dropWhile isBlank ++ [')'] := by
  rw [trim, trimStart, dropWhile_append_cons (by decide), trimEnd_paren]

/-- What ends with a parenthesis does not end with `!important`. -/
theorem splitImportant_paren {s t : List Char} (h : trim (s ++ [')']) = t ++ [')']) :
    splitImportant (s ++ [')']) = (t ++ [')'], false) := by
  rw [splitImportant, h]
  split
  · rename_i before behind hsplit
    obtain ⟨u, rfl⟩ : ∃ u, behind = u ++ [')'] := by
      rw [splitLastBang?] at hsplit
      simp only [List.reverse_append, List.reverse_singleton, List.singleton_append] at hsplit
      split at hsplit
      · obtain ⟨-, rfl⟩ := Prod.mk.inj (Option.some.inj hsplit)
        exact ⟨_, List.reverse_cons⟩
      · cases hsplit
    rw [if_neg]
    intro himportant
    have hlast := congrArg List.getLast? himportant
    rw [trim_paren, lowerAscii, List.map_append, List.getLast?_append] at hlast
    exact absurd (show some ')' = some 't' from hlast) (by decide)
  · rfl

/-- The declaration that shows the raster `name`. -/
def rasterDeclaration (name : String) : Declaration :=
  ⟨"background-image", "url(" ++ name ++ ")", false, none⟩

/-- A declaration with a raster is read as itself unless its url is broken off. -/
theorem readsAs_rasterDeclaration {name : String} (hopen : OpenUrl name.toList)
    (hquotes : Unquoted name.toList) :
    ReadsAs declarations? (rasterDeclaration name).text
      (onlyIf (unquoted? name.toList).isSome [rasterDeclaration name]) := by
  intro rest pending _
  have htext : (rasterDeclaration name).text ++ rest = 'b' :: ("ackground-image".toList ++
      ':' :: ' ' :: 'u' :: ('r' :: 'l' :: '(' :: (name.toList ++ [')']) ++ ';' :: rest)) := by
    simp [Declaration.text, Declaration.tail, rasterDeclaration]
  have hspace (w : List Char) : grouped pending (' ' :: 'u' :: w) =
      (leaf ⟨.whitespace " ", [' '], .first⟩ (grouped pending ('u' :: w)).1,
        (grouped pending ('u' :: w)).2) :=
    grouped_token pending (s := []) (by simp [Token.read, isAsciiBlank, isNewline]) rfl rfl
  have hurl {t : Token} (ht : urlToken (.function "url") (name.toList ++ ')' :: ';' :: rest) =
      (t, ';' :: rest)) (ho : t.opens? = none) (hc : t.closes? = none) :
      grouped pending ('u' :: ('r' :: 'l' :: '(' :: (name.toList ++ [')']) ++ ';' :: rest)) =
        (leaf ⟨t, 'u' :: 'r' :: 'l' :: '(' :: (name.toList ++ [')']), .first⟩
          (grouped pending (';' :: rest)).1, (grouped pending (';' :: rest)).2) := by
    refine grouped_token pending ?_ ho hc
    rw [← ht, ← read_url]
    simp
  have hsplit : splitImportant (' ' :: 'u' :: 'r' :: 'l' :: '(' :: (name.toList ++ [')'])) =
      ('u' :: 'r' :: 'l' :: '(' :: (name.toList ++ [')']), false) :=
    splitImportant_paren (s := ' ' :: 'u' :: 'r' :: 'l' :: '(' :: name.toList)
      (trim_paren _)
  rw [htext, grouped_token pending (read_plainName (by decide) rfl _) rfl rfl, grouped_colon, hspace]
  rcases urlToken_settled hopen hquotes (.function "url") with ⟨u, hu, ht⟩ | ⟨hu, b, ht⟩
  · rw [hurl (ht _) rfl rfl, grouped_semicolon, hu]
    refine ⟨?_, rfl⟩
    rw [declarations?_leaf]
    simp only [colon?_colon, Option.bind_some, value?_leaf]
    simp only [reduceCtorEq, ↓reduceIte, Token.isBad, Bool.false_eq_true, Option.map_some,
      Option.bind_some, List.append_nil, List.cons_append, List.nil_append, hsplit, ← rasterUrl_eq]
    cases declarations? (grouped pending rest).1 <;> rfl
  · rw [hurl (ht _) rfl rfl, grouped_semicolon, hu]
    refine ⟨?_, rfl⟩
    rw [declarations?_leaf]
    simp only [colon?_colon, Option.bind_some, value?_leaf]
    simp only [reduceCtorEq, ↓reduceIte, Token.isBad, Bool.false_eq_true, Option.map_none,
      Option.bind_none]
    rfl

/-- The declaration can be read back. -/
def Declaration.isSound (d : Declaration) : Bool := (declarations? (grouped [] d.text).1).isSome

theorem readsIfSound_isSound {d : Declaration} {b : Bool}
    (h : ReadsAs declarations? d.text (onlyIf b [d.unplaced])) :
    ReadsIfSound Declaration.isSound d ∧ d.isSound = b := by
  have hsound : d.isSound = b := by
    have halone := (h [] [] (List.forall_mem_nil _)).1
    rw [List.append_nil, grouped_nil, declarations?_nil, joined_end] at halone
    rw [Declaration.isSound, halone]
    cases b <;> rfl
  exact ⟨by rw [ReadsIfSound, hsound]; exact h, hsound⟩

theorem isSound_raster {marker : String} {r : Rule} {i : ImageDescriptor} {d : Declaration}
    (hr : r.image? marker = some i) (hd : d.unplaced = rasterDeclaration i.rasterName) :
    ReadsIfSound Declaration.isSound d ∧ d.isSound = (unquoted? i.rasterName.toList).isSome := by
  obtain ⟨hopen, hquotes⟩ := openUrl_rasterName hr
  refine readsIfSound_isSound ?_
  show ReadsAs declarations? d.unplaced.text _
  rw [hd]
  exact readsAs_rasterDeclaration hopen hquotes

section Completed

variable {marker : String}

theorem headsReadableIn_append (ms ns : List Node) :
    headsReadableIn (ms ++ ns) = (headsReadableIn ms && headsReadableIn ns) := by
  induction ms with
  | nil => rfl
  | cons m ms ih => rw [List.cons_append, headsReadableIn, headsReadableIn, ih, Bool.and_assoc]

theorem declarationsIn_append (ms ns : List Node) :
    declarationsIn (ms ++ ns) = declarationsIn ms ++ declarationsIn ns := by
  induction ms with
  | nil => rfl
  | cons m ms ih => rw [List.cons_append, declarationsIn, declarationsIn, ih, List.append_assoc]

/-- The fallback of every rule that shows a drawing gets a readable selector list. -/
def FallbacksReadable (marker : String) (rs : List Rule) : Prop :=
  ∀ r ∈ rs, (r.image? marker).isSome → isReadableSelector (fallbackSelector marker r)

mutual

theorem Node.headsReadable_completed : ∀ n : Node, FallbacksReadable marker n.rules →
    n.headsReadable → (n.completed marker).headsReadable
  | .group _ nodes, hf, hn => by
    simp only [Node.headsReadable, Bool.and_eq_true, Node.completed] at hn ⊢
    exact ⟨hn.1, headsReadableIn_completed nodes hf hn.2⟩
  | .rule _, _, hn => hn
  | .comment _, _, hn => hn
  | .statement _, _, hn => hn
  | .descriptors _ _, _, hn => hn

theorem headsReadableIn_completed : ∀ ns : List Node, FallbacksReadable marker (rulesOf ns) →
    headsReadableIn ns → headsReadableIn (completedNodes marker ns)
  | [], _, _ => rfl
  | n :: ns, hf, hns => by
    simp only [FallbacksReadable, rulesOf, List.mem_append] at hf
    simp only [headsReadableIn, Bool.and_eq_true] at hns
    have hn := n.headsReadable_completed (fun r hr => hf r (.inl hr)) hns.1
    have hrest := headsReadableIn_completed ns (fun r hr => hf r (.inr hr)) hns.2
    rw [completedNodes_cons, headsReadableIn, headsReadableIn_append, hn, hrest]
    cases hnew : n.newFallback? marker ns.head? with
    | none => rfl
    | some f =>
      obtain ⟨r, i, rfl, hi, rfl⟩ := Node.exists_of_newFallback? marker hnew
      have hselector := hf r (.inl (List.mem_singleton_self r)) (by simp [hi])
      simp only [Option.map_some, Option.toList_some, headsReadableIn, Node.headsReadable,
        Bool.and_true, Bool.true_and]
      exact hselector

end

/-- A declaration that shows the raster of one of the rules. -/
def ShowsRaster (marker : String) (rs : List Rule) (d : Declaration) : Prop :=
  ∃ r ∈ rs, ∃ i, r.image? marker = some i ∧ d.unplaced = rasterDeclaration i.rasterName

theorem ShowsRaster.mono {rs ss : List Rule} {d : Declaration} (h : ShowsRaster marker rs d)
    (hsub : rs ⊆ ss) : ShowsRaster marker ss d := by
  obtain ⟨r, hr, i, hi, hd⟩ := h
  exact ⟨r, hsub hr, i, hi, hd⟩

mutual

theorem Node.mem_declarations_completed : ∀ (n : Node) (d : Declaration),
    d ∈ (n.completed marker).declarations → d ∈ n.declarations ∨ ShowsRaster marker n.rules d
  | .group _ nodes, d, hd => mem_declarationsIn_completed nodes d hd
  | .rule _, _, hd => .inl hd
  | .comment _, _, hd => .inl hd
  | .statement _, _, hd => .inl hd
  | .descriptors _ _, _, hd => .inl hd

theorem mem_declarationsIn_completed : ∀ (ns : List Node) (d : Declaration),
    d ∈ declarationsIn (completedNodes marker ns) →
      d ∈ declarationsIn ns ∨ ShowsRaster marker (rulesOf ns) d
  | [], _, hd => .inl hd
  | n :: ns, d, hd => by
    rw [completedNodes_cons, declarationsIn, declarationsIn_append, List.mem_append,
      List.mem_append] at hd
    rw [declarationsIn, List.mem_append, rulesOf]
    rcases hd with hd | hd | hd
    · rcases n.mem_declarations_completed d hd with hd | hd
      · exact .inl (.inl hd)
      · exact .inr (hd.mono (List.subset_append_left ..))
    · cases hnew : n.newFallback? marker ns.head? with
      | none =>
        rw [hnew] at hd
        cases hd
      | some f =>
        obtain ⟨r, i, rfl, hi, rfl⟩ := Node.exists_of_newFallback? marker hnew
        rw [hnew] at hd
        obtain rfl := List.mem_singleton.1 hd
        exact .inr ⟨r, List.mem_append_left _ (List.mem_singleton_self r), i, hi, rfl⟩
    · rcases mem_declarationsIn_completed ns d hd with hd | hd
      · exact .inl (.inr hd)
      · exact .inr (hd.mono (List.subset_append_right ..))

end

theorem Rule.exists_raster_of_restates {r next : Rule} {i : ImageDescriptor}
    (h : next.Restates (r.fallback marker i)) :
    ∃ d ∈ next.declarations, d.unplaced = rasterDeclaration i.rasterName := by
  obtain ⟨-, hds⟩ := h
  obtain ⟨d, hd, hcontent⟩ := List.map_eq_singleton_iff.1 hds
  refine ⟨d, by rw [hd]; exact List.mem_singleton_self d, ?_⟩
  obtain ⟨prop, value, important, source⟩ := d
  simp only [Declaration.content, Prod.mk.injEq] at hcontent
  obtain ⟨rfl, rfl, rfl⟩ := hcontent
  rfl

mutual

theorem Node.exists_raster_completed : ∀ (n : Node) (r : Rule) (i : ImageDescriptor),
    (∀ q, n ≠ .rule q) → r ∈ n.rules → r.image? marker = some i →
      ∃ d ∈ (n.completed marker).declarations, d.unplaced = rasterDeclaration i.rasterName
  | .group _ nodes, r, i, _, hr, hi => exists_raster_completedNodes nodes r i hr hi
  | .rule q, _, _, hq, _, _ => (hq q rfl).elim
  | .comment _, _, _, _, hr, _ => by cases hr
  | .statement _, _, _, _, hr, _ => by cases hr
  | .descriptors _ _, _, _, _, hr, _ => by cases hr

/-- Once there are fallbacks, every raster is shown. -/
theorem exists_raster_completedNodes : ∀ (ns : List Node) (r : Rule) (i : ImageDescriptor),
    r ∈ rulesOf ns → r.image? marker = some i →
      ∃ d ∈ declarationsIn (completedNodes marker ns), d.unplaced = rasterDeclaration i.rasterName
  | [], _, _, hr, _ => by cases hr
  | n :: ns, r, i, hr, hi => by
    rw [completedNodes_cons, declarationsIn, declarationsIn_append]
    simp only [List.mem_append]
    rw [rulesOf, List.mem_append] at hr
    rcases hr with hr | hr
    · by_cases hn : ∃ q, n = .rule q
      · obtain ⟨q, rfl⟩ := hn
        obtain rfl := List.mem_singleton.1 hr
        by_cases hp : ∃ next, ns.head? = some (.rule next) ∧ next.Restates (r.fallback marker i)
        · obtain ⟨next, hnext, hf⟩ := hp
          obtain ⟨d, hd, hraster⟩ := Rule.exists_raster_of_restates hf
          obtain ⟨rest, rfl⟩ := List.head?_eq_some_iff.1 hnext
          refine ⟨d, .inr (.inr ?_), hraster⟩
          rw [completedNodes_cons, declarationsIn]
          exact List.mem_append_left _ hd
        · rw [Node.newFallback?_missing hi fun next hnext hf => hp ⟨next, hnext, hf⟩]
          exact ⟨_, .inr (.inl (List.mem_singleton_self _)), rfl⟩
      · obtain ⟨d, hd, hraster⟩ :=
          n.exists_raster_completed r i (fun q hq => hn ⟨q, hq⟩) hr hi
        exact ⟨d, .inl hd, hraster⟩
    · obtain ⟨d, hd, hraster⟩ := exists_raster_completedNodes ns r i hr hi
      exact ⟨d, .inr (.inr hd), hraster⟩

end

/-- The declarations of a readable stylesheet with its fallbacks are all sound if and only if no
url of a raster is broken off. -/
theorem all_isSound_completedNodes_iff {ns : List Node}
    (hds : (declarationsIn ns).all Declaration.isReadable) :
    (∀ d ∈ declarationsIn (completedNodes marker ns), ReadsIfSound Declaration.isSound d) ∧
      ((declarationsIn (completedNodes marker ns)).all Declaration.isSound ↔
        ∀ r ∈ rulesOf ns, ∀ i, r.image? marker = some i →
          (unquoted? i.rasterName.toList).isSome) := by
  have hreadable {d : Declaration} (hd : d ∈ declarationsIn ns) :
      ReadsIfSound Declaration.isSound d ∧ d.isSound = true :=
    readsIfSound_isSound (b := true) (readsAs_declaration (List.all_eq_true.1 hds d hd))
  refine ⟨fun d hd => ?_, fun hall r hr i hi => ?_, fun hurls => List.all_eq_true.2 fun d hd => ?_⟩
  · rcases mem_declarationsIn_completed ns d hd with hd | ⟨r, -, i, hi, hraster⟩
    · exact (hreadable hd).1
    · exact (isSound_raster hi hraster).1
  · obtain ⟨d, hd, hraster⟩ := exists_raster_completedNodes ns r i hr hi
    rw [← (isSound_raster hi hraster).2]
    exact List.all_eq_true.1 hall d hd
  · rcases mem_declarationsIn_completed ns d hd with hd | ⟨r, hr, i, hi, hraster⟩
    · exact (hreadable hd).2
    · rw [(isSound_raster hi hraster).2]
      exact hurls r hr i hi

end Completed

section Again

variable {σ τ : Type} {c : Config}

/-- Where nothing is converted, the text alone decides. -/
theorem processText_fst (hconvert : c.disableConvert = true) (render : Renderer σ) (css : String)
    (run : Run σ) : (processText c render css run).1 =
      match Stylesheet.parse css with
      | .error e => .error (.parse e)
      | .ok s => .ok (s.withFallbacks c.fallbackSelector).1.text := by
  cases hp : Stylesheet.parse css with
  | error e => simp only [processText, hp]
  | ok s =>
    simp only [processText, hp, process, convert, hconvert, ↓reduceIte]
    rfl

theorem parse_withFallbacks {s : Stylesheet} {marker : String} (hreadable : s.isReadable)
    (hselectors : FallbacksReadable marker s.rules) :
    (Stylesheet.parse (s.withFallbacks marker).1.text).toOption.map
        (fun t => unplacedNodes t.nodes) =
      onlyIf ((declarationsIn (s.withFallbacks marker).1.nodes).all Declaration.isSound)
        (unplacedNodes (s.withFallbacks marker).1.nodes) := by
  simp only [Stylesheet.isReadable, Bool.and_eq_true] at hreadable
  have hnodes : (s.withFallbacks marker).1.nodes = completedNodes marker s.nodes :=
    congrArg Prod.fst (nodesWithFallbacks_eq marker s.nodes)
  refine parse_text ?_ ?_
  · rw [hnodes]
    exact headsReadableIn_completed s.nodes hselectors hreadable.1
  · rw [hnodes]
    exact (all_isSound_completedNodes_iff hreadable.2).1

/-- For a readable stylesheet whose fallbacks get readable selector lists, a second run over the
text of the first gives it back if and only if no url of a raster is broken off. If one is, the
text is not even read. -/
theorem processText_again_iff (hconvert : c.disableConvert = true) {css out : String}
    {s : Stylesheet} (hparse : Stylesheet.parse css = .ok s) (hreadable : s.isReadable)
    (hselectors : FallbacksReadable c.fallbackSelector s.rules) {render : Renderer σ} {run : Run σ}
    (hout : (processText c render css run).1 = .ok out) (again : Renderer τ) (later : Run τ) :
    ((processText c again out later).1 = .ok out ↔
      ∀ r ∈ s.rules, ∀ i, r.image? c.fallbackSelector = some i →
        (unquoted? i.rasterName.toList).isSome) ∧
    ((processText c again out later).1 = .ok out ∨
      ∃ e, (processText c again out later).1 = .error (.parse e)) := by
  have hnodes : (s.withFallbacks c.fallbackSelector).1.nodes =
      completedNodes c.fallbackSelector s.nodes :=
    congrArg Prod.fst (nodesWithFallbacks_eq c.fallbackSelector s.nodes)
  have hsound : (declarationsIn (completedNodes c.fallbackSelector s.nodes)).all
      Declaration.isSound ↔ _ :=
    (all_isSound_completedNodes_iff (Bool.and_eq_true_iff.1 hreadable).2).2
  rw [← hnodes] at hsound
  have hagain := parse_withFallbacks hreadable hselectors
  rw [processText_fst hconvert, hparse] at hout
  obtain rfl : (s.withFallbacks c.fallbackSelector).1.text = out := Except.ok.inj hout
  rw [processText_fst hconvert, Stylesheet.rules, ← hsound]
  cases hall : (declarationsIn (s.withFallbacks c.fallbackSelector).1.nodes).all
      Declaration.isSound with
  | true =>
    rw [hall] at hagain
    obtain ⟨t, ht, hunplaced⟩ := Option.map_eq_some_iff.1 hagain
    have hok : (Except.ok _ : Except Failure String) = .ok _ :=
      congrArg Except.ok (text_withFallbacks_of_unplaced c.fallbackSelector hunplaced)
    rw [toOption_eq_some.1 ht]
    constructor
    · exact ⟨fun _ => rfl, fun _ => hok⟩
    · exact .inl hok
  | false =>
    rw [hall] at hagain
    cases ht : Stylesheet.parse (s.withFallbacks c.fallbackSelector).1.text with
    | ok t =>
      rw [ht] at hagain
      cases hagain
    | error e =>
      constructor
      · constructor
        · intro hok
          cases hok
        · intro h
          cases h
      · exact .inr ⟨e, rfl⟩

end Again

/-- Settings that convert nothing. -/
def sketch : Config := { disableConvert := true }

def emptyRun : Run Unit := { files := {}, memory := () }

def iconText : String := ".icon \x7b background: url(a.svg); background-size: 8px \x7d"

def iconOutput : String :=
  ".icon \x7b\n\tbackground: url(a.svg);\n\tbackground-size: 8px;\n\x7d\n" ++
    ".no-svg .icon \x7b\n\tbackground-image: url(a-8x8.png);\n\x7d"

theorem processText_again_icon :
    (processText sketch ({} : Script).renderer iconText emptyRun).1 = .ok iconOutput ∧
      (processText sketch ({} : Script).renderer iconOutput emptyRun).1 = .ok iconOutput := by
  have hconvert : sketch.disableConvert = true := rfl
  have hchecks : (Stylesheet.parse iconText).toOption.any (fun s =>
      s.isReadable && decide ((s.withFallbacks ".no-svg").1.text = iconOutput) &&
        s.rules.all fun r => isReadableSelector (fallbackSelector ".no-svg" r) &&
          (r.image? ".no-svg").all fun i => (unquoted? i.rasterName.toList).isSome) = true := by
    decide +kernel
  obtain ⟨s, hs, hall⟩ := (Option.any_eq_true _ _).1 hchecks
  simp only [Bool.and_eq_true, decide_eq_true_eq, List.all_eq_true] at hall
  obtain ⟨⟨hreadable, htext⟩, hrules⟩ := hall
  have hparse := toOption_eq_some.1 hs
  have hout : (processText sketch ({} : Script).renderer iconText emptyRun).1 = .ok iconOutput := by
    rw [processText_fst hconvert, hparse, ← htext]
    rfl
  have hselectors : FallbacksReadable ".no-svg" s.rules := fun r hr _ => (hrules r hr).1
  refine ⟨hout, (processText_again_iff hconvert hparse hreadable hselectors hout _ _).1.2 ?_⟩
  intro r hr i hi
  have hurl := (hrules r hr).2
  rw [show r.image? ".no-svg" = some i from hi] at hurl
  exact hurl

def spacedText : String := ".a \x7b background: url(\x22a b.svg\x22); background-size: 20px \x7d"

def spacedOutput : String :=
  ".a \x7b\n\tbackground: url(\x22a b.svg\x22);\n\tbackground-size: 20px;\n\x7d\n" ++
    ".no-svg .a \x7b\n\tbackground-image: url(a b-20x20.png);\n\x7d"

/-- A run over the text of a run fails. -/
theorem processText_again_spaced :
    sketch.validate = .ok () ∧
      (processText sketch ({} : Script).renderer spacedText emptyRun).1 = .ok spacedOutput ∧
      (processText sketch ({} : Script).renderer spacedOutput emptyRun).1 ≠ .ok spacedOutput := by
  have hfirst : (processText sketch ({} : Script).renderer spacedText emptyRun).1.toOption =
      some spacedOutput := by decide +kernel
  have hagain : (processText sketch ({} : Script).renderer spacedOutput emptyRun).1.toOption =
      none := by decide +kernel
  refine ⟨rfl, toOption_eq_some.1 hfirst, ?_⟩
  intro hok
  rw [hok] at hagain
  cases hagain

end RasterFallback
