import RasterFallback.Image.Descriptor

/-!
Where the drawing of a rule comes from: of the backgrounds that name one the last
gives the source, and of the sizes that are understood the last gives the size.
The two are looked for apart from each other.
-/
namespace RasterFallback
open RasterFallback.Text

/-- The drawing that a declaration names, with its position. -/
def Declaration.image? (d : Declaration) : Option (ImageSource × Option Position) :=
  if d.prop = "background" ∨ d.prop = "background-image" then
    (backgroundImage? d.value).map fun source => (source, d.source)
  else none

def Declaration.size? (d : Declaration) : Option Size :=
  if d.prop = "background-size" then backgroundSize? d.value else none

theorem RuleScan.image_observe (scan : RuleScan) (d : Declaration) :
    (scan.observe d).image = d.image?.or scan.image := by
  unfold RuleScan.observe Declaration.image?
  split
  · cases backgroundImage? d.value <;> rfl
  · split
    · cases backgroundSize? d.value <;> rfl
    · rfl

theorem RuleScan.size_observe (scan : RuleScan) (d : Declaration) :
    (scan.observe d).size = d.size?.or scan.size := by
  unfold RuleScan.observe Declaration.size?
  split
  · rename_i h
    have hprop : d.prop ≠ "background-size" := by
      rcases h with h | h <;> rw [h] <;> decide
    rw [if_neg hprop]
    cases backgroundImage? d.value <;> rfl
  · split
    · cases backgroundSize? d.value <;> rfl
    · rfl

theorem getLast?_cons_or {α : Type} (a? : Option α) (as : List α) (b? : Option α) :
    (a?.toList ++ as).getLast?.or b? = as.getLast?.or (a?.or b?) := by
  cases a? with
  | none => simp
  | some a => cases h : as.getLast? <;> simp [h, List.getLast?_cons]

theorem RuleScan.image_foldl (ds : List Declaration) (scan : RuleScan) :
    (ds.foldl observe scan).image =
      (ds.filterMap Declaration.image?).getLast?.or scan.image := by
  induction ds generalizing scan with
  | nil => simp
  | cons d ds ih =>
    rw [List.foldl_cons, ih, image_observe, ← getLast?_cons_or]
    cases h : d.image? <;> simp [h]

theorem RuleScan.size_foldl (ds : List Declaration) (scan : RuleScan) :
    (ds.foldl observe scan).size = (ds.filterMap Declaration.size?).getLast?.or scan.size := by
  induction ds generalizing scan with
  | nil => simp
  | cons d ds ih =>
    rw [List.foldl_cons, ih, size_observe, ← getLast?_cons_or]
    cases h : d.size? <;> simp [h]

theorem RuleScan.finish_eq_some {scan : RuleScan} {d : ImageDescriptor} :
    scan.finish = some d ↔
      scan.image = some (d.source, d.declSource) ∧ scan.size = some d.size := by
  obtain ⟨image, size⟩ := scan
  obtain ⟨source, dsize, declSource⟩ := d
  cases image <;> cases size <;> simp [RuleScan.finish]
  constructor
  · rintro ⟨rfl, rfl, rfl⟩
    exact ⟨rfl, rfl⟩
  · rintro ⟨rfl, rfl⟩
    exact ⟨rfl, rfl, rfl⟩

theorem Rule.image?_eq_some {marker : String} {r : Rule} {d : ImageDescriptor} :
    r.image? marker = some d ↔ ¬marker.toList <:+: r.selector.toList ∧
      (r.declarations.filterMap Declaration.image?).getLast? = some (d.source, d.declSource) ∧
      (r.declarations.filterMap Declaration.size?).getLast? = some d.size := by
  unfold Rule.image?
  rw [← occurs_iff]
  split
  · rename_i hmarker
    simp [hmarker]
  · rename_i hmarker
    rw [RuleScan.finish_eq_some, RuleScan.image_foldl, RuleScan.size_foldl, Option.or_none,
      Option.or_none]
    simp [hmarker]

/-- Source and size of a drawing are each read from a declaration of its rule. -/
theorem Rule.exists_of_image? {marker : String} {r : Rule} {d : ImageDescriptor}
    (h : r.image? marker = some d) :
    (∃ e ∈ r.declarations, e.image? = some (d.source, d.declSource)) ∧
      ∃ e ∈ r.declarations, e.size? = some d.size := by
  obtain ⟨-, himage, hsize⟩ := Rule.image?_eq_some.1 h
  exact ⟨List.mem_filterMap.1 (List.mem_of_getLast? himage),
    List.mem_filterMap.1 (List.mem_of_getLast? hsize)⟩

/-- The member `a` of `as` satisfies `p`, and none behind it does. -/
def IsLast {α : Type} (p : α → Prop) (as : List α) (a : α) : Prop :=
  ∃ before after, as = before ++ a :: after ∧ p a ∧ ∀ x ∈ after, ¬p x

theorem IsLast.holds {α : Type} {p : α → Prop} {as : List α} {a : α} (h : IsLast p as a) : p a := by
  obtain ⟨-, -, -, ha, -⟩ := h
  exact ha

theorem exists_isLast_iff {α : Type} {p : α → Prop} {as : List α} :
    (∃ a, IsLast p as a) ↔ ∃ a ∈ as, p a := by
  constructor
  · rintro ⟨a, before, after, rfl, ha, -⟩
    exact ⟨a, by simp, ha⟩
  · intro h
    induction as with
    | nil => simp at h
    | cons x as ih =>
      by_cases hlater : ∃ a ∈ as, p a
      · obtain ⟨a, before, after, rfl, ha, hafter⟩ := ih hlater
        exact ⟨a, x :: before, after, rfl, ha, hafter⟩
      · obtain ⟨a, hmem, ha⟩ := h
        rcases List.mem_cons.1 hmem with rfl | hmem
        · exact ⟨a, [], as, rfl, ha, fun y hy hp => hlater ⟨y, hy, hp⟩⟩
        · exact absurd ⟨a, hmem, ha⟩ hlater

/-- The last value that a list gives is that of its last member with a value. -/
theorem getLast?_filterMap_eq_some {α β : Type} {f : α → Option β} {as : List α} {b : β} :
    (as.filterMap f).getLast? = some b ↔
      ∃ a, IsLast (fun x => (f x).isSome) as a ∧ f a = some b := by
  constructor
  · intro h
    obtain ⟨bs, hbs⟩ := List.getLast?_eq_some_iff.1 h
    obtain ⟨before, rest, rfl, -, hrest⟩ := List.filterMap_eq_append_iff.1 hbs
    obtain ⟨skipped, a, after, rfl, -, ha, hafter⟩ := List.filterMap_eq_cons_iff.1 hrest
    refine ⟨a, ⟨before ++ skipped, after, by simp, by simp [ha], fun x hx => ?_⟩, ha⟩
    simpa using List.filterMap_eq_nil_iff.1 hafter x hx
  · rintro ⟨a, ⟨before, after, rfl, -, hafter⟩, ha⟩
    have hnone : after.filterMap f = [] :=
      List.filterMap_eq_nil_iff.2 fun x hx => by simpa using hafter x hx
    simp [ha, hnone]

/-- A background whose value names a drawing. -/
def Declaration.NamesDrawing (e : Declaration) : Prop :=
  (e.prop = "background" ∨ e.prop = "background-image") ∧ (backgroundImage? e.value).isSome

/-- A background size whose value is understood. -/
def Declaration.GivesSize (e : Declaration) : Prop :=
  e.prop = "background-size" ∧ (backgroundSize? e.value).isSome

theorem Declaration.isSome_image?_iff (e : Declaration) : e.image?.isSome ↔ e.NamesDrawing := by
  unfold Declaration.image? Declaration.NamesDrawing
  split <;> simp_all

theorem Declaration.isSome_size?_iff (e : Declaration) : e.size?.isSome ↔ e.GivesSize := by
  unfold Declaration.size? Declaration.GivesSize
  split <;> simp_all

theorem exists_last_image_iff {ds : List Declaration} {source : ImageSource}
    {p : Option Position} :
    (ds.filterMap Declaration.image?).getLast? = some (source, p) ↔
      ∃ e, IsLast Declaration.NamesDrawing ds e ∧ backgroundImage? e.value = some source ∧
        e.source = p := by
  have hnames : (fun e : Declaration => (e.image?.isSome : Prop)) = Declaration.NamesDrawing :=
    funext fun e => propext e.isSome_image?_iff
  rw [getLast?_filterMap_eq_some, hnames]
  apply exists_congr
  intro e
  apply and_congr_right
  intro he
  rw [Declaration.image?, if_pos he.holds.1, Option.map_eq_some_iff]
  constructor
  · rintro ⟨found, hfound, heq⟩
    obtain ⟨rfl, rfl⟩ := Prod.mk.inj heq
    exact ⟨hfound, rfl⟩
  · rintro ⟨hfound, rfl⟩
    exact ⟨source, hfound, rfl⟩

theorem exists_last_size_iff {ds : List Declaration} {size : Size} :
    (ds.filterMap Declaration.size?).getLast? = some size ↔
      ∃ e, IsLast Declaration.GivesSize ds e ∧ backgroundSize? e.value = some size := by
  have hgives : (fun e : Declaration => (e.size?.isSome : Prop)) = Declaration.GivesSize :=
    funext fun e => propext e.isSome_size?_iff
  rw [getLast?_filterMap_eq_some, hgives]
  apply exists_congr
  intro e
  apply and_congr_right
  intro he
  rw [Declaration.size?, if_pos he.holds.1]

/-- A rule shows a drawing exactly if its selector does not hold the marker, some background of
it names one and some size of it is understood. The last such background gives the source and
its position, the last such size the size, wherever the other stands and whatever else is
declared before, between and behind them. -/
theorem image?_last_wins (marker : String) (r : Rule) :
    ((r.image? marker).isSome ↔ ¬marker.toList <:+: r.selector.toList ∧
      (∃ e ∈ r.declarations, e.NamesDrawing) ∧ ∃ e ∈ r.declarations, e.GivesSize) ∧
    ∀ d, r.image? marker = some d ↔ ¬marker.toList <:+: r.selector.toList ∧
      (∃ e, IsLast Declaration.NamesDrawing r.declarations e ∧
        backgroundImage? e.value = some d.source ∧ e.source = d.declSource) ∧
      ∃ e, IsLast Declaration.GivesSize r.declarations e ∧
        backgroundSize? e.value = some d.size := by
  have hlast (d : ImageDescriptor) : r.image? marker = some d ↔ _ := Rule.image?_eq_some
  simp only [exists_last_image_iff, exists_last_size_iff] at hlast
  refine ⟨?_, hlast⟩
  rw [← exists_isLast_iff, ← exists_isLast_iff, Option.isSome_iff_exists]
  constructor
  · rintro ⟨d, hd⟩
    obtain ⟨hmarker, ⟨e, he, -⟩, f, hf, -⟩ := (hlast d).1 hd
    exact ⟨hmarker, ⟨e, he⟩, f, hf⟩
  · rintro ⟨hmarker, ⟨e, he⟩, f, hf⟩
    obtain ⟨source, hsource⟩ := Option.isSome_iff_exists.1 he.holds.2
    obtain ⟨size, hsize⟩ := Option.isSome_iff_exists.1 hf.holds.2
    exact ⟨⟨source, size, e.source⟩, (hlast _).2 ⟨hmarker, ⟨e, he, hsource, rfl⟩, f, hf, hsize⟩⟩

/-- A path has something before its ending, and no quote mark or parenthesis there. -/
theorem filePath?_eq_some {url path : List Char} (h : filePath? url = some path) :
    ∃ stem, stem ≠ [] ∧ path = stem ++ svgEnding ∧ ∀ c ∈ stem, breaksPath c = false := by
  unfold filePath? at h
  simp only at h
  split at h
  · rename_i c stem hbefore
    split at h
    · cases h
    · rename_i hany
      obtain rfl := Option.some.inj h
      refine ⟨c :: stem, List.cons_ne_nil _ _, before?_eq_some.1 hbefore, fun x hx => ?_⟩
      exact Bool.eq_false_iff.2 fun hb => hany (List.any_eq_true.2 ⟨x, hx, hb⟩)
  · cases h

/-- The path of a drawing is named by a url of its declaration. -/
theorem Declaration.filePath_of_image? {e : Declaration} {path : String} {p : Option Position}
    (h : e.image? = some (.file path, p)) :
    ∃ url ∈ urlArguments e.value, filePath? url.toList = some path.toList := by
  unfold Declaration.image? at h
  split at h
  · obtain ⟨source, hsource, heq⟩ := Option.map_eq_some_iff.1 h
    obtain ⟨rfl, -⟩ := Prod.mk.inj heq
    simp only [backgroundImage?, imageOfUrls?] at hsource
    split at hsource
    · simp at hsource
    · obtain ⟨p, hfind, hp⟩ := Option.map_eq_some_iff.1 hsource
      obtain ⟨url, hmem, hurl⟩ := List.exists_of_findSome?_eq_some hfind
      refine ⟨url, hmem, ?_⟩
      obtain rfl : String.ofList p = path := by simpa using hp
      rw [hurl, String.toList_ofList]
  · cases h

/-- The path of the drawing of a rule ends in `.svg`, with a stem before it that holds no quote
mark and no closing parenthesis. -/
theorem Rule.stem_of_image? {marker path : String} {r : Rule} {d : ImageDescriptor}
    (h : r.image? marker = some d) (hpath : d.source = .file path) :
    ∃ stem, stem ≠ [] ∧ path.toList = stem ++ svgEnding ∧ ∀ c ∈ stem, breaksPath c = false := by
  obtain ⟨⟨e, -, he⟩, -⟩ := Rule.exists_of_image? h
  rw [hpath] at he
  obtain ⟨url, -, hurl⟩ := Declaration.filePath_of_image? he
  exact filePath?_eq_some hurl

end RasterFallback
