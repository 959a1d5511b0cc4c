import RasterFallback.Proofs.Conversion.Jobs
import RasterFallback.Proofs.Fallback.RasterUrl
import RasterFallback.Proofs.Files.Lexical

/-!
Where rasters are put. The name of a raster leads through the directories of the path of its
drawing, so it stays in the destination unless that path is absolute or climbs out of it.
-/
namespace RasterFallback
open RasterFallback.Text RasterFallback.Files RasterFallback.Files.Tree

/-- The place where references start that are followed from the directory `base`. -/
def startPlace (t : Tree) (base : String) : Place :=
  lexicalPlace (if isAbsolute base then base else join t.homePath base)

/-- The names that a path leads through before its last one. -/
def folders (path : String) : List String := (steps path).dropLast

/-- The path leads to a place below `dir`, steps upwards taken. -/
def IsInside (dir : Place) (path : String) : Prop :=
  dir <+: lexicalPlace path ∧ dir ≠ lexicalPlace path

instance (dir : Place) (path : String) : Decidable (IsInside dir path) :=
  inferInstanceAs (Decidable (dir <+: lexicalPlace path ∧ dir ≠ lexicalPlace path))

/-- A relative path goes back into the directories of `dir` that it climbs out of, if any; an
absolute path leads through all of `dir`. -/
def LeadsInto (dir : Place) (path : String) : Prop :=
  (if isAbsolute path then dir else dir.drop (dir.length - (climb (folders path)).1)) <+:
    (climb (folders path)).2

theorem lexicalPlace_resolve (t : Tree) (base reference : String) :
    lexicalPlace (resolve t.homePath base reference) =
      enterAll (if isAbsolute reference then [] else startPlace t base) (steps reference) :=
  lexicalPlace_join _ reference

/-- Tasks come from rules that show a drawing. -/
theorem exists_of_mem_tasks {marker : String} {s : Stylesheet} {task : ConversionTask}
    (h : task ∈ (s.withFallbacks marker).2) :
    ∃ r ∈ s.rules, ∃ d, r.image? marker = some d ∧ task = r.task d := by
  have htasks : (s.withFallbacks marker).2 = s.rules.filterMap (Rule.task? marker) :=
    congrArg Prod.snd (nodesWithFallbacks_eq marker s.nodes)
  rw [htasks] at h
  obtain ⟨r, hr, htask⟩ := List.mem_filterMap.1 h
  obtain ⟨d, himage, hd⟩ := Option.map_eq_some_iff.1 htask
  exact ⟨r, hr, d, himage, hd.symm⟩

theorem slash_not_mem_ending (s : Size) : '/' ∉ s.ending := by
  have hdigits (n : Nat) : '/' ∉ Nat.toDigits 10 n := fun h =>
    absurd (Nat.isDigit_of_mem_toDigits (by decide) (by decide) h) (by decide)
  simp [Size.ending, hdigits]

theorem length_ending (s : Size) : 2 < s.ending.length := by
  simp [Size.ending]
  omega

theorem slash_not_mem_contentHash (markup : String) : '/' ∉ (contentHash markup).toList := by
  have hall : ∀ n < 16, hexDigit n ≠ '/' := by decide
  rw [contentHash, String.toList_ofList, RasterFallback.Digest.hexDigits, List.mem_flatMap]
  rintro ⟨b, -, hb⟩
  have hlt := b.toNat_lt
  rcases List.mem_cons.1 hb with h | h
  · exact hall _ (by omega) h.symm
  · exact hall _ (by omega) (List.mem_singleton.1 h).symm

section Letters

variable {x y : List Char}

/-- What letters end a path with does not matter to the names before its last one. -/
theorem folders_append_letters (s : List Char) (hx : '/' ∉ x) (hy : '/' ∉ y) (hx' : x ≠ [])
    (hy' : y ≠ []) : folders (String.ofList (s ++ x)) = folders (String.ofList (s ++ y)) := by
  obtain ⟨fs, last, hsteps⟩ := steps_append_letters s
  rw [folders, folders, hsteps x hx hx', hsteps y hy hy', List.dropLast_concat,
    List.dropLast_concat]

/-- A path that ends in three letters or more leads from its folders to a name that ends so. -/
theorem enterAll_steps_letters (p : Place) (s : List Char) (hx : '/' ∉ x) (hlen : 2 < x.length) :
    ∃ last, enterAll p (steps (String.ofList (s ++ x))) =
      enterAll p (folders (String.ofList (s ++ x))) ++ [String.ofList (last ++ x)] := by
  obtain ⟨fs, last, hsteps⟩ := steps_append_letters s
  have hne : x ≠ [] := by
    rintro rfl
    cases hlen
  have hlong (name : List Char) (hname : name.length ≤ 2) :
      String.ofList (last ++ x) ≠ String.ofList name := by
    intro heq
    have hlength := congrArg List.length (String.ofList_injective heq)
    rw [List.length_append] at hlength
    omega
  refine ⟨last, ?_⟩
  rw [folders, hsteps x hx hne, List.dropLast_concat]
  exact enterAll_concat p fs (hlong ['.'] (by decide)) (hlong ['.', '.'] (by decide))

end Letters

/-- The place of a file source ends in the name of a drawing. -/
theorem lexicalPlace_source {marker path : String} {r : Rule} {d : ImageDescriptor}
    (h : r.image? marker = some d) (hpath : d.source = .file path) (t : Tree) (base : String) :
    ∃ folder last, lexicalPlace (resolve t.homePath base path) =
      folder ++ [String.ofList (last ++ svgEnding)] := by
  obtain ⟨stem, -, htext, -⟩ := Rule.stem_of_image? h hpath
  rw [lexicalPlace_resolve, ← String.ofList_toList (s := path), htext]
  obtain ⟨last, hlast⟩ := enterAll_steps_letters _ stem (x := svgEnding) (by decide) (by decide)
  exact ⟨_, last, hlast⟩

/-- The directory of a raster: that of the path of its drawing, if it has one, followed from the
destination. -/
def rasterFolder (dest : Place) : ImageSource → Place
  | .inline _ => dest
  | .file path => enterAll (if isAbsolute path then [] else dest) (folders path)

/-- The place of a raster ends in the name of a raster. -/
theorem lexicalPlace_raster {marker : String} {r : Rule} {d : ImageDescriptor}
    (h : r.image? marker = some d) (t : Tree) (dest : String) :
    ∃ last, lexicalPlace (resolve t.homePath dest d.rasterName) =
      rasterFolder (startPlace t dest) d.source ++ [String.ofList (last ++ d.size.ending)] := by
  have hslash := slash_not_mem_ending d.size
  have hlen := length_ending d.size
  obtain ⟨last, hlast⟩ := enterAll_steps_letters
    (if isAbsolute d.rasterName then [] else startPlace t dest) d.source.stem hslash hlen
  refine ⟨last, ?_⟩
  rw [lexicalPlace_resolve]
  refine hlast.trans (congrArg (· ++ _) ?_)
  have hne : d.size.ending ≠ [] := List.ne_nil_of_length_pos (by omega)
  cases hsource : d.source with
  | inline markup =>
    -- A digest is one name, which starts no absolute path.
    have hsplit (x : List Char) (hx : '/' ∉ x) (hx' : x ≠ []) :
        folders (String.ofList ((contentHash markup).toList ++ x)) = [] := by
      have hall : '/' ∉ (contentHash markup).toList ++ x := fun hmem =>
        (List.mem_append.1 hmem).elim (slash_not_mem_contentHash markup) hx
      simp [folders, steps, splitSlash_of_not_mem hall, hx']
    have hrelative : isAbsolute d.rasterName = false := by
      refine Bool.eq_false_iff.2 fun habs => ?_
      have hhead := List.mem_of_head? (beq_iff_eq.1 habs)
      rw [toList_rasterName, hsource] at hhead
      exact (List.mem_append.1 hhead).elim (slash_not_mem_contentHash markup) hslash
    rw [ImageSource.stem, hsplit _ hslash hne, hrelative]
    rfl
  | file path =>
    obtain ⟨stem, hstem, htext, -⟩ := Rule.stem_of_image? h hsource
    have hbefore : before? svgEnding path.toList = some stem := before?_eq_some.2 htext
    have hname : ImageSource.stem (.file path) = stem := by
      rw [ImageSource.stem, hbefore, Option.getD_some]
    have habs : isAbsolute d.rasterName = isAbsolute path := by
      obtain ⟨c, s, rfl⟩ := List.exists_cons_of_ne_nil hstem
      rw [isAbsolute, isAbsolute, toList_rasterName, hsource, hname, htext]
      rfl
    have hfolders : folders (String.ofList (stem ++ d.size.ending)) = folders path := by
      rw [folders_append_letters stem hslash (y := svgEnding) (by decide) hne (by decide), ← htext,
        String.ofList_toList]
    rw [hname, habs, hfolders]
    rfl

/-- A place behind a directory and a name is inside of what the directory is in. -/
theorem prefix_concat_and_ne_iff {dir folder : Place} {name : String} :
    dir <+: folder ++ [name] ∧ dir ≠ folder ++ [name] ↔ dir <+: folder := by
  rw [List.prefix_concat_iff]
  constructor
  · rintro ⟨heq | hle, hne⟩
    · exact absurd heq hne
    · exact hle
  · intro hle
    refine ⟨.inr hle, fun heq => ?_⟩
    have hlength := hle.length_le
    rw [heq, List.length_append, List.length_singleton] at hlength
    omega

/-- Names lead from a directory into it exactly if they go back the way that they climb. -/
theorem prefix_enterAll_iff (dir : Place) (names : List String) :
    dir <+: enterAll dir names ↔ dir.drop (dir.length - (climb names).1) <+: (climb names).2 := by
  have hsplit : dir = dir.take (dir.length - (climb names).1) ++
      dir.drop (dir.length - (climb names).1) := (List.take_append_drop _ _).symm
  rw [enterAll_eq_climb]
  conv_lhs => lhs; rw [hsplit]
  exact List.prefix_append_right_inj _

/-- The raster of a task is put where its name is resolved to. That is inside the destination
exactly if its drawing is inline, or the path of the drawing leads into the destination: a
relative path that never climbs above its start does, and an absolute path does only if it
names the destination itself. -/
theorem raster_inside_iff {marker : String} {s : Stylesheet} {task : ConversionTask} {c : Config}
    {t : Tree} {dest : String} (h : task ∈ (s.withFallbacks marker).2)
    (hdest : t.resolvePath c.dest task.imageName = .ok dest) :
    (∀ job, c.job t task = .ok job → job.dest = dest) ∧
      (IsInside (startPlace t c.dest) dest ↔
        ∀ path, task.descriptor.source = .file path → LeadsInto (startPlace t c.dest) path) := by
  refine ⟨fun job hjob => ?_, ?_⟩
  · have hleads := resolvePath_eq_ok.2 (job_eq_ok.1 hjob).dest
    exact Except.ok.inj (hleads.symm.trans hdest)
  obtain ⟨r, -, d, himage, rfl⟩ := exists_of_mem_tasks h
  obtain ⟨last, hplace⟩ := lexicalPlace_raster himage t c.dest
  obtain rfl : dest = resolve t.homePath c.dest d.rasterName := eq_resolve_of_resolvePath hdest
  have hsame : (r.task d).descriptor = d := rfl
  rw [IsInside, hplace, prefix_concat_and_ne_iff, hsame]
  cases hsource : d.source with
  | inline markup => simp [rasterFolder]
  | file path =>
    simp only [rasterFolder, ImageSource.file.injEq, forall_eq', LeadsInto]
    split
    · rw [enterAll_eq_climb]
      simp
    · exact prefix_enterAll_iff _ _

def publicConfig : Config := { dest := "public" }

theorem raster_inside_icon :
    iconRule.task iconDescriptor ∈ (Stylesheet.withFallbacks ".no-svg" ⟨[.rule iconRule]⟩).2 ∧
      ({} : Tree).resolvePath publicConfig.dest (iconRule.task iconDescriptor).imageName =
        .ok "/public/a-8x8.png" ∧
      publicConfig.job {} (iconRule.task iconDescriptor) =
        .ok ⟨.file "/a.svg", ⟨8, 8⟩, "/public/a-8x8.png"⟩ ∧
      IsInside (startPlace {} publicConfig.dest) "/public/a-8x8.png" := by
  have hmem : iconRule.task iconDescriptor ∈
      (Stylesheet.withFallbacks ".no-svg" ⟨[.rule iconRule]⟩).2 := by decide +kernel
  have hdest : ({} : Tree).resolvePath publicConfig.dest (iconRule.task iconDescriptor).imageName =
      .ok "/public/a-8x8.png" := by decide +kernel
  refine ⟨hmem, hdest, by decide +kernel, (raster_inside_iff hmem hdest).2.2 fun path hpath => ?_⟩
  obtain rfl := ImageSource.file.inj hpath
  exact ⟨[], by decide +kernel⟩

/-- The path of the drawing climbs out of the directory where it starts. -/
def climbingText : String := ".a\x7bbackground:url(../a.svg);background-size:8px\x7d"

/-- A drawing beside the directory of the drawings has its raster beside the destination. -/
theorem raster_outside_climbing : ∃ s, Stylesheet.parse climbingText = .ok s ∧
    publicConfig.validate = .ok () ∧
    ∃ task ∈ (s.withFallbacks publicConfig.fallbackSelector).2,
      (publicConfig.job {} task).map RenderJob.dest = .ok "/public/../a-8x8.png" ∧
        ¬IsInside (startPlace {} publicConfig.dest) "/public/../a-8x8.png" := by
  have hchecks : ((Stylesheet.parse climbingText).toOption.any fun s =>
      (s.withFallbacks publicConfig.fallbackSelector).2.any fun task =>
        (publicConfig.job {} task).map RenderJob.dest = .ok "/public/../a-8x8.png") = true := by
    decide +kernel
  have hvalid : publicConfig.validate = .ok () := by
    unfold Config.validate
    rw [if_neg (by decide), if_neg (by decide)]
  have houtside : ¬IsInside (startPlace {} publicConfig.dest) "/public/../a-8x8.png" := by
    decide +kernel
  cases hparse : Stylesheet.parse climbingText with
  | error e =>
    rw [hparse] at hchecks
    cases hchecks
  | ok s =>
    rw [hparse] at hchecks
    obtain ⟨task, htask, hdest⟩ := List.any_eq_true.1 hchecks
    exact ⟨s, rfl, hvalid, task, htask, of_decide_eq_true hdest, houtside⟩

end RasterFallback
