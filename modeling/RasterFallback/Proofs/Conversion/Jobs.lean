import RasterFallback.Conversion.Pipeline
import RasterFallback.Proofs.Files.Folders

/-!
The jobs of tasks. A job carries what its task asks for, with the paths resolved; only where a
path is relative to a working directory that is gone there is no job. What is answered of a
raster beside its source is read off the entries that both paths lead to.
-/
namespace RasterFallback
open RasterFallback.Files RasterFallback.Files.Tree

/-- The path that `reference` is resolved to from the directory `base`, which is relative to the
working directory unless it is absolute. -/
inductive Leads (t : Tree) (base reference : String) : String → Prop where
  | absolute (hbase : isAbsolute base = true) : Leads t base reference (join base reference)
  | relative {dir : Place} (hbase : isAbsolute base = false) (hhome : t.home = some dir) :
    Leads t base reference (join (join (pathOf dir) base) reference)

/-- The job carries what the task asks for: its own source, its size, and its destination. -/
structure Carries (c : Config) (t : Tree) (task : ConversionTask) (job : RenderJob) : Prop where
  file : ∀ reference, task.descriptor.source = .file reference →
    ∃ path, job.source = .file path ∧ Leads t c.basePath reference path
  inline : ∀ markup, task.descriptor.source = .inline markup → job.source = .inline markup
  width : job.size.width = task.descriptor.size.width
  height : job.size.height = task.descriptor.size.height
  dest : Leads t c.dest task.imageName job.dest

/-- A path of the task is relative to the working directory. -/
def Config.needsHome (c : Config) (task : ConversionTask) : Bool :=
  !isAbsolute c.dest ||
    match task.descriptor.source with
    | .file _ => !isAbsolute c.basePath
    | .inline _ => false

/-- The paths of the task can be resolved: the working directory is there, or not needed. -/
def Config.resolves (c : Config) (t : Tree) (task : ConversionTask) : Bool :=
  t.home.isSome || !c.needsHome task

/-- The job of a task whose paths can be resolved. -/
def Config.plan (c : Config) (t : Tree) (task : ConversionTask) : RenderJob :=
  ⟨match task.descriptor.source with
    | .file path => .file (resolve t.homePath c.basePath path)
    | .inline markup => .inline markup,
    task.descriptor.size, resolve t.homePath c.dest task.imageName⟩

section Resolution

variable {c : Config} {t t' : Tree} {task : ConversionTask} {job : RenderJob}
  {base reference path : String}

theorem resolvePath_eq (t : Tree) (base reference : String) : t.resolvePath base reference =
    if t.home.isSome || isAbsolute base then .ok (resolve t.homePath base reference)
    else .error .notFound := by
  unfold resolvePath homePlace resolve homePath
  cases isAbsolute base with
  | true => simp
  | false => cases t.home <;> rfl

theorem eq_resolve_of_resolvePath (h : t.resolvePath base reference = .ok path) :
    path = resolve t.homePath base reference := by
  rw [resolvePath_eq] at h
  split at h
  · exact (Except.ok.inj h).symm
  · cases h

/-- A path is resolved exactly if it leads somewhere, and to there. -/
theorem resolvePath_eq_ok : t.resolvePath base reference = .ok path ↔
    Leads t base reference path := by
  constructor
  · intro h
    unfold resolvePath at h
    split at h
    · rename_i hbase
      cases h
      exact .absolute hbase
    · rename_i hbase
      rw [Bool.not_eq_true] at hbase
      unfold homePlace at h
      cases hhome : t.home with
      | none =>
        rw [hhome] at h
        cases h
      | some dir =>
        rw [hhome] at h
        cases h
        rw [resolve, hbase]
        exact .relative hbase hhome
  · intro h
    cases h with
    | absolute hbase => rw [resolvePath, if_pos hbase]
    | relative hbase hhome =>
      rw [resolvePath, hbase, homePlace, hhome, if_neg Bool.false_ne_true]
      show Except.ok (resolve _ base reference) = _
      rw [resolve, hbase]
      rfl

/-- A task has the job that is planned, unless a path of its is relative to a working directory
that was removed. -/
theorem job_eq (c : Config) (t : Tree) (task : ConversionTask) : c.job t task =
    if c.resolves t task then .ok (c.plan t task) else .error .notFound := by
  unfold Config.job Config.source Config.resolves Config.needsHome Config.plan
  rw [resolvePath_eq]
  cases task.descriptor.source with
  | inline markup =>
    cases t.home <;> cases isAbsolute c.dest <;> rfl
  | file path =>
    dsimp only
    rw [resolvePath_eq]
    cases t.home <;> cases isAbsolute c.dest <;> cases isAbsolute c.basePath <;> rfl

/-- The jobs of a task are those that carry what it asks for. -/
theorem job_eq_ok : c.job t task = .ok job ↔ Carries c t task job := by
  constructor
  · intro h
    unfold Config.job at h
    obtain ⟨dest, hdest, h⟩ := bind_eq_ok.1 h
    obtain ⟨source, hsource, h⟩ := bind_eq_ok.1 h
    cases h
    refine ⟨fun reference href => ?_, fun markup hmarkup => ?_, rfl, rfl,
      resolvePath_eq_ok.1 hdest⟩
    · rw [href] at hsource
      obtain ⟨path, hpath, hsource⟩ := bind_eq_ok.1 hsource
      exact ⟨path, (Except.ok.inj hsource).symm, resolvePath_eq_ok.1 hpath⟩
    · rw [hmarkup] at hsource
      exact (Except.ok.inj hsource).symm
  · rintro ⟨hfile, hinline, hwidth, hheight, hdest⟩
    obtain ⟨source, ⟨width, height⟩, dest⟩ := job
    unfold Config.job
    rw [resolvePath_eq_ok.2 hdest]
    dsimp only at hfile hinline hwidth hheight
    cases hsource : task.descriptor.source with
    | inline markup =>
      rw [hinline markup hsource, hwidth, hheight]
      rfl
    | file reference =>
      obtain ⟨path, rfl, hpath⟩ := hfile reference hsource
      rw [Config.source, resolvePath_eq_ok.2 hpath, hwidth, hheight]
      rfl

theorem carries_iff : Carries c t task job ↔ c.resolves t task = true ∧ job = c.plan t task := by
  rw [← job_eq_ok, job_eq]
  cases c.resolves t task with
  | true => simp [eq_comm]
  | false => simp

/-- Jobs depend on the tree by its home alone. -/
theorem plan_congr (h : t'.home = t.home) (task : ConversionTask) :
    c.plan t' task = c.plan t task := by
  unfold Config.plan homePath
  rw [h]

/-- A task that still has a job has the same, though the working directory may be gone. -/
theorem plan_of_resolves (hhome : t.KeepsHome t') (h : c.resolves t' task = true) :
    c.plan t' task = c.plan t task := by
  rcases hhome with hsame | hgone
  · exact plan_congr hsame task
  · rw [Config.resolves, hgone, Config.needsHome] at h
    unfold Config.plan resolve
    cases hsource : task.descriptor.source with
    | inline markup => simp_all
    | file path => simp_all

end Resolution

section Files

variable (job : RenderJob) (t : Tree)

/-- The source is a file, and none is found there. -/
def RenderJob.lacksSource : Bool :=
  match job.source with
  | .file path =>
    match t.stat path with
    | .ok _ => false
    | .error _ => true
  | .inline _ => false

/-- The raster is there, and so is its source, which is not the younger one. -/
def RenderJob.IsCurrent : Prop :=
  ∃ raster, t.stat job.dest = .ok raster ∧ ∀ path, job.source = .file path →
    ∃ source, t.stat path = .ok source ∧ source.modified ≤ raster.modified

/-- The source, if it is a file, is there, and the raster is missing or the older one. -/
def RenderJob.IsStale : Prop :=
  (∀ path, job.source = .file path → ∃ source, t.stat path = .ok source) ∧
    (t.stat job.dest = .error .notFound ∨ ∃ path source raster, job.source = .file path ∧
      t.stat path = .ok source ∧ t.stat job.dest = .ok raster ∧ raster.modified < source.modified)

/-- Looking for the source fails, or for the raster once the source is found; and not because
there is none. -/
inductive RenderJob.LookFails (e : SystemError) : Prop where
  | source {path : String} (hpath : job.source = .file path) (hstat : t.stat path = .error e)
    (hfound : e ≠ .notFound)
  | raster (hsource : ∀ path, job.source = .file path → ∃ source, t.stat path = .ok source)
    (hstat : t.stat job.dest = .error e) (hfound : e ≠ .notFound)

/-- The path of the source, if it is a file. -/
def RenderJob.sourcePath? : Option String :=
  match job.source with
  | .file path => some path
  | .inline _ => none

/-- The time of the source, if it is a file and there. -/
def RenderJob.sourceTime? : Option Nat :=
  job.sourcePath?.bind fun path => (t.stat path).toOption.map Entry.modified

/-- The paths that the job reads and writes. -/
def RenderJob.paths : List String := job.dest :: job.sourcePath?.toList

end Files

section Paths

variable {c : Config} {job : RenderJob} {t : Tree} {path : String} {e : Entry}

theorem RenderJob.mem_sourcePath? : path ∈ job.sourcePath? ↔ job.source = .file path := by
  unfold RenderJob.sourcePath?
  split <;> simp_all

theorem RenderJob.modified_mem_sourceTime? (hpath : job.source = .file path)
    (hstat : t.stat path = .ok e) : e.modified ∈ job.sourceTime? t := by
  unfold RenderJob.sourceTime?
  rw [show job.sourcePath? = some path from mem_sourcePath?.2 hpath, Option.bind_some, hstat]
  rfl

theorem RenderJob.dest_mem_paths (job : RenderJob) : job.dest ∈ job.paths := List.mem_cons_self ..

theorem RenderJob.mem_paths (job : RenderJob) (h : job.source = .file path) : path ∈ job.paths :=
  List.mem_cons_of_mem _ (Option.mem_toList.2 (mem_sourcePath?.2 h))

/-- The path of a source starts where drawings do. -/
theorem exists_of_sourcePath {t : Tree} {task : ConversionTask} {path : String}
    (h : path ∈ (c.plan t task).sourcePath?) :
    ∃ reference, task.descriptor.source = .file reference ∧
      path = resolve t.homePath c.basePath reference := by
  have hsource := RenderJob.mem_sourcePath?.1 h
  unfold Config.plan at hsource
  dsimp only at hsource
  split at hsource
  · rename_i reference href
    exact ⟨reference, href, (ImageSource.file.inj hsource).symm⟩
  · cases hsource

/-- Resolved paths start at the root. -/
theorem isAbsolute_paths (t : Tree) (task : ConversionTask) :
    ∀ path ∈ (c.plan t task).paths, isAbsolute path = true := by
  intro path hpath
  rcases List.mem_cons.1 hpath with rfl | hpath
  · exact isAbsolute_resolve t c.dest task.imageName
  · obtain ⟨reference, -, rfl⟩ := exists_of_sourcePath (Option.mem_toList.1 hpath)
    exact isAbsolute_resolve t c.basePath reference

end Paths

section Freshness

variable {job : RenderJob} {t : Tree} {source : ImageSource} {dest path : String} {e : Entry}
  {f : Freshness}

/-- The sources that are absent are those of the files that the system does not find. -/
theorem stat?_eq_none :
    t.stat? path = .ok none ↔ t.stat path = .error .notFound := by
  unfold Tree.stat?
  split <;> simp_all

theorem stat?_eq_some :
    t.stat? path = .ok (some e) ↔ t.stat path = .ok e := by
  unfold Tree.stat?
  split <;> simp_all

theorem stat?_eq_error {fault : SystemError} :
    t.stat? path = .error fault ↔ t.stat path = .error fault ∧ fault ≠ .notFound := by
  unfold Tree.stat?
  split <;> simp_all
  rintro rfl
  assumption

theorem freshness_file (t : Tree) (path dest : String) :
    freshness t (.file path) dest = match t.stat? path with
      | .error e => .error e
      | .ok none => .ok .missingSource
      | .ok (some source) => match t.stat? dest with
        | .error e => .error e
        | .ok none => .ok .render
        | .ok (some raster) =>
          .ok (if raster.modified < source.modified then .render else .upToDate) := by
  simp only [freshness]
  cases t.stat? path with
  | error e => rfl
  | ok s =>
    cases s with
    | none => rfl
    | some source =>
      cases t.stat? dest with
      | error e => rfl
      | ok d => cases d <;> rfl

theorem freshness_inline (t : Tree) (markup dest : String) :
    freshness t (.inline markup) dest = match t.stat? dest with
      | .error e => .error e
      | .ok none => .ok .render
      | .ok (some _) => .ok .upToDate := by
  simp only [freshness]
  cases t.stat? dest with
  | error e => rfl
  | ok d => cases d <;> rfl

/-- What a raster is found to be beside its source, from the entries that there are. -/
inductive Compares (t : Tree) (dest : String) : ImageSource → Freshness → Prop where
  | absent {path : String} (source : t.stat path = .error .notFound) :
    Compares t dest (.file path) .missingSource
  | unmade {path : String} {e : Entry} (source : t.stat path = .ok e)
    (raster : t.stat dest = .error .notFound) : Compares t dest (.file path) .render
  | older {path : String} {e d : Entry} (source : t.stat path = .ok e)
    (raster : t.stat dest = .ok d) (time : d.modified < e.modified) :
    Compares t dest (.file path) .render
  | current {path : String} {e d : Entry} (source : t.stat path = .ok e)
    (raster : t.stat dest = .ok d) (time : e.modified ≤ d.modified) :
    Compares t dest (.file path) .upToDate
  | undrawn {markup : String} (raster : t.stat dest = .error .notFound) :
    Compares t dest (.inline markup) .render
  | drawn {markup : String} {d : Entry} (raster : t.stat dest = .ok d) :
    Compares t dest (.inline markup) .upToDate

theorem compares_of_freshness (h : freshness t source dest = .ok f) : Compares t dest source f := by
  cases source with
  | inline markup =>
    rw [freshness_inline] at h
    split at h
    · cases h
    · rename_i hraster
      cases h
      exact .undrawn (stat?_eq_none.1 hraster)
    · rename_i d hraster
      cases h
      exact .drawn (stat?_eq_some.1 hraster)
  | file path =>
    rw [freshness_file] at h
    split at h
    · cases h
    · rename_i hsource
      cases h
      exact .absent (stat?_eq_none.1 hsource)
    · rename_i e hsource
      replace hsource := stat?_eq_some.1 hsource
      split at h
      · cases h
      · rename_i hraster
        cases h
        exact .unmade hsource (stat?_eq_none.1 hraster)
      · rename_i d hraster
        replace hraster := stat?_eq_some.1 hraster
        split at h
        · rename_i hold
          cases h
          exact .older hsource hraster hold
        · rename_i hyoung
          cases h
          exact .current hsource hraster (Nat.not_lt.1 hyoung)

/-- What is answered of a raster is what it is found to be. -/
theorem freshness_eq_ok :
    freshness t source dest = .ok f ↔ Compares t dest source f := by
  refine ⟨compares_of_freshness, fun h => ?_⟩
  cases h with
  | absent source => rw [freshness_file, stat?_eq_none.2 source]
  | unmade source raster => rw [freshness_file, stat?_eq_some.2 source, stat?_eq_none.2 raster]
  | older source raster time =>
    rw [freshness_file, stat?_eq_some.2 source, stat?_eq_some.2 raster]
    simp only [if_pos time]
  | current source raster time =>
    rw [freshness_file, stat?_eq_some.2 source, stat?_eq_some.2 raster]
    simp only [if_neg (Nat.not_lt.2 time)]
  | undrawn raster => rw [freshness_inline, stat?_eq_none.2 raster]
  | drawn raster => rw [freshness_inline, stat?_eq_some.2 raster]

/-- Comparing a raster with its source fails exactly if looking for one of them does. -/
theorem freshness_eq_error {fault : SystemError} :
    freshness t job.source job.dest = .error fault ↔ job.LookFails t fault := by
  constructor
  · intro h
    cases hsource : job.source with
    | inline markup =>
      rw [hsource, freshness_inline] at h
      split at h
      · rename_i hraster
        cases h
        obtain ⟨hstat, hfound⟩ := stat?_eq_error.1 hraster
        exact .raster (by simp [hsource]) hstat hfound
      · cases h
      · cases h
    | file path =>
      rw [hsource, freshness_file] at h
      split at h
      · rename_i hsource'
        cases h
        obtain ⟨hstat, hfound⟩ := stat?_eq_error.1 hsource'
        exact .source hsource hstat hfound
      · cases h
      · rename_i source hsource'
        split at h
        · rename_i hraster
          cases h
          obtain ⟨hstat, hfound⟩ := stat?_eq_error.1 hraster
          refine .raster (fun path' hpath => ?_) hstat hfound
          obtain rfl := ImageSource.file.inj (hsource.symm.trans hpath)
          exact ⟨source, stat?_eq_some.1 hsource'⟩
        · cases h
        · cases h
  · intro h
    cases h with
    | source hpath hstat hfound =>
      rw [hpath, freshness_file, stat?_eq_error.2 ⟨hstat, hfound⟩]
    | raster hsource hstat hfound =>
      have hraster := stat?_eq_error.2 ⟨hstat, hfound⟩
      cases hkind : job.source with
      | inline markup => rw [freshness_inline, hraster]
      | file path =>
        obtain ⟨source, hstat'⟩ := hsource path hkind
        rw [freshness_file, stat?_eq_some.2 hstat', hraster]

theorem freshness_missing :
    freshness t source dest = .ok .missingSource ↔
      ∃ path, source = .file path ∧ t.stat path = .error .notFound := by
  rw [freshness_eq_ok]
  constructor
  · intro h
    cases h with
    | absent hsource => exact ⟨_, rfl, hsource⟩
  · rintro ⟨path, rfl, habsent⟩
    exact .absent habsent

/-- A raster is up to date exactly if it is current. -/
theorem freshness_upToDate :
    freshness t job.source job.dest = .ok .upToDate ↔ job.IsCurrent t := by
  rw [freshness_eq_ok]
  unfold RenderJob.IsCurrent
  constructor
  · intro h
    generalize job.source = source at h ⊢
    cases h with
    | current hsource hraster htime =>
      refine ⟨_, hraster, fun path hpath => ?_⟩
      cases hpath
      exact ⟨_, hsource, htime⟩
    | drawn hraster => exact ⟨_, hraster, nofun⟩
  · rintro ⟨raster, hraster, hall⟩
    cases hsource : job.source with
    | inline markup => exact .drawn hraster
    | file path =>
      obtain ⟨source, hfound, htime⟩ := hall path hsource
      exact .current hfound hraster htime

/-- A raster is to be rendered exactly if it is stale. -/
theorem freshness_render :
    freshness t job.source job.dest = .ok .render ↔ job.IsStale t := by
  rw [freshness_eq_ok]
  unfold RenderJob.IsStale
  constructor
  · intro h
    generalize job.source = source at h ⊢
    cases h with
    | undrawn hraster => exact ⟨nofun, .inl hraster⟩
    | unmade hsource hraster =>
      refine ⟨fun path hpath => ?_, .inl hraster⟩
      cases hpath
      exact ⟨_, hsource⟩
    | older hsource hraster htime =>
      refine ⟨fun path hpath => ?_, .inr ⟨_, _, _, rfl, hsource, hraster, htime⟩⟩
      cases hpath
      exact ⟨_, hsource⟩
  · rintro ⟨hall, hmissing | ⟨path, source, raster, hpath, hfound, hraster, htime⟩⟩
    · cases hsource : job.source with
      | inline markup => exact .undrawn hmissing
      | file path =>
        obtain ⟨source, hfound⟩ := hall path hsource
        exact .unmade hfound hmissing
    · rw [hpath]
      exact .older hfound hraster htime

/-- Only jobs whose source is there are rendered. -/
theorem source_of_freshness_render (h : freshness t job.source job.dest = .ok .render)
    (hpath : job.source = .file path) : ∃ source, t.stat path = .ok source :=
  (freshness_render.1 h).1 path hpath

theorem RenderJob.IsCurrent.not_lacksSource (h : job.IsCurrent t) : job.lacksSource t = false := by
  obtain ⟨raster, -, hall⟩ := h
  unfold RenderJob.lacksSource
  cases hsource : job.source with
  | inline markup => rfl
  | file path =>
    obtain ⟨source, hfound, -⟩ := hall path hsource
    simp [hfound]

end Freshness

end RasterFallback
