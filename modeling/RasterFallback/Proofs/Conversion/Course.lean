import RasterFallback.Proofs.Conversion.Turns

/-!
The course of a conversion: what its turns call and warn about, in the order of the tasks, and
which failure ends it. All of it is said of the files at each turn and of what the task of the
turn asks for.
-/
namespace RasterFallback
open RasterFallback.Files

/-- The first file operation of a task that fails: its paths are resolved, its source and its
raster are looked for, and where the raster is stale its directories are made. -/
inductive Fails (c : Config) (t : Tree) (task : ConversionTask) (e : SystemError) : Prop where
  | paths (hnone : ∀ job, ¬Carries c t task job) (he : e = .notFound)
  | looking {job : RenderJob} (hjob : Carries c t task job) (h : job.LookFails t e)
  | folders {job : RenderJob} {up : String} (hjob : Carries c t task job) (hstale : job.IsStale t)
    (hup : parent? job.dest = some up) (h : (t.createDirAll up).1 = .error e)

/-- The source of the task is a file that is looked for and not found. It is looked for once the
destination is resolved. -/
def MissesSource (c : Config) (t : Tree) (task : ConversionTask) : Prop :=
  (∃ dest, Leads t c.dest task.imageName dest) ∧
    ∃ reference path, task.descriptor.source = .file reference ∧
      Leads t c.basePath reference path ∧ t.stat path = .error .notFound

/-- The warning says what was not found, and where, and it is about the rule of the task. -/
structure Warns (c : Config) (t : Tree) (task : ConversionTask) (w : Warning) : Prop where
  text : ∃ reference path, task.descriptor.source = .file reference ∧
    Leads t c.basePath reference path ∧
    w.text = "could not find `" ++ reference ++ "` at `" ++ path ++ "`"
  selector : w.selector = some task.ruleSelector
  source : w.source = task.ruleSource

/-- The course of a conversion that starts with `run` and ends with `answer` and `after`. -/
structure Course {σ : Type} (c : Config) (r : Renderer σ) (tasks : List ConversionTask)
    (run : Run σ) (answer : Except Failure Unit) (after : Run σ) (ts : List (Turn σ)) : Prop where
  linked : Linked run ts after
  lawful : ∀ t ∈ ts, t.Lawful c r
  answers : Answers answer tasks ts
  /-- A turn fails by the first of its file operations that fails, if one does. -/
  faults : ∀ t ∈ ts, ∀ e, t.fault? c = some e ↔ Fails c t.before.files t.task e
  /-- The renderer is called where the raster is stale and no file operation fails. -/
  renders : ∀ t ∈ ts, t.calls c = true ↔
    (∃ job, Carries c t.before.files t.task job ∧ job.IsStale t.before.files) ∧
      ∀ e, ¬Fails c t.before.files t.task e
  /-- The calls of the renderer are in the order of the tasks, and each carries what its own
  task asks for at its turn. -/
  calls : ∃ jobs, after.jobs = run.jobs ++ jobs ∧
    List.Forall₂ (fun t job => Carries c t.before.files t.task job) (ts.filter (Turn.calls c)) jobs
  /-- Every call but the last succeeds. -/
  succeed : ∀ t ∈ (ts.filter (Turn.calls c)).dropLast, (t.rendered c r).result = .ok ()
  absent : ∀ t ∈ ts, t.isAbsent c = true ↔ MissesSource c t.before.files t.task
  /-- The warnings of before stay, and each task whose source is absent at its turn has one. -/
  warnings : ∃ added, after.warnings = run.warnings ++ added ∧
    List.Forall₂ (fun t w => Warns c t.before.files t.task w) (ts.filter (Turn.isAbsent c)) added
  /-- Tasks behind a failure are not looked at. -/
  stops : answer ≠ .ok () → ∀ others : List ConversionTask,
    convert c r (ts.map Turn.task ++ others) run = (answer, after)

theorem filter_eq_flatMap {α : Type} (p : α → Bool) (xs : List α) :
    xs.filter p = xs.flatMap fun x => if p x then [x] else [] := by
  induction xs with
  | nil => rfl
  | cons x xs ih => by_cases h : p x = true <;> simp [h, ih]

theorem mem_dropLast_filter {α : Type} {p : α → Bool} {xs : List α} {x y : α}
    (h : x ∈ ((xs ++ [y]).filter p).dropLast) : x ∈ xs := by
  rw [List.filter_append] at h
  by_cases hy : p y = true
  · have hlast : [y].filter p = [y] := by simp [hy]
    rw [hlast, List.dropLast_concat] at h
    exact (List.mem_filter.1 h).1
  · have hlast : [y].filter p = [] := by simp [hy]
    rw [hlast, List.append_nil] at h
    exact (List.mem_filter.1 ((List.dropLast_sublist _).subset h)).1

section Conversion

variable {σ : Type} {c : Config} {r : Renderer σ}

/-- Where the paths of the task are resolved, its raster is compared with its source. -/
theorem Turn.state_of_resolves {t : Turn σ} (h : c.resolves t.before.files t.task = true) :
    t.state c = freshness t.before.files (t.job c).source (t.job c).dest := by
  rw [Turn.state, if_pos h]

theorem Turn.withFolders_error {t : Turn σ} {e : SystemError} :
    (t.withFolders c).1 = .error e ↔
      ∃ up, parent? (t.job c).dest = some up ∧ (t.before.files.createDirAll up).1 = .error e := by
  unfold Turn.withFolders
  cases parent? (t.job c).dest with
  | none => simp
  | some up => simp

theorem fails_of_not_resolves {t : Tree} {task : ConversionTask} {e : SystemError}
    (h : c.resolves t task = false) : Fails c t task e ↔ e = .notFound := by
  have hnone (job : RenderJob) : ¬Carries c t task job := fun hjob => by
    rw [(carries_iff.1 hjob).1] at h
    cases h
  refine ⟨fun hfails => ?_, .paths hnone⟩
  cases hfails with
  | paths _ he => exact he
  | looking hjob => exact (hnone _ hjob).elim
  | folders hjob => exact (hnone _ hjob).elim

theorem fails_of_resolves {t : Tree} {task : ConversionTask} {e : SystemError}
    (h : c.resolves t task = true) : Fails c t task e ↔
      (c.plan t task).LookFails t e ∨ (c.plan t task).IsStale t ∧
        ∃ up, parent? (c.plan t task).dest = some up ∧ (t.createDirAll up).1 = .error e := by
  have hcarries : Carries c t task (c.plan t task) := carries_iff.2 ⟨h, rfl⟩
  constructor
  · intro hfails
    cases hfails with
    | paths hnone _ => exact (hnone _ hcarries).elim
    | looking hjob hlook =>
      obtain ⟨-, rfl⟩ := carries_iff.1 hjob
      exact .inl hlook
    | folders hjob hstale hup hmade =>
      obtain ⟨-, rfl⟩ := carries_iff.1 hjob
      exact .inr ⟨hstale, _, hup, hmade⟩
  · rintro (hlook | ⟨hstale, up, hup, hmade⟩)
    · exact .looking hcarries hlook
    · exact .folders hcarries hstale hup hmade

/-- What fails at a turn is the first of its file operations that does. -/
theorem Turn.fault?_eq_some (c : Config) (t : Turn σ) (e : SystemError) :
    t.fault? c = some e ↔ Fails c t.before.files t.task e := by
  unfold Turn.fault?
  cases hresolves : c.resolves t.before.files t.task with
  | false =>
    rw [fails_of_not_resolves hresolves, Turn.state, hresolves]
    exact ⟨fun h => (Option.some.inj h).symm, fun h => congrArg some h.symm⟩
  | true =>
    rw [fails_of_resolves hresolves, ← freshness_eq_error, ← freshness_render,
      Turn.state_of_resolves hresolves]
    change _ ↔ freshness t.before.files (t.job c).source (t.job c).dest = .error e ∨
      freshness t.before.files (t.job c).source (t.job c).dest = .ok .render ∧
        ∃ up, parent? (t.job c).dest = some up ∧ (t.before.files.createDirAll up).1 = .error e
    rw [← Turn.withFolders_error]
    cases freshness t.before.files (t.job c).source (t.job c).dest with
    | error fault => simp
    | ok state =>
      cases state with
      | missingSource => simp
      | upToDate => simp
      | render => cases (t.withFolders c).1 <;> simp

/-- The renderer is called for stale rasters. -/
theorem Turn.calls_iff_isStale (c : Config) (t : Turn σ) : t.calls c = true ↔
    (∃ job, Carries c t.before.files t.task job ∧ job.IsStale t.before.files) ∧
      ∀ e, ¬Fails c t.before.files t.task e := by
  have hfault : t.fault? c = none ↔ ∀ e, ¬Fails c t.before.files t.task e := by
    simp only [Option.eq_none_iff_forall_ne_some, ne_eq, t.fault?_eq_some c]
  rw [Turn.calls_iff, hfault]
  refine and_congr_left fun _ => ?_
  constructor
  · intro hstate
    obtain ⟨hresolves, hfreshness⟩ := Turn.resolves_of_state hstate
    exact ⟨t.job c, Turn.carries_job hresolves, freshness_render.1 hfreshness⟩
  · rintro ⟨job, hjob, hstale⟩
    obtain ⟨hresolves, rfl⟩ := carries_iff.1 hjob
    rw [Turn.state_of_resolves hresolves]
    exact freshness_render.2 hstale

theorem Turn.missesSource_iff (c : Config) (t : Turn σ) :
    t.isAbsent c = true ↔ MissesSource c t.before.files t.task := by
  rw [Turn.isAbsent_iff]
  constructor
  · intro hstate
    obtain ⟨hresolves, hfreshness⟩ := Turn.resolves_of_state hstate
    obtain ⟨path, hpath, hstat⟩ := freshness_missing.1 hfreshness
    obtain ⟨reference, href, rfl⟩ := exists_of_sourcePath (RenderJob.mem_sourcePath?.2 hpath)
    have hcarries := Turn.carries_job hresolves
    obtain ⟨path, hpath', hleads⟩ := hcarries.file reference href
    obtain rfl := ImageSource.file.inj (hpath.symm.trans hpath')
    exact ⟨⟨_, hcarries.dest⟩, reference, _, href, hleads, hstat⟩
  · rintro ⟨⟨dest, hdest⟩, reference, path, href, hpath, hstat⟩
    have hcarries : Carries c t.before.files t.task
        ⟨.file path, t.task.descriptor.size, dest⟩ := by
      refine ⟨fun reference' href' => ?_, fun markup hmarkup => ?_, rfl, rfl, hdest⟩
      · obtain rfl := ImageSource.file.inj (href.symm.trans href')
        exact ⟨path, rfl, hpath⟩
      · cases href.symm.trans hmarkup
    obtain ⟨hresolves, hjob⟩ := carries_iff.1 hcarries
    rw [Turn.state, if_pos hresolves, Turn.job, ← hjob]
    exact freshness_missing.2 ⟨path, rfl, hstat⟩

theorem Turn.warns {t : Turn σ} (h : t.isAbsent c = true) :
    Warns c t.before.files t.task (t.warning c) := by
  have hresolves := (Turn.resolves_of_state ((t.isAbsent_iff c).1 h)).1
  obtain ⟨-, reference, -, href, -⟩ := (t.missesSource_iff c).1 h
  obtain ⟨path, hpath, hleads⟩ := (Turn.carries_job hresolves).file reference href
  have htext : (t.warning c).text = "could not find `" ++ reference ++ "` at `" ++ path ++ "`" := by
    show (t.job c).missingText t.task = _
    unfold RenderJob.missingText
    rw [hpath, href]
    unfold ImageSource.reference
    rfl
  exact ⟨⟨reference, path, href, hleads, htext⟩, rfl, rfl⟩

/-- A conversion is a course of turns, or does nothing at all where the settings ask so. -/
theorem convert_course (c : Config) (r : Renderer σ) (tasks : List ConversionTask) (run : Run σ) :
    if c.disableConvert then
      (convert c r tasks run).1 = .ok () ∧ (convert c r tasks run).2.files = run.files ∧
        (convert c r tasks run).2.memory = run.memory ∧
        (convert c r tasks run).2.jobs = run.jobs ∧
        (convert c r tasks run).2.warnings = run.warnings
    else ∃ ts, Course c r tasks run (convert c r tasks run).1 (convert c r tasks run).2 ts := by
  split
  · rename_i hoff
    simp [convert, hoff, Run.log]
  · rename_i hon
    have hconvert (all : List ConversionTask) : convert c r all run = runTasks c r all run :=
      convert_of_enabled (Bool.eq_false_iff.2 hon) all run
    rw [hconvert]
    have hlinked := linked_turns c r tasks run
    have hlawful : ∀ t ∈ turns c r tasks run, t.Lawful c r := fun t ht => lawful_of_mem_turns c r ht
    have hanswers := answers_turns c r tasks run
    refine ⟨turns c r tasks run, hlinked, hlawful, hanswers, fun t _ => t.fault?_eq_some c,
      fun t _ => t.calls_iff_isStale c, ⟨((turns c r tasks run).filter (Turn.calls c)).map (Turn.job c), ?_, ?_⟩, ?_,
      fun t _ => t.missesSource_iff c,
      ⟨((turns c r tasks run).filter (Turn.isAbsent c)).map (Turn.warning c), ?_, ?_⟩, ?_⟩
    · have hjobs := hlinked.adds Run.jobs fun t ht => (hlawful t ht).jobs
      rw [hjobs, filter_eq_flatMap, List.map_flatMap]
      congr 2
      funext t
      split <;> rfl
    · refine List.forall₂_map_right_iff.2 (List.forall₂_same.2 fun t ht => ?_)
      have hstate := Turn.state_of_calls (List.mem_filter.1 ht).2
      exact Turn.carries_job (Turn.resolves_of_state hstate).1
    · intro t ht
      have hcalls : t.calls c = true := (List.mem_filter.1 ((List.dropLast_sublist _).subset ht)).2
      have hmem := (List.mem_filter.1 ((List.dropLast_sublist _).subset ht)).1
      rw [(hlawful t hmem).result_of_calls hcalls]
      unfold Answers at hanswers
      split at hanswers
      · exact hanswers.2 t hmem
      · obtain ⟨-, earlier, last, hts, hall, -⟩ := hanswers
        rw [hts] at ht
        exact hall t (mem_dropLast_filter ht)
    · have hwarnings := hlinked.adds Run.warnings fun t ht => (hlawful t ht).warnings
      rw [hwarnings, filter_eq_flatMap, List.map_flatMap]
      congr 2
      funext t
      split <;> rfl
    · exact List.forall₂_map_right_iff.2 (List.forall₂_same.2 fun t ht =>
        Turn.warns (List.mem_filter.1 ht).2)
    · intro hanswer others
      cases hrun : (runTasks c r tasks run).1 with
      | ok _ => exact absurd hrun hanswer
      | error e => rw [hconvert, runTasks_turns_append c r hrun, ← hrun]

end Conversion

end RasterFallback
