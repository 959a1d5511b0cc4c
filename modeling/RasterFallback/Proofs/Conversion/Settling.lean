import RasterFallback.Proofs.Conversion.Delivery
import RasterFallback.Proofs.Conversion.Turns

/-!
Conversions that succeed settle their jobs: each raster is there and current, but for those
whose source is missing. Later turns of the same conversion leave a settled job settled,
though they make directories and rasters, and where all is settled there is nothing to do.
-/
namespace RasterFallback
open RasterFallback.Files RasterFallback.Files.Tree

section Definitions

variable (job : RenderJob) (jobs : List RenderJob) (t : Tree)

/-- No source of the jobs is younger than `time`. -/
def Late (time : Nat) : Prop := ∀ job ∈ jobs, ∀ m ∈ job.sourceTime? t, m ≤ time

/-- The source is not on the way to the raster of the other job, nor behind it. -/
def RenderJob.ApartFrom (other : RenderJob) : Prop :=
  ∀ path ∈ job.sourcePath?,
    ¬placeOf path <+: placeOf other.dest ∧ ¬placeOf other.dest <+: placeOf path

/-- All paths of the jobs are direct, and sources and rasters are apart. -/
structure Apart : Prop where
  direct : ∀ job ∈ jobs, ∀ path ∈ job.paths, IsDirect path
  apart : ∀ job ∈ jobs, ∀ other ∈ jobs, job.ApartFrom other

/-- Some raster at the place is spelled with a slash or a dot at its end, and found only where a
directory stands. -/
def AskedForDir (p : Place) : Prop :=
  ∃ job ∈ jobs, placeOf job.dest = p ∧ AsksForDir job.dest

/-- Where a raster is a directory that leads to another raster, its source is no younger than
the clock of the tree. -/
def NestedInPast : Prop :=
  ∀ job ∈ jobs, ∀ m ∈ job.sourceTime? t, ∀ other ∈ jobs,
    placeOf job.dest <+: placeOf other.dest → placeOf job.dest ≠ placeOf other.dest → m ≤ t.clock

instance (time : Nat) : Decidable (Late jobs t time) :=
  inferInstanceAs (Decidable (∀ job ∈ jobs, ∀ m ∈ job.sourceTime? t, m ≤ time))

instance (other : RenderJob) : Decidable (job.ApartFrom other) :=
  inferInstanceAs (Decidable (∀ path ∈ job.sourcePath?,
    ¬placeOf path <+: placeOf other.dest ∧ ¬placeOf other.dest <+: placeOf path))

instance (p : Place) : Decidable (AskedForDir jobs p) :=
  inferInstanceAs (Decidable (∃ job ∈ jobs, placeOf job.dest = p ∧ AsksForDir job.dest))

instance : Decidable (NestedInPast jobs t) :=
  inferInstanceAs (Decidable (∀ job ∈ jobs, ∀ m ∈ job.sourceTime? t, ∀ other ∈ jobs,
    placeOf job.dest <+: placeOf other.dest → placeOf job.dest ≠ placeOf other.dest →
      m ≤ t.clock))

end Definitions

/-- The raster at `p` may be renewed, and else only directories on the way to it change. -/
structure Renews (jobs : List RenderJob) (start : Tree) (p : Place) (t t' : Tree) : Prop where
  home : t.KeepsHome t'
  clock : t.clock ≤ t'.clock
  wellFormed : t.WellFormed → t'.WellFormed
  others : ∀ q, q ≠ p → KeptBut p t t' q
  raster : t'.get? p = t.get? p ∨
    (∃ e, t'.get? p = some e ∧ Late jobs start e.modified) ∧
      (AskedForDir jobs p → t.IsDir p → t'.IsDir p)

/-- The tree as a conversion of the jobs leaves it, at any turn: sources are as they were. -/
structure Since (jobs : List RenderJob) (t t' : Tree) : Prop where
  home : t.KeepsHome t'
  clock : t.clock ≤ t'.clock
  wellFormed : t'.WellFormed
  sources : ∀ job ∈ jobs, ∀ path, job.source = .file path →
    t'.get? (placeOf path) = t.get? (placeOf path)

/-- The source is missing for good: nothing stands at its place, whose path is in order. -/
def RenderJob.Lost (job : RenderJob) (t : Tree) : Prop :=
  ∃ path, job.source = .file path ∧ checkPath path = .ok () ∧ t.Vacant (placeOf path)

section Paths

variable {jobs : List RenderJob} {job : RenderJob} {t : Tree} {path : String}

theorem Apart.dest (h : Apart jobs) (hjob : job ∈ jobs) : IsDirect job.dest :=
  h.direct job hjob job.dest job.dest_mem_paths

theorem Apart.source (h : Apart jobs) (hjob : job ∈ jobs) (hpath : job.source = .file path) :
    IsDirect path := h.direct job hjob path (job.mem_paths hpath)

theorem RenderJob.Lost.lacksSource (h : job.Lost t)
    (hdirect : ∀ path, job.source = .file path → IsDirect path) : job.lacksSource t = true := by
  obtain ⟨path, hpath, -, hvacant⟩ := h
  unfold RenderJob.lacksSource
  cases hstat : t.stat path with
  | ok e => exact absurd hstat ((hdirect path hpath).stat_ne_ok hvacant e)
  | error fault => simp [hpath, hstat]

end Paths

section Step

variable {jobs : List RenderJob} {job other : RenderJob} {p up : Place}
  {start t t' : Tree}

theorem Renews.refl (jobs : List RenderJob) (start : Tree) (p : Place) (t : Tree) :
    Renews jobs start p t t :=
  ⟨.refl t, Nat.le_refl _, id, fun _ _ => .inl rfl, .inl rfl⟩

theorem Delivers.renews {dest : String} (h : Delivers (Late jobs start) dest t t')
    (hdirect : IsDirect dest)
    (hdir : AskedForDir jobs (placeOf dest) → t.IsDir (placeOf dest) → t'.IsDir (placeOf dest)) :
    Renews jobs start (placeOf dest) t t' := by
  obtain ⟨raster, hraster, hlate⟩ := h.raster
  exact ⟨h.keepsHome, h.clock, h.wellFormed, h.others,
    .inr ⟨⟨raster, hdirect.get?_of_stat hraster, hlate⟩, hdir⟩⟩

/-- Directories above a raster are made before it. -/
theorem renews_of_grows {name : String} (h : Grows up t t') :
    Renews jobs start (up ++ [name]) t t' := by
  refine ⟨.inl h.home, Nat.le_of_eq h.clock.symm, h.wellFormed, fun q _ => ?_, .inl ?_⟩
  · rcases h.places q with hsame | ⟨hq, hold, hnew⟩
    · exact .inl hsame
    · exact .inr ⟨hq.trans (List.prefix_append ..), hold, t.clock, hnew, Nat.le_refl _⟩
  · refine (h.places _).resolve_right fun ⟨hle, _⟩ => ?_
    have hlength := hle.length_le
    rw [List.length_append, List.length_singleton] at hlength
    omega

/-- What is not on the way to a raster, nor behind it, is left alone. -/
theorem Renews.get?_eq (h : Renews jobs start p t t') {q : Place} (hq : ¬q <+: p) :
    t'.get? q = t.get? q := by
  have hne : q ≠ p := fun heq => hq (heq ▸ List.prefix_rfl)
  exact (h.others q hne).resolve_right fun ⟨hle, _⟩ => hq hle

theorem Since.refl (hwf : t.WellFormed) : Since jobs t t :=
  ⟨.refl t, Nat.le_refl _, hwf, fun _ _ _ _ => rfl⟩

variable (hpaths : Apart jobs) (hsince : Since jobs start t)
include hpaths

theorem Since.renews (hsince : Since jobs start t) (hother : other ∈ jobs)
    (h : Renews jobs start (placeOf other.dest) t t') : Since jobs start t' := by
  refine ⟨hsince.home.trans h.home, Nat.le_trans hsince.clock h.clock,
    h.wellFormed hsince.wellFormed, fun job hjob path hpath => ?_⟩
  rw [h.get?_eq (hpaths.apart job hjob other hother path (RenderJob.mem_sourcePath?.2 hpath)).1,
    hsince.sources job hjob path hpath]

/-- A missing source stays missing. -/
theorem RenderJob.Lost.renews (hlost : job.Lost t) (hjob : job ∈ jobs) (hother : other ∈ jobs)
    (h : Renews jobs start (placeOf other.dest) t t') : job.Lost t' := by
  obtain ⟨path, hpath, hcheck, hvacant⟩ := hlost
  refine ⟨path, hpath, hcheck, ?_, fun q hq => ?_⟩
  · rw [h.get?_eq (hpaths.apart job hjob other hother path (RenderJob.mem_sourcePath?.2 hpath)).1,
      hvacant.nothing]
  · have hne : q ≠ placeOf other.dest :=
      fun heq =>
        (hpaths.apart job hjob other hother path (RenderJob.mem_sourcePath?.2 hpath)).2 (heq ▸ hq)
    rcases h.others q hne with hsame | ⟨-, -, m, hm, -⟩
    · rw [hsame, isDir_of_eq hsame]
      exact hvacant.way q hq
    · exact .inr ⟨m, hm⟩

include hsince

/-- The sources that are found are those of the start. -/
theorem Since.stat_source (hstart : start.WellFormed) (hjob : job ∈ jobs) {path : String}
    (hpath : job.source = .file path) {e : Entry} :
    t.stat path = .ok e ↔ start.stat path = .ok e := by
  have hdirect := hpaths.source hjob hpath
  have hsame := hsince.sources job hjob path hpath
  constructor
  · intro hstat
    exact hdirect.stat_of_get? hstart hstat (by rw [← hsame, hdirect.get?_of_stat hstat])
      fun _ => id
  · intro hstat
    exact hdirect.stat_of_get? hsince.wellFormed hstat
      (by rw [hsame, hdirect.get?_of_stat hstat]) fun _ => id

/-- A current raster stays current. -/
theorem RenderJob.IsCurrent.renews (hcurrent : job.IsCurrent t) (hstart : start.WellFormed)
    (hnested : NestedInPast jobs start) (hjob : job ∈ jobs) (hother : other ∈ jobs)
    (h : Renews jobs start (placeOf other.dest) t t') : job.IsCurrent t' := by
  obtain ⟨raster, hraster, hall⟩ := hcurrent
  have hdirect := hpaths.dest hjob
  have hget := hdirect.get?_of_stat hraster
  have hsince' := hsince.renews hpaths hother h
  -- It is enough that a raster is there, a directory if that is asked for, and sources are older.
  have hrenewed : ∀ e, t'.get? (placeOf job.dest) = some e →
      (AsksForDir job.dest → raster.isDir = true → e.isDir = true) →
      (∀ path source, job.source = .file path → start.stat path = .ok source →
        source.modified ≤ raster.modified → source.modified ≤ e.modified) →
      job.IsCurrent t' := by
    intro e he hdir htime
    refine ⟨e, hdirect.stat_of_get? hsince'.wellFormed hraster he hdir, fun path hpath => ?_⟩
    obtain ⟨source, hfound, hold⟩ := hall path hpath
    have hstarted := (hsince.stat_source hpaths hstart hjob hpath).1 hfound
    exact ⟨source, (hsince'.stat_source hpaths hstart hjob hpath).2 hstarted,
      htime path source hpath hstarted hold⟩
  have hkept (hsame : t'.get? (placeOf job.dest) = t.get? (placeOf job.dest)) :
      job.IsCurrent t' :=
    hrenewed raster (by rw [hsame, hget]) (fun _ => id) fun _ _ _ _ => id
  by_cases heq : placeOf job.dest = placeOf other.dest
  · rw [← heq] at h
    rcases h.raster with hsame | ⟨⟨e, he, hlate⟩, hdir⟩
    · exact hkept hsame
    · refine hrenewed e he (fun hasks hraster => ?_) fun path source hpath hstarted _ =>
        hlate job hjob _ (RenderJob.modified_mem_sourceTime? hpath hstarted)
      cases raster with
      | dir m =>
        obtain ⟨m', hm'⟩ := hdir ⟨job, hjob, rfl, hasks⟩ ⟨m, hget⟩
        rw [Option.some.inj (he.symm.trans hm')]
        rfl
      | file content m => cases hraster
      | device d m => cases hraster
  · rcases h.others _ heq with hsame | ⟨hle, -, m, hm, hclock⟩
    · exact hkept hsame
    · refine hrenewed (.dir m) hm (fun _ _ => rfl) fun path source hpath hstarted _ => ?_
      have hpast := hnested job hjob _ (RenderJob.modified_mem_sourceTime? hpath hstarted)
        other hother hle heq
      exact Nat.le_trans hpast (Nat.le_trans hsince.clock hclock)

end Step

/-- What a turn passes on: what was settled in `t` still is in `t'`. -/
structure Keeps (jobs : List RenderJob) (start t t' : Tree) : Prop where
  since : Since jobs start t'
  lost : ∀ job ∈ jobs, job.Lost t → job.Lost t'
  current : ∀ job ∈ jobs, job.IsCurrent t → job.IsCurrent t'

section Turns

variable {σ : Type} {c : Config} {r : Renderer σ} {jobs : List RenderJob} {start : Tree}

theorem Keeps.refl {t : Tree} (h : Since jobs start t) : Keeps jobs start t t :=
  ⟨h, fun _ _ => id, fun _ _ => id⟩

theorem Keeps.trans {t t' t'' : Tree} (h : Keeps jobs start t t') (h' : Keeps jobs start t' t'') :
    Keeps jobs start t t'' :=
  ⟨h'.since, fun job hjob hlost => h'.lost job hjob (h.lost job hjob hlost),
    fun job hjob hcurrent => h'.current job hjob (h.current job hjob hcurrent)⟩

theorem Since.keeps {t t' : Tree} {other : RenderJob} (hpaths : Apart jobs)
    (hnested : NestedInPast jobs start) (hstart : start.WellFormed) (hsince : Since jobs start t)
    (hother : other ∈ jobs) (h : Renews jobs start (placeOf other.dest) t t') :
    Keeps jobs start t t' :=
  ⟨hsince.renews hpaths hother h,
    fun _ hjob hlost => hlost.renews hpaths hjob hother h,
    fun _ hjob hcurrent => hcurrent.renews hpaths hsince hstart hnested hjob hother h⟩

/-- A turn is settled if its source is missing, or else its raster is current in the end. -/
def Turn.Settled (c : Config) (t : Turn σ) : Prop :=
  if t.isAbsent c then (t.job c).Lost t.after.files else (t.job c).IsCurrent t.after.files

/-- Where a destination asks for a directory the renderer leaves one, if one was there. -/
def Turn.SparesDir (c : Config) (r : Renderer σ) (jobs : List RenderJob) (t : Turn σ) : Prop :=
  AskedForDir jobs (placeOf (t.job c).dest) → (t.withFolders c).2.IsDir (placeOf (t.job c).dest) →
    (t.rendered c r).files.IsDir (placeOf (t.job c).dest)

theorem Turn.withFolders_renews (jobs : List RenderJob) (start : Tree) (t : Turn σ)
    (hdirect : IsDirect (t.job c).dest) :
    Renews jobs start (placeOf (t.job c).dest) t.before.files (t.withFolders c).2 := by
  unfold Turn.withFolders
  split
  · rename_i up hup
    obtain ⟨hdirect', name, hplace⟩ := hdirect.parent hup
    rw [hplace]
    exact renews_of_grows (hdirect'.grows_createDirAll t.before.files)
  · exact .refl ..

/-- A turn that ends well keeps what is settled, and is settled itself. -/
theorem Turn.Lawful.settles {t : Turn σ} (h : t.Lawful c r) (hpaths : Apart jobs)
    (hnested : NestedInPast jobs start) (hstart : start.WellFormed)
    (hsince : Since jobs start t.before.files) (hjob : t.job c ∈ jobs)
    (hdelivers : t.calls c = true → (t.rendered c r).result = .ok () →
      Delivers (Late jobs start) (t.job c).dest (t.withFolders c).2 (t.rendered c r).files ∧
        t.SparesDir c r jobs)
    (hok : t.outcome = .ok ()) :
    Keeps jobs start t.before.files t.after.files ∧ t.Settled c := by
  have hfault := h.fault?_of_ok hok
  have hfiles := h.files
  unfold Turn.Settled
  cases hstate : t.state c with
  | error e => simp [Turn.fault?, hstate] at hfault
  | ok state =>
    rw [hstate] at hfiles
    cases state with
    | missingSource =>
      obtain ⟨path, hpath, hstat⟩ := freshness_missing.1 (Turn.resolves_of_state hstate).2
      have hdirect := hpaths.source hjob hpath
      rw [if_pos ((t.isAbsent_iff c).2 hstate), hfiles]
      exact ⟨.refl hsince, path, hpath, checkPath_of_notFound hdirect.absolute hstat,
        hdirect.vacant_of_notFound hsince.wellFormed hstat⟩
    | upToDate =>
      have hpresent : ¬t.isAbsent c = true := by simp [t.isAbsent_iff c, hstate]
      rw [if_neg hpresent, hfiles]
      exact ⟨.refl hsince, freshness_upToDate.1 (Turn.resolves_of_state hstate).2⟩
    | render =>
      have hpresent : ¬t.isAbsent c = true := by simp [t.isAbsent_iff c, hstate]
      have hmade : (t.withFolders c).1 = .ok () := by
        cases hmade : (t.withFolders c).1 with
        | ok _ => rfl
        | error e => simp [Turn.fault?, hstate, hmade] at hfault
      have hcalls : t.calls c = true := by simp [Turn.calls, hstate, hmade]
      have hresult : (t.rendered c r).result = .ok () := by rw [h.result_of_calls hcalls, hok]
      rw [if_neg hpresent, hfiles]
      simp only [hcalls, if_true]
      obtain ⟨hdelivered, hspares⟩ := hdelivers hcalls hresult
      have hdirect := hpaths.dest hjob
      have hfolders : Keeps jobs start t.before.files (t.withFolders c).2 :=
        hsince.keeps hpaths hnested hstart hjob (t.withFolders_renews _ _ hdirect)
      have hrendered : Keeps jobs start (t.withFolders c).2 (t.rendered c r).files :=
        hfolders.since.keeps hpaths hnested hstart hjob (hdelivered.renews hdirect hspares)
      refine ⟨hfolders.trans hrendered, ?_⟩
      obtain ⟨raster, hraster, hlate⟩ := hdelivered.raster
      refine ⟨raster, hraster, fun path hpath => ?_⟩
      obtain ⟨source, hfound⟩ := source_of_freshness_render (Turn.resolves_of_state hstate).2 hpath
      have hstarted := (hsince.stat_source hpaths hstart hjob hpath).1 hfound
      exact ⟨source, (hrendered.since.stat_source hpaths hstart hjob hpath).2 hstarted,
        hlate _ hjob _ (RenderJob.modified_mem_sourceTime? hpath hstarted)⟩

end Turns

/-- The warning about a task whose source is missing. -/
def Config.missingWarning (c : Config) (t : Tree) (task : ConversionTask) : Warning :=
  task.warning ((c.plan t task).missingText task)

section Runs

variable {σ : Type} {c : Config} {r : Renderer σ}

/-- What comes of a task depends on the files, and on what the renderer remembers. -/
theorem runTask_congr {run run' : Run σ} (hfiles : run'.files = run.files)
    (hmemory : run'.memory = run.memory) (task : ConversionTask) :
    (runTask c r task run').1 = (runTask c r task run).1 ∧
      (runTask c r task run').2.files = (runTask c r task run).2.files := by
  obtain ⟨files, memory, warnings, jobs, events⟩ := run
  obtain ⟨files', memory', warnings', jobs', events'⟩ := run'
  obtain rfl : files' = files := hfiles
  obtain rfl : memory' = memory := hmemory
  unfold runTask
  dsimp only
  split
  · exact ⟨rfl, rfl⟩
  · split
    · exact ⟨rfl, rfl⟩
    · exact ⟨rfl, rfl⟩
    · exact ⟨rfl, rfl⟩
    · split <;> exact ⟨rfl, rfl⟩

theorem filter_lacksSource_cons (c : Config) (start t : Tree) (task : ConversionTask)
    (tasks : List ConversionTask) :
    ((task :: tasks).filter fun task => (c.plan start task).lacksSource t).map
        (c.missingWarning start) =
      (if (c.plan start task).lacksSource t then [c.missingWarning start task] else []) ++
        (tasks.filter fun task => (c.plan start task).lacksSource t).map
          (c.missingWarning start) := by
  rw [List.filter_cons]
  split <;> rfl

/-- Tasks that are all done settle, and keep what was settled before. -/
theorem runTasks_settles {jobs : List RenderJob} {start : Tree} (hpaths : Apart jobs)
    (hnested : NestedInPast jobs start) (hstart : start.WellFormed) (tasks : List ConversionTask)
    (run : Run σ) (hsince : Since jobs start run.files)
    (hjobs : ∀ task ∈ tasks, c.plan start task ∈ jobs)
    (hdelivers : ∀ t ∈ turns c r tasks run, t.calls c = true → (t.rendered c r).result = .ok () →
      Delivers (Late jobs start) (t.job c).dest (t.withFolders c).2 (t.rendered c r).files ∧
        t.SparesDir c r jobs)
    (hok : (runTasks c r tasks run).1 = .ok ()) :
    Keeps jobs start run.files (runTasks c r tasks run).2.files ∧
      (∀ task ∈ tasks, (c.plan start task).Lost (runTasks c r tasks run).2.files ∨
        (c.plan start task).IsCurrent (runTasks c r tasks run).2.files) ∧
      (runTasks c r tasks run).2.warnings = run.warnings ++ (tasks.filter fun task =>
        (c.plan start task).lacksSource (runTasks c r tasks run).2.files).map
          (c.missingWarning start) := by
  induction tasks generalizing run with
  | nil => exact ⟨.refl hsince, List.forall_mem_nil _, (List.append_nil _).symm⟩
  | cons task tasks ih =>
    have hlawful := turnOf_lawful c r task run
    have hmem : c.plan start task ∈ jobs := hjobs task (List.mem_cons_self ..)
    rw [turns_cons] at hdelivers
    rw [runTasks_cons] at hok ⊢
    cases ho : (turnOf c r task run).outcome with
    | error e =>
      rw [ho] at hok
      cases hok
    | ok _ =>
      rw [ho] at hok hdelivers
      dsimp only at hok hdelivers ⊢
      have hjob : (turnOf c r task run).job c = c.plan start task :=
        plan_of_resolves hsince.home (hlawful.resolves_of_ok ho)
      have hfirst := hdelivers _ (List.mem_cons_self ..)
      obtain ⟨hkeeps, hsettled⟩ := hlawful.settles hpaths hnested hstart hsince
        (by rw [hjob]; exact hmem) hfirst ho
      obtain ⟨hmore, hall, hwarnings⟩ := ih (turnOf c r task run).after hkeeps.since
        (fun task htask => hjobs task (List.mem_cons_of_mem _ htask))
        (fun t ht => hdelivers t (List.mem_cons_of_mem _ ht)) hok
      have hdirect : ∀ path, (c.plan start task).source = .file path → IsDirect path :=
        fun path => hpaths.source hmem
      unfold Turn.Settled at hsettled
      rw [hjob] at hsettled
      have hwarned := hlawful.warnings
      refine ⟨hkeeps.trans hmore, ?_, ?_⟩
      · intro other hother
        rcases List.mem_cons.1 hother with rfl | hother
        · split at hsettled
          · exact .inl (hmore.lost _ hmem hsettled)
          · exact .inr (hmore.current _ hmem hsettled)
        · exact hall other hother
      · rw [hwarnings, hwarned, filter_lacksSource_cons, List.append_assoc]
        have hwarning : (turnOf c r task run).warning c = c.missingWarning start task := by
          unfold Turn.warning Config.missingWarning
          rw [hjob]
          rfl
        rw [hwarning]
        split at hsettled
        · rename_i habsent
          rw [habsent, (hmore.lost _ hmem hsettled).lacksSource hdirect]
          rfl
        · rename_i hpresent
          rw [if_neg hpresent, (hmore.current _ hmem hsettled).not_lacksSource]
          rfl

/-- Names of a fair length are looked for, and found missing where a source is lost. -/
theorem RenderJob.Lost.freshness {job : RenderJob} {t : Tree} (h : job.Lost t)
    (hdirect : ∀ path, job.source = .file path → IsDirect path)
    (hshort : ∀ path, job.source = .file path →
      ∀ name ∈ steps path, name.utf8ByteSize ≤ nameLimit) :
    freshness t job.source job.dest = .ok .missingSource := by
  obtain ⟨path, hpath, hcheck, hvacant⟩ := h
  exact freshness_missing.2 ⟨path, hpath,
    (hdirect path hpath).stat_of_vacant hcheck (hshort path hpath) hvacant⟩

/-- Where all is settled there is nothing to do. -/
theorem runTasks_of_settled {start : Tree} (tasks : List ConversionTask) (run : Run σ)
    (hhome : start.KeepsHome run.files)
    (hresolves : ∀ task ∈ tasks, c.resolves run.files task = true)
    (hsettled : ∀ task ∈ tasks,
      freshness run.files (c.plan start task).source (c.plan start task).dest =
        .ok (if (c.plan start task).lacksSource run.files then .missingSource else .upToDate)) :
    (runTasks c r tasks run).1 = .ok () ∧
      (runTasks c r tasks run).2.files = run.files ∧
      (runTasks c r tasks run).2.memory = run.memory ∧
      (runTasks c r tasks run).2.jobs = run.jobs ∧
      (runTasks c r tasks run).2.warnings = run.warnings ++ (tasks.filter fun task =>
        (c.plan start task).lacksSource run.files).map (c.missingWarning start) := by
  induction tasks generalizing run with
  | nil => exact ⟨rfl, rfl, rfl, rfl, (List.append_nil _).symm⟩
  | cons task tasks ih =>
    have hlawful := turnOf_lawful c r task run
    have htask : c.resolves (turnOf c r task run).before.files (turnOf c r task run).task = true :=
      hresolves task (List.mem_cons_self ..)
    have hjob : (turnOf c r task run).job c = c.plan start task := plan_of_resolves hhome htask
    have hwarning : (turnOf c r task run).warning c = c.missingWarning start task := by
      unfold Turn.warning Config.missingWarning
      rw [hjob]
      rfl
    have hstate : (turnOf c r task run).state c =
        .ok (if (c.plan start task).lacksSource run.files then .missingSource else .upToDate) := by
      rw [Turn.state, if_pos htask, hjob]
      exact hsettled task (List.mem_cons_self ..)
    have habsent :
        (turnOf c r task run).isAbsent c = (c.plan start task).lacksSource run.files := by
      rw [Bool.eq_iff_iff, Turn.isAbsent_iff, hstate]
      cases (c.plan start task).lacksSource run.files <;> simp
    obtain ⟨hcalls, hfault⟩ := Turn.idle hstate (by
      cases (c.plan start task).lacksSource run.files <;> decide)
    have houtcome : (turnOf c r task run).outcome = .ok () := by
      rw [hlawful.outcome, hfault, hcalls]
      rfl
    have hfiles : (turnOf c r task run).after.files = run.files := by
      rw [hlawful.files, hstate]
      cases (c.plan start task).lacksSource run.files <;> rfl
    obtain ⟨hok, hsame, hmemory, hjobs, hwarnings⟩ := ih (turnOf c r task run).after
      (by rw [hfiles]; exact hhome)
      (by rw [hfiles]; exact fun task htask => hresolves task (List.mem_cons_of_mem _ htask))
      (by rw [hfiles]; exact fun task htask => hsettled task (List.mem_cons_of_mem _ htask))
    rw [runTasks_cons, houtcome]
    dsimp only
    refine ⟨hok, hsame.trans hfiles, ?_, ?_, ?_⟩
    · rw [hmemory, hlawful.memory, hcalls]
      rfl
    · rw [hjobs, hlawful.jobs, hcalls]
      exact List.append_nil _
    · rw [hwarnings, hlawful.warnings, habsent, hwarning, hfiles, filter_lacksSource_cons,
        List.append_assoc]
      rfl

end Runs

end RasterFallback
