import RasterFallback.Proofs.Conversion.Settling

/-!
A conversion that succeeds is stable. A second conversion of the same tasks, in the files that
the first one left, finds nothing to do and warns of the same sources. What may come between
are names too long to be looked for, rasters that are directories, and a working directory
that the first conversion lost.
-/
namespace RasterFallback
open RasterFallback.Files RasterFallback.Files.Tree

/-- A conversion of tasks in a sound tree, by a renderer that delivers what it reports. The
paths take no steps upwards, and sources and rasters are apart. -/
structure Orderly {σ : Type} (c : Config) (r : Renderer σ) (tasks : List ConversionTask)
    (run : Run σ) : Prop where
  enabled : c.disableConvert = false
  files : run.files.WellFormed
  onward : ∀ task ∈ tasks, ∀ path ∈ (c.plan run.files task).paths, ".." ∉ steps path
  apart : ∀ task ∈ tasks, ∀ other ∈ tasks,
    (c.plan run.files task).ApartFrom (c.plan run.files other)
  delivers : ∀ t ∈ turns c r tasks run, t.calls c = true → (t.rendered c r).result = .ok () →
    Delivers (Late (tasks.map (c.plan run.files)) run.files) (t.job c).dest (t.withFolders c).2
      (t.rendered c r).files

section Stability

variable {σ : Type} {c : Config} {r : Renderer σ} {tasks : List ConversionTask} {run : Run σ}

theorem Orderly.laid (h : Orderly c r tasks run) : Apart (tasks.map (c.plan run.files)) := by
  constructor
  · intro job hjob path hpath
    obtain ⟨task, htask, rfl⟩ := List.mem_map.1 hjob
    exact ⟨isAbsolute_paths run.files task path hpath, h.onward task htask path hpath⟩
  · intro job hjob other hother
    obtain ⟨task, htask, rfl⟩ := List.mem_map.1 hjob
    obtain ⟨task', htask', rfl⟩ := List.mem_map.1 hother
    exact h.apart task htask task' htask'

/-- After a conversion that succeeds every raster is current, but for those whose source is
missing, each of which has its warning: where no source of a raster that leads to another is
from the future, and no directory is replaced where a destination is spelled with a slash or a
dot at its end. A second conversion does nothing but warn again, where no name in the path of a
source is too long to be looked for, and no path needs a working directory that is gone. -/
theorem convert_stable (h : Orderly c r tasks run)
    (hnested : NestedInPast (tasks.map (c.plan run.files)) run.files)
    (hspares : ∀ t ∈ turns c r tasks run, t.calls c = true → (t.rendered c r).result = .ok () →
      t.SparesDir c r (tasks.map (c.plan run.files)))
    (hok : (convert c r tasks run).1 = .ok ()) :
    let files := (convert c r tasks run).2.files
    let warned := (tasks.filter fun task => (c.plan run.files task).lacksSource files).map
      (c.missingWarning run.files)
    (∀ task ∈ tasks, (c.plan run.files task).lacksSource files = true ∨
        (c.plan run.files task).IsCurrent files) ∧
      (convert c r tasks run).2.warnings = run.warnings ++ warned ∧
      ((∀ task ∈ tasks, ∀ path ∈ (c.plan run.files task).sourcePath?, ∀ name ∈ steps path,
          name.utf8ByteSize ≤ nameLimit) →
        (∀ task ∈ tasks, c.resolves files task = true) →
        ∀ again : Run σ, again.files = files →
          (convert c r tasks again).1 = .ok () ∧
            (convert c r tasks again).2.files = files ∧
            (convert c r tasks again).2.memory = again.memory ∧
            (convert c r tasks again).2.jobs = again.jobs ∧
            (convert c r tasks again).2.warnings = again.warnings ++ warned) := by
  have hconvert (start : Run σ) : convert c r tasks start = runTasks c r tasks start :=
    convert_of_enabled h.enabled tasks start
  have hlaid := h.laid
  have hmem : ∀ task ∈ tasks, c.plan run.files task ∈ tasks.map (c.plan run.files) :=
    fun task htask => List.mem_map_of_mem htask
  rw [hconvert] at hok
  simp only [hconvert]
  obtain ⟨hkeeps, hsettled, hwarnings⟩ := runTasks_settles hlaid hnested h.files tasks run
    (.refl h.files) hmem
    (fun t ht hcalls hresult => ⟨h.delivers t ht hcalls hresult, hspares t ht hcalls hresult⟩) hok
  have hsource (task : ConversionTask) (htask : task ∈ tasks) (path : String) :
      (c.plan run.files task).source = .file path → IsDirect path := hlaid.source (hmem task htask)
  refine ⟨fun task htask => ?_, hwarnings, fun hshort hresolves again hagain => ?_⟩
  · rcases hsettled task htask with hlost | hcurrent
    · exact .inl (hlost.lacksSource (hsource task htask))
    · exact .inr hcurrent
  · have hstate : ∀ task ∈ tasks,
        freshness again.files (c.plan run.files task).source (c.plan run.files task).dest =
          .ok (if (c.plan run.files task).lacksSource again.files then .missingSource
            else .upToDate) := by
      intro task htask
      rw [hagain]
      rcases hsettled task htask with hlost | hcurrent
      · rw [hlost.lacksSource (hsource task htask),
          hlost.freshness (hsource task htask) fun path hpath =>
            hshort task htask path (RenderJob.mem_sourcePath?.2 hpath)]
        rfl
      · rw [hcurrent.not_lacksSource, freshness_upToDate.2 hcurrent]
        rfl
    obtain ⟨hdone, hfiles, hmemory, hjobs, hwarned⟩ := runTasks_of_settled (r := r) tasks again
      (by rw [hagain]; exact hkeeps.since.home) (by rw [hagain]; exact hresolves) hstate
    rw [hagain] at hfiles hwarned
    exact ⟨hdone, hfiles, hmemory, hjobs, hwarned⟩

end Stability

/-- The scripted renderer delivers where it makes a new file. -/
theorem Turn.delivers_of_script {s : Script} {c : Config} {late : Nat → Prop} (t : Turn Unit)
    (hup : ".." ∉ steps (t.job c).dest) (hwrites : s.writes = true) (hlate : late s.clock)
    (hnew : (t.withFolders c).2.get? (placeOf (t.job c).dest) = none)
    (hok : (t.rendered c s.renderer).result = .ok ()) :
    Delivers late (t.job c).dest (t.withFolders c).2 (t.rendered c s.renderer).files := by
  have habs : isAbsolute (t.job c).dest = true :=
    isAbsolute_paths t.before.files t.task _ (t.job c).dest_mem_paths
  refine Script.delivers ⟨habs, hup⟩ hwrites (fun d m hd => ?_) hlate hok
  rw [hnew] at hd
  cases hd

def iconTask (source : ImageSource) (name : String) : ConversionTask :=
  ⟨⟨source, ⟨8, 8⟩, none⟩, name, ".icon", none⟩

def stamp (clock : Nat) : Renderer Unit := ({ clock := clock } : Script).renderer

/-- The source of the first task is there, that of the second is missing. -/
def halfTasks : List ConversionTask :=
  [iconTask (.file "a.svg") "out/a.png", iconTask (.file "b.svg") "out/b.png"]

def halfRun : Run Unit := ⟨⟨[(["a.svg"], .file [] 3)], 5, some []⟩, (), [], [], []⟩

theorem convert_stable_half :
    Orderly {} (stamp 9) halfTasks halfRun ∧
      NestedInPast (halfTasks.map (({} : Config).plan halfRun.files)) halfRun.files ∧
      (∀ t ∈ turns {} (stamp 9) halfTasks halfRun, t.calls {} = true →
        (t.rendered {} (stamp 9)).result = .ok () →
        t.SparesDir {} (stamp 9) (halfTasks.map (({} : Config).plan halfRun.files))) ∧
      (convert {} (stamp 9) halfTasks halfRun).1 = .ok () ∧
      (convert {} (stamp 9) halfTasks halfRun).2.jobs.length = 1 ∧
      (convert {} (stamp 9) halfTasks halfRun).2.warnings.length = 1 ∧
      (convert {} (stamp 9) halfTasks (convert {} (stamp 9) halfTasks halfRun).2).1 = .ok () ∧
      (convert {} (stamp 9) halfTasks (convert {} (stamp 9) halfTasks halfRun).2).2.jobs.length = 1 ∧
      (convert {} (stamp 9) halfTasks (convert {} (stamp 9) halfTasks halfRun).2).2.warnings.length =
        2 := by
  have hlate : Late (halfTasks.map (({} : Config).plan halfRun.files)) halfRun.files 9 := by
    decide +kernel
  have horderly : Orderly {} (stamp 9) halfTasks halfRun := by
    refine ⟨rfl, wellFormed_of_entries (by decide), by decide +kernel, by decide +kernel, ?_⟩
    refine forall_turns_cons (fun _ hok => ?_) (forall_turns_cons (fun hcalls => ?_) ?_)
    · exact Turn.delivers_of_script _ (by decide +kernel) rfl hlate (by decide +kernel) hok
    · exact absurd hcalls (by decide +kernel)
    · exact List.forall_mem_nil _
  have hnested : NestedInPast (halfTasks.map (({} : Config).plan halfRun.files)) halfRun.files := by
    decide +kernel
  have hspares : ∀ t ∈ turns {} (stamp 9) halfTasks halfRun, t.calls {} = true →
      (t.rendered {} (stamp 9)).result = .ok () →
      t.SparesDir {} (stamp 9) (halfTasks.map (({} : Config).plan halfRun.files)) := by
    refine forall_turns_cons (fun _ _ hasked => ?_) (forall_turns_cons (fun hcalls => ?_) ?_)
    · exact absurd hasked (by decide +kernel)
    · exact absurd hcalls (by decide +kernel)
    · exact List.forall_mem_nil _
  have hok : (convert {} (stamp 9) halfTasks halfRun).1 = .ok () := by decide +kernel
  have hjobs : (convert {} (stamp 9) halfTasks halfRun).2.jobs.length = 1 := by decide +kernel
  obtain ⟨-, hwarnings, hagain⟩ := convert_stable horderly hnested hspares hok
  obtain ⟨hdone, -, -, hsame, hwarned⟩ := hagain (by decide +kernel) (by decide +kernel) _ rfl
  refine ⟨horderly, hnested, hspares, hok, hjobs, ?_, hdone, by rw [hsame, hjobs], ?_⟩
  · rw [hwarnings]
    decide +kernel
  · rw [hwarned, hwarnings]
    decide +kernel

/-- The first conversion is in order and succeeds, and yet the second one fails. -/
structure Unstable {σ : Type} (c : Config) (r : Renderer σ) (tasks : List ConversionTask)
    (run : Run σ) (e : Failure) : Prop where
  orderly : Orderly c r tasks run
  first : (convert c r tasks run).1 = .ok ()
  second : (convert c r tasks (convert c r tasks run).2).1 = .error e

/-- After the conversion some raster is not current, though its source is not missing. -/
def Unsettled {σ : Type} (c : Config) (r : Renderer σ) (tasks : List ConversionTask)
    (run : Run σ) : Prop :=
  ∃ task ∈ tasks, (c.plan run.files task).lacksSource (convert c r tasks run).2.files = false ∧
    ¬(c.plan run.files task).IsCurrent (convert c r tasks run).2.files

theorem unsettled_of_freshness {σ : Type} {c : Config} {r : Renderer σ}
    {tasks : List ConversionTask} {run : Run σ} {task : ConversionTask} (htask : task ∈ tasks)
    (hsource : (c.plan run.files task).lacksSource (convert c r tasks run).2.files = false)
    (hstate : freshness (convert c r tasks run).2.files (c.plan run.files task).source
      (c.plan run.files task).dest ≠ .ok .upToDate) : Unsettled c r tasks run :=
  ⟨task, htask, hsource, fun hcurrent => hstate (freshness_upToDate.2 hcurrent)⟩

section LongNames

/-- Behind a directory that may be missing there is a name too long to be looked for. -/
def longName : List Char := List.replicate 256 'x'

def longPath : String := String.ofList ('/' :: 'd' :: '/' :: longName)

theorem slash_not_mem_longName : '/' ∉ longName := fun h => by
  have hslash := List.eq_of_mem_replicate h
  revert hslash
  decide

theorem longName_ne (name : List Char) (h : name.length < 256) :
    String.ofList longName ≠ String.ofList name := by
  intro heq
  have hlength := congrArg List.length (String.ofList_injective heq)
  rw [longName, List.length_replicate] at hlength
  omega

theorem steps_longPath : steps longPath = ["d", String.ofList longName] := by
  have hsplit : splitSlash ('d' :: '/' :: longName) = ['d'] :: [longName] := by
    rw [← splitSlash_of_not_mem slash_not_mem_longName]
    exact splitSlash_append (p := ['d']) (by decide) longName
  rw [longPath, steps_absolute, hsplit]
  rfl

theorem isDirect_longPath : IsDirect longPath := by
  refine ⟨isAbsolute_ofList _, ?_⟩
  rw [steps_longPath]
  have hup : String.ofList longName ≠ ".." := longName_ne ['.', '.'] (by decide)
  simpa using hup.symm

theorem placeOf_longPath : placeOf longPath = ["d", String.ofList longName] := by
  have hdot : String.ofList longName ≠ "." := longName_ne ['.'] (by decide)
  rw [placeOf, steps_longPath]
  simp [hdot]

/-- What asking for a path with a name beyond the limit says, by the entry above it. -/
def longAnswer : Option Entry → Except SystemError Entry
  | none => .error .notFound
  | some (.dir _) => .error .nameTooLong
  | some _ => .error .notDirectory

theorem stat_longPath (t : Tree) : t.stat longPath = longAnswer (t.get? ["d"]) := by
  have hcheck : checkPath longPath = .ok () := by
    have hsize : ¬pathLimit ≤ longPath.utf8ByteSize := by decide +kernel
    have hnull : longPath.toList.contains '\x00' = false := by
      rw [longPath, String.toList_ofList]
      decide +kernel
    unfold checkPath
    rw [hnull, isEmpty_of_isAbsolute isDirect_longPath.absolute, if_neg hsize]
    rfl
  have hwalk : walk longPath = ["d", String.ofList longName] := by
    have hslash : endsInSlash longPath = false := by
      rw [endsInSlash, longPath, String.toList_ofList]
      decide +kernel
    rw [walk, steps_longPath, hslash]
    rfl
  have hlong : nameLimit < (String.ofList longName).utf8ByteSize := by decide +kernel
  have hdots : String.ofList longName ≠ "." ∧ String.ofList longName ≠ ".." :=
    ⟨longName_ne ['.'] (by decide), longName_ne ['.', '.'] (by decide)⟩
  have hfirst : t.follow [] ["d", String.ofList longName] =
      t.follow ["d"] [String.ofList longName] := by
    rw [follow_of_isDir (isDir_root t) (by decide), if_neg (by decide), if_neg (by decide)]
    rfl
  have hlocate : t.locate longPath = t.follow ["d"] [String.ofList longName] := by
    rw [locate_absolute isDirect_longPath.absolute, hcheck, hwalk]
    exact hfirst
  rw [stat, hlocate, follow]
  cases t.get? ["d"] with
  | none => rfl
  | some e =>
    cases e with
    | dir m =>
      simp only [if_neg hdots.1, if_neg hdots.2, if_pos hlong]
      rfl
    | file content m => rfl
    | device d m => rfl

def markupTask : ConversionTask := iconTask (.inline "<svg/>") "d/b.png"

/-- The second task makes the directory in which the source of the first is missing. -/
def longTasks : List ConversionTask :=
  [iconTask (.file longPath) "a.png", markupTask]

def longRun : Run Unit := ⟨⟨[], 5, some []⟩, (), [], [], []⟩

theorem job_long (t : Tree) : ({} : Config).plan t (iconTask (.file longPath) "a.png") =
    ⟨.file longPath, ⟨8, 8⟩, resolve t.homePath "" "a.png"⟩ := by
  have hpath : resolve t.homePath "" longPath = longPath := by
    unfold resolve join
    rw [if_pos isDirect_longPath.absolute]
  show RenderJob.mk (.file (resolve t.homePath "" longPath)) ⟨8, 8⟩ _ = _
  rw [hpath]
  rfl

theorem late_long (time : Nat) :
    Late (longTasks.map (({} : Config).plan longRun.files)) longRun.files time := by
  have hstat : longRun.files.stat longPath = .error .notFound := stat_longPath _
  refine List.forall_mem_cons.2 ⟨?_, List.forall_mem_singleton.2 fun m hm => nomatch hm⟩
  rw [job_long]
  intro m hm
  rw [RenderJob.sourceTime?, RenderJob.sourcePath?, Option.bind_some, hstat] at hm
  cases hm

theorem onward_long : ∀ task ∈ longTasks, ∀ path ∈ (({} : Config).plan longRun.files task).paths,
    ".." ∉ steps path := by
  refine List.forall_mem_cons.2 ⟨?_, List.forall_mem_singleton.2 (by decide)⟩
  rw [job_long]
  refine List.forall_mem_cons.2 ⟨by decide, ?_⟩
  exact List.forall_mem_singleton.2 isDirect_longPath.onward

theorem apart_long : ∀ task ∈ longTasks, ∀ other ∈ longTasks,
    (({} : Config).plan longRun.files task).ApartFrom (({} : Config).plan longRun.files other) := by
  refine List.forall_mem_cons.2 ⟨?_, List.forall_mem_singleton.2 fun _ _ _ hpath => nomatch hpath⟩
  intro other hother path hpath
  rw [job_long] at hpath
  obtain rfl := Option.some.inj hpath
  rw [placeOf_longPath]
  revert other
  refine List.forall_mem_cons.2 ⟨?_, List.forall_mem_singleton.2 ?_⟩
  · rw [job_long]
    decide
  · have hplace : placeOf (({} : Config).plan longRun.files markupTask).dest = ["d", "b.png"] := by
      decide
    have hname : String.ofList longName ≠ "b.png" := longName_ne "b.png".toList (by decide)
    rw [hplace]
    simp [List.cons_prefix_cons, hname, hname.symm]

/-- The turn of the second task, in any run that found the files as they were. -/
theorem markup_turn (run : Run Unit) (hfiles : run.files = longRun.files) :
    (turnOf {} (stamp 9) markupTask run).outcome = .ok () ∧
      (turnOf {} (stamp 9) markupTask run).after.files.IsDir ["d"] ∧
      (turnOf {} (stamp 9) markupTask run).after.files.home = some [] ∧
      Delivers (Late (longTasks.map (({} : Config).plan longRun.files)) longRun.files)
        ((turnOf {} (stamp 9) markupTask run).job {}).dest
        ((turnOf {} (stamp 9) markupTask run).withFolders {}).2
        ((turnOf {} (stamp 9) markupTask run).rendered {} (stamp 9)).files := by
  have halone : (runTask {} (stamp 9) markupTask longRun).1 = .ok () := by decide +kernel
  obtain ⟨houtcome, hafter⟩ := runTask_congr (c := {}) (r := stamp 9) hfiles (Subsingleton.elim _ _)
    markupTask
  rw [halone, ← turnOf_outcome] at houtcome
  obtain ⟨files, memory, warnings, jobs, events⟩ := run
  obtain rfl : files = longRun.files := hfiles
  let t := turnOf {} (stamp 9) markupTask ⟨longRun.files, memory, warnings, jobs, events⟩
  have hdest : (t.job {}).dest = "/d/b.png" := by
    show (Config.plan {} longRun.files markupTask).dest = _
    decide +kernel
  have hfolders : t.withFolders {} = longRun.files.createDirAll "/d" := by
    unfold Turn.withFolders
    rw [hdest, show parent? "/d/b.png" = some "/d" by decide +kernel]
    rfl
  have hup : ".." ∉ steps (t.job {}).dest := by
    rw [hdest]
    decide +kernel
  have hnew : (t.withFolders {}).2.get? (placeOf (t.job {}).dest) = none := by
    rw [hfolders, hdest]
    decide +kernel
  have hlawful : t.Lawful {} (stamp 9) := turnOf_lawful ..
  have hcalls : t.calls {} = true := by
    have hstate : t.state {} = .ok .render := by
      show freshness longRun.files (.inline "<svg/>") (t.job {}).dest = _
      rw [hdest]
      decide +kernel
    rw [Turn.calls, hstate, hfolders, show (longRun.files.createDirAll "/d").1 = .ok () by
      decide +kernel]
  have hok : (t.rendered {} (stamp 9)).result = .ok () := by
    rw [hlawful.result_of_calls hcalls, houtcome]
  rw [turnOf_after, hafter]
  exact ⟨houtcome, ⟨5, by decide +kernel⟩, by decide +kernel,
    t.delivers_of_script hup rfl (late_long 9) hnew hok⟩

/-- While the directory is missing the first task warns, and the second makes the directory. -/
theorem convert_long (run : Run Unit) (hrun : run.files = longRun.files) :
    Orderly {} (stamp 9) longTasks run ∧
      ∃ after, convert {} (stamp 9) longTasks run = (.ok (), after) ∧ after.files.IsDir ["d"] ∧
        after.files.home = some [] := by
  let first := turnOf {} (stamp 9) (iconTask (.file longPath) "a.png") run
  have hlawful : first.Lawful {} (stamp 9) := turnOf_lawful ..
  have hstate : first.state {} = .ok .missingSource := by
    have hjob : first.job {} = _ := job_long run.files
    have hstat : first.before.files.stat longPath = .error .notFound := by
      show run.files.stat longPath = _
      rw [hrun]
      exact stat_longPath longRun.files
    have hresolves : ({} : Config).resolves first.before.files first.task = true := by
      show (run.files.home.isSome || _) = true
      rw [hrun]
      rfl
    rw [Turn.state, if_pos hresolves, hjob]
    exact freshness_missing.2 ⟨longPath, rfl, hstat⟩
  obtain ⟨hcalls, hfault⟩ := Turn.idle hstate (by decide)
  have hfirst : first.outcome = .ok () := by
    rw [hlawful.outcome, hfault, hcalls]
    rfl
  have hfiles : first.after.files = longRun.files := by
    rw [hlawful.files, hstate]
    exact hrun
  obtain ⟨hsecond, hdir, hhome, hdelivers⟩ := markup_turn first.after hfiles
  have hdone : convert {} (stamp 9) longTasks run =
      (.ok (), (turnOf {} (stamp 9) markupTask first.after).after) := by
    rw [convert_of_enabled rfl, longTasks, runTasks_cons, hfirst]
    dsimp only
    rw [runTasks_cons, hsecond]
    rfl
  refine ⟨⟨rfl, ?_, ?_, ?_, ?_⟩, _, hdone, hdir, hhome⟩
  · rw [hrun]
    exact wellFormed_of_entries (by decide)
  · rw [hrun]
    exact onward_long
  · rw [hrun]
    exact apart_long
  · rw [hrun]
    refine forall_turns_cons (fun hcalled => ?_) ?_
    · rw [hcalls] at hcalled
      cases hcalled
    · exact forall_turns_cons (fun _ _ => hdelivers) (List.forall_mem_nil _)

/-- Where the directory is there the name is too long. -/
theorem convert_long_again (run : Run Unit) (hdir : run.files.IsDir ["d"])
    (hhome : run.files.home = some []) :
    (convert {} (stamp 9) longTasks run).1 = .error (.io .nameTooLong) := by
  obtain ⟨m, hm⟩ := hdir
  let first := turnOf {} (stamp 9) (iconTask (.file longPath) "a.png") run
  have hlawful : first.Lawful {} (stamp 9) := turnOf_lawful ..
  have hstat : first.before.files.stat longPath = .error .nameTooLong := by
    show run.files.stat longPath = _
    rw [stat_longPath, hm]
    rfl
  have hstate : first.state {} = .error .nameTooLong := by
    have hjob : first.job {} = _ := job_long run.files
    have hresolves : ({} : Config).resolves first.before.files first.task = true := by
      show (run.files.home.isSome || _) = true
      rw [hhome]
      rfl
    rw [Turn.state, if_pos hresolves, hjob, freshness_file, Tree.stat?, hstat]
  have hfirst : first.outcome = .error (.io .nameTooLong) := by
    rw [hlawful.outcome, Turn.fault?, hstate]
  rw [convert_of_enabled rfl, longTasks, runTasks_cons, hfirst]

theorem unstable_long : Unstable {} (stamp 9) longTasks longRun (.io .nameTooLong) := by
  obtain ⟨horderly, after, hdone, hdir, hhome⟩ := convert_long longRun rfl
  refine ⟨horderly, by rw [hdone], ?_⟩
  rw [hdone]
  exact convert_long_again after hdir hhome

end LongNames

/-- The raster of the first task is a directory, in which that of the second goes. -/
def nestedTasks : List ConversionTask :=
  [iconTask (.file "a.svg") "out/a.png", iconTask (.inline "<svg/>") "out/a.png/e/b.png"]

def nestedRun : Run Unit :=
  ⟨⟨[(["a.svg"], .file [] 90), (["out"], .dir 100), (["out", "a.png"], .dir 100)], 50, some []⟩,
    (), [], [], []⟩

theorem unstable_nested : Unstable {} (stamp 200) nestedTasks nestedRun (.io .isDirectory) := by
  have hlate : Late (nestedTasks.map (({} : Config).plan nestedRun.files)) nestedRun.files 200 := by
    decide +kernel
  refine ⟨⟨rfl, wellFormed_of_entries (by decide), by decide +kernel, by decide +kernel, ?_⟩,
    by decide +kernel, by decide +kernel⟩
  refine forall_turns_cons (fun hcalls => ?_) (forall_turns_cons (fun _ hok => ?_) ?_)
  · exact absurd hcalls (by decide +kernel)
  · exact Turn.delivers_of_script _ (by decide +kernel) rfl hlate (by decide +kernel) hok
  · exact List.forall_mem_nil _

section Replacing

/-- Puts a new file in the place of whatever stands at the destination. -/
def replacing (clock : Nat) : Renderer Unit := fun job memory t =>
  let place := placeOf job.dest
  ⟨.ok (), memory, { t.set place (.file [] clock) with home := t.home.filter (· ≠ place) }, []⟩

theorem Turn.delivers_of_replacing {c : Config} {late : Nat → Prop} {clock : Nat} (t : Turn Unit)
    (hstat : (t.rendered c (replacing clock)).files.stat (t.job c).dest = .ok (.file [] clock))
    (hwf : (t.rendered c (replacing clock)).files.WellFormed) (hlate : late clock) :
    Delivers late (t.job c).dest (t.withFolders c).2 (t.rendered c (replacing clock)).files := by
  refine ⟨⟨_, hstat, hlate⟩, fun q hq => .inl (get?_set_ne _ hq _), ?_, Nat.le_refl _, fun _ => hwf⟩
  show Option.filter _ (t.withFolders c).2.home = _ ∨ _ ∧ Option.filter _ _ = none
  cases hhome : (t.withFolders c).2.home with
  | none => exact .inl rfl
  | some place =>
    by_cases hplace : place = placeOf (t.job c).dest
    · exact .inr ⟨by rw [hplace], by simp [hplace]⟩
    · exact .inl (by simp [hplace])

/-- The first task asks for a directory where the second one has its raster. -/
def heldTasks : List ConversionTask :=
  [iconTask (.inline "<svg/>") "x/", iconTask (.file "a.svg") "x"]

def heldRun : Run Unit :=
  ⟨⟨[(["x"], .dir 5), (["a.svg"], .file [] 10)], 50, some []⟩, (), [], [], []⟩

theorem unstable_held : Unstable {} (replacing 20) heldTasks heldRun (.io .notDirectory) := by
  have hlate : Late (heldTasks.map (({} : Config).plan heldRun.files)) heldRun.files 20 := by
    decide +kernel
  refine ⟨⟨rfl, wellFormed_of_entries (by decide), by decide +kernel, by decide +kernel, ?_⟩,
    by decide +kernel, by decide +kernel⟩
  refine forall_turns_cons (fun hcalls => ?_) (forall_turns_cons (fun _ _ => ?_) ?_)
  · exact absurd hcalls (by decide +kernel)
  · exact Turn.delivers_of_replacing _ (by decide +kernel)
      (wellFormed_of_entries (by decide +kernel)) hlate
  · exact List.forall_mem_nil _

/-- Drawings are looked for from the working directory, though their paths are absolute. -/
def goneConfig : Config := { dest := "/" }

def goneTasks : List ConversionTask := [iconTask (.file "/a.svg") "w"]

/-- The raster is to stand where the working directory is. -/
def goneRun : Run Unit :=
  ⟨⟨[(["w"], .dir 5), (["a.svg"], .file [] 10)], 50, some ["w"]⟩, (), [], [], []⟩

theorem unstable_gone : Unstable goneConfig (replacing 20) goneTasks goneRun (.io .notFound) := by
  have hlate : Late (goneTasks.map (goneConfig.plan goneRun.files)) goneRun.files 20 := by
    decide +kernel
  refine ⟨⟨rfl, wellFormed_of_entries (by decide), by decide +kernel, by decide +kernel, ?_⟩,
    by decide +kernel, by decide +kernel⟩
  refine forall_turns_cons (fun _ _ => ?_) (List.forall_mem_nil _)
  exact Turn.delivers_of_replacing _ (by decide +kernel) (wellFormed_of_entries (by decide +kernel))
    hlate

theorem sparesDir_gone : ∀ t ∈ turns goneConfig (replacing 20) goneTasks goneRun,
    t.SparesDir goneConfig (replacing 20) (goneTasks.map (goneConfig.plan goneRun.files)) :=
  forall_turns_cons (fun hasked => absurd hasked (by decide +kernel)) (List.forall_mem_nil _)

end Replacing

/-- What a second conversion may trip over: a name too long to be looked for, behind a directory
that was missing; a raster that is a directory and loses the time it had; a file in the place of
a directory that a destination asks for; and a working directory that is lost to a raster. The
second and the third leave a raster that is not current. -/
theorem convert_unstable :
    Unstable {} (stamp 9) longTasks longRun (.io .nameTooLong) ∧
    (Unstable {} (stamp 200) nestedTasks nestedRun (.io .isDirectory) ∧
      Unsettled {} (stamp 200) nestedTasks nestedRun) ∧
    (NestedInPast (heldTasks.map (({} : Config).plan heldRun.files)) heldRun.files ∧
      Unstable {} (replacing 20) heldTasks heldRun (.io .notDirectory) ∧
      Unsettled {} (replacing 20) heldTasks heldRun) ∧
    NestedInPast (goneTasks.map (goneConfig.plan goneRun.files)) goneRun.files ∧
      (∀ t ∈ turns goneConfig (replacing 20) goneTasks goneRun,
        t.SparesDir goneConfig (replacing 20) (goneTasks.map (goneConfig.plan goneRun.files))) ∧
      Unstable goneConfig (replacing 20) goneTasks goneRun (.io .notFound) :=
  ⟨unstable_long,
    ⟨unstable_nested, unsettled_of_freshness (List.mem_cons_self ..) (by decide +kernel)
      (by decide +kernel)⟩,
    ⟨by decide +kernel, unstable_held, unsettled_of_freshness (List.mem_cons_self ..)
      (by decide +kernel) (by decide +kernel)⟩,
    by decide +kernel, sparesDir_gone, unstable_gone⟩

end RasterFallback
