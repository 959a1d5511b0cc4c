import RasterFallback.Proofs.Conversion.Destination
import RasterFallback.Proofs.Conversion.Stability

/-!
Each raster is rendered once. Tasks may share a raster, and every one of them has its turn.
What keeps the later ones from the renderer is the file that the first one left: it stays
where it is, and no source becomes younger, since rasters and sources have other names. Rasters
are told apart by the names of their paths, whatever slashes and dots stand between.
-/
namespace RasterFallback
open RasterFallback.Text RasterFallback.Files RasterFallback.Files.Tree

/-- What the success of a renderer leaves: a raster at `dest` whose time is late enough. No
other file has changed. -/
structure Leaves (late : Nat → Prop) (dest : String) (t t' : Tree) : Prop where
  raster : ∃ e, t'.stat dest = .ok e ∧ late e.modified
  others : ∀ q, q ≠ lexicalPlace dest → t.Stays t' q
  home : t.KeepsHome t'

/-- What a turn does to the tree: there may be a new file at `p`. -/
structure Alters (late : Nat → Prop) (p : Place) (t t' : Tree) : Prop where
  home : t.KeepsHome t'
  others : ∀ q, q ≠ p → t.Stays t' q
  raster : t.Stays t' p ∨ ∃ e, t'.get? p = some e ∧ e.isDir = false ∧ late e.modified

/-- A file that is late enough stands where the names lead, and nothing on the way is missing. -/
structure Present (late : Nat → Prop) (t : Tree) (ns : List String) : Prop where
  found : t.follow [] ns ≠ .error .notFound
  raster : ∃ e, t.get? (enterAll [] ns) = some e ∧ e.isDir = false ∧ late e.modified

/-- The names of the destination. Two paths are one if they have the same names: empty names and
dots do not count, and a step upwards is a name. -/
def RenderJob.destNames (job : RenderJob) : List String := names job.dest

/-- The place of a source of the tasks. -/
def IsSource (c : Config) (tasks : List ConversionTask) (start : Tree) (p : Place) : Prop :=
  ∃ task ∈ tasks, ∃ path ∈ (c.plan start task).sourcePath?, lexicalPlace path = p

/-- No source file of the tasks is younger than `time`. -/
def NoYounger (c : Config) (tasks : List ConversionTask) (start : Tree) (time : Nat) : Prop :=
  ∀ task ∈ tasks, ∀ path ∈ (c.plan start task).sourcePath?,
    ∀ e ∈ start.get? (lexicalPlace path), e.isDir = false → e.modified ≤ time

instance (c : Config) (tasks : List ConversionTask) (start : Tree) (time : Nat) :
    Decidable (NoYounger c tasks start time) :=
  inferInstanceAs (Decidable (∀ task ∈ tasks, ∀ path ∈ (c.plan start task).sourcePath?,
    ∀ e ∈ start.get? (lexicalPlace path), e.isDir = false → e.modified ≤ time))

/-- The files at the places of sources are those of the start. -/
structure Intact (sources : Place → Prop) (start t : Tree) : Prop where
  home : start.KeepsHome t
  files : ∀ p, sources p → ∀ e : Entry, e.isDir = false →
    (t.get? p = some e ↔ start.get? p = some e)

section Steps

variable {late : Nat → Prop} {sources : Place → Prop} {p : Place} {dest : String}
  {start t t' made : Tree} {ns : List String}

theorem isDir_eq_of_stat {path : String} {e : Entry} (h : t.stat path = .ok e) :
    t.isDir path = e.isDir := by rw [isDir, h]

theorem enterAll_names (habs : isAbsolute dest = true) :
    enterAll [] (names dest) = lexicalPlace dest := by
  rw [names_eq_placeOf habs, enterAll_placeOf]

theorem Leaves.present (h : Leaves late dest t t') (habs : isAbsolute dest = true)
    (hfile : t'.isDir dest = false) : Present late t' (names dest) := by
  obtain ⟨e, hstat, hlate⟩ := h.raster
  rw [isDir_eq_of_stat hstat] at hfile
  refine ⟨?_, e, ?_, hfile, hlate⟩
  · rw [names_eq_placeOf habs, follow_of_stat habs hstat]
    exact nofun
  · rw [enterAll_names habs]
    exact get?_of_stat habs hstat

/-- A raster that is present is found by every path with its names. -/
theorem Present.stat_ne_notFound (h : Present late t (names dest)) (habs : isAbsolute dest = true) :
    t.stat dest ≠ .error .notFound := by
  obtain ⟨hfound, e, he, -, -⟩ := h
  rw [names_eq_placeOf habs] at hfound
  rw [enterAll_names habs] at he
  intro hmissing
  rcases missing_of_stat habs hmissing with hgone | hnone
  · exact hfound hgone
  · rw [hnone] at he
    cases he

/-- Directories are made for a raster before it is there. -/
theorem Leaves.alters (h : Leaves late dest made t') (habs : isAbsolute dest = true)
    (hmade : t.Enlarges made) (hpresent : Present late t' (names dest)) :
    Alters late (lexicalPlace dest) t t' :=
  ⟨.trans (.inl hmade.home) h.home, fun q hq => (hmade.stays q).trans (h.others q hq),
    .inr (enterAll_names habs ▸ hpresent.raster)⟩

theorem alters_of_enlarges (h : t.Enlarges t') : Alters late p t t' :=
  ⟨.inl h.home, fun q _ => h.stays q, .inl (h.stays p)⟩

theorem Alters.stands (h : Alters late p t t') : t.Stands t' := by
  intro q e he
  by_cases hq : q = p
  · rcases h.raster with hstays | ⟨e', he', hfile, -⟩
    · exact (hq ▸ hstays).stands he
    · exact ⟨e', hq ▸ he', fun _ => hfile⟩
  · exact (h.others q hq).stands he

/-- A raster that is there is there for the turns to come. -/
theorem Present.alters (hpresent : Present late t ns) (h : Alters late p t t') :
    Present late t' ns := by
  obtain ⟨hfound, e, he, hfile, hlate⟩ := hpresent
  refine ⟨fun hmissing => ?_, ?_⟩
  · rcases h.stands.follow hfound with hsame | hgone
    · exact hfound (hsame.symm.trans hmissing)
    · rw [hgone] at hmissing
      cases hmissing
  · have hkept (hstays : t.Stays t' (enterAll [] ns)) :
        ∃ e, t'.get? (enterAll [] ns) = some e ∧ e.isDir = false ∧ late e.modified :=
      ⟨e, (hstays.get?_iff hfile).2 he, hfile, hlate⟩
    by_cases hp : enterAll [] ns = p
    · rcases h.raster with hstays | hnew
      · exact hkept (hp ▸ hstays)
      · exact hp ▸ hnew
    · exact hkept (h.others _ hp)

/-- Sources are left alone where no raster stands at the place of one. -/
theorem Intact.alters (hintact : Intact sources start t) (h : Alters late p t t')
    (hp : ¬sources p) : Intact sources start t' := by
  refine ⟨hintact.home.trans h.home, fun q hq e hfile => ?_⟩
  have hne : q ≠ p := fun heq => hp (heq ▸ hq)
  rw [(h.others q hne).get?_iff hfile, hintact.files q hq e hfile]

end Steps

section Turns

variable {σ : Type} {c : Config} {r : Renderer σ} {tasks : List ConversionTask}
  {late : Nat → Prop} {start : Tree}

theorem Turn.enlarges_withFolders (t : Turn σ) (c : Config) :
    t.before.files.Enlarges (t.withFolders c).2 := by
  unfold Turn.withFolders
  split
  · exact enlarges_createDirAll ..
  · exact .refl _

theorem Turn.isAbsolute_dest (t : Turn σ) (c : Config) : isAbsolute (t.job c).dest = true :=
  isAbsolute_paths t.before.files t.task _ (t.job c).dest_mem_paths

/-- A turn that ends well leaves the raster that it had rendered, and else no file changes. -/
theorem Turn.Lawful.alters {t : Turn σ} (h : t.Lawful c r) (hok : t.outcome = .ok ())
    (hleaves : t.calls c = true → (t.rendered c r).result = .ok () →
      Leaves late (t.job c).dest (t.withFolders c).2 (t.rendered c r).files ∧
        (t.rendered c r).files.isDir (t.job c).dest = false) :
    Alters late (lexicalPlace (t.job c).dest) t.before.files t.after.files ∧
      (t.calls c = true → Present late t.after.files (names (t.job c).dest)) := by
  have hfiles := h.files
  have hmade := t.enlarges_withFolders c
  cases hcalls : t.calls c with
  | true =>
    rw [Turn.state_of_calls hcalls, hcalls] at hfiles
    obtain ⟨hleft, hfile⟩ := hleaves hcalls (by rw [h.result_of_calls hcalls, hok])
    have hpresent := hleft.present (t.isAbsolute_dest c) hfile
    rw [hfiles]
    exact ⟨hleft.alters (t.isAbsolute_dest c) hmade hpresent, fun _ => hpresent⟩
  | false =>
    rw [hcalls] at hfiles
    refine ⟨?_, nofun⟩
    rw [hfiles]
    split
    · exact alters_of_enlarges hmade
    · exact alters_of_enlarges (.refl _)

/-- Where the raster is present the renderer is not called. -/
theorem Turn.not_calls_of_present {t : Turn σ} (htask : t.task ∈ tasks)
    (hintact : Intact (IsSource c tasks start) start t.before.files)
    (hfile : ∀ path ∈ (t.job c).sourcePath?, t.before.files.isDir path = false)
    (hpresent : Present (NoYounger c tasks start) t.before.files (names (t.job c).dest)) :
    t.calls c = false := by
  refine Bool.eq_false_iff.2 fun hcalls => ?_
  obtain ⟨hresolves, hstate⟩ := Turn.resolves_of_state (Turn.state_of_calls hcalls)
  have hstale : (t.job c).IsStale t.before.files := freshness_render.1 hstate
  have habs := t.isAbsolute_dest c
  have hfound := hpresent.stat_ne_notFound habs
  obtain ⟨raster, hraster, -, hlate⟩ := hpresent.raster
  rw [enterAll_names habs] at hraster
  rcases hstale.2 with hmissing | ⟨path, source, old, hpath, hsource, hold, hyoung⟩
  · exact hfound hmissing
  · have hmem := RenderJob.mem_sourcePath?.2 hpath
    have hmem' : path ∈ (c.plan start t.task).sourcePath? :=
      plan_of_resolves hintact.home hresolves ▸ hmem
    have hpathAbs : isAbsolute path = true :=
      isAbsolute_paths t.before.files t.task _ ((t.job c).mem_paths hpath)
    have hplace : IsSource c tasks start (lexicalPlace path) :=
      ⟨t.task, htask, path, hmem', rfl⟩
    have hkind : source.isDir = false := by
      rw [← isDir_eq_of_stat hsource]
      exact hfile path hmem
    have hstart : start.get? (lexicalPlace path) = some source :=
      (hintact.files _ hplace source hkind).1 (get?_of_stat hpathAbs hsource)
    have hsame : raster = old := by
      rw [get?_of_stat habs hold] at hraster
      exact (Option.some.inj hraster).symm
    have hage : source.modified ≤ raster.modified :=
      hlate t.task htask path hmem' source hstart hkind
    rw [hsame] at hage
    omega

/-- A turn in front of calls of different rasters adds no second call of one of them. -/
theorem Turn.nodup_calls (t : Turn σ) (later : List RenderJob) {IsThere : List String → Prop}
    (hidle : IsThere (names (t.job c).dest) → t.calls c = false)
    (hnew : t.calls c = true → names (t.job c).dest ∉ later.map RenderJob.destNames)
    (hlater : (later.map RenderJob.destNames).Nodup)
    (hthere : ∀ ns, IsThere ns → ns ∉ later.map RenderJob.destNames) :
    (((if t.calls c then [t.job c] else []) ++ later).map RenderJob.destNames).Nodup ∧
      ∀ ns, IsThere ns →
        ns ∉ ((if t.calls c then [t.job c] else []) ++ later).map RenderJob.destNames := by
  cases hcalls : t.calls c with
  | false => exact ⟨hlater, hthere⟩
  | true =>
    refine ⟨List.nodup_cons.2 ⟨hnew hcalls, hlater⟩, fun ns hns hmem => ?_⟩
    rcases List.mem_cons.1 hmem with rfl | hmem
    · rw [hidle hns] at hcalls
      cases hcalls
    · exact hthere ns hns hmem

/-- From turn to turn rasters that are present are not rendered, and so none is rendered twice. -/
theorem runTasks_once {all : List ConversionTask}
    (hapart : ∀ task ∈ all, ¬IsSource c all start (lexicalPlace (c.plan start task).dest))
    (tasks : List ConversionTask) (hmem : ∀ task ∈ tasks, task ∈ all) (run : Run σ)
    (hintact : Intact (IsSource c all start) start run.files)
    (hfile : ∀ t ∈ turns c r tasks run, ∀ path ∈ (t.job c).sourcePath?,
      t.before.files.isDir path = false)
    (hleaves : ∀ t ∈ turns c r tasks run, t.calls c = true → (t.rendered c r).result = .ok () →
      Leaves (NoYounger c all start) (t.job c).dest (t.withFolders c).2 (t.rendered c r).files ∧
        (t.rendered c r).files.isDir (t.job c).dest = false) :
    ∃ calls : List RenderJob, (runTasks c r tasks run).2.jobs = run.jobs ++ calls ∧
      (calls.map RenderJob.destNames).Nodup ∧
      ∀ ns, Present (NoYounger c all start) run.files ns →
        ns ∉ calls.map RenderJob.destNames := by
  induction tasks generalizing run with
  | nil => exact ⟨[], (List.append_nil _).symm, List.nodup_nil, fun _ _ => List.not_mem_nil⟩
  | cons task tasks ih =>
    have hlawful := turnOf_lawful c r task run
    have htask : task ∈ all := hmem task (List.mem_cons_self ..)
    rw [turns_cons] at hfile hleaves
    have hidle : Present (NoYounger c all start) run.files
        (names ((turnOf c r task run).job c).dest) → (turnOf c r task run).calls c = false :=
      Turn.not_calls_of_present htask hintact (hfile _ (List.mem_cons_self ..))
    rw [runTasks_cons]
    cases ho : (turnOf c r task run).outcome with
    | error e =>
      obtain ⟨hnodup, hthere⟩ := (turnOf c r task run).nodup_calls [] hidle
        (fun _ => List.not_mem_nil) List.nodup_nil fun _ _ => List.not_mem_nil
      rw [List.append_nil] at hnodup hthere
      exact ⟨_, hlawful.jobs, hnodup, hthere⟩
    | ok _ =>
      rw [ho] at hfile hleaves
      obtain ⟨halters, hpresent⟩ := hlawful.alters ho (hleaves _ (List.mem_cons_self ..))
      have hjob : (turnOf c r task run).job c = c.plan start task :=
        plan_of_resolves hintact.home (hlawful.resolves_of_ok ho)
      obtain ⟨calls, hjobs, hnodup, hthere⟩ := ih
        (fun task htask => hmem task (List.mem_cons_of_mem _ htask)) (turnOf c r task run).after
        (hintact.alters halters (hjob ▸ hapart task htask))
        (fun t ht => hfile t (List.mem_cons_of_mem _ ht))
        (fun t ht => hleaves t (List.mem_cons_of_mem _ ht))
      refine ⟨_, ?_, (turnOf c r task run).nodup_calls calls hidle
        (fun hcalls => hthere _ (hpresent hcalls)) hnodup
          fun ns hns => hthere ns (hns.alters halters)⟩
      rw [hjobs, hlawful.jobs, List.append_assoc]
      rfl

end Turns

section Names

variable {c : Config} {marker : String} {s : Stylesheet}

/-- Drawings and rasters have different names. -/
theorem stem_svgEnding_ne (size : Size) {stem name : List Char} :
    stem ++ svgEnding ≠ name ++ size.ending := by
  intro heq
  rw [Size.ending, ← List.append_assoc] at heq
  exact absurd (List.append_inj_right' heq rfl) (by decide)

/-- No raster stands where a drawing does. -/
theorem not_isSource_raster (t : Tree) (task : ConversionTask)
    (htask : task ∈ (s.withFallbacks marker).2) :
    ¬IsSource c (s.withFallbacks marker).2 t (lexicalPlace (c.plan t task).dest) := by
  rintro ⟨other, hother, path, hpath, hplace⟩
  obtain ⟨rule, -, d, himage, rfl⟩ := exists_of_mem_tasks htask
  obtain ⟨other, -, d', himage', rfl⟩ := exists_of_mem_tasks hother
  obtain ⟨reference, hsource, rfl⟩ := exists_of_sourcePath hpath
  obtain ⟨folder, drawing, hdrawing⟩ := lexicalPlace_source himage' hsource t c.basePath
  obtain ⟨name, hraster⟩ := lexicalPlace_raster himage t c.dest
  have hplaces : folder ++ [String.ofList (drawing ++ svgEnding)] =
      rasterFolder (startPlace t c.dest) d.source ++ [String.ofList (name ++ d.size.ending)] := by
    rw [← hdrawing, ← hraster]
    exact hplace
  have hnames := List.singleton_inj.1 (List.append_inj_right' hplaces rfl)
  exact stem_svgEnding_ne d.size (String.ofList_injective hnames)

end Names

section Delivery

variable {late : Nat → Prop} {t t' : Tree} {dest : String}

theorem Delivers.leaves (h : Delivers late dest t t') (hdirect : IsDirect dest) :
    Leaves late dest t t' := by
  refine ⟨h.raster, fun q hq => ?_, h.keepsHome⟩
  rw [hdirect.lexicalPlace_eq] at hq
  rcases h.others q hq with hsame | ⟨-, hold, m, hm, -⟩
  · exact .inl hsame
  · exact .inr ⟨⟨m, hm⟩, hold⟩

theorem leaves_touch {time : Nat} (habs : isAbsolute dest = true) (hplace : lexicalPlace dest ≠ [])
    (h : t.touch dest time = .ok t') (hlate : late time) : Leaves late dest t t' := by
  unfold touch at h
  obtain ⟨p, hlocate, h⟩ := bind_eq_ok.1 h
  obtain rfl := locate_eq_lexicalPlace habs hlocate
  cases hget : t.get? (lexicalPlace dest) with
  | none =>
    rw [hget] at h
    cases h
  | some e =>
    rw [hget] at h
    obtain rfl := Except.ok.inj h
    have hself := get?_set_self t hplace (e.touch time)
    have hstat : t.stat dest = .ok e := by
      rw [stat, hlocate]
      simp [bind, Except.bind, hget]
    have hdirs (q : Place) (hq : t.IsDir q) :
        (t.set (lexicalPlace dest) (e.touch time)).IsDir q := by
      by_cases heq : q = lexicalPlace dest
      · obtain ⟨m, hm⟩ := hq
        rw [heq, hget] at hm
        obtain rfl := Option.some.inj hm
        exact ⟨time, heq ▸ hself⟩
      · exact (isDir_of_eq (get?_set_ne t heq _)).2 hq
    exact ⟨⟨_, stat_of_dirs habs hdirs hstat hself, (e.modified_touch time).symm ▸ hlate⟩,
      fun q hq => .inl (get?_set_ne t hq _), .inl rfl⟩

end Delivery

section Conversion

variable {σ : Type} {c : Config} {r : Renderer σ} {marker : String} {s : Stylesheet} {run : Run σ}

/-- No raster of a stylesheet is rendered twice in one conversion, however many rules share it:
where no source is a directory, and each success of the renderer leaves a file at the
destination that is as young as all source files and changes no other file. Rasters are the same
if the names of their paths are: `/x.png` and `/./x.png` are one raster, and `/new/../x.png` is
another one, which is not found as long as there is no directory `/new`. -/
theorem convert_once
    (hfile : ∀ t ∈ turns c r (s.withFallbacks marker).2 run, ∀ path ∈ (t.job c).sourcePath?,
      t.before.files.isDir path = false)
    (hleaves : ∀ t ∈ turns c r (s.withFallbacks marker).2 run, t.calls c = true →
      (t.rendered c r).result = .ok () →
      Leaves (NoYounger c (s.withFallbacks marker).2 run.files) (t.job c).dest (t.withFolders c).2
          (t.rendered c r).files ∧
        (t.rendered c r).files.isDir (t.job c).dest = false) :
    ∃ calls : List RenderJob,
      (convert c r (s.withFallbacks marker).2 run).2.jobs = run.jobs ++ calls ∧
        (calls.map RenderJob.destNames).Nodup := by
  unfold convert
  split
  · exact ⟨[], (List.append_nil _).symm, List.nodup_nil⟩
  · obtain ⟨calls, hjobs, hnodup, -⟩ := runTasks_once (not_isSource_raster run.files)
      _ (fun _ => id) run ⟨.refl _, fun _ _ _ _ => .rfl⟩ hfile hleaves
    exact ⟨calls, hjobs, hnodup⟩

end Conversion

def iconOf (path : String) : Rule :=
  ⟨".icon", [⟨"background", "url(" ++ path ++ ")", false, none⟩,
    ⟨"background-size", "8px", false, none⟩], none⟩

def tasksOf (paths : List String) : List ConversionTask :=
  (Stylesheet.withFallbacks ".no-svg" ⟨paths.map fun path => .rule (iconOf path)⟩).2

/-- Two rules that show one drawing, by two spellings of its path. -/
def twinTasks : List ConversionTask := tasksOf ["a.svg", "./a.svg"]

def twinRun : Run Unit := ⟨⟨[(["a.svg"], .file [] 3)], 5, some []⟩, (), [], [], []⟩

theorem convert_once_twin :
    (∀ t ∈ turns {} (stamp 9) twinTasks twinRun, ∀ path ∈ (t.job {}).sourcePath?,
      t.before.files.isDir path = false) ∧
    (∀ t ∈ turns {} (stamp 9) twinTasks twinRun, t.calls {} = true →
      (t.rendered {} (stamp 9)).result = .ok () →
      Leaves (NoYounger {} twinTasks twinRun.files) (t.job {}).dest (t.withFolders {}).2
          (t.rendered {} (stamp 9)).files ∧
        (t.rendered {} (stamp 9)).files.isDir (t.job {}).dest = false) ∧
    ∃ calls : List RenderJob,
      (convert {} (stamp 9) twinTasks twinRun).2.jobs = twinRun.jobs ++ calls ∧
        (calls.map RenderJob.destNames).Nodup := by
  have htasks : twinTasks = [iconTask (.file "a.svg") "a-8x8.png",
      iconTask (.file "./a.svg") "./a-8x8.png"] := by
    decide +kernel
  have hfile : ∀ t ∈ turns {} (stamp 9) twinTasks twinRun, ∀ path ∈ (t.job {}).sourcePath?,
      t.before.files.isDir path = false := by
    rw [htasks]
    exact forall_turns_cons (by decide +kernel)
      (forall_turns_cons (by decide +kernel) (List.forall_mem_nil _))
  have hlate : NoYounger {} twinTasks twinRun.files 9 := by decide +kernel
  have hleaves : ∀ t ∈ turns {} (stamp 9) twinTasks twinRun, t.calls {} = true →
      (t.rendered {} (stamp 9)).result = .ok () →
      Leaves (NoYounger {} twinTasks twinRun.files) (t.job {}).dest (t.withFolders {}).2
          (t.rendered {} (stamp 9)).files ∧
        (t.rendered {} (stamp 9)).files.isDir (t.job {}).dest = false := by
    rw [htasks] at hlate ⊢
    refine forall_turns_cons (fun _ hok => ⟨?_, by decide +kernel⟩)
      (forall_turns_cons (fun hcalls => absurd hcalls (by decide +kernel)) (List.forall_mem_nil _))
    let first := turnOf {} (stamp 9) (iconTask (.file "a.svg") "a-8x8.png") twinRun
    have hup : ".." ∉ steps (first.job {}).dest := by decide +kernel
    exact (first.delivers_of_script hup rfl hlate (by decide +kernel) hok).leaves
      ⟨first.isAbsolute_dest {}, hup⟩
  exact ⟨hfile, hleaves, convert_once hfile hleaves⟩

/-- The time of its rasters goes on from call to call. -/
def rising : Renderer Nat := fun job clock t =>
  let done := ({ clock := clock } : Script).renderer job () t
  ⟨done.result, clock + 7, done.files, done.events⟩

theorem Turn.leaves_of_rising {c : Config} {late : Nat → Prop} (t : Turn Nat) (m : Nat)
    (hup : ".." ∉ steps (t.job c).dest)
    (hold : ∀ e ∈ (t.withFolders c).2.get? (placeOf (t.job c).dest), e = .file [] m)
    (hok : (t.rendered c rising).result = .ok ()) (hlate : late t.before.memory) :
    Leaves late (t.job c).dest (t.withFolders c).2 (t.rendered c rising).files := by
  have hdirect : IsDirect (t.job c).dest := ⟨t.isAbsolute_dest c, hup⟩
  refine Delivers.leaves (Script.delivers hdirect rfl (fun d m' hdevice => ?_) hlate hok) hdirect
  cases hold _ hdevice

/-- One drawing is a directory, in which the raster of another goes. -/
def folderTasks : List ConversionTask := tasksOf ["a.svg", "a.svg/b.svg", "a.svg"]

def folderRun : Run Nat :=
  ⟨⟨[(["a.svg"], .dir 1), (["a.svg", "b.svg"], .file [] 1)], 5, some []⟩, 2, [], [], []⟩

/-- Renews the time of what stands at the destination, directories too. -/
def renewing : Renderer Unit := fun job memory t =>
  match t.touch job.dest 100 with
  | .ok t => ⟨.ok (), memory, t, []⟩
  | .error _ => stamp 100 job memory t

theorem Turn.leaves_of_renewing {c : Config} {late : Nat → Prop} (t : Turn Unit)
    (hup : ".." ∉ steps (t.job c).dest) (hplace : lexicalPlace (t.job c).dest ≠ [])
    (hold : ∀ e ∈ (t.withFolders c).2.get? (placeOf (t.job c).dest), e.isDir = true)
    (hok : (t.rendered c renewing).result = .ok ()) (hlate : late 100) :
    Leaves late (t.job c).dest (t.withFolders c).2 (t.rendered c renewing).files := by
  have hdirect : IsDirect (t.job c).dest := ⟨t.isAbsolute_dest c, hup⟩
  unfold Turn.rendered renewing at hok ⊢
  cases htouch : (t.withFolders c).2.touch (t.job c).dest 100 with
  | ok touched => exact leaves_touch hdirect.absolute hplace htouch hlate
  | error e =>
    rw [htouch] at hok
    refine Delivers.leaves (Script.delivers hdirect rfl (fun d m hdevice => ?_) hlate hok) hdirect
    cases hold _ hdevice

/-- One raster is a directory, in which another goes. -/
def shelfTasks : List ConversionTask := tasksOf ["a.svg", "a-8x8.png/b.svg", "a.svg"]

def shelfRun : Run Unit :=
  ⟨⟨[(["a.svg"], .file [] 90), (["a-8x8.png"], .dir 1), (["a-8x8.png", "b.svg"], .file [] 1)],
    50, some []⟩, (), [], [], []⟩

/-- A directory loses its time when an entry is made in it. So the third task is rendered
again if the drawing is a directory, or if the raster is. -/
theorem convert_twice :
    ((∀ t ∈ turns {} rising folderTasks folderRun, t.calls {} = true →
        Leaves
          (Late (folderTasks.map (({} : Config).plan folderRun.files)) (t.rendered {} rising).files)
          (t.job {}).dest (t.withFolders {}).2 (t.rendered {} rising).files) ∧
      (convert {} rising folderTasks folderRun).1 = .ok () ∧
      (convert {} rising folderTasks folderRun).2.jobs.map RenderJob.dest =
        ["/a-8x8.png", "/a.svg/b-8x8.png", "/a-8x8.png"]) ∧
    (∀ t ∈ turns {} renewing shelfTasks shelfRun, t.calls {} = true →
        Leaves
          (Late (shelfTasks.map (({} : Config).plan shelfRun.files)) (t.rendered {} renewing).files)
          (t.job {}).dest (t.withFolders {}).2 (t.rendered {} renewing).files) ∧
      (convert {} renewing shelfTasks shelfRun).1 = .ok () ∧
      (convert {} renewing shelfTasks shelfRun).2.jobs.map RenderJob.dest =
        ["/a-8x8.png", "/a-8x8.png/b-8x8.png", "/a-8x8.png"] := by
  refine ⟨⟨?_, by decide +kernel, by decide +kernel⟩, ?_, by decide +kernel, by decide +kernel⟩
  · have htasks : folderTasks = [iconTask (.file "a.svg") "a-8x8.png",
        iconTask (.file "a.svg/b.svg") "a.svg/b-8x8.png", iconTask (.file "a.svg") "a-8x8.png"] := by
      decide +kernel
    rw [htasks]
    refine forall_turns_cons (fun _ => ?_) (forall_turns_cons (fun _ => ?_)
      (forall_turns_cons (fun _ => ?_) (List.forall_mem_nil _))) <;>
    exact Turn.leaves_of_rising _ 2 (by decide +kernel) (by decide +kernel) (by decide +kernel)
      (by decide +kernel)
  · have htasks : shelfTasks = [iconTask (.file "a.svg") "a-8x8.png",
        iconTask (.file "a-8x8.png/b.svg") "a-8x8.png/b-8x8.png",
        iconTask (.file "a.svg") "a-8x8.png"] := by
      decide +kernel
    rw [htasks]
    refine forall_turns_cons (fun _ => ?_) (forall_turns_cons (fun _ => ?_)
      (forall_turns_cons (fun _ => ?_) (List.forall_mem_nil _))) <;>
    exact Turn.leaves_of_renewing _ (by decide +kernel) (by decide +kernel) (by decide +kernel)
      (by decide +kernel) (by decide +kernel)

end RasterFallback
