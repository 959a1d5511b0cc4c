import Mathlib.Data.List.Forall2
import RasterFallback.Proofs.Conversion.Jobs

/-!
The turns of a conversion. Tasks have their turns in order, each in the state that the
turn before it left, up to the first failure. What happens at a turn is a function of
that state alone, and what a whole conversion calls, warns about and answers is what
its turns do, one after the other.
-/
namespace RasterFallback
open RasterFallback.Files

/-- A task at its turn: the run before it, what came of it, and the run after it. -/
structure Turn (σ : Type) where
  task : ConversionTask
  before : Run σ
  outcome : Except Failure Unit
  after : Run σ

/-- The turns of tasks. Behind a failure there are none. -/
def turns {σ : Type} (c : Config) (r : Renderer σ) : List ConversionTask → Run σ → List (Turn σ)
  | [], _ => []
  | task :: tasks, run =>
    let done := runTask c r task run
    ⟨task, run, done.1, done.2⟩ ::
      match done.1 with
      | .ok () => turns c r tasks done.2
      | .error _ => []

namespace Turn

variable {σ : Type} (c : Config) (r : Renderer σ) (t : Turn σ)

/-- The job of the task, its paths resolved as they are at its turn. -/
def job : RenderJob := c.plan t.before.files t.task

/-- The source of the task is looked for at its turn, and it is a file that is not there. -/
def isAbsent : Bool :=
  c.resolves t.before.files t.task &&
    match (t.job c).source with
    | .file path => t.before.files.stat path = .error .notFound
    | .inline _ => false

/-- The directories of the raster: whether they can be made, and the files with them. -/
def withFolders : Except SystemError Unit × Tree :=
  match parent? (t.job c).dest with
  | some up => t.before.files.createDirAll up
  | none => (.ok (), t.before.files)

/-- How the raster compares with its source at the turn, if their paths can be resolved. -/
def state : Except SystemError Freshness :=
  if c.resolves t.before.files t.task then
    freshness t.before.files (t.job c).source (t.job c).dest
  else .error .notFound

/-- The error of the file operation that fails at the turn. -/
def fault? : Option SystemError :=
  match t.state c with
  | .error e => some e
  | .ok .render =>
    match (t.withFolders c).1 with
    | .error e => some e
    | .ok () => none
  | .ok _ => none

/-- The renderer is called: the raster is missing or older than its source, and its
directories are there. -/
def calls : Bool :=
  match t.state c, (t.withFolders c).1 with
  | .ok .render, .ok () => true
  | _, _ => false

/-- What the renderer does at the turn, if it is called. -/
def rendered : Rendered σ := r (t.job c) t.before.memory (t.withFolders c).2

def warning : Warning := t.task.warning ((t.job c).missingText t.task)

/-- What a turn does, read off the state before it. -/
structure Lawful : Prop where
  outcome : t.outcome = match t.fault? c with
    | some e => .error (.io e)
    | none => if t.calls c then (t.rendered c r).result else .ok ()
  jobs : t.after.jobs = t.before.jobs ++ if t.calls c then [t.job c] else []
  warnings : t.after.warnings = t.before.warnings ++ if t.isAbsent c then [t.warning c] else []
  memory : t.after.memory = if t.calls c then (t.rendered c r).memory else t.before.memory
  files : t.after.files = match t.state c with
    | .ok .render => if t.calls c then (t.rendered c r).files else (t.withFolders c).2
    | _ => t.before.files

end Turn

theorem Turn.resolves_of_state {σ : Type} {c : Config} {t : Turn σ} {f : Freshness}
    (h : t.state c = .ok f) : c.resolves t.before.files t.task = true ∧
      freshness t.before.files (t.job c).source (t.job c).dest = .ok f := by
  unfold Turn.state at h
  split at h
  · rename_i hresolves
    exact ⟨hresolves, h⟩
  · cases h

theorem Turn.isAbsent_iff {σ : Type} (c : Config) (t : Turn σ) :
    t.isAbsent c = true ↔ t.state c = .ok .missingSource := by
  unfold Turn.isAbsent Turn.state
  cases c.resolves t.before.files t.task with
  | false => simp
  | true =>
    rw [Bool.true_and, if_pos rfl, freshness_missing]
    cases (t.job c).source with
    | inline markup => simp
    | file path => simp

/-- The task of a turn has its job wherever the paths of the task are resolved. -/
theorem Turn.carries_job {σ : Type} {c : Config} {t : Turn σ}
    (h : c.resolves t.before.files t.task = true) :
    Carries c t.before.files t.task (t.job c) := carries_iff.2 ⟨h, rfl⟩

/-- Where there is nothing to render no renderer is called, and no file operation fails. -/
theorem Turn.idle {σ : Type} {c : Config} {t : Turn σ} {state : Freshness}
    (hstate : t.state c = .ok state) (hidle : state ≠ .render) :
    t.calls c = false ∧ t.fault? c = none := by
  unfold Turn.calls Turn.fault?
  rw [hstate]
  cases state with
  | render => exact absurd rfl hidle
  | upToDate => exact ⟨rfl, rfl⟩
  | missingSource => exact ⟨rfl, rfl⟩

section Step

variable {σ : Type} (c : Config) (r : Renderer σ)

/-- The turn of a task in a run. -/
def turnOf (task : ConversionTask) (run : Run σ) : Turn σ :=
  ⟨task, run, (runTask c r task run).1, (runTask c r task run).2⟩

theorem turnOf_outcome (task : ConversionTask) (run : Run σ) :
    (turnOf c r task run).outcome = (runTask c r task run).1 := rfl

theorem turnOf_after (task : ConversionTask) (run : Run σ) :
    (turnOf c r task run).after = (runTask c r task run).2 := rfl

theorem runTask_eq (task : ConversionTask) (run : Run σ) :
    runTask c r task run =
      match (turnOf c r task run).state c with
      | .error e => (.error (.io e), run)
      | .ok .missingSource => (.ok (), run.warn ((turnOf c r task run).warning c))
      | .ok .upToDate => (.ok (), run.log (.upToDate ((turnOf c r task run).job c).dest))
      | .ok .render =>
        match (turnOf c r task run).withFolders c with
        | (.error e, files) => (.error (.io e), { run with files := files })
        | (.ok (), files) =>
          ({ run with files := files }.log (.rendering ((turnOf c r task run).job c).dest
            ((turnOf c r task run).job c).size)).render r ((turnOf c r task run).job c) := by
  have hjob : (turnOf c r task run).job c = c.plan run.files task := rfl
  have hbefore : (turnOf c r task run).before = run := rfl
  have htask : (turnOf c r task run).task = task := rfl
  unfold runTask Turn.state Turn.withFolders
  simp only [hjob, hbefore, htask, job_eq]
  cases c.resolves run.files task with
  | false => rfl
  | true =>
    simp only [if_true]
    cases freshness run.files (c.plan run.files task).source (c.plan run.files task).dest with
    | error e => rfl
    | ok state =>
      cases state with
      | missingSource => rfl
      | upToDate => rfl
      | render =>
        cases parent? (c.plan run.files task).dest with
        | none => rfl
        | some up =>
          simp only [Option.map_some]
          rcases run.files.createDirAll up with ⟨answer, files⟩
          cases answer <;> rfl

/-- One turn does what the state before it says. -/
theorem turnOf_lawful (task : ConversionTask) (run : Run σ) : (turnOf c r task run).Lawful c r := by
  have houtcome := turnOf_outcome c r task run
  have hafter := turnOf_after c r task run
  have hbefore : (turnOf c r task run).before = run := rfl
  have habsent := (turnOf c r task run).isAbsent_iff c
  rw [runTask_eq] at houtcome hafter
  cases hstate : (turnOf c r task run).state c with
  | error e =>
    have hcalls : (turnOf c r task run).calls c = false := by simp [Turn.calls, hstate]
    constructor <;>
      simp_all [Turn.fault?]
  | ok state =>
    cases state with
    | missingSource =>
      obtain ⟨hcalls, hfault⟩ := Turn.idle hstate (by decide)
      constructor <;> simp_all [Run.warn, Run.log]
    | upToDate =>
      obtain ⟨hcalls, hfault⟩ := Turn.idle hstate (by decide)
      constructor <;> simp_all [Run.log]
    | render =>
      cases hmade : (turnOf c r task run).withFolders c with
      | mk answer files =>
        cases answer with
        | error e =>
          have hcalls : (turnOf c r task run).calls c = false := by
            simp [Turn.calls, hstate, hmade]
          constructor <;> simp_all [Turn.fault?]
        | ok made =>
          have hcalls : (turnOf c r task run).calls c = true := by
            simp [Turn.calls, hstate, hmade]
          constructor <;> simp_all [Turn.fault?, Turn.rendered, Run.render, Run.log]

theorem turns_cons (task : ConversionTask) (tasks : List ConversionTask) (run : Run σ) :
    turns c r (task :: tasks) run = turnOf c r task run ::
      match (turnOf c r task run).outcome with
      | .ok () => turns c r tasks (turnOf c r task run).after
      | .error _ => [] := rfl

theorem runTasks_cons (task : ConversionTask) (tasks : List ConversionTask) (run : Run σ) :
    runTasks c r (task :: tasks) run =
      match (turnOf c r task run).outcome with
      | .ok () => runTasks c r tasks (turnOf c r task run).after
      | .error e => (.error e, (turnOf c r task run).after) := by
  rw [runTasks]
  simp only [turnOf]
  rcases runTask c r task run with ⟨answer, after⟩
  cases answer <;> rfl

end Step

section Run

variable {σ : Type}

/-- Each turn begins where the one before it ended. -/
def Linked : Run σ → List (Turn σ) → Run σ → Prop
  | start, [], stop => start = stop
  | start, t :: ts, stop => t.before = start ∧ Linked t.after ts stop

/-- What every turn adds to a list is added in the order of the turns. -/
theorem Linked.adds {α : Type} (view : Run σ → List α) {piece : Turn σ → List α}
    {start stop : Run σ} {ts : List (Turn σ)} (h : Linked start ts stop)
    (hstep : ∀ t ∈ ts, view t.after = view t.before ++ piece t) :
    view stop = view start ++ ts.flatMap piece := by
  induction ts generalizing start with
  | nil =>
    obtain rfl : start = stop := h
    simp
  | cons t ts ih =>
    obtain ⟨rfl, hrest⟩ := h
    have hfirst := hstep t (List.mem_cons_self ..)
    have hmore := ih hrest fun u hu => hstep u (List.mem_cons_of_mem _ hu)
    rw [hmore, hfirst, List.flatMap_cons, List.append_assoc]

variable (c : Config) (r : Renderer σ)

theorem linked_turns (tasks : List ConversionTask) (run : Run σ) :
    Linked run (turns c r tasks run) (runTasks c r tasks run).2 := by
  induction tasks generalizing run with
  | nil => rfl
  | cons task tasks ih =>
    rw [turns_cons, runTasks_cons]
    refine ⟨rfl, ?_⟩
    cases (turnOf c r task run).outcome with
    | ok _ => exact ih _
    | error e => rfl

theorem lawful_of_mem_turns {tasks : List ConversionTask} {run : Run σ} {t : Turn σ}
    (ht : t ∈ turns c r tasks run) : t.Lawful c r := by
  induction tasks generalizing run with
  | nil => cases ht
  | cons task tasks ih =>
    rw [turns_cons] at ht
    rcases List.mem_cons.1 ht with rfl | ht
    · exact turnOf_lawful c r task run
    · cases ho : (turnOf c r task run).outcome with
      | ok _ => rw [ho] at ht; exact ih ht
      | error e => rw [ho] at ht; cases ht

/-- What holds of the first turn, and of those behind it if it ends well, holds of all turns. -/
theorem forall_turns_cons {c : Config} {r : Renderer σ} {task : ConversionTask}
    {tasks : List ConversionTask} {run : Run σ} {P : Turn σ → Prop}
    (hfirst : P (turnOf c r task run))
    (hmore : ∀ t ∈ turns c r tasks (turnOf c r task run).after, P t) :
    ∀ t ∈ turns c r (task :: tasks) run, P t := by
  intro t ht
  rw [turns_cons] at ht
  rcases List.mem_cons.1 ht with rfl | ht
  · exact hfirst
  · split at ht
    · exact hmore t ht
    · cases ht

/-- The first failure is the answer, and the turns end with it. -/
def Answers (answer : Except Failure Unit) (tasks : List ConversionTask) (ts : List (Turn σ)) :
    Prop :=
  match answer with
  | .ok () => ts.map Turn.task = tasks ∧ ∀ t ∈ ts, t.outcome = .ok ()
  | .error e => ts.map Turn.task <+: tasks ∧ ∃ earlier last, ts = earlier ++ [last] ∧
      (∀ t ∈ earlier, t.outcome = .ok ()) ∧ last.outcome = .error e

theorem answers_turns (tasks : List ConversionTask) (run : Run σ) :
    Answers (runTasks c r tasks run).1 tasks (turns c r tasks run) := by
  induction tasks generalizing run with
  | nil => exact ⟨rfl, List.forall_mem_nil _⟩
  | cons task tasks ih =>
    rw [turns_cons, runTasks_cons]
    cases ho : (turnOf c r task run).outcome with
    | error e => exact ⟨⟨tasks, rfl⟩, [], _, rfl, List.forall_mem_nil _, ho⟩
    | ok _ =>
      have hrest := ih (turnOf c r task run).after
      show Answers (runTasks c r tasks (turnOf c r task run).after).1 (task :: tasks)
        (turnOf c r task run :: turns c r tasks (turnOf c r task run).after)
      unfold Answers at hrest ⊢
      split at hrest
      · obtain ⟨htasks, hall⟩ := hrest
        refine ⟨congrArg (task :: ·) htasks, ?_⟩
        intro t ht
        rcases List.mem_cons.1 ht with rfl | ht
        · exact ho
        · exact hall t ht
      · obtain ⟨hfront, earlier, last, hts, hall, hlast⟩ := hrest
        refine ⟨List.prefix_cons_inj task |>.2 hfront, turnOf c r task run :: earlier, last,
          by rw [hts]; rfl, ?_, hlast⟩
        intro t ht
        rcases List.mem_cons.1 ht with rfl | ht
        · exact ho
        · exact hall t ht

/-- Behind a failure it does not matter what tasks there are. -/
theorem runTasks_turns_append {tasks : List ConversionTask} {run : Run σ} {e : Failure}
    (h : (runTasks c r tasks run).1 = .error e) (others : List ConversionTask) :
    runTasks c r ((turns c r tasks run).map Turn.task ++ others) run = runTasks c r tasks run := by
  induction tasks generalizing run with
  | nil => cases h
  | cons task tasks ih =>
    have htask : (turnOf c r task run).task = task := rfl
    rw [runTasks_cons] at h
    rw [turns_cons, List.map_cons, List.cons_append, htask, runTasks_cons, runTasks_cons]
    cases ho : (turnOf c r task run).outcome with
    | error e => rfl
    | ok _ =>
      rw [ho] at h
      exact ih h

end Run

section Calls

variable {σ : Type} {c : Config} {r : Renderer σ}

/-- The renderer is called where there is something to render and no file operation fails. -/
theorem Turn.calls_iff (c : Config) (t : Turn σ) :
    t.calls c = true ↔ t.state c = .ok .render ∧ t.fault? c = none := by
  unfold Turn.calls Turn.fault?
  split
  · rename_i hstate hmade
    simp [hstate, hmade]
  · rename_i hother
    refine ⟨nofun, fun ⟨hstate, hfault⟩ => ?_⟩
    rw [hstate] at hfault
    cases hmade : (t.withFolders c).1 with
    | ok _ => exact (hother hstate hmade).elim
    | error e =>
      rw [hmade] at hfault
      cases hfault

theorem Turn.state_of_calls {t : Turn σ} (h : t.calls c = true) : t.state c = .ok .render :=
  ((t.calls_iff c).1 h).1

theorem Turn.fault?_of_calls {t : Turn σ} (h : t.calls c = true) : t.fault? c = none :=
  ((t.calls_iff c).1 h).2

theorem Turn.Lawful.result_of_calls {t : Turn σ} (h : t.Lawful c r) (hcalls : t.calls c = true) :
    (t.rendered c r).result = t.outcome := by
  rw [h.outcome, Turn.fault?_of_calls hcalls]
  simp [hcalls]

/-- Where a turn ends well no file operation fails, and the paths of its task are resolved. -/
theorem Turn.Lawful.fault?_of_ok {t : Turn σ} (h : t.Lawful c r) (hok : t.outcome = .ok ()) :
    t.fault? c = none := by
  cases hfault : t.fault? c with
  | none => rfl
  | some e =>
    rw [h.outcome, hfault] at hok
    cases hok

theorem Turn.Lawful.resolves_of_ok {t : Turn σ} (h : t.Lawful c r) (hok : t.outcome = .ok ()) :
    c.resolves t.before.files t.task = true := by
  have hfault := h.fault?_of_ok hok
  cases hresolves : c.resolves t.before.files t.task with
  | true => rfl
  | false =>
    rw [Turn.fault?, Turn.state, hresolves] at hfault
    cases hfault

theorem convert_of_enabled (hon : c.disableConvert = false) (tasks : List ConversionTask)
    (run : Run σ) : convert c r tasks run = runTasks c r tasks run := by
  simp [convert, hon]

end Calls

end RasterFallback
