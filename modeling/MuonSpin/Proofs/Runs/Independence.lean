import Mathlib.Data.List.Forall2
import MuonSpin.Proofs.Runs.Races

/-!
# Runs that influence one another

The runs of a model are evaluated at the same time in one session, their steps in any order.

* `Pool`, `Pool.ticks`: the runs as far as they have come, and their steps in an order;
* `Model.Evaluates`: what an order of the steps leads to; the outputs of all runs, or the failure of
  one of them;
* `Pool.Settled.ticks`: in any order, each run is on its way to what it gives alone, or to a late line;
* `Pool.exists_ticks_of_done`, `Model.Races.exists_evaluates`: it does not come to the late line if the
  others are done, and does so in some order if two runs race;
* `Pool.exists_ticks_gives`: runs that are under way can be finished one after the other;
* **`runs_independent_iff`**: the outputs are those of the runs alone, and so are the failures, exactly
  if no two runs race for a module.
-/

namespace MuonSpin

/-- A run as far as it has come. -/
structure Job where
  run : Run
  task : Task Session (Except Failure RunOutput)

/-- Runs that share a session. -/
structure Pool where
  session : Session
  jobs : List Job

/-- What the jobs lead to: the outputs if all are done, and a failure as soon as one has it. -/
inductive JobsGive (jobs : List Job) : Except Failure (List RunOutput) → Prop
  | outputs {outputs : List RunOutput}
      (all : List.Forall₂ (fun job output => job.task = .done (.ok output)) jobs outputs) :
      JobsGive jobs (.ok outputs)
  | failure {job : Job} {e : Failure} (mem : job ∈ jobs) (failed : job.task = .done (.error e)) :
      JobsGive jobs (.error e)

namespace Pool

/-- The runs of a model at their beginning. -/
def start (model : Model) (times : List Float) : Pool :=
  ⟨.standard, model.effectiveRuns.map fun run => ⟨run, run.task model times⟩⟩

/-- The next step of the job at a position, if it is not done. -/
def tick (pool : Pool) (i : Nat) : Pool :=
  match pool.jobs[i]? with
  | some ⟨run, .step next after⟩ =>
    ⟨after pool.session, pool.jobs.set i ⟨run, next pool.session⟩⟩
  | _ => pool

/-- Steps of the jobs in an order. -/
def ticks (pool : Pool) (order : List Nat) : Pool := order.foldl tick pool

end Pool

/-- The model evaluated in a fresh session, with the steps of its runs in an order. -/
def Model.Evaluates (model : Model) (order : List Nat)
    (result : Except Failure (List RunOutput)) : Prop :=
  match model.time.points? with
  | none => result = .error .aborted
  | some times => JobsGive ((Pool.start model times).ticks order).jobs result

/-- The model evaluated in a fresh session with one run only. -/
def Model.alone (model : Model) (run : Run) : Except Failure (List RunOutput) :=
  (Session.standard.evaluateModel { model with runs := [run] }).1

/-! ## Jobs that are disturbed -/

namespace Pool

variable {model : Model} {times : List Float} {pool : Pool}

theorem tick_of_step {i : Nat} {run : Run}
    {next : Session → Task Session (Except Failure RunOutput)} {after : Session → Session}
    (h : pool.jobs[i]? = some ⟨run, .step next after⟩) :
    pool.tick i = ⟨after pool.session, pool.jobs.set i ⟨run, next pool.session⟩⟩ := by
  rw [tick, h]

theorem tick_cases (pool : Pool) (i : Nat) :
    pool.tick i = pool ∨ ∃ run next after, pool.jobs[i]? = some ⟨run, .step next after⟩ ∧
      pool.tick i = ⟨after pool.session, pool.jobs.set i ⟨run, next pool.session⟩⟩ := by
  rcases hjob : pool.jobs[i]? with _ | ⟨run, _ | ⟨next, after⟩⟩
  · exact .inl (by rw [tick, hjob])
  · exact .inl (by rw [tick, hjob])
  · exact .inr ⟨run, next, after, rfl, tick_of_step hjob⟩

theorem getElem?_start (model : Model) (times : List Float) (i : Nat) :
    (start model times).jobs[i]? =
      model.effectiveRuns[i]?.map fun run => ⟨run, run.task model times⟩ := by
  rw [start, List.getElem?_map]

/-- What a run gives in a session of its own, or, if it comes to a late line, the failure there. -/
def Expected (model : Model) (times : List Float) (run : Run)
    (r : Except Failure RunOutput) : Prop :=
  r = (Session.standard.evaluateRun model times run).1 ∨
    ∃ front late module, LateLine model.lines front late module ∧ run.Passes model front ∧
      r = .error (lateFailure late module)

/-- Every job ensures that it gives what is expected of its run. -/
def Settled (model : Model) (times : List Float) (pool : Pool) : Prop :=
  ∀ job ∈ pool.jobs, job.task.Ensures (Session.Grows model.lines)
    (fun r _ => Expected model times job.run r) pool.session

theorem settled_start (model : Model) (times : List Float) :
    (start model times).Settled model times := by
  intro job hjob
  obtain ⟨run, -, rfl⟩ := List.mem_map.1 hjob
  exact run.ensures_task model times

/-- **A step of one job** does not disturb the others. -/
theorem Settled.tick (h : pool.Settled model times) (i : Nat) :
    (pool.tick i).Settled model times := by
  rcases pool.tick_cases i with heq | ⟨run, next, after, hjob, heq⟩
  · rw [heq]
    exact h
  · have hallows := Session.allows_grows model.lines
    obtain ⟨hgrows, hnext⟩ := h _ (List.mem_of_getElem? hjob) pool.session
      (hallows.refl pool.session)
    rw [heq]
    intro job hmem
    rcases List.mem_or_eq_of_mem_set hmem with hmem | rfl
    · exact (h job hmem).grow hallows hgrows
    · exact hnext

/-- **In any order of the steps**, every job is on its way to what is expected of its run. -/
theorem Settled.ticks (h : pool.Settled model times) (order : List Nat) :
    (pool.ticks order).Settled model times := by
  induction order generalizing pool with
  | nil => exact h
  | cons i order ih => exact ih (h.tick i)

theorem runs_tick (pool : Pool) (i : Nat) :
    (pool.tick i).jobs.map Job.run = pool.jobs.map Job.run := by
  rcases pool.tick_cases i with heq | ⟨run, next, after, hjob, heq⟩
  · rw [heq]
  · obtain ⟨hi, hget⟩ := List.getElem?_eq_some_iff.1 hjob
    have hlength : i < (pool.jobs.map Job.run).length := by rwa [List.length_map]
    have hrun : run = (pool.jobs.map Job.run)[i] := by rw [List.getElem_map, hget]
    rw [heq, List.map_set, hrun, List.set_getElem_self]

theorem runs_ticks (pool : Pool) (order : List Nat) :
    (pool.ticks order).jobs.map Job.run = pool.jobs.map Job.run := by
  induction order generalizing pool with
  | nil => rfl
  | cons i order ih => exact (ih (pool.tick i)).trans (pool.runs_tick i)

theorem Settled.of_done (h : pool.Settled model times) {job : Job} (hjob : job ∈ pool.jobs)
    {r : Except Failure RunOutput} (hdone : job.task = .done r) :
    Expected model times job.run r := by
  have hensures := h job hjob
  rw [hdone] at hensures
  exact hensures pool.session ((Session.allows_grows model.lines).refl pool.session)

/-- **A job that is not disturbed**, since all others are done from the beginning. -/
theorem exists_ticks_of_done {j : Nat} {run : Run} {task : Task Session (Except Failure RunOutput)}
    (hjob : pool.jobs[j]? = some ⟨run, task⟩)
    (hothers : ∀ i job, i ≠ j → pool.jobs[i]? = some job → ∃ r, job.task = .done r)
    (order : List Nat) :
    ∃ task', (pool.ticks order).jobs[j]? = some ⟨run, task'⟩ ∧
      (task'.run (pool.ticks order).session).1 = (task.run pool.session).1 := by
  induction order generalizing pool task with
  | nil => exact ⟨task, hjob, rfl⟩
  | cons i order ih =>
    rw [ticks, List.foldl_cons, ← ticks]
    rcases pool.tick_cases i with heq | ⟨run', next, after, hstep, heq⟩
    · rw [heq]
      exact ih hjob hothers
    · obtain rfl : i = j := by
        by_contra hne
        obtain ⟨r, hdone⟩ := hothers i _ hne hstep
        cases hdone
      rw [hjob] at hstep
      cases hstep
      obtain ⟨hi, -⟩ := List.getElem?_eq_some_iff.1 hjob
      rw [heq]
      refine ih (List.getElem?_set_self hi) fun k job hk hget => hothers k job hk ?_
      rwa [List.getElem?_set_ne hk.symm] at hget

end Pool

/-! ## Jobs one after the other -/

/-- What jobs give that are finished one after the other. -/
def sequentialResult : List Job → Session → Except Failure (List RunOutput)
  | [], _ => .ok []
  | job :: rest, session =>
    match job.task.run session with
    | (.error e, _) => .error e
    | (.ok output, session) => (sequentialResult rest session).map (output :: ·)

theorem sequentialResult_start (model : Model) (times : List Float) (runs : List Run)
    (session : Session) :
    sequentialResult (runs.map fun run => ⟨run, run.task model times⟩) session =
      (session.evaluateRuns model times runs).1 := by
  induction runs generalizing session with
  | nil => rfl
  | cons run rest ih =>
    rw [List.map_cons, sequentialResult, Run.run_task, Session.evaluateRuns]
    rcases session.evaluateRun model times run with ⟨_ | output, session'⟩
    · rfl
    · simp only [ih]
      rcases session'.evaluateRuns model times rest with ⟨_ | outputs, session''⟩ <;> rfl

theorem JobsGive.cons {job : Job} {jobs : List Job} {output : RunOutput}
    {result : Except Failure (List RunOutput)} (hdone : job.task = .done (.ok output))
    (h : JobsGive jobs result) : JobsGive (job :: jobs) (result.map (output :: ·)) := by
  cases h with
  | outputs all => exact .outputs (.cons hdone all)
  | failure mem failed => exact .failure (List.mem_cons_of_mem job mem) failed

namespace Pool

theorem ticks_append (pool : Pool) (order more : List Nat) :
    pool.ticks (order ++ more) = (pool.ticks order).ticks more := List.foldl_append

theorem ticks_replicate (pool : Pool) {i : Nat} {run : Run}
    {task : Task Session (Except Failure RunOutput)} (h : pool.jobs[i]? = some ⟨run, task⟩)
    (n : Nat) : pool.ticks (List.replicate n i) =
      ⟨(task.advance n pool.session).2,
        pool.jobs.set i ⟨run, (task.advance n pool.session).1⟩⟩ := by
  obtain ⟨hi, hget⟩ := List.getElem?_eq_some_iff.1 h
  have hsame : pool.jobs.set i ⟨run, task⟩ = pool.jobs := by rw [← hget, List.set_getElem_self]
  induction n generalizing pool task with
  | zero =>
    rw [Task.advance, hsame]
    rfl
  | succ n ih =>
    rw [List.replicate_succ, ticks, List.foldl_cons, ← ticks]
    cases task with
    | done r =>
      have htick : pool.tick i = pool := by rw [tick, h]
      have hdone : ∀ n, (Task.done r).advance n pool.session = (.done r, pool.session) := by
        intro n
        cases n <;> rfl
      rw [htick, ih pool h hi hget hsame, hdone, hdone]
    | step next after =>
      rw [tick_of_step h, ih _ (List.getElem?_set_self hi) (by simpa using hi) (by simp) (by simp),
        List.set_set]
      rfl

theorem exists_ticks_run (pool : Pool) {i : Nat} {run : Run}
    {task : Task Session (Except Failure RunOutput)} (h : pool.jobs[i]? = some ⟨run, task⟩) :
    ∃ order, pool.ticks order =
      ⟨(task.run pool.session).2, pool.jobs.set i ⟨run, .done (task.run pool.session).1⟩⟩ := by
  obtain ⟨n, hn⟩ := task.exists_advance_eq_run pool.session
  exact ⟨_, by rw [pool.ticks_replicate h n, hn]⟩

/-- **Runs that are under way** can be finished one after the other. -/
theorem exists_ticks_gives (finished jobs : List Job) (session : Session) :
    ∃ order jobs', ((Pool.mk session (finished ++ jobs)).ticks order).jobs = finished ++ jobs' ∧
      JobsGive jobs' (sequentialResult jobs session) := by
  induction jobs generalizing finished session with
  | nil => exact ⟨[], [], rfl, .outputs .nil⟩
  | cons job rest ih =>
    rcases job with ⟨run, task⟩
    have hjob : (finished ++ ⟨run, task⟩ :: rest)[finished.length]? = some ⟨run, task⟩ := by simp
    obtain ⟨order, horder⟩ := exists_ticks_run ⟨session, finished ++ ⟨run, task⟩ :: rest⟩ hjob
    have hset : (finished ++ ⟨run, task⟩ :: rest).set finished.length
        ⟨run, .done (task.run session).1⟩ =
        finished ++ ⟨run, .done (task.run session).1⟩ :: rest := by
      simp
    rw [hset] at horder
    rw [sequentialResult]
    rcases hrun : task.run session with ⟨e | output, session'⟩
    · rw [hrun] at horder
      exact ⟨order, _, by rw [horder], .failure List.mem_cons_self rfl⟩
    · rw [hrun] at horder
      obtain ⟨more, jobs', hmore, hgive⟩ := ih (finished ++ [⟨run, .done (.ok output)⟩]) session'
      refine ⟨order ++ more, ⟨run, .done (.ok output)⟩ :: jobs', ?_, hgive.cons rfl⟩
      rw [ticks_append, horder]
      rw [List.append_assoc, List.append_assoc, List.cons_append, List.nil_append,
        List.cons_append, List.nil_append] at hmore
      exact hmore

end Pool

/-! ## Independence -/

theorem Model.effectiveRuns_ne_nil (model : Model) : model.effectiveRuns ≠ [] := by
  rw [effectiveRuns]
  split_ifs with h
  · exact List.cons_ne_nil _ _
  · simpa using h

theorem Model.alone_of_none {model : Model} (h : model.time.points? = none) (run : Run) :
    model.alone run = .error .aborted := by
  simp only [alone, Session.evaluateModel, h]

theorem Model.alone_of_some {model : Model} {times : List Float}
    (h : model.time.points? = some times) (run : Run) :
    model.alone run = (Session.standard.evaluateRun model times run).1.map ([·]) := by
  have hruns : Model.effectiveRuns { model with runs := [run] } = [run] := rfl
  have hrun : Session.standard.evaluateRun { model with runs := [run] } times run =
      Session.standard.evaluateRun model times run := rfl
  simp only [alone, Session.evaluateModel, h, hruns, Session.evaluateRuns, hrun]
  rcases Session.standard.evaluateRun model times run with ⟨_ | output, session⟩ <;> rfl

/-- The program's own order, one run after the other, is one of the orders. -/
theorem Model.exists_evaluates (model : Model) :
    ∃ order, model.Evaluates order (Session.standard.evaluateModel model).1 := by
  cases h : model.time.points? with
  | none =>
    exact ⟨[], by simp only [Evaluates, Session.evaluateModel, h]⟩
  | some times =>
    obtain ⟨order, jobs, hjobs, hgive⟩ :=
      Pool.exists_ticks_gives [] (Pool.start model times).jobs .standard
    refine ⟨order, ?_⟩
    simp only [Evaluates, Session.evaluateModel, h]
    rw [Pool.start, sequentialResult_start] at hgive
    rw [List.nil_append, List.nil_append] at hjobs
    show JobsGive ((Pool.mk .standard (Pool.start model times).jobs).ticks order).jobs _
    rw [hjobs]
    exact hgive

theorem Model.exists_evaluates_append (model : Model) (order : List Nat) :
    ∃ more result, model.Evaluates (order ++ more) result := by
  cases h : model.time.points? with
  | none =>
    exact ⟨[], .error .aborted, by simp only [Evaluates, h]⟩
  | some times =>
    rcases hpool : (Pool.start model times).ticks order with ⟨session, jobs⟩
    obtain ⟨more, jobs', hjobs, hgive⟩ := Pool.exists_ticks_gives [] jobs session
    refine ⟨more, sequentialResult jobs session, ?_⟩
    simp only [Evaluates, h]
    rw [List.nil_append, List.nil_append] at hjobs
    rw [Pool.ticks_append, hpool, hjobs]
    exact hgive

namespace Model.Evaluates

variable {model : Model} {order : List Nat} {times : List Float}

theorem runs_eq (model : Model) (times : List Float) (order : List Nat) :
    ((Pool.start model times).ticks order).jobs.map Job.run = model.effectiveRuns := by
  rw [Pool.runs_ticks]
  simp [Pool.start, Function.comp_def]

theorem outputs {outputs : List RunOutput} (h : model.Evaluates order (.ok outputs)) :
    List.Forall₂ (fun run output => model.alone run = .ok [output]) model.effectiveRuns outputs := by
  cases htimes : model.time.points? with
  | none =>
    simp only [Evaluates, htimes] at h
    cases h
  | some times =>
    simp only [Evaluates, htimes] at h
    rcases h with ⟨hall⟩
    rw [← runs_eq model times order, List.forall₂_map_left_iff]
    have hdone : ∀ job ∈ ((Pool.start model times).ticks order).jobs, ∀ output,
        job.task = .done (.ok output) → model.alone job.run = .ok [output] := by
      intro job hjob output hout
      rcases ((Pool.settled_start model times).ticks order).of_done hjob hout with
        halone | ⟨_, _, _, _, _, hlate⟩
      · rw [alone_of_some htimes, ← halone]
        rfl
      · cases hlate
    exact ((List.forall₂_and_left _ _).2 ⟨hdone, hall⟩).imp fun job output h => h.1 output h.2

theorem exists_error {result : Except Failure (List RunOutput)}
    (h : model.Evaluates order result) {run : Run} (hrun : run ∈ model.effectiveRuns) {e : Failure}
    (halone : model.alone run = .error e) : ∃ e, result = .error e := by
  rcases result with e' | outputs
  · exact ⟨e', rfl⟩
  · have hall : List.Forall₂ (fun run _ => (∃ output, model.alone run = .ok [output]) ∧ True)
        model.effectiveRuns outputs := h.outputs.imp fun run output h => ⟨⟨output, h⟩, trivial⟩
    obtain ⟨output, houtput⟩ := ((List.forall₂_and_left _ _).1 hall).1 run hrun
    rw [halone] at houtput
    cases houtput

/-- If no runs race, one that comes to the late line is not disturbed: all others are done from the
beginning. -/
theorem alone_of_not_races (hraces : ¬ model.Races) (htimes : model.time.points? = some times)
    {front : List TheoryLine} {late : TheoryLine} {module : String} {run : Run} {j : Nat}
    (hlate : LateLine model.lines front late module) (hrun : model.effectiveRuns[j]? = some run)
    (hpasses : run.Passes model front) {r : Except Failure RunOutput}
    (hj : ((Pool.start model times).ticks order).jobs[j]? = some ⟨run, .done r⟩) :
    model.alone run = r.map ([·]) := by
  have hothers : ∀ i job, i ≠ j → (Pool.start model times).jobs[i]? = some job →
      ∃ r, job.task = .done r := by
    intro i job hne hjob
    rw [Pool.getElem?_start, Option.map_eq_some_iff] at hjob
    obtain ⟨run', hrun', rfl⟩ := hjob
    refine hlate.exists_task_eq_pure (fun hquiet => hraces ?_) times
    exact ⟨Option.isSome_iff_exists.2 ⟨times, htimes⟩, front, late, module, hlate, i, j, run', run,
      hne, hrun', hrun, hquiet, hpasses⟩
  have hstart : (Pool.start model times).jobs[j]? = some ⟨run, run.task model times⟩ := by
    rw [Pool.getElem?_start, hrun]
    rfl
  obtain ⟨task', htask', hresult⟩ := Pool.exists_ticks_of_done hstart hothers order
  rw [hj] at htask'
  cases htask'
  rw [Run.run_task] at hresult
  rw [alone_of_some htimes]
  exact congrArg (Except.map _) hresult.symm

/-- **A failure** is that of a run alone, unless two runs race. -/
theorem failure {e : Failure} (h : model.Evaluates order (.error e)) :
    (∃ run ∈ model.effectiveRuns, model.alone run = .error e) ∨
    model.Races ∧ ∃ front late module, LateLine model.lines front late module ∧
      e = lateFailure late module := by
  cases htimes : model.time.points? with
  | none =>
    simp only [Evaluates, htimes] at h
    cases h
    obtain ⟨run, runs, hruns⟩ := List.exists_cons_of_ne_nil model.effectiveRuns_ne_nil
    exact .inl ⟨run, by rw [hruns]; exact List.mem_cons_self, alone_of_none htimes run⟩
  | some times =>
    simp only [Evaluates, htimes] at h
    rcases h with _ | @⟨⟨run, task⟩, _, hmem, hfailed⟩
    obtain rfl : task = .done (.error e) := hfailed
    obtain ⟨j, hj⟩ := List.mem_iff_getElem?.1 hmem
    have hrun : model.effectiveRuns[j]? = some run := by
      rw [← runs_eq model times order, List.getElem?_map, hj]
      rfl
    have hmemRun : run ∈ model.effectiveRuns := List.mem_of_getElem? hrun
    rcases ((Pool.settled_start model times).ticks order).of_done hmem rfl with
      halone | ⟨front, late, module, hlate, hpasses, hfailure⟩
    · exact .inl ⟨run, hmemRun, by rw [alone_of_some htimes, ← halone]; rfl⟩
    · by_cases hraces : model.Races
      · cases hfailure
        exact .inr ⟨hraces, front, late, module, hlate, rfl⟩
      · exact .inl ⟨run, hmemRun, alone_of_not_races hraces htimes hlate hrun hpasses hj⟩

end Model.Evaluates

/-- If two runs race, there is an order in which one of them misses its user function. -/
theorem Model.Races.exists_evaluates {model : Model} (h : model.Races) :
    ∃ order front late module, LateLine model.lines front late module ∧
      model.Evaluates order (.error (lateFailure late module)) := by
  obtain ⟨htimes, front, late, module, hlate, i, j, a, b, hne, ha, hb, hquiet, hpasses⟩ := h
  obtain ⟨times, htimes⟩ := Option.isSome_iff_exists.1 htimes
  obtain ⟨type, next, hnext⟩ := hlate.exists_createTask hquiet times
  -- The first run stops in the middle of the load, and the second one comes to its end meanwhile.
  have hloading : ((a.task model times).advance 3 .standard).2 = .loading := by
    rw [hnext]
    exact Session.advance_createTask type next
  have hstart : (Pool.start model times).jobs[i]? = some ⟨a, a.task model times⟩ := by
    rw [Pool.getElem?_start, ha]
    rfl
  have hticks := Pool.ticks_replicate _ hstart 3
  generalize ((a.task model times).advance 3 (Pool.start model times).session).1 = task at hticks
  rw [show (Pool.start model times).session = .standard from rfl, hloading] at hticks
  have hjob : ((Pool.start model times).jobs.set i ⟨a, task⟩)[j]? =
      some ⟨b, b.task model times⟩ := by
    rw [List.getElem?_set_ne hne, Pool.getElem?_start, hb]
    rfl
  obtain ⟨more, hmore⟩ := Pool.exists_ticks_run ⟨.loading, _⟩ hjob
  refine ⟨List.replicate 3 i ++ more, front, late, module, hlate, ?_⟩
  have hfailure := hlate.run_task_loading hpasses times
  simp only [Evaluates, htimes, Pool.ticks_append, hticks, hmore, hfailure]
  exact .failure (List.mem_set (List.getElem?_eq_some_iff.1 hjob).1 _) rfl

theorem LateLine.alone_ne {model : Model} {front : List TheoryLine} {late : TheoryLine}
    {module : String} (h : LateLine model.lines front late module)
    (htimes : model.time.points?.isSome) (run : Run) :
    model.alone run ≠ .error (lateFailure late module) := by
  obtain ⟨times, htimes⟩ := Option.isSome_iff_exists.1 htimes
  have hne := h.evaluateRun_ne times run late module
  rw [Model.alone_of_some htimes]
  cases hresult : (Session.standard.evaluateRun model times run).1 with
  | ok output => rintro ⟨⟩
  | error e =>
    rintro halone
    cases halone
    exact hne hresult

/-- **Runs influence one another exactly if they race for a module.** In whatever order the steps of the
runs are taken, outputs are those that the runs have alone in sessions of their own, and there are none
if a run fails alone. A failure is that of a run alone, or a late line misses its function because two
runs race: one that comes to the built-in module, and one that comes to the late line. If two runs race,
this failure is none of a run alone, and there is an order that leads to it. The order in which the
program evaluates the runs is one of these orders, and every order can be continued to its end. -/
theorem runs_independent_iff (model : Model) :
    (∀ order result, model.Evaluates order result →
      (∀ outputs, result = .ok outputs →
        List.Forall₂ (fun run output => model.alone run = .ok [output]) model.effectiveRuns
          outputs) ∧
      ((∃ run ∈ model.effectiveRuns, ∃ e, model.alone run = .error e) →
        ∃ e, result = .error e) ∧
      ∀ e, result = .error e →
        (∃ run ∈ model.effectiveRuns, model.alone run = .error e) ∨
        model.Races ∧ ∃ front late module, LateLine model.lines front late module ∧
          e = lateFailure late module) ∧
    ((∀ order e, model.Evaluates order (.error e) →
      ∃ run ∈ model.effectiveRuns, model.alone run = .error e) ↔ ¬ model.Races) ∧
    (∃ order, model.Evaluates order (Session.standard.evaluateModel model).1) ∧
    ∀ order, ∃ more result, model.Evaluates (order ++ more) result := by
  refine ⟨fun order result h => ⟨?_, ?_, ?_⟩, ⟨fun h hraces => ?_, fun hraces order e h => ?_⟩,
    model.exists_evaluates, model.exists_evaluates_append⟩
  · rintro outputs rfl
    exact h.outputs
  · rintro ⟨run, hrun, e, halone⟩
    exact h.exists_error hrun halone
  · rintro e rfl
    exact h.failure
  · obtain ⟨order, front, late, module, hlate, hevaluates⟩ := hraces.exists_evaluates
    obtain ⟨run, hrun, halone⟩ := h order _ hevaluates
    exact hlate.alone_ne hraces.1 run halone
  · exact h.failure.resolve_right fun hlate => hraces hlate.1

/-- Both runs of this block give outputs alone. If the first one is stopped between the two changes of
the built-in module, the second one finds the first type, does not load the module, and misses the
second type. -/
theorem not_runs_independent :
    ∃ (model : Model) (order : List Nat),
      model.theory =
        ["u libBuiltinUserFcn TabulatedExpFcn 1", "u libMissing StretchedExpFcn 2 3"] ∧
      model.parameters = [0.5, 0.3, 1.0] ∧ model.effectiveRuns = [⟨"a", []⟩, ⟨"b", []⟩] ∧
      (∀ run ∈ model.effectiveRuns, (model.alone run).isOk = true) ∧
      model.Evaluates order
        (.error (.build ⟨2, .userFunctionNotFound "libMissing" "StretchedExpFcn"⟩)) := by
  refine ⟨⟨"", ["u libBuiltinUserFcn TabulatedExpFcn 1", "u libMissing StretchedExpFcn 2 3"],
    [0.5, 0.3, 1.0], [], [⟨"a", []⟩, ⟨"b", []⟩], ⟨0.0, 0.0, 1.0⟩⟩, [0, 0, 0, 1, 1, 1, 1], rfl, rfl,
    rfl, by decide +kernel, ?_⟩
  have htimes : TimeGrid.points? ⟨0.0, 0.0, 1.0⟩ = some [0.0] := by decide +kernel
  have hjob : ((Pool.start ⟨"", ["u libBuiltinUserFcn TabulatedExpFcn 1",
        "u libMissing StretchedExpFcn 2 3"], [0.5, 0.3, 1.0], [], [⟨"a", []⟩, ⟨"b", []⟩],
        ⟨0.0, 0.0, 1.0⟩⟩ [0.0]).ticks [0, 0, 0, 1, 1, 1, 1]).jobs[1]? =
      some ⟨⟨"b", []⟩, .done
        (.error (.build ⟨2, .userFunctionNotFound "libMissing" "StretchedExpFcn"⟩))⟩ := by
    with_unfolding_all rfl
  simp only [Model.Evaluates, htimes]
  exact .failure (List.mem_of_getElem? hjob) rfl

end MuonSpin
