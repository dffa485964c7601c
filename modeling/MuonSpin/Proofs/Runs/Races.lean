import MuonSpin.Proofs.Block.FirstFault
import MuonSpin.Proofs.Runs.Settled
import MuonSpin.Proofs.Session.History

/-!
# Runs that race for a module

Between the two changes of the built-in module only its first type is known. A run that finds this type
then does not load the module itself, and may ask another module for the other type before the load is
over.

* `LateLine`: the line that asks; `Run.Passes`: a run comes to the end of some lines;
  `Model.Races`: one run begins to load the module, another one comes to the late line;
* `Reading.request_cases`: what reading a line does to the session;
  `LateLine.evaluateRun_ne`: a run alone never has the failure that a late line has in a race;
* **`Run.ensures_task`**: a run gives what it gives alone, or comes to the late line and finds no
  function there; `LateLine.run_task_loading`: it finds none while the load is under way.
-/

namespace MuonSpin

/-- The first line that asks for the type that the built-in module makes known last. It asks another
module, and a line in front of it asks the built-in one. -/
structure LateLine (lines front : List TheoryLine) (late : TheoryLine) (module : String) : Prop where
  behind : ∃ rest, lines = front ++ late :: rest
  opened : firstModule? front = some Builtin.moduleName
  first : ∀ line ∈ front, line.type? ≠ some Builtin.lastType
  request : ∃ params, late.request? = some (module, Builtin.lastType, params)
  other : module ≠ Builtin.moduleName

/-- The run, in a session of its own, comes to the end of the lines. -/
def Run.Passes (model : Model) (run : Run) (lines : List TheoryLine) : Prop :=
  ((Reading.start .standard).steps (model.context run) lines).1 = none

/-- The lines in front of the first one with a user function. -/
def quietLines (lines : List TheoryLine) : List TheoryLine :=
  lines.takeWhile (·.request?.isNone)

/-- A run comes to the first line with a user function, and so to the load of the built-in module,
and another one to the late line. -/
def Model.Races (model : Model) : Prop :=
  model.time.points?.isSome ∧ ∃ front late module, LateLine model.lines front late module ∧
    ∃ (i j : Nat) (a b : Run), i ≠ j ∧ model.effectiveRuns[i]? = some a ∧
      model.effectiveRuns[j]? = some b ∧
      a.Passes model (quietLines front) ∧ b.Passes model front

/-- A fresh session in which only the first change of the built-in module is made. -/
def Session.loading : Session := { Session.standard with factories := Builtin.partly }

/-- The failure of a run that asks for the type of a late line too early. -/
def lateFailure (late : TheoryLine) (module : String) : Failure :=
  .build ⟨late.number, .userFunctionNotFound module Builtin.lastType⟩

/-! ## Lines that ask for user functions -/

section Lines

variable {lines front : List TheoryLine} {late : TheoryLine} {module : String}

theorem firstModule?_append (h : firstModule? front = some module) (rest : List TheoryLine) :
    firstModule? (front ++ rest) = some module := by
  rw [firstModule?, List.findSome?_append, ← firstModule?, h]
  rfl

theorem LateLine.firstModule_eq (h : LateLine lines front late module) :
    firstModule? lines = some Builtin.moduleName := by
  obtain ⟨rest, rfl⟩ := h.behind
  exact firstModule?_append h.opened _

theorem request?_of_mem_quietLines {line : TheoryLine} (h : line ∈ quietLines lines) :
    line.request? = none := by
  simpa using List.mem_takeWhile_imp h

theorem exists_first_request (h : firstModule? lines = some module) :
    ∃ line rest type params, lines = quietLines lines ++ line :: rest ∧
      line.request? = some (module, type, params) := by
  induction lines with
  | nil => cases h
  | cons line lines ih =>
    cases hline : line.request? with
    | none =>
      rw [firstModule?_cons_of_none hline] at h
      obtain ⟨line', rest, type, params, hlines, hrequest⟩ := ih h
      refine ⟨line', rest, type, params, ?_, hrequest⟩
      rw [quietLines, List.takeWhile_cons_of_pos (by rw [hline]; rfl), ← quietLines,
        List.cons_append, ← hlines]
    | some request =>
      obtain ⟨module', type, params⟩ := request
      rw [firstModule?_cons_of_some hline, Option.some_inj] at h
      subst h
      refine ⟨line, lines, type, params, ?_, hline⟩
      rw [quietLines, List.takeWhile_cons_of_neg (by simp [hline]), List.nil_append]

/-- In a block that begins with the built-in module there is a late line, or no need for one. -/
theorem calm_or_lateLine (h : firstModule? lines = some Builtin.moduleName) :
    Calm lines ∨ ∃ front late module, LateLine lines front late module := by
  by_cases hcalm : Calm lines
  · exact .inl hcalm
  right
  unfold Calm at hcalm
  push Not at hcalm
  obtain ⟨late, hfind, hmodule⟩ := hcalm
  obtain ⟨htype, front, rest, rfl, hfront⟩ := List.find?_eq_some_iff_append.1 hfind
  obtain ⟨module, type, params, hrequest⟩ :
      ∃ module type params, late.request? = some (module, type, params) := by
    cases hrequest : late.request? with
    | none => simp [TheoryLine.type?, hrequest] at htype
    | some request => exact ⟨request.1, request.2.1, request.2.2, rfl⟩
  obtain rfl : type = Builtin.lastType := by simpa [TheoryLine.type?, hrequest] using htype
  have hother : module ≠ Builtin.moduleName := by
    simpa [TheoryLine.module?, hrequest] using hmodule
  refine ⟨front, late, module, ⟨rest, rfl⟩, ?_, fun line hline => ?_, ⟨params, hrequest⟩, hother⟩
  · cases hfirst : firstModule? front with
    | some module' =>
      rw [firstModule?_append hfirst] at h
      exact h
    | none =>
      rw [firstModule?, List.findSome?_append, ← firstModule?, hfirst,
        List.findSome?_cons] at h
      simp [TheoryLine.module?, hrequest] at h
      exact absurd h hother
  · simpa using hfront line hline

end Lines

/-! ## Reading in one session -/

section Reading

variable {ctx : BuildContext} {reading reading' : Reading} {line : TheoryLine}
  {lines : List TheoryLine} {e : BuildError} {module type : String}

/-- **A line that was read** left the session as it was, or bound a user function. -/
theorem Reading.request_cases (h : reading.step ctx line = (none, reading')) :
    (line.request? = none ∧ reading'.session = reading.session) ∨
    ∃ module type params f, line.request? = some (module, type, params) ∧
      reading.session.bindFunction module type reading.userCount = (.ok f, reading'.session) := by
  rcases step_cases h with ⟨hc, rfl⟩ | ⟨hc, hs, -, rfl⟩ | ⟨hc, hs, factor, session, count, hr, rfl⟩
  · exact .inl ⟨by rw [TheoryLine.request?, if_pos hc], rfl⟩
  · exact .inl ⟨by rw [TheoryLine.request?, if_neg (by simp [hc]), if_pos hs], rfl⟩
  · rw [TheoryLine.request?, if_neg (by simp [hc]), if_neg (by simp [hs])]
    cases hrequest : userRequest? line.tokens with
    | none =>
      rw [Session.readFactor_of_no_request hrequest reading.session .standard] at hr
      have hsame : reading.session = session := congrArg (·.2.1) hr
      exact .inl ⟨rfl, hsame.symm⟩
    | some request =>
      obtain ⟨module, type, params⟩ := request
      rw [Session.readFactor_of_request hrequest] at hr
      rcases hbind : reading.session.bindFunction module type reading.userCount with ⟨e | f, s⟩
      · rw [hbind] at hr
        have hfault : Except.error e = .ok factor := congrArg (·.1) hr
        cases hfault
      · rw [hbind] at hr
        obtain rfl : s = session := congrArg (·.2.1) hr
        exact .inr ⟨module, type, params, f, rfl, hbind⟩

theorem Reading.loaded_of_steps (hs : reading.session.BuiltinOnly)
    (hasked : reading.session.Loaded ∨ (firstModule? lines).isSome)
    (h : reading.steps ctx lines = (none, reading')) : reading'.session.Loaded := by
  induction lines generalizing reading with
  | nil =>
    cases h
    exact hasked.resolve_right (by simp [firstModule?])
  | cons line lines ih =>
    rcases hstep : reading.step ctx line with ⟨_ | e, reading₁⟩
    · rw [steps_cons_of_step hstep] at h
      have hs₁ := Session.kept_builtinOnly.step hs ctx line
      rw [hstep] at hs₁
      refine ih hs₁ ?_ h
      rcases request_cases hstep with ⟨hline, hsame⟩ | ⟨module, type, params, f, -, hbind⟩
      · rw [hsame, ← firstModule?_cons_of_none hline]
        exact hasked
      · exact .inl (hs.loaded_of_bindFunction hbind)
    · rw [steps_cons_of_fault hstep] at h
      cases h

theorem Session.partly_of_bindFunction {session session' : Session}
    (hloader : session.loader = .standard) (hpartly : session.factories = Builtin.partly)
    (htype : type ≠ Builtin.lastType) {index : Nat} {f : UserInstance}
    (h : session.bindFunction module type index = (.ok f, session')) :
    session'.loader = .standard ∧ session'.factories = Builtin.partly := by
  have hfound : ∀ f session', session.Found module type f session' → session' = session := by
    rintro f session' (hknown | ⟨hunknown, hload, hfound⟩)
    · rfl
    · rw [hpartly] at hunknown
      rw [hloader, Loader.load_standard, hpartly, Builtin.run_init.1] at hload
      split_ifs at hload
      cases hload
      rw [Builtin.create?_factories, if_neg htype, hunknown] at hfound
      cases hfound
  cases bindFunction_eq_ok_iff.1 h with
  | stateless found noPart =>
    rw [hfound _ _ found]
    exact ⟨hloader, hpartly⟩
  | attached found part bind =>
    rw [hfound _ _ found]
    exact ⟨hloader, hpartly⟩

/-- While the load of the built-in module is under way, other types than its last one leave it so. -/
theorem Reading.partly_of_steps (hloader : reading.session.loader = .standard)
    (hpartly : reading.session.factories = Builtin.partly)
    (hlines : ∀ line ∈ lines, line.type? ≠ some Builtin.lastType)
    (h : reading.steps ctx lines = (none, reading')) :
    reading'.session.loader = .standard ∧ reading'.session.factories = Builtin.partly := by
  induction lines generalizing reading with
  | nil =>
    cases h
    exact ⟨hloader, hpartly⟩
  | cons line lines ih =>
    obtain ⟨hline, hlines⟩ := List.forall_mem_cons.1 hlines
    rcases hstep : reading.step ctx line with ⟨_ | e, reading₁⟩
    · rw [steps_cons_of_step hstep] at h
      rcases request_cases hstep with ⟨-, hsame⟩ | ⟨module, type, params, f, hrequest, hbind⟩
      · exact ih (by rw [hsame, hloader]) (by rw [hsame, hpartly]) hlines h
      · have htype : type ≠ Builtin.lastType := by simpa [TheoryLine.type?, hrequest] using hline
        obtain ⟨hloader₁, hpartly₁⟩ :=
          Session.partly_of_bindFunction hloader hpartly htype hbind
        exact ih hloader₁ hpartly₁ hlines h
    · rw [steps_cons_of_fault hstep] at h
      cases h

theorem BuildContext.readToken_ne_notFound (ctx : BuildContext) (token module type : String) :
    ctx.readToken token ≠ .error (.userFunctionNotFound module type) := by
  unfold readToken readFunction readMap
  simp only [readNumber_eq]
  grind

theorem Reading.request_of_notFound
    (h : reading.step ctx line = (some ⟨line.number, .userFunctionNotFound module type⟩, reading')) :
    ∃ params, line.request? = some (module, type, params) ∧
      reading.session.NotFound module type reading'.session := by
  obtain ⟨fault, he, hstops⟩ := stops_of_step h
  cases he
  cases hstops with
  | kernel content noSeparator rejects =>
    rw [TheoryLine.request?, if_neg (by simp [content]), if_neg (by simp [noSeparator])]
    generalize line.tokens = words at rejects
    cases rejects with
    | @notFound name _ _ params _ search notFound =>
      refine ⟨params, ?_, notFound⟩
      rw [userRequest?, List.headD_cons, search]
      rfl
    | token search admitted params readable unreadable =>
      exact absurd unreadable (ctx.readToken_ne_notFound _ module type)

/-- In a block that begins with the built-in module, its last type is always found. -/
theorem Reading.fault_ne_of_steps (hs : reading.session.BuiltinOnly)
    (hfirst : reading.session.Loaded ∨ firstModule? lines = some Builtin.moduleName)
    (h : reading.steps ctx lines = (some e, reading')) (module : String) :
    e.fault ≠ .userFunctionNotFound module Builtin.lastType := by
  induction lines generalizing reading with
  | nil => cases h
  | cons line lines ih =>
    rcases hstep : reading.step ctx line with ⟨_ | e', reading₁⟩
    · rw [steps_cons_of_step hstep] at h
      have hs₁ := Session.kept_builtinOnly.step hs ctx line
      rw [hstep] at hs₁
      refine ih hs₁ ?_ h
      rcases request_cases hstep with ⟨hline, hsame⟩ | ⟨module, type, params, f, -, hbind⟩
      · rw [hsame, ← firstModule?_cons_of_none hline]
        exact hfirst
      · exact .inl (hs.loaded_of_bindFunction hbind)
    · rw [steps_cons_of_fault hstep] at h
      cases h
      obtain ⟨fault, rfl, -⟩ := stops_of_step hstep
      rintro rfl
      obtain ⟨params, hline, hnotFound⟩ := request_of_notFound hstep
      rw [firstModule?_cons_of_some hline, Option.some_inj] at hfirst
      have hcreate := Session.createFunction_eq_error_iff.2 ⟨rfl, hnotFound⟩
      rw [hs.createFunction_of_reaches hfirst] at hcreate
      have hanswer : Session.loadedAnswer module Builtin.lastType =
          .error (.userFunctionNotFound module Builtin.lastType) := congrArg Prod.fst hcreate
      rw [Session.loadedAnswer, Builtin.create?_factories, if_pos rfl] at hanswer
      cases hanswer

theorem Session.fault_ne_of_build {session session' : Session} (hs : session.BuiltinOnly)
    (hfirst : firstModule? lines = some Builtin.moduleName)
    (h : session.build ctx lines = (.error e, session')) (module : String) :
    e.fault ≠ .userFunctionNotFound module Builtin.lastType := by
  unfold Session.build at h
  rcases hsteps : (Reading.start session).steps ctx lines with ⟨_ | e', reading⟩
  · cases hend : reading.endError ((lines.head?.map (·.number)).getD 0) with
    | none => simp [hsteps, hend] at h
    | some e' =>
      simp only [hsteps, hend] at h
      cases h
      cases (endError_eq_some_iff hsteps).1 hend <;> rintro ⟨⟩
  · simp only [hsteps] at h
    cases h
    exact Reading.fault_ne_of_steps hs (.inr hfirst) hsteps module

end Reading

/-! ## Runs in a shared session -/

section Runs

variable {model : Model} {times : List Float} {run : Run} {front : List TheoryLine}
  {late : TheoryLine} {module : String}

theorem Progress.before_start {lines rest : List TheoryLine} {session : Session}
    (hs : session.Sound lines) (hopened : firstModule? rest = firstModule? lines)
    (hcalm : firstModule? lines = some Builtin.moduleName → Calm rest) :
    Before lines rest start session :=
  ⟨hs, .inl hopened, fun hfirst => .inr (hcalm hfirst), by simp [factors, start]⟩

/-- The lines in front of a late line do not race for anything. -/
theorem LateLine.before_start (h : LateLine model.lines front late module) {session : Session}
    (hs : session.Sound model.lines) :
    Progress.Before model.lines front Progress.start session :=
  Progress.before_start hs (h.opened.trans h.firstModule_eq.symm) fun _ => calm_of_forall_ne h.first

theorem LateLine.opened_of_before (h : LateLine model.lines front late module)
    {progress : Progress} {session : Session}
    (hbefore : Progress.Before model.lines [] progress session) : session.Opened := by
  refine hbefore.opened.resolve_left fun hnone => ?_
  rw [h.firstModule_eq] at hnone
  cases hnone

theorem Run.task_append {tail : List TheoryLine} (hlines : model.lines = front ++ tail) (run : Run)
    (times : List Float) :
    run.task model times = Progress.start.stepsTask (model.context run) front >>=
      fun r => Progress.goOn (model.context run) tail r >>= run.finishTask model times := by
  rw [task, hlines, Progress.stepsTask_append, Task.bind_assoc]

theorem LateLine.exists_next (h : LateLine model.lines front late module)
    {rest tail : List TheoryLine} (htail : late :: rest = tail) (run : Run) (times : List Float)
    (progress : Progress) :
    ∃ next, progress.stepsTask (model.context run) tail >>= run.finishTask model times =
        Session.createTask module Builtin.lastType >>= next ∧
      ∀ e, next (.error e) = pure (.error (.build ⟨late.number, e⟩)) := by
  subst htail
  exact h.request.elim fun _ hrequest =>
    Progress.exists_stepsTask_eq_bind (model.context run) hrequest progress rest _

/-- **At the late line** either the load is over, or no function is found. -/
theorem LateLine.ensures_tail (h : LateLine model.lines front late module)
    {rest tail : List TheoryLine} (htail : late :: rest = tail) {progress : Progress}
    {session session' : Session} (hbefore : Progress.Before model.lines [] progress session)
    (hbefore' : Progress.Before model.lines [] progress session') (hloaded' : session'.Loaded) :
    (progress.stepsTask (model.context run) tail >>= run.finishTask model times).Ensures
      (Session.Grows model.lines)
      (fun r _ => r = ((progress.stepsTask (model.context run) tail >>=
        run.finishTask model times).run session').1 ∨ r = .error (lateFailure late module))
      session := by
  have hallows := Session.allows_grows model.lines
  have hsettles := run.settles_rest model times tail progress
  obtain ⟨next, hnext, herror⟩ := h.exists_next htail run times progress
  rw [hnext, Session.createTask, Session.lookupTask, Task.bind_assoc] at hsettles ⊢
  have hknown : ∀ session, Progress.Before model.lines [] progress session → session.Loaded →
      Progress.Before model.lines tail progress session := fun session hbefore hloaded =>
    ⟨hbefore.sound, .inr hloaded.opened, fun _ => .inl hloaded, hbefore.ready⟩
  refine .atomic_bind fun session₁ h₁ => ⟨hallows.refl session₁, ?_⟩
  have hbefore₁ := Progress.stable_before _ _ _ _ _ h₁ hbefore
  rcases h.opened_of_before hbefore₁ with hpartly | hloaded
  · rw [hpartly, Builtin.create?_partly_lastType]
    refine (Session.ensures_loadedTask_other hbefore₁.sound h.other Builtin.lastType).bind
      hallows ?_
    rintro _ session₂ ⟨rfl, -⟩
    rw [herror]
    exact .pure fun _ _ => .inr rfl
  · have hensures := hsettles.ensures_run hallows (hknown _ hbefore' hloaded')
      (hknown _ hbefore₁ hloaded)
    exact (hensures session₁ (hallows.refl session₁)).2.mono fun _ _ hr => .inl hr.1

theorem LateLine.ensures_front (h : LateLine model.lines front late module) (run : Run)
    {session : Session} (hs : session.Sound model.lines) :
    (Progress.start.stepsTask (model.context run) front).Ensures (Session.Grows model.lines)
      (fun r session =>
        r = (((Reading.start .standard).steps (model.context run) front).1,
          Progress.ofReading ((Reading.start .standard).steps (model.context run) front).2) ∧
        (r.1 = none → Progress.Before model.lines [] r.2 session)) session := by
  have hread := Progress.run_stepsTask (model.context run) .start front .standard
  refine ((Progress.settles_stepsTask (model.context run)).ensures_run
    (Session.allows_grows model.lines) (h.before_start (Session.sound_standard model.lines))
    (h.before_start hs)).mono ?_
  rintro r session ⟨hr, -, hend⟩
  rw [hread] at hr
  exact ⟨hr, hend⟩

/-- **A run gives what it gives alone**, or fails at a late line. -/
theorem Run.ensures_task (model : Model) (times : List Float) (run : Run) :
    (run.task model times).Ensures (Session.Grows model.lines)
      (fun r _ => r = (Session.standard.evaluateRun model times run).1 ∨
        ∃ front late module, LateLine model.lines front late module ∧ run.Passes model front ∧
          r = .error (lateFailure late module)) .standard := by
  have hallows := Session.allows_grows model.lines
  have hsound := Session.sound_standard model.lines
  rw [← run_task]
  by_cases hcalm : firstModule? model.lines = some Builtin.moduleName → Calm model.lines
  · have hbefore := Progress.before_start hsound rfl hcalm
    exact ((run.settles_rest model times model.lines .start).ensures_run hallows hbefore
      hbefore).mono fun r session hr => .inl hr.1
  push Not at hcalm
  obtain ⟨hfirst, hcalm⟩ := hcalm
  obtain ⟨front, late, module, h⟩ := (calm_or_lateLine hfirst).resolve_left hcalm
  obtain ⟨rest, hlines⟩ := h.behind
  generalize htail : late :: rest = tail at hlines
  obtain ⟨-, hend⟩ := (h.ensures_front run hsound).run hallows
  rw [run.task_append hlines, Task.run_bind]
  refine (h.ensures_front run hsound).bind hallows ?_
  rintro _ session ⟨rfl, hsession⟩
  rw [Progress.run_stepsTask, show Progress.start.inSession .standard = .start .standard from rfl]
    at hend ⊢
  rcases hread : (Reading.start .standard).steps (model.context run) front with ⟨_ | e, reading⟩
  · rw [hread] at hend hsession
    have hpasses : run.Passes model front := congrArg Prod.fst hread
    have hloaded : reading.session.Loaded :=
      Reading.loaded_of_steps Session.builtinOnly_standard (.inr (by rw [h.opened]; rfl)) hread
    refine (h.ensures_tail htail (hsession rfl) (hend rfl) hloaded).mono fun r _ hr => ?_
    exact hr.imp_right fun hfailure => ⟨front, late, module, h, hpasses, hfailure⟩
  · exact .pure fun _ _ => .inl rfl

/-- **While the load is under way** a run that comes to the late line finds no function there. -/
theorem LateLine.run_task_loading (h : LateLine model.lines front late module)
    (hpasses : run.Passes model front) (times : List Float) :
    ((run.task model times).run .loading).1 = .error (lateFailure late module) := by
  have hsound : Session.Sound model.lines .loading :=
    ⟨rfl, .inr ⟨.inl rfl, h.firstModule_eq⟩, GlobalParts.sound_empty⟩
  obtain ⟨rest, hlines⟩ := h.behind
  generalize htail : late :: rest = tail at hlines
  -- The lines in front of the late line are read as in a session that is not disturbed.
  obtain ⟨hfront, -⟩ := (h.ensures_front run hsound).run (Session.allows_grows model.lines)
  rw [run.task_append hlines, Task.run_bind, hfront, show _ = none from hpasses]
  rw [Progress.run_stepsTask] at hfront ⊢
  -- They leave the load under way.
  have hread : (Progress.start.inSession .loading).steps (model.context run) front = (none, _) :=
    Prod.ext ((congrArg Prod.fst hfront).trans hpasses) rfl
  have hsteps := Reading.partly_of_steps rfl rfl h.first hread
  generalize (Reading.steps (model.context run) _ front).2.session = session at hsteps ⊢
  obtain ⟨hloader, hpartly⟩ := hsteps
  have hcreate : session.createFunction module Builtin.lastType =
      (.error (.userFunctionNotFound module Builtin.lastType), session) := by
    obtain ⟨e, hload⟩ := Loader.load_standard_of_ne h.other session.factories
    refine Session.createFunction_eq_error_iff.2 ⟨rfl, .notLoaded ?_ (hloader ▸ hload)⟩
    rw [hpartly, Builtin.create?_partly_lastType]
  obtain ⟨next, hnext, herror⟩ := h.exists_next htail run times _
  rw [Progress.goOn, hnext, Task.run_bind, Session.run_createTask, hcreate, herror]
  rfl

/-- **Alone**, a run never misses the last type of the built-in module. -/
theorem LateLine.evaluateRun_ne (h : LateLine model.lines front late module) (times : List Float)
    (run : Run) (late' : TheoryLine) (module' : String) :
    (Session.standard.evaluateRun model times run).1 ≠ .error (lateFailure late' module') := by
  intro herror
  unfold Session.evaluateRun at herror
  rcases hbuild : Session.standard.build (model.context run) model.lines with ⟨e | theory, session⟩
  · simp only [hbuild] at herror
    cases herror
    exact Session.fault_ne_of_build Session.builtinOnly_standard h.firstModule_eq hbuild module' rfl
  · simp only [hbuild, Session.evaluateTheory] at herror
    split at herror <;> cases herror

theorem Run.task_cases {quiet tail : List TheoryLine} (hlines : model.lines = quiet ++ tail)
    (hquiet : ∀ line ∈ quiet, line.request? = none) (run : Run) (times : List Float) :
    (run.Passes model quiet ∧ ∃ progress : Progress, run.task model times =
        progress.stepsTask (model.context run) tail >>= run.finishTask model times) ∨
      (¬ run.Passes model quiet ∧ ∃ r, run.task model times = pure r) := by
  obtain ⟨r, hr⟩ := Progress.exists_stepsTask_eq_pure (model.context run) hquiet .start
  have hreading := Progress.run_stepsTask (model.context run) .start quiet .standard
  rw [run.task_append hlines, hr, Task.pure_bind]
  rw [hr, Task.run_pure] at hreading
  have hfault : r.1 = ((Reading.start .standard).steps (model.context run) quiet).1 :=
    congrArg (·.1.1) hreading
  rw [Passes, ← hfault]
  rcases r with ⟨_ | e, progress⟩
  · exact .inl ⟨rfl, progress, rfl⟩
  · exact .inr ⟨Option.some_ne_none e, _, rfl⟩

theorem LateLine.exists_task_eq_pure (h : LateLine model.lines front late module)
    (hpasses : ¬ run.Passes model (quietLines front)) (times : List Float) :
    ∃ r, run.task model times = pure r := by
  obtain ⟨rest, hlines⟩ := h.behind
  obtain ⟨line, rest', type, params, hfront, hrequest⟩ := exists_first_request h.opened
  rw [hfront, List.append_assoc] at hlines
  rcases run.task_cases hlines (fun _ => request?_of_mem_quietLines) times with
    ⟨hpasses', -⟩ | ⟨-, hpure⟩
  · exact absurd hpasses' hpasses
  · exact hpure

theorem LateLine.exists_createTask (h : LateLine model.lines front late module)
    (hpasses : run.Passes model (quietLines front)) (times : List Float) :
    ∃ type next, run.task model times = Session.createTask Builtin.moduleName type >>= next := by
  obtain ⟨rest, hlines⟩ := h.behind
  obtain ⟨line, rest', type, params, hfront, hrequest⟩ := exists_first_request h.opened
  rw [hfront, List.append_assoc] at hlines
  rcases run.task_cases hlines (fun _ => request?_of_mem_quietLines) times with
    ⟨-, progress, htask⟩ | ⟨hpasses', -⟩
  · obtain ⟨next, hnext, -⟩ := Progress.exists_stepsTask_eq_bind (model.context run)
      hrequest progress (rest' ++ late :: rest) (run.finishTask model times)
    exact ⟨type, next, htask.trans hnext⟩
  · exact absurd hpasses hpasses'

/-- The look-up finds nothing, the loader is asked for, and the first type becomes known. -/
theorem Session.advance_createTask {α : Type} (type : String)
    (next : Except Fault UserInstance → Task Session α) :
    ((Session.createTask Builtin.moduleName type >>= next).advance 3 .standard).2 = .loading := by
  rfl

end Runs

end MuonSpin
