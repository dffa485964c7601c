import MuonSpin.Proofs.Evaluation.Range
import MuonSpin.Proofs.Evaluation.Solves
import MuonSpin.Proofs.Model.CurveFile
import MuonSpin.Proofs.Runs.Independence

/-!
# The outputs of a model

The output of a run has a curve and three numbers, which are read off the tree and its tables after the
last time. They can be counted in the text of the block.

* `length_termGroups`: a block has one group more than separators;
* `Theory.solves_of_build`: calls that differ in nothing but the time compute every table once;
* `RunOutput.Describes`: what an output says about its run, its block and the times;
* **`outputs_of_evaluateModel`**: there is one output for each run, in the order of the runs, and it
  describes the run.
-/

namespace MuonSpin

/-! ## Counting lines -/

namespace TheoryLine

/-- The line has content and divides no terms. -/
def isFactor (line : TheoryLine) : Bool := !line.content.isEmpty && !line.isSeparator

/-- The line names a kernel with a table. -/
def namesTable (line : TheoryLine) : Bool :=
  (Kernel.search (line.tokens.headD "")).any Kernel.isTabulated

end TheoryLine

section Lines

variable {ctx : BuildContext} {line : TheoryLine} {lines : List TheoryLine} {factor : Factor}

theorem length_termGroups (lines : List TheoryLine) :
    (termGroups lines).length = lines.countP TheoryLine.isSeparator + 1 := by
  induction lines with
  | nil => rfl
  | cons line lines ih =>
    by_cases hs : line.isSeparator = true
    · rw [termGroups_cons_separator (TheoryLine.isEmpty_of_isSeparator hs) hs, List.length_cons, ih,
        List.countP_cons_of_pos hs]
    · rw [List.countP_cons_of_neg hs, ← ih]
      by_cases hc : line.content.isEmpty = true
      · rw [termGroups_cons_blank hc]
      · rw [Bool.not_eq_true] at hc hs
        rw [termGroups_cons_kernel hc hs, List.length_modifyHead]

theorem flatten_termGroups_eq_filter (lines : List TheoryLine) :
    (termGroups lines).flatten = lines.filter TheoryLine.isFactor := by
  rw [flatten_termGroups, contentLines, List.filter_filter]
  refine List.filter_congr fun line _ => ?_
  rw [TheoryLine.isFactor, Bool.and_comm]

theorem TheoryLine.Gives.namesTable (h : line.Gives ctx factor) :
    line.namesTable = factor.kernel.isTabulated := by
  rw [TheoryLine.namesTable, h.kernel, Option.any_some]

end Lines

/-! ## Tables of a curve -/

theorem sum_map_eq_countP {α β : Type} {p : α → Bool} {f : β → Nat} {xs : List α} {ys : List β}
    (h : List.Forall₂ (fun x y => f y = if p x then 1 else 0) xs ys) :
    (ys.map f).sum = xs.countP p := by
  induction h with
  | nil => rfl
  | cons head _ ih => rw [List.map_cons, List.sum_cons, head, ih, List.countP_cons, Nat.add_comm]

/-- Two points that differ in nothing but the time. -/
def Point.SameValues (point point' : Point) : Prop :=
  point.params = point'.params ∧ point.funcs = point'.funcs

section Tables

variable {session session' : Session} {ctx : BuildContext} {lines : List TheoryLine}
  {theory theory' : Theory} {point : Point} {points : List Point}

theorem Factor.tableBits_of_sameValues (factor : Factor) {point' : Point}
    (h : point'.SameValues point) : factor.tableBits point' = factor.tableBits point := by
  have hvalueOf : point'.valueOf = point.valueOf := by
    funext r
    rw [Point.valueOf, Point.valueOf, h.1, h.2]
  rw [tableBits, tableBits, hvalueOf]

theorem Factor.expectedSolves_of_sameValues (factor : Factor)
    (h : ∀ point' ∈ points, point'.SameValues point) :
    factor.expectedSolves (point :: points) = if factor.kernel.isTabulated then 1 else 0 := by
  have hbits : ∀ bits ∈ points.map factor.tableBits, bits = factor.tableBits point := by
    intro bits hmem
    obtain ⟨point', hpoint', rfl⟩ := List.mem_map.1 hmem
    exact factor.tableBits_of_sameValues (h point' hpoint')
  rw [expectedSolves, List.map_cons, changes, changes_of_forall_eq hbits]
  rfl

theorem Theory.Same.gives_of_build (h : theory.Same theory')
    (hbuild : session.build ctx lines = (.ok theory, session')) :
    List.Forall₂ (List.Forall₂ (TheoryLine.Gives ctx)) (termGroups lines) theory'.terms :=
  h.gives_terms (terms_of_build hbuild).2.1

/-- **Calls that differ in nothing but the time** compute one table for each line with a tabulated
kernel. -/
theorem Theory.solves_of_build (hbuild : session.build ctx lines = (.ok theory, session'))
    (hcalls : Calls Theory.Called (point :: points) theory theory')
    (h : ∀ point' ∈ points, point'.SameValues point) :
    theory'.solves = lines.countP fun line => line.isFactor && line.namesTable := by
  have hrelated := related_of_calls hcalls
  obtain ⟨-, hgives, -, hplus⟩ := terms_of_build hbuild
  -- from lines to the factors as they were built, and from these to the factors after the calls
  have hsame : theory.Same theory' := hrelated.same fun _ _ => Factor.same_of_calls
  have hsolves : theory.Related (fun factor factor' =>
      factor'.solves = if factor.kernel.isTabulated then 1 else 0) theory' :=
    hrelated.imp (Theory.fresh_of_build hbuild) fun factor _ hfresh hfactor => by
      rw [Factor.solves_of_fresh hfresh hfactor, factor.expectedSolves_of_sameValues h]
  have hlines : List.Forall₂ (fun line factor' =>
      Factor.solves factor' = if line.namesTable then 1 else 0)
      (termGroups lines).flatten theory'.terms.flatten := by
    refine forall₂_trans (fun line factor factor' hline hfactor => ?_) (List.rel_flatten hgives)
      (List.rel_flatten hsolves.terms)
    rw [hfactor, hline.namesTable]
  rw [solves_of_plusOnHeads (hsame.plusOnHeads hplus), sum_map_eq_countP hlines,
    flatten_termGroups_eq_filter, List.countP_filter]
  exact List.countP_congr fun line _ => by rw [Bool.and_comm]

theorem Theory.evaluateAll_eq (theory : Theory) (params funcs : List UInt64) (parts : GlobalParts)
    (times : List Float) :
    theory.evaluateAll params funcs parts times =
      (theory.evaluateCalls parts (times.map fun t => ⟨t, params, funcs⟩),
        theory.afterCalls parts (times.map fun t => ⟨t, params, funcs⟩)) := by
  induction times generalizing theory parts with
  | nil => rfl
  | cons t times ih =>
    simp only [evaluateAll_cons, ih]
    rfl

end Tables

/-! ## Outputs -/

/-- What the output of a run says. The run is built in the session and called at the times, one after the
other; the curve has these times and the values of the calls, and the numbers are those of lines of the
block. -/
structure RunOutput.Describes (model : Model) (times : List Float) (session : Session) (run : Run)
    (output : RunOutput) : Prop where
  name_eq : output.curve.run = run.name
  times_eq : output.curve.times = times
  length_eq : output.curve.values.length = times.length
  values : ∃ theory session',
    session.build (model.context run) model.lines = (.ok theory, session') ∧
      theory.evaluateCalls session'.parts (times.map model.point) = output.curve.values.map some
  terms_eq : output.terms = model.lines.countP TheoryLine.isSeparator + 1
  factors_eq : output.factors = model.lines.countP TheoryLine.isFactor
  solves_eq : output.solves = model.lines.countP fun line => line.isFactor && line.namesTable

theorem TimeGrid.ne_nil_of_points? {grid : TimeGrid} {times : List Float}
    (h : grid.points? = some times) : times ≠ [] := by
  rw [points?] at h
  split_ifs at h
  · cases h
    exact List.cons_ne_nil _ _
  · obtain ⟨n, hn, rfl⟩ := Option.map_eq_some_iff.1 h
    rw [count?] at hn
    split_ifs at hn
    cases hn
    simp

namespace Session

variable {session : Session} {model : Model} {times : List Float} {run : Run} {runs : List Run}
  {output : RunOutput} {outputs : List RunOutput}

theorem describes_of_evaluateRun (hne : times ≠ [])
    (h : (session.evaluateRun model times run).1 = .ok output) :
    output.Describes model times session run := by
  unfold evaluateRun at h
  rcases hbuild : session.build (model.context run) model.lines with ⟨e | theory, session'⟩
  · simp [hbuild] at h
  simp only [hbuild, evaluateTheory, Theory.evaluateAll_eq] at h
  split at h
  · cases h
  rename_i values hvalues
  cases h
  have hcalls : theory.evaluateCalls session'.parts (times.map model.point) = values.map some :=
    eq_map_some_of_mapM_id hvalues
  have hsome : ∀ v ∈ theory.evaluateCalls session'.parts (times.map model.point),
      v.isSome = true := by
    rw [hcalls]
    intro v hv
    obtain ⟨x, -, rfl⟩ := List.mem_map.1 hv
    rfl
  have hsame := theory.same_afterCalls session'.parts (times.map model.point)
  have hgives := hsame.gives_of_build hbuild
  obtain ⟨t, rest, rfl⟩ := List.exists_cons_of_ne_nil hne
  refine ⟨rfl, rfl, ?_, ⟨theory, session', hbuild, hcalls⟩, ?_, ?_, ?_⟩
  · have hlength := theory.length_evaluateAll model.parameterBits model.functionBits session'.parts
      (t :: rest)
    rwa [Theory.evaluateAll_eq, eq_map_some_of_mapM_id hvalues, List.length_map] at hlength
  · rw [← length_termGroups]
    exact hgives.length_eq.symm
  · have hflatten := (List.rel_flatten hgives).length_eq
    rw [flatten_termGroups_eq_filter, ← List.countP_eq_length_filter] at hflatten
    exact hflatten.symm
  · refine Theory.solves_of_build hbuild (Theory.calls_afterCalls hsome) fun point hpoint => ?_
    obtain ⟨t', -, rfl⟩ := List.mem_map.1 hpoint
    exact ⟨rfl, rfl⟩

theorem describes_of_evaluateRuns (hne : times ≠ [])
    (h : (session.evaluateRuns model times runs).1 = .ok outputs) :
    outputs.length = runs.length ∧
      ∀ i (run : Run) (output : RunOutput), runs[i]? = some run → outputs[i]? = some output →
        output.Describes model times (session.evaluateRuns model times (runs.take i)).2 run := by
  induction runs generalizing session outputs with
  | nil =>
    cases h
    simp
  | cons run runs ih =>
    unfold evaluateRuns at h
    rcases hrun : session.evaluateRun model times run with ⟨e | output, session₁⟩
    · simp [hrun] at h
    simp only [hrun] at h
    rcases hruns : session₁.evaluateRuns model times runs with ⟨e | others, session₂⟩
    · simp [hruns] at h
    simp only [hruns] at h
    cases h
    obtain ⟨hlength, hothers⟩ := ih (congrArg Prod.fst hruns)
    refine ⟨by rw [List.length_cons, List.length_cons, hlength], ?_⟩
    intro i run' output' hrun' houtput'
    cases i with
    | zero =>
      cases hrun'
      cases houtput'
      exact describes_of_evaluateRun hne (congrArg Prod.fst hrun)
    | succ i =>
      have hsession : (session.evaluateRuns model times ((run :: runs).take (i + 1))).2 =
          (session₁.evaluateRuns model times (runs.take i)).2 := by
        simp only [List.take_succ_cons, evaluateRuns, hrun]
        rcases session₁.evaluateRuns model times (runs.take i) with ⟨_ | _, _⟩ <;> rfl
      rw [hsession]
      exact hothers i run' output' hrun' houtput'

theorem describes_of_evaluateModel (h : (session.evaluateModel model).1 = .ok outputs) :
    ∃ times, model.time.points? = some times ∧ outputs.length = model.effectiveRuns.length ∧
      ∀ i (run : Run) (output : RunOutput), model.effectiveRuns[i]? = some run →
        outputs[i]? = some output → output.Describes model times
          (session.evaluateRuns model times (model.effectiveRuns.take i)).2 run := by
  unfold evaluateModel at h
  cases htimes : model.time.points? with
  | none =>
    rw [htimes] at h
    cases h
  | some times =>
    simp only [htimes] at h
    exact ⟨times, rfl, describes_of_evaluateRuns (TimeGrid.ne_nil_of_points? htimes) h⟩

end Session

theorem Model.Evaluates.describes {model : Model} {order : List Nat} {outputs : List RunOutput}
    (h : model.Evaluates order (.ok outputs)) :
    ∃ times, model.time.points? = some times ∧
      List.Forall₂ (fun run output => output.Describes model times .standard run)
        model.effectiveRuns outputs := by
  have halone := h.outputs
  cases htimes : model.time.points? with
  | none =>
    rw [Evaluates, htimes] at h
    cases h
  | some times =>
    refine ⟨times, rfl, halone.imp fun run output houtput => ?_⟩
    rw [alone_of_some htimes] at houtput
    refine Session.describes_of_evaluateRun (TimeGrid.ne_nil_of_points? htimes) ?_
    cases hrun : (Session.standard.evaluateRun model times run).1 with
    | error e =>
      rw [hrun] at houtput
      cases houtput
    | ok output' =>
      rw [hrun] at houtput
      cases houtput
      rfl

/-- **There is one output for each run, and it describes the run.** If a model evaluates, its runs have
one output each, in the order of the runs. The output of a run has the times of the grid and for each
of them the value of the tree that is built for the run in the session that the runs before it leave;
its terms are one more than the separators of the block, its factors the other lines with content, and
its tables those of these lines that name a kernel with a table. If the steps of the runs are taken in
any order in a fresh session, the outputs describe the runs in the same way, each as if that session
were its own. -/
theorem outputs_of_evaluateModel (model : Model) :
    (∀ session outputs, (Session.evaluateModel session model).1 = .ok outputs →
      ∃ times, model.time.points? = some times ∧ outputs.length = model.effectiveRuns.length ∧
        ∀ i (run : Run) (output : RunOutput), model.effectiveRuns[i]? = some run →
          outputs[i]? = some output → output.Describes model times
            (session.evaluateRuns model times (model.effectiveRuns.take i)).2 run) ∧
    ∀ order outputs, model.Evaluates order (.ok outputs) →
      ∃ times, model.time.points? = some times ∧
        List.Forall₂ (fun run output => output.Describes model times .standard run)
          model.effectiveRuns outputs :=
  ⟨fun _ _ h => Session.describes_of_evaluateModel h, fun _ _ h => h.describes⟩

/-- Two runs with two terms, of which the first has a table. -/
theorem outputs_of_evaluateModel_maps :
    ∃ outputs : List RunOutput, (Session.standard.evaluateModel
        ⟨"", ["sgktlf 1 map1 # width", "", "a 3", "+ (background)", "const 3"], [0.0, 0.3, 0.2], [],
          [⟨"low", [2]⟩, ⟨"high", [3]⟩], ⟨0.0, 1.0, 1.0⟩⟩).1 = .ok outputs ∧
      outputs.map (·.curve.run) = ["low", "high"] ∧
      ∀ output ∈ outputs, output.curve.times = [0.0, 1.0] ∧ output.curve.values.length = 2 ∧
        output.terms = 2 ∧ output.factors = 3 ∧ output.solves = 1 := by
  let model : Model := ⟨"", ["sgktlf 1 map1 # width", "", "a 3", "+ (background)", "const 3"],
    [0.0, 0.3, 0.2], [], [⟨"low", [2]⟩, ⟨"high", [3]⟩], ⟨0.0, 1.0, 1.0⟩⟩
  have hok : (Session.standard.evaluateModel model).1.isOk = true := by decide +kernel
  have htimes : model.time.points? = some [0.0, 1.0] := by decide +kernel
  have hlines : (model.lines.countP TheoryLine.isSeparator, model.lines.countP TheoryLine.isFactor,
      model.lines.countP fun line => line.isFactor && line.namesTable) = (1, 3, 1) := by
    decide +kernel
  obtain ⟨outputs, houtputs⟩ := exists_of_isOk hok
  obtain ⟨times, htimes', hlength, hdescribes⟩ :=
    (outputs_of_evaluateModel model).1 .standard outputs houtputs
  rw [htimes] at htimes'
  cases htimes'
  obtain ⟨low, high, rfl⟩ := List.length_eq_two.1 hlength
  have hlow := hdescribes 0 _ _ rfl rfl
  have hhigh := hdescribes 1 _ _ rfl rfl
  simp only [Prod.mk.injEq] at hlines
  obtain ⟨hterms, hfactors, hsolves⟩ := hlines
  have hnumbers : ∀ session run (output : RunOutput),
      output.Describes model [0.0, 1.0] session run →
      output.curve.times = [0.0, 1.0] ∧ output.curve.values.length = 2 ∧ output.terms = 2 ∧
        output.factors = 3 ∧ output.solves = 1 := by
    intro session run output h
    exact ⟨h.times_eq, h.length_eq, by rw [h.terms_eq, hterms], by rw [h.factors_eq, hfactors],
      by rw [h.solves_eq, hsolves]⟩
  refine ⟨[low, high], houtputs, ?_, List.forall_mem_cons.2 ⟨hnumbers _ _ _ hlow,
    List.forall_mem_singleton.2 (hnumbers _ _ _ hhigh)⟩⟩
  rw [List.map_cons, List.map_cons, hlow.name_eq, hhigh.name_eq]
  rfl

end MuonSpin
