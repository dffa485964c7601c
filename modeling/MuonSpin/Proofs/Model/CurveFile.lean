import MuonSpin.CommandLine.Run
import MuonSpin.Proofs.Block.Factors
import MuonSpin.Proofs.Json.Records

/-!
# Saved curves

An evaluation writes its curves into a file, from which they can be plotted again.

* `CurveFile.numbers`: all floating-point numbers of a file;
* `CurveFile.ofJson?_toJson`, `CurveFile.ofJson?_toJson_eq_none`: the document of a file gives the file
  back if all its numbers do, and no file if one of them is not finite;
* `Session.isEven_of_evaluateModel`: evaluated curves have as many values as times;
* **`Session.parse_curveFile`**: the text of a saved evaluation gives it back if and only if all its
  numbers are finite; `Session.not_parse_curveFile`: not every evaluation is such.
-/

namespace MuonSpin

/-! ## Curves -/

namespace Curve

/-- The times and the values. -/
def numbers (curve : Curve) : List Float := curve.times ++ curve.values

variable {curve : Curve} {x : Float}

theorem fields?_toJson (curve : Curve) :
    curve.toJson.fields? ["run", "t", "value"] =
      some [some (.ofText curve.run), some (.ofList .ofFloat curve.times),
        some (.ofList .ofFloat curve.values)] := by
  have hnames : ["run", "t", "value"].Nodup := by decide
  exact Json.fields?_record hnames

theorem ofJson?_toJson (h : ∀ x ∈ curve.numbers, Json.ReadsBack x) :
    ofJson? curve.toJson = some curve := by
  obtain ⟨htimes, hvalues⟩ := List.forall_mem_append.1 h
  have ht := Json.asList?_ofList fun x hx => Json.asFloat?_ofFloat (htimes x hx)
  have hv := Json.asList?_ofList fun x hx => Json.asFloat?_ofFloat (hvalues x hx)
  simp [ofJson?, fields?_toJson, Json.required?, Json.asText?_ofText, ht, hv]

theorem ofJson?_toJson_eq_none (hx : x ∈ curve.numbers) (h : x.isFinite = false) :
    ofJson? curve.toJson = none := by
  have hnone := Json.asFloat?_of_not_isFinite h
  rcases List.mem_append.1 hx with htimes | hvalues
  · have ht := Json.asList?_ofList_eq_none htimes hnone
    simp [ofJson?, fields?_toJson, Json.required?, ht]
  · have hv := Json.asList?_ofList_eq_none hvalues hnone
    simp [ofJson?, fields?_toJson, Json.required?, hv]

theorem writable_toJson (curve : Curve) : curve.toJson.Writable := by
  refine Json.writable_record fun field hfield => ?_
  simp only [List.mem_cons, List.not_mem_nil, or_false] at hfield
  rcases hfield with rfl | rfl | rfl
  · exact Json.writable_ofText _
  · exact Json.writable_ofList fun x _ => Json.writable_ofFloat x
  · exact Json.writable_ofList fun x _ => Json.writable_ofFloat x

end Curve

/-! ## Files -/

namespace CurveFile

/-- The parameters, and the times and values of the curves. -/
def numbers (file : CurveFile) : List Float :=
  file.parameters ++ file.curves.flatMap Curve.numbers

variable {file : CurveFile} {x : Float}

theorem fields?_toJson (file : CurveFile) :
    file.toJson.fields? ["tool", "generated", "title", "theory", "parameters", "curves"] =
      some [some (.ofText file.tool), some (.ofText file.generated), some (.ofText file.title),
        some (.ofList .ofText file.theory), some (.ofList .ofFloat file.parameters),
        some (.ofList Curve.toJson file.curves)] := by
  have hnames : ["tool", "generated", "title", "theory", "parameters", "curves"].Nodup := by decide
  exact Json.fields?_record hnames

theorem ofJson?_toJson (h : ∀ x ∈ file.numbers, Json.ReadsBack x) :
    ofJson? file.toJson = some file := by
  obtain ⟨hparameters, hcurves⟩ := List.forall_mem_append.1 h
  have ht : (Json.ofList .ofText file.theory).asList? Json.asText? = some file.theory :=
    Json.asList?_ofList fun line _ => Json.asText?_ofText line
  have hp := Json.asList?_ofList fun x hx => Json.asFloat?_ofFloat (hparameters x hx)
  have hc := Json.asList?_ofList fun curve hcurve =>
    Curve.ofJson?_toJson fun x hx => hcurves x (List.mem_flatMap.2 ⟨curve, hcurve, hx⟩)
  simp [ofJson?, fields?_toJson, Json.required?, Json.asText?_ofText, ht, hp, hc]

theorem ofJson?_toJson_eq_none (hx : x ∈ file.numbers) (h : x.isFinite = false) :
    ofJson? file.toJson = none := by
  rcases List.mem_append.1 hx with hparameters | hcurves
  · have hp := Json.asList?_ofList_eq_none hparameters (Json.asFloat?_of_not_isFinite h)
    simp [ofJson?, fields?_toJson, Json.required?, hp]
  · obtain ⟨curve, hcurve, hx⟩ := List.mem_flatMap.1 hcurves
    have hc := Json.asList?_ofList_eq_none hcurve (Curve.ofJson?_toJson_eq_none hx h)
    simp [ofJson?, fields?_toJson, Json.required?, hc]

theorem writable_toJson (file : CurveFile) : file.toJson.Writable := by
  refine Json.writable_record fun field hfield => ?_
  simp only [List.mem_cons, List.not_mem_nil, or_false] at hfield
  rcases hfield with rfl | rfl | rfl | rfl | rfl | rfl
  · exact Json.writable_ofText _
  · exact Json.writable_ofText _
  · exact Json.writable_ofText _
  · exact Json.writable_ofList fun line _ => Json.writable_ofText line
  · exact Json.writable_ofList fun x _ => Json.writable_ofFloat x
  · exact Json.writable_ofList fun curve _ => curve.writable_toJson

theorem check_of_isEven (h : ∀ curve ∈ file.curves, curve.isEven = true) :
    file.check = .ok () := by
  have hnone : file.curves.find? (fun curve => !curve.isEven) = none := by
    refine List.find?_eq_none.2 fun curve hcurve => ?_
    simp [h curve hcurve]
  rw [check, hnone]

/-- **The text of a file** with as many values as times in every curve gives the file back, or is
refused if a number is not finite. -/
theorem parse_text (heven : ∀ curve ∈ file.curves, curve.isEven = true)
    (hnumbers : ∀ x ∈ file.numbers, x.isFinite = true → Json.ReadsBack x) :
    parse file.text =
      if file.numbers.all Float.isFinite then .ok file else .error (.invalidDocument .curve) := by
  have hparse : Json.parse? file.text = some file.toJson := Json.parse?_pretty file.writable_toJson
  rw [parse, hparse, Option.bind_some]
  split_ifs with hfinite
  · have hall := List.all_eq_true.1 hfinite
    rw [ofJson?_toJson fun x hx => hnumbers x hx (hall x hx)]
    simp only [check_of_isEven heven]
    rfl
  · rw [Bool.not_eq_true, List.all_eq_false] at hfinite
    obtain ⟨x, hx, hne⟩ := hfinite
    rw [ofJson?_toJson_eq_none hx (by simpa using hne)]

end CurveFile

/-! ## Evaluations -/

theorem Theory.evaluateAll_cons (theory : Theory) (params funcs : List UInt64)
    (parts : GlobalParts) (t : Float) (times : List Float) :
    theory.evaluateAll params funcs parts (t :: times) =
      let (v, theory, parts) := theory.evaluate ⟨t, params, funcs⟩ parts
      let (values, theory, parts) := theory.evaluateAll params funcs parts times
      (v :: values, theory, parts) := by
  simp only [evaluateAll, List.mapM_cons]
  rfl

theorem Theory.length_evaluateAll (theory : Theory) (params funcs : List UInt64)
    (parts : GlobalParts) (times : List Float) :
    (theory.evaluateAll params funcs parts times).1.length = times.length := by
  induction times generalizing theory parts with
  | nil => rfl
  | cons t times ih => simp only [evaluateAll_cons, List.length_cons, ih]

theorem eq_map_some_of_mapM_id {α : Type} {xs : List (Option α)} {ys : List α}
    (h : xs.mapM id = some ys) : xs = ys.map some := by
  induction xs generalizing ys with
  | nil =>
    cases h
    rfl
  | cons x xs ih =>
    rw [List.mapM_cons] at h
    obtain ⟨y, hy, h⟩ := Option.bind_eq_some_iff.1 h
    obtain ⟨rest, hrest, h⟩ := Option.bind_eq_some_iff.1 h
    cases h
    rw [List.map_cons, ← ih hrest, ← hy, id]

theorem length_of_mapM_id {α : Type} {xs : List (Option α)} {ys : List α}
    (h : xs.mapM id = some ys) : ys.length = xs.length := by
  rw [eq_map_some_of_mapM_id h, List.length_map]

namespace Session

variable {session : Session} {model : Model} {outputs : List RunOutput}

theorem isEven_of_evaluateTheory {run : Run} {theory : Theory} {times : List Float}
    {output : RunOutput}
    (h : (session.evaluateTheory model run theory times).1 = .ok output) :
    output.curve.isEven = true := by
  have hlength := theory.length_evaluateAll model.parameterBits model.functionBits session.parts times
  unfold evaluateTheory at h
  simp only at h
  split at h
  · cases h
  · rename_i values hvalues
    cases h
    rw [Curve.isEven, beq_iff_eq, length_of_mapM_id hvalues, hlength]

theorem isEven_of_evaluateRun {times : List Float} {run : Run} {output : RunOutput}
    (h : (session.evaluateRun model times run).1 = .ok output) :
    output.curve.isEven = true := by
  unfold evaluateRun at h
  split at h
  · cases h
  · exact isEven_of_evaluateTheory h

theorem isEven_of_evaluateRuns {times : List Float} {runs : List Run}
    (h : (session.evaluateRuns model times runs).1 = .ok outputs) :
    ∀ output ∈ outputs, output.curve.isEven = true := by
  induction runs generalizing session outputs with
  | nil =>
    cases h
    simp
  | cons run runs ih =>
    unfold evaluateRuns at h
    rcases hrun : session.evaluateRun model times run with ⟨e | output, session₁⟩
    · simp [hrun] at h
    · simp only [hrun] at h
      rcases hruns : session₁.evaluateRuns model times runs with ⟨e | others, session₂⟩
      · simp [hruns] at h
      · simp only [hruns] at h
        cases h
        have hhead : output.curve.isEven = true := isEven_of_evaluateRun (congrArg Prod.fst hrun)
        exact List.forall_mem_cons.2 ⟨hhead, ih (congrArg Prod.fst hruns)⟩

theorem isEven_of_evaluateModel (h : (session.evaluateModel model).1 = .ok outputs) :
    ∀ output ∈ outputs, output.curve.isEven = true := by
  unfold evaluateModel at h
  split at h
  · cases h
  · exact isEven_of_evaluateRuns h

theorem isEven_curveFile (h : (session.evaluateModel model).1 = .ok outputs) (now : String) :
    ∀ curve ∈ (model.curveFile now (outputs.map (·.curve))).curves, curve.isEven = true := by
  intro curve hcurve
  obtain ⟨output, houtput, rfl⟩ := List.mem_map.1 hcurve
  exact isEven_of_evaluateModel h output houtput

/-- **A saved evaluation reads back if and only if all its numbers are finite.** Take the result of
evaluating a model, and suppose that every finite number among its parameters, times and values is given
back by its numeral. The file that is written for it is read as what it was made of if all these numbers
are finite; otherwise some of them are written as `null`, and the file is refused. -/
theorem parse_curveFile (h : (session.evaluateModel model).1 = .ok outputs) (now : String)
    (hnumbers : ∀ x ∈ (model.curveFile now (outputs.map (·.curve))).numbers,
      x.isFinite = true → Json.ReadsBack x) :
    (∀ csv path plotted size,
      Action.write .curve path (model.curveFile now (outputs.map (·.curve))).text ∈
        Command.evalActions csv (some path) plotted size now model outputs) ∧
    CurveFile.parse (model.curveFile now (outputs.map (·.curve))).text =
      if (model.curveFile now (outputs.map (·.curve))).numbers.all Float.isFinite then
        .ok (model.curveFile now (outputs.map (·.curve)))
      else .error (.invalidDocument .curve) := by
  refine ⟨fun csv path plotted size => ?_, CurveFile.parse_text (isEven_curveFile h now) hnumbers⟩
  simp [Command.evalActions]

/-- A constant asymmetry, at two times. -/
theorem parse_curveFile_constant :
    ∃ model outputs, (standard.evaluateModel model).1 = .ok outputs ∧
      (model.curveFile "" (outputs.map (·.curve))).numbers = [0.25, 0.0, 1.0, 0.25, 0.25] ∧
      CurveFile.parse (model.curveFile "" (outputs.map (·.curve))).text =
        .ok (model.curveFile "" (outputs.map (·.curve))) := by
  let model : Model := ⟨"test", ["asymmetry 1"], [0.25], [], [], ⟨0.0, 1.0, 1.0⟩⟩
  have hok : (standard.evaluateModel model).1.isOk = true := by decide +kernel
  obtain ⟨outputs, houtputs⟩ := exists_of_isOk hok
  have hvalue : (standard.evaluateModel model).1.toOption.map
      (fun outputs => (model.curveFile "" (outputs.map (·.curve))).numbers) =
        some [0.25, 0.0, 1.0, 0.25, 0.25] := by decide +kernel
  have hnumbers : (model.curveFile "" (outputs.map (·.curve))).numbers =
      [0.25, 0.0, 1.0, 0.25, 0.25] := by
    rw [houtputs] at hvalue
    exact Option.some.inj hvalue
  have hback : ∀ x ∈ [0.25, 0.0, 1.0, 0.25, (0.25 : Float)], x.isFinite = true →
      Json.ReadsBack x := by decide +kernel
  have hfinite : [0.25, 0.0, 1.0, 0.25, (0.25 : Float)].all Float.isFinite = true := by
    decide +kernel
  have hparse := (parse_curveFile houtputs "" (by rw [hnumbers]; exact hback)).2
  rw [hnumbers, if_pos hfinite] at hparse
  exact ⟨model, outputs, houtputs, hnumbers, hparse⟩

/-- The product of two large parameters is no finite number: the file of the evaluation is refused,
although all its finite numbers are given back. -/
theorem not_parse_curveFile :
    ∃ model outputs, (standard.evaluateModel model).1 = .ok outputs ∧
      (∀ x ∈ (model.curveFile "" (outputs.map (·.curve))).numbers,
        x.isFinite = true → Json.ReadsBack x) ∧
      CurveFile.parse (model.curveFile "" (outputs.map (·.curve))).text =
        .error (.invalidDocument .curve) := by
  let model : Model :=
    ⟨"test", ["asymmetry 1", "asymmetry 1"], [1e200], [], [], ⟨0.0, 1.0, 1.0⟩⟩
  have hok : (standard.evaluateModel model).1.isOk = true := by decide +kernel
  obtain ⟨outputs, houtputs⟩ := exists_of_isOk hok
  have hvalue : (standard.evaluateModel model).1.toOption.map
      (fun outputs => (model.curveFile "" (outputs.map (·.curve))).numbers) =
        some [1e200, 0.0, 1.0, 1.0 / 0.0, 1.0 / 0.0] := by decide +kernel
  have hnumbers : (model.curveFile "" (outputs.map (·.curve))).numbers =
      [1e200, 0.0, 1.0, 1.0 / 0.0, 1.0 / 0.0] := by
    rw [houtputs] at hvalue
    exact Option.some.inj hvalue
  have hback : ∀ x ∈ [1e200, 0.0, 1.0, 1.0 / 0.0, (1.0 / 0.0 : Float)], x.isFinite = true →
      Json.ReadsBack x := by decide +kernel
  have hfinite : ¬ [1e200, 0.0, 1.0, 1.0 / 0.0, (1.0 / 0.0 : Float)].all Float.isFinite = true := by
    decide +kernel
  rw [← hnumbers] at hback hfinite
  have hparse := CurveFile.parse_text (isEven_curveFile houtputs "") hback
  rw [if_neg hfinite] at hparse
  exact ⟨model, outputs, houtputs, hback, hparse⟩

end Session

end MuonSpin
