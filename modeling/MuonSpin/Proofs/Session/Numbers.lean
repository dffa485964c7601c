import MuonSpin.Proofs.Block.FirstFault
import MuonSpin.Proofs.Layout.Meaning
import MuonSpin.Proofs.Session.History
import MuonSpin.Proofs.Session.Indices

/-!
# The numbers of user functions

The lines of a block that ask for a user function are numbered from zero on, and the number is the index
of the part that the function shares.

* `userLines`: how many such lines there are; `Reading.LooksUp`: a line is looked up under a number;
* `Reading.Numbered`, `Reading.Numbered.step`, `Reading.Numbered.steps`: the instances of a reading hold
  the numbers from zero on;
* `Session.Moment`: a moment in a history of builds; `Session.Filled`: the look-up that made a part;
* **`Session.sharesByNumber`**: in any history the instances of one number, and no others, share a part;
  it was made by the first look-up of this number that made one, and stays.
-/

namespace MuonSpin

/-! ## Lines that ask for a user function -/

/-- The line has the words for a module and a type behind the name of a user function. -/
def TheoryLine.asksUser (line : TheoryLine) : Bool := (userRequest? line.tokens).isSome

/-- The number of lines that ask for a user function. -/
def userLines (lines : List TheoryLine) : Nat := lines.countP TheoryLine.asksUser

section Lines

variable {ctx : BuildContext} {line : TheoryLine} {lines : List TheoryLine} {module type : String}
  {params : List String}

theorem search_of_userRequest {words : List String}
    (h : userRequest? words = some (module, type, params)) :
    Kernel.search (words.headD "") = some .user := by
  unfold userRequest? at h
  split at h
  · rename_i hk hw
    exact hk
  · cases h

theorem userLines_concat_of_request (h : userRequest? line.tokens = some (module, type, params))
    (lines : List TheoryLine) : userLines (lines ++ [line]) = userLines lines + 1 := by
  simp [userLines, List.countP_append, TheoryLine.asksUser, h]

theorem userLines_concat_of_no_request (h : userRequest? line.tokens = none)
    (lines : List TheoryLine) : userLines (lines ++ [line]) = userLines lines := by
  simp [userLines, List.countP_append, TheoryLine.asksUser, h]

theorem userLines_lt (h : userRequest? line.tokens = some (module, type, params))
    (before after : List TheoryLine) :
    userLines before < userLines (before ++ line :: after) := by
  have hline : line.asksUser = true := by rw [TheoryLine.asksUser, h, Option.isSome_some]
  rw [userLines, userLines, List.countP_append, List.countP_cons_of_pos hline]
  omega

theorem Session.count_readFactor_of_no_request {words : List String}
    (h : userRequest? words = none) (session : Session) (count line : Nat) :
    (session.readFactor ctx count line words).2.2 = count := by
  unfold readFactor
  cases hk : Kernel.search (words.headD "") with
  | none => simp only [hk]
  | some kernel =>
    cases kernel with
    | closed form | static family | dynamic family =>
      simp only [hk, readEngine]
      split_ifs
      · simp only
        cases words.tail.mapM ctx.readToken <;> rfl
      · rfl
    | user =>
      rcases hw : words.tail with _ | ⟨module, _ | ⟨type, params⟩⟩
      · simp only [hk, readEngine]
      · simp only [hk, readEngine]
      · simp only [userRequest?, hk, hw] at h
        cases h

end Lines

/-! ## Instances -/

/-- The instance behind an engine. -/
def Engine.instance? : Engine → Option UserInstance
  | user f => some f
  | _ => none

/-- The user functions among the factors. -/
def userInstances (factors : List Factor) : List UserInstance :=
  factors.filterMap fun factor => factor.engine.instance?

theorem userInstances_concat (factors : List Factor) (factor : Factor) :
    userInstances (factors ++ [factor]) =
      userInstances factors ++ factor.engine.instance?.toList := by
  rw [userInstances, List.filterMap_append, userInstances]
  cases h : factor.engine.instance? <;> simp [h]

theorem Engine.instance?_eq_some_iff {engine : Engine} {f : UserInstance} :
    engine.instance? = some f ↔ engine = .user f := by
  cases engine <;> simp [instance?]

theorem UserInstance.Holds.mono {f : UserInstance} {number : Nat} {parts parts' : GlobalParts}
    (h : f.Holds number parts) (hretains : parts.Retains parts') : f.Holds number parts' := by
  refine ⟨h.handle, fun hneeds => ?_⟩
  obtain ⟨part, hpart⟩ := Option.isSome_iff_exists.1 (h.part hneeds)
  rw [hretains number part hpart]
  rfl

theorem nodup_handles {instances : List UserInstance} {parts : GlobalParts} (n : Nat)
    (h : ∀ (k : Nat) (f : UserInstance), instances[k]? = some f → f.Holds (n + k) parts) :
    (instances.filterMap (·.handle)).Nodup ∧ ∀ i ∈ instances.filterMap (·.handle), n ≤ i := by
  induction instances generalizing n with
  | nil => simp
  | cons f instances ih =>
    have hf : f.Holds n parts := h 0 f rfl
    have hrest : ∀ (k : Nat) (g : UserInstance), instances[k]? = some g →
        g.Holds (n + 1 + k) parts := by
      intro k g hg
      have hk := h (k + 1) g hg
      rwa [Nat.add_comm k 1, ← Nat.add_assoc] at hk
    obtain ⟨hnodup, hle⟩ := ih (n + 1) hrest
    have hlater : ∀ i ∈ instances.filterMap (·.handle), n < i := hle
    rcases hhandle : f.handle with _ | i
    · rw [List.filterMap_cons_none hhandle]
      exact ⟨hnodup, fun i hi => (hlater i hi).le⟩
    · have hi : i = n := by
        have hneeds := hf.handle
        rw [hhandle] at hneeds
        split_ifs at hneeds
        exact Option.some.inj hneeds
      subst hi
      rw [List.filterMap_cons_some hhandle]
      refine ⟨List.nodup_cons.2 ⟨fun hmem => (hlater i hmem).ne rfl, hnodup⟩, fun j hj => ?_⟩
      rcases List.mem_cons.1 hj with rfl | hj
      · exact le_rfl
      · exact (hlater j hj).le

/-! ## Reading a block -/

namespace Reading

variable {ctx : BuildContext} {reading reading' : Reading} {line : TheoryLine}
  {before lines : List TheoryLine} {module type : String} {params : List String}

/-- The user functions that were read. -/
def instances (reading : Reading) : List UserInstance := userInstances reading.allTerms.flatten

/-- The line is looked up under a number. If there is an instance it holds this number, and it is that
of the factor if the line becomes one. -/
structure LooksUp (ctx : BuildContext) (reading : Reading) (line : TheoryLine)
    (module type : String) (number : Nat) : Prop where
  session : (reading.step ctx line).2.session =
    (reading.session.bindFunction module type number).2
  next : (reading.step ctx line).2.userCount = number + 1
  fault : ∀ e, (reading.session.bindFunction module type number).1 = .error e →
    (reading.step ctx line).1 = some ⟨line.number, e⟩
  holds : ∀ f, (reading.session.bindFunction module type number).1 = .ok f →
    f.Holds number (reading.step ctx line).2.session.parts
  factor : (reading.step ctx line).1 = none →
    ∃ f, (reading.session.bindFunction module type number).1 = .ok f ∧
      (reading.step ctx line).2.instances = reading.instances ++ [f]

theorem instances_addFactor (reading : Reading) (session : Session) (count : Nat)
    (factor : Factor) : (reading.addFactor session count factor).instances =
      reading.instances ++ factor.engine.instance?.toList := by
  rw [instances, instances, ← userInstances_concat]
  simp [addFactor, allTerms]

theorem instances_nextTerm (reading : Reading) (line : TheoryLine) :
    (reading.nextTerm line).instances = reading.instances := by
  simp [instances, nextTerm, allTerms]

theorem step_of_request (hr : userRequest? line.tokens = some (module, type, params)) :
    reading.step ctx line =
      match (reading.session.bindFunction module type reading.userCount).1.bind fun f =>
        ctx.factorOf line.number params (.user f) with
      | .error e => (some ⟨line.number, e⟩, { reading with
          session := (reading.session.bindFunction module type reading.userCount).2
          userCount := reading.userCount + 1 })
      | .ok factor => (none, reading.addFactor
          (reading.session.bindFunction module type reading.userCount).2
          (reading.userCount + 1) factor) := by
  have hk := search_of_userRequest hr
  have hread : reading.session.readFactor ctx reading.userCount line.number line.tokens = _ :=
    Session.readFactor_of_request hr reading.session
  unfold step
  simp only [TheoryLine.isEmpty_of_search hk, TheoryLine.isSeparator_of_search hk, hread]
  cases (reading.session.bindFunction module type reading.userCount).1.bind fun f =>
    ctx.factorOf line.number params (.user f) <;> rfl

/-- **A line that asks for a user function** is looked up under the number of those read before. -/
theorem looksUp (h : reading.session.BindsIndices)
    (hr : userRequest? line.tokens = some (module, type, params)) :
    reading.LooksUp ctx line module type reading.userCount := by
  have hkeeps := h.bindFunction module type reading.userCount
  have hsession : (reading.step ctx line).2.session =
      (reading.session.bindFunction module type reading.userCount).2 := by
    rw [step_of_request hr]
    split <;> rfl
  refine ⟨hsession, ?_, ?_, by rw [hsession]; exact hkeeps.holds, ?_⟩
  · rw [step_of_request hr]
    split <;> rfl
  · intro e he
    rw [step_of_request hr, he]
    rfl
  · rw [step_of_request hr]
    rcases (reading.session.bindFunction module type reading.userCount).1 with e | f
    · intro hnone
      cases hnone
    · rcases hf : ctx.factorOf line.number params (.user f) with e | factor
      · simp [Except.bind, hf]
      · have hengine : factor.engine = .user f := by
          unfold BuildContext.factorOf at hf
          split at hf <;> cases hf
          rfl
        simp only [Except.bind, hf, instances_addFactor, hengine]
        exact fun _ => ⟨f, rfl, rfl⟩

theorem step_of_no_request (hr : userRequest? line.tokens = none) :
    (reading.step ctx line).2.session = reading.session ∧
      (reading.step ctx line).2.userCount = reading.userCount ∧
      ((reading.step ctx line).1 = none →
        (reading.step ctx line).2.instances = reading.instances) := by
  have hread : reading.session.readFactor ctx reading.userCount line.number line.tokens = _ :=
    Session.readFactor_of_no_request hr reading.session reading.session
  rw [Session.count_readFactor_of_no_request hr] at hread
  unfold step
  split_ifs
  · exact ⟨rfl, rfl, fun _ => rfl⟩
  · exact ⟨rfl, rfl, fun _ => rfl⟩
  · exact ⟨rfl, rfl, fun _ => instances_nextTerm reading line⟩
  · rcases hfactor : (reading.session.readFactor ctx reading.userCount line.number
      line.tokens).1 with e | factor <;> rw [hfactor] at hread <;> rw [hread]
    · exact ⟨rfl, rfl, fun hnone => by cases hnone⟩
    · refine ⟨rfl, rfl, fun _ => ?_⟩
      have hnone : factor.engine.instance? = none := by
        rcases hf : factor.engine.instance? with _ | f
        · rfl
        · obtain ⟨module, type, params, hsome, -⟩ :=
            Session.request_of_readFactor hread (Engine.instance?_eq_some_iff.1 hf)
          rw [hr] at hsome
          cases hsome
      have hadd := instances_addFactor reading reading.session reading.userCount factor
      rwa [hnone, Option.toList_none, List.append_nil] at hadd

/-- The instances that were read hold the numbers from zero on, one for each line that asks for a user
function. -/
structure Numbered (before : List TheoryLine) (reading : Reading) : Prop where
  bindsIndices : reading.session.BindsIndices
  count : reading.userCount = userLines before
  length : reading.instances.length = userLines before
  holds : ∀ (k : Nat) (f : UserInstance), reading.instances[k]? = some f →
    f.Holds k reading.session.parts

theorem numbered_start {session : Session} (h : session.BindsIndices) :
    (start session).Numbered [] :=
  ⟨h, rfl, rfl, fun k f hf => by cases hf⟩

/-- **A line** without a fault keeps the numbers. -/
theorem Numbered.step (h : reading.Numbered before)
    (hstep : reading.step ctx line = (none, reading')) :
    reading'.Numbered (before ++ [line]) := by
  rcases hr : userRequest? line.tokens with _ | ⟨module, type, params⟩
  · obtain ⟨hsession, hcount, hinstances⟩ :
        (reading.step ctx line).2.session = reading.session ∧ _ ∧ _ := step_of_no_request hr
    rw [hstep] at hsession hcount hinstances
    refine ⟨by rw [hsession]; exact h.bindsIndices, ?_, ?_, ?_⟩
    · rw [hcount, h.count, userLines_concat_of_no_request hr]
    · rw [hinstances rfl, h.length, userLines_concat_of_no_request hr]
    · rw [hinstances rfl, hsession]
      exact h.holds
  · have hlooks : reading.LooksUp ctx line module type reading.userCount :=
      looksUp h.bindsIndices hr
    have hkeeps := h.bindsIndices.bindFunction module type reading.userCount
    obtain ⟨f, hf, hinstances⟩ := hlooks.factor (by rw [hstep])
    have hsession := hlooks.session
    have hnext := hlooks.next
    have hholds := hlooks.holds f hf
    rw [hstep] at hinstances hsession hnext hholds
    have hretains : reading.session.parts.Retains reading'.session.parts := by
      rw [hsession]
      exact hkeeps.calls.retains
    refine ⟨by rw [hsession]; exact hkeeps.bindsIndices, ?_, ?_, fun k g hg => ?_⟩
    · rw [hnext, h.count, userLines_concat_of_request hr]
    · rw [hinstances, List.length_append, h.length, userLines_concat_of_request hr]
      rfl
    · rw [hinstances] at hg
      -- the instances of the earlier lines keep their parts, and the new one is the last
      rcases Nat.lt_or_ge k reading.instances.length with hk | hk
      · rw [List.getElem?_append_left hk] at hg
        exact (h.holds k g hg).mono hretains
      · rw [List.getElem?_append_right hk, List.getElem?_singleton] at hg
        split_ifs at hg with hzero
        cases hg
        have hnumber : k = reading.userCount := by
          rw [h.count, ← h.length]
          omega
        rw [hnumber]
        exact hholds

theorem Numbered.steps (h : reading.Numbered before)
    (hsteps : reading.steps ctx lines = (none, reading')) :
    reading'.Numbered (before ++ lines) := by
  induction lines generalizing reading before with
  | nil =>
    cases hsteps
    rwa [List.append_nil]
  | cons line lines ih =>
    rcases hstep : reading.step ctx line with ⟨_ | e, reading₁⟩
    · rw [steps_cons_of_step hstep] at hsteps
      have hnumbered := ih (h.step hstep) hsteps
      rwa [List.append_assoc] at hnumbered
    · rw [steps_cons_of_fault hstep] at hsteps
      cases hsteps

theorem Numbered.nodup (h : reading.Numbered before) :
    (reading.instances.filterMap (·.handle)).Nodup := by
  have hholds : ∀ (k : Nat) (f : UserInstance), reading.instances[k]? = some f →
      f.Holds (0 + k) reading.session.parts := by
    intro k f hf
    rw [Nat.zero_add]
    exact h.holds k f hf
  exact (nodup_handles 0 hholds).1

/-! ## Where parts come from -/

/-- The look-up for a line makes a part at an index that was free. -/
def Fills (reading : Reading) (line : TheoryLine) (i : Nat) (part : Part) : Prop :=
  reading.session.parts.get? i = none ∧
    ∃ module type params, userRequest? line.tokens = some (module, type, params) ∧
      (reading.session.bindFunction module type i).2.parts.get? i = some part

variable {i : Nat} {part : Part}

theorem Numbered.origin_step (h : reading.Numbered before)
    (hpart : (reading.step ctx line).2.session.parts.get? i = some part) :
    reading.session.parts.get? i = some part ∨
      userLines before = i ∧ reading.Fills line i part := by
  rcases hr : userRequest? line.tokens with _ | ⟨module, type, params⟩
  · rw [(step_of_no_request hr).1] at hpart
    exact .inl hpart
  · have hlooks : reading.LooksUp ctx line module type reading.userCount :=
      looksUp h.bindsIndices hr
    have hkeeps := h.bindsIndices.bindFunction module type reading.userCount
    rw [hlooks.session] at hpart
    by_cases hi : i = reading.userCount
    · rcases (reading.session.parts.get? i).eq_none_or_eq_some with hfree | ⟨old, hold⟩
      · have hnumber : userLines before = i := by rw [hi, h.count]
        rw [← hi] at hpart
        exact .inr ⟨hnumber, hfree, module, type, params, hr, hpart⟩
      · rw [hkeeps.calls.retains i old hold] at hpart
        rw [hold]
        exact .inl hpart
    · rw [hkeeps.calls.get?_of_ne hi] at hpart
      exact .inl hpart

/-- **A part that lines leave** was there, or one of them makes it under its number. -/
theorem Numbered.origin_steps (h : reading.Numbered before)
    (hpart : (reading.steps ctx lines).2.session.parts.get? i = some part) :
    reading.session.parts.get? i = some part ∨
    ∃ passed line after reading₁, lines = passed ++ line :: after ∧
      reading.steps ctx passed = (none, reading₁) ∧ userLines (before ++ passed) = i ∧
      reading₁.Fills line i part := by
  induction lines generalizing reading before with
  | nil => exact .inl hpart
  | cons line lines ih =>
    have hline : (reading.step ctx line).2.session.parts.get? i = some part →
        reading.session.parts.get? i = some part ∨
        ∃ passed line' after reading₁, line :: lines = passed ++ line' :: after ∧
          reading.steps ctx passed = (none, reading₁) ∧ userLines (before ++ passed) = i ∧
          reading₁.Fills line' i part := by
      intro hstep
      rcases h.origin_step hstep with hold | ⟨hnumber, hfills⟩
      · exact .inl hold
      · exact .inr ⟨[], line, lines, reading, rfl, rfl, by rwa [List.append_nil], hfills⟩
    rcases hstep : reading.step ctx line with ⟨_ | e, reading₁⟩ <;> rw [hstep] at hline
    · rw [steps_cons_of_step hstep] at hpart
      rcases ih (h.step hstep) hpart with hold | ⟨passed, line', after, reading₂, rfl, hpassed,
        hnumber, hfills⟩
      · exact hline hold
      · refine .inr ⟨line :: passed, line', after, reading₂, rfl, ?_, ?_, hfills⟩
        · rw [steps_cons_of_step hstep, hpassed]
        · rwa [List.append_assoc] at hnumber
    · rw [steps_cons_of_fault hstep] at hpart
      exact hline hpart

end Reading

/-! ## Histories -/

namespace Session

/-- A moment in a history of builds: some blocks are built, and some lines of the next one are read
without a fault. -/
def Moment (session : Session) (history : List (BuildContext × List TheoryLine))
    (ctx : BuildContext) (before after : List TheoryLine) (reading : Reading) : Prop :=
  ∃ earlier later, history = earlier ++ (ctx, before ++ after) :: later ∧
    (Reading.start (session.afterBuilds earlier)).steps ctx before = (none, reading)

/-- Some line of the history was looked up under the number `i`, at a moment when this index was free,
and the part was there afterwards. -/
def Filled (session : Session) (history : List (BuildContext × List TheoryLine)) (i : Nat)
    (part : Part) : Prop :=
  ∃ ctx before line after reading, session.Moment history ctx before (line :: after) reading ∧
    userLines before = i ∧ reading.Fills line i part

variable {session : Session} {history : List (BuildContext × List TheoryLine)}
  {ctx : BuildContext} {lines before after : List TheoryLine} {reading : Reading} {i : Nat}
  {part : Part}

theorem session_build (session : Session) (ctx : BuildContext) (lines : List TheoryLine) :
    (session.build ctx lines).2 = ((Reading.start session).steps ctx lines).2.session := by
  unfold build
  rcases (Reading.start session).steps ctx lines with ⟨_ | e, reading⟩
  · simp only
    split <;> rfl
  · rfl

theorem kept_bindsIndices : Kept BindsIndices :=
  fun _ module type index h => (h.bindFunction module type index).bindsIndices

theorem kept_part (i : Nat) (part : Part) :
    Kept fun session => session.BindsIndices ∧ session.parts.get? i = some part := by
  rintro session module type index ⟨h, hpart⟩
  have hkeeps := h.bindFunction module type index
  exact ⟨hkeeps.bindsIndices, hkeeps.calls.retains i part hpart⟩

theorem Moment.numbered (h : session.Moment history ctx before after reading)
    (hs : session.BindsIndices) : reading.Numbered before := by
  obtain ⟨earlier, later, -, hsteps⟩ := h
  have hstart := Reading.numbered_start (kept_bindsIndices.afterBuilds hs earlier)
  exact hstart.steps hsteps

/-- **No part is replaced or removed** from a moment of the history on. -/
theorem Moment.retains (h : session.Moment history ctx before after reading)
    (hs : session.BindsIndices) :
    reading.session.parts.Retains (session.afterBuilds history).parts := by
  intro i part hpart
  have hbinds := (h.numbered hs).bindsIndices
  obtain ⟨earlier, later, rfl, hsteps⟩ := h
  have hblock : ((session.afterBuilds earlier).build ctx (before ++ after)).2 =
      (reading.steps ctx after).2.session := by
    rw [session_build, Reading.steps_append_of_none hsteps]
  have hafter : session.afterBuilds (earlier ++ (ctx, before ++ after) :: later) =
      (reading.steps ctx after).2.session.afterBuilds later := by
    rw [← hblock, afterBuilds, List.foldl_append]
    rfl
  rw [hafter]
  have hkept := kept_part i part
  exact (hkept.afterBuilds (hkept.steps ⟨hbinds, hpart⟩ ctx after) later).2

theorem Moment.cons {block : BuildContext × List TheoryLine}
    (h : (session.build block.1 block.2).2.Moment history ctx before after reading) :
    session.Moment (block :: history) ctx before after reading := by
  obtain ⟨earlier, later, rfl, hsteps⟩ := h
  exact ⟨block :: earlier, later, rfl, hsteps⟩

/-- **A part that a history leaves** was there, or a line of the history made it. -/
theorem origin_afterBuilds (hs : session.BindsIndices)
    (hpart : (session.afterBuilds history).parts.get? i = some part) :
    session.parts.get? i = some part ∨ session.Filled history i part := by
  induction history generalizing session with
  | nil => exact .inl hpart
  | cons block history ih =>
    rcases ih (kept_bindsIndices.build hs block.1 block.2) hpart with
      hblock | ⟨ctx, before, line, after, reading, hmoment, hfilled⟩
    · rw [session_build] at hblock
      rcases (Reading.numbered_start hs).origin_steps hblock with
        hold | ⟨passed, line, after, reading, hlines, hsteps, hnumber, hfills⟩
      · exact .inl hold
      · have hmoment : session.Moment (block :: history) block.1 passed (line :: after) reading :=
          ⟨[], history, by rw [← hlines]; rfl, hsteps⟩
        exact .inr ⟨_, _, _, _, _, hmoment, hnumber, hfills⟩
    · exact .inr ⟨ctx, before, line, after, reading, hmoment.cons, hfilled⟩

theorem Filled.lt (h : session.Filled history i part) :
    ∃ block ∈ history, i < userLines block.2 := by
  obtain ⟨ctx, before, line, after, reading, ⟨earlier, later, rfl, -⟩, rfl, -, module, type,
    params, hr, -⟩ := h
  exact ⟨(ctx, before ++ line :: after), by simp, userLines_lt hr before after⟩

theorem exists_moment_of_build {earlier later : List (BuildContext × List TheoryLine)}
    {theory : Theory}
    (h : ((session.afterBuilds earlier).build ctx lines).1 = .ok theory) :
    ∃ reading, session.Moment (earlier ++ (ctx, lines) :: later) ctx lines [] reading ∧
      userInstances theory.terms.flatten = reading.instances := by
  obtain ⟨reading, hsteps, hterm, rfl, -⟩ := build_eq_ok_iff.1 (Prod.ext h rfl)
  refine ⟨reading, ⟨earlier, later, by rw [List.append_nil], hsteps⟩, ?_⟩
  rw [Theory.terms_ofTerms (Reading.allTerms_ne_nil hsteps hterm), Reading.instances]

/-- How user functions share parts over a history of builds, whether or not the blocks build. -/
structure SharesByNumber (session : Session)
    (history : List (BuildContext × List TheoryLine)) : Prop where
  /-- A line that asks for a user function is looked up under the number of such lines in front of it
  in its block. -/
  numbered : ∀ ctx before line after reading module type params,
    session.Moment history ctx before (line :: after) reading →
    userRequest? line.tokens = some (module, type, params) →
    reading.LooksUp ctx line module type (userLines before)
  /-- Every line that asked has become an instance; it holds the number of the line, now and at the end
  of the history. -/
  holds : ∀ ctx before after reading, session.Moment history ctx before after reading →
    reading.instances.length = userLines before ∧
    ∀ (k : Nat) (f : UserInstance), reading.instances[k]? = some f →
      f.Holds k reading.session.parts ∧ f.Holds k (session.afterBuilds history).parts
  /-- Two instances of one block have different indices. -/
  apart : ∀ ctx before after reading, session.Moment history ctx before after reading →
    (reading.instances.filterMap (·.handle)).Nodup
  /-- A theory has the instances that were read. -/
  theory : ∀ earlier ctx lines later theory, history = earlier ++ (ctx, lines) :: later →
    ((session.afterBuilds earlier).build ctx lines).1 = .ok theory →
    ∃ reading, session.Moment history ctx lines [] reading ∧
      userInstances theory.terms.flatten = reading.instances
  /-- No part is replaced or removed, from any moment on. -/
  retains : ∀ ctx before after reading, session.Moment history ctx before after reading →
    reading.session.parts.Retains (session.afterBuilds history).parts
  /-- Instances of one number that need a part have the same one, in whatever blocks they are. -/
  shared : ∀ ctx before after reading ctx' before' after' reading',
    session.Moment history ctx before after reading →
    session.Moment history ctx' before' after' reading' →
    ∀ (k : Nat) (f f' : UserInstance), reading.instances[k]? = some f →
      reading'.instances[k]? = some f' → f.function.needsPart = true →
      f'.function.needsPart = true →
      f.handle = some k ∧ f'.handle = some k ∧ ∃ part,
        reading.session.parts.get? k = some part ∧ reading'.session.parts.get? k = some part
  /-- A part was there before the history, or the first look-up under its index that left a part made
  it: the index was free until then. -/
  origin : ∀ i part, (session.afterBuilds history).parts.get? i = some part →
    session.parts.get? i = some part ∨ session.Filled history i part
  /-- Parts that the history made are below the largest number of user functions of its blocks. -/
  below : ∀ i, ((session.afterBuilds history).parts.get? i).isSome →
    (session.parts.get? i).isSome ∨ ∃ block ∈ history, i < userLines block.2

/-- **Numbers and shared parts.** Take a session whose user functions bind exactly the index that they
are handed, and any blocks that it built or failed to build. A line that asks for a user function is
looked up under the number of such lines in front of it in its block, whatever stands in between. So the
instances of one block never share a part, those of one number share the part that the first successful
look-up of this number made, and no part is ever replaced or removed. -/
theorem sharesByNumber (h : session.BindsIndices)
    (history : List (BuildContext × List TheoryLine)) : session.SharesByNumber history where
  numbered := by
    intro ctx before line after reading module type params hmoment hr
    have hnumbered := hmoment.numbered h
    rw [← hnumbered.count]
    exact Reading.looksUp hnumbered.bindsIndices hr
  holds := by
    intro ctx before after reading hmoment
    have hnumbered := hmoment.numbered h
    refine ⟨hnumbered.length, fun k f hf => ?_⟩
    have hholds := hnumbered.holds k f hf
    exact ⟨hholds, hholds.mono (hmoment.retains h)⟩
  apart := fun ctx before after reading hmoment => (hmoment.numbered h).nodup
  theory := by
    rintro earlier ctx lines later theory rfl htheory
    exact exists_moment_of_build htheory
  retains := fun ctx before after reading hmoment => hmoment.retains h
  shared := by
    intro ctx before after reading ctx' before' after' reading' hmoment hmoment' k f f' hf hf'
      hneeds hneeds'
    have hholds := (hmoment.numbered h).holds k f hf
    have hholds' := (hmoment'.numbered h).holds k f' hf'
    obtain ⟨part, hpart⟩ := Option.isSome_iff_exists.1 (hholds.part hneeds)
    obtain ⟨part', hpart'⟩ := Option.isSome_iff_exists.1 (hholds'.part hneeds')
    -- Both parts are the one at the end of the history.
    have hend := hmoment.retains h k part hpart
    rw [hmoment'.retains h k part' hpart'] at hend
    cases hend
    exact ⟨by rw [hholds.handle, if_pos hneeds], by rw [hholds'.handle, if_pos hneeds'], part,
      hpart, hpart'⟩
  origin := fun i part hpart => origin_afterBuilds h hpart
  below := by
    intro i hi
    obtain ⟨part, hpart⟩ := Option.isSome_iff_exists.1 hi
    rcases origin_afterBuilds h hpart with hold | hfilled
    · exact .inl (by rw [hold]; rfl)
    · exact .inr hfilled.lt

/-- A block fails at its last line and leaves a part at the index one, for the second user function of
the next block. -/
theorem sharesByNumber_failed_block :
    ∃ first second : BuildContext × List TheoryLine,
      (standard.build first.1 first.2).1.isOk = false ∧
      ((standard.afterBuilds [first]).parts.get? 1).isSome ∧
      ((standard.afterBuilds [first]).build second.1 second.2).1.isOk = true ∧
      standard.BindsIndices ∧ standard.SharesByNumber [first, second] := by
  let first : BuildContext × List TheoryLine := (⟨1, [], ⟨[]⟩⟩,
    [⟨1, "userFcn libBuiltinUserFcn StretchedExpFcn 1"⟩, ⟨2, "+"⟩,
      ⟨3, "userFcn libBuiltinUserFcn TabulatedExpFcn 1"⟩, ⟨4, "se 9"⟩])
  let second : BuildContext × List TheoryLine := (⟨1, [], ⟨[]⟩⟩,
    [⟨1, "userFcn libBuiltinUserFcn TabulatedExpFcn 1"⟩,
      ⟨2, "userFcn libBuiltinUserFcn TabulatedExpFcn 1"⟩])
  refine ⟨first, second, ?_, ?_, ?_, bindsIndices_standard,
    sharesByNumber bindsIndices_standard [first, second]⟩
  · decide +kernel
  · decide +kernel
  · decide +kernel

end Session

end MuonSpin
