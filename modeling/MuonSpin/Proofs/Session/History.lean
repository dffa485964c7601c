import MuonSpin.Proofs.Runs.Steps
import MuonSpin.Proofs.Session.Builtin

/-!
# What earlier blocks leave behind

The blocks that a session built before, and those that failed to build, may have loaded the built-in
module and attached parts.

* `Session.Kept`: what the look-up of a user function does not change; `Session.Kept.afterBuilds`: no
  sequence of builds changes it;
* `Session.Earlier`: a session in which less was built than in another one;
  `Session.Earlier.bindFunction`, `Session.Earlier.steps`: unless the earlier session misses a user
  function, both read a block in the same way;
* **`build_afterBuilds`**: a block that builds in a fresh session builds to the same theory after any
  sequence of builds, and a block that fails has the same error, unless a user function is not found in
  the fresh session.
-/

namespace MuonSpin

namespace Session

/-! ## Sequences of builds -/

/-- The session after several blocks, whether or not they build. -/
def afterBuilds (session : Session) (history : List (BuildContext × List TheoryLine)) : Session :=
  history.foldl (fun session block => (session.build block.1 block.2).2) session

/-- The look-up of a user function preserves the property. -/
def Kept (P : Session → Prop) : Prop :=
  ∀ session module type index, P session → P (session.bindFunction module type index).2

section Kept

variable {P : Session → Prop} {session : Session}

theorem Kept.readFactor (hP : Kept P) (h : P session) (ctx : BuildContext) (count line : Nat)
    (words : List String) : P (session.readFactor ctx count line words).2.1 := by
  cases hrequest : userRequest? words with
  | none =>
    rw [readFactor_of_no_request hrequest session session]
    exact h
  | some request =>
    obtain ⟨module, type, params⟩ := request
    rw [readFactor_of_request hrequest]
    exact hP session module type count h

theorem Kept.step (hP : Kept P) {reading : Reading} (h : P reading.session) (ctx : BuildContext)
    (line : TheoryLine) : P (reading.step ctx line).2.session := by
  unfold Reading.step
  split_ifs
  · exact h
  · exact h
  · exact h
  · have hread := hP.readFactor h ctx reading.userCount line.number line.tokens
    rcases hr : reading.session.readFactor ctx reading.userCount line.number line.tokens with
      ⟨_ | factor, session, count⟩ <;> rw [hr] at hread <;> exact hread

theorem Kept.steps (hP : Kept P) {reading : Reading} (h : P reading.session) (ctx : BuildContext)
    (lines : List TheoryLine) : P (reading.steps ctx lines).2.session := by
  induction lines generalizing reading with
  | nil => exact h
  | cons line lines ih =>
    have hstep := hP.step h ctx line
    rcases hs : reading.step ctx line with ⟨_ | e, reading'⟩ <;> rw [hs] at hstep
    · rw [Reading.steps, hs]
      exact ih hstep
    · rw [Reading.steps, hs]
      exact hstep

theorem Kept.build (hP : Kept P) (h : P session) (ctx : BuildContext) (lines : List TheoryLine) :
    P (session.build ctx lines).2 := by
  have hsteps : P ((Reading.start session).steps ctx lines).2.session := hP.steps h ctx lines
  unfold Session.build
  rcases hs : (Reading.start session).steps ctx lines with ⟨_ | e, reading⟩ <;> rw [hs] at hsteps
  · simp only
    split <;> exact hsteps
  · exact hsteps

/-- **No sequence of builds** changes what a look-up preserves. -/
theorem Kept.afterBuilds (hP : Kept P) (h : P session)
    (history : List (BuildContext × List TheoryLine)) : P (session.afterBuilds history) := by
  induction history generalizing session with
  | nil => exact h
  | cons block history ih => exact ih (hP.build h block.1 block.2)

theorem kept_builtinOnly : Kept BuiltinOnly :=
  fun _ module type index h => h.bindFunction module type index

end Kept

/-! ## Two sessions -/

/-- Both sessions have built-in functions only, and what is known in the first is known in the
second. -/
structure Earlier (session session' : Session) : Prop where
  builtinOnly : session.BuiltinOnly
  builtinOnly' : session'.BuiltinOnly
  loaded : session.Loaded → session'.Loaded

variable {session session' : Session}

/-- A fresh session is earlier than any other one. -/
theorem earlier_standard (h : session.BuiltinOnly) : standard.Earlier session :=
  ⟨builtinOnly_standard, h, fun hloaded => absurd hloaded not_loaded_standard⟩

/-- **Look-ups agree**, unless the earlier session misses the function. -/
theorem Earlier.bindFunction (h : session.Earlier session') (module type : String) (index : Nat) :
    (session.bindFunction module type index).1 = .error (.userFunctionNotFound module type) ∨
    ∃ r s s', session.bindFunction module type index = (r, s) ∧
      session'.bindFunction module type index = (r, s') ∧ s.Earlier s' := by
  by_cases hreaches : session.Reaches module
  · have hreaches' : session'.Reaches module := hreaches.imp_left h.loaded
    obtain ⟨parts, hbind, hsound, -⟩ :=
      h.builtinOnly.bindFunction_of_reaches hreaches type index
    obtain ⟨parts', hbind', hsound', -⟩ :=
      h.builtinOnly'.bindFunction_of_reaches hreaches' type index
    exact .inr ⟨_, _, _, hbind, hbind', ⟨h.builtinOnly.loader, .inr rfl, hsound⟩,
      ⟨h.builtinOnly'.loader, .inr rfl, hsound'⟩, fun _ => rfl⟩
  · rw [h.builtinOnly.bindFunction_of_not_reaches hreaches]
    exact .inl rfl

theorem Earlier.readFactor (h : session.Earlier session') (ctx : BuildContext)
    (count line : Nat) (words : List String) :
    (∃ module type, (session.readFactor ctx count line words).1 =
      .error (.userFunctionNotFound module type)) ∨
    ∃ r s s' count', session.readFactor ctx count line words = (r, s, count') ∧
      session'.readFactor ctx count line words = (r, s', count') ∧ s.Earlier s' := by
  cases hrequest : userRequest? words with
  | none =>
    rw [readFactor_of_no_request hrequest session session',
      readFactor_of_no_request hrequest session' session']
    exact .inr ⟨_, _, _, _, rfl, rfl, h⟩
  | some request =>
    obtain ⟨module, type, params⟩ := request
    rw [readFactor_of_request hrequest, readFactor_of_request hrequest]
    rcases h.bindFunction module type count with hmissing | ⟨r, s, s', hbind, hbind', hlater⟩
    · rw [hmissing]
      exact .inl ⟨module, type, rfl⟩
    · rw [hbind, hbind']
      exact .inr ⟨_, _, _, _, rfl, rfl, hlater⟩

theorem Earlier.step (h : session.Earlier session') (ctx : BuildContext) (progress : Progress)
    (line : TheoryLine) :
    (∃ number module type, ((progress.inSession session).step ctx line).1 =
      some ⟨number, .userFunctionNotFound module type⟩) ∨
    ∃ (e : Option BuildError) (progress' : Progress) (s s' : Session),
      (progress.inSession session).step ctx line = (e, progress'.inSession s) ∧
      (progress.inSession session').step ctx line = (e, progress'.inSession s') ∧
      s.Earlier s' := by
  unfold Reading.step Progress.inSession
  by_cases hc : line.content.isEmpty = true
  · simp only [if_pos hc]
    exact .inr ⟨none, progress, session, session', rfl, rfl, h⟩
  by_cases hs : line.isSeparator = true
  · simp only [if_neg hc, if_pos hs]
    by_cases ht : progress.term.isEmpty = true
    · simp only [if_pos ht]
      exact .inr ⟨_, progress, session, session', rfl, rfl, h⟩
    · simp only [if_neg ht]
      exact .inr ⟨none, ⟨progress.userCount, progress.terms ++ [progress.term], [],
        some line.number⟩, session, session', rfl, rfl, h⟩
  · simp only [if_neg hc, if_neg hs]
    rcases h.readFactor ctx progress.userCount line.number line.tokens with
      ⟨module, type, hmissing⟩ | ⟨r, s, s', count, hread, hread', hlater⟩
    · rcases hread : session.readFactor ctx progress.userCount line.number line.tokens with
        ⟨r, s, count⟩
      obtain rfl : r = .error (.userFunctionNotFound module type) := by rw [← hmissing, hread]
      exact .inl ⟨line.number, module, type, rfl⟩
    · rw [hread, hread']
      cases r with
      | error e =>
        exact .inr ⟨_, { progress with userCount := count }, s, s', rfl, rfl, hlater⟩
      | ok factor =>
        exact .inr ⟨none, ⟨count, progress.terms, progress.term ++ [factor],
          progress.lastSeparator⟩, s, s', rfl, rfl, hlater⟩

/-- **A block is read in the same way**, line by line. -/
theorem Earlier.steps (h : session.Earlier session') (ctx : BuildContext) (progress : Progress)
    (lines : List TheoryLine) :
    (∃ number module type, ((progress.inSession session).steps ctx lines).1 =
      some ⟨number, .userFunctionNotFound module type⟩) ∨
    ∃ (e : Option BuildError) (progress' : Progress) (s s' : Session),
      (progress.inSession session).steps ctx lines = (e, progress'.inSession s) ∧
      (progress.inSession session').steps ctx lines = (e, progress'.inSession s') ∧
      s.Earlier s' := by
  induction lines generalizing progress session session' with
  | nil => exact .inr ⟨none, progress, session, session', rfl, rfl, h⟩
  | cons line lines ih =>
    rcases h.step ctx progress line with
      ⟨number, module, type, hmissing⟩ | ⟨e, progress', s, s', hstep, hstep', hlater⟩
    · rcases hstep : (progress.inSession session).step ctx line with ⟨e, reading⟩
      obtain rfl : e = some ⟨number, .userFunctionNotFound module type⟩ := by
        rw [← hmissing, hstep]
      exact .inl ⟨number, module, type, by rw [Reading.steps_cons_of_fault hstep]⟩
    · cases e with
      | none =>
        rw [Reading.steps_cons_of_step hstep, Reading.steps_cons_of_step hstep']
        exact ih hlater progress'
      | some e =>
        rw [Reading.steps_cons_of_fault hstep, Reading.steps_cons_of_fault hstep']
        exact .inr ⟨_, progress', s, s', rfl, rfl, hlater⟩

theorem Earlier.build (h : session.Earlier session') (ctx : BuildContext)
    (lines : List TheoryLine) :
    (∃ number module type, (session.build ctx lines).1 =
      .error ⟨number, .userFunctionNotFound module type⟩) ∨
    (session'.build ctx lines).1 = (session.build ctx lines).1 := by
  have hstart : ∀ s : Session, Reading.start s = Progress.start.inSession s := fun s => rfl
  unfold Session.build
  rw [hstart, hstart]
  rcases h.steps ctx Progress.start lines with
    ⟨number, module, type, hmissing⟩ | ⟨e, progress, s, s', hsteps, hsteps', -⟩
  · rcases hsteps : (Progress.start.inSession session).steps ctx lines with ⟨e, reading⟩
    obtain rfl : e = some ⟨number, .userFunctionNotFound module type⟩ := by
      rw [← hmissing, hsteps]
    exact .inl ⟨number, module, type, rfl⟩
  · rw [hsteps, hsteps']
    cases e with
    | some e => exact .inr rfl
    | none =>
      have hend : ∀ first, (progress.inSession s').endError first =
          (progress.inSession s).endError first := fun first => rfl
      simp only [hend]
      cases (progress.inSession s).endError ((lines.head?.map (·.number)).getD 0) with
      | some e => exact .inr rfl
      | none => exact .inr rfl

end Session

/-- **Earlier blocks never break a block.** Take a session with the standard loader and built-in
functions only, and any blocks that it built or failed to build. A block that builds in a fresh session
builds now, to the same theory; a block that fails in a fresh session fails now with the same error,
unless it fails there because a user function is not found. -/
theorem build_afterBuilds {session : Session} (h : session.BuiltinOnly)
    (history : List (BuildContext × List TheoryLine)) (ctx : BuildContext)
    (lines : List TheoryLine) :
    (∀ theory, (Session.standard.build ctx lines).1 = .ok theory →
      ((session.afterBuilds history).build ctx lines).1 = .ok theory) ∧
    ∀ e, (Session.standard.build ctx lines).1 = .error e →
      (∀ module type, e.fault ≠ .userFunctionNotFound module type) →
      ((session.afterBuilds history).build ctx lines).1 = .error e := by
  have hafter := Session.kept_builtinOnly.afterBuilds h history
  rcases (Session.earlier_standard hafter).build ctx lines with
    ⟨number, module, type, hmissing⟩ | hsame
  · refine ⟨fun theory htheory => ?_, fun e he hfound => ?_⟩
    · rw [hmissing] at htheory
      cases htheory
    · rw [hmissing] at he
      cases he
      exact absurd rfl (hfound module type)
  · rw [hsame]
    exact ⟨fun theory htheory => htheory, fun e he _ => he⟩

/-- A block with a table, after one that failed at its end and left a table behind. -/
theorem build_afterBuilds_failed_block :
    ∃ history theory, (Session.standard.afterBuilds history).parts.size = 1 ∧
      (Session.standard.build ⟨1, [], ⟨[]⟩⟩
        [⟨1, "userFcn libBuiltinUserFcn TabulatedExpFcn 1"⟩]).1 = .ok theory ∧
      ((Session.standard.afterBuilds history).build ⟨1, [], ⟨[]⟩⟩
        [⟨1, "userFcn libBuiltinUserFcn TabulatedExpFcn 1"⟩]).1 = .ok theory := by
  have hfresh : (Session.standard.build ⟨1, [], ⟨[]⟩⟩
      [⟨1, "userFcn libBuiltinUserFcn TabulatedExpFcn 1"⟩]).1.isOk = true := by decide +kernel
  obtain ⟨theory, htheory⟩ := exists_of_isOk hfresh
  refine ⟨[(⟨1, [], ⟨[]⟩⟩,
    [⟨1, "userFcn libBuiltinUserFcn TabulatedExpFcn 1"⟩, ⟨2, "+"⟩])], theory, ?_, htheory, ?_⟩
  · decide +kernel
  · exact (build_afterBuilds Session.builtinOnly_standard _ _ _).1 theory htheory

/-- A function of a module that cannot be loaded is not found, until its type is known. -/
example :
    (Session.standard.build ⟨1, [], ⟨[]⟩⟩ [⟨1, "userFcn other TabulatedExpFcn 1"⟩]).1.isOk =
      false ∧
    ((Session.standard.afterBuilds [(⟨1, [], ⟨[]⟩⟩,
      [⟨1, "userFcn libBuiltinUserFcn StretchedExpFcn 1"⟩])]).build ⟨1, [], ⟨[]⟩⟩
        [⟨1, "userFcn other TabulatedExpFcn 1"⟩]).1.isOk = true := by
  decide +kernel

end MuonSpin
