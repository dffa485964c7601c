import MuonSpin.Theory.Session

/-!
# Binding user functions

What can happen when a line asks for a user function, said without the order of the look-ups.

* `Session.Found`, `Session.NotFound`: whether there is an instance of a type, and the session then;
* `Session.Bound`, `Session.NotBound`: whether an instance that was found gets its part;
* **`Session.bindFunction_eq_ok_iff`, `Session.bindFunction_eq_error_iff`**: an instance is given exactly
  if it is found and gets its part, and a failure says which of the two is missing.
-/

namespace MuonSpin

namespace Session

/-! ## Instances -/

/-- An instance of a type that is known, or that its module makes known. -/
inductive Found (session : Session) (module type : String) : UserInstance → Session → Prop
  | known {f : UserInstance} (found : session.factories.create? type = some f) :
    Found session module type f session
  | loaded {f : UserInstance} {factories : Factories}
      (unknown : session.factories.create? type = none)
      (load : session.loader.load module session.factories = .ok factories)
      (found : factories.create? type = some f) :
    Found session module type f { session with factories }

/-- A type that is not known, and whose module cannot be loaded or does not make it known. -/
inductive NotFound (session : Session) (module type : String) : Session → Prop
  | notLoaded {e : UserFunctionError} (unknown : session.factories.create? type = none)
      (load : session.loader.load module session.factories = .error e) :
    NotFound session module type session
  | notInModule {factories : Factories} (unknown : session.factories.create? type = none)
      (load : session.loader.load module session.factories = .ok factories)
      (notFound : factories.create? type = none) :
    NotFound session module type { session with factories }

section Functions

variable {session session' : Session} {module type : String} {f : UserInstance} {fault : Fault}

theorem createFunction_eq_ok_iff :
    session.createFunction module type = (.ok f, session') ↔
      session.Found module type f session' := by
  constructor
  · intro h
    unfold createFunction at h
    split at h
    · rename_i g hknown
      cases h
      exact .known hknown
    · rename_i hunknown
      split at h
      · cases h
      · rename_i factories hload
        simp only at h
        split at h
        · rename_i g hfound
          cases h
          exact .loaded hunknown hload hfound
        · cases h
  · intro h
    cases h with
    | known found => simp [createFunction, found]
    | loaded unknown load found => simp [createFunction, unknown, load, found]

theorem createFunction_eq_error_iff :
    session.createFunction module type = (.error fault, session') ↔
      fault = .userFunctionNotFound module type ∧ session.NotFound module type session' := by
  constructor
  · intro h
    unfold createFunction at h
    split at h
    · cases h
    · rename_i hunknown
      split at h
      · rename_i e hload
        cases h
        exact ⟨rfl, .notLoaded hunknown hload⟩
      · rename_i factories hload
        simp only at h
        split at h
        · cases h
        · rename_i hnot
          cases h
          exact ⟨rfl, .notInModule hunknown hload hnot⟩
  · rintro ⟨rfl, h⟩
    cases h with
    | notLoaded unknown load => simp [createFunction, unknown, load]
    | notInModule unknown load notFound => simp [createFunction, unknown, load, notFound]

end Functions

/-! ## Parts -/

/-- An instance that is found and whose part is attached, if it has one. -/
inductive Bound (session : Session) (module type : String) (index : Nat) :
    UserInstance → Session → Prop
  | stateless {f : UserInstance} {session' : Session}
      (found : session.Found module type f session') (noPart : f.function.needsPart = false) :
    Bound session module type index f session'
  | attached {f g : UserInstance} {session' : Session} {parts : GlobalParts}
      (found : session.Found module type f session') (part : f.function.needsPart = true)
      (bind : f.bind index session'.parts = (.ok g, parts)) :
    Bound session module type index g { session' with parts }

/-- An instance that is found, but whose part cannot be attached. -/
inductive NotBound (session : Session) (module type : String) (index : Nat) :
    UserFunctionError → Session → Prop
  | mk {f : UserInstance} {session' : Session} {parts : GlobalParts} {e : UserFunctionError}
      (found : session.Found module type f session') (part : f.function.needsPart = true)
      (bind : f.bind index session'.parts = (.error e, parts)) :
    NotBound session module type index e { session' with parts }

section Binding

variable {session session' : Session} {module type : String} {index : Nat} {f : UserInstance}
  {fault : Fault}

theorem bindFunction_eq_ok_iff :
    session.bindFunction module type index = (.ok f, session') ↔
      session.Bound module type index f session' := by
  constructor
  · intro h
    rcases hcreate : session.createFunction module type with ⟨_ | g, session₁⟩
    · simp [bindFunction, hcreate] at h
    · have hfound := createFunction_eq_ok_iff.1 hcreate
      simp only [bindFunction, hcreate, attachPart] at h
      split at h
      · rename_i hpart
        rcases hbind : g.bind index session₁.parts with ⟨_ | g', parts⟩
        · simp [hbind] at h
        · simp only [hbind] at h
          cases h
          exact .attached hfound hpart hbind
      · rename_i hpart
        cases h
        exact .stateless hfound (by simpa using hpart)
  · intro h
    cases h with
    | stateless found noPart =>
      simp [bindFunction, createFunction_eq_ok_iff.2 found, attachPart, noPart]
    | attached found part bind =>
      simp [bindFunction, createFunction_eq_ok_iff.2 found, attachPart, part, bind]

theorem bindFunction_eq_error_iff :
    session.bindFunction module type index = (.error fault, session') ↔
      (fault = .userFunctionNotFound module type ∧ session.NotFound module type session') ∨
      ∃ e, fault = .userFunctionNotBound type e ∧
        session.NotBound module type index e session' := by
  constructor
  · intro h
    rcases hcreate : session.createFunction module type with ⟨e | g, session₁⟩
    · simp only [bindFunction, hcreate] at h
      cases h
      exact .inl (createFunction_eq_error_iff.1 hcreate)
    · have hfound := createFunction_eq_ok_iff.1 hcreate
      simp only [bindFunction, hcreate, attachPart] at h
      split at h
      · rename_i hpart
        rcases hbind : g.bind index session₁.parts with ⟨e | g', parts⟩
        · simp only [hbind] at h
          cases h
          exact .inr ⟨e, rfl, .mk hfound hpart hbind⟩
        · simp [hbind] at h
      · cases h
  · rintro (⟨rfl, h⟩ | ⟨e, rfl, h⟩)
    · simp [bindFunction, createFunction_eq_error_iff.2 ⟨rfl, h⟩]
    · cases h with
      | mk found part bind =>
        simp [bindFunction, createFunction_eq_ok_iff.2 found, attachPart, part, bind]

end Binding

end Session

end MuonSpin
