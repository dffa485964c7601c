import MuonSpin.Proofs.Runs.Shared
import MuonSpin.Proofs.Session.Binding

/-!
# Sessions with built-in functions

A session with the standard loader knows no types, or those of the built-in module once it is loaded.

* `Session.BuiltinOnly`: these sessions; `Session.Reaches`: a module can be asked for functions;
* `Session.loadedAnswer`: what is found in the built-in module, whatever its parts;
* **`Session.BuiltinOnly.bindFunction_of_reaches`**, `Session.BuiltinOnly.bindFunction_of_not_reaches`:
  the instance for a line is that of the built-in module if the module can be asked, and there is none
  otherwise. No other state of the session matters.
-/

namespace MuonSpin

theorem Loader.load_standard (module : String) (factories : Factories) :
    Loader.standard.load module factories =
      if module = Builtin.moduleName then .ok (Builtin.init.run factories)
      else .error (.moduleNotLoaded module "no compiled-in module with this name") := by
  unfold Loader.standard Loader.load
  simp only [Modules.standard, Modules.withModule, Modules.empty, List.lookup_cons,
    List.lookup_nil]
  by_cases h : module = Builtin.moduleName
  · simp [h]
  · simp [h, beq_false_of_ne h]

theorem Loader.load_standard_of_ne {module : String} (hmodule : module ≠ Builtin.moduleName)
    (factories : Factories) : ∃ e, standard.load module factories = .error e :=
  ⟨_, by rw [load_standard, if_neg hmodule]⟩

namespace Session

/-! ## The sessions -/

/-- The built-in module is known. -/
def Loaded (session : Session) : Prop := session.factories = Builtin.factories

/-- The built-in module is the only one that is known or can be loaded, and all parts are sound
tables. -/
structure BuiltinOnly (session : Session) : Prop where
  loader : session.loader = .standard
  factories : session.factories = .empty ∨ session.Loaded
  parts : session.parts.Sound

/-- The module is the built-in one, or need not be loaded. -/
def Reaches (session : Session) (module : String) : Prop :=
  session.Loaded ∨ module = Builtin.moduleName

variable {session : Session} {module type : String}

theorem builtinOnly_standard : standard.BuiltinOnly := ⟨rfl, .inl rfl, GlobalParts.sound_empty⟩

theorem not_loaded_standard : ¬ standard.Loaded := fun h => Builtin.factories_ne_empty h.symm

theorem BuiltinOnly.load_builtin (h : session.BuiltinOnly) :
    session.loader.load Builtin.moduleName session.factories = .ok Builtin.factories := by
  rw [h.loader, Loader.load_standard, if_pos rfl]
  rcases h.factories with hempty | hloaded
  · rw [hempty, Builtin.factories]
  · rw [hloaded, Builtin.run_init.2]

theorem BuiltinOnly.load_other (h : session.BuiltinOnly) (hmodule : module ≠ Builtin.moduleName) :
    ∃ e, session.loader.load module session.factories = .error e := by
  rw [h.loader]
  exact Loader.load_standard_of_ne hmodule _

theorem BuiltinOnly.create?_eq_none (h : session.BuiltinOnly)
    (htype : Builtin.factories.create? type = none) : session.factories.create? type = none := by
  rcases h.factories with hempty | hloaded
  · rw [hempty]
    rfl
  · rw [hloaded, htype]

/-! ## Instances -/

/-- An unattached instance of a built-in function. -/
def Unattached (f : UserInstance) : Prop :=
  f = .create Builtin.stretchedExp ∨ f = .create Builtin.tabulatedExp

/-- The instance with its part. -/
def attached (index : Nat) (f : UserInstance) : UserInstance :=
  if f.function.needsPart then { f with handle := some index } else f

/-- What the built-in module has under the name of a type. -/
def loadedAnswer (module type : String) : Except Fault UserInstance :=
  match Builtin.factories.create? type with
  | some f => .ok f
  | none => .error (.userFunctionNotFound module type)

theorem loadedAnswer_of_none (h : Builtin.factories.create? type = none) :
    loadedAnswer module type = .error (.userFunctionNotFound module type) := by
  rw [loadedAnswer, h]

theorem loadedAnswer_of_some {f : UserInstance} (h : Builtin.factories.create? type = some f) :
    loadedAnswer module type = .ok f := by
  rw [loadedAnswer, h]

theorem unattached_of_loadedAnswer {f : UserInstance} (h : loadedAnswer module type = .ok f) :
    Unattached f := by
  cases hcreate : Builtin.factories.create? type with
  | none =>
    rw [loadedAnswer_of_none hcreate] at h
    cases h
  | some g =>
    rw [loadedAnswer_of_some hcreate] at h
    cases h
    exact Builtin.eq_of_create?_factories hcreate

theorem attachPart_of_unattached (session : Session) (hs : session.parts.Sound)
    {f : UserInstance} (hf : Unattached f) (type : String) (index : Nat) :
    ∃ parts, session.attachPart type index f = (.ok (attached index f), { session with parts }) ∧
      parts.Sound ∧ session.parts.Keeps parts ∧ (attached index f).Ready parts := by
  rcases hf with rfl | rfl
  · exact ⟨session.parts, rfl, hs, .refl _, .stretchedExp⟩
  · obtain ⟨parts, hbind, hsound, hkeeps, hthere⟩ := UserInstance.bind_tabulatedExp hs index
    have hneeds : (UserInstance.create Builtin.tabulatedExp).function.needsPart = true := rfl
    refine ⟨parts, ?_, hsound, hkeeps, .tabulatedExp index hthere⟩
    rw [attachPart, attached, if_pos hneeds, if_pos hneeds, hbind]
    rfl

/-! ## Binding -/

theorem BuiltinOnly.createFunction_of_reaches (h : session.BuiltinOnly)
    (hreaches : session.Reaches module) (type : String) :
    session.createFunction module type =
      (loadedAnswer module type, { session with factories := Builtin.factories }) := by
  have hsame : session.Loaded → { session with factories := Builtin.factories } = session := by
    intro hloaded
    rw [← hloaded]
  cases hcreate : Builtin.factories.create? type with
  | none =>
    rw [loadedAnswer_of_none hcreate]
    refine createFunction_eq_error_iff.2 ⟨rfl, ?_⟩
    have hunknown := h.create?_eq_none hcreate
    by_cases hmodule : module = Builtin.moduleName
    · subst hmodule
      exact .notInModule hunknown h.load_builtin hcreate
    · obtain ⟨e, hload⟩ := h.load_other hmodule
      rw [hsame (hreaches.resolve_right hmodule)]
      exact .notLoaded hunknown hload
  | some f =>
    rw [loadedAnswer_of_some hcreate]
    refine createFunction_eq_ok_iff.2 ?_
    rcases h.factories with hempty | hloaded
    · have hunknown : session.factories.create? type = none := by
        rw [hempty]
        rfl
      have hmodule : module = Builtin.moduleName := by
        refine hreaches.resolve_left fun hloaded => ?_
        exact Builtin.factories_ne_empty (hloaded.symm.trans hempty)
      subst hmodule
      exact .loaded hunknown h.load_builtin hcreate
    · rw [hsame hloaded]
      exact .known (by rw [hloaded, hcreate])

theorem BuiltinOnly.createFunction_of_not_reaches (h : session.BuiltinOnly)
    (hreaches : ¬ session.Reaches module) (type : String) :
    session.createFunction module type = (.error (.userFunctionNotFound module type), session) := by
  rw [Reaches, not_or] at hreaches
  obtain ⟨hloaded, hmodule⟩ := hreaches
  obtain ⟨e, hload⟩ := h.load_other hmodule
  have hunknown : session.factories.create? type = none := by
    rw [h.factories.resolve_right hloaded]
    rfl
  exact createFunction_eq_error_iff.2 ⟨rfl, .notLoaded hunknown hload⟩

/-- **A module that can be asked** answers, and what it answers does not depend on the session. -/
theorem BuiltinOnly.bindFunction_of_reaches (h : session.BuiltinOnly)
    (hreaches : session.Reaches module) (type : String) (index : Nat) :
    ∃ parts, session.bindFunction module type index =
        ((loadedAnswer module type).map (attached index),
          { session with factories := Builtin.factories, parts }) ∧
      parts.Sound ∧ session.parts.Keeps parts ∧
      ∀ f, loadedAnswer module type = .ok f → (attached index f).Ready parts := by
  rw [bindFunction, h.createFunction_of_reaches hreaches]
  cases hanswer : loadedAnswer module type with
  | error e => exact ⟨session.parts, rfl, h.parts, .refl _, fun f hf => by cases hf⟩
  | ok f =>
    obtain ⟨parts, hattach, hsound, hkeeps, hready⟩ := attachPart_of_unattached
      { session with factories := Builtin.factories } h.parts
      (unattached_of_loadedAnswer hanswer) type index
    refine ⟨parts, hattach, hsound, hkeeps, ?_⟩
    rintro g hg
    cases hg
    exact hready

theorem BuiltinOnly.bindFunction_of_not_reaches (h : session.BuiltinOnly)
    (hreaches : ¬ session.Reaches module) (type : String) (index : Nat) :
    session.bindFunction module type index =
      (.error (.userFunctionNotFound module type), session) := by
  rw [bindFunction, h.createFunction_of_not_reaches hreaches]

theorem BuiltinOnly.bindFunction (h : session.BuiltinOnly) (module type : String) (index : Nat) :
    (session.bindFunction module type index).2.BuiltinOnly := by
  by_cases hreaches : session.Reaches module
  · obtain ⟨parts, hbind, hsound, -, -⟩ := h.bindFunction_of_reaches hreaches type index
    rw [hbind]
    exact ⟨h.loader, .inr rfl, hsound⟩
  · rw [h.bindFunction_of_not_reaches hreaches]
    exact h

theorem BuiltinOnly.loaded_of_bindFunction (h : session.BuiltinOnly) {index : Nat}
    {f : UserInstance} {session' : Session}
    (hbind : session.bindFunction module type index = (.ok f, session')) : session'.Loaded := by
  by_cases hreaches : session.Reaches module
  · obtain ⟨parts, hbind', -, -, -⟩ := h.bindFunction_of_reaches hreaches type index
    obtain rfl : _ = session' := congrArg Prod.snd (hbind'.symm.trans hbind)
    rfl
  · rw [h.bindFunction_of_not_reaches hreaches] at hbind
    cases hbind

end Session

end MuonSpin
