import MuonSpin.Proofs.Session.History
import MuonSpin.Proofs.Session.Indices

/-!
# Loading modules on demand

A loader is a tree of tables of modules. Whatever its shape, it is a list of tables that are asked one
after the other.

* `Loader.members`, `Loader.load_eq`: the tables in the order in which they are asked, and a load by the
  first one that knows the module;
* `Loader.loadInPlace`: a load that writes to the factories while it goes on, and
  `Loader.loadInPlace_eq`: the tables that fail write nothing;
* `Session.Asks`: the outcome of a look-up depends on the loader;
* `Session.Change`, `Session.Knows.afterChanges`: no sequence of loads, registrations and builds
  removes a type, if modules only register types;
* **`Session.loadsOnDemand`**: a look-up of a user function loads its module exactly if the type is not
  known, and fails to find it exactly if the type is not known then either.
-/

namespace MuonSpin

/-! ## Names -/

namespace Factories

variable {factories : Factories} {type : String}

theorem mem_names_iff : type ∈ factories.names ↔ ∃ f, factories.create? type = some f := by
  rw [names, List.mem_map]
  constructor
  · rintro ⟨entry, hentry, rfl⟩
    have hlookup : (factories.entries.lookup entry.1).isSome := by
      rw [List.lookup_isSome_iff]
      exact ⟨entry, hentry, by simp⟩
    obtain ⟨function, hfunction⟩ := Option.isSome_iff_exists.1 hlookup
    exact ⟨.create function, by rw [create?, hfunction]; rfl⟩
  · rintro ⟨f, hf⟩
    obtain ⟨function, hlookup, -⟩ := Option.map_eq_some_iff.1 hf
    exact ⟨(type, function), mem_of_lookup_eq_some hlookup, rfl⟩

theorem not_mem_names_iff : type ∉ factories.names ↔ factories.create? type = none := by
  rw [mem_names_iff, Option.eq_none_iff_forall_ne_some, not_exists]

theorem mem_names_register {name : String} {function : UserFunction} :
    type ∈ (factories.register name function).names ↔ type = name ∨ type ∈ factories.names := by
  rcases factories with ⟨entries⟩
  simp only [register, names]
  induction entries with
  | nil => simp [insertEntry]
  | cons entry entries ih =>
    unfold insertEntry
    split_ifs with hless hgreater
    · simp
    · rw [List.map_cons, List.mem_cons, ih, List.map_cons, List.mem_cons, or_left_comm]
    · have hname : entry.1 = name := String.le_antisymm (String.not_lt.1 hless) (String.not_lt.1 hgreater)
      simp [hname]

/-- Registrations one after the other. -/
def registerAll (factories : Factories) (registrations : List (String × UserFunction)) : Factories :=
  registrations.foldl (fun factories entry => factories.register entry.1 entry.2) factories

theorem mem_names_registerAll (h : type ∈ factories.names)
    (registrations : List (String × UserFunction)) :
    type ∈ (factories.registerAll registrations).names := by
  induction registrations generalizing factories with
  | nil => exact h
  | cons entry registrations ih => exact ih (mem_names_register.2 (.inr h))

/-- A module does nothing but register types. Which ones may depend on those that are known. -/
def OnlyRegisters (init : ModuleInit) : Prop :=
  ∀ factories : Factories, ∃ registrations, init.run factories = factories.registerAll registrations

end Factories

/-! ## Loaders -/

namespace Modules

/-- What a module makes known. -/
def init? (modules : Modules) (module : String) : Option ModuleInit :=
  modules.known.lookup module

theorem init?_withModule (modules : Modules) (name : String) (init : ModuleInit)
    (module : String) :
    (modules.withModule name init).init? module =
      if module = name then some init else modules.init? module := by
  rw [init?, withModule, List.lookup_cons]
  by_cases h : module = name
  · simp [h]
  · simp [h, beq_false_of_ne h, init?]

/-- All modules do nothing but register types. -/
def OnlyRegister (modules : Modules) : Prop :=
  ∀ module init, modules.init? module = some init → Factories.OnlyRegisters init

theorem onlyRegister_empty : empty.OnlyRegister := by
  intro module init h
  cases h

theorem OnlyRegister.withModule {modules : Modules} (h : modules.OnlyRegister) {name : String}
    {init : ModuleInit} (hinit : Factories.OnlyRegisters init) :
    (modules.withModule name init).OnlyRegister := by
  intro module init' hfound
  rw [init?_withModule] at hfound
  split_ifs at hfound
  · cases hfound
    exact hinit
  · exact h module init' hfound

end Modules

namespace Loader

/-- The tables of modules in the order in which they are asked. -/
def members : Loader → List Modules
  | static modules => [modules]
  | chain primary fallback => primary.members ++ fallback.members

theorem members_ne_nil (loader : Loader) : loader.members ≠ [] := by
  induction loader with
  | static modules => exact List.cons_ne_nil _ _
  | chain primary fallback _ ihfallback => exact List.append_ne_nil_of_right_ne_nil _ ihfallback

/-- A load that changes the factories in place. The fallback goes on with what the primary loader has
left. -/
def loadInPlace (module : String) : Loader → StateM Factories (Except UserFunctionError Unit)
  | static modules =>
    match modules.init? module with
    | some init => do
      modify init.run
      pure (.ok ())
    | none => pure (.error (.moduleNotLoaded module "no compiled-in module with this name"))
  | chain primary fallback => do
    match ← primary.loadInPlace module with
    | .ok () => pure (.ok ())
    | .error _ => fallback.loadInPlace module

/-- The factories that a load leaves, be it successful or not. -/
def factoriesAfter (loader : Loader) (module : String) (factories : Factories) : Factories :=
  (loader.loadInPlace module factories).2

section Load

variable {loader : Loader} {module : String} {factories factories' : Factories}
  {e : UserFunctionError}

/-- **A load** asks the tables one after the other. -/
theorem load_eq (loader : Loader) (module : String) (factories : Factories) :
    loader.load module factories =
      match loader.members.findSome? (·.init? module) with
      | some init => .ok (init.run factories)
      | none => .error (.moduleNotLoaded module "no compiled-in module with this name") := by
  induction loader with
  | static modules =>
    cases hinit : modules.known.lookup module <;> simp [load, members, Modules.init?, hinit]
  | chain primary fallback ihprimary ihfallback =>
    rw [load, ihprimary, ihfallback, members, List.findSome?_append]
    cases primary.members.findSome? (·.init? module) <;> rfl

/-- **A load in place** writes what the load gives, and nothing if it fails. -/
theorem loadInPlace_eq (loader : Loader) (module : String) (factories : Factories) :
    loader.loadInPlace module factories =
      match loader.load module factories with
      | .ok factories' => (.ok (), factories')
      | .error e => (.error e, factories) := by
  induction loader with
  | static modules =>
    rw [loadInPlace, load, Modules.init?]
    cases modules.known.lookup module <;> rfl
  | chain primary fallback ihprimary ihfallback =>
    simp only [loadInPlace, load, bind, StateT.bind, ihprimary]
    cases primary.load module factories with
    | ok factories' => rfl
    | error e => exact ihfallback

theorem factoriesAfter_of_load (h : loader.load module factories = .ok factories') :
    loader.factoriesAfter module factories = factories' := by
  rw [factoriesAfter, loadInPlace_eq, h]

theorem factoriesAfter_of_error (h : loader.load module factories = .error e) :
    loader.factoriesAfter module factories = factories := by
  rw [factoriesAfter, loadInPlace_eq, h]

theorem exists_load_iff :
    (∃ factories', loader.load module factories = .ok factories') ↔
      ∃ modules ∈ loader.members, (modules.init? module).isSome := by
  rw [load_eq, ← List.findSome?_isSome_iff]
  cases loader.members.findSome? (·.init? module) <;> simp

theorem load_of_first {before after : List Modules} {modules : Modules}
    {init : ModuleInit} (hmembers : loader.members = before ++ modules :: after)
    (hbefore : ∀ modules ∈ before, modules.init? module = none)
    (hinit : modules.init? module = some init) (factories : Factories) :
    loader.load module factories = .ok (init.run factories) := by
  have hnone : before.findSome? (·.init? module) = none := List.findSome?_eq_none_iff.2 hbefore
  rw [load_eq, hmembers, List.findSome?_append, hnone, List.findSome?_cons, hinit]
  rfl

theorem load_withModule (modules : Modules) (module : String) (init : ModuleInit)
    (factories : Factories) :
    (static (modules.withModule module init)).load module factories = .ok (init.run factories) := by
  rw [load_eq, members, List.findSome?_singleton, Modules.init?_withModule, if_pos rfl]

theorem error_of_last (h : loader.load module factories = .error e) :
    ∃ last, loader.members.getLast? = some last ∧ (static last).load module factories = .error e := by
  have hlast := List.getLast?_eq_some_getLast loader.members_ne_nil
  refine ⟨_, hlast, ?_⟩
  rw [load_eq] at h ⊢
  rw [members, List.findSome?_singleton]
  cases hfind : loader.members.findSome? (·.init? module) with
  | some init => simp [hfind] at h
  | none =>
    rw [hfind] at h
    rw [List.findSome?_eq_none_iff.1 hfind _ (List.getLast_mem loader.members_ne_nil)]
    exact h

end Load

/-- All modules do nothing but register types. -/
def OnlyRegisters (loader : Loader) : Prop := ∀ modules ∈ loader.members, modules.OnlyRegister

theorem onlyRegisters_static {modules : Modules} (h : modules.OnlyRegister) :
    (static modules).OnlyRegisters :=
  List.forall_mem_singleton.2 h

theorem OnlyRegisters.chain {primary fallback : Loader} (h : primary.OnlyRegisters)
    (h' : fallback.OnlyRegisters) : (chain primary fallback).OnlyRegisters :=
  List.forall_mem_append.2 ⟨h, h'⟩

theorem onlyRegisters_standard : standard.OnlyRegisters :=
  onlyRegisters_static (Modules.onlyRegister_empty.withModule fun _ =>
    ⟨[("TabulatedExpFcn", Builtin.tabulatedExp), ("StretchedExpFcn", Builtin.stretchedExp)], rfl⟩)

theorem OnlyRegisters.mem_names {loader : Loader} (h : loader.OnlyRegisters) {type : String}
    {factories : Factories} (htype : type ∈ factories.names) (module : String) :
    type ∈ (loader.factoriesAfter module factories).names := by
  cases hload : loader.load module factories with
  | error e => rwa [factoriesAfter_of_error hload]
  | ok factories' =>
    rw [factoriesAfter_of_load hload]
    rw [load_eq] at hload
    cases hfind : loader.members.findSome? (·.init? module) with
    | none => simp [hfind] at hload
    | some init =>
      rw [hfind] at hload
      cases hload
      obtain ⟨modules, hmodules, hinit⟩ := List.exists_of_findSome?_eq_some hfind
      obtain ⟨registrations, hinit⟩ := h modules hmodules module init hinit factories
      rw [hinit]
      exact Factories.mem_names_registerAll htype registrations

end Loader

/-! ## Look-ups -/

namespace Session

section Lookup

variable {session session' : Session} {module type : String} {index : Nat} {f : UserInstance}

theorem Found.mem_names (h : session.Found module type f session') :
    type ∈ session'.factories.names := by
  cases h with
  | known found => exact Factories.mem_names_iff.2 ⟨f, found⟩
  | loaded unknown load found => exact Factories.mem_names_iff.2 ⟨f, found⟩

theorem NotFound.not_mem_names (h : session.NotFound module type session') :
    type ∉ session'.factories.names := by
  cases h with
  | notLoaded unknown load => exact Factories.not_mem_names_iff.2 unknown
  | notInModule unknown load notFound => exact Factories.not_mem_names_iff.2 notFound

theorem bindFunction_eq_notFound_iff {m t : String} :
    (session.bindFunction module type index).1 = .error (.userFunctionNotFound m t) ↔
      m = module ∧ t = type ∧
        type ∉ (session.bindFunction module type index).2.factories.names := by
  rcases hbind : session.bindFunction module type index with ⟨fault | f, session'⟩
  · rcases bindFunction_eq_error_iff.1 hbind with ⟨rfl, hnot⟩ | ⟨e, rfl, hnot⟩
    · have hnames := hnot.not_mem_names
      simp [hnames, eq_comm]
    · cases hnot with
      | mk found part bind =>
        have hnames := found.mem_names
        simp [hnames]
  · have hnames : type ∈ session'.factories.names := by
      cases bindFunction_eq_ok_iff.1 hbind with
      | stateless found noPart => exact found.mem_names
      | attached found part bind => exact found.mem_names
    simp [hnames]

theorem attachPart_factories (session : Session) (type : String) (index : Nat) (f : UserInstance) :
    (session.attachPart type index f).2.factories = session.factories ∧
      (session.attachPart type index f).2.loader = session.loader := by
  unfold attachPart
  split_ifs
  · rcases f.bind index session.parts with ⟨e | g, parts⟩ <;> exact ⟨rfl, rfl⟩
  · exact ⟨rfl, rfl⟩

theorem bindFunction_of_known (h : session.factories.create? type = some f) (module : String)
    (index : Nat) : session.bindFunction module type index = session.attachPart type index f := by
  rw [bindFunction, createFunction, h]

/-- **A look-up** of a type that is not known leaves the factories that a load leaves. -/
theorem bindFunction_factories (session : Session) (module type : String) (index : Nat) :
    (session.bindFunction module type index).2.factories =
        (if type ∈ session.factories.names then session.factories
          else session.loader.factoriesAfter module session.factories) ∧
      (session.bindFunction module type index).2.loader = session.loader := by
  split_ifs with hknown
  · obtain ⟨f, hf⟩ := Factories.mem_names_iff.1 hknown
    rw [bindFunction_of_known hf]
    exact session.attachPart_factories type index f
  · have hunknown := Factories.not_mem_names_iff.1 hknown
    cases hload : session.loader.load module session.factories with
    | error e =>
      rw [Loader.factoriesAfter_of_error hload, bindFunction, createFunction, hunknown, hload]
      exact ⟨rfl, rfl⟩
    | ok factories =>
      rw [Loader.factoriesAfter_of_load hload]
      cases hfound : factories.create? type with
      | none => simp [bindFunction, createFunction, hunknown, hload, hfound]
      | some f =>
        simp only [bindFunction, createFunction, hunknown, hload, hfound]
        exact attachPart_factories { session with factories } type index f

/-! ## What the loader decides -/

/-- What a look-up gives, and what it leaves besides the loader. -/
def outcome (session : Session) (module type : String) (index : Nat) :
    Except Fault UserInstance × Factories × GlobalParts :=
  ((session.bindFunction module type index).1,
    (session.bindFunction module type index).2.factories,
    (session.bindFunction module type index).2.parts)

/-- The loader is asked: with another one the outcome of the look-up would be another one. -/
def Asks (session : Session) (module type : String) (index : Nat) : Prop :=
  ∃ loader : Loader,
    ({ session with loader } : Session).outcome module type index ≠ session.outcome module type index

theorem outcome_of_known (h : session.factories.create? type = some f) (loader : Loader) :
    ({ session with loader } : Session).outcome module type index =
      session.outcome module type index := by
  have h' : ({ session with loader } : Session).factories.create? type = some f := h
  simp only [outcome, bindFunction_of_known h, bindFunction_of_known h', attachPart]
  split_ifs
  · rcases f.bind index session.parts with ⟨e | g, parts⟩ <;> rfl
  · rfl

/-- **The loader is asked** exactly if the type is not known. -/
theorem asks_iff : session.Asks module type index ↔ type ∉ session.factories.names := by
  constructor
  · rintro ⟨loader, hloader⟩ hknown
    obtain ⟨f, hf⟩ := Factories.mem_names_iff.1 hknown
    exact hloader (outcome_of_known hf loader)
  · intro hunknown
    by_contra hnever
    simp only [Asks, not_exists, not_not] at hnever
    -- a loader without modules leaves the type unknown, one that has a module for it does not
    let without : Session := { session with loader := .static .empty }
    let init : ModuleInit := .registering [(type, .stateless fun _ _ => none)]
    let within : Session :=
      { session with loader := .static (Modules.empty.withModule module init) }
    have hwithout : (without.bindFunction module type index).2.factories = session.factories := by
      rw [(without.bindFunction_factories module type index).1, ite_eq_left_iff]
      exact fun _ => rfl
    have hwithin :
        (within.bindFunction module type index).2.factories = init.run session.factories := by
      have hload := Loader.load_withModule Modules.empty module init session.factories
      rw [(within.bindFunction_factories module type index).1, if_neg hunknown,
        Loader.factoriesAfter_of_load hload]
    have hsame : (without.bindFunction module type index).2.factories =
        (within.bindFunction module type index).2.factories :=
      congrArg (·.2.1) ((hnever without.loader).trans (hnever within.loader).symm)
    have hknown : type ∈ (init.run session.factories).names :=
      Factories.mem_names_register.2 (.inl rfl)
    rw [← hwithin, ← hsame, hwithout] at hknown
    exact hunknown hknown

end Lookup

/-! ## Changes -/

/-- What can happen to a session, whether or not it succeeds. -/
inductive Change where
  | load (module : String)
  | register (type : String) (function : UserFunction)
  | build (ctx : BuildContext) (lines : List TheoryLine)

/-- The session after a change. -/
def change (session : Session) : Change → Session
  | .load module =>
    { session with factories := session.loader.factoriesAfter module session.factories }
  | .register type function =>
    { session with factories := session.factories.register type function }
  | .build ctx lines => (session.build ctx lines).2

/-- The session after several changes. -/
def afterChanges (session : Session) (changes : List Change) : Session :=
  changes.foldl change session

/-- The type is known, and no module can make it unknown. -/
structure Knows (type : String) (session : Session) : Prop where
  onlyRegisters : session.loader.OnlyRegisters
  known : type ∈ session.factories.names

section Changes

variable {session : Session} {type : String}

theorem kept_knows (type : String) : Kept (Knows type) := by
  intro session module type' index h
  obtain ⟨hfactories, hloader⟩ := session.bindFunction_factories module type' index
  refine ⟨hloader ▸ h.onlyRegisters, ?_⟩
  rw [hfactories]
  split_ifs
  · exact h.known
  · exact h.onlyRegisters.mem_names h.known module

theorem Knows.change (h : session.Knows type) (change : Change) :
    (session.change change).Knows type := by
  cases change with
  | load module => exact ⟨h.onlyRegisters, h.onlyRegisters.mem_names h.known module⟩
  | register name function => exact ⟨h.onlyRegisters, Factories.mem_names_register.2 (.inr h.known)⟩
  | build ctx lines => exact (kept_knows type).build h ctx lines

theorem Knows.afterChanges (h : session.Knows type) (changes : List Change) :
    (session.afterChanges changes).Knows type := by
  induction changes generalizing session with
  | nil => exact h
  | cons change changes ih => exact ih (h.change change)

end Changes

/-! ## Loading on demand -/

/-- How a session finds types of user functions. -/
structure LoadsOnDemand (session : Session) : Prop where
  /-- The loader is asked for types that are not known, and only for these. -/
  asks : ∀ module type index, session.Asks module type index ↔ type ∉ session.factories.names
  /-- It is then asked for the module, whether or not the type is found in it. -/
  factories : ∀ module type index, (session.bindFunction module type index).2.factories =
    if type ∈ session.factories.names then session.factories
    else session.loader.factoriesAfter module session.factories
  /-- A load succeeds if one of the tables knows the module. -/
  loads : ∀ module factories, (∃ factories', session.loader.load module factories = .ok factories') ↔
    ∃ modules ∈ session.loader.members, (modules.init? module).isSome
  /-- The first one that knows it makes its types known, and no other one does anything. -/
  first : ∀ module factories before modules after init,
    session.loader.members = before ++ modules :: after →
    (∀ modules ∈ before, modules.init? module = none) → modules.init? module = some init →
    session.loader.load module factories = .ok (init.run factories) ∧
      session.loader.loadInPlace module factories = (.ok (), init.run factories)
  /-- A failing load writes nothing, and has the error of the table that is asked last. -/
  fails : ∀ module factories e, session.loader.load module factories = .error e →
    session.loader.loadInPlace module factories = (.error e, factories) ∧
      ∃ last, session.loader.members.getLast? = some last ∧
        (Loader.static last).load module factories = .error e
  /-- A user function is not found if its type is not known after the look-up either. -/
  notFound : ∀ module type index m t,
    (session.bindFunction module type index).1 = .error (.userFunctionNotFound m t) ↔
      m = module ∧ t = type ∧ type ∉ (session.bindFunction module type index).2.factories.names
  /-- A type that is known stays known. -/
  keeps : ∀ changes type, type ∈ session.factories.names →
    type ∈ (session.afterChanges changes).factories.names

/-- **Modules are loaded on demand**, for any tree of tables whose modules only register types, any types
that are known and any names of modules and types. -/
theorem loadsOnDemand {session : Session} (h : session.loader.OnlyRegisters) :
    session.LoadsOnDemand where
  asks _ _ _ := asks_iff
  factories module type index := (session.bindFunction_factories module type index).1
  loads _ _ := Loader.exists_load_iff
  first module factories before modules after init hmembers hbefore hinit := by
    have hload := Loader.load_of_first hmembers hbefore hinit factories
    refine ⟨hload, ?_⟩
    rw [Loader.loadInPlace_eq, hload]
  fails module factories e hload := by
    refine ⟨?_, Loader.error_of_last hload⟩
    rw [Loader.loadInPlace_eq, hload]
  notFound _ _ _ _ _ := bindFunction_eq_notFound_iff
  keeps changes type htype := (Knows.afterChanges ⟨h, htype⟩ changes).known

/-- A module of its own is asked for in front of the built-in one. -/
theorem loadsOnDemand_chained :
    let extra : Modules :=
      Modules.empty.withModule "libExtra" (.registering [("Extra", Builtin.stretchedExp)])
    (Loader.chain (.static extra) .standard).OnlyRegisters ∧
      (start (.chain (.static extra) .standard)).LoadsOnDemand := by
  intro extra
  have hextra : extra.OnlyRegister :=
    Modules.onlyRegister_empty.withModule fun _ => ⟨[("Extra", Builtin.stretchedExp)], rfl⟩
  have hloader : (Loader.chain (.static extra) .standard).OnlyRegisters :=
    (Loader.onlyRegisters_static hextra).chain Loader.onlyRegisters_standard
  exact ⟨hloader, loadsOnDemand hloader⟩

/-- A module that is loaded for a type that it does not have makes its own types known. -/
example :
    (standard.bindFunction Builtin.moduleName "Other" 0).1.isOk = false ∧
      (standard.bindFunction Builtin.moduleName "Other" 0).2.factories.names =
        Builtin.factories.names := by
  decide

end Session

end MuonSpin
