import MuonSpin.Proofs.Session.Binding
import MuonSpin.Proofs.UserFunction.PartCalls

/-!
# User functions that keep to their index

An instance is handed an index to attach its part by. Nothing but the function itself makes it use this
index and no other one.

* `UserFunction.BindsIndex`: attaching a part calls for parts at the index that is handed over only;
* `Factories.All`, `Loader.Keeps`, `Session.BindsIndices`: all functions that a session knows or can
  load are such functions;
* `UserInstance.Holds`: an instance with the part it needs;
* **`Session.BindsIndices.bindFunction`**: a look-up calls for parts at its index only, and an instance
  that it finds holds this index.
-/

namespace MuonSpin

/-! ## Functions -/

/-- Attaching a part by an index makes calls for parts at this index only. If it succeeds, there is a
part, and the instance has the index. -/
structure UserFunction.BindsAt (f : UserFunction) (index : Nat) (parts : GlobalParts) : Prop where
  calls : parts.CallsAt index (f.bind index parts).2
  attached : ∀ handle, (f.bind index parts).1 = .ok handle →
    handle = index ∧ ((f.bind index parts).2.get? index).isSome

/-- The function binds exactly the index that it is handed. -/
def UserFunction.BindsIndex (f : UserFunction) : Prop :=
  f.needsPart = true → ∀ index parts, f.BindsAt index parts

/-- The instance has the index of its number, under which there is a part; it has none if its function
has no part. -/
structure UserInstance.Holds (f : UserInstance) (number : Nat) (parts : GlobalParts) : Prop where
  handle : f.handle = if f.function.needsPart then some number else none
  part : f.function.needsPart = true → (parts.get? number).isSome

namespace Builtin

theorem bindsIndex_stretchedExp : stretchedExp.BindsIndex := fun h => Bool.noConfusion h

theorem bindsIndex_tabulatedExp : tabulatedExp.BindsIndex := by
  intro _ index parts
  let call : PartCall := ⟨.expTable, index, .ok ExpTable.empty⟩
  have hbind : tabulatedExp.bind index parts =
      ((call.run parts).1.map fun _ => index, (call.run parts).2) := rfl
  refine ⟨⟨[call], by simp [call], by rw [hbind]; rfl⟩, fun handle hhandle => ?_⟩
  rw [hbind] at hhandle ⊢
  rw [PartCall.get?_run, if_pos rfl]
  rcases hrun : (call.run parts).1 with e | table
  · rw [hrun] at hhandle
    cases hhandle
  · rw [hrun] at hhandle
    cases hhandle
    refine ⟨rfl, ?_⟩
    cases parts.get? index <;> rfl

end Builtin

/-! ## Types and modules -/

/-- All known functions have the property. -/
def Factories.All (P : UserFunction → Prop) (factories : Factories) : Prop :=
  ∀ entry ∈ factories.entries, P entry.2

/-- No module makes a function known that does not have the property. -/
def Loader.Keeps (P : UserFunction → Prop) : Loader → Prop
  | .static modules =>
    ∀ module ∈ modules.known, ∀ factories, factories.All P → (module.2.run factories).All P
  | .chain primary fallback => primary.Keeps P ∧ fallback.Keeps P

theorem mem_of_lookup_eq_some {α β : Type} [BEq α] [LawfulBEq α] {entries : List (α × β)} {a : α}
    {b : β} (h : entries.lookup a = some b) : (a, b) ∈ entries := by
  obtain ⟨before, after, rfl, -⟩ := List.lookup_eq_some_iff.1 h
  simp

section Known

variable {P : UserFunction → Prop} {factories factories' : Factories}

theorem Factories.all_empty : empty.All P := by
  intro entry h
  cases h

theorem Factories.All.insertEntry {name : String} {f : UserFunction} (hf : P f)
    {entries : List (String × UserFunction)} (h : ∀ entry ∈ entries, P entry.2) :
    ∀ entry ∈ Factories.insertEntry name f entries, P entry.2 := by
  induction entries with
  | nil => simpa [Factories.insertEntry] using hf
  | cons entry entries ih =>
    obtain ⟨hentry, hentries⟩ := List.forall_mem_cons.1 h
    unfold Factories.insertEntry
    split_ifs
    · exact List.forall_mem_cons.2 ⟨hf, h⟩
    · exact List.forall_mem_cons.2 ⟨hentry, ih hentries⟩
    · exact List.forall_mem_cons.2 ⟨hf, hentries⟩

theorem Factories.All.register (h : factories.All P) (name : String) {f : UserFunction}
    (hf : P f) : (factories.register name f).All P :=
  Factories.All.insertEntry hf h

/-- An instance of a known type is a fresh one of a known function. -/
theorem Factories.All.create? (h : factories.All P) {type : String} {f : UserInstance}
    (hf : factories.create? type = some f) : P f.function ∧ f.handle = none := by
  obtain ⟨function, hlookup, rfl⟩ := Option.map_eq_some_iff.1 hf
  exact ⟨h (type, function) (mem_of_lookup_eq_some hlookup), rfl⟩

theorem Loader.Keeps.load {loader : Loader} (h : loader.Keeps P) (hall : factories.All P)
    {module : String} (hload : loader.load module factories = .ok factories') :
    factories'.All P := by
  induction loader with
  | static modules =>
    unfold Loader.load at hload
    split at hload
    · rename_i init hlookup
      cases hload
      exact h (module, init) (mem_of_lookup_eq_some hlookup) factories hall
    · cases hload
  | chain primary fallback ihprimary ihfallback =>
    unfold Loader.load at hload
    split at hload
    · rename_i hprimary
      cases hload
      exact ihprimary h.1 hprimary
    · exact ihfallback h.2 hload

end Known

/-! ## Sessions -/

namespace Session

/-- All functions that are known or can be loaded bind exactly the index that they are handed. -/
structure BindsIndices (session : Session) : Prop where
  factories : session.factories.All UserFunction.BindsIndex
  loader : session.loader.Keeps UserFunction.BindsIndex

theorem bindsIndices_standard : standard.BindsIndices := by
  refine ⟨Factories.all_empty, fun module hmodule factories hall => ?_⟩
  obtain rfl : module = (Builtin.moduleName, Builtin.init) := by
    simpa [Modules.standard, Modules.withModule, Modules.empty] using hmodule
  exact (hall.register _ Builtin.bindsIndex_tabulatedExp).register _
    Builtin.bindsIndex_stretchedExp

variable {session session' : Session} {module type : String} {index : Nat} {f : UserInstance}

theorem BindsIndices.found (h : session.BindsIndices)
    (hfound : session.Found module type f session') :
    session'.BindsIndices ∧ session'.parts = session.parts ∧ f.function.BindsIndex ∧
      f.handle = none := by
  cases hfound with
  | known found => exact ⟨h, rfl, h.factories.create? found⟩
  | loaded unknown load found =>
    have hall := h.loader.load h.factories load
    exact ⟨⟨hall, h.loader⟩, rfl, hall.create? found⟩

theorem BindsIndices.notFound (h : session.BindsIndices)
    (hnot : session.NotFound module type session') :
    session'.BindsIndices ∧ session'.parts = session.parts := by
  cases hnot with
  | notLoaded unknown load => exact ⟨h, rfl⟩
  | notInModule unknown load notFound => exact ⟨⟨h.loader.load h.factories load, h.loader⟩, rfl⟩

/-- What a look-up for an index does. -/
structure KeepsTo (session : Session) (index : Nat) (answer : Except Fault UserInstance)
    (session' : Session) : Prop where
  bindsIndices : session'.BindsIndices
  /-- All calls for parts are made at the index. -/
  calls : session.parts.CallsAt index session'.parts
  /-- An instance that is found holds the index. -/
  holds : ∀ f, answer = .ok f → f.Holds index session'.parts

theorem keepsTo_of_parts_eq {answer : Except Fault UserInstance} (h : session'.BindsIndices)
    (hparts : session'.parts = session.parts)
    (hholds : ∀ f, answer = .ok f → f.Holds index session'.parts) :
    session.KeepsTo index answer session' := by
  refine ⟨h, ?_, hholds⟩
  rw [hparts]
  exact .refl session.parts index

theorem BindsIndices.bound (h : session.BindsIndices)
    (hbound : session.Bound module type index f session') :
    session.KeepsTo index (.ok f) session' := by
  cases hbound with
  | stateless found noPart =>
    obtain ⟨h', hparts, -, hhandle⟩ := h.found found
    refine keepsTo_of_parts_eq h' hparts fun g hg => ?_
    cases hg
    exact ⟨by rw [hhandle, noPart]; rfl, fun hneeds => by rw [noPart] at hneeds; cases hneeds⟩
  | @attached f₀ _ session₁ parts found part bind =>
    obtain ⟨h', hparts, hf, -⟩ := h.found found
    obtain ⟨hcalls, hattached⟩ := hf part index session₁.parts
    unfold UserInstance.bind at bind
    rcases hbind : f₀.function.bind index session₁.parts with ⟨_ | handle, parts₁⟩
    · simp [hbind, Except.map] at bind
    · rw [hbind] at hcalls hattached
      simp only [hbind, Except.map, Prod.mk.injEq, Except.ok.injEq] at bind
      obtain ⟨rfl, rfl⟩ := bind
      obtain ⟨rfl, hthere⟩ := hattached handle rfl
      rw [hparts] at hcalls
      refine ⟨⟨h'.factories, h'.loader⟩, hcalls, fun g hg => ?_⟩
      cases hg
      exact ⟨by rw [if_pos part], fun _ => hthere⟩

theorem BindsIndices.notBound (h : session.BindsIndices) {e : UserFunctionError} {fault : Fault}
    (hnot : session.NotBound module type index e session') :
    session.KeepsTo index (.error fault) session' := by
  cases hnot with
  | @mk f₀ session₁ parts _ found part bind =>
    obtain ⟨h', hparts, hf, -⟩ := h.found found
    have hcalls := (hf part index session₁.parts).calls
    obtain rfl : (f₀.function.bind index session₁.parts).2 = parts := congrArg Prod.snd bind
    rw [hparts] at hcalls
    refine ⟨⟨h'.factories, h'.loader⟩, ?_, fun g hg => by cases hg⟩
    rwa [← hparts] at hcalls ⊢

/-- **A look-up** calls for parts at its index only, and an instance that it finds holds this
index. -/
theorem BindsIndices.bindFunction (h : session.BindsIndices) (module type : String)
    (index : Nat) :
    session.KeepsTo index (session.bindFunction module type index).1
      (session.bindFunction module type index).2 := by
  rcases hbind : session.bindFunction module type index with ⟨fault | f, session'⟩
  · rcases bindFunction_eq_error_iff.1 hbind with ⟨-, hnot⟩ | ⟨e, -, hnot⟩
    · obtain ⟨h', hparts⟩ := h.notFound hnot
      refine keepsTo_of_parts_eq h' hparts fun g hg => ?_
      cases hg
    · exact h.notBound hnot
  · exact h.bound (bindFunction_eq_ok_iff.1 hbind)

end Session

end MuonSpin
