import MuonSpin.Proofs.Evaluation.Shape
import MuonSpin.Proofs.Runs.Steps
import MuonSpin.Proofs.Session.Builtin

/-!
# Runs settle

Runs of one block share a standard session. What a run does to it is allowed: the types of the
built-in module may become known, one after the other, parts may be attached, and tables may change
their rate. A run does not notice when others do so, unless it asks another module for the type that
becomes known last.

* `Session.Sound`, `Session.Grows`: the invariant of the session, and the allowed changes;
* `Session.Decides`: the types that others do not make known any more;
* `Session.settles_bindTask`: **an instance of a user function does not depend on who loads its
  module**, if its type is decided; `Calm`: among some lines the type that need not be decided is
  asked of the built-in module first;
* `Progress.settles_stepsTask`, `Theory.settles_evaluateIntoTask`: the factors of a block, and values;
* **`Run.settles_rest`**: the output of a run does not depend on what the others do.
-/

namespace MuonSpin

/-! ## The shared session -/

/-- The module that the first line with a user function names. -/
def firstModule? (lines : List TheoryLine) : Option String := lines.findSome? TheoryLine.module?

namespace Session

/-- The first type of the built-in module is known. -/
def Opened (session : Session) : Prop := session.factories = Builtin.partly ∨ session.Loaded

/-- The session of runs of a block: it is standard, types of the built-in module are known only if the
first line with a user function names it, and its parts are sound. -/
structure Sound (lines : List TheoryLine) (session : Session) : Prop where
  loader : session.loader = .standard
  factories : session.factories = .empty ∨
    session.Opened ∧ firstModule? lines = some Builtin.moduleName
  parts : session.parts.Sound

/-- A sound session stays sound, known types stay known, and the parts stay. -/
structure Grows (lines : List TheoryLine) (session session' : Session) : Prop where
  sound : session.Sound lines → session'.Sound lines
  opened : session.Opened → session'.Opened
  loaded : session.Loaded → session'.Loaded
  keeps : session.parts.Keeps session'.parts

/-- Whether the type is known does not change any more. -/
def Decides (type : String) (session : Session) : Prop :=
  session.Loaded ∨ session.Opened ∧ type ≠ Builtin.lastType

variable {lines : List TheoryLine} {session session' : Session} {module type : String}

theorem sound_standard (lines : List TheoryLine) : standard.Sound lines :=
  ⟨rfl, .inl rfl, GlobalParts.sound_empty⟩

theorem allows_grows (lines : List TheoryLine) : Task.Allows (Grows lines) where
  refl session := ⟨id, id, id, .refl session.parts⟩
  trans h h' := ⟨h'.sound ∘ h.sound, h'.opened ∘ h.opened, h'.loaded ∘ h.loaded,
    fun index hindex => h'.keeps index (h.keeps index hindex)⟩

theorem stable_sound (lines : List TheoryLine) : Task.Stable (Grows lines) (Sound lines) :=
  fun _ _ h => h.sound

theorem Loaded.opened (h : session.Loaded) : session.Opened := .inr h

theorem Decides.opened (h : session.Decides type) : session.Opened := h.elim .inr And.left

theorem Decides.loaded (h : session.Decides Builtin.lastType) : session.Loaded :=
  h.resolve_right fun hopened => hopened.2 rfl

theorem Decides.grow (h : session.Decides type) (hgrows : Grows lines session session') :
    session'.Decides type :=
  h.imp hgrows.loaded (And.imp_left hgrows.opened)

/-- The session is sound, and a result, if there is one, is as described. -/
def SoundResult {ε α : Type} (lines : List TheoryLine) (P : α → Session → Prop) (r : Except ε α)
    (session : Session) : Prop :=
  session.Sound lines ∧ ∀ a, r = .ok a → P a session

theorem soundResult_error {ε α : Type} {P : α → Session → Prop} (hs : session.Sound lines)
    (e : ε) : SoundResult lines P (.error e) session :=
  ⟨hs, fun a ha => by cases ha⟩

theorem soundResult_ok {ε α : Type} {P : α → Session → Prop} (hs : session.Sound lines) {a : α}
    (ha : P a session) : SoundResult lines P (.ok a : Except ε α) session :=
  ⟨hs, fun b hb => by cases hb; exact ha⟩

theorem stable_soundResult {ε α : Type} (lines : List TheoryLine) {P : α → Session → Prop}
    (hP : ∀ a, Task.Stable (Grows lines) (P a)) (r : Except ε α) :
    Task.Stable (Grows lines) (SoundResult lines P r) :=
  fun session session' hgrows h =>
    ⟨hgrows.sound h.1, fun a ha => hP a session session' hgrows (h.2 a ha)⟩

theorem Sound.firstModule?_of_opened (h : session.Sound lines) (hopened : session.Opened) :
    firstModule? lines = some Builtin.moduleName := by
  rcases h.factories with hempty | ⟨-, hfirst⟩
  · rcases hopened with hpartly | hloaded
    · exact absurd (hpartly.symm.trans hempty) Builtin.partly_ne_empty
    · exact absurd (hloaded.symm.trans hempty) Builtin.factories_ne_empty
  · exact hfirst

theorem Sound.create?_eq_none_of_first (h : session.Sound lines)
    (hfirst : firstModule? lines ≠ some Builtin.moduleName) (type : String) :
    session.factories.create? type = none := by
  rcases h.factories with hempty | ⟨-, hbuiltin⟩
  · rw [hempty]
    rfl
  · exact absurd hbuiltin hfirst

theorem Sound.of_create?_eq_some (h : session.Sound lines) {f : UserInstance}
    (hcreate : session.factories.create? type = some f) :
    Builtin.factories.create? type = some f ∧ session.Decides type := by
  rcases h.factories with hempty | ⟨hpartly | hloaded, -⟩
  · rw [hempty] at hcreate
    cases hcreate
  · rw [hpartly] at hcreate
    have htype : type ≠ Builtin.lastType := by
      rintro rfl
      rw [Builtin.create?_partly_lastType] at hcreate
      cases hcreate
    rw [Builtin.create?_factories, if_neg htype]
    exact ⟨hcreate, .inr ⟨.inl hpartly, htype⟩⟩
  · rw [hloaded] at hcreate
    exact ⟨hcreate, .inl hloaded⟩

theorem Decides.of_create?_eq_none (h : session.Decides type)
    (hcreate : session.factories.create? type = none) : Builtin.factories.create? type = none := by
  rcases h with hloaded | ⟨hpartly | hloaded, htype⟩
  · rwa [hloaded] at hcreate
  · rwa [Builtin.create?_factories, if_neg htype, ← hpartly]
  · rwa [hloaded] at hcreate

theorem grows_of_parts {parts : GlobalParts} (hs : session.Sound lines) (hparts : parts.Sound)
    (hkeeps : session.parts.Keeps parts) : Grows lines session { session with parts } :=
  ⟨fun _ => ⟨hs.loader, hs.factories, hparts⟩, id, id, hkeeps⟩

/-! ## Loading a module -/

theorem Sound.register_firstType (hs : session.Sound lines)
    (hfirst : firstModule? lines = some Builtin.moduleName) :
    Grows lines session { session with
      factories := session.factories.register Builtin.firstType Builtin.tabulatedExp } ∧
    Opened { session with
      factories := session.factories.register Builtin.firstType Builtin.tabulatedExp } := by
  have hsame : session.Opened →
      session.factories.register Builtin.firstType Builtin.tabulatedExp = session.factories := by
    rintro (hpartly | hloaded)
    · rw [hpartly, Builtin.register_firstType.1]
    · rw [hloaded, Builtin.register_firstType.2]
  have hopened : Opened { session with
      factories := session.factories.register Builtin.firstType Builtin.tabulatedExp } := by
    rcases hs.factories with hempty | ⟨hopened, -⟩
    · exact .inl (by rw [hempty, Builtin.partly])
    · rw [hsame hopened]
      exact hopened
  refine ⟨⟨fun _ => ⟨hs.loader, .inr ⟨hopened, hfirst⟩, hs.parts⟩, fun _ => hopened,
    fun hloaded => ?_, .refl _⟩, hopened⟩
  exact (hsame hloaded.opened).trans hloaded

theorem Opened.register_lastType (hs : session.Sound lines) (hopened : session.Opened) :
    Grows lines session { session with
      factories := session.factories.register Builtin.lastType Builtin.stretchedExp } ∧
    Loaded { session with
      factories := session.factories.register Builtin.lastType Builtin.stretchedExp } := by
  have hloaded : Loaded { session with
      factories := session.factories.register Builtin.lastType Builtin.stretchedExp } := by
    rcases hopened with hpartly | hloaded
    · show session.factories.register Builtin.lastType Builtin.stretchedExp = Builtin.factories
      rw [hpartly, Builtin.register_lastType.1]
    · show session.factories.register Builtin.lastType Builtin.stretchedExp = Builtin.factories
      rw [hloaded, Builtin.register_lastType.2]
  have hfirst := hs.firstModule?_of_opened hopened
  exact ⟨⟨fun _ => ⟨hs.loader, .inr ⟨hloaded.opened, hfirst⟩, hs.parts⟩,
    fun _ => hloaded.opened, fun _ => hloaded, .refl _⟩, hloaded⟩

theorem loadTask_standard_builtin :
    Loader.standard.loadTask Builtin.moduleName = (do
      changeTask (·.register Builtin.firstType Builtin.tabulatedExp)
      changeTask (·.register Builtin.lastType Builtin.stretchedExp)
      pure true) := by
  have hlookup : Modules.standard.known.lookup Builtin.moduleName = some Builtin.init := by
    simp only [Modules.standard, Modules.withModule, Modules.empty, List.lookup_cons,
      beq_self_eq_true]
  rw [Loader.standard, Loader.loadTask, hlookup]
  rfl

theorem ensures_loadTask_builtin (hs : session.Sound lines)
    (hfirst : firstModule? lines = some Builtin.moduleName) :
    (loadTask Builtin.moduleName).Ensures (Grows lines)
      (fun r session => r = true ∧ session.Sound lines ∧ session.Loaded) session := by
  have hallows := allows_grows lines
  refine .atomic_bind fun session₁ h₁ => ⟨hallows.refl session₁, ?_⟩
  have hs₁ := h₁.sound hs
  simp only [hs₁.loader, loadTask_standard_builtin]
  refine .atomic_bind fun session₂ h₂ => ?_
  have hs₂ := h₂.sound hs₁
  obtain ⟨hgrows₂, hopened₂⟩ := hs₂.register_firstType hfirst
  refine ⟨hgrows₂, .atomic_bind fun session₃ h₃ => ?_⟩
  have hs₃ := h₃.sound (hgrows₂.sound hs₂)
  obtain ⟨hgrows₃, hloaded₃⟩ := Opened.register_lastType hs₃ (h₃.opened hopened₂)
  refine ⟨hgrows₃, .pure fun session₄ h₄ => ?_⟩
  exact ⟨rfl, h₄.sound (hgrows₃.sound hs₃), h₄.loaded hloaded₃⟩

theorem loadTask_standard_of_ne (hmodule : module ≠ Builtin.moduleName) :
    Loader.standard.loadTask module = pure false := by
  have hlookup : Modules.standard.known.lookup module = none := by
    simp only [Modules.standard, Modules.withModule, Modules.empty, List.lookup_cons,
      List.lookup_nil, beq_false_of_ne hmodule]
  rw [Loader.standard, Loader.loadTask, hlookup]

theorem ensures_loadTask_other (hs : session.Sound lines) (hmodule : module ≠ Builtin.moduleName) :
    (loadTask module).Ensures (Grows lines) (fun r session => r = false ∧ session.Sound lines)
      session := by
  refine .atomic_bind fun session₁ h₁ => ⟨(allows_grows lines).refl session₁, ?_⟩
  have hs₁ := h₁.sound hs
  rw [hs₁.loader, loadTask_standard_of_ne hmodule]
  exact .pure fun session₂ h₂ => ⟨rfl, h₂.sound hs₁⟩

/-! ## Instances of user functions -/

/-- The answer to a request: its type is decided if it is an instance. -/
def Answered (lines : List TheoryLine) (type : String) (a r : Except Fault UserInstance)
    (session : Session) : Prop :=
  r = a ∧ SoundResult lines (fun f session => session.Decides type ∧ Unattached f) a session

theorem ensures_notFound (hs : session.Sound lines) (type : String) (e : Fault) :
    Task.Ensures (Grows lines) (Answered lines type (.error e)) (pure (.error e)) session :=
  .pure fun _ hgrows => ⟨rfl, soundResult_error (hgrows.sound hs) e⟩

theorem ensures_found (hs : session.Sound lines) (hdecides : session.Decides type)
    {f : UserInstance} (hcreate : Builtin.factories.create? type = some f) (module : String) :
    Task.Ensures (Grows lines) (Answered lines type (loadedAnswer module type)) (pure (.ok f))
      session := by
  have hanswer : loadedAnswer module type = .ok f := loadedAnswer_of_some hcreate
  refine .pure fun session' hgrows => ⟨hanswer.symm, hgrows.sound hs, fun g hg => ?_⟩
  exact ⟨hdecides.grow hgrows, unattached_of_loadedAnswer hg⟩

theorem ensures_loadedTask_builtin (hs : session.Sound lines)
    (hfirst : firstModule? lines = some Builtin.moduleName) (type : String) :
    (loadedTask Builtin.moduleName type).Ensures (Grows lines)
      (Answered lines type (loadedAnswer Builtin.moduleName type)) session := by
  refine (ensures_loadTask_builtin hs hfirst).bind (allows_grows lines) ?_
  rintro _ session₁ ⟨rfl, hs₁, hloaded₁⟩
  refine .atomic_bind fun session₂ h₂ => ⟨(allows_grows lines).refl session₂, ?_⟩
  have hs₂ := h₂.sound hs₁
  have hloaded₂ := h₂.loaded hloaded₁
  rw [show session₂.factories = Builtin.factories from hloaded₂]
  cases hcreate : Builtin.factories.create? type with
  | none =>
    rw [loadedAnswer_of_none hcreate]
    exact ensures_notFound hs₂ type _
  | some f => exact ensures_found hs₂ (.inl hloaded₂) hcreate Builtin.moduleName

theorem ensures_loadedTask_other (hs : session.Sound lines) (hmodule : module ≠ Builtin.moduleName)
    (type : String) :
    (loadedTask module type).Ensures (Grows lines)
      (Answered lines type (.error (.userFunctionNotFound module type))) session := by
  refine (ensures_loadTask_other hs hmodule).bind (allows_grows lines) ?_
  rintro _ session₁ ⟨rfl, hs₁⟩
  exact ensures_notFound hs₁ type _

theorem ensures_createTask (hs : session.Sound lines)
    (hfirst : firstModule? lines = some Builtin.moduleName)
    (hasked : module = Builtin.moduleName ∨ session.Decides type) :
    (createTask module type).Ensures (Grows lines)
      (Answered lines type (loadedAnswer module type)) session := by
  refine .atomic_bind fun session₁ h₁ => ⟨(allows_grows lines).refl session₁, ?_⟩
  have hs₁ := h₁.sound hs
  cases hcreate : session₁.factories.create? type with
  | some f =>
    obtain ⟨hbuiltin, hdecides⟩ := hs₁.of_create?_eq_some hcreate
    exact ensures_found hs₁ hdecides hbuiltin module
  | none =>
    by_cases hmodule : module = Builtin.moduleName
    · rw [hmodule]
      exact ensures_loadedTask_builtin hs₁ hfirst type
    · have hdecides := (hasked.resolve_left hmodule).grow h₁
      rw [loadedAnswer_of_none (hdecides.of_create?_eq_none hcreate)]
      exact ensures_loadedTask_other hs₁ hmodule type

/-- A request in a block whose first line with a user function names another module. -/
theorem ensures_createTask_other (hs : session.Sound lines)
    (hfirst : firstModule? lines ≠ some Builtin.moduleName)
    (hmodule : module ≠ Builtin.moduleName) (type : String) :
    (createTask module type).Ensures (Grows lines)
      (Answered lines type (.error (.userFunctionNotFound module type))) session := by
  refine .atomic_bind fun session₁ h₁ => ⟨(allows_grows lines).refl session₁, ?_⟩
  have hs₁ := h₁.sound hs
  rw [hs₁.create?_eq_none_of_first hfirst type]
  exact ensures_loadedTask_other hs₁ hmodule type

/-- **An instance does not depend on who loads its module**, if its module is the first one that the
block names or its type is decided. -/
theorem settles_createTask (module type : String) :
    Task.Settles (Grows lines)
      (fun session => session.Sound lines ∧
        (firstModule? lines = some module ∨ session.Decides type))
      (createTask module type)
      (SoundResult lines fun f session => session.Decides type ∧ Unattached f) := by
  by_cases hbuiltin : firstModule? lines = some Builtin.moduleName
  · refine ⟨loadedAnswer module type, fun session hs => ensures_createTask hs.1 hbuiltin ?_⟩
    refine hs.2.imp_left fun hfirst => ?_
    rw [hbuiltin, Option.some_inj] at hfirst
    exact hfirst.symm
  · refine ⟨.error (.userFunctionNotFound module type), fun session hs => ?_⟩
    have hfirst : firstModule? lines = some module := by
      refine hs.2.resolve_right fun hdecides => ?_
      exact hbuiltin (hs.1.firstModule?_of_opened hdecides.opened)
    refine ensures_createTask_other hs.1 hbuiltin ?_ type
    rintro rfl
    exact hbuiltin hfirst

theorem grows_attachPart (hs : session.Sound lines) {f : UserInstance} (hf : Unattached f)
    (type : String) (index : Nat) :
    (session.attachPart type index f).1 = .ok (attached index f) ∧
      Grows lines session (session.attachPart type index f).2 ∧
      (attached index f).Ready (session.attachPart type index f).2.parts := by
  obtain ⟨parts, hattach, hsound, hkeeps, hready⟩ :=
    attachPart_of_unattached session hs.parts hf type index
  rw [hattach]
  exact ⟨rfl, grows_of_parts hs hsound hkeeps, hready⟩

theorem stable_decides_unattached (type : String) (f : UserInstance) :
    Task.Stable (Grows lines) fun session => session.Decides type ∧ Unattached f :=
  fun _ _ hgrows h => ⟨h.1.grow hgrows, h.2⟩

theorem stable_decides_ready (type : String) (f : UserInstance) :
    Task.Stable (Grows lines) fun session => session.Decides type ∧ f.Ready session.parts :=
  fun _ _ hgrows h => ⟨h.1.grow hgrows, h.2.mono hgrows.keeps⟩

/-- **An instance with its part** does not depend on who loads its module. -/
theorem settles_bindTask (module type : String) (index : Nat) :
    Task.Settles (Grows lines)
      (fun session => session.Sound lines ∧
        (firstModule? lines = some module ∨ session.Decides type))
      (bindTask module type index)
      (SoundResult lines fun f session => session.Decides type ∧ f.Ready session.parts) := by
  refine (settles_createTask module type).bind (allows_grows lines) fun r => ?_
  have hstable := stable_soundResult lines (stable_decides_unattached type) r
  rcases r with e | f
  · exact .pure hstable fun session h => soundResult_error h.1 e
  · refine .atomic hstable (stable_soundResult lines (stable_decides_ready type)
      (.ok (attached index f))) fun session h => ?_
    obtain ⟨hdecides, hunattached⟩ := h.2 f rfl
    obtain ⟨hok, hgrows, hready⟩ := grows_attachPart h.1 hunattached type index
    exact ⟨hok, hgrows, soundResult_ok (hgrows.sound h.1) ⟨hdecides.grow hgrows, hready⟩⟩

end Session

/-! ## Lines -/

/-- The part of the engine is there, if it is a user function. -/
def Engine.Ready (parts : GlobalParts) : Engine → Prop
  | user f => f.Ready parts
  | closed _ | static _ | dynamic _ => True

theorem Engine.Ready.mono {engine : Engine} {parts parts' : GlobalParts} (h : engine.Ready parts)
    (hkeeps : parts.Keeps parts') : engine.Ready parts' := by
  cases engine with
  | user f => exact UserInstance.Ready.mono h hkeeps
  | closed form | static k | dynamic k => trivial

namespace Session

variable {lines : List TheoryLine} {session : Session} {ctx : BuildContext} {count : Nat}

theorem ready_of_no_request {line : TheoryLine} {factor : Factor} {session' : Session}
    {count' : Nat} (h : userRequest? line.tokens = none)
    (hr : session.readFactor ctx count line.number line.tokens = (.ok factor, session', count'))
    (parts : GlobalParts) : factor.engine.Ready parts := by
  rcases hengine : factor.engine with form | k | k | f
  · trivial
  · trivial
  · trivial
  · obtain ⟨module, type, params, hrequest, -⟩ := request_of_readFactor hr hengine
    rw [h] at hrequest
    cases hrequest

/-- A factor whose part is there, from a line after which the type is decided that it asks for. -/
def FactorReady (line : TheoryLine) (factor : Factor) (session : Session) : Prop :=
  factor.engine.Ready session.parts ∧
    ∀ module type params, userRequest? line.tokens = some (module, type, params) →
      session.Decides type

theorem stable_factorReady (line : TheoryLine) (factor : Factor) :
    Task.Stable (Grows lines) (FactorReady line factor) :=
  fun _ _ hgrows h => ⟨h.1.mono hgrows.keeps, fun module type params hline =>
    (h.2 module type params hline).grow hgrows⟩

theorem settles_factorTask (lines : List TheoryLine) (ctx : BuildContext) (count : Nat)
    (line : TheoryLine) :
    Task.Settles (Grows lines)
      (fun session => session.Sound lines ∧ ∀ module type params,
        userRequest? line.tokens = some (module, type, params) →
        firstModule? lines = some module ∨ session.Decides type)
      (factorTask ctx count line.number line.tokens)
      (fun r => SoundResult lines (FactorReady line) r.1) := by
  unfold factorTask
  split
  · rename_i module type params hrequest
    refine ((settles_bindTask module type count).of_pre fun session h =>
      ⟨h.1, h.2 module type params hrequest⟩).bind (allows_grows lines) fun r => ?_
    have hstable := stable_soundResult lines (stable_decides_ready type) r
    refine .pure hstable fun session h => ?_
    rcases r with e | f
    · exact soundResult_error h.1 e
    · obtain ⟨hdecides, hready⟩ := h.2 f rfl
      show SoundResult lines (FactorReady line) (ctx.factorOf line.number params (.user f)) session
      rw [BuildContext.factorOf]
      cases params.mapM ctx.readToken with
      | error e =>
        exact soundResult_error h.1 e
      | ok references =>
        refine soundResult_ok h.1 ⟨hready, fun module' type' params' hrequest' => ?_⟩
        rw [hrequest] at hrequest'
        cases hrequest'
        exact hdecides
  · rename_i hrequest
    rcases hread : standard.readFactor ctx count line.number line.tokens with ⟨r, session', count'⟩
    refine .pure ?_ fun session h => ⟨h.1, fun factor hfactor => ?_⟩
    · intro session session' hgrows h
      refine ⟨hgrows.sound h.1, fun module type params hline => ?_⟩
      exact (h.2 module type params hline).imp_right fun hdecides => hdecides.grow hgrows
    · obtain rfl : r = .ok factor := hfactor
      refine ⟨ready_of_no_request hrequest hread _, fun module type params hline => ?_⟩
      rw [hrequest] at hline
      cases hline

end Session

/-! ## Blocks -/

theorem firstModule?_cons_of_none {line : TheoryLine} {rest : List TheoryLine}
    (h : line.request? = none) : firstModule? (line :: rest) = firstModule? rest := by
  rw [firstModule?, List.findSome?_cons, TheoryLine.module?, h]
  rfl

theorem firstModule?_cons_of_some {line : TheoryLine} {rest : List TheoryLine}
    {request : String × String × List String} (h : line.request? = some request) :
    firstModule? (line :: rest) = some request.1 := by
  rw [firstModule?, List.findSome?_cons, TheoryLine.module?, h]
  rfl

/-- The first line that asks for the last type of the built-in module names that module. -/
def Calm (lines : List TheoryLine) : Prop :=
  ∀ line, lines.find? (·.type? == some Builtin.lastType) = some line →
    line.module? = some Builtin.moduleName

theorem calm_of_forall_ne {lines : List TheoryLine}
    (h : ∀ line ∈ lines, line.type? ≠ some Builtin.lastType) : Calm lines := by
  intro line hline
  refine absurd ?_ (h line (List.mem_of_find?_eq_some hline))
  exact beq_iff_eq.1 (List.find?_some hline :)

theorem Calm.tail {line : TheoryLine} {rest : List TheoryLine} (h : Calm (line :: rest))
    (hline : line.type? ≠ some Builtin.lastType) : Calm rest := by
  intro line' hline'
  refine h line' ?_
  rw [List.find?_cons_of_neg (by simpa using hline), hline']

namespace Progress

/-- The factors so far. -/
def factors (progress : Progress) : List Factor := (progress.terms ++ [progress.term]).flatten

/-- The session when the lines `rest` of the block are still to be read: as long as they begin with the
first line with a user function the built-in module need not be known. -/
structure Before (lines rest : List TheoryLine) (progress : Progress) (session : Session) : Prop where
  sound : session.Sound lines
  opened : firstModule? rest = firstModule? lines ∨ session.Opened
  calm : firstModule? lines = some Builtin.moduleName → session.Loaded ∨ Calm rest
  ready : ∀ factor ∈ progress.factors, factor.engine.Ready session.parts

variable {lines rest : List TheoryLine} {progress : Progress} {ctx : BuildContext}

theorem stable_before (lines rest : List TheoryLine) (progress : Progress) :
    Task.Stable (Session.Grows lines) (Before lines rest progress) :=
  fun _ _ hgrows h => ⟨hgrows.sound h.sound, h.opened.imp_right hgrows.opened,
    fun hfirst => (h.calm hfirst).imp_left hgrows.loaded,
    fun factor hfactor => (h.ready factor hfactor).mono hgrows.keeps⟩

/-- What a line asks for is in the first module of the block, or decided. -/
theorem Before.asked {line : TheoryLine} {session : Session} {module type : String}
    {params : List String} (h : Before lines (line :: rest) progress session)
    (hline : line.request? = some (module, type, params)) :
    firstModule? lines = some module ∨ session.Decides type := by
  rcases h.opened with hfirst | hopened
  · rw [← hfirst, firstModule?_cons_of_some hline]
    exact .inl rfl
  by_cases htype : type = Builtin.lastType
  · have hfirst := h.sound.firstModule?_of_opened hopened
    rcases h.calm hfirst with hloaded | hcalm
    · exact .inr (.inl hloaded)
    · have hmodule : line.module? = some Builtin.moduleName := by
        refine hcalm line (List.find?_cons_of_pos ?_)
        simp [TheoryLine.type?, hline, htype]
      rw [TheoryLine.module?, hline] at hmodule
      exact .inl (hfirst.trans hmodule.symm)
  · exact .inr (.inr ⟨hopened, htype⟩)

theorem Before.skip {line : TheoryLine} {progress' : Progress} {session : Session}
    (h : Before lines (line :: rest) progress session) (hline : line.request? = none)
    (hfactors : progress'.factors = progress.factors) : Before lines rest progress' session := by
  refine ⟨h.sound, ?_, fun hfirst => (h.calm hfirst).imp_right fun hcalm => hcalm.tail ?_,
    by rw [hfactors]; exact h.ready⟩
  · rw [← firstModule?_cons_of_none hline]
    exact h.opened
  · rw [TheoryLine.type?, hline]
    exact fun h => by cases h

theorem Before.addResult {line : TheoryLine} {session : Session} {factor : Factor} {count : Nat}
    (h : Before lines (line :: rest) progress session)
    (hline : line.request? = userRequest? line.tokens)
    (hfactor : Session.FactorReady line factor session) :
    Before lines rest (progress.addResult line.number (.ok factor) count).2 session := by
  have hready : ∀ factor' ∈ (progress.addResult line.number (.ok factor) count).2.factors,
      factor'.engine.Ready session.parts := by
    intro factor' hmem
    have hfactors : (progress.addResult line.number (.ok factor) count).2.factors =
        progress.factors ++ [factor] := by
      simp [Progress.addResult, factors]
    rw [hfactors, List.mem_append, List.mem_singleton] at hmem
    rcases hmem with hmem | rfl
    · exact h.ready factor' hmem
    · exact hfactor.1
  cases hrequest : userRequest? line.tokens with
  | none =>
    have hskip : Before lines rest progress session := h.skip (hline.trans hrequest) rfl
    exact ⟨h.sound, hskip.opened, hskip.calm, hready⟩
  | some request =>
    obtain ⟨module, type, params⟩ := request
    have hdecides := hfactor.2 module type params hrequest
    refine ⟨h.sound, .inr hdecides.opened, fun hfirst => ?_, hready⟩
    rcases h.calm hfirst with hloaded | hcalm
    · exact .inl hloaded
    by_cases htype : type = Builtin.lastType
    · subst htype
      exact .inl hdecides.loaded
    · refine .inr (hcalm.tail ?_)
      rw [TheoryLine.type?, hline, hrequest]
      exact fun h => htype (Option.some.inj h)

theorem settles_stepTask (line : TheoryLine) :
    Task.Settles (Session.Grows lines) (Before lines (line :: rest) progress)
      (progress.stepTask ctx line)
      fun r session => session.Sound lines ∧ (r.1 = none → Before lines rest r.2 session) := by
  unfold stepTask
  split_ifs with hc hs ht
  · have hline : line.request? = none := by rw [TheoryLine.request?, if_pos hc]
    exact .pure (stable_before _ _ _) fun session h => ⟨h.sound, fun _ => h.skip hline rfl⟩
  · refine .pure (stable_before _ _ _) fun session h => ⟨h.sound, fun hnone => ?_⟩
    cases hnone
  · have hline : line.request? = none := by rw [TheoryLine.request?, if_neg hc, if_pos hs]
    refine .pure (stable_before _ _ _) fun session h => ⟨h.sound, fun _ => h.skip hline ?_⟩
    simp [factors]
  · have hline : line.request? = userRequest? line.tokens := by
      rw [TheoryLine.request?, if_neg hc, if_neg hs]
    have hframe := (Session.settles_factorTask lines ctx progress.userCount line).frame
      (stable_before lines (line :: rest) progress)
    refine (hframe.of_pre fun session h => ⟨⟨h.sound, fun module type params hrequest =>
      h.asked (hline.trans hrequest)⟩, h⟩).bind (Session.allows_grows lines) ?_
    rintro ⟨r, count⟩
    refine .pure ((Session.stable_soundResult lines (Session.stable_factorReady line) r).and
      (stable_before _ _ _)) fun session h => ⟨h.2.sound, fun hnone => ?_⟩
    rcases r with e | factor
    · cases hnone
    · exact h.2.addResult hline (h.1.2 factor rfl)

theorem settles_stepsTask (ctx : BuildContext) :
    Task.Settles (Session.Grows lines) (Before lines rest progress) (progress.stepsTask ctx rest)
      fun r session => session.Sound lines ∧ (r.1 = none → Before lines [] r.2 session) := by
  induction rest generalizing progress with
  | nil => exact .pure (stable_before _ _ _) fun session h => ⟨h.sound, fun _ => h⟩
  | cons line rest ih =>
    refine (settles_stepTask line).bind (Session.allows_grows lines) ?_
    rintro ⟨_ | e, progress'⟩
    · exact ih.of_pre fun session h => h.2 rfl
    · refine .pure (fun s s' hgrows h => ⟨hgrows.sound h.1, fun hnone => ?_⟩)
        fun session h => ⟨h.1, fun hnone => ?_⟩
      · cases hnone
      · cases hnone

end Progress

namespace Theory

/-- The parts of the user functions are there. -/
def Ready (parts : GlobalParts) : Theory → Prop
  | nil => True
  | node factor times plus => factor.engine.Ready parts ∧ times.Ready parts ∧ plus.Ready parts

variable {parts parts' : GlobalParts} {lines : List TheoryLine}

theorem Ready.mono {theory : Theory} (h : theory.Ready parts) (hkeeps : parts.Keeps parts') :
    theory.Ready parts' := by
  induction theory with
  | nil => trivial
  | node factor times plus ihtimes ihplus =>
    exact ⟨h.1.mono hkeeps, ihtimes h.2.1, ihplus h.2.2⟩

theorem ready_iff_all {theory : Theory} :
    theory.Ready parts ↔ theory.All fun factor => factor.engine.Ready parts := by
  induction theory with
  | nil => exact Iff.rfl
  | node factor times plus ihtimes ihplus =>
    exact and_congr_right fun _ => and_congr ihtimes ihplus

theorem ready_ofTerms {terms : List (List Factor)}
    (h : ∀ factor ∈ terms.flatten, factor.engine.Ready parts) : (ofTerms terms).Ready parts :=
  ready_iff_all.2 (all_ofTerms h)

theorem stable_ready (lines : List TheoryLine) (theory : Theory) :
    Task.Stable (Session.Grows lines) fun session => theory.Ready session.parts :=
  fun _ _ hgrows h => h.mono hgrows.keeps

end Theory

/-! ## Values -/

section Values

variable {lines : List TheoryLine}

theorem Engine.stable_ready (lines : List TheoryLine) (engine : Engine) :
    Task.Stable (Session.Grows lines) fun session => engine.Ready session.parts :=
  fun _ _ hgrows h => h.mono hgrows.keeps

/-- **The value of an engine** does not depend on who uses its table. -/
theorem Engine.settles_valueTask (engine : Engine) (t : Float) (val : List UInt64) :
    Task.Settles (Session.Grows lines)
      (fun session => session.Sound lines ∧ engine.Ready session.parts) (engine.valueTask t val)
      fun r session => session.Sound lines ∧ r.2.Ready session.parts := by
  have hpre := (Session.stable_sound lines).and (engine.stable_ready lines)
  cases engine with
  | closed form | static k | dynamic k => exact .pure hpre fun session h => ⟨h.1, trivial⟩
  | user f =>
    refine .of_state (none, .user f) fun session₀ h₀ => ?_
    obtain ⟨g, hg⟩ := UserInstance.Ready.computes h₀.2
    refine .atomic (a := (g t (numbers val), .user f)) hpre hpre fun session h => ?_
    obtain ⟨hvalue, -, hready⟩ := hg session.parts ⟨h.1.parts, h.2⟩ t (numbers val)
    obtain ⟨hsound, hkeeps⟩ := UserInstance.Ready.evaluate h.2 h.1.parts t (numbers val)
    have hgrows := Session.grows_of_parts h.1 hsound hkeeps
    refine ⟨?_, hgrows, hgrows.sound h.1, hready⟩
    exact congrArg (·, Engine.user f) hvalue

theorem Factor.settles_valueTask (lines : List TheoryLine) (factor : Factor) (point : Point) :
    Task.Settles (Session.Grows lines)
      (fun session => session.Sound lines ∧ factor.engine.Ready session.parts)
      (factor.valueTask point)
      fun r session => session.Sound lines ∧ r.2.engine.Ready session.parts := by
  have hstable := fun engine : Engine =>
    (Session.stable_sound lines).and (engine.stable_ready lines)
  unfold valueTask
  split
  · exact .pure (hstable factor.engine) fun session h => h
  · refine (factor.engine.settles_valueTask point.t _).bind (Session.allows_grows lines) ?_
    rintro ⟨v, engine⟩
    exact .pure (hstable engine) fun session h => h

namespace Theory

/-- **The value of a theory** does not depend on what others do. -/
theorem settles_evaluateIntoTask (theory : Theory) (point : Point)
    (combine : Float → Float → Float) (x : Float) :
    Task.Settles (Session.Grows lines)
      (fun session => session.Sound lines ∧ theory.Ready session.parts)
      (theory.evaluateIntoTask point combine x)
      fun r session => session.Sound lines ∧ r.2.Ready session.parts := by
  have hstable := fun theory : Theory =>
    (Session.stable_sound lines).and (theory.stable_ready lines)
  induction theory generalizing combine x with
  | nil => exact .pure (hstable .nil) fun session h => h
  | node factor times plus ihtimes ihplus =>
    have hnode : ∀ (v : Option Float) (factor : Factor) (times plus : Theory),
        Task.Settles (Session.Grows lines)
          (fun session => session.Sound lines ∧ (node factor times plus).Ready session.parts)
          (pure (v, node factor times plus))
          fun r session => session.Sound lines ∧ r.2.Ready session.parts :=
      fun v factor times plus => .pure (hstable (.node factor times plus)) fun session h => h
    -- the parts of a tree that are not evaluated yet stay ready while others take their steps
    have hfactor := (factor.settles_valueTask lines point).frame
      ((times.stable_ready lines).and (plus.stable_ready lines))
    refine (hfactor.of_pre fun session h => ⟨⟨h.1, h.2.1⟩, h.2.2⟩).bind
      (Session.allows_grows lines) ?_
    rintro ⟨_ | v, factor'⟩
    · exact (hnode none factor' times plus).of_pre fun session h => ⟨h.1.1, h.1.2, h.2⟩
    · have htimes := (ihtimes (· * ·) v).frame
        ((factor'.engine.stable_ready lines).and (plus.stable_ready lines))
      refine (htimes.of_pre fun session h => ⟨⟨h.1.1, h.2.1⟩, h.1.2, h.2.2⟩).bind
        (Session.allows_grows lines) ?_
      rintro ⟨_ | v', times'⟩
      · exact (hnode none factor' times' plus).of_pre fun session h => ⟨h.1.1, h.2.1, h.1.2, h.2.2⟩
      · have hplus := (ihplus (· + ·) v').frame
          ((factor'.engine.stable_ready lines).and (times'.stable_ready lines))
        refine (hplus.of_pre fun session h => ⟨⟨h.1.1, h.2.2⟩, h.2.1, h.1.2⟩).bind
          (Session.allows_grows lines) ?_
        rintro ⟨_ | w, plus'⟩
        · exact (hnode none factor' times' plus').of_pre fun session h =>
            ⟨h.1.1, h.2.1, h.2.2, h.1.2⟩
        · exact (hnode (some (combine x w)) factor' times' plus').of_pre fun session h =>
            ⟨h.1.1, h.2.1, h.2.2, h.1.2⟩

theorem settles_evaluateAllTask (lines : List TheoryLine) (params funcs : List UInt64)
    (theory : Theory) (times : List Float) :
    Task.Settles (Session.Grows lines)
      (fun session => session.Sound lines ∧ theory.Ready session.parts)
      (theory.evaluateAllTask params funcs times)
      fun _ session => session.Sound lines := by
  induction times generalizing theory with
  | nil =>
    exact .pure ((Session.stable_sound lines).and (theory.stable_ready lines))
      fun session h => h.1
  | cons t times ih =>
    refine (theory.settles_evaluateIntoTask ⟨t, params, funcs⟩ _ _).bind
      (Session.allows_grows lines) ?_
    rintro ⟨v, theory'⟩
    refine (ih theory').bind (Session.allows_grows lines) ?_
    rintro ⟨values, theory''⟩
    exact .pure (Session.stable_sound lines) fun session h => h

end Theory

end Values

/-! ## Runs -/

theorem Run.settles_finishTask (model : Model) (times : List Float) (run : Run)
    (r : Option BuildError × Progress) :
    Task.Settles (Session.Grows model.lines)
      (fun session => session.Sound model.lines ∧
        (r.1 = none → Progress.Before model.lines [] r.2 session))
      (run.finishTask model times r) fun _ session => session.Sound model.lines := by
  have hsound := Session.stable_sound model.lines
  have hpure : ∀ result : Except Failure RunOutput, Task.Settles (Session.Grows model.lines)
      (fun session => session.Sound model.lines ∧
        (r.1 = none → Progress.Before model.lines [] r.2 session))
      (pure result) fun _ session => session.Sound model.lines := fun result =>
    (Task.Settles.pure (a := result) hsound fun _ h => h).of_pre fun _ h => h.1
  rcases r with ⟨_ | e, progress⟩
  · cases htheory : progress.theory ((model.lines.head?.map (·.number)).getD 0) with
    | error e =>
      rw [finishTask, htheory]
      exact hpure _
    | ok theory =>
      rw [finishTask, htheory]
      have hready : ∀ session, Progress.Before model.lines [] progress session →
          theory.Ready session.parts := by
        intro session h
        unfold Progress.theory at htheory
        split at htheory
        · cases htheory
        · cases htheory
          exact Theory.ready_ofTerms h.ready
      have hvalues := theory.settles_evaluateAllTask model.lines model.parameterBits
        model.functionBits times
      refine (hvalues.of_pre fun session h => ⟨h.1, hready session (h.2 rfl)⟩).bind
        (Session.allows_grows model.lines) ?_
      rintro ⟨values, theory'⟩
      simp only
      split
      · exact .pure hsound fun session h => h
      · exact .pure hsound fun session h => h
  · exact hpure _

/-- **The output of a run**, of which the lines `rest` are still to be read, does not depend on what
the other runs do. -/
theorem Run.settles_rest (model : Model) (times : List Float) (run : Run) (rest : List TheoryLine)
    (progress : Progress) :
    Task.Settles (Session.Grows model.lines) (Progress.Before model.lines rest progress)
      (progress.stepsTask (model.context run) rest >>= run.finishTask model times)
      fun _ session => session.Sound model.lines :=
  (Progress.settles_stepsTask (model.context run)).bind (Session.allows_grows model.lines)
    (run.settles_finishTask model times)

end MuonSpin
