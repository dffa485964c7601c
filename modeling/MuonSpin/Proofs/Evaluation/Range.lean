import MuonSpin.Model.Evaluation
import MuonSpin.Proofs.Block.FirstFault
import MuonSpin.Proofs.Evaluation.Halts
import MuonSpin.Proofs.Session.History

/-!
# Theories that build read in range

What the tokens of a block are checked against when it is built are the numbers of values that it is
evaluated with.

* `BuildContext.Covers`: a point with a value for every parameter and function of a context;
  `BuildContext.inRange_of_readToken`: the references of tokens are in range there;
* `Session.inRange_of_readFactor`, `Theory.inRange_of_build`: so are the factors of lines and blocks,
  and their kernels get as many values as they read;
* `UserInstance.IsBuiltin`: an instance of a built-in function, which **never stops for want of
  values**;
* **`evaluate_inRange`**: a theory built for a run of a model reads none of the lists of values out of
  range.
-/

namespace MuonSpin

/-! ## Tokens -/

/-- The point has values for the parameters and the functions of the context. -/
structure BuildContext.Covers (ctx : BuildContext) (point : Point) : Prop where
  params : ctx.paramCount ≤ point.params.length
  funcs : ctx.functions.numbers.length ≤ point.funcs.length

theorem FunctionTable.lt_of_indexOf? {table : FunctionTable} {number i : Nat}
    (h : table.indexOf? number = some i) : i < table.numbers.length := by
  rw [indexOf?, List.lookup_eq_some_iff] at h
  obtain ⟨before, after, hsplit, -⟩ := h
  have hmem : (number, i) ∈ table.numbers.zipIdx := by
    rw [← List.mem_reverse, hsplit]
    simp
  exact (List.mem_zipIdx' hmem).1

namespace BuildContext

variable {ctx : BuildContext} {point : Point} {reference : Reference}

theorem inRange_of_readNumber (hcovers : ctx.Covers point) {number : Nat}
    (h : ctx.readNumber number = .ok reference) : reference.InRange point := by
  rw [readNumber_eq] at h
  split_ifs at h with hrange
  cases h
  exact Nat.lt_of_lt_of_le hrange.2.2 hcovers.params

theorem inRange_of_readFunction (hcovers : ctx.Covers point) {number : Nat}
    (h : ctx.readFunction number = .ok reference) : reference.InRange point := by
  unfold readFunction at h
  cases hindex : ctx.functions.indexOf? number with
  | none =>
    rw [hindex] at h
    cases h
  | some i =>
    rw [hindex] at h
    cases h
    exact Nat.lt_of_lt_of_le (FunctionTable.lt_of_indexOf? hindex) hcovers.funcs

/-- Whatever numbers the map holds, those that are used are numbers of parameters. -/
theorem inRange_of_readMap (hcovers : ctx.Covers point) {index : Nat}
    (h : ctx.readMap index = .ok reference) : reference.InRange point := by
  unfold readMap at h
  split_ifs at h
  cases hentry : ctx.runMap[index - 1]? with
  | none =>
    simp only [hentry] at h
    cases h
  | some entry =>
    simp only [hentry] at h
    split_ifs at h with hrange
    cases h
    have hparams := hcovers.params
    show entry.toNat - 1 < point.params.length
    omega

theorem inRange_of_readToken (hcovers : ctx.Covers point) {token : String}
    (h : ctx.readToken token = .ok reference) : reference.InRange point := by
  unfold readToken at h
  simp only at h
  split_ifs at h
  · split at h
    · exact inRange_of_readNumber hcovers h
    · cases h
  · split at h
    · exact inRange_of_readFunction hcovers h
    · exact inRange_of_readMap hcovers h
    · cases h

theorem inRange_of_mapM (hcovers : ctx.Covers point) {tokens : List String}
    {references : List Reference} (h : tokens.mapM ctx.readToken = .ok references) :
    ∀ r ∈ references, r.InRange point := by
  have hread := forall₂_of_mapM h
  clear h
  induction hread with
  | nil => simp
  | cons head _ ih => exact List.forall_mem_cons.2 ⟨inRange_of_readToken hcovers head, ih⟩

end BuildContext

/-! ## Blocks -/

section Blocks

variable {session session' : Session} {ctx : BuildContext} {count count' : Nat} {point : Point}

theorem Session.Admits.reads_le {kernel : Kernel} {words : List String}
    (h : session.Admits count kernel words session') :
    kernel.reads ≤ (kernel.parameterWords words).length := by
  cases h with
  | formula kind accepts =>
    rw [kernel.parameterWords_of_ne_user kind]
    exact kernel.reads_le_least.trans (Arity.least_le_of_accepts accepts)
  | function bound => exact Nat.zero_le _

theorem Session.inRange_of_readFactor (hcovers : ctx.Covers point) {line : Nat}
    {words : List String} {factor : Factor}
    (h : session.readFactor ctx count line words = (.ok factor, session', count')) :
    factor.InRange point := by
  obtain ⟨kernel, params, -, hengine, hreferences, -⟩ := readFactor_ok h
  obtain ⟨hkind, rfl⟩ := kernel_of_readEngine hengine
  refine ⟨BuildContext.inRange_of_mapM hcovers hreferences, ?_⟩
  rw [Factor.kernel, hkind, ← (forall₂_of_mapM hreferences).length_eq]
  exact (admits_of_readEngine hengine).reads_le

theorem Theory.inRange_of_build (hcovers : ctx.Covers point) {lines : List TheoryLine}
    {theory : Theory} (h : session.build ctx lines = (.ok theory, session')) :
    theory.All (Factor.InRange point) :=
  all_of_build h fun _ _ _ _ _ _ => Session.inRange_of_readFactor hcovers

theorem Factor.Same.inRange {factor factor' : Factor} (h : factor.Same factor')
    (hrange : factor.InRange point) : factor'.InRange point := by
  refine ⟨?_, ?_⟩
  · rw [h.references]
    exact hrange.references
  · rw [h.kernel, h.references]
    exact hrange.enough

end Blocks

/-! ## Built-in functions -/

/-- An instance of a built-in function. -/
def UserInstance.IsBuiltin (f : UserInstance) : Prop :=
  f.function = Builtin.stretchedExp ∨ f.function = Builtin.tabulatedExp

/-- The user function of the factor, if it has one, is built in. -/
def Factor.IsBuiltin (factor : Factor) : Prop := ∀ f, factor.engine = .user f → f.IsBuiltin

section Builtin

variable {session session' : Session} {ctx : BuildContext} {count count' : Nat}

theorem Session.attached_isBuiltin {f : UserInstance} (h : Unattached f) (index : Nat) :
    (attached index f).IsBuiltin := by
  rcases h with rfl | rfl
  · exact .inl rfl
  · exact .inr rfl

theorem Session.BuiltinOnly.isBuiltin_of_bindFunction (hs : session.BuiltinOnly)
    {module type : String} {f : UserInstance}
    (h : session.bindFunction module type count = (.ok f, session')) : f.IsBuiltin := by
  by_cases hreaches : session.Reaches module
  · obtain ⟨parts, hbind, -⟩ := hs.bindFunction_of_reaches hreaches type count
    rw [hbind] at h
    cases hanswer : loadedAnswer module type with
    | error e =>
      rw [hanswer] at h
      cases h
    | ok g =>
      rw [hanswer] at h
      cases h
      exact attached_isBuiltin (unattached_of_loadedAnswer hanswer) count
  · rw [hs.bindFunction_of_not_reaches hreaches] at h
    cases h

theorem Session.BuiltinOnly.isBuiltin_of_readFactor (hs : session.BuiltinOnly) {line : Nat}
    {words : List String} {factor : Factor}
    (h : session.readFactor ctx count line words = (.ok factor, session', count')) :
    factor.IsBuiltin := by
  intro f hf
  obtain ⟨module, type, params, -, hbind⟩ := request_of_readFactor h hf
  exact hs.isBuiltin_of_bindFunction hbind

theorem Reads.isBuiltin (hs : session.BuiltinOnly) {lines : List TheoryLine}
    {factors : List Factor} (h : Reads ctx session count lines factors session' count') :
    ∀ factor ∈ factors, factor.IsBuiltin := by
  induction h with
  | nil => simp
  | @cons s s₁ _ n n₁ _ line factor _ _ head _ ih =>
    have hs₁ : s₁.BuiltinOnly := by
      have hkept := Session.kept_builtinOnly.readFactor hs ctx n line.number line.tokens
      rwa [head] at hkept
    exact List.forall_mem_cons.2 ⟨hs.isBuiltin_of_readFactor head, ih hs₁⟩

theorem Theory.isBuiltin_of_build (hs : session.BuiltinOnly) {lines : List TheoryLine}
    {theory : Theory} (h : session.build ctx lines = (.ok theory, session')) :
    theory.All Factor.IsBuiltin := by
  obtain ⟨-, -, ⟨_, hreads⟩, hplus⟩ := terms_of_build h
  rw [← ofTerms_terms hplus]
  exact all_ofTerms (hreads.isBuiltin hs)

theorem Factor.Same.isBuiltin {factor factor' : Factor} (h : factor.Same factor')
    (hbuiltin : factor.IsBuiltin) : factor'.IsBuiltin := by
  intro f hf
  have hengine := h.engine
  rw [hf] at hengine
  generalize he : factor.engine = engine at hengine
  cases hengine
  exact hbuiltin f he

/-- **A built-in function** has a value for every list of values, be it empty, unless its table cannot
be read. -/
theorem UserInstance.IsBuiltin.lookup_of_none {f : UserInstance} (hf : f.IsBuiltin)
    {parts : GlobalParts} {t : Float} {val : List Float}
    (h : (f.evaluate parts t val).1 = none) : ∃ table : ExpTable, table.lookup t = none := by
  rw [evaluate] at h
  rcases hf with hf | hf
  · rw [hf] at h
    simp only [Builtin.stretchedExp, UserFunction.stateless] at h
    split_ifs at h
  · rw [hf] at h
    simp only [Builtin.tabulatedExp] at h
    split_ifs at h
    unfold Builtin.tabulatedValue at h
    split at h
    · cases h
    · split at h
      · cases h
      · exact ⟨_, h⟩

theorem Theory.Halts.lookup_of_userFunction {theory : Theory} {point : Point}
    {parts : GlobalParts} {halt : Halt} (hhalt : theory.Halts point parts halt)
    (hbuiltin : theory.All Factor.IsBuiltin) (huser : halt = .userFunction) :
    ∃ table : ExpTable, table.lookup point.t = none := by
  induction hhalt with
  | times value halts ih => exact ih hbuiltin.2.1 huser
  | plus value product halts ih => exact ih hbuiltin.2.2 huser
  | @factor factor _ _ parts _ halts =>
    subst huser
    cases halts with
    | engine references halts =>
      cases halts with
      | userFunction kind none =>
        cases hengine : factor.engine with
        | user f =>
          rw [hengine] at none
          exact (hbuiltin.1 f hengine).lookup_of_none none
        | closed form | static k | dynamic k =>
          rw [hengine] at kind
          cases kind

end Builtin

/-! ## Models -/

namespace Model

/-- A time with the values of the model. -/
def point (model : Model) (t : Float) : Point := ⟨t, model.parameterBits, model.functionBits⟩

/-- The function table may have fewer numbers than there are values, and no more. -/
theorem covers_point (model : Model) (run : Run) (t : Float) :
    (model.context run).Covers (model.point t) where
  params := by simp [context, point, parameterBits]
  funcs := by simp [context, functionTable, point, functionBits, functionValues]

end Model

/-- **Theories of a model read in range.** If the theory of a run builds, then whatever was evaluated
before, an evaluation at any time with the values of the model gives no value exactly if it stops
somewhere, and it never stops at a reference outside the parameters or the function values, nor at a
kernel that reads more values than it got. In a session with built-in functions only, a user function
stops an evaluation only where a table of exponentials cannot be read. -/
theorem evaluate_inRange (session : Session) (model : Model) :
    ∀ run ∈ model.effectiveRuns, ∀ theory session',
      session.build (model.context run) model.lines = (.ok theory, session') →
      ∀ earlier parts₀ t parts,
        (((theory.afterCalls parts₀ earlier).1.evaluate (model.point t) parts).1 = none ↔
          ∃ halt, (theory.afterCalls parts₀ earlier).1.Halts (model.point t) parts halt) ∧
        (∀ halt, (theory.afterCalls parts₀ earlier).1.Halts (model.point t) parts halt →
          ¬ halt.OutOfRange) ∧
        (session.BuiltinOnly →
          (theory.afterCalls parts₀ earlier).1.Halts (model.point t) parts .userFunction →
          ∃ table : ExpTable, table.lookup t = none) := by
  intro run _ theory session' h earlier parts₀ t parts
  have hsame := theory.same_afterCalls parts₀ earlier
  refine ⟨Theory.evaluate_eq_none_iff _ _ _, fun halt hhalt => ?_, fun hs hhalt => ?_⟩
  · have hrange := Theory.inRange_of_build (model.covers_point run t) h
    exact hhalt.not_outOfRange (hsame.all (fun _ _ hfactor => hfactor.inRange) hrange)
  · have hbuiltin := Theory.isBuiltin_of_build hs h
    exact hhalt.lookup_of_userFunction (hsame.all (fun _ _ hfactor => hfactor.isBuiltin) hbuiltin) rfl

/-- A repeated function number and a map, in front of a tabulated kernel with a time shift. -/
theorem evaluate_inRange_repeated_function :
    ∃ theory session', Session.standard.build
        (Model.context ⟨"", ["generExpo fun1 map2", "+", "sgktlf 2 map1 fun1"], [0.2, 0.3],
          [⟨1, 0.5⟩, ⟨1, 0.7⟩], [⟨"a", [2, 1, -3]⟩], .default⟩ ⟨"a", [2, 1, -3]⟩)
        (Model.lines ⟨"", ["generExpo fun1 map2", "+", "sgktlf 2 map1 fun1"], [0.2, 0.3],
          [⟨1, 0.5⟩, ⟨1, 0.7⟩], [⟨"a", [2, 1, -3]⟩], .default⟩) = (.ok theory, session') ∧
      ∀ t parts halt, theory.Halts (.ofNumbers t [0.2, 0.3] [0.5, 0.7]) parts halt → ¬ halt.OutOfRange := by
  have hok : (Session.standard.build
      (Model.context ⟨"", ["generExpo fun1 map2", "+", "sgktlf 2 map1 fun1"], [0.2, 0.3],
        [⟨1, 0.5⟩, ⟨1, 0.7⟩], [⟨"a", [2, 1, -3]⟩], .default⟩ ⟨"a", [2, 1, -3]⟩)
      (Model.lines ⟨"", ["generExpo fun1 map2", "+", "sgktlf 2 map1 fun1"], [0.2, 0.3],
        [⟨1, 0.5⟩, ⟨1, 0.7⟩], [⟨"a", [2, 1, -3]⟩], .default⟩)).1.isOk = true := by decide +kernel
  obtain ⟨theory, session', hbuild⟩ := exists_build_of_isOk hok
  refine ⟨theory, session', hbuild, fun t parts halt hhalt => ?_⟩
  refine (evaluate_inRange .standard _ ⟨"a", [2, 1, -3]⟩ ?_ theory session' hbuild
    [] parts t parts).2.1 halt hhalt
  exact List.mem_singleton_self _

end MuonSpin
