import MuonSpin.Proofs.Evaluation.Range

/-!
# Evaluation as a sum of products

* `evaluateFactors`, `evaluateTerms`: the engines of a list of factors, and of a list of terms, evaluated
  one after the other in their order, each once and with all its resolved references;
* `sumOfProducts`: products of a term's values and the sum of the products, each bracketed from the
  right, **with no other operation**;
* `Theory.evaluateInto_ofFactors`, `Theory.evaluateInto_ofTerms`: evaluating the tree of some terms is
  evaluating the terms;
* **`evaluate_eq_sumOfProducts`**: a theory that was built is the sum of products of its block.
-/

namespace MuonSpin

/-! ## Evaluating terms -/

/-- The values of factors from the first to the last, until one has none, and the factors and the shared
parts afterwards. -/
def evaluateFactors (point : Point) :
    List Factor → GlobalParts → Option (List Float) × List Factor × GlobalParts
  | [], parts => (some [], [], parts)
  | factor :: rest, parts =>
    match factor.engine.value point.t (factor.references.map point.valueOf) parts with
    | (none, engine, parts) => (none, { factor with engine } :: rest, parts)
    | (some v, engine, parts) =>
      match evaluateFactors point rest parts with
      | (none, rest, parts) => (none, { factor with engine } :: rest, parts)
      | (some values, rest, parts) => (some (v :: values), { factor with engine } :: rest, parts)

/-- The values of the factors of terms from the first to the last, until one has none, and the terms
and the shared parts afterwards. -/
def evaluateTerms (point : Point) :
    List (List Factor) → GlobalParts → Option (List (List Float)) × List (List Factor) × GlobalParts
  | [], parts => (some [], [], parts)
  | term :: rest, parts =>
    match evaluateFactors point term parts with
    | (none, term, parts) => (none, term :: rest, parts)
    | (some values, term, parts) =>
      match evaluateTerms point rest parts with
      | (none, rest, parts) => (none, term :: rest, parts)
      | (some others, rest, parts) => (some (values :: others), term :: rest, parts)

/-- The engine of the factor gives the value for its resolved references. -/
def Factor.HasValue (point : Point) (factor : Factor) (v : Float) : Prop :=
  ∃ parts, (factor.engine.value point.t (factor.references.map point.valueOf) parts).1 = some v

section Values

variable {point : Point}

theorem hasValue_of_evaluateFactors {factors : List Factor} {parts : GlobalParts}
    {values : List Float} (h : (evaluateFactors point factors parts).1 = some values) :
    List.Forall₂ (Factor.HasValue point) factors values := by
  induction factors generalizing parts values with
  | nil =>
    cases h
    exact .nil
  | cons factor rest ih =>
    unfold evaluateFactors at h
    rcases hv : factor.engine.value point.t (factor.references.map point.valueOf) parts with
      ⟨_ | v, engine, parts₁⟩
    · simp [hv] at h
    rcases hrest : evaluateFactors point rest parts₁ with ⟨_ | others, rest', parts₂⟩
    · simp [hv, hrest] at h
    · simp only [hv, hrest] at h
      cases h
      exact .cons ⟨parts, by rw [hv]⟩ (ih (by rw [hrest]))

theorem hasValue_of_evaluateTerms {terms : List (List Factor)} {parts : GlobalParts}
    {values : List (List Float)} (h : (evaluateTerms point terms parts).1 = some values) :
    List.Forall₂ (List.Forall₂ (Factor.HasValue point)) terms values := by
  induction terms generalizing parts values with
  | nil =>
    cases h
    exact .nil
  | cons term rest ih =>
    unfold evaluateTerms at h
    rcases hv : evaluateFactors point term parts with ⟨_ | factors, term', parts₁⟩
    · simp [hv] at h
    rcases hrest : evaluateTerms point rest parts₁ with ⟨_ | others, rest', parts₂⟩
    · simp [hv, hrest] at h
    · simp only [hv, hrest] at h
      cases h
      exact .cons (hasValue_of_evaluateFactors (by rw [hv])) (ih (by rw [hrest]))

end Values

/-! ## Numbers -/

/-- The numbers combined from the right, as `x₁ ∘ (x₂ ∘ (⋯ ∘ xₙ))`. -/
def combineRight (op : Float → Float → Float) : List Float → Float
  | [] => 0
  | [x] => x
  | x :: y :: rest => op x (combineRight op (y :: rest))

/-- A number in front of others, which is left alone if there are none. -/
def combineOnto (combine op : Float → Float → Float) (x : Float) (values : List Float) : Float :=
  match values with
  | [] => x
  | v :: rest => combine x (combineRight op (v :: rest))

/-- The sum of the products. -/
def sumOfProducts (values : List (List Float)) : Float :=
  combineRight (· + ·) (values.map (combineRight (· * ·)))

theorem combineRight_cons (op : Float → Float → Float) (x : Float) (values : List Float) :
    combineRight op (x :: values) = combineOnto op op x values := by
  cases values with
  | nil => rfl
  | cons v rest => rfl

theorem combineOnto_right (op : Float → Float → Float) (values : List Float) :
    combineOnto (fun _ v => v) op 0 values = combineRight op values := by
  cases values with
  | nil => rfl
  | cons v rest => rfl

/-! ## Trees -/

namespace Theory

variable {point : Point}

/-- **The factors of a term** are evaluated one after the other and multiplied. -/
theorem evaluateInto_ofFactors {factors : List Factor}
    (h : ∀ factor ∈ factors, ∀ r ∈ factor.references, r.InRange point)
    (combine : Float → Float → Float) (x : Float) (parts : GlobalParts) :
    (ofFactors nil factors).evaluateInto point combine x parts =
      ((evaluateFactors point factors parts).1.map (combineOnto combine (· * ·) x),
        ofFactors nil (evaluateFactors point factors parts).2.1,
        (evaluateFactors point factors parts).2.2) := by
  induction factors generalizing combine x parts with
  | nil => rfl
  | cons factor rest ih =>
    obtain ⟨hfactor, hrest⟩ := List.forall_mem_cons.1 h
    simp only [ofFactors, evaluateInto, evaluateFactors, Factor.value_of_inRange hfactor]
    rcases factor.engine.value point.t (factor.references.map point.valueOf) parts with
      ⟨_ | v, engine, parts₁⟩
    · rfl
    simp only [ih hrest]
    rcases evaluateFactors point rest parts₁ with ⟨_ | values, rest', parts₂⟩
    · rfl
    -- the product of the rest, with this factor in front, is the product of the term
    · simp only [Option.map_some, ← combineRight_cons]
      rfl

/-- **The terms** are evaluated one after the other and added. -/
theorem evaluateInto_ofTerms {terms : List (List Factor)} (hne : ∀ term ∈ terms, term ≠ [])
    (h : ∀ term ∈ terms, ∀ factor ∈ term, ∀ r ∈ factor.references, r.InRange point)
    (combine : Float → Float → Float) (x : Float) (parts : GlobalParts) :
    (ofTerms terms).evaluateInto point combine x parts =
      ((evaluateTerms point terms parts).1.map fun values =>
          combineOnto combine (· + ·) x (values.map (combineRight (· * ·))),
        ofTerms (evaluateTerms point terms parts).2.1, (evaluateTerms point terms parts).2.2) := by
  induction terms generalizing combine x parts with
  | nil => rfl
  | cons term terms ih =>
    obtain ⟨hterm, hterms⟩ := List.forall_mem_cons.1 h
    obtain ⟨hfull, hfulls⟩ := List.forall_mem_cons.1 hne
    obtain ⟨factor, rest, rfl⟩ := List.exists_cons_of_ne_nil hfull
    obtain ⟨hfactor, hrest⟩ := List.forall_mem_cons.1 hterm
    have hfold : ∀ (factor : Factor) (rest : List Factor) (terms : List (List Factor)),
        ofTerms ((factor :: rest) :: terms) = node factor (ofFactors nil rest) (ofTerms terms) :=
      fun _ _ _ => rfl
    rw [hfold]
    simp only [evaluateInto, evaluateTerms, evaluateFactors, Factor.value_of_inRange hfactor]
    rcases factor.engine.value point.t (factor.references.map point.valueOf) parts with
      ⟨_ | v, engine, parts₁⟩
    · rfl
    simp only [evaluateInto_ofFactors hrest]
    rcases evaluateFactors point rest parts₁ with ⟨_ | values, rest', parts₂⟩
    · rfl
    simp only [Option.map_some, ← combineRight_cons, ih hfulls hterms]
    rcases evaluateTerms point terms parts₂ with ⟨_ | others, terms', parts₃⟩
    · rfl
    -- the sum of the next terms, with this product in front, is the sum of all terms
    · simp only [Option.map_some]
      rfl

theorem terms_ne_nil (theory : Theory) : ∀ term ∈ theory.terms, term ≠ [] := by
  induction theory with
  | nil => simp [terms]
  | node factor times plus _ ihplus =>
    exact List.forall_mem_cons.2 ⟨List.cons_ne_nil _ _, ihplus⟩

/-- The point has a value for every reference of the theory. -/
def Covered (theory : Theory) (point : Point) : Prop :=
  theory.All fun factor => ∀ r ∈ factor.references, r.InRange point

theorem Same.covered {theory theory' : Theory} (h : theory.Same theory')
    (hcovered : theory.Covered point) : theory'.Covered point := by
  refine h.all (fun factor factor' hfactor hrange => ?_) hcovered
  rw [hfactor.references]
  exact hrange

theorem evaluate_of_covered {theory : Theory} (hplus : theory.PlusOnHeads)
    (hcovered : theory.Covered point) (parts : GlobalParts) :
    theory.evaluate point parts =
      ((evaluateTerms point theory.terms parts).1.map sumOfProducts,
        ofTerms (evaluateTerms point theory.terms parts).2.1,
        (evaluateTerms point theory.terms parts).2.2) := by
  have hterms := evaluateInto_ofTerms theory.terms_ne_nil hcovered.terms (fun _ v => v) 0 parts
  rw [ofTerms_terms hplus] at hterms
  rw [evaluate, hterms]
  congr 2
  funext values
  exact combineOnto_right _ _

end Theory

/-- **A theory is the sum of products of its block.** Take a theory that was built, at a point with a
value for every reference, whatever was evaluated before. Its terms are the groups of the block, line by
line. An evaluation evaluates the kernels of all factors from the first to the last, each once and for
the list of its resolved references, and combines the values to the sum of the products, bracketed from
the right; it stops early only where a kernel has no value. -/
theorem evaluate_eq_sumOfProducts {session session' : Session} {ctx : BuildContext}
    {lines : List TheoryLine} {theory : Theory}
    (h : session.build ctx lines = (.ok theory, session')) {point : Point}
    (hcovered : theory.Covered point) (earlier : List Point) (parts₀ parts : GlobalParts) :
    List.Forall₂ (List.Forall₂ (TheoryLine.Gives ctx)) (termGroups lines)
        (theory.afterCalls parts₀ earlier).1.terms ∧
      (theory.afterCalls parts₀ earlier).1.evaluate point parts =
        ((evaluateTerms point (theory.afterCalls parts₀ earlier).1.terms parts).1.map sumOfProducts,
          .ofTerms (evaluateTerms point (theory.afterCalls parts₀ earlier).1.terms parts).2.1,
          (evaluateTerms point (theory.afterCalls parts₀ earlier).1.terms parts).2.2) ∧
      ∀ values, (evaluateTerms point (theory.afterCalls parts₀ earlier).1.terms parts).1 =
          some values →
        List.Forall₂ (List.Forall₂ (Factor.HasValue point))
          (theory.afterCalls parts₀ earlier).1.terms values := by
  obtain ⟨-, hgives, -, hplus⟩ := terms_of_build h
  have hsame := theory.same_afterCalls parts₀ earlier
  refine ⟨hsame.gives_terms hgives, ?_, fun values hvalues => hasValue_of_evaluateTerms hvalues⟩
  exact Theory.evaluate_of_covered (hsame.plusOnHeads hplus) (hsame.covered hcovered) parts

/-- Two terms, of which the second has more references than fit into the buffer. -/
theorem evaluate_eq_sumOfProducts_polynomial :
    ∃ theory session', Session.standard.build ⟨2, [], ⟨[4]⟩⟩
        [⟨1, "asymmetry 1"⟩, ⟨2, "simplExpo fun4"⟩, ⟨3, "+"⟩, ⟨4, "polynom 1 2 1 2 1 2 1 2 1"⟩] =
        (.ok theory, session') ∧
      theory.Covered (.ofNumbers 0.5 [0.0, 0.3] [0.2]) ∧
      ∀ parts, (theory.evaluate (.ofNumbers 0.5 [0.0, 0.3] [0.2]) parts).1 =
        (evaluateTerms (.ofNumbers 0.5 [0.0, 0.3] [0.2]) theory.terms parts).1.map sumOfProducts := by
  have hok : (Session.standard.build ⟨2, [], ⟨[4]⟩⟩ [⟨1, "asymmetry 1"⟩, ⟨2, "simplExpo fun4"⟩,
      ⟨3, "+"⟩, ⟨4, "polynom 1 2 1 2 1 2 1 2 1"⟩]).1.isOk = true := by decide +kernel
  obtain ⟨theory, session', hbuild⟩ := exists_build_of_isOk hok
  have hcovers : BuildContext.Covers ⟨2, [], ⟨[4]⟩⟩ (.ofNumbers 0.5 [0.0, 0.3] [0.2]) :=
    ⟨Nat.le_refl 2, Nat.le_refl 1⟩
  have hcovered : theory.Covered (.ofNumbers 0.5 [0.0, 0.3] [0.2]) :=
    (Theory.inRange_of_build hcovers hbuild).imp fun _ hfactor => hfactor.references
  refine ⟨theory, session', hbuild, hcovered, fun parts => ?_⟩
  exact congrArg Prod.fst (evaluate_eq_sumOfProducts hbuild hcovered [] parts parts).2.1

end MuonSpin
