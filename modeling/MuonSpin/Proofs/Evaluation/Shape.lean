import MuonSpin.Proofs.Block.Groups

/-!
# What evaluations leave alone

An evaluation, also one that has to stop, changes memos and shared parts and nothing else.

* `Factor.Same`, `Theory.Same`: the same lines, references, kernels and user functions, whatever is in
  the memos; `Theory.same_evaluateInto`: this is what an evaluation leaves;
* `Theory.afterCalls`: a theory after several evaluations, which **is the same theory**
  (`Theory.same_afterCalls`);
* `Theory.Same.terms`, `Theory.Same.plusOnHeads`: it has the same terms and the same links.
-/

namespace MuonSpin

/-! ## Factors -/

theorem StaticKernel.family_value (kernel : StaticKernel) (t : Float) (val : List UInt64) :
    (kernel.value t val).2.family = kernel.family := by
  unfold StaticKernel.value
  split <;> rfl

theorem DynamicKernel.family_value (kernel : DynamicKernel) (t : Float) (val : List UInt64) :
    (kernel.value t val).2.family = kernel.family := by
  unfold DynamicKernel.value
  split <;> rfl

/-- The same kernel with the same user function. -/
inductive Engine.Same : Engine → Engine → Prop
  | closed (form : ClosedForm) : Same (.closed form) (.closed form)
  | static {k k' : StaticKernel} (family : k'.family = k.family) : Same (.static k) (.static k')
  | dynamic {k k' : DynamicKernel} (family : k'.family = k.family) : Same (.dynamic k) (.dynamic k')
  | user (f : UserInstance) : Same (.user f) (.user f)

namespace Engine

variable {engine engine' engine'' : Engine}

theorem Same.refl (engine : Engine) : engine.Same engine := by
  cases engine with
  | closed form => exact .closed form
  | static k => exact .static rfl
  | dynamic k => exact .dynamic rfl
  | user f => exact .user f

theorem Same.trans (h : engine.Same engine') (h' : engine'.Same engine'') :
    engine.Same engine'' := by
  cases h with
  | closed form => exact h'
  | static family =>
    cases h' with
    | static family' => exact .static (family'.trans family)
  | dynamic family =>
    cases h' with
    | dynamic family' => exact .dynamic (family'.trans family)
  | user f => exact h'

theorem Same.kernel (h : engine.Same engine') : engine'.kernel = engine.kernel := by
  cases h with
  | closed form => rfl
  | static family => exact congrArg Kernel.static family
  | dynamic family => exact congrArg Kernel.dynamic family
  | user f => rfl

theorem same_value (engine : Engine) (t : Float) (val : List UInt64) (parts : GlobalParts) :
    engine.Same (engine.value t val parts).2.1 := by
  cases engine with
  | closed form => exact .closed form
  | static k => exact .static (k.family_value t val)
  | dynamic k => exact .dynamic (k.family_value t val)
  | user f => exact .user f

end Engine

/-- A factor of the same line. -/
structure Factor.Same (factor factor' : Factor) : Prop where
  line : factor'.line = factor.line
  references : factor'.references = factor.references
  engine : factor.engine.Same factor'.engine

namespace Factor

variable {factor factor' factor'' : Factor}

theorem Same.refl (factor : Factor) : factor.Same factor := ⟨rfl, rfl, .refl _⟩

theorem Same.trans (h : factor.Same factor') (h' : factor'.Same factor'') :
    factor.Same factor'' :=
  ⟨h'.line.trans h.line, h'.references.trans h.references, h.engine.trans h'.engine⟩

theorem Same.kernel (h : factor.Same factor') : factor'.kernel = factor.kernel := h.engine.kernel

theorem Same.gives {ctx : BuildContext} {line : TheoryLine} (h : factor.Same factor')
    (hgives : line.Gives ctx factor) : line.Gives ctx factor' := by
  refine ⟨h.line.trans hgives.number, ?_, ?_⟩
  · rw [h.kernel, hgives.kernel]
  · rw [h.kernel, h.references, hgives.references]

theorem same_value (factor : Factor) (point : Point) (parts : GlobalParts) :
    factor.Same (factor.value point parts).2.1 := by
  unfold Factor.value
  cases factor.resolve? point with
  | none => exact .refl factor
  | some val => exact ⟨rfl, rfl, factor.engine.same_value point.t val parts⟩

end Factor

theorem forall₂_trans {α β γ : Type} {R : α → β → Prop} {S : β → γ → Prop} {T : α → γ → Prop}
    (h : ∀ a b c, R a b → S b c → T a c) {as : List α} {bs : List β} {cs : List γ}
    (hR : List.Forall₂ R as bs) (hS : List.Forall₂ S bs cs) : List.Forall₂ T as cs := by
  induction hR generalizing cs with
  | nil =>
    cases hS
    exact .nil
  | cons head _ ih =>
    cases hS with
    | cons head' tail' => exact .cons (h _ _ _ head head') (ih tail')

/-! ## Trees -/

namespace Theory

/-- A tree of factors of the same lines, linked in the same way. -/
inductive Same : Theory → Theory → Prop
  | nil : Same .nil .nil
  | node {factor factor' : Factor} {times times' plus plus' : Theory} (head : factor.Same factor')
      (product : Same times times') (sum : Same plus plus') :
      Same (.node factor times plus) (.node factor' times' plus')

variable {theory theory' theory'' : Theory}

theorem Same.refl (theory : Theory) : theory.Same theory := by
  induction theory with
  | nil => exact .nil
  | node factor times plus ihtimes ihplus => exact .node (.refl factor) ihtimes ihplus

theorem Same.trans (h : theory.Same theory') (h' : theory'.Same theory'') :
    theory.Same theory'' := by
  induction h generalizing theory'' with
  | nil => exact h'
  | node head _ _ ihproduct ihsum =>
    cases h' with
    | node head' product' sum' =>
      exact .node (head.trans head') (ihproduct product') (ihsum sum')

/-- **An evaluation leaves the same tree**, also if it has to stop. -/
theorem same_evaluateInto (theory : Theory) (point : Point) (combine : Float → Float → Float)
    (x : Float) (parts : GlobalParts) :
    theory.Same (theory.evaluateInto point combine x parts).2.1 := by
  induction theory generalizing combine x parts with
  | nil => exact .nil
  | node factor times plus ihtimes ihplus =>
    simp only [evaluateInto]
    have hfactor := factor.same_value point parts
    rcases hv : factor.value point parts with ⟨_ | v, factor', parts₁⟩ <;> rw [hv] at hfactor
    · exact .node hfactor (.refl times) (.refl plus)
    have htimes := ihtimes (· * ·) v parts₁
    simp only
    rcases hw : times.evaluateInto point (· * ·) v parts₁ with ⟨_ | w, times', parts₂⟩ <;>
      rw [hw] at htimes
    · exact .node hfactor htimes (.refl plus)
    have hplus := ihplus (· + ·) w parts₂
    simp only
    rcases hy : plus.evaluateInto point (· + ·) w parts₂ with ⟨_ | y, plus', parts₃⟩ <;>
      rw [hy] at hplus <;> exact .node hfactor htimes hplus

/-- The theory and the shared parts after evaluations at several points, whether or not they had to
stop. -/
def afterCalls (theory : Theory) (parts : GlobalParts) : List Point → Theory × GlobalParts
  | [] => (theory, parts)
  | point :: points =>
    let (_, theory, parts) := theory.evaluate point parts
    theory.afterCalls parts points

theorem same_afterCalls (theory : Theory) (parts : GlobalParts) (points : List Point) :
    theory.Same (theory.afterCalls parts points).1 := by
  induction points generalizing theory parts with
  | nil => exact .refl theory
  | cons point points ih =>
    have hcall : theory.Same (theory.evaluate point parts).2.1 :=
      theory.same_evaluateInto point _ 0 parts
    exact hcall.trans (ih _ _)

theorem Same.factors (h : theory.Same theory') :
    List.Forall₂ Factor.Same theory.factors theory'.factors := by
  induction h with
  | nil => exact .nil
  | node head _ _ ihproduct _ => exact .cons head ihproduct

theorem Same.terms (h : theory.Same theory') :
    List.Forall₂ (List.Forall₂ Factor.Same) theory.terms theory'.terms := by
  induction h with
  | nil => exact .nil
  | node head product _ _ ihsum => exact .cons (.cons head product.factors) ihsum

theorem Same.gives_terms {ctx : BuildContext} {groups : List (List TheoryLine)}
    (h : theory.Same theory')
    (hgives : List.Forall₂ (List.Forall₂ (TheoryLine.Gives ctx)) groups theory.terms) :
    List.Forall₂ (List.Forall₂ (TheoryLine.Gives ctx)) groups theory'.terms := by
  refine forall₂_trans (fun group term term' hgroup hterm => ?_) hgives h.terms
  exact forall₂_trans (fun line factor factor' hline hfactor => hfactor.gives hline) hgroup hterm

theorem Same.withoutPlus (h : theory.Same theory') (hplus : theory.WithoutPlus) :
    theory'.WithoutPlus := by
  induction h with
  | nil => trivial
  | node _ _ sum ihproduct _ =>
    obtain ⟨htimes, rfl⟩ := hplus
    cases sum
    exact ⟨ihproduct htimes, rfl⟩

theorem Same.plusOnHeads (h : theory.Same theory') (hplus : theory.PlusOnHeads) :
    theory'.PlusOnHeads := by
  induction h with
  | nil => trivial
  | node _ product _ _ ihsum => exact ⟨product.withoutPlus hplus.1, ihsum hplus.2⟩

/-! ## Properties of all factors -/

/-- All factors of the tree have the property. -/
def All (P : Factor → Prop) : Theory → Prop
  | nil => True
  | node factor times plus => P factor ∧ times.All P ∧ plus.All P

variable {P : Factor → Prop}

theorem all_ofFactors {term : List Factor} {plus : Theory} (h : ∀ factor ∈ term, P factor)
    (hplus : plus.All P) : (ofFactors plus term).All P := by
  induction term generalizing plus with
  | nil => trivial
  | cons factor term ih =>
    obtain ⟨hfactor, hterm⟩ := List.forall_mem_cons.1 h
    exact ⟨hfactor, ih hterm trivial, hplus⟩

theorem all_ofTerms {terms : List (List Factor)} (h : ∀ factor ∈ terms.flatten, P factor) :
    (ofTerms terms).All P := by
  induction terms with
  | nil => trivial
  | cons term terms ih =>
    rw [List.flatten_cons, List.forall_mem_append] at h
    exact all_ofFactors h.1 (ih h.2)

theorem all_of_build {ctx : BuildContext} {session session' : Session} {lines : List TheoryLine}
    (h : session.build ctx lines = (.ok theory, session'))
    (hread : ∀ (session : Session) count (line : TheoryLine) factor session' count',
      session.readFactor ctx count line.number line.tokens = (.ok factor, session', count') →
        P factor) : theory.All P := by
  obtain ⟨-, -, ⟨_, hreads⟩, hplus⟩ := terms_of_build h
  rw [← ofTerms_terms hplus]
  exact all_ofTerms (hreads.forall_mem hread)

theorem All.imp {Q : Factor → Prop} (h : theory.All P) (himp : ∀ factor, P factor → Q factor) :
    theory.All Q := by
  induction theory with
  | nil => trivial
  | node factor times plus ihtimes ihplus =>
    exact ⟨himp factor h.1, ihtimes h.2.1, ihplus h.2.2⟩

theorem All.factors (h : theory.All P) : ∀ factor ∈ theory.factors, P factor := by
  induction theory with
  | nil => simp [Theory.factors]
  | node factor times plus ihtimes _ => exact List.forall_mem_cons.2 ⟨h.1, ihtimes h.2.1⟩

theorem All.terms (h : theory.All P) : ∀ term ∈ theory.terms, ∀ factor ∈ term, P factor := by
  induction theory with
  | nil => simp [Theory.terms]
  | node factor times plus _ ihplus =>
    exact List.forall_mem_cons.2 ⟨List.forall_mem_cons.2 ⟨h.1, h.2.1.factors⟩, ihplus h.2.2⟩

theorem Same.all (h : theory.Same theory') (hsame : ∀ factor factor', factor.Same factor' →
    P factor → P factor') (hall : theory.All P) : theory'.All P := by
  induction h with
  | nil => trivial
  | node head _ _ ihproduct ihsum =>
    exact ⟨hsame _ _ head hall.1, ihproduct hall.2.1, ihsum hall.2.2⟩

end Theory

end MuonSpin
