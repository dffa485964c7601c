import MuonSpin.Proofs.Block.Groups
import MuonSpin.Proofs.Evaluation.Memo

/-!
# Repeated evaluation

A theory is evaluated again and again, and its memos and the shared parts are carried on, also from
evaluations that had to stop. User functions are functions of time and parameters as long as the
shared parts satisfy an invariant.

* `UserInstance.Computes`: an instance computes a function of time and parameters;
* `Theory.Matches`: two trees of the same factors, whose memos are sound and may differ;
  **`Theory.Matches.evaluateInto`**: they have the same value, and match afterwards;
* `matches_of_build`: theories built from the same block match;
* **`evaluateCalls_eq_fresh`**: every call gives what it gives on a theory built anew.
-/

namespace MuonSpin

variable {inv : GlobalParts → Prop}

/-! ## Engines -/

/-- As long as the invariant holds, which an evaluation keeps, the instance computes a function of
time and parameters. -/
def UserInstance.Computes (inv : GlobalParts → Prop) (u : UserInstance)
    (f : Float → List Float → Option Float) : Prop :=
  ∀ parts, inv parts → ∀ t val,
    (u.evaluate parts t val).1 = f t val ∧ inv (u.evaluate parts t val).2

/-- Engines of the same kernel, whose memos are sound and may differ. -/
inductive Engine.Matches (inv : GlobalParts → Prop) : Engine → Engine → Prop
  | closed {form : ClosedForm} : Matches inv (.closed form) (.closed form)
  | static {k k' : StaticKernel} (family : k.family = k'.family) (left : k.Sound)
      (right : k'.Sound) : Matches inv (.static k) (.static k')
  | dynamic {k k' : DynamicKernel} (family : k.family = k'.family) (left : k.Sound)
      (right : k'.Sound) : Matches inv (.dynamic k) (.dynamic k')
  | user {u u' : UserInstance} {f : Float → List Float → Option Float} (left : u.Computes inv f)
      (right : u'.Computes inv f) : Matches inv (.user u) (.user u')

theorem Engine.Matches.value {e e' : Engine} (h : e.Matches inv e') {parts parts' : GlobalParts}
    (hparts : inv parts) (hparts' : inv parts') (t : Float) (val : List UInt64) :
    (e.value t val parts).1 = (e'.value t val parts').1 ∧
      (e.value t val parts).2.1.Matches inv e' ∧
      inv (e.value t val parts).2.2 ∧ inv (e'.value t val parts').2.2 := by
  cases h with
  | closed => exact ⟨rfl, .closed, hparts, hparts'⟩
  | static family left right =>
    obtain ⟨hv, hf, hs⟩ := StaticKernel.value_sound left t val
    obtain ⟨hv', -, -⟩ := StaticKernel.value_sound right t val
    rw [← family] at hv'
    exact ⟨hv.trans hv'.symm, .static (hf.trans family) hs right, hparts, hparts'⟩
  | dynamic family left right =>
    obtain ⟨hv, hf, hs⟩ := DynamicKernel.value_sound left t val
    obtain ⟨hv', -, -⟩ := DynamicKernel.value_sound right t val
    rw [← family] at hv'
    exact ⟨hv.trans hv'.symm, .dynamic (hf.trans family) hs right, hparts, hparts'⟩
  | user left right =>
    obtain ⟨hv, hinv⟩ := left _ hparts t (numbers val)
    obtain ⟨hv', hinv'⟩ := right _ hparts' t (numbers val)
    exact ⟨hv.trans hv'.symm, .user left right, hinv, hinv'⟩

/-! ## Factors and trees -/

/-- Factors with the same references, whose engines match. -/
structure Factor.Matches (inv : GlobalParts → Prop) (factor factor' : Factor) : Prop where
  references : factor.references = factor'.references
  engine : factor.engine.Matches inv factor'.engine

theorem Factor.Matches.value {factor factor' : Factor} (h : factor.Matches inv factor')
    {parts parts' : GlobalParts} (hparts : inv parts) (hparts' : inv parts') (point : Point) :
    (factor.value point parts).1 = (factor'.value point parts').1 ∧
      (factor.value point parts).2.1.Matches inv factor' ∧
      inv (factor.value point parts).2.2 ∧ inv (factor'.value point parts').2.2 := by
  have hresolve : factor.resolve? point = factor'.resolve? point := by
    rw [resolve?, resolve?, h.references]
  unfold Factor.value
  rw [← hresolve]
  cases factor.resolve? point with
  | none =>
    exact ⟨rfl, h, hparts, hparts'⟩
  | some val =>
    obtain ⟨hv, he, hp, hp'⟩ := h.engine.value hparts hparts' point.t val
    exact ⟨hv, ⟨h.references, he⟩, hp, hp'⟩

namespace Theory

/-- Trees of the same shape, whose factors match. -/
inductive Matches (inv : GlobalParts → Prop) : Theory → Theory → Prop
  | nil : Matches inv .nil .nil
  | node {factor factor' : Factor} {times times' plus plus' : Theory}
      (head : factor.Matches inv factor') (product : Matches inv times times')
      (sum : Matches inv plus plus') :
      Matches inv (.node factor times plus) (.node factor' times' plus')

/-- **Trees that match** have the same value, whatever their memos and the shared parts are, and the
tree that an evaluation leaves still matches. -/
theorem Matches.evaluateInto {theory theory' : Theory} (h : theory.Matches inv theory')
    (point : Point) (combine : Float → Float → Float) (x : Float) {parts parts' : GlobalParts}
    (hparts : inv parts) (hparts' : inv parts') :
    (theory.evaluateInto point combine x parts).1 =
        (theory'.evaluateInto point combine x parts').1 ∧
      (theory.evaluateInto point combine x parts).2.1.Matches inv theory' ∧
      inv (theory.evaluateInto point combine x parts).2.2 ∧
      inv (theory'.evaluateInto point combine x parts').2.2 := by
  induction h generalizing combine x parts parts' with
  | nil => exact ⟨rfl, .nil, hparts, hparts'⟩
  | @node f f' times times' plus plus' hf ht hp iht ihp =>
    have hfv := hf.value hparts hparts' point
    simp only [Theory.evaluateInto]
    rcases hv : f.value point parts with ⟨v, f₁, parts₁⟩
    rcases hv' : f'.value point parts' with ⟨v', f₁', parts₁'⟩
    rw [hv, hv'] at hfv
    obtain ⟨rfl, hf₁, hparts₁, hparts₁'⟩ := hfv
    rcases v with _ | v
    · exact ⟨rfl, .node hf₁ ht hp, hparts₁, hparts₁'⟩
    · have htv := iht (· * ·) v hparts₁ hparts₁'
      simp only
      rcases hw : times.evaluateInto point (· * ·) v parts₁ with ⟨w, times₁, parts₂⟩
      rcases hw' : times'.evaluateInto point (· * ·) v parts₁' with ⟨w', times₁', parts₂'⟩
      rw [hw, hw'] at htv
      obtain ⟨rfl, ht₁, hparts₂, hparts₂'⟩ := htv
      rcases w with _ | w
      · exact ⟨rfl, .node hf₁ ht₁ hp, hparts₂, hparts₂'⟩
      · have hpv := ihp (· + ·) w hparts₂ hparts₂'
        simp only
        rcases hy : plus.evaluateInto point (· + ·) w parts₂ with ⟨y, plus₁, parts₃⟩
        rcases hy' : plus'.evaluateInto point (· + ·) w parts₂' with ⟨y', plus₁', parts₃'⟩
        rw [hy, hy'] at hpv
        obtain ⟨rfl, hp₁, hparts₃, hparts₃'⟩ := hpv
        rcases y with _ | y
        · exact ⟨rfl, .node hf₁ ht₁ hp₁, hparts₃, hparts₃'⟩
        · exact ⟨rfl, .node hf₁ ht₁ hp₁, hparts₃, hparts₃'⟩

theorem matches_ofFactors {term term' : List Factor} {plus plus' : Theory}
    (h : List.Forall₂ (Factor.Matches inv) term term') (hplus : plus.Matches inv plus') :
    (ofFactors plus term).Matches inv (ofFactors plus' term') := by
  induction h generalizing plus plus' with
  | nil => exact .nil
  | cons head _ ih => exact .node head (ih .nil) hplus

theorem matches_ofTerms {terms terms' : List (List Factor)}
    (h : List.Forall₂ (List.Forall₂ (Factor.Matches inv)) terms terms') :
    (ofTerms terms).Matches inv (ofTerms terms') := by
  induction h with
  | nil => exact .nil
  | cons head _ ih => exact matches_ofFactors head ih

end Theory

/-! ## Theories of the same block -/

/-- If both factors are user functions, they compute the same function of time and parameters. -/
def Factor.SameFunction (inv : GlobalParts → Prop) (factor factor' : Factor) : Prop :=
  ∀ u u', factor.engine = .user u → factor'.engine = .user u' →
    ∃ f, u.Computes inv f ∧ u'.Computes inv f

theorem Factor.sameFunction_of_ne {factor factor' : Factor} (h : factor.kernel ≠ .user) :
    factor.SameFunction inv factor' := by
  intro u u' hu _
  refine absurd ?_ h
  rw [Factor.kernel, hu]
  rfl

/-- The memo of the engine, if it has one, is sound. -/
def Engine.Sound : Engine → Prop
  | closed _ | user _ => True
  | static k => k.Sound
  | dynamic k => k.Sound

section Sound

variable {session session' : Session} {ctx : BuildContext} {count count' : Nat}

theorem Session.sound_of_readEngine {kernel : Kernel} {words params : List String}
    {engine : Engine}
    (h : session.readEngine count kernel words = (.ok (engine, params), session', count')) :
    engine.Sound := by
  cases kernel with
  | closed form | static family | dynamic family =>
    simp only [readEngine] at h
    split_ifs at h
    · cases h
      first | trivial | exact Memo.sound_empty
    · cases h
  | user =>
    obtain ⟨hkernel, -⟩ := kernel_of_readEngine h
    cases engine with
    | user u => trivial
    | closed form | static k | dynamic k => cases hkernel

theorem Session.sound_of_readFactor {number : Nat} {words : List String} {factor : Factor}
    (h : session.readFactor ctx count number words = (.ok factor, session', count')) :
    factor.engine.Sound := by
  obtain ⟨_, _, -, hengine, -, -⟩ := readFactor_ok h
  exact sound_of_readEngine hengine

theorem Reads.sound {lines : List TheoryLine} {factors : List Factor}
    (h : Reads ctx session count lines factors session' count') :
    ∀ factor ∈ factors, factor.engine.Sound :=
  h.forall_mem fun _ _ _ _ _ _ => Session.sound_of_readFactor

end Sound

theorem Engine.Sound.matches {e e' : Engine} (h : e.Sound) (h' : e'.Sound)
    (hkernel : e.kernel = e'.kernel)
    (huser : ∀ u u', e = .user u → e' = .user u' → ∃ f, u.Computes inv f ∧ u'.Computes inv f) :
    e.Matches inv e' := by
  cases e with
  | closed form =>
    cases e' with
    | closed form' =>
      cases hkernel
      exact .closed
    | static k' | dynamic k' | user u' => cases hkernel
  | static k =>
    cases e' with
    | static k' => exact .static (Kernel.static.inj hkernel) h h'
    | closed form' | dynamic k' | user u' => cases hkernel
  | dynamic k =>
    cases e' with
    | dynamic k' => exact .dynamic (Kernel.dynamic.inj hkernel) h h'
    | closed form' | static k' | user u' => cases hkernel
  | user u =>
    cases e' with
    | user u' =>
      obtain ⟨f, hf, hf'⟩ := huser u u' rfl rfl
      exact .user hf hf'
    | closed form' | static k' | dynamic k' => cases hkernel

theorem TheoryLine.Gives.matches {ctx : BuildContext} {line : TheoryLine} {factor factor' : Factor}
    (h : line.Gives ctx factor) (h' : line.Gives ctx factor') (hs : factor.engine.Sound)
    (hs' : factor'.engine.Sound) (hsame : factor.SameFunction inv factor') :
    factor.Matches inv factor' := by
  have hkernel : factor.kernel = factor'.kernel :=
    Option.some.inj (h.kernel.symm.trans h'.kernel)
  have href := h.references
  rw [hkernel, h'.references] at href
  exact ⟨(Except.ok.inj href).symm, hs.matches hs' hkernel hsame⟩

/-- What holds of two elements made from the same one holds of two lists made from the same list. -/
theorem forall₂_of_common {α β : Type} {R : α → β → Prop} {P : β → Prop} {S T : β → β → Prop}
    (hT : ∀ a b b', R a b → R a b' → P b → P b' → S b b' → T b b') {as : List α}
    {bs bs' : List β} (h : List.Forall₂ R as bs) (h' : List.Forall₂ R as bs')
    (hP : ∀ b ∈ bs, P b) (hP' : ∀ b ∈ bs', P b) (hS : List.Forall₂ S bs bs') :
    List.Forall₂ T bs bs' := by
  induction h generalizing bs' with
  | nil =>
    cases h'
    exact .nil
  | cons head _ ih =>
    rcases h' with _ | ⟨head', tail'⟩
    rcases hS with _ | ⟨hs, hS⟩
    obtain ⟨hp, hP⟩ := List.forall_mem_cons.1 hP
    obtain ⟨hp', hP'⟩ := List.forall_mem_cons.1 hP'
    exact .cons (hT _ _ _ head head' hp hp' hs) (ih tail' hP hP' hS)

/-- **Theories of the same block match** if their user functions compute the same functions. -/
theorem matches_of_build {session session₂ session' session₂' : Session} {ctx : BuildContext}
    {lines : List TheoryLine} {theory theory₂ : Theory}
    (h : session.build ctx lines = (.ok theory, session'))
    (h₂ : session₂.build ctx lines = (.ok theory₂, session₂'))
    (hsame : List.Forall₂ (List.Forall₂ (Factor.SameFunction inv)) theory.terms theory₂.terms) :
    theory.Matches inv theory₂ := by
  obtain ⟨-, hgives, ⟨count, hreads⟩, hplus⟩ := terms_of_build h
  obtain ⟨-, hgives₂, ⟨count₂, hreads₂⟩, hplus₂⟩ := terms_of_build h₂
  rw [← Theory.ofTerms_terms hplus, ← Theory.ofTerms_terms hplus₂]
  have hsound : ∀ term ∈ theory.terms, ∀ factor ∈ term, factor.engine.Sound :=
    fun term hterm factor hfactor => hreads.sound factor (List.mem_flatten_of_mem hterm hfactor)
  have hsound₂ : ∀ term ∈ theory₂.terms, ∀ factor ∈ term, factor.engine.Sound :=
    fun term hterm factor hfactor => hreads₂.sound factor (List.mem_flatten_of_mem hterm hfactor)
  have hterm : ∀ {group : List TheoryLine} {term term₂ : List Factor},
      List.Forall₂ (TheoryLine.Gives ctx) group term →
      List.Forall₂ (TheoryLine.Gives ctx) group term₂ →
      (∀ factor ∈ term, factor.engine.Sound) → (∀ factor ∈ term₂, factor.engine.Sound) →
      List.Forall₂ (Factor.SameFunction inv) term term₂ →
      List.Forall₂ (Factor.Matches inv) term term₂ :=
    forall₂_of_common (P := fun factor : Factor => factor.engine.Sound)
      fun _ _ _ hg hg₂ hs hs₂ => hg.matches hg₂ hs hs₂
  exact Theory.matches_ofTerms (forall₂_of_common
    (R := List.Forall₂ (TheoryLine.Gives ctx))
    (P := fun term => ∀ factor ∈ term, factor.engine.Sound)
    (fun _ _ _ => hterm) hgives hgives₂ hsound hsound₂ hsame)

/-! ## Calls -/

/-- The values of calls one after the other, each on the theory and the shared parts that the ones
before it leave. -/
def Theory.evaluateCalls (theory : Theory) (parts : GlobalParts) : List Point → List (Option Float)
  | [] => []
  | point :: points =>
    let (v, theory, parts) := theory.evaluate point parts
    v :: theory.evaluateCalls parts points

theorem Theory.Matches.evaluateCalls {theory theory' : Theory} (h : theory.Matches inv theory')
    {parts parts' : GlobalParts} (hparts : inv parts) (hparts' : inv parts')
    (points : List Point) :
    theory.evaluateCalls parts points =
      points.map fun point => (theory'.evaluate point parts').1 := by
  induction points generalizing theory parts with
  | nil => rfl
  | cons point points ih =>
    obtain ⟨hv, hmatches, hinv, -⟩ :=
      h.evaluateInto point (fun _ v => v) 0 hparts hparts'
    rw [Theory.evaluateCalls, List.map_cons]
    exact congrArg₂ List.cons hv (ih hmatches hinv)

/-- **Memos do not show in values.** Whatever calls were made before, with whatever numbers and
whether they had to stop or not, a call gives what it gives on a theory built anew from the same
block. -/
theorem evaluateCalls_eq_fresh (inv : GlobalParts → Prop)
    {session session₂ session' session₂' : Session} {ctx : BuildContext}
    {lines : List TheoryLine} {theory fresh : Theory}
    (h : session.build ctx lines = (.ok theory, session'))
    (hfresh : session₂.build ctx lines = (.ok fresh, session₂'))
    (hsame : List.Forall₂ (List.Forall₂ (Factor.SameFunction inv)) theory.terms fresh.terms)
    {parts parts₂ : GlobalParts} (hparts : inv parts) (hparts₂ : inv parts₂)
    (points : List Point) :
    theory.evaluateCalls parts points =
      points.map fun point => (fresh.evaluate point parts₂).1 :=
  (matches_of_build h hfresh hsame).evaluateCalls hparts hparts₂ points

/-- A call that has to stop, for want of the value of a function, the table that is kept afterwards, one
for another field in its place, and the first table again. -/
theorem evaluateCalls_static :
    ∃ theory session, Session.standard.build ⟨2, [], ⟨[1]⟩⟩ [⟨1, "sgktlf 1 2 fun1"⟩] =
        (.ok theory, session) ∧
      let points : List Point := [.ofNumbers 1.0 [2.5, 0.3] [], .ofNumbers 1.0 [2.5, 0.3] [0.1],
        .ofNumbers 2.0 [2.5, 0.3] [0.1], .ofNumbers 2.0 [3.5, 0.3] [0.1],
        .ofNumbers 2.0 [2.5, 0.3] [0.1]]
      theory.evaluateCalls .empty points =
        points.map fun point => (theory.evaluate point .empty).1 := by
  have hany : ((Session.standard.build ⟨2, [], ⟨[1]⟩⟩ [⟨1, "sgktlf 1 2 fun1"⟩]).1.toOption.any
      fun theory => theory.terms.all (·.all (·.kernel != .user))) = true := by decide +kernel
  rcases hb : Session.standard.build ⟨2, [], ⟨[1]⟩⟩ [⟨1, "sgktlf 1 2 fun1"⟩] with ⟨_ | theory, s⟩
  · rw [hb] at hany
    cases hany
  · rw [hb] at hany
    have hkernel : ∀ term ∈ theory.terms, ∀ factor ∈ term, factor.kernel ≠ .user := by
      simpa [Except.toOption] using hany
    refine ⟨theory, s, rfl, evaluateCalls_eq_fresh (fun _ => True) hb hb ?_ trivial trivial _⟩
    refine List.forall₂_same.2 fun term hterm => List.forall₂_same.2 fun factor hfactor => ?_
    exact Factor.sameFunction_of_ne (hkernel term hterm factor hfactor)

end MuonSpin
