import Mathlib.Algebra.GroupWithZero.Nat
import MuonSpin.Proofs.Evaluation.Calls
import MuonSpin.Proofs.Evaluation.Halts

/-!
# How often tables are computed

A tabulated kernel computes a table at a call whose field, width and hopping rate are not those of the
call before. A time shift stands behind these values and is not among them.

* `changes`: how many members of a list differ from the one in front of them;
* `Memo.fetch_of_some`, `Engine.value_key`: what a call does to the kept key and the number of
  computations;
* `Calls`, `Factor.Called`, `Theory.Called`: calls that have a value, one after the other;
  **`Theory.related_of_calls`**: calls of a tree are calls of each of its factors;
* **`solves_eq_changes`**: the number of tables a factor has computed is the number of changes of the
  values that define its table, and the number for a tree is the sum over its factors.
-/

namespace MuonSpin

/-! ## Changes -/

/-- How many members of a list differ from the one in front of them. In front of the first one stands
`last`; if there is nothing, the first one counts. -/
def changes {K : Type} [DecidableEq K] : (last : Option K) → List K → Nat
  | _, [] => 0
  | last, k :: rest => (if last = some k then 0 else 1) + changes (some k) rest

section Changes

variable {A K L : Type} [DecidableEq K] [DecidableEq L]

theorem changes_congr {f : A → K} {g : A → L} (h : ∀ a b, f a = f b ↔ g a = g b)
    (last : Option A) (as : List A) :
    changes (last.map f) (as.map f) = changes (last.map g) (as.map g) := by
  induction as generalizing last with
  | nil => rfl
  | cons a as ih =>
    have hhead : last.map f = some (f a) ↔ last.map g = some (g a) := by
      cases last with
      | none => simp
      | some b => simpa using h b a
    have htail : changes (some (f a)) (as.map f) = changes (some (g a)) (as.map g) := ih (some a)
    simp only [List.map_cons, changes, hhead, htail]

theorem changes_of_forall_eq {k : K} {ks : List K} (h : ∀ k' ∈ ks, k' = k) :
    changes (some k) ks = 0 := by
  induction ks with
  | nil => rfl
  | cons k' ks ih =>
    obtain ⟨rfl, hks⟩ := List.forall_mem_cons.1 h
    rw [changes, if_pos rfl, ih hks]

end Changes

/-! ## Memos -/

section Memos

variable {V : Type} {memo : Memo V} {key : MemoKey} {compute : Unit → Option V} {v : V}

/-- The key of the kept value. -/
def Memo.key? (memo : Memo V) : Option MemoKey := memo.slot.map (·.1)

theorem Memo.find?_eq_none_iff : memo.find? key = none ↔ memo.key? ≠ some key := by
  rw [find?, key?]
  rcases memo.slot with _ | ⟨kept, w⟩
  · simp
  · simp

/-- **A call with a value** keeps its key, and computes the value unless it was kept. -/
theorem Memo.fetch_of_some (h : (memo.fetch key compute).1 = some v) :
    (memo.fetch key compute).2.key? = some key ∧
      (memo.fetch key compute).2.solves =
        memo.solves + if memo.key? = some key then 0 else 1 := by
  unfold fetch at h ⊢
  cases hfind : memo.find? key with
  | none =>
    have hkey := find?_eq_none_iff.1 hfind
    cases hcompute : compute () with
    | none => simp [hfind, hcompute] at h
    | some w =>
      refine ⟨rfl, ?_⟩
      rw [if_neg hkey]
  | some w =>
    have hkey : memo.key? = some key := by
      by_contra hne
      rw [find?_eq_none_iff.2 hne] at hfind
      cases hfind
    simp [hkey]

theorem MemoKey.ofList_eq_iff {xs ys : List UInt64} (hlength : xs.length = ys.length)
    (hfew : xs.length ≤ 3) : ofList xs = ofList ys ↔ xs = ys := by
  refine ⟨fun h => List.ext_getElem hlength fun i hi hi' => ?_, fun h => by rw [h]⟩
  obtain ⟨hfirst, hsecond, hthird⟩ := MemoKey.mk.inj h
  have hpadded : xs[i]?.getD 0 = ys[i]?.getD 0 := by
    match i with
    | 0 => exact hfirst
    | 1 => exact hsecond
    | 2 => exact hthird
    | i + 3 => omega
  rwa [List.getElem?_eq_getElem hi, List.getElem?_eq_getElem hi'] at hpadded

end Memos

/-! ## Kernels -/

/-- How many of its values define the table of a kernel. -/
def Kernel.keySize : Kernel → Nat
  | static _ => 2
  | dynamic _ => 3
  | closed _ | user => 0

theorem Kernel.keySize_le (kernel : Kernel) : kernel.keySize ≤ 3 := by
  cases kernel <;> simp [keySize]

namespace Engine

/-- The key of the kept table. -/
def key? : Engine → Option MemoKey
  | static k => k.memo.key?
  | dynamic k => k.memo.key?
  | closed _ | user _ => none

variable {engine engine' : Engine} {t v : Float} {val : List UInt64} {parts parts' : GlobalParts}

theorem solves_of_not_tabulated (h : engine.kernel.isTabulated = false) : engine.solves = 0 := by
  cases engine with
  | closed form | user f => rfl
  | static k | dynamic k => cases h

/-- **A call with a value** keeps the key of the values that define the table, and computes the table
unless it was kept. -/
theorem value_key (htable : engine.kernel.isTabulated = true)
    (h : engine.value t val parts = (some v, engine', parts')) :
    engine'.key? = some (.ofList (val.take engine.kernel.keySize)) ∧
      engine'.solves = engine.solves +
        if engine.key? = some (.ofList (val.take engine.kernel.keySize)) then 0 else 1 := by
  cases engine with
  | closed form | user f => cases htable
  | static k =>
    rcases val with _ | ⟨nu, _ | ⟨rate, rest⟩⟩
    · cases h
    · cases h
    · simp only [value, StaticKernel.value, Prod.mk.injEq] at h
      obtain ⟨hfield, rfl, -⟩ := h
      obtain ⟨field, hfetch, -⟩ := Option.bind_eq_some_iff.1 hfield
      exact Memo.fetch_of_some hfetch
  | dynamic k =>
    rcases val with _ | ⟨nu, _ | ⟨rate, _ | ⟨nuC, rest⟩⟩⟩
    · cases h
    · cases h
    · cases h
    · simp only [value, DynamicKernel.value, Prod.mk.injEq] at h
      obtain ⟨hfield, rfl, -⟩ := h
      obtain ⟨field, hfetch, -⟩ := Option.bind_eq_some_iff.1 hfield
      exact Memo.fetch_of_some hfetch

end Engine

/-! ## Calls -/

/-- Calls at several points, each in the state that the one before it leaves. -/
inductive Calls {σ : Type} (call : Point → σ → σ → Prop) : List Point → σ → σ → Prop
  | nil {s : σ} : Calls call [] s s
  | cons {point : Point} {points : List Point} {s s' s'' : σ} (head : call point s s')
      (tail : Calls call points s' s'') : Calls call (point :: points) s s''

namespace Factor

variable {factor factor' : Factor} {point : Point} {points : List Point}

/-- The factor is called at a point and has a value there, whatever the shared parts are. -/
def Called (point : Point) (factor factor' : Factor) : Prop :=
  ∃ v parts parts', factor.value point parts = (some v, factor', parts')

/-- The bit patterns of the values that define the factor's table. -/
def tableBits (factor : Factor) (point : Point) : List UInt64 :=
  (factor.references.take factor.kernel.keySize).map point.valueOf

/-- The key of the values that define the factor's table. -/
def tableKey (factor : Factor) (point : Point) : MemoKey := .ofList (factor.tableBits point)

theorem tableKey_eq_iff (factor : Factor) (point point' : Point) :
    factor.tableKey point = factor.tableKey point' ↔
      factor.tableBits point = factor.tableBits point' := by
  refine MemoKey.ofList_eq_iff ?_ ?_
  · rw [tableBits, tableBits, List.length_map, List.length_map]
  · rw [tableBits, List.length_map, List.length_take]
    exact Nat.le_trans (Nat.min_le_left _ _) factor.kernel.keySize_le

theorem Same.tableKey (h : factor.Same factor') : factor'.tableKey = factor.tableKey := by
  funext point
  rw [Factor.tableKey, Factor.tableKey, tableBits, tableBits, h.references, h.kernel]

theorem Called.same (h : factor.Called point factor') : factor.Same factor' := by
  obtain ⟨v, parts, parts', h⟩ := h
  have hsame := factor.same_value point parts
  rwa [h] at hsame

theorem Called.inRange (h : factor.Called point factor') :
    ∀ r ∈ factor.references, r.InRange point := by
  obtain ⟨v, parts, parts', h⟩ := h
  intro r hr
  by_contra hout
  rw [value, resolve?_of_not_inRange hr hout] at h
  cases h

theorem Called.key (h : factor.Called point factor') (htable : factor.kernel.isTabulated = true) :
    factor'.engine.key? = some (factor.tableKey point) ∧
      factor'.solves = factor.solves +
        if factor.engine.key? = some (factor.tableKey point) then 0 else 1 := by
  have hrange := h.inRange
  obtain ⟨v, parts, parts', h⟩ := h
  rw [value_of_inRange hrange] at h
  rcases hvalue : factor.engine.value point.t (factor.references.map point.valueOf) parts with
    ⟨w, engine, parts₁⟩
  rw [hvalue] at h
  cases h
  have hkey := Engine.value_key htable hvalue
  rwa [← List.map_take] at hkey

theorem Called.solves_of_repeated {point' : Point} {factor₁ factor₂ : Factor}
    (hfirst : factor.Called point factor₁) (hsecond : factor₁.Called point' factor₂)
    (hbits : factor₁.tableBits point = factor₁.tableBits point') :
    factor₂.solves = factor₁.solves := by
  have hkernel : factor₂.engine.kernel = factor₁.kernel := hsecond.same.kernel
  by_cases htable : factor₁.kernel.isTabulated = true
  · have hkept : factor₁.engine.key? = some (factor₁.tableKey point') := by
      rw [← (factor₁.tableKey_eq_iff point point').2 hbits, hfirst.same.tableKey]
      refine (hfirst.key ?_).1
      rwa [← hfirst.same.kernel]
    rw [(hsecond.key htable).2, if_pos hkept, Nat.add_zero]
  · rw [Bool.not_eq_true] at htable
    rw [solves, solves, Engine.solves_of_not_tabulated htable,
      Engine.solves_of_not_tabulated (hkernel ▸ htable)]

/-- **The tables a factor computes** in several calls: one for each change of its key. -/
theorem solves_of_calls (h : Calls Called points factor factor')
    (htable : factor.kernel.isTabulated = true) :
    factor'.solves = factor.solves + changes factor.engine.key? (points.map factor.tableKey) := by
  induction h with
  | nil => rfl
  | @cons point points factor factor₁ _ head tail ih =>
    -- the key that the first call keeps is the one in front of the others
    obtain ⟨hkey, hsolves⟩ := head.key htable
    have htable₁ : factor₁.kernel.isTabulated = true := by rwa [head.same.kernel]
    rw [ih htable₁, hkey, hsolves, head.same.tableKey, List.map_cons, changes, Nat.add_assoc]

theorem same_of_calls (h : Calls Called points factor factor') : factor.Same factor' := by
  induction h with
  | nil => exact .refl _
  | cons head _ ih => exact head.same.trans ih

end Factor

namespace Theory

variable {R S T : Factor → Factor → Prop} {theory theory' theory'' : Theory} {point : Point}
  {points : List Point}

/-- The theory is called at a point and has a value there, whatever the shared parts are. -/
def Called (point : Point) (theory theory' : Theory) : Prop :=
  ∃ v parts parts', theory.evaluate point parts = (some v, theory', parts')

/-- Trees of the same shape, whose factors are related. -/
inductive Related (R : Factor → Factor → Prop) : Theory → Theory → Prop
  | nil : Related R .nil .nil
  | node {factor factor' : Factor} {times times' plus plus' : Theory} (head : R factor factor')
      (product : Related R times times') (sum : Related R plus plus') :
      Related R (.node factor times plus) (.node factor' times' plus')

theorem Related.refl (h : ∀ factor, R factor factor) (theory : Theory) :
    theory.Related R theory := by
  induction theory with
  | nil => exact .nil
  | node factor times plus ihtimes ihplus => exact .node (h factor) ihtimes ihplus

theorem Related.trans (h : theory.Related R theory') (h' : theory'.Related S theory'')
    (hT : ∀ f f' f'', R f f' → S f' f'' → T f f'') : theory.Related T theory'' := by
  induction h generalizing theory'' with
  | nil =>
    cases h'
    exact .nil
  | node head _ _ ihproduct ihsum =>
    cases h' with
    | node head' product' sum' =>
      exact .node (hT _ _ _ head head') (ihproduct product') (ihsum sum')

theorem Related.imp {P : Factor → Prop} (h : theory.Related R theory') (hall : theory.All P)
    (himp : ∀ f f', P f → R f f' → S f f') : theory.Related S theory' := by
  induction h with
  | nil => exact .nil
  | node head _ _ ihproduct ihsum =>
    exact .node (himp _ _ hall.1 head) (ihproduct hall.2.1) (ihsum hall.2.2)

theorem Related.all_right {P : Factor → Prop} (h : theory.Related R theory')
    (hR : ∀ f f', R f f' → P f') : theory'.All P := by
  induction h with
  | nil => trivial
  | node head _ _ ihproduct ihsum => exact ⟨hR _ _ head, ihproduct, ihsum⟩

theorem Related.same (h : theory.Related R theory') (hR : ∀ f f', R f f' → f.Same f') :
    theory.Same theory' := by
  induction h with
  | nil => exact .nil
  | node head _ _ ihproduct ihsum => exact .node (hR _ _ head) ihproduct ihsum

theorem Related.factors (h : theory.Related R theory') :
    List.Forall₂ R theory.factors theory'.factors := by
  induction h with
  | nil => exact .nil
  | node head _ _ ihproduct _ => exact .cons head ihproduct

theorem Related.terms (h : theory.Related R theory') :
    List.Forall₂ (List.Forall₂ R) theory.terms theory'.terms := by
  induction h with
  | nil => exact .nil
  | node head product _ _ ihsum => exact .cons (.cons head product.factors) ihsum

/-- **An evaluation with a value** calls every factor once. -/
theorem related_evaluateInto {combine : Float → Float → Float} {x y : Float}
    {parts : GlobalParts} (h : (theory.evaluateInto point combine x parts).1 = some y) :
    theory.Related (Factor.Called point) (theory.evaluateInto point combine x parts).2.1 := by
  induction theory generalizing combine x y parts with
  | nil => exact .nil
  | node factor times plus ihtimes ihplus =>
    -- an evaluation that stops anywhere in the tree has no value
    simp only [evaluateInto] at h ⊢
    rcases hv : factor.value point parts with ⟨_ | v, factor', parts₁⟩
    · simp [hv] at h
    simp only [hv] at h ⊢
    have hfactor : factor.Called point factor' := ⟨v, parts, parts₁, hv⟩
    rcases hw : times.evaluateInto point (· * ·) v parts₁ with ⟨_ | w, times', parts₂⟩
    · simp [hw] at h
    simp only [hw] at h ⊢
    have htimes := ihtimes (congrArg Prod.fst hw)
    rw [hw] at htimes
    rcases hy : plus.evaluateInto point (· + ·) w parts₂ with ⟨_ | y', plus', parts₃⟩
    · simp [hy] at h
    simp only
    have hplus := ihplus (congrArg Prod.fst hy)
    rw [hy] at hplus
    exact .node hfactor htimes hplus

theorem Called.related (h : theory.Called point theory') :
    theory.Related (Factor.Called point) theory' := by
  obtain ⟨v, parts, parts', h⟩ := h
  have hrelated := related_evaluateInto (congrArg Prod.fst h)
  rw [← evaluate, h] at hrelated
  exact hrelated

theorem related_of_calls (h : Calls Called points theory theory') :
    theory.Related (Calls Factor.Called points) theory' := by
  induction h with
  | nil => exact .refl (fun _ => .nil) _
  | cons head _ ih => exact head.related.trans ih fun _ _ _ hhead htail => .cons hhead htail

theorem calls_afterCalls {parts : GlobalParts}
    (h : ∀ v ∈ theory.evaluateCalls parts points, v.isSome = true) :
    Calls Called points theory (theory.afterCalls parts points).1 := by
  induction points generalizing theory parts with
  | nil => exact .nil
  | cons point points ih =>
    rcases hcall : theory.evaluate point parts with ⟨_ | v, theory₁, parts₁⟩
    · simp [evaluateCalls, hcall] at h
    · simp only [evaluateCalls, hcall, List.forall_mem_cons] at h
      simp only [afterCalls, hcall]
      exact .cons ⟨v, parts, parts₁, hcall⟩ (ih h.2)

theorem solves_of_withoutPlus (h : theory.WithoutPlus) :
    theory.solves = (theory.factors.map Factor.solves).sum := by
  induction theory with
  | nil => rfl
  | node factor times plus ihtimes _ =>
    obtain ⟨htimes, rfl⟩ := h
    rw [solves, factors, List.map_cons, List.sum_cons, ihtimes htimes]
    rfl

theorem solves_of_plusOnHeads (h : theory.PlusOnHeads) :
    theory.solves = (theory.terms.flatten.map Factor.solves).sum := by
  induction theory with
  | nil => rfl
  | node factor times plus _ ihplus =>
    obtain ⟨htimes, hplus⟩ := h
    rw [solves, terms, List.flatten_cons, List.cons_append, List.map_cons, List.map_append,
      List.sum_cons, List.sum_append, solves_of_withoutPlus htimes, ihplus hplus, Nat.add_assoc]

end Theory

/-! ## Theories of blocks -/

/-- The engine has computed nothing. -/
structure Engine.Fresh (engine : Engine) : Prop where
  key? : engine.key? = none
  solves : engine.solves = 0

section Fresh

variable {session session' : Session} {ctx : BuildContext} {count count' : Nat}

theorem Session.fresh_of_readEngine {kernel : Kernel} {words params : List String}
    {engine : Engine}
    (h : session.readEngine count kernel words = (.ok (engine, params), session', count')) :
    engine.Fresh := by
  cases kernel with
  | closed form | static family | dynamic family =>
    simp only [readEngine] at h
    split_ifs at h
    · cases h
      exact ⟨rfl, rfl⟩
    · cases h
  | user =>
    obtain ⟨hkernel, -⟩ := kernel_of_readEngine h
    cases engine with
    | user u => exact ⟨rfl, rfl⟩
    | closed form | static k | dynamic k => cases hkernel

theorem Theory.fresh_of_build {lines : List TheoryLine} {theory : Theory}
    (h : session.build ctx lines = (.ok theory, session')) :
    theory.All fun factor => factor.engine.Fresh := by
  refine all_of_build h fun session count line factor session' count' hread => ?_
  obtain ⟨_, _, -, hengine, -, -⟩ := Session.readFactor_ok hread
  exact Session.fresh_of_readEngine hengine

end Fresh

/-- How many tables a factor computes in calls at several points. -/
def Factor.expectedSolves (factor : Factor) (points : List Point) : Nat :=
  if factor.kernel.isTabulated then changes none (points.map factor.tableBits) else 0

theorem Factor.solves_of_fresh {factor factor' : Factor} {points : List Point}
    (hfresh : factor.engine.Fresh) (h : Calls Called points factor factor') :
    factor'.solves = factor.expectedSolves points := by
  rw [expectedSolves]
  split_ifs with htable
  · have hbits : changes none (points.map factor.tableKey) =
        changes none (points.map factor.tableBits) :=
      changes_congr factor.tableKey_eq_iff none points
    rw [solves_of_calls h htable, hfresh.key?, solves, hfresh.solves, Nat.zero_add, hbits]
  · have hkernel : factor'.engine.kernel.isTabulated = false := by
      have hsame : factor'.engine.kernel = factor.kernel := (same_of_calls h).kernel
      rw [hsame]
      simpa using htable
    exact Engine.solves_of_not_tabulated hkernel

/-- **Tables are computed when the values that define them change.** After calls of a theory that was
built, all of which have a value, each factor with a tabulated kernel has computed as many tables as
there are calls at which the bit patterns of its field, width and hopping rate are not those of the call
before, the first call counting, and the other factors none; the number for the tree is the sum over
the factors of all terms. Of two further calls the second computes nothing for a factor whose table
values are those of the first, whatever else changes. -/
theorem solves_eq_changes {session session' : Session} {ctx : BuildContext}
    {lines : List TheoryLine} {theory theory' : Theory} {points : List Point}
    (h : session.build ctx lines = (.ok theory, session'))
    (hcalls : Calls Theory.Called points theory theory') :
    List.Forall₂ (List.Forall₂ fun factor factor' => factor.Same factor' ∧
      factor'.solves = if factor.kernel.isTabulated then
        changes none (points.map factor.tableBits) else 0) theory.terms theory'.terms ∧
    theory'.solves = (theory'.terms.flatten.map Factor.solves).sum ∧
    ∀ point point' theory₁ theory₂, theory'.Called point theory₁ → theory₁.Called point' theory₂ →
      List.Forall₂ (List.Forall₂ fun factor factor' =>
        factor.tableBits point = factor.tableBits point' → factor'.solves = factor.solves)
        theory₁.terms theory₂.terms := by
  have hrelated := Theory.related_of_calls hcalls
  have hsame : theory.Same theory' := hrelated.same fun _ _ => Factor.same_of_calls
  obtain ⟨-, -, -, hplus⟩ := terms_of_build h
  refine ⟨?_, Theory.solves_of_plusOnHeads (hsame.plusOnHeads hplus), ?_⟩
  · have hsolves := hrelated.imp (Theory.fresh_of_build h) fun _ _ hfresh hfactor =>
      And.intro (Factor.same_of_calls hfactor) (Factor.solves_of_fresh hfresh hfactor)
    exact hsolves.terms
  · intro point point' theory₁ theory₂ hfirst hsecond
    have hcalled : theory₁.All fun factor₁ => ∃ factor : Factor, factor.Called point factor₁ :=
      hfirst.related.all_right fun factor _ hfactor => ⟨factor, hfactor⟩
    have hsolves := hsecond.related.imp hcalled fun _ _ ⟨_, hfactor⟩ hfactor' hbits =>
      Factor.Called.solves_of_repeated hfactor hfactor' hbits
    exact hsolves.terms

/-- The table of a static kernel is kept while the time, the shift and the value next to it change, and
computed again for another width and for each of two bit patterns of an undefined field. -/
theorem solves_eq_changes_static :
    let undefined (bits : UInt64) : Point := ⟨-1.0, bits :: [0.4, 0.5, 0.5].map Float.toBits, []⟩
    let points : List Point := [.ofNumbers 1.0 [0.01, 0.3, 0.0, 0.25] [],
      .ofNumbers 2.0 [0.01, 0.3, 0.5, 0.5] [], .ofNumbers 2.0 [0.01, 0.4, 0.5, 0.5] [],
      undefined 0x7FF8000000000000, undefined 0x7FF8000000000001, undefined 0x7FF8000000000001]
    ∃ theory theory' session', Session.standard.build ⟨4, [], ⟨[]⟩⟩
        [⟨1, "sgktlf 1 2 3"⟩, ⟨2, "asymmetry 4"⟩] = (.ok theory, session') ∧
      Calls Theory.Called points theory theory' ∧
      theory'.terms.map (·.map Factor.solves) = [[4, 0]] ∧ theory'.solves = 4 := by
  intro undefined points
  have hok : (Session.standard.build ⟨4, [], ⟨[]⟩⟩
      [⟨1, "sgktlf 1 2 3"⟩, ⟨2, "asymmetry 4"⟩]).1.isOk = true := by decide +kernel
  have hvalues : (Session.standard.build ⟨4, [], ⟨[]⟩⟩
      [⟨1, "sgktlf 1 2 3"⟩, ⟨2, "asymmetry 4"⟩]).1.toOption.all
        (fun theory => (theory.evaluateCalls .empty points).all Option.isSome &&
          theory.terms.map (·.map (·.expectedSolves points)) == [[4, 0]]) = true := by
    decide +kernel
  obtain ⟨theory, session', hbuild⟩ := exists_build_of_isOk hok
  rw [hbuild] at hvalues
  obtain ⟨hsome, hexpected⟩ := Bool.and_eq_true_iff.1 hvalues
  have hcalls : Calls Theory.Called points theory (theory.afterCalls .empty points).1 :=
    Theory.calls_afterCalls (List.all_eq_true.1 hsome)
  obtain ⟨hfactors, htree, -⟩ := solves_eq_changes hbuild hcalls
  have hsolves : (theory.afterCalls .empty points).1.terms.map (·.map Factor.solves) = [[4, 0]] := by
    rw [← eq_of_beq hexpected, ← List.forall₂_eq_eq_eq, List.forall₂_map_left_iff,
      List.forall₂_map_right_iff]
    refine hfactors.flip.imp fun term' term hterm => ?_
    rw [← List.forall₂_eq_eq_eq, List.forall₂_map_left_iff, List.forall₂_map_right_iff]
    exact hterm.flip.imp fun _ _ hfactor => hfactor.2
  refine ⟨theory, _, session', hbuild, hcalls, hsolves, ?_⟩
  rw [htree, List.map_flatten, hsolves]
  rfl

end MuonSpin
