import MuonSpin.Kernel.Tabulated
import MuonSpin.Theory.Line
import MuonSpin.UserFunction.Basic

/-!
# Theories

A theory is a sum of products of kernels. Its factors are the nodes of a binary tree, linked to the
next factor of the same term and, from the head of a term only, to the head of the next term.

* `Factor`: a kernel on a line, its references, and the state it keeps between evaluations;
* `Factor.resolve?`: the values a kernel gets, a few of them through a buffer of fixed size, which does
  not show in them (`Factor.resolve?_eq_mapM`);
* `Theory.ofTerms`, `Theory.terms`: the tree of a list of terms, and the terms of a tree;
* `Theory.evaluate`: the value at a time. An evaluation that has to stop, at a reference without a
  value or an index without a successor, gives `none`; **what was computed until then stays**, in the
  theory and in the shared parts, both of which are results.
-/

namespace MuonSpin

/-- How a factor gets its value. -/
inductive Engine where
  | closed (form : ClosedForm)
  | static (kernel : StaticKernel)
  | dynamic (kernel : DynamicKernel)
  | user (instance_ : UserInstance)

namespace Engine

def kernel : Engine → Kernel
  | closed form => .closed form
  | static k => .static k.family
  | dynamic k => .dynamic k.family
  | user _ => .user

/-- The value for resolved references, and the state afterwards. -/
def value (engine : Engine) (t : Float) (val : List UInt64) (parts : GlobalParts) :
    Option Float × Engine × GlobalParts :=
  match engine with
  | closed form => (form.value t (numbers val), engine, parts)
  | static k =>
    let (v, k) := k.value t val
    (v, static k, parts)
  | dynamic k =>
    let (v, k) := k.value t val
    (v, dynamic k, parts)
  | user f =>
    let (v, parts) := f.evaluate parts t (numbers val)
    (v, engine, parts)

/-- How many tables were computed so far. -/
def solves : Engine → Nat
  | static k => k.memo.solves
  | dynamic k => k.memo.solves
  | closed _ | user _ => 0

end Engine

/-- What a theory is evaluated at, all but the time by bit patterns. -/
structure Point where
  t : Float
  params : List UInt64
  /-- The values of the derived functions. -/
  funcs : List UInt64

/-- The point with the given numbers. -/
def Point.ofNumbers (t : Float) (params funcs : List Float) : Point :=
  ⟨t, params.map Float.toBits, funcs.map Float.toBits⟩

/-- A kernel of a theory. -/
structure Factor where
  /-- The number of its line. -/
  line : Nat
  references : List Reference
  engine : Engine

namespace Factor

def kernel (factor : Factor) : Kernel := factor.engine.kernel

/-- The number of values for which there is a buffer. -/
def bufferSize : Nat := 8

/-- A buffer with the values of references in its first places. -/
def fill? (point : Point) : (references : List Reference) → (buffer : List UInt64) →
    Option (List UInt64)
  | r :: references, _ :: buffer => do
    let v ← r.resolve? point.params point.funcs
    let values ← fill? point references buffer
    pure (v :: values)
  | _, buffer => some buffer

/-- The values of the references. A few are put into a buffer of zeros, of which the first places
are handed on; more get a list of their own. -/
def resolve? (factor : Factor) (point : Point) : Option (List UInt64) :=
  let count := factor.references.length
  if count ≤ bufferSize then
    (fill? point factor.references (List.replicate bufferSize 0)).map (·.take count)
  else factor.references.mapM (·.resolve? point.params point.funcs)

theorem take_fill? (point : Point) {references : List Reference} {buffer : List UInt64}
    (h : references.length ≤ buffer.length) :
    (fill? point references buffer).map (·.take references.length) =
      references.mapM (·.resolve? point.params point.funcs) := by
  induction references generalizing buffer with
  | nil =>
    simp [fill?]
  | cons r references ih =>
    rcases buffer with _ | ⟨x, buffer⟩
    · cases h
    · have hrest := ih (Nat.le_of_succ_le_succ h)
      rw [List.mapM_cons, ← hrest, fill?]
      cases r.resolve? point.params point.funcs with
      | none => rfl
      | some v =>
        cases fill? point references buffer <;> rfl

theorem resolve?_eq_mapM (factor : Factor) (point : Point) :
    factor.resolve? point = factor.references.mapM (·.resolve? point.params point.funcs) := by
  unfold resolve?
  simp only
  split
  · rename_i h
    exact take_fill? point (by rwa [List.length_replicate])
  · rfl

def value (factor : Factor) (point : Point) (parts : GlobalParts) :
    Option Float × Factor × GlobalParts :=
  match factor.resolve? point with
  | none => (none, factor, parts)
  | some val =>
    let (v, engine, parts) := factor.engine.value point.t val parts
    (v, { factor with engine }, parts)

def solves (factor : Factor) : Nat := factor.engine.solves

end Factor

/-- A tree of factors. -/
inductive Theory where
  | nil
  /-- A factor, the next one of its term, and the head of the next term. -/
  | node (factor : Factor) (times plus : Theory)

namespace Theory

/-! ## Terms -/

/-- A term in front of the following ones. -/
def ofFactors (plus : Theory) : List Factor → Theory
  | [] => nil
  | factor :: rest => node factor (ofFactors nil rest) plus

/-- The tree of a list of terms. -/
def ofTerms (terms : List (List Factor)) : Theory :=
  terms.foldr (fun term plus => ofFactors plus term) nil

/-- The factors of the first term. -/
def factors : Theory → List Factor
  | nil => []
  | node factor times _ => factor :: times.factors

/-- The terms, each with its factors. -/
def terms : Theory → List (List Factor)
  | nil => []
  | node factor times plus => (factor :: times.factors) :: plus.terms

/-- How many tables the factors have computed so far. -/
def solves : Theory → Nat
  | nil => 0
  | node factor times plus => factor.solves + times.solves + plus.solves

/-! ## Evaluation -/

/-- Combines a number with the value of a tree; the empty tree leaves it as it is. -/
def evaluateInto (point : Point) (combine : Float → Float → Float) (x : Float) :
    Theory → GlobalParts → Option Float × Theory × GlobalParts
  | nil, parts => (some x, nil, parts)
  | node factor times plus, parts =>
    match factor.value point parts with
    | (none, factor, parts) => (none, node factor times plus, parts)
    | (some v, factor, parts) =>
      match evaluateInto point (· * ·) v times parts with
      | (none, times, parts) => (none, node factor times plus, parts)
      | (some v, times, parts) =>
        match evaluateInto point (· + ·) v plus parts with
        | (none, plus, parts) => (none, node factor times plus, parts)
        | (some v, plus, parts) => (some (combine x v), node factor times plus, parts)

/-- The value at a point, and the theory and the shared parts afterwards. -/
def evaluate (theory : Theory) (point : Point) (parts : GlobalParts) :
    Option Float × Theory × GlobalParts :=
  evaluateInto point (fun _ v => v) 0 theory parts

/-- The values at several times, one evaluation after the other. -/
def evaluateAll (theory : Theory) (params funcs : List UInt64) (parts : GlobalParts)
    (times : List Float) : List (Option Float) × Theory × GlobalParts :=
  let step (t : Float) : StateM (Theory × GlobalParts) (Option Float) := fun (theory, parts) =>
    theory.evaluate ⟨t, params, funcs⟩ parts
  (times.mapM step).run (theory, parts)

theorem factors_ofFactors (plus : Theory) (term : List Factor) :
    (ofFactors plus term).factors = term := by
  induction term generalizing plus with
  | nil => rfl
  | cons f rest ih => simp [ofFactors, factors, ih]

theorem terms_ofTerms {terms : List (List Factor)} (h : ∀ term ∈ terms, term ≠ []) :
    (ofTerms terms).terms = terms := by
  induction terms with
  | nil => rfl
  | cons term rest ih =>
    rcases term with _ | ⟨f, fs⟩
    · exact absurd rfl (h [] (by simp))
    · have hrest : (ofTerms rest).terms = rest := ih fun t ht => h t (by simp [ht])
      have hfold : ofTerms ((f :: fs) :: rest) = node f (ofFactors nil fs) (ofTerms rest) := rfl
      rw [hfold, Theory.terms, factors_ofFactors, hrest]

end Theory

end MuonSpin
