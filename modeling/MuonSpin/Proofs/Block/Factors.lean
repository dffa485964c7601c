import Mathlib.Data.List.Forall2
import Mathlib.Tactic.SplitIfs
import MuonSpin.Theory.Session

/-!
# The factors of the lines of a block

* `Kernel.parameterWords`: which words of a line are parameters;
* `TheoryLine.Gives`: a factor has the kernel, the number and the references of a line;
  **`Session.gives_of_readFactor`**: a line that is read gives its factor;
* `Reads`: lines read one after the other, each in the state the ones before it leave;
  `Reads.forall_mem`: what holds of one factor that is read holds of all.
-/

namespace MuonSpin

theorem exists_of_isOk {ε α : Type} {x : Except ε α} (h : x.isOk = true) : ∃ a, x = .ok a := by
  cases x with
  | error e => cases h
  | ok a => exact ⟨a, rfl⟩

theorem forall₂_of_mapM {α β ε : Type} {f : α → Except ε β} {xs : List α} {ys : List β}
    (h : xs.mapM f = .ok ys) : List.Forall₂ (fun x y => f x = .ok y) xs ys := by
  induction xs generalizing ys with
  | nil =>
    cases h
    exact .nil
  | cons x xs ih =>
    rw [List.mapM_cons] at h
    rcases hx : f x with e | y
    · rw [hx] at h
      cases h
    · rcases hxs : xs.mapM f with e | zs
      · rw [hx, hxs] at h
        cases h
      · rw [hx, hxs] at h
        cases h
        exact .cons hx (ih hxs)

/-- The words behind the name of a kernel that are its parameters: a user function is preceded by
the words for its module and its type. -/
def Kernel.parameterWords (kernel : Kernel) (words : List String) : List String :=
  match kernel with
  | .user => words.drop 2
  | _ => words

theorem Kernel.parameterWords_of_ne_user {kernel : Kernel} (h : kernel ≠ .user)
    (words : List String) : kernel.parameterWords words = words := by
  cases kernel with
  | user => exact absurd rfl h
  | closed form | static family | dynamic family => rfl

/-- The factor has the number, the kernel and the references of the line. -/
structure TheoryLine.Gives (ctx : BuildContext) (line : TheoryLine) (factor : Factor) : Prop where
  number : factor.line = line.number
  kernel : Kernel.search (line.tokens.headD "") = some factor.kernel
  references :
    (factor.kernel.parameterWords line.tokens.tail).mapM ctx.readToken = .ok factor.references

/-! ## Reading one line -/

section Line

variable {session session' : Session} {ctx : BuildContext} {count count' : Nat}

theorem Session.kernel_of_readEngine {kernel : Kernel} {words params : List String}
    {engine : Engine}
    (h : session.readEngine count kernel words = (.ok (engine, params), session', count')) :
    engine.kernel = kernel ∧ params = kernel.parameterWords words := by
  cases kernel with
  | closed form | static family | dynamic family =>
    simp only [readEngine] at h
    split_ifs at h
    · cases h
      exact ⟨rfl, rfl⟩
    · cases h
  | user =>
    rcases words with _ | ⟨module, _ | ⟨type, rest⟩⟩
    · cases h
    · cases h
    · simp only [readEngine] at h
      split at h
      · cases h
        exact ⟨rfl, rfl⟩
      · cases h

theorem Session.readFactor_ok {line : Nat} {words : List String} {factor : Factor}
    (h : session.readFactor ctx count line words = (.ok factor, session', count')) :
    ∃ kernel params, Kernel.search (words.headD "") = some kernel ∧
      session.readEngine count kernel words.tail = (.ok (factor.engine, params), session', count') ∧
      params.mapM ctx.readToken = .ok factor.references ∧ factor.line = line := by
  unfold readFactor at h
  cases hk : Kernel.search (words.headD "") with
  | none =>
    simp only [hk] at h
    cases h
  | some kernel =>
    simp only [hk] at h
    rcases he : session.readEngine count kernel words.tail with
      ⟨_ | ⟨engine, params⟩, session₁, count₁⟩
    · simp only [he] at h
      cases h
    · simp only [he] at h
      cases hr : params.mapM ctx.readToken with
      | error _ =>
        simp only [hr] at h
        cases h
      | ok references =>
        simp only [hr] at h
        cases h
        exact ⟨kernel, params, rfl, he, hr, rfl⟩

theorem Session.gives_of_readFactor {line : TheoryLine} {factor : Factor}
    (h : session.readFactor ctx count line.number line.tokens = (.ok factor, session', count')) :
    line.Gives ctx factor := by
  obtain ⟨kernel, params, hkernel, hengine, hreferences, hline⟩ := readFactor_ok h
  obtain ⟨heq, rfl⟩ := kernel_of_readEngine hengine
  have hfactor : factor.kernel = kernel := heq
  exact ⟨hline, by rw [hkernel, hfactor], by rw [hfactor, hreferences]⟩

end Line

/-! ## Reading several lines -/

/-- The lines are read one after the other, each in the state the ones before it leave, and become
these factors. -/
inductive Reads (ctx : BuildContext) :
    Session → Nat → List TheoryLine → List Factor → Session → Nat → Prop
  | nil {session : Session} {count : Nat} : Reads ctx session count [] [] session count
  | cons {session session' session'' : Session} {count count' count'' : Nat} {line : TheoryLine}
      {factor : Factor} {lines : List TheoryLine} {factors : List Factor}
      (head : session.readFactor ctx count line.number line.tokens = (.ok factor, session', count'))
      (tail : Reads ctx session' count' lines factors session'' count'') :
      Reads ctx session count (line :: lines) (factor :: factors) session'' count''

theorem Reads.forall_mem {P : Factor → Prop} {ctx : BuildContext} {session session' : Session}
    {count count' : Nat} {lines : List TheoryLine} {factors : List Factor}
    (h : Reads ctx session count lines factors session' count')
    (hread : ∀ (session : Session) count (line : TheoryLine) factor session' count',
      session.readFactor ctx count line.number line.tokens = (.ok factor, session', count') →
        P factor) : ∀ factor ∈ factors, P factor := by
  induction h with
  | nil => simp
  | cons head _ ih => exact List.forall_mem_cons.2 ⟨hread _ _ _ _ _ _ head, ih⟩

end MuonSpin
