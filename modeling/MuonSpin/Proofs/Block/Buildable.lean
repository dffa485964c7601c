import MuonSpin.Proofs.Block.FirstFault
import MuonSpin.Proofs.Block.Tokens

/-!
# Lines that can be built

Whether a line can become part of a theory at all, in a session and a context made for it.

* `TheoryLine.Buildable`: some session builds a block of the line alone;
* `Session.admits_supplied`: a session that knows the type of a line's user function reads what stands
  in front of the parameters;
* **`TheoryLine.buildable_iff`**: the lines that can be built are those that name a kernel with a number
  of parameters it accepts, each of which some context reads.
-/

namespace MuonSpin

/-- Some session builds a block of this line alone, in some context. -/
def TheoryLine.Buildable (line : TheoryLine) : Prop :=
  ∃ (session : Session) (ctx : BuildContext) (theory : Theory),
    (session.build ctx [line]).1 = .ok theory

theorem exists_mapM_ok_iff {α β ε : Type} {f : α → Except ε β} {xs : List α} :
    (∃ ys, xs.mapM f = .ok ys) ↔ ∀ x ∈ xs, ∃ y, f x = .ok y := by
  constructor
  · rintro ⟨ys, h⟩
    have hall : List.Forall₂ (fun x y => (∃ y, f x = .ok y) ∧ f x = .ok y) xs ys :=
      (forall₂_of_mapM h).imp fun x y hxy => ⟨⟨y, hxy⟩, hxy⟩
    exact ((List.forall₂_and_left _ _).1 hall).1
  · intro h
    cases hxs : xs.mapM f with
    | ok ys => exact ⟨ys, rfl⟩
    | error e =>
      obtain ⟨before, x, after, rfl, -, hx⟩ := mapM_eq_error_iff.1 hxs
      obtain ⟨y, hy⟩ := h x (by simp)
      rw [hx] at hy
      cases hy

/-! ## A session made for a line -/

namespace Session

/-- A session that knows the type that the words of a line name, if they name a user function. -/
def supplied (words : List String) : Session :=
  ⟨.standard, ⟨[((words.drop 1).headD "", .stateless fun _ _ => none)]⟩, .empty⟩

theorem bound_supplied (module type : String) (params : List String) (index : Nat) :
    (supplied (module :: type :: params)).Bound module type index
      (.create (.stateless fun _ _ => none)) (supplied (module :: type :: params)) := by
  refine .stateless (.known ?_) rfl
  simp [supplied, Factories.create?]

theorem admits_supplied {kernel : Kernel} {words : List String} (count : Nat)
    (h : kernel.arity.accepts words.length = true) :
    (supplied words).Admits count kernel words (supplied words) := by
  by_cases hkernel : kernel = .user
  · subst hkernel
    obtain ⟨module, type, params, rfl⟩ := accepts_user_iff.1 h
    exact .function (bound_supplied module type params count)
  · exact .formula hkernel h

theorem Admits.accepts {session session' : Session} {count : Nat} {kernel : Kernel}
    {words : List String} (h : session.Admits count kernel words session') :
    kernel.arity.accepts words.length = true := by
  cases h with
  | formula kind accepts => exact accepts
  | function bound => exact accepts_user_iff.2 ⟨_, _, _, rfl⟩

end Session

/-! ## Lines -/

namespace TheoryLine

variable {line : TheoryLine} {kernel : Kernel}

theorem buildable_of_reads (h : Kernel.search (line.tokens.headD "") = some kernel)
    (haccepts : kernel.arity.accepts line.tokens.tail.length = true)
    (hparams : ∀ token ∈ kernel.parameterWords line.tokens.tail, Readable token) :
    line.Buildable := by
  obtain ⟨ctx, hctx⟩ := exists_reads_readable
  obtain ⟨engine, count, hengine⟩ := (Session.admits_supplied 0 haccepts).readEngine
  obtain ⟨references, hreferences⟩ :=
    exists_mapM_ok_iff.2 fun token htoken => hctx token (hparams token htoken)
  have hread : (Session.supplied line.tokens.tail).readFactor ctx 0 line.number line.tokens =
      (.ok ⟨line.number, references, engine⟩, Session.supplied line.tokens.tail, count) := by
    simp only [Session.readFactor, h, hengine, hreferences]
  have hsteps : ∃ reading, (Reading.start (Session.supplied line.tokens.tail)).steps ctx [line] =
      (none, reading) ∧ reading.term ≠ [] := by
    refine ⟨_, Reading.steps_cons_of_step (Reading.step_kernel (isEmpty_of_search h)
      (isSeparator_of_search h) hread), ?_⟩
    simp [Reading.addFactor]
  obtain ⟨reading, hsteps, hterm⟩ := hsteps
  exact ⟨_, ctx, _, congrArg Prod.fst (build_eq_ok_iff.2 ⟨reading, hsteps, hterm, rfl, rfl⟩)⟩

/-- **The lines that can be built** name a kernel, with a number of parameters it accepts, and some
context reads each of these. -/
theorem buildable_iff : line.Buildable ↔
    ∃ kernel, Kernel.search (line.tokens.headD "") = some kernel ∧
      kernel.arity.accepts line.tokens.tail.length = true ∧
      ∀ token ∈ kernel.parameterWords line.tokens.tail, Readable token := by
  constructor
  · rintro ⟨session, ctx, theory, hbuild⟩
    have hpair : session.build ctx [line] = (.ok theory, (session.build ctx [line]).2) := by
      rw [← hbuild]
    obtain ⟨reading, hsteps, hterm, -, -⟩ := build_eq_ok_iff.1 hpair
    rcases hstep : (Reading.start session).step ctx line with ⟨_ | e, reading'⟩
    · rw [Reading.steps_cons_of_step hstep] at hsteps
      cases hsteps
      rcases Reading.step_cases hstep with ⟨-, rfl⟩ | ⟨-, -, hne, -⟩ |
        ⟨-, -, factor, session', count, hread, -⟩
      · exact absurd rfl hterm
      · exact absurd rfl hne
      · obtain ⟨kernel, params, hkernel, hengine, hparams, -⟩ := Session.readFactor_ok hread
        obtain ⟨-, rfl⟩ := Session.kernel_of_readEngine hengine
        refine ⟨kernel, hkernel, (Session.admits_of_readEngine hengine).accepts, ?_⟩
        intro token htoken
        exact ⟨ctx, exists_mapM_ok_iff.1 ⟨_, hparams⟩ token htoken⟩
    · rw [Reading.steps_cons_of_fault hstep] at hsteps
      cases hsteps
  · rintro ⟨kernel, hkernel, haccepts, hparams⟩
    exact buildable_of_reads hkernel haccepts hparams

end TheoryLine

end MuonSpin
