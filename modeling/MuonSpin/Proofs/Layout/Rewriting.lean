import MuonSpin.Proofs.Block.Buildable
import MuonSpin.Proofs.Layout.Meaning

/-!
# What tidying rewrites

* `TheoryLine.layout?`: the canonical text of a line, if it has one, which is what tidying makes of it
  (`TheoryLine.tidy_eq`);
* `TheoryLine.Overlooked`: reasons why a line cannot be built that tidying does not look at;
* **`tidyBlock_of_not_buildable`**: a line that cannot be built is left alone if and only if no such
  reason holds, or it has its canonical text already; `not_left_alone`: there are lines of the other kind;
* **`tidyBlock_tidyBlock`**: tidying a block again changes nothing, if its parameters have at most five
  characters.
-/

namespace MuonSpin

/-! ## Canonical texts -/

theorem exists_tidyText?_iff {kernel : Kernel} {params : List String} :
    (∃ text, tidyText? kernel params = some text) ↔
      kernel = .closed .polynomial ∨ kernel = .user ∨
        kernel.arity.accepts params.length = true := by
  unfold tidyText?
  split
  · simp
  · simp
  · rename_i hpolynomial huser
    constructor
    · rintro ⟨text, htext⟩
      split_ifs at htext with haccepts <;> exact .inr (.inr haccepts)
    · rintro (h | h | haccepts)
      · exact absurd h hpolynomial
      · exact absurd h huser
      · exact ⟨_, if_pos haccepts⟩

namespace TheoryLine

variable {line : TheoryLine} {kernel : Kernel}

/-- The canonical text of a line. -/
def layout? (line : TheoryLine) : Option String :=
  (Kernel.search (line.tokens.headD "")).bind (tidyText? · line.tokens.tail)

theorem layout?_of_search (h : Kernel.search (line.tokens.headD "") = some kernel) :
    line.layout? = tidyText? kernel line.tokens.tail := by
  rw [layout?, h, Option.bind_some]

/-- **Tidying a line** gives it its canonical text, if it has one. -/
theorem tidy_eq (line : TheoryLine) : line.tidy = ⟨line.number, line.layout?.getD line.text⟩ := by
  cases h : Kernel.search (line.tokens.headD "") with
  | none => rw [tidy_of_search_none h, layout?, h, Option.bind_none, Option.getD_none]
  | some kernel =>
    rw [tidy_of_search h, layout?_of_search h]
    cases tidyText? kernel line.tokens.tail <;> rfl

/-! ## Lines that cannot be built -/

theorem not_buildable_of_blank (h : line.content.isEmpty = true) : ¬ line.Buildable := by
  rw [buildable_iff]
  rintro ⟨kernel, hkernel, -⟩
  rw [isEmpty_of_search hkernel] at h
  cases h

theorem not_buildable_of_separator (h : line.isSeparator = true) : ¬ line.Buildable := by
  rw [buildable_iff]
  rintro ⟨kernel, hkernel, -⟩
  rw [isSeparator_of_search hkernel] at h
  cases h

theorem not_buildable_of_refused (hkernel : Kernel.search (line.tokens.headD "") = some kernel)
    (hrefused : kernel.arity.accepts line.tokens.tail.length = false) : ¬ line.Buildable := by
  rw [buildable_iff]
  rintro ⟨kernel', hkernel', haccepts, -⟩
  rw [hkernel, Option.some_inj] at hkernel'
  rw [← hkernel', hrefused] at haccepts
  cases haccepts

/-- Why a line cannot be built, where tidying does not look: a polynomial or a user function has less
than two words behind its name, or a parameter is no reference. -/
inductive Overlooked (line : TheoryLine) : Prop
  | polynomial (named : Kernel.search (line.tokens.headD "") = some (.closed .polynomial))
      (few : line.tokens.tail.length < 2)
  | user (named : Kernel.search (line.tokens.headD "") = some .user)
      (few : line.tokens.tail.length < 2)
  | parameter {kernel : Kernel} {token : String}
      (named : Kernel.search (line.tokens.headD "") = some kernel)
      (accepts : kernel.arity.accepts line.tokens.tail.length = true)
      (mem : token ∈ kernel.parameterWords line.tokens.tail) (noReference : ¬ IsReference token)

theorem Overlooked.not_buildable (h : line.Overlooked) : ¬ line.Buildable := by
  cases h with
  | polynomial named few =>
    exact not_buildable_of_refused named
      (by simpa [Kernel.arity, Kernel.signature, ClosedForm.signature, Arity.accepts] using few)
  | user named few =>
    exact not_buildable_of_refused named
      (by simpa [Kernel.arity, Kernel.signature, Arity.accepts] using few)
  | parameter named accepts mem noReference =>
    rw [buildable_iff]
    rintro ⟨kernel, hkernel, -, hparams⟩
    rw [named, Option.some_inj] at hkernel
    subst hkernel
    exact noReference (readable_iff.1 (hparams _ mem))

/-- A line that is overlooked has a canonical text all the same. -/
theorem Overlooked.exists_layout? (h : line.Overlooked) : ∃ text, line.layout? = some text := by
  cases h with
  | polynomial named few =>
    rw [layout?_of_search named]
    exact exists_tidyText?_iff.2 (.inl rfl)
  | user named few =>
    rw [layout?_of_search named]
    exact exists_tidyText?_iff.2 (.inr (.inl rfl))
  | parameter named accepts mem noReference =>
    rw [layout?_of_search named]
    exact exists_tidyText?_iff.2 (.inr (.inr accepts))

/-- **A line that has a canonical text** and cannot be built is overlooked. -/
theorem overlooked_of_layout? (hbuild : ¬ line.Buildable) {text : String}
    (h : line.layout? = some text) : line.Overlooked := by
  cases hkernel : Kernel.search (line.tokens.headD "") with
  | none =>
    rw [layout?, hkernel, Option.bind_none] at h
    cases h
  | some kernel =>
    rw [layout?_of_search hkernel] at h
    by_cases haccepts : kernel.arity.accepts line.tokens.tail.length = true
    · by_contra hoverlooked
      refine hbuild (buildable_iff.2 ⟨kernel, hkernel, haccepts, fun token htoken => ?_⟩)
      rw [readable_iff]
      by_contra hreference
      exact hoverlooked (.parameter hkernel haccepts htoken hreference)
    · rcases exists_tidyText?_iff.1 ⟨text, h⟩ with rfl | rfl | h'
      · exact .polynomial hkernel (by simpa [Kernel.arity, Kernel.signature,
          ClosedForm.signature, Arity.accepts] using haccepts)
      · exact .user hkernel (by simpa [Kernel.arity, Kernel.signature, Arity.accepts]
          using haccepts)
      · exact absurd h' haccepts

end TheoryLine

theorem tidyBlock_append (before : List TheoryLine) (line : TheoryLine)
    (after : List TheoryLine) :
    tidyBlock (before ++ line :: after) =
      tidyBlock before ++ ⟨line.number, line.layout?.getD line.text⟩ :: tidyBlock after := by
  rw [tidyBlock, List.map_append, List.map_cons, line.tidy_eq]
  rfl

/-- **Lines that cannot be built.** A blank line, a separator, or a line that no session and no context
can build is left as it is, wherever it stands, unless it is overlooked: then it is laid out like a line
that can be built, under its number. -/
theorem tidyBlock_of_not_buildable {line : TheoryLine}
    (h : line.content.isEmpty = true ∨ line.isSeparator = true ∨ ¬ line.Buildable)
    (before after : List TheoryLine) :
    (¬ line.Overlooked →
      tidyBlock (before ++ line :: after) = tidyBlock before ++ line :: tidyBlock after) ∧
    (line.Overlooked → ∃ text, line.layout? = some text ∧
      tidyBlock (before ++ line :: after) =
        tidyBlock before ++ ⟨line.number, text⟩ :: tidyBlock after) := by
  have hbuild : ¬ line.Buildable := by
    rcases h with h | h | h
    · exact TheoryLine.not_buildable_of_blank h
    · exact TheoryLine.not_buildable_of_separator h
    · exact h
  rw [tidyBlock_append]
  constructor
  · intro hoverlooked
    cases hlayout : line.layout? with
    | none => rfl
    | some text => exact absurd (TheoryLine.overlooked_of_layout? hbuild hlayout) hoverlooked
  · intro hoverlooked
    obtain ⟨text, htext⟩ := hoverlooked.exists_layout?
    exact ⟨text, htext, by rw [htext, Option.getD_some]⟩

/-- A kernel with two parameters has only one. -/
theorem tidyBlock_of_not_buildable_few :
    ¬ (⟨2, "ge 1 # exponent"⟩ : TheoryLine).Buildable ∧
      tidyBlock ([⟨1, "a 1"⟩] ++ ⟨2, "ge 1 # exponent"⟩ :: [⟨3, "+"⟩]) =
        tidyBlock [⟨1, "a 1"⟩] ++ ⟨2, "ge 1 # exponent"⟩ :: tidyBlock [⟨3, "+"⟩] := by
  have hkernel : Kernel.search ((⟨2, "ge 1 # exponent"⟩ : TheoryLine).tokens.headD "") =
      some (.closed .stretchedExponential) := by decide +kernel
  have hcount : (⟨2, "ge 1 # exponent"⟩ : TheoryLine).tokens.tail.length = 1 := by decide +kernel
  have hbuild : ¬ (⟨2, "ge 1 # exponent"⟩ : TheoryLine).Buildable :=
    TheoryLine.not_buildable_of_refused hkernel (by rw [hcount]; decide)
  refine ⟨hbuild, (tidyBlock_of_not_buildable (.inr (.inr hbuild)) _ _).1 ?_⟩
  rintro (⟨named, -⟩ | ⟨named, -⟩ | ⟨named, accepts, -⟩)
  · rw [hkernel] at named
    cases named
  · rw [hkernel] at named
    cases named
  · rw [hkernel, Option.some_inj] at named
    rw [← named, hcount] at accepts
    exact absurd accepts (by decide)

/-- **Lines that are overlooked**: a polynomial with one parameter, a user function without a type, and a
parameter that is no reference. None of them can be built, and all are rewritten. -/
theorem not_left_alone :
    (¬ (⟨1, "p 1"⟩ : TheoryLine).Buildable ∧ tidyBlock [⟨1, "p 1"⟩] ≠ [⟨1, "p 1"⟩]) ∧
    (¬ (⟨1, "u lib"⟩ : TheoryLine).Buildable ∧ tidyBlock [⟨1, "u lib"⟩] ≠ [⟨1, "u lib"⟩]) ∧
    ¬ (⟨1, "se x"⟩ : TheoryLine).Buildable ∧ tidyBlock [⟨1, "se x"⟩] ≠ [⟨1, "se x"⟩] := by
  have hpolynomial : Kernel.search ((⟨1, "p 1"⟩ : TheoryLine).tokens.headD "") =
      some (.closed .polynomial) := by decide +kernel
  have huser : Kernel.search ((⟨1, "u lib"⟩ : TheoryLine).tokens.headD "") = some .user := by
    decide +kernel
  have hexponential : Kernel.search ((⟨1, "se x"⟩ : TheoryLine).tokens.headD "") =
      some (.closed .exponential) := by decide +kernel
  have hreference : ¬ IsReference "x" := by
    rw [← readable_iff]
    rintro ⟨ctx, reference, hread⟩
    have herror : ctx.readToken "x" = .error (.unrecognizedToken "x") := rfl
    rw [herror] at hread
    cases hread
  have hfew : TheoryLine.Overlooked ⟨1, "p 1"⟩ := .polynomial hpolynomial (by decide +kernel)
  have htype : TheoryLine.Overlooked ⟨1, "u lib"⟩ := .user huser (by decide +kernel)
  have hrate : TheoryLine.Overlooked ⟨1, "se x"⟩ :=
    .parameter hexponential (by decide +kernel) (by decide +kernel) hreference
  exact ⟨⟨hfew.not_buildable, by decide +kernel⟩, ⟨htype.not_buildable, by decide +kernel⟩,
    hrate.not_buildable, by decide +kernel⟩

/-! ## Tidying again -/

namespace TheoryLine

variable {line : TheoryLine}

theorem layout?_tidy (hfit : line.fitsColumns = true) : line.tidy.layout? = line.layout? := by
  rcases tidy_of_fitsColumns hfit with h | ⟨hname, htail⟩
  · rw [h]
  · rw [layout?, layout?, hname, htail]

theorem tidy_tidy (hfit : line.fitsColumns = true) : line.tidy.tidy = line.tidy := by
  rw [tidy_eq line.tidy, layout?_tidy hfit, tidy_eq line]
  cases line.layout? <;> rfl

theorem fitsColumns_of_length_le
    (h : ∀ kernel, Kernel.search (line.tokens.headD "") = some kernel → kernel ≠ .user →
      ∀ p ∈ line.tokens.tail, p.length ≤ 5) : line.fitsColumns = true := by
  cases hkernel : Kernel.search (line.tokens.headD "") with
  | none => rw [fitsColumns, hkernel, Option.all_none]
  | some kernel =>
    by_cases huser : kernel = .user
    · rw [fitsColumns, hkernel, Option.all_some, huser, Kernel.fitsColumns]
    · have hfit : ∀ p ∈ line.tokens.tail, fitsColumn p = true := by
        intro p hp
        rw [fitsColumn, decide_eq_true_iff]
        have := h kernel hkernel huser p hp
        omega
      rw [fitsColumns_of_search hkernel huser, Bool.or_eq_true_iff]
      right
      rw [Kernel.keepsApart, Bool.and_eq_true_iff, Bool.or_eq_true_iff]
      refine ⟨List.all_eq_true.2 fun p hp => hfit p (List.mem_of_mem_tail hp), .inr ?_⟩
      cases hhead : line.tokens.tail.head? with
      | none => rfl
      | some p => exact hfit p (List.mem_of_head? hhead)

end TheoryLine

/-- **Tidying a block again changes nothing** if every parameter of a kernel other than a user function
has at most five characters. -/
theorem tidyBlock_tidyBlock {lines : List TheoryLine}
    (h : ∀ line ∈ lines, ∀ kernel, Kernel.search (line.tokens.headD "") = some kernel →
      kernel ≠ .user → ∀ p ∈ line.tokens.tail, p.length ≤ 5) :
    tidyBlock (tidyBlock lines) = tidyBlock lines := by
  have htidy : ∀ line ∈ lines, line.tidy.tidy = line.tidy := fun line hline =>
    TheoryLine.tidy_tidy (TheoryLine.fitsColumns_of_length_le (h line hline))
  simpa only [tidyBlock, List.map_map, List.map_inj_left, Function.comp_apply] using htidy

/-- Names and abbreviations in any letter case, comments, a separator, and long words of a user function
and of an unknown line. -/
theorem tidyBlock_tidyBlock_mixed :
    tidyBlock (tidyBlock [⟨1, "  DYNAMICNKZF 1 fun12 MAP1  19999 # all"⟩, ⟨2, "+ (sum)"⟩,
        ⟨3, "u  lib  T  fun1234567"⟩, ⟨4, "p 1 2 3(poly)"⟩, ⟨5, "bogus fun1234567"⟩]) =
      tidyBlock [⟨1, "  DYNAMICNKZF 1 fun12 MAP1  19999 # all"⟩, ⟨2, "+ (sum)"⟩,
        ⟨3, "u  lib  T  fun1234567"⟩, ⟨4, "p 1 2 3(poly)"⟩, ⟨5, "bogus fun1234567"⟩] := by
  have huser : Kernel.search ((⟨3, "u  lib  T  fun1234567"⟩ : TheoryLine).tokens.headD "") =
      some .user := by decide +kernel
  have hbogus : Kernel.search ((⟨5, "bogus fun1234567"⟩ : TheoryLine).tokens.headD "") = none := by
    decide +kernel
  have hshort : ∀ line ∈ [(⟨1, "  DYNAMICNKZF 1 fun12 MAP1  19999 # all"⟩ : TheoryLine),
      ⟨2, "+ (sum)"⟩, ⟨4, "p 1 2 3(poly)"⟩], ∀ p ∈ line.tokens.tail, p.length ≤ 5 := by
    decide +kernel
  apply tidyBlock_tidyBlock
  intro line hline kernel hkernel hne
  simp only [List.mem_cons, List.not_mem_nil, or_false] at hline
  rcases hline with rfl | rfl | rfl | rfl | rfl
  · exact hshort _ (by simp)
  · exact hshort _ (by simp)
  · rw [huser, Option.some_inj] at hkernel
    exact absurd hkernel.symm hne
  · exact hshort _ (by simp)
  · rw [hbogus] at hkernel
    cases hkernel

end MuonSpin
