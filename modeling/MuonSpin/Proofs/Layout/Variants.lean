import MuonSpin.Proofs.Block.FirstFault
import MuonSpin.Proofs.Layout.Spelling

/-!
# Blocks that differ in their layout only

Two blocks whose lines with content differ in blanks, comments, letter case and abbreviations only are
read side by side.

* `AlikeResult`: both results are values that are related, or both are errors that are;
* `Fault.Alike`, `Factor.Alike`, `Reading.Alike`: what the two readings have in common;
* `Session.readFactor_alike`, `Reading.step_alike`, `Reading.steps_alike`: one line, and lines, in both
  readings;
* **`build_of_sameUpToLayout`**: the blocks build to theories of the same factors, or fail at
  corresponding lines with faults that are alike, and leave the same session.
-/

namespace MuonSpin

/-! ## Results of two readings -/

/-- Both results are values that are related, or both are errors that are. -/
inductive AlikeResult {ε α : Type} (E : ε → ε → Prop) (R : α → α → Prop) :
    Except ε α → Except ε α → Prop
  | ok {a a' : α} (values : R a a') : AlikeResult E R (.ok a) (.ok a')
  | error {e e' : ε} (errors : E e e') : AlikeResult E R (.error e) (.error e')

/-- The faults are the same, or both are tokens that differ in the letter case of a keyword. -/
inductive Fault.Alike : Fault → Fault → Prop
  | same (fault : Fault) : Alike fault fault
  | token {token token' : String} (tokens : SameParameter token token') :
    Alike (.unrecognizedToken token) (.unrecognizedToken token')

/-- The factors differ in the numbers of their lines only. -/
structure Factor.Alike (factor factor' : Factor) : Prop where
  engine : factor.engine = factor'.engine
  references : factor.references = factor'.references

/-! ## One line -/

section Parameters

variable {ctx : BuildContext} {token token' : String} {params params' : List String}

theorem AlikeResult.refl {α : Type} (result : Except Fault α) :
    AlikeResult Fault.Alike Eq result result := by
  cases result with
  | error fault => exact .error (.same fault)
  | ok a => exact .ok rfl

theorem AlikeResult.exists_ok {ε α : Type} {E : ε → ε → Prop} {R : α → α → Prop} {a : α}
    {result : Except ε α} (h : AlikeResult E R (.ok a) result) : ∃ a', result = .ok a' ∧ R a a' := by
  cases h with
  | ok values => exact ⟨_, rfl, values⟩

theorem BuildContext.readToken_alike (ctx : BuildContext) (h : SameParameter token token') :
    AlikeResult Fault.Alike Eq (ctx.readToken token) (ctx.readToken token') := by
  cases h with
  | same => exact .refl _
  | @keyword keyword _ _ letters letters' rest token_eq token_eq' case case' =>
    rw [readToken_keyword keyword token_eq case, readToken_keyword keyword token_eq' case']
    cases word? rest with
    | none => exact .error (.token (.keyword keyword token_eq token_eq' case case'))
    | some number => exact .refl _

theorem BuildContext.mapM_readToken_alike (ctx : BuildContext)
    (h : List.Forall₂ SameParameter params params') :
    AlikeResult Fault.Alike Eq (params.mapM ctx.readToken) (params'.mapM ctx.readToken) := by
  induction h with
  | nil => exact .ok rfl
  | @cons token token' params params' head _ ih =>
    have hhead := ctx.readToken_alike head
    rw [List.mapM_cons, List.mapM_cons]
    generalize ctx.readToken token = first, ctx.readToken token' = first' at hhead ⊢
    generalize params.mapM ctx.readToken = rest, params'.mapM ctx.readToken = rest' at ih ⊢
    cases hhead with
    | error faults => exact .error faults
    | ok references =>
      cases ih with
      | error faults => exact .error faults
      | ok more =>
        cases references
        cases more
        exact .ok rfl

end Parameters

namespace Session

variable {session : Session} {kernel : Kernel} {params params' words words' : List String}

/-- The engines are the same, and so are the words left for the parameters up to keywords. -/
def AlikeEngine (a a' : Engine × List String) : Prop :=
  a.1 = a'.1 ∧ List.Forall₂ SameParameter a.2 a'.2

theorem readEngine_alike (session : Session) (count : Nat)
    (h : List.Forall₂ SameParameter params params')
    (hidentifiers : kernel = .user → params.take 2 = params'.take 2) :
    ∃ result result' session' count',
      session.readEngine count kernel params = (result, session', count') ∧
      session.readEngine count kernel params' = (result', session', count') ∧
      AlikeResult Fault.Alike AlikeEngine result result' := by
  have hlen := h.length_eq
  by_cases haccepts : kernel.arity.accepts params.length = true
  · by_cases hkernel : kernel = .user
    · subst hkernel
      obtain ⟨module, type, rest, rfl⟩ := accepts_user_iff.1 haccepts
      obtain ⟨module', type', rest', rfl⟩ := accepts_user_iff.1 (hlen ▸ haccepts)
      obtain ⟨rfl, rfl⟩ : module = module' ∧ type = type' := by simpa using hidentifiers rfl
      have hrest : List.Forall₂ SameParameter rest rest' := by
        rcases h with _ | ⟨-, h⟩
        rcases h with _ | ⟨-, h⟩
        exact h
      rcases hbind : session.bindFunction module type count with ⟨fault | f, session'⟩
      · exact ⟨.error fault, .error fault, session', count + 1, by simp only [readEngine, hbind],
          by simp only [readEngine, hbind], .error (.same fault)⟩
      · exact ⟨.ok (.user f, rest), .ok (.user f, rest'), session', count + 1,
          by simp only [readEngine, hbind], by simp only [readEngine, hbind], .ok ⟨rfl, hrest⟩⟩
    · obtain ⟨engine, hread⟩ := readEngine_of_ne_user hkernel session count
      refine ⟨.ok (engine, params), .ok (engine, params'), session, count, ?_, ?_,
        .ok ⟨rfl, h⟩⟩
      · rw [hread, if_pos haccepts]
      · rw [hread, if_pos (hlen ▸ haccepts)]
  · have hrefused : kernel.arity.accepts params.length = false := by simpa using haccepts
    refine ⟨_, _, session, count, readEngine_of_refused hrefused,
      readEngine_of_refused (by rw [← hlen, hrefused]), ?_⟩
    rw [hlen]
    exact .error (.same _)

/-- **A line becomes the same factor**, or has a fault of the same kind, and the session is the same
afterwards. -/
theorem readFactor_alike (session : Session) (ctx : BuildContext) (count line line' : Nat)
    (h : SameWords words words') :
    ∃ result result' session' count',
      session.readFactor ctx count line words = (result, session', count') ∧
      session.readFactor ctx count line' words' = (result', session', count') ∧
      AlikeResult Fault.Alike Factor.Alike result result' := by
  obtain ⟨names, parameters, identifiers⟩ := h
  rename_i name name' params params'
  unfold readFactor
  simp only [List.headD_cons, List.tail_cons, ← names.search]
  cases hsearch : Kernel.search name with
  | none =>
    rw [← names.eq hsearch]
    exact ⟨_, _, session, count, rfl, rfl, .error (.same _)⟩
  | some kernel =>
    have hidentifiers : kernel = .user → params.take 2 = params'.take 2 := by
      rintro rfl
      exact identifiers (List.find?_some hsearch)
    obtain ⟨result, result', session', count', hread, hread', halike⟩ :=
      session.readEngine_alike count parameters hidentifiers
    simp only [hread, hread']
    cases halike with
    | error faults => exact ⟨_, _, session', count', rfl, rfl, .error faults⟩
    | @ok a a' engines =>
      obtain ⟨engine, rest⟩ := a
      obtain ⟨engine', rest'⟩ := a'
      obtain ⟨hengine, hrest⟩ := engines
      have hreferences := ctx.mapM_readToken_alike hrest
      simp only
      generalize rest.mapM ctx.readToken = references,
        rest'.mapM ctx.readToken = references' at hreferences ⊢
      cases hreferences with
      | error faults => exact ⟨_, _, session', count', rfl, rfl, .error faults⟩
      | ok values => exact ⟨_, _, session', count', rfl, rfl, .ok ⟨hengine, values⟩⟩

end Session

/-! ## Lines -/

section Lines

variable {line line' : TheoryLine}

theorem SameName.eq_plus_iff {name name' : String} (h : SameName name name') :
    name = "+" ↔ name' = "+" := by
  have hplus : Kernel.search "+" = none := by decide
  cases h with
  | same => rfl
  | kernel kernel called called' =>
    have hne : ∀ {name : String}, kernel.isCalled name = true → name ≠ "+" := by
      rintro name hcalled rfl
      rw [Kernel.search_of_isCalled hcalled] at hplus
      cases hplus
    exact iff_of_false (hne called) (hne called')

theorem TheoryLine.SameUpToLayout.isSeparator (h : line.SameUpToLayout line') :
    line.isSeparator = line'.isSeparator := by
  have htokens := h.tokens
  rw [Bool.eq_iff_iff, TheoryLine.isSeparator, TheoryLine.isSeparator]
  generalize line.tokens = words, line'.tokens = words' at htokens ⊢
  obtain ⟨names, -, -⟩ := htokens
  simpa using names.eq_plus_iff

theorem TheoryLine.SameUpToLayout.content (h : line.SameUpToLayout line') :
    line.content.isEmpty = false ∧ line'.content.isEmpty = false := by
  have htokens := h.tokens
  simp only [Bool.eq_false_iff, ne_eq, TheoryLine.isEmpty_content_iff]
  generalize line.tokens = words, line'.tokens = words' at htokens ⊢
  obtain ⟨-, -, -⟩ := htokens
  simp

end Lines

namespace Reading

variable {ctx : BuildContext} {reading reading' : Reading} {line line' : TheoryLine}
  {lines lines' : List TheoryLine}

/-- The readings have got equally far, with the same session and factors that differ in the numbers of
their lines only. -/
structure Alike (reading reading' : Reading) : Prop where
  session : reading.session = reading'.session
  userCount : reading.userCount = reading'.userCount
  terms : List.Forall₂ (List.Forall₂ Factor.Alike) reading.terms reading'.terms
  term : List.Forall₂ Factor.Alike reading.term reading'.term

theorem Alike.nextTerm (h : reading.Alike reading') :
    (reading.nextTerm line).Alike (reading'.nextTerm line') where
  session := h.session
  userCount := h.userCount
  terms := List.rel_append h.terms (.cons h.term .nil)
  term := .nil

theorem Alike.addFactor (h : reading.Alike reading') (session : Session) (count : Nat)
    {factor factor' : Factor} (hfactor : factor.Alike factor') :
    (reading.addFactor session count factor).Alike (reading'.addFactor session count factor') where
  session := rfl
  userCount := rfl
  terms := h.terms
  term := List.rel_append h.term (.cons hfactor .nil)

theorem Alike.term_eq_nil_iff (h : reading.Alike reading') :
    reading.term = [] ↔ reading'.term = [] := by
  rw [← List.length_eq_zero_iff, ← List.length_eq_zero_iff, h.term.length_eq]

theorem step_alike (ctx : BuildContext) (h : reading.Alike reading')
    (hline : line.SameUpToLayout line') :
    (∃ next next', reading.step ctx line = (none, next) ∧
      reading'.step ctx line' = (none, next') ∧ next.Alike next') ∨
    ∃ fault fault' next next', reading.step ctx line = (some ⟨line.number, fault⟩, next) ∧
      reading'.step ctx line' = (some ⟨line'.number, fault'⟩, next') ∧
      fault.Alike fault' ∧ next.session = next'.session := by
  obtain ⟨hcontent, hcontent'⟩ := hline.content
  have hseparator := hline.isSeparator
  cases hs : line.isSeparator with
  | true =>
    rw [hs] at hseparator
    by_cases hterm : reading.term = []
    · have hterm' : reading'.term = [] := h.term_eq_nil_iff.1 hterm
      refine .inr ⟨.misplacedSeparator, .misplacedSeparator, reading, reading', ?_, ?_,
        .same _, h.session⟩
      · simp [step, hcontent, hs, hterm]
      · simp [step, hcontent', ← hseparator, hterm']
    · have hterm' : reading'.term ≠ [] := mt h.term_eq_nil_iff.2 hterm
      exact .inl ⟨_, _, step_separator hcontent hs hterm,
        step_separator hcontent' hseparator.symm hterm', h.nextTerm⟩
  | false =>
    rw [hs] at hseparator
    obtain ⟨result, result', session, count, hread, hread', halike⟩ :=
      reading.session.readFactor_alike ctx reading.userCount line.number line'.number hline.tokens
    rw [h.session, h.userCount] at hread'
    cases halike with
    | error faults =>
      refine .inr ⟨_, _, { reading with session, userCount := count },
        { reading' with session, userCount := count }, ?_, ?_, faults, rfl⟩
      · simp [step, hcontent, hs, hread]
      · simp [step, hcontent', ← hseparator, hread']
    | ok factors =>
      exact .inl ⟨_, _, step_kernel hcontent hs hread,
        step_kernel hcontent' hseparator.symm hread', h.addFactor session count factors⟩

theorem steps_contentLines (ctx : BuildContext) (reading : Reading) (lines : List TheoryLine) :
    reading.steps ctx (contentLines lines) = reading.steps ctx lines := by
  induction lines generalizing reading with
  | nil => rfl
  | cons line lines ih =>
    cases hc : line.content.isEmpty with
    | true =>
      have hcons : contentLines (line :: lines) = contentLines lines := by
        simp [contentLines, hc]
      rw [hcons, steps_cons_of_step (step_blank hc), ih]
    | false =>
      rw [contentLines_cons hc]
      rcases hstep : reading.step ctx line with ⟨_ | e, next⟩
      · rw [steps_cons_of_step hstep, steps_cons_of_step hstep, ih]
      · rw [steps_cons_of_fault hstep, steps_cons_of_fault hstep]

/-- **Both readings go through all lines**, or both stop at lines in the same place, with faults that are
alike. -/
theorem steps_alike (ctx : BuildContext) (h : reading.Alike reading')
    (hlines : List.Forall₂ TheoryLine.SameUpToLayout lines lines') :
    (∃ last last', reading.steps ctx lines = (none, last) ∧
      reading'.steps ctx lines' = (none, last') ∧ last.Alike last') ∨
    ∃ (i : Nat) (line line' : TheoryLine) (fault fault' : Fault) (last last' : Reading),
      lines[i]? = some line ∧ lines'[i]? = some line' ∧
      reading.steps ctx lines = (some ⟨line.number, fault⟩, last) ∧
      reading'.steps ctx lines' = (some ⟨line'.number, fault'⟩, last') ∧
      fault.Alike fault' ∧ last.session = last'.session := by
  induction hlines generalizing reading reading' with
  | nil => exact .inl ⟨reading, reading', rfl, rfl, h⟩
  | @cons line line' lines lines' head _ ih =>
    rcases step_alike ctx h head with ⟨next, next', hstep, hstep', halike⟩ |
      ⟨fault, fault', next, next', hstep, hstep', hfaults, hsession⟩
    · rw [steps_cons_of_step hstep, steps_cons_of_step hstep']
      rcases ih halike with hall | ⟨i, line, line', fault, fault', last, last', hi, hi', hstops⟩
      · exact .inl hall
      · exact .inr ⟨i + 1, line, line', fault, fault', last, last', hi, hi', hstops⟩
    · rw [steps_cons_of_fault hstep, steps_cons_of_fault hstep']
      exact .inr ⟨0, line, line', fault, fault', next, next', rfl, rfl, rfl, rfl, hfaults,
        hsession⟩

theorem exists_endError (reading : Reading) (first : Nat) (h : reading.term = []) :
    ∃ e, reading.endError first = some e := by
  cases hseparator : reading.lastSeparator <;> simp [endError, h, hseparator]

end Reading

/-! ## Blocks -/

/-- The errors are faults that are alike, of lines in the same place among the lines with content, or
both blocks are empty. -/
inductive BuildError.Alike (lines lines' : List TheoryLine) : BuildError → BuildError → Prop
  | line {i : Nat} {line line' : TheoryLine} {fault fault' : Fault}
      (at_ : (contentLines lines)[i]? = some line) (at' : (contentLines lines')[i]? = some line')
      (faults : fault.Alike fault') : Alike lines lines' ⟨line.number, fault⟩ ⟨line'.number, fault'⟩
  | empty (noContent : contentLines lines = []) (noContent' : contentLines lines' = []) :
    Alike lines lines' ⟨(lines.head?.map (·.number)).getD 0, .emptyTheory⟩
      ⟨(lines'.head?.map (·.number)).getD 0, .emptyTheory⟩

/-- The theories consist of the same factors, which differ in the numbers of their lines only. -/
def Theory.Alike (theory theory' : Theory) : Prop :=
  List.Forall₂ (List.Forall₂ Factor.Alike) theory.terms theory'.terms

section Build

variable {session : Session} {ctx : BuildContext} {lines lines' : List TheoryLine}
  {e e' : BuildError}

theorem EndFault.alike (h : EndFault lines e) (h' : EndFault lines' e')
    (hlen : (contentLines lines).length = (contentLines lines').length) :
    BuildError.Alike lines lines' e e' := by
  cases h with
  | trailingSeparator last =>
    cases h' with
    | trailingSeparator last' =>
      rw [List.getLast?_eq_getElem?] at last last'
      rw [← hlen] at last'
      exact .line last last' (.same _)
    | empty noContent' =>
      rw [noContent', List.length_nil, List.length_eq_zero_iff] at hlen
      simp [hlen] at last
  | empty noContent =>
    cases h' with
    | trailingSeparator last' =>
      rw [noContent, List.length_nil, eq_comm, List.length_eq_zero_iff] at hlen
      simp [hlen] at last'
    | empty noContent' => exact .empty noContent noContent'

theorem Theory.alike_ofTerms {reading reading' : Reading}
    (hsteps : (Reading.start session).steps ctx lines = (none, reading))
    (hsteps' : (Reading.start session).steps ctx lines' = (none, reading'))
    (h : reading.Alike reading') (hterm : reading.term ≠ []) :
    (Theory.ofTerms reading.allTerms).Alike (.ofTerms reading'.allTerms) := by
  have hterm' : reading'.term ≠ [] := mt h.term_eq_nil_iff.2 hterm
  rw [Alike, terms_ofTerms (Reading.allTerms_ne_nil hsteps hterm),
    terms_ofTerms (Reading.allTerms_ne_nil hsteps' hterm')]
  exact List.rel_append h.terms (.cons h.term .nil)

end Build

/-- **Layout does not matter.** Take two blocks whose lines with content are the same up to comments,
blanks, the letter case of kernels' names and of keywords, and the choice between a name and its
abbreviation. In every session and context either both build, to theories of the same factors, or both
fail: at lines in the same place with faults of the same kind, or as empty blocks. The session is the
same afterwards. -/
theorem build_of_sameUpToLayout (session : Session) (ctx : BuildContext)
    {lines lines' : List TheoryLine}
    (h : List.Forall₂ TheoryLine.SameUpToLayout (contentLines lines) (contentLines lines')) :
    AlikeResult (BuildError.Alike lines lines') Theory.Alike (session.build ctx lines).1
      (session.build ctx lines').1 ∧
    (session.build ctx lines).2 = (session.build ctx lines').2 := by
  have hstart : (Reading.start session).Alike (Reading.start session) := ⟨rfl, rfl, .nil, .nil⟩
  have hsteps := Reading.steps_alike ctx hstart h
  simp only [Reading.steps_contentLines] at hsteps
  rcases hsteps with ⟨last, last', hlast, hlast', halike⟩ |
    ⟨i, line, line', fault, fault', last, last', hi, hi', hlast, hlast', hfaults, hsession⟩
  · by_cases hterm : last.term = []
    · -- both blocks end in a separator, or both have no content
      have hterm' : last'.term = [] := halike.term_eq_nil_iff.1 hterm
      obtain ⟨e, he⟩ := last.exists_endError ((lines.head?.map (·.number)).getD 0) hterm
      obtain ⟨e', he'⟩ := last'.exists_endError ((lines'.head?.map (·.number)).getD 0) hterm'
      simp only [Session.build, hlast, hlast', he, he']
      exact ⟨.error (((endError_eq_some_iff hlast).1 he).alike
        ((endError_eq_some_iff hlast').1 he') h.length_eq), halike.session⟩
    · have hterm' : last'.term ≠ [] := mt halike.term_eq_nil_iff.2 hterm
      rw [build_eq_ok_iff.2 ⟨last, hlast, hterm, rfl, rfl⟩,
        build_eq_ok_iff.2 ⟨last', hlast', hterm', rfl, rfl⟩]
      exact ⟨.ok (Theory.alike_ofTerms hlast hlast' halike hterm), halike.session⟩
  · simp only [Session.build, hlast, hlast']
    exact ⟨.error (.line hi hi' hfaults), hsession⟩

/-- Abbreviations, capital letters, blanks and comments, and a line that is a comment only. -/
theorem build_of_sameUpToLayout_abbreviated : ∃ theory theory',
    (Session.standard.build ⟨2, [1], ⟨[]⟩⟩
      [⟨1, "asymmetry 1"⟩, ⟨2, "+"⟩, ⟨3, "generExpo map1 2"⟩]).1 = .ok theory ∧
    (Session.standard.build ⟨2, [1], ⟨[]⟩⟩
      [⟨4, "# two terms"⟩, ⟨5, "\tA 1(x)"⟩, ⟨6, " + #"⟩, ⟨7, "GE   MAP1 2"⟩]).1 = .ok theory' ∧
    theory.Alike theory' := by
  have hfirst : (⟨1, "asymmetry 1"⟩ : TheoryLine).SameUpToLayout ⟨5, "\tA 1(x)"⟩ := by
    have hname : SameName "asymmetry" "A" :=
      .kernel (.closed .asymmetry) (by decide) (by decide)
    exact ⟨["asymmetry", "1"], ["A", "1"], TheoryLine.spells_iff.2 (by decide +kernel),
      TheoryLine.spells_iff.2 (by decide +kernel), .line hname (.cons (.same "1") .nil) fun _ => rfl⟩
  have hseparator : (⟨2, "+"⟩ : TheoryLine).SameUpToLayout ⟨6, " + #"⟩ :=
    ⟨["+"], ["+"], TheoryLine.spells_iff.2 (by decide +kernel),
      TheoryLine.spells_iff.2 (by decide +kernel), .line (.same "+") .nil fun _ => rfl⟩
  have hlast : (⟨3, "generExpo map1 2"⟩ : TheoryLine).SameUpToLayout ⟨7, "GE   MAP1 2"⟩ := by
    have hname : SameName "generExpo" "GE" :=
      .kernel (.closed .stretchedExponential) (by decide) (by decide)
    have hmap : SameParameter "map1" "MAP1" :=
      .keyword .map (show "map1".toList = ['m', 'a', 'p'] ++ ['1'] by decide)
        (show "MAP1".toList = ['M', 'A', 'P'] ++ ['1'] by decide) (by decide) (by decide)
    exact ⟨["generExpo", "map1", "2"], ["GE", "MAP1", "2"],
      TheoryLine.spells_iff.2 (by decide +kernel), TheoryLine.spells_iff.2 (by decide +kernel),
      .line hname (.cons hmap (.cons (.same "2") .nil)) fun h => absurd h (by decide)⟩
  have hlines : List.Forall₂ TheoryLine.SameUpToLayout
      (contentLines [⟨1, "asymmetry 1"⟩, ⟨2, "+"⟩, ⟨3, "generExpo map1 2"⟩])
      (contentLines
        [⟨4, "# two terms"⟩, ⟨5, "\tA 1(x)"⟩, ⟨6, " + #"⟩, ⟨7, "GE   MAP1 2"⟩]) := by
    have hcontent : contentLines [⟨1, "asymmetry 1"⟩, ⟨2, "+"⟩, ⟨3, "generExpo map1 2"⟩] =
        [⟨1, "asymmetry 1"⟩, ⟨2, "+"⟩, ⟨3, "generExpo map1 2"⟩] := by decide +kernel
    have hcontent' : contentLines
          [⟨4, "# two terms"⟩, ⟨5, "\tA 1(x)"⟩, ⟨6, " + #"⟩, ⟨7, "GE   MAP1 2"⟩] =
        [⟨5, "\tA 1(x)"⟩, ⟨6, " + #"⟩, ⟨7, "GE   MAP1 2"⟩] := by decide +kernel
    rw [hcontent, hcontent']
    exact .cons hfirst (.cons hseparator (.cons hlast .nil))
  have halike := (build_of_sameUpToLayout .standard ⟨2, [1], ⟨[]⟩⟩ hlines).1
  obtain ⟨theory, htheory⟩ : ∃ theory, (Session.standard.build ⟨2, [1], ⟨[]⟩⟩
      [⟨1, "asymmetry 1"⟩, ⟨2, "+"⟩, ⟨3, "generExpo map1 2"⟩]).1 = .ok theory :=
    exists_of_isOk (by decide +kernel)
  rw [htheory] at halike
  obtain ⟨theory', htheory', hterms⟩ := halike.exists_ok
  exact ⟨theory, theory', htheory, htheory', hterms⟩

end MuonSpin
