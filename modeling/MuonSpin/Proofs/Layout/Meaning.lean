import MuonSpin.Proofs.Block.Groups
import MuonSpin.Proofs.Layout.Columns

/-!
# What tidying does to the meaning of a block

* `TheoryLine.fitsColumns`: the parameters of the line are kept apart in columns;
* `TheoryLine.tokens_tidy_user`, `TheoryLine.tokens_tidy_columns`: the tokens of a tidied line;
* `Reading.step_tidy`: a line that fits is read as before; `termGroups_tidyBlock`: the groups of a
  tidied block are the groups of the block, tidied;
* **`build_tidyBlock`**: a block of lines that fit builds as before, in every session and context,
  and a block that builds keeps its theory only if its lines fit;
* `not_build_tidyBlock`: a parameter that fills its column changes what a block means.
-/

namespace MuonSpin

/-! ## Tidied lines -/

namespace TheoryLine

variable {line : TheoryLine} {kernel : Kernel} {text : String}

/-- A blank stands in front of every parameter once the line is tidied. -/
def fitsColumns (line : TheoryLine) : Bool :=
  (Kernel.search (line.tokens.headD "")).all (·.fitsColumns line.tokens.tail)

theorem tidy_of_search_none (h : Kernel.search (line.tokens.headD "") = none) :
    line.tidy = line := by
  rw [tidy]
  split
  · rfl
  · rename_i name params ht
    rw [ht, List.headD_cons] at h
    simp [h]

theorem tidy_of_search (h : Kernel.search (line.tokens.headD "") = some kernel) :
    line.tidy = match tidyText? kernel line.tokens.tail with
      | some text => { line with text }
      | none => line := by
  have hsep := isSeparator_of_search h
  rcases ht : line.tokens with _ | ⟨name, params⟩
  · exact absurd ht (tokens_ne_nil_of_search h)
  · have hname : name ≠ "+" := by simpa [isSeparator, ht] using hsep
    rw [ht, List.headD_cons] at h
    cases htext : tidyText? kernel params with
    | none =>
      simp [tidy, ht, hname, h, htext]
    | some text =>
      simp [tidy, ht, hname, h, htext]

theorem tidy_number (line : TheoryLine) : line.tidy.number = line.number := by
  cases h : Kernel.search (line.tokens.headD "") with
  | none =>
    rw [tidy_of_search_none h]
  | some kernel =>
    rw [tidy_of_search h]
    split <;> rfl

theorem chars_of_mem_tail {p : String} (hp : p ∈ line.tokens.tail) :
    p.toList ≠ [] ∧ ∀ c ∈ p.toList, isBlank c = false ∧ isContent c = true :=
  of_mem_tokens (List.mem_of_mem_tail hp)

theorem tidyText?_of_accepts {params : List String}
    (h : kernel.arity.accepts params.length = true) :
    ∃ text, tidyText? kernel params = some text := by
  unfold tidyText?
  split
  · exact ⟨_, rfl⟩
  · exact ⟨_, rfl⟩
  · rw [if_pos h]
    exact ⟨_, rfl⟩

theorem fitsColumns_of_search (h : Kernel.search (line.tokens.headD "") = some kernel)
    (hkernel : kernel ≠ .user) :
    line.fitsColumns = (!kernel.arity.accepts line.tokens.tail.length ||
      kernel.keepsApart line.tokens.tail) := by
  rw [fitsColumns, h, Option.all_some, Kernel.fitsColumns_of_ne hkernel]

theorem keepsApart_of_fitsColumns (hfit : line.fitsColumns = true)
    (h : Kernel.search (line.tokens.headD "") = some kernel) (hkernel : kernel ≠ .user)
    (htext : tidyText? kernel line.tokens.tail = some text) :
    kernel.keepsApart line.tokens.tail = true := by
  rw [fitsColumns_of_search h hkernel, Bool.or_eq_true_iff, Bool.not_eq_true'] at hfit
  rcases hfit with hcount | hkeeps
  · -- only a polynomial is laid out with a wrong number of parameters, which is less than two
    unfold tidyText? at htext
    split at htext
    · rcases ht : line.tokens.tail with _ | ⟨p, _ | ⟨q, ps⟩⟩
      · rfl
      · rfl
      · rw [ht] at hcount
        simp [Kernel.arity, Kernel.signature, ClosedForm.signature, Arity.accepts] at hcount
    · exact absurd rfl hkernel
    · rw [if_neg (by rw [hcount]; decide)] at htext
      cases htext
  · exact hkeeps

theorem tokens_tidy_columns (h : Kernel.search (line.tokens.headD "") = some kernel)
    (hkernel : kernel ≠ .user) (htext : tidyText? kernel line.tokens.tail = some text) :
    line.tidy.tokens = (kernel.tidyWords line.tokens.tail).map String.ofList := by
  rw [tidy_of_search h, htext, tokens_eq, code]
  rw [wordsOf_code_tidyText hkernel (fun p hp => chars_of_mem_tail hp) htext]

theorem wordsFrom_intercalate {word : List Char} {words : List String}
    (hword : word ≠ []) (hws : ∀ w ∈ words, w.toList ≠ [] ∧ ∀ c ∈ w.toList, isBlank c = false) :
    wordsFrom word (words.flatMap fun w => ' ' :: w.toList) =
      word :: words.map String.toList := by
  induction words generalizing word with
  | nil => simp [wordsFrom, hword]
  | cons w ws ih =>
    obtain ⟨⟨hw, hblank⟩, hws⟩ := List.forall_mem_cons.1 hws
    rw [List.flatMap_cons, List.cons_append, wordsFrom_blank hword (by decide), wordsOf,
      wordsFrom_append hblank, List.nil_append, ih hw hws, List.map_cons]

theorem toList_intercalate_blank (w : String) (ws : List String) :
    (String.intercalate " " (w :: ws)).toList =
      w.toList ++ ws.flatMap fun v => ' ' :: v.toList := by
  induction ws generalizing w with
  | nil => simp
  | cons v ws ih =>
    have hv := ih v
    rw [String.toList_intercalate, List.map_cons] at hv
    rw [String.toList_intercalate, List.map_cons, List.map_cons, List.intercalate_cons_cons, hv]
    simp

theorem tokens_tidy_user (h : Kernel.search (line.tokens.headD "") = some .user) :
    line.tidy.tokens = Kernel.user.name :: line.tokens.tail := by
  have hps : ∀ p ∈ line.tokens.tail, p.toList ≠ [] ∧
      ∀ c ∈ p.toList, isBlank c = false ∧ isContent c = true := fun p hp => chars_of_mem_tail hp
  have hcode : ∀ c ∈ Kernel.user.name.toList ++
      line.tokens.tail.flatMap fun p => ' ' :: p.toList, isContent c = true := by
    intro c hc
    rcases List.mem_append.1 hc with hc | hc
    · exact (Kernel.user.name_chars.2 c hc).2
    · obtain ⟨p, hp, hc⟩ := List.mem_flatMap.1 hc
      rcases List.mem_cons.1 hc with rfl | hc
      · decide
      · exact ((hps p hp).2 c hc).2
  have hname : Kernel.user.name.toList ≠ [] := by decide
  rw [tidy_of_search h, tidyText?, tokens_eq, code, toList_intercalate_blank,
    List.takeWhile_eq_self_iff.2 hcode, wordsOf,
    wordsFrom_append fun c hc => (Kernel.user.name_chars.2 c hc).1, List.nil_append,
    wordsFrom_intercalate hname fun p hp => ⟨(hps p hp).1, fun c hc => ((hps p hp).2 c hc).1⟩]
  simp [Function.comp_def]

theorem tidy_cases (line : TheoryLine) :
    line.tidy = line ∨ Kernel.search (line.tokens.headD "") = some .user ∨
    ∃ kernel text, Kernel.search (line.tokens.headD "") = some kernel ∧ kernel ≠ .user ∧
      tidyText? kernel line.tokens.tail = some text := by
  cases h : Kernel.search (line.tokens.headD "") with
  | none =>
    exact .inl (tidy_of_search_none h)
  | some kernel =>
    by_cases hkernel : kernel = .user
    · exact .inr (.inl (by rw [hkernel]))
    · cases htext : tidyText? kernel line.tokens.tail with
      | none =>
        refine .inl ?_
        rw [tidy_of_search h, htext]
      | some text =>
        exact .inr (.inr ⟨kernel, text, rfl, hkernel, htext⟩)

theorem headD_tidy (line : TheoryLine) :
    line.tidy = line ∨ ∃ word rest, line.tidy.tokens = word :: rest ∧ 1 < word.length := by
  rcases tidy_cases line with h | h | ⟨kernel, text, h, hkernel, htext⟩
  · exact .inl h
  · exact .inr ⟨_, _, tokens_tidy_user h, Kernel.user.name_chars.1⟩
  · obtain ⟨more, rest, hwords⟩ := kernel.exists_tidyWords line.tokens.tail
    refine .inr ⟨_, _, by rw [tokens_tidy_columns h hkernel htext, hwords, List.map_cons], ?_⟩
    have := kernel.name_chars.1
    rw [String.length_ofList, List.length_append, String.length_toList]
    omega

theorem isEmpty_tidy (line : TheoryLine) : line.tidy.content.isEmpty = line.content.isEmpty := by
  cases h : Kernel.search (line.tokens.headD "") with
  | none =>
    rw [tidy_of_search_none h]
  | some kernel =>
    rcases headD_tidy line with heq | ⟨word, rest, hwords, -⟩
    · rw [heq]
    · rw [isEmpty_of_search h, Bool.eq_false_iff, ne_eq, isEmpty_content_iff, hwords]
      exact List.cons_ne_nil _ _

theorem isSeparator_tidy (line : TheoryLine) : line.tidy.isSeparator = line.isSeparator := by
  cases h : Kernel.search (line.tokens.headD "") with
  | none =>
    rw [tidy_of_search_none h]
  | some kernel =>
    rcases headD_tidy line with heq | ⟨word, rest, hwords, hlen⟩
    · rw [heq]
    · have hne : word ≠ "+" := by
        rintro rfl
        exact absurd hlen (by decide)
      rw [isSeparator_of_search h]
      simp [isSeparator, hwords, hne]

/-- **A line that fits keeps its kernel and its parameters.** -/
theorem tidy_of_fitsColumns (hfit : line.fitsColumns = true) :
    line.tidy = line ∨
      Kernel.search (line.tidy.tokens.headD "") = Kernel.search (line.tokens.headD "") ∧
        line.tidy.tokens.tail = line.tokens.tail := by
  rcases tidy_cases line with h | h | ⟨kernel, text, h, hkernel, htext⟩
  · exact .inl h
  · refine .inr ?_
    rw [tokens_tidy_user h, h, List.headD_cons, List.tail_cons]
    exact ⟨Kernel.search_name .user, rfl⟩
  · have hkeeps : kernel.keepsApart line.tokens.tail = true :=
      keepsApart_of_fitsColumns hfit h hkernel htext
    refine .inr ?_
    rw [tokens_tidy_columns h hkernel htext, Kernel.tidyWords_of_keepsApart hkeeps, h,
      List.map_cons, List.headD_cons, List.tail_cons, String.ofList_toList, List.map_map]
    exact ⟨Kernel.search_name kernel, by simp [Function.comp_def]⟩

/-- **A line that does not fit has fewer parameters when it is tidied.** -/
theorem length_tokens_tidy_lt (hfit : line.fitsColumns = false) :
    ∃ kernel, Kernel.search (line.tokens.headD "") = some kernel ∧ kernel ≠ .user ∧
      line.tidy.tokens.tail.length < line.tokens.tail.length := by
  cases h : Kernel.search (line.tokens.headD "") with
  | none =>
    rw [fitsColumns, h, Option.all_none] at hfit
    cases hfit
  | some kernel =>
    have hkernel : kernel ≠ .user := by
      rintro rfl
      rw [fitsColumns, h, Option.all_some, Kernel.fitsColumns] at hfit
      cases hfit
    rw [fitsColumns_of_search h hkernel, Bool.or_eq_false_iff, Bool.not_eq_false'] at hfit
    obtain ⟨text, htext⟩ := tidyText?_of_accepts hfit.1
    obtain ⟨more, rest, hwords⟩ := kernel.exists_tidyWords line.tokens.tail
    refine ⟨kernel, rfl, hkernel, ?_⟩
    have hlt := Kernel.length_tidyWords_lt hfit.2
    rw [hwords, List.length_cons] at hlt
    rw [tokens_tidy_columns h hkernel htext, hwords, List.map_cons, List.tail_cons,
      List.length_map]
    omega

end TheoryLine

/-! ## Reading tidied lines -/

section Steps

variable {session : Session} {ctx : BuildContext} {reading : Reading} {line : TheoryLine}
  {lines : List TheoryLine}

theorem Session.readFactor_congr {count number : Nat} {words words' : List String}
    (hname : Kernel.search (words.headD "") = Kernel.search (words'.headD ""))
    (hfound : Kernel.search (words'.headD "") ≠ none) (htail : words.tail = words'.tail) :
    session.readFactor ctx count number words = session.readFactor ctx count number words' := by
  obtain ⟨kernel, hkernel⟩ := Option.ne_none_iff_exists'.1 hfound
  unfold readFactor
  simp only [hname, hkernel, htail]

theorem Reading.step_tidy (hfit : line.fitsColumns = true) :
    reading.step ctx line.tidy = reading.step ctx line := by
  rcases TheoryLine.tidy_of_fitsColumns hfit with h | ⟨hname, htail⟩
  · rw [h]
  · rw [step, step, line.isEmpty_tidy, line.isSeparator_tidy, line.tidy_number]
    cases hfound : Kernel.search (line.tokens.headD "") with
    | none =>
      rw [TheoryLine.tidy_of_search_none hfound]
    | some kernel =>
      rw [Session.readFactor_congr hname (by rw [hfound]; exact Option.some_ne_none _) htail]

theorem Reading.steps_tidyBlock (hfit : ∀ line ∈ lines, line.fitsColumns = true) :
    reading.steps ctx (tidyBlock lines) = reading.steps ctx lines := by
  induction lines generalizing reading with
  | nil => rfl
  | cons line lines ih =>
    obtain ⟨hline, hlines⟩ := List.forall_mem_cons.1 hfit
    have hcons : tidyBlock (line :: lines) = line.tidy :: tidyBlock lines := rfl
    rcases hstep : reading.step ctx line with ⟨_ | e, reading'⟩
    · rw [hcons, steps_cons_of_step (by rw [step_tidy hline, hstep]), steps_cons_of_step hstep,
        ih hlines]
    · rw [hcons, steps_cons_of_fault (by rw [step_tidy hline, hstep]), steps_cons_of_fault hstep]

theorem Reading.steps_append_of_fault {before after : List TheoryLine} {e : BuildError}
    {reading' : Reading} (h : reading.steps ctx before = (some e, reading')) :
    reading.steps ctx (before ++ after) = (some e, reading') := by
  induction before generalizing reading with
  | nil => cases h
  | cons line before ih =>
    rcases hstep : reading.step ctx line with ⟨_ | e', reading₁⟩
    · rw [steps_cons_of_step hstep] at h
      rw [List.cons_append, steps_cons_of_step hstep, ih h]
    · rw [steps_cons_of_fault hstep] at h
      rw [List.cons_append, steps_cons_of_fault hstep, h]

theorem head_number_tidyBlock (lines : List TheoryLine) :
    (tidyBlock lines).head?.map (·.number) = lines.head?.map (·.number) := by
  rcases lines with _ | ⟨line, lines⟩
  · rfl
  · simp [tidyBlock, TheoryLine.tidy_number]

/-- **A block of lines that fit builds as before.** -/
theorem build_tidyBlock_of_fitsColumns (hfit : ∀ line ∈ lines, line.fitsColumns = true) :
    session.build ctx (tidyBlock lines) = session.build ctx lines := by
  rw [Session.build, Session.build, Reading.steps_tidyBlock hfit, head_number_tidyBlock]

end Steps

/-! ## Groups of tidied lines -/

theorem termGroups_tidyBlock (lines : List TheoryLine) :
    termGroups (tidyBlock lines) = (termGroups lines).map (List.map TheoryLine.tidy) := by
  induction lines with
  | nil => rfl
  | cons line lines ih =>
    have hcons : tidyBlock (line :: lines) = line.tidy :: tidyBlock lines := rfl
    have hempty := line.isEmpty_tidy
    have hsep := line.isSeparator_tidy
    rw [hcons]
    cases hc : line.content.isEmpty with
    | false =>
      rw [hc] at hempty
      cases hs : line.isSeparator with
      | false =>
        rw [hs] at hsep
        rw [termGroups_cons_kernel hempty hsep, termGroups_cons_kernel hc hs, ih]
        cases termGroups lines <;> rfl
      | true =>
        rw [hs] at hsep
        rw [termGroups_cons_separator hempty hsep, termGroups_cons_separator hc hs, ih]
        rfl
    | true =>
      rw [hc] at hempty
      rw [termGroups_cons_blank hempty, termGroups_cons_blank hc, ih]

theorem mem_groups_of_search {line : TheoryLine} {lines : List TheoryLine} {kernel : Kernel}
    (hline : line ∈ lines) (h : Kernel.search (line.tokens.headD "") = some kernel) :
    line ∈ (termGroups lines).flatten := by
  have hempty := TheoryLine.isEmpty_of_search h
  have hsep := TheoryLine.isSeparator_of_search h
  rw [flatten_termGroups, contentLines, List.mem_filter, List.mem_filter]
  exact ⟨⟨hline, by rw [hempty]; rfl⟩, by rw [hsep]; rfl⟩

/-- What the factor is made of: its line, its kernel and its references. -/
def Factor.entry (factor : Factor) : Nat × Kernel × List Reference :=
  (factor.line, factor.kernel, factor.references)

/-- What the factors of the terms are made of. -/
def Theory.entries (theory : Theory) : List (List (Nat × Kernel × List Reference)) :=
  theory.terms.map (List.map Factor.entry)

section Gives

variable {ctx : BuildContext} {line : TheoryLine} {lines : List TheoryLine}
  {factor factor' : Factor} {factors factors' : List Factor}

theorem TheoryLine.Gives.length_references (h : line.Gives ctx factor)
    (hkernel : factor.kernel ≠ .user) :
    factor.references.length = line.tokens.tail.length := by
  have href := h.references
  rw [Kernel.parameterWords_of_ne_user hkernel] at href
  exact (forall₂_of_mapM href).length_eq.symm

theorem TheoryLine.Gives.fitsColumns (h : line.Gives ctx factor) (h' : line.tidy.Gives ctx factor')
    (hentry : factor'.entry = factor.entry) : line.fitsColumns = true := by
  by_contra hfit
  obtain ⟨kernel, hsearch, hne, hlt⟩ := length_tokens_tidy_lt (Bool.eq_false_iff.2 hfit)
  obtain ⟨-, hkernel, hreferences⟩ : factor'.line = factor.line ∧ factor'.kernel = factor.kernel ∧
      factor'.references = factor.references := by
    simpa [Factor.entry] using hentry
  have huser : factor.kernel ≠ .user := by
    rw [h.kernel, Option.some_inj] at hsearch
    rwa [hsearch]
  have hlen := h.length_references huser
  have hlen' := h'.length_references (by rwa [hkernel])
  rw [hreferences] at hlen'
  omega

theorem fitsColumns_of_forall₂ (h : List.Forall₂ (TheoryLine.Gives ctx) lines factors)
    (h' : List.Forall₂ (TheoryLine.Gives ctx) (lines.map TheoryLine.tidy) factors')
    (hentries : factors'.map Factor.entry = factors.map Factor.entry) :
    ∀ line ∈ lines, line.fitsColumns = true := by
  induction h generalizing factors' with
  | nil => simp
  | cons head _ ih =>
    rw [List.map_cons] at h'
    obtain ⟨factor', factors', head', tail', rfl⟩ := List.forall₂_cons_left_iff.1 h'
    rw [List.map_cons, List.map_cons, List.cons_eq_cons] at hentries
    exact List.forall_mem_cons.2 ⟨head.fitsColumns head' hentries.1, ih tail' hentries.2⟩

end Gives

/-! ## Building a tidied block -/

/-- **What tidying does to the meaning of a block.** If every line fits, the block builds as before,
with the same theory or fault and the same session. It is enough that the lines fit up to one that has
a fault. A block that builds keeps its terms, factors and references only if every line fits. -/
theorem build_tidyBlock (session : Session) (ctx : BuildContext) (lines : List TheoryLine) :
    ((∀ line ∈ lines, line.fitsColumns = true) →
      session.build ctx (tidyBlock lines) = session.build ctx lines) ∧
    (∀ before after e reading, lines = before ++ after →
      (Reading.start session).steps ctx before = (some e, reading) →
      (∀ line ∈ before, line.fitsColumns = true) →
      session.build ctx (tidyBlock lines) = session.build ctx lines) ∧
    ∀ theory, (session.build ctx lines).1 = .ok theory →
      ((∃ theory', (session.build ctx (tidyBlock lines)).1 = .ok theory' ∧
          theory'.entries = theory.entries) ↔
        ∀ line ∈ lines, line.fitsColumns = true) := by
  refine ⟨build_tidyBlock_of_fitsColumns, ?_, ?_⟩
  · rintro before after e reading rfl hfault hfit
    have hfault' := hfault
    rw [← Reading.steps_tidyBlock hfit] at hfault'
    rw [Session.build, Session.build, tidyBlock, List.map_append,
      Reading.steps_append_of_fault hfault, ← tidyBlock, Reading.steps_append_of_fault hfault']
  · intro theory htheory
    constructor
    · rintro ⟨theory', htheory', hentries⟩ line hline
      by_contra hfit
      obtain ⟨kernel, hsearch, -, -⟩ :=
        TheoryLine.length_tokens_tidy_lt (Bool.eq_false_iff.2 hfit)
      have hgives := (terms_of_build (Prod.ext htheory rfl)).2.1
      have hgives' := (terms_of_build (Prod.ext htheory' rfl)).2.1
      rw [termGroups_tidyBlock] at hgives'
      have hflat := List.rel_flatten hgives
      have hflat' := List.rel_flatten hgives'
      rw [← List.map_flatten] at hflat'
      refine hfit (fitsColumns_of_forall₂ hflat hflat' ?_ line (mem_groups_of_search hline hsearch))
      simpa [Theory.entries, List.map_flatten] using congrArg List.flatten hentries
    · intro hfit
      exact ⟨theory, by rw [build_tidyBlock_of_fitsColumns hfit, htheory], rfl⟩

/-- Functions with numbers of one figure fit their columns. -/
theorem build_tidyBlock_one_figure :
    ∃ theory theory', (Session.standard.build ⟨0, [], ⟨[1, 2]⟩⟩
        [⟨1, "ge fun1 fun2"⟩]).1 = .ok theory ∧
      (Session.standard.build ⟨0, [], ⟨[1, 2]⟩⟩ (tidyBlock [⟨1, "ge fun1 fun2"⟩])).1 =
        .ok theory' ∧ theory'.entries = theory.entries := by
  have h : (Session.standard.build ⟨0, [], ⟨[1, 2]⟩⟩
      [⟨1, "ge fun1 fun2"⟩]).1.isOk = true := by decide +kernel
  have hfit : ∀ line ∈ [(⟨1, "ge fun1 fun2"⟩ : TheoryLine)], line.fitsColumns = true := by
    decide +kernel
  obtain ⟨theory, htheory⟩ := exists_of_isOk h
  obtain ⟨theory', htheory', hentries⟩ :=
    ((build_tidyBlock .standard ⟨0, [], ⟨[1, 2]⟩⟩ [⟨1, "ge fun1 fun2"⟩]).2.2 theory htheory).2 hfit
  exact ⟨theory, theory', htheory, htheory', hentries⟩

/-- **A parameter that fills its column** becomes a part of the one in front of it, and a block that
builds need not build when it is tidied. -/
theorem not_build_tidyBlock :
    (∃ theory, (Session.standard.build ⟨0, [], ⟨[100, 101]⟩⟩
      [⟨1, "ge fun100 fun101"⟩]).1 = .ok theory) ∧
    ∀ theory, (Session.standard.build ⟨0, [], ⟨[100, 101]⟩⟩
      (tidyBlock [⟨1, "ge fun100 fun101"⟩])).1 ≠ .ok theory := by
  have h : (Session.standard.build ⟨0, [], ⟨[100, 101]⟩⟩
      [⟨1, "ge fun100 fun101"⟩]).1.isOk = true := by decide +kernel
  have htidy : (Session.standard.build ⟨0, [], ⟨[100, 101]⟩⟩
      (tidyBlock [⟨1, "ge fun100 fun101"⟩])).1.isOk = false := by decide +kernel
  refine ⟨exists_of_isOk h, fun theory hok => ?_⟩
  rw [hok] at htidy
  cases htidy

end MuonSpin
