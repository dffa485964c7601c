import Mathlib.Data.List.Forall2
import MuonSpin.Proofs.Block.Factors

/-!
# Terms and the groups of a block

The lines with content are cut into groups at the separators.

* `contentLines`, `termGroups`: these lines and their groups;
* `Theory.PlusOnHeads`: only the first factor of a term is linked to a next term;
* `Reading.steps_reads`, `Reading.steps_of_reads`: a block is read to its end exactly if its groups
  but the last are not empty and its other lines are read in sequence;
* **`build_iff_groups`**: a block builds if and only if every group is non-empty and the lines in the
  groups are read in sequence, and the terms of its theory are then the groups.
-/

namespace MuonSpin

/-! ## Groups -/

/-- The lines with content. -/
def contentLines (lines : List TheoryLine) : List TheoryLine :=
  lines.filter fun line => !line.content.isEmpty

/-- The lines with content between the separators. -/
def termGroups (lines : List TheoryLine) : List (List TheoryLine) :=
  (contentLines lines).splitOnP TheoryLine.isSeparator

section Groups

variable {line : TheoryLine} {lines : List TheoryLine}

@[simp] theorem termGroups_nil : termGroups [] = [[]] := rfl

theorem termGroups_ne_nil (lines : List TheoryLine) : termGroups lines ≠ [] :=
  List.splitOnP_ne_nil _ _

theorem termGroups_cons_blank (h : line.content.isEmpty = true) :
    termGroups (line :: lines) = termGroups lines := by
  simp [termGroups, contentLines, h]

theorem termGroups_cons_separator (h : line.content.isEmpty = false)
    (hs : line.isSeparator = true) : termGroups (line :: lines) = [] :: termGroups lines := by
  simp [termGroups, contentLines, h, List.splitOnP_cons_eq_if_modifyHead, hs]

theorem termGroups_cons_kernel (h : line.content.isEmpty = false)
    (hs : line.isSeparator = false) :
    termGroups (line :: lines) = (termGroups lines).modifyHead (line :: ·) := by
  simp [termGroups, contentLines, h, List.splitOnP_cons_eq_if_modifyHead, hs]

theorem flatten_termGroups (lines : List TheoryLine) :
    (termGroups lines).flatten = (contentLines lines).filter fun line => !line.isSeparator := by
  induction lines with
  | nil => rfl
  | cons line lines ih =>
    cases hc : line.content.isEmpty with
    | false =>
      cases hs : line.isSeparator with
      | false =>
        obtain ⟨group, groups, hgroups⟩ := List.exists_cons_of_ne_nil
          (termGroups_ne_nil lines)
        rw [hgroups, List.flatten_cons] at ih
        rw [termGroups_cons_kernel hc hs, hgroups, List.modifyHead_cons, List.flatten_cons,
          List.cons_append, ih]
        simp [contentLines, hc, hs]
      | true =>
        rw [termGroups_cons_separator hc hs, List.flatten_cons, List.nil_append, ih]
        simp [contentLines, hc, hs]
    | true =>
      rw [termGroups_cons_blank hc, ih]
      simp [contentLines, hc]

end Groups

/-! ## Links -/

namespace Theory

/-- No factor of the term is linked to a next term. -/
def WithoutPlus : Theory → Prop
  | nil => True
  | node _ times plus => times.WithoutPlus ∧ plus = nil

/-- Only the first factor of a term is linked to a next term. -/
def PlusOnHeads : Theory → Prop
  | nil => True
  | node _ times plus => times.WithoutPlus ∧ plus.PlusOnHeads

theorem withoutPlus_ofFactors (term : List Factor) : (ofFactors nil term).WithoutPlus := by
  induction term with
  | nil => trivial
  | cons factor rest ih => exact ⟨ih, rfl⟩

theorem plusOnHeads_ofTerms (terms : List (List Factor)) : (ofTerms terms).PlusOnHeads := by
  induction terms with
  | nil => trivial
  | cons term rest ih =>
    rcases term with _ | ⟨factor, factors⟩
    · trivial
    · exact ⟨withoutPlus_ofFactors factors, ih⟩

theorem ofFactors_factors {theory : Theory} (h : theory.WithoutPlus) :
    ofFactors nil theory.factors = theory := by
  induction theory with
  | nil => rfl
  | node factor times plus ihtimes _ =>
    obtain ⟨htimes, rfl⟩ := h
    rw [factors, ofFactors, ihtimes htimes]

theorem ofTerms_terms {theory : Theory} (h : theory.PlusOnHeads) :
    ofTerms theory.terms = theory := by
  induction theory with
  | nil => rfl
  | node factor times plus _ ihplus =>
    obtain ⟨htimes, hplus⟩ := h
    have hfold : ofTerms ((factor :: times.factors) :: plus.terms) =
        node factor (ofFactors nil times.factors) (ofTerms plus.terms) := rfl
    rw [terms, hfold, ofFactors_factors htimes, ihplus hplus]

end Theory

/-! ## Reading a block to its end -/

namespace Reading

variable {ctx : BuildContext} {reading reading' : Reading} {line : TheoryLine}
  {lines : List TheoryLine}

theorem steps_cons_of_step (h : reading.step ctx line = (none, reading')) :
    reading.steps ctx (line :: lines) = reading'.steps ctx lines := by
  rw [steps, h]

theorem steps_cons_of_fault {e : BuildError} (h : reading.step ctx line = (some e, reading')) :
    reading.steps ctx (line :: lines) = (some e, reading') := by
  rw [steps, h]

theorem step_blank (h : line.content.isEmpty = true) :
    reading.step ctx line = (none, reading) := by
  rw [step, if_pos h]

/-- The reading behind a separator. -/
def nextTerm (reading : Reading) (line : TheoryLine) : Reading :=
  { reading with
    terms := reading.terms ++ [reading.term], term := [], lastSeparator := some line.number }

/-- The reading behind a line that became a factor. -/
def addFactor (reading : Reading) (session : Session) (userCount : Nat) (factor : Factor) :
    Reading :=
  { reading with session, userCount, term := reading.term ++ [factor] }

theorem step_separator (h : line.content.isEmpty = false) (hs : line.isSeparator = true)
    (ht : reading.term ≠ []) : reading.step ctx line = (none, reading.nextTerm line) := by
  simp [step, h, hs, ht, nextTerm]

theorem step_kernel (h : line.content.isEmpty = false) (hs : line.isSeparator = false)
    {factor : Factor} {session : Session} {count : Nat}
    (hr : reading.session.readFactor ctx reading.userCount line.number line.tokens =
      (.ok factor, session, count)) :
    reading.step ctx line = (none, reading.addFactor session count factor) := by
  simp [step, h, hs, hr, addFactor]

/-- **What a step without a fault does.** -/
theorem step_cases (h : reading.step ctx line = (none, reading')) :
    (line.content.isEmpty = true ∧ reading' = reading) ∨
    (line.content.isEmpty = false ∧ line.isSeparator = true ∧ reading.term ≠ [] ∧
      reading' = reading.nextTerm line) ∨
    (line.content.isEmpty = false ∧ line.isSeparator = false ∧ ∃ factor session count,
      reading.session.readFactor ctx reading.userCount line.number line.tokens =
        (.ok factor, session, count) ∧ reading' = reading.addFactor session count factor) := by
  unfold step at h
  split_ifs at h with hc hs ht
  · cases h
    exact .inl ⟨hc, rfl⟩
  · cases h
  · cases h
    exact .inr (.inl ⟨by simpa using hc, hs, by simpa using ht, rfl⟩)
  · rcases hr : reading.session.readFactor ctx reading.userCount line.number line.tokens with
      ⟨_ | factor, session, count⟩
    · simp [hr] at h
    · simp only [hr] at h
      cases h
      exact .inr (.inr ⟨by simpa using hc, by simpa using hs, factor, session, count, rfl, rfl⟩)

/-- The terms of a reading that goes on with some terms, of which the first belongs to the current
one. -/
def extend (reading : Reading) (terms : List (List Factor)) : List (List Factor) :=
  reading.terms ++ terms.modifyHead (reading.term ++ ·)

/-- **Lines that are read to their end** are read in sequence, group by group. -/
theorem steps_reads (h : reading.steps ctx lines = (none, reading')) :
    ∃ terms, List.Forall₂ (List.Forall₂ (TheoryLine.Gives ctx)) (termGroups lines) terms ∧
      Reads ctx reading.session reading.userCount (termGroups lines).flatten terms.flatten
        reading'.session reading'.userCount ∧
      reading'.allTerms = reading.extend terms ∧
      ∀ term ∈ (terms.modifyHead (reading.term ++ ·)).dropLast, term ≠ [] := by
  induction lines generalizing reading with
  | nil =>
    cases h
    exact ⟨[[]], .cons .nil .nil, .nil, by simp [allTerms, extend], by simp⟩
  | cons line lines ih =>
    rcases hstep : reading.step ctx line with ⟨_ | e, reading₁⟩
    · rw [steps_cons_of_step hstep] at h
      obtain ⟨terms, hgives, hreads, hall, hne⟩ := ih h
      obtain ⟨t, ts, rfl⟩ : ∃ t ts, terms = t :: ts := by
        rcases terms with _ | ⟨t, ts⟩
        · exact absurd (List.forall₂_nil_right_iff.1 hgives) (termGroups_ne_nil lines)
        · exact ⟨t, ts, rfl⟩
      rcases step_cases hstep with ⟨hc, rfl⟩ | ⟨hc, hs, ht, rfl⟩ |
        ⟨hc, hs, factor, session, count, hr, rfl⟩
      · rw [termGroups_cons_blank hc]
        exact ⟨t :: ts, hgives, hreads, hall, hne⟩
      · rw [termGroups_cons_separator hc hs]
        refine ⟨[] :: t :: ts, .cons .nil hgives, hreads, ?_, ?_⟩
        · rw [hall]
          simp [extend, nextTerm]
        · simp only [List.modifyHead_cons, List.append_nil, List.dropLast_cons_cons, List.mem_cons]
          rintro term (rfl | hterm)
          · exact ht
          · exact hne term (by simpa [nextTerm] using hterm)
      · rw [termGroups_cons_kernel hc hs]
        obtain ⟨group, groups, hgroups⟩ := List.exists_cons_of_ne_nil
          (termGroups_ne_nil lines)
        rw [hgroups] at hgives hreads ⊢
        obtain ⟨hhead, htail⟩ := List.forall₂_cons.1 hgives
        refine ⟨(factor :: t) :: ts, .cons (.cons (Session.gives_of_readFactor hr) hhead) htail,
          .cons hr hreads, ?_, ?_⟩
        · rw [hall]
          simp [extend, addFactor]
        · simpa [addFactor] using hne
    · rw [steps_cons_of_fault hstep] at h
      cases h

/-- **Lines in groups that are read in sequence** are read to their end, if no group but a first one
that goes on with the current term is empty. -/
theorem steps_of_reads (reading : Reading) {factors : List Factor} {session' : Session}
    {count' : Nat}
    (h : Reads ctx reading.session reading.userCount (termGroups lines).flatten factors
      session' count')
    (hhead : reading.term ≠ [] ∨ (termGroups lines).head? ≠ some [])
    (htail : ∀ group ∈ (termGroups lines).tail, group ≠ []) :
    ∃ reading', reading.steps ctx lines = (none, reading') ∧ reading'.term ≠ [] := by
  induction lines generalizing reading factors with
  | nil => exact ⟨reading, rfl, by simpa using hhead⟩
  | cons line lines ih =>
    cases hc : line.content.isEmpty with
    | false =>
      obtain ⟨group, groups, hgroups⟩ := List.exists_cons_of_ne_nil
        (termGroups_ne_nil lines)
      cases hs : line.isSeparator with
      | false =>
        rw [termGroups_cons_kernel hc hs, hgroups, List.modifyHead_cons] at h htail
        rcases h with _ | ⟨hr, htl⟩
        rw [steps_cons_of_step (step_kernel hc hs hr)]
        exact ih _ (by rw [hgroups]; exact htl) (.inl (by simp [addFactor]))
          (by simpa [hgroups] using htail)
      | true =>
        rw [termGroups_cons_separator hc hs] at h hhead htail
        have hterm : reading.term ≠ [] := by simpa using hhead
        rw [steps_cons_of_step (step_separator hc hs hterm)]
        refine ih _ h (.inr ?_) fun g hg => htail g (List.mem_of_mem_tail hg)
        rw [hgroups, List.head?_cons]
        intro hnil
        exact htail group (by simp [hgroups]) (Option.some.inj hnil)
    | true =>
      rw [steps_cons_of_step (step_blank hc)]
      rw [termGroups_cons_blank hc] at h hhead htail
      exact ih reading h hhead htail

end Reading

/-! ## Building a block -/

theorem ne_nil_of_forall₂ {α β : Type} {R : α → β → Prop} {xs : List (List α)}
    {ys : List (List β)} (h : List.Forall₂ (List.Forall₂ R) xs ys) (hys : ∀ y ∈ ys, y ≠ []) :
    ∀ x ∈ xs, x ≠ [] := by
  induction h with
  | nil => simp
  | cons head _ ih =>
    obtain ⟨hy, hys⟩ := List.forall_mem_cons.1 hys
    refine List.forall_mem_cons.2 ⟨?_, ih hys⟩
    rintro rfl
    exact hy (List.forall₂_nil_left_iff.1 head)

theorem build_eq_ok_iff {session session' : Session} {ctx : BuildContext}
    {lines : List TheoryLine} {theory : Theory} :
    session.build ctx lines = (.ok theory, session') ↔
      ∃ reading, (Reading.start session).steps ctx lines = (none, reading) ∧ reading.term ≠ [] ∧
        theory = .ofTerms reading.allTerms ∧ session' = reading.session := by
  rcases hsteps : (Reading.start session).steps ctx lines with ⟨_ | e, reading⟩
  · rcases hterm : reading.term with _ | ⟨factor, factors⟩
    · rcases hlast : reading.lastSeparator with _ | line <;>
        simp [Session.build, hsteps, Reading.endError, hterm, hlast]
    · simp [Session.build, hsteps, Reading.endError, hterm, eq_comm]
  · simp [Session.build, hsteps]

section Build

variable {session session' : Session} {ctx : BuildContext} {lines : List TheoryLine}
  {theory : Theory}

theorem exists_build_of_isOk (h : (session.build ctx lines).1.isOk = true) :
    ∃ theory session', session.build ctx lines = (.ok theory, session') := by
  obtain ⟨theory, htheory⟩ := exists_of_isOk h
  exact ⟨theory, _, Prod.ext htheory rfl⟩

theorem Reading.allTerms_ne_nil {reading : Reading}
    (h : (Reading.start session).steps ctx lines = (none, reading)) (hterm : reading.term ≠ []) :
    ∀ term ∈ reading.allTerms, term ≠ [] := by
  obtain ⟨terms, -, -, hall, hne⟩ := Reading.steps_reads h
  have hid : terms.modifyHead ((Reading.start session).term ++ ·) = terms := by
    cases terms <;> rfl
  have hterms : reading.allTerms = terms := by
    rw [hall, Reading.extend, hid]
    rfl
  have hdrop : terms.dropLast = reading.terms := by
    rw [← hterms, Reading.allTerms, List.dropLast_concat]
  rw [hid, hdrop] at hne
  intro term hmem
  rw [Reading.allTerms, List.mem_append, List.mem_singleton] at hmem
  rcases hmem with hmem | rfl
  · exact hne term hmem
  · exact hterm

/-- **The terms of a theory that was built** are the groups of its block. -/
theorem terms_of_build (h : session.build ctx lines = (.ok theory, session')) :
    (∀ group ∈ termGroups lines, group ≠ []) ∧
      List.Forall₂ (List.Forall₂ (TheoryLine.Gives ctx)) (termGroups lines) theory.terms ∧
      (∃ count, Reads ctx session 0 (termGroups lines).flatten theory.terms.flatten
        session' count) ∧
      theory.PlusOnHeads := by
  obtain ⟨reading, hsteps, hterm, rfl, rfl⟩ := build_eq_ok_iff.1 h
  obtain ⟨terms, hgives, hreads, hall, -⟩ := Reading.steps_reads hsteps
  have hterms : reading.allTerms = terms := by
    rw [hall, Reading.extend]
    cases terms <;> rfl
  have hfull := Reading.allTerms_ne_nil hsteps hterm
  refine ⟨ne_nil_of_forall₂ hgives (hterms ▸ hfull), ?_, ⟨reading.userCount, ?_⟩,
    Theory.plusOnHeads_ofTerms _⟩
  · rw [Theory.terms_ofTerms hfull, hterms]
    exact hgives
  · rw [Theory.terms_ofTerms hfull, hterms]
    exact hreads

/-- **A block builds** if its groups are not empty and their lines are read in sequence. -/
theorem build_of_reads {factors : List Factor} {count : Nat}
    (hne : ∀ group ∈ termGroups lines, group ≠ [])
    (h : Reads ctx session 0 (termGroups lines).flatten factors session' count) :
    ∃ theory session', session.build ctx lines = (.ok theory, session') := by
  have hhead : (termGroups lines).head? ≠ some [] := fun hnil =>
    hne [] (List.mem_of_mem_head? hnil) rfl
  obtain ⟨reading, hsteps, hterm⟩ := Reading.steps_of_reads (.start session) h
    (.inr hhead) fun group hgroup => hne group (List.mem_of_mem_tail hgroup)
  exact ⟨_, _, build_eq_ok_iff.2 ⟨reading, hsteps, hterm, rfl, rfl⟩⟩

end Build

/-- **Blocks that build, and their terms.** A theory is returned if and only if every group of the
block is non-empty and its other lines are read in sequence; its terms are then the groups, factor by
line, and only the first factors of terms have links to next terms. -/
theorem build_iff_groups (session : Session) (ctx : BuildContext) (lines : List TheoryLine) :
    ((∃ theory session', session.build ctx lines = (.ok theory, session')) ↔
      (∀ group ∈ termGroups lines, group ≠ []) ∧
        ∃ factors session' count,
          Reads ctx session 0 (termGroups lines).flatten factors session' count) ∧
    ∀ theory session', session.build ctx lines = (.ok theory, session') →
      List.Forall₂ (List.Forall₂ (TheoryLine.Gives ctx)) (termGroups lines) theory.terms ∧
      (∃ count, Reads ctx session 0 (termGroups lines).flatten theory.terms.flatten
        session' count) ∧
      theory.PlusOnHeads := by
  refine ⟨⟨?_, ?_⟩, fun theory session' h => (terms_of_build h).2⟩
  · rintro ⟨theory, session', h⟩
    obtain ⟨hne, -, ⟨count, hreads⟩, -⟩ := terms_of_build h
    exact ⟨hne, _, _, _, hreads⟩
  · rintro ⟨hne, factors, session', count, h⟩
    exact build_of_reads hne h

end MuonSpin
