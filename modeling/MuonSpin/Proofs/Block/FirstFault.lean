import MuonSpin.Proofs.Block.Groups
import MuonSpin.Proofs.Layout.Words
import MuonSpin.Proofs.Session.Binding

/-!
# The first fault of a block

* `Session.Rejects`: why a line with a kernel becomes no factor. The kernel is looked up first, then
  the parameters are counted, a user function is found, its part is attached, and the parameters are
  read from left to right; **each check is made only if the ones before it succeed**;
  `Session.readFactor_eq_error_iff`: such a line is rejected exactly for this reason;
* `Reading.Stops`: the scan of a block cannot go on at a line;
* `EndFault`: what is wrong with a block that was scanned to its end;
* **`build_eq_error_iff`**: a block fails exactly with the fault of the first line at which the scan
  cannot go on, or with the fault of its end, and nothing behind that line matters.
-/

namespace MuonSpin

/-! ## Lines with a kernel -/

namespace Session

/-- All that stands in front of the parameters of a line is in order: the number of parameters, and
the user function if the line names one. -/
inductive Admits (session : Session) (count : Nat) : Kernel → List String → Session → Prop
  | formula {kernel : Kernel} {words : List String} (kind : kernel ≠ .user)
      (accepts : kernel.arity.accepts words.length = true) :
    Admits session count kernel words session
  | function {module type : String} {params : List String} {f : UserInstance} {session' : Session}
      (bound : session.Bound module type count f session') :
    Admits session count .user (module :: type :: params) session'

/-- Why the words of a line become no factor, and the session then. Every check presupposes that those
listed before it succeed. -/
inductive Rejects (ctx : BuildContext) (session : Session) (count : Nat) :
    List String → Fault → Session → Prop
  | unknownKernel {name : String} {words : List String} (search : Kernel.search name = none) :
    Rejects ctx session count (name :: words) (.undefinedKernel name) session
  | wrongCount {name : String} {words : List String} {kernel : Kernel}
      (search : Kernel.search name = some kernel)
      (refused : kernel.arity.accepts words.length = false) :
    Rejects ctx session count (name :: words) (.wrongCount kernel words.length) session
  | notFound {name module type : String} {params : List String} {session' : Session}
      (search : Kernel.search name = some .user)
      (notFound : session.NotFound module type session') :
    Rejects ctx session count (name :: module :: type :: params)
      (.userFunctionNotFound module type) session'
  | notBound {name module type : String} {params : List String} {session' : Session}
      {e : UserFunctionError} (search : Kernel.search name = some .user)
      (notBound : session.NotBound module type count e session') :
    Rejects ctx session count (name :: module :: type :: params)
      (.userFunctionNotBound type e) session'
  | token {name token : String} {words before after : List String} {kernel : Kernel}
      {session' : Session} {fault : Fault} (search : Kernel.search name = some kernel)
      (admitted : session.Admits count kernel words session')
      (params : kernel.parameterWords words = before ++ token :: after)
      (readable : ∀ t ∈ before, ∃ reference, ctx.readToken t = .ok reference)
      (unreadable : ctx.readToken token = .error fault) :
    Rejects ctx session count (name :: words) fault session'

end Session

theorem mapM_eq_error_iff {α β ε : Type} {f : α → Except ε β} {xs : List α} {e : ε} :
    xs.mapM f = .error e ↔
      ∃ before x after, xs = before ++ x :: after ∧ (∀ y ∈ before, ∃ b, f y = .ok b) ∧
        f x = .error e := by
  induction xs with
  | nil => simp [pure, Except.pure]
  | cons x xs ih =>
    rw [List.mapM_cons]
    cases hx : f x with
    | error e' =>
      constructor
      · intro h
        cases h
        exact ⟨[], x, xs, rfl, by simp, hx⟩
      · rintro ⟨before, y, after, hxs, hbefore, hy⟩
        rcases before with _ | ⟨b, before⟩
        · cases hxs
          rw [hx] at hy
          cases hy
          rfl
        · cases hxs
          obtain ⟨_, hb⟩ := hbefore x (by simp)
          rw [hx] at hb
          cases hb
    | ok b =>
      constructor
      · intro h
        cases hxs : xs.mapM f with
        | error e' =>
          rw [hxs] at h
          cases h
          obtain ⟨before, y, after, rfl, hbefore, hy⟩ := ih.1 hxs
          exact ⟨x :: before, y, after, rfl,
            List.forall_mem_cons.2 ⟨⟨b, hx⟩, hbefore⟩, hy⟩
        | ok bs =>
          rw [hxs] at h
          cases h
      · rintro ⟨before, y, after, hxs, hbefore, hy⟩
        rcases before with _ | ⟨z, before⟩
        · cases hxs
          rw [hx] at hy
          cases hy
        · cases hxs
          rw [ih.2 ⟨before, y, after, rfl, (List.forall_mem_cons.1 hbefore).2, hy⟩]
          rfl

namespace Session

variable {session session' : Session} {ctx : BuildContext} {count count' line : Nat}
  {kernel : Kernel} {words params : List String} {engine : Engine} {fault : Fault}

/-- Apart from the number of words, a formula does not look at them. -/
theorem readEngine_of_ne_user (hkernel : kernel ≠ .user) (session : Session) (count : Nat) :
    ∃ engine, ∀ words, session.readEngine count kernel words =
      (if kernel.arity.accepts words.length then .ok (engine, words)
        else .error (.wrongCount kernel words.length), session, count) := by
  cases kernel with
  | closed form =>
    refine ⟨.closed form, fun words => ?_⟩
    simp only [readEngine]
    split_ifs <;> rfl
  | static family =>
    refine ⟨.static ⟨family, .empty⟩, fun words => ?_⟩
    simp only [readEngine]
    split_ifs <;> rfl
  | dynamic family =>
    refine ⟨.dynamic ⟨family, .empty⟩, fun words => ?_⟩
    simp only [readEngine]
    split_ifs <;> rfl
  | user => exact absurd rfl hkernel

theorem accepts_user_iff : Kernel.user.arity.accepts words.length = true ↔
    ∃ module type params, words = module :: type :: params := by
  rcases words with _ | ⟨module, _ | ⟨type, params⟩⟩ <;>
    simp [Kernel.arity, Kernel.signature, Arity.accepts]

theorem readEngine_of_refused (h : kernel.arity.accepts words.length = false) :
    session.readEngine count kernel words =
      (.error (.wrongCount kernel words.length), session, count) := by
  by_cases hkernel : kernel = .user
  · subst hkernel
    rcases words with _ | ⟨module, _ | ⟨type, params⟩⟩
    · rfl
    · rfl
    · rw [accepts_user_iff.2 ⟨module, type, params, rfl⟩] at h
      cases h
  · obtain ⟨engine, hread⟩ := readEngine_of_ne_user hkernel session count
    rw [hread, h]
    rfl

theorem Admits.readEngine (h : session.Admits count kernel words session') :
    ∃ engine count', session.readEngine count kernel words =
      (.ok (engine, kernel.parameterWords words), session', count') := by
  cases h with
  | formula kind accepts =>
    obtain ⟨engine, hread⟩ := readEngine_of_ne_user kind session count
    exact ⟨engine, count, by rw [hread, accepts, kernel.parameterWords_of_ne_user kind]; rfl⟩
  | @function module type params f _ bound =>
    refine ⟨.user f, count + 1, ?_⟩
    simp [Session.readEngine, bindFunction_eq_ok_iff.2 bound, Kernel.parameterWords]

theorem admits_of_readEngine
    (h : session.readEngine count kernel words = (.ok (engine, params), session', count')) :
    session.Admits count kernel words session' := by
  by_cases hkernel : kernel = .user
  · subst hkernel
    rcases words with _ | ⟨module, _ | ⟨type, params⟩⟩
    · cases h
    · cases h
    · rcases hbind : session.bindFunction module type count with ⟨_ | f, session₁⟩
      · simp [readEngine, hbind] at h
      · simp only [readEngine, hbind] at h
        cases h
        exact .function (bindFunction_eq_ok_iff.1 hbind)
  · obtain ⟨engine', hread⟩ := readEngine_of_ne_user hkernel session count
    rw [hread] at h
    by_cases haccepts : kernel.arity.accepts words.length = true
    · rw [if_pos haccepts] at h
      cases h
      exact .formula hkernel haccepts
    · rw [if_neg haccepts] at h
      cases h

theorem fault_of_readEngine
    (h : session.readEngine count kernel words = (.error fault, session', count')) :
    (kernel.arity.accepts words.length = false ∧ fault = .wrongCount kernel words.length ∧
      session' = session) ∨
    ∃ module type params, kernel = .user ∧ words = module :: type :: params ∧
      session.bindFunction module type count = (.error fault, session') := by
  cases haccepts : kernel.arity.accepts words.length with
  | false =>
    rw [readEngine_of_refused haccepts] at h
    cases h
    exact .inl ⟨rfl, rfl, rfl⟩
  | true =>
    by_cases hkernel : kernel = .user
    · subst hkernel
      obtain ⟨module, type, params, rfl⟩ := accepts_user_iff.1 haccepts
      refine .inr ⟨module, type, params, rfl, rfl, ?_⟩
      rcases hbind : session.bindFunction module type count with ⟨e | f, session₁⟩
      · simp only [readEngine, hbind] at h
        cases h
        rfl
      · simp [readEngine, hbind] at h
    · obtain ⟨engine', hread⟩ := readEngine_of_ne_user hkernel session count
      rw [hread, haccepts] at h
      cases h

theorem rejects_of_readFactor {name : String}
    (h : session.readFactor ctx count line (name :: words) = (.error fault, session', count')) :
    session.Rejects ctx count (name :: words) fault session' := by
  unfold readFactor at h
  simp only [List.headD_cons, List.tail_cons] at h
  cases hsearch : Kernel.search name with
  | none =>
    simp only [hsearch] at h
    cases h
    exact .unknownKernel hsearch
  | some kernel =>
    simp only [hsearch] at h
    rcases hread : session.readEngine count kernel words with
      ⟨e | ⟨engine, params⟩, session₁, count₁⟩
    · simp only [hread] at h
      cases h
      rcases fault_of_readEngine hread with ⟨hrefused, rfl, rfl⟩ |
        ⟨module, type, params, rfl, rfl, hbind⟩
      · exact .wrongCount hsearch hrefused
      · rcases bindFunction_eq_error_iff.1 hbind with ⟨rfl, hnot⟩ | ⟨e, rfl, hnot⟩
        · exact .notFound hsearch hnot
        · exact .notBound hsearch hnot
    · simp only [hread] at h
      obtain ⟨-, hparams⟩ := kernel_of_readEngine hread
      cases htokens : params.mapM ctx.readToken with
      | error e =>
        simp only [htokens] at h
        cases h
        obtain ⟨before, token, after, hsplit, hbefore, htoken⟩ := mapM_eq_error_iff.1 htokens
        exact .token hsearch (admits_of_readEngine hread) (hparams.symm.trans hsplit) hbefore htoken
      | ok references =>
        simp only [htokens] at h
        cases h

theorem Rejects.readFactor (h : session.Rejects ctx count words fault session') (line : Nat) :
    ∃ count', session.readFactor ctx count line words = (.error fault, session', count') := by
  cases h with
  | unknownKernel search =>
    exact ⟨count, by simp [Session.readFactor, search]⟩
  | wrongCount search refused =>
    exact ⟨count, by simp [Session.readFactor, search, readEngine_of_refused refused]⟩
  | notFound search notFound =>
    have hbind : session.bindFunction _ _ count = _ :=
      bindFunction_eq_error_iff.2 (.inl ⟨rfl, notFound⟩)
    exact ⟨count + 1, by simp [Session.readFactor, search, readEngine, hbind]⟩
  | notBound search notBound =>
    have hbind := bindFunction_eq_error_iff.2 (.inr ⟨_, rfl, notBound⟩)
    exact ⟨count + 1, by simp [Session.readFactor, search, readEngine, hbind]⟩
  | @token _ _ _ before _ _ _ _ search admitted params readable unreadable =>
    obtain ⟨engine, count', hread⟩ := admitted.readEngine
    have htokens := mapM_eq_error_iff.2 ⟨before, _, _, params, readable, unreadable⟩
    exact ⟨count', by simp [Session.readFactor, search, hread, htokens]⟩

/-- **A line becomes no factor** exactly if one of the checks fails, and its fault is that of the first
check that does. -/
theorem readFactor_eq_error_iff {name : String} :
    (∃ count', session.readFactor ctx count line (name :: words) =
      (.error fault, session', count')) ↔
      session.Rejects ctx count (name :: words) fault session' :=
  ⟨fun ⟨_, h⟩ => rejects_of_readFactor h, fun h => h.readFactor line⟩

end Session

/-! ## Scanning a block -/

theorem TheoryLine.isEmpty_of_isSeparator {line : TheoryLine} (h : line.isSeparator = true) :
    line.content.isEmpty = false := by
  by_contra hempty
  have htokens : line.tokens = [] := isEmpty_content_iff.1 (by simpa using hempty)
  simp [isSeparator, htokens] at h

namespace Reading

variable {ctx : BuildContext} {reading reading' : Reading} {line : TheoryLine}
  {lines before after : List TheoryLine} {e : BuildError} {fault : Fault} {session' : Session}

/-- The scan cannot go on at a line: a separator has no term in front of it, or a line becomes no
factor. -/
inductive Stops (ctx : BuildContext) (reading : Reading) (line : TheoryLine) :
    Fault → Session → Prop
  | separator (isSeparator : line.isSeparator = true) (noTerm : reading.term = []) :
    Stops ctx reading line .misplacedSeparator reading.session
  | kernel {fault : Fault} {session' : Session} (content : line.content.isEmpty = false)
      (noSeparator : line.isSeparator = false)
      (rejects : reading.session.Rejects ctx reading.userCount line.tokens fault session') :
    Stops ctx reading line fault session'

theorem Stops.step (h : reading.Stops ctx line fault session') :
    ∃ reading', reading.step ctx line = (some ⟨line.number, fault⟩, reading') ∧
      reading'.session = session' := by
  cases h with
  | separator isSeparator noTerm =>
    refine ⟨reading, ?_, rfl⟩
    simp [Reading.step, TheoryLine.isEmpty_of_isSeparator isSeparator, isSeparator, noTerm]
  | kernel content noSeparator rejects =>
    obtain ⟨count, hread⟩ := rejects.readFactor line.number
    refine ⟨{ reading with session := session', userCount := count }, ?_, rfl⟩
    simp [Reading.step, content, noSeparator, hread]

theorem stops_of_step (h : reading.step ctx line = (some e, reading')) :
    ∃ fault, e = ⟨line.number, fault⟩ ∧ reading.Stops ctx line fault reading'.session := by
  unfold step at h
  split_ifs at h with hc hs ht
  · cases h
  · cases h
    exact ⟨_, rfl, .separator hs (by simpa using ht)⟩
  · cases h
  · rcases hr : reading.session.readFactor ctx reading.userCount line.number line.tokens with
      ⟨fault | factor, session, count⟩
    · simp only [hr] at h
      cases h
      have hne : line.tokens ≠ [] := fun hnil =>
        hc (TheoryLine.isEmpty_content_iff.2 hnil)
      obtain ⟨name, words, hwords⟩ := List.exists_cons_of_ne_nil hne
      rw [hwords] at hr
      refine ⟨fault, rfl, .kernel (by simpa using hc) (by simpa using hs) ?_⟩
      rw [hwords]
      exact Session.rejects_of_readFactor hr
    · simp [hr] at h

theorem steps_append_of_none (h : reading.steps ctx before = (none, reading')) :
    reading.steps ctx (before ++ after) = reading'.steps ctx after := by
  induction before generalizing reading with
  | nil =>
    cases h
    rfl
  | cons line before ih =>
    rcases hstep : reading.step ctx line with ⟨_ | e, reading₁⟩
    · rw [steps_cons_of_step hstep] at h
      rw [List.cons_append, steps_cons_of_step hstep, ih h]
    · rw [steps_cons_of_fault hstep] at h
      cases h

/-- **A scan that is broken off** scans all lines in front of the one where it stops. -/
theorem exists_stops_of_steps (h : reading.steps ctx lines = (some e, reading')) :
    ∃ before line after reading₁ fault, lines = before ++ line :: after ∧
      reading.steps ctx before = (none, reading₁) ∧
      reading₁.Stops ctx line fault reading'.session ∧ e = ⟨line.number, fault⟩ := by
  induction lines generalizing reading with
  | nil => cases h
  | cons line lines ih =>
    rcases hstep : reading.step ctx line with ⟨_ | e', reading₁⟩
    · rw [steps_cons_of_step hstep] at h
      obtain ⟨before, line', after, reading₂, fault, rfl, hbefore, hstops, he⟩ := ih h
      exact ⟨line :: before, line', after, reading₂, fault, rfl,
        by rw [steps_cons_of_step hstep, hbefore], hstops, he⟩
    · rw [steps_cons_of_fault hstep] at h
      cases h
      obtain ⟨fault, rfl, hstops⟩ := stops_of_step hstep
      exact ⟨[], line, lines, reading, fault, rfl, rfl, hstops, rfl⟩

/-- What a scan of lines leaves, by the last of them with content. -/
inductive Ends (reading : Reading) (lines : List TheoryLine) (reading' : Reading) : Prop
  | blank (noContent : contentLines lines = []) (term : reading'.term = reading.term)
      (lastSeparator : reading'.lastSeparator = reading.lastSeparator)
  | separator {line : TheoryLine} (last : (contentLines lines).getLast? = some line)
      (isSeparator : line.isSeparator = true) (term : reading'.term = [])
      (lastSeparator : reading'.lastSeparator = some line.number)
  | factor {line : TheoryLine} (last : (contentLines lines).getLast? = some line)
      (noSeparator : line.isSeparator = false) (term : reading'.term ≠ [])

theorem contentLines_cons (h : line.content.isEmpty = false) :
    contentLines (line :: lines) = line :: contentLines lines := by
  simp [contentLines, h]

theorem getLast?_contentLines_cons {last : TheoryLine}
    (h : (contentLines lines).getLast? = some last) (hc : line.content.isEmpty = false) :
    (contentLines (line :: lines)).getLast? = some last := by
  rw [contentLines_cons hc, List.getLast?_cons, h, Option.getD_some]

theorem Ends.cons_separator (h : (reading.nextTerm line).Ends lines reading')
    (hc : line.content.isEmpty = false) (hs : line.isSeparator = true) :
    reading.Ends (line :: lines) reading' := by
  cases h with
  | blank noContent term lastSeparator =>
    have hlast : (contentLines (line :: lines)).getLast? = some line := by
      rw [contentLines_cons hc, noContent, List.getLast?_singleton]
    exact .separator hlast hs term lastSeparator
  | separator last isSeparator term lastSeparator =>
    exact .separator (getLast?_contentLines_cons last hc) isSeparator term lastSeparator
  | factor last noSeparator term =>
    exact .factor (getLast?_contentLines_cons last hc) noSeparator term

theorem Ends.cons_factor {session : Session} {count : Nat} {factor : Factor}
    (h : (reading.addFactor session count factor).Ends lines reading')
    (hc : line.content.isEmpty = false) (hs : line.isSeparator = false) :
    reading.Ends (line :: lines) reading' := by
  cases h with
  | blank noContent term lastSeparator =>
    have hlast : (contentLines (line :: lines)).getLast? = some line := by
      rw [contentLines_cons hc, noContent, List.getLast?_singleton]
    exact .factor hlast hs (by simp [term, addFactor])
  | separator last isSeparator term lastSeparator =>
    exact .separator (getLast?_contentLines_cons last hc) isSeparator term lastSeparator
  | factor last noSeparator term =>
    exact .factor (getLast?_contentLines_cons last hc) noSeparator term

theorem Ends.cons_blank (h : reading.Ends lines reading') (hc : line.content.isEmpty = true) :
    reading.Ends (line :: lines) reading' := by
  have hcons : contentLines (line :: lines) = contentLines lines := by simp [contentLines, hc]
  cases h with
  | blank noContent term lastSeparator =>
    exact .blank (by rw [hcons, noContent]) term lastSeparator
  | separator last isSeparator term lastSeparator =>
    exact .separator (by rw [hcons, last]) isSeparator term lastSeparator
  | factor last noSeparator term =>
    exact .factor (by rw [hcons, last]) noSeparator term

/-- **The last line with content** decides whether the current term is empty after a scan, and a last
separator is remembered. -/
theorem ends_of_steps (h : reading.steps ctx lines = (none, reading')) :
    reading.Ends lines reading' := by
  induction lines generalizing reading with
  | nil =>
    cases h
    exact .blank rfl rfl rfl
  | cons line lines ih =>
    rcases hstep : reading.step ctx line with ⟨_ | e, reading₁⟩
    · rw [steps_cons_of_step hstep] at h
      rcases step_cases hstep with ⟨hc, rfl⟩ | ⟨hc, hs, -, rfl⟩ |
        ⟨hc, hs, factor, session, count, -, rfl⟩
      · exact (ih h).cons_blank hc
      · exact (ih h).cons_separator hc hs
      · exact (ih h).cons_factor hc hs
    · rw [steps_cons_of_fault hstep] at h
      cases h

end Reading

/-! ## Blocks that do not build -/

/-- What is wrong with a block whose lines are all scanned: its last line with content is a separator,
or it has no line with content. -/
inductive EndFault (lines : List TheoryLine) : BuildError → Prop
  | trailingSeparator {line : TheoryLine} (last : (contentLines lines).getLast? = some line)
      (isSeparator : line.isSeparator = true) : EndFault lines ⟨line.number, .misplacedSeparator⟩
  | empty (noContent : contentLines lines = []) :
    EndFault lines ⟨(lines.head?.map (·.number)).getD 0, .emptyTheory⟩

section Build

variable {session session' : Session} {ctx : BuildContext} {lines before after : List TheoryLine}
  {line : TheoryLine} {reading : Reading} {e : BuildError} {fault : Fault}

theorem endError_eq_some_iff (h : (Reading.start session).steps ctx lines = (none, reading)) :
    reading.endError ((lines.head?.map (·.number)).getD 0) = some e ↔ EndFault lines e := by
  cases Reading.ends_of_steps h with
  | blank noContent term lastSeparator =>
    have hend : reading.endError ((lines.head?.map (·.number)).getD 0) =
        some ⟨(lines.head?.map (·.number)).getD 0, .emptyTheory⟩ := by
      simp [Reading.endError, term, lastSeparator, Reading.start]
    rw [hend, Option.some_inj]
    constructor
    · rintro rfl
      exact .empty noContent
    · rintro (⟨hlast, -⟩ | -)
      · simp [noContent] at hlast
      · rfl
  | @separator line last isSeparator term lastSeparator =>
    have hend : reading.endError ((lines.head?.map (·.number)).getD 0) =
        some ⟨line.number, .misplacedSeparator⟩ := by
      simp [Reading.endError, term, lastSeparator]
    rw [hend, Option.some_inj]
    constructor
    · rintro rfl
      exact .trailingSeparator last isSeparator
    · rintro (⟨hlast, -⟩ | hnil)
      · rw [last, Option.some_inj] at hlast
        rw [hlast]
      · simp [hnil] at last
  | factor last noSeparator term =>
    have hend : reading.endError ((lines.head?.map (·.number)).getD 0) = none := by
      simp [Reading.endError, term]
    rw [hend]
    constructor
    · intro h
      cases h
    · rintro (⟨hlast, hs⟩ | hnil)
      · rw [last, Option.some_inj] at hlast
        rw [hlast, hs] at noSeparator
        cases noSeparator
      · simp [hnil] at last

/-- The scan of a block goes through some lines and cannot go on at the next one. -/
def Session.StopsAt (session : Session) (ctx : BuildContext) (before : List TheoryLine)
    (line : TheoryLine) (fault : Fault) (session' : Session) : Prop :=
  ∃ reading, (Reading.start session).steps ctx before = (none, reading) ∧
    reading.Stops ctx line fault session'

theorem Session.StopsAt.build (h : session.StopsAt ctx before line fault session')
    (after : List TheoryLine) :
    session.build ctx (before ++ line :: after) = (.error ⟨line.number, fault⟩, session') := by
  obtain ⟨reading, hbefore, hstops⟩ := h
  obtain ⟨reading', hstep, rfl⟩ := hstops.step
  have hsteps : (Reading.start session).steps ctx (before ++ line :: after) =
      (some ⟨line.number, fault⟩, reading') := by
    rw [Reading.steps_append_of_none hbefore, Reading.steps_cons_of_fault hstep]
  simp [Session.build, hsteps]

end Build

/-- **The first fault of a block.** A block fails exactly in one of two ways. Either some lines are
scanned and the scan cannot go on at the next one, whose number the error carries: this is a separator
without a term in front of it, or a line whose first failing check gives the fault. Or all lines are
scanned, and the last line with content is a separator or there is none. What stands behind a line at
which the scan cannot go on changes neither the error nor the session. -/
theorem build_eq_error_iff (session : Session) (ctx : BuildContext) :
    (∀ lines e session', session.build ctx lines = (.error e, session') ↔
      (∃ before line after fault, lines = before ++ line :: after ∧
        session.StopsAt ctx before line fault session' ∧ e = ⟨line.number, fault⟩) ∨
      ∃ reading, (Reading.start session).steps ctx lines = (none, reading) ∧
        reading.session = session' ∧ EndFault lines e) ∧
    ∀ before line fault session', session.StopsAt ctx before line fault session' →
      ∀ after, session.build ctx (before ++ line :: after) =
        (.error ⟨line.number, fault⟩, session') := by
  refine ⟨fun lines e session' => ⟨?_, ?_⟩, fun before line fault session' h => h.build⟩
  · intro h
    rcases hsteps : (Reading.start session).steps ctx lines with ⟨_ | e', reading⟩
    · cases hend : reading.endError ((lines.head?.map (·.number)).getD 0) with
      | none => simp [Session.build, hsteps, hend] at h
      | some e' =>
        simp only [Session.build, hsteps, hend] at h
        cases h
        exact .inr ⟨reading, rfl, rfl, (endError_eq_some_iff hsteps).1 hend⟩
    · simp only [Session.build, hsteps] at h
      cases h
      obtain ⟨before, line, after, reading₁, fault, hlines, hbefore, hstops, he⟩ :=
        Reading.exists_stops_of_steps hsteps
      exact .inl ⟨before, line, after, fault, hlines, ⟨reading₁, hbefore, hstops⟩, he⟩
  · rintro (⟨before, line, after, fault, rfl, hstops, rfl⟩ | ⟨reading, hsteps, rfl, hend⟩)
    · exact hstops.build after
    · simp [Session.build, hsteps, (endError_eq_some_iff hsteps).2 hend]

/-- The parameter of a user function is out of range: the table that the function shares stays, and
whatever follows does not matter. -/
theorem build_eq_error_iff_user_parameter :
    ∃ session', session'.parts.size = 1 ∧ ∀ after,
      Session.standard.build ⟨1, [], ⟨[]⟩⟩ ([⟨7, "asymmetry 1"⟩] ++
          ⟨8, "userFcn libBuiltinUserFcn TabulatedExpFcn 9"⟩ :: after) =
        (.error ⟨8, .parameterOutOfRange 9 1⟩, session') := by
  have hbefore : ((Reading.start .standard).steps ⟨1, [], ⟨[]⟩⟩ [⟨7, "asymmetry 1"⟩]).1 = none := by
    decide +kernel
  have hfault : (((Reading.start .standard).steps ⟨1, [], ⟨[]⟩⟩ [⟨7, "asymmetry 1"⟩]).2.step
      ⟨1, [], ⟨[]⟩⟩ ⟨8, "userFcn libBuiltinUserFcn TabulatedExpFcn 9"⟩).1 =
        some ⟨8, .parameterOutOfRange 9 1⟩ := by
    decide +kernel
  have hsize : (((Reading.start .standard).steps ⟨1, [], ⟨[]⟩⟩ [⟨7, "asymmetry 1"⟩]).2.step
      ⟨1, [], ⟨[]⟩⟩ ⟨8, "userFcn libBuiltinUserFcn TabulatedExpFcn 9"⟩).2.session.parts.size = 1 := by
    decide +kernel
  obtain ⟨fault, he, hstops⟩ := Reading.stops_of_step (Prod.ext hfault rfl)
  cases he
  exact ⟨_, hsize, (build_eq_error_iff .standard ⟨1, [], ⟨[]⟩⟩).2 _ _ _ _
    ⟨_, Prod.ext hbefore rfl, hstops⟩⟩

end MuonSpin
