import MuonSpin.Proofs.Evaluation.Shape

/-!
# Why evaluations stop

An evaluation gives no value at a reference outside the given lists, at a kernel with too few values,
at a table that cannot be computed or read, and at a user function that gives none.

* `Reference.InRange`, `Factor.resolve?_of_inRange`: the values of references that are in range;
* `Kernel.reads`, `ClosedForm.value_eq_none_iff`: how many values a kernel reads at least;
* `Theory.Halts`: where an evaluation stops first, and why;
  **`Theory.evaluateInto_eq_none_iff`**: these are all reasons;
* `Factor.InRange`, **`Theory.Halts.not_outOfRange`**: a tree whose factors are in range does not stop
  at a reference or for want of values.
-/

namespace MuonSpin

/-! ## References -/

/-- The reference has a value. -/
def Reference.InRange (point : Point) : Reference → Prop
  | parameter i => i < point.params.length
  | function i => i < point.funcs.length

/-- The bit pattern of a reference's value, zero if it has none. -/
def Point.valueOf (point : Point) (reference : Reference) : UInt64 :=
  (reference.resolve? point.params point.funcs).getD 0

section References

variable {point : Point} {reference : Reference} {factor : Factor}

theorem Reference.resolve?_of_inRange (h : reference.InRange point) :
    reference.resolve? point.params point.funcs = some (point.valueOf reference) := by
  cases reference with
  | parameter i =>
    have hi : i < point.params.length := h
    simp [resolve?, Point.valueOf, hi]
  | function i =>
    have hi : i < point.funcs.length := h
    simp [resolve?, Point.valueOf, hi]

theorem Reference.resolve?_of_not_inRange (h : ¬ reference.InRange point) :
    reference.resolve? point.params point.funcs = none := by
  cases reference with
  | parameter i => exact List.getElem?_eq_none (Nat.le_of_not_lt h)
  | function i => exact List.getElem?_eq_none (Nat.le_of_not_lt h)

/-- **References in range** give the list of their values, be they few or many. -/
theorem Factor.resolve?_of_inRange (h : ∀ r ∈ factor.references, r.InRange point) :
    factor.resolve? point = some (factor.references.map point.valueOf) := by
  rw [resolve?_eq_mapM]
  generalize factor.references = references at h ⊢
  induction references with
  | nil => rfl
  | cons r references ih =>
    obtain ⟨hr, hreferences⟩ := List.forall_mem_cons.1 h
    rw [List.mapM_cons, Reference.resolve?_of_inRange hr, ih hreferences]
    rfl

theorem Factor.resolve?_of_not_inRange (hmem : reference ∈ factor.references)
    (h : ¬ reference.InRange point) : factor.resolve? point = none := by
  rw [resolve?_eq_mapM]
  generalize factor.references = references at hmem ⊢
  induction references with
  | nil => cases hmem
  | cons r references ih =>
    rw [List.mapM_cons]
    rcases List.mem_cons.1 hmem with rfl | hmem
    · rw [Reference.resolve?_of_not_inRange h]
      rfl
    · rw [ih hmem]
      cases r.resolve? point.params point.funcs <;> rfl

end References

/-! ## Kernels -/

/-- How many values the kernel reads whatever their number is. -/
def Kernel.reads : Kernel → Nat
  | closed .polynomial => 0
  | closed form => form.signature.arity.least
  | static _ => 2
  | dynamic _ => 3
  | user => 0

theorem Kernel.reads_le_least (kernel : Kernel) : kernel.reads ≤ kernel.arity.least := by
  cases kernel with
  | closed form => cases form <;> decide
  | static family => cases family <;> decide
  | dynamic family => cases family <;> decide
  | user => decide

theorem Arity.least_le_of_accepts {arity : Arity} {count : Nat} (h : arity.accepts count = true) :
    arity.least ≤ count := by
  cases arity with
  | exactly n =>
    have hcount : count = n ∨ count = n + 1 := by simpa [accepts] using h
    show n ≤ count
    omega
  | atLeast n => exact of_decide_eq_true h

/-- **A formula has a value** unless there are fewer values than it reads. -/
theorem ClosedForm.value_eq_none_iff (form : ClosedForm) (t : Float) {val : List Float} :
    form.value t val = none ↔ val.length < (Kernel.closed form).reads := by
  cases form with
  | polynomial =>
    constructor
    · intro h
      cases h
    · intro h
      exact absurd h (Nat.not_lt_zero _)
  | _ => exact withFirst_eq_none_iff

theorem StaticKernel.value_of_few (kernel : StaticKernel) (t : Float) {val : List UInt64}
    (h : val.length < 2) :
    (kernel.value t val).1 = none := by
  rcases val with _ | ⟨a, _ | ⟨b, val⟩⟩
  · rfl
  · rfl
  · simp only [List.length_cons] at h
    omega

theorem DynamicKernel.value_of_few (kernel : DynamicKernel) (t : Float) {val : List UInt64}
    (h : val.length < 3) :
    (kernel.value t val).1 = none := by
  rcases val with _ | ⟨a, _ | ⟨b, _ | ⟨c, val⟩⟩⟩
  · rfl
  · rfl
  · rfl
  · simp only [List.length_cons] at h
    omega

/-! ## Reasons -/

/-- Why an evaluation stops. -/
inductive Halt where
  /-- The reference lies outside the lists of values. -/
  | noReference (reference : Reference)
  /-- The kernel reads more values than it got. -/
  | noValue (kernel : Kernel) (count : Nat)
  /-- A table of the kernel cannot be computed or read. -/
  | noTable (kernel : Kernel)
  /-- The user function gives no value. -/
  | userFunction

/-- A list of values is read out of range. -/
def Halt.OutOfRange : Halt → Prop
  | noReference _ | noValue _ _ => True
  | noTable _ | userFunction => False

/-- Why an engine gives no value. -/
inductive Engine.Halts (engine : Engine) (t : Float) (val : List UInt64) (parts : GlobalParts) :
    Halt → Prop
  | noValue (few : val.length < engine.kernel.reads) :
    Halts engine t val parts (.noValue engine.kernel val.length)
  | noTable (kind : engine.kernel.isTabulated = true) (enough : engine.kernel.reads ≤ val.length)
      (none : (engine.value t val parts).1 = none) : Halts engine t val parts (.noTable engine.kernel)
  | userFunction (kind : engine.kernel = .user) (none : (engine.value t val parts).1 = none) :
    Halts engine t val parts .userFunction

theorem Engine.value_eq_none_iff (engine : Engine) (t : Float) (val : List UInt64)
    (parts : GlobalParts) :
    (engine.value t val parts).1 = none ↔ ∃ halt, engine.Halts t val parts halt := by
  constructor
  · intro h
    by_cases hfew : val.length < engine.kernel.reads
    · exact ⟨_, .noValue hfew⟩
    · cases engine with
      | closed form =>
        rw [← length_numbers] at hfew
        exact absurd ((form.value_eq_none_iff t).1 h) hfew
      | static k => exact ⟨_, .noTable rfl (Nat.le_of_not_lt hfew) h⟩
      | dynamic k => exact ⟨_, .noTable rfl (Nat.le_of_not_lt hfew) h⟩
      | user f => exact ⟨_, .userFunction rfl h⟩
  · rintro ⟨halt, hhalt⟩
    cases hhalt with
    | noValue few =>
      cases engine with
      | closed form =>
        rw [← length_numbers] at few
        exact (form.value_eq_none_iff t).2 few
      | static k => exact k.value_of_few t few
      | dynamic k => exact k.value_of_few t few
      | user f => exact absurd few (Nat.not_lt_zero _)
    | noTable kind enough none => exact none
    | userFunction kind none => exact none

/-- Why a factor has no value: a reference is out of range, or its engine gives none. -/
inductive Factor.Halts (factor : Factor) (point : Point) (parts : GlobalParts) : Halt → Prop
  | noReference {reference : Reference} (mem : reference ∈ factor.references)
      (out : ¬ reference.InRange point) : Halts factor point parts (.noReference reference)
  | engine {halt : Halt} (references : ∀ r ∈ factor.references, r.InRange point)
      (halts : factor.engine.Halts point.t (factor.references.map point.valueOf) parts halt) :
    Halts factor point parts halt

theorem Factor.value_of_inRange {factor : Factor} {point : Point}
    (h : ∀ r ∈ factor.references, r.InRange point) (parts : GlobalParts) :
    factor.value point parts =
      ((factor.engine.value point.t (factor.references.map point.valueOf) parts).1,
        { factor with engine :=
            (factor.engine.value point.t (factor.references.map point.valueOf) parts).2.1 },
        (factor.engine.value point.t (factor.references.map point.valueOf) parts).2.2) := by
  rw [value, resolve?_of_inRange h]

theorem Factor.value_eq_none_iff (factor : Factor) (point : Point) (parts : GlobalParts) :
    (factor.value point parts).1 = none ↔ ∃ halt, factor.Halts point parts halt := by
  by_cases href : ∀ r ∈ factor.references, r.InRange point
  · rw [value_of_inRange href, Engine.value_eq_none_iff]
    constructor
    · rintro ⟨halt, hhalt⟩
      exact ⟨halt, .engine href hhalt⟩
    · rintro ⟨halt, ⟨hmem, hout⟩ | ⟨-, hhalt⟩⟩
      · exact absurd (href _ hmem) hout
      · exact ⟨halt, hhalt⟩
  · push Not at href
    obtain ⟨r, hmem, hout⟩ := href
    have hnone : factor.value point parts = (none, factor, parts) := by
      rw [value, resolve?_of_not_inRange hmem hout]
    rw [hnone]
    exact ⟨fun _ => ⟨_, .noReference hmem hout⟩, fun _ => rfl⟩

namespace Theory

/-- Where the evaluation of a tree stops first, and why: at its factor, or in the rest of the term, or
in the next terms. -/
inductive Halts (point : Point) : Theory → GlobalParts → Halt → Prop
  | factor {factor : Factor} {times plus : Theory} {parts : GlobalParts} {halt : Halt}
      (halts : factor.Halts point parts halt) : Halts point (.node factor times plus) parts halt
  | times {factor factor' : Factor} {times plus : Theory} {parts parts' : GlobalParts} {v : Float}
      {halt : Halt} (value : factor.value point parts = (some v, factor', parts'))
      (halts : Halts point times parts' halt) : Halts point (.node factor times plus) parts halt
  | plus {factor factor' : Factor} {times times' plus : Theory}
      {parts parts' parts'' : GlobalParts} {v w : Float} {halt : Halt}
      (value : factor.value point parts = (some v, factor', parts'))
      (product : times.evaluateInto point (· * ·) v parts' = (some w, times', parts''))
      (halts : Halts point plus parts'' halt) : Halts point (.node factor times plus) parts halt

variable {theory : Theory} {point : Point} {parts : GlobalParts} {halt : Halt}

/-- **An evaluation gives no value** exactly if it stops somewhere. -/
theorem evaluateInto_eq_none_iff (theory : Theory) (point : Point)
    (combine : Float → Float → Float) (x : Float) (parts : GlobalParts) :
    (theory.evaluateInto point combine x parts).1 = none ↔
      ∃ halt, theory.Halts point parts halt := by
  induction theory generalizing combine x parts with
  | nil =>
    constructor
    · intro h
      cases h
    · rintro ⟨halt, hhalt⟩
      cases hhalt
  | node factor times plus ihtimes ihplus =>
    simp only [evaluateInto]
    -- a part is evaluated only if the ones in front of it have values, with the shared parts they leave
    have hfactor := factor.value_eq_none_iff point parts
    rcases hv : factor.value point parts with ⟨_ | v, factor', parts₁⟩ <;> rw [hv] at hfactor
    · obtain ⟨halt, hhalt⟩ := hfactor.1 rfl
      exact ⟨fun _ => ⟨halt, .factor hhalt⟩, fun _ => rfl⟩
    have htimes := ihtimes (· * ·) v parts₁
    simp only
    rcases hw : times.evaluateInto point (· * ·) v parts₁ with ⟨_ | w, times', parts₂⟩ <;>
      rw [hw] at htimes
    · obtain ⟨halt, hhalt⟩ := htimes.1 rfl
      exact ⟨fun _ => ⟨halt, .times hv hhalt⟩, fun _ => rfl⟩
    have hplus := ihplus (· + ·) w parts₂
    simp only
    rcases hy : plus.evaluateInto point (· + ·) w parts₂ with ⟨_ | y, plus', parts₃⟩ <;>
      rw [hy] at hplus
    · obtain ⟨halt, hhalt⟩ := hplus.1 rfl
      exact ⟨fun _ => ⟨halt, .plus hv hw hhalt⟩, fun _ => rfl⟩
    · constructor
      · intro h
        cases h
      · rintro ⟨halt, hhalt | ⟨hv', hhalt⟩ | ⟨hv', hw', hhalt⟩⟩
        · cases hfactor.2 ⟨halt, hhalt⟩
        · rw [hv] at hv'
          cases hv'
          cases htimes.2 ⟨halt, hhalt⟩
        · rw [hv] at hv'
          cases hv'
          rw [hw] at hw'
          cases hw'
          cases hplus.2 ⟨halt, hhalt⟩

theorem evaluate_eq_none_iff (theory : Theory) (point : Point) (parts : GlobalParts) :
    (theory.evaluate point parts).1 = none ↔ ∃ halt, theory.Halts point parts halt :=
  theory.evaluateInto_eq_none_iff point _ 0 parts

end Theory

/-! ## Trees in range -/

/-- The references have values, and the kernel gets as many as it reads. -/
structure Factor.InRange (point : Point) (factor : Factor) : Prop where
  references : ∀ r ∈ factor.references, r.InRange point
  enough : factor.kernel.reads ≤ factor.references.length

theorem Factor.Halts.not_outOfRange {factor : Factor} {point : Point} {parts : GlobalParts}
    {halt : Halt} (hhalt : factor.Halts point parts halt) (h : factor.InRange point) :
    ¬ halt.OutOfRange := by
  cases hhalt with
  | noReference mem out => exact absurd (h.references _ mem) out
  | engine references halts =>
    cases halts with
    | noValue few =>
      rw [List.length_map] at few
      exact absurd few (Nat.not_lt_of_le h.enough)
    | noTable kind enough none => exact id
    | userFunction kind none => exact id

/-- **A tree whose factors are in range** reads no list out of range. -/
theorem Theory.Halts.not_outOfRange {theory : Theory} {point : Point} {parts : GlobalParts}
    {halt : Halt} (hhalt : theory.Halts point parts halt)
    (h : theory.All (Factor.InRange point)) : ¬ halt.OutOfRange := by
  induction hhalt with
  | factor halts => exact halts.not_outOfRange h.1
  | times value halts ih => exact ih h.2.1
  | plus value product halts ih => exact ih h.2.2

end MuonSpin
