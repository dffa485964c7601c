import Mathlib.Algebra.GroupWithZero.Nat
import Mathlib.Logic.Function.Basic
import MuonSpin.Proofs.UserFunction.PartCalls

/-!
# Sharing tables of exponentials

Instances of the tabulated exponential that are bound to one index share a table, which the call of any
of them may overwrite. A call takes the lock of the table, makes it the table of its rate, reads it and
gives the lock back; between these steps other calls take theirs.

* `TableCall`, `Sharing`: a call as far as it has come; the parts, the instances, their calls, and which
  call holds which lock;
* `Sharing.step`, `Sharing.apply`: a step of a call; what else can happen;
* `Sharing.Valid`: the tables have the samples of their rates, and a call that holds the lock of a table
  and has made it its own still finds it; **`Sharing.Valid.after`**: this holds at any time;
* **`sharedTables_eq_fresh`**: every call gives what it gives on a fresh instance in a registry of its own.
-/

namespace MuonSpin

/-! ## Calls -/

/-- How far a call has come. -/
inductive TableCall.Phase where
  | waiting
  /-- It holds the lock of the table. -/
  | locked (index : Nat)
  /-- It holds the lock, and the table is that of its rate. -/
  | ensured (index : Nat)
  | finished (v : Option Float)

/-- A call of a tabulated exponential. -/
structure TableCall where
  /-- The index to which the instance is bound. -/
  handle : Option Nat
  t : Float
  params : List Float
  phase : TableCall.Phase

namespace TableCall

variable (call : TableCall)

def rate : Float := call.params.headD 0.0

/-- The index of the table in which the value is looked up. -/
def table? : Option Nat :=
  if call.t ≤ 0 then none else if tableEnd ≤ call.t then none else call.handle

/-- The value that is found without a table. -/
def directValue : Float :=
  if call.t ≤ 0 then 1.0
  else if tableEnd ≤ call.t then 0.0
  else Float.exp (-call.rate * call.t)

/-- The index of the lock that the call holds. -/
def lock? : Option Nat :=
  match call.phase with
  | .locked index | .ensured index => some index
  | .waiting | .finished _ => none

/-- What the call gives on an instance that is newly created and, if this one is bound, bound to the
same index in an empty registry. -/
def freshValue : Option Float :=
  match call.handle with
  | none => ((UserInstance.create Builtin.tabulatedExp).evaluate .empty call.t call.params).1
  | some index =>
    match (UserInstance.create Builtin.tabulatedExp).bind index .empty with
    | (.ok f, parts) => (f.evaluate parts call.t call.params).1
    | (.error _, _) => none

/-- The call when it has given what it gives on a fresh instance. -/
def finish : TableCall := { call with phase := .finished call.freshValue }

/-- **The call undisturbed**, as the function itself makes it. -/
theorem evaluate_eq (parts : GlobalParts) :
    UserInstance.evaluate ⟨Builtin.tabulatedExp, call.handle⟩ parts call.t call.params =
      match call.table? with
      | none => (some call.directValue, parts)
      | some index =>
        match parts.value? .expTable index with
        | none => (some call.directValue, parts)
        | some table => ((table.ensure call.rate).lookup call.t,
            parts.set index ⟨.expTable, table.ensure call.rate⟩) := by
  simp only [UserInstance.evaluate, Builtin.tabulatedExp, table?, directValue]
  by_cases hstart : call.t ≤ 0
  · simp only [if_pos hstart]
  · by_cases hend : tableEnd ≤ call.t
    · simp only [if_neg hstart, if_pos hend]
    · simp only [if_neg hstart, if_neg hend]
      cases call.handle <;> rfl

theorem freshValue_eq : call.freshValue =
    match call.table? with
    | none => some call.directValue
    | some _ => (ExpTable.ofRate call.rate).lookup call.t := by
  cases hhandle : call.handle with
  | none =>
    have htable : call.table? = none := by simp [table?, hhandle]
    have hcall := call.evaluate_eq .empty
    rw [hhandle, htable] at hcall
    simp only [freshValue, hhandle, htable]
    exact congrArg Prod.fst hcall
  | some index =>
    obtain ⟨parts, hbind, hsound, -, hthere⟩ :=
      UserInstance.bind_tabulatedExp GlobalParts.sound_empty index
    simp only [freshValue, hhandle, hbind,
      (UserInstance.evaluate_tabulatedExp index hsound hthere call.t call.params).1,
      UserInstance.tabulatedCurve, table?, directValue]
    by_cases hstart : call.t ≤ 0
    · simp only [if_pos hstart]
    · by_cases hend : tableEnd ≤ call.t
      · simp only [if_neg hstart, if_pos hend]
      · simp only [if_neg hstart, if_neg hend]
        rfl

theorem freshValue_of_none (h : call.table? = none) : call.freshValue = some call.directValue := by
  rw [freshValue_eq, h]

theorem freshValue_of_some {index : Nat} (h : call.table? = some index) :
    call.freshValue = (ExpTable.ofRate call.rate).lookup call.t := by
  rw [freshValue_eq, h]

end TableCall

/-! ## Tables among the parts -/

namespace GlobalParts

variable {parts parts' : GlobalParts} {index : Nat} {table : ExpTable}

/-- The tables that are there stay, and new ones are empty. -/
def AddsTables (parts parts' : GlobalParts) : Prop :=
  ∀ i, parts'.value? .expTable i = parts.value? .expTable i ∨
    parts.value? .expTable i = none ∧ parts'.value? .expTable i = some .empty

theorem AddsTables.value? (h : parts.AddsTables parts')
    (htable : parts.value? .expTable index = some table) :
    parts'.value? .expTable index = some table := by
  rcases h index with heq | ⟨hnone, -⟩
  · rw [heq, htable]
  · rw [hnone] at htable
    cases htable

theorem AddsTables.isSome (h : parts.AddsTables parts') (i : Nat)
    (hthere : (parts.value? .expTable i).isSome) : (parts'.value? .expTable i).isSome := by
  obtain ⟨table, htable⟩ := Option.isSome_iff_exists.1 hthere
  rw [h.value? htable]
  rfl

theorem value?_set (htable : (parts.value? .expTable index).isSome) (i : Nat) :
    (parts.set index ⟨.expTable, table⟩).value? .expTable i =
      if i = index then some table else parts.value? .expTable i := by
  unfold GlobalParts.value? at htable ⊢
  rw [get?_set]
  by_cases hi : i = index
  · subst hi
    cases hpart : parts.get? i with
    | none =>
      rw [hpart] at htable
      cases htable
    | some part => simp [Part.as?]
  · simp [hi]

theorem addsTables_run {call : PartCall}
    (h : ∀ part, call.part? = some part → ∀ table, part.as? .expTable = some table → table = .empty)
    (parts : GlobalParts) : parts.AddsTables (call.run parts).2 := by
  intro i
  unfold GlobalParts.value?
  rw [PartCall.get?_run]
  cases hpart : parts.get? i with
  | some part => exact .inl rfl
  | none =>
    rw [Option.none_or, Option.bind_none]
    by_cases hi : call.index = i
    · rw [if_pos hi]
      cases hmade : call.part? with
      | none => exact .inl rfl
      | some part =>
        rw [Option.bind_some]
        cases htable : part.as? .expTable with
        | none => exact .inl rfl
        | some table => exact .inr ⟨rfl, by rw [h part hmade table htable]⟩
    · rw [if_neg hi]
      exact .inl rfl

theorem addsTables_run_of_ne {call : PartCall} (h : call.kind ≠ .expTable) (parts : GlobalParts) :
    parts.AddsTables (call.run parts).2 := by
  refine addsTables_run (fun part hpart table htable => ?_) parts
  unfold PartCall.part? at hpart
  cases hinit : call.init with
  | error e =>
    rw [hinit] at hpart
    cases hpart
  | ok value =>
    rw [hinit] at hpart
    cases hpart
    rw [Part.as?, dif_neg h] at htable
    cases htable

/-- **Binding an instance** adds an empty table at most, and the instance holds a table if it
succeeds. -/
theorem bind_cases (handle : Option Nat) (index : Nat) (parts : GlobalParts) :
    ∃ parts', parts.AddsTables parts' ∧
      ((∃ e, UserInstance.bind ⟨Builtin.tabulatedExp, handle⟩ index parts = (.error e, parts')) ∨
        UserInstance.bind ⟨Builtin.tabulatedExp, handle⟩ index parts =
          (.ok ⟨Builtin.tabulatedExp, some index⟩, parts') ∧
        (parts'.value? .expTable index).isSome) := by
  let call : PartCall := ⟨.expTable, index, .ok .empty⟩
  have hadds : parts.AddsTables (call.run parts).2 := by
    refine addsTables_run (fun part hpart table htable => ?_) parts
    cases hpart
    exact (Option.some.inj htable).symm
  have hbind : UserInstance.bind ⟨Builtin.tabulatedExp, handle⟩ index parts =
      ((call.run parts).1.map fun _ => ⟨Builtin.tabulatedExp, some index⟩, (call.run parts).2) := by
    show (((call.run parts).1.map _).map _, (call.run parts).2) = _
    cases (call.run parts).1 <;> rfl
  refine ⟨(call.run parts).2, hadds, ?_⟩
  cases hanswer : (call.run parts).1 with
  | error e =>
    rw [hanswer] at hbind
    exact .inl ⟨e, hbind⟩
  | ok table =>
    rw [hanswer] at hbind
    exact .inr ⟨hbind, by rw [call.value?_of_run parts hanswer]; rfl⟩

end GlobalParts

/-! ## The system -/

/-- What instances share, the instances and their calls. -/
structure Sharing where
  parts : GlobalParts
  /-- The indices to which the instances are bound. -/
  handles : List (Option Nat)
  calls : List TableCall
  /-- The call that holds the lock of a table. -/
  owner : Nat → Option Nat

/-- What can happen. -/
inductive SharingEvent where
  /-- An instance is created. -/
  | create
  /-- An instance is bound to an index, or to another one than before. -/
  | bind (instance_ index : Nat)
  /-- Another function asks for a part of its own kind. -/
  | insert (call : PartCall) (other : call.kind ≠ .expTable)
  /-- An instance is called. -/
  | call (instance_ : Nat) (t : Float) (params : List Float)
  /-- A call takes its next step. -/
  | step (call : Nat)

namespace Sharing

/-- An empty registry. -/
def start : Sharing := ⟨.empty, [], [], fun _ => none⟩

/-- The call at a position goes on to another phase. -/
def setPhase (s : Sharing) (k : Nat) (call : TableCall) (phase : TableCall.Phase) : Sharing :=
  { s with calls := s.calls.set k { call with phase } }

/-- The call takes the lock of a table. -/
def lock (s : Sharing) (k : Nat) (call : TableCall) (index : Nat) : Sharing :=
  { s.setPhase k call (.locked index) with owner := Function.update s.owner index (some k) }

/-- The call puts a table in place. -/
def write (s : Sharing) (k : Nat) (call : TableCall) (index : Nat) (table : ExpTable) : Sharing :=
  { s.setPhase k call (.ensured index) with parts := s.parts.set index ⟨.expTable, table⟩ }

/-- The call gives the lock of a table back, and has a value. -/
def unlock (s : Sharing) (k : Nat) (call : TableCall) (index : Nat) (v : Option Float) : Sharing :=
  { s.setPhase k call (.finished v) with owner := Function.update s.owner index none }

/-- The next step of a call. Without a table it has its value at once. With a table it waits for the
lock, takes it, makes the table that of its rate, and looks its value up. -/
def stepCall (s : Sharing) (k : Nat) (call : TableCall) : Sharing :=
  match call.phase with
  | .waiting =>
    match call.table? with
    | none => s.setPhase k call (.finished (some call.directValue))
    | some index =>
      match s.owner index with
      | none => s.lock k call index
      | some _ => s
  | .locked index =>
    match s.parts.value? .expTable index with
    | none => s.unlock k call index (some call.directValue)
    | some table => s.write k call index (table.ensure call.rate)
  | .ensured index =>
    s.unlock k call index ((s.parts.value? .expTable index).bind (·.lookup call.t))
  | .finished _ => s

/-- The next step of the call at a position. -/
def step (s : Sharing) (k : Nat) : Sharing :=
  match s.calls[k]? with
  | none => s
  | some call => s.stepCall k call

def apply (s : Sharing) : SharingEvent → Sharing
  | .create => { s with handles := s.handles ++ [none] }
  | .bind i index =>
    match s.handles[i]? with
    | none => s
    | some handle =>
      match UserInstance.bind ⟨Builtin.tabulatedExp, handle⟩ index s.parts with
      | (.ok f, parts) => { s with parts, handles := s.handles.set i f.handle }
      | (.error _, parts) => { s with parts }
  | .insert call _ => { s with parts := (call.run s.parts).2 }
  | .call i t params =>
    match s.handles[i]? with
    | none => s
    | some handle => { s with calls := s.calls ++ [⟨handle, t, params, .waiting⟩] }
  | .step k => s.step k

/-- What several events lead to. -/
def after (s : Sharing) (events : List SharingEvent) : Sharing := events.foldl apply s

end Sharing

/-! ## The invariant -/

/-- What holds of a call at any time. -/
structure TableCall.Valid (parts : GlobalParts) (call : TableCall) : Prop where
  /-- The table of its instance is there. -/
  there : ∀ index, call.handle = some index → (parts.value? .expTable index).isSome
  /-- The lock it holds is that of the table in which it looks its value up. -/
  locked : ∀ index, call.lock? = some index → call.table? = some index
  /-- The table that it has made its own still is. -/
  ensured : ∀ index, call.phase = .ensured index →
    parts.value? .expTable index = some (.ofRate call.rate)
  finished : ∀ v, call.phase = .finished v → v = call.freshValue

namespace Sharing

variable {s s' : Sharing} {k index : Nat} {call : TableCall}

/-- What holds at any time. -/
structure Valid (s : Sharing) : Prop where
  /-- The samples of a table are those of its rate. -/
  tables : ∀ index table, s.parts.value? .expTable index = some table → table.Sound
  handles : ∀ index, some index ∈ s.handles → (s.parts.value? .expTable index).isSome
  calls : ∀ call ∈ s.calls, call.Valid s.parts
  /-- A lock is held by the call that is inside, and by no other one. -/
  owner : ∀ index k, s.owner index = some k ↔ (s.calls[k]?).bind TableCall.lock? = some index

/-- What a call can do when it is its turn. -/
inductive Moves (s : Sharing) (k : Nat) (call : TableCall) : Sharing → Prop
  | direct (waiting : call.phase = .waiting) (outside : call.table? = none) :
    Moves s k call (s.setPhase k call (.finished (some call.directValue)))
  | lock {index : Nat} (waiting : call.phase = .waiting) (inside : call.table? = some index)
      (free : s.owner index = none) : Moves s k call (s.lock k call index)
  | write {index : Nat} {table : ExpTable} (locked : call.phase = .locked index)
      (there : s.parts.value? .expTable index = some table) :
    Moves s k call (s.write k call index (table.ensure call.rate))
  | read {index : Nat} {table : ExpTable} (ensured : call.phase = .ensured index)
      (there : s.parts.value? .expTable index = some table) :
    Moves s k call (s.unlock k call index (table.lookup call.t))

theorem Valid.isSome_value? (h : s.Valid) (hmem : call ∈ s.calls) (htable : call.table? = some index) :
    (s.parts.value? .expTable index).isSome := by
  refine (h.calls call hmem).there index ?_
  rw [TableCall.table?] at htable
  split_ifs at htable
  exact htable

/-- **The step of a call.** It has its value, or waits for a lock, or does one of these moves. -/
theorem Valid.step_cases (h : s.Valid) (hk : s.calls[k]? = some call) :
    (∃ v, call.phase = .finished v ∧ s.step k = s) ∨
      (∃ index j, call.phase = .waiting ∧ call.table? = some index ∧ s.owner index = some j ∧
        s.step k = s) ∨
      s.Moves k call (s.step k) := by
  have hvalid := h.calls call (List.mem_of_getElem? hk)
  have hthere (index : Nat) (hlock : call.lock? = some index) :=
    h.isSome_value? (List.mem_of_getElem? hk) (hvalid.locked index hlock)
  simp only [step, hk, stepCall]
  cases hphase : call.phase with
  | waiting =>
    cases htable : call.table? with
    | none => exact .inr (.inr (.direct hphase htable))
    | some index =>
      cases howner : s.owner index with
      | none =>
        simp only [howner]
        exact .inr (.inr (.lock hphase htable howner))
      | some j =>
        refine .inr (.inl ⟨index, j, rfl, rfl, howner, ?_⟩)
        simp only [howner]
  | locked index =>
    obtain ⟨table, htable⟩ := Option.isSome_iff_exists.1
      (hthere index (by rw [TableCall.lock?, hphase]))
    simp only [htable]
    exact .inr (.inr (.write hphase htable))
  | ensured index =>
    obtain ⟨table, htable⟩ := Option.isSome_iff_exists.1
      (hthere index (by rw [TableCall.lock?, hphase]))
    simp only [htable, Option.bind_some]
    exact .inr (.inr (.read hphase htable))
  | finished v => exact .inl ⟨v, rfl, rfl⟩

/-! ## Locks -/

theorem owner_set {calls : List TableCall} {owner owner' : Nat → Option Nat} {call call' : TableCall}
    (h : ∀ index j, owner index = some j ↔ (calls[j]?).bind TableCall.lock? = some index)
    (hk : calls[k]? = some call)
    (howner : ∀ index j, owner' index = some j ↔
      if j = k then call'.lock? = some index else owner index = some j) (index j : Nat) :
    owner' index = some j ↔ ((calls.set k call')[j]?).bind TableCall.lock? = some index := by
  obtain ⟨hlt, -⟩ := List.getElem?_eq_some_iff.1 hk
  rw [howner]
  by_cases hj : j = k
  · rw [if_pos hj, hj, List.getElem?_set_self hlt, Option.bind_some]
  · rw [if_neg hj, List.getElem?_set_ne (Ne.symm hj), h]

theorem Valid.owner_set_of_eq (h : s.Valid) (hk : s.calls[k]? = some call) {call' : TableCall}
    (hlock : call'.lock? = call.lock?) (index j : Nat) :
    s.owner index = some j ↔ ((s.calls.set k call')[j]?).bind TableCall.lock? = some index := by
  refine owner_set h.owner hk (fun index j => ?_) index j
  by_cases hj : j = k
  · rw [if_pos hj, hj, h.owner, hk, Option.bind_some, hlock]
  · rw [if_neg hj]

/-- A lock changes hands that is free or held by the call, if the call holds no other one before and
afterwards. -/
theorem Valid.owner_update (h : s.Valid) (hk : s.calls[k]? = some call) {call' : TableCall}
    {holder : Option Nat} (hholder : call'.lock?.map (fun _ => k) = holder)
    (hmine : ∀ j, s.owner index = some j → j = k)
    (hother : ∀ i, i ≠ index → call.lock? ≠ some i ∧ call'.lock? ≠ some i) (i j : Nat) :
    Function.update s.owner index holder i = some j ↔
      ((s.calls.set k call')[j]?).bind TableCall.lock? = some i := by
  refine owner_set h.owner hk (fun i j => ?_) i j
  by_cases hi : i = index
  · rw [hi, Function.update_self, ← hholder]
    by_cases hj : j = k
    · rw [if_pos hj, hj]
      cases hlock : call'.lock? with
      | none => simp
      | some i' =>
        have hi' : i' = index := by
          by_contra hne
          exact (hother i' hne).2 hlock
        simp [hi']
    · rw [if_neg hj]
      refine iff_of_false (fun hsome => ?_) fun howner => hj (hmine j howner)
      obtain ⟨_, -, rfl⟩ := Option.map_eq_some_iff.1 hsome
      exact hj rfl
  · rw [Function.update_of_ne hi]
    by_cases hj : j = k
    · rw [if_pos hj, hj, h.owner, hk, Option.bind_some]
      exact iff_of_false (hother i hi).1 (hother i hi).2
    · rw [if_neg hj]

theorem lock?_append_waiting {calls : List TableCall} (hcall : call.phase = .waiting) (j : Nat) :
    ((calls ++ [call])[j]?).bind TableCall.lock? = (calls[j]?).bind TableCall.lock? := by
  have hlock : call.lock? = none := by rw [TableCall.lock?, hcall]
  by_cases hj : j < calls.length
  · rw [List.getElem?_append_left hj]
  · have hnone : calls[j]? = none := List.getElem?_eq_none (Nat.le_of_not_lt hj)
    rw [List.getElem?_append_right (Nat.le_of_not_lt hj), hnone, List.getElem?_singleton]
    split_ifs
    · exact hlock
    · rfl

/-! ## The invariant is kept -/

end Sharing

/-- Nothing changes for a call as long as there are tables where there were some, and the table whose
lock it holds stays the same. -/
theorem TableCall.Valid.frame {call : TableCall} {parts parts' : GlobalParts} (h : call.Valid parts)
    (hthere : ∀ i, (parts.value? .expTable i).isSome → (parts'.value? .expTable i).isSome)
    (hsame : ∀ i table, call.lock? = some i → parts.value? .expTable i = some table →
      parts'.value? .expTable i = some table) : call.Valid parts' where
  there index hindex := hthere index (h.there index hindex)
  locked := h.locked
  ensured index hphase := hsame index _ (by rw [lock?, hphase]) (h.ensured index hphase)
  finished := h.finished

namespace Sharing

variable {s s' : Sharing} {k index : Nat} {call : TableCall}

theorem valid_start : start.Valid where
  tables index table h := by cases h
  handles index h := by cases h
  calls call h := by cases h
  owner index k := by simp [start]

/-- **The invariant survives new tables** that are empty. -/
theorem Valid.addsTables (h : s.Valid) {parts : GlobalParts} (hadds : s.parts.AddsTables parts) :
    Valid { s with parts } where
  tables index table htable := by
    rcases hadds index with heq | ⟨-, hempty⟩
    · exact h.tables index table (heq ▸ htable)
    · rw [hempty] at htable
      cases htable
      exact ExpTable.sound_empty
  handles index hindex := hadds.isSome index (h.handles index hindex)
  calls call hcall := (h.calls call hcall).frame hadds.isSome fun _ _ _ => hadds.value?
  owner := h.owner

/-- **The invariant survives a call's way to another phase**, if the parts stay. -/
theorem Valid.setPhase (h : s.Valid) {phase : TableCall.Phase} {owner : Nat → Option Nat}
    (hcall : TableCall.Valid s.parts { call with phase })
    (howner : ∀ i j, owner i = some j ↔
      ((s.setPhase k call phase).calls[j]?).bind TableCall.lock? = some i) :
    Valid { s.setPhase k call phase with owner } where
  tables := h.tables
  handles := h.handles
  calls call' hmem := by
    rcases List.mem_or_eq_of_mem_set hmem with hmem | rfl
    · exact h.calls call' hmem
    · exact hcall
  owner := howner

theorem Valid.eq_of_lock? (h : s.Valid) {j : Nat} {call' : TableCall}
    (hk : s.calls[k]? = some call) (hj : s.calls[j]? = some call')
    (hlock : call.lock? = some index) (hlock' : call'.lock? = some index) : j = k := by
  have howner : s.owner index = some k := (h.owner index k).2 (by rw [hk, Option.bind_some, hlock])
  have howner' : s.owner index = some j :=
    (h.owner index j).2 (by rw [hj, Option.bind_some, hlock'])
  rw [howner] at howner'
  exact (Option.some.inj howner').symm

/-- **A call that makes a table its own** disturbs no other one: these hold other locks. -/
theorem Valid.write (h : s.Valid) (hk : s.calls[k]? = some call)
    (hlocked : call.phase = .locked index) (hthere : (s.parts.value? .expTable index).isSome) :
    (s.write k call index (.ofRate call.rate)).Valid := by
  have hvalid := h.calls call (List.mem_of_getElem? hk)
  have hlock : call.lock? = some index := by rw [TableCall.lock?, hlocked]
  -- the tables afterwards: the new one here, and the old ones elsewhere
  have hself : (s.parts.set index ⟨.expTable, .ofRate call.rate⟩).value? .expTable index =
      some (.ofRate call.rate) := by
    rw [GlobalParts.value?_set hthere, if_pos rfl]
  have hother (i : Nat) (hi : i ≠ index) :
      (s.parts.set index ⟨.expTable, .ofRate call.rate⟩).value? .expTable i =
        s.parts.value? .expTable i := by
    rw [GlobalParts.value?_set hthere, if_neg hi]
  have hisSome (i : Nat) (h : (s.parts.value? .expTable i).isSome) :
      ((s.parts.set index ⟨.expTable, .ofRate call.rate⟩).value? .expTable i).isSome := by
    by_cases hi : i = index
    · rw [hi, hself]
      rfl
    · rwa [hother i hi]
  refine ⟨fun i table htable => ?_, fun i hi => hisSome i (h.handles i hi), fun call' hmem => ?_,
    h.owner_set_of_eq hk hlock.symm⟩
  · by_cases hi : i = index
    · rw [hi] at htable
      cases hself.symm.trans htable
      exact ExpTable.sound_ofRate _
    · exact h.tables i table ((hother i hi).symm.trans htable)
  · obtain ⟨j, hj⟩ := List.mem_iff_getElem?.1 hmem
    by_cases hjk : j = k
    · have hcall' : call' = { call with phase := .ensured index } := by
        obtain ⟨hlt, -⟩ := List.getElem?_eq_some_iff.1 hk
        rw [hjk, Sharing.write, Sharing.setPhase, List.getElem?_set_self hlt] at hj
        exact (Option.some.inj hj).symm
      subst hcall'
      refine ⟨fun i hi => hisSome i (hvalid.there i hi), ?_, ?_, nofun⟩
      · rintro i ⟨⟩
        exact hvalid.locked index hlock
      · rintro i ⟨⟩
        exact hself
    · rw [Sharing.write, Sharing.setPhase, List.getElem?_set_ne (Ne.symm hjk)] at hj
      refine (h.calls call' (List.mem_of_getElem? hj)).frame hisSome fun i table hlock' htable => ?_
      -- another call can only be inside another table
      have hi : i ≠ index := by
        rintro rfl
        exact hjk (h.eq_of_lock? hk hj hlock hlock')
      exact (hother i hi).trans htable

theorem Moves.valid (h : s.Valid) (hk : s.calls[k]? = some call) (hmoves : s.Moves k call s') :
    s'.Valid := by
  have hvalid := h.calls call (List.mem_of_getElem? hk)
  cases hmoves with
  | direct hwaiting houtside =>
    refine h.setPhase ⟨hvalid.there, nofun, nofun, ?_⟩ (h.owner_set_of_eq hk ?_)
    · rintro v ⟨⟩
      exact (TableCall.freshValue_of_none _ houtside).symm
    · rw [TableCall.lock?, TableCall.lock?, hwaiting]
  | lock hwaiting hinside hfree =>
    refine h.setPhase ⟨hvalid.there, ?_, nofun, nofun⟩ (h.owner_update hk rfl ?_ fun i hi => ?_)
    · rintro i ⟨⟩
      exact hinside
    · intro j hj
      rw [hfree] at hj
      cases hj
    · rw [TableCall.lock?, hwaiting]
      exact ⟨nofun, fun hlock => hi (Option.some.inj hlock).symm⟩
  | write hlocked hthere =>
    rw [ExpTable.ensure_eq (h.tables _ _ hthere)]
    exact h.write hk hlocked (by rw [hthere]; rfl)
  | @read index table hensured hthere =>
    have hlock : call.lock? = some index := by rw [TableCall.lock?, hensured]
    refine h.setPhase ⟨hvalid.there, nofun, nofun, ?_⟩ (h.owner_update hk rfl ?_ fun i hi => ?_)
    · rintro v ⟨⟩
      rw [hvalid.ensured _ hensured] at hthere
      cases hthere
      exact (TableCall.freshValue_of_some _ (hvalid.locked _ hlock)).symm
    · intro j hj
      rw [(h.owner index k).2 (by rw [hk, Option.bind_some, hlock])] at hj
      exact (Option.some.inj hj).symm
    · rw [hlock]
      exact ⟨fun hlock => hi (Option.some.inj hlock).symm, nofun⟩

theorem Valid.step (h : s.Valid) (k : Nat) : (s.step k).Valid := by
  cases hk : s.calls[k]? with
  | none =>
    rw [Sharing.step, hk]
    exact h
  | some call =>
    rcases h.step_cases hk with ⟨v, -, heq⟩ | ⟨index, j, -, -, -, heq⟩ | hmoves
    · rw [heq]
      exact h
    · rw [heq]
      exact h
    · exact hmoves.valid h hk

theorem Valid.apply (h : s.Valid) (event : SharingEvent) : (s.apply event).Valid := by
  cases event with
  | create =>
    refine ⟨h.tables, fun index hindex => ?_, h.calls, h.owner⟩
    rcases List.mem_append.1 hindex with hindex | hindex
    · exact h.handles index hindex
    · simp at hindex
  | bind i index =>
    rw [Sharing.apply]
    cases hi : s.handles[i]? with
    | none => exact h
    | some handle =>
      obtain ⟨parts, hadds, ⟨e, hbind⟩ | ⟨hbind, hthere⟩⟩ :=
        GlobalParts.bind_cases handle index s.parts
      · simp only [hbind]
        exact h.addsTables hadds
      · simp only [hbind]
        have hvalid := h.addsTables hadds
        refine ⟨hvalid.tables, fun index' hindex' => ?_, hvalid.calls, hvalid.owner⟩
        rcases List.mem_or_eq_of_mem_set hindex' with hindex' | hindex'
        · exact hvalid.handles index' hindex'
        · cases hindex'
          exact hthere
  | insert call hother => exact h.addsTables (GlobalParts.addsTables_run_of_ne hother s.parts)
  | call i t params =>
    rw [Sharing.apply]
    cases hi : s.handles[i]? with
    | none => exact h
    | some handle =>
      refine ⟨h.tables, h.handles, fun call hcall => ?_, fun index k => ?_⟩
      · rcases List.mem_append.1 hcall with hcall | hcall
        · exact h.calls call hcall
        · cases List.mem_singleton.1 hcall
          refine ⟨fun index hindex => h.handles index ?_, nofun, nofun, nofun⟩
          rw [← hindex]
          exact List.mem_of_getElem? hi
      · rw [h.owner, lock?_append_waiting rfl]
  | step k => exact h.step k

theorem after_append (s : Sharing) (events more : List SharingEvent) :
    s.after (events ++ more) = (s.after events).after more := List.foldl_append

theorem Valid.after (h : s.Valid) (events : List SharingEvent) : (s.after events).Valid := by
  induction events generalizing s with
  | nil => exact h
  | cons event events ih => exact ih (h.apply event)

/-! ## Every call comes to an end -/

end Sharing

/-- The number of steps that are left. -/
def TableCall.Phase.remaining : TableCall.Phase → Nat
  | waiting => 3
  | locked _ => 2
  | ensured _ => 1
  | finished _ => 0

theorem TableCall.Phase.exists_finished {phase : TableCall.Phase} (h : phase.remaining = 0) :
    ∃ v, phase = .finished v := by
  cases phase with
  | finished v => exact ⟨v, rfl⟩
  | waiting | locked index | ensured index => cases h

theorem TableCall.Valid.eq_finish {call : TableCall} {parts : GlobalParts} (h : call.Valid parts)
    (hremaining : call.phase.remaining = 0) : call = call.finish := by
  obtain ⟨v, hphase⟩ := TableCall.Phase.exists_finished hremaining
  rw [finish, ← h.finished v hphase, ← hphase]

namespace Sharing

variable {s s' : Sharing} {k index : Nat} {call : TableCall}

/-- The number of steps that are left to all calls. -/
def remaining (s : Sharing) : Nat := (s.calls.map (·.phase.remaining)).sum

theorem sum_map_set_lt {α : Type} {f : α → Nat} {xs : List α} {x x' : α} {k : Nat}
    (hk : xs[k]? = some x) (hlt : f x' < f x) :
    ((xs.set k x').map f).sum < (xs.map f).sum := by
  induction xs generalizing k with
  | nil => cases hk
  | cons y xs ih =>
    cases k with
    | zero =>
      cases hk
      simp only [List.set_cons_zero, List.map_cons, List.sum_cons]
      omega
    | succ k =>
      have hrest := ih hk
      simp only [List.set_cons_succ, List.map_cons, List.sum_cons]
      omega

theorem sum_map_eq_zero_iff {α : Type} {f : α → Nat} {xs : List α} :
    (xs.map f).sum = 0 ↔ ∀ x ∈ xs, f x = 0 := by
  induction xs with
  | nil => simp
  | cons x xs ih => rw [List.map_cons, List.sum_cons, Nat.add_eq_zero_iff, ih, List.forall_mem_cons]

theorem Moves.remaining_lt (hk : s.calls[k]? = some call) (hmoves : s.Moves k call s') :
    s'.remaining < s.remaining := by
  cases hmoves with
  | direct hphase | lock hphase | write hphase | read hphase =>
    refine sum_map_set_lt hk ?_
    simp [hphase, TableCall.Phase.remaining]

/-- **Someone can go on** as long as a call is left: one that waits for a lock waits for a call that
holds it. -/
theorem Valid.exists_moves (h : s.Valid) (hremaining : s.remaining ≠ 0) :
    ∃ k call, s.calls[k]? = some call ∧ s.Moves k call (s.step k) := by
  obtain ⟨call, hcall, hleft⟩ : ∃ call ∈ s.calls, call.phase.remaining ≠ 0 := by
    by_contra hnone
    refine hremaining (sum_map_eq_zero_iff.2 fun call hcall => ?_)
    by_contra hleft
    exact hnone ⟨call, hcall, hleft⟩
  obtain ⟨k, hk⟩ := List.mem_iff_getElem?.1 hcall
  rcases h.step_cases hk with ⟨v, hphase, -⟩ | ⟨index, j, -, -, howner, -⟩ | hmoves
  · rw [hphase] at hleft
    exact absurd rfl hleft
  · obtain ⟨holder, hj, hlock⟩ := Option.bind_eq_some_iff.1 ((h.owner index j).1 howner)
    refine ⟨j, holder, hj, ?_⟩
    rcases h.step_cases hj with ⟨v, hphase, -⟩ | ⟨_, _, hphase, -⟩ | hmoves
    · rw [TableCall.lock?, hphase] at hlock
      cases hlock
    · rw [TableCall.lock?, hphase] at hlock
      cases hlock
    · exact hmoves
  · exact ⟨k, call, hk, hmoves⟩

theorem Moves.map_finish (hk : s.calls[k]? = some call) (hmoves : s.Moves k call s') :
    s'.calls.map TableCall.finish = s.calls.map TableCall.finish := by
  have hset (phase : TableCall.Phase) :
      (s.calls.set k { call with phase }).map TableCall.finish = s.calls.map TableCall.finish := by
    have hfinish : TableCall.finish { call with phase } = call.finish := rfl
    obtain ⟨hlt, hget⟩ := List.getElem?_eq_some_iff.1 hk
    have hlt' : k < (s.calls.map TableCall.finish).length := by rwa [List.length_map]
    have hself : call.finish = (s.calls.map TableCall.finish)[k] := by rw [List.getElem_map, hget]
    rw [List.map_set, hfinish, hself, List.set_getElem_self]
  cases hmoves <;> exact hset _

/-- **All calls can be finished**, and give what they give on fresh instances. -/
theorem Valid.exists_finish (h : s.Valid) :
    ∃ order : List Nat, (s.after (order.map .step)).calls = s.calls.map TableCall.finish := by
  induction hn : s.remaining using Nat.strongRecOn generalizing s with
  | ind n ih =>
    by_cases hremaining : s.remaining = 0
    · refine ⟨[], (List.map_id s.calls).symm.trans (List.map_congr_left fun call hcall => ?_)⟩
      exact (h.calls call hcall).eq_finish (sum_map_eq_zero_iff.1 hremaining call hcall)
    · obtain ⟨k, call, hk, hmoves⟩ := h.exists_moves hremaining
      obtain ⟨order, horder⟩ := ih _ (hn ▸ hmoves.remaining_lt hk) (h.step k) rfl
      refine ⟨k :: order, ?_⟩
      rw [← hmoves.map_finish hk, ← horder]
      rfl

/-! ## Calls that are not disturbed -/

theorem step_of_getElem? (hk : s.calls[k]? = some call) : s.step k = s.stepCall k call := by
  rw [step, hk]

theorem getElem?_setPhase (hk : s.calls[k]? = some call) (phase : TableCall.Phase) :
    (s.setPhase k call phase).calls[k]? = some { call with phase } := by
  obtain ⟨hlt, -⟩ := List.getElem?_eq_some_iff.1 hk
  exact List.getElem?_set_self hlt

theorem step_of_finished (hk : s.calls[k]? = some call) (v : Option Float) :
    (s.setPhase k call (.finished v)).step k = s.setPhase k call (.finished v) :=
  step_of_getElem? (getElem?_setPhase hk (.finished v))

/-- **A call that is not disturbed** does what the function does. -/
theorem after_steps_alone (hk : s.calls[k]? = some call) (hphase : call.phase = .waiting)
    (hfree : ∀ index, call.table? = some index → s.owner index = none) :
    s.after [.step k, .step k, .step k] =
      let (v, parts) :=
        UserInstance.evaluate ⟨Builtin.tabulatedExp, call.handle⟩ s.parts call.t call.params
      { s.setPhase k call (.finished v) with parts } := by
  show ((s.step k).step k).step k = _
  rw [call.evaluate_eq, step_of_getElem? hk]
  cases htable : call.table? with
  | none =>
    -- without a table the first step has the value, and the others do nothing
    have hfirst : s.stepCall k call = s.setPhase k call (.finished (some call.directValue)) := by
      simp only [stepCall, hphase, htable]
    rw [hfirst, step_of_finished hk, step_of_finished hk]
    rfl
  | some index =>
    -- the lock, the table for the rate, and the value with the lock given back
    have hfirst : s.stepCall k call = s.lock k call index := by
      simp only [stepCall, hphase, htable, hfree index htable]
    have hlocked : (s.lock k call index).calls[k]? = some { call with phase := .locked index } :=
      getElem?_setPhase hk (.locked index)
    have howner : Function.update (Function.update s.owner index (some k)) index none = s.owner := by
      rw [Function.update_idem, ← hfree index htable, Function.update_eq_self]
    rw [hfirst, step_of_getElem? hlocked]
    cases hvalue : s.parts.value? .expTable index with
    | none =>
      have hsecond : (s.lock k call index).stepCall k { call with phase := .locked index } =
          s.setPhase k call (.finished (some call.directValue)) := by
        have hnone : (s.lock k call index).parts.value? .expTable index = none := hvalue
        simp only [stepCall, hnone]
        simp only [unlock, lock, setPhase, List.set_set, howner]
        rfl
      rw [hsecond, step_of_finished hk]
      simp only [hvalue]
      rfl
    | some table =>
      let written := (s.lock k call index).write k { call with phase := .locked index } index
        (table.ensure call.rate)
      have hsecond : (s.lock k call index).stepCall k { call with phase := .locked index } =
          written := by
        have hsome : (s.lock k call index).parts.value? .expTable index = some table := hvalue
        simp only [stepCall, hsome]
        rfl
      have hensured : written.calls[k]? = some { call with phase := .ensured index } :=
        getElem?_setPhase hlocked (.ensured index)
      have hwritten : written.parts.value? .expTable index = some (table.ensure call.rate) := by
        show (s.parts.set index ⟨.expTable, table.ensure call.rate⟩).value? .expTable index = _
        rw [GlobalParts.value?_set (by rw [hvalue]; rfl), if_pos rfl]
      rw [hsecond, step_of_getElem? hensured]
      simp only [stepCall, hwritten, hvalue, Option.bind_some]
      simp only [written, unlock, write, lock, setPhase, List.set_set, howner]

end Sharing

/-- **Sharing a table does not show in values.** Instances of the tabulated exponential are created,
bound to the same, to different or to no indices, and called, other functions put parts of their own
kinds into the registry, and the calls take their steps in any order. Then a call that has a value has
the one that it has on a newly created instance, bound in an empty registry if its own is bound; every
table has the samples of the rate that it records; the calls that are left can be finished, and have
these values too; and a call that is not disturbed does what the function does. -/
theorem sharedTables_eq_fresh (events : List SharingEvent) :
    (∀ call ∈ (Sharing.start.after events).calls, ∀ v, call.phase = .finished v →
      v = call.freshValue) ∧
    (∀ index (table : ExpTable),
      (Sharing.start.after events).parts.value? .expTable index = some table →
        ∀ bits, table.rateBits = some bits → ∃ rate, rate.toBits = bits ∧ table = .ofRate rate) ∧
    (∃ order : List Nat, (Sharing.start.after (events ++ order.map .step)).calls =
      (Sharing.start.after events).calls.map TableCall.finish) ∧
    ∀ k call, (Sharing.start.after events).calls[k]? = some call → call.phase = .waiting →
      (∀ index, call.table? = some index → (Sharing.start.after events).owner index = none) →
      (Sharing.start.after (events ++ [.step k, .step k, .step k])) =
        let (v, parts) := UserInstance.evaluate ⟨Builtin.tabulatedExp, call.handle⟩
          (Sharing.start.after events).parts call.t call.params
        { (Sharing.start.after events).setPhase k call (.finished v) with parts } := by
  have hvalid : (Sharing.start.after events).Valid := Sharing.valid_start.after events
  refine ⟨fun call hcall => (hvalid.calls call hcall).finished, fun index table htable bits hbits => ?_,
    ?_, fun k call hk hphase hfree => ?_⟩
  · obtain ⟨rate, rfl⟩ := hvalid.tables index table htable bits hbits
    exact ⟨rate, Option.some.inj hbits, rfl⟩
  · obtain ⟨order, horder⟩ := hvalid.exists_finish
    exact ⟨order, by rw [Sharing.after_append, horder]⟩
  · rw [Sharing.after_append]
    exact Sharing.after_steps_alone hk hphase hfree

/-- Two instances with one table, the calls of which overwrite it in turn. -/
theorem sharedTables_eq_fresh_two_rates :
    ∃ first second : TableCall, (Sharing.start.after [.create, .create, .bind 0 4, .bind 1 4,
        .call 0 2.0 [0.5], .call 1 2.0 [1.0], .step 0, .step 1, .step 0, .step 1, .step 0, .step 1,
        .step 1, .step 1]).calls = [first, second] ∧
      first.phase = .finished first.freshValue ∧ second.phase = .finished second.freshValue := by
  let events : List SharingEvent := [.create, .create, .bind 0 4, .bind 1 4,
    .call 0 2.0 [0.5], .call 1 2.0 [1.0], .step 0, .step 1, .step 0, .step 1, .step 0, .step 1,
    .step 1, .step 1]
  have hdone : (Sharing.start.after events).calls.map (·.phase.remaining) = [0, 0] := by
    decide +kernel
  have hfresh := (sharedTables_eq_fresh events).1
  have hlength : (Sharing.start.after events).calls.length = 2 := by
    rw [← List.length_map, hdone]
    rfl
  obtain ⟨first, second, hcalls⟩ := List.length_eq_two.1 hlength
  rw [hcalls, List.map_cons, List.map_cons, List.map_nil, List.cons_eq_cons, List.cons_eq_cons] at hdone
  rw [hcalls] at hfresh
  obtain ⟨v, hv⟩ := TableCall.Phase.exists_finished hdone.1
  obtain ⟨w, hw⟩ := TableCall.Phase.exists_finished hdone.2.1
  refine ⟨first, second, hcalls, ?_, ?_⟩
  · rw [← hfresh first (by simp) v hv, hv]
  · rw [← hfresh second (by simp) w hw, hw]

end MuonSpin
