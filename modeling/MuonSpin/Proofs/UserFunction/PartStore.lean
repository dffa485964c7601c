import Mathlib.Logic.Equiv.Defs
import MuonSpin.UserFunction.Parts

/-!
# Parts of any kinds

The parts that a session shares are of a few kinds. What `GlobalParts.getOrInsert` does with them it
does with values of any kinds, and with initializers that work on a state of their own.

* `PartStore.getOrInsert`: the value of a kind under an index, for any kinds;
  `GlobalParts.storeEquiv`: shared parts are such a store, `GlobalParts.getOrInsert_store`: with the
  same calls;
* `PartStore.Event`, `PartStore.history`: calls one after the other, the runs of their initializers
  counted;
* `PartStore.Event.Lawful`: what a single call does, by whether its index is free;
  `PartStore.lawful_of_history`: what any call of several ones does, and what it finds;
* **`PartStore.makesOnce`**: a part is made by the first call for its index that succeeds, and all
  later ones that succeed return it.
-/

namespace MuonSpin

/-- Values of any kinds, each under an index of its own. -/
structure PartStore {K : Type} (Value : K → Type) where
  entries : List (Nat × Sigma Value)

namespace PartStore

section Store

variable {K : Type} {Value : K → Type}

/-- The number of indices in use. -/
def size (store : PartStore Value) : Nat := store.entries.length

def get? (store : PartStore Value) (index : Nat) : Option (Sigma Value) :=
  store.entries.lookup index

/-- Puts a part under an index that is free. -/
def insert (store : PartStore Value) (index : Nat) (part : Sigma Value) : PartStore Value :=
  ⟨(index, part) :: store.entries⟩

theorem get?_insert (store : PartStore Value) (index : Nat) (part : Sigma Value) (i : Nat) :
    (store.insert index part).get? i = if i = index then some part else store.get? i := by
  rw [get?, insert, List.lookup_cons]
  by_cases hi : i = index
  · simp [hi]
  · simp [hi, beq_false_of_ne hi, get?]

theorem size_insert (store : PartStore Value) (index : Nat) (part : Sigma Value) :
    (store.insert index part).size = store.size + 1 := rfl

/-- The value of a kind under an index, made by `init` if the index is free. -/
def getOrInsert [DecidableEq K] {m : Type → Type} [Monad m] (store : PartStore Value) (kind : K)
    (index : Nat) (init : m (Except UserFunctionError (Value kind))) :
    m (Except UserFunctionError (Value kind) × PartStore Value) :=
  match store.get? index with
  | some part =>
    if h : part.1 = kind then pure (.ok (h ▸ part.2), store)
    else pure (.error (.otherPartKind index), store)
  | none => do
    match ← init with
    | .ok value => pure (.ok value, store.insert index ⟨kind, value⟩)
    | .error e => pure (.error e, store)

end Store

/-! ## Calls -/

/-- A call for the part of a kind at an index. Its initializer may read and change a state. -/
structure Call (σ : Type) {K : Type} (Value : K → Type) where
  kind : K
  index : Nat
  init : StateM σ (Except UserFunctionError (Value kind))

/-- A computation, with the number of its runs beside the state. -/
def counted {σ α : Type} (f : StateM σ α) : StateM (σ × Nat) α := fun s =>
  ((f s.1).1, (f s.1).2, s.2 + 1)

/-- A call that was made. -/
structure Event (σ : Type) {K : Type} (Value : K → Type) where
  call : Call σ Value
  before : PartStore Value
  /-- The state in front of the call. -/
  start : σ
  answer : Except UserFunctionError (Value call.kind)
  /-- How often the initializer ran. -/
  runs : Nat
  after : PartStore Value
  /-- The state behind the call. -/
  stop : σ

variable {σ K : Type} {Value : K → Type}

/-- The part that a call returns, if it succeeds. -/
def Event.part? (event : Event σ Value) : Option (Sigma Value) :=
  match event.answer with
  | .ok value => some ⟨event.call.kind, value⟩
  | .error _ => none

/-- What a call does, by whether its index is free. -/
structure Event.Lawful (event : Event σ Value) : Prop where
  /-- At a free index the initializer runs once, and what it gives is the answer. The index is then in
  use if it succeeds, and only then. -/
  free : event.before.get? event.call.index = none →
    event.runs = 1 ∧ event.call.init event.start = (event.answer, event.stop) ∧
      ((event.after.get? event.call.index).isSome ↔ ∃ value, event.answer = .ok value)
  /-- At an index in use the initializer does not run. -/
  occupied : (event.before.get? event.call.index).isSome →
    event.runs = 0 ∧ event.stop = event.start ∧ event.after = event.before
  sameKind : ∀ value, event.before.get? event.call.index = some ⟨event.call.kind, value⟩ →
    event.answer = .ok value
  otherKind : ∀ part, event.before.get? event.call.index = some part →
    part.1 ≠ event.call.kind → event.answer = .error (.otherPartKind event.call.index)
  failed : ∀ e, event.answer = .error e → event.after = event.before
  succeeded : ∀ part, event.part? = some part → event.after.get? event.call.index = some part
  elsewhere : ∀ i, i ≠ event.call.index → event.after.get? i = event.before.get? i
  /-- A part that is made takes one more index. -/
  size : event.after.size = event.before.size +
    if event.before.get? event.call.index = none ∧ event.part?.isSome then 1 else 0

/-- The part that the first call for an index that succeeds returns. -/
def firstPart? (events : List (Event σ Value)) (i : Nat) : Option (Sigma Value) :=
  events.findSome? fun event => if event.call.index = i then event.part? else none

namespace Event.Lawful

variable {event : Event σ Value} {part stored : Sigma Value}

theorem eq_of_occupied (h : event.Lawful) (hstored : event.before.get? event.call.index = some stored)
    (hpart : event.part? = some part) : part = stored := by
  have hthere := h.succeeded part hpart
  have hsome : (event.before.get? event.call.index).isSome := by rw [hstored]; rfl
  rw [(h.occupied hsome).2.2, hstored] at hthere
  exact (Option.some.inj hthere).symm

theorem get?_after (h : event.Lawful) (i : Nat) :
    event.after.get? i =
      (event.before.get? i).or (if event.call.index = i then event.part? else none) := by
  by_cases hi : event.call.index = i
  · subst hi
    rw [if_pos rfl]
    cases hpart : event.part? with
    | none =>
      cases hanswer : event.answer with
      | error e => rw [h.failed e hanswer, Option.or_none]
      | ok value => simp [part?, hanswer] at hpart
    | some part =>
      rw [h.succeeded part hpart]
      cases hstored : event.before.get? event.call.index with
      | none => rfl
      | some stored => rw [h.eq_of_occupied hstored hpart, Option.some_or]
  · rw [h.elsewhere i (Ne.symm hi), if_neg hi, Option.or_none]

end Event.Lawful

theorem firstPart?_cons (event : Event σ Value) (events : List (Event σ Value)) (i : Nat) :
    firstPart? (event :: events) i =
      (if event.call.index = i then event.part? else none).or (firstPart? events i) := by
  rw [firstPart?, List.findSome?_cons, firstPart?]
  cases (if event.call.index = i then event.part? else none) <;> rfl

theorem firstPart?_append (events events' : List (Event σ Value)) (i : Nat) :
    firstPart? (events ++ events') i = (firstPart? events i).or (firstPart? events' i) := by
  rw [firstPart?, List.findSome?_append, firstPart?, firstPart?]

variable [DecidableEq K]

/-- Makes a call. -/
def Call.make (call : Call σ Value) (store : PartStore Value) (s : σ) : Event σ Value :=
  let result := store.getOrInsert call.kind call.index (counted call.init) (s, 0)
  ⟨call, store, s, result.1.1, result.2.2, result.1.2, result.2.1⟩

/-- Calls one after the other. -/
def history (store : PartStore Value) (s : σ) : List (Call σ Value) → List (Event σ Value)
  | [] => []
  | call :: calls =>
    let event := call.make store s
    event :: event.after.history event.stop calls

section OneCall

variable {call : Call σ Value} {store : PartStore Value} {s s' : σ}

theorem make_of_made {value : Value call.kind} (hfree : store.get? call.index = none)
    (hinit : call.init s = (.ok value, s')) :
    call.make store s =
      ⟨call, store, s, .ok value, 1, store.insert call.index ⟨call.kind, value⟩, s'⟩ := by
  simp only [Call.make, getOrInsert, hfree, counted, hinit, bind, StateT.bind]
  rfl

theorem make_of_not_made {e : UserFunctionError} (hfree : store.get? call.index = none)
    (hinit : call.init s = (.error e, s')) :
    call.make store s = ⟨call, store, s, .error e, 1, store, s'⟩ := by
  simp only [Call.make, getOrInsert, hfree, counted, hinit, bind, StateT.bind]
  rfl

theorem make_of_sameKind {value : Value call.kind}
    (hpart : store.get? call.index = some ⟨call.kind, value⟩) :
    call.make store s = ⟨call, store, s, .ok value, 0, store, s⟩ := by
  simp only [Call.make, getOrInsert, hpart]
  rfl

theorem make_of_otherKind {part : Sigma Value} (hpart : store.get? call.index = some part)
    (hkind : part.1 ≠ call.kind) :
    call.make store s =
      ⟨call, store, s, .error (.otherPartKind call.index), 0, store, s⟩ := by
  simp only [Call.make, getOrInsert, hpart, hkind]
  rfl

theorem lawful_make (call : Call σ Value) (store : PartStore Value) (s : σ) :
    (call.make store s).Lawful := by
  cases hpart : store.get? call.index with
  | none =>
    rcases hinit : call.init s with ⟨e | value, s'⟩
    · rw [make_of_not_made hpart hinit]
      constructor <;> simp [hpart, hinit, Event.part?]
    · rw [make_of_made hpart hinit]
      constructor <;> simp +contextual [hpart, hinit, Event.part?, get?_insert, size_insert]
  | some part =>
    obtain ⟨kind, value⟩ := part
    by_cases hkind : kind = call.kind
    · subst hkind
      rw [make_of_sameKind hpart]
      constructor <;> simp [hpart, Event.part?]
    · rw [make_of_otherKind hpart hkind]
      constructor <;> simp [hpart, hkind, Event.part?]

end OneCall

/-! ## Several calls -/

theorem map_call_history (store : PartStore Value) (s : σ) (calls : List (Call σ Value)) :
    (store.history s calls).map (·.call) = calls := by
  induction calls generalizing store s with
  | nil => rfl
  | cons call calls ih => exact congrArg (call :: ·) (ih _ _)

/-- **Any call of several ones** does what it should. Its store holds under an index what was there in
front of all calls, or else what the first call for the index returned that succeeded. -/
theorem lawful_of_history {store : PartStore Value} {s : σ} {calls : List (Call σ Value)}
    {before rest : List (Event σ Value)} {event : Event σ Value}
    (h : store.history s calls = before ++ event :: rest) :
    event.Lawful ∧ ∀ i, event.before.get? i = (store.get? i).or (firstPart? before i) := by
  induction calls generalizing store s before with
  | nil => simp [history] at h
  | cons call calls ih =>
    have hlawful := lawful_make call store s
    rcases before with _ | ⟨first, before⟩
    · obtain ⟨rfl, -⟩ := List.cons.inj h
      exact ⟨hlawful, fun i => (Option.or_none).symm⟩
    · obtain ⟨rfl, htail⟩ := List.cons.inj h
      obtain ⟨hevent, hbefore⟩ := ih htail
      refine ⟨hevent, fun i => ?_⟩
      rw [hbefore, hlawful.get?_after, firstPart?_cons, Option.or_assoc]
      rfl

theorem part?_of_history {store : PartStore Value} {s : σ} {calls : List (Call σ Value)}
    {before rest : List (Event σ Value)} {event : Event σ Value} {part : Sigma Value}
    (h : store.history s calls = before ++ event :: rest) (hpart : event.part? = some part) :
    (store.get? event.call.index).or (firstPart? (store.history s calls) event.call.index) =
      some part := by
  obtain ⟨hlawful, hbefore⟩ := lawful_of_history h
  rw [h, firstPart?_append, ← Option.or_assoc, ← hbefore]
  cases hstored : event.before.get? event.call.index with
  | none => rw [firstPart?_cons, if_pos rfl, hpart, Option.none_or, Option.some_or]
  | some stored => rw [hlawful.eq_of_occupied hstored hpart, Option.some_or]

end PartStore

/-! ## The shared parts -/

namespace GlobalParts

/-- A part as a value with its kind. -/
def partEquiv : Part ≃ Sigma PartKind.Value where
  toFun part := ⟨part.kind, part.value⟩
  invFun part := ⟨part.1, part.2⟩
  left_inv _ := rfl
  right_inv _ := rfl

/-- The shared parts as a store of their kinds. -/
def storeEquiv : GlobalParts ≃ PartStore PartKind.Value where
  toFun parts := ⟨parts.entries.map (Prod.map id partEquiv)⟩
  invFun store := ⟨store.entries.map (Prod.map id partEquiv.symm)⟩
  left_inv parts := by simp [Prod.map_comp_map]
  right_inv store := by simp [Prod.map_comp_map]

theorem get?_store (parts : GlobalParts) (index : Nat) :
    (storeEquiv parts).get? index = (parts.get? index).map partEquiv := by
  rcases parts with ⟨entries⟩
  simp only [storeEquiv, PartStore.get?, get?, Equiv.coe_fn_mk]
  induction entries with
  | nil => rfl
  | cons entry entries ih =>
    rw [List.map_cons, List.lookup_cons, List.lookup_cons]
    cases h : index == entry.1 with
    | true => simp [h]
    | false => simpa [h] using ih

/-- **Calls for shared parts** are calls on their store. -/
theorem getOrInsert_store {σ : Type} (parts : GlobalParts) (kind : PartKind) (index : Nat)
    (init : StateM σ (Except UserFunctionError kind.Value)) (s : σ) :
    (storeEquiv parts).getOrInsert kind index init s =
      Prod.map (Prod.map id storeEquiv) id (parts.getOrInsert kind index init s) := by
  unfold PartStore.getOrInsert getOrInsert
  rw [get?_store]
  cases hpart : parts.get? index with
  | none =>
    rcases hinit : init s with ⟨e | value, s'⟩
    · simp only [Option.map_none, bind, StateT.bind, hinit]
      rfl
    · simp only [Option.map_none, bind, StateT.bind, hinit]
      rfl
  | some part =>
    obtain ⟨kind', value⟩ := part
    by_cases hkind : kind' = kind
    · subst hkind
      simp only [Option.map_some, partEquiv, Equiv.coe_fn_mk, Part.as?]
      rfl
    · simp only [Option.map_some, partEquiv, Equiv.coe_fn_mk, Part.as?, hkind]
      rfl

end GlobalParts

/-- **A part is made once.** In any sequence of calls, whatever the kinds of their values and whatever
their initializers do, each call is lawful: it runs its initializer once if its index is free, and not at
all otherwise, and a failing one leaves the store as it was. So there is at any time what was there in
front of all calls, or else the part of the first call for the index that succeeded, and this part is what
every call that succeeds returns. Calls for shared parts are such calls. -/
theorem PartStore.makesOnce {σ K : Type} [DecidableEq K] {Value : K → Type}
    (store : PartStore Value) (s : σ) (calls : List (Call σ Value)) :
    (store.history s calls).map (·.call) = calls ∧
    (∀ before event rest, store.history s calls = before ++ event :: rest →
      event.Lawful ∧
      (∀ i, event.before.get? i = (store.get? i).or (firstPart? before i)) ∧
      ∀ part, event.part? = some part → (store.get? event.call.index).or
        (firstPart? (store.history s calls) event.call.index) = some part) ∧
    ∀ (parts : GlobalParts) (kind : PartKind) (index : Nat)
      (init : StateM σ (Except UserFunctionError kind.Value)),
      (GlobalParts.storeEquiv parts).size = parts.size ∧
      (GlobalParts.storeEquiv parts).getOrInsert kind index init s =
        Prod.map (Prod.map id GlobalParts.storeEquiv) id (parts.getOrInsert kind index init s) := by
  refine ⟨map_call_history store s calls, fun before event rest h => ?_,
    fun parts kind index init => ⟨?_, parts.getOrInsert_store kind index init s⟩⟩
  · obtain ⟨hlawful, hbefore⟩ := lawful_of_history h
    exact ⟨hlawful, hbefore, fun part hpart => part?_of_history h hpart⟩
  · exact List.length_map ..

/-- A failing initializer leaves its index free; then one makes the part, and no further one runs, be it
for another kind or for the same. -/
example :
    ((⟨[]⟩ : PartStore PartKind.Value).history ()
      [⟨.byte, 1, pure (.error (.partNotInitialized 1 "no file"))⟩, ⟨.byte, 1, pure (.ok 7)⟩,
        ⟨.text, 1, pure (.ok "a")⟩, ⟨.byte, 1, pure (.ok 8)⟩]).map
      (fun event => (event.runs, event.after.size)) = [(1, 0), (1, 1), (0, 1), (0, 1)] := by
  decide

end MuonSpin
