import MuonSpin.Proofs.Evaluation.Calls
import MuonSpin.UserFunction.Loader

/-!
# Shared parts and built-in functions

* `GlobalParts.Sound`: every part is a table of exponentials, whose samples belong to its rate;
* `UserInstance.Ready`: an instance of a built-in function whose part is there;
  **`UserInstance.Ready.computes`**: it computes a function of time and parameters, whatever rate its
  table was last used for;
* `UserInstance.bind_tabulatedExp`: attaching the part of an instance;
* `Builtin.partly`, `Builtin.factories`: what is known between the two changes of the built-in module
  and behind them, and `Builtin.create?_partly`, `Builtin.create?_factories`: the instances.
-/

namespace MuonSpin

/-! ## Tables of exponentials -/

theorem toBits_injective : Function.Injective Float.toBits := by
  rintro ⟨a, ha⟩ ⟨b, hb⟩ h
  have hab : a = b := h
  subst hab
  rfl

namespace ExpTable

/-- The samples belong to the rate. -/
def Sound (table : ExpTable) : Prop :=
  ∀ bits, table.rateBits = some bits → ∃ rate, table = ofRate rate

theorem sound_empty : empty.Sound := by
  intro bits h
  cases h

theorem sound_ofRate (rate : Float) : (ofRate rate).Sound := fun _ _ => ⟨rate, rfl⟩

/-- **A sound table** becomes that of the rate it is asked for. -/
theorem ensure_eq {table : ExpTable} (h : table.Sound) (rate : Float) :
    table.ensure rate = ofRate rate := by
  rw [ensure]
  split_ifs with hbits
  · obtain ⟨rate', rfl⟩ := h _ hbits
    have hrate : rate'.toBits = rate.toBits := Option.some.inj hbits
    rw [toBits_injective hrate]
  · rfl

end ExpTable

/-! ## Parts -/

namespace GlobalParts

variable {parts parts' : GlobalParts}

/-- Every part is a sound table. -/
def Sound (parts : GlobalParts) : Prop :=
  ∀ index part, parts.get? index = some part →
    ∃ table : ExpTable, table.Sound ∧ part = ⟨.expTable, table⟩

/-- The parts that are there are still there. -/
def Keeps (parts parts' : GlobalParts) : Prop :=
  ∀ index, (parts.get? index).isSome → (parts'.get? index).isSome

theorem sound_empty : empty.Sound := by
  intro index part h
  cases h

theorem get?_set (parts : GlobalParts) (index : Nat) (part : Part) (i : Nat) :
    (parts.set index part).get? i =
      (parts.get? i).map fun p => if i = index then part else p := by
  rcases parts with ⟨entries⟩
  simp only [get?, set]
  induction entries with
  | nil => rfl
  | cons entry entries ih =>
    rcases entry with ⟨j, p⟩
    rw [List.map_cons]
    by_cases hi : i = j
    · by_cases hj : j = index
      · simp [hi, hj]
      · simp [hi, hj]
    · have hbeq : (i == j) = false := beq_false_of_ne hi
      rw [List.lookup_cons, List.lookup_cons, ih]
      by_cases hj : j = index
      · simp [← hj, hbeq]
      · simp [hj, hbeq]

theorem get?_insert (parts : GlobalParts) (index : Nat) (part : Part) (i : Nat) :
    (parts.insert index part).get? i = if i = index then some part else parts.get? i := by
  rw [get?, insert, List.lookup_cons]
  by_cases hi : i = index
  · simp [hi]
  · simp [hi, beq_false_of_ne hi, get?]

theorem Keeps.refl (parts : GlobalParts) : parts.Keeps parts := fun _ h => h

theorem keeps_set (index : Nat) (part : Part) : parts.Keeps (parts.set index part) := by
  intro i h
  rwa [get?_set, Option.isSome_map]

theorem keeps_insert (index : Nat) (part : Part) : parts.Keeps (parts.insert index part) := by
  intro i h
  rw [get?_insert]
  split_ifs
  · rfl
  · exact h

theorem Sound.set (h : parts.Sound) (index : Nat) {table : ExpTable} (ht : table.Sound) :
    (parts.set index ⟨.expTable, table⟩).Sound := by
  intro i part hpart
  rw [get?_set, Option.map_eq_some_iff] at hpart
  obtain ⟨p, hp, rfl⟩ := hpart
  split_ifs
  · exact ⟨table, ht, rfl⟩
  · exact h i p hp

theorem Sound.insert (h : parts.Sound) (index : Nat) {table : ExpTable} (ht : table.Sound) :
    (parts.insert index ⟨.expTable, table⟩).Sound := by
  intro i part hpart
  rw [get?_insert] at hpart
  split_ifs at hpart
  · exact ⟨table, ht, (Option.some.inj hpart).symm⟩
  · exact h i part hpart

theorem Sound.value? (h : parts.Sound) {index : Nat} (hi : (parts.get? index).isSome) :
    ∃ table : ExpTable, table.Sound ∧ parts.value? .expTable index = some table := by
  obtain ⟨part, hpart⟩ := Option.isSome_iff_exists.1 hi
  obtain ⟨table, ht, rfl⟩ := h index part hpart
  exact ⟨table, ht, by simp [GlobalParts.value?, hpart, Part.as?]⟩

end GlobalParts

/-! ## Instances of the built-in functions -/

/-- An instance of a built-in function, whose part is there. -/
inductive UserInstance.Ready (parts : GlobalParts) : UserInstance → Prop
  | stretchedExp : Ready parts ⟨Builtin.stretchedExp, none⟩
  | tabulatedExp (index : Nat) (isThere : (parts.get? index).isSome) :
    Ready parts ⟨Builtin.tabulatedExp, some index⟩

namespace UserInstance

variable {f : UserInstance} {parts parts' : GlobalParts}

theorem Ready.mono (h : f.Ready parts) (hkeeps : parts.Keeps parts') : f.Ready parts' := by
  cases h with
  | stretchedExp => exact .stretchedExp
  | tabulatedExp index isThere => exact .tabulatedExp index (hkeeps index isThere)

/-- The value of the tabulated exponential, read from the table of the rate. -/
def tabulatedCurve (t : Float) (val : List Float) : Option Float :=
  if t ≤ 0 then some 1.0
  else if tableEnd ≤ t then some 0.0
  else (ExpTable.ofRate (val.headD 0.0)).lookup t

theorem evaluate_tabulatedExp (index : Nat) (hs : parts.Sound) (hi : (parts.get? index).isSome)
    (t : Float) (val : List Float) :
    (evaluate ⟨Builtin.tabulatedExp, some index⟩ parts t val).1 = tabulatedCurve t val ∧
      (evaluate ⟨Builtin.tabulatedExp, some index⟩ parts t val).2.Sound ∧
      parts.Keeps (evaluate ⟨Builtin.tabulatedExp, some index⟩ parts t val).2 := by
  simp only [evaluate, Builtin.tabulatedExp, tabulatedCurve]
  split_ifs
  · exact ⟨rfl, hs, .refl parts⟩
  · exact ⟨rfl, hs, .refl parts⟩
  · obtain ⟨table, ht, hvalue⟩ := hs.value? hi
    simp only [Builtin.tabulatedValue, hvalue, ExpTable.ensure_eq ht]
    exact ⟨trivial, hs.set index (ExpTable.sound_ofRate _), GlobalParts.keeps_set index _⟩

theorem Ready.evaluate (h : f.Ready parts) (hs : parts.Sound) (t : Float) (val : List Float) :
    (f.evaluate parts t val).2.Sound ∧ parts.Keeps (f.evaluate parts t val).2 := by
  cases h with
  | stretchedExp => exact ⟨hs, .refl parts⟩
  | tabulatedExp index isThere => exact (evaluate_tabulatedExp index hs isThere t val).2

/-- **A ready instance** computes a function of time and parameters. -/
theorem Ready.computes (h : f.Ready parts) :
    ∃ g, f.Computes (fun parts => parts.Sound ∧ f.Ready parts) g := by
  cases h with
  | stretchedExp => exact ⟨_, fun parts hparts t val => ⟨rfl, hparts⟩⟩
  | tabulatedExp index isThere =>
    refine ⟨tabulatedCurve, fun parts hparts t val => ?_⟩
    obtain ⟨hs, hready⟩ := hparts
    have hi : (parts.get? index).isSome := by
      cases hready with
      | tabulatedExp _ isThere => exact isThere
    obtain ⟨hvalue, hs', hkeeps⟩ := evaluate_tabulatedExp index hs hi t val
    exact ⟨hvalue, hs', hready.mono hkeeps⟩

theorem bind_tabulatedExp (hs : parts.Sound) (index : Nat) :
    ∃ parts', (create Builtin.tabulatedExp).bind index parts =
        (.ok ⟨Builtin.tabulatedExp, some index⟩, parts') ∧
      parts'.Sound ∧ parts.Keeps parts' ∧ (parts'.get? index).isSome := by
  cases hpart : parts.get? index with
  | none =>
    refine ⟨parts.insert index ⟨.expTable, ExpTable.empty⟩, ?_,
      hs.insert index ExpTable.sound_empty, GlobalParts.keeps_insert index _, ?_⟩
    · simp [create, bind, Builtin.tabulatedExp, GlobalParts.getOrInsert, hpart, Except.map]
    · rw [GlobalParts.get?_insert, if_pos rfl]
      rfl
  | some part =>
    obtain ⟨table, -, rfl⟩ := hs index part hpart
    refine ⟨parts, ?_, hs, .refl parts, by rw [hpart]; rfl⟩
    simp [create, bind, Builtin.tabulatedExp, GlobalParts.getOrInsert, hpart, Part.as?, Except.map]

end UserInstance

/-! ## Types of the built-in module -/

namespace Builtin

/-- The types that are known when only the first change of the built-in module is made. -/
def partly : Factories := Factories.empty.register firstType tabulatedExp

/-- The types of the built-in module. -/
def factories : Factories := init.run .empty

/-- The first change of the module, in all states that it can meet. -/
theorem register_firstType :
    partly.register firstType tabulatedExp = partly ∧
      factories.register firstType tabulatedExp = factories := by
  have hlt : lastType < firstType := by decide
  have hnlt : ¬ firstType < lastType := by decide
  simp [partly, factories, init, ModuleInit.registering, ModuleInit.run, Factories.register,
    Factories.empty, Factories.insertEntry, hlt, hnlt]

theorem register_lastType :
    partly.register lastType stretchedExp = factories ∧
      factories.register lastType stretchedExp = factories := by
  have hlt : lastType < firstType := by decide
  simp [partly, factories, init, ModuleInit.registering, ModuleInit.run, Factories.register,
    Factories.empty, Factories.insertEntry, hlt]

/-- The module can be loaded several times. -/
theorem run_init : init.run partly = factories ∧ init.run factories = factories := by
  have hrun : ∀ types : Factories, init.run types =
      (types.register firstType tabulatedExp).register lastType stretchedExp := fun types => rfl
  rw [hrun, hrun, register_firstType.1, register_firstType.2]
  exact register_lastType

theorem create?_partly (type : String) :
    partly.create? type = if type = firstType then some (.create tabulatedExp) else none := by
  have hentries : partly.entries = [(firstType, tabulatedExp)] := rfl
  rw [Factories.create?, hentries, List.lookup_cons, List.lookup_nil]
  by_cases h : type = firstType
  · simp [h]
  · simp [h, beq_false_of_ne h]

theorem create?_factories (type : String) :
    factories.create? type =
      if type = lastType then some (.create stretchedExp) else partly.create? type := by
  have hentries : factories.entries = (lastType, stretchedExp) :: partly.entries := by
    have hlt : lastType < firstType := by decide
    simp [factories, partly, init, ModuleInit.registering, ModuleInit.run, Factories.register,
      Factories.empty, Factories.insertEntry, hlt]
  rw [Factories.create?, Factories.create?, hentries, List.lookup_cons]
  by_cases h : type = lastType
  · simp [h]
  · simp [h, beq_false_of_ne h]

theorem eq_of_create?_factories {type : String} {f : UserInstance}
    (h : factories.create? type = some f) :
    f = .create stretchedExp ∨ f = .create tabulatedExp := by
  rw [create?_factories, create?_partly] at h
  split_ifs at h
  · exact .inl (Option.some.inj h).symm
  · exact .inr (Option.some.inj h).symm

theorem create?_partly_lastType : partly.create? lastType = none := by
  rw [create?_partly, if_neg (by decide)]

theorem partly_ne_empty : partly ≠ .empty := by
  intro h
  have hnames : partly.names = [] := by rw [h]; rfl
  exact absurd hnames (by decide)

theorem factories_ne_empty : factories ≠ .empty := by
  intro h
  have hnames : factories.names = [] := by rw [h]; rfl
  exact absurd hnames (by decide)

end Builtin

end MuonSpin
