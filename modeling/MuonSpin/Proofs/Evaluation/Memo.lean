import Mathlib.Logic.Function.Defs
import MuonSpin.Kernel.Tabulated

/-!
# What memos keep

* `MemoKey.ofPair`, `MemoKey.ofTriple`: the keys of the two tabulated kernels, which tell bit
  patterns apart;
* `Memo.Sound`: the kept value was computed from the bit patterns of its key; **`Memo.fetch_sound`**: a
  sound memo gives what is computed, and stays sound;
* `StaticKernel.value_sound`, `DynamicKernel.value_sound`: the values of sound kernels are those
  computed without a memo.
-/

namespace MuonSpin

/-! ## Keys -/

namespace MemoKey

/-- The key of two bit patterns. -/
def ofPair (p : UInt64 × UInt64) : MemoKey := .ofList [p.1, p.2]

/-- The key of three bit patterns. -/
def ofTriple (p : UInt64 × UInt64 × UInt64) : MemoKey := .ofList [p.1, p.2.1, p.2.2]

theorem ofPair_injective : Function.Injective ofPair := by
  intro p q h
  exact Prod.ext (congrArg first h) (congrArg second h)

theorem ofTriple_injective : Function.Injective ofTriple := by
  intro p q h
  exact Prod.ext (congrArg first h) (Prod.ext (congrArg second h) (congrArg third h))

end MemoKey

/-! ## Memos -/

namespace Memo

variable {A V : Type} {memo : Memo V} {key : A → MemoKey} {compute : A → Option V}

/-- The kept value was computed from numbers with the kept key. -/
def Sound (memo : Memo V) (key : A → MemoKey) (compute : A → Option V) : Prop :=
  ∀ k v, memo.slot = some (k, v) → ∃ a, key a = k ∧ compute a = some v

theorem sound_empty : (empty : Memo V).Sound key compute := by
  intro k v h
  cases h

theorem compute_of_find? (hkey : Function.Injective key) (hs : memo.Sound key compute) {a : A}
    {v : V} (h : memo.find? (key a) = some v) : compute a = some v := by
  rcases hslot : memo.slot with _ | ⟨k, w⟩
  · simp [find?, hslot] at h
  · obtain ⟨hk, rfl⟩ : k = key a ∧ w = v := by simpa [find?, hslot] using h
    obtain ⟨b, hb, hw⟩ := hs k w hslot
    have hba : b = a := hkey (hb.trans hk)
    rw [← hba, hw]

/-- **A sound memo gives what is computed**, and stays sound. -/
theorem fetch_sound (hkey : Function.Injective key) (hs : memo.Sound key compute) (a : A) :
    (memo.fetch (key a) fun _ => compute a).1 = compute a ∧
      (memo.fetch (key a) fun _ => compute a).2.Sound key compute := by
  cases hfind : memo.find? (key a) with
  | none =>
    cases hv : compute a with
    | none =>
      simp only [fetch, hfind]
      exact ⟨trivial, hs⟩
    | some v =>
      simp only [fetch, hfind]
      refine ⟨trivial, ?_⟩
      rintro k w hslot
      cases hslot
      exact ⟨a, rfl, hv⟩
  | some v =>
    simp only [fetch, hfind]
    exact ⟨(compute_of_find? hkey hs hfind).symm, hs⟩

end Memo

/-! ## Tabulated kernels -/

namespace StaticKernel

/-- The table of the kernel's memo, if there is one, is that of its key. -/
def Sound (kernel : StaticKernel) : Prop :=
  kernel.memo.Sound MemoKey.ofPair fun p =>
    StaticField.compute kernel.family (.ofBits p.1) (.ofBits p.2)

/-- The value from a table computed anew. -/
def directValue (family : FieldFamily) (t : Float) (val : List Float) : Option Float :=
  match val with
  | nu :: rate :: _ => (StaticField.compute family nu rate).bind (·.value (shiftedTime t val 2))
  | _ => none

theorem value_sound {kernel : StaticKernel} (h : kernel.Sound) (t : Float) (val : List UInt64) :
    (kernel.value t val).1 = directValue kernel.family t (numbers val) ∧
      (kernel.value t val).2.family = kernel.family ∧ (kernel.value t val).2.Sound := by
  rcases val with _ | ⟨nu, _ | ⟨rate, rest⟩⟩
  · exact ⟨rfl, rfl, h⟩
  · exact ⟨rfl, rfl, h⟩
  · obtain ⟨hfield, hmemo⟩ := Memo.fetch_sound MemoKey.ofPair_injective h (nu, rate)
    exact ⟨congrArg (Option.bind · _) hfield, rfl, hmemo⟩

end StaticKernel

namespace DynamicKernel

/-- The table of the kernel's memo, if there is one, is that of its key. -/
def Sound (kernel : DynamicKernel) : Prop :=
  kernel.memo.Sound MemoKey.ofTriple fun p =>
    DynamicField.compute kernel.family (.ofBits p.1) (.ofBits p.2.1) (.ofBits p.2.2)

/-- The value from a table computed anew. -/
def directValue (family : FieldFamily) (t : Float) (val : List Float) : Option Float :=
  match val with
  | nu :: rate :: nuC :: _ =>
    (DynamicField.compute family nu rate nuC).bind (·.value (shiftedTime t val 3))
  | _ => none

theorem value_sound {kernel : DynamicKernel} (h : kernel.Sound) (t : Float) (val : List UInt64) :
    (kernel.value t val).1 = directValue kernel.family t (numbers val) ∧
      (kernel.value t val).2.family = kernel.family ∧ (kernel.value t val).2.Sound := by
  rcases val with _ | ⟨nu, _ | ⟨rate, _ | ⟨nuC, rest⟩⟩⟩
  · exact ⟨rfl, rfl, h⟩
  · exact ⟨rfl, rfl, h⟩
  · exact ⟨rfl, rfl, h⟩
  · obtain ⟨hfield, hmemo⟩ := Memo.fetch_sound MemoKey.ofTriple_injective h (nu, rate, nuC)
    exact ⟨congrArg (Option.bind · _) hfield, rfl, hmemo⟩

end DynamicKernel

end MuonSpin
