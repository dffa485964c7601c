import Mathlib.Data.List.Basic
import MuonSpin.Proofs.Runs.Shared

/-!
# Calls for shared parts

* `PartCall`: a call of `GlobalParts.getOrInsert`, with what its initializer would give;
* `PartCall.get?_run`, `PartCall.value?_of_run`: one call, and one that is answered with a value;
* **`GlobalParts.get?_afterCalls`**: after any calls an index holds the part it held before or, if it was
  free, the one of the first initializer there that succeeded;
* `GlobalParts.CallsAt`: calls at one index, which replace and remove no part
  (`GlobalParts.CallsAt.retains`) and leave all other indices (`GlobalParts.CallsAt.get?_of_ne`).
-/

namespace MuonSpin

/-- A call for the part of a kind at an index. -/
structure PartCall where
  kind : PartKind
  index : Nat
  /-- What the initializer gives if it runs. -/
  init : Except UserFunctionError kind.Value

namespace PartCall

/-- The part that the initializer makes. -/
def part? (call : PartCall) : Option Part :=
  match call.init with
  | .ok value => some ⟨call.kind, value⟩
  | .error _ => none

/-- The answer to a call, and the parts afterwards. -/
def run (call : PartCall) (parts : GlobalParts) :
    Except UserFunctionError call.kind.Value × GlobalParts :=
  Id.run (parts.getOrInsert call.kind call.index (pure call.init))

variable (call : PartCall) (parts : GlobalParts)

/-- **A call** makes a part if its index is free and the initializer succeeds, and changes nothing
else. -/
theorem get?_run (i : Nat) :
    (call.run parts).2.get? i =
      (parts.get? i).or (if call.index = i then call.part? else none) := by
  unfold run GlobalParts.getOrInsert part?
  cases hpart : parts.get? call.index with
  | some part =>
    have hsame : (parts.get? i).or (if call.index = i then call.part? else none) =
        parts.get? i := by
      by_cases hi : call.index = i
      · rw [← hi, hpart, Option.some_or]
      · rw [if_neg hi, Option.or_none]
    unfold part? at hsame
    rw [hsame]
    cases hkind : part.as? call.kind <;> simp [hkind]
  | none =>
    cases hinit : call.init with
    | error e => simp
    | ok value =>
      simp only [pure, bind, Id.run, GlobalParts.get?_insert]
      by_cases hi : i = call.index
      · rw [if_pos hi, if_pos hi.symm, hi, hpart, Option.none_or]
      · rw [if_neg hi, if_neg (Ne.symm hi), Option.or_none]

theorem value?_of_run {value : call.kind.Value}
    (h : (call.run parts).1 = .ok value) :
    (call.run parts).2.value? call.kind call.index = some value := by
  unfold run GlobalParts.getOrInsert at h ⊢
  cases hpart : parts.get? call.index with
  | some part =>
    simp only [hpart] at h ⊢
    cases hvalue : part.as? call.kind with
    | none =>
      rw [hvalue] at h
      cases h
    | some kept =>
      rw [hvalue] at h
      cases h
      simp [GlobalParts.value?, hpart, hvalue]
  | none =>
    simp only [hpart] at h ⊢
    cases hinit : call.init with
    | error e =>
      rw [hinit] at h
      cases h
    | ok made =>
      rw [hinit] at h
      cases h
      simp [GlobalParts.value?, GlobalParts.get?_insert, Part.as?]

end PartCall

namespace GlobalParts

variable {parts : GlobalParts} {i : Nat}

/-- The parts after several calls. -/
def afterCalls (parts : GlobalParts) (calls : List PartCall) : GlobalParts :=
  calls.foldl (fun parts call => (call.run parts).2) parts

/-- What the first initializer at an index that succeeds makes. -/
def firstPart? (calls : List PartCall) (i : Nat) : Option Part :=
  calls.findSome? fun call => if call.index = i then call.part? else none

/-- **After several calls** an index holds its old part, or what the first initializer made that
succeeded there. -/
theorem get?_afterCalls (parts : GlobalParts) (calls : List PartCall) (i : Nat) :
    (parts.afterCalls calls).get? i = (parts.get? i).or (firstPart? calls i) := by
  induction calls generalizing parts with
  | nil => simp [afterCalls, firstPart?]
  | cons call calls ih =>
    have hcons : parts.afterCalls (call :: calls) = (call.run parts).2.afterCalls calls := rfl
    have hfirst : firstPart? (call :: calls) i =
        (if call.index = i then call.part? else none).or (firstPart? calls i) := by
      rw [firstPart?, List.findSome?_cons, firstPart?]
      cases (if call.index = i then call.part? else none) <;> rfl
    rw [hcons, ih, PartCall.get?_run, hfirst, Option.or_assoc]

/-- No part is replaced or removed. -/
def Retains (parts parts' : GlobalParts) : Prop :=
  ∀ i part, parts.get? i = some part → parts'.get? i = some part

/-- Calls at one index lead from some parts to others. -/
def CallsAt (parts : GlobalParts) (index : Nat) (parts' : GlobalParts) : Prop :=
  ∃ calls : List PartCall, (∀ call ∈ calls, call.index = index) ∧ parts' = parts.afterCalls calls

theorem CallsAt.refl (parts : GlobalParts) (index : Nat) : parts.CallsAt index parts :=
  ⟨[], by simp, rfl⟩

variable {parts' : GlobalParts} {index : Nat}

theorem CallsAt.retains (h : parts.CallsAt index parts') : parts.Retains parts' := by
  obtain ⟨calls, -, rfl⟩ := h
  intro i part hpart
  rw [get?_afterCalls, hpart, Option.some_or]

theorem CallsAt.get?_of_ne (h : parts.CallsAt index parts') (hi : i ≠ index) :
    parts'.get? i = parts.get? i := by
  obtain ⟨calls, hindex, rfl⟩ := h
  have hnone : firstPart? calls i = none := by
    refine List.findSome?_eq_none_iff.2 fun call hcall => if_neg ?_
    rw [hindex call hcall]
    exact Ne.symm hi
  rw [get?_afterCalls, hnone, Option.or_none]

end GlobalParts

end MuonSpin
