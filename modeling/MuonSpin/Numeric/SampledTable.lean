import MuonSpin.Numeric.Scalar

/-!
# Sampled tables

A function sampled at the times `0, dt, 2 dt, …` and read back by linear interpolation.

* `SampledTable.lookup`: the value at a time, or `none` where the index of the time has no
  successor;
* **a time within `1e-9` steps of a sample gives that sample**, a time behind the table its last
  sample, a negative time the value asked for.
-/

namespace MuonSpin

open Elementary

/-- Samples of a function at the multiples of `dt`. -/
structure SampledTable (α : Type) where
  dt : α
  values : Array α

namespace SampledTable

variable {α : Type} [Add α] [Sub α] [Mul α] [Div α] [Zero α] [NatCast α] [OfScientific α]
  [LT α] [DecidableLT α] [Elementary α]

def size (table : SampledTable α) : Nat := table.values.size

/-- The value between sample `i` and the next one, `fraction` of a step behind `i`. -/
@[inline] def interpolate (v w fraction : α) : α := v + (w - v) * fraction

/-- The value at position `x`, counted in steps. -/
@[specialize] def atPosition (values : Array α) (last x : α) : Option α :=
  let nearest := round x
  if abs (x - nearest) < 1e-9 then some (values.getD (toIndex nearest) last)
  else
    let i := toIndex (floor x)
    match successor? α i with
    | none => none
    | some j =>
      match values[i]?, values[j]? with
      | some v, some w => some (interpolate v w (x - (i : α)))
      | _, _ => some last

/-- The value at time `t`; `before` is the value before time zero and of an empty table. -/
@[specialize] def lookup (table : SampledTable α) (t before : α) : Option α :=
  if t < 0 then some before
  else match table.values.back? with
    | none => some before
    | some last =>
      if 0 < table.dt then atPosition table.values last (t / table.dt) else some last

end SampledTable

end MuonSpin
