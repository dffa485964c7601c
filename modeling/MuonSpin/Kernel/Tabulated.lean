import MuonSpin.Kernel.DynamicField

/-!
# Tabulated kernels

The longitudinal-field kernels are read from tables. A fit evaluates one set of parameters at many
times before it moves on, so a kernel keeps the table of the last parameters only. Parameters are
handed on as the 64 bits of a number: undefined numbers have many bit patterns, **and the table of one
of them is not that of another**.

* `MemoKey`: the bit patterns of up to three numbers, zero where there are fewer;
* `Memo.fetch`: the kept value if the key is the kept one, else a computed one, which is kept; the
  computation may fail, **and then the memo stays as it was**;
* `StaticKernel.value`: the values are the field, the width and possibly a time shift;
* `DynamicKernel.value`: the values are the field, the width, the hopping rate and possibly a time
  shift. The time shift is no part of the key, so a shifted curve reads the same table.
-/

namespace MuonSpin

/-- The numbers with the given bit patterns. -/
def numbers (bits : List UInt64) : List Float := bits.map Float.ofBits

@[simp] theorem length_numbers (bits : List UInt64) : (numbers bits).length = bits.length :=
  List.length_map _

/-! ## One-slot memo -/

/-- The bit patterns of the numbers a value was computed from. -/
structure MemoKey where
  first : UInt64
  second : UInt64
  third : UInt64
  deriving DecidableEq

/-- The key of a list of bit patterns, of which the first three count. -/
def MemoKey.ofList (bits : List UInt64) : MemoKey :=
  ⟨bits[0]?.getD 0, bits[1]?.getD 0, bits[2]?.getD 0⟩

/-- The last computed value with its key, and the number of computations so far. -/
structure Memo (V : Type) where
  slot : Option (MemoKey × V)
  solves : Nat

namespace Memo

variable {V : Type}

def empty : Memo V := ⟨none, 0⟩

/-- The value kept for `key`. -/
def find? (memo : Memo V) (key : MemoKey) : Option V :=
  match memo.slot with
  | some (kept, v) => if kept = key then some v else none
  | none => none

/-- The value for `key`, kept or computed, and the memo afterwards. -/
def fetch (memo : Memo V) (key : MemoKey) (compute : Unit → Option V) : Option V × Memo V :=
  match memo.find? key with
  | some v => (some v, memo)
  | none =>
    match compute () with
    | some v => (some v, ⟨some (key, v), memo.solves + 1⟩)
    | none => (none, memo)

end Memo

/-! ## Kernels -/

/-- A static kernel with its last table. -/
structure StaticKernel where
  family : FieldFamily
  memo : Memo (StaticField Float)

/-- The value at time `t`, or `none`, and the kernel afterwards. -/
def StaticKernel.value (kernel : StaticKernel) (t : Float) (val : List UInt64) :
    Option Float × StaticKernel :=
  match val with
  | nu :: rate :: _ =>
    let (field, memo) := kernel.memo.fetch (.ofList [nu, rate]) fun _ =>
      StaticField.compute kernel.family (.ofBits nu) (.ofBits rate)
    (field.bind (·.value (shiftedTime t (numbers val) 2)), { kernel with memo })
  | _ => (none, kernel)

/-- A dynamic kernel with its last table. -/
structure DynamicKernel where
  family : FieldFamily
  memo : Memo (DynamicField Float)

/-- The value at time `t`, or `none`, and the kernel afterwards. -/
def DynamicKernel.value (kernel : DynamicKernel) (t : Float) (val : List UInt64) :
    Option Float × DynamicKernel :=
  match val with
  | nu :: rate :: nuC :: _ =>
    let (field, memo) := kernel.memo.fetch (.ofList [nu, rate, nuC]) fun _ =>
      DynamicField.compute kernel.family (.ofBits nu) (.ofBits rate) (.ofBits nuC)
    (field.bind (·.value (shiftedTime t (numbers val) 3)), { kernel with memo })
  | _ => (none, kernel)

end MuonSpin
