import RapidProto.Packed.Equivalence
import RapidProto.Reference
import RapidProto.Tree.Cell

/-!
# Growable arrays

A repeated field, a repeated raw field and a map each accumulate into an array `{acc, n, cap}` that
is reallocated and copied when full.  Every write goes through `store`, which has no result for an
index at or past the capacity.
-/

namespace RapidProto

/-- The allocation surface generated code uses; a null result is `none`. -/
structure Allocator where
  /-- The arena's state. -/
  State : Type
  /-- `create<T>()`, by size and alignment. -/
  create : State → (size align : Nat) → Option (Nat × State)
  /-- `allocate_array<T>(count)`. -/
  allocateArray : State → (size align count : Nat) → Option (Nat × State)
  /-- `shrink_last`. -/
  shrinkLast : State → (ptr oldBytes newBytes : Nat) → State

/-- The arena never runs out. -/
def Allocator.NeverFails (allocator : Allocator) : Prop :=
  (∀ state size align, allocator.create state size align ≠ none) ∧
    ∀ state size align count, 0 < count → allocator.allocateArray state size align count ≠ none

/-- An accumulator: the array's address and contents, its length and its capacity. -/
structure Growable where
  /-- `rp_acc`. -/
  base : Nat := 0
  /-- The array behind `rp_acc`. -/
  content : Nat → Cell := fun _ => .zero
  /-- `rp_n`. -/
  n : Nat := 0
  /-- `rp_cap`. -/
  cap : Nat := 0

namespace Growable

/-- The elements stored so far. -/
def elements (acc : Growable) : List Cell := (List.range acc.n).map acc.content

/-- `rp_acc[index] = cell`. -/
def store {ε : Type} (acc : Growable) (index : Nat) (cell : Cell) : Outcome ε Growable :=
  if index < acc.cap then .ok { acc with content := Function.update acc.content index cell }
  else .outside

/-- The copy loop of a reallocation; `left` elements remain, the next one is `index`. -/
def copyFrom {ε : Type} (source : Growable) : (left index : Nat) → Growable → Outcome ε Growable
  | 0, _, acc => .ok acc
  | left + 1, index, acc => do
    let acc ← acc.store index (source.content index)
    copyFrom source left (index + 1) acc

variable {allocator : Allocator}

/-- Move to a fresh array of `cap` elements. -/
def reallocate (size align : Nat) (acc : Growable) (cap : Nat) (mem : allocator.State) :
    Outcome DecodeError (Growable × allocator.State) :=
  match allocator.allocateArray mem size align cap with
  | none => .fail .outOfMemory
  | some (base, mem) => do
    let moved ← copyFrom acc acc.n 0 { base, n := acc.n, cap }
    .ok (moved, mem)

/-- `rp_slot`: make room and count the element; its index is the previous count. -/
def slot (size align : Nat) (acc : Growable) (mem : allocator.State) :
    Outcome DecodeError (Growable × allocator.State) := do
  let (acc, mem) ←
    if acc.n = acc.cap then
      acc.reallocate size align (if acc.cap = 0 then 4 else acc.cap * 2) mem
    else .ok (acc, mem)
  .ok ({ acc with n := acc.n + 1 }, mem)

/-- Write the element whose slot was taken last. -/
def fillSlot {ε : Type} (acc : Growable) (cell : Cell) : Outcome ε Growable :=
  acc.store (acc.n - 1) cell

/-- Make room for `count` more elements. -/
def reserve (size align : Nat) (acc : Growable) (count : Nat) (mem : allocator.State) :
    Outcome DecodeError (Growable × allocator.State) :=
  if count ≠ 0 ∧ acc.cap < acc.n + count then acc.reallocate size align (acc.n + count) mem
  else .ok (acc, mem)

/-- The array sink of the packed-varint kernel: element `index` behind the current count. -/
def putVarint {ε : Type} (kind : Leaf) (n : Nat) (acc : Outcome ε Growable) (index : Nat)
    (raw : BitVec 64) : Outcome ε Growable := do
  let acc ← acc
  acc.store (n + index) (.scalar (kind.ofVarint raw))

/-- The packed-varint fill: reserve one element a byte, decode in place, give back the tail. -/
def fillVarints (kind : Leaf) (acc : Growable) (run : List Byte) (mem : allocator.State) :
    Outcome DecodeError (Growable × allocator.State) := do
  let (acc, mem) ← acc.reserve kind.size kind.align run.length mem
  let put := putVarint (ε := DecodeError) kind acc.n
  let fill ←
    (if kPackedKernelMinSpan ≤ run.length then
      decodePackedVarints put run.length run (.ok acc)
    else decodePackedVarintsSmall put run (.ok acc)).mapError fun failed =>
      DecodeError.wire failed.failure.within
  let acc ← fill.out
  let acc := { acc with n := acc.n + fill.n }
  let mem := allocator.shrinkLast mem acc.base (acc.cap * kind.size) (acc.n * kind.size)
  .ok ({ acc with cap := acc.n }, mem)

/-- The elements whose little-endian images make up the given bytes. -/
def imageOf (kind : Leaf) : (count : Nat) → List Byte → List Value
  | 0, _ => []
  | count + 1, bytes =>
    match payload bytes.length ⟨1, kind.wire⟩ bytes with
    | .ok (value, rest) => kind.convert value :: imageOf kind count rest
    | .error _ => []

/-- Copy elements into the array from the current count on. -/
def storeAll {ε : Type} : (index : Nat) → List Value → Growable → Outcome ε Growable
  | _, [], acc => .ok acc
  | index, value :: values, acc => do
    let acc ← acc.store index (.scalar value)
    storeAll (index + 1) values acc

/-- One turn of the element-wise fixed-width fill. -/
def fixedTurn (kind : Leaf) (span : Nat) (acc : Growable) (p : Cursor) :
    Outcome DecodeError (Turn Byte Growable Growable) :=
  if 0 < p.length then do
    let (value, p) ← (readValue span ⟨1, kind.wire⟩ p).mapError fun failure =>
      DecodeError.wire failure.within
    let acc ← acc.store acc.n (.scalar (kind.convert value))
    .ok (.next { acc with n := acc.n + 1 } p)
  else .ok (.stop acc)

/-- The packed fixed-width fill.  A little-endian host copies a run of whole elements and leaves
with `continue`; otherwise elements are read one by one. -/
def fillFixed (kIsLittleEndian : Bool) (kind : Leaf) (acc : Growable) (run : List Byte)
    (mem : allocator.State) : Outcome DecodeError ((Growable × allocator.State) × Bool) := do
  let count := run.length / kind.size
  let (acc, mem) ← acc.reserve kind.size kind.align count mem
  if kIsLittleEndian ∧ run.length % kind.size = 0 then do
    let acc ← storeAll acc.n (imageOf kind count run) acc
    .ok (({ acc with n := acc.n + count }, mem), true)
  else do
    let acc ← runLoop (fixedTurn kind run.length) acc run
    .ok ((acc, mem), false)

end Growable
end RapidProto
