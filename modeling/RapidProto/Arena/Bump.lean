import Mathlib.Data.Nat.Bitwise
import RapidProto.Region

/-!
# The bump arena

`class Arena` of the runtime: aligned memory carved from a sequence of chunks by a bump pointer.
Pointers are addresses, with null as zero; sizes are 64-bit and computed modulo `2 ^ 64`.  The
host's `new (std::nothrow) char[n]` is a function argument of the operations that may call it,
answering with the base of the block or with null.  Chunk storage is never read, so it is left out;
destruction is not modelled.
-/

namespace RapidProto

/-- `SIZE_MAX`. -/
def kSizeMax : Nat := 2 ^ 64 - 1

/-- `PTRDIFF_MAX`. -/
def kPtrdiffMax : Nat := 2 ^ 63 - 1

/-- `alignof(std::max_align_t)`. -/
def kMaxAlign : Nat := 16

/-- Size of the first grown chunk. -/
def kDefaultChunk : Nat := 4096

/-- Chunks stop doubling here. -/
def kMaxChunk : Nat := 96 * 1024

/-- `align_up`, on `uintptr_t`. -/
def alignUp (p align : Nat) : Nat :=
  (p + (align - 1)) % 2 ^ 64 &&& (2 ^ 64 - 1 - (align - 1))

/-- One memory block. -/
structure Chunk where
  /-- First usable byte. -/
  data : Nat := 0
  /-- One past the last usable byte. -/
  limit : Nat := 0
  deriving DecidableEq, Repr

/-- The usable bytes of a chunk. -/
def Chunk.region (chunk : Chunk) : Region := ⟨chunk.data, chunk.limit⟩

/-- The arena's members. -/
structure Arena where
  /-- The bump pointer. -/
  cur : Nat := 0
  /-- End of the current chunk. -/
  limit : Nat := 0
  /-- Chunk 0: the seed buffer or the first grown chunk. -/
  head : Chunk := {}
  /-- Chunks 1 and up. -/
  more : List Chunk := []
  /-- Index of the current chunk. -/
  cursor : Nat := 0
  /-- Is `head` initialised? -/
  live : Bool := false
  /-- Payload handed out. -/
  used : Nat := 0
  /-- Host memory held. -/
  reserved : Nat := 0
  /-- Size of the next grown chunk. -/
  nextChunk : Nat := kDefaultChunk
  /-- Cap on the host memory held. -/
  cap : Nat := kSizeMax
  deriving DecidableEq, Repr

namespace Arena

variable (arena : Arena)

/-- `chunk(i)`. -/
def chunk (index : Nat) : Chunk :=
  if index = 0 then arena.head else arena.more.getD (index - 1) {}

/-- `chunk_count`. -/
def chunkCount : Nat := if arena.live then 1 + arena.more.length else 0

/-- `advance_to`. -/
def advanceTo (index : Nat) : Arena :=
  { arena with
    cursor := index
    cur := (arena.chunk index).data
    limit := (arena.chunk index).limit }

/-- `adopt_buffer`. -/
def adoptBuffer (buffer size : Nat) : Arena :=
  let head : Chunk := { data := alignUp buffer kMaxAlign, limit := buffer + size }
  let arena := { arena with head, live := true }.advanceTo 0
  { arena with reserved := (arena.reserved + (head.limit - head.data)) % 2 ^ 64 }

/-- The constructor with a caller-owned initial buffer. -/
def seeded (buffer size : Nat) : Arena :=
  if buffer ≠ 0 ∧ kMaxAlign < size then ({} : Arena).adoptBuffer buffer size else {}

/-- `fits`. -/
def fits (chunk : Chunk) (bytes align : Nat) : Bool :=
  let p := alignUp chunk.data align
  p ≤ chunk.limit ∧ bytes ≤ chunk.limit - p

/-- The second half of `grow`: take a chunk in behind the current one and move to it. -/
def install (c : Chunk) : Arena :=
  let reserved := (arena.reserved + (c.limit - c.data)) % 2 ^ 64
  let arena :=
    if arena.live then
      { arena with
        reserved
        more := arena.more.insertIdx arena.cursor c
        cursor := arena.cursor + 1 }
    else { arena with reserved, head := c, live := true, cursor := 0 }
  let arena := arena.advanceTo arena.cursor
  if arena.nextChunk < kMaxChunk then
    { arena with nextChunk := min (arena.nextChunk * 2) kMaxChunk }
  else arena

/-- `grow`: a new chunk with at least `minUsable` usable bytes. -/
def grow (newChars : Nat → Option Nat) (minUsable : Nat) : Option Arena :=
  let cap := if arena.nextChunk < minUsable then minUsable else arena.nextChunk
  if kPtrdiffMax - kMaxAlign < cap then none
  else
    let raw := (cap + kMaxAlign) % 2 ^ 64
    if arena.cap ≤ arena.reserved ∨ arena.cap - arena.reserved < raw then none
    else
      match newChars raw with
      | none => none
      | some base => some (arena.install { data := alignUp base kMaxAlign, limit := base + raw })

/-- The bump itself, once there is room. -/
def bump (bytes align : Nat) : Nat × Arena :=
  let p := alignUp arena.cur align
  (p, { arena with cur := p + bytes, used := (arena.used + bytes) % 2 ^ 64 })

/-- `allocate_slow`: the next chunk that is held already, if the request fits, or a grown one. -/
def allocateSlow (newChars : Nat → Option Nat) (bytes align : Nat) : Nat × Arena :=
  if arena.cursor + 1 < arena.chunkCount ∧ fits (arena.chunk (arena.cursor + 1)) bytes align then
    (arena.advanceTo (arena.cursor + 1)).bump bytes align
  else if kSizeMax - align < bytes then (0, arena)
  else
    match arena.grow newChars ((bytes + align) % 2 ^ 64) with
    | none => (0, arena)
    | some arena => arena.bump bytes align

/-- `allocate`. -/
def allocate (newChars : Nat → Option Nat) (bytes align : Nat) : Nat × Arena :=
  let p := alignUp arena.cur align
  if arena.cur ≠ 0 ∧ p ≤ arena.limit ∧ bytes ≤ arena.limit - p then arena.bump bytes align
  else arena.allocateSlow newChars bytes align

/-- `allocate_array<T>`, by the size and alignment of `T`. -/
def allocateArray (newChars : Nat → Option Nat) (size align count : Nat) : Nat × Arena :=
  if count = 0 ∨ kSizeMax / size < count then (0, arena)
  else arena.allocate newChars (count * size % 2 ^ 64) align

/-- `create<T>`, by the size and alignment of `T`. -/
def create (newChars : Nat → Option Nat) (size align : Nat) : Nat × Arena :=
  arena.allocate newChars size align

/-- `shrink_last`. -/
def shrinkLast (ptr oldBytes newBytes : Nat) : Arena :=
  if ptr = 0 ∨ oldBytes < newBytes then arena
  else if ptr + oldBytes = arena.cur then
    { arena with
      cur := ptr + newBytes
      used := (arena.used + 2 ^ 64 - (oldBytes - newBytes)) % 2 ^ 64 }
  else arena

/-- `reset`. -/
def reset : Arena :=
  let arena := { arena with used := 0, cursor := 0 }
  if arena.live then { arena with cur := arena.head.data, limit := arena.head.limit }
  else { arena with cur := 0, limit := 0 }

/-- `set_capacity_limit`. -/
def setCapacityLimit (maxReservedBytes : Nat) : Arena := { arena with cap := maxReservedBytes }

/-- The chunks in use or held for reuse. -/
def chunks : List Chunk := if arena.live then arena.head :: arena.more else []

variable {arena}

theorem reset_of_live (live : arena.live = true) :
    arena.reset = { arena with
      used := 0, cursor := 0, cur := arena.head.data, limit := arena.head.limit } := by
  simp [reset, live]

theorem reset_of_dead (dead : arena.live = false) :
    arena.reset = { arena with used := 0, cursor := 0, cur := 0, limit := 0 } := by
  simp [reset, dead]

end Arena

/-! ## Alignment -/

/-- Masking off the low bits rounds down. -/
theorem land_compl_two_pow {p exponent : Nat} (fits : p < 2 ^ 64) (small : exponent < 64) :
    p &&& (2 ^ 64 - 1 - (2 ^ exponent - 1)) = p / 2 ^ exponent * 2 ^ exponent := by
  have power : 2 ^ exponent < 2 ^ 64 := Nat.pow_lt_pow_right (by decide) small
  have positive : 0 < 2 ^ exponent := Nat.two_pow_pos exponent
  rw [← Nat.shiftRight_eq_div_pow, ← Nat.shiftLeft_eq,
    show 2 ^ 64 - 1 - (2 ^ exponent - 1) = 2 ^ 64 - ((2 ^ exponent - 1) + 1) by omega]
  apply Nat.eq_of_testBit_eq
  intro index
  rw [Nat.testBit_and, Nat.testBit_two_pow_sub_succ (by omega), Nat.testBit_two_pow_sub_one,
    Nat.testBit_shiftLeft, Nat.testBit_shiftRight]
  by_cases low : index < exponent
  · simp [low]
  · by_cases high : index < 64
    · simp [not_lt.mp low, low, high, show exponent + (index - exponent) = index by omega]
    · have beyond : p.testBit index = false :=
        Nat.testBit_lt_two_pow (lt_of_lt_of_le fits (Nat.pow_le_pow_right (by decide) (by omega)))
      simp [low, beyond, show exponent + (index - exponent) = index by omega]

/-- Addresses of the lower half can be aligned to any power of two without a wrap. -/
theorem alignUp_eq {p exponent : Nat} (low : p ≤ 2 ^ 63) (small : exponent < 64) :
    alignUp p (2 ^ exponent) = (p + (2 ^ exponent - 1)) / 2 ^ exponent * 2 ^ exponent := by
  have power : 2 ^ exponent ≤ 2 ^ 63 := Nat.pow_le_pow_right (by decide) (by omega)
  have positive : 0 < 2 ^ exponent := Nat.two_pow_pos exponent
  rw [alignUp, Nat.mod_eq_of_lt (by omega)]
  exact land_compl_two_pow (by omega) small

theorem alignUp_dvd {p exponent : Nat} (low : p ≤ 2 ^ 63) (small : exponent < 64) :
    2 ^ exponent ∣ alignUp p (2 ^ exponent) := by
  rw [alignUp_eq low small]
  exact Dvd.intro_left _ rfl

theorem le_alignUp {p exponent : Nat} (low : p ≤ 2 ^ 63) (small : exponent < 64) :
    p ≤ alignUp p (2 ^ exponent) := by
  have positive : 0 < 2 ^ exponent := Nat.two_pow_pos exponent
  rw [alignUp_eq low small]
  have rounded := Nat.lt_div_mul_add positive (a := p + (2 ^ exponent - 1))
  omega

theorem alignUp_lt {p exponent : Nat} (low : p ≤ 2 ^ 63) (small : exponent < 64) :
    alignUp p (2 ^ exponent) < p + 2 ^ exponent := by
  have positive : 0 < 2 ^ exponent := Nat.two_pow_pos exponent
  rw [alignUp_eq low small]
  have rounded := Nat.div_mul_le_self (p + (2 ^ exponent - 1)) (2 ^ exponent)
  omega

end RapidProto
