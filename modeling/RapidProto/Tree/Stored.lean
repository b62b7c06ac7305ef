import RapidProto.Arena.Heap
import RapidProto.Tree.Buffer
import RapidProto.Tree.Decode
import RapidProto.Wire.Grammar

/-!
# Accumulators in memory

The accumulator of a packable field once more, with its elements as bytes in the arena's memory.
The operations are those of the growable array; they track it step by step and spare every other
block.
-/

namespace RapidProto

/-! ## Images -/

/-- The bytes of a word, the low byte first. -/
def wordBytes {width : Nat} (count : Nat) (bits : BitVec width) : List Byte :=
  (List.range count).map fun index => bits.extractLsb' (8 * index) 8

/-- Bytes that are given the low one first, in the order of the host. -/
def hostOrder (kIsLittleEndian : Bool) (bytes : List Byte) : List Byte :=
  if kIsLittleEndian then bytes else bytes.reverse

/-- The object representation of a packable value. -/
def Value.image (kIsLittleEndian : Bool) : Value → List Byte
  | .w32 bits => hostOrder kIsLittleEndian (wordBytes 4 bits)
  | .w64 bits => hostOrder kIsLittleEndian (wordBytes 8 bits)
  | .flag set => [if set then 1 else 0]
  | .text _ => []

/-- The value that an object representation stands for. -/
def Value.ofImage (kIsLittleEndian : Bool) (image : List Byte) : Value :=
  match hostOrder kIsLittleEndian image with
  | [b] => .flag (b != 0)
  | [b0, b1, b2, b3] => .w32 (word32 b0 b1 b2 b3)
  | [b0, b1, b2, b3, b4, b5, b6, b7] => .w64 (word64 b0 b1 b2 b3 b4 b5 b6 b7)
  | bytes => .text bytes

@[simp] theorem hostOrder_hostOrder (kIsLittleEndian : Bool) (bytes : List Byte) :
    hostOrder kIsLittleEndian (hostOrder kIsLittleEndian bytes) = bytes := by
  cases kIsLittleEndian with
  | true => rfl
  | false => exact List.reverse_reverse bytes

@[simp] theorem hostOrder_length (kIsLittleEndian : Bool) (bytes : List Byte) :
    (hostOrder kIsLittleEndian bytes).length = bytes.length := by
  cases kIsLittleEndian with
  | true => rfl
  | false => exact List.length_reverse

theorem word32_wordBytes (bits : BitVec 32) :
    word32 (bits.extractLsb' 0 8) (bits.extractLsb' 8 8) (bits.extractLsb' 16 8)
      (bits.extractLsb' 24 8) = bits := by
  have small := bits.isLt
  apply BitVec.eq_of_toNat_eq
  rw [word32_toNat]
  simp only [littleEndian, BitVec.extractLsb'_toNat, Nat.shiftRight_eq_div_pow]
  omega

theorem word64_wordBytes (bits : BitVec 64) :
    word64 (bits.extractLsb' 0 8) (bits.extractLsb' 8 8) (bits.extractLsb' 16 8)
      (bits.extractLsb' 24 8) (bits.extractLsb' 32 8) (bits.extractLsb' 40 8)
      (bits.extractLsb' 48 8) (bits.extractLsb' 56 8) = bits := by
  have small := bits.isLt
  apply BitVec.eq_of_toNat_eq
  rw [word64_toNat]
  simp only [littleEndian, BitVec.extractLsb'_toNat, Nat.shiftRight_eq_div_pow]
  omega

/-- Bytes of an image. -/
def Value.width : Value → Nat
  | .w32 _ => 4
  | .w64 _ => 8
  | .flag _ => 1
  | .text _ => 0

/-- What is stored is read back. -/
theorem Value.ofImage_image {value : Value} (sized : 0 < value.width) (kIsLittleEndian : Bool) :
    Value.ofImage kIsLittleEndian (value.image kIsLittleEndian) = value := by
  cases value with
  | w32 bits =>
      simp only [Value.image, Value.ofImage, hostOrder_hostOrder]
      exact congrArg Value.w32 (word32_wordBytes bits)
  | w64 bits =>
      simp only [Value.image, Value.ofImage, hostOrder_hostOrder]
      exact congrArg Value.w64 (word64_wordBytes bits)
  | flag set => cases set <;> cases kIsLittleEndian <;> rfl
  | text bytes => cases sized

@[simp] theorem Value.length_image (value : Value) (kIsLittleEndian : Bool) :
    (value.image kIsLittleEndian).length = value.width := by
  cases value <;> simp [Value.image, Value.width, wordBytes]

/-- A payload of a packable leaf's wire type fills the leaf's storage. -/
theorem Leaf.width_convert {kind : Leaf} (packable : isPackableWire kind.wire = true)
    {value : Payload} (wire : value.wire = kind.wire) : (kind.convert value).width = kind.size := by
  rw [← wire] at packable
  cases value with
  | len bytes => cases packable
  | group body => cases packable
  | varint raw =>
      cases kind with
      | enum => rfl
      | scalar type => cases type <;> first | rfl | cases wire
  | i32 raw =>
      cases kind with
      | enum => cases wire
      | scalar type => cases type <;> first | rfl | cases wire
  | i64 raw =>
      cases kind with
      | enum => cases wire
      | scalar type => cases type <;> first | rfl | cases wire

theorem wordBytes_word32 (b0 b1 b2 b3 : Byte) :
    wordBytes 4 (word32 b0 b1 b2 b3) = [b0, b1, b2, b3] := by
  have byte := fun b : Byte => b.isLt
  have l0 := byte b0
  have l1 := byte b1
  have l2 := byte b2
  have l3 := byte b3
  simp only [wordBytes, List.range_succ, List.range_zero, List.nil_append, List.map_cons,
    List.map_nil, List.cons_append, List.cons.injEq, and_true]
  refine ⟨?_, ?_, ?_, ?_⟩ <;> refine BitVec.eq_of_toNat_eq ?_ <;>
    rw [BitVec.extractLsb'_toNat, word32_toNat] <;>
    simp only [littleEndian, Nat.shiftRight_eq_div_pow] <;> omega

theorem wordBytes_word64 (b0 b1 b2 b3 b4 b5 b6 b7 : Byte) :
    wordBytes 8 (word64 b0 b1 b2 b3 b4 b5 b6 b7) = [b0, b1, b2, b3, b4, b5, b6, b7] := by
  have byte := fun b : Byte => b.isLt
  have l0 := byte b0
  have l1 := byte b1
  have l2 := byte b2
  have l3 := byte b3
  have l4 := byte b4
  have l5 := byte b5
  have l6 := byte b6
  have l7 := byte b7
  simp only [wordBytes, List.range_succ, List.range_zero, List.nil_append, List.map_cons,
    List.map_nil, List.cons_append, List.cons.injEq, and_true]
  refine ⟨?_, ?_, ?_, ?_, ?_, ?_, ?_, ?_⟩ <;> refine BitVec.eq_of_toNat_eq ?_ <;>
    rw [BitVec.extractLsb'_toNat, word64_toNat] <;>
    simp only [littleEndian, Nat.shiftRight_eq_div_pow] <;> omega

/-- On a little-endian host the bytes of a fixed-width element are its image. -/
theorem Leaf.IsFixed.image {kind : Leaf} (isFixed : kind.IsFixed) {span : Nat} {p : Cursor}
    {value : Payload} {rest : Cursor} (got : payload span ⟨1, kind.wire⟩ p = .ok (value, rest)) :
    (kind.convert value).image true = p.take kind.size := by
  rcases isFixed with wire | wire
  · rw [Leaf.size_of_i32 wire]
    simp only [payload, wire] at got
    cases read : fixed32 p with
    | error failure =>
        rw [read] at got
        cases got
    | ok pair =>
        obtain ⟨word, later⟩ := pair
        obtain ⟨b0, b1, b2, b3, rfl, rfl⟩ := fixed32_bytes read
        rw [read] at got
        cases got
        exact wordBytes_word32 b0 b1 b2 b3
  · rw [Leaf.size_of_i64 wire]
    simp only [payload, wire] at got
    cases read : fixed64 p with
    | error failure =>
        rw [read] at got
        cases got
    | ok pair =>
        obtain ⟨word, later⟩ := pair
        obtain ⟨b0, b1, b2, b3, b4, b5, b6, b7, rfl, rfl⟩ := fixed64_bytes read
        rw [read] at got
        cases got
        exact wordBytes_word64 b0 b1 b2 b3 b4 b5 b6 b7

theorem Leaf.size_pos (kind : Leaf) : 0 < kind.size := by
  cases kind with
  | enum => decide
  | scalar type => cases type <;> decide

theorem Leaf.align_pow (kind : Leaf) : ∃ exponent < 64, kind.align = 2 ^ exponent := by
  cases kind with
  | enum => exact ⟨2, by decide, rfl⟩
  | scalar type =>
      cases type with
      | bool => exact ⟨0, by decide, rfl⟩
      | int32 | uint32 | sint32 | fixed32 | sfixed32 | float | string | bytes =>
          exact ⟨2, by decide, rfl⟩
      | int64 | uint64 | sint64 | fixed64 | sfixed64 | double => exact ⟨3, by decide, rfl⟩

/-- A packable value is stored as itself. -/
theorem storeLeaf_packable {kind : Leaf} (packable : isPackableWire kind.wire = true)
    {value : Payload} (wire : value.wire = kind.wire) :
    storeLeaf kind value = .scalar (kind.convert value) := by
  have width := Leaf.width_convert packable wire
  rw [storeLeaf]
  split
  · rename_i bytes text
    rw [text] at width
    exact absurd width kind.size_pos.ne
  · rfl

/-! ## The accumulator -/

/-- Taking a slot and filling it appends an element. -/
theorem Growable.append_ends {allocator : Allocator} {size align : Nat} {acc : Growable}
    {cells : List Cell} {mem : allocator.State} (holds : acc.Holds cells) (cell : Cell) :
    (acc.slot size align mem >>= fun taken => taken.1.fillSlot cell >>= fun filled =>
      .ok (filled, taken.2)).Ends
      (fun result => result.1.Holds (cells ++ [cell])) allocator.Exhausted := by
  refine (slot_ends holds).bind fun taken room => ?_
  obtain ⟨last, held⟩ := room
  obtain ⟨filled, ran, held'⟩ := @fillSlot_spec _ _ DecodeError _ held cell
  rw [ran]
  exact held'

/-- The arena as generated code uses it, with the blocks it has handed out. -/
@[reducible]
def ledgerAllocator (newChars : Nat → Option Nat) : Allocator where
  State := Ledger
  create ledger size align :=
    let result := ledger.arena.create newChars size align
    if result.1 = 0 then none else some (result.1, ledger.receive result size align)
  allocateArray ledger size align count :=
    let result := ledger.arena.allocateArray newChars size align count
    if result.1 = 0 then none
    else some (result.1, ledger.receive result (count * size) align)
  shrinkLast := Ledger.giveBack

/-- An accumulator: `rp_acc`, `rp_n` and `rp_cap`. -/
structure Buffer where
  /-- Address of the array. -/
  base : Nat := 0
  /-- Number of elements. -/
  n : Nat := 0
  /-- Room for elements. -/
  cap : Nat := 0
  deriving DecidableEq, Repr

namespace Buffer

section Operations

variable (newChars : Nat → Option Nat) (kIsLittleEndian : Bool) (kind : Leaf)

/-- Element `index`. -/
def load (buffer : Buffer) (memory : Memory Byte) (index : Nat) : Value :=
  Value.ofImage kIsLittleEndian (memory.read (buffer.base + index * kind.size) kind.size)

/-- The elements. -/
def stored (buffer : Buffer) (memory : Memory Byte) : List Value :=
  (List.range buffer.n).map (buffer.load kIsLittleEndian kind memory)

/-- `rp_acc[index] = value`. -/
def store (buffer : Buffer) (index : Nat) (value : Value) (memory : Memory Byte) : Memory Byte :=
  memory.write (buffer.base + index * kind.size) (value.image kIsLittleEndian)

/-- Move to a fresh array of `cap` elements. -/
def reallocate (buffer : Buffer) (cap : Nat) (heap : Heap Byte) :
    Outcome DecodeError (Buffer × Heap Byte) :=
  let result := heap.ledger.arena.allocateArray newChars kind.size kind.align cap
  if result.1 = 0 then .fail .outOfMemory
  else
    .ok ({ base := result.1, n := buffer.n, cap },
      { ledger := heap.ledger.receive result (cap * kind.size) kind.align
        memory := heap.memory.copyItems kind.size buffer.base result.1 buffer.n 0 })

/-- `rp_slot`: make room and count the element. -/
def slot (buffer : Buffer) (heap : Heap Byte) : Outcome DecodeError (Buffer × Heap Byte) := do
  let (buffer, heap) ←
    if buffer.n = buffer.cap then
      buffer.reallocate newChars kind (if buffer.cap = 0 then 4 else buffer.cap * 2) heap
    else .ok (buffer, heap)
  .ok ({ buffer with n := buffer.n + 1 }, heap)

/-- A single element. -/
def append (buffer : Buffer) (value : Payload) (heap : Heap Byte) :
    Outcome DecodeError (Buffer × Heap Byte) := do
  let (buffer, heap) ← buffer.slot newChars kind heap
  .ok (buffer, { heap with
    memory := buffer.store kIsLittleEndian kind (buffer.n - 1) (kind.convert value) heap.memory })

/-- Make room for `count` more elements. -/
def reserve (buffer : Buffer) (count : Nat) (heap : Heap Byte) :
    Outcome DecodeError (Buffer × Heap Byte) :=
  if count ≠ 0 ∧ buffer.cap < buffer.n + count then
    buffer.reallocate newChars kind (buffer.n + count) heap
  else .ok (buffer, heap)

/-- A packed varint run. -/
def fillVarints (buffer : Buffer) (run : List Byte) (heap : Heap Byte) :
    Outcome DecodeError (Buffer × Heap Byte) := do
  let (buffer, heap) ← buffer.reserve newChars kind run.length heap
  let put := fun memory index raw =>
    buffer.store kIsLittleEndian kind (buffer.n + index) (kind.ofVarint raw) memory
  let fill ←
    (if kPackedKernelMinSpan ≤ run.length then
      decodePackedVarints put run.length run heap.memory
    else decodePackedVarintsSmall put run heap.memory).mapError fun failed =>
      DecodeError.wire failed.failure.within
  let buffer := { buffer with n := buffer.n + fill.n }
  let ledger :=
    heap.ledger.giveBack buffer.base (buffer.cap * kind.size) (buffer.n * kind.size)
  .ok ({ buffer with cap := buffer.n }, { ledger, memory := fill.out })

/-- One turn of the element-wise fixed-width fill. -/
def fixedTurn (span : Nat) (state : Buffer × Memory Byte) (p : Cursor) :
    Outcome DecodeError (Turn Byte (Buffer × Memory Byte) (Buffer × Memory Byte)) :=
  if 0 < p.length then do
    let (value, p) ← (readValue span ⟨1, kind.wire⟩ p).mapError fun failure =>
      DecodeError.wire failure.within
    let memory := state.1.store kIsLittleEndian kind state.1.n (kind.convert value) state.2
    .ok (.next ({ state.1 with n := state.1.n + 1 }, memory) p)
  else .ok (.stop state)

/-- A packed fixed-width run; a run of whole elements is copied as it is on a little-endian host. -/
def fillFixed (buffer : Buffer) (run : List Byte) (heap : Heap Byte) :
    Outcome DecodeError (Buffer × Heap Byte) := do
  let count := run.length / kind.size
  let (buffer, heap) ← buffer.reserve newChars kind count heap
  if kIsLittleEndian ∧ run.length % kind.size = 0 then
    .ok ({ buffer with n := buffer.n + count }, { heap with
      memory := heap.memory.write (buffer.base + buffer.n * kind.size) run })
  else do
    let (buffer, memory) ←
      runLoop (fixedTurn kIsLittleEndian kind run.length) (buffer, heap.memory) run
    .ok (buffer, { heap with memory })

/-- A packed run. -/
def fill (buffer : Buffer) (run : List Byte) (heap : Heap Byte) :
    Outcome DecodeError (Buffer × Heap Byte) :=
  if kind.wire = .varint then buffer.fillVarints newChars kIsLittleEndian kind run heap
  else buffer.fillFixed newChars kIsLittleEndian kind run heap

end Operations

/-- An accumulator in memory and the growable array it tracks, since the heap was `start` and the
array was at `own`: the first `known` elements are the same, every other block was spared, and the
array lies in a block of its own. -/
structure Tracks (kIsLittleEndian : Bool) (kind : Leaf) (start : Heap Byte) (own known : Nat)
    (here : Buffer × Heap Byte) (there : Growable × Ledger) : Prop where
  /-- The others are spared. -/
  spares : start.Spares here.2 own here.1.base
  /-- The count is within the capacity. -/
  room : here.1.n ≤ here.1.cap
  /-- Without an array the pointer is null. -/
  unset : here.1.cap = 0 → here.1.base = 0
  /-- The array's block. -/
  block : here.1.cap ≠ 0 → here.2.ledger.HandedOut here.1.base (here.1.cap * kind.size)
  /-- The arena. -/
  ledger : there.2 = here.2.ledger
  base : there.1.base = here.1.base
  n : there.1.n = here.1.n
  cap : there.1.cap = here.1.cap
  /-- The elements. -/
  content : ∀ index < known, there.1.content index =
    .scalar (here.1.load kIsLittleEndian kind here.2.memory index)

section Tracking

variable {newChars : Nat → Option Nat} {kIsLittleEndian : Bool} {kind : Leaf} {start heap : Heap Byte}
  {own known : Nat} {buffer : Buffer} {acc : Growable} {ledger : Ledger}

theorem load_congr {memory memory' : Memory Byte} {index : Nat}
    (same : memory'.read (buffer.base + index * kind.size) kind.size =
      memory.read (buffer.base + index * kind.size) kind.size) :
    buffer.load kIsLittleEndian kind memory' index = buffer.load kIsLittleEndian kind memory index := by
  rw [load, load, same]

/-- Writing the first unknown element makes it known. -/
theorem Tracks.store {held : Ledger} {memory : Memory Byte}
    (tracks : Tracks kIsLittleEndian kind start own known (buffer, ⟨held, memory⟩) (acc, ledger))
    (inside : known < buffer.cap) {value : Value} (sized : value.width = kind.size) :
    Tracks kIsLittleEndian kind start own (known + 1)
      (buffer, ⟨held, buffer.store kIsLittleEndian kind known value memory⟩)
      (acc.write known (.scalar value), ledger) := by
  have positive := kind.size_pos
  have block := tracks.block (by simp only; omega)
  have element := @Memory.item_inside buffer.base kind.size _ _ inside
  have changes : Memory.ChangesWithin
      ⟨buffer.base + known * kind.size, buffer.base + known * kind.size + kind.size⟩ memory
      (buffer.store kIsLittleEndian kind known value memory) :=
    Memory.changesWithin_write (by rw [Value.length_image, sized]; exact ⟨le_rfl, le_rfl⟩)
  exact
    { spares := tracks.spares.trans
        (Heap.spares_store tracks.spares.valid block (changes.mono element))
      room := tracks.room
      unset := tracks.unset
      block := tracks.block
      ledger := tracks.ledger
      base := tracks.base
      n := tracks.n
      cap := tracks.cap
      content := by
        intro index below
        rcases Nat.lt_succ_iff_lt_or_eq.mp below with before | rfl
        · have apart : Region.Apart
              ⟨buffer.base + index * kind.size, buffer.base + index * kind.size + kind.size⟩
              ⟨buffer.base + known * kind.size, buffer.base + known * kind.size + kind.size⟩ :=
            .inl (@Memory.item_inside buffer.base kind.size _ _ before).2
          rw [Growable.write_content, Function.update_of_ne before.ne, tracks.content index before]
          exact congrArg Cell.scalar (load_congr (changes.read apart)).symm
        · have image := Memory.read_write memory (buffer.base + index * kind.size)
            (value.image kIsLittleEndian)
          rw [Value.length_image, sized] at image
          rw [Growable.write_content, Function.update_self, load]
          simp only [Buffer.store, image]
          rw [Value.ofImage_image (by omega)] }

/-- The old array is apart from a new block. -/
theorem Tracks.apart_received
    (tracks : Tracks kIsLittleEndian kind start own known (buffer, heap) (acc, ledger))
    {result : Nat × Arena} {cap align : Nat} (enough : buffer.n ≤ cap) (sized : 0 < cap * kind.size)
    (given : result.1 ≠ 0) (received : (heap.ledger.receive result (cap * kind.size) align).Valid) :
    Region.Apart ⟨buffer.base, buffer.base + buffer.n * kind.size⟩
      ⟨result.1, result.1 + buffer.n * kind.size⟩ := by
  have room := tracks.room
  simp only at room
  by_cases unset : buffer.cap = 0
  · obtain empty : buffer.n = 0 := by omega
    simp only [empty, Nat.zero_mul, Nat.add_zero]
    exact Nat.le_total _ _
  · have held := tracks.block unset
    have positive : 0 < buffer.cap * kind.size :=
      Nat.mul_pos (Nat.pos_of_ne_zero unset) kind.size_pos
    have kept : (heap.ledger.receive result (cap * kind.size) align).HandedOut buffer.base
        (buffer.n * kind.size) := (held.receive sized).mono (Nat.mul_le_mul_right kind.size room)
    have new : (heap.ledger.receive result (cap * kind.size) align).HandedOut result.1
        (buffer.n * kind.size) :=
      (Ledger.handedOut_receive given).mono (Nat.mul_le_mul_right kind.size enough)
    exact kept.apart new received (held.ne_received received positive sized)

/-- Moving to a fresh array. -/
theorem Tracks.reallocate (fresh : heap.ledger.arena.Fresh newChars)
    (tracks : Tracks kIsLittleEndian kind start own buffer.n (buffer, heap) (acc, ledger)) {cap : Nat}
    (positive : 0 < cap) (enough : buffer.n ≤ cap) :
    Outcome.Refines
      (fun here there => Tracks kIsLittleEndian kind start own buffer.n here there ∧
        here.1.n = buffer.n ∧ here.1.cap = cap)
      (fun _ => False) (buffer.reallocate newChars kind cap heap)
      (@Growable.reallocate (ledgerAllocator newChars) kind.size kind.align acc cap ledger) := by
  obtain rfl : ledger = heap.ledger := tracks.ledger
  obtain ⟨exponent, small, align⟩ := kind.align_pow
  have sized : 0 < cap * kind.size := Nat.mul_pos positive kind.size_pos
  have received : (heap.ledger.receive
      (heap.ledger.arena.allocateArray newChars kind.size kind.align cap) (cap * kind.size)
      kind.align).Valid := by
    rw [align]
    exact tracks.spares.valid.allocateArray fresh kind.size_pos small
  unfold Buffer.reallocate Growable.reallocate
  simp only [ledgerAllocator]
  generalize heap.ledger.arena.allocateArray newChars kind.size kind.align cap = result at *
  by_cases null : result.1 = 0
  · simp only [null, if_true]
    exact Outcome.refines_fail _
  simp only [null, if_false]
  obtain ⟨content, copied, moved, -⟩ := @Growable.copyFrom_spec DecodeError acc acc.n 0
    { base := result.1, n := acc.n, cap } (by rw [Nat.zero_add, tracks.n]; exact enough)
  rw [copied, Outcome.ok_bind]
  have apart := tracks.apart_received enough sized null received
  obtain ⟨changes, kept⟩ := Memory.copyItems_spec apart (Nat.zero_add buffer.n) heap.memory
  have target : Region.Inside
      ⟨result.1 + 0 * kind.size, result.1 + buffer.n * kind.size⟩
      ⟨result.1, result.1 + cap * kind.size⟩ :=
    ⟨Nat.le_add_right _ _, Nat.add_le_add_left (Nat.mul_le_mul_right _ enough) _⟩
  have held : (heap.ledger.receive result (cap * kind.size) kind.align).HandedOut result.1
      (cap * kind.size) := Ledger.handedOut_receive null
  refine Outcome.refines_ok ⟨?_, rfl, rfl⟩
  exact
    { spares := (tracks.spares.trans (Heap.spares_receive buffer.base received sized)).trans
        (Heap.spares_store received held (changes.mono target))
      room := enough
      unset := fun unset => absurd unset positive.ne'
      block := fun _ => held
      ledger := rfl
      base := rfl
      n := tracks.n
      cap := rfl
      content := fun index below => by
        have count := tracks.n
        simp only at count
        simp only
        rw [moved index (Nat.zero_le _) (by omega), tracks.content index below]
        simp only [load]
        rw [kept index (Nat.zero_le _) below] }

/-- Counting elements within the capacity. -/
theorem Tracks.count (tracks : Tracks kIsLittleEndian kind start own known (buffer, heap) (acc, ledger))
    {n : Nat} (room : n ≤ buffer.cap) :
    Tracks kIsLittleEndian kind start own known ({ buffer with n }, heap) ({ acc with n }, ledger) where
  spares := tracks.spares
  room := room
  unset := tracks.unset
  block := tracks.block
  ledger := tracks.ledger
  base := tracks.base
  n := rfl
  cap := tracks.cap
  content := tracks.content

/-- Taking a slot. -/
theorem Tracks.slot (fresh : heap.ledger.arena.Fresh newChars)
    (tracks : Tracks kIsLittleEndian kind start own buffer.n (buffer, heap) (acc, ledger)) :
    Outcome.Refines
      (fun here there => Tracks kIsLittleEndian kind start own buffer.n here there ∧
        here.1.n = buffer.n + 1)
      (fun _ => False) (buffer.slot newChars kind heap)
      (@Growable.slot (ledgerAllocator newChars) kind.size kind.align acc ledger) := by
  have counts : acc.n = buffer.n ∧ acc.cap = buffer.cap := ⟨tracks.n, tracks.cap⟩
  have room := tracks.room
  simp only at room
  have larger : buffer.n < if buffer.n = 0 then 4 else buffer.n * 2 := by split <;> omega
  have counted {here : Buffer × Heap Byte} {there : Growable × Ledger}
      (moved : Tracks kIsLittleEndian kind start own buffer.n here there)
      (count : here.1.n = buffer.n) (inside : buffer.n < here.1.cap) :
      Outcome.Refines
        (fun here there => Tracks kIsLittleEndian kind start own buffer.n here there ∧
          here.1.n = buffer.n + 1)
        (fun _ => False)
        (.ok ({ here.1 with n := here.1.n + 1 }, here.2) : Outcome DecodeError _)
        (.ok ({ there.1 with n := there.1.n + 1 }, there.2) : Outcome DecodeError _) := by
    refine Outcome.refines_ok ⟨?_, by simp only [count]⟩
    simp only [moved.n]
    exact moved.count (by omega)
  rw [Buffer.slot, Growable.slot, counts.1, counts.2]
  split
  · rename_i full
    rw [← full]
    refine (tracks.reallocate fresh (Nat.zero_lt_of_lt larger) larger.le).bind ?_
    rintro here there ⟨moved, count, capacity⟩
    exact counted moved count (capacity ▸ larger)
  · exact counted tracks rfl (by simp only; omega)

/-- A single element. -/
theorem Tracks.append (fresh : heap.ledger.arena.Fresh newChars)
    (tracks : Tracks kIsLittleEndian kind start own buffer.n (buffer, heap) (acc, ledger))
    (packable : isPackableWire kind.wire = true) {value : Payload} (wire : value.wire = kind.wire) :
    Outcome.Refines
      (fun here there => Tracks kIsLittleEndian kind start own here.1.n here there ∧
        here.1.n = buffer.n + 1)
      (fun _ => False) (buffer.append newChars kIsLittleEndian kind value heap)
      (@Growable.slot (ledgerAllocator newChars) kind.size kind.align acc ledger >>= fun taken =>
        taken.1.fillSlot (storeLeaf kind value) >>= fun filled => .ok (filled, taken.2)) := by
  have width := Leaf.width_convert packable wire
  rw [Buffer.append, storeLeaf_packable packable wire]
  refine (tracks.slot fresh).bind ?_
  rintro ⟨buffer', heap'⟩ ⟨acc', ledger'⟩ ⟨taken, count⟩
  have room := taken.room
  have count' : acc'.n = buffer'.n := taken.n
  have capacity : acc'.cap = buffer'.cap := taken.cap
  simp only at count room
  have last : buffer'.n - 1 = buffer.n := by omega
  simp only [Growable.fillSlot, count', last]
  rw [Growable.store_of_lt (by omega), Outcome.ok_bind]
  refine Outcome.refines_ok ⟨?_, count⟩
  simp only [count]
  exact taken.store (by omega) width

/-- Making room for a run. -/
theorem Tracks.reserve (fresh : heap.ledger.arena.Fresh newChars)
    (tracks : Tracks kIsLittleEndian kind start own buffer.n (buffer, heap) (acc, ledger))
    (count : Nat) :
    Outcome.Refines
      (fun here there => Tracks kIsLittleEndian kind start own buffer.n here there ∧
        here.1.n = buffer.n ∧ buffer.n + count ≤ here.1.cap ∧
        (count = 0 → here = (buffer, heap)))
      (fun _ => False) (buffer.reserve newChars kind count heap)
      (@Growable.reserve (ledgerAllocator newChars) kind.size kind.align acc count ledger) := by
  have counts : acc.n = buffer.n ∧ acc.cap = buffer.cap := ⟨tracks.n, tracks.cap⟩
  have room := tracks.room
  simp only at room
  rw [Buffer.reserve, Growable.reserve, counts.1, counts.2]
  split
  · rename_i needed
    refine (tracks.reallocate fresh (by omega) (by omega)).mono ?_
    rintro here there ⟨moved, same, capacity⟩
    exact ⟨moved, same, capacity.ge, fun unset => absurd unset needed.1⟩
  · exact Outcome.refines_ok ⟨tracks, rfl, by simp only; omega, fun _ => rfl⟩

/-- The array sink of the packed-varint kernel. -/
theorem Tracks.plainFrom {held : Ledger} {span turns : Nat} {q : Cursor}
    {filled : Fill (Memory Byte)} {filled' : Fill (Outcome DecodeError Growable)}
    (isVarint : kind.wire = .varint) (enough : q.length ≤ turns) (same : filled'.n = filled.n)
    (out : filled'.out = .ok acc)
    (tracks : Tracks kIsLittleEndian kind start own (buffer.n + filled.n)
      (buffer, ⟨held, filled.out⟩) (acc, ledger))
    (room : buffer.n + filled.n + q.length ≤ buffer.cap) :
    Outcome.Refines
      (fun final final' => final'.n = final.n ∧ filled.n ≤ final.n ∧
        (q ≠ [] → filled.n < final.n) ∧ buffer.n + final.n ≤ buffer.cap ∧
        ∃ acc', final'.out = .ok acc' ∧ Tracks kIsLittleEndian kind start own (buffer.n + final.n)
          (buffer, ⟨held, final.out⟩) (acc', ledger))
      (fun _ => False)
      ((RapidProto.plainFrom (fun memory index raw =>
          buffer.store kIsLittleEndian kind (buffer.n + index) (kind.ofVarint raw) memory)
        span filled q).mapError PackedFail.failure)
      ((RapidProto.plainFrom (Growable.putVarint kind buffer.n) span filled' q).mapError
        PackedFail.failure) := by
  induction turns generalizing filled filled' acc q with
  | zero =>
      obtain rfl : q = [] := List.length_eq_zero_iff.mp (by omega)
      exact Outcome.refines_ok ⟨same, le_rfl, fun more => absurd rfl more, by omega, acc, out, tracks⟩
  | succ turns ih =>
      by_cases empty : q = []
      · subst empty
        exact Outcome.refines_ok
          ⟨same, le_rfl, fun more => absurd rfl more, by omega, acc, out, tracks⟩
      have nonempty : 0 < q.length := List.length_pos_of_ne_nil empty
      have packable : isPackableWire kind.wire = true := by rw [isVarint]; rfl
      cases read : varint q with
      | error error =>
          rw [plainFrom_fail nonempty read, plainFrom_fail nonempty read]
          exact .inl rfl
      | ok got =>
          have shorter := (varint_takes read).length_lt
          have inside : buffer.n + filled.n < buffer.cap := by omega
          have width := @Leaf.width_convert kind packable (.varint got.1) isVarint.symm
          have inside' : buffer.n + filled'.n < acc.cap := by
            have capacity : acc.cap = buffer.cap := tracks.cap
            omega
          rw [plainFrom_put read, plainFrom_put read]
          have stored := tracks.store inside width
          have next := @ih (acc.write (buffer.n + filled.n) (.scalar (kind.ofVarint got.1))) got.2
            (filled.put (fun memory index raw =>
              buffer.store kIsLittleEndian kind (buffer.n + index) (kind.ofVarint raw) memory) got.1)
            (filled'.put (Growable.putVarint kind buffer.n) got.1) (by omega)
            (by rw [Fill.put, Fill.put, same])
            (by rw [Fill.put, Growable.putVarint, out, Outcome.ok_bind,
              Growable.store_of_lt inside', same])
            stored (by simp only [Fill.put]; omega)
          apply next.mono
          rintro final final' ⟨counts, more, -, fits, reached⟩
          simp only [Fill.put] at more
          exact ⟨counts, by omega, fun _ => by omega, fits, reached⟩

/-- Giving back the unused tail and resetting the capacity. -/
theorem Tracks.trim (tracks : Tracks kIsLittleEndian kind start own known (buffer, heap) (acc, ledger))
    (filled : buffer.cap ≠ 0 → 0 < buffer.n) :
    Tracks kIsLittleEndian kind start own known
      ({ buffer with cap := buffer.n },
        ⟨heap.ledger.giveBack buffer.base (buffer.cap * kind.size) (buffer.n * kind.size),
          heap.memory⟩)
      ({ acc with cap := acc.n },
        ledger.giveBack acc.base (acc.cap * kind.size) (acc.n * kind.size)) := by
  obtain rfl : ledger = heap.ledger := tracks.ledger
  have same : acc.base = buffer.base ∧ acc.n = buffer.n ∧ acc.cap = buffer.cap :=
    ⟨tracks.base, tracks.n, tracks.cap⟩
  have room := tracks.room
  simp only at room
  rw [same.1, same.2.1, same.2.2]
  by_cases unset : buffer.cap = 0
  · have null : buffer.base = 0 := tracks.unset unset
    obtain empty : buffer.n = 0 := by omega
    rw [null, Ledger.giveBack_null]
    exact
      { spares := by simpa [null] using tracks.spares
        room := le_rfl
        unset := fun _ => rfl
        block := fun array => absurd empty array
        ledger := rfl
        base := rfl
        n := rfl
        cap := rfl
        content := fun index below => by
          have kept := tracks.content index below
          simpa only [load, null] using kept }
  · have positive := kind.size_pos
    have remains : 0 < buffer.n * kind.size := Nat.mul_pos (filled unset) positive
    have fewer := Nat.mul_le_mul_right kind.size room
    have block := tracks.block unset
    have valid := tracks.spares.valid
    exact
      { spares := tracks.spares.trans (Heap.spares_giveBack valid block remains fewer)
        room := le_rfl
        unset := fun empty => absurd (filled unset) (by simp only at empty; omega)
        block := fun _ => block.giveBack_self valid (by simp only; omega) fewer
        ledger := rfl
        base := rfl
        n := rfl
        cap := rfl
        content := tracks.content }

/-- A packed varint run. -/
theorem Tracks.fillVarints (fresh : heap.ledger.arena.Fresh newChars)
    (tracks : Tracks kIsLittleEndian kind start own buffer.n (buffer, heap) (acc, ledger))
    (isVarint : kind.wire = .varint) (filled : buffer.cap ≠ 0 → 0 < buffer.n) (run : List Byte) :
    Outcome.Refines
      (fun here there => Tracks kIsLittleEndian kind start own here.1.n here there ∧
        (here.1.cap ≠ 0 → 0 < here.1.n))
      (fun _ => False) (buffer.fillVarints newChars kIsLittleEndian kind run heap)
      (@Growable.fillVarints (ledgerAllocator newChars) kind acc run ledger) := by
  have kernel : ∀ (σ : Type) (put : σ → Nat → BitVec 64 → σ) (out : σ),
      (if kPackedKernelMinSpan ≤ run.length then decodePackedVarints put run.length run out
        else decodePackedVarintsSmall put run out) =
        RapidProto.plainFrom put run.length ⟨0, out⟩ run := by
    intro σ put out
    split
    · exact decodePackedVarints_eq_plainFrom run out
    · rfl
  rw [Buffer.fillVarints, Growable.fillVarints]
  refine (tracks.reserve fresh run.length).bind ?_
  rintro ⟨buffer', heap'⟩ ⟨acc', ledger'⟩ ⟨moved, count, room, unmoved⟩
  simp only at count room unmoved
  have count' : acc'.n = buffer'.n := moved.n
  simp only [kernel, count']
  rw [← count] at moved room
  have sunk := @Tracks.plainFrom _ _ start own buffer' acc' ledger' heap'.ledger run.length
    run.length run ⟨0, heap'.memory⟩ ⟨0, .ok acc'⟩ isVarint le_rfl rfl rfl moved room
  have reported := @Outcome.Refines.mapError _ _ _ _ _ _ (fun _ => False) _ _ sunk
    (fun failure => DecodeError.wire failure.within) fun _ => id
  rw [Outcome.mapError_mapError, Outcome.mapError_mapError] at reported
  apply reported.bind
  rintro final final' ⟨counts, -, more, fits, acc'', out, stored⟩
  have count'' : acc''.n = buffer'.n := stored.n
  have counted := @Tracks.count _ _ _ _ _ _ _ _ _ stored (buffer'.n + final.n) fits
  have nonempty : buffer'.cap ≠ 0 → 0 < buffer'.n + final.n := by
    intro some
    by_cases empty : run = []
    · subst empty
      obtain ⟨rfl, -⟩ := Prod.mk.inj (unmoved rfl)
      have before := filled some
      omega
    · have grew := more empty
      simp only at grew
      omega
  simp only [out, counts, Outcome.ok_bind, count'']
  exact Outcome.refines_ok ⟨counted.trim nonempty, Nat.pos_of_ne_zero⟩

/-- A run of whole elements, copied as it is. -/
theorem Tracks.storeAll {held : Ledger} {memory : Memory Byte} (isFixed : kind.IsFixed) {count : Nat}
    {run : List Byte} (whole : run.length = count * kind.size)
    (tracks : Tracks true kind start own known (buffer, ⟨held, memory⟩) (acc, ledger))
    (room : known + count ≤ buffer.cap) :
    ∃ acc', (Growable.storeAll known (Growable.imageOf kind count run) acc :
        Outcome DecodeError Growable) = .ok acc' ∧
      Tracks true kind start own (known + count)
        (buffer, ⟨held, memory.write (buffer.base + known * kind.size) run⟩) (acc', ledger) := by
  induction count generalizing run memory acc known with
  | zero =>
      obtain rfl : run = [] := List.length_eq_zero_iff.mp (by simpa using whole)
      refine ⟨acc, rfl, ?_⟩
      have same : memory.write (buffer.base + known * kind.size) [] = memory := by
        funext place
        by_cases before : place < buffer.base + known * kind.size
        · exact Memory.write_before [] before
        · exact Memory.write_behind (by simpa using before)
      rwa [same]
  | succ count ih =>
      rw [Nat.succ_mul] at whole
      rcases isFixed.payload_cases run.length run with ⟨short, -⟩ | ⟨enough, value, got⟩
      · omega
      have packable : isPackableWire kind.wire = true := by
        rcases isFixed with wire | wire <;> rw [wire] <;> rfl
      have image : Growable.imageOf kind (count + 1) run =
          kind.convert value :: Growable.imageOf kind count (run.drop kind.size) := by
        rw [Growable.imageOf, got]
      have inside : known < buffer.cap := by omega
      have inside' : known < acc.cap := by
        have capacity : acc.cap = buffer.cap := tracks.cap
        omega
      have stored := tracks.store inside (Leaf.width_convert packable (payload_wire got))
      have rest : (run.drop kind.size).length = count * kind.size := by
        rw [List.length_drop]
        omega
      obtain ⟨acc', ran, reached⟩ := ih rest stored (by omega)
      refine ⟨acc', ?_, ?_⟩
      · rw [image, Growable.storeAll, Growable.store_of_lt inside', Outcome.ok_bind, ran]
      · have front : (run.take kind.size).length = kind.size := List.length_take_of_le enough
        have rows : buffer.base + known * kind.size + (run.take kind.size).length =
            buffer.base + (known + 1) * kind.size := by
          rw [front, Nat.succ_mul, Nat.add_assoc]
        have joined := Memory.write_append memory (buffer.base + known * kind.size)
          (run.take kind.size) (run.drop kind.size)
        rw [List.take_append_drop, rows] at joined
        rw [joined, show known + (count + 1) = known + 1 + count by omega]
        rw [Buffer.store, isFixed.image got] at reached
        exact reached

theorem fixedTurn_consuming (kIsLittleEndian : Bool) (kind : Leaf) (span : Nat) :
    Consuming (fixedTurn kIsLittleEndian kind span) := by
  intro state p state' p' taken
  rw [fixedTurn] at taken
  split at taken
  · obtain ⟨pair, read, taken⟩ := Outcome.bind_eq_ok.mp taken
    rw [readValue_eq] at read
    cases got : payload span ⟨1, kind.wire⟩ p with
    | error failure => rw [got] at read; cases read
    | ok found => rw [got] at read; cases read; cases taken; exact payload_length_lt got
  · cases taken

/-- The element-wise fixed-width loop. -/
theorem Tracks.runLoop {held : Ledger} {memory : Memory Byte} (isFixed : kind.IsFixed)
    {span turns : Nat} {p : Cursor} (enough : p.length ≤ turns)
    (tracks : Tracks kIsLittleEndian kind start own buffer.n (buffer, ⟨held, memory⟩) (acc, ledger))
    (room : buffer.n + p.length / kind.size ≤ buffer.cap) :
    Outcome.Refines
      (fun here there => Tracks kIsLittleEndian kind start own here.1.n (here.1, ⟨held, here.2⟩)
        (there, ledger) ∧ here.1.cap = buffer.cap ∧ buffer.n + p.length / kind.size = here.1.n)
      (fun _ => False)
      (RapidProto.runLoop (fixedTurn kIsLittleEndian kind span) (buffer, memory) p)
      (RapidProto.runLoop (Growable.fixedTurn kind span) acc p) := by
  induction turns generalizing buffer memory acc p with
  | zero =>
      obtain rfl : p = [] := List.length_eq_zero_iff.mp (by omega)
      rw [runLoop_eq (fixedTurn_consuming _ kind span),
        runLoop_eq (Growable.fixedTurn_consuming kind span)]
      exact Outcome.refines_ok ⟨tracks, rfl, by simp⟩
  | succ turns ih =>
      rw [runLoop_eq (fixedTurn_consuming _ kind span),
        runLoop_eq (Growable.fixedTurn_consuming kind span), fixedTurn, Growable.fixedTurn]
      by_cases empty : p = []
      · subst empty
        exact Outcome.refines_ok ⟨tracks, rfl, by simp⟩
      have nonempty : 0 < p.length := List.length_pos_of_ne_nil empty
      rw [if_pos nonempty, if_pos nonempty, readValue_eq]
      rcases isFixed.payload_cases span p with ⟨-, failure, failed⟩ | ⟨whole, value, got⟩
      · rw [failed]
        exact .inl rfl
      · have positive := isFixed.size_pos
        rw [Nat.div_eq_sub_div positive whole] at room ⊢
        have drop : (p.drop kind.size).length = p.length - kind.size := List.length_drop
        have next := fun buffer acc memory => @ih buffer acc memory (p.drop kind.size)
        simp only [drop] at next
        generalize (p.length - kind.size) / kind.size = later at room next ⊢
        have packable : isPackableWire kind.wire = true := by
          rcases isFixed with wire | wire <;> rw [wire] <;> rfl
        have counts : acc.n = buffer.n ∧ acc.cap = buffer.cap := ⟨tracks.n, tracks.cap⟩
        have width := Leaf.width_convert packable (payload_wire got)
        have inside : buffer.n < buffer.cap := by omega
        have stored := (tracks.store inside width).count (Nat.succ_le_of_lt inside)
        rw [got]
        simp only [Outcome.ofExcept_ok, Outcome.mapError_ok, Outcome.ok_bind, counts.1]
        rw [Growable.store_of_lt (by omega), Outcome.ok_bind]
        simp only [Growable.write_n, counts.1]
        refine (next _ _ _ (by omega) stored (by simp only; omega)).mono ?_
        rintro here there ⟨reached, capacity, count⟩
        simp only at count
        exact ⟨reached, capacity, by omega⟩

/-- A packed fixed-width run. -/
theorem Tracks.fillFixed (fresh : heap.ledger.arena.Fresh newChars)
    (tracks : Tracks kIsLittleEndian kind start own buffer.n (buffer, heap) (acc, ledger))
    (isFixed : kind.IsFixed) (filled : buffer.cap ≠ 0 → 0 < buffer.n) (run : List Byte) :
    Outcome.Refines
      (fun here there => Tracks kIsLittleEndian kind start own here.1.n here there.1 ∧
        (here.1.cap ≠ 0 → 0 < here.1.n))
      (fun _ => False) (buffer.fillFixed newChars kIsLittleEndian kind run heap)
      (@Growable.fillFixed (ledgerAllocator newChars) kIsLittleEndian kind acc run ledger) := by
  rw [Buffer.fillFixed, Growable.fillFixed]
  refine (tracks.reserve fresh (run.length / kind.size)).bind ?_
  rintro ⟨buffer', heap'⟩ ⟨acc', ledger'⟩ ⟨moved, count, room, unmoved⟩
  simp only at count room unmoved
  have count' : acc'.n = buffer'.n := moved.n
  rw [← count] at moved room
  have nonempty : buffer'.cap ≠ 0 → 0 < buffer'.n + run.length / kind.size := by
    intro array
    by_cases few : run.length / kind.size = 0
    · obtain ⟨rfl, -⟩ := Prod.mk.inj (unmoved few)
      exact Nat.lt_of_lt_of_le (filled array) (Nat.le_add_right _ _)
    · exact Nat.lt_of_lt_of_le (Nat.pos_of_ne_zero few) (Nat.le_add_left _ _)
  simp only [count']
  by_cases whole : kIsLittleEndian = true ∧ run.length % kind.size = 0
  · rw [if_pos whole, if_pos whole]
    obtain ⟨rfl, multiple⟩ := whole
    have exact' : run.length = run.length / kind.size * kind.size := by
      have division := Nat.div_add_mod run.length kind.size
      rw [multiple, Nat.mul_comm] at division
      exact division.symm
    obtain ⟨acc'', ran, reached⟩ := moved.storeAll isFixed exact' room
    have count'' : acc''.n = buffer'.n := reached.n
    rw [ran, Outcome.ok_bind]
    simp only [count'']
    exact Outcome.refines_ok ⟨reached.count room, nonempty⟩
  · rw [if_neg whole, if_neg whole]
    refine (moved.runLoop isFixed le_rfl room).bind ?_
    rintro ⟨buffer'', memory⟩ acc'' ⟨reached, capacity, counted⟩
    simp only at capacity counted
    refine Outcome.refines_ok ⟨reached, ?_⟩
    simp only [capacity, ← counted]
    exact nonempty

end Tracking
/-! ## Between occurrences -/

/-- What holds of an accumulator between the occurrences of its field. -/
structure Settled (kind : Leaf) (buffer : Buffer) (ledger : Ledger) : Prop where
  /-- The count is within the capacity. -/
  room : buffer.n ≤ buffer.cap
  /-- Without an array the pointer is null. -/
  unset : buffer.cap = 0 → buffer.base = 0
  /-- An array is not empty. -/
  filled : buffer.cap ≠ 0 → 0 < buffer.n
  /-- The array's block. -/
  block : buffer.cap ≠ 0 → ledger.HandedOut buffer.base (buffer.cap * kind.size)

theorem settled_empty (kind : Leaf) (ledger : Ledger) : Settled kind {} ledger :=
  ⟨le_rfl, fun _ => rfl, fun array => absurd rfl array, fun array => absurd rfl array⟩

section Occurrences

variable {newChars : Nat → Option Nat} {kIsLittleEndian : Bool} {kind : Leaf} {heap : Heap Byte}
  {buffer : Buffer}

/-- An occurrence was absorbed: its values are stored behind the others, and the blocks of others
are spared. -/
structure Absorbs (kIsLittleEndian : Bool) (kind : Leaf) (buffer : Buffer) (heap : Heap Byte)
    (values : List Value) (result : Buffer × Heap Byte) : Prop where
  settled : result.1.Settled kind result.2.ledger
  spares : heap.Spares result.2 buffer.base result.1.base
  stored : result.1.stored kIsLittleEndian kind result.2.memory =
    buffer.stored kIsLittleEndian kind heap.memory ++ values

/-- The growable array with the elements in memory. -/
def mirror (kIsLittleEndian : Bool) (kind : Leaf) (buffer : Buffer) (memory : Memory Byte) :
    Growable where
  base := buffer.base
  content index := .scalar (buffer.load kIsLittleEndian kind memory index)
  n := buffer.n
  cap := buffer.cap

theorem Settled.tracks (settled : buffer.Settled kind heap.ledger) (valid : heap.ledger.Valid) :
    Tracks kIsLittleEndian kind heap buffer.base buffer.n (buffer, heap)
      (buffer.mirror kIsLittleEndian kind heap.memory, heap.ledger) where
  spares := .refl valid _
  room := settled.room
  unset := settled.unset
  block := settled.block
  ledger := rfl
  base := rfl
  n := rfl
  cap := rfl
  content _ _ := rfl

theorem Settled.mirror_holds (settled : buffer.Settled kind heap.ledger) :
    (buffer.mirror kIsLittleEndian kind heap.memory).Holds
      ((buffer.stored kIsLittleEndian kind heap.memory).map Cell.scalar) :=
  ⟨settled.room, by simp [Growable.elements, mirror, stored]⟩

/-- The array in memory has the elements of the growable array. -/
theorem Tracks.stored {start : Heap Byte} {own : Nat} {values : List Value}
    {result : Buffer × Heap Byte} {there : Growable × Ledger}
    (tracks : Tracks kIsLittleEndian kind start own result.1.n result there)
    (holds : there.1.Holds (values.map Cell.scalar)) :
    result.1.stored kIsLittleEndian kind result.2.memory = values := by
  have elements := holds.elements
  rw [Growable.elements, tracks.n] at elements
  have same : (List.range result.1.n).map there.1.content =
      (result.1.stored kIsLittleEndian kind result.2.memory).map Cell.scalar := by
    rw [Buffer.stored, List.map_map]
    exact List.map_congr_left fun index inside => tracks.content index (List.mem_range.mp inside)
  rw [same] at elements
  exact List.map_injective_iff.mpr (fun _ _ => Cell.scalar.inj) elements

theorem Tracks.absorbs {values : List Value} {result : Buffer × Heap Byte}
    {there : Growable × Ledger}
    (tracks : Tracks kIsLittleEndian kind heap buffer.base result.1.n result there)
    (filled : result.1.cap ≠ 0 → 0 < result.1.n)
    (holds : there.1.Holds ((buffer.stored kIsLittleEndian kind heap.memory).map Cell.scalar ++
      values.map Cell.scalar)) :
    Absorbs kIsLittleEndian kind buffer heap values result where
  settled := ⟨tracks.room, tracks.unset, filled, tracks.block⟩
  spares := tracks.spares
  stored := tracks.stored (by rwa [List.map_append])

section Absorb

variable (settled : buffer.Settled kind heap.ledger) (valid : heap.ledger.Valid)
  (fresh : heap.ledger.arena.Fresh newChars)
include settled valid fresh

/-- A single element is absorbed, unless memory runs out. -/
theorem append_ends (packable : isPackableWire kind.wire = true) {value : Payload}
    (wire : value.wire = kind.wire) :
    (buffer.append newChars kIsLittleEndian kind value heap).Ends
      (Absorbs kIsLittleEndian kind buffer heap [kind.convert value]) (· = .outOfMemory) := by
  have tracks := @Settled.tracks kIsLittleEndian _ _ _ settled valid
  have holds := @Settled.mirror_holds kIsLittleEndian _ _ _ settled
  have first := tracks.append fresh packable wire
  rw [storeLeaf_packable packable wire] at first
  have ends := @Growable.append_ends (ledgerAllocator newChars) kind.size kind.align _ _
    heap.ledger holds (.scalar (kind.convert value))
  have appended := @Outcome.Ends.refines _ _ _ (fun there cells => there.1.Holds cells) _ _ _ ends _
    fun _ held => held
  refine (first.ends_through appended).mono ?_ fun _ exhausted => exhausted.1
  rintro result ⟨there, ⟨tracked, count⟩, held⟩
  exact tracked.absorbs (fun _ => by omega) held

/-- A packed run is absorbed, unless memory runs out. -/
theorem fill_ends (packable : isPackableWire kind.wire = true) {run : List Byte}
    {values : List Value} (read : packedValues kind run = .ok values) :
    (buffer.fill newChars kIsLittleEndian kind run heap).Ends
      (Absorbs kIsLittleEndian kind buffer heap values) (· = .outOfMemory) := by
  have tracks := @Settled.tracks kIsLittleEndian _ _ _ settled valid
  have holds := @Settled.mirror_holds kIsLittleEndian _ _ _ settled
  rw [fill]
  split
  · rename_i isVarint
    have appended := @Growable.fillVarints_refines (ledgerAllocator newChars) heap.ledger _ _ kind
      isVarint holds run
    rw [read] at appended
    refine ((tracks.fillVarints fresh isVarint settled.filled run).ends_through appended).mono ?_
      fun _ exhausted => exhausted.1
    rintro result ⟨there, ⟨tracked, filled⟩, held⟩
    exact tracked.absorbs filled held
  · rename_i notVarint
    have isFixed := (Leaf.packable_wire packable).resolve_left notVarint
    have appended := @Growable.fillFixed_refines (ledgerAllocator newChars) heap.ledger _ _ kind
      isFixed kIsLittleEndian holds run
    rw [read] at appended
    refine ((tracks.fillFixed fresh isFixed settled.filled run).ends_through appended).mono ?_
      fun _ exhausted => exhausted.1
    rintro result ⟨there, ⟨tracked, filled⟩, held⟩
    exact tracked.absorbs filled held

/-- Growing keeps the elements, unless memory runs out. -/
theorem reallocate_ends {cap : Nat} (positive : 0 < cap) (enough : buffer.n ≤ cap) :
    (buffer.reallocate newChars kind cap heap).Ends
      (fun result => result.1.n = buffer.n ∧ result.1.cap = cap ∧
        heap.Spares result.2 buffer.base result.1.base ∧
        result.1.stored kIsLittleEndian kind result.2.memory =
          buffer.stored kIsLittleEndian kind heap.memory) (· = .outOfMemory) := by
  have tracks := @Settled.tracks kIsLittleEndian _ _ _ settled valid
  have holds := @Settled.mirror_holds kIsLittleEndian _ _ _ settled
  have ends := @Growable.reallocate_ends (ledgerAllocator newChars) heap.ledger _ _ kind.size
    kind.align holds _ positive enough
  have moved := @Outcome.Ends.refines _ _ _ (fun there cells => there.1.Holds cells) _ _ _ ends _
    fun _ held => held.1
  refine ((tracks.reallocate fresh positive enough).ends_through moved).mono ?_
    fun _ exhausted => exhausted.1
  rintro result ⟨there, ⟨tracked, count, room⟩, held⟩
  rw [← count] at tracked
  exact ⟨count, room, tracked.spares, tracked.stored held⟩

end Absorb
end Occurrences
end Buffer

end RapidProto
