import RapidProto.Arena.Bump

/-!
# Blocks handed out by an arena

A ledger is an arena together with the blocks it has handed out since the last reset, the most
recent one first, each at the size it was shrunk to.  The runs of a ledger are all sequences of
arena operations, with a host that answers every `new char[n]` with null or with fresh bytes.
-/

namespace RapidProto

/-- A block handed out. -/
structure Block where
  /-- Its address. -/
  ptr : Nat
  /-- Its size, after shrinking. -/
  size : Nat
  /-- The alignment asked for. -/
  align : Nat
  deriving DecidableEq, Repr

/-- The bytes of a block. -/
def Block.region (block : Block) : Region := ⟨block.ptr, block.ptr + block.size⟩

/-- An arena and its blocks. -/
structure Ledger where
  /-- The arena. -/
  arena : Arena
  /-- Blocks since the last reset, the most recent one first. -/
  blocks : List Block := []

namespace Ledger

/-- Enter the result of an allocation; a null result is no block. -/
def receive (ledger : Ledger) (result : Nat × Arena) (size align : Nat) : Ledger where
  arena := result.2
  blocks := if result.1 = 0 then ledger.blocks else ⟨result.1, size, align⟩ :: ledger.blocks

end Ledger

/-- The host answers with null or with fresh bytes of the lower half of the address space, apart
from the chunks the arena holds.  That half is where 64-bit hosts keep the memory of a program, and
what keeps `align_up` from wrapping at every alignment. -/
def Arena.Fresh (arena : Arena) (newChars : Nat → Option Nat) : Prop :=
  ∀ raw base, newChars raw = some base → 0 < base ∧ base + raw ≤ 2 ^ 63 ∧
    ∀ chunk ∈ arena.chunks, Region.Apart ⟨base, base + raw⟩ chunk.region

/-- One operation on the arena. -/
inductive Ledger.Step : Ledger → Ledger → Prop
  | setCapacityLimit (ledger : Ledger) (maxReservedBytes : Nat) :
      Step ledger { ledger with arena := ledger.arena.setCapacityLimit maxReservedBytes }
  | allocate (ledger : Ledger) {newChars : Nat → Option Nat} (fresh : ledger.arena.Fresh newChars)
      (bytes exponent : Nat) (fits : bytes ≤ kSizeMax) (small : exponent < 64) :
      Step ledger (ledger.receive (ledger.arena.allocate newChars bytes (2 ^ exponent)) bytes
        (2 ^ exponent))
  | allocateArray (ledger : Ledger) {newChars : Nat → Option Nat}
      (fresh : ledger.arena.Fresh newChars) (size count exponent : Nat) (sized : 0 < size)
      (small : exponent < 64) :
      Step ledger (ledger.receive (ledger.arena.allocateArray newChars size (2 ^ exponent) count)
        (count * size) (2 ^ exponent))
  | create (ledger : Ledger) {newChars : Nat → Option Nat} (fresh : ledger.arena.Fresh newChars)
      (size exponent : Nat) (fits : size ≤ kSizeMax) (small : exponent < 64) :
      Step ledger (ledger.receive (ledger.arena.create newChars size (2 ^ exponent)) size
        (2 ^ exponent))
  /-- The most recent block, with its true size. -/
  | shrinkLast (ledger : Ledger) {block : Block} {earlier : List Block}
      (recent : ledger.blocks = block :: earlier) (newBytes : Nat) :
      Step ledger
        { arena := ledger.arena.shrinkLast block.ptr block.size newBytes
          blocks := { block with size := min newBytes block.size } :: earlier }
  | reset (ledger : Ledger) : Step ledger { arena := ledger.arena.reset }

/-- A constructed arena, with or without a seed buffer of the given size, which is in the lower half
of the address space like all memory. -/
inductive Arena.Constructed : (seed : Nat) → Arena → Prop
  | unseeded : Constructed 0 {}
  | seeded (buffer size : Nat) (low : buffer + size ≤ 2 ^ 63) :
      Constructed size (Arena.seeded buffer size)

/-- The states of the runs of an arena. -/
inductive Ledger.Reachable : Ledger → Prop
  | start {seed : Nat} {arena : Arena} (constructed : arena.Constructed seed) : Reachable { arena }
  | next {ledger ledger' : Ledger} (reached : Reachable ledger) (step : Step ledger ledger') :
      Reachable ledger'

/-- What an arena promises about its blocks. -/
structure Ledger.Sound (ledger : Ledger) : Prop where
  /-- Every block is aligned as requested. -/
  aligned : ∀ block ∈ ledger.blocks, block.align ∣ block.ptr
  /-- Every block lies inside one chunk. -/
  inside : ∀ block ∈ ledger.blocks, ∃ chunk ∈ ledger.arena.chunks,
    block.region.Inside chunk.region
  /-- Blocks do not overlap. -/
  apart : (ledger.blocks.map Block.region).Pairwise Region.Apart
  /-- The bump pointer and the limit lie in the chunk selected by the cursor. -/
  selected : ledger.arena.live = true →
    ∃ chunk, ledger.arena.chunks[ledger.arena.cursor]? = some chunk ∧
      chunk.data ≤ ledger.arena.cur ∧ ledger.arena.cur ≤ ledger.arena.limit ∧
      ledger.arena.limit = chunk.limit
  /-- Without a chunk both are null. -/
  unset : ledger.arena.live = false → ledger.arena.cur = 0 ∧ ledger.arena.limit = 0
  /-- The counter is the sum of the sizes. -/
  used : ledger.arena.used = (ledger.blocks.map Block.size).sum

/-! ## The invariant -/

/-- The block lies in a chunk up to the cursor, and below `top` if that is the current one. -/
def Arena.Placed (arena : Arena) (top : Nat) (block : Block) : Prop :=
  ∃ index chunk, index ≤ arena.cursor ∧ arena.chunks[index]? = some chunk ∧
    block.region.Inside chunk.region ∧ (index = arena.cursor → block.ptr + block.size ≤ top)

/-- The chunks of an arena are apart and in the lower half of the address space. -/
structure Arena.Chunked (arena : Arena) : Prop where
  /-- Chunks are addressable. -/
  low : ∀ chunk ∈ arena.chunks, 0 < chunk.data ∧ chunk.data ≤ chunk.limit ∧ chunk.limit ≤ 2 ^ 63
  /-- Chunks do not overlap. -/
  apart : (arena.chunks.map Chunk.region).Pairwise Region.Apart
  /-- Further chunks come behind the first. -/
  first : arena.live = false → arena.more = []

/-- The invariant between operations, but for the position of the most recent block. -/
structure Ledger.Settled (ledger : Ledger) : Prop extends Sound ledger where
  /-- The chunks. -/
  chunked : ledger.arena.Chunked
  /-- The blocks lie below the bump pointer. -/
  placed : ∀ block ∈ ledger.blocks, ledger.arena.Placed ledger.arena.cur block

/-- The invariant between operations. -/
structure Ledger.Valid (ledger : Ledger) : Prop extends Settled ledger where
  /-- The most recent block lies in the current chunk and ends at the bump pointer; the others in
  that chunk lie before it. -/
  recent : ∀ block earlier, ledger.blocks = block :: earlier →
    block.ptr + block.size = ledger.arena.cur ∧
      (∃ chunk, ledger.arena.chunks[ledger.arena.cursor]? = some chunk ∧ chunk.data ≤ block.ptr) ∧
      ∀ other ∈ earlier, ledger.arena.Placed block.ptr other

namespace Arena

variable {arena : Arena}

/-- A host without memory. -/
theorem fresh_none (arena : Arena) : arena.Fresh fun _ => none :=
  fun _ _ answered => nomatch answered

/-- A host that has one block of 4112 bytes, which is above the only chunk held. -/
theorem fresh_oneChunk (held : arena.chunks = [⟨0x1000, 0x1100⟩]) :
    arena.Fresh fun raw => if raw = 4112 then some 0x10000 else none := by
  intro raw base answered
  obtain ⟨rfl, rfl⟩ : raw = 4112 ∧ 0x10000 = base := by simpa using answered
  refine ⟨by decide, by decide, fun chunk listed => .inr ?_⟩
  rw [held, List.mem_singleton] at listed
  rw [listed]
  decide

theorem chunk_of_getElem? {index : Nat} {chunk : Chunk} (found : arena.chunks[index]? = some chunk) :
    arena.chunk index = chunk := by
  rw [chunks] at found
  split at found
  · cases index with
    | zero => simpa [Arena.chunk] using found
    | succ index =>
        rw [List.getElem?_cons_succ] at found
        simp [Arena.chunk, List.getD_eq_getElem?_getD, found]
  · cases found

theorem length_chunks : arena.chunks.length = arena.chunkCount := by
  rw [chunks, chunkCount]
  split <;> simp [Nat.add_comm]

/-- What growing does: a chunk with the requested room is taken in. -/
theorem grow_cases {newChars : Nat → Option Nat} {minUsable : Nat} {arena' : Arena}
    (grown : arena.grow newChars minUsable = some arena') :
    ∃ raw base, newChars raw = some base ∧ minUsable + kMaxAlign ≤ raw ∧
      arena.reserved + raw ≤ arena.cap ∧
      arena' = arena.install ⟨alignUp base kMaxAlign, base + raw⟩ := by
  rw [grow] at grown
  generalize room : (if arena.nextChunk < minUsable then minUsable else arena.nextChunk) = cap
    at grown
  have enough : minUsable ≤ cap := by
    rw [← room]
    split <;> omega
  simp only [] at grown
  split at grown
  · cases grown
  split at grown
  · cases grown
  split at grown
  · cases grown
  rename_i base answered
  have exact' : (cap + kMaxAlign) % 2 ^ 64 = cap + kMaxAlign := by
    simp only [kPtrdiffMax, kMaxAlign] at *
    omega
  exact ⟨_, base, answered, by omega, by omega, (Option.some.inj grown).symm⟩

@[simp] theorem install_used (chunk : Chunk) : (arena.install chunk).used = arena.used := by
  simp only [install, advanceTo]
  split <;> split <;> rfl

theorem install_reserved (chunk : Chunk) :
    (arena.install chunk).reserved =
      (arena.reserved + (chunk.limit - chunk.data)) % 2 ^ 64 := by
  simp only [install, advanceTo]
  split <;> split <;> rfl

@[simp] theorem install_live (chunk : Chunk) : (arena.install chunk).live = true := by
  simp only [install, advanceTo]
  split <;> split <;> simp_all

theorem install_cursor (chunk : Chunk) :
    (arena.install chunk).cursor = if arena.live then arena.cursor + 1 else 0 := by
  simp only [install, advanceTo]
  split <;> split <;> rfl

theorem install_chunks (chunk : Chunk) :
    (arena.install chunk).chunks =
      if arena.live then arena.head :: arena.more.insertIdx arena.cursor chunk
      else chunk :: arena.more := by
  rw [chunks, install_live, if_pos rfl]
  simp only [install, advanceTo]
  split <;> split <;> rfl

/-- The chunk that was taken in is the current one. -/
theorem install_selected (chunk : Chunk)
    (inside : arena.live = true → arena.cursor ≤ arena.more.length) :
    (arena.install chunk).chunks[(arena.install chunk).cursor]? = some chunk := by
  rw [install_chunks, install_cursor]
  split
  · rename_i live
    rw [List.getElem?_cons_succ, List.getElem?_insertIdx_self, if_pos (inside live)]
  · rfl

theorem install_perm (chunk : Chunk)
    (inside : arena.live = true → arena.cursor ≤ arena.more.length)
    (first : arena.live = false → arena.more = []) :
    (arena.install chunk).chunks.Perm (chunk :: arena.chunks) := by
  rw [install_chunks, chunks]
  split
  · rename_i live
    exact ((List.perm_insertIdx chunk arena.more (inside live)).cons _).trans (.swap _ _ _)
  · rename_i dead
    rw [first (by simpa using dead)]

/-- The chunks up to the current one stay where they are. -/
theorem install_kept (chunk : Chunk) (live : arena.live = true) {index : Nat}
    (order : index ≤ arena.cursor) :
    (arena.install chunk).chunks[index]? = arena.chunks[index]? := by
  rw [install_chunks, chunks, if_pos live, if_pos live]
  cases index with
  | zero => rfl
  | succ index =>
      rw [List.getElem?_cons_succ, List.getElem?_cons_succ,
        List.getElem?_insertIdx_of_lt (by omega)]

theorem install_cur (chunk : Chunk) :
    (arena.install chunk).cur =
      ((arena.install chunk).chunk (arena.install chunk).cursor).data ∧
    (arena.install chunk).limit =
      ((arena.install chunk).chunk (arena.install chunk).cursor).limit := by
  simp only [install, advanceTo, Arena.chunk]
  split <;> split <;> exact ⟨rfl, rfl⟩

namespace Chunked

/-- Different chunks are apart. -/
theorem apart_of_ne (chunked : arena.Chunked) {index index' : Nat} {chunk chunk' : Chunk}
    (found : arena.chunks[index]? = some chunk) (found' : arena.chunks[index']? = some chunk')
    (differ : index ≠ index') : chunk.region.Apart chunk'.region := by
  have pairs := List.pairwise_map.mp chunked.apart
  obtain ⟨inside, rfl⟩ := List.getElem?_eq_some_iff.mp found
  obtain ⟨inside', rfl⟩ := List.getElem?_eq_some_iff.mp found'
  rcases Nat.lt_or_gt_of_ne differ with order | order
  · exact List.pairwise_iff_getElem.mp pairs index index' inside inside' order
  · exact (List.pairwise_iff_getElem.mp pairs index' index inside' inside order).symm

theorem congr {arena' : Arena} (chunked : arena.Chunked) (same : arena'.chunks = arena.chunks)
    (first : arena'.live = false → arena'.more = []) : arena'.Chunked :=
  ⟨by rw [same]; exact chunked.low, by rw [same]; exact chunked.apart, first⟩

end Chunked

namespace Placed

theorem congr {arena' : Arena} {block : Block} {top : Nat} (placed : arena.Placed top block)
    (cursor : arena'.cursor = arena.cursor) (same : arena'.chunks = arena.chunks) :
    arena'.Placed top block := by
  rw [Placed, cursor, same]
  exact placed

theorem mono {block : Block} {top top' : Nat} (placed : arena.Placed top block)
    (higher : top ≤ top') : arena.Placed top' block := by
  obtain ⟨index, chunk, order, found, inside, below⟩ := placed
  exact ⟨index, chunk, order, found, inside, fun here => (below here).trans higher⟩

/-- A placed block is apart from everything above `top` in the current chunk. -/
theorem apart {block : Block} {top : Nat} (placed : arena.Placed top block)
    (chunked : arena.Chunked) {chunk : Chunk}
    (found : arena.chunks[arena.cursor]? = some chunk) {region : Region}
    (inside : region.Inside chunk.region) (above : top ≤ region.start) :
    region.Apart block.region := by
  obtain ⟨index, chunk', order, found', inside', below⟩ := placed
  by_cases here : index = arena.cursor
  · exact .inr ((below here).trans above)
  · exact ((chunked.apart_of_ne found' found here).mono inside' inside).symm

/-- Only the chunks up to the cursor matter for what was placed before. -/
theorem advance {arena' : Arena} {block : Block} {top top' : Nat}
    (placed : arena.Placed top block)
    (cursor : arena'.cursor = arena.cursor + 1)
    (kept : ∀ index, index ≤ arena.cursor → arena'.chunks[index]? = arena.chunks[index]?) :
    arena'.Placed top' block := by
  obtain ⟨index, chunk, order, found, inside, -⟩ := placed
  refine ⟨index, chunk, by omega, by rw [kept index order, found], inside, fun here => ?_⟩
  omega

end Placed
end Arena

namespace Ledger

variable {ledger : Ledger}

/-- The sizes of the blocks add up to no more than the address space. -/
theorem Settled.sum_size_le (settled : ledger.Settled) :
    (ledger.blocks.map Block.size).sum ≤ 2 ^ 63 := by
  have bounded := Region.sum_length_le settled.apart (by
    intro region listed
    obtain ⟨block, held, rfl⟩ := List.mem_map.mp listed
    obtain ⟨chunk, chunkHeld, inside⟩ := settled.inside block held
    exact inside.2.trans (settled.chunked.low chunk chunkHeld).2.2)
  have lengths : (ledger.blocks.map Block.region).map Region.length =
      ledger.blocks.map Block.size := by
    rw [List.map_map]
    exact List.map_congr_left fun block _ => Nat.add_sub_cancel_left _ _
  rwa [lengths] at bounded

/-- A bump inside the current chunk hands out a block behind all others. -/
theorem Settled.bump (settled : ledger.Settled) (live : ledger.arena.live = true)
    {bytes exponent : Nat} (small : exponent < 64)
    (room : alignUp ledger.arena.cur (2 ^ exponent) + bytes ≤ ledger.arena.limit) :
    (ledger.receive (ledger.arena.bump bytes (2 ^ exponent)) bytes (2 ^ exponent)).Valid := by
  obtain ⟨chunk, found, low, order, limit⟩ := settled.selected live
  have held : chunk ∈ ledger.arena.chunks := List.mem_of_getElem? found
  obtain ⟨positive, -, high⟩ := settled.chunked.low chunk held
  have aligned := alignUp_dvd (p := ledger.arena.cur) (by omega) small
  have above := le_alignUp (p := ledger.arena.cur) (by omega) small
  have nonnull : alignUp ledger.arena.cur (2 ^ exponent) ≠ 0 := by omega
  have inside : (Block.region ⟨alignUp ledger.arena.cur (2 ^ exponent), bytes,
      2 ^ exponent⟩).Inside chunk.region := by
    constructor <;> simp only [Block.region, Chunk.region] <;> omega
  have apart : ∀ block ∈ ledger.blocks, Region.Apart (Block.region
      ⟨alignUp ledger.arena.cur (2 ^ exponent), bytes, 2 ^ exponent⟩) block.region :=
    fun block listed => (settled.placed block listed).apart settled.chunked found inside above
  have total := settled.sum_size_le
  have here : ledger.arena.Placed (alignUp ledger.arena.cur (2 ^ exponent) + bytes)
      ⟨alignUp ledger.arena.cur (2 ^ exponent), bytes, 2 ^ exponent⟩ :=
    ⟨ledger.arena.cursor, chunk, le_rfl, found, inside, fun _ => le_rfl⟩
  rw [show ledger.receive (ledger.arena.bump bytes (2 ^ exponent)) bytes (2 ^ exponent) =
    { arena := (ledger.arena.bump bytes (2 ^ exponent)).2
      blocks := ⟨alignUp ledger.arena.cur (2 ^ exponent), bytes, 2 ^ exponent⟩ :: ledger.blocks }
    by simp [receive, Arena.bump, nonnull]]
  exact
    { aligned := by
        rw [List.forall_mem_cons]
        exact ⟨aligned, settled.aligned⟩
      inside := List.forall_mem_cons.mpr ⟨⟨chunk, held, inside⟩, settled.inside⟩
      apart := by
        rw [List.map_cons, List.pairwise_cons, List.forall_mem_map]
        exact ⟨apart, settled.apart⟩
      selected := fun _ => ⟨chunk, found, inside.1.trans (Nat.le_add_right _ _), room, limit⟩
      unset := fun dead => nomatch live.symm.trans dead
      used := by
        simp only [Arena.bump, List.map_cons, List.sum_cons, settled.used]
        rw [Nat.mod_eq_of_lt (by omega), Nat.add_comm]
      chunked := settled.chunked.congr rfl settled.chunked.first
      placed := List.forall_mem_cons.mpr ⟨here.congr rfl rfl, fun block listed =>
        ((settled.placed block listed).mono (above.trans (Nat.le_add_right _ _))).congr rfl rfl⟩
      recent := by
        rintro block earlier same
        obtain ⟨rfl, rfl⟩ := List.cons.inj same
        exact ⟨rfl, ⟨chunk, found, inside.1⟩,
          fun other listed => ((settled.placed other listed).mono above).congr rfl rfl⟩ }

/-- The next chunk that is held already holds no block yet. -/
theorem Settled.advance (settled : ledger.Settled)
    (next : ledger.arena.cursor + 1 < ledger.arena.chunkCount) :
    Settled { ledger with arena := ledger.arena.advanceTo (ledger.arena.cursor + 1) } := by
  rw [← Arena.length_chunks] at next
  have found := List.getElem?_eq_getElem next
  have selected := Arena.chunk_of_getElem? found
  obtain ⟨-, order, -⟩ := settled.chunked.low _ (List.mem_of_getElem? found)
  have live : ledger.arena.live = true := by
    by_contra dead
    simp [Arena.chunks, dead] at next
  exact
    { aligned := settled.aligned
      inside := settled.inside
      apart := settled.apart
      selected := fun _ => ⟨_, found, by simpa [Arena.advanceTo, selected] using order⟩
      unset := fun dead => nomatch live.symm.trans dead
      used := settled.used
      chunked := settled.chunked.congr rfl settled.chunked.first
      placed := fun block listed => (settled.placed block listed).advance rfl fun _ _ => rfl }

/-- A grown chunk is fresh, becomes the current one and has the requested room. -/
theorem Settled.grow (settled : ledger.Settled) {newChars : Nat → Option Nat}
    (fresh : ledger.arena.Fresh newChars) {minUsable : Nat} {arena' : Arena}
    (grown : ledger.arena.grow newChars minUsable = some arena') :
    Settled { ledger with arena := arena' } ∧ arena'.live = true ∧
      arena'.cur + minUsable ≤ arena'.limit := by
  obtain ⟨raw, base, answered, room, -, rfl⟩ := Arena.grow_cases grown
  obtain ⟨positive, low, away⟩ := fresh raw base answered
  have rounded : alignUp base kMaxAlign < base + kMaxAlign :=
    @alignUp_lt _ 4 (by omega) (by decide)
  have above : base ≤ alignUp base kMaxAlign := @le_alignUp _ 4 (by omega) (by decide)
  have chunked := settled.chunked
  have inside : ledger.arena.live = true → ledger.arena.cursor ≤ ledger.arena.more.length := by
    intro live
    obtain ⟨chunk, found, -⟩ := settled.selected live
    have bound := (List.getElem?_eq_some_iff.mp found).1
    simp only [Arena.chunks, live, if_true, List.length_cons] at bound
    omega
  have selected := Arena.install_selected ⟨alignUp base kMaxAlign, base + raw⟩ inside
  have perm := Arena.install_perm ⟨alignUp base kMaxAlign, base + raw⟩ inside chunked.first
  have current := @Arena.install_cur ledger.arena ⟨alignUp base kMaxAlign, base + raw⟩
  rw [Arena.chunk_of_getElem? selected] at current
  have usable : (⟨alignUp base kMaxAlign, base + raw⟩ : Chunk).region.Inside
      ⟨base, base + raw⟩ := ⟨above, le_rfl⟩
  have space : alignUp base kMaxAlign + minUsable ≤ base + raw := by omega
  refine ⟨?_, Arena.install_live _, by rw [current.1, current.2]; exact space⟩
  exact
    { aligned := settled.aligned
      inside := fun block listed => by
        obtain ⟨chunk, held, within⟩ := settled.inside block listed
        exact ⟨chunk, perm.mem_iff.mpr (List.mem_cons_of_mem _ held), within⟩
      apart := settled.apart
      selected := fun _ => ⟨_, selected, by
        rw [current.1, current.2]
        exact ⟨le_rfl, (Nat.le_add_right _ _).trans space, rfl⟩⟩
      unset := fun dead => nomatch (Arena.install_live _).symm.trans dead
      used := (Arena.install_used _).trans settled.used
      chunked :=
        { low := fun chunk listed => by
            rcases List.mem_cons.mp (perm.mem_iff.mp listed) with rfl | held
            · exact ⟨positive.trans_le above, (Nat.le_add_right _ _).trans space, low⟩
            · exact chunked.low chunk held
          apart := by
            rw [(perm.map Chunk.region).pairwise_iff fun apart => Region.Apart.symm apart,
              List.map_cons, List.pairwise_cons, List.forall_mem_map]
            exact ⟨fun chunk held => (away chunk held).mono usable ⟨le_rfl, le_rfl⟩,
              chunked.apart⟩
          first := fun dead => nomatch (Arena.install_live _).symm.trans dead }
      placed := fun block listed => by
        have placed := settled.placed block listed
        cases live : ledger.arena.live with
        | true =>
            exact placed.advance (by simp [Arena.install_cursor, live])
              fun index order => Arena.install_kept _ live order
        | false =>
            obtain ⟨index, chunk, -, found, -⟩ := placed
            simp [Arena.chunks, live] at found }

end Ledger

/-- The current chunk has room for an aligned block. -/
def Arena.hasRoom (arena : Arena) (bytes align : Nat) : Prop :=
  arena.cur ≠ 0 ∧ alignUp arena.cur align ≤ arena.limit ∧
    bytes ≤ arena.limit - alignUp arena.cur align

/-- The next chunk is held already and has room for an aligned block. -/
def Arena.canAdvance (arena : Arena) (bytes align : Nat) : Prop :=
  arena.cursor + 1 < arena.chunkCount ∧
    Arena.fits (arena.chunk (arena.cursor + 1)) bytes align = true

/-- The ways an allocation can go. -/
theorem Arena.allocate_cases (arena : Arena) (newChars : Nat → Option Nat) (bytes align : Nat) :
    (arena.hasRoom bytes align ∧ arena.allocate newChars bytes align = arena.bump bytes align) ∨
    (¬ arena.hasRoom bytes align ∧ arena.canAdvance bytes align ∧
      arena.allocate newChars bytes align =
        (arena.advanceTo (arena.cursor + 1)).bump bytes align) ∨
    (¬ arena.hasRoom bytes align ∧ ¬ arena.canAdvance bytes align ∧
      ¬ kSizeMax - align < bytes ∧ ∃ arena',
        arena.grow newChars ((bytes + align) % 2 ^ 64) = some arena' ∧
        arena.allocate newChars bytes align = arena'.bump bytes align) ∨
    (¬ arena.hasRoom bytes align ∧ ¬ arena.canAdvance bytes align ∧
      (kSizeMax - align < bytes ∨ arena.grow newChars ((bytes + align) % 2 ^ 64) = none) ∧
      arena.allocate newChars bytes align = (0, arena)) := by
  by_cases room : arena.hasRoom bytes align
  · exact .inl ⟨room, if_pos room⟩
  have slow : arena.allocate newChars bytes align = arena.allocateSlow newChars bytes align :=
    if_neg room
  rw [slow, allocateSlow]
  by_cases reuse : arena.canAdvance bytes align
  · exact .inr (.inl ⟨room, reuse, if_pos reuse⟩)
  rw [if_neg (by simpa [canAdvance] using reuse)]
  by_cases large : kSizeMax - align < bytes
  · rw [if_pos large]
    exact .inr (.inr (.inr ⟨room, reuse, .inl large, rfl⟩))
  rw [if_neg large]
  cases grown : arena.grow newChars ((bytes + align) % 2 ^ 64) with
  | none => exact .inr (.inr (.inr ⟨room, reuse, .inr rfl, rfl⟩))
  | some arena' => exact .inr (.inr (.inl ⟨room, reuse, large, arena', rfl, rfl⟩))

namespace Ledger

variable {ledger : Ledger}

theorem Settled.cur_le (settled : ledger.Settled) (live : ledger.arena.live = true) :
    0 < ledger.arena.cur ∧ ledger.arena.limit ≤ 2 ^ 63 ∧ ledger.arena.cur ≤ 2 ^ 63 := by
  obtain ⟨chunk, found, low, order, limit⟩ := settled.selected live
  obtain ⟨positive, -, high⟩ := settled.chunked.low chunk (List.mem_of_getElem? found)
  omega

/-- In a valid state an allocation bumps inside a settled chunk, or it is stuck and changes
nothing. -/
theorem Valid.allocate_cases (valid : ledger.Valid) {newChars : Nat → Option Nat}
    (fresh : ledger.arena.Fresh newChars) {bytes exponent : Nat} (small : exponent < 64) :
    (∃ arena', Settled { ledger with arena := arena' } ∧ arena'.live = true ∧
      alignUp arena'.cur (2 ^ exponent) + bytes ≤ arena'.limit ∧
      ledger.arena.allocate newChars bytes (2 ^ exponent) = arena'.bump bytes (2 ^ exponent) ∧
      (arena'.reserved = ledger.arena.reserved ∧ arena'.cap = ledger.arena.cap ∨
        ledger.arena.grow newChars ((bytes + 2 ^ exponent) % 2 ^ 64) = some arena')) ∨
    (¬ ledger.arena.hasRoom bytes (2 ^ exponent) ∧
      ¬ ledger.arena.canAdvance bytes (2 ^ exponent) ∧
      (kSizeMax - 2 ^ exponent < bytes ∨
        ledger.arena.grow newChars ((bytes + 2 ^ exponent) % 2 ^ 64) = none) ∧
      ledger.arena.allocate newChars bytes (2 ^ exponent) = (0, ledger.arena)) := by
  rcases ledger.arena.allocate_cases newChars bytes (2 ^ exponent) with ⟨room, same⟩ |
    ⟨-, reuse, same⟩ | ⟨-, -, small', arena', grown, same⟩ | stuck
  · have live : ledger.arena.live = true := by
      by_contra dead
      exact room.1 (valid.unset (by simpa using dead)).1
    have space := room.2
    exact .inl ⟨_, valid.toSettled, live, by omega, same, .inl ⟨rfl, rfl⟩⟩
  · have live : ledger.arena.live = true := by
      by_contra dead
      have count := reuse.1
      simp [Arena.chunkCount, dead] at count
    have room := reuse.2
    simp only [Arena.fits, decide_eq_true_eq] at room
    refine .inl ⟨_, valid.advance reuse.1, live, ?_, same, .inl ⟨rfl, rfl⟩⟩
    simp only [Arena.advanceTo]
    omega
  · obtain ⟨settled, live, room⟩ := valid.grow fresh grown
    have bounds : 0 < arena'.cur ∧ arena'.limit ≤ 2 ^ 63 ∧ arena'.cur ≤ 2 ^ 63 :=
      settled.cur_le live
    have power : 2 ^ exponent ≤ 2 ^ 63 := Nat.pow_le_pow_right (by decide) (by omega)
    have positive := Nat.two_pow_pos exponent
    have wrapless : (bytes + 2 ^ exponent) % 2 ^ 64 = bytes + 2 ^ exponent := by
      simp only [kSizeMax] at small'
      omega
    have rounded := alignUp_lt bounds.2.2 small
    exact .inl ⟨_, settled, live, by omega, same, .inr grown⟩
  · exact .inr stuck

/-- Allocation keeps the invariant. -/
theorem Valid.allocate (valid : ledger.Valid) {newChars : Nat → Option Nat}
    (fresh : ledger.arena.Fresh newChars) {bytes exponent : Nat} (small : exponent < 64) :
    (ledger.receive (ledger.arena.allocate newChars bytes (2 ^ exponent)) bytes
      (2 ^ exponent)).Valid := by
  rcases valid.allocate_cases fresh small with ⟨arena', settled, live, room, same, -⟩ |
    ⟨-, -, -, same⟩
  · rw [same]
    exact settled.bump live small room
  · rw [same]
    simpa [receive] using valid

/-- A request that is refused for its count alone changes nothing. -/
theorem Valid.allocateArray (valid : ledger.Valid) {newChars : Nat → Option Nat}
    (fresh : ledger.arena.Fresh newChars) {size count exponent : Nat} (sized : 0 < size)
    (small : exponent < 64) :
    (ledger.receive (ledger.arena.allocateArray newChars size (2 ^ exponent) count) (count * size)
      (2 ^ exponent)).Valid := by
  rw [Arena.allocateArray]
  split
  · simpa [receive] using valid
  · rename_i accepted
    have bounded : count * size ≤ kSizeMax :=
      (Nat.le_div_iff_mul_le sized).mp (by omega)
    rw [Nat.mod_eq_of_lt (by simp only [kSizeMax] at bounded; omega)]
    exact valid.allocate fresh small

/-- Shrinking the most recent block with its true size keeps the invariant. -/
theorem Valid.shrinkLast (valid : ledger.Valid) {block : Block} {earlier : List Block}
    (recent : ledger.blocks = block :: earlier) (newBytes : Nat) :
    Valid
      { arena := ledger.arena.shrinkLast block.ptr block.size newBytes
        blocks := { block with size := min newBytes block.size } :: earlier } := by
  obtain ⟨last, ⟨chunk, found, above⟩, before⟩ := valid.recent block earlier recent
  have listed : ∀ other ∈ block :: earlier, other ∈ ledger.blocks := by simp [recent]
  have live : ledger.arena.live = true := by
    by_contra dead
    simp [Arena.chunks, dead] at found
  obtain ⟨chunk', found', low, order, limit⟩ := valid.selected live
  rw [found] at found'
  obtain rfl := Option.some.inj found'
  have positive := (valid.chunked.low chunk (List.mem_of_getElem? found)).1
  by_cases larger : block.size < newBytes
  · rw [Arena.shrinkLast, if_pos (.inr larger), Nat.min_eq_right larger.le, ← recent]
    exact valid
  rw [Arena.shrinkLast, if_neg (by omega), if_pos last, Nat.min_eq_left (by omega)]
  have fewer : block.ptr + newBytes ≤ block.ptr + block.size := by omega
  have smaller : (Block.region { block with size := newBytes }).Inside block.region :=
    ⟨le_rfl, fewer⟩
  have within : (Block.region { block with size := newBytes }).Inside chunk.region :=
    ⟨above, (fewer.trans_eq last).trans (order.trans_eq limit)⟩
  have used := valid.used
  have apart := valid.apart
  have total := valid.sum_size_le
  rw [recent, List.map_cons] at used apart total
  rw [List.sum_cons] at used total
  rw [List.pairwise_cons, List.forall_mem_map] at apart
  exact
    { aligned := List.forall_mem_cons.mpr ⟨valid.aligned block (listed block (by simp)),
        fun other held => valid.aligned other (listed other (by simp [held]))⟩
      inside := List.forall_mem_cons.mpr ⟨⟨chunk, List.mem_of_getElem? found, within⟩,
        fun other held => valid.inside other (listed other (by simp [held]))⟩
      apart := by
        rw [List.map_cons, List.pairwise_cons, List.forall_mem_map]
        exact ⟨fun other held => (apart.1 other held).mono smaller ⟨le_rfl, le_rfl⟩, apart.2⟩
      selected := fun _ => ⟨chunk, found, above.trans (Nat.le_add_right _ _),
        (fewer.trans_eq last).trans order, limit⟩
      unset := fun dead => nomatch live.symm.trans dead
      used := by
        simp only [List.map_cons, List.sum_cons]
        omega
      chunked := valid.chunked.congr rfl valid.chunked.first
      placed := List.forall_mem_cons.mpr
        ⟨⟨_, chunk, le_rfl, found, within, fun _ => le_rfl⟩, fun other held =>
          ((before other held).mono (Nat.le_add_right _ newBytes)).congr rfl rfl⟩
      recent := by
        rintro other rest same
        obtain ⟨rfl, rfl⟩ := List.cons.inj same
        exact ⟨rfl, ⟨chunk, found, above⟩, fun other held => (before other held).congr rfl rfl⟩ }

/-- An arena without blocks is valid when its chunks are and the bump pointer is at the start of the
first one. -/
theorem valid_of_unused {arena : Arena} (chunked : arena.Chunked) (used : arena.used = 0)
    (cursor : arena.cursor = 0)
    (live : arena.live = true → arena.cur = arena.head.data ∧ arena.limit = arena.head.limit)
    (unset : arena.live = false → arena.cur = 0 ∧ arena.limit = 0) : Valid { arena } where
  aligned := nofun
  inside := nofun
  apart := .nil
  selected := by
    intro (alive : arena.live = true)
    have found : arena.chunks[0]? = some arena.head := by simp [Arena.chunks, alive]
    obtain ⟨cur, limit⟩ := live alive
    obtain ⟨-, order, -⟩ := chunked.low arena.head (List.mem_of_getElem? found)
    exact ⟨arena.head, by simp only [cursor, found], by simp only; omega, by simp only; omega,
      limit⟩
  unset := unset
  used := used
  chunked := chunked
  placed := nofun
  recent := nofun

theorem Valid.reset (valid : ledger.Valid) : Valid { arena := ledger.arena.reset } := by
  have chunked := valid.chunked
  cases live : ledger.arena.live with
  | true =>
      rw [Arena.reset_of_live live]
      exact valid_of_unused (chunked.congr rfl chunked.first) rfl rfl (fun _ => ⟨rfl, rfl⟩)
        fun dead => nomatch live.symm.trans dead
  | false =>
      rw [Arena.reset_of_dead live]
      exact valid_of_unused (chunked.congr rfl chunked.first) rfl rfl
        (fun alive => nomatch live.symm.trans alive) fun _ => ⟨rfl, rfl⟩

theorem Valid.start {seed : Nat} {arena : Arena} (constructed : arena.Constructed seed) :
    Valid { arena } := by
  have empty : Valid { arena := ({} : Arena) } :=
    valid_of_unused ⟨nofun, .nil, fun _ => rfl⟩ rfl rfl nofun fun _ => ⟨rfl, rfl⟩
  cases constructed with
  | unseeded => exact empty
  | seeded buffer seed low =>
      rw [Arena.seeded]
      split
      · rename_i adopted
        have rounded : alignUp buffer kMaxAlign < buffer + kMaxAlign :=
          @alignUp_lt _ 4 (by omega) (by decide)
        have above : buffer ≤ alignUp buffer kMaxAlign :=
          @le_alignUp _ 4 (by omega) (by decide)
        refine valid_of_unused ⟨?_, List.pairwise_singleton _ _, nofun⟩ rfl rfl
          (fun _ => ⟨rfl, rfl⟩) nofun
        intro chunk listed
        rw [List.mem_singleton.mp listed]
        exact ⟨by show 0 < alignUp buffer kMaxAlign; omega,
          by show alignUp buffer kMaxAlign ≤ buffer + seed; omega, low⟩
      · exact empty

theorem Valid.setCapacityLimit (valid : ledger.Valid) (maxReservedBytes : Nat) :
    Valid { ledger with arena := ledger.arena.setCapacityLimit maxReservedBytes } where
  aligned := valid.aligned
  inside := valid.inside
  apart := valid.apart
  selected := valid.selected
  unset := valid.unset
  used := valid.used
  chunked := valid.chunked.congr rfl valid.chunked.first
  placed block listed := (valid.placed block listed).congr rfl rfl
  recent block earlier same := by
    obtain ⟨last, held, before⟩ := valid.recent block earlier same
    exact ⟨last, held, fun other listed => (before other listed).congr rfl rfl⟩

/-- Every operation keeps the invariant. -/
theorem Valid.step {ledger' : Ledger} (valid : ledger.Valid) (step : Step ledger ledger') :
    ledger'.Valid := by
  cases step with
  | setCapacityLimit maxReservedBytes => exact valid.setCapacityLimit maxReservedBytes
  | allocate fresh bytes exponent fits small => exact valid.allocate fresh small
  | allocateArray fresh size count exponent sized small =>
      exact valid.allocateArray fresh sized small
  | create fresh size exponent fits small => exact valid.allocate fresh small
  | shrinkLast recent newBytes => exact valid.shrinkLast recent newBytes
  | reset => exact valid.reset

theorem Reachable.valid (reached : ledger.Reachable) : ledger.Valid := by
  induction reached with
  | start constructed => exact Valid.start constructed
  | next _ step valid => exact valid.step step

/-- In every run of arena operations, whatever the host answers, the blocks handed out are aligned,
lie inside one chunk each and do not overlap, the bump pointer stays in the selected chunk, and the
counter of used bytes is the sum of the block sizes. -/
theorem reachable_sound (ledger : Ledger) (reached : ledger.Reachable) : ledger.Sound :=
  reached.valid.toSound

/-- A block is handed out of a seed buffer, shrunk, and followed by another one. -/
theorem reachable_sound_sample :
    ∃ ledger : Ledger, ledger.blocks = [⟨0x1010, 16, 16⟩, ⟨0x1000, 10, 8⟩] ∧ ledger.Sound := by
  have seeded : Reachable { arena := Arena.seeded 0x1000 256 } :=
    .start (.seeded 0x1000 256 (by decide))
  have first := seeded.next (.allocate _ (Arena.fresh_none _) 24 3 (by decide) (by decide))
  have shrunk := first.next (.shrinkLast _ rfl 10)
  have second := shrunk.next (.allocate _ (Arena.fresh_none _) 16 4 (by decide) (by decide))
  exact ⟨_, rfl, reachable_sound _ second⟩

end Ledger
end RapidProto
