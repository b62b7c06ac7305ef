import Mathlib.Data.List.Pairwise
import RapidProto.Arena.Ledger
import RapidProto.Memory

/-!
# Blocks and their bytes

An arena's ledger together with the contents of memory.  The holder of a block writes inside it and
gives back its tail with the size it believes the block to have.  As long as no later block is
empty, giving back shrinks the most recent block or does nothing, and whatever one holder does
spares the blocks of the others.
-/

namespace RapidProto

namespace Ledger

variable {ledger : Ledger} {ptr bytes ptr' bytes' : Nat}

/-- The bytes are the beginning of a block, and no later block is empty. -/
def HandedOut (ledger : Ledger) (ptr bytes : Nat) : Prop :=
  ∃ later block earlier, ledger.blocks = later ++ block :: earlier ∧ block.ptr = ptr ∧
    bytes ≤ block.size ∧ ∀ other ∈ later, 0 < other.size

/-- `shrink_last`; the most recent block shrinks when the bump pointer moves. -/
def giveBack (ledger : Ledger) (ptr oldBytes newBytes : Nat) : Ledger where
  arena := ledger.arena.shrinkLast ptr oldBytes newBytes
  blocks :=
    match ledger.blocks with
    | [] => []
    | block :: earlier =>
      if ptr ≠ 0 ∧ newBytes ≤ oldBytes ∧ ptr + oldBytes = ledger.arena.cur then
        { block with size := newBytes } :: earlier
      else block :: earlier

@[simp] theorem giveBack_null (ledger : Ledger) (oldBytes newBytes : Nat) :
    ledger.giveBack 0 oldBytes newBytes = ledger := by
  obtain ⟨arena, blocks⟩ := ledger
  cases blocks <;> simp [giveBack, Arena.shrinkLast]

theorem HandedOut.listed (held : ledger.HandedOut ptr bytes) :
    ∃ block ∈ ledger.blocks, block.ptr = ptr ∧ bytes ≤ block.size := by
  obtain ⟨later, block, earlier, blocks, same, enough, -⟩ := held
  exact ⟨block, by simp [blocks], same, enough⟩

theorem HandedOut.mono (held : ledger.HandedOut ptr bytes) (fewer : bytes' ≤ bytes) :
    ledger.HandedOut ptr bytes' := by
  obtain ⟨later, block, earlier, blocks, same, enough, filled⟩ := held
  exact ⟨later, block, earlier, blocks, same, fewer.trans enough, filled⟩

theorem Valid.ptr_pos (valid : ledger.Valid) {block : Block} (listed : block ∈ ledger.blocks) :
    0 < block.ptr := by
  obtain ⟨chunk, held, inside⟩ := valid.inside block listed
  exact (valid.chunked.low chunk held).1.trans_le inside.1

theorem HandedOut.ptr_pos (held : ledger.HandedOut ptr bytes) (valid : ledger.Valid) : 0 < ptr := by
  obtain ⟨block, listed, rfl, -⟩ := held.listed
  exact valid.ptr_pos listed

theorem Valid.blocks_apart (valid : ledger.Valid) {block other : Block}
    (listed : block ∈ ledger.blocks) (listed' : other ∈ ledger.blocks)
    (differ : block.ptr ≠ other.ptr) : block.region.Apart other.region := by
  have symmetric : Std.Symm Region.Apart := ⟨fun _ _ apart => Region.Apart.symm apart⟩
  by_cases same : block.region = other.region
  · exact absurd (congrArg Region.start same) differ
  · exact valid.apart.forall (List.mem_map_of_mem listed) (List.mem_map_of_mem listed') same

/-- Different holders hold different bytes. -/
theorem HandedOut.apart (held : ledger.HandedOut ptr bytes) (held' : ledger.HandedOut ptr' bytes')
    (valid : ledger.Valid) (differ : ptr ≠ ptr') :
    Region.Apart ⟨ptr, ptr + bytes⟩ ⟨ptr', ptr' + bytes'⟩ := by
  obtain ⟨block, listed, rfl, enough⟩ := held.listed
  obtain ⟨other, listed', rfl, enough'⟩ := held'.listed
  exact (valid.blocks_apart listed listed' differ).mono
    ⟨le_rfl, Nat.add_le_add_left enough _⟩ ⟨le_rfl, Nat.add_le_add_left enough' _⟩

/-! ## Giving back -/

/-- Bytes that end at the bump pointer are those of the most recent block. -/
theorem HandedOut.recent (held : ledger.HandedOut ptr bytes) (valid : ledger.Valid)
    (positive : 0 < bytes) (last : ptr + bytes = ledger.arena.cur) :
    ∃ block earlier, ledger.blocks = block :: earlier ∧ block.ptr = ptr ∧ block.size = bytes := by
  obtain ⟨later, block, earlier, blocks, rfl, enough, filled⟩ := held
  cases later with
  | nil =>
      have ends := (valid.recent block earlier blocks).1
      exact ⟨block, earlier, blocks, rfl, by omega⟩
  | cons head later =>
      exfalso
      obtain ⟨ends, ⟨current, found, above⟩, before⟩ :=
        valid.recent head (later ++ block :: earlier) blocks
      have size := filled head (by simp)
      have live : ledger.arena.live = true := by
        by_contra dead
        simp [Arena.chunks, dead] at found
      obtain ⟨current', found', -, order, limit⟩ := valid.selected live
      rw [found] at found'
      obtain rfl := Option.some.inj found'
      obtain ⟨index, chunk, -, found'', inside, below⟩ := before block (by simp)
      by_cases here : index = ledger.arena.cursor
      · have position := below here
        omega
      · have apart := valid.chunked.apart_of_ne found'' found here
        obtain ⟨low, high⟩ := inside
        simp only [Block.region, Chunk.region] at low high
        rcases apart with lower | higher
        · simp only [Chunk.region] at lower
          omega
        · simp only [Chunk.region] at higher
          omega

/-- Giving back the tail of a held block shrinks the most recent block or does nothing. -/
theorem HandedOut.giveBack_cases (held : ledger.HandedOut ptr bytes) (valid : ledger.Valid)
    (positive : 0 < bytes) (fewer : bytes' ≤ bytes) :
    ledger.giveBack ptr bytes bytes' = ledger ∨
      ∃ block earlier, ledger.blocks = block :: earlier ∧ block.ptr = ptr ∧ block.size = bytes ∧
        ledger.giveBack ptr bytes bytes' =
          { arena := ledger.arena.shrinkLast block.ptr block.size bytes'
            blocks := { block with size := min bytes' block.size } :: earlier } := by
  have somewhere := held.ptr_pos valid
  by_cases last : ptr + bytes = ledger.arena.cur
  · obtain ⟨block, earlier, blocks, same, size⟩ := held.recent valid positive last
    refine .inr ⟨block, earlier, blocks, same, size, ?_⟩
    simp only [giveBack, blocks, same, size, Nat.min_eq_left fewer]
    rw [if_pos ⟨somewhere.ne', fewer, last⟩]
  · left
    obtain ⟨arena, blocks⟩ := ledger
    simp only [giveBack, Arena.shrinkLast]
    rw [if_neg (by omega), if_neg last]
    cases blocks with
    | nil => rfl
    | cons block earlier =>
        simp only
        rw [if_neg fun given => last given.2.2]

theorem HandedOut.giveBack_valid (held : ledger.HandedOut ptr bytes) (valid : ledger.Valid)
    (positive : 0 < bytes) (fewer : bytes' ≤ bytes) : (ledger.giveBack ptr bytes bytes').Valid := by
  rcases held.giveBack_cases valid positive fewer with same | ⟨block, earlier, blocks, -, -, same⟩
  · rwa [same]
  · rw [same]
    exact valid.shrinkLast blocks bytes'

/-- The giver keeps the front of its block. -/
theorem HandedOut.giveBack_self (held : ledger.HandedOut ptr bytes) (valid : ledger.Valid)
    (positive : 0 < bytes) (fewer : bytes' ≤ bytes) :
    (ledger.giveBack ptr bytes bytes').HandedOut ptr bytes' := by
  rcases held.giveBack_cases valid positive fewer with same | ⟨block, earlier, -, rfl, rfl, same⟩
  · rw [same]
    exact held.mono fewer
  · rw [same]
    exact ⟨[], _, earlier, rfl, rfl, (Nat.min_eq_left fewer).ge, nofun⟩

/-- The others keep theirs. -/
theorem HandedOut.giveBack_other {other size : Nat} (held : ledger.HandedOut ptr bytes)
    (valid : ledger.Valid) (remains : 0 < bytes') (fewer : bytes' ≤ bytes)
    (held' : ledger.HandedOut other size) (differ : other ≠ ptr) :
    (ledger.giveBack ptr bytes bytes').HandedOut other size := by
  rcases held.giveBack_cases valid (by omega) fewer with same |
    ⟨block, earlier, blocks, rfl, rfl, same⟩
  · rwa [same]
  · rw [same]
    obtain ⟨later, block', earlier', blocks', rfl, enough, filled⟩ := held'
    rw [blocks] at blocks'
    cases later with
    | nil =>
        obtain ⟨rfl, -⟩ := List.cons.inj blocks'
        exact absurd rfl differ
    | cons head later =>
        obtain ⟨rfl, rest⟩ := List.cons.inj blocks'
        refine ⟨{ block with size := min bytes' block.size } :: later, block', earlier',
          by rw [rest]; rfl, rfl, enough, List.forall_mem_cons.mpr ⟨?_, fun other met =>
            filled other (by simp [met])⟩⟩
        simp only
        omega

/-! ## Receiving -/

variable {result : Nat × Arena} {size align : Nat}

theorem HandedOut.receive (held : ledger.HandedOut ptr bytes) (sized : 0 < size) :
    (ledger.receive result size align).HandedOut ptr bytes := by
  obtain ⟨later, block, earlier, blocks, same, enough, filled⟩ := held
  by_cases null : result.1 = 0
  · exact ⟨later, block, earlier, by rw [Ledger.receive, if_pos null, blocks], same, enough, filled⟩
  · exact ⟨⟨result.1, size, align⟩ :: later, block, earlier,
      by rw [Ledger.receive, if_neg null, blocks, List.cons_append], same, enough,
      List.forall_mem_cons.mpr ⟨sized, filled⟩⟩

theorem handedOut_receive (given : result.1 ≠ 0) :
    (ledger.receive result size align).HandedOut result.1 size :=
  ⟨[], ⟨result.1, size, align⟩, ledger.blocks, if_neg given, rfl, le_rfl, nofun⟩

/-- A new block is at a new place. -/
theorem HandedOut.ne_received (held : ledger.HandedOut ptr bytes)
    (valid : (ledger.receive result size align).Valid) (positive : 0 < bytes) (sized : 0 < size) :
    ptr ≠ result.1 := by
  rintro rfl
  by_cases given : result.1 = 0
  · have kept : (ledger.receive result size align).HandedOut result.1 bytes := held.receive sized
    have somewhere := kept.ptr_pos valid
    omega
  obtain ⟨block, listed, same, enough⟩ := held.listed
  have apart := valid.apart
  rw [Ledger.receive, if_neg given, List.map_cons, List.pairwise_cons] at apart
  have behind := apart.1 block.region (List.mem_map_of_mem listed)
  simp only [Region.Apart, Block.region, same] at behind
  omega

end Ledger

/-- An arena's blocks, and the contents of memory. -/
structure Heap (β : Type) where
  /-- The arena and its blocks. -/
  ledger : Ledger
  /-- The bytes. -/
  memory : Memory β

/-- What changes from one heap to the next concerns the holder of the block at `own`, which moves to
`own'`: every other block and its bytes remain. -/
structure Heap.Spares {β : Type} (heap heap' : Heap β) (own own' : Nat) : Prop where
  /-- The arena's invariant. -/
  valid : heap'.ledger.Valid
  /-- The others. -/
  others : ∀ ptr bytes, 0 < bytes → heap.ledger.HandedOut ptr bytes → ptr ≠ own →
    ptr ≠ own' ∧ heap'.ledger.HandedOut ptr bytes ∧
      heap'.memory.read ptr bytes = heap.memory.read ptr bytes

namespace Heap

variable {β : Type} {heap heap' heap'' : Heap β} {own own' own'' : Nat}

theorem Spares.trans (first : heap.Spares heap' own own') (second : heap'.Spares heap'' own' own'') :
    heap.Spares heap'' own own'' := by
  refine ⟨second.valid, fun ptr bytes positive held differ => ?_⟩
  obtain ⟨differ', held', same⟩ := first.others ptr bytes positive held differ
  obtain ⟨differ'', held'', same'⟩ := second.others ptr bytes positive held' differ'
  exact ⟨differ'', held'', same'.trans same⟩

theorem Spares.refl (valid : heap.ledger.Valid) (own : Nat) : heap.Spares heap own own :=
  ⟨valid, fun _ _ _ held differ => ⟨differ, held, rfl⟩⟩

/-- A new block spares all others. -/
theorem spares_receive {result : Nat × Arena} {size align : Nat} (own : Nat)
    (valid : (heap.ledger.receive result size align).Valid) (sized : 0 < size) :
    heap.Spares { heap with ledger := heap.ledger.receive result size align } own result.1 :=
  ⟨valid, fun _ _ positive held _ =>
    ⟨held.ne_received valid positive sized, held.receive sized, rfl⟩⟩

/-- Writing inside a block spares all others. -/
theorem spares_write {memory : Memory β} {block : Block} (valid : heap.ledger.Valid)
    (listed : block ∈ heap.ledger.blocks)
    (changes : Memory.ChangesWithin block.region heap.memory memory) :
    heap.Spares { heap with memory } block.ptr block.ptr := by
  refine ⟨valid, fun ptr bytes _ held differ => ⟨differ, held, changes.read ?_⟩⟩
  obtain ⟨other, listed', rfl, enough⟩ := held.listed
  exact (valid.blocks_apart listed' listed differ).mono
    ⟨le_rfl, Nat.add_le_add_left enough _⟩ ⟨le_rfl, le_rfl⟩

/-- A holder who writes inside its block spares all others. -/
theorem spares_store {memory : Memory β} {bytes : Nat} (valid : heap.ledger.Valid)
    (held : heap.ledger.HandedOut own bytes)
    (changes : Memory.ChangesWithin ⟨own, own + bytes⟩ heap.memory memory) :
    heap.Spares { heap with memory } own own := by
  obtain ⟨block, listed, rfl, enough⟩ := held.listed
  exact spares_write valid listed (changes.mono ⟨le_rfl, Nat.add_le_add_left enough _⟩)

/-- A holder who gives back its tail spares all others. -/
theorem spares_giveBack {oldBytes newBytes : Nat} (valid : heap.ledger.Valid)
    (held : heap.ledger.HandedOut own oldBytes) (remains : 0 < newBytes)
    (fewer : newBytes ≤ oldBytes) :
    heap.Spares { heap with ledger := heap.ledger.giveBack own oldBytes newBytes } own own :=
  ⟨held.giveBack_valid valid (by omega) fewer, fun _ _ _ held' differ =>
    ⟨differ, held.giveBack_other valid remains fewer held' differ, rfl⟩⟩

end Heap
end RapidProto
