import RapidProto.Tree.Requested
import RapidProto.Tree.Stored

/-!
# Accumulators that share an arena

The accumulators of any number of packable fields over one arena and one memory, whose occurrences
come in any order and are interleaved with any other use of the arena: other blocks are handed out,
and their holders write into them.  Every accumulator keeps exactly the elements of its own
occurrences.
-/

namespace RapidProto

/-! ## Runs of elements -/

/-- The bytes of one element of a packed run. -/
inductive EncodesElement (kind : Leaf) : Value → List Byte → Prop
  | varint {raw : BitVec 64} {bytes : List Byte} (wire : kind.wire = .varint)
      (spells : EncodesVarint raw.toNat bytes) : EncodesElement kind (kind.ofVarint raw) bytes
  | i32 {bits : BitVec 32} {bytes : List Byte} (wire : kind.wire = .i32)
      (width : bytes.length = 4) (spells : littleEndian bytes = bits.toNat) :
      EncodesElement kind (.w32 bits) bytes
  | i64 {bits : BitVec 64} {bytes : List Byte} (wire : kind.wire = .i64)
      (width : bytes.length = 8) (spells : littleEndian bytes = bits.toNat) :
      EncodesElement kind (.w64 bits) bytes

/-- The bytes of a packed run. -/
inductive EncodesRun (kind : Leaf) : List Value → List Byte → Prop
  | nil : EncodesRun kind [] []
  | cons {value : Value} {values : List Value} {bytes run : List Byte}
      (element : EncodesElement kind value bytes) (later : EncodesRun kind values run) :
      EncodesRun kind (value :: values) (bytes ++ run)

theorem EncodesElement.payload {kind : Leaf} {value : Value} {bytes : List Byte}
    (element : EncodesElement kind value bytes) (span : Nat) (rest : Cursor) :
    ∃ read, RapidProto.payload span ⟨1, kind.wire⟩ (bytes ++ rest) = .ok (read, rest) ∧
      kind.convert read = value := by
  cases element with
  | varint wire spells =>
      refine ⟨.varint _, ?_, rfl⟩
      simp only [RapidProto.payload, wire, varint_iff.mpr ⟨bytes, spells, rfl⟩, leaf]
  | i32 wire width spells =>
      refine ⟨.i32 _, ?_, rfl⟩
      simp only [RapidProto.payload, wire, fixed32_iff.mpr ⟨bytes, width, spells, rfl⟩, leaf]
  | i64 wire width spells =>
      refine ⟨.i64 _, ?_, rfl⟩
      simp only [RapidProto.payload, wire, fixed64_iff.mpr ⟨bytes, width, spells, rfl⟩, leaf]

theorem EncodesRun.packedFrom {kind : Leaf} {values : List Value} {run : List Byte}
    (encodes : EncodesRun kind values run) {span turns : Nat} (enough : run.length ≤ turns) :
    RapidProto.packedFrom kind span turns run = .ok values := by
  induction encodes generalizing turns with
  | nil => exact packedFrom_nil kind span turns
  | @cons value values bytes run element later ih =>
      obtain ⟨read, got, rfl⟩ := element.payload span run
      have shorter := payload_length_lt got
      obtain ⟨turns, rfl⟩ : ∃ t, turns = t + 1 := ⟨turns - 1, by omega⟩
      have rest := @ih turns (by omega)
      rw [RapidProto.packedFrom, if_neg (by omega), got]
      simp only [rest]

theorem EncodesRun.packedValues {kind : Leaf} {values : List Value} {run : List Byte}
    (encodes : EncodesRun kind values run) : packedValues kind run = .ok values :=
  encodes.packedFrom le_rfl

/-- The elements of an occurrence. -/
inductive Occurrence.Spells (kind : Leaf) : Occurrence → List Value → Prop
  | expanded {value : Payload} {first : Byte} {raw : List Byte} (wire : value.wire = kind.wire) :
      Spells kind (.expanded value first raw) [kind.convert value]
  | packed {values : List Value} {run : List Byte} (encodes : EncodesRun kind values run) :
      Spells kind (.packed run) values

/-! ## The machine -/

/-- The bytes of the stored elements. -/
def Buffer.region (buffer : Buffer) (kind : Leaf) : Region :=
  ⟨buffer.base, buffer.base + buffer.n * kind.size⟩

/-- An occurrence of a field, by its accumulator. -/
def Buffer.take (newChars : Nat → Option Nat) (kIsLittleEndian : Bool) (kind : Leaf)
    (buffer : Buffer) (heap : Heap Byte) : Occurrence → Outcome DecodeError (Buffer × Heap Byte)
  | .expanded value _ _ => buffer.append newChars kIsLittleEndian kind value heap
  | .packed run => buffer.fill newChars kIsLittleEndian kind run heap

/-- Accumulators that share an arena. -/
structure Accumulators (κ : Type) where
  /-- The arena and the memory. -/
  heap : Heap Byte
  /-- The accumulators. -/
  buffers : κ → Buffer := fun _ => {}
  /-- Blocks handed out for anything else. -/
  others : List Block := []

/-- Hand out a block for something else. -/
def Accumulators.receive {κ : Type} (state : Accumulators κ) (result : Nat × Arena)
    (bytes align : Nat) : Accumulators κ where
  heap := { state.heap with ledger := state.heap.ledger.receive result bytes align }
  buffers := state.buffers
  others := if result.1 = 0 then state.others else ⟨result.1, bytes, align⟩ :: state.others

section Machine

variable {κ : Type} [DecidableEq κ] (kinds : κ → Leaf) (kIsLittleEndian : Bool)

/-- One step: an occurrence of a field, with its elements, or something else that uses the arena. -/
inductive Accumulators.Step : Accumulators κ → Option (κ × List Value) → Accumulators κ → Prop
  | occurrence {state : Accumulators κ} {newChars : Nat → Option Nat} {key : κ}
      {occurrence : Occurrence} {values : List Value} {buffer : Buffer} {heap : Heap Byte}
      (spells : occurrence.Spells (kinds key) values)
      (fresh : state.heap.ledger.arena.Fresh newChars)
      (ran : (state.buffers key).take newChars kIsLittleEndian (kinds key) state.heap occurrence =
        .ok (buffer, heap)) :
      Step state (some (key, values))
        { state with heap, buffers := Function.update state.buffers key buffer }
  /-- `create` or `allocate_array` for something else; neither asks the arena for zero bytes. -/
  | allocate {state : Accumulators κ} {newChars : Nat → Option Nat}
      (fresh : state.heap.ledger.arena.Fresh newChars) (bytes exponent : Nat) (occupied : 0 < bytes)
      (small : exponent < 64) :
      Step state none
        (state.receive (state.heap.ledger.arena.allocate newChars bytes (2 ^ exponent)) bytes
          (2 ^ exponent))
  /-- The holder of another block writes into it. -/
  | write {state : Accumulators κ} {block : Block} {memory : Memory Byte}
      (listed : block ∈ state.others)
      (changes : Memory.ChangesWithin block.region state.heap.memory memory) :
      Step state none { state with heap := { state.heap with memory } }

/-- Steps one after another, with the occurrences among them. -/
inductive Accumulators.Run (start : Accumulators κ) :
    List (κ × List Value) → Accumulators κ → Prop
  | start : Run start [] start
  | next {events : List (κ × List Value)} {event : Option (κ × List Value)}
      {state state' : Accumulators κ} (ran : Run start events state)
      (step : state.Step kinds kIsLittleEndian event state') :
      Run start (events ++ event.toList) state'

/-- The invariant between steps. -/
structure Accumulators.Sound (state : Accumulators κ) : Prop where
  /-- The arena's invariant. -/
  valid : state.heap.ledger.Valid
  /-- Each accumulator's invariant. -/
  settled : ∀ key, (state.buffers key).Settled (kinds key) state.heap.ledger
  /-- Arrays of different accumulators are different. -/
  apart : ∀ key key', key ≠ key' → (state.buffers key).cap ≠ 0 →
    (state.buffers key).base ≠ (state.buffers key').base
  /-- The other blocks are nobody's array. -/
  others : ∀ block ∈ state.others, 0 < block.size ∧
    state.heap.ledger.HandedOut block.ptr block.size ∧
      ∀ key, (state.buffers key).base ≠ block.ptr

/-- The elements of one field. -/
def ownElements (key : κ) (events : List (κ × List Value)) : List Value :=
  events.flatMap fun event => if event.1 = key then event.2 else []

/-- What an accumulator has stored. -/
def Accumulators.stored (state : Accumulators κ) (key : κ) : List Value :=
  (state.buffers key).stored kIsLittleEndian (kinds key) state.heap.memory

/-- What is promised of accumulators that have absorbed the given elements. -/
structure Accumulators.Keeps (state : Accumulators κ) (events : List (κ × List Value)) : Prop where
  /-- The count is within the capacity. -/
  room : ∀ key, (state.buffers key).n ≤ (state.buffers key).cap
  /-- Each array is the list of its elements, in order. -/
  elements : ∀ key, state.stored kinds kIsLittleEndian key = ownElements key events
  /-- No other block overlaps with stored elements. -/
  apart : ∀ key, ∀ block ∈ state.others,
    ((state.buffers key).region (kinds key)).Apart block.region
  /-- Nor do the elements of another accumulator. -/
  distinct : ∀ key key', key ≠ key' →
    ((state.buffers key).region (kinds key)).Apart ((state.buffers key').region (kinds key'))
  /-- Growing keeps the elements, unless memory runs out. -/
  grows : ∀ key newChars cap, state.heap.ledger.arena.Fresh newChars → 0 < cap →
    (state.buffers key).n ≤ cap →
    ((state.buffers key).reallocate newChars (kinds key) cap state.heap).Ends
      (fun result => result.1.cap = cap ∧
        result.1.stored kIsLittleEndian (kinds key) result.2.memory =
          ownElements key events) (· = .outOfMemory)
  /-- A further occurrence appends its elements and changes no byte of another block, unless memory
  runs out. -/
  takes : ∀ key newChars occurrence values, state.heap.ledger.arena.Fresh newChars →
    occurrence.Spells (kinds key) values →
    ((state.buffers key).take newChars kIsLittleEndian (kinds key) state.heap occurrence).Ends
      (fun result =>
        result.1.stored kIsLittleEndian (kinds key) result.2.memory =
          ownElements key events ++ values ∧
        ∀ block ∈ state.others, result.2.memory.read block.ptr block.size =
          state.heap.memory.read block.ptr block.size) (· = .outOfMemory)

end Machine

/-- An accumulator that is spared keeps its array and its elements. -/
theorem Buffer.Settled.spared {kind : Leaf} {heap heap' : Heap Byte} {buffer : Buffer}
    {own own' : Nat} (settled : buffer.Settled kind heap.ledger)
    (spares : heap.Spares heap' own own') (differ : buffer.cap ≠ 0 → buffer.base ≠ own) :
    (buffer.cap ≠ 0 → buffer.base ≠ own') ∧ buffer.Settled kind heap'.ledger ∧
      (∀ kIsLittleEndian, buffer.stored kIsLittleEndian kind heap'.memory =
        buffer.stored kIsLittleEndian kind heap.memory) ∧
      heap'.memory.read buffer.base (buffer.cap * kind.size) =
        heap.memory.read buffer.base (buffer.cap * kind.size) := by
  by_cases unset : buffer.cap = 0
  · have empty : buffer.n = 0 := by
      have room := settled.room
      omega
    exact ⟨fun array => absurd unset array,
      ⟨settled.room, settled.unset, settled.filled, fun array => absurd unset array⟩,
      fun _ => by simp [stored, empty], by simp [unset, Memory.read]⟩
  · have positive : 0 < buffer.cap * kind.size :=
      Nat.mul_pos (Nat.pos_of_ne_zero unset) kind.size_pos
    obtain ⟨elsewhere, held, same⟩ :=
      spares.others _ _ positive (settled.block unset) (differ unset)
    refine ⟨fun _ => elsewhere, ⟨settled.room, settled.unset, settled.filled, fun _ => held⟩,
      fun _ => ?_, same⟩
    refine List.map_congr_left fun index listed => load_congr (Memory.read_congr ?_)
    intro place low high
    have inside := @Memory.item_inside buffer.base kind.size _ _
      ((List.mem_range.mp listed).trans_le settled.room)
    exact Memory.read_apply ((Nat.le_add_right _ _).trans low) (high.trans_le inside.2) same

section Runs

variable {κ : Type} [DecidableEq κ] {kinds : κ → Leaf} {kIsLittleEndian : Bool}
  {state state' : Accumulators κ}

theorem Buffer.take_ends {newChars : Nat → Option Nat} {kind : Leaf} {heap : Heap Byte}
    {buffer : Buffer} (settled : buffer.Settled kind heap.ledger) (valid : heap.ledger.Valid)
    (fresh : heap.ledger.arena.Fresh newChars) (packable : isPackableWire kind.wire = true)
    {occurrence : Occurrence} {values : List Value} (spells : occurrence.Spells kind values) :
    (buffer.take newChars kIsLittleEndian kind heap occurrence).Ends
      (Absorbs kIsLittleEndian kind buffer heap values) (· = .outOfMemory) := by
  cases spells with
  | expanded wire => exact append_ends settled valid fresh packable wire
  | packed encodes => exact fill_ends settled valid fresh packable encodes.packedValues

/-- An occurrence keeps the invariant. -/
theorem Accumulators.Sound.absorb (sound : state.Sound kinds) {owner : κ} {values : List Value}
    {buffer : Buffer} {heap : Heap Byte}
    (absorbs : (state.buffers owner).Absorbs kIsLittleEndian (kinds owner) state.heap values
      (buffer, heap)) :
    ({ state with heap, buffers := Function.update state.buffers owner buffer } :
      Accumulators κ).Sound kinds := by
  have others : ∀ key, key ≠ owner → ((state.buffers key).cap ≠ 0 →
      (state.buffers key).base ≠ buffer.base) ∧
      (state.buffers key).Settled (kinds key) heap.ledger := fun key differ =>
    have spared := (sound.settled key).spared absorbs.spares (sound.apart key owner differ)
    ⟨spared.1, spared.2.1⟩
  refine ⟨absorbs.spares.valid, fun key => ?_, fun key key' differ array => ?_, fun block met => ?_⟩
  · by_cases own : key = owner
    · subst own
      simpa using absorbs.settled
    · simpa [own] using (others key own).2
  · by_cases own : key = owner
    · subst own
      simp only [Function.update_self, Function.update_of_ne (Ne.symm differ)] at array ⊢
      by_cases unset : (state.buffers key').cap = 0
      · rw [(sound.settled key').unset unset]
        exact ((absorbs.settled.block array).ptr_pos absorbs.spares.valid).ne'
      · exact ((others key' (Ne.symm differ)).1 unset).symm
    · simp only [Function.update_of_ne own] at array ⊢
      by_cases own' : key' = owner
      · subst own'
        simpa using (others key own).1 array
      · simpa [own'] using sound.apart key key' differ array
  · obtain ⟨positive, held, differ⟩ := sound.others block met
    obtain ⟨differ', held', -⟩ := absorbs.spares.others _ _ positive held (differ owner).symm
    refine ⟨positive, held', fun key => ?_⟩
    by_cases own : key = owner
    · subst own
      simpa using differ'.symm
    · simpa [own] using differ key

omit [DecidableEq κ] in
/-- Handing out another block keeps the invariant. -/
theorem Accumulators.Sound.receive (sound : state.Sound kinds) {result : Nat × Arena}
    {bytes align : Nat} (valid : (state.heap.ledger.receive result bytes align).Valid)
    (occupied : 0 < bytes) : (state.receive result bytes align).Sound kinds := by
  have spares := @Heap.spares_receive _ state.heap _ _ _ 0 valid occupied
  have spared : ∀ key, _ := fun key => (sound.settled key).spared spares fun array =>
    (((sound.settled key).block array).ptr_pos sound.valid).ne'
  refine ⟨valid, fun key => (spared key).2.1, sound.apart, fun block met => ?_⟩
  have listed : result.1 ≠ 0 ∧ block = ⟨result.1, bytes, align⟩ ∨ block ∈ state.others := by
    rw [Accumulators.receive] at met
    split at met
    · exact .inr met
    · exact (List.mem_cons.mp met).imp (fun same => ⟨‹_›, same⟩) id
  rcases listed with ⟨given, rfl⟩ | met
  · refine ⟨occupied, Ledger.handedOut_receive given, fun key => ?_⟩
    by_cases unset : (state.buffers key).cap = 0
    · rw [show ((state.receive result bytes align).buffers key).base = 0 from
        (sound.settled key).unset unset]
      exact Ne.symm given
    · exact (spared key).1 unset
  · obtain ⟨positive, held, differ⟩ := sound.others block met
    exact ⟨positive, held.receive occupied, differ⟩

/-- A step keeps the invariant and appends the elements of its occurrence. -/
theorem Accumulators.Sound.step (packable : ∀ key, isPackableWire (kinds key).wire = true)
    (sound : state.Sound kinds) {event : Option (κ × List Value)}
    (step : state.Step kinds kIsLittleEndian event state') :
    state'.Sound kinds ∧ ∀ key, state'.stored kinds kIsLittleEndian key =
      state.stored kinds kIsLittleEndian key ++ ownElements key event.toList := by
  cases step with
  | @occurrence newChars owner occurrence values buffer heap spells fresh ran =>
      have absorbs := @Buffer.take_ends kIsLittleEndian _ _ _ _ (sound.settled owner) sound.valid
        fresh (packable owner) _ _ spells
      rw [ran] at absorbs
      refine ⟨sound.absorb absorbs, fun key => ?_⟩
      by_cases own : key = owner
      · subst own
        simpa [stored, ownElements] using absorbs.stored
      · have spared := (sound.settled key).spared absorbs.spares (sound.apart key owner own)
        simpa [stored, ownElements, own, Ne.symm own] using spared.2.2.1 kIsLittleEndian
  | @allocate newChars fresh bytes exponent occupied small =>
      refine ⟨sound.receive (sound.valid.allocate fresh small) occupied, fun key => ?_⟩
      simp [stored, Accumulators.receive, ownElements]
  | @write block memory listed changes =>
      obtain ⟨positive, held, differ⟩ := sound.others block listed
      have spares := Heap.spares_store sound.valid held changes
      refine ⟨⟨sound.valid, sound.settled, sound.apart, sound.others⟩, fun key => ?_⟩
      simpa [stored, ownElements] using
        ((sound.settled key).spared spares fun _ => differ key).2.2.1 kIsLittleEndian

theorem ownElements_append (key : κ) (events later : List (κ × List Value)) :
    ownElements key (events ++ later) = ownElements key events ++ ownElements key later :=
  List.flatMap_append

/-- A run from empty accumulators keeps the invariant, and every accumulator stores the elements of
its occurrences. -/
theorem Accumulators.Run.sound (packable : ∀ key, isPackableWire (kinds key).wire = true)
    {heap : Heap Byte} (valid : heap.ledger.Valid) {events : List (κ × List Value)}
    (run : Run kinds kIsLittleEndian { heap } events state) :
    state.Sound kinds ∧ ∀ key,
      state.stored kinds kIsLittleEndian key = ownElements key events := by
  induction run with
  | start =>
      exact ⟨⟨valid, fun key => Buffer.settled_empty _ _, fun _ _ _ array => absurd rfl array,
        nofun⟩, fun key => rfl⟩
  | next _ step ih =>
      obtain ⟨sound, stored⟩ := ih
      obtain ⟨sound', stored'⟩ := sound.step packable step
      refine ⟨sound', fun key => ?_⟩
      rw [stored' key, stored key, ownElements_append]

omit [DecidableEq κ] in
/-- A block with another address lies apart from the stored elements. -/
theorem Accumulators.Sound.region_apart (sound : state.Sound kinds) {key : κ} {ptr bytes : Nat}
    (held : state.heap.ledger.HandedOut ptr bytes) (differ : (state.buffers key).base ≠ ptr) :
    ((state.buffers key).region (kinds key)).Apart ⟨ptr, ptr + bytes⟩ := by
  have settled := sound.settled key
  by_cases unset : (state.buffers key).cap = 0
  · have empty : (state.buffers key).n = 0 := by
      have room := settled.room
      omega
    exact .inl (by simp [Buffer.region, empty, settled.unset unset])
  · exact ((settled.block unset).apart held sound.valid differ).mono
      ⟨le_rfl, Nat.add_le_add_left (Nat.mul_le_mul_right _ settled.room) _⟩ ⟨le_rfl, le_rfl⟩

omit [DecidableEq κ] in
/-- Stored elements of different accumulators lie apart. -/
theorem Accumulators.Sound.regions_apart (sound : state.Sound kinds) {key key' : κ}
    (differ : key ≠ key') :
    ((state.buffers key).region (kinds key)).Apart
      ((state.buffers key').region (kinds key')) := by
  have settled := sound.settled key'
  by_cases unset : (state.buffers key').cap = 0
  · have empty : (state.buffers key').n = 0 := by
      have room := settled.room
      omega
    exact .inr (by simp [Buffer.region, empty, settled.unset unset])
  · have elsewhere := (sound.apart key' key differ.symm unset).symm
    exact (sound.region_apart (settled.block unset) elsewhere).mono ⟨le_rfl, le_rfl⟩
      ⟨le_rfl, Nat.add_le_add_left (Nat.mul_le_mul_right _ settled.room) _⟩

/-- Every state of a run from empty accumulators keeps its promises. -/
theorem accumulators_keep (packable : ∀ key, isPackableWire (kinds key).wire = true)
    {heap : Heap Byte} (valid : heap.ledger.Valid) {events : List (κ × List Value)}
    (run : Accumulators.Run kinds kIsLittleEndian { heap } events state) :
    state.Keeps kinds kIsLittleEndian events := by
  obtain ⟨sound, stored⟩ := run.sound packable valid
  refine ⟨fun key => (sound.settled key).room, stored, fun key block met => ?_,
    fun key key' differ => sound.regions_apart differ,
    fun key newChars cap fresh positive enough => ?_,
    fun key newChars occurrence values fresh spells => ?_⟩
  · obtain ⟨-, held, differ⟩ := sound.others block met
    exact sound.region_apart held (differ key)
  · refine (@Buffer.reallocate_ends _ kIsLittleEndian _ _ _ (sound.settled key) sound.valid fresh
      _ positive enough).mono ?_ fun _ exhausted => exhausted
    rintro result ⟨-, room, -, same⟩
    exact ⟨room, same.trans (stored key)⟩
  · refine (@Buffer.take_ends kIsLittleEndian _ _ _ _ (sound.settled key) sound.valid fresh
      (packable key) _ _ spells).mono ?_ fun _ exhausted => exhausted
    intro result absorbs
    refine ⟨by rw [absorbs.stored, ← stored key]; rfl, fun block met => ?_⟩
    obtain ⟨positive, held, differ⟩ := sound.others block met
    exact (absorbs.spares.others _ _ positive held (differ key).symm).2.2

end Runs

/-- A field of varints and one of fixed width. -/
def sharedKinds (key : Bool) : Leaf := if key then .scalar .int32 else .scalar .fixed32

/-- A packed run, a block for something else, a single element of the other field, and a run that
has to move the first array. -/
theorem accumulators_keep_sample :
    ∃ state : Accumulators Bool, state.Keeps sharedKinds true
      [(true, [.w32 5, .w32 7]), (false, [.w32 1]), (true, [.w32 9])] := by
  have valid : Ledger.Valid { arena := Arena.seeded 0x1000 256 } :=
    .start (.seeded 0x1000 256 (by decide))
  have element {raw : BitVec 64} {b : Byte} (spells : EncodesVarint raw.toNat [b]) :
      EncodesElement (sharedKinds true) ((sharedKinds true).ofVarint raw) [b] :=
    .varint rfl spells
  have five := @element 5 5 ⟨by decide, by decide, by decide, by decide⟩
  have seven := @element 7 7 ⟨by decide, by decide, by decide, by decide⟩
  have nine := @element 9 9 ⟨by decide, by decide, by decide, by decide⟩
  have single : Occurrence.Spells (sharedKinds false) (.expanded (.i32 1) 0 []) _ := .expanded rfl
  have run := @Accumulators.Run.start _ _ sharedKinds true
    { heap := ⟨{ arena := Arena.seeded 0x1000 256 }, fun _ => 0⟩ }
  have packed := run.next (@Accumulators.Step.occurrence _ _ _ _ _ _ true _ _ _ _
    (.packed (.cons five (.cons seven .nil))) (Arena.fresh_none _) rfl)
  have other := packed.next (.allocate (Arena.fresh_none _) 8 3 (by decide) (by decide))
  have expanded := other.next
    (@Accumulators.Step.occurrence _ _ _ _ _ _ false _ _ _ _ single (Arena.fresh_none _) rfl)
  have moved := expanded.next (@Accumulators.Step.occurrence _ _ _ _ _ _ true _ _ _ _
    (.packed (.cons nine .nil)) (Arena.fresh_none _) rfl)
  exact ⟨_, accumulators_keep (by decide) valid moved⟩

end RapidProto
