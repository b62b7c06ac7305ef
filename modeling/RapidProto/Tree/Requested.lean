import RapidProto.Growth
import RapidProto.Tree.Step

/-!
# What a repeated field requests from the arena

The accumulator of a repeated field follows the bookkeeping of a growing array: an expanded element
doubles a full one, and a packed run moves it to exactly the count plus the run's bound.  Packed
varints also give back what they did not use.
-/

namespace RapidProto

/-- An arena that also adds up the array elements handed out. -/
def Allocator.counting (allocator : Allocator) : Allocator where
  State := allocator.State × Nat
  create state size align :=
    (allocator.create state.1 size align).map fun (ptr, mem) => (ptr, (mem, state.2))
  allocateArray state size align count :=
    (allocator.allocateArray state.1 size align count).map fun (ptr, mem) =>
      (ptr, (mem, state.2 + count))
  shrinkLast state ptr oldBytes newBytes :=
    (allocator.shrinkLast state.1 ptr oldBytes newBytes, state.2)

namespace Growable

variable {allocator : Allocator} {acc acc' : Growable} {mem mem' : allocator.counting.State}
  {size align : Nat} {kind : Leaf} {run : List Byte}

/-- The bookkeeping of an accumulator. -/
def growth (acc : Growable) (mem : allocator.counting.State) : Growth := ⟨acc.n, acc.cap, mem.2⟩

theorem reallocate_growth {cap : Nat} (enough : acc.n ≤ cap)
    (ran : acc.reallocate size align cap mem = .ok (acc', mem')) :
    acc'.growth mem' = (acc.growth mem).grow cap := by
  rw [reallocate] at ran
  cases grown : allocator.allocateArray mem.1 size align cap with
  | none => simp [Allocator.counting, grown] at ran
  | some pair =>
      simp only [Allocator.counting, grown, Option.map_some] at ran
      obtain ⟨content, copied, -, -⟩ := @copyFrom_spec DecodeError acc acc.n 0
        { base := pair.1, n := acc.n, cap } (by simpa)
      rw [copied, Outcome.ok_bind] at ran
      cases ran
      rfl

/-- Taking a slot and filling it is one single element. -/
theorem slot_growth (_ : acc.n ≤ acc.cap) (ran : acc.slot size align mem = .ok (acc', mem')) :
    acc'.growth mem' = (acc.growth mem).after .single := by
  rw [slot] at ran
  by_cases full : acc.n = acc.cap
  · rw [if_pos full] at ran
    obtain ⟨⟨moved, mem''⟩, grew, same⟩ := Outcome.bind_eq_ok.mp ran
    cases same
    have enough : acc.n ≤ if acc.cap = 0 then 4 else acc.cap * 2 := by split <;> omega
    have grown := reallocate_growth enough grew
    simp only [growth, Growth.grow, Growth.mk.injEq] at grown
    have doubled : (acc.growth mem).double =
        (acc.growth mem).grow (if acc.cap = 0 then 4 else acc.cap * 2) := if_pos full
    simp only [Growth.after, doubled]
    simp [growth, Growth.grow, grown]
  · rw [if_neg full] at ran
    cases ran
    have kept : (acc.growth mem).double = acc.growth mem := if_neg full
    simp only [Growth.after, kept]
    rfl

theorem fillSlot_growth {ε : Type} {cell : Cell}
    (ran : (acc.fillSlot cell : Outcome ε Growable) = .ok acc') :
    acc'.growth mem = acc.growth mem := by
  rw [fillSlot, store] at ran
  split at ran
  · cases ran
    rfl
  · cases ran

theorem reserve_growth {count : Nat} (ran : acc.reserve size align count mem = .ok (acc', mem')) :
    acc'.growth mem' = (acc.growth mem).reserve count := by
  rw [reserve] at ran
  by_cases grows : count ≠ 0 ∧ acc.cap < acc.n + count
  · rw [if_pos grows] at ran
    rw [reallocate_growth (by omega) ran]
    exact (if_pos grows).symm
  · rw [if_neg grows] at ran
    cases ran
    exact (if_neg grows).symm

/-- A packed varint run reserves an element a byte and gives the rest back. -/
theorem fillVarints_growth (isVarint : kind.wire = .varint) (room : acc.n ≤ acc.cap)
    (ran : acc.fillVarints kind run mem = .ok (acc', mem')) :
    ∃ values, packedValues kind run = .ok values ∧
      acc'.growth mem' = (acc.growth mem).after (.run run.length values.length true) := by
  have refines := @fillVarints_refines allocator.counting mem acc acc.elements kind isVarint
    ⟨room, rfl⟩ run
  rw [ran] at refines
  obtain ⟨values, read, holds⟩ := refines
  refine ⟨values, Outcome.mapError_ofExcept_eq_ok.mp read, ?_⟩
  have count := holds.count
  rw [List.length_append, elements_length, List.length_map] at count
  rw [fillVarints] at ran
  obtain ⟨⟨buffer, mem''⟩, reserved, ran⟩ := Outcome.bind_eq_ok.mp ran
  obtain ⟨fill, -, ran⟩ := Outcome.bind_eq_ok.mp ran
  obtain ⟨stored, -, ran⟩ := Outcome.bind_eq_ok.mp ran
  have grown := reserve_growth reserved
  have requested := congrArg Growth.requested grown
  cases ran
  exact Growth.ext count count requested

theorem storeAll_cap {ε : Type} {index : Nat} {values : List Value}
    (ran : (storeAll index values acc : Outcome ε Growable) = .ok acc') : acc'.cap = acc.cap := by
  induction values generalizing acc index with
  | nil =>
      cases ran
      rfl
  | cons value values ih =>
      obtain ⟨stored, wrote, ran⟩ := Outcome.bind_eq_ok.mp ran
      rw [ih ran]
      rw [store] at wrote
      split at wrote
      · cases wrote
        rfl
      · cases wrote

theorem runLoop_fixedTurn_cap {span : Nat} {p : Cursor}
    (ran : runLoop (fixedTurn kind span) acc p = .ok acc') : acc'.cap = acc.cap := by
  revert ran
  refine runLoop_induct (fixedTurn_consuming kind span)
    (motive := fun acc p => runLoop (fixedTurn kind span) acc p = .ok acc' → acc'.cap = acc.cap)
    (fun acc p ih ran => ?_) acc p
  rw [runLoop_eq (fixedTurn_consuming kind span)] at ran
  cases turned : fixedTurn kind span acc p with
  | fail error => simp [turned] at ran
  | outside => simp [turned] at ran
  | spin => simp [turned] at ran
  | ok decision =>
      have taken := turned
      rw [fixedTurn] at taken
      split at taken
      · obtain ⟨⟨value, rest⟩, -, taken⟩ := Outcome.bind_eq_ok.mp taken
        obtain ⟨stored, wrote, taken⟩ := Outcome.bind_eq_ok.mp taken
        cases taken
        simp only [turned] at ran
        rw [ih _ _ turned ran]
        rw [store] at wrote
        split at wrote
        · cases wrote
          rfl
        · cases wrote
      · cases taken
        simp only [turned] at ran
        cases ran
        rfl

/-- The elements of a fixed-width run that ends in a whole element. -/
theorem packedFrom_fixed_length (isFixed : kind.IsFixed) {span turns : Nat} {p : Cursor}
    {values : List Value} (enough : p.length ≤ turns)
    (read : packedFrom kind span turns p = .ok values) : values.length * kind.size = p.length := by
  induction turns generalizing p values with
  | zero =>
      cases read
      simp at enough
      simp [enough]
  | succ turns ih =>
      rw [packedFrom] at read
      split at read
      · cases read
        simp_all
      rcases isFixed.payload_cases span p with ⟨-, failure, failed⟩ | ⟨whole, value, got⟩
      · simp [failed] at read
      · simp only [got] at read
        split at read
        · cases read
        · rename_i later found
          cases read
          have positive := isFixed.size_pos
          have rest := ih (by rw [List.length_drop]; omega) found
          rw [List.length_drop] at rest
          rw [List.length_cons, Nat.succ_mul, rest]
          omega

/-- A packed fixed-width run reserves its elements. -/
theorem fillFixed_growth (isFixed : kind.IsFixed) {kIsLittleEndian continues : Bool}
    (room : acc.n ≤ acc.cap)
    (ran : acc.fillFixed kIsLittleEndian kind run mem = .ok ((acc', mem'), continues)) :
    acc'.growth mem' = (acc.growth mem).after
      (.run (run.length / kind.size) (run.length / kind.size) false) := by
  have refines := @fillFixed_refines allocator.counting mem acc acc.elements kind isFixed
    kIsLittleEndian ⟨room, rfl⟩ run
  rw [ran] at refines
  obtain ⟨values, read, holds⟩ := refines
  have length : values.length = run.length / kind.size :=
    Nat.eq_div_of_mul_eq_left isFixed.size_pos.ne'
      (packedFrom_fixed_length isFixed le_rfl (Outcome.mapError_ofExcept_eq_ok.mp read))
  have count := holds.count
  rw [List.length_append, elements_length, List.length_map, length] at count
  rw [fillFixed] at ran
  obtain ⟨⟨buffer, mem''⟩, reserved, ran⟩ := Outcome.bind_eq_ok.mp ran
  have grown := reserve_growth reserved
  have capacity : acc'.cap = buffer.cap ∧ mem' = mem'' := by
    dsimp only at ran
    split at ran
    · obtain ⟨stored, wrote, same⟩ := Outcome.bind_eq_ok.mp ran
      have kept := storeAll_cap wrote
      cases same
      exact ⟨kept, rfl⟩
    · obtain ⟨stored, looped, same⟩ := Outcome.bind_eq_ok.mp ran
      cases same
      exact ⟨runLoop_fixedTurn_cap looped, rfl⟩
  refine Growth.ext count ?_ ?_
  · exact capacity.1.trans (congrArg Growth.capacity grown)
  · have requested := congrArg Growth.requested grown
    rw [capacity.2]
    exact requested

end Growable

/-! ## The occurrences of a field -/

/-- One occurrence of a packable field on the wire. -/
inductive Occurrence where
  /-- A single element, with the bytes of its value, of which there is at least one. -/
  | expanded (value : Payload) (first : Byte) (raw : List Byte)
  /-- A packed run. -/
  | packed (run : List Byte)

namespace Occurrence

/-- The record of an occurrence. -/
def item (field : Field) (kind : Leaf) : Occurrence → Item
  | expanded value first raw => .record ⟨field.number, kind.wire⟩ value (first :: raw)
  | packed run => .record ⟨field.number, .len⟩ (.len run) run

/-- The payload bytes of an occurrence. -/
def payload : Occurrence → Nat
  | expanded _ _ raw => raw.length + 1
  | packed run => run.length

/-- The number of elements of a packed varint run. -/
def elements (kind : Leaf) (run : List Byte) : Nat :=
  match packedValues kind run with
  | .ok values => values.length
  | .error _ => 0

/-- What an occurrence does to the field's array. -/
def event (kind : Leaf) : Occurrence → Growth.Event
  | expanded _ _ _ => .single
  | packed run =>
    if kind.wire = .varint then .run run.length (elements kind run) true
    else .run (run.length / kind.size) (run.length / kind.size) false

theorem event_fits (kind : Leaf) (occurrence : Occurrence) : (occurrence.event kind).Fits := by
  cases occurrence with
  | expanded value first raw => trivial
  | packed run =>
      rw [event]
      split
      · simp only [Growth.Event.Fits, elements]
        split
        · rename_i values read
          exact packedFrom_length read
        · exact Nat.zero_le _
      · exact le_rfl

theorem event_weight (kind : Leaf) (occurrence : Occurrence) :
    (occurrence.event kind).weight ≤ occurrence.payload := by
  cases occurrence with
  | expanded value first raw => simp [event, Growth.Event.weight, payload]
  | packed run =>
      rw [event]
      split
      · exact le_rfl
      · exact Nat.div_le_self _ _

end Occurrence

/-- A repeated field of the message whose elements may come in packed runs, kept by the plan. -/
structure PackableField (schema : Schema) (plan : Plan) (id : MessageId) (field : Field)
    (kind : Leaf) : Prop where
  declared : field ∈ (schema.get id).fields
  repeated : field.isRepeated = true
  type : field.type = .leaf kind
  wire : isPackableWire kind.wire = true
  kept : plan.mode id field.number ≠ .drop

section Field

variable {schema : Schema} {plan : Plan} {allocator : Allocator} {id : MessageId} {field : Field}
  {kind : Leaf} {decode : MessageId → Cell → List Byte → allocator.counting.State →
    Outcome DecodeError (Cell × allocator.counting.State)}
  {frame frame' : Frame allocator.counting}

theorem PackableField.fixed (packable : PackableField schema plan id field kind)
    (notVarint : kind.wire ≠ .varint) : kind.IsFixed :=
  (Leaf.packable_wire packable.wire).resolve_left notVarint

/-- The record of an occurrence, at the bodies of its field. -/
theorem PackableField.step_eq (packable : PackableField schema plan id field kind)
    (occurrence : Occurrence) :
    (treeBodies schema plan allocator.counting decode id).step frame (occurrence.item field kind) =
      match occurrence with
      | .expanded value _ _ =>
        frame.takeSlot field.number kind.size kind.align >>= fun taken =>
          taken.fill field.number (storeLeaf kind value) taken.arena
      | .packed run =>
        packedFill plan allocator.counting field kind frame run >>= fun result => .ok result.1 := by
  have listed := Message.plain_mem.mpr packable.declared
  have kept : ((Member.plain field).shape (plan.mode id)).dropped = false := by
    simp [Member.shape, packable.kept]
  have found := Message.member?_number listed
  cases occurrence with
  | expanded value first raw =>
      have routed := @route_member (schema.get id) (plan.mode id) _ listed kept
      simp only [Member.number, Member.wire, packable.type, FieldType.wire] at routed
      simp only [Occurrence.item, Bodies.step]
      rw [show (treeBodies schema plan allocator.counting decode id).fields =
        (schema.get id).shapes (plan.mode id) from rfl, routed]
      simp only [treeBodies, Member.shape_number, found, fieldBody, packable.type,
        packable.repeated, if_true, elementBody]
  | packed run =>
      have routed := route_shapes (schema.get id) (plan.mode id) ⟨field.number, .len⟩
      have notLen : kind.wire ≠ .len := by
        intro same
        have wire := packable.wire
        simp [isPackableWire, same] at wire
      have isPackable : ((Member.plain field).shape (plan.mode id)).packable = true := by
        simp [Member.shape, Shape.packable, packable.repeated, packable.type, FieldType.wire,
          packable.wire]
      simp only [Member.number] at found
      simp only [found, kept, Member.wire, packable.type, FieldType.wire, notLen.symm, isPackable,
        Bool.false_eq_true, if_false, and_self, if_true] at routed
      simp only [Occurrence.item, Bodies.step]
      rw [show (treeBodies schema plan allocator.counting decode id).fields =
        (schema.get id).shapes (plan.mode id) from rfl, routed]
      simp only [treeBodies, Member.shape_number, Member.number, found, packable.type, Payload.bytes]

/-- An occurrence does to the accumulator what its event does to the bookkeeping. -/
theorem PackableField.step_growth (packable : PackableField schema plan id field kind)
    (room : (frame.accs field.number).n ≤ (frame.accs field.number).cap) {occurrence : Occurrence}
    (stepped : (treeBodies schema plan allocator.counting decode id).step frame
      (occurrence.item field kind) = .ok frame') :
    (frame'.accs field.number).growth frame'.arena =
      ((frame.accs field.number).growth frame.arena).after (occurrence.event kind) := by
  rw [packable.step_eq] at stepped
  cases occurrence with
  | expanded value first raw =>
      obtain ⟨taken, slotted, filled⟩ := Outcome.bind_eq_ok.mp stepped
      obtain ⟨⟨acc, mem⟩, slot, same⟩ := Outcome.bind_eq_ok.mp slotted
      cases same
      obtain ⟨acc', wrote, same⟩ := Outcome.bind_eq_ok.mp filled
      cases same
      simp only [Frame.setAcc, Function.update_self] at wrote ⊢
      rw [Growable.fillSlot_growth wrote, Growable.slot_growth room slot]
      rfl
  | packed run =>
      obtain ⟨⟨filled, continues⟩, ran, same⟩ := Outcome.bind_eq_ok.mp stepped
      cases same
      rw [packedFill] at ran
      split at ran
      · rename_i isVarint
        obtain ⟨⟨acc, mem⟩, fill, same⟩ := Outcome.bind_eq_ok.mp ran
        cases same
        obtain ⟨values, read, grown⟩ := Growable.fillVarints_growth isVarint room fill
        simp only [Frame.setAcc, Function.update_self, grown, Occurrence.event, if_pos isVarint,
          Occurrence.elements, read]
      · rename_i notVarint
        obtain ⟨⟨⟨acc, mem⟩, continues'⟩, fill, same⟩ := Outcome.bind_eq_ok.mp ran
        cases same
        have grown := Growable.fillFixed_growth (packable.fixed notVarint) room fill
        simp only [Frame.setAcc, Function.update_self, grown, Occurrence.event, if_neg notVarint]

/-- Over a sequence of occurrences. -/
theorem PackableField.foldlM_growth (packable : PackableField schema plan id field kind)
    (room : (frame.accs field.number).n ≤ (frame.accs field.number).cap)
    {occurrences : List Occurrence}
    (ran : (occurrences.map (Occurrence.item field kind)).foldlM
      (treeBodies schema plan allocator.counting decode id).step frame = .ok frame') :
    (frame'.accs field.number).growth frame'.arena =
      (occurrences.map (Occurrence.event kind)).foldl Growth.after
        ((frame.accs field.number).growth frame.arena) := by
  induction occurrences generalizing frame with
  | nil =>
      cases ran
      rfl
  | cons occurrence occurrences ih =>
      rw [List.map_cons, List.foldlM_cons] at ran
      obtain ⟨middle, stepped, ran⟩ := Outcome.bind_eq_ok.mp ran
      have grown := packable.step_growth room stepped
      have room' : (middle.accs field.number).n ≤ (middle.accs field.number).cap := by
        have kept := @Growth.after_room _ _ (occurrence.event_fits kind)
          (show ((frame.accs field.number).growth frame.arena).count ≤ _ from room)
        rw [← grown] at kept
        exact kept
      rw [ih room' ran, grown, List.map_cons, List.foldl_cons]

end Field

/-- A field requests at most six elements for each byte of its payload, if each of its packed runs
is at least as long as what the field holds by then, or fits into the spare room and leaves none of
it behind. -/
theorem packed_requests_linear (schema : Schema) (plan : Plan) (allocator : Allocator)
    (id : MessageId) (field : Field) (kind : Leaf)
    (decode : MessageId → Cell → List Byte → allocator.counting.State →
      Outcome DecodeError (Cell × allocator.counting.State))
    (packable : PackableField schema plan id field kind) (frame frame' : Frame allocator.counting)
    (fresh : frame.accs field.number = {}) (occurrences : List Occurrence)
    (ran : (occurrences.map (Occurrence.item field kind)).foldlM
      (treeBodies schema plan allocator.counting decode id).step frame = .ok frame')
    (proportionate : ((frame.accs field.number).growth frame.arena).AllProportionate
      (occurrences.map (Occurrence.event kind))) :
    frame'.arena.2 ≤ frame.arena.2 + 6 * (occurrences.map Occurrence.payload).sum := by
  have grown := packable.foldlM_growth (by rw [fresh]) ran
  have bound := Growth.foldl_amortized (fun event met => ?_) ?_ proportionate
  · rw [← grown] at bound
    have start : ((frame.accs field.number).growth frame.arena).credit = 0 := by
      rw [fresh]
      rfl
    have weights : ((occurrences.map (Occurrence.event kind)).map Growth.Event.weight).sum ≤
        (occurrences.map Occurrence.payload).sum := by
      rw [List.map_map]
      exact List.sum_le_sum fun occurrence _ => occurrence.event_weight kind
    simp only [start] at bound
    simp only [Growable.growth] at bound
    omega
  · obtain ⟨occurrence, -, rfl⟩ := List.mem_map.mp met
    exact occurrence.event_fits kind
  · simp [Growable.growth, fresh]

/-! ## Short runs -/

/-- A message with a repeated number. -/
def numbersSchema : Schema where
  messages := [{ fields := [⟨1, .leaf (.scalar .int32), .repeated⟩] }]

/-- The repeated number. -/
def numbersField : Field := ⟨1, .leaf (.scalar .int32), .repeated⟩

theorem numbersField_packable :
    PackableField numbersSchema samplePlan 0 numbersField (.scalar .int32) where
  declared := List.mem_singleton_self _
  repeated := rfl
  type := rfl
  wire := rfl
  kept := nofun

/-- The locals at the start of a body, over an arena that counts. -/
def numbersFrame : Frame unboundedArena.counting where
  out := .zero
  arena := ((0 : Nat), 0)

/-- The occurrences of the repeated number, one after another. -/
def numbersRun (occurrences : List Occurrence) :
    Outcome DecodeError (Frame unboundedArena.counting) :=
  (occurrences.map (Occurrence.item numbersField (.scalar .int32))).foldlM
    (treeBodies numbersSchema samplePlan unboundedArena.counting
      (fun _ cell _ arena => .ok (cell, arena)) 0).step numbersFrame

theorem numbersRun_growth {occurrences : List Occurrence} {frame : Frame unboundedArena.counting}
    (ran : numbersRun occurrences = .ok frame) :
    (frame.accs 1).growth frame.arena =
      (occurrences.map (Occurrence.event (.scalar .int32))).foldl Growth.after {} :=
  numbersField_packable.foldlM_growth (show (0 : Nat) ≤ 0 from le_rfl) ran

/-- Two elements, then a packed run of four. -/
theorem numbersRun_linear :
    ∃ frame, numbersRun [.expanded (.varint 7) 0x07 [], .expanded (.varint 8) 0x08 [],
        .packed [0x01, 0x02, 0x03, 0x04]] = .ok frame ∧ frame.arena.2 = 10 ∧ frame.arena.2 ≤ 36 := by
  refine ⟨_, rfl, rfl, ?_⟩
  exact packed_requests_linear numbersSchema samplePlan unboundedArena 0 numbersField
    (.scalar .int32) (fun _ cell _ arena => .ok (cell, arena)) numbersField_packable numbersFrame _ rfl
    [.expanded (.varint 7) 0x07 [], .expanded (.varint 8) 0x08 [], .packed [0x01, 0x02, 0x03, 0x04]]
    rfl ⟨trivial, trivial, .inl (by decide), trivial⟩

/-- A packed run of a single one-byte number. -/
def oneNumber : Occurrence := .packed [0x01]

/-- Runs of one number are decoded. -/
theorem numbersRun_ones (runs : Nat) :
    ∃ frame, numbersRun (List.replicate runs oneNumber) = .ok frame := by
  induction runs with
  | zero => exact ⟨_, rfl⟩
  | succ runs ih =>
      obtain ⟨frame, ran⟩ := ih
      have grown := numbersRun_growth ran
      have events : (List.replicate runs oneNumber).map (Occurrence.event (.scalar .int32)) =
          List.replicate runs (.run 1 1 true) := by rw [List.map_replicate]; rfl
      obtain ⟨-, count, capacity⟩ := Growth.foldl_runs runs
      rw [events] at grown
      rw [← grown] at count capacity
      have room : (frame.accs 1).n ≤ (frame.accs 1).cap := (count.trans capacity.symm).le
      have never : unboundedArena.counting.NeverFails := by
        refine ⟨fun _ _ _ => ?_, fun _ _ _ _ _ => ?_⟩
        · simp [Allocator.counting, unboundedArena]
        · simp [Allocator.counting, unboundedArena]
      have filled := @Growable.fillVarints_refines unboundedArena.counting frame.arena
        (frame.accs 1) _ (.scalar .int32) rfl ⟨room, rfl⟩ [0x01]
      rw [numbersRun] at ran ⊢
      rw [List.replicate_succ', List.map_append, List.foldlM_append, ran]
      simp only [Outcome.ok_bind, List.map_cons, List.map_nil, List.foldlM_cons,
        numbersField_packable.step_eq, oneNumber, packedFill]
      cases fill : (frame.accs 1).fillVarints (.scalar .int32) [0x01] frame.arena with
      | ok result =>
          refine ⟨frame.setAcc 1 result.1 result.2, ?_⟩
          rw [if_pos (show (Leaf.scalar .int32).wire = .varint from rfl),
            show numbersField.number = 1 from rfl, fill]
          rfl
      | fail error =>
          rw [fill] at filled
          rcases filled with same | exhausted
          · cases same
          · exact absurd never exhausted.2
      | outside =>
          rw [fill] at filled
          exact filled.elim
      | spin =>
          rw [fill] at filled
          exact filled.elim

/-- No linear bound holds for all sequences: runs of one number request quadratically many
elements. -/
theorem packed_requests_quadratic :
    ¬ ∃ factor offset : Nat, ∀ occurrences frame, numbersRun occurrences = .ok frame →
      frame.arena.2 ≤ factor * (occurrences.map Occurrence.payload).sum + offset := by
  rintro ⟨factor, offset, bound⟩
  have many : ∃ runs, runs = 2 * (factor + offset) + 1 := ⟨_, rfl⟩
  obtain ⟨runs, size⟩ := many
  obtain ⟨frame, ran⟩ := numbersRun_ones runs
  have linear := bound _ _ ran
  have grown := numbersRun_growth ran
  obtain ⟨quadratic, -, -⟩ := Growth.foldl_runs runs
  rw [List.map_replicate] at grown
  rw [← show (oneNumber.event (.scalar .int32)) = .run 1 1 true from rfl, ← grown] at quadratic
  have total : ((List.replicate runs oneNumber).map Occurrence.payload).sum = runs := by
    simp [oneNumber, Occurrence.payload]
  rw [total] at linear
  have requested : 2 * frame.arena.2 = runs * (runs + 1) := quadratic
  have offsets : offset ≤ offset * runs := Nat.le_mul_of_pos_right offset (by omega)
  have split : runs * (runs + 1) = 2 * (factor * runs) + 2 * (offset * runs) + 2 * runs := by
    rw [show runs + 1 = 2 * (factor + offset) + 2 by omega]
    ring
  omega

end RapidProto
