import RapidProto.Layout.Covers
import RapidProto.Layout.Modes
import RapidProto.Mask
import RapidProto.Tree.Step

/-!
# Required fields

Every required field has a transient bit that the records of its own wire type set.  When the record
loop of a body has ended, the first field in declaration order whose bit is clear is reported; it is
the first one without such a record.
-/

namespace RapidProto

section Required

variable {schema : Schema} {plan : Plan} {allocator : Allocator} {id : MessageId}
  {decode : MessageId → Cell → List Byte → allocator.State →
    Outcome DecodeError (Cell × allocator.State)}
  {frame final : Frame allocator} {field : Field}

theorem singular_of_required (isRequired : field.presence = .required) :
    field.isRepeated = false := by
  simp [Field.isRepeated, isRequired]

/-- A record of a singular field with another wire type is skipped. -/
theorem step_mismatched (declared : field ∈ (schema.get id).fields)
    (singular : field.isRepeated = false) {tag : Tag} {value : Payload} {raw : List Byte}
    (same : tag.fieldNumber = field.number) (other : tag.wireType ≠ field.type.wire)
    (stepped : (treeBodies schema plan allocator decode id).step frame (.record tag value raw) =
      .ok final) : final = frame := by
  have found : (schema.get id).member? tag.fieldNumber = some (.plain field) := by
    rw [same]
    exact Message.member?_number (Message.plain_mem.mpr declared)
  have unpacked : ((Member.plain field).shape (plan.mode id)).packable = false := by
    simp [Shape.packable, Member.shape, singular]
  have routed := route_shapes (schema.get id) (plan.mode id) tag
  rw [found] at routed
  simp only [Member.wire, other, if_false, unpacked, Bool.false_eq_true, false_and, ite_self]
    at routed
  simp only [Bodies.step] at stepped
  rw [show (treeBodies schema plan allocator decode id).fields =
    (schema.get id).shapes (plan.mode id) from rfl, routed] at stepped
  cases stepped
  rfl

/-- A record sets the bit of a required field iff it is one of the field's own. -/
theorem step_required (declared : field ∈ (schema.get id).fields)
    (isRequired : field.presence = .required) (kept : plan.mode id field.number ≠ .drop)
    {item : Item}
    (stepped : (treeBodies schema plan allocator decode id).step frame item = .ok final) :
    final.req ((schema.get id).requiredBit field.number) =
      (frame.req ((schema.get id).requiredBit field.number) ||
        (item.valueOf (Member.plain field).tag).isSome) := by
  have singular := singular_of_required isRequired
  cases item with
  | badTag failure => cases stepped
  | badValue tag failure =>
      have whole := Bodies.isRecord_of_step stepped
      cases whole
  | record tag value raw =>
      by_cases own : tag = (Member.plain field).tag
      · subst own
        rw [(step_marks declared kept singular stepped).required isRequired]
        simp [Item.valueOf]
      rw [Item.valueOf, if_neg own, Option.isSome_none, Bool.or_false]
      by_cases same : tag.fieldNumber = field.number
      · have other : tag.wireType ≠ field.type.wire := by
          intro wire
          exact own (by rw [Member.tag, Member.number, Member.wire, ← same, ← wire])
        rw [step_mismatched declared singular same other stepped]
      cases found : (schema.get id).member? tag.fieldNumber with
      | none =>
          rw [step_undeclared found stepped, treeBodies]
          dsimp only
          split <;> rfl
      | some member =>
          obtain ⟨-, number⟩ := Message.mem_of_member? found
          exact congrArg Store.required
            ((step_keeps found stepped).store field.number (by rw [number]; exact Ne.symm same))

/-- After the records of a list, the bit of a required field tells whether one was its own. -/
theorem foldlM_required (declared : field ∈ (schema.get id).fields)
    (isRequired : field.presence = .required) (kept : plan.mode id field.number ≠ .drop)
    {inputs : List Item}
    (ran : inputs.foldlM (treeBodies schema plan allocator decode id).step frame = .ok final) :
    final.req ((schema.get id).requiredBit field.number) =
      (frame.req ((schema.get id).requiredBit field.number) ||
        inputs.any fun item => (item.valueOf (Member.plain field).tag).isSome) := by
  induction inputs generalizing frame with
  | nil =>
      cases ran
      simp
  | cons item inputs ih =>
      rw [List.foldlM_cons] at ran
      obtain ⟨next, stepped, ran⟩ := Outcome.bind_eq_ok.mp ran
      rw [ih ran, step_required declared isRequired kept stepped, List.any_cons, Bool.or_assoc]

end Required

/-! ## The words -/

/-- `rp_req`: one word for at most 64 required fields, and an array of words for more. -/
def requiredMask (total : Nat) : Mask :=
  if 64 < total then .array (List.replicate ((total + 63) / 64) 0) else .word 8 0

/-- What one record does to `rp_req`. -/
def Message.requireFrom (message : Message) (words : Mask) (item : Item) : Mask :=
  match message.required.find? fun field => (item.valueOf (Member.plain field).tag).isSome with
  | some field => words.set (message.requiredBit field.number)
  | none => words

/-- `rp_req` behind the records of a body. -/
def Message.requiredWords (message : Message) (body : List Byte) : Mask :=
  (items body.length body).foldl message.requireFrom (requiredMask message.required.length)

theorem requiredMask_capacity (total : Nat) : total ≤ (requiredMask total).capacity := by
  rw [requiredMask]
  split
  · simp only [Mask.capacity, List.length_replicate]
    omega
  · simp only [Mask.capacity]
    omega

theorem requiredMask_test (total : Nat) : (requiredMask total).test = fun _ => false := by
  funext bit
  rw [requiredMask]
  split
  · rw [Mask.test, Mask.word_test, List.getD_eq_getElem?_getD, List.getElem?_replicate]
    split <;> simp
  · rw [Mask.test, Mask.word_test]
    simp

theorem Message.requiredBit_lt {message : Message} {field : Field} (listed : field ∈ message.required) :
    message.requiredBit field.number < message.required.length := by
  have named : field.number ∈ message.required.map Field.number := List.mem_map_of_mem listed
  simpa [Message.requiredBit] using List.idxOf_lt_length_of_mem named

theorem Message.mem_required {message : Message} {field : Field} :
    field ∈ message.required ↔ field ∈ message.fields ∧ field.presence = .required := by
  simp [Message.required]

/-- Setting words as the records do leaves the bits of the fields that occurred. -/
theorem Message.foldl_requireFrom {message : Message} {field : Field}
    (listed : field ∈ message.required) (inputs : List Item) {words : Mask}
    (room : message.required.length ≤ words.capacity) :
    (inputs.foldl message.requireFrom words).test (message.requiredBit field.number) =
      (words.test (message.requiredBit field.number) ||
        inputs.any fun item => (item.valueOf (Member.plain field).tag).isSome) := by
  induction inputs generalizing words with
  | nil => simp
  | cons item inputs ih =>
      rw [List.foldl_cons, List.any_cons, Message.requireFrom]
      cases found : message.required.find? fun field =>
          (item.valueOf (Member.plain field).tag).isSome with
      | none =>
          have foreign := List.find?_eq_none.mp found field listed
          rw [ih room, Bool.not_eq_true _ |>.mp foreign, Bool.false_or]
      | some other =>
          have listed' := List.mem_of_find?_eq_some found
          have own := List.find?_some found
          have inside := (Message.requiredBit_lt listed').trans_le room
          rw [ih (by simpa using room), Mask.test_set inside]
          by_cases same : field.number = other.number
          · obtain rfl := field_eq_of_number (Message.mem_required.mp listed).1
              (Message.mem_required.mp listed').1 same
            simp only [Function.update_self, own, Bool.true_or, Bool.or_true]
          · have differ := Message.requiredBit_ne (Message.mem_required.mp listed').1
              (Message.mem_required.mp listed').2 same
            have foreign : item.valueOf (Member.plain field).tag = none := by
              cases item with
              | badTag failure => rfl
              | badValue tag failure => rfl
              | record tag value raw =>
                  rw [Item.valueOf, if_neg]
                  rintro rfl
                  simp only [Item.valueOf] at own
                  split at own
                  · rename_i tags
                    exact same (congrArg Tag.fieldNumber tags)
                  · cases own
            rw [Function.update_of_ne differ, foreign, Option.isSome_none, Bool.false_or]

/-! ## The check -/

/-- The field of the given number is the first required one without a record of its own. -/
def Message.FirstAbsent (message : Message) (body : List Byte) (number : Nat) : Prop :=
  ∃ earlier field later, message.required = earlier ++ field :: later ∧ field.number = number ∧
    recordsOf (Member.plain field).tag body = [] ∧
    ∀ other ∈ earlier, recordsOf (Member.plain other).tag body ≠ []

/-- Every required field has a record of its own. -/
def Message.AllPresent (message : Message) (body : List Byte) : Prop :=
  ∀ field ∈ message.required, recordsOf (Member.plain field).tag body ≠ []

theorem any_valueOf (wanted : Tag) (body : List Byte) :
    ((items body.length body).any fun item => (item.valueOf wanted).isSome) =
      decide (recordsOf wanted body ≠ []) := by
  rw [recordsOf]
  induction items body.length body with
  | nil => rfl
  | cons item inputs ih =>
      rw [List.any_cons, ih]
      cases found : item.valueOf wanted <;> simp [found]

section Check

variable {schema : Schema} {plan : Plan} {allocator : Allocator} {id : MessageId}
  {decode : MessageId → Cell → List Byte → allocator.State →
    Outcome DecodeError (Cell × allocator.State)}
  {out : Cell} {body : List Byte} {arena : allocator.State} {frame : Frame allocator}
  {rest : Cursor}
  (kept : ∀ field ∈ (schema.get id).required, plan.mode id field.number ≠ .drop)
  (looped : ((treeBodies schema plan allocator decode id).arms body.length).threadedLoop
    body.length { out, arena } body = .ok (frame, rest))
include kept looped

/-- When the loop has ended, the bit of a required field tells whether the field has a record. -/
theorem looped_required {field : Field} (listed : field ∈ (schema.get id).required) :
    frame.req ((schema.get id).requiredBit field.number) =
      decide (recordsOf (Member.plain field).tag body ≠ []) := by
  rw [Bodies.threadedLoop_eq_foldlM] at looped
  obtain ⟨reached, ran, same⟩ := Outcome.bind_eq_ok.mp looped
  cases same
  obtain ⟨declared, isRequired⟩ := Message.mem_required.mp listed
  rw [foldlM_required declared isRequired (kept field listed) ran, any_valueOf]
  simp

/-- The words hold what the model's bits hold. -/
theorem looped_words {field : Field} (listed : field ∈ (schema.get id).required) :
    ((schema.get id).requiredWords body).test ((schema.get id).requiredBit field.number) =
      frame.req ((schema.get id).requiredBit field.number) := by
  rw [looped_required kept looped listed, Message.requiredWords,
    Message.foldl_requireFrom listed _ (requiredMask_capacity _), any_valueOf, requiredMask_test]
  simp

theorem firstUnset_iff (number : Nat) :
    frame.firstUnset (schema.get id) = some number ↔
      (schema.get id).FirstAbsent body number := by
  have clear : ∀ field ∈ (schema.get id).required,
      (¬ frame.req ((schema.get id).requiredBit field.number) = true ↔
        recordsOf (Member.plain field).tag body = []) := by
    intro field listed
    rw [looped_required kept looped listed]
    simp
  rw [Frame.firstUnset, Option.map_eq_some_iff]
  constructor
  · rintro ⟨field, found, rfl⟩
    obtain ⟨unset, earlier, later, split, set⟩ := List.find?_eq_some_iff_append.mp found
    have inside : ∀ other ∈ earlier, other ∈ (schema.get id).required :=
      fun other met => by simp [split, met]
    refine ⟨earlier, field, later, split, rfl, (clear field (by simp [split])).mp (by simpa using
      unset), fun other met => ?_⟩
    rw [Ne, ← clear other (inside other met)]
    simpa using set other met
  · rintro ⟨earlier, field, later, split, rfl, absent, present⟩
    have inside : ∀ other ∈ earlier, other ∈ (schema.get id).required :=
      fun other met => by simp [split, met]
    refine ⟨field, List.find?_eq_some_iff_append.mpr ⟨?_, earlier, later, split, ?_⟩, rfl⟩
    · simpa using (clear field (by simp [split])).mpr absent
    · intro other met
      have set := present other met
      rw [Ne, ← clear other (inside other met)] at set
      simpa using set

theorem firstUnset_none :
    frame.firstUnset (schema.get id) = none ↔ (schema.get id).AllPresent body := by
  rw [Frame.firstUnset, Option.map_eq_none_iff, List.find?_eq_none, Message.AllPresent]
  refine forall₂_congr fun field listed => ?_
  rw [looped_required kept looped listed]
  simp

end Check

/-- Where the record loop of a body has ended, `MissingRequired` names the first required field
without a record of its own wire type, and the body is accepted iff there is none; at the root as at
every other level, whatever the number of required fields and the words that hold their bits. -/
theorem missingRequired_iff {schema : Schema} {symbols : SymbolTable schema} {spec : FieldModesSpec}
    {messages walk : List MessageId} {modes : FieldModes} {cutoff : Nat} {kIsLittleEndian : Bool}
    {plan : Plan} (resolved : resolveFieldModes symbols spec messages = .ok modes)
    (generated : plan = planOf schema (modes.options schema cutoff) walk kIsLittleEndian)
    (allocator : Allocator) {frames depth : Nat} (shallow : depth ≤ kMaxDecodeDepth)
    (id : MessageId) (out : Cell) (body : List Byte) (arena : allocator.State)
    {frame : Frame allocator} {rest : Cursor}
    (looped : ((treeBodies schema plan allocator
        (decodeInto schema plan allocator frames (depth + 1)) id).arms body.length).threadedLoop
      body.length { out, arena } body = .ok (frame, rest)) :
    (∀ number, decodeInto schema plan allocator (frames + 1) depth id out body arena =
        .fail (.missingRequired number) ↔ (schema.get id).FirstAbsent body number) ∧
    ((∃ result, decodeInto schema plan allocator (frames + 1) depth id out body arena =
        .ok result) ↔ (schema.get id).AllPresent body) ∧
    (∀ start base, allocator.create start (plan.extent id).1 (plan.extent id).2 =
        some (base, arena) → frames + 1 = kDecodeFrames → depth = 0 → out = .zero →
      body.length ≤ kUint32Max → arenaDecode schema plan allocator id body start =
        decodeInto schema plan allocator (frames + 1) depth id out body arena) ∧
    ∀ field ∈ (schema.get id).required,
      ((schema.get id).requiredWords body).test ((schema.get id).requiredBit field.number) =
        frame.req ((schema.get id).requiredBit field.number) := by
  have valid := resolveFieldModes_valid resolved
  have kept : ∀ field ∈ (schema.get id).required, plan.mode id field.number ≠ .drop := by
    intro field listed drop
    obtain ⟨declared, isRequired⟩ := Message.mem_required.mp listed
    obtain ⟨planner, -, same⟩ := planOf_eq schema (modes.options schema cutoff) walk kIsLittleEndian
    rw [generated, same] at drop
    exact (valid.mode_allows declared).1 drop isRequired
  have ended : decodeInto schema plan allocator (frames + 1) depth id out body arena =
      (frame.firstUnset (schema.get id)).elim
        (.ok (frame.finalize plan id (schema.get id), frame.arena))
        fun number => .fail (.missingRequired number) := by
    rw [decodeInto, if_neg (by omega)]
    dsimp only
    rw [looped]
    cases unset : frame.firstUnset (schema.get id) <;> simp [unset]
  refine ⟨fun number => ?_, ?_, ?_, fun field listed => looped_words kept looped listed⟩
  · rw [← firstUnset_iff kept looped, ended]
    cases frame.firstUnset (schema.get id) with
    | some found => simp
    | none => simp
  · rw [← firstUnset_none kept looped, ended]
    cases frame.firstUnset (schema.get id) with
    | some found => simp
    | none => simp
  · rintro start base created enough rfl rfl fits
    rw [arenaDecode, if_neg (by omega), created, enough]

/-- `message M { required int32 a = 1; required bool b = 2; }`. -/
def requiredPair : Schema where
  messages := [{
    fields := [⟨1, .leaf (.scalar .int32), .required⟩, ⟨2, .leaf (.scalar .bool), .required⟩] }]

/-- A body with the second field only. -/
theorem missingRequired_first :
    arenaDecode requiredPair (planOf requiredPair (({} : FieldModes).options requiredPair 16) [0] true)
      unboundedArena 0 [0x10, 0x01] (0 : Nat) = .fail (.missingRequired 1) := by
  have resolved : resolveFieldModes (unnamed requiredPair) {} [0] = .ok {} := rfl
  obtain ⟨names, -, root, -⟩ := @missingRequired_iff _ _ _ _ [0] _ 16 true _ resolved rfl
    unboundedArena (kDecodeFrames - 1) 0 (by decide) 0 .zero [0x10, 0x01] (8 : Nat) _ _ rfl
  rw [root (0 : Nat) (0 : Nat) rfl rfl rfl rfl (by decide)]
  exact (names 1).mpr ⟨[], _, _, rfl, rfl, rfl, by simp⟩

end RapidProto
