import RapidProto.Reading.Records

/-!
# One record of a message

A record of a declared member changes only the part of the locals that the member owns, whatever the
state it is met in.  A singular field leaves its presence bit, its value bit or its required bit
behind.
-/

namespace RapidProto

section Bodies

variable {schema : Schema} {plan : Plan} {allocator : Allocator} {id : MessageId}
  {decode : MessageId → Cell → List Byte → allocator.State →
    Outcome DecodeError (Cell × allocator.State)}
  {frame middle final : Frame allocator} {owner : Option Nat}

theorem takeSlot_keeps {number size align : Nat}
    (taken : frame.takeSlot number size align = .ok final) :
    frame.Keeps schema plan id final number owner := by
  obtain ⟨⟨acc, arena⟩, -, same⟩ := Outcome.bind_eq_ok.mp taken
  cases same
  exact Frame.Keeps.setAcc acc arena

theorem fill_keeps {number : Nat} {cell : Cell} {arena : allocator.State}
    (filled : frame.fill number cell arena = .ok final) :
    frame.Keeps schema plan id final number owner := by
  obtain ⟨acc, -, same⟩ := Outcome.bind_eq_ok.mp filled
  cases same
  exact Frame.Keeps.setAcc acc arena

/-! ## The bodies -/

/-- What a body that ran leaves behind for the field it belongs to. -/
structure Marks (schema : Schema) (plan : Plan) (id : MessageId) (field : Field) (value : Payload)
    (frame frame' : Frame allocator) : Prop where
  /-- Nothing else changes. -/
  keeps : frame.Keeps schema plan id frame' field.number none
  /-- A required field has its transient bit set. -/
  required : field.presence = .required →
    frame'.req ((schema.get id).requiredBit field.number) = true
  /-- A field with a presence bit has it set. -/
  present : plan.needsPresence id field = true →
    frame'.out.mask (plan.bitIndex id (schema.get id) (.presence field.number)) = true
  /-- A field whose storage stands for its presence is stored. -/
  stored : field.isRepeated = false →
    (plan.kind id field = .pointerSubMsg → ∃ object, frame'.out.slot field.number = .ptr object) ∧
      (plan.kind id field = .raw → frame'.out.slot field.number = makeString value.bytes)
  /-- A bool's value bit is the value read. -/
  value : Plan.needsValue field = true →
    frame'.out.mask (plan.bitIndex id (schema.get id) (.value field.number)) =
      decide ((Leaf.scalar .bool).convert value = .flag true)

variable {field : Field} {value : Payload}

/-- `emit_presence_set` marks the field whatever was stored before. -/
theorem Marks.setPresence (declared : field ∈ (schema.get id).fields)
    (kept : plan.mode id field.number ≠ .drop)
    (keeps : frame.Keeps schema plan id middle field.number none)
    (read : Plan.needsValue field = true →
      middle.out.mask (plan.bitIndex id (schema.get id) (.value field.number)) =
        decide ((Leaf.scalar .bool).convert value = .flag true))
    (stored : field.isRepeated = false →
      (plan.kind id field = .pointerSubMsg →
        ∃ object, middle.out.slot field.number = .ptr object) ∧
      (plan.kind id field = .raw → middle.out.slot field.number = makeString value.bytes)) :
    Marks schema plan id field value frame (middle.setPresence schema plan id field) where
  keeps := keeps.trans (Frame.Keeps.setPresence declared kept)
  required := Frame.setPresence_required
  present := Frame.setPresence_present
  value needed := by
    rw [Frame.setPresence_value declared kept]
    exact read needed
  stored singular := by
    rw [Frame.setPresence_slot]
    exact stored singular

/-- A leaf is neither behind a pointer nor raw. -/
theorem kind_leaf {kind : Leaf} (type : field.type = .leaf kind) :
    plan.kind id field ≠ .pointerSubMsg ∧ plan.kind id field ≠ .raw := by
  rw [Plan.kind, type]
  dsimp only
  split
  · simp
  · split <;> simp

theorem singularBody_marks {kind : Leaf} (type : field.type = .leaf kind)
    (declared : field ∈ (schema.get id).fields) (kept : plan.mode id field.number ≠ .drop)
    (ran : (singularBody schema plan allocator id field kind).after frame value = .ok final) :
    Marks schema plan id field value frame final := by
  simp only [singularBody] at ran
  have elsewhere := @kind_leaf plan id field kind type
  split at ran
  · rename_i needed
    cases ran
    have bool : kind = .scalar .bool := by
      simp only [Plan.needsValue, type, FieldType.leaf.injEq, decide_eq_true_eq] at needed
      exact needed.1
    subst bool
    refine Marks.setPresence declared kept
      (Frame.Keeps.setMask (Plan.value_allocated declared kept needed) (.inr rfl) _) (fun _ => ?_)
      fun _ => ⟨fun pointer => absurd pointer elsewhere.1, fun raw => absurd raw elsewhere.2⟩
    simp
  · rename_i unneeded
    cases ran
    exact Marks.setPresence declared kept (Frame.Keeps.setSlot _ frame.arena)
      (fun needed => absurd needed unneeded)
      fun _ => ⟨fun pointer => absurd pointer elsewhere.1, fun raw => absurd raw elsewhere.2⟩

theorem needsValue_message {target : MessageId} {delimited : Bool}
    (type : field.type = .message target delimited) : Plan.needsValue field = false := by
  simp [Plan.needsValue, type]

theorem messageBody_marks {target : MessageId} {delimited : Bool}
    (type : field.type = .message target delimited) (declared : field ∈ (schema.get id).fields)
    (kept : plan.mode id field.number ≠ .drop) (decoded : plan.kind id field ≠ .raw)
    (before : (messageBody schema plan allocator decode id field target).before frame = .ok middle)
    (ran : (messageBody schema plan allocator decode id field target).after middle value =
      .ok final) :
    Marks schema plan id field value frame final := by
  simp only [messageBody] at before ran
  split at before
  · cases before
  cases before
  have marks : ∀ content arena,
      (plan.kind id field = .pointerSubMsg → ∃ object, content = .ptr object) →
      Marks schema plan id field value frame
        ({ frame with out := frame.out.setSlot field.number content, arena }.setPresence
          schema plan id field) := fun content arena behind =>
    Marks.setPresence declared kept (Frame.Keeps.setSlot content arena)
      (fun needed => by simp [needsValue_message type] at needed)
      fun _ => ⟨by simpa using behind, fun raw => absurd raw decoded⟩
  split at ran
  · rename_i inlined
    obtain ⟨⟨content, arena⟩, -, same⟩ := Outcome.bind_eq_ok.mp ran
    cases same
    refine marks content arena fun pointer => ?_
    simp only [Plan.kind, type, inlined, if_true] at pointer
    split at pointer
    · cases pointer
    · split at pointer <;> cases pointer
  · obtain ⟨⟨content, arena⟩, behind, same⟩ := Outcome.bind_eq_ok.mp ran
    cases same
    refine marks content arena fun _ => ?_
    rw [decodeBehind] at behind
    split at behind
    · cases behind
    · obtain ⟨⟨object, _⟩, -, same⟩ := Outcome.bind_eq_ok.mp behind
      cases same
      exact ⟨object, rfl⟩

theorem elementBody_keeps (before : (elementBody plan allocator decode field).before frame =
      .ok middle)
    (ran : (elementBody plan allocator decode field).after middle value = .ok final) :
    frame.Keeps schema plan id final field.number owner := by
  cases type : field.type with
  | leaf kind =>
      simp only [elementBody, type] at before ran
      exact (takeSlot_keeps before).trans (fill_keeps ran)
  | message target delimited =>
      simp only [elementBody, type] at before ran
      obtain ⟨blank, filled, ran⟩ := Outcome.bind_eq_ok.mp ran
      obtain ⟨⟨content, arena⟩, -, ran⟩ := Outcome.bind_eq_ok.mp ran
      exact ((takeSlot_keeps before).trans (fill_keeps filled)).trans (fill_keeps ran)

theorem rawBody_marks {target : MessageId} {delimited : Bool}
    (type : field.type = .message target delimited) (declared : field ∈ (schema.get id).fields)
    (kept : plan.mode id field.number ≠ .drop) (raw : plan.kind id field = .raw)
    (before : (rawBody schema plan allocator id field).before frame = .ok middle)
    (ran : (rawBody schema plan allocator id field).after middle value = .ok final) :
    Marks schema plan id field value frame final := by
  simp only [rawBody] at before ran
  split at before
  · cases before
  cases before
  have unvalued : ∀ other : Frame allocator, Plan.needsValue field = true →
      other.out.mask (plan.bitIndex id (schema.get id) (.value field.number)) =
        decide ((Leaf.scalar .bool).convert value = .flag true) :=
    fun _ needed => by simp [needsValue_message type] at needed
  have direct : plan.kind id field ≠ .pointerSubMsg := by simp [raw]
  split at ran
  · rename_i repeated
    obtain ⟨slotted, taken, ran⟩ := Outcome.bind_eq_ok.mp ran
    obtain ⟨filled, filling, same⟩ := Outcome.bind_eq_ok.mp ran
    cases same
    exact Marks.setPresence declared kept ((takeSlot_keeps taken).trans (fill_keeps filling))
      (unvalued _) fun singular => by simp [repeated] at singular
  · cases ran
    exact Marks.setPresence declared kept (Frame.Keeps.setSlot _ frame.arena) (unvalued _)
      fun _ => ⟨fun pointer => absurd pointer direct, by simp⟩

theorem mapBody_keeps {map : MapField}
    (ran : (mapBody plan allocator decode id map).after frame value = .ok final) :
    frame.Keeps schema plan id final map.number owner := by
  obtain ⟨slotted, taken, ran⟩ := Outcome.bind_eq_ok.mp ran
  obtain ⟨blank, filled, ran⟩ := Outcome.bind_eq_ok.mp ran
  obtain ⟨⟨entry, rest⟩, -, ran⟩ := Outcome.bind_eq_ok.mp ran
  exact ((takeSlot_keeps taken).trans (fill_keeps filled)).trans (fill_keeps ran)

theorem packedFill_keeps {kind : Leaf} {run : List Byte} {continues : Bool}
    (ran : packedFill plan allocator field kind frame run = .ok (final, continues)) :
    frame.Keeps schema plan id final field.number owner := by
  rw [packedFill] at ran
  split at ran
  · obtain ⟨⟨acc, arena⟩, -, same⟩ := Outcome.bind_eq_ok.mp ran
    cases same
    exact Frame.Keeps.setAcc acc arena
  · obtain ⟨⟨⟨acc, arena⟩, continues'⟩, -, same⟩ := Outcome.bind_eq_ok.mp ran
    cases same
    exact Frame.Keeps.setAcc acc arena

/-- A oneof member writes the union and the discriminant of its oneof. -/
theorem memberBody_writes {oneof index : Nat}
    (before : (memberBody plan allocator decode id oneof index field).before frame = .ok middle)
    (ran : (memberBody plan allocator decode id oneof index field).after middle value =
      .ok final) :
    frame.Keeps schema plan id final field.number (some oneof) ∧
      final.out.case oneof = BitVec.ofNat 8 index ∧ final.out.active oneof = index := by
  cases type : field.type with
  | leaf kind =>
      simp only [memberBody, type] at before ran
      cases before
      cases ran
      exact ⟨Frame.Keeps.setUnion oneof index _ frame.arena, by simp, by simp⟩
  | message target delimited =>
      simp only [memberBody, type] at before ran
      split at before
      · cases before
      cases before
      split at ran
      · obtain ⟨⟨content, arena⟩, -, same⟩ := Outcome.bind_eq_ok.mp ran
        cases same
        exact ⟨Frame.Keeps.setUnion oneof index content arena, by simp, by simp⟩
      · obtain ⟨⟨content, arena⟩, -, same⟩ := Outcome.bind_eq_ok.mp ran
        cases same
        exact ⟨Frame.Keeps.setUnion oneof index content arena, by simp, by simp⟩

/-! ## The step -/

/-- The member's records are decoded. -/
def Member.Kept (plan : Plan) (id : MessageId) : Member → Prop
  | .plain field => plan.mode id field.number ≠ .drop
  | .mapped map => plan.mode id map.number ≠ .drop
  | .choice _ _ _ => True

theorem Member.kept_iff {member : Member} :
    member.Kept plan id ↔ (member.shape (plan.mode id)).dropped = false := by
  cases member <;> simp [Member.Kept, Member.shape]

/-- A body that ran has marked its field and changed nothing else. -/
theorem fieldBody_marks (declared : field ∈ (schema.get id).fields)
    (kept : plan.mode id field.number ≠ .drop) (singular : field.isRepeated = false)
    (before : (fieldBody schema plan allocator decode id field).before frame = .ok middle)
    (ran : (fieldBody schema plan allocator decode id field).after middle value = .ok final) :
    Marks schema plan id field value frame final := by
  rw [fieldBody] at before ran
  cases type : field.type with
  | leaf kind =>
      simp only [type, singular, Bool.false_eq_true, if_false] at before ran
      cases before
      exact singularBody_marks type declared kept ran
  | message target delimited =>
      simp only [type] at before ran
      cases storage : plan.kind id field with
      | raw =>
          simp only [storage] at before ran
          exact rawBody_marks type declared kept storage before ran
      | repeated =>
          simp only [Plan.kind, type, singular, Bool.false_eq_true, if_false] at storage
          split at storage
          · cases storage
          split at storage <;> cases storage
      | inlineScalar | inlineEnum | borrowString | inlineFixedSubMsg | pointerSubMsg | map =>
          simp only [storage] at before ran
          exact messageBody_marks type declared kept (by simp [storage]) before ran

theorem fieldBody_keeps (declared : field ∈ (schema.get id).fields)
    (kept : plan.mode id field.number ≠ .drop)
    (before : (fieldBody schema plan allocator decode id field).before frame = .ok middle)
    (ran : (fieldBody schema plan allocator decode id field).after middle value = .ok final) :
    frame.Keeps schema plan id final field.number none := by
  cases repeated : field.isRepeated with
  | false => exact (fieldBody_marks declared kept repeated before ran).keeps
  | true =>
      rw [fieldBody] at before ran
      cases type : field.type with
      | leaf kind =>
          simp only [type, repeated, if_true] at before ran
          exact elementBody_keeps before ran
      | message target delimited =>
          simp only [type] at before ran
          by_cases raw : plan.mode id field.number = .raw
          · have storage : plan.kind id field = .raw := by simp [Plan.kind, type, raw]
            simp only [storage] at before ran
            exact (rawBody_marks type declared kept storage before ran).keeps
          · simp only [Plan.kind, type, raw, repeated, if_false, if_true] at before ran
            exact elementBody_keeps before ran

/-- The native body of a member changes the member's part only. -/
theorem native_keeps {member : Member} (declared : member ∈ (schema.get id).members)
    (kept : member.Kept plan id)
    (before : ((treeBodies schema plan allocator decode id).native
      (member.shape (plan.mode id))).before frame = .ok middle)
    (ran : ((treeBodies schema plan allocator decode id).native
      (member.shape (plan.mode id))).after middle value = .ok final) :
    frame.Keeps schema plan id final member.number member.owner := by
  simp only [treeBodies, Member.shape_number, Message.member?_number declared] at before ran
  cases member with
  | plain field => exact fieldBody_keeps (Message.plain_mem.mp declared) kept before ran
  | mapped map =>
      cases before
      exact mapBody_keeps ran
  | choice oneof index field => exact (memberBody_writes before ran).1

/-- The packed body of a field changes the field's part only. -/
theorem packed_keeps {member : Member} (declared : member ∈ (schema.get id).members)
    {run : List Byte} {continues : Bool}
    (ran : (treeBodies schema plan allocator decode id).packed (member.shape (plan.mode id)) frame
      run = .ok (final, continues)) :
    frame.Keeps schema plan id final member.number member.owner := by
  simp only [treeBodies, Member.shape_number, Message.member?_number declared] at ran
  cases member with
  | plain field =>
      dsimp only at ran
      split at ran
      · exact packedFill_keeps ran
      · cases ran
        exact Frame.Keeps.refl
  | mapped map =>
      cases ran
      exact Frame.Keeps.refl
  | choice oneof index field =>
      cases ran
      exact Frame.Keeps.refl

variable {tag : Tag} {raw : List Byte}

/-- A record of a declared member changes the member's part of the locals only. -/
theorem step_keeps {member : Member}
    (found : (schema.get id).member? tag.fieldNumber = some member)
    (stepped : (treeBodies schema plan allocator decode id).step frame (.record tag value raw) =
      .ok final) :
    frame.Keeps schema plan id final member.number member.owner := by
  obtain ⟨declared, -⟩ := Message.mem_of_member? found
  have routed := route_shapes (schema.get id) (plan.mode id) tag
  rw [found] at routed
  simp only [Bodies.step] at stepped
  rw [show (treeBodies schema plan allocator decode id).fields =
    (schema.get id).shapes (plan.mode id) from rfl, routed] at stepped
  dsimp only at stepped
  by_cases dropped : (member.shape (plan.mode id)).dropped = true
  · rw [if_pos dropped] at stepped
    cases stepped
    exact Frame.Keeps.refl
  rw [if_neg dropped] at stepped
  split at stepped
  · rename_i shape split
    split at split
    · cases split
      obtain ⟨middle, before, ran⟩ := Outcome.bind_eq_ok.mp stepped
      exact native_keeps declared (Member.kept_iff.mpr (by simpa using dropped)) before ran
    · split at split <;> cases split
  · rename_i shape split
    split at split
    · cases split
    split at split
    · cases split
      obtain ⟨⟨middle, continues⟩, ran, same⟩ := Outcome.bind_eq_ok.mp stepped
      cases same
      exact packed_keeps declared ran
    · cases split
  · cases stepped
    exact Frame.Keeps.refl
  · rename_i split
    split at split
    · cases split
    split at split <;> cases split

/-- A record of a singular field's own wire type marks the field. -/
theorem step_marks (declared : field ∈ (schema.get id).fields)
    (kept : plan.mode id field.number ≠ .drop) (singular : field.isRepeated = false)
    (stepped : (treeBodies schema plan allocator decode id).step frame
      (.record (Member.plain field).tag value raw) = .ok final) :
    Marks schema plan id field value frame final := by
  have listed := Message.plain_mem.mpr declared
  have routed := @route_member (schema.get id) (plan.mode id) _ listed
    (Member.kept_iff.mp (show (Member.plain field).Kept plan id from kept))
  simp only [Bodies.step] at stepped
  rw [show (treeBodies schema plan allocator decode id).fields =
    (schema.get id).shapes (plan.mode id) from rfl, Member.tag, routed] at stepped
  obtain ⟨middle, before, ran⟩ := Outcome.bind_eq_ok.mp stepped
  simp only [treeBodies, Member.shape_number, Message.member?_number listed] at before ran
  exact fieldBody_marks declared kept singular before ran

/-- A record of a oneof member's own wire type writes the discriminant of its oneof. -/
theorem step_writes {oneof index : Nat}
    (declared : .choice oneof index field ∈ (schema.get id).members)
    (stepped : (treeBodies schema plan allocator decode id).step frame
      (.record (Member.choice oneof index field).tag value raw) = .ok final) :
    final.out.case oneof = BitVec.ofNat 8 index ∧ final.out.active oneof = index := by
  have routed := @route_member (schema.get id) (plan.mode id) _ declared rfl
  simp only [Bodies.step] at stepped
  rw [show (treeBodies schema plan allocator decode id).fields =
    (schema.get id).shapes (plan.mode id) from rfl, Member.tag, routed] at stepped
  obtain ⟨middle, before, ran⟩ := Outcome.bind_eq_ok.mp stepped
  simp only [treeBodies, Member.shape_number, Message.member?_number declared] at before ran
  exact (@memberBody_writes schema plan allocator id decode _ _ _ _ _ _ _ before ran).2

/-- A record with an undeclared number changes the unknown-fields bit only. -/
theorem step_undeclared (unknown : (schema.get id).member? tag.fieldNumber = none)
    (stepped : (treeBodies schema plan allocator decode id).step frame (.record tag value raw) =
      .ok final) : final = (treeBodies schema plan allocator decode id).unknownBefore frame := by
  have routed := route_shapes (schema.get id) (plan.mode id) tag
  rw [unknown] at routed
  simp only [Bodies.step] at stepped
  rw [show (treeBodies schema plan allocator decode id).fields =
    (schema.get id).shapes (plan.mode id) from rfl, routed] at stepped
  cases stepped
  rfl

end Bodies

/-! ## The answers of the accessors -/

/-- What a reader would see if the message ended here. -/
def Frame.answers {allocator : Allocator} (schema : Schema) (plan : Plan) (id : MessageId)
    (frame : Frame allocator) : Behaviour :=
  (frame.finalize plan id (schema.get id)).behaviour schema plan (.message id)

/-- The accessor that reads a member. -/
def Member.accessor : Member → Step
  | .plain field => .field field.number
  | .mapped map => .field map.number
  | .choice oneof _ _ => .oneof oneof

section Answers

variable {schema : Schema} {plan : Plan} {allocator : Allocator} {id : MessageId}
  {frame frame' : Frame allocator} {step : Step} {path : List Step}

/-- An answer is that of the accessor called first. -/
theorem Frame.answers_cons (frame : Frame allocator) :
    frame.answers schema plan id (step :: path) =
      match enter schema plan (.message id) (frame.finalize plan id (schema.get id)) step with
      | some result => seenAs schema plan result path
      | none => .invalid :=
  look_cons schema plan (by nofun) _ step path

@[simp] theorem Frame.finalize_mask (frame : Frame allocator) :
    (frame.finalize plan id (schema.get id)).mask = frame.out.mask := (foldl_setSlot _ _ _).2.1

@[simp] theorem Frame.finalize_case (frame : Frame allocator) :
    (frame.finalize plan id (schema.get id)).case = frame.out.case := (foldl_setSlot _ _ _).2.2.1

@[simp] theorem Frame.finalize_active (frame : Frame allocator) :
    (frame.finalize plan id (schema.get id)).active = frame.out.active :=
  (foldl_setSlot _ _ _).2.2.2.1

@[simp] theorem Frame.finalize_union (frame : Frame allocator) :
    (frame.finalize plan id (schema.get id)).union = frame.out.union :=
  (foldl_setSlot _ _ _).2.2.2.2

/-- A plain field or map that keeps its part of the locals keeps its storage. -/
theorem finalize_slot_eq {member : Member} (declared : member ∈ (schema.get id).members)
    (kept : plan.mode id member.number ≠ .drop) (own : member.owner = none)
    (same : frame'.store schema plan id member.number = frame.store schema plan id member.number) :
    (frame'.finalize plan id (schema.get id)).slot member.number =
      (frame.finalize plan id (schema.get id)).slot member.number := by
  have acc := congrArg Store.acc same
  have slot := congrArg Store.slot same
  simp only [Frame.store] at acc slot
  cases member with
  | plain field =>
      have listed := Message.plain_mem.mp declared
      simp only [Member.number] at kept acc slot ⊢
      cases repeated : field.isRepeated with
      | true =>
          have array : field.number ∈
              ((schema.get id).fields.filter Field.isRepeated).map Field.number ++
                (schema.get id).maps.map MapField.number :=
            List.mem_append_left _ (List.mem_map_of_mem (by simp [listed, repeated]))
          rw [finalize_slot_array kept array, finalize_slot_array kept array, acc]
      | false =>
          rw [finalize_slot_singular listed repeated, finalize_slot_singular listed repeated, slot]
  | mapped map =>
      simp only [Member.number] at kept acc ⊢
      have array : map.number ∈
          ((schema.get id).fields.filter Field.isRepeated).map Field.number ++
            (schema.get id).maps.map MapField.number :=
        List.mem_append_right _ (List.mem_map_of_mem (Message.mapped_mem.mp declared))
      rw [finalize_slot_array kept array, finalize_slot_array kept array, acc]
  | choice oneof index field => cases own

/-- What a member keeps of the locals, the accessors of the others answer from. -/
theorem Frame.Keeps.answers {member : Member} (declared : member ∈ (schema.get id).members)
    (keeps : frame.Keeps schema plan id frame' member.number member.owner)
    (other : step ≠ member.accessor) :
    frame'.answers schema plan id (step :: path) = frame.answers schema plan id (step :: path) := by
  rw [Frame.answers_cons, Frame.answers_cons]
  suffices same : enter schema plan (.message id) (frame'.finalize plan id (schema.get id)) step =
      enter schema plan (.message id) (frame.finalize plan id (schema.get id)) step by rw [same]
  cases step with
  | field number =>
      simp only [enter]
      split
      · rfl
      rename_i kept
      cases found : (schema.get id).member? number with
      | none => rfl
      | some read =>
          obtain ⟨declared', rfl⟩ := Message.mem_of_member? found
          cases own : read.owner with
          | some oneof =>
              cases read with
              | choice _ _ _ => rfl
              | plain _ => cases own
              | mapped _ => cases own
          | none =>
              have differ : read.number ≠ member.number := by
                intro same
                cases Message.member_inj declared' declared same
                cases member with
                | plain _ => exact other rfl
                | mapped _ => exact other rfl
                | choice _ _ _ => cases own
              have part := keeps.store _ differ
              have slot := finalize_slot_eq declared' kept own part
              have present := congrArg Store.present part
              have value := congrArg Store.value part
              simp only [Frame.store] at present value
              cases read with
              | choice _ _ _ => rfl
              | plain field =>
                  simp only [Member.number] at slot present value
                  simp only [plainAccessor, Frame.finalize_mask, slot, present, value]
              | mapped map =>
                  simp only [Member.number] at slot
                  simp only [Member.number, slot]
  | oneof oneof =>
      have differ : member.owner ≠ some oneof := by
        intro same
        cases member with
        | plain _ => cases same
        | mapped _ => cases same
        | choice _ _ _ =>
            cases same
            exact other rfl
      have part := keeps.choice oneof differ
      simp only [Frame.choiceStore, ChoiceStore.mk.injEq] at part
      simp only [enter, oneofAccessor, Frame.finalize_case, Frame.finalize_active,
        Frame.finalize_union, part]
  | unknownFields =>
      simp only [enter]
      split
      · rename_i tracked
        simp only [Frame.finalize_mask, keeps.unknown tracked]
      · rfl
  | elem _ | find _ | key | value | held => rfl

/-- A marked field with explicit presence answers with something. -/
theorem Marks.answers_present {field : Field} {value : Payload}
    (marks : Marks schema plan id field value frame frame')
    (declared : field ∈ (schema.get id).fields) (kept : plan.mode id field.number ≠ .drop)
    (explicit : field.presence = .explicit) (short : value.bytes.length ≤ kUint32Max) :
    frame'.answers schema plan id [.field field.number] ≠ .absent := by
  have singular : field.isRepeated = false := by simp [Field.isRepeated, explicit]
  have found := Message.member?_number (Message.plain_mem.mpr declared)
  rw [Member.number] at found
  have slot := @finalize_slot_singular schema plan allocator id frame' field declared singular
  rw [Frame.answers_cons]
  simp only [enter, kept, if_false, found]
  cases type : field.type with
  | leaf kind =>
      have needed : plan.needsPresence id field = true := by
        simp only [Plan.needsPresence, explicit, Plan.kind, type, singular]
        cases kind with
        | enum => rfl
        | scalar scalar => cases scalar <;> rfl
      simp only [plainAccessor, type, singular, Frame.finalize_mask, marks.present needed]
      simp only [Bool.false_eq_true, if_false, not_true_eq_false, and_false]
      split
      · rw [seenAs, behaviour_known]
        exact fun absent => by cases absent
      · rw [seenAs, behaviour_leaf]
        exact fun absent => by cases absent
  | message target delimited =>
      simp only [plainAccessor, type, Frame.finalize_mask, slot]
      obtain ⟨pointer, raw⟩ := marks.stored singular
      cases storage : plan.kind id field with
      | raw =>
          have content : makeString value.bytes = .scalar (.text value.bytes) := by
            rw [makeString, if_neg (by omega)]
          simp only [raw storage, content, singular, explicit, Bool.false_eq_true, if_false]
          rw [seenAs, behaviour_leaf]
          exact fun absent => by cases absent
      | inlineFixedSubMsg =>
          have needed : plan.needsPresence id field = true := by
            simp [Plan.needsPresence, explicit, storage]
          simp only [needed, marks.present needed, not_true_eq_false, and_false, if_false]
          exact fun absent => by cases absent
      | pointerSubMsg =>
          obtain ⟨object, behind⟩ := pointer storage
          simp only [behind, pointee]
          exact fun absent => by cases absent
      | repeated | inlineScalar | inlineEnum | borrowString | map =>
          simp only [Plan.kind, type, singular, Bool.false_eq_true, if_false] at storage
          split at storage
          · cases storage
          · split at storage <;> cases storage

/-- The reader of a oneof reports a member that was just stored iff its index fits a byte. -/
theorem answers_choice {oneof index : Nat} {field : Field}
    (declared : .choice oneof index field ∈ (schema.get id).members)
    (case : frame.out.case oneof = BitVec.ofNat 8 index) :
    frame.answers schema plan id [.oneof oneof] = .member index ↔ index < 256 := by
  obtain ⟨positive, members, listed, held⟩ := Message.choice_mem declared
  rw [Frame.answers_cons]
  simp only [enter, listed, oneofAccessor, Frame.finalize_case, Frame.finalize_active,
    Frame.finalize_union, case, BitVec.toNat_ofNat]
  constructor
  · intro reported
    by_contra large
    split at reported
    · rw [seenAs, behaviour_member] at reported
      cases reported
      omega
    · rw [seenAs, behaviour_member] at reported
      cases reported
      omega
    · rename_i small _ same _
      split at reported
      · rw [seenAs, behaviour_member] at reported
        have equal : small + 1 = index := Answer.member.inj reported
        omega
      · rw [seenAs, behaviour_member] at reported
        have equal : small + 1 = index := Answer.member.inj reported
        omega
  · intro small
    obtain ⟨before, rfl⟩ : ∃ before, index = before + 1 := ⟨index - 1, by omega⟩
    rw [Nat.mod_eq_of_lt small, held]
    dsimp only
    split
    · rw [seenAs, behaviour_member]
      rfl
    · rw [seenAs, behaviour_member]
      rfl

end Answers
end RapidProto
