import RapidProto.Tree.Step

/-!
# Stored lengths

Views keep their element counts and strings their lengths in 32 bits.  The checked decoder is the
arena decoder with an assertion before each of these: it leaves the model as soon as a count or a
length above a limit would be stored.  Each stored element takes a byte of the body it is read from,
so with the input's length as the limit no assertion ever fires.
-/

namespace RapidProto

/-! ## The checked decoder -/

/-- A body that refuses values longer than the limit. -/
def Body.within {σ ε : Type} (limit : Nat) (body : Body σ ε) : Body σ ε where
  before := body.before
  after state value := if limit < value.bytes.length then .outside else body.after state value

/-- Bodies that refuse values and packed runs longer than the limit. -/
def Bodies.within {σ ε : Type} (limit : Nat) (bodies : Bodies σ ε) : Bodies σ ε :=
  { bodies with
    native := fun shape => (bodies.native shape).within limit
    packed := fun shape state run =>
      if limit < run.length then .outside else bodies.packed shape state run }

section Checked

variable (schema : Schema) (plan : Plan) (allocator : Allocator) (limit : Nat)
  (decodeInto : MessageId → Cell → List Byte → allocator.State →
    Outcome DecodeError (Cell × allocator.State))

/-- A map entry whose own records are checked too. -/
def checkedMapBody (id : MessageId) (map : MapField) : Body (Frame allocator) DecodeError where
  after frame value := do
    let frame ← frame.takeSlot map.number (plan.entryExtent id map.number).1
      (plan.entryExtent id map.number).2
    let frame ← frame.fill map.number (.entry .zero .zero) frame.arena
    let arms := ((entryArms plan allocator decodeInto id map).within limit).arms value.bytes.length
    let (entry, _) ← arms.plainLoop value.bytes.length { arena := frame.arena } value.bytes
    frame.fill map.number entry.entry entry.arena

/-- The bodies of a message, checked. -/
def checkedBodies (id : MessageId) : Bodies (Frame allocator) DecodeError :=
  ({ treeBodies schema plan allocator decodeInto id with
    native := fun shape =>
      match (schema.get id).member? shape.number with
      | some (.mapped map) => checkedMapBody plan allocator limit decodeInto id map
      | _ => (treeBodies schema plan allocator decodeInto id).native shape } :
    Bodies (Frame allocator) DecodeError).within limit

end Checked

/-- The fields and maps that `finalize` stores a view of. -/
def Message.arrays (plan : Plan) (id : MessageId) (message : Message) : List Nat :=
  ((message.fields.filter Field.isRepeated).map Field.number ++
    message.maps.map MapField.number).filter fun number => plan.mode id number ≠ .drop

/-- `rp_decode_into`, checked. -/
def checkedInto (schema : Schema) (plan : Plan) (allocator : Allocator) (limit : Nat) :
    (frames depth : Nat) → MessageId → Cell → List Byte → allocator.State →
      Outcome DecodeError (Cell × allocator.State)
  | 0, _, _, _, _, _ => .spin
  | frames + 1, depth, id, out, body, arena =>
    if kMaxDecodeDepth < depth then .fail .recursionTooDeep
    else do
      let bodies := checkedBodies schema plan allocator limit
        (checkedInto schema plan allocator limit frames (depth + 1)) id
      let (frame, _) ← (bodies.arms body.length).threadedLoop body.length { out, arena } body
      if ((schema.get id).arrays plan id).any fun number => limit < (frame.accs number).n then
        .outside
      else
        let out := frame.finalize plan id (schema.get id)
        match frame.firstUnset (schema.get id) with
        | some number => .fail (.missingRequired number)
        | none => .ok (out, frame.arena)

/-- `T::decode`, checked against the length of the input. -/
def checkedDecode (schema : Schema) (plan : Plan) (allocator : Allocator) (id : MessageId)
    (input : List Byte) (arena : allocator.State) : Outcome DecodeError (Cell × allocator.State) :=
  if kUint32Max < input.length then .fail .inputTooLarge
  else
    match allocator.create arena (plan.extent id).1 (plan.extent id).2 with
    | none => .fail .outOfMemory
    | some (_, arena) =>
      checkedInto schema plan allocator input.length kDecodeFrames 0 id .zero input arena

/-! ## Short values pass the checks -/

section Within

variable {σ ε : Type} {bodies : Bodies σ ε} {limit : Nat}

/-- On a short item a checked step is the step. -/
theorem Bodies.within_step {item : Item} (short : item.Fits limit) (state : σ) :
    (bodies.within limit).step state item = bodies.step state item := by
  cases item with
  | badTag failure => rfl
  | badValue tag failure => rfl
  | record tag value raw =>
      have fits : ¬ limit < value.bytes.length := by
        have := short.2
        omega
      simp only [Bodies.step, Bodies.within, Body.within, if_neg fits]

end Within

/-- Two bodies that do the same with short values. -/
structure Body.AgreeUpTo {σ ε : Type} (limit : Nat) (body body' : Body σ ε) : Prop where
  before : body.before = body'.before
  after : ∀ state value, value.bytes.length ≤ limit → body.after state value = body'.after state value

theorem Body.AgreeUpTo.refl {σ ε : Type} (limit : Nat) (body : Body σ ε) :
    Body.AgreeUpTo limit body body := ⟨rfl, fun _ _ _ => rfl⟩

/-- Folds agree where the steps do. -/
theorem foldlM_agree {σ ε ι : Type} {step step' : σ → ι → Outcome ε σ} {inputs : List ι}
    (agree : ∀ input ∈ inputs, ∀ state, step state input = step' state input) (state : σ) :
    inputs.foldlM step state = inputs.foldlM step' state := by
  induction inputs generalizing state with
  | nil => rfl
  | cons input inputs ih =>
      rw [List.foldlM_cons, List.foldlM_cons, agree input (by simp)]
      congr 1
      funext next
      exact ih (fun other met => agree other (by simp [met])) next

/-- Steps agree where the bodies of the fields do. -/
theorem Bodies.step_agree {σ ε : Type} {limit : Nat} {bodies bodies' : Bodies σ ε}
    (fields : bodies.fields = bodies'.fields) (wire : bodies.wire = bodies'.wire)
    (native : ∀ shape, Body.AgreeUpTo limit (bodies.native shape) (bodies'.native shape))
    (packed : bodies.packed = bodies'.packed) (before : bodies.unknownBefore = bodies'.unknownBefore)
    (unknown : bodies.unknown = bodies'.unknown) {item : Item} (short : item.Fits limit) (state : σ) :
    bodies.step state item = bodies'.step state item := by
  cases item with
  | badTag failure => simp only [Bodies.step, wire]
  | badValue tag failure => simp only [Bodies.step, fields, wire, before, (native _).before]
  | record tag value raw =>
      simp only [Bodies.step, fields, packed, before, unknown, (native _).before]
      cases route bodies'.fields tag with
      | native field =>
          dsimp only
          congr 1
          funext middle
          exact (native field).after middle value short.2
      | packed field => rfl
      | skip => rfl
      | unknown => rfl

section Decoders

variable {schema : Schema} {plan : Plan} {allocator : Allocator} {limit : Nat} {id : MessageId}
  {decode decode' : MessageId → Cell → List Byte → allocator.State →
    Outcome DecodeError (Cell × allocator.State)}
  (agree : ∀ target cell body arena, body.length ≤ limit →
    decode target cell body arena = decode' target cell body arena)
include agree

theorem decodeBehind_agree (target : MessageId) {body : List Byte} (short : body.length ≤ limit)
    (arena : allocator.State) :
    decodeBehind plan allocator decode target body arena =
      decodeBehind plan allocator decode' target body arena := by
  simp only [decodeBehind, agree target _ body _ short]

theorem elementBody_agree (field : Field) :
    Body.AgreeUpTo limit (elementBody plan allocator decode field)
      (elementBody plan allocator decode' field) := by
  cases type : field.type with
  | leaf kind =>
      simp only [elementBody, type]
      exact .refl _ _
  | message target delimited =>
      simp only [elementBody, type]
      refine ⟨rfl, fun frame value short => ?_⟩
      simp only [agree target _ value.bytes _ short]

theorem messageBody_agree (field : Field) (target : MessageId) :
    Body.AgreeUpTo limit (messageBody schema plan allocator decode id field target)
      (messageBody schema plan allocator decode' id field target) := by
  refine ⟨rfl, fun frame value short => ?_⟩
  simp only [messageBody, agree target _ value.bytes _ short, decodeBehind_agree agree target short]

theorem fieldBody_agree (field : Field) :
    Body.AgreeUpTo limit (fieldBody schema plan allocator decode id field)
      (fieldBody schema plan allocator decode' id field) := by
  cases type : field.type with
  | leaf kind =>
      simp only [fieldBody, type]
      split
      · exact elementBody_agree agree field
      · exact .refl _ _
  | message target delimited =>
      simp only [fieldBody, type]
      split
      · exact .refl _ _
      · exact elementBody_agree agree field
      · exact messageBody_agree agree field target

theorem memberBody_agree (oneof index : Nat) (field : Field) :
    Body.AgreeUpTo limit (memberBody plan allocator decode id oneof index field)
      (memberBody plan allocator decode' id oneof index field) := by
  cases type : field.type with
  | leaf kind =>
      simp only [memberBody, type]
      exact .refl _ _
  | message target delimited =>
      simp only [memberBody, type]
      refine ⟨rfl, fun frame value short => ?_⟩
      simp only [agree target _ value.bytes _ short, decodeBehind_agree agree target short]

/-- The records of a map entry pass the checks. -/
theorem entryArms_agree (map : MapField) {item : Item} (short : item.Fits limit)
    (frame : EntryFrame allocator) :
    ((entryArms plan allocator decode id map).within limit).step frame item =
      (entryArms plan allocator decode' id map).step frame item := by
  rw [Bodies.within_step short]
  refine @Bodies.step_agree _ _ limit (entryArms plan allocator decode id map)
    (entryArms plan allocator decode' id map) rfl rfl (fun shape => ?_) rfl rfl rfl item short frame
  by_cases key : shape.number = 1
  · simp only [entryArms, if_pos key]
    exact .refl _ _
  · simp only [entryArms, if_neg key]
    cases map.value with
    | leaf kind => exact .refl _ _
    | message target =>
        refine ⟨rfl, fun frame value short => ?_⟩
        simp only [agree target _ value.bytes _ short, decodeBehind_agree agree target short]

theorem mapBody_agree (map : MapField) :
    Body.AgreeUpTo limit (checkedMapBody plan allocator limit decode id map)
      (mapBody plan allocator decode' id map) := by
  refine ⟨rfl, fun frame value short => ?_⟩
  have entries : ∀ entry : EntryFrame allocator, (items value.bytes.length value.bytes).foldlM
      ((entryArms plan allocator decode id map).within limit).step entry =
        (items value.bytes.length value.bytes).foldlM (entryArms plan allocator decode' id map).step
          entry := fun entry =>
    foldlM_agree (fun item met frame => entryArms_agree agree map (items_fits short met) frame) entry
  simp only [checkedMapBody, mapBody, Bodies.byRecord.plainLoop_eq, entries]

/-- The records of a message pass the checks. -/
theorem checkedBodies_agree {item : Item} (short : item.Fits limit) (frame : Frame allocator) :
    (checkedBodies schema plan allocator limit decode id).step frame item =
      (treeBodies schema plan allocator decode' id).step frame item := by
  rw [checkedBodies, Bodies.within_step short]
  refine @Bodies.step_agree _ _ limit _ (treeBodies schema plan allocator decode' id) ?_ ?_
    (fun shape => ?_) ?_ ?_ ?_ item short frame
  · rfl
  · rfl
  · dsimp only [treeBodies]
    cases (schema.get id).member? shape.number with
    | none => exact .refl _ _
    | some member =>
        cases member with
        | plain field => exact fieldBody_agree agree field
        | mapped map => exact mapBody_agree agree map
        | choice oneof index field => exact memberBody_agree agree oneof index field
  · rfl
  · rfl
  · rfl

end Decoders

/-! ## Counts -/

section Counts

variable {schema : Schema} {plan : Plan} {allocator : Allocator} {id : MessageId}
  {decode : MessageId → Cell → List Byte → allocator.State →
    Outcome DecodeError (Cell × allocator.State)}
  {frame middle final : Frame allocator}

/-- Every accumulator has room for what it holds, and at most `more` elements were added to any. -/
structure Frame.AddsAtMost (frame final : Frame allocator) (more : Nat) : Prop where
  room : ∀ number, (final.accs number).n ≤ (final.accs number).cap
  count : ∀ number, (final.accs number).n ≤ (frame.accs number).n + more

theorem Frame.AddsAtMost.refl (room : ∀ number, (frame.accs number).n ≤ (frame.accs number).cap) :
    frame.AddsAtMost frame 0 := ⟨room, fun _ => le_rfl⟩

theorem Frame.AddsAtMost.mono {more more' : Nat} (adds : frame.AddsAtMost final more)
    (larger : more ≤ more') : frame.AddsAtMost final more' :=
  ⟨adds.room, fun number => (adds.count number).trans (by omega)⟩

theorem Frame.AddsAtMost.trans {more more' : Nat} (first : frame.AddsAtMost middle more)
    (second : middle.AddsAtMost final more') : frame.AddsAtMost final (more + more') :=
  ⟨second.room, fun number => by
    have := first.count number
    have := second.count number
    omega⟩

variable (room : ∀ number, (frame.accs number).n ≤ (frame.accs number).cap)
include room

/-- A change of one accumulator. -/
theorem Frame.AddsAtMost.setAcc {number more : Nat} {acc : Growable} {arena : allocator.State}
    (fits : acc.n ≤ acc.cap) (count : acc.n ≤ (frame.accs number).n + more) :
    frame.AddsAtMost (frame.setAcc number acc arena) more := by
  refine ⟨fun other => ?_, fun other => ?_⟩
  · by_cases same : other = number
    · subst same
      simpa [Frame.setAcc] using fits
    · simpa [Frame.setAcc, Function.update_of_ne same] using room other
  · by_cases same : other = number
    · subst same
      simpa [Frame.setAcc] using count
    · simp [Frame.setAcc, Function.update_of_ne same]

/-- A change elsewhere. -/
theorem Frame.AddsAtMost.of_accs (same : final.accs = frame.accs) : frame.AddsAtMost final 0 :=
  ⟨fun number => by rw [same]; exact room number, fun number => by rw [same]; exact le_rfl⟩

theorem takeSlot_adds {number size align : Nat}
    (taken : frame.takeSlot number size align = .ok final) : frame.AddsAtMost final 1 := by
  obtain ⟨⟨acc, arena⟩, slot, same⟩ := Outcome.bind_eq_ok.mp taken
  cases same
  have ends := @Growable.slot_ends _ frame.arena (frame.accs number) _ size align
    ⟨room number, rfl⟩
  rw [slot] at ends
  obtain ⟨last, holds⟩ := ends
  have count := holds.count
  rw [List.length_append, Growable.elements_length, List.length_singleton] at count
  exact .setAcc room holds.room count.le

theorem fill_adds {number : Nat} {cell : Cell} {arena : allocator.State}
    (filled : frame.fill number cell arena = .ok final) : frame.AddsAtMost final 0 := by
  obtain ⟨acc, wrote, same⟩ := Outcome.bind_eq_ok.mp filled
  cases same
  rw [Growable.fillSlot, Growable.store] at wrote
  split at wrote
  · cases wrote
    exact .setAcc room (room number) le_rfl
  · cases wrote

theorem packedFill_adds {field : Field} {kind : Leaf} (wire : kind.wire = .varint ∨ kind.IsFixed)
    {run : List Byte} {continues : Bool}
    (ran : packedFill plan allocator field kind frame run = .ok (final, continues)) :
    frame.AddsAtMost final run.length := by
  have appended : ∀ {acc : Growable} {arena : allocator.State} {values : List Value},
      packedValues kind run = .ok values →
      acc.Holds ((frame.accs field.number).elements ++ values.map Cell.scalar) →
      frame.AddsAtMost (frame.setAcc field.number acc arena) run.length := by
    intro acc arena values read holds
    have short := packedFrom_length read
    have count := holds.count
    rw [List.length_append, Growable.elements_length, List.length_map] at count
    exact .setAcc room holds.room (by omega)
  rw [packedFill] at ran
  split at ran
  · rename_i isVarint
    obtain ⟨⟨acc, arena⟩, fill, same⟩ := Outcome.bind_eq_ok.mp ran
    cases same
    have refines := @Growable.fillVarints_refines _ frame.arena (frame.accs field.number) _ kind
      isVarint ⟨room field.number, rfl⟩ run
    rw [fill] at refines
    obtain ⟨values, read, holds⟩ := refines
    exact appended (Outcome.mapError_ofExcept_eq_ok.mp read) holds
  · rename_i notVarint
    obtain ⟨⟨⟨acc, arena⟩, continues'⟩, fill, same⟩ := Outcome.bind_eq_ok.mp ran
    cases same
    have refines := @Growable.fillFixed_refines _ frame.arena (frame.accs field.number) _ kind
      (wire.resolve_left notVarint) plan.kIsLittleEndian ⟨room field.number, rfl⟩ run
    rw [fill] at refines
    obtain ⟨values, read, holds⟩ := refines
    exact appended (Outcome.mapError_ofExcept_eq_ok.mp read) holds

/-- A write elsewhere that marks its field. -/
theorem setPresence_adds (same : middle.accs = frame.accs) (id : MessageId) (field : Field) :
    frame.AddsAtMost (middle.setPresence schema plan id field) 0 := by
  refine .of_accs room ?_
  rw [Frame.setPresence]
  split
  · exact same
  · split <;> exact same

theorem elementBody_adds {field : Field} {value : Payload}
    (before : (elementBody plan allocator decode field).before frame = .ok middle)
    (ran : (elementBody plan allocator decode field).after middle value = .ok final) :
    frame.AddsAtMost final 1 := by
  cases type : field.type with
  | leaf kind =>
      simp only [elementBody, type] at before ran
      have taken := takeSlot_adds room before
      exact taken.trans (fill_adds taken.room ran)
  | message target delimited =>
      simp only [elementBody, type] at before ran
      obtain ⟨blank, filled, ran⟩ := Outcome.bind_eq_ok.mp ran
      obtain ⟨⟨content, arena⟩, -, ran⟩ := Outcome.bind_eq_ok.mp ran
      have taken := takeSlot_adds room before
      have cleared := taken.trans (fill_adds taken.room filled)
      exact cleared.trans (fill_adds cleared.room ran)

theorem rawBody_adds {field : Field} {value : Payload}
    (before : (rawBody schema plan allocator id field).before frame = .ok middle)
    (ran : (rawBody schema plan allocator id field).after middle value = .ok final) :
    frame.AddsAtMost final 1 := by
  simp only [rawBody] at before ran
  split at before
  · cases before
  cases before
  split at ran
  · obtain ⟨slotted, taken, ran⟩ := Outcome.bind_eq_ok.mp ran
    obtain ⟨filled, filling, same⟩ := Outcome.bind_eq_ok.mp ran
    cases same
    have adds := takeSlot_adds room taken
    have stored := adds.trans (fill_adds adds.room filling)
    exact stored.trans (setPresence_adds stored.room (by rfl) id field)
  · cases ran
    exact (setPresence_adds room (by rfl) id field).mono (by omega)

theorem messageBody_adds {field : Field} {target : MessageId} {value : Payload}
    (before : (messageBody schema plan allocator decode id field target).before frame = .ok middle)
    (ran : (messageBody schema plan allocator decode id field target).after middle value =
      .ok final) : frame.AddsAtMost final 0 := by
  simp only [messageBody] at before ran
  split at before
  · cases before
  cases before
  split at ran
  · obtain ⟨⟨content, arena⟩, -, same⟩ := Outcome.bind_eq_ok.mp ran
    cases same
    exact setPresence_adds room (by rfl) id field
  · obtain ⟨⟨content, arena⟩, -, same⟩ := Outcome.bind_eq_ok.mp ran
    cases same
    exact setPresence_adds room (by rfl) id field

theorem fieldBody_adds {field : Field} {value : Payload}
    (before : (fieldBody schema plan allocator decode id field).before frame = .ok middle)
    (ran : (fieldBody schema plan allocator decode id field).after middle value = .ok final) :
    frame.AddsAtMost final 1 := by
  cases type : field.type with
  | leaf kind =>
      simp only [fieldBody, type] at before ran
      split at before
      · rename_i repeated
        simp only [repeated, if_true] at ran
        exact elementBody_adds room before ran
      · rename_i singular
        simp only [singular] at ran
        cases before
        cases ran
        exact (setPresence_adds room (by rfl) id field).mono (by omega)
  | message target delimited =>
      simp only [fieldBody, type] at before ran
      cases storage : plan.kind id field with
      | raw =>
          simp only [storage] at before ran
          exact rawBody_adds room before ran
      | repeated =>
          simp only [storage] at before ran
          exact elementBody_adds room before ran
      | inlineScalar | inlineEnum | borrowString | inlineFixedSubMsg | pointerSubMsg | map =>
          simp only [storage] at before ran
          exact (messageBody_adds room before ran).mono (by omega)

theorem mapBody_adds {map : MapField} {value : Payload}
    (ran : (mapBody plan allocator decode id map).after frame value = .ok final) :
    frame.AddsAtMost final 1 := by
  obtain ⟨slotted, taken, ran⟩ := Outcome.bind_eq_ok.mp ran
  obtain ⟨blank, filled, ran⟩ := Outcome.bind_eq_ok.mp ran
  obtain ⟨⟨entry, rest⟩, -, ran⟩ := Outcome.bind_eq_ok.mp ran
  have adds := takeSlot_adds room taken
  have cleared := adds.trans (fill_adds adds.room filled)
  exact cleared.trans (fill_adds cleared.room ran)

theorem memberBody_adds {oneof index : Nat} {field : Field} {value : Payload}
    (before : (memberBody plan allocator decode id oneof index field).before frame = .ok middle)
    (ran : (memberBody plan allocator decode id oneof index field).after middle value =
      .ok final) : frame.AddsAtMost final 0 := by
  cases type : field.type with
  | leaf kind =>
      simp only [memberBody, type] at before ran
      cases before
      cases ran
      exact .of_accs room rfl
  | message target delimited =>
      simp only [memberBody, type] at before ran
      split at before
      · cases before
      cases before
      split at ran
      · obtain ⟨⟨content, arena⟩, -, same⟩ := Outcome.bind_eq_ok.mp ran
        cases same
        exact .of_accs room rfl
      · obtain ⟨⟨content, arena⟩, -, same⟩ := Outcome.bind_eq_ok.mp ran
        cases same
        exact .of_accs room rfl

/-- A record adds at most as many elements as it has bytes, and one. -/
theorem step_adds {item : Item}
    (stepped : (treeBodies schema plan allocator decode id).step frame item = .ok final) :
    frame.AddsAtMost final item.weight := by
  cases item with
  | badTag failure => cases stepped
  | badValue tag failure =>
      simp only [Bodies.step] at stepped
      split at stepped
      · obtain ⟨_, -, failed⟩ := Outcome.bind_eq_ok.mp stepped
        cases failed
      · cases stepped
      · cases stepped
      · cases stepped
  | record tag value raw =>
      rw [Item.weight]
      have routed := route_shapes (schema.get id) (plan.mode id) tag
      simp only [Bodies.step] at stepped
      rw [show (treeBodies schema plan allocator decode id).fields =
        (schema.get id).shapes (plan.mode id) from rfl] at stepped
      cases found : (schema.get id).member? tag.fieldNumber with
      | none =>
          rw [found] at routed
          rw [routed] at stepped
          cases stepped
          refine (Frame.AddsAtMost.of_accs room ?_).mono (Nat.zero_le _)
          simp only [treeBodies]
          split <;> rfl
      | some member =>
          obtain ⟨declared, -⟩ := Message.mem_of_member? found
          have number := Message.member?_number declared
          rw [found] at routed
          dsimp only at routed
          by_cases dropped : (member.shape (plan.mode id)).dropped = true
          · rw [routed, if_pos dropped] at stepped
            cases stepped
            exact (Frame.AddsAtMost.refl room).mono (Nat.zero_le _)
          by_cases own : tag.wireType = member.wire
          · rw [routed, if_neg dropped, if_pos own] at stepped
            obtain ⟨middle, before, ran⟩ := Outcome.bind_eq_ok.mp stepped
            simp only [treeBodies, Member.shape_number, number] at before ran
            refine Frame.AddsAtMost.mono (show frame.AddsAtMost final 1 from ?_) (by omega)
            cases member with
            | plain field => exact fieldBody_adds room before ran
            | mapped map =>
                cases before
                exact mapBody_adds room ran
            | choice oneof index field => exact (memberBody_adds room before ran).mono (by omega)
          by_cases packed : (member.shape (plan.mode id)).packable = true ∧ tag.wireType = .len
          · rw [routed, if_neg dropped, if_neg own, if_pos packed] at stepped
            obtain ⟨⟨filled, continues⟩, ran, same⟩ := Outcome.bind_eq_ok.mp stepped
            cases same
            simp only [treeBodies, Member.shape_number, number] at ran
            cases member with
            | plain field =>
                cases type : field.type with
                | leaf kind =>
                    simp only [type] at ran
                    have wire := packed.1
                    simp only [Member.shape, Shape.packable, type, FieldType.wire,
                      Bool.and_eq_true] at wire
                    exact (packedFill_adds room (Leaf.packable_wire wire.2) ran).mono (by omega)
                | message target delimited =>
                    simp only [type] at ran
                    cases ran
                    exact (Frame.AddsAtMost.refl room).mono (Nat.zero_le _)
            | mapped map =>
                cases ran
                exact (Frame.AddsAtMost.refl room).mono (Nat.zero_le _)
            | choice oneof index field =>
                cases ran
                exact (Frame.AddsAtMost.refl room).mono (Nat.zero_le _)
          · rw [routed, if_neg dropped, if_neg own, if_neg packed] at stepped
            cases stepped
            exact (Frame.AddsAtMost.refl room).mono (Nat.zero_le _)

omit room in
/-- The accumulators hold at most as many elements as the body has bytes. -/
theorem fold_adds {body : List Byte} {out : Cell} {arena : allocator.State}
    (ran : (items body.length body).foldlM (treeBodies schema plan allocator decode id).step
      { out, arena } = .ok final) (number : Nat) : (final.accs number).n ≤ body.length := by
  have adds := @Outcome.foldlM_induct _ _ _
    (fun consumed (frame : Frame allocator) =>
      Frame.AddsAtMost { out, arena } frame (consumed.map Item.weight).sum) _ _
    (fun consumed item _ frame frame' sofar stepped => by
      rw [List.map_append, List.sum_append, List.map_singleton, List.sum_singleton]
      exact sofar.trans (step_adds sofar.room stepped)) [] _ _
    (Frame.AddsAtMost.refl fun _ => le_rfl) ran
  have weight := items_weight body.length body
  have count := adds.count number
  simp only [List.nil_append] at count
  omega

end Counts

/-! ## No check fires -/

variable {schema : Schema} {plan : Plan} {allocator : Allocator}

theorem checkedInto_eq {limit frames depth : Nat} {id : MessageId} {out : Cell} {body : List Byte}
    (short : body.length ≤ limit) (arena : allocator.State) :
    checkedInto schema plan allocator limit frames depth id out body arena =
      decodeInto schema plan allocator frames depth id out body arena := by
  induction frames generalizing depth id out body arena with
  | zero => rfl
  | succ frames ih =>
      rw [checkedInto, decodeInto]
      split
      · rfl
      have steps : ∀ frame : Frame allocator, (items body.length body).foldlM
          (checkedBodies schema plan allocator limit
            (checkedInto schema plan allocator limit frames (depth + 1)) id).step frame =
          (items body.length body).foldlM (treeBodies schema plan allocator
            (decodeInto schema plan allocator frames (depth + 1)) id).step frame := fun frame =>
        foldlM_agree (fun item met frame => checkedBodies_agree
          (fun target cell body arena fits => ih fits arena) (items_fits short met) frame) frame
      simp only [Bodies.threadedLoop_eq_foldlM, steps, Outcome.bind_assoc, Outcome.ok_bind]
      cases ran : (items body.length body).foldlM (treeBodies schema plan allocator
          (decodeInto schema plan allocator frames (depth + 1)) id).step { out, arena } with
      | fail error => rfl
      | outside => rfl
      | spin => rfl
      | ok frame =>
          have counts : (((schema.get id).arrays plan id).any fun number =>
              limit < (frame.accs number).n) = false := by
            rw [List.any_eq_false]
            intro number _
            have count := fold_adds ran number
            simp only [decide_eq_true_eq, not_lt]
            omega
          rw [Outcome.ok_bind, Outcome.ok_bind, counts]
          rfl

/-- Every count and every length that is stored is at most that of the input, so none is narrowed
and no string is over-long; a larger input is rejected at once. -/
theorem stored_lengths_fit (schema : Schema) (plan : Plan) (allocator : Allocator) (id : MessageId)
    (input : List Byte) (arena : allocator.State) :
    (kUint32Max < input.length →
      arenaDecode schema plan allocator id input arena = .fail .inputTooLarge) ∧
    (input.length ≤ kUint32Max →
      arenaDecode schema plan allocator id input arena =
          checkedDecode schema plan allocator id input arena ∧
        arenaDecode schema plan allocator id input arena ≠ .outside ∧
        (∀ bytes : List Byte, bytes.length ≤ input.length →
          makeString bytes = .scalar (.text bytes)) ∧
        ∀ acc : Growable, acc.n ≤ input.length → viewOf acc = .array acc.elements) := by
  refine ⟨fun large => ?_, fun fits => ⟨?_, ?_, fun bytes short => ?_, fun acc short => ?_⟩⟩
  · rw [arenaDecode, if_pos large]
  · rw [arenaDecode, checkedDecode, if_neg (by omega), if_neg (by omega)]
    cases allocator.create arena (plan.extent id).1 (plan.extent id).2 with
    | none => rfl
    | some pair => exact (checkedInto_eq le_rfl pair.2).symm
  · exact (arenaDecode_refines schema plan id fits arena).safe.1
  · rw [makeString, if_neg (by omega)]
  · rw [viewOf, Nat.mod_eq_of_lt (by rw [kUint32Max] at fits; omega)]
    congr 1
    exact List.take_of_length_le (Growable.elements_length acc).le

/-- A number and a packed run of two. -/
theorem stored_lengths_sample :
    arenaDecode sampleSchema samplePlan unboundedArena 0 [0x08, 0x07, 0x12, 0x02, 0x01, 0x02]
        (0 : Nat) =
      checkedDecode sampleSchema samplePlan unboundedArena 0 [0x08, 0x07, 0x12, 0x02, 0x01, 0x02]
        (0 : Nat) :=
  ((stored_lengths_fit sampleSchema samplePlan unboundedArena 0
    [0x08, 0x07, 0x12, 0x02, 0x01, 0x02] (0 : Nat)).2 (by simp [kUint32Max])).1

end RapidProto
