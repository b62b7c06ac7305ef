import RapidProto.Tree.Growable

/-!
# The arena decoder

`rp_decode_into` as `emit_decode_into_body` prints it for an arbitrary message: the threaded loop
around one body per member, then the array views are stored and the required fields are checked.
-/

namespace RapidProto

/-- Largest input and largest length of a stored view. -/
def kUint32Max : Nat := 2 ^ 32 - 1

/-- `ArenaString::make`: an over-long value is stored as an empty string. -/
def makeString (bytes : List Byte) : Cell :=
  if kUint32Max < bytes.length then .zero else .scalar (.text bytes)

/-- The storage of a scalar, enum or string value. -/
def storeLeaf (kind : Leaf) (value : Payload) : Cell :=
  match kind.convert value with
  | .text bytes => makeString bytes
  | converted => .scalar converted

/-- The element count an `ArrayView` keeps. -/
def viewOf (acc : Growable) : Cell := .array (acc.elements.take (acc.n % 2 ^ 32))

/-- The locals of one `rp_decode_into` call. -/
structure Frame (allocator : Allocator) where
  /-- The message being filled. -/
  out : Cell
  /-- The accumulators, by field number. -/
  accs : Nat → Growable := fun _ => {}
  /-- The transient required bits. -/
  req : Nat → Bool := fun _ => false
  /-- The arena. -/
  arena : allocator.State

/-- The locals of a map entry loop. -/
structure EntryFrame (allocator : Allocator) where
  /-- `*rp_slot`. -/
  entry : Cell := .entry .zero .zero
  /-- `rp_vseen`. -/
  vseen : Bool := false
  /-- The arena. -/
  arena : allocator.State

/-- The required fields, in declaration order. -/
def Message.required (message : Message) : List Field :=
  message.fields.filter fun field => field.presence = .required

/-- The required-bit index of a field. -/
def Message.requiredBit (message : Message) (number : Nat) : Nat :=
  (message.required.map Field.number).idxOf number

section Decoder

variable (schema : Schema) (plan : Plan) (allocator : Allocator)
  (decodeInto : MessageId → Cell → List Byte → allocator.State →
    Outcome DecodeError (Cell × allocator.State))

/-- Decode a sub-message behind a fresh pointer. -/
def decodeBehind (target : MessageId) (body : List Byte) (arena : allocator.State) :
    Outcome DecodeError (Cell × allocator.State) :=
  match allocator.create arena (plan.extent target).1 (plan.extent target).2 with
  | none => .fail .outOfMemory
  | some (_, arena) => do
    let (object, arena) ← decodeInto target .zero body arena
    .ok (.ptr object, arena)

/-- The bodies of a map entry. -/
def entryArms (id : MessageId) (map : MapField) : Bodies (EntryFrame allocator) DecodeError where
  fields := map.shapes
  distinct := map.shapes_distinct
  wire _ failure := .wire failure.within
  native shape :=
    if shape.number = 1 then
      { after := fun frame value =>
          .ok { frame with
            entry := .entry (storeLeaf (.scalar map.key) value) frame.entry.entryValue } }
    else
      match map.value with
      | .leaf kind =>
        { after := fun frame value =>
            .ok { frame with entry := .entry frame.entry.entryKey (storeLeaf kind value) } }
      | .message target =>
        { before := fun frame =>
            if frame.vseen then .fail (.repeatedSingularMessage map.number)
            else .ok { frame with vseen := true }
          after := fun frame value => do
            let (content, arena) ←
              if plan.inlined id map.number then
                decodeInto target frame.entry.entryValue value.bytes frame.arena
              else decodeBehind plan allocator decodeInto target value.bytes frame.arena
            .ok { frame with entry := .entry frame.entry.entryKey content, arena } }
  packed _ frame _ := .ok (frame, false)

namespace Frame

variable {allocator} (frame : Frame allocator)

/-- Replace the accumulator of a field and the arena. -/
def setAcc (number : Nat) (acc : Growable) (arena : allocator.State) : Frame allocator :=
  { frame with accs := Function.update frame.accs number acc, arena }

/-- `emit_presence_set`: the presence bit, or else the required bit. -/
def setPresence (id : MessageId) (field : Field) : Frame allocator :=
  if plan.needsPresence id field then
    { frame with
      out := frame.out.setMask (plan.bitIndex id (schema.get id) (.presence field.number)) true }
  else if field.presence = .required then
    { frame with
      req := Function.update frame.req ((schema.get id).requiredBit field.number) true }
  else frame

/-- Reserve a slot in a field's accumulator. -/
def takeSlot (number size align : Nat) : Outcome DecodeError (Frame allocator) := do
  let (acc, arena) ← (frame.accs number).slot size align frame.arena
  .ok (frame.setAcc number acc arena)

/-- Write the slot taken last in a field's accumulator. -/
def fill (number : Nat) (cell : Cell) (arena : allocator.State) :
    Outcome DecodeError (Frame allocator) := do
  let acc ← (frame.accs number).fillSlot cell
  .ok (frame.setAcc number acc arena)

/-- The field has been decoded before: a non-null pointer, the presence bit or the required bit. -/
def seen (id : MessageId) (field : Field) : Bool :=
  match plan.kind id field with
  | .pointerSubMsg | .raw =>
    match frame.out.slot field.number with
    | .zero => false
    | _ => true
  | _ =>
    if plan.needsPresence id field then
      frame.out.mask (plan.bitIndex id (schema.get id) (.presence field.number))
    else frame.req ((schema.get id).requiredBit field.number)

end Frame

/-- A singular scalar, enum or string; a bool writes its value bit. -/
def singularBody (id : MessageId) (field : Field) (kind : Leaf) :
    Body (Frame allocator) DecodeError where
  after frame value :=
    let out :=
      if Plan.needsValue field then
        frame.out.setMask (plan.bitIndex id (schema.get id) (.value field.number))
          (kind.convert value = .flag true)
      else frame.out.setSlot field.number (storeLeaf kind value)
    .ok ({ frame with out }.setPresence schema plan id field)

/-- A singular sub-message, inline or behind a pointer. -/
def messageBody (id : MessageId) (field : Field) (target : MessageId) :
    Body (Frame allocator) DecodeError where
  before frame :=
    if frame.seen schema plan id field then .fail (.repeatedSingularMessage field.number)
    else .ok frame
  after frame value := do
    let (content, arena) ←
      if plan.inlined id field.number then
        decodeInto target (frame.out.slot field.number) value.bytes frame.arena
      else decodeBehind plan allocator decodeInto target value.bytes frame.arena
    .ok ({ frame with out := frame.out.setSlot field.number content, arena }.setPresence
      schema plan id field)

/-- One element of a repeated field: the slot is taken before the value is read. -/
def elementBody (field : Field) : Body (Frame allocator) DecodeError :=
  match field.type with
  | .leaf kind =>
    { before := fun frame => frame.takeSlot field.number kind.size kind.align
      after := fun frame value => frame.fill field.number (storeLeaf kind value) frame.arena }
  | .message target _ =>
    { before := fun frame =>
        frame.takeSlot field.number (plan.extent target).1 (plan.extent target).2
      after := fun frame value => do
        let frame ← frame.fill field.number .zero frame.arena
        let (content, arena) ← decodeInto target .zero value.bytes frame.arena
        frame.fill field.number content arena }

/-- A raw field keeps the payload undecoded. -/
def rawBody (id : MessageId) (field : Field) : Body (Frame allocator) DecodeError where
  before frame :=
    if ¬ field.isRepeated ∧ frame.seen schema plan id field then
      .fail (.repeatedSingularMessage field.number)
    else .ok frame
  after frame value :=
    if field.isRepeated then do
      let frame ← frame.takeSlot field.number 12 4
      let frame ← frame.fill field.number (makeString value.bytes) frame.arena
      .ok (frame.setPresence schema plan id field)
    else
      .ok ({ frame with out := frame.out.setSlot field.number (makeString value.bytes) }.setPresence
        schema plan id field)

/-- A map entry. -/
def mapBody (id : MessageId) (map : MapField) : Body (Frame allocator) DecodeError where
  after frame value := do
    let frame ← frame.takeSlot map.number (plan.entryExtent id map.number).1
      (plan.entryExtent id map.number).2
    let frame ← frame.fill map.number (.entry .zero .zero) frame.arena
    let arms := (entryArms plan allocator decodeInto id map).arms value.bytes.length
    let (entry, _) ← arms.plainLoop value.bytes.length { arena := frame.arena } value.bytes
    frame.fill map.number entry.entry entry.arena

/-- A oneof member: the union, then the discriminant. -/
def memberBody (id : MessageId) (oneof index : Nat) (field : Field) :
    Body (Frame allocator) DecodeError :=
  match field.type with
  | .leaf kind =>
    { after := fun frame value =>
        .ok { frame with
          out := (frame.out.setUnion oneof index (storeLeaf kind value)).setCase oneof index } }
  | .message target _ =>
    { before := fun frame =>
        if (frame.out.case oneof).toNat = index then
          .fail (.repeatedSingularMessage field.number)
        else .ok frame
      after := fun frame value => do
        let (content, arena) ←
          if plan.inlined id field.number then decodeInto target .zero value.bytes frame.arena
          else decodeBehind plan allocator decodeInto target value.bytes frame.arena
        .ok { frame with
          out := (frame.out.setUnion oneof index content).setCase oneof index, arena } }

/-- The body of a plain field. -/
def fieldBody (id : MessageId) (field : Field) : Body (Frame allocator) DecodeError :=
  match field.type with
  | .leaf kind =>
    if field.isRepeated then elementBody plan allocator decodeInto field
    else singularBody schema plan allocator id field kind
  | .message target _ =>
    match plan.kind id field with
    | .raw => rawBody schema plan allocator id field
    | .repeated => elementBody plan allocator decodeInto field
    | _ => messageBody schema plan allocator decodeInto id field target

/-- The packed fill of a repeated field. -/
def packedFill (field : Field) (kind : Leaf) (frame : Frame allocator) (run : List Byte) :
    Outcome DecodeError (Frame allocator × Bool) :=
  if kind.wire = .varint then do
    let (acc, arena) ← (frame.accs field.number).fillVarints kind run frame.arena
    .ok (frame.setAcc field.number acc arena, false)
  else do
    let ((acc, arena), continues) ←
      (frame.accs field.number).fillFixed plan.kIsLittleEndian kind run frame.arena
    .ok (frame.setAcc field.number acc arena, continues)

/-- The bodies of a message. -/
def treeBodies (id : MessageId) : Bodies (Frame allocator) DecodeError where
  fields := (schema.get id).shapes (plan.mode id)
  distinct := (schema.get id).shapes_distinct _
  wire _ failure := .wire failure
  native shape :=
    match (schema.get id).member? shape.number with
    | some (.plain field) => fieldBody schema plan allocator decodeInto id field
    | some (.mapped map) => mapBody plan allocator decodeInto id map
    | some (.choice oneof index field) => memberBody plan allocator decodeInto id oneof index field
    | none => { after := fun frame _ => .ok frame }
  packed shape frame run :=
    match (schema.get id).member? shape.number with
    | some (.plain field) =>
      match field.type with
      | .leaf kind => packedFill plan allocator field kind frame run
      | .message _ _ => .ok (frame, false)
    | _ => .ok (frame, false)
  unknownBefore frame :=
    if plan.tracksUnknown id then
      { frame with
        out := frame.out.setMask (plan.bitIndex id (schema.get id) .unknown) true }
    else frame

end Decoder

/-- Store the array views of the repeated fields and maps that the plan keeps. -/
def Frame.finalize {allocator : Allocator} (plan : Plan) (id : MessageId) (message : Message)
    (frame : Frame allocator) : Cell :=
  let arrays := (message.fields.filter Field.isRepeated).map Field.number ++
    message.maps.map MapField.number
  (arrays.filter fun number => plan.mode id number ≠ .drop).foldl
    (fun out number => out.setSlot number (viewOf (frame.accs number))) frame.out

/-- The first required field whose bit is not set. -/
def Frame.firstUnset {allocator : Allocator} (message : Message) (frame : Frame allocator) :
    Option Nat :=
  (message.required.find? fun field => ¬ frame.req (message.requiredBit field.number)).map
    Field.number

/-- `rp_decode_into`; `frames` bounds the native recursion. -/
def decodeInto (schema : Schema) (plan : Plan) (allocator : Allocator) :
    (frames depth : Nat) → MessageId → Cell → List Byte → allocator.State →
      Outcome DecodeError (Cell × allocator.State)
  | 0, _, _, _, _, _ => .spin
  | frames + 1, depth, id, out, body, arena =>
    if kMaxDecodeDepth < depth then .fail .recursionTooDeep
    else do
      let bodies := treeBodies schema plan allocator
        (decodeInto schema plan allocator frames (depth + 1)) id
      let (frame, _) ← (bodies.arms body.length).threadedLoop body.length { out, arena } body
      let out := frame.finalize plan id (schema.get id)
      match frame.firstUnset (schema.get id) with
      | some number => .fail (.missingRequired number)
      | none => .ok (out, frame.arena)

/-- `T::decode`. -/
def arenaDecode (schema : Schema) (plan : Plan) (allocator : Allocator) (id : MessageId)
    (input : List Byte) (arena : allocator.State) : Outcome DecodeError (Cell × allocator.State) :=
  if kUint32Max < input.length then .fail .inputTooLarge
  else
    match allocator.create arena (plan.extent id).1 (plan.extent id).2 with
    | none => .fail .outOfMemory
    | some (_, arena) => decodeInto schema plan allocator kDecodeFrames 0 id .zero input arena

end RapidProto
