import RapidProto.Behaviour

/-!
# Stored trees and their accessors

The storage a generated message class has and what its accessors read from it.  A cell is a piece of
arena storage; a pointer is modelled by the object it points to, since the arena neither moves nor
reuses what it handed out.  Value-initialised storage is the cell `zero`, whatever its type.
-/

namespace RapidProto

/-- The storage decision of a member. -/
inductive FieldKind where
  | inlineScalar | inlineEnum | borrowString | inlineFixedSubMsg | pointerSubMsg
  | repeated | map | raw
  deriving DecidableEq, Repr

/-- What the layout planner fixes for the decoder and the accessors. -/
structure Plan where
  /-- The profile's mode of each field. -/
  mode : MessageId → Nat → FieldMode := fun _ _ => .materialize
  /-- Messages whose profile asks for the unknown-fields accessor. -/
  tracksUnknown : MessageId → Bool := fun _ => false
  /-- A message-typed field, oneof member or map value of the given number is stored by value. -/
  inlined : MessageId → Nat → Bool
  /-- Size and alignment of a message class. -/
  extent : MessageId → Nat × Nat
  /-- Size and alignment of a map's entry struct. -/
  entryExtent : MessageId → Nat → Nat × Nat
  /-- The host is little-endian. -/
  kIsLittleEndian : Bool := true

namespace Plan

variable (plan : Plan)

/-- The storage kind of a plain field. -/
def kind (id : MessageId) (field : Field) : FieldKind :=
  match field.type with
  | .leaf kind =>
    if field.isRepeated then .repeated
    else
      match kind with
      | .enum => .inlineEnum
      | .scalar .string | .scalar .bytes => .borrowString
      | .scalar _ => .inlineScalar
  | .message _ _ =>
    if plan.mode id field.number = .raw then .raw
    else if field.isRepeated then .repeated
    else if plan.inlined id field.number then .inlineFixedSubMsg
    else .pointerSubMsg

/-- `needs_presence`: the field has a resting presence bit. -/
def needsPresence (id : MessageId) (field : Field) : Bool :=
  field.presence = .explicit &&
    match plan.kind id field with
    | .inlineScalar | .inlineEnum | .borrowString | .inlineFixedSubMsg => true
    | .pointerSubMsg | .raw | .repeated | .map => false

/-- `needs_value`: a singular bool lives in a value bit. -/
def needsValue (field : Field) : Bool :=
  field.type = .leaf (.scalar .bool) ∧ ¬ field.isRepeated

/-- One bit of a message's mask. -/
inductive Bit where
  | presence (number : Nat)
  | value (number : Nat)
  | unknown
  deriving DecidableEq, Repr

/-- The bits of one field. -/
def bitsOf (id : MessageId) (field : Field) : List Bit :=
  if plan.mode id field.number = .drop then []
  else
    (if plan.needsPresence id field then [.presence field.number] else []) ++
      (if needsValue field then [.value field.number] else [])

/-- `allocate_bits`: the mask's bits, in declaration order. -/
def allocateBits (id : MessageId) (message : Message) : List Bit :=
  message.fields.flatMap (plan.bitsOf id) ++
    (if plan.tracksUnknown id then [.unknown] else [])

/-- The mask index of an allocated bit. -/
def bitIndex (id : MessageId) (message : Message) (bit : Bit) : Nat :=
  (plan.allocateBits id message).idxOf bit

end Plan

/-- A piece of storage. -/
inductive Cell where
  /-- Value-initialised storage of any type; a null pointer, an empty view. -/
  | zero
  /-- A scalar, or the view of an `ArenaString`. -/
  | scalar (value : Value)
  /-- A non-null pointer, with the object behind it. -/
  | ptr (object : Cell)
  /-- An `ArrayView` or `MapView`, with the elements behind it. -/
  | array (elements : List Cell)
  /-- A map entry. -/
  | entry (key value : Cell)
  /-- A message: its mask, its members by field number, and for each oneof the discriminant, the
  member the union was last written as, and the union. -/
  | object (mask : Nat → Bool) (slot : Nat → Cell) (case : Nat → BitVec 8) (active : Nat → Nat)
      (union : Nat → Cell)

namespace Cell

/-- A mask bit. -/
def mask : Cell → Nat → Bool
  | object mask _ _ _ _ => mask
  | _ => fun _ => false

/-- The storage of a member. -/
def slot : Cell → Nat → Cell
  | object _ slot _ _ _ => slot
  | _ => fun _ => zero

/-- The discriminant of a oneof. -/
def case : Cell → Nat → BitVec 8
  | object _ _ case _ _ => case
  | _ => fun _ => 0

/-- The member a oneof's union was last written as. -/
def active : Cell → Nat → Nat
  | object _ _ _ active _ => active
  | _ => fun _ => 0

/-- The union of a oneof. -/
def union : Cell → Nat → Cell
  | object _ _ _ _ union => union
  | _ => fun _ => zero

/-- Write a mask bit. -/
def setMask (cell : Cell) (index : Nat) (bit : Bool) : Cell :=
  object (Function.update cell.mask index bit) cell.slot cell.case cell.active cell.union

/-- Write the storage of a member. -/
def setSlot (cell : Cell) (number : Nat) (content : Cell) : Cell :=
  object cell.mask (Function.update cell.slot number content) cell.case cell.active cell.union

/-- Write a oneof's union as the given member. -/
def setUnion (cell : Cell) (oneof index : Nat) (content : Cell) : Cell :=
  object cell.mask cell.slot cell.case (Function.update cell.active oneof index)
    (Function.update cell.union oneof content)

/-- Write a oneof's discriminant, a `uint8_t`. -/
def setCase (cell : Cell) (oneof index : Nat) : Cell :=
  object cell.mask cell.slot (Function.update cell.case oneof (BitVec.ofNat 8 index)) cell.active
    cell.union

/-- The key of an entry. -/
def entryKey : Cell → Cell
  | entry key _ => key
  | _ => zero

/-- The value of an entry. -/
def entryValue : Cell → Cell
  | entry _ value => value
  | _ => zero

/-- The elements of a view. -/
def elements : Cell → List Cell
  | array elements => elements
  | _ => []

/-- Read a scalar. -/
def read (kind : Leaf) : Cell → Value
  | scalar value => value
  | _ => kind.zero

section Lemmas

variable (cell content : Cell) (index oneof number : Nat) (bit : Bool)

@[simp] theorem mask_setMask :
    (cell.setMask index bit).mask = Function.update cell.mask index bit := rfl
@[simp] theorem slot_setMask : (cell.setMask index bit).slot = cell.slot := rfl
@[simp] theorem case_setMask : (cell.setMask index bit).case = cell.case := rfl
@[simp] theorem active_setMask : (cell.setMask index bit).active = cell.active := rfl
@[simp] theorem union_setMask : (cell.setMask index bit).union = cell.union := rfl

@[simp] theorem mask_setSlot : (cell.setSlot number content).mask = cell.mask := rfl
@[simp] theorem slot_setSlot :
    (cell.setSlot number content).slot = Function.update cell.slot number content := rfl
@[simp] theorem case_setSlot : (cell.setSlot number content).case = cell.case := rfl
@[simp] theorem active_setSlot : (cell.setSlot number content).active = cell.active := rfl
@[simp] theorem union_setSlot : (cell.setSlot number content).union = cell.union := rfl

@[simp] theorem mask_setUnion : (cell.setUnion oneof index content).mask = cell.mask := rfl
@[simp] theorem slot_setUnion : (cell.setUnion oneof index content).slot = cell.slot := rfl
@[simp] theorem case_setUnion : (cell.setUnion oneof index content).case = cell.case := rfl
@[simp] theorem active_setUnion :
    (cell.setUnion oneof index content).active = Function.update cell.active oneof index := rfl
@[simp] theorem union_setUnion :
    (cell.setUnion oneof index content).union = Function.update cell.union oneof content := rfl

@[simp] theorem mask_setCase : (cell.setCase oneof index).mask = cell.mask := rfl
@[simp] theorem slot_setCase : (cell.setCase oneof index).slot = cell.slot := rfl
@[simp] theorem case_setCase :
    (cell.setCase oneof index).case =
      Function.update cell.case oneof (BitVec.ofNat 8 index) := rfl
@[simp] theorem active_setCase : (cell.setCase oneof index).active = cell.active := rfl
@[simp] theorem union_setCase : (cell.setCase oneof index).union = cell.union := rfl

@[simp] theorem mask_zero : zero.mask = fun _ => false := rfl
@[simp] theorem slot_zero : zero.slot = fun _ => zero := rfl
@[simp] theorem case_zero : zero.case = fun _ => 0 := rfl

end Lemmas

end Cell

/-! ## Accessors -/

/-- The static type under which a cell is looked at. -/
inductive View where
  | absent
  /-- A value that is not stored in a cell of its own. -/
  | known (value : Value)
  | leaf (kind : Leaf)
  | message (id : MessageId)
  | list (element : View)
  | entries (id : MessageId) (map : MapField)
  | entry (id : MessageId) (map : MapField)
  | member (index : Nat) (held : View)
  /-- Storage of another type. -/
  | garbage

namespace View

/-- What is seen where an accessor path ends. -/
def describe : View → Cell → Answer
  | absent, _ => .absent
  | known value, _ => .value value
  | leaf kind, cell => .value (cell.read kind)
  | message _, _ => .message
  | list _, cell => .size cell.elements.length
  | entries _ _, cell => .size cell.elements.length
  | entry _ _, _ => .entry
  | member index _, _ => .member index
  | garbage, _ => .garbage

end View

section Accessors

variable (schema : Schema) (plan : Plan)

/-- A message behind a pointer. -/
def pointee (target : MessageId) : Cell → View × Cell
  | .ptr object => (.message target, object)
  | _ => (.absent, .zero)

/-- The accessor of a plain field. -/
def plainAccessor (id : MessageId) (field : Field) (object : Cell) : View × Cell :=
  let bit := plan.bitIndex id (schema.get id)
  let content := object.slot field.number
  match field.type with
  | .leaf kind =>
    if field.isRepeated then (.list (.leaf kind), content)
    else if field.presence = .explicit ∧ ¬ object.mask (bit (.presence field.number)) then
      (.absent, .zero)
    else if Plan.needsValue field then
      (.known (.flag (object.mask (bit (.value field.number)))), .zero)
    else (.leaf kind, content)
  | .message target _ =>
    match plan.kind id field with
    | .raw =>
      if field.isRepeated then (.list (.leaf (.scalar .bytes)), content)
      else
        match field.presence, content with
        | .explicit, .zero => (.absent, .zero)
        | _, _ => (.leaf (.scalar .bytes), content)
    | .repeated => (.list (.message target), content)
    | .inlineFixedSubMsg =>
      if plan.needsPresence id field ∧ ¬ object.mask (bit (.presence field.number)) then
        (.absent, .zero)
      else (.message target, content)
    | _ => pointee target content

/-- The value of a oneof member, as its case of the reader's switch reads the union. -/
def heldAccessor (id : MessageId) (field : Field) (union : Cell) : View × Cell :=
  match field.type with
  | .leaf kind => (.leaf kind, union)
  | .message target _ =>
    if plan.inlined id field.number then (.message target, union) else pointee target union

/-- The reader of a oneof: a switch on the discriminant.  Only as the member it was last written as
does the union hold a value. -/
def oneofAccessor (id : MessageId) (oneof : Nat) (members : List Field) (object : Cell) :
    View × Cell :=
  let index := (object.case oneof).toNat
  match index, members[index - 1]? with
  | 0, _ | _, none => (.member 0 .absent, .zero)
  | index + 1, some field =>
    if object.active oneof = index + 1 then
      let (view, held) := heldAccessor plan id field (object.union oneof)
      (.member (index + 1) view, held)
    else (.member (index + 1) .garbage, .zero)

/-- `value()` of a map entry. -/
def entryValueAccessor (id : MessageId) (map : MapField) (entry : Cell) : View × Cell :=
  match map.value with
  | .leaf kind => (.leaf kind, entry.entryValue)
  | .message target =>
    if plan.inlined id map.number then (.message target, entry.entryValue)
    else pointee target entry.entryValue

/-- One accessor call. -/
def enter (view : View) (cell : Cell) (step : Step) : Option (View × Cell) :=
  match view, step with
  | .message id, .field number =>
    if plan.mode id number = .drop then none
    else
      match (schema.get id).member? number with
      | some (.plain field) => some (plainAccessor schema plan id field cell)
      | some (.mapped map) => some (.entries id map, cell.slot number)
      | _ => none
  | .message id, .oneof oneof =>
    match (schema.get id).oneofs[oneof]? with
    | some members => some (oneofAccessor plan id oneof members cell)
    | none => none
  | .message id, .unknownFields =>
    if plan.tracksUnknown id then
      some (.known (.flag (cell.mask (plan.bitIndex id (schema.get id) .unknown))), .zero)
    else none
  | .list element, .elem index => cell.elements[index]?.map fun content => (element, content)
  | .entries id map, .elem index => cell.elements[index]?.map fun content => (.entry id map, content)
  | .entries id map, .find key =>
    match (cell.elements.filter fun content =>
      content.entryKey.read (.scalar map.key) = key).getLast? with
    | some content => some (.entry id map, content)
    | none => some (.absent, .zero)
  | .entry _ map, .key => some (.leaf (.scalar map.key), cell.entryKey)
  | .entry id map, .value => some (entryValueAccessor plan id map cell)
  | .member _ held, .held => some (held, cell)
  | _, _ => none

/-- Follow an accessor path. -/
def look : List Step → View → Cell → Answer
  | _, .garbage, _ => .garbage
  | [], view, cell => view.describe cell
  | step :: path, view, cell =>
    match enter schema plan view cell step with
    | some (view, cell) => look path view cell
    | none => .invalid

/-- What a stored tree tells its reader. -/
def Cell.behaviour (view : View) (cell : Cell) : Behaviour := fun path =>
  look schema plan path view cell

end Accessors
end RapidProto
