import RapidProto.Keyed
import RapidProto.Thread.Fold

/-!
# Schemas

A resolved schema as the two generators see it: scalar types with their wire facts, fields with
their presence, maps, oneofs, and messages that refer to each other by index, in any graph.
-/

namespace RapidProto

/-- The scalar type keywords. -/
inductive Scalar where
  | int32 | int64 | uint32 | uint64 | sint32 | sint64 | bool
  | fixed32 | sfixed32 | float | fixed64 | sfixed64 | double | string | bytes
  deriving DecidableEq, Repr

/-- A decoded scalar; floating-point values are kept as their bits. -/
inductive Value where
  | w32 (bits : BitVec 32)
  | w64 (bits : BitVec 64)
  | flag (set : Bool)
  | text (bytes : List Byte)
  deriving DecidableEq, Repr

/-- `zigzag_decode_32`. -/
def zigzagDecode32 (v : BitVec 32) : BitVec 32 := (v >>> 1) ^^^ (0 - (v &&& 1))

/-- `zigzag_decode_64`. -/
def zigzagDecode64 (v : BitVec 64) : BitVec 64 := (v >>> 1) ^^^ (0 - (v &&& 1))

namespace Scalar

/-- The wire type of a scalar. -/
def wire : Scalar → WireType
  | int32 | int64 | uint32 | uint64 | sint32 | sint64 | bool => .varint
  | fixed32 | sfixed32 | float => .i32
  | fixed64 | sfixed64 | double => .i64
  | string | bytes => .len

/-- The value of an absent scalar. -/
def zero : Scalar → Value
  | int32 | uint32 | sint32 | fixed32 | sfixed32 | float => .w32 0
  | int64 | uint64 | sint64 | fixed64 | sfixed64 | double => .w64 0
  | bool => .flag false
  | string | bytes => .text []

/-- The conversion of a varint, for the varint types. -/
def ofVarint (type : Scalar) (raw : BitVec 64) : Value :=
  match type with
  | int32 | uint32 => .w32 (raw.setWidth 32)
  | int64 | uint64 => .w64 raw
  | sint32 => .w32 (zigzagDecode32 (raw.setWidth 32))
  | sint64 => .w64 (zigzagDecode64 raw)
  | bool => .flag (raw != 0)
  | fixed32 | sfixed32 | float | fixed64 | sfixed64 | double | string | bytes => type.zero

/-- In-memory size, which is also the alignment except for views. -/
def size : Scalar → Nat
  | int32 | uint32 | sint32 | fixed32 | sfixed32 | float => 4
  | int64 | uint64 | sint64 | fixed64 | sfixed64 | double => 8
  | bool => 1
  | string | bytes => 12

/-- In-memory alignment. -/
def align : Scalar → Nat
  | string | bytes => 4
  | type => type.size

end Scalar

/-- A field type without structure. -/
inductive Leaf where
  | scalar (type : Scalar)
  /-- Every enum is open: any 32-bit value is kept. -/
  | enum
  deriving DecidableEq, Repr

namespace Leaf

/-- The wire type of a leaf. -/
def wire : Leaf → WireType
  | scalar type => type.wire
  | enum => .varint

/-- The value of an absent leaf. -/
def zero : Leaf → Value
  | scalar type => type.zero
  | enum => .w32 0

/-- The conversion of a varint. -/
def ofVarint : Leaf → BitVec 64 → Value
  | scalar type, raw => type.ofVarint raw
  | enum, raw => .w32 (raw.setWidth 32)

/-- The value read from a payload of the leaf's wire type. -/
def convert (leaf : Leaf) : Payload → Value
  | .varint raw => leaf.ofVarint raw
  | .i32 raw => .w32 raw
  | .i64 raw => .w64 raw
  | .len bytes => .text bytes
  | .group _ => leaf.zero

/-- In-memory size. -/
def size : Leaf → Nat
  | scalar type => type.size
  | enum => 4

/-- In-memory alignment. -/
def align : Leaf → Nat
  | scalar type => type.align
  | enum => 4

end Leaf

/-- Index of a message in its schema. -/
abbrev MessageId := Nat

/-- The type of a field. -/
inductive FieldType where
  | leaf (kind : Leaf)
  /-- A message; `delimited` fields are groups on the wire. -/
  | message (target : MessageId) (delimited : Bool)
  deriving DecidableEq, Repr

/-- The wire type of one value of a field. -/
def FieldType.wire : FieldType → WireType
  | .leaf kind => kind.wire
  | .message _ delimited => if delimited then .sgroup else .len

/-- Presence of a field. -/
inductive Presence where
  | implicit | explicit | required | repeated
  deriving DecidableEq, Repr

/-- A declared field. -/
structure Field where
  /-- Field number. -/
  number : Nat
  /-- Type of one value. -/
  type : FieldType
  /-- Presence discipline. -/
  presence : Presence
  deriving DecidableEq, Repr

/-- The field is repeated. -/
def Field.isRepeated (field : Field) : Bool := field.presence = .repeated

/-- The type of a map value, which is never a group. -/
inductive MapValue where
  | leaf (kind : Leaf)
  | message (target : MessageId)
  deriving DecidableEq, Repr

/-- The wire type of a map value. -/
def MapValue.wire : MapValue → WireType
  | .leaf kind => kind.wire
  | .message _ => .len

/-- A declared map. -/
structure MapField where
  /-- Field number. -/
  number : Nat
  /-- Key type. -/
  key : Scalar
  /-- Value type. -/
  value : MapValue
  deriving DecidableEq, Repr

/-- A declared message.  Message-typed singular fields always track their presence. -/
structure Message where
  /-- Plain fields, in declaration order. -/
  fields : List Field := []
  /-- Maps. -/
  maps : List MapField := []
  /-- The members of each oneof. -/
  oneofs : List (List Field) := []
  /-- Field numbers are distinct. -/
  distinct : (fields.map Field.number ++ maps.map MapField.number ++
    oneofs.flatten.map Field.number).Nodup := by decide
  /-- A message-typed field is never implicit. -/
  tracked : ∀ field ∈ fields, ∀ target delimited, field.type = .message target delimited →
    field.presence ≠ .implicit := by simp

theorem nodup_noMember : (([] : List Field).map Field.number ++
    ([] : List MapField).map MapField.number ++
    ([] : List (List Field)).flatten.map Field.number).Nodup := List.nodup_nil

theorem noField_tracked : ∀ field ∈ ([] : List Field), ∀ target delimited,
    field.type = .message target delimited → field.presence ≠ .implicit :=
  List.forall_mem_nil _

instance : Inhabited Message := ⟨{ distinct := nodup_noMember, tracked := noField_tracked }⟩

/-- A resolved set of messages. -/
structure Schema where
  /-- The messages, by index. -/
  messages : List Message

/-- The message of an index. -/
def Schema.get (schema : Schema) (id : MessageId) : Message := schema.messages.getD id default

/-- A member of a message, as the switch on a field number finds it. -/
inductive Member where
  | plain (field : Field)
  | mapped (map : MapField)
  /-- Member `index` (from one) of oneof `oneof`. -/
  | choice (oneof index : Nat) (field : Field)
  deriving DecidableEq, Repr

namespace Member

/-- The field number of a member. -/
def number : Member → Nat
  | plain field => field.number
  | mapped map => map.number
  | choice _ _ field => field.number

/-- The wire type a member's native body is entered on. -/
def wire : Member → WireType
  | plain field => field.type.wire
  | mapped _ => .len
  | choice _ _ field => field.type.wire

end Member

/-- The members of one oneof, numbered from `index` on. -/
def choicesFrom (oneof : Nat) : (index : Nat) → List Field → List Member
  | _, [] => []
  | index, field :: fields => .choice oneof index field :: choicesFrom oneof (index + 1) fields

/-- The members of the oneofs from number `oneof` on. -/
def oneofsFrom : (oneof : Nat) → List (List Field) → List Member
  | _, [] => []
  | oneof, fields :: oneofs => choicesFrom oneof 1 fields ++ oneofsFrom (oneof + 1) oneofs

namespace Message

variable (message : Message)

/-- All members: plain fields, maps, oneof members. -/
def members : List Member :=
  message.fields.map .plain ++ message.maps.map .mapped ++ oneofsFrom 0 message.oneofs

/-- The member with a given number. -/
def member? (number : Nat) : Option Member := findKey Member.number number message.members

end Message

theorem choicesFrom_number (oneof index : Nat) (fields : List Field) :
    (choicesFrom oneof index fields).map Member.number = fields.map Field.number := by
  induction fields generalizing index with
  | nil => rfl
  | cons field fields ih => simp [choicesFrom, ih, Member.number]

theorem oneofsFrom_number (oneof : Nat) (oneofs : List (List Field)) :
    (oneofsFrom oneof oneofs).map Member.number = oneofs.flatten.map Field.number := by
  induction oneofs generalizing oneof with
  | nil => rfl
  | cons fields oneofs ih => simp [oneofsFrom, ih, choicesFrom_number]

theorem Message.members_distinct (message : Message) :
    (message.members.map Member.number).Nodup := by
  have distinct := message.distinct
  rw [← oneofsFrom_number 0] at distinct
  simpa [Message.members, Function.comp_def, Member.number] using distinct

/-- A declared member is the one its number finds. -/
theorem Message.member?_number {message : Message} {member : Member}
    (declared : member ∈ message.members) : message.member? member.number = some member :=
  findKey_of_mem message.members_distinct declared

theorem Message.mem_of_member? {message : Message} {number : Nat} {member : Member}
    (found : message.member? number = some member) :
    member ∈ message.members ∧ member.number = number :=
  mem_of_findKey found

/-- Members with the same number are the same. -/
theorem Message.member_inj {message : Message} {member other : Member}
    (declared : member ∈ message.members) (declared' : other ∈ message.members)
    (same : member.number = other.number) : member = other := by
  have found := message.member?_number declared
  rw [same, message.member?_number declared'] at found
  exact (Option.some.inj found).symm

theorem mem_choicesFrom {oneof index oneof' index' : Nat} {field : Field} {fields : List Field}
    (listed : .choice oneof' index' field ∈ choicesFrom oneof index fields) :
    oneof' = oneof ∧ index ≤ index' ∧ fields[index' - index]? = some field := by
  induction fields generalizing index with
  | nil => cases listed
  | cons first fields ih =>
      rcases List.mem_cons.mp listed with same | later
      · cases same
        simp
      · obtain ⟨rfl, order, found⟩ := ih later
        refine ⟨rfl, by omega, ?_⟩
        rw [show index' - index = index' - (index + 1) + 1 by omega, List.getElem?_cons_succ]
        exact found

theorem mem_oneofsFrom {oneof oneof' index : Nat} {field : Field} {oneofs : List (List Field)}
    (listed : .choice oneof' index field ∈ oneofsFrom oneof oneofs) :
    oneof ≤ oneof' ∧ 0 < index ∧ ∃ members, oneofs[oneof' - oneof]? = some members ∧
      members[index - 1]? = some field := by
  induction oneofs generalizing oneof with
  | nil => cases listed
  | cons first oneofs ih =>
      rw [oneofsFrom, List.mem_append] at listed
      rcases listed with here | later
      · obtain ⟨rfl, order, found⟩ := mem_choicesFrom here
        exact ⟨le_rfl, order, first, by simp, found⟩
      · obtain ⟨order, positive, members, found, held⟩ := ih later
        refine ⟨by omega, positive, members, ?_, held⟩
        rw [show oneof' - oneof = oneof' - (oneof + 1) + 1 by omega, List.getElem?_cons_succ]
        exact found

theorem choicesFrom_mem {oneof index position : Nat} {fields : List Field} {field : Field}
    (held : fields[position]? = some field) :
    .choice oneof (index + position) field ∈ choicesFrom oneof index fields := by
  induction fields generalizing index position with
  | nil => cases held
  | cons first fields ih =>
      cases position with
      | zero =>
          cases held
          exact List.mem_cons_self
      | succ position =>
          rw [List.getElem?_cons_succ] at held
          have later := @ih (index + 1) _ held
          rw [show index + (position + 1) = index + 1 + position by omega]
          exact List.mem_cons_of_mem _ later

theorem oneofsFrom_mem (oneof : Nat) {position place : Nat} {oneofs : List (List Field)}
    {members : List Field} {field : Field} (listed : oneofs[place]? = some members)
    (held : members[position]? = some field) :
    .choice (oneof + place) (position + 1) field ∈ oneofsFrom oneof oneofs := by
  induction oneofs generalizing oneof place with
  | nil => cases listed
  | cons first oneofs ih =>
      rw [oneofsFrom, List.mem_append]
      cases place with
      | zero =>
          cases listed
          rw [Nat.add_comm position]
          exact .inl (choicesFrom_mem held)
      | succ place =>
          rw [List.getElem?_cons_succ] at listed
          rw [show oneof + (place + 1) = oneof + 1 + place by omega]
          exact .inr (ih (oneof + 1) listed)

theorem choicesFrom_choice {member : Member} {oneof index : Nat} {fields : List Field}
    (listed : member ∈ choicesFrom oneof index fields) :
    ∃ index' field, member = .choice oneof index' field := by
  induction fields generalizing index with
  | nil => cases listed
  | cons first fields ih =>
      rcases List.mem_cons.mp listed with rfl | later
      · exact ⟨index, first, rfl⟩
      · exact ih later

theorem oneofsFrom_choice {member : Member} {oneof : Nat} {oneofs : List (List Field)}
    (listed : member ∈ oneofsFrom oneof oneofs) :
    ∃ oneof' index field, member = .choice oneof' index field := by
  induction oneofs generalizing oneof with
  | nil => cases listed
  | cons first oneofs ih =>
      rw [oneofsFrom, List.mem_append] at listed
      rcases listed with here | later
      · exact ⟨oneof, choicesFrom_choice here⟩
      · exact ih later

namespace Message

variable {message : Message}

theorem plain_mem {field : Field} : .plain field ∈ message.members ↔ field ∈ message.fields := by
  constructor
  · intro listed
    simp only [members, List.mem_append, List.mem_map, Member.plain.injEq, exists_eq_right,
      reduceCtorEq, and_false, exists_false, or_false] at listed
    rcases listed with declared | choice
    · exact declared
    · obtain ⟨_, _, _, impossible⟩ := oneofsFrom_choice choice
      cases impossible
  · intro declared
    simp [members, declared]

theorem mapped_mem {map : MapField} : .mapped map ∈ message.members ↔ map ∈ message.maps := by
  constructor
  · intro listed
    simp only [members, List.mem_append, List.mem_map, Member.mapped.injEq, exists_eq_right,
      reduceCtorEq, and_false, exists_false, false_or] at listed
    rcases listed with declared | choice
    · exact declared
    · obtain ⟨_, _, _, impossible⟩ := oneofsFrom_choice choice
      cases impossible
  · intro declared
    simp [members, declared]

theorem choice_mem {oneof index : Nat} {field : Field}
    (declared : .choice oneof index field ∈ message.members) :
    0 < index ∧ ∃ members, message.oneofs[oneof]? = some members ∧
      members[index - 1]? = some field := by
  simp only [members, List.mem_append, List.mem_map, reduceCtorEq, and_false, exists_false,
    false_or] at declared
  obtain ⟨-, positive, members, found, held⟩ := mem_oneofsFrom declared
  exact ⟨positive, members, by simpa using found, held⟩

/-- Every member of a oneof is a member of the message. -/
theorem mem_choice {oneof : Nat} {members : List Field} {field : Field}
    (listed : message.oneofs[oneof]? = some members) (held : field ∈ members) :
    ∃ index, .choice oneof index field ∈ message.members := by
  obtain ⟨position, found⟩ := List.getElem?_of_mem held
  have declared := oneofsFrom_mem 0 listed found
  rw [Nat.zero_add] at declared
  exact ⟨position + 1, by simp [Message.members, declared]⟩

end Message

/-- What a profile does with a field. -/
inductive FieldMode where
  | materialize | raw | drop
  deriving DecidableEq, Repr

/-- The routing facts of a member. -/
def Member.shape (mode : Nat → FieldMode) : Member → Shape
  | .plain field =>
    { number := field.number
      wire := field.type.wire
      repeated := field.isRepeated
      labelled := mode field.number = .materialize
      dropped := mode field.number = .drop }
  | .mapped map =>
    { number := map.number
      wire := .len
      labelled := false
      dropped := mode map.number = .drop }
  | .choice oneof _ field =>
    { number := field.number
      wire := field.type.wire
      oneof := some oneof }

@[simp] theorem Member.shape_number (mode : Nat → FieldMode) (member : Member) :
    (member.shape mode).number = member.number := by
  cases member <;> rfl

@[simp] theorem Member.shape_wire (mode : Nat → FieldMode) (member : Member) :
    (member.shape mode).wire = member.wire := by
  cases member <;> rfl

/-- The routing facts of a message. -/
def Message.shapes (message : Message) (mode : Nat → FieldMode) : List Shape :=
  message.members.map (Member.shape mode)

theorem Message.shapes_distinct (message : Message) (mode : Nat → FieldMode) :
    ((message.shapes mode).map Shape.number).Nodup := by
  have distinct := message.members_distinct
  simpa [Message.shapes, Function.comp_def] using distinct

end RapidProto
