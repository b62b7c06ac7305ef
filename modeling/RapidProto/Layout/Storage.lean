import RapidProto.Layout.Planner
import RapidProto.PostOrder

/-!
# The emitted classes

`emit_storage` declares the members of a class in the order of their planned offsets; the compiler
then places them by the standard layout rule.
-/

namespace RapidProto

/-- The C++ type of a piece of storage outside a union. -/
inductive StoreType where
  /-- A scalar, an enum, or an `ArenaString`. -/
  | leaf (kind : Leaf)
  /-- An `ArrayView` or a `MapView`. -/
  | view
  | pointer
  /-- A message class by value. -/
  | message (id : MessageId)
  deriving DecidableEq, Repr

/-- The C++ type of a declared data member. -/
inductive CxxType where
  | stored (type : StoreType)
  /-- A oneof's discriminant, a `std::uint8_t`. -/
  | disc
  | union (members : List StoreType)
  /-- The mask: one unsigned word, or an array of 64-bit words. -/
  | mask (bytes : Nat)
  deriving DecidableEq, Repr

section Extents

variable (sizeof : MessageId → Extent)

/-- `sizeof` and `alignof` of a stored type. -/
def StoreType.extent : StoreType → Extent
  | leaf kind => ⟨kind.size, kind.align⟩
  | view => ⟨kViewSize, kViewAlign⟩
  | pointer => ⟨kPtrSize, kPtrSize⟩
  | message id => sizeof id

/-- The size of the largest type. -/
def maxSize : List Extent → Nat
  | [] => 0
  | member :: members => max member.size (maxSize members)

/-- `sizeof` and `alignof` of a union; an empty one occupies a byte. -/
def unionExtent (members : List Extent) : Extent :=
  ⟨if maxSize members = 0 then 1 else roundUp (maxSize members) (maxAlign members),
    maxAlign members⟩

/-- `sizeof` and `alignof` of a data member. -/
def CxxType.extent : CxxType → Extent
  | stored type => type.extent sizeof
  | disc => ⟨1, 1⟩
  | union members => unionExtent (members.map (StoreType.extent sizeof))
  | mask bytes => if 8 < bytes then ⟨8 * (bytes / 8), 8⟩ else ⟨bytes, bytes⟩

end Extents

/-- The leaf type of a declared field. -/
def Declared.leaf : Declared → Leaf
  | .field declared =>
    match declared.type with
    | .leaf kind => kind
    | .message _ _ => .enum
  | .map _ => .enum

/-- `storage_type`. -/
def MemberPlan.storageType (m : MemberPlan) : StoreType :=
  match m.kind with
  | .inlineScalar | .inlineEnum | .borrowString => .leaf m.declared.leaf
  | .inlineFixedSubMsg => .message (m.target.getD 0)
  | .pointerSubMsg => .pointer
  | .repeated | .map | .raw => .view

/-- `oneof_member_storage`. -/
def OneofMemberPlan.storageType (m : OneofMemberPlan) : StoreType :=
  match m.kind with
  | .inlineFixedSubMsg => .message (m.target.getD 0)
  | .pointerSubMsg => .pointer
  | .inlineEnum | .borrowString | .inlineScalar | .repeated | .map | .raw =>
    .leaf (Declared.field m.field).leaf

/-- A data member: its planned offset, size and alignment, and its declared type. -/
structure Storage where
  /-- Planned offset. -/
  offset : Nat
  /-- Planned size and alignment. -/
  slot : Extent
  /-- Declared type. -/
  type : CxxType
  deriving DecidableEq, Repr

/-- The data members before they are sorted. -/
def MessageLayout.storage (layout : MessageLayout) : List Storage :=
  (layout.members.filter fun m => 0 < m.size).map (fun m =>
      ⟨m.offset, ⟨m.size, m.align⟩, .stored m.storageType⟩) ++
    layout.oneofs.flatMap (fun o =>
      [⟨o.discOffset, ⟨kDiscSize, 1⟩, .disc⟩,
        ⟨o.unionOffset, ⟨o.unionSize, o.unionAlign⟩,
          .union (o.members.map OneofMemberPlan.storageType)⟩]) ++
    if 0 < layout.maskSize then
      [⟨layout.maskOffset, ⟨layout.maskSize, layout.maskAlign⟩, .mask layout.maskSize⟩]
    else []

/-- `emit_storage`: the data members in declaration order. -/
def emitStorage (layout : MessageLayout) : List Storage :=
  layout.storage.insertionSort fun a b => a.offset ≤ b.offset

/-- The extent of an emitted class. -/
def classExtent (sizeof : MessageId → Extent) (layout : MessageLayout) : Extent :=
  structExtent ((emitStorage layout).map fun s => s.type.extent sizeof)

/-- `sizeof` and `alignof` of the class of a message, through at most `levels` of nesting. -/
def cxxExtent (memo : List (MessageId × MessageLayout)) : (levels : Nat) → MessageId → Extent
  | 0, _ => ⟨1, 1⟩
  | levels + 1, id =>
    match memo.lookup id with
    | some layout => classExtent (cxxExtent memo levels) layout
    | none => ⟨1, 1⟩

/-- The messages a layout stores by value: members, oneof members and map values. -/
def MessageLayout.storedByValue (layout : MessageLayout) : List MessageId :=
  (layout.members.filterMap fun m => if m.kind = .inlineFixedSubMsg then m.target else none) ++
    (layout.oneofs.flatMap fun o => o.members.filterMap fun m =>
      if m.kind = .inlineFixedSubMsg then m.target else none) ++
    layout.members.filterMap fun m => m.entry.bind fun entry =>
      if entry.valueKind = .inlineFixedSubMsg then entry.valueTarget else none

/-- The first message stores the second by value. -/
def StoresByValue (memo : List (MessageId × MessageLayout)) (id target : MessageId) : Prop :=
  ∃ layout, memo.lookup id = some layout ∧ target ∈ layout.storedByValue

end RapidProto
