import Mathlib.Data.Finset.Card
import Mathlib.Data.List.Sort
import RapidProto.Placement
import RapidProto.Tree.Cell

/-!
# The layout planner

`layout.cpp`: the storage kind of every member, the padding-minimizing slot order, the mask bits,
and the memoised, cycle-aware recursion that decides which sub-messages are stored by value.
-/

namespace RapidProto

/-! ## Slots -/

/-- A slot of a struct; `out` names where its offset is written. -/
structure Slot (α : Type) where
  /-- Bytes. -/
  size : Nat
  /-- Alignment, a power of two. -/
  align : Nat
  /-- Field number, or a sentinel. -/
  tiebreak : Nat
  /-- Final disambiguator. -/
  seq : Nat
  /-- Destination of the offset. -/
  out : α

/-- Size and alignment of a slot. -/
def Slot.extent {α : Type} (slot : Slot α) : Extent := ⟨slot.size, slot.align⟩

/-- The comparison of `order_slots`: alignment and size descending, then the tiebreaks. -/
def Slot.before {α : Type} (a b : Slot α) : Bool :=
  if a.align ≠ b.align then b.align < a.align
  else if a.size ≠ b.size then b.size < a.size
  else if a.tiebreak ≠ b.tiebreak then a.tiebreak < b.tiebreak
  else a.seq < b.seq

/-- The loop of `order_slots` over the sorted slots: the offsets, the end and the alignment. -/
def placeSlots {α : Type} : List (Slot α) → (cursor maxAlign : Nat) → List (α × Nat) × Nat × Nat
  | [], cursor, maxAlign => ([], cursor, maxAlign)
  | slot :: slots, cursor, maxAlign =>
    let off := roundUp cursor slot.align
    let (placed, extent) := placeSlots slots (off + slot.size) (max maxAlign slot.align)
    ((slot.out, off) :: placed, extent)

/-- Sort the slots, place them, and return each destination's offset and the struct's extent. -/
def orderSlots {α : Type} (slots : List (Slot α)) : List (α × Nat) × Extent :=
  let sorted := slots.insertionSort fun a b => ¬ b.before a
  let (placed, cursor, maxAlign) := placeSlots sorted 0 1
  (placed, ⟨if cursor = 0 then 1 else roundUp cursor maxAlign, maxAlign⟩)

/-- The offset written to a destination. -/
def offsetOf {α : Type} [DecidableEq α] (placed : List (α × Nat)) (out : α) : Nat :=
  ((placed.find? fun entry => entry.1 = out).map Prod.snd).getD 0

/-! ## Plans -/

/-- Size and alignment of a pointer. -/
def kPtrSize : Nat := 8

/-- Size of an `ArenaString`, an `ArrayView` or a `MapView`. -/
def kViewSize : Nat := 12

/-- Alignment of an `ArenaString`, an `ArrayView` or a `MapView`. -/
def kViewAlign : Nat := 4

/-- Size and alignment of a oneof's discriminant. -/
def kDiscSize : Nat := 1

/-- Longest chain of message references the planner follows. -/
def kMaxChainDepth : Nat := 200

/-- Sorts the mask last within its class. -/
def kMaskTiebreak : Nat := 0x7fffffff

/-- The entry struct of a map. -/
structure EntryPlan where
  /-- Storage of the key. -/
  keyKind : FieldKind
  /-- Offset of the key. -/
  keyOffset : Nat
  /-- Storage of the value. -/
  valueKind : FieldKind
  /-- The value's message type. -/
  valueTarget : Option MessageId
  /-- Offset of the value. -/
  valueOffset : Nat
  /-- Size of the entry. -/
  size : Nat
  /-- Alignment of the entry. -/
  align : Nat
  deriving DecidableEq, Repr

/-- What a member is declared as. -/
inductive Declared where
  | field (field : Field)
  | map (map : MapField)
  deriving DecidableEq, Repr

/-- Field number of a member: its slot's tiebreak. -/
def Declared.number : Declared → Nat
  | .field declared => declared.number
  | .map declared => declared.number

/-- One field's storage decision.  A singular bool is a value bit and has no bytes. -/
structure MemberPlan where
  /-- The field or map. -/
  declared : Declared
  /-- Storage kind. -/
  kind : FieldKind := .inlineScalar
  /-- A singular bool. -/
  isBool : Bool := false
  /-- Storage bytes. -/
  size : Nat := 0
  /-- Storage alignment. -/
  align : Nat := 0
  /-- Offset in the struct. -/
  offset : Nat := 0
  /-- Mask bit of the presence. -/
  presenceBit : Option Nat := none
  /-- Mask bit of a bool's value. -/
  valueBit : Option Nat := none
  /-- Message type of the field. -/
  target : Option MessageId := none
  /-- The entry struct of a map. -/
  entry : Option EntryPlan := none
  deriving DecidableEq, Repr

/-- One member of a oneof's union. -/
structure OneofMemberPlan where
  /-- The field. -/
  field : Field
  /-- Storage kind. -/
  kind : FieldKind
  /-- Storage bytes. -/
  size : Nat
  /-- Storage alignment. -/
  align : Nat
  /-- Message type of the field. -/
  target : Option MessageId := none
  deriving DecidableEq, Repr

/-- A discriminant and a union. -/
structure OneofPlan where
  /-- The declared members. -/
  fields : List Field
  /-- Offset of the discriminant. -/
  discOffset : Nat := 0
  /-- Offset of the union. -/
  unionOffset : Nat := 0
  /-- Largest member size. -/
  unionSize : Nat := 0
  /-- Largest member alignment. -/
  unionAlign : Nat := 0
  /-- The members. -/
  members : List OneofMemberPlan := []
  deriving DecidableEq, Repr

/-- The in-memory plan of one message. -/
structure MessageLayout where
  /-- The message. -/
  id : MessageId := 0
  /-- Size of the class. -/
  size : Nat := 0
  /-- Alignment of the class. -/
  align : Nat := 1
  /-- Nothing in it is behind an indirection. -/
  fixedSize : Bool := false
  /-- Byte members in memory order, then bit-only members. -/
  members : List MemberPlan := []
  /-- Oneofs. -/
  oneofs : List OneofPlan := []
  /-- Fields the profile drops. -/
  dropped : List Field := []
  /-- Maps the profile drops. -/
  droppedMaps : List MapField := []
  /-- Number of mask bits. -/
  maskBits : Nat := 0
  /-- Offset of the mask. -/
  maskOffset : Nat := 0
  /-- Bytes of the mask. -/
  maskSize : Nat := 0
  /-- Alignment of the mask. -/
  maskAlign : Nat := 0
  /-- Mask bit of the unknown-fields accessor. -/
  unknownBit : Option Nat := none
  deriving DecidableEq, Repr, Inhabited

/-- Planning options: the inline cutoff and the profile. -/
structure LayoutOptions where
  /-- A fixed-size sub-message is stored by value iff its size is at most this. -/
  inlineSubmsgCutoff : Nat := 16
  /-- The profile's mode of each field. -/
  mode : MessageId → Nat → FieldMode := fun _ _ => .materialize
  /-- Messages whose profile asks for the unknown-fields accessor. -/
  tracksUnknown : MessageId → Bool := fun _ => false

/-! ## One message, its members classified -/

/-- The storage of a leaf by value. -/
def Leaf.kind : Leaf → FieldKind
  | .enum => .inlineEnum
  | .scalar .string | .scalar .bytes => .borrowString
  | .scalar _ => .inlineScalar

/-- `needs_presence`. -/
def MemberPlan.needsPresence (m : MemberPlan) : Bool :=
  match m.declared with
  | .map _ => false
  | .field field =>
    field.presence = .explicit &&
      match m.kind with
      | .inlineScalar | .inlineEnum | .borrowString | .inlineFixedSubMsg => true
      | .pointerSubMsg | .raw | .repeated | .map => false

/-- Give every member its bits, from bit `next` on. -/
def assignBits : List MemberPlan → (next : Nat) → List MemberPlan × Nat
  | [], next => ([], next)
  | m :: members, next =>
    let (presenceBit, next) := if m.needsPresence then (some next, next + 1) else (none, next)
    let (valueBit, next) := if m.isBool then (some next, next + 1) else (none, next)
    let (members, next) := assignBits members next
    ({ m with presenceBit, valueBit } :: members, next)

/-- Bytes and alignment of a mask with this many bits. -/
def maskExtent (bits : Nat) : Extent :=
  if bits = 0 then ⟨0, 0⟩
  else if bits ≤ 8 then ⟨1, 1⟩
  else if bits ≤ 16 then ⟨2, 2⟩
  else if bits ≤ 32 then ⟨4, 4⟩
  else if bits ≤ 64 then ⟨8, 8⟩
  else ⟨8 * ((bits + 63) / 64), 8⟩

/-- `allocate_bits`. -/
def allocateBits (options : LayoutOptions) (layout : MessageLayout) : MessageLayout :=
  let (members, next) := assignBits layout.members 0
  let (unknownBit, next) :=
    if options.tracksUnknown layout.id then (some next, next + 1) else (none, next)
  { layout with
    members, unknownBit
    maskBits := next
    maskSize := (maskExtent next).size
    maskAlign := (maskExtent next).align }

/-- Where the offset of a slot belongs. -/
inductive Place where
  | member (index : Nat)
  | disc (index : Nat)
  | union (index : Nat)
  | mask
  deriving DecidableEq, Repr

/-- The slots of the members, from position `index` on; a member without bytes has none. -/
def memberSlots : (index : Nat) → List MemberPlan → List (Slot Place)
  | _, [] => []
  | index, m :: members =>
    (if 0 < m.size then [⟨m.size, m.align, m.declared.number, 0, .member index⟩] else []) ++
      memberSlots (index + 1) members

/-- The two slots of every oneof, from position `index` on. -/
def oneofSlots : (index : Nat) → List OneofPlan → List (Slot Place)
  | _, [] => []
  | index, o :: oneofs =>
    let tiebreak := (o.fields.head?.map Field.number).getD 0
    ⟨kDiscSize, 1, tiebreak, 0, .disc index⟩ ::
      ⟨o.unionSize, o.unionAlign, tiebreak, 0, .union index⟩ :: oneofSlots (index + 1) oneofs

/-- Number the slots in the order they are pushed. -/
def numberSlots {α : Type} : (seq : Nat) → List (Slot α) → List (Slot α)
  | _, [] => []
  | seq, slot :: slots => { slot with seq } :: numberSlots (seq + 1) slots

/-- The slots of a message. -/
def MessageLayout.slots (layout : MessageLayout) : List (Slot Place) :=
  numberSlots 0 (memberSlots 0 layout.members ++ oneofSlots 0 layout.oneofs ++
    if 0 < layout.maskSize then [⟨layout.maskSize, layout.maskAlign, kMaskTiebreak, 0, .mask⟩]
    else [])

/-- Write the members' offsets, from position `index` on. -/
def placeMembers (placed : List (Place × Nat)) : (index : Nat) → List MemberPlan → List MemberPlan
  | _, [] => []
  | index, m :: members =>
    { m with offset := offsetOf placed (.member index) } :: placeMembers placed (index + 1) members

/-- Write the oneofs' offsets, from position `index` on. -/
def placeOneofs (placed : List (Place × Nat)) : (index : Nat) → List OneofPlan → List OneofPlan
  | _, [] => []
  | index, o :: oneofs =>
    { o with
      discOffset := offsetOf placed (.disc index)
      unionOffset := offsetOf placed (.union index) } :: placeOneofs placed (index + 1) oneofs

/-- The number of a field; a map has none. -/
def MemberPlan.fieldNumber (m : MemberPlan) : Nat :=
  match m.declared with
  | .field field => field.number
  | .map _ => 0

/-- The order of the members: byte members by offset, then bit-only members by field number. -/
def MemberPlan.before (a b : MemberPlan) : Bool :=
  if decide (a.size = 0) ≠ decide (b.size = 0) then b.size = 0
  else if a.size ≠ 0 then a.offset < b.offset
  else a.fieldNumber < b.fieldNumber

/-- `order_members`. -/
def orderMembers (layout : MessageLayout) : MessageLayout :=
  let (placed, extent) := orderSlots layout.slots
  { layout with
    members := (placeMembers placed 0 layout.members).insertionSort fun a b => ¬ b.before a
    oneofs := placeOneofs placed 0 layout.oneofs
    maskOffset := offsetOf placed .mask
    size := extent.size
    align := extent.align }

/-- `compute_fixed_size`. -/
def computeFixedSize (layout : MessageLayout) : Bool :=
  layout.oneofs.isEmpty && layout.members.all fun m =>
    match m.kind with
    | .inlineScalar | .inlineEnum | .inlineFixedSubMsg => true
    | .borrowString | .pointerSubMsg | .repeated | .map | .raw => false

/-- A raw member's storage: one borrowed payload, or a view of them. -/
def rawMember (field : Field) : MemberPlan where
  declared := .field field
  kind := .raw
  size := kViewSize
  align := kViewAlign
  target :=
    match field.type with
    | .message target _ => some target
    | .leaf _ => none

/-! ## The recursion -/

/-- The planner's memo and in-flight set. -/
structure Planner where
  /-- Finished layouts. -/
  memo : List (MessageId × MessageLayout) := []
  /-- Messages being planned. -/
  visiting : Finset MessageId := ∅

/-- A planning step cannot fail. -/
abbrev Planning := Outcome Empty

/-- The storage decision for a message-typed member. -/
structure Planner.Store where
  /-- By value or behind a pointer. -/
  kind : FieldKind
  /-- Bytes. -/
  size : Nat
  /-- Alignment. -/
  align : Nat
  deriving DecidableEq, Repr

section Recursion

variable (schema : Schema) (options : LayoutOptions)
  (compute : MessageId → Planner → Planning (MessageLayout × Planner))

/-- `layout_for`: the memoised layout, or a fresh one. -/
def layoutFor (id : MessageId) (planner : Planner) : Planning (MessageLayout × Planner) :=
  match planner.memo.lookup id with
  | some layout => .ok (layout, planner)
  | none => if id < schema.messages.length then compute id planner else .ok (default, planner)

/-- `classify_message`: a target in flight is a cycle, and a full chain is not followed further. -/
def classifyMessage (target : MessageId) (planner : Planner) : Planning (Planner.Store × Planner) :=
  if planner.visiting.card < kMaxChainDepth ∧ target ∉ planner.visiting ∧
      target < schema.messages.length then do
    let (layout, planner) ← layoutFor schema compute target planner
    if layout.fixedSize ∧ layout.size ≤ options.inlineSubmsgCutoff then
      .ok (⟨.inlineFixedSubMsg, layout.size, layout.align⟩, planner)
    else .ok (⟨.pointerSubMsg, kPtrSize, kPtrSize⟩, planner)
  else .ok (⟨.pointerSubMsg, kPtrSize, kPtrSize⟩, planner)

/-- `classify_byte_member`: a oneof member. -/
def classifyByteMember (field : Field) (planner : Planner) :
    Planning (OneofMemberPlan × Planner) :=
  match field.type with
  | .message target _ => do
    let (store, planner) ← classifyMessage schema options compute target planner
    .ok (⟨field, store.kind, store.size, store.align, some target⟩, planner)
  | .leaf kind => .ok (⟨field, kind.kind, kind.size, kind.align, none⟩, planner)

/-- `classify_field`. -/
def classifyField (field : Field) (planner : Planner) : Planning (MemberPlan × Planner) :=
  let target :=
    match field.type with
    | .message target _ => some target
    | .leaf _ => none
  if field.isRepeated then
    .ok ({ declared := .field field, kind := .repeated, size := kViewSize, align := kViewAlign,
           target }, planner)
  else
    match field.type with
    | .message target' _ => do
      let (store, planner) ← classifyMessage schema options compute target' planner
      .ok ({ declared := .field field, kind := store.kind, size := store.size,
             align := store.align, target }, planner)
    | .leaf (.scalar .bool) => .ok ({ declared := .field field, isBool := true }, planner)
    | .leaf kind =>
      .ok ({ declared := .field field, kind := kind.kind, size := kind.size, align := kind.align },
        planner)

/-- The value of a map in `build_entry`. -/
def classifyMapValue (map : MapField) (planner : Planner) : Planning (Planner.Store × Planner) :=
  match map.value with
  | .message target => classifyMessage schema options compute target planner
  | .leaf kind => .ok (⟨kind.kind, kind.size, kind.align⟩, planner)

/-- `build_entry`. -/
def buildEntry (map : MapField) (planner : Planner) : Planning (EntryPlan × Planner) := do
  let key := Leaf.scalar map.key
  let (value, planner) ← classifyMapValue schema options compute map planner
  let (placed, extent) := orderSlots
    [⟨key.size, key.align, 0, 0, false⟩, ⟨value.size, value.align, 1, 1, true⟩]
  .ok ({ keyKind := key.kind
         keyOffset := offsetOf placed false
         valueKind := value.kind
         valueTarget :=
           match map.value with
           | .message target => some target
           | .leaf _ => none
         valueOffset := offsetOf placed true
         size := extent.size
         align := extent.align }, planner)

/-- One member of `classify_oneof`'s loop. -/
def addOneofMember (state : OneofPlan × Planner) (field : Field) :
    Planning (OneofPlan × Planner) := do
  let (plan, planner) := state
  let (member, planner) ← classifyByteMember schema options compute field planner
  .ok ({ plan with
         unionSize := max plan.unionSize member.size
         unionAlign := max plan.unionAlign member.align
         members := plan.members ++ [member] }, planner)

/-- `classify_oneof`. -/
def classifyOneof (fields : List Field) (planner : Planner) : Planning (OneofPlan × Planner) := do
  let (plan, planner) ← fields.foldlM (addOneofMember schema options compute) ({ fields }, planner)
  .ok ({ plan with unionAlign := if plan.unionAlign = 0 then 1 else plan.unionAlign }, planner)

/-- One field of `compute`'s first loop. -/
def addField (id : MessageId) (state : MessageLayout × Planner) (field : Field) :
    Planning (MessageLayout × Planner) :=
  let (layout, planner) := state
  match options.mode id field.number with
  | .drop => .ok ({ layout with dropped := layout.dropped ++ [field] }, planner)
  | .raw => .ok ({ layout with members := layout.members ++ [rawMember field] }, planner)
  | .materialize => do
    let (plan, planner) ← classifyField schema options compute field planner
    .ok ({ layout with members := layout.members ++ [plan] }, planner)

/-- One map of `compute`'s second loop; raw maps are rejected before planning. -/
def addMap (id : MessageId) (state : MessageLayout × Planner) (map : MapField) :
    Planning (MessageLayout × Planner) :=
  let (layout, planner) := state
  match options.mode id map.number with
  | .drop => .ok ({ layout with droppedMaps := layout.droppedMaps ++ [map] }, planner)
  | .raw | .materialize => do
    let (entry, planner) ← buildEntry schema options compute map planner
    .ok ({ layout with
           members := layout.members ++ [{
             declared := .map map, kind := .map, size := kViewSize, align := kViewAlign
             target := entry.valueTarget, entry := some entry }] }, planner)

/-- One oneof of `compute`'s third loop. -/
def addOneof (state : MessageLayout × Planner) (fields : List Field) :
    Planning (MessageLayout × Planner) := do
  let (layout, planner) := state
  let (plan, planner) ← classifyOneof schema options compute fields planner
  .ok ({ layout with oneofs := layout.oneofs ++ [plan] }, planner)

end Recursion

/-- Bits, offsets and the fixed-size flag of a classified message. -/
def finishLayout (options : LayoutOptions) (layout : MessageLayout) : MessageLayout :=
  let layout := orderMembers (allocateBits options layout)
  { layout with fixedSize := computeFixedSize layout }

/-- Put a finished layout into the memo. -/
def Planner.store (planner : Planner) (id : MessageId) (layout : MessageLayout) :
    MessageLayout × Planner :=
  let visiting := planner.visiting.erase id
  match planner.memo.lookup id with
  | some earlier => (earlier, { planner with visiting })
  | none => (layout, { memo := planner.memo ++ [(id, layout)], visiting })

/-- `compute`; `frames` bounds the native recursion. -/
def compute (schema : Schema) (options : LayoutOptions) : (frames : Nat) → MessageId → Planner →
    Planning (MessageLayout × Planner)
  | 0, _, _ => .spin
  | frames + 1, id, planner => do
    let message := schema.get id
    let nested := compute schema options frames
    let state ← message.fields.foldlM (addField schema options nested id)
      ({ id }, { planner with visiting := insert id planner.visiting })
    let state ← message.maps.foldlM (addMap schema options nested id) state
    let (layout, planner) ← message.oneofs.foldlM (addOneof schema options nested) state
    .ok (planner.store id (finishLayout options layout))

/-- `plan_layouts`: the layouts of the messages met on a walk over the files, in any order. -/
def planLayouts (schema : Schema) (options : LayoutOptions) (walk : List MessageId) :
    Planning Planner :=
  walk.foldlM (fun planner id => Prod.snd <$>
    layoutFor schema (compute schema options kMaxChainDepth) id planner) {}

end RapidProto
