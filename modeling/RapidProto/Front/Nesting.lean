import RapidProto.Front.Depth
import RapidProto.Front.Parser

/-!
# How deep a source nests

The counted constructs of a syntax tree are the bodies of messages and groups and the aggregate
literals in option values.  The tree lists them, each with the number of constructs it closes, and
it lists the places of the values that are no aggregates with the number of constructs around them.
-/

namespace RapidProto
namespace Front

/-! ## Places in a tree -/

/-- A place in a syntax tree. -/
structure Spot where
  /-- A counted construct stands here, not a value that is none. -/
  counted : Bool
  /-- How many counted constructs the place is in, itself included. -/
  depth : Nat
  deriving DecidableEq, Repr

/-- The same place seen from outside one more construct. -/
def Spot.deeper (spot : Spot) : Spot := { spot with depth := spot.depth + 1 }

/-- A counted construct around some places. -/
def enclose (inside : List Spot) : List Spot := ⟨true, 1⟩ :: inside.map Spot.deeper

mutual

/-- The places in a value.  An empty list keeps the place of the value it does not have. -/
def OptionValue.spots : OptionValue → List Spot
  | .bool _ | .int _ | .uint _ | .double _ _ | .identifier _ | .string _ => [⟨false, 0⟩]
  | .message fields => enclose (fieldSpots fields)
  | .list [] => enclose [⟨false, 0⟩]
  | .list (element :: elements) => enclose (element.spots ++ elementSpots elements)

/-- The places in the value of a field. -/
def MessageLiteralField.spots : MessageLiteralField → List Spot
  | .mk _ _ _ value => value.spots

/-- The places in the fields of a message literal. -/
def fieldSpots : List MessageLiteralField → List Spot
  | [] => []
  | field :: fields => field.spots ++ fieldSpots fields

/-- The places in the elements of a list. -/
def elementSpots : List OptionValue → List Spot
  | [] => []
  | element :: elements => element.spots ++ elementSpots elements

end

/-- The places in the values of options. -/
def optionSpots (options : List OptionNode) : List Spot :=
  options.flatMap fun option => option.value.spots

/-- The places in the options of fields. -/
def fieldsSpots (fields : List FieldNode) : List Spot :=
  fields.flatMap fun field => optionSpots field.options

/-- The places in a oneof; it counts for nothing itself. -/
def OneofNode.spots (oneof : OneofNode) : List Spot :=
  fieldsSpots oneof.fields ++ optionSpots oneof.options

/-- The places in an enum. -/
def EnumNode.spots (node : EnumNode) : List Spot :=
  (node.values.flatMap fun value => optionSpots value.options) ++ optionSpots node.options

mutual

/-- The places in a message. -/
def MessageNode.spots : MessageNode → List Spot
  | ⟨_, _, fields, mapFields, oneofs, enums, nestedMessages, _, extensionRanges, extendBlocks,
      options, _⟩ =>
    enclose (fieldsSpots fields ++ (mapFields.flatMap fun field => optionSpots field.options) ++
      oneofs.flatMap OneofNode.spots ++ enums.flatMap EnumNode.spots ++ messageSpots nestedMessages ++
      (extensionRanges.flatMap fun range => optionSpots range.options) ++
      (extendBlocks.flatMap fun block => fieldsSpots block.fields) ++ optionSpots options)

/-- The places in messages. -/
def messageSpots : List MessageNode → List Spot
  | [] => []
  | message :: messages => message.spots ++ messageSpots messages

end

/-- The places in a file. -/
def FileNode.spots (file : FileNode) : List Spot :=
  messageSpots file.messages ++ file.enums.flatMap EnumNode.spots ++
    (file.extendBlocks.flatMap fun block => fieldsSpots block.fields) ++ optionSpots file.options

/-- How many counted constructs the deepest one of a file closes. -/
def FileNode.nesting (file : FileNode) : Nat :=
  highest Spot.depth (file.spots.filter Spot.counted)

/-- The places inside the body of a message. -/
def MessageNode.members (node : MessageNode) : List Spot :=
  fieldsSpots node.fields ++ (node.mapFields.flatMap fun field => optionSpots field.options) ++
    node.oneofs.flatMap OneofNode.spots ++ node.enums.flatMap EnumNode.spots ++
    messageSpots node.nestedMessages ++
    (node.extensionRanges.flatMap fun range => optionSpots range.options) ++
    (node.extendBlocks.flatMap fun block => fieldsSpots block.fields) ++ optionSpots node.options

theorem MessageNode.spots_eq (node : MessageNode) : node.spots = enclose node.members := by
  cases node
  rfl

/-! ## What a place costs the parser -/

/-- The levels that the parser enters at a place: at a value that is no aggregate it tries the
aggregates first. -/
def Spot.reach (spot : Spot) : Nat := if spot.counted then spot.depth else spot.depth + 1

/-- The levels that the parser enters for some places. -/
def levels (spots : List Spot) : Nat := highest Spot.reach spots

@[simp] theorem levels_nil : levels [] = 0 := rfl

@[simp] theorem levels_append (front back : List Spot) :
    levels (front ++ back) = max (levels front) (levels back) :=
  highest_append _ _ _

theorem Spot.reach_deeper (spot : Spot) : spot.deeper.reach = spot.reach + 1 := by
  rw [reach, reach]
  cases counted : spot.counted with
  | true => simp [deeper, counted]
  | false => simp [deeper, counted]

@[simp] theorem levels_enclose (inside : List Spot) : levels (enclose inside) = levels inside + 1 := by
  rw [enclose, levels, highest_cons, highest_map]
  induction inside with
  | nil => rfl
  | cons spot inside ih =>
      rw [highest_cons, Spot.reach_deeper, levels, highest_cons]
      rw [levels] at ih
      change max 1 _ = _ at ih
      change max 1 _ = _
      omega

@[simp] theorem levels_flatMap {α : Type} (spots : α → List Spot) (values : List α) :
    levels (values.flatMap spots) = highest (fun value => levels (spots value)) values := by
  induction values with
  | nil => rfl
  | cons value values ih => rw [List.flatMap_cons, levels_append, ih, highest_cons]

@[simp] theorem levels_messageSpots (messages : List MessageNode) :
    levels (messageSpots messages) = highest (fun message => levels message.spots) messages := by
  induction messages with
  | nil => rfl
  | cons message messages ih => rw [messageSpots, levels_append, ih, highest_cons]

@[simp] theorem levels_fieldSpots (fields : List MessageLiteralField) :
    levels (fieldSpots fields) = highest (fun field => levels field.spots) fields := by
  induction fields with
  | nil => rfl
  | cons field fields ih => rw [fieldSpots, levels_append, ih, highest_cons]

@[simp] theorem levels_elementSpots (elements : List OptionValue) :
    levels (elementSpots elements) = highest (fun element => levels element.spots) elements := by
  induction elements with
  | nil => rfl
  | cons element elements ih => rw [elementSpots, levels_append, ih, highest_cons]

theorem levels_message (fields : List MessageLiteralField) :
    levels (OptionValue.message fields).spots =
      highest (fun field => levels field.spots) fields + 1 := by
  rw [OptionValue.spots, levels_enclose, levels_fieldSpots]

theorem levels_list {elements : List OptionValue} (nonempty : elements ≠ []) :
    levels (OptionValue.list elements).spots =
      highest (fun element => levels element.spots) elements + 1 := by
  cases elements with
  | nil => exact absurd rfl nonempty
  | cons element elements =>
      rw [OptionValue.spots, levels_enclose, levels_append, levels_elementSpots, highest_cons]

theorem levels_list_pos (elements : List OptionValue) :
    1 ≤ levels (OptionValue.list elements).spots := by
  cases elements with
  | nil => decide
  | cons element elements =>
      rw [levels_list (List.cons_ne_nil _ _)]
      omega

/-! ## Places and the constructs around them -/

/-- A value inside constructs has a construct directly around it. -/
def Surrounded (spots : List Spot) : Prop :=
  ∀ spot ∈ spots, spot.counted = false → spot.depth = 0 ∨ ⟨true, spot.depth⟩ ∈ spots

theorem surrounded_nil : Surrounded [] := nofun

theorem surrounded_scalar : Surrounded [⟨false, 0⟩] := by
  intro spot here _
  rw [List.mem_singleton] at here
  exact .inl (by rw [here])

theorem Surrounded.append {front back : List Spot} (around : Surrounded front)
    (around' : Surrounded back) : Surrounded (front ++ back) := by
  intro spot here plain
  rw [List.mem_append] at here ⊢
  rcases here with here | here
  · exact (around spot here plain).imp id Or.inl
  · exact (around' spot here plain).imp id Or.inr

theorem surrounded_flatMap {α : Type} {spots : α → List Spot}
    (around : ∀ value, Surrounded (spots value)) (values : List α) :
    Surrounded (values.flatMap spots) := by
  induction values with
  | nil => exact surrounded_nil
  | cons value values ih =>
      rw [List.flatMap_cons]
      exact (around value).append ih

theorem Surrounded.enclose {inside : List Spot} (around : Surrounded inside) :
    Surrounded (Front.enclose inside) := by
  intro spot here plain
  rw [Front.enclose, List.mem_cons] at here ⊢
  rcases here with rfl | here
  · cases plain
  · obtain ⟨inner, there, rfl⟩ := List.mem_map.mp here
    refine .inr ?_
    rcases around inner there plain with top | around
    · exact .inl (by rw [Spot.deeper, top])
    · exact .inr (List.mem_map.mpr ⟨_, around, rfl⟩)

mutual

theorem surrounded_value : ∀ value : OptionValue, Surrounded value.spots
  | .bool _ | .int _ | .uint _ | .double _ _ | .identifier _ | .string _ => surrounded_scalar
  | .message fields => (surrounded_fieldSpots fields).enclose
  | .list [] => surrounded_scalar.enclose
  | .list (element :: elements) =>
    ((surrounded_value element).append (surrounded_elementSpots elements)).enclose

theorem surrounded_field : ∀ field : MessageLiteralField, Surrounded field.spots
  | .mk _ _ _ value => surrounded_value value

theorem surrounded_fieldSpots : ∀ fields : List MessageLiteralField, Surrounded (fieldSpots fields)
  | [] => surrounded_nil
  | field :: fields => (surrounded_field field).append (surrounded_fieldSpots fields)

theorem surrounded_elementSpots : ∀ elements : List OptionValue, Surrounded (elementSpots elements)
  | [] => surrounded_nil
  | element :: elements => (surrounded_value element).append (surrounded_elementSpots elements)

end

theorem surrounded_optionSpots (options : List OptionNode) : Surrounded (optionSpots options) :=
  surrounded_flatMap (fun option : OptionNode => surrounded_value option.value) options

theorem surrounded_fieldsSpots (fields : List FieldNode) : Surrounded (fieldsSpots fields) :=
  surrounded_flatMap (fun field : FieldNode => surrounded_optionSpots field.options) fields

theorem surrounded_oneof (oneof : OneofNode) : Surrounded oneof.spots :=
  (surrounded_fieldsSpots oneof.fields).append (surrounded_optionSpots oneof.options)

theorem surrounded_enum (node : EnumNode) : Surrounded node.spots :=
  (surrounded_flatMap (fun value : EnumValueNode => surrounded_optionSpots value.options)
    node.values).append
    (surrounded_optionSpots node.options)

theorem surrounded_members (node : MessageNode)
    (nested : Surrounded (messageSpots node.nestedMessages)) : Surrounded node.members := by
  have maps := surrounded_flatMap (fun field : MapFieldNode => surrounded_optionSpots field.options)
    node.mapFields
  have ranges := surrounded_flatMap
    (fun range : ExtensionRangeNode => surrounded_optionSpots range.options)
    node.extensionRanges
  have blocks := surrounded_flatMap (fun block : ExtendNode => surrounded_fieldsSpots block.fields)
    node.extendBlocks
  have oneofs := surrounded_flatMap surrounded_oneof node.oneofs
  have enums := surrounded_flatMap surrounded_enum node.enums
  exact (((((((surrounded_fieldsSpots node.fields).append maps).append oneofs).append enums).append
    nested).append ranges).append blocks).append (surrounded_optionSpots node.options)

mutual

theorem surrounded_message : ∀ message : MessageNode, Surrounded message.spots
  | ⟨name, visibility, fields, mapFields, oneofs, enums, nestedMessages, reserved, extensionRanges,
      extendBlocks, options, fqn⟩ =>
    (surrounded_members ⟨name, visibility, fields, mapFields, oneofs, enums, nestedMessages, reserved,
      extensionRanges, extendBlocks, options, fqn⟩ (surrounded_messageSpots nestedMessages)).enclose

theorem surrounded_messageSpots : ∀ messages : List MessageNode, Surrounded (messageSpots messages)
  | [] => surrounded_nil
  | message :: messages => (surrounded_message message).append (surrounded_messageSpots messages)

end

theorem surrounded_file (file : FileNode) : Surrounded file.spots :=
  (((surrounded_messageSpots file.messages).append (surrounded_flatMap surrounded_enum file.enums)).append
    (surrounded_flatMap (fun block : ExtendNode => surrounded_fieldsSpots block.fields)
      file.extendBlocks)).append
      (surrounded_optionSpots file.options)

theorem lt_nesting {file : FileNode} {n : Nat} :
    n < file.nesting ↔ ∃ depth, n < depth ∧ ⟨true, depth⟩ ∈ file.spots := by
  rw [FileNode.nesting, lt_highest]
  constructor
  · rintro ⟨⟨counted, depth⟩, here, deep⟩
    obtain ⟨here, rfl : counted = true⟩ := List.mem_filter.mp here
    exact ⟨depth, deep, here⟩
  · rintro ⟨depth, deep, here⟩
    exact ⟨_, List.mem_filter.mpr ⟨here, rfl⟩, deep⟩

/-- The parser goes further down than the constructs nest exactly for a value that stands in the
deepest ones. -/
theorem lt_levels {file : FileNode} {n : Nat} :
    n < levels file.spots ↔ n < file.nesting ∨ ⟨false, n⟩ ∈ file.spots := by
  rw [levels, lt_highest]
  constructor
  · rintro ⟨⟨counted, depth⟩, here, deep⟩
    cases counted with
    | true => exact .inl (lt_nesting.mpr ⟨depth, deep, here⟩)
    | false =>
        rcases Nat.lt_or_eq_of_le (Nat.le_of_lt_succ deep) with further | rfl
        · rcases surrounded_file file _ here rfl with top | around
          · exact absurd (top ▸ further) (Nat.not_lt_zero n)
          · exact .inl (lt_nesting.mpr ⟨depth, further, around⟩)
        · exact .inr here
  · rintro (nests | here)
    · obtain ⟨depth, deep, here⟩ := lt_nesting.mp nests
      exact ⟨_, here, deep⟩
    · exact ⟨_, here, Nat.lt_succ_self n⟩

/-! ## Assembled declarations -/

theorem MessageNode.spots_visibility (node : MessageNode) (visibility : Visibility) :
    { node with visibility }.spots = node.spots := by
  cases node
  rfl

namespace Parse

/-- The levels of a group: of its options, and of its body. -/
def GroupDecl.levels (decl : GroupDecl) : Nat :=
  max (Front.levels (optionSpots decl.field.options)) (Front.levels decl.message.spots)

/-- The levels of a oneof with the bodies of its groups. -/
def OneofBundle.levels (bundle : OneofBundle) : Nat :=
  max (Front.levels bundle.node.spots) (Front.levels (messageSpots bundle.groupMessages))

/-- The levels of an `extend` block with the bodies of its groups. -/
def ExtendBundle.levels (bundle : ExtendBundle) : Nat :=
  max (Front.levels (fieldsSpots bundle.node.fields))
    (Front.levels (messageSpots bundle.groupMessages))

/-- The levels of an element of an enum. -/
def EnumElement.levels : EnumElement → Nat
  | .value node => Front.levels (optionSpots node.options)
  | .option node => Front.levels node.value.spots
  | .reserved _ | .empty => 0

/-- The levels of an element of a oneof. -/
def OneofElement.levels : OneofElement → Nat
  | .field node => Front.levels (optionSpots node.options)
  | .group decl => decl.levels
  | .option node => Front.levels node.value.spots

/-- The levels of an element of an `extend` block. -/
def ExtendElement.levels : ExtendElement → Nat
  | .field node => Front.levels (optionSpots node.options)
  | .group decl => decl.levels

/-- The levels of an element of a message. -/
def MessageElement.levels : MessageElement → Nat
  | .field node => Front.levels (optionSpots node.options)
  | .mapField node => Front.levels (optionSpots node.options)
  | .oneof bundle => bundle.levels
  | .enum node => Front.levels node.spots
  | .message node => Front.levels node.spots
  | .extensions node => Front.levels (optionSpots node.options)
  | .extend bundle => bundle.levels
  | .option node => Front.levels node.value.spots
  | .group decl => decl.levels
  | .reserved _ | .empty => 0

/-- The levels of an element of a file. -/
def FileElement.levels : FileElement → Nat
  | .option node => Front.levels node.value.spots
  | .message node => Front.levels node.spots
  | .enum node => Front.levels node.spots
  | .extend bundle => bundle.levels
  | .import _ | .package _ | .empty => 0

/-- A fold whose steps each add the cost of an element. -/
theorem foldl_levels {α σ : Type} {push : σ → α → σ} {cost : α → Nat} (total : σ → Nat)
    (adds : ∀ state element, total (push state element) = max (total state) (cost element))
    (elements : List α) (start : σ) :
    total (elements.foldl push start) = max (total start) (highest cost elements) := by
  induction elements generalizing start with
  | nil => exact (Nat.max_zero _).symm
  | cons element elements ih =>
      rw [List.foldl_cons, ih, adds, highest_cons]
      omega

theorem levels_pushEnum (node : EnumNode) (element : EnumElement) :
    levels (pushEnum node element).spots = max (levels node.spots) element.levels := by
  cases element <;>
    simp only [pushEnum, EnumNode.spots, EnumElement.levels, optionSpots, levels_append,
      levels_flatMap, highest_append, highest_cons, highest_nil, Nat.max_zero] <;> ac_rfl

theorem levels_assembleEnum (name : Text) (elements : List EnumElement) (level : SyntaxLevel) :
    levels (assembleEnum name elements level).spots = highest EnumElement.levels elements := by
  refine (foldl_levels (fun node : EnumNode => levels node.spots) levels_pushEnum elements
    _).trans ?_
  exact Nat.zero_max _

theorem levels_pushOneof (bundle : OneofBundle) (element : OneofElement) :
    (pushOneof bundle element).levels = max bundle.levels element.levels := by
  cases element <;>
    simp only [pushOneof, OneofBundle.levels, OneofElement.levels, GroupDecl.levels,
      OneofNode.spots, optionSpots, fieldsSpots, levels_append, levels_flatMap,
      levels_messageSpots, highest_append, highest_cons, highest_nil, Nat.max_zero] <;> ac_rfl

theorem levels_assembleOneof (name : Text) (elements : List OneofElement) :
    (assembleOneof name elements).levels = highest OneofElement.levels elements := by
  refine (foldl_levels OneofBundle.levels levels_pushOneof elements _).trans ?_
  exact Nat.zero_max _

theorem levels_pushExtend (bundle : ExtendBundle) (element : ExtendElement) :
    (pushExtend bundle element).levels = max bundle.levels element.levels := by
  cases element <;>
    simp only [pushExtend, ExtendBundle.levels, ExtendElement.levels, GroupDecl.levels,
      fieldsSpots, levels_flatMap, levels_messageSpots, highest_append, highest_cons,
      highest_nil, Nat.max_zero] <;> ac_rfl

theorem levels_pushMessage (node : MessageNode) (element : MessageElement) :
    levels (pushMessage node element).members = max (levels node.members) element.levels := by
  cases element <;>
    simp only [pushMessage, MessageNode.members, MessageElement.levels, OneofBundle.levels,
      ExtendBundle.levels, GroupDecl.levels, optionSpots, fieldsSpots, levels_append,
      levels_flatMap, levels_messageSpots, highest_append, highest_cons, highest_nil,
      Nat.max_zero] <;> ac_rfl

theorem levels_assembleMessage (name : Text) (elements : List MessageElement) :
    levels (assembleMessage name elements).spots = highest MessageElement.levels elements + 1 := by
  rw [MessageNode.spots_eq, levels_enclose]
  refine congrArg (· + 1) ?_
  refine (foldl_levels (fun node : MessageNode => levels node.members) levels_pushMessage elements
    _).trans ?_
  exact Nat.zero_max _

theorem levels_applyFileElement (file : FileNode) (element : FileElement) :
    levels (applyFileElement file element).spots = max (levels file.spots) element.levels := by
  cases element <;>
    simp only [applyFileElement, FileNode.spots, FileElement.levels, ExtendBundle.levels,
      optionSpots, fieldsSpots, levels_append, levels_flatMap, levels_messageSpots,
      highest_append, highest_cons, highest_nil, Nat.max_zero] <;> ac_rfl

end Parse

end Front
end RapidProto
