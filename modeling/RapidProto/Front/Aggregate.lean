import Mathlib.Data.List.Induction
import RapidProto.Front.Inheritance

/-!
# The dotted and the aggregate form

`features.X = V` and `features = { X: V }` are read by two functions.  They agree on a plain name; a
name written as an extension component is passed over in the aggregate form and read as a built-in
feature in the dotted form.
-/

namespace RapidProto
namespace Front

/-! ## Rewriting every option list -/

section MapOptions

variable (change : List OptionNode → List OptionNode)

/-- Change the options of a field. -/
def FieldNode.mapOptions (field : FieldNode) : FieldNode :=
  { field with options := change field.options }

/-- Change the options of a map field. -/
def MapFieldNode.mapOptions (field : MapFieldNode) : MapFieldNode :=
  { field with options := change field.options }

/-- Change the options of an enum and its values. -/
def EnumNode.mapOptions (node : EnumNode) : EnumNode :=
  { node with
    options := change node.options
    values := node.values.map fun value => { value with options := change value.options } }

/-- Change the options of a oneof and its members. -/
def OneofNode.mapOptions (oneof : OneofNode) : OneofNode :=
  { oneof with
    options := change oneof.options
    fields := oneof.fields.map (FieldNode.mapOptions change) }

/-- Change the options of the extensions in a block. -/
def ExtendNode.mapOptions (node : ExtendNode) : ExtendNode :=
  { node with fields := node.fields.map (FieldNode.mapOptions change) }

mutual

/-- Change every option list of a message. -/
def MessageNode.mapOptions : MessageNode → MessageNode
  | ⟨name, visibility, fields, mapFields, oneofs, enums, nestedMessages, reserved,
      extensionRanges, extendBlocks, options, fqn⟩ =>
    { name, visibility
      fields := fields.map (FieldNode.mapOptions change)
      mapFields := mapFields.map (MapFieldNode.mapOptions change)
      oneofs := oneofs.map (OneofNode.mapOptions change)
      enums := enums.map (EnumNode.mapOptions change)
      nestedMessages := mapOptionsAll nestedMessages
      reserved
      extensionRanges := extensionRanges.map fun range =>
        { range with options := change range.options }
      extendBlocks := extendBlocks.map (ExtendNode.mapOptions change)
      options := change options
      fqn }

/-- The same for all messages of a list. -/
def mapOptionsAll : List MessageNode → List MessageNode
  | [] => []
  | message :: messages => message.mapOptions :: mapOptionsAll messages

end

/-- Change every option list of a file. -/
def FileNode.mapOptions (file : FileNode) : FileNode :=
  { file with
    messages := mapOptionsAll change file.messages
    enums := file.enums.map (EnumNode.mapOptions change)
    extendBlocks := file.extendBlocks.map (ExtendNode.mapOptions change)
    options := change file.options }

/-- Change the option lists of a declaration. -/
def Item.mapOptions : Item → Item
  | .field role node => .field role (node.mapOptions change)
  | .mapField node => .mapField (node.mapOptions change)
  | .enum node => .enum (node.mapOptions change)
  | .extend node => .extend (node.mapOptions change)

/-- Change the option lists of a declaration and of what is around it. -/
def Placed.mapOptions (placed : Placed) : Placed :=
  { placed with chain := placed.chain.map change, item := placed.item.mapOptions change }

variable (scope : Text) (chain : List (List OptionNode))

theorem placeFields_mapOptions (role : FieldRole) (fields : List FieldNode) :
    placeFields scope (chain.map change) role (fields.map (FieldNode.mapOptions change)) =
      (placeFields scope chain role fields).map (Placed.mapOptions change) := by
  simp only [placeFields, List.map_map]
  refine List.map_congr_left fun field _ => ?_
  simp [Placed.mapOptions, Item.mapOptions, FieldNode.mapOptions]

theorem placeEnums_mapOptions (enums : List EnumNode) :
    placeEnums scope (chain.map change) (enums.map (EnumNode.mapOptions change)) =
      (placeEnums scope chain enums).map (Placed.mapOptions change) := by
  simp only [placeEnums, List.map_map]
  refine List.map_congr_left fun node _ => ?_
  simp [Placed.mapOptions, Item.mapOptions, EnumNode.mapOptions]

theorem placeMaps_mapOptions (maps : List MapFieldNode) :
    placeMaps scope (chain.map change) (maps.map (MapFieldNode.mapOptions change)) =
      (placeMaps scope chain maps).map (Placed.mapOptions change) := by
  simp only [placeMaps, List.map_map]
  refine List.map_congr_left fun node _ => ?_
  simp [Placed.mapOptions, Item.mapOptions, MapFieldNode.mapOptions]

theorem OneofNode.items_mapOptions (oneofs : List OneofNode) :
    (oneofs.map (OneofNode.mapOptions change)).flatMap
        (OneofNode.items scope (chain.map change)) =
      (oneofs.flatMap (OneofNode.items scope chain)).map (Placed.mapOptions change) := by
  rw [List.flatMap_map, List.map_flatMap]
  congr 1
  funext oneof
  have members := placeFields_mapOptions change scope (chain ++ [oneof.options]) .oneofMember
    oneof.fields
  rw [List.map_append] at members
  exact members

theorem ExtendNode.items_mapOptions (blocks : List ExtendNode) :
    (blocks.map (ExtendNode.mapOptions change)).flatMap
        (ExtendNode.items scope (chain.map change)) =
      (blocks.flatMap (ExtendNode.items scope chain)).map (Placed.mapOptions change) := by
  rw [List.flatMap_map, List.map_flatMap]
  congr 1
  funext block
  simp only [ExtendNode.items, List.map_cons]
  congr 1
  exact placeFields_mapOptions change scope chain .extension block.fields

mutual

theorem MessageNode.items_mapOptions (scope : Text) (chain : List (List OptionNode)) :
    (message : MessageNode) → (message.mapOptions change).items scope (chain.map change) =
      (message.items scope chain).map (Placed.mapOptions change)
  | ⟨name, _, _, _, _, _, nestedMessages, _, _, _, options, _⟩ => by
      have inner : chain.map change ++ [change options] = (chain ++ [options]).map change := by simp
      have nested := itemsAll_mapOptions (qualify scope name) (chain ++ [options]) nestedMessages
      simp only [MessageNode.mapOptions, MessageNode.items, inner, nested,
        placeFields_mapOptions, OneofNode.items_mapOptions, placeEnums_mapOptions,
        placeMaps_mapOptions, ExtendNode.items_mapOptions]
      simp only [List.map_append]

theorem itemsAll_mapOptions (scope : Text) (chain : List (List OptionNode)) :
    (messages : List MessageNode) →
    itemsAll scope (chain.map change) (mapOptionsAll change messages) =
      (itemsAll scope chain messages).map (Placed.mapOptions change)
  | [] => rfl
  | message :: messages => by
      simp only [mapOptionsAll, itemsAll, List.map_append, message.items_mapOptions scope chain,
        itemsAll_mapOptions scope chain messages]

end

theorem FileNode.items_mapOptions (file : FileNode) :
    (file.mapOptions change).items = file.items.map (Placed.mapOptions change) := by
  have outer : [change file.options] = [file.options].map change := rfl
  simp only [FileNode.items, FileNode.mapOptions, FileNode.scope, outer, List.map_append,
    itemsAll_mapOptions, placeEnums_mapOptions, ExtendNode.items_mapOptions]
  rfl

end MapOptions

/-! ## What the two forms say -/

section Undisturbed

variable {α : Type} (recognise : Text → Text → Option α) (default : α)

end Undisturbed

end Front
end RapidProto
