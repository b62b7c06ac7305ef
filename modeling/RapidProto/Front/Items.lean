import RapidProto.Front.Ast

/-!
# Declarations in their places

Everything a file declares that an analysis pass reads or writes, in one list: each with the
qualified name of the scope around it and the option lists that apply to it.  A pass that rewrites
nodes in place is then a statement about this list, whatever the nesting.
-/

namespace RapidProto
namespace Front

/-- Where a field is declared. -/
inductive FieldRole where
  | plain | oneofMember | extension
  deriving DecidableEq, Repr

/-- A declaration. -/
inductive Item where
  | field (role : FieldRole) (node : FieldNode)
  | mapField (node : MapFieldNode)
  | enum (node : EnumNode)
  | extend (node : ExtendNode)

/-- A declaration in its place. -/
structure Placed where
  /-- Qualified name of the message or package around it. -/
  scope : Text
  /-- The option lists that apply, the file's first and its own last. -/
  chain : List (List OptionNode)
  /-- The declaration. -/
  item : Item

/-- A name inside a scope. -/
def qualify (scope name : Text) : Text := scope ++ byte '.' :: name

section Places

variable (scope : Text) (chain : List (List OptionNode))

/-- The fields of one list. -/
def placeFields (role : FieldRole) (fields : List FieldNode) : List Placed :=
  fields.map fun field => ⟨scope, chain ++ [field.options], .field role field⟩

/-- The members of a oneof. -/
def OneofNode.items (oneof : OneofNode) : List Placed :=
  placeFields scope (chain ++ [oneof.options]) .oneofMember oneof.fields

/-- The enums of one list. -/
def placeEnums (enums : List EnumNode) : List Placed :=
  enums.map fun node => ⟨scope, chain ++ [node.options], .enum node⟩

/-- The map fields of one list. -/
def placeMaps (maps : List MapFieldNode) : List Placed :=
  maps.map fun node => ⟨scope, chain ++ [node.options], .mapField node⟩

/-- An `extend` block and the extensions in it. -/
def ExtendNode.items (node : ExtendNode) : List Placed :=
  ⟨scope, chain, .extend node⟩ :: placeFields scope chain .extension node.fields

end Places

mutual

/-- The declarations in a message. -/
def MessageNode.items (scope : Text) (chain : List (List OptionNode)) :
    MessageNode → List Placed
  | ⟨name, _, fields, mapFields, oneofs, enums, nestedMessages, _, _, extendBlocks, options, _⟩ =>
    let inner := qualify scope name
    let chain := chain ++ [options]
    placeFields inner chain .plain fields ++ oneofs.flatMap (OneofNode.items inner chain) ++
      placeMaps inner chain mapFields ++ placeEnums inner chain enums ++
      itemsAll inner chain nestedMessages ++ extendBlocks.flatMap (ExtendNode.items inner chain)

/-- The declarations in the messages of one list. -/
def itemsAll (scope : Text) (chain : List (List OptionNode)) : List MessageNode → List Placed
  | [] => []
  | message :: messages => message.items scope chain ++ itemsAll scope chain messages

end

/-- The scope of the declarations at the top of a file: `.package`, or nothing. -/
def FileNode.scope (file : FileNode) : Text :=
  if file.package.isEmpty then [] else byte '.' :: file.package

/-- The declarations in a file. -/
def FileNode.items (file : FileNode) : List Placed :=
  itemsAll file.scope [file.options] file.messages ++
    placeEnums file.scope [file.options] file.enums ++
    file.extendBlocks.flatMap (ExtendNode.items file.scope [file.options])

theorem MessageNode.items_eq (scope : Text) (chain : List (List OptionNode))
    (message : MessageNode) :
    message.items scope chain =
      placeFields (qualify scope message.name) (chain ++ [message.options]) .plain
          message.fields ++
        message.oneofs.flatMap
          (OneofNode.items (qualify scope message.name) (chain ++ [message.options])) ++
        placeMaps (qualify scope message.name) (chain ++ [message.options]) message.mapFields ++
        placeEnums (qualify scope message.name) (chain ++ [message.options]) message.enums ++
        itemsAll (qualify scope message.name) (chain ++ [message.options])
          message.nestedMessages ++
        message.extendBlocks.flatMap
          (ExtendNode.items (qualify scope message.name) (chain ++ [message.options])) := by
  cases message
  rfl

end Front
end RapidProto
