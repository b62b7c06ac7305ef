import RapidProto.Front.Items

/-!
# Qualified names

The pass `compute_fqns`: a message, an enum and an extension are named by the scope they are
declared in, and an enum value by the scope of its enum.
-/

namespace RapidProto
namespace Front

/-- `assign_enum_fqn`; the values are siblings of the enum. -/
def EnumNode.assignFqn (node : EnumNode) (scope : Text) : EnumNode :=
  { node with
    fqn := qualify scope node.name
    values := node.values.map fun value => { value with fqn := qualify scope value.name } }

/-- Name an extension. -/
def FieldNode.assignFqn (field : FieldNode) (scope : Text) : FieldNode :=
  { field with fqn := qualify scope field.name }

/-- `assign_extend_fqns`. -/
def ExtendNode.assignFqns (node : ExtendNode) (scope : Text) : ExtendNode :=
  { node with fields := node.fields.map (FieldNode.assignFqn · scope) }

mutual

/-- `assign_message_fqn`. -/
def MessageNode.assignFqn (scope : Text) : MessageNode → MessageNode
  | ⟨name, visibility, fields, mapFields, oneofs, enums, nestedMessages, reserved,
      extensionRanges, extendBlocks, options, _⟩ =>
    let fqn := qualify scope name
    { name, visibility, fields, mapFields, oneofs
      enums := enums.map (EnumNode.assignFqn · fqn)
      nestedMessages := assignFqnAll fqn nestedMessages
      reserved, extensionRanges
      extendBlocks := extendBlocks.map (ExtendNode.assignFqns · fqn)
      options, fqn }

/-- The same for all messages of a list. -/
def assignFqnAll (scope : Text) : List MessageNode → List MessageNode
  | [] => []
  | message :: messages => message.assignFqn scope :: assignFqnAll scope messages

end

/-- `compute_fqns` of one file. -/
def FileNode.computeFqns (file : FileNode) : FileNode :=
  { file with
    messages := assignFqnAll file.scope file.messages
    enums := file.enums.map (EnumNode.assignFqn · file.scope)
    extendBlocks := file.extendBlocks.map (ExtendNode.assignFqns · file.scope) }

end Front
end RapidProto
