import RapidProto.Front.Items
import RapidProto.Outcome

/-!
# Option interpretation

The pass of `interpret.cpp`: `packed` overrides the encoding of a repeated packable scalar,
`default` is kept as parsed, and a message in the MessageSet format is warned about.
-/

namespace RapidProto
namespace Front

/-- The option has one plain component of this name. -/
def OptionNode.isSimple (option : OptionNode) (name : Text) : Bool :=
  match option.name with
  | [component] => !component.isExtension && component.name == name
  | _ => false

/-- The value of the first simple option of a name. -/
def findOption (options : List OptionNode) (name : Text) : Option OptionValue :=
  (options.find? (OptionNode.isSimple · name)).map OptionNode.value

/-- What an explicit `packed` option asks for. -/
def packedOption (options : List OptionNode) : Option RepeatedEncoding :=
  match findOption options (text "packed") with
  | some (.identifier value) =>
    if value = text "true" then some .packed
    else if value = text "false" then some .expanded
    else none
  | _ => none

/-- `interpret_field`. -/
def FieldNode.interpret (field : FieldNode) : FieldNode :=
  { field with
    repeatedEncoding :=
      if field.isRepeated && isPackableScalar field.typeName then
        (packedOption field.options).getD field.repeatedEncoding
      else field.repeatedEncoding
    defaultValue := (findOption field.options (text "default")).or field.defaultValue }

/-- `declares_message_set`. -/
def declaresMessageSet (options : List OptionNode) : Bool :=
  match findOption options (text "message_set_wire_format") with
  | some (.identifier value) => value == text "true"
  | _ => false

/-- The warning about a message. -/
def messageSetWarning (fqn : Text) : Text :=
  text "warning: " ++ fqn ++
    text " uses the MessageSet wire format; it holds only extensions, which this decoder does" ++
    text " not materialize, so the message will decode as unknown fields"

/-- The loop over the members of a oneof. -/
def OneofNode.interpret (oneof : OneofNode) : OneofNode :=
  { oneof with fields := oneof.fields.map FieldNode.interpret }

/-- The loop over the fields of an `extend` block. -/
def ExtendNode.interpret (node : ExtendNode) : ExtendNode :=
  { node with fields := node.fields.map FieldNode.interpret }

mutual

/-- `interpret_message`; the warnings come with the message. -/
def MessageNode.interpret : MessageNode → MessageNode × List Text
  | ⟨name, visibility, fields, mapFields, oneofs, enums, nestedMessages, reserved,
      extensionRanges, extendBlocks, options, fqn⟩ =>
    let (nestedMessages, warnings) := interpretAll nestedMessages
    ({ name, visibility
       fields := fields.map FieldNode.interpret
       mapFields
       oneofs := oneofs.map OneofNode.interpret
       enums, nestedMessages, reserved, extensionRanges
       extendBlocks := extendBlocks.map ExtendNode.interpret
       options, fqn },
      (if declaresMessageSet options then [messageSetWarning fqn] else []) ++ warnings)

/-- The same for all messages of a list. -/
def interpretAll : List MessageNode → List MessageNode × List Text
  | [] => ([], [])
  | message :: messages =>
    let (first, warnings) := message.interpret
    let (rest, more) := interpretAll messages
    (first :: rest, warnings ++ more)

end

/-- `interpret_options` of one file. -/
def FileNode.interpretOptions (file : FileNode) : FileNode × List Text :=
  let (messages, warnings) := interpretAll file.messages
  ({ file with messages, extendBlocks := file.extendBlocks.map ExtendNode.interpret }, warnings)

/-- `interpret_options` of a file set. -/
def interpretOptions (files : List FileNode) : List FileNode × List Text :=
  (files.map fun file => file.interpretOptions.1, files.flatMap fun file => file.interpretOptions.2)

end Front
end RapidProto
