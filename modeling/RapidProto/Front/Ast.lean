import Mathlib.Data.List.Basic
import RapidProto.Wire.Basic

/-!
# The normalized syntax tree

The nodes of `ast.hpp`, which the parser fills and the analysis passes rewrite in place.  A string
is its bytes; a floating-point literal is kept as its text, since no pass looks at its value.
-/

namespace RapidProto
namespace Front

/-- A `std::string`. -/
abbrev Text := List Byte

/-- The byte of an ASCII character. -/
def byte (c : Char) : Byte := BitVec.ofNat 8 c.toNat

/-- The bytes of an ASCII literal. -/
def text (literal : String) : Text := literal.toList.map byte

/-- A `Result`'s error. -/
structure Error where
  /-- The source the offset indexes into, if any. -/
  source : Option Nat := none
  /-- Offset into that source. -/
  byteOffset : Nat := 0
  /-- Text of the error. -/
  message : Text
  /-- A committed error, which combinators that backtrack hand on. -/
  fatal : Bool := false
  deriving DecidableEq, Repr

/-! ## Normalized semantic enumerations -/

/-- Language level of a file. -/
inductive SyntaxLevel where
  | proto2 | proto3 | edition
  deriving DecidableEq, Repr

/-- Presence of a singular field. -/
inductive FieldPresence where
  | explicit | implicit | required
  deriving DecidableEq, Repr

/-- What an enum does with a number it does not declare. -/
inductive EnumOpenness where
  | opened | closed
  deriving DecidableEq, Repr

/-- Wire form of a repeated field. -/
inductive RepeatedEncoding where
  | packed | expanded
  deriving DecidableEq, Repr

/-- Wire form of a message field; delimited is the group form. -/
inductive MessageEncoding where
  | lengthPrefixed | delimited
  deriving DecidableEq, Repr

/-- Form of an import. -/
inductive ImportKind where
  | standard | publicly | weakly | option
  deriving DecidableEq, Repr

/-- Visibility modifier of a declaration. -/
inductive Visibility where
  | unmarked | exported | localOnly
  deriving DecidableEq, Repr

/-- The largest field number. -/
def kMaxMessageFieldNumber : BitVec 32 := 536870911

/-- The largest enum number. -/
def kMaxEnumNumber : BitVec 32 := 0x7fffffff

/-! ## Options -/

/-- Form of a field name in a message literal. -/
inductive MessageFieldNameKind where
  | simple | extension | anyTypeUrl
  deriving DecidableEq, Repr

mutual

/-- A text-format value. -/
inductive OptionValue where
  | bool (value : Bool)
  | int (value : Int)
  | uint (value : Nat)
  | double (negative : Bool) (literal : Text)
  | identifier (name : Text)
  | string (value : Text)
  | message (fields : List MessageLiteralField)
  | list (elements : List OptionValue)

/-- One field of a message literal. -/
inductive MessageLiteralField where
  | mk (nameKind : MessageFieldNameKind) (name anyType : Text) (value : OptionValue)

end

namespace MessageLiteralField

/-- Form of the name. -/
def nameKind : MessageLiteralField → MessageFieldNameKind
  | mk kind _ _ _ => kind

/-- The name; for a type URL its domain. -/
def name : MessageLiteralField → Text
  | mk _ name _ _ => name

/-- The value. -/
def value : MessageLiteralField → OptionValue
  | mk _ _ _ value => value

end MessageLiteralField

/-- One dotted component of an option name. -/
structure OptionNameComponent where
  /-- The component as written, without parentheses. -/
  name : Text
  /-- The component is parenthesised. -/
  isExtension : Bool := false
  deriving DecidableEq, Repr

/-- An option setting. -/
structure OptionNode where
  /-- The dotted name. -/
  name : List OptionNameComponent := []
  /-- The value. -/
  value : OptionValue

/-! ## Declarations -/

/-- An inclusive range of numbers. -/
structure NumberRange where
  start : BitVec 32 := 0
  stop : BitVec 32 := 0
  deriving DecidableEq, Repr

/-- A `reserved` declaration. -/
structure ReservedNode where
  ranges : List NumberRange := []
  names : List Text := []

/-- An enum value. -/
structure EnumValueNode where
  name : Text
  number : BitVec 32 := 0
  options : List OptionNode := []
  /-- Set with the qualified names. -/
  fqn : Text := []

/-- An enum. -/
structure EnumNode where
  name : Text
  visibility : Visibility := .unmarked
  openness : EnumOpenness := .opened
  values : List EnumValueNode := []
  reserved : List ReservedNode := []
  options : List OptionNode := []
  /-- Set with the qualified names. -/
  fqn : Text := []

/-- A field, an extension or a oneof member. -/
structure FieldNode where
  name : Text
  /-- The type as written. -/
  typeName : Text
  number : BitVec 32 := 0
  offset : Nat := 0
  presence : FieldPresence := .explicit
  isRepeated : Bool := false
  repeatedEncoding : RepeatedEncoding := .expanded
  isGroup : Bool := false
  messageEncoding : MessageEncoding := .lengthPrefixed
  /-- The `default` option as parsed. -/
  defaultValue : Option OptionValue := none
  options : List OptionNode := []
  /-- Set with the qualified names, for an extension. -/
  fqn : Text := []
  /-- Set by type resolution; empty for a scalar. -/
  resolvedTypeFqn : Text := []
  isMessageType : Bool := false
  isEnumType : Bool := false

/-- A map field. -/
structure MapFieldNode where
  name : Text
  keyType : Text
  valueType : Text
  number : BitVec 32 := 0
  offset : Nat := 0
  options : List OptionNode := []
  /-- Set by type resolution; empty for a scalar. -/
  resolvedValueTypeFqn : Text := []
  valueIsMessage : Bool := false
  valueIsEnum : Bool := false

/-- A oneof. -/
structure OneofNode where
  name : Text
  fields : List FieldNode := []
  options : List OptionNode := []

/-- An `extensions` declaration. -/
structure ExtensionRangeNode where
  ranges : List NumberRange := []
  options : List OptionNode := []

/-- An `extend` block. -/
structure ExtendNode where
  extendeeTypeName : Text := []
  offset : Nat := 0
  fields : List FieldNode := []

/-- A message. -/
structure MessageNode where
  name : Text
  visibility : Visibility := .unmarked
  fields : List FieldNode := []
  mapFields : List MapFieldNode := []
  oneofs : List OneofNode := []
  enums : List EnumNode := []
  nestedMessages : List MessageNode := []
  reserved : List ReservedNode := []
  extensionRanges : List ExtensionRangeNode := []
  extendBlocks : List ExtendNode := []
  options : List OptionNode := []
  /-- Set with the qualified names. -/
  fqn : Text := []

/-- An import. -/
structure ImportNode where
  path : Text
  kind : ImportKind := .standard
  deriving DecidableEq, Repr

/-- A file. -/
structure FileNode where
  syntaxLevel : SyntaxLevel := .proto2
  edition : Text := []
  editionOffset : Nat := 0
  package : Text := []
  filename : Text := []
  /-- Index of its text in the source registry. -/
  source : Nat := 0
  imports : List ImportNode := []
  messages : List MessageNode := []
  enums : List EnumNode := []
  extendBlocks : List ExtendNode := []
  options : List OptionNode := []

/-! ## Scalar types -/

/-- Every scalar keyword. -/
def scalarTypes : List Text :=
  [text "int32", text "int64", text "uint32", text "uint64", text "sint32", text "sint64",
    text "fixed32", text "fixed64", text "sfixed32", text "sfixed64", text "float", text "double",
    text "bool", text "string", text "bytes"]

/-- `is_scalar_type`. -/
def isScalarType (type : Text) : Bool := scalarTypes.contains type

/-- Scalars that a repeated field may pack. -/
def isPackableScalar (type : Text) : Bool :=
  isScalarType type && type != text "string" && type != text "bytes"

/-- Scalars allowed as a map key. -/
def isValidMapKeyType (type : Text) : Bool :=
  isScalarType type && type != text "float" && type != text "double" && type != text "bytes"

end Front
end RapidProto
