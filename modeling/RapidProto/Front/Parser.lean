import RapidProto.Front.Lexer

/-!
# The schema parser

The productions of `parser.cpp` over ranges of tokens.  The source counts the live bodies and
aggregates in a thread-local counter; here a production is given how many more of them may be
entered, and one that would enter a body with none left fails as `DepthGuard` makes it fail.  The
recursive productions take the parsers they recurse into as arguments, and the recursion itself goes
through the count.
-/

namespace RapidProto
namespace Front
namespace Parse

/-! ## The depth guard -/

/-- `kMaxParseDepth`. -/
def kMaxParseDepth : Nat := 50

/-- Text of the error of the guard. -/
def depthExceeded : Text := text "maximum nesting depth exceeded"

/-- `too_deep`. -/
def tooDeep : Error := { byteOffset := 0, message := depthExceeded, fatal := true }

/-! ## Token matchers -/

/-- `is_keyword`. -/
def isKeyword (k : TokenKind) : Bool :=
  TokenKind.kwSyntax.ctorIdx ≤ k.ctorIdx && k.ctorIdx ≤ TokenKind.kwNan.ctorIdx

/-- `is_name_token`. -/
def isNameToken (t : Token) : Bool := t.kind == .identifier || isKeyword t.kind

/-- `kind`. -/
def kind (k : TokenKind) : Parser Token Token := one fun t => t.kind == k

/-- `name_token`. -/
def nameToken : Parser Token Token := one isNameToken

/-- `sign_token`. -/
def signToken : Parser Token Token := one fun t => t.kind == .minus || t.kind == .plus

/-- `number_token`. -/
def numberToken : Parser Token Token := one fun t =>
  t.kind == .intLiteral || t.kind == .floatLiteral || t.kind == .kwInf || t.kind == .kwNan

/-! ## Numeric values -/

/-- `split_int_literal`. -/
def splitIntLiteral (literal : Text) : Nat × Text :=
  match literal with
  | first :: second :: rest =>
    if first == byte '0' && (second == byte 'x' || second == byte 'X') then (16, rest)
    else if first == byte '0' then (8, second :: rest)
    else (10, literal)
  | _ => (10, literal)

/-- What `std::from_chars` reports for a `std::uint64_t`. -/
inductive FromChars where
  | value (n : Nat)
  | invalidArgument
  | resultOutOfRange
  deriving DecidableEq, Repr

/-- A digit of a base. -/
def isDigitOf (base : Nat) (c : Byte) : Bool := isHexDigit c && decide ((hexValue c).toNat < base)

/-- `std::from_chars`: the longest front of digits. -/
def fromChars (base : Nat) (digits : Text) : FromChars :=
  let front := digits.takeWhile (isDigitOf base)
  let n := front.foldl (fun n c => n * base + (hexValue c).toNat) 0
  if front.isEmpty then .invalidArgument else if n < 2 ^ 64 then .value n else .resultOutOfRange

/-- The variable that `std::from_chars` was given, which it sets on success only. -/
def FromChars.magnitude : FromChars → Nat
  | .value n => n
  | .invalidArgument | .resultOutOfRange => 0

/-- `make_float`. -/
def makeFloat (literal : Text) (negative : Bool) : OptionValue := .double negative literal

/-- `make_int`. -/
def makeInt (literal : Text) (negative : Bool) : OptionValue :=
  let (base, digits) := splitIntLiteral literal
  let parsed := fromChars base digits
  if parsed = .resultOutOfRange then makeFloat literal negative
  else if negative then
    if 2 ^ 63 < parsed.magnitude then makeFloat literal negative else .int (-parsed.magnitude)
  else .uint parsed.magnitude

/-- `interpret_number`. -/
def interpretNumber (sign : Option Token) (num : Token) : OptionValue :=
  let negative := sign.any fun t => t.kind == .minus
  if num.kind = .intLiteral then makeInt num.text negative else makeFloat num.text negative

/-- `parse_int32`. -/
def parseInt32 (literal : Text) (negative : Bool) : BitVec 32 :=
  let (base, digits) := splitIntLiteral literal
  let mag := BitVec.ofNat 64 (fromChars base digits).magnitude
  (if negative then 0 - mag else mag).setWidth 32

/-! ## Fragments without recursion -/

/-- Names joined by dots. -/
def dotted (first : Token) (rest : List Token) : Text :=
  rest.foldl (fun out t => out ++ byte '.' :: t.text) first.text

/-- `qualified_ident`. -/
def qualifiedIdent : Parser Token Text :=
  map (seq nameToken (many (preceded (kind .dot) nameToken))) fun parts => dotted parts.1 parts.2

/-- A field of a message literal with only its name set. -/
def namedField (nameKind : MessageFieldNameKind) (name anyType : Text) : MessageLiteralField :=
  .mk nameKind name anyType (.bool false)

/-- Set the value of a field. -/
def withValue : MessageLiteralField → OptionValue → MessageLiteralField
  | .mk nameKind name anyType _, value => .mk nameKind name anyType value

/-- `field_name`. -/
def fieldName : Parser Token MessageLiteralField :=
  alt (map nameToken fun t => namedField .simple t.text [])
    (map (seq (kind .lBracket) (seq qualifiedIdent (seq (opt (preceded (kind .slash) qualifiedIdent))
      (kind .rBracket)))) fun (_, name, type, _) =>
        match type with
        | some type => namedField .anyTypeUrl name type
        | none => namedField .extension name [])

/-- `option_name_component`. -/
def optionNameComponent : Parser Token OptionNameComponent :=
  alt (map nameToken fun t => { name := t.text })
    (map (seq (kind .lParen) (seq (opt (kind .dot)) (seq qualifiedIdent (kind .rParen))))
      fun (_, dot, name, _) =>
        { name := (if dot.isSome then [byte '.'] else []) ++ name, isExtension := true })

/-- `parse_scalar`. -/
def parseScalar : Parser Token OptionValue :=
  alt (map (seq (opt signToken) numberToken) fun parts => interpretNumber parts.1 parts.2)
    (alt (map (kind .stringLiteral) fun t => .string t.strValue)
      (map nameToken fun t => .identifier t.text))

/-- `parse_option_name`. -/
def parseOptionName : Parser Token (List OptionNameComponent) :=
  map (seq optionNameComponent (many (preceded (kind .dot) optionNameComponent)))
    fun parts => parts.1 :: parts.2

/-! ## Option values -/

/-- `MessageLiteral`. -/
abbrev MessageLiteral := List MessageLiteralField

/-- `ListLiteral`. -/
abbrev ListLiteral := List OptionValue

section Values

variable (message : Parser Token MessageLiteral) (list : Parser Token ListLiteral)

/-- `parse_value` over the parsers of the aggregates. -/
def valueOf : Parser Token OptionValue :=
  alt (map message .message) (alt (map list .list) parseScalar)

/-- `parse_field_value`. -/
def fieldValueOf : Parser Token OptionValue :=
  alt (preceded (kind .colon) (valueOf message list))
    (alt (map message .message) (map list .list))

/-- `parse_message_field`. -/
def messageFieldOf : Parser Token MessageLiteralField :=
  map (seq fieldName (fieldValueOf message list)) fun parts => withValue parts.1 parts.2

/-- `message_body` of a message literal. -/
def literalBodyOf : Parser Token MessageLiteral :=
  map (many (seq (messageFieldOf message list) (opt (alt (kind .comma) (kind .semicolon)))))
    fun items => items.map Prod.fst

/-- What `parse_message_literal` runs inside its guard. -/
def messageLiteralOf : Parser Token MessageLiteral :=
  alt (delimited (kind .lBrace) (literalBodyOf message list) (cut (kind .rBrace)))
    (delimited (kind .lAngle) (literalBodyOf message list) (cut (kind .rAngle)))

/-- What `parse_list_literal` runs inside its guard. -/
def listLiteralOf : Parser Token ListLiteral :=
  delimited (kind .lBracket) (separatedList (valueOf message list) (kind .comma))
    (cut (kind .rBracket))

end Values

mutual

/-- `parse_message_literal`, with so many more levels to enter. -/
def parseMessageLiteral : (left : Nat) → Parser Token MessageLiteral
  | 0 => fun _ => .fail tooDeep
  | left + 1 => messageLiteralOf (parseMessageLiteral left) (parseListLiteral left)

/-- `parse_list_literal`. -/
def parseListLiteral : (left : Nat) → Parser Token ListLiteral
  | 0 => fun _ => .fail tooDeep
  | left + 1 => listLiteralOf (parseMessageLiteral left) (parseListLiteral left)

end

/-- `parse_value`. -/
def parseValue (left : Nat) : Parser Token OptionValue :=
  valueOf (parseMessageLiteral left) (parseListLiteral left)

/-- `compact_option`. -/
def compactOption (left : Nat) : Parser Token OptionNode :=
  map (seq parseOptionName (seq (cut (kind .equals)) (cut (parseValue left))))
    fun (name, _, value) => { name, value }

/-- `parse_option_decl`. -/
def parseOptionDecl (left : Nat) : Parser Token OptionNode :=
  map (seq (kind .kwOption) (seq (cut parseOptionName) (seq (cut (kind .equals))
    (seq (cut (parseValue left)) (cut (kind .semicolon)))))) fun (_, name, _, value, _) =>
      { name, value }

/-- `parse_compact_options`. -/
def parseCompactOptions (left : Nat) : Parser Token (List OptionNode) :=
  delimited (kind .lBracket) (separatedList (compactOption left) (kind .comma))
    (cut (kind .rBracket))

/-! ## Enums -/

/-- `signed_int`. -/
def signedInt : Parser Token (BitVec 32) :=
  map (seq (opt (kind .minus)) (kind .intLiteral)) fun parts =>
    parseInt32 parts.2.text parts.1.isSome

/-- `reserved_range`. -/
def reservedRange (maxSentinel : BitVec 32) : Parser Token NumberRange :=
  map (seq signedInt (opt (preceded (kind .kwTo)
    (alt (map (kind .kwMax) fun _ => maxSentinel) signedInt)))) fun parts =>
      { start := parts.1, stop := parts.2.getD parts.1 }

/-- `reserved_name`. -/
def reservedName : Parser Token Text :=
  alt (map (kind .stringLiteral) Token.strValue) (map nameToken Token.text)

/-- One or more of a production, separated by commas. -/
def commaList {α : Type} (item : Parser Token α) : Parser Token (List α) :=
  map (seq item (many (preceded (kind .comma) item))) fun parts => parts.1 :: parts.2

/-- `parse_reserved`. -/
def parseReserved (maxSentinel : BitVec 32) : Parser Token ReservedNode :=
  delimited (kind .kwReserved)
    (alt (map (commaList (reservedRange maxSentinel)) fun ranges => { ranges })
      (map (commaList reservedName) fun names => { names }))
    (cut (kind .semicolon))

/-- `enum_value_decl`. -/
def enumValueDecl (left : Nat) : Parser Token EnumValueNode :=
  map (seq nameToken (seq (cut (kind .equals)) (seq (cut signedInt)
    (seq (opt (parseCompactOptions left)) (cut (kind .semicolon))))))
    fun (name, _, number, options, _) => { name := name.text, number, options := options.getD [] }

/-- `visibility_modifier`. -/
def visibilityModifier : Parser Token (Option Visibility) :=
  opt (alt (map (kind .kwExport) fun _ => .exported) (map (kind .kwLocal) fun _ => .localOnly))

/-- `EnumElement`. -/
inductive EnumElement where
  | value (node : EnumValueNode)
  | option (node : OptionNode)
  | reserved (node : ReservedNode)
  | empty

/-- One element of an enum body. -/
def enumElement (left : Nat) : Parser Token EnumElement :=
  alt (map (parseOptionDecl left) .option)
    (alt (map (parseReserved kMaxEnumNumber) .reserved)
      (alt (map (enumValueDecl left) .value) (map (kind .semicolon) fun _ => .empty)))

/-- `enum_body`. -/
def enumBody (left : Nat) : Parser Token (List EnumElement) := many (enumElement left)

/-- Add an element to an enum. -/
def pushEnum (node : EnumNode) : EnumElement → EnumNode
  | .value value => { node with values := node.values ++ [value] }
  | .option option => { node with options := node.options ++ [option] }
  | .reserved reserved => { node with reserved := node.reserved ++ [reserved] }
  | .empty => node

/-- `assemble_enum`. -/
def assembleEnum (name : Text) (elements : List EnumElement) (level : SyntaxLevel) : EnumNode :=
  elements.foldl pushEnum { name, openness := if level = .proto2 then .closed else .opened }

/-- `parse_enum`. -/
def parseEnum (left : Nat) (level : SyntaxLevel) : Parser Token EnumNode :=
  map (seq visibilityModifier (seq (kind .kwEnum) (seq (cut nameToken) (seq (cut (kind .lBrace))
    (seq (enumBody left) (cut (kind .rBrace)))))))
    fun (visibility, _, name, _, elements, _) =>
      let node := assembleEnum name.text elements level
      { node with visibility := visibility.getD node.visibility }

/-! ## Fields, map fields and oneof members -/

/-- `type_name`. -/
def typeName : Parser Token Text :=
  map (seq (opt (kind .dot)) qualifiedIdent) fun parts =>
    (if parts.1.isSome then [byte '.'] else []) ++ parts.2

/-- `field_number`. -/
def fieldNumber : Parser Token (BitVec 32) :=
  map (kind .intLiteral) fun t => parseInt32 t.text false

/-- `Cardinality`. -/
inductive Cardinality where
  | required | optional | repeated
  deriving DecidableEq, Repr

/-- `cardinality`. -/
def cardinality : Parser Token Cardinality :=
  alt (map (kind .kwRequired) fun _ => .required)
    (alt (map (kind .kwOptional) fun _ => .optional) (map (kind .kwRepeated) fun _ => .repeated))

/-- `default_repeated_encoding`. -/
def defaultRepeatedEncoding (type : Text) (level : SyntaxLevel) : RepeatedEncoding :=
  if !isPackableScalar type then .expanded else if level = .proto2 then .expanded else .packed

/-- `build_field`. -/
def buildField (card : Option Cardinality) (type name : Text) (number : BitVec 32)
    (options : Option (List OptionNode)) (level : SyntaxLevel) : FieldNode :=
  let field : FieldNode := { name, typeName := type, number, options := options.getD [] }
  if card = some .repeated then
    { field with isRepeated := true, repeatedEncoding := defaultRepeatedEncoding type level }
  else if card = some .required then { field with presence := .required }
  else if card = none ∧ level = .proto3 then { field with presence := .implicit }
  else { field with presence := .explicit }

/-- `oneof_field`. -/
def oneofField (left : Nat) : Parser Token FieldNode :=
  map (seq typeName (seq nameToken (seq (cut (kind .equals)) (seq (cut fieldNumber)
    (seq (opt (parseCompactOptions left)) (cut (kind .semicolon)))))))
    fun (type, name, _, number, options, _) =>
      { name := name.text, typeName := type, number, offset := name.byteOffset
        presence := .explicit, options := options.getD [] }

/-- `parse_field`. -/
def parseField (left : Nat) (level : SyntaxLevel) : Parser Token FieldNode :=
  map (seq (opt cardinality) (seq typeName (seq nameToken
    (seq (preceded (cut (kind .equals)) (cut fieldNumber))
      (seq (opt (parseCompactOptions left)) (cut (kind .semicolon)))))))
    fun (card, type, name, number, options, _) =>
      { buildField card type name.text number options level with offset := name.byteOffset }

/-- `parse_map_field`. -/
def parseMapField (left : Nat) : Parser Token MapFieldNode :=
  map (seq (preceded (seq (kind .kwMap) (cut (kind .lAngle))) (cut typeName))
    (seq (preceded (cut (kind .comma)) (cut typeName))
      (seq (preceded (cut (kind .rAngle)) (cut nameToken))
        (seq (preceded (cut (kind .equals)) (cut fieldNumber))
          (seq (opt (parseCompactOptions left)) (cut (kind .semicolon)))))))
    fun (keyType, valueType, name, number, options, _) =>
      { keyType, valueType, name := name.text, offset := name.byteOffset, number
        options := options.getD [] }

/-- `extension_range`. -/
def extensionRange (left : Nat) : Parser Token ExtensionRangeNode :=
  map (seq (preceded (kind .kwExtensions) (commaList (reservedRange kMaxMessageFieldNumber)))
    (seq (opt (parseCompactOptions left)) (cut (kind .semicolon))))
    fun (ranges, options, _) => { ranges, options := options.getD [] }

/-! ## Messages, groups and extend blocks -/

/-- `to_lower`, in the classic locale. -/
def toLower (name : Text) : Text := name.map fun c => if within 'A' 'Z' c then c + 0x20 else c

/-- `GroupDecl`. -/
structure GroupDecl where
  field : FieldNode
  message : MessageNode

/-- `ExtendBundle`. -/
structure ExtendBundle where
  node : ExtendNode := {}
  groupMessages : List MessageNode := []

/-- `OneofBundle`. -/
structure OneofBundle where
  node : OneofNode
  groupMessages : List MessageNode := []

/-- `OneofElement`. -/
inductive OneofElement where
  | field (node : FieldNode)
  | group (decl : GroupDecl)
  | option (node : OptionNode)

/-- Add an element to a oneof. -/
def pushOneof (bundle : OneofBundle) : OneofElement → OneofBundle
  | .field field =>
    { bundle with node := { bundle.node with fields := bundle.node.fields ++ [field] } }
  | .group group =>
    { node := { bundle.node with fields := bundle.node.fields ++ [group.field] }
      groupMessages := bundle.groupMessages ++ [group.message] }
  | .option option =>
    { bundle with node := { bundle.node with options := bundle.node.options ++ [option] } }

/-- `assemble_oneof`. -/
def assembleOneof (name : Text) (elements : List OneofElement) : OneofBundle :=
  elements.foldl pushOneof { node := { name } }

/-- `MessageElement`. -/
inductive MessageElement where
  | field (node : FieldNode)
  | mapField (node : MapFieldNode)
  | oneof (bundle : OneofBundle)
  | enum (node : EnumNode)
  | message (node : MessageNode)
  | reserved (node : ReservedNode)
  | extensions (node : ExtensionRangeNode)
  | extend (bundle : ExtendBundle)
  | option (node : OptionNode)
  | group (decl : GroupDecl)
  | empty

/-- Add an element to a message. -/
def pushMessage (node : MessageNode) : MessageElement → MessageNode
  | .field field => { node with fields := node.fields ++ [field] }
  | .mapField field => { node with mapFields := node.mapFields ++ [field] }
  | .oneof bundle =>
    { node with
      oneofs := node.oneofs ++ [bundle.node]
      nestedMessages := node.nestedMessages ++ bundle.groupMessages }
  | .enum enum => { node with enums := node.enums ++ [enum] }
  | .message message => { node with nestedMessages := node.nestedMessages ++ [message] }
  | .reserved reserved => { node with reserved := node.reserved ++ [reserved] }
  | .extensions range => { node with extensionRanges := node.extensionRanges ++ [range] }
  | .extend bundle =>
    { node with
      extendBlocks := node.extendBlocks ++ [bundle.node]
      nestedMessages := node.nestedMessages ++ bundle.groupMessages }
  | .option option => { node with options := node.options ++ [option] }
  | .group group =>
    { node with
      fields := node.fields ++ [group.field]
      nestedMessages := node.nestedMessages ++ [group.message] }
  | .empty => node

/-- `assemble_message`. -/
def assembleMessage (name : Text) (elements : List MessageElement) : MessageNode :=
  elements.foldl pushMessage { name }

/-- `ExtendElement`. -/
inductive ExtendElement where
  | field (node : FieldNode)
  | group (decl : GroupDecl)

/-- Add an element to an `extend` block. -/
def pushExtend (bundle : ExtendBundle) : ExtendElement → ExtendBundle
  | .field field =>
    { bundle with node := { bundle.node with fields := bundle.node.fields ++ [field] } }
  | .group group =>
    { node := { bundle.node with fields := bundle.node.fields ++ [group.field] }
      groupMessages := bundle.groupMessages ++ [group.message] }

section Bodies

variable (left : Nat) (level : SyntaxLevel) (body : Parser Token (List MessageElement))

/-- `parse_group`. -/
def parseGroup : Parser Token GroupDecl :=
  map (seq (opt cardinality) (seq (preceded (kind .kwGroup) (cut nameToken))
    (seq (preceded (cut (kind .equals)) (cut fieldNumber))
      (seq (opt (parseCompactOptions left))
        (delimited (cut (kind .lBrace)) body (cut (kind .rBrace)))))))
    fun (card, name, number, options, elements) =>
      { field :=
          { buildField card name.text (toLower name.text) number options level with
            offset := name.byteOffset, isGroup := true, messageEncoding := .delimited }
        message := assembleMessage name.text elements }

/-- `parse_message`. -/
def parseMessage : Parser Token MessageNode :=
  map (seq visibilityModifier (seq (kind .kwMessage) (seq (cut nameToken)
    (delimited (cut (kind .lBrace)) body (cut (kind .rBrace))))))
    fun (visibility, _, name, elements) =>
      let node := assembleMessage name.text elements
      { node with visibility := visibility.getD node.visibility }

/-- A cardinality keyword. -/
def isLabel (t : Token) : Bool :=
  t.kind == .kwRequired || t.kind == .kwOptional || t.kind == .kwRepeated

/-- `oneof_element`. -/
def oneofElement : Parser Token OneofElement := fun input =>
  if input.items.head?.any isLabel then
    .fail
      { byteOffset := 0
        message := text "a oneof member must not have a label (required/optional/repeated)"
        fatal := true }
  else
    alt (map (parseOptionDecl left) .option)
      (alt (map (parseGroup left level body) .group) (map (oneofField left) .field)) input

/-- `oneof_body`. -/
def oneofBody : Parser Token (List OneofElement) := many (oneofElement left level body)

/-- `parse_oneof`. -/
def parseOneof : Parser Token OneofBundle :=
  map (seq (kind .kwOneof) (seq (cut nameToken) (seq (cut (kind .lBrace))
    (seq (oneofBody left level body) (cut (kind .rBrace))))))
    fun (_, name, _, elements, _) => assembleOneof name.text elements

/-- `extend_element`. -/
def extendElement : Parser Token ExtendElement :=
  alt (map (parseGroup left level body) .group) (map (parseField left level) .field)

/-- What `parse_extend` runs, with the offset of its keyword. -/
def extendAt (offset : Nat) : Parser Token ExtendBundle :=
  map (seq (preceded (kind .kwExtend) (cut typeName))
    (delimited (cut (kind .lBrace)) (many (extendElement left level body)) (cut (kind .rBrace))))
    fun parts => parts.2.foldl pushExtend { node := { extendeeTypeName := parts.1, offset } }

/-- `parse_extend`. -/
def parseExtend : Parser Token ExtendBundle := fun input =>
  extendAt left level body ((input.items.head?.map Token.byteOffset).getD 0) input

/-- `message_element`. -/
def messageElement : Parser Token MessageElement :=
  alt (map (parseOptionDecl left) .option)
    (alt (map (parseMapField left) .mapField)
      (alt (map (parseOneof left level body) .oneof)
        (alt (map (parseReserved kMaxMessageFieldNumber) .reserved)
          (alt (map (extensionRange left) .extensions)
            (alt (map (parseExtend left level body) .extend)
              (alt (map (parseMessage body) .message)
                (alt (map (parseEnum left level) .enum)
                  (alt (map (parseGroup left level body) .group)
                    (alt (map (parseField left level) .field)
                      (map (kind .semicolon) fun _ => .empty))))))))))

end Bodies

/-- `message_body`, with so many more levels to enter. -/
def messageBody (level : SyntaxLevel) : (left : Nat) → Parser Token (List MessageElement)
  | 0 => fun _ => .fail tooDeep
  | left + 1 => many (messageElement left level (messageBody level left))

/-! ## Files -/

/-- `SyntaxInfo`. -/
structure SyntaxInfo where
  level : SyntaxLevel := .proto2
  edition : Text := []
  editionOffset : Nat := 0

/-- The loop of `balanced_braces`: how many tokens the block is, given how many braces are open. -/
def bracesLoop : (depth : Nat) → List Token → Option Nat
  | _, [] => none
  | depth, t :: rest =>
    if t.kind = .lBrace then (bracesLoop (depth + 1) rest).map (· + 1)
    else if t.kind = .rBrace then
      if depth - 1 = 0 then some 1 else (bracesLoop (depth - 1) rest).map (· + 1)
    else (bracesLoop depth rest).map (· + 1)

/-- `balanced_braces`. -/
def balancedBraces : Parser Token Unit := fun input =>
  if input.items.head?.any fun t => t.kind == .lBrace then
    match bracesLoop 0 input.items with
    | some n => .ok ⟨input.subspan n, ()⟩
    | none => errorAt input.items.length (text "unterminated '\x7b' block")
  else errorAt 0 (text "expected '\x7b'")

/-- `import_decl`. -/
def importDecl : Parser Token ImportNode :=
  map (seq (preceded (kind .kwImport)
    (opt (alt (kind .kwWeak) (alt (kind .kwPublic) (kind .kwOption)))))
    (seq (cut (kind .stringLiteral)) (cut (kind .semicolon)))) fun (modifier, path, _) =>
      { path := path.strValue
        kind :=
          match modifier.map Token.kind with
          | some .kwWeak => .weakly
          | some .kwPublic => .publicly
          | some .kwOption => .option
          | _ => .standard }

/-- `package_decl`. -/
def packageDecl : Parser Token Text :=
  map (seq (preceded (kind .kwPackage) (cut qualifiedIdent)) (cut (kind .semicolon))) Prod.fst

/-- `service_decl`. -/
def serviceDecl : Parser Token Unit :=
  map (seq (kind .kwService) (seq (cut nameToken) (cut balancedBraces))) fun _ => ()

/-- `syntax_decl`. -/
def syntaxDecl : Parser Token SyntaxInfo :=
  alt (map (seq (preceded (kind .kwSyntax) (cut (kind .equals)))
      (seq (cut (kind .stringLiteral)) (cut (kind .semicolon)))) fun (_, name, _) =>
        { level := if name.strValue = text "proto3" then .proto3 else .proto2 })
    (map (seq (preceded (kind .kwEdition) (cut (kind .equals)))
      (seq (cut (kind .stringLiteral)) (cut (kind .semicolon)))) fun (_, edition, _) =>
        { level := .edition, edition := edition.strValue, editionOffset := edition.byteOffset })

/-- `FileElement`. -/
inductive FileElement where
  | import (node : ImportNode)
  | package (name : Text)
  | option (node : OptionNode)
  | message (node : MessageNode)
  | enum (node : EnumNode)
  | extend (bundle : ExtendBundle)
  | empty

/-- `file_element`. -/
def fileElement (left : Nat) (level : SyntaxLevel) : Parser Token FileElement :=
  alt (map (parseOptionDecl left) .option)
    (alt (map importDecl .import)
      (alt (map packageDecl .package)
        (alt (map serviceDecl fun _ => .empty)
          (alt (map (parseExtend left level (messageBody level left)) .extend)
            (alt (map (parseMessage (messageBody level left)) .message)
              (alt (map (parseEnum left level) .enum)
                (map (kind .semicolon) fun _ => .empty)))))))

/-- `apply_file_element`. -/
def applyFileElement (file : FileNode) : FileElement → FileNode
  | .import node => { file with imports := file.imports ++ [node] }
  | .package name => { file with package := name }
  | .option node => { file with options := file.options ++ [node] }
  | .message node => { file with messages := file.messages ++ [node] }
  | .enum node => { file with enums := file.enums ++ [node] }
  | .extend bundle =>
    { file with
      extendBlocks := file.extendBlocks ++ [bundle.node]
      messages := file.messages ++ bundle.groupMessages }
  | .empty => file

/-- The elements of a file, after its declaration of a language level. -/
def fileBody (left : Nat) (info : SyntaxInfo) : Parser Token FileNode :=
  map (many (fileElement left info.level)) fun elements => elements.foldl applyFileElement
    { syntaxLevel := info.level, edition := info.edition, editionOffset := info.editionOffset }

/-- `parse_file` with a bound on the depth. -/
def parseFileWithin (left : Nat) : Parser Token FileNode := fun input => do
  let declared ← opt syntaxDecl input
  (fileBody left (declared.value.getD {}) declared.remaining).mapError
    (Error.lift (consumed input declared.remaining))

/-- `parse_file`. -/
def parseFile : Parser Token FileNode := parseFileWithin kMaxParseDepth

end Parse
end Front
end RapidProto
