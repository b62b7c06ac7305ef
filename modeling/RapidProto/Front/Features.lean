import RapidProto.Front.Items

/-!
# Editions features

The feature pass of `features.cpp`: settings are read from the dotted and the aggregate form, merged
from the file down to each field and enum, and written into the nodes.
-/

namespace RapidProto
namespace Front

/-- The features that matter for decoding, as resolved at a scope. -/
structure ResolvedFeatures where
  fieldPresence : FieldPresence := .explicit
  enumType : EnumOpenness := .opened
  messageEncoding : MessageEncoding := .lengthPrefixed
  repeatedFieldEncoding : RepeatedEncoding := .packed
  utf8ValidationVerify : Bool := true
  deriving DecidableEq, Repr

/-- The editions whose defaults are known. -/
def kKnownEditions : List Text := [text "2023", text "2024"]

/-- `is_known_edition`. -/
def isKnownEdition (edition : Text) : Bool := kKnownEditions.contains edition

/-- Every known edition has the same defaults. -/
def editionDefaults (_edition : Text) : ResolvedFeatures := {}

/-- Apply one setting; an unknown name or value changes nothing. -/
def applyOneFeature (name value : Text) (out : ResolvedFeatures) : ResolvedFeatures :=
  if name = text "field_presence" then
    if value = text "EXPLICIT" then { out with fieldPresence := .explicit }
    else if value = text "IMPLICIT" then { out with fieldPresence := .implicit }
    else if value = text "LEGACY_REQUIRED" then { out with fieldPresence := .required }
    else out
  else if name = text "enum_type" then
    if value = text "OPEN" then { out with enumType := .opened }
    else if value = text "CLOSED" then { out with enumType := .closed }
    else out
  else if name = text "repeated_field_encoding" then
    if value = text "PACKED" then { out with repeatedFieldEncoding := .packed }
    else if value = text "EXPANDED" then { out with repeatedFieldEncoding := .expanded }
    else out
  else if name = text "message_encoding" then
    if value = text "LENGTH_PREFIXED" then { out with messageEncoding := .lengthPrefixed }
    else if value = text "DELIMITED" then { out with messageEncoding := .delimited }
    else out
  else if name = text "utf8_validation" then
    if value = text "VERIFY" then { out with utf8ValidationVerify := true }
    else if value = text "NONE" then { out with utf8ValidationVerify := false }
    else out
  else out

/-- One field of the aggregate form. -/
def applyAggregateField (out : ResolvedFeatures) (field : MessageLiteralField) :
    ResolvedFeatures :=
  if field.nameKind ≠ .simple then out
  else
    match field.value with
    | .identifier value => applyOneFeature field.name value out
    | _ => out

/-- `option features = { ... };` -/
def applyAggregateFeatures (literal : List MessageLiteralField) (out : ResolvedFeatures) :
    ResolvedFeatures :=
  literal.foldl applyAggregateField out

/-- One option: the aggregate form has one name component and the dotted form two. -/
def applyFeatureOption (out : ResolvedFeatures) (option : OptionNode) : ResolvedFeatures :=
  match option.name with
  | [] => out
  | first :: rest =>
    if first.isExtension || first.name ≠ text "features" then out
    else
      match rest, option.value with
      | [], .message literal => applyAggregateFeatures literal out
      | [second], .identifier value => applyOneFeature second.name value out
      | _, _ => out

/-- Merge every `features` option, a later one over an earlier one. -/
def applyFeatures (options : List OptionNode) (out : ResolvedFeatures) : ResolvedFeatures :=
  options.foldl applyFeatureOption out

/-- `resolve_field` of the feature pass. -/
def FieldNode.resolveFeatures (field : FieldNode) (scope : ResolvedFeatures)
    (isOneofMember : Bool) : FieldNode :=
  let scope := applyFeatures field.options scope
  { field with
    presence := if isOneofMember then field.presence else scope.fieldPresence
    messageEncoding := if field.isGroup then field.messageEncoding else scope.messageEncoding
    repeatedEncoding :=
      if field.isRepeated && isPackableScalar field.typeName then scope.repeatedFieldEncoding
      else field.repeatedEncoding }

/-- `resolve_enum`. -/
def EnumNode.resolveFeatures (node : EnumNode) (scope : ResolvedFeatures) : EnumNode :=
  { node with openness := (applyFeatures node.options scope).enumType }

/-- `resolve_extend` of the feature pass. -/
def ExtendNode.resolveFeatures (node : ExtendNode) (scope : ResolvedFeatures) : ExtendNode :=
  { node with fields := node.fields.map (FieldNode.resolveFeatures · scope false) }

/-- The loop over the members of a oneof. -/
def OneofNode.resolveFeatures (oneof : OneofNode) (scope : ResolvedFeatures) : OneofNode :=
  let oneofScope := applyFeatures oneof.options scope
  { oneof with fields := oneof.fields.map (FieldNode.resolveFeatures · oneofScope true) }

mutual

/-- `resolve_message` of the feature pass; map fields have nothing to write. -/
def MessageNode.resolveFeatures (scope : ResolvedFeatures) : MessageNode → MessageNode
  | ⟨name, visibility, fields, mapFields, oneofs, enums, nestedMessages, reserved,
      extensionRanges, extendBlocks, options, fqn⟩ =>
    let scope := applyFeatures options scope
    { name, visibility
      fields := fields.map (FieldNode.resolveFeatures · scope false)
      mapFields
      oneofs := oneofs.map (OneofNode.resolveFeatures · scope)
      enums := enums.map (EnumNode.resolveFeatures · scope)
      nestedMessages := resolveFeaturesAll scope nestedMessages
      reserved, extensionRanges
      extendBlocks := extendBlocks.map (ExtendNode.resolveFeatures · scope)
      options, fqn }

/-- The same for all messages of a list. -/
def resolveFeaturesAll (scope : ResolvedFeatures) : List MessageNode → List MessageNode
  | [] => []
  | message :: messages => message.resolveFeatures scope :: resolveFeaturesAll scope messages

end

/-- The diagnostic of an unknown edition. -/
def unknownEdition (file : FileNode) : Error :=
  { source := some file.source
    byteOffset := file.editionOffset
    message := text "unknown edition \"" ++ file.edition ++
      text "\"; this decoder knows the feature defaults for " ++
      (text ", ").intercalate kKnownEditions ++
      text " only, and a later edition may change one -- decoding it by those rules " ++
      text "could be silently wrong" }

/-- `resolve_features` of one file. -/
def FileNode.resolveFeatures (file : FileNode) : Outcome Error FileNode :=
  if file.syntaxLevel ≠ .edition then .ok file
  else if !isKnownEdition file.edition then .fail (unknownEdition file)
  else
    let scope := applyFeatures file.options (editionDefaults file.edition)
    .ok
      { file with
        messages := resolveFeaturesAll scope file.messages
        enums := file.enums.map (EnumNode.resolveFeatures · scope)
        extendBlocks := file.extendBlocks.map (ExtendNode.resolveFeatures · scope) }

/-! ## Settings -/

/-- One setting of a feature as the pass reads it. -/
structure Setting where
  /-- Name of the feature. -/
  name : Text
  /-- Name of the value. -/
  value : Text
  /-- The name was written as an extension component. -/
  fromExtension : Bool := false
  deriving DecidableEq, Repr

/-- The setting in a field of the aggregate form. -/
def MessageLiteralField.setting? (field : MessageLiteralField) : Option Setting :=
  match field.nameKind, field.value with
  | .simple, .identifier value => some { name := field.name, value }
  | _, _ => none

/-- The settings in an option. -/
def OptionNode.settings (option : OptionNode) : List Setting :=
  match option.name with
  | [] => []
  | first :: rest =>
    if first.isExtension || first.name ≠ text "features" then []
    else
      match rest, option.value with
      | [], .message literal => literal.filterMap MessageLiteralField.setting?
      | [second], .identifier value =>
        [{ name := second.name, value, fromExtension := second.isExtension }]
      | _, _ => []

/-- Apply one setting. -/
def Setting.apply (out : ResolvedFeatures) (setting : Setting) : ResolvedFeatures :=
  applyOneFeature setting.name setting.value out

theorem applyAggregateFeatures_eq (literal : List MessageLiteralField) (out : ResolvedFeatures) :
    applyAggregateFeatures literal out =
      (literal.filterMap MessageLiteralField.setting?).foldl Setting.apply out := by
  induction literal generalizing out with
  | nil => rfl
  | cons field literal ih =>
      obtain ⟨kind, name, anyType, value⟩ := field
      rw [applyAggregateFeatures, List.foldl_cons, ← applyAggregateFeatures, ih]
      cases kind with
      | simple => cases value <;> rfl
      | extension => cases value <;> rfl
      | anyTypeUrl => cases value <;> rfl

theorem applyFeatureOption_eq (option : OptionNode) (out : ResolvedFeatures) :
    applyFeatureOption out option = option.settings.foldl Setting.apply out := by
  obtain ⟨name, value⟩ := option
  simp only [applyFeatureOption, OptionNode.settings]
  cases name with
  | nil => rfl
  | cons first rest =>
      dsimp only
      split_ifs
      · rfl
      · rcases rest with _ | ⟨second, _ | ⟨third, rest⟩⟩ <;> cases value
        case nil.message literal => exact applyAggregateFeatures_eq literal out
        all_goals rfl

/-- The pass applies the settings of an option list one after the other. -/
theorem applyFeatures_eq (options : List OptionNode) (out : ResolvedFeatures) :
    applyFeatures options out = (options.flatMap OptionNode.settings).foldl Setting.apply out := by
  induction options generalizing out with
  | nil => rfl
  | cons option options ih =>
      rw [applyFeatures, List.foldl_cons, ← applyFeatures, ih, applyFeatureOption_eq,
        List.flatMap_cons, List.foldl_append]

end Front
end RapidProto
