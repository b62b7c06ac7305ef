import RapidProto.Front.Features

/-!
# Inherited settings

What the feature pass writes, stated for each declaration from the option lists that apply to it:
the innermost recognised setting, or the default.  The pass itself also reads a setting named by an
extension component; how that differs from the aggregate form is the subject of the last section.
-/

namespace RapidProto
namespace Front

/-! ## The pass on declarations in their places -/

/-- The features in force after the option lists of a chain. -/
def chainFeatures (defaults : ResolvedFeatures) (chain : List (List OptionNode)) :
    ResolvedFeatures :=
  chain.foldl (fun out options => applyFeatures options out) defaults

theorem chainFeatures_append (defaults : ResolvedFeatures) (chain : List (List OptionNode))
    (options : List OptionNode) :
    chainFeatures defaults (chain ++ [options]) =
      applyFeatures options (chainFeatures defaults chain) := by
  rw [chainFeatures, List.foldl_append]
  rfl

/-- Write features into a field. -/
def FieldNode.withFeatures (field : FieldNode) (features : ResolvedFeatures)
    (isOneofMember : Bool) : FieldNode :=
  { field with
    presence := if isOneofMember then field.presence else features.fieldPresence
    messageEncoding := if field.isGroup then field.messageEncoding else features.messageEncoding
    repeatedEncoding :=
      if field.isRepeated && isPackableScalar field.typeName then features.repeatedFieldEncoding
      else field.repeatedEncoding }

/-- Write features into a declaration. -/
def Item.withFeatures (features : ResolvedFeatures) : Item → Item
  | .field role node => .field role (node.withFeatures features (role == .oneofMember))
  | .mapField node => .mapField node
  | .enum node => .enum { node with openness := features.enumType }
  | .extend node => .extend (node.resolveFeatures features)

/-- Write the features of its chain into a declaration. -/
def Placed.withFeatures (defaults : ResolvedFeatures) (placed : Placed) : Placed :=
  { placed with item := placed.item.withFeatures (chainFeatures defaults placed.chain) }

section Pass

variable (defaults : ResolvedFeatures) (scope : Text) (chain : List (List OptionNode))

theorem placeFields_resolveFeatures (role : FieldRole) (fields : List FieldNode) :
    placeFields scope chain role
        (fields.map (FieldNode.resolveFeatures · (chainFeatures defaults chain)
          (role == .oneofMember))) =
      (placeFields scope chain role fields).map (Placed.withFeatures defaults) := by
  simp only [placeFields, List.map_map]
  refine List.map_congr_left fun field _ => ?_
  simp only [Function.comp_apply, Placed.withFeatures, chainFeatures_append]
  rfl

theorem placeEnums_resolveFeatures (enums : List EnumNode) :
    placeEnums scope chain
        (enums.map (EnumNode.resolveFeatures · (chainFeatures defaults chain))) =
      (placeEnums scope chain enums).map (Placed.withFeatures defaults) := by
  simp only [placeEnums, List.map_map]
  refine List.map_congr_left fun node _ => ?_
  simp only [Function.comp_apply, Placed.withFeatures, chainFeatures_append]
  rfl

theorem placeMaps_withFeatures (maps : List MapFieldNode) :
    (placeMaps scope chain maps).map (Placed.withFeatures defaults) =
      placeMaps scope chain maps := by
  simp only [placeMaps, List.map_map]
  rfl

theorem OneofNode.items_resolveFeatures (oneofs : List OneofNode) :
    (oneofs.map (OneofNode.resolveFeatures · (chainFeatures defaults chain))).flatMap
        (OneofNode.items scope chain) =
      (oneofs.flatMap (OneofNode.items scope chain)).map (Placed.withFeatures defaults) := by
  rw [List.flatMap_map, List.map_flatMap]
  congr 1
  funext oneof
  simp only [OneofNode.items, OneofNode.resolveFeatures, ← chainFeatures_append]
  exact placeFields_resolveFeatures defaults scope (chain ++ [oneof.options]) .oneofMember
    oneof.fields

theorem ExtendNode.items_resolveFeatures (blocks : List ExtendNode) :
    (blocks.map (ExtendNode.resolveFeatures · (chainFeatures defaults chain))).flatMap
        (ExtendNode.items scope chain) =
      (blocks.flatMap (ExtendNode.items scope chain)).map (Placed.withFeatures defaults) := by
  rw [List.flatMap_map, List.map_flatMap]
  congr 1
  funext block
  simp only [ExtendNode.items, List.map_cons]
  congr 1
  exact placeFields_resolveFeatures defaults scope chain .extension block.fields

end Pass

mutual

/-- The pass over a message writes the features of each declaration's chain. -/
theorem MessageNode.items_resolveFeatures (defaults : ResolvedFeatures) (scope : Text)
    (chain : List (List OptionNode)) : (message : MessageNode) →
    (message.resolveFeatures (chainFeatures defaults chain)).items scope chain =
      (message.items scope chain).map (Placed.withFeatures defaults)
  | ⟨name, _, fields, mapFields, oneofs, enums, nestedMessages, _, _, extendBlocks, options, _⟩ => by
      have nested := itemsAll_resolveFeatures defaults (qualify scope name) (chain ++ [options])
        nestedMessages
      have plain := placeFields_resolveFeatures defaults (qualify scope name) (chain ++ [options])
        .plain fields
      simp only [MessageNode.resolveFeatures, MessageNode.items, ← chainFeatures_append,
        List.map_append, nested, OneofNode.items_resolveFeatures, placeEnums_resolveFeatures,
        ExtendNode.items_resolveFeatures, placeMaps_withFeatures]
      rw [← plain]
      rfl

/-- The same for all messages of a list. -/
theorem itemsAll_resolveFeatures (defaults : ResolvedFeatures) (scope : Text)
    (chain : List (List OptionNode)) : (messages : List MessageNode) →
    itemsAll scope chain (resolveFeaturesAll (chainFeatures defaults chain) messages) =
      (itemsAll scope chain messages).map (Placed.withFeatures defaults)
  | [] => rfl
  | message :: messages => by
      simp only [resolveFeaturesAll, itemsAll, List.map_append,
        message.items_resolveFeatures defaults scope chain,
        itemsAll_resolveFeatures defaults scope chain messages]

end

/-- The feature pass changes the files of a known edition only, and there each declaration by the
features of its chain. -/
theorem FileNode.resolveFeatures_cases {file file' : FileNode}
    (resolved : file.resolveFeatures = .ok file') :
    (file.syntaxLevel ≠ .edition ∧ file' = file) ∨
      (file.syntaxLevel = .edition ∧ isKnownEdition file.edition = true ∧
        file'.items = file.items.map (Placed.withFeatures (editionDefaults file.edition))) := by
  rw [FileNode.resolveFeatures] at resolved
  split_ifs at resolved with other unknown
  · cases resolved
    exact .inl ⟨other, rfl⟩
  · cases resolved
    refine .inr ⟨not_not.mp other, by simpa using unknown, ?_⟩
    have outer : applyFeatures file.options (editionDefaults file.edition) =
        chainFeatures (editionDefaults file.edition) [file.options] := rfl
    simp only [FileNode.items, FileNode.scope, outer, List.map_append, itemsAll_resolveFeatures,
      placeEnums_resolveFeatures, ExtendNode.items_resolveFeatures]

/-! ## The innermost setting -/

/-- Settings of the presence. -/
def presenceSetting (name value : Text) : Option FieldPresence :=
  if name = text "field_presence" then
    if value = text "EXPLICIT" then some .explicit
    else if value = text "IMPLICIT" then some .implicit
    else if value = text "LEGACY_REQUIRED" then some .required
    else none
  else none

/-- Settings of the openness of enums. -/
def enumTypeSetting (name value : Text) : Option EnumOpenness :=
  if name = text "enum_type" then
    if value = text "OPEN" then some .opened
    else if value = text "CLOSED" then some .closed
    else none
  else none

/-- Settings of the encoding of repeated fields. -/
def repeatedSetting (name value : Text) : Option RepeatedEncoding :=
  if name = text "repeated_field_encoding" then
    if value = text "PACKED" then some .packed
    else if value = text "EXPANDED" then some .expanded
    else none
  else none

/-- Settings of the encoding of messages. -/
def messageSetting (name value : Text) : Option MessageEncoding :=
  if name = text "message_encoding" then
    if value = text "LENGTH_PREFIXED" then some .lengthPrefixed
    else if value = text "DELIMITED" then some .delimited
    else none
  else none

section Innermost

variable {α : Type} (recognise : Text → Text → Option α) (default : α)

/-- The settings of an option list that a feature recognises. -/
def recognised (settings : List Setting) : List α :=
  settings.filterMap fun setting => recognise setting.name setting.value

/-- The explicit setting of one option list: the last one that is recognised, sub-features named by
an extension left out. -/
def explicitSetting (options : List OptionNode) : Option α :=
  (recognised recognise
    ((options.flatMap OptionNode.settings).filter (!·.fromExtension))).getLast?

/-- The innermost explicit setting of a chain, or the default. -/
def innermost (chain : List (List OptionNode)) : α :=
  (chain.reverse.findSome? (explicitSetting recognise)).getD default

/-- All settings of a chain. -/
def chainSettings (chain : List (List OptionNode)) : List Setting :=
  chain.flatMap fun options => options.flatMap OptionNode.settings

theorem chainSettings_cons (options : List OptionNode) (chain : List (List OptionNode)) :
    chainSettings (options :: chain) =
      options.flatMap OptionNode.settings ++ chainSettings chain :=
  List.flatMap_cons

theorem recognised_append (first second : List Setting) :
    recognised recognise (first ++ second) =
      recognised recognise first ++ recognised recognise second :=
  List.filterMap_append

theorem chainFeatures_eq (defaults : ResolvedFeatures) (chain : List (List OptionNode)) :
    chainFeatures defaults chain = (chainSettings chain).foldl Setting.apply defaults := by
  induction chain generalizing defaults with
  | nil => rfl
  | cons options chain ih =>
      rw [chainFeatures, List.foldl_cons, ← chainFeatures, ih, applyFeatures_eq,
        chainSettings_cons, List.foldl_append]

theorem innermost_eq (chain : List (List OptionNode)) :
    innermost recognise default chain =
      ((recognised recognise ((chainSettings chain).filter (!·.fromExtension))).getLast?).getD
        default := by
  rw [innermost]
  congr 1
  induction chain with
  | nil => rfl
  | cons options chain ih =>
      rw [List.reverse_cons, List.findSome?_append, ih, chainSettings_cons, List.filter_append,
        recognised_append, List.getLast?_append]
      simp [explicitSetting]

variable {recognise}

/-- The pass keeps the last recognised setting of a feature. -/
theorem foldl_setting {get : ResolvedFeatures → α}
    (reads : ∀ name value out,
      get (applyOneFeature name value out) = (recognise name value).getD (get out))
    (settings : List Setting) (out : ResolvedFeatures) :
    get (settings.foldl Setting.apply out) =
      ((recognised recognise settings).getLast?).getD (get out) := by
  induction settings generalizing out with
  | nil => rfl
  | cons setting settings ih =>
      rw [List.foldl_cons, ih, Setting.apply, reads]
      cases found : recognise setting.name setting.value with
      | none => simp [recognised, found]
      | some value =>
          simp only [recognised, List.filterMap_cons, found, List.getLast?_cons]
          rfl

end Innermost

/-! ## What the pass reads for each feature -/

section Reads

variable (name value : Text) (out : ResolvedFeatures)

theorem applyOneFeature_fieldPresence :
    (applyOneFeature name value out).fieldPresence =
      (presenceSetting name value).getD out.fieldPresence := by
  simp only [applyOneFeature, presenceSetting]
  split_ifs <;> rfl

theorem applyOneFeature_enumType :
    (applyOneFeature name value out).enumType =
      (enumTypeSetting name value).getD out.enumType := by
  have other : text "enum_type" ≠ text "field_presence" := by decide
  by_cases named : name = text "enum_type"
  · simp only [applyOneFeature, enumTypeSetting, named, if_neg other, if_true]
    split_ifs <;> rfl
  · simp only [applyOneFeature, enumTypeSetting, if_neg named]
    split_ifs <;> rfl

theorem applyOneFeature_repeatedFieldEncoding :
    (applyOneFeature name value out).repeatedFieldEncoding =
      (repeatedSetting name value).getD out.repeatedFieldEncoding := by
  have other : text "repeated_field_encoding" ≠ text "field_presence" := by decide
  have another : text "repeated_field_encoding" ≠ text "enum_type" := by decide
  by_cases named : name = text "repeated_field_encoding"
  · simp only [applyOneFeature, repeatedSetting, named, if_neg other, if_neg another, if_true]
    split_ifs <;> rfl
  · simp only [applyOneFeature, repeatedSetting, if_neg named]
    split_ifs <;> rfl

theorem applyOneFeature_messageEncoding :
    (applyOneFeature name value out).messageEncoding =
      (messageSetting name value).getD out.messageEncoding := by
  have others : text "message_encoding" ∉
      [text "field_presence", text "enum_type", text "repeated_field_encoding"] := by decide
  simp only [List.mem_cons, List.not_mem_nil, or_false, not_or] at others
  by_cases named : name = text "message_encoding"
  · simp only [applyOneFeature, messageSetting, named, others, if_false, if_true]
    split_ifs <;> rfl
  · simp only [applyOneFeature, messageSetting, if_neg named]
    split_ifs <;> rfl

end Reads

end Front
end RapidProto
