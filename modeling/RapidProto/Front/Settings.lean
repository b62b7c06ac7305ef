import RapidProto.Front.References

/-!
# Inherited features

Which settings a declaration of an editions file has after analysis: those of the option lists
around it, the innermost first, whatever the passes behind the feature pass write into the same
nodes.
-/

namespace RapidProto
namespace Front

/-- No option name has an extension component. -/
def PlainNames (chain : List (List OptionNode)) : Prop :=
  ∀ options ∈ chain, ∀ option ∈ options, ∀ component ∈ option.name, component.isExtension = false

theorem OptionNode.settings_plain {option : OptionNode}
    (plain : ∀ component ∈ option.name, component.isExtension = false) :
    ∀ setting ∈ option.settings, setting.fromExtension = false := by
  obtain ⟨name, value⟩ := option
  intro setting met
  rw [OptionNode.settings] at met
  rcases name with _ | ⟨first, _ | ⟨second, _ | ⟨third, rest⟩⟩⟩
  · cases met
  · dsimp only at met
    split_ifs at met
    · cases met
    · cases value
      case message literal =>
        obtain ⟨⟨kind, name, anyType, value⟩, -, found⟩ := List.mem_filterMap.mp met
        cases kind <;> cases value <;> cases found
        rfl
      all_goals cases met
  · dsimp only at met
    split_ifs at met
    · cases met
    · cases value
      case identifier value =>
        rw [List.mem_singleton.mp met]
        exact plain second (by simp)
      all_goals cases met
  · dsimp only at met
    split_ifs at met <;> cases met

/-- On a chain of plain names the pass reads the innermost explicit setting. -/
theorem get_chainFeatures {α : Type} {recognise : Text → Text → Option α}
    {get : ResolvedFeatures → α}
    (reads : ∀ name value out,
      get (applyOneFeature name value out) = (recognise name value).getD (get out))
    (defaults : ResolvedFeatures) {chain : List (List OptionNode)} (plain : PlainNames chain) :
    get (chainFeatures defaults chain) = innermost recognise (get defaults) chain := by
  have kept : (chainSettings chain).filter (!·.fromExtension) = chainSettings chain := by
    refine List.filter_eq_self.mpr fun setting met => ?_
    obtain ⟨options, inChain, met⟩ := List.mem_flatMap.mp met
    obtain ⟨option, inOptions, met⟩ := List.mem_flatMap.mp met
    rw [OptionNode.settings_plain (plain options inChain option inOptions) setting met]
    rfl
  rw [chainFeatures_eq, foldl_setting reads, innermost_eq, kept]

section Inherited

variable (table : SymbolTable) (chain : List (List OptionNode))

/-- The presence a field inherits; a message has presence. -/
def FieldNode.inheritedPresence (field : FieldNode) : FieldPresence :=
  let presence := innermost presenceSetting .explicit chain
  if isScalarType field.typeName = false ∧
      table.symbols field.resolvedTypeFqn = some .message ∧ presence = .implicit then .explicit
  else presence

/-- A declaration has the settings of its chain: of a field its presence unless it is a oneof
member, its message encoding unless it is a group, and its repeated encoding if it can be packed and
no `packed` option overrides it; and the openness of an enum. -/
def Item.Inherits : Item → Item → Prop
  | .field role node, .field role' node' =>
    role' = role ∧ node'.name = node.name ∧ node'.number = node.number ∧
      node'.typeName = node.typeName ∧
      (role ≠ .oneofMember → node'.presence = node'.inheritedPresence table chain) ∧
      (node.isGroup = false →
        node'.messageEncoding = innermost messageSetting .lengthPrefixed chain) ∧
      (node.isRepeated = true → isPackableScalar node.typeName = true →
        node'.repeatedEncoding =
          (packedOption node.options).getD (innermost repeatedSetting .packed chain))
  | .enum node, .enum node' =>
    node'.name = node.name ∧ node'.openness = innermost enumTypeSetting .opened chain
  | .mapField _, .mapField _ | .extend _, .extend _ => True
  | _, _ => False

/-- A declaration has the settings of the chain it stands in. -/
def Placed.Inherits (placed placed' : Placed) : Prop :=
  placed'.scope = placed.scope ∧ placed'.chain = placed.chain ∧
    Item.Inherits table placed.chain placed.item placed'.item

end Inherited

theorem Item.withFqn_field (scope : Text) (role : FieldRole) (node : FieldNode) :
    ∃ fqn, Item.withFqn scope (.field role node) = .field role { node with fqn } := by
  cases role with
  | plain => exact ⟨node.fqn, rfl⟩
  | oneofMember => exact ⟨node.fqn, rfl⟩
  | extension => exact ⟨qualify scope node.name, rfl⟩

section Inherits

variable {table : SymbolTable} {symbols : Symbols} {visible : List Nat}
  {chain : List (List OptionNode)} {scope : Text}

/-- The later passes keep what the feature pass has written into a field, but for the presence of a
message. -/
theorem FieldNode.Resolved.inherits (plain : PlainNames chain)
    (tableIs : table.symbols = fun fqn => (symbols fqn).map Sym.kind) {role : FieldRole}
    {node node' : FieldNode} {fqn : Text}
    (resolved : FieldNode.Resolved symbols visible scope
      { node.withFeatures (chainFeatures {} chain) (role == .oneofMember) with fqn } node') :
    Item.Inherits table chain (.field role node) (.field role node'.interpret) := by
  have presence := get_chainFeatures applyOneFeature_fieldPresence {} plain
  have messages := get_chainFeatures applyOneFeature_messageEncoding {} plain
  have packing := get_chainFeatures applyOneFeature_repeatedFieldEncoding {} plain
  rw [FieldNode.Resolved] at resolved
  split_ifs at resolved with scalar
  · subst resolved
    refine ⟨rfl, rfl, rfl, rfl, fun outside => ?_, fun notGroup => ?_, fun repeated packable => ?_⟩
    · have outside' : (role == .oneofMember) = false := by simpa using outside
      have scalar' : isScalarType node.typeName = true := scalar
      simp [FieldNode.inheritedPresence, FieldNode.interpret, FieldNode.withFeatures, scalar',
        outside', presence]
    · simp [FieldNode.interpret, FieldNode.withFeatures, notGroup, messages]
    · simp [FieldNode.interpret, FieldNode.withFeatures, repeated, packable, packing]
  · obtain ⟨found, -, rfl⟩ := resolved
    have scalar' : isScalarType node.typeName = false := Bool.eq_false_iff.mpr scalar
    refine ⟨rfl, rfl, rfl, rfl, fun outside => ?_, fun notGroup => ?_, fun repeated packable => ?_⟩
    · have outside' : (role == .oneofMember) = false := by simpa using outside
      simp [FieldNode.inheritedPresence, FieldNode.interpret, FieldNode.withFeatures, scalar',
        outside', presence, tableIs, hasKind]
    · simp [FieldNode.interpret, FieldNode.withFeatures, notGroup, messages]
    · rw [isPackableScalar, scalar'] at packable
      cases packable

theorem Placed.Analysed.inherits {placed placed' : Placed} (plain : PlainNames placed.chain)
    (tableIs : table.symbols = fun fqn => (symbols fqn).map Sym.kind)
    (analysed : Placed.Analysed symbols visible (placed.withFeatures {}) placed') :
    Placed.Inherits table placed placed' := by
  obtain ⟨middle, ⟨scopeIs, chainIs, resolved⟩, rfl⟩ := analysed
  refine ⟨scopeIs, chainIs, ?_⟩
  obtain ⟨scope, chain, item⟩ := placed
  obtain ⟨scope', chain', item'⟩ := middle
  cases item with
  | field role node =>
      obtain ⟨fqn, named⟩ := Item.withFqn_field scope role
        (node.withFeatures (chainFeatures {} chain) (role == .oneofMember))
      change Item.Resolved symbols visible scope (Item.withFqn scope (.field role
        (node.withFeatures (chainFeatures {} chain) (role == .oneofMember)))) item' at resolved
      rw [named] at resolved
      cases item' <;> try exact resolved.elim
      obtain ⟨rfl, resolved⟩ := resolved
      exact resolved.inherits plain tableIs
  | mapField node =>
      cases item' <;> try exact resolved.elim
      trivial
  | enum node =>
      cases item' <;> try exact resolved.elim
      have openness := get_chainFeatures applyOneFeature_enumType {} plain
      rw [show _ = EnumNode.assignFqn _ scope from resolved]
      exact ⟨rfl, openness⟩
  | extend node =>
      cases item' <;> try exact resolved.elim
      trivial

end Inherits

/-- The feature pass succeeds exactly if every editions file is of a known edition. -/
theorem mapM_resolveFeatures_iff (files : List FileNode) :
    (∃ featured, files.mapM FileNode.resolveFeatures = .ok featured) ↔
      ∀ file ∈ files, file.syntaxLevel = .edition →
        file.edition = text "2023" ∨ file.edition = text "2024" := by
  have ends := mapM_ends files FileNode.resolveFeatures_ends
  constructor
  · rintro ⟨featured, done⟩ file listed
    rw [done] at ends
    obtain ⟨index, fileAt⟩ := List.mem_iff_getElem?.mp listed
    obtain ⟨middle, -, resolved⟩ := forall₂_getElem? ends fileAt
    exact resolved.2
  · intro known
    cases outcome : files.mapM FileNode.resolveFeatures with
    | ok featured => exact ⟨featured, rfl⟩
    | fail error =>
        rw [outcome] at ends
        obtain ⟨file, listed, editions, not2023, not2024, -⟩ := ends
        exact absurd (known file listed editions) (not_or.mpr ⟨not2023, not2024⟩)
    | outside => exact (outcome ▸ ends).elim
    | spin => exact (outcome ▸ ends).elim

/-- The feature pass succeeds if every edition is known, and analysis then fails only for a type
name, a reference or an extension number; after it every declaration of an editions file with plain
option names has the settings of its chain. -/
theorem analyze_inherits (canonicalImportPath : Text → Text) (set : ResolvedFileSet) :
    ((∃ featured, set.files.mapM FileNode.resolveFeatures = .ok featured) ↔
      ∀ file ∈ set.files, file.syntaxLevel = .edition →
        file.edition = text "2023" ∨ file.edition = text "2024") ∧
    (analyze canonicalImportPath set).Ends (fun result =>
      (∀ error, ¬ Refusal (SeesType canonicalImportPath set) set.files error) ∧
      ∀ (index : Nat) (file : FileNode), set.files[index]? = some file →
        file.syntaxLevel = .edition → (∀ placed ∈ file.items, PlainNames placed.chain) →
        ∃ file' : FileNode, result.2.files[index]? = some file' ∧
          List.Forall₂ (Placed.Inherits result.1) file.items file'.items)
      (Refusal (SeesType canonicalImportPath set) set.files) := by
  refine ⟨mapM_resolveFeatures_iff set.files, ?_⟩
  refine (analyze_ends canonicalImportPath set).mono ?_ fun _ refusal => refusal
  rintro ⟨table, resolved⟩ ⟨accepted, symbols, -, tableIs, files⟩
  refine ⟨accepted, fun index file found edition plain => ?_⟩
  obtain ⟨visible, -, featured, file', featuredIs, fileAt, items⟩ := files index file found
  refine ⟨file', fileAt, ?_⟩
  rcases FileNode.resolveFeatures_cases featuredIs with ⟨other, -⟩ | ⟨-, -, itemsIs⟩
  · exact absurd edition other
  · rw [itemsIs] at items
    have analysed := List.forall₂_map_left_iff.mp items
    refine ((List.forall₂_and_left _ _).mpr ⟨plain, analysed⟩).imp ?_
    exact fun placed placed' both => both.2.inherits both.1 tableIs

/-- The sample is analysed, and its editions file has the settings of its chains. -/
theorem analyze_inherits_shapeFile :
    (∃ featured, colourFiles.files.mapM FileNode.resolveFeatures = .ok featured) ∧
      ∃ table resolved, analyze id colourFiles = .ok (table, resolved) ∧
        ∃ file' : FileNode, resolved.files[0]? = some file' ∧
          List.Forall₂ (Placed.Inherits table) shapeFile.items file'.items := by
  obtain ⟨⟨table, resolved⟩, done⟩ := analyze_colourFiles
  have plain : ∀ placed ∈ shapeFile.items, PlainNames placed.chain := by
    unfold PlainNames
    decide +kernel
  obtain ⟨known, ends⟩ := analyze_inherits id colourFiles
  rw [done] at ends
  refine ⟨known.mpr ?_, table, resolved, done, ends.2 0 shapeFile rfl rfl plain⟩
  simp [colourFiles, shapeFile]

end Front
end RapidProto
