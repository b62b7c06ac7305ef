import RapidProto.Front.Inheritance
import RapidProto.Front.Interpret
import RapidProto.Front.Refusals
import RapidProto.Front.Visibility

/-!
# The passes on declarations

Naming, type resolution and option interpretation, each stated for the declarations of a file in
their places: naming and interpretation rewrite every declaration by itself, and resolution relates
a declaration to what its references are bound to.
-/

namespace RapidProto
namespace Front

/-! ## Naming -/

/-- Name a declaration. -/
def Item.withFqn (scope : Text) : Item → Item
  | .field .extension node => .field .extension (node.assignFqn scope)
  | .field role node => .field role node
  | .mapField node => .mapField node
  | .enum node => .enum (node.assignFqn scope)
  | .extend node => .extend (node.assignFqns scope)

/-- Name a declaration in its place. -/
def Placed.withFqn (placed : Placed) : Placed :=
  { placed with item := placed.item.withFqn placed.scope }

section Naming

variable (scope : Text) (chain : List (List OptionNode))

theorem placeFields_withFqn {role : FieldRole} (inMessage : role ≠ .extension)
    (fields : List FieldNode) :
    (placeFields scope chain role fields).map Placed.withFqn =
      placeFields scope chain role fields := by
  simp only [placeFields, List.map_map]
  refine List.map_congr_left fun field _ => ?_
  cases role
  case extension => exact absurd rfl inMessage
  all_goals rfl

theorem placeMaps_withFqn (maps : List MapFieldNode) :
    (placeMaps scope chain maps).map Placed.withFqn = placeMaps scope chain maps := by
  simp only [placeMaps, List.map_map]
  rfl

theorem placeEnums_assignFqn (enums : List EnumNode) :
    placeEnums scope chain (enums.map (EnumNode.assignFqn · scope)) =
      (placeEnums scope chain enums).map Placed.withFqn := by
  simp only [placeEnums, List.map_map]
  rfl

theorem OneofNode.items_withFqn (oneofs : List OneofNode) :
    (oneofs.flatMap (OneofNode.items scope chain)).map Placed.withFqn =
      oneofs.flatMap (OneofNode.items scope chain) := by
  rw [List.map_flatMap]
  congr 1
  funext oneof
  exact placeFields_withFqn scope _ (by decide) oneof.fields

theorem ExtendNode.items_assignFqns (blocks : List ExtendNode) :
    (blocks.map (ExtendNode.assignFqns · scope)).flatMap (ExtendNode.items scope chain) =
      (blocks.flatMap (ExtendNode.items scope chain)).map Placed.withFqn := by
  rw [List.flatMap_map, List.map_flatMap]
  congr 1
  funext block
  simp only [ExtendNode.items, ExtendNode.assignFqns, placeFields, List.map_cons, List.map_map]
  rfl

end Naming

mutual

theorem MessageNode.items_assignFqn (scope : Text) (chain : List (List OptionNode)) :
    (message : MessageNode) →
    (message.assignFqn scope).items scope chain = (message.items scope chain).map Placed.withFqn
  | ⟨name, _, _, _, _, _, nestedMessages, _, _, _, options, _⟩ => by
      have nested := itemsAll_assignFqn (qualify scope name) (chain ++ [options]) nestedMessages
      simp only [MessageNode.assignFqn, MessageNode.items, List.map_append, nested,
        placeFields_withFqn _ _ (show FieldRole.plain ≠ .extension by decide),
        OneofNode.items_withFqn, placeMaps_withFqn, placeEnums_assignFqn,
        ExtendNode.items_assignFqns]

theorem itemsAll_assignFqn (scope : Text) (chain : List (List OptionNode)) :
    (messages : List MessageNode) →
    itemsAll scope chain (assignFqnAll scope messages) =
      (itemsAll scope chain messages).map Placed.withFqn
  | [] => rfl
  | message :: messages => by
      simp only [assignFqnAll, itemsAll, List.map_append, message.items_assignFqn scope chain,
        itemsAll_assignFqn scope chain messages]

end

theorem FileNode.items_computeFqns (file : FileNode) :
    file.computeFqns.items = file.items.map Placed.withFqn := by
  have scopeIs : file.computeFqns.scope = file.scope := rfl
  rw [FileNode.items, FileNode.items, scopeIs]
  simp only [FileNode.computeFqns, List.map_append, itemsAll_assignFqn, placeEnums_assignFqn,
    ExtendNode.items_assignFqns]

/-! ## Type resolution -/

section Resolution

variable (symbols : Symbols) (visible : List Nat)

/-- What a name is bound to among the visible symbols. -/
def BindsVisible (scope name fqn : Text) : Prop :=
  Binds (fun fqn => isVisible symbols visible fqn = true) scope name fqn

/-- A type is registered in a visible file. -/
def Sees (fqn : Text) (kind : SymbolKind) : Prop :=
  isVisible symbols visible fqn = true ∧ hasKind symbols fqn kind = true

theorem exists_sees_iff (fqn : Text) :
    (∃ kind, Sees symbols visible fqn kind) ↔ isVisible symbols visible fqn = true := by
  constructor
  · rintro ⟨kind, declared, -⟩
    exact declared
  · intro declared
    cases found : symbols fqn with
    | none =>
        rw [isVisible, found] at declared
        cases declared
    | some sym =>
        exact ⟨sym.kind, declared, by rw [hasKind, found, Option.map_some, beq_self_eq_true]⟩

theorem bindsSeen_iff (scope name fqn : Text) :
    BindsSeen (Sees symbols visible) scope name fqn ↔ BindsVisible symbols visible scope name fqn :=
  Binds.congr (exists_sees_iff symbols visible) scope name fqn

/-- The lookup of a name ends with what it is bound to, or with nothing if it is bound to nothing.
-/
theorem resolveName_ends {scope : Text} (rooted : Rooted scope) (name : Text) :
    ∃ found, resolveName symbols visible name scope = .ok found ∧
      match found with
      | some fqn => BindsVisible symbols visible scope name fqn
      | none => ∀ fqn, ¬ BindsSeen (Sees symbols visible) scope name fqn := by
  obtain ⟨found, looked, binds⟩ := resolveName_spec symbols visible rooted name
  refine ⟨found, looked, ?_⟩
  cases found with
  | some fqn => exact (binds fqn).mp rfl
  | none =>
      intro fqn bound
      cases (binds fqn).mpr ((bindsSeen_iff symbols visible scope name fqn).mp bound)

/-- What type resolution makes of a field. -/
def FieldNode.Resolved (scope : Text) (field field' : FieldNode) : Prop :=
  if isScalarType field.typeName then field' = field
  else
    ∃ fqn, BindsVisible symbols visible scope field.typeName fqn ∧
      field' =
        { field with
          resolvedTypeFqn := fqn
          isMessageType := hasKind symbols fqn .message
          isEnumType := hasKind symbols fqn .enum
          presence :=
            if hasKind symbols fqn .message && field.presence == .implicit then .explicit
            else field.presence
          repeatedEncoding :=
            if field.isRepeated && (hasKind symbols fqn .message || hasKind symbols fqn .enum)
            then .expanded
            else field.repeatedEncoding }

/-- What type resolution makes of a map field. -/
def MapFieldNode.Resolved (scope : Text) (field field' : MapFieldNode) : Prop :=
  isValidMapKeyType field.keyType = true ∧
    if isScalarType field.valueType then field' = field
    else
      ∃ fqn, BindsVisible symbols visible scope field.valueType fqn ∧
        field' =
          { field with
            resolvedValueTypeFqn := fqn
            valueIsMessage := hasKind symbols fqn .message
            valueIsEnum := hasKind symbols fqn .enum }

/-- What type resolution makes of a declaration; the extensions of a block are declarations of their
own. -/
def Item.Resolved (scope : Text) : Item → Item → Prop
  | .field role node, .field role' node' =>
    role' = role ∧ FieldNode.Resolved symbols visible scope node node'
  | .mapField node, .mapField node' => MapFieldNode.Resolved symbols visible scope node node'
  | .enum node, .enum node' => node' = node
  | .extend node, .extend node' =>
    node' = { node with fields := node'.fields } ∧
      ∃ fqn, BindsVisible symbols visible scope node.extendeeTypeName fqn ∧
        hasKind symbols fqn .message = true
  | _, _ => False

/-- What type resolution makes of a declaration in its place. -/
structure Placed.Resolved (placed placed' : Placed) : Prop where
  /-- The place stays. -/
  scope : placed'.scope = placed.scope
  /-- The options stay. -/
  chain : placed'.chain = placed.chain
  /-- The references are bound. -/
  item : Item.Resolved symbols visible placed.scope placed.item placed'.item

/-- Type resolution refuses a declaration, with the error. -/
def Placed.Refused (source : Nat) (placed : Placed) (error : Error) : Prop :=
  placed.item.Refused (Sees symbols visible) source placed.scope error

/-- Declarations of a file are resolved and their extensions registered. -/
def Rewrites (fileIndex source : Nat) (taken : Extensions) (items items' : List Placed)
    (taken' : Extensions) : Prop :=
  List.Forall₂ (Placed.Resolved symbols visible) items items' ∧
    Registers (DeclaredExtension.Keyed (Sees symbols visible)) taken
      (items.flatMap (Placed.extensions fileIndex source)) taken'

/-- A declaration among those of a file is refused, or the number of an extension is taken. -/
def RefusesOne (fileIndex source : Nat) (taken : Extensions) (items : List Placed) (error : Error) :
    Prop :=
  Fails (DeclaredExtension.Keyed (Sees symbols visible)) taken
    (fun error => ∃ placed ∈ items, Placed.Refused symbols visible source placed error)
    (items.flatMap (Placed.extensions fileIndex source)) error

variable {symbols visible}

section Parts

variable {fileIndex source : Nat} {taken taken' taken'' : Extensions}
  {items items' more more' : List Placed} {error : Error}

theorem Rewrites.append
    (first : Rewrites symbols visible fileIndex source taken items items' taken')
    (second : Rewrites symbols visible fileIndex source taken' more more' taken'') :
    Rewrites symbols visible fileIndex source taken (items ++ more) (items' ++ more') taken'' := by
  refine ⟨List.rel_append first.1 second.1, ?_⟩
  rw [List.flatMap_append]
  exact first.2.append second.2

theorem RefusesOne.left (refuses : RefusesOne symbols visible fileIndex source taken items error)
    (more : List Placed) :
    RefusesOne symbols visible fileIndex source taken (items ++ more) error := by
  rw [RefusesOne, List.flatMap_append]
  refine Fails.left refuses _ ?_
  rintro ⟨placed, listed, refused⟩
  exact ⟨placed, List.mem_append_left _ listed, refused⟩

theorem RefusesOne.right
    (rewrites : Rewrites symbols visible fileIndex source taken items items' taken')
    (refuses : RefusesOne symbols visible fileIndex source taken' more error) :
    RefusesOne symbols visible fileIndex source taken (items ++ more) error := by
  rw [RefusesOne, List.flatMap_append]
  refine Fails.right rewrites.2 refuses ?_
  rintro ⟨placed, listed, refused⟩
  exact ⟨placed, List.mem_append_right _ listed, refused⟩

/-- Declarations without extensions leave the registered ones alone. -/
theorem Rewrites.plain (resolved : List.Forall₂ (Placed.Resolved symbols visible) items items')
    (plain : items.flatMap (Placed.extensions fileIndex source) = []) :
    Rewrites symbols visible fileIndex source taken items items' taken := by
  refine ⟨resolved, ?_⟩
  rw [plain]
  exact .nil taken

/-- The failure of a loop over blocks is one of their declarations. -/
theorem RefusesOne.ofBlocks {ν : Type} {itemsOf : ν → List Placed} {nodes : List ν}
    (fails : Fails (DeclaredExtension.Keyed (Sees symbols visible)) taken
      (fun error => ∃ node ∈ nodes, ∃ placed ∈ itemsOf node,
        Placed.Refused symbols visible source placed error)
      (nodes.flatMap fun node => (itemsOf node).flatMap (Placed.extensions fileIndex source))
      error) :
    RefusesOne symbols visible fileIndex source taken (nodes.flatMap itemsOf) error := by
  rw [RefusesOne, List.flatMap_assoc]
  refine fails.imp ?_ id
  rintro ⟨node, inNodes, placed, listed, refused⟩
  exact ⟨placed, List.mem_flatMap.mpr ⟨node, inNodes, listed⟩, refused⟩

end Parts

variable {scope : Text} (chain : List (List OptionNode)) (source : Nat)

theorem FieldNode.Resolved.kept {field field' : FieldNode}
    (resolved : FieldNode.Resolved symbols visible scope field field') :
    field'.options = field.options ∧ field'.number = field.number ∧
      field'.offset = field.offset := by
  rw [FieldNode.Resolved] at resolved
  split_ifs at resolved
  · rw [resolved]
    exact ⟨rfl, rfl, rfl⟩
  · obtain ⟨fqn, -, rfl⟩ := resolved
    exact ⟨rfl, rfl, rfl⟩

theorem MapFieldNode.Resolved.options {field field' : MapFieldNode}
    (resolved : MapFieldNode.Resolved symbols visible scope field field') :
    field'.options = field.options := by
  obtain ⟨-, resolved⟩ := resolved
  split_ifs at resolved
  · rw [resolved]
  · obtain ⟨fqn, -, rfl⟩ := resolved
    rfl

theorem FieldNode.resolve_ends (rooted : Rooted scope) (role : FieldRole) (field : FieldNode) :
    (field.resolve symbols visible source scope).Ends
      (FieldNode.Resolved symbols visible scope field)
      (Item.Refused (Sees symbols visible) source scope (.field role field)) := by
  rw [FieldNode.resolve]
  split_ifs with scalar
  · rw [Outcome.Ends, FieldNode.Resolved, if_pos scalar]
  · obtain ⟨found, looked, binds⟩ := resolveName_ends symbols visible rooted field.typeName
    rw [looked]
    cases found with
    | none => exact .fieldType (Bool.eq_false_iff.mpr scalar) binds
    | some fqn =>
        rw [Outcome.ok_bind, Outcome.Ends, FieldNode.Resolved, if_neg scalar]
        exact ⟨fqn, binds, rfl⟩

theorem MapFieldNode.resolve_ends (rooted : Rooted scope) (field : MapFieldNode) :
    (field.resolve symbols visible source scope).Ends
      (MapFieldNode.Resolved symbols visible scope field)
      (Item.Refused (Sees symbols visible) source scope (.mapField field)) := by
  rw [MapFieldNode.resolve]
  by_cases key : isValidMapKeyType field.keyType = true
  · rw [if_neg (by rw [key]; decide)]
    split_ifs with scalar
    · refine ⟨key, ?_⟩
      rw [if_pos scalar]
    · obtain ⟨found, looked, binds⟩ := resolveName_ends symbols visible rooted field.valueType
      rw [looked]
      cases found with
      | none => exact .mapValue key (Bool.eq_false_iff.mpr scalar) binds
      | some fqn =>
          refine ⟨key, ?_⟩
          rw [if_neg scalar]
          exact ⟨fqn, binds, rfl⟩
  · rw [if_pos (by simpa using key)]
    exact .mapKey (Bool.eq_false_iff.mpr key)

theorem placeFields_resolved (role : FieldRole) {fields fields' : List FieldNode}
    (resolved : List.Forall₂ (FieldNode.Resolved symbols visible scope) fields fields') :
    List.Forall₂ (Placed.Resolved symbols visible) (placeFields scope chain role fields)
      (placeFields scope chain role fields') := by
  induction resolved with
  | nil => exact List.Forall₂.nil
  | cons field _ ih =>
      exact List.Forall₂.cons ⟨rfl, congrArg (chain ++ [·]) field.kept.1, rfl, field⟩ ih

theorem placeMaps_resolved {maps maps' : List MapFieldNode}
    (resolved : List.Forall₂ (MapFieldNode.Resolved symbols visible scope) maps maps') :
    List.Forall₂ (Placed.Resolved symbols visible) (placeMaps scope chain maps)
      (placeMaps scope chain maps') := by
  induction resolved with
  | nil => exact List.Forall₂.nil
  | cons field _ ih => exact List.Forall₂.cons ⟨rfl, congrArg (chain ++ [·]) field.options, field⟩ ih

theorem placeEnums_resolved (enums : List EnumNode) :
    List.Forall₂ (Placed.Resolved symbols visible) (placeEnums scope chain enums)
      (placeEnums scope chain enums) := by
  induction enums with
  | nil => exact List.Forall₂.nil
  | cons node enums ih => exact List.Forall₂.cons ⟨rfl, rfl, rfl⟩ ih

/-! ### Declarations without extensions -/

/-- Nodes that are placed as anything but `extend` blocks declare no extensions. -/
theorem extensions_map {ν : Type} (fileIndex source : Nat) {place : ν → Placed}
    (plain : ∀ node, (place node).extensions fileIndex source = []) (nodes : List ν) :
    (nodes.map place).flatMap (Placed.extensions fileIndex source) = [] := by
  rw [List.flatMap_map]
  exact List.flatMap_eq_nil_iff.mpr fun node _ => plain node

theorem extensions_placeFields (fileIndex source : Nat) (scope : Text) (role : FieldRole)
    (fields : List FieldNode) :
    (placeFields scope chain role fields).flatMap (Placed.extensions fileIndex source) = [] :=
  extensions_map fileIndex source (fun _ => rfl) fields

theorem extensions_placeMaps (fileIndex source : Nat) (scope : Text) (maps : List MapFieldNode) :
    (placeMaps scope chain maps).flatMap (Placed.extensions fileIndex source) = [] :=
  extensions_map fileIndex source (fun _ => rfl) maps

theorem extensions_placeEnums (fileIndex source : Nat) (scope : Text) (enums : List EnumNode) :
    (placeEnums scope chain enums).flatMap (Placed.extensions fileIndex source) = [] :=
  extensions_map fileIndex source (fun _ => rfl) enums

/-- Enums are left alone. -/
theorem rewrites_enums (fileIndex source : Nat) (scope : Text) (enums : List EnumNode)
    (taken : Extensions) :
    Rewrites symbols visible fileIndex source taken (placeEnums scope chain enums)
      (placeEnums scope chain enums) taken :=
  .plain (placeEnums_resolved chain enums) (extensions_placeEnums chain fileIndex source scope enums)

theorem extensions_oneofs (fileIndex source : Nat) (scope : Text) (oneofs : List OneofNode) :
    (oneofs.flatMap (OneofNode.items scope chain)).flatMap (Placed.extensions fileIndex source) =
      [] := by
  rw [List.flatMap_assoc]
  exact List.flatMap_eq_nil_iff.mpr fun oneof _ =>
    extensions_placeFields _ fileIndex source scope .oneofMember oneof.fields

theorem refused_placeFields {role : FieldRole} {fields : List FieldNode} {error : Error}
    (refused : ∃ field ∈ fields,
      Item.Refused (Sees symbols visible) source scope (.field role field) error) :
    ∃ placed ∈ placeFields scope chain role fields,
      Placed.Refused symbols visible source placed error := by
  obtain ⟨field, listed, refused⟩ := refused
  exact ⟨_, List.mem_map.mpr ⟨field, listed, rfl⟩, refused⟩

theorem refused_placeMaps {maps : List MapFieldNode} {error : Error}
    (refused : ∃ field ∈ maps,
      Item.Refused (Sees symbols visible) source scope (.mapField field) error) :
    ∃ placed ∈ placeMaps scope chain maps, Placed.Refused symbols visible source placed error := by
  obtain ⟨field, listed, refused⟩ := refused
  exact ⟨_, List.mem_map.mpr ⟨field, listed, rfl⟩, refused⟩

theorem OneofNode.resolve_ends (rooted : Rooted scope) (oneof : OneofNode) :
    (oneof.resolve symbols visible source scope).Ends
      (fun oneof' => List.Forall₂ (Placed.Resolved symbols visible)
        (OneofNode.items scope chain oneof) (OneofNode.items scope chain oneof'))
      fun error => ∃ placed ∈ OneofNode.items scope chain oneof,
        Placed.Refused symbols visible source placed error := by
  rw [OneofNode.resolve]
  refine ((mapM_ends oneof.fields (FieldNode.resolve_ends source rooted .oneofMember)).mono
    (fun _ resolved => resolved) fun error refused =>
      refused_placeFields (chain ++ [oneof.options]) source refused).bind ?_
  intro fields resolved
  exact placeFields_resolved _ .oneofMember resolved

/-! ### Extensions -/

/-- One extension of a block is resolved and registered. -/
theorem resolveExtension_ends (fileIndex : Nat) (rooted : Rooted scope) {name extendee : Text}
    (binds : BindsSeen (Sees symbols visible) scope name extendee) (field : FieldNode)
    (taken : Extensions) :
    (resolveExtension symbols visible source scope extendee field taken).Ends
      (fun result => FieldNode.Resolved symbols visible scope field result.1 ∧
        Registers (DeclaredExtension.Keyed (Sees symbols visible)) taken
          [⟨fileIndex, source, scope, name, field.number, field.offset⟩] result.2)
      (Fails (DeclaredExtension.Keyed (Sees symbols visible)) taken
        (Item.Refused (Sees symbols visible) source scope (.field .extension field))
        [⟨fileIndex, source, scope, name, field.number, field.offset⟩]) := by
  rw [resolveExtension]
  refine ((FieldNode.resolve_ends source rooted .extension field).mono (fun _ resolved => resolved)
    fun error refused => .inl refused).bind fun field' resolved => ?_
  obtain ⟨-, number, offset⟩ := resolved.kept
  rw [number, offset]
  split_ifs with listed
  · exact .inr ⟨_, (extendee, field.number), .single ⟨binds, rfl⟩ listed, rfl⟩
  · exact ⟨resolved, .single ⟨binds, rfl⟩ listed⟩

theorem ExtendNode.resolve_ends (fileIndex : Nat) (rooted : Rooted scope) (node : ExtendNode)
    (taken : Extensions) :
    (node.resolve symbols visible source scope taken).Ends
      (fun result => Rewrites symbols visible fileIndex source taken
        (ExtendNode.items scope chain node) (ExtendNode.items scope chain result.1) result.2)
      (RefusesOne symbols visible fileIndex source taken (ExtendNode.items scope chain node)) := by
  have declares : (ExtendNode.items scope chain node).flatMap
      (Placed.extensions fileIndex source) = node.fields.flatMap fun field =>
        [⟨fileIndex, source, scope, node.extendeeTypeName, field.number, field.offset⟩] := by
    rw [ExtendNode.items, List.flatMap_cons, extensions_placeFields, List.append_nil,
      ← List.map_eq_flatMap]
    rfl
  rw [ExtendNode.resolve]
  obtain ⟨found, looked, binds⟩ := resolveName_ends symbols visible rooted node.extendeeTypeName
  rw [looked]
  cases found with
  | none => exact .inl ⟨_, List.mem_cons_self, .extendee binds⟩
  | some extendee =>
      have seen := (bindsSeen_iff symbols visible scope node.extendeeTypeName extendee).mpr binds
      rw [Outcome.ok_bind]
      dsimp only
      by_cases message : hasKind symbols extendee .message = true
      · rw [if_neg (by rw [message]; decide)]
        refine ((resolveEach_ends (FieldNode.Resolved symbols visible scope)
          (fun field => Item.Refused (Sees symbols visible) source scope (.field .extension field))
          _ node.fields taken fun field _ taken =>
            resolveExtension_ends source fileIndex rooted seen field taken).mono
          (fun _ done => done) fun error fails => ?_).bind ?_
        · rw [RefusesOne, declares]
          refine fails.imp (fun refused => ?_) id
          obtain ⟨placed, listed, refused⟩ := refused_placeFields chain source refused
          exact ⟨placed, List.mem_cons_of_mem _ listed, refused⟩
        · rintro ⟨fields, taken'⟩ ⟨resolved, registers⟩
          rw [Outcome.Ends, Rewrites, declares]
          refine ⟨List.Forall₂.cons ⟨rfl, rfl, rfl, extendee, binds, message⟩ ?_, registers⟩
          exact placeFields_resolved chain .extension resolved
      · rw [if_pos (by simpa using message)]
        obtain ⟨kind, sees⟩ := seen.1
        refine .inl ⟨_, List.mem_cons_self, .extendeeKind seen ?_⟩
        cases kind with
        | message => exact absurd sees.2 message
        | enum => exact sees

/-- A loop over blocks relates the declarations in them. -/
theorem flatMap_forall₂ {ν : Type} {items : ν → List Placed} {nodes nodes' : List ν}
    {related : Placed → Placed → Prop}
    (each : List.Forall₂ (fun node node' => List.Forall₂ related (items node) (items node'))
      nodes nodes') :
    List.Forall₂ related (nodes.flatMap items) (nodes'.flatMap items) := by
  induction each with
  | nil => exact List.Forall₂.nil
  | cons first _ ih => exact List.rel_append first ih

/-- The `extend` blocks of a message or a file are resolved and their extensions registered. -/
theorem resolveBlocks_ends (fileIndex : Nat) (rooted : Rooted scope) (blocks : List ExtendNode)
    (taken : Extensions) :
    (resolveEach (ExtendNode.resolve symbols visible source scope) blocks taken).Ends
      (fun result => Rewrites symbols visible fileIndex source taken
        (blocks.flatMap (ExtendNode.items scope chain))
        (result.1.flatMap (ExtendNode.items scope chain)) result.2)
      (RefusesOne symbols visible fileIndex source taken
        (blocks.flatMap (ExtendNode.items scope chain))) := by
  refine (resolveEach_ends (fun node node' => List.Forall₂ (Placed.Resolved symbols visible)
      (ExtendNode.items scope chain node) (ExtendNode.items scope chain node'))
    (fun node error => ∃ placed ∈ ExtendNode.items scope chain node,
      Placed.Refused symbols visible source placed error)
    (fun node => (ExtendNode.items scope chain node).flatMap
      (Placed.extensions fileIndex source)) blocks taken
    fun node _ => ExtendNode.resolve_ends chain source fileIndex rooted node).mono ?_
    fun _ => RefusesOne.ofBlocks
  rintro ⟨blocks', taken'⟩ ⟨resolved, registers⟩
  refine ⟨flatMap_forall₂ resolved, ?_⟩
  rw [List.flatMap_assoc]
  exact registers

mutual

/-- Type resolution of a named message ends, with every reference in it bound and its extensions
registered. -/
theorem MessageNode.resolve_ends {scope : Text} (chain : List (List OptionNode))
    (fileIndex source : Nat) (rooted : Rooted scope) : (message : MessageNode) →
    (taken : Extensions) →
    ((message.assignFqn scope).resolve symbols visible source taken).Ends
      (fun result => Rewrites symbols visible fileIndex source taken
        ((message.assignFqn scope).items scope chain) (result.1.items scope chain) result.2)
      (RefusesOne symbols visible fileIndex source taken
        ((message.assignFqn scope).items scope chain))
  | ⟨name, _, fields, mapFields, oneofs, enums, nestedMessages, _, _, extendBlocks, options, _⟩,
      taken => by
      have inner := rooted_qualify rooted name
      rw [MessageNode.assignFqn, MessageNode.resolve, MessageNode.items]
      refine ((mapM_ends fields (FieldNode.resolve_ends source inner .plain)).mono
        (fun _ done => done) fun error refused => ?_).bind fun fields' fieldsResolved => ?_
      · have refuses : RefusesOne symbols visible fileIndex source taken
            (placeFields (qualify scope name) (chain ++ [options]) .plain fields) error :=
          .inl (refused_placeFields _ source refused)
        exact ((((refuses.left _).left _).left _).left _).left _
      have first : Rewrites symbols visible fileIndex source taken _ _ taken :=
        .plain (placeFields_resolved (chain ++ [options]) .plain fieldsResolved)
          (extensions_placeFields _ _ _ _ _ _)
      refine ((mapM_ends oneofs (OneofNode.resolve_ends (chain ++ [options]) source inner)).mono
        (fun _ done => done) fun error refused => ?_).bind fun oneofs' oneofsResolved => ?_
      · obtain ⟨oneof, listed, placed, inOneof, refused⟩ := refused
        have refuses : RefusesOne symbols visible fileIndex source taken
            (oneofs.flatMap (OneofNode.items (qualify scope name) (chain ++ [options]))) error :=
          .inl ⟨placed, List.mem_flatMap.mpr ⟨oneof, listed, inOneof⟩, refused⟩
        exact ((((refuses.right first).left _).left _).left _).left _
      have second := first.append (.plain (flatMap_forall₂ oneofsResolved)
        (extensions_oneofs _ _ _ _ _))
      refine ((mapM_ends mapFields (MapFieldNode.resolve_ends source inner)).mono
        (fun _ done => done) fun error refused => ?_).bind fun mapFields' mapsResolved => ?_
      · have refuses : RefusesOne symbols visible fileIndex source taken
            (placeMaps (qualify scope name) (chain ++ [options]) mapFields) error :=
          .inl (refused_placeMaps _ source refused)
        exact (((refuses.right second).left _).left _).left _
      have third := (second.append (.plain (placeMaps_resolved (chain ++ [options]) mapsResolved)
        (extensions_placeMaps _ _ _ _ _))).append
          (rewrites_enums (chain ++ [options]) fileIndex source (qualify scope name)
            (enums.map (EnumNode.assignFqn · (qualify scope name))) taken)
      refine ((resolveAll_ends (chain ++ [options]) fileIndex source inner nestedMessages
        taken).mono (fun _ done => done) fun error refuses =>
          (RefusesOne.right third refuses).left _).bind ?_
      rintro ⟨nested', taken'⟩ nestedResolved
      have fourth := third.append nestedResolved
      refine ((resolveBlocks_ends (chain ++ [options]) source fileIndex inner
        (extendBlocks.map (ExtendNode.assignFqns · (qualify scope name))) taken').mono
        (fun _ done => done) fun error refuses => RefusesOne.right fourth refuses).bind ?_
      rintro ⟨extendBlocks', taken''⟩ extendsResolved
      exact fourth.append extendsResolved

theorem resolveAll_ends {scope : Text} (chain : List (List OptionNode)) (fileIndex source : Nat)
    (rooted : Rooted scope) : (messages : List MessageNode) → (taken : Extensions) →
    (resolveAll symbols visible source (assignFqnAll scope messages) taken).Ends
      (fun result => Rewrites symbols visible fileIndex source taken
        (itemsAll scope chain (assignFqnAll scope messages)) (itemsAll scope chain result.1)
        result.2)
      (RefusesOne symbols visible fileIndex source taken
        (itemsAll scope chain (assignFqnAll scope messages)))
  | [], taken => ⟨List.Forall₂.nil, .nil taken⟩
  | message :: messages, taken => by
      rw [assignFqnAll, resolveAll, itemsAll]
      refine ((message.resolve_ends chain fileIndex source rooted taken).mono (fun _ done => done)
        fun error refuses => refuses.left _).bind ?_
      rintro ⟨message', taken'⟩ first
      refine ((resolveAll_ends chain fileIndex source rooted messages taken').mono
        (fun _ done => done) fun error refuses => RefusesOne.right first refuses).bind ?_
      rintro ⟨messages', taken''⟩ rest
      exact first.append rest

end

end Resolution

/-- Type resolution of a named file ends, with every reference in it bound among the symbols of its
visible files and its extensions registered. -/
theorem FileNode.resolve_ends (canonicalImportPath : Text → Text) (set : ResolvedFileSet)
    (symbols : Symbols) (file : FileNode) {index : Nat} {visible : List Nat}
    (collected : visibleFiles canonicalImportPath set index = .ok visible) (taken : Extensions) :
    (FileNode.resolve canonicalImportPath set symbols (file.computeFqns, index) taken).Ends
      (fun result => Rewrites symbols visible index file.source taken file.computeFqns.items
        result.1.1.items result.2)
      (RefusesOne symbols visible index file.source taken file.computeFqns.items) := by
  rw [FileNode.resolve]
  simp only [collected, Outcome.ok_bind]
  refine ((resolveAll_ends [file.options] index file.source file.rooted_scope file.messages
    taken).mono (fun _ done => done) fun error refuses => (refuses.left _).left _).bind ?_
  rintro ⟨messages, taken'⟩ messagesResolved
  have first := messagesResolved.append (rewrites_enums [file.options] index file.source file.scope
    (file.enums.map (EnumNode.assignFqn · file.scope)) taken')
  refine ((resolveBlocks_ends [file.options] file.source index file.rooted_scope
    (file.extendBlocks.map (ExtendNode.assignFqns · file.scope)) taken').mono
    (fun _ done => done) fun error refuses => RefusesOne.right first refuses).bind ?_
  rintro ⟨extendBlocks, taken''⟩ extendsResolved
  exact first.append extendsResolved

/-! ## Option interpretation -/

/-- Interpret the options of a declaration. -/
def Item.interpret : Item → Item
  | .field role node => .field role node.interpret
  | .mapField node => .mapField node
  | .enum node => .enum node
  | .extend node => .extend node.interpret

/-- Interpret the options of a declaration in its place. -/
def Placed.interpret (placed : Placed) : Placed :=
  { placed with item := placed.item.interpret }

section Interpretation

variable (scope : Text) (chain : List (List OptionNode))

theorem placeFields_interpret (role : FieldRole) (fields : List FieldNode) :
    placeFields scope chain role (fields.map FieldNode.interpret) =
      (placeFields scope chain role fields).map Placed.interpret := by
  simp only [placeFields, List.map_map]
  rfl

theorem placeMaps_interpret (maps : List MapFieldNode) :
    (placeMaps scope chain maps).map Placed.interpret = placeMaps scope chain maps := by
  simp only [placeMaps, List.map_map]
  rfl

theorem placeEnums_interpret (enums : List EnumNode) :
    (placeEnums scope chain enums).map Placed.interpret = placeEnums scope chain enums := by
  simp only [placeEnums, List.map_map]
  rfl

theorem OneofNode.items_interpret (oneofs : List OneofNode) :
    (oneofs.map OneofNode.interpret).flatMap (OneofNode.items scope chain) =
      (oneofs.flatMap (OneofNode.items scope chain)).map Placed.interpret := by
  rw [List.flatMap_map, List.map_flatMap]
  congr 1
  funext oneof
  exact placeFields_interpret scope _ .oneofMember oneof.fields

theorem ExtendNode.items_interpret (blocks : List ExtendNode) :
    (blocks.map ExtendNode.interpret).flatMap (ExtendNode.items scope chain) =
      (blocks.flatMap (ExtendNode.items scope chain)).map Placed.interpret := by
  rw [List.flatMap_map, List.map_flatMap]
  congr 1
  funext block
  simp only [ExtendNode.items, List.map_cons]
  congr 1
  exact placeFields_interpret scope chain .extension block.fields

end Interpretation

mutual

theorem MessageNode.items_interpret (scope : Text) (chain : List (List OptionNode)) :
    (message : MessageNode) →
    message.interpret.1.items scope chain = (message.items scope chain).map Placed.interpret
  | ⟨name, _, _, _, _, _, nestedMessages, _, _, _, options, _⟩ => by
      have nested := itemsAll_interpret (qualify scope name) (chain ++ [options]) nestedMessages
      simp only [MessageNode.interpret, MessageNode.items, List.map_append, nested,
        placeFields_interpret, OneofNode.items_interpret, placeMaps_interpret,
        placeEnums_interpret, ExtendNode.items_interpret]

theorem itemsAll_interpret (scope : Text) (chain : List (List OptionNode)) :
    (messages : List MessageNode) →
    itemsAll scope chain (interpretAll messages).1 =
      (itemsAll scope chain messages).map Placed.interpret
  | [] => rfl
  | message :: messages => by
      simp only [interpretAll, itemsAll, List.map_append, message.items_interpret scope chain,
        itemsAll_interpret scope chain messages]

end

theorem FileNode.items_interpretOptions (file : FileNode) :
    file.interpretOptions.1.items = file.items.map Placed.interpret := by
  simp only [FileNode.items, FileNode.interpretOptions, FileNode.scope, List.map_append,
    itemsAll_interpret, placeEnums_interpret, ExtendNode.items_interpret]
  rfl

/-! ## What the passes keep -/

/-- A declaration that is resolved is not refused. -/
theorem Item.Resolved.not_refused {symbols : Symbols} {visible : List Nat} {scope : Text}
    {item item' : Item} (resolved : Item.Resolved symbols visible scope item item') (source : Nat)
    (error : Error) : ¬ item.Refused (Sees symbols visible) source scope error := by
  have bound : ∀ {name fqn}, BindsVisible symbols visible scope name fqn →
      ¬ ∀ fqn, ¬ BindsSeen (Sees symbols visible) scope name fqn :=
    fun binds unbound => unbound _ ((bindsSeen_iff symbols visible scope _ _).mpr binds)
  intro refused
  cases refused with
  | fieldType reference unbound =>
      cases item' <;> try exact resolved.elim
      obtain ⟨-, resolved⟩ := resolved
      rw [FieldNode.Resolved, if_neg (by rw [reference]; decide)] at resolved
      obtain ⟨fqn, binds, -⟩ := resolved
      exact bound binds unbound
  | mapKey invalid =>
      cases item' <;> try exact resolved.elim
      rw [Item.Resolved, MapFieldNode.Resolved, invalid] at resolved
      cases resolved.1
  | mapValue valid reference unbound =>
      cases item' <;> try exact resolved.elim
      obtain ⟨-, resolved⟩ := resolved
      rw [if_neg (by rw [reference]; decide)] at resolved
      obtain ⟨fqn, binds, -⟩ := resolved
      exact bound binds unbound
  | extendee unbound =>
      cases item' <;> try exact resolved.elim
      obtain ⟨-, fqn, binds, -⟩ := resolved
      exact bound binds unbound
  | extendeeKind binds isEnum =>
      cases item' <;> try exact resolved.elim
      obtain ⟨-, fqn, binds', message⟩ := resolved
      obtain rfl := Binds.unique ((bindsSeen_iff symbols visible scope _ _).mp binds) binds'
      rw [hasKind, beq_iff_eq] at message
      have kind := isEnum.2
      rw [hasKind, message, beq_iff_eq] at kind
      cases kind

/-- A rewriting of declarations keeps what is refused of them and the extensions they declare. -/
structure Keeps (change : Placed → Placed) : Prop where
  /-- The same declarations are refused. -/
  refused : ∀ sees source placed error,
    (change placed).item.Refused sees source (change placed).scope error ↔
      placed.item.Refused sees source placed.scope error
  /-- The same extensions are declared. -/
  extensions : ∀ fileIndex source placed,
    (change placed).extensions fileIndex source = placed.extensions fileIndex source

theorem Keeps.comp {change change' : Placed → Placed} (keeps : Keeps change)
    (keeps' : Keeps change') : Keeps (change' ∘ change) :=
  ⟨fun sees source placed error => (keeps'.refused sees source (change placed) error).trans
      (keeps.refused sees source placed error),
    fun fileIndex source placed => (keeps'.extensions fileIndex source (change placed)).trans
      (keeps.extensions fileIndex source placed)⟩

section Keeps

variable {sees : Text → SymbolKind → Prop} {source : Nat} {scope : Text} {error : Error}

/-- A field is refused for its type as written. -/
theorem Item.refused_field_iff {role : FieldRole} {node node' : FieldNode}
    (type : node'.typeName = node.typeName) (offset : node'.offset = node.offset) :
    (Item.field role node').Refused sees source scope error ↔
      (Item.field role node).Refused sees source scope error := by
  constructor
  · rintro (⟨reference, unbound⟩ : Item.Refused sees source scope (.field role node') error)
    rw [type] at reference unbound
    rw [type, offset]
    exact .fieldType reference unbound
  · rintro (⟨reference, unbound⟩ : Item.Refused sees source scope (.field role node) error)
    rw [← type] at reference unbound
    rw [← type, ← offset]
    exact .fieldType reference unbound

/-- A block is refused for its extendee. -/
theorem Item.refused_extend_iff {node node' : ExtendNode}
    (extendee : node'.extendeeTypeName = node.extendeeTypeName)
    (offset : node'.offset = node.offset) :
    (Item.extend node').Refused sees source scope error ↔
      (Item.extend node).Refused sees source scope error := by
  obtain ⟨name, place, fields⟩ := node
  obtain ⟨name', place', fields'⟩ := node'
  obtain rfl : name' = name := extendee
  obtain rfl : place' = place := offset
  constructor
  · intro refused
    cases refused with
    | extendee unbound => exact .extendee unbound
    | extendeeKind binds isEnum => exact .extendeeKind binds isEnum
  · intro refused
    cases refused with
    | extendee unbound => exact .extendee unbound
    | extendeeKind binds isEnum => exact .extendeeKind binds isEnum

theorem Item.not_refused_enum (node : EnumNode) :
    ¬ (Item.enum node).Refused sees source scope error := nofun

end Keeps

theorem keeps_withFqn : Keeps Placed.withFqn := by
  constructor
  · rintro sees source ⟨scope, chain, item⟩ error
    cases item with
    | field role node => cases role <;> exact Item.refused_field_iff rfl rfl
    | mapField node => exact Iff.rfl
    | enum node => exact iff_of_false (Item.not_refused_enum _) (Item.not_refused_enum _)
    | extend node => exact Item.refused_extend_iff rfl rfl
  · rintro fileIndex source ⟨scope, chain, item⟩
    cases item with
    | field role node => cases role <;> rfl
    | mapField node => rfl
    | enum node => rfl
    | extend node =>
        simp only [Placed.extensions, Placed.withFqn, Item.withFqn, ExtendNode.assignFqns,
          List.map_map]
        rfl

theorem keeps_withFeatures (defaults : ResolvedFeatures) : Keeps (Placed.withFeatures defaults) := by
  constructor
  · rintro sees source ⟨scope, chain, item⟩ error
    cases item with
    | field role node => exact Item.refused_field_iff rfl rfl
    | mapField node => exact Iff.rfl
    | enum node => exact iff_of_false (Item.not_refused_enum _) (Item.not_refused_enum _)
    | extend node => exact Item.refused_extend_iff rfl rfl
  · rintro fileIndex source ⟨scope, chain, item⟩
    cases item with
    | extend node =>
        simp only [Placed.extensions, Placed.withFeatures, Item.withFeatures,
          ExtendNode.resolveFeatures, List.map_map]
        rfl
    | field role node => rfl
    | mapField node => rfl
    | enum node => rfl

end Front
end RapidProto
