import RapidProto.Front.Analysis

/-!
# References

What analysis binds: every type reference to the first visible type from the innermost scope
outwards, and every name of a message or an enum to one declaration.  Names of enum values and of
extensions are not compared with anything.
-/

namespace RapidProto
namespace Front

section References

variable (canonicalImportPath : Text → Text) (set : ResolvedFileSet) (table : SymbolTable)
  (index : Nat)

/-- A name refers to a type that is registered: the first one that its file sees. -/
structure RefersTo (scope name fqn : Text) (kind : SymbolKind) : Prop where
  /-- The name is bound to it. -/
  binds : Binds (fun fqn => ∃ kind, SeesType canonicalImportPath set index fqn kind) scope name fqn
  /-- It is declared, and of that kind. -/
  sees : SeesType canonicalImportPath set index fqn kind
  /-- It is registered as such. -/
  registered : table.symbols fqn = some kind

/-- The type of a field is bound: the field carries its name and kind, and a message has presence.
-/
def FieldNode.Bound (scope : Text) (field field' : FieldNode) : Prop :=
  field'.name = field.name ∧ field'.number = field.number ∧ field'.typeName = field.typeName ∧
    (isScalarType field.typeName = false → ∃ kind,
      RefersTo canonicalImportPath set table index scope field.typeName field'.resolvedTypeFqn
        kind ∧
      field'.isMessageType = (kind == .message) ∧ field'.isEnumType = (kind == .enum) ∧
      (kind = .message → field'.presence ≠ .implicit))

/-- The value type of a map is bound. -/
def MapFieldNode.Bound (scope : Text) (field field' : MapFieldNode) : Prop :=
  field'.name = field.name ∧ field'.number = field.number ∧ field'.keyType = field.keyType ∧
    field'.valueType = field.valueType ∧
    (isScalarType field.valueType = false → ∃ kind,
      RefersTo canonicalImportPath set table index scope field.valueType
        field'.resolvedValueTypeFqn kind ∧
      field'.valueIsMessage = (kind == .message) ∧ field'.valueIsEnum = (kind == .enum))

/-- The references in a declaration are bound. -/
def Item.Bound (scope : Text) : Item → Item → Prop
  | .field role node, .field role' node' =>
    role' = role ∧ FieldNode.Bound canonicalImportPath set table index scope node node'
  | .mapField node, .mapField node' =>
    MapFieldNode.Bound canonicalImportPath set table index scope node node'
  | .enum node, .enum node' => node'.name = node.name
  | .extend node, .extend node' =>
    node'.extendeeTypeName = node.extendeeTypeName ∧
      ∃ fqn, RefersTo canonicalImportPath set table index scope node.extendeeTypeName fqn .message
  | _, _ => False

/-- The references in a declaration are bound, relative to the scope it stands in. -/
def Placed.Bound (placed placed' : Placed) : Prop :=
  placed'.scope = placed.scope ∧
    Item.Bound canonicalImportPath set table index placed.scope placed.item placed'.item

end References

section Bound

variable {canonicalImportPath : Text → Text} {set : ResolvedFileSet} {table : SymbolTable}
  {symbols : Symbols} {visible : List Nat} {index : Nat}

/-- A name is visible exactly if a visible file declares it. -/
theorem isVisible_iff (holds : symbols.Holds (declaredTypes set.files))
    (sees : ∀ other, other ∈ visible ↔ Visible canonicalImportPath set index other) (fqn : Text) :
    isVisible symbols visible fqn = true ↔
      ∃ kind, SeesType canonicalImportPath set index fqn kind := by
  rw [← sees_eq holds sees]
  exact (exists_sees_iff symbols visible fqn).symm

/-- What is bound among the visible symbols is referred to. -/
theorem BindsVisible.refersTo (holds : symbols.Holds (declaredTypes set.files))
    (sees : ∀ other, other ∈ visible ↔ Visible canonicalImportPath set index other)
    (tableIs : table.symbols = fun fqn => (symbols fqn).map Sym.kind) {scope name fqn : Text}
    (binds : BindsVisible symbols visible scope name fqn) :
    ∃ kind, RefersTo canonicalImportPath set table index scope name fqn kind ∧
      ∀ kind', hasKind symbols fqn kind' = (kind == kind') := by
  have declared : isVisible symbols visible fqn = true := binds.1
  rw [isVisible] at declared
  cases found : symbols fqn with
  | none =>
      rw [found] at declared
      cases declared
  | some sym =>
      rw [found] at declared
      obtain ⟨file, fileAt, listed⟩ := mem_declaredTypes.mp ((holds.value fqn sym).mp found)
      refine ⟨sym.kind, ⟨(Binds.congr (isVisible_iff holds sees) scope name fqn).mp binds,
        ⟨sym.fileIndex, file, (sees _).mp (List.contains_iff_mem.mp declared), fileAt, listed⟩, ?_⟩,
        fun kind' => ?_⟩
      · rw [tableIs]
        dsimp only
        rw [found, Option.map_some]
      · rw [hasKind, found]
        rfl

theorem FieldNode.Resolved.bound (holds : symbols.Holds (declaredTypes set.files))
    (sees : ∀ other, other ∈ visible ↔ Visible canonicalImportPath set index other)
    (tableIs : table.symbols = fun fqn => (symbols fqn).map Sym.kind) {scope : Text}
    {field field' : FieldNode} (resolved : FieldNode.Resolved symbols visible scope field field') :
    FieldNode.Bound canonicalImportPath set table index scope field field' := by
  rw [FieldNode.Resolved] at resolved
  split_ifs at resolved with scalar
  · rw [resolved]
    exact ⟨rfl, rfl, rfl, fun notScalar => absurd scalar (by rw [notScalar]; decide)⟩
  · obtain ⟨fqn, binds, rfl⟩ := resolved
    obtain ⟨kind, refers, kindIs⟩ := binds.refersTo holds sees tableIs
    refine ⟨rfl, rfl, rfl, fun _ => ⟨kind, refers, kindIs .message, kindIs .enum, ?_⟩⟩
    rintro rfl
    cases presence : field.presence <;> simp [kindIs]

theorem MapFieldNode.Resolved.bound (holds : symbols.Holds (declaredTypes set.files))
    (sees : ∀ other, other ∈ visible ↔ Visible canonicalImportPath set index other)
    (tableIs : table.symbols = fun fqn => (symbols fqn).map Sym.kind) {scope : Text}
    {field field' : MapFieldNode}
    (resolved : MapFieldNode.Resolved symbols visible scope field field') :
    MapFieldNode.Bound canonicalImportPath set table index scope field field' := by
  obtain ⟨-, resolved⟩ := resolved
  split_ifs at resolved with scalar
  · rw [resolved]
    exact ⟨rfl, rfl, rfl, rfl, fun notScalar => absurd scalar (by rw [notScalar]; decide)⟩
  · obtain ⟨fqn, binds, rfl⟩ := resolved
    obtain ⟨kind, refers, kindIs⟩ := binds.refersTo holds sees tableIs
    exact ⟨rfl, rfl, rfl, rfl, fun _ => ⟨kind, refers, kindIs .message, kindIs .enum⟩⟩

theorem Item.Resolved.bound (holds : symbols.Holds (declaredTypes set.files))
    (sees : ∀ other, other ∈ visible ↔ Visible canonicalImportPath set index other)
    (tableIs : table.symbols = fun fqn => (symbols fqn).map Sym.kind) {scope : Text}
    {item item' : Item}
    (resolved : Item.Resolved symbols visible scope (item.withFqn scope) item') :
    Item.Bound canonicalImportPath set table index scope item item'.interpret := by
  cases item with
  | field role node =>
      cases role <;> cases item' <;> try exact resolved.elim
      all_goals
        obtain ⟨rfl, resolved⟩ := resolved
        exact ⟨rfl, resolved.bound holds sees tableIs⟩
  | mapField node =>
      cases item' <;> try exact resolved.elim
      exact MapFieldNode.Resolved.bound holds sees tableIs resolved
  | enum node =>
      cases item' <;> try exact resolved.elim
      rw [show _ = node.assignFqn scope from resolved]
      rfl
  | extend node =>
      cases item' <;> try exact resolved.elim
      obtain ⟨same, fqn, binds, message⟩ := resolved
      refine ⟨by rw [same]; rfl, fqn, ?_⟩
      obtain ⟨kind, refers, kindIs⟩ := binds.refersTo holds sees tableIs
      rw [kindIs, beq_iff_eq] at message
      exact message ▸ refers

/-- References are bound for the declaration as parsed. -/
theorem Item.Bound.ofFeatures {features : ResolvedFeatures} {scope : Text} {item item' : Item}
    (bound : Item.Bound canonicalImportPath set table index scope (item.withFeatures features)
      item') :
    Item.Bound canonicalImportPath set table index scope item item' := by
  cases item <;> cases item' <;> exact bound

end Bound

/-! ## Two file sets -/

/-- An editions file whose message refers to a nested one and to an enum that is declared elsewhere.
-/
def shapeFile : FileNode where
  filename := text "shape.proto"
  syntaxLevel := .edition
  edition := text "2023"
  package := text "p"
  imports := [{ path := text "all.proto" }]
  options := [{ name := [{ name := text "features" }, { name := text "field_presence" }]
                value := .identifier (text "IMPLICIT") }]
  messages :=
    [{ name := text "Shape"
       fields := [{ name := text "colour", typeName := text "Colour", number := 1 },
         { name := text "inner", typeName := text "Inner", number := 2 }]
       nestedMessages := [{ name := text "Inner" }] }]

/-- The enum is in a file that the import of the first file imports publicly. -/
def colourFiles : ResolvedFileSet where
  files :=
    [shapeFile,
      { filename := text "all.proto", source := 1
        imports := [{ path := text "colour.proto", kind := .publicly }] },
      { filename := text "colour.proto", source := 2
        enums := [{ name := text "Colour", values := [{ name := text "RED" }] }] }]
  fileIndex path :=
    if path = text "shape.proto" then some 0
    else if path = text "all.proto" then some 1
    else if path = text "colour.proto" then some 2
    else none

theorem analyze_colourFiles : ∃ result, analyze id colourFiles = .ok result := ⟨_, rfl⟩

/-- Two enums have a value `X`, and so is a message named. -/
def sharedName : ResolvedFileSet where
  files :=
    [{ filename := text "x.proto"
       messages := [{ name := text "X" }]
       enums := [{ name := text "A", values := [{ name := text "X" }] },
         { name := text "B", values := [{ name := text "X" }] }] }]
  fileIndex path := if path = text "x.proto" then some 0 else none

/-! ## Qualified names -/

/-- The names an enum has been given: its own and those of its values. -/
def EnumNode.fqns (node : EnumNode) : List Text := node.fqn :: node.values.map EnumValueNode.fqn

/-- The names the extensions of a block have been given. -/
def ExtendNode.fqns (node : ExtendNode) : List Text := node.fields.map FieldNode.fqn

mutual

/-- The names the declarations in a message have been given, its own first. -/
def MessageNode.fqns : MessageNode → List Text
  | ⟨_, _, _, _, _, enums, nestedMessages, _, _, extendBlocks, _, fqn⟩ =>
    fqn :: (fqnsAll nestedMessages ++ enums.flatMap EnumNode.fqns ++
      extendBlocks.flatMap ExtendNode.fqns)

/-- The names in the messages of a list. -/
def fqnsAll : List MessageNode → List Text
  | [] => []
  | message :: messages => message.fqns ++ fqnsAll messages

end

/-- The names the declarations in a file have been given. -/
def FileNode.fqns (file : FileNode) : List Text :=
  fqnsAll file.messages ++ file.enums.flatMap EnumNode.fqns ++
    file.extendBlocks.flatMap ExtendNode.fqns

/-! ## Main result -/

section Main

variable (canonicalImportPath : Text → Text) (set : ResolvedFileSet)

/-- Every file sees itself, its direct imports and what they import publicly.  Analysis fails with a
refusal; or nothing is refused, and it registers every declared type under a name of its own and
binds every reference to the first visible type from the innermost scope outwards. -/
theorem analyze_binds :
    (∀ index, ∃ visible, visibleFiles canonicalImportPath set index = .ok visible ∧
      visible.Nodup ∧ ∀ other, other ∈ visible ↔ Visible canonicalImportPath set index other) ∧
    ((∃ error, analyze canonicalImportPath set = .fail error ∧
        Refusal (SeesType canonicalImportPath set) set.files error) ∨
      (∀ error, ¬ Refusal (SeesType canonicalImportPath set) set.files error) ∧
      ∃ table resolved, analyze canonicalImportPath set = .ok (table, resolved) ∧
        ((set.files.flatMap FileNode.types).map Prod.fst).Nodup ∧
        (∀ fqn kind, table.symbols fqn = some kind ↔
          (fqn, kind) ∈ set.files.flatMap FileNode.types) ∧
        ∀ index file, set.files[index]? = some file → ∃ file',
          resolved.files[index]? = some file' ∧
          List.Forall₂ (Placed.Bound canonicalImportPath set table index) file.items
            file'.items) := by
  refine ⟨visibleFiles_spec canonicalImportPath set, ?_⟩
  have ends := analyze_ends canonicalImportPath set
  cases outcome : analyze canonicalImportPath set with
  | fail error =>
      rw [outcome] at ends
      exact .inl ⟨error, rfl, ends⟩
  | outside => exact (outcome ▸ ends).elim
  | spin => exact (outcome ▸ ends).elim
  | ok result =>
      obtain ⟨table, resolved⟩ := result
      rw [outcome] at ends
      obtain ⟨accepted, symbols, holds, tableIs, files⟩ := ends
      have unique := holds.nodup
      rw [declaredTypes_names] at unique
      refine .inr ⟨accepted, table, resolved, rfl, unique, fun fqn kind => ?_,
        fun index file found => ?_⟩
      · rw [show table.symbols = _ from tableIs, Option.map_eq_some_iff, List.mem_flatMap]
        constructor
        · rintro ⟨sym, registered, rfl⟩
          obtain ⟨file, fileAt, listed⟩ :=
            mem_declaredTypes.mp ((holds.value fqn sym).mp registered)
          exact ⟨file, List.mem_of_getElem? fileAt, listed⟩
        · rintro ⟨file, inSet, listed⟩
          obtain ⟨other, fileAt⟩ := List.mem_iff_getElem?.mp inSet
          exact ⟨⟨kind, other⟩, (holds.value fqn _).mpr
            (mem_declaredTypes.mpr ⟨file, fileAt, listed⟩), rfl⟩
      · obtain ⟨visible, sees, featured, file', featuredIs, fileAt, items⟩ := files index file found
        have bound : ∀ placed placed', Placed.Analysed symbols visible placed placed' →
            Placed.Bound canonicalImportPath set table index placed placed' := by
          rintro placed _ ⟨middle, ⟨scopeIs, -, item⟩, rfl⟩
          exact ⟨scopeIs, Item.Resolved.bound holds sees tableIs item⟩
        refine ⟨file', fileAt, ?_⟩
        rcases FileNode.resolveFeatures_cases featuredIs with ⟨-, rfl⟩ | ⟨-, -, itemsIs⟩
        · exact items.imp bound
        · rw [itemsIs] at items
          refine (List.forall₂_map_left_iff.mp items).imp fun placed placed' analysed => ?_
          obtain ⟨scopeIs, item⟩ := bound _ _ analysed
          exact ⟨scopeIs, item.ofFeatures⟩

end Main

/-- All references of the sample are bound. -/
theorem analyze_binds_colourFiles :
    ∃ table resolved, analyze id colourFiles = .ok (table, resolved) ∧
      table.symbols (text ".Colour") = some .enum ∧
      ∀ index file, colourFiles.files[index]? = some file → ∃ file',
        resolved.files[index]? = some file' ∧
        List.Forall₂ (Placed.Bound id colourFiles table index) file.items file'.items := by
  obtain ⟨result, done⟩ := analyze_colourFiles
  rcases (analyze_binds id colourFiles).2 with
    ⟨error, failed, -⟩ | ⟨-, table, resolved, succeeded, -, registered, bound⟩
  · rw [done] at failed
    cases failed
  · have declared : (text ".Colour", .enum) ∈ colourFiles.files.flatMap FileNode.types := by
      decide +kernel
    exact ⟨table, resolved, succeeded, (registered _ _).mpr declared, bound⟩

/-- Analysis accepts a message and two enum values of one name. -/
theorem analyze_shared_name :
    ∃ table resolved, analyze id sharedName = .ok (table, resolved) ∧
      ¬ (resolved.files.flatMap FileNode.fqns).Nodup :=
  ⟨_, _, rfl, by decide +kernel⟩

end Front
end RapidProto
