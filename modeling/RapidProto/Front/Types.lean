import RapidProto.Front.Items
import RapidProto.Outcome

/-!
# Type resolution

The `TypeResolver` of `resolve.cpp`: the symbols of all files, the files a file can see, and the
resolution of the type references in fields, maps and `extend` blocks.  Loops over strings and over
the import graph take a bound on their turns; the canonical form of an import path is a parameter.
-/

namespace RapidProto
namespace Front

/-- The resolved files, with their positions by canonical name. -/
structure ResolvedFileSet where
  /-- The files. -/
  files : List FileNode := []
  /-- Position of a canonical name. -/
  fileIndex : Text → Option Nat := fun _ => none

/-- What a name is registered as. -/
inductive SymbolKind where
  | message | enum
  deriving DecidableEq, Repr

/-- A registered declaration. -/
structure Sym where
  kind : SymbolKind
  fileIndex : Nat
  deriving DecidableEq, Repr

/-- `m_symbols`. -/
abbrev Symbols := Text → Option Sym

/-- The keys of `m_table.extensions`. -/
abbrev Extensions := List (Text × BitVec 32)

/-- An error at an offset of a source. -/
def failAtOffset {α : Type} (source byteOffset : Nat) (message : Text) : Outcome Error α :=
  .fail { source := some source, byteOffset, message }

/-! ## Symbols -/

/-- `record`. -/
def Symbols.record (symbols : Symbols) (source : Nat) (fqn : Text) (sym : Sym) :
    Outcome Error Symbols :=
  if (symbols fqn).isSome then
    failAtOffset source 0 (text "duplicate type name '" ++ fqn ++ text "'")
  else .ok (Function.update symbols fqn (some sym))

/-- The loop over the enums of a message or a file. -/
def collectEnums (source fileIndex : Nat) (enums : List EnumNode) (symbols : Symbols) :
    Outcome Error Symbols :=
  enums.foldlM (fun symbols node => symbols.record source node.fqn ⟨.enum, fileIndex⟩) symbols

mutual

/-- `collect_message`. -/
def MessageNode.collect (source fileIndex : Nat) : MessageNode → Symbols → Outcome Error Symbols
  | ⟨_, _, _, _, _, enums, nestedMessages, _, _, _, _, fqn⟩, symbols => do
    let symbols ← symbols.record source fqn ⟨.message, fileIndex⟩
    let symbols ← collectAll source fileIndex nestedMessages symbols
    collectEnums source fileIndex enums symbols

/-- The same for all messages of a list. -/
def collectAll (source fileIndex : Nat) : List MessageNode → Symbols → Outcome Error Symbols
  | [], symbols => .ok symbols
  | message :: messages, symbols => do
    let symbols ← message.collect source fileIndex symbols
    collectAll source fileIndex messages symbols

end

/-- What `collect_symbols` does with one file. -/
def FileNode.collect (file : FileNode) (fileIndex : Nat) (symbols : Symbols) :
    Outcome Error Symbols := do
  let symbols ← collectAll file.source fileIndex file.messages symbols
  collectEnums file.source fileIndex file.enums symbols

/-- `collect_symbols`. -/
def collectSymbols (files : List FileNode) : Outcome Error Symbols :=
  files.zipIdx.foldlM (fun symbols (file, index) => file.collect index symbols) fun _ => none

/-! ## Visible files -/

section Visibility

variable (canonicalImportPath : Text → Text) (set : ResolvedFileSet)

/-- `files()[index].imports`. -/
def ResolvedFileSet.imports (index : Nat) : List ImportNode :=
  match set.files[index]? with
  | some file => file.imports
  | none => []

/-- `import_index` of an import. -/
def ResolvedFileSet.importIndex (node : ImportNode) : Option Nat :=
  set.fileIndex (canonicalImportPath node.path)

/-- The visible files so far and the files whose imports are still to be read. -/
structure Closure where
  visible : List Nat
  stack : List Nat

/-- One import in `add_public_closure`. -/
def Closure.follow (closure : Closure) (node : ImportNode) : Closure :=
  if node.kind ≠ .publicly then closure
  else
    match set.importIndex canonicalImportPath node with
    | none => closure
    | some target =>
      if target ∈ closure.visible then closure
      else { visible := closure.visible ++ [target], stack := target :: closure.stack }

/-- The loop of `add_public_closure`. -/
def drainClosure : (turns : Nat) → Closure → Outcome Error (List Nat)
  | 0, closure => if closure.stack.isEmpty then .ok closure.visible else .spin
  | turns + 1, closure =>
    match closure.stack with
    | [] => .ok closure.visible
    | current :: stack =>
      drainClosure turns
        ((set.imports current).foldl (Closure.follow canonicalImportPath set)
          { closure with stack })

/-- Number of imports in the set. -/
def ResolvedFileSet.importCount : Nat := (set.files.flatMap FileNode.imports).length

/-- `add_public_closure`. -/
def addPublicClosure (start : Nat) (visible : List Nat) : Outcome Error (List Nat) :=
  drainClosure canonicalImportPath set (set.importCount + 1) { visible, stack := [start] }

/-- One direct import in `visible_files`. -/
def addImport (visible : List Nat) (node : ImportNode) : Outcome Error (List Nat) :=
  if node.kind = .option then .ok visible
  else
    match set.importIndex canonicalImportPath node with
    | none => .ok visible
    | some target =>
      addPublicClosure canonicalImportPath set target
        (if target ∈ visible then visible else visible ++ [target])

/-- `visible_files`. -/
def visibleFiles (fileIndex : Nat) : Outcome Error (List Nat) :=
  (set.imports fileIndex).foldlM (addImport canonicalImportPath set) [fileIndex]

end Visibility

/-! ## References -/

/-- `parent_scope`: without the last dotted component. -/
def parentScope (scope : Text) : Text :=
  ((scope.reverse.dropWhile (· ≠ byte '.')).drop 1).reverse

section References

variable (symbols : Symbols) (visible : List Nat)

/-- The name is declared in a visible file. -/
def isVisible (fqn : Text) : Bool :=
  match symbols fqn with
  | some sym => visible.contains sym.fileIndex
  | none => false

/-- The search through the enclosing scopes. -/
def searchScopes (name : Text) : (turns : Nat) → (current : Text) → Outcome Error (Option Text)
  | 0, _ => .spin
  | turns + 1, current =>
    if isVisible symbols visible (qualify current name) then .ok (some (qualify current name))
    else if current.isEmpty then .ok none
    else searchScopes name turns (parentScope current)

/-- `resolve_name`. -/
def resolveName (name scope : Text) : Outcome Error (Option Text) :=
  if name.head? = some (byte '.') then
    .ok (if isVisible symbols visible name then some name else none)
  else searchScopes symbols visible name (scope.length + 1) scope

/-- `m_symbols.at(fqn).kind == kind`. -/
def hasKind (fqn : Text) (kind : SymbolKind) : Bool :=
  (symbols fqn).map Sym.kind == some kind

variable (source : Nat)

/-- `resolve_field` of the type pass.  Message-typed fields always have presence. -/
def FieldNode.resolve (scope : Text) (field : FieldNode) : Outcome Error FieldNode :=
  if isScalarType field.typeName then .ok field
  else do
    match ← resolveName symbols visible field.typeName scope with
    | none =>
      failAtOffset source field.offset
        (text "unresolved type '" ++ field.typeName ++ text "' in " ++ scope)
    | some fqn =>
      let isMessageType := hasKind symbols fqn .message
      let isEnumType := hasKind symbols fqn .enum
      .ok
        { field with
          resolvedTypeFqn := fqn, isMessageType, isEnumType
          presence :=
            if isMessageType && field.presence == .implicit then .explicit else field.presence
          repeatedEncoding :=
            if field.isRepeated && (isMessageType || isEnumType) then .expanded
            else field.repeatedEncoding }

/-- `resolve_map`. -/
def MapFieldNode.resolve (scope : Text) (field : MapFieldNode) : Outcome Error MapFieldNode :=
  if !isValidMapKeyType field.keyType then
    failAtOffset source field.offset
      (text "map key type '" ++ field.keyType ++
        text "' is not allowed (a map key must be an integral or string scalar) in " ++ scope)
  else if isScalarType field.valueType then .ok field
  else do
    match ← resolveName symbols visible field.valueType scope with
    | none =>
      failAtOffset source field.offset
        (text "unresolved map value type '" ++ field.valueType ++ text "' in " ++ scope)
    | some fqn =>
      .ok
        { field with
          resolvedValueTypeFqn := fqn
          valueIsMessage := hasKind symbols fqn .message
          valueIsEnum := hasKind symbols fqn .enum }

/-- A number as `std::to_string` prints it. -/
def numberText (number : BitVec 32) : Text := text (toString number.toInt)

/-- One extension of an `extend` block. -/
def resolveExtension (scope extendee : Text) (field : FieldNode) (extensions : Extensions) :
    Outcome Error (FieldNode × Extensions) := do
  let field ← field.resolve symbols visible source scope
  if (extendee, field.number) ∈ extensions then
    failAtOffset source field.offset
      (text "duplicate extension number " ++ numberText field.number ++ text " extending '" ++
        extendee ++ text "'")
  else .ok (field, extensions ++ [(extendee, field.number)])

/-- A loop that rewrites the nodes of a list and threads the extensions through. -/
def resolveEach {ν : Type} (resolve : ν → Extensions → Outcome Error (ν × Extensions)) :
    List ν → Extensions → Outcome Error (List ν × Extensions)
  | [], extensions => .ok ([], extensions)
  | node :: nodes, extensions => do
    let (node, extensions) ← resolve node extensions
    let (nodes, extensions) ← resolveEach resolve nodes extensions
    .ok (node :: nodes, extensions)

/-- `resolve_extend`. -/
def ExtendNode.resolve (scope : Text) (node : ExtendNode) (extensions : Extensions) :
    Outcome Error (ExtendNode × Extensions) := do
  match ← resolveName symbols visible node.extendeeTypeName scope with
  | none =>
    failAtOffset source node.offset
      (text "unresolved extendee '" ++ node.extendeeTypeName ++ text "'")
  | some extendee =>
    if !hasKind symbols extendee .message then
      failAtOffset source node.offset
        (text "extendee '" ++ node.extendeeTypeName ++ text "' is not a message")
    else do
      let (fields, extensions) ←
        resolveEach (resolveExtension symbols visible source scope extendee) node.fields extensions
      .ok ({ node with fields }, extensions)

/-- The loop over the members of a oneof. -/
def OneofNode.resolve (scope : Text) (oneof : OneofNode) : Outcome Error OneofNode := do
  let fields ← oneof.fields.mapM (FieldNode.resolve symbols visible source scope)
  .ok { oneof with fields }

mutual

/-- `resolve_message` of the type pass. -/
def MessageNode.resolve : MessageNode → Extensions → Outcome Error (MessageNode × Extensions)
  | ⟨name, visibility, fields, mapFields, oneofs, enums, nestedMessages, reserved,
      extensionRanges, extendBlocks, options, fqn⟩, extensions => do
    let fields ← fields.mapM (FieldNode.resolve symbols visible source fqn)
    let oneofs ← oneofs.mapM (OneofNode.resolve symbols visible source fqn)
    let mapFields ← mapFields.mapM (MapFieldNode.resolve symbols visible source fqn)
    let (nestedMessages, extensions) ← resolveAll nestedMessages extensions
    let (extendBlocks, extensions) ←
      resolveEach (ExtendNode.resolve symbols visible source fqn) extendBlocks extensions
    .ok
      ({ name, visibility, fields, mapFields, oneofs, enums, nestedMessages, reserved,
         extensionRanges, extendBlocks, options, fqn }, extensions)

/-- The same for all messages of a list. -/
def resolveAll : List MessageNode → Extensions → Outcome Error (List MessageNode × Extensions)
  | [], extensions => .ok ([], extensions)
  | message :: messages, extensions => do
    let (message, extensions) ← message.resolve extensions
    let (messages, extensions) ← resolveAll messages extensions
    .ok (message :: messages, extensions)

end

end References

section Run

variable (canonicalImportPath : Text → Text) (set : ResolvedFileSet) (symbols : Symbols)

/-- The file at an index. -/
def FileNode.resolve (entry : FileNode × Nat) (extensions : Extensions) :
    Outcome Error ((FileNode × Nat) × Extensions) := do
  let (file, index) := entry
  let visible ← visibleFiles canonicalImportPath set index
  let (messages, extensions) ← resolveAll symbols visible file.source file.messages extensions
  let (extendBlocks, extensions) ←
    resolveEach (ExtendNode.resolve symbols visible file.source file.scope) file.extendBlocks
      extensions
  .ok (({ file with messages, extendBlocks }, index), extensions)

/-- `resolve_types`. -/
def resolveTypes : Outcome Error (Symbols × Extensions × ResolvedFileSet) := do
  let symbols ← collectSymbols set.files
  let (files, extensions) ←
    resolveEach (FileNode.resolve canonicalImportPath set symbols) set.files.zipIdx []
  .ok (symbols, extensions, { set with files := files.map Prod.fst })

end Run

end Front
end RapidProto
