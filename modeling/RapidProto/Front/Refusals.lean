import RapidProto.Front.Binding

/-!
# What type resolution refuses

The errors of the `TypeResolver`, each with the declaration it is about and what is wrong with it,
in terms of the types that a file sees.  An extension is also refused if its number is taken for its
extendee, by an extension of its own file or of one before it.  With the errors of the passes before
it these are all the errors of the analysis.
-/

namespace RapidProto
namespace Front

/-! ## Declarations -/

/-- An error at an offset of a source. -/
def errorAtOffset (source byteOffset : Nat) (message : Text) : Error :=
  { source := some source, byteOffset, message }

section Refused

variable (sees : Text → SymbolKind → Prop)

/-- What a name is bound to among the types that are seen. -/
def BindsSeen (scope name fqn : Text) : Prop :=
  Binds (fun fqn => ∃ kind, sees fqn kind) scope name fqn

variable (source : Nat) (scope : Text)

/-- A declaration that type resolution refuses, with the error. -/
inductive Item.Refused : Item → Error → Prop where
  /-- The type of a field is not found. -/
  | fieldType {role : FieldRole} {node : FieldNode}
      (reference : isScalarType node.typeName = false)
      (unbound : ∀ fqn, ¬ BindsSeen sees scope node.typeName fqn) :
      Refused (.field role node) (errorAtOffset source node.offset
        (text "unresolved type '" ++ node.typeName ++ text "' in " ++ scope))
  /-- The key type of a map is no integral or string scalar. -/
  | mapKey {node : MapFieldNode} (invalid : isValidMapKeyType node.keyType = false) :
      Refused (.mapField node) (errorAtOffset source node.offset
        (text "map key type '" ++ node.keyType ++
          text "' is not allowed (a map key must be an integral or string scalar) in " ++ scope))
  /-- The value type of a map is not found. -/
  | mapValue {node : MapFieldNode} (valid : isValidMapKeyType node.keyType = true)
      (reference : isScalarType node.valueType = false)
      (unbound : ∀ fqn, ¬ BindsSeen sees scope node.valueType fqn) :
      Refused (.mapField node) (errorAtOffset source node.offset
        (text "unresolved map value type '" ++ node.valueType ++ text "' in " ++ scope))
  /-- The type that an `extend` block extends is not found. -/
  | extendee {node : ExtendNode}
      (unbound : ∀ fqn, ¬ BindsSeen sees scope node.extendeeTypeName fqn) :
      Refused (.extend node) (errorAtOffset source node.offset
        (text "unresolved extendee '" ++ node.extendeeTypeName ++ text "'"))
  /-- The type that an `extend` block extends is an enum. -/
  | extendeeKind {node : ExtendNode} {fqn : Text}
      (binds : BindsSeen sees scope node.extendeeTypeName fqn) (isEnum : sees fqn .enum) :
      Refused (.extend node) (errorAtOffset source node.offset
        (text "extendee '" ++ node.extendeeTypeName ++ text "' is not a message"))

end Refused

/-! ## Extensions -/

/-- An extension as it is declared. -/
structure DeclaredExtension where
  /-- Position of its file. -/
  fileIndex : Nat
  /-- Source of its file. -/
  source : Nat
  /-- Scope of its `extend` block. -/
  scope : Text
  /-- The extended type as written. -/
  extendee : Text
  /-- Its number. -/
  number : BitVec 32
  /-- Its offset. -/
  offset : Nat

/-- The extensions of a declaration: those of an `extend` block. -/
def Placed.extensions (fileIndex source : Nat) (placed : Placed) : List DeclaredExtension :=
  match placed.item with
  | .extend node =>
    node.fields.map fun field =>
      ⟨fileIndex, source, placed.scope, node.extendeeTypeName, field.number, field.offset⟩
  | _ => []

/-- The extensions of all files. -/
def declaredExtensions (files : List FileNode) : List DeclaredExtension :=
  files.zipIdx.flatMap fun (file, index) => file.items.flatMap (Placed.extensions index file.source)

/-- An extension is registered under its extendee and its number. -/
def DeclaredExtension.Keyed (sees : Text → SymbolKind → Prop) (extension : DeclaredExtension)
    (key : Text × BitVec 32) : Prop :=
  BindsSeen sees extension.scope extension.extendee key.1 ∧ key.2 = extension.number

/-- An extension has one key at most. -/
theorem DeclaredExtension.Keyed.unique {sees : Text → SymbolKind → Prop}
    {extension : DeclaredExtension} {key key' : Text × BitVec 32} (keyed : extension.Keyed sees key)
    (keyed' : extension.Keyed sees key') : key = key' :=
  Prod.ext (keyed.1.unique keyed'.1) (keyed.2.trans keyed'.2.symm)

/-- The error of an extension whose number is taken. -/
def duplicateExtension (extension : DeclaredExtension) (key : Text × BitVec 32) : Error :=
  errorAtOffset extension.source extension.offset
    (text "duplicate extension number " ++ numberText extension.number ++ text " extending '" ++
      key.1 ++ text "'")

/-! ## File sets -/

/-- A file set that analysis refuses, with the error; `sees` are the types that each file sees. -/
inductive Refusal (sees : Nat → Text → SymbolKind → Prop) (files : List FileNode) :
    Error → Prop where
  /-- The feature defaults of an edition are not known. -/
  | edition {file : FileNode} (listed : file ∈ files) (editions : file.syntaxLevel = .edition)
      (not2023 : file.edition ≠ text "2023") (not2024 : file.edition ≠ text "2024") :
      Refusal sees files (unknownEdition file)
  /-- A type has the name of a type before it. -/
  | typeName {error : Error} (duplicate : DuplicateType files error) : Refusal sees files error
  /-- A reference in a declaration is not bound, or not to a type it may refer to. -/
  | declaration {index : Nat} {file : FileNode} {placed : Placed} {error : Error}
      (fileAt : files[index]? = some file) (listed : placed ∈ file.items)
      (refused : placed.item.Refused (sees index) file.source placed.scope error) :
      Refusal sees files error
  /-- An extension has the extendee and the number of an extension before it. -/
  | extensionNumber {before after : List DeclaredExtension} {first extension : DeclaredExtension}
      {key : Text × BitVec 32} (split : declaredExtensions files = before ++ extension :: after)
      (earlier : first ∈ before) (taken : first.Keyed (sees first.fileIndex) key)
      (keyed : extension.Keyed (sees extension.fileIndex) key) :
      Refusal sees files (duplicateExtension extension key)

/-! ## Failures of a loop -/

/-- A part of the pass that registers extensions fails at a declaration that is refused, or at an
extension whose key is taken. -/
def Fails (keyed : DeclaredExtension → Text × BitVec 32 → Prop) (taken : Extensions)
    (refused : Error → Prop) (extensions : List DeclaredExtension) (error : Error) : Prop :=
  refused error ∨ ∃ extension key, Repeats keyed taken extensions extension key ∧
    error = duplicateExtension extension key

section Fails

variable {keyed : DeclaredExtension → Text × BitVec 32 → Prop} {taken taken' : Extensions}
  {refused refused' : Error → Prop} {extensions : List DeclaredExtension} {error : Error}

theorem Fails.left (fails : Fails keyed taken refused extensions error)
    (more : List DeclaredExtension) (weaker : refused error → refused' error) :
    Fails keyed taken refused' (extensions ++ more) error := by
  refine fails.imp weaker ?_
  rintro ⟨extension, key, repeats, errorIs⟩
  exact ⟨extension, key, repeats.left more, errorIs⟩

theorem Fails.right {more : List DeclaredExtension}
    (registers : Registers keyed taken extensions taken')
    (fails : Fails keyed taken' refused more error) (weaker : refused error → refused' error) :
    Fails keyed taken refused' (extensions ++ more) error := by
  refine fails.imp weaker ?_
  rintro ⟨extension, key, repeats, errorIs⟩
  exact ⟨extension, key, repeats.right fun _ => registers.source, errorIs⟩

theorem Fails.mono {keyed' : DeclaredExtension → Text × BitVec 32 → Prop}
    (fails : Fails keyed taken refused extensions error)
    (same : ∀ extension ∈ extensions, ∀ key, keyed extension key → keyed' extension key)
    (weaker : refused error → refused' error) :
    Fails keyed' taken refused' extensions error := by
  refine fails.imp weaker ?_
  rintro ⟨extension, key, repeats, errorIs⟩
  exact ⟨extension, key, repeats.mono same, errorIs⟩

variable {ν : Type}

/-- A loop over nodes rewrites them and registers their extensions, or fails as it does at one of
them. -/
theorem resolveEach_ends (related : ν → ν → Prop) (refused : ν → Error → Prop)
    (extensionsOf : ν → List DeclaredExtension)
    {resolve : ν → Extensions → Outcome Error (ν × Extensions)} (nodes : List ν)
    (taken : Extensions)
    (each : ∀ node ∈ nodes, ∀ taken, (resolve node taken).Ends
      (fun result => related node result.1 ∧
        Registers keyed taken (extensionsOf node) result.2)
      (Fails keyed taken (refused node) (extensionsOf node))) :
    (resolveEach resolve nodes taken).Ends
      (fun result => List.Forall₂ related nodes result.1 ∧
        Registers keyed taken (nodes.flatMap extensionsOf) result.2)
      (Fails keyed taken (fun error => ∃ node ∈ nodes, refused node error)
        (nodes.flatMap extensionsOf)) := by
  induction nodes generalizing taken with
  | nil => exact ⟨List.Forall₂.nil, .nil taken⟩
  | cons node nodes ih =>
      rw [resolveEach, List.flatMap_cons]
      refine ((each node List.mem_cons_self taken).mono (fun _ first => first) fun error fails =>
        fails.left _ fun refused => ⟨node, List.mem_cons_self, refused⟩).bind ?_
      rintro ⟨node', taken'⟩ ⟨first, registers⟩
      refine ((ih taken' fun other met => each other (List.mem_cons_of_mem _ met)).mono
        (fun _ rest => rest) fun error fails => fails.right registers ?_).bind ?_
      · rintro ⟨other, listed, refused⟩
        exact ⟨other, List.mem_cons_of_mem _ listed, refused⟩
      · rintro ⟨nodes', taken''⟩ ⟨rest, registers'⟩
        exact ⟨List.Forall₂.cons first rest, registers.append registers'⟩

end Fails

end Front
end RapidProto
