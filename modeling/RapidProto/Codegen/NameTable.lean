import Mathlib.Data.List.Infix
import Mathlib.Data.List.Lex
import RapidProto.Codegen.Naming
import RapidProto.Emplace

/-!
# The name table

`build_cpp_names`: one pass over the resolved files that gives every message and enum, and every
member of a generated class, a C++ identifier that is free in its scope.  The names of a package's
own types are claimed before all others, in an order that does not depend on the order of the files.

A node is named by its place: the source keys its tables by the address of a node.
-/

namespace RapidProto
namespace Codegen

open Front

export Front (FileNode)

/-- What a node is among the nodes that hold it. -/
inductive Role where
  | file | message | enum | field | oneof | map
  deriving DecidableEq, Repr

/-- A node: what it is and its position there, below the node that holds it. -/
abbrev NodeRef := List (Role × Nat)

/-- `CppNameTable`. -/
structure CppNameTable where
  /-- Absolute names of the types. -/
  absolute : Text → Option Text := fun _ => none
  /-- Identifiers of the nodes. -/
  locals : NodeRef → Option Text := fun _ => none
  /-- Namespaces of the messages. -/
  typeNs : Text → Option Text := fun _ => none
  /-- Prefix of every namespace. -/
  nsPrefix : Text
  /-- Root of the model's messages. -/
  modelNamespace : Text

/-- `local.at`; it is only asked for nodes that have been given an identifier. -/
def CppNameTable.at (names : CppNameTable) (node : NodeRef) : Text := (names.locals node).getD []

/-- `message_namespace`. -/
def messageNamespace (names : CppNameTable) (file : FileNode) : Text :=
  joinNs (joinNs names.nsPrefix names.modelNamespace) (namespaceOf file.package)

/-- `enum_namespace`. -/
def enumNamespace (names : CppNameTable) (file : FileNode) : Text :=
  joinNs (joinNs names.nsPrefix kCommonRoot) (namespaceOf file.package)

/-! ## The members of a class -/

/-- A table and the identifiers used in the scope at hand. -/
structure Scope where
  /-- The table. -/
  names : CppNameTable
  /-- The identifiers in use. -/
  taken : List Text

/-- A nested message whose members are still to be named. -/
structure Child where
  /-- The message. -/
  node : NodeRef
  /-- Name of its class. -/
  abs : Text
  /-- Name of its mirror, which holds its enums. -/
  enumAbs : Text

namespace Scope

variable (holder : NodeRef)

/-- `assign_id`. -/
def assignId (scope : Scope) (node : NodeRef) (raw : Text) : Scope × Text :=
  let id := underscore.free scope.taken (sanitize raw)
  let names := { scope.names with locals := tryEmplace scope.names.locals node id }
  (⟨names, id :: scope.taken⟩, names.at node)

/-- A nested enum. -/
def indexEnum (enumAbs : Text) (scope : Scope) (entry : EnumNode × Nat) : Scope :=
  let (scope, id) := scope.assignId ((.enum, entry.2) :: holder) entry.1.name
  { scope with
    names := { scope.names with
      absolute := tryEmplace scope.names.absolute entry.1.fqn (enumAbs ++ colons ++ id) } }

/-- A nested message. -/
def indexNested (abs enumAbs msgNs : Text) (state : Scope × List Child)
    (entry : MessageNode × Nat) : Scope × List Child :=
  let node := (.message, entry.2) :: holder
  let (scope, id) := state.1.assignId node entry.1.name
  let childAbs := abs ++ colons ++ id
  let scope := { scope with
    names := { scope.names with
      absolute := tryEmplace scope.names.absolute entry.1.fqn childAbs
      typeNs := tryEmplace scope.names.typeNs entry.1.fqn msgNs } }
  (scope, state.2 ++ [⟨node, childAbs, enumAbs ++ colons ++ id⟩])

/-- A field. -/
def indexField (scope : Scope) (entry : FieldNode × Nat) : Scope :=
  (scope.assignId ((.field, entry.2) :: holder) entry.1.name).1

/-- A oneof and its members. -/
def indexOneof (scope : Scope) (entry : OneofNode × Nat) : Scope :=
  let node := (.oneof, entry.2) :: holder
  entry.1.fields.zipIdx.foldl (indexField node) (scope.assignId node entry.1.name).1

/-- A map field. -/
def indexMap (scope : Scope) (entry : MapFieldNode × Nat) : Scope :=
  (scope.assignId ((.map, entry.2) :: holder) entry.1.name).1

end Scope

mutual

/-- `index_message`.  The class's own name is in use among its members. -/
def indexMessage (names : CppNameTable) (node : NodeRef) (abs enumAbs msgNs : Text) :
    MessageNode → CppNameTable
  | ⟨_, _, fields, mapFields, oneofs, enums, nestedMessages, _, _, _, _, _⟩ =>
    let scope : Scope := ⟨names, [names.at node]⟩
    let scope := enums.zipIdx.foldl (Scope.indexEnum node enumAbs) scope
    let state := nestedMessages.zipIdx.foldl (Scope.indexNested node abs enumAbs msgNs) (scope, [])
    let scope := fields.zipIdx.foldl (Scope.indexField node) state.1
    let scope := oneofs.zipIdx.foldl (Scope.indexOneof node) scope
    let scope := mapFields.zipIdx.foldl (Scope.indexMap node) scope
    indexChildren scope.names msgNs nestedMessages state.2

/-- The loop over the nested messages. -/
def indexChildren (names : CppNameTable) (msgNs : Text) :
    List MessageNode → List Child → CppNameTable
  | message :: messages, child :: children =>
    indexChildren (indexMessage names child.node child.abs child.enumAbs msgNs message) msgNs
      messages children
  | _, _ => names

end

/-! ## The types of a package -/

/-- `TakenByNamespace`. -/
abbrev TakenByNamespace := Text → List Text

/-- An identifier is taken in a namespace. -/
def TakenByNamespace.insert (taken : TakenByNamespace) (key id : Text) : TakenByNamespace :=
  Function.update taken key (id :: taken key)

/-- `claim_component`, on the identifiers and the package seen so far. -/
def claimComponent (names : CppNameTable) (state : TakenByNamespace × Text) (component : Text) :
    TakenByNamespace × Text :=
  (state.1.insert (joinNs names.nsPrefix (namespaceOf state.2)) (sanitize component),
    (if state.2 = [] then [] else state.2 ++ text ".") ++ component)

/-- `claim_package_components`. -/
def claimPackageComponents (names : CppNameTable) (taken : TakenByNamespace) (file : FileNode) :
    TakenByNamespace :=
  (forEachComponent (claimComponent names) (taken, []) file.package).1

/-- A top-level type that asks for an identifier. -/
structure Claimant where
  /-- The type. -/
  node : NodeRef
  /-- Its proto name. -/
  raw : Text
  /-- Its qualified proto name. -/
  fqn : Text
  /-- The namespace of its package. -/
  key : Text

/-- The claimants of one file. -/
def claimantsOf (names : CppNameTable) (entry : FileNode × Nat) : List Claimant :=
  let key := joinNs names.nsPrefix (namespaceOf entry.1.package)
  (entry.1.enums.zipIdx.map fun (node, i) =>
    ⟨[(.enum, i), (.file, entry.2)], node.name, node.fqn, key⟩) ++
  entry.1.messages.zipIdx.map fun (message, i) =>
    ⟨[(.message, i), (.file, entry.2)], message.name, message.fqn, key⟩

/-- `by_fqn`, on the values of the characters. -/
def byFqn (a b : Claimant) : Bool := a.fqn.map BitVec.toNat ≤ b.fqn.map BitVec.toNat

/-- The identifiers taken, and those claimed with their claimants. -/
structure Claims where
  /-- The identifiers taken. -/
  taken : TakenByNamespace := fun _ => []
  /-- The claims, the latest last. -/
  claimed : List (Claimant × Text) := []

namespace Claims

/-- An identifier goes to a claimant. -/
def grant (claims : Claims) (entry : Claimant) (id : Text) : Claims :=
  ⟨claims.taken.insert entry.key id, claims.claimed ++ [(entry, id)]⟩

/-- A literal keeps its spelling unless it is taken, and is then put off. -/
def literal (state : Claims × List Claimant) (entry : Claimant) : Claims × List Claimant :=
  if (state.1.taken entry.key).contains entry.raw then (state.1, state.2 ++ [entry])
  else (state.1.grant entry entry.raw, state.2)

/-- Any other claimant gets the first identifier that is free. -/
def escape (claims : Claims) (entry : Claimant) : Claims :=
  claims.grant entry (underscore.free (claims.taken entry.key) (sanitize entry.raw))

/-- `claimed.find`. -/
def find (claims : Claims) (node : NodeRef) : Option Text :=
  (claims.claimed.find? fun entry => entry.1.node = node).map Prod.snd

end Claims

/-- `claim_toplevel_ids`: the package components first, then the literals, then those of them that
were blocked, and the escapes last. -/
def claimToplevelIds (names : CppNameTable) (files : List FileNode) : Claims :=
  let taken := files.foldl (claimPackageComponents names) fun _ => []
  let claimants := files.zipIdx.flatMap (claimantsOf names)
  let literals := (claimants.filter fun entry => sanitize entry.raw = entry.raw).mergeSort byFqn
  let escapes := (claimants.filter fun entry => sanitize entry.raw ≠ entry.raw).mergeSort byFqn
  let state := literals.foldl Claims.literal (⟨taken, []⟩, [])
  escapes.foldl Claims.escape (state.2.foldl Claims.escape state.1)

/-! ## Files -/

/-- `assign_toplevel_id`. -/
def Scope.assignToplevelId (claims : Claims) (scope : Scope) (node : NodeRef) (raw : Text) :
    Scope × Text :=
  match claims.find node with
  | some id =>
    let names := { scope.names with locals := tryEmplace scope.names.locals node id }
    (⟨names, scope.taken⟩, names.at node)
  | none => scope.assignId node raw

/-- A top-level enum. -/
def Scope.indexTopEnum (claims : Claims) (file : Nat) (enumRoot : Text) (scope : Scope)
    (entry : EnumNode × Nat) : Scope :=
  let (scope, id) :=
    scope.assignToplevelId claims [(.enum, entry.2), (.file, file)] entry.1.name
  { scope with
    names := { scope.names with
      absolute := tryEmplace scope.names.absolute entry.1.fqn (enumRoot ++ colons ++ id) } }

/-- A top-level message. -/
def Scope.indexTopMessage (claims : Claims) (file : Nat) (msgNs : Text)
    (state : Scope × List Text) (entry : MessageNode × Nat) : Scope × List Text :=
  let (scope, id) :=
    state.1.assignToplevelId claims [(.message, entry.2), (.file, file)] entry.1.name
  let abs := colons ++ msgNs ++ colons ++ id
  let scope := { scope with
    names := { scope.names with
      absolute := tryEmplace scope.names.absolute entry.1.fqn abs
      typeNs := tryEmplace scope.names.typeNs entry.1.fqn msgNs } }
  (scope, state.2 ++ [abs])

/-- The members of a top-level message. -/
def indexTop (file : Nat) (enumRoot msgNs : Text) (names : CppNameTable)
    (top : (MessageNode × Nat) × Text) : CppNameTable :=
  let node : NodeRef := [(.message, top.1.2), (.file, file)]
  indexMessage names node top.2 (enumRoot ++ colons ++ names.at node) msgNs top.1.1

/-- `index_file`. -/
def indexFile (claims : Claims) (state : CppNameTable × TakenByNamespace)
    (entry : FileNode × Nat) : CppNameTable × TakenByNamespace :=
  let msgNs := messageNamespace state.1 entry.1
  let enumRoot := colons ++ enumNamespace state.1 entry.1
  let key := joinNs state.1.nsPrefix (namespaceOf entry.1.package)
  let scope : Scope := ⟨state.1, state.2 key⟩
  let scope := entry.1.enums.zipIdx.foldl (Scope.indexTopEnum claims entry.2 enumRoot) scope
  let tops := entry.1.messages.zipIdx.foldl (Scope.indexTopMessage claims entry.2 msgNs) (scope, [])
  let names := (entry.1.messages.zipIdx.zip tops.2).foldl (indexTop entry.2 enumRoot msgNs)
    tops.1.names
  (names, Function.update state.2 key tops.1.taken)

/-- `build_cpp_names`. -/
def buildCppNames (file : FileNode) (allFiles : List FileNode) (nsPrefix modelNamespace : Text) :
    CppNameTable :=
  let names : CppNameTable := {
    nsPrefix := if nsPrefix = [] then namespaceOf kDefaultNsPrefix else nsPrefix
    modelNamespace }
  let fileSet := if allFiles = [] then [file] else allFiles
  let claims := claimToplevelIds names fileSet
  (fileSet.zipIdx.foldl (indexFile claims) (names, claims.taken)).1

/-! ## Lookups -/

/-- `unresolved_type_name`. -/
def unresolvedTypeName (fqn : Text) : Text :=
  text "rp_type_not_in_name_table__" ++ fqn.map fun ch => if ch = byte '.' then byte '_' else ch

/-- `cpp_type_name`. -/
def cppTypeName (names : CppNameTable) (fqn : Text) : Text :=
  (names.absolute fqn).getD (unresolvedTypeName fqn)

/-- `relative_type_name`. -/
def relativeTypeName (names : CppNameTable) (fqn : Text) : Text :=
  let absolute := cppTypeName names fqn
  match names.typeNs fqn with
  | none => absolute
  | some ns =>
    let head := colons ++ ns ++ colons
    if head.isPrefixOf absolute then absolute.drop head.length else absolute

end Codegen
end RapidProto
