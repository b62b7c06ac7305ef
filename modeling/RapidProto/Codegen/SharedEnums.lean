import RapidProto.Codegen.HeaderReader

/-!
# One home for an enum

The other headers refer to an enum by its absolute name.  That name is what the namespaces of the
common header lead to, for every enum of the file at whatever depth.
-/

namespace RapidProto
namespace Codegen

open Front

/-! ## Mirrors and paths -/

theorem enum_mem_classLog {node : NodeRef} {own : Text} {message : MessageNode} {i : Nat}
    {id : Text} (given : (enumIds own message)[i]? = some id) :
    ((.enum, i) :: node, id) ∈ classLog node own message := by
  have listed := nodesOf_zip_mem .enum node (message.enums.map EnumNode.name)
    (by simp [enumIds]) given 0
  rw [Nat.zero_add] at listed
  simp only [classLog, memberNodes, List.map_append, List.append_assoc, map_snd_nodesOf,
    idsOf_append]
  rw [List.zip_append (by simp)]
  exact List.mem_append_left _ listed

/-- An enum and its identifier are a path. -/
theorem mem_pathsOf_true {path ids : List Text} {enums : List EnumNode} {i : Nat} {node : EnumNode}
    {id : Text} (position : enums[i]? = some node) (given : ids[i]? = some id) :
    ⟨true, node.fqn, path ++ [id]⟩ ∈ pathsOf true path (enums.map EnumNode.fqn) ids := by
  rw [pathsOf, List.mem_map]
  refine ⟨(node.fqn, id), ?_, rfl⟩
  apply List.mem_of_getElem?
  rw [List.getElem?_zip_eq_some]
  exact ⟨by simp [position], given⟩

section Names

variable {names : CppNameTable}

/-- What is written to a table is found in it. -/
def Holds (names : CppNameTable) (log : List (NodeRef × Text)) : Prop :=
  ∀ pair ∈ log, names.locals pair.1 = some pair.2

theorem at_eq {node : NodeRef} {id : Text} (held : names.locals node = some id) :
    names.at node = id := by
  rw [CppNameTable.at, held]
  rfl

mutual

/-- The mirror of a message leads along the paths of its types. -/
theorem mirrorOf_paths {node : NodeRef} {path : List Text} {own : Text}
    (named : names.locals node = some own) : {message : MessageNode} →
    Holds names (localLog node own message) → {item : EnumNode × List Text} →
    item ∈ mirrorOf names node path message →
    ⟨true, item.1.fqn, item.2⟩ ∈ typePaths (path ++ [own]) own message
  | ⟨name, visibility, fields, mapFields, oneofs, enums, nestedMessages, reserved, ranges, blocks,
      options, fqn⟩, holds, item, listed => by
    let message : MessageNode := ⟨name, visibility, fields, mapFields, oneofs, enums,
      nestedMessages, reserved, ranges, blocks, options, fqn⟩
    rw [localLog_eq] at holds
    rw [typePaths_eq, List.mem_append, List.mem_append]
    rw [mirrorOf, at_eq named, List.mem_append] at listed
    rcases listed with listed | listed
    · obtain ⟨⟨nested, i⟩, position, rfl⟩ := List.mem_map.mp listed
      have found := List.mem_zipIdx_iff_getElem?.mp position
      obtain ⟨bound, -⟩ := List.getElem?_eq_some_iff.mp found
      obtain ⟨id, given⟩ : ∃ id, (enumIds own message)[i]? = some id :=
        ⟨_, List.getElem?_eq_getElem (by simpa [enumIds, message] using bound)⟩
      have held : names.locals ((.enum, i) :: node) = some id :=
        holds _ (List.mem_append_left _ (enum_mem_classLog given))
      refine .inl (.inl ?_)
      simp only [at_eq held]
      have member := @mem_pathsOf_true (path ++ [own]) _ _ _ _ _ found given
      rwa [List.append_assoc] at member
    · apply Or.inr
      apply mirrorsOf_paths (length_nestedIds own message) _ _ listed
      · intro i id given
        rw [Nat.zero_add]
        exact holds _ (List.mem_append_left _ (nested_mem_classLog given))
      · exact fun pair inside => holds pair (List.mem_append_right _ inside)

theorem mirrorsOf_paths {holder : NodeRef} {path ids : List Text} : {first : Nat} →
    {messages : List MessageNode} → ids.length = messages.length →
    (∀ i id, ids[i]? = some id → names.locals ((.message, first + i) :: holder) = some id) →
    Holds names (localLogAll holder first ids messages) → {item : EnumNode × List Text} →
    item ∈ mirrorsOf names holder path first messages →
    ⟨true, item.1.fqn, item.2⟩ ∈ typePathsAll path ids messages
  | _, [], _, _, _, item, listed => by cases listed
  | first, message :: messages, lengths, named, holds, item, listed => by
    cases ids with
    | nil => cases lengths
    | cons id ids =>
        rw [localLogAll] at holds
        rw [mirrorsOf, List.mem_append] at listed
        rw [typePathsAll, List.mem_append]
        rcases listed with here | later
        · exact .inl (mirrorOf_paths (named 0 id rfl)
            (fun pair inside => holds pair (List.mem_append_left _ inside)) here)
        · apply Or.inr
          apply mirrorsOf_paths (by simpa using lengths) _ _ later
          · intro i other given
            rw [Nat.add_assoc, Nat.add_comm 1 i]
            exact named (i + 1) other given
          · exact fun pair inside => holds pair (List.mem_append_right _ inside)

end

end Names

mutual

/-- The enums declared in a message, in the order of the header. -/
def enumsIn : MessageNode → List EnumNode
  | ⟨_, _, _, _, _, enums, nestedMessages, _, _, _, _, _⟩ => enums ++ enumsInAll nestedMessages

/-- The same for the messages of a list. -/
def enumsInAll : List MessageNode → List EnumNode
  | [] => []
  | message :: messages => enumsIn message ++ enumsInAll messages

end

/-- The enums of a file. -/
def fileEnums (file : FileNode) : List EnumNode := file.enums ++ enumsInAll file.messages

mutual

theorem map_fst_mirrorOf (names : CppNameTable) (node : NodeRef) (path : List Text) :
    (message : MessageNode) → (mirrorOf names node path message).map Prod.fst = enumsIn message
  | ⟨_, _, _, _, _, enums, nestedMessages, _, _, _, _, _⟩ => by
    rw [mirrorOf, enumsIn, List.map_append, map_fst_mirrorsOf, List.map_map]
    congr 1
    exact List.zipIdx_map_fst 0 enums

theorem map_fst_mirrorsOf (names : CppNameTable) (holder : NodeRef) (path : List Text) :
    (first : Nat) → (messages : List MessageNode) →
    (mirrorsOf names holder path first messages).map Prod.fst = enumsInAll messages
  | _, [] => rfl
  | first, message :: messages => by
    rw [mirrorsOf, enumsInAll, List.map_append, map_fst_mirrorOf, map_fst_mirrorsOf]

end

theorem map_fst_fileMirror (names : CppNameTable) (entry : FileNode × Nat) :
    (fileMirror names entry).map Prod.fst = fileEnums entry.1 := by
  rw [fileMirror, fileEnums, List.map_append, map_fst_mirrorsOf, List.map_map]
  congr 1
  exact List.zipIdx_map_fst 0 entry.1.enums

/-! ## The header of a file -/

/-- What the lexer and the parser see to: names are words, and a package is words and dots.  They
let any byte into the path of an import, which is a string literal. -/
structure LexedFile (file : FileNode) : Prop where
  names : ∀ name ∈ fileTypeNames file, HeaderState.Word name
  values : ∀ node ∈ fileEnums file, Worded node
  package : ∀ c ∈ file.package, isLetterOrDigit c = true ∨ c = byte '.'

section Header

variable (file : FileNode) (allFiles : List FileNode) (nsPrefix modelNamespace : Text)

/-- The mirror of a file leads along the paths of its types. -/
theorem fileMirror_paths {entry : FileNode × Nat} (listed : entry ∈ (fileSet file allFiles).zipIdx)
    {item : EnumNode × List Text}
    (inside : item ∈ fileMirror (buildCppNames file allFiles nsPrefix modelNamespace) entry) :
    ⟨true, item.1.fqn, item.2⟩ ∈
      fileTypes (claimsOf file allFiles nsPrefix modelNamespace) entry := by
  have holds : Holds (buildCppNames file allFiles nsPrefix modelNamespace)
      (fileLog (claimsOf file allFiles nsPrefix modelNamespace) entry) :=
    fun pair written => locals_of_mem file allFiles nsPrefix modelNamespace listed written
  rw [fileLog] at holds
  rw [fileTypes, List.mem_append, List.mem_append]
  rw [fileMirror, List.mem_append] at inside
  rcases inside with inside | inside
  · obtain ⟨⟨node, i⟩, position, rfl⟩ := List.mem_map.mp inside
    have found := List.mem_zipIdx_iff_getElem?.mp position
    obtain ⟨bound, -⟩ := List.getElem?_eq_some_iff.mp found
    obtain ⟨id, given⟩ : ∃ id,
        (topEnumIds (claimsOf file allFiles nsPrefix modelNamespace) entry)[i]? = some id :=
      ⟨_, List.getElem?_eq_getElem (by simpa [topEnumIds] using bound)⟩
    have written := nodesOf_zip_mem .enum [(.file, entry.2)] (entry.1.enums.map EnumNode.name)
      (by simp [topEnumIds]) given 0
    rw [Nat.zero_add] at written
    have held : (buildCppNames file allFiles nsPrefix modelNamespace).locals
        [(.enum, i), (.file, entry.2)] = some id :=
      holds _ (List.mem_append_left _ (List.mem_append_left _ written))
    refine .inl (.inl ?_)
    simp only [at_eq held]
    exact @mem_pathsOf_true [] _ _ _ _ _ found given
  · apply Or.inr
    apply mirrorsOf_paths (by simp [topMessageIds]) _ _ inside
    · intro i id given
      have written := nodesOf_zip_mem .message [(.file, entry.2)]
        (entry.1.messages.map MessageNode.name) (by simp [topMessageIds]) given 0
      exact holds _ (List.mem_append_left _ (List.mem_append_right _ written))
    · exact fun pair written => holds pair (List.mem_append_right _ written)

/-- The absolute name of an enum spells its path below the namespace of the file. -/
theorem cppTypeName_enum (unique : ((fileSet file allFiles).flatMap fileFqns).Nodup)
    {entry : FileNode × Nat} (listed : entry ∈ (fileSet file allFiles).zipIdx) {fqn : Text}
    {path : List Text} (inside : ⟨true, fqn, path⟩ ∈
      fileTypes (claimsOf file allFiles nsPrefix modelNamespace) entry) :
    cppTypeName (buildCppNames file allFiles nsPrefix modelNamespace) fqn =
      spell (enumNamespace (buildCppNames file allFiles nsPrefix modelNamespace) entry.1 ::
        path) := by
  have written : (fqn, colons ++ enumNamespace (emptyTable nsPrefix modelNamespace) entry.1 ++
      spell path) ∈ (fileSet file allFiles).zipIdx.flatMap fun entry =>
        fileNames (claimsOf file allFiles nsPrefix modelNamespace) entry
          (emptyTable nsPrefix modelNamespace) :=
    List.mem_flatMap.mpr ⟨entry, listed, List.mem_map_of_mem inside⟩
  have keys : ((fileSet file allFiles).zipIdx.flatMap fun entry =>
      fileNames (claimsOf file allFiles nsPrefix modelNamespace) entry
        (emptyTable nsPrefix modelNamespace)).map Prod.fst =
      (fileSet file allFiles).flatMap fileFqns := by
    rw [List.map_flatMap]
    have each (entry : FileNode × Nat) :
        (fileNames (claimsOf file allFiles nsPrefix modelNamespace) entry
          (emptyTable nsPrefix modelNamespace)).map Prod.fst = fileFqns entry.1 := by
      rw [fileNames, List.map_map, ← map_fqn_fileTypes]
      rfl
    simp only [each]
    conv_rhs => rw [← List.zipIdx_map_fst 0 (fileSet file allFiles), List.flatMap_map]
  have found : (buildCppNames file allFiles nsPrefix modelNamespace).absolute fqn =
      some (colons ++ enumNamespace (emptyTable nsPrefix modelNamespace) entry.1 ++ spell path) := by
    rw [buildCppNames_eq]
    exact tryEmplaceAll_of_mem (keys ▸ unique) written rfl
  have space : enumNamespace (buildCppNames file allFiles nsPrefix modelNamespace) entry.1 =
      enumNamespace (emptyTable nsPrefix modelNamespace) entry.1 := by
    rw [buildCppNames_eq]
    rfl
  rw [cppTypeName, found, space, spell_cons]
  rfl

/-- The namespace of a file has neither spaces nor line breaks in it. -/
theorem enumNamespace_avoids {entry : FileNode} (lexed : LexedFile entry) {c : Byte}
    (sign : isLetterOrDigit c = false) (other : c ≠ byte '.') (other' : c ≠ byte ':')
    (given : c ∉ nsPrefix) :
    c ∉ enumNamespace (buildCppNames file allFiles nsPrefix modelNamespace) entry := by
  have space : enumNamespace (buildCppNames file allFiles nsPrefix modelNamespace) entry =
      enumNamespace (emptyTable nsPrefix modelNamespace) entry := by
    rw [buildCppNames_eq]
    rfl
  have differs {ch : Byte} (letter : isLetterOrDigit ch = true) : c ≠ ch := by
    rintro rfl
    rw [letter] at sign
    cases sign
  have underscore : c ≠ byte '_' := differs (by decide)
  have outer : c ∉ (emptyTable nsPrefix modelNamespace).nsPrefix := by
    rw [emptyTable]
    dsimp only
    split_ifs
    · apply avoids_namespaceOf underscore other'
      have letters : kDefaultNsPrefix.all isLetterOrDigit = true := by decide
      exact fun inside => differs (List.all_eq_true.mp letters c inside) rfl
    · exact given
  have common : c ∉ kCommonRoot := by
    have letters : kCommonRoot.all isLetterOrDigit = true := by decide
    exact fun inside => differs (List.all_eq_true.mp letters c inside) rfl
  have package : c ∉ entry.package := by
    intro inside
    rcases lexed.package c inside with letter | dot
    · exact differs letter rfl
    · exact other dot
  rw [space, enumNamespace]
  exact avoids_joinNs other' (avoids_joinNs other' outer common)
    (avoids_namespaceOf underscore other' package)

/-- The enums of a lexed file can be read. -/
theorem legible_fileMirror {entry : FileNode × Nat} (listed : entry ∈ (fileSet file allFiles).zipIdx)
    (lexed : LexedFile entry.1) :
    Legible (fileMirror (buildCppNames file allFiles nsPrefix modelNamespace) entry) := by
  intro item inside
  constructor
  · apply lexed.values
    rw [← map_fst_fileMirror (buildCppNames file allFiles nsPrefix modelNamespace)]
    exact List.mem_map_of_mem inside
  · exact HeaderState.kept_word.fileTypes listed lexed.names _
      (fileMirror_paths file allFiles nsPrefix modelNamespace listed inside)

/-- The common header of a file whose import paths have no line break declares the enums of the
file, nested ones included, each with all of its enumerators and under the name by which every other
header refers to it. -/
theorem common_header_enums {entry : FileNode × Nat}
    (listed : entry ∈ (fileSet file allFiles).zipIdx)
    (unique : ((fileSet file allFiles).flatMap fileFqns).Nodup) (lexed : LexedFile entry.1)
    (oneLine : ∀ import_ ∈ entry.1.imports, byte '\n' ∉ import_.path)
    (space : byte ' ' ∉ nsPrefix) (single : byte '\n' ∉ nsPrefix) {version : Text}
    (single' : byte '\n' ∉ version) :
    let names := buildCppNames file allFiles nsPrefix modelNamespace
    readHeader (emitCommonHeader version entry names) =
      (fileEnums entry.1).map fun node =>
        (cppTypeName names node.fqn, enumValueNames node ++ rangeSentinels node) := by
  intro names
  have noSpace : byte ' ' ∉ enumNamespace names entry.1 :=
    enumNamespace_avoids file allFiles nsPrefix modelNamespace lexed (by decide) (by decide)
      (by decide) space
  have noBreak : byte '\n' ∉ enumNamespace names entry.1 :=
    enumNamespace_avoids file allFiles nsPrefix modelNamespace lexed (by decide) (by decide)
      (by decide) single
  have legible := legible_fileMirror file allFiles nsPrefix modelNamespace listed lexed
  rw [readHeader_commonHeader legible noSpace noBreak oneLine single',
    ← map_fst_fileMirror names entry, List.map_map]
  apply List.map_congr_left
  intro item inside
  have named := cppTypeName_enum file allFiles nsPrefix modelNamespace unique listed
    (fileMirror_paths file allFiles nsPrefix modelNamespace listed inside)
  exact congrArg (·, _) named.symm

end Header

/-- An enum `Outer` inside a message `Outer`. -/
def sharedFile : FileNode where
  package := text "p"
  imports := [{ path := text "q.proto" }]
  messages := [
    { name := text "Outer"
      fqn := text ".p.Outer"
      enums := [
        { name := text "Outer"
          fqn := text ".p.Outer.Outer"
          values := [
            { name := text "OUTER_A", number := 0 },
            { name := text "OUTER_B", number := 1 }] }] }]

theorem common_header_enums_nested :
    let names := buildCppNames sharedFile [] [] kArenaRoot
    readHeader (emitCommonHeader (text "1.0") (sharedFile, 0) names) =
      (fileEnums sharedFile).map fun node =>
        (cppTypeName names node.fqn, enumValueNames node ++ rangeSentinels node) := by
  have set : fileSet sharedFile [] = [sharedFile] := rfl
  apply common_header_enums sharedFile [] [] kArenaRoot (by simp [set]) _ _ (by decide) (by simp)
    (by simp) (by decide)
  · have fqns : [sharedFile].flatMap fileFqns = [text ".p.Outer", text ".p.Outer.Outer"] := by
      simp [sharedFile, fileFqns, typeFqnsAll, typeFqns]
    rw [set, fqns]
    decide
  · have names : ∀ name ∈ fileTypeNames sharedFile, name = text "Outer" := by
      simp [sharedFile, fileTypeNames, typeNamesAll, typeNames]
    have enums : ∀ node ∈ fileEnums sharedFile, node.values.map EnumValueNode.name =
        [text "OUTER_A", text "OUTER_B"] := by
      simp [sharedFile, fileEnums, enumsInAll, enumsIn]
    constructor
    · intro name listed
      rw [names name listed]
      exact List.all_eq_true.mp (by decide : (text "Outer").all isLetterOrDigit = true)
    · intro node listed value inside
      have member : value.name ∈ [text "OUTER_A", text "OUTER_B"] :=
        enums node listed ▸ List.mem_map_of_mem inside
      have words : [text "OUTER_A", text "OUTER_B"].all (fun name =>
          name.all isLetterOrDigit && name != []) = true := by decide
      have both := List.all_eq_true.mp words _ member
      rw [Bool.and_eq_true, bne_iff_ne] at both
      exact ⟨List.all_eq_true.mp both.1, both.2⟩
    · intro c listed
      exact .inl (List.all_eq_true.mp (by decide : (text "p").all isLetterOrDigit = true) c listed)

end Codegen
end RapidProto
