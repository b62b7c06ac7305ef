import RapidProto.Codegen.PackageScope

/-!
# Absolute names

The identifiers that lead to a type from its package are its own among all types of the file set,
together with the namespaces of the package.  Spelled out below the roots they are therefore
different names for different types.
-/

namespace RapidProto
namespace Codegen

open Front

/-! ## The paths of a message -/

theorem mem_pathsOf {isEnum : Bool} {path fqns ids : List Text} {type : TypePath}
    (listed : type ∈ pathsOf isEnum path fqns ids) :
    ∃ id ∈ ids, type.path = path ++ [id] := by
  obtain ⟨⟨fqn, id⟩, pair, rfl⟩ := List.mem_map.mp listed
  exact ⟨id, (List.of_mem_zip pair).2, rfl⟩

theorem map_path_pathsOf {isEnum : Bool} {path fqns ids : List Text}
    (lengths : ids.length ≤ fqns.length) :
    (pathsOf isEnum path fqns ids).map TypePath.path = ids.map fun id => path ++ [id] := by
  rw [pathsOf, List.map_map]
  have seconds := congrArg (List.map fun id => path ++ [id]) (List.map_snd_zip lengths)
  rwa [List.map_map] at seconds

mutual

/-- The types of a message are below it. -/
theorem mem_typePaths {path : List Text} {own : Text} : {message : MessageNode} → {type : TypePath} →
    type ∈ typePaths path own message → ∃ id rest, type.path = path ++ id :: rest
  | ⟨_, _, _, _, _, _, nestedMessages, _, _, _, _, _⟩, type, listed => by
    rw [typePaths_eq, List.mem_append, List.mem_append] at listed
    rcases listed with (listed | listed) | listed
    · obtain ⟨id, -, same⟩ := mem_pathsOf listed
      exact ⟨id, [], same⟩
    · obtain ⟨id, -, same⟩ := mem_pathsOf listed
      exact ⟨id, [], same⟩
    · obtain ⟨id, -, id', rest, same⟩ := mem_typePathsAll listed
      exact ⟨id, id' :: rest, same⟩

theorem mem_typePathsAll {path ids : List Text} : {messages : List MessageNode} →
    {type : TypePath} → type ∈ typePathsAll path ids messages →
    ∃ id ∈ ids, ∃ id' rest, type.path = path ++ id :: id' :: rest
  | [], type, listed => by simp [typePathsAll] at listed
  | message :: messages, type, listed => by
    cases ids with
    | nil => simp [typePathsAll] at listed
    | cons id ids =>
        rw [typePathsAll, List.mem_append] at listed
        rcases listed with here | later
        · obtain ⟨id', rest, same⟩ := mem_typePaths here
          exact ⟨id, List.mem_cons_self, id', rest, by simp [same]⟩
        · obtain ⟨other, member, id', rest, same⟩ := mem_typePathsAll later
          exact ⟨other, List.mem_cons_of_mem _ member, id', rest, same⟩

end

/-- The types of one scope and those inside its messages have different paths. -/
theorem scope_paths_nodup {path enumIds messageIds : List Text} {enums messages : List Text}
    (distinct : (enumIds ++ messageIds).Nodup) (enumLengths : enumIds.length ≤ enums.length)
    (messageLengths : messageIds.length ≤ messages.length) {inside : List TypePath}
    (insideNodup : (inside.map TypePath.path).Nodup)
    (below : ∀ type ∈ inside, ∃ id id' rest, type.path = path ++ id :: id' :: rest) :
    ((pathsOf true path enums enumIds ++ pathsOf false path messages messageIds ++ inside).map
      TypePath.path).Nodup := by
  rw [List.map_append, List.map_append, map_path_pathsOf enumLengths,
    map_path_pathsOf messageLengths, ← List.map_append]
  apply List.Nodup.append _ insideNodup
  · intro found direct later
    obtain ⟨id, -, rfl⟩ := List.mem_map.mp direct
    obtain ⟨type, listed, same⟩ := List.mem_map.mp later
    obtain ⟨first, second, rest, shape⟩ := below type listed
    rw [shape, List.append_cancel_left_eq] at same
    cases same
  · apply distinct.map
    intro first second same
    simpa using same

theorem class_ids_nodup (own : Text) (message : MessageNode) :
    (enumIds own message ++ nestedIds own message).Nodup := by
  have whole := underscore.assign_nodup [own]
    ((message.enums.map EnumNode.name ++ message.nestedMessages.map MessageNode.name).map sanitize)
  have split := idsOf_append [own] (message.enums.map EnumNode.name)
    (message.nestedMessages.map MessageNode.name)
  rw [idsOf] at split
  rw [split] at whole
  exact whole

mutual

theorem typePaths_nodup (path : List Text) (own : Text) : (message : MessageNode) →
    ((typePaths path own message).map TypePath.path).Nodup
  | ⟨name, visibility, fields, mapFields, oneofs, enums, nestedMessages, reserved, ranges, blocks,
      options, fqn⟩ => by
    have distinct := class_ids_nodup own ⟨name, visibility, fields, mapFields, oneofs, enums,
      nestedMessages, reserved, ranges, blocks, options, fqn⟩
    rw [typePaths_eq]
    apply scope_paths_nodup distinct (by simp [enumIds]) (by simp [nestedIds])
    · exact typePathsAll_nodup path (List.Nodup.of_append_right distinct) nestedMessages
    · intro type listed
      obtain ⟨id, -, id', rest, same⟩ := mem_typePathsAll listed
      exact ⟨id, id', rest, same⟩

theorem typePathsAll_nodup (path : List Text) {ids : List Text} (distinct : ids.Nodup) :
    (messages : List MessageNode) → ((typePathsAll path ids messages).map TypePath.path).Nodup
  | [] => by simp [typePathsAll]
  | message :: messages => by
    cases ids with
    | nil => simp [typePathsAll]
    | cons id ids =>
        rw [List.nodup_cons] at distinct
        rw [typePathsAll, List.map_append]
        apply List.Nodup.append (typePaths_nodup _ id message)
          (typePathsAll_nodup path distinct.2 messages)
        intro found here later
        obtain ⟨type, listed, rfl⟩ := List.mem_map.mp here
        obtain ⟨other, listed', same⟩ := List.mem_map.mp later
        obtain ⟨id', rest, shape⟩ := mem_typePaths listed
        obtain ⟨id'', member, id''', rest', shape'⟩ := mem_typePathsAll listed'
        rw [shape, shape', List.append_assoc, List.append_cancel_left_eq,
          List.singleton_append, List.cons.injEq] at same
        exact distinct.1 (same.1 ▸ member)

end

/-! ## The paths of a file set -/

section Paths

variable (names : CppNameTable) (files : List FileNode)

/-- The identifiers of the top-level types of a file are what its claimants were granted. -/
theorem topIds_eq (claims : Claims) (entry : FileNode × Nat) :
    topEnumIds claims entry ++ topMessageIds claims entry =
      (claimantsOf names entry).map fun top => (claims.find top.node).getD [] := by
  have nodes (role : Role) {α : Type} (nodes : List α) :
      topIds claims entry.2 role 0 nodes.length =
        nodes.zipIdx.map fun node => (claims.find [(role, node.2), (.file, entry.2)]).getD [] := by
    rw [topIds, ← List.zipIdx_map_snd 0 nodes, List.map_map]
    rfl
  rw [topEnumIds, topMessageIds, nodes, nodes, claimantsOf, List.map_append, List.map_map,
    List.map_map]
  rfl

/-- No identifier is granted twice in one namespace. -/
theorem granted_nodup :
    ((claimants names files).map fun top =>
      (top.key, ((claimToplevelIds names files).find top.node).getD [])).Nodup := by
  apply ((claimToplevelIds_perm names files).map _).nodup_iff.mp
  rw [List.map_map]
  apply List.pairwise_map.mpr
  apply (claimToplevelIds_sound names files).distinct.imp_of_mem
  intro first second listed listed' apart same
  have found := (find_eq_some names files).mpr ⟨_, rfl, listed⟩
  have found' := (find_eq_some names files).mpr ⟨_, rfl, listed'⟩
  simp only [Function.comp_apply, found, found', Option.getD_some, Prod.mk.injEq] at same
  exact apart same.1 same.2

/-- An identifier that is granted is no namespace of a package. -/
theorem granted_outside (named : names.nsPrefix ≠ []) {top : Claimant}
    (listed : top ∈ claimants names files) {file : FileNode} (member : file ∈ files) :
    ¬ Opens names file.package top.key (((claimToplevelIds names files).find top.node).getD []) := by
  obtain ⟨id, found, granted⟩ := exists_find names files listed
  rw [found, Option.getD_some]
  intro opened
  exact (claimToplevelIds_sound names files).outside _ granted
    ((mem_componentsTaken named files _ _).mpr ⟨file, member, opened⟩)

variable {names files}

variable (names) in
/-- The types of one file have different paths. -/
theorem fileTypes_nodup {entry : FileNode × Nat} (listed : entry ∈ files.zipIdx) :
    ((fileTypes (claimToplevelIds names files) entry).map TypePath.path).Nodup := by
  have distinct : (topEnumIds (claimToplevelIds names files) entry ++
      topMessageIds (claimToplevelIds names files) entry).Nodup := by
    rw [topIds_eq names]
    have whole := granted_nodup names files
    rw [claimants, List.map_flatMap, List.nodup_flatMap] at whole
    have own := whole.1 entry listed
    have key : ∀ top ∈ claimantsOf names entry,
        top.key = joinNs names.nsPrefix (namespaceOf entry.1.package) := by
      intro top inside
      rcases List.mem_append.mp inside with inside | inside <;>
      · obtain ⟨_, -, rfl⟩ := List.mem_map.mp inside
        rfl
    apply List.pairwise_map.mpr
    apply (List.pairwise_map.mp own).imp_of_mem
    intro first second here there apart same
    exact apart (Prod.ext ((key first here).trans (key second there).symm) same)
  rw [fileTypes]
  apply scope_paths_nodup distinct (by simp [topEnumIds]) (by simp [topMessageIds])
  · exact typePathsAll_nodup [] (List.Nodup.of_append_right distinct) entry.1.messages
  · intro type inside
    obtain ⟨id, -, id', rest, same⟩ := mem_typePathsAll inside
    exact ⟨id, id', rest, same⟩

variable (names) in
/-- The path of a type of a file starts with a top-level identifier. -/
theorem mem_fileTypes {claims : Claims} {entry : FileNode × Nat} {type : TypePath}
    (listed : type ∈ fileTypes claims entry) :
    ∃ top ∈ claimantsOf names entry, ∃ rest,
      type.path = (claims.find top.node).getD [] :: rest := by
  have first : ∃ id ∈ topEnumIds claims entry ++ topMessageIds claims entry, ∃ rest,
      type.path = id :: rest := by
    rw [fileTypes, List.mem_append, List.mem_append] at listed
    rcases listed with (listed | listed) | listed
    · obtain ⟨id, member, same⟩ := mem_pathsOf listed
      exact ⟨id, List.mem_append_left _ member, [], same⟩
    · obtain ⟨id, member, same⟩ := mem_pathsOf listed
      exact ⟨id, List.mem_append_right _ member, [], same⟩
    · obtain ⟨id, member, id', rest, same⟩ := mem_typePathsAll listed
      exact ⟨id, List.mem_append_right _ member, id' :: rest, same⟩
  obtain ⟨id, member, rest, same⟩ := first
  rw [topIds_eq names] at member
  obtain ⟨top, inside, rfl⟩ := List.mem_map.mp member
  exact ⟨top, inside, rest, same⟩

/-- A longer namespace that goes on with an identifier opens it. -/
theorem opens_of_scopes {package outer : Text} {id : Text} {rest : List Text}
    (named : names.nsPrefix ≠ []) (longer : scopes package = scopes outer ++ id :: rest) :
    Opens names package (joinNs names.nsPrefix (namespaceOf outer)) id := by
  obtain ⟨before, behind, split, front, back⟩ := List.map_eq_append_iff.mp longer
  obtain ⟨component, behind, rfl, head, -⟩ := List.map_eq_cons_iff.mp back
  exact ⟨before, component, behind, split, by rw [joinNs_namespaceOf named, front], head.symm⟩

/-- The types of a file set, with the namespaces of their packages and their paths. -/
def typesOf (claims : Claims) (files : List FileNode) : List (TypePath × List Text) :=
  files.zipIdx.flatMap fun entry =>
    (fileTypes claims entry).map fun type => (type, scopes entry.1.package ++ type.path)

/-- Types of the file set are told apart by their namespaces and paths.  Of two files with types of
the same qualified name, the namespaces of one go on where those of the other end, or both end
together. -/
theorem typesOf_nodup (named : names.nsPrefix ≠ []) :
    ((typesOf (claimToplevelIds names files) files).map Prod.snd).Nodup := by
  rw [typesOf, List.map_flatMap, List.nodup_flatMap]
  constructor
  · intro entry listed
    rw [List.map_map]
    have paths := (fileTypes_nodup names listed).map
      (List.append_right_injective (scopes entry.1.package))
    rwa [List.map_map] at paths
  · have key {entry : FileNode × Nat} {top : Claimant} (inside : top ∈ claimantsOf names entry) :
        top.key = joinNs names.nsPrefix (namespaceOf entry.1.package) ∧
          top.node.getLast? = some (.file, entry.2) := by
      rcases List.mem_append.mp inside with inside | inside <;>
      · obtain ⟨_, -, rfl⟩ := List.mem_map.mp inside
        exact ⟨rfl, rfl⟩
    have file {entry : FileNode × Nat} (listed : entry ∈ files.zipIdx) : entry.1 ∈ files :=
      List.mem_of_getElem? (List.mem_zipIdx_iff_getElem?.mp listed)
    have claimant {entry : FileNode × Nat} {top : Claimant} (listed : entry ∈ files.zipIdx)
        (inside : top ∈ claimantsOf names entry) : top ∈ claimants names files :=
      List.mem_flatMap.mpr ⟨entry, listed, inside⟩
    let granted (top : Claimant) : Text :=
      ((claimToplevelIds names files).find top.node).getD []
    have clash {first second : FileNode × Nat} (listed : first ∈ files.zipIdx)
        (listed' : second ∈ files.zipIdx) (other : first.2 ≠ second.2) {top top' : Claimant}
        (member : top ∈ claimantsOf names first) (member' : top' ∈ claimantsOf names second)
        {gap rest rest' : List Text} (longer : scopes second.1.package = scopes first.1.package ++ gap)
        (tail : granted top :: rest = gap ++ granted top' :: rest') : False := by
      cases gap with
      | nil =>
          rw [List.append_nil] at longer
          have keys : top.key = top'.key := by
            rw [(key member).1, (key member').1, joinNs_namespaceOf named, joinNs_namespaceOf named,
              longer]
          have tops := List.inj_on_of_nodup_map (granted_nodup names files)
            (claimant listed member) (claimant listed' member')
            (Prod.ext keys (List.cons.inj tail).1)
          have last := (key member).2.symm.trans (tops ▸ (key member').2)
          simp only [Option.some.injEq, Prod.mk.injEq, true_and] at last
          exact other last
      | cons id gap =>
          apply granted_outside names files named (claimant listed member) (file listed')
          rw [(key member).1]
          apply @opens_of_scopes _ _ _ _ gap named
          rw [longer]
          exact congrArg (fun head => _ ++ head :: gap) (List.cons.inj tail).1.symm
    apply (List.pairwise_map.mp (List.nodup_zipIdx_map_snd files)).imp_of_mem
    intro first second listed listed' other path here there
    simp only [List.map_map] at here there
    obtain ⟨type, inside, rfl⟩ := List.mem_map.mp here
    obtain ⟨type', inside', same⟩ := List.mem_map.mp there
    obtain ⟨top, member, rest, shape⟩ := mem_fileTypes names inside
    obtain ⟨top', member', rest', shape'⟩ := mem_fileTypes names inside'
    simp only [Function.comp_apply, shape, shape'] at same
    rcases List.append_eq_append_iff.mp same with ⟨gap, longer, tail⟩ | ⟨gap, longer, tail⟩
    · exact clash listed' listed (Ne.symm other) member' member longer tail
    · exact clash listed listed' other member member' longer tail

end Paths

/-! ## Declared types -/

mutual

/-- The qualified proto names of the types declared in a message. -/
def typeFqns : MessageNode → List Text
  | ⟨_, _, _, _, _, enums, nestedMessages, _, _, _, _, _⟩ =>
    enums.map EnumNode.fqn ++ nestedMessages.map MessageNode.fqn ++ typeFqnsAll nestedMessages

/-- The same for the messages of a list. -/
def typeFqnsAll : List MessageNode → List Text
  | [] => []
  | message :: messages => typeFqns message ++ typeFqnsAll messages

end

mutual

/-- The proto names of the types declared in a message. -/
def typeNames : MessageNode → List Text
  | ⟨_, _, _, _, _, enums, nestedMessages, _, _, _, _, _⟩ =>
    enums.map EnumNode.name ++ nestedMessages.map MessageNode.name ++ typeNamesAll nestedMessages

/-- The same for the messages of a list. -/
def typeNamesAll : List MessageNode → List Text
  | [] => []
  | message :: messages => typeNames message ++ typeNamesAll messages

end

/-- The qualified proto names of the types of a file. -/
def fileFqns (file : FileNode) : List Text :=
  file.enums.map EnumNode.fqn ++ file.messages.map MessageNode.fqn ++ typeFqnsAll file.messages

/-- The proto names of the types of a file. -/
def fileTypeNames (file : FileNode) : List Text :=
  file.enums.map EnumNode.name ++ file.messages.map MessageNode.name ++ typeNamesAll file.messages

/-- Names as the lexer makes them: there is no colon in the package or in a type name. -/
structure PlainFile (file : FileNode) : Prop where
  package : Plain file.package
  names : ∀ name ∈ fileTypeNames file, Plain name

theorem map_fqn_pathsOf {isEnum : Bool} {path fqns ids : List Text}
    (lengths : fqns.length ≤ ids.length) :
    (pathsOf isEnum path fqns ids).map TypePath.fqn = fqns := by
  rw [pathsOf, List.map_map]
  exact List.map_fst_zip lengths

mutual

theorem map_fqn_typePaths (path : List Text) (own : Text) : (message : MessageNode) →
    (typePaths path own message).map TypePath.fqn = typeFqns message
  | ⟨name, visibility, fields, mapFields, oneofs, enums, nestedMessages, reserved, ranges, blocks,
      options, fqn⟩ => by
    have lengths := length_nestedIds own ⟨name, visibility, fields, mapFields, oneofs, enums,
      nestedMessages, reserved, ranges, blocks, options, fqn⟩
    rw [typePaths_eq, typeFqns, List.map_append, List.map_append,
      map_fqn_pathsOf (by simp [enumIds]), map_fqn_pathsOf (by simp [nestedIds]),
      map_fqn_typePathsAll path nestedMessages lengths]

theorem map_fqn_typePathsAll (path : List Text) {ids : List Text} : (messages : List MessageNode) →
    ids.length = messages.length →
    (typePathsAll path ids messages).map TypePath.fqn = typeFqnsAll messages
  | [], lengths => by simp [typePathsAll, typeFqnsAll]
  | message :: messages, lengths => by
    cases ids with
    | nil => cases lengths
    | cons id ids =>
        rw [typePathsAll, typeFqnsAll, List.map_append, map_fqn_typePaths,
          map_fqn_typePathsAll path messages (by simpa using lengths)]

end

theorem map_fqn_fileTypes (claims : Claims) (entry : FileNode × Nat) :
    (fileTypes claims entry).map TypePath.fqn = fileFqns entry.1 := by
  rw [fileTypes, fileFqns, List.map_append, List.map_append,
    map_fqn_pathsOf (by simp [topEnumIds]), map_fqn_pathsOf (by simp [topMessageIds]),
    map_fqn_typePathsAll [] _ (by simp [topMessageIds])]

/-! ## What the identifiers keep -/

section Kept

variable {P : Text → Prop}

theorem Kept.idsOf (kept : Kept P) {taken names : List Text} (holds : ∀ name ∈ names, P name) :
    ∀ id ∈ idsOf taken names, P id := by
  intro id listed
  obtain ⟨name, wanted, turns, rfl⟩ := underscore.exists_of_mem_assign listed
  obtain ⟨raw, member, rfl⟩ := List.mem_map.mp wanted
  exact kept.iterate (kept.sanitize (holds raw member)) turns

theorem forall_mem_snoc {path : List Text} {id : Text} (holds : ∀ segment ∈ path, P segment)
    (last : P id) : ∀ segment ∈ path ++ [id], P segment := by
  intro segment listed
  rcases List.mem_append.mp listed with before | here
  · exact holds segment before
  · rwa [List.mem_singleton.mp here]

theorem forall_mem_pathsOf {isEnum : Bool} {path fqns ids : List Text}
    (holds : ∀ segment ∈ path, P segment) (holdsIds : ∀ id ∈ ids, P id) :
    ∀ type ∈ pathsOf isEnum path fqns ids, ∀ segment ∈ type.path, P segment := by
  intro type listed
  obtain ⟨id, member, same⟩ := mem_pathsOf listed
  rw [same]
  exact forall_mem_snoc holds (holdsIds id member)

mutual

theorem Kept.typePaths (kept : Kept P) {path : List Text} {own : Text}
    (holds : ∀ segment ∈ path, P segment) :
    (message : MessageNode) → (∀ name ∈ typeNames message, P name) →
    ∀ type ∈ typePaths path own message, ∀ segment ∈ type.path, P segment
  | ⟨name, visibility, fields, mapFields, oneofs, enums, nestedMessages, reserved, ranges, blocks,
      options, fqn⟩, names, type, listed => by
    rw [typeNames] at names
    have nested : ∀ id ∈ nestedIds own ⟨name, visibility, fields, mapFields, oneofs, enums,
        nestedMessages, reserved, ranges, blocks, options, fqn⟩, P id :=
      kept.idsOf fun name member => names name (by simp [member])
    rw [typePaths_eq, List.mem_append, List.mem_append] at listed
    rcases listed with (listed | listed) | listed
    · exact forall_mem_pathsOf holds (kept.idsOf fun name member => names name (by simp [member]))
        type listed
    · exact forall_mem_pathsOf holds nested type listed
    · exact kept.typePathsAll holds nested nestedMessages
        (fun name member => names name (by simp [member])) type listed

theorem Kept.typePathsAll (kept : Kept P) {path ids : List Text}
    (holds : ∀ segment ∈ path, P segment) (holdsIds : ∀ id ∈ ids, P id) :
    (messages : List MessageNode) → (∀ name ∈ typeNamesAll messages, P name) →
    ∀ type ∈ typePathsAll path ids messages, ∀ segment ∈ type.path, P segment
  | [], _, type, listed => by simp [Codegen.typePathsAll] at listed
  | message :: messages, names, type, listed => by
    cases ids with
    | nil => simp [Codegen.typePathsAll] at listed
    | cons id ids =>
        rw [typeNamesAll] at names
        rw [Codegen.typePathsAll, List.mem_append] at listed
        rcases listed with here | later
        · exact kept.typePaths (forall_mem_snoc holds (holdsIds id List.mem_cons_self)) message
            (fun name member => names name (List.mem_append_left _ member)) type here
        · exact kept.typePathsAll holds
            (fun other member => holdsIds other (List.mem_cons_of_mem _ member)) messages
            (fun name member => names name (List.mem_append_right _ member)) type later

end

/-- What holds of the type names of a file holds of the identifiers in its paths. -/
theorem Kept.fileTypes (kept : Kept P) {names : CppNameTable} {files : List FileNode}
    {entry : FileNode × Nat} (listed : entry ∈ files.zipIdx)
    (holds : ∀ name ∈ fileTypeNames entry.1, P name) :
    ∀ type ∈ fileTypes (claimToplevelIds names files) entry, ∀ segment ∈ type.path, P segment := by
  have granted : ∀ id ∈ topEnumIds (claimToplevelIds names files) entry ++
      topMessageIds (claimToplevelIds names files) entry, P id := by
    intro id member
    rw [topIds_eq names] at member
    obtain ⟨top, inside, rfl⟩ := List.mem_map.mp member
    obtain ⟨id, found, granted⟩ := exists_find names files
      (List.mem_flatMap.mpr ⟨entry, listed, inside⟩)
    obtain ⟨turns, reached⟩ := (claimToplevelIds_sound names files).reached _ granted
    rw [found, Option.getD_some, show id = _ from reached]
    apply kept.iterate (kept.sanitize (holds _ _))
    rw [fileTypeNames, List.mem_append, List.mem_append]
    rcases List.mem_append.mp inside with inside | inside
    · obtain ⟨⟨node, i⟩, position, rfl⟩ := List.mem_map.mp inside
      exact .inl (.inl (List.mem_map_of_mem
        (List.mem_of_getElem? (List.mem_zipIdx_iff_getElem?.mp position))))
    · obtain ⟨⟨node, i⟩, position, rfl⟩ := List.mem_map.mp inside
      exact .inl (.inr (List.mem_map_of_mem
        (List.mem_of_getElem? (List.mem_zipIdx_iff_getElem?.mp position))))
  intro type inside
  rw [Codegen.fileTypes, List.mem_append, List.mem_append] at inside
  rcases inside with (inside | inside) | inside
  · exact forall_mem_pathsOf (by simp)
      (fun id member => granted id (List.mem_append_left _ member)) type inside
  · exact forall_mem_pathsOf (by simp)
      (fun id member => granted id (List.mem_append_right _ member)) type inside
  · exact kept.typePathsAll (by simp)
      (fun id member => granted id (List.mem_append_right _ member)) entry.1.messages
      (fun name member => holds name (List.mem_append_right _ member)) type inside

end Kept

/-! ## Absolute names -/

section Absolute

variable (file : FileNode) (allFiles : List FileNode) (nsPrefix modelNamespace : Text)

/-- What is found under a name was written for a type of that name. -/
theorem absolute_eq_some {fqn name : Text}
    (found : (buildCppNames file allFiles nsPrefix modelNamespace).absolute fqn = some name) :
    ∃ entry ∈ (fileSet file allFiles).zipIdx,
      ∃ type ∈ fileTypes (claimsOf file allFiles nsPrefix modelNamespace) entry,
        type.fqn = fqn ∧ name = (type.entry
          (colons ++ messageNamespace (emptyTable nsPrefix modelNamespace) entry.1)
          (colons ++ enumNamespace (emptyTable nsPrefix modelNamespace) entry.1)).2 := by
  rw [buildCppNames_eq] at found
  rcases of_tryEmplaceAll found with before | written
  · cases before
  · obtain ⟨entry, listed, inside⟩ := List.mem_flatMap.mp written
    obtain ⟨type, member, same⟩ := List.mem_map.mp inside
    obtain ⟨rfl, rfl⟩ := Prod.mk.inj same
    exact ⟨entry, listed, type, member, rfl, rfl⟩

/-- Every declared type has an absolute name. -/
theorem absolute_isSome {fqn : Text}
    (declared : fqn ∈ (fileSet file allFiles).flatMap fileFqns) :
    ((buildCppNames file allFiles nsPrefix modelNamespace).absolute fqn).isSome := by
  obtain ⟨holder, member, inside⟩ := List.mem_flatMap.mp declared
  obtain ⟨i, position⟩ := List.mem_iff_getElem?.mp member
  rw [buildCppNames_eq]
  apply tryEmplaceAll_isSome
  rw [List.map_flatMap, List.mem_flatMap]
  refine ⟨(holder, i), List.mem_zipIdx_iff_getElem?.mpr position, ?_⟩
  rw [fileNames, List.map_map]
  rw [← map_fqn_fileTypes (claimsOf file allFiles nsPrefix modelNamespace) (holder, i)] at inside
  exact inside

/-- The root of a type. -/
def TypePath.root (type : TypePath) (names : CppNameTable) : Text :=
  if type.isEnum then kCommonRoot else names.modelNamespace

/-- A type is spelled by its root, the namespaces of its package and its path. -/
theorem entry_eq {names : CppNameTable} (named : names.nsPrefix ≠ [])
    (model : names.modelNamespace ≠ []) (entry : FileNode × Nat) (type : TypePath) :
    (type.entry (colons ++ messageNamespace names entry.1)
        (colons ++ enumNamespace names entry.1)).2 =
      colons ++ names.nsPrefix ++
        spell (type.root names :: (scopes entry.1.package ++ type.path)) := by
  have joined (root : Text) (given : root ≠ []) :
      joinNs (joinNs names.nsPrefix root) (namespaceOf entry.1.package) =
        names.nsPrefix ++ colons ++ root ++ spell (scopes entry.1.package) := by
    have outer : joinNs names.nsPrefix root = names.nsPrefix ++ colons ++ root := by
      rw [joinNs, if_neg named, if_neg given]
    rw [outer, joinNs_namespaceOf (by simp [named])]
  have common : kCommonRoot ≠ [] := by decide
  cases kind : type.isEnum <;>
    simp [TypePath.entry, TypePath.root, kind, messageNamespace, enumNamespace, joined _ model,
      joined _ common]

/-- Distinct types of a file set have distinct absolute names, messages and enums alike. -/
theorem absolute_distinct (plain : ∀ holder ∈ fileSet file allFiles, PlainFile holder)
    (model : modelNamespace = kArenaRoot ∨ modelNamespace = kStreamRoot) {fqn fqn' : Text}
    (declared : fqn ∈ (fileSet file allFiles).flatMap fileFqns)
    (declared' : fqn' ∈ (fileSet file allFiles).flatMap fileFqns)
    (distinct : fqn ≠ fqn') :
    cppTypeName (buildCppNames file allFiles nsPrefix modelNamespace) fqn ≠
      cppTypeName (buildCppNames file allFiles nsPrefix modelNamespace) fqn' := by
  intro same
  apply distinct
  have named := emptyTable_nsPrefix_ne_nil nsPrefix modelNamespace
  have given : modelNamespace ≠ [] := by rcases model with rfl | rfl <;> decide
  have plainRoot (type : TypePath) : Plain (type.root (emptyTable nsPrefix modelNamespace)) := by
    rw [TypePath.root]
    split_ifs
    · show byte ':' ∉ kCommonRoot
      decide
    · show byte ':' ∉ modelNamespace
      rcases model with rfl | rfl <;> decide
  obtain ⟨name, found⟩ := Option.isSome_iff_exists.mp
    (absolute_isSome file allFiles nsPrefix modelNamespace declared)
  obtain ⟨name', found'⟩ := Option.isSome_iff_exists.mp
    (absolute_isSome file allFiles nsPrefix modelNamespace declared')
  rw [cppTypeName, cppTypeName, found, found', Option.getD_some, Option.getD_some] at same
  subst same
  obtain ⟨entry, listed, type, member, rfl, spelled⟩ :=
    absolute_eq_some file allFiles nsPrefix modelNamespace found
  obtain ⟨entry', listed', type', member', rfl, spelled'⟩ :=
    absolute_eq_some file allFiles nsPrefix modelNamespace found'
  have plainEntry {entry : FileNode × Nat} (listed : entry ∈ (fileSet file allFiles).zipIdx) :
      PlainFile entry.1 :=
    plain _ (List.mem_of_getElem? (List.mem_zipIdx_iff_getElem?.mp listed))
  have segments {entry : FileNode × Nat} (listed : entry ∈ (fileSet file allFiles).zipIdx)
      {type : TypePath}
      (member : type ∈ fileTypes (claimsOf file allFiles nsPrefix modelNamespace) entry) :
      ∀ segment ∈ type.root (emptyTable nsPrefix modelNamespace) ::
        (scopes entry.1.package ++ type.path), Plain segment := by
    intro segment inside
    rcases List.mem_cons.mp inside with rfl | inside
    · exact plainRoot type
    · rcases List.mem_append.mp inside with inside | inside
      · exact avoids_scopes (by decide) (plainEntry listed).package segment inside
      · exact kept_plain.fileTypes listed (plainEntry listed).names type member segment inside
  rw [spelled, entry_eq named given, entry_eq named given, List.append_cancel_left_eq] at spelled'
  have path := (List.cons.inj (spell_injective (segments listed member) (segments listed' member')
    spelled')).2
  have typed {entry : FileNode × Nat} (listed : entry ∈ (fileSet file allFiles).zipIdx)
      {type : TypePath}
      (member : type ∈ fileTypes (claimsOf file allFiles nsPrefix modelNamespace) entry) :
      (type, scopes entry.1.package ++ type.path) ∈
        typesOf (claimsOf file allFiles nsPrefix modelNamespace) (fileSet file allFiles) :=
    List.mem_flatMap.mpr ⟨entry, listed, List.mem_map_of_mem member⟩
  have equal := List.inj_on_of_nodup_map (typesOf_nodup named) (typed listed member)
    (typed listed' member') path
  rw [(Prod.mk.inj equal).1]

end Absolute

/-- A message `Outer` with a message and an enum of that name inside, and one that is escaped. -/
def outerFile : FileNode where
  package := text "p"
  messages := [
    { name := text "Outer"
      fqn := text ".p.Outer"
      fields := [{ name := text "decode", typeName := text "int32" }]
      nestedMessages := [{ name := text "Outer", fqn := text ".p.Outer.Outer" }]
      enums := [{ name := text "decode_", fqn := text ".p.Outer.decode_" }] }]

theorem absolute_distinct_outer :
    cppTypeName (buildCppNames outerFile [] [] kArenaRoot) (text ".p.Outer.Outer") ≠
      cppTypeName (buildCppNames outerFile [] [] kArenaRoot) (text ".p.Outer.decode_") := by
  apply absolute_distinct outerFile [] [] kArenaRoot _ (.inl rfl)
  · simp [fileSet, outerFile, fileFqns, typeFqnsAll, typeFqns]
  · simp [fileSet, outerFile, fileFqns, typeFqnsAll, typeFqns]
  · decide
  · intro holder listed
    obtain rfl : holder = outerFile := by simpa [fileSet] using listed
    constructor
    · show byte ':' ∉ text "p"
      decide
    · intro name member
      have names : name ∈ [text "Outer", text "decode_"] := by
        simp only [fileTypeNames, outerFile, typeNamesAll, typeNames, List.map_nil, List.map_cons,
          List.nil_append, List.append_nil, List.mem_append, List.mem_cons, List.not_mem_nil,
          or_false] at member ⊢
        tauto
      have plain : ∀ name ∈ [text "Outer", text "decode_"], byte ':' ∉ name := by decide
      exact plain name names

end Codegen
end RapidProto
