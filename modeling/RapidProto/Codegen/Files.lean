import RapidProto.Codegen.Claims

/-!
# The table of a file set

`build_cpp_names` writes, file by file, the identifiers that the top-level types were granted and
what their messages write.
-/

namespace RapidProto
namespace Codegen

open Front

section TopLevel

variable (claims : Claims) (file : Nat)

/-- The identifiers granted to the top-level types of one role. -/
def topIds (role : Role) (first count : Nat) : List Text :=
  (List.range' first count).map fun i => (claims.find [(role, i), (.file, file)]).getD []

@[simp] theorem length_topIds (role : Role) (first count : Nat) :
    (topIds claims file role first count).length = count := by
  simp [topIds]

theorem topIds_succ {role : Role} {first : Nat} {id : Text}
    (granted : claims.find [(role, first), (.file, file)] = some id) (count : Nat) :
    topIds claims file role first (count + 1) = id :: topIds claims file role (first + 1) count := by
  simp [topIds, List.range'_succ, granted]

/-- The top-level types of one role have been granted identifiers. -/
def Granted (role : Role) (first count : Nat) : Prop :=
  ∀ i, first ≤ i → i < first + count → (claims.find [(role, i), (.file, file)]).isSome

variable {claims file}

theorem Granted.next {role : Role} {first count : Nat}
    (granted : Granted claims file role first (count + 1)) :
    (∃ id, claims.find [(role, first), (.file, file)] = some id) ∧
      Granted claims file role (first + 1) count :=
  ⟨Option.isSome_iff_exists.mp (granted first (le_refl _) (by omega)),
    fun i lower upper => granted i (by omega) (by omega)⟩

/-- A top-level type keeps what it was granted. -/
theorem assignToplevelId_eq {scope : Scope} {node : NodeRef} {id : Text}
    (granted : claims.find node = some id) (new : scope.names.locals node = none) (raw : Text) :
    scope.assignToplevelId claims node raw =
      (⟨scope.names.write [(node, id)] [] [], scope.taken⟩, id) := by
  simp only [Scope.assignToplevelId, granted, CppNameTable.at, tryEmplace_of_none new]
  rfl

/-- A write to one node leaves the later ones of its role new. -/
theorem ahead_write {scope : Scope} {role : Role} {holder : NodeRef} {first : Nat}
    (ahead : scope.Ahead role holder first) (id : Text) (types spaces : List (Text × Text)) :
    (Scope.mk (scope.names.write [((role, first) :: holder, id)] types spaces)
      scope.taken).Ahead role holder (first + 1) := by
  intro i later
  have other : (role, i) :: holder ≠ (role, first) :: holder := by
    simp only [ne_eq, List.cons.injEq, Prod.mk.injEq, true_and, and_true]
    omega
  exact (tryEmplace_of_ne other _).trans (ahead i (by omega))

theorem foldl_indexTopEnum (enumRoot : Text) (scope : Scope) (first : Nat) (enums : List EnumNode)
    (ahead : scope.Ahead .enum [(.file, file)] first)
    (granted : Granted claims file .enum first enums.length) :
    (enums.zipIdx first).foldl (Scope.indexTopEnum claims file enumRoot) scope =
      let ids := topIds claims file .enum first enums.length
      ⟨scope.names.write
        (((nodesOf .enum [(.file, file)] first (enums.map EnumNode.name)).map Prod.fst).zip ids)
        (Scope.below enumRoot (enums.map EnumNode.fqn) ids) [], scope.taken⟩ := by
  induction enums generalizing scope first with
  | nil => rfl
  | cons node enums ih =>
      obtain ⟨⟨id, here⟩, later⟩ := granted.next
      have step : scope.indexTopEnum claims file enumRoot (node, first) =
          ⟨scope.names.write [((.enum, first) :: [(.file, file)], id)]
            (Scope.below enumRoot [node.fqn] [id]) [], scope.taken⟩ := by
        rw [Scope.indexTopEnum, assignToplevelId_eq here (ahead first (le_refl _))]
        rfl
      rw [List.zipIdx_cons, List.foldl_cons, step,
        ih _ (first + 1) (ahead_write ahead id _ _) later, List.length_cons,
        topIds_succ claims file here]
      simp [nodesOf, Scope.below]

theorem foldl_indexTopMessage (msgNs : Text) (scope : Scope) (tops : List Text) (first : Nat)
    (messages : List MessageNode) (ahead : scope.Ahead .message [(.file, file)] first)
    (granted : Granted claims file .message first messages.length) :
    (messages.zipIdx first).foldl (Scope.indexTopMessage claims file msgNs) (scope, tops) =
      let ids := topIds claims file .message first messages.length
      (⟨scope.names.write
        (((nodesOf .message [(.file, file)] first (messages.map MessageNode.name)).map
          Prod.fst).zip ids)
        (Scope.below (colons ++ msgNs) (messages.map MessageNode.fqn) ids)
        (messages.map fun message => (message.fqn, msgNs)), scope.taken⟩,
      tops ++ ids.map fun id => colons ++ msgNs ++ colons ++ id) := by
  induction messages generalizing scope tops first with
  | nil => simp [nodesOf, Scope.below, topIds]
  | cons message messages ih =>
      obtain ⟨⟨id, here⟩, later⟩ := granted.next
      have step : Scope.indexTopMessage claims file msgNs (scope, tops) (message, first) =
          (⟨scope.names.write [((.message, first) :: [(.file, file)], id)]
            (Scope.below (colons ++ msgNs) [message.fqn] [id]) [(message.fqn, msgNs)],
            scope.taken⟩, tops ++ [colons ++ msgNs ++ colons ++ id]) := by
        rw [Scope.indexTopMessage, assignToplevelId_eq here (ahead first (le_refl _))]
        rfl
      rw [List.zipIdx_cons, List.foldl_cons, step,
        ih _ _ (first + 1) (ahead_write ahead id _ _) later, List.length_cons,
        topIds_succ claims file here]
      simp [nodesOf, Scope.below]

/-- The loop over the top-level messages. -/
theorem foldl_indexTop (enumRoot msgNs : Text) {names : CppNameTable} {first : Nat}
    {ids : List Text}
    (named : ∀ i id, ids[i]? = some id →
      names.locals [(.message, first + i), (.file, file)] = some id)
    (fresh : ∀ i, first ≤ i → New names [(.message, i), (.file, file)])
    (messages : List MessageNode) (lengths : ids.length = messages.length) :
    ((messages.zipIdx first).zip (ids.map fun id => colons ++ msgNs ++ colons ++ id)).foldl
        (indexTop file enumRoot msgNs) names =
      names.write (localLogAll [(.file, file)] first ids messages)
        ((typePathsAll [] ids messages).map (TypePath.entry (colons ++ msgNs) enumRoot))
        ((nestedFqnsAll messages).map fun fqn => (fqn, msgNs)) := by
  induction messages generalizing names first ids with
  | nil =>
      obtain rfl := List.length_eq_zero_iff.mp lengths
      simp [localLogAll, typePathsAll, nestedFqnsAll]
  | cons message messages ih =>
      cases ids with
      | nil => cases lengths
      | cons id ids =>
          have here : names.locals [(.message, first), (.file, file)] = some id := named 0 id rfl
          have step : indexTop file enumRoot msgNs names
              ((message, first), colons ++ msgNs ++ colons ++ id) =
              names.write (localLog [(.message, first), (.file, file)] id message)
                ((typePaths [id] id message).map (TypePath.entry (colons ++ msgNs) enumRoot))
                ((nestedFqns message).map fun fqn => (fqn, msgNs)) := by
            rw [← indexMessage_eq (colons ++ msgNs) enumRoot msgNs here (fresh first (le_refl _))]
            simp [indexTop, CppNameTable.at, here]
          rw [List.zipIdx_cons, List.map_cons, List.zip_cons_cons, List.foldl_cons, step, ih]
          · simp only [CppNameTable.write_write, localLogAll, typePathsAll, nestedFqnsAll,
              List.map_append, List.nil_append]
          · intro i id' given
            have before := named (i + 1) id' (by simpa using given)
            rw [show first + (i + 1) = first + 1 + i by omega] at before
            exact tryEmplaceAll_of_some before _
          · intro i later
            exact (fresh i (by omega)).write_other (by omega) id message _ _
          · simpa using lengths

end TopLevel

/-! ## What a file writes -/

section FileLog

variable (claims : Claims) (entry : FileNode × Nat)

/-- The identifiers of the top-level enums of a file. -/
def topEnumIds : List Text := topIds claims entry.2 .enum 0 entry.1.enums.length

/-- The identifiers of the top-level messages of a file. -/
def topMessageIds : List Text := topIds claims entry.2 .message 0 entry.1.messages.length

/-- The identifiers of the nodes of a file. -/
def fileLog : List (NodeRef × Text) :=
  ((nodesOf .enum [(.file, entry.2)] 0 (entry.1.enums.map EnumNode.name)).map Prod.fst).zip
      (topEnumIds claims entry) ++
    ((nodesOf .message [(.file, entry.2)] 0 (entry.1.messages.map MessageNode.name)).map
      Prod.fst).zip (topMessageIds claims entry) ++
    localLogAll [(.file, entry.2)] 0 (topMessageIds claims entry) entry.1.messages

/-- The types of a file. -/
def fileTypes : List TypePath :=
  pathsOf true [] (entry.1.enums.map EnumNode.fqn) (topEnumIds claims entry) ++
    pathsOf false [] (entry.1.messages.map MessageNode.fqn) (topMessageIds claims entry) ++
    typePathsAll [] (topMessageIds claims entry) entry.1.messages

/-- The messages of a file. -/
def fileMessages : List Text :=
  entry.1.messages.map MessageNode.fqn ++ nestedFqnsAll entry.1.messages

/-- The types of a file with their names. -/
def fileNames (names : CppNameTable) : List (Text × Text) :=
  (fileTypes claims entry).map (TypePath.entry (colons ++ messageNamespace names entry.1)
    (colons ++ enumNamespace names entry.1))

/-- The messages of a file with their namespace. -/
def fileSpaces (names : CppNameTable) : List (Text × Text) :=
  (fileMessages entry).map fun fqn => (fqn, messageNamespace names entry.1)

variable {claims entry}

/-- A file writes below itself. -/
theorem mem_fileLog {node : NodeRef} (listed : node ∈ (fileLog claims entry).map Prod.fst) :
    ∃ front, front ≠ [] ∧ node = front ++ [(.file, entry.2)] := by
  rw [fileLog, List.map_append, List.map_append, List.map_fst_zip (by simp [topEnumIds]),
    List.map_fst_zip (by simp [topMessageIds]), List.mem_append, List.mem_append] at listed
  rcases listed with (listed | listed) | listed
  · obtain ⟨i, -, -, rfl⟩ := mem_nodesOf listed
    exact ⟨[(.enum, i)], by simp, rfl⟩
  · obtain ⟨i, -, -, rfl⟩ := mem_nodesOf listed
    exact ⟨[(.message, i)], by simp, rfl⟩
  · obtain ⟨i, front, -, -, rfl⟩ := mem_localLogAll listed
    exact ⟨front ++ [(.message, i)], by simp, by simp⟩

/-- A file leaves the others alone. -/
theorem New.write_file {names : CppNameTable} {file : Nat} (other : entry.2 ≠ file)
    (fresh : New names [(.file, file)]) (types spaces : List (Text × Text)) :
    New (names.write (fileLog claims entry) types spaces) [(.file, file)] := by
  intro front below
  refine (tryEmplaceAll_of_not_mem fun written => ?_).trans (fresh front below)
  obtain ⟨front', -, same⟩ := mem_fileLog written
  have last := (List.append_inj' same rfl).2
  simp only [List.cons.injEq, Prod.mk.injEq, true_and, and_true] at last
  exact other last.symm

/-- The top-level types of a file have been granted identifiers. -/
def FileGranted (claims : Claims) (entry : FileNode × Nat) : Prop :=
  Granted claims entry.2 .enum 0 entry.1.enums.length ∧
    Granted claims entry.2 .message 0 entry.1.messages.length

/-- A run of `index_file`. -/
theorem indexFile_eq {names : CppNameTable} (taken : TakenByNamespace)
    (fresh : New names [(.file, entry.2)]) (granted : FileGranted claims entry) :
    indexFile claims (names, taken) entry =
      (names.write (fileLog claims entry) (fileNames claims entry names) (fileSpaces entry names),
        taken) := by
  rw [indexFile]
  dsimp only
  have enumsAhead : (Scope.mk names (taken (joinNs names.nsPrefix
      (namespaceOf entry.1.package)))).Ahead .enum [(.file, entry.2)] 0 :=
    fun i _ => fresh [(.enum, i)] (by simp)
  rw [foldl_indexTopEnum _ _ 0 entry.1.enums enumsAhead granted.1]
  have other (role : Role) (first : Nat) (names' : List Text) (role' : Role)
      (different : role' ≠ role) (ids : List Text) (lengths : names'.length = ids.length) (i : Nat) :
      [(role', i), (.file, entry.2)] ∉
        (((nodesOf role [(.file, entry.2)] first names').map Prod.fst).zip ids).map Prod.fst := by
    rw [List.map_fst_zip (by simp [lengths])]
    intro written
    obtain ⟨j, -, -, same⟩ := mem_nodesOf written
    simp only [List.cons.injEq, Prod.mk.injEq, and_true] at same
    exact different same.1
  have new (role : Role) (first : Nat) (names' : List Text) (role' : Role)
      (different : role' ≠ role) (ids : List Text) (lengths : names'.length = ids.length) (i : Nat) :
      tryEmplaceAll names.locals
        (((nodesOf role [(.file, entry.2)] first names').map Prod.fst).zip ids)
        [(role', i), (.file, entry.2)] = none :=
    (tryEmplaceAll_of_not_mem (other role first names' role' different ids lengths i)).trans
      (fresh [(role', i)] (by simp))
  have below (role : Role) (names' ids : List Text) (lengths : names'.length = ids.length)
      (front : NodeRef) (given : front ≠ []) (i : Nat) :
      front ++ [(.message, i), (.file, entry.2)] ∉
        (((nodesOf role [(.file, entry.2)] 0 names').map Prod.fst).zip ids).map Prod.fst := by
    rw [List.map_fst_zip (by simp [lengths])]
    intro written
    obtain ⟨j, -, -, same⟩ := mem_nodesOf written
    have shape := congrArg List.length same
    have inside := List.length_pos_of_ne_nil given
    simp only [List.length_append, List.length_cons, List.length_nil] at shape
    omega
  dsimp only
  rw [foldl_indexTopMessage _ _ [] 0 entry.1.messages _ granted.2]
  · dsimp only
    rw [List.nil_append, Function.update_eq_self, foldl_indexTop]
    · simp only [CppNameTable.write_write, fileLog, fileNames, fileTypes, fileSpaces, fileMessages,
        List.map_append, below_map, if_true, Bool.false_eq_true, if_false, spell_nil,
        List.append_nil, List.nil_append, List.map_map]
      rfl
    · intro i id given
      rw [CppNameTable.write_write, Nat.zero_add]
      refine (congrFun (tryEmplaceAll_append _ _ _) _).trans ?_
      apply tryEmplaceAll_of_mem
      · rw [List.map_fst_zip (by simp)]
        exact nodesOf_nodup _ _ _ _
      · have listed := nodesOf_zip_mem .message [(.file, entry.2)]
          (entry.1.messages.map MessageNode.name) (by simp) given 0
        rwa [Nat.zero_add] at listed
      · exact new .enum 0 _ .message (by decide) _ (by simp) i
    · intro i _ front given
      rw [CppNameTable.write_write]
      refine (tryEmplaceAll_of_not_mem ?_).trans ?_
      · rw [List.map_append, List.mem_append, not_or]
        exact ⟨below .enum _ _ (by simp) front given i, below .message _ _ (by simp) front given i⟩
      · rw [List.append_cons]
        exact fresh _ (by simp)
    · simp
  · intro i _
    exact new .enum 0 _ .message (by decide) _ (by simp) i

end FileLog

/-! ## The whole table -/

/-- What is written for a file set. -/
def CppNameTable.writeFiles (names : CppNameTable) (claims : Claims)
    (entries : List (FileNode × Nat)) : CppNameTable :=
  names.write (entries.flatMap (fileLog claims)) (entries.flatMap fun entry =>
    fileNames claims entry names) (entries.flatMap fun entry => fileSpaces entry names)

theorem foldl_indexFile {claims : Claims} {names : CppNameTable} (taken : TakenByNamespace)
    (files : List FileNode) (first : Nat)
    (fresh : ∀ file, first ≤ file → New names [(.file, file)])
    (granted : ∀ entry ∈ files.zipIdx first, FileGranted claims entry) :
    (files.zipIdx first).foldl (indexFile claims) (names, taken) =
      (names.writeFiles claims (files.zipIdx first), taken) := by
  induction files generalizing names first with
  | nil => rfl
  | cons file files ih =>
      rw [List.zipIdx_cons] at granted ⊢
      have here := granted _ List.mem_cons_self
      rw [List.foldl_cons, @indexFile_eq _ (file, first) _ taken (fresh first (le_refl _)) here,
        ih]
      · rw [CppNameTable.writeFiles, CppNameTable.writeFiles, CppNameTable.write_write]
        rfl
      · intro other later
        exact (fresh other (by omega)).write_file (by simp only; omega) _ _
      · exact fun entry listed => granted entry (List.mem_cons_of_mem _ listed)

/-- The top-level types of all files have been granted identifiers. -/
theorem fileGranted (names : CppNameTable) (files : List FileNode) :
    ∀ entry ∈ files.zipIdx, FileGranted (claimToplevelIds names files) entry := by
  intro entry listed
  have found {claimant : Claimant} (member : claimant ∈ claimantsOf names entry) :
      ((claimToplevelIds names files).find claimant.node).isSome := by
    obtain ⟨id, given, -⟩ := exists_find names files
      (List.mem_flatMap.mpr ⟨entry, listed, member⟩)
    exact Option.isSome_iff_exists.mpr ⟨id, given⟩
  constructor
  · intro i _ inside
    rw [Nat.zero_add] at inside
    have position : (entry.1.enums[i], i) ∈ entry.1.enums.zipIdx := by
      simp [List.mem_zipIdx_iff_getElem?, inside]
    exact found (List.mem_append_left _ (List.mem_map_of_mem position))
  · intro i _ inside
    rw [Nat.zero_add] at inside
    have position : (entry.1.messages[i], i) ∈ entry.1.messages.zipIdx := by
      simp [List.mem_zipIdx_iff_getElem?, inside]
    exact found (List.mem_append_right _ (List.mem_map_of_mem position))

/-- The table before anything is indexed. -/
def emptyTable (nsPrefix modelNamespace : Text) : CppNameTable where
  nsPrefix := if nsPrefix = [] then namespaceOf kDefaultNsPrefix else nsPrefix
  modelNamespace := modelNamespace

/-- The files that are indexed. -/
def fileSet (file : FileNode) (allFiles : List FileNode) : List FileNode :=
  if allFiles = [] then [file] else allFiles

/-- The table in full. -/
theorem buildCppNames_eq (file : FileNode) (allFiles : List FileNode)
    (nsPrefix modelNamespace : Text) :
    buildCppNames file allFiles nsPrefix modelNamespace =
      (emptyTable nsPrefix modelNamespace).writeFiles
        (claimToplevelIds (emptyTable nsPrefix modelNamespace) (fileSet file allFiles))
        (fileSet file allFiles).zipIdx := by
  have fresh : ∀ index, 0 ≤ index →
      New (emptyTable nsPrefix modelNamespace) [(.file, index)] := fun _ _ _ _ => rfl
  exact congrArg Prod.fst (foldl_indexFile _ (fileSet file allFiles) 0 fresh
    (fileGranted (emptyTable nsPrefix modelNamespace) (fileSet file allFiles)))

end Codegen
end RapidProto
