import RapidProto.Codegen.NameTable

/-!
# What the name table holds

The tables of `index_message` only grow, so a run is described by what it writes.  The identifiers
of a class are those of its members, handed out in order from the name of the class; the writes of a
message are those of its class and of the messages inside.
-/

namespace RapidProto
namespace Codegen

open Front

/-- A table with entries written into it. -/
def CppNameTable.write (names : CppNameTable) (locals : List (NodeRef × Text))
    (types spaces : List (Text × Text)) : CppNameTable :=
  { names with
    absolute := tryEmplaceAll names.absolute types
    locals := tryEmplaceAll names.locals locals
    typeNs := tryEmplaceAll names.typeNs spaces }

@[simp] theorem CppNameTable.write_nil (names : CppNameTable) : names.write [] [] [] = names := rfl

@[simp] theorem CppNameTable.write_write (names : CppNameTable)
    (locals locals' : List (NodeRef × Text)) (types types' spaces spaces' : List (Text × Text)) :
    (names.write locals types spaces).write locals' types' spaces' =
      names.write (locals ++ locals') (types ++ types') (spaces ++ spaces') := by
  simp [write]

/-! ## The members of a class -/

/-- The nodes of one role among the members of a holder, with their proto names. -/
def nodesOf (role : Role) (holder : NodeRef) : (first : Nat) → List Text → List (NodeRef × Text)
  | _, [] => []
  | first, name :: names => ((role, first) :: holder, name) :: nodesOf role holder (first + 1) names

/-- The oneofs of a message and their members. -/
def oneofNodes (holder : NodeRef) : (first : Nat) → List OneofNode → List (NodeRef × Text)
  | _, [] => []
  | first, oneof :: oneofs =>
    ((.oneof, first) :: holder, oneof.name) ::
      (nodesOf .field ((.oneof, first) :: holder) 0 (oneof.fields.map FieldNode.name) ++
        oneofNodes holder (first + 1) oneofs)

/-- The members of a class in the order in which they are named. -/
def memberNodes (holder : NodeRef) (message : MessageNode) : List (NodeRef × Text) :=
  nodesOf .enum holder 0 (message.enums.map EnumNode.name) ++
    nodesOf .message holder 0 (message.nestedMessages.map MessageNode.name) ++
    nodesOf .field holder 0 (message.fields.map FieldNode.name) ++
    oneofNodes holder 0 message.oneofs ++
    nodesOf .map holder 0 (message.mapFields.map MapFieldNode.name)

/-- Identifiers for names, in a scope with others in use. -/
def idsOf (taken names : List Text) : List Text := underscore.assign taken (names.map sanitize)

@[simp] theorem length_idsOf (taken names : List Text) :
    (idsOf taken names).length = names.length := by
  simp [idsOf]

theorem idsOf_append (taken first second : List Text) :
    idsOf taken (first ++ second) =
      idsOf taken first ++ idsOf ((idsOf taken first).reverse ++ taken) second := by
  simp [idsOf, underscore.assign_append]

/-- A scope in which some nodes have been named. -/
def Scope.give (scope : Scope) (nodes : List (NodeRef × Text)) : Scope :=
  let ids := idsOf scope.taken (nodes.map Prod.snd)
  ⟨scope.names.write ((nodes.map Prod.fst).zip ids) [] [], ids.reverse ++ scope.taken⟩

/-- A scope whose table has entries for some types. -/
def Scope.record (scope : Scope) (types spaces : List (Text × Text)) : Scope :=
  { scope with names := scope.names.write [] types spaces }

namespace Scope

@[simp] theorem give_nil (scope : Scope) : scope.give [] = scope := rfl

@[simp] theorem record_nil (scope : Scope) : scope.record [] [] = scope := rfl

@[simp] theorem give_taken (scope : Scope) (nodes : List (NodeRef × Text)) :
    (scope.give nodes).taken = (idsOf scope.taken (nodes.map Prod.snd)).reverse ++ scope.taken := rfl

@[simp] theorem record_taken (scope : Scope) (types spaces : List (Text × Text)) :
    (scope.record types spaces).taken = scope.taken := rfl

@[simp] theorem give_record (scope : Scope) (types spaces : List (Text × Text))
    (nodes : List (NodeRef × Text)) :
    (scope.record types spaces).give nodes = (scope.give nodes).record types spaces := by
  simp [give, record]

@[simp] theorem record_record (scope : Scope) (types types' spaces spaces' : List (Text × Text)) :
    (scope.record types spaces).record types' spaces' =
      scope.record (types ++ types') (spaces ++ spaces') := by
  simp [record]

/-- Nodes are named one after the other. -/
@[simp] theorem give_give (scope : Scope) (first second : List (NodeRef × Text)) :
    (scope.give first).give second = scope.give (first ++ second) := by
  have lengths : (first.map Prod.fst).length = (idsOf scope.taken (first.map Prod.snd)).length := by
    simp
  simp [give, idsOf_append, List.zip_append lengths]

/-- A node that is new is named by the first identifier that is free. -/
theorem assignId_eq {scope : Scope} {node : NodeRef} (new : scope.names.locals node = none)
    (raw : Text) :
    scope.assignId node raw =
      (scope.give [(node, raw)], underscore.free scope.taken (sanitize raw)) := by
  simp only [assignId, CppNameTable.at, tryEmplace_of_none new]
  rfl

theorem assignId_fst (scope : Scope) (node : NodeRef) (raw : Text) :
    (scope.assignId node raw).1 = scope.give [(node, raw)] := rfl

theorem foldl_indexField (holder : NodeRef) (scope : Scope) (first : Nat)
    (fields : List FieldNode) :
    (fields.zipIdx first).foldl (indexField holder) scope =
      scope.give (nodesOf .field holder first (fields.map FieldNode.name)) := by
  induction fields generalizing scope first with
  | nil => rfl
  | cons field fields ih =>
      rw [List.zipIdx_cons, List.foldl_cons, ih, indexField, assignId_fst, give_give]
      rfl

theorem foldl_indexMap (holder : NodeRef) (scope : Scope) (first : Nat)
    (maps : List MapFieldNode) :
    (maps.zipIdx first).foldl (indexMap holder) scope =
      scope.give (nodesOf .map holder first (maps.map MapFieldNode.name)) := by
  induction maps generalizing scope first with
  | nil => rfl
  | cons field maps ih =>
      rw [List.zipIdx_cons, List.foldl_cons, ih, indexMap, assignId_fst, give_give]
      rfl

theorem foldl_indexOneof (holder : NodeRef) (scope : Scope) (first : Nat)
    (oneofs : List OneofNode) :
    (oneofs.zipIdx first).foldl (indexOneof holder) scope =
      scope.give (oneofNodes holder first oneofs) := by
  induction oneofs generalizing scope first with
  | nil => rfl
  | cons oneof oneofs ih =>
      rw [List.zipIdx_cons, List.foldl_cons, ih, indexOneof, assignId_fst, foldl_indexField,
        give_give, give_give]
      rfl

/-- Types with the names they have below a head. -/
def below (head : Text) (fqns ids : List Text) : List (Text × Text) :=
  (fqns.zip ids).map fun (fqn, id) => (fqn, head ++ colons ++ id)

/-- Nested messages with identifiers. -/
def childrenOf (holder : NodeRef) (abs enumAbs : Text) : (first : Nat) → List Text → List Child
  | _, [] => []
  | first, id :: ids =>
    ⟨(.message, first) :: holder, abs ++ colons ++ id, enumAbs ++ colons ++ id⟩ ::
      childrenOf holder abs enumAbs (first + 1) ids

/-- The nodes of a role that are still to come are new in a scope. -/
def Ahead (scope : Scope) (role : Role) (holder : NodeRef) (first : Nat) : Prop :=
  ∀ i, first ≤ i → scope.names.locals ((role, i) :: holder) = none

theorem Ahead.next {scope : Scope} {role : Role} {holder : NodeRef} {first : Nat}
    (ahead : scope.Ahead role holder first) (name : Text) (types spaces : List (Text × Text)) :
    ((scope.give [((role, first) :: holder, name)]).record types spaces).Ahead role holder
      (first + 1) := by
  intro i later
  have other : (role, i) :: holder ≠ (role, first) :: holder := by
    simp only [ne_eq, List.cons.injEq, Prod.mk.injEq, true_and, and_true]
    omega
  exact (tryEmplace_of_ne other _).trans (ahead i (by omega))

theorem indexEnum_eq {holder : NodeRef} {scope : Scope} {first : Nat}
    (ahead : scope.Ahead .enum holder first) (node : EnumNode) (enumAbs : Text) :
    scope.indexEnum holder enumAbs (node, first) =
      (scope.give [((.enum, first) :: holder, node.name)]).record
        (below enumAbs [node.fqn] (idsOf scope.taken [node.name])) [] := by
  rw [indexEnum, assignId_eq (ahead first (le_refl _))]
  rfl

theorem foldl_indexEnum (holder : NodeRef) (enumAbs : Text) (scope : Scope) (first : Nat)
    (enums : List EnumNode) (ahead : scope.Ahead .enum holder first) :
    (enums.zipIdx first).foldl (indexEnum holder enumAbs) scope =
      (scope.give (nodesOf .enum holder first (enums.map EnumNode.name))).record
        (below enumAbs (enums.map EnumNode.fqn) (idsOf scope.taken (enums.map EnumNode.name)))
        [] := by
  induction enums generalizing scope first with
  | nil => rfl
  | cons node enums ih =>
      rw [List.zipIdx_cons, List.foldl_cons, indexEnum_eq ahead node,
        ih _ (first + 1) (ahead.next node.name _ []), give_record, give_give, record_record]
      rfl

theorem indexNested_eq {holder : NodeRef} {scope : Scope} {first : Nat}
    (ahead : scope.Ahead .message holder first) (message : MessageNode)
    (abs enumAbs msgNs : Text) (children : List Child) :
    indexNested holder abs enumAbs msgNs (scope, children) (message, first) =
      ((scope.give [((.message, first) :: holder, message.name)]).record
        (below abs [message.fqn] (idsOf scope.taken [message.name])) [(message.fqn, msgNs)],
      children ++ childrenOf holder abs enumAbs first (idsOf scope.taken [message.name])) := by
  rw [indexNested, assignId_eq (ahead first (le_refl _))]
  rfl

theorem foldl_indexNested (holder : NodeRef) (abs enumAbs msgNs : Text) (scope : Scope)
    (children : List Child) (first : Nat) (messages : List MessageNode)
    (ahead : scope.Ahead .message holder first) :
    (messages.zipIdx first).foldl (indexNested holder abs enumAbs msgNs) (scope, children) =
      ((scope.give (nodesOf .message holder first (messages.map MessageNode.name))).record
        (below abs (messages.map MessageNode.fqn)
          (idsOf scope.taken (messages.map MessageNode.name)))
        (messages.map fun message => (message.fqn, msgNs)),
      children ++ childrenOf holder abs enumAbs first
        (idsOf scope.taken (messages.map MessageNode.name))) := by
  induction messages generalizing scope children first with
  | nil => simp [nodesOf, below, childrenOf, idsOf]
  | cons message messages ih =>
      rw [List.zipIdx_cons, List.foldl_cons, indexNested_eq ahead message,
        ih _ _ (first + 1) (ahead.next message.name _ _), give_record, give_give, record_record,
        List.append_assoc]
      rfl

end Scope

/-! ## What a message writes -/

/-- A type with the identifiers that lead to it from its package. -/
structure TypePath where
  /-- The type is an enum. -/
  isEnum : Bool
  /-- Its qualified proto name. -/
  fqn : Text
  /-- The identifiers, the outermost first. -/
  path : List Text

/-- The entry of a type in the table, below the roots of messages and enums. -/
def TypePath.entry (msgHead enumHead : Text) (type : TypePath) : Text × Text :=
  (type.fqn, (if type.isEnum then enumHead else msgHead) ++ spell type.path)

/-- The types of one scope. -/
def pathsOf (isEnum : Bool) (path : List Text) (fqns ids : List Text) : List TypePath :=
  (fqns.zip ids).map fun (fqn, id) => ⟨isEnum, fqn, path ++ [id]⟩

/-- The identifiers of the enums of a class. -/
def enumIds (own : Text) (message : MessageNode) : List Text :=
  idsOf [own] (message.enums.map EnumNode.name)

/-- The identifiers of the messages of a class. -/
def nestedIds (own : Text) (message : MessageNode) : List Text :=
  idsOf ((enumIds own message).reverse ++ [own]) (message.nestedMessages.map MessageNode.name)

/-- The members of a class with their identifiers. -/
def classLog (node : NodeRef) (own : Text) (message : MessageNode) : List (NodeRef × Text) :=
  ((memberNodes node message).map Prod.fst).zip
    (idsOf [own] ((memberNodes node message).map Prod.snd))

mutual

/-- The identifiers that a message writes. -/
def localLog (node : NodeRef) (own : Text) : MessageNode → List (NodeRef × Text)
  | ⟨name, visibility, fields, mapFields, oneofs, enums, nestedMessages, reserved, ranges, blocks,
      options, fqn⟩ =>
    let message : MessageNode := ⟨name, visibility, fields, mapFields, oneofs, enums,
      nestedMessages, reserved, ranges, blocks, options, fqn⟩
    classLog node own message ++ localLogAll node 0 (nestedIds own message) nestedMessages

/-- The same for the messages of a list. -/
def localLogAll (holder : NodeRef) :
    (first : Nat) → List Text → List MessageNode → List (NodeRef × Text)
  | first, id :: ids, message :: messages =>
    localLog ((.message, first) :: holder) id message ++
      localLogAll holder (first + 1) ids messages
  | _, _, _ => []

end

mutual

/-- The types declared in a message. -/
def typePaths (path : List Text) (own : Text) : MessageNode → List TypePath
  | ⟨name, visibility, fields, mapFields, oneofs, enums, nestedMessages, reserved, ranges, blocks,
      options, fqn⟩ =>
    let message : MessageNode := ⟨name, visibility, fields, mapFields, oneofs, enums,
      nestedMessages, reserved, ranges, blocks, options, fqn⟩
    pathsOf true path (enums.map EnumNode.fqn) (enumIds own message) ++
      pathsOf false path (nestedMessages.map MessageNode.fqn) (nestedIds own message) ++
      typePathsAll path (nestedIds own message) nestedMessages

/-- The same for the messages of a list. -/
def typePathsAll (path : List Text) : List Text → List MessageNode → List TypePath
  | id :: ids, message :: messages =>
    typePaths (path ++ [id]) id message ++ typePathsAll path ids messages
  | _, _ => []

end

mutual

/-- The messages declared in a message. -/
def nestedFqns : MessageNode → List Text
  | ⟨_, _, _, _, _, _, nestedMessages, _, _, _, _, _⟩ =>
    nestedMessages.map MessageNode.fqn ++ nestedFqnsAll nestedMessages

/-- The same for the messages of a list. -/
def nestedFqnsAll : List MessageNode → List Text
  | [] => []
  | message :: messages => nestedFqns message ++ nestedFqnsAll messages

end

theorem localLog_eq (node : NodeRef) (own : Text) (message : MessageNode) :
    localLog node own message =
      classLog node own message ++
        localLogAll node 0 (nestedIds own message) message.nestedMessages := by
  cases message
  rw [localLog]

theorem typePaths_eq (path : List Text) (own : Text) (message : MessageNode) :
    typePaths path own message =
      pathsOf true path (message.enums.map EnumNode.fqn) (enumIds own message) ++
        pathsOf false path (message.nestedMessages.map MessageNode.fqn) (nestedIds own message) ++
        typePathsAll path (nestedIds own message) message.nestedMessages := by
  cases message
  rw [typePaths]

theorem nestedFqns_eq (message : MessageNode) :
    nestedFqns message =
      message.nestedMessages.map MessageNode.fqn ++ nestedFqnsAll message.nestedMessages := by
  cases message
  rw [nestedFqns]

/-! ## Where it writes -/

/-- The nodes of one role are direct members. -/
theorem mem_nodesOf {role : Role} {holder node : NodeRef} {first : Nat} {names : List Text}
    (listed : node ∈ (nodesOf role holder first names).map Prod.fst) :
    ∃ i, first ≤ i ∧ i < first + names.length ∧ node = (role, i) :: holder := by
  induction names generalizing first with
  | nil => cases listed
  | cons name names ih =>
      rcases List.mem_cons.mp listed with rfl | later
      · exact ⟨first, le_refl _, by simp, rfl⟩
      · obtain ⟨i, lower, upper, rfl⟩ := ih later
        exact ⟨i, by omega, by simp only [List.length_cons]; omega, rfl⟩

@[simp] theorem map_snd_nodesOf (role : Role) (holder : NodeRef) (first : Nat)
    (names : List Text) : (nodesOf role holder first names).map Prod.snd = names := by
  induction names generalizing first with
  | nil => rfl
  | cons name names ih => rw [nodesOf, List.map_cons, ih]

@[simp] theorem length_nodesOf (role : Role) (holder : NodeRef) (first : Nat)
    (names : List Text) : (nodesOf role holder first names).length = names.length := by
  rw [← List.length_map Prod.snd, map_snd_nodesOf]

theorem mem_oneofNodes {holder node : NodeRef} {first : Nat} {oneofs : List OneofNode}
    (listed : node ∈ (oneofNodes holder first oneofs).map Prod.fst) :
    ∃ i, first ≤ i ∧ (node = (.oneof, i) :: holder ∨ ∃ j, node = (.field, j) :: (.oneof, i) :: holder)
    := by
  induction oneofs generalizing first with
  | nil => cases listed
  | cons oneof oneofs ih =>
      rw [oneofNodes, List.map_cons, List.map_append, List.mem_cons, List.mem_append] at listed
      rcases listed with rfl | inside | later
      · exact ⟨first, le_refl _, .inl rfl⟩
      · obtain ⟨j, -, -, rfl⟩ := mem_nodesOf inside
        exact ⟨first, le_refl _, .inr ⟨j, rfl⟩⟩
      · obtain ⟨i, lower, shape⟩ := ih later
        exact ⟨i, by omega, shape⟩

/-- A member is directly below its holder or a field of a oneof there. -/
theorem mem_memberNodes {holder node : NodeRef} {message : MessageNode}
    (listed : node ∈ (memberNodes holder message).map Prod.fst) :
    (∃ role i, node = (role, i) :: holder) ∨ ∃ i j, node = (.field, j) :: (.oneof, i) :: holder := by
  simp only [memberNodes, List.map_append, List.mem_append] at listed
  rcases listed with (((listed | listed) | listed) | listed) | listed
  case inl.inr =>
    obtain ⟨i, -, rfl | ⟨j, rfl⟩⟩ := mem_oneofNodes listed
    · exact .inl ⟨_, _, rfl⟩
    · exact .inr ⟨i, j, rfl⟩
  all_goals
    obtain ⟨i, -, -, rfl⟩ := mem_nodesOf listed
    exact .inl ⟨_, _, rfl⟩

theorem classLog_fst (node : NodeRef) (own : Text) (message : MessageNode) :
    (classLog node own message).map Prod.fst = (memberNodes node message).map Prod.fst := by
  rw [classLog, List.map_fst_zip (by simp)]

theorem classLog_snd (node : NodeRef) (own : Text) (message : MessageNode) :
    (classLog node own message).map Prod.snd =
      idsOf [own] ((memberNodes node message).map Prod.snd) := by
  rw [classLog, List.map_snd_zip (by simp)]

mutual

/-- A message writes below itself. -/
theorem mem_localLog {node ref : NodeRef} {own : Text} : ∀ {message : MessageNode},
    ref ∈ (localLog node own message).map Prod.fst → ∃ front, front ≠ [] ∧ ref = front ++ node
  | ⟨_, _, _, _, _, _, nestedMessages, _, _, _, _, _⟩, listed => by
    rw [localLog_eq, List.map_append, List.mem_append, classLog_fst] at listed
    rcases listed with own | inside
    · rcases mem_memberNodes own with ⟨role, i, rfl⟩ | ⟨i, j, rfl⟩
      · exact ⟨[(role, i)], by simp, rfl⟩
      · exact ⟨[(.field, j), (.oneof, i)], by simp, rfl⟩
    · obtain ⟨i, front, -, -, rfl⟩ := mem_localLogAll inside
      exact ⟨front ++ [(.message, i)], by simp, by simp⟩

theorem mem_localLogAll {holder ref : NodeRef} {first : Nat} {ids : List Text} :
    ∀ {messages : List MessageNode}, ref ∈ (localLogAll holder first ids messages).map Prod.fst →
      ∃ i front, first ≤ i ∧ front ≠ [] ∧ ref = front ++ (.message, i) :: holder
  | [], listed => by
    simp [localLogAll] at listed
  | message :: messages, listed => by
    cases ids with
    | nil => simp [localLogAll] at listed
    | cons id ids =>
        rw [localLogAll, List.map_append, List.mem_append] at listed
        rcases listed with here | later
        · obtain ⟨front, below, rfl⟩ := mem_localLog here
          exact ⟨first, front, le_refl _, below, rfl⟩
        · obtain ⟨i, front, lower, below, rfl⟩ := mem_localLogAll later
          exact ⟨i, front, by omega, below, rfl⟩

end

/-! ## Each member once -/

theorem nodesOf_nodup (role : Role) (holder : NodeRef) (first : Nat) (names : List Text) :
    ((nodesOf role holder first names).map Prod.fst).Nodup := by
  induction names generalizing first with
  | nil => exact List.nodup_nil
  | cons name names ih =>
      rw [nodesOf, List.map_cons, List.nodup_cons]
      refine ⟨fun again => ?_, ih _⟩
      obtain ⟨i, lower, -, same⟩ := mem_nodesOf again
      simp only [List.cons.injEq, Prod.mk.injEq, true_and, and_true] at same
      omega

theorem oneofNodes_nodup (holder : NodeRef) (first : Nat) (oneofs : List OneofNode) :
    ((oneofNodes holder first oneofs).map Prod.fst).Nodup := by
  induction oneofs generalizing first with
  | nil => exact List.nodup_nil
  | cons oneof oneofs ih =>
      rw [oneofNodes, List.map_cons, List.map_append, List.nodup_cons, List.mem_append]
      refine ⟨?_, List.Nodup.append (nodesOf_nodup _ _ _ _) (ih _) ?_⟩
      · rintro (inside | later)
        · obtain ⟨j, -, -, same⟩ := mem_nodesOf inside
          simpa using congrArg List.length same
        · obtain ⟨i, lower, same | ⟨j, same⟩⟩ := mem_oneofNodes later
          · simp only [List.cons.injEq, Prod.mk.injEq, true_and, and_true] at same
            omega
          · simpa using congrArg List.length same
      · intro node inside later
        obtain ⟨j, -, -, rfl⟩ := mem_nodesOf inside
        obtain ⟨i, lower, same | ⟨j', same⟩⟩ := mem_oneofNodes later
        · simpa using congrArg List.length same
        · simp only [List.cons.injEq, Prod.mk.injEq, true_and, and_true] at same
          omega

/-- No node is a member twice. -/
theorem memberNodes_nodup (holder : NodeRef) (message : MessageNode) :
    ((memberNodes holder message).map Prod.fst).Nodup := by
  have apart {role role' : Role} (other : role ≠ role') (names names' : List Text) :
      ((nodesOf role holder 0 names).map Prod.fst).Disjoint
        ((nodesOf role' holder 0 names').map Prod.fst) := by
    intro node here there
    obtain ⟨i, -, -, rfl⟩ := mem_nodesOf here
    obtain ⟨j, -, -, same⟩ := mem_nodesOf there
    simp only [List.cons.injEq, Prod.mk.injEq, and_true] at same
    exact other same.1
  have apart' {role : Role} (other : role ≠ .oneof) (names : List Text) :
      ((nodesOf role holder 0 names).map Prod.fst).Disjoint
        ((oneofNodes holder 0 message.oneofs).map Prod.fst) := by
    intro node here there
    obtain ⟨i, -, -, rfl⟩ := mem_nodesOf here
    obtain ⟨j, -, same | ⟨k, same⟩⟩ := mem_oneofNodes there
    · simp only [List.cons.injEq, Prod.mk.injEq, and_true] at same
      exact other same.1
    · simpa using congrArg List.length same
  simp only [memberNodes, List.map_append]
  apply List.Nodup.append _ (nodesOf_nodup _ _ _ _)
  · simp only [List.disjoint_append_left]
    exact ⟨⟨⟨apart (by decide) _ _, apart (by decide) _ _⟩, apart (by decide) _ _⟩,
      List.disjoint_symm (apart' (by decide) _)⟩
  apply List.Nodup.append _ (oneofNodes_nodup _ _ _)
  · simp only [List.disjoint_append_left]
    exact ⟨⟨apart' (by decide) _, apart' (by decide) _⟩, apart' (by decide) _⟩
  apply List.Nodup.append _ (nodesOf_nodup _ _ _ _)
  · simp only [List.disjoint_append_left]
    exact ⟨apart (by decide) _ _, apart (by decide) _ _⟩
  exact List.Nodup.append (nodesOf_nodup _ _ _ _) (nodesOf_nodup _ _ _ _) (apart (by decide) _ _)

theorem nodesOf_zip_mem (role : Role) (holder : NodeRef) (names : List Text) {ids : List Text}
    {i : Nat} {id : Text} (lengths : ids.length = names.length) (given : ids[i]? = some id)
    (first : Nat) :
    ((role, first + i) :: holder, id) ∈ ((nodesOf role holder first names).map Prod.fst).zip ids := by
  induction names generalizing ids i first with
  | nil =>
      obtain rfl := List.length_eq_zero_iff.mp lengths
      simp at given
  | cons name names ih =>
      cases ids with
      | nil => cases lengths
      | cons id' ids =>
          rw [nodesOf, List.map_cons, List.zip_cons_cons, List.mem_cons]
          cases i with
          | zero =>
              cases given
              exact .inl rfl
          | succ i =>
              rw [show first + (i + 1) = first + 1 + i by omega]
              exact .inr (ih (by simpa using lengths) (by simpa using given) (first + 1))

/-- The nested messages of a class have their identifiers. -/
theorem nested_zip_mem {node : NodeRef} {own : Text} {message : MessageNode}
    {member : NodeRef × Text}
    (listed : member ∈ ((nodesOf .message node 0 (message.nestedMessages.map
      MessageNode.name)).map Prod.fst).zip (nestedIds own message)) :
    member ∈ classLog node own message := by
  simp only [classLog, memberNodes, List.map_append, List.append_assoc, map_snd_nodesOf,
    idsOf_append]
  rw [List.zip_append (by simp), List.mem_append]
  apply Or.inr
  rw [List.zip_append (by simp), List.mem_append]
  exact .inl listed

theorem nested_mem_classLog {node : NodeRef} {own : Text} {message : MessageNode} {i : Nat}
    {id : Text} (given : (nestedIds own message)[i]? = some id) :
    ((.message, i) :: node, id) ∈ classLog node own message := by
  have listed := nodesOf_zip_mem .message node (message.nestedMessages.map MessageNode.name)
    (by simp [nestedIds]) given 0
  rw [Nat.zero_add] at listed
  exact nested_zip_mem listed

/-! ## The writes of a message -/

/-- Nothing below a node has an identifier. -/
def New (names : CppNameTable) (node : NodeRef) : Prop :=
  ∀ front, front ≠ [] → names.locals (front ++ node) = none

/-- Messages at different positions of one holder have nothing below them in common. -/
theorem position_eq {front front' holder : NodeRef} {i j : Nat}
    (same : front ++ (.message, i) :: holder = front' ++ (.message, j) :: holder) : i = j := by
  rw [List.append_cons, List.append_cons front', List.append_cancel_right_eq] at same
  have last := (List.append_inj' same rfl).2
  simpa using last

/-- The members of a class leave the insides of its messages new. -/
theorem New.write_class {names : CppNameTable} {node : NodeRef} (fresh : New names node)
    (own : Text) (message : MessageNode) (types spaces : List (Text × Text)) (i : Nat) :
    New (names.write (classLog node own message) types spaces) ((.message, i) :: node) := by
  intro front below
  refine (tryEmplaceAll_of_not_mem ?_).trans ?_
  · intro written
    rw [classLog_fst] at written
    obtain ⟨step, front, rfl⟩ := List.exists_cons_of_ne_nil below
    rcases mem_memberNodes written with ⟨role, j, same⟩ | ⟨j, k, same⟩
    · have lengths := congrArg List.length same
      simp only [List.length_append, List.length_cons] at lengths
      omega
    · cases front with
      | nil => simp at same
      | cons step' front =>
          have lengths := congrArg List.length same
          simp only [List.length_append, List.length_cons] at lengths
          omega
  · rw [List.append_cons]
    exact fresh _ (by simp)

/-- A message leaves the others of its holder alone. -/
theorem New.write_other {names : CppNameTable} {holder : NodeRef} {i j : Nat} (other : i ≠ j)
    (fresh : New names ((.message, j) :: holder)) (own : Text) (message : MessageNode)
    (types spaces : List (Text × Text)) :
    New (names.write (localLog ((.message, i) :: holder) own message) types spaces)
      ((.message, j) :: holder) := by
  intro front below
  refine (tryEmplaceAll_of_not_mem fun written => ?_).trans (fresh front below)
  obtain ⟨front', -, same⟩ := mem_localLog written
  exact other (position_eq same).symm

/-- Nodes of one role leave those of another new. -/
theorem Scope.Ahead.give_other {scope : Scope} {role : Role} {holder : NodeRef} {first : Nat}
    (ahead : scope.Ahead role holder first) (role' : Role) (other : role ≠ role') (first' : Nat)
    (names : List Text) (types spaces : List (Text × Text)) :
    ((scope.give (nodesOf role' holder first' names)).record types spaces).Ahead role holder
      first := by
  intro i later
  have absent : (role, i) :: holder ∉
      (((nodesOf role' holder first' names).map Prod.fst).zip
        (idsOf scope.taken ((nodesOf role' holder first' names).map Prod.snd))).map Prod.fst := by
    rw [List.map_fst_zip (by simp)]
    intro written
    obtain ⟨j, -, -, same⟩ := mem_nodesOf written
    simp only [List.cons.injEq, Prod.mk.injEq, and_true] at same
    exact other same.1
  exact (tryEmplaceAll_of_not_mem absent).trans (ahead i later)

/-- The members of a class are named in the order of `memberNodes`. -/
theorem indexMessage_class {names : CppNameTable} {node : NodeRef} {own : Text}
    (named : names.locals node = some own) (fresh : New names node) (abs enumAbs msgNs : Text)
    (message : MessageNode) :
    indexMessage names node abs enumAbs msgNs message =
      indexChildren
        (names.write (classLog node own message)
          (Scope.below enumAbs (message.enums.map EnumNode.fqn) (enumIds own message) ++
            Scope.below abs (message.nestedMessages.map MessageNode.fqn) (nestedIds own message))
          (message.nestedMessages.map fun nested => (nested.fqn, msgNs)))
        msgNs message.nestedMessages
        (Scope.childrenOf node abs enumAbs 0 (nestedIds own message)) := by
  cases message with
  | mk name visibility fields mapFields oneofs enums nestedMessages reserved ranges blocks options
      fqn =>
  have start : names.at node = own := by rw [CppNameTable.at, named]; rfl
  rw [indexMessage, start]
  have enumsAhead : (Scope.mk names [own]).Ahead .enum node 0 :=
    fun i _ => fresh [(.enum, i)] (by simp)
  have enumsAhead' : (Scope.mk names [own]).Ahead .message node 0 :=
    fun i _ => fresh [(.message, i)] (by simp)
  have nestedAhead := enumsAhead'.give_other .enum (by decide) 0
    (enums.map EnumNode.name)
    (Scope.below enumAbs (enums.map EnumNode.fqn) (idsOf [own] (enums.map EnumNode.name))) []
  simp only []
  rw [Scope.foldl_indexEnum node enumAbs _ 0 enums enumsAhead,
    Scope.foldl_indexNested node abs enumAbs msgNs _ [] 0 nestedMessages nestedAhead,
    Scope.foldl_indexField, Scope.foldl_indexOneof, Scope.foldl_indexMap]
  simp only [Scope.give_record, Scope.give_give, Scope.record_record, Scope.record_taken,
    Scope.give_taken, List.nil_append, map_snd_nodesOf]
  rfl

@[simp] theorem below_map (isEnum : Bool) (msgHead enumHead : Text) (path : List Text)
    (fqns ids : List Text) :
    (pathsOf isEnum path fqns ids).map (TypePath.entry msgHead enumHead) =
      Scope.below ((if isEnum then enumHead else msgHead) ++ spell path) fqns ids := by
  simp only [pathsOf, Scope.below, List.map_map]
  apply List.map_congr_left
  intro pair _
  simp [TypePath.entry]

section Writes

variable (msgHead enumHead msgNs : Text)

mutual

/-- A run of `index_message` writes what the message says. -/
theorem indexMessage_eq {names : CppNameTable} {node : NodeRef} {own : Text} {path : List Text}
    (named : names.locals node = some own) (fresh : New names node) : (message : MessageNode) →
    indexMessage names node (msgHead ++ spell path) (enumHead ++ spell path) msgNs message =
      names.write (localLog node own message)
        ((typePaths path own message).map (TypePath.entry msgHead enumHead))
        ((nestedFqns message).map fun fqn => (fqn, msgNs))
  | ⟨name, visibility, fields, mapFields, oneofs, enums, nestedMessages, reserved, ranges, blocks,
      options, fqn⟩ => by
    rw [indexMessage_class named fresh, localLog_eq, typePaths_eq, nestedFqns_eq]
    rw [indexChildren_eq]
    · simp only [CppNameTable.write_write, List.map_append, below_map, if_true, List.map_map,
        Function.comp_def, Bool.false_eq_true, if_false, List.append_assoc]
    · intro i id given
      rw [Nat.zero_add]
      exact tryEmplaceAll_of_mem (by rw [classLog_fst]; exact memberNodes_nodup _ _)
        (nested_mem_classLog given) (fresh [(.message, i)] (by simp))
    · exact fun i _ => fresh.write_class own _ _ _ i
    · simp [nestedIds]

theorem indexChildren_eq {names : CppNameTable} {holder : NodeRef} {path : List Text}
    {first : Nat} {ids : List Text}
    (named : ∀ i id, ids[i]? = some id → names.locals ((.message, first + i) :: holder) = some id)
    (fresh : ∀ i, first ≤ i → New names ((.message, i) :: holder)) :
    (messages : List MessageNode) → (lengths : ids.length = messages.length) →
    indexChildren names msgNs messages
        (Scope.childrenOf holder (msgHead ++ spell path) (enumHead ++ spell path) first ids) =
      names.write (localLogAll holder first ids messages)
        ((typePathsAll path ids messages).map (TypePath.entry msgHead enumHead))
        ((nestedFqnsAll messages).map fun fqn => (fqn, msgNs))
  | [], lengths => by
    obtain rfl := List.length_eq_zero_iff.mp lengths
    simp [indexChildren, localLogAll, typePathsAll, nestedFqnsAll]
  | message :: messages, lengths => by
    cases ids with
    | nil => cases lengths
    | cons id ids =>
        have here : names.locals ((.message, first) :: holder) = some id := named 0 id rfl
        rw [Scope.childrenOf, indexChildren]
        have step (head : Text) : head ++ spell path ++ colons ++ id = head ++ spell (path ++ [id]) := by
          simp
        dsimp only
        rw [step, step, indexMessage_eq here (fresh first (le_refl _)) message, indexChildren_eq]
        · simp only [CppNameTable.write_write, localLogAll, typePathsAll, nestedFqnsAll,
            List.map_append]
        · intro i id' given
          have before := named (i + 1) id' (by simpa using given)
          rw [show first + (i + 1) = first + 1 + i by omega] at before
          exact tryEmplaceAll_of_some before _
        · intro i later
          exact (fresh i (by omega)).write_other (by omega) id message _ _
        · simpa using lengths

end

end Writes

end Codegen
end RapidProto
