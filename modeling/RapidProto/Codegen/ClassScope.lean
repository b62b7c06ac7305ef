import RapidProto.Codegen.Files

/-!
# The scope of a generated class

Every message of the file set has an identifier, and so has every member of its class; the
identifiers of the members and the name of the class are distinct and usable.
-/

namespace RapidProto
namespace Codegen

open Front

/-! ## The messages of a file set -/

mutual

/-- A message and the messages declared inside it, with their nodes. -/
def messagesIn (node : NodeRef) : MessageNode → List (NodeRef × MessageNode)
  | ⟨name, visibility, fields, mapFields, oneofs, enums, nestedMessages, reserved, ranges, blocks,
      options, fqn⟩ =>
    (node, ⟨name, visibility, fields, mapFields, oneofs, enums, nestedMessages, reserved, ranges,
      blocks, options, fqn⟩) :: messagesInAll node 0 nestedMessages

/-- The same for the messages of a list. -/
def messagesInAll (holder : NodeRef) : (first : Nat) → List MessageNode →
    List (NodeRef × MessageNode)
  | _, [] => []
  | first, message :: messages =>
    messagesIn ((.message, first) :: holder) message ++ messagesInAll holder (first + 1) messages

end

/-- The messages of a file set. -/
def allMessages (files : List FileNode) : List (NodeRef × MessageNode) :=
  files.zipIdx.flatMap fun entry => messagesInAll [(.file, entry.2)] 0 entry.1.messages

theorem messagesIn_eq (node : NodeRef) (message : MessageNode) :
    messagesIn node message = (node, message) :: messagesInAll node 0 message.nestedMessages := by
  cases message
  rw [messagesIn]

/-! ## Each node once -/

mutual

/-- No node is written twice for a message. -/
theorem localLog_nodup (node : NodeRef) (own : Text) : (message : MessageNode) →
    ((localLog node own message).map Prod.fst).Nodup
  | ⟨_, _, _, _, _, _, nestedMessages, _, _, _, _, _⟩ => by
    rw [localLog_eq, List.map_append, classLog_fst]
    apply List.Nodup.append (memberNodes_nodup _ _) (localLogAll_nodup _ _ _ nestedMessages)
    intro other direct inside
    obtain ⟨i, front, -, below, rfl⟩ := mem_localLogAll inside
    obtain ⟨step, front, rfl⟩ := List.exists_cons_of_ne_nil below
    rcases mem_memberNodes direct with ⟨role, j, same⟩ | ⟨j, k, same⟩
    · have lengths := congrArg List.length same
      simp only [List.length_append, List.length_cons] at lengths
      omega
    · cases front with
      | nil => simp at same
      | cons step' front =>
          have lengths := congrArg List.length same
          simp only [List.length_append, List.length_cons] at lengths
          omega

theorem localLogAll_nodup (holder : NodeRef) (first : Nat) (ids : List Text) :
    (messages : List MessageNode) → ((localLogAll holder first ids messages).map Prod.fst).Nodup
  | [] => by simp [localLogAll]
  | message :: messages => by
    cases ids with
    | nil => simp [localLogAll]
    | cons id ids =>
        rw [localLogAll, List.map_append]
        apply List.Nodup.append (localLog_nodup _ _ message) (localLogAll_nodup _ _ _ messages)
        intro other here later
        obtain ⟨front, -, rfl⟩ := mem_localLog here
        obtain ⟨i, front', lower, -, same⟩ := mem_localLogAll later
        have positions := position_eq same
        omega

end

/-- No node is written twice for a file. -/
theorem fileLog_nodup (claims : Claims) (entry : FileNode × Nat) :
    ((fileLog claims entry).map Prod.fst).Nodup := by
  rw [fileLog, List.map_append, List.map_append, List.map_fst_zip (by simp [topEnumIds]),
    List.map_fst_zip (by simp [topMessageIds])]
  apply List.Nodup.append _ (localLogAll_nodup _ _ _ _)
  · intro node direct inside
    obtain ⟨i, front, -, below, rfl⟩ := mem_localLogAll inside
    have size := List.length_pos_of_ne_nil below
    rcases List.mem_append.mp direct with direct | direct <;>
    · obtain ⟨j, -, -, same⟩ := mem_nodesOf direct
      have lengths := congrArg List.length same
      simp only [List.length_append, List.length_cons] at lengths
      omega
  · apply List.Nodup.append (nodesOf_nodup _ _ _ _) (nodesOf_nodup _ _ _ _)
    intro node here there
    obtain ⟨i, -, -, rfl⟩ := mem_nodesOf here
    obtain ⟨j, -, -, same⟩ := mem_nodesOf there
    simp at same

/-- No node is written twice. -/
theorem fileLogs_nodup (claims : Claims) (files : List FileNode) :
    ((files.zipIdx.flatMap (fileLog claims)).map Prod.fst).Nodup := by
  rw [List.map_flatMap, List.nodup_flatMap]
  refine ⟨fun entry _ => fileLog_nodup claims entry, ?_⟩
  apply (List.pairwise_map.mp (List.nodup_zipIdx_map_snd files)).imp
  intro first second other node here there
  obtain ⟨front, -, rfl⟩ := mem_fileLog here
  obtain ⟨front', -, same⟩ := mem_fileLog there
  have last := (List.append_inj' same rfl).2
  simp only [List.cons.injEq, Prod.mk.injEq, true_and, and_true] at last
  exact other last

theorem length_nestedIds (own : Text) (message : MessageNode) :
    (nestedIds own message).length = message.nestedMessages.length := by
  simp [nestedIds]

/-! ## The class of a message -/

/-- The identifier of a message and those of the members of its class are among some writes. -/
def Written (log : List (NodeRef × Text)) (node : NodeRef) (message : MessageNode) : Prop :=
  ∃ own, (node, own) ∈ log ∧ ∀ member ∈ classLog node own message, member ∈ log

theorem Written.mono {log log' : List (NodeRef × Text)} {node : NodeRef} {message : MessageNode}
    (written : Written log node message) (more : ∀ member ∈ log, member ∈ log') :
    Written log' node message := by
  obtain ⟨own, listed, inside⟩ := written
  exact ⟨own, more _ listed, fun member direct => more member (inside member direct)⟩

mutual

/-- A message that is written with its own identifier writes the classes inside it. -/
theorem written_messagesIn {node : NodeRef} {own : Text} : (message : MessageNode) →
    ∀ entry ∈ messagesIn node message,
      Written ((node, own) :: localLog node own message) entry.1 entry.2
  | ⟨name, visibility, fields, mapFields, oneofs, enums, nestedMessages, reserved, ranges, blocks,
      options, fqn⟩, entry, listed => by
    have lengths := length_nestedIds own ⟨name, visibility, fields, mapFields, oneofs, enums,
      nestedMessages, reserved, ranges, blocks, options, fqn⟩
    rw [messagesIn_eq] at listed
    rw [localLog_eq]
    rcases List.mem_cons.mp listed with rfl | inside
    · refine ⟨own, List.mem_cons_self, fun member direct => ?_⟩
      exact List.mem_cons_of_mem _ (List.mem_append_left _ direct)
    · apply (written_messagesInAll nestedMessages lengths entry inside).mono
      intro member written
      rcases List.mem_append.mp written with direct | below
      · exact List.mem_cons_of_mem _ (List.mem_append_left _ (nested_zip_mem direct))
      · exact List.mem_cons_of_mem _ (List.mem_append_right _ below)

theorem written_messagesInAll {holder : NodeRef} {first : Nat} {ids : List Text} :
    (messages : List MessageNode) → ids.length = messages.length →
    ∀ entry ∈ messagesInAll holder first messages,
      Written (((nodesOf .message holder first (messages.map MessageNode.name)).map
        Prod.fst).zip ids ++ localLogAll holder first ids messages) entry.1 entry.2
  | [], _, entry, listed => by
    rw [messagesInAll] at listed
    cases listed
  | message :: messages, lengths, entry, listed => by
    cases ids with
    | nil => cases lengths
    | cons id ids =>
        rw [messagesInAll, List.mem_append] at listed
        rw [localLogAll, List.map_cons, nodesOf, List.map_cons, List.zip_cons_cons]
        rcases listed with here | later
        · apply Written.mono (written_messagesIn message entry here : Written (_ :: localLog _ id _) _ _)
          intro member written
          rcases List.mem_cons.mp written with rfl | below
          · simp
          · simp [below]
        · apply (written_messagesInAll messages (by simpa using lengths) entry later).mono
          intro member written
          rcases List.mem_append.mp written with direct | below
          · simp [direct]
          · simp [below]

end

/-- Every message of a file is written with its class. -/
theorem written_fileLog (claims : Claims) (entry : FileNode × Nat) :
    ∀ message ∈ messagesInAll [(.file, entry.2)] 0 entry.1.messages,
      Written (fileLog claims entry) message.1 message.2 := by
  intro message listed
  have lengths : (topMessageIds claims entry).length = entry.1.messages.length := by
    simp [topMessageIds]
  apply (written_messagesInAll entry.1.messages lengths message listed).mono
  intro member written
  rw [fileLog, List.append_assoc]
  exact List.mem_append_right _ written

section Table

variable (file : FileNode) (allFiles : List FileNode) (nsPrefix modelNamespace : Text)

/-- The claims of a file set. -/
def claimsOf : Claims :=
  claimToplevelIds (emptyTable nsPrefix modelNamespace) (fileSet file allFiles)

/-- What is written is what is found. -/
theorem locals_of_mem {entry : FileNode × Nat} (listed : entry ∈ (fileSet file allFiles).zipIdx)
    {node : NodeRef} {id : Text}
    (written : (node, id) ∈ fileLog (claimsOf file allFiles nsPrefix modelNamespace) entry) :
    (buildCppNames file allFiles nsPrefix modelNamespace).locals node = some id := by
  rw [buildCppNames_eq]
  exact tryEmplaceAll_of_mem (fileLogs_nodup _ _) (List.mem_flatMap.mpr ⟨entry, listed, written⟩) rfl

/-- The identifiers of a class are handed out in order, from the name of the class. -/
theorem locals_class {node : NodeRef} {message : MessageNode}
    (listed : (node, message) ∈ allMessages (fileSet file allFiles)) :
    ∃ own, (buildCppNames file allFiles nsPrefix modelNamespace).locals node = some own ∧
      (memberNodes node message).map (fun member =>
          (buildCppNames file allFiles nsPrefix modelNamespace).locals member.1) =
        (idsOf [own] ((memberNodes node message).map Prod.snd)).map some := by
  obtain ⟨entry, member, inside⟩ := List.mem_flatMap.mp listed
  obtain ⟨own, named, direct⟩ :=
    written_fileLog (claimsOf file allFiles nsPrefix modelNamespace) entry _ inside
  refine ⟨own, locals_of_mem file allFiles nsPrefix modelNamespace member named, ?_⟩
  have found : (classLog node own message).map (fun written =>
      (buildCppNames file allFiles nsPrefix modelNamespace).locals written.1) =
        (classLog node own message).map fun written => some written.2 := by
    apply List.map_congr_left
    intro written is_written
    exact locals_of_mem file allFiles nsPrefix modelNamespace member (direct written is_written)
  have nodes := congrArg (List.map (buildCppNames file allFiles nsPrefix modelNamespace).locals)
    (classLog_fst node own message)
  rw [List.map_map, List.map_map] at nodes
  rw [← classLog_snd node own message, List.map_map]
  exact nodes.symm.trans found

/-! ## Usable identifiers -/

theorem usable_idsOf (taken names : List Text) : ∀ id ∈ idsOf taken names, Usable id := by
  intro id listed
  obtain ⟨name, wanted, turns, rfl⟩ := underscore.exists_of_mem_assign listed
  obtain ⟨raw, -, rfl⟩ := List.mem_map.mp wanted
  exact usable_iterate (usable_sanitize raw) turns

mutual

theorem usable_localLog {node : NodeRef} {own : Text} : (message : MessageNode) →
    ∀ written ∈ localLog node own message, Usable written.2
  | ⟨_, _, _, _, _, _, nestedMessages, _, _, _, _, _⟩, written, listed => by
    rw [localLog_eq] at listed
    rcases List.mem_append.mp listed with direct | inside
    · apply usable_idsOf
      rw [← classLog_snd node own]
      exact List.mem_map_of_mem direct
    · exact usable_localLogAll nestedMessages written inside

theorem usable_localLogAll {holder : NodeRef} {first : Nat} {ids : List Text} :
    (messages : List MessageNode) → ∀ written ∈ localLogAll holder first ids messages,
      Usable written.2
  | [], written, listed => by simp [localLogAll] at listed
  | message :: messages, written, listed => by
    cases ids with
    | nil => simp [localLogAll] at listed
    | cons id ids =>
        rw [localLogAll, List.mem_append] at listed
        rcases listed with here | later
        · exact usable_localLog message written here
        · exact usable_localLogAll messages written later

end

/-- A granted identifier is usable. -/
theorem usable_of_find {names : CppNameTable} {files : List FileNode} {node : NodeRef} {id : Text}
    (found : (claimToplevelIds names files).find node = some id) : Usable id := by
  obtain ⟨entry, -, granted⟩ := (find_eq_some names files).mp found
  obtain ⟨turns, reached⟩ := (claimToplevelIds_sound names files).reached _ granted
  rw [show id = _ from reached]
  exact usable_iterate (usable_sanitize _) turns

theorem usable_topIds {names : CppNameTable} {files : List FileNode} {file : Nat} {role : Role}
    {first count : Nat} (granted : Granted (claimToplevelIds names files) file role first count) :
    ∀ id ∈ topIds (claimToplevelIds names files) file role first count, Usable id := by
  intro id listed
  obtain ⟨i, inside, rfl⟩ := List.mem_map.mp listed
  rw [List.mem_range'_1] at inside
  obtain ⟨id, found⟩ := Option.isSome_iff_exists.mp (granted i inside.1 inside.2)
  rw [found]
  exact usable_of_find found

/-- Every identifier of the table is usable. -/
theorem usable_locals {node : NodeRef} {id : Text}
    (found : (buildCppNames file allFiles nsPrefix modelNamespace).locals node = some id) :
    Usable id := by
  rw [buildCppNames_eq] at found
  rcases of_tryEmplaceAll found with before | written
  · cases before
  · obtain ⟨entry, listed, inside⟩ := List.mem_flatMap.mp written
    have granted := fileGranted (emptyTable nsPrefix modelNamespace) (fileSet file allFiles) entry
      listed
    rw [fileLog, List.mem_append, List.mem_append] at inside
    rcases inside with (inside | inside) | inside
    · exact usable_topIds granted.1 id (List.of_mem_zip inside).2
    · exact usable_topIds granted.2 id (List.of_mem_zip inside).2
    · exact usable_localLogAll _ _ inside

/-- In the scope of a generated class every member has an identifier, the identifiers and the name
of the class are distinct, and each of them is usable. -/
theorem class_scope {node : NodeRef} {message : MessageNode}
    (listed : (node, message) ∈ allMessages (fileSet file allFiles)) :
    let names := buildCppNames file allFiles nsPrefix modelNamespace
    let scope := node :: (memberNodes node message).map Prod.fst
    (∀ member ∈ scope, (names.locals member).isSome) ∧ (scope.map names.at).Nodup ∧
      ∀ member ∈ scope, Usable (names.at member) := by
  intro names scope
  obtain ⟨own, named, members⟩ := locals_class file allFiles nsPrefix modelNamespace listed
  have all : scope.map names.locals = (own :: idsOf [own] ((memberNodes node message).map
      Prod.snd)).map some := by
    rw [List.map_cons, List.map_cons, List.map_map]
    exact congrArg₂ List.cons named members
  have found : ∀ member ∈ scope, ∃ id, names.locals member = some id := by
    intro member inside
    have image : names.locals member ∈ scope.map names.locals := List.mem_map_of_mem inside
    rw [all] at image
    obtain ⟨id, -, same⟩ := List.mem_map.mp image
    exact ⟨id, same.symm⟩
  refine ⟨fun member inside => Option.isSome_iff_exists.mpr (found member inside), ?_, ?_⟩
  · have ids : scope.map names.at = own :: idsOf [own] ((memberNodes node message).map Prod.snd) := by
      have values := congrArg (List.map fun id => id.getD []) all
      rw [List.map_map, List.map_map] at values
      exact values.trans (List.map_id _)
    rw [ids, List.nodup_cons]
    refine ⟨fun again => ?_, underscore.assign_nodup _ _⟩
    exact underscore.assign_not_mem again List.mem_cons_self
  · intro member inside
    obtain ⟨id, given⟩ := found member inside
    rw [CppNameTable.at, given]
    exact usable_locals file allFiles nsPrefix modelNamespace given

end Table

/-- A message `decode` with a field of that name and a message inside that is named like it. -/
def nestedFile : FileNode where
  messages := [
    { name := text "decode"
      fields := [{ name := text "decode", typeName := text "int32" }]
      nestedMessages := [{ name := text "decode" }] }]

theorem class_scope_nested :
    let names := buildCppNames nestedFile [] [] kStreamRoot
    let scope : List NodeRef := [[(.message, 0), (.file, 0)],
      [(.message, 0), (.message, 0), (.file, 0)], [(.field, 0), (.message, 0), (.file, 0)]]
    (∀ member ∈ scope, (names.locals member).isSome) ∧ (scope.map names.at).Nodup ∧
      ∀ member ∈ scope, Usable (names.at member) := by
  apply @class_scope nestedFile [] [] kStreamRoot [(.message, 0), (.file, 0)]
    (nestedFile.messages.head (by simp [nestedFile]))
  simp [allMessages, fileSet, nestedFile, messagesInAll, messagesIn]

end Codegen
end RapidProto
