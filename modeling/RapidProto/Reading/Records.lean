import RapidProto.Oneof

/-!
# What a reading collects

After a successful fold, the occurrences of every member stand in one line with its records: a
message or a map has one occurrence for each record with its tag, a leaf the values of its records
and packed runs, and the unknown flag tells whether some record's number is undeclared.
-/

namespace RapidProto

/-- The value of a record with the given tag. -/
def Item.valueOf (wanted : Tag) : Item → Option Payload
  | .record tag value _ => if tag = wanted then some value else none
  | .badTag _ | .badValue _ _ => none

/-- The records of a body with the given tag. -/
def recordsOf (wanted : Tag) (body : List Byte) : List Payload :=
  (items body.length body).filterMap (Item.valueOf wanted)

/-- The tag of a member's own records. -/
def Member.tag (member : Member) : Tag := ⟨member.number, member.wire⟩

/-- The record has a number that the message does not declare. -/
def Item.undeclared (message : Message) : Item → Bool
  | .record tag _ _ => (message.member? tag.fieldNumber).isNone
  | .badTag _ | .badValue _ _ => false

/-- Some record of the body has an undeclared number. -/
def hasUndeclared (message : Message) (body : List Byte) : Bool :=
  (items body.length body).any (Item.undeclared message)

theorem Item.valueOf_eq_some {item : Item} {wanted : Tag} {value : Payload} :
    item.valueOf wanted = some value ↔ ∃ raw, item = .record wanted value raw := by
  cases item with
  | badTag failure => simp [Item.valueOf]
  | badValue tag failure => simp [Item.valueOf]
  | record tag found raw =>
      simp only [Item.valueOf, Option.ite_none_right_eq_some, Option.some.injEq, Item.record.injEq]
      constructor
      · rintro ⟨rfl, rfl⟩
        exact ⟨raw, rfl, rfl, rfl⟩
      · rintro ⟨_, rfl, rfl, _⟩
        exact ⟨rfl, rfl⟩

/-- A record is no longer than its body. -/
theorem recordsOf_length {wanted : Tag} {body : List Byte} {value : Payload}
    (met : value ∈ recordsOf wanted body) : value.bytes.length ≤ body.length := by
  obtain ⟨item, listed, own⟩ := List.mem_filterMap.mp met
  obtain ⟨raw, rfl⟩ := Item.valueOf_eq_some.mp own
  exact (items_fits le_rfl listed).2

theorem lastChoice_length {message : Message} {oneof : Nat} {body : List Byte} {choice : Choice}
    (last : lastChoice message oneof body = some choice) :
    choice.value.bytes.length ≤ body.length := by
  obtain ⟨item, listed, chosen⟩ := List.mem_filterMap.mp (List.mem_of_getLast? last)
  cases item with
  | badTag failure => cases chosen
  | badValue tag failure => cases chosen
  | record tag value raw =>
      have short := (items_fits le_rfl listed).2
      simp only [Item.choice] at chosen
      split at chosen
      · split at chosen
        · cases chosen
          exact short
        · cases chosen
      · cases chosen

/-- The switch of a message, by its members. -/
theorem route_shapes (message : Message) (mode : Nat → FieldMode) (tag : Tag) :
    route (message.shapes mode) tag =
      match message.member? tag.fieldNumber with
      | none => .unknown
      | some member =>
        if (member.shape mode).dropped then .skip
        else if tag.wireType = member.wire then .native (member.shape mode)
        else if (member.shape mode).packable ∧ tag.wireType = .len then
          .packed (member.shape mode)
        else .skip := by
  have keyed : findKey Shape.number tag.fieldNumber (message.shapes mode) =
      (message.member? tag.fieldNumber).map (Member.shape mode) := by
    rw [Message.shapes, findKey_map, Message.member?]
    congr 2
    funext member
    exact Member.shape_number mode member
  rw [route, keyed]
  cases message.member? tag.fieldNumber with
  | none => rfl
  | some member => simp only [Option.map_some, Member.shape_wire]

section Records

variable {schema : Schema} {reading : Reading}
  {sub : MessageId → List Byte → Outcome DecodeError Behaviour} {id : MessageId}

/-- A record deposits under its own number. -/
theorem mem_deposit {tag : Tag} {value : Payload} {raw : List Byte} {deposited : History × Bool}
    (put : deposit schema reading sub id (.record tag value raw) = .ok deposited) {number : Nat}
    {behaviour : Behaviour} (listed : (number, behaviour) ∈ deposited.1) :
    number = tag.fieldNumber := by
  simp only [deposit, route_shapes] at put
  cases found : (schema.get id).member? tag.fieldNumber with
  | none =>
      simp only [found] at put
      cases put
      cases listed
  | some member =>
      obtain ⟨declared, same⟩ := Message.mem_of_member? found
      have found' := Message.member?_number declared
      simp only [found] at put
      split_ifs at put
      · cases put
        cases listed
      · simp only [Member.shape_number, found'] at put
        obtain ⟨occurred, -, put⟩ := Outcome.bind_eq_ok.mp put
        cases put
        cases List.mem_singleton.mp listed
        exact same
      · simp only [Member.shape_number, found'] at put
        split at put
        · split at put
          · cases put
          · cases put
            obtain ⟨_, -, pair⟩ := List.mem_map.mp listed
            cases pair
            exact same
        · cases put
          cases listed
      · cases put
        cases listed

/-- A record of a member's own tag deposits its occurrence. -/
theorem deposit_own {member : Member} (declared : member ∈ (schema.get id).members)
    (kept : (member.shape (reading.mode id)).dropped = false) {value : Payload} {raw : List Byte}
    {deposited : History × Bool}
    (put : deposit schema reading sub id (.record member.tag value raw) = .ok deposited) :
    ∃ behaviour, member.occurrence reading sub id value = .ok behaviour ∧
      deposited.1 = [(member.number, behaviour)] := by
  simp only [deposit, Member.tag, route_member declared kept, Member.shape_number,
    Message.member?_number declared] at put
  obtain ⟨behaviour, decoded, same⟩ := Outcome.bind_eq_ok.mp put
  cases same
  exact ⟨behaviour, decoded, rfl⟩

/-- A member that is not packed has one occurrence for each of its records. -/
theorem foldlM_occurrences {inputs : List Item} {progress final : Progress}
    (ran : inputs.foldlM (referenceBodies schema reading sub id).step progress = .ok final)
    {member : Member} (declared : member ∈ (schema.get id).members)
    (kept : (member.shape (reading.mode id)).dropped = false)
    (single : (member.shape (reading.mode id)).packable = false) :
    ∃ occurred, final.history.occurrences member.number =
        progress.history.occurrences member.number ++ occurred ∧
      List.Forall₂ (fun value behaviour =>
        member.occurrence reading sub id value = .ok behaviour)
        (inputs.filterMap (Item.valueOf member.tag)) occurred := by
  induction inputs generalizing progress with
  | nil =>
      cases ran
      exact ⟨[], by simp, .nil⟩
  | cons item inputs ih =>
      rw [List.foldlM_cons] at ran
      obtain ⟨middle, stepped, ran⟩ := Outcome.bind_eq_ok.mp ran
      obtain ⟨-, deposited, put, rfl⟩ := reference_step_ok.mp stepped
      obtain ⟨occurred, same, records⟩ := ih ran
      rw [Progress.add, History.occurrences_append, List.append_assoc] at same
      cases own : item.valueOf member.tag with
      | some value =>
          obtain ⟨raw, rfl⟩ := Item.valueOf_eq_some.mp own
          obtain ⟨behaviour, decoded, history⟩ := deposit_own declared kept put
          rw [history, History.occurrences_single, if_pos rfl] at same
          refine ⟨behaviour :: occurred, same, ?_⟩
          rw [List.filterMap_cons_some own]
          exact .cons decoded records
      | none =>
          have without : deposited.1.occurrences member.number = [] := by
            rw [occurrences_eq_nil, deposit_occurs put declared kept single]
            rintro ⟨value, raw, rfl⟩
            simp [Item.valueOf, Member.tag] at own
          rw [without, List.nil_append] at same
          refine ⟨occurred, same, ?_⟩
          rw [List.filterMap_cons_none own]
          exact records

theorem fold_records {body : List Byte} {final : Progress}
    (ran : (referenceBodies schema reading sub id).fold body {} = .ok final)
    {member : Member} (declared : member ∈ (schema.get id).members)
    (kept : (member.shape (reading.mode id)).dropped = false)
    (single : (member.shape (reading.mode id)).packable = false) :
    List.Forall₂ (fun value behaviour => member.occurrence reading sub id value = .ok behaviour)
      (recordsOf member.tag body) (final.history.occurrences member.number) := by
  obtain ⟨occurred, same, records⟩ := foldlM_occurrences ran declared kept single
  rw [same]
  exact records

/-! ## Leaves -/

/-- The values an item holds for a plain leaf field. -/
def Field.valuesOf (field : Field) (kind : Leaf) : Item → List Value
  | .record tag value _ =>
    if tag = ⟨field.number, kind.wire⟩ then [kind.convert value]
    else if tag = ⟨field.number, .len⟩ ∧ field.isRepeated ∧ isPackableWire kind.wire then
      match packedValues kind value.bytes with
      | .ok values => values
      | .error _ => []
    else []
  | .badTag _ | .badValue _ _ => []

theorem deposit_leaf {field : Field} {kind : Leaf} (type : field.type = .leaf kind)
    (declared : field ∈ (schema.get id).fields) (kept : reading.mode id field.number ≠ .drop)
    {item : Item} {deposited : History × Bool}
    (put : deposit schema reading sub id item = .ok deposited) :
    deposited.1.occurrences field.number = (field.valuesOf kind item).map Behaviour.leaf := by
  have declared' := Message.plain_mem.mpr declared
  cases item with
  | badTag failure => cases put
  | badValue tag failure => cases put
  | record tag value raw =>
      obtain ⟨number, wire⟩ := tag
      by_cases own : number = field.number
      · subst own
        simp only [deposit, route_shapes] at put
        have found := Message.member?_number declared'
        simp only [Member.number] at found
        simp only [found, Member.shape, kept, decide_false, Bool.false_eq_true, if_false,
          Member.wire, type, FieldType.wire, Shape.packable] at put
        simp only [Field.valuesOf, Tag.mk.injEq, true_and]
        by_cases native : wire = kind.wire
        · simp only [native, if_true, found] at put ⊢
          simp only [Member.occurrence, type, Outcome.ok_bind, Member.number] at put
          cases put
          simp [History.occurrences]
        · simp only [native, if_false] at put ⊢
          by_cases run : wire = .len ∧ field.isRepeated = true ∧ isPackableWire kind.wire = true
          · obtain ⟨rfl, repeated, packable⟩ := run
            simp only [repeated, packable, Bool.and_true, and_self, if_true, found] at put ⊢
            obtain ⟨_, _, _⟩ := field
            cases type
            simp only at put
            cases values : packedValues kind value.bytes with
            | error failure =>
                rw [values] at put
                cases put
            | ok values =>
                rw [values] at put
                cases put
                simp [History.occurrences, List.filter_map, Function.comp_def]
          · rw [if_neg run]
            rw [if_neg (by simpa [and_comm, and_assoc] using run)] at put
            cases put
            rfl
      · have other : field.valuesOf kind (.record ⟨number, wire⟩ value raw) = [] := by
          simp [Field.valuesOf, own]
        rw [other, List.map_nil, occurrences_eq_nil]
        rintro ⟨behaviour, listed⟩
        exact own (mem_deposit put listed).symm

theorem foldlM_leaves {inputs : List Item} {progress final : Progress}
    (ran : inputs.foldlM (referenceBodies schema reading sub id).step progress = .ok final)
    {field : Field} {kind : Leaf} (type : field.type = .leaf kind)
    (declared : field ∈ (schema.get id).fields) (kept : reading.mode id field.number ≠ .drop) :
    final.history.occurrences field.number = progress.history.occurrences field.number ++
      (inputs.flatMap (field.valuesOf kind)).map Behaviour.leaf := by
  induction inputs generalizing progress with
  | nil =>
      cases ran
      simp
  | cons item inputs ih =>
      rw [List.foldlM_cons] at ran
      obtain ⟨middle, stepped, ran⟩ := Outcome.bind_eq_ok.mp ran
      obtain ⟨-, deposited, put, rfl⟩ := reference_step_ok.mp stepped
      rw [ih ran, Progress.add, History.occurrences_append, deposit_leaf type declared kept put,
        List.flatMap_cons, List.map_append, List.append_assoc]

/-- A leaf field has the values of its records and packed runs, whatever the reading. -/
theorem fold_leaves {body : List Byte} {final : Progress}
    (ran : (referenceBodies schema reading sub id).fold body {} = .ok final)
    {field : Field} {kind : Leaf} (type : field.type = .leaf kind)
    (declared : field ∈ (schema.get id).fields) (kept : reading.mode id field.number ≠ .drop) :
    final.history.occurrences field.number =
      ((items body.length body).flatMap (field.valuesOf kind)).map Behaviour.leaf := by
  rw [foldlM_leaves ran type declared kept]
  rfl

/-! ## Undeclared numbers -/

theorem deposit_unknown {item : Item} {deposited : History × Bool}
    (put : deposit schema reading sub id item = .ok deposited) :
    deposited.2 = item.undeclared (schema.get id) := by
  cases item with
  | badTag failure => cases put
  | badValue tag failure => cases put
  | record tag value raw =>
      simp only [deposit, route_shapes] at put
      rw [Item.undeclared]
      cases found : (schema.get id).member? tag.fieldNumber with
      | none =>
          simp only [found] at put
          cases put
          rfl
      | some member =>
          obtain ⟨declared, same⟩ := Message.mem_of_member? found
          have found' := Message.member?_number declared
          simp only [found] at put
          split_ifs at put
          · cases put
            rfl
          · simp only [Member.shape_number, found'] at put
            obtain ⟨occurred, -, put⟩ := Outcome.bind_eq_ok.mp put
            cases put
            rfl
          · simp only [Member.shape_number, found'] at put
            split at put
            · split at put
              · cases put
              · cases put
                rfl
            · cases put
              rfl
          · cases put
            rfl

theorem foldlM_unknown {inputs : List Item} {progress final : Progress}
    (ran : inputs.foldlM (referenceBodies schema reading sub id).step progress = .ok final) :
    final.unknown = (progress.unknown || inputs.any (Item.undeclared (schema.get id))) := by
  induction inputs generalizing progress with
  | nil =>
      cases ran
      simp
  | cons item inputs ih =>
      rw [List.foldlM_cons] at ran
      obtain ⟨middle, stepped, ran⟩ := Outcome.bind_eq_ok.mp ran
      obtain ⟨-, deposited, put, rfl⟩ := reference_step_ok.mp stepped
      rw [ih ran, Progress.add, deposit_unknown put, List.any_cons, Bool.or_assoc]

/-- The unknown flag is set iff some record's number is undeclared. -/
theorem fold_unknown {body : List Byte} {final : Progress}
    (ran : (referenceBodies schema reading sub id).fold body {} = .ok final) :
    final.unknown = hasUndeclared (schema.get id) body := by
  rw [foldlM_unknown ran]
  rfl

/-! ## Singular sub-messages -/

/-- A singular sub-message occurs at most once. -/
theorem foldlM_single {inputs : List Item} {progress final : Progress}
    (ran : inputs.foldlM (referenceBodies schema reading sub id).step progress = .ok final)
    {field : Field} {target : MessageId} {delimited : Bool}
    (type : field.type = .message target delimited) (declared : field ∈ (schema.get id).fields)
    (kept : reading.mode id field.number ≠ .drop) (singular : field.isRepeated = false)
    (once : (progress.history.occurrences field.number).length ≤ 1) :
    (final.history.occurrences field.number).length ≤ 1 := by
  have declared' := Message.plain_mem.mpr declared
  have kept' : ((Member.plain field).shape (reading.mode id)).dropped = false := by
    simp [Member.shape, kept]
  have packable : ((Member.plain field).shape (reading.mode id)).packable = false := by
    simp [Member.shape, Shape.packable, singular]
  induction inputs generalizing progress with
  | nil =>
      cases ran
      exact once
  | cons item inputs ih =>
      rw [List.foldlM_cons] at ran
      obtain ⟨middle, stepped, ran⟩ := Outcome.bind_eq_ok.mp ran
      obtain ⟨granted, deposited, put, rfl⟩ := reference_step_ok.mp stepped
      refine ih ran ?_
      rw [Progress.add, History.occurrences_append]
      cases own : item.valueOf (Member.plain field).tag with
      | none =>
          have without : deposited.1.occurrences field.number = [] := by
            rw [occurrences_eq_nil]
            rintro ⟨behaviour, listed⟩
            obtain ⟨value, raw, rfl⟩ :=
              (deposit_occurs put declared' kept' packable).mp ⟨behaviour, listed⟩
            simp [Item.valueOf, Member.tag] at own
          rw [without, List.append_nil]
          exact once
      | some value =>
          obtain ⟨raw, rfl⟩ := Item.valueOf_eq_some.mp own
          obtain ⟨behaviour, -, history⟩ := deposit_own declared' kept' put
          have fresh : progress.history.occurrences field.number = [] := by
            by_contra earlier
            simp only [refusal, Item.tag?, Option.map_some, Member.tag,
              route_member declared' kept', Member.shape_number,
              Message.member?_number declared', Member.refused, Member.isSingularMessage, type,
              FieldType.isMessage, singular] at granted
            rw [if_pos (by simpa using earlier)] at granted
            cases granted
          rw [fresh, history]
          simp [History.occurrences, Member.number]

end Records

/-! ## Map entries -/

section Entries

variable {sub sub' : MessageId → List Byte → Outcome DecodeError Behaviour} {map : MapField}

theorem entryStep_eq (entry : EntryProgress) (tag : Tag) (value : Payload) (raw : List Byte) :
    (entryBodies sub map).step entry (.record tag value raw) =
      if tag = ⟨1, map.key.wire⟩ then
        .ok { entry with key := some ((Leaf.scalar map.key).convert value) }
      else if tag = ⟨2, map.value.wire⟩ then
        match map.value with
        | .leaf kind => .ok { entry with value := some (.leaf (kind.convert value)) }
        | .message target =>
          if entry.value.isSome then .fail (.repeatedSingularMessage map.number)
          else sub target value.bytes >>= fun behaviour =>
            .ok { entry with value := some behaviour }
      else .ok entry := by
  obtain ⟨number, wire⟩ := tag
  have fields : (entryBodies sub map).fields = map.shapes := rfl
  simp only [Bodies.step, fields, route, MapField.shapes, findKey, Tag.mk.injEq]
  by_cases first : number = 1
  · subst first
    by_cases native : wire = map.key.wire
    · simp [native, entryBodies]
    · simp [native, Shape.packable]
  by_cases second : number = 2
  · subst second
    by_cases native : wire = map.value.wire
    · cases type : map.value with
      | leaf kind => simp [native, entryBodies, type]
      | message target =>
          by_cases met : entry.value.isSome <;> simp [native, entryBodies, type, met]
    · simp [native, Shape.packable]
  · have neither : List.find? (fun shape : Shape => shape.number = number)
        [{ number := 1, wire := map.key.wire, labelled := false },
          { number := 2, wire := map.value.wire, labelled := false }] = none := by
      simp [Ne.symm first, Ne.symm second]
    simp [first, second, neither, entryBodies]

/-- The entry loop of a map of leaves decodes no message. -/
theorem entryBodies_of_leaf {kind : Leaf} (type : map.value = .leaf kind) :
    entryBodies sub map = entryBodies sub' map := by
  simp only [entryBodies, type]

/-- The last key of an entry. -/
def lastKey (map : MapField) (inputs : List Item) : Option Value :=
  (inputs.filterMap (Item.valueOf ⟨1, map.key.wire⟩)).getLast?.map (Leaf.scalar map.key).convert

theorem foldlM_key {inputs : List Item} {entry final : EntryProgress}
    (ran : inputs.foldlM (entryBodies sub map).step entry = .ok final) :
    final.key = (lastKey map inputs).or entry.key := by
  induction inputs generalizing entry with
  | nil =>
      cases ran
      rfl
  | cons item inputs ih =>
      rw [List.foldlM_cons] at ran
      obtain ⟨middle, stepped, ran⟩ := Outcome.bind_eq_ok.mp ran
      rw [ih ran]
      cases item with
      | badTag failure => cases stepped
      | badValue tag failure =>
          exact absurd stepped ((@Bodies.byRecord _ _ _ 0).stops entry _ tag failure)
      | record tag value raw =>
          rw [entryStep_eq] at stepped
          by_cases isKey : tag = ⟨1, map.key.wire⟩
          · rw [if_pos isKey] at stepped
            cases stepped
            subst isKey
            have own : Item.valueOf ⟨1, map.key.wire⟩ (.record ⟨1, map.key.wire⟩ value raw) =
                some value := by simp [Item.valueOf]
            rw [lastKey, lastKey, List.filterMap_cons_some own, List.getLast?_cons]
            cases (inputs.filterMap (Item.valueOf ⟨1, map.key.wire⟩)).getLast? <;> rfl
          · have other : Item.valueOf ⟨1, map.key.wire⟩ (.record tag value raw) = none := by
              simp [Item.valueOf, isKey]
            rw [lastKey, lastKey, List.filterMap_cons_none other]
            have key : middle.key = entry.key := by
              rw [if_neg isKey] at stepped
              split at stepped
              · split at stepped
                · cases stepped
                  rfl
                · split at stepped
                  · cases stepped
                  · obtain ⟨behaviour, -, same⟩ := Outcome.bind_eq_ok.mp stepped
                    cases same
                    rfl
              · cases stepped
                rfl
            rw [key]

/-- The value of an entry of a message-valued map comes from its only value record. -/
theorem foldlM_value {target : MessageId} (type : map.value = .message target)
    {inputs : List Item} {entry final : EntryProgress}
    (ran : inputs.foldlM (entryBodies sub map).step entry = .ok final) :
    ∃ occurred, List.Forall₂ (fun (value : Payload) behaviour =>
        sub target value.bytes = .ok behaviour)
        (inputs.filterMap (Item.valueOf ⟨2, .len⟩)) occurred ∧
      final.value.toList = entry.value.toList ++ occurred := by
  have wire : map.value.wire = .len := by rw [type]; rfl
  induction inputs generalizing entry with
  | nil =>
      cases ran
      exact ⟨[], .nil, by simp⟩
  | cons item inputs ih =>
      rw [List.foldlM_cons] at ran
      obtain ⟨middle, stepped, ran⟩ := Outcome.bind_eq_ok.mp ran
      obtain ⟨occurred, records, same⟩ := ih ran
      cases item with
      | badTag failure => cases stepped
      | badValue tag failure =>
          exact absurd stepped ((@Bodies.byRecord _ _ _ 0).stops entry _ tag failure)
      | record tag value raw =>
          rw [entryStep_eq, wire] at stepped
          by_cases isValue : tag = ⟨2, .len⟩
          · subst isValue
            have own : Item.valueOf ⟨2, .len⟩ (.record ⟨2, .len⟩ value raw) = some value := by
              simp [Item.valueOf]
            rw [if_neg (by simp), if_pos rfl, type] at stepped
            dsimp only at stepped
            split at stepped
            · cases stepped
            · rename_i unmet
              obtain ⟨behaviour, decoded, next⟩ := Outcome.bind_eq_ok.mp stepped
              cases next
              have without : entry.value = none := by simpa using unmet
              refine ⟨behaviour :: occurred, ?_, by simpa [without] using same⟩
              rw [List.filterMap_cons_some own]
              exact .cons decoded records
          · have other : Item.valueOf ⟨2, .len⟩ (.record tag value raw) = none := by
              simp [Item.valueOf, isValue]
            rw [List.filterMap_cons_none other]
            refine ⟨occurred, records, ?_⟩
            rw [if_neg isValue] at stepped
            split at stepped
            · cases stepped
              exact same
            · cases stepped
              exact same

end Entries

end RapidProto
