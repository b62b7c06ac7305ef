import RapidProto.Stream.Append
import RapidProto.Tree.Correctness

/-!
# Decoding a concatenation

Decoding two byte strings in one piece is decoding one after the other.  For the streaming decoder
this is a statement about events; for the arena decoder the trees of the parts merge into the tree
of the whole, as long as no singular sub-message has records in both parts, which the decoder would
reject.
-/

namespace RapidProto

/-- The body has a record of field `number` with wire type `wire`. -/
def Occurs (body : List Byte) (number : Nat) (wire : WireType) : Prop :=
  ∃ value raw, .record ⟨number, wire⟩ value raw ∈ items body.length body

/-- The type is a message. -/
def FieldType.isMessage : FieldType → Bool
  | .leaf _ => false
  | .message _ _ => true

/-- A member of which the decoder keeps one sub-message: it rejects a second record. -/
def Member.isSingularMessage : Member → Bool
  | .plain field => field.type.isMessage && !field.isRepeated
  | .mapped _ => false
  | .choice _ _ field => field.type.isMessage

theorem Member.wire_ne_varint {member : Member} (single : member.isSingularMessage = true) :
    member.wire ≠ .varint := by
  rcases member with ⟨_, kind | ⟨_, _ | _⟩, _⟩ | _ | ⟨_, _, _, kind | ⟨_, _ | _⟩, _⟩ <;>
    simp_all [Member.isSingularMessage, Member.wire, FieldType.wire, FieldType.isMessage]

/-! ## One record of the documented reading -/

section Step

variable (schema : Schema) (reading : Reading)
  (sub : MessageId → List Byte → Outcome DecodeError Behaviour) (id : MessageId)

/-- What one value of a member decodes to. -/
def Member.occurrence (member : Member) (value : Payload) : Outcome DecodeError Behaviour :=
  match member with
  | .plain field =>
    match field.type with
    | .leaf kind => .ok (.leaf (kind.convert value))
    | .message target _ =>
      if reading.mode id field.number = .raw then .ok (.leaf (.text value.bytes))
      else sub target value.bytes
  | .mapped map => do
    let entry ← (entryBodies sub map).fold value.bytes {}
    .ok (entry.behaviour reading id map)
  | .choice _ _ field =>
    match field.type with
    | .leaf kind => .ok (.leaf (kind.convert value))
    | .message target _ => sub target value.bytes

/-- A further record of the member is rejected behind this history. -/
def Member.refused (history : History) (member : Member) : Bool :=
  member.isSingularMessage &&
    match member with
    | .plain field => history.occurrences field.number ≠ []
    | .mapped _ => false
    | .choice oneof index _ => reportedIndex reading (schema.get id) oneof history = index

/-- What an item adds to the history and to the unknown flag, whatever came before. -/
def deposit : Item → Outcome DecodeError (History × Bool)
  | .badTag failure | .badValue _ failure => .fail (.wire failure)
  | .record tag value _ =>
    match route ((schema.get id).shapes (reading.mode id)) tag with
    | .native shape =>
      match (schema.get id).member? shape.number with
      | some member => do
        let behaviour ← member.occurrence reading sub id value
        .ok ([(member.number, behaviour)], false)
      | none => .ok ([], false)
    | .packed shape =>
      match (schema.get id).member? shape.number with
      | some (.plain { type := .leaf kind, .. }) =>
        match packedValues kind value.bytes with
        | .error failure => .fail (.wire failure.within)
        | .ok values => .ok (values.map fun value => (shape.number, .leaf value), false)
      | _ => .ok ([], false)
    | .skip => .ok ([], false)
    | .unknown => .ok ([], true)

/-- The tag of an item, once it is read. -/
def Item.tag? : Item → Option Tag
  | .badTag _ => none
  | .badValue tag _ | .record tag _ _ => some tag

/-- The rejection that precedes the value. -/
def refusal (history : History) (item : Item) : Outcome DecodeError Unit :=
  match item.tag?.map (route ((schema.get id).shapes (reading.mode id))) with
  | some (.native shape) =>
    match (schema.get id).member? shape.number with
    | some member =>
      if member.refused schema reading id history then
        .fail (.repeatedSingularMessage member.number)
      else .ok ()
    | none => .ok ()
  | _ => .ok ()

end Step

/-- Add what an item deposits. -/
def Progress.add (progress : Progress) (deposited : History × Bool) : Progress :=
  ⟨progress.history ++ deposited.1, progress.unknown || deposited.2⟩

section Step

variable {schema : Schema} {reading : Reading}
  {sub : MessageId → List Byte → Outcome DecodeError Behaviour} {id : MessageId}

theorem reference_before_eq {shape : Shape} {member : Member}
    (found : (schema.get id).member? shape.number = some member) (progress : Progress) :
    ((referenceBodies schema reading sub id).native shape).before progress =
      if member.refused schema reading id progress.history then
        .fail (.repeatedSingularMessage member.number)
      else .ok progress := by
  simp only [referenceBodies, found]
  cases member with
  | mapped map => rfl
  | plain field =>
      obtain ⟨number, type, presence⟩ := field
      cases type with
      | leaf kind => rfl
      | message target delimited =>
          simp only [plainBody, Member.refused, Member.isSingularMessage, Member.number,
            FieldType.isMessage, Progress.rejectRepeated]
          by_cases repeated : presence = .repeated <;>
            by_cases fresh : progress.history.occurrences number = [] <;>
              simp [Field.isRepeated, repeated, fresh]
  | choice oneof index field =>
      obtain ⟨number, type, presence⟩ := field
      cases type with
      | leaf kind => rfl
      | message target delimited =>
          simp [choiceBody, Member.refused, Member.isSingularMessage, Member.number,
            FieldType.isMessage]

theorem reference_after_eq {shape : Shape} {member : Member}
    (found : (schema.get id).member? shape.number = some member) (progress : Progress)
    (value : Payload) :
    ((referenceBodies schema reading sub id).native shape).after progress value =
      (member.occurrence reading sub id value >>= fun behaviour =>
        .ok (progress.push member.number behaviour)) := by
  simp only [referenceBodies, found]
  cases member with
  | mapped map =>
      simp only [mappedBody, Member.occurrence, Outcome.bind_assoc]
      rfl
  | plain field =>
      simp only [plainBody, Member.occurrence]
      cases field.type with
      | leaf kind => rfl
      | message target delimited =>
          simp only []
          split <;> rfl
  | choice oneof index field =>
      simp only [choiceBody, Member.occurrence]
      cases field.type <;> rfl

/-- A step of the reading checks for a rejection and then adds what the item deposits. -/
theorem reference_step_eq (progress : Progress) (item : Item) :
    (referenceBodies schema reading sub id).step progress item =
      (refusal schema reading id progress.history item >>= fun _ =>
        deposit schema reading sub id item >>= fun deposited => .ok (progress.add deposited)) := by
  have fields : (referenceBodies schema reading sub id).fields =
    (schema.get id).shapes (reading.mode id) := rfl
  cases item with
  | badTag failure => rfl
  | badValue tag failure =>
      simp only [Bodies.step, refusal, Item.tag?, Option.map_some, deposit, fields]
      cases routed : route ((schema.get id).shapes (reading.mode id)) tag with
      | native shape =>
          obtain ⟨member, declared, rfl⟩ := List.mem_map.mp (route_mem (.inl routed))
          have found := Message.member?_number declared
          simp only [@reference_before_eq _ _ _ _ (member.shape (reading.mode id)) _
            (by rw [Member.shape_number]; exact found), Member.shape_number, found]
          split <;> rfl
      | packed shape => rfl
      | skip => rfl
      | unknown => rfl
  | record tag value raw =>
      simp only [Bodies.step, refusal, Item.tag?, Option.map_some, deposit, fields]
      cases routed : route ((schema.get id).shapes (reading.mode id)) tag with
      | native shape =>
          obtain ⟨member, declared, rfl⟩ := List.mem_map.mp (route_mem (.inl routed))
          have found : (schema.get id).member? (member.shape (reading.mode id)).number =
              some member := by
            rw [Member.shape_number]
            exact Message.member?_number declared
          simp only [reference_before_eq found, reference_after_eq found, found]
          split
          · rfl
          · simp only [Outcome.ok_bind, Outcome.bind_assoc, Progress.push, Progress.add,
              Bool.or_false]
      | packed shape =>
          simp only [referenceBodies, Outcome.ok_bind]
          cases (schema.get id).member? shape.number with
          | none => simp [Progress.add]
          | some member =>
              rcases member with ⟨number, kind | ⟨target, delimited⟩, presence⟩ | map |
                ⟨oneof, index, field⟩
              · simp only []
                cases packedValues kind value.bytes with
                | error failure => rfl
                | ok values => simp [Progress.pushAll, Progress.add]
              all_goals simp [Progress.add]
      | skip => simp [Progress.add]
      | unknown => simp [Progress.add, referenceBodies]

theorem reference_step_ok {progress progress' : Progress} {item : Item} :
    (referenceBodies schema reading sub id).step progress item = .ok progress' ↔
      refusal schema reading id progress.history item = .ok () ∧
        ∃ deposited, deposit schema reading sub id item = .ok deposited ∧
          progress' = progress.add deposited := by
  rw [reference_step_eq, Outcome.bind_eq_ok]
  constructor
  · rintro ⟨⟨⟩, granted, rest⟩
    obtain ⟨deposited, put, same⟩ := Outcome.bind_eq_ok.mp rest
    cases same
    exact ⟨granted, deposited, put, rfl⟩
  · rintro ⟨granted, deposited, put, rfl⟩
    exact ⟨(), granted, by rw [put]; rfl⟩

/-- A record of a kept member's own wire type goes to the member's body. -/
theorem route_member {message : Message} {mode : Nat → FieldMode} {member : Member}
    (declared : member ∈ message.members) (kept : (member.shape mode).dropped = false) :
    route (message.shapes mode) ⟨member.number, member.wire⟩ = .native (member.shape mode) := by
  have found : findKey Shape.number member.number (message.shapes mode) =
      some (member.shape mode) := by
    have listed : member.shape mode ∈ message.shapes mode := List.mem_map_of_mem declared
    have keyed := findKey_of_mem (message.shapes_distinct mode) listed
    rwa [Member.shape_number] at keyed
  simp [route, found, kept]

/-- A member that is not packed is deposited by its own records and by no others. -/
theorem deposit_occurs {item : Item} {deposited : History × Bool}
    (put : deposit schema reading sub id item = .ok deposited) {member : Member}
    (declared : member ∈ (schema.get id).members)
    (kept : (member.shape (reading.mode id)).dropped = false)
    (single : (member.shape (reading.mode id)).packable = false) :
    (∃ behaviour, (member.number, behaviour) ∈ deposited.1) ↔
      ∃ value raw, item = .record ⟨member.number, member.wire⟩ value raw := by
  cases item with
  | badTag failure => cases put
  | badValue tag failure => cases put
  | record tag value raw =>
      simp only [deposit] at put
      have own : tag = ⟨member.number, member.wire⟩ →
          route ((schema.get id).shapes (reading.mode id)) tag =
            .native (member.shape (reading.mode id)) := by
        rintro rfl
        exact route_member declared kept
      cases routed : route ((schema.get id).shapes (reading.mode id)) tag with
      | native shape =>
          obtain ⟨other, declared', rfl⟩ := List.mem_map.mp (route_mem (.inl routed))
          have tagged := route_tag routed
          simp only [routed, Member.shape_number, Message.member?_number declared'] at put tagged
          obtain ⟨behaviour, -, same⟩ := Outcome.bind_eq_ok.mp put
          cases same
          simp only [List.mem_singleton, Prod.mk.injEq, Item.record.injEq]
          constructor
          · rintro ⟨_, same, -⟩
            rw [Message.member_inj declared declared' same, ← Member.shape_wire (reading.mode id)]
            exact ⟨value, raw, tagged, rfl, rfl⟩
          · rintro ⟨_, _, same, -, -⟩
            rw [tagged] at same
            exact ⟨behaviour, (Tag.mk.inj same).1.symm, rfl⟩
      | packed shape =>
          obtain ⟨other, declared', rfl⟩ := List.mem_map.mp (route_mem (.inr routed))
          have differ : member.number ≠ other.number := by
            intro same
            have packable := route_packable routed
            rw [← Message.member_inj declared declared' same, single] at packable
            cases packable
          have foreign : ∀ event ∈ deposited.1, event.1 = other.number := by
            simp only [routed, Member.shape_number] at put
            split at put
            · split at put
              · cases put
              · cases put
                simp
            · cases put
              simp
          constructor
          · rintro ⟨behaviour, listed⟩
            exact absurd (foreign _ listed) differ
          · rintro ⟨_, _, same⟩
            rw [own (Item.record.inj same).1] at routed
            cases routed
      | skip =>
          simp only [routed] at put
          cases put
          constructor
          · rintro ⟨_, listed⟩
            cases listed
          · rintro ⟨_, _, same⟩
            rw [own (Item.record.inj same).1] at routed
            cases routed
      | unknown =>
          simp only [routed] at put
          cases put
          constructor
          · rintro ⟨_, listed⟩
            cases listed
          · rintro ⟨_, _, same⟩
            rw [own (Item.record.inj same).1] at routed
            cases routed

theorem foldlM_occurs {inputs : List Item} {progress final : Progress}
    (ran : inputs.foldlM (referenceBodies schema reading sub id).step progress = .ok final)
    {member : Member} (declared : member ∈ (schema.get id).members)
    (kept : (member.shape (reading.mode id)).dropped = false)
    (single : (member.shape (reading.mode id)).packable = false) :
    (∃ behaviour, (member.number, behaviour) ∈ final.history) ↔
      (∃ behaviour, (member.number, behaviour) ∈ progress.history) ∨
        ∃ value raw, .record ⟨member.number, member.wire⟩ value raw ∈ inputs := by
  induction inputs generalizing progress with
  | nil =>
      cases ran
      simp
  | cons item inputs ih =>
      rw [List.foldlM_cons] at ran
      obtain ⟨middle, stepped, ran⟩ := Outcome.bind_eq_ok.mp ran
      obtain ⟨-, deposited, put, rfl⟩ := reference_step_ok.mp stepped
      have here := deposit_occurs put declared kept single
      rw [ih ran]
      simp only [Progress.add, List.mem_append, exists_or, here, List.mem_cons, or_assoc]
      simp only [eq_comm]

/-- A member that is not packed occurred in the history iff the body has a record of it. -/
theorem fold_occurs {body : List Byte} {progress : Progress}
    (ran : (referenceBodies schema reading sub id).fold body {} = .ok progress) {member : Member}
    (declared : member ∈ (schema.get id).members)
    (kept : (member.shape (reading.mode id)).dropped = false)
    (single : (member.shape (reading.mode id)).packable = false) :
    (∃ behaviour, (member.number, behaviour) ∈ progress.history) ↔
      Occurs body member.number member.wire := by
  rw [foldlM_occurs ran declared kept single]
  simp [Occurs]

end Step

/-! ## Histories of a concatenation -/

theorem mem_occurrences {number : Nat} {behaviour : Behaviour} {history : History} :
    behaviour ∈ history.occurrences number ↔ (number, behaviour) ∈ history := by
  simp [History.occurrences]

theorem occurrences_eq_nil {number : Nat} {history : History} :
    history.occurrences number = [] ↔ ¬ ∃ behaviour, (number, behaviour) ∈ history := by
  simp only [List.eq_nil_iff_forall_not_mem, mem_occurrences, not_exists]

theorem Message.current_append (message : Message) (oneof : Nat) (first second : History) :
    message.current oneof (first ++ second) =
      (message.current oneof second).or (message.current oneof first) := by
  simp [Message.current, List.filterMap_append, List.getLast?_append]

/-- The current member of a oneof is one of its members, and occurred. -/
theorem Message.current_member {message : Message} {oneof index : Nat} {history : History}
    {held : Behaviour} (current : message.current oneof history = some (index, held)) :
    ∃ field, .choice oneof index field ∈ message.members ∧ (field.number, held) ∈ history := by
  obtain ⟨⟨number, behaviour⟩, listed, chosen⟩ :=
    List.mem_filterMap.mp (List.mem_of_getLast? current)
  obtain ⟨found, picked, same⟩ := Option.map_eq_some_iff.mp chosen
  cases same
  rw [Message.choiceIndex] at picked
  split at picked
  · rename_i owner index' field declared
    split at picked
    · rename_i own
      cases picked
      subst own
      obtain ⟨mem, rfl⟩ := Message.mem_of_member? declared
      exact ⟨field, mem, listed⟩
    · cases picked
  · cases picked

theorem Message.current_eq_none {message : Message} {oneof : Nat} {history : History} :
    message.current oneof history = none ↔
      ∀ index field, .choice oneof index field ∈ message.members →
        ¬ ∃ behaviour, (field.number, behaviour) ∈ history := by
  constructor
  · rintro unset index field declared ⟨behaviour, listed⟩
    have own : message.choiceIndex oneof field.number = some index := by
      have found := Message.member?_number declared
      simp only [Member.number] at found
      simp [Message.choiceIndex, found]
    simp only [Message.current, List.getLast?_eq_none_iff, List.filterMap_eq_nil_iff] at unset
    simpa [own] using unset _ listed
  · intro never
    by_contra set
    obtain ⟨⟨index, held⟩, current⟩ := Option.ne_none_iff_exists'.mp set
    obtain ⟨field, declared, listed⟩ := Message.current_member current
    exact never index field declared ⟨held, listed⟩

/-- Members of a oneof at the same position are the same. -/
theorem Message.choice_inj {message : Message} {oneof index : Nat} {field other : Field}
    (declared : .choice oneof index field ∈ message.members)
    (declared' : .choice oneof index other ∈ message.members) : field = other := by
  obtain ⟨-, members, listed, held⟩ := Message.choice_mem declared
  obtain ⟨-, members', listed', held'⟩ := Message.choice_mem declared'
  rw [listed] at listed'
  cases listed'
  rw [held] at held'
  exact Option.some.inj held'

/-- No singular sub-message has records in both bodies. -/
def Message.Separate (message : Message) (x y : List Byte) : Prop :=
  ∀ member ∈ message.members, member.isSingularMessage = true →
    Occurs x member.number member.wire → ¬ Occurs y member.number member.wire

/-- Every oneof that can hold a message has fewer than 256 members. -/
def Message.SmallOneofs (message : Message) : Prop :=
  ∀ members ∈ message.oneofs, (∃ field ∈ members, field.type.isMessage = true) →
    members.length < 256

section Append

variable {schema : Schema} {reading : Reading}
  {sub : MessageId → List Byte → Outcome DecodeError Behaviour} {id : MessageId}

/-- A sub-message with records in neither place before is not rejected. -/
theorem refused_append (small : (schema.get id).SmallOneofs)
    (faithful : ∀ index, index < 256 → reading.narrow index = index) {member : Member}
    (declared : member ∈ (schema.get id).members) {earlier history : History}
    (fresh : member.isSingularMessage = true → ¬ ∃ behaviour, (member.number, behaviour) ∈ earlier)
    (granted : member.refused schema reading id history = false) :
    member.refused schema reading id (earlier ++ history) = false := by
  by_cases single : member.isSingularMessage = true
  · cases member with
    | mapped map => cases single
    | plain field =>
        simp only [Member.refused, single, Bool.true_and, ne_eq, decide_not,
          Bool.not_eq_eq_eq_not, Bool.not_false, decide_eq_true_eq] at granted ⊢
        rw [History.occurrences_append, granted, List.append_nil]
        exact occurrences_eq_nil.mpr (fresh single)
    | choice oneof index field =>
        simp only [Member.refused, single, Bool.true_and, decide_eq_false_iff_not] at granted ⊢
        rw [reportedIndex] at granted ⊢
        rw [Message.current_append]
        cases later : (schema.get id).current oneof history with
        | some pair => simpa [later] using granted
        | none =>
            cases before : (schema.get id).current oneof earlier with
            | none => simpa [later, before] using granted
            | some pair =>
                obtain ⟨index', held⟩ := pair
                obtain ⟨other, declared', listed⟩ := Message.current_member before
                obtain ⟨-, members, found, at'⟩ := Message.choice_mem declared
                have short := small members (List.mem_of_getElem? found)
                  ⟨field, List.mem_of_getElem? at', single⟩
                obtain ⟨members', found', -, inside⟩ := Message.current_index before
                rw [found] at found'
                cases found'
                simp only [Option.none_or, faithful index' (by omega)]
                rintro rfl
                cases Message.choice_inj declared declared'
                exact fresh single ⟨held, listed⟩
  · simp [Member.refused, single]

/-- The rejections of the second body are the same behind the first. -/
theorem refusal_append (small : (schema.get id).SmallOneofs)
    (faithful : ∀ index, index < 256 → reading.narrow index = index) {x y : List Byte}
    (separate : (schema.get id).Separate x y) {before : Progress}
    (ran : (referenceBodies schema reading sub id).fold x {} = .ok before) {item : Item}
    (met : item ∈ items y.length y) (whole : item.isRecord = true) {history : History}
    (granted : refusal schema reading id history item = .ok ()) :
    refusal schema reading id (before.history ++ history) item = .ok () := by
  cases item with
  | badTag failure => cases whole
  | badValue tag failure => cases whole
  | record tag value raw =>
      simp only [refusal, Item.tag?, Option.map_some] at granted ⊢
      cases routed : route ((schema.get id).shapes (reading.mode id)) tag with
      | native shape =>
          obtain ⟨member, declared, rfl⟩ := List.mem_map.mp (route_mem (.inl routed))
          have tagged := route_tag routed
          simp only [routed, Member.shape_number, Member.shape_wire,
            Message.member?_number declared] at granted tagged ⊢
          subst tagged
          split at granted
          · cases granted
          rename_i kept
          rw [if_neg]
          rw [refused_append small faithful declared ?_ (by simpa using kept)]
          · simp
          rintro single occurred
          have packable : (member.shape (reading.mode id)).packable = false := by
            cases member <;> simp_all [Member.shape, Shape.packable, Member.isSingularMessage]
          exact separate member declared single
            ((fold_occurs ran declared (route_declared (.inl routed)) packable).mp occurred)
            ⟨value, raw, met⟩
      | packed shape => rfl
      | skip => rfl
      | unknown => rfl

/-- The reading of a concatenation goes through both parts, and the histories are joined. -/
theorem fold_append (small : (schema.get id).SmallOneofs)
    (faithful : ∀ index, index < 256 → reading.narrow index = index) {x y : List Byte}
    (separate : (schema.get id).Separate x y) {before after : Progress}
    (first : (referenceBodies schema reading sub id).fold x {} = .ok before)
    (second : (referenceBodies schema reading sub id).fold y {} = .ok after) :
    (referenceBodies schema reading sub id).fold (x ++ y) {} =
      .ok (before.add (after.history, after.unknown)) := by
  have whole := fun item met => @Bodies.isRecord_of_foldlM _ _ _ _ _ _ second item met
  obtain ⟨final, ran, rfl⟩ := @Outcome.foldlM_follows _ _ _ _ _
    (fun progress progress' => progress' = before.add (progress.history, progress.unknown)) _
    (referenceBodies schema reading sub id).step _
    (fun item met progress progress' next relates stepped => by
      subst relates
      obtain ⟨granted, deposited, put, rfl⟩ := reference_step_ok.mp stepped
      have granted' := refusal_append small faithful separate first met (whole item met) granted
      refine ⟨_, reference_step_ok.mpr ⟨granted', deposited, put, rfl⟩, ?_⟩
      simp [Progress.add, Bool.or_assoc])
    _ _ before (by simp [Progress.add]) second
  rw [Bodies.fold, Bodies.foldlM_append first, items_add,
    List.map_congr_left (g := fun item => item), List.map_id']
  · exact ran
  · intro item met
    exact Item.shift_record (whole item met) x.length

/-- Nothing that is required is missing behind more records. -/
theorem firstMissing_append {message : Message} {earlier history : History}
    (complete : firstMissing message earlier = none) :
    firstMissing message (earlier ++ history) = none := by
  simp only [firstMissing, Option.map_eq_none_iff, List.find?_eq_none, decide_eq_true_eq,
    not_and] at complete ⊢
  intro field declared required
  rw [History.occurrences_append, List.append_eq_nil_iff]
  exact fun missing => complete field declared required missing.1

/-! ## The merged tree -/

/-- What is read behind one accessor call. -/
def Behaviour.behind (behaviour : Behaviour) (step : Step) : Behaviour :=
  fun path => behaviour (step :: path)

/-- `merged` is the tree of `first` with the tree of `second`, decoded from `y`, put over it. -/
structure Message.Merges (message : Message) (mode : Nat → FieldMode) (y : List Byte)
    (first second merged : Behaviour) : Prop where
  /-- Repeated fields are concatenated. -/
  repeated : ∀ field ∈ message.fields, field.isRepeated = true → mode field.number ≠ .drop →
    ∃ elements elements', first.behind (.field field.number) = .list elements ∧
      second.behind (.field field.number) = .list elements' ∧
      merged.behind (.field field.number) = .list (elements ++ elements')
  /-- Maps are concatenated. -/
  mapped : ∀ map ∈ message.maps, mode map.number ≠ .drop →
    ∃ entries entries', first.behind (.field map.number) = .map entries ∧
      second.behind (.field map.number) = .map entries' ∧
      merged.behind (.field map.number) = .map (entries ++ entries')
  /-- A singular field that occurs in the second part reads as there. -/
  later : ∀ field ∈ message.fields, field.isRepeated = false →
    Occurs y field.number field.type.wire →
      merged.behind (.field field.number) = second.behind (.field field.number)
  /-- Any other singular field reads as in the first part. -/
  earlier : ∀ field ∈ message.fields, field.isRepeated = false →
    ¬ Occurs y field.number field.type.wire →
      merged.behind (.field field.number) = first.behind (.field field.number)
  /-- A oneof of which a member occurs in the second part reads as there. -/
  choiceLater : ∀ oneof members, message.oneofs[oneof]? = some members →
    (∃ field ∈ members, Occurs y field.number field.type.wire) →
      merged.behind (.oneof oneof) = second.behind (.oneof oneof)
  /-- Any other oneof reads as in the first part. -/
  choiceEarlier : ∀ oneof members, message.oneofs[oneof]? = some members →
    (¬ ∃ field ∈ members, Occurs y field.number field.type.wire) →
      merged.behind (.oneof oneof) = first.behind (.oneof oneof)
  /-- Undeclared records were seen if they were in either part. -/
  unknownFields : ∀ seen seen', first.behind .unknownFields = .leaf (.flag seen) →
    second.behind .unknownFields = .leaf (.flag seen') →
      merged.behind .unknownFields = .leaf (.flag (seen || seen'))

variable {first second merged : Behaviour}

theorem behind_repeated {message : Message} {field : Field} {mode : Nat → FieldMode}
    (declared : field ∈ message.fields) (repeated : field.isRepeated = true)
    (kept : mode field.number ≠ .drop) (narrow : Nat → Nat) (history : History)
    (unknown : Option Bool) :
    (message.behaviour mode narrow history unknown).behind (.field field.number) =
      .list (history.occurrences field.number) := by
  have found := Message.member?_number (Message.plain_mem.mpr declared)
  simp only [Member.number] at found
  funext path
  simp [Behaviour.behind, Message.behaviour, kept, found, Field.behaviour, repeated]

theorem behind_mapped {message : Message} {map : MapField} {mode : Nat → FieldMode}
    (declared : map ∈ message.maps) (kept : mode map.number ≠ .drop) (narrow : Nat → Nat)
    (history : History) (unknown : Option Bool) :
    (message.behaviour mode narrow history unknown).behind (.field map.number) =
      .map (history.occurrences map.number) := by
  have found := Message.member?_number (Message.mapped_mem.mpr declared)
  simp only [Member.number] at found
  funext path
  simp [Behaviour.behind, Message.behaviour, kept, found]

/-- A singular field is known from its last occurrence. -/
theorem behind_singular {message : Message} {field : Field} {mode : Nat → FieldMode}
    (declared : field ∈ message.fields) (single : field.isRepeated = false)
    {narrow : Nat → Nat} {history history' : History} {unknown unknown' : Option Bool}
    (same : mode field.number ≠ .drop → (history.occurrences field.number).getLast? =
      (history'.occurrences field.number).getLast?) :
    (message.behaviour mode narrow history unknown).behind (.field field.number) =
      (message.behaviour mode narrow history' unknown').behind (.field field.number) := by
  have found := Message.member?_number (Message.plain_mem.mpr declared)
  simp only [Member.number] at found
  funext path
  simp only [Behaviour.behind, Message.behaviour, found, Field.behaviour, single,
    Bool.false_eq_true, if_false]
  split
  · rfl
  · rename_i kept
    rw [same kept]

/-- A oneof is known from its current member. -/
theorem behind_choice {message : Message} {mode : Nat → FieldMode} {narrow : Nat → Nat}
    {oneof : Nat} {history history' : History} {unknown unknown' : Option Bool}
    (same : message.current oneof history = message.current oneof history') :
    (message.behaviour mode narrow history unknown).behind (.oneof oneof) =
      (message.behaviour mode narrow history' unknown').behind (.oneof oneof) := by
  funext path
  simp only [Behaviour.behind, Message.behaviour, same]

/-- A singular field of the second part occurred there iff it has a record there. -/
theorem singular_occurs {y : List Byte} {after : Progress}
    (ran : (referenceBodies schema reading sub id).fold y {} = .ok after) {field : Field}
    (declared : field ∈ (schema.get id).fields) (single : field.isRepeated = false)
    (kept : reading.mode id field.number ≠ .drop) :
    after.history.occurrences field.number ≠ [] ↔ Occurs y field.number field.type.wire := by
  have shaped := fold_occurs ran (Message.plain_mem.mpr declared)
    (by simpa [Member.shape] using kept) (by simp [Member.shape, Shape.packable, single])
  rw [Ne, occurrences_eq_nil, not_not]
  exact shaped

theorem choice_occurs {y : List Byte} {after : Progress}
    (ran : (referenceBodies schema reading sub id).fold y {} = .ok after) {oneof : Nat}
    {members : List Field} (listed : (schema.get id).oneofs[oneof]? = some members) :
    (schema.get id).current oneof after.history ≠ none ↔
      ∃ field ∈ members, Occurs y field.number field.type.wire := by
  have shaped : ∀ index field, .choice oneof index field ∈ (schema.get id).members →
      ((∃ behaviour, (field.number, behaviour) ∈ after.history) ↔
        Occurs y field.number field.type.wire) :=
    fun index field declared => fold_occurs ran declared rfl rfl
  constructor
  · intro set
    obtain ⟨⟨index, held⟩, current⟩ := Option.ne_none_iff_exists'.mp set
    obtain ⟨field, declared, occurred⟩ := Message.current_member current
    obtain ⟨-, members', listed', at'⟩ := Message.choice_mem declared
    rw [listed] at listed'
    cases listed'
    exact ⟨field, List.mem_of_getElem? at', (shaped index field declared).mp ⟨held, occurred⟩⟩
  · rintro ⟨field, held, occurs⟩ unset
    obtain ⟨index, declared⟩ := Message.mem_choice listed held
    exact Message.current_eq_none.mp unset index field declared
      ((shaped index field declared).mpr occurs)

/-- What the unknown-fields accessor of a message answers. -/
def Reading.unknownAnswer (reading : Reading) (id : MessageId) (progress : Progress) :
    Option Bool :=
  if reading.tracksUnknown id then some progress.unknown else none

theorem behind_unknown {message : Message} {mode : Nat → FieldMode} {narrow : Nat → Nat}
    {history : History} {unknown : Option Bool} {seen : Bool} :
    (message.behaviour mode narrow history unknown).behind .unknownFields = .leaf (.flag seen) ↔
      unknown = some seen := by
  constructor
  · intro same
    have head := congrFun same []
    cases unknown with
    | none => cases head
    | some found => simpa [Behaviour.behind, Message.behaviour, Behaviour.leaf] using head
  · rintro rfl
    rfl

/-- The behaviour of the joined histories is the merge. -/
theorem behaviour_merges {y : List Byte} {before after : Progress}
    (ran : (referenceBodies schema reading sub id).fold y {} = .ok after) (narrow : Nat → Nat) :
    (schema.get id).Merges (reading.mode id) y
      ((schema.get id).behaviour (reading.mode id) narrow before.history
        (reading.unknownAnswer id before))
      ((schema.get id).behaviour (reading.mode id) narrow after.history
        (reading.unknownAnswer id after))
      ((schema.get id).behaviour (reading.mode id) narrow (before.history ++ after.history)
        (reading.unknownAnswer id (before.add (after.history, after.unknown))))
      where
  repeated field declared repeated kept :=
    ⟨_, _, behind_repeated declared repeated kept narrow before.history _,
      behind_repeated declared repeated kept narrow after.history _, by
        rw [behind_repeated declared repeated kept, History.occurrences_append]⟩
  mapped map declared kept :=
    ⟨_, _, behind_mapped declared kept narrow before.history _,
      behind_mapped declared kept narrow after.history _, by
        rw [behind_mapped declared kept, History.occurrences_append]⟩
  later field declared single occurs := by
    refine behind_singular declared single fun kept => ?_
    have occurring := (singular_occurs ran declared single kept).mpr occurs
    rw [History.occurrences_append, List.getLast?_append_of_ne_nil _ occurring]
  earlier field declared single absent := by
    refine behind_singular declared single fun kept => ?_
    have lacking := mt (singular_occurs ran declared single kept).mp absent
    rw [History.occurrences_append, not_not.mp lacking, List.append_nil]
  choiceLater oneof members listed occurs := by
    apply behind_choice
    obtain ⟨pair, current⟩ := Option.ne_none_iff_exists'.mp ((choice_occurs ran listed).mpr occurs)
    rw [Message.current_append, current, Option.some_or]
  choiceEarlier oneof members listed absent := by
    apply behind_choice
    have unset := not_not.mp (mt (choice_occurs ran listed).mp absent)
    rw [Message.current_append, unset, Option.none_or]
  unknownFields seen seen' first second := by
    rw [behind_unknown] at first second ⊢
    cases tracks : reading.tracksUnknown id <;>
      simp_all [Reading.unknownAnswer, Progress.add]

/-- Inversion of a successful reading. -/
theorem meaning_eq_ok {frames depth : Nat} {body : List Byte} {behaviour : Behaviour} :
    meaning schema reading (frames + 1) depth id body = .ok behaviour ↔
      ¬ kMaxDecodeDepth < depth ∧ ∃ progress,
        (referenceBodies schema reading (meaning schema reading frames (depth + 1)) id).fold body {} =
          .ok progress ∧
        firstMissing (schema.get id) progress.history = none ∧
        behaviour = (schema.get id).behaviour (reading.mode id) reading.narrow progress.history
          (reading.unknownAnswer id progress) := by
  rw [meaning]
  by_cases deep : kMaxDecodeDepth < depth
  · simp [deep]
  rw [if_neg deep, Outcome.bind_eq_ok]
  refine Iff.trans (exists_congr fun progress => and_congr_right fun _ => ?_)
    (and_iff_right deep).symm
  cases complete : firstMissing (schema.get id) progress.history with
  | some number => simp
  | none =>
      simp only [Outcome.ok.injEq, true_and, Reading.unknownAnswer]
      exact eq_comm

/-- Two readings that succeed and share no singular sub-message merge. -/
theorem meaning_append (small : (schema.get id).SmallOneofs)
    (faithful : ∀ index, index < 256 → reading.narrow index = index) {frames depth : Nat}
    {x y : List Byte} (separate : (schema.get id).Separate x y) {first second : Behaviour}
    (readX : meaning schema reading (frames + 1) depth id x = .ok first)
    (readY : meaning schema reading (frames + 1) depth id y = .ok second) :
    ∃ merged, meaning schema reading (frames + 1) depth id (x ++ y) = .ok merged ∧
      (schema.get id).Merges (reading.mode id) y first second merged := by
  obtain ⟨shallow, before, ranX, complete, rfl⟩ := meaning_eq_ok.mp readX
  obtain ⟨-, after, ranY, -, rfl⟩ := meaning_eq_ok.mp readY
  refine ⟨_, meaning_eq_ok.mpr ⟨shallow, _, fold_append small faithful separate ranX ranY,
    firstMissing_append complete, rfl⟩, ?_⟩
  exact behaviour_merges ranY reading.narrow

end Append

/-! ## Both decoders -/

section Decoders

variable {schema : Schema} {plan : Plan} {allocator : Allocator} {id : MessageId}

/-- A tree that was decoded reads as documented. -/
theorem meaning_of_arenaDecode {input : List Byte} {arena arena' : allocator.State} {cell : Cell}
    (decoded : arenaDecode schema plan allocator id input arena = .ok (cell, arena')) :
    meaning schema (plan.reading schema) kDecodeFrames 0 id input =
      .ok (cell.behaviour schema plan (.message id)) := by
  have fits : input.length ≤ kUint32Max := by
    by_contra large
    rw [arenaDecode, if_pos (by omega)] at decoded
    cases decoded
  have refines := arenaDecode_refines schema plan id fits arena
  rw [decoded] at refines
  obtain ⟨behaviour, meant, rfl⟩ := refines
  exact meant

/-- While memory lasts, what reads well is decoded. -/
theorem arenaDecode_of_meaning {input : List Byte} (fits : input.length ≤ kUint32Max)
    {arena : allocator.State}
    (lasting : arenaDecode schema plan allocator id input arena ≠ .fail .outOfMemory)
    {behaviour : Behaviour}
    (meant : meaning schema (plan.reading schema) kDecodeFrames 0 id input = .ok behaviour) :
    ∃ cell arena', arenaDecode schema plan allocator id input arena = .ok (cell, arena') ∧
      cell.behaviour schema plan (.message id) = behaviour := by
  have refines := arenaDecode_refines schema plan id fits arena
  rw [meant] at refines
  cases decoded : arenaDecode schema plan allocator id input arena with
  | ok result =>
      rw [decoded] at refines
      obtain ⟨behaviour', same, reads⟩ := refines
      cases same
      exact ⟨result.1, result.2, rfl, reads⟩
  | fail error =>
      rw [decoded] at refines lasting
      rcases refines with failed | exhausted
      · cases failed
      · exact absurd (congrArg _ exhausted.1) lasting
  | outside => rw [decoded] at refines; exact refines.elim
  | spin => rw [decoded] at refines; exact refines.elim

theorem arenaDecode_append (small : (schema.get id).SmallOneofs) {x y : List Byte}
    (separate : (schema.get id).Separate x y) (fits : (x ++ y).length ≤ kUint32Max)
    {arenaX arenaX' arenaY arenaY' arena : allocator.State} {first second : Cell}
    (decodedX : arenaDecode schema plan allocator id x arenaX = .ok (first, arenaX'))
    (decodedY : arenaDecode schema plan allocator id y arenaY = .ok (second, arenaY'))
    (lasting : arenaDecode schema plan allocator id (x ++ y) arena ≠ .fail .outOfMemory) :
    ∃ merged arena', arenaDecode schema plan allocator id (x ++ y) arena = .ok (merged, arena') ∧
      (schema.get id).Merges (plan.mode id) y (first.behaviour schema plan (.message id))
        (second.behaviour schema plan (.message id))
        (merged.behaviour schema plan (.message id)) := by
  obtain ⟨merged, meant, merges⟩ := meaning_append
    small (fun index inside => Nat.mod_eq_of_lt inside) separate
    (meaning_of_arenaDecode decodedX) (meaning_of_arenaDecode decodedY)
  obtain ⟨cell, arena', decoded, rfl⟩ := arenaDecode_of_meaning fits lasting meant
  exact ⟨cell, arena', decoded, merges⟩

/-- Decoding is independent of where the input is split.  A streaming decode of `x ++ y` whose part
`x` is decoded to its end hands over the events of `x` and goes on as a decode of `y` does, with the
offsets relative to the body shifted.  An arena decode of `x ++ y` yields the merge of the trees of
`x` and `y`. -/
theorem decode_append (schema : Schema) (id : MessageId) (x y : List Byte) :
    (∀ (σ : Type) (callbacks : Callbacks σ) (state final : σ) (events : List Event),
      transcript schema id callbacks state x = some ⟨events, final, none⟩ →
      ∃ later whole, transcript schema id callbacks final y = some later ∧
        transcript schema id callbacks state (x ++ y) = some whole ∧
        whole.Continues later events x.length) ∧
    (∀ (plan : Plan) (allocator : Allocator)
      (arenaX arenaX' arenaY arenaY' arena : allocator.State) (first second : Cell),
      (schema.get id).SmallOneofs → (schema.get id).Separate x y →
      (x ++ y).length ≤ kUint32Max →
      arenaDecode schema plan allocator id x arenaX = .ok (first, arenaX') →
      arenaDecode schema plan allocator id y arenaY = .ok (second, arenaY') →
      arenaDecode schema plan allocator id (x ++ y) arena ≠ .fail .outOfMemory →
      ∃ merged arena', arenaDecode schema plan allocator id (x ++ y) arena = .ok (merged, arena') ∧
        (schema.get id).Merges (plan.mode id) y (first.behaviour schema plan (.message id))
          (second.behaviour schema plan (.message id))
          (merged.behaviour schema plan (.message id))) :=
  ⟨fun _ _ _ _ _ decoded => transcript_append decoded,
    fun _ _ _ _ _ _ _ _ _ small separate fits decodedX decodedY lasting =>
      arenaDecode_append small separate fits decodedX decodedY lasting⟩

/-- A number, and then the number again with a packed run. -/
theorem decode_append_sample :
    ∃ first second merged arenaX arenaY arena,
      arenaDecode sampleSchema samplePlan unboundedArena 0 [0x08, 0x07] (0 : Nat) =
        .ok (first, arenaX) ∧
      arenaDecode sampleSchema samplePlan unboundedArena 0 [0x08, 0x09, 0x12, 0x02, 0x01, 0x02]
        (0 : Nat) = .ok (second, arenaY) ∧
      arenaDecode sampleSchema samplePlan unboundedArena 0
        ([0x08, 0x07] ++ [0x08, 0x09, 0x12, 0x02, 0x01, 0x02]) (0 : Nat) = .ok (merged, arena) ∧
      (sampleSchema.get 0).Merges (samplePlan.mode 0) [0x08, 0x09, 0x12, 0x02, 0x01, 0x02]
        (first.behaviour sampleSchema samplePlan (.message 0))
        (second.behaviour sampleSchema samplePlan (.message 0))
        (merged.behaviour sampleSchema samplePlan (.message 0)) := by
  have separate : (sampleSchema.get 0).Separate [0x08, 0x07]
      [0x08, 0x09, 0x12, 0x02, 0x01, 0x02] := by
    rintro member - single ⟨value, raw, met⟩
    have walked : items 2 [0x08, 0x07] = [.record ⟨1, .varint⟩ (.varint 7) [0x07]] := rfl
    rw [show ([0x08, 0x07] : List Byte).length = 2 from rfl, walked, List.mem_singleton] at met
    exact absurd (Tag.mk.inj (Item.record.inj met).1).2 (Member.wire_ne_varint single)
  obtain ⟨merged, arena, decoded, merges⟩ := (decode_append sampleSchema 0 [0x08, 0x07]
    [0x08, 0x09, 0x12, 0x02, 0x01, 0x02]).2 samplePlan unboundedArena (0 : Nat) _ (0 : Nat) _
    (0 : Nat) _ _ (by simp [Message.SmallOneofs, Schema.get, sampleSchema]) separate (by decide)
    rfl rfl nofun
  exact ⟨_, _, merged, _, _, arena, rfl, rfl, decoded, merges⟩

end Decoders
end RapidProto
