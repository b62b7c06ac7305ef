import RapidProto.Concatenation

/-!
# What a oneof's reader reports

The reader of a oneof switches on a discriminant that every member's decode arm writes.  The
discriminant is a `std::uint8_t`, so it names the member decoded last exactly when that member is
among the first 255.
-/

namespace RapidProto

/-- A record of a oneof member: its position from one, the field and the value. -/
structure Choice where
  /-- Position in the oneof. -/
  index : Nat
  /-- The member. -/
  field : Field
  /-- The value of the record. -/
  value : Payload

/-- The item as a record of a member of the oneof, with the member's wire type. -/
def Item.choice (message : Message) (oneof : Nat) : Item → Option Choice
  | .record tag value _ =>
    match message.member? tag.fieldNumber with
    | some (.choice owner index field) =>
      if owner = oneof ∧ tag.wireType = field.type.wire then some ⟨index, field, value⟩ else none
    | _ => none
  | .badTag _ | .badValue _ _ => none

/-- The last record of a member of the oneof. -/
def lastChoice (message : Message) (oneof : Nat) (body : List Byte) : Option Choice :=
  ((items body.length body).filterMap (Item.choice message oneof)).getLast?

/-- What decoding the value of a choice yields, one message deep. -/
def Choice.decoded (schema : Schema) (plan : Plan) (id : MessageId) (oneof : Nat)
    (choice : Choice) : Outcome DecodeError Behaviour :=
  (Member.choice oneof choice.index choice.field).occurrence (plan.reading schema)
    (meaning schema (plan.reading schema) (kMaxDecodeDepth + 1) 1) id choice.value

/-- The reader reports the member that was decoded last, with its value, and the unset state when no
member occurred. -/
def ReportsLast (schema : Schema) (plan : Plan) (id : MessageId) (oneof : Nat) (input : List Byte)
    (reader : Behaviour) : Prop :=
  match lastChoice (schema.get id) oneof input with
  | none => reader = .member 0 .absent
  | some choice => ∃ held, choice.decoded schema plan id oneof = .ok held ∧
      reader = .member choice.index held

section Fold

variable {schema : Schema} {reading : Reading}
  {sub : MessageId → List Byte → Outcome DecodeError Behaviour} {id : MessageId} {oneof : Nat}

/-- A record of a member is what it deposits. -/
theorem deposit_choice {item : Item} {deposited : History × Bool}
    (put : deposit schema reading sub id item = .ok deposited) {choice : Choice}
    (chosen : item.choice (schema.get id) oneof = some choice) :
    ∃ held, (Member.choice oneof choice.index choice.field).occurrence reading sub id
        choice.value = .ok held ∧
      (schema.get id).current oneof deposited.1 = some (choice.index, held) := by
  cases item with
  | badTag failure => cases chosen
  | badValue tag failure => cases chosen
  | record tag value raw =>
      simp only [Item.choice] at chosen
      split at chosen
      · rename_i owner index field found
        split at chosen
        · rename_i own
          obtain ⟨rfl, wire⟩ := own
          cases chosen
          obtain ⟨declared, number⟩ := Message.mem_of_member? found
          have tagged : tag = ⟨field.number, field.type.wire⟩ := by
            cases tag
            simp_all [Member.number]
          subst tagged
          have routed : route ((schema.get id).shapes (reading.mode id))
              ⟨field.number, field.type.wire⟩ =
                .native ((Member.choice owner index field).shape (reading.mode id)) :=
            route_member declared rfl
          simp only [deposit, routed, Member.shape_number, Message.member?_number declared] at put
          obtain ⟨held, decoded, same⟩ := Outcome.bind_eq_ok.mp put
          cases same
          refine ⟨held, decoded, ?_⟩
          simp [Message.current, Message.choiceIndex, Member.number, found]
        · cases chosen
      · cases chosen

/-- Other items leave the oneof alone. -/
theorem deposit_other {item : Item} {deposited : History × Bool}
    (put : deposit schema reading sub id item = .ok deposited)
    (other : item.choice (schema.get id) oneof = none) :
    (schema.get id).current oneof deposited.1 = none := by
  rw [Message.current_eq_none]
  intro index field declared occurred
  obtain ⟨value, raw, rfl⟩ := (deposit_occurs put declared rfl rfl).mp occurred
  have found := Message.member?_number declared
  simp [Item.choice, found, Member.wire] at other

/-- The current member after a walk is that of its last choice. -/
theorem foldlM_current {inputs : List Item} {progress final : Progress}
    (ran : inputs.foldlM (referenceBodies schema reading sub id).step progress = .ok final) :
    match (inputs.filterMap (Item.choice (schema.get id) oneof)).getLast? with
    | none => (schema.get id).current oneof final.history =
        (schema.get id).current oneof progress.history
    | some choice => ∃ held, (Member.choice oneof choice.index choice.field).occurrence reading sub
          id choice.value = .ok held ∧
        (schema.get id).current oneof final.history = some (choice.index, held) := by
  induction inputs generalizing progress with
  | nil =>
      cases ran
      rfl
  | cons item inputs ih =>
      rw [List.foldlM_cons] at ran
      obtain ⟨middle, stepped, ran⟩ := Outcome.bind_eq_ok.mp ran
      obtain ⟨-, deposited, put, rfl⟩ := reference_step_ok.mp stepped
      have later := ih ran
      simp only [Progress.add, Message.current_append] at later
      cases chosen : item.choice (schema.get id) oneof with
      | none =>
          rw [List.filterMap_cons_none chosen]
          rw [deposit_other put chosen, Option.none_or] at later
          exact later
      | some choice =>
          obtain ⟨held, decoded, current⟩ := deposit_choice put chosen
          rw [List.filterMap_cons_some chosen, List.getLast?_cons]
          rw [current, Option.some_or] at later
          cases last : (inputs.filterMap (Item.choice (schema.get id) oneof)).getLast? with
          | none =>
              rw [last] at later
              exact ⟨held, decoded, later⟩
          | some choice' =>
              rw [last] at later
              exact later

end Fold

/-! ## The discriminant -/

section Reader

variable {schema : Schema} {plan : Plan} {allocator : Allocator} {id : MessageId} {oneof : Nat}

/-- The reader of a oneof, by the last record of a member. -/
theorem reader_eq {input : List Byte} {arena arena' : allocator.State} {cell : Cell}
    (decoded : arenaDecode schema plan allocator id input arena = .ok (cell, arena'))
    {members : List Field} (listed : (schema.get id).oneofs[oneof]? = some members) :
    match lastChoice (schema.get id) oneof input with
    | none => (cell.behaviour schema plan (.message id)).behind (.oneof oneof) = .member 0 .absent
    | some choice => ∃ held, choice.decoded schema plan id oneof = .ok held ∧
        (cell.behaviour schema plan (.message id)).behind (.oneof oneof) =
          choiceBehaviour (· % 256) (some (choice.index, held)) := by
  obtain ⟨-, progress, ran, -, same⟩ := meaning_eq_ok.mp (meaning_of_arenaDecode decoded)
  have inside := (List.getElem?_eq_some_iff.mp listed).1
  have reader : (cell.behaviour schema plan (.message id)).behind (.oneof oneof) =
      choiceBehaviour (· % 256) ((schema.get id).current oneof progress.history) := by
    rw [same]
    funext path
    simp only [Behaviour.behind, Message.behaviour, if_pos inside]
    rfl
  have current := @foldlM_current _ _ _ _ oneof _ _ _ ran
  rw [lastChoice]
  cases last : ((items input.length input).filterMap
      (Item.choice (schema.get id) oneof)).getLast? with
  | none =>
      rw [last] at current
      simp only at current ⊢
      rw [reader, current]
      rfl
  | some choice =>
      rw [last] at current
      obtain ⟨held, read, current⟩ := current
      exact ⟨held, read, by rw [reader, current]⟩

/-- Storing a member index in a byte loses those from 256 on. -/
theorem index_lt_of_choiceBehaviour {index : Nat} {held held' : Behaviour}
    (same : choiceBehaviour (· % 256) (some (index, held)) = .member index held') :
    index < 256 := by
  by_contra large
  have head := congrFun same []
  simp only [choiceBehaviour] at head
  split at head
  · omega
  split at head
  · simp only [Behaviour.member, Answer.member.injEq] at head
    omega
  · simp only [Behaviour.member, Answer.member.injEq] at head
    omega

theorem reportsLast_iff_small {input : List Byte} {arena arena' : allocator.State} {cell : Cell}
    (decoded : arenaDecode schema plan allocator id input arena = .ok (cell, arena'))
    {members : List Field} (listed : (schema.get id).oneofs[oneof]? = some members) :
    ReportsLast schema plan id oneof input
        ((cell.behaviour schema plan (.message id)).behind (.oneof oneof)) ↔
      ∀ choice, lastChoice (schema.get id) oneof input = some choice → choice.index < 256 := by
  have reader := reader_eq decoded listed
  rw [ReportsLast]
  cases last : lastChoice (schema.get id) oneof input with
  | none =>
      rw [last] at reader
      simpa using reader
  | some choice =>
      rw [last] at reader
      obtain ⟨held, read, reader⟩ := reader
      simp only [Option.some.injEq, forall_eq']
      rw [reader]
      constructor
      · rintro ⟨held', -, same⟩
        exact index_lt_of_choiceBehaviour same
      · intro small
        exact ⟨held, read, by simp [choiceBehaviour, Nat.mod_eq_of_lt small]⟩

/-- The reader of a oneof reports the member decoded last, with its value, iff that member is one of
the first 255 or no member occurred. -/
theorem oneof_reader_faithful_iff (schema : Schema) (plan : Plan) (allocator : Allocator)
    (id : MessageId) (oneof : Nat) (input : List Byte) (arena arena' : allocator.State)
    (cell : Cell) (members : List Field)
    (listed : (schema.get id).oneofs[oneof]? = some members)
    (decoded : arenaDecode schema plan allocator id input arena = .ok (cell, arena')) :
    ReportsLast schema plan id oneof input
        ((cell.behaviour schema plan (.message id)).behind (.oneof oneof)) ↔
      ∀ choice, lastChoice (schema.get id) oneof input = some choice → choice.index < 256 :=
  reportsLast_iff_small decoded listed

theorem oneof_reader_faithful_sample :
    ∃ cell arena', arenaDecode sampleSchema samplePlan unboundedArena 0 [0x20, 0x01] (0 : Nat) =
        .ok (cell, arena') ∧
      (ReportsLast sampleSchema samplePlan 0 0 [0x20, 0x01]
          ((cell.behaviour sampleSchema samplePlan (.message 0)).behind (.oneof 0)) ↔
        ∀ choice, lastChoice (sampleSchema.get 0) 0 [0x20, 0x01] = some choice →
          choice.index < 256) :=
  ⟨_, _, rfl, oneof_reader_faithful_iff sampleSchema samplePlan unboundedArena 0 0 [0x20, 0x01]
    (0 : Nat) _ _ _ rfl rfl⟩

end Reader

/-- A oneof of 256 numbers, with field numbers from one. -/
def wideOneof : List Field :=
  (List.range 256).map fun index => ⟨index + 1, .leaf (.scalar .int32), .explicit⟩

/-- A message with nothing but a wide oneof. -/
def wideSchema : Schema where
  messages := [{
    oneofs := [wideOneof]
    distinct := by
      simp only [wideOneof, List.map_nil, List.nil_append, List.flatten_cons, List.flatten_nil,
        List.append_nil, List.map_map]
      exact List.nodup_range.map fun _ _ same => Nat.succ.inj same
    tracked := noField_tracked }]

/-- The record `256: 5`. -/
def wideInput : List Byte := [0x80, 0x10, 0x05]

theorem items_wideInput :
    items wideInput.length wideInput = [.record ⟨256, .varint⟩ (.varint 5) [0x05]] := rfl

/-- The last member of the wide oneof. -/
def wideLast : Member := .choice 0 256 ⟨256, .leaf (.scalar .int32), .explicit⟩

theorem wideLast_declared : wideLast ∈ (wideSchema.get 0).members := by
  have held : wideOneof[255]? = some ⟨256, .leaf (.scalar .int32), .explicit⟩ := by
    simp [wideOneof]
  have listed : [wideOneof][0]? = some wideOneof := rfl
  exact oneofsFrom_mem 0 listed held

theorem wideLast_found : (wideSchema.get 0).member? 256 = some wideLast := by
  have found := Message.member?_number wideLast_declared
  rwa [show wideLast.number = 256 from rfl] at found

theorem meaning_wideInput (reading : Reading) :
    ∃ behaviour, meaning wideSchema reading kDecodeFrames 0 0 wideInput = .ok behaviour := by
  have routed : route ((wideSchema.get 0).shapes (reading.mode 0)) ⟨256, .varint⟩ =
      .native (wideLast.shape (reading.mode 0)) :=
    route_member wideLast_declared rfl
  have number : (wideLast.shape (reading.mode 0)).number = 256 := rfl
  refine ⟨_, meaning_eq_ok.mpr ⟨by decide, ⟨[(256, .leaf (.w32 5))], false⟩, ?_, rfl, rfl⟩⟩
  have stepped : (referenceBodies wideSchema reading
      (meaning wideSchema reading (kMaxDecodeDepth + 1) (0 + 1)) 0).step {}
      (.record ⟨256, .varint⟩ (.varint 5) [0x05]) = .ok ⟨[(256, .leaf (.w32 5))], false⟩ := by
    refine reference_step_ok.mpr ⟨?_, ([(256, .leaf (.w32 5))], false), ?_, rfl⟩
    · simp only [refusal, Item.tag?, Option.map_some, routed, number, wideLast_found]
      rfl
    · simp only [deposit, routed, number, wideLast_found]
      rfl
  rw [Bodies.fold, items_wideInput, List.foldlM_cons, stepped]
  rfl

/-- Decoding the last of 256 members leaves the oneof unset. -/
theorem oneof_reader_wide :
    ∃ cell arena', arenaDecode wideSchema samplePlan unboundedArena 0 wideInput (0 : Nat) =
        .ok (cell, arena') ∧
      (cell.behaviour wideSchema samplePlan (.message 0)).behind (.oneof 0) = .member 0 .absent ∧
      ¬ ReportsLast wideSchema samplePlan 0 0 wideInput
        ((cell.behaviour wideSchema samplePlan (.message 0)).behind (.oneof 0)) := by
  have last : lastChoice (wideSchema.get 0) 0 wideInput =
      some ⟨256, ⟨256, .leaf (.scalar .int32), .explicit⟩, .varint 5⟩ := by
    simp [lastChoice, items_wideInput, Item.choice, wideLast_found, wideLast, FieldType.wire,
      Leaf.wire, Scalar.wire]
  obtain ⟨behaviour, meant⟩ := meaning_wideInput (samplePlan.reading wideSchema)
  have same := (arenaDecode_refines wideSchema samplePlan 0
    (show wideInput.length ≤ _ by decide) (0 : Nat)).map_eq
    (Allocator.not_exhausted unboundedArena_neverFails)
  rw [meant] at same
  obtain ⟨⟨cell, arena'⟩, decoded, -⟩ := Outcome.bind_eq_ok.mp same
  refine ⟨cell, arena', decoded, ?_, ?_⟩
  · have reader := @reader_eq _ _ _ _ 0 _ _ _ _ decoded _ rfl
    rw [last] at reader
    obtain ⟨held, -, reader⟩ := reader
    exact reader
  · rw [reportsLast_iff_small decoded rfl]
    intro small
    exact absurd (small _ last) (by decide)

end RapidProto
