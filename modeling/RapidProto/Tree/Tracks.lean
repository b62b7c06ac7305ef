import RapidProto.Tree.Buffer
import RapidProto.Tree.Decode
import RapidProto.Tree.Look

/-!
# Storage against history

The relation between the locals of a running `rp_decode_into` and the history of the fields met so
far.  Each member owns a part of the locals; a body that writes only its own part keeps the relation
for every other member.
-/

namespace RapidProto

/-- What the layout contributes to the documented reading. -/
def Plan.reading (schema : Schema) (plan : Plan) : Reading where
  mode := plan.mode
  tracksUnknown := plan.tracksUnknown
  absentValue id number :=
    match (schema.get id).member? number with
    | some (.mapped map) => seenAs schema plan (entryValueAccessor plan id map (.entry .zero .zero))
    | _ => .absent
  narrow index := index % 256

/-! ## Histories -/

/-- Append occurrences of one field. -/
def Progress.extend (progress : Progress) (number : Nat) (events : List Behaviour) : Progress :=
  { progress with history := progress.history ++ events.map fun event => (number, event) }

theorem Progress.push_eq (progress : Progress) (number : Nat) (behaviour : Behaviour) :
    progress.push number behaviour = progress.extend number [behaviour] := rfl

theorem Progress.pushAll_eq (progress : Progress) (number : Nat) (values : List Value) :
    progress.pushAll number values = progress.extend number (values.map Behaviour.leaf) := by
  simp [Progress.pushAll, Progress.extend, Function.comp_def]

theorem Progress.occurrences_extend (progress : Progress) (number : Nat)
    (events : List Behaviour) :
    (progress.extend number events).history.occurrences number =
      progress.history.occurrences number ++ events := by
  simp [Progress.extend, History.occurrences, List.filter_map, Function.comp_def]

theorem Progress.occurrences_extend_other (progress : Progress) {number other : Nat}
    (differ : other ≠ number) (events : List Behaviour) :
    (progress.extend number events).history.occurrences other =
      progress.history.occurrences other := by
  simp [Progress.extend, History.occurrences, List.filter_map, Function.comp_def, differ.symm]

theorem Message.current_extend_other {message : Message} {oneof number : Nat}
    (foreign : message.choiceIndex oneof number = none) (progress : Progress)
    (events : List Behaviour) :
    message.current oneof (progress.extend number events).history =
      message.current oneof progress.history := by
  simp [Progress.extend, Message.current, List.filterMap_append, List.filterMap_map, foreign]

theorem Message.current_push {message : Message} {oneof number index : Nat}
    (own : message.choiceIndex oneof number = some index) (progress : Progress)
    (behaviour : Behaviour) :
    message.current oneof (progress.extend number [behaviour]).history =
      some (index, behaviour) := by
  simp [Progress.extend, Message.current, List.filterMap_append, own]

/-! ## The parts of a frame -/

theorem Plan.bitIndex_ne {plan : Plan} {id : MessageId} {message : Message} {bit other : Plan.Bit}
    (allocated : bit ∈ plan.allocateBits id message) (differ : bit ≠ other) :
    plan.bitIndex id message bit ≠ plan.bitIndex id message other :=
  fun same => differ ((List.idxOf_inj allocated).mp same)

theorem Plan.presence_allocated {plan : Plan} {id : MessageId} {message : Message} {field : Field}
    (declared : field ∈ message.fields) (kept : plan.mode id field.number ≠ .drop)
    (needed : plan.needsPresence id field = true) :
    .presence field.number ∈ plan.allocateBits id message := by
  rw [Plan.allocateBits, List.mem_append, List.mem_flatMap]
  exact .inl ⟨field, declared, by simp [Plan.bitsOf, kept, needed]⟩

theorem Plan.value_allocated {plan : Plan} {id : MessageId} {message : Message} {field : Field}
    (declared : field ∈ message.fields) (kept : plan.mode id field.number ≠ .drop)
    (needed : Plan.needsValue field = true) :
    .value field.number ∈ plan.allocateBits id message := by
  rw [Plan.allocateBits, List.mem_append, List.mem_flatMap]
  exact .inl ⟨field, declared, by simp [Plan.bitsOf, kept, needed]⟩

theorem Plan.unknown_allocated {plan : Plan} {id : MessageId} {message : Message}
    (tracked : plan.tracksUnknown id = true) : .unknown ∈ plan.allocateBits id message := by
  simp [Plan.allocateBits, tracked]

theorem Message.requiredBit_ne {message : Message} {field : Field} {other : Nat}
    (declared : field ∈ message.fields) (isRequired : field.presence = .required)
    (differ : other ≠ field.number) :
    message.requiredBit other ≠ message.requiredBit field.number := by
  have listed : field.number ∈ message.required.map Field.number :=
    List.mem_map_of_mem (by simp [Message.required, declared, isRequired])
  exact fun same => differ ((List.idxOf_inj listed).mp same.symm).symm

/-- The locals that belong to one plain field or map. -/
structure Store where
  /-- The member's storage. -/
  slot : Cell
  /-- Its presence bit. -/
  present : Bool
  /-- Its value bit. -/
  value : Bool
  /-- Its required bit. -/
  required : Bool
  /-- Its accumulator. -/
  acc : Growable

/-- The locals that belong to one oneof. -/
structure ChoiceStore where
  /-- The discriminant. -/
  case : BitVec 8
  /-- The member the union was last written as. -/
  active : Nat
  /-- The union. -/
  union : Cell

section Frames

variable (schema : Schema) (plan : Plan) {allocator : Allocator} (id : MessageId)

/-- The part of a frame that a field number owns. -/
def Frame.store (frame : Frame allocator) (number : Nat) : Store where
  slot := frame.out.slot number
  present := frame.out.mask (plan.bitIndex id (schema.get id) (.presence number))
  value := frame.out.mask (plan.bitIndex id (schema.get id) (.value number))
  required := frame.req ((schema.get id).requiredBit number)
  acc := frame.accs number

/-- The part of a frame that a oneof owns. -/
def Frame.choiceStore (frame : Frame allocator) (oneof : Nat) : ChoiceStore where
  case := frame.out.case oneof
  active := frame.out.active oneof
  union := frame.out.union oneof

/-- Only what belongs to a field number and to a oneof differs between two frames. -/
structure Frame.Keeps (frame frame' : Frame allocator) (number : Nat) (owner : Option Nat) :
    Prop where
  /-- Other fields keep their part. -/
  store : ∀ other, other ≠ number → frame'.store schema plan id other = frame.store schema plan id other
  /-- Other oneofs keep their part. -/
  choice : ∀ oneof, owner ≠ some oneof → frame'.choiceStore oneof = frame.choiceStore oneof
  /-- The unknown-fields bit stays. -/
  unknown : plan.tracksUnknown id = true →
    frame'.out.mask (plan.bitIndex id (schema.get id) .unknown) =
      frame.out.mask (plan.bitIndex id (schema.get id) .unknown)

variable {schema plan id}

namespace Frame.Keeps

variable {frame frame' frame'' : Frame allocator} {number : Nat} {owner : Option Nat}

theorem refl : frame.Keeps schema plan id frame number owner :=
  ⟨fun _ _ => rfl, fun _ _ => rfl, fun _ => rfl⟩

theorem trans (first : frame.Keeps schema plan id frame' number owner)
    (second : frame'.Keeps schema plan id frame'' number owner) :
    frame.Keeps schema plan id frame'' number owner where
  store other differ := (second.store other differ).trans (first.store other differ)
  choice oneof differ := (second.choice oneof differ).trans (first.choice oneof differ)
  unknown tracked := (second.unknown tracked).trans (first.unknown tracked)

theorem setSlot (content : Cell) (arena : allocator.State) :
    frame.Keeps schema plan id { frame with out := frame.out.setSlot number content, arena }
      number owner where
  store other differ := by simp [Frame.store, Function.update_of_ne differ]
  choice oneof _ := rfl
  unknown _ := rfl

theorem setAcc (acc : Growable) (arena : allocator.State) :
    frame.Keeps schema plan id (frame.setAcc number acc arena) number owner where
  store other differ := by simp [Frame.store, Frame.setAcc, Function.update_of_ne differ]
  choice oneof _ := rfl
  unknown _ := rfl

/-- Writing an allocated bit of the field. -/
theorem setMask {bit : Plan.Bit} (allocated : bit ∈ plan.allocateBits id (schema.get id))
    (own : bit = .presence number ∨ bit = .value number) (set : Bool) :
    frame.Keeps schema plan id
      { frame with out := frame.out.setMask (plan.bitIndex id (schema.get id) bit) set }
      number owner where
  store other differ := by
    have presence : bit ≠ .presence other := by
      rcases own with rfl | rfl <;> simp [differ.symm]
    have value : bit ≠ .value other := by
      rcases own with rfl | rfl <;> simp [differ.symm]
    simp [Frame.store, Function.update_of_ne (Plan.bitIndex_ne allocated presence).symm,
      Function.update_of_ne (Plan.bitIndex_ne allocated value).symm]
  choice oneof _ := rfl
  unknown _ := by
    have differ : bit ≠ .unknown := by
      rcases own with rfl | rfl <;> simp
    simp [Function.update_of_ne (Plan.bitIndex_ne allocated differ).symm]

theorem setUnion (oneof index : Nat) (content : Cell) (arena : allocator.State) :
    frame.Keeps schema plan id
      { frame with out := (frame.out.setUnion oneof index content).setCase oneof index, arena }
      number (some oneof) where
  store other _ := rfl
  choice other differ := by
    have other : other ≠ oneof := fun same => differ (by rw [same])
    simp [Frame.choiceStore, Function.update_of_ne other]
  unknown _ := rfl

theorem setPresence {field : Field} (declared : field ∈ (schema.get id).fields)
    (kept : plan.mode id field.number ≠ .drop) :
    frame.Keeps schema plan id (frame.setPresence schema plan id field) field.number owner := by
  rw [Frame.setPresence]
  split
  · rename_i needed
    exact setMask (Plan.presence_allocated declared kept needed) (.inl rfl) true
  split
  · rename_i isRequired
    refine ⟨fun other differ => ?_, fun _ _ => rfl, fun _ => rfl⟩
    simp [Frame.store,
      Function.update_of_ne (Message.requiredBit_ne declared isRequired differ)]
  · exact refl

end Frame.Keeps
end Frames

/-! ## The relation -/

section Tracks

variable (schema : Schema) (plan : Plan) {allocator : Allocator} (id : MessageId)

/-- The type under which the elements of a repeated field are stored. -/
def elementView (field : Field) : View :=
  match field.type with
  | .leaf kind => .leaf kind
  | .message target _ =>
    if plan.mode id field.number = .raw then .leaf (.scalar .bytes) else .message target

/-- An accumulator holds the given occurrences. -/
def ArrayTracks (view : View) (acc : Growable) (occurrences : List Behaviour) : Prop :=
  ∃ cells, acc.Holds cells ∧ cells.map (Cell.behaviour schema plan view) = occurrences

/-- The storage of a singular field reads as the last of the given occurrences. -/
structure SingularTracks (field : Field) (frame : Frame allocator) (occurrences : List Behaviour) :
    Prop where
  /-- The accessor's answer; a required field is only read once it occurred. -/
  reads : (field.presence = .required → occurrences ≠ []) →
    seenAs schema plan (plainAccessor schema plan id field frame.out) =
      occurrences.getLast?.getD field.unset
  /-- A message field knows whether it occurred. -/
  seen : ∀ target delimited, field.type = .message target delimited →
    frame.seen schema plan id field = decide (occurrences ≠ [])
  /-- Storage that was not written is zero. -/
  fresh : occurrences = [] → frame.out.slot field.number = .zero

/-- The storage of a plain field. -/
def PlainTracks (field : Field) (frame : Frame allocator) (occurrences : List Behaviour) : Prop :=
  if field.isRepeated then
    ArrayTracks schema plan (elementView plan id field) (frame.accs field.number) occurrences
  else SingularTracks schema plan id field frame occurrences

/-- The storage of a oneof holds its current member. -/
def ChoiceTracks (oneof : Nat) (store : ChoiceStore) : Option (Nat × Behaviour) → Prop
  | none => store.case = 0
  | some (index, held) =>
    store.case = BitVec.ofNat 8 index ∧ store.active = index ∧ 0 < index ∧
      ∃ members field, (schema.get id).oneofs[oneof]? = some members ∧
        members[index - 1]? = some field ∧
        seenAs schema plan (heldAccessor plan id field store.union) = held

/-- The frame stores what the history says. -/
structure Frame.Tracks (frame : Frame allocator) (progress : Progress) : Prop where
  /-- Plain fields that the profile keeps. -/
  plain : ∀ field ∈ (schema.get id).fields, plan.mode id field.number ≠ .drop →
    PlainTracks schema plan id field frame (progress.history.occurrences field.number)
  /-- Maps that the profile keeps. -/
  mapped : ∀ map ∈ (schema.get id).maps, plan.mode id map.number ≠ .drop →
    ArrayTracks schema plan (.entry id map) (frame.accs map.number)
      (progress.history.occurrences map.number)
  /-- Oneofs. -/
  choice : ∀ oneof, ChoiceTracks schema plan id oneof (frame.choiceStore oneof)
    ((schema.get id).current oneof progress.history)
  /-- Required bits. -/
  required : ∀ field ∈ (schema.get id).fields, field.presence = .required →
    frame.req ((schema.get id).requiredBit field.number) =
      decide (progress.history.occurrences field.number ≠ [])
  /-- The unknown-fields bit. -/
  unknown : plan.tracksUnknown id = true →
    frame.out.mask (plan.bitIndex id (schema.get id) .unknown) = progress.unknown

/-- The storage of one member. -/
def MemberTracks (member : Member) (frame : Frame allocator) (history : History) : Prop :=
  match member with
  | .plain field =>
    PlainTracks schema plan id field frame (history.occurrences field.number) ∧
      (field.presence = .required →
        frame.req ((schema.get id).requiredBit field.number) =
          decide (history.occurrences field.number ≠ []))
  | .mapped map =>
    ArrayTracks schema plan (.entry id map) (frame.accs map.number)
      (history.occurrences map.number)
  | .choice oneof _ _ =>
    ChoiceTracks schema plan id oneof (frame.choiceStore oneof)
      ((schema.get id).current oneof history)

/-- The oneof a member belongs to. -/
def Member.owner : Member → Option Nat
  | .choice oneof _ _ => some oneof
  | .plain _ | .mapped _ => none

variable {schema plan id}

theorem Frame.seen_congr {frame frame' : Frame allocator} {field : Field}
    (same : frame'.store schema plan id field.number = frame.store schema plan id field.number) :
    frame'.seen schema plan id field = frame.seen schema plan id field := by
  obtain ⟨slot, present, -, required, -⟩ := Store.mk.injEq .. ▸ same
  simp only [Frame.seen, slot, present, required]

theorem plainAccessor_congr {frame frame' : Frame allocator} {field : Field}
    (same : frame'.store schema plan id field.number = frame.store schema plan id field.number) :
    plainAccessor schema plan id field frame'.out =
      plainAccessor schema plan id field frame.out := by
  obtain ⟨slot, present, value, -, -⟩ := Store.mk.injEq .. ▸ same
  simp only [plainAccessor, slot, present, value]

/-- A plain field depends on its own part of the frame only. -/
theorem PlainTracks.congr {frame frame' : Frame allocator} {field : Field}
    {occurrences : List Behaviour}
    (same : frame'.store schema plan id field.number = frame.store schema plan id field.number)
    (tracks : PlainTracks schema plan id field frame occurrences) :
    PlainTracks schema plan id field frame' occurrences := by
  have acc : frame'.accs field.number = frame.accs field.number := congrArg Store.acc same
  have slot : frame'.out.slot field.number = frame.out.slot field.number :=
    congrArg Store.slot same
  rw [PlainTracks] at tracks ⊢
  rw [acc]
  split
  · rename_i repeated
    rwa [if_pos repeated] at tracks
  · rename_i singular
    rw [if_neg singular] at tracks
    refine ⟨fun met => ?_, fun target delimited type => ?_, fun unmet => ?_⟩
    · rw [plainAccessor_congr same]
      exact tracks.reads met
    · rw [Frame.seen_congr same]
      exact tracks.seen target delimited type
    · rw [slot]
      exact tracks.fresh unmet

namespace Frame.Tracks

variable {frame frame' : Frame allocator} {progress : Progress}

/-- Extending the history by one member, when only its part of the frame changes. -/
theorem extend (tracks : frame.Tracks schema plan id progress) {member : Member}
    (declared : member ∈ (schema.get id).members)
    (keeps : frame.Keeps schema plan id frame' member.number member.owner)
    {events : List Behaviour}
    (own : MemberTracks schema plan id member frame'
      (progress.extend member.number events).history) :
    frame'.Tracks schema plan id (progress.extend member.number events) where
  plain field declared' kept := by
    by_cases same : field.number = member.number
    · obtain rfl := Message.member_inj declared (Message.plain_mem.mpr declared') same.symm
      exact own.1
    · rw [progress.occurrences_extend_other same]
      exact (tracks.plain field declared' kept).congr (keeps.store _ same)
  mapped map declared' kept := by
    by_cases same : map.number = member.number
    · obtain rfl := Message.member_inj declared (Message.mapped_mem.mpr declared') same.symm
      exact own
    · rw [progress.occurrences_extend_other same,
        show frame'.accs map.number = frame.accs map.number from
          congrArg Store.acc (keeps.store _ same)]
      exact tracks.mapped map declared' kept
  choice oneof := by
    have found := Message.member?_number declared
    by_cases owned : member.owner = some oneof
    · cases member with
      | choice owner index field =>
          cases owned
          exact own
      | plain field => cases owned
      | mapped map => cases owned
    · have foreign : (schema.get id).choiceIndex oneof member.number = none := by
        rw [Message.choiceIndex, found]
        cases member with
        | choice owner index field =>
            have differ : owner ≠ oneof := fun same => owned (by rw [Member.owner, same])
            simp [differ]
        | plain field => rfl
        | mapped map => rfl
      rw [Message.current_extend_other foreign, keeps.choice oneof owned]
      exact tracks.choice oneof
  required field declared' isRequired := by
    by_cases same : field.number = member.number
    · obtain rfl := Message.member_inj declared (Message.plain_mem.mpr declared') same.symm
      exact own.2 isRequired
    · rw [progress.occurrences_extend_other same,
        show frame'.req ((schema.get id).requiredBit field.number) =
          frame.req ((schema.get id).requiredBit field.number) from
          congrArg Store.required (keeps.store _ same)]
      exact tracks.required field declared' isRequired
  unknown tracked := by
    rw [keeps.unknown tracked]
    exact tracks.unknown tracked

end Frame.Tracks
end Tracks
end RapidProto
