import RapidProto.Tree.Refinement

/-!
# Correctness of the arena decoder

When the loop has ended, the array views are stored and the required bits are checked.  A frame that
tracks a complete history then reads as that history, and the whole decoder refines the documented
reading, at every depth.
-/

namespace RapidProto

/-! ## The length of a history -/

/-- How many occurrences a record can stand for. -/
def Item.weight : Item → Nat
  | .record _ value _ => value.bytes.length + 1
  | .badTag _ | .badValue _ _ => 0

/-- A body has room for its records. -/
theorem items_weight (span : Nat) (p : Cursor) : ((items span p).map Item.weight).sum ≤ p.length := by
  induction p using items_induct with
  | step p ih =>
      rw [items_eq]
      split
      · simp [Item.weight]
      · simp
      · rename_i found q read
        have tagShorter := tagOrEnd_length_lt read
        split
        · simp [Item.weight]
        · rename_i value rest got
          have bytesShorter := payload_bytes_lt got
          have later := ih found q value rest read (payload_span got _)
          simp only [List.map_cons, List.sum_cons, Item.weight]
          omega

theorem packedFrom_length {kind : Leaf} {span turns : Nat} {p : Cursor} {values : List Value}
    (read : packedFrom kind span turns p = .ok values) : values.length ≤ p.length := by
  induction turns generalizing p values with
  | zero =>
      cases read
      simp
  | succ turns ih =>
      rw [packedFrom] at read
      split at read
      · cases read
        simp
      split at read
      · cases read
      rename_i value rest got
      have shorter := payload_length_lt got
      split at read
      · cases read
      · rename_i later found
        cases read
        have := ih found
        rw [List.length_cons]
        omega

section History

variable {schema : Schema} {reading : Reading}
  {sub : MessageId → List Byte → Outcome DecodeError Behaviour} {id : MessageId}

theorem rejectRepeated_ok {progress progress' : Progress} {number : Nat}
    (kept : progress.rejectRepeated number = .ok progress') : progress' = progress := by
  rw [Progress.rejectRepeated] at kept
  split at kept
  · cases kept
    rfl
  · cases kept

/-- A native body records one occurrence of its member. -/
theorem reference_native_ok {number : Nat} {member : Member}
    (found : (schema.get id).member? number = some member) {shape : Shape}
    (named : shape.number = number) {progress middle final : Progress} {value : Payload}
    (before : ((referenceBodies schema reading sub id).native shape).before progress = .ok middle)
    (after : ((referenceBodies schema reading sub id).native shape).after middle value =
      .ok final) :
    middle = progress ∧ ∃ behaviour, final = progress.push member.number behaviour := by
  subst named
  simp only [referenceBodies, found] at before after
  cases member with
  | plain field =>
      simp only [plainBody] at before after
      cases type : field.type with
      | leaf kind =>
          simp only [type] at before after
          cases before
          cases after
          exact ⟨rfl, _, rfl⟩
      | message target delimited =>
          simp only [type] at before after
          have same : middle = progress := by
            split at before
            · cases before
              rfl
            · exact rejectRepeated_ok before
          subst same
          split at after
          · cases after
            exact ⟨rfl, _, rfl⟩
          · obtain ⟨behaviour, -, after⟩ := Outcome.bind_eq_ok.mp after
            cases after
            exact ⟨rfl, _, rfl⟩
  | mapped map =>
      cases before
      obtain ⟨entry, -, after⟩ := Outcome.bind_eq_ok.mp after
      cases after
      exact ⟨rfl, _, rfl⟩
  | choice oneof index field =>
      simp only [choiceBody] at before after
      cases type : field.type with
      | leaf kind =>
          simp only [type] at before after
          cases before
          cases after
          exact ⟨rfl, _, rfl⟩
      | message target delimited =>
          simp only [type] at before after
          have same : middle = progress := by
            split at before
            · cases before
            · cases before
              rfl
          subst same
          obtain ⟨behaviour, -, after⟩ := Outcome.bind_eq_ok.mp after
          cases after
          exact ⟨rfl, _, rfl⟩

/-- A packed body records the elements of its run. -/
theorem reference_packed_ok {shape : Shape} {progress final : Progress} {run : List Byte}
    {continues : Bool}
    (ran : (referenceBodies schema reading sub id).packed shape progress run =
      .ok (final, continues)) :
    final = progress ∨ ∃ kind values, packedValues kind run = .ok values ∧
      final = progress.pushAll shape.number values := by
  simp only [referenceBodies] at ran
  split at ran
  · split at ran
    · cases ran
    · rename_i values read
      cases ran
      exact .inr ⟨_, values, read, rfl⟩
  · cases ran
    exact .inl rfl

/-- A record is a bounded number of occurrences. -/
theorem reference_step_length {progress progress' : Progress} {item : Item}
    (stepped : (referenceBodies schema reading sub id).step progress item = .ok progress') :
    progress'.history.length ≤ progress.history.length + item.weight := by
  cases item with
  | badTag failure => cases stepped
  | badValue tag failure =>
      rw [Bodies.step] at stepped
      split at stepped
      · obtain ⟨middle, -, stepped⟩ := Outcome.bind_eq_ok.mp stepped
        cases stepped
      all_goals cases stepped
  | record tag value raw =>
      rw [Bodies.step] at stepped
      split at stepped
      · rename_i shape routed
        obtain ⟨middle, before, after⟩ := Outcome.bind_eq_ok.mp stepped
        obtain ⟨member, mem, rfl⟩ := List.mem_map.mp (route_mem (.inl routed))
        obtain ⟨rfl, behaviour, rfl⟩ := reference_native_ok (Message.member?_number mem)
          (Member.shape_number _ _) before after
        simp [Progress.push, Item.weight]
      · obtain ⟨⟨final, continues⟩, ran, same⟩ := Outcome.bind_eq_ok.mp stepped
        cases same
        rcases reference_packed_ok ran with rfl | ⟨kind, values, read, rfl⟩
        · omega
        · have short := packedFrom_length read
          simp only [Progress.pushAll, List.length_append, List.length_map, Item.weight]
          omega
      · cases stepped
        omega
      · cases stepped
        simp [referenceBodies]

theorem foldlM_length {inputs : List Item} {progress progress' : Progress}
    (ran : inputs.foldlM (referenceBodies schema reading sub id).step progress = .ok progress') :
    progress'.history.length ≤ progress.history.length + (inputs.map Item.weight).sum := by
  induction inputs generalizing progress with
  | nil =>
      cases ran
      simp
  | cons item inputs ih =>
      rw [List.foldlM_cons] at ran
      obtain ⟨middle, stepped, ran⟩ := Outcome.bind_eq_ok.mp ran
      have first := reference_step_length stepped
      have later := ih ran
      simp only [List.map_cons, List.sum_cons]
      omega

/-- No field occurs more often than its body has bytes. -/
theorem fold_occurrences {body : List Byte} {progress : Progress}
    (ran : (referenceBodies schema reading sub id).fold body {} = .ok progress) (number : Nat) :
    (progress.history.occurrences number).length ≤ body.length := by
  have bounded := foldlM_length ran
  have room := items_weight body.length body
  have fewer : (progress.history.occurrences number).length ≤ progress.history.length := by
    rw [History.occurrences, List.length_map]
    exact List.length_filter_le _ _
  simp only [List.length_nil] at bounded
  omega

end History

/-! ## The finished object -/

theorem foldl_setSlot (content : Nat → Cell) (numbers : List Nat) (out : Cell) :
    (∀ number, (numbers.foldl (fun out number => out.setSlot number (content number)) out).slot
      number = if number ∈ numbers then content number else out.slot number) ∧
    (numbers.foldl (fun out number => out.setSlot number (content number)) out).mask = out.mask ∧
    (numbers.foldl (fun out number => out.setSlot number (content number)) out).case = out.case ∧
    (numbers.foldl (fun out number => out.setSlot number (content number)) out).active =
      out.active ∧
    (numbers.foldl (fun out number => out.setSlot number (content number)) out).union =
      out.union := by
  induction numbers generalizing out with
  | nil => simp
  | cons first numbers ih =>
      obtain ⟨slot, mask, case, active, union⟩ := ih (out.setSlot first (content first))
      refine ⟨fun number => ?_, mask, case, active, union⟩
      rw [List.foldl_cons, slot, Cell.slot_setSlot]
      by_cases later : number ∈ numbers
      · simp [later]
      by_cases same : number = first
      · subst same
        simp
      · simp [later, same]

section Finish

variable {schema : Schema} {plan : Plan} {allocator : Allocator} {id : MessageId}
  {frame : Frame allocator} {progress : Progress}

theorem finalize_slot_array {number : Nat} (kept : plan.mode id number ≠ .drop)
    (array : number ∈ ((schema.get id).fields.filter Field.isRepeated).map Field.number ++
      (schema.get id).maps.map MapField.number) :
    (frame.finalize plan id (schema.get id)).slot number = viewOf (frame.accs number) := by
  rw [Frame.finalize, (foldl_setSlot (fun number => viewOf (frame.accs number)) _ _).1, if_pos]
  simpa [kept] using array

theorem finalize_slot_singular {field : Field} (declared : field ∈ (schema.get id).fields)
    (singular : field.isRepeated = false) :
    (frame.finalize plan id (schema.get id)).slot field.number = frame.out.slot field.number := by
  rw [Frame.finalize, (foldl_setSlot (fun number => viewOf (frame.accs number)) _ _).1, if_neg]
  simp only [List.mem_filter, List.mem_append, List.mem_map, not_and]
  rintro (⟨other, ⟨declared', repeated⟩, same⟩ | ⟨map, declared', same⟩) _
  · have equal := Message.member_inj (Message.plain_mem.mpr declared')
      (Message.plain_mem.mpr declared) same
    cases equal
    simp [singular] at repeated
  · have equal := Message.member_inj (Message.mapped_mem.mpr declared')
      (Message.plain_mem.mpr declared) same
    cases equal

/-- A view keeps all elements of a field that occurred fewer than `2 ^ 32` times. -/
theorem viewOf_eq {acc : Growable} {cells : List Cell} (holds : acc.Holds cells)
    (short : cells.length ≤ kUint32Max) : viewOf acc = .array cells := by
  have count := holds.count
  have whole : acc.n % 2 ^ 32 = cells.length := by
    rw [count]
    exact Nat.mod_eq_of_lt (by rw [kUint32Max] at short; omega)
  rw [viewOf, whole, holds.elements, List.take_length]

theorem ArrayTracks.view {view : View} {acc : Growable} {occurrences : List Behaviour}
    (tracks : ArrayTracks schema plan view acc occurrences)
    (short : occurrences.length ≤ kUint32Max) :
    ∃ cells, viewOf acc = .array cells ∧
      cells.map (Cell.behaviour schema plan view) = occurrences := by
  obtain ⟨cells, holds, same⟩ := tracks
  refine ⟨cells, viewOf_eq holds ?_, same⟩
  rw [← same, List.length_map] at short
  exact short

/-- The accessor of a repeated field is its array view. -/
theorem plainAccessor_repeated {field : Field} (repeated : field.isRepeated = true)
    (object : Cell) :
    plainAccessor schema plan id field object =
      (.list (elementView plan id field), object.slot field.number) := by
  cases type : field.type with
  | leaf kind => simp [plainAccessor, elementView, type, repeated]
  | message target delimited =>
      by_cases raw : plan.mode id field.number = .raw
      · simp [plainAccessor, elementView, type, repeated, raw, Plan.kind]
      · simp [plainAccessor, elementView, type, repeated, raw, Plan.kind]

/-- A plain field of the finished object reads as its history. -/
theorem Frame.Tracks.plain_reads (tracks : frame.Tracks schema plan id progress) {field : Field}
    (declared : field ∈ (schema.get id).fields) (kept : plan.mode id field.number ≠ .drop)
    (complete : field.presence = .required →
      progress.history.occurrences field.number ≠ [])
    (short : (progress.history.occurrences field.number).length ≤ kUint32Max) :
    seenAs schema plan (plainAccessor schema plan id field
      (frame.finalize plan id (schema.get id))) =
      field.behaviour (progress.history.occurrences field.number) := by
  cases repeated : field.isRepeated with
  | true =>
      obtain ⟨cells, view, same⟩ := (tracks.array declared kept repeated).view short
      rw [plainAccessor_repeated repeated, finalize_slot_array kept, view, seenAs, behaviour_list,
        same, Field.behaviour, if_pos repeated]
      exact List.mem_append_left _ (List.mem_map_of_mem (by simp [declared, repeated]))
  | false =>
      have tracked := tracks.plain field declared kept
      rw [PlainTracks, if_neg (by simp [repeated])] at tracked
      have mask : (frame.finalize plan id (schema.get id)).mask = frame.out.mask :=
        (foldl_setSlot _ _ _).2.1
      have unchanged : plainAccessor schema plan id field
          (frame.finalize plan id (schema.get id)) =
          plainAccessor schema plan id field frame.out := by
        simp only [plainAccessor, finalize_slot_singular declared repeated, mask]
      rw [unchanged, tracked.reads complete, Field.behaviour, if_neg (by simp [repeated])]

/-- A map of the finished object reads as its history. -/
theorem Frame.Tracks.mapped_reads (tracks : frame.Tracks schema plan id progress) {map : MapField}
    (declared : map ∈ (schema.get id).maps) (kept : plan.mode id map.number ≠ .drop)
    (short : (progress.history.occurrences map.number).length ≤ kUint32Max) :
    ((frame.finalize plan id (schema.get id)).slot map.number).behaviour schema plan
      (.entries id map) = Behaviour.map (progress.history.occurrences map.number) := by
  obtain ⟨cells, view, same⟩ := (tracks.mapped map declared kept).view short
  rw [finalize_slot_array kept, view, behaviour_entries, same]
  exact List.mem_append_right _ (List.mem_map_of_mem declared)

/-- The reader of a oneof of the finished object reports what its storage kept. -/
theorem Frame.Tracks.choice_reads (tracks : frame.Tracks schema plan id progress) {oneof : Nat}
    {members : List Field} (found : (schema.get id).oneofs[oneof]? = some members) :
    seenAs schema plan (oneofAccessor plan id oneof members
      (frame.finalize plan id (schema.get id))) =
      choiceBehaviour (· % 256) ((schema.get id).current oneof progress.history) := by
  obtain ⟨-, -, case, active, union⟩ := foldl_setSlot (fun number => viewOf (frame.accs number))
    ((((schema.get id).fields.filter Field.isRepeated).map Field.number ++
      (schema.get id).maps.map MapField.number).filter fun number =>
        plan.mode id number ≠ .drop) frame.out
  rw [oneofAccessor, Frame.finalize]
  simp only [case, active, union]
  have tracked := tracks.choice oneof
  cases current : (schema.get id).current oneof progress.history with
  | none =>
      rw [current] at tracked
      simp only [ChoiceTracks, Frame.choiceStore] at tracked
      simp only [tracked, choiceBehaviour]
      exact (behaviour_member 0 .absent).trans (by rw [behaviour_absent])
  | some pair =>
      obtain ⟨index, held⟩ := pair
      rw [current] at tracked
      simp only [ChoiceTracks, Frame.choiceStore] at tracked
      obtain ⟨discriminant, written, positive, members', field, found', member, reads⟩ := tracked
      obtain rfl : members = members' := by rw [found] at found'; exact Option.some.inj found'
      simp only [discriminant, BitVec.toNat_ofNat, choiceBehaviour]
      have bound : index - 1 < members.length := by
        by_contra beyond
        rw [List.getElem?_eq_none (by omega)] at member
        cases member
      have folded : index % 2 ^ 8 = index % 256 := rfl
      rw [folded]
      by_cases kept : index % 256 = index
      · rw [if_pos kept, kept]
        obtain ⟨index, rfl⟩ : ∃ i, index = i + 1 := ⟨index - 1, by omega⟩
        rw [Nat.add_sub_cancel] at member
        simp only [Nat.add_sub_cancel, member, written, if_true]
        rw [← reads]
        exact behaviour_member _ _
      · rw [if_neg kept]
        by_cases wrapped : index % 256 = 0
        · simp only [wrapped, if_true]
          exact (behaviour_member 0 .absent).trans (by rw [behaviour_absent])
        · rw [if_neg wrapped]
          obtain ⟨low, same⟩ : ∃ i, index % 256 = i + 1 := ⟨index % 256 - 1, by omega⟩
          have inside : low < members.length := by
            have := Nat.mod_le index 256
            omega
          simp only [same, Nat.add_sub_cancel, List.getElem?_eq_getElem inside, written]
          rw [if_neg (by omega)]
          exact (behaviour_member _ _).trans (by rw [behaviour_garbage])

/-- The required check of the frame is the one of the history. -/
theorem Frame.Tracks.firstUnset_eq (tracks : frame.Tracks schema plan id progress) :
    frame.firstUnset (schema.get id) = firstMissing (schema.get id) progress.history := by
  rw [Frame.firstUnset, firstMissing, Message.required, List.find?_filter]
  congr 1
  refine List.find?_congr fun field declared => ?_
  by_cases isRequired : field.presence = .required
  · simp [isRequired, tracks.required field declared isRequired]
  · simp [isRequired]

theorem occurs_of_firstMissing {message : Message} {history : History} {field : Field}
    (complete : firstMissing message history = none) (declared : field ∈ message.fields)
    (isRequired : field.presence = .required) : history.occurrences field.number ≠ [] := by
  simp only [firstMissing, Option.map_eq_none_iff, List.find?_eq_none, decide_eq_true_eq,
    not_and] at complete
  exact complete field declared isRequired

/-- The finished object reads as the history of its body. -/
theorem Frame.Tracks.behaviour_eq (tracks : frame.Tracks schema plan id progress)
    (complete : firstMissing (schema.get id) progress.history = none)
    (short : ∀ number, (progress.history.occurrences number).length ≤ kUint32Max) :
    (frame.finalize plan id (schema.get id)).behaviour schema plan (.message id) =
      (schema.get id).behaviour (plan.mode id) (· % 256) progress.history
        (if plan.tracksUnknown id then some progress.unknown else none) := by
  funext path
  cases path with
  | nil => rfl
  | cons step path =>
      rw [Cell.behaviour, look_cons schema plan (by simp)]
      cases step with
      | field number =>
          simp only [enter, Message.behaviour]
          by_cases dropped : plan.mode id number = .drop
          · simp [dropped]
          simp only [dropped, if_false]
          cases found : (schema.get id).member? number with
          | none => rfl
          | some member =>
              obtain ⟨declared, rfl⟩ := Message.mem_of_member? found
              cases member with
              | plain field =>
                  have declared' := Message.plain_mem.mp declared
                  exact congrFun (tracks.plain_reads declared' dropped
                    (occurs_of_firstMissing complete declared') (short _)) path
              | mapped map =>
                  exact congrFun (tracks.mapped_reads (Message.mapped_mem.mp declared) dropped
                    (short _)) path
              | choice oneof index field => rfl
      | oneof oneof =>
          simp only [enter, Message.behaviour]
          cases found : (schema.get id).oneofs[oneof]? with
          | none =>
              rw [if_neg]
              exact not_lt.mpr (List.getElem?_eq_none_iff.mp found)
          | some members =>
              rw [if_pos (List.getElem?_eq_some_iff.mp found).1]
              exact congrFun (tracks.choice_reads found) path
      | unknownFields =>
          simp only [enter, Message.behaviour]
          have mask : (frame.finalize plan id (schema.get id)).mask = frame.out.mask :=
            (foldl_setSlot _ _ _).2.1
          by_cases tracked : plan.tracksUnknown id = true
          · simp only [tracked, if_true, seenAs, behaviour_known, mask, tracks.unknown tracked]
          · simp [tracked]
      | _ => rfl

end Finish

/-! ## The whole decoder -/

section Decoder

variable {schema : Schema} {plan : Plan} {allocator : Allocator} {id : MessageId}

/-- A frame at the start of a body tracks the empty history. -/
theorem tracks_empty (arena : allocator.State) :
    Frame.Tracks schema plan id ({ out := .zero, arena } : Frame allocator) {} where
  plain field declared kept := by
    rw [PlainTracks]
    split
    · exact ⟨[], Growable.holds_empty, rfl⟩
    rename_i repeats
    have singular : field.isRepeated = false := by simpa using repeats
    refine ⟨fun complete => ?_, fun target delimited type => ?_, fun _ => rfl⟩
    · have optional : field.presence ≠ .required := fun isRequired => complete isRequired rfl
      simp only [History.occurrences_nil, List.getLast?_nil, Option.getD_none, plainAccessor,
        Field.unset]
      cases type : field.type with
      | leaf kind =>
          simp only [singular, Cell.mask_zero, Cell.slot_zero]
          cases presence : field.presence with
          | implicit =>
              by_cases needed : Plan.needsValue field = true
              · have isBool : kind = .scalar .bool := by
                  simp only [Plan.needsValue, type, decide_eq_true_eq,
                    FieldType.leaf.injEq] at needed
                  exact needed.1
                subst isBool
                simp [needed, seenAs, behaviour_known, Leaf.zero, Scalar.zero]
              · simp [needed, seenAs, behaviour_leaf, Cell.read]
          | explicit => simp [seenAs, behaviour_absent]
          | required => exact absurd presence optional
          | repeated => simp [Field.isRepeated, presence] at singular
      | message target delimited =>
          have present := (schema.get id).tracked field declared target delimited type
          have explicit : field.presence = .explicit := by
            cases presence : field.presence with
            | implicit => exact absurd presence present
            | explicit => rfl
            | required => exact absurd presence optional
            | repeated => simp [Field.isRepeated, presence] at singular
          have kinds : plan.kind id field = .raw ∨ plan.kind id field = .inlineFixedSubMsg ∨
              plan.kind id field = .pointerSubMsg := by
            simp only [Plan.kind, type, singular, Bool.false_eq_true, if_false]
            split
            · simp
            · split <;> simp
          rcases kinds with kind | kind | kind
          · simp [kind, singular, explicit, seenAs, behaviour_absent]
          · simp [kind, Plan.needsPresence, explicit, seenAs, behaviour_absent]
          · simp [kind, pointee, seenAs, behaviour_absent]
    · simp only [Frame.seen, Cell.slot_zero, Cell.mask_zero, History.occurrences_nil, ne_eq,
        not_true_eq_false, decide_false]
      split <;> simp
  mapped map _ _ := ⟨[], Growable.holds_empty, rfl⟩
  choice oneof := rfl
  required field _ _ := by simp
  unknown _ := rfl

/-- `rp_decode_into` refines the documented reading of a body. -/
theorem decodeInto_refines {frames depth : Nat} (budget : frames + depth = kMaxDecodeDepth + 2)
    (entered : depth ≤ kMaxDecodeDepth + 1) (id : MessageId) {body : List Byte}
    (fits : body.length ≤ kUint32Max) (arena : allocator.State) :
    Outcome.Refines
      (fun result behaviour => result.1.behaviour schema plan (.message id) = behaviour)
      allocator.Exhausted (decodeInto schema plan allocator frames depth id .zero body arena)
      (meaning schema (plan.reading schema) frames depth id body) := by
  induction frames generalizing depth id body arena with
  | zero => omega
  | succ frames ih =>
      rw [decodeInto, meaning]
      by_cases deep : kMaxDecodeDepth < depth
      · rw [if_pos deep, if_pos deep]
        exact Outcome.refines_fail _
      rw [if_neg deep, if_neg deep]
      have subRefines : SubRefines schema plan (decodeInto schema plan allocator frames (depth + 1))
          (meaning schema (plan.reading schema) frames (depth + 1)) :=
        fun target body arena fits => ih (by omega) (by omega) target fits arena
      have looped := @Bodies.Simulates.foldlM _ _ _ _ _ _ _ _
        (@treeBodies_simulates _ _ _ id _ _ subRefines) body.length _ fits _ _
        (tracks_empty arena)
      simp only [Bodies.threadedLoop_eq_foldlM, Outcome.bind_assoc, Outcome.ok_bind]
      refine looped.attach.bind fun frame progress reached => ?_
      obtain ⟨tracks, ran⟩ := reached
      rw [tracks.firstUnset_eq]
      cases complete : firstMissing (schema.get id) progress.history with
      | some number => exact Outcome.refines_fail _
      | none =>
          refine Outcome.refines_ok (tracks.behaviour_eq complete fun number => ?_)
          have bounded := fold_occurrences ran number
          omega

/-- `T::decode` refines the documented reading of its input, with the layout's absent values. -/
theorem arenaDecode_refines (schema : Schema) (plan : Plan) (id : MessageId) {input : List Byte}
    (fits : input.length ≤ kUint32Max) (arena : allocator.State) :
    Outcome.Refines
      (fun result behaviour => result.1.behaviour schema plan (.message id) = behaviour)
      allocator.Exhausted (arenaDecode schema plan allocator id input arena)
      (meaning schema (plan.reading schema) kDecodeFrames 0 id input) := by
  rw [arenaDecode, if_neg (by omega)]
  cases created : allocator.create arena (plan.extent id).1 (plan.extent id).2 with
  | none => exact .inr (Allocator.exhausted_create created)
  | some pair =>
      have budget : kDecodeFrames + 0 = kMaxDecodeDepth + 2 := rfl
      exact decodeInto_refines budget (Nat.zero_le _) id fits pair.2

end Decoder

/-! ## Faithful member indices -/

theorem Message.current_index {message : Message} {oneof index : Nat} {history : History}
    {held : Behaviour} (current : message.current oneof history = some (index, held)) :
    ∃ members, message.oneofs[oneof]? = some members ∧ 0 < index ∧ index ≤ members.length := by
  obtain ⟨event, -, chosen⟩ := List.mem_filterMap.mp (List.mem_of_getLast? current)
  obtain ⟨found, picked, same⟩ := Option.map_eq_some_iff.mp chosen
  cases same
  rw [Message.choiceIndex] at picked
  split at picked
  · rename_i owner index' field declared
    split at picked
    · rename_i own
      cases picked
      subst own
      obtain ⟨positive, members, listed, held⟩ := Message.choice_mem (mem_of_findKey declared).1
      refine ⟨members, listed, positive, ?_⟩
      have inside := (List.getElem?_eq_some_iff.mp held).1
      omega
    · cases picked
  · cases picked

/-- Two ways of storing member indices that agree on the indices a schema has. -/
def Schema.SameIndices (schema : Schema) (narrow narrow' : Nat → Nat) : Prop :=
  ∀ (id : MessageId) (oneof : Nat) (members : List Field),
    (schema.get id).oneofs[oneof]? = some members →
    ∀ index, index ≤ members.length → narrow index = narrow' index

section Narrow

variable {schema : Schema} {reading : Reading} {narrow : Nat → Nat}

theorem reportedIndex_narrow (same : schema.SameIndices reading.narrow narrow) (id : MessageId)
    (oneof : Nat) (history : History) :
    reportedIndex reading (schema.get id) oneof history =
      reportedIndex { reading with narrow } (schema.get id) oneof history := by
  rw [reportedIndex, reportedIndex]
  cases current : (schema.get id).current oneof history with
  | none => rfl
  | some pair =>
      obtain ⟨members, listed, -, inside⟩ := Message.current_index current
      exact same id oneof members listed pair.1 inside

theorem behaviour_narrow (same : schema.SameIndices reading.narrow narrow) (id : MessageId)
    (mode : Nat → FieldMode) (history : History) (unknown : Option Bool) :
    (schema.get id).behaviour mode reading.narrow history unknown =
      (schema.get id).behaviour mode narrow history unknown := by
  funext path
  match path with
  | .oneof oneof :: path =>
      simp only [Message.behaviour]
      cases current : (schema.get id).current oneof history with
      | none => rfl
      | some pair =>
          obtain ⟨members, listed, -, inside⟩ := Message.current_index current
          simp only [choiceBehaviour, same id oneof members listed pair.1 inside]
  | [] | .field _ :: _ | .unknownFields :: _ | .elem _ :: _ | .find _ :: _ | .key :: _ |
    .value :: _ | .held :: _ => rfl

theorem referenceBodies_narrow (same : schema.SameIndices reading.narrow narrow)
    (sub : MessageId → List Byte → Outcome DecodeError Behaviour) (id : MessageId) :
    referenceBodies schema reading sub id =
      referenceBodies schema { reading with narrow } sub id := by
  have choices : ∀ oneof index field, choiceBody schema reading sub id oneof index field =
      choiceBody schema { reading with narrow } sub id oneof index field := by
    intro oneof index field
    simp only [choiceBody, reportedIndex_narrow same]
  simp only [referenceBodies, choices]
  rfl

/-- A reading depends only on how the indices that occur are stored. -/
theorem meaning_narrow (same : schema.SameIndices reading.narrow narrow) (frames depth : Nat)
    (id : MessageId) (body : List Byte) :
    meaning schema reading frames depth id body =
      meaning schema { reading with narrow } frames depth id body := by
  induction frames generalizing depth id body with
  | zero => rfl
  | succ frames ih =>
      have sub : meaning schema reading frames (depth + 1) =
          meaning schema { reading with narrow } frames (depth + 1) := by
        funext target inner
        exact ih (depth + 1) target inner
      rw [meaning, meaning, sub, referenceBodies_narrow same]
      simp only [behaviour_narrow same]

end Narrow

/-- Every oneof has fewer than 256 members. -/
def Schema.SmallOneofs (schema : Schema) : Prop :=
  ∀ message ∈ schema.messages, ∀ members ∈ message.oneofs, members.length < 256

theorem Schema.SmallOneofs.sameIndices {schema : Schema} (small : schema.SmallOneofs) :
    schema.SameIndices (· % 256) id := by
  intro index oneof members listed position inside
  have declared : members ∈ (schema.get index).oneofs := List.mem_of_getElem? listed
  have short : members.length < 256 := by
    rw [Schema.get, List.getD_eq_getElem?_getD] at declared
    cases found : schema.messages[index]? with
    | none => simp [found, default] at declared
    | some message =>
        rw [found] at declared
        exact small message (List.mem_of_getElem? found) members declared
  exact Nat.mod_eq_of_lt (by omega)

/-- The documented reading: oneofs report the member that was decoded last.  What a map entry
without its message value reads as is left to the layout. -/
def Plan.documented (schema : Schema) (plan : Plan) : Reading :=
  { plan.reading schema with narrow := id }

theorem Allocator.not_exhausted {allocator : Allocator} (never : allocator.NeverFails)
    (error : DecodeError) : ¬ allocator.Exhausted error :=
  fun exhausted => exhausted.2 never

theorem meaning_documented {schema : Schema} (small : schema.SmallOneofs) (plan : Plan)
    (frames depth : Nat) (id : MessageId) (body : List Byte) :
    meaning schema (plan.reading schema) frames depth id body =
      meaning schema (plan.documented schema) frames depth id body :=
  meaning_narrow small.sameIndices frames depth id body

/-- The arena decoder is the documented fold over the wire records of its input: the tree it returns
reads as the fold says, and where the fold fails the decoder reports the same failure. -/
theorem arenaDecode_eq_documented {schema : Schema} (small : schema.SmallOneofs) (plan : Plan)
    {allocator : Allocator} (never : allocator.NeverFails) (id : MessageId) {input : List Byte}
    (fits : input.length ≤ kUint32Max) (arena : allocator.State) :
    (arenaDecode schema plan allocator id input arena >>= fun result =>
      .ok (result.1.behaviour schema plan (.message id))) =
      meaning schema (plan.documented schema) kDecodeFrames 0 id input := by
  rw [← meaning_documented small]
  exact (arenaDecode_refines schema plan id fits arena).map_eq (Allocator.not_exhausted never)

/-- An arena without a limit, as a bump pointer. -/
def unboundedArena : Allocator where
  State := Nat
  create next size _ := some (next, next + size)
  allocateArray next size _ count := some (next, next + size * count)
  shrinkLast _ ptr _ newBytes := ptr + newBytes

theorem unboundedArena_neverFails : unboundedArena.NeverFails :=
  ⟨fun _ _ _ => by simp [unboundedArena], fun _ _ _ _ _ => by simp [unboundedArena]⟩

/-- A message with a number, a repeated number, a map of sub-messages and a oneof. -/
def sampleSchema : Schema where
  messages := [{
    fields := [⟨1, .leaf (.scalar .int32), .explicit⟩, ⟨2, .leaf (.scalar .int32), .repeated⟩]
    maps := [⟨3, .int32, .message 0⟩]
    oneofs := [[⟨4, .leaf (.scalar .bool), .explicit⟩, ⟨5, .message 0 true, .explicit⟩]] }]

/-- Everything behind pointers. -/
def samplePlan : Plan where
  inlined _ _ := false
  extent _ := (48, 8)
  entryExtent _ _ := (16, 8)

theorem sampleSchema_smallOneofs : sampleSchema.SmallOneofs := by
  simp [Schema.SmallOneofs, sampleSchema]

theorem arenaDecode_eq_documented_sample :
    (arenaDecode sampleSchema samplePlan unboundedArena 0 [0x08, 0x07, 0x12, 0x02, 0x01, 0x02]
      (0 : Nat) >>= fun result =>
        .ok (result.1.behaviour sampleSchema samplePlan (.message 0))) =
      meaning sampleSchema (samplePlan.documented sampleSchema) kDecodeFrames 0 0
        [0x08, 0x07, 0x12, 0x02, 0x01, 0x02] :=
  arenaDecode_eq_documented sampleSchema_smallOneofs samplePlan unboundedArena_neverFails 0
    (by simp [kUint32Max]) (0 : Nat)

end RapidProto
