import RapidProto.Layout.Storage

/-!
# The planner's recursion

The memo is filled in an order in which every message stored by value is finished first.  From this
invariant: planning ends, storing by value has no cycle, and what is recorded where a message is
stored by value is that message's own layout.
-/

namespace RapidProto

variable {options : LayoutOptions} {memo memo' : List (MessageId × MessageLayout)}

/-! ## What a plan records -/

/-- The recorded extent of a planned message. -/
def recorded (memo : List (MessageId × MessageLayout)) (id : MessageId) : Extent :=
  match memo.lookup id with
  | some layout => ⟨layout.size, layout.align⟩
  | none => ⟨1, 1⟩

/-- The target is planned and may be stored by value. -/
def Inlinable (options : LayoutOptions) (memo : List (MessageId × MessageLayout))
    (target : Option MessageId) : Prop :=
  ∃ id layout, target = some id ∧ memo.lookup id = some layout ∧ layout.fixedSize = true ∧
    layout.size ≤ options.inlineSubmsgCutoff

/-- The storage of a map value. -/
def MapField.valueType (map : MapField) (kind : FieldKind) : StoreType :=
  match map.value with
  | .leaf leaf => .leaf leaf
  | .message target => if kind = .inlineFixedSubMsg then .message target else .pointer

/-- The slots of an entry struct. -/
def entrySlots (key value : Extent) : List (Slot Bool) :=
  [⟨key.size, key.align, 0, 0, false⟩, ⟨value.size, value.align, 1, 1, true⟩]

/-- An entry struct holds its key and its value. -/
structure EntryPlan.Sound (options : LayoutOptions) (memo : List (MessageId × MessageLayout))
    (map : MapField) (entry : EntryPlan) : Prop where
  inlined : entry.valueKind = .inlineFixedSubMsg → Inlinable options memo entry.valueTarget
  target : ∀ id, entry.valueTarget = some id ↔ map.value = .message id
  extent : (⟨entry.size, entry.align⟩ : Extent) = (orderSlots (entrySlots
    ⟨map.key.size, map.key.align⟩
    ((map.valueType entry.valueKind).extent (recorded memo)))).2

/-- A member's planned bytes are those of its type. -/
structure MemberPlan.Sound (options : LayoutOptions) (memo : List (MessageId × MessageLayout))
    (m : MemberPlan) : Prop where
  stored : m.isBool = true ∧ m.size = 0 ∧ m.kind = .inlineScalar ∨
    (⟨m.size, m.align⟩ : Extent) = m.storageType.extent (recorded memo)
  inlined : m.kind = .inlineFixedSubMsg → Inlinable options memo m.target
  entry : ∀ entry, m.entry = some entry →
    ∃ map, m.declared = .map map ∧ entry.Sound options memo map

/-- A oneof member's planned bytes are those of its type. -/
structure OneofMemberPlan.Sound (options : LayoutOptions)
    (memo : List (MessageId × MessageLayout)) (m : OneofMemberPlan) : Prop where
  stored : (⟨m.size, m.align⟩ : Extent) = m.storageType.extent (recorded memo)
  inlined : m.kind = .inlineFixedSubMsg → Inlinable options memo m.target

/-- A oneof's union covers its members. -/
structure OneofPlan.Sound (options : LayoutOptions) (memo : List (MessageId × MessageLayout))
    (o : OneofPlan) : Prop where
  members : ∀ m ∈ o.members, m.Sound options memo
  size : o.unionSize = maxSize (o.members.map fun m => ⟨m.size, m.align⟩)
  align : o.unionAlign = maxAlign (o.members.map fun m => ⟨m.size, m.align⟩)

/-- Everything in a classified message is sound. -/
structure MessageLayout.Classified (options : LayoutOptions)
    (memo : List (MessageId × MessageLayout)) (layout : MessageLayout) : Prop where
  members : ∀ m ∈ layout.members, m.Sound options memo
  oneofs : ∀ o ∈ layout.oneofs, o.Sound options memo

theorem maxSize_append (left right : List Extent) :
    maxSize (left ++ right) = max (maxSize left) (maxSize right) := by
  induction left with
  | nil => exact (Nat.zero_max _).symm
  | cons member left ih => rw [List.cons_append, maxSize, maxSize, ih, max_assoc]

/-! ## A longer memo -/

theorem lookup_mono (longer : memo <+: memo') {id : MessageId} {layout : MessageLayout}
    (found : memo.lookup id = some layout) : memo'.lookup id = some layout := by
  obtain ⟨more, rfl⟩ := longer
  rw [List.lookup_append, found]
  rfl

theorem Inlinable.mono (longer : memo <+: memo') {target : Option MessageId}
    (inlinable : Inlinable options memo target) : Inlinable options memo' target := by
  obtain ⟨id, layout, same, found, fixed, small⟩ := inlinable
  exact ⟨id, layout, same, lookup_mono longer found, fixed, small⟩

theorem recorded_mono (longer : memo <+: memo') {target : Option MessageId}
    (inlinable : Inlinable options memo target) :
    recorded memo' (target.getD 0) = recorded memo (target.getD 0) := by
  obtain ⟨id, layout, rfl, found, -⟩ := inlinable
  simp only [recorded, Option.getD_some, found, lookup_mono longer found]

theorem EntryPlan.Sound.mono (longer : memo <+: memo') {map : MapField} {entry : EntryPlan}
    (sound : entry.Sound options memo map) : entry.Sound options memo' map where
  inlined kind := (sound.inlined kind).mono longer
  target := sound.target
  extent := by
    rw [sound.extent]
    have same : (map.valueType entry.valueKind).extent (recorded memo) =
        (map.valueType entry.valueKind).extent (recorded memo') := by
      simp only [MapField.valueType]
      split
      · rfl
      · rename_i target value
        split
        · rename_i inline
          have kept := recorded_mono longer (sound.inlined inline)
          rw [(sound.target target).mpr value] at kept
          exact kept.symm
        · rfl
    rw [same]

theorem MemberPlan.Sound.mono (longer : memo <+: memo') {m : MemberPlan}
    (sound : m.Sound options memo) : m.Sound options memo' where
  stored := by
    refine sound.stored.imp_right fun stored => stored.trans ?_
    cases kind : m.kind with
    | inlineFixedSubMsg =>
        simp only [MemberPlan.storageType, kind]
        exact (recorded_mono longer (sound.inlined kind)).symm
    | _ => simp only [MemberPlan.storageType, kind, StoreType.extent]
  inlined kind := (sound.inlined kind).mono longer
  entry entry met := by
    obtain ⟨map, declared, inner⟩ := sound.entry entry met
    exact ⟨map, declared, inner.mono longer⟩

theorem OneofMemberPlan.Sound.mono (longer : memo <+: memo') {m : OneofMemberPlan}
    (sound : m.Sound options memo) : m.Sound options memo' where
  stored := by
    apply sound.stored.trans
    cases kind : m.kind with
    | inlineFixedSubMsg =>
        simp only [OneofMemberPlan.storageType, kind]
        exact (recorded_mono longer (sound.inlined kind)).symm
    | _ => simp only [OneofMemberPlan.storageType, kind, StoreType.extent]
  inlined kind := (sound.inlined kind).mono longer

theorem OneofPlan.Sound.mono (longer : memo <+: memo') {o : OneofPlan}
    (sound : o.Sound options memo) : o.Sound options memo' :=
  ⟨fun m met => (sound.members m met).mono longer, sound.size, sound.align⟩

theorem MessageLayout.Classified.mono (longer : memo <+: memo') {layout : MessageLayout}
    (sound : layout.Classified options memo) : layout.Classified options memo' :=
  ⟨fun m met => (sound.members m met).mono longer, fun o met => (sound.oneofs o met).mono longer⟩

/-! ## The recursion -/

/-- The invariant of the planner: every finished layout comes from a sound classification, messages
stored by value are finished first, and nothing in flight is finished. -/
structure Planner.Sound (options : LayoutOptions) (planner : Planner) : Prop where
  entries : ∀ entry ∈ planner.memo, ∃ raw : MessageLayout,
    raw.Classified options planner.memo ∧ entry.2 = finishLayout options raw
  listed : PostOrder (StoresByValue planner.memo) (planner.memo.map Prod.fst)
  apart : ∀ id ∈ planner.visiting, id ∉ planner.memo.map Prod.fst

/-- What a planning step leaves behind. -/
structure Planner.Grows (options : LayoutOptions) (planner final : Planner) : Prop where
  sound : final.Sound options
  visiting : final.visiting = planner.visiting
  memo : planner.memo <+: final.memo

theorem Planner.Sound.grows {planner : Planner} (sound : planner.Sound options) :
    planner.Grows options planner :=
  ⟨sound, rfl, List.prefix_rfl⟩

theorem Planner.Grows.trans {first second third : Planner} (left : first.Grows options second)
    (right : second.Grows options third) : first.Grows options third :=
  ⟨right.sound, right.visiting.trans left.visiting, left.memo.trans right.memo⟩

theorem lookup_isSome_iff {id : MessageId} :
    (memo.lookup id).isSome = true ↔ id ∈ memo.map Prod.fst := by
  induction memo with
  | nil => simp
  | cons entry memo ih =>
      obtain ⟨first, layout⟩ := entry
      by_cases same : id = first
      · simp [same]
      · rw [List.lookup_cons, beq_false_of_ne same, ih]
        simp [same]

theorem lookup_eq_none_iff {id : MessageId} :
    memo.lookup id = none ↔ id ∉ memo.map Prod.fst := by
  rw [← lookup_isSome_iff, Bool.not_eq_true, Option.isSome_eq_false_iff, Option.isNone_iff_eq_none]

section Steps

variable {schema : Schema} {compute : MessageId → Planner → Planning (MessageLayout × Planner)}
  {visiting : Finset MessageId}

/-- Computing a message that is neither finished nor in flight ends and finishes it. -/
def ComputeEnds (schema : Schema) (options : LayoutOptions)
    (compute : MessageId → Planner → Planning (MessageLayout × Planner))
    (visiting : Finset MessageId) : Prop :=
  visiting.card < kMaxChainDepth → ∀ id planner, planner.Sound options →
    planner.visiting = visiting → id ∉ visiting → planner.memo.lookup id = none →
    id < schema.messages.length →
    (compute id planner).Ends
      (fun result => planner.Grows options result.2 ∧ result.2.memo.lookup id = some result.1)
      fun _ => False

/-- The two decisions of `classify_message`. -/
def Planner.Store.Sound (options : LayoutOptions) (memo : List (MessageId × MessageLayout))
    (target : MessageId) (store : Planner.Store) : Prop :=
  store = ⟨.pointerSubMsg, kPtrSize, kPtrSize⟩ ∨
    store.kind = .inlineFixedSubMsg ∧ Inlinable options memo (some target) ∧
      (⟨store.size, store.align⟩ : Extent) = recorded memo target

theorem classifyMessage_ends (ends : ComputeEnds schema options compute visiting)
    {planner : Planner} (sound : planner.Sound options) (flight : planner.visiting = visiting)
    (target : MessageId) :
    (classifyMessage schema options compute target planner).Ends
      (fun result => planner.Grows options result.2 ∧
        result.1.Sound options result.2.memo target) fun _ => False := by
  rw [classifyMessage]
  split
  · rename_i follow
    obtain ⟨room, outside, known⟩ := follow
    have laid : (layoutFor schema compute target planner).Ends
        (fun result => planner.Grows options result.2 ∧
          result.2.memo.lookup target = some result.1) fun _ => False := by
      rw [layoutFor]
      cases found : planner.memo.lookup target with
      | some layout => exact ⟨sound.grows, found⟩
      | none =>
          simp only [if_pos known]
          exact ends (flight ▸ room) target planner sound flight (flight ▸ outside) found known
    apply laid.bind
    rintro ⟨layout, final⟩ ⟨grows, found⟩
    dsimp only at found ⊢
    split
    · rename_i inline
      refine ⟨grows, .inr ⟨rfl, ⟨target, layout, rfl, found, inline.1, inline.2⟩, ?_⟩⟩
      simp only [recorded, found]
    · exact ⟨grows, .inl rfl⟩
  · exact ⟨sound.grows, .inl rfl⟩

theorem classifyByteMember_ends (ends : ComputeEnds schema options compute visiting)
    {planner : Planner} (sound : planner.Sound options) (flight : planner.visiting = visiting)
    (field : Field) :
    (classifyByteMember schema options compute field planner).Ends
      (fun result => planner.Grows options result.2 ∧ result.1.Sound options result.2.memo)
      fun _ => False := by
  rw [classifyByteMember]
  split
  · rename_i target delimited type
    refine (classifyMessage_ends ends sound flight target).bind ?_
    rintro ⟨⟨kind, size, align⟩, final⟩ ⟨grows, same | ⟨rfl, inlinable, same⟩⟩
    · cases same
      exact ⟨grows, ⟨rfl, fun inline => (nomatch inline)⟩⟩
    · exact ⟨grows, ⟨same, fun _ => inlinable⟩⟩
  · rename_i kind type
    refine ⟨sound.grows, ⟨?_, fun inline => ?_⟩⟩
    · rcases kind with scalar | _
      · cases scalar <;> simp [OneofMemberPlan.storageType, Leaf.kind, Declared.leaf, type,
          StoreType.extent]
      · simp [OneofMemberPlan.storageType, Leaf.kind, Declared.leaf, type, StoreType.extent]
    · rcases kind with scalar | _
      · cases scalar <;> cases inline
      · cases inline

theorem classifyField_ends (ends : ComputeEnds schema options compute visiting)
    {planner : Planner} (sound : planner.Sound options) (flight : planner.visiting = visiting)
    (field : Field) :
    (classifyField schema options compute field planner).Ends
      (fun result => planner.Grows options result.2 ∧ result.1.Sound options result.2.memo)
      fun _ => False := by
  simp only [classifyField]
  split
  · exact ⟨sound.grows, ⟨.inr rfl, fun inline => (nomatch inline), fun _ met => (nomatch met)⟩⟩
  split
  · rename_i target delimited type
    refine (classifyMessage_ends ends sound flight target).bind ?_
    rintro ⟨⟨kind, size, align⟩, final⟩ ⟨grows, same | ⟨rfl, inlinable, same⟩⟩
    · cases same
      exact ⟨grows, ⟨.inr rfl, fun inline => (nomatch inline), fun _ met => (nomatch met)⟩⟩
    · refine ⟨grows, ⟨.inr ?_, fun _ => ?_, fun _ met => (nomatch met)⟩⟩
      · simpa [MemberPlan.storageType, type, StoreType.extent] using same
      · simpa [type] using inlinable
  · exact ⟨sound.grows, ⟨.inl ⟨rfl, rfl, rfl⟩, fun inline => (nomatch inline),
      fun _ met => (nomatch met)⟩⟩
  · rename_i kind notBool type
    refine ⟨sound.grows, ⟨.inr ?_, fun inline => ?_, fun _ met => (nomatch met)⟩⟩
    · rcases kind with scalar | _
      · cases scalar <;> simp [MemberPlan.storageType, Leaf.kind, Declared.leaf, type,
          StoreType.extent]
      · simp [MemberPlan.storageType, Leaf.kind, Declared.leaf, type, StoreType.extent]
    · rcases kind with scalar | _
      · cases scalar <;> cases inline
      · cases inline

theorem classifyMapValue_ends (ends : ComputeEnds schema options compute visiting)
    {planner : Planner} (sound : planner.Sound options) (flight : planner.visiting = visiting)
    (map : MapField) :
    (classifyMapValue schema options compute map planner).Ends
      (fun result => planner.Grows options result.2 ∧
        (result.1.kind = .inlineFixedSubMsg → ∃ target, map.value = .message target ∧
          Inlinable options result.2.memo (some target)) ∧
        (⟨result.1.size, result.1.align⟩ : Extent) =
          (map.valueType result.1.kind).extent (recorded result.2.memo)) fun _ => False := by
  rw [classifyMapValue]
  split
  · rename_i target value
    refine (classifyMessage_ends ends sound flight target).mono ?_ fun _ bad => bad
    rintro ⟨⟨kind, size, align⟩, final⟩ ⟨grows, same | ⟨rfl, inlinable, same⟩⟩
    · cases same
      exact ⟨grows, fun inline => (nomatch inline), by
        simp [MapField.valueType, value, StoreType.extent]⟩
    · exact ⟨grows, fun _ => ⟨target, value, inlinable⟩, by
        simpa [MapField.valueType, value, StoreType.extent] using same⟩
  · rename_i kind value
    refine ⟨sound.grows, fun inline => ?_, by simp [MapField.valueType, value, StoreType.extent]⟩
    rcases kind with scalar | _
    · cases scalar <;> cases inline
    · cases inline

theorem buildEntry_ends (ends : ComputeEnds schema options compute visiting)
    {planner : Planner} (sound : planner.Sound options) (flight : planner.visiting = visiting)
    (map : MapField) :
    (buildEntry schema options compute map planner).Ends
      (fun result => planner.Grows options result.2 ∧ result.1.Sound options result.2.memo map)
      fun _ => False := by
  rw [buildEntry]
  refine (classifyMapValue_ends ends sound flight map).bind ?_
  rintro ⟨⟨kind, size, align⟩, final⟩ ⟨grows, inlined, same⟩
  refine ⟨grows, ⟨fun inline => ?_, fun id => ?_, ?_⟩⟩
  · obtain ⟨target, value, inlinable⟩ := inlined inline
    simpa [value] using inlinable
  · cases map.value <;> simp
  · rw [← same]
    rfl

/-- A oneof with some of its members classified. -/
structure OneofPlan.Partial (options : LayoutOptions) (memo : List (MessageId × MessageLayout))
    (o : OneofPlan) : Prop where
  members : ∀ m ∈ o.members, m.Sound options memo
  size : o.unionSize = maxSize (o.members.map fun m => ⟨m.size, m.align⟩)
  align : max o.unionAlign 1 = maxAlign (o.members.map fun m => ⟨m.size, m.align⟩)

theorem addOneofMember_ends (ends : ComputeEnds schema options compute visiting)
    {start : Planner} (flight : start.visiting = visiting) {state : OneofPlan × Planner}
    (grown : start.Grows options state.2) (partly : state.1.Partial options state.2.memo)
    (field : Field) :
    (addOneofMember schema options compute state field).Ends
      (fun result => start.Grows options result.2 ∧ result.1.Partial options result.2.memo)
      fun _ => False := by
  obtain ⟨plan, planner⟩ := state
  simp only [addOneofMember]
  refine (classifyByteMember_ends ends grown.sound (grown.visiting.trans flight) field).bind ?_
  rintro ⟨member, final⟩ ⟨grows, classified⟩
  refine ⟨grown.trans grows, ⟨?_, ?_, ?_⟩⟩
  · intro m met
    rcases List.mem_append.mp met with earlier | last
    · exact (partly.members m earlier).mono grows.memo
    · cases List.mem_singleton.mp last
      exact classified
  · dsimp only
    rw [List.map_append, maxSize_append, partly.size]
    simp [maxSize]
  · dsimp only
    rw [List.map_append, maxAlign_append, ← partly.align]
    simp only [List.map_cons, List.map_nil, maxAlign]
    omega

theorem classifyOneof_ends (ends : ComputeEnds schema options compute visiting)
    {planner : Planner} (sound : planner.Sound options) (flight : planner.visiting = visiting)
    (fields : List Field) :
    (classifyOneof schema options compute fields planner).Ends
      (fun result => planner.Grows options result.2 ∧ result.1.Sound options result.2.memo)
      fun _ => False := by
  rw [classifyOneof]
  have looped : (fields.foldlM (addOneofMember schema options compute) ({ fields }, planner)).Ends
      (fun state => planner.Grows options state.2 ∧ state.1.Partial options state.2.memo)
      fun _ => False := by
    refine Outcome.Ends.foldlM ?_ ⟨sound.grows, ⟨by simp, rfl, rfl⟩⟩
    intro field _ state ⟨grown, partly⟩
    exact addOneofMember_ends ends flight grown partly field
  apply looped.bind
  rintro ⟨plan, final⟩ ⟨grows, partly⟩
  refine ⟨grows, ⟨partly.members, partly.size, ?_⟩⟩
  have aligned := partly.align
  dsimp only at aligned ⊢
  rw [← aligned]
  split <;> omega

theorem addField_ends (ends : ComputeEnds schema options compute visiting)
    {start : Planner} (flight : start.visiting = visiting) {state : MessageLayout × Planner}
    (grown : start.Grows options state.2) (partly : state.1.Classified options state.2.memo)
    (id : MessageId) (field : Field) :
    (addField schema options compute id state field).Ends
      (fun result => start.Grows options result.2 ∧ result.1.Classified options result.2.memo)
      fun _ => False := by
  obtain ⟨layout, planner⟩ := state
  simp only [addField]
  split
  · exact ⟨grown, ⟨partly.members, partly.oneofs⟩⟩
  · refine ⟨grown, ⟨?_, partly.oneofs⟩⟩
    intro m met
    rcases List.mem_append.mp met with earlier | last
    · exact partly.members m earlier
    · cases List.mem_singleton.mp last
      exact ⟨.inr rfl, fun inline => (nomatch inline), fun _ met => (nomatch met)⟩
  · refine (classifyField_ends ends grown.sound (grown.visiting.trans flight) field).bind ?_
    rintro ⟨plan, final⟩ ⟨grows, classified⟩
    refine ⟨grown.trans grows, ⟨?_, (partly.mono grows.memo).oneofs⟩⟩
    intro m met
    rcases List.mem_append.mp met with earlier | last
    · exact (partly.mono grows.memo).members m earlier
    · cases List.mem_singleton.mp last
      exact classified

/-- A map that no mode drops is listed with the entry that is planned for it. -/
theorem addMap_kept {id : MessageId} {map : MapField} (kept : options.mode id map.number ≠ .drop)
    (state : MessageLayout × Planner) :
    addMap schema options compute id state map =
      (buildEntry schema options compute map state.2 >>= fun built =>
        .ok ({ state.1 with
               members := state.1.members ++ [{
                 declared := .map map, kind := .map, size := kViewSize, align := kViewAlign
                 target := built.1.valueTarget, entry := some built.1 }] }, built.2)) := by
  rw [addMap]
  cases mode : options.mode id map.number with
  | drop => exact absurd mode kept
  | raw | materialize => rfl

theorem addMap_ends (ends : ComputeEnds schema options compute visiting)
    {start : Planner} (flight : start.visiting = visiting) {state : MessageLayout × Planner}
    (grown : start.Grows options state.2) (partly : state.1.Classified options state.2.memo)
    (id : MessageId) (map : MapField) :
    (addMap schema options compute id state map).Ends
      (fun result => start.Grows options result.2 ∧ result.1.Classified options result.2.memo)
      fun _ => False := by
  obtain ⟨layout, planner⟩ := state
  by_cases dropped : options.mode id map.number = .drop
  · simp only [addMap, dropped]
    exact ⟨grown, ⟨partly.members, partly.oneofs⟩⟩
  rw [addMap_kept dropped]
  refine (buildEntry_ends ends grown.sound (grown.visiting.trans flight) map).bind ?_
  rintro ⟨entry, final⟩ ⟨grows, built⟩
  refine ⟨grown.trans grows, ⟨?_, (partly.mono grows.memo).oneofs⟩⟩
  intro m met
  rcases List.mem_append.mp met with earlier | last
  · exact (partly.mono grows.memo).members m earlier
  · cases List.mem_singleton.mp last
    refine ⟨.inr rfl, fun inline => (by cases inline), fun other same => ?_⟩
    cases same
    exact ⟨map, rfl, built⟩

theorem addOneof_ends (ends : ComputeEnds schema options compute visiting)
    {start : Planner} (flight : start.visiting = visiting) {state : MessageLayout × Planner}
    (grown : start.Grows options state.2) (partly : state.1.Classified options state.2.memo)
    (fields : List Field) :
    (addOneof schema options compute state fields).Ends
      (fun result => start.Grows options result.2 ∧ result.1.Classified options result.2.memo)
      fun _ => False := by
  obtain ⟨layout, planner⟩ := state
  simp only [addOneof]
  refine (classifyOneof_ends ends grown.sound (grown.visiting.trans flight) fields).bind ?_
  rintro ⟨plan, final⟩ ⟨grows, classified⟩
  refine ⟨grown.trans grows, ⟨(partly.mono grows.memo).members, ?_⟩⟩
  intro o met
  rcases List.mem_append.mp met with earlier | last
  · exact (partly.mono grows.memo).oneofs o earlier
  · cases List.mem_singleton.mp last
    exact classified

end Steps

/-! ## Finishing a message -/

/-- A member before its bits and its offset are chosen. -/
def MemberPlan.bare (m : MemberPlan) : MemberPlan :=
  { m with offset := 0, presenceBit := none, valueBit := none }

/-- A oneof before its offsets are chosen. -/
def OneofPlan.bare (o : OneofPlan) : OneofPlan :=
  { o with discOffset := 0, unionOffset := 0 }

theorem assignBits_bare (members : List MemberPlan) (next : Nat) :
    (assignBits members next).1.map MemberPlan.bare = members.map MemberPlan.bare := by
  induction members generalizing next with
  | nil => rfl
  | cons m members ih => simp only [assignBits, List.map_cons, ih, MemberPlan.bare]

theorem placeMembers_bare (placed : List (Place × Nat)) (index : Nat) (members : List MemberPlan) :
    (placeMembers placed index members).map MemberPlan.bare = members.map MemberPlan.bare := by
  induction members generalizing index with
  | nil => rfl
  | cons m members ih => simp only [placeMembers, List.map_cons, ih, MemberPlan.bare]

theorem placeOneofs_bare (placed : List (Place × Nat)) (index : Nat) (oneofs : List OneofPlan) :
    (placeOneofs placed index oneofs).map OneofPlan.bare = oneofs.map OneofPlan.bare := by
  induction oneofs generalizing index with
  | nil => rfl
  | cons o oneofs ih => simp only [placeOneofs, List.map_cons, ih, OneofPlan.bare]

theorem finishLayout_members (options : LayoutOptions) (raw : MessageLayout) :
    ((finishLayout options raw).members.map MemberPlan.bare).Perm
      (raw.members.map MemberPlan.bare) := by
  simp only [finishLayout, orderMembers]
  refine ((List.perm_insertionSort _ _).map _).trans ?_
  rw [placeMembers_bare]
  simp only [allocateBits, assignBits_bare]
  exact List.Perm.refl _

theorem finishLayout_oneofs (options : LayoutOptions) (raw : MessageLayout) :
    (finishLayout options raw).oneofs.map OneofPlan.bare = raw.oneofs.map OneofPlan.bare := by
  simp only [finishLayout, orderMembers, placeOneofs_bare]
  rfl

theorem MemberPlan.bare_sound {m : MemberPlan} :
    m.bare.Sound options memo ↔ m.Sound options memo :=
  ⟨fun sound => ⟨sound.stored, sound.inlined, sound.entry⟩,
    fun sound => ⟨sound.stored, sound.inlined, sound.entry⟩⟩

theorem OneofPlan.bare_sound {o : OneofPlan} :
    o.bare.Sound options memo ↔ o.Sound options memo :=
  ⟨fun sound => ⟨sound.members, sound.size, sound.align⟩,
    fun sound => ⟨sound.members, sound.size, sound.align⟩⟩

theorem finishLayout_classified {raw : MessageLayout} (sound : raw.Classified options memo) :
    (finishLayout options raw).Classified options memo where
  members m met := by
    have bare := (finishLayout_members options raw).subset (List.mem_map_of_mem met)
    obtain ⟨m', met', same⟩ := List.mem_map.mp bare
    rw [← MemberPlan.bare_sound, ← same]
    exact MemberPlan.bare_sound.mpr (sound.members m' met')
  oneofs o met := by
    have bare := List.mem_map_of_mem (f := OneofPlan.bare) met
    rw [finishLayout_oneofs] at bare
    obtain ⟨o', met', same⟩ := List.mem_map.mp bare
    rw [← OneofPlan.bare_sound, ← same]
    exact OneofPlan.bare_sound.mpr (sound.oneofs o' met')

/-- Everything stored by value is planned and small. -/
theorem MessageLayout.Classified.inlinable {layout : MessageLayout}
    (sound : layout.Classified options memo) {target : MessageId}
    (stored : target ∈ layout.storedByValue) : Inlinable options memo (some target) := by
  simp only [MessageLayout.storedByValue, List.mem_append, List.mem_filterMap, List.mem_flatMap,
    Option.bind_eq_some_iff] at stored
  rcases stored with (⟨m, met, same⟩ | ⟨o, met, m, met', same⟩) | ⟨m, met, entry, mapped, same⟩
  · split at same
    · rename_i inline
      rw [← same]
      exact (sound.members m met).inlined inline
    · cases same
  · split at same
    · rename_i inline
      rw [← same]
      exact ((sound.oneofs o met).members m met').inlined inline
    · cases same
  · split at same
    · rename_i inline
      obtain ⟨map, -, inner⟩ := (sound.members m met).entry entry mapped
      rw [← same]
      exact inner.inlined inline
    · cases same

/-! ## The whole recursion -/

variable {schema : Schema}

theorem Planner.Sound.visit {planner : Planner} (sound : planner.Sound options) {id : MessageId}
    (unknown : planner.memo.lookup id = none) :
    ({ planner with visiting := insert id planner.visiting } : Planner).Sound options where
  entries := sound.entries
  listed := sound.listed
  apart other inFlight := by
    rcases Finset.mem_insert.mp inFlight with rfl | earlier
    · exact lookup_eq_none_iff.mp unknown
    · exact sound.apart other earlier

theorem storesByValue_append {id : MessageId} {layout : MessageLayout} {other target : MessageId}
    (met : other ∈ memo.map Prod.fst) :
    StoresByValue (memo ++ [(id, layout)]) other target ↔ StoresByValue memo other target := by
  obtain ⟨found, isFound⟩ := Option.isSome_iff_exists.mp (lookup_isSome_iff.mpr met)
  simp only [StoresByValue, List.lookup_append, isFound, Option.some_or]

/-- Finishing the message in flight. -/
theorem Planner.Sound.store {planner : Planner} {id : MessageId}
    (sound : planner.Sound options) (inFlight : id ∈ planner.visiting) {raw : MessageLayout}
    (classified : raw.Classified options planner.memo) :
    planner.store id (finishLayout options raw) =
        (finishLayout options raw,
          ⟨planner.memo ++ [(id, finishLayout options raw)], planner.visiting.erase id⟩) ∧
      (⟨planner.memo ++ [(id, finishLayout options raw)], planner.visiting.erase id⟩ :
        Planner).Sound options := by
  have unknown := lookup_eq_none_iff.mpr (sound.apart id inFlight)
  refine ⟨by simp only [Planner.store, unknown], ⟨?_, ?_, ?_⟩⟩
  · intro entry met
    rcases List.mem_append.mp met with earlier | last
    · obtain ⟨other, inner, same⟩ := sound.entries entry earlier
      exact ⟨other, inner.mono (List.prefix_append _ _), same⟩
    · cases List.mem_singleton.mp last
      exact ⟨raw, classified.mono (List.prefix_append _ _), rfl⟩
  · rw [List.map_append]
    refine PostOrder.append (sound.listed.mono ?_) (sound.apart id inFlight) ?_
    · intro other met target stores
      exact (storesByValue_append met).mp stores
    · rintro target ⟨layout, found, stored⟩
      rw [List.lookup_append, unknown, Option.none_or, List.lookup_cons_self] at found
      cases found
      obtain ⟨_, inner, same, known, -⟩ := (finishLayout_classified classified).inlinable stored
      cases same
      exact lookup_isSome_iff.mp (by rw [known]; rfl)
  · intro other met
    obtain ⟨differs, flying⟩ := Finset.mem_erase.mp met
    rw [List.map_append, List.mem_append, not_or]
    exact ⟨sound.apart other flying, by simpa using differs⟩

theorem compute_ends (frames : Nat) (visiting : Finset MessageId)
    (bounded : kMaxChainDepth ≤ frames + visiting.card) :
    ComputeEnds schema options (compute schema options frames) visiting := by
  induction frames generalizing visiting with
  | zero =>
      intro room
      omega
  | succ frames ih =>
      intro _ id planner sound flight outside unknown _
      rw [compute]
      have nested := ih (insert id visiting) (by rw [Finset.card_insert_of_notMem outside]; omega)
      have flight' : insert id planner.visiting = insert id visiting := by rw [flight]
      have fields : ((schema.get id).fields.foldlM
          (addField schema options (compute schema options frames) id)
          ({ id }, { planner with visiting := insert id planner.visiting })).Ends
          (fun state => ({ planner with visiting := insert id planner.visiting } : Planner).Grows
            options state.2 ∧ state.1.Classified options state.2.memo) fun _ => False := by
        refine Outcome.Ends.foldlM ?_ ⟨(sound.visit unknown).grows, ⟨by simp, by simp⟩⟩
        intro field _ state ⟨grown, partly⟩
        exact addField_ends nested flight' grown partly id field
      refine fields.bind fun state ⟨grown, partly⟩ => ?_
      refine Outcome.Ends.bind (Outcome.Ends.foldlM (fun map _ state good =>
        addMap_ends nested flight' good.1 good.2 id map) ⟨grown, partly⟩) fun state good => ?_
      refine Outcome.Ends.bind (Outcome.Ends.foldlM (fun fields _ state good =>
        addOneof_ends nested flight' good.1 good.2 fields) good) ?_
      rintro ⟨layout, final⟩ ⟨grows, classified⟩
      have inFlight : id ∈ final.visiting := by
        rw [grows.visiting]
        exact Finset.mem_insert_self id _
      obtain ⟨stored, sound'⟩ := grows.sound.store inFlight classified
      dsimp only
      rw [stored]
      refine ⟨⟨sound', ?_, grows.memo.trans (List.prefix_append _ _)⟩, ?_⟩
      · dsimp only
        rw [grows.visiting]
        exact Finset.erase_insert (flight ▸ outside)
      · rw [List.lookup_append, lookup_eq_none_iff.mpr (grows.sound.apart id inFlight),
          Option.none_or, List.lookup_cons_self]

theorem layoutFor_ends {planner : Planner} (sound : planner.Sound options)
    (idle : planner.visiting = ∅) (id : MessageId) :
    (layoutFor schema (compute schema options kMaxChainDepth) id planner).Ends
      (fun result => planner.Grows options result.2 ∧
        (id < schema.messages.length → id ∈ result.2.memo.map Prod.fst)) fun _ => False := by
  rw [layoutFor]
  cases found : planner.memo.lookup id with
  | some layout => exact ⟨sound.grows, fun _ => lookup_isSome_iff.mp (by rw [found]; rfl)⟩
  | none =>
      dsimp only
      split
      · rename_i known
        refine (compute_ends kMaxChainDepth ∅ (by simp) (by decide) id planner sound idle
          (Finset.notMem_empty id) found known).mono ?_ fun _ bad => bad
        rintro result ⟨grows, stored⟩
        exact ⟨grows, fun _ => lookup_isSome_iff.mp (by rw [stored]; rfl)⟩
      · rename_i unknown
        exact ⟨sound.grows, fun known => absurd known unknown⟩

/-- Planning ends, in a sound planner that knows every message of the walk. -/
theorem planLayouts_ends (schema : Schema) (options : LayoutOptions) (walk : List MessageId) :
    (planLayouts schema options walk).Ends
      (fun planner => planner.Sound options ∧
        ∀ id ∈ walk, id < schema.messages.length → id ∈ planner.memo.map Prod.fst)
      fun _ => False := by
  have walked : ∀ planner : Planner, planner.Sound options → planner.visiting = ∅ →
      (walk.foldlM (fun planner id => Prod.snd <$>
        layoutFor schema (compute schema options kMaxChainDepth) id planner) planner).Ends
      (fun final => planner.Grows options final ∧
        ∀ id ∈ walk, id < schema.messages.length → id ∈ final.memo.map Prod.fst)
      fun _ => False := by
    induction walk with
    | nil => exact fun planner sound _ => ⟨sound.grows, by simp⟩
    | cons id walk ih =>
        intro planner sound idle
        rw [List.foldlM_cons, map_eq_pure_bind, bind_assoc]
        refine (layoutFor_ends sound idle id).bind ?_
        rintro ⟨layout, next⟩ ⟨grows, listed⟩
        refine (ih next grows.sound (grows.visiting.trans idle)).mono ?_ fun _ bad => bad
        rintro final ⟨grows', rest⟩
        refine ⟨grows.trans grows', fun other met known => ?_⟩
        rcases List.mem_cons.mp met with rfl | later
        · exact (grows'.memo.map Prod.fst).subset (listed known)
        · exact rest other later known
  refine (walked {} ⟨by simp, PostOrder.nil, by simp⟩ rfl).mono ?_ fun _ bad => bad
  exact fun final good => ⟨good.1.sound, good.2⟩

theorem planLayouts_ok (schema : Schema) (options : LayoutOptions) (walk : List MessageId) :
    ∃ planner, planLayouts schema options walk = .ok planner ∧ planner.Sound options ∧
      ∀ id ∈ walk, id < schema.messages.length → id ∈ planner.memo.map Prod.fst := by
  have ends := planLayouts_ends schema options walk
  cases planned : planLayouts schema options walk with
  | ok planner =>
      rw [planned] at ends
      exact ⟨planner, rfl, ends⟩
  | fail error => exact error.elim
  | outside =>
      rw [planned] at ends
      exact ends.elim
  | spin =>
      rw [planned] at ends
      exact ends.elim

end RapidProto
