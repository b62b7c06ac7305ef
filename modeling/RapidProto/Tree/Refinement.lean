import RapidProto.Tree.Tracks

/-!
# The arena decoder refines the documented reading

Body by body, the generated decoder does what the fold over the records does, except that it may
report that memory ran out.
-/

namespace RapidProto

namespace Frame

variable {schema : Schema} {plan : Plan} {allocator : Allocator} {id : MessageId}
  {frame frame' : Frame allocator} {progress : Progress} {field : Field}

section Presence

@[simp] theorem setPresence_slot :
    (frame.setPresence schema plan id field).out.slot = frame.out.slot := by
  rw [setPresence]
  split <;> [rfl; (split <;> rfl)]

theorem setPresence_present (needed : plan.needsPresence id field = true) :
    (frame.setPresence schema plan id field).out.mask
      (plan.bitIndex id (schema.get id) (.presence field.number)) = true := by
  simp [setPresence, needed]

theorem setPresence_required (isRequired : field.presence = .required) :
    (frame.setPresence schema plan id field).req ((schema.get id).requiredBit field.number) =
      true := by
  have unneeded : plan.needsPresence id field = false := by
    simp [Plan.needsPresence, isRequired]
  simp [setPresence, unneeded, isRequired]

theorem setPresence_value (declared : field ∈ (schema.get id).fields)
    (kept : plan.mode id field.number ≠ .drop) :
    (frame.setPresence schema plan id field).out.mask
        (plan.bitIndex id (schema.get id) (.value field.number)) =
      frame.out.mask (plan.bitIndex id (schema.get id) (.value field.number)) := by
  rw [setPresence]
  split
  · rename_i needed
    have differ : plan.bitIndex id (schema.get id) (.value field.number) ≠
        plan.bitIndex id (schema.get id) (.presence field.number) :=
      (Plan.bitIndex_ne (Plan.presence_allocated declared kept needed) (by simp)).symm
    simp [Function.update_of_ne differ]
  · split <;> rfl

end Presence

namespace Tracks

/-- A singular field occurred and was stored. -/
theorem pushSingular (tracks : frame.Tracks schema plan id progress)
    (declared : field ∈ (schema.get id).fields) (singular : field.isRepeated = false)
    (keeps : frame.Keeps schema plan id frame' field.number none) {behaviour : Behaviour}
    (reads : seenAs schema plan (plainAccessor schema plan id field frame'.out) = behaviour)
    (seen : ∀ target delimited, field.type = .message target delimited →
      frame'.seen schema plan id field = true)
    (required : field.presence = .required →
      frame'.req ((schema.get id).requiredBit field.number) = true) :
    frame'.Tracks schema plan id (progress.push field.number behaviour) := by
  rw [Progress.push_eq]
  refine tracks.extend (Message.plain_mem.mpr declared) keeps ?_
  simp only [MemberTracks, Member.number, Progress.occurrences_extend]
  refine ⟨?_, fun isRequired => ?_⟩
  · rw [PlainTracks, if_neg (by simp [singular])]
    refine ⟨fun _ => ?_, fun target delimited type => ?_, fun unmet => ?_⟩
    · simp [reads]
    · simp [seen target delimited type]
    · simp at unmet
  · simp [required isRequired]

/-- Elements were appended to a repeated field. -/
theorem pushElements (tracks : frame.Tracks schema plan id progress)
    (declared : field ∈ (schema.get id).fields) (repeated : field.isRepeated = true)
    (keeps : frame.Keeps schema plan id frame' field.number none) {events : List Behaviour}
    (holds : ArrayTracks schema plan (elementView plan id field) (frame'.accs field.number)
      (progress.history.occurrences field.number ++ events)) :
    frame'.Tracks schema plan id (progress.extend field.number events) := by
  refine tracks.extend (Message.plain_mem.mpr declared) keeps ?_
  simp only [MemberTracks, Member.number, Progress.occurrences_extend]
  refine ⟨?_, fun isRequired => ?_⟩
  · rw [PlainTracks, if_pos repeated]
    exact holds
  · simp [Field.isRepeated, isRequired] at repeated

end Tracks
end Frame

/-! ## Leaves -/

theorem convert_text {kind : Leaf} {value : Payload} {bytes : List Byte}
    (text : kind.convert value = .text bytes) : bytes = value.bytes ∨ bytes = [] := by
  cases value with
  | len found =>
      simp only [Leaf.convert, Value.text.injEq] at text
      exact .inl text.symm
  | i32 raw => cases text
  | i64 raw => cases text
  | varint raw =>
      right
      cases kind with
      | enum => cases text
      | scalar type =>
          cases type <;> simp_all [Leaf.convert, Leaf.ofVarint, Scalar.ofVarint, Scalar.zero]
  | group body =>
      right
      cases kind with
      | enum => cases text
      | scalar type => cases type <;> simp_all [Leaf.convert, Leaf.zero, Scalar.zero]

theorem read_makeString {bytes : List Byte} (fits : bytes.length ≤ kUint32Max) :
    makeString bytes = .scalar (.text bytes) := by
  rw [makeString, if_neg (by omega)]

/-- A stored leaf reads back. -/
theorem read_storeLeaf (kind : Leaf) {value : Payload} (fits : value.bytes.length ≤ kUint32Max) :
    (storeLeaf kind value).read kind = kind.convert value := by
  rw [storeLeaf]
  split
  · rename_i bytes text
    have short : bytes.length ≤ kUint32Max := by
      rcases convert_text text with rfl | rfl
      · exact fits
      · simp
    rw [read_makeString short, text]
    rfl
  · rfl

/-- A converted bool is a flag. -/
theorem convert_bool {value : Payload} (isVarint : value.wire = .varint) :
    Value.flag (decide ((Leaf.scalar .bool).convert value = .flag true)) =
      (Leaf.scalar .bool).convert value := by
  cases value with
  | varint raw =>
      simp only [Leaf.convert, Leaf.ofVarint, Scalar.ofVarint, Value.flag.injEq]
      cases raw != 0 <;> rfl
  | len bytes => cases isVarint
  | i32 raw => cases isVarint
  | i64 raw => cases isVarint
  | group body => cases isVarint

/-! ## Field bodies -/

section Bodies

variable {schema : Schema} {plan : Plan} {allocator : Allocator} {id : MessageId}
  {decode : MessageId → Cell → List Byte → allocator.State →
    Outcome DecodeError (Cell × allocator.State)}
  {sub : MessageId → List Byte → Outcome DecodeError Behaviour}

/-- A sub-decoder that refines a sub-reading on bodies of admissible length. -/
def SubRefines (schema : Schema) (plan : Plan)
    (decode : MessageId → Cell → List Byte → allocator.State →
      Outcome DecodeError (Cell × allocator.State))
    (sub : MessageId → List Byte → Outcome DecodeError Behaviour) : Prop :=
  ∀ target body arena, body.length ≤ kUint32Max →
    Outcome.Refines
      (fun result behaviour => result.1.behaviour schema plan (.message target) = behaviour)
      allocator.Exhausted (decode target .zero body arena) (sub target body)

/-- One field body against its reading. -/
def BodySimulates {σ τ : Type} (related : σ → τ → Prop) (excuse : DecodeError → Prop)
    (wire : WireType) (left : Body σ DecodeError) (right : Body τ DecodeError) : Prop :=
  ∃ between : σ → τ → Prop,
    (∀ state state', related state state' →
      Outcome.Refines between excuse (left.before state) (right.before state')) ∧
    ∀ state state' value, between state state' → value.wire = wire →
      value.bytes.length ≤ kUint32Max →
      Outcome.Refines related excuse (left.after state value) (right.after state' value)

theorem decodeBehind_refines (subRefines : SubRefines schema plan decode sub) (target : MessageId)
    {body : List Byte} (fits : body.length ≤ kUint32Max) (arena : allocator.State) :
    Outcome.Refines
      (fun result behaviour => seenAs schema plan (pointee target result.1) = behaviour ∧
        result.1 ≠ .zero)
      allocator.Exhausted (decodeBehind plan allocator decode target body arena)
      (sub target body) := by
  rw [decodeBehind]
  cases created : allocator.create arena (plan.extent target).1 (plan.extent target).2 with
  | none => exact .inr (Allocator.exhausted_create created)
  | some pair =>
      rw [← Outcome.bind_ok (sub target body)]
      refine (subRefines target body pair.2 fits).bind fun result behaviour same => ?_
      exact Outcome.refines_ok ⟨same, by simp⟩

/-- A singular scalar, enum or string. -/
theorem singularBody_simulates {field : Field} {kind : Leaf}
    (declared : field ∈ (schema.get id).fields) (kept : plan.mode id field.number ≠ .drop)
    (type : field.type = .leaf kind) (singular : field.isRepeated = false) :
    BodySimulates (Frame.Tracks schema plan id) allocator.Exhausted
      field.type.wire (singularBody schema plan allocator id field kind)
      (plainBody (plan.reading schema) sub id field) := by
  refine ⟨Frame.Tracks schema plan id, fun frame progress tracks => ?_,
    fun frame progress value tracks wire fits => ?_⟩
  · simp only [singularBody, plainBody, type]
    exact Outcome.refines_ok tracks
  simp only [singularBody, plainBody, type]
  apply Outcome.refines_ok
  have explicit : field.presence = .explicit → plan.needsPresence id field = true := by
    intro tracked
    simp only [Plan.needsPresence, tracked, Plan.kind, type, singular]
    cases kind with
    | enum => rfl
    | scalar scalar => cases scalar <;> rfl
  by_cases needed : Plan.needsValue field = true
  · rw [if_pos needed]
    have isBool : kind = .scalar .bool := by
      simp only [Plan.needsValue, type, decide_eq_true_eq, FieldType.leaf.injEq] at needed
      exact needed.1
    subst isBool
    refine tracks.pushSingular declared singular
      ((Frame.Keeps.setMask (Plan.value_allocated declared kept needed) (.inr rfl) _).trans
        (Frame.Keeps.setPresence declared kept)) ?_
      (fun target delimited other => by rw [type] at other; cases other)
      fun isRequired => Frame.setPresence_required isRequired
    simp only [plainAccessor, type, singular, Bool.false_eq_true, if_false, needed, if_true]
    rw [if_neg, seenAs, behaviour_known, Frame.setPresence_value declared kept]
    · simp only [Cell.mask_setMask, Function.update_self]
      rw [convert_bool (by rw [wire, type]; rfl)]
    · rintro ⟨tracked, unset⟩
      exact unset (Frame.setPresence_present (explicit tracked))
  · rw [if_neg needed]
    refine tracks.pushSingular declared singular
      ((Frame.Keeps.setSlot (storeLeaf kind value) frame.arena).trans
        (Frame.Keeps.setPresence declared kept)) ?_
      (fun target delimited other => by rw [type] at other; cases other)
      fun isRequired => Frame.setPresence_required isRequired
    simp only [plainAccessor, type, singular, Bool.false_eq_true, if_false, needed]
    rw [if_neg, seenAs, behaviour_leaf]
    · simp [read_storeLeaf kind fits]
    · rintro ⟨tracked, unset⟩
      exact unset (Frame.setPresence_present (explicit tracked))

/-- The repeated-occurrence check of a singular message field. -/
theorem rejectRepeated_refines {field : Field} {target : MessageId} {delimited : Bool}
    {frame : Frame allocator} {progress : Progress}
    (tracks : frame.Tracks schema plan id progress) (declared : field ∈ (schema.get id).fields)
    (kept : plan.mode id field.number ≠ .drop) (type : field.type = .message target delimited)
    (singular : field.isRepeated = false) :
    Outcome.Refines
      (fun frame progress => frame.Tracks schema plan id progress ∧
        progress.history.occurrences field.number = [])
      allocator.Exhausted
      (if frame.seen schema plan id field then .fail (.repeatedSingularMessage field.number)
        else .ok frame)
      (progress.rejectRepeated field.number) := by
  have tracked := tracks.plain field declared kept
  rw [PlainTracks, if_neg (by simp [singular])] at tracked
  rw [Progress.rejectRepeated, tracked.seen target delimited type]
  by_cases met : progress.history.occurrences field.number = []
  · rw [if_pos met, if_neg (by simp [met])]
    exact Outcome.refines_ok ⟨tracks, met⟩
  · rw [if_neg met, if_pos (by simp [met])]
    exact Outcome.refines_fail _

/-- A singular sub-message, inline or behind a pointer. -/
theorem messageBody_simulates (subRefines : SubRefines schema plan decode sub) {field : Field}
    {target : MessageId} {delimited : Bool} (declared : field ∈ (schema.get id).fields)
    (kept : plan.mode id field.number ≠ .drop) (type : field.type = .message target delimited)
    (singular : field.isRepeated = false) (materialized : plan.mode id field.number ≠ .raw) :
    BodySimulates (Frame.Tracks schema plan id) allocator.Exhausted
      field.type.wire (messageBody schema plan allocator decode id field target)
      (plainBody (plan.reading schema) sub id field) := by
  refine ⟨fun frame progress => frame.Tracks schema plan id progress ∧
    progress.history.occurrences field.number = [], fun frame progress tracks => ?_,
    fun frame progress value before wire fits => ?_⟩
  · simp only [messageBody, plainBody, type, singular, Bool.false_eq_true, if_false]
    exact rejectRepeated_refines tracks declared kept type singular
  obtain ⟨tracks, unmet⟩ := before
  have tracked := tracks.plain field declared kept
  rw [PlainTracks, if_neg (by simp [singular])] at tracked
  have present : field.presence ≠ .implicit :=
    (schema.get id).tracked field declared target delimited type
  have required : field.presence ≠ .explicit → field.presence = .required := by
    intro other
    cases presence : field.presence with
    | implicit => exact absurd presence present
    | explicit => exact absurd presence other
    | required => rfl
    | repeated => simp [Field.isRepeated, presence] at singular
  simp only [messageBody, plainBody, type, Plan.reading, materialized, if_false,
    tracked.fresh unmet]
  by_cases stored : plan.inlined id field.number = true
  · have kind : plan.kind id field = .inlineFixedSubMsg := by
      simp [Plan.kind, type, materialized, singular, stored]
    have needed : plan.needsPresence id field = decide (field.presence = .explicit) := by
      simp [Plan.needsPresence, kind]
    simp only [stored, if_true]
    refine (subRefines target value.bytes frame.arena fits).bind fun result behaviour same => ?_
    refine Outcome.refines_ok (tracks.pushSingular declared singular
      ((Frame.Keeps.setSlot result.1 result.2).trans (Frame.Keeps.setPresence declared kept))
      ?_ (fun _ _ _ => ?_) fun isRequired => Frame.setPresence_required isRequired)
    · simp only [plainAccessor, type, kind]
      rw [if_neg]
      · simpa [seenAs] using same
      · rintro ⟨bit, unset⟩
        exact unset (Frame.setPresence_present bit)
    · simp only [Frame.seen, kind]
      by_cases explicit : field.presence = .explicit
      · rw [if_pos (by simp [needed, explicit])]
        exact Frame.setPresence_present (by simp [needed, explicit])
      · rw [if_neg (by simp [needed, explicit])]
        exact Frame.setPresence_required (required explicit)
  · have kind : plan.kind id field = .pointerSubMsg := by
      simp [Plan.kind, type, materialized, singular, stored]
    simp only [stored]
    refine (decodeBehind_refines subRefines target fits frame.arena).bind
      fun result behaviour found => ?_
    obtain ⟨same, nonnull⟩ := found
    refine Outcome.refines_ok (tracks.pushSingular declared singular
      ((Frame.Keeps.setSlot result.1 result.2).trans (Frame.Keeps.setPresence declared kept))
      ?_ (fun _ _ _ => ?_) fun isRequired => Frame.setPresence_required isRequired)
    · simp only [plainAccessor, type, kind, Frame.setPresence_slot, Cell.slot_setSlot,
        Function.update_self]
      exact same
    · simp only [Frame.seen, kind, Frame.setPresence_slot, Cell.slot_setSlot, Function.update_self]

/-- A singular raw field. -/
theorem rawBody_simulates_singular {field : Field} {target : MessageId} {delimited : Bool}
    (declared : field ∈ (schema.get id).fields) (kept : plan.mode id field.number ≠ .drop)
    (type : field.type = .message target delimited) (singular : field.isRepeated = false)
    (raw : plan.mode id field.number = .raw) :
    BodySimulates (Frame.Tracks schema plan id) allocator.Exhausted
      field.type.wire (rawBody schema plan allocator id field)
      (plainBody (plan.reading schema) sub id field) := by
  have kind : plan.kind id field = .raw := by simp [Plan.kind, type, raw]
  refine ⟨fun frame progress => frame.Tracks schema plan id progress ∧
    progress.history.occurrences field.number = [], fun frame progress tracks => ?_,
    fun frame progress value before wire fits => ?_⟩
  · simp only [rawBody, plainBody, type, singular, Bool.false_eq_true, if_false, not_false_eq_true,
      true_and]
    exact rejectRepeated_refines tracks declared kept type singular
  simp only [rawBody, plainBody, type, Plan.reading, raw, singular, Bool.false_eq_true, if_false,
    if_true]
  refine Outcome.refines_ok (before.1.pushSingular declared singular
    ((Frame.Keeps.setSlot (makeString value.bytes) frame.arena).trans
      (Frame.Keeps.setPresence declared kept))
    ?_ (fun _ _ _ => ?_) fun isRequired => Frame.setPresence_required isRequired)
  · simp only [plainAccessor, type, kind, singular, Bool.false_eq_true, if_false,
      Frame.setPresence_slot, Cell.slot_setSlot, Function.update_self, read_makeString fits]
    cases field.presence <;> exact behaviour_leaf _
  · simp only [Frame.seen, kind, Frame.setPresence_slot, Cell.slot_setSlot,
      Function.update_self, read_makeString fits]

/-! ## Accumulated members -/

/-- The frame tracks the progress except that the accumulator of `number` has one element more. -/
def Reserved (schema : Schema) (plan : Plan) (id : MessageId) (number : Nat) (view : View)
    (last : Cell) (frame : Frame allocator) (progress : Progress) : Prop :=
  ∃ base cells, Frame.Tracks schema plan id base progress ∧
    base.Keeps schema plan id frame number none ∧ (frame.accs number).Holds (cells ++ [last]) ∧
    cells.map (Cell.behaviour schema plan view) = progress.history.occurrences number

variable {number : Nat} {view : View} {frame : Frame allocator} {progress : Progress}

theorem takeSlot_refines (tracks : frame.Tracks schema plan id progress)
    (array : ArrayTracks schema plan view (frame.accs number)
      (progress.history.occurrences number)) (size align : Nat) :
    Outcome.Refines (fun frame progress => ∃ last,
        Reserved schema plan id number view last frame progress)
      allocator.Exhausted (frame.takeSlot number size align) (.ok progress) := by
  obtain ⟨cells, holds, same⟩ := array
  have taken := @Growable.slot_ends _ frame.arena _ _ size align holds
  refine (taken.bind fun result stored => ?_).refines fun _ reserved => reserved
  obtain ⟨last, stored⟩ := stored
  refine ⟨last, frame, cells, tracks, Frame.Keeps.setAcc result.1 result.2, ?_, same⟩
  simpa [Frame.setAcc] using stored

/-- Writing the reserved slot. -/
theorem Reserved.fill {last : Cell}
    (reserved : Reserved schema plan id number view last frame progress) (cell : Cell)
    (arena : allocator.State) :
    ∃ frame', frame.fill number cell arena = .ok frame' ∧
      Reserved schema plan id number view cell frame' progress := by
  obtain ⟨base, cells, tracks, keeps, holds, same⟩ := reserved
  obtain ⟨filled, stored, holds'⟩ := Growable.fillSlot_spec (ε := DecodeError) holds cell
  refine ⟨frame.setAcc number filled arena, ?_, base, cells, tracks,
    keeps.trans (Frame.Keeps.setAcc filled arena), ?_, same⟩
  · rw [Frame.fill, stored, Outcome.ok_bind]
  · simpa [Frame.setAcc] using holds'

theorem Reserved.array {last : Cell}
    (reserved : Reserved schema plan id number view last frame progress) :
    ArrayTracks schema plan view (frame.accs number)
      (progress.history.occurrences number ++ [last.behaviour schema plan view]) := by
  obtain ⟨base, cells, -, -, holds, same⟩ := reserved
  exact ⟨cells ++ [last], holds, by simp [same]⟩

/-- A filled slot of a repeated field is one more occurrence. -/
theorem Reserved.finish {field : Field} {last : Cell}
    (reserved : Reserved schema plan id field.number (elementView plan id field) last frame
      progress) (declared : field ∈ (schema.get id).fields) (repeated : field.isRepeated = true) :
    frame.Tracks schema plan id (progress.push field.number
      (last.behaviour schema plan (elementView plan id field))) := by
  have array := reserved.array
  obtain ⟨base, cells, tracks, keeps, -, -⟩ := reserved
  exact tracks.pushElements declared repeated keeps array

theorem Frame.Tracks.array {field : Field} (tracks : frame.Tracks schema plan id progress)
    (declared : field ∈ (schema.get id).fields) (kept : plan.mode id field.number ≠ .drop)
    (repeated : field.isRepeated = true) :
    ArrayTracks schema plan (elementView plan id field) (frame.accs field.number)
      (progress.history.occurrences field.number) := by
  have tracked := tracks.plain field declared kept
  rwa [PlainTracks, if_pos repeated] at tracked

/-- One element of a repeated scalar, enum or string field. -/
theorem elementBody_simulates_leaf {field : Field} {kind : Leaf}
    (declared : field ∈ (schema.get id).fields) (kept : plan.mode id field.number ≠ .drop)
    (type : field.type = .leaf kind) (repeated : field.isRepeated = true) :
    BodySimulates (Frame.Tracks schema plan id) allocator.Exhausted
      field.type.wire (elementBody plan allocator decode field)
      (plainBody (plan.reading schema) sub id field) := by
  have elements : elementView plan id field = .leaf kind := by simp [elementView, type]
  refine ⟨fun frame progress => ∃ last, Reserved schema plan id field.number
    (elementView plan id field) last frame progress, fun frame progress tracks => ?_,
    fun frame progress value before wire fits => ?_⟩
  · simp only [elementBody, plainBody, type]
    exact takeSlot_refines tracks (tracks.array declared kept repeated) _ _
  obtain ⟨last, reserved⟩ := before
  obtain ⟨frame', filled, reserved'⟩ := reserved.fill (storeLeaf kind value) frame.arena
  simp only [elementBody, plainBody, type, filled]
  apply Outcome.refines_ok
  have finished := reserved'.finish declared repeated
  rwa [elements, behaviour_leaf, read_storeLeaf kind fits] at finished

/-- One element of a repeated message field. -/
theorem elementBody_simulates_message (subRefines : SubRefines schema plan decode sub)
    {field : Field} {target : MessageId} {delimited : Bool}
    (declared : field ∈ (schema.get id).fields) (kept : plan.mode id field.number ≠ .drop)
    (type : field.type = .message target delimited) (repeated : field.isRepeated = true)
    (materialized : plan.mode id field.number ≠ .raw) :
    BodySimulates (Frame.Tracks schema plan id) allocator.Exhausted
      field.type.wire (elementBody plan allocator decode field)
      (plainBody (plan.reading schema) sub id field) := by
  have elements : elementView plan id field = .message target := by
    simp [elementView, type, materialized]
  refine ⟨fun frame progress => ∃ last, Reserved schema plan id field.number
    (elementView plan id field) last frame progress, fun frame progress tracks => ?_,
    fun frame progress value before wire fits => ?_⟩
  · simp only [elementBody, plainBody, type, repeated, if_true]
    exact takeSlot_refines tracks (tracks.array declared kept repeated) _ _
  obtain ⟨last, reserved⟩ := before
  obtain ⟨frame', filled, reserved'⟩ := reserved.fill .zero frame.arena
  simp only [elementBody, plainBody, type, filled, Outcome.ok_bind, Plan.reading, materialized,
    if_false]
  refine (subRefines target value.bytes frame'.arena fits).bind fun result behaviour same => ?_
  obtain ⟨frame'', filled', reserved''⟩ := reserved'.fill result.1 result.2
  simp only [filled']
  apply Outcome.refines_ok
  have finished := reserved''.finish declared repeated
  rwa [elements, same] at finished

/-- One element of a repeated raw field. -/
theorem rawBody_simulates_repeated {field : Field} {target : MessageId} {delimited : Bool}
    (declared : field ∈ (schema.get id).fields) (kept : plan.mode id field.number ≠ .drop)
    (type : field.type = .message target delimited) (repeated : field.isRepeated = true)
    (raw : plan.mode id field.number = .raw) :
    BodySimulates (Frame.Tracks schema plan id) allocator.Exhausted
      field.type.wire (rawBody schema plan allocator id field)
      (plainBody (plan.reading schema) sub id field) := by
  have elements : elementView plan id field = .leaf (.scalar .bytes) := by
    simp [elementView, type, raw]
  have unmarked : ∀ frame : Frame allocator, frame.setPresence schema plan id field = frame := by
    intro frame
    have presence : field.presence = .repeated := by simpa [Field.isRepeated] using repeated
    simp [Frame.setPresence, Plan.needsPresence, presence]
  refine ⟨Frame.Tracks schema plan id, fun frame progress tracks => ?_,
    fun frame progress value tracks wire fits => ?_⟩
  · simp only [rawBody, plainBody, type, repeated, not_true_eq_false, false_and, if_false, if_true]
    exact Outcome.refines_ok tracks
  simp only [rawBody, plainBody, type, Plan.reading, raw, repeated, if_true, unmarked]
  refine @Outcome.Refines.bind _ _ _ _ _ _ _ _ _ (.ok progress) _
    (fun progress => .ok (progress.push field.number (.leaf (.text value.bytes))))
    (takeSlot_refines tracks (tracks.array declared kept repeated) 12 4)
    fun frame' progress' reserved => ?_
  obtain ⟨last, reserved⟩ := reserved
  obtain ⟨frame'', filled, reserved'⟩ := reserved.fill (makeString value.bytes) frame'.arena
  simp only [filled, Outcome.ok_bind]
  apply Outcome.refines_ok
  have finished := reserved'.finish declared repeated
  rwa [elements, behaviour_leaf, read_makeString fits] at finished

/-! ## Map entries -/

/-- The storage of a map entry against the records met in it. -/
structure EntryTracks (schema : Schema) (plan : Plan) (id : MessageId) (map : MapField)
    (frame : EntryFrame allocator) (entry : EntryProgress) : Prop where
  /-- The key. -/
  key : frame.entry.entryKey.read (.scalar map.key) = entry.key.getD map.key.zero
  /-- The value. -/
  value : seenAs schema plan (entryValueAccessor plan id map frame.entry) =
    entry.value.getD (map.unsetValue (plan.reading schema) id)
  /-- A message value knows whether it occurred. -/
  seen : ∀ target, map.value = .message target → frame.vseen = entry.value.isSome
  /-- A value that did not occur is zero. -/
  fresh : entry.value = none → frame.entry.entryValue = .zero

variable {map : MapField}

theorem entryTracks_empty (declared : map ∈ (schema.get id).maps) (arena : allocator.State) :
    EntryTracks schema plan id map ({ arena } : EntryFrame allocator) {} where
  key := rfl
  value := by
    have found := Message.member?_number (Message.mapped_mem.mpr declared)
    simp only [Member.number] at found
    simp only [Option.getD_none, MapField.unsetValue, Plan.reading, found]
    cases value : map.value with
    | leaf kind => simp [entryValueAccessor, value, seenAs, behaviour_leaf, Cell.entryValue, Cell.read]
    | message target => rfl
  seen _ _ := rfl
  fresh _ := rfl

/-- The entry loop's bodies do what the records of an entry say. -/
theorem entryArms_simulates (subRefines : SubRefines schema plan decode sub) :
    (entryArms plan allocator decode id map).Simulates (entryBodies sub map)
      (EntryTracks schema plan id map) allocator.Exhausted kUint32Max where
  fields := rfl
  wire _ _ _ := rfl
  native field listed _ := by
    simp only [entryArms, MapField.shapes, List.mem_cons, List.not_mem_nil, or_false] at listed
    rcases listed with rfl | rfl
    · refine ⟨EntryTracks schema plan id map, fun frame entry tracks => Outcome.refines_ok tracks,
        fun frame entry value tracks _ fits => Outcome.refines_ok ⟨?_, ?_, ?_, ?_⟩⟩
      · exact read_storeLeaf _ fits
      · exact tracks.value
      · exact tracks.seen
      · exact tracks.fresh
    · simp only [entryArms, entryBodies, OfNat.ofNat_ne_one, if_false]
      cases type : map.value with
      | leaf kind =>
          refine ⟨EntryTracks schema plan id map, fun frame entry tracks =>
            Outcome.refines_ok tracks,
            fun frame entry value tracks _ fits => Outcome.refines_ok ⟨tracks.key, ?_, ?_, ?_⟩⟩
          · simp [entryValueAccessor, type, seenAs, behaviour_leaf, Cell.entryValue,
              read_storeLeaf kind fits]
          · intro target other
            rw [type] at other
            cases other
          · intro unmet
            simp at unmet
      | message target =>
          refine ⟨fun frame entry => frame.entry.entryKey.read (.scalar map.key) =
              entry.key.getD map.key.zero ∧ frame.vseen = true ∧ frame.entry.entryValue = .zero,
            fun frame entry tracks => ?_, fun frame entry value between _ fits => ?_⟩
          · simp only [tracks.seen target type]
            cases met : entry.value with
            | some behaviour => exact Outcome.refines_fail _
            | none => exact Outcome.refines_ok ⟨tracks.key, rfl, tracks.fresh met⟩
          obtain ⟨key, vseen, fresh⟩ := between
          simp only [fresh]
          by_cases stored : plan.inlined id map.number = true
          · simp only [stored, if_true]
            refine (subRefines target value.bytes frame.arena fits).bind
              fun result behaviour same => Outcome.refines_ok ⟨key, ?_, ?_, ?_⟩
            · simp [entryValueAccessor, type, stored, seenAs, Cell.entryValue, same]
            · intro _ _
              exact vseen
            · intro unmet
              simp at unmet
          · simp only [stored]
            refine (decodeBehind_refines subRefines target fits frame.arena).bind
              fun result behaviour found => Outcome.refines_ok ⟨key, ?_, ?_, ?_⟩
            · simp [entryValueAccessor, type, stored, Cell.entryValue, found.1]
            · intro _ _
              exact vseen
            · intro unmet
              simp at unmet
  packed field listed packable _ := by
    simp only [entryArms, MapField.shapes, List.mem_cons, List.not_mem_nil, or_false] at listed
    rcases listed with rfl | rfl <;> simp [Shape.packable] at packable
  unknownBefore _ _ tracks := tracks
  unknown _ _ _ _ tracks := Outcome.refines_ok tracks

theorem EntryTracks.behaviour_eq {frame : EntryFrame allocator} {entry : EntryProgress}
    (tracks : EntryTracks schema plan id map frame entry) :
    frame.entry.behaviour schema plan (.entry id map) =
      entry.behaviour (plan.reading schema) id map := by
  rw [behaviour_entry, tracks.key, tracks.value]
  rfl

/-- A map entry. -/
theorem mapBody_simulates (subRefines : SubRefines schema plan decode sub)
    (declared : map ∈ (schema.get id).maps) (kept : plan.mode id map.number ≠ .drop) :
    BodySimulates (Frame.Tracks schema plan id) allocator.Exhausted
      .len (mapBody plan allocator decode id map)
      (mappedBody (plan.reading schema) sub id map) := by
  refine ⟨Frame.Tracks schema plan id, fun frame progress tracks => Outcome.refines_ok tracks,
    fun frame progress value tracks _ fits => ?_⟩
  simp only [mapBody, mappedBody]
  refine @Outcome.Refines.bind _ _ _ _ _ _ _ _ _ (.ok progress) _
    (fun progress => do
      let entry ← (entryBodies sub map).fold value.bytes {}
      .ok (progress.push map.number (entry.behaviour (plan.reading schema) id map)))
    (takeSlot_refines tracks (tracks.mapped map declared kept) _ _)
    fun frame' progress' reserved => ?_
  obtain ⟨last, reserved⟩ := reserved
  obtain ⟨frame'', filled, reserved'⟩ := reserved.fill (.entry .zero .zero) frame'.arena
  simp only [filled, Outcome.ok_bind, Bodies.byRecord.plainLoop_eq, Outcome.bind_assoc]
  refine ((entryArms_simulates subRefines).foldlM fits
    (entryTracks_empty declared frame''.arena)).bind fun final entry entryTracks => ?_
  obtain ⟨frame₃, filled', reserved''⟩ := reserved'.fill final.entry final.arena
  simp only [filled']
  apply Outcome.refines_ok
  have array := reserved''.array
  obtain ⟨base, cells, tracks', keeps, -, -⟩ := reserved''
  rw [entryTracks.behaviour_eq] at array
  rw [Progress.push_eq]
  refine tracks'.extend (Message.mapped_mem.mpr declared) keeps ?_
  simp only [MemberTracks, Member.number, Progress.occurrences_extend]
  exact array

/-! ## Oneof members -/

theorem choiceIndex_eq {message : Message} {oneof index : Nat} {field : Field}
    (declared : .choice oneof index field ∈ message.members) :
    message.choiceIndex oneof field.number = some index := by
  have found := Message.member?_number declared
  simp only [Member.number] at found
  simp [Message.choiceIndex, found]

/-- A oneof member was stored. -/
theorem Frame.Tracks.pushChoice (tracks : frame.Tracks schema plan id progress)
    {oneof index : Nat} {field : Field}
    (declared : .choice oneof index field ∈ (schema.get id).members) {content : Cell}
    {behaviour : Behaviour} (arena : allocator.State)
    (reads : seenAs schema plan (heldAccessor plan id field content) = behaviour) :
    Frame.Tracks schema plan id
      { frame with out := (frame.out.setUnion oneof index content).setCase oneof index, arena }
      (progress.push field.number behaviour) := by
  rw [Progress.push_eq]
  refine tracks.extend declared
    (Frame.Keeps.setUnion oneof index content arena) ?_
  obtain ⟨positive, members, found, held⟩ := Message.choice_mem declared
  simp only [MemberTracks, Member.number, Message.current_push (choiceIndex_eq declared)]
  refine ⟨?_, ?_, positive, members, field, found, held, ?_⟩
  · simp [Frame.choiceStore]
  · simp [Frame.choiceStore]
  · simpa [Frame.choiceStore] using reads

/-- The discriminant is what storing the current index keeps of it. -/
theorem Frame.Tracks.reported (tracks : frame.Tracks schema plan id progress) (oneof : Nat) :
    (frame.out.case oneof).toNat =
      reportedIndex (plan.reading schema) (schema.get id) oneof progress.history := by
  have tracked := tracks.choice oneof
  rw [reportedIndex]
  cases current : (schema.get id).current oneof progress.history with
  | none =>
      rw [current] at tracked
      simp only [ChoiceTracks, Frame.choiceStore] at tracked
      rw [tracked]
      rfl
  | some pair =>
      rw [current] at tracked
      simp only [ChoiceTracks, Frame.choiceStore] at tracked
      rw [tracked.1, BitVec.toNat_ofNat]
      rfl

/-- A oneof member. -/
theorem memberBody_simulates (subRefines : SubRefines schema plan decode sub) {oneof index : Nat}
    {field : Field} (declared : .choice oneof index field ∈ (schema.get id).members) :
    BodySimulates (Frame.Tracks schema plan id) allocator.Exhausted
      field.type.wire (memberBody plan allocator decode id oneof index field)
      (choiceBody schema (plan.reading schema) sub id oneof index field) := by
  refine ⟨Frame.Tracks schema plan id, fun frame progress tracks => ?_,
    fun frame progress value tracks _ fits => ?_⟩
  · cases type : field.type with
    | leaf kind =>
        simp only [memberBody, choiceBody, type]
        exact Outcome.refines_ok tracks
    | message target delimited =>
        simp only [memberBody, choiceBody, type, tracks.reported oneof]
        split
        · exact Outcome.refines_fail _
        · exact Outcome.refines_ok tracks
  cases type : field.type with
  | leaf kind =>
      simp only [memberBody, choiceBody, type]
      refine Outcome.refines_ok (tracks.pushChoice declared frame.arena ?_)
      simp [heldAccessor, type, seenAs, behaviour_leaf, read_storeLeaf kind fits]
  | message target delimited =>
      simp only [memberBody, choiceBody, type]
      by_cases stored : plan.inlined id field.number = true
      · simp only [stored, if_true]
        refine (subRefines target value.bytes frame.arena fits).bind
          fun result behaviour same => ?_
        refine Outcome.refines_ok (tracks.pushChoice declared result.2 ?_)
        simpa [heldAccessor, type, stored, seenAs] using same
      · simp only [stored]
        refine (decodeBehind_refines subRefines target fits frame.arena).bind
          fun result behaviour found => ?_
        refine Outcome.refines_ok (tracks.pushChoice declared result.2 ?_)
        simpa [heldAccessor, type, stored] using found.1

/-! ## Packed runs -/

/-- The packed fill of a repeated field. -/
theorem packedFill_refines {field : Field} {kind : Leaf}
    (tracks : frame.Tracks schema plan id progress)
    (declared : field ∈ (schema.get id).fields) (kept : plan.mode id field.number ≠ .drop)
    (type : field.type = .leaf kind) (repeated : field.isRepeated = true)
    (packable : isPackableWire kind.wire = true) (run : List Byte) :
    Outcome.Refines (fun result result' => result.1.Tracks schema plan id result'.1)
      allocator.Exhausted (packedFill plan allocator field kind frame run)
      (match packedValues kind run with
        | .error failure => .fail (.wire failure.within)
        | .ok values => .ok (progress.pushAll field.number values, false)) := by
  have elements : elementView plan id field = .leaf kind := by simp [elementView, type]
  obtain ⟨cells, holds, same⟩ := tracks.array declared kept repeated
  have appended : ∀ (acc : Growable) (arena : allocator.State) (values : List Value),
      acc.Holds (cells ++ values.map Cell.scalar) →
      (frame.setAcc field.number acc arena).Tracks schema plan id
        (progress.pushAll field.number values) := by
    intro acc arena values holds'
    rw [Progress.pushAll_eq]
    refine tracks.pushElements declared repeated (Frame.Keeps.setAcc acc arena)
      ⟨cells ++ values.map Cell.scalar, ?_, ?_⟩
    · simpa [Frame.setAcc] using holds'
    · rw [elements] at same ⊢
      simp [same, Function.comp_def, behaviour_leaf, Cell.read]
  have reading : (match packedValues kind run with
        | .error failure => .fail (.wire failure.within)
        | .ok values => .ok (progress.pushAll field.number values, false)) =
      ((Outcome.ofExcept (packedValues kind run)).mapError fun failure =>
        DecodeError.wire failure.within) >>= fun values =>
          .ok (progress.pushAll field.number values, false) := by
    cases packedValues kind run <;> rfl
  rw [reading, packedFill]
  split
  · rename_i isVarint
    refine (Growable.fillVarints_refines isVarint holds run).bind fun result values holds' => ?_
    exact Outcome.refines_ok (appended result.1 result.2 values holds')
  · rename_i other
    have isFixed : kind.IsFixed := by
      rw [Leaf.IsFixed]
      cases wire : kind.wire with
      | varint => exact absurd wire other
      | i32 => exact .inl rfl
      | i64 => exact .inr rfl
      | len => simp [isPackableWire, wire] at packable
      | sgroup => simp [isPackableWire, wire] at packable
      | egroup =>
          cases kind with
          | enum => cases wire
          | scalar scalar => cases scalar <;> cases wire
    refine (Growable.fillFixed_refines isFixed plan.kIsLittleEndian holds run).bind
      fun result values holds' => ?_
    exact Outcome.refines_ok (appended result.1.1 result.1.2 values holds')

/-! ## All bodies -/

theorem Frame.Tracks.markUnknown (tracks : frame.Tracks schema plan id progress)
    (tracked : plan.tracksUnknown id = true) :
    Frame.Tracks schema plan id
      { frame with out := frame.out.setMask (plan.bitIndex id (schema.get id) .unknown) true }
      { progress with unknown := true } := by
  have store : ∀ number, Frame.store schema plan id { frame with
      out := frame.out.setMask (plan.bitIndex id (schema.get id) .unknown) true } number =
      frame.store schema plan id number := by
    intro number
    have presence := @Plan.bitIndex_ne _ _ (schema.get id) _ (.presence number)
      (Plan.unknown_allocated tracked) (by simp)
    have value := @Plan.bitIndex_ne _ _ (schema.get id) _ (.value number)
      (Plan.unknown_allocated tracked) (by simp)
    simp [Frame.store, Function.update_of_ne presence.symm, Function.update_of_ne value.symm]
  exact
    { plain := fun field declared kept => (tracks.plain field declared kept).congr (store _)
      mapped := tracks.mapped
      choice := tracks.choice
      required := tracks.required
      unknown := fun _ => by simp }

theorem fieldBody_simulates (subRefines : SubRefines schema plan decode sub) {field : Field}
    (declared : field ∈ (schema.get id).fields) (kept : plan.mode id field.number ≠ .drop) :
    BodySimulates (Frame.Tracks schema plan id) allocator.Exhausted
      field.type.wire (fieldBody schema plan allocator decode id field)
      (plainBody (plan.reading schema) sub id field) := by
  cases type : field.type with
  | leaf kind =>
      simp only [fieldBody, type]
      rw [← type]
      split
      · rename_i repeated
        exact elementBody_simulates_leaf declared kept type repeated
      · rename_i singular
        exact singularBody_simulates declared kept type (by simpa using singular)
  | message target delimited =>
      simp only [fieldBody, type]
      rw [← type]
      by_cases raw : plan.mode id field.number = .raw
      · have kind : plan.kind id field = .raw := by simp [Plan.kind, type, raw]
        simp only [kind]
        cases repeated : field.isRepeated with
        | true => exact rawBody_simulates_repeated declared kept type repeated raw
        | false => exact rawBody_simulates_singular declared kept type repeated raw
      · cases repeated : field.isRepeated with
        | true =>
            have kind : plan.kind id field = .repeated := by
              simp [Plan.kind, type, raw, repeated]
            simp only [kind]
            exact elementBody_simulates_message subRefines declared kept type repeated raw
        | false =>
            have body := messageBody_simulates subRefines declared kept
              type repeated raw
            have kind : plan.kind id field = .inlineFixedSubMsg ∨
                plan.kind id field = .pointerSubMsg := by
              simp only [Plan.kind, type, raw, repeated, if_false, Bool.false_eq_true]
              split <;> simp
            rcases kind with kind | kind <;> simpa only [kind] using body

theorem treeBodies_simulates (subRefines : SubRefines schema plan decode sub) :
    (treeBodies schema plan allocator decode id).Simulates
      (referenceBodies schema (plan.reading schema) sub id)
      (Frame.Tracks schema plan id) allocator.Exhausted kUint32Max where
  fields := rfl
  wire _ _ _ := rfl
  native shape listed declared := by
    obtain ⟨member, mem, rfl⟩ := List.mem_map.mp listed
    have found := Message.member?_number mem
    have body : BodySimulates (Frame.Tracks schema plan id)
        allocator.Exhausted member.wire
        ((treeBodies schema plan allocator decode id).native (member.shape (plan.mode id)))
        ((referenceBodies schema (plan.reading schema) sub id).native
          (member.shape (plan.mode id))) := by
      simp only [treeBodies, referenceBodies, Member.shape_number, found]
      cases member with
      | plain field =>
          exact fieldBody_simulates subRefines (Message.plain_mem.mp mem)
            (by simpa [Member.shape] using declared)
      | mapped map =>
          exact mapBody_simulates subRefines (Message.mapped_mem.mp mem)
            (by simpa [Member.shape] using declared)
      | choice oneof index field => exact memberBody_simulates subRefines mem
    rw [← Member.shape_wire (plan.mode id)] at body
    exact body
  packed shape listed packable declared frame progress run tracks _ := by
    obtain ⟨member, mem, rfl⟩ := List.mem_map.mp listed
    have found := Message.member?_number mem
    simp only [treeBodies, referenceBodies, Member.shape_number, found]
    cases member with
    | plain field =>
        simp only [Member.shape, Shape.packable, Bool.and_eq_true] at packable
        obtain ⟨number, type, presence⟩ := field
        cases type with
        | leaf kind =>
            exact packedFill_refines tracks (Message.plain_mem.mp mem)
              (by simpa [Member.shape] using declared) rfl packable.1 packable.2 run
        | message target delimited => exact Outcome.refines_ok tracks
    | mapped map => simp [Member.shape, Shape.packable] at packable
    | choice oneof index field => simp [Member.shape, Shape.packable] at packable
  unknownBefore frame progress tracks := by
    simp only [treeBodies, referenceBodies]
    split
    · rename_i tracked
      exact tracks.markUnknown tracked
    · rename_i untracked
      exact
        { plain := tracks.plain
          mapped := tracks.mapped
          choice := tracks.choice
          required := tracks.required
          unknown := fun tracked => absurd tracked untracked }
  unknown _ _ _ _ tracks := Outcome.refines_ok tracks

end Bodies
end RapidProto
