import RapidProto.Reference

/-!
# The streaming decoder

`decode()` as `emit_decode_def` prints it for an arbitrary message and an arbitrary set of
callbacks. A callback is handed one event and answers with a status; the first status that is not ok
ends the decode and is returned as it is.  Whether a field has a callback is known when the decoder
is compiled, so it selects the body: decode and invoke, or skip.
-/

namespace RapidProto

/-- The result of a decode. -/
structure DecodeStatus where
  /-- A wire-level failure. -/
  wire : Option WireError := none
  /-- A callback returned an error. -/
  aborted : Bool := false
  /-- Byte offset of a wire-level failure. -/
  offset : Nat := 0
  deriving DecidableEq, Repr

/-- `DecodeStatus::ok`. -/
def DecodeStatus.ok (status : DecodeStatus) : Bool := status.wire = none ∧ ¬ status.aborted

/-- `DecodeStatus::abort`. -/
def DecodeStatus.abort : DecodeStatus := { aborted := true }

/-- A value as a callback receives it; a message comes as a sub-decoder over its bytes. -/
inductive Delivered where
  | leaf (value : Value)
  | message (target : MessageId) (body : List Byte)
  deriving DecidableEq

/-- One call of a callback. -/
inductive Event where
  /-- A singular value, or one element of a repeated field. -/
  | field (number : Nat) (value : Delivered)
  /-- A map entry. -/
  | entry (number : Nat) (key : Value) (value : Delivered)
  /-- A record of an undeclared field. -/
  | unknown (tag : Tag) (raw : List Byte)
  deriving DecidableEq

/-- The callbacks passed to a decode, over the state they share. -/
structure Callbacks (σ : Type) where
  /-- `handles_one`: the declared fields that have a callback. -/
  handles : Nat → Bool
  /-- `specifically_handles_unknown`. -/
  handlesUnknown : Bool
  /-- Call the matching callback. -/
  call : σ → Event → σ × DecodeStatus

/-- Why a decode ended early. -/
inductive Stop where
  /-- A wire failure of this decode. -/
  | wire (failure : WireFail)
  /-- The status a callback returned. -/
  | callback (status : DecodeStatus)
  deriving DecidableEq

/-- The returned status; the offset is a pointer difference stored as a `size_t`. -/
def Stop.status : Stop → DecodeStatus
  | wire failure => { wire := some failure.error, offset := (failure.offset % 2 ^ 64).toNat }
  | callback status => status

/-- An early end, with the state the callbacks were left in. -/
structure Stopped (σ : Type) where
  /-- State of the callbacks. -/
  state : σ
  /-- The reason. -/
  stop : Stop

variable {σ : Type}

/-- `invoke_field` or `invoke_unknown`, and the return on a status that is not ok. -/
def Callbacks.invoke (callbacks : Callbacks σ) (state : σ) (event : Event) :
    Outcome (Stopped σ) σ :=
  let (state, status) := callbacks.call state event
  if status.ok then .ok state else .fail ⟨state, .callback status⟩

/-- The value handed over for a payload. -/
def FieldType.deliver (type : FieldType) (value : Payload) : Delivered :=
  match type with
  | .leaf kind => .leaf (kind.convert value)
  | .message target _ => .message target value.bytes

/-- The value handed over for a map value. -/
def MapValue.deliver (type : MapValue) (value : Payload) : Delivered :=
  match type with
  | .leaf kind => .leaf (kind.convert value)
  | .message target => .message target value.bytes

/-- An entry without a value record hands over the default; a message is then empty. -/
def MapValue.default : MapValue → Delivered
  | .leaf kind => .leaf kind.zero
  | .message target => .message target []

/-- `rp_key` and `rp_value`. -/
structure EntryLocals where
  /-- The last key. -/
  key : Value
  /-- The last value. -/
  value : Delivered

/-- The bodies of the entry loop. -/
def streamEntryBodies (map : MapField) : Bodies EntryLocals WireFail where
  fields := map.shapes
  distinct := map.shapes_distinct
  wire _ failure := failure.within
  native shape :=
    if shape.number = 1 then
      { after := fun entry value =>
          .ok { entry with key := (Leaf.scalar map.key).convert value } }
    else { after := fun entry value => .ok { entry with value := map.value.deliver value } }
  packed _ entry _ := .ok (entry, false)

section Decoder

variable (callbacks : Callbacks σ)

/-- The entry loop and the call behind it. -/
def streamEntry (map : MapField) (state : σ) (entry : List Byte) : Outcome (Stopped σ) σ := do
  let arms := (streamEntryBodies map).arms entry.length
  let (entry, _) ← (arms.plainLoop entry.length ⟨map.key.zero, map.value.default⟩ entry).mapError
    fun failure => ⟨state, .wire failure⟩
  callbacks.invoke state (.entry map.number entry.key entry.value)

/-- One turn of the packed loop: decode an element and invoke. -/
def elementTurn (number : Nat) (kind : Leaf) (span : Nat) (state : σ) (p : Cursor) :
    Outcome (Stopped σ) (Turn Byte σ σ) :=
  if 0 < p.length then do
    let (value, p) ← (readValue span ⟨1, kind.wire⟩ p).mapError fun failure =>
      (⟨state, .wire failure.within⟩ : Stopped σ)
    let state ← callbacks.invoke state (.field number (.leaf (kind.convert value)))
    .ok (.next state p)
  else .ok (.stop state)

/-- `emit_packed_body`: the run's elements, one call each. -/
def streamPacked (number : Nat) (kind : Leaf) (state : σ) (run : List Byte) :
    Outcome (Stopped σ) σ :=
  runLoop (elementTurn callbacks number kind run.length) state run

variable (message : Message) (span : Nat)

/-- `emit_vt_skip`: read past one value of a wire type known at compile time. -/
def vtSkip (tag : Tag) (state : σ) (p : Cursor) : Outcome (Stopped σ) (σ × Cursor) := do
  let (_, p) ← (readValue span tag p).mapError fun failure =>
    (⟨state, .wire failure⟩ : Stopped σ)
  .ok (state, p)

/-- The shared skip behind the switch. -/
def sharedSkip (tag : Tag) (state : σ) (p : Cursor) : Outcome (Stopped σ) (σ × Cursor) := do
  let p ← (skipValue span tag p).mapError fun failure => (⟨state, .wire failure⟩ : Stopped σ)
  .ok (state, p)

/-- `emit_decode_and_invoke`, where the field has a callback.  Otherwise a label skips its value
itself and an arm of the switch breaks to the shared skip. -/
def fieldArm (shape : Shape) (field : Field) (state : σ) (p : Cursor) :
    Outcome (Stopped σ) (σ × Cursor) :=
  if callbacks.handles field.number then do
    let (value, p) ← (readValue span ⟨shape.number, shape.wire⟩ p).mapError fun failure =>
      (⟨state, .wire failure⟩ : Stopped σ)
    let state ← callbacks.invoke state (.field field.number (field.type.deliver value))
    .ok (state, p)
  else if shape.threaded then vtSkip span ⟨shape.number, shape.wire⟩ state p
  else sharedSkip span ⟨shape.number, shape.wire⟩ state p

/-- `emit_map_arm`: only a length-delimited record is an entry. -/
def mapArm (shape : Shape) (map : MapField) (state : σ) (p : Cursor) :
    Outcome (Stopped σ) (σ × Cursor) :=
  if callbacks.handles map.number ∧ shape.wire = .len then do
    let (entry, p) ← (located span p (readLengthDelimited p)).mapError fun failure =>
      (⟨state, .wire failure⟩ : Stopped σ)
    let state ← streamEntry callbacks map state entry
    .ok (state, p)
  else sharedSkip span ⟨shape.number, shape.wire⟩ state p

/-- The body behind a tag of the field's own wire type. -/
def nativeArm (shape : Shape) (state : σ) (p : Cursor) : Outcome (Stopped σ) (σ × Cursor) :=
  match message.member? shape.number with
  | some (.plain field) | some (.choice _ _ field) => fieldArm callbacks span shape field state p
  | some (.mapped map) => mapArm callbacks span shape map state p
  | none => sharedSkip span ⟨shape.number, shape.wire⟩ state p

/-- The packed body of a repeated field. -/
def packedArm (shape : Shape) (state : σ) (p : Cursor) :
    Outcome (Stopped σ) ((σ × Bool) × Cursor) :=
  match message.member? shape.number with
  | some (.plain { number, type := .leaf kind, .. }) =>
    if callbacks.handles number then do
      let (run, p) ← (located span p (readLengthDelimited p)).mapError fun failure =>
        (⟨state, .wire failure⟩ : Stopped σ)
      let state ← streamPacked callbacks number kind state run
      .ok ((state, false), p)
    else do
      let (state, p) ←
        if shape.threaded then vtSkip span ⟨shape.number, .len⟩ state p
        else sharedSkip span ⟨shape.number, .len⟩ state p
      .ok ((state, false), p)
  | _ => do
    let (state, p) ← sharedSkip span ⟨shape.number, .len⟩ state p
    .ok ((state, false), p)

/-- The default case: an undeclared record goes to its handler, if there is one. -/
def unknownArm (tag : Tag) (state : σ) (p : Cursor) : Outcome (Stopped σ) (σ × Cursor) :=
  if callbacks.handlesUnknown then do
    let q ← (skipValue span tag p).mapError fun failure => (⟨state, .wire failure⟩ : Stopped σ)
    let state ← callbacks.invoke state (.unknown tag (p.take (p.length - q.length)))
    .ok (state, q)
  else sharedSkip span tag state p

/-- The arms as bodies around the shared readers: a skipped value is a value that is read and not
used. -/
def streamBodies : Bodies σ (Stopped σ) where
  fields := message.shapes fun _ => .materialize
  distinct := message.shapes_distinct _
  wire state failure := ⟨state, .wire failure⟩
  native shape :=
    { after := fun state value =>
        match message.member? shape.number with
        | some (.plain field) | some (.choice _ _ field) =>
          if callbacks.handles field.number then
            callbacks.invoke state (.field field.number (field.type.deliver value))
          else .ok state
        | some (.mapped map) =>
          if callbacks.handles map.number ∧ shape.wire = .len then
            streamEntry callbacks map state value.bytes
          else .ok state
        | none => .ok state }
  packed shape state run :=
    match message.member? shape.number with
    | some (.plain { number, type := .leaf kind, .. }) =>
      if callbacks.handles number then do
        let state ← streamPacked callbacks number kind state run
        .ok (state, false)
      else .ok (state, false)
    | _ => .ok (state, false)
  unknown tag state raw :=
    if callbacks.handlesUnknown then callbacks.invoke state (.unknown tag raw) else .ok state

end Decoder

/-! ## Arms are bodies -/

section Bodies

variable {callbacks : Callbacks σ} {message : Message} {span : Nat}

theorem vtSkip_eq_sharedSkip (tag : Tag) (state : σ) (p : Cursor) :
    vtSkip span tag state p = sharedSkip span tag state p := by
  rw [vtSkip, sharedSkip, readValue_eq, skipValue_eq]
  cases payload span tag p <;> rfl

/-- Reading a length-delimited value is reading its payload. -/
theorem readValue_len (number : Nat) (p : Cursor) :
    readValue span ⟨number, .len⟩ p =
      (located span p (readLengthDelimited p) >>= fun read => .ok (.len read.1, read.2)) := by
  simp only [readValue]
  cases located span p (readLengthDelimited p) <;> rfl

/-- An arm that reads its value and then uses it. -/
def readThen (tag : Tag) (use : σ → Payload → Outcome (Stopped σ) σ) (state : σ) (p : Cursor) :
    Outcome (Stopped σ) (σ × Cursor) := do
  let (value, p) ← (readValue span tag p).mapError fun failure =>
    (⟨state, .wire failure⟩ : Stopped σ)
  let state ← use state value
  .ok (state, p)

theorem sharedSkip_eq_readThen (tag : Tag) (state : σ) (p : Cursor) :
    sharedSkip span tag state p = @readThen _ span tag (fun state _ => .ok state) state p := by
  rw [← vtSkip_eq_sharedSkip]
  rfl

theorem fieldArm_eq (shape : Shape) (field : Field) (state : σ) (p : Cursor) :
    fieldArm callbacks span shape field state p =
      @readThen _ span ⟨shape.number, shape.wire⟩
        (fun state value => if callbacks.handles field.number then
            callbacks.invoke state (.field field.number (field.type.deliver value))
          else .ok state) state p := by
  rw [fieldArm]
  split
  · rfl
  · rw [vtSkip_eq_sharedSkip, ite_self, sharedSkip_eq_readThen]

theorem mapArm_eq (shape : Shape) (map : MapField) (state : σ) (p : Cursor) :
    mapArm callbacks span shape map state p =
      @readThen _ span ⟨shape.number, shape.wire⟩
        (fun state value => if callbacks.handles map.number ∧ shape.wire = .len then
            streamEntry callbacks map state value.bytes
          else .ok state) state p := by
  rw [mapArm]
  split
  · rename_i entry
    rw [entry.2, readThen, readValue_len]
    cases located span p (readLengthDelimited p) <;> rfl
  · rw [sharedSkip_eq_readThen]

/-- The body of a label or of an arm is the record body behind the reader. -/
theorem nativeArm_eq (shape : Shape) (state : σ) (p : Cursor) :
    nativeArm callbacks message span shape state p =
      (streamBodies callbacks message).runNative span shape state p := by
  rw [nativeArm, Bodies.runNative]
  simp only [streamBodies, Outcome.ok_bind]
  cases message.member? shape.number with
  | none => exact sharedSkip_eq_readThen _ state p
  | some member =>
      cases member with
      | plain field => exact fieldArm_eq shape field state p
      | choice oneof index field => exact fieldArm_eq shape field state p
      | mapped map => exact mapArm_eq shape map state p

theorem sharedSkip_len (number : Nat) (state : σ) (p : Cursor) :
    (sharedSkip span ⟨number, .len⟩ state p >>= fun skipped =>
      .ok ((skipped.1, false), skipped.2)) =
      ((located span p (readLengthDelimited p)).mapError fun failure =>
        (⟨state, .wire failure⟩ : Stopped σ)) >>= fun read => .ok ((state, false), read.2) := by
  rw [sharedSkip_eq_readThen, readThen, readValue_len]
  cases located span p (readLengthDelimited p) <;> rfl

theorem packedArm_eq (shape : Shape) (state : σ) (p : Cursor) :
    packedArm callbacks message span shape state p =
      (streamBodies callbacks message).runPacked span shape state p := by
  have skipped := @sharedSkip_len _ span shape.number state p
  rw [packedArm, Bodies.runPacked]
  simp only [streamBodies]
  cases found : message.member? shape.number with
  | none => exact skipped
  | some member =>
      cases member with
      | choice oneof index field => exact skipped
      | mapped map => exact skipped
      | plain field =>
          obtain ⟨number, type, presence⟩ := field
          cases type with
          | message target delimited => exact skipped
          | leaf kind =>
              simp only []
              split
              · cases located span p (readLengthDelimited p) with
                | ok read =>
                    simp only [Outcome.mapError_ok, Outcome.ok_bind]
                    cases streamPacked callbacks number kind state read.1 <;> rfl
                | fail failure => rfl
                | outside => rfl
                | spin => rfl
              · rw [vtSkip_eq_sharedSkip, ite_self]
                exact skipped

theorem unknownArm_eq (tag : Tag) (state : σ) (p : Cursor) :
    unknownArm callbacks span tag state p =
      (streamBodies callbacks message).runUnknown span tag state p := by
  rw [unknownArm, Bodies.runUnknown]
  simp only [streamBodies]
  split
  · rfl
  · rw [sharedSkip]
    rfl

variable (callbacks message span)

/-- The arms of the generated loop. -/
def streamArms : Arms σ (Stopped σ) where
  fields := message.shapes fun _ => .materialize
  distinct := message.shapes_distinct _
  wire state failure := ⟨state, .wire failure⟩
  native := nativeArm callbacks message span
  packed := packedArm callbacks message span
  unknown := unknownArm callbacks span
  native_lt ran := by
    rw [nativeArm_eq] at ran
    exact ((streamBodies callbacks message).arms span).native_lt ran
  packed_lt ran := by
    rw [packedArm_eq] at ran
    exact ((streamBodies callbacks message).arms span).packed_lt ran
  unknown_lt ran := by
    rw [unknownArm_eq] at ran
    exact ((streamBodies callbacks message).arms span).unknown_lt ran

variable {callbacks message span}

theorem streamArms_eq :
    streamArms callbacks message span = (streamBodies callbacks message).arms span := by
  have native : nativeArm callbacks message span =
      (streamBodies callbacks message).runNative span := by
    funext shape state p
    exact nativeArm_eq shape state p
  have packed : packedArm callbacks message span =
      (streamBodies callbacks message).runPacked span := by
    funext shape state p
    exact packedArm_eq shape state p
  have unknown : unknownArm callbacks span =
      (streamBodies callbacks message).runUnknown span := by
    funext tag state p
    exact unknownArm_eq tag state p
  simp only [streamArms, Bodies.arms, native, packed, unknown]
  rfl

end Bodies

/-- `T::decode`, from the state the callbacks are in. -/
def streamDecode (schema : Schema) (id : MessageId) (callbacks : Callbacks σ) (state : σ)
    (input : List Byte) : Outcome (Stopped σ) σ := do
  let (state, _) ←
    (streamArms callbacks (schema.get id) input.length).threadedLoop input.length state input
  .ok state

/-- The generated loop delivers record by record. -/
theorem streamDecode_eq_fold (schema : Schema) (id : MessageId) (callbacks : Callbacks σ)
    (state : σ) (input : List Byte) :
    streamDecode schema id callbacks state input =
      (streamBodies callbacks (schema.get id)).fold input state := by
  rw [streamDecode, streamArms_eq, Bodies.threadedLoop_eq_foldlM, Outcome.bind_assoc, Bodies.fold]
  exact Outcome.bind_ok _

end RapidProto
