import RapidProto.Behaviour

/-!
# The documented reading of a message

Decoding as a fold over the wire records of a body, with nothing said about storage.  Singular
scalars keep the last occurrence, repeated fields and maps collect, a oneof keeps its last member, a
singular sub-message that occurs again is rejected, and everything else is skipped.  The first
failure in wire order is the one reported.
-/

namespace RapidProto

/-- The failures of the arena decoder. -/
inductive DecodeError where
  /-- A wire failure, with its offset. -/
  | wire (failure : WireFail)
  | outOfMemory
  | recursionTooDeep
  /-- A required field was absent. -/
  | missingRequired (number : Nat)
  /-- A singular message field occurred more than once. -/
  | repeatedSingularMessage (number : Nat)
  | inputTooLarge
  deriving DecidableEq, Repr

/-- Deepest nesting of message bodies. -/
def kMaxDecodeDepth : Nat := 100

/-- A wire failure inside a payload of the body being decoded. -/
def WireFail.within (failure : WireFail) : WireFail := { failure with inner := true }

/-- Fold the bodies of a message over the records of a body. -/
def Bodies.fold {σ ε : Type} (bodies : Bodies σ ε) (body : Cursor) (state : σ) : Outcome ε σ :=
  (items body.length body).foldlM bodies.step state

/-- The elements of a packed run, in at most `turns` steps. -/
def packedFrom (kind : Leaf) (span : Nat) : (turns : Nat) → Cursor → Except WireFail (List Value)
  | 0, _ => .ok []
  | turns + 1, p =>
    if p.length = 0 then .ok []
    else
      match payload span ⟨1, kind.wire⟩ p with
      | .error failure => .error failure
      | .ok (value, rest) =>
        match packedFrom kind span turns rest with
        | .error failure => .error failure
        | .ok values => .ok (kind.convert value :: values)

/-- The elements of a packed run. -/
def packedValues (kind : Leaf) (run : Cursor) : Except WireFail (List Value) :=
  packedFrom kind run.length run.length run

@[simp] theorem packedFrom_nil (kind : Leaf) (span turns : Nat) :
    packedFrom kind span turns [] = .ok [] := by
  cases turns <;> rfl

theorem packedFrom_error {kind : Leaf} {span turns : Nat} {p : Cursor} {failure : WireFail}
    (nonempty : p.length ≠ 0) (failed : payload span ⟨1, kind.wire⟩ p = .error failure) :
    packedFrom kind span (turns + 1) p = .error failure := by
  rw [packedFrom, if_neg nonempty, failed]

theorem packedFrom_cons {kind : Leaf} {span turns : Nat} {p rest : Cursor} {value : Payload}
    (got : payload span ⟨1, kind.wire⟩ p = .ok (value, rest)) :
    Outcome.ofExcept (packedFrom kind span (turns + 1) p) =
      (Outcome.ofExcept (packedFrom kind span turns rest) >>= fun values =>
        .ok (kind.convert value :: values)) := by
  have shorter := payload_length_lt got
  rw [packedFrom, if_neg (by omega), got]
  simp only []
  cases packedFrom kind span turns rest <;> rfl

/-- What a reading leaves to the storage layout and to the profile. -/
structure Reading where
  /-- The mode of each field of each message. -/
  mode : MessageId → Nat → FieldMode
  /-- Messages with an unknown-fields accessor. -/
  tracksUnknown : MessageId → Bool
  /-- The value of an entry of the given map that carries no record of its message value. -/
  absentValue : MessageId → Nat → Behaviour
  /-- What storing a oneof's member index keeps of it. -/
  narrow : Nat → Nat

/-- The occurrences met so far, and whether an unknown field number was among the records. -/
structure Progress where
  /-- Declared occurrences. -/
  history : History := []
  /-- An undeclared number was met. -/
  unknown : Bool := false

/-- Append one occurrence. -/
def Progress.push (progress : Progress) (number : Nat) (behaviour : Behaviour) : Progress :=
  { progress with history := progress.history ++ [(number, behaviour)] }

/-- Append the elements of a packed run. -/
def Progress.pushAll (progress : Progress) (number : Nat) (values : List Value) : Progress :=
  { progress with
    history := progress.history ++ values.map fun value => (number, Behaviour.leaf value) }

/-- The key and value records met in a map entry. -/
structure EntryProgress where
  /-- The last key. -/
  key : Option Value := none
  /-- The last value. -/
  value : Option Behaviour := none

/-- The routing facts of a map entry: key and value are fields 1 and 2. -/
def MapField.shapes (map : MapField) : List Shape :=
  [{ number := 1, wire := map.key.wire, labelled := false },
    { number := 2, wire := map.value.wire, labelled := false }]

theorem MapField.shapes_distinct (map : MapField) : (map.shapes.map Shape.number).Nodup := by
  simp [MapField.shapes]

section Reference

variable (schema : Schema) (reading : Reading)
  (sub : MessageId → List Byte → Outcome DecodeError Behaviour)

/-- The records of a map entry. -/
def entryBodies (map : MapField) : Bodies EntryProgress DecodeError where
  fields := map.shapes
  distinct := map.shapes_distinct
  wire _ failure := .wire failure.within
  native shape :=
    if shape.number = 1 then
      { after := fun entry value =>
          .ok { entry with key := some ((Leaf.scalar map.key).convert value) } }
    else
      match map.value with
      | .leaf kind =>
        { after := fun entry value =>
            .ok { entry with value := some (.leaf (kind.convert value)) } }
      | .message target =>
        { before := fun entry =>
            if entry.value.isSome then .fail (.repeatedSingularMessage map.number) else .ok entry
          after := fun entry value => do
            let behaviour ← sub target value.bytes
            .ok { entry with value := some behaviour } }
  packed _ entry _ := .ok (entry, false)

/-- The value of an entry without a value record. -/
def MapField.unsetValue (id : MessageId) (map : MapField) : Behaviour :=
  match map.value with
  | .leaf kind => .leaf kind.zero
  | .message _ => reading.absentValue id map.number

/-- The behaviour of a map entry; an absent key reads as the default. -/
def EntryProgress.behaviour (id : MessageId) (map : MapField) (entry : EntryProgress) : Behaviour :=
  .entry (.leaf (entry.key.getD map.key.zero)) (entry.value.getD (map.unsetValue reading id))

/-- Reject a singular sub-message that occurred before. -/
def Progress.rejectRepeated (progress : Progress) (number : Nat) : Outcome DecodeError Progress :=
  if progress.history.occurrences number = [] then .ok progress
  else .fail (.repeatedSingularMessage number)

/-- A plain field. -/
def plainBody (id : MessageId) (field : Field) : Body Progress DecodeError :=
  match field.type with
  | .leaf kind =>
    { after := fun progress value =>
        .ok (progress.push field.number (.leaf (kind.convert value))) }
  | .message target _ =>
    { before := fun progress =>
        if field.isRepeated then .ok progress else progress.rejectRepeated field.number
      after := fun progress value =>
        if reading.mode id field.number = .raw then
          .ok (progress.push field.number (.leaf (.text value.bytes)))
        else do
          let behaviour ← sub target value.bytes
          .ok (progress.push field.number behaviour) }

/-- A map entry is one occurrence of its map. -/
def mappedBody (id : MessageId) (map : MapField) : Body Progress DecodeError where
  after progress value := do
    let entry ← (entryBodies sub map).fold value.bytes {}
    .ok (progress.push map.number (entry.behaviour reading id map))

/-- The index a oneof's storage reports. -/
def reportedIndex (message : Message) (oneof : Nat) (history : History) : Nat :=
  match message.current oneof history with
  | none => 0
  | some (index, _) => reading.narrow index

/-- A oneof member; a message member is rejected while the oneof reports it already. -/
def choiceBody (id : MessageId) (oneof index : Nat) (field : Field) : Body Progress DecodeError :=
  match field.type with
  | .leaf kind =>
    { after := fun progress value =>
        .ok (progress.push field.number (.leaf (kind.convert value))) }
  | .message target _ =>
    { before := fun progress =>
        if reportedIndex reading (schema.get id) oneof progress.history = index then
          .fail (.repeatedSingularMessage field.number)
        else .ok progress
      after := fun progress value => do
        let behaviour ← sub target value.bytes
        .ok (progress.push field.number behaviour) }

/-- The bodies of a message. -/
def referenceBodies (id : MessageId) : Bodies Progress DecodeError where
  fields := (schema.get id).shapes (reading.mode id)
  distinct := (schema.get id).shapes_distinct _
  wire _ failure := .wire failure
  native shape :=
    match (schema.get id).member? shape.number with
    | some (.plain field) => plainBody reading sub id field
    | some (.mapped map) => mappedBody reading sub id map
    | some (.choice oneof index field) => choiceBody schema reading sub id oneof index field
    | none => { after := fun progress _ => .ok progress }
  packed shape progress run :=
    match (schema.get id).member? shape.number with
    | some (.plain { type := .leaf kind, .. }) =>
      match packedValues kind run with
      | .error failure => .fail (.wire failure.within)
      | .ok values => .ok (progress.pushAll shape.number values, false)
    | _ => .ok (progress, false)
  unknownBefore progress := { progress with unknown := true }

/-- The first required field, in declaration order, that never occurred. -/
def firstMissing (message : Message) (history : History) : Option Nat :=
  (message.fields.find? fun field =>
    field.presence = .required ∧ history.occurrences field.number = []).map Field.number

end Reference

/-- The documented reading of a body, `depth` messages deep.  `frames` bounds the recursion. -/
def meaning (schema : Schema) (reading : Reading) :
    (frames depth : Nat) → MessageId → List Byte → Outcome DecodeError Behaviour
  | 0, _, _, _ => .spin
  | frames + 1, depth, id, body =>
    if kMaxDecodeDepth < depth then .fail .recursionTooDeep
    else do
      let progress ← (referenceBodies schema reading (meaning schema reading frames (depth + 1))
        id).fold body {}
      match firstMissing (schema.get id) progress.history with
      | some number => .fail (.missingRequired number)
      | none =>
        .ok ((schema.get id).behaviour (reading.mode id) reading.narrow progress.history
          (if reading.tracksUnknown id then some progress.unknown else none))

/-- Deepest recursion of message decoding: a body at `kMaxDecodeDepth + 1` fails at once. -/
def kDecodeFrames : Nat := kMaxDecodeDepth + 2

end RapidProto
