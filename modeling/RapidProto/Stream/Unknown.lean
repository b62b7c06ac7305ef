import RapidProto.Stream.Script
import RapidProto.Wire.Framed

/-!
# Undeclared records

The handler of unknown fields is handed the records whose numbers the message does not declare, each
with its tag and the bytes behind it.  Where a message declares nothing these are all records, so a
caller that writes them back, tag by tag in the shortest form, gets the input again, up to tags that
were longer than they had to be.
-/

namespace RapidProto

variable {σ : Type}

/-- The field numbers of a message. -/
def Message.numbers (message : Message) : List Nat :=
  message.fields.map Field.number ++ message.maps.map MapField.number ++
    message.oneofs.flatten.map Field.number

/-- What the handler of unknown fields is given. -/
def Event.unknownField : Event → Option (Tag × List Byte)
  | .unknown tag raw => some (tag, raw)
  | .field _ _ | .entry _ _ _ => none

/-- The unknown fields a decode delivered, in order. -/
def unknownFields (events : List Event) : List (Tag × List Byte) :=
  events.filterMap Event.unknownField

/-- Write delivered unknown fields back: the shortest tag of each, then its bytes. -/
def reserialize (delivered : List (Tag × List Byte)) : List Byte :=
  delivered.flatMap fun (tag, raw) => minimalTag tag ++ raw

/-- A frame as the handler is given it. -/
def Framed.delivered (framed : Framed) : Tag × List Byte := (framed.record.tag, framed.raw)

/-! ## The unknown fields of a script -/

section Script

variable {message : Message} {handles : Nat → Bool}

theorem members_number (message : Message) :
    message.members.map Member.number = message.numbers := by
  simp only [Message.members, Message.numbers, List.map_append, List.map_map,
    oneofsFrom_number]
  rfl

/-- The default case of the switch is taken by the undeclared numbers. -/
theorem route_unknown_iff {tag : Tag} (mode : Nat → FieldMode) :
    route (message.shapes mode) tag = .unknown ↔ tag.fieldNumber ∉ message.numbers := by
  have absent : findKey Shape.number tag.fieldNumber (message.shapes mode) = none ↔
      tag.fieldNumber ∉ message.numbers := by
    rw [findKey_eq_none, ← members_number, Message.shapes]
    simp
  rw [← absent, route]
  cases findKey Shape.number tag.fieldNumber (message.shapes mode) with
  | none => simp
  | some shape =>
      simp only [reduceCtorEq, iff_false]
      repeat' split
      all_goals simp

/-- Events that are all for declared fields hold no unknown field. -/
theorem unknownFields_eq_nil {events : List Event}
    (declared : ∀ event ∈ events, event.unknownField = none) : unknownFields events = [] :=
  List.filterMap_eq_nil_iff.mpr declared

theorem nativeScript_unknownFields (shape : Shape) (value : Payload) :
    unknownFields (nativeScript message handles shape value).events = [] := by
  refine unknownFields_eq_nil fun event met => ?_
  rw [nativeScript] at met
  cases found : message.member? shape.number with
  | none => rw [found] at met; cases met
  | some member =>
      rw [found] at met
      cases member with
      | plain field =>
          dsimp only at met
          split at met
          · rw [List.mem_singleton.mp met]
            rfl
          · cases met
      | choice oneof index field =>
          dsimp only at met
          split at met
          · rw [List.mem_singleton.mp met]
            rfl
          · cases met
      | mapped map =>
          dsimp only at met
          split at met
          · obtain ⟨key, value, rfl⟩ := entryScript_numbers met
            rfl
          · cases met

theorem runScript_unknownFields (shape : Shape) (run : List Byte) :
    unknownFields (runScript message handles shape run).events = [] := by
  refine unknownFields_eq_nil fun event met => ?_
  rw [runScript] at met
  cases found : message.member? shape.number with
  | none => rw [found] at met; cases met
  | some member =>
      rw [found] at met
      cases member with
      | choice oneof index field => cases met
      | mapped map => cases met
      | plain field =>
          obtain ⟨number, type, presence⟩ := field
          cases type with
          | message target delimited => cases met
          | leaf kind =>
              dsimp only at met
              split at met
              · obtain ⟨value, rfl⟩ := packedScript_numbers met
                rfl
              · cases met

/-- A record is delivered as an unknown field when its number is undeclared. -/
theorem itemScript_unknownFields (tag : Tag) (value : Payload) (raw : List Byte) :
    unknownFields (itemScript message handles true (.record tag value raw)).events =
      if tag.fieldNumber ∈ message.numbers then [] else [(tag, raw)] := by
  have unknown := @route_unknown_iff message tag fun _ => .materialize
  rw [itemScript]
  cases routed : route (message.shapes fun _ => .materialize) tag with
  | native shape =>
      rw [if_pos (by simpa [routed] using unknown)]
      exact nativeScript_unknownFields shape value
  | packed shape =>
      rw [if_pos (by simpa [routed] using unknown)]
      exact runScript_unknownFields shape value.bytes
  | skip =>
      rw [if_pos (by simpa [routed] using unknown)]
      rfl
  | unknown =>
      rw [if_neg (unknown.mp routed)]
      rfl

/-- A script that ends without a failure met records only. -/
theorem scriptOf_clean {handlesUnknown : Bool} {inputs : List Item}
    (complete : (scriptOf message handles handlesUnknown inputs).failure = none) :
    ∀ item ∈ inputs, item.isRecord = true := by
  induction inputs with
  | nil => simp
  | cons item inputs ih =>
      obtain ⟨first, later⟩ := Script.andThen_complete complete
      refine List.forall_mem_cons.mpr ⟨?_, ih later⟩
      cases item with
      | badTag failure => cases first
      | badValue tag failure => cases first
      | record tag value raw => rfl

/-- The unknown fields of an input are its frames with undeclared numbers. -/
theorem scriptOf_unknownFields {inputs : List Item} {frames : List Framed}
    (each : List.Forall₂
      (fun item framed => ∃ value, item = .record framed.record.tag value framed.raw) inputs frames)
    (complete : (scriptOf message handles true inputs).failure = none) :
    unknownFields (scriptOf message handles true inputs).events =
      (frames.filter fun framed => framed.record.tag.fieldNumber ∉ message.numbers).map
        Framed.delivered := by
  induction each with
  | nil => rfl
  | @cons item framed inputs frames first each ih =>
      obtain ⟨value, rfl⟩ := first
      obtain ⟨ended, later⟩ := Script.andThen_complete complete
      have own := @itemScript_unknownFields message handles framed.record.tag value framed.raw
      rw [scriptOf, List.foldr_cons, Script.andThen, ended]
      dsimp only
      rw [unknownFields, List.filterMap_append]
      rw [unknownFields] at own
      rw [own, List.filter_cons]
      have rest := ih later
      rw [unknownFields, scriptOf] at rest
      by_cases declared : framed.record.tag.fieldNumber ∈ message.numbers
      · simp [declared, rest]
      · simp [declared, rest, Framed.delivered]

end Script

/-! ## The unknown fields of a decode -/

section Decode

variable {callbacks : Callbacks σ} {schema : Schema} {id : MessageId} {input : List Byte}

theorem logged_events {events log log' : List Event} {state reached : σ}
    (heard : events.foldlM callbacks.logged.invoke (log, state) = .ok (log', reached)) :
    log' = log ++ events := by
  induction events generalizing log state with
  | nil =>
      cases heard
      simp
  | cons event events ih =>
      rw [List.foldlM_cons, logged_invoke] at heard
      obtain ⟨next, answered, later⟩ := Outcome.bind_eq_ok.mp heard
      split at answered
      · cases answered
        rw [ih later, List.append_assoc]
        rfl
      · cases answered

/-- A decode that succeeds has handed over its whole script. -/
theorem transcript_complete {state final : σ} {events : List Event}
    (accepted : transcript schema id callbacks state input = some ⟨events, final, none⟩) :
    events = (script schema id callbacks input).events ∧
      (script schema id callbacks input).failure = none := by
  rw [transcript] at accepted
  cases ran : streamDecode schema id callbacks.logged ([], state) input with
  | ok reached =>
      rw [ran] at accepted
      cases accepted
      rw [streamDecode_eq_play] at ran
      have complete := play_complete ran
      obtain ⟨reached', heard, same⟩ := Outcome.bind_eq_ok.mp ran
      rw [complete] at same
      cases same
      exact ⟨logged_events heard, complete⟩
  | fail stopped => rw [ran] at accepted; cases accepted
  | outside => rw [ran] at accepted; cases accepted
  | spin => rw [ran] at accepted; cases accepted

theorem reserialize_delivered (frames : List Framed) :
    reserialize (frames.map Framed.delivered) = joined (frames.map Framed.minimize) := by
  simp only [reserialize, joined, List.flatMap_map]
  rfl

/-- The unknown fields of an accepted input are its records with undeclared numbers.  Where nothing
is declared, writing them back gives an input with the same records, and the same input exactly when
its tags were minimal. -/
theorem unknownFields_reserialize (schema : Schema) (id : MessageId) (callbacks : Callbacks σ)
    (handled : callbacks.handlesUnknown = true) (input : List Byte) (state final : σ)
    (events : List Event)
    (accepted : transcript schema id callbacks state input = some ⟨events, final, none⟩) :
    ∃ frames : List Framed, input = joined frames ∧
      (∀ wanted, walk wanted input = .ok (yields wanted 0 (frames.map Framed.record))) ∧
      unknownFields events =
        (frames.filter fun framed =>
          framed.record.tag.fieldNumber ∉ (schema.get id).numbers).map Framed.delivered ∧
      ((schema.get id).numbers = [] →
        (reserialize (unknownFields events) = input ↔ ∀ framed ∈ frames, framed.Minimal) ∧
        ∀ wanted, walk wanted (reserialize (unknownFields events)) = walk wanted input) := by
  obtain ⟨rfl, complete⟩ := transcript_complete accepted
  rw [script, handled] at complete
  obtain ⟨frames, joins, each⟩ := items_framed (scriptOf_clean complete)
  have delivered := scriptOf_unknownFields each complete
  rw [script, handled]
  have walked : ∀ wanted, walk wanted input = .ok (yields wanted 0 (frames.map Framed.record)) := by
    intro wanted
    rw [joins, walk_joined]
  refine ⟨frames, joins, walked, delivered, fun undeclared => ?_⟩
  have all : unknownFields (scriptOf (schema.get id) callbacks.handles true
      (items input.length input)).events = frames.map Framed.delivered := by
    rw [delivered, undeclared]
    simp
  rw [all, reserialize_delivered]
  refine ⟨?_, fun wanted => ?_⟩
  · rw [joins]
    exact joined_minimize_eq_iff frames
  · rw [walked, walk_joined, List.map_map]
    rfl

end Decode

/-- A message without fields. -/
def emptySchema : Schema where
  messages := [{ distinct := nodup_noMember, tracked := noField_tracked }]

/-- Callbacks for unknown fields only. -/
def unknownOnly : Callbacks Unit where
  handles _ := false
  handlesUnknown := true
  call state _ := (state, {})

/-- The tag of the first record is longer than it has to be; the second is a group. -/
theorem unknownFields_reserialize_sample :
    transcript emptySchema 0 unknownOnly () [0x8A, 0x00, 0x01, 0x05, 0x13, 0x08, 0x07, 0x14] =
      some ⟨[.unknown ⟨1, .len⟩ [0x01, 0x05], .unknown ⟨2, .sgroup⟩ [0x08, 0x07, 0x14]], (),
        none⟩ ∧
    ∃ frames, [0x8A, 0x00, 0x01, 0x05, 0x13, 0x08, 0x07, 0x14] = joined frames ∧
      ∀ wanted, walk wanted [0x0A, 0x01, 0x05, 0x13, 0x08, 0x07, 0x14] =
        walk wanted [0x8A, 0x00, 0x01, 0x05, 0x13, 0x08, 0x07, 0x14] := by
  have accepted : transcript emptySchema 0 unknownOnly ()
      [0x8A, 0x00, 0x01, 0x05, 0x13, 0x08, 0x07, 0x14] =
      some ⟨[.unknown ⟨1, .len⟩ [0x01, 0x05], .unknown ⟨2, .sgroup⟩ [0x08, 0x07, 0x14]], (),
        none⟩ := rfl
  obtain ⟨frames, joins, -, -, written⟩ := unknownFields_reserialize emptySchema 0 unknownOnly rfl
    _ () () _ accepted
  exact ⟨accepted, frames, joins, (written rfl).2⟩

end RapidProto
