import RapidProto.Layout.Covers
import RapidProto.Reading.Shadow

/-!
# Default objects

A map entry whose value record is missing shows the default object of its value type where the value
is stored by value.  Under two plans that both store it so, the default objects cannot be told
apart: a message of fixed size has only scalars, and sub-messages of fixed size.
-/

namespace RapidProto

section Zero

variable {schema : Schema} {plan : Plan} {id : MessageId}

/-- The default object of a message. -/
def defaultObject (schema : Schema) (plan : Plan) (id : MessageId) : Behaviour :=
  Cell.zero.behaviour schema plan (.message id)

theorem behaviour_list_zero (element : View) :
    Cell.zero.behaviour schema plan (.list element) = Behaviour.list [] := by
  funext path
  cases path with
  | nil => rfl
  | cons step path =>
      rw [Cell.behaviour, look_cons schema plan (by simp)]
      cases step <;> simp [enter, Cell.elements, Behaviour.list]

/-- A leaf field of a default object. -/
theorem leaf_of_zero {field : Field} {kind : Leaf} (type : field.type = .leaf kind) :
    seenAs schema plan (plainAccessor schema plan id field .zero) = field.behaviour [] := by
  simp only [plainAccessor, type, Cell.mask_zero, Cell.slot_zero, Field.behaviour, Field.unset,
    List.getLast?_nil, Option.getD_none]
  cases repeated : field.isRepeated with
  | true => simpa [seenAs] using behaviour_list_zero (.leaf kind)
  | false =>
      have singular : field.presence ≠ .repeated := by simpa [Field.isRepeated] using repeated
      simp only [Bool.false_eq_true, if_false, not_false_eq_true, and_true]
      by_cases explicit : field.presence = .explicit
      · simp [explicit, seenAs, behaviour_absent]
      · rw [if_neg explicit]
        by_cases needed : Plan.needsValue field = true
        · have isBool : kind = .scalar .bool := by
            simp only [Plan.needsValue, type, decide_eq_true_eq, FieldType.leaf.injEq] at needed
            exact needed.1
          subst isBool
          rw [if_pos needed, seenAs, behaviour_known]
          cases presence : field.presence <;> simp_all [Leaf.zero, Scalar.zero]
        · rw [if_neg needed, seenAs, behaviour_leaf, show Cell.zero.read kind = kind.zero from rfl]
          cases presence : field.presence <;> simp_all

/-- A sub-message stored by value in a default object: absent, or a default object in its turn. -/
theorem message_of_zero {field : Field} {target : MessageId} {delimited : Bool}
    (type : field.type = .message target delimited)
    (materialized : plan.mode id field.number = .materialize)
    (singular : field.isRepeated = false) (inlined : plan.inlined id field.number = true) :
    seenAs schema plan (plainAccessor schema plan id field .zero) =
      if field.presence = .explicit then .absent else defaultObject schema plan target := by
  have kind : plan.kind id field = .inlineFixedSubMsg := by
    simp [Plan.kind, type, materialized, singular, inlined]
  simp only [plainAccessor, type, kind, Plan.needsPresence, Cell.mask_zero, Cell.slot_zero]
  by_cases explicit : field.presence = .explicit
  · simp [explicit, seenAs, behaviour_absent]
  · simp [explicit, seenAs, defaultObject]

theorem default_behind_field {number : Nat} {field : Field} {path : List Step}
    (found : (schema.get id).member? number = some (.plain field))
    (kept : plan.mode id number ≠ .drop) :
    defaultObject schema plan id (.field number :: path) =
      seenAs schema plan (plainAccessor schema plan id field .zero) path := by
  rw [defaultObject, Cell.behaviour, look_cons schema plan (by simp)]
  simp only [enter, if_neg kept, found]

theorem default_behind_unknown {path : List Step} :
    defaultObject schema plan id (.unknownFields :: path) =
      if plan.tracksUnknown id then Behaviour.leaf (.flag false) path else .invalid := by
  rw [defaultObject, Cell.behaviour, look_cons schema plan (by simp)]
  simp only [enter]
  split
  · rename_i result tracked
    split_ifs at tracked with tracks
    cases tracked
    rw [if_pos tracks, seenAs, behaviour_known]
    rfl
  · rename_i untracked
    split_ifs at untracked with tracks
    rw [if_neg tracks]

end Zero

section Both

variable {schema : Schema} {options options' : LayoutOptions} {planner planner' : Planner}
  (planned : planner.Planned schema options) (planned' : planner'.Planned schema options')
  {endian endian' : Bool}
include planned planned'

/-- Default objects stored by value under both plans of one profile are equal: a path descends
through sub-messages stored by value, and ends elsewhere. -/
theorem defaultObject_eq (mode : options'.mode = options.mode)
    (tracks : options'.tracksUnknown = options.tracksUnknown) {id : MessageId}
    (fixed : FixedSize planner.memo id) (fixed' : FixedSize planner'.memo id) :
    defaultObject schema (planner.plan schema options endian) id =
      defaultObject schema (planner'.plan schema options' endian') id := by
  funext path
  induction path generalizing id with
  | nil => rfl
  | cons step path ih =>
      cases step with
      | field number =>
          by_cases dropped : options.mode id number = .drop
          · have dropped' : options'.mode id number = .drop := by rw [mode, dropped]
            rw [defaultObject, Cell.behaviour, look_cons schema _ (by simp), defaultObject,
              Cell.behaviour, look_cons schema _ (by simp)]
            simp [enter, Planner.plan, dropped, dropped']
          have kept' : options'.mode id number ≠ .drop := by rwa [mode]
          cases found : (schema.get id).member? number with
          | none =>
              rw [defaultObject, Cell.behaviour, look_cons schema _ (by simp), defaultObject,
                Cell.behaviour, look_cons schema _ (by simp)]
              simp [enter, Planner.plan, dropped, kept', found]
          | some member =>
              obtain ⟨declared, rfl⟩ := Message.mem_of_member? found
              cases member with
              | plain field =>
                  have listed := Message.plain_mem.mp declared
                  rw [default_behind_field found dropped, default_behind_field found kept']
                  cases type : field.type with
                  | leaf kind => rw [leaf_of_zero type, leaf_of_zero type]
                  | message target delimited =>
                      obtain ⟨materialized, singular, inlined⟩ :=
                        planned.fixed_field endian fixed listed dropped type
                      obtain ⟨materialized', -, inlined'⟩ :=
                        planned'.fixed_field endian' fixed' listed kept' type
                      rw [message_of_zero type materialized singular inlined,
                        message_of_zero type materialized' singular inlined']
                      split_ifs
                      · rfl
                      · exact ih (planned.inlined_field listed type inlined)
                          (planned'.inlined_field listed type inlined')
              | mapped map =>
                  exact absurd (planned.fixed_map fixed (Message.mapped_mem.mp declared)) dropped
              | choice oneof index field =>
                  rw [defaultObject, Cell.behaviour, look_cons schema _ (by simp), defaultObject,
                    Cell.behaviour, look_cons schema _ (by simp)]
                  simp [enter, Planner.plan, dropped, kept', found]
      | oneof oneof =>
          rw [defaultObject, Cell.behaviour, look_cons schema _ (by simp), defaultObject,
            Cell.behaviour, look_cons schema _ (by simp)]
          simp [enter, planned.fixed_oneofs fixed]
      | unknownFields =>
          rw [default_behind_unknown, default_behind_unknown]
          show (if options.tracksUnknown id then _ else _) =
            if options'.tracksUnknown id then _ else _
          rw [tracks]
      | _ => rfl

variable {decode : MessageId → List Byte → Outcome DecodeError Behaviour}
  {inner : MessageId → List Byte → Behaviour → Behaviour → Prop}

/-- Default objects stored by value under both plans are alike. -/
theorem defaultObject_alike
    (narrows : ((planner.plan schema options endian).reading schema).Narrows
      ((planner'.plan schema options' endian').reading schema)) {id : MessageId}
    (fixed : FixedSize planner.memo id) (fixed' : FixedSize planner'.memo id)
    (nested : ∀ target, FixedSize planner.memo target → FixedSize planner'.memo target →
      inner target [] (defaultObject schema (planner.plan schema options endian) target)
        (defaultObject schema (planner'.plan schema options' endian') target)) :
    NodeAlike schema ((planner.plan schema options endian).reading schema)
      ((planner'.plan schema options' endian').reading schema) decode inner id []
      (defaultObject schema (planner.plan schema options endian) id)
      (defaultObject schema (planner'.plan schema options' endian') id) := by
  refine ⟨⟨rfl, rfl⟩, ?_, ?_, ?_, ?_⟩
  · intro field declared kept'
    have kept := narrows.kept kept'
    have found := Message.member?_number (Message.plain_mem.mpr declared)
    rw [Member.number] at found
    have left : (defaultObject schema (planner.plan schema options endian) id).behind
        (.field field.number) = seenAs schema (planner.plan schema options endian)
          (plainAccessor schema (planner.plan schema options endian) id field .zero) :=
      funext fun path => default_behind_field found kept
    have right : (defaultObject schema (planner'.plan schema options' endian') id).behind
        (.field field.number) = seenAs schema (planner'.plan schema options' endian')
          (plainAccessor schema (planner'.plan schema options' endian') id field .zero) :=
      funext fun path => default_behind_field found kept'
    rw [left, right, FieldAlike]
    cases type : field.type with
    | leaf kind => rw [leaf_of_zero type, leaf_of_zero type]
    | message target delimited =>
        obtain ⟨materialized, singular, inlined⟩ :=
          planned.fixed_field endian fixed declared kept type
        obtain ⟨materialized', -, inlined'⟩ :=
          planned'.fixed_field endian' fixed' declared kept' type
        have eager : ((planner.plan schema options endian).reading schema).mode id field.number ≠
            .raw := by
          rw [show ((planner.plan schema options endian).reading schema).mode id field.number =
            .materialize from materialized]
          simp
        have without : recordsOf (Member.plain field).tag [] = [] := rfl
        simp only [if_neg eager, singular, Bool.false_eq_true, if_false, without]
        rw [message_of_zero type materialized singular inlined,
          message_of_zero type materialized' singular inlined']
        split_ifs with explicit
        · exact .inl ⟨rfl, rfl⟩
        · refine .inr ⟨?_, nested target (planned.inlined_field declared type inlined)
            (planned'.inlined_field declared type inlined')⟩
          have tracked := (schema.get id).tracked field declared target delimited type
          cases presence : field.presence with
          | implicit => exact absurd presence tracked
          | explicit => exact absurd presence explicit
          | required => rfl
          | repeated => simp [Field.isRepeated, presence] at singular
  · intro map declared kept'
    exact absurd (planned'.fixed_map fixed' declared) kept'
  · intro oneof inside
    rw [planned.fixed_oneofs fixed] at inside
    exact absurd inside (Nat.not_lt_zero oneof)
  · intro tracked
    funext path
    rw [Behaviour.behind, default_behind_unknown,
      if_pos (show (planner'.plan schema options' endian').tracksUnknown id = true from tracked)]
    rfl

end Both

/-! ## Entries without a value -/

/-- What an entry without a value record shows: the default object, or nothing. -/
theorem absentValue_eq {schema : Schema} (plan : Plan) {id : MessageId} {map : MapField}
    {target : MessageId} (declared : map ∈ (schema.get id).maps)
    (type : map.value = .message target) :
    (plan.reading schema).absentValue id map.number =
      if plan.inlined id map.number then defaultObject schema plan target else .absent := by
  have found := Message.member?_number (Message.mapped_mem.mpr declared)
  rw [Member.number] at found
  simp only [Plan.reading, found, entryValueAccessor, type]
  split_ifs
  · rfl
  · exact behaviour_absent

end RapidProto
