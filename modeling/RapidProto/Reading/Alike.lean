import RapidProto.Reading.Records

/-!
# Two readings of one body

Two trees decoded from the same body under different storage plans and profiles, compared accessor
by accessor.  A sub-message that the second profile keeps as bytes is compared after its payload is
decoded.  The comparison fails in one case only: a map entry that both trees show carries no record
of its message value, and the two plans disagree on what its absence looks like.
-/

namespace RapidProto

/-- Three lists in step. -/
inductive Each {α β γ : Type} (related : α → β → γ → Prop) :
    List α → List β → List γ → Prop
  | nil : Each related [] [] []
  | cons {a : α} {b : β} {c : γ} {as : List α} {bs : List β} {cs : List γ} :
      related a b c → Each related as bs cs → Each related (a :: as) (b :: bs) (c :: cs)

section Each

variable {α β γ : Type} {related related' : α → β → γ → Prop} {as : List α} {bs : List β}
  {cs : List γ}

theorem Each.mono (each : Each related as bs cs)
    (implies : ∀ a b c, related a b c → related' a b c) : Each related' as bs cs := by
  induction each with
  | nil => exact .nil
  | cons first _ ih => exact .cons (implies _ _ _ first) ih

/-- What decides one place decides the lists. -/
theorem each_iff {left : α → β → Prop} {right : α → γ → Prop} {condition : α → Prop}
    (lefts : List.Forall₂ left as bs) (rights : List.Forall₂ right as cs)
    (decides : ∀ a ∈ as, ∀ b c, left a b → right a c → (related a b c ↔ condition a)) :
    Each related as bs cs ↔ ∀ a ∈ as, condition a := by
  induction lefts generalizing cs with
  | nil =>
      cases rights
      exact ⟨fun _ => by simp, fun _ => .nil⟩
  | cons first lefts ih =>
      cases rights with
      | cons first' rights =>
          have here := decides _ (by simp) _ _ first first'
          have later := ih rights fun a met => decides a (by simp [met])
          simp only [List.mem_cons, forall_eq_or_imp]
          constructor
          · intro each
            cases each with
            | cons head tail => exact ⟨here.mp head, later.mp tail⟩
          · rintro ⟨head, tail⟩
            exact .cons (here.mpr head) (later.mpr tail)

/-- Two lists decided place by place by the same list are equal iff every place is. -/
theorem eq_iff_of_forall₂ {left right : α → β → Prop} {condition : α → Prop} {bs' : List β}
    (lefts : List.Forall₂ left as bs) (rights : List.Forall₂ right as bs')
    (decides : ∀ a ∈ as, ∀ b b', left a b → right a b' → (b = b' ↔ condition a)) :
    bs = bs' ↔ ∀ a ∈ as, condition a := by
  induction lefts generalizing bs' with
  | nil =>
      cases rights
      simp
  | cons first lefts ih =>
      cases rights with
      | cons first' rights =>
          have here := decides _ (by simp) _ _ first first'
          have later := ih rights fun a met => decides a (by simp [met])
          simp only [List.mem_cons, forall_eq_or_imp, List.cons.injEq, here, later]

end Each

/-! ## The comparison -/

section Comparison

variable (schema : Schema) (reading reading' : Reading)
  (decode : MessageId → List Byte → Outcome DecodeError Behaviour)
  (inner : MessageId → List Byte → Behaviour → Behaviour → Prop)

/-- The second profile keeps the field as bytes where the first one decodes it. -/
def Deferred (id : MessageId) (number : Nat) : Prop :=
  reading'.mode id number = .raw ∧ reading.mode id number ≠ .raw

/-- A sub-message on both sides; bytes are decoded first. -/
def PayloadAlike (id : MessageId) (number : Nat) (target : MessageId) (bytes : List Byte)
    (tree tree' : Behaviour) : Prop :=
  (Deferred reading reading' id number → tree' = .leaf (.text bytes) ∧
    ∃ decoded, decode target bytes = .ok decoded ∧ inner target bytes tree decoded) ∧
  (¬ Deferred reading reading' id number → inner target bytes tree tree')

/-- A plain field on both sides: the same scalars, the same presence or number of elements, and
sub-messages that are alike.  A required sub-message without a record is one of a default object. -/
def FieldAlike (id : MessageId) (field : Field) (body : List Byte) (tree tree' : Behaviour) :
    Prop :=
  match field.type with
  | .leaf _ => tree = tree'
  | .message target _ =>
    if reading.mode id field.number = .raw then tree = tree'
    else if field.isRepeated then
      ∃ elements elements', tree = .list elements ∧ tree' = .list elements' ∧
        Each (fun (value : Payload) =>
            PayloadAlike reading reading' decode inner id field.number target value.bytes)
          (recordsOf (Member.plain field).tag body) elements elements'
    else
      match recordsOf (Member.plain field).tag body with
      | [] => tree = .absent ∧ tree' = .absent ∨
          field.presence = .required ∧ inner target [] tree tree'
      | value :: _ =>
        PayloadAlike reading reading' decode inner id field.number target value.bytes tree tree'

/-- A map entry on both sides. -/
def EntryAlike (map : MapField) (bytes : List Byte) (tree tree' : Behaviour) : Prop :=
  ∃ key value value', tree = .entry key value ∧ tree' = .entry key value' ∧
    match map.value with
    | .leaf _ => value = value'
    | .message target =>
      match recordsOf ⟨2, .len⟩ bytes with
      | [] => value = .absent ∧ value' = .absent ∨ inner target [] value value'
      | record :: _ => inner target record.bytes value value'

/-- A map on both sides: the same number of entries, each alike. -/
def MapAlike (map : MapField) (body : List Byte) (tree tree' : Behaviour) : Prop :=
  ∃ entries entries', tree = .map entries ∧ tree' = .map entries' ∧
    Each (fun (value : Payload) => EntryAlike inner map value.bytes)
      (recordsOf (Member.mapped map).tag body) entries entries'

/-- A oneof on both sides. -/
def OneofAlike (id : MessageId) (oneof : Nat) (body : List Byte) (tree tree' : Behaviour) : Prop :=
  match lastChoice (schema.get id) oneof body with
  | none => tree = tree'
  | some choice =>
    match choice.field.type with
    | .leaf _ => tree = tree'
    | .message target _ =>
      if reading.narrow choice.index = choice.index then
        ∃ held held', tree = .member choice.index held ∧ tree' = .member choice.index held' ∧
          inner target choice.value.bytes held held'
      else tree = tree'

/-- A message on both sides, through every accessor the second profile keeps; its unknown-fields
accessor tells whether the body has a record of an undeclared number. -/
structure NodeAlike (id : MessageId) (body : List Byte) (tree tree' : Behaviour) : Prop where
  /-- Both are messages. -/
  present : tree [] = .message ∧ tree' [] = .message
  /-- Plain fields. -/
  fields : ∀ field ∈ (schema.get id).fields, reading'.mode id field.number ≠ .drop →
    FieldAlike reading reading' decode inner id field body (tree.behind (.field field.number))
      (tree'.behind (.field field.number))
  /-- Maps. -/
  maps : ∀ map ∈ (schema.get id).maps, reading'.mode id map.number ≠ .drop →
    MapAlike inner map body (tree.behind (.field map.number)) (tree'.behind (.field map.number))
  /-- Oneofs. -/
  oneofs : ∀ oneof, oneof < (schema.get id).oneofs.length →
    OneofAlike schema reading inner id oneof body (tree.behind (.oneof oneof))
      (tree'.behind (.oneof oneof))
  /-- Unknown fields. -/
  unknown : reading'.tracksUnknown id = true →
    tree'.behind .unknownFields = .leaf (.flag (hasUndeclared (schema.get id) body))

end Comparison

/-! ## Entries without a value -/

/-- Where both trees show it, the body has an entry of the map that carries no record of its message
value. -/
inductive Unvalued (schema : Schema) (reading reading' : Reading) :
    MessageId → List Byte → MessageId → MapField → Prop
  /-- Here. -/
  | entry {id : MessageId} {body : List Byte} {map : MapField} {target : MessageId}
      {value : Payload} : map ∈ (schema.get id).maps → reading'.mode id map.number ≠ .drop →
      map.value = .message target → value ∈ recordsOf (Member.mapped map).tag body →
      recordsOf ⟨2, .len⟩ value.bytes = [] → Unvalued schema reading reading' id body id map
  /-- In the value of an entry. -/
  | value {id : MessageId} {body : List Byte} {map : MapField} {target : MessageId}
      {value record : Payload} {owner : MessageId} {found : MapField} :
      map ∈ (schema.get id).maps → reading'.mode id map.number ≠ .drop →
      map.value = .message target → value ∈ recordsOf (Member.mapped map).tag body →
      record ∈ recordsOf ⟨2, .len⟩ value.bytes →
      Unvalued schema reading reading' target record.bytes owner found →
      Unvalued schema reading reading' id body owner found
  /-- In a sub-message of a plain field. -/
  | plain {id : MessageId} {body : List Byte} {field : Field} {target : MessageId}
      {delimited : Bool} {value : Payload} {owner : MessageId} {found : MapField} :
      field ∈ (schema.get id).fields → reading'.mode id field.number ≠ .drop →
      reading.mode id field.number ≠ .raw → field.type = .message target delimited →
      value ∈ recordsOf (Member.plain field).tag body →
      Unvalued schema reading reading' target value.bytes owner found →
      Unvalued schema reading reading' id body owner found
  /-- In the last member of a oneof. -/
  | choice {id : MessageId} {body : List Byte} {oneof : Nat} {choice : Choice}
      {target : MessageId} {delimited : Bool} {owner : MessageId} {found : MapField} :
      oneof < (schema.get id).oneofs.length →
      lastChoice (schema.get id) oneof body = some choice →
      reading.narrow choice.index = choice.index →
      choice.field.type = .message target delimited →
      Unvalued schema reading reading' target choice.value.bytes owner found →
      Unvalued schema reading reading' id body owner found

theorem Unvalued.declared {schema : Schema} {reading reading' : Reading} {id owner : MessageId}
    {body : List Byte} {map : MapField}
    (unvalued : Unvalued schema reading reading' id body owner map) :
    map ∈ (schema.get owner).maps := by
  induction unvalued with
  | entry declared => exact declared
  | value _ _ _ _ _ _ ih => exact ih
  | plain _ _ _ _ _ _ ih => exact ih
  | choice _ _ _ _ _ ih => exact ih

/-- Wherever the body has such an entry, the two sides agree on its map. -/
def Unmarked (schema : Schema) (reading reading' : Reading)
    (agree : MessageId → MapField → Prop) (id : MessageId) (body : List Byte) : Prop :=
  ∀ owner map, Unvalued schema reading reading' id body owner map → agree owner map

section Unmarked

variable {schema : Schema} {reading reading' : Reading} {agree : MessageId → MapField → Prop}
  {id : MessageId} {body : List Byte}

/-- One level of the condition. -/
theorem unmarked_iff :
    Unmarked schema reading reading' agree id body ↔
      (∀ field ∈ (schema.get id).fields, reading'.mode id field.number ≠ .drop →
        reading.mode id field.number ≠ .raw → ∀ target delimited,
        field.type = .message target delimited →
        ∀ value ∈ recordsOf (Member.plain field).tag body,
          Unmarked schema reading reading' agree target value.bytes) ∧
      (∀ map ∈ (schema.get id).maps, reading'.mode id map.number ≠ .drop → ∀ target,
        map.value = .message target → ∀ value ∈ recordsOf (Member.mapped map).tag body,
          (recordsOf ⟨2, .len⟩ value.bytes = [] → agree id map) ∧
          ∀ record ∈ recordsOf ⟨2, .len⟩ value.bytes,
            Unmarked schema reading reading' agree target record.bytes) ∧
      ∀ oneof, oneof < (schema.get id).oneofs.length → ∀ choice,
        lastChoice (schema.get id) oneof body = some choice →
        reading.narrow choice.index = choice.index → ∀ target delimited,
        choice.field.type = .message target delimited →
          Unmarked schema reading reading' agree target choice.value.bytes := by
  constructor
  · intro unmarked
    refine ⟨?_, ?_, ?_⟩
    · intro field declared kept eager target delimited type value met owner map unvalued
      exact unmarked owner map (.plain declared kept eager type met unvalued)
    · intro map declared kept target type value met
      refine ⟨fun without => unmarked id map (.entry declared kept type met without), ?_⟩
      intro record met' owner found unvalued
      exact unmarked owner found (.value declared kept type met met' unvalued)
    · intro oneof inside choice last faithful target delimited type owner map unvalued
      exact unmarked owner map (.choice inside last faithful type unvalued)
  · rintro ⟨plains, maps, choices⟩ owner map unvalued
    cases unvalued with
    | entry declared kept type met without =>
        exact (maps map declared kept _ type _ met).1 without
    | value declared kept type met met' deeper =>
        exact (maps _ declared kept _ type _ met).2 _ met' owner map deeper
    | plain declared kept eager type met deeper =>
        exact plains _ declared kept eager _ _ type _ met owner map deeper
    | choice inside last faithful type deeper =>
        exact choices _ inside _ last faithful _ _ type owner map deeper

end Unmarked

/-! ## Behaviours are known from their parts -/

namespace Behaviour

theorem list_injective {elements elements' : List Behaviour}
    (same : list elements = list elements') : elements = elements' := by
  have length : elements.length = elements'.length := by
    simpa [list] using congrFun same []
  refine List.ext_getElem length fun index inside inside' => ?_
  funext path
  simpa [list, inside, inside'] using congrFun same (.elem index :: path)

theorem map_injective {entries entries' : List Behaviour}
    (same : map entries = map entries') : entries = entries' := by
  have length : entries.length = entries'.length := by
    simpa [map] using congrFun same []
  refine List.ext_getElem length fun index inside inside' => ?_
  funext path
  simpa [map, inside, inside'] using congrFun same (.elem index :: path)

theorem entry_injective {key key' value value' : Behaviour}
    (same : entry key value = entry key' value') : key = key' ∧ value = value' := by
  refine ⟨?_, ?_⟩
  · funext path
    simpa [entry] using congrFun same (.key :: path)
  · funext path
    simpa [entry] using congrFun same (.value :: path)

theorem member_injective {index index' : Nat} {held held' : Behaviour}
    (same : member index held = member index' held') : index = index' ∧ held = held' := by
  refine ⟨by simpa [member] using congrFun same [], ?_⟩
  funext path
  simpa [member] using congrFun same (.held :: path)

end Behaviour

theorem behind_plain {message : Message} {field : Field} {mode : Nat → FieldMode}
    (declared : field ∈ message.fields) (kept : mode field.number ≠ .drop) (narrow : Nat → Nat)
    (history : History) (unknown : Option Bool) :
    (message.behaviour mode narrow history unknown).behind (.field field.number) =
      field.behaviour (history.occurrences field.number) := by
  have found := Message.member?_number (Message.plain_mem.mpr declared)
  simp only [Member.number] at found
  funext path
  simp [Behaviour.behind, Message.behaviour, kept, found]

theorem behind_oneof {message : Message} {oneof : Nat} (inside : oneof < message.oneofs.length)
    (mode : Nat → FieldMode) (narrow : Nat → Nat) (history : History) (unknown : Option Bool) :
    (message.behaviour mode narrow history unknown).behind (.oneof oneof) =
      choiceBehaviour narrow (message.current oneof history) := by
  funext path
  simp [Behaviour.behind, Message.behaviour, inside]

/-- The second reading has the modes of the first, except that it may drop a field or keep it as
bytes where the first one decodes it. -/
structure Reading.Narrows (reading reading' : Reading) : Prop where
  mode : ∀ id number, reading.mode id number = reading'.mode id number ∨
    reading.mode id number = .materialize
  narrow : reading'.narrow = reading.narrow

theorem Reading.Narrows.kept {reading reading' : Reading} (narrows : reading.Narrows reading')
    {id : MessageId} {number : Nat} (kept : reading'.mode id number ≠ .drop) :
    reading.mode id number ≠ .drop := by
  rcases narrows.mode id number with same | eager
  · rwa [same]
  · rw [eager]
    simp

/-! ## One message -/

section Node

variable {schema : Schema} {reading reading' : Reading}
  {sub sub' : MessageId → List Byte → Outcome DecodeError Behaviour}
  {decode : MessageId → List Byte → Outcome DecodeError Behaviour}
  {inner : MessageId → List Byte → Behaviour → Behaviour → Prop}
  {agree : MessageId → MapField → Prop} {limit : Nat} {id : MessageId} {body : List Byte}
  {progress progress' : Progress}

/-- What is known of sub-messages of at most `limit` bytes and of default values. -/
structure Decides (schema : Schema) (reading reading' : Reading)
    (sub sub' : MessageId → List Byte → Outcome DecodeError Behaviour)
    (inner : MessageId → List Byte → Behaviour → Behaviour → Prop)
    (agree : MessageId → MapField → Prop) (limit : Nat) (id : MessageId) : Prop where
  narrows : reading.Narrows reading'
  both : ∀ target bytes, bytes.length ≤ limit → ∀ tree tree', sub target bytes = .ok tree →
    sub' target bytes = .ok tree' →
    (inner target bytes tree tree' ↔ Unmarked schema reading reading' agree target bytes)
  defaults : ∀ map ∈ (schema.get id).maps, ∀ target, map.value = .message target →
    (reading.absentValue id map.number = .absent ∧ reading'.absentValue id map.number = .absent ∨
      inner target [] (reading.absentValue id map.number) (reading'.absentValue id map.number) ↔
        agree id map)

/-- What is known of payloads kept as bytes. -/
def DecidesLater (schema : Schema) (reading reading' : Reading)
    (sub decode : MessageId → List Byte → Outcome DecodeError Behaviour)
    (inner : MessageId → List Byte → Behaviour → Behaviour → Prop)
    (agree : MessageId → MapField → Prop) (limit : Nat) (id : MessageId) : Prop :=
  ∀ number, Deferred reading reading' id number →
    ∀ target bytes, bytes.length ≤ limit → ∀ tree, sub target bytes = .ok tree →
      ∃ decoded, decode target bytes = .ok decoded ∧
        (inner target bytes tree decoded ↔ Unmarked schema reading reading' agree target bytes)

variable (ran : (referenceBodies schema reading sub id).fold body {} = .ok progress)
  (ran' : (referenceBodies schema reading' sub' id).fold body {} = .ok progress')
include ran ran'

/-- A leaf field reads the same. -/
theorem occurrences_leaf {field : Field} {kind : Leaf} (type : field.type = .leaf kind)
    (declared : field ∈ (schema.get id).fields) (kept : reading.mode id field.number ≠ .drop)
    (kept' : reading'.mode id field.number ≠ .drop) :
    progress.history.occurrences field.number = progress'.history.occurrences field.number := by
  rw [fold_leaves ran type declared kept, fold_leaves ran' type declared kept']

/-- The occurrences of a sub-message that the first reading decodes. -/
theorem occurrences_message (decides : Decides schema reading reading' sub sub' inner agree limit id)
    {field : Field} {target : MessageId} {delimited : Bool}
    (type : field.type = .message target delimited) (declared : field ∈ (schema.get id).fields)
    (kept' : reading'.mode id field.number ≠ .drop) (eager : reading.mode id field.number ≠ .raw) :
    List.Forall₂ (fun (value : Payload) tree => sub target value.bytes = .ok tree)
        (recordsOf (Member.plain field).tag body)
        (progress.history.occurrences field.number) ∧
      List.Forall₂ (fun (value : Payload) tree' =>
          (Deferred reading reading' id field.number → tree' = .leaf (.text value.bytes)) ∧
          (¬ Deferred reading reading' id field.number → sub' target value.bytes = .ok tree'))
        (recordsOf (Member.plain field).tag body)
        (progress'.history.occurrences field.number) := by
  have kept := decides.narrows.kept kept'
  have packable : ∀ mode, ((Member.plain field).shape mode).packable = false := by
    intro mode
    cases delimited <;>
      simp [Member.shape, Shape.packable, type, FieldType.wire, isPackableWire]
  refine ⟨?_, ?_⟩
  · refine (fold_records ran (Message.plain_mem.mpr declared) (by simp [Member.shape, kept])
      (packable _)).imp fun value tree occurred => ?_
    simpa [Member.occurrence, type, eager] using occurred
  · refine (fold_records ran' (Message.plain_mem.mpr declared) (by simp [Member.shape, kept'])
      (packable _)).imp fun value tree' occurred => ?_
    simp only [Member.occurrence, type] at occurred
    refine ⟨fun deferred => ?_, fun eager' => ?_⟩
    · rw [if_pos deferred.1] at occurred
      exact (Outcome.ok.inj occurred).symm
    · rw [if_neg fun raw => eager' ⟨raw, eager⟩] at occurred
      exact occurred

omit ran ran' in
theorem payloadAlike_iff (decides : Decides schema reading reading' sub sub' inner agree limit id)
    (later : DecidesLater schema reading reading' sub decode inner agree limit id) {number : Nat}
    {target : MessageId} {value : Payload} (short : value.bytes.length ≤ limit)
    {tree tree' : Behaviour} (decoded : sub target value.bytes = .ok tree)
    (stored : (Deferred reading reading' id number → tree' = .leaf (.text value.bytes)) ∧
      (¬ Deferred reading reading' id number → sub' target value.bytes = .ok tree')) :
    PayloadAlike reading reading' decode inner id number target value.bytes tree tree' ↔
      Unmarked schema reading reading' agree target value.bytes := by
  rw [PayloadAlike]
  by_cases deferred : Deferred reading reading' id number
  · obtain ⟨found, eventually, same⟩ :=
      later number deferred target value.bytes short tree decoded
    simp only [deferred, forall_const, not_true_eq_false, false_implies, and_true, stored.1 deferred,
      true_and]
    rw [← same]
    constructor
    · rintro ⟨other, again, alike⟩
      rw [eventually] at again
      cases again
      exact alike
    · exact fun alike => ⟨found, eventually, alike⟩
  · simp only [deferred, false_implies, not_false_eq_true, forall_const, true_and]
    exact decides.both target value.bytes short tree tree' decoded (stored.2 deferred)

/-- A plain sub-message. -/
theorem fieldAlike_iff (decides : Decides schema reading reading' sub sub' inner agree limit id)
    (later : DecidesLater schema reading reading' sub decode inner agree limit id)
    (fits : body.length ≤ limit) {field : Field} {target : MessageId} {delimited : Bool}
    (type : field.type = .message target delimited) (declared : field ∈ (schema.get id).fields)
    (kept' : reading'.mode id field.number ≠ .drop) (eager : reading.mode id field.number ≠ .raw) :
    FieldAlike reading reading' decode inner id field body
        (field.behaviour (progress.history.occurrences field.number))
        (field.behaviour (progress'.history.occurrences field.number)) ↔
      ∀ value ∈ recordsOf (Member.plain field).tag body,
        Unmarked schema reading reading' agree target value.bytes := by
  obtain ⟨lefts, rights⟩ := occurrences_message ran ran' decides type declared kept' eager
  have kept := decides.narrows.kept kept'
  simp only [FieldAlike, type, if_neg eager, Field.behaviour]
  cases repeated : field.isRepeated with
  | true =>
      simp only [if_true]
      have whole : Each (fun (value : Payload) =>
            PayloadAlike reading reading' decode inner id field.number target value.bytes)
          (recordsOf (Member.plain field).tag body)
          (progress.history.occurrences field.number)
          (progress'.history.occurrences field.number) ↔
          ∀ value ∈ recordsOf (Member.plain field).tag body,
            Unmarked schema reading reading' agree target value.bytes :=
        each_iff lefts rights fun value met tree tree' decoded stored =>
          payloadAlike_iff decides later ((recordsOf_length met).trans fits) decoded stored
      rw [← whole]
      constructor
      · rintro ⟨elements, elements', same, same', each⟩
        rwa [Behaviour.list_injective same, Behaviour.list_injective same']
      · exact fun each => ⟨_, _, rfl, rfl, each⟩
  | false =>
      simp only [Bool.false_eq_true, if_false]
      have once := foldlM_single ran type declared kept repeated (by simp)
      have short : ∀ value ∈ recordsOf (Member.plain field).tag body,
          value.bytes.length ≤ limit := fun value met => (recordsOf_length met).trans fits
      generalize progress.history.occurrences field.number = occurred at lefts once
      generalize progress'.history.occurrences field.number = occurred' at rights
      generalize recordsOf (Member.plain field).tag body = records at lefts rights short
      cases lefts with
      | nil =>
          cases rights
          simp [Field.unset, type]
      | cons first rest =>
          cases rest with
          | cons _ _ => simp at once
          | nil =>
              cases rights with
              | cons first' rest' =>
                  cases rest'
                  simpa using payloadAlike_iff decides later (short _ (by simp)) first first'

/-- A field that both readings keep as bytes. -/
theorem occurrences_raw {field : Field} {target : MessageId} {delimited : Bool}
    (type : field.type = .message target delimited) (declared : field ∈ (schema.get id).fields)
    (raw : reading.mode id field.number = .raw) (raw' : reading'.mode id field.number = .raw) :
    progress.history.occurrences field.number = progress'.history.occurrences field.number := by
  have packable : ∀ mode, ((Member.plain field).shape mode).packable = false := by
    intro mode
    cases delimited <;>
      simp [Member.shape, Shape.packable, type, FieldType.wire, isPackableWire]
  have lefts := fold_records ran (Message.plain_mem.mpr declared) (by simp [Member.shape, raw])
    (packable _)
  have rights := fold_records ran' (Message.plain_mem.mpr declared) (by simp [Member.shape, raw'])
    (packable _)
  refine (eq_iff_of_forall₂ lefts rights fun value _ tree tree' occurred occurred' => ?_).mpr
    fun _ _ => trivial
  simp only [Member.occurrence, type, raw, raw', if_true] at occurred occurred'
  cases occurred
  cases occurred'
  simp

omit ran ran'

/-- An entry of a message-valued map: its value comes from its only value record, or is the default.
-/
theorem occurrence_entry {map : MapField} {target : MessageId} (type : map.value = .message target)
    {value : Payload} {tree : Behaviour}
    (occurred : (Member.mapped map).occurrence reading sub id value = .ok tree) :
    ∃ held, tree = .entry (.leaf ((lastKey map (items value.bytes.length value.bytes)).getD
        map.key.zero)) held ∧
      ((recordsOf ⟨2, .len⟩ value.bytes = [] ∧ held = reading.absentValue id map.number) ∨
        ∃ record, recordsOf ⟨2, .len⟩ value.bytes = [record] ∧
          sub target record.bytes = .ok held) := by
  obtain ⟨entry, looped, same⟩ := Outcome.bind_eq_ok.mp occurred
  cases same
  have key := foldlM_key looped
  obtain ⟨occurred, records, values⟩ := foldlM_value type looped
  rw [Option.or_none] at key
  simp only [Option.toList_none, List.nil_append] at values
  refine ⟨entry.value.getD (map.unsetValue reading id), by rw [EntryProgress.behaviour, key], ?_⟩
  rw [recordsOf]
  generalize (items value.bytes.length value.bytes).filterMap (Item.valueOf ⟨2, .len⟩) = found
    at records
  cases held : entry.value with
  | none =>
      rw [held] at values
      cases values
      cases records
      exact .inl ⟨rfl, by simp [MapField.unsetValue, type]⟩
  | some behaviour =>
      rw [held] at values
      cases values
      cases records with
      | cons first rest =>
          cases rest
          exact .inr ⟨_, rfl, first⟩

/-- One entry of a map. -/
theorem entryAlike_iff (decides : Decides schema reading reading' sub sub' inner agree limit id)
    {map : MapField} (declared : map ∈ (schema.get id).maps) {value : Payload}
    (short : value.bytes.length ≤ limit) {tree tree' : Behaviour}
    (occurred : (Member.mapped map).occurrence reading sub id value = .ok tree)
    (occurred' : (Member.mapped map).occurrence reading' sub' id value = .ok tree') :
    EntryAlike inner map value.bytes tree tree' ↔ ∀ target, map.value = .message target →
      (recordsOf ⟨2, .len⟩ value.bytes = [] → agree id map) ∧
        ∀ record ∈ recordsOf ⟨2, .len⟩ value.bytes,
          Unmarked schema reading reading' agree target record.bytes := by
  cases type : map.value with
  | leaf kind =>
      obtain ⟨entry, looped, same⟩ := Outcome.bind_eq_ok.mp occurred
      obtain ⟨entry', looped', same'⟩ := Outcome.bind_eq_ok.mp occurred'
      cases same
      cases same'
      rw [@entryBodies_of_leaf sub' sub _ _ type, looped] at looped'
      cases looped'
      refine iff_of_true ⟨_, _, _, rfl, rfl, ?_⟩ fun _ impossible => (nomatch impossible)
      simp [type, MapField.unsetValue]
  | message target =>
      obtain ⟨held, rfl, cases⟩ := occurrence_entry type occurred
      obtain ⟨held', rfl, cases'⟩ := occurrence_entry type occurred'
      have parts : ∀ {condition : Behaviour → Behaviour → Prop},
          (∃ key value₁ value₂, Behaviour.entry (.leaf ((lastKey map
              (items value.bytes.length value.bytes)).getD map.key.zero)) held =
                .entry key value₁ ∧
            Behaviour.entry (.leaf ((lastKey map
              (items value.bytes.length value.bytes)).getD map.key.zero)) held' =
                .entry key value₂ ∧ condition value₁ value₂) ↔ condition held held' := by
        intro condition
        constructor
        · rintro ⟨key, value₁, value₂, same, same', holds⟩
          rw [(Behaviour.entry_injective same).2, (Behaviour.entry_injective same').2]
          exact holds
        · exact fun holds => ⟨_, _, _, rfl, rfl, holds⟩
      simp only [EntryAlike, type, MapValue.message.injEq, forall_eq']
      rw [parts]
      rcases cases with ⟨empty, rfl⟩ | ⟨record, single, decoded⟩
      · rcases cases' with ⟨-, rfl⟩ | ⟨record, single, -⟩
        · simpa [empty] using decides.defaults map declared target type
        · rw [empty] at single
          cases single
      · rcases cases' with ⟨empty, -⟩ | ⟨record', single', decoded'⟩
        · rw [empty] at single
          cases single
        · rw [single] at single'
          cases single'
          have inside : record.bytes.length ≤ limit :=
            (recordsOf_length (by rw [single]; simp)).trans short
          simpa [single] using decides.both target record.bytes inside held held' decoded decoded'

include ran ran'

/-- A map. -/
theorem mapAlike_iff (decides : Decides schema reading reading' sub sub' inner agree limit id)
    (fits : body.length ≤ limit) {map : MapField} (declared : map ∈ (schema.get id).maps)
    (kept' : reading'.mode id map.number ≠ .drop) :
    MapAlike inner map body (.map (progress.history.occurrences map.number))
        (.map (progress'.history.occurrences map.number)) ↔
      ∀ target, map.value = .message target → ∀ value ∈ recordsOf (Member.mapped map).tag body,
        (recordsOf ⟨2, .len⟩ value.bytes = [] → agree id map) ∧
          ∀ record ∈ recordsOf ⟨2, .len⟩ value.bytes,
            Unmarked schema reading reading' agree target record.bytes := by
  have kept := decides.narrows.kept kept'
  have declared' := Message.mapped_mem.mpr declared
  have lefts := fold_records ran declared' (by simp [Member.shape, kept]) rfl
  have rights := fold_records ran' declared' (by simp [Member.shape, kept']) rfl
  have whole : Each (fun (value : Payload) => EntryAlike inner map value.bytes)
      (recordsOf (Member.mapped map).tag body) (progress.history.occurrences map.number)
      (progress'.history.occurrences map.number) ↔
      ∀ value ∈ recordsOf (Member.mapped map).tag body, ∀ target, map.value = .message target →
        (recordsOf ⟨2, .len⟩ value.bytes = [] → agree id map) ∧
          ∀ record ∈ recordsOf ⟨2, .len⟩ value.bytes,
            Unmarked schema reading reading' agree target record.bytes :=
    each_iff lefts rights fun value met tree tree' occurred occurred' =>
      entryAlike_iff decides declared ((recordsOf_length met).trans fits) occurred occurred'
  constructor
  · rintro ⟨entries, entries', same, same', each⟩ target type value met
    rw [← Behaviour.map_injective same, ← Behaviour.map_injective same'] at each
    exact whole.mp each value met target type
  · intro all
    exact ⟨_, _, rfl, rfl, whole.mpr fun value met target type => all target type value met⟩

/-- A oneof. -/
theorem oneofAlike_iff (decides : Decides schema reading reading' sub sub' inner agree limit id)
    (fits : body.length ≤ limit) (oneof : Nat) :
    OneofAlike schema reading inner id oneof body
        (choiceBehaviour reading.narrow ((schema.get id).current oneof progress.history))
        (choiceBehaviour reading'.narrow ((schema.get id).current oneof progress'.history)) ↔
      ∀ choice, lastChoice (schema.get id) oneof body = some choice →
        reading.narrow choice.index = choice.index → ∀ target delimited,
        choice.field.type = .message target delimited →
          Unmarked schema reading reading' agree target choice.value.bytes := by
  have current := @foldlM_current _ _ _ _ oneof _ _ _ ran
  have current' := @foldlM_current _ _ _ _ oneof _ _ _ ran'
  rw [OneofAlike, lastChoice, decides.narrows.narrow]
  cases last : ((items body.length body).filterMap
      (Item.choice (schema.get id) oneof)).getLast? with
  | none =>
      rw [last] at current current'
      dsimp only at current current' ⊢
      rw [current, current']
      simp
  | some choice =>
      rw [last] at current current'
      obtain ⟨held, decoded, current⟩ := current
      obtain ⟨held', decoded', current'⟩ := current'
      simp only [Option.some.injEq, forall_eq']
      rw [current, current']
      cases type : choice.field.type with
      | leaf kind =>
          simp only [Member.occurrence, type] at decoded decoded'
          cases decoded
          cases decoded'
          simp
      | message target delimited =>
          simp only [Member.occurrence, type] at decoded decoded'
          have alike := decides.both target choice.value.bytes
            ((lastChoice_length last).trans fits) held held' decoded decoded'
          by_cases faithful : reading.narrow choice.index = choice.index
          · simp only [faithful, if_true, choiceBehaviour, forall_const,
              FieldType.message.injEq, and_imp]
            constructor
            · rintro ⟨held₁, held₂, same, same', related⟩ _ _ rfl _
              rw [← (Behaviour.member_injective same).2, ← (Behaviour.member_injective same').2]
                at related
              exact alike.mp related
            · intro unmarked
              exact ⟨held, held', rfl, rfl, alike.mpr (unmarked target delimited rfl rfl)⟩
          · simp only [faithful, if_false, choiceBehaviour, false_implies]

/-- Two trees of one body are alike iff nothing in it tells them apart. -/
theorem nodeAlike_iff (decides : Decides schema reading reading' sub sub' inner agree limit id)
    (later : DecidesLater schema reading reading' sub decode inner agree limit id)
    (fits : body.length ≤ limit) (unknown : Option Bool) :
    NodeAlike schema reading reading' decode inner id body
        ((schema.get id).behaviour (reading.mode id) reading.narrow progress.history unknown)
        ((schema.get id).behaviour (reading'.mode id) reading'.narrow progress'.history
          (reading'.unknownAnswer id progress')) ↔
      Unmarked schema reading reading' agree id body := by
  rw [unmarked_iff]
  constructor
  · intro alike
    refine ⟨?_, ?_, ?_⟩
    · intro field declared kept' eager target delimited type
      have field' := alike.fields field declared kept'
      rw [behind_plain declared (decides.narrows.kept kept'), behind_plain declared kept'] at field'
      exact (fieldAlike_iff ran ran' decides later fits type declared kept' eager).mp field'
    · intro map declared kept' target type
      have map' := alike.maps map declared kept'
      rw [behind_mapped declared (decides.narrows.kept kept'), behind_mapped declared kept'] at map'
      exact (mapAlike_iff ran ran' decides fits declared kept').mp map' target type
    · intro oneof inside
      have choice := alike.oneofs oneof inside
      rw [behind_oneof inside, behind_oneof inside] at choice
      exact (oneofAlike_iff ran ran' decides fits oneof).mp choice
  · rintro ⟨plains, maps, choices⟩
    refine ⟨⟨rfl, rfl⟩, ?_, ?_, ?_, ?_⟩
    · intro field declared kept'
      rw [behind_plain declared (decides.narrows.kept kept'), behind_plain declared kept']
      cases type : field.type with
      | leaf kind =>
          simp only [FieldAlike, type]
          rw [occurrences_leaf ran ran' type declared (decides.narrows.kept kept') kept']
      | message target delimited =>
          by_cases raw : reading.mode id field.number = .raw
          · simp only [FieldAlike, type, if_pos raw]
            have raw' : reading'.mode id field.number = .raw := by
              rcases decides.narrows.mode id field.number with same | eager
              · rw [← same, raw]
              · rw [raw] at eager
                cases eager
            rw [occurrences_raw ran ran' type declared raw raw']
          · exact (fieldAlike_iff ran ran' decides later fits type declared kept' raw).mpr
              (plains field declared kept' raw target delimited type)
    · intro map declared kept'
      rw [behind_mapped declared (decides.narrows.kept kept'), behind_mapped declared kept']
      exact (mapAlike_iff ran ran' decides fits declared kept').mpr (maps map declared kept')
    · intro oneof inside
      rw [behind_oneof inside, behind_oneof inside]
      exact (oneofAlike_iff ran ran' decides fits oneof).mpr (choices oneof inside)
    · intro tracked
      funext path
      simp only [Behaviour.behind, Message.behaviour, Reading.unknownAnswer, tracked, if_true,
        fold_unknown ran']

end Node

/-! ## Equal trees -/

section Equal

variable {schema : Schema} {reading reading' : Reading}
  {sub sub' : MessageId → List Byte → Outcome DecodeError Behaviour}
  {decode : MessageId → List Byte → Outcome DecodeError Behaviour}
  {agree : MessageId → MapField → Prop} {limit : Nat} {id : MessageId} {body : List Byte}
  {progress progress' : Progress}

/-- Alike means equal, for sub-messages. -/
def SameTree (_ : MessageId) (_ : List Byte) (tree tree' : Behaviour) : Prop := tree = tree'

theorem Each.eq {α : Type} {as : List α} {bs cs : List Behaviour}
    {related : α → Behaviour → Behaviour → Prop} (each : Each related as bs cs)
    (equal : ∀ a b c, related a b c → b = c) : bs = cs := by
  induction each with
  | nil => rfl
  | cons first _ ih => rw [equal _ _ _ first, ih]

theorem each_self {α : Type} {as : List α} {bs : List Behaviour} {left : α → Behaviour → Prop}
    {related : α → Behaviour → Behaviour → Prop} (lefts : List.Forall₂ left as bs)
    (self : ∀ a b, left a b → related a b b) : Each related as bs bs := by
  induction lefts with
  | nil => exact .nil
  | cons first _ ih => exact .cons (self _ _ first) ih

/-- Two readings with the same profile. -/
structure Reading.SameProfile (reading reading' : Reading) : Prop where
  mode : reading.mode = reading'.mode
  tracksUnknown : reading.tracksUnknown = reading'.tracksUnknown
  narrow : reading'.narrow = reading.narrow

theorem Reading.SameProfile.narrows (same : reading.SameProfile reading') :
    reading.Narrows reading' :=
  ⟨fun id number => .inl (by rw [same.mode]), same.narrow⟩

theorem Reading.SameProfile.not_deferred (same : reading.SameProfile reading') (id : MessageId)
    (number : Nat) : ¬ Deferred reading reading' id number := by
  rintro ⟨raw, eager⟩
  rw [same.mode] at eager
  exact eager raw

theorem FieldAlike.eq (same : reading.SameProfile reading') {field : Field} {tree tree' : Behaviour}
    (alike : FieldAlike reading reading' decode SameTree id field body tree tree') :
    tree = tree' := by
  have payload : ∀ target (bytes : List Byte) tree tree',
      PayloadAlike reading reading' decode SameTree id field.number target bytes tree tree' →
        tree = tree' := fun target bytes tree tree' alike => alike.2 (same.not_deferred id _)
  rw [FieldAlike] at alike
  split at alike
  · exact alike
  split_ifs at alike
  · exact alike
  · obtain ⟨elements, elements', rfl, rfl, each⟩ := alike
    rw [each.eq fun value tree tree' => payload _ _ tree tree']
  · split at alike
    · rcases alike with ⟨rfl, rfl⟩ | ⟨-, equal⟩
      · rfl
      · exact equal
    · exact payload _ _ tree tree' alike

theorem EntryAlike.eq {map : MapField} {bytes : List Byte} {tree tree' : Behaviour}
    (alike : EntryAlike SameTree map bytes tree tree') : tree = tree' := by
  obtain ⟨key, value, value', rfl, rfl, alike⟩ := alike
  split at alike
  · rw [alike]
  · split at alike
    · rcases alike with ⟨rfl, rfl⟩ | equal
      · rfl
      · rw [show value = value' from equal]
    · rw [show value = value' from alike]

theorem MapAlike.eq {map : MapField} {tree tree' : Behaviour}
    (alike : MapAlike SameTree map body tree tree') : tree = tree' := by
  obtain ⟨entries, entries', rfl, rfl, each⟩ := alike
  rw [each.eq fun value tree tree' => EntryAlike.eq]

theorem OneofAlike.eq {oneof : Nat} {tree tree' : Behaviour}
    (alike : OneofAlike schema reading SameTree id oneof body tree tree') : tree = tree' := by
  rw [OneofAlike] at alike
  split at alike
  · exact alike
  split at alike
  · exact alike
  split_ifs at alike
  · obtain ⟨held, held', rfl, rfl, equal⟩ := alike
    rw [show held = held' from equal]
  · exact alike

variable (ran : (referenceBodies schema reading sub id).fold body {} = .ok progress)
  (ran' : (referenceBodies schema reading' sub' id).fold body {} = .ok progress')
include ran ran'

theorem behaviour_eq_of_nodeAlike (same : reading.SameProfile reading')
    (alike : NodeAlike schema reading reading' decode SameTree id body
      ((schema.get id).behaviour (reading.mode id) reading.narrow progress.history
        (reading.unknownAnswer id progress))
      ((schema.get id).behaviour (reading'.mode id) reading'.narrow progress'.history
        (reading'.unknownAnswer id progress'))) :
    (schema.get id).behaviour (reading.mode id) reading.narrow progress.history
        (reading.unknownAnswer id progress) =
      (schema.get id).behaviour (reading'.mode id) reading'.narrow progress'.history
        (reading'.unknownAnswer id progress') := by
  funext path
  match path with
  | [] => rfl
  | .field number :: path =>
      by_cases dropped : reading'.mode id number = .drop
      · simp [Message.behaviour, same.mode, dropped]
      cases found : (schema.get id).member? number with
      | none => simp [Message.behaviour, found, same.mode, dropped]
      | some member =>
          obtain ⟨declared, rfl⟩ := Message.mem_of_member? found
          cases member with
          | plain field =>
              exact congrFun (FieldAlike.eq same
                (alike.fields field (Message.plain_mem.mp declared) dropped)) path
          | mapped map =>
              exact congrFun (alike.maps map (Message.mapped_mem.mp declared) dropped).eq path
          | choice oneof index field =>
              simp [Message.behaviour, found, same.mode, dropped]
  | .oneof oneof :: path =>
      by_cases inside : oneof < (schema.get id).oneofs.length
      · exact congrFun (alike.oneofs oneof inside).eq path
      · simp [Message.behaviour, inside]
  | .unknownFields :: path =>
      simp only [Message.behaviour, Reading.unknownAnswer, fold_unknown ran, fold_unknown ran',
        same.tracksUnknown]
  | .elem _ :: _ | .find _ :: _ | .key :: _ | .value :: _ | .held :: _ => rfl

theorem nodeAlike_of_behaviour_eq (same : reading.SameProfile reading')
    (equal : (schema.get id).behaviour (reading.mode id) reading.narrow progress.history
        (reading.unknownAnswer id progress) =
      (schema.get id).behaviour (reading'.mode id) reading'.narrow progress'.history
        (reading'.unknownAnswer id progress')) :
    NodeAlike schema reading reading' decode SameTree id body
      ((schema.get id).behaviour (reading.mode id) reading.narrow progress.history
        (reading.unknownAnswer id progress))
      ((schema.get id).behaviour (reading'.mode id) reading'.narrow progress'.history
        (reading'.unknownAnswer id progress')) := by
  have payload : ∀ number target (bytes : List Byte) tree,
      PayloadAlike reading reading' decode SameTree id number target bytes tree tree :=
    fun number target bytes tree =>
      ⟨fun deferred => absurd deferred (same.not_deferred id number), fun _ => rfl⟩
  refine ⟨⟨rfl, rfl⟩, ?_, ?_, ?_, ?_⟩
  · intro field declared kept'
    have kept := same.narrows.kept kept'
    rw [← equal, behind_plain declared kept]
    rw [FieldAlike]
    split
    · rfl
    rename_i target delimited type
    split_ifs with raw repeated
    · rfl
    · have packable : ((Member.plain field).shape (reading.mode id)).packable = false := by
        cases delimited <;>
          simp [Member.shape, Shape.packable, type, FieldType.wire, isPackableWire]
      have lefts := fold_records ran (Message.plain_mem.mpr declared)
        (by simp [Member.shape, kept]) packable
      refine ⟨progress.history.occurrences field.number,
        progress.history.occurrences field.number, ?_, ?_, each_self lefts fun _ _ _ => payload ..⟩
      · simp [Field.behaviour, repeated]
      · simp [Field.behaviour, repeated]
    · split
      · rename_i none
        have packable : ((Member.plain field).shape (reading.mode id)).packable = false := by
          simp [Member.shape, Shape.packable, repeated]
        have lefts := fold_records ran (Message.plain_mem.mpr declared)
          (by simp [Member.shape, kept]) packable
        rw [none] at lefts
        have empty : progress.history.occurrences field.number = [] := by
          cases found : progress.history.occurrences (Member.plain field).number with
          | nil => exact found
          | cons first rest =>
              rw [found] at lefts
              cases lefts
        refine .inl ⟨?_, ?_⟩ <;> simp [Field.behaviour, repeated, empty, Field.unset, type]
      · exact payload ..
  · intro map declared kept'
    have kept := same.narrows.kept kept'
    rw [← equal, behind_mapped declared kept]
    have lefts := fold_records ran (Message.mapped_mem.mpr declared) (by simp [Member.shape, kept])
      rfl
    refine ⟨_, _, rfl, rfl, each_self lefts fun value tree occurred => ?_⟩
    obtain ⟨entry, -, same⟩ := Outcome.bind_eq_ok.mp occurred
    cases same
    refine ⟨_, _, _, rfl, rfl, ?_⟩
    split
    · rfl
    · split
      · exact .inr rfl
      · rfl
  · intro oneof inside
    have current := @foldlM_current _ _ _ _ oneof _ _ _ ran
    rw [← equal, behind_oneof inside, OneofAlike, lastChoice]
    cases last : ((items body.length body).filterMap
        (Item.choice (schema.get id) oneof)).getLast? with
    | none => rfl
    | some choice =>
        rw [last] at current
        obtain ⟨held, -, current⟩ := current
        dsimp only
        split
        · rfl
        split_ifs with faithful
        · exact ⟨held, held, by rw [current, choiceBehaviour, if_pos faithful],
            by rw [current, choiceBehaviour, if_pos faithful], rfl⟩
        · rfl
  · intro tracked
    funext path
    simp only [Behaviour.behind, Message.behaviour, Reading.unknownAnswer, tracked, if_true,
      fold_unknown ran']

/-- Two trees of one body under one profile are equal iff nothing in it tells them apart. -/
theorem behaviour_eq_iff (same : reading.SameProfile reading')
    (decides : Decides schema reading reading' sub sub' SameTree agree limit id)
    (fits : body.length ≤ limit) :
    (schema.get id).behaviour (reading.mode id) reading.narrow progress.history
        (reading.unknownAnswer id progress) =
      (schema.get id).behaviour (reading'.mode id) reading'.narrow progress'.history
        (reading'.unknownAnswer id progress') ↔
      Unmarked schema reading reading' agree id body := by
  have later : DecidesLater schema reading reading' sub sub' SameTree agree limit id :=
    fun number deferred => absurd deferred (same.not_deferred id number)
  rw [← nodeAlike_iff ran ran' decides later fits (reading.unknownAnswer id progress)]
  exact ⟨nodeAlike_of_behaviour_eq ran ran' same, behaviour_eq_of_nodeAlike ran ran' same⟩

end Equal

end RapidProto
