import RapidProto.Safety

/-!
# The two decoders agree

A streaming decode with a callback for every field, which decodes every message it is handed in the
same way, collects a history.  Read back by the rules of the arena tree, that history is the tree.
The two differ only where the arena applies a policy of its own: it rejects repeated sub-messages,
absent required fields and deep nesting.  A message-valued map entry has to carry its value exactly
once, since the streaming decoder hands over one value an entry.
-/

namespace RapidProto

/-! ## The full streaming decode -/

/-- Decode what a callback is handed. -/
def Delivered.fold (sub : MessageId → List Byte → Except DecodeStatus Behaviour) :
    Delivered → Except DecodeStatus Behaviour
  | .leaf value => .ok (.leaf value)
  | .message target body => sub target body

/-- Record an occurrence, or pass on the status of the nested decode. -/
def Progress.receive (progress : Progress) (number : Nat) :
    Except DecodeStatus Behaviour → Progress × DecodeStatus
  | .ok behaviour => (progress.push number behaviour, {})
  | .error status => (progress, status)

/-- Callbacks for every field that collect the history and recurse into every message. -/
def fullCallbacks (sub : MessageId → List Byte → Except DecodeStatus Behaviour) :
    Callbacks Progress where
  handles _ := true
  handlesUnknown := false
  call progress event :=
    match event with
    | .field number value => progress.receive number (value.fold sub)
    | .entry number key value =>
      progress.receive number ((value.fold sub).map (Behaviour.entry (.leaf key)))
    | .unknown _ _ => (progress, {})

/-- The full streaming decode of a body: what its history reads as.  The handler gives up after
`frames` nested decodes. -/
def fullDecode (schema : Schema) :
    (frames : Nat) → MessageId → List Byte → Except DecodeStatus Behaviour
  | 0, _, _ => .error .abort
  | frames + 1, target, body =>
    match streamDecode schema target (fullCallbacks (fullDecode schema frames)) {} body with
    | .ok progress =>
      .ok ((schema.get target).behaviour (fun _ => .materialize) id progress.history none)
    | .fail stopped => .error stopped.stop.status
    | .outside | .spin => .error .abort

/-! ## Entries that do not carry exactly one value -/

/-- The payload of a value record of a message-valued map entry. -/
def Item.valueRecord : Item → Option (List Byte)
  | .record tag value _ => if tag = ⟨2, .len⟩ then some value.bytes else none
  | .badTag _ | .badValue _ _ => none

/-- The value records of an entry of a message-valued map. -/
def valueRecords (entry : List Byte) : List (List Byte) :=
  (items entry.length entry).filterMap Item.valueRecord

/-- The message type of a member that is not a map. -/
def Member.target : Member → Option MessageId
  | .plain field | .choice _ _ field =>
    match field.type with
    | .leaf _ => none
    | .message target _ => some target
  | .mapped _ => none

/-- Somewhere in a body, at any nesting level, a message-valued map entry does not carry exactly one
value record. -/
inductive Lapse (schema : Schema) : MessageId → List Byte → Prop
  /-- An entry of the body itself. -/
  | entry {id : MessageId} {body : List Byte} {tag : Tag} {value : Payload} {raw : List Byte}
      {map : MapField} {target : MessageId} :
      .record tag value raw ∈ items body.length body →
      (schema.get id).member? tag.fieldNumber = some (.mapped map) → tag.wireType = .len →
      map.value = .message target → (valueRecords value.bytes).length ≠ 1 → Lapse schema id body
  /-- Inside the value of an entry. -/
  | value {id : MessageId} {body : List Byte} {tag : Tag} {value : Payload} {raw : List Byte}
      {map : MapField} {target : MessageId} {inner : List Byte} :
      .record tag value raw ∈ items body.length body →
      (schema.get id).member? tag.fieldNumber = some (.mapped map) → tag.wireType = .len →
      map.value = .message target → inner ∈ valueRecords value.bytes →
      Lapse schema target inner → Lapse schema id body
  /-- Inside a sub-message or group. -/
  | nested {id : MessageId} {body : List Byte} {tag : Tag} {value : Payload} {raw : List Byte}
      {member : Member} {target : MessageId} :
      .record tag value raw ∈ items body.length body →
      (schema.get id).member? tag.fieldNumber = some member → tag.wireType = member.wire →
      member.target = some target → Lapse schema target value.bytes → Lapse schema id body

/-! ## Agreement, part by part -/

/-- A failure that the arena decoder's own policy is the reason for. -/
def DecodeError.IsPolicy : DecodeError → Prop
  | .wire _ => False
  | .outOfMemory | .recursionTooDeep | .missingRequired _ | .repeatedSingularMessage _
  | .inputTooLarge => True

/-- The same occurrences. -/
def SameHistory (progress progress' : Progress) : Prop := progress.history = progress'.history

theorem SameHistory.push {progress progress' : Progress} (same : SameHistory progress progress')
    (number : Nat) (behaviour : Behaviour) :
    SameHistory (progress.push number behaviour) (progress'.push number behaviour) := by
  simp only [SameHistory, Progress.push] at same ⊢
  rw [same]

section Parts

variable {schema : Schema} {sub : MessageId → List Byte → Outcome DecodeError Behaviour}
  {sub' : MessageId → List Byte → Except DecodeStatus Behaviour}

/-- The error statuses of the nested decode are not ok. -/
def Refuses (sub' : MessageId → List Byte → Except DecodeStatus Behaviour) : Prop :=
  ∀ target body status, sub' target body = .error status → status.ok = false

theorem receive_invoke (refuses : Refuses sub') {progress : Progress} {event : Event}
    {number : Nat} {target : MessageId} {body : List Byte} {wrap : Behaviour → Behaviour}
    (called : (fullCallbacks sub').call progress event =
      progress.receive number ((sub' target body).map wrap)) :
    (fullCallbacks sub').invoke progress event =
      (((Outcome.ofExcept (sub' target body)).mapError fun status =>
        (⟨progress, .callback status⟩ : Stopped Progress)) >>= fun behaviour =>
          .ok (progress.push number (wrap behaviour))) := by
  rw [Callbacks.invoke, called]
  cases received : sub' target body with
  | ok behaviour => simp [Except.map, Progress.receive, DecodeStatus.ok]
  | error status => simp [Except.map, Progress.receive, refuses target body status received]

/-- A nested body is decoded alike and recorded alike. -/
theorem receive_agrees (refuses : Refuses sub') {progress progress' : Progress}
    (same : SameHistory progress progress') {target : MessageId} {body : List Byte}
    (agrees : Outcome.Agrees (· = ·) DecodeError.IsPolicy (sub target body)
      (.ofExcept (sub' target body))) {number : Nat} (wrap : Behaviour → Behaviour) {event : Event}
    (called : (fullCallbacks sub').call progress' event =
      progress'.receive number ((sub' target body).map wrap)) :
    Outcome.Agrees SameHistory DecodeError.IsPolicy
      (sub target body >>= fun behaviour => .ok (progress.push number (wrap behaviour)))
      ((fullCallbacks sub').invoke progress' event) := by
  rw [receive_invoke refuses called]
  refine (agrees.mapError _).bind fun behaviour behaviour' equal => ?_
  rw [equal]
  exact Outcome.agrees_ok (same.push number _)

/-- A leaf is recorded alike. -/
theorem invoke_leaf {progress : Progress} {event : Event} {number : Nat} {behaviour : Behaviour}
    (called : (fullCallbacks sub').call progress event =
      progress.receive number (.ok behaviour)) :
    (fullCallbacks sub').invoke progress event = .ok (progress.push number behaviour) := by
  rw [Callbacks.invoke, called]
  simp [Progress.receive, DecodeStatus.ok]

/-! ## Packed runs -/

/-- The packed loop records the elements of its run. -/
theorem streamPacked_agrees {progress progress' : Progress} (same : SameHistory progress progress')
    (number : Nat) (kind : Leaf) {span turns : Nat} {p : Cursor} (enough : p.length ≤ turns) :
    Outcome.Agrees SameHistory DecodeError.IsPolicy
      (((Outcome.ofExcept (packedFrom kind span turns p)).mapError fun failure =>
        DecodeError.wire failure.within) >>= fun values => .ok (progress.pushAll number values))
      (runLoop (elementTurn (fullCallbacks sub') number kind span) progress' p) := by
  induction turns generalizing progress progress' p with
  | zero =>
      obtain rfl : p = [] := List.length_eq_zero_iff.mp (by omega)
      exact Outcome.agrees_ok (by simpa [SameHistory, Progress.pushAll] using same)
  | succ turns ih =>
      rw [runLoop_eq (elementTurn_consuming number span kind), elementTurn]
      by_cases empty : p = []
      · subst empty
        exact Outcome.agrees_ok (by simpa [SameHistory, Progress.pushAll] using same)
      have nonempty : p.length ≠ 0 := by simpa using empty
      rw [if_pos (by omega), readValue_eq]
      cases got : payload span ⟨1, kind.wire⟩ p with
      | error failure =>
          rw [packedFrom_error nonempty got]
          exact Outcome.agrees_never (by simp) (by simp)
      | ok pair =>
          have shorter := payload_length_lt got
          have called : (fullCallbacks sub').invoke progress'
              (.field number (.leaf (kind.convert pair.1))) =
              .ok (progress'.push number (.leaf (kind.convert pair.1))) := invoke_leaf rfl
          have later := ih (same.push number (.leaf (kind.convert pair.1))) (p := pair.2) (by omega)
          rw [packedFrom_cons got]
          simp only [Outcome.ofExcept_ok, Outcome.mapError_ok, Outcome.ok_bind, called,
            Outcome.mapError_bind, Outcome.bind_assoc]
          refine cast ?_ later
          congr 2
          funext values
          simp [Progress.pushAll, Progress.push]

/-! ## Map entries -/

/-- The key is the last one, and the values are related. -/
def EntryAgrees (map : MapField) (related : Option Behaviour → Delivered → Prop)
    (entry : EntryProgress) (locals : EntryLocals) : Prop :=
  locals.key = entry.key.getD map.key.zero ∧ related entry.value locals.value

variable {map : MapField} {related : Option Behaviour → Delivered → Prop}

/-- Apart from value records, the two entry loops go in lockstep. -/
theorem entryStep_agrees {item : Item} {entry : EntryProgress} {locals : EntryLocals}
    (relates : EntryAgrees map related entry locals)
    (values : ∀ value raw, item = .record ⟨2, map.value.wire⟩ value raw →
      Outcome.Agrees (EntryAgrees map related) DecodeError.IsPolicy
        ((entryBodies sub map).step entry item) ((streamEntryBodies map).step locals item)) :
    Outcome.Agrees (EntryAgrees map related) DecodeError.IsPolicy
      ((entryBodies sub map).step entry item) ((streamEntryBodies map).step locals item) := by
  cases item with
  | badTag failure => exact Outcome.agrees_never (fun _ => nofun) fun _ => nofun
  | badValue tag failure =>
      exact Outcome.agrees_never
        (fun _ => (@Bodies.byRecord _ _ _ 0).stops entry _ tag failure)
        fun _ => (@Bodies.byRecord _ _ _ 0).stops locals _ tag failure
  | record tag value raw =>
      cases routed : route map.shapes tag with
      | native shape =>
          have same := route_tag routed
          have listed := route_mem (.inl routed)
          simp only [MapField.shapes, List.mem_cons, List.not_mem_nil, or_false] at listed
          rcases listed with rfl | rfl
          · simp only [Bodies.step, entryBodies, streamEntryBodies, routed, if_true]
            exact Outcome.agrees_ok ⟨rfl, relates.2⟩
          · exact values value raw (by rw [same])
      | packed shape =>
          have packable := route_packable routed
          have listed := route_mem (.inr routed)
          simp only [MapField.shapes, List.mem_cons, List.not_mem_nil, or_false] at listed
          rcases listed with rfl | rfl <;> simp [Shape.packable] at packable
      | skip =>
          simp only [Bodies.step, entryBodies, streamEntryBodies, routed]
          exact Outcome.agrees_ok relates
      | unknown =>
          simp only [Bodies.step, entryBodies, streamEntryBodies, routed]
          exact Outcome.agrees_ok relates

theorem route_value (map : MapField) :
    route map.shapes ⟨2, map.value.wire⟩ =
      .native { number := 2, wire := map.value.wire, labelled := false } := by
  simp [route, MapField.shapes, findKey]

theorem streamEntryBodies_value (locals : EntryLocals) (value : Payload) (raw : List Byte) :
    (streamEntryBodies map).step locals (.record ⟨2, map.value.wire⟩ value raw) =
      .ok { locals with value := map.value.deliver value } := by
  simp [Bodies.step, streamEntryBodies, route_value]

theorem entryBodies_leaf {kind : Leaf} (type : map.value = .leaf kind) (entry : EntryProgress)
    (value : Payload) (raw : List Byte) :
    (entryBodies sub map).step entry (.record ⟨2, map.value.wire⟩ value raw) =
      .ok { entry with value := some (.leaf (kind.convert value)) } := by
  have routed : route (entryBodies sub map).fields ⟨2, map.value.wire⟩ = _ := route_value map
  simp only [Bodies.step, routed]
  simp [entryBodies, type]

theorem entryBodies_message {target : MessageId} (type : map.value = .message target)
    {entry : EntryProgress} (unmet : entry.value = none) (value : Payload) (raw : List Byte) :
    (entryBodies sub map).step entry (.record ⟨2, map.value.wire⟩ value raw) =
      (sub target value.bytes >>= fun behaviour =>
        .ok { entry with value := some behaviour }) := by
  have routed : route (entryBodies sub map).fields ⟨2, map.value.wire⟩ = _ := route_value map
  simp only [Bodies.step, routed]
  simp [entryBodies, type, unmet]

/-- A map of leaves: the two entry loops go in lockstep throughout. -/
theorem leafEntry_agrees {kind : Leaf} (type : map.value = .leaf kind) (entry : List Byte) :
    Outcome.Agrees
      (EntryAgrees map fun value delivered =>
        delivered.fold sub' = .ok (value.getD (.leaf kind.zero)))
      DecodeError.IsPolicy ((entryBodies sub map).fold entry {})
      ((items entry.length entry).foldlM (streamEntryBodies map).step
        ⟨map.key.zero, map.value.default⟩) := by
  have start : EntryAgrees map (fun value delivered =>
      delivered.fold sub' = .ok (value.getD (.leaf kind.zero))) {}
      ⟨map.key.zero, map.value.default⟩ :=
    ⟨rfl, by simp [type, MapValue.default, Delivered.fold]⟩
  refine Outcome.Agrees.foldlM (fun item _ entry locals relates => ?_) start
  refine entryStep_agrees relates fun value raw same => ?_
  rw [same, entryBodies_leaf type, streamEntryBodies_value]
  exact Outcome.agrees_ok ⟨relates.1, by simp [type, MapValue.deliver, Delivered.fold]⟩

theorem Item.valueRecord_eq_some {item : Item} {inner : List Byte}
    (found : item.valueRecord = some inner) :
    ∃ value raw, item = .record ⟨2, .len⟩ value raw ∧ value.bytes = inner := by
  cases item with
  | badTag failure => cases found
  | badValue tag failure => cases found
  | record tag value raw =>
      rw [Item.valueRecord] at found
      split at found
      · rename_i same
        cases found
        exact ⟨value, raw, by rw [same], rfl⟩
      · cases found

/-- Without value records, what is known of the value stays. -/
theorem foldlM_agrees_of_no_value {target : MessageId} (type : map.value = .message target)
    {records : List Item} (without : ∀ item ∈ records, item.valueRecord = none)
    {entry : EntryProgress} {locals : EntryLocals}
    (relates : EntryAgrees map related entry locals) :
    Outcome.Agrees (EntryAgrees map related) DecodeError.IsPolicy
      (records.foldlM (entryBodies sub map).step entry)
      (records.foldlM (streamEntryBodies map).step locals) := by
  refine Outcome.Agrees.foldlM (fun item met entry locals relates => ?_) relates
  refine entryStep_agrees relates fun value raw same => ?_
  have absent := without item met
  rw [same, type] at absent
  simp [Item.valueRecord, MapValue.wire] at absent

theorem streamEntry_value_kept {target : MessageId} (type : map.value = .message target)
    {records : List Item} (without : ∀ item ∈ records, item.valueRecord = none)
    (locals : EntryLocals) :
    (records.foldlM (streamEntryBodies map).step locals).Ends
      (fun final => final.value = locals.value) fun _ => True := by
  refine Outcome.Ends.foldlM
    (fun item met next kept => ?_) rfl
  have absent := without item met
  cases item with
  | badTag failure => trivial
  | badValue tag failure =>
      simp only [Bodies.step]
      split
      · simp only [streamEntryBodies]
        split <;> trivial
      all_goals trivial
  | record tag value raw =>
      cases routed : route (streamEntryBodies map).fields tag with
      | native shape =>
          have same := route_tag routed
          have listed := route_mem (.inl routed)
          simp only [streamEntryBodies, MapField.shapes, List.mem_cons, List.not_mem_nil,
            or_false] at listed
          rcases listed with rfl | rfl
          · simp only [Bodies.step, routed]
            exact kept
          · simp [Item.valueRecord, same, type, MapValue.wire] at absent
      | packed shape =>
          simp only [Bodies.step, routed]
          exact kept
      | skip =>
          simp only [Bodies.step, routed]
          exact kept
      | unknown =>
          simp only [Bodies.step, routed]
          exact kept

/-- An entry of a message-valued map that carries its value once.  The arena decodes the value where
it stands, the streaming handler after the loop: before the value record neither knows the value,
and behind it both know the payload, but only the arena has decoded it. -/
theorem messageEntry_agrees (unset : Behaviour) (refuses : Refuses sub') {target : MessageId}
    (type : map.value = .message target) {entry inner : List Byte}
    (single : valueRecords entry = [inner])
    (agrees : Outcome.Agrees (· = ·) DecodeError.IsPolicy (sub target inner)
      (.ofExcept (sub' target inner))) {progress progress' : Progress}
    (same : SameHistory progress progress') :
    Outcome.Agrees SameHistory DecodeError.IsPolicy
      ((entryBodies sub map).fold entry {} >>= fun final =>
        .ok (progress.push map.number
          (.entry (.leaf (final.key.getD map.key.zero)) (final.value.getD unset))))
      (((items entry.length entry).foldlM (streamEntryBodies map).step
        ⟨map.key.zero, map.value.default⟩).mapError (fun failure =>
          (⟨progress', .wire failure⟩ : Stopped Progress)) >>= fun final =>
        (fullCallbacks sub').invoke progress' (.entry map.number final.key final.value)) := by
  obtain ⟨front, item, back, split, without, found, rest⟩ :=
    List.filterMap_eq_cons_iff.mp single
  obtain ⟨value, raw, rfl, bytes⟩ := Item.valueRecord_eq_some found
  have later : ∀ item ∈ back, item.valueRecord = none := List.filterMap_eq_nil_iff.mp rest
  have wire : map.value.wire = .len := by rw [type]; rfl
  simp only [Bodies.fold, split, List.foldlM_append, List.foldlM_cons, Outcome.mapError_bind,
    Outcome.bind_assoc]
  have before := @foldlM_agrees_of_no_value sub _ (fun value _ => value = none) _ type _ without
    {} ⟨map.key.zero, map.value.default⟩ ⟨rfl, rfl⟩
  refine (before.mapError _).bind fun first first' known => ?_
  obtain ⟨key, unmet⟩ := known
  have arena := @entryBodies_message sub _ _ type _ unmet value raw
  have stream := @streamEntryBodies_value map first' value raw
  rw [wire] at arena stream
  rw [arena, stream, bytes, type, MapValue.deliver, bytes]
  simp only [Outcome.bind_assoc, Outcome.ok_bind, Outcome.mapError_ok]
  have behind : ∀ behaviour, Outcome.Agrees
      (EntryAgrees map fun value delivered => value = some behaviour ∧
        delivered = .message target inner) DecodeError.IsPolicy
      (back.foldlM (entryBodies sub map).step { first with value := some behaviour })
      (back.foldlM (streamEntryBodies map).step
        { first' with value := .message target inner }) :=
    fun behaviour => foldlM_agrees_of_no_value type later ⟨key, rfl, rfl⟩
  have called : ∀ key : Value,
      (fullCallbacks sub').invoke progress' (.entry map.number key (.message target inner)) =
      (((Outcome.ofExcept (sub' target inner)).mapError fun status =>
        (⟨progress', .callback status⟩ : Stopped Progress)) >>= fun behaviour =>
          .ok (progress'.push map.number (.entry (.leaf key) behaviour))) :=
    fun key => receive_invoke refuses rfl
  cases received : sub' target inner with
  | error status =>
      rw [received] at agrees called
      refine Outcome.agrees_never (fun _ ended => ?_) fun _ ended => ?_
      · obtain ⟨behaviour, decoded, -⟩ := Outcome.bind_eq_ok.mp ended
        obtain ⟨_, impossible, -⟩ := agrees.forward behaviour decoded
        cases impossible
      · obtain ⟨final, looped, ended⟩ := Outcome.bind_eq_ok.mp ended
        have held := @Outcome.Ends.mapError _ _ _ _ _ (fun _ => True) _
          (streamEntry_value_kept type later { first' with value := .message target inner })
          (fun failure => (⟨progress', .wire failure⟩ : Stopped Progress)) fun _ _ => trivial
        rw [looped] at held
        rw [show final.value = .message target inner from held, called] at ended
        cases ended
  | ok behaviour =>
      rw [received] at agrees called
      rcases agrees.backward behaviour rfl with ⟨found, decoded, equal⟩ | ⟨error, failed, excused⟩
      · rw [decoded, equal]
        refine ((behind behaviour).mapError _).bind fun final final' known => ?_
        obtain ⟨lastKey, held, payload⟩ := known
        rw [payload, called, held, lastKey]
        exact Outcome.agrees_ok (same.push _ _)
      · rw [failed]
        exact Outcome.agrees_spared excused

/-! ## Records -/

variable {reading : Reading} {id : MessageId} {body : List Byte}

/-- The nested decodes agree on what a body without lapses contains. -/
def NestedAgree (schema : Schema) (sub : MessageId → List Byte → Outcome DecodeError Behaviour)
    (sub' : MessageId → List Byte → Except DecodeStatus Behaviour) (limit : Nat) : Prop :=
  ∀ target inner, ¬ Lapse schema target inner → inner.length < limit →
    Outcome.Agrees (· = ·) DecodeError.IsPolicy (sub target inner) (.ofExcept (sub' target inner))

theorem record_bytes_lt {tag : Tag} {value : Payload} {raw : List Byte} {span : Nat} {p : Cursor}
    (met : .record tag value raw ∈ items span p) : value.bytes.length < p.length := by
  induction p using items_induct with
  | step p ih =>
      rw [items_eq] at met
      split at met
      · simp at met
      · cases met
      · rename_i found q read
        have tagShorter := tagOrEnd_length_lt read
        split at met
        · simp at met
        · rename_i value' rest got
          have bytesShorter := payload_bytes_lt got
          rcases List.mem_cons.mp met with same | later
          · cases same
            omega
          · have := ih found q value' rest read (payload_span got _) later
            omega

theorem valueRecords_lt {entry inner : List Byte} (listed : inner ∈ valueRecords entry) :
    inner.length < entry.length := by
  obtain ⟨item, met, found⟩ := List.mem_filterMap.mp listed
  obtain ⟨value, raw, rfl, rfl⟩ := Item.valueRecord_eq_some found
  exact record_bytes_lt met

/-- A map entry. -/
theorem mapped_agrees (refuses : Refuses sub')
    (nested : NestedAgree schema sub sub' body.length) (sound : ¬ Lapse schema id body) {tag : Tag}
    {value : Payload} {raw : List Byte}
    (met : .record tag value raw ∈ items body.length body)
    (found : (schema.get id).member? tag.fieldNumber = some (.mapped map))
    (wire : tag.wireType = .len) {progress progress' : Progress}
    (same : SameHistory progress progress') :
    Outcome.Agrees SameHistory DecodeError.IsPolicy
      ((mappedBody reading sub id map).after progress value)
      (streamEntry (fullCallbacks sub') map progress' value.bytes) := by
  simp only [mappedBody, streamEntry, Bodies.byRecord.plainLoop_eq, Outcome.mapError_bind,
    Outcome.bind_assoc, Outcome.mapError_ok, Outcome.ok_bind]
  cases type : map.value with
  | leaf kind =>
      rw [← type]
      refine ((@leafEntry_agrees _ sub' _ _ type value.bytes).mapError _).bind
        fun entry locals known => ?_
      have called : (fullCallbacks sub').invoke progress'
          (.entry map.number locals.key locals.value) =
          .ok (progress'.push map.number (.entry (.leaf locals.key)
            (entry.value.getD (.leaf kind.zero)))) := by
        apply invoke_leaf
        simp [fullCallbacks, known.2, Except.map]
      rw [called, known.1, EntryProgress.behaviour, MapField.unsetValue, type]
      exact Outcome.agrees_ok (same.push _ _)
  | message target =>
      have single : (valueRecords value.bytes).length = 1 := by
        by_contra lapse
        exact sound (.entry met found wire type lapse)
      obtain ⟨inner, listed⟩ := List.length_eq_one_iff.mp single
      have member : inner ∈ valueRecords value.bytes := by simp [listed]
      have clean : ¬ Lapse schema target inner := fun lapse =>
        sound (.value met found wire type member lapse)
      have shorter := record_bytes_lt met
      have smaller := valueRecords_lt member
      have := messageEntry_agrees (map.unsetValue reading id) refuses type listed
        (nested target inner clean (by omega)) same
      rwa [type] at this

/-- Materialized fields only. -/
def Reading.Full (reading : Reading) : Prop := reading.mode = fun _ _ => .materialize

/-- A packed run. -/
theorem packed_agrees {progress progress' : Progress} (same : SameHistory progress progress')
    (number : Nat) (kind : Leaf) (run : List Byte) :
    Outcome.Agrees SameHistory DecodeError.IsPolicy
      ((match packedValues kind run with
        | .error failure => .fail (.wire failure.within)
        | .ok values => .ok (progress.pushAll number values, false)) >>= fun result =>
          .ok result.1)
      ((if (fullCallbacks sub').handles number then do
          let state ← streamPacked (fullCallbacks sub') number kind progress' run
          .ok (state, false)
        else .ok (progress', false)) >>= fun result => .ok result.1) := by
  have elements := @streamPacked_agrees sub' _ _ same number kind run.length _ run le_rfl
  rw [packedValues]
  simp only [fullCallbacks, if_true, Outcome.bind_assoc, Outcome.ok_bind, streamPacked,
    Outcome.bind_ok] at elements ⊢
  cases read : packedFrom kind run.length run.length run with
  | error failure => rw [read] at elements; exact elements
  | ok values => rw [read] at elements; exact elements

/-- The value of a field that is not a map. -/
theorem field_agrees (refuses : Refuses sub') {progress progress' : Progress}
    (same : SameHistory progress progress') (number : Nat) {target : MessageId}
    {inner : List Byte} (agrees : Outcome.Agrees (· = ·) DecodeError.IsPolicy (sub target inner)
      (.ofExcept (sub' target inner))) :
    Outcome.Agrees SameHistory DecodeError.IsPolicy
      (sub target inner >>= fun behaviour => .ok (progress.push number behaviour))
      ((fullCallbacks sub').invoke progress' (.field number (.message target inner))) := by
  refine receive_agrees refuses same agrees (fun behaviour => behaviour) ?_
  simp only [fullCallbacks, Delivered.fold]
  cases sub' target inner <;> rfl

/-- A singular value, one repeated element or a map entry. -/
theorem native_agrees (refuses : Refuses sub')
    (nested : NestedAgree schema sub sub' body.length) (full : reading.Full)
    (sound : ¬ Lapse schema id body) {tag : Tag} {value : Payload} {raw : List Byte}
    (met : .record tag value raw ∈ items body.length body) {member : Member}
    (known : (schema.get id).member? member.number = some member)
    (tagged : tag = ⟨member.number, member.wire⟩) {progress progress' : Progress}
    (same : SameHistory progress progress') {shape : Shape} (shaped : shape.number = member.number)
    (wired : shape.wire = member.wire) :
    Outcome.Agrees SameHistory DecodeError.IsPolicy
      (((referenceBodies schema reading sub id).native shape).before progress >>= fun progress =>
        ((referenceBodies schema reading sub id).native shape).after progress value)
      (((streamBodies (fullCallbacks sub') (schema.get id)).native shape).before progress' >>=
        fun progress' =>
        ((streamBodies (fullCallbacks sub') (schema.get id)).native shape).after progress'
          value) := by
  have found : (schema.get id).member? tag.fieldNumber = some member := by rw [tagged]; exact known
  have wire : tag.wireType = member.wire := by rw [tagged]
  have mode : reading.mode = fun _ _ => .materialize := full
  have inside := record_bytes_lt met
  have handled : (fullCallbacks sub').handles = fun _ => true := rfl
  simp only [referenceBodies, streamBodies, shaped, known, Outcome.ok_bind, wired]
  cases member with
  | mapped map =>
      simp only [handled, Member.wire, and_self, if_true]
      exact mapped_agrees refuses nested sound met found wire same
  | plain field =>
      simp only [handled, if_true]
      cases type : field.type with
      | leaf kind =>
          simp only [plainBody, type, FieldType.deliver]
          rw [invoke_leaf rfl]
          exact Outcome.agrees_ok (same.push _ _)
      | message target delimited =>
          have clean : ¬ Lapse schema target value.bytes := fun lapse =>
            sound (.nested met found wire (by simp [Member.target, type]) lapse)
          have inner := field_agrees refuses same field.number
            (nested target value.bytes clean inside)
          simp only [plainBody, type, FieldType.deliver, mode, reduceCtorEq, if_false]
          split
          · exact inner
          · rw [Progress.rejectRepeated]
            split
            · exact inner
            · exact Outcome.agrees_spared trivial
  | choice oneof index field =>
      simp only [handled, if_true]
      cases type : field.type with
      | leaf kind =>
          simp only [choiceBody, type, FieldType.deliver]
          rw [invoke_leaf rfl]
          exact Outcome.agrees_ok (same.push _ _)
      | message target delimited =>
          have clean : ¬ Lapse schema target value.bytes := fun lapse =>
            sound (.nested met found wire (by simp [Member.target, type]) lapse)
          have inner := field_agrees refuses same field.number
            (nested target value.bytes clean inside)
          simp only [choiceBody, type, FieldType.deliver]
          split
          · exact Outcome.agrees_spared trivial
          · exact inner

/-- One record is taken alike. -/
theorem record_agrees (refuses : Refuses sub')
    (nested : NestedAgree schema sub sub' body.length) (full : reading.Full)
    (sound : ¬ Lapse schema id body) {item : Item} (met : item ∈ items body.length body)
    {progress progress' : Progress} (same : SameHistory progress progress') :
    Outcome.Agrees SameHistory DecodeError.IsPolicy
      ((referenceBodies schema reading sub id).step progress item)
      ((streamBodies (fullCallbacks sub') (schema.get id)).step progress' item) := by
  have fields : (streamBodies (fullCallbacks sub') (schema.get id)).fields =
      (referenceBodies schema reading sub id).fields := by
    have mode : reading.mode = fun _ _ => .materialize := full
    simp only [streamBodies, referenceBodies, mode]
  cases item with
  | badTag failure => exact Outcome.agrees_never (by simp [Bodies.step]) (by simp [Bodies.step])
  | badValue tag failure =>
      exact Outcome.agrees_never
        (fun _ => (@Bodies.byRecord _ _ _ 0).stops progress _ tag failure)
        fun _ => (@Bodies.byRecord _ _ _ 0).stops progress' _ tag failure
  | record tag value raw =>
      simp only [Bodies.step, fields]
      cases routed : route (referenceBodies schema reading sub id).fields tag with
      | skip => exact Outcome.agrees_ok same
      | unknown => exact Outcome.agrees_ok same
      | packed shape =>
          obtain ⟨member, declared, rfl⟩ := List.mem_map.mp (route_mem (.inr routed))
          have packable := route_packable routed
          have known := Message.member?_number declared
          simp only [streamBodies, referenceBodies, Member.shape_number, known]
          cases member with
          | mapped map => simp [Member.shape, Shape.packable] at packable
          | choice oneof index field => simp [Member.shape, Shape.packable] at packable
          | plain field =>
              obtain ⟨number, type, presence⟩ := field
              cases type with
              | message target delimited => exact Outcome.agrees_ok same
              | leaf kind => exact packed_agrees same number kind value.bytes
      | native shape =>
          obtain ⟨member, declared, rfl⟩ := List.mem_map.mp (route_mem (.inl routed))
          have known := Message.member?_number declared
          have tagged := route_tag routed
          simp only [Member.shape_number, Member.shape_wire] at tagged
          exact native_agrees refuses nested full sound met known tagged same
            (Member.shape_number _ _) (Member.shape_wire _ _)

end Parts

/-! ## The two decoders -/

section Decoders

variable {schema : Schema}

theorem fullDecode_refuses (frames : Nat) : Refuses (fullDecode schema frames) := by
  intro target body status failed
  cases frames with
  | zero =>
      cases failed
      rfl
  | succ frames =>
      have ends := @streamDecode_ends _ body _ (fullCallbacks (fullDecode schema frames))
        stops_refused schema target {}
      rw [fullDecode] at failed
      cases ran : streamDecode schema target (fullCallbacks (fullDecode schema frames)) {} body with
      | ok progress => rw [ran] at failed; cases failed
      | fail stopped =>
          rw [ran] at failed ends
          cases failed
          exact ends
      | outside => rw [ran] at ends; exact ends.elim
      | spin => rw [ran] at ends; exact ends.elim

/-- What the documented reading accepts, the full streaming decode accepts and reads alike; what
the streaming decode accepts, the documented reading rejects only by its own policy. -/
theorem meaning_agrees (reading : Reading) (full : reading.Full) (faithful : reading.narrow = id)
    (untracked : ∀ target, reading.tracksUnknown target = false) {frames depth handlers : Nat}
    (target : MessageId) {body : List Byte} (budget : frames + depth = kMaxDecodeDepth + 2)
    (entered : depth ≤ kMaxDecodeDepth + 1) (enough : body.length < handlers)
    (sound : ¬ Lapse schema target body) :
    Outcome.Agrees (· = ·) DecodeError.IsPolicy (meaning schema reading frames depth target body)
      (.ofExcept (fullDecode schema handlers target body)) := by
  induction frames generalizing depth handlers target body with
  | zero => omega
  | succ frames ih =>
      rw [meaning]
      split
      · exact Outcome.agrees_spared trivial
      obtain ⟨handlers, rfl⟩ : ∃ h, handlers = h + 1 := ⟨handlers - 1, by omega⟩
      have nested : NestedAgree schema (meaning schema reading frames (depth + 1))
          (fullDecode schema handlers) body.length :=
        fun inside inner clean shorter => ih inside (by omega) (by omega) (by omega) clean
      have records := @Outcome.Agrees.foldlM _ _ _ _ _ _ _ _ _ _
        (fun item met progress progress' same => record_agrees (fullDecode_refuses handlers) nested
          full sound met same) _ ({} : Progress) rfl
      have mode : reading.mode = fun _ _ => .materialize := full
      have fold : Outcome.ofExcept (fullDecode schema (handlers + 1) target body) =
          ((streamDecode schema target (fullCallbacks (fullDecode schema handlers)) {} body).mapError
            (fun stopped => stopped.stop.status) >>= fun progress =>
            .ok ((schema.get target).behaviour (fun _ => .materialize) id progress.history
              none)) := by
        have ends := @streamDecode_ends _ body _ (fullCallbacks (fullDecode schema handlers))
          stops_refused schema target {}
        rw [fullDecode]
        cases ran : streamDecode schema target (fullCallbacks (fullDecode schema handlers)) {}
          body with
        | ok progress => rfl
        | fail stopped => rfl
        | outside => rw [ran] at ends; exact ends.elim
        | spin => rw [ran] at ends; exact ends.elim
      rw [fold, streamDecode_eq_fold]
      refine (records.mapError _).bind fun progress progress' same => ?_
      cases firstMissing (schema.get target) progress.history with
      | some number => exact Outcome.agrees_spared trivial
      | none =>
          apply Outcome.agrees_ok
          rw [mode, faithful, untracked, if_neg (by simp), same]

/-- The two generated decoders agree.  If the arena decode of an input succeeds, so does the
streaming decode with a recursing callback for every field, and the collected history reads as the
arena's tree.  If that streaming decode succeeds, the arena decode succeeds too or is rejected by
its own policy, never for the bytes. -/
theorem fullDecode_agrees_arenaDecode (small : schema.SmallOneofs) {plan : Plan}
    (full : plan.mode = fun _ _ => .materialize) (untracked : plan.tracksUnknown = fun _ => false)
    (allocator : Allocator) (target : MessageId) {input : List Byte}
    (sound : ¬ Lapse schema target input) (arena : allocator.State) {handlers : Nat}
    (enough : input.length < handlers) :
    (∀ cell arena', arenaDecode schema plan allocator target input arena = .ok (cell, arena') →
      fullDecode schema handlers target input =
        .ok (cell.behaviour schema plan (.message target))) ∧
    (∀ behaviour, fullDecode schema handlers target input = .ok behaviour →
      (∃ cell arena', arenaDecode schema plan allocator target input arena = .ok (cell, arena')) ∨
        ∃ error, arenaDecode schema plan allocator target input arena = .fail error ∧
          error.IsPolicy) := by
  have budget : kDecodeFrames + 0 = kMaxDecodeDepth + 2 := rfl
  have agrees := meaning_agrees (plan.documented schema) full rfl
    (fun target => congrFun untracked target) target budget (Nat.zero_le _) enough sound
  by_cases large : kUint32Max < input.length
  · have rejected : arenaDecode schema plan allocator target input arena = .fail .inputTooLarge := by
      rw [arenaDecode, if_pos large]
    refine ⟨fun _ _ decoded => ?_, fun _ _ => .inr ⟨.inputTooLarge, rejected, trivial⟩⟩
    rw [rejected] at decoded
    cases decoded
  have refines := arenaDecode_refines schema plan target (not_lt.mp large) arena
  rw [meaning_documented small] at refines
  constructor
  · intro cell arena' decoded
    rw [decoded] at refines
    obtain ⟨behaviour, meant, reads⟩ := refines
    obtain ⟨found, streamed, rfl⟩ := agrees.forward behaviour meant
    cases result : fullDecode schema handlers target input with
    | error status => rw [result] at streamed; cases streamed
    | ok value =>
        rw [result] at streamed
        cases streamed
        rw [reads]
  · intro behaviour streamed
    rw [streamed] at agrees
    cases decoded : arenaDecode schema plan allocator target input arena with
    | ok result => exact .inl ⟨result.1, result.2, rfl⟩
    | fail error =>
        rw [decoded] at refines
        refine .inr ⟨error, rfl, ?_⟩
        rcases refines with failed | exhausted
        · rcases agrees.backward behaviour rfl with ⟨_, meant, -⟩ | ⟨other, meant, policy⟩
          · rw [failed] at meant
            cases meant
          · rw [failed] at meant
            cases meant
            exact policy
        · rw [exhausted.1]
          trivial
    | outside => rw [decoded] at refines; exact refines.elim
    | spin => rw [decoded] at refines; exact refines.elim

/-- One entry `1: { 1: 5 }` of the sample's map. -/
def sampleEntry : List Byte := [0x1a, 0x06, 0x08, 0x01, 0x12, 0x02, 0x08, 0x05]

theorem sampleEntry_sound : ¬ Lapse sampleSchema 0 sampleEntry := by
  have outer : items sampleEntry.length sampleEntry =
      [.record ⟨3, .len⟩ (.len [0x08, 0x01, 0x12, 0x02, 0x08, 0x05])
        [0x06, 0x08, 0x01, 0x12, 0x02, 0x08, 0x05]] := rfl
  have value : valueRecords [0x08, 0x01, 0x12, 0x02, 0x08, 0x05] = [[0x08, 0x05]] := rfl
  have inner : items 2 [0x08, 0x05] = [.record ⟨1, .varint⟩ (.varint 5) [0x05]] := rfl
  have clean : ¬ Lapse sampleSchema 0 [0x08, 0x05] := by
    rintro (⟨met, found, wire, -, -⟩ | ⟨met, found, wire, -, -, -⟩ | ⟨met, found, wire, sub, -⟩) <;>
      rw [show ([0x08, 0x05] : List Byte).length = 2 from rfl, inner, List.mem_singleton] at met <;>
      cases met
    · cases wire
    · cases wire
    · cases found
      cases sub
  rintro (⟨met, found, wire, type, wrong⟩ | ⟨met, found, wire, type, listed, lapse⟩ |
    ⟨met, found, wire, sub, lapse⟩) <;>
    rw [outer, List.mem_singleton] at met <;> cases met
  · exact wrong rfl
  · cases found
    cases type
    rw [Payload.bytes, value, List.mem_singleton] at listed
    subst listed
    exact clean lapse
  · cases found
    cases sub

theorem fullDecode_agrees_arenaDecode_sample :
    (∀ cell arena', arenaDecode sampleSchema samplePlan unboundedArena 0 sampleEntry (0 : Nat) =
        .ok (cell, arena') →
      fullDecode sampleSchema 9 0 sampleEntry =
        .ok (cell.behaviour sampleSchema samplePlan (.message 0))) ∧
    (∀ behaviour, fullDecode sampleSchema 9 0 sampleEntry = .ok behaviour →
      (∃ cell arena', arenaDecode sampleSchema samplePlan unboundedArena 0 sampleEntry (0 : Nat) =
        .ok (cell, arena')) ∨
        ∃ error, arenaDecode sampleSchema samplePlan unboundedArena 0 sampleEntry (0 : Nat) =
          .fail error ∧ error.IsPolicy) :=
  fullDecode_agrees_arenaDecode sampleSchema_smallOneofs rfl rfl unboundedArena 0
    sampleEntry_sound (0 : Nat) (by decide)

end Decoders
end RapidProto
