import RapidProto.Reading.Defaults

/-!
# The inline cutoff

The cutoff decides which sub-messages are stored by value.  Two decoders generated with different
cutoffs accept the same inputs and reject them with the same errors.  Their trees differ in one
place only: an entry of a map without a record of its message value shows a default object where the
value is stored by value, and nothing where it is behind a pointer.
-/

namespace RapidProto

/-- The two plans store the values of the map alike. -/
def StoredAlike (plan plan' : Plan) (owner : MessageId) (map : MapField) : Prop :=
  plan.inlined owner map.number = plan'.inlined owner map.number

section Trees

variable {schema : Schema} {options options' : LayoutOptions} {planner planner' : Planner}
  (planned : planner.Planned schema options) (planned' : planner'.Planned schema options')
  {endian endian' : Bool} (mode : options'.mode = options.mode)
  (tracks : options'.tracksUnknown = options.tracksUnknown)
include planned planned' mode tracks

theorem absentValue_eq_iff {id : MessageId} {map : MapField}
    (declared : map ∈ (schema.get id).maps) {target : MessageId}
    (type : map.value = .message target) :
    (((planner.plan schema options endian).reading schema).absentValue id map.number = .absent ∧
        ((planner'.plan schema options' endian').reading schema).absentValue id map.number =
          .absent ∨
      SameTree target [] (((planner.plan schema options endian).reading schema).absentValue id
        map.number) (((planner'.plan schema options' endian').reading schema).absentValue id
        map.number)) ↔
      StoredAlike (planner.plan schema options endian) (planner'.plan schema options' endian') id
        map := by
  rw [absentValue_eq _ declared type, absentValue_eq _ declared type, StoredAlike, SameTree]
  have present : ∀ plan, defaultObject schema plan target ≠ .absent := fun plan same =>
    (nomatch congrFun same [])
  cases inlined : (planner.plan schema options endian).inlined id map.number with
  | true =>
      cases inlined' : (planner'.plan schema options' endian').inlined id map.number with
      | true =>
          have equal := @defaultObject_eq _ _ _ _ _ planned planned' endian endian' mode tracks _
            (planned.inlined_map declared type inlined) (planned'.inlined_map declared type inlined')
          simp [equal]
      | false => simp [present]
  | false =>
      cases inlined' : (planner'.plan schema options' endian').inlined id map.number with
      | true => simpa [present] using (present (planner'.plan schema options' endian')).symm
      | false => simp

omit planned planned' in
theorem sameProfile :
    ((planner.plan schema options endian).reading schema).SameProfile
      ((planner'.plan schema options' endian').reading schema) :=
  ⟨mode.symm, tracks.symm, rfl⟩

/-- Two trees of one body are equal iff the maps whose entries lack their value are stored alike. -/
theorem meaning_eq_iff {frames depth : Nat} {id : MessageId} {body : List Byte}
    {tree tree' : Behaviour}
    (read : meaning schema ((planner.plan schema options endian).reading schema) frames depth id
      body = .ok tree)
    (read' : meaning schema ((planner'.plan schema options' endian').reading schema) frames depth id
      body = .ok tree') :
    tree = tree' ↔ Unmarked schema ((planner.plan schema options endian).reading schema)
      ((planner'.plan schema options' endian').reading schema)
      (StoredAlike (planner.plan schema options endian) (planner'.plan schema options' endian'))
      id body := by
  induction frames generalizing depth id body tree tree' with
  | zero => cases read
  | succ frames ih =>
      obtain ⟨-, progress, ran, -, rfl⟩ := meaning_eq_ok.mp read
      obtain ⟨-, progress', ran', -, rfl⟩ := meaning_eq_ok.mp read'
      have same := @sameProfile schema _ _ planner planner' endian endian' mode tracks
      refine @behaviour_eq_iff _ _ _ _ _ _ body.length _ _ _ _ ran ran' same ?_ le_rfl
      exact ⟨same.narrows, fun target bytes _ tree tree' decoded decoded' => ih decoded decoded',
        fun map declared target type =>
          absentValue_eq_iff planned planned' mode tracks declared type⟩

end Trees

/-! ## Both decoders -/

/-- `T::decode`, and then every accessor. -/
def decodedTree (schema : Schema) (plan : Plan) (allocator : Allocator) (id : MessageId)
    (input : List Byte) (arena : allocator.State) : Outcome DecodeError Behaviour :=
  arenaDecode schema plan allocator id input arena >>= fun result =>
    .ok (result.1.behaviour schema plan (.message id))

/-- While memory lasts, a tree reads as documented. -/
theorem decodedTree_eq {schema : Schema} {plan : Plan} {allocator : Allocator} {id : MessageId}
    {input : List Byte} (fits : input.length ≤ kUint32Max) {arena : allocator.State}
    (lasting : arenaDecode schema plan allocator id input arena ≠ .fail .outOfMemory) :
    decodedTree schema plan allocator id input arena =
      meaning schema (plan.reading schema) kDecodeFrames 0 id input := by
  have refines := arenaDecode_refines schema plan id fits arena
  rw [decodedTree]
  cases decoded : arenaDecode schema plan allocator id input arena with
  | ok result =>
      rw [decoded] at refines
      obtain ⟨tree, meant, same⟩ := refines
      rw [meant, ← same]
      rfl
  | fail error =>
      rw [decoded] at refines lasting
      rcases refines with failed | exhausted
      · rw [failed]
        rfl
      · exact absurd (congrArg _ exhausted.1) lasting
  | outside =>
      rw [decoded] at refines
      exact refines.elim
  | spin =>
      rw [decoded] at refines
      exact refines.elim

theorem decodedTree_large {schema : Schema} {plan : Plan} {allocator : Allocator} {id : MessageId}
    {input : List Byte} (large : kUint32Max < input.length) (arena : allocator.State) :
    decodedTree schema plan allocator id input arena = .fail .inputTooLarge := by
  rw [decodedTree, arenaDecode, if_pos large]
  rfl

/-- A reading under the profile that leaves out what storage adds. -/
def LayoutOptions.reading (options : LayoutOptions) : Reading where
  mode := options.mode
  tracksUnknown := options.tracksUnknown
  absentValue _ _ := .absent
  narrow index := index % 256

/-- The input is short enough and a valid body of the message under the profile. -/
def Accepted (schema : Schema) (options : LayoutOptions) (id : MessageId) (input : List Byte) :
    Prop :=
  input.length ≤ kUint32Max ∧
    ∃ tree, meaning schema options.reading kDecodeFrames 0 id input = .ok tree

theorem Unvalued.congr {schema : Schema} {reading reading' other other' : Reading}
    (mode : other.mode = reading.mode) (mode' : other'.mode = reading'.mode)
    (narrow : other.narrow = reading.narrow) {id owner : MessageId} {body : List Byte}
    {map : MapField} (unvalued : Unvalued schema reading reading' id body owner map) :
    Unvalued schema other other' id body owner map := by
  induction unvalued with
  | entry declared kept type met without =>
      exact .entry declared (by rwa [mode']) type met without
  | value declared kept type met met' _ ih =>
      exact .value declared (by rwa [mode']) type met met' ih
  | plain declared kept eager type met _ ih =>
      exact .plain declared (by rwa [mode']) (by rwa [mode]) type met ih
  | choice inside last faithful type _ ih =>
      exact .choice inside last (by rwa [narrow]) type ih

/-- Under two cutoffs a decode has the same outcome, and a tree the same accessors, iff the input is
rejected or the maps whose entries lack their value record store their values alike. -/
theorem decodedTree_eq_iff_storedAlike (schema : Schema) (options : LayoutOptions) (cutoff : Nat)
    (walk : List MessageId) (kIsLittleEndian : Bool) (allocator allocator' : Allocator)
    (arena : allocator.State) (arena' : allocator'.State) (id : MessageId) (input : List Byte)
    (lasting : arenaDecode schema (planOf schema options walk kIsLittleEndian) allocator id input
      arena ≠ .fail .outOfMemory)
    (lasting' : arenaDecode schema
      (planOf schema { options with inlineSubmsgCutoff := cutoff } walk kIsLittleEndian) allocator'
      id input arena' ≠ .fail .outOfMemory) :
    decodedTree schema (planOf schema options walk kIsLittleEndian) allocator id input arena =
        decodedTree schema
          (planOf schema { options with inlineSubmsgCutoff := cutoff } walk kIsLittleEndian)
          allocator' id input arena' ↔
      (Accepted schema options id input → ∀ owner map,
        Unvalued schema options.reading options.reading id input owner map →
          StoredAlike (planOf schema options walk kIsLittleEndian)
            (planOf schema { options with inlineSubmsgCutoff := cutoff } walk kIsLittleEndian)
            owner map) := by
  by_cases fits : input.length ≤ kUint32Max
  · rw [decodedTree_eq fits lasting, decodedTree_eq fits lasting']
    obtain ⟨planner, planned, same⟩ := planOf_eq schema options walk kIsLittleEndian
    obtain ⟨planner', planned', same'⟩ :=
      planOf_eq schema { options with inlineSubmsgCutoff := cutoff } walk kIsLittleEndian
    rw [same, same']
    have profile := @sameProfile schema options { options with inlineSubmsgCutoff := cutoff }
      planner planner' kIsLittleEndian kIsLittleEndian rfl rfl
    have neutral : options.reading.SameProfile
        ((planner.plan schema options kIsLittleEndian).reading schema) := ⟨rfl, rfl, rfl⟩
    have budget : kDecodeFrames + 0 = kMaxDecodeDepth + 2 := rfl
    have follows := @meaning_follows schema _ _ (fun _ => False) profile.narrows
      profile.keepsRequired (.inl profile) _ _ budget (Nat.zero_le _) id input
    have accepts := @meaning_follows schema _ _ (fun _ => False) neutral.narrows
      neutral.keepsRequired (.inl neutral) _ _ budget (Nat.zero_le _) id input
    cases read : meaning schema ((planner.plan schema options kIsLittleEndian).reading schema)
        kDecodeFrames 0 id input with
    | ok tree =>
        rw [read] at follows accepts
        obtain ⟨tree', read', -⟩ := follows
        have accepted : Accepted schema options id input := by
          refine ⟨fits, ?_⟩
          cases meant : meaning schema options.reading kDecodeFrames 0 id input with
          | ok neutralTree => exact ⟨neutralTree, rfl⟩
          | fail error =>
              rw [meant] at accepts
              rcases accepts with failed | excused
              · cases failed
              · exact excused.elim
          | outside =>
              rw [meant] at accepts
              exact accepts.elim
          | spin =>
              rw [meant] at accepts
              exact accepts.elim
        rw [read', Outcome.ok.injEq, meaning_eq_iff planned planned' rfl rfl read read']
        constructor
        · intro unmarked _ owner map unvalued
          exact unmarked owner map (by refine unvalued.congr ?_ ?_ ?_ <;> rfl)
        · intro alike owner map unvalued
          exact alike accepted owner map (by refine unvalued.congr ?_ ?_ ?_ <;> rfl)
    | fail error =>
        rw [read] at follows accepts
        rcases follows with failed | excused
        · refine iff_of_true failed.symm ?_
          rintro ⟨-, tree, meant⟩
          rw [meant] at accepts
          obtain ⟨_, impossible, -⟩ := accepts
          cases impossible
        · exact excused.elim
    | outside =>
        rw [read] at follows
        exact follows.elim
    | spin =>
        rw [read] at follows
        exact follows.elim
  · rw [decodedTree_large (not_le.mp fits), decodedTree_large (not_le.mp fits)]
    exact iff_of_true rfl fun accepted => absurd accepted.1 fits

theorem nodup_loneMap : (([] : List Field).map Field.number ++
    [(⟨1, .int32, .message 1⟩ : MapField)].map MapField.number ++
    ([] : List (List Field)).flatten.map Field.number).Nodup := List.nodup_singleton 1

theorem nodup_loneField : ([(⟨1, .leaf (.scalar .int32), .implicit⟩ : Field)].map Field.number ++
    ([] : List MapField).map MapField.number ++
    ([] : List (List Field)).flatten.map Field.number).Nodup := List.nodup_singleton 1

theorem loneField_tracked : ∀ field ∈ [(⟨1, .leaf (.scalar .int32), .implicit⟩ : Field)],
    ∀ target delimited, field.type = .message target delimited → field.presence ≠ .implicit := by
  intro field declared target delimited type
  rw [List.mem_singleton.mp declared] at type
  cases type

/-- `message M { map<int32, V> m = 1; }` and `message V { int32 x = 1; }`. -/
def valuedMap : Schema where
  messages := [{
      maps := [⟨1, .int32, .message 1⟩]
      distinct := nodup_loneMap
      tracked := noField_tracked },
    { fields := [⟨1, .leaf (.scalar .int32), .implicit⟩]
      distinct := nodup_loneField
      tracked := loneField_tracked }]

/-- An entry with the key 1 and no value. -/
def keyOnly : List Byte := [0x0a, 0x02, 0x08, 0x01]

/-- An entry with the key 1 and an empty value. -/
def keyAndValue : List Byte := [0x0a, 0x04, 0x08, 0x01, 0x12, 0x00]

/-- What `m()[0].value()` returns, for an inline cutoff. -/
def firstValueOf (cutoff : Nat) (input : List Byte) : Outcome DecodeError Answer :=
  decodedTree valuedMap (planOf valuedMap { inlineSubmsgCutoff := cutoff } [0, 1] true)
    unboundedArena 0 input (0 : Nat) >>= fun tree => .ok (tree [.field 1, .elem 0, .value])

theorem lasting_of_firstValueOf {cutoff : Nat} {input : List Byte} {answer : Answer}
    (found : firstValueOf cutoff input = .ok answer) :
    arenaDecode valuedMap (planOf valuedMap { inlineSubmsgCutoff := cutoff } [0, 1] true)
      unboundedArena 0 input (0 : Nat) ≠ .fail .outOfMemory := by
  intro failed
  simp only [firstValueOf, decodedTree, failed] at found
  cases found

theorem firstValueOf_sixteen : firstValueOf 16 keyOnly = .ok .message := rfl

theorem firstValueOf_zero : firstValueOf 0 keyOnly = .ok .absent := rfl

/-- The value is a default object under the cutoff 16 and null under the cutoff 0. -/
theorem decodedTree_keyOnly_differs :
    arenaDecode valuedMap (planOf valuedMap { inlineSubmsgCutoff := 16 } [0, 1] true)
        unboundedArena 0 keyOnly (0 : Nat) ≠ .fail .outOfMemory ∧
      arenaDecode valuedMap (planOf valuedMap { inlineSubmsgCutoff := 0 } [0, 1] true)
        unboundedArena 0 keyOnly (0 : Nat) ≠ .fail .outOfMemory ∧
      decodedTree valuedMap (planOf valuedMap { inlineSubmsgCutoff := 16 } [0, 1] true)
          unboundedArena 0 keyOnly (0 : Nat) ≠
        decodedTree valuedMap (planOf valuedMap { inlineSubmsgCutoff := 0 } [0, 1] true)
          unboundedArena 0 keyOnly (0 : Nat) := by
  refine ⟨lasting_of_firstValueOf firstValueOf_sixteen, lasting_of_firstValueOf firstValueOf_zero,
    fun same => ?_⟩
  have answers : firstValueOf 16 keyOnly = firstValueOf 0 keyOnly := by
    simp only [firstValueOf, same]
  rw [firstValueOf_sixteen, firstValueOf_zero] at answers
  cases answers

/-- A message of leaves has no entries. -/
theorem not_unvalued_of_leaves {schema : Schema} {reading reading' : Reading} {id : MessageId}
    (maps : (schema.get id).maps = []) (oneofs : (schema.get id).oneofs = [])
    (leaves : ∀ field ∈ (schema.get id).fields, ∃ kind, field.type = .leaf kind)
    {body : List Byte} {owner : MessageId} {map : MapField} :
    ¬ Unvalued schema reading reading' id body owner map := by
  intro unvalued
  cases unvalued with
  | entry declared => simp [maps] at declared
  | value declared => simp [maps] at declared
  | plain declared _ _ type =>
      obtain ⟨kind, leaf⟩ := leaves _ declared
      rw [leaf] at type
      cases type
  | choice inside => simp [oneofs] at inside

/-- The entry of the sample has its value. -/
theorem not_unvalued_keyAndValue {schema : Schema} {reading reading' : Reading}
    (maps : (schema.get 0).maps = [⟨1, .int32, .message 1⟩]) (fields : (schema.get 0).fields = [])
    (oneofs : (schema.get 0).oneofs = [])
    (values : ∀ body owner map, ¬ Unvalued schema reading reading' 1 body owner map)
    {owner : MessageId} {map : MapField} :
    ¬ Unvalued schema reading reading' 0 keyAndValue owner map := by
  have records : recordsOf ⟨1, .len⟩ keyAndValue = [.len [0x08, 0x01, 0x12, 0x00]] := rfl
  intro unvalued
  cases unvalued with
  | entry declared _ _ met without =>
      rw [maps] at declared
      cases List.mem_singleton.mp declared
      rw [show (Member.mapped ⟨1, .int32, .message 1⟩).tag = ⟨1, .len⟩ from rfl, records] at met
      cases List.mem_singleton.mp met
      exact absurd without (by decide)
  | value declared _ type _ _ deeper =>
      rw [maps] at declared
      cases List.mem_singleton.mp declared
      cases type
      exact values _ _ _ deeper
  | plain declared => simp [fields] at declared
  | choice inside => simp [oneofs] at inside

/-- An entry with its value reads the same, inline or behind a pointer. -/
theorem decodedTree_keyAndValue_same :
    decodedTree valuedMap (planOf valuedMap { inlineSubmsgCutoff := 16 } [0, 1] true)
        unboundedArena 0 keyAndValue (0 : Nat) =
      decodedTree valuedMap (planOf valuedMap { inlineSubmsgCutoff := 0 } [0, 1] true)
        unboundedArena 0 keyAndValue (0 : Nat) := by
  have inline : firstValueOf 16 keyAndValue = .ok .message := rfl
  have behind : firstValueOf 0 keyAndValue = .ok .message := rfl
  refine (decodedTree_eq_iff_storedAlike valuedMap { inlineSubmsgCutoff := 16 } 0 [0, 1] true
    unboundedArena unboundedArena (0 : Nat) (0 : Nat) 0 keyAndValue
    (lasting_of_firstValueOf inline) (lasting_of_firstValueOf behind)).mpr ?_
  intro _ owner map unvalued
  refine absurd unvalued (not_unvalued_keyAndValue rfl rfl rfl fun body owner map => ?_)
  refine not_unvalued_of_leaves rfl rfl fun field declared => ?_
  cases List.mem_singleton.mp declared
  exact ⟨_, rfl⟩

end RapidProto
