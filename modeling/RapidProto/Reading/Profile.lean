import RapidProto.Layout.Modes
import RapidProto.Reading.Cutoff

/-!
# Profiles

A profile drops fields, keeps sub-messages as bytes and adds the unknown-fields accessor.  The
decoder generated under it accepts whatever the full decoder accepts, and its tree is the full tree
seen through the accessors the profile keeps, where bytes are decoded when they are looked at.  The
one exception is again an entry of a map without a record of its message value: dropping a field can
make the value type small enough to be stored by value.
-/

namespace RapidProto

/-! ## Less depth -/

section Shallow

variable {schema : Schema} {reading : Reading} {id : MessageId}
  {sub sub' : MessageId → List Byte → Outcome DecodeError Behaviour}
  {excuse : DecodeError → Prop}

/-- Entry loops over sub-decoders that agree. -/
theorem entryBodies_agree
    (subs : ∀ target bytes, Outcome.Refines Eq excuse (sub target bytes) (sub' target bytes))
    (map : MapField) (limit : Nat) :
    (entryBodies sub map).Simulates (entryBodies sub' map) Eq excuse limit where
  fields := rfl
  wire _ _ _ := rfl
  native shape _ _ := by
    refine ⟨Eq, ?_, ?_⟩
    · rintro entry _ rfl
      simp only [entryBodies]
      split_ifs
      · exact Outcome.refines_ok rfl
      · split
        · exact Outcome.refines_ok rfl
        · dsimp only
          split_ifs
          · exact Outcome.refines_fail _
          · exact Outcome.refines_ok rfl
    · rintro entry _ value rfl _ _
      simp only [entryBodies]
      split_ifs
      · exact Outcome.refines_ok rfl
      · split
        · exact Outcome.refines_ok rfl
        · refine (subs _ _).bind ?_
          rintro behaviour _ rfl
          exact Outcome.refines_ok rfl
  packed _ _ _ _ _ _ _ same _ := by
    cases same
    exact Outcome.refines_ok rfl
  unknownBefore _ _ same := same
  unknown _ _ _ _ same := by
    cases same
    exact Outcome.refines_ok rfl

theorem occurrence_agrees
    (subs : ∀ target bytes, Outcome.Refines Eq excuse (sub target bytes) (sub' target bytes))
    (member : Member) (value : Payload) :
    Outcome.Refines Eq excuse (member.occurrence reading sub id value)
      (member.occurrence reading sub' id value) := by
  cases member with
  | plain field =>
      simp only [Member.occurrence]
      cases field.type with
      | leaf kind => exact Outcome.refines_ok rfl
      | message target delimited =>
          dsimp only
          split_ifs
          · exact Outcome.refines_ok rfl
          · exact subs target value.bytes
  | mapped map =>
      refine ((entryBodies_agree subs map value.bytes.length).foldlM le_rfl rfl).bind ?_
      rintro entry _ rfl
      exact Outcome.refines_ok rfl
  | choice oneof index field =>
      simp only [Member.occurrence]
      cases field.type with
      | leaf kind => exact Outcome.refines_ok rfl
      | message target delimited => exact subs target value.bytes

theorem deposit_agrees
    (subs : ∀ target bytes, Outcome.Refines Eq excuse (sub target bytes) (sub' target bytes))
    (item : Item) :
    Outcome.Refines Eq excuse (deposit schema reading sub id item)
      (deposit schema reading sub' id item) := by
  cases item with
  | badTag failure => exact Outcome.refines_fail _
  | badValue tag failure => exact Outcome.refines_fail _
  | record tag value raw =>
      simp only [deposit]
      split
      · split
        · refine (occurrence_agrees subs _ value).bind ?_
          rintro behaviour _ rfl
          exact Outcome.refines_ok rfl
        · exact Outcome.refines_ok rfl
      · split
        · split
          · exact Outcome.refines_fail _
          · exact Outcome.refines_ok rfl
        · exact Outcome.refines_ok rfl
      · exact Outcome.refines_ok rfl
      · exact Outcome.refines_ok rfl

theorem refusal_agrees (history : History) (item : Item) :
    Outcome.Refines Eq excuse (refusal schema reading id history item)
      (refusal schema reading id history item) := by
  rw [refusal]
  split
  · split
    · split_ifs
      · exact Outcome.refines_fail _
      · exact Outcome.refines_ok rfl
    · exact Outcome.refines_ok rfl
  · exact Outcome.refines_ok rfl

/-- A body that is accepted at some depth reads the same less deep. -/
theorem meaning_shallow {frames depth frames' depth' : Nat}
    (budget : frames + depth = kMaxDecodeDepth + 2) (entered : depth ≤ kMaxDecodeDepth + 1)
    (more : frames ≤ frames') (less : depth' ≤ depth) (id : MessageId) (body : List Byte) :
    Outcome.Refines Eq (fun _ => True) (meaning schema reading frames depth id body)
      (meaning schema reading frames' depth' id body) := by
  induction frames generalizing depth frames' depth' id body with
  | zero => omega
  | succ frames ih =>
      obtain ⟨frames', rfl⟩ : ∃ n, frames' = n + 1 := ⟨frames' - 1, by omega⟩
      rw [meaning, meaning]
      by_cases deep : kMaxDecodeDepth < depth
      · rw [if_pos deep]
        exact .inr trivial
      rw [if_neg deep, if_neg (by omega)]
      have subs : ∀ target bytes, Outcome.Refines Eq (fun _ => True)
          (meaning schema reading frames (depth + 1) target bytes)
          (meaning schema reading frames' (depth' + 1) target bytes) :=
        fun target bytes => ih (by omega) (by omega) (by omega) (by omega) target bytes
      have walked : Outcome.Refines Eq (fun _ => True)
          ((referenceBodies schema reading (meaning schema reading frames (depth + 1)) id).fold
            body {})
          ((referenceBodies schema reading (meaning schema reading frames' (depth' + 1)) id).fold
            body {}) := by
        refine Outcome.Refines.foldlM (fun item _ progress progress' same => ?_) rfl
        cases same
        rw [reference_step_eq, reference_step_eq]
        refine (refusal_agrees progress.history item).bind fun _ _ _ => ?_
        refine (deposit_agrees subs item).bind ?_
        rintro deposited _ rfl
        exact Outcome.refines_ok rfl
      apply walked.bind
      rintro progress _ rfl
      split
      · exact Outcome.refines_fail _
      · exact Outcome.refines_ok rfl

end Shallow

/-! ## Alike through and through -/

section Alike

variable (schema : Schema) (reading reading' : Reading)
  (decode : MessageId → List Byte → Outcome DecodeError Behaviour)

/-- Two trees of one body are alike at every depth: the largest relation under which they are alike
as messages and their sub-messages are related in their turn. -/
def Alike (id : MessageId) (body : List Byte) (tree tree' : Behaviour) : Prop :=
  ∃ related : MessageId → List Byte → Behaviour → Behaviour → Prop,
    (∀ id body tree tree', related id body tree tree' →
      NodeAlike schema reading reading' decode related id body tree tree') ∧
    related id body tree tree'

variable {schema reading reading' decode}
  {inner inner' : MessageId → List Byte → Behaviour → Behaviour → Prop} {id : MessageId}
  {body : List Byte} {tree tree' : Behaviour}

theorem PayloadAlike.mono
    (implies : ∀ id body tree tree', inner id body tree tree' → inner' id body tree tree')
    {number : Nat} {target : MessageId} {bytes : List Byte}
    (alike : PayloadAlike reading reading' decode inner id number target bytes tree tree') :
    PayloadAlike reading reading' decode inner' id number target bytes tree tree' := by
  refine ⟨fun deferred => ?_, fun eager => implies _ _ _ _ (alike.2 eager)⟩
  obtain ⟨stored, decoded, eventually, related⟩ := alike.1 deferred
  exact ⟨stored, decoded, eventually, implies _ _ _ _ related⟩

theorem NodeAlike.mono
    (implies : ∀ id body tree tree', inner id body tree tree' → inner' id body tree tree')
    (alike : NodeAlike schema reading reading' decode inner id body tree tree') :
    NodeAlike schema reading reading' decode inner' id body tree tree' := by
  refine ⟨alike.present, ?_, ?_, ?_, alike.unknown⟩
  · intro field declared kept
    have field' := alike.fields field declared kept
    rw [FieldAlike] at field' ⊢
    split
    · rename_i type
      rwa [type] at field'
    rename_i type
    rw [type] at field'
    dsimp only at field'
    split_ifs at field' ⊢
    · exact field'
    · obtain ⟨elements, elements', left, right, each⟩ := field'
      exact ⟨elements, elements', left, right, each.mono fun _ _ _ => PayloadAlike.mono implies⟩
    · split at field'
      · exact field'.imp_right fun required => ⟨required.1, implies _ _ _ _ required.2⟩
      · exact field'.mono implies
  · intro map declared kept
    obtain ⟨entries, entries', left, right, each⟩ := alike.maps map declared kept
    refine ⟨entries, entries', left, right, each.mono fun value entry entry' alike => ?_⟩
    obtain ⟨key, held, held', same, same', parts⟩ := alike
    refine ⟨key, held, held', same, same', ?_⟩
    split
    · rename_i type
      rwa [type] at parts
    rename_i type
    rw [type] at parts
    dsimp only at parts
    split at parts
    · exact parts.imp_right fun related => implies _ _ _ _ related
    · exact implies _ _ _ _ parts
  · intro oneof inside
    have choice := alike.oneofs oneof inside
    rw [OneofAlike] at choice ⊢
    split at choice
    · exact choice
    split at choice
    · exact choice
    split_ifs at choice ⊢
    · obtain ⟨held, held', left, right, related⟩ := choice
      exact ⟨held, held', left, right, implies _ _ _ _ related⟩
    · exact choice

theorem Alike.node (alike : Alike schema reading reading' decode id body tree tree') :
    NodeAlike schema reading reading' decode (Alike schema reading reading' decode) id body tree
      tree' := by
  obtain ⟨related, closed, holds⟩ := alike
  exact (closed _ _ _ _ holds).mono fun id body tree tree' holds => ⟨related, closed, holds⟩

/-- Alike means alike as messages, with sub-messages alike. -/
theorem alike_iff :
    Alike schema reading reading' decode id body tree tree' ↔
      NodeAlike schema reading reading' decode (Alike schema reading reading' decode) id body tree
        tree' := by
  refine ⟨Alike.node, fun alike => ⟨fun id body tree tree' => NodeAlike schema reading reading'
    decode (Alike schema reading reading' decode) id body tree tree', ?_, alike⟩⟩
  exact fun id body tree tree' alike =>
    alike.mono fun id body tree tree' deeper => deeper.node

end Alike

/-! ## The profiled tree -/

section Trees

variable {schema : Schema} {options options' : LayoutOptions} {planner planner' : Planner}
  (planned : planner.Planned schema options) (planned' : planner'.Planned schema options')
  {endian endian' : Bool}
  (narrows : ((planner.plan schema options endian).reading schema).Narrows
    ((planner'.plan schema options' endian').reading schema))
  {decode : MessageId → List Byte → Outcome DecodeError Behaviour}
include planned planned' narrows

/-- Default objects that both plans store by value are alike at every depth. -/
theorem defaultObject_alike_deep {target : MessageId} (fixed : FixedSize planner.memo target)
    (fixed' : FixedSize planner'.memo target) :
    Alike schema ((planner.plan schema options endian).reading schema)
      ((planner'.plan schema options' endian').reading schema) decode target []
      (defaultObject schema (planner.plan schema options endian) target)
      (defaultObject schema (planner'.plan schema options' endian') target) := by
  refine ⟨fun id body tree tree' => FixedSize planner.memo id ∧ FixedSize planner'.memo id ∧
    body = [] ∧ tree = defaultObject schema (planner.plan schema options endian) id ∧
    tree' = defaultObject schema (planner'.plan schema options' endian') id, ?_,
    fixed, fixed', rfl, rfl, rfl⟩
  rintro id _ _ _ ⟨fixed, fixed', rfl, rfl, rfl⟩
  exact defaultObject_alike planned planned' narrows fixed fixed' fun target fixed fixed' =>
    ⟨fixed, fixed', rfl, rfl, rfl⟩

theorem absentValue_alike_iff {id : MessageId} {map : MapField}
    (declared : map ∈ (schema.get id).maps) {target : MessageId}
    (type : map.value = .message target) :
    (((planner.plan schema options endian).reading schema).absentValue id map.number = .absent ∧
        ((planner'.plan schema options' endian').reading schema).absentValue id map.number =
          .absent ∨
      Alike schema ((planner.plan schema options endian).reading schema)
        ((planner'.plan schema options' endian').reading schema) decode target []
        (((planner.plan schema options endian).reading schema).absentValue id map.number)
        (((planner'.plan schema options' endian').reading schema).absentValue id map.number)) ↔
      StoredAlike (planner.plan schema options endian) (planner'.plan schema options' endian') id
        map := by
  rw [absentValue_eq _ declared type, absentValue_eq _ declared type, StoredAlike]
  have present : ∀ plan, defaultObject schema plan target ≠ .absent := fun plan same =>
    by cases congrFun same []
  cases inlined : (planner.plan schema options endian).inlined id map.number with
  | true =>
      cases inlined' : (planner'.plan schema options' endian').inlined id map.number with
      | true =>
          simp only [if_true, iff_true]
          exact .inr (defaultObject_alike_deep planned planned' narrows
            (planned.inlined_map declared type inlined)
            (planned'.inlined_map declared type inlined'))
      | false =>
          simp only [if_true, Bool.false_eq_true, if_false, present, false_and, false_or,
            Bool.true_eq_false, iff_false]
          exact fun alike => by cases alike.node.present.2
  | false =>
      cases inlined' : (planner'.plan schema options' endian').inlined id map.number with
      | true =>
          simp only [if_true, Bool.false_eq_true, if_false, present, and_false, false_or,
            iff_false]
          exact fun alike => by cases alike.node.present.1
      | false => simp

/-- The two trees of a body are alike iff the maps whose entries lack their value are stored alike.
A payload that is kept as bytes was accepted deeper in the tree, so it is accepted on its own. -/
theorem meaning_alike_iff
    (keeps : KeepsRequired schema ((planner.plan schema options endian).reading schema)
      ((planner'.plan schema options' endian').reading schema)) {limit : Nat}
    (decodes : ∀ target (bytes : List Byte), bytes.length ≤ limit → decode target bytes =
      meaning schema ((planner'.plan schema options' endian').reading schema) kDecodeFrames 0 target
        bytes)
    {frames depth : Nat} (budget : frames + depth = kMaxDecodeDepth + 2)
    (entered : depth ≤ kMaxDecodeDepth + 1) {id : MessageId} {body : List Byte}
    (fits : body.length ≤ limit) {tree tree' : Behaviour}
    (read : meaning schema ((planner.plan schema options endian).reading schema) frames depth id
      body = .ok tree)
    (read' : meaning schema ((planner'.plan schema options' endian').reading schema) frames depth id
      body = .ok tree') :
    Alike schema ((planner.plan schema options endian).reading schema)
        ((planner'.plan schema options' endian').reading schema) decode id body tree tree' ↔
      Unmarked schema ((planner.plan schema options endian).reading schema)
        ((planner'.plan schema options' endian').reading schema)
        (StoredAlike (planner.plan schema options endian) (planner'.plan schema options' endian'))
        id body := by
  induction frames generalizing depth id body tree tree' with
  | zero => omega
  | succ frames ih =>
      obtain ⟨shallow, progress, ran, -, rfl⟩ := meaning_eq_ok.mp read
      obtain ⟨-, progress', ran', -, rfl⟩ := meaning_eq_ok.mp read'
      rw [alike_iff]
      refine nodeAlike_iff ran ran' ⟨narrows, ?_, ?_⟩ ?_ fits _
      · intro target bytes short tree tree' decoded decoded'
        exact ih (by omega) (by omega) short decoded decoded'
      · exact fun map declared target type =>
          absentValue_alike_iff planned planned' narrows declared type
      · intro number _ target bytes short tree decoded
        have follows := @meaning_follows schema _ _ (fun _ => True) narrows keeps
          (.inr fun _ => trivial) frames (depth + 1) (by omega) (by omega) target bytes
        rw [decoded] at follows
        obtain ⟨tree'', decoded'', -⟩ := follows
        have alone := @meaning_shallow schema
          ((planner'.plan schema options' endian').reading schema) frames (depth + 1) kDecodeFrames 0
          (by omega) (by omega) (by rw [kDecodeFrames]; omega) (Nat.zero_le _) target bytes
        rw [decoded''] at alone
        obtain ⟨_, eventually, rfl⟩ := alone
        exact ⟨tree'', (decodes target bytes short).trans eventually,
          ih (by omega) (by omega) short decoded decoded''⟩

end Trees

/-! ## Both decoders -/

theorem full_narrows {schema : Schema} {modes : FieldModes} {cutoff : Nat}
    {planner planner' : Planner} {endian endian' : Bool} :
    ((planner.plan schema { inlineSubmsgCutoff := cutoff } endian).reading schema).Narrows
      ((planner'.plan schema (modes.options schema cutoff) endian').reading schema) :=
  ⟨fun _ _ => .inr rfl, rfl⟩

/-- A profile that resolves keeps the required fields. -/
theorem FieldModes.Valid.keepsRequired {schema : Schema} {modes : FieldModes}
    (valid : modes.Valid schema) {cutoff : Nat} {planner planner' : Planner}
    {endian endian' : Bool} :
    KeepsRequired schema
      ((planner.plan schema { inlineSubmsgCutoff := cutoff } endian).reading schema)
      ((planner'.plan schema (modes.options schema cutoff) endian').reading schema) := by
  intro id field declared required drop
  exact absurd required ((valid.mode_allows declared).1 drop)

/-- An input that the full decoder accepts is accepted by the decoder of a resolved profile; the
trees are alike, payloads kept as bytes decoded and the unknown-fields accessor exact, iff the maps
whose entries lack their value record store their values alike. -/
theorem profile_alike_iff_storedAlike (schema : Schema) (symbols : SymbolTable schema)
    (spec : FieldModesSpec) (messages : List MessageId) (modes : FieldModes)
    (resolved : resolveFieldModes symbols spec messages = .ok modes) (cutoff : Nat)
    (walk : List MessageId) (kIsLittleEndian : Bool) (allocator allocator' : Allocator)
    (arena final : allocator.State) (arena' : allocator'.State)
    (later : MessageId → List Byte → allocator'.State) (id : MessageId) (input : List Byte)
    (cell : Cell)
    (decoded : arenaDecode schema
      (planOf schema { inlineSubmsgCutoff := cutoff } walk kIsLittleEndian) allocator id input
      arena = .ok (cell, final))
    (lasting : arenaDecode schema
      (planOf schema (modes.options schema cutoff) walk kIsLittleEndian) allocator' id input
      arena' ≠ .fail .outOfMemory)
    (lastingLater : ∀ target payload, arenaDecode schema
      (planOf schema (modes.options schema cutoff) walk kIsLittleEndian) allocator' target payload
      (later target payload) ≠ .fail .outOfMemory) :
    (∃ cell' final', arenaDecode schema
        (planOf schema (modes.options schema cutoff) walk kIsLittleEndian) allocator' id input
        arena' = .ok (cell', final') ∧
      Alike schema
        ((planOf schema { inlineSubmsgCutoff := cutoff } walk kIsLittleEndian).reading schema)
        ((planOf schema (modes.options schema cutoff) walk kIsLittleEndian).reading schema)
        (fun target payload => decodedTree schema
          (planOf schema (modes.options schema cutoff) walk kIsLittleEndian) allocator' target
          payload (later target payload))
        id input
        (cell.behaviour schema
          (planOf schema { inlineSubmsgCutoff := cutoff } walk kIsLittleEndian) (.message id))
        (cell'.behaviour schema
          (planOf schema (modes.options schema cutoff) walk kIsLittleEndian) (.message id))) ↔
      ∀ owner map, Unvalued schema
          ((planOf schema { inlineSubmsgCutoff := cutoff } walk kIsLittleEndian).reading schema)
          ((planOf schema (modes.options schema cutoff) walk kIsLittleEndian).reading schema)
          id input owner map →
        StoredAlike (planOf schema { inlineSubmsgCutoff := cutoff } walk kIsLittleEndian)
          (planOf schema (modes.options schema cutoff) walk kIsLittleEndian) owner map := by
  have fits : input.length ≤ kUint32Max := by
    by_contra large
    rw [arenaDecode, if_pos (by omega)] at decoded
    cases decoded
  have read := meaning_of_arenaDecode decoded
  have payloads : ∀ target (bytes : List Byte), bytes.length ≤ kUint32Max →
      decodedTree schema (planOf schema (modes.options schema cutoff) walk kIsLittleEndian)
        allocator' target bytes (later target bytes) =
      meaning schema ((planOf schema (modes.options schema cutoff) walk kIsLittleEndian).reading
        schema) kDecodeFrames 0 target bytes :=
    fun target bytes short => decodedTree_eq short (lastingLater target bytes)
  obtain ⟨planner, planned, same⟩ :=
    planOf_eq schema { inlineSubmsgCutoff := cutoff } walk kIsLittleEndian
  obtain ⟨planner', planned', same'⟩ :=
    planOf_eq schema (modes.options schema cutoff) walk kIsLittleEndian
  have keeps := @FieldModes.Valid.keepsRequired _ _ (resolveFieldModes_valid resolved) cutoff
    planner planner' kIsLittleEndian kIsLittleEndian
  have narrows := @full_narrows schema modes cutoff planner planner' kIsLittleEndian
    kIsLittleEndian
  have budget : kDecodeFrames + 0 = kMaxDecodeDepth + 2 := rfl
  rw [same] at read ⊢
  rw [same'] at lasting payloads ⊢
  have follows := @meaning_follows schema _ _ (fun _ => True) narrows keeps
    (.inr fun _ => trivial) _ _ budget (Nat.zero_le _) id input
  rw [read] at follows
  obtain ⟨tree', read', -⟩ := follows
  obtain ⟨cell', final', decoded', rfl⟩ := arenaDecode_of_meaning fits lasting read'
  have alike := meaning_alike_iff planned planned' narrows keeps payloads budget (Nat.zero_le _) fits
    read read'
  constructor
  · rintro ⟨other, rest, again, related⟩
    rw [decoded'] at again
    cases again
    exact alike.mp related
  · intro unmarked
    exact ⟨cell', final', decoded', alike.mpr unmarked⟩

/-- `message M { map<int32, V> m = 1; }` and `message V { int32 x = 1; string s = 2; }`. -/
def textualMap : Schema where
  messages := [{
      maps := [⟨1, .int32, .message 1⟩]
      distinct := nodup_loneMap
      tracked := noField_tracked },
    { fields := [⟨1, .leaf (.scalar .int32), .implicit⟩,
        ⟨2, .leaf (.scalar .string), .implicit⟩] }]

/-- Its names. -/
def textualSymbols : SymbolTable textualMap where
  messages fqn := if fqn = ".M".toList then some 0 else if fqn = ".V".toList then some 1 else none
  enums _ := false
  fieldName id number :=
    if id = 0 then "m".toList else if number = 1 then "x".toList else "s".toList
  resolvedType id _ := if id = 0 then ".V".toList else []
  typed id field listed known := by
    match id with
    | 0 => cases listed
    | 1 => simp at known
    | _ + 2 => cases listed

/-- The profile `drop V.s`. -/
def dropText : FieldModesSpec where
  entries := [⟨.drop, "V.s".toList, "--drop"⟩]

/-- What it resolves to. -/
def withoutText : FieldModes where
  fields := Finmap.singleton (1, 2) .drop
  profileId := "a83661b4be22236b".toList
  normalized := ["drop .V.s".toList]

theorem resolve_dropText :
    resolveFieldModes textualSymbols dropText [0, 1] = .ok withoutText := rfl

/-- The plan without a profile. -/
def fullPlan : Plan := planOf textualMap { inlineSubmsgCutoff := 16 } [0, 1] true

/-- The plan under the profile. -/
def leanPlan : Plan := planOf textualMap (withoutText.options textualMap 16) [0, 1] true

/-- An entry of the full tree and an entry of the lean tree that is alike, without value records. -/
theorem entryAlike_keyOnly {decode : MessageId → List Byte → Outcome DecodeError Behaviour}
    {tree tree' : Behaviour}
    (alike : Alike textualMap (fullPlan.reading textualMap) (leanPlan.reading textualMap) decode 0
      keyOnly tree tree') :
    tree [.field 1, .elem 0, .value] = tree' [.field 1, .elem 0, .value] := by
  obtain ⟨entries, entries', left, right, each⟩ := alike.node.maps ⟨1, .int32, .message 1⟩
    (by simp [textualMap, Schema.get]) (by decide)
  have records : recordsOf (Member.mapped ⟨1, .int32, .message 1⟩).tag keyOnly =
      [.len [0x08, 0x01]] := rfl
  rw [records] at each
  cases each with
  | cons entry rest =>
      cases rest
      obtain ⟨key, value, value', rfl, rfl, parts⟩ := entry
      have values : recordsOf ⟨2, .len⟩ (Payload.len [0x08, 0x01]).bytes = [] := rfl
      simp only [values] at parts
      have first := congrFun left [.elem 0, .value]
      have second := congrFun right [.elem 0, .value]
      simp only [Behaviour.behind, Behaviour.map, List.getElem?_cons_zero, Behaviour.entry]
        at first second
      rw [first, second]
      rcases parts with ⟨rfl, rfl⟩ | deeper
      · rfl
      · rw [deeper.node.present.1, deeper.node.present.2]

/-- Dropping the string makes the value type fixed-size: the value that was null becomes a default
object. -/
theorem dropText_keyOnly_differs :
    resolveFieldModes textualSymbols dropText [0, 1] = .ok withoutText ∧
      ∃ cell final, arenaDecode textualMap fullPlan unboundedArena 0 keyOnly (0 : Nat) =
          .ok (cell, final) ∧
        (∀ target payload, arenaDecode textualMap leanPlan unboundedArena target payload (0 : Nat) ≠
          .fail .outOfMemory) ∧
        ¬ ∃ cell' final', arenaDecode textualMap leanPlan unboundedArena 0 keyOnly (0 : Nat) =
            .ok (cell', final') ∧
          Alike textualMap (fullPlan.reading textualMap) (leanPlan.reading textualMap)
            (fun target payload => decodedTree textualMap leanPlan unboundedArena target payload
              (0 : Nat)) 0 keyOnly
            (cell.behaviour textualMap fullPlan (.message 0))
            (cell'.behaviour textualMap leanPlan (.message 0)) := by
  refine ⟨resolve_dropText, _, _, rfl, fun target payload => arenaDecode_lasting
    unboundedArena_neverFails textualMap leanPlan target payload (0 : Nat), ?_⟩
  rintro ⟨cell', final', decoded', alike⟩
  cases decoded'
  have same := entryAlike_keyOnly alike
  cases same

theorem holderFields_tracked : ∀ field ∈
    [(⟨1, .message 1 false, .explicit⟩ : Field), ⟨2, .leaf (.scalar .string), .implicit⟩],
    ∀ target delimited, field.type = .message target delimited → field.presence ≠ .implicit := by
  intro field declared target delimited type
  rcases List.mem_cons.mp declared with rfl | second
  · exact nofun
  · rw [List.mem_singleton.mp second] at type
    cases type

/-- `message N { V v = 1; string s = 2; }` and `message V { int32 x = 1; }`. -/
def textHolder : Schema where
  messages := [
    { fields := [⟨1, .message 1 false, .explicit⟩, ⟨2, .leaf (.scalar .string), .implicit⟩]
      tracked := holderFields_tracked },
    { fields := [⟨1, .leaf (.scalar .int32), .implicit⟩]
      distinct := nodup_loneField
      tracked := loneField_tracked }]

/-- Its names. -/
def holderSymbols : SymbolTable textHolder where
  messages fqn := if fqn = ".N".toList then some 0 else if fqn = ".V".toList then some 1 else none
  enums _ := false
  fieldName id number :=
    if id = 0 then if number = 1 then "v".toList else "s".toList else "x".toList
  resolvedType id number := if id = 0 ∧ number = 1 then ".V".toList else []
  typed id field listed known := by
    match id with
    | 0 =>
      rcases List.mem_cons.mp listed with rfl | second
      · exact ⟨1, false, rfl⟩
      · cases List.mem_singleton.mp second
        simp at known
    | 1 => simp at known
    | _ + 2 => cases listed

/-- The profile `drop N.s`, `raw N.v` and `unknown-fields N`. -/
def rawHolder : FieldModesSpec where
  entries := [⟨.drop, "N.s".toList, "--drop"⟩, ⟨.raw, "N.v".toList, "--raw"⟩]
  unknowns := [⟨"N".toList, "--unknown-fields"⟩]

/-- What it resolves to. -/
def holderModes : FieldModes where
  fields := (Finmap.singleton (0, 1) .raw).insert (0, 2) .drop
  unknownMessages := {0}
  profileId := "e5355a5e13c2f4bf".toList
  normalized := ["drop .N.s".toList, "raw .N.v".toList, "unknown .N".toList]

/-- The sub-message, the string, and a field that is not declared. -/
def heldText : List Byte := [0x0a, 0x02, 0x08, 0x05, 0x12, 0x01, 0x61, 0x18, 0x00]

/-- Under a profile that drops, keeps bytes and tracks unknown fields, the tree is alike. -/
theorem rawHolder_heldText_alike :
    ∃ cell final cell' final',
      arenaDecode textHolder (planOf textHolder { inlineSubmsgCutoff := 16 } [0, 1] true)
        unboundedArena 0 heldText (0 : Nat) = .ok (cell, final) ∧
      arenaDecode textHolder (planOf textHolder (holderModes.options textHolder 16) [0, 1] true)
        unboundedArena 0 heldText (0 : Nat) = .ok (cell', final') ∧
      Alike textHolder
        ((planOf textHolder { inlineSubmsgCutoff := 16 } [0, 1] true).reading textHolder)
        ((planOf textHolder (holderModes.options textHolder 16) [0, 1] true).reading textHolder)
        (fun target payload => decodedTree textHolder
          (planOf textHolder (holderModes.options textHolder 16) [0, 1] true) unboundedArena target
          payload (0 : Nat)) 0 heldText
        (cell.behaviour textHolder (planOf textHolder { inlineSubmsgCutoff := 16 } [0, 1] true)
          (.message 0))
        (cell'.behaviour textHolder
          (planOf textHolder (holderModes.options textHolder 16) [0, 1] true) (.message 0)) := by
  have lasting : ∀ target payload, arenaDecode textHolder
      (planOf textHolder (holderModes.options textHolder 16) [0, 1] true) unboundedArena target
      payload (0 : Nat) ≠ .fail .outOfMemory := fun target payload =>
    arenaDecode_lasting unboundedArena_neverFails textHolder _ target payload (0 : Nat)
  obtain ⟨cell', final', decoded', alike⟩ := (profile_alike_iff_storedAlike textHolder holderSymbols
    rawHolder [0, 1] holderModes rfl 16 [0, 1] true unboundedArena unboundedArena (0 : Nat) _
    (0 : Nat) (fun _ _ => (0 : Nat)) 0 heldText _ rfl (lasting 0 heldText) lasting).mpr
      fun owner map unvalued => by
        have declared := unvalued.declared
        match owner with
        | 0 | 1 | _ + 2 => cases declared
  exact ⟨_, _, cell', final', rfl, decoded', alike⟩

end RapidProto
