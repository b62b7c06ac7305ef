import Mathlib.Data.Char
import Mathlib.Data.Finmap
import Mathlib.Data.List.Lex
import Mathlib.Data.List.Sort
import RapidProto.Layout.Planner

/-!
# Decode profiles

`modes.cpp`: the entries of a profile name fields, types and messages; resolving them gives every
field its mode.  An explicit entry on a field is checked and wins over an entry on the field's type,
which leaves oneof members, required fields under `drop` and maps under `raw` as they are.  A
profile that resolves therefore drops no required field and keeps only message-typed fields as
bytes.  The canonical lines of the entries, sorted, are hashed into the identity of the profile.
-/

namespace RapidProto

/-- A dotted name; its characters stand for bytes. -/
abbrev Name := List Char

/-- What a profile is resolved against: the defining nodes by full name, and the names written in
the messages. -/
structure SymbolTable (schema : Schema) where
  /-- Messages by full name. -/
  messages : Name → Option MessageId
  /-- Enums by full name. -/
  enums : Name → Bool
  /-- The name of a field or map. -/
  fieldName : MessageId → Nat → Name
  /-- `resolved_type_fqn` of a field, `resolved_value_type_fqn` of a map; empty for a scalar. -/
  resolvedType : MessageId → Nat → Name
  /-- A field whose resolved type is a message is message-typed. -/
  typed : ∀ id, ∀ field ∈ (schema.get id).fields,
    (messages (resolvedType id field.number)).isSome = true →
      ∃ target delimited, field.type = .message target delimited

/-- A file set in which nothing is named. -/
def unnamed (schema : Schema) : SymbolTable schema where
  messages _ := none
  enums _ := false
  fieldName _ _ := []
  resolvedType _ _ := []
  typed _ _ _ known := by simp at known

/-- One requested selection. -/
structure ModeEntry where
  /-- The requested mode. -/
  mode : FieldMode
  /-- The field or type. -/
  name : Name
  /-- Labels errors. -/
  origin : String

/-- One message whose unknown-fields accessor is requested. -/
structure UnknownEntry where
  /-- The message. -/
  name : Name
  /-- Labels errors. -/
  origin : String

/-- The parsed selection. -/
structure FieldModesSpec where
  /-- The `name` directive; empty without one. -/
  profileName : Name := []
  /-- Field and type entries, in order. -/
  entries : List ModeEntry := []
  /-- Messages with an unknown-fields accessor. -/
  unknowns : List UnknownEntry := []
  /-- Every message has one. -/
  unknownAll : Bool := false

/-- Modes of fields, by message and field number. -/
abbrev ModeMap := Finmap fun _ : MessageId × Nat => FieldMode

/-- The resolved selection. -/
structure FieldModes where
  /-- Modes of plain fields. -/
  fields : ModeMap := ∅
  /-- Modes of maps. -/
  maps : ModeMap := ∅
  /-- Messages with an unknown-fields accessor. -/
  unknownMessages : Finset MessageId := ∅
  /-- The identity; empty unless the profile is active. -/
  profileId : Name := []
  /-- The canonical lines, sorted. -/
  normalized : List Name := []

theorem ModeMap.lookup_insert (modes : ModeMap) (key other : MessageId × Nat) (mode : FieldMode) :
    (modes.insert key mode).lookup other = if other = key then some mode else modes.lookup other := by
  by_cases same : other = key
  · rw [if_pos same, same, Finmap.lookup_insert]
  · rw [if_neg same, Finmap.lookup_insert_of_ne _ same]

/-- `active`: the profile changes something. -/
def FieldModes.active (modes : FieldModes) : Bool :=
  modes.fields ≠ ∅ ∨ modes.maps ≠ ∅ ∨ modes.unknownMessages ≠ ∅

/-- `wants_unknown`. -/
def FieldModes.wantsUnknown (modes : FieldModes) (id : MessageId) : Bool :=
  id ∈ modes.unknownMessages

/-- The entries split by level. -/
structure Selection where
  /-- Entries on types. -/
  typeModes : Name → Option FieldMode := fun _ => none
  /-- Entries on plain fields. -/
  fieldModes : MessageId → Nat → Option FieldMode := fun _ _ => none
  /-- Entries on maps. -/
  mapModes : MessageId → Nat → Option FieldMode := fun _ _ => none
  /-- First origin of each canonical line. -/
  origins : Name → Option String := fun _ => none
  /-- The canonical lines, in order of their first entries. -/
  normalized : List Name := []

/-- The word of a mode. -/
def modeWord : FieldMode → String
  | .raw => "raw"
  | .drop => "drop"
  | .materialize => "materialize"

/-- A name in the spelling of the symbol table. -/
def normalizeName (name : Name) : Name :=
  if name.head? = some '.' then name else '.' :: name

/-- A field or map found by name. -/
inductive FieldHit where
  | none
  | field (id : MessageId) (field : Field)
  | map (id : MessageId) (map : MapField)
  | inOneof (id : MessageId) (field : Field)

section Resolve

variable {schema : Schema} (symbols : SymbolTable schema)

/-- `find_field`: plain fields, then maps, then oneof members. -/
def findField (id : MessageId) (name : Name) : FieldHit :=
  let named (number : Nat) : Bool := symbols.fieldName id number = name
  match (schema.get id).fields.find? fun field => named field.number with
  | some field => .field id field
  | none =>
    match (schema.get id).maps.find? fun map => named map.number with
    | some map => .map id map
    | none =>
      match (schema.get id).oneofs.flatten.find? fun field => named field.number with
      | some field => .inOneof id field
      | none => .none

/-- The part behind the last dot. -/
def leafName (fqn : Name) : Name := (fqn.reverse.takeWhile (· ≠ '.')).reverse

/-- The part before the last dot. -/
def parentName (fqn : Name) : Name := fqn.take (fqn.length - (leafName fqn).length - 1)

/-- `find_field_by_fqn`. -/
def findFieldByFqn (fqn : Name) : FieldHit :=
  match symbols.messages (parentName fqn) with
  | some id => findField symbols id (leafName fqn)
  | none => .none

/-- The text of a name. -/
def nameText (name : Name) : String := String.ofList name

/-- `field_entry_error`: what an explicit entry on a field must not ask for. -/
def fieldEntryError (entry : ModeEntry) : FieldHit → Option String
  | .inOneof _ _ => some (entry.origin ++ ": '" ++ nameText entry.name ++
      "' is a oneof member; field modes do not apply inside a oneof")
  | .field _ field =>
    if entry.mode = .drop ∧ field.presence = .required then
      some (entry.origin ++ ": cannot drop required field '" ++ nameText entry.name ++
        "' (its presence check would be meaningless)")
    else
      match entry.mode, field.type with
      | .raw, .leaf _ => some (cannotKeep entry)
      | _, _ => none
  | .map _ _ => if entry.mode = .raw then some (cannotKeep entry) else none
  | .none => none
where
  /-- The refusal of `raw` on anything but a message-typed field. -/
  cannotKeep (entry : ModeEntry) : String :=
    entry.origin ++ ": cannot keep '" ++ nameText entry.name ++
      "' raw (raw applies to message-typed fields, whose payload the field type's decode() accepts; " ++
      "materialize or drop this field)"

/-- The canonical line of a selection. -/
def selectionLine (mode : FieldMode) (fqn : Name) : Name :=
  (modeWord mode).toList ++ ' ' :: fqn

/-- Append the line of an entry and keep its first origin. -/
def Selection.note (sel : Selection) (mode : FieldMode) (fqn : Name) (origin : String) :
    Selection :=
  let line := selectionLine mode fqn
  { sel with
    origins := fun other =>
      if other = line ∧ sel.origins line = none then some origin else sel.origins other
    normalized := sel.normalized ++ [line] }

/-- Two modes for one name. -/
def conflict (sel : Selection) (entry : ModeEntry) (fqn : Name) (existing : FieldMode) : String :=
  entry.origin ++ ": '" ++ nameText entry.name ++ "' already has mode " ++ modeWord existing ++
    " (from " ++ (sel.origins (selectionLine existing fqn)).getD "" ++ ")"

/-- `apply_entry`. -/
def applyEntry (sel : Selection) (entry : ModeEntry) : Except String Selection :=
  if entry.name = [] then .error (entry.origin ++ ": empty name")
  else if entry.mode = .materialize then
    .error (entry.origin ++ ": materialize is the default, not a directive")
  else
    let fqn := normalizeName entry.name
    if (symbols.messages fqn).isSome ∨ symbols.enums fqn then
      if entry.mode = .raw ∧ (symbols.messages fqn).isNone then
        .error (entry.origin ++ ": cannot keep enum '" ++ nameText entry.name ++
          "' raw (raw stores a message field's payload for a later decode(); an enum has no " ++
          "payload -- materialize or drop it)")
      else
        match sel.typeModes fqn with
        | some existing =>
          if existing = entry.mode then .ok sel else .error (conflict sel entry fqn existing)
        | none =>
          .ok { sel.note entry.mode fqn entry.origin with
            typeModes := fun other => if other = fqn then some entry.mode else sel.typeModes other }
    else
      let hit := findFieldByFqn symbols fqn
      match fieldEntryError entry hit with
      | some error => .error error
      | none =>
        match hit with
        | .field id field =>
          match sel.fieldModes id field.number with
          | some existing =>
            if existing = entry.mode then .ok sel else .error (conflict sel entry fqn existing)
          | none =>
            .ok { sel.note entry.mode fqn entry.origin with
              fieldModes := fun id' number => if id' = id ∧ number = field.number then
                some entry.mode else sel.fieldModes id' number }
        | .map id map =>
          match sel.mapModes id map.number with
          | some existing =>
            if existing = entry.mode then .ok sel else .error (conflict sel entry fqn existing)
          | none =>
            .ok { sel.note entry.mode fqn entry.origin with
              mapModes := fun id' number => if id' = id ∧ number = map.number then
                some entry.mode else sel.mapModes id' number }
        | .inOneof _ _ | .none =>
          .error (entry.origin ++ ": unknown field or type '" ++ nameText entry.name ++
            "' (a silently ignored selection would be a footgun)")

/-- The mode `apply_to_message` gives a plain field. -/
def fieldModeOf (sel : Selection) (id : MessageId) (field : Field) : Option FieldMode :=
  match sel.fieldModes id field.number with
  | some mode => some mode
  | none =>
    if symbols.resolvedType id field.number = [] then none
    else
      match sel.typeModes (symbols.resolvedType id field.number) with
      | some mode => if mode ≠ .drop ∨ field.presence ≠ .required then some mode else none
      | none => none

/-- The mode `apply_to_message` gives a map; `raw` never fans out to maps. -/
def mapModeOf (sel : Selection) (id : MessageId) (map : MapField) : Option FieldMode :=
  match sel.mapModes id map.number with
  | some mode => some mode
  | none =>
    if symbols.resolvedType id map.number = [] then none
    else
      match sel.typeModes (symbols.resolvedType id map.number) with
      | some mode => if mode ≠ .raw then some mode else none
      | none => none

/-- `out.fields[&field] = mode`. -/
def FieldModes.setField (out : FieldModes) (id : MessageId) (field : Field) :
    Option FieldMode → FieldModes
  | none => out
  | some mode => { out with fields := out.fields.insert (id, field.number) mode }

/-- `out.maps[&map] = mode`. -/
def FieldModes.setMap (out : FieldModes) (id : MessageId) (map : MapField) :
    Option FieldMode → FieldModes
  | none => out
  | some mode => { out with maps := out.maps.insert (id, map.number) mode }

/-- `apply_to_message`. -/
def applyToMessage (sel : Selection) (out : FieldModes) (id : MessageId) : FieldModes :=
  let out := (schema.get id).fields.foldl
    (fun out field => out.setField id field (fieldModeOf symbols sel id field)) out
  (schema.get id).maps.foldl
    (fun out map => out.setMap id map (mapModeOf symbols sel id map)) out

/-- The canonical line of a message with an unknown-fields accessor. -/
def unknownLine (fqn : Name) : Name := "unknown ".toList ++ fqn

/-- `apply_unknown_entry`, with the lines noted so far. -/
def applyUnknownEntry (noted : FieldModes × List Name) (entry : UnknownEntry) :
    Except String (FieldModes × List Name) :=
  let (out, lines) := noted
  if entry.name = [] then .error (entry.origin ++ ": empty name")
  else
    let fqn := normalizeName entry.name
    match symbols.messages fqn with
    | some id =>
      if id ∈ out.unknownMessages then .ok (out, lines)
      else .ok ({ out with unknownMessages := insert id out.unknownMessages },
        lines ++ [unknownLine fqn])
    | none =>
      if symbols.enums fqn then
        .error (entry.origin ++ ": '" ++ nameText entry.name ++ "' is an enum; unknown-fields " ++
          "applies to a message (it reserves that message's has_unknown_fields() bit)")
      else
        match findFieldByFqn symbols fqn with
        | .none =>
          .error (entry.origin ++ ": unknown message '" ++ nameText entry.name ++
            "' (unknown-fields names a message)")
        | .field _ _ | .map _ _ | .inOneof _ _ =>
          .error (entry.origin ++ ": '" ++ nameText entry.name ++ "' is a field; unknown-fields " ++
            "names the message whose has_unknown_fields() bit to reserve, not one of its fields")

end Resolve

/-! ## Identity -/

/-- One byte of FNV-1a. -/
def fnvByte (h : BitVec 64) (byte : Nat) : BitVec 64 :=
  (h ^^^ BitVec.ofNat 64 (byte % 256)) * 0x100000001b3

/-- One line and its newline. -/
def fnvLine (h : BitVec 64) (line : Name) : BitVec 64 :=
  fnvByte (line.foldl (fun h c => fnvByte h c.toNat) h) '\n'.toNat

/-- `hash_id`: FNV-1a over the lines, as sixteen hexadecimal digits. -/
def hashId (lines : List Name) : Name :=
  let h := lines.foldl fnvLine 0xcbf29ce484222325
  (List.range 16).map fun i =>
    "0123456789abcdef".toList.getD ((h >>> (4 * (15 - i))).toNat % 16) '0'

/-- `kNameHashHexChars`. -/
def kNameHashHexChars : Nat := 8

/-- The identity of a profile with the given lines. -/
def profileId (profileName : Name) (lines : List Name) : Name :=
  if profileName = [] then hashId lines
  else profileName ++ '_' :: (hashId lines).take kNameHashHexChars

/-- An active profile gets its sorted lines and an identity. -/
def FieldModes.identify (out : FieldModes) (profileName : Name) (lines : List Name) : FieldModes :=
  if out.active then
    let sorted := lines.insertionSort (· ≤ ·)
    { out with normalized := sorted, profileId := RapidProto.profileId profileName sorted }
  else out

section Identify

variable (out : FieldModes) (profileName : Name) (lines : List Name)

@[simp] theorem FieldModes.identify_fields :
    (out.identify profileName lines).fields = out.fields := by
  rw [FieldModes.identify]
  split <;> rfl

@[simp] theorem FieldModes.identify_maps :
    (out.identify profileName lines).maps = out.maps := by
  rw [FieldModes.identify]
  split <;> rfl

@[simp] theorem FieldModes.identify_unknownMessages :
    (out.identify profileName lines).unknownMessages = out.unknownMessages := by
  rw [FieldModes.identify]
  split <;> rfl

end Identify

/-- `resolve_field_modes`, over the messages of the file set in any order.  The directive for all
messages has one line, so that the identity does not shift as the schema gains messages. -/
def resolveFieldModes {schema : Schema} (symbols : SymbolTable schema) (spec : FieldModesSpec)
    (messages : List MessageId) : Except String FieldModes := do
  let sel ← spec.entries.foldlM (applyEntry symbols) {}
  let out := messages.foldl (applyToMessage symbols sel) {}
  let (out, unknownLines) ← spec.unknowns.foldlM (applyUnknownEntry symbols) (out, [])
  let (out, unknownLines) :=
    if spec.unknownAll then
      ({ out with unknownMessages :=
          messages.foldl (fun flagged id => insert id flagged) out.unknownMessages },
        [unknownLine ['*']])
    else (out, unknownLines)
  .ok (out.identify spec.profileName (sel.normalized ++ unknownLines))


/-- The planner's lookup of a field's mode; members of oneofs have none. -/
def FieldModes.mode (schema : Schema) (modes : FieldModes) (id : MessageId) (number : Nat) :
    FieldMode :=
  match (schema.get id).member? number with
  | some (.plain _) => (modes.fields.lookup (id, number)).getD .materialize
  | some (.mapped _) => (modes.maps.lookup (id, number)).getD .materialize
  | _ => .materialize

/-- The planning options of a profile. -/
def FieldModes.options (schema : Schema) (modes : FieldModes) (cutoff : Nat) : LayoutOptions where
  inlineSubmsgCutoff := cutoff
  mode := modes.mode schema
  tracksUnknown := modes.wantsUnknown

/-! ## What a resolved profile can ask for -/

/-- A mode that the field can have. -/
def Field.Allows (field : Field) (mode : FieldMode) : Prop :=
  (mode = .drop → field.presence ≠ .required) ∧
    (mode = .raw → ∃ target delimited, field.type = .message target delimited)

/-- Every entry of the selection is one its field, map or type can have. -/
structure Selection.Valid {schema : Schema} (symbols : SymbolTable schema) (sel : Selection) :
    Prop where
  fields : ∀ id, ∀ field ∈ (schema.get id).fields, ∀ mode,
    sel.fieldModes id field.number = some mode → field.Allows mode
  maps : ∀ id number, sel.mapModes id number ≠ some .raw
  types : ∀ fqn, sel.typeModes fqn = some .raw → (symbols.messages fqn).isSome = true

/-- Every mode of the profile is one its field or map can have. -/
structure FieldModes.Valid (schema : Schema) (modes : FieldModes) : Prop where
  fields : ∀ id, ∀ field ∈ (schema.get id).fields, ∀ mode,
    modes.fields.lookup (id, field.number) = some mode → field.Allows mode
  maps : ∀ id number, modes.maps.lookup (id, number) ≠ some .raw

section Valid

variable {schema : Schema} {symbols : SymbolTable schema}

theorem field_eq_of_number {message : Message} {field other : Field} (listed : field ∈ message.fields)
    (listed' : other ∈ message.fields) (same : field.number = other.number) : field = other := by
  have member := Message.member_inj (Message.plain_mem.mpr listed) (Message.plain_mem.mpr listed')
    same
  exact Member.plain.inj member

theorem findField_field {id found : MessageId} {name : Name} {field : Field}
    (hit : findField symbols id name = .field found field) :
    found = id ∧ field ∈ (schema.get id).fields := by
  simp only [findField] at hit
  split at hit
  · rename_i met
    cases hit
    exact ⟨rfl, List.mem_of_find?_eq_some met⟩
  split at hit
  · cases hit
  split at hit <;> cases hit

theorem findFieldByFqn_field {fqn : Name} {id : MessageId} {field : Field}
    (hit : findFieldByFqn symbols fqn = .field id field) : field ∈ (schema.get id).fields := by
  rw [findFieldByFqn] at hit
  split at hit
  · obtain ⟨rfl, listed⟩ := findField_field hit
    exact listed
  · cases hit

theorem allows_of_fieldEntryError {entry : ModeEntry} {id : MessageId} {field : Field}
    (passed : fieldEntryError entry (.field id field) = none) : field.Allows entry.mode := by
  rw [fieldEntryError] at passed
  split_ifs at passed with refused
  refine ⟨fun drop required => refused ⟨drop, required⟩, fun raw => ?_⟩
  cases type : field.type with
  | leaf kind =>
      rw [raw, type] at passed
      cases passed
  | message target delimited => exact ⟨target, delimited, rfl⟩

/-- One entry keeps the selection valid. -/
theorem applyEntry_valid {sel sel' : Selection} {entry : ModeEntry} (valid : sel.Valid symbols)
    (applied : applyEntry symbols sel entry = .ok sel') : sel'.Valid symbols := by
  simp only [applyEntry] at applied
  split at applied
  · cases applied
  split at applied
  · cases applied
  split at applied
  · split at applied
    · cases applied
    rename_i named
    split at applied
    · split at applied
      · cases applied
        exact valid
      · cases applied
    · cases applied
      refine ⟨valid.fields, valid.maps, fun fqn found => ?_⟩
      dsimp only at found
      split at found
      · rename_i same
        rw [same]
        have raw : entry.mode = .raw := Option.some.inj found
        simpa [raw, Option.isSome_iff_ne_none] using named
      · exact valid.types fqn found
  split at applied
  · cases applied
  rename_i passed
  cases hit : findFieldByFqn symbols (normalizeName entry.name) with
  | field id field =>
      rw [hit] at applied passed
      dsimp only at applied
      split at applied
      · split at applied
        · cases applied
          exact valid
        · cases applied
      · cases applied
        refine ⟨fun id' field' listed mode found => ?_, valid.maps, valid.types⟩
        dsimp only at found
        split at found
        · rename_i same
          obtain ⟨rfl, number⟩ := same
          cases found
          rw [field_eq_of_number listed (findFieldByFqn_field hit) number]
          exact allows_of_fieldEntryError passed
        · exact valid.fields id' field' listed mode found
  | map id map =>
      rw [hit] at applied passed
      dsimp only at applied
      split at applied
      · split at applied
        · cases applied
          exact valid
        · cases applied
      · cases applied
        refine ⟨valid.fields, fun id' number found => ?_, valid.types⟩
        dsimp only at found
        split at found
        · have raw : entry.mode = .raw := Option.some.inj found
          rw [fieldEntryError, if_pos raw] at passed
          cases passed
        · exact valid.maps id' number found
  | inOneof id field =>
      rw [hit] at applied
      cases applied
  | none =>
      rw [hit] at applied
      cases applied

theorem selection_valid {entries : List ModeEntry} {sel final : Selection}
    (valid : sel.Valid symbols)
    (ran : entries.foldlM (applyEntry symbols) sel = .ok final) : final.Valid symbols := by
  induction entries generalizing sel with
  | nil =>
      cases ran
      exact valid
  | cons entry entries ih =>
      rw [List.foldlM_cons] at ran
      cases applied : applyEntry symbols sel entry with
      | error error =>
          rw [applied] at ran
          cases ran
      | ok next =>
          rw [applied] at ran
          exact ih (applyEntry_valid valid applied) ran

theorem fieldModeOf_allows {sel : Selection} (valid : sel.Valid symbols) {id : MessageId}
    {field : Field} (listed : field ∈ (schema.get id).fields) {mode : FieldMode}
    (given : fieldModeOf symbols sel id field = some mode) : field.Allows mode := by
  rw [fieldModeOf] at given
  split at given
  · rename_i explicit
    cases given
    exact valid.fields id field listed _ explicit
  split_ifs at given
  split at given
  · rename_i typed
    split_ifs at given with kept
    cases given
    refine ⟨fun drop required => ?_, fun raw => ?_⟩
    · rcases kept with other | optional
      · exact other drop
      · exact optional required
    · rw [raw] at typed
      exact symbols.typed id field listed (valid.types _ typed)
  · cases given

theorem mapModeOf_ne_raw {sel : Selection} (valid : sel.Valid symbols) {id : MessageId}
    {map : MapField} : mapModeOf symbols sel id map ≠ some .raw := by
  intro given
  rw [mapModeOf] at given
  split at given
  · rename_i explicit
    cases given
    exact valid.maps id map.number explicit
  split_ifs at given
  split at given
  · split_ifs at given with kept
    cases given
    exact kept rfl
  · cases given

theorem FieldModes.Valid.setField {out : FieldModes} (valid : out.Valid schema) {id : MessageId}
    {field : Field} (listed : field ∈ (schema.get id).fields) {given : Option FieldMode}
    (allowed : ∀ mode, given = some mode → field.Allows mode) :
    (out.setField id field given).Valid schema := by
  cases given with
  | none => exact valid
  | some mode =>
      refine ⟨fun id' field' listed' mode' found => ?_, valid.maps⟩
      rw [FieldModes.setField, ModeMap.lookup_insert] at found
      split at found
      · rename_i same
        obtain ⟨rfl, number⟩ := Prod.mk.inj same
        cases found
        rw [field_eq_of_number listed' listed number]
        exact allowed mode rfl
      · exact valid.fields id' field' listed' mode' found

theorem FieldModes.Valid.setMap {out : FieldModes} (valid : out.Valid schema) {id : MessageId}
    {map : MapField} {given : Option FieldMode} (allowed : given ≠ some .raw) :
    (out.setMap id map given).Valid schema := by
  cases given with
  | none => exact valid
  | some mode =>
      refine ⟨valid.fields, fun id' number found => ?_⟩
      rw [FieldModes.setMap, ModeMap.lookup_insert] at found
      split at found
      · exact allowed found
      · exact valid.maps id' number found

/-- One message keeps the modes valid. -/
theorem applyToMessage_valid {sel : Selection} (valid : sel.Valid symbols) {out : FieldModes}
    (partly : out.Valid schema) (id : MessageId) :
    (applyToMessage symbols sel out id).Valid schema := by
  have fields : ((schema.get id).fields.foldl
      (fun out field => out.setField id field (fieldModeOf symbols sel id field)) out).Valid
      schema :=
    List.foldlRecOn (schema.get id).fields _ partly fun out partly field listed =>
      partly.setField listed fun mode given => fieldModeOf_allows valid listed given
  exact List.foldlRecOn (schema.get id).maps _ fields fun out partly map _ =>
    partly.setMap (mapModeOf_ne_raw valid)

theorem applyUnknownEntry_valid {noted noted' : FieldModes × List Name} {entry : UnknownEntry}
    (valid : noted.1.Valid schema)
    (applied : applyUnknownEntry symbols noted entry = .ok noted') : noted'.1.Valid schema := by
  simp only [applyUnknownEntry] at applied
  split at applied
  · cases applied
  split at applied
  · split at applied
    · cases applied
      exact valid
    · cases applied
      exact ⟨valid.fields, valid.maps⟩
  split at applied
  · cases applied
  split at applied <;> cases applied

theorem unknowns_valid {unknowns : List UnknownEntry} {noted final : FieldModes × List Name}
    (valid : noted.1.Valid schema)
    (ran : unknowns.foldlM (applyUnknownEntry symbols) noted = .ok final) :
    final.1.Valid schema := by
  induction unknowns generalizing noted with
  | nil =>
      cases ran
      exact valid
  | cons entry unknowns ih =>
      rw [List.foldlM_cons] at ran
      cases applied : applyUnknownEntry symbols noted entry with
      | error error =>
          rw [applied] at ran
          cases ran
      | ok next =>
          rw [applied] at ran
          exact ih (applyUnknownEntry_valid valid applied) ran

/-- Inversion of a resolution that succeeds. -/
theorem resolveFieldModes_ok {spec : FieldModesSpec} {messages : List MessageId}
    {modes : FieldModes} :
    resolveFieldModes symbols spec messages = .ok modes ↔
      ∃ sel noted, spec.entries.foldlM (applyEntry symbols) {} = .ok sel ∧
        spec.unknowns.foldlM (applyUnknownEntry symbols)
          (messages.foldl (applyToMessage symbols sel) {}, []) = .ok noted ∧
        modes = if spec.unknownAll then
            { noted.1 with unknownMessages :=
              messages.foldl (fun flagged id => insert id flagged) noted.1.unknownMessages }.identify
                spec.profileName (sel.normalized ++ [unknownLine ['*']])
          else noted.1.identify spec.profileName (sel.normalized ++ noted.2) := by
  rw [resolveFieldModes]
  cases spec.entries.foldlM (applyEntry symbols) {} with
  | error error => simp [bind, Except.bind]
  | ok sel =>
      cases noting : spec.unknowns.foldlM (applyUnknownEntry symbols)
          (messages.foldl (applyToMessage symbols sel) {}, []) with
      | error error => simp [bind, Except.bind, noting]
      | ok noted =>
          obtain ⟨out, lines⟩ := noted
          cases spec.unknownAll <;> simp [bind, Except.bind, noting, eq_comm]

/-- A profile that resolves drops no required field and keeps only message-typed fields as bytes. -/
theorem resolveFieldModes_valid {spec : FieldModesSpec} {messages : List MessageId}
    {modes : FieldModes} (resolved : resolveFieldModes symbols spec messages = .ok modes) :
    modes.Valid schema := by
  obtain ⟨sel, noted, selected, noting, rfl⟩ := resolveFieldModes_ok.mp resolved
  have empty : ({} : Selection).Valid symbols := ⟨by simp, by simp, by simp⟩
  have valid := selection_valid empty selected
  have nothing : ({} : FieldModes).Valid schema := ⟨by simp, by simp⟩
  have fanned : (messages.foldl (applyToMessage symbols sel) {}).Valid schema :=
    List.foldlRecOn messages _ nothing
      fun out partly id _ => applyToMessage_valid valid partly id
  have last := unknowns_valid fanned noting
  split
  · exact ⟨by simpa using last.fields, by simpa using last.maps⟩
  · exact ⟨by simpa using last.fields, by simpa using last.maps⟩

end Valid

/-- The planner's mode of a field is one the field can have. -/
theorem FieldModes.Valid.mode_allows {schema : Schema} {modes : FieldModes}
    (valid : modes.Valid schema) {id : MessageId} {field : Field}
    (declared : field ∈ (schema.get id).fields) :
    field.Allows (modes.mode schema id field.number) := by
  have found := Message.member?_number (Message.plain_mem.mpr declared)
  rw [Member.number] at found
  simp only [FieldModes.mode, found]
  cases given : modes.fields.lookup (id, field.number) with
  | none => exact ⟨fun drop => (by cases drop), fun raw => by cases raw⟩
  | some mode => exact valid.fields id field declared mode given

end RapidProto
