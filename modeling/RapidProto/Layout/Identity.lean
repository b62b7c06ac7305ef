import Mathlib.Data.List.Lex
import Mathlib.Data.List.TakeWhile
import RapidProto.Assignment
import RapidProto.Layout.Symbols

/-!
# The identity of a profile

A profile is what its entries ask for, not how they are listed.  Its entries are requests that give
a name a mode, so the set of them decides whether the profile resolves and what it selects; the
canonical lines, sorted, are the same for every listing and determine the selection.  This needs
every message to be known under one name only, as it is in the symbol table of a file set.
-/

namespace RapidProto

/-- The symbol table belongs to the file set: it names messages of the set, none of them twice. -/
structure SymbolTable.Indexes {schema : Schema} (symbols : SymbolTable schema)
    (messages : List MessageId) : Prop where
  /-- A message has one name. -/
  unique : ∀ fqn fqn' id, symbols.messages fqn = some id → symbols.messages fqn' = some id →
    fqn = fqn'
  /-- The named messages are those of the set. -/
  listed : ∀ fqn id, symbols.messages fqn = some id → id ∈ messages

theorem FileSet.indexes {schema : Schema} (set : FileSet schema) :
    set.symbols.Indexes (forEachMessage set.files) where
  unique fqn fqn' id found found' := by
    have nodup := set.nodes
    rw [← set.table_eq] at nodup
    exact congrArg Prod.fst
      (eq_of_filterMap_nodup nodup (set.message_mem found) (set.message_mem found') rfl rfl)
  listed fqn id found := by
    have registered := set.message_mem found
    rw [set.table_eq] at registered
    exact mem_forEachMessage registered

/-! ## Names -/

/-- A dotted name is its parent, a dot and its leaf. -/
theorem parentName_append_leafName {fqn : Name} (dotted : '.' ∈ fqn) :
    parentName fqn ++ '.' :: leafName fqn = fqn := by
  have parts := @List.takeWhile_append_dropWhile _ (· ≠ '.') fqn.reverse
  cases behind : fqn.reverse.dropWhile (· ≠ '.') with
  | nil =>
      rw [behind, List.append_nil] at parts
      have inside : '.' ∈ fqn.reverse.takeWhile (· ≠ '.') := by
        rw [parts]
        exact List.mem_reverse.mpr dotted
      simpa using List.mem_takeWhile_imp inside
  | cons c rest =>
      obtain rfl : c = '.' := by
        have first := List.head?_dropWhile_not (· ≠ '.') fqn.reverse
        rw [behind] at first
        simpa using first
      rw [behind] at parts
      have whole : rest.reverse ++ '.' :: leafName fqn = fqn := by
        have turned := congrArg List.reverse parts
        rw [List.reverse_append, List.reverse_cons, List.reverse_reverse, List.append_assoc]
          at turned
        exact turned
      have size : fqn.length - (leafName fqn).length - 1 = rest.reverse.length := by
        have lengths := congrArg List.length whole
        simp only [List.length_append, List.length_cons] at lengths
        omega
      have parent : parentName fqn = rest.reverse := by
        rw [parentName, size]
        nth_rewrite 1 [← whole]
        exact List.take_left
      rw [parent]
      exact whole

theorem normalizeName_head (name : Name) : (normalizeName name).head? = some '.' := by
  rw [normalizeName]
  split
  · assumption
  · rfl

theorem normalizeName_dotted (name : Name) : '.' ∈ normalizeName name :=
  List.mem_of_head? (normalizeName_head name)

/-! ## Entries are requests -/

/-- What an entry is about. -/
inductive Target where
  | type (fqn : Name)
  | field (id : MessageId) (number : Nat)
  | map (id : MessageId) (number : Nat)
  deriving DecidableEq

/-- The mode given to a target. -/
def Selection.modeOf (sel : Selection) : Target → Option FieldMode
  | .type fqn => sel.typeModes fqn
  | .field id number => sel.fieldModes id number
  | .map id number => sel.mapModes id number

/-- Give a target its first mode. -/
def Selection.insert (sel : Selection) (target : Target) (entry : ModeEntry) : Selection :=
  let noted := sel.note entry.mode (normalizeName entry.name) entry.origin
  match target with
  | .type fqn => { noted with
      typeModes := fun other => if other = fqn then some entry.mode else sel.typeModes other }
  | .field id number => { noted with
      fieldModes := fun id' number' => if id' = id ∧ number' = number then some entry.mode
        else sel.fieldModes id' number' }
  | .map id number => { noted with
      mapModes := fun id' number' => if id' = id ∧ number' = number then some entry.mode
        else sel.mapModes id' number' }

section Requests

variable {schema : Schema} (symbols : SymbolTable schema)

/-- The name is a message or an enum. -/
def SymbolTable.isType (fqn : Name) : Bool := (symbols.messages fqn).isSome ∨ symbols.enums fqn

/-- The target of a name. -/
def targetOf (fqn : Name) : Option Target :=
  if symbols.isType fqn then some (.type fqn)
  else
    match findFieldByFqn symbols fqn with
    | .field id field => some (.field id field.number)
    | .map id map => some (.map id map.number)
    | .inOneof _ _ | .none => none

/-- The checks of an entry that do not depend on the other entries. -/
def ModeEntry.passes (entry : ModeEntry) : Bool :=
  let fqn := normalizeName entry.name
  entry.name ≠ [] ∧ entry.mode ≠ .materialize ∧ (targetOf symbols fqn).isSome ∧
    if symbols.isType fqn then ¬ (entry.mode = .raw ∧ (symbols.messages fqn).isNone)
    else fieldEntryError entry (findFieldByFqn symbols fqn) = none

/-- A mode is requested for a name, under any label. -/
def ModeListed (entries : List ModeEntry) (mode : FieldMode) (name : Name) : Prop :=
  ∃ origin, ⟨mode, name, origin⟩ ∈ entries

/-- The request an entry makes. -/
def ModeEntry.request (entry : ModeEntry) : Name × FieldMode :=
  (normalizeName entry.name, entry.mode)

variable {symbols}

theorem Selection.insert_modeOf (sel : Selection) (target other : Target) (entry : ModeEntry) :
    (sel.insert target entry).modeOf other =
      if other = target then some entry.mode else sel.modeOf other := by
  cases target <;> cases other <;> simp [Selection.insert, Selection.modeOf, Selection.note]

theorem Selection.insert_normalized (sel : Selection) (target : Target) (entry : ModeEntry) :
    (sel.insert target entry).normalized =
      sel.normalized ++ [selectionLine entry.mode (normalizeName entry.name)] := by
  cases target <;> rfl

/-- Give a target a mode, or repeat the one it has. -/
def Selection.Takes (sel sel' : Selection) (target : Target) (entry : ModeEntry) : Prop :=
  sel.modeOf target = some entry.mode ∧ sel' = sel ∨
    sel.modeOf target = none ∧ sel' = sel.insert target entry

theorem takes_iff {sel sel' : Selection} {target : Target} {entry : ModeEntry}
    {error : FieldMode → String} :
    (match sel.modeOf target with
      | some existing => if existing = entry.mode then .ok sel else .error (error existing)
      | none => .ok (sel.insert target entry)) = Except.ok sel' ↔
      sel.Takes sel' target entry := by
  rw [Selection.Takes]
  cases found : sel.modeOf target with
  | none => simp [eq_comm]
  | some existing =>
      by_cases same : existing = entry.mode <;> simp [same, eq_comm]

/-- `apply_entry`: an entry that passes its checks gives its target a mode, or repeats it. -/
theorem applyEntry_ok {sel sel' : Selection} {entry : ModeEntry} :
    applyEntry symbols sel entry = .ok sel' ↔
      entry.passes symbols ∧ ∃ target, targetOf symbols (normalizeName entry.name) = some target ∧
        sel.Takes sel' target entry := by
  by_cases named : entry.name = []
  · simp [applyEntry, ModeEntry.passes, named]
  by_cases default : entry.mode = .materialize
  · simp [applyEntry, ModeEntry.passes, default, named]
  simp only [applyEntry, if_neg named, if_neg default]
  by_cases type : symbols.isType (normalizeName entry.name) = true
  · have isType : (symbols.messages (normalizeName entry.name)).isSome = true ∨
        symbols.enums (normalizeName entry.name) = true := by
      simpa [SymbolTable.isType] using type
    have found : targetOf symbols (normalizeName entry.name) =
        some (.type (normalizeName entry.name)) := if_pos type
    rw [if_pos isType]
    by_cases enum : entry.mode = .raw ∧ (symbols.messages (normalizeName entry.name)).isNone = true
    · simp [ModeEntry.passes, type, enum]
    · have passes : entry.passes symbols = true := by
        rw [ModeEntry.passes, decide_eq_true_eq, if_pos type, found]
        exact ⟨named, default, rfl, enum⟩
      rw [if_neg enum, found, passes]
      simp only [true_and, Option.some.injEq, exists_eq_left']
      exact @takes_iff sel sel' (.type (normalizeName entry.name)) entry
        (conflict sel entry (normalizeName entry.name))
  · have isField : ¬ ((symbols.messages (normalizeName entry.name)).isSome = true ∨
        symbols.enums (normalizeName entry.name) = true) := by
      simpa [SymbolTable.isType] using type
    have passes : entry.passes symbols = true ↔
        (targetOf symbols (normalizeName entry.name)).isSome = true ∧
          fieldEntryError entry (findFieldByFqn symbols (normalizeName entry.name)) = none := by
      rw [ModeEntry.passes, decide_eq_true_eq, if_neg type]
      exact ⟨fun checks => checks.2.2, fun checks => ⟨named, default, checks⟩⟩
    rw [if_neg isField, passes, targetOf, if_neg type]
    cases refused : fieldEntryError entry (findFieldByFqn symbols (normalizeName entry.name)) with
    | some error => simp
    | none =>
        cases findFieldByFqn symbols (normalizeName entry.name) with
        | none => simp
        | inOneof id field => simp
        | field id field =>
            simp only [Option.isSome_some, true_and, Option.some.injEq, exists_eq_left']
            exact @takes_iff sel sel' (.field id field.number) entry
              (conflict sel entry (normalizeName entry.name))
        | map id map =>
            simp only [Option.isSome_some, true_and, Option.some.injEq, exists_eq_left']
            exact @takes_iff sel sel' (.map id map.number) entry
              (conflict sel entry (normalizeName entry.name))

/-- A field or map is found by the names of its message and its own. -/
def FieldHit.names (symbols : SymbolTable schema) (parent : MessageId) (name : Name) :
    FieldHit → Prop
  | .field id found => id = parent ∧ symbols.fieldName id found.number = name
  | .map id found => id = parent ∧ symbols.fieldName id found.number = name
  | .inOneof _ _ | .none => True

theorem findField_names (id : MessageId) (name : Name) :
    (findField symbols id name).names symbols id name := by
  rw [findField]
  dsimp only
  cases plain : (schema.get id).fields.find? fun field =>
      decide (symbols.fieldName id field.number = name) with
  | some field => exact ⟨rfl, by simpa using List.find?_some plain⟩
  | none =>
      cases mapped : (schema.get id).maps.find? fun map =>
          decide (symbols.fieldName id map.number = name) with
      | some map => exact ⟨rfl, by simpa using List.find?_some mapped⟩
      | none =>
          dsimp only
          split <;> trivial

theorem findFieldByFqn_names {fqn : Name} {hit : FieldHit} {id : MessageId} {number : Nat}
    (found : findFieldByFqn symbols fqn = hit)
    (named : (∃ field : Field, hit = .field id field ∧ field.number = number) ∨
      ∃ map : MapField, hit = .map id map ∧ map.number = number) :
    symbols.messages (parentName fqn) = some id ∧ symbols.fieldName id number = leafName fqn := by
  rw [findFieldByFqn] at found
  cases parent : symbols.messages (parentName fqn) with
  | none =>
      rw [parent] at found
      subst found
      rcases named with ⟨field, wrong, -⟩ | ⟨map, wrong, -⟩ <;> cases wrong
  | some owner =>
      rw [parent] at found
      have names := @findField_names _ symbols owner (leafName fqn)
      simp only [found] at names
      rcases named with ⟨field, rfl, rfl⟩ | ⟨map, rfl, rfl⟩
      · obtain ⟨rfl, name⟩ := names
        exact ⟨rfl, name⟩
      · obtain ⟨rfl, name⟩ := names
        exact ⟨rfl, name⟩

/-- A target of a field or map is reached by one dotted name. -/
theorem targetOf_parts {fqn : Name} {id : MessageId} {number : Nat}
    (found : targetOf symbols fqn = some (.field id number) ∨
      targetOf symbols fqn = some (.map id number)) :
    symbols.messages (parentName fqn) = some id ∧ symbols.fieldName id number = leafName fqn := by
  simp only [targetOf] at found
  split at found
  · simp at found
  cases hit : findFieldByFqn symbols fqn with
  | field owner field =>
      rw [hit] at found
      obtain ⟨rfl, rfl⟩ : owner = id ∧ field.number = number := by simpa using found
      exact findFieldByFqn_names hit (.inl ⟨field, rfl, rfl⟩)
  | map owner map =>
      rw [hit] at found
      obtain ⟨rfl, rfl⟩ : owner = id ∧ map.number = number := by simpa using found
      exact findFieldByFqn_names hit (.inr ⟨map, rfl, rfl⟩)
  | inOneof owner field => simp [hit] at found
  | none => simp [hit] at found

/-- Different names have different targets. -/
theorem targetOf_inj {messages : List MessageId} (indexed : symbols.Indexes messages)
    {fqn fqn' : Name} {target : Target} (dotted : '.' ∈ fqn) (dotted' : '.' ∈ fqn')
    (found : targetOf symbols fqn = some target) (found' : targetOf symbols fqn' = some target) :
    fqn = fqn' := by
  have parts : ∀ id number, (symbols.messages (parentName fqn) = some id ∧
      symbols.fieldName id number = leafName fqn) → (symbols.messages (parentName fqn') = some id ∧
      symbols.fieldName id number = leafName fqn') → fqn = fqn' := by
    rintro id number ⟨parent, leaf⟩ ⟨parent', leaf'⟩
    rw [← parentName_append_leafName dotted, ← parentName_append_leafName dotted',
      indexed.unique _ _ id parent parent', ← leaf, ← leaf']
  cases target with
  | type name =>
      have same : ∀ {fqn}, targetOf symbols fqn = some (.type name) → fqn = name := by
        intro fqn found
        rw [targetOf] at found
        split at found
        · simpa using found
        · split at found <;> simp at found
      rw [same found, same found']
  | field id number => exact parts id number (targetOf_parts (.inl found)) (targetOf_parts (.inl found'))
  | map id number => exact parts id number (targetOf_parts (.inr found)) (targetOf_parts (.inr found'))

end Requests

/-! ## The selection of a set of requests -/

/-- The line of a name that was given a mode. -/
def Assignment.line (given : Assignment Name FieldMode) (fqn : Name) : Name :=
  selectionLine ((given.value fqn).getD .materialize) fqn

/-- The selection is what the requests assign, split by level. -/
structure Selection.Reflects {schema : Schema} (symbols : SymbolTable schema) (sel : Selection)
    (given : Assignment Name FieldMode) : Prop where
  /-- The mode of a target is that of its name. -/
  modes : ∀ target mode, sel.modeOf target = some mode ↔
    ∃ fqn, '.' ∈ fqn ∧ targetOf symbols fqn = some target ∧ given.value fqn = some mode
  /-- The lines are those of the names. -/
  lines : sel.normalized = given.keys.map given.line

section Select

variable {schema : Schema} {symbols : SymbolTable schema} {messages : List MessageId}
  (indexed : symbols.Indexes messages)

theorem reflects_empty : ({} : Selection).Reflects symbols {} where
  modes target mode := by cases target <;> simp [Selection.modeOf]
  lines := rfl

include indexed

/-- The mode of a target is the one of the name at hand. -/
theorem Selection.Reflects.modeOf_eq {sel : Selection} {given : Assignment Name FieldMode}
    (reflects : sel.Reflects symbols given) {fqn : Name} {target : Target} (dotted : '.' ∈ fqn)
    (found : targetOf symbols fqn = some target) : sel.modeOf target = given.value fqn := by
  refine Option.ext fun mode => ?_
  rw [reflects.modes]
  constructor
  · rintro ⟨fqn', dotted', found', assigned⟩
    rwa [targetOf_inj indexed dotted dotted' found found']
  · intro assigned
    exact ⟨fqn, dotted, found, assigned⟩

/-- A first mode for a target is a first value for its name. -/
theorem Selection.Reflects.insert {sel : Selection} {given : Assignment Name FieldMode}
    {requests : List (Name × FieldMode)} (reflects : sel.Reflects symbols given)
    (holds : given.Holds requests) {entry : ModeEntry} {target : Target}
    (found : targetOf symbols (normalizeName entry.name) = some target)
    (free : given.value (normalizeName entry.name) = none) :
    (sel.insert target entry).Reflects symbols
      (given.insert (normalizeName entry.name) entry.mode) := by
  have dotted := normalizeName_dotted entry.name
  refine ⟨fun other mode => ?_, ?_⟩
  · rw [Selection.insert_modeOf]
    by_cases same : other = target
    · subst same
      rw [if_pos rfl]
      constructor
      · intro given
        exact ⟨_, dotted, found, by simpa [Assignment.insert] using given⟩
      · rintro ⟨fqn, dotted', found', assigned⟩
        obtain rfl := targetOf_inj indexed dotted dotted' found found'
        simpa [Assignment.insert] using assigned
    · rw [if_neg same, reflects.modes]
      refine exists_congr fun fqn => and_congr_right fun _ => and_congr_right fun found' => ?_
      have different : fqn ≠ normalizeName entry.name := by
        rintro rfl
        exact same (Option.some.inj (found'.symm.trans found))
      simp [Assignment.insert, different]
  · rw [Selection.insert_normalized, reflects.lines, Assignment.insert, List.map_append]
    congr 1
    · refine List.map_congr_left fun fqn listed => ?_
      have different : fqn ≠ normalizeName entry.name := by
        rintro rfl
        exact (holds.keys _).mp listed free
      simp [Assignment.line, different]
    · simp [Assignment.line]

/-- An entry is taken exactly when its request is. -/
theorem applyEntry_reflects {sel : Selection} {given : Assignment Name FieldMode}
    {requests : List (Name × FieldMode)} (reflects : sel.Reflects symbols given)
    (holds : given.Holds requests) (entry : ModeEntry) :
    (∀ sel', applyEntry symbols sel entry = .ok sel' → entry.passes symbols = true ∧
      ∃ next, given.assign entry.request = some next ∧ sel'.Reflects symbols next) ∧
    (∀ next, entry.passes symbols = true → given.assign entry.request = some next →
      ∃ sel', applyEntry symbols sel entry = .ok sel') := by
  have dotted := normalizeName_dotted entry.name
  constructor
  · intro sel' applied
    obtain ⟨passes, target, found, taken⟩ := applyEntry_ok.mp applied
    have same := reflects.modeOf_eq indexed dotted found
    refine ⟨passes, ?_⟩
    rcases taken with ⟨repeated, rfl⟩ | ⟨free, rfl⟩
    · refine ⟨given, ?_, reflects⟩
      rw [Assignment.assign, ModeEntry.request]
      simp [← same, repeated]
    · rw [same] at free
      refine ⟨_, ?_, reflects.insert indexed holds found free⟩
      rw [Assignment.assign, ModeEntry.request]
      simp [free]
  · intro next passes assigned
    obtain ⟨target, found⟩ : ∃ target, targetOf symbols (normalizeName entry.name) = some target := by
      rw [ModeEntry.passes, decide_eq_true_eq] at passes
      exact Option.isSome_iff_exists.mp passes.2.2.1
    have same := reflects.modeOf_eq indexed dotted found
    rw [Assignment.assign, ModeEntry.request] at assigned
    simp only [← same] at assigned
    cases mode : sel.modeOf target with
    | none => exact ⟨_, applyEntry_ok.mpr ⟨passes, target, found, .inr ⟨mode, rfl⟩⟩⟩
    | some existing =>
        simp only [mode] at assigned
        split_ifs at assigned with equal
        rw [equal] at mode
        exact ⟨_, applyEntry_ok.mpr ⟨passes, target, found, .inl ⟨mode, rfl⟩⟩⟩

/-- The entries of a profile are taken together exactly when each passes its checks and no two
disagree; the selection is then what they request. -/
theorem select_reflects {entries : List ModeEntry} {sel final : Selection}
    {given : Assignment Name FieldMode} {earlier : List (Name × FieldMode)}
    (reflects : sel.Reflects symbols given) (holds : given.Holds earlier)
    (ran : entries.foldlM (applyEntry symbols) sel = .ok final) :
    (∀ entry ∈ entries, entry.passes symbols = true) ∧
      ∃ next, (entries.map ModeEntry.request).foldlM Assignment.assign given = some next ∧
        final.Reflects symbols next := by
  induction entries generalizing sel given earlier with
  | nil =>
      cases ran
      exact ⟨by simp, given, rfl, reflects⟩
  | cons entry entries ih =>
      rw [List.foldlM_cons] at ran
      cases applied : applyEntry symbols sel entry with
      | error error => rw [applied] at ran; cases ran
      | ok sel' =>
          rw [applied] at ran
          obtain ⟨passes, next, assigned, reflects'⟩ :=
            (applyEntry_reflects indexed reflects holds entry).1 sel' applied
          obtain ⟨rest, last, assignedAll, reflected⟩ := ih reflects' (holds.assign assigned) ran
          refine ⟨List.forall_mem_cons.mpr ⟨passes, rest⟩, last, ?_, reflected⟩
          rw [List.map_cons, List.foldlM_cons, assigned]
          exact assignedAll

theorem select_of_assign {entries : List ModeEntry} {sel : Selection}
    {given next : Assignment Name FieldMode} {earlier : List (Name × FieldMode)}
    (reflects : sel.Reflects symbols given) (holds : given.Holds earlier)
    (passes : ∀ entry ∈ entries, entry.passes symbols = true)
    (assigned : (entries.map ModeEntry.request).foldlM Assignment.assign given = some next) :
    ∃ final, entries.foldlM (applyEntry symbols) sel = .ok final := by
  induction entries generalizing sel given earlier with
  | nil => exact ⟨sel, rfl⟩
  | cons entry entries ih =>
      obtain ⟨first, rest⟩ := List.forall_mem_cons.mp passes
      rw [List.map_cons, List.foldlM_cons] at assigned
      obtain ⟨middle, assignedFirst, later⟩ := Option.bind_eq_some_iff.mp assigned
      have taken := applyEntry_reflects indexed reflects holds entry
      obtain ⟨sel', applied⟩ := taken.2 middle first assignedFirst
      obtain ⟨-, middle', again, reflects'⟩ := taken.1 sel' applied
      rw [assignedFirst] at again
      cases again
      obtain ⟨final, ran⟩ := ih reflects' (holds.assign assignedFirst) rest later
      exact ⟨final, by rw [List.foldlM_cons, applied]; exact ran⟩

/-- What the entries of a profile request. -/
theorem select_holds {entries : List ModeEntry} {sel : Selection}
    (ran : entries.foldlM (applyEntry symbols) {} = .ok sel) :
    (∀ entry ∈ entries, entry.passes symbols = true) ∧
      ∃ given : Assignment Name FieldMode, given.Holds (entries.map ModeEntry.request) ∧
        sel.Reflects symbols given := by
  obtain ⟨passes, given, assigned, reflects⟩ :=
    select_reflects indexed reflects_empty Assignment.holds_nil ran
  exact ⟨passes, given, by simpa using Assignment.holds_nil.run assigned, reflects⟩

omit indexed in
/-- The label of an entry is not checked. -/
theorem ModeEntry.passes_label (entry : ModeEntry) (origin : String) :
    ModeEntry.passes symbols { entry with origin } = entry.passes symbols := by
  have refused : fieldEntryError { entry with origin } (findFieldByFqn symbols
      (normalizeName entry.name)) = none ↔
      fieldEntryError entry (findFieldByFqn symbols (normalizeName entry.name)) = none := by
    obtain ⟨mode, name, label⟩ := entry
    cases findFieldByFqn symbols (normalizeName name) with
    | inOneof id field => simp [fieldEntryError]
    | field id field =>
        obtain ⟨number, type, presence⟩ := field
        cases mode <;> cases type <;> simp [fieldEntryError]
    | map id map => simp [fieldEntryError]
    | none => simp [fieldEntryError]
  simp only [ModeEntry.passes, refused]

omit indexed in
/-- What entries request does not depend on their labels. -/
theorem mem_requests {entries entries' : List ModeEntry}
    (same : ∀ mode name, ModeListed entries mode name ↔ ModeListed entries' mode name)
    (request : Name × FieldMode) :
    request ∈ entries.map ModeEntry.request ↔ request ∈ entries'.map ModeEntry.request := by
  have one : ∀ {entries entries' : List ModeEntry},
      (∀ mode name, ModeListed entries mode name → ModeListed entries' mode name) →
      request ∈ entries.map ModeEntry.request → request ∈ entries'.map ModeEntry.request := by
    intro entries entries' same asked
    obtain ⟨⟨mode, name, origin⟩, listed, rfl⟩ := List.mem_map.mp asked
    obtain ⟨origin', listed'⟩ := same mode name ⟨origin, listed⟩
    exact List.mem_map.mpr ⟨_, listed', rfl⟩
  exact ⟨one fun mode name => (same mode name).mp, one fun mode name => (same mode name).mpr⟩

/-- The same modes of the same names, in any order and number, make the same selection. -/
theorem select_same {entries entries' : List ModeEntry}
    (same : ∀ mode name, ModeListed entries mode name ↔ ModeListed entries' mode name)
    {sel : Selection}
    (ran : entries.foldlM (applyEntry symbols) {} = .ok sel) :
    ∃ sel', entries'.foldlM (applyEntry symbols) {} = .ok sel' ∧ sel'.modeOf = sel.modeOf ∧
      sel'.normalized.Perm sel.normalized := by
  obtain ⟨passes, given, holds, reflects⟩ := select_holds indexed ran
  have requests : ∀ request, request ∈ entries.map ModeEntry.request ↔
      request ∈ entries'.map ModeEntry.request := mem_requests same
  have consistent : Assignment.Consistent ([] ++ entries'.map ModeEntry.request) := by
    intro key value value' asked asked'
    exact holds.consistent key value value' ((requests _).mpr asked) ((requests _).mpr asked')
  obtain ⟨next, assigned⟩ := Assignment.run_of_consistent Assignment.holds_nil consistent
  have passes' : ∀ entry ∈ entries', entry.passes symbols = true := by
    intro entry listed
    obtain ⟨origin, listed'⟩ := (same entry.mode entry.name).mpr ⟨entry.origin, listed⟩
    rw [← entry.passes_label origin]
    exact passes _ listed'
  obtain ⟨sel', ran'⟩ := select_of_assign indexed reflects_empty Assignment.holds_nil passes'
    assigned
  obtain ⟨-, given', holds', reflects'⟩ := select_holds indexed ran'
  obtain ⟨values, keys⟩ := holds'.same holds fun request => (requests request).symm
  refine ⟨sel', ran', ?_, ?_⟩
  · funext target
    refine Option.ext fun mode => ?_
    rw [reflects'.modes, reflects.modes, values]
  · rw [reflects'.lines, reflects.lines]
    have lines : given'.line = given.line := by
      funext fqn
      rw [Assignment.line, Assignment.line, values]
    rw [lines]
    exact keys.map _

end Select

/-! ## The unknown-fields entries -/

/-- The request an unknown-fields entry makes. -/
def UnknownEntry.request (entry : UnknownEntry) : Name × Unit := (normalizeName entry.name, ())

/-- The unknown-fields accessor is requested for a name, under any label. -/
def UnknownListed (entries : List UnknownEntry) (name : Name) : Prop :=
  ∃ origin, ⟨name, origin⟩ ∈ entries

/-- The entry names a message. -/
def UnknownEntry.passes {schema : Schema} (symbols : SymbolTable schema) (entry : UnknownEntry) :
    Bool :=
  entry.name ≠ [] ∧ (symbols.messages (normalizeName entry.name)).isSome

/-- The flagged messages are those whose names were requested. -/
structure Notes {schema : Schema} (symbols : SymbolTable schema) (base : FieldModes)
    (noted : FieldModes × List Name) (given : Assignment Name Unit) : Prop where
  /-- Nothing else changes. -/
  rest : noted.1 = { base with unknownMessages := noted.1.unknownMessages }
  /-- The messages. -/
  flagged : ∀ id, id ∈ noted.1.unknownMessages ↔
    ∃ fqn, symbols.messages fqn = some id ∧ given.value fqn = some ()
  /-- The lines are those of the names. -/
  lines : noted.2 = given.keys.map unknownLine

section Notes

variable {schema : Schema} {symbols : SymbolTable schema} {messages : List MessageId}
  (indexed : symbols.Indexes messages)

/-- `apply_unknown_entry`: a message is flagged, or was before. -/
theorem applyUnknownEntry_ok {noted noted' : FieldModes × List Name} {entry : UnknownEntry} :
    applyUnknownEntry symbols noted entry = .ok noted' ↔
      entry.passes symbols ∧ ∃ id, symbols.messages (normalizeName entry.name) = some id ∧
        noted' = if id ∈ noted.1.unknownMessages then noted
          else ({ noted.1 with unknownMessages := insert id noted.1.unknownMessages },
            noted.2 ++ [unknownLine (normalizeName entry.name)]) := by
  simp only [applyUnknownEntry, UnknownEntry.passes]
  by_cases named : entry.name = []
  · simp [named]
  rw [if_neg named]
  cases found : symbols.messages (normalizeName entry.name) with
  | none =>
      simp only [Option.isSome_none]
      split
      · simp
      · split <;> simp
  | some id =>
      by_cases flagged : id ∈ noted.1.unknownMessages <;> simp [flagged, named, eq_comm]

include indexed

theorem Notes.flagged_iff {base : FieldModes} {noted : FieldModes × List Name}
    {given : Assignment Name Unit} (notes : Notes symbols base noted given) {fqn : Name}
    {id : MessageId} (found : symbols.messages fqn = some id) :
    id ∈ noted.1.unknownMessages ↔ given.value fqn = some () := by
  rw [notes.flagged]
  constructor
  · rintro ⟨fqn', found', assigned⟩
    rwa [indexed.unique fqn fqn' id found found']
  · intro assigned
    exact ⟨fqn, found, assigned⟩

/-- Flagging a message is requesting its name. -/
theorem Notes.apply {base : FieldModes} {noted noted' : FieldModes × List Name}
    {given : Assignment Name Unit} (notes : Notes symbols base noted given) {entry : UnknownEntry}
    (applied : applyUnknownEntry symbols noted entry = .ok noted') :
    ∃ next, given.assign entry.request = some next ∧ Notes symbols base noted' next := by
  obtain ⟨-, id, found, rfl⟩ := applyUnknownEntry_ok.mp applied
  have flagged := notes.flagged_iff indexed found
  rw [Assignment.assign, UnknownEntry.request]
  cases assigned : given.value (normalizeName entry.name) with
  | some value =>
      rw [if_pos (flagged.mpr assigned)]
      exact ⟨given, by simp, notes⟩
  | none =>
      rw [if_neg (by simp [flagged, assigned])]
      refine ⟨_, rfl, ?_, fun other => ?_, ?_⟩
      · rw [notes.rest]
      · rw [Finset.mem_insert, notes.flagged]
        constructor
        · rintro (rfl | ⟨fqn, found', asked⟩)
          · exact ⟨_, found, by simp [Assignment.insert]⟩
          · refine ⟨fqn, found', ?_⟩
            simp only [Assignment.insert]
            split <;> simp [asked]
        · rintro ⟨fqn, found', asked⟩
          simp only [Assignment.insert] at asked
          split at asked
          · rename_i same
            rw [same, found] at found'
            exact .inl (Option.some.inj found').symm
          · exact .inr ⟨fqn, found', asked⟩
      · rw [notes.lines, Assignment.insert, List.map_append]
        rfl

theorem Notes.run {base : FieldModes} {unknowns : List UnknownEntry}
    {noted final : FieldModes × List Name} {given : Assignment Name Unit}
    {earlier : List (Name × Unit)} (notes : Notes symbols base noted given)
    (holds : given.Holds earlier)
    (ran : unknowns.foldlM (applyUnknownEntry symbols) noted = .ok final) :
    ∃ next : Assignment Name Unit, next.Holds (earlier ++ unknowns.map UnknownEntry.request) ∧
      Notes symbols base final next := by
  induction unknowns generalizing noted given earlier with
  | nil =>
      cases ran
      exact ⟨given, by simpa using holds, notes⟩
  | cons entry unknowns ih =>
      rw [List.foldlM_cons] at ran
      cases applied : applyUnknownEntry symbols noted entry with
      | error error => rw [applied] at ran; cases ran
      | ok next =>
          rw [applied] at ran
          obtain ⟨given', assigned, notes'⟩ := notes.apply indexed applied
          obtain ⟨last, holds', notes''⟩ := ih notes' (holds.assign assigned) ran
          exact ⟨last, by simpa using holds', notes''⟩

omit indexed in
theorem passes_of_unknowns {unknowns : List UnknownEntry} {noted final : FieldModes × List Name}
    (ran : unknowns.foldlM (applyUnknownEntry symbols) noted = .ok final) :
    ∀ entry ∈ unknowns, entry.passes symbols = true := by
  induction unknowns generalizing noted with
  | nil => simp
  | cons entry unknowns ih =>
      rw [List.foldlM_cons] at ran
      cases applied : applyUnknownEntry symbols noted entry with
      | error error => rw [applied] at ran; cases ran
      | ok next =>
          rw [applied] at ran
          exact List.forall_mem_cons.mpr ⟨(applyUnknownEntry_ok.mp applied).1, ih ran⟩

omit indexed in
/-- What unknown-fields entries request does not depend on their labels. -/
theorem mem_unknownRequests {entries entries' : List UnknownEntry}
    (same : ∀ name, UnknownListed entries name ↔ UnknownListed entries' name)
    (request : Name × Unit) :
    request ∈ entries.map UnknownEntry.request ↔ request ∈ entries'.map UnknownEntry.request := by
  have one : ∀ {entries entries' : List UnknownEntry},
      (∀ name, UnknownListed entries name → UnknownListed entries' name) →
      request ∈ entries.map UnknownEntry.request →
      request ∈ entries'.map UnknownEntry.request := by
    intro entries entries' same asked
    obtain ⟨⟨name, origin⟩, listed, rfl⟩ := List.mem_map.mp asked
    obtain ⟨origin', listed'⟩ := same name ⟨origin, listed⟩
    exact List.mem_map.mpr ⟨_, listed', rfl⟩
  exact ⟨one fun name => (same name).mp, one fun name => (same name).mpr⟩

omit indexed in
/-- Entries that name messages are all taken. -/
theorem unknowns_of_passes {unknowns : List UnknownEntry}
    (passes : ∀ entry ∈ unknowns, entry.passes symbols = true) (noted : FieldModes × List Name) :
    ∃ final, unknowns.foldlM (applyUnknownEntry symbols) noted = .ok final := by
  induction unknowns generalizing noted with
  | nil => exact ⟨noted, rfl⟩
  | cons entry unknowns ih =>
      obtain ⟨first, rest⟩ := List.forall_mem_cons.mp passes
      have named := first
      rw [UnknownEntry.passes, decide_eq_true_eq] at named
      obtain ⟨id, found⟩ := Option.isSome_iff_exists.mp named.2
      have applied := applyUnknownEntry_ok.mpr ⟨first, id, found, @rfl _ (ite _ noted _)⟩
      obtain ⟨final, ran⟩ := ih rest _
      exact ⟨final, by rw [List.foldlM_cons, applied]; exact ran⟩

end Notes

/-! ## The resolved profile -/

/-- Lines sort alike in any order. -/
theorem insertionSort_perm {lines lines' : List Name} (same : lines.Perm lines') :
    lines.insertionSort (· ≤ ·) = lines'.insertionSort (· ≤ ·) := by
  refine List.Perm.eq_of_pairwise' (List.pairwise_insertionSort (· ≤ ·) lines)
    (List.pairwise_insertionSort (· ≤ ·) lines') ?_
  exact (List.perm_insertionSort _ lines).trans (same.trans (List.perm_insertionSort _ lines').symm)

/-- The lines of a profile before sorting. -/
def profileLines (spec : FieldModesSpec) (sel : Selection) (asked : Assignment Name Unit) :
    List Name :=
  sel.normalized ++ if spec.unknownAll then [unknownLine ['*']] else asked.keys.map unknownLine

/-- The parts of a resolved profile. -/
structure Resolution {schema : Schema} (symbols : SymbolTable schema) (spec : FieldModesSpec)
    (messages : List MessageId) (modes : FieldModes) (sel : Selection)
    (given : Assignment Name FieldMode) (asked : Assignment Name Unit) : Prop where
  /-- The requests of the mode entries. -/
  holds : given.Holds (spec.entries.map ModeEntry.request)
  /-- The selection is what they assign. -/
  reflects : sel.Reflects symbols given
  /-- The requests of the unknown-fields entries. -/
  asks : asked.Holds (spec.unknowns.map UnknownEntry.request)
  /-- The modes of plain fields. -/
  fields : modes.fields = (messages.foldl (applyToMessage symbols sel) {}).fields
  /-- The modes of maps. -/
  maps : modes.maps = (messages.foldl (applyToMessage symbols sel) {}).maps
  /-- The flagged messages. -/
  flagged : ∀ id, id ∈ modes.unknownMessages ↔ spec.unknownAll = true ∧ id ∈ messages ∨
    ∃ fqn, symbols.messages fqn = some id ∧ asked.value fqn = some ()
  /-- The sorted lines. -/
  normalized : modes.normalized =
    if modes.active then (profileLines spec sel asked).insertionSort (· ≤ ·) else []
  /-- The identity. -/
  profileId : modes.profileId = if modes.active then
    RapidProto.profileId spec.profileName ((profileLines spec sel asked).insertionSort (· ≤ ·))
    else []

section Resolution

variable {schema : Schema} {symbols : SymbolTable schema} {messages : List MessageId}

theorem setField_rest (out : FieldModes) (id : MessageId) (field : Field) (mode : Option FieldMode) :
    (out.setField id field mode).unknownMessages = out.unknownMessages ∧
      (out.setField id field mode).normalized = out.normalized ∧
      (out.setField id field mode).profileId = out.profileId := by
  cases mode <;> exact ⟨rfl, rfl, rfl⟩

theorem setMap_rest (out : FieldModes) (id : MessageId) (map : MapField) (mode : Option FieldMode) :
    (out.setMap id map mode).unknownMessages = out.unknownMessages ∧
      (out.setMap id map mode).normalized = out.normalized ∧
      (out.setMap id map mode).profileId = out.profileId := by
  cases mode <;> exact ⟨rfl, rfl, rfl⟩

/-- Only the modes are set before the unknown-fields entries. -/
def FieldModes.Plain (out : FieldModes) : Prop :=
  out.unknownMessages = ∅ ∧ out.normalized = [] ∧ out.profileId = []

theorem applyToMessage_plain (sel : Selection) {out : FieldModes} (plain : out.Plain)
    (id : MessageId) : (applyToMessage symbols sel out id).Plain := by
  refine List.foldlRecOn (schema.get id).maps _ ?_ fun out plain map _ => ?_
  · refine List.foldlRecOn (schema.get id).fields _ plain fun out plain field _ => ?_
    obtain ⟨unknown, lines, name⟩ :=
      setField_rest out id field (fieldModeOf symbols sel id field)
    exact ⟨unknown.trans plain.1, lines.trans plain.2.1, name.trans plain.2.2⟩
  · obtain ⟨unknown, lines, name⟩ := setMap_rest out id map (mapModeOf symbols sel id map)
    exact ⟨unknown.trans plain.1, lines.trans plain.2.1, name.trans plain.2.2⟩

theorem mem_foldl_insert {id : MessageId} {flagged : Finset MessageId} :
    id ∈ messages.foldl (fun flagged id => insert id flagged) flagged ↔
      id ∈ messages ∨ id ∈ flagged := by
  induction messages generalizing flagged with
  | nil => simp
  | cons first messages ih =>
      rw [List.foldl_cons, ih, Finset.mem_insert, List.mem_cons]
      tauto

theorem identify_normalized {out : FieldModes} (plain : out.normalized = [])
    (profileName : Name) (lines : List Name) :
    (out.identify profileName lines).normalized =
      if (out.identify profileName lines).active then lines.insertionSort (· ≤ ·) else [] := by
  simp only [FieldModes.active, FieldModes.identify_fields, FieldModes.identify_maps,
    FieldModes.identify_unknownMessages]
  rw [FieldModes.identify, FieldModes.active]
  split
  · rfl
  · exact plain

theorem identify_profileId {out : FieldModes} (plain : out.profileId = [])
    (profileName : Name) (lines : List Name) :
    (out.identify profileName lines).profileId =
      if (out.identify profileName lines).active then
        RapidProto.profileId profileName (lines.insertionSort (· ≤ ·)) else [] := by
  simp only [FieldModes.active, FieldModes.identify_fields, FieldModes.identify_maps,
    FieldModes.identify_unknownMessages]
  rw [FieldModes.identify, FieldModes.active]
  split
  · rfl
  · exact plain

/-- A profile that resolves is made of the requests of its entries. -/
theorem resolution_of_resolve (indexed : symbols.Indexes messages) {spec : FieldModesSpec}
    {modes : FieldModes} (resolved : resolveFieldModes symbols spec messages = .ok modes) :
    ∃ sel given asked, Resolution symbols spec messages modes sel given asked := by
  obtain ⟨sel, noted, ran, noting, whole⟩ := resolveFieldModes_ok.mp resolved
  obtain ⟨-, given, holds, reflects⟩ := select_holds indexed ran
  have plain : (messages.foldl (applyToMessage symbols sel) {}).Plain :=
    List.foldlRecOn messages _ ⟨rfl, rfl, rfl⟩ fun out plain id _ =>
      applyToMessage_plain sel plain id
  have fresh : Notes symbols (messages.foldl (applyToMessage symbols sel) {})
      (messages.foldl (applyToMessage symbols sel) {}, []) {} :=
    ⟨rfl, by simp [plain.1], rfl⟩
  obtain ⟨asked, asks, notes⟩ := fresh.run indexed Assignment.holds_nil noting
  have fields := congrArg FieldModes.fields notes.rest
  have maps := congrArg FieldModes.maps notes.rest
  have lines := (congrArg FieldModes.normalized notes.rest).trans plain.2.1
  have name := (congrArg FieldModes.profileId notes.rest).trans plain.2.2
  have asks : asked.Holds (spec.unknowns.map UnknownEntry.request) := by simpa using asks
  cases all : spec.unknownAll with
  | true =>
      rw [all, if_pos rfl] at whole
      have sum : profileLines spec sel asked = sel.normalized ++ [unknownLine ['*']] := by
        rw [profileLines, all, if_pos rfl]
      refine ⟨sel, given, asked, holds, reflects, asks, ?_, ?_, fun id => ?_, ?_, ?_⟩
      · rw [whole, FieldModes.identify_fields, fields]
      · rw [whole, FieldModes.identify_maps, maps]
      · rw [whole, FieldModes.identify_unknownMessages, mem_foldl_insert, notes.flagged, all]
        simp
      · rw [sum, whole]
        refine identify_normalized ?_ _ _
        exact lines
      · rw [sum, whole]
        refine identify_profileId ?_ _ _
        exact name
  | false =>
      rw [all, if_neg Bool.false_ne_true] at whole
      have sum : profileLines spec sel asked = sel.normalized ++ noted.2 := by
        rw [profileLines, all, if_neg Bool.false_ne_true, notes.lines]
      refine ⟨sel, given, asked, holds, reflects, asks, ?_, ?_, fun id => ?_, ?_, ?_⟩
      · rw [whole, FieldModes.identify_fields, fields]
      · rw [whole, FieldModes.identify_maps, maps]
      · rw [whole, FieldModes.identify_unknownMessages, notes.flagged, all]
        simp
      · rw [sum, whole]
        exact identify_normalized lines _ _
      · rw [sum, whole]
        exact identify_profileId name _ _

/-- The modes of the fields depend on what the selection gives its targets. -/
theorem applyToMessage_congr {sel sel' : Selection} (same : sel.modeOf = sel'.modeOf) :
    applyToMessage symbols sel = applyToMessage symbols sel' := by
  have types : sel.typeModes = sel'.typeModes := funext fun fqn => congrFun same (.type fqn)
  have fields : sel.fieldModes = sel'.fieldModes :=
    funext fun id => funext fun number => congrFun same (.field id number)
  have maps : sel.mapModes = sel'.mapModes :=
    funext fun id => funext fun number => congrFun same (.map id number)
  have plain : fieldModeOf symbols sel = fieldModeOf symbols sel' := by
    funext id field
    rw [fieldModeOf, fieldModeOf, types, fields]
  have mapped : mapModeOf symbols sel = mapModeOf symbols sel' := by
    funext id map
    rw [mapModeOf, mapModeOf, types, maps]
  funext out id
  rw [applyToMessage, applyToMessage, plain, mapped]

theorem modeOf_congr {sel sel' : Selection} {given given' : Assignment Name FieldMode}
    (reflects : sel.Reflects symbols given) (reflects' : sel'.Reflects symbols given')
    (same : given.value = given'.value) : sel.modeOf = sel'.modeOf := by
  funext target
  refine Option.ext fun mode => ?_
  rw [reflects.modes, reflects'.modes, same]

end Resolution

/-- The same profile, its entries listed in any order and any number of times, and labelled in any
way. -/
structure FieldModesSpec.SameEntries (spec spec' : FieldModesSpec) : Prop where
  /-- The mode entries. -/
  entries : ∀ mode name, ModeListed spec.entries mode name ↔ ModeListed spec'.entries mode name
  /-- The unknown-fields entries. -/
  unknowns : ∀ name, UnknownListed spec.unknowns name ↔ UnknownListed spec'.unknowns name
  /-- The global flag. -/
  unknownAll : spec.unknownAll = spec'.unknownAll
  /-- The name. -/
  profileName : spec.profileName = spec'.profileName

theorem FieldModesSpec.SameEntries.symm {spec spec' : FieldModesSpec}
    (same : spec.SameEntries spec') : spec'.SameEntries spec :=
  ⟨fun mode name => (same.entries mode name).symm, fun name => (same.unknowns name).symm,
    same.unknownAll.symm, same.profileName.symm⟩

section Insensitive

variable {schema : Schema} {symbols : SymbolTable schema} {messages : List MessageId}
  (indexed : symbols.Indexes messages)

theorem FieldModes.eq_of {modes modes' : FieldModes} (fields : modes.fields = modes'.fields)
    (maps : modes.maps = modes'.maps) (unknown : modes.unknownMessages = modes'.unknownMessages)
    (id : modes.profileId = modes'.profileId) (lines : modes.normalized = modes'.normalized) :
    modes = modes' := by
  cases modes
  cases modes'
  simp_all

/-- The same entries resolve to the same profile. -/
theorem Resolution.eq_of_same {spec spec' : FieldModesSpec} {modes modes' : FieldModes}
    {sel sel' : Selection} {given given' : Assignment Name FieldMode}
    {asked asked' : Assignment Name Unit}
    (parts : Resolution symbols spec messages modes sel given asked)
    (parts' : Resolution symbols spec' messages modes' sel' given' asked')
    (same : spec.SameEntries spec') : modes = modes' := by
  obtain ⟨values, keys⟩ := parts.holds.same parts'.holds (mem_requests same.entries)
  obtain ⟨names, askedKeys⟩ := parts.asks.same parts'.asks (mem_unknownRequests same.unknowns)
  have targets := @applyToMessage_congr _ symbols _ _
    (modeOf_congr parts.reflects parts'.reflects values)
  have fields : modes.fields = modes'.fields := by rw [parts.fields, parts'.fields, targets]
  have maps : modes.maps = modes'.maps := by rw [parts.maps, parts'.maps, targets]
  have unknown : modes.unknownMessages = modes'.unknownMessages := by
    ext id
    rw [parts.flagged, parts'.flagged, same.unknownAll, names]
  have active : modes.active = modes'.active := by
    rw [FieldModes.active, FieldModes.active, fields, maps, unknown]
  have lines : (profileLines spec sel asked).Perm (profileLines spec' sel' asked') := by
    rw [profileLines, profileLines, parts.reflects.lines, parts'.reflects.lines, same.unknownAll]
    apply List.Perm.append
    · have line : given.line = given'.line := by
        funext fqn
        rw [Assignment.line, Assignment.line, values]
      rw [line]
      exact keys.map _
    · split
      · rfl
      · exact askedKeys.map _
  refine FieldModes.eq_of fields maps unknown ?_ ?_
  · rw [parts.profileId, parts'.profileId, active, insertionSort_perm lines, same.profileName]
  · rw [parts.normalized, parts'.normalized, active, insertionSort_perm lines]

include indexed

/-- A profile that resolves does so however its entries are listed. -/
theorem resolve_same {spec spec' : FieldModesSpec} (same : spec.SameEntries spec')
    {modes : FieldModes} (resolved : resolveFieldModes symbols spec messages = .ok modes) :
    resolveFieldModes symbols spec' messages = .ok modes := by
  obtain ⟨sel, given, asked, parts⟩ := resolution_of_resolve indexed resolved
  obtain ⟨sel₀, noted, ran, noting, -⟩ := resolveFieldModes_ok.mp resolved
  obtain ⟨sel', ran', -⟩ := select_same indexed same.entries ran
  have passes : ∀ entry ∈ spec'.unknowns, entry.passes symbols = true := by
    intro entry listed
    obtain ⟨origin, listed'⟩ := (same.unknowns entry.name).mpr ⟨entry.origin, listed⟩
    have passed := passes_of_unknowns noting _ listed'
    exact passed
  obtain ⟨noted', noting'⟩ := unknowns_of_passes passes
    (messages.foldl (applyToMessage symbols sel') {}, [])
  obtain ⟨modes', resolved'⟩ : ∃ modes', resolveFieldModes symbols spec' messages = .ok modes' :=
    ⟨_, resolveFieldModes_ok.mpr ⟨sel', noted', ran', noting', rfl⟩⟩
  obtain ⟨_, _, _, parts'⟩ := resolution_of_resolve indexed resolved'
  rw [resolved', parts.eq_of_same parts' same]

end Insensitive

/-! ## Lines determine the selection -/

/-- The first letter of a mode's word. -/
def modeLetter : FieldMode → Char
  | .raw => 'r'
  | .drop => 'd'
  | .materialize => 'm'

theorem selectionLine_head (mode : FieldMode) (fqn : Name) :
    (selectionLine mode fqn).head? = some (modeLetter mode) := by
  cases mode <;> rfl

theorem unknownLine_head (fqn : Name) : (unknownLine fqn).head? = some 'u' := rfl

theorem modeLetter_inj : ∀ mode mode', modeLetter mode = modeLetter mode' → mode = mode' := by
  intro mode mode' same
  cases mode <;> cases mode' <;> first | rfl | exact absurd same (by decide)

theorem selectionLine_inj {mode mode' : FieldMode} {fqn fqn' : Name}
    (same : selectionLine mode fqn = selectionLine mode' fqn') : mode = mode' ∧ fqn = fqn' := by
  have heads := congrArg List.head? same
  rw [selectionLine_head, selectionLine_head] at heads
  obtain rfl := modeLetter_inj mode mode' (Option.some.inj heads)
  exact ⟨rfl, (List.cons.inj (List.append_cancel_left same)).2⟩

theorem unknownLine_ne_selectionLine (fqn fqn' : Name) (mode : FieldMode) :
    unknownLine fqn ≠ selectionLine mode fqn' := by
  intro same
  have heads := congrArg List.head? same
  rw [unknownLine_head, selectionLine_head] at heads
  cases mode <;> exact absurd (Option.some.inj heads) (by decide)

theorem unknownLine_inj {fqn fqn' : Name} (same : unknownLine fqn = unknownLine fqn') :
    fqn = fqn' :=
  List.append_cancel_left same

section Lines

variable {schema : Schema} {symbols : SymbolTable schema} {messages : List MessageId}
  {spec spec' : FieldModesSpec} {modes modes' : FieldModes} {sel sel' : Selection}
  {given given' : Assignment Name FieldMode} {asked asked' : Assignment Name Unit}

/-- A name has a mode exactly when its line is there. -/
theorem Resolution.selectionLine_mem (parts : Resolution symbols spec messages modes sel given asked)
    (fqn : Name) (mode : FieldMode) :
    selectionLine mode fqn ∈ profileLines spec sel asked ↔ given.value fqn = some mode := by
  have unknown : selectionLine mode fqn ∉
      if spec.unknownAll then [unknownLine ['*']] else asked.keys.map unknownLine := by
    split
    · simpa using (unknownLine_ne_selectionLine ['*'] fqn mode).symm
    · intro listed
      obtain ⟨fqn', -, same⟩ := List.mem_map.mp listed
      exact unknownLine_ne_selectionLine fqn' fqn mode same
  rw [profileLines, List.mem_append, or_iff_left unknown, parts.reflects.lines, List.mem_map]
  constructor
  · rintro ⟨fqn', listed, same⟩
    obtain ⟨mode', assigned⟩ := Option.ne_none_iff_exists'.mp ((parts.holds.keys fqn').mp listed)
    rw [Assignment.line, assigned] at same
    obtain ⟨rfl, rfl⟩ := selectionLine_inj same
    exact assigned
  · intro assigned
    exact ⟨fqn, (parts.holds.keys fqn).mpr (by simp [assigned]), by
      rw [Assignment.line, assigned]; rfl⟩

/-- The global line is there exactly when the global flag is set. -/
theorem Resolution.star_mem (parts : Resolution symbols spec messages modes sel given asked) :
    unknownLine ['*'] ∈ profileLines spec sel asked ↔ spec.unknownAll = true := by
  have selected : unknownLine ['*'] ∉ sel.normalized := by
    rw [parts.reflects.lines]
    intro listed
    obtain ⟨fqn, -, same⟩ := List.mem_map.mp listed
    exact unknownLine_ne_selectionLine ['*'] fqn _ same.symm
  rw [profileLines, List.mem_append, or_iff_right selected]
  cases all : spec.unknownAll with
  | true => simp
  | false =>
      simp only [Bool.false_eq_true, if_false, iff_false]
      intro listed
      obtain ⟨fqn, key, same⟩ := List.mem_map.mp listed
      obtain ⟨value, assigned⟩ := Option.ne_none_iff_exists'.mp ((parts.asks.keys fqn).mp key)
      obtain ⟨entry, -, request⟩ := List.mem_map.mp ((parts.asks.value fqn value).mp assigned)
      have head := normalizeName_head entry.name
      rw [show normalizeName entry.name = fqn from congrArg Prod.fst request,
        unknownLine_inj same] at head
      simp at head

/-- Without the global flag, a message is flagged exactly when its line is there. -/
theorem Resolution.unknownLine_mem (parts : Resolution symbols spec messages modes sel given asked)
    (some? : spec.unknownAll = false) (fqn : Name) :
    unknownLine fqn ∈ profileLines spec sel asked ↔ asked.value fqn = some () := by
  have selected : unknownLine fqn ∉ sel.normalized := by
    rw [parts.reflects.lines]
    intro listed
    obtain ⟨fqn', -, same⟩ := List.mem_map.mp listed
    exact unknownLine_ne_selectionLine fqn fqn' _ same.symm
  rw [profileLines, List.mem_append, or_iff_right selected, some?, if_neg Bool.false_ne_true,
    List.mem_map]
  constructor
  · rintro ⟨fqn', listed, same⟩
    obtain ⟨value, assigned⟩ := Option.ne_none_iff_exists'.mp ((parts.asks.keys fqn').mp listed)
    rw [unknownLine_inj same] at assigned
    exact assigned
  · intro assigned
    exact ⟨fqn, (parts.asks.keys fqn).mpr (by simp [assigned]), rfl⟩

/-- Two profiles select the same. -/
structure FieldModes.SelectsSame (modes modes' : FieldModes) : Prop where
  /-- The modes of plain fields. -/
  fields : modes.fields = modes'.fields
  /-- The modes of maps. -/
  maps : modes.maps = modes'.maps
  /-- The flagged messages. -/
  unknownMessages : modes.unknownMessages = modes'.unknownMessages

/-- The same lines, whatever their order, come from the same selection. -/
theorem Resolution.selectsSame (indexed : symbols.Indexes messages)
    (parts : Resolution symbols spec messages modes sel given asked)
    (parts' : Resolution symbols spec' messages modes' sel' given' asked')
    (same : ∀ line, line ∈ profileLines spec sel asked ↔ line ∈ profileLines spec' sel' asked') :
    modes.SelectsSame modes' := by
  have values : given.value = given'.value := by
    funext fqn
    refine Option.ext fun mode => ?_
    rw [← parts.selectionLine_mem, ← parts'.selectionLine_mem, same]
  have targets := @applyToMessage_congr _ symbols _ _
    (modeOf_congr parts.reflects parts'.reflects values)
  have all : spec.unknownAll = spec'.unknownAll := by
    rw [Bool.eq_iff_iff, ← parts.star_mem, ← parts'.star_mem, same]
  refine ⟨by rw [parts.fields, parts'.fields, targets], by rw [parts.maps, parts'.maps, targets], ?_⟩
  ext id
  rw [parts.flagged, parts'.flagged, ← all]
  cases every : spec.unknownAll with
  | true =>
      have inSet : ∀ asked : Assignment Name Unit,
          (∃ fqn, symbols.messages fqn = some id ∧ asked.value fqn = some ()) → id ∈ messages := by
        rintro asked ⟨fqn, found, -⟩
        exact indexed.listed fqn id found
      simp only [true_and]
      rw [or_iff_left_of_imp (inSet asked), or_iff_left_of_imp (inSet asked')]
  | false =>
      refine or_congr Iff.rfl (exists_congr fun fqn => and_congr_right fun _ => ?_)
      rw [← parts.unknownLine_mem every, ← parts'.unknownLine_mem (all ▸ every), same]

/-- A selection of nothing changes nothing. -/
theorem applyToMessage_empty (out : FieldModes) (id : MessageId) :
    applyToMessage symbols {} out id = out := by
  have plain : ∀ id field, fieldModeOf symbols {} id field = none := by
    intro id field
    simp [fieldModeOf]
  have mapped : ∀ id map, mapModeOf symbols {} id map = none := by
    intro id map
    simp [mapModeOf]
  simp only [applyToMessage, plain, mapped, FieldModes.setField, FieldModes.setMap]
  simp

/-- The profile without entries. -/
theorem resolution_empty : Resolution symbols {} messages {} {} {} {} := by
  have nothing : messages.foldl (applyToMessage symbols {}) {} = {} := by
    rw [show applyToMessage symbols {} = fun out _ => out from
      funext fun out => funext fun id => applyToMessage_empty out id]
    simp
  refine ⟨Assignment.holds_nil, reflects_empty, Assignment.holds_nil, ?_, ?_, ?_, rfl, rfl⟩
  · rw [nothing]
  · rw [nothing]
  · simp

theorem FieldModes.SelectsSame.active (same : modes.SelectsSame modes') :
    modes.active = modes'.active := by
  rw [FieldModes.active, FieldModes.active, same.fields, same.maps, same.unknownMessages]

/-- An inactive profile selects nothing. -/
theorem FieldModes.selectsSame_empty (inactive : modes.active = false) : modes.SelectsSame {} := by
  simp only [FieldModes.active, decide_eq_false_iff_not, not_or, not_not] at inactive
  exact ⟨inactive.1, inactive.2.1, inactive.2.2⟩

/-- A profile without lines is inactive. -/
theorem Resolution.inactive (indexed : symbols.Indexes messages)
    (parts : Resolution symbols spec messages modes sel given asked)
    (empty : modes.normalized = []) : modes.active = false := by
  cases active : modes.active with
  | false => rfl
  | true =>
      have lines := parts.normalized
      rw [empty, active, if_pos rfl] at lines
      have noLine : ∀ line, line ∈ profileLines spec sel asked ↔
          line ∈ profileLines {} {} {} := by
        intro line
        rw [← List.mem_insertionSort (· ≤ ·), ← lines]
        exact Iff.rfl
      exact active.symm.trans (parts.selectsSame indexed resolution_empty noLine).active

/-- Profiles with the same sorted lines select the same. -/
theorem Resolution.selectsSame_of_normalized (indexed : symbols.Indexes messages)
    (parts : Resolution symbols spec messages modes sel given asked)
    (parts' : Resolution symbols spec' messages modes' sel' given' asked')
    (same : modes.normalized = modes'.normalized) : modes.SelectsSame modes' := by
  cases active : modes.active with
  | false =>
      have empty : modes'.normalized = [] := by
        rw [← same, parts.normalized, active, if_neg Bool.false_ne_true]
      have selects := FieldModes.selectsSame_empty active
      have none' := FieldModes.selectsSame_empty (parts'.inactive indexed empty)
      exact ⟨selects.fields.trans none'.fields.symm, selects.maps.trans none'.maps.symm,
        selects.unknownMessages.trans none'.unknownMessages.symm⟩
  | true =>
      have active' : modes'.active = true := by
        by_contra inactive
        have empty : modes.normalized = [] := by
          rw [same, parts'.normalized, if_neg inactive]
        rw [parts.inactive indexed empty] at active
        cases active
      refine parts.selectsSame indexed parts' fun line => ?_
      rw [parts.normalized, parts'.normalized, active, active', if_pos rfl, if_pos rfl] at same
      rw [← List.mem_insertionSort (· ≤ ·), same, List.mem_insertionSort]

end Lines

/-! ## Where modes come from -/

/-- What every step keeps and one step makes holds after all steps. -/
theorem foldl_reaches {α β : Type} (holds : β → Prop) {step : β → α → β} {items : List α} {item : α}
    (listed : item ∈ items) (makes : ∀ state, holds (step state item))
    (keeps : ∀ state other, holds state → holds (step state other)) (start : β) :
    holds (items.foldl step start) := by
  induction items generalizing start with
  | nil => cases listed
  | cons first items ih =>
      rw [List.foldl_cons]
      rcases List.mem_cons.mp listed with rfl | later
      · exact List.foldlRecOn items step (makes start) fun state held other _ =>
          keeps state other held
      · exact ih later (step start first)

section Origins

variable {schema : Schema} {symbols : SymbolTable schema} {messages : List MessageId}

/-- The modes set so far are those the selection gives. -/
structure FieldModes.From (symbols : SymbolTable schema) (sel : Selection) (out : FieldModes) :
    Prop where
  /-- Modes of plain fields. -/
  fields : ∀ id number mode, out.fields.lookup (id, number) = some mode →
    ∃ field ∈ (schema.get id).fields, field.number = number ∧
      fieldModeOf symbols sel id field = some mode
  /-- Modes of maps. -/
  maps : ∀ id number mode, out.maps.lookup (id, number) = some mode →
    ∃ map ∈ (schema.get id).maps, map.number = number ∧ mapModeOf symbols sel id map = some mode

theorem FieldModes.From.setField {sel : Selection} {out : FieldModes} (origin : out.From symbols sel)
    {id : MessageId} {field : Field} (listed : field ∈ (schema.get id).fields) :
    (out.setField id field (fieldModeOf symbols sel id field)).From symbols sel := by
  cases given : fieldModeOf symbols sel id field with
  | none => exact origin
  | some mode =>
      refine ⟨fun id' number mode' found => ?_, origin.maps⟩
      rw [FieldModes.setField, ModeMap.lookup_insert] at found
      split at found
      · rename_i same
        obtain ⟨rfl, rfl⟩ := Prod.mk.inj same
        exact ⟨field, listed, rfl, given.trans found⟩
      · exact origin.fields id' number mode' found

theorem FieldModes.From.setMap {sel : Selection} {out : FieldModes} (origin : out.From symbols sel)
    {id : MessageId} {map : MapField} (listed : map ∈ (schema.get id).maps) :
    (out.setMap id map (mapModeOf symbols sel id map)).From symbols sel := by
  cases given : mapModeOf symbols sel id map with
  | none => exact origin
  | some mode =>
      refine ⟨origin.fields, fun id' number mode' found => ?_⟩
      rw [FieldModes.setMap, ModeMap.lookup_insert] at found
      split at found
      · rename_i same
        obtain ⟨rfl, rfl⟩ := Prod.mk.inj same
        exact ⟨map, listed, rfl, given.trans found⟩
      · exact origin.maps id' number mode' found

/-- Every mode is one the selection gives a field or map of its message. -/
theorem applied_from (sel : Selection) :
    (messages.foldl (applyToMessage symbols sel) {}).From symbols sel := by
  have nothing : ({} : FieldModes).From symbols sel := ⟨by simp, by simp⟩
  refine List.foldlRecOn messages _ nothing fun out origin id _ => ?_
  exact List.foldlRecOn (schema.get id).maps _
    (List.foldlRecOn (schema.get id).fields _ origin fun out origin field listed =>
      origin.setField listed)
    fun out origin map listed => origin.setMap listed

/-- The plain field has a mode. -/
def FieldModes.HasField (key : MessageId × Nat) (out : FieldModes) : Prop := key ∈ out.fields

/-- The map has a mode. -/
def FieldModes.HasMap (key : MessageId × Nat) (out : FieldModes) : Prop := key ∈ out.maps

theorem setField_hasField {key : MessageId × Nat} {out : FieldModes} {id : MessageId} {field : Field}
    {mode : Option FieldMode}
    (held : out.HasField key ∨ (mode.isSome = true ∧ key = (id, field.number))) :
    (out.setField id field mode).HasField key := by
  cases mode with
  | none => simpa [FieldModes.setField] using held
  | some mode => exact Finmap.mem_insert.mpr (held.symm.imp_left And.right)

theorem setMap_hasMap {key : MessageId × Nat} {out : FieldModes} {id : MessageId} {map : MapField}
    {mode : Option FieldMode}
    (held : out.HasMap key ∨ (mode.isSome = true ∧ key = (id, map.number))) :
    (out.setMap id map mode).HasMap key := by
  cases mode with
  | none => simpa [FieldModes.setMap] using held
  | some mode => exact Finmap.mem_insert.mpr (held.symm.imp_left And.right)

theorem setField_hasMap {key : MessageId × Nat} {out : FieldModes} {id : MessageId} {field : Field}
    {mode : Option FieldMode} (held : out.HasMap key) : (out.setField id field mode).HasMap key := by
  cases mode <;> exact held

theorem setMap_hasField {key : MessageId × Nat} {out : FieldModes} {id : MessageId} {map : MapField}
    {mode : Option FieldMode} (held : out.HasField key) : (out.setMap id map mode).HasField key := by
  cases mode <;> exact held

theorem applyToMessage_hasField {sel : Selection} {key : MessageId × Nat} {out : FieldModes}
    {id : MessageId} (held : out.HasField key) : (applyToMessage symbols sel out id).HasField key := by
  refine List.foldlRecOn (schema.get id).maps _ ?_ fun out held map _ => setMap_hasField held
  exact List.foldlRecOn (schema.get id).fields _ held fun out held field _ =>
    setField_hasField (.inl held)

theorem applyToMessage_hasMap {sel : Selection} {key : MessageId × Nat} {out : FieldModes}
    {id : MessageId} (held : out.HasMap key) : (applyToMessage symbols sel out id).HasMap key := by
  refine List.foldlRecOn (schema.get id).maps _ ?_ fun out held map _ => setMap_hasMap (.inl held)
  exact List.foldlRecOn (schema.get id).fields _ held fun out held field _ => setField_hasMap held

/-- A field of the file set has the mode the selection gives it. -/
theorem applied_field {sel : Selection} {id : MessageId} (visited : id ∈ messages) {field : Field}
    (listed : field ∈ (schema.get id).fields) {mode : FieldMode}
    (given : fieldModeOf symbols sel id field = some mode) :
    (messages.foldl (applyToMessage symbols sel) {}).fields.lookup (id, field.number) =
      some mode := by
  have set : (messages.foldl (applyToMessage symbols sel) {}).HasField (id, field.number) := by
    refine foldl_reaches (FieldModes.HasField _) visited (fun out => ?_)
      (fun out other held => applyToMessage_hasField held) {}
    refine List.foldlRecOn (schema.get id).maps _ ?_ fun out held map _ => setMap_hasField held
    exact foldl_reaches (FieldModes.HasField _) listed
      (fun out => setField_hasField (.inr ⟨by rw [given]; rfl, rfl⟩))
      (fun out other held => setField_hasField (.inl held)) out
  obtain ⟨mode', found⟩ := Option.isSome_iff_exists.mp (Finmap.lookup_isSome.mpr set)
  obtain ⟨field', listed', number, given'⟩ := (applied_from sel).fields id field.number mode' found
  rw [field_eq_of_number listed' listed number, given] at given'
  rw [found, given']

theorem map_eq_of_number {message : Message} {map other : MapField} (listed : map ∈ message.maps)
    (listed' : other ∈ message.maps) (same : map.number = other.number) : map = other := by
  have member := Message.member_inj (Message.mapped_mem.mpr listed) (Message.mapped_mem.mpr listed')
    same
  exact Member.mapped.inj member

/-- So does a map. -/
theorem applied_map {sel : Selection} {id : MessageId} (visited : id ∈ messages) {map : MapField}
    (listed : map ∈ (schema.get id).maps) {mode : FieldMode}
    (given : mapModeOf symbols sel id map = some mode) :
    (messages.foldl (applyToMessage symbols sel) {}).maps.lookup (id, map.number) =
      some mode := by
  have set : (messages.foldl (applyToMessage symbols sel) {}).HasMap (id, map.number) := by
    refine foldl_reaches (FieldModes.HasMap _) visited (fun out => ?_)
      (fun out other held => applyToMessage_hasMap held) {}
    exact foldl_reaches (FieldModes.HasMap _) listed
      (fun out => setMap_hasMap (.inr ⟨by rw [given]; rfl, rfl⟩))
      (fun out other held => setMap_hasMap (.inl held)) _
  obtain ⟨mode', found⟩ := Option.isSome_iff_exists.mp (Finmap.lookup_isSome.mpr set)
  obtain ⟨map', listed', number, given'⟩ := (applied_from sel).maps id map.number mode' found
  rw [map_eq_of_number listed' listed number, given] at given'
  rw [found, given']

/-- No mode is given to a oneof member. -/
theorem FieldModes.From.oneof {sel : Selection} {out : FieldModes} (origin : out.From symbols sel)
    {id : MessageId} {field : Field} (listed : field ∈ (schema.get id).oneofs.flatten) :
    out.fields.lookup (id, field.number) = none ∧ out.maps.lookup (id, field.number) = none := by
  have distinct := (schema.get id).distinct
  have parts := List.nodup_append.mp distinct
  have member : field.number ∈ (schema.get id).oneofs.flatten.map Field.number :=
    List.mem_map_of_mem listed
  constructor
  · refine Option.eq_none_iff_forall_ne_some.mpr fun mode found => ?_
    obtain ⟨other, plain, number, -⟩ := origin.fields id field.number mode found
    exact parts.2.2 other.number
      (List.mem_append_left _ (List.mem_map_of_mem plain)) field.number member number
  · refine Option.eq_none_iff_forall_ne_some.mpr fun mode found => ?_
    obtain ⟨other, mapped, number, -⟩ := origin.maps id field.number mode found
    exact parts.2.2 other.number
      (List.mem_append_right _ (List.mem_map_of_mem mapped)) field.number member number

theorem findFieldByFqn_map {fqn : Name} {id : MessageId} {map : MapField}
    (hit : findFieldByFqn symbols fqn = .map id map) : map ∈ (schema.get id).maps := by
  rw [findFieldByFqn] at hit
  split at hit
  · simp only [findField] at hit
    split at hit
    · cases hit
    split at hit
    · rename_i met
      cases hit
      exact List.mem_of_find?_eq_some met
    split at hit <;> cases hit
  · cases hit

/-- A field entry decides the mode of its field, whatever the entries on its type say. -/
theorem Resolution.field_entry (indexed : symbols.Indexes messages) {spec : FieldModesSpec}
    {modes : FieldModes} {sel : Selection} {given : Assignment Name FieldMode}
    {asked : Assignment Name Unit}
    (parts : Resolution symbols spec messages modes sel given asked) {entry : ModeEntry}
    (listed : entry ∈ spec.entries) (noType : symbols.isType (normalizeName entry.name) = false) :
    (∀ id field, findFieldByFqn symbols (normalizeName entry.name) = .field id field →
      modes.fields.lookup (id, field.number) = some entry.mode) ∧
    (∀ id map, findFieldByFqn symbols (normalizeName entry.name) = .map id map →
      modes.maps.lookup (id, map.number) = some entry.mode) := by
  have dotted := normalizeName_dotted entry.name
  have assigned : given.value (normalizeName entry.name) = some entry.mode :=
    (parts.holds.value _ _).mpr (List.mem_map_of_mem listed)
  constructor
  · intro id field hit
    have found : targetOf symbols (normalizeName entry.name) = some (.field id field.number) := by
      rw [targetOf, noType, if_neg Bool.false_ne_true, hit]
    have explicit : sel.fieldModes id field.number = some entry.mode :=
      (parts.reflects.modeOf_eq indexed dotted found).trans assigned
    have visited := indexed.listed _ id (targetOf_parts (.inl found)).1
    rw [parts.fields]
    exact applied_field visited (findFieldByFqn_field hit) (by rw [fieldModeOf, explicit])
  · intro id map hit
    have found : targetOf symbols (normalizeName entry.name) = some (.map id map.number) := by
      rw [targetOf, noType, if_neg Bool.false_ne_true, hit]
    have explicit : sel.mapModes id map.number = some entry.mode :=
      (parts.reflects.modeOf_eq indexed dotted found).trans assigned
    have visited := indexed.listed _ id (targetOf_parts (.inr found)).1
    rw [parts.maps]
    exact applied_map visited (findFieldByFqn_map hit) (by rw [mapModeOf, explicit])

end Origins

/-- What a profile resolves to does not depend on the listing of its entries, is determined by its
canonical lines, lets a field entry win, and respects what fields can have. -/
theorem resolveFieldModes_canonical (schema : Schema) (set : FileSet schema) :
    (∀ spec spec' : FieldModesSpec, spec.SameEntries spec' →
      (resolveFieldModes set.symbols spec (forEachMessage set.files)).toOption =
        (resolveFieldModes set.symbols spec' (forEachMessage set.files)).toOption) ∧
    (∀ spec spec' modes modes',
      resolveFieldModes set.symbols spec (forEachMessage set.files) = .ok modes →
      resolveFieldModes set.symbols spec' (forEachMessage set.files) = .ok modes' →
      modes.normalized = modes'.normalized → modes.SelectsSame modes') ∧
    (∀ spec modes, resolveFieldModes set.symbols spec (forEachMessage set.files) = .ok modes →
      (∀ entry ∈ spec.entries, set.symbols.isType (normalizeName entry.name) = false →
        (∀ id field, findFieldByFqn set.symbols (normalizeName entry.name) = .field id field →
          modes.fields.lookup (id, field.number) = some entry.mode) ∧
        (∀ id map, findFieldByFqn set.symbols (normalizeName entry.name) = .map id map →
          modes.maps.lookup (id, map.number) = some entry.mode)) ∧
      modes.Valid schema ∧
      ∀ id, ∀ field ∈ (schema.get id).oneofs.flatten,
        modes.fields.lookup (id, field.number) = none ∧
          modes.maps.lookup (id, field.number) = none) := by
  have indexed := set.indexes
  refine ⟨fun spec spec' same => ?_, ?_, fun spec modes resolved => ?_⟩
  · cases resolved : resolveFieldModes set.symbols spec (forEachMessage set.files) with
    | ok modes => rw [resolve_same indexed same resolved]
    | error error =>
        cases resolved' : resolveFieldModes set.symbols spec' (forEachMessage set.files) with
        | ok modes =>
            rw [resolve_same indexed same.symm resolved'] at resolved
            cases resolved
        | error error' => rfl
  · intro spec spec' modes modes' resolved resolved' same
    obtain ⟨_, _, _, parts⟩ := resolution_of_resolve indexed resolved
    obtain ⟨_, _, _, parts'⟩ := resolution_of_resolve indexed resolved'
    exact parts.selectsSame_of_normalized indexed parts' same
  · obtain ⟨sel, given, asked, parts⟩ := resolution_of_resolve indexed resolved
    refine ⟨fun entry listed noType => parts.field_entry indexed listed noType,
      resolveFieldModes_valid resolved, fun id field listed => ?_⟩
    rw [parts.fields, parts.maps]
    exact (applied_from sel).oneof listed

/-- `message M { string s = 1; V v = 2; message V { int32 x = 1; } }`. -/
def nestedSchema : Schema where
  messages := [{ fields := [⟨1, .leaf (.scalar .string), .implicit⟩,
      ⟨2, .message 1 false, .explicit⟩] }, { fields := [⟨1, .leaf (.scalar .int32), .implicit⟩] }]

/-- It, in a file of package `p`. -/
def nestedSet : FileSet nestedSchema where
  files := [{ package := ['p'], messages := [.mk ['M'] 0 [.mk ['V'] 1 [] []] []] }]
  table := [(".p.M".toList, .message 0), (".p.M.V".toList, .message 1)]
  collected := rfl
  nodes := by decide
  fieldName id number := if id = 0 then (if number = 1 then ['s'] else ['v']) else ['x']
  resolvedType id number := if id = 0 ∧ number = 2 then ".p.M.V".toList else []
  typed id field listed target known := by
    match id with
    | 0 =>
        rcases List.mem_cons.mp listed with rfl | later
        · simp at known
        · rw [List.mem_singleton.mp later]
          exact ⟨1, false, rfl⟩
    | 1 => simp at known
    | _ + 2 => cases listed

/-- The sub-message is dropped, its type kept as bytes elsewhere. -/
def nestedSpec : FieldModesSpec where
  entries := [⟨.raw, "p.M.V".toList, "--raw"⟩, ⟨.drop, "p.M.v".toList, "--drop"⟩]

/-- The same from a file, listed the other way and partly twice. -/
def nestedSpecAgain : FieldModesSpec where
  entries := [⟨.drop, "p.M.v".toList, "modes:1"⟩, ⟨.raw, "p.M.V".toList, "modes:2"⟩,
    ⟨.drop, "p.M.v".toList, "modes:3"⟩]

theorem resolveFieldModes_canonical_sample :
    (resolveFieldModes nestedSet.symbols nestedSpec (forEachMessage nestedSet.files)).toOption =
      (resolveFieldModes nestedSet.symbols nestedSpecAgain
        (forEachMessage nestedSet.files)).toOption ∧
    ∃ modes, resolveFieldModes nestedSet.symbols nestedSpec (forEachMessage nestedSet.files) =
        .ok modes ∧ modes.fields.lookup (0, 2) = some .drop := by
  have canonical := resolveFieldModes_canonical nestedSchema nestedSet
  have same : nestedSpec.SameEntries nestedSpecAgain := by
    refine ⟨fun mode name => ?_, by simp [UnknownListed, nestedSpec, nestedSpecAgain], rfl, rfl⟩
    simp only [ModeListed, nestedSpec, nestedSpecAgain, List.mem_cons, List.not_mem_nil, or_false,
      ModeEntry.mk.injEq]
    constructor
    · rintro ⟨origin, ⟨rfl, rfl, -⟩ | ⟨rfl, rfl, -⟩⟩
      · exact ⟨_, .inr (.inl ⟨rfl, rfl, rfl⟩)⟩
      · exact ⟨_, .inl ⟨rfl, rfl, rfl⟩⟩
    · rintro ⟨origin, ⟨rfl, rfl, -⟩ | ⟨rfl, rfl, -⟩ | ⟨rfl, rfl, -⟩⟩
      · exact ⟨_, .inr ⟨rfl, rfl, rfl⟩⟩
      · exact ⟨_, .inl ⟨rfl, rfl, rfl⟩⟩
      · exact ⟨_, .inr ⟨rfl, rfl, rfl⟩⟩
  obtain ⟨modes, resolved⟩ : ∃ modes, resolveFieldModes nestedSet.symbols nestedSpec
      (forEachMessage nestedSet.files) = .ok modes := ⟨_, rfl⟩
  have entries := (canonical.2.2 nestedSpec modes resolved).1
  have second := entries ⟨.drop, "p.M.v".toList, "--drop"⟩ (by simp [nestedSpec]) rfl
  exact ⟨canonical.1 _ _ same, modes, resolved, second.1 0 ⟨2, .message 1 false, .explicit⟩ rfl⟩

end RapidProto
