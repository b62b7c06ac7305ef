import RapidProto.Layout.Classes

/-!
# What a layout covers

Every field and map that the profile keeps has a member in the layout of its message, of the kind
its type and mode call for.  A message of fixed size therefore holds nothing but scalars and
sub-messages by value, which are of fixed size themselves.
-/

namespace RapidProto

/-- The member's kind is one its declaration and mode allow. -/
structure MemberPlan.Fits (options : LayoutOptions) (id : MessageId) (m : MemberPlan) : Prop where
  field : ∀ field target delimited, m.declared = .field field →
    field.type = .message target delimited → m.target = some target ∧
      (m.kind = .raw ∨ m.kind = .repeated ∨
        options.mode id field.number = .materialize ∧ field.isRepeated = false ∧
          (m.kind = .inlineFixedSubMsg ∨ m.kind = .pointerSubMsg))
  map : ∀ map, m.declared = .map map → m.kind = .map ∧ ∃ entry, m.entry = some entry

/-- The layout has the kept fields and maps among these, and as many oneofs. -/
structure MessageLayout.Covers (options : LayoutOptions) (id : MessageId) (fields : List Field)
    (maps : List MapField) (oneofs : List (List Field)) (layout : MessageLayout) : Prop where
  members : ∀ m ∈ layout.members, m.Fits options id
  fields : ∀ field ∈ fields, options.mode id field.number ≠ .drop →
    ∃ m ∈ layout.members, m.declared = .field field
  maps : ∀ map ∈ maps, options.mode id map.number ≠ .drop →
    ∃ m ∈ layout.members, m.declared = .map map
  oneofs : layout.oneofs.length = oneofs.length

/-- Every finished layout covers its message. -/
def Planner.Covered (schema : Schema) (options : LayoutOptions) (planner : Planner) : Prop :=
  ∀ entry ∈ planner.memo, entry.2.Covers options entry.1 (schema.get entry.1).fields
    (schema.get entry.1).maps (schema.get entry.1).oneofs

section Steps

variable {schema : Schema} {options : LayoutOptions}
  {compute : MessageId → Planner → Planning (MessageLayout × Planner)} {holds : Planner → Prop}

/-- Computing a message keeps a property of the planner. -/
def ComputeKeeps (holds : Planner → Prop)
    (compute : MessageId → Planner → Planning (MessageLayout × Planner)) : Prop :=
  ∀ id planner result, holds planner → compute id planner = .ok result → holds result.2

theorem layoutFor_keeps (keeps : ComputeKeeps holds compute) {id : MessageId}
    {planner : Planner} {result : MessageLayout × Planner}
    (held : holds planner)
    (ran : layoutFor schema compute id planner = .ok result) :
    holds result.2 := by
  rw [layoutFor] at ran
  split at ran
  · cases ran
    exact held
  split at ran
  · exact keeps id planner result held ran
  · cases ran
    exact held

theorem classifyMessage_keeps (keeps : ComputeKeeps holds compute)
    {target : MessageId} {planner : Planner} {result : Planner.Store × Planner}
    (held : holds planner)
    (ran : classifyMessage schema options compute target planner = .ok result) :
    holds result.2 ∧
      (result.1.kind = .inlineFixedSubMsg ∨ result.1.kind = .pointerSubMsg) := by
  rw [classifyMessage] at ran
  split at ran
  · obtain ⟨⟨layout, planner⟩, laid, ran⟩ := Outcome.bind_eq_ok.mp ran
    have held' := layoutFor_keeps keeps held laid
    dsimp only at ran
    split at ran
    · cases ran
      exact ⟨held', .inl rfl⟩
    · cases ran
      exact ⟨held', .inr rfl⟩
  · cases ran
    exact ⟨held, .inr rfl⟩

theorem classifyByteMember_keeps (keeps : ComputeKeeps holds compute) {field : Field}
    {planner : Planner} {result : OneofMemberPlan × Planner}
    (held : holds planner)
    (ran : classifyByteMember schema options compute field planner = .ok result) :
    holds result.2 := by
  rw [classifyByteMember] at ran
  split at ran
  · obtain ⟨⟨store, planner⟩, classified, ran⟩ := Outcome.bind_eq_ok.mp ran
    cases ran
    exact (classifyMessage_keeps keeps held classified).1
  · cases ran
    exact held

theorem classifyField_keeps (keeps : ComputeKeeps holds compute) {id : MessageId}
    {field : Field} {planner : Planner} {result : MemberPlan × Planner}
    (materialized : options.mode id field.number = .materialize)
    (held : holds planner)
    (ran : classifyField schema options compute field planner = .ok result) :
    holds result.2 ∧ result.1.declared = .field field ∧
      result.1.Fits options id := by
  simp only [classifyField] at ran
  split at ran
  · cases ran
    refine ⟨held, rfl, ⟨fun other target delimited same type => ?_, fun _ same => by cases same⟩⟩
    cases same
    exact ⟨by simp [type], .inr (.inl rfl)⟩
  rename_i singular
  split at ran
  · rename_i target' delimited' type
    obtain ⟨⟨store, planner⟩, classified, ran⟩ := Outcome.bind_eq_ok.mp ran
    cases ran
    obtain ⟨held', kind⟩ := classifyMessage_keeps keeps held classified
    refine ⟨held', rfl, ⟨fun other target delimited same found => ?_,
      fun _ same => by cases same⟩⟩
    cases same
    rw [type] at found
    cases found
    exact ⟨by simp [type], .inr (.inr ⟨materialized, by simpa using singular, kind⟩)⟩
  · rename_i type
    cases ran
    refine ⟨held, rfl, ⟨fun other target delimited same found => ?_,
      fun _ same => by cases same⟩⟩
    cases same
    rw [type] at found
    cases found
  · rename_i type
    cases ran
    refine ⟨held, rfl, ⟨fun other target delimited same found => ?_,
      fun _ same => by cases same⟩⟩
    cases same
    rw [type] at found
    cases found

theorem buildEntry_keeps (keeps : ComputeKeeps holds compute) {map : MapField}
    {planner : Planner} {result : EntryPlan × Planner} (held : holds planner)
    (ran : buildEntry schema options compute map planner = .ok result) :
    holds result.2 := by
  obtain ⟨⟨value, planner'⟩, classified, ran⟩ := Outcome.bind_eq_ok.mp ran
  cases ran
  rw [classifyMapValue] at classified
  split at classified
  · exact (classifyMessage_keeps keeps held classified).1
  · cases classified
    exact held

theorem classifyOneof_keeps (keeps : ComputeKeeps holds compute) {fields : List Field}
    {planner : Planner} {result : OneofPlan × Planner} (held : holds planner)
    (ran : classifyOneof schema options compute fields planner = .ok result) :
    holds result.2 := by
  obtain ⟨⟨plan, planner'⟩, looped, ran⟩ := Outcome.bind_eq_ok.mp ran
  cases ran
  have kept : ∀ (_ : List Field), ∀ field ∈ fields, ∀ (state state' : OneofPlan × Planner),
      holds state.2 →
      addOneofMember schema options compute state field = .ok state' →
      holds state'.2 := by
    intro _ field _ state state' held' stepped
    obtain ⟨⟨member, next⟩, classified, same⟩ := Outcome.bind_eq_ok.mp stepped
    cases same
    exact classifyByteMember_keeps keeps held' classified
  have walked := @Outcome.foldlM_induct _ _ _
    (fun _ (state : OneofPlan × Planner) => holds state.2) _ _ kept [] _ _ held
    looped
  exact walked

/-! ## The three loops -/

variable {id : MessageId} {fields : List Field} {maps : List MapField} {oneofs : List (List Field)}

/-- One more field. -/
theorem addField_covers (keeps : ComputeKeeps holds compute) {field : Field}
    {state state' : MessageLayout × Planner} (held : holds state.2)
    (partly : state.1.Covers options id fields maps oneofs)
    (ran : addField schema options compute id state field = .ok state') :
    holds state'.2 ∧
      state'.1.Covers options id (fields ++ [field]) maps oneofs := by
  obtain ⟨layout, planner⟩ := state
  have widen : ∀ m : MemberPlan, m.declared = .field field → m.Fits options id →
      MessageLayout.Covers options id (fields ++ [field]) maps oneofs
        { layout with members := layout.members ++ [m] } := by
    intro m declared fits
    refine ⟨?_, ?_, ?_, partly.oneofs⟩
    · intro other met
      rcases List.mem_append.mp met with earlier | last
      · exact partly.members other earlier
      · cases List.mem_singleton.mp last
        exact fits
    · intro other met kept
      rcases List.mem_append.mp met with earlier | last
      · obtain ⟨found, listed, same⟩ := partly.fields other earlier kept
        exact ⟨found, by simp [listed], same⟩
      · cases List.mem_singleton.mp last
        exact ⟨m, by simp, declared⟩
    · intro other met kept
      obtain ⟨found, listed, same⟩ := partly.maps other met kept
      exact ⟨found, by simp [listed], same⟩
  simp only [addField] at ran
  split at ran
  · rename_i dropped
    cases ran
    refine ⟨held, ⟨partly.members, ?_, partly.maps, partly.oneofs⟩⟩
    intro other met kept
    rcases List.mem_append.mp met with earlier | last
    · exact partly.fields other earlier kept
    · cases List.mem_singleton.mp last
      exact absurd dropped kept
  · cases ran
    refine ⟨held, widen _ rfl ⟨fun other target delimited same type => ?_,
      fun _ same => by cases same⟩⟩
    cases same
    exact ⟨by simp [rawMember, type], .inl rfl⟩
  · rename_i materialized
    obtain ⟨⟨plan, planner'⟩, classified, ran⟩ := Outcome.bind_eq_ok.mp ran
    cases ran
    obtain ⟨held', declared, fits⟩ := classifyField_keeps keeps materialized held classified
    exact ⟨held', widen plan declared fits⟩

/-- One more map. -/
theorem addMap_covers (keeps : ComputeKeeps holds compute) {map : MapField}
    {state state' : MessageLayout × Planner} (held : holds state.2)
    (partly : state.1.Covers options id fields maps oneofs)
    (ran : addMap schema options compute id state map = .ok state') :
    holds state'.2 ∧
      state'.1.Covers options id fields (maps ++ [map]) oneofs := by
  obtain ⟨layout, planner⟩ := state
  by_cases dropped : options.mode id map.number = .drop
  · simp only [addMap, dropped] at ran
    cases ran
    refine ⟨held, ⟨partly.members, partly.fields, ?_, partly.oneofs⟩⟩
    intro other met kept
    rcases List.mem_append.mp met with earlier | last
    · exact partly.maps other earlier kept
    · cases List.mem_singleton.mp last
      exact absurd dropped kept
  rw [addMap_kept dropped] at ran
  obtain ⟨⟨entry, planner'⟩, classified, ran⟩ := Outcome.bind_eq_ok.mp ran
  cases ran
  refine ⟨buildEntry_keeps keeps held classified, ⟨?_, ?_, ?_, partly.oneofs⟩⟩
  · intro other met
    rcases List.mem_append.mp met with earlier | last
    · exact partly.members other earlier
    · cases List.mem_singleton.mp last
      exact ⟨fun _ _ _ same => (by cases same), fun _ _ => ⟨rfl, entry, rfl⟩⟩
  · intro other met kept
    obtain ⟨found, listed, same⟩ := partly.fields other met kept
    exact ⟨found, by simp [listed], same⟩
  · intro other met kept
    rcases List.mem_append.mp met with earlier | last
    · obtain ⟨found, listed, same⟩ := partly.maps other earlier kept
      exact ⟨found, by simp [listed], same⟩
    · cases List.mem_singleton.mp last
      exact ⟨_, List.mem_append_right _ (List.mem_singleton_self _), rfl⟩

/-- One more oneof. -/
theorem addOneof_covers (keeps : ComputeKeeps holds compute) {members : List Field}
    {state state' : MessageLayout × Planner} (held : holds state.2)
    (partly : state.1.Covers options id fields maps oneofs)
    (ran : addOneof schema options compute state members = .ok state') :
    holds state'.2 ∧
      state'.1.Covers options id fields maps (oneofs ++ [members]) := by
  obtain ⟨layout, planner⟩ := state
  obtain ⟨⟨plan, planner'⟩, classified, same⟩ := Outcome.bind_eq_ok.mp ran
  cases same
  refine ⟨classifyOneof_keeps keeps held classified,
    ⟨partly.members, partly.fields, partly.maps, ?_⟩⟩
  simp [partly.oneofs]

end Steps

/-! ## The recursion -/

variable {schema : Schema} {options : LayoutOptions}

theorem MemberPlan.bare_fits {id : MessageId} {m : MemberPlan} :
    m.bare.Fits options id ↔ m.Fits options id :=
  ⟨fun fits => ⟨fits.field, fits.map⟩, fun fits => ⟨fits.field, fits.map⟩⟩

/-- Choosing bits and offsets keeps what is covered. -/
theorem finishLayout_covers {id : MessageId} {fields : List Field} {maps : List MapField}
    {oneofs : List (List Field)} {raw : MessageLayout}
    (covers : raw.Covers options id fields maps oneofs) :
    (finishLayout options raw).Covers options id fields maps oneofs := by
  have perm := finishLayout_members options raw
  have moved : ∀ m ∈ raw.members, ∃ m' ∈ (finishLayout options raw).members,
      m'.declared = m.declared := by
    intro m met
    obtain ⟨m', met', same⟩ := List.mem_map.mp (perm.symm.subset (List.mem_map_of_mem met))
    exact ⟨m', met', show m'.bare.declared = m.bare.declared by rw [same]⟩
  refine ⟨?_, ?_, ?_, ?_⟩
  · intro m met
    obtain ⟨m', met', same⟩ := List.mem_map.mp (perm.subset (List.mem_map_of_mem met))
    rw [← MemberPlan.bare_fits, ← same]
    exact MemberPlan.bare_fits.mpr (covers.members m' met')
  · intro field met kept
    obtain ⟨m, listed, declared⟩ := covers.fields field met kept
    obtain ⟨m', listed', same⟩ := moved m listed
    exact ⟨m', listed', same.trans declared⟩
  · intro map met kept
    obtain ⟨m, listed, declared⟩ := covers.maps map met kept
    obtain ⟨m', listed', same⟩ := moved m listed
    exact ⟨m', listed', same.trans declared⟩
  · have same := congrArg List.length (finishLayout_oneofs options raw)
    rw [List.length_map, List.length_map] at same
    rw [same, covers.oneofs]

theorem compute_covers (frames : Nat) :
    ComputeKeeps (Planner.Covered schema options) (compute schema options frames) := by
  induction frames with
  | zero =>
      intro id planner result _ ran
      cases ran
  | succ frames ih =>
      intro id planner result covered ran
      rw [compute] at ran
      obtain ⟨afterFields, ranFields, ran⟩ := Outcome.bind_eq_ok.mp ran
      obtain ⟨afterMaps, ranMaps, ran⟩ := Outcome.bind_eq_ok.mp ran
      obtain ⟨⟨layout, final⟩, ranOneofs, ran⟩ := Outcome.bind_eq_ok.mp ran
      have first := @Outcome.foldlM_induct _ _ _
        (fun consumed (state : MessageLayout × Planner) => state.2.Covered schema options ∧
          state.1.Covers options id consumed [] []) _ _
        (fun consumed field _ state state' partly stepped =>
          addField_covers ih partly.1 partly.2 stepped) [] _ _
        ⟨covered, ⟨by simp, by simp, by simp, rfl⟩⟩ ranFields
      have second := @Outcome.foldlM_induct _ _ _
        (fun consumed (state : MessageLayout × Planner) => state.2.Covered schema options ∧
          state.1.Covers options id ([] ++ (schema.get id).fields) consumed []) _ _
        (fun consumed map _ state state' partly stepped =>
          addMap_covers ih partly.1 partly.2 stepped) [] _ _ first ranMaps
      obtain ⟨covered', covers⟩ := @Outcome.foldlM_induct _ _ _
        (fun consumed (state : MessageLayout × Planner) => state.2.Covered schema options ∧
          state.1.Covers options id ([] ++ (schema.get id).fields)
            ([] ++ (schema.get id).maps) consumed) _ _
        (fun consumed members _ state state' partly stepped =>
          addOneof_covers ih partly.1 partly.2 stepped) [] _ _ second ranOneofs
      cases ran
      rw [Planner.store]
      split
      · exact covered'
      · intro entry met
        rcases List.mem_append.mp met with earlier | last
        · exact covered' entry earlier
        · cases List.mem_singleton.mp last
          exact finishLayout_covers covers

theorem planLayouts_covered {walk : List MessageId} {planner : Planner}
    (ran : planLayouts schema options walk = .ok planner) : planner.Covered schema options := by
  refine @Outcome.foldlM_induct _ _ _
    (fun _ (planner : Planner) => planner.Covered schema options) _ _
    (fun _ id _ state state' covered stepped => ?_) [] _ _ (by simp [Planner.Covered]) ran
  obtain ⟨result, laid, same⟩ := Outcome.bind_eq_ok.mp stepped
  cases same
  exact layoutFor_keeps (compute_covers kMaxChainDepth) covered laid

/-! ## The plan of the decoder -/

/-- The member, the union member or the map value is stored by value. -/
def MessageLayout.inlines (layout : MessageLayout) : Member → Bool
  | .plain field => layout.members.any fun m =>
      m.declared = .field field && m.kind = .inlineFixedSubMsg
  | .mapped map => layout.members.any fun m =>
      m.declared = .map map && m.entry.any fun entry => entry.valueKind = .inlineFixedSubMsg
  | .choice oneof _ field => layout.oneofs[oneof]?.any fun o => o.members.any fun m =>
      m.field = field && m.kind = .inlineFixedSubMsg

/-- The extent of a map's entry struct. -/
def MessageLayout.entryExtent (layout : MessageLayout) (number : Nat) : Nat × Nat :=
  match layout.members.find? fun m => m.declared.number = number with
  | some { entry := some entry, .. } => (entry.size, entry.align)
  | _ => (1, 1)

/-- What the generator hands to the decoder and the accessors. -/
def Planner.plan (schema : Schema) (options : LayoutOptions) (kIsLittleEndian : Bool)
    (planner : Planner) : Plan where
  mode := options.mode
  tracksUnknown := options.tracksUnknown
  inlined id number :=
    match planner.memo.lookup id, (schema.get id).member? number with
    | some layout, some member => layout.inlines member
    | _, _ => false
  extent id := ((recorded planner.memo id).size, (recorded planner.memo id).align)
  entryExtent id number :=
    match planner.memo.lookup id with
    | some layout => layout.entryExtent number
    | none => (1, 1)
  kIsLittleEndian

/-- The plan of a file set, for a host of the given byte order.  Planning never fails. -/
def planOf (schema : Schema) (options : LayoutOptions) (walk : List MessageId)
    (kIsLittleEndian : Bool) : Plan :=
  match planLayouts schema options walk with
  | .ok planner => planner.plan schema options kIsLittleEndian
  | _ => ({} : Planner).plan schema options kIsLittleEndian

/-- The message is planned and has nothing behind an indirection. -/
def FixedSize (memo : List (MessageId × MessageLayout)) (id : MessageId) : Prop :=
  ∃ layout, memo.lookup id = some layout ∧ layout.fixedSize = true

/-- A planner that planned a file set. -/
structure Planner.Planned (schema : Schema) (options : LayoutOptions) (planner : Planner) :
    Prop where
  sound : planner.Sound options
  covered : planner.Covered schema options

theorem planOf_eq (schema : Schema) (options : LayoutOptions) (walk : List MessageId)
    (kIsLittleEndian : Bool) :
    ∃ planner : Planner, planner.Planned schema options ∧
      planOf schema options walk kIsLittleEndian =
        planner.plan schema options kIsLittleEndian := by
  obtain ⟨planner, planned, sound, -⟩ := planLayouts_ok schema options walk
  exact ⟨planner, ⟨sound, planLayouts_covered planned⟩, by rw [planOf, planned]⟩

namespace Planner.Planned

variable {planner : Planner} (planned : planner.Planned schema options) {id : MessageId}
include planned

/-- The layout of a fixed-size message. -/
theorem fixed (fixed : FixedSize planner.memo id) :
    ∃ layout, planner.memo.lookup id = some layout ∧
      layout.Covers options id (schema.get id).fields (schema.get id).maps
        (schema.get id).oneofs ∧
      layout.oneofs = [] ∧ ∀ m ∈ layout.members,
        m.kind = .inlineScalar ∨ m.kind = .inlineEnum ∨ m.kind = .inlineFixedSubMsg := by
  obtain ⟨layout, found, isFixed⟩ := fixed
  obtain ⟨raw, -, rfl⟩ := planned.sound.lookup found
  obtain ⟨_, _, same, -⟩ := List.lookup_eq_some_iff.mp found
  have covers := planned.covered (id, finishLayout options raw) (by rw [same]; simp)
  have parts : computeFixedSize (finishLayout options raw) = true := isFixed
  simp only [computeFixedSize, Bool.and_eq_true, List.isEmpty_iff, List.all_eq_true] at parts
  refine ⟨_, found, covers, parts.1, fun m met => ?_⟩
  have kind := parts.2 m met
  cases same : m.kind <;> simp_all

/-- A sub-message of a fixed-size message is stored by value. -/
theorem fixed_field (kIsLittleEndian : Bool) (fixed : FixedSize planner.memo id) {field : Field}
    (declared : field ∈ (schema.get id).fields) (kept : options.mode id field.number ≠ .drop)
    {target : MessageId} {delimited : Bool} (type : field.type = .message target delimited) :
    options.mode id field.number = .materialize ∧ field.isRepeated = false ∧
      (planner.plan schema options kIsLittleEndian).inlined id field.number = true := by
  obtain ⟨layout, found, covers, -, kinds⟩ := planned.fixed fixed
  obtain ⟨m, listed, same⟩ := covers.fields field declared kept
  obtain ⟨-, kind⟩ := (covers.members m listed).field field target delimited same type
  have number := Message.member?_number (Message.plain_mem.mpr declared)
  rw [Member.number] at number
  rcases kind with kind | kind | ⟨materialized, singular, kind | kind⟩
  · simpa [kind] using kinds m listed
  · simpa [kind] using kinds m listed
  · refine ⟨materialized, singular, ?_⟩
    simp only [Planner.plan, found, number, MessageLayout.inlines, List.any_eq_true]
    exact ⟨m, listed, by simp [same, kind]⟩
  · simpa [kind] using kinds m listed

/-- A fixed-size message keeps no map. -/
theorem fixed_map (fixed : FixedSize planner.memo id) {map : MapField}
    (declared : map ∈ (schema.get id).maps) : options.mode id map.number = .drop := by
  by_contra kept
  obtain ⟨layout, found, covers, -, kinds⟩ := planned.fixed fixed
  obtain ⟨m, listed, same⟩ := covers.maps map declared kept
  have kind := ((covers.members m listed).map map same).1
  simpa [kind] using kinds m listed

/-- A fixed-size message has no oneof. -/
theorem fixed_oneofs (fixed : FixedSize planner.memo id) : (schema.get id).oneofs = [] := by
  obtain ⟨layout, found, covers, empty, -⟩ := planned.fixed fixed
  have length := covers.oneofs
  rw [empty, List.length_nil] at length
  exact List.length_eq_zero_iff.mp length.symm

/-- What is stored by value is of fixed size. -/
theorem inlined_field {kIsLittleEndian : Bool} {field : Field}
    (declared : field ∈ (schema.get id).fields) {target : MessageId} {delimited : Bool}
    (type : field.type = .message target delimited)
    (inlined : (planner.plan schema options kIsLittleEndian).inlined id field.number = true) :
    FixedSize planner.memo target := by
  have number := Message.member?_number (Message.plain_mem.mpr declared)
  rw [Member.number] at number
  simp only [Planner.plan, number] at inlined
  cases found : planner.memo.lookup id with
  | none => simp [found] at inlined
  | some layout =>
      simp only [found, MessageLayout.inlines, List.any_eq_true, Bool.and_eq_true,
        decide_eq_true_eq] at inlined
      obtain ⟨m, listed, same, kind⟩ := inlined
      obtain ⟨_, _, split, -⟩ := List.lookup_eq_some_iff.mp found
      have covers := planned.covered (id, layout) (by rw [split]; simp)
      obtain ⟨is, -⟩ := (covers.members m listed).field field target delimited same type
      obtain ⟨_, inner, eq, known, fixed, -⟩ :=
        ((planned.sound.classified found).members m listed).inlined kind
      rw [is] at eq
      cases eq
      exact ⟨inner, known, fixed⟩

theorem inlined_map {kIsLittleEndian : Bool} {map : MapField}
    (declared : map ∈ (schema.get id).maps) {target : MessageId}
    (type : map.value = .message target)
    (inlined : (planner.plan schema options kIsLittleEndian).inlined id map.number = true) :
    FixedSize planner.memo target := by
  have number := Message.member?_number (Message.mapped_mem.mpr declared)
  rw [Member.number] at number
  simp only [Planner.plan, number] at inlined
  cases found : planner.memo.lookup id with
  | none => simp [found] at inlined
  | some layout =>
      simp only [found, MessageLayout.inlines, List.any_eq_true, Bool.and_eq_true,
        decide_eq_true_eq, Option.any_eq_true] at inlined
      obtain ⟨m, listed, same, entry, isEntry, kind⟩ := inlined
      obtain ⟨other, declaredAs, sound⟩ :=
        ((planned.sound.classified found).members m listed).entry entry isEntry
      rw [same] at declaredAs
      cases declaredAs
      obtain ⟨_, inner, eq, known, fixed, -⟩ := sound.inlined kind
      rw [(sound.target target).mpr type] at eq
      cases eq
      exact ⟨inner, known, fixed⟩

end Planner.Planned

end RapidProto
