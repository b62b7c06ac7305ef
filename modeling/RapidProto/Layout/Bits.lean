import RapidProto.Layout.Covers
import RapidProto.Layout.Modes
import RapidProto.Mask
import RapidProto.Tree.Step

/-!
# Mask bits

`allocate_bits` numbers the presence, value and unknown bits of a message through, and the mask is
the smallest word, or array of words, that holds them.  The generated statements that set, clear and
test a bit act on that bit alone, so a record changes the answers of its own field only.
-/

namespace RapidProto

/-! ## Allocation -/

/-- The mask bits of a member. -/
def MemberPlan.bits (m : MemberPlan) : List Nat := m.presenceBit.toList ++ m.valueBit.toList

/-- All mask bits of a message. -/
def MessageLayout.bits (layout : MessageLayout) : List Nat :=
  layout.members.flatMap MemberPlan.bits ++ layout.unknownBit.toList

/-- A mask size for which there is a C++ type: one unsigned word, or an array of `uint64_t`. -/
def AdmittedMaskSize (bytes : Nat) : Prop := bytes = 1 ∨ bytes = 2 ∨ bytes = 4 ∨ bytes % 8 = 0

theorem maskExtent_admitted (bits : Nat) : AdmittedMaskSize (maskExtent bits).size := by
  simp only [maskExtent, AdmittedMaskSize]
  split_ifs <;> simp

theorem maskExtent_holds (bits : Nat) : bits ≤ 8 * (maskExtent bits).size := by
  simp only [maskExtent]
  split_ifs <;> simp <;> omega

theorem maskExtent_smallest {bits bytes : Nat} (admitted : AdmittedMaskSize bytes)
    (holds : bits ≤ 8 * bytes) : (maskExtent bits).size ≤ bytes := by
  simp only [AdmittedMaskSize] at admitted
  simp only [maskExtent]
  split_ifs <;> simp only <;> omega

/-- What the bits of a member stand for. -/
def MemberPlan.labels (m : MemberPlan) : List Plan.Bit :=
  (if m.needsPresence then [.presence m.declared.number] else []) ++
    (if m.isBool then [.value m.declared.number] else [])

/-- The bits of a member, each with what it stands for. -/
def MemberPlan.labelled (m : MemberPlan) : List (Plan.Bit × Nat) :=
  m.presenceBit.toList.map (.presence m.declared.number, ·) ++
    m.valueBit.toList.map (.value m.declared.number, ·)

/-- All mask bits of a message, each with what it stands for. -/
def MessageLayout.labelled (layout : MessageLayout) : List (Plan.Bit × Nat) :=
  layout.members.flatMap MemberPlan.labelled ++ layout.unknownBit.toList.map (.unknown, ·)

/-- What the bits of a classified message will stand for. -/
def MessageLayout.labels (options : LayoutOptions) (layout : MessageLayout) : List Plan.Bit :=
  layout.members.flatMap MemberPlan.labels ++
    (if options.tracksUnknown layout.id then [.unknown] else [])

theorem MemberPlan.labelled_snd (m : MemberPlan) : m.labelled.map Prod.snd = m.bits := by
  cases presence : m.presenceBit <;> cases value : m.valueBit <;>
    simp [labelled, bits, presence, value]

theorem MessageLayout.labelled_snd (layout : MessageLayout) :
    layout.labelled.map Prod.snd = layout.bits := by
  rw [labelled, bits, List.map_append, List.map_flatMap]
  congr 1
  · exact List.flatMap_congr fun m _ => m.labelled_snd
  · cases layout.unknownBit <;> simp

/-- The members' bits are numbered through in declaration order. -/
theorem assignBits_labelled (members : List MemberPlan) (next : Nat) :
    (assignBits members next).1.flatMap MemberPlan.labelled =
        (members.flatMap MemberPlan.labels).zipIdx next ∧
      (assignBits members next).2 = next + (members.flatMap MemberPlan.labels).length := by
  induction members generalizing next with
  | nil => simp [assignBits]
  | cons m members ih =>
      cases presence : m.needsPresence with
      | false =>
          cases value : m.isBool with
          | false =>
              obtain ⟨bits, last⟩ := ih next
              simp [assignBits, presence, value, MemberPlan.labelled, MemberPlan.labels, bits, last]
          | true =>
              obtain ⟨bits, last⟩ := ih (next + 1)
              simp [assignBits, presence, value, MemberPlan.labelled, MemberPlan.labels, bits, last]
              omega
      | true =>
          cases value : m.isBool with
          | false =>
              obtain ⟨bits, last⟩ := ih (next + 1)
              simp [assignBits, presence, value, MemberPlan.labelled, MemberPlan.labels, bits, last]
              omega
          | true =>
              obtain ⟨bits, last⟩ := ih (next + 1 + 1)
              simp [assignBits, presence, value, MemberPlan.labelled, MemberPlan.labels, bits, last]
              omega

/-- The allocated bits are numbered through, the unknown bit last. -/
theorem allocateBits_labelled (options : LayoutOptions) (layout : MessageLayout) :
    (allocateBits options layout).labelled = (layout.labels options).zipIdx ∧
      (allocateBits options layout).maskBits = (layout.labels options).length := by
  obtain ⟨bits, last⟩ := assignBits_labelled layout.members 0
  simp only [Nat.zero_add] at last
  cases tracks : options.tracksUnknown layout.id <;>
    simp [allocateBits, MessageLayout.labelled, MessageLayout.labels, bits, last, tracks,
      List.zipIdx_append]

theorem placeMembers_labelled (placed : List (Place × Nat)) (index : Nat)
    (members : List MemberPlan) :
    (placeMembers placed index members).flatMap MemberPlan.labelled =
      members.flatMap MemberPlan.labelled := by
  induction members generalizing index with
  | nil => rfl
  | cons m members ih => simp only [placeMembers, List.flatMap_cons, ih, MemberPlan.labelled]

/-- Ordering the members reorders their bits. -/
theorem finishLayout_labelled (options : LayoutOptions) (raw : MessageLayout) :
    (finishLayout options raw).labelled.Perm (raw.labels options).zipIdx := by
  rw [← (allocateBits_labelled options raw).1]
  refine List.Perm.append ?_ (List.Perm.refl _)
  simp only [finishLayout, orderMembers]
  refine ((List.perm_insertionSort _ _).flatMap_right _).trans ?_
  rw [placeMembers_labelled]

theorem finishLayout_maskBits (options : LayoutOptions) (raw : MessageLayout) :
    (finishLayout options raw).maskBits = (raw.labels options).length :=
  (allocateBits_labelled options raw).2

/-- Every bit below the total is allocated once. -/
theorem finishLayout_bits (options : LayoutOptions) (raw : MessageLayout) :
    (finishLayout options raw).bits.Perm (List.range (finishLayout options raw).maskBits) := by
  rw [finishLayout_maskBits, ← MessageLayout.labelled_snd, List.range_eq_range',
    ← List.zipIdx_map_snd]
  exact (finishLayout_labelled options raw).map Prod.snd

theorem finishLayout_maskSize (options : LayoutOptions) (raw : MessageLayout) :
    (finishLayout options raw).maskSize =
      (maskExtent (finishLayout options raw).maskBits).size := rfl

/-! ## The members of a layout, in declaration order -/

/-- The member's kind follows from its declaration and mode, up to the choice between the two ways
to store a sub-message. -/
structure MemberPlan.Typed (options : LayoutOptions) (id : MessageId) (m : MemberPlan) : Prop where
  raw : ∀ field, m.declared = .field field → options.mode id field.number = .raw →
    m.kind = .raw ∧ m.isBool = false
  repeated : ∀ field, m.declared = .field field → options.mode id field.number ≠ .raw →
    field.isRepeated = true → m.kind = .repeated ∧ m.isBool = false
  leaf : ∀ field kind, m.declared = .field field → options.mode id field.number ≠ .raw →
    field.isRepeated = false → field.type = .leaf kind →
      m.kind = kind.kind ∧ m.isBool = decide (kind = .scalar .bool)
  message : ∀ field target delimited, m.declared = .field field →
    options.mode id field.number ≠ .raw → field.isRepeated = false →
    field.type = .message target delimited →
      (m.kind = .inlineFixedSubMsg ∨ m.kind = .pointerSubMsg) ∧ m.isBool = false
  map : ∀ map, m.declared = .map map → m.isBool = false

/-- A singular bool, and nothing else, has a value bit. -/
theorem MemberPlan.Typed.isBool {options : LayoutOptions} {id : MessageId} {m : MemberPlan}
    (typed : m.Typed options id) {field : Field} (declared : m.declared = .field field)
    (allowed : field.Allows (options.mode id field.number)) :
    m.isBool = Plan.needsValue field := by
  by_cases isRaw : options.mode id field.number = .raw
  · obtain ⟨target, delimited, type⟩ := allowed.2 isRaw
    simp [Plan.needsValue, type, (typed.raw field declared isRaw).2]
  cases repeated : field.isRepeated with
  | true => simp [Plan.needsValue, repeated, (typed.repeated field declared isRaw repeated).2]
  | false =>
      cases type : field.type with
      | leaf kind =>
          simp [Plan.needsValue, repeated, type,
            (typed.leaf field kind declared isRaw repeated type).2]
      | message target delimited =>
          simp [Plan.needsValue, type,
            (typed.message field target delimited declared isRaw repeated type).2]

/-- The members are the kept fields and maps among these, in declaration order. -/
structure MessageLayout.Lists (options : LayoutOptions) (id : MessageId) (fields : List Field)
    (maps : List MapField) (layout : MessageLayout) : Prop where
  owner : layout.id = id
  declared : layout.members.map MemberPlan.declared =
    (fields.filter fun field => options.mode id field.number ≠ .drop).map .field ++
      (maps.filter fun map => options.mode id map.number ≠ .drop).map .map
  typed : ∀ m ∈ layout.members, m.Typed options id

/-- Every finished layout comes from a list of its message's members. -/
def Planner.Listed (schema : Schema) (options : LayoutOptions) (planner : Planner) : Prop :=
  ∀ entry ∈ planner.memo, ∃ raw : MessageLayout,
    raw.Lists options entry.1 (schema.get entry.1).fields (schema.get entry.1).maps ∧
      entry.2 = finishLayout options raw

section Steps

variable {schema : Schema} {options : LayoutOptions} {id : MessageId}
  {compute : MessageId → Planner → Planning (MessageLayout × Planner)} {holds : Planner → Prop}

/-- Which stores a sub-message can have. -/
theorem classifyMessage_kind {target : MessageId} {planner : Planner}
    {result : Planner.Store × Planner}
    (ran : classifyMessage schema options compute target planner = .ok result) :
    result.1.kind = .inlineFixedSubMsg ∨ result.1.kind = .pointerSubMsg := by
  have always : ComputeKeeps (fun _ => True) compute := fun _ _ _ _ _ => trivial
  exact (classifyMessage_keeps always trivial ran).2

theorem classifyField_typed {field : Field} {planner : Planner} {result : MemberPlan × Planner}
    (materialized : options.mode id field.number = .materialize)
    (ran : classifyField schema options compute field planner = .ok result) :
    result.1.declared = .field field ∧ result.1.Typed options id := by
  have notRaw : ∀ other : Field, Declared.field field = .field other →
      options.mode id other.number ≠ .raw := by
    intro other same raw
    cases same
    rw [materialized] at raw
    cases raw
  simp only [classifyField] at ran
  split at ran
  · rename_i repeated
    cases ran
    refine ⟨rfl, ⟨fun other same raw => absurd raw (notRaw other same), fun _ _ _ _ => ⟨rfl, rfl⟩,
      fun other kind same _ singular _ => ?_, fun other _ _ same _ singular _ => ?_,
      fun _ same => by cases same⟩⟩
    · cases same
      simp [repeated] at singular
    · cases same
      simp [repeated] at singular
  rename_i singular
  have notRepeated : ∀ other : Field, Declared.field field = .field other →
      other.isRepeated ≠ true := by
    intro other same
    cases same
    exact singular
  split at ran
  · rename_i target' delimited' type
    obtain ⟨⟨store, planner'⟩, classified, same⟩ := Outcome.bind_eq_ok.mp ran
    cases same
    refine ⟨rfl, ⟨fun other same raw => absurd raw (notRaw other same),
      fun other same _ repeated => absurd repeated (notRepeated other same),
      fun other kind same _ _ found => ?_,
      fun _ _ _ _ _ _ _ => ⟨classifyMessage_kind classified, rfl⟩, fun _ same => by cases same⟩⟩
    cases same
    rw [type] at found
    cases found
  · rename_i type
    cases ran
    refine ⟨rfl, ⟨fun other same raw => absurd raw (notRaw other same),
      fun other same _ repeated => absurd repeated (notRepeated other same),
      fun other kind same _ _ found => ?_, fun other _ _ same _ _ found => ?_,
      fun _ same => by cases same⟩⟩
    · cases same
      rw [type] at found
      cases found
      exact ⟨rfl, rfl⟩
    · cases same
      rw [type] at found
      cases found
  · rename_i kind' notBool type
    cases ran
    refine ⟨rfl, ⟨fun other same raw => absurd raw (notRaw other same),
      fun other same _ repeated => absurd repeated (notRepeated other same),
      fun other kind same _ _ found => ?_, fun other _ _ same _ _ found => ?_,
      fun _ same => by cases same⟩⟩
    · cases same
      rw [type] at found
      cases found
      refine ⟨rfl, (decide_eq_false fun bool => ?_).symm⟩
      exact notBool (by rw [bool])
    · cases same
      rw [type] at found
      cases found

variable {fields : List Field} {maps : List MapField} {state state' : MessageLayout × Planner}

theorem MessageLayout.Lists.addField {field : Field}
    (lists : state.1.Lists options id fields [])
    (ran : addField schema options compute id state field = .ok state') :
    state'.1.Lists options id (fields ++ [field]) [] := by
  obtain ⟨layout, planner⟩ := state
  have widen : ∀ m : MemberPlan, m.declared = .field field → m.Typed options id →
      options.mode id field.number ≠ .drop →
      MessageLayout.Lists options id (fields ++ [field]) []
        { layout with members := layout.members ++ [m] } := by
    intro m declared typed kept
    refine ⟨lists.owner, ?_, fun other met => ?_⟩
    · simpa [List.filter_append, kept, declared] using lists.declared
    · rcases List.mem_append.mp met with earlier | last
      · exact lists.typed other earlier
      · cases List.mem_singleton.mp last
        exact typed
  simp only [RapidProto.addField] at ran
  split at ran
  · rename_i dropped
    cases ran
    refine ⟨lists.owner, ?_, lists.typed⟩
    simpa [List.filter_append, dropped] using lists.declared
  · rename_i isRaw
    cases ran
    refine widen _ rfl ⟨fun _ _ _ => ⟨rfl, rfl⟩, fun other same notRaw => ?_,
      fun other _ same notRaw => ?_, fun other _ _ same notRaw => ?_,
      fun _ same => by cases same⟩ (by simp [isRaw])
    · cases same
      exact absurd isRaw notRaw
    · cases same
      exact absurd isRaw notRaw
    · cases same
      exact absurd isRaw notRaw
  · rename_i materialized
    obtain ⟨⟨m, planner'⟩, classified, same⟩ := Outcome.bind_eq_ok.mp ran
    cases same
    obtain ⟨declared, typed⟩ := classifyField_typed materialized classified
    exact widen m declared typed (by simp [materialized])

theorem MessageLayout.Lists.addMap {map : MapField} (lists : state.1.Lists options id fields maps)
    (ran : addMap schema options compute id state map = .ok state') :
    state'.1.Lists options id fields (maps ++ [map]) := by
  obtain ⟨layout, planner⟩ := state
  by_cases dropped : options.mode id map.number = .drop
  · simp only [RapidProto.addMap, dropped] at ran
    cases ran
    refine ⟨lists.owner, ?_, lists.typed⟩
    simpa [List.filter_append, dropped] using lists.declared
  rw [addMap_kept dropped] at ran
  obtain ⟨⟨entry, planner'⟩, -, same⟩ := Outcome.bind_eq_ok.mp ran
  cases same
  refine ⟨lists.owner, ?_, fun other met => ?_⟩
  · simp [List.filter_append, dropped, lists.declared]
  · rcases List.mem_append.mp met with earlier | last
    · exact lists.typed other earlier
    · cases List.mem_singleton.mp last
      exact ⟨fun _ same => (by cases same), fun _ same => (by cases same),
        fun _ _ same => (by cases same), fun _ _ _ same => (by cases same), fun _ _ => rfl⟩

theorem MessageLayout.Lists.addOneof {members : List Field}
    (lists : state.1.Lists options id fields maps)
    (ran : addOneof schema options compute state members = .ok state') :
    state'.1.Lists options id fields maps := by
  obtain ⟨layout, planner⟩ := state
  obtain ⟨⟨plan, planner'⟩, -, same⟩ := Outcome.bind_eq_ok.mp ran
  cases same
  exact ⟨lists.owner, lists.declared, lists.typed⟩

end Steps

/-! ## The recursion -/

variable {schema : Schema} {options : LayoutOptions}

theorem compute_listed (frames : Nat) :
    ComputeKeeps (Planner.Listed schema options) (compute schema options frames) := by
  induction frames with
  | zero =>
      intro id planner result _ ran
      cases ran
  | succ frames ih =>
      intro id planner result listed ran
      rw [compute] at ran
      obtain ⟨afterFields, ranFields, ran⟩ := Outcome.bind_eq_ok.mp ran
      obtain ⟨afterMaps, ranMaps, ran⟩ := Outcome.bind_eq_ok.mp ran
      obtain ⟨⟨layout, final⟩, ranOneofs, ran⟩ := Outcome.bind_eq_ok.mp ran
      have first := @Outcome.foldlM_induct _ _ _
        (fun consumed (state : MessageLayout × Planner) =>
          (state.2.Listed schema options ∧ state.1.Covers options id consumed [] []) ∧
            state.1.Lists options id consumed []) _ _
        (fun consumed field _ state state' partly stepped =>
          ⟨addField_covers ih partly.1.1 partly.1.2 stepped, partly.2.addField stepped⟩) [] _ _
        ⟨⟨listed, ⟨by simp, by simp, by simp, rfl⟩⟩, ⟨rfl, rfl, by simp⟩⟩ ranFields
      have second := @Outcome.foldlM_induct _ _ _
        (fun consumed (state : MessageLayout × Planner) =>
          (state.2.Listed schema options ∧
            state.1.Covers options id ([] ++ (schema.get id).fields) consumed []) ∧
            state.1.Lists options id ([] ++ (schema.get id).fields) consumed) _ _
        (fun consumed map _ state state' partly stepped =>
          ⟨addMap_covers ih partly.1.1 partly.1.2 stepped, partly.2.addMap stepped⟩) [] _ _
        first ranMaps
      obtain ⟨⟨listed', -⟩, lists⟩ := @Outcome.foldlM_induct _ _ _
        (fun consumed (state : MessageLayout × Planner) =>
          (state.2.Listed schema options ∧
            state.1.Covers options id ([] ++ (schema.get id).fields)
              ([] ++ (schema.get id).maps) consumed) ∧
            state.1.Lists options id ([] ++ (schema.get id).fields)
              ([] ++ (schema.get id).maps)) _ _
        (fun consumed members _ state state' partly stepped =>
          ⟨addOneof_covers ih partly.1.1 partly.1.2 stepped, partly.2.addOneof stepped⟩) [] _ _
        second ranOneofs
      cases ran
      rw [Planner.store]
      split
      · exact listed'
      · intro entry met
        rcases List.mem_append.mp met with earlier | last
        · exact listed' entry earlier
        · cases List.mem_singleton.mp last
          exact ⟨layout, lists, rfl⟩

theorem planLayouts_listed {walk : List MessageId} {planner : Planner}
    (ran : planLayouts schema options walk = .ok planner) : planner.Listed schema options := by
  refine @Outcome.foldlM_induct _ _ _
    (fun _ (planner : Planner) => planner.Listed schema options) _ _
    (fun _ id _ state state' listed stepped => ?_) [] _ _ (by simp [Planner.Listed]) ran
  obtain ⟨result, laid, same⟩ := Outcome.bind_eq_ok.mp stepped
  cases same
  exact layoutFor_keeps (compute_listed kMaxChainDepth) listed laid

/-! ## The decoder's bits -/

section Decoder

variable {planner : Planner} {id : MessageId} {raw : MessageLayout} {kIsLittleEndian : Bool}

/-- The bits of a declaration. -/
def Declared.bits (plan : Plan) (id : MessageId) : Declared → List Plan.Bit
  | .field declared => plan.bitsOf id declared
  | .map _ => []

/-- No two members are one declaration. -/
theorem MessageLayout.Lists.unique
    (lists : raw.Lists options id (schema.get id).fields (schema.get id).maps) {m m' : MemberPlan}
    (listed : m ∈ raw.members) (listed' : m' ∈ raw.members) (same : m.declared = m'.declared) :
    m = m' := by
  have numbers : (raw.members.map fun m => m.declared.number).Nodup := by
    have distinct := (schema.get id).distinct
    rw [List.nodup_append] at distinct
    have names : raw.members.map (fun m => m.declared.number) =
        (raw.members.map MemberPlan.declared).map Declared.number := by simp
    rw [names, lists.declared, List.map_append, List.map_map, List.map_map]
    exact distinct.1.sublist
      ((List.filter_sublist.map Field.number).append (List.filter_sublist.map MapField.number))
  exact List.inj_on_of_nodup_map numbers listed listed' (by rw [same])

/-- The decoder's storage kind of a field is the planned one. -/
theorem MessageLayout.Lists.kind
    (lists : raw.Lists options id (schema.get id).fields (schema.get id).maps)
    (found : planner.memo.lookup id = some (finishLayout options raw)) {m : MemberPlan}
    (listed : m ∈ raw.members) {field : Field} (declared : m.declared = .field field)
    (known : field ∈ (schema.get id).fields)
    (allowed : field.Allows (options.mode id field.number)) :
    (planner.plan schema options kIsLittleEndian).kind id field = m.kind := by
  have typed := lists.typed m listed
  cases type : field.type with
  | leaf kind =>
      have notRaw : options.mode id field.number ≠ .raw := by
        intro raw
        obtain ⟨_, _, message⟩ := allowed.2 raw
        rw [type] at message
        cases message
      cases repeated : field.isRepeated with
      | true => simp [Plan.kind, type, repeated, (typed.repeated field declared notRaw repeated).1]
      | false =>
          rw [(typed.leaf field kind declared notRaw repeated type).1]
          simp only [Plan.kind, type, repeated]
          cases kind with
          | enum => rfl
          | scalar scalar => cases scalar <;> rfl
  | message target delimited =>
      by_cases isRaw : options.mode id field.number = .raw
      · rw [(typed.raw field declared isRaw).1]
        simp [Plan.kind, type, Planner.plan, isRaw]
      cases repeated : field.isRepeated with
      | true =>
          rw [(typed.repeated field declared isRaw repeated).1]
          simp [Plan.kind, type, Planner.plan, isRaw, repeated]
      | false =>
          have number := Message.member?_number (Message.plain_mem.mpr known)
          rw [Member.number] at number
          have inlined : (planner.plan schema options kIsLittleEndian).inlined id field.number =
              decide (m.kind = .inlineFixedSubMsg) := by
            have perm := finishLayout_members options raw
            simp only [Planner.plan, found, number, MessageLayout.inlines]
            rw [Bool.eq_iff_iff, List.any_eq_true, decide_eq_true_eq]
            constructor
            · rintro ⟨m', listed', inline⟩
              obtain ⟨m₀, listed₀, same⟩ :=
                List.mem_map.mp (perm.subset (List.mem_map_of_mem listed'))
              simp only [Bool.and_eq_true, decide_eq_true_eq] at inline
              have declared₀ : m₀.declared = m'.declared :=
                show m₀.bare.declared = m'.bare.declared by rw [same]
              have kind₀ : m₀.kind = m'.kind := show m₀.bare.kind = m'.bare.kind by rw [same]
              rw [lists.unique listed listed₀ (by rw [declared, declared₀, inline.1]), kind₀]
              exact inline.2
            · intro inline
              obtain ⟨m', listed', same⟩ :=
                List.mem_map.mp (perm.symm.subset (List.mem_map_of_mem listed))
              have declared' : m'.declared = m.declared :=
                show m'.bare.declared = m.bare.declared by rw [same]
              have kind' : m'.kind = m.kind := show m'.bare.kind = m.bare.kind by rw [same]
              exact ⟨m', listed', by simp [declared', declared, kind', inline]⟩
          have mode : (planner.plan schema options kIsLittleEndian).mode id field.number ≠ .raw :=
            isRaw
          simp only [Plan.kind, type, mode, repeated, inlined, if_false, Bool.false_eq_true]
          rcases (typed.message field target delimited declared isRaw repeated type).1 with kind | kind
          · simp [kind]
          · simp [kind]

/-- A member's bits are the ones its declaration asks for. -/
theorem MessageLayout.Lists.labels_member
    (lists : raw.Lists options id (schema.get id).fields (schema.get id).maps)
    (found : planner.memo.lookup id = some (finishLayout options raw))
    (allowed : ∀ field ∈ (schema.get id).fields, field.Allows (options.mode id field.number))
    {m : MemberPlan} (listed : m ∈ raw.members) :
    m.labels = m.declared.bits (planner.plan schema options kIsLittleEndian) id := by
  have typed := lists.typed m listed
  have met := List.mem_map_of_mem (f := MemberPlan.declared) listed
  cases declared : m.declared with
  | map map =>
      simp [MemberPlan.labels, MemberPlan.needsPresence, declared, typed.map map declared,
        Declared.bits]
  | field field =>
      rw [lists.declared, declared] at met
      simp only [ne_eq, List.mem_append, List.mem_map, List.mem_filter, decide_not,
        Bool.not_eq_eq_eq_not, Bool.not_true, decide_eq_false_iff_not, Declared.field.injEq,
        reduceCtorEq, and_false, exists_false, or_false, exists_eq_right] at met
      obtain ⟨known, kept⟩ := met
      have kind := @MessageLayout.Lists.kind _ _ _ _ _ kIsLittleEndian lists found _ listed _ declared
        known (allowed field known)
      have presence : m.needsPresence =
          (planner.plan schema options kIsLittleEndian).needsPresence id field := by
        cases planned : m.kind <;>
          simp [MemberPlan.needsPresence, declared, Plan.needsPresence, kind, planned]
      have value := typed.isBool declared (allowed field known)
      have mode : (planner.plan schema options kIsLittleEndian).mode id field.number ≠ .drop := kept
      simp only [MemberPlan.labels, presence, value, declared, Declared.bits, Declared.number,
        Plan.bitsOf, mode, if_false]

/-- The decoder numbers the bits as the planner does. -/
theorem MessageLayout.Lists.labels_eq
    (lists : raw.Lists options id (schema.get id).fields (schema.get id).maps)
    (found : planner.memo.lookup id = some (finishLayout options raw))
    (allowed : ∀ field ∈ (schema.get id).fields, field.Allows (options.mode id field.number)) :
    raw.labels options =
      (planner.plan schema options kIsLittleEndian).allocateBits id (schema.get id) := by
  have dropped : ∀ fields : List Field,
      (fields.filter fun field => options.mode id field.number ≠ .drop).flatMap
          ((planner.plan schema options kIsLittleEndian).bitsOf id) =
        fields.flatMap ((planner.plan schema options kIsLittleEndian).bitsOf id) := by
    intro fields
    induction fields with
    | nil => rfl
    | cons field fields ih =>
        by_cases drop : options.mode id field.number = .drop
        · rw [List.filter_cons_of_neg (by simpa using drop), ih, List.flatMap_cons, Plan.bitsOf,
            if_pos (show (planner.plan schema options kIsLittleEndian).mode id field.number = .drop
              from drop), List.nil_append]
        · rw [List.filter_cons_of_pos (by simpa using drop), List.flatMap_cons, ih,
            List.flatMap_cons]
  have members : raw.members.flatMap MemberPlan.labels =
      (raw.members.map MemberPlan.declared).flatMap
        (Declared.bits (planner.plan schema options kIsLittleEndian) id) := by
    rw [List.flatMap_map]
    exact List.flatMap_congr fun m listed => lists.labels_member found allowed listed
  rw [MessageLayout.labels, lists.owner, members, lists.declared, List.flatMap_append,
    List.flatMap_map, List.flatMap_map, Plan.allocateBits, ← dropped]
  congr 1
  exact List.append_right_eq_self.mpr (List.flatMap_eq_nil_iff.mpr fun _ _ => rfl)

/-- The decoder has one name for each bit. -/
theorem Plan.allocateBits_nodup (plan : Plan) (id : MessageId) (message : Message) :
    (plan.allocateBits id message).Nodup := by
  have numbered : ∀ field bit, bit ∈ plan.bitsOf id field →
      bit = .presence field.number ∨ bit = .value field.number := by
    intro field bit listed
    rw [Plan.bitsOf] at listed
    split at listed
    · cases listed
    rcases List.mem_append.mp listed with presence | value
    · split at presence
      · exact .inl (List.mem_singleton.mp presence)
      · cases presence
    · split at value
      · exact .inr (List.mem_singleton.mp value)
      · cases value
  have fields : (message.fields.map Field.number).Nodup :=
    (List.nodup_append.mp (List.nodup_append.mp message.distinct).1).1
  rw [Plan.allocateBits, List.nodup_append]
  refine ⟨List.nodup_flatMap.mpr ⟨fun field _ => ?_, ?_⟩, ?_, ?_⟩
  · rw [Plan.bitsOf]
    split
    · exact List.nodup_nil
    · split <;> split <;> simp
  · refine (List.pairwise_map.mp fields).imp fun differ => ?_
    intro bit first second
    rcases numbered _ _ first with rfl | rfl <;> rcases numbered _ _ second with same | same
    · exact differ (Plan.Bit.presence.inj same)
    · cases same
    · cases same
    · exact differ (Plan.Bit.value.inj same)
  · split <;> simp
  · intro bit first final last same
    obtain ⟨field, -, listed⟩ := List.mem_flatMap.mp first
    split at last
    · cases List.mem_singleton.mp last
      rcases numbered _ _ listed with rfl | rfl <;> cases same
    · cases last

/-- A name stands at its own index. -/
theorem mem_zipIdx_nodup {α : Type} [DecidableEq α] {names : List α} (distinct : names.Nodup)
    {name : α} {index : Nat} :
    (name, index) ∈ names.zipIdx ↔ name ∈ names ∧ names.idxOf name = index := by
  rw [List.mem_zipIdx_iff_getElem?]
  dsimp only
  constructor
  · intro found
    obtain ⟨inside, rfl⟩ := List.getElem?_eq_some_iff.mp found
    exact ⟨List.getElem_mem inside, distinct.idxOf_getElem index inside⟩
  · rintro ⟨listed, rfl⟩
    exact List.getElem?_idxOf listed

end Decoder

/-! ## Messages of a profile -/

/-- The allocation of a message: distinct bits that fit the mask, in the smallest mask there is. -/
structure MessageLayout.MaskFits (layout : MessageLayout) : Prop where
  /-- No bit is given twice. -/
  distinct : layout.bits.Nodup
  /-- Every bit is inside. -/
  inside : ∀ bit ∈ layout.bits, bit < 8 * layout.maskSize
  /-- The mask has a type. -/
  admitted : AdmittedMaskSize layout.maskSize
  /-- No smaller mask has room for the bits. -/
  smallest : ∀ bytes, AdmittedMaskSize bytes → (∀ bit ∈ layout.bits, bit < 8 * bytes) →
    layout.maskSize ≤ bytes
  /-- The stored mask has as many bits. -/
  stored : (Mask.ofSize layout.maskSize).capacity = 8 * layout.maskSize
  /-- Setting a bit of the message changes the test of that bit only. -/
  set : ∀ mask : Mask, mask.capacity = 8 * layout.maskSize → ∀ bit ∈ layout.bits,
    (mask.set bit).test = Function.update mask.test bit true
  /-- So does clearing it. -/
  clear : ∀ mask : Mask, mask.capacity = 8 * layout.maskSize → ∀ bit ∈ layout.bits,
    (mask.clear bit).test = Function.update mask.test bit false

theorem finishLayout_maskFits (options : LayoutOptions) (raw : MessageLayout) :
    (finishLayout options raw).MaskFits := by
  have bits := finishLayout_bits options raw
  have size := finishLayout_maskSize options raw
  have inside : ∀ bit ∈ (finishLayout options raw).bits,
      bit < 8 * (finishLayout options raw).maskSize := by
    intro bit listed
    have below := List.mem_range.mp (bits.subset listed)
    have room := maskExtent_holds (finishLayout options raw).maskBits
    rw [size]
    omega
  have admitted : AdmittedMaskSize (finishLayout options raw).maskSize := by
    rw [size]
    exact maskExtent_admitted _
  refine ⟨bits.nodup_iff.mpr List.nodup_range, inside, admitted, fun bytes allowed holds => ?_, ?_,
    fun mask room bit listed => Mask.test_set (room ▸ inside bit listed),
    fun mask room bit listed => Mask.test_clear (room ▸ inside bit listed)⟩
  · rw [size]
    refine maskExtent_smallest allowed ?_
    by_contra short
    have last := holds (8 * bytes) (bits.symm.subset (List.mem_range.mpr (by omega)))
    omega
  · refine Mask.capacity_ofSize fun large => ?_
    rw [AdmittedMaskSize] at admitted
    omega

/-- What a record of a declared member does to the answers. -/
structure RecordEffect (schema : Schema) (plan : Plan) {allocator : Allocator} (id : MessageId)
    (member : Member) (tag : Tag) (value : Payload) (frame frame' : Frame allocator) : Prop where
  /-- Only the member's own accessor answers differently. -/
  others : ∀ step path, step ≠ member.accessor →
    frame'.answers schema plan id (step :: path) = frame.answers schema plan id (step :: path)
  /-- A field with explicit presence is present. -/
  present : ∀ field, member = .plain field → tag = member.tag →
    plan.mode id field.number ≠ .drop → field.presence = .explicit →
    frame'.answers schema plan id [.field field.number] ≠ .absent
  /-- A required field is noted. -/
  required : ∀ field, member = .plain field → tag = member.tag →
    plan.mode id field.number ≠ .drop → field.presence = .required →
    frame'.req ((schema.get id).requiredBit field.number) = true
  /-- The reader of a oneof reports the member. -/
  chosen : ∀ oneof index field, member = .choice oneof index field → tag = member.tag →
    frame'.answers schema plan id [.oneof oneof] = .member index
  /-- A bool's value bit is the record's value. -/
  valueBit : ∀ field, member = .plain field → tag = member.tag →
    plan.mode id field.number ≠ .drop → Plan.needsValue field = true →
    frame'.out.mask (plan.bitIndex id (schema.get id) (.value field.number)) =
      decide ((Leaf.scalar .bool).convert value = .flag true)

section Records

variable {schema : Schema} {plan : Plan} {allocator : Allocator} {id : MessageId}
  {decode : MessageId → Cell → List Byte → allocator.State →
    Outcome DecodeError (Cell × allocator.State)}

/-- Only a discriminant that does not fit keeps a record from its effect. -/
theorem step_recordEffect_iff {frame frame' : Frame allocator} {tag : Tag} {value : Payload}
    {bytes : List Byte} {member : Member}
    (found : (schema.get id).member? tag.fieldNumber = some member)
    (short : value.bytes.length ≤ kUint32Max)
    (stepped : (treeBodies schema plan allocator decode id).step frame
      (.record tag value bytes) = .ok frame') :
    RecordEffect schema plan id member tag value frame frame' ↔
      ∀ oneof index field, member = .choice oneof index field → tag = member.tag →
        index < 256 := by
  obtain ⟨declared, -⟩ := Message.mem_of_member? found
  have marks : ∀ field, member = .plain field → tag = member.tag →
      plan.mode id field.number ≠ .drop → field.isRepeated = false →
      Marks schema plan id field value frame frame' := by
    rintro field rfl rfl kept singular
    exact step_marks (Message.plain_mem.mp declared) kept singular stepped
  have reported : ∀ oneof index field, member = .choice oneof index field → tag = member.tag →
      (frame'.answers schema plan id [.oneof oneof] = .member index ↔ index < 256) := by
    rintro oneof index field rfl rfl
    exact answers_choice declared (step_writes declared stepped).1
  constructor
  · intro effect oneof index field same own
    exact (reported oneof index field same own).mp (effect.chosen oneof index field same own)
  · intro small
    refine ⟨fun step path other => (step_keeps found stepped).answers declared other, ?_, ?_, ?_, ?_⟩
    · rintro field rfl own kept explicit
      exact (marks field rfl own kept (by simp [Field.isRepeated, explicit])).answers_present
        (Message.plain_mem.mp declared) kept explicit short
    · intro field same own kept isRequired
      exact (marks field same own kept (by simp [Field.isRepeated, isRequired])).required isRequired
    · intro oneof index field same own
      exact (reported oneof index field same own).mpr (small oneof index field same own)
    · intro field same own kept bool
      have singular : field.isRepeated = false := by
        simp only [Plan.needsValue, Bool.decide_and, Bool.and_eq_true, decide_eq_true_eq] at bool
        simpa using bool.2
      exact (marks field same own kept singular).value bool

end Records

/-- The mask of every message of a profile has a place for every bit, the decoder uses those places,
and a record changes what its member's accessor answers and nothing else; it marks its member,
unless that is a oneof member whose index does not fit the discriminant. -/
theorem record_effect_iff (schema : Schema) (symbols : SymbolTable schema) (spec : FieldModesSpec)
    (messages walk : List MessageId) (modes : FieldModes) (cutoff : Nat) (planner : Planner)
    (kIsLittleEndian : Bool) (id : MessageId) (layout : MessageLayout)
    (resolved : resolveFieldModes symbols spec messages = .ok modes)
    (planned : planLayouts schema (modes.options schema cutoff) walk = .ok planner)
    (found : planner.memo.lookup id = some layout) :
    layout.MaskFits ∧
      (∀ name bit, (name, bit) ∈ layout.labelled ↔
        name ∈ (planner.plan schema (modes.options schema cutoff) kIsLittleEndian).allocateBits id
            (schema.get id) ∧
          (planner.plan schema (modes.options schema cutoff) kIsLittleEndian).bitIndex id
            (schema.get id) name = bit) ∧
      ∀ (allocator : Allocator) (decode : MessageId → Cell → List Byte → allocator.State →
          Outcome DecodeError (Cell × allocator.State)) (frame frame' : Frame allocator) (tag : Tag)
        (value : Payload) (bytes : List Byte) (member : Member),
        (schema.get id).member? tag.fieldNumber = some member →
        value.bytes.length ≤ kUint32Max →
        (treeBodies schema (planner.plan schema (modes.options schema cutoff) kIsLittleEndian)
          allocator decode id).step frame (.record tag value bytes) = .ok frame' →
        (RecordEffect schema (planner.plan schema (modes.options schema cutoff) kIsLittleEndian) id
            member tag value frame frame' ↔
          ∀ oneof index field, member = .choice oneof index field → tag = member.tag →
            index < 256) := by
  obtain ⟨_, _, split, -⟩ := List.lookup_eq_some_iff.mp found
  obtain ⟨raw, lists, same⟩ := planLayouts_listed planned (id, layout) (by rw [split]; simp)
  dsimp only at lists same
  subst same
  refine ⟨finishLayout_maskFits _ raw, fun name bit => ?_, ?_⟩
  · have allowed : ∀ field ∈ (schema.get id).fields,
        field.Allows ((modes.options schema cutoff).mode id field.number) :=
      fun field declared => (resolveFieldModes_valid resolved).mode_allows declared
    rw [(finishLayout_labelled _ raw).mem_iff,
      @MessageLayout.Lists.labels_eq _ _ _ _ _ kIsLittleEndian lists found allowed,
      mem_zipIdx_nodup (Plan.allocateBits_nodup _ id (schema.get id))]
    rfl
  · intro allocator decode frame frame' tag value bytes member declared short stepped
    exact step_recordEffect_iff declared short stepped

/-- A message with an optional bool and an optional number. -/
def flaggedNumber : Schema where
  messages := [{
    fields := [⟨1, .leaf (.scalar .bool), .explicit⟩, ⟨2, .leaf (.scalar .int32), .explicit⟩] }]

/-- The profile that keeps everything. -/
def keepAll (schema : Schema) : LayoutOptions := ({} : FieldModes).options schema 16

/-- The record `1: true` met at the start of a body. -/
theorem record_effect_flag :
    ∃ planner layout frame', planLayouts flaggedNumber (keepAll flaggedNumber) [0] = .ok planner ∧
      planner.memo.lookup 0 = some layout ∧ layout.MaskFits ∧ layout.maskSize = 1 ∧
      (treeBodies flaggedNumber (planner.plan flaggedNumber (keepAll flaggedNumber) true)
        unboundedArena (fun _ cell _ arena => .ok (cell, arena)) 0).step
          { out := .zero, arena := (0 : Nat) } (.record ⟨1, .varint⟩ (.varint 1) [0x01]) =
            .ok frame' ∧
      RecordEffect flaggedNumber (planner.plan flaggedNumber (keepAll flaggedNumber) true) 0
        (.plain ⟨1, .leaf (.scalar .bool), .explicit⟩) ⟨1, .varint⟩ (.varint 1)
        { out := .zero, arena := (0 : Nat) } frame' := by
  obtain ⟨fits, -, effect⟩ := record_effect_iff flaggedNumber (unnamed flaggedNumber) {} [0] [0] {} 16
    _ true 0 _ rfl rfl rfl
  refine ⟨_, _, _, rfl, rfl, fits, rfl, rfl, ?_⟩
  exact (effect unboundedArena (fun _ cell _ arena => .ok (cell, arena)) _ _ _ _ [0x01] _ rfl
    (by decide) rfl).mpr fun _ _ _ same => (nomatch same)

/-- The last of 256 oneof members is stored, and its oneof reads as unset. -/
theorem record_effect_wide :
    ∃ frame' : Frame unboundedArena,
      (treeBodies wideSchema (planOf wideSchema (keepAll wideSchema) [0] true) unboundedArena
        (fun _ cell _ arena => .ok (cell, arena)) 0).step { out := .zero, arena := (0 : Nat) }
          (.record ⟨256, .varint⟩ (.varint 5) [0x05]) = .ok frame' ∧
      frame'.answers wideSchema (planOf wideSchema (keepAll wideSchema) [0] true) 0 [.oneof 0] ≠
        .member 256 ∧
      ¬ RecordEffect wideSchema (planOf wideSchema (keepAll wideSchema) [0] true) 0 wideLast
        ⟨256, .varint⟩ (.varint 5) { out := .zero, arena := (0 : Nat) } frame' := by
  generalize planOf wideSchema (keepAll wideSchema) [0] true = plan
  have stepped : (treeBodies wideSchema plan unboundedArena
      (fun _ cell _ arena => .ok (cell, arena)) 0).step { out := .zero, arena := (0 : Nat) }
        (.record ⟨256, .varint⟩ (.varint 5) [0x05]) =
      .ok { out := (Cell.zero.setUnion 0 256 (.scalar (.w32 5))).setCase 0 256
            arena := (0 : Nat) } := by
    have routed : route ((wideSchema.get 0).shapes (plan.mode 0)) ⟨256, .varint⟩ =
        .native (wideLast.shape (plan.mode 0)) := route_member wideLast_declared rfl
    have number : (wideLast.shape (plan.mode 0)).number = 256 := rfl
    simp only [Bodies.step, treeBodies, routed, number, wideLast_found]
    rfl
  have unset : ¬ (256 : Nat) < 256 := by decide
  refine ⟨_, stepped, ?_, ?_⟩
  · rw [ne_eq, answers_choice (show Member.choice 0 256 _ ∈ _ from wideLast_declared) rfl]
    exact unset
  · have found : (wideSchema.get 0).member? (⟨256, .varint⟩ : Tag).fieldNumber = some wideLast :=
      wideLast_found
    rw [step_recordEffect_iff found (by decide) stepped]
    exact fun small => unset (small 0 256 _ rfl rfl)

end RapidProto
