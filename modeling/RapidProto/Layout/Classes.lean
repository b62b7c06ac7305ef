import RapidProto.Layout.Placed

/-!
# The planner and the compiler

Messages stored by value form no cycle, and every one of them has the size and alignment the planner
recorded for it.  For the other messages the compiler agrees with the planner up to the unions.
-/

namespace RapidProto

open Relation

variable {options : LayoutOptions} {memo : List (MessageId × MessageLayout)}
  {sizeof : MessageId → Extent} {layout : MessageLayout}

/-! ## The data members of a planned message -/

theorem StoreType.extent_regular {type : StoreType}
    (regular : ∀ id, type = .message id → (sizeof id).Regular) : (type.extent sizeof).Regular := by
  cases type with
  | leaf kind => exact kind.extent_regular
  | view => exact regular_view
  | pointer => exact regular_pointer
  | message id => exact regular id rfl

theorem StoreType.extent_congr {sizeof' : MessageId → Extent} {type : StoreType}
    (same : ∀ id, type = .message id → sizeof id = sizeof' id) :
    type.extent sizeof = type.extent sizeof' := by
  cases type with
  | leaf kind => rfl
  | view => rfl
  | pointer => rfl
  | message id => exact same id rfl

theorem MemberPlan.Sound.storedByValue {m : MemberPlan} (sound : m.Sound options memo)
    (met : m ∈ layout.members) {id : MessageId} (stored : m.storageType = .message id) :
    id ∈ layout.storedByValue := by
  cases kind : m.kind with
  | inlineFixedSubMsg =>
      obtain ⟨target, -, same, -⟩ := sound.inlined kind
      simp only [MemberPlan.storageType, kind, same, Option.getD_some] at stored
      cases stored
      simp only [MessageLayout.storedByValue, List.mem_append, List.mem_filterMap]
      exact .inl (.inl ⟨m, met, by rw [if_pos kind, same]⟩)
  | _ => simp [MemberPlan.storageType, kind] at stored

theorem OneofMemberPlan.Sound.storedByValue {o : OneofPlan} {m : OneofMemberPlan}
    (sound : m.Sound options memo) (inside : o ∈ layout.oneofs) (met : m ∈ o.members)
    {id : MessageId} (stored : m.storageType = .message id) : id ∈ layout.storedByValue := by
  cases kind : m.kind with
  | inlineFixedSubMsg =>
      obtain ⟨target, -, same, -⟩ := sound.inlined kind
      simp only [OneofMemberPlan.storageType, kind, same, Option.getD_some] at stored
      cases stored
      simp only [MessageLayout.storedByValue, List.mem_append, List.mem_flatMap,
        List.mem_filterMap]
      exact .inl (.inr ⟨o, inside, m, met, by rw [if_pos kind, same]⟩)
  | _ => simp [OneofMemberPlan.storageType, kind] at stored

/-- The planned data members, where the compiler agrees on what is stored by value. -/
theorem storage_sound (classified : layout.Classified options memo)
    (masked : (⟨layout.maskSize, layout.maskAlign⟩ : Extent) = maskExtent layout.maskBits)
    (agree : ∀ target ∈ layout.storedByValue, sizeof target = recorded memo target)
    (regular : ∀ target ∈ layout.storedByValue, (recorded memo target).Regular) :
    ∀ s ∈ layout.storage, s.Sound sizeof := by
  intro s met
  simp only [MessageLayout.storage, List.mem_append, List.mem_map, List.mem_filter,
    List.mem_flatMap] at met
  rcases met with (⟨m, ⟨met, occupied⟩, rfl⟩ | ⟨o, inside, met⟩) | met
  · have sound := classified.members m met
    rcases sound.stored with ⟨-, empty, -⟩ | stored
    · simp [empty] at occupied
    have byValue : ∀ id, m.storageType = .message id → id ∈ layout.storedByValue :=
      fun id => sound.storedByValue met
    refine ⟨?_, ?_⟩
    · exact stored.trans (StoreType.extent_congr fun id same => (agree id (byValue id same)).symm)
    · dsimp only
      rw [stored]
      exact StoreType.extent_regular fun id same => regular id (byValue id same)
  · have sound := classified.oneofs o inside
    have byValue : ∀ m ∈ o.members, ∀ id, m.storageType = .message id →
        id ∈ layout.storedByValue := fun m met id =>
      (sound.members m met).storedByValue inside met
    simp only [List.mem_cons, List.not_mem_nil, or_false] at met
    rcases met with rfl | rfl
    · exact ⟨rfl, regular_disc⟩
    have extents : (o.members.map OneofMemberPlan.storageType).map (StoreType.extent sizeof) =
        o.members.map fun m => ⟨m.size, m.align⟩ := by
      rw [List.map_map]
      refine List.map_congr_left fun m met => ?_
      exact (StoreType.extent_congr fun id same => agree id (byValue m met id same)).trans
        (sound.members m met).stored.symm
    refine ⟨?_, ?_⟩
    · rw [extents, ← sound.size, ← sound.align]
    · simp only [List.forall_mem_map]
      intro m met
      refine StoreType.extent_regular fun id same => ?_
      rw [agree id (byValue m met id same)]
      exact regular id (byValue m met id same)
  · split at met
    · rename_i some
      cases List.mem_singleton.mp met
      have size : layout.maskSize = (maskExtent layout.maskBits).size :=
        congrArg Extent.size masked
      rw [size] at some
      refine ⟨?_, ?_⟩
      · dsimp only
        rw [masked, size, mask_extent some]
      · dsimp only
        rw [masked]
        exact maskExtent_regular some
    · cases met

theorem finishLayout_masked (options : LayoutOptions) (raw : MessageLayout) :
    (⟨(finishLayout options raw).maskSize, (finishLayout options raw).maskAlign⟩ : Extent) =
      maskExtent (finishLayout options raw).maskBits := rfl

/-- The flag of `compute_fixed_size` takes no part in the placement. -/
theorem MessageLayout.Emitted.withFixedSize (emitted : layout.Emitted) (fixedSize : Bool) :
    MessageLayout.Emitted { layout with fixedSize } :=
  ⟨emitted.offsets, emitted.extent, emitted.ordered⟩

theorem finishLayout_emitted {raw : MessageLayout}
    (sound : ∀ s ∈ (finishLayout options raw).storage, s.Sound sizeof) :
    (finishLayout options raw).Emitted := by
  have ordered := @orderMembers_emitted sizeof (allocateBits options raw)
  rw [finishLayout] at sound ⊢
  generalize orderMembers (allocateBits options raw) = layout at sound ordered ⊢
  exact (ordered sound).withFixedSize (computeFixedSize layout)

theorem MessageLayout.Emitted.regular (emitted : layout.Emitted)
    (sound : ∀ s ∈ layout.storage, s.Sound sizeof) : Extent.Regular ⟨layout.size, layout.align⟩ := by
  have align := @maxAlign_power ((emitStorage layout).map Storage.slot) (by
    simp only [List.forall_mem_map]
    intro s met
    exact (sound s ((List.perm_insertionSort _ _).mem_iff.mp met)).align)
  rw [emitted.extent, structExtent]
  refine ⟨align, ?_, ?_⟩
  · dsimp only
    split
    · decide
    · have := le_roundUp (maxAlign_pos ((emitStorage layout).map Storage.slot))
        (endFrom 0 ((emitStorage layout).map Storage.slot))
      omega
  · dsimp only
    split
    · rename_i none
      rw [emitted.ordered.maxAlign_of_endFrom none]
    · exact dvd_roundUp _ _

/-! ## Messages stored by value -/

section Planned

variable {planner : Planner}

theorem Planner.Sound.lookup (sound : planner.Sound options) {id : MessageId}
    (found : planner.memo.lookup id = some layout) :
    ∃ raw : MessageLayout, raw.Classified options planner.memo ∧
      layout = finishLayout options raw := by
  have met : (id, layout) ∈ planner.memo := List.lookup_eq_some_iff.mp found |>.elim
    fun before ⟨later, split, _⟩ => by simp [split]
  exact sound.entries (id, layout) met

theorem Planner.Sound.classified (sound : planner.Sound options) {id : MessageId}
    (found : planner.memo.lookup id = some layout) : layout.Classified options planner.memo := by
  obtain ⟨raw, classified, rfl⟩ := sound.lookup found
  exact finishLayout_classified classified

/-- Every planned message has a power-of-two alignment that divides its size. -/
theorem Planner.Sound.recorded_regular (sound : planner.Sound options) :
    ∀ id ∈ planner.memo.map Prod.fst, (recorded planner.memo id).Regular := by
  refine sound.listed.induction fun id met inner => ?_
  obtain ⟨layout, found⟩ := Option.isSome_iff_exists.mp (lookup_isSome_iff.mpr met)
  obtain ⟨raw, classified, rfl⟩ := sound.lookup found
  have stored := storage_sound (finishLayout_classified classified)
    (finishLayout_masked options raw) (fun _ _ => rfl)
    fun target byValue => inner target ⟨_, found, byValue⟩
  simp only [recorded, found]
  exact (finishLayout_emitted stored).regular stored

theorem Planner.Sound.regular_of_stored (sound : planner.Sound options) {id target : MessageId}
    (stores : StoresByValue planner.memo id target) : (recorded planner.memo target).Regular := by
  obtain ⟨layout, found, byValue⟩ := stores
  obtain ⟨_, inner, same, known, -⟩ := (sound.classified found).inlinable byValue
  cases same
  exact sound.recorded_regular target (lookup_isSome_iff.mp (by rw [known]; rfl))

/-- The class the compiler lays out, where it agrees on what is stored by value. -/
theorem classExtent_eq (sound : ∀ s ∈ layout.storage, s.Sound sizeof) :
    classExtent sizeof layout =
      structExtent (((emitStorage layout).map Storage.slot).map padded) := by
  rw [classExtent, List.map_map]
  congr 1
  refine List.map_congr_left fun s met => ?_
  exact (sound s ((List.perm_insertionSort _ _).mem_iff.mp met)).padded

theorem MessageLayout.Emitted.classExtent_of_noOneof (emitted : layout.Emitted)
    (sound : ∀ s ∈ layout.storage, s.Sound sizeof) (noOneof : layout.oneofs = []) :
    classExtent sizeof layout = ⟨layout.size, layout.align⟩ := by
  have filled : ((emitStorage layout).map Storage.slot).map padded =
      (emitStorage layout).map Storage.slot := by
    refine (List.map_congr_left fun extent met => ?_).trans (List.map_id' _)
    obtain ⟨s, met', rfl⟩ := List.mem_map.mp met
    have inside := (List.perm_insertionSort _ _).mem_iff.mp met'
    have notUnion : ∀ members, s.type ≠ .union members := by
      intro members union
      simp only [MessageLayout.storage, noOneof, List.flatMap_nil, List.append_nil,
        List.mem_append, List.mem_map] at inside
      rcases inside with ⟨m, -, rfl⟩ | masked
      · cases union
      · split at masked
        · cases List.mem_singleton.mp masked
          cases union
        · cases masked
    have align := (sound s inside).align
    rw [padded_eq_self_iff (by omega)]
    constructor
    · by_contra empty
      obtain ⟨members, union⟩ := (sound s inside).union (.inl (by omega))
      exact notUnion members union
    · by_contra uneven
      obtain ⟨members, union⟩ := (sound s inside).union (.inr uneven)
      exact notUnion members union
  rw [classExtent_eq sound, filled, emitted.extent]

theorem finishLayout_noOneof {raw : MessageLayout}
    (fixed : (finishLayout options raw).fixedSize = true) :
    (finishLayout options raw).oneofs = [] := by
  have empty : (finishLayout options raw).oneofs.isEmpty = true := by
    simp only [finishLayout, computeFixedSize, Bool.and_eq_true] at fixed
    exact fixed.1
  exact List.isEmpty_iff.mp empty

/-- A fixed-size message has the recorded extent in C++. -/
theorem Planner.Sound.cxxExtent_eq (sound : planner.Sound options) {levels : Nat}
    {before later : List MessageId} {id : MessageId}
    (split : planner.memo.map Prod.fst = before ++ id :: later) (deep : before.length < levels)
    (found : planner.memo.lookup id = some layout) (fixed : layout.fixedSize = true) :
    cxxExtent planner.memo levels id = ⟨layout.size, layout.align⟩ := by
  induction levels generalizing before later id layout with
  | zero => omega
  | succ levels ih =>
      obtain ⟨raw, classified, rfl⟩ := sound.lookup found
      have agree : ∀ target ∈ (finishLayout options raw).storedByValue,
          cxxExtent planner.memo levels target = recorded planner.memo target := by
        intro target byValue
        obtain ⟨_, inner, same, known, small⟩ :=
          (finishLayout_classified classified).inlinable byValue
        cases same
        obtain ⟨start, rest, same⟩ :=
          List.append_of_mem (sound.listed.after before id later split target ⟨_, found, byValue⟩)
        have earlier : planner.memo.map Prod.fst = start ++ target :: (rest ++ id :: later) := by
          rw [split, same]
          simp
        have short : start.length < levels := by
          rw [same] at deep
          simp at deep
          omega
        rw [ih earlier short known small.1]
        simp only [recorded, known]
      have stored := storage_sound (finishLayout_classified classified)
        (finishLayout_masked options raw) agree
        fun target byValue => sound.regular_of_stored ⟨_, found, byValue⟩
      rw [cxxExtent, found]
      exact (finishLayout_emitted stored).classExtent_of_noOneof stored (finishLayout_noOneof fixed)

/-- Whatever is stored by value has the recorded extent in C++. -/
theorem Planner.Sound.cxxExtent_of_stored (sound : planner.Sound options) {id target : MessageId}
    (stores : StoresByValue planner.memo id target) :
    cxxExtent planner.memo planner.memo.length target = recorded planner.memo target := by
  obtain ⟨layout, found, byValue⟩ := stores
  obtain ⟨_, inner, same, known, fixed, -⟩ := (sound.classified found).inlinable byValue
  cases same
  have met := lookup_isSome_iff.mp (show (planner.memo.lookup target).isSome = true by rw [known]; rfl)
  obtain ⟨before, later, split⟩ := List.append_of_mem met
  have length := congrArg List.length split
  simp only [List.length_map, List.length_append, List.length_cons] at length
  rw [sound.cxxExtent_eq split (by omega) known fixed]
  simp only [recorded, known]

end Planned

/-- An inlining site records the final layout of its target. -/
def RecordsFinal (memo : List (MessageId × MessageLayout)) (target : Option MessageId)
    (records : Extent → Prop) : Prop :=
  ∃ id final, target = some id ∧ memo.lookup id = some final ∧ records ⟨final.size, final.align⟩

/-- Planning ends for every schema, and every message of the walk is planned.  Storing by value has
no cycle.  Whatever is stored by value is of fixed size, at most the cutoff, and has the C++ extent
of its final layout; members, oneof members and map entries record that extent. -/
theorem planLayouts_storesByValue (schema : Schema) (options : LayoutOptions)
    (walk : List MessageId) :
    ∃ planner, planLayouts schema options walk = .ok planner ∧
      (∀ id ∈ walk, id < schema.messages.length →
        ∃ layout, planner.memo.lookup id = some layout) ∧
      (∀ id, ¬ TransGen (StoresByValue planner.memo) id id) ∧
      (∀ id target, StoresByValue planner.memo id target →
        ∃ final, planner.memo.lookup target = some final ∧ final.fixedSize = true ∧
          final.size ≤ options.inlineSubmsgCutoff ∧
          cxxExtent planner.memo planner.memo.length target = ⟨final.size, final.align⟩) ∧
      ∀ id layout, planner.memo.lookup id = some layout →
        (∀ m ∈ layout.members, m.kind = .inlineFixedSubMsg →
          RecordsFinal planner.memo m.target fun extent => ⟨m.size, m.align⟩ = extent) ∧
        (∀ o ∈ layout.oneofs, ∀ m ∈ o.members, m.kind = .inlineFixedSubMsg →
          RecordsFinal planner.memo m.target fun extent => ⟨m.size, m.align⟩ = extent) ∧
        ∀ m ∈ layout.members, ∀ entry, m.entry = some entry →
          entry.valueKind = .inlineFixedSubMsg → ∃ map, m.declared = .map map ∧
            RecordsFinal planner.memo entry.valueTarget fun extent =>
              ⟨entry.size, entry.align⟩ =
                (orderSlots (entrySlots ⟨map.key.size, map.key.align⟩ extent)).2 := by
  obtain ⟨planner, planned, sound, listed⟩ := planLayouts_ok schema options walk
  refine ⟨planner, planned, ?_, ?_, ?_, ?_⟩
  · intro id met known
    exact Option.isSome_iff_exists.mp (lookup_isSome_iff.mpr (listed id met known))
  · intro id cycle
    have met : id ∈ planner.memo.map Prod.fst := by
      obtain ⟨next, ⟨layout, found, -⟩, -⟩ := TransGen.head'_iff.mp cycle
      exact lookup_isSome_iff.mp (by rw [found]; rfl)
    exact sound.listed.not_transGen met cycle
  · intro id target stores
    have extent := sound.cxxExtent_of_stored stores
    obtain ⟨layout, found, byValue⟩ := stores
    obtain ⟨_, final, same, known, fixed, small⟩ := (sound.classified found).inlinable byValue
    cases same
    refine ⟨final, known, fixed, small, ?_⟩
    rw [extent]
    simp only [recorded, known]
  · intro id layout found
    have classified := sound.classified found
    refine ⟨?_, ?_, ?_⟩
    · intro m met inline
      obtain ⟨target, final, same, known, -⟩ := (classified.members m met).inlined inline
      refine ⟨target, final, same, known, ?_⟩
      rcases (classified.members m met).stored with ⟨-, -, scalar⟩ | stored
      · rw [scalar] at inline
        cases inline
      · rw [stored]
        simp only [MemberPlan.storageType, inline, same, StoreType.extent, Option.getD_some,
          recorded, known]
    · intro o inside m met inline
      have member := (classified.oneofs o inside).members m met
      obtain ⟨target, final, same, known, -⟩ := member.inlined inline
      refine ⟨target, final, same, known, ?_⟩
      rw [member.stored]
      simp only [OneofMemberPlan.storageType, inline, same, StoreType.extent, Option.getD_some,
        recorded, known]
    · intro m met entry mapped inline
      obtain ⟨map, declared, inner⟩ := (classified.members m met).entry entry mapped
      obtain ⟨target, final, same, known, -⟩ := inner.inlined inline
      refine ⟨map, declared, target, final, same, known, ?_⟩
      rw [inner.extent]
      simp only [MapField.valueType, (inner.target target).mp same, inline, if_true,
        StoreType.extent, recorded, known]

/-! ## Unions -/

/-- The planned offsets, size and alignment are those of the emitted class: nothing overlaps, every
offset is a multiple of its alignment, and there is no padding between two members. -/
structure MessageLayout.AsCompiled (sizeof : MessageId → Extent) (layout : MessageLayout) :
    Prop where
  /-- The compiler's offsets. -/
  offsets : (emitStorage layout).map Storage.offset =
    offsetsFrom 0 ((emitStorage layout).map fun s => s.type.extent sizeof)
  /-- The compiler's size and alignment. -/
  extent : ⟨layout.size, layout.align⟩ = classExtent sizeof layout
  /-- No two slots overlap. -/
  apart : (emitStorage layout).Pairwise fun a b => a.offset + a.slot.size ≤ b.offset
  /-- Every slot is aligned. -/
  aligned : ∀ s ∈ emitStorage layout, s.slot.align ∣ s.offset
  /-- Every slot starts where the one before ends. -/
  packed : (emitStorage layout).map Storage.offset =
    sumsFrom 0 ((emitStorage layout).map Storage.slot)

/-- The extents of a oneof's members. -/
def OneofPlan.extents (o : OneofPlan) : List Extent := o.members.map fun m => ⟨m.size, m.align⟩

/-- The extents of the slots of a message. -/
def MessageLayout.slotExtents (layout : MessageLayout) : List Extent :=
  layout.storage.map Storage.slot

/-- The number of oneofs without a member. -/
def MessageLayout.emptyOneofs (layout : MessageLayout) : Nat :=
  layout.oneofs.countP fun o => o.members = []

/-- Every union fills its bytes: its largest alignment divides its largest size. -/
def MessageLayout.UnionsFilled (layout : MessageLayout) : Prop :=
  ∀ o ∈ layout.oneofs, maxAlign o.extents ∣ maxSize o.extents

theorem MessageLayout.Emitted.asCompiled_iff (emitted : layout.Emitted)
    (sound : ∀ s ∈ layout.storage, s.Sound sizeof) :
    layout.AsCompiled sizeof ↔ PlacedAsCompiled ((emitStorage layout).map Storage.slot) := by
  have extents : (emitStorage layout).map (fun s => s.type.extent sizeof) =
      ((emitStorage layout).map Storage.slot).map padded := by
    rw [List.map_map]
    refine List.map_congr_left fun s met => ?_
    exact (sound s ((List.perm_insertionSort _ _).mem_iff.mp met)).padded
  constructor
  · intro compiled
    refine ⟨?_, ?_, ?_⟩
    · rw [← emitted.offsets, compiled.offsets, extents]
    · rw [← emitted.extent, compiled.extent, classExtent_eq sound]
    · rw [← emitted.offsets, compiled.packed]
  · intro placed
    have positive : ∀ s ∈ emitStorage layout, 0 < s.slot.align := fun s met =>
      emitted.ordered.positive s.slot (List.mem_map_of_mem met)
    exact ⟨by rw [emitted.offsets, placed.offsets, extents],
      by rw [emitted.extent, placed.extent, classExtent_eq sound],
      pairwise_of_offsetsFrom positive emitted.offsets, dvd_of_offsetsFrom emitted.offsets,
      emitted.offsets.trans placed.packed⟩

theorem MessageLayout.mem_storage_union {o : OneofPlan} (inside : o ∈ layout.oneofs) :
    ⟨o.unionOffset, ⟨o.unionSize, o.unionAlign⟩,
      .union (o.members.map OneofMemberPlan.storageType)⟩ ∈ layout.storage := by
  simp only [MessageLayout.storage, List.mem_append, List.mem_flatMap]
  exact .inl (.inr ⟨o, inside, by simp⟩)

theorem MessageLayout.Classified.slots_filled_iff (classified : layout.Classified options memo)
    (sound : ∀ s ∈ layout.storage, s.Sound sizeof) :
    (∀ extent ∈ layout.slotExtents, extent.align ∣ extent.size) ↔ layout.UnionsFilled := by
  simp only [MessageLayout.slotExtents, List.forall_mem_map]
  constructor
  · intro filled o inside
    have union := filled _ (layout.mem_storage_union inside)
    rwa [(classified.oneofs o inside).size, (classified.oneofs o inside).align] at union
  · intro filled s met
    by_contra uneven
    obtain ⟨members, union⟩ := (sound s met).union (.inr uneven)
    simp only [MessageLayout.storage, List.mem_append, List.mem_map, List.mem_flatMap,
      List.mem_cons, List.not_mem_nil, or_false] at met
    rcases met with (⟨m, -, rfl⟩ | ⟨o, inside, rfl | rfl⟩) | masked
    · cases union
    · cases union
    · apply uneven
      dsimp only
      rw [(classified.oneofs o inside).size, (classified.oneofs o inside).align]
      exact filled o inside
    · split at masked
      · cases List.mem_singleton.mp masked
        cases union
      · cases masked

theorem MessageLayout.Classified.countP_empty (classified : layout.Classified options memo)
    (sound : ∀ s ∈ layout.storage, s.Sound sizeof) :
    layout.slotExtents.countP (fun extent => extent.size = 0) = layout.emptyOneofs := by
  have empty : ∀ o ∈ layout.oneofs, o.unionSize = 0 ↔ o.members = [] := by
    intro o inside
    have union := sound _ (layout.mem_storage_union inside)
    constructor
    · intro zero
      have empty' := (union.empty zero).2
      simpa using empty'
    · intro empty'
      rw [(classified.oneofs o inside).size, empty']
      rfl
  have unions : ∀ oneofs : List OneofPlan, (∀ o ∈ oneofs, o.unionSize = 0 ↔ o.members = []) →
      ((oneofs.flatMap fun o => [(⟨o.discOffset, ⟨kDiscSize, 1⟩, .disc⟩ : Storage),
        ⟨o.unionOffset, ⟨o.unionSize, o.unionAlign⟩,
          .union (o.members.map OneofMemberPlan.storageType)⟩]).map Storage.slot).countP
        (fun extent => extent.size = 0) = oneofs.countP fun o => o.members = [] := by
    intro oneofs empty
    induction oneofs with
    | nil => rfl
    | cons o oneofs ih =>
        have first := empty o (by simp)
        rw [List.flatMap_cons, List.map_append, List.countP_append,
          ih fun other met => empty other (by simp [met]), List.countP_cons]
        simp [List.countP_cons, kDiscSize, first, Nat.add_comm]
  rw [MessageLayout.slotExtents, MessageLayout.storage, List.map_append, List.map_append,
    List.countP_append, List.countP_append, unions layout.oneofs empty, MessageLayout.emptyOneofs]
  have members : (((layout.members.filter fun m => 0 < m.size).map fun m =>
      (⟨m.offset, ⟨m.size, m.align⟩, .stored m.storageType⟩ : Storage)).map Storage.slot).countP
        (fun extent => extent.size = 0) = 0 := by
    rw [List.countP_eq_zero]
    intro extent met
    simp only [List.map_map, List.mem_map, List.mem_filter] at met
    obtain ⟨m, ⟨-, occupied⟩, rfl⟩ := met
    simp at occupied ⊢
    omega
  have mask : (((if 0 < layout.maskSize then
      [⟨layout.maskOffset, ⟨layout.maskSize, layout.maskAlign⟩, .mask layout.maskSize⟩]
    else [] : List Storage)).map Storage.slot).countP (fun extent => extent.size = 0) = 0 := by
    split
    · simp
      omega
    · rfl
  omega

/-- The planned placement of a message is the compiler's exactly when every union fills its bytes
and there is at most one oneof without a member, whose byte falls into the padding at the end. -/
theorem layout_asCompiled_iff {schema : Schema} {options : LayoutOptions} {walk : List MessageId}
    {planner : Planner} (planned : planLayouts schema options walk = .ok planner) {id : MessageId}
    {layout : MessageLayout} (found : planner.memo.lookup id = some layout) :
    layout.AsCompiled (cxxExtent planner.memo planner.memo.length) ↔
      layout.UnionsFilled ∧ (layout.emptyOneofs = 0 ∨ layout.emptyOneofs = 1 ∧
        ¬ maxAlign layout.slotExtents ∣ (layout.slotExtents.map Extent.size).sum) := by
  obtain ⟨_, same, sound, -⟩ := planLayouts_ok schema options walk
  cases planned.symm.trans same
  obtain ⟨raw, classified, rfl⟩ := sound.lookup found
  have classified' := finishLayout_classified classified
  have stored := storage_sound classified' (finishLayout_masked options raw)
    (fun target byValue => sound.cxxExtent_of_stored ⟨_, found, byValue⟩)
    fun target byValue => sound.regular_of_stored ⟨_, found, byValue⟩
  have emitted := finishLayout_emitted stored
  have perm : ((emitStorage (finishLayout options raw)).map Storage.slot).Perm
      (finishLayout options raw).slotExtents := (List.perm_insertionSort _ _).map _
  rw [emitted.asCompiled_iff stored, emitted.ordered.placedAsCompiled_iff, perm.countP_eq,
    maxAlign_perm perm, (perm.map Extent.size).sum_eq, classified'.countP_empty stored,
    ← classified'.slots_filled_iff stored]
  apply and_congr_left'
  exact ⟨fun all extent met => all extent (perm.mem_iff.mpr met),
    fun all extent met => all extent (perm.mem_iff.mp met)⟩

/-- A message with `oneof o { string a = 1; T b = 2; }`. -/
def stringOr (type : Scalar) : Schema where
  messages := [{
    oneofs := [[⟨1, .leaf (.scalar .string), .explicit⟩, ⟨2, .leaf (.scalar type), .explicit⟩]]
    distinct := by simp
    tracked := noField_tracked }]

/-- Its planned layout: the union, and the discriminant right behind. -/
def stringOrLayout (type : Scalar) (kind : FieldKind) (align : Nat) : MessageLayout where
  size := 16
  align := align
  oneofs := [{
    fields := [⟨1, .leaf (.scalar .string), .explicit⟩, ⟨2, .leaf (.scalar type), .explicit⟩]
    discOffset := 12
    unionSize := 12
    unionAlign := align
    members := [⟨⟨1, .leaf (.scalar .string), .explicit⟩, .borrowString, 12, 4, none⟩,
      ⟨⟨2, .leaf (.scalar type), .explicit⟩, kind, type.size, type.align, none⟩] }]

/-- A union of a string and an integer is planned with 12 bytes; the compiler gives it 16. -/
theorem stringOrInteger_not_asCompiled :
    ∃ planner, planLayouts (stringOr .int64) {} [0] = .ok planner ∧
      ∃ layout, planner.memo.lookup 0 = some layout ∧
        ¬ layout.AsCompiled (cxxExtent planner.memo planner.memo.length) := by
  refine ⟨⟨[(0, stringOrLayout .int64 .inlineScalar 8)], ∅⟩, rfl, _, rfl, ?_⟩
  intro compiled
  exact absurd compiled.extent (by decide)

/-- A union of a string and bytes fills its 12 bytes. -/
theorem stringOrBytes_asCompiled :
    ∃ planner, planLayouts (stringOr .bytes) {} [0] = .ok planner ∧
      ∃ layout, planner.memo.lookup 0 = some layout ∧
        layout.AsCompiled (cxxExtent planner.memo planner.memo.length) := by
  have planned : planLayouts (stringOr .bytes) {} [0] =
      .ok ⟨[(0, stringOrLayout .bytes .borrowString 4)], ∅⟩ := rfl
  have found : ([(0, stringOrLayout .bytes .borrowString 4)] :
      List (MessageId × MessageLayout)).lookup 0 = some (stringOrLayout .bytes .borrowString 4) := rfl
  refine ⟨_, planned, _, found, (layout_asCompiled_iff planned found).mpr ⟨?_, .inl ?_⟩⟩
  · intro o inside
    cases List.mem_singleton.mp inside
    decide
  · decide

end RapidProto
