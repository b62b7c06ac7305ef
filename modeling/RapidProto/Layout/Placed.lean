import RapidProto.Layout.Sound

/-!
# The planned offsets and the emitted class

The members of an emitted class stand in the order in which the planner placed their slots, so the
compiler's offsets and the planned ones come from the same rule applied to two lists of extents.
They differ only in the unions.
-/

namespace RapidProto

/-! ## Placing the slots -/

section Slots

variable {α : Type}

theorem Slot.not_before_iff {a b : Slot α} : ¬ b.before a ↔
    b.align < a.align ∨ a.align = b.align ∧ (b.size < a.size ∨ a.size = b.size ∧
      (a.tiebreak < b.tiebreak ∨ a.tiebreak = b.tiebreak ∧ a.seq ≤ b.seq)) := by
  rw [Slot.before]
  split_ifs <;> simp only [decide_eq_true_eq] <;> omega

instance : Std.Total fun a b : Slot α => ¬ b.before a where
  total a b := by
    rw [Slot.not_before_iff, Slot.not_before_iff]
    omega

instance : IsTrans (Slot α) fun a b => ¬ b.before a where
  trans a b c := by
    rw [Slot.not_before_iff, Slot.not_before_iff, Slot.not_before_iff]
    omega

/-- The slots in the order they are placed. -/
def sortSlots (slots : List (Slot α)) : List (Slot α) := slots.insertionSort fun a b => ¬ b.before a

theorem sortSlots_perm (slots : List (Slot α)) : (sortSlots slots).Perm slots :=
  List.perm_insertionSort _ _

theorem sortSlots_sorted (slots : List (Slot α)) :
    (sortSlots slots).Pairwise fun a b => ¬ b.before a :=
  List.pairwise_insertionSort _ _

theorem placeSlots_eq (slots : List (Slot α)) (cursor : Nat) {align : Nat} (positive : 0 < align) :
    placeSlots slots cursor align =
      ((slots.map Slot.out).zip (offsetsFrom cursor (slots.map Slot.extent)),
        endFrom cursor (slots.map Slot.extent), max align (maxAlign (slots.map Slot.extent))) := by
  induction slots generalizing cursor align with
  | nil => simp [placeSlots, offsetsFrom, endFrom, maxAlign, Nat.max_eq_left positive]
  | cons slot slots ih =>
      rw [placeSlots, ih _ (lt_max_of_lt_left positive)]
      simp [offsetsFrom, endFrom, maxAlign, Slot.extent, max_assoc]

theorem orderSlots_eq (slots : List (Slot α)) :
    orderSlots slots = (((sortSlots slots).map Slot.out).zip
        (offsetsFrom 0 ((sortSlots slots).map Slot.extent)),
      structExtent ((sortSlots slots).map Slot.extent)) := by
  have placed := placeSlots_eq (sortSlots slots) 0 Nat.one_pos
  rw [max_eq_right (maxAlign_pos _), sortSlots] at placed
  simp only [orderSlots, placed, structExtent, sortSlots]
  rfl

variable [DecidableEq α]

/-- Reading back every destination gives the offsets in order. -/
theorem map_offsetOf_zip {outs : List α} (once : outs.Nodup) {offsets : List Nat}
    (length : offsets.length = outs.length) : outs.map (offsetOf (outs.zip offsets)) = offsets := by
  induction outs generalizing offsets with
  | nil => simpa using length
  | cons out outs ih =>
      obtain ⟨fresh, once⟩ := List.nodup_cons.mp once
      cases offsets with
      | nil => cases length
      | cons offset offsets =>
          have rest : outs.map (offsetOf ((out :: outs).zip (offset :: offsets))) =
              outs.map (offsetOf (outs.zip offsets)) := by
            refine List.map_congr_left fun other met => ?_
            have differs : out ≠ other := fun same => fresh (same ▸ met)
            simp [offsetOf, List.zip_cons_cons, differs]
          rw [List.map_cons, rest, ih once (by simpa using length)]
          simp [offsetOf]

theorem offsetOf_orderSlots {slots : List (Slot α)} (once : (slots.map Slot.out).Nodup) :
    (sortSlots slots).map (fun slot => offsetOf (orderSlots slots).1 slot.out) =
      offsetsFrom 0 ((sortSlots slots).map Slot.extent) := by
  have nodup : ((sortSlots slots).map Slot.out).Nodup :=
    ((sortSlots_perm slots).map Slot.out).nodup_iff.mpr once
  have read := @map_offsetOf_zip α _ _ nodup
    (offsetsFrom 0 ((sortSlots slots).map Slot.extent)) (by simp [length_offsetsFrom])
  rw [List.map_map] at read
  rw [orderSlots_eq]
  exact read

end Slots

/-! ## The emitted order -/

section Emitted

variable {type : Place → CxxType} {placed : List (Place × Nat)}

theorem numberSlots_map {α β : Type} {f : Slot α → β}
    (ignores : ∀ slot seq, f { slot with seq } = f slot) (seq : Nat) (slots : List (Slot α)) :
    (numberSlots seq slots).map f = slots.map f := by
  induction slots generalizing seq with
  | nil => rfl
  | cons slot slots ih => rw [numberSlots, List.map_cons, List.map_cons, ih, ignores]

/-- The data member of a slot. -/
def Slot.storage (placed : List (Place × Nat)) (type : Place → CxxType) (slot : Slot Place) :
    Storage :=
  ⟨offsetOf placed slot.out, slot.extent, type slot.out⟩

/-- The data member of a placed byte member. -/
def MemberPlan.storage (m : MemberPlan) : Storage :=
  ⟨m.offset, ⟨m.size, m.align⟩, .stored m.storageType⟩

/-- The two data members of a placed oneof. -/
def OneofPlan.storage (o : OneofPlan) : List Storage :=
  [⟨o.discOffset, ⟨kDiscSize, 1⟩, .disc⟩,
    ⟨o.unionOffset, ⟨o.unionSize, o.unionAlign⟩,
      .union (o.members.map OneofMemberPlan.storageType)⟩]

theorem memberSlots_storage (index : Nat) {members : List MemberPlan}
    (typed : ∀ i m, members[i]? = some m → type (.member (index + i)) = .stored m.storageType) :
    (memberSlots index members).map (Slot.storage placed type) =
      ((placeMembers placed index members).filter fun m => 0 < m.size).map MemberPlan.storage := by
  induction members generalizing index with
  | nil => rfl
  | cons m members ih =>
      have first := typed 0 m rfl
      have rest := ih (index + 1) fun i m met => by
        rw [Nat.add_assoc, Nat.add_comm 1]
        exact typed (i + 1) m met
      rw [memberSlots, placeMembers, List.map_append, rest, List.filter_cons]
      by_cases occupied : 0 < m.size
      · simp [occupied, Slot.storage, MemberPlan.storage, Slot.extent, MemberPlan.storageType]
          at first ⊢
        exact first
      · simp [occupied]

theorem oneofSlots_storage (index : Nat) {oneofs : List OneofPlan}
    (discs : ∀ i, type (.disc i) = .disc)
    (unions : ∀ i o, oneofs[i]? = some o →
      type (.union (index + i)) = .union (o.members.map OneofMemberPlan.storageType)) :
    (oneofSlots index oneofs).map (Slot.storage placed type) =
      (placeOneofs placed index oneofs).flatMap OneofPlan.storage := by
  induction oneofs generalizing index with
  | nil => rfl
  | cons o oneofs ih =>
      have first := unions 0 o rfl
      have rest := ih (index + 1) fun i o met => by
        rw [Nat.add_assoc, Nat.add_comm 1]
        exact unions (i + 1) o met
      rw [oneofSlots, placeOneofs, List.map_cons, List.map_cons, rest, List.flatMap_cons]
      rw [Nat.add_zero] at first
      simp [Slot.storage, OneofPlan.storage, Slot.extent, discs, first]

/-- The declared type of what a slot holds. -/
def MessageLayout.typeAt (layout : MessageLayout) : Place → CxxType
  | .member index => .stored ((layout.members[index]?.map MemberPlan.storageType).getD .pointer)
  | .disc _ => .disc
  | .union index =>
    .union ((layout.oneofs[index]?.map fun o =>
      o.members.map OneofMemberPlan.storageType).getD [])
  | .mask => .mask layout.maskSize

/-- The data members of a placed layout are those of its slots. -/
theorem orderMembers_storage (layout : MessageLayout) :
    (orderMembers layout).storage.Perm (layout.slots.map
      (Slot.storage (orderSlots layout.slots).1 layout.typeAt)) := by
  rw [MessageLayout.slots, numberSlots_map (fun _ _ => rfl), List.map_append, List.map_append,
    ← MessageLayout.slots,
    memberSlots_storage 0 (fun i m met => by simp [MessageLayout.typeAt, met]),
    oneofSlots_storage 0 (fun _ => rfl) (fun i o met => by simp [MessageLayout.typeAt, met])]
  refine List.Perm.append (List.Perm.append ?_ ?_) ?_
  · exact ((List.perm_insertionSort _ _).filter _).map _
  · exact List.Perm.refl _
  · by_cases masked : 0 < layout.maskSize
    · simp [masked, orderMembers, Slot.storage, Slot.extent, MessageLayout.typeAt]
    · simp [masked, orderMembers]

theorem memberSlots_out (index : Nat) (members : List MemberPlan) :
    ((memberSlots index members).map Slot.out).Nodup ∧
      ∀ out ∈ (memberSlots index members).map Slot.out, ∃ i, index ≤ i ∧ out = .member i := by
  induction members generalizing index with
  | nil => exact ⟨List.nodup_nil, by simp [memberSlots]⟩
  | cons m members ih =>
      obtain ⟨once, later⟩ := ih (index + 1)
      rw [memberSlots]
      split
      · refine ⟨List.nodup_cons.mpr ⟨fun again => ?_, once⟩, fun out met => ?_⟩
        · obtain ⟨i, above, same⟩ := later _ again
          cases same
          omega
        · rcases List.mem_cons.mp met with rfl | met
          · exact ⟨index, le_rfl, rfl⟩
          · obtain ⟨i, above, same⟩ := later out met
            exact ⟨i, by omega, same⟩
      · refine ⟨once, fun out met => ?_⟩
        obtain ⟨i, above, same⟩ := later out met
        exact ⟨i, by omega, same⟩

theorem oneofSlots_out (index : Nat) (oneofs : List OneofPlan) :
    ((oneofSlots index oneofs).map Slot.out).Nodup ∧
      ∀ out ∈ (oneofSlots index oneofs).map Slot.out,
        ∃ i, index ≤ i ∧ (out = .disc i ∨ out = .union i) := by
  induction oneofs generalizing index with
  | nil => exact ⟨List.nodup_nil, by simp [oneofSlots]⟩
  | cons o oneofs ih =>
      obtain ⟨once, later⟩ := ih (index + 1)
      simp only [oneofSlots, List.map_cons]
      refine ⟨List.nodup_cons.mpr ⟨?_, List.nodup_cons.mpr ⟨?_, once⟩⟩, fun out met => ?_⟩
      · intro again
        rcases List.mem_cons.mp again with same | again
        · cases same
        · obtain ⟨i, above, same | same⟩ := later _ again
          · cases same
            omega
          · cases same
      · intro again
        obtain ⟨i, above, same | same⟩ := later _ again
        · cases same
        · cases same
          omega
      · rcases List.mem_cons.mp met with rfl | met
        · exact ⟨index, le_rfl, .inl rfl⟩
        rcases List.mem_cons.mp met with rfl | met
        · exact ⟨index, le_rfl, .inr rfl⟩
        · obtain ⟨i, above, same⟩ := later out met
          exact ⟨i, by omega, same⟩

/-- Every slot has a destination of its own. -/
theorem MessageLayout.slots_out (layout : MessageLayout) : (layout.slots.map Slot.out).Nodup := by
  obtain ⟨membersOnce, members⟩ := memberSlots_out 0 layout.members
  obtain ⟨oneofsOnce, oneofs⟩ := oneofSlots_out 0 layout.oneofs
  rw [MessageLayout.slots, numberSlots_map (fun _ _ => rfl), List.map_append, List.map_append]
  refine List.nodup_append.mpr ⟨List.nodup_append.mpr ⟨membersOnce, oneofsOnce, ?_⟩, ?_, ?_⟩
  · rintro a met _ met' rfl
    obtain ⟨i, -, rfl⟩ := members a met
    obtain ⟨j, -, same | same⟩ := oneofs _ met' <;> cases same
  · split <;> simp
  · rintro a met b met' rfl
    have masked : a = .mask := by
      split at met'
      · simpa using met'
      · simp at met'
    cases masked
    rcases List.mem_append.mp met with met | met
    · obtain ⟨i, -, same⟩ := members _ met
      cases same
    · obtain ⟨i, -, same | same⟩ := oneofs _ met <;> cases same

end Emitted

/-! ## The extents of the data members -/

/-- A type that fills its bytes: no scalar, view or class is smaller than its alignment. -/
structure Extent.Regular (extent : Extent) : Prop where
  align : extent.align = 1 ∨ extent.align = 2 ∨ extent.align = 4 ∨ extent.align = 8
  occupied : 0 < extent.size
  whole : extent.align ∣ extent.size

theorem Leaf.extent_regular (kind : Leaf) : Extent.Regular ⟨kind.size, kind.align⟩ := by
  rcases kind with scalar | _
  · cases scalar <;> exact ⟨by decide, by decide, by decide⟩
  · exact ⟨by decide, by decide, by decide⟩

theorem regular_view : Extent.Regular ⟨kViewSize, kViewAlign⟩ :=
  ⟨by decide, by decide, by decide⟩

theorem regular_pointer : Extent.Regular ⟨kPtrSize, kPtrSize⟩ := ⟨by decide, by decide, by decide⟩

theorem regular_disc : Extent.Regular ⟨kDiscSize, 1⟩ := ⟨by decide, by decide, by decide⟩

theorem maskExtent_regular {bits : Nat} (nonempty : 0 < (maskExtent bits).size) :
    (maskExtent bits).Regular := by
  rw [maskExtent] at nonempty ⊢
  split_ifs at nonempty ⊢
  · exact absurd nonempty (by simp)
  · exact ⟨by decide, by decide, by decide⟩
  · exact ⟨by decide, by decide, by decide⟩
  · exact ⟨by decide, by decide, by decide⟩
  · exact ⟨by decide, by decide, by decide⟩
  · exact ⟨by simp, nonempty, Nat.dvd_mul_right _ _⟩

theorem mask_extent {bits : Nat} (nonempty : 0 < (maskExtent bits).size)
    (sizeof : MessageId → Extent) :
    (CxxType.mask (maskExtent bits).size).extent sizeof = maskExtent bits := by
  rw [maskExtent] at nonempty ⊢
  split_ifs at nonempty ⊢ with b0 b8 b16 b32 b64
  · exact absurd nonempty (by simp)
  · rfl
  · rfl
  · rfl
  · rfl
  · have many : 8 < 8 * ((bits + 63) / 64) := by omega
    simp only [CxxType.extent, if_pos many]
    rw [Nat.mul_div_cancel_left _ (by decide)]

/-- What the planner knows of a data member. -/
def Storage.Sound (sizeof : MessageId → Extent) (s : Storage) : Prop :=
  match s.type with
  | .union members =>
    s.slot = ⟨maxSize (members.map (StoreType.extent sizeof)),
        maxAlign (members.map (StoreType.extent sizeof))⟩ ∧
      ∀ member ∈ members, (member.extent sizeof).Regular
  | type => s.slot = type.extent sizeof ∧ s.slot.Regular

section Extents

variable {extents : List Extent}

theorem maxAlign_power (aligns : ∀ extent ∈ extents,
      extent.align = 1 ∨ extent.align = 2 ∨ extent.align = 4 ∨ extent.align = 8) :
    maxAlign extents = 1 ∨ maxAlign extents = 2 ∨ maxAlign extents = 4 ∨ maxAlign extents = 8 := by
  induction extents with
  | nil => exact .inl rfl
  | cons extent extents ih =>
      have first := aligns extent (by simp)
      have rest := ih fun other met => aligns other (by simp [met])
      rw [maxAlign]
      omega

theorem maxSize_eq_zero_iff (regular : ∀ extent ∈ extents, extent.Regular) :
    maxSize extents = 0 ↔ extents = [] := by
  cases extents with
  | nil => simp [maxSize]
  | cons extent extents =>
      have occupied := (regular extent (by simp)).occupied
      simp only [maxSize, reduceCtorEq, iff_false]
      omega

end Extents

section Sound

variable {sizeof : MessageId → Extent} {s : Storage}

theorem Storage.Sound.align (sound : s.Sound sizeof) :
    s.slot.align = 1 ∨ s.slot.align = 2 ∨ s.slot.align = 4 ∨ s.slot.align = 8 := by
  rw [Storage.Sound] at sound
  split at sound
  · rw [sound.1]
    apply maxAlign_power
    simp only [List.forall_mem_map]
    exact fun member met => (sound.2 member met).align
  · exact sound.2.align

/-- The compiler's extent of a data member. -/
theorem Storage.Sound.padded (sound : s.Sound sizeof) :
    s.type.extent sizeof = RapidProto.padded s.slot := by
  have align := sound.align
  rw [Storage.Sound] at sound
  split at sound
  · rename_i members type
    rw [type, sound.1]
    rfl
  · rw [← sound.1]
    exact ((padded_eq_self_iff (by omega)).mpr ⟨sound.2.occupied, sound.2.whole⟩).symm

theorem Storage.Sound.empty (sound : s.Sound sizeof) (empty : s.slot.size = 0) :
    s.slot = ⟨0, 1⟩ ∧ s.type = .union [] := by
  rw [Storage.Sound] at sound
  split at sound
  · rename_i members type
    have empty : members = [] := by
      have zero : maxSize (members.map (StoreType.extent sizeof)) = 0 := by
        rw [sound.1] at empty
        exact empty
      exact List.map_eq_nil_iff.mp ((maxSize_eq_zero_iff (by simpa using sound.2)).mp zero)
    subst empty
    exact ⟨sound.1, type⟩
  · exact absurd empty (by have := sound.2.occupied; omega)

/-- Only a union may fail to fill its bytes. -/
theorem Storage.Sound.union (sound : s.Sound sizeof)
    (irregular : s.slot.size = 0 ∨ ¬ s.slot.align ∣ s.slot.size) :
    ∃ members, s.type = .union members := by
  rw [Storage.Sound] at sound
  split at sound
  · rename_i members type
    exact ⟨members, type⟩
  · rcases irregular with empty | uneven
    · exact absurd empty (by have := sound.2.occupied; omega)
    · exact absurd sound.2.whole uneven

end Sound

/-! ## The emitted class -/

section Class

variable {sizeof : MessageId → Extent} {layout : MessageLayout}

/-- The data members in the order of their slots. -/
def MessageLayout.slotStorage (layout : MessageLayout) : List Storage :=
  (sortSlots layout.slots).map (Slot.storage (orderSlots layout.slots).1 layout.typeAt)

theorem slotStorage_perm (layout : MessageLayout) :
    layout.slotStorage.Perm (orderMembers layout).storage :=
  ((sortSlots_perm _).map _).trans (orderMembers_storage layout).symm

theorem slotStorage_slot (layout : MessageLayout) :
    layout.slotStorage.map Storage.slot = (sortSlots layout.slots).map Slot.extent := by
  rw [MessageLayout.slotStorage, List.map_map]
  rfl

theorem slotStorage_offset (layout : MessageLayout) :
    layout.slotStorage.map Storage.offset = offsetsFrom 0 (layout.slotStorage.map Storage.slot) := by
  rw [slotStorage_slot, ← offsetOf_orderSlots layout.slots_out, MessageLayout.slotStorage,
    List.map_map]
  rfl

/-- Alignments fall, and within an alignment sizes fall. -/
theorem slotStorage_sorted (layout : MessageLayout) :
    layout.slotStorage.Pairwise fun a b =>
      b.slot.align < a.slot.align ∨ a.slot.align = b.slot.align ∧ b.slot.size ≤ a.slot.size := by
  rw [MessageLayout.slotStorage, List.pairwise_map]
  refine (sortSlots_sorted layout.slots).imp fun {a b} sorted => ?_
  rw [Slot.not_before_iff] at sorted
  simp only [Slot.storage, Slot.extent]
  omega

theorem slotStorage_sound (sound : ∀ s ∈ (orderMembers layout).storage, s.Sound sizeof) :
    ∀ s ∈ layout.slotStorage, s.Sound sizeof := fun s met =>
  sound s ((slotStorage_perm layout).mem_iff.mp met)

/-- Members of no size come last. -/
theorem slotStorage_emptyLast (sound : ∀ s ∈ (orderMembers layout).storage, s.Sound sizeof) :
    layout.slotStorage.Pairwise fun a b => a.slot.size = 0 → b.slot.size = 0 := by
  refine (slotStorage_sorted layout).imp_of_mem fun {a b} met met' sorted empty => ?_
  have least := ((slotStorage_sound sound a met).empty empty).1
  have align := (slotStorage_sound sound b met').align
  rw [least] at sorted
  simp only at sorted
  omega

/-- The emitted order is the order of the slots: two data members at one offset are both the empty
union. -/
theorem emitStorage_orderMembers (sound : ∀ s ∈ (orderMembers layout).storage, s.Sound sizeof) :
    emitStorage (orderMembers layout) = layout.slotStorage := by
  have sound' := slotStorage_sound sound
  have apart := pairwise_of_offsetsFrom
    (fun s met => by have := (sound' s met).align; omega) (slotStorage_offset layout)
  have single : layout.slotStorage.Pairwise fun a b => a.offset = b.offset → a = b := by
    refine (apart.and (slotStorage_emptyLast sound)).imp_of_mem fun {a b} met met' both same => ?_
    have empty : a.slot.size = 0 := by omega
    obtain ⟨slot, type⟩ := (sound' a met).empty empty
    obtain ⟨slot', type'⟩ := (sound' b met').empty (both.2 empty)
    cases a
    cases b
    simp_all
  have perm : (emitStorage (orderMembers layout)).Perm layout.slotStorage :=
    (List.perm_insertionSort _ _).trans (slotStorage_perm layout).symm
  have sorted : (emitStorage (orderMembers layout)).Pairwise fun a b => a.offset ≤ b.offset := by
    have : IsTrans Storage fun a b => a.offset ≤ b.offset := ⟨fun _ _ _ => le_trans⟩
    have : Std.Total fun a b : Storage => a.offset ≤ b.offset := ⟨fun _ _ => le_total _ _⟩
    exact List.pairwise_insertionSort _ _
  refine List.Perm.eq_of_pairwise ?_ sorted (apart.imp fun {a b} before => by omega) perm
  intro a b met met' below above
  by_contra differs
  have : Std.Symm fun a b : Storage => a.offset = b.offset → a = b :=
    ⟨fun _ _ implies same => (implies same.symm).symm⟩
  exact differs (single.forall (perm.mem_iff.mp met) met' differs (by omega))

/-- What `order_slots` leaves in a message. -/
structure MessageLayout.Emitted (layout : MessageLayout) : Prop where
  offsets : (emitStorage layout).map Storage.offset =
    offsetsFrom 0 ((emitStorage layout).map Storage.slot)
  extent : ⟨layout.size, layout.align⟩ = structExtent ((emitStorage layout).map Storage.slot)
  ordered : Ordered ((emitStorage layout).map Storage.slot)

theorem align_dvd {a b : Nat} (left : a = 1 ∨ a = 2 ∨ a = 4 ∨ a = 8)
    (right : b = 1 ∨ b = 2 ∨ b = 4 ∨ b = 8) (below : a ≤ b) : a ∣ b := by
  rcases left with rfl | rfl | rfl | rfl <;> rcases right with rfl | rfl | rfl | rfl <;>
    first | decide | omega

theorem orderMembers_emitted (sound : ∀ s ∈ (orderMembers layout).storage, s.Sound sizeof) :
    (orderMembers layout).Emitted := by
  have sound' := slotStorage_sound sound
  have same := emitStorage_orderMembers sound
  refine ⟨?_, ?_, ?_⟩
  · rw [same]
    exact slotStorage_offset layout
  · rw [same, slotStorage_slot]
    simp only [orderMembers, orderSlots_eq]
  · rw [same]
    refine ⟨?_, ?_, ?_, ?_, ?_⟩
    · simp only [List.forall_mem_map]
      intro s met
      have := (sound' s met).align
      omega
    · rw [List.pairwise_map]
      refine (slotStorage_sorted layout).imp_of_mem fun {a b} met met' sorted => ?_
      exact align_dvd (sound' b met').align (sound' a met).align (by omega)
    · rw [List.pairwise_map]
      exact slotStorage_emptyLast sound
    · simp only [List.forall_mem_map]
      intro s met empty
      rw [((sound' s met).empty empty).1]
    · simp only [List.forall_mem_map]
      intro s met irregular
      obtain ⟨members, union⟩ := (sound' s met).union irregular
      have met' := (slotStorage_perm layout).mem_iff.mp met
      rw [List.mem_map]
      suffices ∃ d ∈ (orderMembers layout).storage, d.slot = ⟨1, 1⟩ by
        obtain ⟨d, met, same⟩ := this
        exact ⟨d, (slotStorage_perm layout).mem_iff.mpr met, same⟩
      simp only [MessageLayout.storage, List.mem_append, List.mem_map, List.mem_flatMap] at met'
      rcases met' with (⟨m, -, rfl⟩ | ⟨o, inside, -⟩) | masked
      · cases union
      · refine ⟨⟨o.discOffset, ⟨kDiscSize, 1⟩, .disc⟩, ?_, rfl⟩
        simp only [MessageLayout.storage, List.mem_append, List.mem_flatMap]
        exact .inl (.inr ⟨o, inside, by simp⟩)
      · split at masked
        · cases List.mem_singleton.mp masked
          cases union
        · cases masked

end Class

end RapidProto
