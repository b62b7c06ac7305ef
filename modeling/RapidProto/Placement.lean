import Mathlib.Tactic

/-!
# The standard layout rule

Where the members of a struct go: each at the next multiple of its alignment, the whole rounded up
to the largest alignment.  Members whose sizes are multiples of their alignments, in an order in
which every alignment divides the ones before it, leave no gap.
-/

namespace RapidProto

/-- Size and alignment of a type. -/
structure Extent where
  /-- Bytes. -/
  size : Nat
  /-- Alignment. -/
  align : Nat
  deriving DecidableEq, Repr

/-- The next multiple of `align`. -/
def roundUp (n align : Nat) : Nat := (n + align - 1) / align * align

/-- Offsets of members placed from `cursor` on. -/
def offsetsFrom : (cursor : Nat) → List Extent → List Nat
  | _, [] => []
  | cursor, member :: members =>
    roundUp cursor member.align :: offsetsFrom (roundUp cursor member.align + member.size) members

/-- The end of the last member placed from `cursor` on. -/
def endFrom : (cursor : Nat) → List Extent → Nat
  | cursor, [] => cursor
  | cursor, member :: members => endFrom (roundUp cursor member.align + member.size) members

/-- The largest alignment. -/
def maxAlign : List Extent → Nat
  | [] => 1
  | member :: members => max member.align (maxAlign members)

/-- Size and alignment of a struct with these members; an empty one occupies a byte. -/
def structExtent (members : List Extent) : Extent :=
  ⟨if endFrom 0 members = 0 then 1 else roundUp (endFrom 0 members) (maxAlign members),
    maxAlign members⟩

/-- A member as the compiler sees it: rounded up to its alignment, and never empty. -/
def padded (member : Extent) : Extent :=
  ⟨if member.size = 0 then 1 else roundUp member.size member.align, member.align⟩

/-- Offsets of members placed back to back from `cursor` on. -/
def sumsFrom : (cursor : Nat) → List Extent → List Nat
  | _, [] => []
  | cursor, member :: members => cursor :: sumsFrom (cursor + member.size) members

/-! ## Rounding -/

theorem dvd_roundUp (n align : Nat) : align ∣ roundUp n align := ⟨_, Nat.mul_comm _ _⟩

theorem le_roundUp {align : Nat} (positive : 0 < align) (n : Nat) : n ≤ roundUp n align := by
  have whole := Nat.div_add_mod (n + align - 1) align
  have rest := Nat.mod_lt (n + align - 1) positive
  rw [roundUp, Nat.mul_comm]
  omega

theorem roundUp_lt {align : Nat} (positive : 0 < align) (n : Nat) : roundUp n align < n + align := by
  have below := Nat.div_mul_le_self (n + align - 1) align
  rw [roundUp]
  omega

theorem roundUp_of_dvd {n align : Nat} (positive : 0 < align) (multiple : align ∣ n) :
    roundUp n align = n := by
  obtain ⟨count, rfl⟩ := multiple
  rw [roundUp, Nat.add_sub_assoc positive, Nat.mul_add_div positive,
    Nat.div_eq_of_lt (by omega : align - 1 < align), Nat.add_zero, Nat.mul_comm]

theorem dvd_of_roundUp_eq {n align : Nat} (same : roundUp n align = n) : align ∣ n :=
  same ▸ dvd_roundUp n align

/-- One more byte does not change the rounded size exactly when the size is no multiple. -/
theorem roundUp_succ_eq_iff {align : Nat} (positive : 0 < align) (n : Nat) :
    roundUp (n + 1) align = roundUp n align ↔ ¬ align ∣ n := by
  have above := le_roundUp positive n
  have above' := le_roundUp positive (n + 1)
  have close := roundUp_lt positive n
  have close' := roundUp_lt positive (n + 1)
  obtain ⟨count, whole⟩ := dvd_roundUp n align
  obtain ⟨count', whole'⟩ := dvd_roundUp (n + 1) align
  constructor
  · intro same multiple
    rw [roundUp_of_dvd positive multiple] at same
    omega
  · intro uneven
    have strict : n ≠ roundUp n align := fun same => uneven (same ▸ dvd_roundUp n align)
    have near : align * count' < align * (count + 1) := by
      rw [Nat.mul_succ]
      omega
    have near' : align * count < align * (count' + 1) := by
      rw [Nat.mul_succ]
      omega
    have equal : count' = count := by
      have := Nat.lt_of_mul_lt_mul_left near
      have := Nat.lt_of_mul_lt_mul_left near'
      omega
    rw [whole, whole', equal]

/-! ## Placement -/

section Placement

variable {members : List Extent} {cursor : Nat}

theorem length_offsetsFrom (cursor : Nat) (members : List Extent) :
    (offsetsFrom cursor members).length = members.length := by
  induction members generalizing cursor with
  | nil => rfl
  | cons member members ih => simp [offsetsFrom, ih]

theorem maxAlign_pos (members : List Extent) : 0 < maxAlign members := by
  induction members with
  | nil => decide
  | cons member members ih => exact lt_max_of_lt_right ih

theorem maxAlign_append (left right : List Extent) :
    maxAlign (left ++ right) = max (maxAlign left) (maxAlign right) := by
  induction left with
  | nil => exact (max_eq_right (maxAlign_pos right)).symm
  | cons member left ih => rw [List.cons_append, maxAlign, maxAlign, ih, max_assoc]

theorem maxAlign_perm {left right : List Extent} (perm : left.Perm right) :
    maxAlign left = maxAlign right := by
  induction perm with
  | nil => rfl
  | cons member _ ih => rw [maxAlign, maxAlign, ih]
  | swap first second members =>
      simp only [maxAlign]
      omega
  | trans _ _ ih ih' => exact ih.trans ih'

theorem le_offsetsFrom (positive : ∀ member ∈ members, 0 < member.align) {offset : Nat}
    (placed : offset ∈ offsetsFrom cursor members) : cursor ≤ offset := by
  induction members generalizing cursor with
  | nil => cases placed
  | cons member members ih =>
      have above := le_roundUp (positive member (by simp)) cursor
      rcases List.mem_cons.mp placed with rfl | later
      · exact above
      · have := ih (fun other met => positive other (by simp [met])) later
        omega

/-- Members whose sizes are multiples of their alignments, in an order in which every alignment
divides the ones before it, are placed back to back. -/
theorem offsetsFrom_eq_sumsFrom (positive : ∀ member ∈ members, 0 < member.align)
    (whole : ∀ member ∈ members, member.align ∣ member.size)
    (descending : members.Pairwise fun first second => second.align ∣ first.align)
    (start : ∀ member ∈ members, member.align ∣ cursor) :
    offsetsFrom cursor members = sumsFrom cursor members ∧
      endFrom cursor members = cursor + (members.map Extent.size).sum := by
  induction members generalizing cursor with
  | nil => exact ⟨rfl, rfl⟩
  | cons member members ih =>
      obtain ⟨divides, descending⟩ := List.pairwise_cons.mp descending
      have here := roundUp_of_dvd (positive member (by simp)) (start member (by simp))
      obtain ⟨offsets, ends⟩ := @ih (cursor + member.size)
        (fun other met => positive other (by simp [met]))
        (fun other met => whole other (by simp [met])) descending fun other met =>
          Nat.dvd_add (start other (by simp [met]))
            ((divides other met).trans (whole member (by simp)))
      rw [offsetsFrom, endFrom, here, offsets, ends, sumsFrom, List.map_cons, List.sum_cons]
      exact ⟨rfl, Nat.add_assoc _ _ _⟩

theorem offsetsFrom_append (cursor : Nat) (left right : List Extent) :
    offsetsFrom cursor (left ++ right) =
      offsetsFrom cursor left ++ offsetsFrom (endFrom cursor left) right := by
  induction left generalizing cursor with
  | nil => rfl
  | cons member left ih => simp only [List.cons_append, offsetsFrom, endFrom, ih]

theorem endFrom_append (cursor : Nat) (left right : List Extent) :
    endFrom cursor (left ++ right) = endFrom (endFrom cursor left) right := by
  induction left generalizing cursor with
  | nil => rfl
  | cons member left ih => simp only [List.cons_append, endFrom, ih]

theorem le_endFrom (positive : ∀ member ∈ members, 0 < member.align) :
    cursor ≤ endFrom cursor members := by
  induction members generalizing cursor with
  | nil => exact le_rfl
  | cons member members ih =>
      have above := le_roundUp (positive member (by simp)) cursor
      have := @ih (roundUp cursor member.align + member.size)
        fun other met => positive other (by simp [met])
      rw [endFrom]
      omega

/-- Placed entries do not overlap. -/
theorem pairwise_of_offsetsFrom {β : Type} {entries : List β} {offset : β → Nat}
    {extent : β → Extent} (positive : ∀ entry ∈ entries, 0 < (extent entry).align)
    (placed : entries.map offset = offsetsFrom cursor (entries.map extent)) :
    entries.Pairwise fun a b => offset a + (extent a).size ≤ offset b := by
  induction entries generalizing cursor with
  | nil => exact .nil
  | cons entry entries ih =>
      simp only [List.map_cons, offsetsFrom, List.cons.injEq] at placed
      have positive' : ∀ other ∈ entries, 0 < (extent other).align := fun other met =>
        positive other (by simp [met])
      refine .cons (fun other met => ?_) (ih positive' placed.2)
      have later : offset other ∈ entries.map offset := List.mem_map_of_mem met
      rw [placed.2] at later
      rw [placed.1]
      exact le_offsetsFrom (by simpa using positive') later

/-- Placed entries are aligned. -/
theorem dvd_of_offsetsFrom {β : Type} {entries : List β} {offset : β → Nat} {extent : β → Extent}
    (placed : entries.map offset = offsetsFrom cursor (entries.map extent)) :
    ∀ entry ∈ entries, (extent entry).align ∣ offset entry := by
  induction entries generalizing cursor with
  | nil => simp
  | cons entry entries ih =>
      simp only [List.map_cons, offsetsFrom, List.cons.injEq] at placed
      intro other met
      rcases List.mem_cons.mp met with rfl | later
      · rw [placed.1]
        exact dvd_roundUp _ _
      · exact ih placed.2 other later

end Placement

/-! ## Members the compiler rounds up -/

section Padding

variable {members : List Extent} {cursor : Nat}

theorem le_padded {member : Extent} (positive : 0 < member.align) :
    member.size ≤ (padded member).size := by
  rw [padded]
  dsimp only
  split
  · omega
  · exact le_roundUp positive member.size

theorem padded_eq_self_iff {member : Extent} (positive : 0 < member.align) :
    padded member = member ↔ 0 < member.size ∧ member.align ∣ member.size := by
  obtain ⟨size, align⟩ := member
  simp only [padded, Extent.mk.injEq, and_true]
  split
  · omega
  · rename_i occupied
    constructor
    · intro same
      exact ⟨Nat.pos_of_ne_zero occupied, dvd_of_roundUp_eq same⟩
    · intro whole
      exact roundUp_of_dvd positive whole.2

/-- Placed back to back at the compiler's offsets, a member is rounded up only in the last place. -/
theorem padded_of_mem_dropLast (positive : ∀ member ∈ members, 0 < member.align)
    (packed : offsetsFrom cursor members = sumsFrom cursor members)
    (same : offsetsFrom cursor (members.map padded) = sumsFrom cursor members)
    {member : Extent} (early : member ∈ members.dropLast) : padded member = member := by
  induction members generalizing cursor with
  | nil => cases early
  | cons first members ih =>
      cases members with
      | nil => cases early
      | cons second members =>
          simp only [List.map_cons, offsetsFrom, sumsFrom, List.cons.injEq] at packed same
          have unrounded : padded first = first := by
            have below := le_padded (positive first (by simp))
            have above := le_roundUp (positive second (by simp))
              (roundUp cursor (padded first).align + (padded first).size)
            have placed := packed.1
            have placed' := same.1
            have next := same.2.1
            have size : (padded first).size = first.size := by
              have : (padded second).align = second.align := rfl
              rw [this] at next
              omega
            exact congrArg₂ Extent.mk size rfl
          rcases List.mem_cons.mp early with rfl | later
          · exact unrounded
          · refine @ih (cursor + first.size)
              (fun other met => positive other (by simp [met])) ?_ ?_ later
            · simp only [offsetsFrom, sumsFrom, List.cons.injEq]
              rw [packed.1] at packed
              exact packed.2
            · rw [unrounded] at same
              simp only [List.map_cons, offsetsFrom, sumsFrom, List.cons.injEq]
              rw [same.1] at same
              exact same.2

/-- The compiler's placement is the planned one, without a gap. -/
structure PlacedAsCompiled (members : List Extent) : Prop where
  /-- The offsets agree. -/
  offsets : offsetsFrom 0 members = offsetsFrom 0 (members.map padded)
  /-- Size and alignment of the whole agree. -/
  extent : structExtent members = structExtent (members.map padded)
  /-- Every member starts where the one before ends. -/
  packed : offsetsFrom 0 members = sumsFrom 0 members

/-- Members in the order of falling alignment, empty ones last, where any that the compiler would
round up has a one-byte companion. -/
structure Ordered (members : List Extent) : Prop where
  positive : ∀ member ∈ members, 0 < member.align
  descending : members.Pairwise fun first second => second.align ∣ first.align
  emptyLast : members.Pairwise fun first second => first.size = 0 → second.size = 0
  empty : ∀ member ∈ members, member.size = 0 → member.align = 1
  companion : ∀ member ∈ members, member.size = 0 ∨ ¬ member.align ∣ member.size →
    ⟨1, 1⟩ ∈ members

theorem Ordered.placed (ordered : Ordered members)
    (whole : ∀ member ∈ members, member.align ∣ member.size) :
    offsetsFrom 0 members = sumsFrom 0 members ∧
      endFrom 0 members = (members.map Extent.size).sum := by
  have placed := @offsetsFrom_eq_sumsFrom members 0 ordered.positive whole ordered.descending
    fun member _ => Nat.dvd_zero _
  rwa [Nat.zero_add] at placed

theorem le_endFrom_of_mem (positive : ∀ member ∈ members, 0 < member.align) {member : Extent}
    (met : member ∈ members) : member.size ≤ endFrom 0 members := by
  obtain ⟨before, after, rfl⟩ := List.append_of_mem met
  have above := @le_endFrom after (roundUp (endFrom 0 before) member.align + member.size)
    fun other met => positive other (by simp [met])
  rw [endFrom_append, endFrom]
  omega

/-- A struct without a byte has the least alignment. -/
theorem Ordered.maxAlign_of_endFrom (ordered : Ordered members) (empty : endFrom 0 members = 0) :
    maxAlign members = 1 := by
  have least : ∀ member ∈ members, member.align = 1 := by
    intro member met
    have below := le_endFrom_of_mem ordered.positive met
    exact ordered.empty member met (by omega)
  clear ordered empty
  induction members with
  | nil => rfl
  | cons member members ih =>
      rw [maxAlign, least member (by simp), ih fun other met => least other (by simp [met])]
      rfl

/-- The compiler gives an empty last member one byte. -/
theorem structExtent_padded_empty {early : List Extent}
    (unrounded : ∀ member ∈ early, padded member = member) (occupied : 0 < endFrom 0 early) :
    structExtent (early ++ [(⟨0, 1⟩ : Extent)]) =
        structExtent ((early ++ [(⟨0, 1⟩ : Extent)]).map padded) ↔
      ¬ maxAlign early ∣ endFrom 0 early := by
  have same : (early ++ [(⟨0, 1⟩ : Extent)]).map padded = early ++ [⟨1, 1⟩] := by
    rw [List.map_append, List.map_congr_left unrounded, List.map_id']
    rfl
  have fixed : ∀ n, roundUp n 1 = n := fun n => roundUp_of_dvd Nat.one_pos (Nat.one_dvd n)
  have aligned : ∀ size, maxAlign (early ++ [⟨size, 1⟩]) = maxAlign early := fun size => by
    rw [maxAlign_append]
    exact max_eq_left (maxAlign_pos early)
  rw [same, structExtent, structExtent, aligned, aligned, endFrom_append, endFrom_append]
  simp only [endFrom, fixed, Nat.add_zero, Extent.mk.injEq, and_true]
  rw [if_neg (by omega), if_neg (by omega), eq_comm, roundUp_succ_eq_iff (maxAlign_pos early)]

section Last

variable {early : List Extent} {last : Extent}

theorem Ordered.dvd_of_last (ordered : Ordered (early ++ [last])) : last.align ∣ last.size := by
  by_contra uneven
  have companion := ordered.companion last (by simp) (.inr uneven)
  rcases List.mem_append.mp companion with first | same
  · have divides := (List.pairwise_append.mp ordered.descending).2.2 _ first last (by simp)
    rw [Nat.dvd_one.mp divides] at uneven
    exact uneven (Nat.one_dvd _)
  · rw [← List.mem_singleton.mp same] at uneven
    exact uneven (Nat.one_dvd _)

/-- An empty last member has a companion, so something stands before it. -/
theorem Ordered.endFrom_pos (ordered : Ordered (early ++ [last])) (empty : last.size = 0) :
    0 < endFrom 0 early := by
  have companion := ordered.companion last (by simp) (.inl empty)
  rcases List.mem_append.mp companion with first | same
  · obtain ⟨before, after, rfl⟩ := List.append_of_mem first
    have above := @le_endFrom after (roundUp (endFrom 0 before) 1 + 1)
      fun member met => ordered.positive member (by simp [met])
    rw [endFrom_append, endFrom]
    dsimp only
    omega
  · rw [← List.mem_singleton.mp same] at empty
    exact absurd empty Nat.one_ne_zero

theorem Ordered.last_eq (ordered : Ordered (early ++ [last])) (empty : last.size = 0) :
    last = ⟨0, 1⟩ :=
  congrArg₂ Extent.mk empty (ordered.empty last (by simp) empty)

/-- An empty last member changes neither the size nor the alignment. -/
theorem Ordered.sum_of_empty (ordered : Ordered (early ++ [last])) (empty : last.size = 0)
    (whole : ∀ member ∈ early ++ [last], member.align ∣ member.size) :
    ((early ++ [last]).map Extent.size).sum = endFrom 0 early ∧
      maxAlign (early ++ [last]) = maxAlign early := by
  have sum := (ordered.placed whole).2
  cases ordered.last_eq empty
  rw [endFrom_append] at sum
  refine ⟨?_, ?_⟩
  · rw [← sum]
    exact roundUp_of_dvd Nat.one_pos (Nat.one_dvd _)
  · rw [maxAlign_append]
    exact max_eq_left (maxAlign_pos early)

theorem Ordered.conditions (ordered : Ordered (early ++ [last]))
    (placed : PlacedAsCompiled (early ++ [last])) :
    (∀ member ∈ early ++ [last], member.align ∣ member.size) ∧
      ((early ++ [last]).countP (fun member => member.size = 0) = 0 ∨
        (early ++ [last]).countP (fun member => member.size = 0) = 1 ∧
          ¬ maxAlign (early ++ [last]) ∣ ((early ++ [last]).map Extent.size).sum) := by
  obtain ⟨offsets, extent, packed⟩ := placed
  have unrounded : ∀ member ∈ early, padded member = member := fun member met =>
    padded_of_mem_dropLast ordered.positive packed (offsets.symm.trans packed) (by simpa using met)
  have regular := fun member met =>
    (padded_eq_self_iff (ordered.positive member (List.mem_append_left _ met))).mp
      (unrounded member met)
  have whole : ∀ member ∈ early ++ [last], member.align ∣ member.size := by
    intro member met
    rcases List.mem_append.mp met with first | same
    · exact (regular member first).2
    · rw [List.mem_singleton.mp same]
      exact ordered.dvd_of_last
  have counted : early.countP (fun member => member.size = 0) = 0 := by
    rw [List.countP_eq_zero]
    intro member met
    have := (regular member met).1
    simp
    omega
  refine ⟨whole, ?_⟩
  rw [List.countP_append, counted]
  by_cases empty : last.size = 0
  · refine .inr ⟨by simp [empty], ?_⟩
    obtain ⟨sum, aligned⟩ := ordered.sum_of_empty empty whole
    rw [sum, aligned]
    rw [ordered.last_eq empty] at extent
    exact (structExtent_padded_empty unrounded (ordered.endFrom_pos empty)).mp extent
  · exact .inl (by simp [empty])

/-- Members none of which is empty, all whole, are placed as planned. -/
theorem Ordered.placed_of_last_occupied (ordered : Ordered (early ++ [last]))
    (whole : ∀ member ∈ early ++ [last], member.align ∣ member.size) (occupied : last.size ≠ 0) :
    PlacedAsCompiled (early ++ [last]) := by
  have unrounded : (early ++ [last]).map padded = early ++ [last] := by
    refine (List.map_congr_left fun member met => ?_).trans (List.map_id' _)
    refine (padded_eq_self_iff (ordered.positive member met)).mpr ⟨?_, whole member met⟩
    by_contra zero
    rcases List.mem_append.mp met with first | same
    · have later := (List.pairwise_append.mp ordered.emptyLast).2.2 member first last (by simp)
      exact occupied (later (by omega))
    · rw [List.mem_singleton.mp same] at zero
      omega
  exact ⟨by rw [unrounded], by rw [unrounded], (ordered.placed whole).1⟩

/-- One empty member whose byte falls into the padding at the end. -/
theorem Ordered.placed_of_last_empty (ordered : Ordered (early ++ [last]))
    (whole : ∀ member ∈ early ++ [last], member.align ∣ member.size) (empty : last.size = 0)
    (single : (early ++ [last]).countP (fun member => member.size = 0) = 1)
    (uneven : ¬ maxAlign (early ++ [last]) ∣ ((early ++ [last]).map Extent.size).sum) :
    PlacedAsCompiled (early ++ [last]) := by
  have counted : early.countP (fun member => member.size = 0) = 0 := by
    simpa [List.countP_append, empty] using single
  have unrounded : ∀ member ∈ early, padded member = member := by
    intro member met
    have occupied := List.countP_eq_zero.mp counted member met
    refine (padded_eq_self_iff (ordered.positive member (by simp [met]))).mpr
      ⟨?_, whole member (by simp [met])⟩
    simp at occupied
    omega
  obtain ⟨sum, aligned⟩ := ordered.sum_of_empty empty whole
  rw [sum, aligned] at uneven
  refine ⟨?_, ?_, (ordered.placed whole).1⟩
  · rw [List.map_append, List.map_congr_left unrounded, List.map_id', offsetsFrom_append,
      offsetsFrom_append]
    rfl
  · rw [ordered.last_eq empty]
    exact (structExtent_padded_empty unrounded (ordered.endFrom_pos empty)).mpr uneven

end Last

/-- The planned placement is the compiler's exactly when every size is a multiple of its alignment
and at most one member is empty, whose byte then falls into the padding at the end. -/
theorem Ordered.placedAsCompiled_iff (ordered : Ordered members) :
    PlacedAsCompiled members ↔
      (∀ member ∈ members, member.align ∣ member.size) ∧
        (members.countP (fun member => member.size = 0) = 0 ∨
          members.countP (fun member => member.size = 0) = 1 ∧
            ¬ maxAlign members ∣ (members.map Extent.size).sum) := by
  rcases List.eq_nil_or_concat members with rfl | ⟨early, last, rfl⟩
  · exact ⟨fun _ => ⟨by simp, .inl rfl⟩, fun _ => ⟨rfl, rfl, rfl⟩⟩
  rw [List.concat_eq_append] at ordered ⊢
  refine ⟨ordered.conditions, ?_⟩
  rintro ⟨whole, without | ⟨single, uneven⟩⟩
  · refine ordered.placed_of_last_occupied whole fun empty => ?_
    simp [List.countP_append, empty] at without
  · by_cases empty : last.size = 0
    · exact ordered.placed_of_last_empty whole empty single uneven
    · exact ordered.placed_of_last_occupied whole empty

end Padding

end RapidProto
