import Mathlib.Data.List.GetD
import RapidProto.Region

/-!
# Arrays in memory

Memory as a function from addresses to bytes, read and written in consecutive runs.  An array is a
sequence of items of one size from a base address on.  Writing behind an array extends it, writing
elsewhere leaves it alone, and an item-wise copy to a place apart from it is the same array.
-/

namespace RapidProto

/-- The contents of memory. -/
def Memory (β : Type) : Type := Nat → β

namespace Memory

variable {β : Type} {memory memory' : Memory β}

/-- The bytes from an address on. -/
def read (memory : Memory β) (address length : Nat) : List β :=
  (List.range length).map fun offset => memory (address + offset)

/-- Replace the bytes from an address on. -/
def write (memory : Memory β) (address : Nat) (image : List β) : Memory β := fun place =>
  if address ≤ place then image.getD (place - address) (memory place) else memory place

/-- The items of an array. -/
def array (memory : Memory β) (base size count : Nat) : List (List β) :=
  (List.range count).map fun index => memory.read (base + index * size) size

/-- Copy items from one array to another; `left` items remain, the next one is `index`. -/
def copyItems (size source target : Nat) : (left index : Nat) → Memory β → Memory β
  | 0, _, memory => memory
  | left + 1, index, memory =>
    copyItems size source target left (index + 1)
      (memory.write (target + index * size) (memory.read (source + index * size) size))

/-- The memories differ within a region only. -/
def ChangesWithin (region : Region) (memory memory' : Memory β) : Prop :=
  ∀ place, place < region.start ∨ region.stop ≤ place → memory' place = memory place

/-! ## Reading and writing -/

@[simp] theorem length_read (memory : Memory β) (address length : Nat) :
    (memory.read address length).length = length := by
  simp [read]

@[simp] theorem length_array (memory : Memory β) (base size count : Nat) :
    (memory.array base size count).length = count := by
  simp [array]

theorem write_before {address place : Nat} (image : List β) (before : place < address) :
    memory.write address image place = memory place := by
  rw [write, if_neg (by omega)]

theorem write_behind {address place : Nat} {image : List β}
    (behind : address + image.length ≤ place) : memory.write address image place = memory place := by
  rw [write, if_pos (by omega), List.getD_eq_default _ _ (by omega)]

theorem read_congr {address length : Nat}
    (same : ∀ place, address ≤ place → place < address + length → memory' place = memory place) :
    memory'.read address length = memory.read address length := by
  refine List.map_congr_left fun offset inside => ?_
  have bound := List.mem_range.mp inside
  exact same _ (by omega) (by omega)

theorem read_apply {address length place : Nat} (low : address ≤ place)
    (high : place < address + length)
    (same : memory'.read address length = memory.read address length) :
    memory' place = memory place := by
  have offset := List.map_inj_left.mp same (place - address) (List.mem_range.mpr (by omega))
  rwa [Nat.add_sub_cancel' low] at offset

/-- What was written is read. -/
theorem read_write (memory : Memory β) (address : Nat) (image : List β) :
    (memory.write address image).read address image.length = image := by
  refine List.ext_getElem (by simp) fun offset _ inside => ?_
  simp only [read, List.getElem_map, List.getElem_range, write]
  rw [if_pos (by omega), Nat.add_sub_cancel_left, List.getD_eq_getElem _ _ inside]

theorem write_append (memory : Memory β) (address : Nat) (front back : List β) :
    memory.write address (front ++ back) =
      (memory.write address front).write (address + front.length) back := by
  funext place
  by_cases before : place < address
  · rw [write_before _ before, write_before _ (by omega), write_before _ before]
  by_cases early : place < address + front.length
  · rw [write_before back early, write, if_pos (by omega), write, if_pos (by omega),
      List.getD_append _ _ _ _ (by omega)]
  · rw [write, if_pos (by omega), write, if_pos (by omega),
      List.getD_append_right _ _ _ _ (by omega), write_behind (by omega)]
    congr 1
    omega

/-! ## Changes -/

theorem ChangesWithin.refl (region : Region) (memory : Memory β) :
    ChangesWithin region memory memory := fun _ _ => rfl

theorem ChangesWithin.trans {region : Region} {memory'' : Memory β}
    (first : ChangesWithin region memory memory') (second : ChangesWithin region memory' memory'') :
    ChangesWithin region memory memory'' := fun place outside =>
  (second place outside).trans (first place outside)

theorem changesWithin_write {region : Region} {address : Nat} {image : List β}
    (inside : Region.Inside ⟨address, address + image.length⟩ region) :
    ChangesWithin region memory (memory.write address image) := by
  obtain ⟨low, high⟩ := inside
  simp only at low high
  intro place outside
  rcases outside with before | behind
  · exact write_before image (by omega)
  · exact write_behind (by omega)

/-- What lies apart from the changes is read as before. -/
theorem ChangesWithin.read {region : Region} (changes : ChangesWithin region memory memory')
    {address length : Nat} (apart : Region.Apart ⟨address, address + length⟩ region) :
    memory'.read address length = memory.read address length := by
  refine read_congr fun place low high => changes place ?_
  rcases apart with before | behind
  · exact .inl (by simp only at before; omega)
  · exact .inr (by simp only at behind; omega)

/-! ## Arrays -/

theorem item_inside {base size index count : Nat} (inside : index < count) :
    Region.Inside ⟨base + index * size, base + index * size + size⟩
      ⟨base, base + count * size⟩ := by
  have rows := Nat.mul_le_mul_right size (Nat.succ_le_of_lt inside)
  rw [Nat.succ_mul] at rows
  exact ⟨by simp only; omega, by simp only; omega⟩

theorem array_congr {base size count : Nat}
    (same : ∀ index, index < count → memory'.read (base + index * size) size =
      memory.read (base + index * size) size) :
    memory'.array base size count = memory.array base size count :=
  List.map_congr_left fun index inside => same index (List.mem_range.mp inside)

/-- An array apart from the changes is the same. -/
theorem ChangesWithin.array {region : Region} (changes : ChangesWithin region memory memory')
    {base size count : Nat} (apart : Region.Apart ⟨base, base + count * size⟩ region) :
    memory'.array base size count = memory.array base size count :=
  array_congr fun _ inside => changes.read (apart.mono (item_inside inside) ⟨le_rfl, le_rfl⟩)

theorem ChangesWithin.mono {region outer : Region} (changes : ChangesWithin region memory memory')
    (inside : region.Inside outer) : ChangesWithin outer memory memory' := fun place outside =>
  changes place (outside.imp (fun before => before.trans_le inside.1) inside.2.trans)

/-- Items are copied to a place apart from theirs. -/
theorem copyItems_spec {size source target count : Nat}
    (apart : Region.Apart ⟨source, source + count * size⟩ ⟨target, target + count * size⟩)
    {left index : Nat} (total : index + left = count) (memory : Memory β) :
    ChangesWithin ⟨target + index * size, target + count * size⟩ memory
        (memory.copyItems size source target left index) ∧
      ∀ item, index ≤ item → item < count →
        (memory.copyItems size source target left index).read (target + item * size) size =
          memory.read (source + item * size) size := by
  induction left generalizing index memory with
  | zero => exact ⟨ChangesWithin.refl _ _, fun item low high => by omega⟩
  | succ left ih =>
      have first : Region.Inside ⟨target + index * size, target + index * size + size⟩
          ⟨target + index * size, target + count * size⟩ :=
        ⟨le_rfl, (item_inside (show index < count by omega)).2⟩
      have later : Region.Inside ⟨target + (index + 1) * size, target + count * size⟩
          ⟨target + index * size, target + count * size⟩ :=
        ⟨Nat.add_le_add_left (Nat.mul_le_mul_right size (Nat.le_succ index)) _, le_rfl⟩
      have written : ChangesWithin ⟨target + index * size, target + count * size⟩ memory
          (memory.write (target + index * size) (memory.read (source + index * size) size)) :=
        changesWithin_write (by rwa [length_read])
      obtain ⟨changes, copied⟩ := @ih (index + 1) (by omega)
        (memory.write (target + index * size) (memory.read (source + index * size) size))
      refine ⟨written.trans (changes.mono later), fun item low high => ?_⟩
      rcases Nat.eq_or_lt_of_le low with rfl | behind
      · have next : target + index * size + size = target + (index + 1) * size := by
          rw [Nat.succ_mul, Nat.add_assoc]
        rw [copyItems, changes.read (.inl next.le)]
        have image := read_write memory (target + index * size)
          (memory.read (source + index * size) size)
        rwa [length_read] at image
      · rw [copyItems, copied item behind high]
        exact written.read (apart.mono (item_inside high) ⟨Nat.le_add_right _ _, le_rfl⟩)

end Memory
end RapidProto
