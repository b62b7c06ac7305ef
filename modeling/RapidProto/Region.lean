import Mathlib.Algebra.GroupWithZero.Nat
import Mathlib.Algebra.Order.BigOperators.Group.List
import Mathlib.Data.Finset.Card
import Mathlib.Order.Interval.Finset.Nat

/-!
# Regions of an address space

A region is the range of addresses from `start` up to but not including `stop`.  Two regions are
apart when one ends before the other begins; an empty region at the border of another is apart from
it.
-/

namespace RapidProto

/-- A range of addresses. -/
structure Region where
  /-- First address. -/
  start : Nat
  /-- The address behind the last one. -/
  stop : Nat
  deriving DecidableEq, Repr

namespace Region

/-- Number of addresses. -/
def length (region : Region) : Nat := region.stop - region.start

/-- One region ends before the other begins. -/
def Apart (left right : Region) : Prop := left.stop ≤ right.start ∨ right.stop ≤ left.start

/-- Every address of `inner`, and its end, is one of `outer`. -/
def Inside (inner outer : Region) : Prop := outer.start ≤ inner.start ∧ inner.stop ≤ outer.stop

variable {left right inner outer : Region}

theorem Apart.symm (apart : left.Apart right) : right.Apart left := Or.symm apart

theorem Apart.mono {left' right' : Region} (apart : left.Apart right) (insideLeft : left'.Inside left)
    (insideRight : right'.Inside right) : left'.Apart right' := by
  rcases apart with before | behind
  · exact .inl (insideLeft.2.trans (before.trans insideRight.1))
  · exact .inr (insideRight.2.trans (behind.trans insideLeft.1))

/-- An address of one of two regions that are apart is not an address of the other. -/
theorem Apart.not_mem (apart : left.Apart right) {address : Nat}
    (listed : left.start ≤ address ∧ address < left.stop) :
    ¬ (right.start ≤ address ∧ address < right.stop) := by
  rcases apart with before | behind <;> omega

/-- Regions that are pairwise apart do not exceed the space they lie in. -/
theorem sum_length_le {regions : List Region} {bound : Nat}
    (apart : regions.Pairwise Apart) (inside : ∀ region ∈ regions, region.stop ≤ bound) :
    (regions.map length).sum ≤ bound := by
  have counted : ∃ addresses : Finset Nat, addresses.card = (regions.map length).sum ∧
      ∀ address ∈ addresses, ∃ region ∈ regions, region.start ≤ address ∧ address < region.stop := by
    induction regions with
    | nil => exact ⟨∅, by simp⟩
    | cons region regions ih =>
        rw [List.pairwise_cons] at apart
        obtain ⟨addresses, card, listed⟩ :=
          ih apart.2 fun other later => inside other (List.mem_cons_of_mem _ later)
        refine ⟨Finset.Ico region.start region.stop ∪ addresses, ?_, fun address member => ?_⟩
        · rw [Finset.card_union_of_disjoint, card, Nat.card_Ico]
          · rfl
          · rw [Finset.disjoint_left]
            intro address here there
            obtain ⟨other, later, held⟩ := listed address there
            exact (apart.1 other later).not_mem (Finset.mem_Ico.mp here) held
        · rcases Finset.mem_union.mp member with here | there
          · exact ⟨region, by simp, Finset.mem_Ico.mp here⟩
          · obtain ⟨other, later, held⟩ := listed address there
            exact ⟨other, by simp [later], held⟩
  obtain ⟨addresses, card, listed⟩ := counted
  rw [← card, ← Finset.card_range bound]
  refine Finset.card_le_card fun address member => ?_
  obtain ⟨region, later, held⟩ := listed address member
  have below := inside region later
  exact Finset.mem_range.mpr (by omega)

end Region
end RapidProto
