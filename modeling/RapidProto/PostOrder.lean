import Mathlib.Data.List.Nodup
import Mathlib.Logic.Relation

/-!
# Lists in which successors come first

A list without repetition in which every element stands after everything it points to.  Such a list
is closed under the relation, carries an induction principle, and admits no cycle.
-/

namespace RapidProto

open Relation

variable {α : Type} {edge : α → α → Prop} {order : List α}

/-- No element is listed twice, and everything an element points to stands before it. -/
structure PostOrder (edge : α → α → Prop) (order : List α) : Prop where
  /-- No element is listed twice. -/
  once : order.Nodup
  /-- Successors come first. -/
  after : ∀ before x later, order = before ++ x :: later → ∀ y, edge x y → y ∈ before

namespace PostOrder

theorem nil : PostOrder edge [] where
  once := List.nodup_nil
  after before x later split := by simp at split

/-- An element all of whose successors are listed can be listed itself. -/
theorem append (listed : PostOrder edge order) {x : α} (fresh : x ∉ order)
    (done : ∀ y, edge x y → y ∈ order) : PostOrder edge (order ++ [x]) where
  once := by
    refine List.nodup_append.mpr ⟨listed.once, List.nodup_singleton x, ?_⟩
    rintro y met _ last rfl
    cases List.mem_singleton.mp last
    exact fresh met
  after before y later split z pointed := by
    rcases List.eq_nil_or_concat later with rfl | ⟨later, last, rfl⟩
    · obtain ⟨rfl, same⟩ := List.append_inj' split rfl
      cases same
      exact done z pointed
    · rw [List.concat_eq_append, ← List.cons_append, ← List.append_assoc] at split
      obtain ⟨same, -⟩ := List.append_inj' split rfl
      exact listed.after before y later same z pointed

theorem mono (listed : PostOrder edge order) {edge' : α → α → Prop}
    (fewer : ∀ x ∈ order, ∀ y, edge' x y → edge x y) : PostOrder edge' order where
  once := listed.once
  after before x later split y pointed :=
    listed.after before x later split y (fewer x (by simp [split]) y pointed)

theorem mem_of_edge (listed : PostOrder edge order) {x y : α} (met : x ∈ order)
    (pointed : edge x y) : y ∈ order := by
  obtain ⟨before, later, rfl⟩ := List.append_of_mem met
  exact List.mem_append_left _ (listed.after before x later rfl y pointed)

theorem mem_of_reflTransGen (listed : PostOrder edge order) {x y : α} (met : x ∈ order)
    (leads : ReflTransGen edge x y) : y ∈ order := by
  induction leads with
  | refl => exact met
  | tail _ pointed ih => exact listed.mem_of_edge ih pointed

/-- Everything reached from an element by at least one step stands before it. -/
theorem mem_of_transGen (listed : PostOrder edge order) {x y : α} (leads : TransGen edge x y)
    {before later : List α} (split : order = before ++ x :: later) : y ∈ before := by
  induction leads with
  | single pointed => exact listed.after before x later split _ pointed
  | tail _ pointed ih =>
      obtain ⟨start, rest, rfl⟩ := List.append_of_mem ih
      have first := listed.after start _ (rest ++ x :: later) (by simpa using split) _ pointed
      exact List.mem_append_left _ first

/-- Induction along the order: what holds of all successors holds of the element. -/
theorem induction (listed : PostOrder edge order) {motive : α → Prop}
    (step : ∀ x ∈ order, (∀ y, edge x y → motive y) → motive x) : ∀ x ∈ order, motive x := by
  have prefixes : ∀ n x before later, before.length < n → order = before ++ x :: later → motive x := by
    intro n
    induction n with
    | zero =>
        intro x before later short
        omega
    | succ n ih =>
        intro x before later short split
        refine step x (by simp [split]) fun y pointed => ?_
        obtain ⟨start, rest, rfl⟩ := List.append_of_mem (listed.after before x later split y pointed)
        refine ih y start (rest ++ x :: later) ?_ (by simpa using split)
        simp at short
        omega
  intro x met
  obtain ⟨before, later, split⟩ := List.append_of_mem met
  exact prefixes _ x before later (Nat.lt_succ_self _) split

/-- No listed element leads back to itself. -/
theorem not_transGen (listed : PostOrder edge order) {x : α} (met : x ∈ order) :
    ¬ TransGen edge x x := by
  intro cycle
  obtain ⟨before, later, split⟩ := List.append_of_mem met
  have twice := listed.mem_of_transGen cycle split
  have once := listed.once
  rw [split] at once
  exact (List.nodup_append.mp once).2.2 x twice x (by simp) rfl

end PostOrder

/-! ## Orders of a relation with cycles -/

/-- No element is listed twice, and a successor that does not come first leads back. -/
structure LoopedOrder (edge : α → α → Prop) (order : List α) : Prop where
  /-- No element is listed twice. -/
  once : order.Nodup
  /-- Successors come first or lead back. -/
  after : ∀ before x later, order = before ++ x :: later → ∀ y, edge x y →
    y ∈ before ∨ ReflTransGen edge y x

namespace LoopedOrder

theorem nil : LoopedOrder edge [] where
  once := List.nodup_nil
  after before x later split := by simp at split

/-- An element can be listed when each of its successors is listed or leads back to it. -/
theorem append (listed : LoopedOrder edge order) {x : α} (fresh : x ∉ order)
    (done : ∀ y, edge x y → y ∈ order ∨ ReflTransGen edge y x) :
    LoopedOrder edge (order ++ [x]) where
  once := by
    refine List.nodup_append.mpr ⟨listed.once, List.nodup_singleton x, ?_⟩
    rintro y met _ last rfl
    cases List.mem_singleton.mp last
    exact fresh met
  after before y later split z pointed := by
    rcases List.eq_nil_or_concat later with rfl | ⟨later, last, rfl⟩
    · obtain ⟨rfl, same⟩ := List.append_inj' split rfl
      cases same
      exact done z pointed
    · rw [List.concat_eq_append, ← List.cons_append, ← List.append_assoc] at split
      obtain ⟨same, -⟩ := List.append_inj' split rfl
      exact listed.after before y later same z pointed

/-- The element leads to no cycle. -/
def Clear (edge : α → α → Prop) (x : α) : Prop := ∀ z, ReflTransGen edge x z → ¬ TransGen edge z z

theorem Clear.of_reflTransGen {x y : α} (clear : Clear edge x) (leads : ReflTransGen edge x y) :
    Clear edge y :=
  fun z more => clear z (leads.trans more)

/-- Restricted to the elements that lead to no cycle, all successors come first. -/
theorem postOrder (listed : LoopedOrder edge order) :
    PostOrder (fun x y => edge x y ∧ Clear edge x) order where
  once := listed.once
  after before x later split y := by
    rintro ⟨pointed, clear⟩
    rcases listed.after before x later split y pointed with first | back
    · exact first
    · exact absurd (TransGen.head' pointed back) (clear x .refl)

/-- An element that leads to no cycle stands after everything it leads to. -/
theorem mem_of_transGen (listed : LoopedOrder edge order) {x y : α} (clear : Clear edge x)
    (leads : TransGen edge x y) {before later : List α} (split : order = before ++ x :: later) :
    y ∈ before := by
  refine listed.postOrder.mem_of_transGen ?_ split
  induction leads with
  | single pointed => exact .single ⟨pointed, clear⟩
  | tail leads pointed ih => exact ih.tail ⟨pointed, clear.of_reflTransGen leads.to_reflTransGen⟩

end LoopedOrder

end RapidProto
