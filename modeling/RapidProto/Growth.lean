import Mathlib.Algebra.BigOperators.Group.List.Basic
import Mathlib.Tactic.Ring

/-!
# Growing arrays

The bookkeeping of an array that is moved to a larger one when it is full: the count, the capacity,
and how many elements were requested in all.  Single elements double a full array.  A run of
elements grows the array to exactly what the run may need, and may give back what it did not use.
Doubling is paid for by the elements stored since the last move; a run pays for itself when it is at
least as long as what is there already.
-/

namespace RapidProto

/-- The bookkeeping of an array. -/
@[ext]
structure Growth where
  /-- Elements stored. -/
  count : Nat := 0
  /-- Room for elements. -/
  capacity : Nat := 0
  /-- Elements of all arrays requested so far. -/
  requested : Nat := 0
  deriving DecidableEq, Repr

namespace Growth

/-- What happens to the array. -/
inductive Event where
  /-- One more element. -/
  | single
  /-- A run of `stored` elements that reserves room for `bound`, and gives the rest back or not. -/
  | run (bound stored : Nat) (trims : Bool)
  deriving DecidableEq, Repr

/-- Move to an array with the given room. -/
def grow (growth : Growth) (capacity : Nat) : Growth :=
  { growth with capacity, requested := growth.requested + capacity }

/-- Make room for one more element. -/
def double (growth : Growth) : Growth :=
  if growth.count = growth.capacity then
    growth.grow (if growth.capacity = 0 then 4 else growth.capacity * 2)
  else growth

/-- Make room for `bound` more elements. -/
def reserve (growth : Growth) (bound : Nat) : Growth :=
  if bound ≠ 0 ∧ growth.capacity < growth.count + bound then growth.grow (growth.count + bound)
  else growth

/-- The array after an event. -/
def after (growth : Growth) : Event → Growth
  | .single => { growth.double with count := growth.count + 1 }
  | .run bound stored trims =>
    { growth.reserve bound with
      count := growth.count + stored
      capacity := if trims then growth.count + stored else (growth.reserve bound).capacity }

/-- What an event is charged. -/
def Event.weight : Event → Nat
  | .single => 1
  | .run bound _ _ => bound

/-- A run stores no more than it reserves. -/
def Event.Fits : Event → Prop
  | .single => True
  | .run bound stored _ => stored ≤ bound

/-- A run is at least as long as what is there, or neither moves the array nor gives room back. -/
def Proportionate (growth : Growth) : Event → Prop
  | .single => True
  | .run bound stored trims =>
    growth.count ≤ bound ∨
      growth.count + bound ≤ growth.capacity ∧
        (trims = true → growth.count + stored = growth.capacity)

/-- What has been put aside for the next doubling. -/
def credit (growth : Growth) : Nat := 4 * growth.count - 2 * growth.capacity

variable {growth : Growth}

/-- The count stays within the capacity. -/
theorem after_room {event : Event} (fits : event.Fits) (room : growth.count ≤ growth.capacity) :
    (growth.after event).count ≤ (growth.after event).capacity := by
  cases event with
  | single =>
      simp only [after, double]
      split
      · simp only [grow]
        split <;> omega
      · omega
  | run bound stored trims =>
      simp only [Event.Fits] at fits
      simp only [after, reserve]
      split
      · exact le_rfl
      · split
        · simp only [grow]
          omega
        · omega

/-- A proportionate event costs at most six elements for each unit of its weight. -/
theorem after_amortized {event : Event} (fits : event.Fits)
    (room : growth.count ≤ growth.capacity) (proportionate : growth.Proportionate event) :
    (growth.after event).requested + (growth.after event).credit ≤
      growth.requested + growth.credit + 6 * event.weight := by
  cases event with
  | single =>
      simp only [after, double, credit, Event.weight]
      split
      · simp only [grow]
        split <;> omega
      · omega
  | run bound stored trims =>
      simp only [Event.Fits] at fits
      simp only [Proportionate] at proportionate
      simp only [after, reserve, credit, Event.weight]
      cases trims with
      | true =>
          simp only [forall_const] at proportionate
          simp only [if_true]
          split
          · simp only [grow]
            omega
          · omega
      | false =>
          simp only [Bool.false_eq_true, if_false]
          split
          · simp only [grow]
            omega
          · omega

/-- Every event of the sequence is proportionate when it happens. -/
def AllProportionate : Growth → List Event → Prop
  | _, [] => True
  | growth, event :: events =>
    growth.Proportionate event ∧ AllProportionate (growth.after event) events

/-- The requests of a proportionate sequence are linear in its weight. -/
theorem foldl_amortized {events : List Event} (fits : ∀ event ∈ events, event.Fits)
    (room : growth.count ≤ growth.capacity) (proportionate : growth.AllProportionate events) :
    (events.foldl after growth).requested ≤
      growth.requested + growth.credit + 6 * (events.map Event.weight).sum := by
  induction events generalizing growth with
  | nil => simp
  | cons event events ih =>
      have now := after_amortized (fits event (by simp)) room proportionate.1
      have later := ih (fun other met => fits other (by simp [met]))
        (after_room (fits event (by simp)) room) proportionate.2
      rw [List.foldl_cons, List.map_cons, List.sum_cons]
      omega

/-- Runs of one element move the whole array each time. -/
theorem foldl_runs (runs : Nat) :
    2 * ((List.replicate runs (Event.run 1 1 true)).foldl after {}).requested = runs * (runs + 1) ∧
      ((List.replicate runs (Event.run 1 1 true)).foldl after {}).count = runs ∧
      ((List.replicate runs (Event.run 1 1 true)).foldl after {}).capacity = runs := by
  induction runs with
  | zero => exact ⟨rfl, rfl, rfl⟩
  | succ runs ih =>
      obtain ⟨requested, count, capacity⟩ := ih
      rw [List.replicate_succ', List.foldl_append, List.foldl_cons, List.foldl_nil]
      generalize List.foldl after {} (List.replicate runs (Event.run 1 1 true)) = before at *
      have full : (1 : Nat) ≠ 0 ∧ before.capacity < before.count + 1 := by omega
      simp only [after, reserve, if_pos full, grow, if_true]
      rw [count]
      refine ⟨?_, rfl, rfl⟩
      calc
        2 * (before.requested + (runs + 1)) = 2 * before.requested + 2 * (runs + 1) := by ring
        _ = runs * (runs + 1) + 2 * (runs + 1) := by rw [requested]
        _ = (runs + 1) * (runs + 1 + 1) := by ring

end Growth
end RapidProto
