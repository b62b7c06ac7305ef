import RapidProto.Arena.Bump
import RapidProto.Layout.Planner
import RapidProto.PostOrder
import RapidProto.Walk

/-!
# The flatten budget

`apply_flatten_budget` decides which messages keep their decoder out of line.  It settles every
message after the messages whose decoders it would absorb, adds up what it absorbs, and marks it
when that exceeds the budget; a message that leads back to itself is marked as soon as the walk
meets it again.
-/

namespace RapidProto

open Relation

/-- `own_arms`: the decode arms of a message. -/
def MessageLayout.ownArms (layout : MessageLayout) : Nat :=
  layout.members.length + (layout.oneofs.map fun oneof => oneof.members.length).sum

/-- The layouts of a file set. -/
structure LayoutSet where
  /-- The layouts. -/
  layouts : List MessageLayout
  /-- `by_fqn`: where the layout of a message is. -/
  byFqn : MessageId → Option (Fin layouts.length)
  /-- Arms are counted in a `std::size_t`. -/
  counted : ∀ layout ∈ layouts, layout.ownArms ≤ kSizeMax

namespace LayoutSet

variable (set : LayoutSet)

/-- The layout at a position. -/
def layout (index : Fin set.layouts.length) : MessageLayout := set.layouts.get index

/-- `inlined_targets`: the layouts whose decoders this one would absorb. -/
def inlinedTargets (layout : MessageLayout) : List (Fin set.layouts.length) :=
  (layout.members.filterMap fun member =>
    match member.kind with
    | .inlineFixedSubMsg | .pointerSubMsg | .repeated => member.target.bind set.byFqn
    | .map => member.entry.bind fun entry => entry.valueTarget.bind set.byFqn
    | .inlineScalar | .inlineEnum | .borrowString | .raw => none) ++
    layout.oneofs.flatMap fun oneof =>
      oneof.members.filterMap fun member => member.target.bind set.byFqn

end LayoutSet

/-- `add_cost` saturates. -/
def addCost (cost more : Nat) : Nat := if kSizeMax - more < cost then kSizeMax else cost + more

/-- What the pass writes into the layouts. -/
structure Flatten (n : Nat) where
  /-- `flatten_cost`. -/
  flattenCost : Fin n → Nat := fun _ => 0
  /-- `noinline_decode`. -/
  noinlineDecode : Fin n → Bool := fun _ => false
  /-- The calls of `settle` so far; the source keeps no such log. -/
  settled : List (Fin n) := []

section Pass

variable (set : LayoutSet) (budget : Nat)

/-- The loop of `settle`: the cost so far, and whether anything is absorbed. -/
def absorb {n : Nat} (flatten : Flatten n) (state : Nat × Bool) (target : Fin n) : Nat × Bool :=
  if flatten.noinlineDecode target then state
  else (addCost state.1 (flatten.flattenCost target), true)

/-- `settle`. -/
def settle (flatten : Flatten set.layouts.length) (index : Fin set.layouts.length) :
    Flatten set.layouts.length :=
  let layout := set.layout index
  let (cost, inlinesAny) := (set.inlinedTargets layout).foldl (absorb flatten) (layout.ownArms, false)
  { flattenCost := Function.update flatten.flattenCost index cost
    noinlineDecode :=
      if budget < cost ∧ inlinesAny then Function.update flatten.noinlineDecode index true
      else flatten.noinlineDecode
    settled := flatten.settled ++ [index] }

/-- What `expand` does to a target that is an ancestor on the current path. -/
def breakCycle (flatten : Flatten set.layouts.length) (index : Fin set.layouts.length) :
    Flatten set.layouts.length :=
  { flatten with noinlineDecode := Function.update flatten.noinlineDecode index true }

/-- `apply_flatten_budget`. -/
def applyFlattenBudget : Flatten set.layouts.length :=
  if budget = 0 then {}
  else
    (Walk.visitAll (fun index => set.inlinedTargets (set.layout index)) (breakCycle set)
      (settle set budget) (List.finRange set.layouts.length) {}).held

end Pass

/-! ## Costs -/

theorem addCost_eq {cost more : Nat} (_ : cost ≤ kSizeMax) (_ : more ≤ kSizeMax) :
    addCost cost more = min kSizeMax (cost + more) := by
  rw [addCost]
  split <;> omega

/-- The loop of `settle` adds the costs of the targets that are not marked. -/
theorem foldl_absorb {n : Nat} {flatten : Flatten n}
    (bounded : ∀ index, flatten.flattenCost index ≤ kSizeMax) (targets : List (Fin n)) {cost : Nat}
    (small : cost ≤ kSizeMax) (any : Bool) :
    targets.foldl (absorb flatten) (cost, any) =
      (min kSizeMax (cost + ((targets.filter fun target => flatten.noinlineDecode target = false).map
        flatten.flattenCost).sum),
        any || targets.any fun target => flatten.noinlineDecode target = false) := by
  induction targets generalizing cost any with
  | nil => simp [small]
  | cons target targets ih =>
      rw [List.foldl_cons]
      cases marked : flatten.noinlineDecode target with
      | true =>
          rw [absorb, if_pos marked, ih small]
          simp [marked]
      | false =>
          have sum := addCost_eq small (bounded target)
          rw [absorb, if_neg (by simp [marked]), sum, ih (Nat.min_le_left _ _)]
          simp only [marked, decide_true, List.filter_cons_of_pos, List.map_cons, List.sum_cons,
            List.any_cons, Bool.true_or, Bool.or_true, Prod.mk.injEq, and_true]
          omega

/-! ## The pass -/

section Settled

variable {set : LayoutSet} {budget : Nat}

/-- The decoder of one message absorbs that of another. -/
def LayoutSet.Absorbs (set : LayoutSet) (flatten : Flatten set.layouts.length)
    (index target : Fin set.layouts.length) : Prop :=
  target ∈ set.inlinedTargets (set.layout index) ∧ flatten.noinlineDecode target = false

instance (set : LayoutSet) (flatten : Flatten set.layouts.length)
    (index target : Fin set.layouts.length) : Decidable (set.Absorbs flatten index target) :=
  inferInstanceAs (Decidable (_ ∧ _))

/-- The arms a decoder has with everything it absorbs, in a `std::size_t` that saturates. -/
def LayoutSet.closureCost (set : LayoutSet) (flatten : Flatten set.layouts.length)
    (index : Fin set.layouts.length) : Nat :=
  min kSizeMax ((set.layout index).ownArms +
    (((set.inlinedTargets (set.layout index)).filter fun target =>
      flatten.noinlineDecode target = false).map flatten.flattenCost).sum)

/-- What holds of the messages settled so far. -/
structure Settled (set : LayoutSet) (budget : Nat) (finished : List (Fin set.layouts.length))
    (flatten : Flatten set.layouts.length) : Prop where
  /-- Each was settled once. -/
  log : flatten.settled = finished
  /-- Each absorbs only messages settled before it. -/
  order : PostOrder (set.Absorbs flatten) finished
  /-- A target that is not settled is marked. -/
  closed : ∀ index ∈ finished, ∀ target ∈ set.inlinedTargets (set.layout index),
    target ∈ finished ∨ flatten.noinlineDecode target = true
  /-- The recorded cost is that of the closure. -/
  cost : ∀ index ∈ finished, flatten.flattenCost index = set.closureCost flatten index
  /-- Costs fit a `std::size_t`. -/
  bounded : ∀ index, flatten.flattenCost index ≤ kSizeMax
  /-- What is left unmarked is within the budget. -/
  within : ∀ index ∈ finished, flatten.noinlineDecode index = false →
    (∃ target, set.Absorbs flatten index target) → flatten.flattenCost index ≤ budget

namespace Settled

variable {finished : List (Fin set.layouts.length)} {flatten flatten' : Flatten set.layouts.length}
  {index : Fin set.layouts.length}

theorem start : Settled set budget [] {} where
  log := rfl
  order := .nil
  closed := by simp
  cost := by simp
  bounded := by simp
  within := by simp

end Settled

/-- The two states differ at one message, whose mark at most appears. -/
structure Flatten.DiffersAt {n : Nat} (flatten flatten' : Flatten n) (index : Fin n) : Prop where
  marks : ∀ other, other ≠ index → flatten'.noinlineDecode other = flatten.noinlineDecode other
  stays : flatten.noinlineDecode index = true → flatten'.noinlineDecode index = true
  costs : ∀ other, other ≠ index → flatten'.flattenCost other = flatten.flattenCost other

section Change

variable {finished : List (Fin set.layouts.length)} {flatten flatten' : Flatten set.layouts.length}
  {index node : Fin set.layouts.length}

/-- A message sees the same marks on its targets after a change to one that is not settled, if each
target is settled or marked. -/
theorem Flatten.DiffersAt.same_marks (differs : flatten.DiffersAt flatten' index)
    (fresh : index ∉ finished)
    (ready : ∀ target ∈ set.inlinedTargets (set.layout node),
      target ∈ finished ∨ flatten.noinlineDecode target = true)
    {target : Fin set.layouts.length} (listed : target ∈ set.inlinedTargets (set.layout node)) :
    flatten'.noinlineDecode target = flatten.noinlineDecode target := by
  by_cases same : target = index
  · subst same
    have marked := (ready target listed).resolve_left fresh
    rw [marked, differs.stays marked]
  · exact differs.marks target same

theorem Flatten.DiffersAt.absorbs_iff (differs : flatten.DiffersAt flatten' index)
    (fresh : index ∉ finished)
    (ready : ∀ target ∈ set.inlinedTargets (set.layout node),
      target ∈ finished ∨ flatten.noinlineDecode target = true) {target : Fin set.layouts.length} :
    set.Absorbs flatten' node target ↔ set.Absorbs flatten node target :=
  and_congr_right fun listed => by rw [differs.same_marks fresh ready listed]

/-- So it keeps its closure cost. -/
theorem Flatten.DiffersAt.same_cost (differs : flatten.DiffersAt flatten' index)
    (fresh : index ∉ finished)
    (ready : ∀ target ∈ set.inlinedTargets (set.layout node),
      target ∈ finished ∨ flatten.noinlineDecode target = true) :
    set.closureCost flatten' node = set.closureCost flatten node := by
  have absorbed : ((set.inlinedTargets (set.layout node)).filter fun target =>
      flatten'.noinlineDecode target = false) =
      (set.inlinedTargets (set.layout node)).filter fun target =>
        flatten.noinlineDecode target = false :=
    List.filter_congr fun target listed => by rw [differs.same_marks fresh ready listed]
  rw [LayoutSet.closureCost, LayoutSet.closureCost, absorbed]
  congr 3
  refine List.map_congr_left fun target met => differs.costs target ?_
  rintro rfl
  obtain ⟨listed, unmarked⟩ := List.mem_filter.mp met
  have marked := (ready target listed).resolve_left fresh
  simp [marked] at unmarked

/-- What `settle` writes. -/
theorem settle_eq (bounded : ∀ index, flatten.flattenCost index ≤ kSizeMax) :
    settle set budget flatten index =
      { flattenCost := Function.update flatten.flattenCost index (set.closureCost flatten index)
        noinlineDecode :=
          if budget < set.closureCost flatten index ∧
              ∃ target, set.Absorbs flatten index target then
            Function.update flatten.noinlineDecode index true
          else flatten.noinlineDecode
        settled := flatten.settled ++ [index] } := by
  have counted := set.counted (set.layout index) (List.get_mem _ _)
  have any : ((set.inlinedTargets (set.layout index)).any fun target =>
      flatten.noinlineDecode target = false) = true ↔
      ∃ target, set.Absorbs flatten index target := by
    simp [LayoutSet.Absorbs]
  simp only [settle, foldl_absorb bounded _ counted, Bool.false_or, any]
  rfl

theorem settle_differsAt (bounded : ∀ index, flatten.flattenCost index ≤ kSizeMax) :
    flatten.DiffersAt (settle set budget flatten index) index := by
  rw [settle_eq bounded]
  refine ⟨fun other differ => ?_, fun marked => ?_, fun other differ => by simp [differ]⟩
  · dsimp only
    split
    · simp [differ]
    · rfl
  · dsimp only
    split
    · simp
    · exact marked

theorem breakCycle_differsAt : flatten.DiffersAt (breakCycle set flatten index) index :=
  ⟨fun other differ => by simp [breakCycle, differ], fun _ => by simp [breakCycle], fun _ _ => rfl⟩

end Change

/-- The pass keeps what holds of the settled messages. -/
theorem settled_rule (set : LayoutSet) (budget : Nat) :
    Walk.Rule (fun index => set.inlinedTargets (set.layout index)) (breakCycle set)
      (settle set budget) (fun flatten index => flatten.noinlineDecode index = true)
      (Settled set budget) where
  marks flatten index := by simp [breakCycle]
  backKeeps flatten index other marked := by
    by_cases same : other = index
    · simp [breakCycle, same]
    · simp [breakCycle, Function.update_of_ne same, marked]
  finishKeeps flatten index other marked := by
    by_cases same : other = index
    · subst same
      simp only [settle]
      split
      · simp
      · exact marked
    · simp only [settle]
      split
      · simp [Function.update_of_ne same, marked]
      · exact marked
  back finished flatten index settled fresh := by
    have differs := @breakCycle_differsAt set flatten index
    refine ⟨settled.log, settled.order.mono fun node done target => ?_, ?_, ?_, settled.bounded, ?_⟩
    · exact (differs.absorbs_iff fresh (settled.closed node done)).mp
    · intro node done target listed
      rw [differs.same_marks fresh (settled.closed node done) listed]
      exact settled.closed node done target listed
    · intro node done
      rw [differs.same_cost fresh (settled.closed node done)]
      exact settled.cost node done
    · rintro node done unmarked ⟨target, absorbs⟩
      have apart : node ≠ index := fun same => fresh (same ▸ done)
      exact settled.within node done (differs.marks node apart ▸ unmarked)
        ⟨target, (differs.absorbs_iff fresh (settled.closed node done)).mp absorbs⟩
  finish finished flatten index settled fresh ready := by
    have differs := @settle_differsAt set budget flatten index settled.bounded
    have written := @settle_eq set budget flatten index settled.bounded
    have cost : (settle set budget flatten index).flattenCost index =
        set.closureCost flatten index := by simp [written]
    refine ⟨?_, ?_, fun node met => ?_, fun node met => ?_, fun node => ?_, fun node met => ?_⟩
    · rw [written, ← settled.log]
    · refine PostOrder.append (settled.order.mono fun node done target => ?_) fresh ?_
      · exact (differs.absorbs_iff fresh (settled.closed node done)).mp
      · intro target absorbs
        obtain ⟨listed, unmarked⟩ := (differs.absorbs_iff fresh ready).mp absorbs
        exact (ready target listed).resolve_right (by simp [unmarked])
    · intro target listed
      rcases List.mem_append.mp met with done | last
      · rw [differs.same_marks fresh (settled.closed node done) listed]
        exact (settled.closed node done target listed).imp_left (List.mem_append_left _)
      · cases List.mem_singleton.mp last
        rw [differs.same_marks fresh ready listed]
        exact (ready target listed).imp_left (List.mem_append_left _)
    · rcases List.mem_append.mp met with done | last
      · have apart : node ≠ index := fun same => fresh (same ▸ done)
        rw [differs.same_cost fresh (settled.closed node done), differs.costs node apart]
        exact settled.cost node done
      · cases List.mem_singleton.mp last
        rw [differs.same_cost fresh ready, cost]
    · by_cases same : node = index
      · rw [same, cost]
        exact Nat.min_le_left _ _
      · rw [differs.costs node same]
        exact settled.bounded node
    · rintro unmarked ⟨target, absorbs⟩
      rcases List.mem_append.mp met with done | last
      · have apart : node ≠ index := fun same => fresh (same ▸ done)
        rw [differs.costs node apart]
        exact settled.within node done (differs.marks node apart ▸ unmarked)
          ⟨target, (differs.absorbs_iff fresh (settled.closed node done)).mp absorbs⟩
      · cases List.mem_singleton.mp last
        rw [cost]
        by_contra exceeds
        have absorbing : ∃ target, set.Absorbs flatten index target :=
          ⟨target, (differs.absorbs_iff fresh ready).mp absorbs⟩
        rw [written] at unmarked
        simp [not_le.mp exceeds, absorbing] at unmarked

/-- The pass settles every message once; what is then absorbed has no cycle, every cost is that of
what is absorbed, and no message that absorbs another exceeds the budget. -/
theorem applyFlattenBudget_settles (set : LayoutSet) (budget : Nat) (positive : 0 < budget) :
    (∀ index, (applyFlattenBudget set budget).settled.count index = 1) ∧
      (∀ index, ¬ TransGen (set.Absorbs (applyFlattenBudget set budget)) index index) ∧
      (∀ index, (applyFlattenBudget set budget).flattenCost index =
        set.closureCost (applyFlattenBudget set budget) index) ∧
      ∀ index, (applyFlattenBudget set budget).noinlineDecode index = false →
        (∃ target, set.Absorbs (applyFlattenBudget set budget) index target) →
          (applyFlattenBudget set budget).flattenCost index ≤ budget := by
  obtain ⟨finished, settled, all⟩ :=
    (settled_rule set budget).visitAll Settled.start (List.finRange set.layouts.length)
  have everyone : ∀ index, index ∈ finished := fun index => all index (List.mem_finRange index)
  rw [applyFlattenBudget, if_neg (by omega)]
  refine ⟨fun index => ?_, fun index => settled.order.not_transGen (everyone index),
    fun index => settled.cost index (everyone index),
    fun index => settled.within index (everyone index)⟩
  rw [settled.log]
  exact List.count_eq_one_of_mem settled.order.once (everyone index)

/-- Two messages that refer to each other, the first also to itself. -/
def mutualLayouts : LayoutSet where
  layouts := [
    { members := [
        { declared := .field ⟨1, .message 0 false, .explicit⟩, kind := .pointerSubMsg, target := some 0 },
        { declared := .field ⟨2, .message 1 false, .explicit⟩, kind := .pointerSubMsg,
          target := some 1 }] },
    { id := 1
      members := [
        { declared := .field ⟨1, .message 0 false, .explicit⟩, kind := .pointerSubMsg,
          target := some 0 }] }]
  byFqn id := if small : id < 2 then some ⟨id, small⟩ else none
  counted := by decide

theorem mutualLayouts_settles :
    (∀ index, (applyFlattenBudget mutualLayouts 4).settled.count index = 1) ∧
      ∀ index, ¬ TransGen (mutualLayouts.Absorbs (applyFlattenBudget mutualLayouts 4)) index index :=
  have settles := applyFlattenBudget_settles mutualLayouts 4 (by decide)
  ⟨settles.1, settles.2.1⟩

end Settled
end RapidProto
