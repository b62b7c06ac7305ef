import Mathlib.Algebra.BigOperators.Ring.Finset
import Mathlib.Data.Fintype.Basic

/-!
# Depth-first walks on an explicit stack

A finite graph is walked with one stack of pending nodes.  A node that is entered leaves a marker on
the stack, below its targets, and is finished when the marker comes up again.  A node may be pending
several times; it is entered once.  What the caller does at a back edge and when a node is finished
is a parameter, and a property that both keep holds when the walk ends.
-/

namespace RapidProto

open Finset

/-- How far a walk is with a node. -/
inductive Visit where
  | unvisited | inProgress | done
  deriving DecidableEq, Repr

/-- The state of a walk. -/
structure Walk (α σ : Type) where
  /-- Pending nodes, and the markers of the nodes in progress; the top comes first. -/
  stack : List (α × Bool) := []
  /-- How far each node is. -/
  seen : α → Visit := fun _ => .unvisited
  /-- The caller's state. -/
  held : σ

namespace Walk

variable {α σ : Type} [DecidableEq α] (targets : α → List α) (back finish : σ → α → σ)

/-- Look at one target of the node just entered. -/
def meet (walk : Walk α σ) (target : α) : Walk α σ :=
  match walk.seen target with
  | .inProgress => { walk with held := back walk.held target }
  | .unvisited => { walk with stack := (target, false) :: walk.stack }
  | .done => walk

/-- Take an entry off the stack: finish the node, enter it, or pass over it. -/
def take (walk : Walk α σ) (node : α) (marker : Bool) (rest : List (α × Bool)) : Walk α σ :=
  if marker then
    { stack := rest, seen := Function.update walk.seen node .done, held := finish walk.held node }
  else if walk.seen node = .unvisited then
    (targets node).foldl (meet back)
      { walk with
        stack := (node, true) :: rest
        seen := Function.update walk.seen node .inProgress }
  else { walk with stack := rest }

section Meet

variable {targets back finish} (walk : Walk α σ)

omit [DecidableEq α] in
/-- Unvisited targets are pushed, and each target in progress is a back edge. -/
theorem foldl_meet (nodes : List α) :
    nodes.foldl (meet back) walk =
      { stack := ((nodes.filter fun node => walk.seen node = .unvisited).reverse.map (·, false)) ++
          walk.stack
        seen := walk.seen
        held := (nodes.filter fun node => walk.seen node = .inProgress).foldl back walk.held } := by
  induction nodes generalizing walk with
  | nil => rfl
  | cons node nodes ih =>
      rw [List.foldl_cons, ih]
      cases seen : walk.seen node <;> simp [meet, seen]

end Meet

section Run

/-- The entries that can still come up: a node pushes its targets and its marker once. -/
def potential [Fintype α] (walk : Walk α σ) : Nat :=
  walk.stack.length +
    ∑ node, if walk.seen node = .unvisited then (targets node).length + 1 else 0

variable {targets} in
theorem take_potential [Fintype α] {walk : Walk α σ} {node : α} {marker : Bool} {rest : List (α × Bool)}
    (top : walk.stack = (node, marker) :: rest) :
    (walk.take targets back finish node marker rest).potential targets <
      walk.potential targets := by
  have weigh : ∀ state, state ≠ Visit.unvisited →
      (∑ other, if Function.update walk.seen node state other = .unvisited
          then (targets other).length + 1 else 0) +
        (if walk.seen node = .unvisited then (targets node).length + 1 else 0) =
      ∑ other, if walk.seen other = .unvisited then (targets other).length + 1 else 0 := by
    intro state entered
    rw [← Finset.add_sum_erase univ _ (Finset.mem_univ node),
      ← Finset.add_sum_erase univ (fun other => if walk.seen other = .unvisited
        then (targets other).length + 1 else 0) (Finset.mem_univ node)]
    have others : ∀ other ∈ univ.erase node,
        (if Function.update walk.seen node state other = .unvisited
          then (targets other).length + 1 else 0) =
        if walk.seen other = .unvisited then (targets other).length + 1 else 0 := by
      intro other met
      rw [Function.update_of_ne (Finset.ne_of_mem_erase met)]
    rw [Finset.sum_congr rfl others, Function.update_self, if_neg entered]
    omega
  rw [potential, potential, top, List.length_cons]
  cases marker with
  | true =>
      have sum := weigh .done (by decide)
      simp only [take, if_true]
      omega
  | false =>
      by_cases fresh : walk.seen node = .unvisited
      · have sum := weigh .inProgress (by decide)
        rw [if_pos fresh] at sum
        simp only [take, Bool.false_eq_true, if_false, fresh, if_true, foldl_meet,
          List.length_append, List.length_map, List.length_reverse, List.length_cons]
        have pushed := List.length_filter_le (fun other =>
          decide (Function.update walk.seen node .inProgress other = .unvisited)) (targets node)
        omega
      · simp only [take, Bool.false_eq_true, if_false, fresh]
        omega

/-- Walk until the stack is empty. -/
def run [Fintype α] (walk : Walk α σ) : Walk α σ :=
  match _top : walk.stack with
  | [] => walk
  | (node, marker) :: rest => run (walk.take targets back finish node marker rest)
termination_by walk.potential targets
decreasing_by exact take_potential back finish _top

/-- Walk from a root, unless it was reached before. -/
def fromRoot [Fintype α] (walk : Walk α σ) (root : α) : Walk α σ :=
  if walk.seen root = .unvisited then run targets back finish { walk with stack := [(root, false)] }
  else walk

/-- Walk from all roots in order. -/
def visitAll [Fintype α] (roots : List α) (held : σ) : Walk α σ :=
  roots.foldl (fromRoot targets back finish) { held }

end Run

/-! ## What a walk keeps -/

/-- What the caller promises: a back edge marks its target, marks stay, and `holds` survives both
what is done at a back edge and what is done when a node is finished. -/
structure Rule (marked : σ → α → Prop) (holds : List α → σ → Prop) : Prop where
  /-- A back edge marks its target. -/
  marks : ∀ held node, marked (back held node) node
  /-- A back edge takes no mark away. -/
  backKeeps : ∀ held node other, marked held other → marked (back held node) other
  /-- Finishing takes no mark away. -/
  finishKeeps : ∀ held node other, marked held other → marked (finish held node) other
  /-- A back edge to an unfinished node. -/
  back : ∀ finished held node, holds finished held → node ∉ finished →
    holds finished (back held node)
  /-- A node is finished when each of its targets is finished or marked. -/
  finish : ∀ finished held node, holds finished held → node ∉ finished →
    (∀ target ∈ targets node, target ∈ finished ∨ marked held target) →
      holds (finished ++ [node]) (finish held node)

/-- Every target of a node in progress is settled or stands above the node's marker. -/
def Waits (settled : α → Prop) : List (α × Bool) → Prop
  | [] => True
  | (node, marker) :: rest =>
    (marker = true → ∀ target ∈ targets node, settled target) ∧
      Waits (fun other => settled other ∨ other = node) rest

/-- The invariant of a walk. -/
structure Inv (marked : σ → α → Prop) (holds : List α → σ → Prop) (finished : List α)
    (walk : Walk α σ) : Prop where
  /-- The nodes that are done. -/
  done : ∀ node, walk.seen node = .done ↔ node ∈ finished
  /-- The nodes that have a marker. -/
  progress : ∀ node, walk.seen node = .inProgress ↔ (node, true) ∈ walk.stack
  /-- Nothing above a marker is the marker's node. -/
  above : walk.stack.Pairwise fun upper lower => lower.2 = true → upper.1 ≠ lower.1
  /-- What the markers wait for. -/
  waits : Waits targets (fun node => node ∈ finished ∨ marked walk.held node) walk.stack
  /-- The caller's property. -/
  holds : holds finished walk.held

section Invariant

variable {targets back finish} {marked : σ → α → Prop} {holds : List α → σ → Prop}
  {settled settled' : α → Prop} {walk : Walk α σ} {finished : List α}

omit [DecidableEq α] in
theorem Waits.mono {stack : List (α × Bool)} (waits : Waits targets settled stack)
    (more : ∀ node, settled node → settled' node) : Waits targets settled' stack := by
  induction stack generalizing settled settled' with
  | nil => trivial
  | cons entry stack ih =>
      obtain ⟨node, marker⟩ := entry
      refine ⟨fun isMarker target met => more target (waits.1 isMarker target met),
        ih waits.2 fun other => ?_⟩
      exact Or.imp_left (more other)

omit [DecidableEq α] in
/-- Pending entries wait for nothing. -/
theorem Waits.push {nodes : List α} {stack : List (α × Bool)}
    (waits : Waits targets (fun other => settled other ∨ other ∈ nodes) stack) :
    Waits targets settled (nodes.map (·, false) ++ stack) := by
  induction nodes generalizing settled with
  | nil => exact waits.mono fun other => by simp
  | cons node nodes ih =>
      refine ⟨fun isMarker => (nomatch isMarker), ih (waits.mono fun other => ?_)⟩
      simp only [List.mem_cons]
      tauto

omit [DecidableEq α] in
/-- The caller's part at the back edges of one node. -/
theorem Rule.foldl_back (rule : Rule targets back finish marked holds) {nodes : List α} {held : σ}
    (kept : holds finished held) (unfinished : ∀ node ∈ nodes, node ∉ finished) :
    holds finished (nodes.foldl back held) ∧
      (∀ node ∈ nodes, marked (nodes.foldl back held) node) ∧
      ∀ other, marked held other → marked (nodes.foldl back held) other := by
  induction nodes generalizing held with
  | nil => exact ⟨kept, by simp, fun _ met => met⟩
  | cons node nodes ih =>
      obtain ⟨kept', all, stay⟩ := ih (rule.back finished held node kept (unfinished node (by simp)))
        fun other met => unfinished other (by simp [met])
      refine ⟨kept', fun other met => ?_, fun other met => stay other (rule.backKeeps _ _ _ met)⟩
      rcases List.mem_cons.mp met with rfl | later
      · exact stay other (rule.marks held other)
      · exact all other later

/-- A marker comes up: its node is finished. -/
theorem Inv.take_marker (rule : Rule targets back finish marked holds)
    (inv : Inv targets marked holds finished walk) {node : α} {rest : List (α × Bool)}
    (top : walk.stack = (node, true) :: rest) :
    Inv targets marked holds (finished ++ [node])
      (walk.take targets back finish node true rest) := by
  have above := inv.above
  have waits := inv.waits
  rw [top] at above waits
  obtain ⟨ready, waits⟩ := waits
  have running : walk.seen node = .inProgress := (inv.progress node).mpr (by simp [top])
  have unfinished : node ∉ finished := by
    rw [← inv.done, running]
    decide
  refine ⟨fun other => ?_, fun other => ?_, above.of_cons, ?_,
    rule.finish finished walk.held node inv.holds unfinished (ready rfl)⟩
  · by_cases same : other = node
    · subst same
      simp [take]
    · simp [take, inv.done, same]
  · by_cases same : other = node
    · subst same
      simp only [take, if_true, Function.update_self, reduceCtorEq, false_iff]
      intro twice
      have apart := List.rel_of_pairwise_cons above twice
      exact apart rfl rfl
    · simp [take, inv.progress, top, same]
  · refine waits.mono fun other => ?_
    rintro ((met | met) | rfl)
    · exact .inl (List.mem_append_left _ met)
    · exact .inr (rule.finishKeeps _ _ _ met)
    · exact .inl (List.mem_append_right _ (List.mem_singleton_self _))

/-- A pending node comes up: it is entered, or was finished before. -/
theorem Inv.take_pending (rule : Rule targets back finish marked holds)
    (inv : Inv targets marked holds finished walk) {node : α} {rest : List (α × Bool)}
    (top : walk.stack = (node, false) :: rest) :
    Inv targets marked holds finished (walk.take targets back finish node false rest) := by
  have above := inv.above
  have waits := inv.waits
  rw [top] at above waits
  by_cases fresh : walk.seen node = .unvisited
  · have entered : ∀ other, Function.update walk.seen node .inProgress other = .inProgress ↔
        other = node ∨ (other, true) ∈ rest := by
      intro other
      by_cases same : other = node
      · simp [same]
      · simp [inv.progress, top, same]
    have unfinished : ∀ other ∈ (targets node).filter fun other =>
        Function.update walk.seen node .inProgress other = .inProgress, other ∉ finished := by
      intro other met
      have running := of_decide_eq_true (List.mem_filter.mp met).2
      rw [← inv.done]
      by_cases same : other = node
      · rw [same, fresh]
        decide
      · rw [Function.update_of_ne same] at running
        rw [running]
        decide
    obtain ⟨kept, all, stay⟩ := rule.foldl_back inv.holds unfinished
    simp only [take, Bool.false_eq_true, if_false, fresh, if_true, foldl_meet]
    refine ⟨fun other => ?_, fun other => ?_, ?_, ?_, kept⟩
    · by_cases same : other = node
      · have unfinished : node ∉ finished := by
          rw [← inv.done, fresh]
          decide
        simp [same, unfinished]
      · simp [Function.update_of_ne same, inv.done]
    · rw [entered]
      simp
    · have lower : ((node, true) :: rest).Pairwise fun upper lower =>
          lower.2 = true → upper.1 ≠ lower.1 := by
        refine List.pairwise_cons.mpr ⟨fun entry met isMarker same => ?_, above.of_cons⟩
        have running : walk.seen node = .inProgress := by
          rw [inv.progress, top]
          refine List.mem_cons_of_mem _ ?_
          convert met using 1
          exact Prod.ext same isMarker.symm
        rw [fresh] at running
        cases running
      refine List.pairwise_append.mpr ⟨?_, lower, ?_⟩
      · exact List.pairwise_map.mpr (List.pairwise_of_forall fun _ _ isMarker => (nomatch isMarker))
      · intro upper pushed entry met isMarker same
        obtain ⟨target, fresh', rfl⟩ := List.mem_map.mp pushed
        have unvisited := of_decide_eq_true (List.mem_filter.mp (List.mem_reverse.mp fresh')).2
        have running : Function.update walk.seen node .inProgress target = .inProgress := by
          refine (entered target).mpr ?_
          rcases List.mem_cons.mp met with rfl | met
          · exact .inl same
          · refine .inr ?_
            convert met using 1
            exact Prod.ext same isMarker.symm
        rw [unvisited] at running
        cases running
    · refine Waits.push ⟨fun _ target met => ?_, ?_⟩
      · cases seen : Function.update walk.seen node .inProgress target with
        | unvisited => exact .inr (List.mem_reverse.mpr (List.mem_filter.mpr ⟨met, by simp [seen]⟩))
        | inProgress => exact .inl (.inr (all target (List.mem_filter.mpr ⟨met, by simp [seen]⟩)))
        | done =>
            refine .inl (.inl ((inv.done target).mp ?_))
            by_cases same : target = node
            · simp [same] at seen
            · rwa [Function.update_of_ne same] at seen
      · refine waits.2.mono fun other => ?_
        rintro ((met | met) | same)
        · exact .inl (.inl (.inl met))
        · exact .inl (.inl (.inr (stay other met)))
        · exact .inr same
  · have finishedNode : node ∈ finished := by
      rw [← inv.done]
      cases seen : walk.seen node with
      | done => rfl
      | unvisited => exact absurd seen fresh
      | inProgress =>
          have marker := (inv.progress node).mp seen
          simp only [top, List.mem_cons, Prod.mk.injEq, Bool.true_eq_false, and_false,
            false_or] at marker
          have apart := List.rel_of_pairwise_cons above marker
          exact absurd rfl (apart rfl)
    simp only [take, Bool.false_eq_true, if_false, fresh]
    refine ⟨inv.done, fun other => ?_, above.of_cons, ?_, inv.holds⟩
    · rw [inv.progress, top]
      simp
    · refine waits.2.mono fun other => ?_
      rintro (met | rfl)
      · exact met
      · exact .inl finishedNode

theorem Inv.take (rule : Rule targets back finish marked holds)
    (inv : Inv targets marked holds finished walk) {node : α} {marker : Bool}
    {rest : List (α × Bool)} (top : walk.stack = (node, marker) :: rest) :
    ∃ finished', Inv targets marked holds finished'
      (walk.take targets back finish node marker rest) := by
  cases marker with
  | true => exact ⟨_, inv.take_marker rule top⟩
  | false => exact ⟨_, inv.take_pending rule top⟩

/-- A node that was visited stays visited, and the node on top is visited when it is taken. -/
theorem take_visited {node other : α} {marker : Bool} {rest : List (α × Bool)}
    (visited : walk.seen other ≠ .unvisited ∨ other = node) :
    (walk.take targets back finish node marker rest).seen other ≠ .unvisited := by
  rw [Walk.take]
  by_cases same : other = node
  · subst same
    split
    · simp
    · split
      · simp [foldl_meet]
      · assumption
  · have before := visited.resolve_right same
    split
    · simpa [Function.update_of_ne same] using before
    · split
      · simpa [foldl_meet, Function.update_of_ne same] using before
      · exact before

theorem take_stack {node : α} {marker : Bool} {rest : List (α × Bool)} {entry : α × Bool}
    (met : entry ∈ rest) : entry ∈ (walk.take targets back finish node marker rest).stack := by
  rw [Walk.take]
  split
  · exact met
  · split
    · simp [foldl_meet, met]
    · exact met

variable [Fintype α]

/-- A walk keeps its invariant, empties the stack and visits what was on it. -/
theorem Inv.run (rule : Rule targets back finish marked holds)
    (inv : Inv targets marked holds finished walk) :
    (∃ finished', Inv targets marked holds finished' (walk.run targets back finish)) ∧
      (walk.run targets back finish).stack = [] ∧
      ∀ node, walk.seen node ≠ .unvisited ∨ (∃ marker, (node, marker) ∈ walk.stack) →
        (walk.run targets back finish).seen node ≠ .unvisited := by
  induction walk using Walk.run.induct targets back finish generalizing finished with
  | case1 walk empty =>
      rw [Walk.run, empty]
      exact ⟨⟨finished, inv⟩, empty, fun node visited => by simpa [empty] using visited⟩
  | case2 walk node marker rest top ih =>
      obtain ⟨finished', inv'⟩ := inv.take rule top
      obtain ⟨kept, emptied, visits⟩ := ih inv'
      rw [Walk.run, top]
      refine ⟨kept, emptied, fun other visited => visits other ?_⟩
      rcases visited with visited | ⟨marker', met⟩
      · exact .inl (take_visited (.inl visited))
      · rcases List.mem_cons.mp met with same | met
        · cases same
          exact .inl (take_visited (.inr rfl))
        · exact .inr ⟨marker', take_stack met⟩

omit [DecidableEq α] [Fintype α] in
/-- An empty stack can take a root. -/
theorem Inv.root (inv : Inv targets marked holds finished walk) (empty : walk.stack = [])
    (root : α) : Inv targets marked holds finished { walk with stack := [(root, false)] } where
  done := inv.done
  progress node := by
    rw [inv.progress, empty]
    simp
  above := List.pairwise_singleton _ _
  waits := ⟨fun isMarker => (nomatch isMarker), trivial⟩
  holds := inv.holds

/-- Walking from roots keeps the invariant and visits the roots. -/
theorem Inv.foldl_fromRoot (rule : Rule targets back finish marked holds)
    (inv : Inv targets marked holds finished walk) (empty : walk.stack = []) (roots : List α) :
    (∃ finished', Inv targets marked holds finished'
      (roots.foldl (fromRoot targets back finish) walk)) ∧
    (roots.foldl (fromRoot targets back finish) walk).stack = [] ∧
    ∀ node, walk.seen node ≠ .unvisited ∨ node ∈ roots →
      (roots.foldl (fromRoot targets back finish) walk).seen node ≠ .unvisited := by
  induction roots generalizing walk finished with
  | nil => exact ⟨⟨finished, inv⟩, empty, fun node visited => by simpa using visited⟩
  | cons root roots ih =>
      rw [List.foldl_cons, fromRoot]
      by_cases fresh : walk.seen root = .unvisited
      · rw [if_pos fresh]
        obtain ⟨⟨finished', inv'⟩, emptied, visits⟩ := (inv.root empty root).run rule
        obtain ⟨kept, emptied', visits'⟩ := ih inv' emptied
        refine ⟨kept, emptied', fun node visited => visits' node ?_⟩
        rcases visited with visited | met
        · exact .inl (visits node (.inl visited))
        · rcases List.mem_cons.mp met with rfl | later
          · exact .inl (visits node (.inr ⟨false, List.mem_singleton_self _⟩))
          · exact .inr later
      · rw [if_neg fresh]
        obtain ⟨kept, emptied', visits'⟩ := ih inv empty
        refine ⟨kept, emptied', fun node visited => visits' node ?_⟩
        rcases visited with visited | met
        · exact .inl visited
        · rcases List.mem_cons.mp met with rfl | later
          · exact .inl fresh
          · exact .inr later

/-- A property that the caller's steps keep holds when every root has been walked, and every root is
then finished. -/
theorem Rule.visitAll (rule : Rule targets back finish marked holds) {held : σ}
    (start : holds [] held) (roots : List α) :
    ∃ finished, holds finished (Walk.visitAll targets back finish roots held).held ∧
      ∀ root ∈ roots, root ∈ finished := by
  have inv : Inv targets marked holds [] ({ held } : Walk α σ) :=
    ⟨fun node => by simp, fun node => by simp, List.Pairwise.nil, trivial, start⟩
  obtain ⟨⟨finished, kept⟩, emptied, visits⟩ := inv.foldl_fromRoot rule rfl roots
  refine ⟨finished, kept.holds, fun root met => (kept.done root).mp ?_⟩
  have visited := visits root (.inr met)
  cases seen : (roots.foldl (fromRoot targets back finish) { held }).seen root with
  | done => rfl
  | unvisited => exact absurd seen visited
  | inProgress =>
      have marker := (kept.progress root).mp seen
      rw [emptied] at marker
      cases marker

end Invariant
end Walk
end RapidProto
