import Mathlib.Data.List.Chain
import Mathlib.Data.List.Perm.Subperm
import Mathlib.Data.List.Range
import RapidProto.Outcome
import RapidProto.PostOrder

/-!
# The order of sibling messages

The iterative depth-first search of `topo_order_siblings`: a frame is a sibling and the next
candidate to scan, and a candidate that is already active is passed over.  Siblings are their
positions, so the order is a list of positions, and `depends_on` is any relation between them.
-/

namespace RapidProto

open Relation

/-- A sibling being scanned. -/
structure SiblingFrame where
  /-- Position of the sibling. -/
  node : Nat
  /-- Next candidate to scan. -/
  next : Nat

/-- The locals of `topo_order_siblings`. -/
structure SiblingSearch where
  /-- Finished siblings. -/
  order : List Nat := []
  /-- Marks of the finished siblings. -/
  done : Nat → Bool := fun _ => false
  /-- Marks of the siblings on the stack. -/
  active : Nat → Bool := fun _ => false
  /-- Siblings being scanned, the top first. -/
  stack : List SiblingFrame := []

/-- The inner loop: the first wanted candidate of the `left` that remain, and where to go on. -/
def scanCandidates (wanted : Nat → Bool) : (left next : Nat) → Option Nat × Nat
  | 0, next => (none, next)
  | left + 1, next =>
    if wanted next then (some next, next + 1) else scanCandidates wanted left (next + 1)

namespace SiblingSearch

variable (count : Nat) (dependsOn : Nat → Nat → Bool)

/-- One turn of the outer loop on its top frame. -/
def turn (state : SiblingSearch) (frame : SiblingFrame) (below : List SiblingFrame) :
    SiblingSearch :=
  let wanted := fun j =>
    j ≠ frame.node && !state.done j && !state.active j && dependsOn frame.node j
  match scanCandidates wanted (count - frame.next) frame.next with
  | (some child, next) =>
    { state with
      active := Function.update state.active child true
      stack := ⟨child, 0⟩ :: ⟨frame.node, next⟩ :: below }
  | (none, _) =>
    { order := state.order ++ [frame.node]
      done := Function.update state.done frame.node true
      active := Function.update state.active frame.node false
      stack := below }

/-- The outer loop; `turns` bounds it. -/
def drain : (turns : Nat) → SiblingSearch → Outcome Unit SiblingSearch
  | 0, state => if state.stack.isEmpty then .ok state else .spin
  | turns + 1, state =>
    match state.stack with
    | [] => .ok state
    | frame :: below => drain turns (state.turn count dependsOn frame below)

/-- The search from one root. -/
def fromRoot (state : SiblingSearch) (root : Nat) : Outcome Unit SiblingSearch :=
  if state.done root then .ok state
  else drain count dependsOn (2 * count)
    { state with
      active := Function.update state.active root true
      stack := ⟨root, 0⟩ :: state.stack }

end SiblingSearch

/-- Order `count` siblings so that each comes after those it depends on. -/
def topoOrderSiblings (count : Nat) (dependsOn : Nat → Nat → Bool) : Outcome Unit (List Nat) := do
  let state ← (List.range count).foldlM (SiblingSearch.fromRoot count dependsOn) {}
  .ok state.order

/-- The relation restricted to the siblings. -/
def Depends (count : Nat) (dependsOn : Nat → Nat → Bool) (i j : Nat) : Prop :=
  i < count ∧ j < count ∧ dependsOn i j = true

/-! ## The invariant of the search -/

theorem scanCandidates_some {wanted : Nat → Bool} {left next child after : Nat}
    (found : scanCandidates wanted left next = (some child, after)) :
    wanted child = true ∧ next ≤ child ∧ child < next + left ∧ after = child + 1 ∧
      ∀ j, next ≤ j → j < child → wanted j = false := by
  induction left generalizing next with
  | zero => cases found
  | succ left ih =>
      rw [scanCandidates] at found
      split at found
      · rename_i hit
        cases found
        exact ⟨hit, le_refl _, by omega, rfl, fun j lower upper => by omega⟩
      · rename_i miss
        obtain ⟨hit, above, inside, ends, passed⟩ := ih found
        refine ⟨hit, by omega, by omega, ends, fun j lower upper => ?_⟩
        rcases Nat.eq_or_lt_of_le lower with rfl | later
        · exact Bool.eq_false_iff.mpr miss
        · exact passed j later upper

theorem scanCandidates_none {wanted : Nat → Bool} {left next after : Nat}
    (found : scanCandidates wanted left next = (none, after)) :
    ∀ j, next ≤ j → j < next + left → wanted j = false := by
  induction left generalizing next with
  | zero =>
      intro j lower upper
      omega
  | succ left ih =>
      rw [scanCandidates] at found
      split at found
      · cases found
      · rename_i miss
        intro j lower upper
        rcases Nat.eq_or_lt_of_le lower with rfl | later
        · exact Bool.eq_false_iff.mpr miss
        · exact ih found j later (by omega)

namespace SiblingSearch

variable {count : Nat} {dependsOn : Nat → Nat → Bool} {state : SiblingSearch}

/-- The siblings on the stack, the top first. -/
def nodes (state : SiblingSearch) : List Nat := state.stack.map SiblingFrame.node

/-- The siblings met so far. -/
def met (state : SiblingSearch) : List Nat := state.nodes ++ state.order

/-- The invariant of the search: marks agree with the stack and the order, each frame was reached
from the one below, and a candidate already scanned has been met. -/
structure Sound (count : Nat) (dependsOn : Nat → Nat → Bool) (state : SiblingSearch) : Prop where
  done : ∀ x, state.done x = true ↔ x ∈ state.order
  active : ∀ x, state.active x = true ↔ x ∈ state.nodes
  once : state.met.Nodup
  inside : ∀ x ∈ state.met, x < count
  chain : state.nodes.IsChain fun upper lower => Depends count dependsOn lower upper
  scanned : ∀ frame ∈ state.stack, ∀ j < frame.next, Depends count dependsOn frame.node j →
    j ∈ state.met
  listed : LoopedOrder (Depends count dependsOn) state.order

variable (count dependsOn) in
theorem sound_start : Sound count dependsOn {} where
  done x := by simp
  active x := by simp [nodes]
  once := by simp [met, nodes]
  inside x listed := by simp [met, nodes] at listed
  chain := List.isChain_nil
  scanned frame listed := nomatch listed
  listed := .nil

namespace Sound

/-- A sibling not met before goes on top of a stack whose frames may have scanned further. -/
theorem push (sound : state.Sound count dependsOn) (child : Nat) (stack : List SiblingFrame)
    (same : stack.map SiblingFrame.node = state.nodes) (fresh : child ∉ state.met)
    (small : child < count)
    (edge : ∀ top ∈ state.nodes.head?, Depends count dependsOn top child)
    (scanned : ∀ frame ∈ stack, ∀ j < frame.next, Depends count dependsOn frame.node j →
      j ∈ child :: state.met) :
    Sound count dependsOn
      { state with
        active := Function.update state.active child true
        stack := ⟨child, 0⟩ :: stack } where
  done := sound.done
  active x := by
    by_cases new : x = child
    · simp [nodes, new]
    · simp [nodes, new, same, sound.active x]
  once := by
    simp only [met, nodes, List.map_cons, same, List.cons_append, List.nodup_cons]
    exact ⟨fresh, sound.once⟩
  inside x listed := by
    simp only [met, nodes, List.map_cons, same, List.cons_append, List.mem_cons] at listed
    rcases listed with rfl | listed
    · exact small
    · exact sound.inside x listed
  chain := by
    simp only [nodes, List.map_cons, same]
    exact List.isChain_cons.mpr ⟨edge, sound.chain⟩
  scanned frame listed j passed pointed := by
    simp only [met, nodes, List.map_cons, same, List.cons_append]
    rcases List.mem_cons.mp listed with rfl | listed
    · exact absurd passed (Nat.not_lt_zero j)
    · exact scanned frame listed j passed pointed
  listed := sound.listed

/-- Every sibling on the stack leads to the top. -/
theorem leads_to_top {top x : Nat} {below : List Nat}
    (chain : (top :: below).IsChain fun upper lower => Depends count dependsOn lower upper)
    (listed : x ∈ top :: below) : ReflTransGen (Depends count dependsOn) x top := by
  induction below generalizing top with
  | nil =>
      cases List.mem_singleton.mp listed
      exact .refl
  | cons next below ih =>
      obtain ⟨edge, rest⟩ := List.isChain_cons_cons.mp chain
      rcases List.mem_cons.mp listed with rfl | deeper
      · exact .refl
      · exact (ih rest deeper).tail edge

/-- A sibling all of whose successors have been met is finished. -/
theorem pop (sound : state.Sound count dependsOn) {frame : SiblingFrame}
    {below : List SiblingFrame} (top : state.stack = frame :: below)
    (exhausted : ∀ j, Depends count dependsOn frame.node j → j ∈ state.met) :
    Sound count dependsOn
      { order := state.order ++ [frame.node]
        done := Function.update state.done frame.node true
        active := Function.update state.active frame.node false
        stack := below } := by
  have split : state.nodes = frame.node :: below.map SiblingFrame.node := by simp [nodes, top]
  have once := sound.once
  rw [met, split, List.cons_append, List.nodup_cons, List.mem_append, not_or] at once
  have moved : ∀ x, x ∈ below.map SiblingFrame.node ++ (state.order ++ [frame.node]) ↔
      x ∈ state.met := by
    intro x
    simp only [met, split, List.mem_append, List.mem_cons, List.not_mem_nil, or_false]
    tauto
  refine
    { done := fun x => ?_, active := fun x => ?_, once := ?_, inside := fun x listed => ?_
      chain := ?_, scanned := fun other listed j passed pointed => ?_, listed := ?_ }
  · by_cases same : x = frame.node
    · simp [same]
    · simp [same, sound.done x]
  · by_cases same : x = frame.node
    · simpa [same, nodes] using once.1.1
    · simp only [Function.update_of_ne same, sound.active x, split]
      simp [nodes, same]
  · simp only [met, nodes]
    rw [← List.append_assoc]
    refine List.nodup_append.mpr ⟨once.2, List.nodup_singleton _, ?_⟩
    rintro x listed _ last rfl
    cases List.mem_singleton.mp last
    rcases List.mem_append.mp listed with listed | listed
    · exact once.1.1 listed
    · exact once.1.2 listed
  · exact sound.inside x ((moved x).mp listed)
  · have chain := sound.chain
    rw [split] at chain
    exact chain.tail
  · exact (moved j).mpr (sound.scanned other (top ▸ List.mem_cons_of_mem _ listed) j passed pointed)
  · refine sound.listed.append once.1.2 fun y pointed => ?_
    rcases List.mem_append.mp (exhausted y pointed) with stacked | listed
    · exact .inr (leads_to_top (split ▸ sound.chain) (split ▸ stacked))
    · exact .inl listed

/-- A candidate that depends and is passed over has been met. -/
theorem passed_over (sound : state.Sound count dependsOn) {frame : SiblingFrame}
    (stacked : frame ∈ state.stack) {j : Nat} (pointed : Depends count dependsOn frame.node j)
    (unwanted : (j ≠ frame.node && !state.done j && !state.active j && dependsOn frame.node j) =
      false) : j ∈ state.met := by
  have self : frame.node ∈ state.nodes := List.mem_map_of_mem stacked
  rw [met, List.mem_append, ← sound.active, ← sound.done]
  simp only [pointed.2.2, Bool.and_true, Bool.and_eq_false_iff, Bool.not_eq_false',
    decide_eq_false_iff_not, not_not] at unwanted
  rcases unwanted with (rfl | finished) | stacked
  · exact .inl ((sound.active _).mpr self)
  · exact .inr finished
  · exact .inl stacked

theorem length_met_le (sound : state.Sound count dependsOn) : state.met.length ≤ count := by
  have fits := (List.subperm_of_subset sound.once fun x listed =>
    List.mem_range.mpr (sound.inside x listed)).length_le
  rwa [List.length_range] at fits

end Sound

/-- What bounds the turns that remain: a push takes one off and so does a pop. -/
def remaining (count : Nat) (state : SiblingSearch) : Nat :=
  2 * (count - state.met.length) + state.stack.length

/-- One turn keeps the invariant, loses no sibling and takes one off the remaining turns. -/
theorem Sound.turn (sound : state.Sound count dependsOn) {frame : SiblingFrame}
    {below : List SiblingFrame} (top : state.stack = frame :: below) :
    (state.turn count dependsOn frame below).Sound count dependsOn ∧
      state.met ⊆ (state.turn count dependsOn frame below).met ∧
      (state.turn count dependsOn frame below).remaining count < state.remaining count := by
  have stacked : frame ∈ state.stack := by simp [top]
  have split : state.nodes = frame.node :: below.map SiblingFrame.node := by simp [nodes, top]
  rw [SiblingSearch.turn]
  generalize scan : scanCandidates _ (count - frame.next) frame.next = result
  rcases result with ⟨child | child, next⟩
  · have passed := scanCandidates_none scan
    have sound' := sound.pop top fun j pointed => by
      rcases Nat.lt_or_ge j frame.next with early | late
      · exact sound.scanned frame stacked j early pointed
      · have small := pointed.2.1
        exact sound.passed_over stacked pointed (passed j late (by omega))
    refine ⟨sound', fun x listed => ?_, ?_⟩
    · simp only [met, nodes, top, List.map_cons, List.mem_append, List.mem_cons] at listed ⊢
      tauto
    · have bound := sound'.length_met_le
      simp only [remaining, met, nodes, top, List.length_append, List.length_cons, List.length_map,
        List.length_nil] at bound ⊢
      omega
  · obtain ⟨hit, above, inside, rfl, passed⟩ := scanCandidates_some scan
    simp only [Bool.and_eq_true, Bool.not_eq_true', decide_eq_true_eq] at hit
    obtain ⟨⟨⟨other, unfinished⟩, inactive⟩, depends⟩ := hit
    have small : child < count := by omega
    have fresh : child ∉ state.met := by
      rw [met, List.mem_append, ← sound.active, ← sound.done, unfinished, inactive]
      simp
    have edge : Depends count dependsOn frame.node child :=
      ⟨sound.inside _ (by simp [met, split]), small, depends⟩
    have sound' := sound.push child (⟨frame.node, child + 1⟩ :: below) (by simp [split]) fresh
      small (by simpa [split] using edge) fun frame' listed j early pointed => by
        rw [List.mem_cons]
        rcases List.mem_cons.mp listed with rfl | lower
        · rcases Nat.lt_or_ge j frame.next with scanned | late
          · exact .inr (sound.scanned frame stacked j scanned pointed)
          rcases Nat.lt_succ_iff_lt_or_eq.mp early with earlier | rfl
          · exact .inr (sound.passed_over stacked pointed (passed j late earlier))
          · exact .inl rfl
        · exact .inr (sound.scanned frame' (top ▸ List.mem_cons_of_mem _ lower) j early pointed)
    refine ⟨sound', fun x listed => ?_, ?_⟩
    · simp only [met, nodes, top, List.map_cons, List.mem_append, List.mem_cons] at listed ⊢
      tauto
    · have bound := sound'.length_met_le
      simp only [remaining, met, nodes, top, List.length_append, List.length_cons, List.length_map]
        at bound ⊢
      omega

/-- The loop empties the stack and finishes everything met. -/
theorem Sound.drain (sound : state.Sound count dependsOn) (turns : Nat)
    (enough : state.remaining count ≤ turns) :
    ∃ final, state.drain count dependsOn turns = .ok final ∧ final.Sound count dependsOn ∧
      final.stack = [] ∧ state.met ⊆ final.order := by
  induction turns generalizing state with
  | zero =>
      cases top : state.stack with
      | nil =>
          refine ⟨state, by simp [SiblingSearch.drain, top], sound, top, ?_⟩
          simp [met, nodes, top]
      | cons frame below => simp [remaining, top] at enough
  | succ turns ih =>
      cases top : state.stack with
      | nil =>
          refine ⟨state, by simp [SiblingSearch.drain, top], sound, top, ?_⟩
          simp [met, nodes, top]
      | cons frame below =>
          obtain ⟨sound', grows, fewer⟩ := sound.turn top
          obtain ⟨final, ends, soundFinal, empty, listed⟩ := ih sound' (by omega)
          exact ⟨final, by simp [SiblingSearch.drain, top, ends], soundFinal, empty,
            List.Subset.trans grows listed⟩

theorem Sound.fromRoot (sound : state.Sound count dependsOn) (idle : state.stack = [])
    {root : Nat} (small : root < count) :
    ∃ final, state.fromRoot count dependsOn root = .ok final ∧ final.Sound count dependsOn ∧
      final.stack = [] ∧ root ∈ final.order ∧ state.order ⊆ final.order := by
  have noNodes : state.nodes = [] := by simp [nodes, idle]
  have metOrder : state.met = state.order := by simp [met, noNodes]
  cases finished : state.done root with
  | true =>
      exact ⟨state, by simp [SiblingSearch.fromRoot, finished], sound, idle,
        (sound.done root).mp finished, List.Subset.refl _⟩
  | false =>
      have fresh : root ∉ state.met := by
        rw [metOrder, ← sound.done, finished]
        simp
      have sound' := sound.push root state.stack rfl fresh small
        (by simp [noNodes]) (by simp [idle])
      obtain ⟨final, ends, soundFinal, empty, listed⟩ := sound'.drain (2 * count) (by
        have bound := sound'.length_met_le
        simp only [remaining, met, nodes, idle, List.length_append, List.length_cons,
          List.length_map, List.length_nil] at bound ⊢
        omega)
      refine ⟨final, by simp [SiblingSearch.fromRoot, finished, ends], soundFinal, empty, ?_, ?_⟩
      · exact listed (by simp [met, nodes])
      · intro x earlier
        exact listed (by simp [met, nodes, earlier])

theorem Sound.foldlM_fromRoot (roots : List Nat) (small : ∀ root ∈ roots, root < count)
    (sound : state.Sound count dependsOn) (idle : state.stack = []) :
    ∃ final, roots.foldlM (SiblingSearch.fromRoot count dependsOn) state = .ok final ∧
      final.Sound count dependsOn ∧ final.stack = [] ∧ state.order ⊆ final.order ∧
      ∀ root ∈ roots, root ∈ final.order := by
  induction roots generalizing state with
  | nil => exact ⟨state, rfl, sound, idle, List.Subset.refl _, fun root listed => nomatch listed⟩
  | cons root roots ih =>
      obtain ⟨next, ends, sound', idle', listed, kept⟩ := sound.fromRoot idle (small root (by simp))
      obtain ⟨final, rest, soundFinal, idleFinal, more, all⟩ :=
        ih (fun other later => small other (by simp [later])) sound' idle'
      refine ⟨final, by simp [ends, rest], soundFinal, idleFinal, List.Subset.trans kept more, ?_⟩
      intro other met
      rcases List.mem_cons.mp met with rfl | later
      · exact more listed
      · exact all other later

end SiblingSearch

/-- `topo_order_siblings` returns every sibling once; on an acyclic relation each comes after
everything it depends on, and on any relation so does each that leads to no cycle. -/
theorem topoOrderSiblings_spec (count : Nat) (dependsOn : Nat → Nat → Bool) :
    ∃ order, topoOrderSiblings count dependsOn = .ok order ∧ order.Perm (List.range count) ∧
      ((∀ z, ¬ TransGen (Depends count dependsOn) z z) →
        ∀ before x later, order = before ++ x :: later →
          ∀ y, TransGen (Depends count dependsOn) x y → y ∈ before) ∧
      (∀ before x later, order = before ++ x :: later →
        (∀ z, ReflTransGen (Depends count dependsOn) x z →
          ¬ TransGen (Depends count dependsOn) z z) →
        ∀ y, TransGen (Depends count dependsOn) x y → y ∈ before) := by
  obtain ⟨final, ends, sound, idle, -, all⟩ :=
    (SiblingSearch.sound_start count dependsOn).foldlM_fromRoot (List.range count)
      (fun root met => List.mem_range.mp met) rfl
  have met : final.met = final.order := by simp [SiblingSearch.met, SiblingSearch.nodes, idle]
  have exactly : ∀ x, x ∈ final.order ↔ x ∈ List.range count := fun x =>
    ⟨fun listed => List.mem_range.mpr (sound.inside x (met ▸ listed)), all x⟩
  have clear := fun (before : List Nat) (x : Nat) (later : List Nat)
      (split : final.order = before ++ x :: later) clear (y : Nat)
      (leads : TransGen (Depends count dependsOn) x y) =>
    sound.listed.mem_of_transGen clear leads split
  refine ⟨final.order, by simp [topoOrderSiblings, ends],
    (List.perm_ext_iff_of_nodup sound.listed.once List.nodup_range).mpr exactly, ?_, clear⟩
  intro acyclic before x later split y leads
  exact clear before x later split (fun z _ => acyclic z) y leads

/-- Two siblings that need each other and a third that needs neither: the cycle is broken, the third
is not affected. -/
example : topoOrderSiblings 4 (fun i j => (i, j) ∈ [(0, 1), (1, 0), (2, 3)]) =
    .ok [1, 0, 3, 2] := by decide

end RapidProto
