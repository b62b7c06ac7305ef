import Mathlib.Data.List.Nodup
import Mathlib.Logic.Function.Iterate

/-!
# Free names

A scope is the list of names in use.  A name that is wanted but in use is changed until it is free,
by a step that makes it larger; names handed out one after the other are therefore distinct, and
what is handed out depends on the names in use and not on their order.
-/

namespace RapidProto

/-- A way to change a name into a larger one. -/
structure Escalation (α : Type) where
  /-- The next name to try. -/
  next : α → α
  /-- A size of names. -/
  size : α → Nat
  /-- The next name is larger. -/
  grows : ∀ name, size name < size (next name)

namespace Escalation

variable {α : Type} (step : Escalation α)

/-- The names in use that are not smaller than a given one. -/
def rivals (taken : List α) (name : α) : List α :=
  taken.filter fun other => step.size name ≤ step.size other

theorem rivals_next_lt {taken : List α} {name : α} (used : name ∈ taken) :
    (step.rivals taken (step.next name)).length < (step.rivals taken name).length := by
  have grows := step.grows name
  have sublist : (step.rivals taken (step.next name)).Sublist (step.rivals taken name) := by
    apply List.monotone_filter_right
    intro other large
    simp only [decide_eq_true_eq] at large ⊢
    omega
  apply Nat.lt_of_le_of_ne sublist.length_le
  intro same
  have listed : name ∈ step.rivals taken name := by simp [rivals, used]
  rw [← sublist.eq_of_length same] at listed
  simp only [rivals, List.mem_filter, decide_eq_true_eq] at listed
  omega

variable [DecidableEq α]

/-- The first of a name and its successors that is not in use. -/
def free (taken : List α) (name : α) : α :=
  if name ∈ taken then free taken (step.next name) else name
termination_by (step.rivals taken name).length
decreasing_by exact step.rivals_next_lt ‹_›

theorem free_of_mem {taken : List α} {name : α} (used : name ∈ taken) :
    step.free taken name = step.free taken (step.next name) := by
  rw [free, if_pos used]

theorem free_of_not_mem {taken : List α} {name : α} (unused : name ∉ taken) :
    step.free taken name = name := by
  rw [free, if_neg unused]

theorem free_not_mem (taken : List α) (name : α) : step.free taken name ∉ taken := by
  induction name using free.induct step taken with
  | case1 name used ih => rwa [step.free_of_mem used]
  | case2 name unused => rwa [step.free_of_not_mem unused]

/-- A free name is reached through names in use. -/
theorem exists_free_eq (taken : List α) (name : α) :
    ∃ turns, step.free taken name = step.next^[turns] name ∧
      ∀ turn < turns, step.next^[turn] name ∈ taken := by
  induction name using free.induct step taken with
  | case1 name used ih =>
      obtain ⟨turns, reached, through⟩ := ih
      refine ⟨turns + 1, ?_, fun turn early => ?_⟩
      · rw [step.free_of_mem used, reached, Function.iterate_succ_apply]
      · cases turn with
        | zero => exact used
        | succ turn =>
            rw [Function.iterate_succ_apply]
            exact through turn (by omega)
  | case2 name unused =>
      exact ⟨0, step.free_of_not_mem unused, fun turn early => absurd early (Nat.not_lt_zero turn)⟩

/-- Only which names are in use matters. -/
theorem free_congr {taken taken' : List α} (same : ∀ name, name ∈ taken ↔ name ∈ taken')
    (name : α) : step.free taken name = step.free taken' name := by
  induction name using free.induct step taken with
  | case1 name used ih => rw [step.free_of_mem used, step.free_of_mem ((same name).mp used), ih]
  | case2 name unused =>
      rw [step.free_of_not_mem unused, step.free_of_not_mem fun used => unused ((same name).mpr used)]

/-! ## Names handed out in order -/

/-- Each name wanted gets one that is free, which is then in use. -/
def assign : (taken wanted : List α) → List α
  | _, [] => []
  | taken, name :: wanted =>
    step.free taken name :: assign (step.free taken name :: taken) wanted

@[simp] theorem assign_nil (taken : List α) : step.assign taken [] = [] := rfl

theorem assign_cons (taken : List α) (name : α) (wanted : List α) :
    step.assign taken (name :: wanted) =
      step.free taken name :: step.assign (step.free taken name :: taken) wanted := rfl

@[simp] theorem length_assign (taken wanted : List α) :
    (step.assign taken wanted).length = wanted.length := by
  induction wanted generalizing taken with
  | nil => rfl
  | cons name wanted ih => rw [assign_cons, List.length_cons, List.length_cons, ih]

/-- The names handed out are in use afterwards. -/
theorem assign_append (taken first second : List α) :
    step.assign taken (first ++ second) =
      step.assign taken first ++
        step.assign ((step.assign taken first).reverse ++ taken) second := by
  induction first generalizing taken with
  | nil => rfl
  | cons name first ih =>
      rw [List.cons_append, assign_cons, ih, assign_cons, List.cons_append, List.reverse_cons,
        List.append_assoc]
      rfl

theorem assign_not_mem {taken wanted : List α} {name : α} (given : name ∈ step.assign taken wanted) :
    name ∉ taken := by
  induction wanted generalizing taken with
  | nil => cases given
  | cons first wanted ih =>
      rcases List.mem_cons.mp given with rfl | later
      · exact step.free_not_mem taken first
      · intro used
        exact ih later (List.mem_cons_of_mem _ used)

/-- No name is handed out twice. -/
theorem assign_nodup (taken wanted : List α) : (step.assign taken wanted).Nodup := by
  induction wanted generalizing taken with
  | nil => exact List.nodup_nil
  | cons name wanted ih =>
      rw [assign_cons, List.nodup_cons]
      exact ⟨fun again => step.assign_not_mem again List.mem_cons_self, ih _⟩

/-- Every name handed out is reached from the one wanted. -/
theorem forall₂_assign (taken wanted : List α) :
    List.Forall₂ (fun name given => ∃ turns, given = step.next^[turns] name) wanted
      (step.assign taken wanted) := by
  induction wanted generalizing taken with
  | nil => exact .nil
  | cons name wanted ih =>
      obtain ⟨turns, reached, -⟩ := step.exists_free_eq taken name
      exact .cons ⟨turns, reached⟩ (ih _)

theorem exists_of_mem_assign {taken wanted : List α} {given : α}
    (listed : given ∈ step.assign taken wanted) :
    ∃ name ∈ wanted, ∃ turns, given = step.next^[turns] name := by
  induction wanted generalizing taken with
  | nil => cases listed
  | cons name wanted ih =>
      rcases List.mem_cons.mp listed with rfl | later
      · obtain ⟨turns, reached, -⟩ := step.exists_free_eq taken name
        exact ⟨name, List.mem_cons_self, turns, reached⟩
      · obtain ⟨other, member, reached⟩ := ih later
        exact ⟨other, List.mem_cons_of_mem _ member, reached⟩

end Escalation

end RapidProto
