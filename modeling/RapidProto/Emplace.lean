import Mathlib.Data.List.Nodup
import Mathlib.Logic.Function.Basic

/-!
# Tables that only grow

A table is written by `tryEmplace`, which leaves a key alone that is there already.  What a run of
writes leaves is therefore known from the list of the writes.
-/

namespace RapidProto

variable {κ β : Type} [DecidableEq κ]

/-- Write an entry unless its key is there. -/
def tryEmplace (table : κ → Option β) (key : κ) (value : β) : κ → Option β :=
  if (table key).isSome then table else Function.update table key (some value)

/-- Write some entries; a key that is there keeps its value. -/
def tryEmplaceAll (table : κ → Option β) (entries : List (κ × β)) : κ → Option β :=
  entries.foldl (fun table entry => tryEmplace table entry.1 entry.2) table

@[simp] theorem tryEmplaceAll_nil (table : κ → Option β) : tryEmplaceAll table [] = table := rfl

@[simp] theorem tryEmplaceAll_append (table : κ → Option β) (first second : List (κ × β)) :
    tryEmplaceAll table (first ++ second) = tryEmplaceAll (tryEmplaceAll table first) second :=
  List.foldl_append

theorem tryEmplaceAll_cons (table : κ → Option β) (entry : κ × β) (entries : List (κ × β)) :
    tryEmplaceAll table (entry :: entries) =
      tryEmplaceAll (tryEmplace table entry.1 entry.2) entries := rfl

theorem tryEmplace_of_some {table : κ → Option β} {key : κ} {value : β} (held : table key = some value)
    (key' : κ) (value' : β) : tryEmplace table key' value' key = some value := by
  rw [tryEmplace]
  split_ifs with known
  · exact held
  · have other : key ≠ key' := by
      rintro rfl
      exact known (by rw [held]; rfl)
    rw [Function.update_of_ne other, held]

theorem tryEmplace_of_none {table : κ → Option β} {key : κ} (unknown : table key = none) (value : β) :
    tryEmplace table key value key = some value := by
  rw [tryEmplace, if_neg (by simp [unknown]), Function.update_self]

theorem tryEmplace_of_ne {table : κ → Option β} {key key' : κ} (other : key ≠ key') (value : β) :
    tryEmplace table key' value key = table key := by
  rw [tryEmplace]
  split_ifs
  · rfl
  · exact Function.update_of_ne other _ _

/-- What is held stays. -/
theorem tryEmplaceAll_of_some {table : κ → Option β} {key : κ} {value : β}
    (held : table key = some value) (entries : List (κ × β)) :
    tryEmplaceAll table entries key = some value := by
  induction entries generalizing table with
  | nil => exact held
  | cons entry entries ih => exact ih (tryEmplace_of_some held entry.1 entry.2)

/-- A key that is not written keeps what it has. -/
theorem tryEmplaceAll_of_not_mem {table : κ → Option β} {key : κ} {entries : List (κ × β)}
    (absent : key ∉ entries.map Prod.fst) : tryEmplaceAll table entries key = table key := by
  induction entries generalizing table with
  | nil => rfl
  | cons entry entries ih =>
      rw [List.map_cons, List.mem_cons, not_or] at absent
      rw [tryEmplaceAll_cons, ih absent.2, tryEmplace_of_ne absent.1]

/-- What is found was there or has been written. -/
theorem of_tryEmplaceAll {table : κ → Option β} {key : κ} {value : β} {entries : List (κ × β)}
    (found : tryEmplaceAll table entries key = some value) :
    table key = some value ∨ (key, value) ∈ entries := by
  induction entries generalizing table with
  | nil => exact .inl found
  | cons entry entries ih =>
      rw [tryEmplaceAll_cons] at found
      rcases ih found with held | later
      · by_cases same : key = entry.1
        · subst same
          cases before : table entry.1 with
          | none =>
              rw [tryEmplace_of_none before] at held
              cases held
              exact .inr List.mem_cons_self
          | some value' =>
              rw [tryEmplace_of_some before] at held
              exact .inl held
        · rw [tryEmplace_of_ne same] at held
          exact .inl held
      · exact .inr (List.mem_cons_of_mem _ later)

/-- A key that is written is there. -/
theorem tryEmplaceAll_isSome {table : κ → Option β} {key : κ} {entries : List (κ × β)}
    (written : key ∈ entries.map Prod.fst) : (tryEmplaceAll table entries key).isSome := by
  induction entries generalizing table with
  | nil => cases written
  | cons entry entries ih =>
      rcases List.mem_cons.mp written with rfl | later
      · have held : (tryEmplace table entry.1 entry.2 entry.1).isSome := by
          cases before : table entry.1 with
          | none => rw [tryEmplace_of_none before]; rfl
          | some value => rw [tryEmplace_of_some before]; rfl
        obtain ⟨value, given⟩ := Option.isSome_iff_exists.mp held
        rw [tryEmplaceAll_cons, tryEmplaceAll_of_some given]
        rfl
      · exact ih later

/-- With distinct keys, each new one gets the value written for it. -/
theorem tryEmplaceAll_of_mem {table : κ → Option β} {entries : List (κ × β)}
    (distinct : (entries.map Prod.fst).Nodup) {key : κ} {value : β}
    (written : (key, value) ∈ entries) (unknown : table key = none) :
    tryEmplaceAll table entries key = some value := by
  have held : (tryEmplaceAll table entries key).isSome :=
    tryEmplaceAll_isSome (List.mem_map_of_mem written)
  obtain ⟨value', given⟩ := Option.isSome_iff_exists.mp held
  rcases of_tryEmplaceAll given with held | listed
  · rw [unknown] at held
    cases held
  · have same := List.inj_on_of_nodup_map distinct listed written rfl
    rw [given, (Prod.mk.inj same).2]

end RapidProto
