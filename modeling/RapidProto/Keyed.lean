import Mathlib.Data.List.Nodup

/-!
# Lists with distinct keys

A list whose elements carry distinct keys is a finite map: an element is found by its key.
-/

namespace RapidProto

variable {α κ : Type} [DecidableEq κ] {key : α → κ} {entries : List α}

/-- The first element with a given key. -/
def findKey (key : α → κ) (wanted : κ) (entries : List α) : Option α :=
  entries.find? fun entry => key entry = wanted

theorem findKey_of_mem (distinct : (entries.map key).Nodup) {entry : α} (present : entry ∈ entries) :
    findKey key (key entry) entries = some entry := by
  induction entries with
  | nil => cases present
  | cons first rest ih =>
      rw [List.map_cons, List.nodup_cons] at distinct
      rw [findKey, List.find?_cons]
      rcases List.mem_cons.mp present with rfl | later
      · simp
      · have other : key first ≠ key entry := by
          intro same
          exact distinct.1 (same ▸ List.mem_map_of_mem later)
        rw [decide_eq_false other]
        exact ih distinct.2 later

theorem mem_of_findKey {wanted : κ} {entry : α} (found : findKey key wanted entries = some entry) :
    entry ∈ entries ∧ key entry = wanted := by
  refine ⟨List.mem_of_find?_eq_some found, ?_⟩
  simpa using List.find?_some found

theorem findKey_eq_none {wanted : κ} :
    findKey key wanted entries = none ↔ wanted ∉ entries.map key := by
  simp [findKey]

/-- Looking up in a list of images whose keys agree. -/
theorem findKey_map {β : Type} {image : β → α} (wanted : κ) (sources : List β) :
    findKey key wanted (sources.map image) =
      (findKey (fun source => key (image source)) wanted sources).map image := by
  rw [findKey, List.find?_map]
  rfl

end RapidProto
