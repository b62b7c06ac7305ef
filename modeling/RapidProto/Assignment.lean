import Mathlib.Data.List.Basic
import Mathlib.Data.List.Nodup

/-!
# Assignments

Requests that give a key a value, taken one after the other: the first request for a key decides its
value, a later one may only repeat it.  Whether a list of requests goes through, and what it
assigns, depends on the set of requests alone; their order shows only in the order of the keys.
-/

namespace RapidProto

variable {κ ν : Type} [DecidableEq κ] [DecidableEq ν]

/-- The values given so far. -/
structure Assignment (κ ν : Type) where
  /-- The value of a key. -/
  value : κ → Option ν := fun _ => none
  /-- The keys, in the order of their first requests. -/
  keys : List κ := []

namespace Assignment

/-- The value given first. -/
def insert (given : Assignment κ ν) (key : κ) (value : ν) : Assignment κ ν where
  value other := if other = key then some value else given.value other
  keys := given.keys ++ [key]

/-- One request. -/
def assign (given : Assignment κ ν) (request : κ × ν) : Option (Assignment κ ν) :=
  match given.value request.1 with
  | some existing => if existing = request.2 then some given else none
  | none => some (given.insert request.1 request.2)

/-- The assignment holds exactly the given requests. -/
structure Holds (given : Assignment κ ν) (requests : List (κ × ν)) : Prop where
  /-- The values are the requested ones. -/
  value : ∀ key value, given.value key = some value ↔ (key, value) ∈ requests
  /-- The keys are those with a value. -/
  keys : ∀ key, key ∈ given.keys ↔ given.value key ≠ none
  /-- No key is listed twice. -/
  nodup : given.keys.Nodup

omit [DecidableEq κ] [DecidableEq ν] in
theorem holds_nil : Holds ({} : Assignment κ ν) [] := ⟨by simp, by simp, by simp⟩

/-- A request that goes through is held with the earlier ones. -/
theorem Holds.assign {given next : Assignment κ ν} {requests : List (κ × ν)} {request : κ × ν}
    (holds : given.Holds requests) (assigned : given.assign request = some next) :
    next.Holds (requests ++ [request]) := by
  obtain ⟨key, value⟩ := request
  rw [Assignment.assign] at assigned
  cases found : given.value key with
  | some existing =>
      simp only [found] at assigned
      split_ifs at assigned with same
      cases assigned
      refine ⟨fun key' value' => ?_, holds.keys, holds.nodup⟩
      rw [holds.value, List.mem_append, List.mem_singleton]
      refine ⟨.inl, fun listed => listed.elim id fun last => ?_⟩
      rw [last, ← same]
      exact (holds.value key existing).mp found
  | none =>
      simp only [found] at assigned
      cases assigned
      refine ⟨fun key' value' => ?_, fun key' => ?_, ?_⟩
      · rw [List.mem_append, List.mem_singleton, ← holds.value, Prod.mk.injEq, insert]
        by_cases same : key' = key
        · simp [same, found, eq_comm]
        · simp [same]
      · rw [insert, List.mem_append, List.mem_singleton, holds.keys]
        by_cases same : key' = key
        · simp [same]
        · simp [same]
      · refine List.nodup_append.mpr ⟨holds.nodup, List.nodup_singleton key, ?_⟩
        intro earlier listed last isKey same
        rw [same, List.mem_singleton.mp isKey] at listed
        exact (holds.keys key).mp listed found

theorem Holds.run {given final : Assignment κ ν} {earlier requests : List (κ × ν)}
    (holds : given.Holds earlier)
    (ran : requests.foldlM Assignment.assign given = some final) :
    final.Holds (earlier ++ requests) := by
  induction requests generalizing given earlier with
  | nil =>
      cases ran
      simpa using holds
  | cons request requests ih =>
      rw [List.foldlM_cons] at ran
      obtain ⟨next, assigned, later⟩ := Option.bind_eq_some_iff.mp ran
      simpa using ih (holds.assign assigned) later

/-- No two requests give a key different values. -/
def Consistent (requests : List (κ × ν)) : Prop :=
  ∀ key value value', (key, value) ∈ requests → (key, value') ∈ requests → value = value'

omit [DecidableEq κ] [DecidableEq ν] in
theorem Holds.consistent {given : Assignment κ ν} {requests : List (κ × ν)}
    (holds : given.Holds requests) : Consistent requests := by
  intro key value value' asked asked'
  have same := (holds.value key value).mpr asked
  rw [(holds.value key value').mpr asked'] at same
  exact (Option.some.inj same).symm

/-- Consistent requests go through. -/
theorem run_of_consistent {given : Assignment κ ν} {earlier requests : List (κ × ν)}
    (holds : given.Holds earlier) (consistent : Consistent (earlier ++ requests)) :
    ∃ final, requests.foldlM Assignment.assign given = some final := by
  induction requests generalizing given earlier with
  | nil => exact ⟨given, rfl⟩
  | cons request requests ih =>
      have assigned : ∃ next, given.assign request = some next := by
        rw [Assignment.assign]
        cases found : given.value request.1 with
        | none => exact ⟨_, rfl⟩
        | some existing =>
            have same : existing = request.2 :=
              consistent request.1 existing request.2 (by simp [(holds.value _ _).mp found])
                (by simp)
            exact ⟨given, by simp [same]⟩
      obtain ⟨next, assigned⟩ := assigned
      obtain ⟨final, later⟩ := ih (holds.assign assigned) (by simpa using consistent)
      exact ⟨final, by rw [List.foldlM_cons, assigned]; exact later⟩

omit [DecidableEq κ] [DecidableEq ν] in
/-- Assignments that hold the same requests agree, up to the order of the keys. -/
theorem Holds.same {given other : Assignment κ ν} {requests requests' : List (κ × ν)}
    (holds : given.Holds requests) (holds' : other.Holds requests')
    (same : ∀ request, request ∈ requests ↔ request ∈ requests') :
    given.value = other.value ∧ given.keys.Perm other.keys := by
  have values : given.value = other.value := by
    funext key
    refine Option.ext fun value => ?_
    rw [holds.value, holds'.value, same]
  refine ⟨values, (List.perm_ext_iff_of_nodup holds.nodup holds'.nodup).mpr fun key => ?_⟩
  rw [holds.keys, holds'.keys, values]

end Assignment

end RapidProto
