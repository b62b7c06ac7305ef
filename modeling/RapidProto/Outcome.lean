import Mathlib.Logic.Basic

/-!
# Outcomes of pointer programs

A computation over a bounded object ends in one of four ways.  It returns a value, it reports an
error of its own, it touches a byte or a cell outside the object it was given, or it uses up the
bound under which its recursion is modelled.  Safety of a program is the absence of the last two.
-/

namespace RapidProto

/-- The result of a computation that reads and writes bounded objects. -/
inductive Outcome (ε : Type) (α : Type) where
  /-- Normal completion. -/
  | ok (value : α)
  /-- A failure which the program itself detects and reports. -/
  | fail (error : ε)
  /-- An access outside the object. -/
  | outside
  /-- The recursion bound of the model was exhausted. -/
  | spin
  deriving DecidableEq

namespace Outcome

variable {ε ε' α β γ : Type}

/-- Sequence two computations; every abnormal end is final. -/
def bind : Outcome ε α → (α → Outcome ε β) → Outcome ε β
  | ok value, next => next value
  | fail error, _ => fail error
  | outside, _ => outside
  | spin, _ => spin

instance : Monad (Outcome ε) where
  pure := ok
  bind := bind

/-- Translate the reported error, leaving every other end alone. -/
def mapError (report : ε → ε') : Outcome ε α → Outcome ε' α
  | ok value => ok value
  | fail error => fail (report error)
  | outside => outside
  | spin => spin

/-- A computation that can only succeed or report an error. -/
def ofExcept : Except ε α → Outcome ε α
  | .ok value => ok value
  | .error error => fail error

/-- Read a safe computation as a plain result; `otherwise` stands in for the ends it rules out. -/
def toExcept (otherwise : ε) : Outcome ε α → Except ε α
  | ok value => .ok value
  | fail error => .error error
  | outside | spin => .error otherwise

/-- The computation stays inside its objects and within its recursion bound. -/
def Safe (outcome : Outcome ε α) : Prop :=
  outcome ≠ outside ∧ outcome ≠ spin

/-- The computation is safe, a returned value is `good` and a reported error is `bad`. -/
def Ends (good : α → Prop) (bad : ε → Prop) : Outcome ε α → Prop
  | ok value => good value
  | fail error => bad error
  | outside | spin => False

@[simp] theorem pure_eq (value : α) : (pure value : Outcome ε α) = ok value := rfl

@[simp] theorem ok_bind (value : α) (next : α → Outcome ε β) :
    (ok value >>= next) = next value := rfl

@[simp] theorem fail_bind (error : ε) (next : α → Outcome ε β) :
    (fail error >>= next) = fail error := rfl

@[simp] theorem outside_bind (next : α → Outcome ε β) :
    ((outside : Outcome ε α) >>= next) = outside := rfl

@[simp] theorem spin_bind (next : α → Outcome ε β) :
    ((spin : Outcome ε α) >>= next) = spin := rfl

theorem bind_ok (outcome : Outcome ε α) : (outcome >>= fun value => ok value) = outcome := by
  cases outcome <;> rfl

theorem bind_assoc (first : Outcome ε α) (second : α → Outcome ε β) (third : β → Outcome ε γ) :
    (first >>= second >>= third) = (first >>= fun value => second value >>= third) := by
  cases first <;> rfl

instance : LawfulMonad (Outcome ε) :=
  LawfulMonad.mk' _ (fun outcome => by cases outcome <;> rfl) (fun _ _ => rfl) bind_assoc

@[simp] theorem mapError_ok (report : ε → ε') (value : α) :
    (ok value).mapError report = ok value := rfl

@[simp] theorem mapError_fail (report : ε → ε') (error : ε) :
    (fail error : Outcome ε α).mapError report = fail (report error) := rfl

theorem mapError_bind (report : ε → ε') (first : Outcome ε α) (next : α → Outcome ε β) :
    (first >>= next).mapError report =
      (first.mapError report >>= fun value => (next value).mapError report) := by
  cases first <;> rfl

theorem mapError_mapError {ε'' : Type} (report : ε → ε') (again : ε' → ε'')
    (outcome : Outcome ε α) :
    (outcome.mapError report).mapError again = outcome.mapError fun error =>
      again (report error) := by
  cases outcome <;> rfl

@[simp] theorem ofExcept_ok (value : α) : ofExcept (.ok value : Except ε α) = ok value := rfl

@[simp] theorem ofExcept_error (error : ε) :
    ofExcept (.error error : Except ε α) = fail error := rfl

theorem mapError_ofExcept_eq_ok {report : ε → ε'} {result : Except ε α} {value : α} :
    (ofExcept result).mapError report = ok value ↔ result = .ok value := by
  cases result <;> simp

/-- Inversion of a successful sequence. -/
theorem bind_eq_ok {first : Outcome ε α} {next : α → Outcome ε β} {result : β} :
    (first >>= next) = ok result ↔ ∃ value, first = ok value ∧ next value = ok result := by
  cases first <;> simp

/-- Inversion of a sequence that fails. -/
theorem bind_eq_fail {first : Outcome ε α} {next : α → Outcome ε β} {error : ε} :
    (first >>= next) = fail error ↔
      first = fail error ∨ ∃ value, first = ok value ∧ next value = fail error := by
  cases first <;> simp

theorem mapError_eq_fail {report : ε → ε'} {outcome : Outcome ε α} {error : ε'} :
    outcome.mapError report = fail error ↔ ∃ inner, outcome = fail inner ∧ report inner = error := by
  cases outcome <;> simp [mapError]

theorem mapError_eq_ok {report : ε → ε'} {outcome : Outcome ε α} {value : α} :
    outcome.mapError report = ok value ↔ outcome = ok value := by
  cases outcome <;> simp [mapError]

theorem safe_ok (value : α) : (ok value : Outcome ε α).Safe := ⟨nofun, nofun⟩

theorem safe_fail (error : ε) : (fail error : Outcome ε α).Safe := ⟨nofun, nofun⟩

theorem safe_ofExcept (result : Except ε α) : (ofExcept result).Safe := by
  cases result with
  | ok value => exact safe_ok value
  | error error => exact safe_fail error

theorem Ends.safe {good : α → Prop} {bad : ε → Prop} {outcome : Outcome ε α}
    (ends : outcome.Ends good bad) : outcome.Safe := by
  cases outcome with
  | ok value => exact safe_ok value
  | fail error => exact safe_fail error
  | outside => exact ends.elim
  | spin => exact ends.elim

theorem Ends.mono {good good' : α → Prop} {bad bad' : ε → Prop} {outcome : Outcome ε α}
    (ends : outcome.Ends good bad) (onOk : ∀ value, good value → good' value)
    (onFail : ∀ error, bad error → bad' error) : outcome.Ends good' bad' := by
  cases outcome with
  | ok value => exact onOk value ends
  | fail error => exact onFail error ends
  | outside => exact ends
  | spin => exact ends

/-- The sequencing rule. -/
theorem Ends.bind {good : α → Prop} {good' : β → Prop} {bad : ε → Prop}
    {first : Outcome ε α} {next : α → Outcome ε β} (ends : first.Ends good bad)
    (follows : ∀ value, good value → (next value).Ends good' bad) :
    (first >>= next).Ends good' bad := by
  cases first with
  | ok value => exact follows value ends
  | fail error => exact ends
  | outside => exact ends
  | spin => exact ends

theorem ofExcept_toExcept {outcome : Outcome ε α} (safe : outcome.Safe) (otherwise : ε) :
    ofExcept (outcome.toExcept otherwise) = outcome := by
  cases outcome with
  | ok value => rfl
  | fail error => rfl
  | outside => exact absurd rfl safe.1
  | spin => exact absurd rfl safe.2

@[simp] theorem map_eq (change : α → β) (outcome : Outcome ε α) :
    change <$> outcome = outcome >>= fun value => ok (change value) := rfl

/-! ## Refinement -/

/-- `left` ends well only where `right` does, with related values, and fails only as `right` fails,
unless the failure is excused. -/
def Refines (related : α → β → Prop) (excuse : ε → Prop) :
    Outcome ε α → Outcome ε β → Prop
  | ok value, right => ∃ value', right = ok value' ∧ related value value'
  | fail error, right => right = fail error ∨ excuse error
  | outside, _ | spin, _ => False

variable {δ : Type} {related : α → β → Prop} {excuse : ε → Prop}

theorem refines_ok {value : α} {value' : β} (relates : related value value') :
    Refines related excuse (ok value) (ok value') :=
  ⟨value', rfl, relates⟩

theorem refines_fail (error : ε) :
    Refines related excuse (fail error : Outcome ε α) (fail error : Outcome ε β) :=
  .inl rfl

/-- Sequencing preserves refinement. -/
theorem Refines.bind {related' : γ → δ → Prop} {left : Outcome ε α} {right : Outcome ε β}
    {next : α → Outcome ε γ} {next' : β → Outcome ε δ} (refines : Refines related excuse left right)
    (follows : ∀ value value', related value value' →
      Refines related' excuse (next value) (next' value')) :
    Refines related' excuse (left >>= next) (right >>= next') := by
  cases left with
  | ok value =>
      obtain ⟨value', rfl, relates⟩ := refines
      exact follows value value' relates
  | fail error =>
      rcases refines with rfl | excused
      · exact .inl rfl
      · exact .inr excused
  | outside => exact refines.elim
  | spin => exact refines.elim

/-- A related right-hand value is the one the right-hand side returns. -/
theorem Refines.attach {left : Outcome ε α} {right : Outcome ε β}
    (refines : Refines related excuse left right) :
    Refines (fun value value' => related value value' ∧ right = ok value') excuse left right := by
  cases left with
  | ok value =>
      obtain ⟨value', same, relates⟩ := refines
      exact ⟨value', same, relates, same⟩
  | fail error => exact refines
  | outside => exact refines
  | spin => exact refines

theorem Refines.mono {related' : α → β → Prop} {left : Outcome ε α} {right : Outcome ε β}
    (refines : Refines related excuse left right)
    (implies : ∀ value value', related value value' → related' value value') :
    Refines related' excuse left right := by
  cases left with
  | ok value =>
      obtain ⟨value', rfl, relates⟩ := refines
      exact ⟨value', rfl, implies value value' relates⟩
  | fail error => exact refines
  | outside => exact refines
  | spin => exact refines

/-- Without excuses, and with values related by a function, refinement is equality. -/
theorem Refines.map_eq {observe : α → β} {left : Outcome ε α} {right : Outcome ε β}
    (refines : Refines (fun value value' => observe value = value') excuse left right)
    (strict : ∀ error, ¬ excuse error) :
    (left >>= fun value => ok (observe value)) = right := by
  cases left with
  | ok value =>
      obtain ⟨value', rfl, rfl⟩ := refines
      rfl
  | fail error =>
      rcases refines with rfl | excused
      · rfl
      · exact absurd excused (strict error)
  | outside => exact refines.elim
  | spin => exact refines.elim

theorem Refines.safe {left : Outcome ε α} {right : Outcome ε β}
    (refines : Refines related excuse left right) : left.Safe := by
  cases left with
  | ok value => exact safe_ok value
  | fail error => exact safe_fail error
  | outside => exact refines.elim
  | spin => exact refines.elim

theorem Refines.mapError {excuse' : ε' → Prop} {left : Outcome ε α} {right : Outcome ε β}
    (refines : Refines related excuse left right) (report : ε → ε')
    (excused : ∀ error, excuse error → excuse' (report error)) :
    Refines related excuse' (left.mapError report) (right.mapError report) := by
  cases left with
  | ok value =>
      obtain ⟨value', rfl, relates⟩ := refines
      exact ⟨value', rfl, relates⟩
  | fail error =>
      rcases refines with rfl | excusable
      · exact .inl rfl
      · exact .inr (excused error excusable)
  | outside => exact refines.elim
  | spin => exact refines.elim

/-- Refinement up to a change of the right-hand value. -/
theorem Refines.mapRight {related' : α → γ → Prop} {left : Outcome ε α} {right : Outcome ε β}
    (refines : Refines related excuse left right) (change : β → γ)
    (implies : ∀ value value', related value value' → related' value (change value')) :
    Refines related' excuse left (right >>= fun value => ok (change value)) := by
  cases left with
  | ok value =>
      obtain ⟨value', rfl, relates⟩ := refines
      exact ⟨change value', rfl, implies value value' relates⟩
  | fail error =>
      rcases refines with rfl | excusable
      · exact .inl rfl
      · exact .inr excusable
  | outside => exact refines
  | spin => exact refines

/-- A computation that ends well under the excused failures refines one that returns at once. -/
theorem Ends.refines {good : α → Prop} {left : Outcome ε α} (ends : left.Ends good excuse)
    {value' : β} (relates : ∀ value, good value → related value value') :
    Refines related excuse left (ok value') := by
  cases left with
  | ok value => exact ⟨value', rfl, relates value ends⟩
  | fail error => exact .inr ends
  | outside => exact ends.elim
  | spin => exact ends.elim

/-- What is known of the right-hand ends holds of the left-hand ones. -/
theorem Refines.ends {left : Outcome ε α} {right : Outcome ε β} {good : β → Prop} {bad : ε → Prop}
    (refines : Refines related excuse left right) (ends : right.Ends good bad)
    (excused : ∀ error, excuse error → bad error) : left.Ends (fun _ => True) bad := by
  cases left with
  | ok value => trivial
  | fail error =>
      rcases refines with rfl | excusable
      · exact ends
      · exact excused error excusable
  | outside => exact refines.elim
  | spin => exact refines.elim

/-- A refinement of a computation that ends with a given value. -/
theorem Refines.ends_through {related' : β → γ → Prop} {left : Outcome ε α} {middle : Outcome ε β}
    {value : γ} (first : Refines related (fun _ => False) left middle)
    (second : Refines related' excuse middle (ok value)) :
    left.Ends (fun found => ∃ reached, related found reached ∧ related' reached value) excuse := by
  cases left with
  | ok found =>
      obtain ⟨reached, rfl, relates⟩ := first
      obtain ⟨value', same, relates'⟩ := second
      cases same
      exact ⟨reached, relates, relates'⟩
  | fail error =>
      rcases first with rfl | impossible
      · rcases second with same | excused
        · cases same
        · exact excused
      · exact impossible.elim
  | outside => exact first.elim
  | spin => exact first.elim

theorem Ends.mapError {good : α → Prop} {bad : ε → Prop} {bad' : ε' → Prop} {outcome : Outcome ε α}
    (ends : outcome.Ends good bad) (report : ε → ε')
    (reports : ∀ error, bad error → bad' (report error)) :
    (outcome.mapError report).Ends good bad' := by
  cases outcome with
  | ok value => exact ends
  | fail error => exact reports error ends
  | outside => exact ends
  | spin => exact ends

/-- The invariant rule for a fold. -/
theorem Ends.foldlM {ι : Type} {good : α → Prop} {bad : ε → Prop} {step : α → ι → Outcome ε α}
    {inputs : List ι}
    (steps : ∀ input ∈ inputs, ∀ value, good value → (step value input).Ends good bad)
    {value : α} (holds : good value) : (inputs.foldlM step value).Ends good bad := by
  induction inputs generalizing value with
  | nil => exact holds
  | cons input inputs ih =>
      simp only [List.foldlM_cons]
      refine (steps input (by simp) value holds).bind fun next holds' => ?_
      exact ih (fun other later => steps other (by simp [later])) holds'

/-- The rule for a fold that succeeds: the invariant speaks of the inputs consumed so far. -/
theorem foldlM_induct {ι : Type} {holds : List ι → α → Prop} {step : α → ι → Outcome ε α}
    {inputs : List ι}
    (steps : ∀ consumed, ∀ input ∈ inputs, ∀ value value', holds consumed value →
      step value input = ok value' → holds (consumed ++ [input]) value')
    {consumed : List ι} {value final : α} (start : holds consumed value)
    (ran : inputs.foldlM step value = ok final) : holds (consumed ++ inputs) final := by
  induction inputs generalizing consumed value with
  | nil =>
      cases ran
      rwa [List.append_nil]
  | cons input inputs ih =>
      rw [List.foldlM_cons] at ran
      obtain ⟨middle, stepped, ran⟩ := bind_eq_ok.mp ran
      have next := steps consumed input (by simp) value middle start stepped
      rw [← List.singleton_append, ← List.append_assoc]
      exact ih (fun consumed other later => steps consumed other (by simp [later])) next ran

/-- Step-wise refinement of a fold. -/
theorem Refines.foldlM {ι : Type} {step : α → ι → Outcome ε α} {step' : β → ι → Outcome ε β}
    {inputs : List ι}
    (steps : ∀ input ∈ inputs, ∀ value value', related value value' →
      Refines related excuse (step value input) (step' value' input))
    {value : α} {value' : β} (relates : related value value') :
    Refines related excuse (inputs.foldlM step value) (inputs.foldlM step' value') := by
  induction inputs generalizing value value' with
  | nil => exact refines_ok relates
  | cons input inputs ih =>
      simp only [List.foldlM_cons]
      refine (steps input (by simp) value value' relates).bind fun next next' relates' => ?_
      exact ih (fun other later => steps other (by simp [later])) relates'

/-! ## Agreement -/

/-- The two computations succeed together, with related values, except that `left` may fail for a
reason it is spared while `right` succeeds. -/
structure Agrees (related : α → β → Prop) (spared : ε → Prop) (left : Outcome ε α)
    (right : Outcome ε' β) : Prop where
  /-- Success carries over to the right. -/
  forward : ∀ value, left = ok value → ∃ value', right = ok value' ∧ related value value'
  /-- Success carries over to the left, up to the spared failures. -/
  backward : ∀ value', right = ok value' →
    (∃ value, left = ok value ∧ related value value') ∨ ∃ error, left = fail error ∧ spared error

section Agreement

variable {related : α → β → Prop} {spared : ε → Prop} {left : Outcome ε α} {right : Outcome ε' β}

theorem agrees_ok {value : α} {value' : β} (relates : related value value') :
    Agrees related spared (ok value : Outcome ε α) (ok value' : Outcome ε' β) where
  forward _ same := by
    cases same
    exact ⟨value', rfl, relates⟩
  backward _ same := by
    cases same
    exact .inl ⟨value, rfl, relates⟩

/-- Two computations neither of which succeeds. -/
theorem agrees_never (leftFails : ∀ value, left ≠ ok value) (rightFails : ∀ value, right ≠ ok value) :
    Agrees related spared left right where
  forward value same := absurd same (leftFails value)
  backward value same := absurd same (rightFails value)

theorem agrees_spared {error : ε} (excused : spared error) :
    Agrees related spared (fail error : Outcome ε α) right where
  forward _ same := nomatch same
  backward _ _ := .inr ⟨error, rfl, excused⟩

/-- Only the success of the right-hand side matters. -/
theorem Agrees.mapError {ε'' : Type} (agrees : Agrees related spared left right)
    (report : ε' → ε'') : Agrees related spared left (right.mapError report) where
  forward value ended := by
    obtain ⟨value', rfl, relates⟩ := agrees.forward value ended
    exact ⟨value', rfl, relates⟩
  backward value' ended := by
    cases right with
    | ok found =>
        cases ended
        exact agrees.backward value' rfl
    | fail error => cases ended
    | outside => cases ended
    | spin => cases ended

theorem Agrees.bind {related' : γ → δ → Prop} {next : α → Outcome ε γ} {next' : β → Outcome ε' δ}
    (agrees : Agrees related spared left right)
    (follows : ∀ value value', related value value' →
      Agrees related' spared (next value) (next' value')) :
    Agrees related' spared (left >>= next) (right >>= next') where
  forward result ended := by
    obtain ⟨value, first, second⟩ := bind_eq_ok.mp ended
    obtain ⟨value', rfl, relates⟩ := agrees.forward value first
    exact (follows value value' relates).forward result second
  backward result ended := by
    obtain ⟨value', first, second⟩ := bind_eq_ok.mp ended
    rcases agrees.backward value' first with ⟨value, rfl, relates⟩ | ⟨error, rfl, excused⟩
    · exact (follows value value' relates).backward result second
    · exact .inr ⟨error, rfl, excused⟩

/-- Step-wise agreement of a fold. -/
theorem Agrees.foldlM {ι : Type} {step : α → ι → Outcome ε α} {step' : β → ι → Outcome ε' β}
    {inputs : List ι}
    (steps : ∀ input ∈ inputs, ∀ value value', related value value' →
      Agrees related spared (step value input) (step' value' input))
    {value : α} {value' : β} (relates : related value value') :
    Agrees related spared (inputs.foldlM step value) (inputs.foldlM step' value') := by
  induction inputs generalizing value value' with
  | nil => exact agrees_ok relates
  | cons input inputs ih =>
      simp only [List.foldlM_cons]
      refine (steps input (by simp) value value' relates).bind fun next next' relates' => ?_
      exact ih (fun other later => steps other (by simp [later])) relates'

end Agreement

/-! ## Renaming of results -/

/-- The same computation with its value and its error renamed. -/
def bimap (change : α → β) (report : ε → ε') : Outcome ε α → Outcome ε' β
  | ok value => ok (change value)
  | fail error => fail (report error)
  | outside => outside
  | spin => spin

section Bimap

variable {change : α → β} {report : ε → ε'}

@[simp] theorem bimap_ok (value : α) : (ok value).bimap change report = ok (change value) := rfl

@[simp] theorem bimap_fail (error : ε) :
    (fail error : Outcome ε α).bimap change report = fail (report error) := rfl

theorem bimap_eq_ok {outcome : Outcome ε α} {value : β} :
    outcome.bimap change report = ok value ↔ ∃ before, outcome = ok before ∧ change before = value := by
  cases outcome <;> simp [bimap]

theorem bimap_eq_fail {outcome : Outcome ε α} {error : ε'} :
    outcome.bimap change report = fail error ↔
      ∃ before, outcome = fail before ∧ report before = error := by
  cases outcome <;> simp [bimap]

theorem bimap_id (outcome : Outcome ε α) : outcome.bimap id report = outcome.mapError report := by
  cases outcome <;> rfl

theorem bind_bimap {change' : γ → δ} {first : Outcome ε α} {next : α → Outcome ε γ}
    {next' : β → Outcome ε' δ}
    (follows : ∀ value, next' (change value) = (next value).bimap change' report) :
    (first.bimap change report >>= next') = (first >>= next).bimap change' report := by
  cases first with
  | ok value => exact follows value
  | fail error => rfl
  | outside => rfl
  | spin => rfl

/-- A fold over renamed inputs from a renamed start is the renamed fold. -/
theorem foldlM_bimap {ι κ : Type} {change : α → β} {rename : ι → κ} {step : α → ι → Outcome ε α}
    {step' : β → κ → Outcome ε' β} {inputs : List ι}
    (steps : ∀ input ∈ inputs, ∀ value,
      step' (change value) (rename input) = (step value input).bimap change report) (value : α) :
    (inputs.map rename).foldlM step' (change value) =
      (inputs.foldlM step value).bimap change report := by
  induction inputs generalizing value with
  | nil => rfl
  | cons input inputs ih =>
      rw [List.map_cons, List.foldlM_cons, List.foldlM_cons, steps input (by simp)]
      exact bind_bimap fun next => ih (fun other later => steps other (by simp [later])) next

end Bimap

/-- Success of a fold carries over along a relation that every step keeps. -/
theorem foldlM_follows {ι : Type} {related : α → β → Prop} {step : α → ι → Outcome ε α}
    {step' : β → ι → Outcome ε' β} {inputs : List ι}
    (steps : ∀ input ∈ inputs, ∀ value value' next, related value value' →
      step value input = ok next → ∃ next', step' value' input = ok next' ∧ related next next')
    {value final : α} {value' : β} (relates : related value value')
    (ran : inputs.foldlM step value = ok final) :
    ∃ final', inputs.foldlM step' value' = ok final' ∧ related final final' := by
  induction inputs generalizing value value' with
  | nil =>
      cases ran
      exact ⟨value', rfl, relates⟩
  | cons input inputs ih =>
      rw [List.foldlM_cons] at ran
      obtain ⟨next, stepped, ran⟩ := bind_eq_ok.mp ran
      obtain ⟨next', stepped', relates'⟩ := steps input (by simp) value value' next relates stepped
      obtain ⟨final', ran', reached⟩ :=
        ih (fun other later => steps other (by simp [later])) relates' ran
      refine ⟨final', ?_, reached⟩
      rw [List.foldlM_cons, stepped']
      exact ran'

end Outcome
end RapidProto
