import Mathlib.Data.List.Basic
import RapidProto.Outcome

/-!
# Loops that consume a sequence

A loop is given by its turn.  A turn either stops with a result or hands a state and the rest of
the sequence to the next turn.  The model bounds the number of turns by the length of the sequence;
for a loop whose every turn consumes something the bound is never the reason to stop, and
`runLoop_eq` unfolds the loop without mentioning it.
-/

namespace RapidProto

/-- What one turn of a loop decides. -/
inductive Turn (α σ ρ : Type) where
  /-- Leave the loop. -/
  | stop (result : ρ)
  /-- Go round again with this state and this rest of the sequence. -/
  | next (state : σ) (rest : List α)

variable {α σ τ ρ π ε ε' : Type}

/-- Run at most `turns` turns. -/
def drive (turn : σ → List α → Outcome ε (Turn α σ ρ)) : (turns : Nat) → σ → List α → Outcome ε ρ
  | 0, _, _ => .spin
  | turns + 1, state, p =>
    match turn state p with
    | .ok (.stop result) => .ok result
    | .ok (.next state p) => drive turn turns state p
    | .fail error => .fail error
    | .outside => .outside
    | .spin => .spin

/-- Run the loop from `p`. -/
def runLoop (turn : σ → List α → Outcome ε (Turn α σ ρ)) (state : σ) (p : List α) :
    Outcome ε ρ :=
  drive turn (p.length + 1) state p

/-- Every turn that goes round again has consumed part of the sequence. -/
def Consuming (turn : σ → List α → Outcome ε (Turn α σ ρ)) : Prop :=
  ∀ ⦃state p state' p'⦄, turn state p = .ok (.next state' p') → p'.length < p.length

/-- The number of allowed turns is immaterial once it exceeds the length of the sequence. -/
theorem drive_eq_drive {turn : σ → List α → Outcome ε (Turn α σ ρ)} (consuming : Consuming turn)
    {left right : Nat} {state : σ} {p : List α} (leftEnough : p.length < left)
    (rightEnough : p.length < right) : drive turn left state p = drive turn right state p := by
  induction left generalizing right state p with
  | zero => omega
  | succ left ih =>
      obtain ⟨right, rfl⟩ : ∃ r, right = r + 1 := ⟨right - 1, by omega⟩
      simp only [drive]
      cases taken : turn state p with
      | ok decision =>
          cases decision with
          | stop result => rfl
          | next state' p' =>
              have shorter := consuming taken
              exact ih (by omega) (by omega)
      | fail error => rfl
      | outside => rfl
      | spin => rfl

/-- One turn of the loop, then the rest of it. -/
theorem runLoop_eq {turn : σ → List α → Outcome ε (Turn α σ ρ)} (consuming : Consuming turn)
    (state : σ) (p : List α) :
    runLoop turn state p =
      match turn state p with
      | .ok (.stop result) => .ok result
      | .ok (.next state p) => runLoop turn state p
      | .fail error => .fail error
      | .outside => .outside
      | .spin => .spin := by
  rw [runLoop, drive]
  cases taken : turn state p with
  | ok decision =>
      cases decision with
      | stop result => rfl
      | next state' p' =>
          have shorter := consuming taken
          exact drive_eq_drive consuming shorter (by omega)
  | fail error => rfl
  | outside => rfl
  | spin => rfl

/-- Induction along the turns of a loop. -/
theorem runLoop_induct {turn : σ → List α → Outcome ε (Turn α σ ρ)} (consuming : Consuming turn)
    {motive : σ → List α → Prop}
    (step : ∀ state p,
      (∀ state' p', turn state p = .ok (.next state' p') → motive state' p') → motive state p)
    (state : σ) (p : List α) : motive state p := by
  induction size : p.length using Nat.strongRecOn generalizing state p with
  | ind size ih =>
      refine step state p fun state' p' taken => ?_
      have shorter := consuming taken
      exact ih p'.length (by omega) state' p' rfl

/-- The invariant rule: a turn from a state satisfying the invariant either ends well or consumes
something and restores the invariant. -/
theorem runLoop_ends {turn : σ → List α → Outcome ε (Turn α σ ρ)} (inv : σ → List α → Prop)
    {good : ρ → Prop} {bad : ε → Prop}
    (step : ∀ state p, inv state p → (turn state p).Ends
      (fun
        | .stop result => good result
        | .next state' p' => p'.length < p.length ∧ inv state' p') bad)
    {state : σ} {p : List α} (holds : inv state p) : (runLoop turn state p).Ends good bad := by
  have driven : ∀ turns state p, p.length < turns → inv state p →
      (drive turn turns state p).Ends good bad := by
    intro turns
    induction turns with
    | zero => intro state p enough; omega
    | succ turns ih =>
        intro state p enough holds
        have ends := step state p holds
        rw [drive]
        cases taken : turn state p with
        | ok decision =>
            rw [taken] at ends
            cases decision with
            | stop result => exact ends
            | next state' p' =>
                obtain ⟨shorter, holds'⟩ := ends
                exact ih state' p' (by omega) holds'
        | fail error => rw [taken] at ends; exact ends
        | outside => rw [taken] at ends; exact ends
        | spin => rw [taken] at ends; exact ends
  exact driven _ state p (Nat.lt_succ_self _) holds

/-- A loop whose every turn is safe is safe. -/
theorem runLoop_safe {turn : σ → List α → Outcome ε (Turn α σ ρ)} (consuming : Consuming turn)
    (safe : ∀ state p, (turn state p).Safe) (state : σ) (p : List α) :
    (runLoop turn state p).Safe := by
  induction state, p using runLoop_induct consuming with
  | step state p ih =>
      rw [runLoop_eq consuming]
      have thisTurn := safe state p
      cases taken : turn state p with
      | ok decision =>
          cases decision with
          | stop result => exact Outcome.safe_ok result
          | next state' p' => exact ih state' p' taken
      | fail error => exact Outcome.safe_fail error
      | outside => exact absurd taken thisTurn.1
      | spin => exact absurd taken thisTurn.2

/-- A decision with its state and its result renamed. -/
def Turn.rename (change : σ → τ) (finish : ρ → π) : Turn α σ ρ → Turn α τ π
  | stop result => stop (finish result)
  | next state rest => next (change state) rest

/-- Renaming the states, results and errors of every turn renames those of the loop. -/
theorem runLoop_bimap {turn : σ → List α → Outcome ε (Turn α σ ρ)}
    {turn' : τ → List α → Outcome ε' (Turn α τ π)} {change : σ → τ} {finish : ρ → π}
    {report : ε → ε'}
    (renamed : ∀ state p,
      turn' (change state) p = (turn state p).bimap (Turn.rename change finish) report)
    (state : σ) (p : List α) :
    runLoop turn' (change state) p = (runLoop turn state p).bimap finish report := by
  have driven : ∀ turns state p,
      drive turn' turns (change state) p = (drive turn turns state p).bimap finish report := by
    intro turns
    induction turns with
    | zero => intro state p; rfl
    | succ turns ih =>
        intro state p
        simp only [drive, renamed]
        cases turn state p with
        | ok decision =>
            cases decision with
            | stop result => rfl
            | next state' p' => exact ih state' p'
        | fail error => rfl
        | outside => rfl
        | spin => rfl
  exact driven _ state p

/-- Translating the errors of every turn translates the errors of the loop. -/
theorem runLoop_mapError {turn : σ → List α → Outcome ε (Turn α σ ρ)} (report : ε → ε')
    (state : σ) (p : List α) :
    runLoop (fun state p => (turn state p).mapError report) state p =
      (runLoop turn state p).mapError report := by
  rw [← Outcome.bimap_id]
  refine @runLoop_bimap _ _ _ _ _ _ _ _ _ id _ _ (fun state p => ?_) state p
  simp only [id_eq]
  rcases turn state p with (_ | _) | _ | _ | _ <;> rfl

end RapidProto
