import Mathlib.Tactic
import RapidProto.Outcome

/-!
# The lowest set bit of a word

`x - 1` turns the trailing zeros of a nonzero word into ones and its lowest set bit into a zero, so
`x &&& (x - 1)` removes the lowest set bit and `x ^^^ (x - 1)` is the mask of all bits up to it.
-/

namespace RapidProto

variable {w : Nat} {x : BitVec w}

/-- The index of the lowest set bit. -/
def lowestBit (x : BitVec w) : Nat := x.ctz.toNat

theorem getLsbD_lowestBit (nonzero : x ≠ 0) : x.getLsbD (lowestBit x) = true :=
  BitVec.getLsbD_true_ctz_of_ne_zero nonzero

theorem getLsbD_of_lt_lowestBit {i : Nat} (below : i < lowestBit x) : x.getLsbD i = false :=
  BitVec.getLsbD_false_of_lt_ctz below

theorem lowestBit_lt (nonzero : x ≠ 0) : lowestBit x < w :=
  BitVec.lt_of_getLsbD (getLsbD_lowestBit nonzero)

/-- A nonzero word is an odd multiple of the power of two at its lowest set bit. -/
theorem toNat_eq_lowestBit (nonzero : x ≠ 0) :
    x.toNat = 2 ^ lowestBit x * (2 * (x.toNat / 2 ^ (lowestBit x + 1)) + 1) := by
  have low : x.toNat % 2 ^ lowestBit x = 0 := by
    apply Nat.eq_of_testBit_eq
    intro i
    rw [Nat.testBit_mod_two_pow, Nat.zero_testBit, ← BitVec.getLsbD]
    by_cases below : i < lowestBit x
    · simp [getLsbD_of_lt_lowestBit below]
    · simp [below]
  have odd : x.toNat / 2 ^ lowestBit x % 2 = 1 := by
    have set := getLsbD_lowestBit nonzero
    rw [BitVec.getLsbD, Nat.testBit_eq_decide_div_mod_eq] at set
    simpa using set
  have halves : x.toNat / 2 ^ (lowestBit x + 1) = x.toNat / 2 ^ lowestBit x / 2 := by
    rw [pow_succ, Nat.div_div_eq_div_mul]
  calc
    x.toNat = 2 ^ lowestBit x * (x.toNat / 2 ^ lowestBit x) :=
      (Nat.mul_div_cancel' (Nat.dvd_of_mod_eq_zero low)).symm
    _ = 2 ^ lowestBit x * (2 * (x.toNat / 2 ^ (lowestBit x + 1)) + 1) := by
      rw [halves]
      congr 1
      omega

theorem getLsbD_sub_one (nonzero : x ≠ 0) (i : Nat) :
    (x - 1).getLsbD i =
      if i < lowestBit x then true else if i = lowestBit x then false else x.getLsbD i := by
  have inside := lowestBit_lt nonzero
  set k := lowestBit x with kIs
  set m := x.toNat / 2 ^ (k + 1) with mIs
  have value : x.toNat = 2 ^ (k + 1) * m + 2 ^ k := by
    rw [toNat_eq_lowestBit nonzero, ← kIs, ← mIs]
    ring
  have positive : 0 < 2 ^ k := Nat.two_pow_pos k
  have less : (x - 1).toNat = 2 ^ (k + 1) * m + (2 ^ k - 1) := by
    have one : (1 : BitVec w).toNat = 1 := BitVec.toNat_one (by omega)
    have bounded := x.isLt
    rw [BitVec.toNat_sub, one, show 2 ^ w - 1 + x.toNat = x.toNat - 1 + 2 ^ w by omega,
      Nat.add_mod_right, Nat.mod_eq_of_lt (by omega), value]
    omega
  have doubled : 2 ^ (k + 1) = 2 * 2 ^ k := by ring
  rw [BitVec.getLsbD, BitVec.getLsbD, less, value,
    Nat.testBit_two_pow_mul_add m (by omega), Nat.testBit_two_pow_mul_add m (by omega)]
  rcases Nat.lt_trichotomy i k with below | rfl | above
  · simp [below, Nat.lt_succ_of_lt below, Nat.testBit_two_pow_sub_one]
  · simp [Nat.testBit_two_pow_sub_one]
  · rw [if_neg (by omega), if_neg (by omega), if_neg (by omega), if_neg (by omega)]

/-- Removing the lowest set bit. -/
theorem getLsbD_and_sub_one (nonzero : x ≠ 0) (i : Nat) :
    (x &&& (x - 1)).getLsbD i = (x.getLsbD i && decide (i ≠ lowestBit x)) := by
  rw [BitVec.getLsbD_and, getLsbD_sub_one nonzero]
  split
  · rename_i below
    simp [getLsbD_of_lt_lowestBit below]
  · split
    · simp_all
    · simp_all

/-- The mask up to the lowest set bit. -/
theorem getLsbD_xor_sub_one (nonzero : x ≠ 0) (i : Nat) :
    (x ^^^ (x - 1)).getLsbD i = decide (i ≤ lowestBit x) := by
  rw [BitVec.getLsbD_xor, getLsbD_sub_one nonzero]
  split
  · rename_i below
    simp [getLsbD_of_lt_lowestBit below, Nat.le_of_lt below]
  · split
    · rename_i here
      rw [here, getLsbD_lowestBit nonzero]
      simp
    · simp only [Bool.xor_self]
      symm
      simp only [decide_eq_false_iff_not]
      omega

/-! ## Visiting the set bits from low to high -/

variable {ε σ : Type}

/-- `while (x != 0)` over the set bits of `x`, at most `bits` of them. -/
def visitBits (body : σ → Nat → Outcome ε σ) : (bits : Nat) → BitVec w → σ → Outcome ε σ
  | 0, x, state => if x = 0 then .ok state else .spin
  | bits + 1, x, state =>
    if x = 0 then .ok state
    else do
      let state ← body state (lowestBit x)
      visitBits body bits (x &&& (x - 1)) state

/-- Run `body` at every set bit of `x`, in increasing order. -/
def forBits (body : σ → Nat → Outcome ε σ) (x : BitVec w) (state : σ) : Outcome ε σ :=
  visitBits body w x state

/-- The invariant rule: `inv start state` describes the state once every set bit below `start` has
been visited, that is with `x` less those bits left. -/
theorem forBits_ends {body : σ → Nat → Outcome ε σ} (inv : Nat → σ → Prop) {bad : ε → Prop}
    {state : σ} (begins : inv 0 state)
    (step : ∀ start state b, inv start state → start ≤ b → x.getLsbD b = true →
      (∀ i, start ≤ i → i < b → x.getLsbD i = false) → (body state b).Ends (inv (b + 1)) bad) :
    (forBits body x state).Ends
      (fun state => ∃ start, inv start state ∧ ∀ i, start ≤ i → x.getLsbD i = false) bad := by
  have visited : ∀ bits start (left : BitVec w) state, inv start state →
      (∀ i, left.getLsbD i = (decide (start ≤ i) && x.getLsbD i)) → w ≤ start + bits →
      (visitBits body bits left state).Ends
        (fun state => ∃ start, inv start state ∧ ∀ i, start ≤ i → x.getLsbD i = false) bad := by
    intro bits
    induction bits with
    | zero =>
        intro start left state holds same enough
        have empty : left = 0 := by
          apply BitVec.eq_of_getLsbD_eq
          intro i inside
          rw [same, decide_eq_false (by omega)]
          simp
        rw [visitBits, if_pos empty]
        refine ⟨start, holds, fun i above => ?_⟩
        exact BitVec.getLsbD_of_ge x i (by omega)
    | succ bits ih =>
        intro start left state holds same enough
        rw [visitBits]
        split
        · rename_i empty
          refine ⟨start, holds, fun i above => ?_⟩
          have bit := same i
          simpa [empty, above] using bit.symm
        · rename_i nonzero
          have set := getLsbD_lowestBit nonzero
          rw [same, Bool.and_eq_true, decide_eq_true_eq] at set
          refine (step start state (lowestBit left) holds set.1 set.2 fun i above below => ?_).bind
            fun state' holds' => ih (lowestBit left + 1) _ state' holds' (fun i => ?_) (by omega)
          · have bit := same i
            rw [getLsbD_of_lt_lowestBit below] at bit
            simpa [above] using bit.symm
          · rw [getLsbD_and_sub_one nonzero, same]
            by_cases before : i < lowestBit left
            · have bit := same i
              rw [getLsbD_of_lt_lowestBit before] at bit
              rw [← bit]
              simp only [Bool.false_and]
              rw [decide_eq_false (by omega)]
              rfl
            · by_cases here : i = lowestBit left
              · simp [here]
              · rw [decide_eq_true (show start ≤ i by omega), decide_eq_true here,
                  decide_eq_true (show lowestBit left + 1 ≤ i by omega)]
                simp
  refine visited w 0 x state begins (fun i => by simp) (by omega)

end RapidProto
