import Mathlib.Algebra.BigOperators.Group.Finset.Basic
import Mathlib.Algebra.BigOperators.Ring.Finset
import RapidProto.Schema
import RapidProto.Wire.Grammar

/-!
# The varint reader, for every byte sequence

Where `read_varint` stops, what it returns there, and which of its two errors it reports.  Zigzag
encoding, which only the writers use, is stated here so that the decoders can be shown to undo it.
-/

namespace RapidProto

open Finset

/-- The byte at an index is the first with a clear top bit. -/
structure StopsAt (p : Cursor) (index : Nat) : Prop where
  /-- The byte is there. -/
  inside : index < p.length
  /-- Its top bit is clear. -/
  ends : terminates p[index] = true
  /-- Every earlier byte continues. -/
  first : ∀ j (earlier : j < index), terminates p[j] = false

/-- Zigzag encoding of a signed value: `(n << 1) ^ (n >> (w - 1))`. -/
def zigzagEncode {w : Nat} (n : BitVec w) : BitVec w := (n <<< 1) ^^^ n.sshiftRight (w - 1)

/-! ## Where a varint stops -/

theorem stopsAt_cons_zero {b : Byte} {p : Cursor} :
    StopsAt (b :: p) 0 ↔ terminates b = true := by
  refine ⟨fun stops => stops.ends, fun ends => ⟨by simp, ends, fun j earlier => ?_⟩⟩
  exact absurd earlier (Nat.not_lt_zero j)

theorem stopsAt_cons_succ {b : Byte} {p : Cursor} {index : Nat} :
    StopsAt (b :: p) (index + 1) ↔ terminates b = false ∧ StopsAt p index := by
  constructor
  · intro stops
    have inside := stops.inside
    exact ⟨stops.first 0 (Nat.succ_pos index), by simpa using inside, stops.ends,
      fun j earlier => stops.first (j + 1) (Nat.succ_lt_succ earlier)⟩
  · rintro ⟨continues, stops⟩
    refine ⟨Nat.succ_lt_succ stops.inside, stops.ends, fun j earlier => ?_⟩
    cases j with
    | zero => exact continues
    | succ j => exact stops.first j (Nat.lt_of_succ_lt_succ earlier)

/-- A varint is a byte sequence cut just past its first byte with a clear top bit. -/
theorem isVarint_iff_stopsAt {p : Cursor} {index : Nat} :
    StopsAt p index ↔ isVarint (p.take (index + 1)) = true ∧ index < p.length := by
  induction p generalizing index with
  | nil => exact ⟨fun stops => absurd stops.inside (by simp), fun varint => absurd varint.2 (by simp)⟩
  | cons b p ih =>
      cases index with
      | zero => simp [stopsAt_cons_zero, isVarint, terminates_iff]
      | succ index =>
          rw [stopsAt_cons_succ, ih, List.take_succ_cons, isVarint_cons, List.length_cons,
            Nat.succ_lt_succ_iff]
          constructor
          · rintro ⟨continues, ends, inside⟩
            exact ⟨.inr ⟨continues, ends⟩, inside⟩
          · rintro ⟨⟨-, nothing⟩ | ⟨continues, ends⟩, inside⟩
            · have length := congrArg List.length nothing
              simp only [List.length_take, List.length_nil] at length
              omega
            · exact ⟨continues, ends, inside⟩

theorem varintValue_eq_sum (bytes : List Byte) :
    varintValue bytes =
      ∑ j ∈ range bytes.length, (payload7 (bytes.getD j 0)).toNat * 2 ^ (7 * j) := by
  induction bytes with
  | nil => rfl
  | cons b bytes ih =>
      rw [varintValue, List.length_cons, sum_range_succ', ih, mul_sum, add_comm]
      congr 1
      · refine sum_congr rfl fun j _ => ?_
        rw [List.getD_cons_succ, show 7 * (j + 1) = 7 * j + 7 by ring, pow_add]
        ring
      · simp [toNat_payload7]

/-- The number spelled by the first bytes of a span. -/
theorem varintValue_take {p : Cursor} {count : Nat} (inside : count ≤ p.length) :
    varintValue (p.take count) =
      ∑ j ∈ range count, (payload7 (p.getD j 0)).toNat * 2 ^ (7 * j) := by
  rw [varintValue_eq_sum, List.length_take, min_eq_left inside]
  refine sum_congr rfl fun j met => ?_
  rw [List.getD_eq_getElem?_getD, List.getElem?_take_of_lt (mem_range.mp met),
    ← List.getD_eq_getElem?_getD]

/-- The value of at most ten bytes fits 64 bits exactly if the tenth contributes one bit. -/
theorem varintValue_lt_iff {p : Cursor} {index : Nat} (stops : StopsAt p index)
    (short : index ≤ 9) :
    varintValue (p.take (index + 1)) < 2 ^ 64 ↔ (index = 9 → (p.getD 9 0).toNat ≤ 1) := by
  have digits : ∀ bytes : List Byte, varintValue bytes < 2 ^ (7 * bytes.length) := by
    intro bytes
    induction bytes with
    | nil => simp [varintValue]
    | cons b bytes ih =>
        rw [varintValue, List.length_cons, show 7 * (bytes.length + 1) = 7 * bytes.length + 7 by ring,
          pow_add]
        omega
  have inside := stops.inside
  by_cases top : index = 9
  · subst top
    have low := digits (p.take 9)
    have last : p.getD 9 0 = p[9] := by simp [List.getD_eq_getElem?_getD, inside]
    have small := terminates_iff.mp stops.ends
    have split : varintValue (p.take (9 + 1)) =
        varintValue (p.take 9) + (p[9]).toNat * 2 ^ 63 := by
      rw [varintValue_take inside, varintValue_take inside.le, sum_range_succ, last, toNat_payload7,
        Nat.mod_eq_of_lt small]
    rw [List.length_take, min_eq_left inside.le] at low
    simp only [forall_const, last]
    omega
  · have low := digits (p.take (index + 1))
    rw [List.length_take, min_eq_left inside] at low
    have below : 2 ^ (7 * (index + 1)) ≤ 2 ^ 63 := Nat.pow_le_pow_right (by decide) (by omega)
    simp only [top, false_implies, iff_true]
    omega

/-! ## The two errors -/

theorem varintFrom_truncated_iff {turns seen : Nat} (budget : turns + seen = 10)
    {result : BitVec 64} {p : Cursor} :
    varintFrom turns (7 * seen) result p = .error .truncatedVarint ↔
      p.length < turns ∧ ∀ b ∈ p, terminates b = false := by
  induction turns generalizing seen result p with
  | zero => simp [varintFrom]
  | succ turns ih =>
      cases p with
      | nil => simp [varintFrom]
      | cons b p =>
          rw [varintFrom]
          split
          · rename_i overflow
            obtain rfl : turns = 0 := by omega
            simp
          · cases ending : terminates b with
            | true => simp [ending]
            | false =>
                simp only [Bool.false_eq_true, if_false]
                rw [show 7 * seen + 7 = 7 * (seen + 1) by ring, ih (by omega)]
                simp [ending]

theorem varintFrom_error {turns shift : Nat} {result : BitVec 64} {p : Cursor} {error : WireError}
    (failed : varintFrom turns shift result p = .error error) :
    error = .truncatedVarint ∨ error = .varintOverflow := by
  induction turns generalizing shift result p with
  | zero =>
      cases failed
      exact .inr rfl
  | succ turns ih =>
      cases p with
      | nil =>
          cases failed
          exact .inl rfl
      | cons b p =>
          rw [varintFrom] at failed
          split at failed
          · cases failed
            exact .inr rfl
          · split at failed
            · cases failed
            · exact ih failed

theorem varint_stops_iff {p rest : Cursor} {value : BitVec 64} :
    varint p = .ok (value, rest) ↔
      ∃ index < 10, StopsAt p index ∧ (index = 9 → (p.getD 9 0).toNat ≤ 1) ∧
        value.toNat = ∑ j ∈ range (index + 1), (payload7 (p.getD j 0)).toNat * 2 ^ (7 * j) ∧
        rest = p.drop (index + 1) := by
  rw [varint_iff]
  constructor
  · rintro ⟨bytes, encodes, rfl⟩
    have positive := List.length_pos_of_ne_nil (isVarint_ne_nil encodes.ends)
    have short := encodes.short
    have taken : (bytes ++ rest).take (bytes.length - 1 + 1) = bytes := by
      rw [Nat.sub_add_cancel positive, List.take_left]
    have inside : bytes.length - 1 < (bytes ++ rest).length := by simp; omega
    have stops : StopsAt (bytes ++ rest) (bytes.length - 1) :=
      isVarint_iff_stopsAt.mpr ⟨taken.symm ▸ encodes.ends, inside⟩
    refine ⟨bytes.length - 1, by omega, stops, ?_, ?_, ?_⟩
    · rw [← varintValue_lt_iff stops (by omega), taken, encodes.spells]
      exact encodes.fits
    · rw [← varintValue_take inside, taken, encodes.spells]
    · rw [Nat.sub_add_cancel positive, List.drop_left]
  · rintro ⟨index, low, stops, last, spelled, rfl⟩
    refine ⟨p.take (index + 1), ⟨(isVarint_iff_stopsAt.mp stops).1, ?_, ?_, value.isLt⟩,
      (List.take_append_drop _ _).symm⟩
    · rw [List.length_take]
      omega
    · rw [varintValue_take stops.inside, spelled]

/-! ## Zigzag -/

/-- The two cases of a zigzag encoding: the sign moves to the low bit. -/
theorem zigzagEncode_eq {w : Nat} (n : BitVec (w + 1)) :
    zigzagEncode n = if n.msb then ~~~(n <<< 1) else n <<< 1 := by
  apply BitVec.eq_of_getLsbD_eq
  intro i inside
  have sign : (n.sshiftRight (w + 1 - 1)).getLsbD i = n.msb := by
    rw [BitVec.getLsbD_sshiftRight]
    by_cases low : i = 0
    · simp [low, BitVec.msb_eq_getLsbD_last]
    · simp [inside.not_ge, show ¬ w + i < w + 1 by omega]
  rw [zigzagEncode, BitVec.getLsbD_xor, sign]
  cases n.msb <;> simp [inside]

theorem zigzag_roundtrip {w : Nat} (n : BitVec (w + 1)) :
    (zigzagEncode n >>> 1) ^^^ (0 - (zigzagEncode n &&& 1)) = n := by
  have low : ∀ m : BitVec (w + 1), (m <<< 1).getLsbD 0 = false := by simp
  have masked : ∀ m : BitVec (w + 1), m &&& 1 = if m.getLsbD 0 then 1 else 0 := by
    intro m
    apply BitVec.eq_of_getLsbD_eq
    intro i inside
    by_cases first : i = 0
    · subst first
      cases bit : m.getLsbD 0 <;> simpa using bit
    · cases m.getLsbD 0 <;> simp [first]
  have ones : (0 : BitVec (w + 1)) - 1 = BitVec.allOnes (w + 1) := by
    rw [← BitVec.neg_one_eq_allOnes]
    simp
  apply BitVec.eq_of_getLsbD_eq
  intro i inside
  rw [zigzagEncode_eq]
  cases sign : n.msb with
  | true =>
      simp only [if_true, masked, BitVec.getLsbD_not, low, Nat.succ_pos, decide_true, Bool.true_and,
        Bool.not_false, ones, BitVec.getLsbD_xor, BitVec.getLsbD_ushiftRight,
        BitVec.getLsbD_shiftLeft, BitVec.getLsbD_allOnes, inside]
      by_cases last : 1 + i < w + 1
      · simp [last]
      · have top : n.getLsbD i = true := by
          rw [← sign, BitVec.msb_eq_getLsbD_last]
          congr 1
          omega
        simp [last, top]
  | false =>
      simp only [Bool.false_eq_true, if_false, masked, low, BitVec.getLsbD_xor,
        BitVec.getLsbD_ushiftRight, BitVec.getLsbD_shiftLeft]
      by_cases last : 1 + i < w + 1
      · simp [last]
      · have top : n.getLsbD i = false := by
          rw [← sign, BitVec.msb_eq_getLsbD_last]
          congr 1
          omega
        simp [last, top]

/-! ## The reader -/

/-- `read_varint` on every span: where it succeeds and with what, which error it reports otherwise,
and that it and the zigzag decoders undo their encodings. -/
theorem readVarint_spec :
    (∀ (p rest : Cursor) (value : BitVec 64), readVarint p = .ok (value, rest) ↔
      ∃ index < 10, StopsAt p index ∧ (index = 9 → (p.getD 9 0).toNat ≤ 1) ∧
        value.toNat = ∑ j ∈ range (index + 1), (payload7 (p.getD j 0)).toNat * 2 ^ (7 * j) ∧
        rest = p.drop (index + 1)) ∧
    (∀ p : Cursor, readVarint p = .fail .truncatedVarint ↔
      p.length < 10 ∧ ∀ b ∈ p, terminates b = false) ∧
    (∀ p : Cursor, readVarint p = .fail .varintOverflow ↔
      (∀ value rest, readVarint p ≠ .ok (value, rest)) ∧
        readVarint p ≠ .fail .truncatedVarint) ∧
    (∀ (value : BitVec 64) (bytes rest : List Byte), EncodesVarint value.toNat bytes →
      readVarint (bytes ++ rest) = .ok (value, rest)) ∧
    (∀ n : BitVec 32, zigzagDecode32 (zigzagEncode n) = n) ∧
    (∀ n : BitVec 64, zigzagDecode64 (zigzagEncode n) = n) := by
  refine ⟨fun p rest value => ?_, fun p => ?_, fun p => ?_, fun value bytes rest encodes => ?_,
    fun n => zigzag_roundtrip n, fun n => zigzag_roundtrip n⟩
  · rw [← varint_stops_iff, readVarint_eq]
    cases varint p <;> simp
  · have truncated := @varintFrom_truncated_iff 10 0 rfl 0 p
    rw [← truncated, readVarint_eq, varint]
    cases varintFrom 10 0 0 p <;> simp
  · rw [readVarint_eq]
    cases got : varint p with
    | ok pair =>
        simp only [Outcome.ofExcept_ok, reduceCtorEq, false_iff, not_and]
        exact fun never => absurd rfl (never pair.1 pair.2)
    | error error =>
        rcases varintFrom_error got with rfl | rfl <;> simp
  · rw [readVarint_eq, varint_iff.mpr ⟨bytes, encodes, rfl⟩]
    rfl

/-- An overlong spelling of 5. -/
theorem readVarint_spec_overlong :
    EncodesVarint (5#64).toNat [0x85, 0x80, 0x00] ∧
      readVarint [0x85, 0x80, 0x00, 0x07] = .ok (5#64, [0x07]) := by
  have encodes : EncodesVarint (5#64).toNat [0x85, 0x80, 0x00] :=
    ⟨by decide, by decide, by decide, by decide⟩
  exact ⟨encodes, readVarint_spec.2.2.2.1 5#64 [0x85, 0x80, 0x00] [0x07] encodes⟩

end RapidProto
