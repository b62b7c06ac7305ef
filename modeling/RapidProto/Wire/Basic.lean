import Mathlib.Algebra.GroupWithZero.Nat
import Mathlib.Data.List.Basic
import RapidProto.Outcome

/-!
# Wire format vocabulary

The enumerations of `runtime.hpp`, and the byte cursor.  A pointer pair `(cur, end)` is modelled by
the list of bytes from `cur` up to `end`; the buffer start `begin` is then fixed by the length of
the whole span, and a byte offset is a difference of two lengths.
-/

namespace RapidProto

/-- One byte of wire input. -/
abbrev Byte := BitVec 8

/-- The bytes between a cursor and the end of its span. -/
abbrev Cursor := List Byte

/-- The wire types; the numeric codes are given by `WireType.code`. -/
inductive WireType where
  | varint | i64 | len | sgroup | egroup | i32
  deriving DecidableEq, Repr

namespace WireType

/-- The three-bit code carried by a tag. -/
def code : WireType → Nat
  | varint => 0
  | i64 => 1
  | len => 2
  | sgroup => 3
  | egroup => 4
  | i32 => 5

/-- The wire type named by a three-bit code; codes 6 and 7 are reserved. -/
def ofCode : Nat → Option WireType
  | 0 => some varint
  | 1 => some i64
  | 2 => some len
  | 3 => some sgroup
  | 4 => some egroup
  | 5 => some i32
  | _ => none

@[simp] theorem ofCode_code (wire : WireType) : ofCode wire.code = some wire := by
  cases wire <;> rfl

theorem code_lt (wire : WireType) : wire.code < 8 := by
  cases wire <;> decide

theorem code_of_ofCode {code : Nat} {wire : WireType} (named : ofCode code = some wire) :
    wire.code = code := by
  match code, named with
  | 0, rfl | 1, rfl | 2, rfl | 3, rfl | 4, rfl | 5, rfl => rfl

end WireType

/-- Failures the wire reader reports. -/
inductive WireError where
  | truncatedVarint | varintOverflow | invalidFieldNumber | fieldNumberRange | reservedWireType
  | truncatedI32 | truncatedI64 | lengthExceedsBuffer | lengthTooLarge | unexpectedEndGroup
  | endGroupMismatch | unterminatedGroup | groupTooDeep
  deriving DecidableEq, Repr

/-- A decoded record header. -/
structure Tag where
  /-- Field number, at least one after validation. -/
  fieldNumber : Nat
  /-- Wire type of the value that follows. -/
  wireType : WireType
  deriving DecidableEq, Repr

/-- The whole tag as one integer. -/
def rawTag (fieldNumber : Nat) (wire : WireType) : Nat :=
  fieldNumber <<< 3 ||| wire.code

theorem rawTag_eq (fieldNumber : Nat) (wire : WireType) :
    rawTag fieldNumber wire = 8 * fieldNumber + wire.code := by
  rw [rawTag, Nat.shiftLeft_eq, Nat.mul_comm]
  exact (Nat.two_pow_add_eq_or_of_lt (i := 3) wire.code_lt fieldNumber).symm

theorem rawTag_div (fieldNumber : Nat) (wire : WireType) :
    rawTag fieldNumber wire / 8 = fieldNumber := by
  have := wire.code_lt
  rw [rawTag_eq]
  omega

theorem rawTag_mod (fieldNumber : Nat) (wire : WireType) :
    rawTag fieldNumber wire % 8 = wire.code := by
  have := wire.code_lt
  rw [rawTag_eq]
  omega

/-- The byte ends a varint: `(b & 0x80) == 0`. -/
def terminates (b : Byte) : Bool := b &&& 0x80 == 0

/-- The seven payload bits of a varint byte, as a 64-bit word: `b & 0x7F`. -/
def payload7 (b : Byte) : BitVec 64 := (b &&& 0x7F).setWidth 64

theorem terminates_iff {b : Byte} : terminates b = true ↔ b.toNat < 128 := by
  revert b
  decide

theorem payload7_of_terminates {b : Byte} (last : terminates b = true) :
    payload7 b = b.setWidth 64 := by
  revert b
  decide

theorem toNat_payload7 (b : Byte) : (payload7 b).toNat = b.toNat % 128 := by
  revert b
  decide

/-- Largest field number of the wire format. -/
def kMaxFieldNumber : Nat := 2 ^ 29 - 1

/-- Cap on group nesting for untrusted input. -/
def kMaxGroupDepth : Nat := 100

/-- A wire failure as a caller reports it.  Besides the error and its offset it records the span
the offset is relative to: its length, and whether it is a payload inside the decoded body. -/
structure WireFail where
  /-- The reader's error code. -/
  error : WireError
  /-- Pointer difference between the failing cursor and the start of the span. -/
  offset : Int
  /-- Length of the span the offset is relative to. -/
  span : Nat
  /-- The span is a packed run or a map entry, not the body being decoded. -/
  inner : Bool := false
  deriving DecidableEq, Repr

/-- A failure at cursor `p` of a span of length `span`. -/
def failAt (span : Nat) (p : Cursor) (error : WireError) : WireFail :=
  { error, offset := span - p.length, span }

/-- The offset names a position of the span it is relative to. -/
def WireFail.Within (failure : WireFail) : Prop :=
  0 ≤ failure.offset ∧ failure.offset ≤ failure.span

theorem failAt_within {span : Nat} {p : Cursor} (inside : p.length ≤ span) (error : WireError) :
    (failAt span p error).Within := by
  constructor <;> simp only [failAt] <;> omega

/-- The same failure reported from a buffer that has `count` more bytes in front. -/
def WireFail.shift (count : Nat) (failure : WireFail) : WireFail :=
  { failure with offset := failure.offset + count, span := failure.span + count }

theorem failAt_add (span count : Nat) (p : Cursor) (error : WireError) :
    failAt (span + count) p error = (failAt span p error).shift count := by
  simp only [failAt, WireFail.shift, WireFail.mk.injEq, true_and, and_true]
  omega

variable {ε : Type}

/-- Read `p[index]`. -/
def peek (p : Cursor) (index : Nat) : Outcome ε Byte :=
  match p[index]? with
  | some byte => .ok byte
  | none => .outside

/-- Form the cursor `p + count`. -/
def advance (p : Cursor) (count : Nat) : Outcome ε Cursor :=
  if count ≤ p.length then .ok (p.drop count) else .outside

@[simp] theorem peek_cons_zero (byte : Byte) (p : Cursor) :
    (peek (byte :: p) 0 : Outcome ε Byte) = .ok byte := rfl

@[simp] theorem peek_cons_succ (byte : Byte) (p : Cursor) (index : Nat) :
    (peek (byte :: p) (index + 1) : Outcome ε Byte) = peek p index := rfl

theorem advance_of_le {p : Cursor} {count : Nat} (inside : count ≤ p.length) :
    (advance p count : Outcome ε Cursor) = .ok (p.drop count) := by
  simp [advance, inside]

@[simp] theorem advance_cons_one (byte : Byte) (p : Cursor) :
    (advance (byte :: p) 1 : Outcome ε Cursor) = .ok p := by
  simp [advance]

end RapidProto
