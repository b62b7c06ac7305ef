import Mathlib.Tactic
import RapidProto.Wire.Reader

/-!
# What the leaf readers compute

Each leaf reader is shown equal to a function on the remaining bytes that has no way to leave its
span.  Success takes a nonempty prefix and does not depend on what follows it (`Takes`), which is
what lets a record sequence be cut and joined.
-/

namespace RapidProto

variable {ε α β : Type}

/-- `read` takes a nonempty prefix of `p` and never looks past it. -/
def Takes (read : Cursor → Except ε (α × Cursor)) (p : Cursor) (value : α) (rest : Cursor) :
    Prop :=
  ∃ taken, taken ≠ [] ∧ p = taken ++ rest ∧ ∀ tail, read (taken ++ tail) = .ok (value, tail)

theorem Takes.length_lt {read : Cursor → Except ε (α × Cursor)} {p rest : Cursor} {value : α}
    (takes : Takes read p value rest) : rest.length < p.length := by
  obtain ⟨taken, nonempty, rfl, -⟩ := takes
  have := List.length_pos_of_ne_nil nonempty
  rw [List.length_append]
  omega

/-- A reader that post-processes the value of another takes the same prefix. -/
theorem Takes.map {read : Cursor → Except ε (α × Cursor)}
    {next : Cursor → Except ε (β × Cursor)} {p rest : Cursor} {value : α} {result : β}
    (takes : Takes read p value rest)
    (follows : ∀ q tail, read q = .ok (value, tail) → next q = .ok (result, tail)) :
    Takes next p result rest := by
  obtain ⟨taken, nonempty, split, reads⟩ := takes
  exact ⟨taken, nonempty, split, fun tail => follows _ tail (reads tail)⟩

/-! ## Varints -/

/-- The varint value from the byte at position `shift / 7` on. -/
def varintFrom : (turns shift : Nat) → BitVec 64 → Cursor → Except WireError (BitVec 64 × Cursor)
  | 0, _, _, _ => .error .varintOverflow
  | _ + 1, _, _, [] => .error .truncatedVarint
  | turns + 1, shift, result, b :: rest =>
    if shift = 63 ∧ 1 < b.toNat then .error .varintOverflow
    else
      let result := result ||| (payload7 b <<< shift)
      if terminates b then .ok (result, rest) else varintFrom turns (shift + 7) result rest

/-- A varint of at most ten bytes. -/
def varint (p : Cursor) : Except WireError (BitVec 64 × Cursor) := varintFrom 10 0 0 p

theorem readVarintLoop_eq (turns shift : Nat) (result : BitVec 64) (p : Cursor) :
    readVarintLoop turns shift result p = .ofExcept (varintFrom turns shift result p) := by
  induction turns generalizing shift result p with
  | zero => rfl
  | succ turns ih =>
      cases p with
      | nil => rfl
      | cons b rest =>
          simp only [readVarintLoop, varintFrom, List.length_cons, Nat.add_eq_zero_iff, one_ne_zero,
            and_false, if_false, peek_cons_zero, Outcome.ok_bind, advance_cons_one]
          split
          · rfl
          · split
            · rfl
            · exact ih _ _ _

theorem varint_of_terminates {b : Byte} (last : terminates b = true) (rest : Cursor) :
    varint (b :: rest) = .ok (b.setWidth 64, rest) := by
  simp [varint, varintFrom, last, payload7_of_terminates last]

theorem readVarint_eq (p : Cursor) : readVarint p = .ofExcept (varint p) := by
  cases p with
  | nil => rfl
  | cons b rest =>
      simp only [readVarint, List.length_cons, Nat.zero_lt_succ, if_true, peek_cons_zero,
        Outcome.ok_bind]
      split
      · rename_i last
        simp [varint_of_terminates last]
      · exact readVarintLoop_eq _ _ _ _

theorem varintFrom_takes {turns shift : Nat} {result value : BitVec 64} {p rest : Cursor}
    (read : varintFrom turns shift result p = .ok (value, rest)) :
    Takes (varintFrom turns shift result) p value rest := by
  induction turns generalizing shift result p with
  | zero => cases read
  | succ turns ih =>
      cases p with
      | nil => cases read
      | cons b p =>
          simp only [varintFrom] at read
          split at read
          · cases read
          rename_i fits
          split at read
          · rename_i last
            cases read
            exact ⟨[b], by simp, rfl, fun tail => by simp [varintFrom, fits, last]⟩
          · rename_i continues
            obtain ⟨taken, -, rfl, reads⟩ := ih read
            refine ⟨b :: taken, by simp, rfl, fun tail => ?_⟩
            simp only [List.cons_append, varintFrom, if_neg fits, if_neg continues]
            exact reads tail

theorem varint_takes {p rest : Cursor} {value : BitVec 64} (read : varint p = .ok (value, rest)) :
    Takes varint p value rest :=
  varintFrom_takes read

/-! ## Tags -/

/-- Split and validate the integer form of a tag. -/
def tagOfRaw (raw : BitVec 64) : Except WireError Tag :=
  let field := (raw >>> 3).toNat
  if field = 0 then .error .invalidFieldNumber
  else if kMaxFieldNumber < field then .error .fieldNumberRange
  else
    match WireType.ofCode (raw &&& 7).toNat with
    | none => .error .reservedWireType
    | some wire => .ok ⟨field, wire⟩

/-- A tag in any varint encoding. -/
def tag (p : Cursor) : Except WireError (Tag × Cursor) :=
  match varint p with
  | .error error => .error error
  | .ok (raw, rest) =>
    match tagOfRaw raw with
    | .error error => .error error
    | .ok found => .ok (found, rest)

theorem multiByte_eq (p : Cursor) : readTag.multiByte p = .ofExcept (tag p) := by
  rw [readTag.multiByte, readVarint_eq, tag]
  cases varint p with
  | error error => rfl
  | ok read =>
      obtain ⟨raw, rest⟩ := read
      simp only [Outcome.ofExcept_ok, Outcome.ok_bind, tagOfRaw]
      split
      · rfl
      split
      · rfl
      cases WireType.ofCode (raw &&& 7).toNat <;> rfl

theorem tagOfRaw_eq {raw : BitVec 64} {field : Nat} {wire : WireType}
    (value : raw.toNat = rawTag field wire) (positive : 0 < field)
    (range : field ≤ kMaxFieldNumber) : tagOfRaw raw = .ok ⟨field, wire⟩ := by
  have shifted : (raw >>> 3).toNat = field := by
    rw [BitVec.toNat_ushiftRight, value, Nat.shiftRight_eq_div_pow]
    exact rawTag_div field wire
  have masked : (raw &&& 7).toNat = wire.code := by
    rw [BitVec.toNat_and, value]
    exact (Nat.and_two_pow_sub_one_eq_mod _ 3).trans (rawTag_mod field wire)
  simp only [tagOfRaw, shifted, masked, WireType.ofCode_code]
  rw [if_neg (by omega), if_neg (by omega)]

/-- The one-byte tag, read from its byte. -/
theorem tag_of_byte {b : Byte} {field : Nat} {wire : WireType} (value : b.toNat = rawTag field wire)
    (positive : 0 < field) (small : field ≤ 15) (rest : Cursor) :
    tag (b :: rest) = .ok (⟨field, wire⟩, rest) := by
  have below : b.toNat < 128 := by
    have := wire.code_lt
    rw [value, rawTag_eq]
    omega
  have last := terminates_iff.mpr below
  have widened : (b.setWidth 64).toNat = rawTag field wire := by
    rw [BitVec.toNat_setWidth, value, Nat.mod_eq_of_lt]
    omega
  rw [tag, varint_of_terminates last]
  simp only [tagOfRaw_eq widened positive (by simp only [kMaxFieldNumber]; omega)]

theorem byte_split {b : Byte} {field : Nat} {wire : WireType} (fieldIs : b.toNat >>> 3 = field)
    (wireIs : WireType.ofCode (b.toNat &&& 7) = some wire) : b.toNat = rawTag field wire := by
  have code := WireType.code_of_ofCode wireIs
  rw [Nat.shiftRight_eq_div_pow] at fieldIs
  rw [show (7 : Nat) = 2 ^ 3 - 1 from rfl, Nat.and_two_pow_sub_one_eq_mod] at code
  rw [rawTag_eq]
  omega

/-- The fused one-byte path reads what the general one reads. -/
theorem tag_oneByte {b : Byte} {field : Nat} {wire : WireType} (last : terminates b = true)
    (fieldIs : b.toNat >>> 3 = field + 1) (wireIs : WireType.ofCode (b.toNat &&& 7) = some wire)
    (rest : Cursor) : tag (b :: rest) = .ok (⟨field + 1, wire⟩, rest) := by
  have below := terminates_iff.mp last
  have small : field + 1 ≤ 15 := by
    rw [Nat.shiftRight_eq_div_pow] at fieldIs
    omega
  exact tag_of_byte (byte_split fieldIs wireIs) (by omega) small rest

theorem readTag_eq (p : Cursor) : readTag p = .ofExcept (tag p) := by
  cases p with
  | nil => exact multiByte_eq []
  | cons b rest =>
      simp only [readTag, List.length_cons, Nat.zero_lt_succ, if_true, peek_cons_zero,
        Outcome.ok_bind]
      split
      · rename_i last
        split
        · exact multiByte_eq _
        · rename_i field wire fieldIs wireIs
          rw [tag_oneByte last fieldIs wireIs]
          rfl
        · exact multiByte_eq _
      · exact multiByte_eq _

theorem tag_takes {p rest : Cursor} {found : Tag} (read : tag p = .ok (found, rest)) :
    Takes tag p found rest := by
  simp only [tag] at read
  split at read
  · cases read
  rename_i raw rest' readRaw
  split at read
  · cases read
  rename_i found' validated
  cases read
  refine (varint_takes readRaw).map fun q tail readQ => ?_
  simp only [tag, readQ, validated]

/-- The clean end, or a tag. -/
def tagOrEnd (p : Cursor) : Except WireError (Option (Tag × Cursor)) :=
  match p with
  | [] => .ok none
  | _ :: _ => some <$> tag p

theorem tagOrEnd_of_tag {p q : Cursor} {found : Tag} (read : tag p = .ok (found, q)) :
    tagOrEnd p = .ok (some (found, q)) := by
  cases p with
  | nil => cases read
  | cons b p => rw [tagOrEnd, read]; rfl

theorem tagOrEnd_of_error {p : Cursor} {error : WireError} (nonempty : 0 < p.length)
    (failed : tag p = .error error) : tagOrEnd p = .error error := by
  cases p with
  | nil => cases nonempty
  | cons b p => rw [tagOrEnd, failed]; rfl

/-- The two-byte tag, read from its bytes. -/
theorem tag_of_two_bytes {b0 b1 : Byte} {field : Nat} {wire : WireType}
    (continues : terminates b0 = false) (last : terminates b1 = true)
    (value : (b0.toNat &&& 0x7F) ||| b1.toNat <<< 7 = rawTag field wire) (positive : 0 < field)
    (range : field ≤ 2047) (rest : Cursor) :
    tag (b0 :: b1 :: rest) = .ok (⟨field, wire⟩, rest) := by
  have read : varint (b0 :: b1 :: rest) =
      .ok (payload7 b0 ||| b1.setWidth 64 <<< 7, rest) := by
    simp [varint, varintFrom, continues, last, payload7_of_terminates last]
  have widened : (payload7 b0 ||| b1.setWidth 64 <<< 7).toNat = rawTag field wire := by
    have below := terminates_iff.mp last
    have fits : b1.toNat <<< 7 < 2 ^ 64 := by
      rw [Nat.shiftLeft_eq]
      omega
    rw [BitVec.toNat_or, BitVec.toNat_shiftLeft, BitVec.toNat_setWidth, toNat_payload7, ← value,
      show (0x7F : Nat) = 2 ^ 7 - 1 from rfl, Nat.and_two_pow_sub_one_eq_mod,
      Nat.mod_eq_of_lt (show b1.toNat < 2 ^ 64 by omega), Nat.mod_eq_of_lt fits]
  rw [tag, read]
  simp only [tagOfRaw_eq widened positive (by simp only [kMaxFieldNumber]; omega)]

theorem terminates_of_sub_one_lt {b : Byte} (canonical : b - 1 < 0x7F) :
    terminates b = true ∧ 0 < b.toNat := by
  revert b
  decide

/-- The fused two-byte path reads what the general one reads. -/
theorem tag_twoBytes {b b1 : Byte} {wire : WireType} (continues : terminates b = false)
    (canonical : b1 - 1 < 0x7F)
    (wireIs : WireType.ofCode (((b.toNat &&& 0x7F) ||| b1.toNat <<< 7) &&& 7) = some wire)
    (rest : Cursor) :
    tag (b :: b1 :: rest) =
      .ok (⟨((b.toNat &&& 0x7F) ||| b1.toNat <<< 7) >>> 3, wire⟩, rest) := by
  obtain ⟨last, nonzero⟩ := terminates_of_sub_one_lt canonical
  have below := terminates_iff.mp last
  have low : b.toNat &&& 0x7F < 128 := by
    rw [show (0x7F : Nat) = 2 ^ 7 - 1 from rfl, Nat.and_two_pow_sub_one_eq_mod]
    exact Nat.mod_lt _ (by decide)
  set value := (b.toNat &&& 0x7F) ||| b1.toNat <<< 7 with valueIs
  have sum : value = 128 * b1.toNat + (b.toNat &&& 0x7F) := by
    rw [valueIs, Nat.or_comm, Nat.shiftLeft_eq, Nat.mul_comm]
    exact (Nat.two_pow_add_eq_or_of_lt (show _ < 2 ^ 7 from low) b1.toNat).symm
  have code := WireType.code_of_ofCode wireIs
  rw [show (7 : Nat) = 2 ^ 3 - 1 from rfl, Nat.and_two_pow_sub_one_eq_mod] at code
  have split : value = rawTag (value >>> 3) wire := by
    rw [rawTag_eq, Nat.shiftRight_eq_div_pow]
    omega
  exact tag_of_two_bytes continues last (valueIs.symm.trans split)
    (by rw [Nat.shiftRight_eq_div_pow]; omega) (by rw [Nat.shiftRight_eq_div_pow]; omega) rest

theorem readTagOrEnd_eq (p : Cursor) : readTagOrEnd p = .ofExcept (tagOrEnd p) := by
  cases p with
  | nil => rfl
  | cons b rest =>
      have general : readTagOrEnd.general (b :: rest) = .ofExcept (some <$> tag (b :: rest)) := by
        rw [readTagOrEnd.general, readTag_eq]
        cases tag (b :: rest) <;> rfl
      simp only [readTagOrEnd, tagOrEnd, List.length_cons, Nat.add_eq_zero_iff, one_ne_zero,
        and_false, if_false, peek_cons_zero, Outcome.ok_bind, advance_cons_one]
      split
      · rename_i last
        split
        · rename_i field wire fieldIs wireIs
          rw [tag_oneByte last fieldIs wireIs]
          rfl
        · exact general
      · rename_i continues
        split
        · rename_i two
          obtain ⟨b1, rest, rfl⟩ : ∃ b1 rest', rest = b1 :: rest' := by
            cases rest with
            | nil => simp at two
            | cons b1 rest => exact ⟨b1, rest, rfl⟩
          simp only [peek_cons_succ, peek_cons_zero, Outcome.ok_bind]
          split
          · rename_i canonical
            split
            · rename_i wire wireIs
              rw [tag_twoBytes (by simpa using continues) canonical wireIs]
              simp [advance]
            · exact general
          · exact general
        · exact general

/-! ## Fixed-width and length-delimited values -/

/-- Four little-endian bytes. -/
def word32 (b0 b1 b2 b3 : Byte) : BitVec 32 :=
  b0.setWidth 32 ||| b1.setWidth 32 <<< 8 ||| b2.setWidth 32 <<< 16 ||| b3.setWidth 32 <<< 24

/-- Eight little-endian bytes. -/
def word64 (b0 b1 b2 b3 b4 b5 b6 b7 : Byte) : BitVec 64 :=
  b0.setWidth 64 ||| b1.setWidth 64 <<< 8 ||| b2.setWidth 64 <<< 16 ||| b3.setWidth 64 <<< 24 |||
    b4.setWidth 64 <<< 32 ||| b5.setWidth 64 <<< 40 ||| b6.setWidth 64 <<< 48 |||
    b7.setWidth 64 <<< 56

/-- A four-byte value. -/
def fixed32 : Cursor → Except WireError (BitVec 32 × Cursor)
  | b0 :: b1 :: b2 :: b3 :: rest => .ok (word32 b0 b1 b2 b3, rest)
  | _ => .error .truncatedI32

/-- An eight-byte value. -/
def fixed64 : Cursor → Except WireError (BitVec 64 × Cursor)
  | b0 :: b1 :: b2 :: b3 :: b4 :: b5 :: b6 :: b7 :: rest =>
    .ok (word64 b0 b1 b2 b3 b4 b5 b6 b7, rest)
  | _ => .error .truncatedI64

theorem readFixed32_eq (p : Cursor) : readFixed32 p = .ofExcept (fixed32 p) := by
  match p with
  | [] | [_] | [_, _] | [_, _, _] => rfl
  | b0 :: b1 :: b2 :: b3 :: rest => simp [readFixed32, fixed32, word32, peek, advance]

theorem readFixed64_eq (p : Cursor) : readFixed64 p = .ofExcept (fixed64 p) := by
  match p with
  | [] | [_] | [_, _] | [_, _, _] | [_, _, _, _] | [_, _, _, _, _] | [_, _, _, _, _, _]
  | [_, _, _, _, _, _, _] => rfl
  | b0 :: b1 :: b2 :: b3 :: b4 :: b5 :: b6 :: b7 :: rest =>
      simp [readFixed64, readFixed64Loop, fixed64, word64, peek, advance]

theorem fixed32_bytes {p rest : Cursor} {value : BitVec 32} (read : fixed32 p = .ok (value, rest)) :
    ∃ b0 b1 b2 b3, value = word32 b0 b1 b2 b3 ∧ p = b0 :: b1 :: b2 :: b3 :: rest := by
  match p, read with
  | b0 :: b1 :: b2 :: b3 :: _, rfl => exact ⟨b0, b1, b2, b3, rfl, rfl⟩

theorem fixed64_bytes {p rest : Cursor} {value : BitVec 64} (read : fixed64 p = .ok (value, rest)) :
    ∃ b0 b1 b2 b3 b4 b5 b6 b7, value = word64 b0 b1 b2 b3 b4 b5 b6 b7 ∧
      p = b0 :: b1 :: b2 :: b3 :: b4 :: b5 :: b6 :: b7 :: rest := by
  match p, read with
  | b0 :: b1 :: b2 :: b3 :: b4 :: b5 :: b6 :: b7 :: _, rfl =>
      exact ⟨b0, b1, b2, b3, b4, b5, b6, b7, rfl, rfl⟩

theorem fixed32_takes {p rest : Cursor} {value : BitVec 32} (read : fixed32 p = .ok (value, rest)) :
    Takes fixed32 p value rest := by
  obtain ⟨b0, b1, b2, b3, rfl, rfl⟩ := fixed32_bytes read
  exact ⟨[b0, b1, b2, b3], by simp, rfl, fun _ => rfl⟩

theorem fixed64_takes {p rest : Cursor} {value : BitVec 64} (read : fixed64 p = .ok (value, rest)) :
    Takes fixed64 p value rest := by
  obtain ⟨b0, b1, b2, b3, b4, b5, b6, b7, rfl, rfl⟩ := fixed64_bytes read
  exact ⟨[b0, b1, b2, b3, b4, b5, b6, b7], by simp, rfl, fun _ => rfl⟩

/-- A length prefix and its payload. -/
def lengthDelimited (p : Cursor) : Except WireError (List Byte × Cursor) :=
  match varint p with
  | .error error => .error error
  | .ok (len, np) =>
    if np.length < len.toNat then .error .lengthExceedsBuffer
    else .ok (np.take len.toNat, np.drop len.toNat)

theorem readLengthDelimited_eq (p : Cursor) :
    readLengthDelimited p = .ofExcept (lengthDelimited p) := by
  rw [readLengthDelimited, readVarint_eq, lengthDelimited]
  cases varint p with
  | error error => rfl
  | ok read =>
      obtain ⟨len, np⟩ := read
      simp only [Outcome.ofExcept_ok, Outcome.ok_bind]
      split
      · rfl
      · rename_i fits
        simp [byteView, advance, not_lt.mp fits]

theorem lengthDelimited_takes {p rest : Cursor} {payload : List Byte}
    (read : lengthDelimited p = .ok (payload, rest)) :
    Takes lengthDelimited p payload rest := by
  simp only [lengthDelimited] at read
  split at read
  · cases read
  rename_i len np readLen
  split at read
  · cases read
  rename_i fits
  cases read
  obtain ⟨taken, nonempty, rfl, reads⟩ := varint_takes readLen
  refine ⟨taken ++ np.take len.toNat, by simp [nonempty], by simp, fun tail => ?_⟩
  simp only [lengthDelimited, List.append_assoc, reads]
  have size : (np.take len.toNat).length = len.toNat := by simp [not_lt.mp fits]
  rw [if_neg (by rw [List.length_append, size]; omega)]
  simp [size]

end RapidProto
