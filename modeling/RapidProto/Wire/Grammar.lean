import RapidProto.Wire.Record

/-!
# The wire format as a grammar

A description of the format that does not mention the reader: which byte strings encode a record,
for tags, lengths and values in any varint encoding of at most ten bytes.  The reader is then shown
to accept exactly these strings and to hand over exactly the records they encode.
-/

namespace RapidProto

/-! ## Records and their encodings -/

/-- The bytes of one varint: every byte but the last has its high bit set. -/
def isVarint : List Byte → Bool
  | [] => false
  | [b] => b.toNat < 128
  | b :: rest => 128 ≤ b.toNat && isVarint rest

/-- The number a varint spells: seven bits a byte, lowest first. -/
def varintValue : List Byte → Nat
  | [] => 0
  | b :: rest => b.toNat % 128 + 128 * varintValue rest

/-- The number fixed-width bytes spell, lowest byte first. -/
def littleEndian : List Byte → Nat
  | [] => 0
  | b :: rest => b.toNat + 256 * littleEndian rest

/-- The bytes spell a 64-bit number as a varint, canonical or overlong. -/
structure EncodesVarint (value : Nat) (bytes : List Byte) : Prop where
  /-- The last byte, and no earlier one, terminates. -/
  ends : isVarint bytes = true
  /-- At most ten bytes. -/
  short : bytes.length ≤ 10
  /-- The number. -/
  spells : varintValue bytes = value
  /-- The number has 64 bits. -/
  fits : value < 2 ^ 64

/-- The bytes are a valid tag. -/
structure EncodesTag (tag : Tag) (bytes : List Byte) : Prop where
  /-- Field numbers start at one. -/
  positive : 1 ≤ tag.fieldNumber
  /-- Field numbers have 29 bits. -/
  range : tag.fieldNumber ≤ kMaxFieldNumber
  /-- The field number above the three bits of the wire type. -/
  spells : EncodesVarint (rawTag tag.fieldNumber tag.wireType) bytes

/-- A record. -/
inductive Record where
  | varint (number : Nat) (value : BitVec 64)
  | i64 (number : Nat) (value : BitVec 64)
  | len (number : Nat) (payload : List Byte)
  | group (number : Nat) (records : List Record)
  | i32 (number : Nat) (value : BitVec 32)

/-- The tag in front of a record. -/
def Record.tag : Record → Tag
  | varint number _ => ⟨number, .varint⟩
  | i64 number _ => ⟨number, .i64⟩
  | len number _ => ⟨number, .len⟩
  | group number _ => ⟨number, .sgroup⟩
  | i32 number _ => ⟨number, .i32⟩

/-- The bytes after the tag of a record, where `inner` encodes the body of a group. -/
inductive EncodesValue (inner : List Record → List Byte → Prop) : Record → List Byte → Prop
  | varint {number : Nat} {value : BitVec 64} {bytes : List Byte}
      (spells : EncodesVarint value.toNat bytes) : EncodesValue inner (.varint number value) bytes
  | i64 {number : Nat} {value : BitVec 64} {bytes : List Byte} (width : bytes.length = 8)
      (spells : littleEndian bytes = value.toNat) : EncodesValue inner (.i64 number value) bytes
  | len {number : Nat} {length payload : List Byte} (spells : EncodesVarint payload.length length) :
      EncodesValue inner (.len number payload) (length ++ payload)
  | group {number : Nat} {records : List Record} {body mark : List Byte}
      (encodes : inner records body) (closes : EncodesTag ⟨number, .egroup⟩ mark) :
      EncodesValue inner (.group number records) (body ++ mark)
  | i32 {number : Nat} {value : BitVec 32} {bytes : List Byte} (width : bytes.length = 4)
      (spells : littleEndian bytes = value.toNat) : EncodesValue inner (.i32 number value) bytes

/-- Records one after the other. -/
inductive EncodesEach (inner : List Record → List Byte → Prop) : List Record → List Byte → Prop
  | nil : EncodesEach inner [] []
  | cons {record : Record} {records : List Record} {mark bytes rest : List Byte}
      (opens : EncodesTag record.tag mark) (value : EncodesValue inner record bytes)
      (later : EncodesEach inner records rest) :
      EncodesEach inner (record :: records) (mark ++ (bytes ++ rest))

/-- A record sequence with groups nested to at most `levels`. -/
def Encodes : (levels : Nat) → List Record → List Byte → Prop
  | 0 => EncodesEach fun _ _ => False
  | levels + 1 => EncodesEach (Encodes levels)

/-! ## Varints and tags -/

theorem isVarint_ne_nil {bytes : List Byte} (ends : isVarint bytes = true) : bytes ≠ [] := by
  rintro rfl
  cases ends

theorem isVarint_cons {b : Byte} {rest : List Byte} :
    isVarint (b :: rest) = true ↔
      (terminates b = true ∧ rest = []) ∨ (terminates b = false ∧ isVarint rest = true) := by
  have ends := @terminates_iff b
  cases rest with
  | nil => simp [isVarint, ends]
  | cons b' rest => simp [isVarint, ← not_lt, ← ends]

/-- Seven more bits above those already read. -/
theorem toNat_or_payload7 {result : BitVec 64} {b : Byte} {shift : Nat}
    (below : result.toNat < 2 ^ shift) (fits : 2 ^ shift * (b.toNat % 128) < 2 ^ 64) :
    (result ||| payload7 b <<< shift).toNat = result.toNat + 2 ^ shift * (b.toNat % 128) := by
  rw [BitVec.toNat_or, BitVec.toNat_shiftLeft, toNat_payload7, Nat.shiftLeft_eq,
    Nat.mul_comm, Nat.mod_eq_of_lt fits, Nat.or_comm, ← Nat.two_pow_add_eq_or_of_lt below,
    Nat.add_comm]

theorem two_pow_mul_lt {seen digit : Nat} (most : seen ≤ 9) (small : digit < 128)
    (last : seen = 9 → digit ≤ 1) : 2 ^ (7 * seen) * digit < 2 ^ 64 := by
  by_cases top : seen = 9
  · have low := last top
    subst top
    omega
  · have scaled : 2 ^ (7 * seen) ≤ 2 ^ 56 := Nat.pow_le_pow_right (by decide) (by omega)
    have product : 2 ^ (7 * seen) * digit ≤ 2 ^ 56 * 127 := Nat.mul_le_mul scaled (by omega)
    omega

/-- The varint loop reads exactly the bytes that spell the rest of a 64-bit number. -/
theorem varintFrom_iff {turns seen : Nat} (budget : turns + seen = 10) {result value : BitVec 64}
    (below : result.toNat < 2 ^ (7 * seen)) {p rest : Cursor} :
    varintFrom turns (7 * seen) result p = .ok (value, rest) ↔
      ∃ bytes, p = bytes ++ rest ∧ isVarint bytes = true ∧ bytes.length ≤ turns ∧
        value.toNat = result.toNat + 2 ^ (7 * seen) * varintValue bytes := by
  induction turns generalizing seen result p with
  | zero =>
      refine ⟨fun read => (by cases read), ?_⟩
      rintro ⟨bytes, -, ends, short, -⟩
      exact absurd (List.length_eq_zero_iff.mp (Nat.le_zero.mp short)) (isVarint_ne_nil ends)
  | succ turns ih =>
      cases p with
      | nil =>
          refine ⟨fun read => (by cases read), ?_⟩
          rintro ⟨bytes, split, ends, -⟩
          exact absurd (List.append_eq_nil_iff.mp split.symm).1 (isVarint_ne_nil ends)
      | cons b p =>
          have top := value.isLt
          rw [varintFrom]
          split
          · rename_i overflow
            obtain rfl : seen = 9 := by omega
            obtain rfl : turns = 0 := by omega
            refine ⟨fun read => (by cases read), ?_⟩
            rintro ⟨bytes, split, ends, short, spelled⟩
            obtain ⟨last, rfl⟩ := List.length_eq_one_iff.mp (le_antisymm short
              (List.length_pos_of_ne_nil (isVarint_ne_nil ends)))
            obtain ⟨rfl, -⟩ := List.cons.inj split
            simp only [isVarint, decide_eq_true_eq] at ends
            simp only [varintValue] at spelled
            omega
          rename_i guarded
          have digit : b.toNat % 128 < 128 := Nat.mod_lt _ (by decide)
          have added := toNat_or_payload7 below (@two_pow_mul_lt seen _ (by omega) digit
            (by omega))
          have scale : 2 ^ (7 * (seen + 1)) = 2 ^ (7 * seen) * 128 := by
            rw [show 7 * (seen + 1) = 7 * seen + 7 by omega, Nat.pow_add]
          have whole : ∀ later, result.toNat + 2 ^ (7 * seen) * (b.toNat % 128 + 128 * later) =
              (result ||| payload7 b <<< (7 * seen)).toNat + 2 ^ (7 * (seen + 1)) * later := by
            intro later
            rw [added, scale]
            ring
          cases ending : terminates b with
          | true =>
              simp only [if_true, Except.ok.injEq, Prod.mk.injEq]
              constructor
              · rintro ⟨rfl, rfl⟩
                exact ⟨[b], rfl, isVarint_cons.mpr (.inl ⟨ending, rfl⟩), by simp,
                  by rw [added]; simp [varintValue]⟩
              · rintro ⟨bytes, split, ends, -, spelled⟩
                obtain ⟨first, tail, rfl⟩ := List.exists_cons_of_ne_nil (isVarint_ne_nil ends)
                obtain ⟨rfl, rfl⟩ := List.cons.inj split
                rcases isVarint_cons.mp ends with ⟨-, rfl⟩ | ⟨continues, -⟩
                · refine ⟨BitVec.eq_of_toNat_eq ?_, rfl⟩
                  rw [spelled, added]
                  simp [varintValue]
                · rw [ending] at continues
                  cases continues
          | false =>
              simp only [Bool.false_eq_true, if_false]
              rw [show 7 * seen + 7 = 7 * (seen + 1) by omega,
                ih (by omega) (by rw [added, scale]; nlinarith)]
              constructor
              · rintro ⟨bytes, rfl, ends, short, spelled⟩
                refine ⟨b :: bytes, rfl, isVarint_cons.mpr (.inr ⟨ending, ends⟩), by simpa, ?_⟩
                rw [spelled, varintValue, whole]
              · rintro ⟨bytes, split, ends, short, spelled⟩
                obtain ⟨first, tail, rfl⟩ := List.exists_cons_of_ne_nil (isVarint_ne_nil ends)
                obtain ⟨rfl, rfl⟩ := List.cons.inj split
                rcases isVarint_cons.mp ends with ⟨last, -⟩ | ⟨-, ends⟩
                · rw [ending] at last
                  cases last
                · refine ⟨tail, rfl, ends, by simpa using short, ?_⟩
                  rw [spelled, varintValue, whole]

/-- `read_varint` accepts exactly the varints of at most ten bytes and 64 bits. -/
theorem varint_iff {p rest : Cursor} {value : BitVec 64} :
    varint p = .ok (value, rest) ↔
      ∃ bytes, EncodesVarint value.toNat bytes ∧ p = bytes ++ rest := by
  have exactly := @varintFrom_iff 10 0 rfl 0 value (by decide) p rest
  rw [varint, exactly]
  constructor
  · rintro ⟨bytes, rfl, ends, short, spelled⟩
    exact ⟨bytes, ⟨ends, short, by simpa using spelled.symm, value.isLt⟩, rfl⟩
  · rintro ⟨bytes, encodes, rfl⟩
    exact ⟨bytes, rfl, encodes.ends, encodes.short, by simp [encodes.spells]⟩

theorem tagOfRaw_iff {raw : BitVec 64} {found : Tag} :
    tagOfRaw raw = .ok found ↔ 1 ≤ found.fieldNumber ∧ found.fieldNumber ≤ kMaxFieldNumber ∧
      raw.toNat = rawTag found.fieldNumber found.wireType := by
  constructor
  · intro validated
    simp only [tagOfRaw] at validated
    split at validated
    · cases validated
    split at validated
    · cases validated
    split at validated
    · cases validated
    · rename_i positive range _ wire wireIs
      cases validated
      have code := WireType.code_of_ofCode wireIs
      rw [BitVec.toNat_and, show (7 : BitVec 64).toNat = 2 ^ 3 - 1 from rfl,
        Nat.and_two_pow_sub_one_eq_mod] at code
      refine ⟨Nat.pos_of_ne_zero positive, not_lt.mp range, ?_⟩
      simp only [rawTag_eq, code, BitVec.toNat_ushiftRight, Nat.shiftRight_eq_div_pow]
      omega
  · rintro ⟨positive, range, spelled⟩
    exact tagOfRaw_eq spelled positive range

theorem rawTag_lt {number : Nat} (range : number ≤ kMaxFieldNumber) (wire : WireType) :
    rawTag number wire < 2 ^ 64 := by
  have code := wire.code_lt
  simp only [kMaxFieldNumber] at range
  rw [rawTag_eq]
  omega

/-- `read_tag` accepts exactly the valid tags. -/
theorem tag_iff {p rest : Cursor} {found : Tag} :
    tag p = .ok (found, rest) ↔ ∃ bytes, EncodesTag found bytes ∧ p = bytes ++ rest := by
  constructor
  · intro read
    simp only [tag] at read
    split at read
    · cases read
    rename_i raw rest' readRaw
    split at read
    · cases read
    rename_i found' validated
    cases read
    obtain ⟨bytes, encodes, split⟩ := varint_iff.mp readRaw
    obtain ⟨positive, range, spelled⟩ := tagOfRaw_iff.mp validated
    exact ⟨bytes, ⟨positive, range, spelled ▸ encodes⟩, split⟩
  · rintro ⟨bytes, ⟨positive, range, encodes⟩, rfl⟩
    have raw : (BitVec.ofNat 64 (rawTag found.fieldNumber found.wireType)).toNat =
        rawTag found.fieldNumber found.wireType := by
      rw [BitVec.toNat_ofNat, Nat.mod_eq_of_lt (rawTag_lt range _)]
    have read := varint_iff.mpr ⟨bytes, raw.symm ▸ encodes, @rfl _ (bytes ++ rest)⟩
    simp only [tag, read, tagOfRaw_iff.mpr ⟨positive, range, raw⟩]

/-- `read_tag_or_end` accepts the empty span as the end, and otherwise the valid tags. -/
theorem tagOrEnd_iff {p q : Cursor} {found : Tag} :
    tagOrEnd p = .ok (some (found, q)) ↔ ∃ bytes, EncodesTag found bytes ∧ p = bytes ++ q := by
  rw [← tag_iff]
  refine ⟨fun read => ?_, tagOrEnd_of_tag⟩
  cases p with
  | nil => cases read
  | cons b p =>
      simp only [tagOrEnd] at read
      cases got : tag (b :: p) with
      | error error => rw [got] at read; cases read
      | ok pair => rw [got] at read; cases read; rfl

theorem tagOrEnd_none {p : Cursor} (ended : tagOrEnd p = .ok none) : p = [] := by
  cases p with
  | nil => rfl
  | cons b p =>
      simp only [tagOrEnd] at ended
      cases got : tag (b :: p) <;> rw [got] at ended <;> cases ended

/-! ## Values -/

/-- One more byte above those already loaded. -/
theorem toNat_or_byte {w k : Nat} {x : BitVec w} {b : Byte} (below : x.toNat < 2 ^ k)
    (fits : k + 8 ≤ w) : (x ||| b.setWidth w <<< k).toNat = x.toNat + 2 ^ k * b.toNat := by
  have byte := b.isLt
  have room : 2 ^ k * 2 ^ 8 ≤ 2 ^ w := by
    rw [← Nat.pow_add]
    exact Nat.pow_le_pow_right (by decide) fits
  have narrow : 2 ^ k * b.toNat < 2 ^ w :=
    (Nat.mul_lt_mul_of_pos_left byte (Nat.two_pow_pos k)).trans_le room
  have small : b.toNat < 2 ^ w :=
    (Nat.le_mul_of_pos_left _ (Nat.two_pow_pos k)).trans_lt narrow
  rw [BitVec.toNat_or, BitVec.toNat_shiftLeft, BitVec.toNat_setWidth, Nat.mod_eq_of_lt small,
    Nat.shiftLeft_eq, Nat.mul_comm, Nat.mod_eq_of_lt narrow, Nat.or_comm,
    ← Nat.two_pow_add_eq_or_of_lt below, Nat.add_comm]

theorem word32_toNat (b0 b1 b2 b3 : Byte) :
    (word32 b0 b1 b2 b3).toNat = littleEndian [b0, b1, b2, b3] := by
  have byte := fun b : Byte => b.isLt
  have first : (b0.setWidth 32).toNat = b0.toNat := by
    rw [BitVec.toNat_setWidth, Nat.mod_eq_of_lt (by have := byte b0; omega)]
  have l0 := byte b0
  have l1 := byte b1
  have l2 := byte b2
  have s1 := @toNat_or_byte 32 8 (b0.setWidth 32) b1 (by omega) (by omega)
  have s2 := @toNat_or_byte 32 16 _ b2 (by rw [s1]; omega) (by omega)
  have s3 := @toNat_or_byte 32 24 _ b3 (by rw [s2]; omega) (by omega)
  rw [word32, s3, s2, s1, first]
  simp only [littleEndian]
  omega

theorem word64_toNat (b0 b1 b2 b3 b4 b5 b6 b7 : Byte) :
    (word64 b0 b1 b2 b3 b4 b5 b6 b7).toNat = littleEndian [b0, b1, b2, b3, b4, b5, b6, b7] := by
  have byte := fun b : Byte => b.isLt
  have first : (b0.setWidth 64).toNat = b0.toNat := by
    rw [BitVec.toNat_setWidth, Nat.mod_eq_of_lt (by have := byte b0; omega)]
  have l0 := byte b0
  have l1 := byte b1
  have l2 := byte b2
  have l3 := byte b3
  have l4 := byte b4
  have l5 := byte b5
  have l6 := byte b6
  have s1 := @toNat_or_byte 64 8 (b0.setWidth 64) b1 (by omega) (by omega)
  have s2 := @toNat_or_byte 64 16 _ b2 (by rw [s1]; omega) (by omega)
  have s3 := @toNat_or_byte 64 24 _ b3 (by rw [s2]; omega) (by omega)
  have s4 := @toNat_or_byte 64 32 _ b4 (by rw [s3]; omega) (by omega)
  have s5 := @toNat_or_byte 64 40 _ b5 (by rw [s4]; omega) (by omega)
  have s6 := @toNat_or_byte 64 48 _ b6 (by rw [s5]; omega) (by omega)
  have s7 := @toNat_or_byte 64 56 _ b7 (by rw [s6]; omega) (by omega)
  rw [word64, s7, s6, s5, s4, s3, s2, s1, first]
  simp only [littleEndian]
  omega

theorem fixed32_iff {p rest : Cursor} {value : BitVec 32} :
    fixed32 p = .ok (value, rest) ↔
      ∃ bytes, bytes.length = 4 ∧ littleEndian bytes = value.toNat ∧ p = bytes ++ rest := by
  constructor
  · intro read
    obtain ⟨b0, b1, b2, b3, rfl, rfl⟩ := fixed32_bytes read
    exact ⟨[b0, b1, b2, b3], rfl, (word32_toNat b0 b1 b2 b3).symm, rfl⟩
  · rintro ⟨bytes, width, spelled, rfl⟩
    match bytes, width with
    | [b0, b1, b2, b3], _ =>
        rw [← word32_toNat] at spelled
        simp only [List.cons_append, fixed32, BitVec.eq_of_toNat_eq spelled, List.nil_append]

theorem fixed64_iff {p rest : Cursor} {value : BitVec 64} :
    fixed64 p = .ok (value, rest) ↔
      ∃ bytes, bytes.length = 8 ∧ littleEndian bytes = value.toNat ∧ p = bytes ++ rest := by
  constructor
  · intro read
    obtain ⟨b0, b1, b2, b3, b4, b5, b6, b7, rfl, rfl⟩ := fixed64_bytes read
    exact ⟨[b0, b1, b2, b3, b4, b5, b6, b7], rfl, (word64_toNat b0 b1 b2 b3 b4 b5 b6 b7).symm, rfl⟩
  · rintro ⟨bytes, width, spelled, rfl⟩
    match bytes, width with
    | [b0, b1, b2, b3, b4, b5, b6, b7], _ =>
        rw [← word64_toNat] at spelled
        simp only [List.cons_append, fixed64, BitVec.eq_of_toNat_eq spelled, List.nil_append]

theorem lengthDelimited_iff {p rest : Cursor} {payload : List Byte} :
    lengthDelimited p = .ok (payload, rest) ↔
      ∃ length, EncodesVarint payload.length length ∧ p = length ++ payload ++ rest := by
  constructor
  · intro read
    simp only [lengthDelimited] at read
    split at read
    · cases read
    rename_i len np readLen
    split at read
    · cases read
    rename_i fits
    cases read
    obtain ⟨length, encodes, rfl⟩ := varint_iff.mp readLen
    have size : (np.take len.toNat).length = len.toNat := by simp [not_lt.mp fits]
    exact ⟨length, size.symm ▸ encodes, by simp⟩
  · rintro ⟨length, encodes, rfl⟩
    have raw : (BitVec.ofNat 64 payload.length).toNat = payload.length := by
      rw [BitVec.toNat_ofNat, Nat.mod_eq_of_lt encodes.fits]
    have read := varint_iff.mpr ⟨length, raw.symm ▸ encodes, @rfl _ (length ++ (payload ++ rest))⟩
    rw [lengthDelimited, List.append_assoc, read]
    simp [raw]

/-! ## Groups -/

/-- What the body of a group may be when `levels` of nesting are left. -/
def EncodesInner : (levels : Nat) → List Record → List Byte → Prop
  | 0 => fun _ _ => False
  | levels + 1 => Encodes levels

theorem encodes_eq (levels : Nat) : Encodes levels = EncodesEach (EncodesInner levels) := by
  cases levels <;> rfl

/-- The scan accepts the bodies described by `inner`, each with its closing tag. -/
def ScansTo (inner : List Record → List Byte → Prop)
    (scan : Nat → Cursor → Outcome WireFail (Cursor × Cursor)) : Prop :=
  ∀ number p closing rest, scan number p = .ok (closing, rest) ↔
    ∃ records body mark, inner records body ∧ EncodesTag ⟨number, .egroup⟩ mark ∧
      p = body ++ (mark ++ rest) ∧ closing = mark ++ rest

theorem skipLeaf_iff {α : Type} {span : Nat} {p rest : Cursor}
    {read : Except WireError (α × Cursor)} :
    Prod.snd <$> located span p (.ofExcept read) = .ok rest ↔
      ∃ value, read = .ok (value, rest) := by
  cases read with
  | error error => simp [located, Outcome.map_eq]
  | ok got =>
      obtain ⟨value, rest'⟩ := got
      simp [located, Outcome.map_eq]

section Scan

variable {inner : List Record → List Byte → Prop} {span depth : Nat}

/-- A skip passes exactly the values of the format. -/
theorem skipValueWith_iff {scan : Nat → Nat → Cursor → Outcome WireFail (Cursor × Cursor)}
    (scans : ScansTo inner fun number => scan number (depth + 1)) {found : Tag} {p rest : Cursor} :
    skipValueWith scan span found depth p = .ok rest ↔
      ∃ record bytes, record.tag = found ∧ EncodesValue inner record bytes ∧
        p = bytes ++ rest := by
  obtain ⟨number, wire⟩ := found
  constructor
  · intro skipped
    cases wire with
    | varint =>
        simp only [skipValueWith, readVarint_eq, skipLeaf_iff] at skipped
        obtain ⟨value, read⟩ := skipped
        obtain ⟨bytes, encodes, split⟩ := varint_iff.mp read
        exact ⟨.varint number value, bytes, rfl, .varint encodes, split⟩
    | i64 =>
        simp only [skipValueWith, readFixed64_eq, skipLeaf_iff] at skipped
        obtain ⟨value, read⟩ := skipped
        obtain ⟨bytes, width, spelled, split⟩ := fixed64_iff.mp read
        exact ⟨.i64 number value, bytes, rfl, .i64 width spelled, split⟩
    | i32 =>
        simp only [skipValueWith, readFixed32_eq, skipLeaf_iff] at skipped
        obtain ⟨value, read⟩ := skipped
        obtain ⟨bytes, width, spelled, split⟩ := fixed32_iff.mp read
        exact ⟨.i32 number value, bytes, rfl, .i32 width spelled, split⟩
    | len =>
        simp only [skipValueWith, readLengthDelimited_eq, skipLeaf_iff] at skipped
        obtain ⟨value, read⟩ := skipped
        obtain ⟨length, encodes, split⟩ := lengthDelimited_iff.mp read
        exact ⟨.len number value, length ++ value, rfl, .len encodes, split⟩
    | sgroup =>
        simp only [skipValueWith, Outcome.map_eq, Outcome.bind_eq_ok] at skipped
        obtain ⟨⟨closing, rest'⟩, scanned, same⟩ := skipped
        cases same
        obtain ⟨records, body, mark, encodes, closes, split, -⟩ := (scans _ _ _ _).mp scanned
        exact ⟨.group number records, body ++ mark, rfl, .group encodes closes, by simp [split]⟩
    | egroup => cases skipped
  · rintro ⟨record, bytes, same, encodes, rfl⟩
    cases encodes with
    | varint spells =>
        cases same
        simp only [skipValueWith, readVarint_eq, skipLeaf_iff]
        exact ⟨_, varint_iff.mpr ⟨bytes, spells, rfl⟩⟩
    | i64 width spells =>
        cases same
        simp only [skipValueWith, readFixed64_eq, skipLeaf_iff]
        exact ⟨_, fixed64_iff.mpr ⟨bytes, width, spells, rfl⟩⟩
    | i32 width spells =>
        cases same
        simp only [skipValueWith, readFixed32_eq, skipLeaf_iff]
        exact ⟨_, fixed32_iff.mpr ⟨bytes, width, spells, rfl⟩⟩
    | len spells =>
        cases same
        simp only [skipValueWith, readLengthDelimited_eq, skipLeaf_iff]
        exact ⟨_, lengthDelimited_iff.mpr ⟨_, spells, rfl⟩⟩
    | @group _ records body mark encodes closes =>
        cases same
        have scanned := (scans number (body ++ (mark ++ rest)) _ rest).mpr
          ⟨records, body, mark, encodes, closes, rfl, rfl⟩
        simp only [skipValueWith, List.append_assoc, scanned, Outcome.map_eq, Outcome.ok_bind]

/-- The group loop accepts exactly a record sequence and its closing tag. -/
theorem scanGroupLoop_iff {scan : Nat → Nat → Nat → Cursor → Outcome WireFail (Cursor × Cursor)}
    (exact : ScanExact scan) (scans : ScansTo inner fun number => scan span number (depth + 1)) :
    ScansTo (EncodesEach inner) fun number =>
      runLoop (scanGroupTurn (scan span) span number depth) () := by
  intro number p closing rest
  have consuming := scanGroupTurn_consuming exact span number depth
  dsimp only
  constructor
  · intro scanned
    generalize unit : () = state at scanned
    induction state, p using runLoop_induct consuming with
    | step state p ih =>
        rw [runLoop_eq consuming] at scanned
        cases taken : scanGroupTurn (scan span) span number depth state p with
        | fail error => rw [taken] at scanned; cases scanned
        | outside => rw [taken] at scanned; cases scanned
        | spin => rw [taken] at scanned; cases scanned
        | ok decision =>
            obtain ⟨found, q, read, ⟨rfl, rfl⟩ | ⟨-, r, skipped, rfl⟩⟩ := scanGroupTurn_ok taken
            · rw [taken] at scanned
              cases scanned
              obtain ⟨mark, closes, split⟩ := tag_iff.mp read
              exact ⟨[], [], mark, .nil, closes, split, split⟩
            · rw [taken] at scanned
              obtain ⟨records, body, mark, encodes, closes, rfl, same⟩ := ih () r taken rfl scanned
              obtain ⟨opening, opens, rfl⟩ := tag_iff.mp read
              obtain ⟨record, bytes, rfl, value, rfl⟩ := (skipValueWith_iff scans).mp skipped
              exact ⟨record :: records, _, mark, .cons opens value encodes, closes, by simp, same⟩
  · rintro ⟨records, body, mark, encodes, closes, rfl, rfl⟩
    induction encodes with
    | nil =>
        rw [List.nil_append, runLoop_eq consuming,
          scanGroupTurn_closing (tag_iff.mpr ⟨mark, closes, rfl⟩)]
    | @cons record records opening bytes later opens value _ ih =>
        have skipped := (@skipValueWith_iff _ span _ _ scans _ _ _).mpr
          ⟨record, bytes, rfl, value, @rfl _ (bytes ++ (later ++ (mark ++ rest)))⟩
        have notClosing : record.tag.wireType ≠ .egroup := by cases record <;> simp [Record.tag]
        rw [List.append_assoc, List.append_assoc, runLoop_eq consuming,
          scanGroupTurn_inner (tag_iff.mpr ⟨opening, opens, rfl⟩) notClosing skipped]
        exact ih

end Scan

/-- `scan_group_end` accepts exactly the bodies that stay within the depth limit. -/
theorem scanGroupEnd_iff (span : Nat) {frames depth : Nat}
    (budget : frames + depth = kMaxGroupDepth + 2) :
    ScansTo (EncodesInner (kMaxGroupDepth + 1 - depth)) fun number =>
      scanGroupEnd span frames number depth := by
  induction frames generalizing depth with
  | zero =>
      intro number p closing rest
      rw [show kMaxGroupDepth + 1 - depth = 0 by omega]
      refine ⟨fun scanned => (by cases scanned), ?_⟩
      rintro ⟨records, body, mark, impossible, -⟩
      exact impossible.elim
  | succ frames ih =>
      intro number p closing rest
      simp only [scanGroupEnd]
      by_cases deep : kMaxGroupDepth < depth
      · rw [if_pos deep, show kMaxGroupDepth + 1 - depth = 0 by omega]
        refine ⟨fun scanned => (by cases scanned), ?_⟩
        rintro ⟨records, body, mark, impossible, -⟩
        exact impossible.elim
      · have levels : kMaxGroupDepth + 1 - depth = kMaxGroupDepth - depth + 1 := by omega
        have below : kMaxGroupDepth + 1 - (depth + 1) = kMaxGroupDepth - depth := by omega
        have scans := @ih (depth + 1) (by omega)
        rw [below] at scans
        rw [if_neg deep, levels, EncodesInner, encodes_eq]
        exact scanGroupLoop_iff (scanGroupEnd_exact frames) scans number p closing rest

theorem scans_outermost (span : Nat) :
    ScansTo (EncodesInner kMaxGroupDepth) fun number =>
      scanGroupEnd span kGroupFrames number 1 := by
  have budget : kGroupFrames + 1 = kMaxGroupDepth + 2 := rfl
  exact scanGroupEnd_iff span budget

theorem skipValue_iff {span : Nat} {found : Tag} {p rest : Cursor} :
    skipValue span found p = .ok rest ↔
      ∃ record bytes, record.tag = found ∧
        EncodesValue (EncodesInner kMaxGroupDepth) record bytes ∧ p = bytes ++ rest :=
  skipValueWith_iff (scans_outermost span)

/-! ## Reading -/

/-- The value read for a record; for a group, the bytes of its body. -/
def Shows (inner : List Record → List Byte → Prop) : Record → Payload → Prop
  | .varint _ value, .varint read => read = value
  | .i64 _ value, .i64 read => read = value
  | .len _ payload, .len read => read = payload
  | .group _ records, .group body => inner records body
  | .i32 _ value, .i32 read => read = value
  | _, _ => False

theorem readGroup_of_encodes {number : Nat} {records : List Record} {body mark : List Byte}
    (encodes : EncodesInner kMaxGroupDepth records body)
    (closes : EncodesTag ⟨number, .egroup⟩ mark) (span : Nat) (rest : Cursor) :
    readGroup span number (body ++ (mark ++ rest)) = .ok (body, rest) := by
  have scanned := (scans_outermost span number (body ++ (mark ++ rest)) _ rest).mpr
    ⟨records, body, mark, encodes, closes, rfl, rfl⟩
  have taken : (body ++ (mark ++ rest)).length - (mark ++ rest).length = body.length := by
    simp only [List.length_append]
    omega
  dsimp only at scanned
  rw [readGroup, scanned, Outcome.ok_bind]
  dsimp only
  rw [taken, byteView, if_pos (by simp), List.take_left]
  rfl

/-- Reading the value of an encoded record gives that value. -/
theorem readValue_of_encodes {inner : List Record → List Byte → Prop}
    (within : ∀ records body, inner records body → EncodesInner kMaxGroupDepth records body)
    {record : Record} {bytes : List Byte} (encodes : EncodesValue inner record bytes) (span : Nat)
    (rest : Cursor) :
    ∃ value, readValue span record.tag (bytes ++ rest) = .ok (value, rest) ∧
      Shows inner record value := by
  cases encodes with
  | @varint number value _ spells =>
      refine ⟨.varint value, ?_, rfl⟩
      simp only [readValue, Record.tag, readVarint_eq, varint_iff.mpr ⟨bytes, spells, rfl⟩]
      rfl
  | @i64 number value _ width spells =>
      refine ⟨.i64 value, ?_, rfl⟩
      simp only [readValue, Record.tag, readFixed64_eq, fixed64_iff.mpr ⟨bytes, width, spells, rfl⟩]
      rfl
  | @i32 number value _ width spells =>
      refine ⟨.i32 value, ?_, rfl⟩
      simp only [readValue, Record.tag, readFixed32_eq, fixed32_iff.mpr ⟨bytes, width, spells, rfl⟩]
      rfl
  | @len number length payload spells =>
      refine ⟨.len payload, ?_, rfl⟩
      simp only [readValue, Record.tag, readLengthDelimited_eq,
        lengthDelimited_iff.mpr ⟨length, spells, rfl⟩]
      rfl
  | @group number records body mark encodes closes =>
      refine ⟨.group body, ?_, encodes⟩
      have read := readGroup_of_encodes (within _ _ encodes) closes span rest
      simp only [readValue, Record.tag, List.append_assoc, read]
      rfl

/-- What a walk hands over for one record: its tag, and the record unless it was skipped. -/
abbrev Yield := Tag × Option Record

/-- The record a value belongs to; the body of a group is read in turn. -/
def recordOf (readInner : Cursor → Outcome WireFail (List Record)) (number : Nat) :
    Payload → Outcome WireFail Record
  | .varint value => .ok (.varint number value)
  | .i64 value => .ok (.i64 number value)
  | .len payload => .ok (.len number payload)
  | .group body => Record.group number <$> readInner body
  | .i32 value => .ok (.i32 number value)

/-- One turn of the walk over a span: `read_tag_or_end`, then the matching `read_*` where the record
is wanted and `skip_value` where it is not. -/
def walkTurn (readInner : Cursor → Outcome WireFail (List Record)) (wanted : Nat → Bool)
    (span : Nat) (yielded : List Yield) (p : Cursor) :
    Outcome WireFail (Turn Byte (List Yield) (List Yield)) := do
  match ← located span p (readTagOrEnd p) with
  | none => .ok (.stop yielded)
  | some (found, q) =>
    if wanted yielded.length then do
      let (value, rest) ← readValue span found q
      let record ← recordOf readInner found.fieldNumber value
      .ok (.next (yielded ++ [(found, some record)]) rest)
    else do
      let rest ← skipValue span found q
      .ok (.next (yielded ++ [(found, none)]) rest)

/-- Every record of a span, groups included; `frames` bounds the nesting. -/
def readRecords : (frames : Nat) → Cursor → Outcome WireFail (List Record)
  | 0, _ => .spin
  | frames + 1, input =>
    List.filterMap Prod.snd <$>
      runLoop (walkTurn (readRecords frames) (fun _ => true) input.length) [] input

/-- The walk over an input, reading the records at the wanted positions and skipping the others. -/
def walk (wanted : Nat → Bool) (input : Cursor) : Outcome WireFail (List Yield) :=
  runLoop (walkTurn (readRecords kGroupFrames) wanted input.length) [] input

/-- What a walk hands over for the records from position `index` on. -/
def yields (wanted : Nat → Bool) : (index : Nat) → List Record → List Yield
  | _, [] => []
  | index, record :: records =>
    (record.tag, if wanted index then some record else none) :: yields wanted (index + 1) records

section Walk

variable {readInner : Cursor → Outcome WireFail (List Record)} {wanted : Nat → Bool} {span : Nat}

theorem skipValue_of_readValue {found : Tag} {p rest : Cursor} {value : Payload}
    (got : readValue span found p = .ok (value, rest)) : skipValue span found p = .ok rest := by
  rw [readValue_eq] at got
  rw [skipValue_eq]
  cases read : payload span found p with
  | error failure => simp [read] at got
  | ok pair =>
      simp only [read, Outcome.ofExcept_ok, Outcome.ok.injEq] at got
      subst got
      rfl

/-- Inversion of a successful turn of the walk. -/
theorem walkTurn_ok {yielded : List Yield} {p : Cursor}
    {decision : Turn Byte (List Yield) (List Yield)}
    (taken : walkTurn readInner wanted span yielded p = .ok decision) :
    (p = [] ∧ decision = .stop yielded) ∨
      ∃ found q rest entry, tagOrEnd p = .ok (some (found, q)) ∧
        skipValue span found q = .ok rest ∧ decision = .next (yielded ++ [entry]) rest := by
  rw [walkTurn, Outcome.bind_eq_ok] at taken
  obtain ⟨found?, read, taken⟩ := taken
  rw [located_eq_ok, readTagOrEnd_eq] at read
  have tagged : tagOrEnd p = .ok found? := by
    cases got : tagOrEnd p with
    | error error => simp [got] at read
    | ok got' => simpa [got] using read
  cases found? with
  | none =>
      cases taken
      exact .inl ⟨tagOrEnd_none tagged, rfl⟩
  | some pair =>
      obtain ⟨found, q⟩ := pair
      right
      dsimp only at taken
      split at taken
      · obtain ⟨⟨value, rest⟩, got, taken⟩ := Outcome.bind_eq_ok.mp taken
        obtain ⟨record, -, taken⟩ := Outcome.bind_eq_ok.mp taken
        cases taken
        exact ⟨found, q, rest, _, tagged, skipValue_of_readValue got, rfl⟩
      · obtain ⟨rest, skipped, taken⟩ := Outcome.bind_eq_ok.mp taken
        cases taken
        exact ⟨found, q, rest, _, tagged, skipped, rfl⟩

theorem walkTurn_consuming : Consuming (walkTurn readInner wanted span) := by
  intro yielded p yielded' p' taken
  rcases walkTurn_ok taken with ⟨-, impossible⟩ | ⟨found, q, rest, entry, read, skipped, same⟩
  · cases impossible
  · cases same
    have shorter := tagOrEnd_length_lt read
    obtain ⟨record, bytes, -, -, rfl⟩ := skipValue_iff.mp skipped
    rw [List.length_append] at shorter
    omega

/-- A walk that reaches the end has passed a record sequence of the format. -/
theorem encodes_of_walk {yielded final : List Yield} {p : Cursor}
    (walked : runLoop (walkTurn readInner wanted span) yielded p = .ok final) :
    ∃ records, Encodes kMaxGroupDepth records p := by
  have consuming := @walkTurn_consuming readInner wanted span
  induction yielded, p using runLoop_induct consuming with
  | step yielded p ih =>
      rw [runLoop_eq consuming] at walked
      cases taken : walkTurn readInner wanted span yielded p with
      | fail error => rw [taken] at walked; cases walked
      | outside => rw [taken] at walked; cases walked
      | spin => rw [taken] at walked; cases walked
      | ok decision =>
          rcases walkTurn_ok taken with ⟨rfl, rfl⟩ | ⟨found, q, rest, entry, read, skipped, rfl⟩
          · exact ⟨[], .nil⟩
          · rw [taken] at walked
            obtain ⟨records, encodes⟩ := ih _ _ taken walked
            obtain ⟨mark, opens, rfl⟩ := tagOrEnd_iff.mp read
            obtain ⟨record, bytes, rfl, value, rfl⟩ := skipValue_iff.mp skipped
            rw [encodes_eq] at encodes ⊢
            exact ⟨record :: records, .cons opens value encodes⟩

theorem recordOf_shows {inner : List Record → List Byte → Prop}
    (readsInner : ∀ records body, inner records body → readInner body = .ok records)
    {record : Record} {value : Payload} (shown : Shows inner record value) :
    recordOf readInner record.tag.fieldNumber value = .ok record := by
  match record, value, shown with
  | .varint _ _, .varint _, rfl => rfl
  | .i64 _ _, .i64 _, rfl => rfl
  | .len _ _, .len _, rfl => rfl
  | .i32 _ _, .i32 _, rfl => rfl
  | .group number records, .group body, encodes =>
      simp only [recordOf, readsInner records body encodes, Record.tag, Outcome.map_eq,
        Outcome.ok_bind]

/-- The walk over an encoded record sequence hands over its records. -/
theorem walk_of_encodes (wanted : Nat → Bool) (span : Nat)
    {inner : List Record → List Byte → Prop}
    (within : ∀ records body, inner records body → EncodesInner kMaxGroupDepth records body)
    (readsInner : ∀ records body, inner records body → readInner body = .ok records)
    {records : List Record} {p : Cursor} (encodes : EncodesEach inner records p)
    (yielded : List Yield) :
    runLoop (walkTurn readInner wanted span) yielded p =
      .ok (yielded ++ yields wanted yielded.length records) := by
  have consuming := @walkTurn_consuming readInner wanted span
  induction encodes generalizing yielded with
  | nil =>
      rw [runLoop_eq consuming]
      simp [walkTurn, readTagOrEnd, located, yields]
  | @cons record records mark bytes rest opens value later ih =>
      have read := tagOrEnd_iff.mpr ⟨mark, opens, @rfl _ (mark ++ (bytes ++ rest))⟩
      have turn : walkTurn readInner wanted span yielded (mark ++ (bytes ++ rest)) =
          .ok (.next (yielded ++ [(record.tag,
            if wanted yielded.length then some record else none)]) rest) := by
        obtain ⟨payload, got, shown⟩ := readValue_of_encodes within value span rest
        simp only [walkTurn, readTagOrEnd_eq, read, located, Outcome.ofExcept_ok,
          Outcome.mapError_ok, Outcome.ok_bind]
        split
        · simp only [got, Outcome.ok_bind, recordOf_shows readsInner shown]
        · simp only [skipValue_of_readValue got, Outcome.ok_bind]
      rw [runLoop_eq consuming, turn]
      dsimp only
      rw [ih, yields, List.length_append, List.length_singleton, List.append_assoc,
        List.singleton_append]

end Walk

theorem EncodesEach.mono {inner outer : List Record → List Byte → Prop}
    (wider : ∀ records body, inner records body → outer records body) {records : List Record}
    {bytes : List Byte} (encodes : EncodesEach inner records bytes) :
    EncodesEach outer records bytes := by
  induction encodes with
  | nil => exact .nil
  | cons opens value later ih =>
      refine .cons opens ?_ ih
      cases value with
      | varint spells => exact .varint spells
      | i64 width spells => exact .i64 width spells
      | len spells => exact .len spells
      | group encodes closes => exact .group (wider _ _ encodes) closes
      | i32 width spells => exact .i32 width spells

theorem encodes_mono {levels levels' : Nat} (more : levels ≤ levels') {records : List Record}
    {bytes : List Byte} (encodes : Encodes levels records bytes) :
    Encodes levels' records bytes := by
  induction levels generalizing levels' records bytes with
  | zero =>
      rw [encodes_eq levels']
      exact encodes.mono fun _ _ impossible => impossible.elim
  | succ levels ih =>
      obtain ⟨levels', rfl⟩ : ∃ l, levels' = l + 1 := ⟨levels' - 1, by omega⟩
      exact encodes.mono fun _ _ inside => ih (by omega) inside

theorem encodesInner_mono {levels levels' : Nat} (more : levels ≤ levels')
    {records : List Record} {bytes : List Byte} (encodes : EncodesInner levels records bytes) :
    EncodesInner levels' records bytes := by
  cases levels with
  | zero => exact encodes.elim
  | succ levels =>
      obtain ⟨levels', rfl⟩ : ∃ l, levels' = l + 1 := ⟨levels' - 1, by omega⟩
      exact encodes_mono (by omega) encodes

theorem filterMap_yields (index : Nat) (records : List Record) :
    (yields (fun _ => true) index records).filterMap Prod.snd = records := by
  induction records generalizing index with
  | nil => rfl
  | cons record records ih => simp [yields, ih]

theorem readRecords_step {levels frames : Nat} (shallow : levels ≤ kMaxGroupDepth)
    (readsInner : ∀ records body, EncodesInner levels records body →
      readRecords frames body = .ok records) {records : List Record} {bytes : List Byte}
    (encodes : Encodes levels records bytes) : readRecords (frames + 1) bytes = .ok records := by
  rw [encodes_eq] at encodes
  have walked := walk_of_encodes (fun _ => true) bytes.length
    (fun _ _ inside => encodesInner_mono shallow inside) readsInner encodes []
  rw [readRecords, walked, Outcome.map_eq, Outcome.ok_bind, List.nil_append, List.length_nil,
    filterMap_yields]

/-- Reading an encoded sequence with enough frames gives its records. -/
theorem readRecords_of_encodes {levels frames : Nat} (shallow : levels ≤ kMaxGroupDepth)
    (enough : levels < frames) {records : List Record} {bytes : List Byte}
    (encodes : Encodes levels records bytes) : readRecords frames bytes = .ok records := by
  induction levels generalizing frames records bytes with
  | zero =>
      obtain ⟨frames, rfl⟩ : ∃ f, frames = f + 1 := ⟨frames - 1, by omega⟩
      exact readRecords_step shallow (fun _ _ impossible => impossible.elim) encodes
  | succ levels ih =>
      obtain ⟨frames, rfl⟩ : ∃ f, frames = f + 1 := ⟨frames - 1, by omega⟩
      exact readRecords_step shallow (fun _ _ inside => ih (by omega) (by omega) inside) encodes

theorem readInner_of_encodes {records : List Record} {body : List Byte}
    (inside : EncodesInner kMaxGroupDepth records body) :
    readRecords kGroupFrames body = .ok records := by
  have shallow : Encodes (kMaxGroupDepth - 1) records body := inside
  exact readRecords_of_encodes (by decide) (by decide) shallow

/-- The walk of an encoded sequence reads or skips every record to the end. -/
theorem walk_encoded (wanted : Nat → Bool) {records : List Record} {input : List Byte}
    (encodes : Encodes kMaxGroupDepth records input) :
    walk wanted input = .ok (yields wanted 0 records) := by
  rw [encodes_eq] at encodes
  exact walk_of_encodes wanted input.length (fun _ _ inside => inside)
    (fun _ _ inside => readInner_of_encodes inside) encodes []

/-- The walk reaches the end of exactly the strings of the format, whichever records it skips, and
hands over exactly the records they encode. -/
theorem walk_iff_encodes (wanted : Nat → Bool) (input : List Byte) (yielded : List Yield) :
    walk wanted input = .ok yielded ↔
      ∃ records, Encodes kMaxGroupDepth records input ∧ yielded = yields wanted 0 records := by
  constructor
  · intro walked
    obtain ⟨records, encodes⟩ := encodes_of_walk walked
    have again := walk_encoded wanted encodes
    rw [walked] at again
    cases again
    exact ⟨records, encodes, rfl⟩
  · rintro ⟨records, encodes, rfl⟩
    exact walk_encoded wanted encodes

end RapidProto
