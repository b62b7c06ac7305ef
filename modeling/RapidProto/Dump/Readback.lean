import RapidProto.Dump.Generated

/-!
# Reading the written values back

The texts of integers, strings and bytes determine what was written.  An integer is formed in a
buffer of characters from the back, in the unsigned type of its width; what stands there is the
decimal number.  A string body keeps to the escapes of `write_json_escaped`, and a reader of JSON
strings restores its bytes.
-/

namespace RapidProto
namespace Dump

open Front (Text byte text within isDecimalDigit appendUtf8)

/-! ## Integers -/

/-- A standard integral type. -/
structure IntegralType where
  width : Nat
  signed : Bool
  standard : width ∈ [8, 16, 32, 64]

/-- The characters of the buffer of `write_int`. -/
def kMaxChars : Nat := 24

/-- The radix of `write_int`. -/
def kRadix (width : Nat) : BitVec width := BitVec.ofNat width 10

/-- `chars.at(index) = c`, which throws outside the buffer. -/
def storeAt (chars : Text) (index : Nat) (c : Byte) : Outcome Unit Text :=
  if index < chars.length then .ok (chars.set index c) else .outside

/-- The digit loop of `write_int`; a cursor that goes below zero wraps around. -/
def digitTurns {width : Nat} : (cursor : Nat) → (magnitude : BitVec width) → (chars : Text) →
    Outcome Unit (Nat × Text)
  | 0, _, _ => .outside
  | cursor + 1, magnitude, chars => do
    let chars ← storeAt chars cursor (byte '0' + (magnitude % kRadix width).setWidth 8)
    let magnitude := magnitude / kRadix width
    if magnitude = BitVec.ofNat width 0 then .ok (cursor, chars)
    else digitTurns cursor magnitude chars

/-- The sign in front of the digits. -/
def putSign (negative : Bool) (cursor : Nat) (chars : Text) : Outcome Unit (Nat × Text) :=
  if negative then
    match cursor with
    | 0 => .outside
    | cursor + 1 => do
      let chars ← storeAt chars cursor (byte '-')
      .ok (cursor, chars)
  else .ok (cursor, chars)

namespace IntegralType

variable (type : IntegralType)

/-- The number that a bit pattern of the type stands for. -/
def number (value : BitVec type.width) : Int := if type.signed then value.toInt else value.toNat

/-- `negative`. -/
def negative (value : BitVec type.width) : Bool :=
  type.signed && value.slt (BitVec.ofNat type.width 0)

/-- `magnitude`: the value is negated in the unsigned type. -/
def magnitude (value : BitVec type.width) : BitVec type.width :=
  if type.negative value then BitVec.ofNat type.width 0 - value else value

/-- `write_int` at the type. -/
def writeInt (value : BitVec type.width) : Outcome Unit Text := do
  let (cursor, chars) ←
    digitTurns kMaxChars (type.magnitude value) (List.replicate kMaxChars 0)
  let (cursor, chars) ← putSign (type.negative value) cursor chars
  if cursor < chars.length then .ok (chars.drop cursor) else .outside

end IntegralType

/-- Read a natural number of JSON: digits without a leading zero. -/
def readNatural (digits : Text) : Option Nat :=
  if digits = [] ∨ digits.any (fun c => !isDecimalDigit c) ∨
      (digits.head? = some (byte '0') ∧ 1 < digits.length) then none
  else some (digits.foldl (fun n c => n * 10 + (c.toNat - 48)) 0)

/-- Read an integer of JSON. -/
def readInteger : Text → Option Int
  | [] => none
  | c :: rest =>
      if c = byte '-' then (readNatural rest).map fun n : Nat => -(n : Int)
      else (readNatural (c :: rest)).map Int.ofNat

/-- One turn stores the last digit in front of those already there. -/
theorem storeAt_drop {chars : Text} {cursor : Nat} (room : cursor < chars.length) (c : Byte) :
    ∃ chars', storeAt chars cursor c = .ok chars' ∧ chars'.length = chars.length ∧
      chars'.drop cursor = c :: chars.drop (cursor + 1) := by
  refine ⟨chars.set cursor c, if_pos room, List.length_set, ?_⟩
  rw [List.drop_eq_getElem_cons (by rwa [List.length_set]), List.getElem_set_self,
    List.drop_set_of_lt (Nat.lt_succ_self cursor)]

/-- The loop leaves the digits of `digitLoop` at the end of the buffer, in at most `places`
characters. -/
theorem digitTurns_spec {width : Nat} (wide : 10 < 2 ^ width) (places cursor : Nat)
    (magnitude : BitVec width) (chars : Text) (fits : magnitude.toNat < 10 ^ (places + 1))
    (enough : places < cursor) (room : cursor ≤ chars.length) :
    ∃ cursor' chars', digitTurns cursor magnitude chars = .ok (cursor', chars') ∧
      cursor ≤ cursor' + places + 1 ∧ cursor' < cursor ∧ chars'.length = chars.length ∧
      chars'.drop cursor' = digitLoop cursor magnitude.toNat (chars.drop cursor) := by
  induction cursor generalizing places magnitude chars with
  | zero => omega
  | succ cursor ih =>
      obtain ⟨chars', stored, length, digits⟩ := storeAt_drop (c :=
        byte '0' + (magnitude % kRadix width).setWidth 8) (show cursor < chars.length by omega)
      have ten : (kRadix width).toNat = 10 := by
        rw [kRadix, BitVec.toNat_ofNat, Nat.mod_eq_of_lt wide]
      have digit : (magnitude % kRadix width).setWidth 8 =
          BitVec.ofNat 8 (magnitude.toNat % 10) := by
        apply BitVec.eq_of_toNat_eq
        rw [BitVec.toNat_setWidth, BitVec.toNat_umod, ten, BitVec.toNat_ofNat]
      have quotient : (magnitude / kRadix width).toNat = magnitude.toNat / 10 := by
        rw [BitVec.toNat_udiv, ten]
      have last : magnitude / kRadix width = BitVec.ofNat width 0 ↔
          magnitude.toNat / 10 = 0 := by
        rw [← BitVec.toNat_inj, quotient, BitVec.toNat_zero]
      rw [digit] at digits stored
      simp only [digitTurns, digit, stored, Outcome.ok_bind, last]
      rw [digitLoop]
      split_ifs with done
      · exact ⟨cursor, chars', rfl, by omega, by omega, length, digits⟩
      · cases places with
        | zero => omega
        | succ places =>
            obtain ⟨cursor', chars'', turned, above, below, length', digits'⟩ :=
              ih places (magnitude / kRadix width) chars'
                (by rw [quotient]; rw [Nat.pow_succ] at fits; omega) (by omega) (by omega)
            exact ⟨cursor', chars'', turned, by omega, by omega, by omega,
              by rw [digits', quotient, digits]⟩

namespace IntegralType

variable (type : IntegralType)

theorem width_le : type.width ≤ 64 := by
  have standard := type.standard
  simp only [List.mem_cons, List.not_mem_nil, or_false] at standard
  omega

theorem wide : 10 < 2 ^ type.width := by
  have standard := type.standard
  simp only [List.mem_cons, List.not_mem_nil, or_false] at standard
  rcases standard with is | is | is | is <;> rw [is] <;> decide

theorem negative_iff (value : BitVec type.width) :
    type.negative value = true ↔ type.number value < 0 := by
  rw [negative, number]
  cases type.signed with
  | true => simp [BitVec.slt]
  | false => simp

/-- The negated pattern stands for the absolute value, that of the most negative number included. -/
theorem magnitude_toNat (value : BitVec type.width) :
    (type.magnitude value).toNat = (type.number value).natAbs := by
  have small := value.isLt
  have sign := type.negative_iff value
  rw [magnitude]
  cases is : type.negative value with
  | true =>
      have below := sign.mp is
      have signed : type.signed = true := (Bool.and_eq_true_iff.mp is).1
      rw [number, if_pos signed, BitVec.toInt_eq_toNat_cond] at below ⊢
      simp only [if_true, BitVec.toNat_sub, BitVec.toNat_ofNat, Nat.zero_mod, Nat.add_zero]
      split_ifs at below ⊢ with half
      · omega
      · rw [Nat.mod_eq_of_lt (by omega)]
        omega
  | false =>
      have above : ¬ type.number value < 0 := sign.not.mp (by simp [is])
      simp only [Bool.false_eq_true, if_false]
      rw [number] at above ⊢
      split_ifs at above ⊢ with signed
      · rw [BitVec.toInt_eq_toNat_cond] at above ⊢
        split_ifs at above ⊢
        · omega
        · omega
      · omega

theorem natAbs_number_lt (value : BitVec type.width) :
    (type.number value).natAbs < 10 ^ 20 := by
  rw [← magnitude_toNat]
  calc (type.magnitude value).toNat < 2 ^ type.width := (type.magnitude value).isLt
    _ ≤ 2 ^ 64 := Nat.pow_le_pow_right (by decide) type.width_le
    _ < 10 ^ 20 := by decide

/-- The buffer is large enough for every value, and what it ends up with is the decimal number. -/
theorem writeInt_eq (value : BitVec type.width) :
    type.writeInt value = .ok (Dump.writeInt (type.number value)) := by
  obtain ⟨cursor, chars, turned, above, below, length, digits⟩ :=
    digitTurns_spec type.wide 19 kMaxChars (type.magnitude value) (List.replicate kMaxChars 0)
      (by rw [magnitude_toNat]; exact type.natAbs_number_lt value) (by decide) (by decide)
  rw [show (List.replicate kMaxChars (0 : Byte)).drop kMaxChars = [] from rfl,
    magnitude_toNat] at digits
  rw [List.length_replicate] at length
  have sign := type.negative_iff value
  simp only [writeInt, turned, Outcome.ok_bind, putSign, Dump.writeInt]
  rw [kMaxChars] at above below length digits
  cases is : type.negative value with
  | true =>
      obtain ⟨cursor, rfl⟩ : ∃ before, cursor = before + 1 := ⟨cursor - 1, by omega⟩
      obtain ⟨chars', stored, length', signed⟩ := storeAt_drop (c := byte '-')
        (show cursor < chars.length by omega)
      simp only [if_true, stored, Outcome.ok_bind, if_pos (sign.mp is),
        if_pos (show cursor < chars'.length by omega)]
      rw [signed, digits]
  | false =>
      simp only [Bool.false_eq_true, if_false, Outcome.ok_bind, if_neg (sign.not.mp (by simp [is])),
        if_pos (show cursor < chars.length by omega)]
      rw [digits]

end IntegralType

/-! ## Reading an integer -/

theorem digit_toNat : ∀ d < 10, (byte '0' + BitVec.ofNat 8 d).toNat - 48 = d := by decide

theorem digit_isDecimalDigit : ∀ d < 10, isDecimalDigit (byte '0' + BitVec.ofNat 8 d) = true := by
  decide

theorem digit_ne_zero : ∀ d < 10, d ≠ 0 → byte '0' + BitVec.ofNat 8 d ≠ byte '0' := by decide

/-- A number that does not end here leaves room for the rest of it. -/
theorem room_of_not_done {room magnitude : Nat} (fits : magnitude < 10 ^ (room + 1))
    (more : ¬ magnitude / 10 = 0) : room ≠ 0 ∧ magnitude / 10 < 10 ^ room := by
  rw [Nat.pow_succ] at fits
  refine ⟨?_, by omega⟩
  rintro rfl
  omega

/-- The digits stand for the number, in front of what has been read behind them. -/
theorem foldl_digitLoop {room magnitude : Nat} (positive : room ≠ 0) (fits : magnitude < 10 ^ room)
    (chars : Text) :
    (digitLoop room magnitude chars).foldl (fun n c => n * 10 + (c.toNat - 48)) 0 =
      chars.foldl (fun n c => n * 10 + (c.toNat - 48)) magnitude := by
  fun_induction digitLoop room magnitude chars with
  | case1 => exact absurd rfl positive
  | case2 room magnitude chars chars' done =>
      rw [List.foldl_cons, digit_toNat _ (Nat.mod_lt _ (by decide))]
      congr 1
      omega
  | case3 room magnitude chars chars' more ih =>
      obtain ⟨some', fits'⟩ := room_of_not_done fits more
      rw [ih some' fits', List.foldl_cons, digit_toNat _ (Nat.mod_lt _ (by decide))]
      congr 1
      omega

theorem digitLoop_plain (room magnitude : Nat) {chars : Text}
    (plain : ∀ c ∈ chars, isDecimalDigit c = true) :
    ∀ c ∈ digitLoop room magnitude chars, isDecimalDigit c = true := by
  have longer : ∀ magnitude (chars : Text), (∀ c ∈ chars, isDecimalDigit c = true) →
      ∀ c ∈ (byte '0' + BitVec.ofNat 8 (magnitude % 10)) :: chars, isDecimalDigit c = true := by
    rintro magnitude chars plain c (_ | ⟨_, met⟩)
    · exact digit_isDecimalDigit _ (Nat.mod_lt _ (by decide))
    · exact plain c met
  fun_induction digitLoop room magnitude chars with
  | case1 => exact plain
  | case2 room magnitude chars chars' done => exact longer magnitude chars plain
  | case3 room magnitude chars chars' more ih => exact ih (longer magnitude chars plain)

/-- The digits do not begin with a zero, unless the number is zero. -/
theorem digitLoop_head {room magnitude : Nat} (positive : room ≠ 0) (fits : magnitude < 10 ^ room)
    (chars : Text) :
    ∃ first rest, digitLoop room magnitude chars = first :: rest ∧
      (first = byte '0' → magnitude = 0 ∧ rest = chars) := by
  fun_induction digitLoop room magnitude chars with
  | case1 => exact absurd rfl positive
  | case2 room magnitude chars chars' done =>
      refine ⟨_, _, rfl, fun zero => ⟨?_, rfl⟩⟩
      by_contra positive
      exact digit_ne_zero _ (Nat.mod_lt _ (by decide)) (by omega) zero
  | case3 room magnitude chars chars' more ih =>
      obtain ⟨some', fits'⟩ := room_of_not_done fits more
      obtain ⟨first, rest, begins, zero⟩ := ih some' fits'
      exact ⟨first, rest, begins, fun isZero => absurd (zero isZero).1 more⟩

theorem readNatural_digitLoop {room magnitude : Nat} (positive : room ≠ 0)
    (fits : magnitude < 10 ^ room) :
    readNatural (digitLoop room magnitude []) = .some magnitude := by
  have value := foldl_digitLoop positive fits []
  have plain := digitLoop_plain room magnitude (List.forall_mem_nil _)
  obtain ⟨first, rest, begins, zero⟩ := digitLoop_head positive fits []
  rw [begins] at value plain ⊢
  rw [readNatural, if_neg, value, List.foldl_nil]
  rintro (empty | strange | ⟨isZero, long⟩)
  · cases empty
  · obtain ⟨c, met, other⟩ := List.any_eq_true.mp strange
    simp [plain c met] at other
  · rw [(zero (Option.some.inj isZero)).2] at long
    exact Nat.lt_irrefl 1 long

/-- The text of an integer reads as that integer. -/
theorem readInteger_writeInt {value : Int} (fits : value.natAbs < 10 ^ kMaxChars) :
    readInteger (writeInt value) = some value := by
  have digits := readNatural_digitLoop (by decide) fits
  obtain ⟨first, rest, begins, -⟩ := digitLoop_head (by decide) fits []
  have plain := digitLoop_plain kMaxChars value.natAbs (List.forall_mem_nil _)
  rw [kMaxChars] at digits begins plain
  rw [writeInt]
  split_ifs with negative
  · rw [readInteger, if_pos rfl, digits, Option.map_some]
    congr 1
    omega
  · rw [begins] at digits plain ⊢
    have notMinus : first ≠ byte '-' := by
      rintro rfl
      exact absurd (plain _ List.mem_cons_self) (by decide)
    rw [readInteger, if_neg notMinus, digits, Option.map_some]
    congr 1
    exact Int.natAbs_of_nonneg (Int.not_lt.mp negative)

/-! ## Strings -/

/-- The escapes of JSON but for the numeric one, with what they stand for. -/
def jsonEscapes : List (Byte × Byte) :=
  [(byte '"', byte '"'), (byte '\\', byte '\\'), (byte '/', byte '/'), (byte 'b', 0x08),
    (byte 'f', 0x0C), (byte 'n', 0x0A), (byte 'r', 0x0D), (byte 't', 0x09)]

/-- The value of a hex digit. -/
def hexNumber (c : Byte) : Option Nat :=
  if isDecimalDigit c then some (c.toNat - 48)
  else if within 'a' 'f' c then some (c.toNat - 87)
  else if within 'A' 'F' c then some (c.toNat - 55)
  else none

/-- The value of four hex digits. -/
def codeUnit (a b c d : Byte) : Option Nat := do
  .some (((← hexNumber a) * 16 + (← hexNumber b)) * 256 + (← hexNumber c) * 16 + (← hexNumber d))

/-- The bytes of a code point. -/
def utf8 (codePoint : Nat) : Text := appendUtf8 [] (BitVec.ofNat 32 codePoint)

/-- The bytes that the body of a JSON string stands for.  Two escaped surrogates are one code point;
a quote, a control byte or a backslash that starts no escape is no part of a body. -/
def unescape : Text → Option Text
  | [] => some []
  | c :: rest =>
      if c = byte '\\' then
        match rest with
        | [] => none
        | kind :: rest =>
            if kind = byte 'u' then
              match rest with
              | a :: b :: c :: d :: rest =>
                  match codeUnit a b c d with
                  | none => none
                  | some high =>
                      if 0xD800 ≤ high ∧ high < 0xDC00 then
                        match rest with
                        | backslash :: u :: a :: b :: c :: d :: rest =>
                            match codeUnit a b c d with
                            | none => none
                            | some low =>
                                if backslash = byte '\\' ∧ u = byte 'u' ∧ 0xDC00 ≤ low ∧
                                    low < 0xE000 then
                                  (unescape rest).map
                                    (utf8 (0x10000 + (high - 0xD800) * 0x400 + (low - 0xDC00)) ++ ·)
                                else none
                        | _ => none
                      else if 0xDC00 ≤ high ∧ high < 0xE000 then none
                      else (unescape rest).map (utf8 high ++ ·)
              | _ => none
            else
              match jsonEscapes.lookup kind with
              | none => none
              | some value => (unescape rest).map (value :: ·)
      else if c = byte '"' ∨ c < 0x20 then none
      else (unescape rest).map (c :: ·)

/-- What stands behind the backslash in the escapes of `write_json_escaped`. -/
def escapeCodes : List Text :=
  [[byte '"'], [byte '\\'], [byte 'n'], [byte 'r'], [byte 't']] ++
    ((List.range 0x20).filter fun n => n ∉ [0x09, 0x0A, 0x0D]).map fun n =>
      text "u00" ++ hexPair (BitVec.ofNat 8 n)

/-- A text in which every quote and every backslash belongs to an escape of `write_json_escaped` and
every other byte is printable. -/
inductive Escaped : Text → Prop
  | nil : Escaped []
  | plain {c : Byte} {rest : Text} (notQuote : c ≠ byte '"') (notBackslash : c ≠ byte '\\')
      (printable : 0x20 ≤ c) (behind : Escaped rest) : Escaped (c :: rest)
  | escape {code rest : Text} (listed : code ∈ escapeCodes) (behind : Escaped rest) :
      Escaped (byte '\\' :: code ++ rest)

/-- A control byte is written numerically, unless it has an escape of its own. -/
theorem escapeByte_control {c : Byte} (control : c < 0x20)
    (other : c ∉ [byte '\n', byte '\r', byte '\t']) :
    escapeByte c = byte '\\' :: (text "u00" ++ hexPair c) := by
  simp only [List.mem_cons, List.not_mem_nil, or_false, not_or] at other
  obtain ⟨notNewline, notCarriage, notTab⟩ := other
  have notQuote : c ≠ byte '"' := by
    rintro rfl
    exact absurd control (by decide)
  have notBackslash : c ≠ byte '\\' := by
    rintro rfl
    exact absurd control (by decide)
  rw [escapeByte, if_neg notQuote, if_neg notBackslash, if_neg notNewline, if_neg notCarriage,
    if_neg notTab, if_pos control]
  rfl

theorem escapeByte_plain {c : Byte} (notQuote : c ≠ byte '"') (notBackslash : c ≠ byte '\\')
    (printable : 0x20 ≤ c) : escapeByte c = [c] := by
  have other : ∀ control ∈ [byte '\n', byte '\r', byte '\t'], c ≠ control := by
    rintro control listed rfl
    have below : ∀ control ∈ [byte '\n', byte '\r', byte '\t'], ¬ 0x20 ≤ control := by decide
    exact below c listed printable
  rw [escapeByte, if_neg notQuote, if_neg notBackslash, if_neg (other _ (by decide)),
    if_neg (other _ (by decide)), if_neg (other _ (by decide)),
    if_neg (BitVec.not_lt.mpr printable)]

/-- The escapes of the bytes that have one of their own. -/
theorem escapeByte_named : ∀ c ∈ [byte '"', byte '\\', byte '\n', byte '\r', byte '\t'],
    ∃ code ∈ [[byte '"'], [byte '\\'], [byte 'n'], [byte 'r'], [byte 't']],
      escapeByte c = byte '\\' :: code := by
  decide

/-- Each byte is written as itself or as one of the escapes. -/
theorem escapeByte_cases (c : Byte) :
    (escapeByte c = [c] ∧ c ≠ byte '"' ∧ c ≠ byte '\\' ∧ 0x20 ≤ c) ∨
      ∃ code ∈ escapeCodes, escapeByte c = byte '\\' :: code := by
  by_cases named : c ∈ [byte '"', byte '\\', byte '\n', byte '\r', byte '\t']
  · obtain ⟨code, listed, same⟩ := escapeByte_named c named
    exact .inr ⟨code, List.mem_append_left _ listed, same⟩
  have notQuote := List.ne_of_not_mem_cons named
  have others := List.not_mem_of_not_mem_cons named
  have notBackslash := List.ne_of_not_mem_cons others
  by_cases control : c < 0x20
  · refine .inr ⟨_, List.mem_append_right _ ?_,
      escapeByte_control control (List.not_mem_of_not_mem_cons others)⟩
    have same : BitVec.ofNat 8 c.toNat = c := by
      rw [BitVec.ofNat_toNat, BitVec.setWidth_eq]
    have notNamed : c.toNat ∉ [0x09, 0x0A, 0x0D] := by
      intro listed
      have ofOwn : ∀ n ∈ [0x09, 0x0A, 0x0D],
          BitVec.ofNat 8 n ∈ [byte '\n', byte '\r', byte '\t'] := by
        decide
      have own := ofOwn c.toNat listed
      rw [same] at own
      exact List.not_mem_of_not_mem_cons others own
    exact List.mem_map.mpr ⟨c.toNat,
      List.mem_filter.mpr ⟨List.mem_range.mpr control, decide_eq_true notNamed⟩, by rw [same]⟩
  · have printable := BitVec.not_lt.mp control
    exact .inl ⟨escapeByte_plain notQuote notBackslash printable, notQuote, notBackslash, printable⟩

/-- Every listed escape is that of a byte. -/
theorem escapeByte_of_code {code : Text} (listed : code ∈ escapeCodes) :
    ∃ c, escapeByte c = byte '\\' :: code := by
  rcases List.mem_append.mp listed with simple | numeric
  · have named : ∀ code ∈ [[byte '"'], [byte '\\'], [byte 'n'], [byte 'r'], [byte 't']],
        ∃ c ∈ [byte '"', byte '\\', byte '\n', byte '\r', byte '\t'],
          escapeByte c = byte '\\' :: code := by
      decide
    obtain ⟨c, -, same⟩ := named code simple
    exact ⟨c, same⟩
  · obtain ⟨n, kept, rfl⟩ := List.mem_map.mp numeric
    obtain ⟨small, other⟩ := List.mem_filter.mp kept
    have controls : ∀ n < 0x20, n ∉ [0x09, 0x0A, 0x0D] → BitVec.ofNat 8 n < 0x20 ∧
        BitVec.ofNat 8 n ∉ [byte '\n', byte '\r', byte '\t'] := by
      decide
    obtain ⟨control, other⟩ := controls n (List.mem_range.mp small) (of_decide_eq_true other)
    exact ⟨_, escapeByte_control control other⟩

theorem escaped_writeJsonEscaped (bytes : Text) : Escaped (writeJsonEscaped bytes) := by
  induction bytes with
  | nil => exact .nil
  | cons c bytes ih =>
      rw [writeJsonEscaped, List.flatMap_cons]
      rcases escapeByte_cases c with ⟨same, notQuote, notBackslash, printable⟩ | listed
      · rw [same]
        exact .plain notQuote notBackslash printable ih
      · obtain ⟨code, listed, same⟩ := listed
        rw [same]
        exact .escape listed ih

/-- The digits of a byte are those of its quotient and its remainder. -/
theorem hexPair_eq (c : Byte) :
    hexPair c = [hexDigit (BitVec.ofNat 8 (c.toNat / 16)),
      hexDigit (BitVec.ofNat 8 (c.toNat % 16))] := by
  have small := c.isLt
  have high : c >>> 4 = BitVec.ofNat 8 (c.toNat / 16) := by
    apply BitVec.eq_of_toNat_eq
    rw [BitVec.toNat_ushiftRight, Nat.shiftRight_eq_div_pow, BitVec.toNat_ofNat,
      Nat.mod_eq_of_lt (by omega)]
  have low : c &&& 0xF = BitVec.ofNat 8 (c.toNat % 16) := by
    apply BitVec.eq_of_toNat_eq
    rw [BitVec.toNat_and, BitVec.toNat_ofNat, Nat.mod_eq_of_lt (by omega)]
    exact Nat.and_two_pow_sub_one_eq_mod c.toNat 4
  rw [hexPair, high, low]

theorem hexDigit_printable : ∀ n < 16, 0x20 ≤ hexDigit (BitVec.ofNat 8 n) := by decide

theorem hexPair_printable (c : Byte) : ∀ d ∈ hexPair c, 0x20 ≤ d := by
  have small := c.isLt
  rw [hexPair_eq]
  exact List.forall_mem_cons.mpr ⟨hexDigit_printable _ (by omega),
    List.forall_mem_singleton.mpr (hexDigit_printable _ (by omega))⟩

/-- No byte below 0x20 is written. -/
theorem Escaped.printable {body : Text} (escaped : Escaped body) : ∀ c ∈ body, 0x20 ≤ c := by
  induction escaped with
  | nil => exact nofun
  | plain _ _ printable _ ih => exact List.forall_mem_cons.mpr ⟨printable, ih⟩
  | @escape code rest listed _ ih =>
      have printable : ∀ c ∈ code, 0x20 ≤ c := by
        rcases List.mem_append.mp listed with simple | numeric
        · have named : ∀ code ∈ [[byte '"'], [byte '\\'], [byte 'n'], [byte 'r'], [byte 't']],
              ∀ c ∈ code, 0x20 ≤ c := by
            decide
          exact named code simple
        · obtain ⟨n, -, rfl⟩ := List.mem_map.mp numeric
          exact List.forall_mem_append.mpr ⟨by decide, hexPair_printable _⟩
      exact List.forall_mem_cons.mpr ⟨by decide, List.forall_mem_append.mpr ⟨printable, ih⟩⟩

/-- The two digits of a byte read as its quotient and its remainder. -/
theorem hexPair_reads (c : Byte) :
    ∃ high low, hexPair c = [high, low] ∧ hexNumber high = some (c.toNat / 16) ∧
      hexNumber low = some (c.toNat % 16) := by
  have digits : ∀ n < 16, hexNumber (hexDigit (BitVec.ofNat 8 n)) = some n := by decide
  have small := c.isLt
  exact ⟨_, _, hexPair_eq c, digits _ (by omega), digits _ (by omega)⟩

theorem codeUnit_pair {high low : Byte} {n : Nat} (isHigh : hexNumber high = some (n / 16))
    (isLow : hexNumber low = some (n % 16)) :
    codeUnit (byte '0') (byte '0') high low = some n := by
  have zero : hexNumber (byte '0') = some 0 := by decide
  have joined : n / 16 * 16 + n % 16 = n := by omega
  rw [codeUnit, zero, isHigh, isLow]
  simp [joined]

/-- Below 0x80 a code point is a byte. -/
theorem utf8_small {c : Byte} (small : c.toNat < 0x80) : utf8 c.toNat = [c] := by
  have point : (BitVec.ofNat 32 c.toNat).toNat = c.toNat := by
    rw [BitVec.toNat_ofNat, Nat.mod_eq_of_lt (by omega)]
  have inside : BitVec.ofNat 32 c.toNat ≤ 0x7F#32 := by
    rw [BitVec.le_def, point]
    exact Nat.le_of_lt_succ small
  have kept : (BitVec.ofNat 32 c.toNat &&& 0xFF#32).setWidth 8 = c := by
    apply BitVec.eq_of_toNat_eq
    rw [BitVec.toNat_setWidth, BitVec.toNat_and, point]
    calc (c.toNat &&& 2 ^ 8 - 1) % 2 ^ 8 = c.toNat % 2 ^ 8 % 2 ^ 8 := by
          rw [Nat.and_two_pow_sub_one_eq_mod]
      _ = c.toNat := by omega
  rw [utf8, appendUtf8, if_pos inside]
  exact congrArg (fun last => [last]) kept

theorem unescape_plain {c : Byte} (notQuote : c ≠ byte '"') (notBackslash : c ≠ byte '\\')
    (printable : 0x20 ≤ c) (rest : Text) :
    unescape (c :: rest) = (unescape rest).map (c :: ·) := by
  have inside : ¬ (c = byte '"' ∨ c < 0x20) := by
    rintro (isQuote | control)
    · exact notQuote isQuote
    · exact BitVec.not_lt.mpr printable control
  rw [unescape.eq_def]
  simp only [if_neg notBackslash, if_neg inside]

theorem unescape_simple {kind value : Byte} (notUnit : kind ≠ byte 'u')
    (found : jsonEscapes.lookup kind = some value) (rest : Text) :
    unescape (byte '\\' :: kind :: rest) = (unescape rest).map (value :: ·) := by
  rw [unescape.eq_def]
  simp only [if_true, if_neg notUnit, found]

theorem unescape_unit {a b c d : Byte} {unit : Nat} (is : codeUnit a b c d = some unit)
    (small : unit < 0xD800) (rest : Text) :
    unescape (byte '\\' :: byte 'u' :: a :: b :: c :: d :: rest) =
      (unescape rest).map (utf8 unit ++ ·) := by
  rw [unescape.eq_def]
  simp only [if_true, is, if_neg (show ¬ (0xD800 ≤ unit ∧ unit < 0xDC00) by omega),
    if_neg (show ¬ (0xDC00 ≤ unit ∧ unit < 0xE000) by omega)]

/-- What is written for a byte reads as that byte. -/
theorem unescape_escapeByte (c : Byte) (rest : Text) :
    unescape (escapeByte c ++ rest) = (unescape rest).map (c :: ·) := by
  rw [escapeByte]
  split_ifs with quote backslash newline carriage tab control
  · subst quote
    exact unescape_simple (by decide) rfl rest
  · subst backslash
    exact unescape_simple (by decide) rfl rest
  · subst newline
    exact unescape_simple (by decide) rfl rest
  · subst carriage
    exact unescape_simple (by decide) rfl rest
  · subst tab
    exact unescape_simple (by decide) rfl rest
  · have small : c.toNat < 0x20 := control
    obtain ⟨high, low, digits, isHigh, isLow⟩ := hexPair_reads c
    have read := unescape_unit (codeUnit_pair isHigh isLow) (by omega) rest
    rw [utf8_small (by omega)] at read
    rw [digits]
    exact read
  · exact unescape_plain quote backslash (BitVec.not_lt.mp control) rest

theorem unescape_writeJsonEscaped (bytes : Text) :
    unescape (writeJsonEscaped bytes) = some bytes := by
  induction bytes with
  | nil => rfl
  | cons c bytes ih =>
      rw [writeJsonEscaped, List.flatMap_cons, unescape_escapeByte, ← writeJsonEscaped, ih]
      rfl

theorem writeJsonEscaped_injective : Function.Injective writeJsonEscaped := by
  intro bytes bytes' same
  have read := unescape_writeJsonEscaped bytes
  rw [same, unescape_writeJsonEscaped] at read
  exact (Option.some.inj read).symm

/-- The bodies that the writer can write are exactly those that keep to its escapes. -/
theorem escaped_iff (body : Text) : Escaped body ↔ ∃ bytes, body = writeJsonEscaped bytes := by
  constructor
  · intro escaped
    induction escaped with
    | nil => exact ⟨[], rfl⟩
    | @plain c rest notQuote notBackslash printable _ ih =>
        obtain ⟨bytes, rfl⟩ := ih
        refine ⟨c :: bytes, ?_⟩
        rw [writeJsonEscaped, writeJsonEscaped, List.flatMap_cons,
          escapeByte_plain notQuote notBackslash printable]
        rfl
    | @escape code rest listed _ ih =>
        obtain ⟨bytes, rfl⟩ := ih
        obtain ⟨c, same⟩ := escapeByte_of_code listed
        exact ⟨c :: bytes, by rw [writeJsonEscaped, writeJsonEscaped, List.flatMap_cons, same]⟩
  · rintro ⟨bytes, rfl⟩
    exact escaped_writeJsonEscaped bytes

/-! ## Bytes -/

/-- Read pairs of hex digits. -/
def readHex : Text → Option Text
  | [] => some []
  | [_] => none
  | high :: low :: rest => do
    let value := (← hexNumber high) * 16 + (← hexNumber low)
    .some (BitVec.ofNat 8 value :: (← readHex rest))

theorem readHex_writeHex (bytes : Text) : readHex (writeHex bytes) = some bytes := by
  induction bytes with
  | nil => rfl
  | cons c bytes ih =>
      obtain ⟨high, low, digits, isHigh, isLow⟩ := hexPair_reads c
      rw [writeHex, List.flatMap_cons, digits, List.cons_append, List.cons_append, List.nil_append,
        readHex, isHigh, isLow, ← writeHex, ih]
      have joined : c.toNat / 16 * 16 + c.toNat % 16 = c.toNat := by omega
      simp [joined]

theorem writeHex_injective : Function.Injective writeHex := by
  intro bytes bytes' same
  have read := readHex_writeHex bytes
  rw [same, readHex_writeHex] at read
  exact (Option.some.inj read).symm

/-! ## What is written determines what was meant -/

theorem IntegralType.ofInt_number (type : IntegralType) (value : BitVec type.width) :
    BitVec.ofInt type.width (type.number value) = value := by
  rw [number]
  cases type.signed with
  | true => exact BitVec.ofInt_toInt
  | false => simp

/-- String bodies, integers and hex texts read back as what they were written for. -/
theorem written_reads_back :
    (∀ bytes, Escaped (writeJsonEscaped bytes) ∧ (∀ c ∈ writeJsonEscaped bytes, 0x20 ≤ c) ∧
        unescape (writeJsonEscaped bytes) = some bytes) ∧
      Function.Injective writeJsonEscaped ∧
      (∀ (type : IntegralType) (value : BitVec type.width), ∃ chars,
        type.writeInt value = .ok chars ∧ readInteger chars = some (type.number value) ∧
          BitVec.ofInt type.width (type.number value) = value) ∧
      Function.Injective writeHex := by
  refine ⟨fun bytes => ?_, writeJsonEscaped_injective, fun type value => ?_, writeHex_injective⟩
  · have escaped := escaped_writeJsonEscaped bytes
    exact ⟨escaped, escaped.printable, unescape_writeJsonEscaped bytes⟩
  · have fits : (type.number value).natAbs < 10 ^ kMaxChars :=
      (type.natAbs_number_lt value).trans (by decide)
    exact ⟨_, type.writeInt_eq value, readInteger_writeInt fits, type.ofInt_number value⟩

/-- The most negative integer of eight bits. -/
example : IntegralType.writeInt ⟨8, true, by decide⟩ (BitVec.intMin 8) = .ok (text "-128") := by
  decide

end Dump
end RapidProto
