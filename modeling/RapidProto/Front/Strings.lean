import Mathlib.Data.List.Induction
import RapidProto.Front.Lexer

/-!
# String literals

The recogniser and the decoder of string literals against one reading: a literal is a list of
elements between two quotes, and an escape that stops short of its most digits is not followed by
another one. The recogniser takes such a literal and nothing else; on every reading of it the
decoder returns the bytes of the elements.
-/

namespace RapidProto
namespace Front

/-! ## The reading of a literal -/

/-- An element of a string literal. -/
inductive Element where
  /-- A character that stands for itself. -/
  | plain (c : Byte)
  /-- A backslash and a letter or a punctuation character. -/
  | simple (letter : Byte)
  /-- A backslash and octal digits. -/
  | octal (digits : List Byte)
  /-- A backslash, `x` or `X`, and hexadecimal digits. -/
  | hex (marker : Byte) (digits : List Byte)
  /-- A backslash, `u` or `U`, and hexadecimal digits. -/
  | unicode (marker : Byte) (digits : List Byte)

/-- The text of an element. -/
def Element.text : Element → Text
  | plain c => [c]
  | simple letter => [byte '\\', letter]
  | octal digits => byte '\\' :: digits
  | hex marker digits | unicode marker digits => byte '\\' :: marker :: digits

/-- The element is well formed between such quotes and in front of such a text. -/
def Element.Valid (quote : Byte) (rest : Text) : Element → Prop
  | plain c => isPlainChar quote c = true
  | simple letter => isSimpleEscapeChar letter = true
  | octal digits =>
    1 ≤ digits.length ∧ digits.length ≤ 3 ∧ (∀ c ∈ digits, isOctalDigit c = true) ∧
      (digits.length < 3 → ∀ c, rest.head? = some c → isOctalDigit c = false)
  | hex marker digits =>
    (marker = byte 'x' ∨ marker = byte 'X') ∧ 1 ≤ digits.length ∧ digits.length ≤ 2 ∧
      (∀ c ∈ digits, isHexDigit c = true) ∧
      (digits.length < 2 → ∀ c, rest.head? = some c → isHexDigit c = false)
  | unicode marker digits =>
    (marker = byte 'u' ∧ digits.length = 4 ∨ marker = byte 'U' ∧ digits.length = 8) ∧
      ∀ c ∈ digits, isHexDigit c = true

/-- The text is the elements and the closing quote. -/
inductive Body (quote : Byte) : List Element → Text → Prop
  | close : Body quote [] [quote]
  | cons {element : Element} {elements : List Element} {rest : Text}
      (valid : element.Valid quote rest) (later : Body quote elements rest) :
      Body quote (element :: elements) (element.text ++ rest)

/-- The literal is the elements between quotes. -/
def Spells (literal : Text) (elements : List Element) : Prop :=
  ∃ quote rest, (quote = byte '"' ∨ quote = byte '\'') ∧ literal = quote :: rest ∧
    Body quote elements rest

/-! ## What an element stands for -/

/-- Value of a digit. -/
def digitValue (c : Byte) : Nat :=
  if within '0' '9' c then c.toNat - 48
  else if within 'a' 'f' c then c.toNat - 87
  else c.toNat - 55

/-- The number that digits write. -/
def number (radix : Nat) (digits : List Byte) : Nat :=
  digits.foldl (fun value c => value * radix + digitValue c) 0

/-- The character of a simple escape: the control characters have letters. -/
def escapedValue (letter : Byte) : Byte :=
  if letter = byte 'a' then 7
  else if letter = byte 'b' then 8
  else if letter = byte 't' then 9
  else if letter = byte 'n' then 10
  else if letter = byte 'v' then 11
  else if letter = byte 'f' then 12
  else if letter = byte 'r' then 13
  else letter

/-- The UTF-8 encoding of a scalar value. -/
def utf8 (value : Nat) : Text :=
  (String.utf8EncodeChar (Char.ofNat value)).map UInt8.toBitVec

/-- The bytes an element stands for. -/
def Element.bytes : Element → Text
  | plain c => [c]
  | simple letter => [escapedValue letter]
  | octal digits => [BitVec.ofNat 8 (number 8 digits)]
  | hex _ digits => [BitVec.ofNat 8 (number 16 digits)]
  | unicode _ digits => utf8 (number 16 digits)

/-- The element names a surrogate or a value above the code points. -/
def Element.isRejected : Element → Bool
  | unicode _ digits => !decide (number 16 digits).isValidChar
  | _ => false

/-! ## The recogniser -/

section Recogniser

theorem meets_simpleEscapeSeq :
    simpleEscapeSeq.Meets
      (fun _ taken _ _ => ∃ letter, isSimpleEscapeChar letter = true ∧ taken = [byte '\\', letter])
      (fun _ _ => True) := by
  refine ((meets_tag _).seq (meets_one _)).recognize.mono ?_ fun _ _ _ => trivial
  rintro start taken value rest ⟨-, ⟨slash, letter⟩, front, back, rfl, ⟨-, rfl⟩, rfl, simple⟩
  exact ⟨letter, simple, rfl⟩

/-- An optional digit: there is one, or the rest does not start with one. -/
theorem meets_optDigit (pred : Byte → Bool) :
    (opt (one pred)).Meets
      (fun _ taken _ rest => (∃ c, pred c = true ∧ taken = [c]) ∨
        taken = [] ∧ ∀ c, rest.head? = some c → pred c = false)
      (fun _ _ => True) := by
  refine (meets_one pred).opt.mono ?_ fun _ _ _ => trivial
  intro start taken value rest holds
  cases value with
  | some c => exact .inl ⟨c, holds.2, holds.1⟩
  | none =>
      obtain ⟨empty, error, -, -, stops⟩ := holds
      exact .inr ⟨empty, stops⟩

theorem meets_hexEscapeSeq (quote : Byte) :
    hexEscapeSeq.Meets
      (fun _ taken _ rest => ∃ element : Element, element.Valid quote rest ∧ taken = element.text)
      (fun _ _ => True) := by
  refine (((meets_tag _).alt (meets_tag _)).seq
    ((meets_one _).seq (meets_optDigit _))).recognize.mono ?_ fun _ _ _ => trivial
  rintro start taken value rest ⟨-, inner, front, back, rfl, marked, first, second, rfl,
    ⟨rfl, isDigit⟩, more⟩
  obtain ⟨marker, isMarker, rfl⟩ : ∃ marker, (marker = byte 'x' ∨ marker = byte 'X') ∧
      front = [byte '\\', marker] := by
    rcases marked with ⟨-, rfl⟩ | ⟨⟨-, rfl⟩, -⟩
    · exact ⟨byte 'x', .inl rfl, rfl⟩
    · exact ⟨byte 'X', .inr rfl, rfl⟩
  rcases more with ⟨c, isDigit', rfl⟩ | ⟨rfl, stops⟩
  · refine ⟨.hex marker [inner.2.1, c], ⟨isMarker, by simp, by simp, ?_, by simp⟩, rfl⟩
    simp [isDigit, isDigit']
  · refine ⟨.hex marker [inner.2.1], ⟨isMarker, by simp, by simp, ?_, fun _ => stops⟩, rfl⟩
    simp [isDigit]

theorem meets_octalEscapeSeq (quote : Byte) :
    octalEscapeSeq.Meets
      (fun _ taken _ rest => ∃ element : Element, element.Valid quote rest ∧ taken = element.text)
      (fun _ _ => True) := by
  refine ((meets_tag _).seq ((meets_one _).seq
    ((meets_optDigit _).seq (meets_optDigit _)))).recognize.mono ?_ fun _ _ _ => trivial
  rintro start taken value rest ⟨-, inner, front, back, rfl, ⟨-, rfl⟩, first, others, rfl,
    ⟨rfl, isDigit⟩, second, third, rfl, more, last⟩
  have lone : ∀ c ∈ [inner.2.1], isOctalDigit c = true := by simp [isDigit]
  rcases more with ⟨c, isDigit', rfl⟩ | ⟨rfl, stops⟩
  · rcases last with ⟨c', isDigit'', rfl⟩ | ⟨rfl, stops⟩
    · refine ⟨.octal [inner.2.1, c, c'], ⟨by simp, by simp, ?_, by simp⟩, rfl⟩
      simp [isDigit, isDigit', isDigit'']
    · refine ⟨.octal [inner.2.1, c], ⟨by simp, by simp, ?_, fun _ => stops⟩, rfl⟩
      simp [isDigit, isDigit']
  · rcases last with ⟨c', isDigit'', rfl⟩ | ⟨rfl, stops'⟩
    · exact absurd isDigit'' (by rw [stops c' rfl]; decide)
    · exact ⟨.octal [inner.2.1], ⟨by simp, by simp, lone, fun _ => stops'⟩, rfl⟩

theorem meets_fourHexDigits :
    fourHexDigits.Meets
      (fun _ taken _ _ => taken.length = 4 ∧ ∀ c ∈ taken, isHexDigit c = true)
      (fun _ _ => True) := by
  refine ((meets_one _).seq ((meets_one _).seq ((meets_one _).seq (meets_one _)))).mono ?_
    fun _ _ _ => trivial
  rintro start taken value rest ⟨first, others, rfl, ⟨rfl, isDigit⟩, second, others', rfl,
    ⟨rfl, isDigit'⟩, third, fourth, rfl, ⟨rfl, isDigit''⟩, rfl, isDigit'''⟩
  refine ⟨rfl, ?_⟩
  simp [isDigit, isDigit', isDigit'', isDigit''']

theorem meets_unicodeEscapeSeq (quote : Byte) :
    unicodeEscapeSeq.Meets
      (fun _ taken _ rest => ∃ element : Element, element.Valid quote rest ∧ taken = element.text)
      (fun _ _ => True) := by
  refine ((((meets_tag _).seq meets_fourHexDigits).recognize).alt
    (((meets_tag _).seq (meets_fourHexDigits.seq meets_fourHexDigits)).recognize)).mono ?_
    fun _ _ _ => trivial
  rintro start taken value rest (short | ⟨long, -⟩)
  · obtain ⟨-, inner, front, digits, rfl, ⟨-, rfl⟩, length, isHex⟩ := short
    exact ⟨.unicode (byte 'u') digits, ⟨.inl ⟨rfl, length⟩, isHex⟩, rfl⟩
  · obtain ⟨-, inner, front, digits, rfl, ⟨-, rfl⟩, high, low, rfl, ⟨length, isHex⟩,
      length', isHex'⟩ := long
    refine ⟨.unicode (byte 'U') (high ++ low), ⟨.inr ⟨rfl, ?_⟩, ?_⟩, rfl⟩
    · rw [List.length_append, length, length']
    · intro c met
      exact (List.mem_append.mp met).elim (isHex c) (isHex' c)

theorem meets_stringBodyChar (quote : Byte) :
    (stringBodyChar quote).Meets
      (fun _ taken _ rest => ∃ element : Element, element.Valid quote rest ∧ taken = element.text)
      (fun _ _ => True) := by
  refine ((meets_one _).recognize.alt (meets_simpleEscapeSeq.alt ((meets_hexEscapeSeq quote).alt
    ((meets_octalEscapeSeq quote).alt (meets_unicodeEscapeSeq quote))))).mono ?_
    fun _ _ _ => trivial
  rintro start taken value rest (⟨-, c, rfl, plain⟩ | ⟨⟨letter, simple, rfl⟩ |
    ⟨element | ⟨element | ⟨element, -⟩, -⟩, -⟩, -⟩)
  · exact ⟨.plain c, plain, rfl⟩
  · exact ⟨.simple letter, simple, rfl⟩
  · exact element
  · exact element
  · exact element

/-- An element is valid in front of any text that starts alike. -/
theorem Element.Valid.congr {quote : Byte} {rest rest' : Text} {element : Element}
    (valid : element.Valid quote rest) (alike : rest.head? = rest'.head?) :
    element.Valid quote rest' := by
  cases element <;> simp only [Element.Valid, alike] at valid ⊢ <;> exact valid

theorem Body.head? {quote : Byte} {elements : List Element} {rest : Text}
    (body : Body quote elements rest) : rest ≠ [] := by
  cases body with
  | close => exact List.cons_ne_nil _ _
  | @cons element _ _ _ _ => cases element <;> exact List.cons_ne_nil _ _

theorem meets_quotedString {quote : Byte} (known : quote = byte '"' ∨ quote = byte '\'') :
    (quotedString quote).Meets
      (fun start taken value _ => value = ⟨start, taken⟩ ∧ ∃ elements, Spells taken elements)
      (fun _ _ => True) := by
  refine ((meets_tag _).seq
    ((meets_stringBodyChar quote).many.seq (meets_tag _)).cut).recognize.mono ?_
    fun _ _ _ => trivial
  rintro start taken value rest ⟨rfl, inner, front, back, rfl, ⟨-, rfl⟩, pieces, close, rfl,
    ⟨taken', -⟩, -, rfl⟩
  refine ⟨rfl, ?_⟩
  have body : ∀ {start : Nat} {front : Text} {values : List (Range Byte)} {after : Text},
      Pieces (fun _ taken _ rest => ∃ element : Element, element.Valid quote rest ∧
        taken = element.text) start front values after → after = [quote] ++ rest →
      ∃ elements, Body quote elements (front ++ [quote]) := by
    intro start front values after pieces
    induction pieces with
    | nil => exact fun _ => ⟨[], .close⟩
    | cons first _ _ ih =>
        intro afterIs
        obtain ⟨elements, later⟩ := ih afterIs
        obtain ⟨element, valid, rfl⟩ := first
        refine ⟨element :: elements, ?_⟩
        rw [List.append_assoc]
        refine .cons (valid.congr ?_) later
        rw [afterIs, ← List.append_assoc]
        exact List.head?_append_of_ne_nil _ later.head?
  obtain ⟨elements, later⟩ := body taken' rfl
  exact ⟨elements, quote, pieces ++ [quote], known, rfl, later⟩

theorem meets_stringLiteral :
    stringLiteral.Meets
      (fun start taken value _ => value = ⟨start, taken⟩ ∧ ∃ elements, Spells taken elements)
      (fun _ _ => True) := by
  refine ((meets_quotedString (.inl rfl)).alt (meets_quotedString (.inr rfl))).mono ?_
    fun _ _ _ => trivial
  rintro start taken value rest (literal | ⟨literal, -⟩) <;> exact literal

end Recogniser

/-! ## Numbers in escapes -/

theorem hexValue_eq (c : Byte) (isHex : isHexDigit c = true) :
    hexValue c = BitVec.ofNat 32 (digitValue c) ∧ digitValue c < 16 := by
  have all : ∀ c ∈ charRange '0' '9' ++ charRange 'a' 'f' ++ charRange 'A' 'F',
      hexValue c = BitVec.ofNat 32 (digitValue c) ∧ digitValue c < 16 := by
    decide
  exact all c ((isHexDigit_iff c).mp isHex)

theorem octalValue_eq (c : Byte) (isOctal : isOctalDigit c = true) :
    c.signExtend 32 - 0x30#32 = BitVec.ofNat 32 (digitValue c) := by
  have all : ∀ c ∈ charRange '0' '7',
      c.signExtend 32 - 0x30#32 = BitVec.ofNat 32 (digitValue c) := by
    decide
  exact all c ((within_iff '0' '7' (by decide) c).mp isOctal)

/-- The digit loop reads the digits it is at, and stops at its limit or before a non-digit. -/
theorem readDigits_eq {isDigit : Byte → Bool} (radix : BitVec 32) (digit : Byte → BitVec 32)
    (before digits rest : Text) (left : Nat) (v : BitVec 32) (few : digits.length ≤ left)
    (all : ∀ c ∈ digits, isDigit c = true)
    (stops : digits.length < left → ∀ c, rest.head? = some c → isDigit c = false) :
    readDigits isDigit radix digit (before ++ (digits ++ rest)) left before.length v =
      (before.length + digits.length, digits.foldl (fun v c => v * radix + digit c) v) := by
  induction digits generalizing before left v with
  | nil =>
      cases left with
      | zero => rfl
      | succ left =>
          rw [readDigits, List.nil_append, List.getElem?_append_right (Nat.le_refl _),
            Nat.sub_self, ← List.head?_eq_getElem?]
          cases next : rest.head? with
          | none => rfl
          | some c =>
              dsimp only
              rw [stops (Nat.succ_pos _) c next]
              rfl
  | cons c digits ih =>
      cases left with
      | zero => cases few
      | succ left =>
          rw [readDigits, List.getElem?_append_right (Nat.le_refl _), Nat.sub_self]
          dsimp only [List.cons_append, List.getElem?_cons_zero]
          rw [if_pos (all c List.mem_cons_self)]
          have next := ih (before ++ [c]) left (v * radix + digit c)
            (Nat.le_of_succ_le_succ few) (fun other met => all other (List.mem_cons_of_mem _ met))
            (fun less => stops (Nat.succ_lt_succ less))
          rw [List.append_assoc, List.singleton_append, List.length_append,
            List.length_singleton] at next
          rw [next, List.length_cons, List.foldl_cons]
          congr 1
          omega

/-- The loop computes the number modulo 2^32. -/
theorem foldl_digits (radix : Nat) {digit : Byte → BitVec 32} (digits : List Byte)
    (reads : ∀ c ∈ digits, digit c = BitVec.ofNat 32 (digitValue c)) (value : Nat) :
    digits.foldl (fun v c => v * BitVec.ofNat 32 radix + digit c) (BitVec.ofNat 32 value) =
      BitVec.ofNat 32 (digits.foldl (fun value c => value * radix + digitValue c) value) := by
  induction digits generalizing value with
  | nil => rfl
  | cons c digits ih =>
      rw [List.foldl_cons, List.foldl_cons, reads c List.mem_cons_self, ← BitVec.ofNat_mul,
        ← BitVec.ofNat_add]
      exact ih (fun other met => reads other (List.mem_cons_of_mem _ met)) _

theorem number_lt (digits : List Byte) (isHex : ∀ c ∈ digits, isHexDigit c = true) :
    number 16 digits < 16 ^ digits.length := by
  induction digits using List.reverseRecOn with
  | nil => exact Nat.one_pos
  | append_singleton digits c ih =>
      have less := ih fun other met => isHex other (List.mem_append_left _ met)
      have small := (hexValue_eq c (isHex c (List.mem_append_right _ (List.mem_singleton_self _)))).2
      rw [number, List.foldl_append, List.length_append, List.length_singleton, Nat.pow_succ]
      rw [number] at less
      simp only [List.foldl_cons, List.foldl_nil]
      omega

theorem lowByte (value : Nat) :
    (BitVec.ofNat 32 value &&& 0xFF#32).setWidth 8 = BitVec.ofNat 8 value := by
  apply BitVec.eq_of_toNat_eq
  simp only [BitVec.toNat_setWidth, BitVec.toNat_and, BitVec.toNat_ofNat]
  rw [show 255 % 2 ^ 32 = 2 ^ 8 - 1 from rfl, Nat.and_two_pow_sub_one_eq_mod]
  omega

/-! ## UTF-8 -/

/-- A byte made of a mark and the bits below it. -/
theorem marked_byte (mark value : Nat) {low : Nat} {bits : BitVec 32} (isBits : bits.toNat = low)
    (joined : (mark ||| low) &&& 0xFF = low + mark) (small : mark < 2 ^ 32)
    (valueIs : value % 256 = (low + mark) % 256) :
    ((BitVec.ofNat 32 mark ||| bits) &&& 0xFF#32).setWidth 8 = (UInt8.ofNat value).toBitVec := by
  apply BitVec.eq_of_toNat_eq
  simp only [BitVec.toNat_setWidth, BitVec.toNat_and, BitVec.toNat_or, BitVec.toNat_ofNat, isBits,
    Nat.mod_eq_of_lt small]
  rw [show 255 % 2 ^ 32 = 0xFF from rfl, joined]
  simp only [UInt8.toBitVec_ofNat', BitVec.toNat_ofNat]
  omega

theorem continuation : ∀ low < 64, (0x80 ||| low) &&& 0xFF = low + 0x80 := by decide

theorem lead2 : ∀ low < 32, (0xC0 ||| low) &&& 0xFF = low + 0xC0 := by decide

theorem lead3 : ∀ low < 16, (0xE0 ||| low) &&& 0xFF = low + 0xE0 := by decide

theorem lead4 : ∀ low < 8, (0xF0 ||| low) &&& 0xFF = low + 0xF0 := by decide

/-- The encoder writes the UTF-8 encoding of a scalar value. -/
theorem appendUtf8_eq (out : Text) {value : Nat} (valid : value.isValidChar) :
    appendUtf8 out (BitVec.ofNat 32 value) = out ++ utf8 value := by
  have small : value < 0x110000 := by
    rcases valid with less | ⟨-, less⟩ <;> omega
  have toNat : (BitVec.ofNat 32 value).toNat = value := by
    rw [BitVec.toNat_ofNat]
    omega
  have char : (Char.ofNat value).val.toNat = value := by
    rw [Char.ofNat, dif_pos valid]
    rfl
  have shifted : ∀ n, (BitVec.ofNat 32 value >>> n).toNat = value / 2 ^ n := by
    intro n
    rw [BitVec.toNat_ushiftRight, toNat, Nat.shiftRight_eq_div_pow]
  have six : ∀ v : BitVec 32, (v &&& 0x3F#32).toNat = v.toNat % 64 := by
    intro v
    rw [BitVec.toNat_and]
    exact Nat.and_two_pow_sub_one_eq_mod v.toNat 6
  have below : ∀ limit, limit < 2 ^ 32 →
      (BitVec.ofNat 32 value ≤ BitVec.ofNat 32 limit ↔ value ≤ limit) := by
    intro limit less
    rw [BitVec.le_def, toNat, BitVec.toNat_ofNat, Nat.mod_eq_of_lt less]
  have one := below 0x7F (by decide)
  have two := below 0x7FF (by decide)
  have three := below 0xFFFF (by decide)
  rw [utf8, String.utf8EncodeChar, appendUtf8]
  simp only [char]
  by_cases short : value ≤ 0x7F
  · rw [if_pos (one.mpr short), if_pos short, lowByte]
    rfl
  rw [if_neg (mt one.mp short), if_neg short]
  have low := marked_byte 0x80 (value % 0x40 + 0x80)
    (six (BitVec.ofNat 32 value)) (continuation _ (Nat.mod_lt _ (by decide))) (by decide)
    (by rw [toNat])
  by_cases medium : value ≤ 0x7FF
  · rw [if_pos (two.mpr medium), if_pos medium]
    have lead := marked_byte 0xC0 (value / 64 % 0x20 + 0xC0) (shifted 6)
      (lead2 _ (by omega)) (by decide) (by omega)
    rw [lead, low]
    rfl
  rw [if_neg (mt two.mp medium), if_neg medium]
  have next := marked_byte 0x80 (value / 64 % 0x40 + 0x80)
    (six (BitVec.ofNat 32 value >>> 6)) (continuation _ (Nat.mod_lt _ (by decide))) (by decide)
    (by rw [shifted, show (2 : Nat) ^ 6 = 64 from rfl])
  by_cases long : value ≤ 0xFFFF
  · rw [if_pos (three.mpr long), if_pos long]
    have lead := marked_byte 0xE0 (value / 4096 % 0x10 + 0xE0) (shifted 12)
      (lead3 _ (by omega)) (by decide) (by omega)
    rw [lead, next, low]
    rfl
  · rw [if_neg (mt three.mp long), if_neg long]
    have lead := marked_byte 0xF0 (value / 262144 % 0x08 + 0xF0) (shifted 18)
      (lead4 _ (by omega)) (by decide) (by omega)
    have middle := marked_byte 0x80 (value / 4096 % 0x40 + 0x80)
      (six (BitVec.ofNat 32 value >>> 12)) (continuation _ (Nat.mod_lt _ (by decide)))
      (by decide) (by rw [shifted, show (2 : Nat) ^ 12 = 4096 from rfl])
    rw [lead, middle, next, low]
    rfl

/-! ## The decoder -/

theorem lookup_simple (c : Byte) (simple : isSimpleEscapeChar c = true) :
    simpleEscapes.lookup c = some (escapedValue c) := by
  have all : ∀ c ∈ simpleEscapes.map Prod.fst, simpleEscapes.lookup c = some (escapedValue c) := by
    decide
  exact all c (List.contains_iff_mem.mp simple)

theorem lookup_octal (c : Byte) (isOctal : isOctalDigit c = true) :
    simpleEscapes.lookup c = none ∧ c ≠ byte 'u' ∧ c ≠ byte 'U' ∧ c ≠ byte 'x' ∧ c ≠ byte 'X' := by
  have all : ∀ c ∈ charRange '0' '7', simpleEscapes.lookup c = none ∧ c ≠ byte 'u' ∧
      c ≠ byte 'U' ∧ c ≠ byte 'x' ∧ c ≠ byte 'X' := by
    decide
  exact all c ((within_iff '0' '7' (by decide) c).mp isOctal)

theorem lookup_marker : ∀ c ∈ [byte 'u', byte 'U', byte 'x', byte 'X'],
    simpleEscapes.lookup c = none := by
  decide

theorem readAt_front (before : Text) (c : Byte) (rest : Text) :
    readAt (before ++ c :: rest) before.length = .ok c := by
  rw [readAt, List.getElem?_append_right (Nat.le_refl _), Nat.sub_self]
  rfl

/-- The value of the digits of a hexadecimal escape. -/
theorem readDigits_hex (isDigit : Byte → Bool) (before digits rest : Text) {left : Nat}
    (few : digits.length ≤ left) (all : ∀ c ∈ digits, isDigit c = true)
    (isHex : ∀ c ∈ digits, isHexDigit c = true)
    (stops : digits.length < left → ∀ c, rest.head? = some c → isDigit c = false) :
    readDigits isDigit 16#32 hexValue (before ++ (digits ++ rest)) left before.length 0 =
      (before.length + digits.length, BitVec.ofNat 32 (number 16 digits)) := by
  rw [readDigits_eq _ _ before digits rest _ 0 few all stops]
  congr 1
  exact foldl_digits 16 digits (fun c met => (hexValue_eq c (isHex c met)).1) 0

theorem appendUnicodeEscape_eq (before digits rest out : Text) (escOff : Nat)
    (few : digits.length ≤ 8) (isHex : ∀ c ∈ digits, isHexDigit c = true) :
    appendUnicodeEscape (before ++ (digits ++ rest)) before.length digits.length escOff out =
      if (number 16 digits).isValidChar then
        .ok (before.length + digits.length, out ++ utf8 (number 16 digits))
      else if 0x10FFFF < number 16 digits then
        errorAt escOff (text "unicode escape is out of range")
      else errorAt escOff (text "unicode escape is a surrogate code point") := by
  have small : number 16 digits < 2 ^ 32 :=
    Nat.lt_of_lt_of_le (number_lt digits isHex) (Nat.pow_le_pow_right (by decide) few)
  have below : ∀ limit, limit < 2 ^ 32 →
      (BitVec.ofNat 32 (number 16 digits) ≤ BitVec.ofNat 32 limit ↔
        number 16 digits ≤ limit) := by
    intro limit less
    rw [BitVec.le_def, BitVec.toNat_ofNat, BitVec.toNat_ofNat, Nat.mod_eq_of_lt less,
      Nat.mod_eq_of_lt small]
  have above : ∀ limit, limit < 2 ^ 32 →
      (BitVec.ofNat 32 limit ≤ BitVec.ofNat 32 (number 16 digits) ↔
        limit ≤ number 16 digits) := by
    intro limit less
    rw [BitVec.le_def, BitVec.toNat_ofNat, BitVec.toNat_ofNat, Nat.mod_eq_of_lt less,
      Nat.mod_eq_of_lt small]
  have isLarge : 0x10FFFF#32 < BitVec.ofNat 32 (number 16 digits) ↔
      0x10FFFF < number 16 digits := by
    rw [← BitVec.not_le, below 0x10FFFF (by decide), Nat.not_le]
  have isSurrogate : (decide (0xD800#32 ≤ BitVec.ofNat 32 (number 16 digits)) &&
      decide (BitVec.ofNat 32 (number 16 digits) ≤ 0xDFFF#32)) = true ↔
        0xD800 ≤ number 16 digits ∧ number 16 digits ≤ 0xDFFF := by
    rw [Bool.and_eq_true, decide_eq_true_eq, decide_eq_true_eq, above 0xD800 (by decide),
      below 0xDFFF (by decide)]
  rw [appendUnicodeEscape, readDigits_hex _ before digits rest (Nat.le_refl _) (fun _ _ => rfl)
    isHex (fun less => absurd less (Nat.lt_irrefl _))]
  dsimp only
  by_cases large : 0x10FFFF < number 16 digits
  · rw [if_pos (isLarge.mpr large), if_neg, if_pos large]
    rintro (less | ⟨-, less⟩) <;> omega
  · rw [if_neg (mt isLarge.mp large)]
    by_cases surrogate : 0xD800 ≤ number 16 digits ∧ number 16 digits ≤ 0xDFFF
    · rw [if_pos (isSurrogate.mpr surrogate), if_neg, if_neg large]
      rintro (less | ⟨more, -⟩) <;> omega
    · have valid : (number 16 digits).isValidChar := by
        rcases Nat.lt_or_ge (number 16 digits) 0xD800 with less | more
        · exact .inl less
        · exact .inr ⟨by omega, by omega⟩
      rw [if_neg (mt isSurrogate.mp surrogate), if_pos valid, appendUtf8_eq out valid]

/-- The decoder takes an escape for the bytes it stands for, or fails at it. -/
theorem decodeEscape_spec {quote : Byte} {element : Element} {rest : Text}
    (valid : element.Valid quote rest) (escape : ∀ c, element ≠ .plain c) (before : Text)
    (base : Nat) (out : Text) :
    if element.isRejected then
      ∃ message, decodeEscape (before ++ (element.text ++ rest)) before.length base out =
        errorAt (base + before.length) message
    else
      decodeEscape (before ++ (element.text ++ rest)) before.length base out =
        .ok (before.length + element.text.length, out ++ element.bytes) := by
  have next : ∀ c tail, readAt (before ++ byte '\\' :: c :: tail) (before.length + 1) = .ok c := by
    intro c tail
    have read := readAt_front (before ++ [byte '\\']) c tail
    rwa [List.append_assoc, List.singleton_append, List.length_append,
      List.length_singleton] at read
  cases element with
  | plain c => exact absurd rfl (escape c)
  | simple letter =>
      simp only [Element.isRejected, Bool.false_eq_true, if_false, Element.text,
        List.cons_append, List.nil_append]
      rw [decodeEscape, next, Outcome.ok_bind, lookup_simple letter valid]
      rfl
  | octal digits =>
      obtain ⟨nonempty, few, all, stops⟩ := valid
      simp only [Element.isRejected, Bool.false_eq_true, if_false, Element.text,
        List.cons_append]
      cases digits with
      | nil => cases nonempty
      | cons d digits =>
          obtain ⟨unlisted, notU, notU', notX, notX'⟩ := lookup_octal d (all d List.mem_cons_self)
          have read := readDigits_eq 8#32 (fun c : Byte => c.signExtend 32 - 0x30#32)
            (before ++ [byte '\\']) (d :: digits) rest 3 0 few all stops
          rw [List.append_assoc, List.singleton_append, List.length_append,
            List.length_singleton] at read
          have value := foldl_digits 8 (d :: digits)
            (fun c met => octalValue_eq c (all c met)) 0
          rw [decodeEscape, List.cons_append, next, Outcome.ok_bind, unlisted]
          simp only [notU, notU', notX, notX', decide_false, Bool.or_false, Bool.false_eq_true,
            if_false]
          rw [List.cons_append] at read
          rw [read]
          dsimp only
          rw [show (0 : BitVec 32) = BitVec.ofNat 32 0 from rfl, value, lowByte]
          simp only [Element.bytes, number, List.length_cons]
          congr 2
          omega
  | hex marker digits =>
      obtain ⟨marked, nonempty, few, all, stops⟩ := valid
      have unlisted := lookup_marker marker (by rcases marked with rfl | rfl <;> simp)
      have notU : marker ≠ byte 'u' ∧ marker ≠ byte 'U' := by
        rcases marked with rfl | rfl <;> decide
      have isX : (decide (marker = byte 'x') || decide (marker = byte 'X')) = true := by
        rcases marked with rfl | rfl <;> rfl
      have read := readDigits_hex isHexDigit (before ++ [byte '\\', marker]) digits rest few all all
        stops
      rw [List.append_assoc, List.length_append] at read
      simp only [Element.isRejected, Bool.false_eq_true, if_false, Element.text,
        List.cons_append]
      rw [decodeEscape, next, Outcome.ok_bind, unlisted]
      dsimp only
      rw [if_neg notU.1, if_neg notU.2, if_pos isX]
      simp only [List.cons_append, List.nil_append, List.length_cons, List.length_nil] at read
      rw [read]
      dsimp only
      rw [lowByte]
      simp only [Element.bytes, List.length_cons]
      congr 2
      omega
  | unicode marker digits =>
      obtain ⟨marked, isHex⟩ := valid
      have unlisted := lookup_marker marker (by rcases marked with ⟨rfl, -⟩ | ⟨rfl, -⟩ <;> simp)
      have few : digits.length ≤ 8 := by rcases marked with ⟨-, length⟩ | ⟨-, length⟩ <;> omega
      have read := appendUnicodeEscape_eq (before ++ [byte '\\', marker]) digits rest out
        (base + before.length) few isHex
      rw [List.append_assoc, List.length_append] at read
      simp only [List.cons_append, List.nil_append, List.length_cons, List.length_nil] at read
      have reaches : decodeEscape (before ++ byte '\\' :: marker :: (digits ++ rest)) before.length
          base out = appendUnicodeEscape (before ++ byte '\\' :: marker :: (digits ++ rest))
            (before.length + (0 + 1 + 1)) digits.length (base + before.length) out := by
        rw [decodeEscape, next, Outcome.ok_bind, unlisted]
        rcases marked with ⟨rfl, length⟩ | ⟨rfl, length⟩ <;> rw [length] <;> rfl
      simp only [Element.text, List.cons_append, Element.isRejected, Element.bytes,
        List.length_cons]
      rw [reaches, read]
      by_cases scalar : (number 16 digits).isValidChar
      · simp only [scalar, decide_true, Bool.not_true, Bool.false_eq_true, if_false, if_true]
        congr 2
        omega
      · simp only [scalar, decide_false, Bool.not_false, if_true, if_false]
        split_ifs
        · exact ⟨_, rfl⟩
        · exact ⟨_, rfl⟩

/-- The loop takes the elements of a body for the bytes they stand for and stops at the closing
quote, or fails at the first rejected element. -/
theorem decodeLoop_spec {quote : Byte} {elements : List Element} {rest : Text}
    (body : Body quote elements rest) (before : Text) (base : Nat) (turns : Nat) (out : Text)
    (enough : rest.length ≤ turns) :
    if elements.any Element.isRejected then
      ∃ offset message, base + before.length ≤ offset ∧
        offset + 1 < base + before.length + rest.length ∧
        decodeLoop (before ++ rest) base (before.length + rest.length - 1) turns before.length out =
          errorAt offset message
    else
      decodeLoop (before ++ rest) base (before.length + rest.length - 1) turns before.length out =
        .ok (before.length + rest.length - 1, out ++ elements.flatMap Element.bytes) := by
  induction body generalizing before turns out with
  | close =>
      cases turns with
      | zero => cases enough
      | succ turns => simp [decodeLoop]
  | @cons element elements rest valid later ih =>
      have moves : 0 < element.text.length := by cases element <;> exact Nat.succ_pos _
      have closes : 0 < rest.length := List.length_pos_of_ne_nil later.head?
      rw [List.length_append] at enough ⊢
      cases turns with
      | zero => omega
      | succ turns =>
          have next := ih (before ++ element.text) turns (out ++ element.bytes) (by omega)
          rw [List.append_assoc, List.length_append] at next
          have sum : before.length + (element.text.length + rest.length) - 1 =
              before.length + element.text.length + rest.length - 1 := by omega
          have inside : before.length < before.length + element.text.length + rest.length - 1 := by
            omega
          rw [List.any_cons, List.flatMap_cons, sum, decodeLoop, if_pos inside]
          by_cases plain : ∃ c, element = .plain c
          · obtain ⟨c, rfl⟩ := plain
            have differs : c ≠ byte '\\' := by
              rintro rfl
              simp [Element.Valid, isPlainChar] at valid
            have read := readAt_front before c rest
            simp only [Element.text, List.singleton_append] at next ⊢
            rw [read, Outcome.ok_bind, if_neg differs]
            simp only [Element.isRejected, Bool.false_or, Element.bytes] at next ⊢
            split_ifs at next ⊢
            · obtain ⟨offset, message, lower, upper, fails⟩ := next
              exact ⟨offset, message, by omega, by omega, fails⟩
            · rw [List.append_assoc] at next
              exact next
          · obtain ⟨tail, textIs⟩ : ∃ tail, element.text = byte '\\' :: tail := by
              cases element with
              | plain c => exact absurd ⟨c, rfl⟩ plain
              | simple letter => exact ⟨_, rfl⟩
              | octal digits => exact ⟨_, rfl⟩
              | hex marker digits => exact ⟨_, rfl⟩
              | unicode marker digits => exact ⟨_, rfl⟩
            have read := readAt_front before (byte '\\') (tail ++ rest)
            rw [← List.cons_append, ← textIs] at read
            rw [read, Outcome.ok_bind, if_pos rfl]
            have decoded := decodeEscape_spec valid (fun c same => plain ⟨c, same⟩) before base out
            cases rejected : element.isRejected with
            | true =>
                simp only [rejected, if_true] at decoded
                obtain ⟨message, fails⟩ := decoded
                simp only [Bool.true_or, if_true]
                exact ⟨base + before.length, message, Nat.le_refl _, by omega, by rw [fails]; rfl⟩
            | false =>
                simp only [rejected, Bool.false_eq_true, if_false] at decoded
                rw [decoded, Outcome.ok_bind, Bool.false_or]
                split_ifs at next ⊢
                · obtain ⟨offset, message, lower, upper, fails⟩ := next
                  exact ⟨offset, message, by omega, by omega, fails⟩
                · rw [List.append_assoc] at next
                  exact next

/-- The decoder reads the literal as these elements: it stops at the closing quote with their bytes,
or fails inside the literal if a rejected element is among them. -/
def Decodes (literal : Text) (elements : List Element) : Prop :=
  ∀ base out,
    if elements.any Element.isRejected then
      ∃ offset message, base ≤ offset ∧ offset < base + literal.length ∧
        decodeString literal base out = errorAt offset message
    else
      decodeLoop literal base (literal.length - 1) literal.length 1 out =
          .ok (literal.length - 1, out ++ elements.flatMap Element.bytes) ∧
        decodeString literal base out = .ok (out ++ elements.flatMap Element.bytes)

theorem Spells.decodes {literal : Text} {elements : List Element}
    (spells : Spells literal elements) : Decodes literal elements := by
  obtain ⟨quote, rest, -, rfl, body⟩ := spells
  intro base out
  have loop := decodeLoop_spec body [quote] base (rest.length + 1) out (Nat.le_succ _)
  rw [List.length_singleton, List.singleton_append, Nat.add_sub_cancel_left] at loop
  rw [decodeString, List.length_cons, Nat.add_sub_cancel]
  split_ifs at loop ⊢
  · obtain ⟨offset, message, lower, upper, fails⟩ := loop
    exact ⟨offset, message, by omega, by omega, by rw [fails]; rfl⟩
  · rw [loop]
    exact ⟨rfl, rfl⟩

/-- Every literal the recogniser accepts can be read as elements, and on each reading the decoder
stops at the closing quote with the bytes of the elements, or fails exactly if an escape names a
surrogate or a value above the code points. -/
theorem decodeString_spec (input : Range Byte) :
    (stringLiteral input).Ends
      (fun parsed => (∃ elements, Spells parsed.value.items elements) ∧
        ∀ elements, Spells parsed.value.items elements → Decodes parsed.value.items elements)
      fun _ => True := by
  refine (meets_stringLiteral input).mono ?_ fun _ _ => trivial
  rintro parsed ⟨taken, -, -, valueIs, spelled⟩
  rw [valueIs]
  exact ⟨spelled, fun elements spells => spells.decodes⟩

/-- An octal escape next to the closing quote and a two-byte character. -/
example : decodeString (text "'\\u00e9\\101\\7'") 0 [] = .ok [0xC3, 0xA9, 0x41, 0x07] := by
  decide

end Front
end RapidProto
