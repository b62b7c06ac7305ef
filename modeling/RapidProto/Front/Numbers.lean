import RapidProto.Front.Lexer
import RapidProto.Front.Recognition

/-!
# Numeric literals

The grammars of integers and of floating-point numbers as languages, and what `classify_numeric`
makes of a text.  The alternatives of the recognisers are tried in order, and one that takes a front
of the text is not given up for a later one; no text of either grammar is lost to this.
-/

namespace RapidProto
namespace Front

open scoped Computability

/-! ## The grammars -/

/-- One of the characters of a literal. -/
def oneOf (characters : String) : Language Byte := {word | ∃ c ∈ text characters, word = [c]}

/-- One or more words. -/
def oneOrMore (language : Language Byte) : Language Byte := language * language∗

/-- `decimal_digit`. -/
def decimalDigit : Language Byte := oneOf "0123456789"

/-- `octal_digit`. -/
def octalDigit : Language Byte := oneOf "01234567"

/-- `hex_digit`. -/
def hexDigit : Language Byte := oneOf "0123456789abcdefABCDEF"

/-- `hex_literal = "0" ( "x" | "X" ) hex_digit { hex_digit }` -/
def hexLiterals : Language Byte := {text "0"} * (oneOf "xX" * oneOrMore hexDigit)

/-- `octal_literal = "0" octal_digit { octal_digit }` -/
def octalLiterals : Language Byte := {text "0"} * oneOrMore octalDigit

/-- `decimal_literal = "0" | ( "1" … "9" ) { decimal_digit }` -/
def decimalLiterals : Language Byte := {text "0"} + oneOf "123456789" * decimalDigit∗

/-- `int_literal`. -/
def intLiterals : Language Byte := hexLiterals + (octalLiterals + decimalLiterals)

/-- `decimal_exponent = ( "e" | "E" ) [ "+" | "-" ] decimal_digits` -/
def decimalExponents : Language Byte :=
  oneOf "eE" * ((1 + oneOf "+-") * oneOrMore decimalDigit)

/-- `digits "." [digits] [exp]` -/
def pointedLiterals : Language Byte :=
  oneOrMore decimalDigit * ({text "."} * (decimalDigit∗ * (1 + decimalExponents)))

/-- `digits exp` -/
def scaledLiterals : Language Byte := oneOrMore decimalDigit * decimalExponents

/-- `"." digits [exp]` -/
def fractionLiterals : Language Byte :=
  {text "."} * (oneOrMore decimalDigit * (1 + decimalExponents))

/-- `float_literal`. -/
def floatLiterals : Language Byte := pointedLiterals + (scaledLiterals + fractionLiterals)

/-! ## The character classes -/

theorem oneOf_eq_letter {characters : String} {pred : Byte → Bool}
    (same : ∀ c, pred c = true ↔ c ∈ text characters) : oneOf characters = letter pred := by
  ext word
  constructor
  · rintro ⟨c, listed, rfl⟩
    exact ⟨c, rfl, (same c).mpr listed⟩
  · rintro ⟨c, rfl, is⟩
    exact ⟨c, (same c).mp is, rfl⟩

theorem decimalDigit_eq : decimalDigit = letter isDecimalDigit :=
  oneOf_eq_letter (within_iff '0' '9' (by decide))

theorem octalDigit_eq : octalDigit = letter isOctalDigit :=
  oneOf_eq_letter (within_iff '0' '7' (by decide))

theorem oneOf_nonzeroDigit : oneOf "123456789" = letter isNonzeroDigit :=
  oneOf_eq_letter (within_iff '1' '9' (by decide))

theorem hexDigit_eq : hexDigit = letter isHexDigit := oneOf_eq_letter isHexDigit_iff

/-- A class of two characters. -/
theorem oneOf_two (first second : Byte) {characters : String}
    (are : text characters = [first, second]) :
    oneOf characters = letter fun c => c == first || c == second :=
  oneOf_eq_letter fun c => by simp [are]

theorem oneOf_xMarker : oneOf "xX" = letter isXMarker := oneOf_two (byte 'x') (byte 'X') rfl

theorem oneOf_expMarker : oneOf "eE" = letter isExpMarker := oneOf_two (byte 'e') (byte 'E') rfl

theorem oneOf_sign : oneOf "+-" = letter isSign := oneOf_two (byte '+') (byte '-') rfl

/-- A property of the characters listed is one of their class. -/
theorem forall_of_oneOf {characters : String} {pred : Byte → Bool} {holds : Byte → Prop}
    (same : oneOf characters = letter pred) (all : ∀ c ∈ text characters, holds c) :
    ∀ c, pred c = true → holds c := by
  intro c is
  have member : [c] ∈ oneOf characters := by
    rw [same]
    exact ⟨c, rfl, is⟩
  obtain ⟨other, listed, alike⟩ := member
  rw [List.singleton_inj.mp alike]
  exact all other listed

theorem octal_of_xMarker : ∀ c, isXMarker c = true → isOctalDigit c = false :=
  forall_of_oneOf oneOf_xMarker (by decide)

theorem digit_of_expMarker : ∀ c, isExpMarker c = true → isDecimalDigit c = false :=
  forall_of_oneOf oneOf_expMarker (by decide)

theorem sign_of_digit : ∀ c, isDecimalDigit c = true → isSign c = false :=
  forall_of_oneOf decimalDigit_eq (by decide)

/-- A word that begins outside a class stops a run of the class. -/
theorem stopsAt_letter_mul {pred pred' : Byte → Bool} {language : Language Byte} {word : Text}
    (apart : ∀ c, pred' c = true → pred c = false) (member : word ∈ letter pred' * language)
    (rest : Text) : StopsAt pred (word ++ rest) := by
  obtain ⟨c, tail, rfl, is, -⟩ := mem_letter_mul.mp member
  rintro other ⟨⟩
  exact apart c is

/-! ## Integers -/

theorem hexLiterals_eq : hexLiterals =
    {text "0"} * (letter isXMarker * (letter isHexDigit * (letter isHexDigit)∗)) := by
  rw [hexLiterals, oneOf_xMarker, oneOrMore, hexDigit_eq]

theorem octalLiterals_eq : octalLiterals =
    {text "0"} * (letter isOctalDigit * (letter isOctalDigit)∗) := by
  rw [octalLiterals, oneOrMore, octalDigit_eq]

theorem decimalLiterals_eq : decimalLiterals =
    {text "0"} + letter isNonzeroDigit * (letter isDecimalDigit)∗ := by
  rw [decimalLiterals, oneOf_nonzeroDigit, decimalDigit_eq]

/-- How a hexadecimal literal begins. -/
theorem hexLiterals_begin {word : Text} (member : word ∈ hexLiterals) :
    ∃ x tail, word = byte '0' :: x :: tail ∧ isXMarker x = true := by
  rw [hexLiterals_eq] at member
  exact begins_with_letter member

/-- How an octal literal begins. -/
theorem octalLiterals_begin {word : Text} (member : word ∈ octalLiterals) :
    ∃ digit tail, word = byte '0' :: digit :: tail ∧ isOctalDigit digit = true := by
  rw [octalLiterals_eq] at member
  exact begins_with_letter member

/-- A literal of two characters or more that begins with a zero stands in front of no decimal
literal. -/
theorem decimalLiterals_unhidden {word rest : Text} {c : Byte} {tail : Text}
    (member : word ∈ decimalLiterals) (ends : rest = []) :
    ¬ byte '0' :: c :: tail <+: word ++ rest := by
  subst ends
  rw [decimalLiterals_eq] at member
  rcases member with rfl | member
  · intro isFront
    exact absurd isFront.length_le (by simp [text])
  · obtain ⟨first, others, rfl, is, -⟩ := mem_letter_mul.mp member
    intro isFront
    obtain ⟨rfl, -⟩ := List.cons_prefix_cons.mp isFront
    exact absurd is (by decide)

theorem recognises_decimal :
    Recognises (alt (tag (text "0")) (recognize (seq (one isNonzeroDigit)
      (takeWhile isDecimalDigit)))) decimalLiterals (· = []) := by
  rw [decimalLiterals_eq]
  refine ((Recognises.tag _).mono fun _ _ => trivial).alt
    (((Recognises.one _).seq (.takeWhile _) fun _ _ _ _ => trivial).recognize.mono ?_) ?_
  · rintro _ rfl
    exact nofun
  · rintro word member rest rfl front rfl isFront
    obtain ⟨first, others, rfl, is, -⟩ := mem_letter_mul.mp member
    obtain ⟨rfl, -⟩ := List.cons_prefix_cons.mp isFront
    exact absurd is (by decide)

theorem recognises_octal :
    Recognises (recognize (seq (tag (text "0")) (takeWhile1 isOctalDigit))) octalLiterals
      (· = []) := by
  rw [octalLiterals_eq]
  apply ((Recognises.tag _).seq (.takeWhile1 _) fun _ _ _ _ => trivial).recognize.mono
  rintro _ rfl
  exact nofun

theorem recognises_hex :
    Recognises (recognize (seq (tag (text "0")) (seq (one isXMarker) (takeWhile1 isHexDigit))))
      hexLiterals (· = []) := by
  rw [hexLiterals_eq]
  refine ((Recognises.tag _).seq ((Recognises.one _).seq (.takeWhile1 _) fun _ _ _ _ => trivial)
    fun _ _ _ _ => trivial).recognize.mono ?_
  rintro _ rfl
  exact nofun

theorem recognises_intLiteral : Recognises intLiteral intLiterals (· = []) := by
  refine recognises_hex.alt (recognises_octal.alt recognises_decimal ?_) ?_
  · intro word member rest ends front member' isFront
    obtain ⟨digit, tail, rfl, -⟩ := octalLiterals_begin member'
    exact absurd isFront (decimalLiterals_unhidden member ends)
  · intro word member rest ends front member' isFront
    obtain ⟨x, tail, rfl, isX⟩ := hexLiterals_begin member'
    rcases member with octal | decimal
    · obtain ⟨digit, tail', rfl, isDigit⟩ := octalLiterals_begin octal
      obtain ⟨-, isFront⟩ := List.cons_prefix_cons.mp isFront
      obtain ⟨rfl, -⟩ := List.cons_prefix_cons.mp isFront
      exact absurd isDigit (by rw [octal_of_xMarker x isX]; decide)
    · exact absurd isFront (decimalLiterals_unhidden decimal ends)

/-! ## Floating-point numbers -/

theorem oneOrMore_decimalDigit :
    oneOrMore decimalDigit = letter isDecimalDigit * (letter isDecimalDigit)∗ := by
  rw [oneOrMore, decimalDigit_eq]

theorem mem_digits {word : Text} (member : word ∈ oneOrMore decimalDigit) :
    ∀ c ∈ word, isDecimalDigit c = true := by
  rw [oneOrMore_decimalDigit] at member
  obtain ⟨first, others, rfl, is, more⟩ := mem_letter_mul.mp member
  rintro c (_ | ⟨_, met⟩)
  · exact is
  · exact mem_letter_kstar.mp more c met

theorem decimalExponents_eq : decimalExponents = letter isExpMarker *
    ((1 + letter isSign) * (letter isDecimalDigit * (letter isDecimalDigit)∗)) := by
  rw [decimalExponents, oneOf_expMarker, oneOf_sign, oneOrMore_decimalDigit]

theorem decimalExponents_stops {word : Text} (member : word ∈ decimalExponents) (rest : Text) :
    StopsAt isDecimalDigit (word ++ rest) := by
  rw [decimalExponents_eq] at member
  exact stopsAt_letter_mul digit_of_expMarker member rest

theorem recognises_exponent :
    Recognises decimalExponent decimalExponents (StopsAt isDecimalDigit) := by
  rw [decimalExponents_eq]
  refine (Recognises.one _).seq ((Recognises.one _).opt.seq (.takeWhile1 _) ?_)
    fun _ _ _ _ => trivial
  intro word member rest ends
  refine ⟨trivial, ?_⟩
  rintro _ ⟨sign, rfl, is⟩ isFront
  obtain ⟨first, others, rfl, isDigit, -⟩ := mem_letter_mul.mp member
  obtain ⟨rfl, -⟩ := List.cons_prefix_cons.mp isFront
  exact absurd is (by rw [sign_of_digit sign isDigit]; decide)

theorem recognises_optExponent :
    Recognises (opt decimalExponent) (1 + decimalExponents) (· = []) := by
  apply recognises_exponent.opt.mono
  rintro _ rfl
  refine ⟨nofun, fun front member isFront => ?_⟩
  rw [decimalExponents_eq] at member
  obtain ⟨marker, others, rfl, -⟩ := mem_letter_mul.mp member
  cases List.prefix_nil.mp isFront

theorem recognises_digits :
    Recognises (takeWhile1 isDecimalDigit) (oneOrMore decimalDigit) (StopsAt isDecimalDigit) := by
  rw [oneOrMore_decimalDigit]
  exact .takeWhile1 _

/-- What may follow the digits of a literal stops them. -/
theorem optExponent_stops {word rest : Text} (member : word ∈ 1 + decimalExponents)
    (ends : rest = []) : StopsAt isDecimalDigit (word ++ rest) := by
  subst ends
  rcases member with rfl | member
  · exact nofun
  · exact decimalExponents_stops member []

theorem point_stops {language : Language Byte} {word : Text}
    (member : word ∈ ({text "."} : Language Byte) * language) (rest : Text) :
    StopsAt isDecimalDigit (word ++ rest) := by
  obtain ⟨tail, rfl, -⟩ := mem_singleton_mul.mp member
  rintro c ⟨⟩
  decide

theorem recognises_pointed :
    Recognises (recognize (seq (takeWhile1 isDecimalDigit) (seq (tag (text "."))
      (seq (takeWhile isDecimalDigit) (opt decimalExponent))))) pointedLiterals (· = []) := by
  have behind : Recognises (seq (takeWhile isDecimalDigit) (opt decimalExponent))
      (decimalDigit∗ * (1 + decimalExponents)) (· = []) := by
    rw [decimalDigit_eq]
    exact (Recognises.takeWhile _).seq recognises_optExponent
      fun word member rest ends => optExponent_stops member ends
  refine (recognises_digits.seq
    ((Recognises.tag _).seq behind fun _ _ _ _ => trivial) ?_).recognize
  exact fun word member rest _ => point_stops member rest

theorem recognises_scaled :
    Recognises (recognize (seq (takeWhile1 isDecimalDigit) decimalExponent)) scaledLiterals
      (· = []) := by
  refine (recognises_digits.seq (recognises_exponent.mono ?_) ?_).recognize
  · rintro _ rfl
    exact nofun
  · exact fun word member rest _ => decimalExponents_stops member rest

theorem recognises_fraction :
    Recognises (recognize (seq (tag (text ".")) (seq (takeWhile1 isDecimalDigit)
      (opt decimalExponent)))) fractionLiterals (· = []) := by
  refine ((Recognises.tag _).seq (recognises_digits.seq recognises_optExponent ?_)
    fun _ _ _ _ => trivial).recognize
  exact fun word member rest ends => optExponent_stops member ends

/-- A literal that begins with digits stands in front of none that begins with a point. -/
theorem fractionLiterals_unhidden {language : Language Byte} {front word rest : Text}
    (member : word ∈ fractionLiterals) (member' : front ∈ oneOrMore decimalDigit * language) :
    ¬ front <+: word ++ rest := by
  obtain ⟨tail, rfl, -⟩ := mem_singleton_mul.mp member
  obtain ⟨digits, inDigits, others, -, rfl⟩ := Language.mem_mul.mp member'
  rw [oneOrMore_decimalDigit] at inDigits
  obtain ⟨first, more, rfl, is, -⟩ := mem_letter_mul.mp inDigits
  intro isFront
  obtain ⟨rfl, -⟩ := List.cons_prefix_cons.mp isFront
  exact absurd is (by decide)

/-- A literal with a point behind its digits stands in front of none with an exponent there. -/
theorem scaledLiterals_unhidden {front word rest : Text} (member : word ∈ scaledLiterals)
    (member' : front ∈ pointedLiterals) : ¬ front <+: word ++ rest := by
  obtain ⟨digits, inDigits, scale, inScale, rfl⟩ := Language.mem_mul.mp member
  obtain ⟨digits', inDigits', point, inPoint, rfl⟩ := Language.mem_mul.mp member'
  rintro ⟨tail, same⟩
  rw [List.append_assoc, List.append_assoc] at same
  obtain ⟨-, behind⟩ := front_unique (mem_digits inDigits') (mem_digits inDigits)
    (point_stops inPoint tail) (decimalExponents_stops inScale rest) same
  obtain ⟨others, rfl, -⟩ := mem_singleton_mul.mp inPoint
  rw [decimalExponents_eq] at inScale
  obtain ⟨marker, others', rfl, is, -⟩ := mem_letter_mul.mp inScale
  obtain ⟨rfl, -⟩ := List.cons.inj behind
  exact absurd is (by decide)

theorem recognises_floatLiteral : Recognises floatLiteral floatLiterals (· = []) := by
  refine recognises_pointed.alt (recognises_scaled.alt recognises_fraction ?_) ?_
  · intro word member rest _ front member' isFront
    exact absurd isFront (fractionLiterals_unhidden member member')
  · intro word member rest _ front member' isFront
    rcases member with scaled | fraction
    · exact absurd isFront (scaledLiterals_unhidden scaled member')
    · exact absurd isFront (fractionLiterals_unhidden fraction member')

/-! ## Classification -/

theorem succeeds_iff {α : Type} (outcome : Outcome Error α) :
    succeeds outcome = true ↔ ∃ value, outcome = .ok value := by
  cases outcome <;> simp [succeeds]

/-- `classify_numeric` decides the two grammars, integers first. -/
theorem classifyNumeric_iff (number : Text) :
    (classifyNumeric number = some .intLiteral ↔ number ∈ intLiterals) ∧
      (classifyNumeric number = some .floatLiteral ↔
        number ∉ intLiterals ∧ number ∈ floatLiterals) ∧
      (classifyNumeric number = none ↔ number ∉ intLiterals ∧ number ∉ floatLiterals) := by
  have int : succeeds (allConsuming intLiteral ⟨0, number⟩) = true ↔ number ∈ intLiterals :=
    (succeeds_iff _).trans (recognises_intLiteral.allConsuming_iff rfl ⟨0, number⟩)
  have float : succeeds (allConsuming floatLiteral ⟨0, number⟩) = true ↔ number ∈ floatLiterals :=
    (succeeds_iff _).trans (recognises_floatLiteral.allConsuming_iff rfl ⟨0, number⟩)
  rw [classifyNumeric, ← int, ← float]
  split_ifs with isInt isFloat
  · simp [isInt]
  · simp [isInt, isFloat]
  · simp [isInt, isFloat]

/-- The order matters: behind the decimal zero every hexadecimal literal would be hidden. -/
example : succeeds (allConsuming (alt (tag (text "0")) intLiteral) ⟨0, text "0x1"⟩) = false := by
  decide

end Front
end RapidProto
