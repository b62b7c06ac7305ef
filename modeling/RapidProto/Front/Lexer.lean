import RapidProto.Front.Combinators

/-!
# The lexer

The token parsers of `lexer.cpp`, each the production quoted above it in the source, and the passes
over their output: comments are checked, strings decoded and merged, identifiers and numbers
classified.  A read of a string literal is a read at an index, and one beyond the literal is an
access outside it.
-/

namespace RapidProto
namespace Front

/-! ## Character classes -/

/-- The byte is in an inclusive range of characters. -/
def within (low high : Char) (c : Byte) : Bool := byte low ≤ c && c ≤ byte high

/-- `is_whitespace`. -/
def isWhitespace (c : Byte) : Bool :=
  [byte ' ', byte '\n', byte '\r', byte '\t', 0x0C, 0x0B].contains c

/-- `is_letter`. -/
def isLetter (c : Byte) : Bool := within 'a' 'z' c || within 'A' 'Z' c || c == byte '_'

/-- `is_decimal_digit`. -/
def isDecimalDigit (c : Byte) : Bool := within '0' '9' c

/-- `is_octal_digit`. -/
def isOctalDigit (c : Byte) : Bool := within '0' '7' c

/-- `is_hex_digit`. -/
def isHexDigit (c : Byte) : Bool := isDecimalDigit c || within 'a' 'f' c || within 'A' 'F' c

/-- `is_letter_or_digit`. -/
def isLetterOrDigit (c : Byte) : Bool := isLetter c || isDecimalDigit c

/-- `is_nonzero_digit`. -/
def isNonzeroDigit (c : Byte) : Bool := within '1' '9' c

/-- `is_dot`. -/
def isDot (c : Byte) : Bool := c == byte '.'

/-- `is_exp_marker`. -/
def isExpMarker (c : Byte) : Bool := c == byte 'e' || c == byte 'E'

/-- `is_sign`. -/
def isSign (c : Byte) : Bool := c == byte '+' || c == byte '-'

/-- `is_x_marker`. -/
def isXMarker (c : Byte) : Bool := c == byte 'x' || c == byte 'X'

/-- `is_eol_or_nul`. -/
def isEolOrNul (c : Byte) : Bool := c == byte '\n' || c == 0

/-- The simple escapes with what they stand for. -/
def simpleEscapes : List (Byte × Byte) :=
  [(byte 'a', 0x07), (byte 'b', 0x08), (byte 'f', 0x0C), (byte 'n', 0x0A), (byte 'r', 0x0D),
    (byte 't', 0x09), (byte 'v', 0x0B), (byte '\\', byte '\\'), (byte '\'', byte '\''),
    (byte '"', byte '"'), (byte '?', byte '?')]

/-- `is_simple_escape_char`. -/
def isSimpleEscapeChar (c : Byte) : Bool := (simpleEscapes.map Prod.fst).contains c

/-- `hex_value`; a `char` is signed. -/
def hexValue (c : Byte) : BitVec 32 :=
  if within '0' '9' c then c.signExtend 32 - 0x30
  else if within 'a' 'f' c then c.signExtend 32 - 0x61 + 10
  else c.signExtend 32 - 0x41 + 10

/-- The characters from one to another. -/
def charRange (low high : Char) : Text :=
  (List.range' low.toNat (high.toNat + 1 - low.toNat)).map (BitVec.ofNat 8)

theorem within_iff (low high : Char) (ordered : low ≤ high ∧ high.toNat < 256) (c : Byte) :
    within low high c = true ↔ c ∈ charRange low high := by
  have below : low.toNat ≤ high.toNat := ordered.1
  rw [charRange, List.mem_map, within, Bool.and_eq_true, decide_eq_true_iff, decide_eq_true_iff,
    BitVec.le_def, BitVec.le_def, byte, byte, BitVec.toNat_ofNat, BitVec.toNat_ofNat]
  constructor
  · intro inside
    refine ⟨c.toNat, List.mem_range'_1.mpr ?_, by rw [BitVec.ofNat_toNat, BitVec.setWidth_eq]⟩
    omega
  · rintro ⟨n, listed, rfl⟩
    have inside := List.mem_range'_1.mp listed
    rw [BitVec.toNat_ofNat]
    omega

theorem isHexDigit_iff (c : Byte) :
    isHexDigit c = true ↔ c ∈ charRange '0' '9' ++ charRange 'a' 'f' ++ charRange 'A' 'F' := by
  rw [isHexDigit, Bool.or_eq_true, Bool.or_eq_true, isDecimalDigit,
    within_iff '0' '9' (by decide), within_iff 'a' 'f' (by decide), within_iff 'A' 'F' (by decide),
    List.mem_append, List.mem_append]

/-! ## Tokens -/

/-- `TokenKind`. -/
inductive TokenKind where
  | identifier | intLiteral | floatLiteral | stringLiteral
  | kwSyntax | kwEdition | kwPackage | kwImport | kwWeak | kwPublic | kwOption | kwExport | kwLocal
  | kwMessage | kwEnum | kwService | kwExtend | kwExtensions | kwRpc | kwReturns | kwStream
  | kwGroup | kwOneof | kwRequired | kwOptional | kwRepeated | kwInt32 | kwInt64 | kwUint32
  | kwUint64 | kwSint32 | kwSint64 | kwFixed32 | kwFixed64 | kwSfixed32 | kwSfixed64 | kwFloat
  | kwDouble | kwBool | kwString | kwBytes | kwReserved | kwMap | kwTo | kwMax | kwInf | kwNan
  | semicolon | comma | dot | colon | slash | equals | minus | plus | lAngle | rAngle | lParen
  | rParen | lBracket | rBracket | lBrace | rBrace
  deriving DecidableEq, Repr

/-- A token. -/
structure Token where
  /-- Its class. -/
  kind : TokenKind
  /-- Its span in the source. -/
  text : Text
  /-- The decoded value of a string literal. -/
  strValue : Text := []
  /-- Offset of its span. -/
  byteOffset : Nat := 0
  deriving DecidableEq, Repr

/-- `kKeywords`. -/
def kKeywords : List (Text × TokenKind) :=
  [(text "syntax", .kwSyntax), (text "edition", .kwEdition), (text "package", .kwPackage),
    (text "import", .kwImport), (text "weak", .kwWeak), (text "public", .kwPublic),
    (text "option", .kwOption), (text "export", .kwExport), (text "local", .kwLocal),
    (text "message", .kwMessage), (text "enum", .kwEnum), (text "service", .kwService),
    (text "extend", .kwExtend), (text "extensions", .kwExtensions), (text "rpc", .kwRpc),
    (text "returns", .kwReturns), (text "stream", .kwStream), (text "group", .kwGroup),
    (text "oneof", .kwOneof), (text "required", .kwRequired), (text "optional", .kwOptional),
    (text "repeated", .kwRepeated), (text "int32", .kwInt32), (text "int64", .kwInt64),
    (text "uint32", .kwUint32), (text "uint64", .kwUint64), (text "sint32", .kwSint32),
    (text "sint64", .kwSint64), (text "fixed32", .kwFixed32), (text "fixed64", .kwFixed64),
    (text "sfixed32", .kwSfixed32), (text "sfixed64", .kwSfixed64), (text "float", .kwFloat),
    (text "double", .kwDouble), (text "bool", .kwBool), (text "string", .kwString),
    (text "bytes", .kwBytes), (text "reserved", .kwReserved), (text "map", .kwMap),
    (text "to", .kwTo), (text "max", .kwMax), (text "inf", .kwInf), (text "nan", .kwNan)]

/-- `keyword_or_identifier`. -/
def keywordOrIdentifier (name : Text) : TokenKind := (kKeywords.lookup name).getD .identifier

/-- `symbol_kind`. -/
def symbolKind (c : Byte) : Option TokenKind :=
  [(byte ';', TokenKind.semicolon), (byte ',', .comma), (byte '.', .dot), (byte ':', .colon),
    (byte '/', .slash), (byte '=', .equals), (byte '-', .minus), (byte '+', .plus),
    (byte '<', .lAngle), (byte '>', .rAngle), (byte '(', .lParen), (byte ')', .rParen),
    (byte '[', .lBracket), (byte ']', .rBracket), (byte '\x7b', .lBrace),
    (byte '\x7d', .rBrace)].lookup c

/-- `is_symbol_char`. -/
def isSymbolChar (c : Byte) : Bool := (symbolKind c).isSome

/-- A hexadecimal digit in upper case. -/
def upperHex (n : Nat) : Byte := (text "0123456789ABCDEF").getD n 0

/-- `quote_byte`. -/
def quoteByte (c : Byte) : Text :=
  if 0x20 ≤ c && c ≤ 0x7E then [c]
  else [byte '\\', byte 'x', upperHex (c.toNat / 16), upperHex (c.toNat % 16)]

/-! ## The lexical grammar -/

/-- `identifier = letter { letter | decimal_digit }` -/
def identifier : Parser Byte (Range Byte) :=
  recognize (seq (one isLetter) (takeWhile isLetterOrDigit))

/-- `digit_point_or_exp = "." | decimal_digit | ( "e" | "E" ) [ "+" | "-" ] | letter` -/
def digitPointOrExp : Parser Byte (Range Byte) :=
  alt (recognize (one isDecimalDigit))
    (alt (recognize (one isDot))
      (alt (recognize (seq (one isExpMarker) (opt (one isSign)))) (recognize (one isLetter))))

/-- `numeric_literal = [ "." ] decimal_digit { digit_point_or_exp }` -/
def numericLiteral : Parser Byte (Range Byte) :=
  recognize (seq (opt (tag (text "."))) (seq (one isDecimalDigit) (many digitPointOrExp)))

/-- One of the simple escapes. -/
def simpleEscapeSeq : Parser Byte (Range Byte) :=
  recognize (seq (tag (text "\\")) (one isSimpleEscapeChar))

/-- `hex_escape_seq = \ ( "x" | "X" ) hex_digit [ hex_digit ]` -/
def hexEscapeSeq : Parser Byte (Range Byte) :=
  recognize (seq (alt (tag (text "\\x")) (tag (text "\\X")))
    (seq (one isHexDigit) (opt (one isHexDigit))))

/-- `octal_escape_seq = \ octal_digit [ octal_digit [ octal_digit ] ]` -/
def octalEscapeSeq : Parser Byte (Range Byte) :=
  recognize (seq (tag (text "\\"))
    (seq (one isOctalDigit) (seq (opt (one isOctalDigit)) (opt (one isOctalDigit)))))

/-- Four hexadecimal digits. -/
def fourHexDigits : Parser Byte (Byte × Byte × Byte × Byte) :=
  seq (one isHexDigit) (seq (one isHexDigit) (seq (one isHexDigit) (one isHexDigit)))

/-- `unicode_escape_seq = \u hex(4) | \U hex(8)` -/
def unicodeEscapeSeq : Parser Byte (Range Byte) :=
  alt (recognize (seq (tag (text "\\u")) fourHexDigits))
    (recognize (seq (tag (text "\\U")) (seq fourHexDigits fourHexDigits)))

/-- `rune_escape_seq = simple | hex | octal | unicode` -/
def runeEscapeSeq : Parser Byte (Range Byte) :=
  alt simpleEscapeSeq (alt hexEscapeSeq (alt octalEscapeSeq unicodeEscapeSeq))

/-- A character that stands for itself between quotes. -/
def isPlainChar (quote c : Byte) : Bool :=
  c != quote && c != byte '\n' && c != 0 && c != byte '\\'

/-- `string_body_char`. -/
def stringBodyChar (quote : Byte) : Parser Byte (Range Byte) :=
  alt (recognize (one (isPlainChar quote))) runeEscapeSeq

/-- A string between quotes; the opening quote commits. -/
def quotedString (quote : Byte) : Parser Byte (Range Byte) :=
  recognize (seq (tag [quote]) (cut (seq (many (stringBodyChar quote)) (tag [quote]))))

/-- `string_literal = single_quoted_string_literal | double_quoted_string_literal` -/
def stringLiteral : Parser Byte (Range Byte) :=
  alt (quotedString (byte '"')) (quotedString (byte '\''))

/-- `line_comment = "//" { !("\n" | "\x00") }` -/
def lineComment : Parser Byte (Range Byte) :=
  recognize (seq (tag (text "//")) (takeTill isEolOrNul))

/-- A comment up to the next `*/`; the opening commits. -/
def blockComment : Parser Byte (Range Byte) :=
  recognize (seq (tag (text "/*")) (cut (seq (takeUntil (text "*/")) (tag (text "*/")))))

/-- `comment`. -/
def comment : Parser Byte (Range Byte) := alt lineComment blockComment

/-! ## Numbers -/

/-- `decimal_exponent = ( "e" | "E" ) [ "+" | "-" ] decimal_digits` -/
def decimalExponent : Parser Byte (Byte × Option Byte × Range Byte) :=
  seq (one isExpMarker) (seq (opt (one isSign)) (takeWhile1 isDecimalDigit))

/-- `int_literal = hex_literal | octal_literal | decimal_literal` -/
def intLiteral : Parser Byte (Range Byte) :=
  alt (recognize (seq (tag (text "0")) (seq (one isXMarker) (takeWhile1 isHexDigit))))
    (alt (recognize (seq (tag (text "0")) (takeWhile1 isOctalDigit)))
      (alt (tag (text "0"))
        (recognize (seq (one isNonzeroDigit) (takeWhile isDecimalDigit)))))

/-- `float_literal = digits "." [digits] [exp] | digits exp | "." digits [exp]` -/
def floatLiteral : Parser Byte (Range Byte) :=
  alt (recognize (seq (takeWhile1 isDecimalDigit) (seq (tag (text "."))
      (seq (takeWhile isDecimalDigit) (opt decimalExponent)))))
    (alt (recognize (seq (takeWhile1 isDecimalDigit) decimalExponent))
      (recognize (seq (tag (text ".")) (seq (takeWhile1 isDecimalDigit) (opt decimalExponent)))))

/-- The conversion of a `Result` to `bool`. -/
def succeeds {α : Type} : Outcome Error α → Bool
  | .ok _ => true
  | _ => false

/-- `classify_numeric`. -/
def classifyNumeric (number : Text) : Option TokenKind :=
  if succeeds (allConsuming intLiteral ⟨0, number⟩) then some .intLiteral
  else if succeeds (allConsuming floatLiteral ⟨0, number⟩) then some .floatLiteral
  else none

/-! ## The token stream -/

/-- `Cat`. -/
inductive Cat where
  | whitespace | comment | stringLit | numeric | ident | symbol
  deriving DecidableEq, Repr

/-- A span of the source with its class. -/
structure RawToken where
  cat : Cat
  span : Range Byte

/-- `raw`. -/
def raw (cat : Cat) (parser : Parser Byte (Range Byte)) : Parser Byte RawToken :=
  map parser fun span => { cat, span }

/-- `token_stream`. -/
def tokenStream : Parser Byte (List RawToken) :=
  many (alt (raw .whitespace (takeWhile1 isWhitespace)) (alt (raw .comment comment)
    (alt (raw .stringLit stringLiteral) (alt (raw .numeric numericLiteral)
      (alt (raw .ident identifier) (raw .symbol (recognize (one isSymbolChar))))))))

/-! ## String values -/

/-- `append_utf8`. -/
def appendUtf8 (out : Text) (cp : BitVec 32) : Text :=
  let put := fun v : BitVec 32 => (v &&& 0xFF#32).setWidth 8
  if cp ≤ 0x7F#32 then out ++ [put cp]
  else if cp ≤ 0x7FF#32 then
    out ++ [put (0xC0#32 ||| cp >>> 6), put (0x80#32 ||| cp &&& 0x3F#32)]
  else if cp ≤ 0xFFFF#32 then
    out ++ [put (0xE0#32 ||| cp >>> 12), put (0x80#32 ||| cp >>> 6 &&& 0x3F#32),
      put (0x80#32 ||| cp &&& 0x3F#32)]
  else
    out ++ [put (0xF0#32 ||| cp >>> 18), put (0x80#32 ||| cp >>> 12 &&& 0x3F#32),
      put (0x80#32 ||| cp >>> 6 &&& 0x3F#32), put (0x80#32 ||| cp &&& 0x3F#32)]

/-- `span[i]`. -/
def readAt (span : Text) (i : Nat) : Outcome Error Byte :=
  match span[i]? with
  | some c => .ok c
  | none => .outside

/-- The digit loops of the escapes: at most `left` digits, inside the span. -/
def readDigits (isDigit : Byte → Bool) (radix : BitVec 32) (digit : Byte → BitVec 32)
    (span : Text) : (left i : Nat) → (v : BitVec 32) → Nat × BitVec 32
  | 0, i, v => (i, v)
  | left + 1, i, v =>
    match span[i]? with
    | some c =>
      if isDigit c then readDigits isDigit radix digit span left (i + 1) (v * radix + digit c)
      else (i, v)
    | none => (i, v)

/-- `append_unicode_escape`: it does not look whether the digits are digits. -/
def appendUnicodeEscape (span : Text) (i digits escOff : Nat) (out : Text) :
    Outcome Error (Nat × Text) :=
  let (i, cp) := readDigits (fun _ => true) 16#32 hexValue span digits i 0
  if 0x10FFFF#32 < cp then errorAt escOff (text "unicode escape is out of range")
  else if 0xD800#32 ≤ cp && cp ≤ 0xDFFF#32 then
    errorAt escOff (text "unicode escape is a surrogate code point")
  else .ok (i, appendUtf8 out cp)

/-- `decode_escape`. -/
def decodeEscape (span : Text) (i base : Nat) (out : Text) : Outcome Error (Nat × Text) := do
  let escOff := base + i
  let i := i + 1
  let e ← readAt span i
  match simpleEscapes.lookup e with
  | some value => .ok (i + 1, out ++ [value])
  | none =>
    if e = byte 'u' then appendUnicodeEscape span (i + 1) 4 escOff out
    else if e = byte 'U' then appendUnicodeEscape span (i + 1) 8 escOff out
    else if e = byte 'x' || e = byte 'X' then
      let (i, v) := readDigits isHexDigit 16#32 hexValue span 2 (i + 1) 0
      .ok (i, out ++ [(v &&& 0xFF#32).setWidth 8])
    else
      let (i, v) := readDigits isOctalDigit 8#32 (fun c => c.signExtend 32 - 0x30#32) span 3 i 0
      .ok (i, out ++ [(v &&& 0xFF#32).setWidth 8])

/-- The loop of `decode_string`; it also returns where it stops. -/
def decodeLoop (span : Text) (base close : Nat) : (turns i : Nat) → (out : Text) →
    Outcome Error (Nat × Text)
  | 0, _, _ => .spin
  | turns + 1, i, out =>
    if i < close then do
      let c ← readAt span i
      if c = byte '\\' then
        let (i, out) ← decodeEscape span i base out
        decodeLoop span base close turns i out
      else decodeLoop span base close turns (i + 1) (out ++ [c])
    else .ok (i, out)

/-- `decode_string`. -/
def decodeString (span : Text) (base : Nat) (out : Text) : Outcome Error Text := do
  let (_, out) ← decodeLoop span base (span.length - 1) span.length 1 out
  .ok out

/-! ## From raw tokens to tokens -/

/-- `validate_comment`. -/
def validateComment (span : Text) (off : Nat) : Outcome Error Unit :=
  match span.findIdx? (· == 0) with
  | some nul => errorAt (off + nul) (text "null character in comment")
  | none => .ok ()

/-- The loop over whitespace and comments in `append_string_token`. -/
def skipTrivia : List RawToken → Outcome Error (List RawToken)
  | [] => .ok []
  | token :: raws =>
    match token.cat with
    | .whitespace => skipTrivia raws
    | .comment => do
      validateComment token.span.items token.span.data
      skipTrivia raws
    | _ => .ok (token :: raws)

/-- The loop of `append_string_token` over the literals after the first. -/
def mergeStrings : (turns : Nat) → (raws : List RawToken) → (value : Text) → (stop : Nat) →
    Outcome Error (Text × Nat × List RawToken)
  | 0, _, _, _ => .spin
  | turns + 1, raws, value, stop => do
    match ← skipTrivia raws with
    | [] => .ok (value, stop, [])
    | token :: raws =>
      if token.cat = .stringLit then
        let value ← decodeString token.span.items token.span.data value
        mergeStrings turns raws value (token.span.data + token.span.items.length)
      else .ok (value, stop, token :: raws)

/-- `append_string_token`, started at the first literal of a run. -/
def appendStringToken (full : Text) (first : RawToken) (raws : List RawToken)
    (tokens : List Token) : Outcome Error (List RawToken × List Token) := do
  let off := first.span.data
  let value ← decodeString first.span.items off []
  let (value, stop, raws) ←
    mergeStrings (raws.length + 1) raws value (off + first.span.items.length)
  .ok (raws, tokens ++
    [{ kind := .stringLiteral, text := (full.drop off).take (stop - off), strValue := value,
       byteOffset := off }])

/-- The loop of `build_tokens`. -/
def buildLoop (full : Text) : (turns : Nat) → (raws : List RawToken) → (tokens : List Token) →
    Outcome Error (List Token)
  | 0, _, _ => .spin
  | _ + 1, [], tokens => .ok tokens
  | turns + 1, token :: raws, tokens =>
    let off := token.span.data
    let span := token.span.items
    match token.cat with
    | .whitespace => buildLoop full turns raws tokens
    | .comment => do
      validateComment span off
      buildLoop full turns raws tokens
    | .ident =>
      buildLoop full turns raws
        (tokens ++ [{ kind := keywordOrIdentifier span, text := span, byteOffset := off }])
    | .symbol => do
      match symbolKind (← readAt span 0) with
      | none => .outside
      | some kind =>
        buildLoop full turns raws (tokens ++ [{ kind, text := span, byteOffset := off }])
    | .numeric =>
      match classifyNumeric span with
      | none => errorAt off (text "invalid numeric literal '" ++ span ++ text "'")
      | some kind =>
        buildLoop full turns raws (tokens ++ [{ kind, text := span, byteOffset := off }])
    | .stringLit => do
      let (raws, tokens) ← appendStringToken full token raws tokens
      buildLoop full turns raws tokens

/-- `build_tokens`. -/
def buildTokens (raws : List RawToken) (full : Text) : Outcome Error (List Token) :=
  buildLoop full (raws.length + 1) raws []

/-- `has_bom`. -/
def hasBom (source : Text) : Bool := source.take 3 == [0xEF, 0xBB, 0xBF]

/-- What the lexer reads: the source without a leading byte-order mark. -/
def lexInput (source : Text) : Range Byte :=
  let start := if hasBom source then 3 else 0
  ⟨start, source.drop start⟩

/-- `lex`. -/
def lex (source : Text) : Outcome Error (List Token) := do
  let input := lexInput source
  let stream ← (tokenStream input).mapError (Error.lift input.data)
  let built ← buildTokens stream.value source
  match stream.remaining.items with
  | [] => .ok built
  | c :: _ =>
    errorAt stream.remaining.data (text "unexpected character '" ++ quoteByte c ++ text "'")

end Front
end RapidProto
