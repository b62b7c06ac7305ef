import RapidProto.Front.Calls
import RapidProto.Front.Lexer

/-!
# Positions of errors

The token stream is a composition of the library's parsers, down to its primitives.  The offset in
an error of the parser counts tokens; `parse_source` turns it into an offset in the source, that of
the token at which the part that failed stopped.
-/

namespace RapidProto
namespace Front

open Relation

/-! ## The lexer -/

/-- The parser is put together from the library. -/
def Parser.Composed {ι α : Type} (parser : Parser ι α) : Prop :=
  ∃ composition : Composition ι α, composition.parser = parser

theorem identifier_composed : identifier.Composed :=
  ⟨.recognize (.seq (.one isLetter) (.takeWhile isLetterOrDigit)), rfl⟩

theorem numericLiteral_composed : numericLiteral.Composed :=
  ⟨.recognize (.seq (.opt (.tag (text "."))) (.seq (.one isDecimalDigit)
    (.many (.alt (.recognize (.one isDecimalDigit)) (.alt (.recognize (.one isDot))
      (.alt (.recognize (.seq (.one isExpMarker) (.opt (.one isSign))))
        (.recognize (.one isLetter)))))))), rfl⟩

theorem runeEscapeSeq_composed : runeEscapeSeq.Composed := by
  have four : fourHexDigits.Composed :=
    ⟨.seq (.one isHexDigit)
      (.seq (.one isHexDigit) (.seq (.one isHexDigit) (.one isHexDigit))), rfl⟩
  obtain ⟨digits, is⟩ := four
  refine ⟨.alt (.recognize (.seq (.tag (text "\\")) (.one isSimpleEscapeChar)))
    (.alt (.recognize (.seq (.alt (.tag (text "\\x")) (.tag (text "\\X")))
        (.seq (.one isHexDigit) (.opt (.one isHexDigit)))))
      (.alt (.recognize (.seq (.tag (text "\\")) (.seq (.one isOctalDigit)
          (.seq (.opt (.one isOctalDigit)) (.opt (.one isOctalDigit))))))
        (.alt (.recognize (.seq (.tag (text "\\u")) digits))
          (.recognize (.seq (.tag (text "\\U")) (.seq digits digits)))))), ?_⟩
  simp only [Composition.parser, is]
  rfl

theorem quotedString_composed (quote : Byte) : (quotedString quote).Composed := by
  obtain ⟨escape, is⟩ := runeEscapeSeq_composed
  refine ⟨.recognize (.seq (.tag [quote]) (.cut (.seq
    (.many (.alt (.recognize (.one (isPlainChar quote))) escape)) (.tag [quote])))), ?_⟩
  simp only [Composition.parser, is]
  rfl

theorem comment_composed : comment.Composed :=
  ⟨.alt (.recognize (.seq (.tag (text "//")) (.takeTill isEolOrNul)))
    (.recognize (.seq (.tag (text "/*"))
      (.cut (.seq (.takeUntil (text "*/")) (.tag (text "*/")))))), rfl⟩

/-- The token stream is put together from the library, down to its primitives. -/
theorem tokenStream_composed : tokenStream.Composed := by
  obtain ⟨commentParts, isComment⟩ := comment_composed
  obtain ⟨double, isDouble⟩ := quotedString_composed (byte '"')
  obtain ⟨single, isSingle⟩ := quotedString_composed (byte '\'')
  obtain ⟨number, isNumber⟩ := numericLiteral_composed
  obtain ⟨name, isName⟩ := identifier_composed
  refine ⟨.many (.alt (.map (.takeWhile1 isWhitespace) fun span => ⟨.whitespace, span⟩)
    (.alt (.map commentParts fun span => ⟨.comment, span⟩)
      (.alt (.map (.alt double single) fun span => ⟨.stringLit, span⟩)
        (.alt (.map number fun span => ⟨.numeric, span⟩)
          (.alt (.map name fun span => ⟨.ident, span⟩)
            (.map (.recognize (.one isSymbolChar)) fun span => ⟨.symbol, span⟩)))))), ?_⟩
  simp only [Composition.parser, isComment, isDouble, isSingle, isNumber, isName]
  rfl

/-! ## Errors of the parser -/

/-- The offset in the source that `parse_source` makes of a token index. -/
def sourceOffset (tokens : List Token) (sourceSize tokenIndex : Nat) : Nat :=
  match tokens[tokenIndex]? with
  | some token => token.byteOffset
  | none => sourceSize

/-- A parse error is reported at the token at which the part that raised it stopped in its own
input, or at the end of the source where that was the end of the tokens. -/
theorem sourceOffset_of_fails {α : Type} (composition : Composition Token α) (tokens : List Token)
    (sourceSize : Nat) {error : Error} (failed : composition.parser ⟨0, tokens⟩ = .fail error) :
    ∃ (source : Call Token) (inner : Error),
      ReflTransGen Calls ⟨composition, ⟨0, tokens⟩⟩ source ∧
        source.part.Raises source.input inner ∧ error.message = inner.message ∧
        sourceOffset tokens sourceSize error.byteOffset =
          sourceOffset source.input.items sourceSize inner.byteOffset := by
  obtain ⟨source, inner, reached, raises, position, message⟩ :=
    composition.traces ⟨0, tokens⟩ error failed
  obtain ⟨taken, split, start⟩ := reaches_suffix reached
  refine ⟨source, inner, reached, raises, message, ?_⟩
  simp only [Nat.zero_add] at position start split
  rw [sourceOffset, sourceOffset, position, start, split, List.getElem?_append_right (by omega),
    Nat.add_sub_cancel_left]

end Front
end RapidProto
