import Mathlib.Data.List.TakeWhile

/-!
# JSON texts

A reader of JSON in two steps: a text is cut into tokens, with whitespace between them wherever it
pleases, and the tokens are read as a value.  The reader works on bytes and does not check that they
are UTF-8; what the bytes of a string body stand for is a parameter.

A text *spells* a value if it reads as that value in front of whatever may follow it.  Values are
spelled part by part: the rules for arrays and objects leave the whitespace open.
-/

namespace RapidProto
namespace Json

/-- A text, by its bytes. -/
abbrev Chars := List (BitVec 8)

/-- The code of a character. -/
def code (c : Char) : BitVec 8 := BitVec.ofNat 8 c.toNat

/-! ## Tokens -/

/-- The tokens: a word is a number or one of the names of JSON. -/
inductive Token where
  | beginArray | endArray | beginObject | endObject | comma | colon
  | word (chars : Chars)
  | str (body : Chars)
  deriving DecidableEq

/-- The characters that are tokens. -/
def structural (c : BitVec 8) : Option Token :=
  if c = code '[' then some .beginArray
  else if c = code ']' then some .endArray
  else if c = code '\x7b' then some .beginObject
  else if c = code '\x7d' then some .endObject
  else if c = code ',' then some .comma
  else if c = code ':' then some .colon
  else none

/-- Whitespace. -/
def isSpace (c : BitVec 8) : Bool := [code ' ', code '\n', code '\r', code '\t'].contains c

/-- Where in a text the reader is: in front of a token or inside a word, in a string, or behind a
backslash there; with what it has seen of the token. -/
inductive Mode where
  | plain (chars : Chars)
  | quoted (body : Chars)
  | escaped (body : Chars)

/-- The word seen so far, if any. -/
def flush (chars : Chars) : List Token := if chars = [] then [] else [.word chars]

/-- The tokens of a text.  A string must end. -/
def lex : Mode → Chars → Option (List Token)
  | .plain chars, [] => some (flush chars)
  | .quoted _, [] => none
  | .escaped _, [] => none
  | .plain chars, c :: rest =>
    if c = code '"' then (lex (.quoted []) rest).map (flush chars ++ ·)
    else if isSpace c then (lex (.plain []) rest).map (flush chars ++ ·)
    else
      match structural c with
      | some token => (lex (.plain []) rest).map (flush chars ++ token :: ·)
      | none => lex (.plain (chars ++ [c])) rest
  | .quoted body, c :: rest =>
    if c = code '"' then (lex (.plain []) rest).map (.str body :: ·)
    else if c = code '\\' then lex (.escaped (body ++ [c])) rest
    else lex (.quoted (body ++ [c])) rest
  | .escaped body, c :: rest => lex (.quoted (body ++ [c])) rest

/-- The tokens of a whole text. -/
def tokens (chars : Chars) : Option (List Token) := lex (.plain []) chars

/-! ## Parts of a text -/

/-- The part has these tokens, whatever follows. -/
def Means (part : Chars) (meant : List Token) : Prop :=
  ∀ rest, tokens (part ++ rest) = (tokens rest).map (meant ++ ·)

/-- A word ends here. -/
def Delimited (rest : Chars) : Prop :=
  ∀ c ∈ rest.head?, isSpace c = true ∨ (structural c).isSome = true

/-- The part has these tokens if no word goes on behind it. -/
def MeansBefore (part : Chars) (meant : List Token) : Prop :=
  ∀ rest, Delimited rest → tokens (part ++ rest) = (tokens rest).map (meant ++ ·)

theorem structural_code : ∀ entry ∈ [('[', Token.beginArray), (']', .endArray),
    ('\x7b', .beginObject), ('\x7d', .endObject), (',', .comma), (':', .colon)],
    structural (code entry.1) = some entry.2 := by
  decide

/-- A token of one character is neither a quote nor whitespace. -/
theorem ne_of_structural {c : BitVec 8} {token : Token} (is : structural c = some token) :
    c ≠ code '"' ∧ isSpace c = false := by
  have listed : c ∈ [code '[', code ']', code '\x7b', code '\x7d', code ',', code ':'] := by
    rw [structural] at is
    split_ifs at is <;> simp_all
  have all : ∀ c ∈ [code '[', code ']', code '\x7b', code '\x7d', code ',', code ':'],
      c ≠ code '"' ∧ isSpace c = false := by decide
  exact all c listed

theorem delimited_structural {c : BitVec 8} {token : Token} (is : structural c = some token)
    (rest : Chars) : Delimited (c :: rest) := by
  intro head same
  obtain rfl := Option.some.inj same
  exact .inr (by rw [is]; rfl)

theorem delimited_append {gap rest : Chars} (blank : ∀ c ∈ gap, isSpace c = true)
    (delimited : Delimited rest) : Delimited (gap ++ rest) := by
  cases gap with
  | nil => exact delimited
  | cons c gap =>
      intro head same
      obtain rfl := Option.some.inj same
      exact .inl (blank c List.mem_cons_self)

theorem Means.before {part : Chars} {meant : List Token} (means : Means part meant) :
    MeansBefore part meant := fun rest _ => means rest

theorem Means.append {first second : Chars} {meant meant' : List Token} (means : Means first meant)
    (means' : Means second meant') : Means (first ++ second) (meant ++ meant') := by
  intro rest
  rw [List.append_assoc, means, means', Option.map_map]
  simp [Function.comp_def]

theorem Means.appendBefore {first second : Chars} {meant meant' : List Token}
    (means : Means first meant) (means' : MeansBefore second meant') :
    MeansBefore (first ++ second) (meant ++ meant') := by
  intro rest delimited
  rw [List.append_assoc, means, means' rest delimited, Option.map_map]
  simp [Function.comp_def]

/-- A word may end where the next part begins. -/
theorem MeansBefore.append {first second : Chars} {meant meant' : List Token}
    (means : MeansBefore first meant) (starts : ∀ rest, Delimited (second ++ rest))
    (means' : Means second meant') : Means (first ++ second) (meant ++ meant') := by
  intro rest
  rw [List.append_assoc, means _ (starts rest), means', Option.map_map]
  simp [Function.comp_def]

/-- The same, where another word may end behind that part. -/
theorem MeansBefore.appendBefore {first second : Chars} {meant meant' : List Token}
    (means : MeansBefore first meant)
    (starts : ∀ rest, Delimited rest → Delimited (second ++ rest))
    (means' : MeansBefore second meant') : MeansBefore (first ++ second) (meant ++ meant') := by
  intro rest delimited
  rw [List.append_assoc, means _ (starts rest delimited), means' rest delimited, Option.map_map]
  simp [Function.comp_def]

theorem means_structural {c : BitVec 8} {token : Token} (is : structural c = some token) :
    Means [c] [token] := by
  intro rest
  obtain ⟨notQuote, visible⟩ := ne_of_structural is
  rw [tokens, List.singleton_append, lex, if_neg notQuote, if_neg (by simp [visible]), is]
  rfl

/-- Whitespace means nothing. -/
theorem means_gap {gap : Chars} (blank : ∀ c ∈ gap, isSpace c = true) : Means gap [] := by
  induction gap with
  | nil =>
      intro rest
      simp
  | cons c gap ih =>
      intro rest
      have space := blank c List.mem_cons_self
      have notQuote : c ≠ code '"' := by
        rintro rfl
        exact absurd space (by decide)
      have later := ih (fun other listed => blank other (List.mem_cons_of_mem _ listed)) rest
      rw [tokens, List.cons_append, lex, if_neg notQuote, if_pos space]
      rw [tokens] at later
      rw [later]
      simp [flush]

/-- A character that words are made of. -/
def isOrdinary (c : BitVec 8) : Bool :=
  c != code '"' && !isSpace c && (structural c).isNone

/-- A word is a token of its own. -/
theorem meansBefore_word {chars : Chars} (some_chars : chars ≠ [])
    (ordinary : ∀ c ∈ chars, isOrdinary c = true) : MeansBefore chars [.word chars] := by
  intro rest delimited
  have ends (seen : Chars) (some_seen : seen ≠ []) :
      lex (.plain seen) rest = (tokens rest).map (.word seen :: ·) := by
    cases rest with
    | nil => simp [tokens, lex, flush, some_seen]
    | cons c rest =>
        have delimiter := delimited c rfl
        by_cases space : isSpace c = true
        · have notQuote : c ≠ code '"' := by
            rintro rfl
            exact absurd space (by decide)
          simp [tokens, lex, notQuote, space, flush, some_seen]
        · obtain ⟨token, is⟩ := Option.isSome_iff_exists.mp (delimiter.resolve_left space)
          obtain ⟨notQuote, -⟩ := ne_of_structural is
          simp [tokens, lex, notQuote, space, is, flush, some_seen, Function.comp_def]
  have run (seen chars : Chars) (ordinary : ∀ c ∈ chars, isOrdinary c = true) :
      lex (.plain seen) (chars ++ rest) = lex (.plain (seen ++ chars)) rest := by
    induction chars generalizing seen with
    | nil => simp
    | cons c chars ih =>
        have one := ordinary c List.mem_cons_self
        simp only [isOrdinary, Bool.and_eq_true, bne_iff_ne, Bool.not_eq_true',
          Option.isNone_iff_eq_none] at one
        obtain ⟨⟨notQuote, visible⟩, unfinished⟩ := one
        rw [List.cons_append, lex, if_neg notQuote, if_neg (by simp [visible]), unfinished]
        dsimp only
        rw [ih _ fun other listed => ordinary other (List.mem_cons_of_mem _ listed),
          List.append_assoc]
        rfl
  rw [tokens, run [] chars ordinary, List.nil_append, ends chars some_chars]
  rfl

/-- A body whose quotes are all behind backslashes, and in which every backslash has something
behind it. -/
inductive Body : Chars → Prop where
  | nil : Body []
  | plain {c : BitVec 8} {rest : Chars} (notQuote : c ≠ code '"') (notBackslash : c ≠ code '\\')
      (behind : Body rest) : Body (c :: rest)
  | escape {c : BitVec 8} {rest : Chars} (behind : Body rest) : Body (code '\\' :: c :: rest)

/-- A string is a token of its own. -/
theorem means_quoted {body : Chars} (is : Body body) :
    Means (code '"' :: body ++ [code '"']) [.str body] := by
  intro rest
  have run (seen : Chars) : lex (.quoted seen) (body ++ code '"' :: rest) =
      (tokens rest).map (.str (seen ++ body) :: ·) := by
    induction is generalizing seen with
    | nil => simp [lex, tokens]
    | plain notQuote notBackslash behind ih =>
        rw [List.cons_append, lex, if_neg notQuote, if_neg notBackslash, ih]
        simp
    | escape behind ih =>
        rw [List.cons_append, lex, if_neg (by decide), if_pos rfl, List.cons_append, lex, ih]
        simp
  rw [tokens, List.cons_append, List.cons_append, lex, if_pos rfl, List.append_assoc,
    List.singleton_append, run, Option.map_map]
  rfl

theorem Body.append {first second : Chars} (is : Body first) (is' : Body second) :
    Body (first ++ second) := by
  induction is with
  | nil => exact is'
  | plain notQuote notBackslash behind ih => exact .plain notQuote notBackslash ih
  | escape behind ih => exact .escape ih

/-! ## Numbers -/

/-- A decimal digit. -/
def isDigit (c : BitVec 8) : Bool :=
  [code '0', code '1', code '2', code '3', code '4', code '5', code '6', code '7', code '8',
    code '9'].contains c

/-- The digits of an exponent, behind its sign. -/
def exponentDigits : Chars → Chars
  | [] => []
  | sign :: digits => if sign = code '+' ∨ sign = code '-' then digits else sign :: digits

/-- The exponent of a number, or nothing. -/
def isExponent : Chars → Bool
  | [] => true
  | e :: rest =>
    (e == code 'e' || e == code 'E') && !(exponentDigits rest).isEmpty &&
      (exponentDigits rest).all isDigit

/-- The fraction of a number and what follows it, or nothing. -/
def isFraction : Chars → Bool
  | [] => true
  | c :: rest =>
    if c = code '.' then rest.head?.any isDigit && isExponent (rest.dropWhile isDigit)
    else isExponent (c :: rest)

/-- A number without a sign: there is no zero in front of other digits. -/
def isUnsigned : Chars → Bool
  | [] => false
  | c :: rest =>
    if c = code '0' then isFraction rest else isDigit c && isFraction (rest.dropWhile isDigit)

/-- A number. -/
def isNumber : Chars → Bool
  | [] => false
  | c :: rest => if c = code '-' then isUnsigned rest else isUnsigned (c :: rest)

/-- A word that is a value. -/
def isWord (chars : Chars) : Bool :=
  ["true", "false", "null"].any (fun name => name.toList.map code == chars) || isNumber chars

/-- The characters of numbers. -/
def isNumeral (c : BitVec 8) : Bool :=
  isDigit c || [code '+', code '-', code '.', code 'e', code 'E'].contains c

theorem all_takeWhile_dropWhile {rest : Chars} (later : ∀ c ∈ rest.dropWhile isDigit, isNumeral c) :
    ∀ c ∈ rest, isNumeral c = true := by
  intro c listed
  rw [← List.takeWhile_append_dropWhile (p := isDigit) (l := rest), List.mem_append] at listed
  rcases listed with digit | behind
  · rw [isNumeral, List.mem_takeWhile_imp digit]
    rfl
  · exact later c behind

theorem numeral_isExponent {chars : Chars} (is : isExponent chars = true) :
    ∀ c ∈ chars, isNumeral c = true := by
  cases chars with
  | nil => nofun
  | cons e rest =>
      rw [isExponent] at is
      simp only [Bool.and_eq_true, Bool.or_eq_true, beq_iff_eq, List.all_eq_true] at is
      obtain ⟨⟨mark, -⟩, digits⟩ := is
      have whole (digits : Chars) (all : ∀ c ∈ digits, isDigit c = true) :
          ∀ c ∈ digits, isNumeral c = true := by
        intro c listed
        rw [isNumeral, all c listed]
        rfl
      intro c listed
      rcases List.mem_cons.mp listed with rfl | inside
      · rcases mark with rfl | rfl <;> decide
      · cases rest with
        | nil => cases inside
        | cons sign more =>
            rw [exponentDigits] at digits
            split_ifs at digits with signed
            · rcases List.mem_cons.mp inside with rfl | later
              · rcases signed with rfl | rfl <;> decide
              · exact whole _ digits c later
            · exact whole _ digits c inside

theorem numeral_isFraction {chars : Chars} (is : isFraction chars = true) :
    ∀ c ∈ chars, isNumeral c = true := by
  cases chars with
  | nil => nofun
  | cons c rest =>
      rw [isFraction] at is
      split_ifs at is with point
      · rw [Bool.and_eq_true] at is
        intro ch listed
        rcases List.mem_cons.mp listed with rfl | inside
        · rw [point]
          decide
        · exact all_takeWhile_dropWhile (numeral_isExponent is.2) ch inside
      · exact numeral_isExponent is

theorem numeral_isUnsigned {chars : Chars} (is : isUnsigned chars = true) :
    ∀ c ∈ chars, isNumeral c = true := by
  cases chars with
  | nil => nofun
  | cons c rest =>
      rw [isUnsigned] at is
      intro ch listed
      split_ifs at is with zero
      · rcases List.mem_cons.mp listed with rfl | inside
        · rw [zero]
          decide
        · exact numeral_isFraction is ch inside
      · rw [Bool.and_eq_true] at is
        rcases List.mem_cons.mp listed with rfl | inside
        · rw [isNumeral, is.1]
          rfl
        · exact all_takeWhile_dropWhile (numeral_isFraction is.2) ch inside

/-- A word that is a value is a token. -/
theorem meansBefore_value {chars : Chars} (is : isWord chars = true) :
    MeansBefore chars [.word chars] := by
  have numerals : ∀ c ∈ [code '0', code '1', code '2', code '3', code '4', code '5', code '6',
      code '7', code '8', code '9', code '+', code '-', code '.', code 'e', code 'E'],
      isOrdinary c = true := by decide
  have names : ∀ name ∈ ["true", "false", "null"], name.toList.map code ≠ [] ∧
      ∀ c ∈ name.toList.map code, isOrdinary c = true := by decide
  rw [isWord, Bool.or_eq_true, List.any_eq_true] at is
  rcases is with ⟨name, listed, same⟩ | number
  · obtain rfl := beq_iff_eq.mp same
    exact meansBefore_word (names name listed).1 (names name listed).2
  · have ordinary : ∀ c ∈ chars, isNumeral c = true := by
      cases chars with
      | nil => nofun
      | cons c rest =>
          rw [isNumber] at number
          split_ifs at number with minus
          · intro ch listed
            rcases List.mem_cons.mp listed with rfl | inside
            · rw [minus]
              decide
            · exact numeral_isUnsigned number ch inside
          · exact numeral_isUnsigned number
    apply meansBefore_word
    · rintro rfl
      cases number
    · intro c listed
      apply numerals
      simpa [isNumeral, isDigit, or_assoc] using ordinary c listed

/-! ## Values -/

/-- A value: numbers and the names of JSON are kept as they are written. -/
inductive Value where
  | word (chars : Chars)
  | str (chars : Chars)
  | arr (values : List Value)
  | obj (members : List (Chars × Value))

section Reader

variable (unescape : Chars → Option Chars)

mutual

/-- The value at the front, and the tokens behind it. -/
def readValue : (fuel : Nat) → List Token → Option (Value × List Token)
  | _ + 1, .word chars :: rest => if isWord chars then some (.word chars, rest) else none
  | _ + 1, .str body :: rest => (unescape body).map fun chars => (.str chars, rest)
  | _ + 1, .beginArray :: .endArray :: rest => some (.arr [], rest)
  | fuel + 1, .beginArray :: rest => do
    let (value, rest) ← readValue fuel rest
    let (values, rest) ← readElements fuel rest
    return (.arr (value :: values), rest)
  | _ + 1, .beginObject :: .endObject :: rest => some (.obj [], rest)
  | fuel + 1, .beginObject :: rest => do
    let (member, rest) ← readMember fuel rest
    let (members, rest) ← readMembers fuel rest
    return (.obj (member :: members), rest)
  | _, _ => none

/-- The further values of an array. -/
def readElements : (fuel : Nat) → List Token → Option (List Value × List Token)
  | _ + 1, .endArray :: rest => some ([], rest)
  | fuel + 1, .comma :: rest => do
    let (value, rest) ← readValue fuel rest
    let (values, rest) ← readElements fuel rest
    return (value :: values, rest)
  | _, _ => none

/-- A member of an object. -/
def readMember : (fuel : Nat) → List Token → Option ((Chars × Value) × List Token)
  | fuel + 1, .str body :: .colon :: rest => do
    let key ← unescape body
    let (value, rest) ← readValue fuel rest
    return ((key, value), rest)
  | _, _ => none

/-- The further members of an object. -/
def readMembers : (fuel : Nat) → List Token → Option (List (Chars × Value) × List Token)
  | _ + 1, .endObject :: rest => some ([], rest)
  | fuel + 1, .comma :: rest => do
    let (member, rest) ← readMember fuel rest
    let (members, rest) ← readMembers fuel rest
    return (member :: members, rest)
  | _, _ => none

end

/-- The value of a whole text. -/
def read (chars : Chars) : Option Value := do
  let all ← tokens chars
  match readValue unescape all.length all with
  | some (value, []) => some value
  | _ => none

/-- The tokens are read as the value, in front of any others. -/
def Reads (value : Value) (meant : List Token) : Prop :=
  ∀ fuel rest, meant.length ≤ fuel → readValue unescape fuel (meant ++ rest) = some (value, rest)

/-- The same for a member of an object. -/
def ReadsMember (member : Chars × Value) (meant : List Token) : Prop :=
  ∀ fuel rest, meant.length ≤ fuel → readMember unescape fuel (meant ++ rest) = some (member, rest)

/-- Parts with commas between them; `first` says that none is in front. -/
inductive Items {α : Type} (P : α → List Token → Prop) : (first : Bool) → List α → List Token → Prop
  | nil {first : Bool} : Items P first [] []
  | cons {first : Bool} {item : α} {items : List α} {meant meant' : List Token} (here : P item meant)
      (behind : Items P false items meant') :
      Items P first (item :: items) ((if first then [] else [.comma]) ++ meant ++ meant')

variable {unescape}

theorem reads_word {chars : Chars} (is : isWord chars = true) :
    Reads unescape (.word chars) [.word chars] := by
  intro fuel rest enough
  cases fuel with
  | zero => cases enough
  | succ fuel => simp [readValue, is]

theorem reads_str {body chars : Chars} (is : unescape body = some chars) :
    Reads unescape (.str chars) [.str body] := by
  intro fuel rest enough
  cases fuel with
  | zero => cases enough
  | succ fuel => simp [readValue, is]

theorem readsMember {body key : Chars} (is : unescape body = some key) {value : Value}
    {meant : List Token} (reads : Reads unescape value meant) :
    ReadsMember unescape (key, value) (.str body :: .colon :: meant) := by
  intro fuel rest enough
  cases fuel with
  | zero => cases enough
  | succ fuel =>
      have behind := reads fuel rest (by simp only [List.length_cons] at enough; omega)
      simp [readMember, is, behind]

/-- A value starts with a token that ends nothing. -/
theorem Reads.head {value : Value} {meant : List Token} (reads : Reads unescape value meant) :
    ∃ token rest, meant = token :: rest ∧ token ≠ .endArray := by
  have whole := reads meant.length [] (Nat.le_refl _)
  cases meant with
  | nil => simp [readValue] at whole
  | cons token rest =>
      refine ⟨token, rest, rfl, ?_⟩
      rintro rfl
      simp [readValue] at whole

theorem ReadsMember.head {member : Chars × Value} {meant : List Token}
    (reads : ReadsMember unescape member meant) :
    ∃ token rest, meant = token :: rest ∧ token ≠ .endObject := by
  have whole := reads meant.length [] (Nat.le_refl _)
  cases meant with
  | nil => simp [readMember] at whole
  | cons token rest =>
      refine ⟨token, rest, rfl, ?_⟩
      rintro rfl
      simp [readMember] at whole

theorem readElements_items {values : List Value} {meant : List Token}
    (items : Items (Reads unescape) false values meant) (fuel : Nat) (rest : List Token)
    (enough : meant.length < fuel) :
    readElements unescape fuel (meant ++ .endArray :: rest) = some (values, rest) := by
  induction values generalizing meant fuel with
  | nil =>
      cases items
      obtain ⟨fuel, rfl⟩ := Nat.exists_eq_succ_of_ne_zero (Nat.ne_of_gt enough)
      rfl
  | cons value values ih =>
      cases items with
      | @cons _ _ _ meant meant' here behind =>
          obtain ⟨fuel, rfl⟩ := Nat.exists_eq_succ_of_ne_zero (Nat.ne_of_gt (Nat.zero_lt_of_lt enough))
          simp only [Bool.false_eq_true, if_false, List.nil_append, List.cons_append,
            List.length_cons, List.length_append, List.append_assoc] at enough ⊢
          rw [readElements, here fuel _ (by omega)]
          have later := ih behind fuel (by omega)
          simp [later]

theorem readMembers_items {members : List (Chars × Value)} {meant : List Token}
    (items : Items (ReadsMember unescape) false members meant) (fuel : Nat) (rest : List Token)
    (enough : meant.length < fuel) :
    readMembers unescape fuel (meant ++ .endObject :: rest) = some (members, rest) := by
  induction members generalizing meant fuel with
  | nil =>
      cases items
      obtain ⟨fuel, rfl⟩ := Nat.exists_eq_succ_of_ne_zero (Nat.ne_of_gt enough)
      rfl
  | cons member members ih =>
      cases items with
      | @cons _ _ _ meant meant' here behind =>
          obtain ⟨fuel, rfl⟩ := Nat.exists_eq_succ_of_ne_zero (Nat.ne_of_gt (Nat.zero_lt_of_lt enough))
          simp only [Bool.false_eq_true, if_false, List.nil_append, List.cons_append,
            List.length_cons, List.length_append, List.append_assoc] at enough ⊢
          rw [readMembers, here fuel _ (by omega)]
          have later := ih behind fuel (by omega)
          simp [later]

theorem reads_arr {values : List Value} {meant : List Token}
    (items : Items (Reads unescape) true values meant) :
    Reads unescape (.arr values) (.beginArray :: meant ++ [.endArray]) := by
  intro fuel rest enough
  obtain ⟨fuel, rfl⟩ := Nat.exists_eq_succ_of_ne_zero (Nat.ne_of_gt (Nat.zero_lt_of_lt enough))
  cases items with
  | nil => rfl
  | @cons _ value values meant meant' here behind =>
      obtain ⟨token, more, rfl, other⟩ := here.head
      simp only [if_true, List.nil_append, List.length_append, List.length_cons,
        List.length_nil] at enough
      have first := here fuel (meant' ++ .endArray :: rest) (by simp only [List.length_cons]; omega)
      have later := readElements_items behind fuel rest (by omega)
      simp only [if_true, List.nil_append, List.cons_append, List.append_assoc] at first ⊢
      rw [readValue]
      · simp [first, later]
      · simpa using other

theorem reads_obj {members : List (Chars × Value)} {meant : List Token}
    (items : Items (ReadsMember unescape) true members meant) :
    Reads unescape (.obj members) (.beginObject :: meant ++ [.endObject]) := by
  intro fuel rest enough
  obtain ⟨fuel, rfl⟩ := Nat.exists_eq_succ_of_ne_zero (Nat.ne_of_gt (Nat.zero_lt_of_lt enough))
  cases items with
  | nil => rfl
  | @cons _ member members meant meant' here behind =>
      obtain ⟨token, more, rfl, other⟩ := here.head
      simp only [if_true, List.nil_append, List.length_append, List.length_cons,
        List.length_nil] at enough
      have first := here fuel (meant' ++ .endObject :: rest) (by simp only [List.length_cons]; omega)
      have later := readMembers_items behind fuel rest (by omega)
      simp only [if_true, List.nil_append, List.cons_append, List.append_assoc] at first ⊢
      rw [readValue]
      · simp [first, later]
      · simpa using other

end Reader

/-! ## Texts of values -/

/-- The text reads as the item. -/
def Spells {α : Type} (P : α → List Token → Prop) (chars : Chars) (item : α) : Prop :=
  ∃ meant, P item meant ∧ MeansBefore chars meant

/-- Texts of items, each behind a comma and whitespace; `first` says that none is in front. -/
inductive Listed {α : Type} (P : α → List Token → Prop) : (first : Bool) → Chars → List α → Prop
  | nil {first : Bool} : Listed P first [] []
  | cons {first : Bool} {gap chars rest : Chars} {item : α} {items : List α}
      (blank : ∀ c ∈ gap, isSpace c = true) (here : Spells P chars item)
      (behind : Listed P false rest items) :
      Listed P first ((if first then [] else [code ',']) ++ gap ++ chars ++ rest) (item :: items)

section Texts

variable {α : Type} {P : α → List Token → Prop}

theorem Listed.append {first : Bool} {chars rest : Chars} {items items' : List α}
    (front : Listed P first chars items) (back : Listed P (first && items.isEmpty) rest items') :
    Listed P first (chars ++ rest) (items ++ items') := by
  induction front with
  | nil => simpa using back
  | @cons first gap chars more item items blank here behind ih =>
      rw [List.append_assoc]
      exact .cons blank here (ih (by simpa using back))

/-- Behind another item a list of items starts with a comma. -/
theorem Listed.delimited {chars : Chars} {items : List α} (listed : Listed P false chars items)
    {rest : Chars} (delimited : Delimited rest) : Delimited (chars ++ rest) := by
  cases listed with
  | nil => exact delimited
  | cons blank here behind => exact delimited_structural (structural_code (',', .comma) (by simp)) _

theorem Listed.means {first : Bool} {chars : Chars} {items : List α}
    (listed : Listed P first chars items) :
    ∃ meant, Items P first items meant ∧ MeansBefore chars meant := by
  induction listed with
  | nil => exact ⟨[], .nil, (means_gap (List.forall_mem_nil _)).before⟩
  | @cons first gap chars rest item items blank here behind ih =>
      obtain ⟨meant, holds, means⟩ := here
      obtain ⟨meant', items, means'⟩ := ih
      refine ⟨_, .cons holds items, ?_⟩
      have separator : Means (if first then [] else [code ',']) (if first then [] else [.comma]) := by
        cases first with
        | true => exact means_gap (List.forall_mem_nil _)
        | false => exact means_structural (structural_code (',', .comma) (by simp))
      have front := (separator.append (means_gap blank)).appendBefore means
      rw [List.append_nil] at front
      exact front.appendBefore (fun rest delimited => behind.delimited delimited) means'

end Texts

section Spelling

variable {unescape : Chars → Option Chars}

theorem spells_word {chars : Chars} (is : isWord chars = true) :
    Spells (Reads unescape) chars (.word chars) :=
  ⟨_, reads_word is, meansBefore_value is⟩

theorem spells_str {body chars : Chars} (whole : Body body) (is : unescape body = some chars) :
    Spells (Reads unescape) (code '"' :: body ++ [code '"']) (.str chars) :=
  ⟨_, reads_str is, (means_quoted whole).before⟩

/-- A member: its key, a colon and its value, with whitespace behind the colon. -/
theorem spells_member {body key gap chars : Chars} {value : Value} (whole : Body body)
    (is : unescape body = some key) (blank : ∀ c ∈ gap, isSpace c = true)
    (spells : Spells (Reads unescape) chars value) :
    Spells (ReadsMember unescape)
      (code '"' :: body ++ [code '"'] ++ [code ':'] ++ gap ++ chars) (key, value) := by
  obtain ⟨meant, reads, means⟩ := spells
  refine ⟨_, readsMember is reads, ?_⟩
  have colon : Means [code ':'] [.colon] := means_structural (structural_code (':', .colon) (by simp))
  have front := ((means_quoted whole).append colon).append (means_gap blank)
  have text := front.appendBefore means
  simpa using text

/-- What stands between brackets is a value. -/
theorem means_bracketed {α : Type} {P : α → List Token → Prop} {body gap : Chars} {items : List α}
    {opening closing : BitVec 8} {start stop : Token} (opens : structural opening = some start)
    (closes : structural closing = some stop) (listed : Listed P true body items)
    (blank : ∀ c ∈ gap, isSpace c = true) :
    ∃ meant, Items P true items meant ∧
      Means (opening :: body ++ gap ++ [closing]) (start :: meant ++ [stop]) := by
  obtain ⟨meant, items, means⟩ := listed.means
  refine ⟨meant, items, ?_⟩
  have closed := (means_gap blank).append (means_structural closes)
  have inner := means.append (fun rest => by
    rw [List.append_assoc]
    exact delimited_append blank (delimited_structural closes rest)) closed
  have whole := (means_structural opens).append inner
  simpa using whole

theorem spells_arr {body gap : Chars} {values : List Value}
    (listed : Listed (Reads unescape) true body values) (blank : ∀ c ∈ gap, isSpace c = true) :
    Spells (Reads unescape) (code '[' :: body ++ gap ++ [code ']']) (.arr values) := by
  obtain ⟨meant, items, means⟩ := means_bracketed
    (structural_code ('[', .beginArray) (by simp)) (structural_code (']', .endArray) (by simp))
    listed blank
  exact ⟨_, reads_arr items, means.before⟩

theorem spells_obj {body gap : Chars} {members : List (Chars × Value)}
    (listed : Listed (ReadsMember unescape) true body members)
    (blank : ∀ c ∈ gap, isSpace c = true) :
    Spells (Reads unescape) (code '\x7b' :: body ++ gap ++ [code '\x7d']) (.obj members) := by
  obtain ⟨meant, items, means⟩ := means_bracketed
    (structural_code ('\x7b', .beginObject) (by simp))
    (structural_code ('\x7d', .endObject) (by simp)) listed blank
  exact ⟨_, reads_obj items, means.before⟩

/-- A text that spells a value is read as that value. -/
theorem read_of_spells {chars : Chars} {value : Value} (spells : Spells (Reads unescape) chars value) :
    read unescape chars = some value := by
  obtain ⟨meant, reads, means⟩ := spells
  have all := means [] nofun
  rw [List.append_nil, show tokens [] = some [] from rfl, Option.map_some, List.append_nil] at all
  have whole := reads meant.length [] (Nat.le_refl _)
  rw [List.append_nil] at whole
  simp [read, all, whole]

end Spelling

end Json
end RapidProto
