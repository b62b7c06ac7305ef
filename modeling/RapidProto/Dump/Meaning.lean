import RapidProto.Dump.Spelling

/-!
# What a dump says

The value that a decoded tree stands for.  Whatever the width, the indent and the skip paths, the
dump is read as the value of the tree without the skipped fields: no layout loses, adds or reorders
anything, and the quotes and commas are where JSON wants them.
-/

namespace RapidProto
namespace Dump

open Front (Text byte text isDecimalDigit isLetterOrDigit within_iff)
open Json (Spells Reads ReadsMember)

/-! ## Values -/

/-- The text that a map key stands for. -/
def MapKey.chars : MapKey → Text
  | .string value => value
  | .bool value => writeBool value
  | .scalar value => writeInt value

section Values

variable (roundTripText : FloatBits → NumberText)

/-- The value that a leaf stands for. -/
def Leaf.json : Leaf → Json.Value
  | .scalar value => .word (writeInt value)
  | .bool value => .word (writeBool value)
  | .float bits =>
      match bits.classify with
      | .nan => .str (Front.text "NaN")
      | .inf => .str (Front.text "Infinity")
      | .negInf => .str (Front.text "-Infinity")
      | .finite => .word (roundTripText bits).bytes
  | .string value => .str value
  | .bytes value => .str (writeHex value)
  | .enum (some name) _ => .str name.bytes
  | .enum none number => .str (Front.text "UNKNOWN(" ++ writeInt number ++ [byte ')'])

/-- The member of a field with elements, unless there are none. -/
def groupMember {α : Type} (name : Identifier) (items : List α) (value : Json.Value) :
    List (Text × Json.Value) :=
  if items.isEmpty then [] else [(name.bytes, value)]

mutual

/-- The value that a message stands for. -/
def Message.json : Message → Json.Value
  | .mk hasUnknown members =>
      .obj ((if hasUnknown then [(text "has_unknown_fields", .word (text "true"))] else []) ++
        memberFields members)

def memberFields : List Member → List (Text × Json.Value)
  | [] => []
  | member :: members => member.fields ++ memberFields members

/-- The member of the object for a member of the message, if there is one. -/
def Member.fields : Member → List (Text × Json.Value)
  | .singular name accessor =>
      accessor.shown.toList.map fun value => (name.bytes, value.json roundTripText)
  | .message _ none => []
  | .message name (some value) => [(name.bytes, value.json)]
  | .repeated name values =>
      groupMember name values (.arr (values.map fun value => value.json roundTripText))
  | .repeatedMessage name values => groupMember name values (.arr (elementValues values))
  | .map name entries =>
      groupMember name entries
        (.obj (entries.map fun entry => (entry.1.chars, entry.2.json roundTripText)))
  | .mapMessage name entries => groupMember name entries (.obj (entryFields entries))
  | .unset => []
  | .active name value => [(name.bytes, value.json roundTripText)]
  | .activeMessage name value => [(name.bytes, value.json)]

def elementValues : List Message → List Json.Value
  | [] => []
  | value :: values => value.json :: elementValues values

def entryFields : List (MapKey × Option Message) → List (Text × Json.Value)
  | [] => []
  | (key, none) :: entries => (key.chars, .word (text "null")) :: entryFields entries
  | (key, some value) :: entries => (key.chars, value.json) :: entryFields entries

end

end Values

/-! ## What the types hold -/

/-- A scalar is a number of a type of the code. -/
def Leaf.Fits : Leaf → Prop
  | .scalar value => -0x8000000000000000 ≤ value ∧ value < 0x10000000000000000
  | _ => True

mutual

/-- All scalars of a message are numbers of types of the code. -/
def Message.Fits : Message → Prop
  | .mk _ members => membersFit members

def membersFit : List Member → Prop
  | [] => True
  | member :: members => member.Fits ∧ membersFit members

def Member.Fits : Member → Prop
  | .singular _ accessor => ∀ value ∈ accessor.shown, value.Fits
  | .message _ (some value) => value.Fits
  | .repeated _ values => ∀ value ∈ values, value.Fits
  | .repeatedMessage _ values => elementsFit values
  | .map _ entries => ∀ entry ∈ entries, entry.2.Fits
  | .mapMessage _ entries => entriesFit entries
  | .active _ value => value.Fits
  | .activeMessage _ value => value.Fits
  | .message _ none => True
  | .unset => True

def elementsFit : List Message → Prop
  | [] => True
  | value :: values => value.Fits ∧ elementsFit values

def entriesFit : List (MapKey × Option Message) → Prop
  | [] => True
  | (_, none) :: entries => entriesFit entries
  | (_, some value) :: entries => value.Fits ∧ entriesFit entries

end

section Prune

variable (skip : List Text)

mutual

theorem Message.fits_prune : (value : Message) → value.Fits → (path : List Identifier) →
    (value.prune skip path).Fits
  | .mk hasUnknown members, fits, path => by
      rw [Message.prune, Message.Fits]
      rw [Message.Fits] at fits
      exact membersFit_prune members fits path

theorem membersFit_prune : (members : List Member) → membersFit members →
    (path : List Identifier) → membersFit (pruneMembers skip path members)
  | [], _, path => by
      rw [pruneMembers, membersFit]
      trivial
  | member :: members, fits, path => by
      rw [membersFit] at fits
      rw [pruneMembers]
      split_ifs
      · exact membersFit_prune members fits.2 path
      · rw [membersFit]
        exact ⟨Member.fits_prune member fits.1 path, membersFit_prune members fits.2 path⟩

theorem Member.fits_prune : (member : Member) → member.Fits → (path : List Identifier) →
    (member.prune skip path).Fits
  | .message name (some value), fits, path => by
      rw [Member.Fits] at fits
      rw [Member.prune, Member.Fits]
      exact Message.fits_prune value fits _
  | .repeatedMessage name values, fits, path => by
      rw [Member.Fits] at fits
      rw [Member.prune, Member.Fits]
      exact elementsFit_prune values fits _
  | .mapMessage name entries, fits, path => by
      rw [Member.Fits] at fits
      rw [Member.prune, Member.Fits]
      exact entriesFit_prune entries fits _
  | .activeMessage name value, fits, path => by
      rw [Member.Fits] at fits
      rw [Member.prune, Member.Fits]
      exact Message.fits_prune value fits _
  | .message name none, fits, path => by rwa [Member.prune]
  | .singular name accessor, fits, path => by rwa [Member.prune]
  | .repeated name values, fits, path => by rwa [Member.prune]
  | .map name entries, fits, path => by rwa [Member.prune]
  | .unset, fits, path => by rwa [Member.prune]
  | .active name value, fits, path => by rwa [Member.prune]

theorem elementsFit_prune : (values : List Message) → elementsFit values →
    (path : List Identifier) → elementsFit (pruneElements skip path values)
  | [], _, path => by
      rw [pruneElements, elementsFit]
      trivial
  | value :: values, fits, path => by
      rw [elementsFit] at fits
      rw [pruneElements, elementsFit]
      exact ⟨Message.fits_prune value fits.1 path, elementsFit_prune values fits.2 path⟩

theorem entriesFit_prune : (entries : List (MapKey × Option Message)) → entriesFit entries →
    (path : List Identifier) → entriesFit (pruneEntries skip path entries)
  | [], _, path => by
      rw [pruneEntries, entriesFit]
      trivial
  | (key, none) :: entries, fits, path => by
      rw [entriesFit] at fits
      rw [pruneEntries, entriesFit]
      exact entriesFit_prune entries fits path
  | (key, some value) :: entries, fits, path => by
      rw [entriesFit] at fits
      rw [pruneEntries, entriesFit]
      exact ⟨Message.fits_prune value fits.1 path, entriesFit_prune entries fits.2 path⟩

end

end Prune

/-! ## Texts of leaves -/

/-- Bytes that stand for themselves in a string. -/
def Literal (bytes : Text) : Prop :=
  ∀ c ∈ bytes, c ≠ byte '"' ∧ c ≠ byte '\\' ∧ 0x20 ≤ c

theorem Literal.append {front back : Text} (literal : Literal front) (literal' : Literal back) :
    Literal (front ++ back) :=
  List.forall_mem_append.mpr ⟨literal, literal'⟩

theorem Literal.body {bytes : Text} (literal : Literal bytes) : Json.Body bytes := by
  induction bytes with
  | nil => exact .nil
  | cons c bytes ih =>
      obtain ⟨⟨notQuote, notBackslash, -⟩, behind⟩ := List.forall_mem_cons.mp literal
      exact .plain notQuote notBackslash (ih behind)

theorem Literal.unescape {bytes : Text} (literal : Literal bytes) :
    Dump.unescape bytes = some bytes := by
  induction bytes with
  | nil => rfl
  | cons c bytes ih =>
      obtain ⟨⟨notQuote, notBackslash, printable⟩, behind⟩ := List.forall_mem_cons.mp literal
      rw [unescape_plain notQuote notBackslash printable, ih behind]
      rfl

theorem literal_of_letterOrDigit {bytes : Text} (plain : ∀ c ∈ bytes, isLetterOrDigit c = true) :
    Literal bytes := by
  intro c listed
  have is := plain c listed
  refine ⟨?_, ?_, ?_⟩
  · rintro rfl
    exact absurd is (by decide)
  · rintro rfl
    exact absurd is (by decide)
  · by_contra control
    have below : ∀ n < 0x20, isLetterOrDigit (BitVec.ofNat 8 n) = false := by decide +kernel
    have refuted := below c.toNat (BitVec.not_le.mp control)
    rw [BitVec.ofNat_toNat, BitVec.setWidth_eq, is] at refuted
    cases refuted

theorem isLetterOrDigit_digit {c : Byte} (is : isDecimalDigit c = true) :
    isLetterOrDigit c = true := by
  rw [isLetterOrDigit, is, Bool.or_true]

theorem digits_plain (magnitude : Nat) :
    ∀ c ∈ digitLoop kMaxChars magnitude [], isDecimalDigit c = true :=
  digitLoop_plain kMaxChars magnitude (List.forall_mem_nil _)

theorem literal_writeInt (value : Int) : Literal (writeInt value) := by
  have digits : Literal (digitLoop kMaxChars value.natAbs []) :=
    literal_of_letterOrDigit fun c listed => isLetterOrDigit_digit (digits_plain _ c listed)
  rw [writeInt]
  split_ifs
  · exact List.forall_mem_cons.mpr ⟨by decide, digits⟩
  · exact digits

theorem literal_writeBool (value : Bool) : Literal (writeBool value) := by
  cases value <;> exact literal_of_letterOrDigit (by decide)

theorem literal_hexPair (c : Byte) : Literal (hexPair c) := by
  have digits : ∀ n < 16, isLetterOrDigit (hexDigit (BitVec.ofNat 8 n)) = true := by decide +kernel
  have small := c.isLt
  rw [hexPair_eq]
  apply literal_of_letterOrDigit
  exact List.forall_mem_cons.mpr ⟨digits _ (by omega),
    List.forall_mem_singleton.mpr (digits _ (by omega))⟩

theorem literal_writeHex (bytes : Text) : Literal (writeHex bytes) := by
  intro d listed
  obtain ⟨c, -, inside⟩ := List.mem_flatMap.mp listed
  exact literal_hexPair c d inside

/-- Behind its first byte an escape is literal. -/
theorem body_writeJsonEscaped (bytes : Text) : Json.Body (writeJsonEscaped bytes) := by
  induction bytes with
  | nil => exact .nil
  | cons c bytes ih =>
      rw [writeJsonEscaped, List.flatMap_cons]
      apply Json.Body.append _ ih
      rcases escapeByte_cases c with ⟨same, notQuote, notBackslash, -⟩ | ⟨code, listed, same⟩
      · rw [same]
        exact .plain notQuote notBackslash .nil
      · rw [same]
        rcases List.mem_append.mp listed with simple | numeric
        · simp only [List.mem_cons, List.not_mem_nil, or_false] at simple
          rcases simple with rfl | rfl | rfl | rfl | rfl <;> exact .escape .nil
        · obtain ⟨n, -, rfl⟩ := List.mem_map.mp numeric
          have zeros : Literal (text "00") := literal_of_letterOrDigit (by decide +kernel)
          exact .escape (zeros.append (literal_hexPair _)).body

theorem isDigit_of_isDecimalDigit {c : Byte} (is : isDecimalDigit c = true) :
    Json.isDigit c = true :=
  List.contains_iff_mem.mpr ((within_iff '0' '9' (by decide) c).mp is)

/-- What `write_int` writes is a number of JSON. -/
theorem isNumber_writeInt {value : Int} (fits : value.natAbs < 10 ^ kMaxChars) :
    Json.isNumber (writeInt value) = true := by
  obtain ⟨first, rest, begins, zero⟩ := digitLoop_head (by decide) fits []
  have digits := digits_plain value.natAbs
  rw [begins] at digits
  obtain ⟨digit, digits⟩ := List.forall_mem_cons.mp digits
  have unsigned : Json.isUnsigned (first :: rest) = true := by
    rw [Json.isUnsigned]
    split_ifs with leading
    · rw [(zero leading).2]
      rfl
    · have all : rest.dropWhile Json.isDigit = [] :=
        List.dropWhile_eq_nil_iff.mpr fun c listed =>
          isDigit_of_isDecimalDigit (digits c listed)
      rw [isDigit_of_isDecimalDigit digit, all]
      rfl
  have notMinus : first ≠ Json.code '-' := by
    rintro rfl
    exact absurd digit (by decide)
  rw [kMaxChars] at begins
  rw [writeInt, begins]
  split_ifs
  · rw [Json.isNumber, if_pos (show byte '-' = Json.code '-' from rfl)]
    exact unsigned
  · rw [Json.isNumber, if_neg notMinus]
    exact unsigned

theorem spells_literal {bytes : Text} (literal : Literal bytes) :
    Spells (Reads unescape) (quoted bytes) (.str bytes) :=
  Json.spells_str literal.body literal.unescape

section Leaves

/-- The texts of finite numbers are numbers of JSON. -/
def Numeric (roundTripText : FloatBits → NumberText) : Prop :=
  ∀ bits, bits.classify = .finite → Json.isNumber (roundTripText bits).bytes = true

variable {roundTripText : FloatBits → NumberText}

/-- The text of a leaf is a JSON text of its value. -/
theorem spells_leaf (numbers : Numeric roundTripText) {value : Leaf} (fits : value.Fits) :
    Spells (Reads unescape) (value.text roundTripText) (value.json roundTripText) := by
  have word {chars : Text} (is : Json.isNumber chars = true) :
      Spells (Reads unescape) chars (.word chars) :=
    Json.spells_word (by rw [Json.isWord, is, Bool.or_true])
  cases value with
  | scalar value =>
      rw [Leaf.Fits] at fits
      exact word (isNumber_writeInt (by rw [kMaxChars]; omega))
  | bool value =>
      have known : ∀ value, Json.isWord (writeBool value) = true := by decide +kernel
      exact Json.spells_word (known value)
  | float bits =>
      have nan : Literal (text "NaN") := literal_of_letterOrDigit (by decide +kernel)
      have inf : Literal (text "Infinity") := literal_of_letterOrDigit (by decide +kernel)
      have negInf : Literal (text "-Infinity") := by unfold Literal; decide +kernel
      rw [Leaf.text, Leaf.json, writeFloat]
      cases is : bits.classify with
      | finite => exact word (numbers bits is)
      | nan => exact spells_literal nan
      | inf => exact spells_literal inf
      | negInf => exact spells_literal negInf
  | string value =>
      exact Json.spells_str (body_writeJsonEscaped value) (unescape_writeJsonEscaped value)
  | bytes value => exact spells_literal (literal_writeHex value)
  | enum name number =>
      cases name with
      | some name => exact spells_literal (literal_of_letterOrDigit name.plain)
      | none =>
          have front : Literal (text "UNKNOWN(") := by unfold Literal; decide +kernel
          have back : Literal [byte ')'] := by unfold Literal; decide +kernel
          exact spells_literal ((front.append (literal_writeInt number)).append back)

/-- A key in quotes, a colon and a space make a member of the value behind them. -/
theorem spells_quoted {body key chars : Text} {value : Json.Value} (whole : Json.Body body)
    (is : unescape body = some key) (spells : Spells (Reads unescape) chars value) :
    Spells (ReadsMember unescape) (quoted body ++ [byte ':', byte ' '] ++ chars) (key, value) := by
  have member := Json.spells_member whole is (isSpace_spaces 1) spells
  rw [List.append_assoc _ [Json.code ':'] (spaces 1)] at member
  exact member

/-- The text of a map key is that of a member in front of its value. -/
theorem spells_entry (key : MapKey) {chars : Text} {value : Json.Value}
    (spells : Spells (Reads unescape) chars value) :
    Spells (ReadsMember unescape) (key.text ++ chars) (key.chars, value) := by
  cases key with
  | string value =>
      exact spells_quoted (body_writeJsonEscaped value) (unescape_writeJsonEscaped value) spells
  | bool value =>
      have literal := literal_writeBool value
      exact spells_quoted literal.body literal.unescape spells
  | scalar value =>
      have literal := literal_writeInt value
      exact spells_quoted literal.body literal.unescape spells

/-- The same for a field. -/
theorem spells_field (name : Identifier) {chars : Text} {value : Json.Value}
    (spells : Spells (Reads unescape) chars value) :
    Spells (ReadsMember unescape) (keyText name.bytes ++ chars) (name.bytes, value) := by
  have literal := literal_of_letterOrDigit name.plain
  have member := spells_quoted literal.body literal.unescape spells
  rw [quoted, List.append_assoc _ [byte '"']] at member
  exact member

end Leaves

/-! ## Parts of a message -/

section Pieces

theorem putsPiece_nothing (piece : Piece) (same : ∀ state, piece state = state) :
    PutsPiece piece [] := by
  intro first w idle
  rw [same]
  exact ⟨(Bool.and_true first).symm, idle, [], (List.append_nil _).symm, .nil⟩

theorem PutsPiece.append {piece piece' : Piece} {members members' : List (Text × Json.Value)}
    (puts : PutsPiece piece members) (puts' : PutsPiece piece' members') :
    PutsPiece (fun state => piece' (piece state)) (members ++ members') := by
  intro first w idle
  obtain ⟨flag, idle₁, front, out₁, listed⟩ := puts first w idle
  obtain ⟨flag', idle₂, back, out₂, listed'⟩ := puts' (piece (first, w)).1 (piece (first, w)).2 idle₁
  refine ⟨?_, idle₂, front ++ back, ?_, ?_⟩
  · rw [flag', flag, Bool.and_assoc]
    cases members <;> rfl
  · rw [out₂, out₁, List.append_assoc]
  · rw [flag] at listed'
    exact listed.append listed'

/-- One entry behind its separator. -/
theorem entry_puts {first : Bool} {w w' : Writer} (idle : w.Idle) (bytes : Text)
    {member : Text × Json.Value}
    (puts : (w.entrySep first).Idle → w'.Idle ∧ w'.out = (w.entrySep first).out ++ bytes ∧
      Spells (ReadsMember unescape) bytes member) :
    w'.Idle ∧ ∃ bytes, w'.out = w.out ++ bytes ∧
      Json.Listed (ReadsMember unescape) first bytes [member] := by
  obtain ⟨separated, gap, blank, out⟩ := entrySep_puts idle first
  obtain ⟨idle', out', spells⟩ := puts separated
  refine ⟨idle', _, ?_, .cons blank spells .nil⟩
  rw [out', out, List.append_nil]
  simp only [List.append_assoc]
  rfl

/-- A field with its value. -/
theorem Puts.field {action : Writer → Writer} {value : Json.Value}
    (puts : Puts action (Spells (Reads unescape) · value)) (name : Identifier) :
    PutsPiece (beginField name action) [(name.bytes, value)] := by
  intro first w idle
  have shown : ¬ w.skipped name.bytes = true := by simp [Writer.skipped, idle.skip]
  simp only [beginField]
  rw [if_neg shown]
  refine ⟨(Bool.and_false first).symm, ?_⟩
  obtain ⟨separated, -⟩ := entrySep_puts idle first
  obtain ⟨keyed, out⟩ := key_puts separated name
  obtain ⟨idle', chars, out', spells⟩ := puts _ keyed
  exact entry_puts idle _ fun _ => ⟨idle', by rw [out', out, List.append_assoc],
    spells_field name spells⟩

theorem Puts.nested {action : Writer → Writer} {value : Json.Value}
    (puts : Puts action (Spells (Reads unescape) · value)) (name : Identifier) (nested : Bool) :
    PutsPiece (beginField name (if nested then Dump.under name action else action))
      [(name.bytes, value)] := by
  cases nested with
  | true => exact (puts.under name).field name
  | false => exact puts.field name

/-- The entry that tells of unknown fields. -/
theorem spells_unknownEntry :
    Spells (ReadsMember unescape) (quoted (text "has_unknown_fields") ++ text ": true")
      (text "has_unknown_fields", .word (text "true")) := by
  have literal : Literal (text "has_unknown_fields") := literal_of_letterOrDigit (by decide +kernel)
  have word : Spells (Reads unescape) (text "true") (.word (text "true")) :=
    Json.spells_word (by decide)
  have split : text ": true" = [byte ':', byte ' '] ++ text "true" := rfl
  rw [split, ← List.append_assoc]
  exact spells_quoted literal.body literal.unescape word

theorem encloses_arr {values : List Json.Value} {bytes : Text}
    (encloses : Encloses (Reads unescape) (byte '[') (byte ']') values bytes) :
    Spells (Reads unescape) bytes (.arr values) := by
  obtain ⟨body, gap, rfl, listed, blank⟩ := encloses
  exact Json.spells_arr listed blank

theorem encloses_obj {members : List (Text × Json.Value)} {bytes : Text}
    (encloses : Encloses (ReadsMember unescape) (byte '\x7b') (byte '\x7d') members bytes) :
    Spells (Reads unescape) bytes (.obj members) := by
  obtain ⟨body, gap, rfl, listed, blank⟩ := encloses
  exact Json.spells_obj listed blank

/-- Entries on one line between brackets. -/
theorem encloses_bracketed {α : Type} {P : α → List Json.Token → Prop} {texts : List Text}
    {items : List α} (each : List.Forall₂ (Spells P) texts items) (opening closing : Byte) :
    Encloses P opening closing items (bracketed opening closing texts) :=
  ⟨_, [], by rw [List.append_nil, bracketed], listed_spells each true, List.forall_mem_nil _⟩

/-- The entries of a field, as they are on one line and as they are written: each spells its item.
-/
structure Shown {α : Type} (P : α → List Json.Token → Prop) (texts : List Text)
    (writes : List (Writer → Writer)) (items : List α) : Prop where
  lines : List.Forall₂ (Spells P) texts items
  puts : List.Forall₂ (fun write item => Puts write (Spells P · item)) writes items

theorem Shown.nil {α : Type} {P : α → List Json.Token → Prop} : Shown P [] [] [] := ⟨.nil, .nil⟩

theorem Shown.cons {α : Type} {P : α → List Json.Token → Prop} {line : Text}
    {write : Writer → Writer} {item : α} {texts : List Text} {writes : List (Writer → Writer)}
    {items : List α} (spells : Spells P line item) (puts : Puts write (Spells P · item))
    (behind : Shown P texts writes items) :
    Shown P (line :: texts) (write :: writes) (item :: items) :=
  ⟨.cons spells behind.lines, .cons puts behind.puts⟩

/-- A part of a message, as it is on one line and as it is written. -/
structure ShownPiece (lines : List Text) (piece : Piece) (members : List (Text × Json.Value)) :
    Prop where
  lines : List.Forall₂ (Spells (ReadsMember unescape)) lines members
  puts : PutsPiece piece members

theorem shownPiece_nothing (piece : Piece) (same : ∀ state, piece state = state) :
    ShownPiece [] piece [] :=
  ⟨.nil, putsPiece_nothing piece same⟩

theorem shownPiece_unknownEntry (hasUnknown : Bool) :
    ShownPiece (if hasUnknown then [quoted (text "has_unknown_fields") ++ text ": true"] else [])
      (unknownEntry hasUnknown)
      (if hasUnknown then [(text "has_unknown_fields", .word (text "true"))] else []) := by
  cases hasUnknown with
  | false => exact shownPiece_nothing _ fun _ => rfl
  | true =>
      refine ⟨.cons spells_unknownEntry .nil, fun first w idle => ?_⟩
      refine ⟨(Bool.and_false first).symm, entry_puts idle
        (quoted (text "has_unknown_fields") ++ text ": true") fun separated => ?_⟩
      obtain ⟨idle', bytes, out, rfl⟩ := puts_write _ _ separated
      exact ⟨idle', out, spells_unknownEntry⟩

theorem ShownPiece.append {lines lines' : List Text} {piece piece' : Piece}
    {members members' : List (Text × Json.Value)} (shown : ShownPiece lines piece members)
    (shown' : ShownPiece lines' piece' members') :
    ShownPiece (lines ++ lines') (fun state => piece' (piece state)) (members ++ members') :=
  ⟨List.rel_append shown.lines shown'.lines, shown.puts.append shown'.puts⟩

theorem shownPiece_field {line : Text} {action : Writer → Writer} {value : Json.Value}
    (spells : Spells (Reads unescape) line value)
    (puts : Puts action (Spells (Reads unescape) · value)) (name : Identifier) (nested : Bool) :
    ShownPiece [keyText name.bytes ++ line]
      (beginField name (if nested then Dump.under name action else action)) [(name.bytes, value)] :=
  ⟨.cons (spells_field name spells) .nil, puts.nested name nested⟩

theorem shownPiece_repeatedField {elements : List (Writer → Writer)} {texts : List Text}
    {values : List Json.Value} (renders : List.Forall₂ Renders elements texts)
    (shown : Shown (Reads unescape) texts elements values) (name : Identifier) (nested : Bool) :
    ShownPiece (groupEntry name (byte '[') (byte ']') texts) (repeatedField name nested elements)
      (groupMember name values (.arr values)) := by
  obtain ⟨lines, puts⟩ := shown
  cases renders with
  | nil =>
      cases lines
      exact shownPiece_nothing _ fun _ => rfl
  | cons one more =>
      have group := (array_puts (List.cons_ne_nil _ _) (.cons one more) lines puts).imp
        fun _ => encloses_arr
      have line := encloses_arr (encloses_bracketed lines (byte '[') (byte ']'))
      cases lines
      exact shownPiece_field line group name nested

theorem shownPiece_mapField {entries : List (MapKey × (Writer → Writer))} {texts : List Text}
    {members : List (Text × Json.Value)}
    (renders : List.Forall₂ (fun entry full => ∃ value, Renders entry.2 value ∧
      full = MapKey.text entry.1 ++ value) entries texts)
    (shown : Shown (ReadsMember unescape) texts
      (entries.map fun entry w => entry.2 (Writer.write entry.1.text w)) members)
    (name : Identifier) (nested : Bool) :
    ShownPiece (groupEntry name (byte '\x7b') (byte '\x7d') texts) (mapField name nested entries)
      (groupMember name members (.obj members)) := by
  obtain ⟨lines, puts⟩ := shown
  have writes := renders_entries renders
  have group := (object_puts (reaches_entryLoop writes true) (listed_spells lines true)
    (entryLoop_puts puts true)).imp fun _ => encloses_obj
  have line := encloses_obj (encloses_bracketed lines (byte '\x7b') (byte '\x7d'))
  cases renders with
  | nil =>
      cases lines
      exact shownPiece_nothing _ fun _ => rfl
  | cons one more =>
      cases lines
      exact shownPiece_field line group name nested

end Pieces

/-! ## Trees -/

section Trees

variable {roundTripText : FloatBits → NumberText}

theorem puts_leaf (numbers : Numeric roundTripText) {value : Leaf} (fits : value.Fits) :
    Puts (writeLeaf roundTripText value)
      (Spells (Reads unescape) · (value.json roundTripText)) := by
  apply (puts_write _).imp
  rintro bytes rfl
  exact spells_leaf numbers fits

theorem shownPiece_leaf (numbers : Numeric roundTripText) {value : Leaf} (fits : value.Fits)
    (name : Identifier) :
    ShownPiece [keyText name.bytes ++ value.text roundTripText]
      (beginField name (writeLeaf roundTripText value))
      [(name.bytes, value.json roundTripText)] :=
  shownPiece_field (spells_leaf numbers fits) (puts_leaf numbers fits) name false

theorem shown_leaves (numbers : Numeric roundTripText) {values : List Leaf}
    (fits : ∀ value ∈ values, value.Fits) :
    Shown (Reads unescape) (values.map fun value => value.text roundTripText)
      (values.map (writeLeaf roundTripText))
      (values.map fun value => value.json roundTripText) := by
  induction values with
  | nil => exact .nil
  | cons value values ih =>
      obtain ⟨here, behind⟩ := List.forall_mem_cons.mp fits
      exact .cons (spells_leaf numbers here) (puts_leaf numbers here) (ih behind)

/-- A value behind a map key. -/
theorem Puts.entry {action : Writer → Writer} {value : Json.Value}
    (puts : Puts action (Spells (Reads unescape) · value)) (key : MapKey) :
    Puts (fun w => action (Writer.write key.text w))
      (Spells (ReadsMember unescape) · (key.chars, value)) := by
  intro w idle
  obtain ⟨idle₁, bytes, out₁, rfl⟩ := puts_write key.text w idle
  obtain ⟨idle₂, chars, out₂, spells⟩ := puts _ idle₁
  exact ⟨idle₂, _, by rw [out₂, out₁, List.append_assoc], spells_entry key spells⟩

theorem shown_leafEntries (numbers : Numeric roundTripText) {entries : List (MapKey × Leaf)}
    (fits : ∀ entry ∈ entries, entry.2.Fits) :
    Shown (ReadsMember unescape)
      (entries.map fun entry => entry.1.text ++ entry.2.text roundTripText)
      ((entries.map fun entry => (entry.1, writeLeaf roundTripText entry.2)).map
        fun entry w => entry.2 (Writer.write entry.1.text w))
      (entries.map fun entry => (entry.1.chars, entry.2.json roundTripText)) := by
  induction entries with
  | nil => exact .nil
  | cons entry entries ih =>
      obtain ⟨here, behind⟩ := List.forall_mem_cons.mp fits
      exact .cons (spells_entry entry.1 (spells_leaf numbers here))
        ((puts_leaf numbers here).entry entry.1) (ih behind)

theorem elementValues_isEmpty (values : List Message) :
    (elementValues roundTripText values).isEmpty = values.isEmpty := by
  cases values <;> rw [elementValues] <;> rfl

theorem entryFields_isEmpty (entries : List (MapKey × Option Message)) :
    (entryFields roundTripText entries).isEmpty = entries.isEmpty := by
  rcases entries with _ | ⟨⟨key, _ | value⟩, entries⟩ <;> rw [entryFields] <;> rfl

mutual

/-- A message is dumped as its value, in every layout. -/
theorem rpDumpWrite_spells (numbers : Numeric roundTripText) : (value : Message) → value.Fits →
    Spells (Reads unescape) (value.line roundTripText) (value.json roundTripText) ∧
      Puts (rpDumpWrite roundTripText value)
        (Spells (Reads unescape) · (value.json roundTripText))
  | .mk hasUnknown members, fits => by
      rw [Message.Fits] at fits
      have body := (shownPiece_unknownEntry hasUnknown).append
        (dumpMembers_spells numbers members fits)
      rw [Message.line, Message.json, rpDumpWrite]
      refine ⟨encloses_obj (encloses_bracketed body.lines _ _), ?_⟩
      refine (object_puts (reaches_body roundTripText hasUnknown members)
        (listed_spells body.lines true) fun w idle => ?_).imp fun _ => encloses_obj
      exact (body.puts true w idle).2

theorem dumpMembers_spells (numbers : Numeric roundTripText) : (members : List Member) →
    membersFit members →
    ShownPiece (memberLines roundTripText members) (dumpMembers roundTripText members)
      (memberFields roundTripText members)
  | [], _ => by
      rw [memberLines, memberFields]
      exact shownPiece_nothing _ fun _ => by rw [dumpMembers]
  | member :: members, fits => by
      rw [membersFit] at fits
      rw [memberLines, memberFields, show dumpMembers roundTripText (member :: members) =
        fun state => dumpMembers roundTripText members (dumpMember roundTripText member state) from
          funext fun _ => by rw [dumpMembers]]
      exact (dumpMember_spells numbers member fits.1).append
        (dumpMembers_spells numbers members fits.2)

theorem dumpMember_spells (numbers : Numeric roundTripText) : (member : Member) → member.Fits →
    ShownPiece (member.lines roundTripText) (dumpMember roundTripText member)
      (member.fields roundTripText)
  | .singular name accessor, fits => by
      rw [Member.Fits] at fits
      rw [dumpMember, Member.lines, Member.fields]
      cases shown : accessor.shown with
      | none =>
          refine shownPiece_nothing _ fun state => ?_
          rw [singularField, shown]
      | some value =>
          rw [show singularField roundTripText name accessor =
            beginField name (writeLeaf roundTripText value) from
              funext fun state => by rw [singularField, shown]]
          exact shownPiece_leaf numbers (fits value shown) name
  | .message name none, _ => by
      rw [dumpMember, Member.lines, Member.fields]
      exact shownPiece_nothing _ fun _ => rfl
  | .message name (some value), fits => by
      rw [Member.Fits] at fits
      rw [dumpMember, Member.lines, Member.fields]
      obtain ⟨line, puts⟩ := rpDumpWrite_spells numbers value fits
      exact shownPiece_field line puts name true
  | .repeated name values, fits => by
      rw [Member.Fits] at fits
      rw [dumpMember, Member.lines, Member.fields]
      have piece := shownPiece_repeatedField (renders_leaves roundTripText values)
        (shown_leaves numbers fits) name false
      rwa [groupMember, List.isEmpty_map] at piece
  | .repeatedMessage name values, fits => by
      rw [Member.Fits] at fits
      rw [dumpMember, Member.lines, Member.fields]
      have piece := shownPiece_repeatedField (dumpElements_renders roundTripText values)
        (dumpElements_spells numbers values fits) name true
      rwa [groupMember, elementValues_isEmpty] at piece
  | .map name entries, fits => by
      rw [Member.Fits] at fits
      rw [dumpMember, Member.lines, Member.fields]
      have piece := shownPiece_mapField (renders_leafEntries roundTripText entries)
        (shown_leafEntries numbers fits) name false
      rwa [groupMember, List.isEmpty_map] at piece
  | .mapMessage name entries, fits => by
      rw [Member.Fits] at fits
      rw [dumpMember, Member.lines, Member.fields]
      have piece := shownPiece_mapField (dumpEntries_renders roundTripText entries)
        (dumpEntries_spells numbers entries fits) name true
      rwa [groupMember, entryFields_isEmpty] at piece
  | .unset, _ => by
      rw [dumpMember, Member.lines, Member.fields]
      exact shownPiece_nothing _ fun _ => rfl
  | .active name value, fits => by
      rw [Member.Fits] at fits
      rw [dumpMember, Member.lines, Member.fields]
      exact shownPiece_leaf numbers fits name
  | .activeMessage name value, fits => by
      rw [Member.Fits] at fits
      rw [dumpMember, Member.lines, Member.fields]
      obtain ⟨line, puts⟩ := rpDumpWrite_spells numbers value fits
      exact shownPiece_field line puts name true

theorem dumpElements_spells (numbers : Numeric roundTripText) : (values : List Message) →
    elementsFit values →
    Shown (Reads unescape) (elementLines roundTripText values) (dumpElements roundTripText values)
      (elementValues roundTripText values)
  | [], _ => by
      rw [elementLines, dumpElements, elementValues]
      exact .nil
  | value :: values, fits => by
      rw [elementsFit] at fits
      rw [elementLines, dumpElements, elementValues]
      obtain ⟨line, puts⟩ := rpDumpWrite_spells numbers value fits.1
      exact .cons line puts (dumpElements_spells numbers values fits.2)

theorem dumpEntries_spells (numbers : Numeric roundTripText) :
    (entries : List (MapKey × Option Message)) → entriesFit entries →
    Shown (ReadsMember unescape) (entryLines roundTripText entries)
      ((dumpEntries roundTripText entries).map fun entry w => entry.2 (Writer.write entry.1.text w))
      (entryFields roundTripText entries)
  | [], _ => by
      rw [entryLines, dumpEntries, entryFields]
      exact .nil
  | (key, none) :: entries, fits => by
      rw [entriesFit] at fits
      rw [entryLines, dumpEntries, entryFields]
      have null : Spells (Reads unescape) (text "null") (.word (text "null")) :=
        Json.spells_word (by decide)
      have puts : Puts (Writer.write (text "null"))
          (Spells (Reads unescape) · (.word (text "null"))) := by
        apply (puts_write _).imp
        rintro bytes rfl
        exact null
      exact .cons (spells_entry key null) (puts.entry key) (dumpEntries_spells numbers entries fits)
  | (key, some value) :: entries, fits => by
      rw [entriesFit] at fits
      rw [entryLines, dumpEntries, entryFields]
      obtain ⟨line, puts⟩ := rpDumpWrite_spells numbers value fits.1
      exact .cons (spells_entry key line) (puts.entry key) (dumpEntries_spells numbers entries fits.2)

end

/-- Whatever the width, the indent and the skip paths, a dump is read as JSON, byte by byte, and its
value is that of the tree without the skipped fields.  The bytes of a string are passed on as they
are, so a string that is not UTF-8 makes a text that is not. -/
theorem dump_means (numbers : Numeric roundTripText) (width indent : Nat) (skip : List Text)
    (tree : Message) (fits : tree.Fits) :
    Json.read unescape (dump roundTripText width indent skip tree) =
      some ((tree.prune skip []).json roundTripText) := by
  have idle : (Writer.start width indent []).Idle := ⟨rfl, rfl, rfl, rfl⟩
  obtain ⟨-, bytes, out, spells⟩ :=
    (rpDumpWrite_spells numbers _ (tree.fits_prune skip fits [])).2 _ idle
  have same : dump roundTripText width indent skip tree = bytes :=
    calc dump roundTripText width indent skip tree
      _ = dump roundTripText width indent [] (tree.prune skip []) := by
          rw [dump, dump, dumped_prune]
          rfl
      _ = bytes := out
  rw [same]
  exact Json.read_of_spells spells

/-- A message with two arrays, a message below it, and a field that is skipped there. -/
def nestedSample : Message :=
  .mk true [.repeated ⟨text "prices", by decide, by decide⟩ [.float (.single 0x3F800000),
      .float (.single 0x3F800000)],
    .repeated ⟨text "counts", by decide, by decide⟩ [.scalar (-20), .scalar 7],
    .message ⟨text "below", by decide, by decide⟩ (some (.mk false
      [.singular ⟨text "hidden", by decide, by decide⟩ (.optional (some (.string (text "x")))),
        .active ⟨text "shown", by decide, by decide⟩ (.bool true)]))]

/-- At width 12 the sample is written over several lines. -/
theorem dump_means_nested :
    Json.read unescape (dump (fun _ => ⟨text "1", by decide⟩) 12 0 [text "below.hidden"] nestedSample) =
      some ((nestedSample.prune [text "below.hidden"] []).json fun _ => ⟨text "1", by decide⟩) := by
  apply dump_means (fun _ _ => by decide)
  simp [nestedSample, Message.Fits, membersFit, Member.Fits, Leaf.Fits, Accessor.shown]

end Trees

end Dump
end RapidProto
