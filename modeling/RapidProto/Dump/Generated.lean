import RapidProto.Dump.Writer
import RapidProto.Front.Lexer

/-!
# The generated dumpers

What the code emitted by `dumpgen/generator.cpp` does with a decoded tree.  The tree is what the
accessors of the arena message hand out, field by field in the order of emission; a member that the
profile dropped has no accessor and is not in it.  The values are written by the functions of
`dump_runtime.hpp`.  The decimal text of a finite floating-point value is the standard library's,
and a parameter here.
-/

namespace RapidProto
namespace Dump

open Front (Text byte text isLetterOrDigit)

/-- A name of the schema: letters, digits and underscores. -/
structure Identifier where
  bytes : Text
  nonempty : bytes ≠ []
  plain : ∀ c ∈ bytes, isLetterOrDigit c = true
  deriving DecidableEq

/-- The text of a finite number. -/
structure NumberText where
  bytes : Text
  nonempty : bytes ≠ []

/-- A `float` or a `double`, by its bit pattern. -/
inductive FloatBits where
  | single (bits : BitVec 32)
  | double (bits : BitVec 64)
  deriving DecidableEq

/-- `FloatClass`. -/
inductive FloatClass where
  | finite | nan | inf | negInf
  deriving DecidableEq

/-- `classify`, for a type of the given width with the given number of mantissa bits. -/
def classifyBits {width : Nat} (mantissaBits : Nat) (bits : BitVec width) : FloatClass :=
  let exponentMax : BitVec width := (1 <<< (width - mantissaBits - 1)) - 1
  if (bits >>> mantissaBits) &&& exponentMax ≠ exponentMax then .finite
  else if bits &&& ((1 <<< mantissaBits) - 1) ≠ 0 then .nan
  else if bits >>> (width - 1) ≠ 0 then .negInf
  else .inf

/-- `classify`. -/
def FloatBits.classify : FloatBits → FloatClass
  | .single bits => classifyBits 23 bits
  | .double bits => classifyBits 52 bits

/-- `is_positive_zero`. -/
def FloatBits.isPositiveZero : FloatBits → Bool
  | .single bits => bits == 0
  | .double bits => bits == 0

/-! ## The value writers -/

/-- The digit loop of `write_int`, in front of the digits already there. -/
def digitLoop : (room : Nat) → (magnitude : Nat) → (chars : Text) → Text
  | 0, _, chars => chars
  | room + 1, magnitude, chars =>
      let chars := (byte '0' + BitVec.ofNat 8 (magnitude % 10)) :: chars
      if magnitude / 10 = 0 then chars else digitLoop room (magnitude / 10) chars

/-- `write_int`; the 24 characters hold any 64-bit value. -/
def writeInt (value : Int) : Text :=
  let digits := digitLoop 24 value.natAbs []
  if value < 0 then byte '-' :: digits else digits

/-- `write_bool`. -/
def writeBool (value : Bool) : Text := if value then text "true" else text "false"

/-- The lowercase hex digit of a nibble. -/
def hexDigit (nibble : Byte) : Byte := (text "0123456789abcdef").getD nibble.toNat 0

/-- `hex_high` and `hex_low`. -/
def hexPair (c : Byte) : Text := [hexDigit (c >>> 4), hexDigit (c &&& 0xF)]

/-- `write_hex`. -/
def writeHex (bytes : Text) : Text := bytes.flatMap hexPair

/-- One turn of `write_json_escaped`. -/
def escapeByte (c : Byte) : Text :=
  if c = byte '"' then [byte '\\', byte '"']
  else if c = byte '\\' then [byte '\\', byte '\\']
  else if c = byte '\n' then [byte '\\', byte 'n']
  else if c = byte '\r' then [byte '\\', byte 'r']
  else if c = byte '\t' then [byte '\\', byte 't']
  else if c < 0x20 then byte '\\' :: text "u00" ++ hexPair c
  else [c]

/-- `write_json_escaped`. -/
def writeJsonEscaped (bytes : Text) : Text := bytes.flatMap escapeByte

/-- Put a text into quotes. -/
def quoted (bytes : Text) : Text := byte '"' :: bytes ++ [byte '"']

/-- A value that is not a message, under the kinds of `ValueKind`. -/
inductive Leaf where
  | scalar (value : Int)
  | bool (value : Bool)
  | float (bits : FloatBits)
  | string (value : Text)
  | bytes (value : Text)
  /-- An enum value, with the name that its table has for it. -/
  | enum (name : Option Identifier) (number : Int)
  deriving DecidableEq

/-- The value is the default that an implicit-presence field is not dumped at. -/
def Leaf.isDefault : Leaf → Bool
  | .scalar value => value == 0
  | .bool value => !value
  | .float bits => bits.isPositiveZero
  | .string value => value.isEmpty
  | .bytes value => value.isEmpty
  | .enum _ number => number == 0

/-- A map key. -/
inductive MapKey where
  | string (value : Text)
  | bool (value : Bool)
  | scalar (value : Int)
  deriving DecidableEq

/-- A map key in front of its value. -/
def MapKey.text (key : MapKey) : Text :=
  quoted (match key with
    | .string value => writeJsonEscaped value
    | .bool value => writeBool value
    | .scalar value => writeInt value) ++ [byte ':', byte ' ']

/-- What the accessor of a singular field that is not a message hands out, by its presence. -/
inductive Accessor where
  | optional (value : Option Leaf)
  | implicit (value : Leaf)
  | required (value : Leaf)
  deriving DecidableEq

/-- The value that the test in front of a singular field lets through. -/
def Accessor.shown : Accessor → Option Leaf
  | .optional value => value
  | .implicit value => if value.isDefault then none else some value
  | .required value => some value

mutual

/-- A decoded message: whether its unknown-field bit is reserved and set, and its members. -/
inductive Message where
  | mk (hasUnknown : Bool) (members : List Member)

/-- A member of a message with what its accessor hands out. -/
inductive Member where
  | singular (name : Identifier) (accessor : Accessor)
  /-- A message field; the pointer may be null. -/
  | message (name : Identifier) (value : Option Message)
  | repeated (name : Identifier) (values : List Leaf)
  | repeatedMessage (name : Identifier) (values : List Message)
  | map (name : Identifier) (entries : List (MapKey × Leaf))
  /-- A map of messages; the pointer of an entry may be null. -/
  | mapMessage (name : Identifier) (entries : List (MapKey × Option Message))
  /-- A oneof no member of which is set. -/
  | unset
  /-- A oneof with its active member. -/
  | active (name : Identifier) (value : Leaf)
  | activeMessage (name : Identifier) (value : Message)

end

/-- What a message's body does: the flag `rp_first` and the writer, before and after. -/
abbrev Piece := Bool × Writer → Bool × Writer

/-- `begin_field` with the value behind it. -/
def beginField (name : Identifier) (value : Writer → Writer) : Piece := fun (first, w) =>
  if w.skipped name.bytes then (first, w) else (false, value ((w.entrySep first).key name.bytes))

/-- A value whose fields sit under a name. -/
def under (name : Identifier) (value : Writer → Writer) (w : Writer) : Writer :=
  (value (w.pushPath name.bytes)).popPath

/-- The loop over the entries of an array or a map. -/
def entryLoop (first : Bool) : List (Writer → Writer) → Writer → Writer
  | [], w => w
  | write :: writes, w =>
      let w := write (w.entrySep first)
      if w.overflowed then w else entryLoop false writes w

/-- `emit_repeated_field`, for elements that are messages or not. -/
def repeatedField (name : Identifier) (nested : Bool) (elements : List (Writer → Writer)) : Piece :=
  fun state =>
    if elements.isEmpty then state
    else
      let value := Writer.group (byte '[') (byte ']') (entryLoop true elements)
      beginField name (if nested then under name value else value) state

/-- `emit_map_field`, for values that are messages or not. -/
def mapField (name : Identifier) (nested : Bool) (entries : List (MapKey × (Writer → Writer))) :
    Piece := fun state =>
  if entries.isEmpty then state
  else
    let writes := entries.map fun entry w => entry.2 (Writer.write entry.1.text w)
    let value := Writer.group (byte '\x7b') (byte '\x7d') (entryLoop true writes)
    beginField name (if nested then under name value else value) state

/-- The entry of a message that has unknown fields. -/
def unknownEntry (hasUnknown : Bool) : Piece := fun (first, w) =>
  if hasUnknown then
    (false, (w.entrySep first).write (quoted (text "has_unknown_fields") ++ text ": true"))
  else (first, w)

section Values

variable (roundTripText : FloatBits → NumberText)

/-- `write_float`. -/
def writeFloat (bits : FloatBits) : Text :=
  match bits.classify with
  | .nan => quoted (text "NaN")
  | .inf => quoted (text "Infinity")
  | .negInf => quoted (text "-Infinity")
  | .finite => (roundTripText bits).bytes

/-- `emit_write_value`, for a value that is not a message. -/
def Leaf.text : Leaf → Text
  | .scalar value => writeInt value
  | .bool value => writeBool value
  | .float bits => writeFloat roundTripText bits
  | .string value => quoted (writeJsonEscaped value)
  | .bytes value => quoted (writeHex value)
  | .enum (some name) _ => quoted name.bytes
  | .enum none number =>
      quoted (Front.text "UNKNOWN(" ++ writeInt number ++ [byte ')'])

/-- Write a value that is not a message. -/
def writeLeaf (value : Leaf) : Writer → Writer := Writer.write (value.text roundTripText)

/-- `emit_singular_field`, for a value that is not a message. -/
def singularField (name : Identifier) (accessor : Accessor) : Piece := fun state =>
  match accessor.shown with
  | none => state
  | some value => beginField name (writeLeaf roundTripText value) state

mutual

/-- `rp_dump_write`. -/
def rpDumpWrite : Message → Writer → Writer
  | .mk hasUnknown members =>
      Writer.group (byte '\x7b') (byte '\x7d') fun w =>
        (dumpMembers members (unknownEntry hasUnknown (true, w))).2

def dumpMembers : List Member → Piece
  | [], state => state
  | member :: members, state => dumpMembers members (dumpMember member state)

/-- The code emitted for a member. -/
def dumpMember : Member → Piece
  | .singular name accessor => singularField roundTripText name accessor
  | .message _ none => id
  | .message name (some value) => beginField name (under name (rpDumpWrite value))
  | .repeated name values => repeatedField name false (values.map (writeLeaf roundTripText))
  | .repeatedMessage name values => repeatedField name true (dumpElements values)
  | .map name entries =>
      mapField name false (entries.map fun entry => (entry.1, writeLeaf roundTripText entry.2))
  | .mapMessage name entries => mapField name true (dumpEntries entries)
  | .unset => id
  | .active name value => beginField name (writeLeaf roundTripText value)
  | .activeMessage name value => beginField name (under name (rpDumpWrite value))

def dumpElements : List Message → List (Writer → Writer)
  | [] => []
  | value :: values => rpDumpWrite value :: dumpElements values

def dumpEntries : List (MapKey × Option Message) → List (MapKey × (Writer → Writer))
  | [] => []
  | (key, none) :: entries => (key, Writer.write (Front.text "null")) :: dumpEntries entries
  | (key, some value) :: entries => (key, rpDumpWrite value) :: dumpEntries entries

end

/-- The writer behind a dump. -/
def dumped (width indent : Nat) (skip : List Text) (tree : Message) : Writer :=
  rpDumpWrite roundTripText tree (Writer.start width indent skip)

/-- `rapidproto::dump`. -/
def dump (width indent : Nat) (skip : List Text) (tree : Message) : Text :=
  (dumped roundTripText width indent skip tree).out

end Values

end Dump
end RapidProto
