import RapidProto.Loop
import RapidProto.Wire.Basic

/-!
# The value-threaded wire readers

The free functions of `namespace wire`, as the source computes them: every dereference is a `peek`
and every cursor step an `advance`, so an access past `end` would show up as `Outcome.outside`.
A reader returns the value it wrote through its out-parameter together with the advanced cursor; a
null return is a `fail`.
-/

namespace RapidProto

/-- The validating loop of `read_varint`; `turns` counts the remaining values of `shift`.  The tenth
byte may only contribute bit 63. -/
def readVarintLoop : (turns shift : Nat) → BitVec 64 → Cursor →
    Outcome WireError (BitVec 64 × Cursor)
  | 0, _, _, _ => .fail .varintOverflow
  | turns + 1, shift, result, p =>
    if p.length = 0 then .fail .truncatedVarint
    else do
      let b ← peek p 0
      if shift = 63 ∧ 1 < b.toNat then .fail .varintOverflow
      else do
        let p ← advance p 1
        let result := result ||| (payload7 b <<< shift)
        if terminates b then .ok (result, p) else readVarintLoop turns (shift + 7) result p

/-- Read one varint. -/
def readVarint (p : Cursor) : Outcome WireError (BitVec 64 × Cursor) :=
  if 0 < p.length then do
    let b ← peek p 0
    if terminates b then do
      let rest ← advance p 1
      .ok (b.setWidth 64, rest)
    else readVarintLoop 10 0 0 p
  else readVarintLoop 10 0 0 p

/-- Read and validate a tag. -/
def readTag (p : Cursor) : Outcome WireError (Tag × Cursor) :=
  if 0 < p.length then do
    let b ← peek p 0
    if terminates b then
      match b.toNat >>> 3, WireType.ofCode (b.toNat &&& 7) with
      | 0, _ => multiByte
      | field + 1, some wire => do
        let rest ← advance p 1
        .ok (⟨field + 1, wire⟩, rest)
      | _, none => multiByte
    else multiByte
  else multiByte
where
  /-- The general path: the whole 64-bit varint is read, so an over-range number is reported. -/
  multiByte : Outcome WireError (Tag × Cursor) := do
    let (raw, rest) ← readVarint p
    let field := (raw >>> 3).toNat
    if field = 0 then .fail .invalidFieldNumber
    else if kMaxFieldNumber < field then .fail .fieldNumberRange
    else
      match WireType.ofCode (raw &&& 7).toNat with
      | none => .fail .reservedWireType
      | some wire => .ok (⟨field, wire⟩, rest)

/-- The fused tag-or-end read that drives every decode loop: `none` is the clean end.  A second byte
that terminates and is not zero makes a field number from 16 to 2047. -/
def readTagOrEnd (p : Cursor) : Outcome WireError (Option (Tag × Cursor)) :=
  if p.length = 0 then .ok none
  else do
    let b ← peek p 0
    if terminates b then
      match b.toNat >>> 3, WireType.ofCode (b.toNat &&& 7) with
      | field + 1, some wire => do
        let rest ← advance p 1
        .ok (some (⟨field + 1, wire⟩, rest))
      | _, _ => general
    else if 2 ≤ p.length then do
      let b1 ← peek p 1
      if b1 - 1 < 0x7F then
        let value := (b.toNat &&& 0x7F) ||| (b1.toNat <<< 7)
        match WireType.ofCode (value &&& 7) with
        | some wire => do
          let rest ← advance p 2
          .ok (some (⟨value >>> 3, wire⟩, rest))
        | none => general
      else general
    else general
where
  /-- Three or more bytes, non-canonical, or invalid. -/
  general : Outcome WireError (Option (Tag × Cursor)) := do
    let found ← readTag p
    .ok (some found)

/-- Little-endian four-byte read. -/
def readFixed32 (p : Cursor) : Outcome WireError (BitVec 32 × Cursor) :=
  if p.length < 4 then .fail .truncatedI32
  else do
    let b0 ← peek p 0
    let b1 ← peek p 1
    let b2 ← peek p 2
    let b3 ← peek p 3
    let rest ← advance p 4
    .ok (b0.setWidth 32 ||| b1.setWidth 32 <<< 8 ||| b2.setWidth 32 <<< 16 |||
      b3.setWidth 32 <<< 24, rest)

/-- The byte loop of `read_fixed64`; `left` bytes remain. -/
def readFixed64Loop (p : Cursor) : (left : Nat) → (index : Nat) → BitVec 64 →
    Outcome WireError (BitVec 64)
  | 0, _, value => .ok value
  | left + 1, index, value => do
    let b ← peek p index
    readFixed64Loop p left (index + 1) (value ||| b.setWidth 64 <<< (index * 8))

/-- Little-endian eight-byte read. -/
def readFixed64 (p : Cursor) : Outcome WireError (BitVec 64 × Cursor) :=
  if p.length < 8 then .fail .truncatedI64
  else do
    let value ← readFixed64Loop p 8 0 0
    let rest ← advance p 8
    .ok (value, rest)

/-- The view of `count` bytes at `p`. -/
def byteView {ε : Type} (p : Cursor) (count : Nat) : Outcome ε (List Byte) :=
  if count ≤ p.length then .ok (p.take count) else .outside

/-- Read a length prefix and the payload span it announces.  As `size_t` has 64 bits,
`LengthTooLarge` is compiled out. -/
def readLengthDelimited (p : Cursor) : Outcome WireError (List Byte × Cursor) := do
  let (len, np) ← readVarint p
  if np.length < len.toNat then .fail .lengthExceedsBuffer
  else do
    let payload ← byteView np len.toNat
    let rest ← advance np len.toNat
    .ok (payload, rest)

/-- Attach the offset of the cursor a leaf reader was called with. -/
def located {α : Type} (span : Nat) (p : Cursor) (read : Outcome WireError α) :
    Outcome WireFail α :=
  read.mapError (failAt span p)

/-- `skip_value`, with `scan_group_end` given by `scan`. -/
def skipValueWith (scan : Nat → Nat → Cursor → Outcome WireFail (Cursor × Cursor))
    (span : Nat) (tag : Tag) (depth : Nat) (p : Cursor) : Outcome WireFail Cursor :=
  match tag.wireType with
  | .varint => Prod.snd <$> located span p (readVarint p)
  | .i64 => Prod.snd <$> located span p (readFixed64 p)
  | .i32 => Prod.snd <$> located span p (readFixed32 p)
  | .len => Prod.snd <$> located span p (readLengthDelimited p)
  | .sgroup => Prod.snd <$> scan tag.fieldNumber (depth + 1) p
  | .egroup => .fail (failAt span p .unexpectedEndGroup)

/-- One turn of the record loop in `scan_group_end`.  The loop stops with the cursor at the matching
EGROUP tag and the cursor just past it. -/
def scanGroupTurn (scan : Nat → Nat → Cursor → Outcome WireFail (Cursor × Cursor))
    (span fieldNumber depth : Nat) (_ : Unit) (tagStart : Cursor) :
    Outcome WireFail (Turn Byte Unit (Cursor × Cursor)) :=
  if tagStart.length = 0 then .fail (failAt span tagStart .unterminatedGroup)
  else do
    let (tag, p) ← located span tagStart (readTag tagStart)
    if tag.wireType = .egroup then
      if tag.fieldNumber ≠ fieldNumber then .fail (failAt span tagStart .endGroupMismatch)
      else .ok (.stop (tagStart, p))
    else do
      let p ← skipValueWith scan span tag depth p
      .ok (.next () p)

/-- `scan_group_end`; `frames` bounds the native recursion. -/
def scanGroupEnd (span : Nat) : (frames : Nat) → (fieldNumber depth : Nat) → Cursor →
    Outcome WireFail (Cursor × Cursor)
  | 0, _, _, _ => .spin
  | frames + 1, fieldNumber, depth, p =>
    if kMaxGroupDepth < depth then .fail (failAt span p .groupTooDeep)
    else runLoop (scanGroupTurn (scanGroupEnd span frames) span fieldNumber depth) () p

/-- Deepest recursion of the group walk: a call at `kMaxGroupDepth + 1` returns at once. -/
def kGroupFrames : Nat := kMaxGroupDepth + 1

/-- Skip one value, starting outside any group. -/
def skipValue (span : Nat) (tag : Tag) (p : Cursor) : Outcome WireFail Cursor :=
  skipValueWith (scanGroupEnd span kGroupFrames) span tag 0 p

/-- Read a group body up to its EGROUP tag. -/
def readGroup (span fieldNumber : Nat) (p : Cursor) : Outcome WireFail (List Byte × Cursor) := do
  let (egroupTag, rest) ← scanGroupEnd span kGroupFrames fieldNumber 1 p
  let body ← byteView p (p.length - egroupTag.length)
  .ok (body, rest)

end RapidProto
