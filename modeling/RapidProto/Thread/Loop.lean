import Mathlib.Data.List.Sort
import RapidProto.Keyed
import RapidProto.Wire.Record

/-!
# The threaded decode loop

Both generators emit the same loop shape around their own field bodies.  `plainLoop` reads a tag,
switches on the field number under a wire-type guard and otherwise skips; `threadedLoop` is what
`emit_hub_and_labels` prints: a peek at the first tag byte, one tag-consumed label per threaded
field, a self-loop for repeated fields, and probes for the tags of the next fields.  The bodies are
a parameter of both.
-/

namespace RapidProto

/-- The routing facts of one field of a message. -/
structure Shape where
  /-- Field number. -/
  number : Nat
  /-- Wire type of a singular value or of one repeated element. -/
  wire : WireType
  /-- The field is repeated. -/
  repeated : Bool := false
  /-- The field may take a label; maps and raw fields never do. -/
  labelled : Bool := true
  /-- The field is dropped: its records are skipped. -/
  dropped : Bool := false
  /-- The oneof the field is a member of. -/
  oneof : Option Nat := none
  deriving DecidableEq, Repr

/-- `is_packable_wire`. -/
def isPackableWire (wire : WireType) : Bool := wire ≠ .len ∧ wire ≠ .sgroup

/-- Largest field number with a one-byte tag. -/
def kMaxOneByteTagField : Nat := 15

/-- Largest field number with a two-byte tag. -/
def kMaxTwoByteTagField : Nat := 2047

namespace Shape

/-- A repeated field whose elements may also come in packed runs. -/
def packable (field : Shape) : Bool := field.repeated && isPackableWire field.wire

/-- The field has a label of its own: `is_threadable_singular`, and the narrower test for repeated
fields. -/
def threaded (field : Shape) : Bool :=
  field.labelled ∧ ¬ field.dropped ∧ field.wire ≠ .sgroup ∧ 1 ≤ field.number ∧
    field.number ≤ if field.repeated then kMaxOneByteTagField else kMaxTwoByteTagField

end Shape

/-- Where a tag is sent. -/
inductive Route where
  /-- A singular value or one repeated element. -/
  | native (field : Shape)
  /-- A packed run. -/
  | packed (field : Shape)
  /-- A declared field with another wire type, or a dropped one. -/
  | skip
  /-- A field number the schema does not declare. -/
  | unknown

/-- The switch on the field number, with its wire-type guards. -/
def route (fields : List Shape) (tag : Tag) : Route :=
  match findKey Shape.number tag.fieldNumber fields with
  | none => .unknown
  | some field =>
    if field.dropped then .skip
    else if tag.wireType = field.wire then .native field
    else if field.packable ∧ tag.wireType = .len then .packed field
    else .skip

/-- The bodies of a message's fields, over a decoder state `σ`.  A body starts behind the tag and
returns the advanced cursor; every body consumes what it decodes. -/
structure Arms (σ ε : Type) where
  /-- The declared fields; the switch has one case for each number. -/
  fields : List Shape
  /-- No two cases share a number. -/
  distinct : (fields.map Shape.number).Nodup
  /-- The error reported for a wire failure. -/
  wire : σ → WireFail → ε
  /-- A singular value or one repeated element. -/
  native : Shape → σ → Cursor → Outcome ε (σ × Cursor)
  /-- A packed run.  The flag says that the body leaves its label with a `continue` of its own. -/
  packed : Shape → σ → Cursor → Outcome ε ((σ × Bool) × Cursor)
  /-- The default case of the switch. -/
  unknown : Tag → σ → Cursor → Outcome ε (σ × Cursor)
  /-- A value is never empty. -/
  native_lt : ∀ {field state p state' q}, native field state p = .ok (state', q) →
    q.length < p.length
  /-- A packed run has at least its length prefix. -/
  packed_lt : ∀ {field state p result q}, packed field state p = .ok (result, q) →
    q.length < p.length
  /-- An unknown record is consumed. -/
  unknown_lt : ∀ {tag state p state' q}, unknown tag state p = .ok (state', q) →
    q.length < p.length

variable {σ ε : Type}

namespace Arms

variable (arms : Arms σ ε) (span : Nat)

/-- The shared skip at the end of the general path. -/
def skip (tag : Tag) (state : σ) (p : Cursor) : Outcome ε (σ × Cursor) := do
  let p ← (skipValue span tag p).mapError (arms.wire state)
  .ok (state, p)

/-- `read_tag_or_end` with the failure anchored at the cursor it was called with. -/
def readTag (state : σ) (p : Cursor) : Outcome ε (Option (Tag × Cursor)) :=
  (readTagOrEnd p).mapError fun error => arms.wire state (failAt span p error)

/-! ## The plain loop -/

/-- The body of a route. -/
def follow (tag : Tag) (state : σ) (p : Cursor) : Outcome ε (σ × Cursor) :=
  match route arms.fields tag with
  | .native field => arms.native field state p
  | .packed field => do
    let ((state, _), p) ← arms.packed field state p
    .ok (state, p)
  | .skip => arms.skip span tag state p
  | .unknown => arms.unknown tag state p

/-- One turn: read a tag, follow it. -/
def plainTurn (state : σ) (p : Cursor) : Outcome ε (Turn Byte σ (σ × Cursor)) := do
  match ← arms.readTag span state p with
  | none => .ok (.stop (state, p))
  | some (tag, p) => do
    let (state, p) ← arms.follow span tag state p
    .ok (.next state p)

/-- Read a tag, switch on the field number with a wire-type guard, otherwise skip. -/
def plainLoop (state : σ) (p : Cursor) : Outcome ε (σ × Cursor) :=
  runLoop (arms.plainTurn span) state p

end Arms

/-! ## The threaded loop -/

/-- A program point of the threaded loop. -/
inductive Label where
  /-- The top of the `for (;;)`. -/
  | top
  /-- `rp_do_<n>`, with the tag consumed. -/
  | native (field : Shape)
  /-- `rp_do_<n>_p`, with the tag consumed. -/
  | packed (field : Shape)

/-- The threaded fields, ascending by number. -/
def threadedFields (fields : List Shape) : List Shape :=
  (fields.filter Shape.threaded).insertionSort fun a b => a.number ≤ b.number

/-- The hub cases of one field. -/
def hubCase (b : Byte) (field : Shape) : Option Label :=
  if kMaxOneByteTagField < field.number then none
  else if b.toNat = rawTag field.number field.wire then some (.native field)
  else if field.packable ∧ b.toNat = rawTag field.number .len then some (.packed field)
  else none

/-- The hub switch on the first tag byte. -/
def hub (threaded : List Shape) (b : Byte) : Option Label := threaded.findSome? (hubCase b)

/-- The fields probed after the label of `field`: the next ones in number order, at most two, own
oneof siblings left out. -/
def successors (threaded : List Shape) (field : Shape) : List Shape :=
  let later := (threaded.dropWhile fun other => other.number ≠ field.number).tail
  (later.filter fun other => ¬ (field.oneof ≠ none ∧ other.oneof = field.oneof)).take 2

/-- One constant-tag probe: the cursor behind the tag when the next bytes are that tag. -/
def probeOne (field : Shape) (c : Cursor) : Outcome ε (Option Cursor) :=
  if field.number ≤ kMaxOneByteTagField then
    if 0 < c.length then do
      let b ← peek c 0
      if b.toNat = rawTag field.number field.wire then some <$> advance c 1 else .ok none
    else .ok none
  else
    let v := rawTag field.number field.wire
    if 1 < c.length then do
      let b0 ← peek c 0
      let b1 ← peek c 1
      if b0.toNat = (v &&& 0x7F) ||| 0x80 ∧ b1.toNat = v >>> 7 then some <$> advance c 2
      else .ok none
    else .ok none

/-- The probes of a list, in order; the first hit jumps to its label, a miss continues. -/
def probe (state : σ) (c : Cursor) : List Shape →
    Outcome ε (Turn Byte (Label × σ) (σ × Cursor))
  | [] => .ok (.next (.top, state) c)
  | field :: fields => do
    match ← probeOne field c with
    | some c => .ok (.next (.native field, state) c)
    | none => probe state c fields

namespace Arms

variable (arms : Arms σ ε) (span : Nat)

/-- The general path: a full tag read, then a jump to a label or a body in place. -/
def general (state : σ) (p : Cursor) : Outcome ε (Turn Byte (Label × σ) (σ × Cursor)) := do
  match ← arms.readTag span state p with
  | none => .ok (.stop (state, p))
  | some (tag, p) =>
    match route arms.fields tag with
    | .native field =>
      if field.threaded then .ok (.next (.native field, state) p)
      else do
        let (state, p) ← arms.native field state p
        .ok (.next (.top, state) p)
    | .packed field =>
      if field.threaded then .ok (.next (.packed field, state) p)
      else do
        let ((state, _), p) ← arms.packed field state p
        .ok (.next (.top, state) p)
    | .skip => do
      let (state, p) ← arms.skip span tag state p
      .ok (.next (.top, state) p)
    | .unknown => do
      let (state, p) ← arms.unknown tag state p
      .ok (.next (.top, state) p)

/-- The top of the loop; without a threaded field there is no hub. -/
def topTurn (state : σ) (p : Cursor) : Outcome ε (Turn Byte (Label × σ) (σ × Cursor)) :=
  let threaded := threadedFields arms.fields
  if threaded = [] then arms.general span state p
  else if p.length = 0 then .ok (.stop (state, p))
  else do
    let b ← peek p 0
    match hub threaded b with
    | some label => do
      let p ← advance p 1
      .ok (.next (label, state) p)
    | none => arms.general span state p

/-- `rp_do_<n>`: the body, the self-loop of a repeated field, the probes. -/
def nativeTurn (field : Shape) (state : σ) (p : Cursor) :
    Outcome ε (Turn Byte (Label × σ) (σ × Cursor)) := do
  let (state, p) ← arms.native field state p
  let after := successors (threadedFields arms.fields) field
  probe state p (if field.repeated then field :: after else after)

/-- `rp_do_<n>_p`: the packed body and the probes. -/
def packedTurn (field : Shape) (state : σ) (p : Cursor) :
    Outcome ε (Turn Byte (Label × σ) (σ × Cursor)) := do
  let ((state, continues), p) ← arms.packed field state p
  if continues then .ok (.next (.top, state) p)
  else probe state p (successors (threadedFields arms.fields) field)

/-- One turn from a program point to the next. -/
def threadedTurn (point : Label × σ) (p : Cursor) :
    Outcome ε (Turn Byte (Label × σ) (σ × Cursor)) :=
  match point.1 with
  | .top => arms.topTurn span point.2 p
  | .native field => arms.nativeTurn field point.2 p
  | .packed field => arms.packedTurn field point.2 p

/-- The loop `emit_hub_and_labels` and the general switch form together. -/
def threadedLoop (state : σ) (p : Cursor) : Outcome ε (σ × Cursor) :=
  runLoop (arms.threadedTurn span) (.top, state) p

end Arms
end RapidProto
