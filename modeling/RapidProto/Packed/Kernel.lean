import RapidProto.Packed.Swar

/-!
# The packed-varint kernel

`decode_packed_varints` and the loops it dispatches to, over an arbitrary sink.  The sink is a state
together with its `put`; it can observe the calls but, as in the source, not influence the kernel.
A failure carries the sink, so the calls made before it are part of the result.
-/

namespace RapidProto

variable {σ : Type}

/-- The running element count and the sink. -/
structure Fill (σ : Type) where
  /-- Index of the next element. -/
  n : Nat
  /-- What the sink has received. -/
  out : σ

/-- A malformed element, with the sink as it was left. -/
structure PackedFail (σ : Type) where
  /-- The reader's error and the offset of the element. -/
  failure : WireFail
  /-- What the sink had received. -/
  out : σ

/-- Deliver one element and count it. -/
def Fill.put (put : σ → Nat → BitVec 64 → σ) (fill : Fill σ) (raw : BitVec 64) : Fill σ :=
  { n := fill.n + 1, out := put fill.out fill.n raw }

/-- One turn of the validating scalar loop. -/
def scalarTurn (put : σ → Nat → BitVec 64 → σ) (span : Nat) (fill : Fill σ) (q : Cursor) :
    Outcome (PackedFail σ) (Turn Byte (Fill σ) (Fill σ)) :=
  if 0 < q.length then do
    let (raw, np) ← (readVarint q).mapError fun error => ⟨failAt span q error, fill.out⟩
    .ok (.next (fill.put put raw) np)
  else .ok (.stop fill)

/-- The plain loop over a small span. -/
def decodePackedVarintsSmall (put : σ → Nat → BitVec 64 → σ) (vp : Cursor) (out : σ) :
    Outcome (PackedFail σ) (Fill σ) :=
  runLoop (scalarTurn put vp.length) ⟨0, out⟩ vp

/-- Which kernel decodes a span. -/
inductive PackedKernel where
  | byteLoop | swar | struct | bulk1 | bulk2
  /-- Homogeneous elements of the given width. -/
  | fixed (width : Nat)
  deriving DecidableEq, Repr

/-- The span floor below which the kernels never engage. -/
def kPackedKernelMinSpan : Nat := 256

/-- What the terminator scan of `packed_strategy` tracks. -/
structure StopScan where
  /-- Previous terminator position. -/
  last : Int := -1
  /-- Width of the first varint, negative before it is known. -/
  g0 : Int := -1
  /-- Largest width. -/
  maxw : Int := 0
  /-- All widths equal so far. -/
  homo : Bool := true

/-- One terminator of the scan. -/
def StopScan.visit {ε : Type} (scan : StopScan) (b : Nat) : Outcome ε StopScan :=
  let w := (b : Int) - scan.last
  .ok
    { last := b
      maxw := if w > scan.maxw then w else scan.maxw
      g0 := if scan.g0 < 0 then w else scan.g0
      homo := if scan.g0 < 0 then scan.homo else if w ≠ scan.g0 then false else scan.homo }

/-- Classify the width regime from the first 64 bytes. -/
def packedStrategy {ε : Type} (p : Cursor) : Outcome ε PackedKernel :=
  if p.length < kPackedKernelMinSpan then .ok .byteLoop
  else do
    let stop ← stopmask64 p
    if stop = 0 then .ok .byteLoop
    else do
      let scan ← forBits StopScan.visit stop {}
      .ok <|
        if !scan.homo then (if scan.maxw ≤ 5 then .struct else .swar)
        else if scan.g0 = 1 then .bulk1
        else if scan.g0 = 2 then .bulk2
        else if 3 ≤ scan.g0 ∧ scan.g0 ≤ 10 then .fixed scan.g0.toNat
        else .byteLoop

/-- A word of the 64-byte test of `Bulk1`; `left` words remain, the next one is word `j`. -/
def anyMsbLoop {ε : Type} (q : Cursor) : (left j : Nat) → BitVec 64 → Outcome ε (BitVec 64)
  | 0, _, any => .ok any
  | left + 1, j, any => do
    let p ← advance q (8 * j)
    let w ← load64 p
    anyMsbLoop q left (j + 1) (any ||| (w &&& kMSB))

/-- Deliver `left` bytes from `q[i]` on as one-byte varints. -/
def putBytes {ε : Type} (put : σ → Nat → BitVec 64 → σ) (q : Cursor) :
    (left i : Nat) → Fill σ → Outcome ε (Fill σ)
  | 0, _, fill => .ok fill
  | left + 1, i, fill => do
    let b ← peek q i
    putBytes put q left (i + 1) (fill.put put (b.setWidth 64))

/-- One turn of the `Bulk1` loop. -/
def bulk1Turn {ε : Type} (put : σ → Nat → BitVec 64 → σ) (fill : Fill σ) (q : Cursor) :
    Outcome ε (Turn Byte (Fill σ) (Fill σ × Cursor)) :=
  if 64 ≤ q.length then do
    let any ← anyMsbLoop q 8 0 0
    if any = 0 then do
      let fill ← putBytes put q 64 0 fill
      let q ← advance q 64
      .ok (.next fill q)
    else .ok (.stop (fill, q))
  else .ok (.stop (fill, q))

/-- `static_cast<std::uint16_t>(y >> shift)`, widened. -/
def half16 (y : BitVec 64) (shift : Nat) : BitVec 64 := ((y >>> shift).setWidth 16).setWidth 64

/-- The four 14-bit values of a word of two-byte varints, in 16-bit lanes. -/
def pairs7 (w : BitVec 64) : BitVec 64 :=
  let x := w &&& kLow7
  (x &&& 0x007F007F007F007F) ||| ((x &&& 0x7F007F007F007F00) >>> 1)

/-- One turn of the `Bulk2` loop. -/
def bulk2Turn {ε : Type} (put : σ → Nat → BitVec 64 → σ) (fill : Fill σ) (q : Cursor) :
    Outcome ε (Turn Byte (Fill σ) (Fill σ × Cursor)) :=
  if 8 ≤ q.length then do
    let w ← load64 q
    if w &&& kMSB = 0x0080008000800080 then do
      let y := pairs7 w
      let fill := fill.put put (half16 y 0)
      let fill := fill.put put (half16 y 16)
      let fill := fill.put put (half16 y 32)
      let fill := fill.put put (half16 y 48)
      let q ← advance q 8
      .ok (.next fill q)
    else .ok (.stop (fill, q))
  else .ok (.stop (fill, q))

/-- Most significant bits of the low `width` bytes. -/
def kMsbW (width : Nat) : BitVec 64 := kMSB &&& lowByteMask width

/-- The continuation pattern of exactly one varint of `width` bytes. -/
def kOneVarint (width : Nat) : BitVec 64 := kMsbW width ^^^ (0x80#64 <<< (8 * (width - 1)))

/-- One turn of `fixed_fill`.  Up to width four a word may hold two elements, which `put2` delivers.
-/
def fixedFillTurn {ε : Type} (put : σ → Nat → BitVec 64 → σ) (width : Nat) (fill : Fill σ)
    (q : Cursor) : Outcome ε (Turn Byte (Fill σ) (Fill σ × Cursor)) :=
  if 8 ≤ q.length then do
    let w ← load64 q
    let first := compact7 (w &&& lowByteMask width &&& kLow7)
    if width ≤ 4 ∧ w &&& (kMsbW width ||| kMsbW width <<< (8 * width)) =
        kOneVarint width ||| kOneVarint width <<< (8 * width) then do
      let second := compact7 ((w >>> (8 * width)) &&& lowByteMask width &&& kLow7)
      let q ← advance q (2 * width)
      .ok (.next ((fill.put put first).put put second) q)
    else if w &&& kMsbW width = kOneVarint width then do
      let q ← advance q width
      .ok (.next (fill.put put first) q)
    else .ok (.stop (fill, q))
  else .ok (.stop (fill, q))

/-- One turn of `fixed_fill_wide`, for nine or ten bytes. -/
def fixedFillWideTurn {ε : Type} (put : σ → Nat → BitVec 64 → σ) (width : Nat) (fill : Fill σ)
    (q : Cursor) : Outcome ε (Turn Byte (Fill σ) (Fill σ × Cursor)) :=
  if width ≤ q.length then do
    let w0 ← load64 q
    if w0 &&& kMSB ≠ kMSB then .ok (.stop (fill, q))
    else do
      let value := compact7 (w0 &&& kLow7)
      let b8 ← peek q 8
      if width = 9 then
        if b8 &&& 0x80 ≠ 0 then .ok (.stop (fill, q))
        else do
          let value := value ||| payload7 b8 <<< 56
          let q ← advance q width
          .ok (.next (fill.put put value) q)
      else do
        let b9 ← peek q 9
        if b8 &&& 0x80 = 0 ∨ b9 &&& 0x80 ≠ 0 then .ok (.stop (fill, q))
        else if 1 < b9.toNat then .ok (.stop (fill, q))
        else do
          let value := value ||| payload7 b8 <<< 56
          let value := value ||| b9.setWidth 64 <<< 63
          let q ← advance q width
          .ok (.next (fill.put put value) q)
  else .ok (.stop (fill, q))

/-- One terminator of a `Struct` block; the state is the start of its varint and the fill.  A varint
of more than one word goes to the validating reader, in place. -/
def structVisit (put : σ → Nat → BitVec 64 → σ) (span : Nat) (q : Cursor)
    (state : Nat × Fill σ) (b : Nat) : Outcome (PackedFail σ) (Nat × Fill σ) := do
  let (start, fill) := state
  let len := b - start + 1
  let p ← advance q start
  if len ≤ 8 then do
    let w ← load64 p
    .ok (b + 1, fill.put put (compact7 (w &&& lowByteMask len &&& kLow7)))
  else do
    let (raw, _) ← (readVarintPacked p).mapError fun error => ⟨failAt span p error, fill.out⟩
    .ok (b + 1, fill.put put raw)

/-- One turn of the `Struct` loop. -/
def structTurn (put : σ → Nat → BitVec 64 → σ) (span : Nat) (fill : Fill σ) (q : Cursor) :
    Outcome (PackedFail σ) (Turn Byte (Fill σ) (Fill σ × Cursor)) :=
  if 72 ≤ q.length then do
    let t ← stopmask64 q
    if t = 0 then .ok (.stop (fill, q))
    else do
      let (start, fill) ← forBits (structVisit put span q) t (0, fill)
      let q ← advance q start
      .ok (.next fill q)
  else .ok (.stop (fill, q))

/-- One turn of the `Swar` loop. -/
def swarTurn (put : σ → Nat → BitVec 64 → σ) (span : Nat) (fill : Fill σ) (q : Cursor) :
    Outcome (PackedFail σ) (Turn Byte (Fill σ) (Fill σ × Cursor)) :=
  if 8 ≤ q.length then do
    let (raw, np) ← (readVarintPacked q).mapError fun error => ⟨failAt span q error, fill.out⟩
    .ok (.next (fill.put put raw) np)
  else .ok (.stop (fill, q))

/-- Run the chosen kernel as far as it goes. -/
def runKernel (put : σ → Nat → BitVec 64 → σ) (span : Nat) (kern : PackedKernel) (fill : Fill σ)
    (q : Cursor) : Outcome (PackedFail σ) (Fill σ × Cursor) :=
  match kern with
  | .bulk1 => runLoop (bulk1Turn put) fill q
  | .bulk2 => runLoop (bulk2Turn put) fill q
  | .fixed width =>
    if width ≤ 8 then runLoop (fixedFillTurn put width) fill q
    else runLoop (fixedFillWideTurn put width) fill q
  | .struct => runLoop (structTurn put span) fill q
  | .swar => runLoop (swarTurn put span) fill q
  | .byteLoop => .ok (fill, q)

/-- One turn of the classify loop: it goes round again only after a long stretch. -/
def classifyTurn (put : σ → Nat → BitVec 64 → σ) (span : Nat) (fill : Fill σ) (qStart : Cursor) :
    Outcome (PackedFail σ) (Turn Byte (Fill σ) (Fill σ × Cursor)) := do
  let kern ← packedStrategy qStart
  let (fill, q) ← runKernel put span kern fill qStart
  if q.length < 512 then .ok (.stop (fill, q))
  else if qStart.length - q.length < 4096 then .ok (.stop (fill, q))
  else .ok (.next fill q)

/-- Decode a packed-varint span `p` of a buffer of length `span`. -/
def decodePackedVarints (put : σ → Nat → BitVec 64 → σ) (span : Nat) (p : Cursor) (out : σ) :
    Outcome (PackedFail σ) (Fill σ) := do
  let (fill, q) ←
    if kPackedKernelMinSpan ≤ p.length then runLoop (classifyTurn put span) ⟨0, out⟩ p
    else .ok (⟨0, out⟩, p)
  runLoop (scalarTurn put span) fill q

end RapidProto
