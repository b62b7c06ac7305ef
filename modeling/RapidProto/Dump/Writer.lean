import RapidProto.Front.Ast

/-!
# The writer of the debug dumper

The class `Writer` of `dump_runtime.hpp`.  A group is written compactly into a scratch buffer first;
where that is too wide, an array is tried as a grid and everything else goes one entry to a line.  A
stream is the bytes written to it so far.  `m_sink` is left out: it is the buffer exactly while
`m_compact` is set.
-/

namespace RapidProto
namespace Dump

open Front (Text byte text)

/-- Columns per nesting level. -/
def kIndentWidth : Nat := 2

/-- Bound on the indent a dump starts at. -/
def kMaxIndent : Nat := 1024

/-- The comma behind a grid cell. -/
def kCellPunctWidth : Nat := 1

/-- Fewest columns of a grid. -/
def kMinGridColumns : Nat := 2

/-- Bound on the cells collected for a grid. -/
def kMaxGridCells : Nat := 4096

/-- Bound on their bytes. -/
def kMaxGridBytes : Nat := 64 * 1024

/-- The two quotes, the colon and the space of a key. -/
def kKeyPunctWidth : Nat := 4

/-- Length of a group without entries. -/
def kEmptyGroupChars : Nat := 2

/-- The byte that ends a line. -/
def lineFeed : Byte := byte '\n'

/-- A run of spaces. -/
def spaces (count : Nat) : Text := List.replicate count (byte ' ')

/-- What the writer decided about its layout, for statements about runs: the writer reads none of
it. An event carries the bytes on the real stream when it happened. -/
inductive Event where
  /-- `group` was entered in non-compact mode, the column counter being `column`. -/
  | entered (column : Nat) (before : Text)
  /-- The compact form of a group was put on the stream. -/
  | spliced (after : Text)
  /-- A row of a grid ended. -/
  | row (after : Text)
  deriving DecidableEq

/-- The members of the writer. -/
structure Writer where
  /-- `m_out`. -/
  out : Text := []
  /-- `m_buf`. -/
  buf : Text := []
  width : Nat
  /-- The skip paths; none and a null pointer are alike. -/
  skip : List Text
  avail : Nat := 0
  column : Nat
  indent : Nat
  compact : Bool := false
  /-- At a cell boundary `entry_sep` closes a cell. -/
  collect : Bool := false
  /-- Anywhere inside the collection of a grid, nested groups included. -/
  collecting : Bool := false
  path : Text := []
  pathStack : List Nat := []
  cells : List Text := []
  cellBytes : Nat := 0
  /-- The events so far. -/
  log : List Event := []
  deriving DecidableEq

namespace Writer

/-- The constructor. -/
def start (width startIndent : Nat) (skip : List Text) : Writer where
  width := width
  skip := skip
  column := min startIndent kMaxIndent * kIndentWidth
  indent := min startIndent kMaxIndent

/-- `*m_sink << bytes`. -/
def write (bytes : Text) (w : Writer) : Writer :=
  if w.compact then { w with buf := w.buf ++ bytes } else { w with out := w.out ++ bytes }

/-- `m_out << bytes`. -/
def emit (bytes : Text) (w : Writer) : Writer := { w with out := w.out ++ bytes }

/-- `grid_capped`. -/
def gridCapped (w : Writer) : Bool :=
  decide (kMaxGridCells < w.cells.length) || decide (kMaxGridBytes < w.cellBytes + w.buf.length)

/-- `overflowed`. -/
def overflowed (w : Writer) : Bool :=
  if w.collecting then w.gridCapped else w.compact && decide (w.avail < w.buf.length)

/-- `m_column += count`. -/
def advance (count : Nat) (w : Writer) : Writer := { w with column := w.column + count }

/-- `key`. -/
def key (name : Text) (w : Writer) : Writer :=
  let w := w.write (byte '"' :: name ++ [byte '"', byte ':', byte ' '])
  if w.compact then w else w.advance (name.length + kKeyPunctWidth)

/-- `push_cell`. -/
def pushCell (w : Writer) : Writer :=
  { w with cells := w.cells ++ [w.buf], cellBytes := w.cellBytes + w.buf.length, buf := [] }

/-- `newline`. -/
def newline (w : Writer) : Writer := w.emit (lineFeed :: spaces (w.indent * kIndentWidth))

/-- Set the column of a line that starts. -/
def atIndent (w : Writer) : Writer := { w with column := w.indent * kIndentWidth }

/-- `entry_sep`; the flag it is handed is false afterwards. -/
def entrySep (first : Bool) (w : Writer) : Writer :=
  if w.compact then
    if w.collect then
      if first then w else w.pushCell
    else
      if first then w else w.write [byte ',', byte ' ']
  else (if first then w else w.write [byte ',']).newline.atIndent

/-! ## The path of the field being written -/

/-- The path of a field below a prefix. -/
def joined (base leaf : Text) : Text := (if base.isEmpty then base else base ++ [byte '.']) ++ leaf

/-- `skipped`; the path it lengthens for the comparison is restored. -/
def skipped (leaf : Text) (w : Writer) : Bool := w.skip.any (· == joined w.path leaf)

/-- `push_path`. -/
def pushPath (name : Text) (w : Writer) : Writer :=
  { w with pathStack := w.path.length :: w.pathStack, path := joined w.path name }

/-- `pop_path`. -/
def popPath (w : Writer) : Writer :=
  { w with path := w.path.take (w.pathStack.headD 0), pathStack := w.pathStack.tail }

/-! ## Grids -/

/-- `numeric_cell`. -/
def numericCell (cell : Text) : Bool :=
  match cell with
  | [] => false
  | c :: _ =>
      (c == byte '-' || (byte '0' ≤ c && c ≤ byte '9')) && cell.all (text "0123456789+-.eE").contains

/-- The columns' widths when the cells are dealt into them row by row. -/
def columnWidths (cells : List Text) (cols : Nat) : List Nat :=
  cells.zipIdx.foldl
    (fun widths entry => widths.modify (entry.2 % cols) (max (entry.1.length + kCellPunctWidth)))
    (List.replicate cols 0)

/-- The loop over the number of columns, from `cols` down. -/
def fitColumns (width inner : Nat) (cells : List Text) : (cols : Nat) → Option (Nat × List Nat)
  | 0 => none
  | cols + 1 =>
      if cols + 1 < kMinGridColumns then none
      else
        let widths := columnWidths cells (cols + 1)
        if inner + cols + widths.sum ≤ width then some (cols + 1, widths)
        else fitColumns width inner cells cols

/-- The number of columns of a grid and their widths, unless no grid is possible. -/
def gridColumns (width inner : Nat) (cells : List Text) : Option (Nat × List Nat) :=
  let most := (if inner < width then width - inner + 1 else 0) / (kCellPunctWidth + 1)
  fitColumns width inner cells (min most cells.length)

/-- Record the end of a grid row. -/
def endRow (w : Writer) : Writer := { w with log := w.log ++ [.row w.out] }

/-- Write to the stream and move the position on the line along. -/
def put (bytes : Text) (state : Writer × Nat) : Writer × Nat :=
  (state.1.emit bytes, state.2 + bytes.length)

/-- One turn of the loop of `render_grid`, with the position on the line. -/
def renderCell (cols : Nat) (widths : List Nat) (allNumeric : Bool) (count : Nat)
    (state : Writer × Nat) (entry : Text × Nat) : Writer × Nat :=
  let inner := state.1.indent * kIndentWidth
  let col := entry.2 % cols
  let state := if col = 0 then (state.1.newline, inner) else state
  let left := inner + ((widths.take col).map (· + 1)).sum
  let state := put (spaces (left - state.2)) state
  let pad := if allNumeric then widths.getD col 0 - (entry.1.length + kCellPunctWidth) else 0
  let state := put entry.1 (put (spaces pad) state)
  let state := if entry.2 + 1 < count then put [byte ','] state else state
  (if col + 1 = cols ∨ entry.2 + 1 = count then state.1.endRow else state.1, state.2)

/-- `++m_indent`. -/
def deeper (w : Writer) : Writer := { w with indent := w.indent + 1 }

/-- `--m_indent`. -/
def shallower (w : Writer) : Writer := { w with indent := w.indent - 1 }

/-- Set the column behind the closing bracket of a group of several lines. -/
def atMargin (w : Writer) : Writer := { w with column := w.indent * kIndentWidth + 1 }

/-- The rows of `render_grid`. -/
def renderRows (cols : Nat) (widths : List Nat) (allNumeric : Bool) (w : Writer) : Writer :=
  (w.cells.zipIdx.foldl (renderCell cols widths allNumeric w.cells.length) (w, 0)).1

/-- Let go of the collected cells. -/
def dropCells (w : Writer) : Writer := { w with cells := [] }

/-- `render_grid`. -/
def renderGrid (cols : Nat) (widths : List Nat) (allNumeric : Bool) (w : Writer) : Writer :=
  let w := (w.emit [byte '[']).deeper.renderRows cols widths allNumeric
  (w.shallower.newline.emit [byte ']']).atMargin.dropCells

/-- Start collecting cells. -/
def beginCells (w : Writer) : Writer :=
  { w with
    cells := []
    cellBytes := 0
    buf := []
    compact := true
    collect := true
    collecting := true }

/-- Stop collecting cells. -/
def endCells (w : Writer) : Writer :=
  { w with collecting := false, collect := false, compact := false }

/-- Collect the entries of an array as cells. -/
def collectCells (body : Writer → Writer) (w : Writer) : Writer :=
  (body w.beginCells).endCells.pushCell

/-- `try_grid`: whether there is a grid, and the writer behind it. -/
def tryGrid (body : Writer → Writer) (w : Writer) : Bool × Writer :=
  let w := w.collectCells body
  if w.gridCapped then (false, w)
  else if w.cells.any (·.contains lineFeed) then (false, w)
  else
    match gridColumns w.width ((w.indent + 1) * kIndentWidth) w.cells with
    | none => (false, w)
    | some (cols, widths) => (true, w.renderGrid cols widths (w.cells.all numericCell))

/-! ## Groups -/

/-- Set `m_collect`. -/
def setCollect (collect : Bool) (w : Writer) : Writer := { w with collect := collect }

/-- A group inside a compact one. -/
def inline (opening closing : Byte) (body : Writer → Writer) (w : Writer) : Writer :=
  ((body ((w.setCollect false).write [opening])).write [closing]).setCollect w.collect

/-- Record that `group` was entered. -/
def enter (w : Writer) : Writer := { w with log := w.log ++ [.entered w.column w.out] }

/-- Start a compact probe. -/
def beginProbe (w : Writer) : Writer :=
  { w with buf := [], compact := true, avail := w.width - w.column }

/-- End a compact probe. -/
def endProbe (w : Writer) : Writer := { w with compact := false }

/-- The compact form of a group, left in the scratch buffer. -/
def probe (opening closing : Byte) (body : Writer → Writer) (w : Writer) : Writer :=
  ((body (w.beginProbe.write [opening])).write [closing]).endProbe

/-- Put the scratch buffer on the stream. -/
def splice (w : Writer) : Writer :=
  { w with
    out := w.out ++ w.buf
    column := w.column + w.buf.length
    log := w.log ++ [.spliced (w.out ++ w.buf)] }

/-- Write a group one entry to a line. -/
def spread (opening closing : Byte) (body : Writer → Writer) (any : Bool) (w : Writer) : Writer :=
  let w := (body (w.emit [opening]).deeper).shallower
  ((if any then w.newline else w).emit [closing]).atMargin

/-- Write a group whose compact form was too wide: as a grid or one entry to a line. -/
def breakUp (opening closing : Byte) (body : Writer → Writer) (w : Writer) : Writer :=
  let any := decide (kEmptyGroupChars < w.buf.length)
  let tried := if opening = byte '[' ∧ any then w.tryGrid body else (false, w)
  if tried.1 then tried.2 else tried.2.spread opening closing body any

/-- `group`. -/
def group (opening closing : Byte) (body : Writer → Writer) (w : Writer) : Writer :=
  if w.compact then w.inline opening closing body
  else
    let avail := w.width - w.column
    let w := w.enter.probe opening closing body
    if w.buf.length ≤ avail then w.splice else w.breakUp opening closing body

end Writer

end Dump
end RapidProto
