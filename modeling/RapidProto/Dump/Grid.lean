import RapidProto.Dump.Compact

/-!
# Columns and grids

The column of the output behind a text, and the grid that an array too wide for one line is laid out
in: which cells are collected, and where the rows end.
-/

namespace RapidProto
namespace Dump

open Front (Text byte text)

/-! ## The column of the output -/

/-- The column behind a text that starts at a column. -/
def columnAfter (start : Nat) (bytes : Text) : Nat :=
  bytes.foldl (fun column c => if c = lineFeed then 0 else column + 1) start

@[simp] theorem columnAfter_nil (start : Nat) : columnAfter start [] = start := rfl

theorem columnAfter_append (start : Nat) (front back : Text) :
    columnAfter start (front ++ back) = columnAfter (columnAfter start front) back :=
  List.foldl_append

theorem columnAfter_cons (start : Nat) (c : Byte) (bytes : Text) :
    columnAfter start (c :: bytes) = columnAfter (if c = lineFeed then 0 else start + 1) bytes :=
  rfl

theorem columnAfter_le (start : Nat) (bytes : Text) :
    columnAfter start bytes ≤ start + bytes.length := by
  induction bytes generalizing start with
  | nil => exact Nat.le_refl _
  | cons c bytes ih =>
      rw [columnAfter_cons, List.length_cons]
      have rest := ih (if c = lineFeed then 0 else start + 1)
      split_ifs at rest ⊢ <;> omega

/-- A text within one line moves the column by its length. -/
theorem columnAfter_plain (start : Nat) (bytes : Text) (plain : lineFeed ∉ bytes) :
    columnAfter start bytes = start + bytes.length := by
  induction bytes generalizing start with
  | nil => rfl
  | cons c bytes ih =>
      have other : c ≠ lineFeed := fun same => plain (same ▸ List.mem_cons_self)
      rw [columnAfter_cons, if_neg other, ih _ fun later => plain (List.mem_cons_of_mem _ later),
        List.length_cons]
      omega

theorem lineFeed_not_mem_spaces (count : Nat) : lineFeed ∉ spaces count := by
  intro listed
  exact absurd (List.eq_of_mem_replicate listed) (by decide)

theorem columnAfter_newline (start : Nat) (w : Writer) :
    columnAfter start w.newline.out = w.indent * kIndentWidth := by
  rw [Writer.newline, Writer.emit, columnAfter_append, columnAfter_cons, if_pos rfl,
    columnAfter_plain _ _ (lineFeed_not_mem_spaces _), spaces, List.length_replicate, Nat.zero_add]

theorem columnAfter_emit (start : Nat) (w : Writer) (bytes : Text) (plain : lineFeed ∉ bytes) :
    columnAfter start (w.emit bytes).out = columnAfter start w.out + bytes.length := by
  rw [Writer.emit, columnAfter_append, columnAfter_plain _ _ plain]

/-- What is asked of an event: the counter is the column of the output when a group is entered, and
what is put on a line ends within the width. -/
def Event.Right (start width : Nat) : Event → Prop
  | .entered column before => column = columnAfter start before
  | .spliced after => columnAfter start after ≤ width
  | .row after => columnAfter start after ≤ width

instance (start width : Nat) : DecidablePred (Event.Right start width)
  | .entered column before => inferInstanceAs (Decidable (column = columnAfter start before))
  | .spliced after => inferInstanceAs (Decidable (columnAfter start after ≤ width))
  | .row after => inferInstanceAs (Decidable (columnAfter start after ≤ width))

/-- The writer is between two layouts, with nothing to skip. -/
structure Writer.Idle (w : Writer) : Prop where
  compact : w.compact = false
  collect : w.collect = false
  collecting : w.collecting = false
  skip : w.skip = []

/-- From `w` the writer got to `w'`, and all that was recorded on the way is right if `clean`, and
something is not otherwise. -/
structure Follows (start : Nat) (clean : Prop) (w w' : Writer) : Prop where
  idle : w'.Idle
  width : w'.width = w.width
  indent : w'.indent = w.indent
  kept : ∀ event ∈ w.log, event ∈ w'.log
  right : clean → ∀ event ∈ w'.log, event ∈ w.log ∨ event.Right start w.width
  wrong : ¬ clean → ∃ event ∈ w'.log, ¬ event.Right start w.width

/-- Steps that record nothing. -/
theorem Follows.silent {start : Nat} {w w' : Writer} (idle : w'.Idle) (width : w'.width = w.width)
    (indent : w'.indent = w.indent) (log : w'.log = w.log) : Follows start True w w' where
  idle := idle
  width := width
  indent := indent
  kept event met := by rwa [log]
  right _ event met := .inl (by rwa [log] at met)
  wrong unclean := absurd trivial unclean

theorem Follows.trans {start : Nat} {clean clean' : Prop} {w w' w'' : Writer}
    (first : Follows start clean w w') (second : Follows start clean' w' w'') :
    Follows start (clean ∧ clean') w w'' where
  idle := second.idle
  width := second.width.trans first.width
  indent := second.indent.trans first.indent
  kept event met := second.kept event (first.kept event met)
  right := by
    rintro ⟨here, later⟩ event met
    rcases second.right later event met with earlier | right
    · exact first.right here event earlier
    · exact .inr (first.width ▸ right)
  wrong unclean := by
    by_cases here : clean
    · obtain ⟨event, met, wrong⟩ := second.wrong fun later => unclean ⟨here, later⟩
      exact ⟨event, met, first.width ▸ wrong⟩
    · obtain ⟨event, met, wrong⟩ := first.wrong here
      exact ⟨event, second.kept event met, wrong⟩

theorem Follows.congr {start : Nat} {clean clean' : Prop} {w w' : Writer}
    (follows : Follows start clean w w') (same : clean ↔ clean') : Follows start clean' w w' :=
  propext same ▸ follows

/-! ## The cells -/

/-- The cells are too many or too long for a grid. -/
def Capped (cells : List Text) : Prop :=
  kMaxGridCells < cells.length ∨ kMaxGridBytes < (cells.map List.length).sum

instance (cells : List Text) : Decidable (Capped cells) :=
  inferInstanceAs (Decidable (_ ∨ _))

/-- The columns of the grid for entries, if there is one. -/
def gridOf (width indent : Nat) (entries : List Text) : Option (Nat × List Nat) :=
  if Capped entries then none
  else if entries.any (·.contains lineFeed) then none
  else Writer.gridColumns width ((indent + 1) * kIndentWidth) entries

/-- The writer with these cells closed. -/
def Writer.filled (cells : List Text) (w : Writer) : Writer :=
  { w with cells := cells, cellBytes := (cells.map List.length).sum, buf := [] }

theorem Writer.pushCell_filled (cells : List Text) (cell : Text) (w : Writer) :
    ((w.filled cells).append cell).pushCell = w.filled (cells ++ [cell]) := by
  simp [Writer.filled, Writer.append, Writer.pushCell]

section Collecting

variable {base : Writer}

theorem overflowed_filled (collecting : base.collecting = true) (cells : List Text) (cell : Text) :
    ((base.filled cells).append cell).overflowed = true →
      Capped (cells ++ [cell]) := by
  intro burst
  rw [Writer.overflowed, if_pos (by exact collecting), Writer.gridCapped, Bool.or_eq_true,
    decide_eq_true_eq, decide_eq_true_eq] at burst
  simp only [Writer.filled, Writer.append, List.nil_append] at burst
  simp only [Capped, List.length_append, List.length_singleton, List.map_append, List.map_cons,
    List.map_nil, List.sum_append, List.sum_singleton]
  omega

/-- The cells that the loop leaves: the entries, or no more and no longer ones, and too many or too
long. -/
theorem collect_entryLoop {writes : List (Writer → Writer)} {entries : List Text}
    (each : List.Forall₂ Renders writes entries) (compact : base.compact = true)
    (collect : base.collect = true) (collecting : base.collecting = true) (plain : base.skip = [])
    (cells : List Text) (cell : Text) :
    ∃ more, (entryLoop false writes ((base.filled cells).append cell)).pushCell =
        base.filled (cells ++ cell :: more) ∧
      more.length ≤ entries.length ∧
      (more.map List.length).sum ≤ (entries.map List.length).sum ∧
      (more = entries ∨ Capped (cells ++ cell :: more)) := by
  induction each generalizing cells cell with
  | nil => exact ⟨[], Writer.pushCell_filled .., Nat.le_refl _, Nat.le_refl _, .inl rfl⟩
  | @cons write entry writes entries renders each ih =>
      have separated : ((base.filled cells).append cell).entrySep false =
          base.filled (cells ++ [cell]) := by
        rw [Writer.entrySep, if_pos (by exact compact), if_pos (by exact collect)]
        exact Writer.pushCell_filled ..
      rw [entryLoop, separated]
      obtain ⟨bytes, step, short, whole⟩ :=
        renders (base.filled (cells ++ [cell])) compact plain
      rw [step] at whole ⊢
      by_cases burst : ((base.filled (cells ++ [cell])).append bytes).overflowed = true
      · rw [if_pos burst]
        have capped := overflowed_filled collecting _ _ burst
        rw [List.append_assoc] at capped
        refine ⟨[bytes], ?_, by simp, by simpa using Nat.le_add_right_of_le short, .inr capped⟩
        rw [Writer.pushCell_filled, List.append_assoc]
        rfl
      · rw [if_neg burst]
        rcases whole with rfl | burst'
        · obtain ⟨more, ends, fewer, shorter, result⟩ := ih (cells ++ [cell]) bytes
          rw [List.append_assoc] at ends result
          refine ⟨bytes :: more, ends, Nat.succ_le_succ fewer, ?_, ?_⟩
          · simpa using shorter
          · exact result.imp (congrArg _) id
        · exact absurd burst' burst

/-- The collection of an array that has entries. -/
theorem collectCells_spec {writes : List (Writer → Writer)} {entries : List Text}
    (each : List.Forall₂ Renders writes entries) (nonempty : entries ≠ []) {w : Writer}
    (idle : w.Idle) :
    ∃ cells, w.collectCells (entryLoop true writes) = w.filled cells ∧
      cells.length ≤ entries.length ∧
      (cells.map List.length).sum ≤ (entries.map List.length).sum ∧
      (cells = entries ∨ Capped cells) := by
  have leaves : ∀ cells, (w.beginCells.filled cells).endCells = w.filled cells := by
    intro cells
    obtain ⟨compact, collect, collecting, -⟩ := idle
    cases w
    cases compact
    cases collect
    cases collecting
    rfl
  have swap : ∀ body : Writer → Writer,
      w.collectCells body = (body (w.beginCells.filled [])).pushCell.endCells := fun _ => rfl
  rw [swap]
  cases each with
  | nil => exact absurd rfl nonempty
  | @cons write entry writes entries renders each =>
      obtain ⟨bytes, step, short, whole⟩ := renders (w.beginCells.filled []) rfl idle.skip
      have separated : (w.beginCells.filled []).entrySep true = w.beginCells.filled [] := rfl
      rw [entryLoop, separated]
      rw [step] at whole ⊢
      by_cases burst : ((w.beginCells.filled []).append bytes).overflowed = true
      · rw [if_pos burst, Writer.pushCell_filled, leaves]
        refine ⟨[bytes], rfl, by simp, by simpa using Nat.le_add_right_of_le short, .inr ?_⟩
        exact overflowed_filled (show w.beginCells.collecting = true from rfl) [] bytes burst
      · rw [if_neg burst]
        rcases whole with rfl | burst'
        · obtain ⟨more, ends, fewer, shorter, result⟩ :=
            collect_entryLoop each (show w.beginCells.compact = true from rfl) rfl rfl idle.skip []
              bytes
          rw [ends, leaves]
          refine ⟨bytes :: more, rfl, Nat.succ_le_succ fewer, ?_, result.imp (congrArg _) id⟩
          simpa using shorter
        · exact absurd burst' burst

end Collecting

/-- Whether an array that has entries becomes a grid is read off the entries. -/
theorem tryGrid_spec {writes : List (Writer → Writer)} {entries : List Text}
    (each : List.Forall₂ Renders writes entries) (notEmpty : entries ≠ []) {w : Writer}
    (idle : w.Idle) :
    match gridOf w.width w.indent entries with
    | none => ∃ cells, w.tryGrid (entryLoop true writes) = (false, w.filled cells)
    | some (cols, widths) => w.tryGrid (entryLoop true writes) =
        (true, (w.filled entries).renderGrid cols widths (entries.all Writer.numericCell)) := by
  obtain ⟨cells, collected, fewer, shorter, result⟩ := collectCells_spec each notEmpty idle
  have capped_iff : (w.filled cells).gridCapped = true ↔ Capped cells := by
    rw [Writer.gridCapped, Bool.or_eq_true, decide_eq_true_eq, decide_eq_true_eq]
    rfl
  have grown : Capped cells → Capped entries := by
    rintro (many | long)
    · exact .inl (Nat.lt_of_lt_of_le many fewer)
    · exact .inr (Nat.lt_of_lt_of_le long shorter)
  simp only [Writer.tryGrid, collected, gridOf]
  by_cases capped : Capped cells
  · rw [if_pos (capped_iff.mpr capped), if_pos (grown capped)]
    exact ⟨cells, rfl⟩
  · obtain rfl := result.resolve_right capped
    rw [if_neg (mt capped_iff.mp capped), if_neg capped]
    rw [show (w.filled cells).cells = cells from rfl]
    split_ifs
    · exact ⟨cells, rfl⟩
    · rw [show (w.filled cells).width = w.width from rfl,
        show (w.filled cells).indent = w.indent from rfl]
      cases Writer.gridColumns w.width ((w.indent + 1) * kIndentWidth) cells with
      | none => exact ⟨cells, rfl⟩
      | some grid => rfl

/-! ## The rows -/

theorem columnWidths_fold (cols : Nat) (entries : List (Text × Nat)) (widths : List Nat)
    (fits : widths.length = cols) (pos : 0 < cols) :
    let result := entries.foldl (fun widths entry =>
      widths.modify (entry.2 % cols) (max (entry.1.length + kCellPunctWidth))) widths
    result.length = cols ∧ (∀ k, widths.getD k 0 ≤ result.getD k 0) ∧
      ∀ entry ∈ entries, entry.1.length + kCellPunctWidth ≤ result.getD (entry.2 % cols) 0 := by
  induction entries generalizing widths with
  | nil => exact ⟨fits, fun _ => Nat.le_refl _, nofun⟩
  | cons entry entries ih =>
      have wider : ∀ k, widths.getD k 0 ≤ (widths.modify (entry.2 % cols)
          (max (entry.1.length + kCellPunctWidth))).getD k 0 := by
        intro k
        rw [List.getD_eq_getElem?_getD, List.getD_eq_getElem?_getD, List.getElem?_modify]
        cases widths[k]? with
        | none => exact Nat.le_refl _
        | some width =>
            by_cases same : entry.2 % cols = k
            · simp only [same, if_true]
              exact Nat.le_max_right _ width
            · simp [same]
      have enough : entry.1.length + kCellPunctWidth ≤ (widths.modify (entry.2 % cols)
          (max (entry.1.length + kCellPunctWidth))).getD (entry.2 % cols) 0 := by
        have inside : entry.2 % cols < widths.length := Nat.lt_of_lt_of_eq (Nat.mod_lt _ pos) fits.symm
        rw [List.getD_eq_getElem?_getD, List.getElem?_modify, List.getElem?_eq_getElem inside]
        simp only [if_true]
        exact Nat.le_max_left _ _
      obtain ⟨length, grown, covers⟩ := ih (widths.modify (entry.2 % cols)
        (max (entry.1.length + kCellPunctWidth))) (by rw [List.length_modify, fits])
      refine ⟨length, fun k => Nat.le_trans (wider k) (grown k), fun other met => ?_⟩
      rcases List.mem_cons.mp met with rfl | later
      · exact Nat.le_trans enough (grown _)
      · exact covers other later

/-- There is a width for each column, and a cell fits its column together with its comma. -/
theorem columnWidths_spec (cells : List Text) {cols : Nat} (pos : 0 < cols) :
    (Writer.columnWidths cells cols).length = cols ∧
      ∀ entry ∈ cells.zipIdx,
        entry.1.length + kCellPunctWidth ≤ (Writer.columnWidths cells cols).getD (entry.2 % cols) 0 := by
  obtain ⟨length, -, covers⟩ :=
    columnWidths_fold cols cells.zipIdx (List.replicate cols 0) List.length_replicate pos
  exact ⟨length, covers⟩

theorem fitColumns_spec {width inner : Nat} {cells : List Text} {most cols : Nat}
    {widths : List Nat} (fits : Writer.fitColumns width inner cells most = some (cols, widths)) :
    0 < cols ∧ widths = Writer.columnWidths cells cols ∧ inner + cols + widths.sum ≤ width + 1 := by
  induction most with
  | zero => cases fits
  | succ most ih =>
      simp only [Writer.fitColumns] at fits
      split_ifs at fits
      · cases fits
        exact ⟨Nat.succ_pos _, rfl, by omega⟩
      · exact ih fits

/-- Where the column `k` of a grid starts, counted from the indent. -/
def gridStart (widths : List Nat) (k : Nat) : Nat := ((widths.take k).map (· + 1)).sum

theorem gridStart_succ (widths : List Nat) (k : Nat) (inside : k < widths.length) :
    gridStart widths (k + 1) = gridStart widths k + (widths.getD k 0 + 1) := by
  rw [gridStart, gridStart, List.take_succ_eq_append_getElem inside, List.map_append, List.sum_append,
    List.getD_eq_getElem?_getD, List.getElem?_eq_getElem inside]
  rfl

theorem gridStart_le (widths : List Nat) (k : Nat) :
    gridStart widths k ≤ widths.sum + widths.length := by
  have total : (widths.map (· + 1)).sum = widths.sum + widths.length := by
    induction widths with
    | nil => rfl
    | cons width widths ih =>
        simp only [List.map_cons, List.sum_cons, List.length_cons, ih]
        omega
  have split : gridStart widths k + ((widths.drop k).map (· + 1)).sum = (widths.map (· + 1)).sum := by
    rw [gridStart, ← List.sum_append, ← List.map_append, List.take_append_drop]
  omega

/-- The position on the line is the column of the output. -/
def OnColumn (start : Nat) (state : Writer × Nat) : Prop :=
  state.2 = columnAfter start state.1.out

theorem OnColumn.put {start : Nat} {state : Writer × Nat} (on : OnColumn start state) (bytes : Text)
    (plain : lineFeed ∉ bytes) : OnColumn start (Writer.put bytes state) := by
  rw [OnColumn, Writer.put, columnAfter_emit start _ _ plain, ← on]

/-- Before the cell `i` the position is known, unless a line is to start. -/
def Ruled (start : Nat) (widths : List Nat) (i : Nat) (state : Writer × Nat) : Prop :=
  i % widths.length ≠ 0 → OnColumn start state ∧
    state.2 + 1 ≤ state.1.indent * kIndentWidth + gridStart widths (i % widths.length)

theorem Writer.Idle.emit {w : Writer} (idle : w.Idle) (bytes : Text) : (w.emit bytes).Idle :=
  ⟨idle.compact, idle.collect, idle.collecting, idle.skip⟩

theorem Follows.put {start : Nat} {w : Writer} {state : Writer × Nat}
    (follows : Follows start True w state.1) (bytes : Text) :
    Follows start True w (Writer.put bytes state).1 :=
  (follows.trans (.silent (follows.idle.emit bytes) rfl rfl rfl)).congr (and_self_iff)

theorem succ_mod {i cols : Nat} (pos : 0 < cols) (more : (i + 1) % cols ≠ 0) :
    (i + 1) % cols = i % cols + 1 := by
  have split := Nat.div_add_mod i cols
  rcases Nat.lt_or_eq_of_le (Nat.succ_le_of_lt (Nat.mod_lt i pos)) with within | ends
  · rw [← split, Nat.add_assoc, Nat.mul_add_mod, split]
    exact Nat.mod_eq_of_lt within
  · refine absurd ?_ more
    rw [← split, Nat.add_assoc, Nat.mul_add_mod]
    exact (congrArg (· % cols) ends).trans (Nat.mod_self cols)

/-- One cell of a grid, at the start of a line or behind the column to the left: it ends, with its
comma, where its column does at the latest. -/
theorem renderCell_spec {start : Nat} {widths : List Nat} (allNumeric : Bool) (count : Nat)
    {state : Writer × Nat} {entry : Text × Nat} (idle : state.1.Idle)
    (ruled : Ruled start widths entry.2 state) (positive : 0 < widths.length)
    (plain : lineFeed ∉ entry.1)
    (fits : entry.1.length + kCellPunctWidth ≤ widths.getD (entry.2 % widths.length) 0)
    (total : state.1.indent * kIndentWidth + widths.length + widths.sum ≤ state.1.width + 1) :
    Follows start True state.1
        (Writer.renderCell widths.length widths allNumeric count state entry).1 ∧
      Ruled start widths (entry.2 + 1)
        (Writer.renderCell widths.length widths allNumeric count state entry) := by
  have inside : entry.2 % widths.length < widths.length := Nat.mod_lt _ positive
  have next := gridStart_succ widths _ inside
  have most := gridStart_le widths (entry.2 % widths.length + 1)
  simp only [Writer.renderCell, kCellPunctWidth] at fits ⊢
  rw [← gridStart]
  have begun : ∃ begun : Writer × Nat,
      (if entry.2 % widths.length = 0 then (state.1.newline, state.1.indent * kIndentWidth)
        else state) = begun ∧ Follows start True state.1 begun.1 ∧ OnColumn start begun ∧
      begun.2 ≤ state.1.indent * kIndentWidth + gridStart widths (entry.2 % widths.length) := by
    by_cases first : entry.2 % widths.length = 0
    · refine ⟨_, if_pos first, .silent (idle.emit _) rfl rfl rfl, ?_, Nat.le_add_right _ _⟩
      exact (columnAfter_newline start state.1).symm
    · obtain ⟨on, room⟩ := ruled first
      exact ⟨_, if_neg first, .silent idle rfl rfl rfl, on, by omega⟩
  obtain ⟨begun, step, follows, on, before⟩ := begun
  rw [step]
  generalize gap : spaces (state.1.indent * kIndentWidth +
    gridStart widths (entry.2 % widths.length) - begun.2) = gapText
  generalize padded : spaces (if allNumeric = true then
    widths.getD (entry.2 % widths.length) 0 - (entry.1.length + 1) else 0) = padText
  have gapLength : gapText.length = state.1.indent * kIndentWidth +
      gridStart widths (entry.2 % widths.length) - begun.2 := by
    rw [← gap, spaces, List.length_replicate]
  have padLength : padText.length + (entry.1.length + 1) ≤
      widths.getD (entry.2 % widths.length) 0 := by
    rw [← padded, spaces, List.length_replicate]
    split_ifs <;> omega
  have written := ((on.put gapText (gap ▸ lineFeed_not_mem_spaces _)).put padText
    (padded ▸ lineFeed_not_mem_spaces _)).put entry.1 plain
  have follows' := ((follows.put gapText).put padText).put entry.1
  have position : (Writer.put entry.1 (Writer.put padText (Writer.put gapText begun))).2 + 2 ≤
      state.1.indent * kIndentWidth + gridStart widths (entry.2 % widths.length + 1) := by
    simp only [Writer.put]
    omega
  generalize Writer.put entry.1 (Writer.put padText (Writer.put gapText begun)) = behind at *
  have closed : ∃ closed : Writer × Nat,
      (if entry.2 + 1 < count then Writer.put [byte ','] behind else behind) = closed ∧
      Follows start True state.1 closed.1 ∧ OnColumn start closed ∧
      closed.2 + 1 ≤ state.1.indent * kIndentWidth + gridStart widths (entry.2 % widths.length + 1) := by
    by_cases last : entry.2 + 1 < count
    · refine ⟨_, if_pos last, follows'.put _, written.put _ (by decide), ?_⟩
      simp only [Writer.put, List.length_singleton]
      omega
    · exact ⟨_, if_neg last, follows', written, by omega⟩
  obtain ⟨closed, step', follows'', on', room⟩ := closed
  rw [step']
  have right : columnAfter start closed.1.out ≤ state.1.width := by
    rw [← on']
    omega
  have ends : Follows start True state.1 (if entry.2 % widths.length + 1 = widths.length ∨
      entry.2 + 1 = count then closed.1.endRow else closed.1) := by
    split_ifs
    · exact
        { idle := ⟨follows''.idle.compact, follows''.idle.collect, follows''.idle.collecting,
            follows''.idle.skip⟩
          width := follows''.width
          indent := follows''.indent
          kept := fun event met => List.mem_append_left _ (follows''.kept event met)
          right := fun _ event met => by
            rcases List.mem_append.mp met with earlier | last
            · exact follows''.right trivial event earlier
            · rw [List.mem_singleton.mp last]
              exact .inr right
          wrong := fun unclean => absurd trivial unclean }
    · exact follows''
  refine ⟨ends, fun more => ?_⟩
  have sameOut : (if entry.2 % widths.length + 1 = widths.length ∨ entry.2 + 1 = count
      then closed.1.endRow else closed.1).out = closed.1.out := by
    split_ifs <;> rfl
  have index := succ_mod positive more
  dsimp only
  refine ⟨?_, ?_⟩
  · rw [OnColumn]
    dsimp only
    rw [sameOut]
    exact on'
  · rw [ends.indent, index]
    exact room

/-- A grid keeps within the width on every row. -/
theorem renderGrid_follows {start cols : Nat} {widths : List Nat} {entries : List Text}
    {allNumeric : Bool} {w : Writer} (idle : w.Idle)
    (grid : gridOf w.width w.indent entries = some (cols, widths)) :
    Follows start True w ((w.filled entries).renderGrid cols widths allNumeric) := by
  rw [gridOf] at grid
  split_ifs at grid with capped broken
  simp only [List.any_eq_true, List.contains_iff_mem, not_exists, not_and] at broken
  obtain ⟨pos, rfl, total⟩ := fitColumns_spec grid
  obtain ⟨length, covers⟩ := columnWidths_spec entries pos
  generalize Writer.columnWidths entries cols = widths at *
  subst length
  have rows : ∀ (cells : List (Text × Nat)) (i : Nat) (state : Writer × Nat),
      (∀ entry ∈ cells, entry ∈ entries.zipIdx) →
      cells.map Prod.snd = List.range' i cells.length → state.1.Idle →
      state.1.width = w.width → state.1.indent = w.indent + 1 → Ruled start widths i state →
      Follows start True state.1 (cells.foldl
        (Writer.renderCell widths.length widths allNumeric entries.length) state).1 := by
    intro cells
    induction cells with
    | nil => exact fun i state _ _ idle _ _ _ => .silent idle rfl rfl rfl
    | cons entry cells ih =>
        intro i state inside numbered idle width indent ruled
        rw [List.map_cons, List.length_cons, List.range'_succ, List.cons.injEq] at numbered
        obtain ⟨rfl, later⟩ := numbered
        have met := inside entry List.mem_cons_self
        obtain ⟨one, ruled'⟩ := renderCell_spec allNumeric entries.length idle ruled
          pos (broken entry.1 (List.fst_mem_of_mem_zipIdx met)) (covers entry met)
          (by rw [indent, width]; omega)
        have rest := ih (entry.2 + 1) _ (fun other met => inside other (List.mem_cons_of_mem _ met))
          later one.idle (one.width.trans width) (one.indent.trans indent) ruled'
        exact (one.trans rest).congr and_self_iff
  have run := rows entries.zipIdx 0 (((w.filled entries).emit [byte '[']).deeper, 0)
    (fun _ => id) (by rw [List.zipIdx_map_snd, List.length_zipIdx])
    ⟨idle.compact, idle.collect, idle.collecting, idle.skip⟩ rfl rfl
    fun more => absurd (Nat.zero_mod _) more
  exact
    { idle := ⟨run.idle.compact, run.idle.collect, run.idle.collecting, run.idle.skip⟩
      width := run.width
      indent := congrArg (· - 1) run.indent
      kept := run.kept
      right := run.right
      wrong := run.wrong }

end Dump
end RapidProto
