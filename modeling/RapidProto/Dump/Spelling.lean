import RapidProto.Dump.Columns
import RapidProto.Dump.Readback
import RapidProto.Json

/-!
# Dumps as JSON

Every layout of a tree is a JSON text of the same value: compact on one line, as a grid, or one
entry to a line.  The value is read back from the text with the reader of string bodies that the
writers of values have.
-/

namespace RapidProto
namespace Dump

open Front (Text byte text isDecimalDigit isLetterOrDigit)
open Json (Spells Reads ReadsMember)

/-! ## The text put on the stream -/

/-- Outside compact mode, an action puts a text of this kind on the stream. -/
def Puts (action : Writer → Writer) (good : Text → Prop) : Prop :=
  ∀ w, w.Idle → (action w).Idle ∧ ∃ bytes, (action w).out = w.out ++ bytes ∧ good bytes

/-- A part of a message's body puts these members on the stream. -/
def PutsPiece (piece : Piece) (members : List (Text × Json.Value)) : Prop :=
  ∀ first w, w.Idle → (piece (first, w)).1 = (first && members.isEmpty) ∧
    (piece (first, w)).2.Idle ∧ ∃ bytes, (piece (first, w)).2.out = w.out ++ bytes ∧
      Json.Listed (ReadsMember unescape) first bytes members

/-- A text of items between brackets. -/
def Encloses {α : Type} (P : α → List Json.Token → Prop) (opening closing : Byte) (items : List α)
    (bytes : Text) : Prop :=
  ∃ body gap, bytes = opening :: body ++ gap ++ [closing] ∧ Json.Listed P true body items ∧
    ∀ c ∈ gap, Json.isSpace c = true

theorem isSpace_spaces (count : Nat) : ∀ c ∈ spaces count, Json.isSpace c = true := by
  intro c listed
  rw [List.eq_of_mem_replicate listed]
  decide

theorem isSpace_newline (count : Nat) : ∀ c ∈ lineFeed :: spaces count, Json.isSpace c = true :=
  List.forall_mem_cons.mpr ⟨by decide, isSpace_spaces count⟩

theorem puts_write (bytes : Text) : Puts (Writer.write bytes) (· = bytes) := by
  intro w idle
  rw [idle.write_eq]
  exact ⟨idle.emit bytes, bytes, rfl, rfl⟩

theorem Puts.imp {action : Writer → Writer} {good good' : Text → Prop} (puts : Puts action good)
    (better : ∀ bytes, good bytes → good' bytes) : Puts action good' := by
  intro w idle
  obtain ⟨idle', bytes, out, is⟩ := puts w idle
  exact ⟨idle', bytes, out, better bytes is⟩

theorem Puts.under {value : Writer → Writer} {good : Text → Prop} (puts : Puts value good)
    (name : Identifier) : Puts (Dump.under name value) good := by
  intro w idle
  obtain ⟨idle', bytes, out, is⟩ := puts (w.pushPath name.bytes)
    ⟨idle.compact, idle.collect, idle.collecting, idle.skip⟩
  exact ⟨⟨idle'.compact, idle'.collect, idle'.collecting, idle'.skip⟩, bytes, out, is⟩

/-- The separator in front of an entry: a comma, unless it is the first, and a new line. -/
theorem entrySep_puts {w : Writer} (idle : w.Idle) (first : Bool) :
    (w.entrySep first).Idle ∧ ∃ gap, (∀ c ∈ gap, Json.isSpace c = true) ∧
      (w.entrySep first).out = w.out ++ ((if first then [] else [byte ',']) ++ gap) := by
  obtain ⟨follows, -, -⟩ := entrySep_spec 0 idle first
  refine ⟨follows.idle, _, isSpace_newline (w.indent * kIndentWidth), ?_⟩
  rw [Writer.entrySep, if_neg (by rw [idle.compact]; decide), idle.write_eq]
  cases first with
  | true => rfl
  | false =>
      rw [← List.append_assoc]
      rfl

theorem key_puts {w : Writer} (idle : w.Idle) (name : Identifier) :
    (w.key name.bytes).Idle ∧ (w.key name.bytes).out = w.out ++ keyText name.bytes := by
  obtain ⟨follows, -, -⟩ := key_spec 0 idle name
  refine ⟨follows.idle, ?_⟩
  rw [Writer.key, idle.write_eq, if_neg (by exact Bool.eq_false_iff.mp idle.compact)]
  rfl

/-! ## Lists of entries -/

section Lists

variable {α : Type} {P : α → List Json.Token → Prop}

/-- Entries on one line. -/
theorem listed_spells {texts : List Text} {items : List α}
    (each : List.Forall₂ (Spells P) texts items) (first : Bool) :
    Json.Listed P first (listed first texts) items := by
  induction each generalizing first with
  | nil => exact .nil
  | @cons chars item texts items here behind ih =>
      have gap : ∀ c ∈ (if first then [] else [byte ' '] : Text), Json.isSpace c = true := by
        cases first <;> decide
      have whole : Json.Listed P first _ (item :: items) := .cons gap here (ih false)
      rw [listed]
      cases first with
      | true => exact whole
      | false => exact whole

/-- The loop over entries puts them on the stream in turn. -/
theorem entryLoop_puts {writes : List (Writer → Writer)} {items : List α}
    (each : List.Forall₂ (fun write item => Puts write (Spells P · item)) writes items)
    (first : Bool) : Puts (entryLoop first writes) (Json.Listed P first · items) := by
  induction each generalizing first with
  | nil => exact fun w idle => ⟨idle, [], (List.append_nil _).symm, .nil⟩
  | @cons write item writes items here behind ih =>
      intro w idle
      obtain ⟨idle₁, gap, blank, out₁⟩ := entrySep_puts idle first
      obtain ⟨idle₂, chars, out₂, spells⟩ := here _ idle₁
      obtain ⟨idle₃, rest, out₃, listed⟩ := ih false _ idle₂
      rw [entryLoop, if_neg (by rw [idle₂.overflowed]; decide)]
      refine ⟨idle₃, _, ?_, .cons blank spells listed⟩
      rw [out₃, out₂, out₁]
      simp only [List.append_assoc]
      rfl

/-! ## Groups -/

/-- A group is put on the stream compactly, or broken up. -/
theorem group_puts {body : Writer → Writer} {full : Text} {opening closing : Byte}
    {good : Text → Prop}
    (renders : ∀ w, w.compact = true → w.collect = false → w.skip = [] → Reaches w (body w) full)
    (whole : good (opening :: full ++ [closing]))
    (breaks : Puts (Writer.breakUp opening closing body) good) :
    Puts (Writer.group opening closing body) good := by
  intro w idle
  obtain ⟨bytes, probed, -, -, fits⟩ := probe_spec (w := w.enter) opening closing renders
    ⟨idle.compact, idle.collect, idle.collecting, idle.skip⟩
  have kept : Writer.Idle
      { w.enter with buf := opening :: bytes ++ [closing], avail := w.width - w.column } :=
    ⟨idle.compact, idle.collect, idle.collecting, idle.skip⟩
  have length : (opening :: bytes ++ [closing]).length = bytes.length + 2 := by simp
  simp only [Writer.group]
  rw [if_neg (by exact Bool.eq_false_iff.mp idle.compact), probed]
  by_cases short : (opening :: bytes ++ [closing]).length ≤ w.width - w.column
  · obtain rfl : bytes = full := fits.resolve_right (by
      change ¬ w.width - w.column < _
      omega)
    rw [if_pos (by exact short)]
    exact ⟨⟨idle.compact, idle.collect, idle.collecting, idle.skip⟩, _, rfl, whole⟩
  · rw [if_neg (by exact short)]
    exact breaks _ kept

/-- A group one entry to a line. -/
theorem spread_puts {body : Writer → Writer} {items : List α}
    (puts : Puts body (Json.Listed P true · items)) (opening closing : Byte) (any : Bool) :
    Puts (Writer.spread opening closing body any) (Encloses P opening closing items) := by
  intro w idle
  obtain ⟨idle', bytes, out, listed⟩ := puts (w.emit [opening]).deeper
    ⟨idle.compact, idle.collect, idle.collecting, idle.skip⟩
  have behind : w.out ++ [opening] ++ bytes = w.out ++ (opening :: bytes) := by simp
  cases any with
  | true =>
      refine ⟨⟨idle'.compact, idle'.collect, idle'.collecting, idle'.skip⟩, _, ?_, bytes, _, rfl,
        listed, isSpace_newline ((body (w.emit [opening]).deeper).shallower.indent * kIndentWidth)⟩
      change (body (w.emit [opening]).deeper).out ++ _ ++ [closing] = _
      rw [out]
      change w.out ++ [opening] ++ bytes ++ _ ++ [closing] = _
      rw [behind]
      simp only [List.append_assoc, List.cons_append]
  | false =>
      refine ⟨⟨idle'.compact, idle'.collect, idle'.collecting, idle'.skip⟩, _, ?_, bytes, [], rfl,
        listed, List.forall_mem_nil _⟩
      change (body (w.emit [opening]).deeper).out ++ [closing] = _
      rw [out]
      change w.out ++ [opening] ++ bytes ++ [closing] = _
      rw [behind]
      simp only [List.append_assoc, List.cons_append, List.nil_append]

/-! ## Grids -/

/-- A cell of a grid, behind the space in front of it and in front of its comma. -/
theorem renderCell_puts {state : Writer × Nat} (idle : state.1.Idle) (cols : Nat)
    (widths : List Nat) (allNumeric : Bool) (count : Nat) (entry : Text × Nat) :
    (Writer.renderCell cols widths allNumeric count state entry).1.Idle ∧
      ∃ gap, (∀ c ∈ gap, Json.isSpace c = true) ∧
        (Writer.renderCell cols widths allNumeric count state entry).1.out =
          state.1.out ++ (gap ++ entry.1 ++ if entry.2 + 1 < count then [byte ','] else []) := by
  simp only [Writer.renderCell]
  have begun : ∃ begun : Writer × Nat, (if entry.2 % cols = 0 then
        (state.1.newline, state.1.indent * kIndentWidth) else state) = begun ∧ begun.1.Idle ∧
      ∃ gap, (∀ c ∈ gap, Json.isSpace c = true) ∧ begun.1.out = state.1.out ++ gap := by
    by_cases starts : entry.2 % cols = 0
    · exact ⟨_, if_pos starts, idle.emit _, _, isSpace_newline _, rfl⟩
    · exact ⟨_, if_neg starts, idle, [], List.forall_mem_nil _, (List.append_nil _).symm⟩
  obtain ⟨begun, step, idle', gap, blank, out⟩ := begun
  rw [step]
  generalize left : spaces (state.1.indent * kIndentWidth +
    ((widths.take (entry.2 % cols)).map (· + 1)).sum - begun.2) = leftText
  generalize padded : spaces (if allNumeric = true then
    widths.getD (entry.2 % cols) 0 - (entry.1.length + kCellPunctWidth) else 0) = padText
  have spaced : ∀ c ∈ gap ++ leftText ++ padText, Json.isSpace c = true := by
    refine List.forall_mem_append.mpr ⟨List.forall_mem_append.mpr ⟨blank, ?_⟩, ?_⟩
    · exact left ▸ isSpace_spaces _
    · exact padded ▸ isSpace_spaces _
  have closed : ∀ w : Writer, w.Idle → (if entry.2 % cols + 1 = cols ∨ entry.2 + 1 = count
      then w.endRow else w).Idle ∧ (if entry.2 % cols + 1 = cols ∨ entry.2 + 1 = count
      then w.endRow else w).out = w.out := by
    intro w idle
    split_ifs
    · exact ⟨⟨idle.compact, idle.collect, idle.collecting, idle.skip⟩, rfl⟩
    · exact ⟨idle, rfl⟩
  have written : (Writer.put entry.1 (Writer.put padText (Writer.put leftText begun))).1.out =
      state.1.out ++ (gap ++ leftText ++ padText ++ entry.1) := by
    change begun.1.out ++ leftText ++ padText ++ entry.1 = _
    rw [out]
    simp only [List.append_assoc]
  have idle'' : (Writer.put entry.1 (Writer.put padText (Writer.put leftText begun))).1.Idle :=
    ((idle'.emit leftText).emit padText).emit entry.1
  generalize Writer.put entry.1 (Writer.put padText (Writer.put leftText begun)) = behind at *
  by_cases more : entry.2 + 1 < count
  · rw [if_pos more, if_pos more]
    obtain ⟨idle₃, out₃⟩ := closed _ (idle''.emit [byte ','])
    refine ⟨idle₃, _, spaced, out₃.trans ?_⟩
    change behind.1.out ++ [byte ','] = _
    rw [written, List.append_assoc]
  · rw [if_neg more, if_neg more]
    obtain ⟨idle₃, out₃⟩ := closed _ idle''
    refine ⟨idle₃, _, spaced, out₃.trans ?_⟩
    rw [written, List.append_nil]

/-- The cells of a grid from some cell on, behind the comma of the cell in front. -/
theorem renderCells_puts {cells : List (Text × Nat)} {items : List α}
    (each : List.Forall₂ (fun cell item => Spells P cell.1 item) cells items) (cols : Nat)
    (widths : List Nat) (allNumeric : Bool) {count : Nat} (i : Nat)
    (numbered : cells.map Prod.snd = List.range' i cells.length) (all : i + cells.length = count)
    (first : Bool) (state : Writer × Nat) (idle : state.1.Idle) :
    (cells.foldl (Writer.renderCell cols widths allNumeric count) state).1.Idle ∧
      ∃ bytes, (cells.foldl (Writer.renderCell cols widths allNumeric count) state).1.out =
          state.1.out ++ bytes ∧
        Json.Listed P first ((if first || cells.isEmpty then [] else [byte ',']) ++ bytes) items := by
  induction each generalizing i first state with
  | nil =>
      refine ⟨idle, [], (List.append_nil _).symm, ?_⟩
      rw [List.isEmpty_nil, Bool.or_true]
      exact .nil
  | @cons cell item cells items here behind ih =>
      rw [List.map_cons, List.length_cons, List.range'_succ, List.cons.injEq] at numbered
      obtain ⟨rfl, later⟩ := numbered
      obtain ⟨idle₁, gap, blank, out₁⟩ := renderCell_puts idle cols widths allNumeric count cell
      rw [List.length_cons] at all
      obtain ⟨idle₂, bytes, out₂, listed⟩ := ih _ later (by omega) false _ idle₁
      have comma : (if cell.2 + 1 < count then [byte ','] else []) =
          (if false || cells.isEmpty then [] else [byte ','] : Text) := by
        cases cells with
        | nil => exact if_neg (by simp only [List.length_nil] at all; omega)
        | cons next cells => exact if_pos (by simp only [List.length_cons] at all; omega)
      rw [comma] at out₁
      refine ⟨idle₂, gap ++ cell.1 ++ (if false || cells.isEmpty then [] else [byte ',']) ++ bytes,
        ?_, ?_⟩
      · rw [List.foldl_cons, out₂, out₁, List.append_assoc]
      · have whole : Json.Listed P first _ (item :: items) := .cons blank here listed
        rw [List.isEmpty_cons, Bool.or_false]
        simp only [List.append_assoc] at whole ⊢
        exact whole

/-- An array laid out as a grid. -/
theorem renderGrid_puts {entries : List Text} {items : List α}
    (each : List.Forall₂ (Spells P) entries items) (cols : Nat) (widths : List Nat)
    (allNumeric : Bool) {w : Writer} (idle : w.Idle) :
    ((w.filled entries).renderGrid cols widths allNumeric).Idle ∧
      ∃ bytes, ((w.filled entries).renderGrid cols widths allNumeric).out = w.out ++ bytes ∧
        Encloses P (byte '[') (byte ']') items bytes := by
  have cells : List.Forall₂ (fun cell item => Spells P cell.1 item) entries.zipIdx items := by
    have first : entries.zipIdx.map Prod.fst = entries := List.zipIdx_map_fst 0 entries
    rw [← first, List.forall₂_map_left_iff] at each
    exact each
  have all : 0 + entries.zipIdx.length = entries.length := by rw [List.length_zipIdx, Nat.zero_add]
  obtain ⟨idle', body, out, listed⟩ := renderCells_puts cells cols widths allNumeric 0
    (by rw [List.zipIdx_map_snd, List.length_zipIdx]) all true
    (((w.filled entries).emit [byte '[']).deeper, 0)
    ⟨idle.compact, idle.collect, idle.collecting, idle.skip⟩
  refine ⟨⟨idle'.compact, idle'.collect, idle'.collecting, idle'.skip⟩, _, ?_, body, _, rfl, listed,
    isSpace_newline ((((w.filled entries).emit [byte '[']).deeper.renderRows cols widths
      allNumeric).shallower.indent * kIndentWidth)⟩
  change (entries.zipIdx.foldl (Writer.renderCell cols widths allNumeric entries.length)
    (((w.filled entries).emit [byte '[']).deeper, 0)).1.out ++ _ ++ [byte ']'] = _
  rw [out]
  change w.out ++ [byte '['] ++ body ++ _ ++ [byte ']'] = _
  simp only [List.append_assoc, List.cons_append, List.nil_append]

/-- An array is compact, a grid, or one entry to a line. -/
theorem array_puts {writes : List (Writer → Writer)} {texts : List Text} {items : List α}
    (nonempty : texts ≠ []) (renders : List.Forall₂ Renders writes texts)
    (each : List.Forall₂ (Spells P) texts items)
    (puts : List.Forall₂ (fun write item => Puts write (Spells P · item)) writes items) :
    Puts (Writer.group (byte '[') (byte ']') (entryLoop true writes))
      (Encloses P (byte '[') (byte ']') items) := by
  apply group_puts (reaches_entryLoop renders true)
  · exact ⟨_, [], by rw [List.append_nil], listed_spells each true, List.forall_mem_nil _⟩
  · intro w idle
    have spread := spread_puts (entryLoop_puts puts true) (byte '[') (byte ']')
    rw [Writer.breakUp]
    by_cases tried : byte '[' = byte '[' ∧ decide (kEmptyGroupChars < w.buf.length) = true
    · rw [if_pos tried]
      have grid := tryGrid_spec renders nonempty idle
      cases columns : gridOf w.width w.indent texts with
      | none =>
          rw [columns] at grid
          obtain ⟨cells, grid⟩ := grid
          rw [grid]
          exact spread _ (w.filled cells) ⟨idle.compact, idle.collect, idle.collecting, idle.skip⟩
      | some found =>
          rw [columns] at grid
          dsimp only at grid
          rw [grid]
          exact renderGrid_puts each found.1 found.2 _ idle
    · rw [if_neg tried]
      exact spread _ w idle

/-- An object is compact or one entry to a line. -/
theorem object_puts {body : Writer → Writer} {full : Text} {items : List α}
    (renders : ∀ w, w.compact = true → w.collect = false → w.skip = [] → Reaches w (body w) full)
    (listed : Json.Listed P true full items) (puts : Puts body (Json.Listed P true · items)) :
    Puts (Writer.group (byte '\x7b') (byte '\x7d') body)
      (Encloses P (byte '\x7b') (byte '\x7d') items) := by
  apply group_puts renders
  · exact ⟨_, [], by rw [List.append_nil], listed, List.forall_mem_nil _⟩
  · intro w idle
    have object : ¬ (byte '\x7b' = byte '[' ∧ decide (kEmptyGroupChars < w.buf.length) = true) :=
      fun array => absurd array.1 (by decide)
    simp only [Writer.breakUp]
    rw [if_neg object]
    exact spread_puts puts _ _ _ w idle

end Lists

end Dump
end RapidProto
