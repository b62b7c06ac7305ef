import RapidProto.Dump.Grid

/-!
# The column counter

The writer counts the column it is at, and lays a group out by what is left of the width.  The count
is right when a group is entered, except behind a map key, which is written past the counter.
-/

namespace RapidProto
namespace Dump

open Front (Text byte text)

/-! ## Texts within a line -/

theorem Identifier.lineFeed_not_mem (name : Identifier) : lineFeed ∉ name.bytes := by
  intro listed
  exact absurd (name.plain lineFeed listed) (by decide)

theorem lineFeed_not_mem_keyText (name : Identifier) : lineFeed ∉ keyText name.bytes := by
  have others : lineFeed ∉ [byte '"'] ∧ lineFeed ∉ [byte '"', byte ':', byte ' '] := by decide
  rw [keyText, ← List.singleton_append, List.append_assoc, List.mem_append, List.mem_append]
  rintro (opening | listed | closing)
  · exact others.1 opening
  · exact name.lineFeed_not_mem listed
  · exact others.2 closing

theorem lineFeed_not_mem_escapeByte : ∀ c : Byte, lineFeed ∉ escapeByte c := by
  decide +kernel

theorem digitLoop_spec (room magnitude : Nat) (chars : Text) :
    chars.length ≤ (digitLoop room magnitude chars).length ∧
      (lineFeed ∉ chars → lineFeed ∉ digitLoop room magnitude chars) := by
  induction room generalizing magnitude chars with
  | zero => exact ⟨Nat.le_refl _, id⟩
  | succ room ih =>
      have digits : ∀ digit < 10, lineFeed ≠ byte '0' + BitVec.ofNat 8 digit := by decide
      have other := digits (magnitude % 10) (Nat.mod_lt _ (by decide))
      rw [digitLoop]
      split_ifs
      · exact ⟨Nat.le_succ _, fun plain listed => (List.mem_cons.mp listed).elim other plain⟩
      · obtain ⟨longer, plain'⟩ := ih (magnitude / 10)
          ((byte '0' + BitVec.ofNat 8 (magnitude % 10)) :: chars)
        exact ⟨Nat.le_of_succ_le longer,
          fun plain => plain' fun listed => (List.mem_cons.mp listed).elim other plain⟩

theorem writeInt_spec (value : Int) : writeInt value ≠ [] ∧ lineFeed ∉ writeInt value := by
  have positive : 0 < (digitLoop 24 value.natAbs []).length := by
    rw [digitLoop]
    split_ifs
    · exact Nat.succ_pos _
    · exact Nat.lt_of_lt_of_le Nat.zero_lt_one (digitLoop_spec 23 _ [_]).1
  have plain : lineFeed ∉ digitLoop 24 value.natAbs [] := (digitLoop_spec _ _ _).2 nofun
  rw [writeInt]
  split_ifs
  · refine ⟨List.cons_ne_nil _ _, fun listed => ?_⟩
    exact (List.mem_cons.mp listed).elim (by decide) plain
  · exact ⟨List.ne_nil_of_length_pos positive, plain⟩

theorem MapKey.lineFeed_not_mem (key : MapKey) : lineFeed ∉ key.text := by
  have quotedPlain : ∀ bytes : Text, lineFeed ∉ bytes →
      lineFeed ∉ quoted bytes ++ [byte ':', byte ' '] := by
    intro bytes plain
    have others : lineFeed ∉ [byte '"'] ∧ lineFeed ∉ [byte '"', byte ':', byte ' '] := by decide
    rw [quoted, ← List.singleton_append, List.append_assoc, List.append_assoc, List.mem_append,
      List.mem_append]
    rintro (opening | listed | closing)
    · exact others.1 opening
    · exact plain listed
    · exact others.2 closing
  cases key with
  | string value =>
      refine quotedPlain _ fun listed => ?_
      obtain ⟨c, -, met⟩ := List.mem_flatMap.mp listed
      exact lineFeed_not_mem_escapeByte c met
  | bool value => cases value <;> decide
  | scalar value => exact quotedPlain _ (writeInt_spec value).2

theorem MapKey.length_pos (key : MapKey) : 0 < key.text.length := Nat.succ_pos _

theorem Leaf.text_ne_nil (roundTripText : FloatBits → NumberText) (value : Leaf) :
    value.text roundTripText ≠ [] := by
  cases value with
  | scalar value => exact (writeInt_spec value).1
  | bool value => cases value <;> exact List.cons_ne_nil _ _
  | float bits =>
      rw [Leaf.text, writeFloat]
      cases bits.classify with
      | finite => exact (roundTripText bits).nonempty
      | nan => exact List.cons_ne_nil _ _
      | inf => exact List.cons_ne_nil _ _
      | negInf => exact List.cons_ne_nil _ _
  | string value => exact List.cons_ne_nil _ _
  | bytes value => exact List.cons_ne_nil _ _
  | enum name number =>
      cases name with
      | none => exact List.cons_ne_nil _ _
      | some name => exact List.cons_ne_nil _ _

/-! ## Where groups are laid out -/

/-- The column of a field's value when its message is written one entry to a line. -/
def fieldColumn (indent : Nat) (name : Identifier) : Nat :=
  indent * kIndentWidth + (name.bytes.length + kKeyPunctWidth)

section Condition

variable (roundTripText : FloatBits → NumberText) (width : Nat)

mutual

/-- In the layout of a message at a column, all maps whose values are messages sit within one line:
wherever a group does not fit behind its key and is no grid, the groups below it are looked at, and
a map among them that does not fit has no entry with a value. -/
def Message.MapsInline (indent column : Nat) : Message → Prop
  | .mk hasUnknown members =>
      ((Message.mk hasUnknown members).line roundTripText).length ≤ width - column ∨
        membersInline (indent + 1) members

def membersInline (indent : Nat) : List Member → Prop
  | [] => True
  | member :: members => member.MapsInline indent ∧ membersInline indent members

def Member.MapsInline (indent : Nat) : Member → Prop
  | .message name (some value) => value.MapsInline indent (fieldColumn indent name)
  | .repeatedMessage name values =>
      (bracketed (byte '[') (byte ']') (elementLines roundTripText values)).length ≤
          width - fieldColumn indent name ∨
        (gridOf width indent (elementLines roundTripText values)).isSome ∨
        elementsInline (indent + 1) values
  | .mapMessage name entries =>
      (bracketed (byte '\x7b') (byte '\x7d') (entryLines roundTripText entries)).length ≤
          width - fieldColumn indent name ∨
        ∀ entry ∈ entries, entry.2.isNone = true
  | .activeMessage name value => value.MapsInline indent (fieldColumn indent name)
  | .message _ none => True
  | .singular _ _ => True
  | .repeated _ _ => True
  | .map _ _ => True
  | .unset => True
  | .active _ _ => True

def elementsInline (indent : Nat) : List Message → Prop
  | [] => True
  | value :: values =>
      value.MapsInline indent (indent * kIndentWidth) ∧ elementsInline indent values

end

end Condition

/-! ## Actions between two layouts -/

/-- Outside compact mode an action is right exactly when the counter is and the condition holds. -/
def Lays (action : Writer → Writer) (clean : (width indent column : Nat) → Prop) : Prop :=
  ∀ start w, w.Idle → Follows start
    (w.column = columnAfter start w.out ∧ clean w.width w.indent w.column) w (action w)

/-- The body of a group, whatever the counter is in front of it. -/
def LaysBody (body : Writer → Writer) (clean : (width indent : Nat) → Prop) : Prop :=
  ∀ start w, w.Idle → Follows start (clean w.width w.indent) w (body w)

/-- An entry at the start of a line. -/
def LaysEntry (write : Writer → Writer) (clean : (width indent : Nat) → Prop) : Prop :=
  ∀ start w, w.Idle → w.column = w.indent * kIndentWidth →
    columnAfter start w.out = w.indent * kIndentWidth →
    Follows start (clean w.width w.indent) w (write w)

/-- A part of a message's body. -/
def LaysPiece (piece : Piece) (clean : (width indent : Nat) → Prop) : Prop :=
  ∀ start first w, w.Idle → Follows start (clean w.width w.indent) w (piece (first, w)).2

section Layouts

variable {start : Nat} {w : Writer}

theorem Writer.Idle.write_eq (idle : w.Idle) (bytes : Text) : w.write bytes = w.emit bytes := by
  rw [Writer.write, if_neg (by rw [idle.compact]; decide)]
  rfl

theorem Writer.Idle.overflowed (idle : w.Idle) : w.overflowed = false := by
  rw [Writer.overflowed, if_neg (by rw [idle.collecting]; decide), idle.compact, Bool.false_and]

theorem Follows.write (start : Nat) (idle : w.Idle) (bytes : Text) :
    Follows start True w (w.write bytes) := by
  rw [idle.write_eq]
  exact .silent (idle.emit bytes) rfl rfl rfl

/-- Behind a separator the writer is at the start of a line, and knows it. -/
theorem entrySep_spec (start : Nat) (idle : w.Idle) (first : Bool) :
    Follows start True w (w.entrySep first) ∧
      (w.entrySep first).column = (w.entrySep first).indent * kIndentWidth ∧
      columnAfter start (w.entrySep first).out = (w.entrySep first).indent * kIndentWidth := by
  rw [Writer.entrySep, if_neg (by rw [idle.compact]; decide), idle.write_eq]
  cases first with
  | true =>
      exact ⟨.silent ⟨idle.compact, idle.collect, idle.collecting, idle.skip⟩ rfl rfl rfl, rfl,
        columnAfter_newline start w⟩
  | false =>
      exact ⟨.silent ⟨idle.compact, idle.collect, idle.collecting, idle.skip⟩ rfl rfl rfl, rfl,
        columnAfter_newline start (w.emit [byte ','])⟩

/-- A key moves the counter along with the output. -/
theorem key_spec (start : Nat) (idle : w.Idle) (name : Identifier) :
    Follows start True w (w.key name.bytes) ∧
      (w.key name.bytes).column = w.column + (name.bytes.length + kKeyPunctWidth) ∧
      columnAfter start (w.key name.bytes).out =
        columnAfter start w.out + (name.bytes.length + kKeyPunctWidth) := by
  have length : (keyText name.bytes).length = name.bytes.length + kKeyPunctWidth := by
    simp [keyText, kKeyPunctWidth]
  rw [Writer.key, idle.write_eq, ← keyText, if_neg (by exact Bool.eq_false_iff.mp idle.compact)]
  refine ⟨.silent ⟨idle.compact, idle.collect, idle.collecting, idle.skip⟩ rfl rfl rfl, rfl, ?_⟩
  rw [← length]
  exact columnAfter_emit start w _ (lineFeed_not_mem_keyText name)

theorem follows_enter (start : Nat) (idle : w.Idle) :
    Follows start (w.column = columnAfter start w.out) w w.enter where
  idle := ⟨idle.compact, idle.collect, idle.collecting, idle.skip⟩
  width := rfl
  indent := rfl
  kept _ met := List.mem_append_left _ met
  right aligned event met := by
    rcases List.mem_append.mp met with earlier | last
    · exact .inl earlier
    · rw [List.mem_singleton.mp last]
      exact .inr aligned
  wrong unaligned :=
    ⟨.entered w.column w.out, List.mem_append_right _ List.mem_cons_self, unaligned⟩

/-- The compact probe leaves a text in the buffer and everything else as it was. -/
theorem probe_spec {body : Writer → Writer} {full : Text} (opening closing : Byte)
    (renders : ∀ w, w.compact = true → w.collect = false → w.skip = [] → Reaches w (body w) full)
    (idle : w.Idle) :
    ∃ bytes, w.probe opening closing body =
        { w with buf := opening :: bytes ++ [closing], avail := w.width - w.column } ∧
      (body (w.beginProbe.append [opening])).buf = opening :: bytes ∧
      bytes.length ≤ full.length ∧ (bytes = full ∨ w.width - w.column < bytes.length + 1) := by
  obtain ⟨bytes, step, short, whole⟩ :=
    renders (w.beginProbe.append [opening]) rfl idle.collect idle.skip
  refine ⟨bytes, ?_, by rw [step]; rfl, short, whole.imp id fun burst => ?_⟩
  · rw [Writer.probe, Writer.write_compact (w := w.beginProbe) rfl, step,
      Writer.write_compact (by rfl)]
    obtain ⟨compact, -, -, -⟩ := idle
    cases w
    cases compact
    rfl
  · rw [step, Writer.append_append, Writer.overflowed,
      if_neg (by exact Bool.eq_false_iff.mp idle.collecting), Bool.and_eq_true,
      decide_eq_true_eq] at burst
    have long : w.width - w.column < ([] ++ ([opening] ++ bytes)).length := burst.2
    simpa [Nat.add_comm] using long

/-- A group written one entry to a line is right when its body is. -/
theorem spread_follows {body : Writer → Writer} {clean : (width indent : Nat) → Prop}
    (lays : LaysBody body clean) (opening closing : Byte) (any : Bool) (idle : w.Idle) :
    Follows start (clean w.width (w.indent + 1)) w (w.spread opening closing body any) := by
  have run := lays start (w.emit [opening]).deeper
    ⟨idle.compact, idle.collect, idle.collecting, idle.skip⟩
  have indent := congrArg (· - 1) run.indent
  cases any
  · exact ⟨⟨run.idle.compact, run.idle.collect, run.idle.collecting, run.idle.skip⟩, run.width,
      indent, run.kept, run.right, run.wrong⟩
  · exact ⟨⟨run.idle.compact, run.idle.collect, run.idle.collecting, run.idle.skip⟩, run.width,
      indent, run.kept, run.right, run.wrong⟩

theorem splice_follows (idle : w.Idle) :
    Follows start (columnAfter start (w.out ++ w.buf) ≤ w.width) w w.splice where
  idle := ⟨idle.compact, idle.collect, idle.collecting, idle.skip⟩
  width := rfl
  indent := rfl
  kept _ met := List.mem_append_left _ met
  right within event met := by
    rcases List.mem_append.mp met with earlier | last
    · exact .inl earlier
    · rw [List.mem_singleton.mp last]
      exact .inr within
  wrong beyond := ⟨.spliced (w.out ++ w.buf), List.mem_append_right _ List.mem_cons_self, beyond⟩

/-- A group is right when the counter is, and it fits or its parts are right. -/
theorem group_follows {body : Writer → Writer} {full : Text} (opening closing : Byte)
    (renders : ∀ w, w.compact = true → w.collect = false → w.skip = [] → Reaches w (body w) full)
    (idle : w.Idle) {broken : Prop}
    (breaks : ∀ r : Writer, r.Idle → r.width = w.width → r.indent = w.indent →
      (∀ bytes, r.buf = opening :: bytes ++ [closing] →
        (body (w.enter.beginProbe.append [opening])).buf = opening :: bytes →
        Follows start broken r (r.breakUp opening closing body))) :
    Follows start (w.column = columnAfter start w.out ∧
        ((opening :: full ++ [closing]).length ≤ w.width - w.column ∨ broken))
      w (Writer.group opening closing body w) := by
  have entered := follows_enter start idle
  obtain ⟨bytes, probed, built, short, whole⟩ :=
    probe_spec (w := w.enter) opening closing renders entered.idle
  have kept : Writer.Idle
      { w.enter with buf := opening :: bytes ++ [closing], avail := w.width - w.column } :=
    ⟨idle.compact, idle.collect, idle.collecting, idle.skip⟩
  have silent : Follows start True w.enter
      { w.enter with buf := opening :: bytes ++ [closing], avail := w.width - w.column } :=
    .silent kept rfl rfl rfl
  have length : (opening :: bytes ++ [closing]).length = bytes.length + 2 := by simp
  have length' : (opening :: full ++ [closing]).length = full.length + 2 := by simp
  simp only [Writer.group]
  rw [if_neg (by exact Bool.eq_false_iff.mp idle.compact), probed]
  by_cases fits : (opening :: bytes ++ [closing]).length ≤ w.width - w.column
  · rw [if_pos (by exact fits)]
    obtain rfl : bytes = full := whole.resolve_right (by
      change ¬ w.width - w.column < _
      omega)
    refine (entered.trans (silent.trans (splice_follows kept))).congr ?_
    refine and_congr_right fun aligned => ?_
    have behind := columnAfter_le w.column (opening :: bytes ++ [closing])
    have within : columnAfter start (w.out ++ (opening :: bytes ++ [closing])) ≤ w.width := by
      rw [columnAfter_append, ← aligned]
      omega
    exact iff_of_true ⟨trivial, within⟩ (.inl fits)
  · rw [if_neg (by exact fits)]
    have wide : ¬ (opening :: full ++ [closing]).length ≤ w.width - w.column := by omega
    refine (entered.trans (silent.trans (breaks _ kept rfl rfl bytes rfl built))).congr ?_
    rw [true_and, or_iff_right wide]

/-- An object that does not fit goes one entry to a line. -/
theorem lays_object {body : Writer → Writer} {full : Text} {clean : (width indent : Nat) → Prop}
    (renders : ∀ w, w.compact = true → w.collect = false → w.skip = [] → Reaches w (body w) full)
    (lays : LaysBody body clean) :
    Lays (Writer.group (byte '\x7b') (byte '\x7d') body) fun width indent column =>
      (byte '\x7b' :: full ++ [byte '\x7d']).length ≤ width - column ∨ clean width (indent + 1) := by
  intro start w idle
  refine group_follows _ _ renders idle fun r kept width indent bytes _ _ => ?_
  have object : ¬ (byte '\x7b' = byte '[' ∧ decide (kEmptyGroupChars < r.buf.length) = true) :=
    fun array => absurd array.1 (by decide)
  simp only [Writer.breakUp]
  rw [if_neg object, ← width, ← indent]
  exact spread_follows lays _ _ _ kept

/-- In compact mode, an action that writes something. -/
def Grows (action : Writer → Writer) : Prop :=
  ∀ w, w.compact = true → w.skip = [] → w.buf.length < (action w).buf.length

/-- An array that does not fit is a grid where that is possible. -/
theorem lays_array {write : Writer → Writer} {writes : List (Writer → Writer)}
    {entries : List Text} {clean : (width indent : Nat) → Prop}
    (each : List.Forall₂ Renders (write :: writes) entries) (grows : Grows write)
    (lays : LaysBody (entryLoop true (write :: writes)) clean) :
    Lays (Writer.group (byte '[') (byte ']') (entryLoop true (write :: writes)))
      fun width indent column => (bracketed (byte '[') (byte ']') entries).length ≤ width - column ∨
        (gridOf width indent entries).isSome = true ∨ clean width (indent + 1) := by
  intro start w idle
  refine group_follows _ _ (reaches_entryLoop each true) idle
    fun r kept width indent bytes buf built => ?_
  have nonempty : entries ≠ [] := by
    rintro rfl
    cases each
  have any : kEmptyGroupChars < r.buf.length := by
    cases each with
    | @cons _ entry _ rest renders later =>
        generalize probe : w.enter.beginProbe.append [byte '['] = w' at built
        have compact : w'.compact = true := probe ▸ rfl
        have inside : w'.collect = false := probe ▸ idle.collect
        have plain : w'.skip = [] := probe ▸ idle.skip
        have start : w'.buf = [byte '['] := probe ▸ rfl
        have one := grows w' compact plain
        rw [entryLoop, Writer.entrySep_compact compact inside, if_pos rfl, Writer.append_nil] at built
        have longer : (write w').buf.length ≤ (byte '[' :: bytes).length := by
          rw [← built]
          split_ifs
          · exact Nat.le_refl _
          · obtain ⟨compact', inside', plain'⟩ := (renders w' compact plain).compact
            obtain ⟨more, step, -⟩ := reaches_entryLoop later false (write w')
              (compact'.trans compact) (inside'.trans inside) (plain'.trans plain)
            rw [step, Writer.append, List.length_append]
            exact Nat.le_add_right _ _
        rw [start] at one
        rw [buf]
        simp only [kEmptyGroupChars, List.length_cons, List.length_append, List.length_nil] at *
        omega
  have tried := tryGrid_spec each nonempty kept
  have array : True ∧ decide (kEmptyGroupChars < r.buf.length) = true :=
    ⟨trivial, decide_eq_true any⟩
  simp only [Writer.breakUp]
  rw [if_pos array, ← width, ← indent]
  cases grid : gridOf r.width r.indent entries with
  | none =>
      rw [grid] at tried
      obtain ⟨cells, tried⟩ := tried
      rw [tried]
      have filled : Follows start True r (r.filled cells) :=
        .silent ⟨kept.compact, kept.collect, kept.collecting, kept.skip⟩ rfl rfl rfl
      refine (filled.trans (spread_follows lays _ _ _ filled.idle)).congr ?_
      simp [Writer.filled]
  | some columns =>
      rw [grid] at tried
      obtain ⟨cols, widths⟩ := columns
      dsimp only at tried
      rw [tried]
      exact (renderGrid_follows kept grid).congr (iff_of_true trivial (.inl rfl))

/-! ## Entries and parts of a body -/

theorem layEntry_write (bytes : Text) : LaysEntry (Writer.write bytes) fun _ _ => True :=
  fun _ _ idle _ _ => Follows.write _ idle bytes

/-- A group at the start of a line. -/
theorem Lays.entry {action : Writer → Writer} {clean : (width indent column : Nat) → Prop}
    (lays : Lays action clean) :
    LaysEntry action fun width indent => clean width indent (indent * kIndentWidth) := by
  intro start w idle column out
  refine (lays start w idle).congr ?_
  rw [column, out, eq_self_iff_true, true_and]

/-- A value that is no group, behind a map key. -/
theorem layEntry_leaf (key : MapKey) (bytes : Text) :
    LaysEntry (fun w => Writer.write bytes (Writer.write key.text w)) fun _ _ => True := by
  intro start w idle _ _
  have first := Follows.write start idle key.text
  exact (first.trans (Follows.write _ first.idle bytes)).congr and_self_iff

/-- A group behind a map key: the counter still stands at the start of the line. -/
theorem Lays.behindKey {action : Writer → Writer} {clean : (width indent column : Nat) → Prop}
    (lays : Lays action clean) (key : MapKey) :
    LaysEntry (fun w => action (Writer.write key.text w)) fun _ _ => False := by
  intro start w idle column out
  have first := Follows.write start idle key.text
  refine (first.trans (lays start _ first.idle)).congr ?_
  have moved := columnAfter_emit start w key.text key.lineFeed_not_mem
  have nonempty := key.length_pos
  rw [idle.write_eq, moved, out, show (w.emit key.text).column = w.column from rfl, column]
  refine iff_of_false ?_ id
  rintro ⟨-, aligned, -⟩
  omega

/-- A loop over entries, whether or not there is one in front. -/
def LaysLoop (writes : List (Writer → Writer)) (clean : (width indent : Nat) → Prop) : Prop :=
  ∀ first, LaysBody (entryLoop first writes) clean

theorem laysLoop_nil : LaysLoop [] fun _ _ => True :=
  fun _ _ _ idle => .silent idle rfl rfl rfl

/-- An entry keeps the loop going: nothing overflows outside compact mode. -/
theorem LaysLoop.cons {write : Writer → Writer} {writes : List (Writer → Writer)}
    {clean clean' : (width indent : Nat) → Prop} (lays : LaysEntry write clean)
    (rest : LaysLoop writes clean') :
    LaysLoop (write :: writes) fun width indent => clean width indent ∧ clean' width indent := by
  intro first start w idle
  obtain ⟨separated, column, out⟩ := entrySep_spec start idle first
  have one := separated.trans (lays start _ separated.idle column out)
  have loop := one.trans (rest false start _ one.idle)
  rw [entryLoop, if_neg (by rw [one.idle.overflowed]; decide)]
  apply loop.congr
  rw [one.width, one.indent, separated.width, separated.indent, true_and]

theorem LaysLoop.congr {writes : List (Writer → Writer)} {clean clean' : (width indent : Nat) → Prop}
    (lays : LaysLoop writes clean) (same : ∀ width indent, clean width indent ↔ clean' width indent) :
    LaysLoop writes clean' :=
  fun first start w idle => (lays first start w idle).congr (same _ _)

theorem laysPiece_nothing (piece : Piece) (same : ∀ state, piece state = state) :
    LaysPiece piece fun _ _ => True := by
  intro start first w idle
  rw [same]
  exact .silent idle rfl rfl rfl

/-- A field whose value is no group. -/
theorem laysPiece_leaf (name : Identifier) (bytes : Text) :
    LaysPiece (beginField name (Writer.write bytes)) fun _ _ => True := by
  intro start first w idle
  have shown : ¬ w.skipped name.bytes = true := by simp [Writer.skipped, idle.skip]
  obtain ⟨separated, -, -⟩ := entrySep_spec start idle first
  obtain ⟨keyed, -, -⟩ := key_spec start separated.idle name
  simp only [beginField]
  rw [if_neg shown]
  exact ((separated.trans keyed).trans (Follows.write _ keyed.idle bytes)).congr (by simp)

/-- A field whose value is a group: the counter is right behind the key. -/
theorem Lays.field {action : Writer → Writer} {clean : (width indent column : Nat) → Prop}
    (lays : Lays action clean) (name : Identifier) :
    LaysPiece (beginField name action) fun width indent =>
      clean width indent (fieldColumn indent name) := by
  intro start first w idle
  have shown : ¬ w.skipped name.bytes = true := by simp [Writer.skipped, idle.skip]
  obtain ⟨separated, column, out⟩ := entrySep_spec start idle first
  obtain ⟨keyed, column', out'⟩ := key_spec start separated.idle name
  simp only [beginField]
  rw [if_neg shown]
  refine ((separated.trans keyed).trans (lays start _ keyed.idle)).congr ?_
  rw [column', out', column, out, keyed.width, keyed.indent, separated.width, separated.indent,
    fieldColumn, and_self_iff, true_and, eq_self_iff_true, true_and]

theorem Lays.under {action : Writer → Writer} {clean : (width indent column : Nat) → Prop}
    (lays : Lays action clean) (name : Identifier) : Lays (Dump.under name action) clean := by
  intro start w idle
  have run := lays start (w.pushPath name.bytes)
    ⟨idle.compact, idle.collect, idle.collecting, idle.skip⟩
  exact ⟨⟨run.idle.compact, run.idle.collect, run.idle.collecting, run.idle.skip⟩, run.width,
    run.indent, run.kept, run.right, run.wrong⟩

theorem Lays.nested {action : Writer → Writer} {clean : (width indent column : Nat) → Prop}
    (lays : Lays action clean) (name : Identifier) (nested : Bool) :
    LaysPiece (beginField name (if nested then Dump.under name action else action))
      fun width indent => clean width indent (fieldColumn indent name) := by
  cases nested with
  | true => exact (lays.under name).field name
  | false => exact lays.field name

theorem LaysPiece.append {piece piece' : Piece} {clean clean' : (width indent : Nat) → Prop}
    (lays : LaysPiece piece clean) (lays' : LaysPiece piece' clean') :
    LaysPiece (fun state => piece' (piece state))
      fun width indent => clean width indent ∧ clean' width indent := by
  intro start first w idle
  have one := lays start first w idle
  refine (one.trans (lays' start (piece (first, w)).1 _ one.idle)).congr ?_
  rw [one.width, one.indent]

theorem LaysPiece.congr {piece : Piece} {clean clean' : (width indent : Nat) → Prop}
    (lays : LaysPiece piece clean) (same : ∀ width indent, clean width indent ↔ clean' width indent) :
    LaysPiece piece clean' :=
  fun start first w idle => (lays start first w idle).congr (same _ _)

theorem lays_repeatedField {elements : List (Writer → Writer)} {entries : List Text}
    {clean : (width indent : Nat) → Prop} (each : List.Forall₂ Renders elements entries)
    (grows : ∀ write ∈ elements, Grows write) (lays : LaysLoop elements clean) (name : Identifier)
    (nested : Bool) :
    LaysPiece (repeatedField name nested elements) fun width indent => elements = [] ∨
      (bracketed (byte '[') (byte ']') entries).length ≤ width - fieldColumn indent name ∨
      (gridOf width indent entries).isSome = true ∨ clean width (indent + 1) := by
  cases elements with
  | nil =>
      exact (laysPiece_nothing _ fun _ => rfl).congr fun _ _ => iff_of_true trivial (.inl rfl)
  | cons write writes =>
      refine LaysPiece.congr ((lays_array each (grows write List.mem_cons_self)
        (lays true)).nested name nested) fun width indent => ?_
      rw [or_iff_right (List.cons_ne_nil write writes)]

theorem lays_mapField {entries : List (MapKey × (Writer → Writer))} {texts : List Text}
    {clean : (width indent : Nat) → Prop}
    (each : List.Forall₂ (fun entry full => ∃ value, Renders entry.2 value ∧
      full = entry.1.text ++ value) entries texts)
    (lays : LaysLoop (entries.map fun entry w => entry.2 (Writer.write entry.1.text w)) clean)
    (name : Identifier) (nested : Bool) :
    LaysPiece (mapField name nested entries) fun width indent => entries = [] ∨
      (bracketed (byte '\x7b') (byte '\x7d') texts).length ≤ width - fieldColumn indent name ∨
      clean width (indent + 1) := by
  have writes := renders_entries each
  cases entries with
  | nil =>
      exact (laysPiece_nothing _ fun _ => rfl).congr fun _ _ => iff_of_true trivial (.inl rfl)
  | cons entry entries =>
      refine LaysPiece.congr ((lays_object (reaches_entryLoop writes true) (lays true)).nested
        name nested) fun width indent => ?_
      rw [or_iff_right (List.cons_ne_nil entry entries)]
      rfl

theorem laysPiece_unknownEntry (hasUnknown : Bool) :
    LaysPiece (unknownEntry hasUnknown) fun _ _ => True := by
  cases hasUnknown with
  | false => exact laysPiece_nothing _ fun _ => rfl
  | true =>
      intro start first w idle
      obtain ⟨separated, -, -⟩ := entrySep_spec start idle first
      exact (separated.trans (Follows.write _ separated.idle _)).congr and_self_iff

end Layouts

section Trees

variable (roundTripText : FloatBits → NumberText)

theorem grows_leaf (value : Leaf) : Grows (writeLeaf roundTripText value) := by
  intro w compact _
  rw [writeLeaf, Writer.write_compact compact, Writer.append, List.length_append]
  have nonempty := List.length_pos_iff.mpr (value.text_ne_nil roundTripText)
  exact Nat.lt_add_of_pos_right nonempty

theorem grows_leaves (values : List Leaf) :
    ∀ write ∈ values.map (writeLeaf roundTripText), Grows write := by
  intro write listed
  obtain ⟨value, -, rfl⟩ := List.mem_map.mp listed
  exact grows_leaf roundTripText value

/-- The body of a message in compact mode. -/
theorem reaches_body (hasUnknown : Bool) (members : List Member) (w : Writer)
    (compact : w.compact = true) (inside : w.collect = false) (plain : w.skip = []) :
    Reaches w (dumpMembers roundTripText members (unknownEntry hasUnknown (true, w))).2
      (listed true ((if hasUnknown then [quoted (text "has_unknown_fields") ++ text ": true"] else []) ++
        memberLines roundTripText members)) :=
  ((renders_unknownEntry hasUnknown).append (dumpMembers_renders roundTripText members) true w
    compact inside plain).2

theorem grows_message (value : Message) : Grows (rpDumpWrite roundTripText value) := by
  intro w compact plain
  cases value with
  | mk hasUnknown members =>
      obtain ⟨bytes, step, -⟩ := group_compact _ _ (reaches_body roundTripText hasUnknown members)
        (byte '\x7b') (byte '\x7d') compact plain
      rw [rpDumpWrite, step, Writer.append, List.length_append]
      exact Nat.lt_add_of_pos_right (Nat.succ_pos _)

theorem grows_elements (values : List Message) :
    ∀ write ∈ dumpElements roundTripText values, Grows write := by
  induction values with
  | nil =>
      intro write listed
      rw [dumpElements] at listed
      cases listed
  | cons value values ih =>
      intro write listed
      rw [dumpElements] at listed
      rcases List.mem_cons.mp listed with rfl | later
      · exact grows_message roundTripText value
      · exact ih write later

theorem laysLoop_leaves (values : List Leaf) :
    LaysLoop (values.map (writeLeaf roundTripText)) fun _ _ => True := by
  induction values with
  | nil => exact laysLoop_nil
  | cons value values ih =>
      exact (LaysLoop.cons (layEntry_write _) ih).congr fun _ _ => and_self_iff

theorem laysLoop_leafEntries (entries : List (MapKey × Leaf)) :
    LaysLoop ((entries.map fun entry => (entry.1, writeLeaf roundTripText entry.2)).map
      fun entry w => entry.2 (Writer.write entry.1.text w)) fun _ _ => True := by
  induction entries with
  | nil => exact laysLoop_nil
  | cons entry entries ih =>
      exact (LaysLoop.cons (layEntry_leaf entry.1 _) ih).congr fun _ _ => and_self_iff

mutual

/-- A message is laid out right exactly when its maps of messages sit within lines. -/
theorem rpDumpWrite_lays : (value : Message) →
    Lays (rpDumpWrite roundTripText value) fun width indent column =>
      value.MapsInline roundTripText width indent column
  | .mk hasUnknown members => by
      have body : LaysBody (fun w =>
          (dumpMembers roundTripText members (unknownEntry hasUnknown (true, w))).2)
          fun width indent => True ∧ membersInline roundTripText width indent members :=
        fun start w idle => ((laysPiece_unknownEntry hasUnknown).append
          (dumpMembers_lays members)) start true w idle
      intro start w idle
      rw [rpDumpWrite]
      refine (lays_object (reaches_body roundTripText hasUnknown members) body start w idle).congr ?_
      dsimp only
      rw [Message.MapsInline, Message.line, true_and, bracketed]

theorem dumpMembers_lays : (members : List Member) →
    LaysPiece (dumpMembers roundTripText members) fun width indent =>
      membersInline roundTripText width indent members
  | [] => by
      refine (laysPiece_nothing _ fun _ => by rw [dumpMembers]).congr fun width indent => ?_
      rw [membersInline]
  | member :: members => by
      rw [show dumpMembers roundTripText (member :: members) = fun state =>
        dumpMembers roundTripText members (dumpMember roundTripText member state) from
          funext fun _ => by rw [dumpMembers]]
      refine ((dumpMember_lays member).append (dumpMembers_lays members)).congr
        fun width indent => ?_
      rw [membersInline]

theorem dumpMember_lays : (member : Member) →
    LaysPiece (dumpMember roundTripText member) fun width indent =>
      member.MapsInline roundTripText width indent
  | .singular name accessor => by
      refine LaysPiece.congr ?_ fun width indent => by rw [Member.MapsInline]
      rw [dumpMember]
      cases shown : accessor.shown with
      | none =>
          refine laysPiece_nothing _ fun state => ?_
          rw [singularField, shown]
      | some value =>
          rw [show singularField roundTripText name accessor =
            beginField name (writeLeaf roundTripText value) from
              funext fun state => by rw [singularField, shown]]
          exact laysPiece_leaf name _
  | .message name none => by
      refine LaysPiece.congr ?_ fun width indent => by rw [Member.MapsInline]
      rw [dumpMember]
      exact laysPiece_nothing _ fun _ => rfl
  | .message name (some value) => by
      refine LaysPiece.congr ?_ fun width indent => by rw [Member.MapsInline]
      rw [dumpMember]
      exact ((rpDumpWrite_lays value).under name).field name
  | .repeated name values => by
      rw [dumpMember]
      refine (lays_repeatedField (renders_leaves roundTripText values)
        (grows_leaves roundTripText values) (laysLoop_leaves roundTripText values) name
        false).congr fun width indent => ?_
      rw [Member.MapsInline]
      exact iff_of_true (.inr (.inr (.inr trivial))) trivial
  | .repeatedMessage name values => by
      rw [dumpMember]
      refine (lays_repeatedField (dumpElements_renders roundTripText values)
        (grows_elements roundTripText values) (dumpElements_lays values) name true).congr
          fun width indent => ?_
      rw [Member.MapsInline]
      refine or_iff_right_of_imp fun none => .inr (.inr ?_)
      cases values with
      | nil => rw [elementsInline]; trivial
      | cons value values =>
          rw [dumpElements] at none
          exact absurd none (List.cons_ne_nil _ _)
  | .map name entries => by
      rw [dumpMember]
      refine (lays_mapField (renders_leafEntries roundTripText entries)
        (laysLoop_leafEntries roundTripText entries) name false).congr fun width indent => ?_
      rw [Member.MapsInline]
      exact iff_of_true (.inr (.inr trivial)) trivial
  | .mapMessage name entries => by
      rw [dumpMember]
      refine (lays_mapField (dumpEntries_renders roundTripText entries) (dumpEntries_lays entries)
        name true).congr fun width indent => ?_
      rw [Member.MapsInline]
      refine or_iff_right_of_imp fun none => .inr ?_
      cases entries with
      | nil => exact nofun
      | cons entry entries =>
          obtain ⟨key, value⟩ := entry
          cases value <;>
            · rw [dumpEntries] at none
              exact absurd none (List.cons_ne_nil _ _)
  | .unset => by
      refine LaysPiece.congr ?_ fun width indent => by rw [Member.MapsInline]
      rw [dumpMember]
      exact laysPiece_nothing _ fun _ => rfl
  | .active name value => by
      refine LaysPiece.congr ?_ fun width indent => by rw [Member.MapsInline]
      rw [dumpMember]
      exact laysPiece_leaf name _
  | .activeMessage name value => by
      refine LaysPiece.congr ?_ fun width indent => by rw [Member.MapsInline]
      rw [dumpMember]
      exact ((rpDumpWrite_lays value).under name).field name

theorem dumpElements_lays : (values : List Message) →
    LaysLoop (dumpElements roundTripText values) fun width indent =>
      elementsInline roundTripText width indent values
  | [] => by
      rw [dumpElements]
      exact laysLoop_nil.congr fun width indent => by rw [elementsInline]
  | value :: values => by
      rw [dumpElements]
      exact (LaysLoop.cons (rpDumpWrite_lays value).entry (dumpElements_lays values)).congr
        fun width indent => by rw [elementsInline]

theorem dumpEntries_lays : (entries : List (MapKey × Option Message)) →
    LaysLoop ((dumpEntries roundTripText entries).map
        fun entry w => entry.2 (Writer.write entry.1.text w))
      fun _ _ => ∀ entry ∈ entries, entry.2.isNone = true
  | [] => by
      rw [dumpEntries]
      exact laysLoop_nil.congr fun width indent => by simp
  | (key, none) :: entries => by
      rw [dumpEntries]
      exact (LaysLoop.cons (layEntry_leaf key _) (dumpEntries_lays entries)).congr
        fun width indent => by simp
  | (key, some value) :: entries => by
      rw [dumpEntries]
      exact (LaysLoop.cons ((rpDumpWrite_lays value).behindKey key) (dumpEntries_lays entries)).congr
        fun width indent => by simp

end

/-- Whenever a group is entered outside compact mode the counter is the column of the output, and
what is put on a line ends within the width, exactly when the maps of messages that are shown sit
within lines. -/
theorem columns_right_iff (width indent : Nat) (skip : List Text) (tree : Message) :
    (∀ event ∈ (dumped roundTripText width indent skip tree).log,
      event.Right (min indent kMaxIndent * kIndentWidth) width) ↔
    (tree.prune skip []).MapsInline roundTripText width (min indent kMaxIndent)
      (min indent kMaxIndent * kIndentWidth) := by
  have idle : (Writer.start width indent []).Idle := ⟨rfl, rfl, rfl, rfl⟩
  have run := rpDumpWrite_lays roundTripText (tree.prune skip [])
    (min indent kMaxIndent * kIndentWidth) (Writer.start width indent []) idle
  have same : (dumped roundTripText width indent skip tree).log =
      (dumped roundTripText width indent [] (tree.prune skip [])).log := by
    rw [dumped_prune]
    rfl
  rw [same]
  constructor
  · intro right
    by_contra clean
    obtain ⟨event, met, wrong⟩ := run.wrong fun both => clean both.2
    exact wrong (right event met)
  · intro clean event met
    exact (run.right ⟨rfl, clean⟩ event met).resolve_left nofun

/-- A map with one entry, whose value is a message with one field. -/
def keyedSample : Message :=
  .mk false [.mapMessage ⟨text "m", by decide, by decide⟩ [(.scalar 1,
    some (.mk false [.singular ⟨text "a", by decide, by decide⟩ (.optional (some (.scalar 1)))]))]]

/-- At width 12 the sample's map is written one entry to a line.  Behind the key its message is
taken to start at column 4, is found to fit, and ends at column 17. -/
theorem columns_behindKey_wrong :
    ¬ ∀ event ∈ (dumped (fun _ => ⟨[byte '0'], by decide⟩) 12 0 [] keyedSample).log,
      event.Right 0 12 := by
  decide +kernel

end Trees

end Dump
end RapidProto
