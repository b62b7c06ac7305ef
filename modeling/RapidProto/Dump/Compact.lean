import RapidProto.Dump.Skip

/-!
# Compact forms

The text of a tree on one line, and what the writer makes of it in compact mode: that text, or a
text no longer than it with the writer overflowed.  The same holds of the cells collected for a
grid.
-/

namespace RapidProto
namespace Dump

open Front (Text byte text)

/-! ## The text of a tree -/

/-- Entries with the separators between them; `first` says that none is in front. -/
def listed (first : Bool) : List Text → Text
  | [] => []
  | entry :: entries => (if first then [] else [byte ',', byte ' ']) ++ entry ++ listed false entries

/-- A group on one line. -/
def bracketed (opening closing : Byte) (entries : List Text) : Text :=
  opening :: listed true entries ++ [closing]

/-- A key in front of its value. -/
def keyText (name : Text) : Text := byte '"' :: name ++ [byte '"', byte ':', byte ' ']

section Texts

variable (roundTripText : FloatBits → NumberText)

/-- The entry of a field with elements, unless there are none. -/
def groupEntry (name : Identifier) (opening closing : Byte) (entries : List Text) : List Text :=
  if entries.isEmpty then [] else [keyText name.bytes ++ bracketed opening closing entries]

mutual

/-- A message on one line. -/
def Message.line : Message → Text
  | .mk hasUnknown members =>
      bracketed (byte '\x7b') (byte '\x7d')
        ((if hasUnknown then [quoted (text "has_unknown_fields") ++ text ": true"] else []) ++
          memberLines members)

def memberLines : List Member → List Text
  | [] => []
  | member :: members => member.lines ++ memberLines members

/-- The entry of a member, if it has one. -/
def Member.lines : Member → List Text
  | .singular name accessor =>
      accessor.shown.toList.map fun value => keyText name.bytes ++ value.text roundTripText
  | .message _ none => []
  | .message name (some value) => [keyText name.bytes ++ value.line]
  | .repeated name values =>
      groupEntry name (byte '[') (byte ']') (values.map fun value => value.text roundTripText)
  | .repeatedMessage name values => groupEntry name (byte '[') (byte ']') (elementLines values)
  | .map name entries =>
      groupEntry name (byte '\x7b') (byte '\x7d')
        (entries.map fun entry => entry.1.text ++ entry.2.text roundTripText)
  | .mapMessage name entries => groupEntry name (byte '\x7b') (byte '\x7d') (entryLines entries)
  | .unset => []
  | .active name value => [keyText name.bytes ++ value.text roundTripText]
  | .activeMessage name value => [keyText name.bytes ++ value.line]

def elementLines : List Message → List Text
  | [] => []
  | value :: values => value.line :: elementLines values

def entryLines : List (MapKey × Option Message) → List Text
  | [] => []
  | (key, none) :: entries => (key.text ++ text "null") :: entryLines entries
  | (key, some value) :: entries => (key.text ++ value.line) :: entryLines entries

end

end Texts

theorem listed_append (first : Bool) (front back : List Text) :
    listed first (front ++ back) = listed first front ++ listed (first && front.isEmpty) back := by
  induction front generalizing first with
  | nil => simp [listed]
  | cons entry front ih => simp [listed, ih, List.append_assoc]

/-! ## Compact mode -/

namespace Writer

/-- The writer with more in its scratch buffer. -/
def append (bytes : Text) (w : Writer) : Writer := { w with buf := w.buf ++ bytes }

theorem append_append (front back : Text) (w : Writer) :
    (w.append front).append back = w.append (front ++ back) := by
  simp [append, List.append_assoc]

@[simp] theorem append_nil (w : Writer) : w.append [] = w := by simp [append]

theorem write_compact {w : Writer} (compact : w.compact = true) (bytes : Text) :
    w.write bytes = w.append bytes := by
  rw [write, if_pos compact]
  rfl

theorem key_compact {w : Writer} (compact : w.compact = true) (name : Text) :
    w.key name = w.append (keyText name) := by
  rw [key, write_compact compact]
  exact if_pos compact

theorem entrySep_compact {w : Writer} (compact : w.compact = true) (inside : w.collect = false)
    (first : Bool) :
    w.entrySep first = w.append (if first then [] else [byte ',', byte ' ']) := by
  rw [entrySep, if_pos compact, inside, write_compact compact]
  cases first
  · rfl
  · exact (append_nil w).symm

/-- A writer that has overflowed stays so. -/
theorem overflowed_append {w : Writer} (front back : Text)
    (burst : (w.append front).overflowed = true) : (w.append (front ++ back)).overflowed = true := by
  have longer : (w.append front).buf.length ≤ (w.append (front ++ back)).buf.length := by
    simp [append]
  rw [overflowed] at burst ⊢
  cases collecting : w.collecting with
  | true =>
      rw [if_pos (by exact collecting), gridCapped, Bool.or_eq_true, decide_eq_true_eq,
        decide_eq_true_eq] at burst ⊢
      exact burst.imp id fun long => Nat.lt_of_lt_of_le long (Nat.add_le_add_left longer _)
  | false =>
      rw [if_neg (by exact fun on => nomatch collecting.symm.trans on), Bool.and_eq_true,
        decide_eq_true_eq] at burst ⊢
      exact ⟨burst.1, Nat.lt_of_lt_of_le burst.2 longer⟩

end Writer

/-- The writer `w'` is `w` with the text `full` in its buffer, or with no longer a text and
overflowed. -/
def Reaches (w w' : Writer) (full : Text) : Prop :=
  ∃ bytes, w' = w.append bytes ∧ bytes.length ≤ full.length ∧
    (bytes = full ∨ w'.overflowed = true)

theorem Reaches.refl (w : Writer) : Reaches w w [] :=
  ⟨[], (w.append_nil).symm, Nat.le_refl _, .inl rfl⟩

theorem reaches_append (w : Writer) (bytes : Text) : Reaches w (w.append bytes) bytes :=
  ⟨bytes, rfl, Nat.le_refl _, .inl rfl⟩

theorem Reaches.trans {w w' w'' : Writer} {front back : Text} (first : Reaches w w' front)
    (second : Reaches w' w'' back) : Reaches w w'' (front ++ back) := by
  obtain ⟨bytes, rfl, short, whole⟩ := first
  obtain ⟨bytes', rfl, short', whole'⟩ := second
  refine ⟨bytes ++ bytes', Writer.append_append .., ?_, ?_⟩
  · simp only [List.length_append]
    omega
  · rw [Writer.append_append] at whole' ⊢
    rcases whole with rfl | burst
    · rcases whole' with rfl | burst
      · exact .inl rfl
      · exact .inr burst
    · exact .inr (Writer.overflowed_append _ _ burst)

/-- The loop is left behind an overflow: the text that is missing makes no difference. -/
theorem Reaches.cut {w w' : Writer} {front : Text} (reaches : Reaches w w' front)
    (burst : w'.overflowed = true) (back : Text) : Reaches w w' (front ++ back) := by
  obtain ⟨bytes, step, short, -⟩ := reaches
  refine ⟨bytes, step, ?_, .inr burst⟩
  rw [List.length_append]
  omega

/-- In compact mode, an action writes a text. -/
def Renders (action : Writer → Writer) (full : Text) : Prop :=
  ∀ w, w.compact = true → w.skip = [] → Reaches w (action w) full

/-- In compact mode and not at a cell boundary, a part of a message's body writes entries. -/
def RendersPiece (piece : Piece) (entries : List Text) : Prop :=
  ∀ first w, w.compact = true → w.collect = false → w.skip = [] →
    (piece (first, w)).1 = (first && entries.isEmpty) ∧
      Reaches w (piece (first, w)).2 (listed first entries)

section Rendering

variable {action body : Writer → Writer} {full : Text}

theorem renders_write (bytes : Text) : Renders (Writer.write bytes) bytes := by
  intro w compact _
  rw [Writer.write_compact compact]
  exact reaches_append w bytes

theorem Reaches.compact {w w' : Writer} (reaches : Reaches w w' full) :
    w'.compact = w.compact ∧ w'.collect = w.collect ∧ w'.skip = w.skip := by
  obtain ⟨bytes, rfl, -⟩ := reaches
  exact ⟨rfl, rfl, rfl⟩

theorem Renders.after (renders : Renders action full) (bytes : Text) :
    Renders (fun w => action (Writer.write bytes w)) (bytes ++ full) := by
  intro w compact plain
  have first := renders_write bytes w compact plain
  exact first.trans (renders _ (first.compact.1.trans compact) (first.compact.2.2.trans plain))

theorem Renders.under (renders : Renders action full) (name : Identifier) :
    Renders (Dump.under name action) full := by
  intro w compact plain
  obtain ⟨bytes, step, short, whole⟩ := renders (w.pushPath name.bytes) compact plain
  have popped : (Writer.append bytes (w.pushPath name.bytes)).popPath = w.append bytes := by
    simp [Writer.append, Writer.pushPath, Writer.popPath, take_joined]
  rw [step] at whole
  refine ⟨bytes, ?_, short, ?_⟩
  · rw [Dump.under, step, popped]
  · rw [Dump.under, step, popped]
    exact whole

theorem Renders.beginField (renders : Renders action full) (name : Identifier) :
    RendersPiece (Dump.beginField name action) [keyText name.bytes ++ full] := by
  intro first w compact inside plain
  have shown : ¬ w.skipped name.bytes = true := by simp [Writer.skipped, plain]
  simp only [Dump.beginField]
  rw [if_neg shown]
  refine ⟨(Bool.and_false _).symm, ?_⟩
  dsimp only
  rw [Writer.entrySep_compact compact inside, listed, listed, List.append_nil, ← List.append_assoc]
  generalize (if first then [] else [byte ',', byte ' '] : Text) = separator
  rw [Writer.key_compact (w := w.append separator) compact, Writer.append_append]
  exact (reaches_append w (separator ++ keyText name.bytes)).trans (renders _ compact plain)

/-- A group inside a compact one. -/
theorem group_compact (body : Writer → Writer) (full : Text)
    (renders : ∀ w, w.compact = true → w.collect = false → w.skip = [] → Reaches w (body w) full)
    (opening closing : Byte) {w : Writer} (compact : w.compact = true) (plain : w.skip = []) :
    ∃ bytes, Writer.group opening closing body w = w.append (opening :: bytes ++ [closing]) ∧
      bytes.length ≤ full.length ∧
      (bytes = full ∨ (Writer.group opening closing body w).overflowed = true) := by
  rw [Writer.group, if_pos compact, Writer.inline,
    Writer.write_compact (w := w.setCollect false) compact]
  obtain ⟨bytes, step, short, whole⟩ :=
    renders ((w.setCollect false).append [opening]) compact rfl plain
  rw [step, Writer.write_compact (by exact compact)]
  have closed : (((w.setCollect false).append [opening]).append bytes).append [closing] =
      (w.setCollect false).append (opening :: bytes ++ [closing]) := by
    simp only [Writer.append_append]
    rfl
  rw [closed]
  refine ⟨bytes, rfl, short, whole.imp id fun burst => ?_⟩
  rw [step, Writer.append_append] at burst
  exact Writer.overflowed_append (w := w) ([opening] ++ bytes) [closing] burst

theorem renders_group (body : Writer → Writer) (full : Text)
    (renders : ∀ w, w.compact = true → w.collect = false → w.skip = [] → Reaches w (body w) full)
    (opening closing : Byte) :
    Renders (Writer.group opening closing body) (opening :: full ++ [closing]) := by
  intro w compact plain
  obtain ⟨bytes, step, short, whole⟩ := group_compact body full renders opening closing compact plain
  exact ⟨opening :: bytes ++ [closing], step, by simpa using short,
    whole.imp (fun same => by rw [same]) id⟩

/-- The entries of an array or a map, in a group inside a compact one. -/
theorem reaches_entryLoop {writes : List (Writer → Writer)} {entries : List Text}
    (each : List.Forall₂ Renders writes entries) (first : Bool) (w : Writer)
    (compact : w.compact = true) (inside : w.collect = false) (plain : w.skip = []) :
    Reaches w (entryLoop first writes w) (listed first entries) := by
  induction each generalizing first w with
  | nil => exact Reaches.refl w
  | @cons write entry writes entries renders each ih =>
      rw [entryLoop, Writer.entrySep_compact compact inside, listed]
      generalize (if first then [] else [byte ',', byte ' '] : Text) = separator
      have written := (reaches_append w separator).trans
        (renders (w.append separator) compact plain)
      obtain ⟨compact', inside', plain'⟩ := written.compact
      split_ifs with burst
      · exact written.cut burst _
      · exact written.trans (ih false _ (compact'.trans compact) (inside'.trans inside)
          (plain'.trans plain))

theorem renders_nested {value : Writer → Writer} (renders : Renders value full)
    (name : Identifier) (nested : Bool) :
    RendersPiece (beginField name (if nested then under name value else value))
      [keyText name.bytes ++ full] := by
  cases nested
  · exact renders.beginField name
  · exact (renders.under name).beginField name

theorem rendersPiece_nothing (piece : Piece) (same : ∀ state, piece state = state) :
    RendersPiece piece [] := by
  intro first w _ _ _
  rw [same]
  exact ⟨(Bool.and_true first).symm, Reaches.refl w⟩

theorem renders_repeatedField {elements : List (Writer → Writer)} {entries : List Text}
    (each : List.Forall₂ Renders elements entries) (name : Identifier) (nested : Bool) :
    RendersPiece (repeatedField name nested elements)
      (groupEntry name (byte '[') (byte ']') entries) := by
  cases each with
  | nil => exact rendersPiece_nothing _ fun _ => rfl
  | cons renders each =>
      exact renders_nested (renders_group _ _ (reaches_entryLoop (.cons renders each) true) _ _)
        name nested

theorem renders_entries {entries : List (MapKey × (Writer → Writer))} {texts : List Text}
    (each : List.Forall₂ (fun entry full => ∃ value, Renders entry.2 value ∧
      full = entry.1.text ++ value) entries texts) :
    List.Forall₂ Renders (entries.map fun entry w => entry.2 (Writer.write entry.1.text w)) texts := by
  rw [List.forall₂_map_left_iff]
  apply each.imp
  rintro entry full ⟨value, renders, rfl⟩
  exact renders.after entry.1.text

theorem renders_mapField {entries : List (MapKey × (Writer → Writer))} {texts : List Text}
    (each : List.Forall₂ (fun entry full => ∃ value, Renders entry.2 value ∧
      full = entry.1.text ++ value) entries texts) (name : Identifier) (nested : Bool) :
    RendersPiece (mapField name nested entries)
      (groupEntry name (byte '\x7b') (byte '\x7d') texts) := by
  have writes := renders_entries each
  cases each with
  | nil => exact rendersPiece_nothing _ fun _ => rfl
  | cons =>
      exact renders_nested (renders_group _ _ (reaches_entryLoop writes true) _ _) name nested

theorem RendersPiece.append {piece piece' : Piece} {front back : List Text}
    (renders : RendersPiece piece front) (renders' : RendersPiece piece' back) :
    RendersPiece (fun state => piece' (piece state)) (front ++ back) := by
  intro first w compact inside plain
  obtain ⟨flag, reaches⟩ := renders first w compact inside plain
  obtain ⟨compact', inside', plain'⟩ := reaches.compact
  obtain ⟨flag', reaches'⟩ := renders' (piece (first, w)).1 (piece (first, w)).2
    (compact'.trans compact) (inside'.trans inside) (plain'.trans plain)
  refine ⟨?_, ?_⟩
  · rw [flag', flag, Bool.and_assoc]
    cases front <;> rfl
  · rw [listed_append, ← flag]
    exact reaches.trans reaches'

theorem renders_unknownEntry (hasUnknown : Bool) :
    RendersPiece (unknownEntry hasUnknown)
      (if hasUnknown then [quoted (text "has_unknown_fields") ++ text ": true"] else []) := by
  cases hasUnknown with
  | false => exact rendersPiece_nothing _ fun _ => rfl
  | true =>
      intro first w compact inside plain
      simp only [unknownEntry, if_true]
      rw [Writer.entrySep_compact compact inside]
      refine ⟨(Bool.and_false first).symm, ?_⟩
      have written := (reaches_append w (if first then [] else [byte ',', byte ' '])).trans
        (renders_write (quoted (text "has_unknown_fields") ++ text ": true") _ compact plain)
      rw [listed, listed, List.append_nil]
      exact written

end Rendering

section Trees

variable (roundTripText : FloatBits → NumberText)

theorem renders_leaves (values : List Leaf) :
    List.Forall₂ Renders (values.map (writeLeaf roundTripText))
      (values.map fun value => value.text roundTripText) := by
  induction values with
  | nil => exact .nil
  | cons value values ih => exact .cons (renders_write _) ih

theorem renders_leafEntries (entries : List (MapKey × Leaf)) :
    List.Forall₂ (fun entry full => ∃ value, Renders entry.2 value ∧
        full = MapKey.text entry.1 ++ value)
      (entries.map fun entry => (entry.1, writeLeaf roundTripText entry.2))
      (entries.map fun entry => entry.1.text ++ entry.2.text roundTripText) := by
  induction entries with
  | nil => exact .nil
  | cons entry entries ih => exact .cons ⟨_, renders_write _, rfl⟩ ih

mutual

/-- In compact mode a message is dumped on one line. -/
theorem rpDumpWrite_renders : (value : Message) →
    Renders (rpDumpWrite roundTripText value) (value.line roundTripText)
  | .mk hasUnknown members => by
      rw [rpDumpWrite, Message.line, bracketed]
      refine renders_group _ _ (fun w compact inside plain => ?_) _ _
      exact ((renders_unknownEntry hasUnknown).append (dumpMembers_renders members) true w compact
        inside plain).2

theorem dumpMembers_renders : (members : List Member) →
    RendersPiece (dumpMembers roundTripText members) (memberLines roundTripText members)
  | [] => by
      rw [memberLines]
      exact rendersPiece_nothing _ fun _ => by rw [dumpMembers]
  | member :: members => by
      rw [memberLines, show dumpMembers roundTripText (member :: members) = fun state =>
        dumpMembers roundTripText members (dumpMember roundTripText member state) from
          funext fun _ => by rw [dumpMembers]]
      exact (dumpMember_renders member).append (dumpMembers_renders members)

theorem dumpMember_renders : (member : Member) →
    RendersPiece (dumpMember roundTripText member) (member.lines roundTripText)
  | .singular name accessor => by
      rw [dumpMember, Member.lines]
      cases shown : accessor.shown with
      | none =>
          refine rendersPiece_nothing _ fun state => ?_
          rw [singularField, shown]
      | some value =>
          rw [show singularField roundTripText name accessor =
            beginField name (writeLeaf roundTripText value) from
              funext fun state => by rw [singularField, shown]]
          exact (renders_write _).beginField name
  | .message name none => by
      rw [dumpMember, Member.lines]
      exact rendersPiece_nothing _ fun _ => rfl
  | .message name (some value) => by
      rw [dumpMember, Member.lines]
      exact ((rpDumpWrite_renders value).under name).beginField name
  | .repeated name values => by
      rw [dumpMember, Member.lines]
      exact renders_repeatedField (renders_leaves roundTripText values) name false
  | .repeatedMessage name values => by
      rw [dumpMember, Member.lines]
      exact renders_repeatedField (dumpElements_renders values) name true
  | .map name entries => by
      rw [dumpMember, Member.lines]
      exact renders_mapField (renders_leafEntries roundTripText entries) name false
  | .mapMessage name entries => by
      rw [dumpMember, Member.lines]
      exact renders_mapField (dumpEntries_renders entries) name true
  | .unset => by
      rw [dumpMember, Member.lines]
      exact rendersPiece_nothing _ fun _ => rfl
  | .active name value => by
      rw [dumpMember, Member.lines]
      exact (renders_write _).beginField name
  | .activeMessage name value => by
      rw [dumpMember, Member.lines]
      exact ((rpDumpWrite_renders value).under name).beginField name

theorem dumpElements_renders : (values : List Message) →
    List.Forall₂ Renders (dumpElements roundTripText values) (elementLines roundTripText values)
  | [] => by
      rw [dumpElements, elementLines]
      exact .nil
  | value :: values => by
      rw [dumpElements, elementLines]
      exact .cons (rpDumpWrite_renders value) (dumpElements_renders values)

theorem dumpEntries_renders : (entries : List (MapKey × Option Message)) →
    List.Forall₂ (fun entry full => ∃ value, Renders entry.2 value ∧
        full = MapKey.text entry.1 ++ value)
      (dumpEntries roundTripText entries) (entryLines roundTripText entries)
  | [] => by
      rw [dumpEntries, entryLines]
      exact .nil
  | (key, none) :: entries => by
      rw [dumpEntries, entryLines]
      exact .cons ⟨_, renders_write _, rfl⟩ (dumpEntries_renders entries)
  | (key, some value) :: entries => by
      rw [dumpEntries, entryLines]
      exact .cons ⟨_, rpDumpWrite_renders value, rfl⟩ (dumpEntries_renders entries)

end

end Trees

end Dump
end RapidProto
