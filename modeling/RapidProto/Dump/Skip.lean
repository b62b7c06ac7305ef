import Mathlib.Data.List.Forall2
import RapidProto.Dump.Generated

/-!
# Skip paths

A field whose dotted path the caller lists is left out of a dump.  The generated code keeps the path
of the field it is at in a stack; every action leaves that stack as it found it, and a dump with
skip paths runs in step with the plain dump of the tree that lacks the fields.
-/

namespace RapidProto
namespace Dump

open Front (Text byte)

/-! ## The tree without the skipped fields -/

/-- The dotted path of a field. -/
def dotted (path : List Identifier) : Text :=
  [byte '.'].intercalate (path.map Identifier.bytes)

/-- The field a member dumps. -/
def Member.name? : Member → Option Identifier
  | .singular name _ | .message name _ | .repeated name _ | .repeatedMessage name _
  | .map name _ | .mapMessage name _ | .active name _ | .activeMessage name _ => some name
  | .unset => none

/-- The member's field is one of those to skip. -/
def Member.Skipped (skip : List Text) (path : List Identifier) (member : Member) : Prop :=
  ∃ name, member.name? = some name ∧ dotted (path ++ [name]) ∈ skip

instance (skip : List Text) (path : List Identifier) (member : Member) :
    Decidable (member.Skipped skip path) :=
  match named : member.name? with
  | none => .isFalse (by rintro ⟨name, other, -⟩; rw [named] at other; cases other)
  | some name =>
      decidable_of_iff (dotted (path ++ [name]) ∈ skip)
        ⟨fun listed => ⟨name, named, listed⟩, by
          rintro ⟨other, named', listed⟩
          cases named.symm.trans named'
          exact listed⟩

section Prune

variable (skip : List Text)

mutual

/-- The message at a path without the fields to skip. -/
def Message.prune (path : List Identifier) : Message → Message
  | .mk hasUnknown members => .mk hasUnknown (pruneMembers path members)

def pruneMembers (path : List Identifier) : List Member → List Member
  | [] => []
  | member :: members =>
      if member.Skipped skip path then pruneMembers path members
      else member.prune path :: pruneMembers path members

def Member.prune (path : List Identifier) : Member → Member
  | .message name (some value) => .message name (some (value.prune (path ++ [name])))
  | .repeatedMessage name values => .repeatedMessage name (pruneElements (path ++ [name]) values)
  | .mapMessage name entries => .mapMessage name (pruneEntries (path ++ [name]) entries)
  | .activeMessage name value => .activeMessage name (value.prune (path ++ [name]))
  | .message name none => .message name none
  | .singular name accessor => .singular name accessor
  | .repeated name values => .repeated name values
  | .map name entries => .map name entries
  | .unset => .unset
  | .active name value => .active name value

def pruneElements (path : List Identifier) : List Message → List Message
  | [] => []
  | value :: values => value.prune path :: pruneElements path values

def pruneEntries (path : List Identifier) :
    List (MapKey × Option Message) → List (MapKey × Option Message)
  | [] => []
  | (key, none) :: entries => (key, none) :: pruneEntries path entries
  | (key, some value) :: entries => (key, some (value.prune path)) :: pruneEntries path entries

end

end Prune

/-! ## Actions that keep the path -/

namespace Writer

/-- Where in the tree the writer is, and what it skips. -/
def place (w : Writer) : Text × List Nat × List Text := (w.path, w.pathStack, w.skip)

@[simp] theorem place_write (bytes : Text) (w : Writer) : (w.write bytes).place = w.place := by
  rw [write]
  split_ifs <;> rfl

@[simp] theorem place_key (name : Text) (w : Writer) : (w.key name).place = w.place := by
  rw [key]
  split_ifs
  · exact place_write _ w
  · exact place_write _ w

@[simp] theorem place_entrySep (first : Bool) (w : Writer) : (w.entrySep first).place = w.place := by
  rw [entrySep]
  split_ifs
  · rfl
  · rfl
  · rfl
  · exact place_write _ w
  · rfl
  · exact place_write _ w

theorem place_renderCell (cols : Nat) (widths : List Nat) (allNumeric : Bool) (count : Nat)
    (state : Writer × Nat) (entry : Text × Nat) :
    (renderCell cols widths allNumeric count state entry).1.place = state.1.place := by
  rw [renderCell]
  split_ifs <;> rfl

theorem place_renderRows (cols : Nat) (widths : List Nat) (allNumeric : Bool) (w : Writer) :
    (w.renderRows cols widths allNumeric).place = w.place := by
  have rows : ∀ (entries : List (Text × Nat)) (state : Writer × Nat),
      (entries.foldl (renderCell cols widths allNumeric w.cells.length) state).1.place =
        state.1.place := by
    intro entries
    induction entries with
    | nil => exact fun _ => rfl
    | cons entry entries ih => exact fun state => (ih _).trans (place_renderCell ..)
  exact rows w.cells.zipIdx (w, 0)

theorem place_renderGrid (cols : Nat) (widths : List Nat) (allNumeric : Bool) (w : Writer) :
    (w.renderGrid cols widths allNumeric).place = w.place :=
  place_renderRows cols widths allNumeric (w.emit [byte '[']).deeper

end Writer

/-- An action that leaves path, stack and skip paths as it found them. -/
def Balanced (action : Writer → Writer) : Prop := ∀ w, (action w).place = w.place

/-- The same of a part of a message's body. -/
def BalancedPiece (piece : Piece) : Prop := ∀ state, (piece state).2.place = state.2.place

section Balance

variable {body : Writer → Writer}

theorem Balanced.tryGrid (balanced : Balanced body) (w : Writer) :
    (w.tryGrid body).2.place = w.place := by
  have collected : (w.collectCells body).place = w.place := balanced w.beginCells
  rw [Writer.tryGrid]
  split_ifs
  · exact collected
  · exact collected
  · split
    · exact collected
    · exact (Writer.place_renderGrid ..).trans collected

theorem Balanced.inline (balanced : Balanced body) (opening closing : Byte) (w : Writer) :
    (w.inline opening closing body).place = w.place :=
  (Writer.place_write _ _).trans ((balanced _).trans (Writer.place_write _ (w.setCollect false)))

theorem Balanced.probe (balanced : Balanced body) (opening closing : Byte) (w : Writer) :
    (w.probe opening closing body).place = w.place :=
  (Writer.place_write _ _).trans ((balanced _).trans (Writer.place_write _ w.beginProbe))

theorem Balanced.spread (balanced : Balanced body) (opening closing : Byte) (any : Bool)
    (w : Writer) : (w.spread opening closing body any).place = w.place := by
  have inside := balanced (w.emit [opening]).deeper
  cases any
  · exact inside
  · exact inside

theorem Balanced.breakUp (balanced : Balanced body) (opening closing : Byte) (w : Writer) :
    (w.breakUp opening closing body).place = w.place := by
  rw [Writer.breakUp]
  by_cases array : opening = byte '[' ∧ decide (kEmptyGroupChars < w.buf.length) = true
  · rw [if_pos array]
    split_ifs
    · exact balanced.tryGrid w
    · exact (balanced.spread _ _ _ _).trans (balanced.tryGrid w)
  · rw [if_neg array]
    exact balanced.spread _ _ _ _

/-- A group keeps the path when its body does, in whichever layout. -/
theorem Balanced.group (balanced : Balanced body) (opening closing : Byte) :
    Balanced (Writer.group opening closing body) := by
  intro w
  have probed : (w.enter.probe opening closing body).place = w.place :=
    balanced.probe opening closing w.enter
  simp only [Writer.group]
  split_ifs
  · exact balanced.inline opening closing w
  · exact probed
  · exact (balanced.breakUp _ _ _).trans probed

theorem balanced_write (bytes : Text) : Balanced (Writer.write bytes) := Writer.place_write bytes

theorem take_joined (base leaf : Text) : (Writer.joined base leaf).take base.length = base := by
  rw [Writer.joined]
  cases base with
  | nil => rfl
  | cons c base => simp

theorem Balanced.under (balanced : Balanced body) (name : Identifier) :
    Balanced (Dump.under name body) := by
  intro w
  have inside := balanced (w.pushPath name.bytes)
  simp only [Writer.place, Prod.mk.injEq, Writer.pushPath] at inside
  obtain ⟨path, stack, skip⟩ := inside
  simp only [Dump.under, Writer.popPath, Writer.place, Prod.mk.injEq, Writer.pushPath, path, stack,
    List.headD_cons, List.tail_cons, take_joined, true_and]
  exact skip

theorem Balanced.beginField (balanced : Balanced body) (name : Identifier) :
    BalancedPiece (Dump.beginField name body) := by
  rintro ⟨first, w⟩
  rw [Dump.beginField]
  split_ifs
  · rfl
  · rw [balanced, Writer.place_key, Writer.place_entrySep]

/-- An element loop keeps the path, where it is left early too. -/
theorem balanced_entryLoop (writes : List (Writer → Writer))
    (each : ∀ write ∈ writes, Balanced write) (first : Bool) :
    Balanced (entryLoop first writes) := by
  induction writes generalizing first with
  | nil => exact fun _ => rfl
  | cons write writes ih =>
      intro w
      have one := (each write List.mem_cons_self _).trans (Writer.place_entrySep first w)
      rw [entryLoop]
      split_ifs
      · exact one
      · exact (ih (fun other met => each other (List.mem_cons_of_mem _ met)) false _).trans one

theorem balanced_nested {value : Writer → Writer} (balanced : Balanced value) (name : Identifier)
    (nested : Bool) : BalancedPiece (beginField name (if nested then under name value else value)) := by
  cases nested
  · exact balanced.beginField name
  · exact (balanced.under name).beginField name

theorem balanced_repeatedField (name : Identifier) (nested : Bool) (elements : List (Writer → Writer))
    (each : ∀ write ∈ elements, Balanced write) :
    BalancedPiece (repeatedField name nested elements) := by
  intro state
  rw [repeatedField]
  by_cases empty : elements.isEmpty = true
  · rw [if_pos empty]
  · rw [if_neg empty]
    exact balanced_nested ((balanced_entryLoop elements each true).group _ _) name nested state

theorem balanced_mapField (name : Identifier) (nested : Bool)
    (entries : List (MapKey × (Writer → Writer))) (each : ∀ entry ∈ entries, Balanced entry.2) :
    BalancedPiece (mapField name nested entries) := by
  intro state
  rw [mapField]
  by_cases empty : entries.isEmpty = true
  · rw [if_pos empty]
  · rw [if_neg empty]
    refine balanced_nested ((balanced_entryLoop _ ?_ true).group _ _) name nested state
    intro write listed w
    obtain ⟨entry, met, rfl⟩ := List.mem_map.mp listed
    exact (each entry met _).trans (Writer.place_write _ w)

theorem balanced_unknownEntry (hasUnknown : Bool) : BalancedPiece (unknownEntry hasUnknown) := by
  rintro ⟨first, w⟩
  cases hasUnknown
  · rfl
  · exact (Writer.place_write _ _).trans (Writer.place_entrySep first w)

end Balance

/-! ## The run in step -/

/-- The writer is at a path, with the given skip paths. -/
def At (skip : List Text) (path : List Identifier) (w : Writer) : Prop :=
  w.skip = skip ∧ w.path = dotted path

theorem At.congr {skip : List Text} {path : List Identifier} {w w' : Writer}
    (here : At skip path w) (same : w'.place = w.place) : At skip path w' := by
  simp only [Writer.place, Prod.mk.injEq] at same
  exact ⟨same.2.2.trans here.1, same.1.trans here.2⟩

namespace Writer

/-- The writer with nothing to skip. -/
def unskipped (w : Writer) : Writer := { w with skip := [] }

@[simp] theorem unskipped_write (bytes : Text) (w : Writer) :
    w.unskipped.write bytes = (w.write bytes).unskipped := by
  rw [write, write]
  split_ifs <;> first | rfl | contradiction

@[simp] theorem unskipped_compact (w : Writer) : w.unskipped.compact = w.compact := rfl

@[simp] theorem unskipped_buf (w : Writer) : w.unskipped.buf = w.buf := rfl

@[simp] theorem unskipped_overflowed (w : Writer) : w.unskipped.overflowed = w.overflowed := rfl

theorem unskipped_key (name : Text) (w : Writer) :
    w.unskipped.key name = (w.key name).unskipped := by
  simp only [key, unskipped_write, unskipped_compact]
  split_ifs <;> rfl

theorem unskipped_entrySep (first : Bool) (w : Writer) :
    w.unskipped.entrySep first = (w.entrySep first).unskipped := by
  simp only [entrySep, unskipped_write, unskipped_compact]
  rw [show w.unskipped.collect = w.collect from rfl]
  split_ifs <;> rfl

theorem unskipped_renderCell (cols : Nat) (widths : List Nat) (allNumeric : Bool) (count : Nat)
    (w : Writer) (pos : Nat) (entry : Text × Nat) :
    renderCell cols widths allNumeric count (w.unskipped, pos) entry =
      ((renderCell cols widths allNumeric count (w, pos) entry).1.unskipped,
        (renderCell cols widths allNumeric count (w, pos) entry).2) := by
  rw [renderCell, renderCell]
  dsimp only
  split_ifs <;> rfl

theorem unskipped_renderRows (cols : Nat) (widths : List Nat) (allNumeric : Bool) (w : Writer) :
    w.unskipped.renderRows cols widths allNumeric =
      (w.renderRows cols widths allNumeric).unskipped := by
  have rows : ∀ (entries : List (Text × Nat)) (w' : Writer) (pos : Nat),
      (entries.foldl (renderCell cols widths allNumeric w.cells.length) (w'.unskipped, pos)).1 =
        (entries.foldl (renderCell cols widths allNumeric w.cells.length)
          (w', pos)).1.unskipped := by
    intro entries
    induction entries with
    | nil => exact fun _ _ => rfl
    | cons entry entries ih =>
        intro w' pos
        rw [List.foldl_cons, unskipped_renderCell, ih]
        rfl
  exact rows w.cells.zipIdx w 0

theorem unskipped_renderGrid (cols : Nat) (widths : List Nat) (allNumeric : Bool) (w : Writer) :
    w.unskipped.renderGrid cols widths allNumeric =
      (w.renderGrid cols widths allNumeric).unskipped := by
  have rows := unskipped_renderRows cols widths allNumeric (w.emit [byte '[']).deeper
  exact congrArg (fun result : Writer =>
    (result.shallower.newline.emit [byte ']']).atMargin.dropCells) rows

end Writer

section Mirrors

variable (skip : List Text)

/-- Below a path, an action under skip paths does what another does without. -/
def Mirrors (path : List Identifier) (action action' : Writer → Writer) : Prop :=
  ∀ w, At skip path w → action' w.unskipped = (action w).unskipped

/-- The same for parts of message bodies. -/
def MirrorsPiece (path : List Identifier) (piece piece' : Piece) : Prop :=
  ∀ first w, At skip path w →
    piece' (first, w.unskipped) = ((piece (first, w)).1, (piece (first, w)).2.unskipped)

variable {skip} {path : List Identifier} {body body' : Writer → Writer} {w : Writer}

theorem Mirrors.inline (mirrors : Mirrors skip path body body') (opening closing : Byte)
    (here : At skip path w) :
    w.unskipped.inline opening closing body' = (w.inline opening closing body).unskipped := by
  have step := mirrors ((w.setCollect false).write [opening]) (here.congr (Writer.place_write _ _))
  change ((body' ((w.setCollect false).unskipped.write [opening])).write [closing]).setCollect
    w.collect = _
  rw [Writer.unskipped_write, step, Writer.unskipped_write]
  rfl

theorem Mirrors.probe (mirrors : Mirrors skip path body body') (opening closing : Byte)
    (here : At skip path w) :
    w.unskipped.probe opening closing body' = (w.probe opening closing body).unskipped := by
  have step := mirrors (w.beginProbe.write [opening]) (here.congr (Writer.place_write _ _))
  change ((body' (w.beginProbe.unskipped.write [opening])).write [closing]).endProbe = _
  rw [Writer.unskipped_write, step, Writer.unskipped_write]
  rfl

theorem Mirrors.tryGrid (mirrors : Mirrors skip path body body') (here : At skip path w) :
    w.unskipped.tryGrid body' = ((w.tryGrid body).1, (w.tryGrid body).2.unskipped) := by
  have collected : w.unskipped.collectCells body' = (w.collectCells body).unskipped :=
    congrArg (fun result : Writer => result.endCells.pushCell)
      (mirrors w.beginCells (here.congr rfl))
  rw [Writer.tryGrid, Writer.tryGrid, collected]
  generalize w.collectCells body = result
  rw [show result.unskipped.gridCapped = result.gridCapped from rfl,
    show result.unskipped.cells = result.cells from rfl,
    show result.unskipped.width = result.width from rfl,
    show result.unskipped.indent = result.indent from rfl]
  split_ifs
  · rfl
  · rfl
  · cases Writer.gridColumns result.width ((result.indent + 1) * kIndentWidth) result.cells with
    | none => rfl
    | some grid => exact congrArg (Prod.mk true) (Writer.unskipped_renderGrid ..)

theorem Mirrors.spread (mirrors : Mirrors skip path body body') (opening closing : Byte)
    (any : Bool) (here : At skip path w) :
    w.unskipped.spread opening closing body' any =
      (w.spread opening closing body any).unskipped := by
  have step := mirrors (w.emit [opening]).deeper (here.congr rfl)
  have closed := congrArg (fun result : Writer =>
    ((if any then result.shallower.newline else result.shallower).emit [closing]).atMargin) step
  cases any <;> exact closed

theorem Mirrors.breakUp (mirrors : Mirrors skip path body body') (opening closing : Byte)
    (balanced : Balanced body) (here : At skip path w) :
    w.unskipped.breakUp opening closing body' = (w.breakUp opening closing body).unskipped := by
  rw [Writer.breakUp, Writer.breakUp]
  rw [Writer.unskipped_buf, mirrors.tryGrid here]
  by_cases array : opening = byte '[' ∧ decide (kEmptyGroupChars < w.buf.length) = true
  · rw [if_pos array, if_pos array]
    dsimp only
    split_ifs
    · rfl
    · exact mirrors.spread opening closing _ (here.congr (balanced.tryGrid w))
  · rw [if_neg array, if_neg array]
    exact mirrors.spread opening closing _ here

/-- Groups run in step when their bodies do. -/
theorem Mirrors.group (mirrors : Mirrors skip path body body') (balanced : Balanced body)
    (opening closing : Byte) :
    Mirrors skip path (Writer.group opening closing body)
      (Writer.group opening closing body') := by
  intro w here
  have entered : At skip path w.enter := here.congr rfl
  have probed : w.unskipped.enter.probe opening closing body' =
      (w.enter.probe opening closing body).unskipped := mirrors.probe opening closing entered
  have laid : At skip path (w.enter.probe opening closing body) :=
    entered.congr (balanced.probe opening closing _)
  simp only [Writer.group]
  rw [Writer.unskipped_compact, probed, Writer.unskipped_buf,
    show w.unskipped.width - w.unskipped.column = w.width - w.column from rfl]
  split_ifs
  · exact mirrors.inline opening closing here
  · rfl
  · exact mirrors.breakUp opening closing balanced laid

theorem mirrors_write (bytes : Text) : Mirrors skip path (Writer.write bytes) (Writer.write bytes) :=
  fun w _ => Writer.unskipped_write bytes w

/-! ## The path -/

theorem dotted_cons (name : Identifier) (path : List Identifier) (nonempty : path ≠ []) :
    dotted (name :: path) = name.bytes ++ byte '.' :: dotted path := by
  cases path with
  | nil => exact absurd rfl nonempty
  | cons next path => simp [dotted, List.intercalate]

theorem dotted_ne_nil (path : List Identifier) (nonempty : path ≠ []) : dotted path ≠ [] := by
  cases path with
  | nil => exact absurd rfl nonempty
  | cons name path =>
      intro empty
      cases path with
      | nil => exact name.nonempty (by simpa [dotted, List.intercalate] using empty)
      | cons next path =>
          rw [dotted_cons name _ (List.cons_ne_nil _ _)] at empty
          exact absurd (List.append_eq_nil_iff.mp empty).2 (List.cons_ne_nil _ _)

/-- Lengthening the path by a name gives the dotted path of the field. -/
theorem joined_dotted (path : List Identifier) (name : Identifier) :
    Writer.joined (dotted path) name.bytes = dotted (path ++ [name]) := by
  induction path with
  | nil => simp [dotted, List.intercalate, Writer.joined]
  | cons first path ih =>
      have nonempty : dotted (first :: path) ≠ [] := dotted_ne_nil _ (List.cons_ne_nil _ _)
      rw [Writer.joined, if_neg (by simpa using nonempty), List.cons_append,
        dotted_cons first (path ++ [name]) (by simp), ← ih]
      cases path with
      | nil => simp [dotted, List.intercalate, Writer.joined]
      | cons next path =>
          rw [dotted_cons first _ (List.cons_ne_nil _ _), Writer.joined,
            if_neg (by simpa using dotted_ne_nil _ (List.cons_ne_nil next path))]
          simp

theorem At.skipped_iff (here : At skip path w) (name : Identifier) :
    w.skipped name.bytes = true ↔ dotted (path ++ [name]) ∈ skip := by
  rw [Writer.skipped, here.1, here.2, joined_dotted, List.any_beq', List.contains_iff_mem]

theorem Mirrors.under {name : Identifier} (mirrors : Mirrors skip (path ++ [name]) body body') :
    Mirrors skip path (Dump.under name body) (Dump.under name body') := by
  intro w here
  have inside : At skip (path ++ [name]) (w.pushPath name.bytes) :=
    ⟨here.1, by rw [← joined_dotted, ← here.2]; rfl⟩
  exact congrArg Writer.popPath (mirrors _ inside)

theorem Mirrors.beginField {name : Identifier} (mirrors : Mirrors skip path body body')
    (kept : dotted (path ++ [name]) ∉ skip) :
    MirrorsPiece skip path (Dump.beginField name body) (Dump.beginField name body') := by
  intro first w here
  have shown : ¬ w.skipped name.bytes = true := mt (here.skipped_iff name).mp kept
  have shown' : ¬ w.unskipped.skipped name.bytes = true := by simp [Writer.skipped, Writer.unskipped]
  simp only [Dump.beginField]
  rw [if_neg shown, if_neg shown', Writer.unskipped_entrySep, Writer.unskipped_key,
    mirrors _ (here.congr (by simp))]

/-- A skipped field writes nothing and leaves the writer alone. -/
theorem beginField_skipped {name : Identifier} (listed : dotted (path ++ [name]) ∈ skip)
    (first : Bool) (here : At skip path w) :
    Dump.beginField name body (first, w) = (first, w) := by
  simp only [Dump.beginField]
  rw [if_pos ((here.skipped_iff name).mpr listed)]

theorem mirrors_entryLoop {writes writes' : List (Writer → Writer)}
    (each : List.Forall₂ (Mirrors skip path) writes writes')
    (balanced : ∀ write ∈ writes, Balanced write) (first : Bool) :
    Mirrors skip path (entryLoop first writes) (entryLoop first writes') := by
  induction each generalizing first with
  | nil => exact fun _ _ => rfl
  | @cons write write' writes writes' mirrors each ih =>
      intro w here
      have separated := here.congr (Writer.place_entrySep first w)
      have written := separated.congr (balanced write List.mem_cons_self _)
      rw [entryLoop, entryLoop, Writer.unskipped_entrySep, mirrors _ separated,
        Writer.unskipped_overflowed]
      split_ifs
      · rfl
      · exact ih (fun other met => balanced other (List.mem_cons_of_mem _ met)) false _ written

theorem mirrors_nested {name : Identifier} {nested : Bool} {value value' : Writer → Writer}
    (mirrors : Mirrors skip (if nested then path ++ [name] else path) value value')
    (kept : dotted (path ++ [name]) ∉ skip) :
    MirrorsPiece skip path (beginField name (if nested then under name value else value))
      (beginField name (if nested then under name value' else value')) := by
  cases nested with
  | true => exact (Mirrors.under mirrors).beginField kept
  | false => exact Mirrors.beginField mirrors kept

theorem mirrors_repeatedField {name : Identifier} {nested : Bool}
    {elements elements' : List (Writer → Writer)}
    (each : List.Forall₂ (Mirrors skip (if nested then path ++ [name] else path)) elements elements')
    (balanced : ∀ write ∈ elements, Balanced write) (kept : dotted (path ++ [name]) ∉ skip) :
    MirrorsPiece skip path (repeatedField name nested elements)
      (repeatedField name nested elements') := by
  intro first w here
  cases each with
  | nil => rfl
  | cons mirrors each =>
      have loop := mirrors_entryLoop (.cons mirrors each) balanced true
      exact mirrors_nested (loop.group (balanced_entryLoop _ balanced true) _ _) kept first w here

theorem mirrors_mapField {name : Identifier} {nested : Bool}
    {entries entries' : List (MapKey × (Writer → Writer))}
    (each : List.Forall₂ (fun entry entry' => entry'.1 = entry.1 ∧
      Mirrors skip (if nested then path ++ [name] else path) entry.2 entry'.2) entries entries')
    (balanced : ∀ entry ∈ entries, Balanced entry.2) (kept : dotted (path ++ [name]) ∉ skip) :
    MirrorsPiece skip path (mapField name nested entries) (mapField name nested entries') := by
  have writes : List.Forall₂ (Mirrors skip (if nested then path ++ [name] else path))
      (entries.map fun entry w => entry.2 (Writer.write entry.1.text w))
      (entries'.map fun entry w => entry.2 (Writer.write entry.1.text w)) := by
    rw [List.forall₂_map_left_iff, List.forall₂_map_right_iff]
    apply each.imp
    rintro entry entry' ⟨key, mirrors⟩ w here
    have written := mirrors _ (here.congr (Writer.place_write entry.1.text w))
    rw [← Writer.unskipped_write] at written
    dsimp only
    rw [key]
    exact written
  have settled : ∀ write ∈ entries.map fun entry w => entry.2 (Writer.write entry.1.text w),
      Balanced write := by
    intro write listed w
    obtain ⟨entry, met, rfl⟩ := List.mem_map.mp listed
    exact (balanced entry met _).trans (Writer.place_write _ w)
  intro first w here
  cases each with
  | nil => rfl
  | cons =>
      have loop := mirrors_entryLoop writes settled true
      exact mirrors_nested (loop.group (balanced_entryLoop _ settled true) _ _) kept first w here

theorem mirrors_unknownEntry (hasUnknown : Bool) :
    MirrorsPiece skip path (unknownEntry hasUnknown) (unknownEntry hasUnknown) := by
  intro first w here
  cases hasUnknown with
  | true =>
      simp only [unknownEntry, if_true]
      rw [Writer.unskipped_entrySep, Writer.unskipped_write]
  | false => rfl

end Mirrors

theorem balanced_leaves {roundTripText : FloatBits → NumberText} (values : List Leaf) :
    ∀ write ∈ values.map (writeLeaf roundTripText), Balanced write := by
  intro write listed
  obtain ⟨value, -, rfl⟩ := List.mem_map.mp listed
  exact balanced_write _

theorem balanced_leafEntries {roundTripText : FloatBits → NumberText}
    (entries : List (MapKey × Leaf)) :
    ∀ entry ∈ entries.map fun entry => (entry.1, writeLeaf roundTripText entry.2),
      Balanced entry.2 := by
  intro write listed
  obtain ⟨entry, -, rfl⟩ := List.mem_map.mp listed
  exact balanced_write _

section Trees

variable (roundTripText : FloatBits → NumberText)

mutual

/-- The dump of a message keeps the path. -/
theorem rpDumpWrite_balanced : (value : Message) → Balanced (rpDumpWrite roundTripText value)
  | .mk hasUnknown members => by
      rw [rpDumpWrite]
      refine Balanced.group (fun w => ?_) _ _
      exact (dumpMembers_balanced members _).trans (balanced_unknownEntry hasUnknown (true, w))

theorem dumpMembers_balanced :
    (members : List Member) → BalancedPiece (dumpMembers roundTripText members)
  | [], _ => by rw [dumpMembers]
  | member :: members, state => by
      rw [dumpMembers]
      exact (dumpMembers_balanced members _).trans (dumpMember_balanced member state)

theorem dumpMember_balanced :
    (member : Member) → BalancedPiece (dumpMember roundTripText member)
  | .singular name accessor, state => by
      rw [dumpMember, singularField]
      cases accessor.shown with
      | none => rfl
      | some value => exact Balanced.beginField (balanced_write _) name state
  | .message _ none, state => by rw [dumpMember]; rfl
  | .message name (some value), state => by
      rw [dumpMember]
      exact ((rpDumpWrite_balanced value).under name).beginField name state
  | .repeated name values, state => by
      rw [dumpMember]
      exact balanced_repeatedField name false _ (balanced_leaves values) state
  | .repeatedMessage name values, state => by
      rw [dumpMember]
      exact balanced_repeatedField name true _ (dumpElements_balanced values) state
  | .map name entries, state => by
      rw [dumpMember]
      exact balanced_mapField name false _ (balanced_leafEntries entries) state
  | .mapMessage name entries, state => by
      rw [dumpMember]
      exact balanced_mapField name true _ (dumpEntries_balanced entries) state
  | .unset, state => by rw [dumpMember]; rfl
  | .active name value, state => by
      rw [dumpMember]
      exact Balanced.beginField (balanced_write _) name state
  | .activeMessage name value, state => by
      rw [dumpMember]
      exact ((rpDumpWrite_balanced value).under name).beginField name state

theorem dumpElements_balanced : (values : List Message) →
    ∀ write ∈ dumpElements roundTripText values, Balanced write
  | [], _, listed => by rw [dumpElements] at listed; cases listed
  | value :: values, write, listed => by
      rw [dumpElements] at listed
      rcases List.mem_cons.mp listed with rfl | later
      · exact rpDumpWrite_balanced value
      · exact dumpElements_balanced values write later

theorem dumpEntries_balanced : (entries : List (MapKey × Option Message)) →
    ∀ entry ∈ dumpEntries roundTripText entries, Balanced entry.2
  | [], _, listed => by rw [dumpEntries] at listed; cases listed
  | (key, none) :: entries, entry, listed => by
      rw [dumpEntries] at listed
      rcases List.mem_cons.mp listed with rfl | later
      · exact balanced_write _
      · exact dumpEntries_balanced entries entry later
  | (key, some value) :: entries, entry, listed => by
      rw [dumpEntries] at listed
      rcases List.mem_cons.mp listed with rfl | later
      · exact rpDumpWrite_balanced value
      · exact dumpEntries_balanced entries entry later

end

variable {roundTripText} {skip : List Text}

/-- A skipped member leaves the writer alone. -/
theorem dumpMember_skipped {path : List Identifier} {member : Member}
    (skipped : member.Skipped skip path) (first : Bool) {w : Writer} (here : At skip path w) :
    dumpMember roundTripText member (first, w) = (first, w) := by
  obtain ⟨name, named, listed⟩ := skipped
  cases member with
  | singular other accessor =>
      cases named
      rw [dumpMember, singularField]
      cases accessor.shown with
      | none => rfl
      | some value => exact beginField_skipped listed first here
  | message other value =>
      cases named
      cases value with
      | none => rw [dumpMember]; rfl
      | some value => rw [dumpMember, beginField_skipped listed first here]
  | repeated other values =>
      cases named
      rw [dumpMember, repeatedField, beginField_skipped listed first here, ite_self]
  | repeatedMessage other values =>
      cases named
      rw [dumpMember, repeatedField, beginField_skipped listed first here, ite_self]
  | map other entries =>
      cases named
      rw [dumpMember, mapField, beginField_skipped listed first here, ite_self]
  | mapMessage other entries =>
      cases named
      rw [dumpMember, mapField, beginField_skipped listed first here, ite_self]
  | unset => cases named
  | active other value =>
      cases named
      rw [dumpMember, beginField_skipped listed first here]
  | activeMessage other value =>
      cases named
      rw [dumpMember, beginField_skipped listed first here]

theorem Member.not_skipped {path : List Identifier} {member : Member} {name : Identifier}
    (kept : ¬ member.Skipped skip path) (named : member.name? = some name) :
    dotted (path ++ [name]) ∉ skip :=
  fun listed => kept ⟨name, named, listed⟩

theorem mirrors_leaves {path : List Identifier} (values : List Leaf) :
    List.Forall₂ (Mirrors skip path) (values.map (writeLeaf roundTripText))
      (values.map (writeLeaf roundTripText)) := by
  induction values with
  | nil => exact .nil
  | cons value values ih => exact .cons (mirrors_write _) ih

theorem mirrors_leafEntries {path : List Identifier} (entries : List (MapKey × Leaf)) :
    List.Forall₂ (fun entry entry' : MapKey × (Writer → Writer) => entry'.1 = entry.1 ∧
        Mirrors skip path entry.2 entry'.2)
      (entries.map fun entry => (entry.1, writeLeaf roundTripText entry.2))
      (entries.map fun entry => (entry.1, writeLeaf roundTripText entry.2)) := by
  induction entries with
  | nil => exact .nil
  | cons entry entries ih => exact .cons ⟨rfl, mirrors_write _⟩ ih

mutual

/-- The dump of a message with skip paths runs in step with the plain dump of the pruned one. -/
theorem rpDumpWrite_mirrors : (value : Message) → (path : List Identifier) →
    Mirrors skip path (rpDumpWrite roundTripText value)
      (rpDumpWrite roundTripText (value.prune skip path))
  | .mk hasUnknown members, path => by
      rw [Message.prune, rpDumpWrite, rpDumpWrite]
      refine Mirrors.group (fun w here => ?_) (fun w => ?_) _ _
      · have entered := here.congr (balanced_unknownEntry hasUnknown (true, w))
        have first := mirrors_unknownEntry hasUnknown true w here
        rw [first, dumpMembers_mirrors members path _ _ entered]
      · exact (dumpMembers_balanced roundTripText members _).trans
          (balanced_unknownEntry hasUnknown (true, w))

theorem dumpMembers_mirrors : (members : List Member) → (path : List Identifier) →
    MirrorsPiece skip path (dumpMembers roundTripText members)
      (dumpMembers roundTripText (pruneMembers skip path members))
  | [], path, first, w, here => by rw [pruneMembers, dumpMembers, dumpMembers]
  | member :: members, path, first, w, here => by
      rw [pruneMembers, dumpMembers]
      split_ifs with skipped
      · rw [dumpMember_skipped skipped first here]
        exact dumpMembers_mirrors members path first w here
      · rw [dumpMembers, dumpMember_mirrors member path skipped first w here]
        exact dumpMembers_mirrors members path _ _
          (here.congr (dumpMember_balanced roundTripText member (first, w)))

theorem dumpMember_mirrors : (member : Member) → (path : List Identifier) →
    ¬ member.Skipped skip path →
    MirrorsPiece skip path (dumpMember roundTripText member)
      (dumpMember roundTripText (member.prune skip path))
  | .singular name accessor, path, kept, first, w, here => by
      rw [Member.prune, dumpMember, singularField, singularField]
      cases accessor.shown with
      | none => rfl
      | some value => exact (mirrors_write _).beginField (Member.not_skipped kept rfl) first w here
  | .message name none, path, kept, first, w, here => by rw [Member.prune, dumpMember]; rfl
  | .message name (some value), path, kept, first, w, here => by
      rw [Member.prune, dumpMember, dumpMember]
      exact (rpDumpWrite_mirrors value (path ++ [name])).under.beginField
        (Member.not_skipped kept rfl) first w here
  | .repeated name values, path, kept, first, w, here => by
      rw [Member.prune, dumpMember]
      exact mirrors_repeatedField (mirrors_leaves values) (balanced_leaves values)
        (Member.not_skipped kept rfl) first w here
  | .repeatedMessage name values, path, kept, first, w, here => by
      rw [Member.prune, dumpMember, dumpMember]
      exact mirrors_repeatedField (dumpElements_mirrors values (path ++ [name]))
        (dumpElements_balanced roundTripText values) (Member.not_skipped kept rfl) first w here
  | .map name entries, path, kept, first, w, here => by
      rw [Member.prune, dumpMember]
      exact mirrors_mapField (mirrors_leafEntries entries) (balanced_leafEntries entries)
        (Member.not_skipped kept rfl) first w here
  | .mapMessage name entries, path, kept, first, w, here => by
      rw [Member.prune, dumpMember, dumpMember]
      exact mirrors_mapField (dumpEntries_mirrors entries (path ++ [name]))
        (dumpEntries_balanced roundTripText entries) (Member.not_skipped kept rfl) first w here
  | .unset, path, kept, first, w, here => by rw [Member.prune, dumpMember]; rfl
  | .active name value, path, kept, first, w, here => by
      rw [Member.prune, dumpMember]
      exact (mirrors_write _).beginField (Member.not_skipped kept rfl) first w here
  | .activeMessage name value, path, kept, first, w, here => by
      rw [Member.prune, dumpMember, dumpMember]
      exact (rpDumpWrite_mirrors value (path ++ [name])).under.beginField
        (Member.not_skipped kept rfl) first w here

theorem dumpElements_mirrors : (values : List Message) → (path : List Identifier) →
    List.Forall₂ (Mirrors skip path) (dumpElements roundTripText values)
      (dumpElements roundTripText (pruneElements skip path values))
  | [], path => by
      rw [pruneElements, dumpElements]
      exact .nil
  | value :: values, path => by
      rw [pruneElements, dumpElements, dumpElements]
      exact .cons (rpDumpWrite_mirrors value path) (dumpElements_mirrors values path)

theorem dumpEntries_mirrors : (entries : List (MapKey × Option Message)) →
    (path : List Identifier) →
    List.Forall₂ (fun entry entry' => entry'.1 = entry.1 ∧ Mirrors skip path entry.2 entry'.2)
      (dumpEntries roundTripText entries)
      (dumpEntries roundTripText (pruneEntries skip path entries))
  | [], path => by
      rw [pruneEntries, dumpEntries]
      exact .nil
  | (key, none) :: entries, path => by
      rw [pruneEntries, dumpEntries, dumpEntries]
      exact .cons ⟨rfl, mirrors_write _⟩ (dumpEntries_mirrors entries path)
  | (key, some value) :: entries, path => by
      rw [pruneEntries, dumpEntries, dumpEntries]
      exact .cons ⟨rfl, rpDumpWrite_mirrors value path⟩ (dumpEntries_mirrors entries path)

end

/-- A dump with skip paths ends with the writer of the plain dump of the pruned tree. -/
theorem dumped_prune (width indent : Nat) (skip : List Text) (tree : Message) :
    dumped roundTripText width indent [] (tree.prune skip []) =
      (dumped roundTripText width indent skip tree).unskipped := by
  have here : At skip [] (Writer.start width indent skip) := ⟨rfl, rfl⟩
  exact rpDumpWrite_mirrors tree [] _ here

variable (roundTripText)

/-- A dump with skip paths is the plain dump of the tree without the fields at these paths, at every
width; and each field leaves the path and its stack as it found them, whatever the writer is in the
middle of. -/
theorem dump_prune :
    (∀ (width indent : Nat) (skip : List Text) (tree : Message),
      dump roundTripText width indent skip tree =
        dump roundTripText width indent [] (tree.prune skip [])) ∧
      ∀ (member : Member) (state : Bool × Writer),
        (dumpMember roundTripText member state).2.path = state.2.path ∧
          (dumpMember roundTripText member state).2.pathStack = state.2.pathStack := by
  constructor
  · intro width indent skip tree
    rw [dump, dump, dumped_prune]
    rfl
  · intro member state
    have place := dumpMember_balanced roundTripText member state
    simp only [Writer.place, Prod.mk.injEq] at place
    exact ⟨place.1, place.2.1⟩

end Trees

end Dump
end RapidProto
