import RapidProto.Tree.Growable

/-!
# What growable arrays hold

An accumulator holds a list of cells when its count is within its capacity and the cells are its
first elements.  Growing keeps the list, taking and filling a slot appends to it, and a packed fill
appends the elements of its run.
-/

namespace RapidProto

/-- The only failure storage adds: memory ran out, in an arena that can run out. -/
def Allocator.Exhausted (allocator : Allocator) (error : DecodeError) : Prop :=
  error = .outOfMemory ∧ ¬ allocator.NeverFails

theorem Allocator.exhausted_create {allocator : Allocator} {mem : allocator.State}
    {size align : Nat} (null : allocator.create mem size align = none) :
    allocator.Exhausted .outOfMemory :=
  ⟨rfl, fun never => never.1 mem size align null⟩

theorem Allocator.exhausted_array {allocator : Allocator} {mem : allocator.State}
    {size align count : Nat} (positive : 0 < count)
    (null : allocator.allocateArray mem size align count = none) :
    allocator.Exhausted .outOfMemory :=
  ⟨rfl, fun never => never.2 mem size align count positive null⟩

/-! ## Fixed-width elements -/

/-- The leaf types whose packed runs are arrays of fixed-width images. -/
def Leaf.IsFixed (kind : Leaf) : Prop := kind.wire = .i32 ∨ kind.wire = .i64

theorem Leaf.size_of_i32 {kind : Leaf} (isFixed : kind.wire = .i32) : kind.size = 4 := by
  cases kind with
  | enum => cases isFixed
  | scalar type => cases type <;> first | rfl | cases isFixed

theorem Leaf.size_of_i64 {kind : Leaf} (isFixed : kind.wire = .i64) : kind.size = 8 := by
  cases kind with
  | enum => cases isFixed
  | scalar type => cases type <;> first | rfl | cases isFixed

theorem fixed32_cases (p : Cursor) :
    (p.length < 4 ∧ fixed32 p = .error .truncatedI32) ∨
      4 ≤ p.length ∧ ∃ value, fixed32 p = .ok (value, p.drop 4) := by
  match p with
  | [] | [_] | [_, _] | [_, _, _] => exact .inl ⟨by simp, rfl⟩
  | b0 :: b1 :: b2 :: b3 :: rest => exact .inr ⟨by simp, _, rfl⟩

theorem fixed64_cases (p : Cursor) :
    (p.length < 8 ∧ fixed64 p = .error .truncatedI64) ∨
      8 ≤ p.length ∧ ∃ value, fixed64 p = .ok (value, p.drop 8) := by
  match p with
  | [] | [_] | [_, _] | [_, _, _] | [_, _, _, _] | [_, _, _, _, _] | [_, _, _, _, _, _] |
    [_, _, _, _, _, _, _] => exact .inl ⟨by simp, rfl⟩
  | b0 :: b1 :: b2 :: b3 :: b4 :: b5 :: b6 :: b7 :: rest => exact .inr ⟨by simp, _, rfl⟩

/-- A fixed-width element is read when its bytes are there. -/
theorem Leaf.IsFixed.payload_cases {kind : Leaf} (isFixed : kind.IsFixed) (span : Nat) (p : Cursor) :
    (p.length < kind.size ∧ ∃ failure, payload span ⟨1, kind.wire⟩ p = .error failure) ∨
      kind.size ≤ p.length ∧
        ∃ value, payload span ⟨1, kind.wire⟩ p = .ok (value, p.drop kind.size) := by
  rcases isFixed with wire | wire
  · simp only [payload, wire, Leaf.size_of_i32 wire]
    rcases fixed32_cases p with ⟨short, failed⟩ | ⟨enough, value, got⟩
    · exact .inl ⟨short, _, by rw [failed, leaf]⟩
    · exact .inr ⟨enough, _, by rw [got, leaf]⟩
  · simp only [payload, wire, Leaf.size_of_i64 wire]
    rcases fixed64_cases p with ⟨short, failed⟩ | ⟨enough, value, got⟩
    · exact .inl ⟨short, _, by rw [failed, leaf]⟩
    · exact .inr ⟨enough, _, by rw [got, leaf]⟩

theorem Leaf.IsFixed.size_pos {kind : Leaf} (isFixed : kind.IsFixed) : 0 < kind.size := by
  rcases isFixed with wire | wire
  · rw [Leaf.size_of_i32 wire]; decide
  · rw [Leaf.size_of_i64 wire]; decide

/-- Packed elements are varints or of fixed width. -/
theorem Leaf.packable_wire {kind : Leaf} (packable : isPackableWire kind.wire = true) :
    kind.wire = .varint ∨ kind.IsFixed := by
  cases kind with
  | enum => exact .inl rfl
  | scalar type =>
      cases type <;> first
        | exact .inl rfl
        | exact .inr (.inl rfl)
        | exact .inr (.inr rfl)
        | cases packable

namespace Growable

/-- The accumulator's elements are `cells`, within its capacity. -/
structure Holds (acc : Growable) (cells : List Cell) : Prop where
  /-- The count is within the capacity. -/
  room : acc.n ≤ acc.cap
  /-- The stored elements. -/
  elements : acc.elements = cells

theorem holds_empty : Holds {} [] := ⟨le_rfl, rfl⟩

@[simp] theorem elements_length (acc : Growable) : acc.elements.length = acc.n := by
  simp [elements]

theorem Holds.count {acc : Growable} {cells : List Cell} (holds : acc.Holds cells) :
    acc.n = cells.length := by
  rw [← holds.elements, elements_length]

theorem elements_congr {acc other : Growable} (count : acc.n = other.n)
    (same : ∀ index < acc.n, acc.content index = other.content index) :
    acc.elements = other.elements := by
  rw [elements, elements, ← count]
  exact List.map_congr_left fun index inside => same index (List.mem_range.mp inside)

/-- The array with element `index` written. -/
def write (acc : Growable) (index : Nat) (cell : Cell) : Growable :=
  { acc with content := Function.update acc.content index cell }

@[simp] theorem write_content (acc : Growable) (index : Nat) (cell : Cell) :
    (acc.write index cell).content = Function.update acc.content index cell := rfl
@[simp] theorem write_n (acc : Growable) (index : Nat) (cell : Cell) :
    (acc.write index cell).n = acc.n := rfl
@[simp] theorem write_cap (acc : Growable) (index : Nat) (cell : Cell) :
    (acc.write index cell).cap = acc.cap := rfl

theorem store_of_lt {ε : Type} {acc : Growable} {index : Nat} (inside : index < acc.cap)
    (cell : Cell) : acc.store index cell = (.ok (acc.write index cell) : Outcome ε Growable) := by
  rw [store, if_pos inside, write]

/-- Writing behind the count and counting the element appends it. -/
theorem elements_write {acc : Growable} (cell : Cell) :
    ({ acc.write acc.n cell with n := acc.n + 1 } : Growable).elements =
      acc.elements ++ [cell] := by
  simp only [elements, write, List.range_succ, List.map_append, List.map_cons, List.map_nil,
    Function.update_self, List.append_cancel_right_eq]
  refine List.map_congr_left fun index inside => ?_
  exact Function.update_of_ne (Nat.ne_of_lt (List.mem_range.mp inside)) _ _

/-- The copy loop moves the elements it passes and touches nothing else. -/
theorem copyFrom_spec {ε : Type} (source : Growable) {left index : Nat} {acc : Growable}
    (room : index + left ≤ acc.cap) :
    ∃ content, (copyFrom source left index acc : Outcome ε Growable) = .ok { acc with content } ∧
      (∀ i, index ≤ i → i < index + left → content i = source.content i) ∧
      ∀ i < index, content i = acc.content i := by
  induction left generalizing index acc with
  | zero => exact ⟨acc.content, rfl, fun i low high => by omega, fun _ _ => rfl⟩
  | succ left ih =>
      obtain ⟨content, copied, moved, kept⟩ :=
        @ih (index + 1) (acc.write index (source.content index))
          (by rw [write_cap]; omega)
      refine ⟨content, ?_, fun i low high => ?_, fun i low => ?_⟩
      · rw [copyFrom, store_of_lt (by omega), Outcome.ok_bind, copied]
        rfl
      · rcases Nat.eq_or_lt_of_le low with rfl | later
        · rw [kept index (by omega), write_content, Function.update_self]
        · exact moved i (by omega) (by omega)
      · rw [kept i (by omega), write_content, Function.update_of_ne (by omega)]

variable {allocator : Allocator} {mem : allocator.State} {acc : Growable} {cells : List Cell}
  {size align : Nat}

/-- Every element survives a reallocation. -/
theorem reallocate_ends (holds : acc.Holds cells) {cap : Nat} (positive : 0 < cap)
    (enough : acc.n ≤ cap) :
    (acc.reallocate size align cap mem).Ends
      (fun result => result.1.Holds cells ∧ result.1.cap = cap) allocator.Exhausted := by
  rw [reallocate]
  cases grown : allocator.allocateArray mem size align cap with
  | none => exact Allocator.exhausted_array positive grown
  | some pair =>
      obtain ⟨content, copied, moved, -⟩ := @copyFrom_spec DecodeError acc _ 0
        { base := pair.1, n := acc.n, cap } (by simpa)
      simp only [copied, Outcome.ok_bind]
      refine ⟨⟨enough, ?_⟩, rfl⟩
      rw [← holds.elements]
      exact elements_congr rfl fun index inside => moved index (by omega) (by simpa using inside)

/-- Taking a slot appends an element of unknown content. -/
theorem slot_ends (holds : acc.Holds cells) :
    (acc.slot size align mem).Ends (fun result => ∃ last, result.1.Holds (cells ++ [last]))
      allocator.Exhausted := by
  have counted : ∀ {grown : Growable}, grown.Holds cells → grown.n < grown.cap →
      ∃ last, Holds { grown with n := grown.n + 1 } (cells ++ [last]) := by
    intro grown holds' room
    refine ⟨grown.content grown.n, ⟨room, ?_⟩⟩
    simp only [elements, List.range_succ, List.map_append, List.map_cons, List.map_nil,
      ← holds'.elements]
  rw [slot]
  split
  · rename_i full
    have positive : 0 < if acc.cap = 0 then 4 else acc.cap * 2 := by split <;> omega
    have enough : acc.n < if acc.cap = 0 then 4 else acc.cap * 2 := by split <;> omega
    refine (reallocate_ends holds positive enough.le).bind fun result grown => ?_
    refine counted grown.1 ?_
    rw [grown.2, grown.1.count, ← holds.count]
    exact enough
  · rename_i room
    exact counted holds (Nat.lt_of_le_of_ne holds.room room)

/-- Filling the slot taken last. -/
theorem fillSlot_spec {ε : Type} {last : Cell} (holds : acc.Holds (cells ++ [last])) (cell : Cell) :
    ∃ filled, (acc.fillSlot cell : Outcome ε Growable) = .ok filled ∧
      filled.Holds (cells ++ [cell]) := by
  have count := holds.count
  rw [List.length_append, List.length_singleton] at count
  have room := holds.room
  refine ⟨_, store_of_lt (by omega) cell, ⟨room, ?_⟩⟩
  have before := holds.elements
  rw [elements, count, List.range_succ, List.map_append] at before
  obtain ⟨kept, -⟩ := List.append_inj before (by simp)
  have written := @elements_write { acc with n := acc.n - 1 } cell
  simp only [write, elements] at written
  rw [elements, write]
  have counted : acc.n - 1 + 1 = acc.n := by omega
  have short : acc.n - 1 = cells.length := by omega
  rw [counted] at written
  simp only []
  rw [written, short, kept]

/-- Reserving makes room and keeps the elements. -/
theorem reserve_ends (holds : acc.Holds cells) (count : Nat) :
    (acc.reserve size align count mem).Ends
      (fun result => result.1.Holds cells ∧ acc.n + count ≤ result.1.cap) allocator.Exhausted := by
  rw [reserve]
  split
  · rename_i needed
    refine (reallocate_ends holds (by omega) (by omega)).mono (fun result grown => ?_)
      fun _ excused => excused
    exact ⟨grown.1, grown.2.ge⟩
  · have room := holds.room
    exact ⟨holds, by simp only []; omega⟩

/-! ## Packed fills -/

/-- The array sink stores the elements of the run behind the current count. -/
theorem plainFrom_refines {ε : Type} {kind : Leaf} (isVarint : kind.wire = .varint)
    {span turns n : Nat} {fill : Fill (Outcome ε Growable)} {buffer : Growable} {q : Cursor}
    (enough : q.length ≤ turns) (out : fill.out = .ok buffer) (base : buffer.n = n)
    (holds : Holds { buffer with n := n + fill.n } cells)
    (room : n + fill.n + q.length ≤ buffer.cap) :
    Outcome.Refines
      (fun final values => ∃ filled, final.out = .ok filled ∧ filled.n = n ∧
        Holds { filled with n := n + final.n } (cells ++ values.map Cell.scalar))
      (fun _ => False)
      ((plainFrom (putVarint kind n) span fill q).mapError PackedFail.failure)
      (.ofExcept (packedFrom kind span turns q)) := by
  induction turns generalizing fill buffer q cells with
  | zero =>
      obtain rfl : q = [] := List.length_eq_zero_iff.mp (by omega)
      exact ⟨[], rfl, buffer, out, base, by simpa using holds⟩
  | succ turns ih =>
      by_cases empty : q = []
      · subst empty
        rw [packedFrom_nil]
        exact ⟨[], rfl, buffer, out, base, by simpa using holds⟩
      have nonempty : q.length ≠ 0 := by simpa using empty
      cases read : varint q with
      | error error =>
          rw [plainFrom_fail (by omega) read, @packedFrom_error _ _ _ _ (failAt span q error)
            nonempty (by simp only [payload, isVarint, read, leaf])]
          exact .inl rfl
      | ok got =>
          have shorter := (varint_takes read).length_lt
          have next := @ih (cells ++ [.scalar (kind.ofVarint got.1)])
            (fill.put (putVarint kind n) got.1)
            (buffer.write (n + fill.n) (.scalar (kind.ofVarint got.1))) got.2 (by omega)
            (by rw [Fill.put, putVarint, out, Outcome.ok_bind, store_of_lt (by omega)])
            base
            ⟨by simp only [Fill.put, write_cap]; omega, by
              rw [← holds.elements, ← elements_write]
              rfl⟩
            (by simp only [Fill.put, write_cap]; omega)
          rw [plainFrom_put read, @packedFrom_cons _ _ _ _ got.2
            (.varint got.1) (by simp only [payload, isVarint, read, leaf])]
          refine next.mapRight _ fun final values => ?_
          rintro ⟨filled, stored, count, holds'⟩
          exact ⟨filled, stored, count, by simpa [Leaf.convert] using holds'⟩

/-- A packed varint run appends its elements. -/
theorem fillVarints_refines {kind : Leaf} (isVarint : kind.wire = .varint)
    (holds : acc.Holds cells) (run : List Byte) :
    Outcome.Refines
      (fun result values => result.1.Holds (cells ++ values.map Cell.scalar))
      allocator.Exhausted (acc.fillVarints kind run mem)
      ((Outcome.ofExcept (packedValues kind run)).mapError fun failure =>
        .wire failure.within) := by
  have kernel : ∀ (put : Outcome DecodeError Growable → Nat → BitVec 64 →
      Outcome DecodeError Growable) (out : Outcome DecodeError Growable),
      (if kPackedKernelMinSpan ≤ run.length then decodePackedVarints put run.length run out
        else decodePackedVarintsSmall put run out) = plainFrom put run.length ⟨0, out⟩ run := by
    intro put out
    split
    · exact decodePackedVarints_eq_plainFrom run out
    · rfl
  rw [fillVarints]
  have reserved := @reserve_ends _ mem _ _ kind.size kind.align holds
    run.length
  cases grown : acc.reserve kind.size kind.align run.length mem with
  | outside => rw [grown] at reserved; exact reserved.elim
  | spin => rw [grown] at reserved; exact reserved.elim
  | fail error => rw [grown] at reserved; exact .inr reserved
  | ok pair =>
      rw [grown] at reserved
      obtain ⟨buffer, mem'⟩ := pair
      obtain ⟨kept, room⟩ := reserved
      simp only [Outcome.ok_bind, kernel]
      have filled := @plainFrom_refines _ DecodeError _ isVarint run.length
        _ _ ⟨0, .ok buffer⟩ _ run le_rfl rfl rfl kept
        (by rw [Nat.add_zero, kept.count, ← holds.count]; exact room)
      have reported := @Outcome.Refines.mapError _ _ _ _ _ _ allocator.Exhausted _ _ filled
        (fun failure => DecodeError.wire failure.within) fun _ impossible => impossible.elim
      rw [Outcome.mapError_mapError] at reported
      rw [← Outcome.bind_ok (Outcome.mapError _ (Outcome.ofExcept (packedValues kind run)))]
      refine reported.bind fun final values => ?_
      rintro ⟨stored, out, count, holds'⟩
      simp only [out, Outcome.ok_bind]
      refine Outcome.refines_ok ⟨le_rfl, ?_⟩
      rw [← holds'.elements, count]
      rfl

/-- A run of whole elements is the list of their images. -/
theorem packedFrom_image {kind : Leaf} (isFixed : kind.IsFixed) {span turns count : Nat}
    {p : Cursor} (enough : p.length ≤ turns) (whole : p.length = count * kind.size) :
    packedFrom kind span turns p = .ok (imageOf kind count p) ∧
      (imageOf kind count p).length = count := by
  have positive := isFixed.size_pos
  induction count generalizing turns p with
  | zero =>
      obtain rfl : p = [] := List.length_eq_zero_iff.mp (by simpa using whole)
      exact ⟨by simp [imageOf], rfl⟩
  | succ count ih =>
      rw [Nat.succ_mul] at whole
      obtain ⟨turns, rfl⟩ : ∃ t, turns = t + 1 := ⟨turns - 1, by omega⟩
      rcases isFixed.payload_cases span p with ⟨short, -⟩ | ⟨-, value, got⟩
      · omega
      obtain ⟨rest, count'⟩ := @ih turns (p.drop kind.size)
        (by rw [List.length_drop]; omega) (by rw [List.length_drop]; omega)
      have image : imageOf kind (count + 1) p =
          kind.convert value :: imageOf kind count (p.drop kind.size) := by
        rw [imageOf, payload_span got]
      refine ⟨?_, by rw [image, List.length_cons, count']⟩
      rw [packedFrom, if_neg (by omega), got]
      simp only [rest, image]

theorem storeAll_spec {ε : Type} {buffer : Growable} {values : List Value} {index : Nat}
    (holds : Holds { buffer with n := index } cells)
    (room : index + values.length ≤ buffer.cap) :
    ∃ content, (storeAll index values buffer : Outcome ε Growable) = .ok { buffer with content } ∧
      Holds { buffer with content, n := index + values.length }
        (cells ++ values.map Cell.scalar) := by
  induction values generalizing index buffer cells with
  | nil => exact ⟨buffer.content, rfl, by simpa using holds⟩
  | cons value values ih =>
      rw [List.length_cons] at room
      obtain ⟨content, stored, holds'⟩ := @ih (cells ++ [.scalar value])
        (buffer.write index (.scalar value)) (index + 1)
        ⟨by simp only [write_cap]; omega, by rw [← holds.elements, ← elements_write]; rfl⟩
        (by rw [write_cap]; omega)
      refine ⟨content, ?_, ?_⟩
      · rw [storeAll, store_of_lt (by omega), Outcome.ok_bind, stored]
        rfl
      · have count : index + (value :: values).length = index + 1 + values.length := by
          rw [List.length_cons]
          omega
        rw [count, List.map_cons, List.append_cons]
        exact holds'

theorem fixedTurn_consuming (kind : Leaf) (span : Nat) : Consuming (fixedTurn kind span) := by
  intro buffer p buffer' p' taken
  rw [fixedTurn] at taken
  split at taken
  · obtain ⟨pair, read, taken⟩ := Outcome.bind_eq_ok.mp taken
    obtain ⟨stored, -, taken⟩ := Outcome.bind_eq_ok.mp taken
    cases taken
    rw [readValue_eq] at read
    cases got : payload span ⟨1, kind.wire⟩ p with
    | error failure => rw [got] at read; cases read
    | ok found => rw [got] at read; cases read; exact payload_length_lt got
  · cases taken

/-- The element-wise loop appends the elements of the run. -/
theorem runLoop_fixedTurn_refines {kind : Leaf} (isFixed : kind.IsFixed) {span turns : Nat}
    {buffer : Growable} {p : Cursor} (enough : p.length ≤ turns) (holds : buffer.Holds cells)
    (room : buffer.n + p.length / kind.size ≤ buffer.cap) :
    Outcome.Refines (fun final values => final.Holds (cells ++ values.map Cell.scalar))
      allocator.Exhausted (runLoop (fixedTurn kind span) buffer p)
      ((Outcome.ofExcept (packedFrom kind span turns p)).mapError fun failure =>
        .wire failure.within) := by
  induction turns generalizing buffer p cells with
  | zero =>
      obtain rfl : p = [] := List.length_eq_zero_iff.mp (by omega)
      exact ⟨[], rfl, by simpa using holds⟩
  | succ turns ih =>
      rw [runLoop_eq (fixedTurn_consuming kind span), fixedTurn]
      by_cases empty : p = []
      · subst empty
        rw [packedFrom_nil]
        exact ⟨[], rfl, by simpa using holds⟩
      have nonempty : p.length ≠ 0 := by simpa using empty
      rw [if_pos (by omega), readValue_eq]
      rcases isFixed.payload_cases span p with ⟨-, failure, failed⟩ | ⟨whole, value, got⟩
      · rw [failed, packedFrom_error nonempty failed]
        exact .inl rfl
      · have positive := isFixed.size_pos
        rw [Nat.div_eq_sub_div positive whole] at room
        generalize left : (p.length - kind.size) / kind.size = later at room
        rw [got, packedFrom_cons got]
        simp only [Outcome.ofExcept_ok, Outcome.mapError_ok, Outcome.ok_bind]
        rw [store_of_lt (by omega), Outcome.ok_bind]
        have next := @ih _ { buffer.write buffer.n (.scalar (kind.convert value)) with
            n := buffer.n + 1 } (p.drop kind.size)
          (by rw [List.length_drop]; omega)
          ⟨by simp only [write_cap]; omega, by rw [elements_write, holds.elements]⟩
          (by simp only [write_cap, List.length_drop, left]; omega)
        rw [Outcome.mapError_bind]
        refine next.mapRight _ fun final values holds' => ?_
        simpa using holds'

/-- A packed fixed-width run appends its elements, on either kind of host. -/
theorem fillFixed_refines {kind : Leaf} (isFixed : kind.IsFixed) (littleEndian : Bool)
    (holds : acc.Holds cells) (run : List Byte) :
    Outcome.Refines
      (fun result values => result.1.1.Holds (cells ++ values.map Cell.scalar))
      allocator.Exhausted (acc.fillFixed littleEndian kind run mem)
      ((Outcome.ofExcept (packedValues kind run)).mapError fun failure =>
        .wire failure.within) := by
  rw [fillFixed]
  have reserved := @reserve_ends _ mem _ _ kind.size kind.align holds
    (run.length / kind.size)
  cases grown : acc.reserve kind.size kind.align (run.length / kind.size) mem with
  | outside => rw [grown] at reserved; exact reserved.elim
  | spin => rw [grown] at reserved; exact reserved.elim
  | fail error => rw [grown] at reserved; exact .inr reserved
  | ok pair =>
      rw [grown] at reserved
      obtain ⟨buffer, mem'⟩ := pair
      obtain ⟨kept, room⟩ := reserved
      rw [holds.count, ← kept.count] at room
      simp only [Outcome.ok_bind]
      split
      · rename_i whole
        have exact : run.length = run.length / kind.size * kind.size := by
          have := Nat.div_add_mod run.length kind.size
          rw [whole.2, Nat.mul_comm] at this
          exact this.symm
        obtain ⟨image, count⟩ := packedFrom_image isFixed le_rfl exact
        obtain ⟨content, stored, holds'⟩ := storeAll_spec (ε := DecodeError)
          kept (by rw [count]; exact room)
        rw [stored, packedValues, image]
        exact ⟨_, rfl, by rw [count] at holds'; exact holds'⟩
      · rw [← Outcome.bind_ok (Outcome.mapError _ (Outcome.ofExcept (packedValues kind run)))]
        refine (runLoop_fixedTurn_refines isFixed le_rfl kept room).bind fun final values holds' =>
          Outcome.refines_ok holds'

end Growable
end RapidProto
