import RapidProto.Wire.Grammar

/-!
# Framed records

An input of the format is a sequence of frames: the bytes of a tag, then the bytes of a value.  The
same frames with every tag in its shortest form are again an input of the format, and the record
walk does not tell the two apart.
-/

namespace RapidProto

/-! ## Minimal varints -/

/-- The shortest varint of a number, in at most `turns + 1` bytes. -/
def minimalVarintFrom : (turns : Nat) → Nat → List Byte
  | 0, value => [BitVec.ofNat 8 value]
  | turns + 1, value =>
    if value < 128 then [BitVec.ofNat 8 value]
    else BitVec.ofNat 8 (value % 128 + 128) :: minimalVarintFrom turns (value / 128)

/-- The shortest varint of a 64-bit number. -/
def minimalVarint (value : Nat) : List Byte := minimalVarintFrom 9 value

/-- The shortest encoding of a tag. -/
def minimalTag (tag : Tag) : List Byte := minimalVarint (rawTag tag.fieldNumber tag.wireType)

theorem isVarint_single {value : Nat} (small : value < 128) :
    isVarint [BitVec.ofNat 8 value] = true ∧ varintValue [BitVec.ofNat 8 value] = value := by
  simp only [isVarint, varintValue, BitVec.toNat_ofNat, decide_eq_true_eq]
  omega

/-- The shortest varint is a varint of its number. -/
theorem minimalVarintFrom_spells {turns value : Nat} (fits : value < 128 ^ (turns + 1)) :
    isVarint (minimalVarintFrom turns value) = true ∧
      varintValue (minimalVarintFrom turns value) = value ∧
      (minimalVarintFrom turns value).length ≤ turns + 1 := by
  induction turns generalizing value with
  | zero =>
      obtain ⟨ends, spells⟩ := @isVarint_single value (by simpa using fits)
      exact ⟨ends, spells, le_rfl⟩
  | succ turns ih =>
      rw [minimalVarintFrom]
      by_cases small : value < 128
      · rw [if_pos small]
        obtain ⟨ends, spells⟩ := isVarint_single small
        exact ⟨ends, spells, by simp⟩
      · rw [if_neg small]
        have fewer : value / 128 < 128 ^ (turns + 1) :=
          (Nat.div_lt_iff_lt_mul (by decide)).mpr (by simpa only [Nat.pow_succ] using fits)
        obtain ⟨ends, spells, short⟩ := ih fewer
        have continues : terminates (BitVec.ofNat 8 (value % 128 + 128)) = false := by
          rw [← Bool.not_eq_true, terminates_iff, BitVec.toNat_ofNat]
          omega
        refine ⟨isVarint_cons.mpr (.inr ⟨continues, ends⟩), ?_, by simpa using short⟩
        rw [varintValue, spells, BitVec.toNat_ofNat]
        omega

/-- No varint of the same number is shorter. -/
theorem minimalVarintFrom_length_le {turns : Nat} {bytes : List Byte}
    (ends : isVarint bytes = true) :
    (minimalVarintFrom turns (varintValue bytes)).length ≤ bytes.length := by
  induction turns generalizing bytes with
  | zero => exact List.length_pos_iff.mpr (isVarint_ne_nil ends)
  | succ turns ih =>
      rw [minimalVarintFrom]
      by_cases small : varintValue bytes < 128
      · rw [if_pos small]
        exact List.length_pos_iff.mpr (isVarint_ne_nil ends)
      · rw [if_neg small]
        cases bytes with
        | nil => cases ends
        | cons b rest =>
            rw [varintValue] at small ⊢
            rcases isVarint_cons.mp ends with ⟨-, rfl⟩ | ⟨-, inner⟩
            · simp only [varintValue] at small
              omega
            · have above : (b.toNat % 128 + 128 * varintValue rest) / 128 = varintValue rest := by
                omega
              rw [above]
              simpa using ih inner

/-- Varints of the same length and number are the same bytes. -/
theorem varint_unique {bytes other : List Byte} (ends : isVarint bytes = true)
    (ends' : isVarint other = true) (length : bytes.length = other.length)
    (same : varintValue bytes = varintValue other) : bytes = other := by
  induction bytes generalizing other with
  | nil => cases ends
  | cons b rest ih =>
      cases other with
      | nil => cases length
      | cons b' rest' =>
          simp only [varintValue] at same
          have lengths : rest.length = rest'.length := by simpa using length
          have low : b.toNat % 128 = b'.toNat % 128 := by omega
          have inside := b.isLt
          have inside' := b'.isLt
          have last := @terminates_iff b
          have last' := @terminates_iff b'
          rcases isVarint_cons.mp ends with ⟨stop, rfl⟩ | ⟨goOn, inner⟩
          · obtain rfl : rest' = [] := List.length_eq_zero_iff.mp lengths.symm
            rcases isVarint_cons.mp ends' with ⟨stop', -⟩ | ⟨-, absent⟩
            · rw [BitVec.eq_of_toNat_eq (show b.toNat = b'.toNat by
                have := last.mp stop
                have := last'.mp stop'
                omega)]
            · cases absent
          · rcases isVarint_cons.mp ends' with ⟨-, rfl⟩ | ⟨goOn', inner'⟩
            · exact absurd (List.length_eq_zero_iff.mp lengths) (isVarint_ne_nil inner)
            · rw [ih inner inner' lengths (by omega), BitVec.eq_of_toNat_eq
                (show b.toNat = b'.toNat by
                  have := mt last.mpr (by simp [goOn])
                  have := mt last'.mpr (by simp [goOn'])
                  omega)]

/-- A number of 64 bits has a shortest varint. -/
theorem minimalVarint_encodes {value : Nat} (fits : value < 2 ^ 64) :
    EncodesVarint value (minimalVarint value) := by
  obtain ⟨ends, spells, short⟩ := @minimalVarintFrom_spells 9 value (by
    exact fits.trans (by decide))
  exact ⟨ends, short, spells, fits⟩

/-- The shortest varint is the only one of its length. -/
theorem eq_minimalVarint_iff {value : Nat} {bytes : List Byte}
    (encodes : EncodesVarint value bytes) :
    bytes = minimalVarint value ↔
      ∀ other, EncodesVarint value other → bytes.length ≤ other.length := by
  have minimal := minimalVarint_encodes encodes.fits
  constructor
  · rintro rfl other encodes'
    have shorter := @minimalVarintFrom_length_le 9 other encodes'.ends
    rwa [encodes'.spells] at shorter
  · intro shortest
    have shorter := @minimalVarintFrom_length_le 9 bytes encodes.ends
    rw [encodes.spells] at shorter
    exact varint_unique encodes.ends minimal.ends
      (le_antisymm (shortest _ minimal) shorter) (encodes.spells.trans minimal.spells.symm)

theorem minimalTag_encodes {tag : Tag} {mark : List Byte} (encodes : EncodesTag tag mark) :
    EncodesTag tag (minimalTag tag) :=
  ⟨encodes.positive, encodes.range, minimalVarint_encodes encodes.spells.fits⟩

/-- A tag is in its shortest form when no encoding of it is shorter. -/
theorem eq_minimalTag_iff {tag : Tag} {mark : List Byte} (encodes : EncodesTag tag mark) :
    mark = minimalTag tag ↔ ∀ other, EncodesTag tag other → mark.length ≤ other.length := by
  rw [minimalTag, eq_minimalVarint_iff encodes.spells]
  exact ⟨fun shortest other spelled => shortest other spelled.spells,
    fun shortest other spelled => shortest other ⟨encodes.positive, encodes.range, spelled⟩⟩

/-! ## Frames -/

/-- A record of an input, with the bytes of its tag and those of its value.  The value of a
length-delimited record starts with its length, that of a group ends with its closing tag. -/
structure Framed where
  /-- The record. -/
  record : Record
  /-- The bytes of the tag. -/
  mark : List Byte
  /-- The bytes behind the tag. -/
  raw : List Byte
  /-- The tag is one of the record. -/
  opens : EncodesTag record.tag mark
  /-- The value is the record's. -/
  value : EncodesValue (EncodesInner kMaxGroupDepth) record raw

namespace Framed

/-- All bytes of the record. -/
def bytes (framed : Framed) : List Byte := framed.mark ++ framed.raw

/-- The tag is in its shortest form. -/
def Minimal (framed : Framed) : Prop :=
  ∀ other, EncodesTag framed.record.tag other → framed.mark.length ≤ other.length

/-- The record behind the shortest form of its tag. -/
def minimize (framed : Framed) : Framed :=
  { framed with
    mark := minimalTag framed.record.tag
    opens := minimalTag_encodes framed.opens }

theorem minimal_iff {framed : Framed} :
    framed.Minimal ↔ framed.mark = minimalTag framed.record.tag :=
  (eq_minimalTag_iff framed.opens).symm

end Framed

/-- The input made of some frames. -/
def joined (frames : List Framed) : List Byte := frames.flatMap Framed.bytes

theorem joined_cons (framed : Framed) (frames : List Framed) :
    joined (framed :: frames) = framed.mark ++ (framed.raw ++ joined frames) := by
  rw [joined, List.flatMap_cons, Framed.bytes, List.append_assoc, joined]

/-- Frames make an input of the format. -/
theorem joined_encodes (frames : List Framed) :
    Encodes kMaxGroupDepth (frames.map Framed.record) (joined frames) := by
  rw [encodes_eq]
  induction frames with
  | nil => exact .nil
  | cons framed frames ih =>
      rw [joined_cons]
      exact .cons framed.opens framed.value ih

/-- The walk over an input hands over the records of its frames, read or skipped. -/
theorem walk_joined (wanted : Nat → Bool) (frames : List Framed) :
    walk wanted (joined frames) = .ok (yields wanted 0 (frames.map Framed.record)) :=
  walk_encoded wanted (joined_encodes frames)

/-- Two ways to start an input with the same tag take the same bytes. -/
theorem mark_unique {tag : Tag} {mark mark' rest rest' : List Byte} (encodes : EncodesTag tag mark)
    (encodes' : EncodesTag tag mark') (same : mark ++ rest = mark' ++ rest') :
    mark = mark' ∧ rest = rest' := by
  have read := tag_iff.mpr ⟨mark, encodes, @rfl _ (mark ++ rest)⟩
  rw [same, tag_iff.mpr ⟨mark', encodes', @rfl _ (mark' ++ rest')⟩] at read
  obtain rfl : rest' = rest := by simpa using read
  exact ⟨List.append_cancel_right same, rfl⟩

/-- The shortest form of an input is the input itself exactly when all of its tags are minimal. -/
theorem joined_minimize_eq_iff (frames : List Framed) :
    joined (frames.map Framed.minimize) = joined frames ↔
      ∀ framed ∈ frames, framed.Minimal := by
  induction frames with
  | nil => simp [joined]
  | cons framed frames ih =>
      rw [List.map_cons, joined_cons, joined_cons, List.forall_mem_cons, ← ih, Framed.minimal_iff]
      constructor
      · intro same
        obtain ⟨mark, rest⟩ := mark_unique framed.minimize.opens framed.opens same
        exact ⟨mark.symm, List.append_cancel_left rest⟩
      · rintro ⟨mark, later⟩
        rw [later, mark]
        rfl

/-- A clean walk has met a sequence of frames. -/
theorem items_framed {span : Nat} {p : Cursor}
    (clean : ∀ item ∈ items span p, item.isRecord = true) :
    ∃ frames : List Framed, p = joined frames ∧
      List.Forall₂ (fun item framed => ∃ value, item = .record framed.record.tag value framed.raw)
        (items span p) frames := by
  induction p using items_induct with
  | step p ih =>
      rw [items_eq] at clean ⊢
      cases read : tagOrEnd p with
      | error error => simp [read, Item.isRecord] at clean
      | ok found =>
          cases found with
          | none =>
              obtain rfl := tagOrEnd_none read
              exact ⟨[], rfl, .nil⟩
          | some found =>
              obtain ⟨found, q⟩ := found
              simp only [read] at clean ⊢
              cases got : payload span found q with
              | error failure => simp [got, Item.isRecord] at clean
              | ok pair =>
                  obtain ⟨value, rest⟩ := pair
                  simp only [got, List.mem_cons, forall_eq_or_imp] at clean ⊢
                  obtain ⟨frames, rfl, each⟩ :=
                    ih found q value rest read (payload_span got _) clean.2
                  obtain ⟨mark, opens, rfl⟩ := tagOrEnd_iff.mp read
                  have skipped : skipValue span found q = .ok (joined frames) := by
                    rw [skipValue_eq, got]
                    rfl
                  obtain ⟨record, raw, rfl, encodes, rfl⟩ := skipValue_iff.mp skipped
                  refine ⟨⟨record, mark, raw, opens, encodes⟩ :: frames,
                    by rw [joined_cons], .cons ⟨value, ?_⟩ each⟩
                  rw [List.length_append, Nat.add_sub_cancel, List.take_left]

end RapidProto
