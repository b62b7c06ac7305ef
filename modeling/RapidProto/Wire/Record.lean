import RapidProto.Wire.Format

/-!
# Records

The value after a tag, the group walk, and the record sequence of a span.  Skipping a value and
reading it consume the same bytes, so the sequence of records of a span is fixed by the span alone
and every decoder can be described as a fold over it.
-/

namespace RapidProto

/-! ## The group walk -/

/-- A group scan takes a body and then the mark that closes it, whatever the surrounding span. -/
def ScanExact (scan : Nat → Nat → Nat → Cursor → Outcome WireFail (Cursor × Cursor)) : Prop :=
  ∀ ⦃span fieldNumber depth p closing rest⦄,
    scan span fieldNumber depth p = .ok (closing, rest) →
    ∃ body mark, mark ≠ [] ∧ p = body ++ (mark ++ rest) ∧ closing = mark ++ rest ∧
      ∀ span' tail, scan span' fieldNumber depth (body ++ (mark ++ tail)) =
        .ok (mark ++ tail, tail)

variable {scan : Nat → Nat → Nat → Cursor → Outcome WireFail (Cursor × Cursor)}

theorem located_eq_ok {α : Type} {span : Nat} {p : Cursor} {read : Outcome WireError α}
    {value : α} : located span p read = .ok value ↔ read = .ok value := by
  cases read <;> simp [located, Outcome.mapError]

theorem located_eq_fail {α : Type} {span : Nat} {p : Cursor} {read : Outcome WireError α}
    {failure : WireFail} (failed : located span p read = .fail failure) :
    ∃ error, failure = failAt span p error := by
  cases read with
  | fail error => exact ⟨error, by simpa [located, Outcome.mapError] using failed.symm⟩
  | ok _ | outside | spin => simp [located, Outcome.mapError] at failed

/-- Drop the value of a leaf reader, keeping the cursor. -/
theorem skipLeaf_takes {α : Type} {read : Cursor → Outcome WireError (α × Cursor)}
    {value : Cursor → Except WireError (α × Cursor)} (reads : ∀ p, read p = .ofExcept (value p))
    (takes : ∀ {p v rest}, value p = .ok (v, rest) → Takes value p v rest) {span : Nat}
    {p rest : Cursor} (skipped : Prod.snd <$> located span p (read p) = .ok rest) :
    ∃ taken, taken ≠ [] ∧ p = taken ++ rest ∧
      ∀ span' tail, Prod.snd <$> located span' (taken ++ tail) (read (taken ++ tail)) =
        .ok tail := by
  rw [Outcome.map_eq, Outcome.bind_eq_ok] at skipped
  obtain ⟨⟨v, rest'⟩, read', restIs⟩ := skipped
  obtain rfl : rest' = rest := by simpa using restIs
  rw [located_eq_ok, reads] at read'
  have valueIs : value p = .ok (v, rest') := by
    cases got : value p with
    | error error => simp [got] at read'
    | ok got' => simpa [got] using read'
  obtain ⟨taken, nonempty, split, again⟩ := takes valueIs
  refine ⟨taken, nonempty, split, fun span' tail => ?_⟩
  rw [reads, again]
  rfl

theorem skipValueWith_takes (exact : ScanExact scan) {span depth : Nat} {tag : Tag}
    {p rest : Cursor} (skipped : skipValueWith (scan span) span tag depth p = .ok rest) :
    ∃ taken, taken ≠ [] ∧ p = taken ++ rest ∧
      ∀ span' tail, skipValueWith (scan span') span' tag depth (taken ++ tail) = .ok tail := by
  obtain ⟨fieldNumber, wire⟩ := tag
  cases wire with
  | varint => exact skipLeaf_takes readVarint_eq varint_takes skipped
  | i64 => exact skipLeaf_takes readFixed64_eq fixed64_takes skipped
  | i32 => exact skipLeaf_takes readFixed32_eq fixed32_takes skipped
  | len => exact skipLeaf_takes readLengthDelimited_eq lengthDelimited_takes skipped
  | sgroup =>
      simp only [skipValueWith, Outcome.map_eq, Outcome.bind_eq_ok] at skipped
      obtain ⟨⟨closing, rest'⟩, scanned, restIs⟩ := skipped
      obtain rfl : rest' = rest := by simpa using restIs
      obtain ⟨body, mark, nonempty, split, -, again⟩ := exact scanned
      refine ⟨body ++ mark, by simp [nonempty], by simp [split], fun span' tail => ?_⟩
      simp [skipValueWith, again]
  | egroup => cases skipped

/-- Inversion of a successful turn of the group walk. -/
theorem scanGroupTurn_ok {span fieldNumber depth : Nat} {p : Cursor}
    {decision : Turn Byte Unit (Cursor × Cursor)}
    (taken : scanGroupTurn (scan span) span fieldNumber depth () p = .ok decision) :
    ∃ found q, tag p = .ok (found, q) ∧
      ((found = ⟨fieldNumber, .egroup⟩ ∧ decision = .stop (p, q)) ∨
        (found.wireType ≠ .egroup ∧ ∃ r,
          skipValueWith (scan span) span found depth q = .ok r ∧ decision = .next () r)) := by
  simp only [scanGroupTurn] at taken
  split at taken
  · cases taken
  rw [Outcome.bind_eq_ok] at taken
  obtain ⟨⟨found, q⟩, readTag', decided⟩ := taken
  rw [located_eq_ok, readTag_eq] at readTag'
  refine ⟨found, q, ?_, ?_⟩
  · cases got : tag p with
    | error error => simp [got] at readTag'
    | ok got' => simpa [got] using readTag'
  · simp only at decided
    split at decided
    · rename_i closes
      split at decided
      · cases decided
      · rename_i same
        left
        refine ⟨?_, by simpa using decided.symm⟩
        rw [not_not] at same
        rw [← same, ← closes]
    · rename_i opens
      right
      rw [Outcome.bind_eq_ok] at decided
      obtain ⟨r, skipped, decisionIs⟩ := decided
      exact ⟨opens, r, skipped, by simpa using decisionIs.symm⟩

theorem scanGroupTurn_consuming (exact : ScanExact scan) (span fieldNumber depth : Nat) :
    Consuming (scanGroupTurn (scan span) span fieldNumber depth) := by
  intro _ p _ r taken
  obtain ⟨found, q, readTag', stops | ⟨-, r', skipped, decisionIs⟩⟩ := scanGroupTurn_ok taken
  · cases stops.2
  · cases decisionIs
    have tagShorter := (tag_takes readTag').length_lt
    obtain ⟨taken', -, rfl, -⟩ := skipValueWith_takes exact skipped
    rw [List.length_append] at tagShorter
    omega

/-- The closing tag replayed with another tail. -/
theorem scanGroupTurn_closing {span fieldNumber depth : Nat} {p q : Cursor}
    (closes : tag p = .ok (⟨fieldNumber, .egroup⟩, q)) :
    scanGroupTurn (scan span) span fieldNumber depth () p = .ok (.stop (p, q)) := by
  cases p with
  | nil => cases closes
  | cons b p => simp [scanGroupTurn, readTag_eq, closes, located]

/-- An inner record replayed with another tail. -/
theorem scanGroupTurn_inner {span fieldNumber depth : Nat} {p q r : Cursor} {found : Tag}
    (read : tag p = .ok (found, q)) (opens : found.wireType ≠ .egroup)
    (skipped : skipValueWith (scan span) span found depth q = .ok r) :
    scanGroupTurn (scan span) span fieldNumber depth () p = .ok (.next () r) := by
  cases p with
  | nil => cases read
  | cons b p => simp [scanGroupTurn, readTag_eq, read, located, opens, skipped]

theorem scanGroupLoop_exact (exact : ScanExact scan) {span fieldNumber depth : Nat}
    {p closing rest : Cursor}
    (scanned : runLoop (scanGroupTurn (scan span) span fieldNumber depth) () p =
      .ok (closing, rest)) :
    ∃ body mark, mark ≠ [] ∧ p = body ++ (mark ++ rest) ∧ closing = mark ++ rest ∧
      ∀ span' tail,
        runLoop (scanGroupTurn (scan span') span' fieldNumber depth) () (body ++ (mark ++ tail)) =
          .ok (mark ++ tail, tail) := by
  have consuming := fun span' => scanGroupTurn_consuming exact span' fieldNumber depth
  generalize unit : () = state at scanned
  induction state, p using runLoop_induct (consuming span) with
  | step state p ih =>
      rw [runLoop_eq (consuming span)] at scanned
      cases taken : scanGroupTurn (scan span) span fieldNumber depth state p with
      | fail error => rw [taken] at scanned; cases scanned
      | outside => rw [taken] at scanned; cases scanned
      | spin => rw [taken] at scanned; cases scanned
      | ok decision =>
          obtain ⟨found, q, readTag', ⟨rfl, rfl⟩ | ⟨opens, r, skipped, rfl⟩⟩ :=
            scanGroupTurn_ok taken
          · rw [taken] at scanned
            cases scanned
            obtain ⟨mark, nonempty, split, again⟩ := tag_takes readTag'
            refine ⟨[], mark, nonempty, split, split, fun span' tail => ?_⟩
            rw [List.nil_append, runLoop_eq (consuming span'), scanGroupTurn_closing (again tail)]
          · rw [taken] at scanned
            obtain ⟨body, mark, nonempty, rfl, closingIs, again⟩ := ih () r taken rfl scanned
            obtain ⟨tagBytes, -, rfl, tagAgain⟩ := tag_takes readTag'
            obtain ⟨valueBytes, -, rfl, valueAgain⟩ := skipValueWith_takes exact skipped
            refine ⟨tagBytes ++ (valueBytes ++ body), mark, nonempty, by simp, closingIs,
              fun span' tail => ?_⟩
            rw [List.append_assoc, List.append_assoc, runLoop_eq (consuming span'),
              scanGroupTurn_inner (tagAgain _) opens (valueAgain span' _)]
            exact again span' tail

theorem scanGroupEnd_exact (frames : Nat) : ScanExact fun span => scanGroupEnd span frames := by
  induction frames with
  | zero => intro span fieldNumber depth p closing rest scanned; cases scanned
  | succ frames ih =>
      intro span fieldNumber depth p closing rest scanned
      simp only [scanGroupEnd] at scanned ⊢
      split at scanned
      · cases scanned
      · rename_i shallow
        simp only [if_neg shallow]
        exact scanGroupLoop_exact ih scanned

theorem skipLeaf_safe {α : Type} {read : Cursor → Outcome WireError (α × Cursor)}
    {value : Cursor → Except WireError (α × Cursor)} (reads : ∀ p, read p = .ofExcept (value p))
    (span : Nat) (p : Cursor) : (Prod.snd <$> located span p (read p)).Safe := by
  rw [reads]
  cases value p with
  | ok got => exact Outcome.safe_ok _
  | error error => exact Outcome.safe_fail _

/-- The group walk stays inside its span and its recursion stops one level past the cap. -/
theorem scanGroupEnd_safe (span : Nat) (frames depth : Nat) (fieldNumber : Nat) (p : Cursor)
    (capped : depth ≤ kMaxGroupDepth + 1) (enough : kMaxGroupDepth + 1 < frames + depth) :
    (scanGroupEnd span frames fieldNumber depth p).Safe := by
  induction frames generalizing depth fieldNumber p with
  | zero => omega
  | succ frames ih =>
      rw [scanGroupEnd]
      split
      · exact Outcome.safe_fail _
      · rename_i shallow
        refine runLoop_safe (scanGroupTurn_consuming (scanGroupEnd_exact frames) _ _ _)
          (fun _ q => ?_) () p
        rw [scanGroupTurn]
        split
        · exact Outcome.safe_fail _
        rw [readTag_eq]
        cases tag q with
        | error error => exact Outcome.safe_fail _
        | ok read =>
            obtain ⟨found, r⟩ := read
            simp only [located, Outcome.ofExcept_ok, Outcome.mapError_ok, Outcome.ok_bind]
            split
            · split
              · exact Outcome.safe_fail _
              · exact Outcome.safe_ok _
            have skipSafe : (skipValueWith (scanGroupEnd span frames) span found depth r).Safe := by
              obtain ⟨number, wire⟩ := found
              cases wire with
              | varint => exact skipLeaf_safe readVarint_eq span r
              | i64 => exact skipLeaf_safe readFixed64_eq span r
              | i32 => exact skipLeaf_safe readFixed32_eq span r
              | len => exact skipLeaf_safe readLengthDelimited_eq span r
              | egroup => exact Outcome.safe_fail _
              | sgroup =>
                  have inner := ih (depth + 1) number r (by omega) (by omega)
                  simp only [skipValueWith, Outcome.map_eq]
                  cases scanned : scanGroupEnd span frames number (depth + 1) r with
                  | ok got => exact Outcome.safe_ok _
                  | fail failure => exact Outcome.safe_fail _
                  | outside => exact absurd scanned inner.1
                  | spin => exact absurd scanned inner.2
            cases skipped : skipValueWith (scanGroupEnd span frames) span found depth r with
            | ok rest => exact Outcome.safe_ok _
            | fail failure => exact Outcome.safe_fail _
            | outside => exact absurd skipped skipSafe.1
            | spin => exact absurd skipped skipSafe.2

theorem located_add {α : Type} (span count : Nat) (p : Cursor) (read : Outcome WireError α) :
    located (span + count) p read = (located span p read).mapError (WireFail.shift count) := by
  cases read with
  | fail error => simp [located, failAt_add]
  | ok _ | outside | spin => rfl

theorem skipValueWith_add {narrow wide : Nat → Nat → Cursor → Outcome WireFail (Cursor × Cursor)}
    {count : Nat}
    (moved : ∀ fieldNumber depth p,
      wide fieldNumber depth p = (narrow fieldNumber depth p).mapError (WireFail.shift count))
    (span : Nat) (tag : Tag) (depth : Nat) (p : Cursor) :
    skipValueWith wide (span + count) tag depth p =
      (skipValueWith narrow span tag depth p).mapError (WireFail.shift count) := by
  obtain ⟨number, wire⟩ := tag
  cases wire with
  | varint | i64 | i32 | len =>
      simp only [skipValueWith, Outcome.map_eq, located_add, Outcome.mapError_bind,
        Outcome.mapError_ok]
  | sgroup =>
      simp only [skipValueWith, Outcome.map_eq, moved, Outcome.mapError_bind, Outcome.mapError_ok]
  | egroup => simp only [skipValueWith, failAt_add, Outcome.mapError_fail]

/-- The group walk reports the same failure whatever precedes its buffer. -/
theorem scanGroupEnd_add (span count frames fieldNumber depth : Nat) (p : Cursor) :
    scanGroupEnd (span + count) frames fieldNumber depth p =
      (scanGroupEnd span frames fieldNumber depth p).mapError (WireFail.shift count) := by
  induction frames generalizing fieldNumber depth p with
  | zero => rfl
  | succ frames ih =>
      rw [scanGroupEnd, scanGroupEnd]
      split
      · simp [failAt_add]
      · rw [← runLoop_mapError]
        congr 1
        funext state q
        rw [scanGroupTurn, scanGroupTurn]
        split
        · simp [failAt_add]
        · rw [located_add, Outcome.mapError_bind]
          congr 1
          funext read
          obtain ⟨found, r⟩ := read
          simp only
          split
          · split
            · simp [failAt_add]
            · rfl
          · rw [skipValueWith_add ih, Outcome.mapError_bind]
            rfl

/-- A failure located in a body of the given length. -/
def WireFail.InBody (span : Nat) (failure : WireFail) : Prop :=
  failure.Within ∧ failure.span = span ∧ failure.inner = false

theorem failAt_inBody {span : Nat} {p : Cursor} (inside : p.length ≤ span) (error : WireError) :
    (failAt span p error).InBody span :=
  ⟨failAt_within inside error, rfl, rfl⟩

theorem skipLeaf_inBody {α : Type} {read : Outcome WireError (α × Cursor)} {span : Nat}
    {p : Cursor} {failure : WireFail} (inside : p.length ≤ span)
    (failed : Prod.snd <$> located span p read = .fail failure) : failure.InBody span := by
  cases got : located span p read with
  | fail failure' =>
      obtain ⟨error, rfl⟩ := located_eq_fail got
      rw [got] at failed
      cases failed
      exact failAt_inBody inside error
  | ok _ | outside | spin => rw [got] at failed; cases failed

theorem skipValueWith_inBody
    {scanned : Nat → Nat → Cursor → Outcome WireFail (Cursor × Cursor)} {span depth : Nat}
    (inner : ∀ fieldNumber p failure, p.length ≤ span →
      scanned fieldNumber (depth + 1) p = .fail failure → failure.InBody span)
    {tag : Tag} {p : Cursor} {failure : WireFail} (inside : p.length ≤ span)
    (failed : skipValueWith scanned span tag depth p = .fail failure) : failure.InBody span := by
  obtain ⟨number, wire⟩ := tag
  cases wire with
  | varint | i64 | i32 | len => exact skipLeaf_inBody inside failed
  | sgroup =>
      simp only [skipValueWith, Outcome.map_eq] at failed
      cases got : scanned number (depth + 1) p with
      | fail failure' =>
          rw [got] at failed
          cases failed
          exact inner number p failure inside got
      | ok _ | outside | spin => rw [got] at failed; cases failed
  | egroup => cases failed; exact failAt_inBody inside _

theorem scanGroupEnd_inBody {span frames fieldNumber depth : Nat} {p : Cursor}
    {failure : WireFail} (inside : p.length ≤ span)
    (failed : scanGroupEnd span frames fieldNumber depth p = .fail failure) :
    failure.InBody span := by
  induction frames generalizing fieldNumber depth p failure with
  | zero => cases failed
  | succ frames ih =>
      rw [scanGroupEnd] at failed
      split at failed
      · cases failed
        exact failAt_inBody inside _
      have exact := scanGroupEnd_exact frames
      have consuming := scanGroupTurn_consuming exact span fieldNumber depth
      generalize unit : () = state at failed
      induction state, p using runLoop_induct consuming with
      | step state p loop =>
          rw [runLoop_eq consuming] at failed
          cases taken : scanGroupTurn (scanGroupEnd span frames) span fieldNumber depth state p with
          | ok decision =>
              rw [taken] at failed
              cases decision with
              | stop result => cases failed
              | next state' q =>
                  have shorter := consuming taken
                  exact loop state' q taken (by omega) rfl failed
          | outside => rw [taken] at failed; cases failed
          | spin => rw [taken] at failed; cases failed
          | fail failure' =>
              rw [taken] at failed
              cases failed
              rw [scanGroupTurn] at taken
              split at taken
              · cases taken
                exact failAt_inBody inside _
              rw [readTag_eq] at taken
              cases read : tag p with
              | error error =>
                  rw [read] at taken
                  cases taken
                  exact failAt_inBody inside _
              | ok got =>
                  obtain ⟨found, q⟩ := got
                  have shorter := (tag_takes read).length_lt
                  simp only [read, located, Outcome.ofExcept_ok, Outcome.mapError_ok,
                    Outcome.ok_bind] at taken
                  split at taken
                  · split at taken
                    · cases taken
                      exact failAt_inBody inside _
                    · cases taken
                  · cases skipped : skipValueWith (scanGroupEnd span frames) span found depth q with
                    | fail failure' =>
                        rw [skipped] at taken
                        cases taken
                        exact skipValueWith_inBody (fun number r failure' inside' failed' =>
                          ih inside' failed') (by omega) skipped
                    | ok _ | outside | spin => rw [skipped] at taken; cases taken

/-! ## Values -/

/-- The value of one record. -/
inductive Payload where
  | varint (value : BitVec 64)
  | i64 (value : BitVec 64)
  | len (bytes : List Byte)
  | group (body : List Byte)
  | i32 (value : BitVec 32)
  deriving DecidableEq

/-- A group body and the cursor past its closing tag. -/
def groupBody (span fieldNumber : Nat) (p : Cursor) : Except WireFail (List Byte × Cursor) :=
  (readGroup span fieldNumber p).toExcept (failAt span p .groupTooDeep)

/-- Locate the failure of a leaf reader and wrap its value. -/
def leaf {α : Type} (span : Nat) (p : Cursor) (wrap : α → Payload)
    (read : Except WireError (α × Cursor)) : Except WireFail (Payload × Cursor) :=
  match read with
  | .ok (value, rest) => .ok (wrap value, rest)
  | .error error => .error (failAt span p error)

/-- The value after a tag. -/
def payload (span : Nat) (tag : Tag) (p : Cursor) : Except WireFail (Payload × Cursor) :=
  match tag.wireType with
  | .varint => leaf span p .varint (varint p)
  | .i64 => leaf span p .i64 (fixed64 p)
  | .i32 => leaf span p .i32 (fixed32 p)
  | .len => leaf span p .len (lengthDelimited p)
  | .sgroup =>
    match groupBody span tag.fieldNumber p with
    | .ok (body, rest) => .ok (.group body, rest)
    | .error failure => .error failure
  | .egroup => .error (failAt span p .unexpectedEndGroup)

theorem readGroup_safe (span fieldNumber : Nat) (p : Cursor) :
    (readGroup span fieldNumber p).Safe := by
  have scanSafe := scanGroupEnd_safe span kGroupFrames 1 fieldNumber p
    (by decide) (by decide)
  rw [readGroup]
  cases scanned : scanGroupEnd span kGroupFrames fieldNumber 1 p with
  | ok found =>
      obtain ⟨closing, rest⟩ := found
      simp only [Outcome.ok_bind, byteView]
      rw [if_pos (Nat.sub_le _ _)]
      exact Outcome.safe_ok _
  | fail failure => exact Outcome.safe_fail _
  | outside => exact absurd scanned scanSafe.1
  | spin => exact absurd scanned scanSafe.2

theorem readGroup_eq (span fieldNumber : Nat) (p : Cursor) :
    readGroup span fieldNumber p = .ofExcept (groupBody span fieldNumber p) :=
  (Outcome.ofExcept_toExcept (readGroup_safe span fieldNumber p) _).symm

/-- Reading a group body and skipping the group walk the same bytes. -/
theorem scanGroupEnd_eq_groupBody (span fieldNumber : Nat) (p : Cursor) :
    Prod.snd <$> scanGroupEnd span kGroupFrames fieldNumber 1 p =
      .ofExcept (Prod.snd <$> groupBody span fieldNumber p) := by
  have scanSafe := scanGroupEnd_safe span kGroupFrames 1 fieldNumber p
    (by decide) (by decide)
  rw [groupBody, readGroup]
  cases scanned : scanGroupEnd span kGroupFrames fieldNumber 1 p with
  | ok found =>
      obtain ⟨closing, rest⟩ := found
      simp only [Outcome.ok_bind, Outcome.map_eq, byteView]
      rw [if_pos (Nat.sub_le _ _)]
      rfl
  | fail failure => rfl
  | outside => exact absurd scanned scanSafe.1
  | spin => exact absurd scanned scanSafe.2

theorem skipLeaf_eq {α : Type} (span : Nat) (p : Cursor) (wrap : α → Payload)
    (read : Except WireError (α × Cursor)) :
    Prod.snd <$> located span p (.ofExcept read) =
      .ofExcept (Prod.snd <$> leaf span p wrap read) := by
  cases read <;> rfl

/-- Skipping a value consumes the bytes that reading it consumes, and fails as reading it does. -/
theorem skipValue_eq (span : Nat) (tag : Tag) (p : Cursor) :
    skipValue span tag p = .ofExcept (Prod.snd <$> payload span tag p) := by
  obtain ⟨number, wire⟩ := tag
  cases wire with
  | varint =>
      simp only [skipValue, skipValueWith, readVarint_eq]
      exact skipLeaf_eq span p _ _
  | i64 =>
      simp only [skipValue, skipValueWith, readFixed64_eq]
      exact skipLeaf_eq span p _ _
  | i32 =>
      simp only [skipValue, skipValueWith, readFixed32_eq]
      exact skipLeaf_eq span p _ _
  | len =>
      simp only [skipValue, skipValueWith, readLengthDelimited_eq]
      exact skipLeaf_eq span p _ _
  | sgroup =>
      have same := scanGroupEnd_eq_groupBody span number p
      simp only [skipValue, skipValueWith, payload]
      rw [same]
      cases groupBody span number p <;> rfl
  | egroup => rfl

namespace Payload

/-- The wire type of a value. -/
def wire : Payload → WireType
  | varint _ => .varint
  | i64 _ => .i64
  | len _ => .len
  | group _ => .sgroup
  | i32 _ => .i32

/-- The bytes of a length-delimited value or of a group. -/
def bytes : Payload → List Byte
  | len bytes => bytes
  | group body => body
  | varint _ | i64 _ | i32 _ => []

end Payload

/-- The value after a tag, by the reader its wire type calls for. -/
def readValue (span : Nat) (tag : Tag) (p : Cursor) : Outcome WireFail (Payload × Cursor) :=
  match tag.wireType with
  | .varint => Prod.map .varint id <$> located span p (readVarint p)
  | .i64 => Prod.map .i64 id <$> located span p (readFixed64 p)
  | .i32 => Prod.map .i32 id <$> located span p (readFixed32 p)
  | .len => Prod.map .len id <$> located span p (readLengthDelimited p)
  | .sgroup => Prod.map .group id <$> readGroup span tag.fieldNumber p
  | .egroup => .fail (failAt span p .unexpectedEndGroup)

theorem readLeaf_eq {α : Type} (span : Nat) (p : Cursor) (wrap : α → Payload)
    (read : Except WireError (α × Cursor)) :
    Prod.map wrap id <$> located span p (.ofExcept read) = .ofExcept (leaf span p wrap read) := by
  cases read <;> rfl

theorem readValue_eq (span : Nat) (tag : Tag) (p : Cursor) :
    readValue span tag p = .ofExcept (payload span tag p) := by
  obtain ⟨number, wire⟩ := tag
  cases wire with
  | varint =>
      simp only [readValue, readVarint_eq]
      exact readLeaf_eq span p _ _
  | i64 =>
      simp only [readValue, readFixed64_eq]
      exact readLeaf_eq span p _ _
  | i32 =>
      simp only [readValue, readFixed32_eq]
      exact readLeaf_eq span p _ _
  | len =>
      simp only [readValue, readLengthDelimited_eq]
      exact readLeaf_eq span p _ _
  | sgroup =>
      simp only [readValue, readGroup_eq, payload]
      cases groupBody span number p <;> rfl
  | egroup => rfl

theorem leaf_takes {α : Type} {read : Cursor → Except WireError (α × Cursor)}
    {wrap : α → Payload} (takes : ∀ {p v rest}, read p = .ok (v, rest) → Takes read p v rest)
    {span : Nat} {p rest : Cursor} {value : Payload}
    (got : leaf span p wrap (read p) = .ok (value, rest)) :
    ∃ taken, taken ≠ [] ∧ p = taken ++ rest ∧
      ∀ span' tail, leaf span' (taken ++ tail) wrap (read (taken ++ tail)) = .ok (value, tail) := by
  cases readP : read p with
  | error error => simp [leaf, readP] at got
  | ok pair =>
      obtain ⟨v, rest'⟩ := pair
      simp only [leaf, readP, Except.ok.injEq, Prod.mk.injEq] at got
      obtain ⟨rfl, rfl⟩ := got
      obtain ⟨taken, nonempty, split, again⟩ := takes readP
      exact ⟨taken, nonempty, split, fun span' tail => by simp [leaf, again]⟩

theorem groupBody_takes {span fieldNumber : Nat} {p rest : Cursor} {body : List Byte}
    (got : groupBody span fieldNumber p = .ok (body, rest)) :
    ∃ mark, mark ≠ [] ∧ p = body ++ (mark ++ rest) ∧
      ∀ span' tail, groupBody span' fieldNumber (body ++ (mark ++ tail)) = .ok (body, tail) := by
  have read : readGroup span fieldNumber p = .ok (body, rest) := by rw [readGroup_eq, got]; rfl
  rw [readGroup, Outcome.bind_eq_ok] at read
  obtain ⟨⟨closing, rest'⟩, scanned, viewed⟩ := read
  obtain ⟨body', mark, nonempty, rfl, rfl, again⟩ := scanGroupEnd_exact kGroupFrames scanned
  have taken : ∀ tail : Cursor,
      (body' ++ (mark ++ tail)).take ((body' ++ (mark ++ tail)).length - (mark ++ tail).length) =
        body' := by
    intro tail
    simp
  simp only [byteView, Nat.sub_le, if_true, Outcome.ok_bind, Outcome.ok.injEq, Prod.mk.injEq,
    taken] at viewed
  obtain ⟨rfl, rfl⟩ := viewed
  refine ⟨mark, nonempty, rfl, fun span' tail => ?_⟩
  simp only [groupBody, readGroup, again span' tail, Outcome.ok_bind, byteView, Nat.sub_le,
    if_true, taken, Outcome.toExcept]

/-- A value takes a nonempty prefix which fixes it, whatever follows and whatever the span. -/
theorem payload_takes {span : Nat} {tag : Tag} {p rest : Cursor} {value : Payload}
    (got : payload span tag p = .ok (value, rest)) :
    ∃ taken, taken ≠ [] ∧ p = taken ++ rest ∧
      ∀ span' tail, payload span' tag (taken ++ tail) = .ok (value, tail) := by
  obtain ⟨number, wire⟩ := tag
  cases wire with
  | varint => exact leaf_takes varint_takes got
  | i64 => exact leaf_takes fixed64_takes got
  | i32 => exact leaf_takes fixed32_takes got
  | len => exact leaf_takes lengthDelimited_takes got
  | sgroup =>
      simp only [payload] at got
      split at got
      · rename_i body rest' read
        cases got
        obtain ⟨mark, nonempty, rfl, again⟩ := groupBody_takes read
        refine ⟨body ++ mark, by simp [nonempty], by simp, fun span' tail => ?_⟩
        rw [List.append_assoc]
        simp only [payload, again span' tail]
      · cases got
  | egroup => cases got

theorem payload_length_lt {span : Nat} {tag : Tag} {p rest : Cursor} {value : Payload}
    (got : payload span tag p = .ok (value, rest)) : rest.length < p.length := by
  obtain ⟨taken, nonempty, rfl, -⟩ := payload_takes got
  have := List.length_pos_of_ne_nil nonempty
  rw [List.length_append]
  omega

theorem payload_add (span count : Nat) (tag : Tag) (p : Cursor) :
    payload (span + count) tag p = (payload span tag p).mapError (WireFail.shift count) := by
  have leafMoved : ∀ {α : Type} (wrap : α → Payload) (read : Except WireError (α × Cursor)),
      leaf (span + count) p wrap read =
        (leaf span p wrap read).mapError (WireFail.shift count) := by
    intro α wrap read
    cases read with
    | ok got => rfl
    | error error => simp [leaf, failAt_add, Except.mapError]
  obtain ⟨number, wire⟩ := tag
  cases wire with
  | varint | i64 | i32 | len => exact leafMoved _ _
  | sgroup =>
      simp only [payload, groupBody, readGroup, scanGroupEnd_add]
      have scanSafe := scanGroupEnd_safe span kGroupFrames 1 number p
        (by decide) (by decide)
      cases scanned : scanGroupEnd span kGroupFrames number 1 p with
      | ok found => simp [byteView, Outcome.toExcept, Except.mapError]
      | fail failure => rfl
      | outside => exact absurd scanned scanSafe.1
      | spin => exact absurd scanned scanSafe.2
  | egroup => simp [payload, failAt_add, Except.mapError]

theorem payload_inBody {span : Nat} {tag : Tag} {p : Cursor} {failure : WireFail}
    (inside : p.length ≤ span) (failed : payload span tag p = .error failure) :
    failure.InBody span := by
  have skipped : skipValue span tag p = .fail failure := by
    rw [skipValue_eq, failed]
    rfl
  exact skipValueWith_inBody (fun _ _ _ inside' failed' => scanGroupEnd_inBody inside' failed')
    inside skipped

/-! ## The record sequence of a span -/

/-- One step of the record walk: a record, or the failure that ends the walk. -/
inductive Item where
  /-- The next tag is malformed. -/
  | badTag (failure : WireFail)
  /-- The tag is read but its value is malformed. -/
  | badValue (tag : Tag) (failure : WireFail)
  /-- A complete record, with the bytes of its value. -/
  | record (tag : Tag) (value : Payload) (raw : List Byte)

/-- The items met in at most `turns` steps. -/
def itemsFrom (span : Nat) : (turns : Nat) → Cursor → List Item
  | 0, _ => []
  | turns + 1, p =>
    match tagOrEnd p with
    | .error error => [.badTag (failAt span p error)]
    | .ok none => []
    | .ok (some (found, q)) =>
      match payload span found q with
      | .error failure => [.badValue found failure]
      | .ok (value, rest) =>
        .record found value (q.take (q.length - rest.length)) :: itemsFrom span turns rest

/-- The record walk of `p`, inside a span of length `span`. -/
def items (span : Nat) (p : Cursor) : List Item := itemsFrom span (p.length + 1) p

theorem tagOrEnd_length_lt {p q : Cursor} {found : Tag}
    (read : tagOrEnd p = .ok (some (found, q))) : q.length < p.length := by
  cases p with
  | nil => cases read
  | cons b p =>
      simp only [tagOrEnd] at read
      cases got : tag (b :: p) with
      | error error => rw [got] at read; cases read
      | ok pair =>
          rw [got] at read
          cases read
          exact (tag_takes got).length_lt

theorem itemsFrom_eq {span left right : Nat} {p : Cursor} (leftEnough : p.length < left)
    (rightEnough : p.length < right) : itemsFrom span left p = itemsFrom span right p := by
  induction left generalizing right p with
  | zero => omega
  | succ left ih =>
      obtain ⟨right, rfl⟩ : ∃ r, right = r + 1 := ⟨right - 1, by omega⟩
      simp only [itemsFrom]
      split
      · rfl
      · rfl
      · rename_i found q read
        have tagShorter := tagOrEnd_length_lt read
        split
        · rfl
        · rename_i value rest got
          have valueShorter := payload_length_lt got
          rw [@ih right _ (by omega) (by omega)]

theorem items_eq (span : Nat) (p : Cursor) :
    items span p =
      match tagOrEnd p with
      | .error error => [.badTag (failAt span p error)]
      | .ok none => []
      | .ok (some (found, q)) =>
        match payload span found q with
        | .error failure => [.badValue found failure]
        | .ok (value, rest) =>
          .record found value (q.take (q.length - rest.length)) :: items span rest := by
  rw [items, itemsFrom]
  split
  · rfl
  · rfl
  · rename_i found q read
    have tagShorter := tagOrEnd_length_lt read
    split
    · rfl
    · rename_i value rest got
      have valueShorter := payload_length_lt got
      rw [items, itemsFrom_eq (by omega) (Nat.lt_succ_self _)]

/-- Induction along the record walk. -/
theorem items_induct {motive : Cursor → Prop}
    (step : ∀ p, (∀ found q value rest, tagOrEnd p = .ok (some (found, q)) →
      payload p.length found q = .ok (value, rest) → motive rest) → motive p)
    (p : Cursor) : motive p := by
  induction size : p.length using Nat.strongRecOn generalizing p with
  | ind size ih =>
      refine step p fun found q value rest read got => ?_
      have tagShorter := tagOrEnd_length_lt read
      have valueShorter := payload_length_lt got
      exact ih rest.length (by omega) rest rfl

/-- A successfully read value does not depend on the span it is read in. -/
theorem payload_span {span : Nat} {tag : Tag} {p rest : Cursor} {value : Payload}
    (got : payload span tag p = .ok (value, rest)) (span' : Nat) :
    payload span' tag p = .ok (value, rest) := by
  obtain ⟨taken, -, rfl, again⟩ := payload_takes got
  exact again span' rest

namespace Item

/-- The item is a complete record. -/
def isRecord : Item → Bool
  | record _ _ _ => true
  | badTag _ | badValue _ _ => false

/-- The same item met behind `count` more bytes. -/
def shift (count : Nat) : Item → Item
  | badTag failure => badTag (failure.shift count)
  | badValue tag failure => badValue tag (failure.shift count)
  | record tag value raw => record tag value raw

theorem shift_record {item : Item} (whole : item.isRecord = true) (count : Nat) :
    item.shift count = item := by
  cases item with
  | badTag failure => cases whole
  | badValue tag failure => cases whole
  | record tag value raw => rfl

/-- The reported position of a failure lies in the body being walked. -/
def InBody (span : Nat) : Item → Prop
  | badTag failure => failure.InBody span
  | badValue _ failure => failure.InBody span
  | record _ _ _ => True

end Item

theorem items_add (span count : Nat) (p : Cursor) :
    items (span + count) p = (items span p).map (Item.shift count) := by
  induction p using items_induct with
  | step p ih =>
      rw [items_eq, items_eq span]
      split
      · simp [Item.shift, failAt_add]
      · rfl
      · rename_i found q read
        rw [payload_add]
        cases got : payload span found q with
        | error failure => rfl
        | ok pair =>
            obtain ⟨value, rest⟩ := pair
            simp only [Except.mapError, List.map_cons, Item.shift]
            rw [ih found q value rest read (payload_span got _)]

theorem items_inBody {span : Nat} {p : Cursor} (inside : p.length ≤ span) {item : Item}
    (met : item ∈ items span p) : item.InBody span := by
  induction p using items_induct with
  | step p ih =>
      rw [items_eq] at met
      split at met
      · rw [List.mem_singleton.mp met]
        exact failAt_inBody inside _
      · cases met
      · rename_i found q read
        have tagShorter := tagOrEnd_length_lt read
        split at met
        · rename_i failure failed
          rw [List.mem_singleton.mp met]
          exact payload_inBody (by omega) failed
        · rename_i value rest got
          have valueShorter := payload_length_lt got
          rcases List.mem_cons.mp met with rfl | later
          · trivial
          · exact ih found q value rest read (payload_span got _) (by omega) later

/-- A tag that is present is read the same whatever follows the buffer. -/
theorem tagOrEnd_append {p q : Cursor} {found : Tag} (read : tagOrEnd p = .ok (some (found, q)))
    (tail : Cursor) : tagOrEnd (p ++ tail) = .ok (some (found, q ++ tail)) := by
  cases p with
  | nil => cases read
  | cons b p =>
      simp only [tagOrEnd] at read
      cases got : tag (b :: p) with
      | error error => rw [got] at read; cases read
      | ok pair =>
          rw [got] at read
          cases read
          obtain ⟨taken, -, split, again⟩ := tag_takes got
          rw [split, List.append_assoc, ← List.append_assoc]
          have joined : taken ++ q ++ tail = b :: (p ++ tail) := by rw [← split]; rfl
          rw [joined, tagOrEnd, ← joined, List.append_assoc, again]
          rfl

/-- The walk of a clean span followed by another is the two walks, one after the other. -/
theorem items_append (span span' : Nat) (x y : Cursor)
    (clean : ∀ item ∈ items span x, item.isRecord = true) :
    items span' (x ++ y) = items span x ++ items span' y := by
  induction x using items_induct with
  | step x ih =>
      rw [items_eq span] at clean ⊢
      cases read : tagOrEnd x with
      | error error => simp [read, Item.isRecord] at clean
      | ok found =>
          cases found with
          | none =>
              cases x with
              | nil => rfl
              | cons b x =>
                  simp only [tagOrEnd] at read
                  cases got : tag (b :: x) <;> rw [got] at read <;> cases read
          | some found =>
              obtain ⟨found, q⟩ := found
              simp only [read] at clean ⊢
              cases got : payload span found q with
              | error failure => simp [got, Item.isRecord] at clean
              | ok pair =>
                  obtain ⟨value, rest⟩ := pair
                  simp only [got, List.mem_cons, forall_eq_or_imp] at clean ⊢
                  obtain ⟨taken, -, rfl, again⟩ := payload_takes got
                  rw [items_eq, tagOrEnd_append read]
                  simp only [List.append_assoc, again, List.cons_append]
                  rw [ih found _ value rest read (payload_span got _) clean.2]
                  simp


/-! ## What a record carries -/

theorem payload_wire {span : Nat} {tag : Tag} {p rest : Cursor} {value : Payload}
    (got : payload span tag p = .ok (value, rest)) : value.wire = tag.wireType := by
  have wrapped : ∀ {α : Type} {wrap : α → Payload} {read : Except WireError (α × Cursor)}
      {wire : WireType}, (∀ v, (wrap v).wire = wire) → leaf span p wrap read = .ok (value, rest) →
      value.wire = wire := by
    intro α wrap read wire same got
    cases read with
    | error error => simp [leaf] at got
    | ok pair =>
        simp only [leaf, Except.ok.injEq, Prod.mk.injEq] at got
        rw [← got.1]
        exact same _
  obtain ⟨number, wire⟩ := tag
  cases wire with
  | varint => exact wrapped (fun _ => rfl) got
  | i64 => exact wrapped (fun _ => rfl) got
  | i32 => exact wrapped (fun _ => rfl) got
  | len => exact wrapped (fun _ => rfl) got
  | sgroup =>
      simp only [payload] at got
      split at got
      · cases got; rfl
      · cases got
  | egroup => cases got

theorem lengthDelimited_length {p rest bytes : Cursor}
    (got : lengthDelimited p = .ok (bytes, rest)) : bytes.length + rest.length < p.length := by
  simp only [lengthDelimited] at got
  split at got
  · cases got
  · rename_i len np read
    have shorter := (varint_takes read).length_lt
    split at got
    · cases got
    · rename_i fits
      cases got
      rw [List.length_take, List.length_drop]
      omega

theorem payload_bytes_lt {span : Nat} {tag : Tag} {p rest : Cursor} {value : Payload}
    (got : payload span tag p = .ok (value, rest)) :
    value.bytes.length + rest.length < p.length := by
  have shorter := payload_length_lt got
  cases value with
  | varint _ | i64 _ | i32 _ => simpa [Payload.bytes] using shorter
  | len bytes =>
      have wire := payload_wire got
      simp only [Payload.wire] at wire
      simp only [payload, ← wire] at got
      cases read : lengthDelimited p with
      | error error => simp [read, leaf] at got
      | ok pair =>
          simp only [read, leaf, Except.ok.injEq, Prod.mk.injEq, Payload.len.injEq] at got
          obtain ⟨rfl, rfl⟩ := got
          exact lengthDelimited_length read
  | group body =>
      have wire := payload_wire got
      simp only [Payload.wire] at wire
      simp only [payload, ← wire] at got
      split at got
      · rename_i body' rest' read
        cases got
        obtain ⟨mark, nonempty, rfl, -⟩ := groupBody_takes read
        have := List.length_pos_of_ne_nil nonempty
        simp only [Payload.bytes, List.length_append]
        omega
      · cases got

/-- A record's value has the wire type of its tag and lies in the walked span. -/
def Item.Fits (limit : Nat) : Item → Prop
  | .record tag value _ => value.wire = tag.wireType ∧ value.bytes.length ≤ limit
  | .badTag _ | .badValue _ _ => True

theorem items_fits {span limit : Nat} {p : Cursor} (inside : p.length ≤ limit) {item : Item}
    (met : item ∈ items span p) : item.Fits limit := by
  induction p using items_induct with
  | step p ih =>
      rw [items_eq] at met
      split at met
      · rw [List.mem_singleton.mp met]
        trivial
      · cases met
      · rename_i found q read
        have tagShorter := tagOrEnd_length_lt read
        split at met
        · rw [List.mem_singleton.mp met]
          trivial
        · rename_i value rest got
          have bytesShorter := payload_bytes_lt got
          rcases List.mem_cons.mp met with rfl | later
          · exact ⟨payload_wire got, by omega⟩
          · exact ih found q value rest read (payload_span got _) (by omega) later

end RapidProto
