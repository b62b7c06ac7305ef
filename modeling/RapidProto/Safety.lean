import RapidProto.Stream.Decode
import RapidProto.Tree.Correctness

/-!
# Safety of both decoders

Every read of the model goes through an access that has no result outside its span, every store
through one that has none at or past the capacity, and every recursion and loop is bounded.  Both
decoders end without meeting any of these limits, on every input, and the offsets they report lie in
the body or payload they are relative to.
-/

namespace RapidProto

/-- What a decode of the input walks: the input itself, and the payloads of the records in it, which
are bodies, map entries and packed runs. -/
inductive Walked (input : List Byte) : List Byte → Prop where
  /-- The input. -/
  | input : Walked input input
  /-- The payload of a record. -/
  | payload {body : List Byte} {tag : Tag} {value : Payload} {raw : List Byte}
      (walked : Walked input body) (met : Item.record tag value raw ∈ items body.length body) :
      Walked input value.bytes

/-- The offset of a wire failure lies in the body or payload of the input that it is relative to. -/
def WireFail.LocatedIn (input : List Byte) (failure : WireFail) : Prop :=
  ∃ body, Walked input body ∧ failure.span = body.length ∧ failure.Within

theorem WireFail.InBody.locatedIn {input body : List Byte} {failure : WireFail}
    (located : failure.InBody body.length) (walked : Walked input body) :
    failure.LocatedIn input :=
  ⟨body, walked, located.2.1, located.1⟩

/-- The offset of a reported wire failure lies in the body or payload it is relative to. -/
def DecodeError.Located (input : List Byte) : DecodeError → Prop
  | .wire failure => failure.LocatedIn input
  | .outOfMemory | .recursionTooDeep | .missingRequired _ | .repeatedSingularMessage _
  | .inputTooLarge => True

/-- The offset of a wire failure of this decode lies in the body or payload it is relative to; a
status that a callback returned is passed on as it is. -/
def Stop.Located (input : List Byte) : Stop → Prop
  | .wire failure => failure.LocatedIn input
  | .callback _ => True

theorem packedFrom_inBody {kind : Leaf} {span turns : Nat} {p : Cursor} {failure : WireFail}
    (inside : p.length ≤ span) (failed : packedFrom kind span turns p = .error failure) :
    failure.InBody span := by
  induction turns generalizing p with
  | zero => cases failed
  | succ turns ih =>
      rw [packedFrom] at failed
      split at failed
      · cases failed
      split at failed
      · rename_i failure' read
        cases failed
        exact payload_inBody inside read
      · rename_i value rest got
        have shorter := payload_length_lt got
        split at failed
        · rename_i failure' later
          cases failed
          exact ih (by omega) later
        · cases failed

/-! ## The documented reading ends -/

/-- A failure of the reading itself: storage adds only the size limits. -/
def DecodeError.Documented (input : List Byte) : DecodeError → Prop
  | .wire failure => failure.LocatedIn input
  | .recursionTooDeep | .missingRequired _ | .repeatedSingularMessage _ => True
  | .outOfMemory | .inputTooLarge => False

theorem DecodeError.Documented.located {input : List Byte} {error : DecodeError}
    (documented : error.Documented input) : error.Located input := by
  cases error with
  | wire failure => exact documented
  | _ => trivial

section Reference

variable {schema : Schema} {reading : Reading} {input : List Byte}
  {sub : MessageId → List Byte → Outcome DecodeError Behaviour}

theorem entryBodies_endsWell (map : MapField) {entry : List Byte} (walked : Walked input entry)
    (ends : ∀ target body, Walked input body →
      (sub target body).Ends (fun _ => True) (DecodeError.Documented input)) :
    (entryBodies sub map).EndsWell entry.length (Walked input) (DecodeError.Documented input) where
  wire _ failure located := located.locatedIn walked
  before field entry := by
    simp only [entryBodies]
    split
    · trivial
    split
    · trivial
    · simp only []
      split <;> trivial
  after field entry value inside := by
    simp only [entryBodies]
    split
    · trivial
    split
    · trivial
    · exact (ends _ _ inside).bind fun _ _ => trivial
  packed _ _ _ _ := trivial
  unknown _ _ _ := trivial

theorem referenceBodies_endsWell (id : MessageId) {body : List Byte} (walked : Walked input body)
    (ends : ∀ target body, Walked input body →
      (sub target body).Ends (fun _ => True) (DecodeError.Documented input)) :
    (referenceBodies schema reading sub id).EndsWell body.length (Walked input)
      (DecodeError.Documented input) where
  wire _ failure located := located.locatedIn walked
  before shape progress := by
    simp only [referenceBodies]
    split
    · rename_i field found
      simp only [plainBody]
      split
      · trivial
      · simp only [Progress.rejectRepeated]
        split
        · trivial
        · split <;> trivial
    · trivial
    · rename_i oneof index field found
      simp only [choiceBody]
      split
      · trivial
      · simp only []
        split <;> trivial
    · trivial
  after shape progress value inside := by
    simp only [referenceBodies]
    split
    · rename_i field found
      simp only [plainBody]
      split
      · trivial
      · simp only []
        split
        · trivial
        · exact (ends _ _ inside).bind fun _ _ => trivial
    · rename_i map found
      exact ((entryBodies_endsWell map inside ends).foldlM
        (fun _ _ _ met => inside.payload met) _).bind fun _ _ => trivial
    · rename_i oneof index field found
      simp only [choiceBody]
      split
      · trivial
      · exact (ends _ _ inside).bind fun _ _ => trivial
    · trivial
  packed shape progress run inside := by
    simp only [referenceBodies]
    split
    · split
      · rename_i failure failed
        exact (packedFrom_inBody le_rfl failed).locatedIn inside
      · trivial
    · trivial
  unknown _ _ _ := trivial

/-- The documented reading of a body of the input ends within its recursion bound. -/
theorem meaning_ends {frames depth : Nat} (budget : frames + depth = kMaxDecodeDepth + 2)
    (entered : depth ≤ kMaxDecodeDepth + 1) (id : MessageId) {body : List Byte}
    (walked : Walked input body) :
    (meaning schema reading frames depth id body).Ends (fun _ => True)
      (DecodeError.Documented input) := by
  induction frames generalizing depth id body with
  | zero => omega
  | succ frames ih =>
      rw [meaning]
      split
      · trivial
      · have well := @referenceBodies_endsWell schema reading _ _ id _ walked
          fun target inner within => @ih (depth + 1) (by omega) (by omega) target inner within
        refine (well.foldlM (fun _ _ _ met => walked.payload met) {}).bind fun progress _ => ?_
        split <;> trivial

end Reference

/-! ## The streaming decoder ends -/

section Stream

variable {σ : Type} {callbacks : Callbacks σ} {input : List Byte} {bad : Stopped σ → Prop}

/-- What a decode may stop with: its own wire failures, and statuses of callbacks that are not ok.
-/
structure Stops (input : List Byte) (bad : Stopped σ → Prop) : Prop where
  /-- Wire failures. -/
  wire : ∀ state failure, failure.LocatedIn input → bad ⟨state, .wire failure⟩
  /-- Statuses of callbacks. -/
  callback : ∀ state status, status.ok = false → bad ⟨state, .callback status⟩

theorem stops_located : Stops input fun stopped : Stopped σ => stopped.stop.Located input :=
  ⟨fun _ _ inside => inside, fun _ _ _ => trivial⟩

/-- An early end is never reported as success. -/
theorem stops_refused : Stops input fun stopped : Stopped σ => stopped.stop.status.ok = false :=
  ⟨fun _ _ _ => by simp [Stop.status, DecodeStatus.ok], fun _ _ refused => refused⟩

theorem invoke_ends (stops : Stops input bad) (state : σ) (event : Event) :
    (callbacks.invoke state event).Ends (fun _ => True) bad := by
  simp only [Callbacks.invoke]
  split
  · trivial
  · rename_i refused
    exact stops.callback _ _ (by simpa using refused)

theorem streamEntryBodies_endsWell (map : MapField) (span : Nat) :
    (streamEntryBodies map).EndsWell span (fun _ => True)
      fun failure => (failure.Within ∧ failure.span = span) ∧ failure.inner = true where
  wire _ failure located := ⟨⟨located.1, located.2.1⟩, rfl⟩
  before field entry := by
    simp only [streamEntryBodies]
    split <;> trivial
  after field entry value _ := by
    simp only [streamEntryBodies]
    split <;> trivial
  packed _ _ _ _ := trivial
  unknown _ _ _ := trivial

theorem streamEntry_ends (stops : Stops input bad) (map : MapField) (state : σ) {entry : List Byte}
    (walked : Walked input entry) :
    (streamEntry callbacks map state entry).Ends (fun _ => True) bad := by
  simp only [streamEntry, Bodies.byRecord.plainLoop_eq]
  refine @Outcome.Ends.bind _ _ _ (fun _ => True) _ _ _ _ ?_ fun _ _ => invoke_ends stops _ _
  refine @Outcome.Ends.mapError _ _ _ _
    (fun failure => (failure.Within ∧ failure.span = entry.length) ∧ failure.inner = true) _ _ ?_ _
    fun failure reported => stops.wire state failure ⟨entry, walked, reported.1.2, reported.1.1⟩
  exact ((streamEntryBodies_endsWell map entry.length).foldlM (fun _ _ _ _ => trivial) _).bind
    fun _ _ => trivial

theorem elementTurn_ends (stops : Stops input bad) {number : Nat} {kind : Leaf} {state : σ}
    {run : List Byte} (walked : Walked input run) {p : Cursor} (inside : p.length ≤ run.length) :
    (elementTurn callbacks number kind run.length state p).Ends
      (fun
        | .stop _ => True
        | .next _ rest => rest.length < p.length)
      bad := by
  rw [elementTurn]
  split
  · rw [readValue_eq]
    cases got : payload run.length ⟨1, kind.wire⟩ p with
    | error failure => exact stops.wire state _ ((payload_inBody inside got).locatedIn walked)
    | ok pair =>
        refine (invoke_ends stops state _).bind fun _ _ => ?_
        exact payload_length_lt got
  · trivial

theorem elementTurn_consuming (number span : Nat) (kind : Leaf) :
    Consuming (elementTurn callbacks number kind span) := by
  intro state p state' p' taken
  rw [elementTurn] at taken
  split at taken
  · obtain ⟨pair, read, taken⟩ := Outcome.bind_eq_ok.mp taken
    obtain ⟨next, -, taken⟩ := Outcome.bind_eq_ok.mp taken
    cases taken
    rw [readValue_eq] at read
    cases got : payload span ⟨1, kind.wire⟩ p with
    | error failure => rw [got] at read; cases read
    | ok found => rw [got] at read; cases read; exact payload_length_lt got
  · cases taken

theorem streamPacked_ends (stops : Stops input bad) (number : Nat) (kind : Leaf) (state : σ)
    {run : List Byte} (walked : Walked input run) :
    (streamPacked callbacks number kind state run).Ends (fun _ => True) bad := by
  refine runLoop_ends (fun _ p => p.length ≤ run.length) (fun state p inside => ?_) le_rfl
  refine (elementTurn_ends stops walked inside).mono (fun turn shorter => ?_)
    fun _ reported => reported
  cases turn with
  | stop result => trivial
  | next state rest =>
      simp only at shorter
      exact ⟨shorter, by omega⟩

theorem streamBodies_endsWell (stops : Stops input bad) (message : Message) {body : List Byte}
    (walked : Walked input body) :
    (streamBodies callbacks message).EndsWell body.length (Walked input) bad where
  wire state failure located := stops.wire state failure (located.locatedIn walked)
  before _ _ := trivial
  after shape state value inside := by
    simp only [streamBodies]
    split
    · split
      · exact invoke_ends stops _ _
      · trivial
    · split
      · exact invoke_ends stops _ _
      · trivial
    · split
      · exact streamEntry_ends stops _ _ inside
      · trivial
    · trivial
  packed shape state run inside := by
    simp only [streamBodies]
    split
    · split
      · exact (streamPacked_ends stops _ _ _ inside).bind fun _ _ => trivial
      · trivial
    · trivial
  unknown tag state raw := by
    simp only [streamBodies]
    split
    · exact invoke_ends stops _ _
    · trivial

/-- The streaming decode of any input ends. -/
theorem streamDecode_ends (callbacks : Callbacks σ) (stops : Stops input bad) (schema : Schema)
    (id : MessageId) (state : σ) :
    (streamDecode schema id callbacks state input).Ends (fun _ => True) bad := by
  rw [streamDecode_eq_fold]
  exact (streamBodies_endsWell stops _ .input).foldlM (fun _ _ _ met => .payload .input met) state

end Stream

/-- The arena decode of any input ends in range. -/
theorem arenaDecode_ends (schema : Schema) (plan : Plan) (allocator : Allocator) (id : MessageId)
    (input : List Byte) (arena : allocator.State) :
    (arenaDecode schema plan allocator id input arena).Ends (fun _ => True)
      (DecodeError.Located input) := by
  by_cases large : kUint32Max < input.length
  · rw [arenaDecode, if_pos large]
    trivial
  · have refined := arenaDecode_refines schema plan id (not_lt.mp large) arena
    have budget : kDecodeFrames + 0 = kMaxDecodeDepth + 2 := rfl
    have meant := @meaning_ends schema (plan.reading schema) input _ _ budget (Nat.zero_le _) id
      input
      .input
    refine refined.ends (meant.mono (fun _ good => good) fun _ documented => documented.located)
      fun error exhausted => ?_
    rw [exhausted.1]
    trivial

/-- An arena that never runs out is never reported as exhausted. -/
theorem arenaDecode_lasting {allocator : Allocator} (never : allocator.NeverFails) (schema : Schema)
    (plan : Plan) (id : MessageId) (input : List Byte) (arena : allocator.State) :
    arenaDecode schema plan allocator id input arena ≠ .fail .outOfMemory := by
  intro failed
  by_cases large : kUint32Max < input.length
  · rw [arenaDecode, if_pos large] at failed
    cases failed
  · have refined := arenaDecode_refines schema plan id (not_lt.mp large) arena
    rw [failed] at refined
    have budget : kDecodeFrames + 0 = kMaxDecodeDepth + 2 := rfl
    have meant := @meaning_ends schema (plan.reading schema) input _ _ budget (Nat.zero_le _) id
      input
      .input
    rcases refined with same | exhausted
    · rw [same] at meant
      exact meant
    · exact exhausted.2 never

/-! ## Both decoders -/

/-- Every turn of the loop around the arms, jumps between labels included, goes to a label that
exists and consumes at least one byte. -/
def Arms.Advances {σ ε : Type} (arms : Arms σ ε) (span : Nat) : Prop :=
  ∀ (point point' : Label × σ) (p q : Cursor), arms.Exists point.1 →
    arms.threadedTurn span point p = .ok (.next point' q) →
      arms.Exists point'.1 ∧ q.length < p.length

theorem Arms.advances {σ ε : Type} (arms : Arms σ ε) (span : Nat) : arms.Advances span :=
  fun _ _ _ _ exist taken => arms.threadedTurn_lt exist taken

/-- The core guarantee.  Whatever the schema, the layout, the callbacks and the bytes, both decoders
end: no read leaves its span, no store reaches its capacity, no recursion passes its cap, and every
offset they report lies in the body or payload it is relative to.  Every turn of every wire loop
consumes input.  Message bodies are entered at depth `kMaxDecodeDepth + 1` at most and groups
scanned at depth `kMaxGroupDepth + 1` at most; there both fail before reading. -/
theorem decoders_stay_in_range (schema : Schema) :
    (∀ (plan : Plan) (allocator : Allocator) (id : MessageId) (input : List Byte)
      (arena : allocator.State),
      (arenaDecode schema plan allocator id input arena).Ends (fun _ => True)
        (DecodeError.Located input)) ∧
    (∀ (σ : Type) (callbacks : Callbacks σ) (id : MessageId) (state : σ) (input : List Byte),
      (streamDecode schema id callbacks state input).Ends (fun _ => True)
        fun stopped => stopped.stop.Located input) ∧
    (∀ (plan : Plan) (allocator : Allocator) decode (id : MessageId) (map : MapField) (span : Nat),
      ((treeBodies schema plan allocator decode id).arms span).Advances span ∧
        Consuming (((entryArms plan allocator decode id map).arms span).plainTurn span)) ∧
    (∀ (σ : Type) (callbacks : Callbacks σ) (id : MessageId) (map : MapField) (span : Nat),
      (streamArms callbacks (schema.get id) span).Advances span ∧
        Consuming (((streamEntryBodies map).arms span).plainTurn span)) ∧
    (∀ (σ : Type) (callbacks : Callbacks σ) (number : Nat) (kind : Leaf) (span : Nat),
      Consuming (Growable.fixedTurn kind span) ∧
        Consuming (elementTurn callbacks number kind span)) ∧
    (∀ span frames fieldNumber depth,
      Consuming (scanGroupTurn (scanGroupEnd span frames) span fieldNumber depth)) ∧
    (∀ (plan : Plan) (allocator : Allocator) (frames : Nat) (id : MessageId) (out : Cell)
      (body : List Byte) (arena : allocator.State),
      decodeInto schema plan allocator (frames + 1) (kMaxDecodeDepth + 1) id out body arena =
        .fail .recursionTooDeep) ∧
    (∀ span frames fieldNumber p,
      scanGroupEnd span (frames + 1) fieldNumber (kMaxGroupDepth + 1) p =
        .fail (failAt span p .groupTooDeep)) := by
  refine ⟨fun plan allocator id input arena => arenaDecode_ends schema plan allocator id input arena,
    fun σ callbacks id state input => streamDecode_ends callbacks stops_located schema id state,
    fun plan allocator decode id map span => ⟨Arms.advances _ span, Arms.plainTurn_consuming⟩,
    fun σ callbacks id map span => ⟨Arms.advances _ span, Arms.plainTurn_consuming⟩,
    fun σ callbacks number kind span => ⟨Growable.fixedTurn_consuming kind span,
      elementTurn_consuming number span kind⟩,
    fun span frames fieldNumber depth =>
      scanGroupTurn_consuming (scanGroupEnd_exact frames) span fieldNumber depth,
    fun plan allocator frames id out body arena => ?_, fun span frames fieldNumber p => ?_⟩
  · rw [decodeInto, if_pos (Nat.lt_succ_self _)]
  · rw [scanGroupEnd, if_pos (Nat.lt_succ_self _)]

end RapidProto
