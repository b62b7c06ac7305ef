import RapidProto.Safety

/-!
# Streaming a concatenation

A decode is observed through the events it hands over and the status it returns.  When the first of
two byte strings is decoded to its end, decoding the two in one piece hands over the events of the
first and then goes on exactly as a decode of the second would.
-/

namespace RapidProto

variable {σ τ : Type}

/-! ## Callbacks that differ by a renaming -/

/-- The reason of an early end, with an offset relative to the decoded body shifted.  Offsets into a
packed run or a map entry, and whatever a callback returned, stay as they are. -/
def Stop.shift (count : Nat) : Stop → Stop
  | wire failure => if failure.inner then wire failure else wire (failure.shift count)
  | callback status => callback status

/-- The error kind is kept. -/
theorem Stop.status_shift (count : Nat) (stop : Stop) :
    (stop.shift count).status.wire = stop.status.wire ∧
      (stop.shift count).status.aborted = stop.status.aborted := by
  cases stop with
  | callback status => exact ⟨rfl, rfl⟩
  | wire failure =>
      rw [Stop.shift]
      split <;> exact ⟨rfl, rfl⟩

/-- An early end with its callbacks' state renamed. -/
def Stopped.rename (change : σ → τ) (count : Nat) (stopped : Stopped σ) : Stopped τ :=
  ⟨change stopped.state, stopped.stop.shift count⟩

/-- The callbacks `right` answer as the callbacks `left` do, over renamed states. -/
structure Callbacks.Carries (left : Callbacks σ) (right : Callbacks τ) (change : σ → τ) : Prop where
  /-- The same fields have callbacks. -/
  handles : left.handles = right.handles
  /-- Both or neither handle undeclared records. -/
  handlesUnknown : left.handlesUnknown = right.handlesUnknown
  /-- The answers agree. -/
  call : ∀ state event,
    right.call (change state) event =
      (change (left.call state event).1, (left.call state event).2)

section Carries

variable {left : Callbacks σ} {right : Callbacks τ} {change : σ → τ} (count : Nat)

theorem Callbacks.Carries.invoke (carries : left.Carries right change) (state : σ)
    (event : Event) :
    right.invoke (change state) event =
      (left.invoke state event).bimap change (Stopped.rename change count) := by
  simp only [Callbacks.invoke, carries.call]
  split <;> rfl

/-- The failures of an entry are located in the entry, not in the body. -/
theorem Callbacks.Carries.streamEntry (carries : left.Carries right change) (map : MapField)
    (state : σ) (entry : List Byte) :
    streamEntry right map (change state) entry =
      (streamEntry left map state entry).bimap change (Stopped.rename change count) := by
  simp only [RapidProto.streamEntry, Bodies.byRecord.plainLoop_eq]
  have ends := (streamEntryBodies_endsWell map entry.length).foldlM (fun _ _ _ _ => trivial)
    ⟨map.key.zero, map.value.default⟩
  cases ran : (items entry.length entry).foldlM (streamEntryBodies map).step
    ⟨map.key.zero, map.value.default⟩ with
  | ok locals => exact carries.invoke count state _
  | fail failure =>
      rw [ran] at ends
      simp [Stopped.rename, Stop.shift, ends.2]
  | outside => rfl
  | spin => rfl

theorem Callbacks.Carries.elementTurn (carries : left.Carries right change) (number : Nat)
    (kind : Leaf) (span : Nat) (state : σ) (p : Cursor) :
    elementTurn right number kind span (change state) p =
      (elementTurn left number kind span state p).bimap (Turn.rename change change)
        (Stopped.rename change count) := by
  simp only [RapidProto.elementTurn, readValue_eq]
  split
  · cases payload span ⟨1, kind.wire⟩ p with
    | error failure => rfl
    | ok pair =>
        simp only [Outcome.ofExcept_ok, Outcome.mapError_ok, Outcome.ok_bind]
        rw [carries.invoke count]
        exact Outcome.bind_bimap fun next => rfl
  · rfl

theorem Callbacks.Carries.streamPacked (carries : left.Carries right change) (number : Nat)
    (kind : Leaf) (state : σ) (run : List Byte) :
    streamPacked right number kind (change state) run =
      (streamPacked left number kind state run).bimap change (Stopped.rename change count) :=
  runLoop_bimap (carries.elementTurn count number kind run.length) state run

/-- The bodies of a decode differ as their callbacks do. -/
theorem streamBodies_carries (carries : left.Carries right change) (message : Message) :
    (streamBodies left message).Carries (streamBodies right message) change
      (Stopped.rename change count) count where
  fields := rfl
  wire state failure outer := by simp [streamBodies, Stopped.rename, Stop.shift, outer]
  before shape state := rfl
  after shape state value := by
    simp only [streamBodies, carries.handles]
    split
    · split
      · exact carries.invoke count state _
      · rfl
    · split
      · exact carries.invoke count state _
      · rfl
    · split
      · exact carries.streamEntry count _ state _
      · rfl
    · rfl
  packed shape state run := by
    simp only [streamBodies, carries.handles]
    split
    · split
      · rw [carries.streamPacked count]
        exact Outcome.bind_bimap fun next => rfl
      · rfl
    · rfl
  unknownBefore state := rfl
  unknown tag state raw := by
    simp only [streamBodies, carries.handlesUnknown]
    split
    · exact carries.invoke count state _
    · rfl

end Carries

/-! ## Transcripts -/

/-- The callbacks, with a log of the events they are handed. -/
def Callbacks.logged (callbacks : Callbacks σ) : Callbacks (List Event × σ) where
  handles := callbacks.handles
  handlesUnknown := callbacks.handlesUnknown
  call := fun (events, state) event =>
    let (state, status) := callbacks.call state event
    ((events ++ [event], state), status)

/-- What a decode shows: the events it handed over, the state the callbacks are left in, and why it
ended early, if it did. -/
structure Transcript (σ : Type) where
  /-- The events, in order. -/
  events : List Event
  /-- State of the callbacks. -/
  state : σ
  /-- The reason of an early end. -/
  stop : Option Stop

/-- `DecodeStatus` as it is returned. -/
def Transcript.status (transcript : Transcript σ) : DecodeStatus :=
  (transcript.stop.map Stop.status).getD {}

/-- Observe a streaming decode. -/
def transcript (schema : Schema) (id : MessageId) (callbacks : Callbacks σ) (state : σ)
    (input : List Byte) : Option (Transcript σ) :=
  match streamDecode schema id callbacks.logged ([], state) input with
  | .ok (events, state) => some ⟨events, state, none⟩
  | .fail ⟨(events, state), stop⟩ => some ⟨events, state, some stop⟩
  | .outside | .spin => none

/-- What was logged before a decode stays in front. -/
theorem logged_carries (callbacks : Callbacks σ) (earlier : List Event) :
    callbacks.logged.Carries callbacks.logged fun state => (earlier ++ state.1, state.2) where
  handles := rfl
  handlesUnknown := rfl
  call state event := by simp [Callbacks.logged]

/-- Behind an input that is decoded to its end, a decode goes on with what follows. -/
theorem streamDecode_append {schema : Schema} {id : MessageId} {callbacks : Callbacks σ}
    {x y : List Byte} {state final : σ} {events : List Event}
    (decoded : streamDecode schema id callbacks.logged ([], state) x = .ok (events, final)) :
    streamDecode schema id callbacks.logged ([], state) (x ++ y) =
      (streamDecode schema id callbacks.logged ([], final) y).bimap
        (fun state => (events ++ state.1, state.2))
        (Stopped.rename (fun state => (events ++ state.1, state.2)) x.length) := by
  simp only [streamDecode_eq_fold, Bodies.fold] at decoded ⊢
  rw [Bodies.foldlM_append decoded]
  have carried := (streamBodies_carries x.length (logged_carries callbacks events)
    (schema.get id)).foldlM y ([], final)
  simpa only [List.append_nil] using carried

/-- What a decode of a concatenation shows, when its first part ended with `events` and its second
part shows `later`. -/
structure Transcript.Continues (whole later : Transcript σ) (events : List Event) (count : Nat) :
    Prop where
  /-- The events follow each other. -/
  events : whole.events = events ++ later.events
  /-- The callbacks end in the same state. -/
  state : whole.state = later.state
  /-- It ends early for the same reason, with offsets relative to the body shifted. -/
  stop : whole.stop = later.stop.map (Stop.shift count)
  /-- The same wire error is returned. -/
  wire : whole.status.wire = later.status.wire
  /-- Or the same abort. -/
  aborted : whole.status.aborted = later.status.aborted

theorem transcript_append {schema : Schema} {id : MessageId} {callbacks : Callbacks σ}
    {x y : List Byte} {state final : σ} {events : List Event}
    (decoded : transcript schema id callbacks state x = some ⟨events, final, none⟩) :
    ∃ later whole, transcript schema id callbacks final y = some later ∧
      transcript schema id callbacks state (x ++ y) = some whole ∧
      whole.Continues later events x.length := by
  rw [transcript] at decoded
  cases first : streamDecode schema id callbacks.logged ([], state) x with
  | ok reached =>
      obtain ⟨events', final'⟩ := reached
      rw [first] at decoded
      obtain ⟨rfl, rfl⟩ : events' = events ∧ final' = final := by simpa using decoded
      have ends := @streamDecode_ends _ y _ callbacks.logged stops_located schema id
        ([], final')
      simp only [transcript, streamDecode_append first]
      cases second : streamDecode schema id callbacks.logged ([], final') y with
      | ok pair => exact ⟨_, _, rfl, rfl, rfl, rfl, rfl, rfl, rfl⟩
      | fail stopped =>
          have kept := Stop.status_shift x.length stopped.stop
          exact ⟨_, _, rfl, rfl, rfl, rfl, rfl, kept.1, kept.2⟩
      | outside => rw [second] at ends; exact ends.elim
      | spin => rw [second] at ends; exact ends.elim
  | fail stopped => rw [first] at decoded; cases decoded
  | outside => rw [first] at decoded; cases decoded
  | spin => rw [first] at decoded; cases decoded

end RapidProto
