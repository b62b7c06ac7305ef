import RapidProto.Stream.Append

/-!
# Scripts

What a streaming decode hands over does not depend on the answers it gets: the input and the set of
fields with a callback fix a script of events, up to a wire failure if there is one, and the decode
plays it until an answer is not ok.  With fewer callbacks the script is the part that concerns them.
-/

namespace RapidProto

variable {σ τ : Type}

/-- Events, and the wire failure behind the last one. -/
structure Script where
  /-- The events, in order. -/
  events : List Event := []
  /-- The failure that ends the script. -/
  failure : Option WireFail := none
  deriving DecidableEq

/-- One script after another; nothing follows a failure. -/
def Script.andThen (script later : Script) : Script :=
  match script.failure with
  | some _ => script
  | none => ⟨script.events ++ later.events, later.failure⟩

/-- Hand over the events of a script. -/
def Callbacks.play (callbacks : Callbacks σ) (state : σ) (script : Script) :
    Outcome (Stopped σ) σ := do
  let state ← script.events.foldlM callbacks.invoke state
  match script.failure with
  | none => .ok state
  | some failure => .fail ⟨state, .wire failure⟩

section Play

variable {callbacks : Callbacks σ}

@[simp] theorem play_empty (state : σ) : callbacks.play state {} = .ok state := rfl

@[simp] theorem play_failure (state : σ) (failure : WireFail) :
    callbacks.play state ⟨[], some failure⟩ = .fail ⟨state, .wire failure⟩ := rfl

@[simp] theorem play_single (state : σ) (event : Event) :
    callbacks.play state ⟨[event], none⟩ = callbacks.invoke state event := by
  simp only [Callbacks.play, List.foldlM_cons, List.foldlM_nil, Outcome.pure_eq]
  cases callbacks.invoke state event <;> rfl

theorem play_cons (state : σ) (event : Event) (script : Script) :
    callbacks.play state ⟨event :: script.events, script.failure⟩ =
      (callbacks.invoke state event >>= fun state => callbacks.play state script) := by
  simp only [Callbacks.play, List.foldlM_cons, Outcome.bind_assoc]

theorem play_andThen (state : σ) (script later : Script) :
    callbacks.play state (script.andThen later) =
      (callbacks.play state script >>= fun state => callbacks.play state later) := by
  obtain ⟨events, failure⟩ := script
  cases failure with
  | some failure =>
      simp only [Script.andThen, Callbacks.play, Outcome.bind_assoc]
      rfl
  | none => simp only [Script.andThen, Callbacks.play, List.foldlM_append, Outcome.bind_assoc,
      Outcome.ok_bind]

end Play

/-! ## The script of an input -/

section Scripts

variable (message : Message) (handles : Nat → Bool) (handlesUnknown : Bool)

/-- The elements of a packed run. -/
def packedScript (number : Nat) (kind : Leaf) (span : Nat) : (turns : Nat) → Cursor → Script
  | 0, _ => {}
  | turns + 1, p =>
    if p.length = 0 then {}
    else
      match payload span ⟨1, kind.wire⟩ p with
      | .error failure => ⟨[], some failure.within⟩
      | .ok (value, rest) =>
        let later := packedScript number kind span turns rest
        ⟨.field number (.leaf (kind.convert value)) :: later.events, later.failure⟩

/-- A map entry. -/
def entryScript (map : MapField) (entry : List Byte) : Script :=
  match (items entry.length entry).foldlM (streamEntryBodies map).step
    ⟨map.key.zero, map.value.default⟩ with
  | .ok locals => ⟨[.entry map.number locals.key locals.value], none⟩
  | .fail failure => ⟨[], some failure⟩
  | .outside | .spin => {}

/-- A value of a field's own wire type. -/
def nativeScript (shape : Shape) (value : Payload) : Script :=
  match message.member? shape.number with
  | some (.plain field) | some (.choice _ _ field) =>
    if handles field.number then ⟨[.field field.number (field.type.deliver value)], none⟩ else {}
  | some (.mapped map) =>
    if handles map.number ∧ shape.wire = .len then entryScript map value.bytes else {}
  | none => {}

/-- A packed run of a field. -/
def runScript (shape : Shape) (run : List Byte) : Script :=
  match message.member? shape.number with
  | some (.plain { number, type := .leaf kind, .. }) =>
    if handles number then packedScript number kind run.length run.length run else {}
  | _ => {}

/-- A record of an undeclared field. -/
def unknownScript (tag : Tag) (raw : List Byte) : Script :=
  if handlesUnknown then ⟨[.unknown tag raw], none⟩ else {}

/-- One item of a body. -/
def itemScript : Item → Script
  | .badTag failure | .badValue _ failure => ⟨[], some failure⟩
  | .record tag value raw =>
    match route (message.shapes fun _ => .materialize) tag with
    | .native shape => nativeScript message handles shape value
    | .packed shape => runScript message handles shape value.bytes
    | .skip => {}
    | .unknown => unknownScript handlesUnknown tag raw

/-- The script of a list of items. -/
def scriptOf (inputs : List Item) : Script :=
  inputs.foldr (fun item later => (itemScript message handles handlesUnknown item).andThen later) {}

end Scripts

section Plays

variable {callbacks : Callbacks σ} {message : Message}

/-- The packed loop plays the elements of its run. -/
theorem streamPacked_eq_play (number : Nat) (kind : Leaf) {span turns : Nat} {p : Cursor}
    (enough : p.length ≤ turns) (state : σ) :
    runLoop (elementTurn callbacks number kind span) state p =
      callbacks.play state (packedScript number kind span turns p) := by
  induction turns generalizing state p with
  | zero =>
      obtain rfl : p = [] := List.length_eq_zero_iff.mp (by omega)
      rw [runLoop_eq (elementTurn_consuming number span kind)]
      rfl
  | succ turns ih =>
      rw [runLoop_eq (elementTurn_consuming number span kind), elementTurn, packedScript]
      by_cases empty : p.length = 0
      · rw [if_neg (by omega), if_pos empty]
        rfl
      rw [if_pos (by omega), if_neg empty, readValue_eq]
      cases got : payload span ⟨1, kind.wire⟩ p with
      | error failure => rfl
      | ok pair =>
          have shorter := payload_length_lt got
          dsimp only
          rw [play_cons]
          simp only [Outcome.ofExcept_ok, Outcome.mapError_ok, Outcome.ok_bind]
          cases callbacks.invoke state (.field number (.leaf (kind.convert pair.1))) with
          | ok state => exact ih (by omega) state
          | fail stopped => rfl
          | outside => rfl
          | spin => rfl

theorem streamEntry_eq_play (map : MapField) (state : σ) (entry : List Byte) :
    streamEntry callbacks map state entry = callbacks.play state (entryScript map entry) := by
  simp only [streamEntry, Bodies.byRecord.plainLoop_eq, entryScript]
  have ends := (streamEntryBodies_endsWell map entry.length).foldlM (fun _ _ _ _ => trivial)
    ⟨map.key.zero, map.value.default⟩
  cases ran : (items entry.length entry).foldlM (streamEntryBodies map).step
    ⟨map.key.zero, map.value.default⟩ with
  | ok locals => simp
  | fail failure => simp
  | outside => rw [ran] at ends; exact ends.elim
  | spin => rw [ran] at ends; exact ends.elim

theorem native_eq_play (shape : Shape) (state : σ) (value : Payload) :
    ((streamBodies callbacks message).native shape).after state value =
      callbacks.play state (nativeScript message callbacks.handles shape value) := by
  simp only [streamBodies, nativeScript]
  cases message.member? shape.number with
  | none => rfl
  | some member =>
      cases member with
      | plain field =>
          dsimp only
          split <;> simp
      | choice oneof index field =>
          dsimp only
          split <;> simp
      | mapped map =>
          dsimp only
          split
          · exact streamEntry_eq_play map state value.bytes
          · simp

theorem packed_eq_play (shape : Shape) (state : σ) (run : List Byte) :
    (streamBodies callbacks message).packed shape state run =
      (callbacks.play state (runScript message callbacks.handles shape run) >>= fun state =>
        .ok (state, false)) := by
  simp only [streamBodies, runScript]
  cases message.member? shape.number with
  | none => rfl
  | some member =>
      cases member with
      | choice oneof index field => rfl
      | mapped map => rfl
      | plain field =>
          obtain ⟨number, type, presence⟩ := field
          cases type with
          | message target delimited => rfl
          | leaf kind =>
              dsimp only
              split
              · rw [streamPacked, streamPacked_eq_play _ _ le_rfl]
              · rfl

/-- A record is handled by playing its script. -/
theorem step_eq_play (state : σ) (item : Item) :
    (streamBodies callbacks message).step state item =
      callbacks.play state
        (itemScript message callbacks.handles callbacks.handlesUnknown item) := by
  cases item with
  | badTag failure => rfl
  | badValue tag failure =>
      simp only [Bodies.step, itemScript, play_failure]
      cases route (streamBodies callbacks message).fields tag <;> rfl
  | record tag value raw =>
      simp only [Bodies.step, itemScript]
      rw [show (streamBodies callbacks message).fields =
        message.shapes fun _ => .materialize from rfl]
      cases route (message.shapes fun _ => .materialize) tag with
      | native shape => exact native_eq_play shape state value
      | packed shape =>
          simp only [packed_eq_play, Outcome.bind_assoc, Outcome.ok_bind]
          exact Outcome.bind_ok _
      | skip => rfl
      | unknown =>
          simp only [streamBodies, unknownScript]
          split <;> simp

/-- A streaming decode plays the script of its input. -/
theorem streamDecode_eq_play (schema : Schema) (id : MessageId) (callbacks : Callbacks σ) (state : σ)
    (input : List Byte) :
    streamDecode schema id callbacks state input =
      callbacks.play state (scriptOf (schema.get id) callbacks.handles callbacks.handlesUnknown
        (items input.length input)) := by
  rw [streamDecode_eq_fold, Bodies.fold]
  induction items input.length input generalizing state with
  | nil => rfl
  | cons item inputs ih =>
      rw [List.foldlM_cons, scriptOf, List.foldr_cons, play_andThen, step_eq_play]
      congr 1
      funext next
      exact ih next

end Plays

/-! ## Fewer callbacks -/

/-- The event goes to one of the given callbacks. -/
def Event.handledBy (handles : Nat → Bool) (handlesUnknown : Bool) : Event → Bool
  | .field number _ => handles number
  | .entry number _ _ => handles number
  | .unknown _ _ => handlesUnknown

section Subset

variable {message : Message} {handles handles' : Nat → Bool} {handlesUnknown handlesUnknown' : Bool}

/-- The part of a script for some of its callbacks. -/
structure Script.PartOf (part whole : Script) (mine : Event → Bool) : Prop where
  events : part.events = whole.events.filter mine
  failure : part.failure = none

theorem packedScript_numbers {number span turns : Nat} {kind : Leaf} {p : Cursor} {event : Event}
    (met : event ∈ (packedScript number kind span turns p).events) :
    ∃ value, event = .field number value := by
  induction turns generalizing p with
  | zero => cases met
  | succ turns ih =>
      rw [packedScript] at met
      split at met
      · cases met
      split at met
      · cases met
      · rcases List.mem_cons.mp met with rfl | later
        · exact ⟨_, rfl⟩
        · exact ih later

theorem entryScript_numbers {map : MapField} {entry : List Byte} {event : Event}
    (met : event ∈ (entryScript map entry).events) :
    ∃ key value, event = .entry map.number key value := by
  rw [entryScript] at met
  split at met
  · exact ⟨_, _, List.mem_singleton.mp met⟩
  · cases met
  · cases met
  · cases met

/-- A script all of whose events go to one callback, with and without that callback. -/
theorem Script.partOf_ite {script : Script} {mine : Event → Bool} {kept : Prop} [Decidable kept]
    {present : Prop} [Decidable present] (fewer : kept → present)
    (own : ∀ event ∈ script.events, mine event = true ↔ kept)
    (complete : (if present then script else {}).failure = none) :
    Script.PartOf (if kept then script else {}) (if present then script else {}) mine := by
  by_cases given : kept
  · simp only [if_pos given, if_pos (fewer given)] at complete ⊢
    exact ⟨(List.filter_eq_self.mpr fun event met => (own event met).mpr given).symm, complete⟩
  · rw [if_neg given]
    refine ⟨?_, rfl⟩
    by_cases given' : present
    · rw [if_pos given']
      exact (List.filter_eq_nil_iff.mpr fun event met => mt (own event met).mp given).symm
    · rw [if_neg given']
      rfl

/-- The part of two scripts after each other. -/
theorem Script.PartOf.andThen {part whole part' whole' : Script} {mine : Event → Bool}
    (first : part.PartOf whole mine) (second : part'.PartOf whole' mine)
    (complete : whole.failure = none) :
    (part.andThen part').PartOf (whole.andThen whole') mine := by
  simp only [Script.andThen, first.failure, complete]
  exact ⟨by rw [List.filter_append, first.events, second.events], second.failure⟩

/-- A script ends without a failure when both of its parts do. -/
theorem Script.andThen_complete {script later : Script}
    (complete : (script.andThen later).failure = none) :
    script.failure = none ∧ later.failure = none := by
  rw [Script.andThen] at complete
  cases failed : script.failure with
  | some failure =>
      rw [failed] at complete
      exact absurd (failed.symm.trans complete) (by simp)
  | none =>
      rw [failed] at complete
      exact ⟨rfl, complete⟩

section Native

variable (fewer : ∀ number, handles number = true → handles' number = true)
include fewer

theorem nativeScript_partOf {shape : Shape} {value : Payload}
    (complete : (nativeScript message handles' shape value).failure = none) :
    (nativeScript message handles shape value).PartOf (nativeScript message handles' shape value)
      (Event.handledBy handles handlesUnknown) := by
  rw [nativeScript] at complete
  rw [nativeScript, nativeScript]
  cases found : message.member? shape.number with
  | none => exact ⟨rfl, rfl⟩
  | some member =>
      rw [found] at complete
      cases member with
      | plain field =>
          refine Script.partOf_ite (fewer field.number) ?_ complete
          simp [Event.handledBy]
      | choice oneof index field =>
          refine Script.partOf_ite (fewer field.number) ?_ complete
          simp [Event.handledBy]
      | mapped map =>
          dsimp only at complete ⊢
          by_cases entry : shape.wire = .len
          · simp only [entry, and_true] at complete ⊢
            refine Script.partOf_ite (fewer map.number) ?_ complete
            intro event met
            obtain ⟨key, value, rfl⟩ := entryScript_numbers met
            exact Iff.rfl
          · simp only [entry, and_false, if_false]
            exact ⟨rfl, rfl⟩

theorem runScript_partOf {shape : Shape} {run : List Byte}
    (complete : (runScript message handles' shape run).failure = none) :
    (runScript message handles shape run).PartOf (runScript message handles' shape run)
      (Event.handledBy handles handlesUnknown) := by
  rw [runScript] at complete
  rw [runScript, runScript]
  cases found : message.member? shape.number with
  | none => exact ⟨rfl, rfl⟩
  | some member =>
      rw [found] at complete
      cases member with
      | choice oneof index field => exact ⟨rfl, rfl⟩
      | mapped map => exact ⟨rfl, rfl⟩
      | plain field =>
          obtain ⟨number, type, presence⟩ := field
          cases type with
          | message target delimited => exact ⟨rfl, rfl⟩
          | leaf kind =>
              refine Script.partOf_ite (fewer number) ?_ complete
              intro event met
              obtain ⟨value, rfl⟩ := packedScript_numbers met
              exact Iff.rfl

end Native

variable (fewer : ∀ number, handles number = true → handles' number = true)
  (fewerUnknown : handlesUnknown = true → handlesUnknown' = true)
include fewer fewerUnknown

theorem itemScript_partOf {item : Item}
    (complete : (itemScript message handles' handlesUnknown' item).failure = none) :
    (itemScript message handles handlesUnknown item).PartOf
      (itemScript message handles' handlesUnknown' item)
      (Event.handledBy handles handlesUnknown) := by
  cases item with
  | badTag failure => cases complete
  | badValue tag failure => cases complete
  | record tag value raw =>
      simp only [itemScript] at complete ⊢
      cases routed : route (message.shapes fun _ => .materialize) tag with
      | native shape =>
          rw [routed] at complete
          exact nativeScript_partOf fewer complete
      | packed shape =>
          rw [routed] at complete
          exact runScript_partOf fewer complete
      | skip => exact ⟨rfl, rfl⟩
      | unknown =>
          rw [routed] at complete
          refine Script.partOf_ite fewerUnknown ?_ complete
          simp [Event.handledBy]

/-- With fewer callbacks, the script of an input is the part that concerns them. -/
theorem scriptOf_partOf {inputs : List Item}
    (complete : (scriptOf message handles' handlesUnknown' inputs).failure = none) :
    (scriptOf message handles handlesUnknown inputs).PartOf
      (scriptOf message handles' handlesUnknown' inputs)
      (Event.handledBy handles handlesUnknown) := by
  induction inputs with
  | nil => exact ⟨rfl, rfl⟩
  | cons item inputs ih =>
      have parts := Script.andThen_complete complete
      exact (itemScript_partOf fewer fewerUnknown parts.1).andThen (ih parts.2) parts.1

end Subset

/-! ## Transcripts of scripts -/

/-- Every answer is ok. -/
def Callbacks.NeverAborts (callbacks : Callbacks σ) : Prop :=
  ∀ state event, (callbacks.call state event).2.ok = true

/-- The callbacks of one decode are among those of another. -/
structure Callbacks.Within (few : Callbacks σ) (more : Callbacks τ) : Prop where
  /-- The declared fields that have a callback. -/
  handles : ∀ number, few.handles number = true → more.handles number = true
  /-- The handler of undeclared records. -/
  handlesUnknown : few.handlesUnknown = true → more.handlesUnknown = true

/-- The event goes to one of the callbacks. -/
def Callbacks.receives (callbacks : Callbacks σ) (event : Event) : Bool :=
  event.handledBy callbacks.handles callbacks.handlesUnknown

section Transcripts

variable {callbacks : Callbacks σ} {schema : Schema} {id : MessageId} {input : List Byte}

/-- The script of a decode. -/
def script (schema : Schema) (id : MessageId) (callbacks : Callbacks σ) (input : List Byte) :
    Script :=
  scriptOf (schema.get id) callbacks.handles callbacks.handlesUnknown (items input.length input)

theorem invoke_neverAborts (quiet : callbacks.NeverAborts) (state : σ) (event : Event) :
    callbacks.invoke state event = .ok (callbacks.call state event).1 := by
  rw [Callbacks.invoke]
  exact if_pos (quiet state event)

theorem foldlM_neverAborts (quiet : callbacks.NeverAborts) (events : List Event) (state : σ) :
    ∃ reached, events.foldlM callbacks.invoke state = .ok reached := by
  induction events generalizing state with
  | nil => exact ⟨state, rfl⟩
  | cons event events ih =>
      rw [List.foldlM_cons, invoke_neverAborts quiet]
      exact ih _

theorem invoke_eq_ok {state next : σ} {event : Event} :
    callbacks.invoke state event = .ok next ↔
      (callbacks.call state event).2.ok = true ∧ (callbacks.call state event).1 = next := by
  rw [Callbacks.invoke]
  by_cases accepted : (callbacks.call state event).2.ok = true <;> simp [accepted]

theorem logged_invoke (log : List Event) (state : σ) (event : Event) :
    callbacks.logged.invoke (log, state) event =
      if (callbacks.call state event).2.ok then .ok (log ++ [event], (callbacks.call state event).1)
      else .fail ⟨(log ++ [event], (callbacks.call state event).1),
        .callback (callbacks.call state event).2⟩ := rfl

/-- Events that are all answered ok are logged in order. -/
theorem logged_foldlM {events : List Event} {state reached : σ}
    (heard : events.foldlM callbacks.invoke state = .ok reached) (log : List Event) :
    events.foldlM callbacks.logged.invoke (log, state) = .ok (log ++ events, reached) := by
  induction events generalizing log state with
  | nil =>
      cases heard
      simp
  | cons event events ih =>
      rw [List.foldlM_cons] at heard
      obtain ⟨next, answered, later⟩ := Outcome.bind_eq_ok.mp heard
      have accepted := invoke_eq_ok.mp answered
      rw [List.foldlM_cons, logged_invoke, if_pos accepted.1, accepted.2]
      exact (ih later _).trans (by simp)

/-- Callbacks that never abort are handed the whole script. -/
theorem transcript_neverAborts (quiet : callbacks.NeverAborts) (state : σ) :
    ∃ reached, transcript schema id callbacks state input =
      some ⟨(script schema id callbacks input).events, reached,
        (script schema id callbacks input).failure.map Stop.wire⟩ := by
  obtain ⟨reached, heard⟩ := foldlM_neverAborts quiet (script schema id callbacks input).events state
  have logged := logged_foldlM heard []
  refine ⟨reached, ?_⟩
  rw [transcript, streamDecode_eq_play, Callbacks.play]
  rw [script] at logged ⊢
  simp only [Callbacks.logged] at logged ⊢
  rw [logged]
  cases (scriptOf (schema.get id) callbacks.handles callbacks.handlesUnknown
    (items input.length input)).failure <;> rfl

/-- Callbacks that abort are handed the script up to the event they abort on. -/
theorem transcript_aborts {before after : List Event} {event : Event} {state reached : σ}
    (split : (script schema id callbacks input).events = before ++ event :: after)
    (heard : before.foldlM callbacks.invoke state = .ok reached)
    (aborts : (callbacks.call reached event).2.ok = false) :
    transcript schema id callbacks state input =
      some ⟨before ++ [event], (callbacks.call reached event).1,
        some (.callback (callbacks.call reached event).2)⟩ := by
  have logged := logged_foldlM heard []
  have last := @logged_invoke _ callbacks before reached event
  rw [transcript, streamDecode_eq_play, Callbacks.play]
  rw [script] at split
  rw [show callbacks.logged.handles = callbacks.handles from rfl,
    show callbacks.logged.handlesUnknown = callbacks.handlesUnknown from rfl, split,
    List.foldlM_append, logged, Outcome.ok_bind, List.foldlM_cons, List.nil_append, last,
    if_neg (by simp [aborts])]
  rfl

end Transcripts

/-! ## Cursors -/

/-- Where one run succeeds, another does too and leaves the cursor at the same place. -/
def SameAdvance {α β ε ε' : Type} (few : Outcome ε (α × Cursor)) (more : Outcome ε' (β × Cursor)) :
    Prop :=
  ∀ result q, more = .ok (result, q) → ∃ result', few = .ok (result', q)

/-- Both read the same and use what they read alike. -/
theorem sameAdvance_read {α β γ ε ε' ε'' : Type} {read : Outcome ε'' γ} {report : ε'' → ε}
    {report' : ε'' → ε'} {use : γ → Outcome ε α} {use' : γ → Outcome ε' β} {next : γ → Cursor}
    (uses : ∀ value result, use' value = .ok result → ∃ result', use value = .ok result') :
    SameAdvance (read.mapError report >>= fun value => use value >>= fun result =>
        .ok (result, next value))
      (read.mapError report' >>= fun value => use' value >>= fun result =>
        .ok (result, next value)) := by
  intro result q ran
  obtain ⟨value, got, ran⟩ := Outcome.bind_eq_ok.mp ran
  obtain ⟨reached, used, ended⟩ := Outcome.bind_eq_ok.mp ran
  cases ended
  obtain ⟨final, used'⟩ := uses value result used
  cases read with
  | ok value' =>
      cases got
      exact ⟨final, by simp [used']⟩
  | fail failure => cases got
  | outside => cases got
  | spin => cases got

section Cursors

variable {few : Callbacks σ} {more : Callbacks τ} {message : Message} {span : Nat}

theorem play_complete {callbacks : Callbacks σ} {state reached : σ} {script : Script}
    (played : callbacks.play state script = .ok reached) : script.failure = none := by
  obtain ⟨state', -, ended⟩ := Outcome.bind_eq_ok.mp played
  cases failed : script.failure with
  | none => rfl
  | some failure => rw [failed] at ended; cases ended

theorem play_neverAborts {callbacks : Callbacks σ} (quiet : callbacks.NeverAborts) (state : σ)
    {script : Script} (complete : script.failure = none) :
    ∃ reached, callbacks.play state script = .ok reached := by
  obtain ⟨reached, heard⟩ := foldlM_neverAborts quiet script.events state
  exact ⟨reached, by rw [Callbacks.play, heard, complete]; rfl⟩

variable (quiet : few.NeverAborts) (within : few.Within more)
include quiet within

/-- Reading past the value of an unhandled field takes the bytes that decoding it takes. -/
theorem nativeArm_sameAdvance (shape : Shape) (state : σ) (state' : τ) (p : Cursor) :
    SameAdvance (nativeArm few message span shape state p)
      (nativeArm more message span shape state' p) := by
  rw [nativeArm_eq, nativeArm_eq]
  refine sameAdvance_read fun read result used => ?_
  rw [native_eq_play] at used ⊢
  have part := @nativeScript_partOf _ _ _ few.handlesUnknown within.handles _ _ (play_complete used)
  exact play_neverAborts quiet state part.failure

/-- Reading past a packed payload takes the bytes that decoding it takes. -/
theorem packedArm_sameAdvance (shape : Shape) (state : σ) (state' : τ) (p : Cursor) :
    SameAdvance (packedArm few message span shape state p)
      (packedArm more message span shape state' p) := by
  rw [packedArm_eq, packedArm_eq]
  refine sameAdvance_read fun read result used => ?_
  rw [packed_eq_play] at used ⊢
  obtain ⟨reached, played, -⟩ := Outcome.bind_eq_ok.mp used
  have part := @runScript_partOf _ _ _ few.handlesUnknown within.handles _ _ (play_complete played)
  obtain ⟨final, played'⟩ := play_neverAborts quiet state part.failure
  exact ⟨(final, false), by rw [played']; rfl⟩

omit within in
/-- So does the record of an undeclared field. -/
theorem unknownArm_sameAdvance (tag : Tag) (state : σ) (state' : τ) (p : Cursor) :
    SameAdvance (unknownArm few span tag state p) (unknownArm more span tag state' p) := by
  rw [@unknownArm_eq _ few default, @unknownArm_eq _ more default]
  refine sameAdvance_read fun read result used => ?_
  simp only [streamBodies]
  split
  · exact ⟨_, invoke_neverAborts quiet _ _⟩
  · exact ⟨_, rfl⟩

omit quiet within in
theorem skip_sameAdvance (tag : Tag) (state : σ) (state' : τ) (p : Cursor) :
    SameAdvance ((streamArms few message span).skip span tag state p)
      ((streamArms more message span).skip span tag state' p) :=
  @sameAdvance_read _ _ _ _ _ _ (skipValue span tag p) _ _ (fun _ => .ok state)
    (fun _ => .ok state') id fun _ _ _ => ⟨state, rfl⟩

end Cursors

/-- Whatever the arm of the generated loop, with fewer callbacks it takes the same bytes. -/
structure Callbacks.SkipsAlike (few : Callbacks σ) (more : Callbacks τ) (message : Message) :
    Prop where
  /-- The label or the arm of a field's own wire type. -/
  native : ∀ span shape state state' p,
    SameAdvance ((streamArms few message span).native shape state p)
      ((streamArms more message span).native shape state' p)
  /-- The packed arm. -/
  packed : ∀ span shape state state' p,
    SameAdvance ((streamArms few message span).packed shape state p)
      ((streamArms more message span).packed shape state' p)
  /-- The default case. -/
  unknown : ∀ span tag state state' p,
    SameAdvance ((streamArms few message span).unknown tag state p)
      ((streamArms more message span).unknown tag state' p)
  /-- The shared skip of a field whose wire type does not match. -/
  skip : ∀ span tag state state' p,
    SameAdvance ((streamArms few message span).skip span tag state p)
      ((streamArms more message span).skip span tag state' p)

theorem Callbacks.skipsAlike {few : Callbacks σ} {more : Callbacks τ} (quiet : few.NeverAborts)
    (within : few.Within more) (message : Message) : few.SkipsAlike more message where
  native _ := nativeArm_sameAdvance quiet within
  packed _ := packedArm_sameAdvance quiet within
  unknown _ := unknownArm_sameAdvance quiet
  skip _ := skip_sameAdvance

/-- With fewer callbacks, a decode hands over the events that concern them. -/
theorem transcript_within {few : Callbacks σ} {more : Callbacks τ} {schema : Schema}
    {id : MessageId} (quiet : few.NeverAborts) (quiet' : more.NeverAborts)
    (within : few.Within more) {input : List Byte} {events : List Event} {state' final : τ}
    (decoded : transcript schema id more state' input = some ⟨events, final, none⟩) (state : σ) :
    ∃ reached, transcript schema id few state input =
      some ⟨events.filter few.receives, reached, none⟩ := by
  obtain ⟨final', shown⟩ := @transcript_neverAborts _ more schema id input quiet' state'
  rw [shown] at decoded
  simp only [Option.some.injEq, Transcript.mk.injEq, Option.map_eq_none_iff] at decoded
  have part := scriptOf_partOf within.handles within.handlesUnknown decoded.2.2
  obtain ⟨reached, shown'⟩ := @transcript_neverAborts _ few schema id input quiet state
  refine ⟨reached, shown'.trans ?_⟩
  simp only [script, part.failure, part.events, Option.map_none, ← decoded.1]
  rfl

/-- Callbacks that abort on an event of the run that does not abort end the decode there. -/
theorem transcript_cut {callbacks : Callbacks σ} {quiet : Callbacks τ} {schema : Schema}
    {id : MessageId} (never : quiet.NeverAborts) (handles : callbacks.handles = quiet.handles)
    (handlesUnknown : callbacks.handlesUnknown = quiet.handlesUnknown) {input : List Byte}
    {shown : Transcript τ} {state' : τ}
    (decoded : transcript schema id quiet state' input = some shown) {k : Nat} {event : Event}
    (kth : shown.events[k]? = some event) {state reached : σ}
    (heard : (shown.events.take k).foldlM callbacks.invoke state = .ok reached)
    (aborts : (callbacks.call reached event).2.ok = false) :
    transcript schema id callbacks state input =
      some ⟨shown.events.take (k + 1), (callbacks.call reached event).1,
        some (.callback (callbacks.call reached event).2)⟩ := by
  obtain ⟨final, whole⟩ := @transcript_neverAborts _ quiet schema id input never state'
  rw [whole] at decoded
  cases decoded
  have same : script schema id callbacks input = script schema id quiet input := by
    rw [script, handles, handlesUnknown, script]
  obtain ⟨inside, rfl⟩ := List.getElem?_eq_some_iff.mp kth
  rw [List.take_succ_eq_append_getElem inside]
  have parts : (script schema id callbacks input).events =
      (script schema id quiet input).events.take k ++
        (script schema id quiet input).events[k] ::
          (script schema id quiet input).events.drop (k + 1) := by
    rw [same, List.getElem_cons_drop inside, List.take_append_drop]
  exact transcript_aborts parts heard aborts

/-- A decode with fewer callbacks succeeds where one with more does, reads past the same bytes, and
hands over the events that concern them.  A callback that aborts cuts the run at its event, and its
status is returned. -/
theorem streaming_skips_exactly (schema : Schema) (id : MessageId) (few : Callbacks σ)
    (more : Callbacks τ) (quiet : few.NeverAborts) (quiet' : more.NeverAborts)
    (within : few.Within more) :
    (∀ input events state state' final,
      transcript schema id more state' input = some ⟨events, final, none⟩ →
      ∃ reached, transcript schema id few state input =
        some ⟨events.filter few.receives, reached, none⟩) ∧
    few.SkipsAlike more (schema.get id) ∧
    (∀ (ρ : Type) (callbacks : Callbacks ρ), callbacks.handles = more.handles →
      callbacks.handlesUnknown = more.handlesUnknown →
      ∀ input state' whole, transcript schema id more state' input = some whole →
      ∀ k event state reached, whole.events[k]? = some event →
        (whole.events.take k).foldlM callbacks.invoke state = .ok reached →
        (callbacks.call reached event).2.ok = false →
        ∃ shown, transcript schema id callbacks state input = some shown ∧
          shown.events = whole.events.take (k + 1) ∧
          shown.status = (callbacks.call reached event).2) := by
  refine ⟨?_, Callbacks.skipsAlike quiet within (schema.get id), ?_⟩
  · intro input events state state' final decoded
    exact transcript_within quiet quiet' within decoded state
  · intro ρ callbacks handles handlesUnknown input state' whole decoded k event state reached kth
      heard aborts
    exact ⟨_, transcript_cut quiet' handles handlesUnknown decoded kth heard aborts, rfl, rfl⟩

/-- Callbacks for the given fields that do nothing. -/
def ignoring (numbers : List Nat) : Callbacks Unit where
  handles number := numbers.contains number
  handlesUnknown := false
  call state _ := (state, {})

theorem ignoring_neverAborts (numbers : List Nat) : (ignoring numbers).NeverAborts :=
  fun _ _ => rfl

theorem streaming_skips_exactly_sample :
    transcript sampleSchema 0 (ignoring [1, 2]) () [0x08, 0x07, 0x12, 0x02, 0x01, 0x02] =
      some ⟨[.field 1 (.leaf (.w32 7)), .field 2 (.leaf (.w32 1)), .field 2 (.leaf (.w32 2))], (),
        none⟩ ∧
    ∃ reached, transcript sampleSchema 0 (ignoring [1]) () [0x08, 0x07, 0x12, 0x02, 0x01, 0x02] =
      some ⟨[.field 1 (.leaf (.w32 7))], reached, none⟩ := by
  have whole : transcript sampleSchema 0 (ignoring [1, 2]) ()
      [0x08, 0x07, 0x12, 0x02, 0x01, 0x02] =
      some ⟨[.field 1 (.leaf (.w32 7)), .field 2 (.leaf (.w32 1)), .field 2 (.leaf (.w32 2))], (),
        none⟩ := rfl
  have within : (ignoring [1]).Within (ignoring [1, 2]) := ⟨by simp +contextual [ignoring], id⟩
  exact ⟨whole, (streaming_skips_exactly sampleSchema 0 (ignoring [1]) (ignoring [1, 2])
    (ignoring_neverAborts _) (ignoring_neverAborts _) within).1 _ _ () () () whole⟩

end RapidProto
