import RapidProto.Thread.Simulation

/-!
# Loops as folds over records

When the bodies of a loop act on whole records, the loop is a left fold of one step function over
the record walk of its span.
-/

namespace RapidProto

variable {σ ε : Type}

/-- The bodies act record by record, as `step` says. -/
structure Arms.ByRecord (arms : Arms σ ε) (span : Nat) (step : σ → Item → Outcome ε σ) : Prop where
  /-- A malformed tag is a wire failure. -/
  onTag : ∀ state failure, step state (.badTag failure) = .fail (arms.wire state failure)
  /-- A malformed value ends the loop. -/
  onValue : ∀ {tag p failure} state, payload span tag p = .error failure →
    arms.follow span tag state p = (step state (.badValue tag failure) >>= fun _ => .spin)
  /-- A record is consumed whole. -/
  onRecord : ∀ {tag p value q} state, payload span tag p = .ok (value, q) →
    arms.follow span tag state p =
      (step state (.record tag value (p.take (p.length - q.length))) >>= fun state =>
        .ok (state, q))
  /-- There is no success past a malformed value. -/
  stops : ∀ state state' tag failure, step state (.badValue tag failure) ≠ .ok state'

namespace Arms.ByRecord

variable {arms : Arms σ ε} {span : Nat} {step : σ → Item → Outcome ε σ}

theorem plainLoop_eq (byRecord : arms.ByRecord span step) (state : σ) (p : Cursor) :
    arms.plainLoop span state p =
      ((items span p).foldlM step state >>= fun state => .ok (state, [])) := by
  induction p using items_induct generalizing state with
  | step p ih =>
      rw [items_eq]
      rcases readTag_cases state p with ⟨rfl, result⟩ |
        ⟨error, failed, nonempty, result⟩ | ⟨found, q, read, result⟩
      · rw [plainLoop, runLoop_eq plainTurn_consuming, plainTurn, result]
        rfl
      · rw [plainLoop, runLoop_eq plainTurn_consuming, plainTurn, result,
          tagOrEnd_of_error nonempty failed]
        simp only [List.foldlM_cons, byRecord.onTag]
        rfl
      · rw [plainLoop_of_tag read, tagOrEnd_of_tag read]
        simp only []
        cases got : payload span found q with
        | error failure =>
            rw [byRecord.onValue state got]
            simp only [List.foldlM_cons]
            cases stopped : step state (.badValue found failure) with
            | ok state' => exact absurd stopped (byRecord.stops state state' found failure)
            | fail error => rfl
            | outside => rfl
            | spin => rfl
        | ok pair =>
            obtain ⟨value, rest⟩ := pair
            rw [byRecord.onRecord state got]
            simp only [List.foldlM_cons]
            have later := ih found q value rest (tagOrEnd_of_tag read) (payload_span got _)
            cases stepped : step state (.record found value (q.take (q.length - rest.length))) with
            | ok state' => exact later state'
            | fail error => rfl
            | outside => rfl
            | spin => rfl

end Arms.ByRecord

/-! ## Bodies -/

/-- A field body: what happens before its value is read, and what is done with the value. -/
structure Body (σ ε : Type) where
  /-- Checks and reservations made with the tag consumed. -/
  before : σ → Outcome ε σ := .ok
  /-- The use of the value. -/
  after : σ → Payload → Outcome ε σ

/-- The field bodies of a message, around the shared wire readers. -/
structure Bodies (σ ε : Type) where
  /-- The declared fields. -/
  fields : List Shape
  /-- No two fields share a number. -/
  distinct : (fields.map Shape.number).Nodup
  /-- The error reported for a wire failure. -/
  wire : σ → WireFail → ε
  /-- The body of a singular value or one repeated element. -/
  native : Shape → Body σ ε
  /-- The use of a packed run, and whether it ends in a `continue` of its own. -/
  packed : Shape → σ → List Byte → Outcome ε (σ × Bool)
  /-- What the default case does before it skips. -/
  unknownBefore : σ → σ := id
  /-- What the default case does with the skipped bytes. -/
  unknown : Tag → σ → List Byte → Outcome ε σ := fun _ state _ => .ok state

namespace Bodies

variable (bodies : Bodies σ ε) (span : Nat)

/-- Run the body of a field behind its tag. -/
def runNative (field : Shape) (state : σ) (p : Cursor) : Outcome ε (σ × Cursor) := do
  let state ← (bodies.native field).before state
  let (value, p) ← (readValue span ⟨field.number, field.wire⟩ p).mapError (bodies.wire state)
  let state ← (bodies.native field).after state value
  .ok (state, p)

/-- Run the packed body of a field behind its tag. -/
def runPacked (field : Shape) (state : σ) (p : Cursor) : Outcome ε ((σ × Bool) × Cursor) := do
  let (run, p) ← (located span p (readLengthDelimited p)).mapError (bodies.wire state)
  let result ← bodies.packed field state run
  .ok (result, p)

/-- Run the default case behind its tag. -/
def runUnknown (tag : Tag) (state : σ) (p : Cursor) : Outcome ε (σ × Cursor) := do
  let state := bodies.unknownBefore state
  let q ← (skipValue span tag p).mapError (bodies.wire state)
  let state ← bodies.unknown tag state (p.take (p.length - q.length))
  .ok (state, q)

/-- The loop arms made of the bodies. -/
def arms : Arms σ ε where
  fields := bodies.fields
  distinct := bodies.distinct
  wire := bodies.wire
  native := bodies.runNative span
  packed := bodies.runPacked span
  unknown := bodies.runUnknown span
  native_lt ran := by
    obtain ⟨state, -, ran⟩ := Outcome.bind_eq_ok.mp ran
    obtain ⟨⟨value, q⟩, read, ran⟩ := Outcome.bind_eq_ok.mp ran
    obtain ⟨state', -, same⟩ := Outcome.bind_eq_ok.mp ran
    cases same
    rw [readValue_eq] at read
    cases got : payload span _ _ with
    | error failure => rw [got] at read; cases read
    | ok pair => rw [got] at read; cases read; exact payload_length_lt got
  packed_lt ran := by
    obtain ⟨⟨run, q⟩, read, ran⟩ := Outcome.bind_eq_ok.mp ran
    obtain ⟨state', -, same⟩ := Outcome.bind_eq_ok.mp ran
    cases same
    rw [readLengthDelimited_eq] at read
    cases got : lengthDelimited _ with
    | error failure => rw [got] at read; cases read
    | ok pair => rw [got] at read; cases read; exact (lengthDelimited_takes got).length_lt
  unknown_lt ran := by
    obtain ⟨q, skipped, ran⟩ := Outcome.bind_eq_ok.mp ran
    obtain ⟨state', -, same⟩ := Outcome.bind_eq_ok.mp ran
    cases same
    rw [skipValue_eq] at skipped
    cases got : payload span _ _ with
    | error failure => rw [got] at skipped; cases skipped
    | ok pair => rw [got] at skipped; cases skipped; exact payload_length_lt got

/-- The step of the fold: what one item of the record walk does to the state. -/
def step (state : σ) : Item → Outcome ε σ
  | .badTag failure => .fail (bodies.wire state failure)
  | .badValue tag failure =>
    match route bodies.fields tag with
    | .native field => do
      let state ← (bodies.native field).before state
      .fail (bodies.wire state failure)
    | .unknown => .fail (bodies.wire (bodies.unknownBefore state) failure)
    | .packed _ | .skip => .fail (bodies.wire state failure)
  | .record tag value raw =>
    match route bodies.fields tag with
    | .native field => do
      let state ← (bodies.native field).before state
      (bodies.native field).after state value
    | .packed field => do
      let (state, _) ← bodies.packed field state value.bytes
      .ok state
    | .skip => .ok state
    | .unknown => bodies.unknown tag (bodies.unknownBefore state) raw

end Bodies

theorem route_tag {fields : List Shape} {found : Tag} {field : Shape}
    (routed : route fields found = .native field) : found = ⟨field.number, field.wire⟩ := by
  rw [route] at routed
  cases search : findKey Shape.number found.fieldNumber fields with
  | none => simp [search] at routed
  | some other =>
      have number := (mem_of_findKey search).2
      simp only [search] at routed
      split at routed
      · cases routed
      split at routed
      · rename_i wire
        cases routed
        cases found
        simp_all
      split at routed <;> cases routed

theorem route_len {fields : List Shape} {found : Tag} {field : Shape}
    (routed : route fields found = .packed field) : found.wireType = .len := by
  rw [route] at routed
  split at routed
  · cases routed
  split at routed
  · cases routed
  split at routed
  · cases routed
  split at routed
  · rename_i packed
    exact packed.2
  · cases routed

namespace Bodies

variable {bodies : Bodies σ ε} {span : Nat}

theorem follow_eq (tag : Tag) (state : σ) (p : Cursor) :
    (bodies.arms span).follow span tag state p =
      match route bodies.fields tag with
      | .native field => bodies.runNative span field state p
      | .packed field => do
        let ((state, _), p) ← bodies.runPacked span field state p
        .ok (state, p)
      | .skip => (bodies.arms span).skip span tag state p
      | .unknown => bodies.runUnknown span tag state p := by
  rw [Arms.follow]
  rfl

/-- The bodies of a message act record by record. -/
theorem byRecord : (bodies.arms span).ByRecord span bodies.step where
  onTag state failure := rfl
  onValue := by
    intro tag p failure state failed
    rw [follow_eq, step]
    cases routed : route bodies.fields tag with
    | native field =>
        simp only [runNative]
        cases (bodies.native field).before state with
        | ok state' =>
            rw [route_tag routed] at failed
            simp only [readValue_eq, failed, Outcome.ok_bind]
            rfl
        | fail error => rfl
        | outside => rfl
        | spin => rfl
    | packed field =>
        simp only [runPacked, readLengthDelimited_eq]
        simp only [payload, route_len routed] at failed
        cases got : lengthDelimited p with
        | ok pair => simp [got, leaf] at failed
        | error error =>
            simp only [got, leaf, Except.error.injEq] at failed
            rw [← failed]
            rfl
    | skip =>
        simp only [Arms.skip, skipValue_eq, failed]
        rfl
    | unknown =>
        simp only [runUnknown, skipValue_eq, failed]
        rfl
  onRecord := by
    intro tag p value q state got
    rw [follow_eq, step]
    cases routed : route bodies.fields tag with
    | native field =>
        simp only [runNative]
        cases (bodies.native field).before state with
        | ok state' =>
            rw [route_tag routed] at got
            simp only [readValue_eq, got, Outcome.ok_bind, Outcome.ofExcept_ok,
              Outcome.mapError_ok]
        | fail error => rfl
        | outside => rfl
        | spin => rfl
    | packed field =>
        simp only [runPacked, readLengthDelimited_eq]
        simp only [payload, route_len routed] at got
        cases read : lengthDelimited p with
        | error error => simp [read, leaf] at got
        | ok pair =>
            simp only [read, leaf, Except.ok.injEq, Prod.mk.injEq] at got
            obtain ⟨rfl, rfl⟩ := got
            simp only [located, Outcome.ofExcept_ok, Outcome.mapError_ok, Outcome.ok_bind,
              Payload.bytes]
            cases bodies.packed field state pair.1 <;> rfl
    | skip =>
        simp only [Arms.skip, skipValue_eq, got]
        rfl
    | unknown =>
        simp only [runUnknown, skipValue_eq, got]
        rfl
  stops := by
    intro state state' tag failure ended
    rw [step] at ended
    cases routed : route bodies.fields tag with
    | native field =>
        simp only [routed] at ended
        cases before : (bodies.native field).before state <;> rw [before] at ended <;> cases ended
    | packed field => simp only [routed] at ended; cases ended
    | skip => simp only [routed] at ended; cases ended
    | unknown => simp only [routed] at ended; cases ended

/-- The generated loop over a span is the fold of the step over its records. -/
theorem threadedLoop_eq_foldlM (state : σ) (p : Cursor) :
    (bodies.arms span).threadedLoop span state p =
      ((items span p).foldlM bodies.step state >>= fun state => .ok (state, [])) := by
  rw [Arms.threadedLoop_eq, byRecord.plainLoop_eq]

end Bodies

/-! ## Ends of bodies -/

/-- Every body ends on values whose bytes are `reached`, and what it reports is `bad`; wire failures
lie in a body of length `span`. -/
structure Bodies.EndsWell (bodies : Bodies σ ε) (span : Nat) (reached : List Byte → Prop)
    (bad : ε → Prop) : Prop where
  /-- Wire failures of the walked body. -/
  wire : ∀ state failure, failure.InBody span → bad (bodies.wire state failure)
  /-- What precedes a value. -/
  before : ∀ field state, ((bodies.native field).before state).Ends (fun _ => True) bad
  /-- The use of a value. -/
  after : ∀ field state value, reached value.bytes →
    ((bodies.native field).after state value).Ends (fun _ => True) bad
  /-- The use of a packed run. -/
  packed : ∀ field state run, reached run →
    (bodies.packed field state run).Ends (fun _ => True) bad
  /-- The default case. -/
  unknown : ∀ tag state raw, (bodies.unknown tag state raw).Ends (fun _ => True) bad

namespace Bodies.EndsWell

variable {bodies : Bodies σ ε} {span : Nat} {reached : List Byte → Prop} {bad : ε → Prop}

theorem step (well : bodies.EndsWell span reached bad) {item : Item} (located : item.InBody span)
    (reaches : ∀ tag value raw, item = .record tag value raw → reached value.bytes)
    (state : σ) : (bodies.step state item).Ends (fun _ => True) bad := by
  cases item with
  | badTag failure => exact well.wire state failure located
  | badValue tag failure =>
      simp only [Bodies.step]
      cases routed : route bodies.fields tag with
      | native field =>
          exact (well.before field state).bind fun next _ => well.wire next failure located
      | packed field => exact well.wire state failure located
      | skip => exact well.wire state failure located
      | unknown => exact well.wire _ failure located
  | record tag value raw =>
      have within := reaches tag value raw rfl
      simp only [Bodies.step]
      cases routed : route bodies.fields tag with
      | native field =>
          exact (well.before field state).bind fun next _ => well.after field next value within
      | packed field => exact (well.packed field state value.bytes within).bind fun _ _ => trivial
      | skip => trivial
      | unknown => exact well.unknown tag _ raw

/-- The fold over the records of a body ends. -/
theorem foldlM {body : Cursor} (well : bodies.EndsWell body.length reached bad)
    (reaches : ∀ tag value raw, Item.record tag value raw ∈ items body.length body →
      reached value.bytes) (state : σ) :
    ((items body.length body).foldlM bodies.step state).Ends (fun _ => True) bad := by
  refine Outcome.Ends.foldlM (fun item met state _ => ?_) trivial
  refine well.step (items_inBody le_rfl met) ?_ state
  rintro tag value raw rfl
  exact reaches tag value raw met

end Bodies.EndsWell

/-! ## Refinement of bodies -/

/-- The bodies `left` do what the bodies `right` do, on values that fit into `limit` bytes. -/
structure Bodies.Simulates {τ : Type} (left : Bodies σ ε) (right : Bodies τ ε)
    (related : σ → τ → Prop) (excuse : ε → Prop) (limit : Nat) : Prop where
  /-- Both switch on the same fields. -/
  fields : left.fields = right.fields
  /-- Wire failures are reported alike. -/
  wire : ∀ state state' failure, left.wire state failure = right.wire state' failure
  /-- Native bodies, with `between` holding while the value is read. -/
  native : ∀ field ∈ left.fields, field.dropped = false →
    ∃ between : σ → τ → Prop,
      (∀ state state', related state state' →
        Outcome.Refines between excuse ((left.native field).before state)
          ((right.native field).before state')) ∧
      ∀ state state' value, between state state' → value.wire = field.wire →
        value.bytes.length ≤ limit →
        Outcome.Refines related excuse ((left.native field).after state value)
          ((right.native field).after state' value)
  /-- Packed bodies. -/
  packed : ∀ field ∈ left.fields, field.packable = true → field.dropped = false →
    ∀ state state' run, related state state' → run.length ≤ limit →
      Outcome.Refines (fun result result' => related result.1 result'.1) excuse
        (left.packed field state run) (right.packed field state' run)
  /-- The default case. -/
  unknownBefore : ∀ state state', related state state' →
    related (left.unknownBefore state) (right.unknownBefore state')
  /-- The default case, after the skip. -/
  unknown : ∀ tag state state' raw, related state state' →
    Outcome.Refines related excuse (left.unknown tag state raw) (right.unknown tag state' raw)

theorem route_declared {fields : List Shape} {found : Tag} {field : Shape}
    (routed : route fields found = .native field ∨ route fields found = .packed field) :
    field.dropped = false := by
  rw [route] at routed
  cases search : findKey Shape.number found.fieldNumber fields with
  | none => simp [search] at routed
  | some other =>
      simp only [search] at routed
      split at routed
      · simp at routed
      rename_i kept
      split at routed
      · simp at routed
        simpa [← routed] using kept
      split at routed
      · simp at routed
        simpa [← routed] using kept
      · simp at routed

theorem route_packable {fields : List Shape} {found : Tag} {field : Shape}
    (routed : route fields found = .packed field) : field.packable = true := by
  rw [route] at routed
  split at routed
  · cases routed
  split at routed
  · cases routed
  split at routed
  · cases routed
  split at routed
  · rename_i packed
    cases routed
    exact packed.1
  · cases routed

namespace Bodies.Simulates

variable {τ : Type} {left : Bodies σ ε} {right : Bodies τ ε} {related : σ → τ → Prop}
  {excuse : ε → Prop} {limit : Nat}

theorem step (simulates : left.Simulates right related excuse limit) {item : Item}
    (fits : item.Fits limit) {state : σ} {state' : τ} (relates : related state state') :
    Outcome.Refines related excuse (left.step state item) (right.step state' item) := by
  cases item with
  | badTag failure =>
      simp only [Bodies.step, simulates.wire state state']
      exact Outcome.refines_fail _
  | badValue tag failure =>
      simp only [Bodies.step, ← simulates.fields]
      cases routed : route left.fields tag with
      | native field =>
          obtain ⟨between, before, -⟩ := simulates.native field (route_mem (.inl routed))
            (route_declared (.inl routed))
          refine (before state state' relates).bind fun next next' _ => ?_
          rw [simulates.wire next next']
          exact Outcome.refines_fail _
      | packed field =>
          simp only [simulates.wire state state']
          exact Outcome.refines_fail _
      | skip =>
          simp only [simulates.wire state state']
          exact Outcome.refines_fail _
      | unknown =>
          simp only [simulates.wire _ (right.unknownBefore state')]
          exact Outcome.refines_fail _
  | record tag value raw =>
      simp only [Bodies.step, ← simulates.fields]
      cases routed : route left.fields tag with
      | native field =>
          obtain ⟨between, before, after⟩ := simulates.native field (route_mem (.inl routed))
            (route_declared (.inl routed))
          have wire : value.wire = field.wire := by rw [fits.1, route_tag routed]
          exact (before state state' relates).bind fun next next' relates' =>
            after next next' value relates' wire fits.2
      | packed field =>
          exact (simulates.packed field (route_mem (.inr routed)) (route_packable routed)
            (route_declared (.inr routed)) state state' value.bytes relates fits.2).bind
            fun result result' relates' => Outcome.refines_ok relates'
      | skip => exact Outcome.refines_ok relates
      | unknown =>
          exact simulates.unknown tag _ _ raw (simulates.unknownBefore state state' relates)

/-- Related states stay related along the records of a body. -/
theorem foldlM (simulates : left.Simulates right related excuse limit) {span : Nat} {body : Cursor}
    (inside : body.length ≤ limit) {state : σ} {state' : τ} (relates : related state state') :
    Outcome.Refines related excuse ((items span body).foldlM left.step state)
      ((items span body).foldlM right.step state') :=
  Outcome.Refines.foldlM (fun _ met _ _ relates => simulates.step (items_fits inside met) relates)
    relates

end Bodies.Simulates

/-! ## Renaming of bodies -/

/-- The bodies `right` are the bodies `left` with states and errors renamed, for a walk whose
failures lie `count` bytes further on. -/
structure Bodies.Carries {τ ε' : Type} (left : Bodies σ ε) (right : Bodies τ ε') (change : σ → τ)
    (report : ε → ε') (count : Nat) : Prop where
  /-- Both switch on the same fields. -/
  fields : left.fields = right.fields
  /-- Wire failures of the walked body are shifted. -/
  wire : ∀ state failure, failure.inner = false →
    right.wire (change state) (failure.shift count) = report (left.wire state failure)
  /-- What precedes a value. -/
  before : ∀ field state,
    (right.native field).before (change state) =
      ((left.native field).before state).bimap change report
  /-- The use of a value. -/
  after : ∀ field state value,
    (right.native field).after (change state) value =
      ((left.native field).after state value).bimap change report
  /-- The use of a packed run. -/
  packed : ∀ field state run,
    right.packed field (change state) run =
      (left.packed field state run).bimap (fun result => (change result.1, result.2)) report
  /-- The default case. -/
  unknownBefore : ∀ state, right.unknownBefore (change state) = change (left.unknownBefore state)
  /-- The default case, after the skip. -/
  unknown : ∀ tag state raw,
    right.unknown tag (change state) raw = (left.unknown tag state raw).bimap change report

namespace Bodies.Carries

variable {τ ε' : Type} {left : Bodies σ ε} {right : Bodies τ ε'} {change : σ → τ}
  {report : ε → ε'} {count : Nat}

theorem step (carries : left.Carries right change report count) {item : Item} {span : Nat}
    (located : item.InBody span) (state : σ) :
    right.step (change state) (item.shift count) =
      (left.step state item).bimap change report := by
  cases item with
  | badTag failure =>
      simp only [Item.shift, Bodies.step, carries.wire state failure located.2.2,
        Outcome.bimap_fail]
  | badValue tag failure =>
      have wire := fun state => carries.wire state failure located.2.2
      simp only [Item.shift, Bodies.step, ← carries.fields]
      cases routed : route left.fields tag with
      | native field =>
          simp only [carries.before]
          refine Outcome.bind_bimap fun next => ?_
          rw [wire]
          rfl
      | packed field => simp only [wire, Outcome.bimap_fail]
      | skip => simp only [wire, Outcome.bimap_fail]
      | unknown => simp only [carries.unknownBefore, wire, Outcome.bimap_fail]
  | record tag value raw =>
      simp only [Item.shift, Bodies.step, ← carries.fields]
      cases routed : route left.fields tag with
      | native field =>
          simp only [carries.before]
          exact Outcome.bind_bimap fun next => carries.after field next value
      | packed field =>
          simp only [carries.packed]
          exact Outcome.bind_bimap fun result => rfl
      | skip => rfl
      | unknown => simp only [carries.unknownBefore, carries.unknown]

/-- The records of a body that has `count` more bytes in front. -/
theorem foldlM (carries : left.Carries right change report count) (body : Cursor) (state : σ) :
    (items (body.length + count) body).foldlM right.step (change state) =
      ((items body.length body).foldlM left.step state).bimap change report := by
  rw [items_add]
  exact Outcome.foldlM_bimap (fun item met state => carries.step (items_inBody le_rfl met) state)
    state

end Bodies.Carries

/-! ## Concatenated bodies -/

namespace Bodies

variable {bodies : Bodies σ ε}

/-- A successful step is a step over a whole record. -/
theorem isRecord_of_step {state state' : σ} {item : Item}
    (stepped : bodies.step state item = .ok state') : item.isRecord = true := by
  cases item with
  | badTag failure => cases stepped
  | badValue tag failure =>
      exact absurd stepped ((@byRecord _ _ _ 0).stops state state' tag failure)
  | record tag value raw => rfl

theorem isRecord_of_foldlM {inputs : List Item} {state state' : σ}
    (ran : inputs.foldlM bodies.step state = .ok state') {item : Item} (met : item ∈ inputs) :
    item.isRecord = true := by
  induction inputs generalizing state with
  | nil => cases met
  | cons first inputs ih =>
      rw [List.foldlM_cons] at ran
      obtain ⟨middle, stepped, ran⟩ := Outcome.bind_eq_ok.mp ran
      rcases List.mem_cons.mp met with rfl | later
      · exact isRecord_of_step stepped
      · exact ih ran later

/-- Behind a body that is read to its end, the fold goes on with what follows. -/
theorem foldlM_append {x y : Cursor} {state state' : σ}
    (ran : (items x.length x).foldlM bodies.step state = .ok state') :
    (items (x ++ y).length (x ++ y)).foldlM bodies.step state =
      (items (y.length + x.length) y).foldlM bodies.step state' := by
  rw [items_append x.length (x ++ y).length x y fun item met => isRecord_of_foldlM ran met,
    List.foldlM_append, ran, List.length_append, Nat.add_comm]
  rfl

end Bodies
end RapidProto
