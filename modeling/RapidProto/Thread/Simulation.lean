import RapidProto.Thread.Loop

/-!
# The threaded loop is the plain loop

A label stands for the middle of a plain turn: the tag has been read, the body has not run.
`resume` makes that reading precise, and every jump of the threaded loop preserves it, because a
hub byte or a probe only ever matches the bytes from which `read_tag_or_end` reads the same tag.
-/

namespace RapidProto

variable {σ ε : Type}

/-! ## Tags and the bytes that spell them -/

theorem threaded_iff {field : Shape} :
    field.threaded = true ↔ field.labelled = true ∧ field.dropped = false ∧ field.wire ≠ .sgroup ∧
      1 ≤ field.number ∧
      field.number ≤ if field.repeated then kMaxOneByteTagField else kMaxTwoByteTagField := by
  simp [Shape.threaded]

theorem threaded_le {field : Shape} (threaded : field.threaded = true) :
    field.number ≤ kMaxTwoByteTagField := by
  have bound := (threaded_iff.mp threaded).2.2.2.2
  split at bound
  · exact le_trans bound (by decide)
  · exact bound

theorem mem_threadedFields {fields : List Shape} {field : Shape} :
    field ∈ threadedFields fields ↔ field ∈ fields ∧ field.threaded = true := by
  rw [threadedFields, List.mem_insertionSort, List.mem_filter]

theorem mem_of_mem_successors {threaded : List Shape} {field other : Shape}
    (next : other ∈ successors threaded field) : other ∈ threaded := by
  have later := List.mem_of_mem_tail (List.mem_of_mem_filter (List.mem_of_mem_take next))
  exact (List.dropWhile_sublist _).subset later

/-- The field is declared and has a label. -/
def Labelled (fields : List Shape) (field : Shape) : Prop :=
  field ∈ fields ∧ field.threaded = true

theorem route_native {fields : List Shape} (distinct : (fields.map Shape.number).Nodup)
    {field : Shape} (labelled : Labelled fields field) :
    route fields ⟨field.number, field.wire⟩ = .native field := by
  rw [route, findKey_of_mem distinct labelled.1]
  simp [(threaded_iff.mp labelled.2).2.1]

theorem route_packed {fields : List Shape} (distinct : (fields.map Shape.number).Nodup)
    {field : Shape} (labelled : Labelled fields field) (packable : field.packable = true) :
    route fields ⟨field.number, .len⟩ = .packed field := by
  have notLen : field.wire ≠ .len := by
    intro same
    simp [Shape.packable, isPackableWire, same] at packable
  rw [route, findKey_of_mem distinct labelled.1]
  simp [(threaded_iff.mp labelled.2).2.1, notLen.symm, packable]

theorem route_mem {fields : List Shape} {found : Tag} {field : Shape}
    (routed : route fields found = .native field ∨ route fields found = .packed field) :
    field ∈ fields := by
  rw [route] at routed
  cases search : findKey Shape.number found.fieldNumber fields with
  | none => simp [search] at routed
  | some other =>
      have declared := (mem_of_findKey search).1
      simp only [search] at routed
      split at routed
      · simp at routed
      split at routed
      · simp at routed
        exact routed ▸ declared
      split at routed
      · simp at routed
        exact routed ▸ declared
      · simp at routed

/-- The tag a hub byte spells, together with the label the hub sends it to. -/
theorem hub_spells {fields : List Shape} {b : Byte} {label : Label}
    (found : hub (threadedFields fields) b = some label) (rest : Cursor) :
    ∃ field, Labelled fields field ∧
      ((label = .native field ∧ tag (b :: rest) = .ok (⟨field.number, field.wire⟩, rest)) ∨
        (label = .packed field ∧ field.packable = true ∧
          tag (b :: rest) = .ok (⟨field.number, .len⟩, rest))) := by
  obtain ⟨field, threaded, spelled⟩ := List.exists_of_findSome?_eq_some found
  have labelled := mem_threadedFields.mp threaded
  have positive := (threaded_iff.mp labelled.2).2.2.2.1
  rw [hubCase] at spelled
  split at spelled
  · cases spelled
  rename_i small
  rw [Nat.not_lt, kMaxOneByteTagField] at small
  split at spelled
  · rename_i value
    cases spelled
    exact ⟨field, labelled, .inl ⟨rfl, tag_of_byte value positive small rest⟩⟩
  split at spelled
  · rename_i value
    cases spelled
    exact ⟨field, labelled, .inr ⟨rfl, value.1, tag_of_byte value.2 positive small rest⟩⟩
  · cases spelled

/-- The two bytes of a probe spell the tag. -/
theorem tag_of_probe_bytes {b0 b1 : Byte} {field : Nat} {wire : WireType}
    (low : b0.toNat = (rawTag field wire &&& 0x7F) ||| 0x80)
    (high : b1.toNat = rawTag field wire >>> 7) (positive : 0 < field)
    (range : field ≤ kMaxTwoByteTagField) (rest : Cursor) :
    tag (b0 :: b1 :: rest) = .ok (⟨field, wire⟩, rest) := by
  have code := wire.code_lt
  have raw := rawTag_eq field wire
  rw [kMaxTwoByteTagField] at range
  have masked : rawTag field wire &&& 0x7F = rawTag field wire % 128 :=
    Nat.and_two_pow_sub_one_eq_mod _ 7
  have b0Is : b0.toNat = 128 + rawTag field wire % 128 := by
    rw [low, masked, Nat.or_comm]
    exact (Nat.two_pow_add_eq_or_of_lt (i := 7) (Nat.mod_lt _ (by decide)) 1).symm
  have b1Is : b1.toNat = rawTag field wire / 128 := by
    rw [high, Nat.shiftRight_eq_div_pow]
  refine tag_of_two_bytes ?_ (terminates_iff.mpr (by omega)) ?_ positive range rest
  · rw [Bool.eq_false_iff, Ne, terminates_iff]
    omega
  · rw [b0Is, b1Is, show (0x7F : Nat) = 2 ^ 7 - 1 from rfl, Nat.and_two_pow_sub_one_eq_mod,
      show (128 + rawTag field wire % 128) % 2 ^ 7 = rawTag field wire % 128 by omega, Nat.or_comm,
      Nat.shiftLeft_eq, Nat.mul_comm, ← Nat.two_pow_add_eq_or_of_lt (Nat.mod_lt _ (by decide))]
    omega

/-- A probe stays in the span, and a hit is a tag read. -/
theorem probeOne_ends {field : Shape} (threaded : field.threaded = true) (c : Cursor) :
    (probeOne field c : Outcome ε (Option Cursor)).Ends
      (fun hit => ∀ c', hit = some c' → tag c = .ok (⟨field.number, field.wire⟩, c'))
      (fun _ => False) := by
  have positive := (threaded_iff.mp threaded).2.2.2.1
  have range := threaded_le threaded
  rw [probeOne]
  split
  · rename_i small
    cases c with
    | nil => exact nofun
    | cons b rest =>
        simp only [List.length_cons, Nat.zero_lt_succ, if_true, peek_cons_zero, Outcome.ok_bind]
        split
        · rename_i value
          simp only [advance_cons_one, Outcome.map_eq, Outcome.ok_bind]
          rintro c' ⟨⟩
          exact tag_of_byte value positive small rest
        · exact nofun
  · match c with
    | [] => exact nofun
    | [_] => exact nofun
    | b0 :: b1 :: rest =>
        simp only [List.length_cons, peek_cons_zero, peek_cons_succ, Outcome.ok_bind]
        rw [if_pos (by omega)]
        split
        · rename_i value
          simp only [advance, List.length_cons, Nat.le_add_left, if_true, Outcome.map_eq,
            Outcome.ok_bind]
          rintro c' ⟨⟩
          exact tag_of_probe_bytes value.1 value.2 positive range rest
        · exact nofun

namespace Arms

variable {arms : Arms σ ε} {span : Nat}

theorem skip_lt {tag : Tag} {state state' : σ} {p q : Cursor}
    (skipped : arms.skip span tag state p = .ok (state', q)) : q.length < p.length := by
  rw [skip, skipValue_eq] at skipped
  cases got : payload span tag p with
  | error failure => rw [got] at skipped; cases skipped
  | ok pair =>
      rw [got] at skipped
      cases skipped
      exact payload_length_lt got

theorem follow_lt {tag : Tag} {state state' : σ} {p q : Cursor}
    (followed : arms.follow span tag state p = .ok (state', q)) : q.length < p.length := by
  rw [follow] at followed
  split at followed
  · exact arms.native_lt followed
  · obtain ⟨⟨⟨state'', flag⟩, q'⟩, ran, rfl, rfl⟩ := Outcome.bind_eq_ok.mp followed
    exact arms.packed_lt ran
  · exact skip_lt followed
  · exact arms.unknown_lt followed

/-- The three ways a tag read of the loop can end. -/
theorem readTag_cases (state : σ) (p : Cursor) :
    (p = [] ∧ arms.readTag span state p = .ok none) ∨
      (∃ error, tag p = .error error ∧ 0 < p.length ∧
        arms.readTag span state p = .fail (arms.wire state (failAt span p error))) ∨
      ∃ found q, tag p = .ok (found, q) ∧ arms.readTag span state p = .ok (some (found, q)) := by
  rw [readTag, readTagOrEnd_eq]
  cases p with
  | nil => exact .inl ⟨rfl, rfl⟩
  | cons b p =>
      cases got : tag (b :: p) with
      | error error =>
          refine .inr (.inl ⟨error, rfl, by simp, ?_⟩)
          rw [tagOrEnd, got]
          rfl
      | ok pair =>
          refine .inr (.inr ⟨pair.1, pair.2, rfl, ?_⟩)
          rw [tagOrEnd, got]
          rfl

theorem readTag_of_tag {found : Tag} {p q : Cursor} (read : tag p = .ok (found, q)) (state : σ) :
    arms.readTag span state p = .ok (some (found, q)) := by
  rcases readTag_cases state p with ⟨rfl, -⟩ | ⟨error, failed, -⟩ |
    ⟨found', q', read', result⟩
  · cases read
  · rw [read] at failed; cases failed
  · rw [read] at read'
    cases read'
    exact result

theorem plainTurn_consuming : Consuming (arms.plainTurn span) := by
  intro state p state' p' taken
  rw [plainTurn] at taken
  rcases readTag_cases state p with ⟨-, result⟩ | ⟨_, _, _, result⟩ |
    ⟨found, q, read, result⟩
  · rw [result] at taken; cases taken
  · rw [result] at taken; cases taken
  · rw [result, Outcome.ok_bind] at taken
    obtain ⟨⟨state'', q'⟩, followed, eq⟩ := Outcome.bind_eq_ok.mp taken
    cases eq
    exact (follow_lt followed).trans (tag_takes read).length_lt

/-- The plain loop from a cursor at a well-formed tag. -/
theorem plainLoop_of_tag {found : Tag} {p q : Cursor} (read : tag p = .ok (found, q)) (state : σ) :
    arms.plainLoop span state p =
      (arms.follow span found state q >>= fun next => arms.plainLoop span next.1 next.2) := by
  rw [plainLoop, runLoop_eq plainTurn_consuming, plainTurn, readTag_of_tag read, Outcome.ok_bind]
  simp only []
  cases arms.follow span found state q <;> rfl

/-- What remains to be done at a program point, in terms of the plain loop. -/
def resume (arms : Arms σ ε) (span : Nat) (point : Label × σ) (p : Cursor) :
    Outcome ε (σ × Cursor) :=
  match point.1 with
  | .top => arms.plainLoop span point.2 p
  | .native field => arms.native field point.2 p >>= fun next => arms.plainLoop span next.1 next.2
  | .packed field =>
    arms.packed field point.2 p >>= fun next => arms.plainLoop span next.1.1 next.2

/-- The labels the generated code has. -/
def Exists (arms : Arms σ ε) : Label → Prop
  | .top => True
  | .native field => Labelled arms.fields field
  | .packed field => Labelled arms.fields field

/-- A jump keeps what remains to be done and never moves the cursor back. -/
structure Jumps (arms : Arms σ ε) (span : Nat) (point : Label × σ) (q : Cursor) (state : σ)
    (p : Cursor) : Prop where
  /-- The target is one of the labels. -/
  exist : arms.Exists point.1
  /-- The cursor has not moved back. -/
  shorter : q.length ≤ p.length
  /-- The same work remains. -/
  same : arms.resume span point q = arms.plainLoop span state p

theorem jumps_native {field : Shape} (labelled : Labelled arms.fields field) {p q : Cursor}
    (read : tag p = .ok (⟨field.number, field.wire⟩, q)) (state : σ) :
    Jumps arms span (.native field, state) q state p where
  exist := labelled
  shorter := (tag_takes read).length_lt.le
  same := by
    rw [plainLoop_of_tag read, follow, route_native arms.distinct labelled]
    rfl

theorem jumps_packed {field : Shape} (labelled : Labelled arms.fields field)
    (packable : field.packable = true) {p q : Cursor}
    (read : tag p = .ok (⟨field.number, .len⟩, q)) (state : σ) :
    Jumps arms span (.packed field, state) q state p where
  exist := labelled
  shorter := (tag_takes read).length_lt.le
  same := by
    rw [plainLoop_of_tag read, follow, route_packed arms.distinct labelled packable]
    simp only [resume]
    cases arms.packed field state q <;> rfl

/-- The probes jump to a label or to the top of the loop. -/
theorem probe_jumps {candidates : List Shape}
    (labelled : ∀ field ∈ candidates, Labelled arms.fields field) (state : σ) (p : Cursor) :
    ∃ point q, (probe state p candidates : Outcome ε _) = .ok (.next point q) ∧
      Jumps arms span point q state p := by
  induction candidates with
  | nil => exact ⟨(.top, state), p, rfl, trivial, le_rfl, rfl⟩
  | cons field fields ih =>
      have here := labelled field (by simp)
      have ends := probeOne_ends (ε := ε) here.2 p
      rw [probe]
      cases probed : (probeOne field p : Outcome ε _) with
      | ok hit =>
          rw [probed] at ends
          rw [Outcome.ok_bind]
          cases hit with
          | some q => exact ⟨_, _, rfl, jumps_native here (ends q rfl) state⟩
          | none => exact ih fun other later => labelled other (by simp [later])
      | fail error => rw [probed] at ends; exact ends.elim
      | outside => rw [probed] at ends; exact ends.elim
      | spin => rw [probed] at ends; exact ends.elim

theorem successors_labelled (field : Shape) :
    ∀ other ∈ successors (threadedFields arms.fields) field, Labelled arms.fields other :=
  fun _ next => mem_threadedFields.mp (mem_of_mem_successors next)

/-- What one turn of the threaded loop may do: stop or fail as the plain loop does, or move on to a
point from which the same work remains. -/
def TurnSimulates (arms : Arms σ ε) (span : Nat) (point : Label × σ) (p : Cursor)
    (outcome : Outcome ε (Turn Byte (Label × σ) (σ × Cursor))) : Prop :=
  match outcome with
  | .ok (.stop result) => arms.resume span point p = .ok result
  | .ok (.next point' q) => arms.Exists point'.1 ∧ q.length < p.length ∧
      arms.resume span point' q = arms.resume span point p
  | .fail error => arms.resume span point p = .fail error
  | .outside => arms.resume span point p = .outside
  | .spin => arms.resume span point p = .spin

/-- A body run in place, before the loop goes back to its top. -/
theorem body_simulates {state : σ} {p q : Cursor} {body : Outcome ε (σ × Cursor)}
    (plain : arms.plainLoop span state p =
      (body >>= fun next => arms.plainLoop span next.1 next.2))
    (shrinks : ∀ next, body = .ok next → next.2.length < q.length) (shorter : q.length < p.length) :
    TurnSimulates arms span (.top, state) p
      (body >>= fun next => .ok (.next (.top, next.1) next.2)) := by
  cases ran : body with
  | ok next =>
      rw [ran] at plain
      exact ⟨trivial, (shrinks next ran).trans shorter, plain.symm⟩
  | fail error => rw [ran] at plain; exact plain
  | outside => rw [ran] at plain; exact plain
  | spin => rw [ran] at plain; exact plain

theorem general_simulates (state : σ) (p : Cursor) :
    TurnSimulates arms span (.top, state) p (arms.general span state p) := by
  have unfolded : arms.resume span (.top, state) p = arms.plainLoop span state p := rfl
  rw [general]
  rcases readTag_cases state p with ⟨rfl, result⟩ |
    ⟨error, failed, nonempty, result⟩ | ⟨found, q, read, result⟩
  · rw [result, Outcome.ok_bind, TurnSimulates, unfolded, plainLoop, runLoop_eq plainTurn_consuming,
      plainTurn, result]
    rfl
  · rw [result, Outcome.fail_bind, TurnSimulates, unfolded, plainLoop,
      runLoop_eq plainTurn_consuming, plainTurn, result]
    rfl
  · have shorter := (tag_takes read).length_lt
    have plain := @plainLoop_of_tag _ _ arms span _ _ _ read state
    rw [result, Outcome.ok_bind]
    simp only []
    rw [follow] at plain
    cases routed : route arms.fields found with
    | native field =>
        simp only [routed] at plain
        simp only []
        split
        · rename_i threaded
          exact ⟨⟨route_mem (.inl routed), threaded⟩, shorter, plain.symm⟩
        · exact body_simulates plain (fun next ran => arms.native_lt ran) shorter
    | packed field =>
        simp only [routed] at plain
        simp only []
        split
        · rename_i threaded
          refine ⟨⟨route_mem (.inr routed), threaded⟩, shorter, ?_⟩
          rw [unfolded, plain]
          simp only [resume]
          cases arms.packed field state q <;> rfl
        · have body := body_simulates (q := q) plain (fun next ran => by
            obtain ⟨result, filled, same⟩ := Outcome.bind_eq_ok.mp ran
            cases same
            exact arms.packed_lt filled) shorter
          cases ran : arms.packed field state q <;> rw [ran] at body <;> exact body
    | skip =>
        simp only [routed] at plain
        exact body_simulates plain (fun next ran => skip_lt ran) shorter
    | unknown =>
        simp only [routed] at plain
        exact body_simulates plain (fun next ran => arms.unknown_lt ran) shorter

theorem topTurn_simulates (state : σ) (p : Cursor) :
    TurnSimulates arms span (.top, state) p (arms.topTurn span state p) := by
  rw [topTurn]
  split
  · exact general_simulates state p
  split
  · rename_i empty
    have general := @general_simulates _ _ arms span state p
    rw [Arms.general, List.eq_nil_of_length_eq_zero empty] at general
    rw [List.eq_nil_of_length_eq_zero empty]
    exact general
  · rename_i nonempty
    obtain ⟨b, rest, rfl⟩ : ∃ b rest, p = b :: rest :=
      List.exists_cons_of_length_pos (Nat.pos_of_ne_zero nonempty)
    rw [peek_cons_zero, Outcome.ok_bind]
    cases found : hub (threadedFields arms.fields) b with
    | none => exact general_simulates state (b :: rest)
    | some label =>
        simp only [advance_cons_one, Outcome.ok_bind]
        obtain ⟨field, labelled, ⟨rfl, read⟩ | ⟨rfl, packable, read⟩⟩ := hub_spells found rest
        · have jump := @jumps_native _ _ _ span _ labelled _ _ read state
          exact ⟨jump.exist, by simp, jump.same⟩
        · have jump := @jumps_packed _ _ _ span _ labelled packable _ _ read state
          exact ⟨jump.exist, by simp, jump.same⟩

theorem nativeTurn_simulates {field : Shape} (labelled : Labelled arms.fields field) (state : σ)
    (p : Cursor) :
    TurnSimulates arms span (.native field, state) p (arms.nativeTurn field state p) := by
  have unfolded : arms.resume span (.native field, state) p =
      (arms.native field state p >>= fun next => arms.plainLoop span next.1 next.2) := rfl
  rw [nativeTurn]
  cases ran : arms.native field state p with
  | fail error => rw [ran] at unfolded; exact unfolded
  | outside => rw [ran] at unfolded; exact unfolded
  | spin => rw [ran] at unfolded; exact unfolded
  | ok next =>
      obtain ⟨state', q⟩ := next
      have shorter := arms.native_lt ran
      have candidates : ∀ other ∈ (if field.repeated then
          field :: successors (threadedFields arms.fields) field
          else successors (threadedFields arms.fields) field), Labelled arms.fields other := by
        intro other next
        split at next
        · rcases List.mem_cons.mp next with rfl | next
          · exact labelled
          · exact successors_labelled field other next
        · exact successors_labelled field other next
      obtain ⟨point, q', probed, jump⟩ := probe_jumps candidates state' q
      rw [ran] at unfolded
      simp only [Outcome.ok_bind, probed]
      exact ⟨jump.exist, jump.shorter.trans_lt shorter, jump.same.trans unfolded.symm⟩

theorem packedTurn_simulates {field : Shape} (state : σ) (p : Cursor) :
    TurnSimulates arms span (.packed field, state) p (arms.packedTurn field state p) := by
  have unfolded : arms.resume span (.packed field, state) p =
      (arms.packed field state p >>= fun next => arms.plainLoop span next.1.1 next.2) := rfl
  rw [packedTurn]
  cases ran : arms.packed field state p with
  | fail error => rw [ran] at unfolded; exact unfolded
  | outside => rw [ran] at unfolded; exact unfolded
  | spin => rw [ran] at unfolded; exact unfolded
  | ok next =>
      obtain ⟨⟨state', continues⟩, q⟩ := next
      have shorter := arms.packed_lt ran
      obtain ⟨point, q', probed, jump⟩ := probe_jumps
        (@successors_labelled _ _ arms field) state' q
      rw [ran] at unfolded
      simp only [Outcome.ok_bind]
      cases continues with
      | true => exact ⟨trivial, shorter, unfolded.symm⟩
      | false =>
          simp only [Bool.false_eq_true, if_false, probed]
          exact ⟨jump.exist, jump.shorter.trans_lt shorter, jump.same.trans unfolded.symm⟩

theorem threadedTurn_simulates {point : Label × σ} (exist : arms.Exists point.1) (p : Cursor) :
    TurnSimulates arms span point p (arms.threadedTurn span point p) := by
  obtain ⟨label, state⟩ := point
  cases label with
  | top => exact topTurn_simulates state p
  | native field => exact nativeTurn_simulates exist state p
  | packed field => exact packedTurn_simulates state p

/-- Every turn of the threaded loop, jumps between labels included, consumes at least one byte. -/
theorem threadedTurn_lt {point point' : Label × σ} (exist : arms.Exists point.1) {p q : Cursor}
    (taken : arms.threadedTurn span point p = .ok (.next point' q)) :
    arms.Exists point'.1 ∧ q.length < p.length := by
  have simulates := @threadedTurn_simulates _ _ _ span _ exist p
  rw [taken] at simulates
  exact ⟨simulates.1, simulates.2.1⟩

/-- The run lemma: from any label, the threaded loop does what remains of the plain loop. -/
theorem drive_threadedTurn {turns : Nat} {point : Label × σ} {p : Cursor} (enough : p.length < turns)
    (exist : arms.Exists point.1) :
    drive (arms.threadedTurn span) turns point p = arms.resume span point p := by
  induction turns generalizing point p with
  | zero => omega
  | succ turns ih =>
      have simulates := @threadedTurn_simulates _ _ _ span _ exist p
      rw [drive]
      cases taken : arms.threadedTurn span point p with
      | ok decision =>
          rw [taken] at simulates
          cases decision with
          | stop result => exact simulates.symm
          | next point' q =>
              obtain ⟨exist', shorter, same⟩ := simulates
              exact (ih (by omega) exist').trans same
      | fail error => rw [taken] at simulates; exact simulates.symm
      | outside => rw [taken] at simulates; exact simulates.symm
      | spin => rw [taken] at simulates; exact simulates.symm

theorem threadedLoop_eq (state : σ) (p : Cursor) :
    arms.threadedLoop span state p = arms.plainLoop span state p :=
  drive_threadedTurn (Nat.lt_succ_self _) trivial

end Arms

/-! ## The steps of a run -/

/-- One body run: the field, the wire type it was entered on, and the bytes of the value. -/
structure BodyRun where
  /-- Field number. -/
  number : Nat
  /-- Wire type. -/
  wire : WireType
  /-- The value as it stands in the input. -/
  value : List Byte
  deriving DecidableEq, Repr

/-- Append a run to the log in front of a result; a failure keeps the log. -/
def logged {α : Type} (log : List BodyRun) (number : Nat) (wire : WireType) (p : Cursor)
    (outcome : Outcome ε (α × Cursor)) : Outcome (List BodyRun × ε) ((List BodyRun × α) × Cursor) :=
  match outcome with
  | .ok (result, q) => .ok ((log ++ [⟨number, wire, p.take (p.length - q.length)⟩], result), q)
  | .fail error => .fail (log, error)
  | .outside => .outside
  | .spin => .spin

theorem logged_ok {α : Type} {log : List BodyRun} {number : Nat} {wire : WireType} {p q : Cursor}
    {outcome : Outcome ε (α × Cursor)} {result : List BodyRun × α}
    (ran : logged log number wire p outcome = .ok (result, q)) : outcome = .ok (result.2, q) := by
  cases outcome with
  | ok pair => cases ran; rfl
  | fail error => cases ran
  | outside => cases ran
  | spin => cases ran

/-- The same bodies, keeping a log of the runs. -/
def Arms.traced (arms : Arms σ ε) : Arms (List BodyRun × σ) (List BodyRun × ε) where
  fields := arms.fields
  distinct := arms.distinct
  wire state failure := (state.1, arms.wire state.2 failure)
  native field state p := logged state.1 field.number field.wire p (arms.native field state.2 p)
  packed field state p := do
    let ((log, state, continues), q) ←
      logged state.1 field.number .len p (arms.packed field state.2 p)
    .ok (((log, state), continues), q)
  unknown tag state p :=
    logged state.1 tag.fieldNumber tag.wireType p (arms.unknown tag state.2 p)
  native_lt ran := arms.native_lt (logged_ok ran)
  packed_lt ran := by
    obtain ⟨_, filled, same⟩ := Outcome.bind_eq_ok.mp ran
    cases same
    exact arms.packed_lt (logged_ok filled)
  unknown_lt ran := arms.unknown_lt (logged_ok ran)

/-- The threaded loop runs the same bodies on the same values in the same order as the plain loop,
and ends with the same state at the same cursor or with the same error at the same offset. -/
theorem threadedLoop_eq_plainLoop (arms : Arms σ ε) (state : σ) (body : Cursor) :
    arms.threadedLoop body.length state body = arms.plainLoop body.length state body ∧
      arms.traced.threadedLoop body.length ([], state) body =
        arms.traced.plainLoop body.length ([], state) body :=
  ⟨Arms.threadedLoop_eq state body, Arms.threadedLoop_eq ([], state) body⟩

end RapidProto
