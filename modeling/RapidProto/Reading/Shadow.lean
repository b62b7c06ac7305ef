import RapidProto.Reading.Alike

/-!
# A narrower profile accepts more

The reading under a profile that drops fields or keeps them as bytes follows the full reading step
by step: its history holds the same numbers, less the dropped ones.  It therefore succeeds whenever
the full reading does, and under the same profile the two fail together.
-/

namespace RapidProto

section Shadow

variable (schema : Schema) (reading reading' : Reading)

/-- Only the second reading drops the field.  Members of a oneof are never dropped. -/
def hidden (id : MessageId) (number : Nat) : Bool :=
  match (schema.get id).member? number with
  | some (.choice _ _ _) => false
  | _ => reading'.mode id number = .drop && !decide (reading.mode id number = .drop)

/-- The second history has the numbers of the first, less the hidden ones. -/
def Shadows (id : MessageId) (history history' : History) : Prop :=
  history'.map Prod.fst =
    (history.map Prod.fst).filter fun number => !hidden schema reading reading' id number

/-- The second progress shadows the first. -/
def Progress.Shadows (id : MessageId) (progress progress' : Progress) : Prop :=
  RapidProto.Shadows schema reading reading' id progress.history progress'.history ∧
    progress'.unknown = progress.unknown

end Shadow

variable {schema : Schema} {reading reading' : Reading} {id : MessageId}
  {history history' more more' : History}

theorem Shadows.append (shadows : Shadows schema reading reading' id history history')
    (rest : Shadows schema reading reading' id more more') :
    Shadows schema reading reading' id (history ++ more) (history' ++ more') := by
  rw [Shadows, List.map_append, List.map_append, List.filter_append]
  exact congrArg₂ _ shadows rest

theorem occurrences_nil_iff {number : Nat} :
    history.occurrences number = [] ↔ number ∉ history.map Prod.fst := by
  rw [occurrences_eq_nil]
  simp

/-- A field that is not hidden occurs on both sides or on neither. -/
theorem Shadows.occurrences (shadows : Shadows schema reading reading' id history history')
    {number : Nat} (seen : hidden schema reading reading' id number = false) :
    history.occurrences number = [] ↔ history'.occurrences number = [] := by
  rw [occurrences_nil_iff, occurrences_nil_iff, show history'.map Prod.fst = _ from shadows]
  simp [seen]

theorem Message.current_index_eq (message : Message) (oneof : Nat) (history : History) :
    (message.current oneof history).map Prod.fst =
      ((history.map Prod.fst).filterMap (message.choiceIndex oneof)).getLast? := by
  rw [Message.current, ← List.getLast?_map, List.map_filterMap, List.filterMap_map]
  congr 2
  funext event
  simp [Function.comp_def]

/-- Both sides report the same member of a oneof. -/
theorem Shadows.reportedIndex (narrows : reading.Narrows reading')
    (shadows : Shadows schema reading reading' id history history') (oneof : Nat) :
    RapidProto.reportedIndex reading (schema.get id) oneof history =
      RapidProto.reportedIndex reading' (schema.get id) oneof history' := by
  have same : ((schema.get id).current oneof history).map Prod.fst =
      ((schema.get id).current oneof history').map Prod.fst := by
    rw [Message.current_index_eq, Message.current_index_eq,
      show history'.map Prod.fst = _ from shadows, List.filterMap_filter]
    congr 2
    funext number
    cases chosen : (schema.get id).choiceIndex oneof number with
    | none => simp
    | some index =>
        have visible : hidden schema reading reading' id number = false := by
          rw [Message.choiceIndex] at chosen
          rw [hidden]
          cases found : (schema.get id).member? number with
          | none =>
              rw [found] at chosen
              cases chosen
          | some member =>
              rw [found] at chosen
              cases member with
              | choice owner position field => rfl
              | plain field => cases chosen
              | mapped map => cases chosen
        simp [visible]
  rw [RapidProto.reportedIndex, RapidProto.reportedIndex, narrows.narrow]
  cases left : (schema.get id).current oneof history with
  | none =>
      cases right : (schema.get id).current oneof history' with
      | none => rfl
      | some pair =>
          rw [left, right] at same
          cases same
  | some pair =>
      cases right : (schema.get id).current oneof history' with
      | none =>
          rw [left, right] at same
          cases same
      | some pair' =>
          rw [left, right] at same
          simp only [Option.map_some, Option.some.injEq] at same
          simp only [same]

/-! ## Dropped members -/

theorem Member.packable_shape (member : Member) (mode mode' : Nat → FieldMode) :
    (member.shape mode).packable = (member.shape mode').packable := by
  cases member <;> rfl

/-- What the first reading drops, the second drops too. -/
theorem Reading.Narrows.dropped (narrows : reading.Narrows reading') {member : Member}
    (dropped : (member.shape (reading.mode id)).dropped = true) :
    (member.shape (reading'.mode id)).dropped = true := by
  have modes : ∀ number, reading.mode id number = .drop → reading'.mode id number = .drop := by
    intro number drop
    rcases narrows.mode id number with same | eager
    · rw [← same, drop]
    · rw [drop] at eager
      cases eager
  cases member with
  | plain field => simpa [Member.shape] using modes field.number (by simpa [Member.shape] using dropped)
  | mapped map => simpa [Member.shape] using modes map.number (by simpa [Member.shape] using dropped)
  | choice oneof index field => cases dropped

theorem hidden_eq {member : Member} (declared : member ∈ (schema.get id).members) :
    hidden schema reading reading' id member.number =
      ((member.shape (reading'.mode id)).dropped && !(member.shape (reading.mode id)).dropped) := by
  rw [hidden, Message.member?_number declared]
  cases member <;> rfl

/-- A member that only the second reading drops tells their modes apart. -/
theorem mode_differs {member : Member}
    (dropped : (member.shape (reading'.mode id)).dropped = true)
    (kept : (member.shape (reading.mode id)).dropped = false) :
    reading.mode id member.number ≠ reading'.mode id member.number := by
  cases member with
  | plain field =>
      simp only [Member.shape, decide_eq_true_eq, decide_eq_false_iff_not] at dropped kept
      simpa [Member.number, dropped] using kept
  | mapped map =>
      simp only [Member.shape, decide_eq_true_eq, decide_eq_false_iff_not] at dropped kept
      simpa [Member.number, dropped] using kept
  | choice oneof index field => cases dropped

/-! ## One record -/

section Step

variable {sub sub' : MessageId → List Byte → Outcome DecodeError Behaviour}
  {excuse : DecodeError → Prop}

/-- The second reading follows the first; the first may fail on its own where the profiles differ.
-/
structure Follows (reading reading' : Reading) (excuse : DecodeError → Prop)
    (sub sub' : MessageId → List Byte → Outcome DecodeError Behaviour) : Prop where
  narrows : reading.Narrows reading'
  excused : reading.SameProfile reading' ∨ ∀ error, excuse error
  subs : ∀ target bytes,
    Outcome.Refines (fun _ _ => True) excuse (sub target bytes) (sub' target bytes)

theorem Follows.of_differs (follows : Follows reading reading' excuse sub sub') {number : Nat}
    (differs : reading.mode id number ≠ reading'.mode id number) (error : DecodeError) :
    excuse error := by
  rcases follows.excused with same | all
  · exact absurd (by rw [same.mode]) differs
  · exact all error

/-- A computation whose failures are excused refines one that succeeds. -/
theorem refines_of_excused {α β γ : Type} {related : α → β → Prop} {related' : α → γ → Prop}
    {left : Outcome DecodeError α} {right : Outcome DecodeError β}
    (refines : Outcome.Refines related excuse left right) (all : ∀ error, excuse error) {value : γ}
    (relates : ∀ found, left = .ok found → related' found value) :
    Outcome.Refines related' excuse left (.ok value) := by
  cases left with
  | ok found => exact ⟨value, rfl, relates found rfl⟩
  | fail error => exact .inr (all error)
  | outside => exact refines.elim
  | spin => exact refines.elim

/-- The entry loops differ only in how they decode a message value. -/
theorem entryBodies_simulates (follows : Follows reading reading' excuse sub sub') (map : MapField)
    (limit : Nat) :
    (entryBodies sub map).Simulates (entryBodies sub' map)
      (fun entry entry' => entry.value.isSome = entry'.value.isSome) excuse limit where
  fields := rfl
  wire _ _ _ := rfl
  native shape _ _ := by
    refine ⟨fun entry entry' => entry.value.isSome = entry'.value.isSome, ?_, ?_⟩
    · intro entry entry' same
      simp only [entryBodies]
      split_ifs
      · exact Outcome.refines_ok same
      · split
        · exact Outcome.refines_ok same
        · dsimp only
          rw [same]
          split_ifs
          · exact Outcome.refines_fail _
          · exact Outcome.refines_ok same
    · intro entry entry' value same _ _
      simp only [entryBodies]
      split_ifs
      · exact Outcome.refines_ok same
      · split
        · exact Outcome.refines_ok rfl
        · exact (follows.subs _ _).bind fun _ _ _ => Outcome.refines_ok rfl
  packed _ _ _ _ _ _ _ same _ := Outcome.refines_ok same
  unknownBefore _ _ same := same
  unknown _ _ _ _ same := Outcome.refines_ok same

/-- A value of a member that decodes in the first reading decodes in the second. -/
theorem occurrence_refines (follows : Follows reading reading' excuse sub sub') (member : Member)
    (value : Payload) :
    Outcome.Refines (fun _ _ => True) excuse (member.occurrence reading sub id value)
      (member.occurrence reading' sub' id value) := by
  cases member with
  | plain field =>
      simp only [Member.occurrence]
      cases field.type with
      | leaf kind => exact Outcome.refines_ok trivial
      | message target delimited =>
          dsimp only
          rcases follows.narrows.mode id field.number with same | eager
          · rw [same]
            split_ifs
            · exact Outcome.refines_ok trivial
            · exact follows.subs target value.bytes
          · rw [eager, if_neg (by simp)]
            split_ifs with raw
            · exact refines_of_excused (follows.subs target value.bytes)
                (follows.of_differs (by rw [eager, raw]; simp)) fun _ _ => trivial
            · exact follows.subs target value.bytes
  | mapped map =>
      exact ((entryBodies_simulates follows map value.bytes.length).foldlM le_rfl rfl).bind
        fun _ _ _ => Outcome.refines_ok trivial
  | choice oneof index field =>
      simp only [Member.occurrence]
      cases field.type with
      | leaf kind => exact Outcome.refines_ok trivial
      | message target delimited => exact follows.subs target value.bytes

theorem shadows_nil : Shadows schema reading reading' id [] [] := rfl

theorem shadows_of_hidden {number : Nat} (unseen : hidden schema reading reading' id number = true)
    (own : ∀ event ∈ history, event.1 = number) :
    Shadows schema reading reading' id history [] := by
  rw [Shadows, List.map_nil, eq_comm, List.filter_eq_nil_iff]
  intro found listed
  obtain ⟨event, met, rfl⟩ := List.mem_map.mp listed
  simp [own event met, unseen]

theorem shadows_of_seen {number : Nat} (seen : hidden schema reading reading' id number = false)
    (same : history'.map Prod.fst = history.map Prod.fst)
    (own : ∀ event ∈ history, event.1 = number) :
    Shadows schema reading reading' id history history' := by
  rw [Shadows, same, eq_comm, List.filter_eq_self]
  intro found listed
  obtain ⟨event, met, rfl⟩ := List.mem_map.mp listed
  simp [own event met, seen]

/-- An item that the first reading takes is taken by the second, which deposits the same numbers
unless it drops them. -/
theorem deposit_refines (follows : Follows reading reading' excuse sub sub') (item : Item) :
    Outcome.Refines (fun deposited deposited' =>
        Shadows schema reading reading' id deposited.1 deposited'.1 ∧ deposited'.2 = deposited.2)
      excuse (deposit schema reading sub id item) (deposit schema reading' sub' id item) := by
  cases item with
  | badTag failure => exact Outcome.refines_fail _
  | badValue tag failure => exact Outcome.refines_fail _
  | record tag value raw =>
      have nothing : Outcome.Refines (fun deposited deposited' : History × Bool =>
          Shadows schema reading reading' id deposited.1 deposited'.1 ∧
            deposited'.2 = deposited.2) excuse (.ok ([], false)) (.ok ([], false)) :=
        Outcome.refines_ok ⟨shadows_nil, rfl⟩
      simp only [deposit, route_shapes]
      cases found : (schema.get id).member? tag.fieldNumber with
      | none => exact Outcome.refines_ok ⟨shadows_nil, rfl⟩
      | some member =>
          obtain ⟨declared, -⟩ := Message.mem_of_member? found
          have found' := Message.member?_number declared
          have occurs := @occurrence_refines _ _ id _ _ _ follows member value
          have unseen := @hidden_eq schema reading reading' id member declared
          simp only [member.packable_shape (reading'.mode id) (reading.mode id)]
          cases kept : (member.shape (reading.mode id)).dropped with
          | true =>
              simp only [follows.narrows.dropped kept, if_true]
              exact nothing
          | false =>
              rw [kept] at unseen
              cases kept' : (member.shape (reading'.mode id)).dropped with
              | true =>
                  rw [kept'] at unseen
                  have all := follows.of_differs (mode_differs kept' kept)
                  simp only [Bool.false_eq_true, if_false, if_true]
                  split_ifs
                  · simp only [Member.shape_number, found']
                    have taken : Outcome.Refines (fun _ (_ : Unit) => True) excuse
                        (member.occurrence reading sub id value >>= fun behaviour =>
                          .ok ([(member.number, behaviour)], false))
                        (member.occurrence reading' sub' id value >>= fun _ => .ok ()) :=
                      occurs.bind fun _ _ _ => Outcome.refines_ok trivial
                    refine refines_of_excused taken all ?_
                    intro deposited put
                    obtain ⟨behaviour, -, same⟩ := Outcome.bind_eq_ok.mp put
                    cases same
                    exact ⟨shadows_of_hidden unseen (by simp), rfl⟩
                  · simp only [Member.shape_number, found']
                    split
                    · split
                      · exact .inr (all _)
                      · exact Outcome.refines_ok ⟨shadows_of_hidden unseen (by simp), rfl⟩
                    · exact nothing
                  · exact nothing
              | false =>
                  rw [kept'] at unseen
                  simp only [Bool.false_eq_true, if_false]
                  split_ifs
                  · simp only [Member.shape_number, found']
                    exact occurs.bind fun _ _ _ =>
                      Outcome.refines_ok ⟨shadows_of_seen unseen rfl (by simp), rfl⟩
                  · simp only [Member.shape_number, found']
                    split
                    · split
                      · exact Outcome.refines_fail _
                      · exact Outcome.refines_ok ⟨shadows_of_seen unseen rfl (by simp), rfl⟩
                    · exact nothing
                  · exact nothing

/-- A record that the first reading rejects is rejected by the second, unless it drops it. -/
theorem refusal_refines (follows : Follows reading reading' excuse sub sub')
    (shadows : Shadows schema reading reading' id history history') (item : Item) :
    Outcome.Refines (fun _ _ => True) excuse (refusal schema reading id history item)
      (refusal schema reading' id history' item) := by
  simp only [refusal]
  cases item.tag? with
  | none => exact Outcome.refines_ok trivial
  | some tag =>
      simp only [Option.map_some, route_shapes]
      cases found : (schema.get id).member? tag.fieldNumber with
      | none => exact Outcome.refines_ok trivial
      | some member =>
          obtain ⟨declared, -⟩ := Message.mem_of_member? found
          have found' := Message.member?_number declared
          have unseen := @hidden_eq schema reading reading' id member declared
          simp only [member.packable_shape (reading'.mode id) (reading.mode id)]
          cases kept : (member.shape (reading.mode id)).dropped with
          | true =>
              simp only [follows.narrows.dropped kept, if_true]
              exact Outcome.refines_ok trivial
          | false =>
              rw [kept] at unseen
              cases kept' : (member.shape (reading'.mode id)).dropped with
              | true =>
                  have all := follows.of_differs (mode_differs kept' kept)
                  simp only [Bool.false_eq_true, if_false, if_true]
                  split_ifs
                  · simp only [Member.shape_number, found']
                    split_ifs
                    · exact .inr (all _)
                    · exact Outcome.refines_ok trivial
                  · exact Outcome.refines_ok trivial
                  · exact Outcome.refines_ok trivial
              | false =>
                  rw [kept'] at unseen
                  have same : member.refused schema reading id history =
                      member.refused schema reading' id history' := by
                    cases member with
                    | plain field =>
                        have occurs := shadows.occurrences unseen
                        simp only [Member.refused, Member.number] at occurs ⊢
                        simp only [ne_eq, occurs]
                    | mapped map => rfl
                    | choice oneof index field =>
                        simp only [Member.refused, shadows.reportedIndex follows.narrows]
                  simp only [Bool.false_eq_true, if_false]
                  split_ifs
                  · simp only [Member.shape_number, found', same]
                    split_ifs
                    · exact Outcome.refines_fail _
                    · exact Outcome.refines_ok trivial
                  · exact Outcome.refines_ok trivial
                  · exact Outcome.refines_ok trivial

/-- The readings go through a body in step. -/
theorem fold_refines (follows : Follows reading reading' excuse sub sub') (body : List Byte) :
    Outcome.Refines (Progress.Shadows schema reading reading' id) excuse
      ((referenceBodies schema reading sub id).fold body {})
      ((referenceBodies schema reading' sub' id).fold body {}) := by
  refine Outcome.Refines.foldlM (fun item _ progress progress' shadows => ?_) ⟨rfl, rfl⟩
  rw [reference_step_eq, reference_step_eq]
  refine (refusal_refines follows shadows.1 item).bind fun _ _ _ => ?_
  refine (deposit_refines follows item).bind fun deposited deposited' put => ?_
  refine Outcome.refines_ok ⟨shadows.1.append put.1, ?_⟩
  simp only [Progress.add, shadows.2, put.2]

end Step

/-! ## Whole messages -/

/-- The second reading drops no required field that the first keeps. -/
def KeepsRequired (schema : Schema) (reading reading' : Reading) : Prop :=
  ∀ id, ∀ field ∈ (schema.get id).fields, field.presence = .required →
    reading'.mode id field.number = .drop → reading.mode id field.number = .drop

theorem Reading.SameProfile.keepsRequired (same : reading.SameProfile reading') :
    KeepsRequired schema reading reading' := by
  intro id field _ _ drop
  rw [same.mode, drop]

theorem Shadows.firstMissing (keeps : KeepsRequired schema reading reading')
    (shadows : Shadows schema reading reading' id history history') :
    RapidProto.firstMissing (schema.get id) history =
      RapidProto.firstMissing (schema.get id) history' := by
  rw [RapidProto.firstMissing, RapidProto.firstMissing]
  congr 1
  refine List.find?_congr fun field declared => ?_
  rw [decide_eq_decide]
  refine and_congr_right fun required => shadows.occurrences ?_
  have unseen := @hidden_eq schema reading reading' id _ (Message.plain_mem.mpr declared)
  rw [Member.number] at unseen
  rw [unseen]
  by_cases drop : reading'.mode id field.number = .drop
  · simp [Member.shape, drop, keeps id field declared required drop]
  · simp [Member.shape, drop]

/-- A body that the first reading accepts is accepted by the second; under one profile they fail
alike. -/
theorem meaning_follows {excuse : DecodeError → Prop} (narrows : reading.Narrows reading')
    (keeps : KeepsRequired schema reading reading')
    (excused : reading.SameProfile reading' ∨ ∀ error, excuse error) {frames depth : Nat}
    (budget : frames + depth = kMaxDecodeDepth + 2) (entered : depth ≤ kMaxDecodeDepth + 1)
    (id : MessageId) (body : List Byte) :
    Outcome.Refines (fun _ _ => True) excuse (meaning schema reading frames depth id body)
      (meaning schema reading' frames depth id body) := by
  induction frames generalizing depth id body with
  | zero => omega
  | succ frames ih =>
      rw [meaning, meaning]
      by_cases deep : kMaxDecodeDepth < depth
      · rw [if_pos deep, if_pos deep]
        exact Outcome.refines_fail _
      rw [if_neg deep, if_neg deep]
      have follows : Follows reading reading' excuse (meaning schema reading frames (depth + 1))
          (meaning schema reading' frames (depth + 1)) :=
        ⟨narrows, excused, fun target bytes => ih (by omega) (by omega) target bytes⟩
      refine (fold_refines follows body).bind fun progress progress' shadows => ?_
      rw [shadows.1.firstMissing keeps]
      split
      · exact Outcome.refines_fail _
      · exact Outcome.refines_ok trivial

end RapidProto
