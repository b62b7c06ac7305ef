import RapidProto.Schema

/-!
# What a decoded tree tells its reader

A tree is known only through its accessors.  A `Behaviour` gives the answer at the end of every path
of accessor calls, so two trees with the same behaviour cannot be told apart, however they are
stored.  The behaviour of a message is determined by the history of its field occurrences: singular
fields answer with the last one, repeated fields and maps with all of them in order, a oneof with
its last member.
-/

namespace RapidProto

/-- One accessor call. -/
inductive Step where
  /-- The accessor of a plain field or map. -/
  | field (number : Nat)
  /-- The reader of a oneof. -/
  | oneof (index : Nat)
  /-- The unknown-fields accessor. -/
  | unknownFields
  /-- An element of a repeated field, or an entry of a map. -/
  | elem (index : Nat)
  /-- The entry a map's `find` returns. -/
  | find (key : Value)
  /-- The key of a map entry. -/
  | key
  /-- The value of a map entry. -/
  | value
  /-- The value a oneof's reader hands over. -/
  | held
  deriving DecidableEq, Repr

/-- What an accessor path leads to. -/
inductive Answer where
  /-- The path is not one of accessor calls. -/
  | invalid
  /-- Nothing is there: an empty optional, a null pointer, the end iterator. -/
  | absent
  /-- A scalar. -/
  | value (value : Value)
  /-- A message. -/
  | message
  /-- A repeated field or map of the given size. -/
  | size (count : Nat)
  /-- A map entry. -/
  | entry
  /-- A oneof whose reader reports the given member, zero for the unset state. -/
  | member (index : Nat)
  /-- Storage read as a type it was not written as. -/
  | garbage
  deriving DecidableEq, Repr

/-- The answer at the end of every accessor path. -/
abbrev Behaviour := List Step → Answer

namespace Behaviour

/-- Nothing. -/
def absent : Behaviour
  | [] => .absent
  | _ :: _ => .invalid

/-- A scalar. -/
def leaf (value : Value) : Behaviour
  | [] => .value value
  | _ :: _ => .invalid

/-- A list of elements. -/
def list (elements : List Behaviour) : Behaviour
  | [] => .size elements.length
  | .elem index :: path =>
    match elements[index]? with
    | some element => element path
    | none => .invalid
  | _ :: _ => .invalid

/-- A map; `find` scans all entries and keeps the last hit. -/
def map (entries : List Behaviour) : Behaviour
  | [] => .size entries.length
  | .elem index :: path =>
    match entries[index]? with
    | some entry => entry path
    | none => .invalid
  | .find key :: path =>
    match (entries.filter fun entry => entry [.key] = .value key).getLast? with
    | some entry => entry path
    | none => absent path
  | _ :: _ => .invalid

/-- A map entry. -/
def entry (key value : Behaviour) : Behaviour
  | [] => .entry
  | .key :: path => key path
  | .value :: path => value path
  | _ :: _ => .invalid

/-- A oneof that reports a member. -/
def member (index : Nat) (held : Behaviour) : Behaviour
  | [] => .member index
  | .held :: path => held path
  | _ :: _ => .invalid

/-- Storage of the wrong type. -/
def garbage : Behaviour := fun _ => .garbage

end Behaviour

/-- The occurrences of a message's fields in wire order, each with what it decoded to. -/
abbrev History := List (Nat × Behaviour)

namespace History

/-- The occurrences of one field. -/
def occurrences (number : Nat) (history : History) : List Behaviour :=
  (history.filter fun event => event.1 = number).map Prod.snd

@[simp] theorem occurrences_nil (number : Nat) : occurrences number [] = [] := rfl

theorem occurrences_append (number : Nat) (first second : History) :
    occurrences number (first ++ second) =
      occurrences number first ++ occurrences number second := by
  simp [occurrences]

theorem occurrences_single (number other : Nat) (behaviour : Behaviour) :
    occurrences number [(other, behaviour)] = if other = number then [behaviour] else [] := by
  by_cases same : other = number <;> simp [occurrences, same]

end History

/-- The position of a field number in a oneof, from one. -/
def Message.choiceIndex (message : Message) (oneof number : Nat) : Option Nat :=
  match message.member? number with
  | some (.choice owner index _) => if owner = oneof then some index else none
  | _ => none

/-- The member of a oneof that occurred last. -/
def Message.current (message : Message) (oneof : Nat) (history : History) :
    Option (Nat × Behaviour) :=
  (history.filterMap fun event =>
    (message.choiceIndex oneof event.1).map fun index => (index, event.2)).getLast?

/-- What a singular field reads as when it never occurred. -/
def Field.unset (field : Field) : Behaviour :=
  match field.type, field.presence with
  | .leaf kind, .implicit | .leaf kind, .required => .leaf kind.zero
  | _, _ => .absent

/-- A plain field, from the behaviours of its occurrences. -/
def Field.behaviour (field : Field) (occurrences : List Behaviour) : Behaviour :=
  if field.isRepeated then .list occurrences
  else occurrences.getLast?.getD field.unset

/-- A oneof, from its current member.  `narrow` is what storing a member index keeps of it. -/
def choiceBehaviour (narrow : Nat → Nat) : Option (Nat × Behaviour) → Behaviour
  | none => .member 0 .absent
  | some (index, held) =>
    if narrow index = index then .member index held
    else if narrow index = 0 then .member 0 .absent
    else .member (narrow index) .garbage

/-- The behaviour of a message with the given history.  A dropped field has no accessor; `unknown`
is the answer of the unknown-fields accessor, where there is one. -/
def Message.behaviour (message : Message) (mode : Nat → FieldMode) (narrow : Nat → Nat)
    (history : History) (unknown : Option Bool) : Behaviour
  | [] => .message
  | .field number :: path =>
    if mode number = .drop then .invalid
    else
      match message.member? number with
      | some (.plain field) => field.behaviour (history.occurrences number) path
      | some (.mapped _) => Behaviour.map (history.occurrences number) path
      | _ => .invalid
  | .oneof index :: path =>
    if index < message.oneofs.length then
      choiceBehaviour narrow (message.current index history) path
    else .invalid
  | .unknownFields :: path =>
    match unknown with
    | some seen => Behaviour.leaf (.flag seen) path
    | none => .invalid
  | _ :: _ => .invalid

end RapidProto
