import RapidProto.Tree.Cell

/-!
# Reading stored trees

The behaviour of a cell under each view, in terms of the behaviours of its parts.
-/

namespace RapidProto

section Look

variable (schema : Schema) (plan : Plan)

/-- What the result of an accessor call tells its reader. -/
def seenAs (result : View × Cell) : Behaviour := result.2.behaviour schema plan result.1

theorem look_cons {view : View} (typed : view ≠ .garbage) (cell : Cell) (step : Step)
    (path : List Step) :
    look schema plan (step :: path) view cell =
      match enter schema plan view cell step with
      | some result => seenAs schema plan result path
      | none => .invalid := by
  rw [look]
  · cases enter schema plan view cell step <;> rfl
  · exact typed

variable {schema plan} {cell : Cell}

theorem behaviour_garbage : cell.behaviour schema plan .garbage = Behaviour.garbage := by
  funext path
  cases path <;> rfl

theorem behaviour_absent : cell.behaviour schema plan .absent = Behaviour.absent := by
  funext path
  cases path <;> rfl

theorem behaviour_known (value : Value) :
    cell.behaviour schema plan (.known value) = Behaviour.leaf value := by
  funext path
  cases path <;> rfl

theorem behaviour_leaf (kind : Leaf) :
    cell.behaviour schema plan (.leaf kind) = Behaviour.leaf (cell.read kind) := by
  funext path
  cases path <;> rfl

theorem behaviour_member (index : Nat) (held : View) :
    cell.behaviour schema plan (.member index held) =
      Behaviour.member index (cell.behaviour schema plan held) := by
  funext path
  match path with
  | [] => rfl
  | step :: path =>
      rw [Cell.behaviour, look_cons schema plan (by nofun)]
      cases step <;> rfl

/-- An array is seen as the list of its elements. -/
theorem behaviour_list (element : View) (cells : List Cell) :
    (Cell.array cells).behaviour schema plan (.list element) =
      Behaviour.list (cells.map (Cell.behaviour schema plan element)) := by
  funext path
  match path with
  | [] => simp [Cell.behaviour, look, View.describe, Cell.elements, Behaviour.list]
  | step :: path =>
      rw [Cell.behaviour, look_cons schema plan (by nofun)]
      cases step with
      | elem index =>
          simp only [enter, Cell.elements, Behaviour.list, List.getElem?_map]
          cases cells[index]? <;> rfl
      | _ => rfl

theorem behaviour_entry (id : MessageId) (map : MapField) :
    cell.behaviour schema plan (.entry id map) =
      Behaviour.entry (.leaf (cell.entryKey.read (.scalar map.key)))
        (seenAs schema plan (entryValueAccessor plan id map cell)) := by
  funext path
  match path with
  | [] => rfl
  | step :: path =>
      rw [Cell.behaviour, look_cons schema plan (by nofun)]
      cases step with
      | key =>
          simp only [enter, seenAs, behaviour_leaf]
          rfl
      | _ => rfl

/-- An array of entries is seen as a map. -/
theorem behaviour_entries (id : MessageId) (map : MapField) (cells : List Cell) :
    (Cell.array cells).behaviour schema plan (.entries id map) =
      Behaviour.map (cells.map (Cell.behaviour schema plan (.entry id map))) := by
  funext path
  match path with
  | [] => simp [Cell.behaviour, look, View.describe, Cell.elements, Behaviour.map]
  | step :: path =>
      rw [Cell.behaviour, look_cons schema plan (by nofun)]
      cases step with
      | elem index =>
          simp only [enter, Cell.elements, Behaviour.map, List.getElem?_map]
          cases cells[index]? <;> rfl
      | find key =>
          have hits : (fun content : Cell => decide
              (content.behaviour schema plan (.entry id map) [.key] = Answer.value key)) =
              fun content => decide (content.entryKey.read (.scalar map.key) = key) := by
            funext content
            simp [behaviour_entry, Behaviour.entry, Behaviour.leaf]
          simp only [enter, Cell.elements, Behaviour.map, List.filter_map, Function.comp_def, hits,
            List.getLast?_map]
          cases (cells.filter fun content =>
            content.entryKey.read (.scalar map.key) = key).getLast? with
          | none => exact congrFun behaviour_absent path
          | some content => rfl
      | _ => rfl

end Look
end RapidProto
