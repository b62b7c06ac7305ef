import RapidProto.Layout.Modes

/-!
# The symbol table of a file set

`resolve_types` registers every message and enum of a file set under its full name and refuses a
second declaration of a name.  A name therefore leads to one declaration, and a message, which is
declared once, has one name.
-/

namespace RapidProto

/-- A message declaration, with the message it defines and what is declared inside. -/
inductive MessageNode where
  | mk (name : Name) (id : MessageId) (nested : List MessageNode) (enums : List Name)

/-- The declarations of one file. -/
structure Declarations where
  /-- The package; empty without one. -/
  package : Name := []
  /-- Top-level messages. -/
  messages : List MessageNode := []
  /-- Top-level enums. -/
  enums : List Name := []

/-- What a name is registered as. -/
inductive Symbol where
  | message (id : MessageId)
  | enum
  deriving DecidableEq

/-- The message of a symbol. -/
def Symbol.message? : Symbol → Option MessageId
  | message id => some id
  | enum => none

/-- A name inside a scope. -/
def qualify (scope name : Name) : Name := scope ++ '.' :: name

mutual

/-- `collect_message`, on names as `assign_message_fqn` gives them: what is registered, in order. -/
def MessageNode.collect (scope : Name) : MessageNode → List (Name × Symbol)
  | .mk name id nested enums =>
    (qualify scope name, .message id) ::
      (collectAll (qualify scope name) nested ++
        enums.map fun enum => (qualify (qualify scope name) enum, .enum))

/-- The same for all messages of a scope. -/
def collectAll (scope : Name) : List MessageNode → List (Name × Symbol)
  | [] => []
  | message :: rest => message.collect scope ++ collectAll scope rest

end

/-- What `collect_symbols` registers for a file. -/
def Declarations.collect (file : Declarations) : List (Name × Symbol) :=
  let scope := if file.package = [] then [] else '.' :: file.package
  collectAll scope file.messages ++ file.enums.map fun enum => (qualify scope enum, .enum)

/-- `record`: a name is registered once. -/
def TypeResolver.record (table : List (Name × Symbol)) (entry : Name × Symbol) :
    Except String (List (Name × Symbol)) :=
  if entry.1 ∈ table.map Prod.fst then
    .error ("duplicate type name '" ++ nameText entry.1 ++ "'")
  else .ok (table ++ [entry])

/-- `collect_symbols`. -/
def collectSymbols (files : List Declarations) : Except String (List (Name × Symbol)) :=
  (files.flatMap Declarations.collect).foldlM TypeResolver.record []

/-! ## The walk over all messages -/

mutual

/-- The number of messages declared by a message. -/
def MessageNode.size : MessageNode → Nat
  | .mk _ _ nested _ => 1 + sizeAll nested

/-- The number of messages declared by some messages. -/
def sizeAll : List MessageNode → Nat
  | [] => 0
  | message :: rest => message.size + sizeAll rest

end

/-- The loop of `for_each_message` on its stack, top first. -/
def drain : (turns : Nat) → (stack : List MessageNode) → List MessageId
  | 0, _ | _ + 1, [] => []
  | turns + 1, .mk _ id nested _ :: stack => id :: drain turns (nested.reverse ++ stack)

/-- `for_each_message`, with one turn for each message. -/
def forEachMessage (files : List Declarations) : List MessageId :=
  files.flatMap fun file => drain (sizeAll file.messages) file.messages.reverse

theorem sizeAll_append (first second : List MessageNode) :
    sizeAll (first ++ second) = sizeAll first + sizeAll second := by
  induction first with
  | nil => simp [sizeAll]
  | cons message first ih => simp [sizeAll, ih, Nat.add_assoc]

theorem sizeAll_reverse (nodes : List MessageNode) : sizeAll nodes.reverse = sizeAll nodes := by
  induction nodes with
  | nil => rfl
  | cons message nodes ih => simp [sizeAll_append, sizeAll, ih, Nat.add_comm]

/-- What is registered for a list of messages is registered for one of them. -/
theorem mem_collectAll {scope : Name} {nodes : List MessageNode} {entry : Name × Symbol} :
    entry ∈ collectAll scope nodes ↔ ∃ message ∈ nodes, entry ∈ message.collect scope := by
  induction nodes with
  | nil => simp [collectAll]
  | cons message nodes ih => simp [collectAll, ih]

/-- The walk visits every message that is registered, and those inside it. -/
theorem mem_drain {turns : Nat} {stack : List MessageNode} (enough : sizeAll stack ≤ turns)
    {message : MessageNode} (waiting : message ∈ stack) {scope fqn : Name} {id : MessageId}
    (registered : (fqn, .message id) ∈ message.collect scope) : id ∈ drain turns stack := by
  induction turns generalizing stack message scope with
  | zero =>
      cases stack with
      | nil => cases waiting
      | cons first stack =>
          obtain ⟨name, own, nested, enums⟩ := first
          simp [sizeAll, MessageNode.size] at enough
  | succ turns ih =>
      cases stack with
      | nil => cases waiting
      | cons first stack =>
          obtain ⟨name, own, nested, enums⟩ := first
          have fits : sizeAll (nested.reverse ++ stack) ≤ turns := by
            rw [sizeAll_append, sizeAll_reverse]
            simp only [sizeAll, MessageNode.size] at enough
            omega
          rw [drain]
          rcases List.mem_cons.mp waiting with rfl | later
          · simp only [MessageNode.collect, List.mem_cons, List.mem_append, List.mem_map,
              Prod.mk.injEq, Symbol.message.injEq, reduceCtorEq, and_false, exists_false,
              or_false] at registered
            rcases registered with ⟨-, rfl⟩ | inside
            · exact List.mem_cons_self
            · obtain ⟨inner, listed, within⟩ := mem_collectAll.mp inside
              exact List.mem_cons_of_mem _ (ih fits (by simp [listed]) within)
          · exact List.mem_cons_of_mem _ (ih fits (by simp [later]) registered)

theorem mem_forEachMessage {files : List Declarations} {fqn : Name} {id : MessageId}
    (registered : (fqn, .message id) ∈ files.flatMap Declarations.collect) :
    id ∈ forEachMessage files := by
  obtain ⟨file, listed, inside⟩ := List.mem_flatMap.mp registered
  refine List.mem_flatMap.mpr ⟨file, listed, ?_⟩
  simp only [Declarations.collect, List.mem_append, List.mem_map, Prod.mk.injEq, reduceCtorEq,
    and_false, exists_false, or_false] at inside
  obtain ⟨message, top, within⟩ := mem_collectAll.mp inside
  exact mem_drain (by rw [sizeAll_reverse]) (by simpa using top) within

/-! ## The table -/

/-- A table that is collected registers everything once. -/
theorem collect_ok {entries table final : List (Name × Symbol)}
    (nodup : (table.map Prod.fst).Nodup)
    (collected : entries.foldlM TypeResolver.record table = .ok final) :
    final = table ++ entries ∧ (final.map Prod.fst).Nodup := by
  induction entries generalizing table with
  | nil =>
      cases collected
      exact ⟨by simp, nodup⟩
  | cons entry entries ih =>
      rw [List.foldlM_cons] at collected
      by_cases known : entry.1 ∈ table.map Prod.fst
      · rw [TypeResolver.record, if_pos known] at collected
        cases collected
      · rw [TypeResolver.record, if_neg known] at collected
        have distinct : ((table ++ [entry]).map Prod.fst).Nodup := by
          rw [List.map_append]
          exact List.Nodup.append nodup (List.nodup_singleton _) (by simpa using known)
        obtain ⟨whole, once⟩ := ih distinct collected
        exact ⟨by rw [whole, List.append_assoc]; rfl, once⟩

/-- A resolved file set. -/
structure FileSet (schema : Schema) where
  /-- The declarations, file by file. -/
  files : List Declarations
  /-- The registered names. -/
  table : List (Name × Symbol)
  /-- No name is declared twice. -/
  collected : collectSymbols files = .ok table
  /-- A declaration defines a message of its own. -/
  nodes : ((files.flatMap Declarations.collect).filterMap fun entry => entry.2.message?).Nodup
  /-- The name of a field or map. -/
  fieldName : MessageId → Nat → Name
  /-- The resolved type of a field or the resolved value type of a map; empty for a scalar. -/
  resolvedType : MessageId → Nat → Name
  /-- A field whose resolved type is a message is message-typed. -/
  typed : ∀ id, ∀ field ∈ (schema.get id).fields, ∀ target,
    (resolvedType id field.number, .message target) ∈ table →
      ∃ target delimited, field.type = .message target delimited

namespace FileSet

variable {schema : Schema} (set : FileSet schema)

/-- What a name is registered as. -/
def symbol? (fqn : Name) : Option Symbol := (findKey Prod.fst fqn set.table).map Prod.snd

theorem symbol?_mem {fqn : Name} {symbol : Symbol} (found : set.symbol? fqn = some symbol) :
    (fqn, symbol) ∈ set.table := by
  obtain ⟨⟨name, symbol⟩, entry, rfl⟩ := Option.map_eq_some_iff.mp found
  obtain ⟨listed, rfl⟩ := mem_of_findKey entry
  exact listed

theorem message_mem {fqn : Name} {id : MessageId}
    (found : (set.symbol? fqn).bind Symbol.message? = some id) : (fqn, .message id) ∈ set.table := by
  obtain ⟨symbol, registered, own⟩ := Option.bind_eq_some_iff.mp found
  cases symbol with
  | message id' =>
      cases own
      exact set.symbol?_mem registered
  | enum => cases own

/-- The table as the resolution of profiles reads it. -/
def symbols : SymbolTable schema where
  messages fqn := (set.symbol? fqn).bind Symbol.message?
  enums fqn := set.symbol? fqn = some .enum
  fieldName := set.fieldName
  resolvedType := set.resolvedType
  typed id field listed known := by
    obtain ⟨target, found⟩ := Option.isSome_iff_exists.mp known
    exact set.typed id field listed target (set.message_mem found)

theorem table_eq : set.table = set.files.flatMap Declarations.collect :=
  (collect_ok (by simp) set.collected).1

end FileSet

/-- Entries with the same image under a partial map without repetitions are the same. -/
theorem eq_of_filterMap_nodup {α β : Type} {image : α → Option β} {entries : List α}
    (nodup : (entries.filterMap image).Nodup) {first second : α} {value : β}
    (listed : first ∈ entries) (listed' : second ∈ entries) (own : image first = some value)
    (own' : image second = some value) : first = second := by
  induction entries with
  | nil => cases listed
  | cons entry entries ih =>
      rw [List.filterMap_cons] at nodup
      cases given : image entry with
      | none =>
          rw [given] at nodup
          have apart : ∀ {other}, image other = some value → other ∈ entry :: entries →
              other ∈ entries := by
            intro other own listed
            rcases List.mem_cons.mp listed with rfl | later
            · rw [given] at own
              cases own
            · exact later
          exact ih nodup (apart own listed) (apart own' listed')
      | some head =>
          rw [given, List.nodup_cons] at nodup
          have fresh : ∀ {other}, other ∈ entries → image other ≠ some head := by
            intro other later same
            exact nodup.1 (List.mem_filterMap.mpr ⟨other, later, same⟩)
          rcases List.mem_cons.mp listed with rfl | later <;>
            rcases List.mem_cons.mp listed' with rfl | later'
          · rfl
          · exact absurd (own'.trans (own.symm.trans given)) (fresh later')
          · exact absurd (own.trans (own'.symm.trans given)) (fresh later)
          · exact ih nodup.2 later later'

end RapidProto
