import Mathlib.Data.List.Nodup
import RapidProto.Front.Names
import RapidProto.Front.Types
import RapidProto.Front.Features
import RapidProto.Registry

/-!
# Declared types

The messages and enums of a file under their qualified names, and what the symbol table holds after
they have been collected: each declared type, and no name twice.  Collection fails with the first
type whose name is taken.
-/

namespace RapidProto
namespace Front

/-! ## The types of a file -/

/-- The enums of one list. -/
def enumTypes (scope : Text) (enums : List EnumNode) : List (Text × SymbolKind) :=
  enums.map fun node => (qualify scope node.name, .enum)

mutual

/-- The types a message declares, itself first. -/
def MessageNode.types (scope : Text) : MessageNode → List (Text × SymbolKind)
  | ⟨name, _, _, _, _, enums, nestedMessages, _, _, _, _, _⟩ =>
    (qualify scope name, .message) ::
      (typesAll (qualify scope name) nestedMessages ++ enumTypes (qualify scope name) enums)

/-- The types the messages of a list declare. -/
def typesAll (scope : Text) : List MessageNode → List (Text × SymbolKind)
  | [] => []
  | message :: messages => message.types scope ++ typesAll scope messages

end

/-- The types a file declares. -/
def FileNode.types (file : FileNode) : List (Text × SymbolKind) :=
  typesAll file.scope file.messages ++ enumTypes file.scope file.enums

theorem enumTypes_resolveFeatures (scope : Text) (features : ResolvedFeatures)
    (enums : List EnumNode) :
    enumTypes scope (enums.map (EnumNode.resolveFeatures · features)) = enumTypes scope enums := by
  simp only [enumTypes, List.map_map]
  rfl

mutual

theorem MessageNode.types_resolveFeatures (scope : Text) (features : ResolvedFeatures) :
    (message : MessageNode) →
    (message.resolveFeatures features).types scope = message.types scope
  | ⟨name, _, _, _, _, _, nestedMessages, _, _, _, options, _⟩ => by
      have nested := typesAll_resolveFeatures (qualify scope name)
        (applyFeatures options features) nestedMessages
      simp only [MessageNode.resolveFeatures, MessageNode.types, nested,
        enumTypes_resolveFeatures]

theorem typesAll_resolveFeatures (scope : Text) (features : ResolvedFeatures) :
    (messages : List MessageNode) →
    typesAll scope (resolveFeaturesAll features messages) = typesAll scope messages
  | [] => rfl
  | message :: messages => by
      simp only [resolveFeaturesAll, typesAll, message.types_resolveFeatures scope features,
        typesAll_resolveFeatures scope features messages]

end

theorem FileNode.types_resolveFeatures {file file' : FileNode}
    (resolved : file.resolveFeatures = .ok file') : file'.types = file.types := by
  rw [FileNode.resolveFeatures] at resolved
  split_ifs at resolved
  · cases resolved
    rfl
  · cases resolved
    simp only [FileNode.types, FileNode.scope, typesAll_resolveFeatures,
      enumTypes_resolveFeatures]

/-! ## The symbol table -/

/-- The symbols are the given ones, and no name is given twice. -/
structure Symbols.Holds (symbols : Symbols) (declared : List (Text × Sym)) : Prop where
  /-- The table has the declared types. -/
  value : ∀ fqn sym, symbols fqn = some sym ↔ (fqn, sym) ∈ declared
  /-- No name is declared twice. -/
  nodup : (declared.map Prod.fst).Nodup

/-- The types as the symbols of a file. -/
def asSymbols (fileIndex : Nat) (types : List (Text × SymbolKind)) : List (Text × Sym) :=
  types.map fun (fqn, kind) => (fqn, ⟨kind, fileIndex⟩)

theorem asSymbols_append (fileIndex : Nat) (first second : List (Text × SymbolKind)) :
    asSymbols fileIndex (first ++ second) =
      asSymbols fileIndex first ++ asSymbols fileIndex second :=
  List.map_append

/-- The error of a type whose name is taken. -/
def duplicateTypeName (source : Nat) (fqn : Text) : Error :=
  { source := some source, message := text "duplicate type name '" ++ fqn ++ text "'" }

/-- A type has the given name. -/
def Names (entry : Text × Sym) (fqn : Text) : Prop := entry.1 = fqn

/-- Among types collected behind the declared ones, the name of one is taken. -/
def Redeclares (source : Nat) (declared new : List (Text × Sym)) (error : Error) : Prop :=
  ∃ entry : Text × Sym, Repeats Names (declared.map Prod.fst) new entry entry.1 ∧
    error = duplicateTypeName source entry.1

theorem names_source {declared new : List (Text × Sym)} :
    ∀ fqn ∈ (declared ++ new).map Prod.fst,
      fqn ∈ declared.map Prod.fst ∨ ∃ first ∈ new, Names first fqn := by
  intro fqn listed
  rw [List.map_append, List.mem_append] at listed
  refine listed.imp_right fun inNew => ?_
  obtain ⟨first, inNew, same⟩ := List.mem_map.mp inNew
  exact ⟨first, inNew, same⟩

section Redeclares

variable {source : Nat} {declared new : List (Text × Sym)} {error : Error}

theorem Redeclares.left (redeclares : Redeclares source declared new error)
    (more : List (Text × Sym)) : Redeclares source declared (new ++ more) error := by
  obtain ⟨entry, repeats, errorIs⟩ := redeclares
  exact ⟨entry, repeats.left more, errorIs⟩

theorem Redeclares.right {more : List (Text × Sym)}
    (redeclares : Redeclares source (declared ++ new) more error) :
    Redeclares source declared (new ++ more) error := by
  obtain ⟨entry, repeats, errorIs⟩ := redeclares
  exact ⟨entry, repeats.right names_source, errorIs⟩

end Redeclares

/-- Types behind the declared ones are collected, or the name of one is taken. -/
def Collects (source : Nat) (declared new : List (Text × Sym)) (outcome : Outcome Error Symbols) :
    Prop :=
  outcome.Ends (·.Holds (declared ++ new)) (Redeclares source declared new)

theorem Collects.bind {source : Nat} {declared new more : List (Text × Sym)}
    {first : Outcome Error Symbols} {next : Symbols → Outcome Error Symbols}
    (collects : Collects source declared new first)
    (rest : ∀ symbols : Symbols, symbols.Holds (declared ++ new) →
      Collects source (declared ++ new) more (next symbols)) :
    Collects source declared (new ++ more) (first >>= next) := by
  refine (collects.mono (fun _ holds => holds) fun _ redeclares => redeclares.left more).bind
    fun symbols holds => (rest symbols holds).mono (fun final holds' => ?_) fun _ => .right
  rwa [List.append_assoc] at holds'

theorem Symbols.Holds.record {symbols : Symbols} {declared : List (Text × Sym)}
    (holds : symbols.Holds declared) (source : Nat) (fqn : Text) (sym : Sym) :
    Collects source declared [(fqn, sym)] (symbols.record source fqn sym) := by
  rw [Symbols.record]
  cases found : symbols fqn with
  | some other =>
      have listed := List.mem_map_of_mem (f := Prod.fst) ((holds.value fqn other).mp found)
      exact ⟨(fqn, sym), .single rfl listed, rfl⟩
  | none =>
      have fresh : fqn ∉ declared.map Prod.fst := by
        intro listed
        obtain ⟨⟨name, other⟩, inTable, rfl⟩ := List.mem_map.mp listed
        have registered := (holds.value name other).mpr inTable
        rw [found] at registered
        cases registered
      refine ⟨fun other sym' => ?_, ?_⟩
      · rw [List.mem_append, List.mem_singleton, ← holds.value, Prod.mk.injEq]
        rcases eq_or_ne other fqn with rfl | differs
        · simp [found, eq_comm]
        · simp [differs]
      · rw [List.map_append]
        refine List.nodup_append.mpr ⟨holds.nodup, List.nodup_singleton _, ?_⟩
        rintro other listed last isLast rfl
        rw [List.mem_singleton.mp isLast] at listed
        exact fresh listed

section Collect

variable {symbols : Symbols} {declared : List (Text × Sym)} (source fileIndex : Nat)

theorem Symbols.Holds.collectEnums (holds : symbols.Holds declared) (scope : Text)
    (enums : List EnumNode) :
    Collects source declared (asSymbols fileIndex (enumTypes scope enums))
      (Front.collectEnums source fileIndex (enums.map (EnumNode.assignFqn · scope)) symbols) := by
  induction enums generalizing symbols declared with
  | nil => simpa [Front.collectEnums, asSymbols, enumTypes, Collects, Outcome.Ends] using holds
  | cons node enums ih =>
      rw [Front.collectEnums, List.map_cons, List.foldlM_cons]
      exact (holds.record source (qualify scope node.name) ⟨.enum, fileIndex⟩).bind
        fun next holds' => ih holds'

mutual

theorem Symbols.Holds.collectMessage {symbols : Symbols} {declared : List (Text × Sym)}
    (source fileIndex : Nat) (scope : Text) (holds : symbols.Holds declared) :
    (message : MessageNode) →
    Collects source declared (asSymbols fileIndex (message.types scope))
      ((message.assignFqn scope).collect source fileIndex symbols)
  | ⟨name, _, _, _, _, enums, nestedMessages, _, _, _, _, _⟩ => by
      rw [MessageNode.assignFqn, MessageNode.collect, MessageNode.types,
        ← List.singleton_append, asSymbols_append, asSymbols_append]
      refine (holds.record source (qualify scope name) ⟨.message, fileIndex⟩).bind ?_
      intro registered holds'
      refine (Symbols.Holds.collectAll source fileIndex (qualify scope name) holds'
        nestedMessages).bind ?_
      intro nested holds''
      exact holds''.collectEnums source fileIndex (qualify scope name) enums

theorem Symbols.Holds.collectAll {symbols : Symbols} {declared : List (Text × Sym)}
    (source fileIndex : Nat) (scope : Text) (holds : symbols.Holds declared) :
    (messages : List MessageNode) →
    Collects source declared (asSymbols fileIndex (typesAll scope messages))
      (Front.collectAll source fileIndex (assignFqnAll scope messages) symbols)
  | [] => by
      rw [assignFqnAll, Front.collectAll, typesAll, asSymbols, List.map_nil, Collects,
        List.append_nil]
      exact holds
  | message :: messages => by
      rw [assignFqnAll, Front.collectAll, typesAll, asSymbols_append]
      refine (Symbols.Holds.collectMessage source fileIndex scope holds message).bind ?_
      intro next holds'
      exact Symbols.Holds.collectAll source fileIndex scope holds' messages

end

theorem Symbols.Holds.collectFile (holds : symbols.Holds declared) (file : FileNode) :
    Collects file.source declared (asSymbols fileIndex file.types)
      (file.computeFqns.collect fileIndex symbols) := by
  rw [FileNode.collect, FileNode.types, asSymbols_append]
  refine (Symbols.Holds.collectAll file.source fileIndex file.scope holds file.messages).bind ?_
  intro next holds'
  exact holds'.collectEnums file.source fileIndex file.scope file.enums

end Collect

/-- The types of all files. -/
def declaredTypes (files : List FileNode) : List (Text × Sym) :=
  files.zipIdx.flatMap fun (file, index) => asSymbols index file.types

/-- The name of a type is the name of a type before it, in its own file or in an earlier one. -/
def DuplicateType (files : List FileNode) (error : Error) : Prop :=
  ∃ before entry after file, declaredTypes files = before ++ entry :: after ∧
    entry.1 ∈ before.map Prod.fst ∧ files[entry.2.fileIndex]? = some file ∧
    error = duplicateTypeName file.source entry.1

/-- After collection the symbols are the types of all files, unless the name of one is taken. -/
theorem collectSymbols_ends (files : List FileNode) :
    (collectSymbols (files.map FileNode.computeFqns)).Ends (·.Holds (declaredTypes files))
      (DuplicateType files) := by
  have each : ∀ (entries : List (FileNode × Nat)) (symbols : Symbols)
      (declared : List (Text × Sym)), symbols.Holds declared →
      ((entries.map (Prod.map FileNode.computeFqns id)).foldlM
        (fun symbols (entry : FileNode × Nat) => entry.1.collect entry.2 symbols) symbols).Ends
          (·.Holds (declared ++ entries.flatMap fun (file, index) => asSymbols index file.types))
          (fun error => ∃ entry ∈ entries, ∃ type : Text × Sym,
            Repeats Names (declared.map Prod.fst)
              (entries.flatMap fun (file, index) => asSymbols index file.types) type type.1 ∧
            type.2.fileIndex = entry.2 ∧ error = duplicateTypeName entry.1.source type.1) := by
    intro entries
    induction entries with
    | nil =>
        intro symbols declared holds
        simpa [Outcome.Ends] using holds
    | cons entry entries ih =>
        intro symbols declared holds
        obtain ⟨file, index⟩ := entry
        rw [List.map_cons, List.foldlM_cons, List.flatMap_cons]
        refine ((holds.collectFile index file).mono (fun _ holds' => holds') ?_).bind ?_
        · rintro error ⟨type, repeats, errorIs⟩
          have listed : type ∈ asSymbols index file.types := by
            obtain ⟨before, after, split, -⟩ := repeats
            simp [split]
          have sameFile : type.2.fileIndex = index := by
            obtain ⟨declaration, -, rfl⟩ := List.mem_map.mp listed
            rfl
          exact ⟨(file, index), List.mem_cons_self, type, repeats.left _, sameFile, errorIs⟩
        · intro next holds'
          refine (ih next _ holds').mono (fun final holds'' => ?_) ?_
          · rwa [← List.append_assoc]
          · rintro error ⟨other, listed, type, repeats, sameFile, errorIs⟩
            exact ⟨other, List.mem_cons_of_mem _ listed, type, repeats.right names_source, sameFile,
              errorIs⟩
  rw [collectSymbols, List.zipIdx_map]
  have start : Symbols.Holds (fun _ => none) [] := ⟨by simp, List.nodup_nil⟩
  refine (each files.zipIdx _ [] start).mono (fun _ holds => holds) ?_
  rintro error ⟨⟨file, index⟩, listed, type, ⟨before, after, split, -, taken⟩, sameFile, errorIs⟩
  have fileAt : files[type.2.fileIndex]? = some file := by
    rw [sameFile]
    exact List.mk_mem_zipIdx_iff_getElem?.mp listed
  obtain ⟨first, inBefore, same⟩ := taken.resolve_left List.not_mem_nil
  exact ⟨before, type, after, file, split, List.mem_map.mpr ⟨first, inBefore, same⟩, fileAt,
    errorIs⟩

/-- No name is taken among the symbols of all files. -/
theorem Symbols.Holds.not_duplicateType {symbols : Symbols} {files : List FileNode}
    (holds : symbols.Holds (declaredTypes files)) (error : Error) :
    ¬ DuplicateType files error := by
  rintro ⟨before, entry, after, file, split, taken, -⟩
  have unique := holds.nodup
  rw [split, List.map_append, List.map_cons, List.nodup_append] at unique
  exact unique.2.2 entry.1 taken entry.1 List.mem_cons_self rfl

theorem declaredTypes_names (files : List FileNode) :
    (declaredTypes files).map Prod.fst = (files.flatMap FileNode.types).map Prod.fst := by
  have names : ∀ entry : FileNode × Nat,
      (asSymbols entry.2 entry.1.types).map Prod.fst = entry.1.types.map Prod.fst := by
    intro entry
    rw [asSymbols, List.map_map]
    rfl
  calc (declaredTypes files).map Prod.fst
      = files.zipIdx.flatMap fun entry => entry.1.types.map Prod.fst := by
        rw [declaredTypes, List.map_flatMap]
        exact congrArg files.zipIdx.flatMap (funext names)
    _ = (files.zipIdx.map Prod.fst).flatMap fun file => file.types.map Prod.fst := by
        rw [List.flatMap_map]
    _ = (files.flatMap FileNode.types).map Prod.fst := by
        rw [List.zipIdx_map_fst, List.map_flatMap]

/-- A declared type is declared in one of the files. -/
theorem mem_declaredTypes {files : List FileNode} {fqn : Text} {sym : Sym} :
    (fqn, sym) ∈ declaredTypes files ↔
      ∃ file, files[sym.fileIndex]? = some file ∧ (fqn, sym.kind) ∈ file.types := by
  obtain ⟨kind, fileIndex⟩ := sym
  simp only [declaredTypes, List.mem_flatMap, asSymbols, List.mem_map, Prod.exists,
    Prod.mk.injEq, Sym.mk.injEq, List.mk_mem_zipIdx_iff_getElem?]
  constructor
  · rintro ⟨file, index, found, name, kind', listed, rfl, rfl, rfl⟩
    exact ⟨file, found, listed⟩
  · rintro ⟨file, found, listed⟩
    exact ⟨file, fileIndex, found, fqn, kind, listed, rfl, rfl, rfl⟩

end Front
end RapidProto
