import RapidProto.Front.Passes

/-!
# The front end

All passes over a resolved file set, in the order of `analyze`.  What a declaration has become at
the end is what the four passes make of it one after the other, so both what its references are
bound to and which settings it has inherited are read off the same relation.  If analysis fails, the
file set has what its error is about; and if it succeeds, the file set has nothing that an error is
about.
-/

namespace RapidProto
namespace Front

/-- What analysis hands to a code generator. -/
structure SymbolTable where
  /-- Kind of a registered name. -/
  symbols : Text → Option SymbolKind
  /-- Extendee and number of each extension. -/
  extensions : Extensions
  /-- Diagnostics that are no failures. -/
  warnings : List Text

/-- `analyze`. -/
def analyze (canonicalImportPath : Text → Text) (set : ResolvedFileSet) :
    Outcome Error (SymbolTable × ResolvedFileSet) := do
  let featured ← set.files.mapM FileNode.resolveFeatures
  let named := { set with files := featured.map FileNode.computeFqns }
  let (symbols, extensions, resolved) ← resolveTypes canonicalImportPath named
  let (files, warnings) := interpretOptions resolved.files
  .ok ({ symbols := fun fqn => (symbols fqn).map Sym.kind, extensions, warnings },
    { resolved with files })

/-! ## All passes on a declaration -/

/-- What the passes after the features make of a declaration. -/
def Placed.Analysed (symbols : Symbols) (visible : List Nat) (placed placed' : Placed) : Prop :=
  ∃ resolved, Placed.Resolved symbols visible placed.withFqn resolved ∧
    placed' = resolved.interpret

/-- The feature pass fails exactly at an edition that it does not know. -/
theorem FileNode.resolveFeatures_ends (file : FileNode) :
    file.resolveFeatures.Ends (fun featured => file.resolveFeatures = .ok featured ∧
        (file.syntaxLevel = .edition → file.edition = text "2023" ∨ file.edition = text "2024"))
      fun error => file.syntaxLevel = .edition ∧ file.edition ≠ text "2023" ∧
        file.edition ≠ text "2024" ∧ error = unknownEdition file := by
  have known : isKnownEdition file.edition = true ↔
      file.edition = text "2023" ∨ file.edition = text "2024" := by
    simp [isKnownEdition, kKnownEditions]
  rw [FileNode.resolveFeatures]
  split_ifs with other unknown
  · exact ⟨rfl, fun editions => absurd editions other⟩
  · rw [Bool.not_eq_true', Bool.eq_false_iff, ne_eq, known, not_or] at unknown
    exact ⟨not_not.mp other, unknown.1, unknown.2, rfl⟩
  · rw [Bool.not_eq_true', Bool.not_eq_false] at unknown
    exact ⟨rfl, fun _ => known.mp unknown⟩

theorem FileNode.imports_resolveFeatures {file featured : FileNode}
    (resolved : file.resolveFeatures = .ok featured) : featured.imports = file.imports := by
  rw [FileNode.resolveFeatures] at resolved
  split_ifs at resolved <;> cases resolved <;> rfl

theorem FileNode.source_resolveFeatures {file featured : FileNode}
    (resolved : file.resolveFeatures = .ok featured) : featured.source = file.source := by
  rw [FileNode.resolveFeatures] at resolved
  split_ifs at resolved <;> cases resolved <;> rfl

/-- The feature and naming passes rewrite the declarations of a file one by one, and keep what is
refused of them. -/
theorem FileNode.items_named {file featured : FileNode}
    (resolved : file.resolveFeatures = .ok featured) :
    ∃ change, Keeps change ∧ featured.computeFqns.items = file.items.map change := by
  rw [FileNode.items_computeFqns]
  rcases FileNode.resolveFeatures_cases resolved with ⟨-, rfl⟩ | ⟨-, -, itemsIs⟩
  · exact ⟨_, keeps_withFqn, rfl⟩
  · rw [itemsIs, List.map_map]
    exact ⟨_, (keeps_withFeatures _).comp keeps_withFqn, rfl⟩

section Passes

variable {canonicalImportPath : Text → Text} {set : ResolvedFileSet} {featured : List FileNode}

/-- What is collected from each file is the same for files that correspond. -/
theorem flatMap_zipIdx_congr {β : Type} {files files' : List FileNode}
    {collect collect' : FileNode × Nat → List β}
    (each : List.Forall₂
      (fun file file' => ∀ index, collect' (file', index) = collect (file, index))
      files files') :
    files'.zipIdx.flatMap collect' = files.zipIdx.flatMap collect := by
  have shifted : ∀ start,
      (files'.zipIdx start).flatMap collect' = (files.zipIdx start).flatMap collect := by
    induction each with
    | nil => exact fun _ => rfl
    | cons first _ ih =>
        intro start
        rw [List.zipIdx_cons, List.zipIdx_cons, List.flatMap_cons, List.flatMap_cons, ih, first]
  exact shifted 0

theorem declaredTypes_resolveFeatures {files : List FileNode}
    (each : List.Forall₂ (fun file featured => file.resolveFeatures = .ok featured) files featured) :
    declaredTypes featured = declaredTypes files := by
  refine flatMap_zipIdx_congr (each.imp fun file featured resolved index => ?_)
  dsimp only
  rw [FileNode.types_resolveFeatures resolved]

theorem declaredExtensions_named {files : List FileNode}
    (each : List.Forall₂ (fun file featured => file.resolveFeatures = .ok featured) files featured) :
    declaredExtensions (featured.map FileNode.computeFqns) = declaredExtensions files := by
  refine flatMap_zipIdx_congr (List.forall₂_map_right_iff.mpr
    (each.imp fun file featured resolved index => ?_))
  obtain ⟨change, keeps, itemsIs⟩ := FileNode.items_named resolved
  dsimp only
  rw [itemsIs, List.flatMap_map, show featured.computeFqns.source = featured.source from rfl,
    FileNode.source_resolveFeatures resolved]
  exact congrArg file.items.flatMap (funext (keeps.extensions index file.source))

/-- The feature and naming passes leave the imports alone. -/
theorem imports_named
    (each : List.Forall₂ (fun file featured => file.resolveFeatures = .ok featured) set.files
      featured) :
    ResolvedFileSet.imports { set with files := featured.map FileNode.computeFqns } =
      set.imports := by
  funext index
  simp only [ResolvedFileSet.imports, List.getElem?_map]
  cases found : set.files[index]? with
  | none =>
      have beyond := List.getElem?_eq_none_iff.mp found
      rw [each.length_eq] at beyond
      simp [List.getElem?_eq_none_iff.mpr beyond]
  | some file =>
      obtain ⟨file', found', first⟩ := forall₂_getElem? each found
      simp [found', FileNode.computeFqns, FileNode.imports_resolveFeatures first]

theorem visible_named
    (each : List.Forall₂ (fun file featured => file.resolveFeatures = .ok featured) set.files
      featured) (file other : Nat) :
    Visible canonicalImportPath { set with files := featured.map FileNode.computeFqns } file other ↔
      Visible canonicalImportPath set file other := by
  have direct : DirectImport canonicalImportPath
      { set with files := featured.map FileNode.computeFqns } =
        DirectImport canonicalImportPath set := by
    funext file other
    simp only [DirectImport, imports_named each, ResolvedFileSet.importIndex]
  have publicly : PublicImport canonicalImportPath
      { set with files := featured.map FileNode.computeFqns } =
        PublicImport canonicalImportPath set := by
    funext file other
    simp only [PublicImport, imports_named each, ResolvedFileSet.importIndex]
  rw [Visible, Visible, direct, publicly]

/-- A type is declared in a file that the given one sees. -/
def SeesType (canonicalImportPath : Text → Text) (set : ResolvedFileSet) (index : Nat) (fqn : Text)
    (kind : SymbolKind) : Prop :=
  ∃ other file, Visible canonicalImportPath set index other ∧ set.files[other]? = some file ∧
    (fqn, kind) ∈ file.types

/-- The types registered in visible files are those that visible files declare. -/
theorem sees_eq {symbols : Symbols} {visible : List Nat} {index : Nat}
    (holds : symbols.Holds (declaredTypes set.files))
    (sees : ∀ other, other ∈ visible ↔ Visible canonicalImportPath set index other) :
    Sees symbols visible = SeesType canonicalImportPath set index := by
  funext fqn kind
  refine propext ⟨?_, ?_⟩
  · rintro ⟨declared, hasIt⟩
    rw [isVisible] at declared
    rw [hasKind] at hasIt
    cases found : symbols fqn with
    | none =>
        rw [found] at declared
        cases declared
    | some sym =>
        rw [found] at declared hasIt
        obtain ⟨file, fileAt, listed⟩ := mem_declaredTypes.mp ((holds.value fqn sym).mp found)
        rw [Option.map_some, beq_iff_eq, Option.some.injEq] at hasIt
        exact ⟨sym.fileIndex, file, (sees _).mp (List.contains_iff_mem.mp declared), fileAt,
          hasIt ▸ listed⟩
  · rintro ⟨other, file, visible', fileAt, declared⟩
    have found := (holds.value fqn ⟨kind, other⟩).mpr (mem_declaredTypes.mpr ⟨file, fileAt, declared⟩)
    rw [Sees, isVisible, hasKind, found]
    exact ⟨List.contains_iff_mem.mpr ((sees other).mpr visible'), beq_self_eq_true _⟩

/-- What type resolution refuses in featured and named files is refused in the files as parsed. -/
theorem Fails.refusal {sees : Nat → Text → SymbolKind → Prop} {error : Error}
    (each : List.Forall₂ (fun file featured => file.resolveFeatures = .ok featured) set.files
      featured)
    (fails : Fails (fun extension => extension.Keyed (sees extension.fileIndex)) []
      (fun error => ∃ entry ∈ (featured.map FileNode.computeFqns).zipIdx,
        ∃ placed ∈ entry.1.items,
          placed.item.Refused (sees entry.2) entry.1.source placed.scope error)
      (declaredExtensions (featured.map FileNode.computeFqns)) error) :
    Refusal sees set.files error := by
  rcases fails with ⟨⟨named, index⟩, inNamed, placed, listed, refused⟩ |
    ⟨extension, key, ⟨before, after, split, keyed, earlier⟩, rfl⟩
  · have namedAt := List.mk_mem_zipIdx_iff_getElem?.mp inNamed
    rw [List.getElem?_map, Option.map_eq_some_iff] at namedAt
    obtain ⟨middle, middleAt, rfl⟩ := namedAt
    obtain ⟨file, fileAt, resolved⟩ := forall₂_getElem? each.flip middleAt
    obtain ⟨change, keeps, itemsIs⟩ := FileNode.items_named resolved
    rw [itemsIs] at listed
    obtain ⟨source, inFile, rfl⟩ := List.mem_map.mp listed
    rw [show (middle.computeFqns, index).1.source = middle.source from rfl,
      FileNode.source_resolveFeatures resolved] at refused
    exact .declaration fileAt inFile ((keeps.refused _ _ _ _).mp refused)
  · rw [declaredExtensions_named each] at split
    obtain ⟨first, inBefore, taken⟩ := earlier.resolve_left List.not_mem_nil
    exact .extensionNumber split inBefore taken keyed

variable (canonicalImportPath set)

/-- Type resolution of named files ends, with the symbols of all files, every reference bound and
every extension registered. -/
theorem resolveTypes_ends (files : List FileNode)
    (named : set.files = files.map FileNode.computeFqns)
    {sees : Nat → Text → SymbolKind → Prop}
    (seesIs : ∀ symbols : Symbols, symbols.Holds (declaredTypes files) → ∀ index visible,
      visibleFiles canonicalImportPath set index = .ok visible → Sees symbols visible = sees index) :
    (resolveTypes canonicalImportPath set).Ends (fun result =>
      result.1.Holds (declaredTypes files) ∧
        List.Forall₂ (fun entry file' => ∃ visible,
          visibleFiles canonicalImportPath set entry.2 = .ok visible ∧
            List.Forall₂ (Placed.Resolved result.1 visible) entry.1.items file'.items)
          set.files.zipIdx result.2.2.files ∧
        Registers (fun extension => extension.Keyed (sees extension.fileIndex)) []
          (declaredExtensions set.files) result.2.1)
      fun error => DuplicateType files error ∨
        Fails (fun extension => extension.Keyed (sees extension.fileIndex)) []
          (fun error => ∃ entry ∈ set.files.zipIdx, ∃ placed ∈ entry.1.items,
            placed.item.Refused (sees entry.2) entry.1.source placed.scope error)
          (declaredExtensions set.files) error := by
  have collected := collectSymbols_ends files
  rw [← named] at collected
  rw [resolveTypes]
  refine (collected.mono (fun _ holds => holds) fun _ => .inl).bind fun symbols holds => ?_
  have indexed : ∀ entry : FileNode × Nat, ∀ extension ∈
      entry.1.items.flatMap (Placed.extensions entry.2 entry.1.source),
      extension.fileIndex = entry.2 := by
    intro entry extension listed
    obtain ⟨⟨scope, chain, item⟩, -, listed⟩ := List.mem_flatMap.mp listed
    cases item with
    | extend node =>
        obtain ⟨field, -, rfl⟩ := List.mem_map.mp listed
        rfl
    | field role node => cases listed
    | mapField node => cases listed
    | enum node => cases listed
  refine ((resolveEach_ends (fun entry entry' => ∃ visible,
      visibleFiles canonicalImportPath set entry.2 = .ok visible ∧
        List.Forall₂ (Placed.Resolved symbols visible) entry.1.items entry'.1.items)
    (fun entry error => ∃ placed ∈ entry.1.items,
      placed.item.Refused (sees entry.2) entry.1.source placed.scope error)
    (fun entry => entry.1.items.flatMap (Placed.extensions entry.2 entry.1.source))
    set.files.zipIdx [] ?_).mono (fun _ done => done) fun _ => .inr).bind ?_
  · rintro ⟨file, index⟩ listed taken
    have inSet := List.fst_mem_of_mem_zipIdx listed
    rw [named] at inSet
    obtain ⟨source, -, rfl⟩ := List.mem_map.mp inSet
    obtain ⟨visible, collected, -⟩ := visibleFiles_spec canonicalImportPath set index
    have same := seesIs symbols holds index visible collected
    have rekeyed : ∀ extension ∈ source.computeFqns.items.flatMap
        (Placed.extensions index source.source), ∀ key,
        extension.Keyed (Sees symbols visible) key →
          extension.Keyed (sees extension.fileIndex) key := by
      intro extension listed key keyed
      rw [indexed (source.computeFqns, index) extension listed, ← same]
      exact keyed
    refine (FileNode.resolve_ends canonicalImportPath set symbols source collected taken).mono ?_ ?_
    · rintro result ⟨resolved, registers⟩
      exact ⟨⟨visible, collected, resolved⟩, registers.mono rekeyed⟩
    · intro error refuses
      refine Fails.mono refuses rekeyed ?_
      rintro ⟨placed, listed, refused⟩
      rw [Placed.Refused, same] at refused
      exact ⟨placed, listed, refused⟩
  · rintro ⟨files, extensions⟩ ⟨resolved, registers⟩
    exact ⟨holds, List.forall₂_map_right_iff.mpr resolved, registers⟩

/-- Analysis ends, with a refusal or, if nothing is refused, with the declarations of each file
taken through all passes with the symbols of all files and the files it sees. -/
theorem analyze_ends :
    (analyze canonicalImportPath set).Ends (fun result =>
      (∀ error, ¬ Refusal (SeesType canonicalImportPath set) set.files error) ∧
      ∃ symbols : Symbols, symbols.Holds (declaredTypes set.files) ∧
      result.1.symbols = (fun fqn => (symbols fqn).map Sym.kind) ∧
      ∀ index file, set.files[index]? = some file → ∃ visible : List Nat,
        (∀ other, other ∈ visible ↔ Visible canonicalImportPath set index other) ∧
        ∃ featured file', file.resolveFeatures = .ok featured ∧
          result.2.files[index]? = some file' ∧
          List.Forall₂ (Placed.Analysed symbols visible) featured.items file'.items)
      (Refusal (SeesType canonicalImportPath set) set.files) := by
  rw [analyze]
  refine ((mapM_ends set.files FileNode.resolveFeatures_ends).mono (fun _ each => each) ?_).bind
    fun featured each => ?_
  · rintro error ⟨file, listed, editions, not2023, not2024, rfl⟩
    exact .edition listed editions not2023 not2024
  have known : ∀ file ∈ set.files, file.syntaxLevel = .edition →
      file.edition = text "2023" ∨ file.edition = text "2024" := by
    intro file listed
    obtain ⟨index, fileAt⟩ := List.mem_iff_getElem?.mp listed
    obtain ⟨middle, -, resolved⟩ := forall₂_getElem? each fileAt
    exact resolved.2
  replace each := each.imp fun file featured resolved => resolved.1
  have seesIs : ∀ symbols : Symbols, symbols.Holds (declaredTypes featured) → ∀ index visible,
      visibleFiles canonicalImportPath { set with files := featured.map FileNode.computeFqns }
        index = .ok visible →
      Sees symbols visible = SeesType canonicalImportPath set index := by
    intro symbols holds index visible collected
    obtain ⟨visible', collected', -, mem⟩ := visibleFiles_spec canonicalImportPath
      { set with files := featured.map FileNode.computeFqns } index
    obtain rfl : visible' = visible := by
      rw [collected] at collected'
      exact (Outcome.ok.inj collected').symm
    rw [declaredTypes_resolveFeatures each] at holds
    exact sees_eq holds fun other => (mem other).trans (visible_named each index other)
  refine ((resolveTypes_ends canonicalImportPath
    { set with files := featured.map FileNode.computeFqns } featured rfl seesIs).mono
    (fun _ done => done) ?_).bind ?_
  · rintro error (⟨before, entry, after, file, split, taken, fileAt, rfl⟩ | fails)
    · rw [declaredTypes_resolveFeatures each] at split
      obtain ⟨source, sourceAt, resolved⟩ := forall₂_getElem? each.flip fileAt
      rw [FileNode.source_resolveFeatures resolved]
      exact .typeName ⟨before, entry, after, source, split, taken, sourceAt, rfl⟩
    · exact Fails.refusal each fails
  rintro ⟨symbols, extensions, resolved⟩ ⟨holds, resolves, registers⟩
  rw [declaredTypes_resolveFeatures each] at holds
  have analysed : ∀ index file, set.files[index]? = some file → ∃ visible : List Nat,
      (∀ other, other ∈ visible ↔ Visible canonicalImportPath set index other) ∧
      ∃ featured file', file.resolveFeatures = .ok featured ∧ resolved.files[index]? = some file' ∧
        List.Forall₂ (Placed.Resolved symbols visible) featured.computeFqns.items file'.items := by
    intro index file found
    obtain ⟨source, sourceAt, sourceIs⟩ := forall₂_getElem? each found
    have entryAt : (featured.map FileNode.computeFqns).zipIdx[index]? =
        some (source.computeFqns, index) := by
      simp [List.getElem?_zipIdx, sourceAt]
    obtain ⟨file', fileAt, visible, collected, items⟩ := forall₂_getElem? resolves entryAt
    obtain ⟨visible', collected', -, mem⟩ := visibleFiles_spec canonicalImportPath
      { set with files := featured.map FileNode.computeFqns } index
    obtain rfl : visible' = visible := by
      rw [collected] at collected'
      exact (Outcome.ok.inj collected').symm
    exact ⟨visible', fun other => (mem other).trans (visible_named each index other), source, file',
      sourceIs, fileAt, items⟩
  refine ⟨?_, symbols, holds, rfl, fun index file found => ?_⟩
  · intro error refusal
    cases refusal with
    | edition listed editions not2023 not2024 =>
        exact (known _ listed editions).elim not2023 not2024
    | typeName duplicate => exact holds.not_duplicateType error duplicate
    | declaration fileAt listed refused =>
        obtain ⟨visible, sees, featured, file', resolvedIs, -, items⟩ := analysed _ _ fileAt
        obtain ⟨change, keeps, itemsIs⟩ := FileNode.items_named resolvedIs
        rw [itemsIs] at items
        obtain ⟨position, placedAt⟩ := List.mem_iff_getElem?.mp (List.mem_map_of_mem listed)
        obtain ⟨placed', -, resolves⟩ := forall₂_getElem? items placedAt
        rw [← sees_eq holds sees] at refused
        exact Item.Resolved.not_refused resolves.item _ error ((keeps.refused _ _ _ _).mpr refused)
    | extensionNumber split earlier taken keyed =>
        rw [declaredExtensions_named each] at registers
        exact registers.not_repeats (fun _ _ _ => DeclaredExtension.Keyed.unique)
          ⟨_, _, split, keyed, .inr ⟨_, earlier, taken⟩⟩
  · obtain ⟨visible, sees, featured, file', resolvedIs, fileAt, items⟩ := analysed index file found
    refine ⟨visible, sees, featured, file'.interpretOptions.1, resolvedIs, ?_, ?_⟩
    · simp only [List.getElem?_map, fileAt, Option.map_some]
    · rw [FileNode.items_computeFqns] at items
      rw [FileNode.items_interpretOptions]
      refine List.forall₂_map_right_iff.mpr ((List.forall₂_map_left_iff.mp items).imp ?_)
      exact fun placed placed' resolved => ⟨placed', resolved, rfl⟩

end Passes

end Front
end RapidProto
