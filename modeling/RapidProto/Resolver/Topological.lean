import Mathlib.Data.List.Perm.Subperm
import RapidProto.PostOrder
import RapidProto.Resolver.Imports

/-!
# The order of the resolved files

The import graph in its own terms, the invariant of the depth-first search, and what follows for a
whole resolution: it ends, a resolved set lists every reachable file once and after its imports, and
on a complete graph without overlong chains the only failure is a cycle.
-/

namespace RapidProto

open Relation

/-! ## The import graph -/

namespace Files

variable (files : Files) (entries : List String)

/-- The file can be read and parsed, and imports these paths. -/
def Loads (name : String) (imports : List String) : Prop :=
  ∃ source, files.read name = some source ∧ files.parse source = .ok imports

/-- The first file imports the second. -/
def Imports (name target : String) : Prop :=
  ∃ imports, files.Loads name imports ∧ ∃ raw ∈ imports, files.canonicalImportPath raw = target

/-- The canonical name belongs to an entry. -/
def IsEntry (name : String) : Prop := ∃ entry ∈ entries, files.canonicalEntryName entry = name

/-- A chain of imports leads from an entry to the file. -/
def Reachable (name : String) : Prop :=
  ∃ root, files.IsEntry entries root ∧ ReflTransGen files.Imports root name

/-- A chain of imports from an entry that meets no file twice. -/
structure SimplePath (path : List String) : Prop where
  /-- It starts at an entry. -/
  root : ∀ name ∈ path.head?, files.IsEntry entries name
  /-- Every file imports the next. -/
  chain : path.IsChain files.Imports
  /-- No file occurs twice. -/
  once : path.Nodup

/-- A file that leads back to itself is reachable. -/
def Cyclic : Prop := ∃ name, files.Reachable entries name ∧ TransGen files.Imports name name

/-- Every reachable file can be read and parsed. -/
def Complete : Prop := ∀ name, files.Reachable entries name → ∃ imports, files.Loads name imports

/-- No import chain is too long for the resolver. -/
def Shallow : Prop := ∀ path, files.SimplePath entries path → path.length ≤ kMaxImportDepth

variable {files entries}

theorem Loads.unique {name : String} {left right : List String} (first : files.Loads name left)
    (second : files.Loads name right) : left = right := by
  obtain ⟨source, read, parsed⟩ := first
  obtain ⟨source', read', parsed'⟩ := second
  cases read.symm.trans read'
  cases parsed.symm.trans parsed'
  rfl

theorem Reachable.step {name target : String} (reached : files.Reachable entries name)
    (imported : files.Imports name target) : files.Reachable entries target := by
  obtain ⟨root, entry, leads⟩ := reached
  exact ⟨root, entry, leads.tail imported⟩

theorem SimplePath.reachable {path : List String} (simple : files.SimplePath entries path)
    {name : String} (met : name ∈ path) : files.Reachable entries name := by
  obtain ⟨before, after, rfl⟩ := List.append_of_mem met
  have chain : (before ++ [name]).IsChain files.Imports := by
    have whole := simple.chain
    rw [List.append_cons] at whole
    exact whole.left_of_append
  have leads := List.relationReflTransGen_of_exists_isChain _ chain (by simp)
  rw [List.getLast_append_singleton] at leads
  refine ⟨_, simple.root _ ?_, leads⟩
  cases before <;> rfl

/-- One more import at the end of a simple path. -/
theorem SimplePath.extend {path : List String} {name target : String}
    (simple : files.SimplePath entries (path ++ [name])) (imported : files.Imports name target)
    (fresh : target ∉ path ++ [name]) :
    files.SimplePath entries (path ++ [name] ++ [target]) where
  root first met := by
    refine simple.root first ?_
    cases path <;> exact met
  chain := by
    refine simple.chain.append (List.isChain_singleton target) ?_
    simpa using imported
  once := by
    refine List.nodup_append.mpr ⟨simple.once, List.nodup_singleton target, ?_⟩
    rintro name met _ last rfl
    cases List.mem_singleton.mp last
    exact fresh met

theorem SimplePath.init {path : List String} {name : String}
    (simple : files.SimplePath entries (path ++ [name])) : files.SimplePath entries path where
  root first met := by
    refine simple.root first ?_
    cases path with
    | nil => cases met
    | cons _ _ => exact met
  chain := simple.chain.left_of_append
  once := (List.nodup_append.mp simple.once).1

/-- A chain of at least one import leads from its first file to its last. -/
theorem transGen_of_isChain {first last : String} {middle : List String}
    (chain : (first :: (middle ++ [last])).IsChain files.Imports) :
    TransGen files.Imports first last := by
  induction middle generalizing first with
  | nil => exact .single (List.isChain_cons_cons.mp chain).1
  | cons next middle ih =>
      obtain ⟨imported, rest⟩ := List.isChain_cons_cons.mp chain
      exact .head imported (ih rest)

end Files

/-! ## The invariant of the search -/

/-- What an error says about the import graph. -/
def ResolveError.Justified (files : Files) (entries : List String) : ResolveError → Prop
  | tooDeep => ∃ path, files.SimplePath entries path ∧ kMaxImportDepth < path.length
  | parse _ => ∃ name, files.Reachable entries name ∧ ∀ imports, ¬ files.Loads name imports
  | cycle path => ∃ name middle, path = name :: (middle ++ [name]) ∧
      files.Reachable entries name ∧ path.IsChain files.Imports
  | importNotFound path importer => files.Reachable entries importer ∧
      files.Imports importer path ∧ files.read path = none
  | entryNotFound entry => entry ∈ entries ∧ files.read (files.canonicalEntryName entry) = none

/-- The invariant of the search: marks agree with the stack and the order, the stack is an import
chain, and every finished file comes after its imports. -/
structure Resolver.Sound (files : Files) (entries : List String) (state : Resolver) : Prop where
  gray : ∀ name, state.color name = some .gray ↔ name ∈ state.stack
  black : ∀ name, state.color name = some .black ↔ name ∈ state.order
  parsed : ∀ name, (state.parsed name).isSome = true ↔ name ∈ state.stack ∨ name ∈ state.order
  loaded : ∀ name file, state.parsed name = some file →
    file.filename = name ∧ files.Loads name file.imports
  path : files.SimplePath entries state.stack
  listed : PostOrder files.Imports state.order
  reached : ∀ name ∈ state.order, files.Reachable entries name

section Search

variable {files : Files} {entries : List String}

/-- What a part of the search that starts in `state` leaves behind. -/
structure Resolver.Grows (files : Files) (entries : List String) (state final : Resolver) :
    Prop where
  sound : final.Sound files entries
  stack : final.stack = state.stack
  order : state.order <+: final.order

theorem Resolver.Grows.trans {first second third : Resolver}
    (left : first.Grows files entries second) (right : second.Grows files entries third) :
    first.Grows files entries third :=
  ⟨right.sound, right.stack.trans left.stack, left.order.trans right.order⟩

namespace Resolver.Sound

theorem not_mem_stack {state : Resolver} {name : String} (sound : state.Sound files entries)
    (fresh : state.color name = none) : name ∉ state.stack := by
  intro met
  rw [(sound.gray name).mpr met] at fresh
  cases fresh

theorem not_mem_order {state : Resolver} {name : String} (sound : state.Sound files entries)
    (fresh : state.color name ≠ some .black) : name ∉ state.order :=
  fun met => fresh ((sound.black name).mpr met)

/-- A file not met before is put on the stack. -/
theorem enter {state : Resolver} {name : String} {file : ImportedFile}
    (sound : state.Sound files entries) (fresh : state.color name = none)
    (path : files.SimplePath entries (state.stack ++ [name])) (named : file.filename = name)
    (loads : files.Loads name file.imports) (source : String) :
    (state.enter name source file).Sound files entries := by
  have offStack := sound.not_mem_stack fresh
  have offOrder : name ∉ state.order := sound.not_mem_order (by simp [fresh])
  have unparsed : (state.parsed name).isSome = false := by
    rw [Bool.eq_false_iff]
    intro met
    rcases (sound.parsed name).mp met with met | met
    · exact offStack met
    · exact offOrder met
  refine
    { gray := fun other => ?_, black := fun other => ?_, parsed := fun other => ?_
      loaded := fun other found => ?_, path := path, listed := sound.listed
      reached := sound.reached }
  · by_cases same : other = name
    · simp [Resolver.enter, same]
    · simp [Resolver.enter, same, sound.gray other]
  · by_cases same : other = name
    · simp [Resolver.enter, same, offOrder]
    · simp [Resolver.enter, same, sound.black other]
  · by_cases same : other = name
    · simp [Resolver.enter, emplace, unparsed, same]
    · simp [Resolver.enter, emplace, unparsed, same, sound.parsed other]
  · by_cases same : other = name
    · subst same
      intro met
      have only : file = found := by simpa [Resolver.enter, emplace, unparsed] using met
      exact only ▸ ⟨named, loads⟩
    · simpa [Resolver.enter, emplace, unparsed, same] using sound.loaded other found

/-- A file all of whose imports are finished is finished itself. -/
theorem finish {state : Resolver} {name : String} {stack : List String}
    (sound : state.Sound files entries) (top : state.stack = stack ++ [name])
    (done : ∀ target, files.Imports name target → target ∈ state.order) :
    (state.finish name).Sound files entries := by
  have path := top ▸ sound.path
  have isGray : state.color name = some .gray := (sound.gray name).mpr (by simp [top])
  have offOrder : name ∉ state.order := sound.not_mem_order (by simp [isGray])
  have offStack : name ∉ stack := fun met =>
    (List.nodup_append.mp path.once).2.2 name met name (by simp) rfl
  have popped : state.stack.dropLast = stack := by rw [top, List.dropLast_concat]
  refine
    { gray := fun other => ?_, black := fun other => ?_, parsed := fun other => ?_
      loaded := sound.loaded, path := ?_, listed := sound.listed.append offOrder done
      reached := ?_ }
  · by_cases same : other = name
    · simp [Resolver.finish, same, popped, offStack]
    · simp [Resolver.finish, same, sound.gray other, top]
  · by_cases same : other = name
    · simp [Resolver.finish, same]
    · simp [Resolver.finish, same, sound.black other]
  · simp only [Resolver.finish, popped, sound.parsed other, List.mem_append, List.mem_singleton]
    rw [top, List.mem_append, List.mem_singleton]
    tauto
  · simpa [Resolver.finish, popped] using path.init
  · intro other met
    rcases List.mem_append.mp met with met | met
    · exact sound.reached other met
    · cases List.mem_singleton.mp met
      exact path.reachable (by simp)

end Resolver.Sound

/-- The rendered stack from a file on it to the top is a cycle when the top imports that file. -/
theorem renderCycle_justified {state : Resolver} {stack : List String} {name target : String}
    (sound : state.Sound files entries) (top : state.stack = stack ++ [name])
    (imported : files.Imports name target) (met : target ∈ state.stack) :
    (ResolveError.cycle (renderCycle state target)).Justified files entries := by
  have found : ∃ before rest, state.stack = before ++ target :: rest ∧
      state.stack.dropWhile (· ≠ target) = target :: rest := by
    generalize state.stack = names at met
    induction names with
    | nil => cases met
    | cons first names ih =>
        by_cases same : first = target
        · exact ⟨[], names, by simp [same], by simp [same]⟩
        · obtain ⟨before, rest, split, dropped⟩ := ih (List.mem_of_ne_of_mem (Ne.symm same) met)
          exact ⟨first :: before, rest, by simp [split], by simpa [same] using dropped⟩
  obtain ⟨before, rest, split, dropped⟩ := found
  refine ⟨target, rest, by rw [renderCycle, dropped, List.cons_append],
    sound.path.reachable met, ?_⟩
  rw [renderCycle, dropped]
  have upper : (target :: rest).IsChain files.Imports :=
    sound.path.chain.suffix ⟨before, split.symm⟩
  refine upper.append (List.isChain_singleton target) fun last atEnd other first => ?_
  cases first
  have lastIs : last = name := by
    have ends := congrArg List.getLast? (top.symm.trans split)
    rw [List.getLast?_concat, List.getLast?_append_of_ne_nil _ (by simp), atEnd] at ends
    exact (Option.some.inj ends).symm
  exact lastIs ▸ imported

section Imports

variable {visit : String → String → Resolver → Outcome ResolveError Resolver} {name : String}
  {stack : List String}

/-- A visit from the given stack reads a new file and everything it imports. -/
def VisitEnds (files : Files) (entries : List String)
    (visit : String → String → Resolver → Outcome ResolveError Resolver) (stack : List String) :
    Prop :=
  ∀ state target source, state.Sound files entries → state.stack = stack →
    state.color target = none → files.read target = some source →
    files.SimplePath entries (stack ++ [target]) →
    (visit target source state).Ends
      (fun final => state.Grows files entries final ∧ target ∈ final.order)
      (ResolveError.Justified files entries)

theorem visitImport_ends (ends : VisitEnds files entries visit (stack ++ [name]))
    {state : Resolver} (sound : state.Sound files entries) (top : state.stack = stack ++ [name])
    {raw : String} (imported : files.Imports name (files.canonicalImportPath raw)) :
    (visitImport files visit name state raw).Ends
      (fun final => state.Grows files entries final ∧
        files.canonicalImportPath raw ∈ final.order)
      (ResolveError.Justified files entries) := by
  rw [visitImport]
  generalize files.canonicalImportPath raw = target at imported
  cases mark : state.color target with
  | some color =>
      cases color with
      | gray => exact renderCycle_justified sound top imported ((sound.gray target).mp mark)
      | black =>
          exact ⟨⟨sound, rfl, List.prefix_rfl⟩, (sound.black target).mp mark⟩
  | none =>
      dsimp only
      cases read : files.read target with
      | none =>
          exact ⟨sound.path.reachable (by simp [top]), imported, read⟩
      | some source =>
          have path := (top ▸ sound.path).extend imported (top ▸ sound.not_mem_stack mark)
          exact ends state target source sound top mark read path

theorem visitImports_ends (ends : VisitEnds files entries visit (stack ++ [name]))
    {imports : List String}
    (edges : ∀ raw ∈ imports, files.Imports name (files.canonicalImportPath raw))
    {state : Resolver} (sound : state.Sound files entries) (top : state.stack = stack ++ [name]) :
    (imports.foldlM (visitImport files visit name) state).Ends
      (fun final => state.Grows files entries final ∧
        ∀ raw ∈ imports, files.canonicalImportPath raw ∈ final.order)
      (ResolveError.Justified files entries) := by
  induction imports generalizing state with
  | nil => exact ⟨⟨sound, rfl, List.prefix_rfl⟩, fun _ met => (nomatch met)⟩
  | cons raw imports ih =>
      rw [List.foldlM_cons]
      refine (visitImport_ends ends sound top (edges raw (by simp))).bind ?_
      rintro middle ⟨grows, met⟩
      refine (ih (fun other later => edges other (by simp [later])) grows.sound
        (grows.stack.trans top)).mono ?_ fun _ bad => bad
      rintro final ⟨grows', rest⟩
      refine ⟨grows.trans grows', fun other listed => ?_⟩
      rcases List.mem_cons.mp listed with rfl | later
      · exact grows'.order.subset met
      · exact rest other later

end Imports

/-- A visit ends, and finishes its file after everything the file imports. -/
theorem visit_ends (frames : Nat) {stack : List String} (shallow : stack.length ≤ kMaxImportDepth)
    (budget : kMaxImportDepth < frames + stack.length) :
    VisitEnds files entries (visit files frames) stack := by
  induction frames generalizing stack with
  | zero => omega
  | succ frames ih =>
      intro state name source sound top fresh read path
      subst top
      rw [visit]
      split
      · rename_i full
        exact ⟨_, path, by simpa using Nat.lt_succ_of_le full⟩
      rename_i room
      cases parsed : files.parse source with
      | error failure =>
          simp only [parseSource, parsed]
          refine ⟨name, path.reachable (by simp), fun imports loads => ?_⟩
          obtain ⟨source', read', parsed'⟩ := loads
          cases read.symm.trans read'
          cases parsed.symm.trans parsed'
      | ok imports =>
          simp only [parseSource, parsed, Outcome.ok_bind]
          have loads : files.Loads name imports := ⟨source, read, parsed⟩
          have entered := @Resolver.Sound.enter _ _ _ _ ⟨name, state.sources.length, imports⟩ sound
            fresh path rfl loads source
          have inner := @ih (state.stack ++ [name]) (by simp; omega) (by simp; omega)
          refine (visitImports_ends inner (fun raw met => ⟨imports, loads, raw, met, rfl⟩) entered
            rfl).bind ?_
          rintro last ⟨grows, done⟩
          have finished := grows.sound.finish grows.stack fun target imported => by
            obtain ⟨imports', loads', raw, met, rfl⟩ := imported
            cases loads.unique loads'
            exact done raw met
          refine ⟨⟨finished, ?_, grows.order.trans (List.prefix_append _ _)⟩,
            by simp [Resolver.finish]⟩
          simp [Resolver.finish, grows.stack, Resolver.enter]

/-! ## A whole resolution -/

theorem visitEntry_ends {state : Resolver} (sound : state.Sound files entries)
    (idle : state.stack = []) {entry : String} (listed : entry ∈ entries) :
    (visitEntry files state entry).Ends
      (fun final => state.Grows files entries final ∧
        files.canonicalEntryName entry ∈ final.order)
      (ResolveError.Justified files entries) := by
  rw [visitEntry]
  split
  · rename_i known
    refine ⟨⟨sound, rfl, List.prefix_rfl⟩, ?_⟩
    have met := (sound.parsed _).mp known
    rw [idle] at met
    exact met.resolve_left (by simp)
  rename_i unknown
  rw [sound.parsed, not_or] at unknown
  have fresh : state.color (files.canonicalEntryName entry) = none := by
    cases mark : state.color (files.canonicalEntryName entry) with
    | none => rfl
    | some color =>
        cases color with
        | gray => exact absurd ((sound.gray _).mp mark) unknown.1
        | black => exact absurd ((sound.black _).mp mark) unknown.2
  cases read : files.read (files.canonicalEntryName entry) with
  | none => exact ⟨listed, read⟩
  | some source =>
      have path : files.SimplePath entries ([] ++ [files.canonicalEntryName entry]) :=
        { root := by simpa using ⟨entry, listed, rfl⟩
          chain := List.isChain_singleton _
          once := List.nodup_singleton _ }
      exact visit_ends kImportFrames (by simp) (by decide) state _ source sound idle fresh read path

theorem visitEntries_ends {listed : List String} (subset : ∀ entry ∈ listed, entry ∈ entries)
    {state : Resolver} (sound : state.Sound files entries) (idle : state.stack = []) :
    (listed.foldlM (visitEntry files) state).Ends
      (fun final => state.Grows files entries final ∧
        ∀ entry ∈ listed, files.canonicalEntryName entry ∈ final.order)
      (ResolveError.Justified files entries) := by
  induction listed generalizing state with
  | nil => exact ⟨⟨sound, rfl, List.prefix_rfl⟩, fun _ met => (nomatch met)⟩
  | cons entry listed ih =>
      rw [List.foldlM_cons]
      refine (visitEntry_ends sound idle (subset entry (by simp))).bind ?_
      rintro middle ⟨grows, met⟩
      refine (ih (fun other later => subset other (by simp [later])) grows.sound
        (grows.stack.trans idle)).mono ?_ fun _ bad => bad
      rintro final ⟨grows', rest⟩
      refine ⟨grows.trans grows', fun other later => ?_⟩
      rcases List.mem_cons.mp later with rfl | later
      · exact grows'.order.subset met
      · exact rest other later

theorem sound_start (sources : List (String × String)) :
    ({ sources } : Resolver).Sound files entries where
  gray name := by simp
  black name := by simp
  parsed name := by simp
  loaded name file found := by cases found
  path := ⟨by simp, List.isChain_nil, List.nodup_nil⟩
  listed := .nil
  reached name met := by cases met

/-- The finished files are the reachable ones. -/
theorem Resolver.Sound.mem_order_iff {state : Resolver} (sound : state.Sound files entries)
    (roots : ∀ entry ∈ entries, files.canonicalEntryName entry ∈ state.order) {name : String} :
    name ∈ state.order ↔ files.Reachable entries name := by
  refine ⟨sound.reached name, ?_⟩
  rintro ⟨root, ⟨entry, listed, rfl⟩, leads⟩
  exact sound.listed.mem_of_reflTransGen (roots entry listed) leads

end Search

/-- What a resolved set promises. -/
structure ImportedFileSet.Ordered (files : Files) (entries : List String)
    (set : ImportedFileSet) : Prop where
  /-- No file is listed twice. -/
  once : (set.files.map ImportedFile.filename).Nodup
  /-- The listed files are the reachable ones. -/
  reachable : ∀ name, name ∈ set.files.map ImportedFile.filename ↔ files.Reachable entries name
  /-- Every file is listed as it was read. -/
  loaded : ∀ file ∈ set.files, files.Loads file.filename file.imports
  /-- Every file comes after the files it imports. -/
  after : ∀ before file later, set.files = before ++ file :: later → ∀ raw ∈ file.imports,
    files.canonicalImportPath raw ∈ before.map ImportedFile.filename
  /-- The table gives the position of every file. -/
  index : ∀ name i, set.fileIndex name = some i ↔
    (set.files.map ImportedFile.filename)[i]? = some name

theorem pushAll_spec (parsed : String → Option ImportedFile) {order : List String}
    (once : order.Nodup) :
    (order.foldl (ImportedFileSet.push parsed) {}).files =
        order.map (fun name => (parsed name).getD {}) ∧
      ∀ name i, (order.foldl (ImportedFileSet.push parsed) {}).fileIndex name = some i ↔
        order[i]? = some name := by
  induction order using List.reverseRecOn with
  | nil => simp
  | append_singleton order name ih =>
      obtain ⟨once, -, fresh⟩ := List.nodup_append.mp once
      obtain ⟨files, index⟩ := ih once
      rw [List.foldl_append, List.foldl_cons, List.foldl_nil]
      generalize order.foldl (ImportedFileSet.push parsed) {} = set at files index
      refine ⟨by simp [ImportedFileSet.push, files], fun other i => ?_⟩
      have absent : set.fileIndex name = none := by
        cases found : set.fileIndex name with
        | none => rfl
        | some i =>
            have met := List.mem_of_getElem? ((index name i).mp found)
            exact absurd rfl (fresh name met name (by simp))
      have size : set.files.length = order.length := by simp [files]
      simp only [ImportedFileSet.push, emplace, absent, Option.isSome_none, size,
        Bool.false_eq_true, if_false]
      by_cases inside : i < order.length
      · rw [List.getElem?_append_left inside, ← index other i]
        by_cases same : other = name
        · subst same
          rw [Function.update_self, absent]
          simpa using Nat.ne_of_gt inside
        · rw [Function.update_of_ne same]
      · rw [List.getElem?_append_right (not_lt.mp inside), List.getElem?_singleton]
        by_cases same : other = name
        · subst same
          rw [Function.update_self, Option.some.injEq]
          split <;> simp <;> omega
        · have outside : set.fileIndex other ≠ some i := by
            rw [Ne, index other i, List.getElem?_eq_none (not_lt.mp inside)]
            simp
          rw [Function.update_of_ne same]
          simp [outside, Ne.symm same]

section Resolution

variable {files : Files} {entries : List String}

theorem Resolver.Sound.ordered {state : Resolver} (sound : state.Sound files entries)
    (roots : ∀ entry ∈ entries, files.canonicalEntryName entry ∈ state.order) :
    (state.order.foldl (ImportedFileSet.push state.parsed) {}).Ordered files entries := by
  obtain ⟨listed, index⟩ := pushAll_spec state.parsed sound.listed.once
  generalize state.order.foldl (ImportedFileSet.push state.parsed) {} = set at listed index ⊢
  have loaded : ∀ name ∈ state.order, ((state.parsed name).getD {}).filename = name ∧
      files.Loads name ((state.parsed name).getD {}).imports := by
    intro name met
    obtain ⟨file, found⟩ := Option.isSome_iff_exists.mp ((sound.parsed name).mpr (.inr met))
    rw [found]
    exact sound.loaded name file found
  have names : set.files.map ImportedFile.filename = state.order := by
    rw [listed, List.map_map]
    exact (List.map_congr_left fun name met => (loaded name met).1).trans (List.map_id _)
  refine ⟨by rw [names]; exact sound.listed.once,
    fun name => by rw [names]; exact sound.mem_order_iff roots, ?_, ?_,
    fun name i => by rw [names]; exact index name i⟩
  · rw [listed]
    intro file met
    obtain ⟨name, named, rfl⟩ := List.mem_map.mp met
    rw [(loaded name named).1]
    exact (loaded name named).2
  · intro before file later split raw met
    rw [split, List.map_append, List.map_cons] at names
    have here : file.filename ∈ state.order := by simp [← names]
    refine sound.listed.after _ _ _ names.symm _ ⟨file.imports, ?_, raw, met, rfl⟩
    rw [listed] at split
    obtain ⟨name, named, rfl⟩ := List.mem_map.mp (split ▸ (by simp : file ∈ before ++ file :: later))
    rw [(loaded name named).1]
    exact (loaded name named).2

/-- A resolution ends, in a set that keeps its promises or in a justified error. -/
theorem resolve_ends (files : Files) (entries : List String) (sources : List (String × String)) :
    (resolve files entries sources).Ends
      (fun set => set.Ordered files entries ∧ ¬ files.Cyclic entries)
      (ResolveError.Justified files entries) := by
  rw [resolve]
  refine (visitEntries_ends (fun _ met => met) (sound_start sources) rfl).bind ?_
  rintro state ⟨grows, roots⟩
  refine ⟨grows.sound.ordered roots, ?_⟩
  rintro ⟨name, reached, cycle⟩
  exact grows.sound.listed.not_transGen ((grows.sound.mem_order_iff roots).mpr reached) cycle

/-- On a complete graph without overlong chains, an error is a cycle. -/
theorem Justified.cyclic {error : ResolveError} (justified : error.Justified files entries)
    (complete : files.Complete entries) (shallow : files.Shallow entries) :
    (∃ path, error = .cycle path) ∧ files.Cyclic entries := by
  cases error with
  | tooDeep =>
      obtain ⟨path, simple, long⟩ := justified
      exact absurd (shallow path simple) (not_le.mpr long)
  | parse error =>
      obtain ⟨name, reached, never⟩ := justified
      obtain ⟨imports, loads⟩ := complete name reached
      exact absurd loads (never imports)
  | cycle path =>
      obtain ⟨name, middle, rfl, reached, chain⟩ := justified
      exact ⟨⟨_, rfl⟩, name, reached, Files.transGen_of_isChain chain⟩
  | importNotFound path importer =>
      obtain ⟨reached, imported, missing⟩ := justified
      obtain ⟨imports, source, read, -⟩ := complete path (reached.step imported)
      cases missing.symm.trans read
  | entryNotFound entry =>
      obtain ⟨listed, missing⟩ := justified
      obtain ⟨imports, source, read, -⟩ := complete _ ⟨_, ⟨entry, listed, rfl⟩, .refl⟩
      cases missing.symm.trans read

/-- Import resolution ends for every graph; a resolved set lists the reachable files once, each
after its imports, with a table that agrees with the list; and where every reachable file loads and
no chain is too long, it fails exactly on a reachable cycle, with the cycle error. -/
theorem resolve_spec (files : Files) (entries : List String) (sources : List (String × String)) :
    (resolve files entries sources).Safe ∧
      (∀ set, resolve files entries sources = .ok set → set.Ordered files entries) ∧
      (files.Complete entries → files.Shallow entries →
        ((∃ path, resolve files entries sources = .fail (.cycle path)) ↔ files.Cyclic entries) ∧
        (¬ files.Cyclic entries → ∃ set, resolve files entries sources = .ok set)) := by
  have ends := resolve_ends files entries sources
  refine ⟨ends.safe, fun set resolved => ?_, fun complete shallow => ?_⟩
  · rw [resolved] at ends
    exact ends.1
  · cases result : resolve files entries sources with
    | ok set =>
        rw [result] at ends
        exact ⟨⟨fun ⟨_, impossible⟩ => (nomatch impossible), fun cycle => absurd cycle ends.2⟩,
          fun _ => ⟨set, rfl⟩⟩
    | fail error =>
        rw [result] at ends
        obtain ⟨⟨path, rfl⟩, cyclic⟩ := Justified.cyclic ends complete shallow
        exact ⟨⟨fun _ => cyclic, fun _ => ⟨path, rfl⟩⟩, fun acyclic => absurd cyclic acyclic⟩
    | outside => exact absurd result ends.safe.1
    | spin => exact absurd result ends.safe.2

end Resolution

/-! ## A diamond -/

section Diamond

variable {files : Files} {entries names : List String}

/-- Names that hold the entries and all imports of their files hold every reachable file. -/
theorem Files.Reachable.mem (root : ∀ entry ∈ entries, files.canonicalEntryName entry ∈ names)
    (closed : ∀ name ∈ names, ∀ target, files.Imports name target → target ∈ names) {name : String}
    (reached : files.Reachable entries name) : name ∈ names := by
  obtain ⟨start, ⟨entry, listed, rfl⟩, leads⟩ := reached
  induction leads with
  | refl => exact root entry listed
  | tail _ imported ih => exact closed _ ih _ imported

/-- A chain is no longer than the names it is made of. -/
theorem Files.shallow_of_mem (named : ∀ name, files.Reachable entries name → name ∈ names)
    (short : names.length ≤ kMaxImportDepth) : files.Shallow entries := by
  intro path simple
  have inside : path ⊆ names := fun name met => named name (simple.reachable met)
  exact (List.Nodup.subperm simple.once inside).length_le.trans short

/-- Imports that lead down leave no cycle. -/
theorem Files.not_cyclic_of_lt (rank : String → Nat)
    (down : ∀ name target, files.Imports name target → rank target < rank name) :
    ¬ files.Cyclic entries := by
  rintro ⟨name, -, around⟩
  have lower : ∀ {start stop}, TransGen files.Imports start stop → rank stop < rank start := by
    intro start stop leads
    induction leads with
    | single imported => exact down _ _ imported
    | tail _ imported ih => exact (down _ _ imported).trans ih
  exact lt_irrefl _ (lower around)

end Diamond

/-- `a` imports `b` and `c`, and both import `d`. -/
def diamond : Files where
  canonicalImportPath := id
  canonicalEntryName := id
  read name := if name ∈ ["a", "b", "c", "d"] then some name else none
  parse source := .ok (if source = "a" then ["b", "c"] else if source = "d" then [] else ["d"])

theorem diamond_imports {name target : String} (imported : diamond.Imports name target) :
    (name, target) ∈ [("a", "b"), ("a", "c"), ("b", "d"), ("c", "d")] := by
  obtain ⟨imports, ⟨source, read, parsed⟩, raw, listed, rfl⟩ := imported
  simp only [diamond, List.mem_cons, List.not_mem_nil, or_false, Option.ite_none_right_eq_some,
    Option.some.injEq] at read
  obtain ⟨known, rfl⟩ := read
  obtain rfl := Except.ok.inj parsed
  rcases known with rfl | rfl | rfl | rfl
  · simpa [diamond] using listed
  · simpa [diamond] using listed
  · simpa [diamond] using listed
  · simp at listed

theorem resolve_spec_diamond : ∃ set, resolve diamond ["a"] [] = .ok set := by
  have named : ∀ name, diamond.Reachable ["a"] name → name ∈ ["a", "b", "c", "d"] := by
    refine fun name => Files.Reachable.mem (by simp [diamond]) fun name _ target imported => ?_
    have known := diamond_imports imported
    simp only [List.mem_cons, Prod.mk.injEq, List.not_mem_nil, or_false] at known ⊢
    tauto
  have complete : diamond.Complete ["a"] := fun name reached =>
    ⟨_, name, if_pos (named name reached), rfl⟩
  have acyclic : ¬ diamond.Cyclic ["a"] := by
    refine Files.not_cyclic_of_lt
      (fun name => if name = "a" then 2 else if name = "d" then 0 else 1)
      fun name target imported => ?_
    have known := diamond_imports imported
    simp only [List.mem_cons, Prod.mk.injEq, List.not_mem_nil, or_false] at known
    rcases known with ⟨rfl, rfl⟩ | ⟨rfl, rfl⟩ | ⟨rfl, rfl⟩ | ⟨rfl, rfl⟩ <;> decide
  exact ((resolve_spec diamond ["a"] []).2.2 complete (Files.shallow_of_mem named (by decide))).2
    acyclic

end RapidProto
