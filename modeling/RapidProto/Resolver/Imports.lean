import Mathlib.Data.List.Chain
import Mathlib.Logic.Relation
import RapidProto.Outcome

/-!
# Import resolution

The depth-first resolver of `resolver.cpp`: gray and black marks, the stack of files being read, and
the post-order in which files are finished.  Reading a file and parsing it are given by a `Files`
record, so the import graph is arbitrary.
-/

namespace RapidProto

/-- The `Error` of a `Result`: the source it points into, the offset there, and the text. -/
structure ImportError where
  /-- Index of the source in the registry, if the error points into one. -/
  source : Option Nat := none
  /-- Offset into that source. -/
  byteOffset : Nat := 0
  /-- Text of the error. -/
  message : String
  deriving DecidableEq, Repr

/-- A parsed `FileNode`, as far as import resolution reads it. -/
structure ImportedFile where
  /-- Canonical name. -/
  filename : String := ""
  /-- Index of its text in the source registry. -/
  source : Nat := 0
  /-- Import paths as written. -/
  imports : List String := []
  deriving DecidableEq, Repr

/-- The files a resolver can read.  An entry is read by its own path and an import through the
include paths; both are the text of one canonical name. -/
structure Files where
  /-- Spelling of an import path that identifies the file. -/
  canonicalImportPath : String → String
  /-- The name an entry would have as an import. -/
  canonicalEntryName : String → String
  /-- Text of the file with a canonical name. -/
  read : String → Option String
  /-- Import paths of a text, or the offset and the message of its first error. -/
  parse : String → Except (Nat × String) (List String)
  /-- Number of include paths searched. -/
  includePaths : Nat := 0

/-- Why resolution fails. -/
inductive ResolveError where
  /-- The import chain is too long. -/
  | tooDeep
  /-- A file does not parse. -/
  | parse (error : ImportError)
  /-- An import leads back to a file being read; `path` starts and ends there. -/
  | cycle (path : List String)
  /-- An import is nowhere to be found. -/
  | importNotFound (path importer : String)
  /-- An entry is nowhere to be found. -/
  | entryNotFound (entry : String)
  deriving DecidableEq, Repr

/-- Longest import chain. -/
def kMaxImportDepth : Nat := 100

/-- The error as the caller sees it. -/
def ResolveError.toError (files : Files) : ResolveError → ImportError
  | tooDeep => { message := s!"import chain exceeds maximum depth ({kMaxImportDepth})" }
  | parse error => error
  | cycle path => { message := "import cycle: " ++ " -> ".intercalate path }
  | importNotFound path importer =>
    { message := s!"import not found: {path} (imported by {importer})" ++
        if files.includePaths = 0 then "; no include paths were given -- add -I <dir>"
        else s!"; searched {files.includePaths} include path(s) -- add the right -I <dir>" }
  | entryNotFound entry => { message := s!"entry file not found: {entry}" }

/-- Mark of a file the search has met. -/
inductive Color where
  | gray | black
  deriving DecidableEq, Repr

/-- The members of `Resolver`. -/
structure Resolver where
  /-- Mark of each file met. -/
  color : String → Option Color := fun _ => none
  /-- Each file parsed. -/
  parsed : String → Option ImportedFile := fun _ => none
  /-- Files being read, the entry first. -/
  stack : List String := []
  /-- Finished files. -/
  order : List String := []
  /-- Name and text of every file loaded. -/
  sources : List (String × String) := []

/-- `emplace`: an entry that exists is kept. -/
def emplace {α : Type} (table : String → Option α) (key : String) (value : α) :
    String → Option α :=
  if (table key).isSome then table else Function.update table key (some value)

/-- Lex and parse one source. -/
def parseSource (files : Files) (filename source : String) (id : Nat) :
    Outcome ResolveError ImportedFile :=
  match files.parse source with
  | .error (byteOffset, message) => .fail (.parse { source := some id, byteOffset, message })
  | .ok imports => .ok { filename, source := id, imports }

/-- The current stack as a cycle that ends back at `importPath`. -/
def renderCycle (state : Resolver) (importPath : String) : List String :=
  state.stack.dropWhile (· ≠ importPath) ++ [importPath]

/-- Mark a file gray and put it on the stack, registered and parsed. -/
def Resolver.enter (state : Resolver) (name source : String) (file : ImportedFile) : Resolver :=
  { color := Function.update state.color name (some .gray)
    parsed := emplace state.parsed name file
    stack := state.stack ++ [name]
    order := state.order
    sources := state.sources ++ [(name, source)] }

/-- Mark a file black and list it. -/
def Resolver.finish (state : Resolver) (name : String) : Resolver :=
  { state with
    color := Function.update state.color name (some .black)
    stack := state.stack.dropLast
    order := state.order ++ [name] }

/-- One import of the file `name`; `visit` reads a file not met before. -/
def visitImport (files : Files)
    (visit : String → String → Resolver → Outcome ResolveError Resolver) (name : String)
    (state : Resolver) (rawImport : String) : Outcome ResolveError Resolver :=
  let importPath := files.canonicalImportPath rawImport
  match state.color importPath with
  | some .gray => .fail (.cycle (renderCycle state importPath))
  | some .black => .ok state
  | none =>
    match files.read importPath with
    | none => .fail (.importNotFound importPath name)
    | some source => visit importPath source state

/-- Read a file and then its imports; `frames` bounds the native recursion. -/
def visit (files : Files) : (frames : Nat) → (name source : String) → Resolver →
    Outcome ResolveError Resolver
  | 0, _, _, _ => .spin
  | frames + 1, name, source, state =>
    if kMaxImportDepth ≤ state.stack.length then .fail .tooDeep
    else do
      let file ← parseSource files name source state.sources.length
      let state ← file.imports.foldlM (visitImport files (visit files frames) name)
        (state.enter name source file)
      .ok (state.finish name)

/-- Deepest recursion of `visit`: a call with a full stack returns at once. -/
def kImportFrames : Nat := kMaxImportDepth + 1

/-- One entry file, unless it was resolved with an earlier one, as an entry or as its import. -/
def visitEntry (files : Files) (state : Resolver) (entry : String) :
    Outcome ResolveError Resolver :=
  let name := files.canonicalEntryName entry
  if (state.parsed name).isSome then .ok state
  else
    match files.read name with
    | none => .fail (.entryNotFound entry)
    | some source => visit files kImportFrames name source state

/-- The `ResolvedFileSet`: the files, with their positions by name. -/
structure ImportedFileSet where
  /-- The files, a file's imports before it. -/
  files : List ImportedFile := []
  /-- Position of a canonical name. -/
  fileIndex : String → Option Nat := fun _ => none

/-- Append the file of a finished name. -/
def ImportedFileSet.push (parsed : String → Option ImportedFile) (set : ImportedFileSet)
    (name : String) : ImportedFileSet :=
  { files := set.files ++ [(parsed name).getD {}]
    fileIndex := emplace set.fileIndex name set.files.length }

/-- Resolve every entry into one set. -/
def resolve (files : Files) (entries : List String) (sources : List (String × String)) :
    Outcome ResolveError ImportedFileSet := do
  let state ← entries.foldlM (visitEntry files) { sources }
  .ok (state.order.foldl (ImportedFileSet.push state.parsed) {})

end RapidProto
