import Mathlib.Data.List.Infix
import RapidProto.Fresh
import RapidProto.Front.Ast

/-!
# C++ identifiers of proto names

`sanitize` of `naming.cpp` escapes a proto name that is not usable as it stands: a keyword, a name
the generated classes declare for themselves, a macro, or a name in the space the generators keep
for their own.  A package becomes a namespace component by component, and the prefix of all
namespaces is taken as written unless it cannot compile.
-/

namespace RapidProto
namespace Codegen

open Front

/-! ## Names that are not usable -/

/-- `cpp_reserved`: no C++ name at all, and `std`. -/
def cppReserved : List Text :=
  ["alignas", "alignof", "and", "and_eq", "bitand", "bitor", "compl", "not", "not_eq", "or",
    "or_eq", "xor", "xor_eq", "asm", "auto", "bool", "break", "case", "catch", "char", "char16_t",
    "char32_t", "class", "const", "constexpr", "continue", "decltype", "default", "delete", "do",
    "double", "else", "enum", "explicit", "export", "extern", "false", "float", "for", "friend",
    "goto", "if", "inline", "int", "long", "mutable", "namespace", "new", "noexcept", "nullptr",
    "operator", "private", "protected", "public", "register", "return", "short", "signed",
    "sizeof", "static", "struct", "switch", "template", "this", "throw", "true", "try", "typedef",
    "typeid", "typename", "union", "unsigned", "using", "virtual", "void", "volatile", "wchar_t",
    "while", "thread_local", "const_cast", "dynamic_cast", "reinterpret_cast", "static_assert",
    "static_cast", "char8_t", "concept", "consteval", "constinit", "co_await", "co_return",
    "co_yield", "requires", "std"].map text

/-- `member_reserved`: names the generated classes use for members of their own. -/
def memberReserved : List Text :=
  ["Value", "Key", "kNumber", "kName", "decode"].map text

/-- The macros that `expands_as_macro` lists. -/
def kMacros : List Text :=
  ["EOF", "NULL", "NAN", "INFINITY", "ERROR", "TRUE", "FALSE", "BUFSIZ", "EXIT_SUCCESS",
    "EXIT_FAILURE", "RAND_MAX", "SEEK_SET", "SEEK_CUR", "SEEK_END", "errno", "stdin", "stdout",
    "stderr", "linux", "unix", "INT8_MIN", "INT16_MIN", "INT32_MIN", "INT64_MIN", "INT8_MAX",
    "INT16_MAX", "INT32_MAX", "INT64_MAX", "UINT8_MAX", "UINT16_MAX", "UINT32_MAX", "UINT64_MAX",
    "INT_LEAST8_MIN", "INT_LEAST16_MIN", "INT_LEAST32_MIN", "INT_LEAST64_MIN", "INT_LEAST8_MAX",
    "INT_LEAST16_MAX", "INT_LEAST32_MAX", "INT_LEAST64_MAX", "UINT_LEAST8_MAX", "UINT_LEAST16_MAX",
    "UINT_LEAST32_MAX", "UINT_LEAST64_MAX", "INT_FAST8_MIN", "INT_FAST16_MIN", "INT_FAST32_MIN",
    "INT_FAST64_MIN", "INT_FAST8_MAX", "INT_FAST16_MAX", "INT_FAST32_MAX", "INT_FAST64_MAX",
    "UINT_FAST8_MAX", "UINT_FAST16_MAX", "UINT_FAST32_MAX", "UINT_FAST64_MAX", "INTPTR_MIN",
    "INTPTR_MAX", "UINTPTR_MAX", "INTMAX_MIN", "INTMAX_MAX", "UINTMAX_MAX", "PTRDIFF_MIN",
    "PTRDIFF_MAX", "SIZE_MAX", "SIG_ATOMIC_MIN", "SIG_ATOMIC_MAX", "WCHAR_MIN", "WCHAR_MAX",
    "WINT_MIN", "WINT_MAX", "INT8_C", "INT16_C", "INT32_C", "INT64_C", "INTMAX_C", "UINT8_C",
    "UINT16_C", "UINT32_C", "UINT64_C", "UINTMAX_C"].map text

/-- `name.rfind(start, 0) == 0`. -/
def startsWith (start : String) (name : Text) : Bool := (text start).isPrefixOf name

/-- `expands_as_macro`. -/
def expandsAsMacro (name : Text) : Bool := startsWith "RP_" name || kMacros.contains name

/-- The condition under which `sanitize` escapes a name. -/
def isReserved (name : Text) : Bool :=
  startsWith "rp_" name || cppReserved.contains name || memberReserved.contains name ||
    expandsAsMacro name

/-- `sanitize`. -/
def sanitize (name : Text) : Text := if isReserved name then name ++ text "_" else name

/-- From an identifier in use to the next one to try. -/
def underscore : Escalation Text where
  next id := id ++ text "_"
  size := List.length
  grows id := by simp [text]

/-! ## Namespaces -/

/-- `::`. -/
def colons : Text := text "::"

/-- The loop over a dotted name: each component that is not empty is visited. -/
def forEachComponent {σ : Type} (visit : σ → Text → σ) (start : σ) (dotted : Text) : σ :=
  let flush (state : σ) (component : Text) : σ :=
    if component = [] then state else visit state component
  let scanned := dotted.foldl (fun (state, component) ch =>
    if ch = byte '.' then (flush state component, []) else (state, component ++ [ch])) (start, [])
  flush scanned.1 scanned.2

/-- `dotted_to_ns`. -/
def dottedToNs (dotted : Text) (escape : Text → Text) : Text :=
  forEachComponent (fun out component =>
    (if out = [] then [] else out ++ colons) ++ escape component) [] dotted

/-- `namespace_of`. -/
def namespaceOf (package : Text) : Text := dottedToNs package sanitize

/-- `join_ns`. -/
def joinNs (a b : Text) : Text := if a = [] then b else if b = [] then a else a ++ colons ++ b

/-- `kCommonRoot`. -/
def kCommonRoot : Text := text "common"

/-- `kArenaRoot`. -/
def kArenaRoot : Text := text "arena"

/-- `kStreamRoot`. -/
def kStreamRoot : Text := text "stream"

/-- `kDefaultNsPrefix`. -/
def kDefaultNsPrefix : Text := text "rp"

/-! ## What an identifier looks like -/

/-- An identifier that compiles wherever the generators put it: no word of the three lists, and in
the space of the generators only with an underscore at the end, where they put none. -/
structure Usable (id : Text) : Prop where
  notReserved : id ∉ cppReserved
  notMember : id ∉ memberReserved
  notMacro : id ∉ kMacros
  outside : startsWith "rp_" id ∨ startsWith "RP_" id → id.getLast? = some (byte '_')

/-- No word of the lists ends in an underscore. -/
theorem getLast?_ne_underscore {word : Text}
    (listed : word ∈ cppReserved ∨ word ∈ memberReserved ∨ word ∈ kMacros) :
    word.getLast? ≠ some (byte '_') := by
  have reserved : cppReserved.all (fun w => w.getLast? != some (byte '_')) = true := by decide
  have members : memberReserved.all (fun w => w.getLast? != some (byte '_')) = true := by decide
  have macros : kMacros.all (fun w => w.getLast? != some (byte '_')) = true := by decide
  simp only [List.all_eq_true, bne_iff_ne] at reserved members macros
  rcases listed with listed | listed | listed
  · exact reserved word listed
  · exact members word listed
  · exact macros word listed

/-- An underscore makes every identifier usable. -/
theorem usable_underscore (id : Text) : Usable (id ++ text "_") := by
  have last : (id ++ text "_").getLast? = some (byte '_') := by simp [text]
  exact ⟨fun listed => getLast?_ne_underscore (.inl listed) last,
    fun listed => getLast?_ne_underscore (.inr (.inl listed)) last,
    fun listed => getLast?_ne_underscore (.inr (.inr listed)) last, fun _ => last⟩

theorem usable_of_not_reserved {name : Text} (free : isReserved name = false) : Usable name := by
  simp only [isReserved, expandsAsMacro, Bool.or_eq_false_iff, List.contains_eq_mem,
    decide_eq_false_iff_not] at free
  obtain ⟨⟨⟨lower, reserved⟩, member⟩, upper, macros⟩ := free
  refine ⟨reserved, member, macros, fun inside => ?_⟩
  rcases inside with inside | inside
  · exact absurd inside (by simp [lower])
  · exact absurd inside (by simp [upper])

/-- What `sanitize` returns is usable. -/
theorem usable_sanitize (name : Text) : Usable (sanitize name) := by
  rw [sanitize]
  split_ifs with reserved
  · exact usable_underscore name
  · exact usable_of_not_reserved (by simpa using reserved)

/-- So is everything reached from it. -/
theorem usable_iterate {id : Text} (usable : Usable id) (turns : Nat) :
    Usable (underscore.next^[turns] id) := by
  cases turns with
  | zero => exact usable
  | succ turns =>
      rw [Function.iterate_succ_apply']
      exact usable_underscore _

theorem underscore_iterate (id : Text) (turns : Nat) :
    underscore.next^[turns] id = id ++ List.replicate turns (byte '_') := by
  induction turns generalizing id with
  | zero => simp
  | succ turns ih =>
      rw [Function.iterate_succ_apply, ih]
      simp [underscore, text, List.replicate_succ]

theorem sanitize_ne_nil {name : Text} (named : name ≠ []) : sanitize name ≠ [] := by
  rw [sanitize]
  split_ifs <;> simp [named]

/-! ## Components -/

/-- The components of a dotted name. -/
def components (dotted : Text) : List Text := (dotted.splitOn (byte '.')).filter (· ≠ [])

/-- The loop visits the components in order. -/
theorem forEachComponent_eq {σ : Type} (visit : σ → Text → σ) (start : σ) (dotted : Text) :
    forEachComponent visit start dotted = (components dotted).foldl visit start := by
  let flush (state : σ) (component : Text) : σ :=
    if component = [] then state else visit state component
  let turn (scanned : σ × Text) (ch : Byte) : σ × Text :=
    if ch = byte '.' then (flush scanned.1 scanned.2, []) else (scanned.1, scanned.2 ++ [ch])
  have skip (state : σ) (piece : Text) (pieces : List Text) :
      ((piece :: pieces).filter (· ≠ [])).foldl visit state =
        (pieces.filter (· ≠ [])).foldl visit (flush state piece) := by
    by_cases empty : piece = [] <;> simp [flush, empty]
  have scan (state : σ) (component : Text) :
      flush (dotted.foldl turn (state, component)).1 (dotted.foldl turn (state, component)).2 =
        (((dotted.splitOn (byte '.')).modifyHead (component ++ ·)).filter (· ≠ [])).foldl
          visit state := by
    induction dotted generalizing state component with
    | nil =>
        rw [List.splitOn_nil, List.modifyHead_cons, List.append_nil, skip]
        rfl
    | cons ch dotted ih =>
        rw [List.splitOn_cons_eq_if_modifyHead, List.foldl_cons]
        by_cases dot : ch = byte '.'
        · rw [show turn (state, component) ch = (flush state component, []) from if_pos dot, ih,
            if_pos (by simpa using dot), List.modifyHead_cons, List.append_nil, skip]
          congr 2
          cases dotted.splitOn (byte '.') <;> rfl
        · rw [show turn (state, component) ch = (state, component ++ [ch]) from if_neg dot, ih,
            if_neg (by simpa using dot), List.modifyHead_modifyHead]
          congr 3
          funext piece
          simp
  refine (scan start []).trans ?_
  rw [components]
  congr 2
  cases dotted.splitOn (byte '.') <;> rfl

/-! ## Qualified names -/

/-- Segments of a qualified name, each behind `::`. -/
def spell (segments : List Text) : Text := segments.flatMap (colons ++ ·)

@[simp] theorem spell_nil : spell [] = [] := rfl

@[simp] theorem spell_cons (segment : Text) (segments : List Text) :
    spell (segment :: segments) = colons ++ segment ++ spell segments := by
  simp [spell]

@[simp] theorem spell_append (first second : List Text) :
    spell (first ++ second) = spell first ++ spell second := List.flatMap_append

/-- The namespaces a package opens, outermost first. -/
def scopes (package : Text) : List Text := (components package).map sanitize

/-- A dotted name inside a namespace. -/
theorem joinNs_dottedToNs {outer : Text} (named : outer ≠ []) (dotted : Text)
    {escape : Text → Text} (kept : ∀ name, name ≠ [] → escape name ≠ []) :
    joinNs outer (dottedToNs dotted escape) = outer ++ spell ((components dotted).map escape) := by
  have behind (out : Text) (given : out ≠ []) (pieces : List Text) :
      pieces.foldl (fun out component =>
        (if out = [] then [] else out ++ colons) ++ escape component) out =
          out ++ spell (pieces.map escape) := by
    induction pieces generalizing out with
    | nil => simp
    | cons piece pieces ih =>
        rw [List.foldl_cons, if_neg given, ih _ (by simp [given])]
        simp
  rw [dottedToNs, forEachComponent_eq]
  have pieces : ∀ piece ∈ components dotted, piece ≠ [] := by
    intro piece listed
    simpa using (List.mem_filter.mp listed).2
  cases split : components dotted with
  | nil => simp [joinNs, named]
  | cons piece rest =>
      have given := kept piece (pieces piece (split ▸ List.mem_cons_self))
      rw [List.foldl_cons, if_pos rfl, List.nil_append, behind _ given, joinNs, if_neg named,
        if_neg (by simp [given])]
      simp

theorem joinNs_namespaceOf {outer : Text} (named : outer ≠ []) (package : Text) :
    joinNs outer (namespaceOf package) = outer ++ spell (scopes package) :=
  joinNs_dottedToNs named package fun _ => sanitize_ne_nil

/-- A property of names that an underscore at the end does not take away. -/
structure Kept (P : Text → Prop) : Prop where
  snoc : ∀ name, P name → P (name ++ text "_")

theorem Kept.sanitize {P : Text → Prop} (kept : Kept P) {name : Text} (holds : P name) :
    P (sanitize name) := by
  rw [Codegen.sanitize]
  split_ifs
  · exact kept.snoc name holds
  · exact holds

theorem Kept.iterate {P : Text → Prop} (kept : Kept P) {id : Text} (holds : P id) (turns : Nat) :
    P (underscore.next^[turns] id) := by
  induction turns with
  | zero => exact holds
  | succ turns ih =>
      rw [Function.iterate_succ_apply']
      exact kept.snoc _ ih

/-- Underscores are the only characters that escapes add. -/
theorem kept_avoids {c : Byte} (other : c ≠ byte '_') : Kept fun name => c ∉ name := by
  constructor
  intro name absent listed
  rcases List.mem_append.mp listed with before | last
  · exact absent before
  · exact other (List.mem_singleton.mp last)

/-- The name has no colon in it. -/
def Plain (name : Text) : Prop := byte ':' ∉ name

theorem kept_plain : Kept Plain := kept_avoids (by decide)

theorem mem_of_mem_components {dotted component : Text} (listed : component ∈ components dotted)
    {c : Byte} (inside : c ∈ component) : c ∈ dotted := by
  have split : component ∈ dotted.splitOn (byte '.') := (List.mem_filter.mp listed).1
  have whole : [byte '.'].intercalate (dotted.splitOn (byte '.')) = dotted :=
    List.intercalate_splitOn _
  rw [← whole]
  generalize dotted.splitOn (byte '.') = pieces at split
  induction pieces with
  | nil => cases split
  | cons piece pieces ih =>
      cases pieces with
      | nil => simpa [List.intercalate, List.mem_singleton.mp split] using inside
      | cons next pieces =>
          rw [List.intercalate_cons_cons]
          rcases List.mem_cons.mp split with rfl | later
          · simp [inside]
          · simp [ih later]

/-- A character that is not in a package is in none of its namespaces. -/
theorem avoids_scopes {c : Byte} (other : c ≠ byte '_') {package : Text} (absent : c ∉ package) :
    ∀ segment ∈ scopes package, c ∉ segment := by
  intro segment listed
  obtain ⟨component, member, rfl⟩ := List.mem_map.mp listed
  apply (kept_avoids other).sanitize
  exact fun inside => absent (mem_of_mem_components member inside)

theorem avoids_joinNs {c : Byte} (colon : c ≠ byte ':') {a b : Text} (absent : c ∉ a)
    (absent' : c ∉ b) : c ∉ joinNs a b := by
  rw [joinNs]
  split_ifs
  · exact absent'
  · exact absent
  · simp [colons, text, colon, absent, absent']

theorem avoids_namespaceOf {c : Byte} (other : c ≠ byte '_') (colon : c ≠ byte ':')
    {package : Text} (absent : c ∉ package) : c ∉ namespaceOf package := by
  have pieces : ∀ component ∈ components package, c ∉ sanitize component :=
    fun component listed => avoids_scopes other absent _ (List.mem_map_of_mem listed)
  rw [namespaceOf, dottedToNs, forEachComponent_eq]
  apply List.foldlRecOn (components package) _ (motive := fun out => c ∉ out)
  · exact List.not_mem_nil
  · intro out before component listed
    have front : c ∉ if out = [] then [] else out ++ colons := by
      split_ifs
      · exact List.not_mem_nil
      · simp [colons, text, colon, before]
    rw [List.mem_append, not_or]
    exact ⟨front, pieces component listed⟩

/-- A qualified name has one reading. -/
theorem spell_injective {first second : List Text} (plain : ∀ segment ∈ first, Plain segment)
    (plain' : ∀ segment ∈ second, Plain segment) (same : spell first = spell second) :
    first = second := by
  have front {segment : Text} (plain : Plain segment) (segments : List Text) :
      (segment ++ spell segments).takeWhile (· != byte ':') = segment := by
    rw [List.takeWhile_append_of_pos (by
      intro c listed
      simp only [bne_iff_ne]
      rintro rfl
      exact plain listed)]
    cases segments <;> simp [colons, text]
  induction first generalizing second with
  | nil =>
      cases second with
      | nil => rfl
      | cons segment second => simp [colons, text] at same
  | cons segment first ih =>
      cases second with
      | nil => simp [colons, text] at same
      | cons segment' second =>
          rw [spell_cons, spell_cons, List.append_assoc, List.append_assoc,
            List.append_cancel_left_eq] at same
          have head : segment = segment' := by
            rw [← front (plain segment List.mem_cons_self) first, same,
              front (plain' segment' List.mem_cons_self) second]
          subst head
          rw [List.append_cancel_left_eq] at same
          rw [ih (fun other listed => plain other (List.mem_cons_of_mem _ listed))
            (fun other listed => plain' other (List.mem_cons_of_mem _ listed)) same]

end Codegen
end RapidProto
