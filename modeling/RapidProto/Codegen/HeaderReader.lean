import RapidProto.Codegen.Header

/-!
# Reading the common header

What a C++ compiler finds in the emitted header, as far as enums go: it follows the namespaces, and
meets each enum with its enumerators.  These are the enums of the file, each under the absolute name
by which the other headers refer to it.
-/

namespace RapidProto
namespace Codegen

open Front

/-! ## The reader -/

/-- What has been met in a header. -/
structure HeaderState where
  /-- The namespaces that are open, the outermost first. -/
  inside : List Text := []
  /-- The enums, by the names that lead to them, with their enumerators. -/
  enums : List (List Text × List Text) := []

namespace HeaderState

/-- An enumerator belongs to the enum met last. -/
def addEnumerator (state : HeaderState) (name : Text) : HeaderState :=
  match state.enums.getLast? with
  | some (path, names) => { state with enums := state.enums.dropLast ++ [(path, names ++ [name])] }
  | none => state

/-- A line, by its words. -/
def readWords (state : HeaderState) : List Text → HeaderState
  | [] => state
  | first :: rest =>
    if first = text "namespace" then { state with inside := state.inside ++ rest.take 1 }
    else if first = text "\x7d" then { state with inside := state.inside.dropLast }
    else if first = text "enum" then
      { state with enums := state.enums ++ [(state.inside ++ (rest.drop 1).take 1, [])] }
    else if rest.head? = some (text "=") then state.addEnumerator first
    else state

/-- A line: a comment or a directive tells nothing. -/
def readLine (state : HeaderState) (line : Text) : HeaderState :=
  let line := line.dropWhile (· == byte ' ')
  if (text "//").isPrefixOf line || (text "#").isPrefixOf line then state
  else state.readWords (line.splitOn (byte ' '))

/-- One character, with the line so far. -/
def readChar (scanned : HeaderState × Text) (ch : Byte) : HeaderState × Text :=
  if ch = byte '\n' then (scanned.1.readLine scanned.2, []) else (scanned.1, scanned.2 ++ [ch])

end HeaderState

/-- The enums that a header declares, by their absolute names. -/
def readHeader (header : Text) : List (Text × List Text) :=
  (header.foldl HeaderState.readChar ({}, [])).1.enums.map fun (path, names) => (spell path, names)

/-! ## Lines -/

namespace HeaderState

theorem dropWhile_indentation (indentation : Nat) {line : Text}
    (visible : line.head? ≠ some (byte ' ')) :
    (List.replicate indentation (byte ' ') ++ line).dropWhile (· == byte ' ') = line := by
  rw [List.dropWhile_append_of_pos (by
    intro ch listed
    rw [List.eq_of_mem_replicate listed, beq_self_eq_true])]
  cases line with
  | nil => rfl
  | cons ch line =>
      apply List.dropWhile_cons_of_neg
      rw [beq_iff_eq]
      rintro rfl
      exact visible rfl

/-- A line is read by its words, however far it is indented. -/
theorem readLine_words (state : HeaderState) (indentation : Nat) {first : Text} (rest : Text)
    (whole : byte ' ' ∉ first) {c : Byte} (head : first.head? = some c) (code : c ≠ byte '/')
    (code' : c ≠ byte '#') :
    state.readLine (List.replicate indentation (byte ' ') ++ (first ++ byte ' ' :: rest)) =
      state.readWords (first :: rest.splitOn (byte ' ')) := by
  obtain ⟨tail, rfl⟩ := List.head?_eq_some_iff.mp head
  have visible : (c :: tail ++ byte ' ' :: rest).head? ≠ some (byte ' ') := by
    intro same
    obtain rfl := Option.some.inj same
    exact whole List.mem_cons_self
  have comment : (text "//").isPrefixOf (c :: tail ++ byte ' ' :: rest) = false := by
    simp [text, List.isPrefixOf, Ne.symm code]
  have directive : (text "#").isPrefixOf (c :: tail ++ byte ' ' :: rest) = false := by
    simp [text, List.isPrefixOf, Ne.symm code']
  rw [readLine, dropWhile_indentation indentation visible, comment, directive,
    List.splitOn_append_cons_self_of_not_mem whole]
  rfl

theorem readLine_namespace (state : HeaderState) (indentation : Nat) {id : Text}
    (whole : byte ' ' ∉ id) :
    state.readLine (List.replicate indentation (byte ' ') ++
        (text "namespace " ++ id ++ text " \x7b")) =
      { state with inside := state.inside ++ [id] } := by
  have split : text "namespace " ++ id ++ text " \x7b" =
      text "namespace" ++ byte ' ' :: (id ++ byte ' ' :: text "\x7b") := by simp [text]
  rw [split, state.readLine_words indentation _ (by decide) rfl (by decide) (by decide),
    List.splitOn_append_cons_self_of_not_mem whole, readWords, if_pos rfl]
  rfl

theorem readLine_close (state : HeaderState) (indentation : Nat) (id : Text) :
    state.readLine (List.replicate indentation (byte ' ') ++
        (text "\x7d  // namespace " ++ id)) =
      { state with inside := state.inside.dropLast } := by
  have split : text "\x7d  // namespace " ++ id =
      text "\x7d" ++ byte ' ' :: (text " // namespace " ++ id) := by simp [text]
  rw [split, state.readLine_words indentation _ (by decide) rfl (by decide) (by decide), readWords,
    if_neg (by decide), if_pos rfl]

theorem readLine_enum (state : HeaderState) (indentation : Nat) {id : Text}
    (whole : byte ' ' ∉ id) :
    state.readLine (List.replicate indentation (byte ' ') ++
        (text "enum class " ++ id ++ text " : std::int32_t \x7b")) =
      { state with enums := state.enums ++ [(state.inside ++ [id], [])] } := by
  have split : text "enum class " ++ id ++ text " : std::int32_t \x7b" = text "enum" ++ byte ' ' ::
      (text "class" ++ byte ' ' :: (id ++ byte ' ' :: text ": std::int32_t \x7b")) := by simp [text]
  rw [split, state.readLine_words indentation _ (by decide) rfl (by decide) (by decide),
    List.splitOn_append_cons_self_of_not_mem (by decide),
    List.splitOn_append_cons_self_of_not_mem whole, readWords, if_neg (by decide),
    if_neg (by decide), if_pos rfl]
  rfl

theorem readLine_closeEnum (state : HeaderState) (indentation : Nat) :
    state.readLine (List.replicate indentation (byte ' ') ++ text "\x7d;") = state := by
  rw [readLine, dropWhile_indentation indentation (by decide)]
  rfl

/-- Comments and directives are passed over. -/
theorem readLine_aside (state : HeaderState) (indentation : Nat) {line : Text}
    (aside : (text "//").isPrefixOf line = true ∨ (text "#").isPrefixOf line = true) :
    state.readLine (List.replicate indentation (byte ' ') ++ line) = state := by
  have visible : line.head? ≠ some (byte ' ') := by
    intro same
    obtain ⟨rest, rfl⟩ := List.head?_eq_some_iff.mp same
    rcases aside with aside | aside <;>
    · have first := List.isPrefixOf_iff_prefix.mp aside
      obtain ⟨same, -⟩ := List.cons_prefix_cons.mp first
      exact absurd same (by decide)
  rw [readLine, dropWhile_indentation indentation visible, if_pos (by simpa using aside)]

/-- A name as the lexer makes it. -/
def Word (name : Text) : Prop := ∀ c ∈ name, isLetterOrDigit c = true

theorem Word.avoids {name : Text} (word : Word name) {c : Byte}
    (other : isLetterOrDigit c = false) : c ∉ name := by
  intro listed
  rw [word c listed] at other
  cases other

theorem kept_word : Kept Word := by
  constructor
  intro name word c listed
  rcases List.mem_append.mp listed with before | last
  · exact word c before
  · obtain rfl := List.mem_singleton.mp last
    decide

/-- What can stand for an enumerator. -/
structure Enumerator (name : Text) : Prop where
  word : Word name
  named : name ≠ []
  notNamespace : name ≠ text "namespace"
  notEnum : name ≠ text "enum"

theorem readLine_enumerator (inside : List Text) (enums : List (List Text × List Text))
    (path known : List Text) (indentation : Nat) {name : Text} (enumerator : Enumerator name)
    (value : Text) :
    readLine ⟨inside, enums ++ [(path, known)]⟩ (List.replicate indentation (byte ' ') ++
        (name ++ text " = " ++ value)) =
      ⟨inside, enums ++ [(path, known ++ [name])]⟩ := by
  have split : name ++ text " = " ++ value =
      name ++ byte ' ' :: (text "=" ++ byte ' ' :: value) := by simp [text]
  obtain ⟨c, tail, rfl⟩ := List.exists_cons_of_ne_nil enumerator.named
  have first := enumerator.word c List.mem_cons_self
  have other {ch : Byte} (sign : isLetterOrDigit ch = false) : c ≠ ch := by
    rintro rfl
    rw [first] at sign
    cases sign
  have notClose : c :: tail ≠ text "\x7d" := by
    intro same
    exact other (by decide) (List.cons.inj same).1
  rw [split, readLine_words _ indentation _ (enumerator.word.avoids (by decide)) rfl
      (other (by decide)) (other (by decide)),
    List.splitOn_append_cons_self_of_not_mem (by decide), readWords,
    if_neg enumerator.notNamespace, if_neg notClose, if_neg enumerator.notEnum,
    if_pos List.head?_cons, addEnumerator, List.getLast?_concat, List.dropLast_concat]

end HeaderState

/-! ## Printing and reading -/

/-- The printer is at the start of a line, and what it has printed reads as a state. -/
structure Reads (printer : Printer) (state : HeaderState) : Prop where
  start : printer.atLineStart = true
  read : printer.out.foldl HeaderState.readChar ({}, []) = (state, [])

namespace Printer

theorem print_append (printer : Printer) (first second : Text) :
    printer.print (first ++ second) = (printer.print first).print second := List.foldl_append

/-- Inside a line, characters are printed as they are. -/
theorem print_inside (printer : Printer) {line : Text} (inside : printer.atLineStart = false)
    (single : byte '\n' ∉ line) : printer.print line = { printer with out := printer.out ++ line } := by
  induction line generalizing printer with
  | nil => simp [print]
  | cons ch line ih =>
      rw [List.mem_cons, not_or] at single
      have step : printer.put ch = { printer with out := printer.out ++ [ch] } := by
        rw [put, if_neg (Ne.symm single.1)]
        simp [inside]
      have later := ih { printer with out := printer.out ++ [ch] } inside single.2
      rw [print, List.foldl_cons, step, ← print, later]
      simp

/-- A line is printed behind its indentation. -/
theorem print_line (printer : Printer) {line : Text} (start : printer.atLineStart = true)
    (single : byte '\n' ∉ line) (some_text : line ≠ []) :
    printer.print (line ++ text "\n") = { printer with
      out := printer.out ++ (List.replicate (2 * printer.level) (byte ' ') ++ line ++ text "\n") } := by
  obtain ⟨ch, rest, rfl⟩ := List.exists_cons_of_ne_nil some_text
  rw [List.mem_cons, not_or] at single
  let begun : Printer :=
    { printer with
      out := printer.out ++ List.replicate (2 * printer.level) (byte ' ') ++ [ch]
      atLineStart := false }
  have step : printer.put ch = begun := by
    rw [put, if_neg (Ne.symm single.1), start]
    rfl
  have whole : printer.print (ch :: rest) = { begun with out := begun.out ++ rest } := by
    rw [print, List.foldl_cons, step, ← print, print_inside begun rfl single.2]
  rw [print_append, whole]
  simp [print, put, text, begun, start]

end Printer

namespace HeaderState

theorem foldl_readChar (state : HeaderState) (seen : Text) {line : Text}
    (single : byte '\n' ∉ line) : line.foldl readChar (state, seen) = (state, seen ++ line) := by
  induction line generalizing seen with
  | nil => simp
  | cons ch line ih =>
      rw [List.mem_cons, not_or] at single
      rw [List.foldl_cons, readChar, if_neg (Ne.symm single.1), ih _ single.2]
      simp

end HeaderState

/-- A number is on one line, its comma too. -/
theorem decimal_avoids (i : Int) : byte '\n' ∉ decimal i ++ text "," := by
  have digits (n : Nat) : byte '\n' ∉ decimalNat n := by
    rw [decimalNat]
    split_ifs
    · decide
    · intro listed
      obtain ⟨digit, inside, same⟩ := List.mem_map.mp listed
      have small : digit < 10 := Nat.digits_lt_base (by decide) (List.mem_reverse.mp inside)
      have all : ∀ digit < 10, byte '0' + BitVec.ofNat 8 digit ≠ byte '\n' := by decide
      exact all digit small same
  rw [List.mem_append, not_or, decimal]
  refine ⟨?_, by decide⟩
  split_ifs
  · rw [List.mem_append, not_or]
    exact ⟨by decide, digits _⟩
  · exact digits _

namespace Reads

variable {printer : Printer} {state : HeaderState}

theorem indent (reads : Reads printer state) : Reads printer.indent state :=
  ⟨reads.start, reads.read⟩

theorem outdent (reads : Reads printer state) : Reads printer.outdent state :=
  ⟨reads.start, reads.read⟩

/-- A printed line is read. -/
theorem line (reads : Reads printer state) {line : Text} (single : byte '\n' ∉ line)
    (some_text : line ≠ []) :
    Reads (printer.print (line ++ text "\n"))
      (state.readLine (List.replicate (2 * printer.level) (byte ' ') ++ line)) := by
  rw [printer.print_line reads.start single some_text]
  refine ⟨reads.start, ?_⟩
  have whole : byte '\n' ∉ List.replicate (2 * printer.level) (byte ' ') ++ line := by
    rw [List.mem_append, not_or]
    refine ⟨fun listed => ?_, single⟩
    exact absurd (List.eq_of_mem_replicate listed) (by decide)
  rw [List.foldl_append, reads.read, List.foldl_append, HeaderState.foldl_readChar _ _ whole]
  rfl

/-- An empty line says nothing. -/
theorem blank (reads : Reads printer state) : Reads (printer.print (text "\n")) state := by
  have printed : printer.print (text "\n") = { printer with out := printer.out ++ text "\n" } := by
    simp [Printer.print, Printer.put, text, reads.start]
  rw [printed]
  refine ⟨reads.start, ?_⟩
  rw [List.foldl_append, reads.read]
  rfl

theorem aside (reads : Reads printer state) {line : Text} (single : byte '\n' ∉ line)
    (comment : (text "//").isPrefixOf line = true ∨ (text "#").isPrefixOf line = true) :
    Reads (printer.print (line ++ text "\n")) state := by
  have printed := reads.line single (by rintro rfl; simp [text] at comment)
  rwa [HeaderState.readLine_aside _ _ comment] at printed

variable {inside : List Text} {enums : List (List Text × List Text)} {path known : List Text}

theorem enumerator (reads : Reads printer ⟨inside, enums ++ [(path, known)]⟩) {name value : Text}
    (can : HeaderState.Enumerator name) (single : byte '\n' ∉ value) :
    Reads (printer.print (name ++ text " = " ++ value ++ text "\n"))
      ⟨inside, enums ++ [(path, known ++ [name])]⟩ := by
  have line : byte '\n' ∉ name ++ text " = " ++ value := by
    simp only [List.mem_append, not_or]
    exact ⟨⟨can.word.avoids (by decide), by decide⟩, single⟩
  have printed := reads.line line (by simp [text])
  rwa [HeaderState.readLine_enumerator _ _ _ _ _ can] at printed

/-- A numbered enumerator. -/
theorem numbered (reads : Reads printer ⟨inside, enums ++ [(path, known)]⟩) {name : Text}
    (can : HeaderState.Enumerator name) (number : Int) :
    Reads (emitEnumerator printer name number) ⟨inside, enums ++ [(path, known ++ [name])]⟩ := by
  have split : name ++ text " = " ++ decimal number ++ text ",\n" =
      name ++ text " = " ++ (decimal number ++ text ",") ++ text "\n" := by simp [text]
  rw [emitEnumerator, split]
  exact reads.enumerator can (decimal_avoids number)

theorem enumerators (reads : Reads printer ⟨inside, enums ++ [(path, known)]⟩)
    (values : List (Text × EnumValueNode))
    (can : ∀ value ∈ values, HeaderState.Enumerator value.1) :
    Reads (values.foldl (fun printer (name, value) =>
        emitEnumerator printer name value.number.toInt) printer)
      ⟨inside, enums ++ [(path, known ++ values.map Prod.fst)]⟩ := by
  induction values generalizing printer known with
  | nil => simpa using reads
  | cons value values ih =>
      have first := reads.numbered (can value List.mem_cons_self) value.2.number.toInt
      have rest := ih first fun other later => can other (List.mem_cons_of_mem _ later)
      rwa [List.append_assoc] at rest

end Reads

/-! ## Enums -/

/-- The values of an enum have names as the lexer makes them. -/
def Worded (node : EnumNode) : Prop :=
  ∀ value ∈ node.values, HeaderState.Word value.name ∧ value.name ≠ []

/-- What is stripped leaves something of every value's name. -/
theorem drop_strippedLength_ne_nil {node : EnumNode} (worded : Worded node) {value : EnumValueNode}
    (listed : value ∈ node.values) : value.name.drop (strippedLength node) ≠ [] := by
  rw [strippedLength]
  split_ifs with strip
  · rw [enumPrefixStrippable, Bool.and_eq_true, List.all_eq_true] at strip
    have carried := strip.2 value listed
    split_ifs at carried with short
    simp only [Bool.or_eq_true, decide_eq_true_eq, not_or, not_le] at short
    intro empty
    have covered := List.drop_eq_nil_iff.mp empty
    omega
  · exact (worded value listed).2

/-- The enumerators of an enum can stand where they are printed. -/
theorem enumerator_of_mem {node : EnumNode} (worded : Worded node) {id : Text}
    (listed : id ∈ enumValueNames node) : HeaderState.Enumerator id := by
  have usable := (enumerators_distinct node).2.1 id listed
  rw [enumValueNames_eq] at listed
  obtain ⟨name, wanted, turns, rfl⟩ := underscore.exists_of_mem_assign listed
  obtain ⟨raw, member, rfl⟩ := List.mem_map.mp wanted
  obtain ⟨value, inside, rfl⟩ := List.mem_map.mp member
  constructor
  · apply HeaderState.kept_word.iterate (HeaderState.kept_word.sanitize _)
    intro c part
    exact (worded value inside).1 c (List.mem_of_mem_drop part)
  · rw [underscore_iterate]
    simp [sanitize_ne_nil (drop_strippedLength_ne_nil worded inside)]
  · rintro same
    exact usable.notReserved (same ▸ by decide)
  · rintro same
    exact usable.notReserved (same ▸ by decide)

theorem enumerator_sentinel {id : Text} (listed : id ∈ [text "rp_known_min", text "rp_known_max",
    text "rp_non_exhaustive_min", text "rp_non_exhaustive_max"]) : HeaderState.Enumerator id := by
  have words : [text "rp_known_min", text "rp_known_max", text "rp_non_exhaustive_min",
      text "rp_non_exhaustive_max"].all (fun id => id.all isLetterOrDigit) = true := rfl
  have others : ∀ id ∈ [text "rp_known_min", text "rp_known_max", text "rp_non_exhaustive_min",
      text "rp_non_exhaustive_max"], id ≠ [] ∧ id ≠ text "namespace" ∧ id ≠ text "enum" := by decide
  obtain ⟨named, other, other'⟩ := others id listed
  exact ⟨List.all_eq_true.mp (List.all_eq_true.mp words id listed), named, other, other'⟩

/-- An emitted enum is read as one, with all of its enumerators. -/
theorem Reads.emitEnum {printer : Printer} {inside : List Text}
    {enums : List (List Text × List Text)} (reads : Reads printer ⟨inside, enums⟩) {id : Text}
    (word : HeaderState.Word id) {node : EnumNode} (worded : Worded node) (trailingBlank : Bool) :
    Reads (emitEnum printer id node trailingBlank)
      ⟨inside, enums ++ [(inside ++ [id], enumValueNames node ++ rangeSentinels node)]⟩ := by
  have head : text "enum class " ++ id ++ text " : std::int32_t \x7b\n" =
      text "enum class " ++ id ++ text " : std::int32_t \x7b" ++ text "\n" := by simp [text]
  have opened : Reads (printer.print (text "enum class " ++ id ++ text " : std::int32_t \x7b\n"))
      ⟨inside, enums ++ [(inside ++ [id], [])]⟩ := by
    rw [head]
    have single : byte '\n' ∉ text "enum class " ++ id ++ text " : std::int32_t \x7b" := by
      simp only [List.mem_append, not_or]
      exact ⟨⟨by decide, word.avoids (by decide)⟩, by decide⟩
    have printed := reads.line single (by simp [text])
    rwa [HeaderState.readLine_enum _ _ (word.avoids (by decide))] at printed
  have names : ((enumValueNames node).zip node.values).map Prod.fst = enumValueNames node :=
    List.map_fst_zip (by simp [enumValueNames_eq])
  have valued := opened.indent.enumerators ((enumValueNames node).zip node.values)
    fun value listed => enumerator_of_mem worded (List.of_mem_zip listed).1
  rw [names, List.nil_append] at valued
  have ranged (printer : Printer) (known : List Text)
      (reads : Reads printer ⟨inside, enums ++ [(inside ++ [id], known)]⟩) :
      Reads ((printer.print (text "rp_non_exhaustive_min = INT32_MIN,\n")).print
          (text "rp_non_exhaustive_max = INT32_MAX,\n"))
        ⟨inside, enums ++ [(inside ++ [id], known ++
          [text "rp_non_exhaustive_min", text "rp_non_exhaustive_max"])]⟩ := by
    have low : Reads (printer.print (text "rp_non_exhaustive_min = INT32_MIN,\n")) _ :=
      @enumerator _ _ _ _ _ reads (text "rp_non_exhaustive_min") (text "INT32_MIN,")
        (enumerator_sentinel (by simp)) (by decide)
    have high : Reads (Printer.print _ (text "rp_non_exhaustive_max = INT32_MAX,\n")) _ :=
      @enumerator _ _ _ _ _ low (text "rp_non_exhaustive_max") (text "INT32_MAX,")
        (enumerator_sentinel (by simp)) (by decide)
    rwa [List.append_assoc] at high
  have closed (printer : Printer) (state : HeaderState) (reads : Reads printer state) :
      Reads (printer.print (if trailingBlank then text "\x7d;\n\n" else text "\x7d;\n")) state := by
    have line := @Reads.line _ _ reads (text "\x7d;") (by decide) (by decide)
    rw [HeaderState.readLine_closeEnum] at line
    cases trailingBlank with
    | false => exact line
    | true =>
        have blank := line.blank
        rwa [← Printer.print_append] at blank
  rw [Codegen.emitEnum]
  apply closed
  apply outdent
  cases shape : node.values with
  | nil =>
      rw [shape] at valued
      have sentinels : rangeSentinels node =
          [text "rp_non_exhaustive_min", text "rp_non_exhaustive_max"] := by
        simp [rangeSentinels, shape]
      rw [sentinels]
      exact ranged _ _ valued
  | cons value values =>
      rw [shape] at valued
      have sentinels : rangeSentinels node = [text "rp_known_min", text "rp_known_max"] ++
          [text "rp_non_exhaustive_min", text "rp_non_exhaustive_max"] := by
        simp [rangeSentinels, shape]
      rw [sentinels, ← List.append_assoc]
      apply ranged
      have known (lo hi : Int) :=
        (valued.numbered (enumerator_sentinel (by simp : text "rp_known_min" ∈ _)) lo).numbered
          (enumerator_sentinel (by simp : text "rp_known_max" ∈ _)) hi
      simp only [List.append_assoc, List.singleton_append] at known
      exact known _ _

/-! ## Mirrors -/

section Mirror

variable (names : CppNameTable)

mutual

/-- The enums in a message, with the identifiers that lead to them. -/
def mirrorOf (node : NodeRef) (path : List Text) : MessageNode → List (EnumNode × List Text)
  | ⟨_, _, _, _, _, enums, nestedMessages, _, _, _, _, _⟩ =>
    (enums.zipIdx.map fun (nested, i) =>
      (nested, path ++ [names.at node, names.at ((.enum, i) :: node)])) ++
      mirrorsOf node (path ++ [names.at node]) 0 nestedMessages

/-- The same for the messages of a list. -/
def mirrorsOf (holder : NodeRef) (path : List Text) :
    (first : Nat) → List MessageNode → List (EnumNode × List Text)
  | _, [] => []
  | first, message :: messages =>
    mirrorOf ((.message, first) :: holder) path message ++
      mirrorsOf holder path (first + 1) messages

end

/-- The enums of a file. -/
def fileMirror (entry : FileNode × Nat) : List (EnumNode × List Text) :=
  (entry.1.enums.zipIdx.map fun (node, i) =>
    (node, [names.at [(.enum, i), (.file, entry.2)]])) ++
    mirrorsOf names [(.file, entry.2)] [] 0 entry.1.messages

variable {names}

mutual

/-- A message that holds no enum has no mirror. -/
theorem holdsEnum_iff {node : NodeRef} {path : List Text} : {message : MessageNode} →
    (holdsEnum message = true ↔ mirrorOf names node path message ≠ [])
  | ⟨name, visibility, fields, mapFields, oneofs, enums, nestedMessages, reserved, ranges, blocks,
      options, fqn⟩ => by
    have below := @anyHoldsEnum_iff node (path ++ [names.at node]) 0 nestedMessages
    rw [holdsEnum, mirrorOf, Bool.or_eq_true, below]
    cases enums <;> simp [List.zipIdx_cons]

theorem anyHoldsEnum_iff {holder : NodeRef} {path : List Text} :
    {first : Nat} → {messages : List MessageNode} →
    (anyHoldsEnum messages = true ↔ mirrorsOf names holder path first messages ≠ [])
  | _, [] => by simp [anyHoldsEnum, mirrorsOf]
  | first, message :: messages => by
    rw [anyHoldsEnum, mirrorsOf, Bool.or_eq_true,
      @holdsEnum_iff ((.message, first) :: holder) path message,
      @anyHoldsEnum_iff holder path (first + 1) messages]
    simp only [ne_eq, List.append_eq_nil_iff]
    tauto

end

mutual

/-- What is in a message is below its identifier. -/
theorem mem_mirrorOf {node : NodeRef} {path : List Text} : {message : MessageNode} →
    {item : EnumNode × List Text} → item ∈ mirrorOf names node path message →
    ∃ rest, item.2 = path ++ names.at node :: rest
  | ⟨_, _, _, _, _, enums, nestedMessages, _, _, _, _, _⟩, item, listed => by
    rw [mirrorOf, List.mem_append] at listed
    rcases listed with listed | listed
    · obtain ⟨⟨nested, i⟩, -, rfl⟩ := List.mem_map.mp listed
      exact ⟨[names.at ((.enum, i) :: node)], rfl⟩
    · obtain ⟨rest, same⟩ := mem_mirrorsOf listed
      exact ⟨rest, by rw [same, List.append_assoc, List.singleton_append]⟩

theorem mem_mirrorsOf {holder : NodeRef} {path : List Text} : {first : Nat} →
    {messages : List MessageNode} → {item : EnumNode × List Text} →
    item ∈ mirrorsOf names holder path first messages → ∃ rest, item.2 = path ++ rest
  | _, [], item, listed => by cases listed
  | first, message :: messages, item, listed => by
    rw [mirrorsOf, List.mem_append] at listed
    rcases listed with here | later
    · obtain ⟨rest, same⟩ := mem_mirrorOf here
      exact ⟨_, same⟩
    · exact mem_mirrorsOf later

end

/-- What a reader is to find for an enum. -/
def declared (root : Text) (item : EnumNode × List Text) : List Text × List Text :=
  (root :: item.2, enumValueNames item.1 ++ rangeSentinels item.1)

/-- Enums whose names, and the names that lead to them, are as the lexer makes them. -/
def Legible (items : List (EnumNode × List Text)) : Prop :=
  ∀ item ∈ items, Worded item.1 ∧ ∀ segment ∈ item.2, HeaderState.Word segment

theorem Reads.emitEnums {printer : Printer} {inside : List Text}
    {enums : List (List Text × List Text)} (reads : Reads printer ⟨inside, enums⟩)
    (id : Nat → Text) (trailingBlank : Bool) (nodes : List (EnumNode × Nat))
    (word : ∀ entry ∈ nodes, HeaderState.Word (id entry.2) ∧ Worded entry.1) :
    Reads (nodes.foldl (fun printer (node, i) =>
        Codegen.emitEnum printer (id i) node trailingBlank) printer)
      ⟨inside, enums ++ nodes.map fun (node, i) =>
        (inside ++ [id i], enumValueNames node ++ rangeSentinels node)⟩ := by
  induction nodes generalizing printer enums with
  | nil => simpa using reads
  | cons entry nodes ih =>
      obtain ⟨named, worded⟩ := word entry List.mem_cons_self
      have rest := ih (reads.emitEnum named worded trailingBlank)
        fun other later => word other (List.mem_cons_of_mem _ later)
      rwa [List.append_assoc] at rest

/-- A namespace is opened and closed by lines of its own. -/
theorem Reads.openNamespace {printer : Printer} {state : HeaderState} (reads : Reads printer state)
    {id : Text} (space : byte ' ' ∉ id) (single : byte '\n' ∉ id) :
    Reads (printer.print (text "namespace " ++ id ++ text " \x7b\n"))
      { state with inside := state.inside ++ [id] } := by
  have split : text "namespace " ++ id ++ text " \x7b\n" =
      text "namespace " ++ id ++ text " \x7b" ++ text "\n" := by simp [text]
  have line : byte '\n' ∉ text "namespace " ++ id ++ text " \x7b" := by
    simp only [List.mem_append, not_or]
    exact ⟨⟨by decide, single⟩, by decide⟩
  have printed := reads.line line (by simp [text])
  rw [HeaderState.readLine_namespace _ _ space] at printed
  rwa [split]

theorem Reads.closeNamespace {printer : Printer} {inside : List Text}
    {enums : List (List Text × List Text)} {id : Text} (reads : Reads printer ⟨inside ++ [id], enums⟩)
    (single : byte '\n' ∉ id) :
    Reads (printer.print (text "\x7d  // namespace " ++ id ++ text "\n")) ⟨inside, enums⟩ := by
  have line : byte '\n' ∉ text "\x7d  // namespace " ++ id := by
    simp only [List.mem_append, not_or]
    exact ⟨by decide, single⟩
  have printed := reads.line line (by simp [text])
  rwa [HeaderState.readLine_close, List.dropLast_concat] at printed

mutual

/-- The mirror of a message is read as the enums it holds. -/
theorem Reads.emitEnumMirror {printer : Printer} {root : Text}
    {enums : List (List Text × List Text)} {node : NodeRef} {path : List Text} :
    {message : MessageNode} → Reads printer ⟨root :: path, enums⟩ →
    Legible (mirrorOf names node path message) →
    Reads (emitEnumMirror names node message printer)
      ⟨root :: path, enums ++ (mirrorOf names node path message).map (declared root)⟩
  | ⟨name, visibility, fields, mapFields, oneofs, own, nestedMessages, reserved, ranges, blocks,
      options, fqn⟩, reads, legible => by
    let message : MessageNode := ⟨name, visibility, fields, mapFields, oneofs, own, nestedMessages,
      reserved, ranges, blocks, options, fqn⟩
    have holds : holdsEnum message = true ↔ mirrorOf names node path message ≠ [] := holdsEnum_iff
    rw [Codegen.emitEnumMirror]
    cases some_enum : holdsEnum message with
    | false =>
        have empty : mirrorOf names node path message = [] := by
          by_contra other
          rw [holds.mpr other] at some_enum
          cases some_enum
        rw [if_pos (by rfl), empty]
        simpa using reads
    | true =>
        obtain ⟨item, items, shape⟩ := List.exists_cons_of_ne_nil (holds.mp some_enum)
        have listed : item ∈ mirrorOf names node path message := shape ▸ List.mem_cons_self
        obtain ⟨rest, leads⟩ := mem_mirrorOf listed
        have word : HeaderState.Word (names.at node) :=
          (legible item listed).2 _ (by simp [leads])
        have single : byte '\n' ∉ names.at node := word.avoids (by decide)
        rw [if_neg (by simp)]
        rw [mirrorOf] at legible ⊢
        have opened := reads.openNamespace (word.avoids (by decide)) single
        have filled := opened.emitEnums (fun i => names.at ((.enum, i) :: node)) false own.zipIdx (by
          intro entry inside
          have both := legible _ (List.mem_append_left _ (List.mem_map_of_mem inside))
          exact ⟨both.2 _ (by simp), both.1⟩)
        have nested := @Reads.emitEnumMirrors _ root _ node (path ++ [names.at node]) 0
          nestedMessages filled fun item inside => legible item (List.mem_append_right _ inside)
        have closed := (@Reads.closeNamespace _ (root :: path) _ _ nested single).blank
        rw [← Printer.print_append] at closed
        simpa [declared, Function.comp_def, text] using closed

theorem Reads.emitEnumMirrors {printer : Printer} {root : Text}
    {enums : List (List Text × List Text)} {holder : NodeRef} {path : List Text} :
    {first : Nat} → {messages : List MessageNode} → Reads printer ⟨root :: path, enums⟩ →
    Legible (mirrorsOf names holder path first messages) →
    Reads (emitEnumMirrors names holder first messages printer)
      ⟨root :: path, enums ++ (mirrorsOf names holder path first messages).map (declared root)⟩
  | _, [], reads, _ => by
    simpa [Codegen.emitEnumMirrors, mirrorsOf] using reads
  | first, message :: messages, reads, legible => by
    rw [mirrorsOf] at legible ⊢
    rw [Codegen.emitEnumMirrors, List.map_append, ← List.append_assoc]
    have here := reads.emitEnumMirror fun item inside => legible item (List.mem_append_left _ inside)
    exact here.emitEnumMirrors fun item inside => legible item (List.mem_append_right _ inside)

end

/-- The includes of a header say nothing about enums. -/
theorem Reads.emitImportIncludes {printer : Printer} {state : HeaderState}
    (reads : Reads printer state) {file : FileNode}
    (single : ∀ import_ ∈ file.imports, byte '\n' ∉ import_.path) {extension : Text}
    (single' : byte '\n' ∉ extension) :
    Reads (emitImportIncludes printer file extension) state := by
  rw [Codegen.emitImportIncludes]
  generalize file.imports = imports at single
  induction imports generalizing printer with
  | nil => exact reads
  | cons import_ imports ih =>
      rw [List.foldl_cons]
      apply ih _ fun other later => single other (List.mem_cons_of_mem _ later)
      split_ifs
      · have path : byte '\n' ∉ importHeader import_.path extension := by
          have whole := single import_ List.mem_cons_self
          rw [importHeader]
          split_ifs <;> simp only [List.mem_append, not_or] <;> refine ⟨?_, single'⟩
          · exact fun listed => whole (List.mem_of_mem_take listed)
          · exact whole
        have split : text "#include \"" ++ importHeader import_.path extension ++ text "\"\n" =
            text "#include \"" ++ importHeader import_.path extension ++ text "\"" ++ text "\n" := by
          simp [text]
        rw [split]
        apply reads.aside
        · simp only [List.mem_append, not_or]
          exact ⟨⟨by decide, path⟩, by decide⟩
        · exact .inr (by simp [text, List.isPrefixOf])
      · exact reads

/-- The namespaces of a header lead to what is declared in it. -/
theorem readHeader_commonHeader {entry : FileNode × Nat} {version : Text}
    (legible : Legible (fileMirror names entry)) (space : byte ' ' ∉ enumNamespace names entry.1)
    (single : byte '\n' ∉ enumNamespace names entry.1)
    (imports : ∀ import_ ∈ entry.1.imports, byte '\n' ∉ import_.path)
    (single' : byte '\n' ∉ version) :
    readHeader (emitCommonHeader version entry names) = (fileMirror names entry).map fun item =>
      (spell (enumNamespace names entry.1 :: item.2),
        enumValueNames item.1 ++ rangeSentinels item.1) := by
  have start : Reads {} {} := ⟨rfl, rfl⟩
  have banner : byte '\n' ∉ text "// Generated by rapidprotoc " ++ version ++
      text ". DO NOT EDIT." := by
    simp only [List.mem_append, not_or]
    exact ⟨⟨by decide, single'⟩, by decide⟩
  have generated := start.aside banner (.inl (by simp [text, List.isPrefixOf]))
  have shared := @Reads.aside _ _ generated
    (text "// Shared schema types (enums) for the generated decoders (Apache-2.0).") (by decide)
    (.inl (by decide))
  have once := (@Reads.aside _ _ shared (text "#pragma once") (by decide) (.inr (by decide))).blank
  have cstdint := @Reads.aside _ _ once (text "#include <cstdint>") (by decide) (.inr (by decide))
  have includes := (cstdint.emitImportIncludes imports
    (by decide : byte '\n' ∉ text ".rp.common.hpp")).blank
  have opened := (includes.openNamespace space single).blank
  have top := opened.emitEnums
    (fun i => names.at [(.enum, i), (.file, entry.2)]) true entry.1.enums.zipIdx (by
      intro enum inside
      have both := legible _ (List.mem_append_left _ (List.mem_map_of_mem inside))
      exact ⟨both.2 _ (by simp), both.1⟩)
  have nested := @Reads.emitEnumMirrors names _ (enumNamespace names entry.1) _
    [(.file, entry.2)] [] 0 entry.1.messages top
    fun item inside => legible item (List.mem_append_right _ inside)
  have closed := (@Reads.closeNamespace _ [] _ _ nested single).read
  have edit : text ". DO NOT EDIT.\n" = text ". DO NOT EDIT." ++ text "\n" := by simp [text]
  have types : text "// Shared schema types (enums) for the generated decoders (Apache-2.0).\n" =
      text "// Shared schema types (enums) for the generated decoders (Apache-2.0)." ++ text "\n" := by
    simp [text]
  have guard : text "#pragma once\n\n" = text "#pragma once" ++ text "\n" ++ text "\n" := by
    simp [text]
  have sized : text "#include <cstdint>\n" = text "#include <cstdint>" ++ text "\n" := by simp [text]
  have brace : text " \x7b\n\n" = text " \x7b\n" ++ text "\n" := by simp [text]
  have read : (emitCommonHeader version entry names).foldl HeaderState.readChar ({}, []) =
      (⟨[], (fileMirror names entry).map (declared (enumNamespace names entry.1))⟩, []) := by
    simp only [emitCommonHeader, edit, types, guard, sized, brace, Printer.print_append]
    simp only [Printer.print_append] at closed
    refine closed.trans ?_
    simp [fileMirror, declared, Function.comp_def]
  rw [readHeader, read, List.map_map]
  rfl

end Mirror

end Codegen
end RapidProto
