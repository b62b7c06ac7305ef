import Mathlib.Data.List.DropRight
import RapidProto.Layout.Modes
import RapidProto.Loop

/-!
# Profile files

`parse_modes_file` reads a profile line by line.  Which lines a profile may have, and what each of
them asks for, is a grammar that names no function of the reader.  The reader accepts the files of
this grammar whose `name` lines agree, takes over what they ask for in their order, and otherwise
names the first line that cannot stand where it stands.
-/

namespace RapidProto
namespace ModesFile

/-! ## The reader -/

/-- The separators of a line. -/
def isBlank (c : Char) : Bool := c == ' ' || c == '\t'

/-- What `trim` removes at the end of a line. -/
def isEnd (c : Char) : Bool := isBlank c || c == '\r'

/-- `trim`. -/
def trim (s : Name) : Name := (s.dropWhile isBlank).rdropWhile isEnd

/-- `first_word`, with the trimmed remainder. -/
def firstWord (line : Name) : Name × Name :=
  (line.takeWhile (!isBlank ·), trim ((line.dropWhile (!isBlank ·)).drop 1))

/-- `is_identifier`. -/
def isIdentifier : Name → Bool
  | [] => false
  | c :: s => (c.isAlpha || c == '_') && (c :: s).all fun c => c.isAlphanum || c == '_'

/-- The refusal of a line. -/
def refuse (origin reason : String) : Except String FieldModesSpec :=
  .error (origin ++ ": " ++ reason)

/-- A line that is not empty, without its comment. -/
def readDirective (origin : String) (spec : FieldModesSpec) (line : Name) :
    Except String FieldModesSpec :=
  let (directive, arg) := firstWord line
  if arg.isEmpty || arg.any isBlank then
    refuse origin ("expected `name|drop|raw|unknown-fields <single-argument>`, got '" ++
      nameText line ++ "'")
  else if directive = "name".toList then
    if !isIdentifier arg then
      refuse origin ("profile name '" ++ nameText arg ++
        "' must be a C++ identifier (it becomes part of a namespace)")
    else if !spec.profileName.isEmpty && spec.profileName != arg then
      refuse origin ("profile already named '" ++ nameText spec.profileName ++ "'")
    else .ok { spec with profileName := arg }
  else if directive = "drop".toList then
    .ok { spec with entries := spec.entries ++ [⟨.drop, arg, origin⟩] }
  else if directive = "raw".toList then
    .ok { spec with entries := spec.entries ++ [⟨.raw, arg, origin⟩] }
  else if directive = "unknown-fields".toList then
    .ok { spec with unknowns := spec.unknowns ++ [⟨arg, origin⟩] }
  else
    refuse origin ("unknown directive '" ++ nameText directive ++
      "' (expected name, drop, raw, or unknown-fields)")

/-- The label of a line.  Lines are counted without bound here and in an `int` in the source, so the
model is of files with fewer than `2 ^ 31` lines. -/
def originOf (filename : String) (lineNo : Nat) : String := filename ++ ":" ++ toString lineNo

/-- The body of the loop, for one line. -/
def readLine (filename : String) (lineNo : Nat) (spec : FieldModesSpec) (line : Name) :
    Except String FieldModesSpec :=
  let line := trim (line.takeWhile (· != '#'))
  if line.isEmpty then .ok spec else readDirective (originOf filename lineNo) spec line

/-- A turn of the loop: the number of lines read so far, and what they asked for. -/
def lineTurn (filename : String) (state : Nat × FieldModesSpec) (text : Name) :
    Outcome String (Turn Char (Nat × FieldModesSpec) FieldModesSpec) :=
  if text.isEmpty then .ok (.stop state.2)
  else
    (Outcome.ofExcept (readLine filename (state.1 + 1) state.2 (text.takeWhile (· != '\n')))) >>=
      fun spec => .ok (.next (state.1 + 1, spec) ((text.dropWhile (· != '\n')).drop 1))

/-- `parse_modes_file`. -/
def parseModesFile (text : Name) (filename : String) (spec : FieldModesSpec) :
    Outcome String FieldModesSpec :=
  runLoop (lineTurn filename) (0, spec) text

/-! ## Profiles -/

/-- What a line asks for. -/
inductive Directive where
  | name (id : Name)
  | drop (path : Name)
  | raw (path : Name)
  | unknownFields (message : Name)

/-- The word in front. -/
def Directive.word : Directive → Name
  | .name _ => "name".toList
  | .drop _ => "drop".toList
  | .raw _ => "raw".toList
  | .unknownFields _ => "unknown-fields".toList

/-- The argument behind. -/
def Directive.argument : Directive → Name
  | .name id => id
  | .drop path => path
  | .raw path => path
  | .unknownFields message => message

/-- One word without a comment in it; a carriage return at its end would belong to the line. -/
structure IsArgument (arg : Name) : Prop where
  nonempty : arg ≠ []
  plain : ∀ c ∈ arg, isBlank c = false ∧ c ≠ '#'
  ends : arg.getLast? ≠ some '\r'

/-- Nothing, or a comment up to the end of the line. -/
def IsComment (comment : Name) : Prop := ∀ c ∈ comment.head?, c = '#'

/-- What a line says: nothing, or a directive with blanks around its two words. -/
inductive LineSays : Name → Option Directive → Prop where
  | nothing {space comment : Name} : (∀ c ∈ space, isEnd c = true) → IsComment comment →
      LineSays (space ++ comment) none
  | directive {front gap back comment : Name} {asked : Directive} :
      (∀ c ∈ front, isBlank c = true) → gap ≠ [] → (∀ c ∈ gap, isBlank c = true) →
      IsArgument asked.argument → (∀ c ∈ back, isEnd c = true) → IsComment comment →
      LineSays (front ++ (asked.word ++ gap ++ asked.argument) ++ back ++ comment) (some asked)

/-- The lines of a text: each ends at a line feed, the last one may end with the text. -/
inductive Lines : Name → List Name → Prop where
  | nil : Lines [] []
  | last {line : Name} : line ≠ [] → '\n' ∉ line → Lines line [line]
  | cons {line text : Name} {lines : List Name} : '\n' ∉ line → Lines text lines →
      Lines (line ++ '\n' :: text) (line :: lines)

/-- The names that the lines give to the profile. -/
def named (said : List (Option Directive)) : List Name :=
  said.filterMap fun
    | some (.name id) => some id
    | _ => none

/-- All of them are one identifier, the one the profile has already if it has one. -/
def OneName (profileName : Name) (said : List (Option Directive)) : Prop :=
  ∀ id ∈ named said, isIdentifier id = true ∧ (profileName = [] ∨ profileName = id) ∧
    ∀ other ∈ named said, other = id

/-- The entry that a line adds. -/
def entryOf (filename : String) : Option Directive × Nat → Option ModeEntry
  | (some (.drop path), lineNo) => some ⟨.drop, path, originOf filename lineNo⟩
  | (some (.raw path), lineNo) => some ⟨.raw, path, originOf filename lineNo⟩
  | _ => none

/-- The same for a message whose unknown fields are asked for. -/
def unknownOf (filename : String) : Option Directive × Nat → Option UnknownEntry
  | (some (.unknownFields message), lineNo) => some ⟨message, originOf filename lineNo⟩
  | _ => none

/-- A profile with what the lines from `lineNo` on ask for, each under its own line. -/
def extend (filename : String) (lineNo : Nat) (spec : FieldModesSpec)
    (said : List (Option Directive)) : FieldModesSpec where
  profileName := if spec.profileName = [] then (named said).headD [] else spec.profileName
  entries := spec.entries ++ (said.zipIdx lineNo).filterMap (entryOf filename)
  unknowns := spec.unknowns ++ (said.zipIdx lineNo).filterMap (unknownOf filename)
  unknownAll := spec.unknownAll

/-- The lines can stand in a profile that extends `spec`. -/
def Accepted (spec : FieldModesSpec) (lines : List Name) : Prop :=
  ∃ said, List.Forall₂ LineSays lines said ∧ OneName spec.profileName said

/-! ## Words of a line -/

theorem isEnd_of_isBlank {c : Char} (blank : isBlank c = true) : isEnd c = true := by
  rw [isEnd, blank, Bool.true_or]

theorem trim_spec (s : Name) : ∃ front back, s = front ++ trim s ++ back ∧
    (∀ c ∈ front, isBlank c = true) ∧ (∀ c ∈ back, isEnd c = true) ∧
    ∀ c ∈ (trim s).getLast?, isEnd c = false := by
  refine ⟨s.takeWhile isBlank, (s.dropWhile isBlank).rtakeWhile isEnd, ?_,
    fun c listed => List.mem_takeWhile_imp listed, fun c listed => List.mem_rtakeWhile_imp listed,
    fun c last => ?_⟩
  · rw [trim, List.append_assoc, List.rdropWhile_append_rtakeWhile, List.takeWhile_append_dropWhile]
  · obtain ⟨nonempty, rfl⟩ := List.mem_getLast?_eq_getLast last
    exact Bool.eq_false_iff.mpr (List.rdropWhile_last_not _ _ nonempty)

theorem trim_space {s : Name} (space : ∀ c ∈ s, isEnd c = true) : trim s = [] :=
  List.rdropWhile_eq_nil_iff.mpr fun c listed => space c ((List.dropWhile_sublist _).mem listed)

/-- Blanks around a text that starts and ends otherwise are removed. -/
theorem trim_eq {front s back : Name} (blank : ∀ c ∈ front, isBlank c = true) (nonempty : s ≠ [])
    (starts : ∀ c ∈ s.head?, isBlank c = false) (space : ∀ c ∈ back, isEnd c = true)
    (ends : ∀ c ∈ s.getLast?, isEnd c = false) : trim (front ++ s ++ back) = s := by
  have dropped : (front ++ s ++ back).dropWhile isBlank = s ++ back := by
    rw [List.append_assoc, List.dropWhile_append_of_pos blank]
    cases s with
    | nil => exact absurd rfl nonempty
    | cons c s => exact List.dropWhile_cons_of_neg (Bool.eq_false_iff.mp (starts c rfl))
  have last : s.rdropWhile isEnd = s :=
    List.rdropWhile_eq_self_iff.mpr fun left =>
      Bool.eq_false_iff.mp (ends _ (List.getLast?_eq_getLast_of_ne_nil left))
  rw [trim, dropped, List.rdropWhile, List.reverse_append,
    List.dropWhile_append_of_pos fun c listed => space c (List.mem_reverse.mp listed)]
  exact last

/-- The two words of a line and what is around the second. -/
theorem firstWord_spec {line : Name} (nonempty : (firstWord line).2 ≠ []) :
    ∃ gap back, line = (firstWord line).1 ++ gap ++ (firstWord line).2 ++ back ∧ gap ≠ [] ∧
      (∀ c ∈ gap, isBlank c = true) ∧ (∀ c ∈ back, isEnd c = true) ∧
      ∀ c ∈ (firstWord line).2.getLast?, isEnd c = false := by
  have split : line.takeWhile (!isBlank ·) ++ line.dropWhile (!isBlank ·) = line :=
    List.takeWhile_append_dropWhile
  rw [firstWord] at nonempty ⊢
  cases rest : line.dropWhile (!isBlank ·) with
  | nil =>
      rw [rest] at nonempty
      exact absurd rfl nonempty
  | cons b more =>
      have blank : isBlank b = true := by
        have head := List.head?_dropWhile_not (!isBlank ·) line
        rw [rest] at head
        simpa using head
      obtain ⟨front, back, parts, blanks, space, ends⟩ := trim_spec more
      refine ⟨b :: front, back, ?_, List.cons_ne_nil _ _, List.forall_mem_cons.mpr ⟨blank, blanks⟩,
        space, ends⟩
      rw [rest] at split
      have tail : (b :: more).drop 1 = more := rfl
      simp only [tail]
      nth_rewrite 1 [← split, parts]
      simp only [List.append_assoc, List.cons_append]

theorem IsArgument.starts {arg : Name} (argument : IsArgument arg) :
    ∀ c ∈ arg.head?, isBlank c = false :=
  fun c head => (argument.plain c (List.mem_of_mem_head? head)).1

theorem IsArgument.last {arg : Name} (argument : IsArgument arg) :
    ∀ c ∈ arg.getLast?, isEnd c = false := by
  intro c last
  have notReturn : c ≠ '\r' := by
    rintro rfl
    exact argument.ends last
  rw [isEnd, (argument.plain c (List.mem_of_getLast? last)).1, Bool.false_or]
  exact beq_eq_false_iff_ne.mpr notReturn

theorem firstWord_eq {word gap arg : Name} (plain : ∀ c ∈ word, isBlank c = false)
    (nonempty : gap ≠ []) (blank : ∀ c ∈ gap, isBlank c = true) (argument : IsArgument arg) :
    firstWord (word ++ gap ++ arg) = (word, arg) := by
  obtain ⟨b, gap, rfl⟩ := List.exists_cons_of_ne_nil nonempty
  obtain ⟨here, blanks⟩ := List.forall_mem_cons.mp blank
  have inside : ∀ c ∈ word, (!isBlank c) = true := fun c listed => by rw [plain c listed]; rfl
  have stops : ¬ (fun c => !isBlank c) b = true := by simp [here]
  have trimmed : trim (gap ++ arg) = arg := by
    have around := @trim_eq gap arg [] blanks argument.nonempty argument.starts
      (List.forall_mem_nil _) argument.last
    rwa [List.append_nil] at around
  rw [firstWord, List.append_assoc, List.takeWhile_append_of_pos inside,
    List.dropWhile_append_of_pos inside, List.cons_append,
    List.takeWhile_cons_of_neg (p := fun c => !isBlank c) stops,
    List.dropWhile_cons_of_neg (p := fun c => !isBlank c) stops, List.append_nil, List.drop_one,
    List.tail_cons, trimmed]

/-! ## Lines -/

section Reading

variable {filename : String} {spec spec' : FieldModesSpec} {lineNo : Nat}

theorem given_eq {profileName id : Name} (free : profileName = [] ∨ profileName = id) :
    (if profileName = [] then id else profileName) = id := by
  split_ifs with unnamed
  · rfl
  · exact free.resolve_left unnamed

theorem kept_eq (profileName : Name) :
    (if profileName = [] then [] else profileName) = profileName := by
  split_ifs with unnamed
  · exact unnamed.symm
  · rfl

theorem oneName_nothing (profileName : Name) : OneName profileName [none] := nofun

theorem oneName_name {profileName id : Name} : OneName profileName [some (.name id)] ↔
    isIdentifier id = true ∧ (profileName = [] ∨ profileName = id) := by
  simp [OneName, named]

theorem extend_name {id : Name} (free : spec.profileName = [] ∨ spec.profileName = id) :
    extend filename lineNo spec [some (.name id)] = { spec with profileName := id } := by
  simp [extend, named, entryOf, unknownOf, given_eq free]

/-- A line without a name adds at most one entry. -/
theorem extend_nameless (said : Option Directive) (nameless : named [said] = []) :
    extend filename lineNo spec [said] =
      { spec with
        entries := spec.entries ++ (entryOf filename (said, lineNo)).toList
        unknowns := spec.unknowns ++ (unknownOf filename (said, lineNo)).toList } := by
  have single {α : Type} (add : Option Directive × Nat → Option α) :
      ([said].zipIdx lineNo).filterMap add = (add (said, lineNo)).toList := by
    rw [List.zipIdx_singleton, List.filterMap_cons]
    cases add (said, lineNo) <;> rfl
  rw [extend, nameless, List.headD_nil, kept_eq, single, single]

theorem extend_nothing (filename : String) (lineNo : Nat) (spec : FieldModesSpec) :
    extend filename lineNo spec [none] = spec := by
  rw [extend_nameless none rfl]
  simp [entryOf, unknownOf]

theorem refuse_ne (origin reason : String) : refuse origin reason ≠ .ok spec := nofun

/-- A directive is taken over if its name can be. -/
theorem readDirective_asked {line : Name} {asked : Directive}
    (parts : firstWord line = (asked.word, asked.argument))
    (several : (asked.argument.isEmpty || asked.argument.any isBlank) = false)
    (one : OneName spec.profileName [some asked]) :
    readDirective (originOf filename lineNo) spec line =
      .ok (extend filename lineNo spec [some asked]) := by
  have dropWord : "drop".toList ≠ "name".toList := by decide
  have rawWord : "raw".toList ≠ "name".toList ∧ "raw".toList ≠ "drop".toList := by decide
  have unknownWord : "unknown-fields".toList ≠ "name".toList ∧
      "unknown-fields".toList ≠ "drop".toList ∧ "unknown-fields".toList ≠ "raw".toList := by
    decide
  rw [readDirective, parts]
  dsimp only
  rw [if_neg (Bool.eq_false_iff.mp several)]
  cases asked with
  | name id =>
      obtain ⟨identifier, free⟩ := oneName_name.mp one
      have other : (!spec.profileName.isEmpty && spec.profileName != id) = false := by
        simpa [or_iff_not_imp_left] using free
      rw [if_pos (show (Directive.name id).word = "name".toList from rfl), extend_name free]
      simp [Directive.argument, identifier, other]
  | drop path =>
      have word : (Directive.drop path).word = "drop".toList := rfl
      rw [word, if_neg dropWord, if_pos rfl, extend_nameless (some (.drop path)) rfl]
      simp [Directive.argument, entryOf, unknownOf]
  | raw path =>
      have word : (Directive.raw path).word = "raw".toList := rfl
      rw [word, if_neg rawWord.1, if_neg rawWord.2, if_pos rfl,
        extend_nameless (some (.raw path)) rfl]
      simp [Directive.argument, entryOf, unknownOf]
  | unknownFields message =>
      have word : (Directive.unknownFields message).word = "unknown-fields".toList := rfl
      rw [word, if_neg unknownWord.1, if_neg unknownWord.2.1, if_neg unknownWord.2.2, if_pos rfl,
        extend_nameless (some (.unknownFields message)) rfl]
      simp [Directive.argument, entryOf, unknownOf]

/-- What is taken over from a line, by its two words. -/
theorem readDirective_ok_iff {line word arg : Name} (parts : firstWord line = (word, arg)) :
    readDirective (originOf filename lineNo) spec line = .ok spec' ↔
      (arg ≠ [] ∧ ∀ c ∈ arg, isBlank c = false) ∧
        ∃ asked : Directive, asked.word = word ∧ asked.argument = arg ∧
          OneName spec.profileName [some asked] ∧
          spec' = extend filename lineNo spec [some asked] := by
  have single : (arg.isEmpty || arg.any isBlank) = false ↔
      arg ≠ [] ∧ ∀ c ∈ arg, isBlank c = false := by simp
  rw [← single]
  constructor
  · intro read
    rw [readDirective, parts] at read
    dsimp only at read
    split_ifs at read with several isName notIdentifier other isDrop isRaw isUnknown
    · exact absurd read (refuse_ne _ _)
    · exact absurd read (refuse_ne _ _)
    · exact absurd read (refuse_ne _ _)
    · have free : spec.profileName = [] ∨ spec.profileName = arg := by
        simpa [or_iff_not_imp_left] using other
      refine ⟨Bool.eq_false_iff.mpr several, .name arg, isName.symm, rfl,
        oneName_name.mpr ⟨by simpa using notIdentifier, free⟩, ?_⟩
      rw [extend_name free]
      exact (Except.ok.inj read).symm
    · refine ⟨Bool.eq_false_iff.mpr several, .drop arg, isDrop.symm, rfl, nofun, ?_⟩
      rw [extend_nameless (some (.drop arg)) rfl, ← Except.ok.inj read]
      simp [entryOf, unknownOf]
    · refine ⟨Bool.eq_false_iff.mpr several, .raw arg, isRaw.symm, rfl, nofun, ?_⟩
      rw [extend_nameless (some (.raw arg)) rfl, ← Except.ok.inj read]
      simp [entryOf, unknownOf]
    · refine ⟨Bool.eq_false_iff.mpr several, .unknownFields arg, isUnknown.symm, rfl, nofun, ?_⟩
      rw [extend_nameless (some (.unknownFields arg)) rfl, ← Except.ok.inj read]
      simp [entryOf, unknownOf]
    · exact absurd read (refuse_ne _ _)
  · rintro ⟨several, asked, rfl, rfl, one, rfl⟩
    exact readDirective_asked parts several one

/-- What stands in front of a comment. -/
theorem content_eq {content comment : Name} (plain : '#' ∉ content) (is : IsComment comment) :
    (content ++ comment).takeWhile (· != '#') = content := by
  have inside : ∀ c ∈ content, (c != '#') = true := by
    intro c listed
    exact bne_iff_ne.mpr fun same => plain (same ▸ listed)
  have empty : comment.takeWhile (· != '#') = [] := by
    cases comment with
    | nil => rfl
    | cons c comment => rw [is c rfl]; rfl
  rw [List.takeWhile_append_of_pos inside, empty, List.append_nil]

theorem content_spec (line : Name) : ∃ comment,
    line = line.takeWhile (· != '#') ++ comment ∧ '#' ∉ line.takeWhile (· != '#') ∧
      IsComment comment := by
  refine ⟨line.dropWhile (· != '#'), List.takeWhile_append_dropWhile.symm, fun listed => ?_,
    fun c head => ?_⟩
  · exact absurd (List.mem_takeWhile_imp listed) (by decide)
  · have stops := List.head?_dropWhile_not (· != '#') line
    rw [Option.mem_def.mp head] at stops
    simpa using stops

theorem mark_of_isEnd {s : Name} (space : ∀ c ∈ s, isEnd c = true) : '#' ∉ s :=
  fun listed => absurd (space '#' listed) (by decide)

/-- The characters of a word, checked one by one. -/
theorem plain_of_all {word : Name} (all : (word.all fun c => !isBlank c && c != '#') = true) :
    ∀ c ∈ word, isBlank c = false ∧ c ≠ '#' := by
  simpa using all

theorem Directive.word_plain (asked : Directive) :
    asked.word ≠ [] ∧ ∀ c ∈ asked.word, isBlank c = false ∧ c ≠ '#' := by
  have all : ∀ word ∈ ["name", "drop", "raw", "unknown-fields"], word.toList ≠ [] ∧
      (word.toList.all fun c => !isBlank c && c != '#') = true := by decide
  have each : ∀ word ∈ ["name", "drop", "raw", "unknown-fields"], word.toList ≠ [] ∧
      ∀ c ∈ word.toList, isBlank c = false ∧ c ≠ '#' :=
    fun word listed => ⟨(all word listed).1, plain_of_all (all word listed).2⟩
  cases asked <;> exact each _ (by simp)

/-- What a line says is taken over if its name can be. -/
theorem readLine_eq {line : Name} {said : Option Directive} (stated : LineSays line said)
    (one : OneName spec.profileName [said]) :
    readLine filename lineNo spec line = .ok (extend filename lineNo spec [said]) := by
  cases stated with
  | @nothing content comment space is =>
      rw [extend_nothing]
      simp only [readLine]
      rw [content_eq (mark_of_isEnd space) is, trim_space space]
      rfl
  | @directive front gap back comment asked blank nonempty gapBlank argument space is =>
      obtain ⟨word, plain⟩ := asked.word_plain
      have mark : '#' ∉ front ++ (asked.word ++ gap ++ asked.argument) ++ back := by
        simp only [List.mem_append, not_or]
        exact ⟨⟨mark_of_isEnd fun c listed => isEnd_of_isBlank (blank c listed),
          ⟨fun listed => (plain _ listed).2 rfl,
            mark_of_isEnd fun c listed => isEnd_of_isBlank (gapBlank c listed)⟩,
          fun listed => (argument.plain _ listed).2 rfl⟩, mark_of_isEnd space⟩
      obtain ⟨c, more, begins⟩ := List.exists_cons_of_ne_nil word
      have starts : ∀ c ∈ (asked.word ++ gap ++ asked.argument).head?, isBlank c = false := by
        rw [begins]
        rintro _ ⟨⟩
        exact (plain c (begins ▸ List.mem_cons_self)).1
      have ends : ∀ c ∈ (asked.word ++ gap ++ asked.argument).getLast?, isEnd c = false := by
        rw [List.getLast?_append_of_ne_nil _ argument.nonempty]
        exact argument.last
      have whole : asked.word ++ gap ++ asked.argument ≠ [] :=
        List.append_ne_nil_of_right_ne_nil _ argument.nonempty
      simp only [readLine]
      rw [content_eq mark is, trim_eq blank whole starts space ends,
        if_neg (by rw [List.isEmpty_iff]; exact whole)]
      exact (readDirective_ok_iff
        (firstWord_eq (fun c listed => (plain c listed).1) nonempty gapBlank argument)).mpr
        ⟨⟨argument.nonempty, fun c listed => (argument.plain c listed).1⟩, asked, rfl, rfl, one,
          rfl⟩

/-- What the reader takes over from a line is what the line says. -/
theorem readLine_ok_iff {line : Name} : readLine filename lineNo spec line = .ok spec' ↔
    ∃ said, LineSays line said ∧ OneName spec.profileName [said] ∧
      spec' = extend filename lineNo spec [said] := by
  constructor
  · intro read
    obtain ⟨comment, whole, plain, is⟩ := content_spec line
    obtain ⟨front, back, parts, blank, space, ends⟩ := trim_spec (line.takeWhile (· != '#'))
    simp only [readLine] at read
    generalize line.takeWhile (· != '#') = content at *
    generalize trimmed : trim content = words at *
    subst whole
    split_ifs at read with empty
    · have nothing := List.isEmpty_iff.mp empty
      subst nothing
      rw [parts, List.append_nil]
      refine ⟨none, .nothing (List.forall_mem_append.mpr
        ⟨fun c listed => isEnd_of_isBlank (blank c listed), space⟩) is, oneName_nothing _, ?_⟩
      rw [extend_nothing]
      exact (Except.ok.inj read).symm
    · obtain ⟨⟨nonempty, single⟩, asked, word, arg, one, same⟩ :=
        (readDirective_ok_iff (Prod.mk.eta (p := firstWord words)).symm).mp read
      obtain ⟨gap, behind, split, gapSome, gapBlank, behindSpace, last⟩ := firstWord_spec nonempty
      rw [← word, ← arg] at split
      rw [← arg] at nonempty single last
      have argument : IsArgument asked.argument := by
        refine ⟨nonempty, fun c listed => ⟨single c listed, ?_⟩, fun carriage => ?_⟩
        · rintro rfl
          apply plain
          rw [parts, split]
          simp [listed]
        · exact absurd (last _ carriage) (by decide)
      refine ⟨_, ?_, one, same⟩
      have stated := @LineSays.directive front gap (behind ++ back) comment asked blank gapSome
        gapBlank argument (List.forall_mem_append.mpr ⟨behindSpace, space⟩) is
      rw [parts, split]
      simpa only [List.append_assoc] using stated
  · rintro ⟨said, stated, one, rfl⟩
    exact readLine_eq stated one

/-- A refused line is named in the error. -/
theorem readLine_error {line : Name} {message : String}
    (failed : readLine filename lineNo spec line = .error message) :
    ∃ reason, message = originOf filename lineNo ++ ": " ++ reason := by
  simp only [readLine, readDirective, refuse] at failed
  split_ifs at failed <;> exact ⟨_, (Except.error.inj failed).symm⟩

/-! ## Files -/

theorem named_cons (said : Option Directive) (behind : List (Option Directive)) :
    named (said :: behind) = named [said] ++ named behind := by
  rw [named, named, named, ← List.filterMap_append]
  rfl

theorem named_single (said : Option Directive) : named [said] = [] ∨ ∃ id, named [said] = [id] := by
  rcases said with _ | id | _ | _ | _
  · exact .inl rfl
  · exact .inr ⟨id, rfl⟩
  · exact .inl rfl
  · exact .inl rfl
  · exact .inl rfl

theorem ne_nil_of_isIdentifier {id : Name} (is : isIdentifier id = true) : id ≠ [] := by
  rintro rfl
  cases is

/-- The first line gives the profile a name or leaves that to the lines behind. -/
theorem oneName_cons {said : Option Directive} {behind : List (Option Directive)} :
    OneName spec.profileName (said :: behind) ↔ OneName spec.profileName [said] ∧
      OneName (extend filename lineNo spec [said]).profileName behind := by
  simp only [OneName, extend, named_cons said behind]
  rcases named_single said with unnamed | ⟨id, single⟩
  · rw [unnamed]
    simp [kept_eq]
  · rw [single]
    simp only [List.headD_cons]
    constructor
    · intro one
      obtain ⟨identifier, free, -⟩ := one id (List.mem_append_left _ List.mem_cons_self)
      refine ⟨by simpa using ⟨identifier, free⟩, ?_⟩
      rw [given_eq free]
      intro other listed
      obtain ⟨is, -, same⟩ := one other (List.mem_append_right _ listed)
      exact ⟨is, .inr (same id (List.mem_append_left _ List.mem_cons_self)),
        fun later met => same later (List.mem_append_right _ met)⟩
    · rintro ⟨first, rest⟩
      obtain ⟨identifier, free, -⟩ := first id List.mem_cons_self
      rw [given_eq free] at rest
      have same : ∀ other ∈ [id] ++ named behind, other = id := by
        intro other listed
        rcases List.mem_append.mp listed with here | later
        · exact List.mem_singleton.mp here
        · exact ((rest other later).2.1.resolve_left (ne_nil_of_isIdentifier identifier)).symm
      intro other listed
      rw [same other listed]
      exact ⟨identifier, free, same⟩

theorem extend_cons {said : Option Directive} {behind : List (Option Directive)}
    (one : OneName spec.profileName [said]) :
    extend filename lineNo spec (said :: behind) =
      extend filename (lineNo + 1) (extend filename lineNo spec [said]) behind := by
  have lines : (said :: behind).zipIdx lineNo =
      [said].zipIdx lineNo ++ behind.zipIdx (lineNo + 1) := rfl
  have first : (extend filename lineNo spec [said]).profileName =
      if spec.profileName = [] then (named [said]).headD [] else spec.profileName := rfl
  change FieldModesSpec.mk _ _ _ _ = FieldModesSpec.mk _ _ _ _
  rw [FieldModesSpec.mk.injEq, lines, List.filterMap_append, List.filterMap_append,
    ← List.append_assoc, ← List.append_assoc]
  refine ⟨?_, rfl, rfl, rfl⟩
  rw [named_cons]
  rcases named_single said with unnamed | ⟨id, single⟩
  · rw [unnamed, List.headD_nil, kept_eq] at first
    rw [unnamed, first, List.nil_append]
  · rw [OneName, single] at one
    obtain ⟨identifier, free, -⟩ := one id List.mem_cons_self
    rw [single, List.headD_cons, given_eq free] at first
    rw [single, first, if_neg (ne_nil_of_isIdentifier identifier)]
    exact given_eq free

/-- A line that is taken over can stand in front of what extends the profile it leaves. -/
theorem taken_over {line : Name} {lines : List Name} {final : FieldModesSpec}
    (read : readLine filename lineNo spec line = .ok spec') :
    (∃ said, List.Forall₂ LineSays (line :: lines) said ∧ OneName spec.profileName said ∧
        final = extend filename lineNo spec said) ↔
      ∃ said, List.Forall₂ LineSays lines said ∧ OneName spec'.profileName said ∧
        final = extend filename (lineNo + 1) spec' said := by
  constructor
  · rintro ⟨_, each, one, rfl⟩
    cases each with
    | @cons _ said _ behind here rest =>
        obtain ⟨single, later⟩ := (@oneName_cons filename spec lineNo _ _).mp one
        rw [readLine_eq here single] at read
        rw [← Except.ok.inj read]
        exact ⟨behind, rest, later, extend_cons single⟩
  · rintro ⟨behind, rest, later, rfl⟩
    obtain ⟨said, here, single, rfl⟩ := readLine_ok_iff.mp read
    exact ⟨said :: behind, .cons here rest, oneName_cons.mpr ⟨single, later⟩,
      (extend_cons single).symm⟩

theorem accepted_iff {line : Name} {lines : List Name}
    (read : readLine filename lineNo spec line = .ok spec') :
    Accepted spec (line :: lines) ↔ Accepted spec' lines := by
  constructor
  · rintro ⟨said, each, one⟩
    obtain ⟨said', each', one', -⟩ := (taken_over read).mp ⟨said, each, one, rfl⟩
    exact ⟨said', each', one'⟩
  · rintro ⟨said, each, one⟩
    obtain ⟨said', each', one', -⟩ := (taken_over read).mpr ⟨said, each, one, rfl⟩
    exact ⟨said', each', one'⟩

/-- A refused line stands in front of nothing. -/
theorem not_accepted {line : Name} {message : String}
    (failed : readLine filename lineNo spec line = .error message) (lines : List Name) :
    ¬ Accepted spec (line :: lines) := by
  rintro ⟨_, each, one⟩
  cases each with
  | @cons _ said _ behind here rest =>
      obtain ⟨single, -⟩ := (@oneName_cons filename spec lineNo _ _).mp one
      rw [readLine_eq here single] at failed
      cases failed

theorem lineTurn_consuming (filename : String) : Consuming (lineTurn filename) := by
  intro state text state' rest turned
  rw [lineTurn] at turned
  split_ifs at turned with empty
  · cases turned
  have nonempty : 0 < text.length := List.length_pos_iff.mpr (by simpa using empty)
  cases read : readLine filename (state.1 + 1) state.2 (text.takeWhile (· != '\n')) with
  | error message =>
      rw [read] at turned
      cases turned
  | ok spec =>
      rw [read] at turned
      cases turned
      have shorter := (List.dropWhile_sublist (l := text) (· != '\n')).length_le
      rw [List.length_drop]
      omega

/-- Every text is cut into lines. -/
theorem exists_lines (text : Name) : ∃ lines, Lines text lines := by
  induction text with
  | nil => exact ⟨[], .nil⟩
  | cons c text ih =>
      obtain ⟨lines, cut⟩ := ih
      by_cases feed : c = '\n'
      · subst feed
        exact ⟨[] :: lines, .cons List.not_mem_nil cut⟩
      · cases cut with
        | nil => exact ⟨[[c]], .last (List.cons_ne_nil _ _) (by simpa using Ne.symm feed)⟩
        | last nonempty whole =>
            exact ⟨[c :: text], .last (List.cons_ne_nil _ _)
              (List.not_mem_cons_of_ne_of_not_mem (Ne.symm feed) whole)⟩
        | @cons line rest lines whole cut =>
            exact ⟨(c :: line) :: lines, .cons
              (List.not_mem_cons_of_ne_of_not_mem (Ne.symm feed) whole) cut⟩

/-- One turn reads the first line. -/
theorem Lines.turn {text : Name} {lines : List Name} (cut : Lines text lines) :
    text = [] ∧ lines = [] ∨ ∃ line rest behind, lines = line :: behind ∧ Lines rest behind ∧
      ∀ lineNo spec, runLoop (lineTurn filename) (lineNo, spec) text =
        match readLine filename (lineNo + 1) spec line with
        | .ok spec => runLoop (lineTurn filename) (lineNo + 1, spec) rest
        | .error message => .fail message := by
  have step {text line rest : Name} (nonempty : text ≠ [])
      (here : text.takeWhile (· != '\n') = line)
      (after : (text.dropWhile (· != '\n')).drop 1 = rest) (lineNo : Nat) (spec : FieldModesSpec) :
      runLoop (lineTurn filename) (lineNo, spec) text =
        match readLine filename (lineNo + 1) spec line with
        | .ok spec => runLoop (lineTurn filename) (lineNo + 1, spec) rest
        | .error message => .fail message := by
    rw [runLoop_eq (lineTurn_consuming filename), lineTurn, if_neg (by simpa using nonempty), here,
      after]
    cases readLine filename (lineNo + 1) spec line <;> rfl
  have inside {line : Name} (whole : '\n' ∉ line) : ∀ c ∈ line, (c != '\n') = true :=
    fun c listed => bne_iff_ne.mpr fun same => whole (same ▸ listed)
  cases cut with
  | nil => exact .inl ⟨rfl, rfl⟩
  | last nonempty whole =>
      refine .inr ⟨_, [], [], rfl, .nil,
        step nonempty (List.takeWhile_eq_self_iff.mpr (inside whole)) ?_⟩
      rw [List.dropWhile_eq_nil_iff.mpr (inside whole), List.drop_nil]
  | @cons line rest lines whole cut =>
      refine .inr ⟨line, rest, lines, rfl, cut, step (by simp) ?_ ?_⟩
      · rw [List.takeWhile_append_of_pos (inside whole)]
        simp
      · rw [List.dropWhile_append_of_pos (inside whole)]
        simp

theorem runLoop_ok_iff {lines : List Name} {text : Name} (cut : Lines text lines)
    {final : FieldModesSpec} : runLoop (lineTurn filename) (lineNo, spec) text = .ok final ↔
      ∃ said, List.Forall₂ LineSays lines said ∧ OneName spec.profileName said ∧
        final = extend filename (lineNo + 1) spec said := by
  induction lines generalizing text lineNo spec with
  | nil =>
      cases cut
      have stop : runLoop (lineTurn filename) (lineNo, spec) [] = .ok spec := rfl
      have same : extend filename (lineNo + 1) spec [] = spec := by simp [extend, named, kept_eq]
      rw [stop]
      constructor
      · rintro ⟨⟩
        exact ⟨[], .nil, nofun, same.symm⟩
      · rintro ⟨_, ⟨⟩, -, rfl⟩
        rw [same]
  | cons line lines ih =>
      rcases cut.turn with ⟨-, empty⟩ | ⟨line', rest, behind, parts, cut', turn⟩
      · cases empty
      · cases parts
        rw [turn]
        cases read : readLine filename (lineNo + 1) spec line with
        | error message =>
            refine ⟨nofun, ?_⟩
            rintro ⟨said, each, one, -⟩
            exact absurd ⟨said, each, one⟩ (not_accepted read lines)
        | ok spec' => exact (ih cut').trans (taken_over read).symm

/-- The error names the first line that cannot stand behind the lines in front of it. -/
theorem runLoop_fail_spec {lines : List Name} {text : Name} (cut : Lines text lines)
    {message : String} (failed : runLoop (lineTurn filename) (lineNo, spec) text = .fail message) :
    ∃ before line behind reason, lines = before ++ line :: behind ∧
      message = originOf filename (lineNo + before.length + 1) ++ ": " ++ reason ∧
      Accepted spec before ∧ ¬ Accepted spec (before ++ [line]) := by
  induction lines generalizing text lineNo spec with
  | nil =>
      cases cut
      have stop : runLoop (lineTurn filename) (lineNo, spec) [] = .ok spec := rfl
      rw [stop] at failed
      cases failed
  | cons line lines ih =>
      rcases cut.turn with ⟨-, empty⟩ | ⟨line', rest, behind, parts, cut', turn⟩
      · cases empty
      · cases parts
        rw [turn] at failed
        cases read : readLine filename (lineNo + 1) spec line with
        | error reported =>
            rw [read] at failed
            cases failed
            obtain ⟨reason, same⟩ := readLine_error read
            exact ⟨[], line, lines, reason, rfl, same, ⟨[], .nil, nofun⟩, not_accepted read []⟩
        | ok spec' =>
            rw [read] at failed
            obtain ⟨before, line', behind, reason, parts, same, good, bad⟩ := ih cut' failed
            refine ⟨line :: before, line', behind, reason, by rw [parts, List.cons_append], ?_,
              (accepted_iff read).mpr good, fun accepted => bad ((accepted_iff read).mp accepted)⟩
            rw [same, List.length_cons]
            congr 4
            omega

theorem lineTurn_safe (state : Nat × FieldModesSpec) (text : Name) :
    (lineTurn filename state text).Safe := by
  rw [lineTurn]
  split_ifs
  · exact Outcome.safe_ok _
  · cases readLine filename (state.1 + 1) state.2 (text.takeWhile (· != '\n')) with
    | error message => exact Outcome.safe_fail _
    | ok spec => exact Outcome.safe_ok _

end Reading

/-- Every text is cut into lines.  A file is accepted exactly when each of its lines says something
and all names they give are one.  What they say is then added in their order, each entry under its
line; otherwise the error names the first line that cannot stand behind the lines in front of it. -/
theorem parseModesFile_spec (filename : String) (spec : FieldModesSpec) (text : Name) :
    (∃ lines, Lines text lines) ∧ ∀ lines, Lines text lines →
      (parseModesFile text filename spec).Safe ∧
        (∀ final, parseModesFile text filename spec = .ok final ↔
          ∃ said, List.Forall₂ LineSays lines said ∧ OneName spec.profileName said ∧
            final = extend filename 1 spec said) ∧
        ∀ message, parseModesFile text filename spec = .fail message →
          ∃ before line behind reason, lines = before ++ line :: behind ∧
            message = originOf filename (before.length + 1) ++ ": " ++ reason ∧
            Accepted spec before ∧ ¬ Accepted spec (before ++ [line]) := by
  refine ⟨exists_lines text, fun lines cut => ⟨runLoop_safe (lineTurn_consuming filename)
    lineTurn_safe _ _, fun final => runLoop_ok_iff cut, fun message failed => ?_⟩⟩
  have named := runLoop_fail_spec cut failed
  simpa only [Nat.zero_add] using named

/-- A name, an empty line, and a selection with a comment behind it. -/
def sampleFile : Name :=
  "name lean".toList ++ '\n' :: ([] ++ '\n' :: "  drop fm.A # old".toList)

/-- The selection is labelled with its line. -/
theorem parseModesFile_spec_sample :
    ∃ said, parseModesFile sampleFile "lean.modes" {} = .ok (extend "lean.modes" 1 {} said) ∧
      (said.zipIdx 1).filterMap (entryOf "lean.modes") =
        [⟨.drop, "fm.A".toList, "lean.modes:3"⟩] := by
  have cut : Lines sampleFile ["name lean".toList, [], "  drop fm.A # old".toList] :=
    .cons (by decide) (.cons (by decide) (.last (by decide) (by decide)))
  have lean : IsArgument "lean".toList := ⟨by decide, plain_of_all (by decide), by decide⟩
  have path : IsArgument "fm.A".toList := ⟨by decide, plain_of_all (by decide), by decide⟩
  have space : ∀ c ∈ [' '], isBlank c = true := List.forall_mem_singleton.mpr rfl
  have name : LineSays "name lean".toList (some (.name "lean".toList)) :=
    @LineSays.directive [] [' '] [] [] (.name "lean".toList) nofun (by decide) space lean nofun nofun
  have nothing : LineSays [] none := @LineSays.nothing [] [] nofun nofun
  have comment : IsComment "# old".toList := by
    rintro _ ⟨⟩
    rfl
  have select : LineSays "  drop fm.A # old".toList (some (.drop "fm.A".toList)) :=
    @LineSays.directive "  ".toList [' '] [' '] "# old".toList (.drop "fm.A".toList)
      (List.all_eq_true.mp (by decide)) (by decide) space path
      (fun c listed => isEnd_of_isBlank (space c listed)) comment
  refine ⟨_, (((parseModesFile_spec "lean.modes" {} sampleFile).2 _ cut).2.1 _).mpr
    ⟨_, .cons name (.cons nothing (.cons select .nil)), ?_, rfl⟩, rfl⟩
  exact fun id listed => by
    obtain rfl := List.mem_singleton.mp listed
    exact ⟨by decide, .inl rfl, fun other met => List.mem_singleton.mp met⟩

end ModesFile
end RapidProto
