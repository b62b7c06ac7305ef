import RapidProto.Codegen.ClassScope
import RapidProto.Front.Lexer

/-!
# Enumerators

`enum_value_names` strips the prefix that the values of an enum conventionally carry, for all of its
values or for none, escapes what is left and keeps the enumerators distinct.
-/

namespace RapidProto
namespace Codegen

open Front

/-- A capital letter. -/
def isUpperCase (c : Byte) : Bool := within 'A' 'Z' c

/-- A small letter. -/
def isLowerCase (c : Byte) : Bool := within 'a' 'z' c

/-- The loop of `enum_value_prefix` over a name, with the character before. -/
def valuePrefixLoop : (prev : Byte) → (out name : Text) → Text
  | _, out, [] => out
  | prev, out, c :: rest =>
    let boundary := isUpperCase c && out ≠ [] &&
      ((isLowerCase prev || isDecimalDigit prev) ||
        (isUpperCase prev && (rest.head?.map isLowerCase).getD false))
    let out := if boundary then out ++ text "_" else out
    valuePrefixLoop c (out ++ [if isLowerCase c then c - 0x20 else c]) rest

/-- `enum_value_prefix`. -/
def enumValuePrefix (name : Text) : Text := valuePrefixLoop 0 [] name ++ text "_"

/-- `enum_prefix_strippable`. -/
def enumPrefixStrippable (node : EnumNode) (valuePrefix : Text) : Bool :=
  node.values ≠ [] && node.values.all fun value =>
    if value.name.length ≤ valuePrefix.length || !valuePrefix.isPrefixOf value.name then false
    else
      let rest := value.name.drop valuePrefix.length
      !(rest.head?.map isDecimalDigit).getD false && sanitize rest = rest

/-- The loop of `enum_value_names`: each name is escaped and kept apart from those before. -/
def valueNamesLoop (strip : Bool) (valuePrefix : Text) :
    (taken : List Text) → (out : List Text) → List EnumValueNode → List Text
  | _, out, [] => out
  | taken, out, value :: values =>
    let raw := if strip then value.name.drop valuePrefix.length else value.name
    let name := underscore.free taken (sanitize raw)
    valueNamesLoop strip valuePrefix (name :: taken) (out ++ [name]) values

/-- `enum_value_names`. -/
def enumValueNames (node : EnumNode) : List Text :=
  let valuePrefix := enumValuePrefix node.name
  valueNamesLoop (enumPrefixStrippable node valuePrefix) valuePrefix [] [] node.values

/-- The enumerators that `emit_enum` adds for the range of an enum. -/
def rangeSentinels (node : EnumNode) : List Text :=
  (if node.values = [] then [] else [text "rp_known_min", text "rp_known_max"]) ++
    [text "rp_non_exhaustive_min", text "rp_non_exhaustive_max"]

/-! ## Spelling -/

/-- The spelling of an identifier: letters, digits and underscores, and no digit at the front. -/
structure IsIdentifier (id : Text) : Prop where
  nonempty : id ≠ []
  front : ∀ c, id.head? = some c → isDecimalDigit c = false
  letters : ∀ c ∈ id, isLetterOrDigit c = true

theorem IsIdentifier.append {id more : Text} (identifier : IsIdentifier id)
    (letters : ∀ c ∈ more, isLetterOrDigit c = true) : IsIdentifier (id ++ more) := by
  refine ⟨List.append_ne_nil_of_left_ne_nil identifier.nonempty more, fun c first => ?_, ?_⟩
  · rw [List.head?_append_of_ne_nil id identifier.nonempty] at first
    exact identifier.front c first
  · intro c listed
    exact (List.mem_append.mp listed).elim (identifier.letters c) (letters c)

theorem isLetterOrDigit_of_mem_replicate {turns : Nat} {c : Byte}
    (listed : c ∈ List.replicate turns (byte '_')) : isLetterOrDigit c = true := by
  rw [List.eq_of_mem_replicate listed]
  decide

theorem isIdentifier_sanitize {name : Text} (identifier : IsIdentifier name) :
    IsIdentifier (sanitize name) := by
  rw [sanitize]
  split_ifs
  · exact identifier.append fun c listed => @isLetterOrDigit_of_mem_replicate 1 _ listed
  · exact identifier

/-! ## What the enumerators are -/

theorem valueNamesLoop_eq (strip : Bool) (valuePrefix : Text) (taken out : List Text)
    (values : List EnumValueNode) :
    valueNamesLoop strip valuePrefix taken out values =
      out ++ idsOf taken (values.map fun value =>
        value.name.drop (if strip then valuePrefix.length else 0)) := by
  induction values generalizing taken out with
  | nil => simp [valueNamesLoop, idsOf]
  | cons value values ih =>
      have raw : (if strip then value.name.drop valuePrefix.length else value.name) =
          value.name.drop (if strip then valuePrefix.length else 0) := by
        split_ifs <;> rfl
      rw [valueNamesLoop, ih, raw, List.append_assoc]
      rfl

/-- How much of each value's name is stripped. -/
def strippedLength (node : EnumNode) : Nat :=
  if enumPrefixStrippable node (enumValuePrefix node.name) then
    (enumValuePrefix node.name).length
  else 0

theorem enumValueNames_eq (node : EnumNode) :
    enumValueNames node =
      idsOf [] (node.values.map fun value => value.name.drop (strippedLength node)) := by
  rw [enumValueNames, valueNamesLoop_eq, List.nil_append]
  rfl

/-- Every value keeps its name, or every value has the prefix, which is what is stripped. -/
theorem take_strippedLength (node : EnumNode) :
    strippedLength node = 0 ∨
      ∀ value ∈ node.values, value.name.take (strippedLength node) = enumValuePrefix node.name := by
  rw [strippedLength]
  split_ifs with strip
  · right
    intro value listed
    rw [enumPrefixStrippable, Bool.and_eq_true, List.all_eq_true] at strip
    have carried := strip.2 value listed
    split_ifs at carried with short
    simp only [Bool.or_eq_true, decide_eq_true_eq, Bool.not_eq_true', not_or,
      Bool.not_eq_false] at short
    exact (List.prefix_iff_eq_take.mp (List.isPrefixOf_iff_prefix.mp short.2)).symm
  · exact .inl rfl

/-- What is left of a name is an identifier: a prefix is stripped only if no digit follows it. -/
theorem isIdentifier_stripped {node : EnumNode} {value : EnumValueNode}
    (listed : value ∈ node.values) (identifier : IsIdentifier value.name) :
    IsIdentifier (value.name.drop (strippedLength node)) := by
  rw [strippedLength]
  split_ifs with strip
  · rw [enumPrefixStrippable, Bool.and_eq_true, List.all_eq_true] at strip
    have clean := strip.2 value listed
    split_ifs at clean with short
    rw [Bool.or_eq_true, decide_eq_true_eq, not_or, Nat.not_le] at short
    rw [Bool.and_eq_true, Bool.not_eq_true'] at clean
    refine ⟨?_, fun c first => ?_,
      fun c inside => identifier.letters c (List.mem_of_mem_drop inside)⟩
    · rw [ne_eq, List.drop_eq_nil_iff]
      omega
    · have noDigit := clean.1
      rwa [first] at noDigit
  · exact identifier

/-- A sentinel lies in the space of the generators without an underscore at its end. -/
theorem not_usable_sentinel {node : EnumNode} {id : Text} (listed : id ∈ rangeSentinels node) :
    ¬ Usable id := by
  have known : id ∈ [text "rp_known_min", text "rp_known_max", text "rp_non_exhaustive_min",
      text "rp_non_exhaustive_max"] := by
    rw [rangeSentinels] at listed
    split_ifs at listed <;> simp_all
  have all : ∀ id ∈ [text "rp_known_min", text "rp_known_max", text "rp_non_exhaustive_min",
      text "rp_non_exhaustive_max"], startsWith "rp_" id = true ∧ id.getLast? ≠ some (byte '_') := by
    decide
  intro usable
  exact (all id known).2 (usable.outside (.inl (all id known).1))

/-- The enumerators of an enum, one for each value, are distinct from each other and from those that
the generator adds, and usable; they are spelled as identifiers if the names of the values are.
Either each is the name of its value, or each is what follows the prefix that all values have; in
both cases with underscores where that is in use or reserved. -/
theorem enumerators_distinct (node : EnumNode) :
    (enumValueNames node ++ rangeSentinels node).Nodup ∧
      (∀ id ∈ enumValueNames node, Usable id) ∧
      ((∀ value ∈ node.values, IsIdentifier value.name) →
        ∀ id ∈ enumValueNames node, IsIdentifier id) ∧
      (strippedLength node = 0 ∨ ∀ value ∈ node.values,
        value.name.take (strippedLength node) = enumValuePrefix node.name) ∧
      List.Forall₂ (fun value id => ∃ turns, id =
          sanitize (value.name.drop (strippedLength node)) ++ List.replicate turns (byte '_'))
        node.values (enumValueNames node) := by
  have usable : ∀ id ∈ enumValueNames node, Usable id := by
    rw [enumValueNames_eq]
    exact usable_idsOf _ _
  have sentinels : (rangeSentinels node).Nodup := by
    rw [rangeSentinels]
    split_ifs <;> decide
  have reached := underscore.forall₂_assign []
    ((node.values.map fun value => value.name.drop (strippedLength node)).map sanitize)
  rw [List.map_map, List.forall₂_map_left_iff] at reached
  have spelled : List.Forall₂ (fun value id => ∃ turns, id =
      sanitize (value.name.drop (strippedLength node)) ++ List.replicate turns (byte '_'))
      node.values (enumValueNames node) := by
    rw [enumValueNames_eq, idsOf, List.map_map]
    apply reached.imp
    rintro value id ⟨turns, rfl⟩
    exact ⟨turns, underscore_iterate _ _⟩
  refine ⟨?_, usable, fun identifiers id listed => ?_, take_strippedLength node, spelled⟩
  · apply List.Nodup.append _ sentinels
    · exact fun id listed sentinel => not_usable_sentinel sentinel (usable id listed)
    · rw [enumValueNames_eq]
      exact underscore.assign_nodup _ _
  · have stripped : ∀ value ∈ node.values, IsIdentifier (value.name.drop (strippedLength node)) :=
      fun value inEnum => isIdentifier_stripped inEnum (identifiers value inEnum)
    have each := (List.forall₂_and_left _ _).mpr ⟨stripped, spelled⟩
    have identified : List.Forall₂ (fun value id => IsIdentifier id ∧ True) node.values
        (enumValueNames node) := by
      refine each.imp ?_
      rintro value id ⟨identifier, turns, rfl⟩
      exact ⟨(isIdentifier_sanitize identifier).append
        fun c inside => isLetterOrDigit_of_mem_replicate inside, trivial⟩
    exact ((List.forall₂_and_left _ _).mp identified.flip).1 id listed

/-- `enum HttpStatus { HTTP_STATUS_OK = 0; HTTP_STATUS_NOT_FOUND = 404; }` is stripped. -/
theorem enumerators_distinct_httpStatus :
    let node : EnumNode :=
      { name := text "HttpStatus"
        values := [{ name := text "HTTP_STATUS_OK" },
          { name := text "HTTP_STATUS_NOT_FOUND", number := 404 }] }
    enumValueNames node = [text "OK", text "NOT_FOUND"] ∧
      ∀ id ∈ enumValueNames node, IsIdentifier id := by
  intro node
  refine ⟨by decide +kernel, (enumerators_distinct node).2.2.1 fun value listed => ?_⟩
  have letters : ∀ value ∈ node.values, value.name ≠ [] ∧
      (value.name.head?.all fun c => !isDecimalDigit c) = true ∧
      value.name.all isLetterOrDigit = true := by decide +kernel
  obtain ⟨nonempty, front, word⟩ := letters value listed
  refine ⟨nonempty, fun c first => ?_, List.all_eq_true.mp word⟩
  rw [first] at front
  exact Bool.not_eq_true' _ |>.mp front

end Codegen
end RapidProto
