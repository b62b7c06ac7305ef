import Mathlib.Data.Nat.Digits.Defs
import RapidProto.Codegen.Absolute
import RapidProto.Codegen.Enums

/-!
# The common header

`emit_common_header` writes the enums of a file: those of its top level, and those of its messages
inside namespaces that mirror the messages.  What a reader of the header finds there, by following
the namespaces, is each enum of the file under its absolute name.

A printed text is a template with its variables filled in.
-/

namespace RapidProto
namespace Codegen

open Front

/-! ## The printer -/

/-- `Printer`, without variables. -/
structure Printer where
  /-- The text so far. -/
  out : Text := []
  /-- The level of indentation. -/
  level : Nat := 0
  /-- Nothing has been printed on the line. -/
  atLineStart : Bool := true

namespace Printer

/-- One turn of `emit`. -/
def put (printer : Printer) (ch : Byte) : Printer :=
  if ch = byte '\n' then { printer with out := printer.out ++ [ch], atLineStart := true }
  else
    let indented := if printer.atLineStart then
        { printer with
          out := printer.out ++ List.replicate (2 * printer.level) (byte ' ')
          atLineStart := false }
      else printer
    { indented with out := indented.out ++ [ch] }

/-- `print`. -/
def print (printer : Printer) (resolved : Text) : Printer := resolved.foldl put printer

/-- `indent`. -/
def indent (printer : Printer) : Printer := { printer with level := printer.level + 1 }

/-- `outdent`. -/
def outdent (printer : Printer) : Printer := { printer with level := printer.level - 1 }

end Printer

/-- The decimal digits of a number. -/
def decimalNat (n : Nat) : Text :=
  if n = 0 then text "0" else (Nat.digits 10 n).reverse.map fun d => byte '0' + BitVec.ofNat 8 d

/-- `std::to_string`. -/
def decimal (i : Int) : Text := if i < 0 then text "-" ++ decimalNat i.natAbs else decimalNat i.natAbs

/-! ## The header -/

/-- An enumerator. -/
def emitEnumerator (printer : Printer) (name : Text) (number : Int) : Printer :=
  printer.print (name ++ text " = " ++ decimal number ++ text ",\n")

/-- `emit_enum`, of an enum that has been given an identifier. -/
def emitEnum (printer : Printer) (id : Text) (node : EnumNode) (trailingBlank : Bool) : Printer :=
  let printer := (printer.print (text "enum class " ++ id ++ text " : std::int32_t \x7b\n")).indent
  let printer := ((enumValueNames node).zip node.values).foldl (fun printer (name, value) =>
    emitEnumerator printer name value.number.toInt) printer
  let numbers := node.values.map fun value => value.number.toInt
  let printer := match numbers.min?, numbers.max? with
    | some lo, some hi =>
      emitEnumerator (emitEnumerator printer (text "rp_known_min") lo) (text "rp_known_max") hi
    | _, _ => printer
  let printer := printer.print (text "rp_non_exhaustive_min = INT32_MIN,\n")
  let printer := (printer.print (text "rp_non_exhaustive_max = INT32_MAX,\n")).outdent
  printer.print (if trailingBlank then text "\x7d;\n\n" else text "\x7d;\n")

mutual

/-- `holds_enum`. -/
def holdsEnum : MessageNode → Bool
  | ⟨_, _, _, _, _, enums, nestedMessages, _, _, _, _, _⟩ =>
    !enums.isEmpty || anyHoldsEnum nestedMessages

/-- The same for the messages of a list. -/
def anyHoldsEnum : List MessageNode → Bool
  | [] => false
  | message :: messages => holdsEnum message || anyHoldsEnum messages

end

section Mirror

variable (names : CppNameTable)

mutual

/-- `emit_enum_mirror`. -/
def emitEnumMirror (node : NodeRef) : MessageNode → Printer → Printer
  | ⟨name, visibility, fields, mapFields, oneofs, enums, nestedMessages, reserved, ranges, blocks,
      options, fqn⟩, printer =>
    if !holdsEnum ⟨name, visibility, fields, mapFields, oneofs, enums, nestedMessages, reserved,
        ranges, blocks, options, fqn⟩ then printer
    else
      let id := names.at node
      let printer := printer.print (text "namespace " ++ id ++ text " \x7b\n")
      let printer := enums.zipIdx.foldl (fun printer (nested, i) =>
        emitEnum printer (names.at ((.enum, i) :: node)) nested false) printer
      let printer := emitEnumMirrors node 0 nestedMessages printer
      printer.print (text "\x7d  // namespace " ++ id ++ text "\n\n")

/-- The loop over the messages of one scope. -/
def emitEnumMirrors (holder : NodeRef) : (first : Nat) → List MessageNode → Printer → Printer
  | _, [], printer => printer
  | first, message :: messages, printer =>
    emitEnumMirrors holder (first + 1) messages
      (emitEnumMirror ((.message, first) :: holder) message printer)

end

end Mirror

/-- `import_header`. -/
def importHeader (path extension : Text) : Text :=
  let stem := if (text ".proto").isSuffixOf path then path.take (path.length - 6) else path
  stem ++ extension

/-- `emit_import_includes`. -/
def emitImportIncludes (printer : Printer) (file : FileNode) (extension : Text) : Printer :=
  file.imports.foldl (fun printer import_ =>
    if import_.kind ≠ .option then
      printer.print (text "#include \"" ++ importHeader import_.path extension ++ text "\"\n")
    else printer) printer

/-- `emit_common_header`; the version of the tool is set by its build. -/
def emitCommonHeader (version : Text) (entry : FileNode × Nat) (names : CppNameTable) : Text :=
  let printer : Printer := {}
  let printer := printer.print (text "// Generated by rapidprotoc " ++ version ++
    text ". DO NOT EDIT.\n")
  let printer := printer.print
    (text "// Shared schema types (enums) for the generated decoders (Apache-2.0).\n")
  let printer := printer.print (text "#pragma once\n\n")
  let printer := printer.print (text "#include <cstdint>\n")
  let printer := emitImportIncludes printer entry.1 (text ".rp.common.hpp")
  let printer := printer.print (text "\n")
  let ns := enumNamespace names entry.1
  let printer := printer.print (text "namespace " ++ ns ++ text " \x7b\n\n")
  let printer := entry.1.enums.zipIdx.foldl (fun printer (node, i) =>
    emitEnum printer (names.at [(.enum, i), (.file, entry.2)]) node true) printer
  let printer := emitEnumMirrors names [(.file, entry.2)] 0 entry.1.messages printer
  (printer.print (text "\x7d  // namespace " ++ ns ++ text "\n")).out

end Codegen
end RapidProto
