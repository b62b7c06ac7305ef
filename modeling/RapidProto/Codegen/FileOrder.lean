import Mathlib.Data.List.Flatten
import Mathlib.Data.List.Lex
import RapidProto.Codegen.Absolute

/-!
# The order of the files

Top-level types are granted their identifiers in the order of their qualified names, so what they
get does not depend on the order in which the files are given, and neither does the absolute name of
any type.
-/

namespace RapidProto
namespace Codegen

open Front

/-- What a claimant is, apart from its node. -/
def Claimant.strip (entry : Claimant) : Text × Text × Text := (entry.raw, entry.fqn, entry.key)

/-! ## The claimants in order -/

theorem byFqn_trans (a b c : Claimant) (first : byFqn a b) (second : byFqn b c) : byFqn a c := by
  simp only [byFqn, decide_eq_true_eq] at *
  exact le_trans first second

theorem byFqn_total (a b : Claimant) : byFqn a b || byFqn b a := by
  simp only [byFqn, Bool.or_eq_true, decide_eq_true_eq]
  exact le_total _ _

theorem toNat_injective {a b : Text} (same : a.map BitVec.toNat = b.map BitVec.toNat) : a = b :=
  List.map_injective_iff.mpr (fun _ _ => BitVec.eq_of_toNat_eq) same

/-- Claimants whose qualified names are distinct have one order. -/
theorem sorted_strip_eq {first second : List Claimant}
    (perm : (first.map Claimant.strip).Perm (second.map Claimant.strip))
    (unique : (first.map Claimant.fqn).Nodup) :
    (first.mergeSort byFqn).map Claimant.strip = (second.mergeSort byFqn).map Claimant.strip := by
  let before (a b : Text × Text × Text) : Prop :=
    a.2.1.map BitVec.toNat ≤ b.2.1.map BitVec.toNat
  have sorted (entries : List Claimant) :
      ((entries.mergeSort byFqn).map Claimant.strip).Pairwise before := by
    apply List.pairwise_map.mpr
    apply (List.pairwise_mergeSort byFqn_trans byFqn_total entries).imp
    intro a b ordered
    exact of_decide_eq_true ordered
  have whole : ((first.mergeSort byFqn).map Claimant.strip).Perm
      ((second.mergeSort byFqn).map Claimant.strip) :=
    (((List.mergeSort_perm first byFqn).map _).trans perm).trans
      ((List.mergeSort_perm second byFqn).map _).symm
  apply whole.eq_of_pairwise _ (sorted first) (sorted second)
  intro a b listed listed' le ge
  have names := toNat_injective (le_antisymm le ge)
  have distinct : (((first.mergeSort byFqn).map Claimant.strip).map fun entry => entry.2.1).Nodup := by
    rw [List.map_map]
    exact ((List.mergeSort_perm first byFqn).map _).nodup_iff.mpr unique
  exact List.inj_on_of_nodup_map distinct listed (whole.mem_iff.mpr listed') names

/-! ## Claims that differ in their nodes -/

/-- Two states of the claims that agree up to the nodes. -/
structure Claims.Alike (claims claims' : Claims) : Prop where
  taken : ∀ key id, id ∈ claims.taken key ↔ id ∈ claims'.taken key
  claimed : claims.claimed.map (Prod.map Claimant.strip id) =
    claims'.claimed.map (Prod.map Claimant.strip id)

namespace Claims.Alike

variable {claims claims' : Claims} {entry entry' : Claimant}

theorem grant (alike : claims.Alike claims') (same : entry.strip = entry'.strip) (id : Text) :
    (claims.grant entry id).Alike (claims'.grant entry' id) where
  taken key other := by
    have keys : entry.key = entry'.key := congrArg (fun strip => strip.2.2) same
    rw [Claims.grant, Claims.grant, TakenByNamespace.mem_insert, TakenByNamespace.mem_insert,
      alike.taken, keys]
  claimed := by
    simp [Claims.grant, alike.claimed, same]

theorem escape (alike : claims.Alike claims') (same : entry.strip = entry'.strip) :
    (claims.escape entry).Alike (claims'.escape entry') := by
  have raws : entry.raw = entry'.raw := congrArg Prod.fst same
  have keys : entry.key = entry'.key := congrArg (fun strip => strip.2.2) same
  rw [Claims.escape, Claims.escape, raws, keys,
    underscore.free_congr (alike.taken entry'.key) (sanitize entry'.raw)]
  exact alike.grant same _

theorem foldl_escape (alike : claims.Alike claims') {entries entries' : List Claimant}
    (same : entries.map Claimant.strip = entries'.map Claimant.strip) :
    (entries.foldl Claims.escape claims).Alike (entries'.foldl Claims.escape claims') := by
  induction entries generalizing claims claims' entries' with
  | nil =>
      obtain rfl := List.map_eq_nil_iff.mp same.symm
      exact alike
  | cons entry entries ih =>
      obtain ⟨entry', rest, rfl, head, tail⟩ := List.map_eq_cons_iff.mp same.symm
      exact ih (alike.escape head.symm) tail.symm

theorem foldl_literal (alike : claims.Alike claims') {blocked blocked' : List Claimant}
    (sameBlocked : blocked.map Claimant.strip = blocked'.map Claimant.strip)
    {entries entries' : List Claimant}
    (same : entries.map Claimant.strip = entries'.map Claimant.strip) :
    (entries.foldl Claims.literal (claims, blocked)).1.Alike
        (entries'.foldl Claims.literal (claims', blocked')).1 ∧
      (entries.foldl Claims.literal (claims, blocked)).2.map Claimant.strip =
        (entries'.foldl Claims.literal (claims', blocked')).2.map Claimant.strip := by
  induction entries generalizing claims claims' blocked blocked' entries' with
  | nil =>
      obtain rfl := List.map_eq_nil_iff.mp same.symm
      exact ⟨alike, sameBlocked⟩
  | cons entry entries ih =>
      obtain ⟨entry', rest, rfl, head, tail⟩ := List.map_eq_cons_iff.mp same.symm
      have raws : entry.raw = entry'.raw := congrArg Prod.fst head.symm
      have keys : entry.key = entry'.key := congrArg (fun strip => strip.2.2) head.symm
      rw [List.foldl_cons, List.foldl_cons, Claims.literal_eq, Claims.literal_eq, raws, keys]
      dsimp only
      by_cases used : entry'.raw ∈ claims'.taken entry'.key
      · rw [if_pos ((alike.taken _ _).mpr used), if_pos used]
        exact ih alike (by simp [sameBlocked, head]) tail.symm
      · rw [if_neg fun member => used ((alike.taken _ _).mp member), if_neg used]
        exact ih (alike.grant head.symm _) sameBlocked tail.symm

end Claims.Alike

section Order

variable {names : CppNameTable} {files files' : List FileNode}

/-- The claimants of a file up to their nodes. -/
def stripped (names : CppNameTable) (file : FileNode) : List (Text × Text × Text) :=
  (file.enums.map fun node => (node.name, node.fqn, joinNs names.nsPrefix (namespaceOf file.package)))
    ++ file.messages.map fun message =>
      (message.name, message.fqn, joinNs names.nsPrefix (namespaceOf file.package))

theorem map_strip_claimants (names : CppNameTable) (files : List FileNode) :
    (claimants names files).map Claimant.strip = files.flatMap (stripped names) := by
  have zipped {α β : Type} (nodes : List α) (image : α → β) :
      nodes.zipIdx.map (fun node => image node.1) = nodes.map image := by
    conv_rhs => rw [← List.zipIdx_map_fst 0 nodes, List.map_map]
    rfl
  have one (entry : FileNode × Nat) :
      (claimantsOf names entry).map Claimant.strip = stripped names entry.1 := by
    rw [claimantsOf, stripped, List.map_append, List.map_map, List.map_map]
    exact congrArg₂ (· ++ ·)
      (zipped entry.1.enums fun node =>
        (node.name, node.fqn, joinNs names.nsPrefix (namespaceOf entry.1.package)))
      (zipped entry.1.messages fun message =>
        (message.name, message.fqn, joinNs names.nsPrefix (namespaceOf entry.1.package)))
  rw [claimants, List.map_flatMap]
  simp only [one]
  rw [List.flatMap, zipped files (stripped names), List.flatMap]

/-- The qualified names of the claimants are among those of the types. -/
theorem claimants_fqn_nodup (names : CppNameTable) (unique : (files.flatMap fileFqns).Nodup) :
    ((claimants names files).map Claimant.fqn).Nodup := by
  have fqns : (claimants names files).map Claimant.fqn =
      files.flatMap fun file => file.enums.map EnumNode.fqn ++ file.messages.map MessageNode.fqn := by
    have strips := congrArg (List.map fun strip : Text × Text × Text => strip.2.1)
      (map_strip_claimants names files)
    rw [List.map_map, List.map_flatMap] at strips
    refine strips.trans ?_
    congr 1
    funext file
    rw [stripped, List.map_append, List.map_map, List.map_map]
    rfl
  rw [fqns]
  apply List.Nodup.sublist _ unique
  apply List.Sublist.flatMap_right
  intro file _
  exact List.sublist_append_left _ _

/-- The claims of the files in another order. -/
theorem claimToplevelIds_alike (named : names.nsPrefix ≠ []) (perm : files.Perm files')
    (unique : (files.flatMap fileFqns).Nodup) :
    (claimToplevelIds names files).Alike (claimToplevelIds names files') := by
  have whole : ((claimants names files).map Claimant.strip).Perm
      ((claimants names files').map Claimant.strip) := by
    rw [map_strip_claimants, map_strip_claimants]
    exact perm.flatMap_right _
  have sorted (keep : Text → Bool) :
      (((claimants names files).filter fun entry => keep entry.raw).mergeSort byFqn).map
          Claimant.strip =
        (((claimants names files').filter fun entry => keep entry.raw).mergeSort byFqn).map
          Claimant.strip := by
    apply sorted_strip_eq
    · have filtered := whole.filter fun strip => keep strip.1
      rwa [List.filter_map, List.filter_map] at filtered
    · exact List.Nodup.sublist (List.filter_sublist.map _) (claimants_fqn_nodup names unique)
  have base : Claims.Alike ⟨componentsTaken names files, []⟩ ⟨componentsTaken names files', []⟩ := by
    refine ⟨fun key id => ?_, rfl⟩
    rw [mem_componentsTaken named, mem_componentsTaken named]
    simp only [perm.mem_iff]
  obtain ⟨literals, blocked⟩ := base.foldl_literal (List.map_nil.trans List.map_nil.symm)
    (sorted fun raw => decide (sanitize raw = raw))
  exact (literals.foldl_escape blocked).foldl_escape
    (sorted fun raw => decide (sanitize raw ≠ raw))

/-- Claimants that are the same up to their nodes are granted the same identifier. -/
theorem find_alike (named : names.nsPrefix ≠ []) (perm : files.Perm files')
    (unique : (files.flatMap fileFqns).Nodup) {entry entry' : Claimant}
    (listed : entry ∈ claimants names files) (listed' : entry' ∈ claimants names files')
    (same : entry.strip = entry'.strip) :
    (claimToplevelIds names files).find entry.node =
      (claimToplevelIds names files').find entry'.node := by
  obtain ⟨given, found, granted⟩ := exists_find names files listed
  have image := List.mem_map_of_mem (f := Prod.map Claimant.strip id) granted
  rw [(claimToplevelIds_alike named perm unique).claimed] at image
  obtain ⟨⟨other, id'⟩, granted', equal⟩ := List.mem_map.mp image
  obtain ⟨strips, rfl⟩ := Prod.mk.inj equal
  have member : other ∈ claimants names files' :=
    (claimToplevelIds_perm names files').mem_iff.mp (List.mem_map_of_mem granted')
  have fqns : other.fqn = entry'.fqn := congrArg (fun strip => strip.2.1) (strips.trans same)
  obtain rfl := List.inj_on_of_nodup_map
    (claimants_fqn_nodup names ((perm.flatMap_right fileFqns).nodup_iff.mp unique)) member listed' fqns
  rw [found]
  exact ((find_eq_some names files').mpr ⟨other, rfl, granted'⟩).symm

/-! ## The files in order -/

/-- A file gets the same names wherever it stands. -/
theorem fileTypes_alike (named : names.nsPrefix ≠ []) (perm : files.Perm files')
    (unique : (files.flatMap fileFqns).Nodup) {file : FileNode} {i j : Nat}
    (listed : (file, i) ∈ files.zipIdx) (listed' : (file, j) ∈ files'.zipIdx) :
    fileTypes (claimToplevelIds names files) (file, i) =
      fileTypes (claimToplevelIds names files') (file, j) := by
  have claimant {entry : FileNode × Nat} {files : List FileNode} (listed : entry ∈ files.zipIdx)
      {top : Claimant} (inside : top ∈ claimantsOf names entry) : top ∈ claimants names files :=
    List.mem_flatMap.mpr ⟨entry, listed, inside⟩
  have enums : topEnumIds (claimToplevelIds names files) (file, i) =
      topEnumIds (claimToplevelIds names files') (file, j) := by
    apply List.map_congr_left
    intro k inside
    simp only [List.mem_range'_1, Nat.zero_add] at inside
    have position : (file.enums[k], k) ∈ file.enums.zipIdx := by
      simp [List.mem_zipIdx_iff_getElem?, inside.2]
    congr 1
    exact find_alike named perm unique
      (claimant listed (List.mem_append_left _ (List.mem_map_of_mem position)))
      (claimant listed' (List.mem_append_left _ (List.mem_map_of_mem position))) rfl
  have messages : topMessageIds (claimToplevelIds names files) (file, i) =
      topMessageIds (claimToplevelIds names files') (file, j) := by
    apply List.map_congr_left
    intro k inside
    simp only [List.mem_range'_1, Nat.zero_add] at inside
    have position : (file.messages[k], k) ∈ file.messages.zipIdx := by
      simp [List.mem_zipIdx_iff_getElem?, inside.2]
    congr 1
    exact find_alike named perm unique
      (claimant listed (List.mem_append_right _ (List.mem_map_of_mem position)))
      (claimant listed' (List.mem_append_right _ (List.mem_map_of_mem position))) rfl
  rw [fileTypes, fileTypes, enums, messages]

mutual

/-- The messages of a message are among its types. -/
theorem nestedFqns_sublist : (message : MessageNode) →
    (nestedFqns message).Sublist (typeFqns message)
  | ⟨_, _, _, _, _, _, nestedMessages, _, _, _, _, _⟩ => by
    rw [nestedFqns, typeFqns, List.append_assoc]
    exact ((List.Sublist.refl _).append (nestedFqnsAll_sublist nestedMessages)).trans
      (List.sublist_append_right _ _)

theorem nestedFqnsAll_sublist : (messages : List MessageNode) →
    (nestedFqnsAll messages).Sublist (typeFqnsAll messages)
  | [] => List.Sublist.refl _
  | message :: messages => by
    rw [nestedFqnsAll, typeFqnsAll]
    exact (nestedFqns_sublist message).append (nestedFqnsAll_sublist messages)

end

/-- Entries of all files, written in two orders, are found alike. -/
theorem tryEmplaceAll_perm {β : Type} (keys : FileNode → List Text)
    (entries : List FileNode → FileNode × Nat → List (Text × β))
    (keyed : ∀ files, ∀ entry, (entries files entry).map Prod.fst = keys entry.1)
    (unique : (files.flatMap keys).Nodup) (perm : files.Perm files')
    (alike : ∀ file i j, (file, i) ∈ files.zipIdx → (file, j) ∈ files'.zipIdx →
      entries files (file, i) = entries files' (file, j)) (key : Text) :
    tryEmplaceAll (fun _ => none) (files.zipIdx.flatMap (entries files)) key =
      tryEmplaceAll (fun _ => none) (files'.zipIdx.flatMap (entries files')) key := by
  have distinct (files : List FileNode) (unique : (files.flatMap keys).Nodup) :
      ((files.zipIdx.flatMap (entries files)).map Prod.fst).Nodup := by
    have all : (files.zipIdx.flatMap (entries files)).map Prod.fst = files.flatMap keys := by
      rw [List.map_flatMap]
      simp only [keyed]
      conv_rhs => rw [← List.zipIdx_map_fst 0 files, List.flatMap_map]
    rwa [all]
  have unique' := (perm.flatMap_right keys).nodup_iff.mp unique
  have same (pair : Text × β) : pair ∈ files.zipIdx.flatMap (entries files) ↔
      pair ∈ files'.zipIdx.flatMap (entries files') := by
    have position {files : List FileNode} {file : FileNode} (listed : file ∈ files) :
        ∃ i, (file, i) ∈ files.zipIdx := by
      obtain ⟨i, given⟩ := List.mem_iff_getElem?.mp listed
      exact ⟨i, List.mem_zipIdx_iff_getElem?.mpr given⟩
    have member {files : List FileNode} {entry : FileNode × Nat} (listed : entry ∈ files.zipIdx) :
        entry.1 ∈ files :=
      List.mem_of_getElem? (List.mem_zipIdx_iff_getElem?.mp listed)
    constructor
    · intro inside
      obtain ⟨⟨file, i⟩, listed, written⟩ := List.mem_flatMap.mp inside
      obtain ⟨j, listed'⟩ := position (perm.mem_iff.mp (member listed))
      exact List.mem_flatMap.mpr ⟨_, listed', alike file i j listed listed' ▸ written⟩
    · intro inside
      obtain ⟨⟨file, j⟩, listed', written⟩ := List.mem_flatMap.mp inside
      obtain ⟨i, listed⟩ := position (perm.mem_iff.mpr (member listed'))
      exact List.mem_flatMap.mpr ⟨_, listed, (alike file i j listed listed').symm ▸ written⟩
  apply Option.ext
  intro value
  have lookup (files : List FileNode) (unique : (files.flatMap keys).Nodup) :
      tryEmplaceAll (fun _ => none) (files.zipIdx.flatMap (entries files)) key = some value ↔
        (key, value) ∈ files.zipIdx.flatMap (entries files) := by
    constructor
    · intro found
      rcases of_tryEmplaceAll found with before | written
      · cases before
      · exact written
    · exact fun written => tryEmplaceAll_of_mem (distinct files unique) written rfl
  rw [lookup files unique, lookup files' unique']
  exact same (key, value)

end Order

/-- The order in which the files of a set are given decides no name, provided that no two of their
types have one qualified name: absolute and relative names are the same.  Without files the set is
the file that asks. -/
theorem names_perm {files files' : List FileNode} (perm : files.Perm files')
    (some_file : files ≠ []) (unique : (files.flatMap fileFqns).Nodup) (file file' : FileNode)
    (nsPrefix modelNamespace fqn : Text) :
    let names := buildCppNames file files nsPrefix modelNamespace
    let names' := buildCppNames file' files' nsPrefix modelNamespace
    cppTypeName names fqn = cppTypeName names' fqn ∧
      relativeTypeName names fqn = relativeTypeName names' fqn := by
  intro names names'
  have named := emptyTable_nsPrefix_ne_nil nsPrefix modelNamespace
  have some_file' : files' ≠ [] := fun empty => some_file (perm.trans (empty ▸ .refl _)).eq_nil
  have set : fileSet file files = files := if_neg some_file
  have set' : fileSet file' files' = files' := if_neg some_file'
  have absolute : names.absolute fqn = names'.absolute fqn := by
    rw [show names = _ from buildCppNames_eq file files nsPrefix modelNamespace,
      show names' = _ from buildCppNames_eq file' files' nsPrefix modelNamespace, set, set']
    apply tryEmplaceAll_perm fileFqns (fun files entry =>
      fileNames (claimToplevelIds (emptyTable nsPrefix modelNamespace) files) entry
        (emptyTable nsPrefix modelNamespace)) _ unique perm
    · intro file i j listed listed'
      rw [fileNames, fileNames, fileTypes_alike named perm unique listed listed']
    · intro files entry
      rw [fileNames, List.map_map, ← map_fqn_fileTypes]
      rfl
  have spaces : names.typeNs fqn = names'.typeNs fqn := by
    rw [show names = _ from buildCppNames_eq file files nsPrefix modelNamespace,
      show names' = _ from buildCppNames_eq file' files' nsPrefix modelNamespace, set, set']
    have sublist : (files.flatMap fun file => fileMessages (file, 0)).Sublist
        (files.flatMap fileFqns) := by
      apply List.Sublist.flatMap_right
      intro file _
      rw [fileMessages, fileFqns, List.append_assoc]
      exact ((List.Sublist.refl _).append (nestedFqnsAll_sublist file.messages)).trans
        (List.sublist_append_right _ _)
    apply tryEmplaceAll_perm (fun file => fileMessages (file, 0))
      (fun _ entry => fileSpaces entry (emptyTable nsPrefix modelNamespace)) _
      (List.Nodup.sublist sublist unique) perm
    · exact fun _ _ _ _ _ => rfl
    · intro files entry
      rw [fileSpaces, List.map_map]
      exact List.map_id _
  rw [relativeTypeName, relativeTypeName, cppTypeName, cppTypeName, absolute, spaces]
  exact ⟨rfl, rfl⟩

/-- An enum `decode` whose escaped name another file of the package uses. -/
def escapedFile : FileNode where
  package := text "p"
  enums := [{ name := text "decode", fqn := text ".p.decode" }]

/-- A message with the name that the enum would get. -/
def literalFile : FileNode where
  package := text "p"
  messages := [{ name := text "decode_", fqn := text ".p.decode_" }]

theorem names_perm_swap :
    let names := buildCppNames escapedFile [escapedFile, literalFile] [] kArenaRoot
    let names' := buildCppNames escapedFile [literalFile, escapedFile] [] kArenaRoot
    cppTypeName names (text ".p.decode") = cppTypeName names' (text ".p.decode") ∧
      relativeTypeName names (text ".p.decode") = relativeTypeName names' (text ".p.decode") := by
  apply names_perm (List.Perm.swap _ _ _) (by simp)
  have fqns : [escapedFile, literalFile].flatMap fileFqns = [text ".p.decode", text ".p.decode_"] :=
    by simp [escapedFile, literalFile, fileFqns, typeFqnsAll, typeFqns]
  rw [fqns]
  decide

end Codegen
end RapidProto
