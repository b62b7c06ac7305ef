import Mathlib.Data.List.Sigma
import RapidProto.Codegen.Log
import RapidProto.Keyed

/-!
# The claims of a package

Every top-level type is granted one identifier.  In the namespace of a package the identifiers
granted are distinct and none is the namespace of a package inside it; a name that needs no escape
is kept unless such a namespace or a type of the same name has it.
-/

namespace RapidProto
namespace Codegen

open Front

/-! ## The components of the packages -/

theorem TakenByNamespace.mem_insert {taken : TakenByNamespace} {key key' id id' : Text} :
    id ∈ taken.insert key' id' key ↔ id ∈ taken key ∨ key = key' ∧ id = id' := by
  rw [insert]
  by_cases same : key = key'
  · subst same
    simp [or_comm]
  · simp [same]

/-- A component opens a namespace in that of the components before it. -/
def Opens (names : CppNameTable) (package key id : Text) : Prop :=
  ∃ before component behind, components package = before ++ component :: behind ∧
    key = names.nsPrefix ++ spell (before.map sanitize) ∧ id = sanitize component

theorem components_append {dotted component : Text}
    (plain : byte '.' ∉ component) (named : component ≠ []) :
    components (dotted ++ text "." ++ component) = components dotted ++ [component] := by
  rw [components, components, show text "." = [byte '.'] from rfl, List.append_assoc,
    List.singleton_append, List.splitOn_append_cons_self, List.filter_append,
    List.splitOn_eq_singleton plain]
  simp [named]

theorem components_single {component : Text} (plain : byte '.' ∉ component)
    (named : component ≠ []) : components component = [component] := by
  rw [components, List.splitOn_eq_singleton plain]
  simp [named]

theorem not_mem_of_mem_components {dotted component : Text}
    (listed : component ∈ components dotted) : byte '.' ∉ component ∧ component ≠ [] := by
  rw [components, List.mem_filter] at listed
  refine ⟨?_, by simpa using listed.2⟩
  have split := listed.1
  clear listed
  induction dotted generalizing component with
  | nil =>
      obtain rfl : component = [] := by simpa using split
      simp
  | cons ch dotted ih =>
      rw [List.splitOn_cons_eq_if_modifyHead] at split
      cases pieces : dotted.splitOn (byte '.') with
      | nil => exact absurd pieces (List.splitOn_ne_nil _ _)
      | cons piece rest =>
          rw [pieces] at split ih
          split_ifs at split with dot
          · rcases List.mem_cons.mp split with rfl | later
            · simp
            · exact ih later
          · rcases List.mem_cons.mp split with rfl | later
            · have head : byte '.' ∉ piece := ih List.mem_cons_self
              simp only [List.mem_cons, not_or]
              exact ⟨fun same => dot (by simp [same]), head⟩
            · exact ih (List.mem_cons_of_mem _ later)

/-- What a package claims for its components. -/
theorem mem_claimPackageComponents {names : CppNameTable} (named : names.nsPrefix ≠ [])
    (taken : TakenByNamespace) (file : FileNode) (key id : Text) :
    id ∈ claimPackageComponents names taken file key ↔
      id ∈ taken key ∨ Opens names file.package key id := by
  have run (pieces before : List Text) (parent : Text) (taken : TakenByNamespace)
      (seen : components parent = before) (empty : parent = [] ↔ before = [])
      (plain : ∀ piece ∈ pieces, byte '.' ∉ piece ∧ piece ≠ []) :
      id ∈ (pieces.foldl (claimComponent names) (taken, parent)).1 key ↔
        id ∈ taken key ∨ ∃ front component behind, pieces = front ++ component :: behind ∧
          key = names.nsPrefix ++ spell ((before ++ front).map sanitize) ∧
            id = sanitize component := by
    induction pieces generalizing before parent taken with
    | nil => simp
    | cons piece pieces ih =>
        obtain ⟨dotless, given⟩ := plain piece List.mem_cons_self
        have next : components ((if parent = [] then [] else parent ++ text ".") ++ piece) =
            before ++ [piece] := by
          by_cases start : parent = []
          · rw [if_pos start, List.nil_append, empty.mp start]
            exact components_single dotless given
          · rw [if_neg start, components_append dotless given, seen]
        rw [List.foldl_cons, claimComponent, ih (before ++ [piece]) _ _ next (by simp [given])
          (fun other listed => plain other (List.mem_cons_of_mem _ listed)),
          TakenByNamespace.mem_insert, joinNs_namespaceOf named, scopes, seen, or_assoc]
        refine or_congr_right ⟨?_, ?_⟩
        · rintro (⟨here, same⟩ | ⟨front, component, behind, rfl, here, same⟩)
          · exact ⟨[], piece, pieces, rfl, by simpa using here, same⟩
          · exact ⟨piece :: front, component, behind, rfl, by simpa using here, same⟩
        · rintro ⟨front, component, behind, split, here, same⟩
          cases front with
          | nil =>
              simp only [List.nil_append, List.cons.injEq] at split
              obtain ⟨rfl, rfl⟩ := split
              exact .inl ⟨by simpa using here, same⟩
          | cons first front =>
              simp only [List.cons_append, List.cons.injEq] at split
              obtain ⟨rfl, rfl⟩ := split
              exact .inr ⟨front, component, behind, rfl, by simpa using here, same⟩
  rw [claimPackageComponents, forEachComponent_eq]
  exact run _ [] [] taken rfl (by simp) fun _ => not_mem_of_mem_components

/-- The identifiers taken before any type claims one. -/
def componentsTaken (names : CppNameTable) (files : List FileNode) : TakenByNamespace :=
  files.foldl (claimPackageComponents names) fun _ => []

theorem mem_componentsTaken {names : CppNameTable} (named : names.nsPrefix ≠ [])
    (files : List FileNode) (key id : Text) :
    id ∈ componentsTaken names files key ↔ ∃ file ∈ files, Opens names file.package key id := by
  have run (taken : TakenByNamespace) :
      id ∈ files.foldl (claimPackageComponents names) taken key ↔
        id ∈ taken key ∨ ∃ file ∈ files, Opens names file.package key id := by
    induction files generalizing taken with
    | nil => simp
    | cons file files ih =>
        rw [List.foldl_cons, ih, mem_claimPackageComponents named, or_assoc]
        simp
  rw [componentsTaken, run]
  simp

/-! ## What is granted -/

/-- The invariant of the claims: besides the components, what is taken has been granted, in each
namespace only once and nothing that was taken before, and to a type whose name leads there. -/
structure Claims.Sound (base : TakenByNamespace) (claims : Claims) : Prop where
  taken : ∀ key id, id ∈ claims.taken key ↔
    id ∈ base key ∨ ∃ entry ∈ claims.claimed, entry.1.key = key ∧ entry.2 = id
  distinct : claims.claimed.Pairwise fun a b => a.1.key = b.1.key → a.2 ≠ b.2
  outside : ∀ entry ∈ claims.claimed, entry.2 ∉ base entry.1.key
  reached : ∀ entry ∈ claims.claimed, ∃ turns,
    entry.2 = underscore.next^[turns] (sanitize entry.1.raw)

theorem Claims.literal_eq (state : Claims × List Claimant) (entry : Claimant) :
    Claims.literal state entry =
      if entry.raw ∈ state.1.taken entry.key then (state.1, state.2 ++ [entry])
      else (state.1.grant entry entry.raw, state.2) := by
  simp only [Claims.literal, List.contains_iff_mem]

namespace Claims.Sound

variable {base : TakenByNamespace} {claims : Claims}

theorem start (base : TakenByNamespace) : Claims.Sound base ⟨base, []⟩ where
  taken key id := by simp
  distinct := .nil
  outside _ listed := by cases listed
  reached _ listed := by cases listed

/-- An identifier that is free may be granted. -/
theorem grant (sound : claims.Sound base) {entry : Claimant} {id : Text}
    (free : id ∉ claims.taken entry.key)
    (reached : ∃ turns, id = underscore.next^[turns] (sanitize entry.raw)) :
    (claims.grant entry id).Sound base where
  taken key id' := by
    rw [Claims.grant, TakenByNamespace.mem_insert, sound.taken, or_assoc]
    simp only [List.mem_append, List.mem_singleton, or_and_right, exists_or, exists_eq_left]
    exact or_congr_right (or_congr_right ⟨fun h => ⟨h.1.symm, h.2.symm⟩, fun h => ⟨h.1.symm, h.2.symm⟩⟩)
  distinct := by
    rw [Claims.grant, List.pairwise_append]
    refine ⟨sound.distinct, List.pairwise_singleton _ _, ?_⟩
    rintro earlier listed later rfl_ here same
    obtain rfl := List.mem_singleton.mp rfl_
    exact free ((sound.taken _ _).mpr (.inr ⟨earlier, listed, here, same⟩))
  outside other listed := by
    rcases List.mem_append.mp listed with before | here
    · exact sound.outside other before
    · obtain rfl := List.mem_singleton.mp here
      exact fun used => free ((sound.taken _ _).mpr (.inl used))
  reached other listed := by
    rcases List.mem_append.mp listed with before | here
    · exact sound.reached other before
    · obtain rfl := List.mem_singleton.mp here
      exact reached

theorem escape (sound : claims.Sound base) (entry : Claimant) : (claims.escape entry).Sound base := by
  obtain ⟨turns, reached, -⟩ := underscore.exists_free_eq (claims.taken entry.key) (sanitize entry.raw)
  exact sound.grant (underscore.free_not_mem _ _) ⟨turns, reached⟩

theorem foldl_escape (sound : claims.Sound base) (entries : List Claimant) :
    (entries.foldl Claims.escape claims).Sound base := by
  induction entries generalizing claims with
  | nil => exact sound
  | cons entry entries ih => exact ih (sound.escape entry)

/-- The literals that are not put off keep their spelling. -/
theorem foldl_literal (sound : claims.Sound base) (blocked entries : List Claimant)
    (literal : ∀ entry ∈ entries, sanitize entry.raw = entry.raw) :
    (entries.foldl Claims.literal (claims, blocked)).1.Sound base := by
  induction entries generalizing claims blocked with
  | nil => exact sound
  | cons entry entries ih =>
      have later : ∀ entry ∈ entries, sanitize entry.raw = entry.raw :=
        fun other listed => literal other (List.mem_cons_of_mem _ listed)
      rw [List.foldl_cons, Claims.literal_eq]
      split_ifs with used
      · exact ih sound _ later
      · apply ih (sound.grant used ⟨0, _⟩) _ later
        exact (literal entry List.mem_cons_self).symm

end Claims.Sound

theorem foldl_escape_claimed (claims : Claims) (entries : List Claimant) :
    (entries.foldl Claims.escape claims).claimed.map Prod.fst =
      claims.claimed.map Prod.fst ++ entries := by
  induction entries generalizing claims with
  | nil => simp
  | cons entry entries ih =>
      rw [List.foldl_cons, ih, Claims.escape, Claims.grant, List.map_append, List.append_assoc]
      rfl

/-- A literal is granted its spelling or put off. -/
theorem foldl_literal_perm (state : Claims × List Claimant) (entries : List Claimant) :
    ((entries.foldl Claims.literal state).1.claimed.map Prod.fst ++
      (entries.foldl Claims.literal state).2).Perm
        (state.1.claimed.map Prod.fst ++ state.2 ++ entries) := by
  induction entries generalizing state with
  | nil => simp
  | cons entry entries ih =>
      rw [List.foldl_cons, Claims.literal_eq]
      split_ifs with used
      · apply (ih _).trans
        simp
      · apply (ih _).trans
        simp only [Claims.grant, List.map_append, List.map_cons, List.map_nil, List.append_assoc]
        apply List.Perm.append_left
        rw [List.singleton_append]
        exact List.perm_middle.symm

section Toplevel

variable (names : CppNameTable) (files : List FileNode)

/-- The claimants of all files. -/
def claimants : List Claimant := files.zipIdx.flatMap (claimantsOf names)

theorem claimToplevelIds_sound :
    (claimToplevelIds names files).Sound (componentsTaken names files) := by
  apply Claims.Sound.foldl_escape
  apply Claims.Sound.foldl_escape
  apply Claims.Sound.foldl_literal (.start _)
  intro entry listed
  have member := List.mem_mergeSort.mp listed
  simpa using (List.mem_filter.mp member).2

/-- Every claimant is granted one identifier. -/
theorem claimToplevelIds_perm :
    ((claimToplevelIds names files).claimed.map Prod.fst).Perm (claimants names files) := by
  rw [claimToplevelIds, foldl_escape_claimed, foldl_escape_claimed]
  apply ((foldl_literal_perm _ _).append_right _).trans
  simp only [List.map_nil, List.nil_append, List.append_nil]
  apply ((List.mergeSort_perm _ _).append (List.mergeSort_perm _ _)).trans
  have parts := List.filter_append_perm (fun entry : Claimant => decide (sanitize entry.raw = entry.raw))
    (claimants names files)
  simpa [claimants] using parts

/-- No two claimants are one node. -/
theorem claimants_nodup : ((claimants names files).map Claimant.node).Nodup := by
  have one (entry : FileNode × Nat) :
      ((claimantsOf names entry).map Claimant.node).Nodup := by
    have nodes (role : Role) {α : Type} (entries : List α) :
        (entries.zipIdx.map fun pair => [(role, pair.2), (Role.file, entry.2)]).Nodup := by
      apply List.Nodup.of_map fun node : NodeRef => node.head?.map Prod.snd
      rw [List.map_map]
      have positions := (List.nodup_zipIdx_map_snd entries).map fun _ _ => Option.some.inj
      rwa [List.map_map] at positions
    simp only [claimantsOf, List.map_append, List.map_map, Function.comp_def]
    apply List.Nodup.append (nodes .enum _) (nodes .message _)
    intro node here there
    obtain ⟨⟨_, i⟩, -, rfl⟩ := List.mem_map.mp here
    obtain ⟨⟨_, j⟩, -, same⟩ := List.mem_map.mp there
    simp at same
  have file {entry : FileNode × Nat} {node : NodeRef}
      (listed : node ∈ (claimantsOf names entry).map Claimant.node) :
      node.getLast? = some (.file, entry.2) := by
    simp only [claimantsOf, List.map_append, List.map_map, List.mem_append, List.mem_map] at listed
    rcases listed with ⟨_, -, rfl⟩ | ⟨_, -, rfl⟩ <;> rfl
  rw [claimants, List.map_flatMap, List.nodup_flatMap]
  refine ⟨fun entry _ => one entry, ?_⟩
  apply (List.pairwise_map.mp (List.nodup_zipIdx_map_snd files)).imp
  intro first second other node here there
  have same := (file here).symm.trans (file there)
  simp only [Option.some.injEq, Prod.mk.injEq, true_and] at same
  exact other same

/-- A claimant is found with what it was granted. -/
theorem find_eq_some {node : NodeRef} {id : Text} :
    (claimToplevelIds names files).find node = some id ↔
      ∃ entry, entry.node = node ∧ (entry, id) ∈ (claimToplevelIds names files).claimed := by
  have distinct : ((claimToplevelIds names files).claimed.map fun entry => entry.1.node).Nodup := by
    have nodup := ((claimToplevelIds_perm names files).map Claimant.node).nodup_iff.mpr
      (claimants_nodup names files)
    rwa [List.map_map] at nodup
  rw [Claims.find, Option.map_eq_some_iff]
  constructor
  · rintro ⟨⟨entry, id⟩, found, rfl⟩
    exact ⟨entry, by simpa using List.find?_some found, List.mem_of_find?_eq_some found⟩
  · rintro ⟨entry, rfl, listed⟩
    have found := findKey_of_mem distinct listed
    exact ⟨_, found, rfl⟩

/-- Every claimant is found. -/
theorem exists_find {entry : Claimant} (listed : entry ∈ claimants names files) :
    ∃ id, (claimToplevelIds names files).find entry.node = some id ∧
      (entry, id) ∈ (claimToplevelIds names files).claimed := by
  have granted := (claimToplevelIds_perm names files).mem_iff.mpr listed
  obtain ⟨⟨entry, id⟩, member, rfl⟩ := List.mem_map.mp granted
  exact ⟨id, (find_eq_some names files).mpr ⟨entry, rfl, member⟩, member⟩

end Toplevel

end Codegen
end RapidProto
