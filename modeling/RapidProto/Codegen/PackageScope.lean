import RapidProto.Codegen.ClassScope

/-!
# The scope of a package

The identifiers of the top-level types of a package are distinct, across all files of the package,
and none is the namespace of a package inside it.  A type whose name needs no escape keeps it,
unless such a namespace or a type of the same name is in its way.
-/

namespace RapidProto
namespace Codegen

open Front

/-! ## Literals -/

/-- Every identifier granted so far is the name of its type. -/
def Claims.Verbatim (claims : Claims) : Prop :=
  ∀ granted ∈ claims.claimed, granted.2 = granted.1.raw

/-- A spelling is a namespace or has been granted. -/
def Claims.Spelled (base : TakenByNamespace) (claims : Claims) (key raw : Text) : Prop :=
  raw ∈ base key ∨ ∃ granted ∈ claims.claimed, granted.1.key = key ∧ granted.2 = raw

theorem Claims.Spelled.mono {base : TakenByNamespace} {claims claims' : Claims} {key raw : Text}
    (spelled : claims.Spelled base key raw)
    (more : ∀ granted ∈ claims.claimed, granted ∈ claims'.claimed) :
    claims'.Spelled base key raw := by
  rcases spelled with used | ⟨granted, listed, same⟩
  · exact .inl used
  · exact .inr ⟨granted, more granted listed, same⟩

/-- A literal is granted its spelling or finds it taken. -/
theorem foldl_literal_spelled {base : TakenByNamespace} {claims : Claims}
    (sound : claims.Sound base) (verbatim : claims.Verbatim) (blocked entries : List Claimant)
    (literal : ∀ entry ∈ entries, sanitize entry.raw = entry.raw) :
    (entries.foldl Claims.literal (claims, blocked)).1.Verbatim ∧
      (∀ granted ∈ claims.claimed,
        granted ∈ (entries.foldl Claims.literal (claims, blocked)).1.claimed) ∧
      ∀ entry ∈ entries,
        (entries.foldl Claims.literal (claims, blocked)).1.Spelled base entry.key entry.raw := by
  induction entries generalizing claims blocked with
  | nil => exact ⟨verbatim, fun _ listed => listed, fun _ listed => by cases listed⟩
  | cons entry entries ih =>
      have later : ∀ other ∈ entries, sanitize other.raw = other.raw :=
        fun other listed => literal other (List.mem_cons_of_mem _ listed)
      rw [List.foldl_cons, Claims.literal_eq]
      split_ifs with used
      · obtain ⟨kept, more, spelled⟩ := ih sound verbatim (blocked ++ [entry]) later
        refine ⟨kept, more, fun other listed => ?_⟩
        rcases List.mem_cons.mp listed with rfl | behind
        · exact Claims.Spelled.mono ((sound.taken _ _).mp used) more
        · exact spelled other behind
      · have given : (claims.grant entry entry.raw).Verbatim := by
          intro granted listed
          rcases List.mem_append.mp listed with before | here
          · exact verbatim granted before
          · obtain rfl := List.mem_singleton.mp here
            rfl
        have next := sound.grant used ⟨0, (literal entry List.mem_cons_self).symm⟩
        obtain ⟨kept, more, spelled⟩ := ih next given blocked later
        refine ⟨kept, fun granted listed => more granted (List.mem_append_left _ listed),
          fun other listed => ?_⟩
        rcases List.mem_cons.mp listed with rfl | behind
        · refine .inr ⟨_, more _ (List.mem_append_right _ List.mem_cons_self), rfl, rfl⟩
        · exact spelled other behind

theorem foldl_escape_more (claims : Claims) (entries : List Claimant) :
    ∀ granted ∈ claims.claimed, granted ∈ (entries.foldl Claims.escape claims).claimed := by
  induction entries generalizing claims with
  | nil => exact fun _ listed => listed
  | cons entry entries ih =>
      exact fun granted listed => ih _ granted (List.mem_append_left _ listed)

/-- In the end, a literal has its spelling, or a namespace has it, or another type of that name. -/
theorem literal_spelled (names : CppNameTable) (files : List FileNode) {entry : Claimant}
    (listed : entry ∈ claimants names files) (literal : sanitize entry.raw = entry.raw) :
    entry.raw ∈ componentsTaken names files entry.key ∨
      ∃ granted ∈ (claimToplevelIds names files).claimed,
        granted.1.key = entry.key ∧ granted.1.raw = entry.raw ∧ granted.2 = entry.raw := by
  obtain ⟨verbatim, -, spelled⟩ := foldl_literal_spelled
    (.start (componentsTaken names files)) (fun _ listed => by cases listed) []
    (((claimants names files).filter fun entry => sanitize entry.raw = entry.raw).mergeSort byFqn)
    (fun other member => by simpa using (List.mem_filter.mp (List.mem_mergeSort.mp member)).2)
  have member := spelled entry (List.mem_mergeSort.mpr (List.mem_filter.mpr
    ⟨listed, by simpa using literal⟩))
  rcases member with used | ⟨granted, given, key, id⟩
  · exact .inl used
  · refine .inr ⟨granted, ?_, key, ?_, id⟩
    · exact foldl_escape_more _ _ _ (foldl_escape_more _ _ _ given)
    · exact (verbatim granted given).symm.trans id

/-! ## The package -/

section Package

variable (file : FileNode) (allFiles : List FileNode) (nsPrefix modelNamespace : Text)

/-- The top-level types of a file set. -/
def topLevel : List Claimant :=
  claimants (emptyTable nsPrefix modelNamespace) (fileSet file allFiles)

theorem emptyTable_nsPrefix_ne_nil : (emptyTable nsPrefix modelNamespace).nsPrefix ≠ [] := by
  rw [emptyTable]
  dsimp only
  split_ifs with empty
  · decide
  · exact empty

theorem topIds_getElem? {claims : Claims} {index : Nat} {role : Role} {count i : Nat} {id : Text}
    (inside : i < count) (found : claims.find [(role, i), (.file, index)] = some id) :
    (topIds claims index role 0 count)[i]? = some id := by
  simp [topIds, inside, found]

/-- A top-level type has in the table what it was granted. -/
theorem locals_topLevel {entry : Claimant}
    (listed : entry ∈ topLevel file allFiles nsPrefix modelNamespace) :
    ∃ id, (buildCppNames file allFiles nsPrefix modelNamespace).locals entry.node = some id ∧
      (entry, id) ∈ (claimsOf file allFiles nsPrefix modelNamespace).claimed := by
  obtain ⟨id, found, granted⟩ := exists_find _ _ listed
  refine ⟨id, ?_, granted⟩
  obtain ⟨holder, member, inside⟩ := List.mem_flatMap.mp listed
  apply locals_of_mem file allFiles nsPrefix modelNamespace member
  rw [fileLog, List.mem_append, List.mem_append]
  rcases List.mem_append.mp inside with top | top
  · obtain ⟨⟨node, i⟩, position, rfl⟩ := List.mem_map.mp top
    obtain ⟨bound, -⟩ := List.getElem?_eq_some_iff.mp (List.mem_zipIdx_iff_getElem?.mp position)
    have zipped := nodesOf_zip_mem .enum [(.file, holder.2)] (holder.1.enums.map EnumNode.name)
      (by simp)
      (topIds_getElem? bound found) 0
    rw [Nat.zero_add] at zipped
    exact .inl (.inl zipped)
  · obtain ⟨⟨message, i⟩, position, rfl⟩ := List.mem_map.mp top
    obtain ⟨bound, -⟩ := List.getElem?_eq_some_iff.mp (List.mem_zipIdx_iff_getElem?.mp position)
    have zipped := nodesOf_zip_mem .message [(.file, holder.2)]
      (holder.1.messages.map MessageNode.name) (by simp)
      (topIds_getElem? bound found) 0
    rw [Nat.zero_add] at zipped
    exact .inl (.inr zipped)

theorem at_of_claimed {entry : Claimant} {id : Text}
    (granted : (entry, id) ∈ (claimsOf file allFiles nsPrefix modelNamespace).claimed) :
    entry ∈ topLevel file allFiles nsPrefix modelNamespace ∧
      (buildCppNames file allFiles nsPrefix modelNamespace).at entry.node = id := by
  have listed : entry ∈ topLevel file allFiles nsPrefix modelNamespace :=
    (claimToplevelIds_perm _ _).mem_iff.mp (List.mem_map_of_mem granted)
  refine ⟨listed, ?_⟩
  obtain ⟨id', named, given⟩ := locals_topLevel file allFiles nsPrefix modelNamespace listed
  have found := (find_eq_some _ _).mpr ⟨entry, rfl, granted⟩
  have found' := (find_eq_some _ _).mpr ⟨entry, rfl, given⟩
  rw [found, Option.some.injEq] at found'
  rw [CppNameTable.at, named, found']
  rfl

/-- The top-level types of one namespace, over all files of the package, have distinct identifiers;
none of these is a namespace that some package opens there; and a type whose name needs no escape
keeps it, unless such a namespace or a type of the same name has it. -/
theorem package_scope :
    let names := buildCppNames file allFiles nsPrefix modelNamespace
    let tops := topLevel file allFiles nsPrefix modelNamespace
    (tops.map fun top => (top.key, names.at top.node)).Nodup ∧
      (∀ top ∈ tops, ∀ other ∈ fileSet file allFiles,
        ¬ Opens names other.package top.key (names.at top.node)) ∧
      ∀ top ∈ tops, sanitize top.raw = top.raw →
        (∃ other ∈ fileSet file allFiles, Opens names other.package top.key top.raw) ∨
          ∃ other ∈ tops, other.key = top.key ∧ other.raw = top.raw ∧
            names.at other.node = top.raw := by
  intro names tops
  have sound := claimToplevelIds_sound (emptyTable nsPrefix modelNamespace) (fileSet file allFiles)
  have perm := claimToplevelIds_perm (emptyTable nsPrefix modelNamespace) (fileSet file allFiles)
  have opens (package key id : Text) : Opens names package key id ↔
      Opens (emptyTable nsPrefix modelNamespace) package key id := by
    rw [Opens, Opens, show names.nsPrefix = (emptyTable nsPrefix modelNamespace).nsPrefix from by
      rw [show names = _ from buildCppNames_eq file allFiles nsPrefix modelNamespace]
      rfl]
  have taken (key id : Text) := mem_componentsTaken
    (emptyTable_nsPrefix_ne_nil nsPrefix modelNamespace) (fileSet file allFiles) key id
  refine ⟨?_, ?_, ?_⟩
  · apply ((perm.map fun top => (top.key, names.at top.node)).nodup_iff).mp
    rw [List.map_map]
    apply List.pairwise_map.mpr
    apply sound.distinct.imp_of_mem
    intro first second listed listed' apart same
    have named := (at_of_claimed file allFiles nsPrefix modelNamespace listed).2
    have named' := (at_of_claimed file allFiles nsPrefix modelNamespace listed').2
    obtain ⟨key, id⟩ := Prod.mk.inj same
    exact apart key (named.symm.trans (id.trans named'))
  · intro top listed other member opened
    obtain ⟨id, named, granted⟩ := locals_topLevel file allFiles nsPrefix modelNamespace listed
    have free := sound.outside _ granted
    apply free
    rw [taken]
    refine ⟨other, member, (opens _ _ _).mp ?_⟩
    rwa [← (at_of_claimed file allFiles nsPrefix modelNamespace granted).2]
  · intro top listed literal
    rcases literal_spelled _ _ listed literal with used | ⟨granted, given, key, raw, id⟩
    · obtain ⟨other, member, opened⟩ := (taken _ _).mp used
      exact .inl ⟨other, member, (opens _ _ _).mpr opened⟩
    · obtain ⟨member, named⟩ := at_of_claimed file allFiles nsPrefix modelNamespace given
      exact .inr ⟨granted.1, member, key, raw, named.trans id⟩

end Package

end Codegen
end RapidProto
