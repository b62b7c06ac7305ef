import Mathlib.Data.List.Forall2
import Mathlib.Data.List.TakeWhile
import RapidProto.Front.Declared

/-!
# What a reference is bound to

A relative name is looked up from its own scope outwards.  The scopes are the text of the innermost
one cut at its dots, so the candidates are compared by the length of their scopes.
-/

namespace RapidProto
namespace Front

/-! ## Enclosing scopes -/

/-- A scope as the passes write them: empty, or starting with a dot. -/
def Rooted (scope : Text) : Prop := scope = [] ∨ ∃ rest, scope = byte '.' :: rest

theorem rooted_qualify {scope : Text} (rooted : Rooted scope) (name : Text) :
    Rooted (qualify scope name) := by
  rcases rooted with rfl | ⟨rest, rfl⟩
  · exact .inr ⟨name, rfl⟩
  · exact .inr ⟨rest ++ byte '.' :: name, rfl⟩

theorem FileNode.rooted_scope (file : FileNode) : Rooted file.scope := by
  rw [FileNode.scope]
  split_ifs
  · exact .inl rfl
  · exact .inr ⟨_, rfl⟩

/-- A scope is enclosed by itself and by what stands before one of its dots. -/
def IsEnclosing (scope outer : Text) : Prop :=
  outer = scope ∨ ∃ rest, scope = outer ++ byte '.' :: rest

theorem IsEnclosing.length_le {scope outer : Text} (encloses : IsEnclosing scope outer) :
    outer.length ≤ scope.length := by
  rcases encloses with rfl | ⟨rest, rfl⟩
  · exact Nat.le_refl _
  · rw [List.length_append]
    omega

/-- An enclosing scope is determined by its length. -/
theorem IsEnclosing.eq_of_length {scope outer outer' : Text} (encloses : IsEnclosing scope outer)
    (encloses' : IsEnclosing scope outer') (same : outer.length = outer'.length) :
    outer = outer' := by
  have start : ∀ {outer}, IsEnclosing scope outer → outer <+: scope := by
    rintro outer (rfl | ⟨rest, rfl⟩)
    · exact List.prefix_refl _
    · exact List.prefix_append _ _
  exact (List.prefix_of_prefix_length_le (start encloses) (start encloses')
    (Nat.le_of_eq same)).eq_of_length same

/-- A scope is the parent of its last component. -/
theorem parentScope_spec {scope : Text} (rooted : Rooted scope) (inner : scope ≠ []) :
    ∃ last, byte '.' ∉ last ∧ scope = parentScope scope ++ byte '.' :: last := by
  obtain ⟨rest, scopeIs⟩ := rooted.resolve_left inner
  have dotted : byte '.' ∈ scope.reverse := by simp [scopeIs]
  have split := List.takeWhile_append_dropWhile (l := scope.reverse) (p := (· ≠ byte '.'))
  obtain ⟨kept, keptIs⟩ : ∃ kept,
      scope.reverse.dropWhile (· ≠ byte '.') = byte '.' :: kept := by
    cases dropped : scope.reverse.dropWhile (· ≠ byte '.') with
    | nil =>
        have all := List.dropWhile_eq_nil_iff.mp dropped (byte '.') dotted
        simp at all
    | cons head kept =>
        have stops := List.head?_dropWhile_not (p := (· ≠ byte '.')) scope.reverse
        rw [dropped] at stops
        exact ⟨kept, by rw [show head = byte '.' by simpa using stops]⟩
  refine ⟨(scope.reverse.takeWhile (· ≠ byte '.')).reverse, ?_, ?_⟩
  · intro met
    have taken := List.mem_takeWhile_imp (List.mem_reverse.mp met)
    simp at taken
  · rw [keptIs] at split
    have back := congrArg List.reverse split
    rw [List.reverse_append, List.reverse_cons, List.reverse_reverse, List.append_assoc] at back
    rw [parentScope, keptIs]
    exact back.symm

theorem rooted_parentScope {scope : Text} (rooted : Rooted scope) (inner : scope ≠ []) :
    Rooted (parentScope scope) := by
  obtain ⟨last, -, scopeIs⟩ := parentScope_spec rooted inner
  obtain ⟨rest, startsWithDot⟩ := rooted.resolve_left inner
  cases parentIs : parentScope scope with
  | nil => exact .inl rfl
  | cons head parent =>
      rw [parentIs, startsWithDot, List.cons_append] at scopeIs
      exact .inr ⟨parent, by rw [(List.cons.inj scopeIs).1]⟩

/-- The scopes around a scope are itself and those around its parent. -/
theorem isEnclosing_parent {scope : Text} (rooted : Rooted scope) (inner : scope ≠ [])
    (outer : Text) :
    IsEnclosing scope outer ↔ outer = scope ∨ IsEnclosing (parentScope scope) outer := by
  obtain ⟨last, plain, scopeIs⟩ := parentScope_spec rooted inner
  refine or_congr_right ⟨?_, ?_⟩
  · rintro ⟨rest, cut⟩
    rw [scopeIs] at cut
    rcases List.append_eq_append_iff.mp cut with ⟨middle, outerIs, restIs⟩ | ⟨middle, parentIs, restIs⟩
    · cases middle with
      | nil => exact .inl (by rw [outerIs, List.append_nil])
      | cons head middle =>
          have lastIs := (List.cons.inj restIs).2
          exact absurd (lastIs ▸ List.mem_append_right _ List.mem_cons_self) plain
    · cases middle with
      | nil => exact .inl (by rw [parentIs, List.append_nil])
      | cons head middle =>
          rw [List.cons_append] at restIs
          exact .inr ⟨middle, by rw [parentIs, (List.cons.inj restIs).1]⟩
  · rintro (rfl | ⟨rest, parentIs⟩)
    · exact ⟨last, scopeIs⟩
    · refine ⟨rest ++ byte '.' :: last, ?_⟩
      rw [scopeIs, parentIs, List.append_assoc, List.cons_append]

/-! ## Name lookup -/

/-- What a name is bound to in a scope: an absolute name to itself, and a relative one to the first
candidate from the innermost scope outwards; in both cases only if it is declared. -/
def Binds (declared : Text → Prop) (scope name fqn : Text) : Prop :=
  declared fqn ∧
    if name.head? = some (byte '.') then fqn = name
    else
      ∃ outer, IsEnclosing scope outer ∧ fqn = qualify outer name ∧
        ∀ inner, IsEnclosing scope inner → outer.length < inner.length →
          ¬ declared (qualify inner name)

/-- A name is bound to one declaration at most. -/
theorem Binds.unique {declared : Text → Prop} {scope name fqn fqn' : Text}
    (binds : Binds declared scope name fqn) (binds' : Binds declared scope name fqn') :
    fqn = fqn' := by
  obtain ⟨found, how⟩ := binds
  obtain ⟨found', how'⟩ := binds'
  split_ifs at how how'
  · rw [how, how']
  · obtain ⟨outer, encloses, rfl, first⟩ := how
    obtain ⟨outer', encloses', rfl, first'⟩ := how'
    rcases Nat.lt_trichotomy outer.length outer'.length with less | same | less
    · exact absurd found' (first outer' encloses' less)
    · rw [encloses.eq_of_length encloses' same]
    · exact absurd found (first' outer encloses less)

theorem Binds.congr {declared declared' : Text → Prop} (same : ∀ fqn, declared fqn ↔ declared' fqn)
    (scope name fqn : Text) : Binds declared scope name fqn ↔ Binds declared' scope name fqn := by
  rw [show declared = declared' from funext fun fqn => propext (same fqn)]

section Lookup

variable (symbols : Symbols) (visible : List Nat)

/-- The search through the scopes ends, with the first candidate or with none. -/
theorem searchScopes_spec (name : Text) (turns : Nat) {scope : Text} (rooted : Rooted scope)
    (enough : scope.length < turns) :
    ∃ found, searchScopes symbols visible name turns scope = .ok found ∧
      (∀ fqn, found = some fqn → isVisible symbols visible fqn = true ∧
        ∃ outer, IsEnclosing scope outer ∧ fqn = qualify outer name ∧
          ∀ inner, IsEnclosing scope inner → outer.length < inner.length →
            ¬ isVisible symbols visible (qualify inner name) = true) ∧
      (found = none → ∀ outer, IsEnclosing scope outer →
        ¬ isVisible symbols visible (qualify outer name) = true) := by
  induction turns generalizing scope with
  | zero => omega
  | succ turns ih =>
      rw [searchScopes]
      by_cases here : isVisible symbols visible (qualify scope name) = true
      · rw [if_pos here]
        refine ⟨_, rfl, ?_, nofun⟩
        rintro fqn ⟨⟩
        refine ⟨here, scope, .inl rfl, rfl, fun inner encloses longer => ?_⟩
        have := encloses.length_le
        omega
      rw [if_neg here]
      by_cases outermost : scope = []
      · subst outermost
        refine ⟨none, rfl, nofun, fun _ outer encloses => ?_⟩
        rcases encloses with rfl | ⟨rest, impossible⟩
        · exact here
        · cases outer <;> cases impossible
      · rw [if_neg (by simpa using outermost)]
        obtain ⟨last, -, scopeIs⟩ := parentScope_spec rooted outermost
        have shorter : (parentScope scope).length < scope.length := by
          have length := congrArg List.length scopeIs
          rw [List.length_append, List.length_cons] at length
          omega
        obtain ⟨found, searched, hit, miss⟩ := ih (rooted_parentScope rooted outermost)
          (by omega)
        refine ⟨found, searched, fun fqn foundIs => ?_, fun foundIs outer encloses => ?_⟩
        · obtain ⟨declared, outer, encloses, rfl, first⟩ := hit fqn foundIs
          refine ⟨declared, outer, (isEnclosing_parent rooted outermost outer).mpr (.inr encloses),
            rfl, fun inner encloses' longer => ?_⟩
          rcases (isEnclosing_parent rooted outermost inner).mp encloses' with rfl | encloses'
          · exact here
          · exact first inner encloses' longer
        · rcases (isEnclosing_parent rooted outermost outer).mp encloses with rfl | encloses
          · exact here
          · exact miss foundIs outer encloses

/-- The lookup of a name ends, with what the name is bound to. -/
theorem resolveName_spec {scope : Text} (rooted : Rooted scope) (name : Text) :
    ∃ found, resolveName symbols visible name scope = .ok found ∧
      ∀ fqn, found = some fqn ↔
        Binds (fun fqn => isVisible symbols visible fqn = true) scope name fqn := by
  rw [resolveName]
  by_cases absolute : name.head? = some (byte '.')
  · rw [if_pos absolute]
    refine ⟨_, rfl, fun fqn => ?_⟩
    rw [Binds, if_pos absolute]
    split_ifs with declared
    · constructor
      · rintro ⟨⟩
        exact ⟨declared, rfl⟩
      · rintro ⟨-, rfl⟩
        rfl
    · refine ⟨nofun, ?_⟩
      rintro ⟨declared', rfl⟩
      exact absurd declared' declared
  · rw [if_neg absolute]
    obtain ⟨found, searched, hit, miss⟩ := searchScopes_spec symbols
      visible name (scope.length + 1) rooted (by omega)
    refine ⟨found, searched, fun fqn => ⟨fun foundIs => ?_, fun binds => ?_⟩⟩
    · rw [Binds, if_neg absolute]
      exact hit fqn foundIs
    · cases foundIs : found with
      | some other =>
          have binds' : Binds (fun fqn => isVisible symbols visible fqn = true) scope name other := by
            rw [Binds, if_neg absolute]
            exact hit other foundIs
          rw [binds.unique binds']
      | none =>
          rw [Binds, if_neg absolute] at binds
          obtain ⟨declared, outer, encloses, rfl, -⟩ := binds
          exact absurd declared (miss foundIs outer encloses)

end Lookup

/-! ## Loops over nodes -/

section Loops

variable {ν : Type}

/-- A loop that rewrites each node rewrites them all, or fails as it does at one of them. -/
theorem mapM_ends {related : ν → ν → Prop} {refused : ν → Error → Prop}
    {resolve : ν → Outcome Error ν} (nodes : List ν)
    (each : ∀ node, (resolve node).Ends (related node) (refused node)) :
    (nodes.mapM resolve).Ends (List.Forall₂ related nodes)
      fun error => ∃ node ∈ nodes, refused node error := by
  induction nodes with
  | nil => exact List.Forall₂.nil
  | cons node nodes ih =>
      rw [List.mapM_cons]
      refine ((each node).mono (fun _ first => first)
        fun error refused => ⟨node, List.mem_cons_self, refused⟩).bind fun node' first => ?_
      refine (ih.mono (fun _ rest => rest) ?_).bind fun nodes' rest => ?_
      · rintro error ⟨other, listed, refused⟩
        exact ⟨other, List.mem_cons_of_mem _ listed, refused⟩
      · exact List.Forall₂.cons first rest

/-- Related lists have related entries. -/
theorem forall₂_getElem? {α β : Type} {related : α → β → Prop} {lefts : List α}
    {rights : List β} (each : List.Forall₂ related lefts rights) {index : Nat} {left : α}
    (found : lefts[index]? = some left) : ∃ right, rights[index]? = some right ∧ related left right := by
  induction each generalizing index with
  | nil => cases found
  | cons first _ ih =>
      cases index with
      | zero =>
          cases found
          exact ⟨_, rfl, first⟩
      | succ index => exact ih found

end Loops

end Front
end RapidProto
