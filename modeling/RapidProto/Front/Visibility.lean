import Mathlib.Data.List.Nodup
import Mathlib.Logic.Relation
import RapidProto.Front.Types

/-!
# The files a file can see

`visible_files` collects one set over all direct imports and does not follow a file that is already
in it.  Every file in the set but the first has its public imports in the set or is still on the
stack; the first one's public imports are direct imports, and are in the set when the loop ends.
-/

namespace RapidProto
namespace Front

open Relation

section Visibility

variable (canonicalImportPath : Text → Text) (set : ResolvedFileSet)

/-- A file imports another one publicly. -/
def PublicImport (file target : Nat) : Prop :=
  ∃ node ∈ set.imports file, node.kind = .publicly ∧
    set.importIndex canonicalImportPath node = some target

/-- A file imports another one, and not for its options only. -/
def DirectImport (file target : Nat) : Prop :=
  ∃ node ∈ set.imports file, node.kind ≠ .option ∧
    set.importIndex canonicalImportPath node = some target

/-- A file sees itself, its direct imports, and what these import publicly, directly or not. -/
def Visible (file other : Nat) : Prop :=
  other = file ∨ ∃ direct, DirectImport canonicalImportPath set file direct ∧
    ReflTransGen (PublicImport canonicalImportPath set) direct other

variable {canonicalImportPath set}

theorem PublicImport.direct {file target : Nat}
    (imports : PublicImport canonicalImportPath set file target) :
    DirectImport canonicalImportPath set file target := by
  obtain ⟨node, listed, kind, found⟩ := imports
  exact ⟨node, listed, by rw [kind]; nofun, found⟩

theorem Visible.publicImport {file other target : Nat}
    (visible : Visible canonicalImportPath set file other)
    (imports : PublicImport canonicalImportPath set other target) :
    Visible canonicalImportPath set file target := by
  rcases visible with rfl | ⟨direct, first, path⟩
  · exact .inr ⟨target, imports.direct, .refl⟩
  · exact .inr ⟨direct, first, path.tail imports⟩

variable (canonicalImportPath set)

/-! ## The closure under public imports -/

/-- The targets of all imports in the set. -/
def ResolvedFileSet.targets : List Nat :=
  (set.files.flatMap FileNode.imports).filterMap (set.importIndex canonicalImportPath)

/-- Turns the closure can still take: a file is pushed when it becomes visible. -/
def Closure.potential (closure : Closure) : Nat :=
  closure.stack.length +
    ((set.targets canonicalImportPath).filter (· ∉ closure.visible)).length

/-- What following some imports does to the closure. -/
structure Followed (nodes : List ImportNode) (closure closure' : Closure) : Prop where
  /-- What was visible stays visible. -/
  keeps : ∀ other ∈ closure.visible, other ∈ closure'.visible
  /-- What was pending stays pending. -/
  pending : ∀ other ∈ closure.stack, other ∈ closure'.stack
  /-- What is pushed is visible. -/
  pushed : ∀ other ∈ closure'.stack, other ∈ closure.stack ∨ other ∈ closure'.visible
  /-- What becomes visible is pushed, and is the target of a public import. -/
  fresh : ∀ other ∈ closure'.visible, other ∈ closure.visible ∨
    other ∈ closure'.stack ∧ ∃ node ∈ nodes, node.kind = .publicly ∧
      set.importIndex canonicalImportPath node = some other
  /-- Every target is visible. -/
  reached : ∀ node ∈ nodes, node.kind = .publicly → ∀ target,
    set.importIndex canonicalImportPath node = some target → target ∈ closure'.visible
  /-- Nothing is listed twice. -/
  nodup : closure.visible.Nodup → closure'.visible.Nodup
  /-- The turns left do not grow. -/
  potential : closure'.potential canonicalImportPath set ≤
    closure.potential canonicalImportPath set

variable {canonicalImportPath set}

theorem Closure.follow_followed (closure : Closure) {node : ImportNode}
    (known : node ∈ set.files.flatMap FileNode.imports) :
    Followed canonicalImportPath set [node] closure
      (closure.follow canonicalImportPath set node) := by
  have same : (node.kind = .publicly → ∀ target,
      set.importIndex canonicalImportPath node = some target → target ∈ closure.visible) →
      Followed canonicalImportPath set [node] closure closure := by
    intro reached
    refine ⟨fun _ met => met, fun _ met => met, fun _ met => .inl met, fun _ met => .inl met, ?_,
      id, Nat.le_refl _⟩
    intro other listed
    rw [List.mem_singleton.mp listed]
    exact reached
  rw [Closure.follow]
  by_cases kind : node.kind = .publicly
  case neg =>
    rw [if_pos kind]
    exact same fun kind' => absurd kind' kind
  rw [if_neg (not_not.mpr kind)]
  cases found : set.importIndex canonicalImportPath node with
  | none =>
      refine same fun _ target found' => ?_
      rw [found] at found'
      cases found'
  | some target =>
      dsimp only
      by_cases met : target ∈ closure.visible
      · rw [if_pos met]
        refine same fun _ target' found' => ?_
        rw [found] at found'
        cases found'
        exact met
      · rw [if_neg met]
        have isTarget : target ∈ set.targets canonicalImportPath :=
          List.mem_filterMap.mpr ⟨node, known, found⟩
        refine ⟨fun _ met => List.mem_append_left _ met, fun _ met => List.mem_cons_of_mem _ met,
          ?_, ?_, ?_, ?_, ?_⟩
        · intro other pushed
          rcases List.mem_cons.mp pushed with rfl | pushed
          · exact .inr (List.mem_append_right _ (List.mem_singleton_self _))
          · exact .inl pushed
        · intro other listed
          rcases List.mem_append.mp listed with listed | listed
          · exact .inl listed
          · rw [List.mem_singleton.mp listed]
            exact .inr ⟨List.mem_cons_self, node, List.mem_singleton_self _, kind, found⟩
        · intro other listed _ target' found'
          rw [List.mem_singleton.mp listed, found] at found'
          cases found'
          exact List.mem_append_right _ (List.mem_singleton_self _)
        · intro nodup
          exact List.nodup_append.mpr ⟨nodup, List.nodup_singleton _, fun other listed other' same =>
            by rintro rfl; exact met (List.mem_singleton.mp same ▸ listed)⟩
        · have fewer : ((set.targets canonicalImportPath).filter
              (· ∉ closure.visible ++ [target])).length <
                ((set.targets canonicalImportPath).filter (· ∉ closure.visible)).length := by
            have sub : ((set.targets canonicalImportPath).filter
                (· ∉ closure.visible ++ [target])) =
                  ((set.targets canonicalImportPath).filter (· ∉ closure.visible)).filter
                    (· ≠ target) := by
              rw [List.filter_filter]
              refine List.filter_congr fun other _ => ?_
              simp [and_comm]
            rw [sub]
            refine List.length_filter_lt_length_iff_exists.mpr ⟨target, ?_, by simp⟩
            exact List.mem_filter.mpr ⟨isTarget, by simpa using met⟩
          simp only [Closure.potential, List.length_cons]
          omega

theorem Followed.trans {nodes nodes' : List ImportNode} {first second third : Closure}
    (before : Followed canonicalImportPath set nodes first second)
    (after : Followed canonicalImportPath set nodes' second third) :
    Followed canonicalImportPath set (nodes ++ nodes') first third where
  keeps other met := after.keeps other (before.keeps other met)
  pending other met := after.pending other (before.pending other met)
  pushed other met := by
    rcases after.pushed other met with met | met
    · exact (before.pushed other met).imp_right (after.keeps other)
    · exact .inr met
  fresh other met := by
    rcases after.fresh other met with met | ⟨met, node, listed, found⟩
    · refine (before.fresh other met).imp_right ?_
      rintro ⟨met, node, listed, found⟩
      exact ⟨after.pending other met, node, List.mem_append_left _ listed, found⟩
    · exact .inr ⟨met, node, List.mem_append_right _ listed, found⟩
  reached node listed kind target found := by
    rcases List.mem_append.mp listed with listed | listed
    · exact after.keeps target (before.reached node listed kind target found)
    · exact after.reached node listed kind target found
  nodup := after.nodup ∘ before.nodup
  potential := Nat.le_trans after.potential before.potential

variable (canonicalImportPath) in
theorem Closure.foldl_follow (nodes : List ImportNode) (closure : Closure)
    (known : ∀ node ∈ nodes, node ∈ set.files.flatMap FileNode.imports) :
    Followed canonicalImportPath set nodes closure
      (nodes.foldl (Closure.follow canonicalImportPath set) closure) := by
  induction nodes generalizing closure with
  | nil =>
      exact ⟨fun _ met => met, fun _ met => met, fun _ met => .inl met, fun _ met => .inl met,
        nofun, id, Nat.le_refl _⟩
  | cons node nodes ih =>
      have first : Followed canonicalImportPath set [node] closure _ :=
        closure.follow_followed (known node List.mem_cons_self)
      exact first.trans (ih _ fun other listed => known other (List.mem_cons_of_mem _ listed))

theorem ResolvedFileSet.imports_known {file : Nat} {node : ImportNode}
    (listed : node ∈ set.imports file) : node ∈ set.files.flatMap FileNode.imports := by
  rw [ResolvedFileSet.imports] at listed
  cases found : set.files[file]? with
  | none => simp [found] at listed
  | some source =>
      rw [found] at listed
      exact List.mem_flatMap.mpr ⟨source, List.mem_of_getElem? found, listed⟩

variable (canonicalImportPath set)

/-- The invariant of the collection for a file. -/
structure Closure.Inv (file : Nat) (closure : Closure) : Prop where
  /-- Nothing is listed twice. -/
  nodup : closure.visible.Nodup
  /-- The file sees what is listed. -/
  sound : ∀ other ∈ closure.visible, Visible canonicalImportPath set file other
  /-- What is pending is listed. -/
  stack : ∀ other ∈ closure.stack, other ∈ closure.visible
  /-- The public imports of what is listed and not pending are listed, but for the file itself. -/
  closed : ∀ other ∈ closure.visible, other = file ∨ other ∈ closure.stack ∨
    ∀ target, PublicImport canonicalImportPath set other target → target ∈ closure.visible

variable {canonicalImportPath set}

/-- One turn of the closure. -/
theorem Closure.Inv.turn {file current : Nat} {visible stack : List Nat}
    (inv : Closure.Inv canonicalImportPath set file ⟨visible, current :: stack⟩) :
    Closure.Inv canonicalImportPath set file
      ((set.imports current).foldl (Closure.follow canonicalImportPath set) ⟨visible, stack⟩) := by
  have followed := Closure.foldl_follow canonicalImportPath
    (set.imports current) ⟨visible, stack⟩ fun node listed => ResolvedFileSet.imports_known listed
  have sees : Visible canonicalImportPath set file current :=
    inv.sound current (inv.stack current List.mem_cons_self)
  refine ⟨followed.nodup inv.nodup, ?_, ?_, ?_⟩
  · intro other listed
    rcases followed.fresh other listed with listed | ⟨-, node, imported, kind, found⟩
    · exact inv.sound other listed
    · exact sees.publicImport ⟨node, imported, kind, found⟩
  · intro other pushed
    rcases followed.pushed other pushed with pushed | listed
    · exact followed.keeps other (inv.stack other (List.mem_cons_of_mem _ pushed))
    · exact listed
  · intro other listed
    rcases followed.fresh other listed with listed | ⟨pushed, -⟩
    · rcases inv.closed other listed with same | pending | closed
      · exact .inl same
      · rcases List.mem_cons.mp pending with rfl | pending
        · refine .inr (.inr ?_)
          rintro target ⟨node, imported, kind, found⟩
          exact followed.reached node imported kind target found
        · exact .inr (.inl (followed.pending other pending))
      · exact .inr (.inr fun target imports => followed.keeps target (closed target imports))
    · exact .inr (.inl pushed)

theorem drainClosure_spec {file : Nat} (turns : Nat) (closure : Closure)
    (inv : closure.Inv canonicalImportPath set file)
    (bound : closure.potential canonicalImportPath set ≤ turns) :
    ∃ visible, drainClosure canonicalImportPath set turns closure = .ok visible ∧
      Closure.Inv canonicalImportPath set file ⟨visible, []⟩ ∧
      ∀ other ∈ closure.visible, other ∈ visible := by
  induction turns generalizing closure with
  | zero =>
      obtain ⟨visible, stack⟩ := closure
      simp only [Closure.potential] at bound
      obtain rfl : stack = [] := List.eq_nil_of_length_eq_zero (by omega)
      exact ⟨visible, rfl, inv, fun _ met => met⟩
  | succ turns ih =>
      obtain ⟨visible, stack⟩ := closure
      cases stack with
      | nil => exact ⟨visible, rfl, inv, fun _ met => met⟩
      | cons current stack =>
          have followed := Closure.foldl_follow canonicalImportPath
            (set.imports current) ⟨visible, stack⟩
            fun node listed => ResolvedFileSet.imports_known listed
          have less := followed.potential
          simp only [Closure.potential, List.length_cons] at less bound
          obtain ⟨final, drained, inv', keeps⟩ := ih _ inv.turn (by
            rw [Closure.potential]
            omega)
          exact ⟨final, drained, inv', fun other met => keeps other (followed.keeps other met)⟩

theorem addPublicClosure_spec {file start : Nat} {visible : List Nat}
    (inv : Closure.Inv canonicalImportPath set file ⟨visible, [start]⟩) :
    ∃ visible', addPublicClosure canonicalImportPath set start visible = .ok visible' ∧
      Closure.Inv canonicalImportPath set file ⟨visible', []⟩ ∧
      ∀ other ∈ visible, other ∈ visible' := by
  refine drainClosure_spec _ _ inv ?_
  have fewer := List.length_filter_le (fun other => decide (other ∉ visible))
    (set.targets canonicalImportPath)
  have targets := List.length_filterMap_le (set.importIndex canonicalImportPath)
    (set.files.flatMap FileNode.imports)
  simp only [Closure.potential, List.length_singleton, ResolvedFileSet.importCount]
  rw [ResolvedFileSet.targets] at fewer ⊢
  omega

/-- One direct import. -/
theorem addImport_spec {file : Nat} {visible : List Nat} {node : ImportNode}
    (listed : node ∈ set.imports file)
    (inv : Closure.Inv canonicalImportPath set file ⟨visible, []⟩) :
    ∃ visible', addImport canonicalImportPath set visible node = .ok visible' ∧
      Closure.Inv canonicalImportPath set file ⟨visible', []⟩ ∧
      (∀ other ∈ visible, other ∈ visible') ∧
      (node.kind ≠ .option → ∀ target,
        set.importIndex canonicalImportPath node = some target → target ∈ visible') := by
  rw [addImport]
  by_cases kind : node.kind = .option
  case pos =>
    rw [if_pos kind]
    exact ⟨visible, rfl, inv, fun _ met => met, fun other => absurd kind other⟩
  rw [if_neg kind]
  cases found : set.importIndex canonicalImportPath node with
  | none => exact ⟨visible, rfl, inv, fun _ met => met, nofun⟩
  | some target =>
      have sees : Visible canonicalImportPath set file target :=
        .inr ⟨target, ⟨node, listed, kind, found⟩, .refl⟩
      set visible' := if target ∈ visible then visible else visible ++ [target] with visibleIs
      have mem : ∀ other, other ∈ visible' ↔ other ∈ visible ∨ other = target := by
        intro other
        by_cases met : target ∈ visible
        · rw [visibleIs, if_pos met]
          exact ⟨.inl, fun either => either.elim id fun same => same ▸ met⟩
        · rw [visibleIs, if_neg met, List.mem_append, List.mem_singleton]
      have inv' : Closure.Inv canonicalImportPath set file ⟨visible', [target]⟩ := by
        refine ⟨?_, ?_, ?_, ?_⟩
        · by_cases met : target ∈ visible
          · rw [visibleIs, if_pos met]
            exact inv.nodup
          · rw [visibleIs, if_neg met]
            exact List.nodup_append.mpr ⟨inv.nodup, List.nodup_singleton _,
              fun other listed other' same => by
                rintro rfl; exact met (List.mem_singleton.mp same ▸ listed)⟩
        · intro other met
          rcases (mem other).mp met with met | rfl
          · exact inv.sound other met
          · exact sees
        · intro other met
          exact (mem other).mpr (.inr (List.mem_singleton.mp met))
        · intro other met
          rcases (mem other).mp met with met | rfl
          · refine (inv.closed other met).imp_right fun closed => .inr ?_
            intro target' imports
            exact (mem target').mpr (.inl (closed.resolve_left nofun target' imports))
          · exact .inr (.inl (List.mem_singleton_self _))
      obtain ⟨final, added, inv'', keeps⟩ := addPublicClosure_spec inv'
      refine ⟨final, added, inv'', fun other met => keeps other ((mem other).mpr (.inl met)), ?_⟩
      intro _ target' same
      cases same
      exact keeps target ((mem target).mpr (.inr rfl))

/-- The visible files of a file. -/
theorem visibleFiles_spec (canonicalImportPath : Text → Text) (set : ResolvedFileSet)
    (file : Nat) :
    ∃ visible, visibleFiles canonicalImportPath set file = .ok visible ∧ visible.Nodup ∧
      ∀ other, other ∈ visible ↔ Visible canonicalImportPath set file other := by
  have collect : ∀ (nodes : List ImportNode) (visible : List Nat),
      (∀ node ∈ nodes, node ∈ set.imports file) →
      Closure.Inv canonicalImportPath set file ⟨visible, []⟩ →
      ∃ final, nodes.foldlM (addImport canonicalImportPath set) visible = .ok final ∧
        Closure.Inv canonicalImportPath set file ⟨final, []⟩ ∧
        (∀ other ∈ visible, other ∈ final) ∧
        ∀ node ∈ nodes, node.kind ≠ .option → ∀ target,
          set.importIndex canonicalImportPath node = some target → target ∈ final := by
    intro nodes
    induction nodes with
    | nil => exact fun visible _ inv => ⟨visible, rfl, inv, fun _ met => met, nofun⟩
    | cons node nodes ih =>
        intro visible listed inv
        obtain ⟨next, added, inv', keeps, target⟩ :=
          addImport_spec (listed node List.mem_cons_self) inv
        obtain ⟨final, rest, inv'', keeps', targets⟩ := ih next
          (fun other met => listed other (List.mem_cons_of_mem _ met)) inv'
        refine ⟨final, ?_, inv'', fun other met => keeps' other (keeps other met), ?_⟩
        · rw [List.foldlM_cons, added, Outcome.ok_bind, rest]
        · intro other met kind found imported
          rcases List.mem_cons.mp met with rfl | met
          · exact keeps' _ (target kind found imported)
          · exact targets other met kind found imported
  have start : Closure.Inv canonicalImportPath set file ⟨[file], []⟩ :=
    ⟨List.nodup_singleton _, fun other met => .inl (List.mem_singleton.mp met), nofun,
      fun other met => .inl (List.mem_singleton.mp met)⟩
  obtain ⟨visible, collected, inv, keeps, direct⟩ :=
    collect (set.imports file) [file] (fun _ met => met) start
  have closed : ∀ other ∈ visible, ∀ target,
      PublicImport canonicalImportPath set other target → target ∈ visible := by
    intro other met target imports
    rcases inv.closed other met with rfl | pending | closed
    · obtain ⟨node, listed, kind, found⟩ := imports
      exact direct node listed (by rw [kind]; nofun) target found
    · cases pending
    · exact closed target imports
  refine ⟨visible, collected, inv.nodup, fun other => ⟨inv.sound other, ?_⟩⟩
  rintro (rfl | ⟨target, ⟨node, listed, kind, found⟩, path⟩)
  · exact keeps other (List.mem_singleton_self _)
  · induction path with
    | refl => exact direct node listed kind _ found
    | tail path step ih => exact closed _ ih _ step

end Visibility

end Front
end RapidProto
