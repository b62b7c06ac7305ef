import RapidProto.Arena.Capacity

/-!
# Replaying a decode on a warmed-up arena

After a reset the chunks of an arena are met again in the order in which the first run used them,
those it grew included, because growing puts a chunk right behind the current one.  So the same
operations return the same addresses and the host is not asked for memory.
-/

namespace RapidProto

/-- An operation of a decode.  A block to shrink is named by how many blocks ago it was handed
out. -/
inductive ArenaOp where
  | allocate (bytes : Nat) (exponent : Fin 64)
  | shrinkLast (ago oldBytes newBytes : Nat)
  deriving DecidableEq, Repr

/-- Run an operation on an arena and the addresses returned so far, the latest first.  There is no
result when an allocation fails. -/
def ArenaOp.run (newChars : Nat → Option Nat) (state : Arena × List Nat) :
    ArenaOp → Option (Arena × List Nat)
  | allocate bytes exponent =>
    let (p, arena) := state.1.allocate newChars bytes (2 ^ exponent.val)
    if p = 0 then none else some (arena, p :: state.2)
  | shrinkLast ago oldBytes newBytes =>
    some (state.1.shrinkLast (state.2.getD ago 0) oldBytes newBytes, state.2)

/-- A run in which every operation succeeds, whatever fresh memory the host answers with. -/
inductive Arena.Runs : Arena → List Nat → List ArenaOp → Arena → List Nat → Prop
  | done (arena : Arena) (addresses : List Nat) : Runs arena addresses [] arena addresses
  | step {arena arena' final : Arena} {addresses addresses' result : List Nat} {op : ArenaOp}
      {ops : List ArenaOp} {newChars : Nat → Option Nat} (fresh : arena.Fresh newChars)
      (ran : op.run newChars (arena, addresses) = some (arena', addresses'))
      (rest : Runs arena' addresses' ops final result) :
      Runs arena addresses (op :: ops) final result

/-- A newly constructed arena, or one that has just been reset. -/
def Arena.Starting (arena : Arena) : Prop :=
  (∃ seed, arena.Constructed seed) ∨ ∃ ledger : Ledger, ledger.Reachable ∧ arena = ledger.arena.reset

/-- The cursor selects a chunk. -/
def Arena.Selects (arena : Arena) : Prop :=
  arena.live = true ∧ arena.cursor ≤ arena.more.length

/-- The state `arena` with the chunks and counters of `final`. -/
def Arena.shadow (arena final : Arena) : Arena :=
  { final with cur := arena.cur, limit := arena.limit, cursor := arena.cursor, used := arena.used }

/-- What a later state keeps of an earlier one. -/
structure Arena.Extends (arena later : Arena) : Prop where
  /-- The later cursor selects a chunk. -/
  selects : later.Selects
  /-- The cursor never moves back. -/
  order : arena.cursor ≤ later.cursor
  /-- The chunks up to the cursor stay where they are. -/
  kept : ∀ index, index ≤ arena.cursor → later.chunks[index]? = arena.chunks[index]?

namespace Arena

variable {arena arena' later final : Arena}

theorem Extends.trans (first : arena.Extends arena') (second : arena'.Extends later) :
    arena.Extends later where
  selects := second.selects
  order := first.order.trans second.order
  kept index low := (second.kept index (low.trans first.order)).trans (first.kept index low)

/-- A grown chunk has room for the request it was grown for. -/
theorem grow_fits {newChars : Nat → Option Nat} (fresh : arena.Fresh newChars)
    {bytes exponent : Nat} (small : exponent < 64) (accepted : ¬ kSizeMax - 2 ^ exponent < bytes)
    (grown : arena.grow newChars ((bytes + 2 ^ exponent) % 2 ^ 64) = some arena') :
    ∃ chunk, arena' = arena.install chunk ∧ 0 < chunk.data ∧
      fits chunk bytes (2 ^ exponent) = true := by
  obtain ⟨raw, base, answered, room, -, rfl⟩ := grow_cases grown
  obtain ⟨positive, low, -⟩ := fresh raw base answered
  have padded : alignUp base kMaxAlign < base + kMaxAlign :=
    @alignUp_lt _ 4 (by omega) (by decide)
  have above : base ≤ alignUp base kMaxAlign := @le_alignUp _ 4 (by omega) (by decide)
  have power : 2 ^ exponent ≤ 2 ^ 63 := Nat.pow_le_pow_right (by decide) (by omega)
  have one := Nat.two_pow_pos exponent
  have wrapless : (bytes + 2 ^ exponent) % 2 ^ 64 = bytes + 2 ^ exponent := by
    simp only [kSizeMax] at accepted
    omega
  have rounded := alignUp_lt (p := alignUp base kMaxAlign) (by omega) small
  refine ⟨_, rfl, by simp only; omega, ?_⟩
  simp only [fits, decide_eq_true_eq]
  omega

/-- The bump of a shadow is the shadow of the bump. -/
theorem shadow_bump (bytes align : Nat) :
    (arena.shadow final).bump bytes align =
      ((arena.bump bytes align).1, (arena.bump bytes align).2.shadow final) := rfl

theorem shadow_shrinkLast (ptr oldBytes newBytes : Nat) :
    (arena.shadow final).shrinkLast ptr oldBytes newBytes =
      (arena.shrinkLast ptr oldBytes newBytes).shadow final := by
  rw [shrinkLast, shrinkLast]
  by_cases ignored : ptr = 0 ∨ oldBytes < newBytes
  · rw [if_pos ignored, if_pos ignored]
  rw [if_neg ignored, if_neg ignored]
  by_cases last : ptr + oldBytes = arena.cur
  · rw [if_pos last, if_pos (show ptr + oldBytes = (arena.shadow final).cur from last)]
    rfl
  · rw [if_neg last, if_neg (show ¬ ptr + oldBytes = (arena.shadow final).cur from last)]

/-- When the next chunk of `final` is the one that `arena'` moved to, the shadow moves there too. -/
theorem shadow_allocate {c : Chunk} (found : final.chunks[arena.cursor + 1]? = some c)
    (cursor : arena'.cursor = arena.cursor + 1) (cur : arena'.cur = c.data)
    (limit : arena'.limit = c.limit) (used : arena'.used = arena.used) {bytes align : Nat}
    (room : fits c bytes align = true) (full : ¬ arena.hasRoom bytes align)
    (newChars : Nat → Option Nat) :
    (arena.shadow final).allocate newChars bytes align =
      ((arena'.bump bytes align).1, (arena'.bump bytes align).2.shadow final) := by
  have next : (arena.shadow final).chunk (arena.cursor + 1) = c :=
    chunk_of_getElem? found
  have reuse : (arena.shadow final).canAdvance bytes align := by
    refine ⟨?_, next.symm ▸ room⟩
    rw [← length_chunks]
    exact (List.getElem?_eq_some_iff.mp found).1
  have moved : (arena.shadow final).advanceTo (arena.cursor + 1) = arena'.shadow final := by
    rw [advanceTo, next]
    simp only [shadow, cursor, cur, limit, used]
  rcases allocate_cases (arena.shadow final) newChars bytes align with ⟨here, -⟩ | ⟨-, -, same⟩ |
    ⟨-, stuck, -⟩ | ⟨-, stuck, -⟩
  · exact absurd here full
  · rw [same, ← shadow_bump, ← moved]
    rfl
  · exact absurd reuse stuck
  · exact absurd reuse stuck

theorem selects_iff : arena.Selects ↔ arena.live = true ∧ arena.cursor < arena.chunks.length := by
  rw [Selects, and_congr_right_iff]
  intro live
  simp only [chunks, live, if_true, List.length_cons]
  exact Nat.lt_succ_iff.symm

/-- A state with the same chunks and the same cursor. -/
theorem Extends.of_same (selects : arena.Selects) (live : arena'.live = arena.live)
    (cursor : arena'.cursor = arena.cursor) (more : arena'.more = arena.more)
    (head : arena'.head = arena.head) : arena.Extends arena' where
  selects := by rwa [Selects, live, cursor, more]
  order := cursor.ge
  kept index _ := by simp only [chunks, live, more, head]

theorem Extends.advance (selects : arena.Selects)
    (next : arena.cursor + 1 < arena.chunkCount) :
    arena.Extends (arena.advanceTo (arena.cursor + 1)) where
  selects := by
    rw [selects_iff]
    exact ⟨selects.1, by rwa [← length_chunks] at next⟩
  order := Nat.le_succ _
  kept _ _ := rfl

theorem Extends.install (selects : arena.Selects) (c : Chunk) :
    arena.Extends (arena.install c) where
  selects := by
    rw [selects_iff]
    refine ⟨install_live c, ?_⟩
    exact (List.getElem?_eq_some_iff.mp (install_selected c fun _ => selects.2)).1
  order := by
    rw [install_cursor, if_pos selects.1]
    exact Nat.le_succ _
  kept index low := install_kept c selects.1 low

theorem Extends.bump (held : arena.Extends arena') (bytes align : Nat) :
    arena.Extends (arena'.bump bytes align).2 :=
  held.trans (.of_same held.selects rfl rfl rfl rfl)

theorem returned {result : Nat × Arena} {addresses addresses' : List Nat}
    (ran : (if result.1 = 0 then none else some (result.2, result.1 :: addresses)) =
      some (arena', addresses')) :
    result.1 ≠ 0 ∧ result.2 = arena' ∧ result.1 :: addresses = addresses' := by
  split at ran
  · cases ran
  · rename_i nonnull
    cases ran
    exact ⟨nonnull, rfl, rfl⟩

/-- One operation, followed by one that leaves the chunks it used where they are. -/
theorem replay_step {newChars : Nat → Option Nat} (fresh : arena.Fresh newChars)
    (selects : arena.Selects) {op : ArenaOp} {addresses addresses' : List Nat}
    (ran : op.run newChars (arena, addresses) = some (arena', addresses')) :
    arena.Extends arena' ∧ ∀ final host, arena'.Extends final →
      op.run host (arena.shadow final, addresses) = some (arena'.shadow final, addresses') := by
  cases op with
  | shrinkLast ago oldBytes newBytes =>
      simp only [ArenaOp.run, Option.some.injEq, Prod.mk.injEq] at ran
      obtain ⟨rfl, rfl⟩ := ran
      constructor
      · rw [shrinkLast]
        split
        · exact .of_same selects rfl rfl rfl rfl
        · split <;> exact .of_same selects rfl rfl rfl rfl
      · intro final host _
        rw [ArenaOp.run, shadow_shrinkLast]
  | allocate bytes exponent =>
      simp only [ArenaOp.run] at ran ⊢
      rcases arena.allocate_cases newChars bytes (2 ^ exponent.val) with ⟨room, same⟩ |
        ⟨full, reuse, same⟩ | ⟨full, -, accepted, grown, grew, same⟩ | ⟨-, -, -, same⟩
      · have here : arena.Extends arena := .of_same selects rfl rfl rfl rfl
        obtain ⟨nonnull, rfl, rfl⟩ := returned (same ▸ ran)
        refine ⟨here.bump bytes _, fun final host _ => ?_⟩
        have again : (arena.shadow final).allocate host bytes (2 ^ exponent.val) =
            (arena.shadow final).bump bytes (2 ^ exponent.val) := if_pos room
        rw [again, shadow_bump]
        exact if_neg nonnull
      · have moved := Extends.advance selects reuse.1
        obtain ⟨nonnull, rfl, rfl⟩ := returned (same ▸ ran)
        refine ⟨moved.bump bytes _, fun final host held => ?_⟩
        have next : arena.chunks[arena.cursor + 1]? = some (arena.chunk (arena.cursor + 1)) := by
          have inside := reuse.1
          rw [← length_chunks] at inside
          have found := List.getElem?_eq_getElem inside
          rw [found, chunk_of_getElem? found]
        have found := held.kept (arena.cursor + 1) le_rfl
        rw [@shadow_allocate _ (arena.advanceTo (arena.cursor + 1)) _ _ (found.trans next) rfl rfl
          rfl rfl _ _ reuse.2 full]
        exact if_neg nonnull
      · obtain ⟨c, rfl, -, room⟩ := grow_fits fresh exponent.isLt accepted grew
        have moved := Extends.install selects c
        obtain ⟨nonnull, rfl, rfl⟩ := returned (same ▸ ran)
        refine ⟨moved.bump bytes _, fun final host held => ?_⟩
        have cursor : (arena.install c).cursor = arena.cursor + 1 := by
          rw [install_cursor, if_pos selects.1]
        have selected := install_selected c fun _ => selects.2
        have found := held.kept (arena.cursor + 1) cursor.ge
        obtain ⟨cur, limit⟩ := install_cur c
        rw [chunk_of_getElem? selected] at cur limit
        rw [cursor] at selected
        rw [shadow_allocate (found.trans selected) cursor cur limit (install_used c) room full]
        exact if_neg nonnull
      · rw [same] at ran
        simp at ran

/-! ## Whole runs -/

theorem Runs.extends {addresses result : List Nat} {ops : List ArenaOp}
    (runs : Runs arena addresses ops final result) (selects : arena.Selects) :
    arena.Extends final := by
  induction runs with
  | done arena addresses => exact .of_same selects rfl rfl rfl rfl
  | step fresh ran rest ih =>
      have first := (replay_step fresh selects ran).1
      exact first.trans (ih first.selects)

/-- The shadow of a run goes the same way. -/
theorem Runs.replay {addresses result : List Nat} {ops : List ArenaOp}
    (runs : Runs arena addresses ops final result) (selects : arena.Selects)
    (host : Nat → Option Nat) :
    ops.foldlM (ArenaOp.run host) (arena.shadow final, addresses) = some (final, result) := by
  induction runs with
  | done arena addresses => rfl
  | step fresh ran rest ih =>
      obtain ⟨first, again⟩ := replay_step fresh selects ran
      rw [List.foldlM_cons, again _ host (rest.extends first.selects)]
      exact ih first.selects

/-- An arena at the start of its first chunk, if it has one. -/
structure AtStart (arena : Arena) : Prop where
  /-- Nothing is in use. -/
  used : arena.used = 0
  /-- The first chunk is selected. -/
  cursor : arena.cursor = 0
  /-- The bump pointer is at its start. -/
  live : arena.live = true → arena.cur = arena.head.data ∧ arena.limit = arena.head.limit
  /-- Without a chunk everything is null. -/
  dead : arena.live = false → arena.cur = 0 ∧ arena.limit = 0

theorem atStart_reset : arena.reset.AtStart := by
  cases live : arena.live with
  | true =>
      rw [reset_of_live live]
      exact ⟨rfl, rfl, fun _ => ⟨rfl, rfl⟩, fun dead => nomatch live.symm.trans dead⟩
  | false =>
      rw [reset_of_dead live]
      exact ⟨rfl, rfl, fun alive => (nomatch live.symm.trans alive), fun _ => ⟨rfl, rfl⟩⟩

theorem Starting.atStart (starting : arena.Starting) : arena.AtStart := by
  rcases starting with ⟨seed, constructed⟩ | ⟨ledger, -, rfl⟩
  · have empty : ({} : Arena).AtStart := ⟨rfl, rfl, fun alive => (by cases alive), fun _ => ⟨rfl, rfl⟩⟩
    cases constructed with
    | unseeded => exact empty
    | seeded buffer seed low =>
        rw [seeded]
        split
        · exact ⟨rfl, rfl, fun _ => ⟨rfl, rfl⟩, fun dead => by cases dead⟩
        · exact empty
  · exact atStart_reset

/-- From the start of a live arena, a reset leads back to the shadow of the start. -/
theorem AtStart.reset_eq (atStart : arena.AtStart) (live : arena.live = true)
    (held : arena.Extends final) : final.reset = arena.shadow final := by
  obtain ⟨cur, limit⟩ := atStart.live live
  have head : final.head = arena.head := by
    have first := held.kept 0 (Nat.zero_le _)
    simpa [chunks, live, held.selects.1] using first
  simp only [reset, held.selects.1, if_true, shadow, cur, limit, atStart.used, atStart.cursor, head]

/-- Without a chunk, the first allocation takes one in. -/
theorem allocate_of_dead (atStart : arena.AtStart) (dead : arena.live = false)
    {newChars : Nat → Option Nat} (fresh : arena.Fresh newChars) {bytes : Nat} {exponent : Fin 64}
    {addresses addresses' : List Nat}
    (ran : (ArenaOp.allocate bytes exponent).run newChars (arena, addresses) =
      some (arena', addresses')) :
    ∃ c, 0 < c.data ∧ fits c bytes (2 ^ exponent.val) = true ∧
      ((arena.install c).bump bytes (2 ^ exponent.val)).1 ≠ 0 ∧
      ((arena.install c).bump bytes (2 ^ exponent.val)).2 = arena' ∧
      ((arena.install c).bump bytes (2 ^ exponent.val)).1 :: addresses = addresses' := by
  simp only [ArenaOp.run] at ran
  rcases arena.allocate_cases newChars bytes (2 ^ exponent.val) with ⟨room, -⟩ | ⟨-, reuse, -⟩ |
    ⟨-, -, accepted, grown, grew, same⟩ | ⟨-, -, -, same⟩
  · exact absurd (atStart.dead dead).1 room.1
  · have count := reuse.1
    simp [chunkCount, dead] at count
  · obtain ⟨c, rfl, positive, room⟩ := grow_fits fresh exponent.isLt accepted grew
    exact ⟨c, positive, room, returned (same ▸ ran)⟩
  · rw [same] at ran
    simp at ran

/-- The first chunk of an arena is met at its start. -/
theorem AtStart.install (atStart : arena.AtStart) (dead : arena.live = false) (c : Chunk) :
    (arena.install c).AtStart ∧ (arena.install c).head = c ∧ (arena.install c).Selects := by
  have cursor : (arena.install c).cursor = 0 := by simp [install_cursor, dead]
  have head : (arena.install c).head = c := by
    have selected := install_selected c fun alive => Bool.noConfusion (dead.symm.trans alive)
    rw [cursor, chunks, install_live, if_pos rfl] at selected
    exact Option.some.inj selected
  obtain ⟨cur, limit⟩ := install_cur c
  rw [cursor] at cur limit
  refine ⟨⟨(install_used c).trans atStart.used, cursor, fun _ => ⟨cur, limit⟩,
    fun unset => Bool.noConfusion ((install_live c).symm.trans unset)⟩, head, install_live c, ?_⟩
  rw [cursor]
  exact Nat.zero_le _

theorem Runs.replay_of_dead {addresses result : List Nat} {ops : List ArenaOp}
    (runs : Runs arena addresses ops final result) (idle : addresses = [])
    (atStart : arena.AtStart) (dead : arena.live = false) (host : Nat → Option Nat) :
    ops.foldlM (ArenaOp.run host) (final.reset, []) = some (final, result) := by
  induction runs with
  | done arena addresses =>
      obtain ⟨cur, limit⟩ := atStart.dead dead
      have same : { arena with used := 0, cursor := 0, cur := 0, limit := 0 } = arena := by
        have used := atStart.used
        have cursor := atStart.cursor
        clear atStart
        cases arena
        simp_all
      rw [reset_of_dead dead, idle, List.foldlM_nil, same]
      rfl
  | @step arena arena' final addresses addresses' result op ops newChars fresh ran rest ih =>
      subst idle
      cases op with
      | shrinkLast ago oldBytes newBytes =>
          simp only [ArenaOp.run, List.getD_nil, shrinkLast, true_or, if_true, Option.some.injEq,
            Prod.mk.injEq] at ran
          obtain ⟨rfl, rfl⟩ := ran
          rw [List.foldlM_cons]
          simp only [ArenaOp.run, List.getD_nil, shrinkLast, true_or, if_true, Option.bind_eq_bind,
            Option.bind_some]
          exact ih rfl atStart dead
      | allocate bytes exponent =>
          obtain ⟨c, positive, room, nonnull, rfl, rfl⟩ := allocate_of_dead atStart dead fresh ran
          obtain ⟨begun, head, selects⟩ := atStart.install dead c
          have bumped : (arena.install c).Extends
              ((arena.install c).bump bytes (2 ^ exponent.val)).2 :=
            .of_same selects rfl rfl rfl rfl
          have held := bumped.trans (rest.extends bumped.selects)
          obtain ⟨cur, limit⟩ := begun.live selects.1
          rw [head] at cur limit
          have fast : ((arena.install c).shadow final).hasRoom bytes (2 ^ exponent.val) := by
            simp only [fits, decide_eq_true_eq] at room
            simp only [hasRoom, shadow, cur, limit]
            exact ⟨by omega, room⟩
          rw [begun.reset_eq selects.1 held, List.foldlM_cons]
          simp only [ArenaOp.run]
          rw [show ((arena.install c).shadow final).allocate host bytes (2 ^ exponent.val) =
            ((arena.install c).shadow final).bump bytes (2 ^ exponent.val) from if_pos fast,
            shadow_bump, if_neg nonnull]
          exact rest.replay bumped.selects host

/-- From the start, a reset leads back to the start. -/
theorem AtStart.replay (atStart : arena.AtStart) {result : List Nat} {ops : List ArenaOp}
    (runs : Runs arena [] ops final result) (host : Nat → Option Nat) :
    ops.foldlM (ArenaOp.run host) (final.reset, []) = some (final, result) := by
  cases live : arena.live with
  | true =>
      have selects : arena.Selects := ⟨live, by rw [atStart.cursor]; exact Nat.zero_le _⟩
      rw [atStart.reset_eq live (runs.extends selects)]
      exact runs.replay selects host
  | false => exact runs.replay_of_dead rfl atStart live host

end Arena

/-- A warmed-up arena is replayed.  When operations all succeed on a new or a reset arena, resetting
it and running them again returns the same addresses and leads to the same arena, whatever the host
would answer. -/
theorem Arena.reset_replays (arena final : Arena) (starting : arena.Starting) (ops : List ArenaOp)
    (result : List Nat) (runs : Arena.Runs arena [] ops final result) (host : Nat → Option Nat) :
    ops.foldlM (ArenaOp.run host) (final.reset, []) = some (final, result) :=
  starting.atStart.replay runs host

/-- A block of the seed and two of a grown chunk, the first of them shrunk before the second is
asked for: the chunk is kept, and the host is not asked again. -/
theorem Arena.reset_replays_sample :
    ∃ final result, [ArenaOp.allocate 24 3, .allocate 1000 3, .shrinkLast 0 1000 10,
      .allocate 16 4].foldlM (ArenaOp.run fun _ => none) (Arena.reset final, []) =
        some (final, result) ∧
        final.chunks = [⟨0x1000, 0x1100⟩, ⟨0x10000, 0x10000 + 4112⟩] ∧
        result = [0x10010, 0x10000, 0x1000] := by
  exact ⟨_, _, Arena.reset_replays (Arena.seeded 0x1000 256) _
    (.inl ⟨256, .seeded 0x1000 256 (by decide)⟩) _ _
    (.step (Arena.fresh_none _) rfl (.step (Arena.fresh_oneChunk rfl) rfl
      (.step (Arena.fresh_none _) rfl (.step (Arena.fresh_none _) rfl (.done _ _))))) _, rfl, rfl⟩

end RapidProto
