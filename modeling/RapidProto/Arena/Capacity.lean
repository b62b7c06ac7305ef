import RapidProto.Arena.Ledger

/-!
# The capacity limit

The limit on the host memory an arena holds is its defence against hostile input.  Along every run
that sets it first, what is reserved stays below it; an allocation that fails leaves no trace; and
it fails only when neither the current chunk, nor the next one held, nor a fresh one can serve it.
-/

namespace RapidProto

/-- A run under a limit that is set before the first allocation and is at least the seed size. -/
inductive Ledger.CappedRun (limit : Nat) : Ledger → Prop
  | start {seed : Nat} {arena : Arena} (constructed : arena.Constructed seed)
      (enough : seed ≤ limit) : CappedRun limit { arena := arena.setCapacityLimit limit }
  | next {ledger ledger' : Ledger} (reached : CappedRun limit ledger)
      (step : Step ledger ledger') (kept : ledger'.arena.cap = limit) : CappedRun limit ledger'

/-- There is an aligned block of the given size between two addresses. -/
def Holds (start limit bytes align : Nat) : Prop :=
  ∃ p, start ≤ p ∧ align ∣ p ∧ p + bytes ≤ limit

/-- Host memory a fresh chunk for a request takes, padding included. -/
def Arena.freshSize (arena : Arena) (bytes align : Nat) : Nat :=
  max arena.nextChunk (bytes + align) + kMaxAlign

/-- Why a request cannot be served. -/
structure Arena.Refused (arena : Arena) (newChars : Nat → Option Nat) (bytes align : Nat) : Prop where
  /-- The current chunk cannot hold it. -/
  current : arena.live = true → ¬ Holds arena.cur arena.limit bytes align
  /-- Neither can the next one that is held. -/
  next : ∀ chunk, arena.chunks[arena.cursor + 1]? = some chunk →
    ¬ Holds chunk.data chunk.limit bytes align
  /-- A fresh chunk is too large, over the limit, or refused by the host. -/
  fresh : kPtrdiffMax < arena.freshSize bytes align ∨
    arena.cap < arena.reserved + arena.freshSize bytes align ∨
    newChars (arena.freshSize bytes align) = none

/-- A failed request leaves the arena as it was, and failed for a reason. -/
def Arena.FailsCleanly (arena : Arena) (newChars : Nat → Option Nat) (bytes align : Nat)
    (result : Nat × Arena) : Prop :=
  result.1 = 0 → result.2 = arena ∧ (0 < bytes → arena.Refused newChars bytes align)

/-! ## Size computations -/

namespace Arena

variable (arena : Arena)

/-- The sums `grow` computes. -/
def growSizes (minUsable : Nat) : List Nat :=
  let cap := if arena.nextChunk < minUsable then minUsable else arena.nextChunk
  if kPtrdiffMax - kMaxAlign < cap then [] else [cap + kMaxAlign]

instance (bytes align : Nat) : Decidable (arena.hasRoom bytes align) :=
  inferInstanceAs (Decidable (_ ∧ _))

instance (bytes align : Nat) : Decidable (arena.canAdvance bytes align) :=
  inferInstanceAs (Decidable (_ ∧ _))

/-- The sums `allocate` computes. -/
def allocateSizes (bytes align : Nat) : List Nat :=
  if arena.hasRoom bytes align then []
  else if arena.canAdvance bytes align then []
  else if kSizeMax - align < bytes then []
  else (bytes + align) :: arena.growSizes ((bytes + align) % 2 ^ 64)

/-- The product and the sums `allocate_array` computes. -/
def allocateArraySizes (size align count : Nat) : List Nat :=
  if count = 0 ∨ kSizeMax / size < count then []
  else (count * size) :: arena.allocateSizes (count * size % 2 ^ 64) align

variable {arena}

/-- What keeps an arena from growing. -/
theorem grow_eq_none {newChars : Nat → Option Nat} {minUsable : Nat}
    (failed : arena.grow newChars minUsable = none) :
    kPtrdiffMax < max arena.nextChunk minUsable + kMaxAlign ∨
      arena.cap < arena.reserved + (max arena.nextChunk minUsable + kMaxAlign) ∨
      newChars (max arena.nextChunk minUsable + kMaxAlign) = none := by
  simp only [grow, ← max_def_lt] at failed
  generalize max arena.nextChunk minUsable = cap at failed ⊢
  split at failed
  · left
    omega
  rename_i small
  have wrapless : (cap + kMaxAlign) % 2 ^ 64 = cap + kMaxAlign := by
    simp only [kPtrdiffMax, kMaxAlign] at *
    omega
  rw [wrapless] at failed
  split at failed
  · right
    left
    simp only [kMaxAlign] at *
    omega
  split at failed
  · rename_i refused
    exact .inr (.inr refused)
  · cases failed

theorem growSizes_le {minUsable size : Nat} (listed : size ∈ arena.growSizes minUsable) :
    size ≤ kSizeMax := by
  simp only [growSizes, ← max_def_lt] at listed
  split at listed
  · cases listed
  · rw [List.mem_singleton.mp listed]
    simp only [kPtrdiffMax, kMaxAlign, kSizeMax] at *
    omega

theorem allocateSizes_le {bytes align size : Nat} (addressable : align ≤ kSizeMax)
    (listed : size ∈ arena.allocateSizes bytes align) : size ≤ kSizeMax := by
  rw [allocateSizes] at listed
  split at listed
  · cases listed
  split at listed
  · cases listed
  split at listed
  · cases listed
  rcases List.mem_cons.mp listed with rfl | later
  · omega
  · exact growSizes_le later

theorem allocateArraySizes_le {size align count total : Nat} (sized : 0 < size)
    (addressable : align ≤ kSizeMax) (listed : total ∈ arena.allocateArraySizes size align count) :
    total ≤ kSizeMax := by
  rw [allocateArraySizes] at listed
  split at listed
  · cases listed
  · rename_i accepted
    rcases List.mem_cons.mp listed with rfl | later
    · exact (Nat.le_div_iff_mul_le sized).mp (by omega)
    · exact allocateSizes_le addressable later

end Arena

/-! ## Refusals -/

/-- `align_up` finds the first aligned address. -/
theorem alignUp_le {p q exponent : Nat} (low : p ≤ 2 ^ 63) (small : exponent < 64)
    (aligned : 2 ^ exponent ∣ q) (above : p ≤ q) : alignUp p (2 ^ exponent) ≤ q := by
  obtain ⟨count, rfl⟩ := aligned
  have positive : 0 < 2 ^ exponent := Nat.two_pow_pos exponent
  obtain ⟨count', found⟩ := alignUp_dvd low small
  have rounded := alignUp_lt low small
  rw [found] at rounded ⊢
  have fewer : count' < count + 1 := by
    by_contra more
    have larger : 2 ^ exponent * (count + 1) ≤ 2 ^ exponent * count' :=
      Nat.mul_le_mul_left _ (by omega)
    rw [Nat.mul_add] at larger
    omega
  exact Nat.mul_le_mul_left _ (by omega)

theorem not_holds {start limit bytes exponent : Nat} (low : start ≤ 2 ^ 63)
    (small : exponent < 64)
    (refused : ¬ (alignUp start (2 ^ exponent) ≤ limit ∧
      bytes ≤ limit - alignUp start (2 ^ exponent))) :
    ¬ Holds start limit bytes (2 ^ exponent) := by
  rintro ⟨p, above, aligned, room⟩
  have first := alignUp_le low small aligned above
  omega

namespace Ledger

variable {ledger : Ledger}

theorem Settled.refused (settled : ledger.Settled) {newChars : Nat → Option Nat}
    {bytes exponent : Nat} (small : exponent < 64)
    (full : ¬ ledger.arena.hasRoom bytes (2 ^ exponent))
    (last : ¬ ledger.arena.canAdvance bytes (2 ^ exponent))
    (failed : kSizeMax - 2 ^ exponent < bytes ∨
      ledger.arena.grow newChars ((bytes + 2 ^ exponent) % 2 ^ 64) = none) :
    ledger.arena.Refused newChars bytes (2 ^ exponent) where
  current live := by
    obtain ⟨positive, -, low⟩ := settled.cur_le live
    refine not_holds low small fun fits => full ⟨by omega, fits⟩
  next chunk found := by
    obtain ⟨positive, order, low⟩ := settled.chunked.low chunk (List.mem_of_getElem? found)
    refine not_holds (by omega) small fun fits => last ⟨?_, ?_⟩
    · rw [← Arena.length_chunks]
      exact (List.getElem?_eq_some_iff.mp found).1
    · rw [Arena.chunk_of_getElem? found]
      simpa [Arena.fits] using fits
  fresh := by
    have power : 2 ^ exponent ≤ 2 ^ 63 := Nat.pow_le_pow_right (by decide) (by omega)
    have positive := Nat.two_pow_pos exponent
    rw [Arena.freshSize]
    by_cases large : kSizeMax - 2 ^ exponent < bytes
    · left
      simp only [kPtrdiffMax, kMaxAlign, kSizeMax] at *
      omega
    have wrapless : (bytes + 2 ^ exponent) % 2 ^ 64 = bytes + 2 ^ exponent := by
      simp only [kSizeMax] at large
      omega
    have grown := failed.resolve_left large
    rw [wrapless] at grown
    exact Arena.grow_eq_none grown

/-- A failed allocation leaves no trace. -/
theorem Valid.allocate_failsCleanly (valid : ledger.Valid) {newChars : Nat → Option Nat}
    (fresh : ledger.arena.Fresh newChars) {bytes exponent : Nat} (small : exponent < 64) :
    ledger.arena.FailsCleanly newChars bytes (2 ^ exponent)
      (ledger.arena.allocate newChars bytes (2 ^ exponent)) := by
  intro failed
  rcases valid.allocate_cases fresh small with ⟨arena', settled, live, room, same, -⟩ |
    ⟨full, last, stuck, same⟩
  · have bounds : 0 < arena'.cur ∧ arena'.limit ≤ 2 ^ 63 ∧ arena'.cur ≤ 2 ^ 63 :=
      settled.cur_le live
    have above := le_alignUp bounds.2.2 small
    rw [same, Arena.bump] at failed
    simp only [] at failed
    omega
  · rw [same]
    exact ⟨rfl, fun _ => valid.refused small full last stuck⟩

/-- A count that is rejected asks for more than half of the address space: no chunk has that room,
and no fresh one can be that large. -/
theorem Valid.allocateArray_failsCleanly (valid : ledger.Valid) {newChars : Nat → Option Nat}
    (fresh : ledger.arena.Fresh newChars) {size count exponent : Nat} (sized : 0 < size)
    (small : exponent < 64) :
    ledger.arena.FailsCleanly newChars (count * size) (2 ^ exponent)
      (ledger.arena.allocateArray newChars size (2 ^ exponent) count) := by
  rw [Arena.allocateArray]
  split
  · rename_i rejected
    refine fun _ => ⟨rfl, fun positive => ?_⟩
    have huge : kSizeMax < count * size := by
      rcases rejected with rfl | many
      · simp at positive
      · exact (Nat.div_lt_iff_lt_mul sized).mp many
    simp only [kSizeMax] at huge
    exact
      { current := by
          rintro live ⟨p, -, -, room⟩
          obtain ⟨-, low, -⟩ := valid.cur_le live
          omega
        next := by
          rintro chunk found ⟨p, -, -, room⟩
          obtain ⟨-, -, low⟩ := valid.chunked.low chunk (List.mem_of_getElem? found)
          omega
        fresh := by
          left
          have larger := Nat.le_max_right ledger.arena.nextChunk (count * size + 2 ^ exponent)
          have power := Nat.two_pow_pos exponent
          simp only [Arena.freshSize, kPtrdiffMax, kMaxAlign]
          omega }
  · rename_i accepted
    have bounded : count * size ≤ kSizeMax := (Nat.le_div_iff_mul_le sized).mp (by omega)
    rw [Nat.mod_eq_of_lt (by simp only [kSizeMax] at bounded; omega)]
    exact valid.allocate_failsCleanly fresh small

/-- An operation reserves no more than the limit leaves. -/
theorem Valid.allocate_reserved (valid : ledger.Valid) {newChars : Nat → Option Nat}
    (fresh : ledger.arena.Fresh newChars) {bytes exponent limit : Nat} (small : exponent < 64)
    (capped : ledger.arena.cap = limit) (below : ledger.arena.reserved ≤ limit) :
    (ledger.arena.allocate newChars bytes (2 ^ exponent)).2.reserved ≤ limit := by
  rcases valid.allocate_cases fresh small with ⟨arena', -, -, -, same, held | grown⟩ |
    ⟨-, -, -, same⟩
  · rw [same]
    exact held.1.trans_le below
  · rw [same]
    obtain ⟨raw, base, answered, -, within, rfl⟩ := Arena.grow_cases grown
    obtain ⟨-, low, -⟩ := fresh raw base answered
    have above : base ≤ alignUp base kMaxAlign := @le_alignUp _ 4 (by omega) (by decide)
    calc ((ledger.arena.install ⟨alignUp base kMaxAlign, base + raw⟩).bump bytes
          (2 ^ exponent)).2.reserved
        = (ledger.arena.reserved + (base + raw - alignUp base kMaxAlign)) % 2 ^ 64 :=
          Arena.install_reserved _
      _ ≤ ledger.arena.reserved + (base + raw - alignUp base kMaxAlign) := Nat.mod_le _ _
      _ ≤ limit := by omega
  · rw [same]
    exact below

/-- Along a run under a limit the invariant holds and the limit is kept. -/
theorem CappedRun.valid {limit : Nat} (run : CappedRun limit ledger) :
    ledger.Valid ∧ ledger.arena.cap = limit ∧ ledger.arena.reserved ≤ limit := by
  induction run with
  | @start seed arena constructed enough =>
      refine ⟨(Valid.start constructed).setCapacityLimit limit, rfl, ?_⟩
      cases constructed with
      | unseeded => exact Nat.zero_le _
      | seeded buffer _ low =>
          rw [Arena.seeded]
          split
          · have above : buffer ≤ alignUp buffer kMaxAlign :=
              @le_alignUp _ 4 (by omega) (by decide)
            calc (({} : Arena).adoptBuffer buffer seed).reserved
                = (0 + (buffer + seed - alignUp buffer kMaxAlign)) % 2 ^ 64 := rfl
              _ ≤ 0 + (buffer + seed - alignUp buffer kMaxAlign) := Nat.mod_le _ _
              _ ≤ limit := by omega
          · exact Nat.zero_le _
  | next _ step kept ih =>
      obtain ⟨valid, capped, below⟩ := ih
      refine ⟨valid.step step, kept, ?_⟩
      cases step with
      | setCapacityLimit maxReservedBytes => exact below
      | allocate fresh bytes exponent fits small =>
          exact valid.allocate_reserved fresh small capped below
      | allocateArray fresh size count exponent sized small =>
          simp only [receive, Arena.allocateArray]
          split
          · exact below
          · exact valid.allocate_reserved fresh small capped below
      | create fresh size exponent fits small =>
          exact valid.allocate_reserved fresh small capped below
      | shrinkLast recent newBytes =>
          simp only [Arena.shrinkLast]
          split
          · exact below
          · split <;> exact below
      | reset =>
          simp only [Arena.reset]
          split <;> exact below

/-- The capacity limit holds.  Along every run that sets it first, the reserved bytes stay below it;
a null result leaves the arena exactly as it was and is justified; and no size computation wraps. -/
theorem capacity_respected (limit : Nat) (ledger : Ledger) (run : ledger.CappedRun limit) :
    ledger.arena.reserved ≤ limit ∧
    (∀ newChars exponent, ledger.arena.Fresh newChars → exponent < 64 →
      (∀ bytes, ledger.arena.FailsCleanly newChars bytes (2 ^ exponent)
        (ledger.arena.allocate newChars bytes (2 ^ exponent))) ∧
      (∀ size, ledger.arena.FailsCleanly newChars size (2 ^ exponent)
        (ledger.arena.create newChars size (2 ^ exponent))) ∧
      (∀ size count, 0 < size → ledger.arena.FailsCleanly newChars (count * size) (2 ^ exponent)
        (ledger.arena.allocateArray newChars size (2 ^ exponent) count))) ∧
    (∀ bytes exponent, exponent < 64 →
      ∀ computed ∈ ledger.arena.allocateSizes bytes (2 ^ exponent), computed ≤ kSizeMax) ∧
    (∀ size count exponent, 0 < size → exponent < 64 →
      ∀ computed ∈ ledger.arena.allocateArraySizes size (2 ^ exponent) count,
        computed ≤ kSizeMax) := by
  obtain ⟨valid, -, below⟩ := run.valid
  have addressable : ∀ exponent, exponent < 64 → 2 ^ exponent ≤ kSizeMax := by
    intro exponent small
    have power : 2 ^ exponent ≤ 2 ^ 63 := Nat.pow_le_pow_right (by decide) (by omega)
    simp only [kSizeMax]
    omega
  refine ⟨below, fun newChars exponent fresh small => ⟨fun bytes => ?_, fun size => ?_,
    fun size count sized => ?_⟩, fun bytes exponent small computed listed => ?_,
    fun size count exponent sized small computed listed => ?_⟩
  · exact valid.allocate_failsCleanly fresh small
  · exact valid.allocate_failsCleanly fresh small
  · exact valid.allocateArray_failsCleanly fresh sized small
  · exact Arena.allocateSizes_le (addressable exponent small) listed
  · exact Arena.allocateArraySizes_le sized (addressable exponent small) listed

/-- A seeded arena under a limit of 8192 bytes has handed out a block of its seed and one of a chunk
it has grown; 8000 bytes cannot be had any more. -/
theorem capacity_respected_sample :
    ∃ ledger : Ledger, ledger.blocks = [⟨0x10000, 1000, 8⟩, ⟨0x1000, 24, 8⟩] ∧
      ledger.arena.reserved = 256 + 4112 ∧ ledger.arena.reserved ≤ 8192 ∧
      ledger.arena.FailsCleanly (fun _ => none) 8000 (2 ^ 3)
        (ledger.arena.allocate (fun _ => none) 8000 (2 ^ 3)) := by
  have seeded : CappedRun 8192 { arena := (Arena.seeded 0x1000 256).setCapacityLimit 8192 } :=
    .start (.seeded 0x1000 256 (by decide)) (by decide)
  have first := seeded.next (.allocate _ (Arena.fresh_none _) 24 3 (by decide) (by decide)) rfl
  have second := first.next
    (.allocate _ (Arena.fresh_oneChunk rfl) 1000 3 (by decide) (by decide)) rfl
  have sound := capacity_respected 8192 _ second
  exact ⟨_, rfl, rfl, sound.1, (sound.2.1 _ 3 (Arena.fresh_none _) (by decide)).1 8000⟩

end Ledger
end RapidProto
