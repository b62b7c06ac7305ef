import RapidProto.Packed.Kernel

/-!
# The kernel is the plain loop

Every kernel only ever replaces a state of the plain loop by a later state of the same loop.  That
is `Agrees`; it composes along turns, and the scalar tail then finishes from wherever the kernels
stopped.
-/

namespace RapidProto

variable {σ : Type}

section Kernels

variable (put : σ → Nat → BitVec 64 → σ) (span : Nat)

/-- The plain loop from a given state. -/
def plainFrom (fill : Fill σ) (q : Cursor) : Outcome (PackedFail σ) (Fill σ) :=
  runLoop (scalarTurn put span) fill q

/-- A kernel has moved along the run of the plain loop, or failed as the plain loop fails. -/
def Agrees (fill : Fill σ) (q : Cursor)
    (outcome : Outcome (PackedFail σ) (Fill σ × Cursor)) : Prop :=
  outcome.Ends
    (fun reached => plainFrom put span reached.1 reached.2 = plainFrom put span fill q ∧
      reached.2.length ≤ q.length)
    (fun failed => plainFrom put span fill q = .fail failed)

/-- The same for one turn of a kernel's loop, which must consume something to go on. -/
def TurnAgrees (fill : Fill σ) (q : Cursor)
    (outcome : Outcome (PackedFail σ) (Turn Byte (Fill σ) (Fill σ × Cursor))) : Prop :=
  outcome.Ends
    (fun
      | .stop reached => plainFrom put span reached.1 reached.2 = plainFrom put span fill q ∧
          reached.2.length ≤ q.length
      | .next fill' q' => q'.length < q.length ∧
          plainFrom put span fill' q' = plainFrom put span fill q)
    (fun failed => plainFrom put span fill q = .fail failed)

variable {put span}

/-- Stopping where the turn began. -/
theorem turnAgrees_stop (fill : Fill σ) (q : Cursor) :
    TurnAgrees put span fill q (.ok (.stop (fill, q))) :=
  ⟨rfl, le_rfl⟩

theorem runLoop_agrees {turn : Fill σ → Cursor →
      Outcome (PackedFail σ) (Turn Byte (Fill σ) (Fill σ × Cursor))}
    (agrees : ∀ fill q, TurnAgrees put span fill q (turn fill q)) (fill : Fill σ) (q : Cursor) :
    Agrees put span fill q (runLoop turn fill q) := by
  refine runLoop_ends (fun fill' q' =>
    plainFrom put span fill' q' = plainFrom put span fill q ∧ q'.length ≤ q.length)
    (fun fill' q' holds => ?_) ⟨rfl, le_rfl⟩
  obtain ⟨same, shorter⟩ := holds
  refine (agrees fill' q').mono (fun decision agreed => ?_) fun error failed => same ▸ failed
  cases decision with
  | stop reached => exact ⟨agreed.1.trans same, agreed.2.trans shorter⟩
  | next fill'' q'' => exact ⟨agreed.1, agreed.2.trans same, by omega⟩

theorem scalarTurn_consuming : Consuming (scalarTurn put span) := by
  intro fill q fill' q' taken
  rw [scalarTurn] at taken
  split at taken
  · rw [readVarint_eq] at taken
    cases read : varint q with
    | error error => rw [read] at taken; cases taken
    | ok got =>
        rw [read] at taken
        cases taken
        exact (varint_takes read).length_lt
  · cases taken

/-- The plain loop passes one well-formed element. -/
theorem plainFrom_put {fill : Fill σ} {q rest : Cursor} {raw : BitVec 64}
    (read : varint q = .ok (raw, rest)) :
    plainFrom put span fill q = plainFrom put span (fill.put put raw) rest := by
  have nonempty := (varint_takes read).length_lt
  rw [plainFrom, runLoop_eq scalarTurn_consuming, scalarTurn, if_pos (by omega), readVarint_eq, read]
  rfl

/-- The plain loop stops at a malformed element. -/
theorem plainFrom_fail {fill : Fill σ} {q : Cursor} {error : WireError} (nonempty : 0 < q.length)
    (read : varint q = .error error) :
    plainFrom put span fill q = .fail ⟨failAt span q error, fill.out⟩ := by
  rw [plainFrom, runLoop_eq scalarTurn_consuming, scalarTurn, if_pos nonempty, readVarint_eq, read]
  rfl

/-- A `read_varint_packed` step, in the form the loops use it. -/
theorem readVarintPacked_agrees {fill : Fill σ} {q : Cursor} (inside : 8 ≤ q.length) :
    ((readVarintPacked q).mapError fun error => ⟨failAt span q error, fill.out⟩).Ends
      (fun got => varint q = .ok got)
      (fun failed => plainFrom put span fill q = .fail failed) := by
  rw [readVarintPacked_eq inside]
  cases read : varint q with
  | ok got => exact rfl
  | error error => exact plainFrom_fail (by omega) read

theorem plainFrom_firstStop {fill : Fill σ} {q : Cursor} {len : Nat} (stop : FirstStop q len)
    (short : len ≤ 8) :
    plainFrom put span fill q =
      plainFrom put span (fill.put put (compact7 (wordAt q &&& lowByteMask len &&& kLow7)))
        (q.drop len) := by
  rw [plainFrom_put (varint_eq_gather stop (by omega) (by omega)), compact7_wordAt q short]

/-! ## One-byte elements -/

theorem anyMsbLoop_eq {ε : Type} {q : Cursor} (inside : 64 ≤ q.length) {left j : Nat}
    {any : BitVec 64} (total : left + j = 8)
    (soFar : any = 0 → ∀ i < 8 * j, terminates (byteAt q i) = true) :
    ∃ result, (anyMsbLoop q left j any : Outcome ε (BitVec 64)) = .ok result ∧
      (result = 0 → ∀ i < 64, terminates (byteAt q i) = true) := by
  induction left generalizing j any with
  | zero =>
      obtain rfl : j = 8 := by omega
      exact ⟨any, rfl, soFar⟩
  | succ left ih =>
      rw [anyMsbLoop, advance_of_le (by omega), Outcome.ok_bind,
        load64_eq (by rw [List.length_drop]; omega), Outcome.ok_bind]
      refine ih (by omega) fun cleared i below => ?_
      have parts : any = 0 ∧ wordAt (q.drop (8 * j)) &&& kMSB = 0 :=
        BitVec.or_eq_zero_iff.mp cleared
      by_cases before : i < 8 * j
      · exact soFar parts.1 i before
      · obtain ⟨k, inWord, rfl⟩ : ∃ k, k < 8 ∧ i = 8 * j + k := ⟨i - 8 * j, by omega, by omega⟩
        have bit := congrArg (fun w => w.getLsbD (8 * k + 7)) parts.2
        simp only [BitVec.getLsbD_and] at bit
        rw [getLsbD_wordAt_msb _ inWord, getLsbD_kMSB (by omega), byteAt_drop] at bit
        simpa using bit

theorem putBytes_eq {ε : Type} {q : Cursor} {left i : Nat} {fill : Fill σ}
    (inside : left + i ≤ q.length)
    (ones : ∀ k < left + i, terminates (byteAt q k) = true) :
    ∃ fill', (putBytes put q left i fill : Outcome ε (Fill σ)) = .ok fill' ∧
      plainFrom put span fill' (q.drop (left + i)) = plainFrom put span fill (q.drop i) := by
  induction left generalizing i fill with
  | zero => exact ⟨fill, rfl, by rw [Nat.zero_add]⟩
  | succ left ih =>
      rw [putBytes, peek_eq_byteAt (by omega), Outcome.ok_bind]
      obtain ⟨fill', run, same⟩ := ih (i := i + 1) (by omega)
        fun k below => ones k (by omega)
      refine ⟨fill', run, ?_⟩
      rw [show left + 1 + i = left + (i + 1) by omega, same]
      have here : q.drop i = byteAt q i :: q.drop (i + 1) := by
        rw [List.drop_eq_getElem_cons (by omega)]
        simp [byteAt, show i < q.length by omega]
      rw [here, plainFrom_put (varint_of_terminates (ones i (by omega)) _)]

theorem bulk1Turn_agrees (fill : Fill σ) (q : Cursor) :
    TurnAgrees put span fill q (bulk1Turn put fill q) := by
  rw [bulk1Turn]
  split
  · rename_i inside
    obtain ⟨any, found, ones⟩ := anyMsbLoop_eq (ε := PackedFail σ) inside (j := 0)
      rfl (by simp)
    rw [found, Outcome.ok_bind]
    split
    · rename_i none
      obtain ⟨fill', run, same⟩ := putBytes_eq (ε := PackedFail σ)
        (i := 0) inside (ones none)
      rw [run, Outcome.ok_bind, advance_of_le inside]
      refine ⟨?_, same⟩
      rw [List.length_drop]
      omega
    · exact turnAgrees_stop fill q
  · exact turnAgrees_stop fill q

/-! ## Two-byte elements -/

theorem pairs7_or (x y : BitVec 64) : pairs7 (x ||| y) = pairs7 x ||| pairs7 y := by
  apply BitVec.eq_of_getLsbD_eq
  intro i _
  simp only [pairs7, BitVec.getLsbD_or, BitVec.getLsbD_and, BitVec.getLsbD_ushiftRight]
  grind

theorem half16_or (x y : BitVec 64) (shift : Nat) :
    half16 (x ||| y) shift = half16 x shift ||| half16 y shift := by
  apply BitVec.eq_of_getLsbD_eq
  intro i _
  simp only [half16, BitVec.getLsbD_or, BitVec.getLsbD_setWidth, BitVec.getLsbD_ushiftRight]
  grind

theorem half16_pairs7_byte {k lane : Nat} (inWord : k < 8) (inLane : lane < 4) (b : Byte) :
    half16 (pairs7 (b.setWidth 64 <<< (8 * k))) (16 * lane) =
      if k = 2 * lane then payload7 b else if k = 2 * lane + 1 then payload7 b <<< 7 else 0 := by
  revert b
  interval_cases k <;> interval_cases lane <;> decide +kernel

/-- A 16-bit lane holds the value of the two bytes it came from. -/
theorem half16_pairs7 (q : Cursor) {lane : Nat} (inLane : lane < 4) :
    half16 (pairs7 (wordAt q)) (16 * lane) = gather (q.drop (2 * lane)) 2 := by
  have term := fun (k : Nat) (inWord : k < 8) => half16_pairs7_byte inWord inLane (byteAt q k)
  have first := term 0 (by decide)
  simp only [Nat.mul_zero, BitVec.shiftLeft_zero] at first
  simp only [wordAt, word64, pairs7_or, half16_or]
  rw [first, term 1 (by decide), term 2 (by decide), term 3 (by decide), term 4 (by decide),
    term 5 (by decide), term 6 (by decide), term 7 (by decide)]
  interval_cases lane <;> simp [gather, byteAt_drop]

theorem bulk2Turn_agrees (fill : Fill σ) (q : Cursor) :
    TurnAgrees put span fill q (bulk2Turn put fill q) := by
  rw [bulk2Turn]
  split
  · rename_i inside
    rw [load64_eq inside, Outcome.ok_bind]
    split
    · rename_i pattern
      have flag : ∀ k < 8, terminates (byteAt q k) = decide (k % 2 = 1) := by
        intro k inWord
        have bit := congrArg (fun w => w.getLsbD (8 * k + 7)) pattern
        simp only [BitVec.getLsbD_and] at bit
        rw [getLsbD_wordAt_msb q inWord, getLsbD_kMSB (by omega)] at bit
        interval_cases k <;> simpa using bit
      have stop : ∀ lane < 4, FirstStop (q.drop (2 * lane)) 2 := by
        intro lane inLane
        refine ⟨by decide, by rw [List.length_drop]; omega, fun i first => ?_, ?_⟩
        · obtain rfl : i = 0 := by omega
          rw [byteAt_drop, flag _ (by omega)]
          simp
        · rw [byteAt_drop, flag _ (by omega)]
          simp [Nat.add_mod]
      have step : ∀ lane < 4, ∀ fill, plainFrom put span fill (q.drop (2 * lane)) =
          plainFrom put span (fill.put put (half16 (pairs7 (wordAt q)) (16 * lane)))
            (q.drop (2 * (lane + 1))) := by
        intro lane inLane fill
        rw [plainFrom_put (varint_eq_gather (stop lane inLane) (by decide) nofun),
          half16_pairs7 q inLane, List.drop_drop]
        rfl
      rw [advance_of_le inside]
      refine ⟨by rw [List.length_drop]; omega, ?_⟩
      calc
        _ = _ := (step 3 (by decide) _).symm
        _ = _ := (step 2 (by decide) _).symm
        _ = _ := (step 1 (by decide) _).symm
        _ = _ := (step 0 (by decide) _).symm
    · exact turnAgrees_stop fill q
  · exact turnAgrees_stop fill q

/-! ## Fixed-width elements -/

theorem getLsbD_kOneVarint {width k : Nat} (positive : 0 < width) (wide : width ≤ 8)
    (inWord : k < width) : (kOneVarint width).getLsbD (8 * k + 7) = decide (k + 1 ≠ width) := by
  interval_cases width <;> interval_cases k <;> rfl

/-- The one-varint pattern at a byte offset of the word. -/
theorem firstStop_of_pattern {q : Cursor} {width lead : Nat} (positive : 0 < width)
    (short : lead + width ≤ 8) (inside : 8 ≤ q.length)
    (pattern : ∀ k < width,
      (wordAt q).getLsbD (8 * (lead + k) + 7) = (kOneVarint width).getLsbD (8 * k + 7)) :
    FirstStop (q.drop lead) width := by
  have flag : ∀ k < width, terminates (byteAt q (lead + k)) = decide (k + 1 = width) := by
    intro k inWord
    have bit := pattern k inWord
    rw [getLsbD_wordAt_msb q (by omega), getLsbD_kOneVarint positive (by omega) inWord] at bit
    by_cases last : k + 1 = width <;> simpa [last] using bit
  refine ⟨positive, by rw [List.length_drop]; omega, fun k before => ?_, ?_⟩
  · rw [byteAt_drop, flag k (by omega)]
    simp
    omega
  · rw [byteAt_drop, flag (width - 1) (by omega)]
    simp
    omega

theorem getLsbD_kMsbW {width k : Nat} (wide : width ≤ 8) (inWord : k < width) :
    (kMsbW width).getLsbD (8 * k + 7) = true := by
  rw [kMsbW, BitVec.getLsbD_and, getLsbD_kMSB (by omega), getLsbD_lowByteMask]
  simp
  omega

theorem wordAt_drop_and_lowByteMask (q : Cursor) {lead width : Nat} (short : lead + width ≤ 8) :
    wordAt q >>> (8 * lead) &&& lowByteMask width =
      wordAt (q.drop lead) &&& lowByteMask width := by
  apply BitVec.eq_of_getLsbD_eq
  intro position inside
  rw [BitVec.getLsbD_and, BitVec.getLsbD_and, getLsbD_lowByteMask, BitVec.getLsbD_ushiftRight]
  by_cases kept : position < 8 * width
  · obtain ⟨i, j, inByte, rfl⟩ : ∃ i j, j < 8 ∧ position = 8 * i + j :=
      ⟨position / 8, position % 8, by omega, by omega⟩
    rw [show 8 * lead + (8 * i + j) = 8 * (lead + i) + j by omega,
      getLsbD_wordAt q (by omega) inByte, getLsbD_wordAt _ (by omega) inByte, byteAt_drop]
  · simp [kept]

/-- Of two elements in one word, both show the pattern of one varint. -/
theorem fixedFillTurn_agrees {width : Nat} (positive : 0 < width) (wide : width ≤ 8)
    (fill : Fill σ) (q : Cursor) :
    TurnAgrees put span fill q (fixedFillTurn put width fill q) := by
  rw [fixedFillTurn]
  split
  · rename_i inside
    rw [load64_eq inside, Outcome.ok_bind]
    simp only []
    split
    · rename_i two
      obtain ⟨narrow, pattern⟩ := two
      have bits : ∀ lead, lead = 0 ∨ lead = width → ∀ k < width,
          (wordAt q).getLsbD (8 * (lead + k) + 7) = (kOneVarint width).getLsbD (8 * k + 7) := by
        intro lead side k inWord
        have bit := congrArg (fun w => w.getLsbD (8 * (lead + k) + 7)) pattern
        revert bit
        simp only [BitVec.getLsbD_and, BitVec.getLsbD_or, BitVec.getLsbD_shiftLeft]
        intro bit
        interval_cases width <;> rcases side with rfl | rfl <;> interval_cases k <;>
          simpa [kOneVarint, kMsbW, kMSB, lowByteMask] using bit
      have first := firstStop_of_pattern positive (by omega) inside (bits 0 (.inl rfl))
      have second := firstStop_of_pattern positive (by omega) inside
        (bits width (.inr rfl))
      rw [List.drop_zero] at first
      rw [advance_of_le (by omega), wordAt_drop_and_lowByteMask q (by omega)]
      refine ⟨by rw [List.length_drop]; omega, ?_⟩
      rw [plainFrom_firstStop first wide, plainFrom_firstStop second wide, List.drop_drop,
        ← two_mul]
    · split
      · rename_i pattern
        have first := @firstStop_of_pattern _ _ 0 positive (by omega) inside
          (fun k inWord => by
            have bit := congrArg (fun w => w.getLsbD (8 * k + 7)) pattern
            simpa only [BitVec.getLsbD_and, getLsbD_kMsbW wide inWord, Bool.and_true,
              Nat.zero_add] using bit)
        rw [List.drop_zero] at first
        rw [advance_of_le (by omega)]
        refine ⟨by rw [List.length_drop]; omega, ?_⟩
        exact (plainFrom_firstStop first wide).symm
      · exact turnAgrees_stop fill q
  · exact turnAgrees_stop fill q

theorem compact7_whole (q : Cursor) : compact7 (wordAt q &&& kLow7) = gather q 8 := by
  rw [← compact7_wordAt q le_rfl, show lowByteMask 8 = BitVec.allOnes 64 from rfl,
    BitVec.and_allOnes]

theorem continues_of_kMSB {q : Cursor} (pattern : wordAt q &&& kMSB = kMSB) {k : Nat}
    (inWord : k < 8) : terminates (byteAt q k) = false := by
  have bit := congrArg (fun w => w.getLsbD (8 * k + 7)) pattern
  simp only [BitVec.getLsbD_and] at bit
  rw [getLsbD_wordAt_msb q inWord, getLsbD_kMSB (by omega)] at bit
  simpa using bit

theorem fixedFillWideTurn_agrees {width : Nat} (wide : width = 9 ∨ width = 10) (fill : Fill σ)
    (q : Cursor) : TurnAgrees put span fill q (fixedFillWideTurn put width fill q) := by
  rw [fixedFillWideTurn]
  split
  · rename_i inside
    have eight : 8 ≤ q.length := by omega
    rw [load64_eq eight, Outcome.ok_bind]
    split
    · exact turnAgrees_stop fill q
    rename_i pattern
    have continues := fun k => continues_of_kMSB (not_not.mp pattern) (k := k)
    rw [peek_eq_byteAt (by omega), Outcome.ok_bind, compact7_whole]
    split
    · rename_i nine
      subst nine
      split
      · exact turnAgrees_stop fill q
      rename_i last
      have stop : FirstStop q 9 :=
        ⟨by decide, inside, fun k before => continues k (by omega), by
          simpa [terminates] using last⟩
      rw [advance_of_le inside]
      refine ⟨by rw [List.length_drop]; omega, ?_⟩
      rw [plainFrom_put (varint_eq_gather stop (by decide) nofun)]
      rfl
    · obtain rfl : width = 10 := by omega
      rw [peek_eq_byteAt (by omega), Outcome.ok_bind]
      split
      · exact turnAgrees_stop fill q
      rename_i exactly
      split
      · exact turnAgrees_stop fill q
      rename_i fits
      simp only [not_or, not_not] at exactly
      have last : terminates (byteAt q 9) = true := by simpa [terminates] using exactly.2
      have stop : FirstStop q 10 := by
        refine ⟨by decide, inside, fun k before => ?_, last⟩
        by_cases low : k < 8
        · exact continues k low
        · obtain rfl : k = 8 := by omega
          simpa [terminates] using exactly.1
      rw [advance_of_le inside]
      refine ⟨by rw [List.length_drop]; omega, ?_⟩
      rw [plainFrom_put (varint_eq_gather stop (by decide) fun _ => by omega),
        show gather q 10 = gather q 9 ||| payload7 (byteAt q 9) <<< 63 from rfl,
        payload7_of_terminates last]
      rfl
  · exact turnAgrees_stop fill q

/-! ## Mixed widths -/

theorem swarTurn_agrees (fill : Fill σ) (q : Cursor) :
    TurnAgrees put span fill q (swarTurn put span fill q) := by
  rw [swarTurn]
  split
  · rename_i inside
    refine (readVarintPacked_agrees inside).bind fun got read => ?_
    exact ⟨(varint_takes read).length_lt, (plainFrom_put read).symm⟩
  · exact turnAgrees_stop fill q

/-- The varint that starts at `start` and ends at the next terminator `b` of the block. -/
theorem firstStop_of_next {q : Cursor} {start b : Nat} (inside : b < q.length) (order : start ≤ b)
    (stops : terminates (byteAt q b) = true)
    (between : ∀ i, start ≤ i → i < b → terminates (byteAt q i) = false) :
    FirstStop (q.drop start) (b - start + 1) := by
  refine ⟨by omega, by rw [List.length_drop]; omega, fun i before => ?_, ?_⟩
  · rw [byteAt_drop]
    exact between _ (by omega) (by omega)
  · rw [byteAt_drop, show start + (b - start + 1 - 1) = b by omega]
    exact stops

/-- A varint read in full by the scalar reader ends at its first terminator. -/
theorem varintFrom_rest {q rest : Cursor} {len turns shift : Nat} {result raw : BitVec 64}
    (stop : FirstStop q len) (read : varintFrom turns shift result q = .ok (raw, rest)) :
    rest = q.drop len := by
  induction turns generalizing q len shift result with
  | zero => cases read
  | succ turns ih =>
      obtain ⟨positive, inside, continues, last⟩ := stop
      cases q with
      | nil => simp at inside; omega
      | cons b q =>
          simp only [varintFrom] at read
          split at read
          · cases read
          by_cases single : len = 1
          · subst single
            rw [if_pos (by simpa using last)] at read
            cases read
            rfl
          · obtain ⟨len, rfl⟩ : ∃ l, len = l + 1 := ⟨len - 1, by omega⟩
            have more := continues 0 (by omega)
            rw [byteAt_cons_zero] at more
            rw [if_neg (by simp [more])] at read
            refine ih (q := q) ⟨by omega, by simpa using inside, fun i before => ?_, ?_⟩ read
            · exact continues (i + 1) (by omega)
            · obtain ⟨len, rfl⟩ : ∃ l, len = l + 1 := ⟨len - 1, by omega⟩
              exact last

/-- The invariant over the terminators is that everything before `start` has been delivered. -/
theorem structTurn_agrees (fill : Fill σ) (q : Cursor) :
    TurnAgrees put span fill q (structTurn put span fill q) := by
  rw [structTurn]
  split
  · rename_i inside
    obtain ⟨t, found, bits⟩ := stopmask64_eq (ε := PackedFail σ) (p := q) (by omega)
    rw [found, Outcome.ok_bind]
    split
    · exact turnAgrees_stop fill q
    rename_i nonzero
    refine Outcome.Ends.bind (forBits_ends (fun start state => state.1 = start ∧
      start ≤ 64 ∧ plainFrom put span state.2 (q.drop start) = plainFrom put span fill q)
      ⟨rfl, by omega, rfl⟩ ?_) ?_
    · rintro _ ⟨start, fill'⟩ b ⟨rfl, bound, same⟩ order set between
      simp only [] at bound same order between
      have here := bits b
      rw [set] at here
      have below : b < 64 := by
        by_contra above
        simp [above] at here
      have stops : terminates (byteAt q b) = true := by simpa [below] using here.symm
      have stop := firstStop_of_next (by omega) order stops fun i above before => by
        have bit := bits i
        rw [between i above before] at bit
        simpa [show i < 64 by omega] using bit.symm
      have room : 8 ≤ (q.drop start).length := by rw [List.length_drop]; omega
      have next : (q.drop start).drop (b - start + 1) = q.drop (b + 1) := by
        rw [List.drop_drop, show start + (b - start + 1) = b + 1 by omega]
      simp only [structVisit]
      rw [advance_of_le (by omega), Outcome.ok_bind]
      split
      · rename_i short
        rw [load64_eq room, Outcome.ok_bind]
        refine ⟨rfl, by omega, ?_⟩
        rw [← same, plainFrom_firstStop stop short, next]
      · have reads := @readVarintPacked_agrees _ put span fill' _ room
        rw [same] at reads
        refine reads.bind fun got read => ?_
        refine ⟨rfl, by omega, ?_⟩
        rw [← same, plainFrom_put read, varintFrom_rest stop read, next]
    · rintro ⟨start, fill'⟩ ⟨_, ⟨rfl, bound, same⟩, clear⟩
      simp only [] at bound same clear ⊢
      have moved : 0 < start := by
        rcases Nat.eq_zero_or_pos start with rfl | positive
        · exact absurd (BitVec.eq_of_getLsbD_eq fun i _ => by simpa using clear i (by omega)) nonzero
        · exact positive
      rw [advance_of_le (by omega)]
      refine ⟨?_, same⟩
      rw [List.length_drop]
      omega
  · exact turnAgrees_stop fill q

/-! ## Dispatch -/

theorem packedStrategy_ends {ε : Type} (p : Cursor) :
    (packedStrategy p : Outcome ε PackedKernel).Ends
      (fun kern => ∀ width, kern = .fixed width → 3 ≤ width ∧ width ≤ 10) (fun _ => False) := by
  rw [packedStrategy]
  split
  · exact nofun
  rename_i large
  obtain ⟨stop, found, -⟩ := stopmask64_eq (ε := ε) (p := p) (by
    rw [kPackedKernelMinSpan] at large
    omega)
  rw [found, Outcome.ok_bind]
  split
  · exact nofun
  have scans : (forBits StopScan.visit stop {} : Outcome ε StopScan).Ends _ (fun _ => False) :=
    forBits_ends (fun _ _ => True) trivial fun _ _ _ _ _ _ _ => trivial
  refine scans.bind fun scan _ width chosen => ?_
  split at chosen
  · split at chosen <;> cases chosen
  split at chosen
  · cases chosen
  split at chosen
  · cases chosen
  split at chosen
  · cases chosen
    omega
  · cases chosen

theorem runKernel_agrees {kern : PackedKernel}
    (range : ∀ width, kern = .fixed width → 3 ≤ width ∧ width ≤ 10) (fill : Fill σ) (q : Cursor) :
    Agrees put span fill q (runKernel put span kern fill q) := by
  cases kern with
  | byteLoop => exact ⟨rfl, le_rfl⟩
  | swar => exact runLoop_agrees swarTurn_agrees fill q
  | struct => exact runLoop_agrees structTurn_agrees fill q
  | bulk1 => exact runLoop_agrees bulk1Turn_agrees fill q
  | bulk2 => exact runLoop_agrees bulk2Turn_agrees fill q
  | fixed width =>
      obtain ⟨low, high⟩ := range width rfl
      rw [runKernel]
      split
      · exact runLoop_agrees (fixedFillTurn_agrees (by omega) (by omega)) fill q
      · exact runLoop_agrees (fixedFillWideTurn_agrees (by omega)) fill q

theorem classifyTurn_agrees (fill : Fill σ) (q : Cursor) :
    TurnAgrees put span fill q (classifyTurn put span fill q) := by
  rw [classifyTurn]
  refine ((packedStrategy_ends q).mono (fun _ => id) fun _ => False.elim).bind fun kern range => ?_
  refine (runKernel_agrees range fill q).bind fun reached agreed => ?_
  obtain ⟨fill', q'⟩ := reached
  simp only [] at agreed ⊢
  split
  · exact agreed
  split
  · exact agreed
  · exact ⟨by omega, agreed.1⟩

theorem scalarTurn_safe (fill : Fill σ) (q : Cursor) : (scalarTurn put span fill q).Safe := by
  rw [scalarTurn]
  split
  · rw [readVarint_eq]
    cases varint q with
    | ok got => exact Outcome.safe_ok _
    | error error => exact Outcome.safe_fail _
  · exact Outcome.safe_ok _

theorem plainFrom_safe (fill : Fill σ) (q : Cursor) : (plainFrom put span fill q).Safe :=
  runLoop_safe scalarTurn_consuming scalarTurn_safe fill q

/-- The kernel from any buffer start equals the plain loop from there. -/
theorem decodePackedVarints_eq_plainFrom (p : Cursor) (out : σ) :
    decodePackedVarints put span p out = plainFrom put span ⟨0, out⟩ p := by
  rw [decodePackedVarints]
  split
  · have agrees := @runLoop_agrees _ put span _ classifyTurn_agrees ⟨0, out⟩ p
    cases ran : runLoop (classifyTurn put span) ⟨0, out⟩ p with
    | ok reached => rw [ran] at agrees; exact agrees.1
    | fail failed => rw [ran] at agrees; exact agrees.symm
    | outside => rw [ran] at agrees; exact agrees.elim
    | spin => rw [ran] at agrees; exact agrees.elim
  · rfl

end Kernels

/-! ## The recorded calls -/

/-- The sink that records its calls. -/
def record (calls : List (Nat × BitVec 64)) (index : Nat) (raw : BitVec 64) :
    List (Nat × BitVec 64) :=
  calls ++ [(index, raw)]

/-- The calls so far have the indices `0 .. n - 1`, in order and once each. -/
def InOrder (fill : Fill (List (Nat × BitVec 64))) : Prop :=
  fill.out.map Prod.fst = List.range fill.n

theorem InOrder.put {fill : Fill (List (Nat × BitVec 64))} (ordered : InOrder fill)
    (raw : BitVec 64) : InOrder (fill.put record raw) := by
  simp only [InOrder, Fill.put, record, List.map_append, List.map_cons, List.map_nil,
    List.range_succ] at ordered ⊢
  rw [ordered]

/-- Along the plain loop the recorded calls stay in order and never outnumber the bytes. -/
theorem plainFrom_ordered {span : Nat} {fill : Fill (List (Nat × BitVec 64))} {p : Cursor}
    (ordered : InOrder fill) :
    (plainFrom record span fill p).Ends
      (fun final => InOrder final ∧ final.n ≤ fill.n + p.length)
      (fun failed => ∃ n, failed.out.map Prod.fst = List.range n ∧ n ≤ fill.n + p.length) := by
  refine runLoop_ends (fun fill' q => InOrder fill' ∧ fill'.n + q.length ≤
    fill.n + p.length) (fun fill' q holds => ?_) ⟨ordered, le_rfl⟩
  obtain ⟨ordered', few⟩ := holds
  rw [scalarTurn]
  split
  · rw [readVarint_eq]
    cases read : varint q with
    | error error => exact ⟨fill'.n, ordered', by omega⟩
    | ok got =>
        have shorter := (varint_takes read).length_lt
        refine ⟨shorter, ordered'.put got.1, ?_⟩
        simp only [Fill.put]
        omega
  · exact ⟨ordered', by omega⟩

/-- `decode_packed_varints` is observationally the plain `read_varint` loop.  For every sink the two
give the same count, the same calls, the same error at the same offset; the kernel never leaves the
span and always ends; and the calls carry the indices `0 .. n - 1` in order, `n` at most the length
of the span. -/
theorem decodePackedVarints_eq_small (p : Cursor) :
    (∀ (σ : Type) (put : σ → Nat → BitVec 64 → σ) (out : σ),
      decodePackedVarints put p.length p out = decodePackedVarintsSmall put p out ∧
        (decodePackedVarints put p.length p out).Safe) ∧
    (decodePackedVarints record p.length p []).Ends
      (fun final => final.out.map Prod.fst = List.range final.n ∧ final.n ≤ p.length)
      (fun failed => ∃ n, failed.out.map Prod.fst = List.range n ∧ n ≤ p.length) := by
  constructor
  · intro σ put out
    rw [decodePackedVarints_eq_plainFrom]
    exact ⟨rfl, plainFrom_safe _ _⟩
  · rw [decodePackedVarints_eq_plainFrom]
    have ordered := @plainFrom_ordered p.length ⟨0, []⟩ p rfl
    simpa only [InOrder, Nat.zero_add] using ordered

end RapidProto
