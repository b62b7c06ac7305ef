import RapidProto.LowestBit
import RapidProto.Wire.Format

/-!
# Varints in a 64-bit word

The word helpers of `swar_detail` and what they compute.  A word loaded from eight bytes carries the
continuation bit of byte `i` at position `8 * i + 7`; once the position of the first terminator is
known, masking the payload bits and compacting them gives the value the byte loop would assemble.
-/

namespace RapidProto

variable {ε : Type}

/-- The most significant bit of each byte. -/
def kMSB : BitVec 64 := 0x8080808080808080

/-- The low seven bits of each byte. -/
def kLow7 : BitVec 64 := 0x7F7F7F7F7F7F7F7F

/-- All bits of the low `count` bytes. -/
def lowByteMask (count : Nat) : BitVec 64 :=
  if 8 ≤ count then ~~~0 else (1#64 <<< (8 * count)) - 1

/-- Eight bytes in little-endian order. -/
def load64 (p : Cursor) : Outcome ε (BitVec 64) := do
  let b0 ← peek p 0
  let b1 ← peek p 1
  let b2 ← peek p 2
  let b3 ← peek p 3
  let b4 ← peek p 4
  let b5 ← peek p 5
  let b6 ← peek p 6
  let b7 ← peek p 7
  .ok (word64 b0 b1 b2 b3 b4 b5 b6 b7)

/-- Count trailing zero bits of a nonzero word. -/
def ctz64 (x : BitVec 64) : Nat := lowestBit x

/-- Gather the low seven bits of each byte. -/
def compact7 (x : BitVec 64) : BitVec 64 :=
  let x := ((x &&& 0x7F007F007F007F00) >>> 1) ||| (x &&& 0x007F007F007F007F)
  let x := ((x &&& 0x3FFF00003FFF0000) >>> 2) ||| (x &&& 0x00003FFF00003FFF)
  ((x &&& 0x0FFFFFFF00000000) >>> 4) ||| (x &&& 0x000000000FFFFFFF)

/-- Gather the most significant bit of each byte. -/
def bytemask8 (w : BitVec 64) : BitVec 64 := ((w &&& kMSB) * 0x0002040810204081) >>> 56

/-- The loop of `stopmask64`; `left` words remain, the next one is word `j`. -/
def stopmask64Loop (p : Cursor) : (left j : Nat) → BitVec 64 → Outcome ε (BitVec 64)
  | 0, _, m => .ok m
  | left + 1, j, m => do
    let q ← advance p (8 * j)
    let w ← load64 q
    stopmask64Loop p left (j + 1) (m ||| bytemask8 (~~~w) <<< (8 * j))

/-- The terminator mask of 64 bytes. -/
def stopmask64 (p : Cursor) : Outcome ε (BitVec 64) := stopmask64Loop p 8 0 0

/-- One packed element, with at least eight readable bytes. -/
def readVarintPacked (p : Cursor) : Outcome WireError (BitVec 64 × Cursor) := do
  let b ← peek p 0
  if b.toNat < 0x80 then do
    let rest ← advance p 1
    .ok (b.setWidth 64, rest)
  else do
    let w ← load64 p
    let stop := ~~~w &&& kMSB
    if stop = 0 then readVarint p
    else do
      let len := (ctz64 stop >>> 3) + 1
      let mask := stop ^^^ (stop - 1)
      let rest ← advance p len
      .ok (compact7 (w &&& mask &&& kLow7), rest)

/-! ## The word at a cursor -/

/-- Byte `i` ahead of the cursor, zero past the end. -/
def byteAt (p : Cursor) (i : Nat) : Byte := p.getD i 0

/-- The word at a cursor. -/
def wordAt (p : Cursor) : BitVec 64 :=
  word64 (byteAt p 0) (byteAt p 1) (byteAt p 2) (byteAt p 3) (byteAt p 4) (byteAt p 5)
    (byteAt p 6) (byteAt p 7)

theorem peek_eq_byteAt {p : Cursor} {i : Nat} (inside : i < p.length) :
    (peek p i : Outcome ε Byte) = .ok (byteAt p i) := by
  simp [peek, byteAt, inside]

theorem byteAt_drop (p : Cursor) (count i : Nat) :
    byteAt (p.drop count) i = byteAt p (count + i) := by
  simp [byteAt, List.getD_eq_getElem?_getD]

@[simp] theorem byteAt_cons_zero (b : Byte) (p : Cursor) : byteAt (b :: p) 0 = b := rfl

theorem load64_eq {p : Cursor} (inside : 8 ≤ p.length) :
    (load64 p : Outcome ε (BitVec 64)) = .ok (wordAt p) := by
  simp only [load64, peek_eq_byteAt (show 0 < p.length by omega),
    peek_eq_byteAt (show 1 < p.length by omega), peek_eq_byteAt (show 2 < p.length by omega),
    peek_eq_byteAt (show 3 < p.length by omega), peek_eq_byteAt (show 4 < p.length by omega),
    peek_eq_byteAt (show 5 < p.length by omega), peek_eq_byteAt (show 6 < p.length by omega),
    peek_eq_byteAt (show 7 < p.length by omega), Outcome.ok_bind]
  rfl

theorem terminates_eq (b : Byte) : terminates b = !b.getLsbD 7 := by
  revert b
  decide

theorem getLsbD_wordAt (p : Cursor) {i j : Nat} (inWord : i < 8) (inByte : j < 8) :
    (wordAt p).getLsbD (8 * i + j) = (byteAt p i).getLsbD j := by
  interval_cases i <;> interval_cases j <;> simp [wordAt, word64]

/-- The continuation bit of byte `i`. -/
theorem getLsbD_wordAt_msb (p : Cursor) {i : Nat} (inWord : i < 8) :
    (wordAt p).getLsbD (8 * i + 7) = !terminates (byteAt p i) := by
  rw [getLsbD_wordAt p inWord (by omega), terminates_eq, Bool.not_not]

theorem getLsbD_kMSB {i : Nat} (inside : i < 64) : kMSB.getLsbD i = decide (i % 8 = 7) := by
  interval_cases i <;> rfl

theorem getLsbD_lowByteMask (count i : Nat) :
    (lowByteMask count).getLsbD i = (decide (i < 64) && decide (i < 8 * count)) := by
  rw [lowByteMask]
  split
  · rename_i all
    rw [show (~~~0 : BitVec 64) = BitVec.allOnes 64 from rfl, BitVec.getLsbD_allOnes]
    by_cases inside : i < 64
    · simp [inside, show i < 8 * count by omega]
    · simp [inside]
  · rename_i few
    have value : ((1#64 <<< (8 * count)) - 1).toNat = 2 ^ (8 * count) - 1 := by
      have small : 2 ^ (8 * count) < 2 ^ 64 := Nat.pow_lt_pow_right (by decide) (by omega)
      have positive := Nat.two_pow_pos (8 * count)
      have shifted : (1#64 <<< (8 * count)).toNat = 2 ^ (8 * count) := by
        rw [BitVec.toNat_shiftLeft, show (1#64).toNat = 1 from rfl, Nat.shiftLeft_eq, one_mul,
          Nat.mod_eq_of_lt small]
      rw [BitVec.toNat_sub_of_le (by rw [BitVec.le_def, shifted]; exact positive), shifted]
      rfl
    rw [BitVec.getLsbD, value, Nat.testBit_two_pow_sub_one]
    by_cases below : i < 8 * count
    · simp [below, show i < 64 by omega]
    · simp [below]

/-! ## The value of a varint in the bytes ahead -/

/-- The payload bits of the first `len` bytes, seven from each. -/
def gather (p : Cursor) : (len : Nat) → BitVec 64
  | 0 => 0
  | len + 1 => gather p len ||| payload7 (byteAt p len) <<< (7 * len)

/-- The first terminator ahead ends a varint of `len` bytes. -/
structure FirstStop (p : Cursor) (len : Nat) : Prop where
  /-- There is at least the terminator. -/
  pos : 0 < len
  /-- The varint lies in the span. -/
  inside : len ≤ p.length
  /-- All earlier bytes continue. -/
  continues : ∀ i, i + 1 < len → terminates (byteAt p i) = false
  /-- The last byte terminates. -/
  last : terminates (byteAt p (len - 1)) = true

/-- The byte loop of a varint whose length is known, from byte `index` on. -/
theorem varintFrom_eq_gather {p : Cursor} {len : Nat} (stop : FirstStop p len)
    (fits : len = 10 → (byteAt p 9).toNat ≤ 1) {turns index : Nat} (before : index < len)
    (enough : turns + index = 10) (short : len ≤ 10) :
    varintFrom turns (7 * index) (gather p index) (p.drop index) =
      .ok (gather p len, p.drop len) := by
  have inside := stop.inside
  induction turns generalizing index with
  | zero => omega
  | succ turns ih =>
      have here : p.drop index = byteAt p index :: p.drop (index + 1) := by
        rw [List.drop_eq_getElem_cons (by omega)]
        simp [byteAt, show index < p.length by omega]
      rw [here, varintFrom, if_neg]
      · by_cases atLast : index + 1 = len
        · have last := stop.last
          rw [show len - 1 = index by omega] at last
          subst atLast
          simp only [last, if_true]
          rfl
        · simp only [stop.continues index (by omega), Bool.false_eq_true, if_false]
          exact @ih (index + 1) (by omega) (by omega)
      · rintro ⟨atTop, large⟩
        obtain rfl : index = 9 := by omega
        have := fits (by omega)
        omega

theorem varint_eq_gather {p : Cursor} {len : Nat} (stop : FirstStop p len) (short : len ≤ 10)
    (fits : len = 10 → (byteAt p 9).toNat ≤ 1) :
    varint p = .ok (gather p len, p.drop len) :=
  varintFrom_eq_gather stop fits stop.pos rfl short

theorem compact7_or (x y : BitVec 64) : compact7 (x ||| y) = compact7 x ||| compact7 y := by
  have stage : ∀ (a b m m' : BitVec 64) (k : Nat),
      (((a ||| b) &&& m) >>> k) ||| ((a ||| b) &&& m') =
        ((a &&& m) >>> k ||| (a &&& m')) ||| ((b &&& m) >>> k ||| (b &&& m')) := by
    intro a b m m' k
    apply BitVec.eq_of_getLsbD_eq
    intro i _
    simp only [BitVec.getLsbD_or, BitVec.getLsbD_and, BitVec.getLsbD_ushiftRight]
    grind
  simp only [compact7, stage]

theorem compact7_byte {k : Nat} (inWord : k < 8) (b : Byte) :
    compact7 ((b.setWidth 64 <<< (8 * k)) &&& kLow7) = payload7 b <<< (7 * k) := by
  revert b
  interval_cases k <;> decide +kernel

theorem byte_and_lowByteMask (b : Byte) (k len : Nat) :
    (b.setWidth 64 <<< (8 * k)) &&& lowByteMask len =
      if k < len then b.setWidth 64 <<< (8 * k) else 0 := by
  apply BitVec.eq_of_getLsbD_eq
  intro i inside
  rw [BitVec.getLsbD_and, getLsbD_lowByteMask, BitVec.getLsbD_shiftLeft]
  split
  · rename_i kept
    by_cases below : i < 8 * len
    · rw [BitVec.getLsbD_shiftLeft]
      simp [below, inside]
    · rw [BitVec.getLsbD_shiftLeft, BitVec.getLsbD_setWidth, BitVec.getLsbD_of_ge b _ (by omega)]
      simp
  · by_cases below : i < 8 * k
    · simp [below]
    · simp [show ¬ i < 8 * len by omega]

/-- The masked and compacted word is the value of the first `len` bytes. -/
theorem compact7_wordAt (p : Cursor) {len : Nat} (short : len ≤ 8) :
    compact7 (wordAt p &&& lowByteMask len &&& kLow7) = gather p len := by
  have term : ∀ (b : Byte) (k : Nat), k < 8 →
      compact7 ((b.setWidth 64 <<< (8 * k)) &&& lowByteMask len &&& kLow7) =
        if k < len then payload7 b <<< (7 * k) else 0 := by
    intro b k inWord
    rw [byte_and_lowByteMask]
    split
    · exact compact7_byte inWord b
    · rfl
  simp only [wordAt, word64, BitVec.and_or_distrib_right, compact7_or]
  have first := term (byteAt p 0) 0 (by decide)
  simp only [Nat.mul_zero, BitVec.shiftLeft_zero] at first
  rw [first, term _ 1 (by decide), term _ 2 (by decide), term _ 3 (by decide),
    term _ 4 (by decide), term _ 5 (by decide), term _ 6 (by decide), term _ 7 (by decide)]
  interval_cases len <;> simp [gather]

/-! ## Terminator masks -/

/-- The word with bit `8 * i + 7` set where the `i`-th flag is. -/
def markWord (t0 t1 t2 t3 t4 t5 t6 t7 : Bool) : BitVec 64 :=
  (if t0 then 0x80 else 0) ||| (if t1 then 0x8000 else 0) ||| (if t2 then 0x800000 else 0) |||
    (if t3 then 0x80000000 else 0) ||| (if t4 then 0x8000000000 else 0) |||
    (if t5 then 0x800000000000 else 0) ||| (if t6 then 0x80000000000000 else 0) |||
    (if t7 then 0x8000000000000000 else 0)

theorem getLsbD_markWord (t0 t1 t2 t3 t4 t5 t6 t7 : Bool) {i j : Nat} (inWord : i < 8)
    (inByte : j < 8) :
    (markWord t0 t1 t2 t3 t4 t5 t6 t7).getLsbD (8 * i + j) =
      (decide (j = 7) && [t0, t1, t2, t3, t4, t5, t6, t7].getD i false) := by
  revert t0 t1 t2 t3 t4 t5 t6 t7
  interval_cases i <;> interval_cases j <;> decide +kernel

theorem markWord_mul (t0 t1 t2 t3 t4 t5 t6 t7 : Bool) (i : Nat) (inside : i < 64) :
    ((markWord t0 t1 t2 t3 t4 t5 t6 t7 * 0x0002040810204081) >>> 56).getLsbD i =
      [t0, t1, t2, t3, t4, t5, t6, t7].getD i false := by
  revert t0 t1 t2 t3 t4 t5 t6 t7
  interval_cases i <;> decide +kernel

theorem not_wordAt_and_kMSB (p : Cursor) :
    ~~~wordAt p &&& kMSB =
      markWord (terminates (byteAt p 0)) (terminates (byteAt p 1)) (terminates (byteAt p 2))
        (terminates (byteAt p 3)) (terminates (byteAt p 4)) (terminates (byteAt p 5))
        (terminates (byteAt p 6)) (terminates (byteAt p 7)) := by
  apply BitVec.eq_of_getLsbD_eq
  intro position inside
  obtain ⟨i, j, inWord, inByte, rfl⟩ : ∃ i j, i < 8 ∧ j < 8 ∧ position = 8 * i + j :=
    ⟨position / 8, position % 8, by omega, by omega, by omega⟩
  rw [getLsbD_markWord _ _ _ _ _ _ _ _ inWord inByte, BitVec.getLsbD_and, BitVec.getLsbD_not,
    getLsbD_wordAt p inWord inByte, getLsbD_kMSB inside, decide_eq_true inside, Bool.true_and,
    show (8 * i + j) % 8 = j by omega, Bool.and_comm]
  by_cases top : j = 7
  · subst top
    rw [← terminates_eq]
    interval_cases i <;> rfl
  · simp [top]

/-- The bits of `~w & kMSB`: one at the top of each terminating byte. -/
theorem getLsbD_not_wordAt_and_kMSB (p : Cursor) {i j : Nat} (inWord : i < 8) (inByte : j < 8) :
    (~~~wordAt p &&& kMSB).getLsbD (8 * i + j) =
      (decide (j = 7) && terminates (byteAt p i)) := by
  rw [not_wordAt_and_kMSB, getLsbD_markWord _ _ _ _ _ _ _ _ inWord inByte]
  interval_cases i <;> rfl

theorem getLsbD_bytemask8 (p : Cursor) (i : Nat) :
    (bytemask8 (~~~wordAt p)).getLsbD i = (decide (i < 8) && terminates (byteAt p i)) := by
  by_cases inside : i < 64
  · rw [bytemask8, not_wordAt_and_kMSB, markWord_mul _ _ _ _ _ _ _ _ i inside]
    by_cases inWord : i < 8
    · rw [decide_eq_true inWord]
      interval_cases i <;> rfl
    · simp [inWord]
  · rw [BitVec.getLsbD_of_ge _ _ (by omega), decide_eq_false (by omega), Bool.false_and]

/-- The mask assembled from the first `8 * j` bytes. -/
theorem stopmask64Loop_ends {p : Cursor} (inside : 64 ≤ p.length) {left j : Nat} {m : BitVec 64}
    (total : left + j = 8)
    (soFar : ∀ i, m.getLsbD i = (decide (i < 8 * j) && terminates (byteAt p i))) :
    ∃ mask, (stopmask64Loop p left j m : Outcome ε (BitVec 64)) = .ok mask ∧
      ∀ i, mask.getLsbD i = (decide (i < 64) && terminates (byteAt p i)) := by
  induction left generalizing j m with
  | zero =>
      obtain rfl : j = 8 := by omega
      exact ⟨m, rfl, soFar⟩
  | succ left ih =>
      rw [stopmask64Loop, advance_of_le (by omega), Outcome.ok_bind,
        load64_eq (by rw [List.length_drop]; omega), Outcome.ok_bind]
      refine ih (by omega) fun i => ?_
      rw [BitVec.getLsbD_or, soFar, BitVec.getLsbD_shiftLeft, getLsbD_bytemask8, byteAt_drop]
      by_cases before : i < 8 * j
      · simp [before, show i < 8 * (j + 1) by omega]
      · rw [show 8 * j + (i - 8 * j) = i by omega]
        by_cases here : i < 8 * (j + 1)
        · simp [before, here, show i < 64 by omega, show i - 8 * j < 8 by omega]
        · simp [before, here, show ¬ i - 8 * j < 8 by omega]

theorem stopmask64_eq {p : Cursor} (inside : 64 ≤ p.length) :
    ∃ mask, (stopmask64 p : Outcome ε (BitVec 64)) = .ok mask ∧
      ∀ i, mask.getLsbD i = (decide (i < 64) && terminates (byteAt p i)) :=
  stopmask64Loop_ends inside rfl (by simp)

/-! ## The word-at-a-time reader -/

/-- The first set bit of `~w & kMSB` is the top of the first terminating byte. -/
theorem firstStop_of_ne_zero {p : Cursor} (inside : 8 ≤ p.length)
    (nonzero : ~~~wordAt p &&& kMSB ≠ 0) :
    ∃ len, len ≤ 8 ∧ lowestBit (~~~wordAt p &&& kMSB) + 1 = 8 * len ∧ FirstStop p len := by
  set stop := ~~~wordAt p &&& kMSB with stopIs
  have below := lowestBit_lt nonzero
  have set := getLsbD_lowestBit nonzero
  have bit : ∀ i j, i < 8 → j < 8 →
      stop.getLsbD (8 * i + j) = (decide (j = 7) && terminates (byteAt p i)) :=
    fun i j => getLsbD_not_wordAt_and_kMSB p
  obtain ⟨i, j, inWord, inByte, position⟩ : ∃ i j, i < 8 ∧ j < 8 ∧ lowestBit stop = 8 * i + j :=
    ⟨lowestBit stop / 8, lowestBit stop % 8, by omega, by omega, by omega⟩
  rw [position, bit i j inWord inByte, Bool.and_eq_true, decide_eq_true_eq] at set
  refine ⟨i + 1, by omega, by omega, by omega, by omega, fun k before => ?_, set.2⟩
  have earlier := getLsbD_of_lt_lowestBit (x := stop) (i := 8 * k + 7) (by omega)
  rw [bit k 7 (by omega) (by omega)] at earlier
  simpa using earlier

theorem readVarintPacked_eq {p : Cursor} (inside : 8 ≤ p.length) :
    readVarintPacked p = .ofExcept (varint p) := by
  rw [readVarintPacked, peek_eq_byteAt (by omega), Outcome.ok_bind]
  split
  · rename_i small
    obtain ⟨b, rest, rfl⟩ : ∃ b rest, p = b :: rest := List.exists_cons_of_length_pos (by omega)
    rw [byteAt_cons_zero] at small
    rw [varint_of_terminates (terminates_iff.mpr small), advance_cons_one]
    rfl
  · rw [load64_eq inside, Outcome.ok_bind]
    simp only []
    split
    · exact readVarint_eq p
    · rename_i nonzero
      obtain ⟨len, short, position, stop⟩ := firstStop_of_ne_zero inside nonzero
      have mask : (~~~wordAt p &&& kMSB) ^^^ ((~~~wordAt p &&& kMSB) - 1) = lowByteMask len := by
        apply BitVec.eq_of_getLsbD_eq
        intro i inWord
        rw [getLsbD_xor_sub_one nonzero, getLsbD_lowByteMask, decide_eq_true inWord, Bool.true_and]
        congr 1
        rw [eq_iff_iff]
        omega
      have length : ctz64 (~~~wordAt p &&& kMSB) >>> 3 + 1 = len := by
        rw [ctz64, Nat.shiftRight_eq_div_pow]
        have := stop.pos
        omega
      rw [mask, length, compact7_wordAt p short, advance_of_le stop.inside,
        varint_eq_gather stop (by omega) (by omega)]
      rfl

end RapidProto
