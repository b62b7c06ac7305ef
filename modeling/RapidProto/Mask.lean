import Mathlib.Logic.Function.Basic

/-!
# Bit masks in words

A mask is one machine word, or an array of 64-bit words where a single word is too small.  Setting,
clearing and testing a bit go through a shifted one; on the bits a mask has room for they are the
pointwise update and the lookup of a function from indices to booleans.
-/

namespace RapidProto

/-- The stored form of a mask. -/
inductive Mask where
  /-- One unsigned word of the given number of bytes. -/
  | word (bytes : Nat) (value : BitVec (8 * bytes))
  /-- An array of 64-bit words. -/
  | array (words : List (BitVec 64))

namespace Mask

/-- The number of bits there is room for. -/
def capacity : Mask → Nat
  | word bytes _ => 8 * bytes
  | array words => 64 * words.length

/-- `mask_word_one`: the word with only the given bit set. -/
def wordOne (w bit : Nat) : BitVec w := 1#w <<< bit

/-- `mask & (one << bit)`. -/
def test : Mask → Nat → Bool
  | word _ value, bit => value &&& wordOne _ bit != 0
  | array words, bit => words.getD (bit / 64) 0 &&& wordOne _ (bit % 64) != 0

/-- `mask |= one << bit`. -/
def set : Mask → Nat → Mask
  | word bytes value, bit => word bytes (value ||| wordOne _ bit)
  | array words, bit => array (words.modify (bit / 64) fun value => value ||| wordOne _ (bit % 64))

/-- `mask &= ~(one << bit)`. -/
def clear : Mask → Nat → Mask
  | word bytes value, bit => word bytes (value &&& ~~~(wordOne _ bit))
  | array words, bit =>
    array (words.modify (bit / 64) fun value => value &&& ~~~(wordOne _ (bit % 64)))

/-- The mask of the given size with every bit clear. -/
def ofSize (bytes : Nat) : Mask :=
  if 8 < bytes then array (List.replicate (bytes / 8) 0) else word bytes 0

variable {w : Nat}

theorem wordOne_getLsbD (bit other : Nat) :
    (wordOne w bit).getLsbD other = (decide (bit < w) && decide (bit = other)) := by
  rw [wordOne, ← BitVec.twoPow_eq, BitVec.getLsbD_twoPow]

/-- The test of a word looks at one bit. -/
theorem word_test (value : BitVec w) (bit : Nat) :
    (value &&& wordOne w bit != 0) = value.getLsbD bit := by
  have masked := BitVec.and_twoPow value bit
  rw [BitVec.twoPow_eq, ← wordOne] at masked
  cases held : value.getLsbD bit with
  | false => simp [masked, held]
  | true =>
      have one := @wordOne_getLsbD w bit bit
      simp only [BitVec.lt_of_getLsbD held, decide_true, Bool.and_self] at one
      rw [masked, if_pos held, bne_iff_ne]
      intro zero
      simp [zero] at one

theorem word_set (value : BitVec w) {bit : Nat} (inside : bit < w) (other : Nat) :
    (value ||| wordOne _ bit).getLsbD other = Function.update value.getLsbD bit true other := by
  rw [BitVec.getLsbD_or, wordOne_getLsbD]
  by_cases same : other = bit
  · simp [same, inside]
  · simp [Function.update_of_ne same, Ne.symm same]

theorem word_clear (value : BitVec w) (bit other : Nat) :
    (value &&& ~~~(wordOne _ bit)).getLsbD other = Function.update value.getLsbD bit false other := by
  rw [BitVec.getLsbD_and, BitVec.getLsbD_not, wordOne_getLsbD]
  by_cases same : other = bit
  · subst same
    by_cases inside : other < w <;> simp [inside]
  · rw [Function.update_of_ne same]
    by_cases inside : other < w
    · simp [inside, Ne.symm same]
    · simp [BitVec.getLsbD_of_ge value other (by omega)]

/-- Changing one word of an array changes the tested bits as the word's own bits change. -/
theorem array_modify {words : List (BitVec 64)} {bit : Nat} (inside : bit < 64 * words.length)
    {change : BitVec 64 → BitVec 64} {held : Bool}
    (changes : ∀ value other, (change value).getLsbD other =
      Function.update value.getLsbD (bit % 64) held other) (other : Nat) :
    (array (words.modify (bit / 64) change)).test other =
      Function.update (array words).test bit held other := by
  have room : bit / 64 < words.length := by omega
  simp only [test, word_test]
  by_cases sameWord : other / 64 = bit / 64
  · rw [sameWord, List.getD_eq_getElem?_getD, List.getElem?_modify_eq, List.getElem?_eq_getElem room,
      Option.map_eq_map, Option.map_some, Option.getD_some, changes]
    by_cases same : other = bit
    · subst same
      simp
    · have differ : other % 64 ≠ bit % 64 := by omega
      rw [Function.update_of_ne differ, Function.update_of_ne same, test, word_test, sameWord,
        List.getD_eq_getElem?_getD, List.getElem?_eq_getElem room, Option.getD_some]
  · have same : other ≠ bit := by
      rintro rfl
      exact sameWord rfl
    rw [Function.update_of_ne same, test, word_test, List.getD_eq_getElem?_getD,
      List.getD_eq_getElem?_getD, List.getElem?_modify_ne _ _ (Ne.symm sameWord)]

/-- Setting a bit is the pointwise update. -/
theorem test_set {mask : Mask} {bit : Nat} (inside : bit < mask.capacity) :
    (mask.set bit).test = Function.update mask.test bit true := by
  funext other
  cases mask with
  | word bytes value =>
      rw [set, test, word_test, word_set value inside]
      by_cases same : other = bit
      · simp [same]
      · simp only [Function.update_of_ne same, test, word_test]
  | array words =>
      exact array_modify inside (fun value => word_set value (Nat.mod_lt _ (by decide))) other

/-- Clearing a bit is the pointwise update. -/
theorem test_clear {mask : Mask} {bit : Nat} (inside : bit < mask.capacity) :
    (mask.clear bit).test = Function.update mask.test bit false := by
  funext other
  cases mask with
  | word bytes value =>
      rw [clear, test, word_test, word_clear]
      by_cases same : other = bit
      · simp [same]
      · simp only [Function.update_of_ne same, test, word_test]
  | array words => exact array_modify inside (fun value => word_clear value _) other

@[simp] theorem capacity_set (mask : Mask) (bit : Nat) : (mask.set bit).capacity = mask.capacity := by
  cases mask <;> simp [set, capacity]

@[simp] theorem capacity_clear (mask : Mask) (bit : Nat) :
    (mask.clear bit).capacity = mask.capacity := by
  cases mask <;> simp [clear, capacity]

/-- A fresh mask has eight bits a byte, where the array form is a whole number of words. -/
theorem capacity_ofSize {bytes : Nat} (whole : 8 < bytes → bytes % 8 = 0) :
    (ofSize bytes).capacity = 8 * bytes := by
  rw [ofSize]
  split
  · rename_i large
    have := whole large
    simp only [capacity, List.length_replicate]
    omega
  · rfl

end Mask
end RapidProto
