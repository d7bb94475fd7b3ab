import Mathlib.Data.BitVec

/-! # Bit-fields

Reading and assigning the bits of a word from `start` on, as a bit-field of a
struct is read and assigned.
-/

namespace Pisces.Bitfield

variable {size width other : Nat}

def mask (size start width : Nat) : BitVec size :=
  ((BitVec.allOnes width).setWidth size) <<< start

def assign (word : BitVec size) (start : Nat) (value : BitVec width) : BitVec size :=
  (word &&& ~~~mask size start width) ||| (value.setWidth size <<< start)

theorem getLsbD_assign (word : BitVec size) (start : Nat) (value : BitVec width) {index : Nat}
    (inside : index < size) :
    (assign word start value).getLsbD index =
      if start ≤ index ∧ index < start + width then value.getLsbD (index - start) else word.getLsbD index := by
  simp only [assign, mask, BitVec.getLsbD_or, BitVec.getLsbD_and, BitVec.getLsbD_not, BitVec.getLsbD_shiftLeft,
    BitVec.getLsbD_setWidth, BitVec.getLsbD_allOnes, inside, decide_true, Bool.true_and]
  by_cases below : index < start
  · simp [below, Nat.not_le.mpr below]
  · have position : index - start < size := by omega
    by_cases within : index < start + width
    · have inner : index - start < width := by omega
      simp [below, Nat.le_of_not_lt below, within, position, inner]
    · have outer : ¬ index - start < width := by omega
      have zero : value.getLsbD (index - start) = false := BitVec.getLsbD_of_ge value _ (Nat.le_of_not_lt outer)
      simp [below, within, outer, zero]

theorem extract_assign_same (word : BitVec size) (start : Nat) (value : BitVec width)
    (fits : start + width ≤ size) : (assign word start value).extractLsb' start width = value := by
  apply BitVec.eq_of_getLsbD_eq
  intro index bound
  rw [BitVec.getLsbD_extractLsb', getLsbD_assign word start value (by omega), if_pos (by omega)]
  simp [bound]

theorem extract_assign_disjoint (word : BitVec size) (start : Nat) (value : BitVec width) (first : Nat)
    (fits : first + other ≤ size) (disjoint : first + other ≤ start ∨ start + width ≤ first) :
    (assign word start value).extractLsb' first other = word.extractLsb' first other := by
  apply BitVec.eq_of_getLsbD_eq
  intro index bound
  rw [BitVec.getLsbD_extractLsb', BitVec.getLsbD_extractLsb', getLsbD_assign word start value (by omega),
    if_neg (by omega)]

end Pisces.Bitfield
