import Mathlib.Data.Int.ModEq
import Mathlib.Tactic.Ring

/-! # Packed data in a byte buffer

Little-endian numbers, the pieces of a buffer, and a buffer that is written from
its start on.
-/

namespace Packed

/-- The low `width` bytes of a number in two's complement, lowest first -/
def le : Nat → Int → List UInt8
  | 0, _ => []
  | width + 1, number => UInt8.ofNat (number % 256).toNat :: le width (number / 256)

def value : List UInt8 → Nat
  | [] => 0
  | byte :: rest => byte.toNat + 256 * value rest

@[simp] theorem le_length (width : Nat) (number : Int) : (le width number).length = width := by
  induction width generalizing number with
  | zero => rfl
  | succ width ih => simp [le, ih]

theorem le_zero (width : Nat) : le width 0 = List.replicate width 0 := by
  induction width with
  | zero => rfl
  | succ width ih => exact congrArg (0 :: ·) ih

theorem value_le {width number : Nat} (bound : number < 256 ^ width) : value (le width number) = number := by
  induction width generalizing number with
  | zero =>
      have zero : number = 0 := by simpa using bound
      simp [le, value, zero]
  | succ width ih =>
      have quotient : number / 256 < 256 ^ width := by
        apply Nat.div_lt_of_lt_mul
        rw [Nat.pow_succ] at bound
        omega
      have low : ((number : Int) % 256).toNat = number % 256 := by omega
      have high : (number : Int) / 256 = ((number / 256 : Nat) : Int) := by omega
      have byte : (UInt8.ofNat (number % 256)).toNat = number % 256 := by
        rw [UInt8.toNat_ofNat']
        omega
      simp only [le, value, low, high, ih quotient, byte]
      omega

/-- `length` bytes from `offset` on -/
def slice (buffer : List UInt8) (offset length : Nat) : List UInt8 := (buffer.drop offset).take length

theorem slice_eq {buffer left part right : List UInt8} {offset length : Nat} (split : buffer = left ++ part ++ right)
    (starts : left.length = offset) (ends : part.length = length) : slice buffer offset length = part := by
  rw [split, ← starts, ← ends]
  simp [slice]

theorem slice_left {left : List UInt8} {width : Nat} (ends : left.length = width) (right : List UInt8) :
    slice (left ++ right) 0 width = left := by
  rw [← ends, slice, List.drop_zero, List.take_left]

theorem slice_right {left : List UInt8} {width : Nat} (starts : left.length = width) (right : List UInt8)
    (offset length : Nat) : slice (left ++ right) (width + offset) length = slice right offset length := by
  rw [← starts, slice, ← List.drop_drop, List.drop_left, slice]

theorem slice_slice {buffer : List UInt8} {offset length inner count : Nat} (within : inner + count ≤ length) :
    slice (slice buffer offset length) inner count = slice buffer (offset + inner) count := by
  simp only [slice, List.drop_take, List.take_take, List.drop_drop]
  rw [Nat.min_eq_left (by omega)]

theorem slice_flatten (parts : List (List UInt8)) {index : Nat} (bound : index < parts.length) :
    slice parts.flatten ((parts.take index).map List.length).sum (parts[index]).length = parts[index] := by
  have split : parts.flatten =
      (parts.take index).flatten ++ parts[index] ++ (parts.drop (index + 1)).flatten := by
    calc parts.flatten = (parts.take index ++ parts.drop index).flatten := by rw [List.take_append_drop]
      _ = _ := by rw [List.flatten_append, List.drop_eq_getElem_cons bound, List.flatten_cons, List.append_assoc]
  exact slice_eq split (by simp [List.length_flatten]) rfl

/-- Overwriting the bytes from `offset` on -/
def overwrite (buffer : List UInt8) (offset : Nat) (bytes : List UInt8) : List UInt8 :=
  buffer.take offset ++ bytes ++ buffer.drop (offset + bytes.length)

theorem getD_overwrite {buffer bytes : List UInt8} {offset index : Nat} (within : offset + bytes.length ≤ buffer.length) :
    (overwrite buffer offset bytes).getD index 0 =
      if offset ≤ index ∧ index < offset + bytes.length then bytes.getD (index - offset) 0 else buffer.getD index 0 := by
  simp only [overwrite, List.getD_eq_getElem?_getD, List.append_assoc, List.getElem?_append, List.getElem?_take,
    List.getElem?_drop, List.length_take]
  rw [Nat.min_eq_left (by omega)]
  by_cases before : index < offset
  · simp only [before, if_true, show ¬ offset ≤ index by omega, false_and, if_false]
  · by_cases inside : index < offset + bytes.length
    · simp only [before, if_false, show index - offset < bytes.length by omega, if_true, inside,
        show offset ≤ index by omega, true_and]
    · simp only [before, if_false, show ¬ index - offset < bytes.length by omega, inside, and_false,
        show offset + bytes.length + (index - offset - bytes.length) = index by omega]

/-- The buffer has `size` bytes: `written` and zeros. -/
def filled (size : Nat) (written : List UInt8) : List UInt8 := written ++ List.replicate (size - written.length) 0

@[simp] theorem filled_length {size : Nat} {written : List UInt8} (bound : written.length ≤ size) :
    (filled size written).length = size := by
  simp only [filled, List.length_append, List.length_replicate]
  omega

/-- Writing goes on where it stopped. -/
theorem overwrite_filled (size : Nat) (written bytes : List UInt8) :
    overwrite (filled size written) written.length bytes = filled size (written ++ bytes) := by
  simp only [overwrite, filled, List.take_left, List.drop_append, List.drop_replicate, List.append_assoc,
    List.length_append]
  have past : written.drop (written.length + bytes.length) = [] := List.drop_eq_nil_of_le (by omega)
  rw [past, List.nil_append]
  congr 3
  omega

theorem filled_full {size : Nat} {written : List UInt8} (full : written.length = size) :
    filled size written = written := by
  simp [filled, full]

end Packed
