import Mathlib.Data.List.GetD
import Pisces.Packed

/-! # Memory, byte by byte

Bytes under 64-bit addresses, a range of them overwritten and a word read back.
Addresses are taken relative to a base, where a range that does not reach the
last address is an interval of numbers.
-/

abbrev ByteMemory := UInt64 → UInt8

namespace ByteMemory

variable (memory : ByteMemory)

/-- Writes `data` to the `count` bytes from `address` on. -/
def put (address : UInt64) (count : Nat) (data : Nat → UInt8) : ByteMemory := fun place =>
  if (place - address).toNat < count then data (place - address).toNat else memory place

/-- The eight bytes from `address` on, lowest first -/
def word (address : UInt64) : UInt64 :=
  .ofNat (Packed.value ((List.range 8).map fun index => memory (address + .ofNat index)))

variable {memory}

theorem toNat_sub_base (base : UInt64) {start offset : Nat} (startBound : start ≤ 0x10000000000000000)
    (offsetBound : offset < 0x10000000000000000) :
    (base + .ofNat offset - (base + .ofNat start)).toNat =
      if start ≤ offset then offset - start else offset + 0x10000000000000000 - start := by
  rw [UInt64.toNat_sub, UInt64.toNat_add, UInt64.toNat_add, UInt64.toNat_ofNat', UInt64.toNat_ofNat']
  have bound := base.toNat_lt
  simp only [Nat.reducePow] at bound ⊢
  split <;> omega

/-- `put`, under addresses relative to a base -/
def overlay (start count : Nat) (data rest : Nat → UInt8) : Nat → UInt8 := fun offset =>
  if start ≤ offset ∧ offset < start + count then data (offset - start) else rest offset

theorem put_base (base : UInt64) {start count offset : Nat} (data : Nat → UInt8)
    (fits : start + count ≤ 0x10000000000000000) (bound : offset < 0x10000000000000000) :
    memory.put (base + .ofNat start) count data (base + .ofNat offset) =
      overlay start count data (fun offset => memory (base + .ofNat offset)) offset := by
  rw [put, overlay, toNat_sub_base base (by omega) bound]
  by_cases reached : start ≤ offset
  · have inside : offset - start < count ↔ offset < start + count := by omega
    simp only [reached, if_true, inside, true_and]
  · have outside : ¬ offset + 0x10000000000000000 - start < count := by omega
    simp only [reached, if_false, outside, false_and]

theorem overlay_inside {start count index : Nat} (data rest : Nat → UInt8) (bound : index < count) :
    overlay start count data rest (start + index) = data index := by
  have inside : start ≤ start + index ∧ start + index < start + count := by omega
  rw [overlay, if_pos inside, Nat.add_sub_cancel_left]

theorem overlay_outside {start count offset : Nat} (data rest : Nat → UInt8)
    (outside : offset < start ∨ start + count ≤ offset) : overlay start count data rest offset = rest offset := by
  rw [overlay, if_neg (by omega)]

/-- Writing what is there changes nothing. -/
theorem overlay_same {start count : Nat} {data rest : Nat → UInt8}
    (same : ∀ index < count, data index = rest (start + index)) : overlay start count data rest = rest := by
  funext offset
  by_cases inside : start ≤ offset ∧ offset < start + count
  · rw [overlay, if_pos inside, same _ (by omega), Nat.add_sub_cancel' inside.1]
  · rw [overlay, if_neg inside]

/-- Writing goes on where it stopped. -/
theorem overlay_extend (start count more : Nat) (data rest : Nat → UInt8) :
    overlay (start + count) more (fun index => data (count + index)) (overlay start count data rest) =
      overlay start (count + more) data rest := by
  funext offset
  simp only [overlay]
  by_cases early : offset < start + count
  · simp only [show ¬ start + count ≤ offset by omega, false_and, if_false, early, and_true,
      show offset < start + (count + more) by omega]
  · simp only [show start + count ≤ offset by omega, show ¬ offset < start + count by omega, and_false, if_false,
      true_and, show start ≤ offset by omega, Nat.add_assoc,
      show count + (offset - (start + count)) = offset - start by omega]

/-- Writing to a part of a range that was written -/
theorem overlay_overwrite {start inner : Nat} {bytes data : List UInt8} (rest : Nat → UInt8)
    (within : inner + data.length ≤ bytes.length) :
    overlay (start + inner) data.length (data.getD · 0) (overlay start bytes.length (bytes.getD · 0) rest) =
      overlay start bytes.length ((Packed.overwrite bytes inner data).getD · 0) rest := by
  funext offset
  by_cases inside : start ≤ offset ∧ offset < start + bytes.length
  · obtain ⟨index, rfl⟩ := Nat.exists_eq_add_of_le inside.1
    have bound : index < bytes.length := by omega
    rw [overlay_inside _ _ bound, Packed.getD_overwrite within]
    by_cases written : inner ≤ index ∧ index < inner + data.length
    · have place : start + index = start + inner + (index - inner) := by omega
      rw [if_pos written, place, overlay_inside _ _ (by omega)]
    · rw [if_neg written, overlay_outside _ _ (by omega), overlay_inside _ _ bound]
  · rw [overlay_outside _ _ (by omega), overlay_outside _ _ (by omega), overlay_outside _ _ (by omega)]

theorem word_eq {address number : UInt64}
    (stored : ∀ index < 8, memory (address + .ofNat index) = (Packed.le 8 number.toNat).getD index 0) :
    memory.word address = number := by
  have bytes : ((List.range 8).map fun index => memory (address + .ofNat index)) = Packed.le 8 number.toNat := by
    apply List.ext_getElem
    · simp
    · intro index below inside
      have bound : index < 8 := by simpa using below
      rw [List.getElem_map, List.getElem_range, stored index bound, List.getD_eq_getElem _ _ inside]
  rw [word, bytes, Packed.value_le (by simpa using number.toNat_lt), UInt64.ofNat_toNat]

end ByteMemory
