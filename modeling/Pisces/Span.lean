import Mathlib.Algebra.BigOperators.Group.Finset.Basic
import Mathlib.Algebra.Ring.Nat
import Mathlib.Data.List.Nodup

/-! # Spans of a cyclic address space

Runs of consecutive 64-bit addresses.  An address is in a span by its distance
from the start, so that a span may go on past the highest address.
-/

namespace Span

variable {start other address : UInt64} {size length : Nat}

def Within (start : UInt64) (size : Nat) (address : UInt64) : Prop :=
  (address - start).toNat < size

instance (start : UInt64) (size : Nat) (address : UInt64) : Decidable (Within start size address) :=
  inferInstanceAs (Decidable (_ < _))

def addresses (start : UInt64) (size : Nat) : List UInt64 :=
  (List.range size).map fun distance => start + .ofNat distance

def cells (start : UInt64) (size : Nat) : Finset UInt64 :=
  (addresses start size).toFinset

theorem sub_sub (first second third : UInt64) : first - second - third = first - (second + third) := by
  rw [UInt64.sub_eq_iff_eq_add, UInt64.sub_eq_iff_eq_add, UInt64.add_assoc, UInt64.add_comm third, UInt64.sub_add_cancel]

theorem distance_add {distance : Nat} (small : distance < 18446744073709551616) :
    (start + .ofNat distance - start).toNat = distance := by
  rw [UInt64.add_comm, UInt64.add_sub_cancel, UInt64.toNat_ofNat']
  exact Nat.mod_eq_of_lt small

theorem mem_addresses (small : size ≤ 18446744073709551616) :
    address ∈ addresses start size ↔ Within start size address := by
  simp only [addresses, List.mem_map, List.mem_range, Within]
  constructor
  · rintro ⟨distance, bound, rfl⟩
    rwa [distance_add (by omega)]
  · intro bound
    refine ⟨_, bound, ?_⟩
    rw [UInt64.ofNat_toNat, UInt64.add_comm, UInt64.sub_add_cancel]

theorem addresses_nodup (small : size ≤ 18446744073709551616) : (addresses start size).Nodup := by
  apply List.Nodup.map_on _ List.nodup_range
  intro first firstBound second secondBound same
  rw [List.mem_range] at firstBound secondBound
  have left := @distance_add start first (by omega)
  rw [same, distance_add (by omega)] at left
  exact left.symm

theorem mem_cells (small : size ≤ 18446744073709551616) : address ∈ cells start size ↔ Within start size address := by
  rw [cells, List.mem_toFinset, mem_addresses small]

theorem card_cells (small : size ≤ 18446744073709551616) : (cells start size).card = size := by
  rw [cells, List.toFinset_card_of_nodup (addresses_nodup small), addresses, List.length_map, List.length_range]

/-- Two spans meet if one of them starts inside the other. -/
theorem meet_iff (some : 0 < size) (more : 0 < length) :
    (∃ address, Within start size address ∧ Within other length address) ↔
      Within start size other ∨ Within other length start := by
  have startBound := start.toNat_lt
  have otherBound := other.toNat_lt
  simp only [Within, UInt64.toNat_sub] at *
  constructor
  · rintro ⟨address, inside, shared⟩
    have bound := address.toNat_lt
    omega
  · rintro (inside | inside)
    · exact ⟨other, inside, by omega⟩
    · exact ⟨start, by omega, inside⟩

/-- A set is used up by disjoint parts that have as many elements together. -/
theorem exists_mem_of_card {Part Element : Type*} [DecidableEq Element] {parts : Finset Part}
    {elements : Part → Finset Element} {whole : Finset Element}
    (disjoint : Set.PairwiseDisjoint (parts : Set Part) elements)
    (inside : ∀ part ∈ parts, elements part ⊆ whole)
    (count : ∑ part ∈ parts, (elements part).card = whole.card) {element : Element} (member : element ∈ whole) :
    ∃ part ∈ parts, element ∈ elements part := by
  have subset : parts.biUnion elements ⊆ whole := Finset.biUnion_subset.mpr inside
  have card : whole.card ≤ (parts.biUnion elements).card := by
    rw [Finset.card_biUnion disjoint, count]
  rw [← Finset.eq_of_subset_of_card_le subset card] at member
  exact Finset.mem_biUnion.mp member

end Span
