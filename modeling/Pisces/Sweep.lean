import Mathlib.Data.List.Basic

/-! # Sweeping a range of positions

Loops that move a position by the same amount with every entry and report items
on the way, nested to any depth, and the lookup of a position among the items.
-/

namespace Sweep

variable {Position Item Answer : Type*}

structure State (Position Item : Type*) where
  position : Position
  items : List Item

/-- `body` moves over `size` positions and reports what `out` says of the entry
and of the position it starts at. -/
def Sweeps (place : Nat → Position) (body : State Position Item → Nat → State Position Item) (size : Nat)
    (out : Nat → Nat → List Item) : Prop :=
  ∀ start items index, body ⟨place start, items⟩ index = ⟨place (start + size), items ++ out index start⟩

/-- The items of `count` entries, one behind the other -/
def collect (size : Nat) (out : Nat → Nat → List Item) (count start : Nat) : List Item :=
  (List.range count).flatMap fun index => out index (start + index * size)

/-- The answer for a target is found in the entry that the target lies in. -/
def Locates (shows : Item → Nat → Answer → Prop) (limit size : Nat) (out : Nat → Nat → List Item)
    (find : Nat → Nat → Option Answer) : Prop :=
  ∀ index start target answer, size ∣ start → start + size ≤ limit →
    ((∃ item ∈ out index start, shows item target answer) ↔
      start ≤ target ∧ target < start + size ∧ find index target = some answer)

variable {place : Nat → Position} {body : State Position Item → Nat → State Position Item} {limit size count : Nat}
  {out : Nat → Nat → List Item} {shows : Item → Nat → Answer → Prop} {find : Nat → Nat → Option Answer}

theorem Sweeps.loop (sweeps : Sweeps place body size out) (count start : Nat) (items : List Item) :
    (List.range count).foldl body ⟨place start, items⟩ =
      ⟨place (start + count * size), items ++ collect size out count start⟩ := by
  induction count with
  | zero => simp [collect]
  | succ count ih =>
      have next : start + (count + 1) * size = start + count * size + size := by
        rw [Nat.add_mul, Nat.one_mul, Nat.add_assoc]
      rw [List.range_succ, List.foldl_append, ih, List.foldl_cons, List.foldl_nil, sweeps, next, collect, collect,
        List.range_succ, List.flatMap_append, List.flatMap_singleton, List.append_assoc]

theorem mem_collect {start : Nat} {item : Item} :
    item ∈ collect size out count start ↔ ∃ index < count, item ∈ out index (start + index * size) := by
  simp [collect]

/-- The entry that a target lies in, by its position -/
theorem index_eq {start target index : Nat} (aligned : count * size ∣ start) (bound : index < count)
    (lower : start + index * size ≤ target) (upper : target < start + index * size + size) :
    target / size % count = index := by
  obtain ⟨quotient, rfl⟩ := aligned
  have divided : target / size = count * quotient + index := by
    apply Nat.div_eq_of_lt_le
    · calc
        (count * quotient + index) * size = count * size * quotient + index * size := by
          rw [Nat.add_mul, Nat.mul_right_comm]
        _ ≤ target := lower
    · calc
        target < count * size * quotient + index * size + size := upper
        _ = (count * quotient + index + 1) * size := by
          rw [Nat.add_mul, Nat.add_mul, Nat.mul_right_comm, Nat.one_mul]
  rw [divided, Nat.mul_add_mod, Nat.mod_eq_of_lt bound]

theorem within_entry {start target : Nat} (positive : 0 < size) (lower : start ≤ target)
    (upper : target < start + count * size) :
    ∃ index < count, start + index * size ≤ target ∧ target < start + index * size + size := by
  have room : target - start < count * size := by omega
  have split := Nat.div_add_mod (target - start) size
  have remainder := Nat.mod_lt (target - start) positive
  rw [Nat.mul_comm] at split
  exact ⟨(target - start) / size, Nat.div_lt_of_lt_mul (by rwa [Nat.mul_comm] at room), by omega, by omega⟩

/-- Looking up the entry by the position of the target finds what the sweep
reports around it. -/
theorem Locates.collect (locates : Locates shows limit size out find) (positive : 0 < size)
    (count start target : Nat) (answer : Answer) (aligned : count * size ∣ start) (fits : start + count * size ≤ limit) :
    (∃ item ∈ Sweep.collect size out count start, shows item target answer) ↔
      start ≤ target ∧ target < start + count * size ∧ find (target / size % count) target = some answer := by
  have entry {index : Nat} (bound : index < count) :
      (∃ item ∈ out index (start + index * size), shows item target answer) ↔
        start + index * size ≤ target ∧ target < start + index * size + size ∧ find index target = some answer := by
    have room : (index + 1) * size ≤ count * size := Nat.mul_le_mul_right size bound
    rw [Nat.add_mul, Nat.one_mul] at room
    refine locates index _ target answer ?_ (by omega)
    exact Nat.dvd_add (Nat.dvd_trans (Nat.dvd_mul_left size count) aligned) (Nat.dvd_mul_left size index)
  constructor
  · rintro ⟨item, member, shown⟩
    obtain ⟨index, bound, member⟩ := mem_collect.mp member
    obtain ⟨lower, upper, found⟩ := (entry bound).mp ⟨item, member, shown⟩
    have room : (index + 1) * size ≤ count * size := Nat.mul_le_mul_right size bound
    rw [Nat.add_mul, Nat.one_mul] at room
    refine ⟨by omega, by omega, ?_⟩
    rw [index_eq aligned bound lower upper, found]
  · intro ⟨lower, upper, found⟩
    obtain ⟨index, bound, inside, below⟩ := within_entry positive lower upper
    rw [index_eq aligned bound inside below] at found
    obtain ⟨item, member, shown⟩ := (entry bound).mpr ⟨inside, below, found⟩
    exact ⟨item, mem_collect.mpr ⟨index, bound, member⟩, shown⟩

end Sweep
