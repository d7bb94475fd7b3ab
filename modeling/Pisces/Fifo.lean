import Mathlib.Data.List.Range
import Pisces.Transition

/-! # Bounded queues

A bounded first-in first-out queue as a system with the answers it gave, and the
view of a circular memory as such a queue.
-/

namespace Fifo

open Transition

variable {Item : Type*}

inductive Call (Item : Type*) where
  | write (items : List Item)
  | read (count : Nat)

inductive Answer (Item : Type*) where
  | refused
  | written
  | delivered (items : List Item)
  deriving DecidableEq

/-- A call succeeds as a whole or changes nothing. -/
def serve (capacity : Nat) (queue : List Item) : Call Item → Answer Item × List Item
  | .write items =>
      if items.length ≤ capacity - queue.length then (.written, queue ++ items) else (.refused, queue)
  | .read count =>
      if count ≤ queue.length then (.delivered (queue.take count), queue.drop count) else (.refused, queue)

/-- A queue with the answers it has given, newest first. -/
structure Session (Item : Type*) where
  queue : List Item
  answers : List (Answer Item)

def system (capacity : Nat) : System (Session Item) (Call Item) where
  initial session := session.queue = [] ∧ session.answers = []
  step session call :=
    some ⟨(serve capacity session.queue call).2, (serve capacity session.queue call).1 :: session.answers⟩

/-- Consecutive cells of a memory. -/
def slice (memory : Nat → Item) (start count : Nat) : List Item :=
  (List.range count).map fun index => memory (start + index)

/-- Consecutive cells of a circular memory. -/
def window (memory : Nat → Item) (capacity start count : Nat) : List Item :=
  (List.range count).map fun index => memory ((start + index) % capacity)

variable {memory other : Nat → Item} {capacity start count : Nat}

@[simp] theorem slice_length : (slice memory start count).length = count := by
  simp [slice]

@[simp] theorem window_length : (window memory capacity start count).length = count := by
  simp [window]

theorem slice_succ (memory : Nat → Item) (start count : Nat) :
    slice memory start (count + 1) = slice memory start count ++ [memory (start + count)] := by
  simp only [slice, List.range_succ, List.map_append, List.map_cons, List.map_nil]

theorem window_append (memory : Nat → Item) (capacity start first second : Nat) :
    window memory capacity start (first + second) =
      window memory capacity start first ++ window memory capacity (start + first) second := by
  simp [window, List.range_add, Nat.add_assoc]

theorem window_congr {otherStart : Nat}
    (same : ∀ index < count, memory ((start + index) % capacity) = other ((otherStart + index) % capacity)) :
    window memory capacity start count = window other capacity otherStart count := by
  apply List.map_congr_left
  intro index member
  exact same index (List.mem_range.mp member)

theorem window_eq_slice {otherStart : Nat}
    (same : ∀ index < count, memory ((start + index) % capacity) = other (otherStart + index)) :
    window memory capacity start count = slice other otherStart count := by
  apply List.map_congr_left
  intro index member
  exact same index (List.mem_range.mp member)

theorem window_wrap {rest : Nat} (bounded : start ≤ capacity) (once : rest ≤ capacity) :
    window memory capacity start (capacity - start + rest) =
      slice memory start (capacity - start) ++ slice memory 0 rest := by
  rw [window_append]
  congr 1
  · apply window_eq_slice
    intro index inside
    rw [Nat.mod_eq_of_lt (by omega)]
  · apply window_eq_slice
    intro index inside
    have wrapped : start + (capacity - start) + index = capacity + index := by omega
    rw [wrapped, Nat.add_mod_left, Nat.mod_eq_of_lt (by omega), Nat.zero_add]

theorem window_take {taken : Nat} (bounded : taken ≤ count) :
    (window memory capacity start count).take taken = window memory capacity start taken := by
  obtain ⟨rest, rfl⟩ := Nat.exists_eq_add_of_le bounded
  rw [window_append]
  exact List.take_left' window_length

theorem window_drop {dropped : Nat} (bounded : dropped ≤ count) :
    (window memory capacity start count).drop dropped =
      window memory capacity (start + dropped) (count - dropped) := by
  obtain ⟨rest, rfl⟩ := Nat.exists_eq_add_of_le bounded
  rw [window_append, Nat.add_sub_cancel_left]
  exact List.drop_left' window_length

end Fifo
