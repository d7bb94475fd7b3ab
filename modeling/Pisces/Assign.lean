import Mathlib.Data.List.Nodup
import Mathlib.Logic.Function.Basic

/-! # Assignments in sequence

A store after a list of writes, each of one value to one place.
-/

namespace Assign

variable {Place Value : Type*} [DecidableEq Place] {writes : List (Place × Value)} {store : Place → Value}
  {place : Place} {value : Value}

def assign (store : Place → Value) (writes : List (Place × Value)) : Place → Value :=
  writes.foldl (fun store write => Function.update store write.1 write.2) store

theorem assign_append (store : Place → Value) (first second : List (Place × Value)) :
    assign store (first ++ second) = assign (assign store first) second :=
  List.foldl_append

theorem assign_of_notMem (absent : place ∉ writes.map Prod.fst) : assign store writes place = store place := by
  induction writes generalizing store with
  | nil => rfl
  | cons write rest ih =>
      rw [List.map_cons, List.mem_cons, not_or] at absent
      obtain ⟨other, absent⟩ := absent
      rw [assign, List.foldl_cons]
      exact (ih absent).trans (Function.update_of_ne other _ _)

theorem assign_of_mem (distinct : (writes.map Prod.fst).Nodup) (member : (place, value) ∈ writes) :
    assign store writes place = value := by
  induction writes generalizing store with
  | nil => cases member
  | cons write rest ih =>
      obtain ⟨once, distinct⟩ := List.nodup_cons.mp distinct
      rcases List.mem_cons.mp member with rfl | later
      · have kept : assign (Function.update store place value) rest place = Function.update store place value place :=
          assign_of_notMem once
        rw [Function.update_self] at kept
        exact kept
      · exact ih distinct later

end Assign
