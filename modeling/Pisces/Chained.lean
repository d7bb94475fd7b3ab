import Mathlib.Data.List.Flatten
import Mathlib.Data.List.Nodup

/-! # Chained tables

A table of chains in which a placement function says to which chain an element
belongs.  What a table holds is the concatenation of its chains.
-/

namespace Chained

variable {Element : Type*} {place : Element → Nat} {accepts : Element → Bool}
  {table : List (List Element)} {element : Element} {index : Nat}

/-- Every element is in its own chain. -/
def Placed (place : Element → Nat) (table : List (List Element)) : Prop :=
  ∀ index chain, table[index]? = some chain → ∀ element ∈ chain, place element = index

/-- Puts an element at the head of its chain. -/
def push (place : Element → Nat) (table : List (List Element)) (element : Element) :
    List (List Element) :=
  table.modify (place element) (element :: ·)

/-- Moves every element into a new table, in order. -/
def rehash (place : Element → Nat) (size : Nat) (table : List (List Element)) : List (List Element) :=
  table.flatten.foldl (push place) (List.replicate size [])

/-- Takes the first accepted element out of a chain. -/
def pop (accepts : Element → Bool) (index : Nat) (table : List (List Element)) : List (List Element) :=
  table.modify index (·.eraseP accepts)

/-- Changes the first element of a chain that can be changed. -/
def amend (change : Element → Option Element) (index : Nat) (table : List (List Element)) : List (List Element) :=
  table.modify index (·.replaceF change)

theorem placed_replicate (size : Nat) : Placed place (List.replicate size []) := by
  intro index chain found element member
  have empty : chain = [] := List.eq_of_mem_replicate (List.mem_of_getElem? found)
  rw [empty] at member
  cases member

@[simp] theorem push_length : (push place table element).length = table.length := by
  simp [push]

theorem Placed.push (placed : Placed place table) (element : Element) :
    Placed place (push place table element) := by
  intro index chain found other member
  rw [Chained.push, List.getElem?_modify] at found
  obtain ⟨older, present, rfl⟩ := Option.map_eq_some_iff.mp found
  by_cases here : place element = index
  · simp only [here, if_true, List.mem_cons] at member
    rcases member with rfl | member
    · exact here
    · exact placed index older present other member
  · simp only [here, if_false] at member
    exact placed index older present other member

theorem Placed.pop (placed : Placed place table) : Placed place (pop accepts index table) := by
  intro position chain found other member
  rw [Chained.pop, List.getElem?_modify] at found
  obtain ⟨older, present, rfl⟩ := Option.map_eq_some_iff.mp found
  split at member
  · exact placed position older present other (List.mem_of_mem_eraseP member)
  · exact placed position older present other member

theorem push_perm (fits : place element < table.length) :
    (push place table element).flatten.Perm (element :: table.flatten) := by
  unfold push
  generalize place element = index at fits
  induction table generalizing index with
  | nil => cases fits
  | cons chain rest ih =>
      cases index with
      | zero => simp
      | succ index =>
          have inner := ih index (Nat.lt_of_succ_lt_succ fits)
          simp only [List.modify_succ_cons, List.flatten_cons]
          exact (inner.append_left chain).trans List.perm_middle

/-- If the table holds an accepted element, one is taken out, once. -/
theorem pop_perm (here : ∀ other, accepts other = true → place other = index)
    (accepted : accepts element = true) (placed : Placed place table)
    (member : element ∈ table.flatten) :
    ∃ taken, accepts taken = true ∧ (taken :: (pop accepts index table).flatten).Perm table.flatten := by
  obtain ⟨chain, present, inside⟩ := List.mem_flatten.mp member
  obtain ⟨position, found⟩ := List.getElem?_of_mem present
  have same : position = index := (placed position chain found element inside).symm.trans (here element accepted)
  subst same
  clear placed present member here
  unfold pop
  induction table generalizing position with
  | nil => simp at found
  | cons first rest ih =>
      cases position with
      | zero =>
          cases found
          obtain ⟨taken, before, after, _, yes, split, removed⟩ := List.exists_of_eraseP inside accepted
          refine ⟨taken, yes, ?_⟩
          simp only [List.modify_zero_cons, List.flatten_cons, removed]
          rw [split]
          simp only [List.append_assoc, List.cons_append]
          exact List.perm_middle.symm
      | succ position =>
          obtain ⟨taken, yes, inner⟩ := ih position (by simpa using found)
          refine ⟨taken, yes, ?_⟩
          simp only [List.modify_succ_cons, List.flatten_cons]
          exact List.perm_middle.symm.trans (inner.append_left first)

section Amend

variable {change : Element → Option Element}

theorem Placed.amend (placed : Placed place table)
    (stays : ∀ element changed, change element = some changed → place changed = place element) :
    Placed place (amend change index table) := by
  intro position chain found other member
  rw [Chained.amend, List.getElem?_modify] at found
  obtain ⟨older, present, rfl⟩ := Option.map_eq_some_iff.mp found
  split at member
  · rcases List.exists_or_eq_self_of_replaceF change older with same |
      ⟨taken, changed, before, after, _, yes, split, replaced⟩
    · rw [same] at member
      exact placed position older present other member
    · rw [replaced] at member
      rw [split] at present
      rcases List.mem_append.mp member with early | late
      · exact placed position _ present other (List.mem_append_left _ early)
      · rcases List.mem_cons.mp late with rfl | late
        · rw [stays taken other yes]
          exact placed position _ present taken (List.mem_append_right _ (List.mem_cons_self ..))
        · exact placed position _ present other (List.mem_append_right _ (List.mem_cons_of_mem _ late))
  · exact placed position older present other member

/-- If the table holds an element that can be changed, one is, and the others stay. -/
theorem amend_perm {changed : Element}
    (here : ∀ other changed, change other = some changed → place other = index)
    (accepted : change element = some changed) (placed : Placed place table) (member : element ∈ table.flatten) :
    ∃ taken changed rest, change taken = some changed ∧ (taken :: rest).Perm table.flatten ∧
      (changed :: rest).Perm (amend change index table).flatten := by
  obtain ⟨chain, present, inside⟩ := List.mem_flatten.mp member
  obtain ⟨position, found⟩ := List.getElem?_of_mem present
  have same : position = index := (placed position chain found element inside).symm.trans (here element _ accepted)
  subst same
  clear placed present member here
  unfold amend
  induction table generalizing position with
  | nil => simp at found
  | cons first rest ih =>
      cases position with
      | zero =>
          cases found
          obtain ⟨taken, changed, before, after, _, yes, split, replaced⟩ := List.exists_of_replaceF inside accepted
          refine ⟨taken, changed, before ++ (after ++ rest.flatten), yes, ?_⟩
          simp only [List.modify_zero_cons, List.flatten_cons, replaced]
          rw [split]
          simp only [List.append_assoc, List.cons_append]
          exact ⟨List.perm_middle.symm, List.perm_middle.symm⟩
      | succ position =>
          obtain ⟨taken, changed, others, yes, before, after⟩ := ih position (by simpa using found)
          refine ⟨taken, changed, first ++ others, yes, ?_⟩
          simp only [List.modify_succ_cons, List.flatten_cons]
          exact ⟨List.perm_middle.symm.trans (before.append_left first),
            List.perm_middle.symm.trans (after.append_left first)⟩

end Amend

/-- Looking into the chain where an element belongs is looking into the table. -/
theorem find_chain (placed : Placed place table) (here : ∀ element, accepts element = true → place element = index)
    (fits : index < table.length) :
    ((table.getD index []).find? accepts).isSome = true ↔ ∃ element ∈ table.flatten, accepts element = true := by
  have present : table[index]? = some (table.getD index []) := by
    simp [List.getD, List.getElem?_eq_getElem fits]
  rw [List.find?_isSome]
  constructor
  · rintro ⟨element, member, yes⟩
    exact ⟨element, List.mem_flatten.mpr ⟨_, List.mem_of_getElem? present, member⟩, yes⟩
  · rintro ⟨element, member, yes⟩
    obtain ⟨chain, inside, member⟩ := List.mem_flatten.mp member
    obtain ⟨position, found⟩ := List.getElem?_of_mem inside
    have same : position = index := (placed position chain found element member).symm.trans (here element yes)
    rw [same, present] at found
    cases found
    exact ⟨element, member, yes⟩

section Rehash

variable {size : Nat}

theorem rehash_length : (rehash place size table).length = size := by
  have folded : ∀ (elements : List Element) (start : List (List Element)),
      (elements.foldl (push place) start).length = start.length := by
    intro elements
    induction elements with
    | nil => exact fun _ => rfl
    | cons element rest ih => exact fun start => (ih _).trans push_length
  rw [rehash, folded, List.length_replicate]

theorem placed_rehash : Placed place (rehash place size table) := by
  have folded : ∀ (elements : List Element) (start : List (List Element)), Placed place start →
      Placed place (elements.foldl (push place) start) := by
    intro elements
    induction elements with
    | nil => exact fun _ placed => placed
    | cons element rest ih => exact fun start placed => ih _ (placed.push element)
  exact folded _ _ (placed_replicate size)

theorem rehash_perm (fits : ∀ element ∈ table.flatten, place element < size) :
    (rehash place size table).flatten.Perm table.flatten := by
  have folded : ∀ (elements : List Element) (start : List (List Element)),
      (∀ element ∈ elements, place element < start.length) →
      (elements.foldl (push place) start).flatten.Perm (elements ++ start.flatten) := by
    intro elements
    induction elements with
    | nil => exact fun _ _ => List.Perm.refl _
    | cons element rest ih =>
        intro start fits
        have first := push_perm (fits element (List.mem_cons_self ..))
        have later := ih (push place start element)
          (fun other member => by simpa using fits other (List.mem_cons_of_mem _ member))
        exact later.trans ((first.append_left rest).trans List.perm_middle)
  have moved := folded table.flatten (List.replicate size []) (by simpa using fits)
  simpa [rehash] using moved

end Rehash

end Chained
