import Mathlib.Data.List.Nodup
import Mathlib.Logic.Function.Basic
import Pisces.Stable

/-! # Lists linked in memory

A list that runs through one field of its nodes, the two loops that go along it,
and the assignments that put a node in and take one out.
-/

namespace Links

variable {Node : Type*}

/-- The field of each node leads to the next one, that of the last one nowhere. -/
def Linked (field : Node → Option Node) : List Node → Prop
  | [] => True
  | node :: rest => field node = rest.head? ∧ Linked field rest

/-- `for (cur = node; cur->field && test(cur->field); cur = cur->field)` -/
def advance (field : Node → Option Node) (test : Node → Bool) : Nat → Node → Option Node
  | 0, _ => none
  | fuel + 1, node =>
      match field node with
      | none => some node
      | some next => if test next then advance field test fuel next else some node

/-- `for (cur = start; cur && test(cur); prev = cur, cur = cur->field)`: `prev` and `cur` -/
def search (field : Node → Option Node) (test : Node → Bool) :
    Nat → Option Node → Option Node → Option (Option Node × Option Node)
  | 0, _, _ => none
  | _ + 1, prev, none => some (prev, none)
  | fuel + 1, prev, some cur =>
      if test cur then search field test fuel (some cur) (field cur) else some (prev, some cur)

section Loops

variable {field other : Node → Option Node} {nodes front back : List Node} {node : Node} {test : Node → Bool} {fuel : Nat}

theorem Linked.congr (linked : Linked field nodes) (same : ∀ node ∈ nodes, other node = field node) :
    Linked other nodes := by
  induction nodes with
  | nil => trivial
  | cons node rest ih =>
      have leads : other node = rest.head? := by rw [same node (List.mem_cons_self ..), linked.1]
      exact ⟨leads, ih linked.2 fun node member => same node (List.mem_cons_of_mem _ member)⟩

theorem Linked.behind (linked : Linked field (front ++ back)) : Linked field back := by
  induction front with
  | nil => exact linked
  | cons first rest ih => exact ih linked.2

theorem advance_linked (linked : Linked field (node :: nodes)) (enough : nodes.length < fuel) :
    ∃ front last, advance field test fuel node = some last ∧ node :: nodes.takeWhile test = front ++ [last] := by
  induction nodes generalizing node fuel with
  | nil =>
      obtain ⟨less, rfl⟩ := Nat.exists_eq_add_one_of_ne_zero (Nat.ne_of_gt enough)
      have ends : field node = none := linked.1
      exact ⟨[], node, by rw [advance, ends], rfl⟩
  | cons next rest ih =>
      obtain ⟨less, rfl⟩ := Nat.exists_eq_add_one_of_ne_zero (Nat.ne_of_gt (Nat.zero_lt_of_lt enough))
      have leads : field node = some next := linked.1
      rw [advance, leads, List.takeWhile_cons]
      by_cases passes : test next = true
      · obtain ⟨front, last, found, split⟩ := @ih next less linked.2 (by simpa using enough)
        have stops : advance field test less next = some last := found
        exact ⟨node :: front, last, by simp only [passes, if_true, stops], by rw [if_pos passes, split, List.cons_append]⟩
      · exact ⟨[], node, by simp only [passes]; rfl, by rw [if_neg passes]; rfl⟩

theorem search_linked (linked : Linked field nodes) (enough : nodes.length < fuel) (prev : Option Node) :
    search field test fuel prev nodes.head? =
      some ((nodes.takeWhile test).getLast?.or prev, (nodes.dropWhile test).head?) := by
  induction nodes generalizing fuel prev with
  | nil =>
      obtain ⟨less, rfl⟩ := Nat.exists_eq_add_one_of_ne_zero (Nat.ne_of_gt enough)
      rfl
  | cons node rest ih =>
      obtain ⟨less, rfl⟩ := Nat.exists_eq_add_one_of_ne_zero (Nat.ne_of_gt (Nat.zero_lt_of_lt enough))
      rw [List.head?_cons, search, List.takeWhile_cons, List.dropWhile_cons]
      by_cases passes : test node = true
      · rw [if_pos passes, if_pos passes, if_pos passes, linked.1, ih linked.2 (by simpa using enough),
          List.getLast?_cons]
        cases (rest.takeWhile test).getLast? <;> rfl
      · rw [if_neg passes, if_neg passes, if_neg passes]
        rfl

end Loops

section Assignments

variable [DecidableEq Node] {field : Node → Option Node} {nodes front back rest : List Node} {node gone new : Node}

theorem Linked.update_outside (linked : Linked field nodes) (outside : node ∉ nodes) (value : Option Node) :
    Linked (Function.update field node value) nodes :=
  linked.congr fun _ member => Function.update_of_ne (ne_of_mem_of_not_mem member outside) ..

/-- `new->field` is made to lead to the whole list. -/
theorem Linked.putFirst (linked : Linked field nodes) (fresh : new ∉ nodes) :
    Linked (Function.update field new nodes.head?) (new :: nodes) :=
  ⟨Function.update_self .., linked.update_outside fresh _⟩

/-- `node->field` is made to lead to another list. -/
theorem Linked.redirect (linked : Linked field (front ++ node :: back)) (distinct : (front ++ node :: back).Nodup)
    (leads : Linked (Function.update field node rest.head?) rest) :
    Linked (Function.update field node rest.head?) (front ++ node :: rest) := by
  induction front with
  | nil => exact ⟨Function.update_self .., leads⟩
  | cons first others ih =>
      rw [List.cons_append, List.nodup_cons] at distinct
      have differs : first ≠ node := fun same => distinct.1 (by simp [same])
      have kept : field first = (others ++ node :: rest).head? := by
        rw [linked.1]
        cases others <;> rfl
      exact ⟨(Function.update_of_ne differs ..).trans kept, ih linked.2 distinct.2⟩

/-- `new->field = node->field; node->field = new` -/
theorem Linked.putAfter (linked : Linked field (front ++ node :: back)) (distinct : (front ++ node :: back).Nodup)
    (fresh : new ∉ front ++ node :: back) :
    Linked (Function.update (Function.update field new back.head?) node (some new)) (front ++ node :: new :: back) := by
  have outside : node ∉ back := (List.nodup_cons.mp (List.nodup_append.mp distinct).2.1).1
  have freshBack : new ∉ back := fun member => fresh (by simp [member])
  have differs : node ≠ new := fun same => fresh (by simp [same])
  have later : Linked (Function.update field new back.head?) (new :: back) := linked.behind.2.putFirst freshBack
  have front' := linked.update_outside fresh back.head?
  exact @Linked.redirect _ _ _ front back (new :: back) node front' distinct
    (later.update_outside (by simp [differs, outside]) _)

/-- `node->field = node->field->field` -/
theorem Linked.takeAfter (linked : Linked field (front ++ node :: gone :: back))
    (distinct : (front ++ node :: gone :: back).Nodup) :
    Linked (Function.update field node (field gone)) (front ++ node :: back) := by
  have outside : node ∉ gone :: back := (List.nodup_cons.mp (List.nodup_append.mp distinct).2.1).1
  have later : Linked field (gone :: back) := linked.behind.2
  rw [later.1]
  exact linked.redirect distinct (later.2.update_outside (fun member => outside (List.mem_cons_of_mem _ member)) _)

end Assignments

/-! ## Keeping a list sorted -/

section Sorting

variable [DecidableEq Node] {field : Node → Option Node} {nodes rest : List Node} {head new : Node} {key : Node → Nat}
  {fuel : Nat}

/-- `new->field = cur; if (prev) prev->field = new` -/
def place (field : Node → Option Node) (new : Node) (prev cur : Option Node) : Node → Option Node :=
  match prev with
  | none => Function.update field new cur
  | some prev => Function.update (Function.update field new cur) prev (some new)

theorem place_outside {prev cur : Option Node} {node : Node} (differs : node ≠ new) (elsewhere : prev ≠ some node) :
    place field new prev cur node = field node := by
  cases prev with
  | none => exact Function.update_of_ne differs ..
  | some prev =>
      have other : node ≠ prev := fun same => elsewhere (congrArg some same.symm)
      rw [place, Function.update_of_ne other, Function.update_of_ne differs]

theorem advance_insert (linked : Linked field (head :: rest)) (distinct : (head :: rest).Nodup)
    (fresh : new ∉ head :: rest) (before : key head ≤ key new) (enough : rest.length < fuel) :
    ∃ last ∈ head :: rest, advance field (fun node => key node ≤ key new) fuel head = some last ∧
      Linked (Function.update (Function.update field new (field last)) last (some new))
        (Stable.insert key new (head :: rest)) := by
  obtain ⟨front, last, stops, passed⟩ :=
    @advance_linked _ field rest head (fun node => key node ≤ key new) fuel linked enough
  have split : head :: rest = front ++ last :: rest.dropWhile (fun node => key node ≤ key new) := by
    calc
      head :: rest = (head :: rest.takeWhile fun node => key node ≤ key new) ++
        rest.dropWhile (fun node => key node ≤ key new) := by
        rw [List.cons_append, List.takeWhile_append_dropWhile]
      _ = front ++ last :: rest.dropWhile (fun node => key node ≤ key new) := by
        rw [passed, List.append_assoc, List.singleton_append]
  have placed : Stable.insert key new (head :: rest) =
      front ++ last :: new :: rest.dropWhile (fun node => key node ≤ key new) := by
    have first : decide (key head ≤ key new) = true := by simpa using before
    rw [Stable.insert_eq_takeWhile, List.takeWhile_cons, List.dropWhile_cons, if_pos first, if_pos first, passed,
      ← List.append_cons]
  have member : last ∈ head :: rest := by rw [split]; simp
  rw [split] at linked distinct fresh
  have leads : field last = (rest.dropWhile fun node => key node ≤ key new).head? := linked.behind.1
  refine ⟨last, member, stops, ?_⟩
  rw [placed, leads]
  exact linked.putAfter distinct fresh

theorem search_insert (linked : Linked field nodes) (distinct : nodes.Nodup) (fresh : new ∉ nodes)
    (enough : nodes.length < fuel) :
    ∃ found, search field (fun node => key node ≤ key new) fuel none nodes.head? = some found ∧
      (∀ prev, found.1 = some prev → prev ∈ nodes) ∧
      Linked (place field new found.1 found.2) (Stable.insert key new nodes) := by
  have split := @List.takeWhile_append_dropWhile _ (fun node => decide (key node ≤ key new)) nodes
  refine ⟨_, search_linked linked enough none, ?_, ?_⟩
  · intro prev found
    rw [Option.or_none] at found
    exact List.takeWhile_subset _ (List.mem_of_getLast? found)
  · rw [Stable.insert_eq_takeWhile, Option.or_none]
    generalize nodes.takeWhile (fun node => key node ≤ key new) = passed at split
    generalize nodes.dropWhile (fun node => key node ≤ key new) = back at split
    subst split
    cases passed using List.reverseRecOn with
    | nil => exact linked.putFirst fresh
    | append_singleton front last =>
        rw [List.getLast?_concat, ← List.append_cons]
        rw [← List.append_cons] at linked distinct fresh
        exact linked.putAfter distinct fresh

end Sorting

end Links
