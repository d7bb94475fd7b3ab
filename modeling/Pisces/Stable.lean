import Mathlib.Data.List.Induction
import Mathlib.Data.List.Sort

/-! # Lists kept sorted by stable insertion

A new item goes behind all that its key does not precede, so that equal keys
stay in the order of insertion.
-/

namespace Stable

variable {Item Key : Type*} [LinearOrder Key]

/-- Puts an item before the first one with a greater key. -/
def insert (key : Item → Key) (item : Item) (items : List Item) : List Item :=
  items.orderedInsert (fun new old => key new < key old) item

/-- Inserts the items one after the other. -/
def sort (key : Item → Key) (items : List Item) : List Item :=
  items.foldl (fun sorted item => insert key item sorted) []

def Sorted (key : Item → Key) (items : List Item) : Prop :=
  items.Pairwise fun first second => key first ≤ key second

variable {key : Item → Key} {item : Item} {items : List Item}

theorem insert_perm : (insert key item items).Perm (item :: items) :=
  List.perm_orderedInsert _ _ _

theorem mem_insert {other : Item} : other ∈ insert key item items ↔ other = item ∨ other ∈ items := by
  rw [insert_perm.mem_iff, List.mem_cons]

theorem Sorted.insert (sorted : Sorted key items) : Sorted key (insert key item items) := by
  induction items with
  | nil => exact List.pairwise_singleton _ _
  | cons first rest ih =>
      obtain ⟨least, later⟩ := List.pairwise_cons.mp sorted
      by_cases before : key item < key first
      · have placed : Stable.insert key item (first :: rest) = item :: first :: rest := if_pos before
        rw [placed]
        refine List.pairwise_cons.mpr ⟨fun other member => ?_, sorted⟩
        rcases List.mem_cons.mp member with rfl | older
        · exact le_of_lt before
        · exact le_trans (le_of_lt before) (least other older)
      · have passed : Stable.insert key item (first :: rest) = first :: Stable.insert key item rest := if_neg before
        rw [passed]
        refine List.pairwise_cons.mpr ⟨fun other member => ?_, ih later⟩
        rcases mem_insert.mp member with rfl | older
        · exact le_of_not_gt before
        · exact least other older

theorem Sorted.insert_filter (sorted : Sorted key items) (value : Key) :
    (Stable.insert key item items).filter (key · = value) = (items ++ [item]).filter (key · = value) := by
  induction items with
  | nil => rfl
  | cons first rest ih =>
      obtain ⟨least, later⟩ := List.pairwise_cons.mp sorted
      by_cases before : key item < key first
      · have placed : Stable.insert key item (first :: rest) = item :: first :: rest := if_pos before
        rw [placed, List.filter_append]
        by_cases same : key item = value
        · -- The items behind have greater keys.
          have none : (first :: rest).filter (key · = value) = [] := by
            refine List.filter_eq_nil_iff.mpr fun other member => ?_
            have greater : key first ≤ key other := by
              rcases List.mem_cons.mp member with rfl | older
              · exact le_rfl
              · exact least other older
            have different : key other ≠ value := same ▸ ne_of_gt (lt_of_lt_of_le before greater)
            simpa using different
          rw [none, List.filter_cons, none]
          simp [same]
        · simp [List.filter_cons, same]
      · have passed : Stable.insert key item (first :: rest) = first :: Stable.insert key item rest := if_neg before
        rw [passed, List.cons_append, List.filter_cons, List.filter_cons, ih later]

/-- An item that a test rejects does not disturb those that pass. -/
theorem insert_filter_rejected {test : Item → Bool} (rejected : test item = false) :
    (insert key item items).filter test = items.filter test := by
  have skipped : ∀ rest, (item :: rest).filter test = rest.filter test :=
    fun rest => List.filter_cons_of_neg (by simp [rejected])
  induction items with
  | nil => exact skipped []
  | cons first rest ih =>
      by_cases before : key item < key first
      · have placed : insert key item (first :: rest) = item :: first :: rest := if_pos before
        rw [placed, skipped]
      · have passed : insert key item (first :: rest) = first :: insert key item rest := if_neg before
        rw [passed, List.filter_cons, List.filter_cons, ih]

theorem insert_last (greatest : ∀ other ∈ items, key other ≤ key item) : insert key item items = items ++ [item] := by
  induction items with
  | nil => rfl
  | cons first rest ih =>
      have passed : insert key item (first :: rest) = first :: insert key item rest :=
        if_neg (not_lt_of_ge (greatest first (List.mem_cons_self ..)))
      rw [passed, ih fun other member => greatest other (List.mem_cons_of_mem _ member), List.cons_append]

theorem insert_eq_takeWhile (key : Item → Key) (item : Item) (items : List Item) :
    insert key item items = (items.takeWhile fun other => key other ≤ key item) ++
      item :: items.dropWhile fun other => key other ≤ key item := by
  rw [insert, List.orderedInsert_eq_take_drop]
  simp only [not_lt]

theorem insert_first (least : ∀ other ∈ items, key item < key other) : insert key item items = item :: items := by
  cases items with
  | nil => rfl
  | cons first rest => exact if_pos (least first (List.mem_cons_self ..))

theorem insert_head? {few : List Item} (same : few.head? = items.head?) :
    (insert key item few).head? = (insert key item items).head? := by
  have begins : ∀ items : List Item,
      (insert key item items).head? = some (match items.head? with
        | none => item
        | some first => if key item < key first then item else first) := by
    intro items
    cases items with
    | nil => rfl
    | cons first rest =>
        rw [insert, List.orderedInsert, List.head?_cons]
        by_cases before : key item < key first
        · simp [before]
        · simp [before]
  rw [begins, begins, same]

theorem insert_congr {other : Item → Key} (same : ∀ one ∈ item :: items, other one = key one) :
    insert other item items = insert key item items := by
  induction items with
  | nil => rfl
  | cons first rest ih =>
      have rest' : insert other item rest = insert key item rest :=
        ih fun one member => same one (by rcases List.mem_cons.mp member with rfl | later <;> simp [*])
      have placed : ∀ key : Item → Key,
          insert key item (first :: rest) =
            if key item < key first then item :: first :: rest else first :: insert key item rest :=
        fun _ => rfl
      rw [placed, placed, rest', same item (by simp), same first (by simp)]

/-- Behind all that are not greater, before all that are -/
theorem Sorted.insert_eq (sorted : Sorted key items) :
    Stable.insert key item items = (items.filter fun other => key other ≤ key item) ++
      item :: items.filter fun other => key item < key other := by
  induction items with
  | nil => rfl
  | cons first rest ih =>
      obtain ⟨least, later⟩ := List.pairwise_cons.mp sorted
      by_cases before : key item < key first
      · have placed : Stable.insert key item (first :: rest) = item :: first :: rest := if_pos before
        have greater : ∀ other ∈ first :: rest, key item < key other := by
          intro other member
          rcases List.mem_cons.mp member with rfl | older
          · exact before
          · exact lt_of_lt_of_le before (least other older)
        have none : ((first :: rest).filter fun other => key other ≤ key item) = [] :=
          List.filter_eq_nil_iff.mpr fun other member => by simpa using greater other member
        have all : ((first :: rest).filter fun other => key item < key other) = first :: rest :=
          List.filter_eq_self.mpr fun other member => by simpa using greater other member
        rw [placed, none, all, List.nil_append]
      · have passed : Stable.insert key item (first :: rest) = first :: Stable.insert key item rest := if_neg before
        rw [passed, ih later]
        simp [before, le_of_not_gt before]

/-- An item that passes a test goes among those that pass as it goes among all. -/
theorem Sorted.insert_filter_accepted {test : Item → Bool} (sorted : Sorted key items) (accepted : test item = true) :
    (Stable.insert key item items).filter test = Stable.insert key item (items.filter test) := by
  have few : Sorted key (items.filter test) := sorted.sublist List.filter_sublist
  rw [sorted.insert_eq, few.insert_eq, List.filter_append, List.filter_cons_of_pos accepted]
  simp only [List.filter_filter, Bool.and_comm]

theorem Sorted.insert_sublist {few : List Item} (sorted : Sorted key items) (within : few.Sublist items) :
    (Stable.insert key item few).Sublist (Stable.insert key item items) := by
  have fewSorted : Sorted key few := sorted.sublist within
  rw [sorted.insert_eq, fewSorted.insert_eq]
  exact (within.filter _).append ((within.filter _).cons_cons _)

theorem sort_append : sort key (items ++ [item]) = insert key item (sort key items) := by
  rw [sort, List.foldl_append]
  rfl

theorem sort_sorted (items : List Item) : Sorted key (sort key items) := by
  induction items using List.reverseRecOn with
  | nil => exact List.Pairwise.nil
  | append_singleton items item ih =>
      rw [sort_append]
      exact ih.insert

theorem sort_perm (items : List Item) : (sort key items).Perm items := by
  induction items using List.reverseRecOn with
  | nil => exact List.Perm.refl _
  | append_singleton items item ih =>
      rw [sort_append]
      calc
        (insert key item (sort key items)).Perm (item :: sort key items) := insert_perm
        List.Perm _ (item :: items) := ih.cons item
        List.Perm _ (items ++ [item]) := (List.perm_append_singleton item items).symm

theorem sort_filter (items : List Item) (value : Key) :
    (sort key items).filter (key · = value) = items.filter (key · = value) := by
  induction items using List.reverseRecOn with
  | nil => rfl
  | append_singleton items item ih =>
      rw [sort_append, (sort_sorted items).insert_filter, List.filter_append, ih, List.filter_append]

theorem Sorted.sort_eq (sorted : Sorted key items) : sort key items = items := by
  induction items using List.reverseRecOn with
  | nil => rfl
  | append_singleton items item ih =>
      obtain ⟨earlier, -, greatest⟩ := List.pairwise_append.mp sorted
      rw [sort_append, ih earlier, insert_last]
      exact fun other member => greatest other member item (List.mem_singleton_self item)

end Stable
