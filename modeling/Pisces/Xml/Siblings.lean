import Pisces.Links
import Pisces.Xml.Tree

/-! # The lists of sub tags

`ezxml_insert` and the lists of `struct ezxml` that it keeps: through `ordered`
all sub tags of a tag in the order of their offsets, through `sibling` the first
one of each name, and through `next` those of one name.
-/

namespace Pisces.Xml

open Text Links

/-- The members of `struct ezxml` that the lists are made of, for all tags in memory -/
structure Heap (Node : Type*) where
  name : Node → Str
  off : Node → Nat
  next : Node → Option Node
  sibling : Node → Option Node
  ordered : Node → Option Node
  child : Node → Option Node
  parent : Node → Option Node

section Code

variable {Node : Type*} [DecidableEq Node]

/-- `if (prev && cur) prev->sibling = cur->sibling` -/
def removeOld (sibling : Node → Option Node) (prev cur : Option Node) : Node → Option Node :=
  match prev with
  | none => sibling
  | some prev =>
      match cur with
      | none => sibling
      | some cur => Function.update sibling prev (sibling cur)

/-- The `ordered` list in `ezxml_insert` -/
def linkOrdered (fuel : Nat) (heap : Heap Node) (xml dest head : Node) (off : Nat) : Option (Heap Node) :=
  if heap.off head ≤ off then
    (advance heap.ordered (fun cur => heap.off cur ≤ off) fuel head).map fun cur =>
      { heap with ordered := Function.update (Function.update heap.ordered xml (heap.ordered cur)) cur (some xml) }
  else
    some { heap with
      ordered := Function.update heap.ordered xml (some head)
      child := Function.update heap.child dest (some xml) }

/-- Not first of type -/
def linkLater (fuel : Nat) (heap : Heap Node) (xml first : Node) (off : Nat) : Option (Heap Node) :=
  (advance heap.next (fun cur => heap.off cur ≤ off) fuel first).map fun cur =>
    { heap with next := Function.update (Function.update heap.next xml (heap.next cur)) cur (some xml) }

/-- First tag of this type -/
def linkFirst (fuel : Nat) (heap : Heap Node) (xml head : Node) (prev cur : Option Node) (off : Nat) :
    Option (Heap Node) :=
  let sibling := removeOld heap.sibling prev cur
  (search sibling (fun cur => heap.off cur ≤ off) fuel none (some head)).map fun found =>
    { heap with
      next := Function.update heap.next xml cur
      sibling := place sibling xml found.1 found.2 }

/-- The `sibling` and `next` lists in `ezxml_insert` -/
def linkType (fuel : Nat) (heap : Heap Node) (xml head : Node) (off : Nat) : Option (Heap Node) :=
  (search heap.sibling (fun cur => !(heap.name cur == heap.name xml)) fuel none (some head)).bind fun found =>
    match found.2 with
    | none => linkFirst fuel heap xml head found.1 none off
    | some cur =>
        if heap.off cur ≤ off then linkLater fuel heap xml cur off
        else linkFirst fuel heap xml head found.1 (some cur) off

/-- What `ezxml_insert` begins with -/
def Heap.reset (heap : Heap Node) (xml dest : Node) (off : Nat) : Heap Node :=
  { heap with
    next := Function.update heap.next xml none
    sibling := Function.update heap.sibling xml none
    ordered := Function.update heap.ordered xml none
    off := Function.update heap.off xml off
    parent := Function.update heap.parent xml (some dest) }

/-- `ezxml_insert`; the loops run out of fuel only when the lists are longer. -/
def ezxmlInsert (fuel : Nat) (heap : Heap Node) (xml dest : Node) (off : Nat) : Option (Heap Node) :=
  let heap := heap.reset xml dest off
  match heap.child dest with
  | none => some { heap with child := Function.update heap.child dest (some xml) }
  | some head => (linkOrdered fuel heap xml dest head off).bind fun heap => linkType fuel heap xml head off

/-- `ezxml_child` -/
def Heap.ezxmlChild (fuel : Nat) (heap : Heap Node) (xml : Node) (name : Str) : Option (Option Node) :=
  (search heap.sibling (fun cur => !(heap.name cur == name)) fuel none (heap.child xml)).map (·.2)

/-- `ezxml_idx` -/
def Heap.ezxmlIdx (heap : Heap Node) : Nat → Option Node → Option Node
  | 0, xml => xml
  | _ + 1, none => none
  | index + 1, some xml => heap.ezxmlIdx index (heap.next xml)

/-- Calls of `ezxml_insert` with tags and the tags that they go into -/
def insertAll (fuel : Nat) (off : Node → Nat) : Heap Node → List (Node × Node) → Option (Heap Node)
  | heap, [] => some heap
  | heap, (xml, dest) :: rest =>
      (ezxmlInsert fuel heap xml dest (off xml)).bind fun later => insertAll fuel off later rest

end Code

/-! ## What the lists hold -/

variable {Node : Type*} {heap later : Heap Node} {dest xml head : Node} {tags firsts : List Node} {off fuel : Nat}

/-- A list through `sibling` that leads to the first tag of each name. A former
first tag can still be in it, behind the one that took its place. -/
structure Heap.Firsts (heap : Heap Node) (firsts tags : List Node) : Prop where
  linked : Linked heap.sibling firsts
  begins : firsts.head? = tags.head?
  within : firsts.Sublist tags
  found : ∀ name, (firsts.filter (heap.name · == name)).head? = (tags.filter (heap.name · == name)).head?

/-- The lists through `sibling` and `next` -/
structure Typed (heap : Heap Node) (tags : List Node) : Prop where
  distinct : tags.Nodup
  sorted : Stable.Sorted heap.off tags
  siblings : ∃ firsts, heap.Firsts firsts tags
  alike : ∀ name, Linked heap.next (tags.filter (heap.name · == name))

structure Listed (heap : Heap Node) (dest : Node) (tags : List Node) : Prop extends Typed heap tags where
  child : heap.child dest = tags.head?
  ordered : Linked heap.ordered tags

/-- Two states of the memory agree about a tag in the lists. -/
structure Heap.SameAt (heap later : Heap Node) (tag : Node) : Prop where
  off : later.off tag = heap.off tag
  next : later.next tag = heap.next tag
  sibling : later.sibling tag = heap.sibling tag
  ordered : later.ordered tag = heap.ordered tag

theorem Listed.congr (listed : Listed heap dest tags) (name : later.name = heap.name)
    (child : later.child dest = heap.child dest) (same : ∀ tag ∈ tags, heap.SameAt later tag) :
      Listed later dest tags := by
  obtain ⟨firsts, first⟩ := listed.siblings
  have sibling : Linked later.sibling firsts :=
    first.linked.congr fun tag member => (same tag (first.within.subset member)).sibling
  have sorted : Stable.Sorted later.off tags := by
    refine List.Pairwise.imp_of_mem ?_ listed.sorted
    intro one other oneIn otherIn before
    rw [(same one oneIn).off, (same other otherIn).off]
    exact before
  exact {
    distinct := listed.distinct
    sorted := sorted
    child := child.trans listed.child
    ordered := listed.ordered.congr fun tag member => (same tag member).ordered
    siblings := ⟨firsts, sibling, first.begins, first.within, by rw [name]; exact first.found⟩
    alike := by
      intro alike
      rw [name]
      exact (listed.alike alike).congr fun tag member => (same tag (List.mem_of_mem_filter member)).next }

theorem Heap.ezxmlIdx_linked (linked : Linked heap.next tags) (index : Nat) :
    heap.ezxmlIdx index tags.head? = tags[index]? := by
  induction index generalizing tags with
  | zero => rw [Heap.ezxmlIdx, List.head?_eq_getElem?]
  | succ index ih =>
      cases tags with
      | nil => rfl
      | cons tag rest =>
          rw [List.head?_cons, Heap.ezxmlIdx, linked.1, ih linked.2]
          rfl

theorem Listed.ezxmlChild_eq (listed : Listed heap dest tags) (enough : tags.length < fuel) (name : Str) :
    heap.ezxmlChild fuel dest name = some (tags.filter (heap.name · == name)).head? := by
  obtain ⟨firsts, first⟩ := listed.siblings
  have searched := @search_linked _ _ _ (fun cur => !(heap.name cur == name)) fuel first.linked
    (lt_of_le_of_lt first.within.length_le enough) none
  rw [Heap.ezxmlChild, listed.child, ← first.begins, searched, Option.map_some, ← first.found, List.head?_filter,
    List.find?_eq_head?_dropWhile_not]

/-! ## Inserting -/

variable [DecidableEq Node]

theorem Heap.reset_sameAt {tag : Node} (differs : tag ≠ xml) : heap.SameAt (heap.reset xml dest off) tag where
  off := Function.update_of_ne differs ..
  next := Function.update_of_ne differs ..
  sibling := Function.update_of_ne differs ..
  ordered := Function.update_of_ne differs ..

/-- The `ordered` list and the first tag after an insertion -/
theorem linkOrdered_inserts {rest : List Node} (listed : Listed heap dest (head :: rest)) (fresh : xml ∉ head :: rest)
    (enough : rest.length < fuel) :
    ∃ ordered child, linkOrdered fuel heap xml dest head (heap.off xml) =
      some { heap with ordered := ordered, child := child } ∧
      Linked ordered (Stable.insert heap.off xml (head :: rest)) ∧
      child dest = (Stable.insert heap.off xml (head :: rest)).head? ∧
      (∀ other, other ≠ dest → child other = heap.child other) ∧
      ∀ tag, tag ∉ xml :: head :: rest → ordered tag = heap.ordered tag := by
  by_cases before : heap.off head ≤ heap.off xml
  · obtain ⟨last, member, stops, linked⟩ := advance_insert listed.ordered listed.distinct fresh before enough
    refine ⟨_, heap.child, ?_, linked, ?_, fun _ _ => rfl, ?_⟩
    · rw [linkOrdered, if_pos before, stops, Option.map_some]
    · have placed : Stable.insert heap.off xml (head :: rest) = head :: Stable.insert heap.off xml rest :=
        if_neg (not_lt.mpr before)
      rw [listed.child, placed, List.head?_cons, List.head?_cons]
    · intro tag outside
      have differs : tag ≠ xml ∧ tag ≠ last :=
        ⟨fun same => outside (same ▸ List.mem_cons_self ..), fun same => outside (same ▸ List.mem_cons_of_mem _ member)⟩
      rw [Function.update_of_ne differs.2, Function.update_of_ne differs.1]
  · have placed : Stable.insert heap.off xml (head :: rest) = xml :: head :: rest := if_pos (not_le.mp before)
    refine ⟨_, _, by rw [linkOrdered, if_neg before], ?_, ?_, fun _ differs => Function.update_of_ne differs .., ?_⟩
    · rw [placed]
      exact listed.ordered.putFirst fresh
    · rw [placed, Function.update_self, List.head?_cons]
    · intro tag outside
      have differs : tag ≠ xml := fun same => outside (same ▸ List.mem_cons_self ..)
      exact Function.update_of_ne differs ..

/-- A new tag that does not come first among those of its name -/
theorem linkLater_inserts {first : Node} {rest : List Node} (typed : Typed heap tags) (fresh : xml ∉ tags)
    (same : tags.filter (heap.name · == heap.name xml) = first :: rest) (before : heap.off first ≤ heap.off xml)
    (enough : tags.length < fuel) :
    ∃ next, linkLater fuel heap xml first (heap.off xml) = some { heap with next := next } ∧
      (∀ name, Linked next ((Stable.insert heap.off xml tags).filter (heap.name · == name))) ∧
      ∀ tag, tag ∉ xml :: tags → next tag = heap.next tag := by
  have linked := typed.alike (heap.name xml)
  have distinct : (tags.filter (heap.name · == heap.name xml)).Nodup := typed.distinct.filter _
  have outside : xml ∉ tags.filter (heap.name · == heap.name xml) := fun member => fresh (List.mem_of_mem_filter member)
  have short : (tags.filter (heap.name · == heap.name xml)).length ≤ tags.length := List.length_filter_le ..
  have accepted := @Stable.Sorted.insert_filter_accepted _ _ _ _ xml _ (heap.name · == heap.name xml) typed.sorted
      (beq_self_eq_true _)
  rw [same] at linked distinct outside short accepted
  obtain ⟨last, member, stops, linked⟩ := @advance_insert _ _ _ _ _ _ _ fuel linked distinct outside before
    (by rw [List.length_cons] at short; omega)
  have named : last ∈ tags.filter (heap.name · == heap.name xml) := same ▸ member
  refine ⟨_, by rw [linkLater, stops, Option.map_some], ?_, ?_⟩
  · intro name
    by_cases alike : heap.name xml = name
    · subst alike
      rw [accepted]
      exact linked
    · rw [Stable.insert_filter_rejected (by simpa using alike)]
      have other : ∀ tag ∈ tags.filter (heap.name · == name), tag ≠ xml ∧ tag ≠ last := by
        intro tag among
        obtain ⟨inside, called⟩ := List.mem_filter.mp among
        refine ⟨fun same => fresh (same ▸ inside), ?_⟩
        intro same
        have lastCalled := (List.mem_filter.mp named).2
        rw [← same] at lastCalled
        exact alike ((eq_of_beq lastCalled).symm.trans (eq_of_beq called))
      refine (typed.alike name).congr fun tag among => ?_
      rw [Function.update_of_ne (other tag among).2, Function.update_of_ne (other tag among).1]
  · intro tag absent
    have differs : tag ≠ xml ∧ tag ≠ last :=
      ⟨fun same => absent (same ▸ List.mem_cons_self ..),
        fun same => absent (same ▸ List.mem_cons_of_mem _ (List.mem_of_mem_filter named))⟩
    rw [Function.update_of_ne differs.2, Function.update_of_ne differs.1]

/-- The `sibling` list without the old first tag -/
theorem removeOld_linked (first : heap.Firsts firsts tags) (distinct : tags.Nodup) {name : Str}
    {found : Option Node × Option Node}
    (searched : found = ((firsts.takeWhile fun cur => !(heap.name cur == name)).getLast?,
      (firsts.dropWhile fun cur => !(heap.name cur == name)).head?)) :
    ∃ kept, Linked (removeOld heap.sibling found.1 found.2) kept ∧ kept.head? = firsts.head? ∧ kept.Sublist firsts ∧
      (∀ other, other ≠ name → kept.filter (heap.name · == other) = firsts.filter (heap.name · == other)) ∧
      ∀ tag, tag ∉ firsts → removeOld heap.sibling found.1 found.2 tag = heap.sibling tag := by
  have split := @List.takeWhile_append_dropWhile _ (fun cur => !(heap.name cur == name)) firsts
  have named : ∀ cur, (firsts.dropWhile fun cur => !(heap.name cur == name)).head? = some cur → heap.name cur = name := by
    intro cur stops
    have passed := List.head?_dropWhile_not (fun cur => !(heap.name cur == name)) firsts
    rw [stops] at passed
    simpa using passed
  generalize firsts.takeWhile (fun cur => !(heap.name cur == name)) = passed at split searched
  generalize firsts.dropWhile (fun cur => !(heap.name cur == name)) = back at split searched named
  subst searched
  have untouched : ∃ kept, Linked heap.sibling kept ∧ kept.head? = firsts.head? ∧ kept.Sublist firsts ∧
      (∀ other, other ≠ name → kept.filter (heap.name · == other) = firsts.filter (heap.name · == other)) ∧
      ∀ tag, tag ∉ firsts → heap.sibling tag = heap.sibling tag :=
    ⟨firsts, first.linked, rfl, List.Sublist.refl _, fun _ _ => rfl, fun _ _ => rfl⟩
  cases passed using List.reverseRecOn with
  | nil => exact untouched
  | append_singleton front prev =>
      cases back with
      | nil =>
          rw [List.getLast?_concat]
          exact untouched
      | cons cur rest =>
          have called : heap.name cur = name := named cur rfl
          rw [← List.append_cons] at split
          have linked := first.linked
          have nodup : firsts.Nodup := first.within.nodup distinct
          have within : (front ++ prev :: rest).Sublist firsts := by
            rw [← split]
            exact (List.Sublist.refl front).append (((List.Sublist.refl rest).cons cur).cons_cons prev)
          rw [← split] at linked nodup
          rw [List.getLast?_concat]
          refine ⟨front ++ prev :: rest, linked.takeAfter nodup, ?_, within, ?_, ?_⟩
          · rw [← split]
            cases front <;> rfl
          · intro other differs
            have skipped : (cur :: rest).filter (heap.name · == other) = rest.filter (heap.name · == other) :=
              List.filter_cons_of_neg (by simpa [called] using differs.symm)
            rw [← split, List.filter_append, List.filter_append, List.filter_cons, List.filter_cons, skipped]
          · intro tag outside
            refine Function.update_of_ne ?_ ..
            rintro rfl
            exact outside (split ▸ by simp)

/-- A new tag that comes first among those of its name -/
theorem linkFirst_inserts (typed : Typed heap tags) (first : heap.Firsts firsts tags) (fresh : xml ∉ tags)
    (begins : firsts.head? = some head) {found : Option Node × Option Node}
    (searched : found = ((firsts.takeWhile fun cur => !(heap.name cur == heap.name xml)).getLast?,
      (firsts.dropWhile fun cur => !(heap.name cur == heap.name xml)).head?))
    (least : ∀ tag ∈ tags, heap.name tag = heap.name xml → heap.off xml < heap.off tag)
    (enough : tags.length < fuel) :
    ∃ next sibling, linkFirst fuel heap xml head found.1 found.2 (heap.off xml) =
        some { heap with next := next, sibling := sibling } ∧
      (∃ later, ({ heap with sibling := sibling } : Heap Node).Firsts later (Stable.insert heap.off xml tags)) ∧
      (∀ name, Linked next ((Stable.insert heap.off xml tags).filter (heap.name · == name))) ∧
      ∀ tag, tag ∉ xml :: tags → next tag = heap.next tag ∧ sibling tag = heap.sibling tag := by
  obtain ⟨kept, linked, keptBegins, within, others, same⟩ := removeOld_linked first typed.distinct searched
  have keptIn : kept.Sublist tags := within.trans first.within
  have outside : xml ∉ kept := fun member => fresh (keptIn.subset member)
  obtain ⟨stop, stops, members, placed⟩ :=
    @search_insert _ _ _ _ _ heap.off fuel linked (keptIn.nodup typed.distinct) outside
    (lt_of_le_of_lt keptIn.length_le enough)
  -- Among tags of its own name the new one comes first.
  have leads : ∀ some : List Node, some.Sublist tags →
      (Stable.insert heap.off xml some).filter (heap.name · == heap.name xml) =
        xml :: some.filter (heap.name · == heap.name xml) := by
    intro some inside
    have sorted : Stable.Sorted heap.off some := typed.sorted.sublist inside
    rw [@Stable.Sorted.insert_filter_accepted _ _ _ heap.off xml some (heap.name · == heap.name xml) sorted
      (beq_self_eq_true _)]
    refine Stable.insert_first fun tag among => ?_
    obtain ⟨member, called⟩ := List.mem_filter.mp among
    exact least tag (inside.subset member) (eq_of_beq called)
  have old : found.2 = (tags.filter (heap.name · == heap.name xml)).head? := by
    rw [searched, ← first.found, List.head?_filter, List.find?_eq_head?_dropWhile_not]
  refine ⟨_, _, by rw [linkFirst, ← begins, ← keptBegins, stops, Option.map_some], ?_, ?_, ?_⟩
  · refine ⟨Stable.insert heap.off xml kept, placed, ?_, typed.sorted.insert_sublist keptIn, ?_⟩
    · exact Stable.insert_head? (keptBegins.trans first.begins)
    · intro name
      change ((Stable.insert heap.off xml kept).filter (heap.name · == name)).head? =
        ((Stable.insert heap.off xml tags).filter (heap.name · == name)).head?
      by_cases alike : heap.name xml = name
      · subst alike
        rw [leads kept keptIn, leads tags (List.Sublist.refl _), List.head?_cons, List.head?_cons]
      · rw [Stable.insert_filter_rejected (by simpa using alike), Stable.insert_filter_rejected (by simpa using alike),
          others name (Ne.symm alike)]
        exact first.found name
  · intro name
    by_cases alike : heap.name xml = name
    · subst alike
      rw [leads tags (List.Sublist.refl _), old]
      exact (typed.alike _).putFirst fun among => fresh (List.mem_of_mem_filter among)
    · rw [Stable.insert_filter_rejected (by simpa using alike)]
      exact (typed.alike name).update_outside (fun among => fresh (List.mem_of_mem_filter among)) _
  · intro tag absent
    have differs : tag ≠ xml := fun same => absent (same ▸ List.mem_cons_self ..)
    have notIn : tag ∉ firsts := fun member => absent (List.mem_cons_of_mem _ (first.within.subset member))
    refine ⟨Function.update_of_ne differs .., ?_⟩
    rw [place_outside differs fun member => absent (List.mem_cons_of_mem _ (keptIn.subset (members tag member))),
      same tag notIn]

theorem linkType_inserts (typed : Typed heap tags) (begins : tags.head? = some head) (fresh : xml ∉ tags)
    (enough : tags.length < fuel) :
    ∃ next sibling, linkType fuel heap xml head (heap.off xml) = some { heap with next := next, sibling := sibling } ∧
      Typed { heap with next := next, sibling := sibling } (Stable.insert heap.off xml tags) ∧
      ∀ tag, tag ∉ xml :: tags → next tag = heap.next tag ∧ sibling tag = heap.sibling tag := by
  obtain ⟨firsts, first⟩ := typed.siblings
  have firstsBegin : firsts.head? = some head := first.begins.trans begins
  have searched := @search_linked _ _ _ (fun cur => !(heap.name cur == heap.name xml)) fuel first.linked
    (lt_of_le_of_lt first.within.length_le enough) none
  rw [Option.or_none, firstsBegin] at searched
  have distinct : (Stable.insert heap.off xml tags).Nodup :=
    Stable.insert_perm.nodup_iff.mpr (List.nodup_cons.mpr ⟨fresh, typed.distinct⟩)
  have cur : (firsts.dropWhile fun cur => !(heap.name cur == heap.name xml)).head? =
      (tags.filter (heap.name · == heap.name xml)).head? := by
    rw [← first.found, List.head?_filter, List.find?_eq_head?_dropWhile_not]
  have insertsFirst : (∀ tag ∈ tags, heap.name tag = heap.name xml → heap.off xml < heap.off tag) →
      ∃ next sibling, linkFirst fuel heap xml head
        (firsts.takeWhile fun cur => !(heap.name cur == heap.name xml)).getLast?
          (tags.filter (heap.name · == heap.name xml)).head? (heap.off xml) =
            some { heap with next := next, sibling := sibling } ∧
        Typed { heap with next := next, sibling := sibling } (Stable.insert heap.off xml tags) ∧
        ∀ tag, tag ∉ xml :: tags → next tag = heap.next tag ∧ sibling tag = heap.sibling tag := by
    intro least
    obtain ⟨next, sibling, links, ⟨later, firsts'⟩, alike, frame⟩ :=
      linkFirst_inserts typed first fresh firstsBegin rfl least enough
    rw [← cur]
    exact ⟨next, sibling, links,
      ⟨distinct, typed.sorted.insert, ⟨later, firsts'.linked, firsts'.begins, firsts'.within, firsts'.found⟩,
        alike⟩, frame⟩
  rw [linkType, searched, Option.bind_some, cur]
  cases same : tags.filter (heap.name · == heap.name xml) with
  | nil =>
      rw [same] at insertsFirst
      refine insertsFirst fun tag member called => ?_
      exact absurd (by simpa using called) (List.filter_eq_nil_iff.mp same tag member)
  | cons old rest =>
      have oldIn : old ∈ tags.filter (heap.name · == heap.name xml) := same ▸ List.mem_cons_self ..
      have oldest : ∀ tag ∈ tags, heap.name tag = heap.name xml → heap.off old ≤ heap.off tag := by
        intro tag member called
        have sorted : Stable.Sorted heap.off (old :: rest) := same ▸ typed.sorted.sublist List.filter_sublist
        have among : tag ∈ old :: rest := same ▸ List.mem_filter.mpr ⟨member, beq_iff_eq.mpr called⟩
        rcases List.mem_cons.mp among with rfl | later
        · exact le_rfl
        · exact (List.pairwise_cons.mp sorted).1 tag later
      simp only [List.head?_cons]
      by_cases before : heap.off old ≤ heap.off xml
      · rw [if_pos before]
        obtain ⟨next, links, alike, frame⟩ := linkLater_inserts typed fresh same before enough
        refine ⟨next, heap.sibling, links, ⟨distinct, typed.sorted.insert, ⟨firsts, first.linked, ?_, ?_, ?_⟩, alike⟩,
          fun tag outside => ⟨frame tag outside, rfl⟩⟩
        · cases tags with
          | nil => exact absurd (List.mem_of_mem_filter oldIn) List.not_mem_nil
          | cons least later =>
              have small : heap.off least ≤ heap.off old := by
                rcases List.mem_cons.mp (List.mem_of_mem_filter oldIn) with rfl | behind
                · exact le_rfl
                · exact (List.pairwise_cons.mp typed.sorted).1 old behind
              have placed : Stable.insert heap.off xml (least :: later) = least :: Stable.insert heap.off xml later :=
                if_neg (not_lt.mpr (small.trans before))
              rw [placed, first.begins, List.head?_cons, List.head?_cons]
        · exact first.within.trans (List.sublist_orderedInsert ..)
        · intro name
          refine (first.found name).trans ?_
          by_cases alike : heap.name xml = name
          · subst alike
            have placed : Stable.insert heap.off xml (old :: rest) = old :: Stable.insert heap.off xml rest :=
              if_neg (not_lt.mpr before)
            have accepted := @Stable.Sorted.insert_filter_accepted _ _ _ heap.off xml tags (heap.name · == heap.name xml)
              typed.sorted (beq_self_eq_true _)
            rw [accepted, same, placed, List.head?_cons, List.head?_cons]
          · rw [Stable.insert_filter_rejected (by simpa using alike)]
      · rw [if_neg before]
        rw [same] at insertsFirst
        exact insertsFirst fun tag member called => lt_of_lt_of_le (not_le.mp before) (oldest tag member called)

theorem ezxmlInsert_inserts (listed : Listed heap dest tags) (fresh : xml ∉ tags) (enough : tags.length < fuel) :
    ∃ later, ezxmlInsert fuel heap xml dest off = some later ∧ later.name = heap.name ∧
      later.off = Function.update heap.off xml off ∧ Listed later dest (Stable.insert later.off xml tags) ∧
      (∀ other, other ≠ dest → later.child other = heap.child other) ∧
      ∀ tag, tag ∉ xml :: tags → heap.SameAt later tag := by
  have start : Listed (heap.reset xml dest off) dest tags :=
    listed.congr rfl rfl fun tag member => heap.reset_sameAt (ne_of_mem_of_not_mem member fresh)
  have offset : (heap.reset xml dest off).off xml = off := Function.update_self ..
  cases tags with
  | nil =>
      have empty : (heap.reset xml dest off).child dest = none := listed.child
      have alone : ∀ test : Node → Bool, Linked (heap.reset xml dest off).next ([xml].filter test) := by
        intro test
        by_cases passes : test xml = true
        · rw [List.filter_cons_of_pos passes]
          exact ⟨Function.update_self .., trivial⟩
        · rw [List.filter_cons_of_neg passes]
          trivial
      refine ⟨{ heap.reset xml dest off with child := Function.update heap.child dest (some xml) },
        by rw [ezxmlInsert, empty]; rfl, rfl, rfl, ?_, fun _ differs => Function.update_of_ne differs .., ?_⟩
      · exact {
          distinct := List.nodup_singleton xml
          sorted := List.pairwise_singleton _ _
          siblings := ⟨[xml], ⟨Function.update_self .., trivial⟩, rfl, List.Sublist.refl _, fun _ => rfl⟩
          alike := fun name => alone _
          child := Function.update_self ..
          ordered := ⟨Function.update_self .., trivial⟩ }
      · intro tag outside
        have differs : tag ≠ xml := fun same => outside (same ▸ List.mem_cons_self ..)
        have same : heap.SameAt (heap.reset xml dest off) tag := heap.reset_sameAt differs
        exact ⟨same.off, same.next, same.sibling, same.ordered⟩
  | cons head rest =>
      obtain ⟨ordered, child, ordering, linked, first, others, orderedFrame⟩ :=
        linkOrdered_inserts start fresh (Nat.lt_of_succ_lt enough)
      have typed : Typed { heap.reset xml dest off with ordered := ordered, child := child } (head :: rest) := by
        obtain ⟨firsts, old⟩ := start.siblings
        exact ⟨start.distinct, start.sorted, ⟨firsts, old.linked, old.begins, old.within, old.found⟩, start.alike⟩
      obtain ⟨next, sibling, typing, later, typeFrame⟩ := linkType_inserts typed (List.head?_cons ..) fresh enough
      have begins : (heap.reset xml dest off).child dest = some head := start.child
      have inserts : ezxmlInsert fuel heap xml dest off =
          some { heap.reset xml dest off with next := next, sibling := sibling, ordered := ordered, child := child } := by
        simp only [offset] at ordering typing
        rw [ezxmlInsert, begins]
        simp only [ordering, Option.bind_some]
        exact typing
      refine ⟨_, inserts, rfl, rfl, ?_, others, ?_⟩
      · exact ⟨later, first, linked⟩
      · intro tag outside
        have differs : tag ≠ xml := fun same => outside (same ▸ List.mem_cons_self ..)
        have same : heap.SameAt (heap.reset xml dest off) tag := heap.reset_sameAt differs
        exact ⟨same.off, (typeFrame tag outside).1.trans same.next, (typeFrame tag outside).2.trans same.sibling,
          (orderedFrame tag outside).trans same.ordered⟩

/-! ## Many insertions -/

/-- The sub tags of every tag, each with its own offset and below one tag only -/
structure Forest (heap : Heap Node) (off : Node → Nat) (under : Node → List Node) : Prop where
  listed : ∀ dest, Listed heap dest (under dest)
  apart : ∀ one other tag, tag ∈ under one → tag ∈ under other → one = other
  offsets : ∀ dest, ∀ tag ∈ under dest, heap.off tag = off tag

variable {offs : Node → Nat} {under : Node → List Node} {run : List (Node × Node)}

theorem Forest.insert (forest : Forest heap offs under) (fresh : ∀ dest, xml ∉ under dest)
    (enough : (under dest).length < fuel) :
    ∃ later, ezxmlInsert fuel heap xml dest (offs xml) = some later ∧ later.name = heap.name ∧
      Forest later offs (Function.update under dest (Stable.insert offs xml (under dest))) := by
  obtain ⟨later, inserts, name, off, listed, child, frame⟩ :=
    @ezxmlInsert_inserts _ heap dest xml (under dest) (offs xml) fuel _ (forest.listed dest) (fresh dest) enough
  have offAt : ∀ tag, tag = xml ∨ (∃ dest, tag ∈ under dest) → later.off tag = offs tag := by
    rintro tag (rfl | ⟨owner, member⟩)
    · rw [off, Function.update_self]
    · rw [off, Function.update_of_ne (ne_of_mem_of_not_mem member (fresh owner)), forest.offsets owner tag member]
  have key : Stable.insert later.off xml (under dest) = Stable.insert offs xml (under dest) := by
    refine Stable.insert_congr fun tag member => offAt tag ?_
    exact (List.mem_cons.mp member).imp id fun old => ⟨dest, old⟩
  have member : ∀ owner tag, tag ∈ Function.update under dest (Stable.insert offs xml (under dest)) owner →
      (owner = dest ∧ tag = xml) ∨ tag ∈ under owner := by
    intro owner tag inside
    by_cases same : owner = dest
    · subst same
      rw [Function.update_self] at inside
      exact (Stable.mem_insert.mp inside).imp (fun new => ⟨rfl, new⟩) id
    · rw [Function.update_of_ne same] at inside
      exact .inr inside
  refine ⟨later, inserts, name, ?_, ?_, ?_⟩
  · intro owner
    by_cases same : owner = dest
    · subst same
      rw [Function.update_self, ← key]
      exact listed
    · rw [Function.update_of_ne same]
      refine (forest.listed owner).congr name (child owner same) fun tag inside => frame tag ?_
      intro changed
      rcases List.mem_cons.mp changed with rfl | old
      · exact fresh owner inside
      · exact same (forest.apart owner dest tag inside old)
  · intro one other tag inOne inOther
    rcases member one tag inOne with ⟨rfl, rfl⟩ | oldOne
    · rcases member other tag inOther with ⟨rfl, -⟩ | oldOther
      · rfl
      · exact absurd oldOther (fresh other)
    · rcases member other tag inOther with ⟨rfl, rfl⟩ | oldOther
      · exact absurd oldOne (fresh one)
      · exact forest.apart one other tag oldOne oldOther
  · intro owner tag inside
    exact offAt tag ((member owner tag inside).imp (·.2) fun old => ⟨owner, old⟩)

/-- The tags that are put into one tag -/
def subTags (run : List (Node × Node)) (dest : Node) : List Node :=
  (run.filter (·.2 == dest)).map (·.1)

theorem subTags_self (xml dest : Node) (rest : List (Node × Node)) :
    subTags ((xml, dest) :: rest) dest = xml :: subTags rest dest := by
  simp [subTags]

theorem subTags_other {owner : Node} (differs : dest ≠ owner) (rest : List (Node × Node)) :
    subTags ((xml, dest) :: rest) owner = subTags rest owner := by
  simp [subTags, differs]

def insertedInto (off : Node → Nat) (sorted tags : List Node) : List Node :=
  tags.foldl (fun sorted tag => Stable.insert off tag sorted) sorted

theorem insertAll_forest (forest : Forest heap offs under) (once : (run.map (·.1)).Nodup)
    (fresh : ∀ pair ∈ run, ∀ dest, pair.1 ∉ under dest) (enough : ∀ dest, (under dest).length + run.length < fuel) :
    ∃ later, insertAll fuel offs heap run = some later ∧ later.name = heap.name ∧
      Forest later offs fun dest => insertedInto offs (under dest) (subTags run dest) := by
  induction run generalizing heap under with
  | nil => exact ⟨heap, rfl, rfl, forest⟩
  | cons pair rest ih =>
      obtain ⟨xml, dest⟩ := pair
      obtain ⟨new, onceRest⟩ := List.nodup_cons.mp once
      have short : (under dest).length < fuel := lt_of_le_of_lt (Nat.le_add_right ..) (enough dest)
      obtain ⟨next, inserts, name, forest⟩ := forest.insert (fresh (xml, dest) (List.mem_cons_self ..)) short
      have freshRest : ∀ pair ∈ rest, ∀ owner,
          pair.1 ∉ Function.update under dest (Stable.insert offs xml (under dest)) owner := by
        intro pair member owner inside
        have old := fresh pair (List.mem_cons_of_mem _ member) owner
        by_cases same : owner = dest
        · subst same
          rw [Function.update_self] at inside
          rcases Stable.mem_insert.mp inside with again | before
          · exact new (List.mem_map.mpr ⟨pair, member, again⟩)
          · exact old before
        · rw [Function.update_of_ne same] at inside
          exact old inside
      have enoughRest : ∀ owner,
          (Function.update under dest (Stable.insert offs xml (under dest)) owner).length + rest.length < fuel := by
        intro owner
        have before := enough owner
        rw [List.length_cons] at before
        by_cases same : owner = dest
        · subst same
          rw [Function.update_self, Stable.insert_perm.length_eq, List.length_cons]
          omega
        · rw [Function.update_of_ne same]
          omega
      obtain ⟨later, rests, nameLater, done⟩ := ih forest onceRest freshRest enoughRest
      have lists : (fun owner => insertedInto offs
          (Function.update under dest (Stable.insert offs xml (under dest)) owner)
          (subTags rest owner)) = fun owner => insertedInto offs (under owner) (subTags ((xml, dest) :: rest) owner) := by
        funext owner
        by_cases same : dest = owner
        · subst same
          rw [Function.update_self, subTags_self]
          rfl
        · rw [Function.update_of_ne (Ne.symm same), subTags_other same]
      exact ⟨later, by rw [insertAll, inserts]; exact rests, nameLater.trans name, lists ▸ done⟩

/-- Tags that are inserted once each, in any order and below any tags, are all
found: in the order of their offsets through `child` and `ordered`, and those of
one name with `ezxml_child` and `ezxml_idx`. -/
theorem ezxml_insert_orders (heap : Heap Node) (offs : Node → Nat) (run : List (Node × Node)) (fuel : Nat)
    (empty : ∀ tag, heap.child tag = none) (once : (run.map (·.1)).Nodup) (enough : run.length < fuel) :
    ∃ later, insertAll fuel offs heap run = some later ∧ ∀ dest,
      later.child dest = (Stable.sort offs (subTags run dest)).head? ∧
      Linked later.ordered (Stable.sort offs (subTags run dest)) ∧
      ∀ name, ∃ first, later.ezxmlChild fuel dest name = some first ∧
        ∀ index, later.ezxmlIdx index first =
          ((Stable.sort offs (subTags run dest)).filter (heap.name · == name))[index]? := by
  have nothing : Forest heap offs fun _ => [] := {
    listed := fun dest =>
      ⟨⟨List.nodup_nil, List.Pairwise.nil, ⟨[], trivial, rfl, List.Sublist.refl _, fun _ => rfl⟩, fun _ => trivial⟩,
        empty dest, trivial⟩
    apart := fun _ _ _ inside => absurd inside List.not_mem_nil
    offsets := fun _ _ inside => absurd inside List.not_mem_nil }
  obtain ⟨later, inserts, name, forest⟩ := insertAll_forest nothing once (fun _ _ _ => List.not_mem_nil)
    fun _ => by simpa using enough
  refine ⟨later, inserts, fun dest => ?_⟩
  have listed : Listed later dest (Stable.sort offs (subTags run dest)) := forest.listed dest
  have short : (Stable.sort offs (subTags run dest)).length < fuel := by
    rw [(Stable.sort_perm _).length_eq, subTags, List.length_map]
    exact lt_of_le_of_lt (List.length_filter_le ..) enough
  refine ⟨listed.child, listed.ordered, fun wanted => ⟨_, listed.ezxmlChild_eq short wanted, fun index => ?_⟩⟩
  rw [← name]
  exact Heap.ezxmlIdx_linked (listed.alike wanted) index

/-! ## Three tags -/

def threeTags : Heap Nat where
  name tag := if tag = 2 then [98] else [97]
  off _ := 0
  next _ := none
  sibling _ := none
  ordered _ := none
  child _ := none
  parent _ := none

/-- The tag 3 takes the place of 1 as the first of its name. -/
theorem ezxml_insert_orders_three : ∃ later,
    insertAll 4 (fun tag => 7 - tag) threeTags [(1, 0), (2, 0), (3, 0)] = some later ∧ later.child 0 = some 3 ∧
      later.ezxmlChild 4 0 [97] = some (some 3) ∧ later.ezxmlIdx 1 (some 3) = some 1 := by
  obtain ⟨later, inserts, lists⟩ :=
    ezxml_insert_orders threeTags (fun tag => 7 - tag) [(1, 0), (2, 0), (3, 0)] 4 (fun _ => rfl) (by decide) (by decide)
  obtain ⟨child, -, named⟩ := lists 0
  obtain ⟨first, finds, idx⟩ := named [97]
  have isThree : first = some 3 := idx 0
  subst isThree
  exact ⟨later, inserts, child, finds, idx 1⟩

end Pisces.Xml
