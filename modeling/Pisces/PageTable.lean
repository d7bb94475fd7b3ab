import Mathlib.Data.BitVec
import Mathlib.Logic.Function.Basic

/-! # Four-level page tables

The x86-64 walk over tables in memory, and what storing an entry does to it
while the tables form a tree.
-/

namespace Pisces.PageTable

abbrev Word := BitVec 64

/-- Memory by page address and entry within the page. -/
def Memory := Word → Nat → Word

namespace Memory

def store (memory : Memory) (page : Word) (index : Nat) (word : Word) : Memory :=
  fun otherPage otherIndex => if otherPage = page ∧ otherIndex = index then word else memory otherPage otherIndex

def clear (memory : Memory) (page : Word) : Memory :=
  fun otherPage otherIndex => if otherPage = page then 0#64 else memory otherPage otherIndex

theorem store_same (memory : Memory) (page : Word) (index : Nat) (word : Word) :
    memory.store page index word page index = word := by simp [store]

theorem store_other_page {memory : Memory} {page otherPage : Word} {index otherIndex : Nat} {word : Word}
    (different : otherPage ≠ page) :
    memory.store page index word otherPage otherIndex = memory otherPage otherIndex := by
  simp [store, different]

theorem store_other_index {memory : Memory} {page otherPage : Word} {index otherIndex : Nat} {word : Word}
    (different : otherIndex ≠ index) :
    memory.store page index word otherPage otherIndex = memory otherPage otherIndex := by
  simp [store, different]

end Memory

def present (word : Word) : Bool := word.extractLsb' 0 1 == 1

/-- The page-size bit -/
def large (word : Word) : Bool := word.extractLsb' 7 1 == 1

def tableBase (word : Word) : Word := (word.extractLsb' 12 40).setWidth 64 <<< 12

def base2MB (word : Word) : Word := (word.extractLsb' 21 31).setWidth 64 <<< 21

def base1GB (word : Word) : Word := (word.extractLsb' 30 22).setWidth 64 <<< 30

def index4 (va : Word) : Nat := (va.extractLsb' 39 9).toNat

def index3 (va : Word) : Nat := (va.extractLsb' 30 9).toNat

def index2 (va : Word) : Nat := (va.extractLsb' 21 9).toNat

def index1 (va : Word) : Nat := (va.extractLsb' 12 9).toNat

def offset (bits : Nat) (va : Word) : Word := (va.extractLsb' 0 bits).setWidth 64

/-! The indices and the base of a table as code computes them, by shifts -/

def pml4e64Index (address : Word) : Nat := ((address >>> 39) &&& 0x1ff#64).toNat

def pdpe64Index (address : Word) : Nat := ((address >>> 30) &&& 0x1ff#64).toNat

def pde64Index (address : Word) : Nat := ((address >>> 21) &&& 0x1ff#64).toNat

def baseToPageAddr (base : Word) : Word := base <<< 12

theorem and_nine_bits (word : Word) : (word &&& 0x1ff#64).toNat = word.toNat % 512 := by
  rw [BitVec.toNat_and]
  exact Nat.and_two_pow_sub_one_eq_mod word.toNat 9

/-- The upper bits repeat bit 47. -/
def canonical (va : Word) : Bool :=
  va.extractLsb' 47 17 == 0 || va.extractLsb' 47 17 == BitVec.allOnes 17

/-- The reserved bits of an entry for a 2MB page -/
def reserved2MB (word : Word) : Bool := word.extractLsb' 13 8 != 0

/-- Fills in an entry that is not present. -/
def Memory.ensure (memory : Memory) (page : Word) (index : Nat) (make : Word → Word) : Memory :=
  if present (memory page index) then memory else memory.store page index (make (memory page index))

/-- The table of 2MB entries below a pair of upper entries, linked in where it
is missing -/
def Memory.route (memory : Memory) (root : Word) (i j : Nat) (make4 make3 : Word → Word) : Memory × Word :=
  let upper := memory.ensure root i make4
  let table := tableBase (upper root i)
  let lower := upper.ensure table j make3
  (lower, tableBase (lower table j))

/-- The walk from the table at `root`; `none` is a page fault. -/
def walk (memory : Memory) (root va : Word) : Option Word :=
  let entry4 := memory root (index4 va)
  let entry3 := memory (tableBase entry4) (index3 va)
  let entry2 := memory (tableBase entry3) (index2 va)
  let entry1 := memory (tableBase entry2) (index1 va)
  if !canonical va then none
  else if !present entry4 || large entry4 then none
  else if !present entry3 then none
  else if large entry3 then some (base1GB entry3 + offset 30 va)
  else if !present entry2 then none
  else if large entry2 then
    if reserved2MB entry2 then none else some (base2MB entry2 + offset 21 va)
  else if !present entry1 then none
  else some (tableBase entry1 + offset 12 va)

/-- Where a page stands in the tree of tables. -/
inductive Role where
  | free
  | root
  | table3 (index4 : Nat)
  | table2 (index4 index3 : Nat)
  | other

/-- The entry leads to the table at `page`. -/
structure Links (word page : Word) : Prop where
  isPresent : present word = true
  isTable : large word = false
  leads : tableBase word = page

/-- The entry maps a 2MB page. -/
structure Maps (word : Word) : Prop where
  isPresent : present word = true
  isLarge : large word = true
  legal : reserved2MB word = false

/-- The tables below `root` form a tree: every table has one place. -/
structure Shaped (memory : Memory) (root : Word) (role : Word → Role) : Prop where
  root_role : role root = .root
  level4 : ∀ i, memory root i = 0#64 ∨ ∃ page, Links (memory root i) page ∧ role page = .table3 i
  level3 : ∀ page i j, role page = .table3 i →
    memory page j = 0#64 ∨ ∃ directory, Links (memory page j) directory ∧ role directory = .table2 i j
  level2 : ∀ page i j k, role page = .table2 i j → memory page k = 0#64 ∨ Maps (memory page k)
  free_zero : ∀ page i, role page = .free → memory page i = 0#64

/-- The table of 2MB entries for a pair of upper indices -/
def directory (memory : Memory) (root : Word) (i j : Nat) : Option Word :=
  if present (memory root i) && present (memory (tableBase (memory root i)) j) then
    some (tableBase (memory (tableBase (memory root i)) j))
  else none

def lookup (memory : Memory) (root : Word) (i j k : Nat) : Option Word :=
  (directory memory root i j).bind fun page =>
    if present (memory page k) then some (base2MB (memory page k)) else none

theorem present_zero : present 0#64 = false := by decide

theorem lookup_congr {memory after : Memory} {root : Word} {i j k : Nat}
    (directories : directory after root i j = directory memory root i j)
    (entries : ∀ page, directory memory root i j = some page → after page k = memory page k) :
    lookup after root i j k = lookup memory root i j k := by
  rw [lookup, lookup, directories]
  cases reached : directory memory root i j with
  | none => rfl
  | some page => simp only [Option.bind_some, entries page reached]

theorem Memory.ensure_of_zero {memory : Memory} {page : Word} {index : Nat} (make : Word → Word)
    (zero : memory page index = 0#64) : memory.ensure page index make = memory.store page index (make 0#64) := by
  rw [ensure, zero, present_zero, if_neg Bool.false_ne_true]

section Tree

variable {memory : Memory} {root : Word} {role : Word → Role}

namespace Shaped

theorem links4 (shaped : Shaped memory root role) {i : Nat} (given : present (memory root i) = true) :
    ∃ page, Links (memory root i) page ∧ role page = .table3 i := by
  rcases shaped.level4 i with zero | linked
  · rw [zero, present_zero] at given
    cases given
  · exact linked

theorem links3 (shaped : Shaped memory root role) {page : Word} {i j : Nat} (placed : role page = .table3 i)
    (given : present (memory page j) = true) :
    ∃ directory, Links (memory page j) directory ∧ role directory = .table2 i j := by
  rcases shaped.level3 page i j placed with zero | linked
  · rw [zero, present_zero] at given
    cases given
  · exact linked

theorem maps2 (shaped : Shaped memory root role) {page : Word} {i j k : Nat} (placed : role page = .table2 i j)
    (given : present (memory page k) = true) : Maps (memory page k) := by
  rcases shaped.level2 page i j k placed with zero | mapped
  · rw [zero, present_zero] at given
    cases given
  · exact mapped

theorem role_tableBase (shaped : Shaped memory root role) {i : Nat} (given : present (memory root i) = true) :
    role (tableBase (memory root i)) = .table3 i := by
  obtain ⟨page, links, placed⟩ := shaped.links4 given
  rwa [links.leads]

theorem role_directory (shaped : Shaped memory root role) {i j : Nat} {page : Word}
    (found : directory memory root i j = some page) : role page = .table2 i j := by
  unfold directory at found
  split at found
  next given =>
    rw [Bool.and_eq_true] at given
    obtain ⟨next, links, placed⟩ := shaped.links3 (shaped.role_tableBase given.1) given.2
    rw [← Option.some.inj found, links.leads]
    exact placed
  next => cases found

/-- On a tree of 2MB pages the walk is a lookup by three indices. -/
theorem walk_eq (shaped : Shaped memory root role) (va : Word) :
    walk memory root va =
      if canonical va then
        (lookup memory root (index4 va) (index3 va) (index2 va)).map (· + offset 21 va)
      else none := by
  simp only [walk, lookup, directory]
  by_cases legal : canonical va = true
  swap
  · simp [legal]
  by_cases given4 : present (memory root (index4 va)) = true
  swap
  · simp [legal, given4]
  obtain ⟨table3, links4, placed3⟩ := shaped.links4 given4
  rw [links4.leads]
  by_cases given3 : present (memory table3 (index3 va)) = true
  swap
  · simp [legal, given4, given3, links4.isTable]
  obtain ⟨table2, links3, placed2⟩ := shaped.links3 placed3 given3
  rw [links3.leads]
  by_cases given2 : present (memory table2 (index2 va)) = true
  swap
  · simp [legal, given4, given3, given2, links4.isTable, links3.isTable]
  have maps := shaped.maps2 placed2 given2
  simp [legal, given4, given3, given2, links4.isTable, links3.isTable, maps.isLarge, maps.legal]

theorem ne_of_role (role : Word → Role) {page otherPage : Word} (different : role otherPage ≠ role page) :
    otherPage ≠ page :=
  fun same => different (congrArg role same)

section Leaf

variable {page : Word} {i j : Nat}

theorem directory_store_leaf (shaped : Shaped memory root role) (placed : role page = .table2 i j) (k : Nat)
    (word : Word) (a b : Nat) :
    directory (memory.store page k word) root a b = directory memory root a b := by
  have rootKept : memory.store page k word root a = memory root a :=
    Memory.store_other_page (ne_of_role role (by simp [shaped.root_role, placed]))
  unfold directory
  rw [rootKept]
  by_cases given : present (memory root a) = true
  · have tableKept : memory.store page k word (tableBase (memory root a)) b = memory (tableBase (memory root a)) b :=
      Memory.store_other_page (ne_of_role role (by simp [shaped.role_tableBase given, placed]))
    rw [tableKept]
  · simp [given]

theorem store_leaf (shaped : Shaped memory root role) (placed : role page = .table2 i j) (k : Nat)
    {word : Word} (maps : Maps word) : Shaped (memory.store page k word) root role where
  root_role := shaped.root_role
  level4 a := by
    rw [Memory.store_other_page (ne_of_role role (by simp [shaped.root_role, placed]))]
    exact shaped.level4 a
  level3 table a b tablePlaced := by
    rw [Memory.store_other_page (ne_of_role role (by simp [tablePlaced, placed]))]
    exact shaped.level3 table a b tablePlaced
  level2 table a b c tablePlaced := by
    by_cases here : table = page ∧ c = k
    · obtain ⟨rfl, rfl⟩ := here
      rw [Memory.store_same]
      exact .inr maps
    · rw [Memory.store, if_neg here]
      exact shaped.level2 table a b c tablePlaced
  free_zero table a tablePlaced := by
    rw [Memory.store_other_page (ne_of_role role (by simp [tablePlaced, placed]))]
    exact shaped.free_zero table a tablePlaced

/-- Filling in a 2MB entry maps its page where nothing was mapped. -/
theorem lookup_ensure_leaf (shaped : Shaped memory root role) (found : directory memory root i j = some page)
    (k : Nat) {make : Word → Word} (maps : Maps (make 0#64)) (a b c : Nat) :
    lookup (memory.ensure page k make) root a b c =
      (lookup memory root a b c).or (if a = i ∧ b = j ∧ c = k then some (base2MB (make 0#64)) else none) := by
  have placed := shaped.role_directory found
  by_cases given : present (memory page k) = true
  · rw [Memory.ensure, if_pos given]
    split
    next here =>
      obtain ⟨rfl, rfl, rfl⟩ := here
      simp [lookup, found, given]
    next => simp
  · have zero : memory page k = 0#64 := (shaped.level2 page i j k placed).resolve_right fun maps => given maps.isPresent
    rw [Memory.ensure, if_neg given, zero, lookup, lookup, shaped.directory_store_leaf placed]
    cases reached : directory memory root a b with
    | none =>
        have elsewhere : ¬ (a = i ∧ b = j ∧ c = k) := by
          rintro ⟨rfl, rfl, -⟩
          cases found.symm.trans reached
        simp [elsewhere]
    | some table =>
        by_cases here : a = i ∧ b = j ∧ c = k
        · obtain ⟨rfl, rfl, rfl⟩ := here
          obtain rfl : page = table := Option.some.inj (found.symm.trans reached)
          simp [Memory.store_same, zero, present_zero, maps.isPresent]
        · have kept : memory.store page k (make 0#64) table c = memory table c := by
            rw [Memory.store, if_neg]
            rintro ⟨rfl, rfl⟩
            have same := (shaped.role_directory reached).symm.trans placed
            injection same with first second
            exact here ⟨first, second, rfl⟩
          simp [kept, here]

theorem ensure_leaf (shaped : Shaped memory root role) (found : directory memory root i j = some page)
    (k : Nat) {make : Word → Word} (maps : Maps (make 0#64)) :
    Shaped (memory.ensure page k make) root role ∧
      directory (memory.ensure page k make) root i j = some page := by
  have placed := shaped.role_directory found
  by_cases given : present (memory page k) = true
  · rw [Memory.ensure, if_pos given]
    exact ⟨shaped, found⟩
  · have zero : memory page k = 0#64 := (shaped.level2 page i j k placed).resolve_right fun maps => given maps.isPresent
    rw [Memory.ensure, if_neg given, zero, shaped.directory_store_leaf placed]
    exact ⟨shaped.store_leaf placed k maps, found⟩

end Leaf

section Link

variable {target word : Word} {i j : Nat}

theorem update_role {page : Word} {place newPlace : Role} (fresh : role target = .free) (placed : role page = place)
    (used : place ≠ .free) : Function.update role target newPlace page = place := by
  have different : page ≠ target := ne_of_role role (by rw [placed, fresh]; exact used)
  rw [Function.update_of_ne different, placed]

/-- A page keeps the place it had, unless it is the one just linked. -/
theorem role_of_update {page : Word} {place newPlace : Role}
    (placed : Function.update role target newPlace page = place) (different : place ≠ newPlace) :
    page ≠ target ∧ role page = place := by
  have other : page ≠ target := by
    rintro rfl
    rw [Function.update_self] at placed
    exact different placed.symm
  rw [Function.update_of_ne other] at placed
  exact ⟨other, placed⟩

/-- Linking a free page from the root maps nothing. -/
theorem store_root (shaped : Shaped memory root role) (fresh : role target = .free) (links : Links word target) :
    Shaped (memory.store root i word) root (Function.update role target (.table3 i)) where
  root_role := update_role fresh shaped.root_role (by simp)
  level4 a := by
    by_cases here : a = i
    · subst here
      rw [Memory.store_same]
      exact .inr ⟨target, links, Function.update_self ..⟩
    · rw [Memory.store_other_index here]
      refine (shaped.level4 a).imp_right fun ⟨page, linked, placed⟩ => ?_
      exact ⟨page, linked, update_role fresh placed (by simp)⟩
  level3 page a b placed := by
    by_cases new : page = target
    · subst new
      rw [Memory.store_other_page (ne_of_role role (by simp [shaped.root_role, fresh]))]
      exact .inl (shaped.free_zero page b fresh)
    · rw [Function.update_of_ne new] at placed
      rw [Memory.store_other_page (ne_of_role role (by simp [shaped.root_role, placed]))]
      refine (shaped.level3 page a b placed).imp_right fun ⟨directory, linked, below⟩ => ?_
      exact ⟨directory, linked, update_role fresh below (by simp)⟩
  level2 page a b c placed := by
    obtain ⟨-, kept⟩ := role_of_update placed (by simp)
    rw [Memory.store_other_page (ne_of_role role (by simp [shaped.root_role, kept]))]
    exact shaped.level2 page a b c kept
  free_zero page a placed := by
    obtain ⟨-, kept⟩ := role_of_update placed (by simp)
    rw [Memory.store_other_page (ne_of_role role (by simp [shaped.root_role, kept]))]
    exact shaped.free_zero page a kept

/-- Linking a free page from a table of the third level -/
theorem store_table {page : Word} (shaped : Shaped memory root role) (placed : role page = .table3 i)
    (fresh : role target = .free) (links : Links word target) :
    Shaped (memory.store page j word) root (Function.update role target (.table2 i j)) where
  root_role := update_role fresh shaped.root_role (by simp)
  level4 a := by
    rw [Memory.store_other_page (ne_of_role role (by simp [shaped.root_role, placed]))]
    refine (shaped.level4 a).imp_right fun ⟨table, linked, below⟩ => ?_
    exact ⟨table, linked, update_role fresh below (by simp)⟩
  level3 table a b tablePlaced := by
    obtain ⟨-, kept⟩ := role_of_update tablePlaced (by simp)
    by_cases here : table = page ∧ b = j
    · obtain ⟨rfl, rfl⟩ := here
      obtain rfl : i = a := by injection placed.symm.trans kept
      rw [Memory.store_same]
      exact .inr ⟨target, links, Function.update_self ..⟩
    · rw [Memory.store, if_neg here]
      refine (shaped.level3 table a b kept).imp_right fun ⟨directory, linked, below⟩ => ?_
      exact ⟨directory, linked, update_role fresh below (by simp)⟩
  level2 table a b c tablePlaced := by
    by_cases new : table = target
    · subst new
      rw [Memory.store_other_page (ne_of_role role (by simp [placed, fresh]))]
      exact .inl (shaped.free_zero table c fresh)
    · rw [Function.update_of_ne new] at tablePlaced
      rw [Memory.store_other_page (ne_of_role role (by simp [placed, tablePlaced]))]
      exact shaped.level2 table a b c tablePlaced
  free_zero table a tablePlaced := by
    obtain ⟨-, kept⟩ := role_of_update tablePlaced (by simp)
    rw [Memory.store_other_page (ne_of_role role (by simp [placed, kept]))]
    exact shaped.free_zero table a kept

theorem lookup_store_root (shaped : Shaped memory root role) (zero : memory root i = 0#64)
    (fresh : role target = .free) (links : Links word target) (a b c : Nat) :
    lookup (memory.store root i word) root a b c = lookup memory root a b c := by
  have kept : ∀ page, role page ≠ .root → ∀ n, memory.store root i word page n = memory page n :=
    fun page placed n => Memory.store_other_page (ne_of_role role (by rw [shaped.root_role]; exact placed))
  have directories : directory (memory.store root i word) root a b = directory memory root a b := by
    by_cases here : a = i
    · subst here
      have empty : memory target b = 0#64 := shaped.free_zero target b fresh
      simp [directory, Memory.store_same, links.leads, kept target (by simp [fresh]), empty, zero, present_zero]
    · rw [directory, directory, Memory.store_other_index here]
      by_cases given : present (memory root a) = true
      · rw [kept _ (by simp [shaped.role_tableBase given])]
      · simp [given]
  refine lookup_congr directories fun page reached => kept page ?_ c
  simp [shaped.role_directory reached]

theorem store_table_lookup {page : Word} (shaped : Shaped memory root role) (linked : Links (memory root i) page)
    (zero : memory page j = 0#64) (fresh : role target = .free) (links : Links word target) :
    directory (memory.store page j word) root i j = some target ∧
      ∀ a b c, lookup (memory.store page j word) root a b c = lookup memory root a b c := by
  have placed : role page = .table3 i := by
    rw [← linked.leads]
    exact shaped.role_tableBase linked.isPresent
  have rootKept : ∀ n, memory.store page j word root n = memory root n :=
    fun n => Memory.store_other_page (ne_of_role role (by simp [shaped.root_role, placed]))
  have kept : ∀ table, role table ≠ .table3 i → ∀ n, memory.store page j word table n = memory table n :=
    fun table other n => Memory.store_other_page (ne_of_role role (by rw [placed]; exact other))
  have reaches : directory (memory.store page j word) root i j = some target := by
    simp [directory, rootKept, linked.isPresent, linked.leads, Memory.store_same, links.isPresent, links.leads]
  refine ⟨reaches, fun a b c => ?_⟩
  by_cases here : a = i ∧ b = j
  · obtain ⟨rfl, rfl⟩ := here
    have unmapped : directory memory root a b = none := by simp [directory, linked.leads, zero, present_zero]
    have empty : memory.store page b word target c = 0#64 := by
      rw [kept target (by simp [fresh])]
      exact shaped.free_zero target c fresh
    simp [lookup, reaches, unmapped, empty, present_zero]
  · have directories : directory (memory.store page j word) root a b = directory memory root a b := by
      rw [directory, directory, rootKept]
      by_cases given : present (memory root a) = true
      · have entryKept : memory.store page j word (tableBase (memory root a)) b =
          memory (tableBase (memory root a)) b := by
          rw [Memory.store, if_neg]
          rintro ⟨same, rfl⟩
          have upper := shaped.role_tableBase given
          rw [same, placed] at upper
          injection upper with upper
          exact here ⟨upper.symm, rfl⟩
        rw [entryKept]
      · simp [given]
    refine lookup_congr directories fun table reached => kept table ?_ c
    simp [shaped.role_directory reached]

theorem ensure_root {make : Word → Word} (shaped : Shaped memory root role) (i : Nat) (fresh : role target = .free)
    (links : Links (make 0#64) target) :
    ∃ newRole, Shaped (memory.ensure root i make) root newRole ∧
      present (memory.ensure root i make root i) = true ∧
      (∀ page, page ≠ target → role page = .free → newRole page = .free) ∧
      ∀ a b c, lookup (memory.ensure root i make) root a b c = lookup memory root a b c := by
  by_cases given : present (memory root i) = true
  · rw [Memory.ensure, if_pos given]
    exact ⟨role, shaped, given, fun _ _ free => free, fun _ _ _ => rfl⟩
  · have zero : memory root i = 0#64 := (shaped.level4 i).resolve_right fun ⟨_, linked, _⟩ => given linked.isPresent
    rw [Memory.ensure, if_neg given, zero]
    refine ⟨_, shaped.store_root fresh links, ?_, ?_, shaped.lookup_store_root zero fresh links⟩
    · rw [Memory.store_same]
      exact links.isPresent
    · intro page other free
      rw [Function.update_of_ne other, free]

theorem ensure_table {page : Word} {make : Word → Word} (shaped : Shaped memory root role)
    (linked : Links (memory root i) page) (j : Nat) (fresh : role target = .free) (links : Links (make 0#64) target) :
    ∃ newRole, Shaped (memory.ensure page j make) root newRole ∧
      directory (memory.ensure page j make) root i j = some (tableBase (memory.ensure page j make page j)) ∧
      (∀ table, table ≠ target → role table = .free → newRole table = .free) ∧
      ∀ a b c, lookup (memory.ensure page j make) root a b c = lookup memory root a b c := by
  have placed : role page = .table3 i := by
    rw [← linked.leads]
    exact shaped.role_tableBase linked.isPresent
  by_cases given : present (memory page j) = true
  · rw [Memory.ensure, if_pos given]
    refine ⟨role, shaped, ?_, fun _ _ free => free, fun _ _ _ => rfl⟩
    simp [directory, linked.isPresent, linked.leads, given]
  · have zero : memory page j = 0#64 :=
      (shaped.level3 page i j placed).resolve_right fun ⟨_, linked, _⟩ => given linked.isPresent
    rw [Memory.ensure, if_neg given, zero]
    obtain ⟨reaches, unchanged⟩ := shaped.store_table_lookup linked zero fresh links
    refine ⟨_, shaped.store_table placed fresh links, ?_, ?_, unchanged⟩
    · rw [Memory.store_same, links.leads]
      exact reaches
    · intro table other free
      rw [Function.update_of_ne other, free]

/-- Routing to a table leaves every translation alone, and the pages it does not
need free. -/
theorem route_spec {next : Word} {make4 make3 : Word → Word} (shaped : Shaped memory root role) (i j : Nat)
    (fresh4 : role target = .free) (links4 : Links (make4 0#64) target)
    (fresh3 : role next = .free) (links3 : Links (make3 0#64) next) (distinct : next ≠ target) :
    ∃ newRole, Shaped (memory.route root i j make4 make3).1 root newRole ∧
      directory (memory.route root i j make4 make3).1 root i j = some (memory.route root i j make4 make3).2 ∧
      (∀ page, page ≠ target → page ≠ next → role page = .free → newRole page = .free) ∧
      ∀ a b c, lookup (memory.route root i j make4 make3).1 root a b c = lookup memory root a b c := by
  obtain ⟨upperRole, upperShaped, given, upperFree, upperSame⟩ := shaped.ensure_root i fresh4 links4
  obtain ⟨page, linked, -⟩ := upperShaped.links4 given
  obtain ⟨lowerRole, lowerShaped, reaches, lowerFree, lowerSame⟩ :=
    upperShaped.ensure_table linked j (upperFree next distinct fresh3) links3
  simp only [Memory.route, linked.leads]
  refine ⟨lowerRole, lowerShaped, reaches, ?_, fun a b c => (lowerSame a b c).trans (upperSame a b c)⟩
  intro other notTarget notNext free
  exact lowerFree other notNext (upperFree other notTarget free)

end Link

end Shaped

end Tree

section Address

theorem index4_eq (va : Word) : index4 va = va.toNat / 0x8000000000 % 512 := by
  rw [index4, BitVec.extractLsb'_toNat, Nat.shiftRight_eq_div_pow]

theorem index3_eq (va : Word) : index3 va = va.toNat / 0x40000000 % 512 := by
  rw [index3, BitVec.extractLsb'_toNat, Nat.shiftRight_eq_div_pow]

theorem index2_eq (va : Word) : index2 va = va.toNat / 0x200000 % 512 := by
  rw [index2, BitVec.extractLsb'_toNat, Nat.shiftRight_eq_div_pow]

theorem offset21_toNat (va : Word) : (offset 21 va).toNat = va.toNat % 0x200000 := by
  rw [offset, BitVec.toNat_setWidth, BitVec.extractLsb'_toNat, Nat.shiftRight_zero, Nat.mod_eq_of_lt]
  omega

theorem canonical_iff (va : Word) :
    canonical va = true ↔ va.toNat < 0x800000000000 ∨ 0xffff800000000000 ≤ va.toNat := by
  have upper : (va.extractLsb' 47 17).toNat = va.toNat / 0x800000000000 % 0x20000 := by
    rw [BitVec.extractLsb'_toNat, Nat.shiftRight_eq_div_pow]
  have bound : va.toNat < 0x10000000000000000 := va.isLt
  have ones : (BitVec.allOnes 17).toNat = 0x1ffff := by decide
  simp only [canonical, Bool.or_eq_true, beq_iff_eq, BitVec.toNat_eq, upper, ones]
  simp
  omega

end Address

end Pisces.PageTable
