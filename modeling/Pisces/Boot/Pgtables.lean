import Pisces.PageTable
import Pisces.Sweep

/-! # Dumping and walking page tables

`dump_pgtables` and `walk_pgtables` of `pgtables.c`.  Tables are addressed as the
code addresses them, the lower ones through `__va`.
-/

namespace Pisces.Pgtables

open PageTable

/-- `pdp_base_addr`, `pd_base_addr` and `pt_base_addr`, and `page_base_addr` of a
`pte64_t` -/
def baseAddr (entry : Word) : Word := (entry.extractLsb' 12 40).setWidth 64

/-- `page_base_addr` of a `pde64_2MB_t` -/
def pageBaseAddr2MB (entry : Word) : Word := (entry.extractLsb' 21 31).setWidth 64

/-- `page_base_addr` of a `pdpe64_1GB_t` -/
def pageBaseAddr1GB (entry : Word) : Word := (entry.extractLsb' 30 22).setWidth 64

def baseToPageAddr2MB (base : Word) : Word := base <<< 21

def baseToPageAddr1GB (base : Word) : Word := base <<< 30

def pte64Index (address : Word) : Nat := ((address >>> 12) &&& 0x1ff#64).toNat

def pageSize4KB : Word := 4096#64

def pageSize2MB : Word := 4096#64 * 512#64

def pageSize1GB : Word := 0x40000000#64

structure Page where
  size : Word
  base : Word
  deriving DecidableEq

section Code

variable (memory : Memory) (va : Word → Word)

/-- The page that is printed before 0 is returned; `none` is the return value -1. -/
def dumpPgtables (pgtPtr vaddr : Word) : Option Page :=
  if pgtPtr = 0 then none
  else
    let pmlEntry := memory pgtPtr (pml4e64Index vaddr)
    if !present pmlEntry then none
    else
      let pdp := va (baseToPageAddr (baseAddr pmlEntry))
      let pdpEntry := memory pdp (pdpe64Index vaddr)
      if !present pdpEntry then none
      else if large pdpEntry then some ⟨pageSize1GB, baseToPageAddr1GB (pageBaseAddr1GB pdpEntry)⟩
      else
        let pd := va (baseToPageAddr (baseAddr pdpEntry))
        let pdEntry := memory pd (pde64Index vaddr)
        if !present pdEntry then none
        else if large pdEntry then some ⟨pageSize2MB, baseToPageAddr2MB (pageBaseAddr2MB pdEntry)⟩
        else
          let pt := va (baseToPageAddr (baseAddr pdEntry))
          let ptEntry := memory pt (pte64Index vaddr)
          if !present ptEntry then none
          else some ⟨pageSize4KB, baseToPageAddr (baseAddr ptEntry)⟩

/-- What a walk does: it comes to an entry, with `addr_iter` as it is then and 0
for the indices of loops that are not entered, or it prints a page. -/
inductive Event where
  | entry (i j k m : Nat) (addrIter : Word)
  | page (addrIter : Word) (page : Page)
  deriving DecidableEq

/-- `addr_iter`, and the events so far -/
abbrev Walk := Sweep.State Word Event

namespace Walk

def visit (walk : Walk) (i j k m : Nat) : Walk :=
  { walk with items := walk.items ++ [.entry i j k m walk.position] }

def print (walk : Walk) (page : Page) : Walk :=
  { walk with items := walk.items ++ [.page walk.position page] }

/-- `addr_iter += size` -/
def pass (walk : Walk) (size : Word) : Walk := { walk with position := walk.position + size }

end Walk

/-- The body of the loop over `m` -/
def walkPt (pt : Word) (i j k : Nat) (walk : Walk) (m : Nat) : Walk :=
  let ptEntry := memory pt m
  if !present ptEntry then (walk.visit i j k m).pass pageSize4KB
  else ((walk.visit i j k m).print ⟨pageSize4KB, baseToPageAddr (baseAddr ptEntry)⟩).pass pageSize4KB

/-- The body of the loop over `k` -/
def walkPd (pd : Word) (i j : Nat) (walk : Walk) (k : Nat) : Walk :=
  let pdEntry := memory pd k
  if !present pdEntry then (walk.visit i j k 0).pass pageSize2MB
  else if large pdEntry then
    ((walk.visit i j k 0).print ⟨pageSize2MB, baseToPageAddr2MB (pageBaseAddr2MB pdEntry)⟩).pass pageSize2MB
  else (List.range 512).foldl (walkPt memory (va (baseToPageAddr (baseAddr pdEntry))) i j k) (walk.visit i j k 0)

/-- The body of the loop over `j` -/
def walkPdp (pdp : Word) (i : Nat) (walk : Walk) (j : Nat) : Walk :=
  let pdpEntry := memory pdp j
  if !present pdpEntry then (walk.visit i j 0 0).pass pageSize1GB
  else if large pdpEntry then
    ((walk.visit i j 0 0).print ⟨pageSize1GB, baseToPageAddr1GB (pageBaseAddr1GB pdpEntry)⟩).pass pageSize1GB
  else (List.range 512).foldl (walkPd memory va (va (baseToPageAddr (baseAddr pdpEntry))) i j) (walk.visit i j 0 0)

/-- The body of the loop over `i` -/
def walkPml (pml : Word) (walk : Walk) (i : Nat) : Walk :=
  let pmlEntry := memory pml i
  if !present pmlEntry then (walk.visit i 0 0 0).pass (pageSize1GB * 512#64)
  else (List.range 512).foldl (walkPdp memory va (va (baseToPageAddr (baseAddr pmlEntry))) i) (walk.visit i 0 0 0)

/-- The return value and the walk -/
def walkPgtables (pgtPtr : Word) : Int × Walk :=
  if pgtPtr = 0 then (-1, ⟨0#64, []⟩)
  else (0, (List.range 512).foldl (walkPml memory va pgtPtr) ⟨0#64, []⟩)

end Code

/-! ## The events of each level -/

section Events

variable (memory : Memory) (va : Word → Word)

def place (address : Nat) : Word := BitVec.ofNat 64 address

def outPt (pt : Word) (i j k m start : Nat) : List Event :=
  .entry i j k m (place start) ::
    if !present (memory pt m) then []
    else [.page (place start) ⟨pageSize4KB, baseToPageAddr (baseAddr (memory pt m))⟩]

def outPd (pd : Word) (i j k start : Nat) : List Event :=
  .entry i j k 0 (place start) ::
    if !present (memory pd k) then []
    else if large (memory pd k) then
      [.page (place start) ⟨pageSize2MB, baseToPageAddr2MB (pageBaseAddr2MB (memory pd k))⟩]
    else Sweep.collect 0x1000 (outPt memory (va (baseToPageAddr (baseAddr (memory pd k)))) i j k) 512 start

def outPdp (pdp : Word) (i j start : Nat) : List Event :=
  .entry i j 0 0 (place start) ::
    if !present (memory pdp j) then []
    else if large (memory pdp j) then
      [.page (place start) ⟨pageSize1GB, baseToPageAddr1GB (pageBaseAddr1GB (memory pdp j))⟩]
    else Sweep.collect 0x200000 (outPd memory va (va (baseToPageAddr (baseAddr (memory pdp j)))) i j) 512 start

def outPml (pml : Word) (i start : Nat) : List Event :=
  .entry i 0 0 0 (place start) ::
    if !present (memory pml i) then []
    else Sweep.collect 0x40000000 (outPdp memory va (va (baseToPageAddr (baseAddr (memory pml i)))) i) 512 start

variable {memory va}

@[simp] theorem pass_place (items : List Event) (start size : Nat) :
    Walk.pass ⟨place start, items⟩ (BitVec.ofNat 64 size) = ⟨place (start + size), items⟩ := by
  simp [Walk.pass, place, BitVec.ofNat_add]

variable (memory va)

theorem sweeps_pt (pt : Word) (i j k : Nat) :
    Sweep.Sweeps place (walkPt memory pt i j k) 0x1000 (outPt memory pt i j k) := by
  intro start items m
  cases given : present (memory pt m) with
  | false => simp [walkPt, outPt, given, Walk.visit, pageSize4KB]
  | true => simp [walkPt, outPt, given, Walk.visit, Walk.print, pageSize4KB]

theorem sweeps_pd (pd : Word) (i j : Nat) :
    Sweep.Sweeps place (walkPd memory va pd i j) 0x200000 (outPd memory va pd i j) := by
  intro start items k
  have size : pageSize2MB = BitVec.ofNat 64 0x200000 := by decide
  cases given : present (memory pd k) with
  | false => simp [walkPd, outPd, given, Walk.visit, size]
  | true =>
      cases leaf : large (memory pd k) with
      | true => simp [walkPd, outPd, given, leaf, Walk.visit, Walk.print, size]
      | false => simp [walkPd, outPd, given, leaf, Walk.visit, (sweeps_pt memory _ i j k).loop]

theorem sweeps_pdp (pdp : Word) (i : Nat) :
    Sweep.Sweeps place (walkPdp memory va pdp i) 0x40000000 (outPdp memory va pdp i) := by
  intro start items j
  cases given : present (memory pdp j) with
  | false => simp [walkPdp, outPdp, given, Walk.visit, pageSize1GB]
  | true =>
      cases leaf : large (memory pdp j) with
      | true => simp [walkPdp, outPdp, given, leaf, Walk.visit, Walk.print, pageSize1GB]
      | false => simp [walkPdp, outPdp, given, leaf, Walk.visit, (sweeps_pd memory va _ i j).loop]

theorem sweeps_pml (pml : Word) :
    Sweep.Sweeps place (walkPml memory va pml) 0x8000000000 (outPml memory va pml) := by
  intro start items i
  have size : pageSize1GB * 512#64 = BitVec.ofNat 64 0x8000000000 := by decide
  cases given : present (memory pml i) with
  | false => simp [walkPml, outPml, given, Walk.visit, size]
  | true => simp [walkPml, outPml, given, Walk.visit, (sweeps_pdp memory va _ i).loop]

/-! ## The page of an address -/

/-- A printed page and an address in its range -/
def Shows : Event → Nat → Page → Prop
  | .entry .., _, _ => False
  | .page addrIter page, address, found =>
      page = found ∧ addrIter.toNat ≤ address ∧ address < addrIter.toNat + page.size.toNat

def findPt (pt : Word) (m _address : Nat) : Option Page :=
  if !present (memory pt m) then none else some ⟨pageSize4KB, baseToPageAddr (baseAddr (memory pt m))⟩

def findPd (pd : Word) (k address : Nat) : Option Page :=
  if !present (memory pd k) then none
  else if large (memory pd k) then some ⟨pageSize2MB, baseToPageAddr2MB (pageBaseAddr2MB (memory pd k))⟩
  else findPt memory (va (baseToPageAddr (baseAddr (memory pd k)))) (address / 0x1000 % 512) address

def findPdp (pdp : Word) (j address : Nat) : Option Page :=
  if !present (memory pdp j) then none
  else if large (memory pdp j) then some ⟨pageSize1GB, baseToPageAddr1GB (pageBaseAddr1GB (memory pdp j))⟩
  else findPd memory va (va (baseToPageAddr (baseAddr (memory pdp j)))) (address / 0x200000 % 512) address

def findPml (pml : Word) (i address : Nat) : Option Page :=
  if !present (memory pml i) then none
  else findPdp memory va (va (baseToPageAddr (baseAddr (memory pml i)))) (address / 0x40000000 % 512) address

theorem place_toNat {address : Nat} (small : address < 0x1000000000000) : (place address).toNat = address := by
  rw [place, BitVec.toNat_ofNat]
  omega

/-- A printed page is found exactly at the addresses in front of it. -/
theorem shows_page {start address size : Nat} {width base : Word} {found : Page} (sized : width.toNat = size)
    (positive : 0 < size) (fits : start + size ≤ 0x1000000000000) :
    Shows (.page (place start) ⟨width, base⟩) address found ↔
      start ≤ address ∧ address < start + size ∧ ⟨width, base⟩ = found := by
  rw [Shows, sized, place_toNat (by omega), and_comm, and_assoc]

theorem shows_entry {i j k m address : Nat} {addrIter : Word} {found : Page} :
    ¬ Shows (.entry i j k m addrIter) address found :=
  id

theorem locates_pt (pt : Word) (i j k : Nat) :
    Sweep.Locates Shows 0x1000000000000 0x1000 (outPt memory pt i j k) (findPt memory pt) := by
  intro m start address found _ fits
  have sized : pageSize4KB.toNat = 0x1000 := by decide
  cases given : present (memory pt m) with
  | false => simp [outPt, findPt, given, shows_entry]
  | true => simp [outPt, findPt, given, shows_entry, shows_page sized (by decide) fits]

theorem locates_pd (pd : Word) (i j : Nat) :
    Sweep.Locates Shows 0x1000000000000 0x200000 (outPd memory va pd i j) (findPd memory va pd) := by
  intro k start address found aligned fits
  have sized : pageSize2MB.toNat = 0x200000 := by decide
  cases given : present (memory pd k) with
  | false => simp [outPd, findPd, given, shows_entry]
  | true =>
      cases leaf : large (memory pd k) with
      | true => simp [outPd, findPd, given, leaf, shows_entry, shows_page sized (by decide) fits]
      | false =>
          have lower := (locates_pt memory (va (baseToPageAddr (baseAddr (memory pd k)))) i j k).collect
            (by decide) 512 start address found aligned fits
          simpa [outPd, findPd, given, leaf, shows_entry] using lower

theorem locates_pdp (pdp : Word) (i : Nat) :
    Sweep.Locates Shows 0x1000000000000 0x40000000 (outPdp memory va pdp i) (findPdp memory va pdp) := by
  intro j start address found aligned fits
  have sized : pageSize1GB.toNat = 0x40000000 := by decide
  cases given : present (memory pdp j) with
  | false => simp [outPdp, findPdp, given, shows_entry]
  | true =>
      cases leaf : large (memory pdp j) with
      | true => simp [outPdp, findPdp, given, leaf, shows_entry, shows_page sized (by decide) fits]
      | false =>
          have lower := (locates_pd memory va (va (baseToPageAddr (baseAddr (memory pdp j)))) i j).collect
            (by decide) 512 start address found aligned fits
          simpa [outPdp, findPdp, given, leaf, shows_entry] using lower

theorem locates_pml (pml : Word) :
    Sweep.Locates Shows 0x1000000000000 0x8000000000 (outPml memory va pml) (findPml memory va pml) := by
  intro i start address found aligned fits
  cases given : present (memory pml i) with
  | false => simp [outPml, findPml, given, shows_entry]
  | true =>
      have lower := (locates_pdp memory va (va (baseToPageAddr (baseAddr (memory pml i)))) i).collect
        (by decide) 512 start address found aligned fits
      simpa [outPml, findPml, given, shows_entry] using lower

end Events

/-! ## Agreement -/

variable {memory : Memory} {va : Word → Word} {pgtPtr : Word}

theorem walk_items (notNull : pgtPtr ≠ 0) :
    (walkPgtables memory va pgtPtr).2.items = Sweep.collect 0x8000000000 (outPml memory va pgtPtr) 512 0 := by
  have swept := (sweeps_pml memory va pgtPtr).loop 512 0 []
  have start : (⟨0#64, []⟩ : Walk) = ⟨place 0, []⟩ := rfl
  rw [walkPgtables, if_neg notNull, start, swept, List.nil_append]

theorem index_masked (v : BitVec 48) (shift : Nat) :
    ((v.setWidth 64 >>> shift) &&& 0x1ff#64).toNat = v.toNat >>> shift % 512 := by
  have whole : (v.setWidth 64).toNat = v.toNat := by
    rw [BitVec.toNat_setWidth]
    omega
  rw [and_nine_bits, BitVec.toNat_ushiftRight, whole]

/-- The lookup goes through the levels as the walk does. -/
theorem dumpPgtables_eq (notNull : pgtPtr ≠ 0) (v : BitVec 48) :
    dumpPgtables memory va pgtPtr (v.setWidth 64) =
      findPml memory va pgtPtr (v.toNat / 0x8000000000 % 512) v.toNat := by
  have first : pml4e64Index (v.setWidth 64) = v.toNat / 0x8000000000 % 512 := by
    rw [pml4e64Index, index_masked, Nat.shiftRight_eq_div_pow]
  have second : pdpe64Index (v.setWidth 64) = v.toNat / 0x40000000 % 512 := by
    rw [pdpe64Index, index_masked, Nat.shiftRight_eq_div_pow]
  have third : pde64Index (v.setWidth 64) = v.toNat / 0x200000 % 512 := by
    rw [pde64Index, index_masked, Nat.shiftRight_eq_div_pow]
  have fourth : pte64Index (v.setWidth 64) = v.toNat / 0x1000 % 512 := by
    rw [pte64Index, index_masked, Nat.shiftRight_eq_div_pow]
  simp only [dumpPgtables, if_neg notNull, findPml, findPdp, findPd, findPt, first, second, third, fourth]

/-- `addr_iter` stands at the address that the indices of an entry make. -/
def Event.InPlace : Event → Prop
  | .entry i j k m addrIter =>
      addrIter.toNat = i * 0x8000000000 + j * 0x40000000 + k * 0x200000 + m * 0x1000
  | .page .. => True

theorem outPt_inPlace {pt : Word} {i j k m : Nat} (small : i < 512 ∧ j < 512 ∧ k < 512 ∧ m < 512) :
    ∀ event ∈ outPt memory pt i j k m (i * 0x8000000000 + j * 0x40000000 + k * 0x200000 + m * 0x1000),
      event.InPlace := by
  intro event member
  rcases List.mem_cons.mp member with rfl | member
  · exact place_toNat (by omega)
  · split at member
    · cases member
    · rw [List.mem_singleton.mp member]
      trivial

theorem outPd_inPlace {pd : Word} {i j k : Nat} (small : i < 512 ∧ j < 512 ∧ k < 512) :
    ∀ event ∈ outPd memory va pd i j k (i * 0x8000000000 + j * 0x40000000 + k * 0x200000), event.InPlace := by
  intro event member
  rcases List.mem_cons.mp member with rfl | member
  · exact (place_toNat (by omega)).trans (by omega)
  · split at member
    · cases member
    · split at member
      · rw [List.mem_singleton.mp member]
        trivial
      · obtain ⟨m, bound, member⟩ := Sweep.mem_collect.mp member
        exact outPt_inPlace ⟨small.1, small.2.1, small.2.2, bound⟩ event member

theorem outPdp_inPlace {pdp : Word} {i j : Nat} (small : i < 512 ∧ j < 512) :
    ∀ event ∈ outPdp memory va pdp i j (i * 0x8000000000 + j * 0x40000000), event.InPlace := by
  intro event member
  rcases List.mem_cons.mp member with rfl | member
  · exact (place_toNat (by omega)).trans (by omega)
  · split at member
    · cases member
    · split at member
      · rw [List.mem_singleton.mp member]
        trivial
      · obtain ⟨k, bound, member⟩ := Sweep.mem_collect.mp member
        exact outPd_inPlace ⟨small.1, small.2, bound⟩ event member

theorem outPml_inPlace {pml : Word} {i : Nat} (small : i < 512) :
    ∀ event ∈ outPml memory va pml i (i * 0x8000000000), event.InPlace := by
  intro event member
  rcases List.mem_cons.mp member with rfl | member
  · exact (place_toNat (by omega)).trans (by omega)
  · split at member
    · cases member
    · obtain ⟨j, bound, member⟩ := Sweep.mem_collect.mp member
      exact outPdp_inPlace ⟨small, bound⟩ event member

/-- For every 48-bit address the lookup finds the page in whose printed range the
address lies, and it finds one only there; `addr_iter` is right at every entry
that the walk comes to. -/
theorem walk_agrees_with_dump (memory : Memory) (va : Word → Word) (pgtPtr : Word) :
    (∀ (v : BitVec 48) (page : Page), dumpPgtables memory va pgtPtr (v.setWidth 64) = some page ↔
      ∃ addrIter, .page addrIter page ∈ (walkPgtables memory va pgtPtr).2.items ∧
        addrIter.toNat ≤ v.toNat ∧ v.toNat < addrIter.toNat + page.size.toNat) ∧
    ∀ i j k m addrIter, .entry i j k m addrIter ∈ (walkPgtables memory va pgtPtr).2.items →
      addrIter.toNat = i * 0x8000000000 + j * 0x40000000 + k * 0x200000 + m * 0x1000 := by
  by_cases null : pgtPtr = 0
  · simp [dumpPgtables, walkPgtables, null]
  · rw [walk_items null]
    refine ⟨fun v page => ?_, fun i j k m addrIter member => ?_⟩
    · have located := (locates_pml memory va pgtPtr).collect (by decide) 512 0 v.toNat page (Nat.dvd_zero _)
        (by decide)
      have inside : v.toNat < 0 + 512 * 0x8000000000 := by omega
      simp only [Nat.zero_le, inside, true_and] at located
      rw [dumpPgtables_eq null, ← located]
      constructor
      · rintro ⟨event, member, shown⟩
        cases event with
        | entry => exact absurd shown shows_entry
        | page addrIter printed =>
            obtain ⟨rfl, lower, upper⟩ := shown
            exact ⟨addrIter, member, lower, upper⟩
      · rintro ⟨addrIter, member, lower, upper⟩
        exact ⟨_, member, rfl, lower, upper⟩
    · obtain ⟨first, bound, member⟩ := Sweep.mem_collect.mp member
      rw [Nat.zero_add] at member
      exact outPml_inPlace bound _ member

end Pisces.Pgtables
