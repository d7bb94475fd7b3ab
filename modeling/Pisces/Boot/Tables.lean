import Mathlib.Tactic
import Pisces.Bitfield
import Pisces.PageTable

/-! # The page tables of the trampoline

The table-building part of `pisces_setup_trampoline`, with the bit-fields of
`pgtables.h`, against the walk of the processor.  The tables are reached through
`__va` of their physical addresses, so memory is indexed by those.
-/

namespace Pisces.Boot.Tables

open PageTable

/-- The fields of the three kinds of entries -/
inductive EntryField where
  | present
  | writable
  | userPage
  | writeThrough
  | cacheDisable
  | accessed
  | reserved
  | avail
  | dirty
  | largePage
  | globalPage
  | zero
  | vmmInfo
  | pat
  | rsvd
  | pdpBaseAddr
  | pdBaseAddr
  | pageBaseAddr
  | available
  | noExecute
  deriving DecidableEq

/-- The fields of a struct from bit 0 on, with their widths -/
abbrev Layout := List (EntryField × Nat)

def pml4e64 : Layout :=
  [(.present, 1), (.writable, 1), (.userPage, 1), (.writeThrough, 1), (.cacheDisable, 1), (.accessed, 1),
    (.reserved, 1), (.zero, 2), (.vmmInfo, 3), (.pdpBaseAddr, 40), (.available, 11), (.noExecute, 1)]

def pdpe64 : Layout :=
  [(.present, 1), (.writable, 1), (.userPage, 1), (.writeThrough, 1), (.cacheDisable, 1), (.accessed, 1),
    (.avail, 1), (.largePage, 1), (.zero, 1), (.vmmInfo, 3), (.pdBaseAddr, 40), (.available, 11), (.noExecute, 1)]

def pde64_2MB : Layout :=
  [(.present, 1), (.writable, 1), (.userPage, 1), (.writeThrough, 1), (.cacheDisable, 1), (.accessed, 1),
    (.dirty, 1), (.largePage, 1), (.globalPage, 1), (.vmmInfo, 3), (.pat, 1), (.rsvd, 8), (.pageBaseAddr, 31),
    (.available, 11), (.noExecute, 1)]

namespace Layout

def start (layout : Layout) (field : EntryField) : Nat :=
  ((layout.takeWhile (·.1 ≠ field)).map Prod.snd).sum

def width (layout : Layout) (field : EntryField) : Nat :=
  (layout.lookup field).getD 0

def get (layout : Layout) (field : EntryField) (word : Word) : Word :=
  (word.extractLsb' (layout.start field) (layout.width field)).setWidth 64

def set (layout : Layout) (field : EntryField) (value word : Word) : Word :=
  Bitfield.assign word (layout.start field) (value.setWidth (layout.width field))

end Layout

def pageToBaseAddr (address : Word) : Word := address >>> 12

def pageToBaseAddr2MB (address : Word) : Word := address >>> 21

/-- The seven pages allocated for the tables, by page frame number -/
structure TrampolineData where
  pml : BitVec 40
  pdp0 : BitVec 40
  pdp1 : BitVec 40
  pdp2 : BitVec 40
  pd0 : BitVec 40
  pd1 : BitVec 40
  pd2 : BitVec 40
  distinct : [pml, pdp0, pdp1, pdp2, pd0, pd1, pd2].Nodup

/-- `page_to_pfn(page) << PAGE_SHIFT` -/
def frameAddr (pfn : BitVec 40) : Word := pfn.setWidth 64 <<< 12

def setPml4e (pdp word : Word) : Word :=
  pml4e64.set .pdpBaseAddr (pageToBaseAddr pdp) (pml4e64.set .writable 1 (pml4e64.set .present 1 word))

def setPdpe (pd word : Word) : Word :=
  pdpe64.set .pdBaseAddr (pageToBaseAddr pd) (pdpe64.set .writable 1 (pdpe64.set .present 1 word))

def setPde (address word : Word) : Word :=
  pde64_2MB.set .pageBaseAddr (pageToBaseAddr2MB address)
    (pde64_2MB.set .largePage 1 (pde64_2MB.set .writable 1 (pde64_2MB.set .present 1 word)))

section Build

variable (data : TrampolineData)

def initTrampolinePgts (memory : Memory) : Memory :=
  let memory := memory.clear (frameAddr data.pml)
  let memory := memory.clear (frameAddr data.pdp0)
  let memory := memory.clear (frameAddr data.pdp1)
  let memory := memory.clear (frameAddr data.pdp2)
  let memory := memory.clear (frameAddr data.pd0)
  let memory := memory.clear (frameAddr data.pd1)
  let memory := memory.clear (frameAddr data.pd2)
  let memory := memory.store (frameAddr data.pml) 0
    (setPml4e (frameAddr data.pdp0) (memory (frameAddr data.pml) 0))
  let memory := memory.store (frameAddr data.pdp0) 0
    (setPdpe (frameAddr data.pd0) (memory (frameAddr data.pdp0) 0))
  memory.store (frameAddr data.pd0) 0 (setPde 0 (memory (frameAddr data.pd0) 0))

/-- How many entries of one page directory the mapping at `address` takes, cut at
the end of the directory -/
def numPdeEntries (bootmemSize address : Word) : Nat :=
  let entries := bootmemSize.toNat / 0x200000 % 0x100000000
  if entries > 512 - pde64Index address then 512 - pde64Index address else entries

/-- The loop over the 2MB pages -/
def mapPages (memory : Memory) (pd va pa : Word) : Nat → Memory
  | 0 => memory
  | count + 1 =>
      let index := pde64Index va
      let memory :=
        if pde64_2MB.get .present (memory pd index) = 0 then memory.store pd index (setPde pa (memory pd index))
        else memory
      mapPages memory pd (va + 0x200000#64) (pa + 0x200000#64) count

/-- Maps boot memory at `va`, with `pdp` and `pd` for the tables that are missing -/
def mapBootmem (memory : Memory) (bootmemAddr bootmemSize va pdp pd : Word) : Memory :=
  let pml := frameAddr data.pml
  let pmlIndex := pml4e64Index va
  let memory :=
    if pml4e64.get .present (memory pml pmlIndex) = 0 then
      memory.store pml pmlIndex (setPml4e pdp (memory pml pmlIndex))
    else memory
  let pdp := baseToPageAddr (pml4e64.get .pdpBaseAddr (memory pml pmlIndex))
  let pdpIndex := pdpe64Index va
  let memory :=
    if pdpe64.get .present (memory pdp pdpIndex) = 0 then
      memory.store pdp pdpIndex (setPdpe pd (memory pdp pdpIndex))
    else memory
  let pd := baseToPageAddr (pdpe64.get .pdBaseAddr (memory pdp pdpIndex))
  mapPages memory pd va bootmemAddr (numPdeEntries bootmemSize va)

def kernVaBase : Word := 0xffffffff80000000

/-- Boot memory at its own address -/
def mapIdentity (memory : Memory) (bootmemAddr bootmemSize : Word) : Memory :=
  mapBootmem data memory bootmemAddr bootmemSize bootmemAddr (frameAddr data.pdp1) (frameAddr data.pd1)

/-- Boot memory at the kernel's addresses -/
def mapKernel (memory : Memory) (bootmemAddr bootmemSize : Word) : Memory :=
  mapBootmem data memory bootmemAddr bootmemSize kernVaBase (frameAddr data.pdp2) (frameAddr data.pd2)

/-- `pisces_setup_trampoline` up to the tables; a size that is no multiple of
2MB is refused -/
def setupTables (memory : Memory) (bootmemAddr bootmemSize : Word) : Option Memory :=
  if bootmemSize.toNat % 0x200000 ≠ 0 then none
  else
    let memory := initTrampolinePgts data memory
    let memory := mapIdentity data memory bootmemAddr bootmemSize
    some (mapKernel data memory bootmemAddr bootmemSize)

end Build

section Entries

/-- Entries that lead to a table have their fields at the same places. -/
theorem setPml4e_eq (pdp word : Word) :
    setPml4e pdp word =
      Bitfield.assign (Bitfield.assign (Bitfield.assign word 0 1#1) 1 1#1) 12 ((pdp >>> 12).setWidth 40) := rfl

theorem setPdpe_eq (pd word : Word) : setPdpe pd word = setPml4e pd word := rfl

theorem setPde_eq (address word : Word) :
    setPde address word =
      Bitfield.assign (Bitfield.assign (Bitfield.assign (Bitfield.assign word 0 1#1) 1 1#1) 7 1#1) 21
        ((address >>> 21).setWidth 31) := rfl

/-- The base address of a page survives its way through the bit-field. -/
theorem base_round_trip (pfn : BitVec 40) : ((frameAddr pfn >>> 12).setWidth 40 : BitVec 40) = pfn := by
  apply BitVec.eq_of_toNat_eq
  have small := pfn.isLt
  simp only [frameAddr, BitVec.toNat_setWidth, BitVec.toNat_ushiftRight, BitVec.toNat_shiftLeft,
    Nat.shiftRight_eq_div_pow, Nat.shiftLeft_eq, Nat.reducePow] at *
  omega

theorem setPml4e_links (pfn : BitVec 40) : Links (setPml4e (frameAddr pfn) 0#64) (frameAddr pfn) := by
  rw [setPml4e_eq, base_round_trip]
  constructor
  · rw [present, Bitfield.extract_assign_disjoint _ _ _ 0 (by decide) (by decide),
      Bitfield.extract_assign_disjoint _ _ _ 0 (by decide) (by decide),
      Bitfield.extract_assign_same _ _ _ (by decide)]
    rfl
  · rw [large, Bitfield.extract_assign_disjoint _ _ _ 7 (by decide) (by decide),
      Bitfield.extract_assign_disjoint _ _ _ 7 (by decide) (by decide),
      Bitfield.extract_assign_disjoint _ _ _ 7 (by decide) (by decide)]
    rfl
  · rw [tableBase, Bitfield.extract_assign_same _ _ _ (by decide)]
    rfl

theorem setPdpe_links (pfn : BitVec 40) : Links (setPdpe (frameAddr pfn) 0#64) (frameAddr pfn) := by
  rw [setPdpe_eq]
  exact setPml4e_links pfn

theorem setPde_maps (address : Word) : Maps (setPde address 0#64) := by
  rw [setPde_eq]
  constructor
  · rw [present, Bitfield.extract_assign_disjoint _ _ _ 0 (by decide) (by decide),
      Bitfield.extract_assign_disjoint _ _ _ 0 (by decide) (by decide),
      Bitfield.extract_assign_disjoint _ _ _ 0 (by decide) (by decide),
      Bitfield.extract_assign_same _ _ _ (by decide)]
    rfl
  · rw [large, Bitfield.extract_assign_disjoint _ _ _ 7 (by decide) (by decide),
      Bitfield.extract_assign_same _ _ _ (by decide)]
    rfl
  · rw [reserved2MB, Bitfield.extract_assign_disjoint _ _ _ 13 (by decide) (by decide),
      Bitfield.extract_assign_disjoint _ _ _ 13 (by decide) (by decide),
      Bitfield.extract_assign_disjoint _ _ _ 13 (by decide) (by decide),
      Bitfield.extract_assign_disjoint _ _ _ 13 (by decide) (by decide)]
    rfl

/-- A page below 4PB is mapped to itself. -/
theorem base2MB_setPde (address : Word) (aligned : address.toNat % 0x200000 = 0)
    (small : address.toNat < 0x10000000000000) : base2MB (setPde address 0#64) = address := by
  rw [setPde_eq, base2MB, Bitfield.extract_assign_same _ _ _ (by decide)]
  apply BitVec.eq_of_toNat_eq
  simp only [BitVec.toNat_setWidth, BitVec.toNat_ushiftRight, BitVec.toNat_shiftLeft, Nat.shiftRight_eq_div_pow,
    Nat.shiftLeft_eq, Nat.reducePow]
  omega

/-- `!entry->present`, with the field at bit 0 in all three structs -/
theorem absent_iff (word : Word) : (word.extractLsb' 0 1).setWidth 64 = (0 : Word) ↔ ¬ present word = true := by
  rw [present]
  generalize word.extractLsb' 0 1 = bit
  revert bit
  decide

/-- Filling in an entry under the test of the code -/
theorem fill_eq_ensure (memory : Memory) (page : Word) (index : Nat) (make : Word → Word) :
    (if ((memory page index).extractLsb' 0 1).setWidth 64 = (0 : Word) then
      memory.store page index (make (memory page index)) else memory) = memory.ensure page index make := by
  rw [Memory.ensure]
  by_cases given : present (memory page index) = true
  · rw [if_pos given, if_neg fun absent => (absent_iff _).mp absent given]
  · rw [if_neg given, if_pos ((absent_iff _).mpr given)]

theorem pml4e64Index_eq (address : Word) : pml4e64Index address = index4 address := by
  rw [pml4e64Index, and_nine_bits, BitVec.toNat_ushiftRight, Nat.shiftRight_eq_div_pow, index4_eq]

theorem pdpe64Index_eq (address : Word) : pdpe64Index address = index3 address := by
  rw [pdpe64Index, and_nine_bits, BitVec.toNat_ushiftRight, Nat.shiftRight_eq_div_pow, index3_eq]

theorem pde64Index_eq (address : Word) : pde64Index address = index2 address := by
  rw [pde64Index, and_nine_bits, BitVec.toNat_ushiftRight, Nat.shiftRight_eq_div_pow, index2_eq]

end Entries

section Mapping

variable {memory : Memory} {root : Word} {role : Word → Role}

theorem mapPages_succ (memory : Memory) (pd va pa : Word) (count : Nat) :
    mapPages memory pd va pa (count + 1) =
      mapPages (memory.ensure pd (index2 va) (setPde pa)) pd (va + 0x200000#64) (pa + 0x200000#64) count := by
  rw [← fill_eq_ensure, ← pde64Index_eq]
  rfl

theorem mapBootmem_eq (data : TrampolineData) (memory : Memory) (bootmemAddr bootmemSize va pdp pd : Word) :
    mapBootmem data memory bootmemAddr bootmemSize va pdp pd =
      mapPages (memory.route (frameAddr data.pml) (index4 va) (index3 va) (setPml4e pdp) (setPdpe pd)).1
        (memory.route (frameAddr data.pml) (index4 va) (index3 va) (setPml4e pdp) (setPdpe pd)).2
        va bootmemAddr (numPdeEntries bootmemSize va) := by
  simp only [Memory.route, ← fill_eq_ensure, ← pml4e64Index_eq, ← pdpe64Index_eq]
  rfl

theorem advance_pages (address : Word) (n : Nat) :
    address + 0x200000#64 + BitVec.ofNat 64 (n * 0x200000) = address + BitVec.ofNat 64 ((n + 1) * 0x200000) := by
  rw [BitVec.add_assoc, Nat.add_mul, Nat.one_mul, Nat.add_comm, BitVec.ofNat_add]

/-- Within one directory the loop maps the pages one after the other, except
where a page is mapped already. -/
theorem mapPages_spec {i j k : Nat} (shaped : Shaped memory root role) (pd va pa : Word) (count : Nat)
    (found : directory memory root i j = some pd)
    (positions : ∀ n < count, index2 (va + .ofNat 64 (n * 0x200000)) = k + n) :
    Shaped (mapPages memory pd va pa count) root role ∧
      ∀ a b c, lookup (mapPages memory pd va pa count) root a b c =
        (lookup memory root a b c).or
          (if a = i ∧ b = j ∧ k ≤ c ∧ c < k + count then
            some (base2MB (setPde (pa + .ofNat 64 ((c - k) * 0x200000)) 0#64))
          else none) := by
  induction count generalizing memory va pa k with
  | zero =>
      refine ⟨shaped, fun a b c => ?_⟩
      rw [if_neg (by omega), Option.or_none, mapPages]
  | succ count ih =>
      have here : index2 va = k := by simpa using positions 0 (Nat.zero_lt_succ _)
      obtain ⟨nextShaped, nextFound⟩ := shaped.ensure_leaf found k (setPde_maps pa)
      have nextPositions : ∀ n < count, index2 (va + 0x200000#64 + .ofNat 64 (n * 0x200000)) = k + 1 + n := by
        intro n bound
        rw [advance_pages, positions (n + 1) (by omega)]
        omega
      obtain ⟨finalShaped, finalLookup⟩ := ih nextShaped (va + 0x200000#64) (pa + 0x200000#64) nextFound nextPositions
      rw [mapPages_succ, here]
      refine ⟨finalShaped, fun a b c => ?_⟩
      rw [finalLookup, shaped.lookup_ensure_leaf found k (setPde_maps pa), Option.or_assoc]
      congr 1
      by_cases directory : a = i ∧ b = j
      · obtain ⟨rfl, rfl⟩ := directory
        by_cases first : c = k
        · subst first
          simp
        · rw [if_neg fun both => first both.2.2, Option.none_or]
          by_cases later : k + 1 ≤ c ∧ c < k + 1 + count
          · rw [if_pos ⟨rfl, rfl, later⟩, if_pos ⟨rfl, rfl, by omega, by omega⟩, advance_pages]
            have distance : c - (k + 1) + 1 = c - k := by omega
            rw [distance]
          · rw [if_neg fun both => later both.2.2, if_neg fun both => later ⟨by omega, by omega⟩]
      · have elsewhere : ∀ rest : Prop, ¬ (a = i ∧ b = j ∧ rest) := fun rest both => directory ⟨both.1, both.2.1⟩
        simp only [if_neg (elsewhere _), Option.or_none]

theorem numPdeEntries_le (bootmemSize va : Word) : index2 va + numPdeEntries bootmemSize va ≤ 512 := by
  have bound : index2 va < 512 := by
    rw [index2_eq]
    omega
  simp only [numPdeEntries, pde64Index_eq]
  split <;> omega

theorem positions_in_directory (va : Word) (n : Nat) (room : index2 va + n < 512) :
    index2 (va + .ofNat 64 (n * 0x200000)) = index2 va + n := by
  have bound : va.toNat < 0x10000000000000000 := va.isLt
  rw [index2_eq] at room
  -- The rest of the directory lies below the end of the address space.
  have page : va.toNat / 0x200000 + n < 0x80000000000 := by omega
  have inside : va.toNat + n * 0x200000 < 0x10000000000000000 := by omega
  have distance : (BitVec.ofNat 64 (n * 0x200000)).toNat = n * 0x200000 := by
    rw [BitVec.toNat_ofNat]
    exact Nat.mod_eq_of_lt (by omega)
  have sum : (va + BitVec.ofNat 64 (n * 0x200000)).toNat = va.toNat + n * 0x200000 := by
    rw [BitVec.toNat_add, distance]
    exact Nat.mod_eq_of_lt inside
  rw [index2_eq, index2_eq, sum, Nat.add_mul_div_right _ _ (by decide)]
  omega

/-- Mapping boot memory at `va` adds its pages up to the end of the directory. -/
theorem mapBootmem_spec (data : TrampolineData) (shaped : Shaped memory (frameAddr data.pml) role)
    (bootmemAddr bootmemSize va : Word) {pdp pd : BitVec 40} (freshPdp : role (frameAddr pdp) = .free)
    (freshPd : role (frameAddr pd) = .free) (distinct : frameAddr pd ≠ frameAddr pdp) :
    ∃ newRole,
      Shaped (mapBootmem data memory bootmemAddr bootmemSize va (frameAddr pdp) (frameAddr pd))
        (frameAddr data.pml) newRole ∧
      (∀ page, page ≠ frameAddr pdp → page ≠ frameAddr pd → role page = .free → newRole page = .free) ∧
      ∀ a b c,
        lookup (mapBootmem data memory bootmemAddr bootmemSize va (frameAddr pdp) (frameAddr pd))
            (frameAddr data.pml) a b c =
          (lookup memory (frameAddr data.pml) a b c).or
            (if a = index4 va ∧ b = index3 va ∧ index2 va ≤ c ∧ c < index2 va + numPdeEntries bootmemSize va then
              some (base2MB (setPde (bootmemAddr + .ofNat 64 ((c - index2 va) * 0x200000)) 0#64))
            else none) := by
  obtain ⟨newRole, routed, found, free, same⟩ := shaped.route_spec (index4 va) (index3 va) freshPdp
    (setPml4e_links pdp) freshPd (setPdpe_links pd) distinct
  have positions : ∀ n < numPdeEntries bootmemSize va,
      index2 (va + .ofNat 64 (n * 0x200000)) = index2 va + n := by
    intro n bound
    have room := numPdeEntries_le bootmemSize va
    exact positions_in_directory va n (by omega)
  obtain ⟨mapped, added⟩ := mapPages_spec routed _ va bootmemAddr _ found positions
  rw [mapBootmem_eq]
  exact ⟨newRole, mapped, free, fun a b c => by rw [added, same]⟩

end Mapping

section Initial

theorem frameAddr_injective : Function.Injective frameAddr := by
  intro first second same
  rw [← base_round_trip first, ← base_round_trip second, same]

variable (data : TrampolineData)

theorem frame_ne (first second : Fin 7) (different : first ≠ second) :
    frameAddr ([data.pml, data.pdp0, data.pdp1, data.pdp2, data.pd0, data.pd1, data.pd2].get first) ≠
      frameAddr ([data.pml, data.pdp0, data.pdp1, data.pdp2, data.pd0, data.pd1, data.pd2].get second) := by
  intro same
  exact different ((List.Nodup.get_inj_iff data.distinct).mp (frameAddr_injective same))

/-- The pages that are linked in when they are needed -/
def spares : List (BitVec 40) := [data.pdp0, data.pdp1, data.pdp2, data.pd0, data.pd1, data.pd2]

/-- All seven pages cleared -/
def cleared (memory : Memory) : Memory :=
  (((((((memory.clear (frameAddr data.pml)).clear (frameAddr data.pdp0)).clear (frameAddr data.pdp1)).clear
    (frameAddr data.pdp2)).clear (frameAddr data.pd0)).clear (frameAddr data.pd1)).clear (frameAddr data.pd2))

def clearedRole (page : Word) : Role :=
  if page = frameAddr data.pml then .root
  else if page ∈ (spares data).map frameAddr then .free
  else .other

theorem cleared_zero (memory : Memory) (pfn : BitVec 40) (member : pfn ∈ data.pml :: spares data) (index : Nat) :
    cleared data memory (frameAddr pfn) index = 0#64 := by
  simp only [spares, List.mem_cons, List.not_mem_nil, or_false] at member
  unfold cleared Memory.clear
  rcases member with rfl | rfl | rfl | rfl | rfl | rfl | rfl <;> simp

theorem clearedRole_spare {pfn : BitVec 40} (member : pfn ∈ spares data) :
    clearedRole data (frameAddr pfn) = .free := by
  have root : frameAddr pfn ≠ frameAddr data.pml := by
    intro same
    obtain rfl := frameAddr_injective same
    exact (List.nodup_cons.mp data.distinct).1 member
  rw [clearedRole, if_neg root, if_pos (List.mem_map_of_mem member)]

theorem cleared_shaped (memory : Memory) :
    Shaped (cleared data memory) (frameAddr data.pml) (clearedRole data) where
  root_role := by simp [clearedRole]
  level4 i := .inl (cleared_zero data memory data.pml (by simp) i)
  level3 page i j placed := by
    unfold clearedRole at placed
    split at placed
    · cases placed
    · split at placed <;> cases placed
  level2 page i j k placed := by
    unfold clearedRole at placed
    split at placed
    · cases placed
    · split at placed <;> cases placed
  free_zero page i placed := by
    unfold clearedRole at placed
    split at placed
    · cases placed
    · split at placed
      next member =>
        obtain ⟨pfn, spare, rfl⟩ := List.mem_map.mp member
        exact cleared_zero data memory pfn (List.mem_cons_of_mem _ spare) i
      next => cases placed

theorem initTrampolinePgts_stores (memory : Memory) :
    initTrampolinePgts data memory =
      let linked := (cleared data memory).store (frameAddr data.pml) 0
        (setPml4e (frameAddr data.pdp0) (cleared data memory (frameAddr data.pml) 0))
      let routed := linked.store (frameAddr data.pdp0) 0
        (setPdpe (frameAddr data.pd0) (linked (frameAddr data.pdp0) 0))
      routed.store (frameAddr data.pd0) 0 (setPde 0#64 (routed (frameAddr data.pd0) 0)) := rfl

theorem initTrampolinePgts_eq (memory : Memory) :
    initTrampolinePgts data memory =
      ((cleared data memory).route (frameAddr data.pml) 0 0 (setPml4e (frameAddr data.pdp0))
        (setPdpe (frameAddr data.pd0))).1.ensure (frameAddr data.pd0) 0 (setPde 0#64) ∧
    ((cleared data memory).route (frameAddr data.pml) 0 0 (setPml4e (frameAddr data.pdp0))
        (setPdpe (frameAddr data.pd0))).2 = frameAddr data.pd0 := by
  have pdp0Root : frameAddr data.pdp0 ≠ frameAddr data.pml := frame_ne data 1 0 (by decide)
  have pd0Root : frameAddr data.pd0 ≠ frameAddr data.pml := frame_ne data 4 0 (by decide)
  have pd0Pdp0 : frameAddr data.pd0 ≠ frameAddr data.pdp0 := frame_ne data 4 1 (by decide)
  have root := cleared_zero data memory data.pml (by simp) 0
  have upper := Memory.ensure_of_zero (setPml4e (frameAddr data.pdp0)) root
  generalize setup : (cleared data memory).store (frameAddr data.pml) 0 (setPml4e (frameAddr data.pdp0) 0#64) = linked
  have table : linked (frameAddr data.pdp0) 0 = 0#64 := by
    rw [← setup, Memory.store_other_page pdp0Root]
    exact cleared_zero data memory data.pdp0 (by simp [spares]) 0
  have lower := Memory.ensure_of_zero (setPdpe (frameAddr data.pd0)) table
  have leads : tableBase (linked (frameAddr data.pml) 0) = frameAddr data.pdp0 := by
    rw [← setup, Memory.store_same, (setPml4e_links data.pdp0).leads]
  have leaf : linked.store (frameAddr data.pdp0) 0 (setPdpe (frameAddr data.pd0) 0#64) (frameAddr data.pd0) 0 = 0#64 := by
    rw [Memory.store_other_page pd0Pdp0, ← setup, Memory.store_other_page pd0Root]
    exact cleared_zero data memory data.pd0 (by simp [spares]) 0
  rw [setup] at upper
  simp only [Memory.route, upper, leads, lower, Memory.store_same, (setPdpe_links data.pd0).leads, and_true]
  rw [Memory.ensure_of_zero _ leaf, initTrampolinePgts_stores]
  simp only [root, setup, table, leaf]

theorem initTrampolinePgts_spec (memory : Memory) :
    ∃ role, Shaped (initTrampolinePgts data memory) (frameAddr data.pml) role ∧
      (∀ pfn ∈ [data.pdp1, data.pdp2, data.pd1, data.pd2], role (frameAddr pfn) = .free) ∧
      ∀ a b c, lookup (initTrampolinePgts data memory) (frameAddr data.pml) a b c =
        if a = 0 ∧ b = 0 ∧ c = 0 then some 0#64 else none := by
  obtain ⟨filled, reached⟩ := initTrampolinePgts_eq data memory
  obtain ⟨role, routed, found, free, same⟩ := (cleared_shaped data memory).route_spec 0 0
    (clearedRole_spare data (by simp [spares])) (setPml4e_links data.pdp0)
    (clearedRole_spare data (by simp [spares])) (setPdpe_links data.pd0)
    (frame_ne data 4 1 (by decide))
  rw [reached] at found
  have page : base2MB (setPde 0#64 0#64) = 0#64 := base2MB_setPde 0#64 (by decide) (by decide)
  rw [filled]
  refine ⟨role, (routed.ensure_leaf found 0 (setPde_maps 0#64)).1, ?_, ?_⟩
  · intro pfn member
    simp only [List.mem_cons, List.not_mem_nil, or_false] at member
    rcases member with rfl | rfl | rfl | rfl
    · exact free _ (frame_ne data 2 1 (by decide)) (frame_ne data 2 4 (by decide))
        (clearedRole_spare data (by simp [spares]))
    · exact free _ (frame_ne data 3 1 (by decide)) (frame_ne data 3 4 (by decide))
        (clearedRole_spare data (by simp [spares]))
    · exact free _ (frame_ne data 5 1 (by decide)) (frame_ne data 5 4 (by decide))
        (clearedRole_spare data (by simp [spares]))
    · exact free _ (frame_ne data 6 1 (by decide)) (frame_ne data 6 4 (by decide))
        (clearedRole_spare data (by simp [spares]))
  · intro a b c
    have empty : lookup (cleared data memory) (frameAddr data.pml) a b c = none := by
      simp [lookup, directory, cleared_zero data memory data.pml (by simp) a, present_zero]
    rw [routed.lookup_ensure_leaf found 0 (setPde_maps 0#64), same, empty, page, Option.none_or]

end Initial

/-- What the tables are for: the first 2MB and the part of boot memory in its
first 1GB region at their own addresses, boot memory up to 1GB at the kernel's
addresses, and nothing else. -/
def translation (bootmemAddr bootmemSize va : Word) : Option Word :=
  let identity := min bootmemSize.toNat (0x40000000 - bootmemAddr.toNat % 0x40000000)
  if va.toNat < 0x200000 then some va
  else if bootmemAddr.toNat ≤ va.toNat ∧ va.toNat < bootmemAddr.toNat + identity then some va
  else if kernVaBase.toNat ≤ va.toNat ∧ va.toNat - kernVaBase.toNat < min bootmemSize.toNat 0x40000000 then
    some (bootmemAddr + (va - kernVaBase))
  else none

section Translation

variable (data : TrampolineData) (memory : Memory) {bootmemAddr bootmemSize : Word}

theorem setupTables_lookup (granular : bootmemSize.toNat % 0x200000 = 0) :
    ∃ after role, setupTables data memory bootmemAddr bootmemSize = some after ∧
      Shaped after (frameAddr data.pml) role ∧
      ∀ a b c, lookup after (frameAddr data.pml) a b c =
        ((if a = 0 ∧ b = 0 ∧ c = 0 then some 0#64 else none).or
          (if a = index4 bootmemAddr ∧ b = index3 bootmemAddr ∧ index2 bootmemAddr ≤ c ∧
              c < index2 bootmemAddr + numPdeEntries bootmemSize bootmemAddr then
            some (base2MB (setPde (bootmemAddr + .ofNat 64 ((c - index2 bootmemAddr) * 0x200000)) 0#64))
          else none)).or
          (if a = index4 kernVaBase ∧ b = index3 kernVaBase ∧ index2 kernVaBase ≤ c ∧
              c < index2 kernVaBase + numPdeEntries bootmemSize kernVaBase then
            some (base2MB (setPde (bootmemAddr + .ofNat 64 ((c - index2 kernVaBase) * 0x200000)) 0#64))
          else none) := by
  obtain ⟨initRole, initial, spare, first⟩ := initTrampolinePgts_spec data memory
  obtain ⟨identityRole, identity, identityFree, second⟩ := mapBootmem_spec data initial bootmemAddr bootmemSize
    bootmemAddr (spare data.pdp1 (by simp)) (spare data.pd1 (by simp)) (frame_ne data 5 2 (by decide))
  have pdp2Free := identityFree _ (frame_ne data 3 2 (by decide)) (frame_ne data 3 5 (by decide))
    (spare data.pdp2 (by simp))
  have pd2Free := identityFree _ (frame_ne data 6 2 (by decide)) (frame_ne data 6 5 (by decide))
    (spare data.pd2 (by simp))
  obtain ⟨kernelRole, kernel, -, third⟩ := mapBootmem_spec data identity bootmemAddr bootmemSize kernVaBase
    pdp2Free pd2Free (frame_ne data 6 3 (by decide))
  refine ⟨_, kernelRole, ?_, kernel, fun a b c => ?_⟩
  · rw [setupTables, if_neg (not_not_intro granular)]
    rfl
  · rw [third, second, first]

theorem numPdeEntries_eq (va : Word) (small : bootmemSize.toNat ≤ 0x800000000000) :
    numPdeEntries bootmemSize va = min (bootmemSize.toNat / 0x200000) (512 - index2 va) := by
  simp only [numPdeEntries, pde64Index_eq]
  split <;> omega

theorem first_page_iff {va : Word} (legal : canonical va = true) :
    (index4 va = 0 ∧ index3 va = 0 ∧ index2 va = 0) ↔ va.toNat < 0x200000 := by
  rw [canonical_iff] at legal
  simp only [index4_eq, index3_eq, index2_eq]
  omega

/-- Below 128TB the two upper indices name the 1GB region. -/
theorem region_iff {first second : Nat} (firstLow : first < 0x800000000000) (secondLow : second < 0x800000000000) :
    (first / 0x8000000000 % 512 = second / 0x8000000000 % 512 ∧
        first / 0x40000000 % 512 = second / 0x40000000 % 512) ↔ first / 0x40000000 = second / 0x40000000 := by
  have firstSplit : first / 0x8000000000 = first / 0x40000000 / 512 := by rw [Nat.div_div_eq_div_mul]
  have secondSplit : second / 0x8000000000 = second / 0x40000000 / 512 := by rw [Nat.div_div_eq_div_mul]
  rw [firstSplit, secondSplit]
  have firstRegion : first / 0x40000000 < 0x20000 := by omega
  have secondRegion : second / 0x40000000 < 0x20000 := by omega
  generalize first / 0x40000000 = firstQuotient at *
  generalize second / 0x40000000 = secondQuotient at *
  omega

theorem pages_iff {address base size : Nat} (aligned : base % 0x200000 = 0) (granular : size % 0x200000 = 0) :
    (address / 0x40000000 = base / 0x40000000 ∧ base / 0x200000 % 512 ≤ address / 0x200000 % 512 ∧
        address / 0x200000 % 512 <
          base / 0x200000 % 512 + min (size / 0x200000) (512 - base / 0x200000 % 512)) ↔
      base ≤ address ∧ address < base + min size (0x40000000 - base % 0x40000000) := by
  obtain ⟨page, rfl⟩ : ∃ page, base = page * 0x200000 := ⟨base / 0x200000, by omega⟩
  obtain ⟨pages, rfl⟩ : ∃ pages, size = pages * 0x200000 := ⟨size / 0x200000, by omega⟩
  have addressRegion : address / 0x40000000 = address / 0x200000 / 512 := by omega
  have baseRegion : page * 0x200000 / 0x40000000 = page / 512 := by omega
  have rest : 0x40000000 - page * 0x200000 % 0x40000000 = (512 - page % 512) * 0x200000 := by omega
  have basePage : page * 0x200000 / 0x200000 = page := Nat.mul_div_cancel _ (by decide)
  have sizePages : pages * 0x200000 / 0x200000 = pages := Nat.mul_div_cancel _ (by decide)
  rw [addressRegion, baseRegion, rest, basePage, sizePages, Nat.mul_min_mul_right, ← Nat.add_mul,
    ← Nat.le_div_iff_mul_le (by decide), ← Nat.div_lt_iff_lt_mul (by decide)]
  generalize address / 0x200000 = place
  omega

theorem identity_iff {va : Word} (legal : canonical va = true) (aligned : bootmemAddr.toNat % 0x200000 = 0)
    (granular : bootmemSize.toNat % 0x200000 = 0)
    (low : bootmemAddr.toNat + bootmemSize.toNat ≤ 0x800000000000) :
    (index4 va = index4 bootmemAddr ∧ index3 va = index3 bootmemAddr ∧ index2 bootmemAddr ≤ index2 va ∧
        index2 va < index2 bootmemAddr + numPdeEntries bootmemSize bootmemAddr) ↔
      bootmemAddr.toNat ≤ va.toNat ∧
        va.toNat < bootmemAddr.toNat + min bootmemSize.toNat (0x40000000 - bootmemAddr.toNat % 0x40000000) := by
  rw [numPdeEntries_eq bootmemAddr (by omega)]
  simp only [index4_eq, index3_eq, index2_eq]
  by_cases empty : bootmemSize.toNat = 0
  · simp only [empty, Nat.zero_div, Nat.zero_min, Nat.add_zero]
    omega
  · have base : bootmemAddr.toNat < 0x800000000000 := by omega
    rw [← pages_iff aligned granular]
    rcases (canonical_iff va).mp legal with lower | upper
    · rw [← region_iff lower base, and_assoc]
    · constructor
      · rintro ⟨same, -⟩
        omega
      · rintro ⟨same, -⟩
        omega

theorem kernel_iff {va : Word} (legal : canonical va = true) (granular : bootmemSize.toNat % 0x200000 = 0)
    (low : bootmemSize.toNat ≤ 0x800000000000) :
    (index4 va = index4 kernVaBase ∧ index3 va = index3 kernVaBase ∧ index2 kernVaBase ≤ index2 va ∧
        index2 va < index2 kernVaBase + numPdeEntries bootmemSize kernVaBase) ↔
      kernVaBase.toNat ≤ va.toNat ∧ va.toNat - kernVaBase.toNat < min bootmemSize.toNat 0x40000000 := by
  have base : kernVaBase.toNat = 0xffffffff80000000 := by decide
  have bound : va.toNat < 0x10000000000000000 := va.isLt
  rw [canonical_iff] at legal
  rw [numPdeEntries_eq kernVaBase low]
  simp only [index4_eq, index3_eq, index2_eq, base]
  omega

/-- The page an entry maps, together with the offset into it, is the address itself. -/
theorem page_plus_offset {address : Word} {page : Nat} (va : Word) (small : page + 0x200000 ≤ 0x10000000000000)
    (aligned : page % 0x200000 = 0) (sum : address.toNat = page + va.toNat % 0x200000) :
    base2MB (setPde (.ofNat 64 page) 0#64) + offset 21 va = address := by
  have pageNat : (BitVec.ofNat 64 page).toNat = page := by
    rw [BitVec.toNat_ofNat]
    exact Nat.mod_eq_of_lt (by omega)
  rw [base2MB_setPde _ (by rw [pageNat]; exact aligned) (by rw [pageNat]; omega)]
  apply BitVec.eq_of_toNat_eq
  rw [BitVec.toNat_add, pageNat, offset21_toNat, sum]
  exact Nat.mod_eq_of_lt (by omega)

theorem identity_page {va : Word} (aligned : bootmemAddr.toNat % 0x200000 = 0)
    (granular : bootmemSize.toNat % 0x200000 = 0)
    (inside : bootmemAddr.toNat ≤ va.toNat ∧
      va.toNat < bootmemAddr.toNat + min bootmemSize.toNat (0x40000000 - bootmemAddr.toNat % 0x40000000)) :
    bootmemAddr.toNat + (index2 va - index2 bootmemAddr) * 0x200000 = va.toNat / 0x200000 * 0x200000 := by
  obtain ⟨region, -, -⟩ := (pages_iff aligned granular).mpr inside
  simp only [index2_eq]
  have vaRegion : va.toNat / 0x40000000 = va.toNat / 0x200000 / 512 := by omega
  have baseRegion : bootmemAddr.toNat / 0x40000000 = bootmemAddr.toNat / 0x200000 / 512 := by omega
  have order : bootmemAddr.toNat / 0x200000 ≤ va.toNat / 0x200000 := Nat.div_le_div_right inside.1
  have base : bootmemAddr.toNat = bootmemAddr.toNat / 0x200000 * 0x200000 := by omega
  rw [vaRegion, baseRegion] at region
  omega

theorem kernel_page {va : Word}
    (inside : kernVaBase.toNat ≤ va.toNat ∧ va.toNat - kernVaBase.toNat < min bootmemSize.toNat 0x40000000) :
    (index2 va - index2 kernVaBase) * 0x200000 = (va.toNat - kernVaBase.toNat) / 0x200000 * 0x200000 := by
  have base : kernVaBase.toNat = 0xffffffff80000000 := by decide
  have bound : va.toNat < 0x10000000000000000 := va.isLt
  simp only [index2_eq, base] at *
  omega

theorem ofNat_page {address : Word} {distance page : Nat} (sum : address.toNat + distance = page) :
    address + .ofNat 64 distance = .ofNat 64 page := by
  rw [← sum, BitVec.ofNat_add, BitVec.ofNat_toNat, BitVec.setWidth_eq]

/-- The tables built over whatever was there translate as intended. -/
theorem trampoline_translates (aligned : bootmemAddr.toNat % 0x200000 = 0)
    (granular : bootmemSize.toNat % 0x200000 = 0)
    (low : bootmemAddr.toNat + bootmemSize.toNat ≤ 0x800000000000) :
    ∃ after, setupTables data memory bootmemAddr bootmemSize = some after ∧
      ∀ va, walk after (frameAddr data.pml) va = translation bootmemAddr bootmemSize va := by
  obtain ⟨after, role, built, shaped, mapped⟩ := @setupTables_lookup data memory bootmemAddr bootmemSize granular
  refine ⟨after, built, fun va => ?_⟩
  rw [shaped.walk_eq, mapped]
  have kernelBase : kernVaBase.toNat = 0xffffffff80000000 := by decide
  by_cases legal : canonical va = true
  · rw [if_pos legal]
    simp only [first_page_iff legal, identity_iff legal aligned granular low, kernel_iff legal granular (by omega),
      translation]
    by_cases first : va.toNat < 0x200000
    · rw [if_pos first, if_pos first]
      simp only [Option.some_or, Option.map_some, Option.some.injEq]
      apply BitVec.eq_of_toNat_eq
      rw [BitVec.zero_add, offset21_toNat]
      exact Nat.mod_eq_of_lt first
    · rw [if_neg first, if_neg first, Option.none_or]
      by_cases identity : bootmemAddr.toNat ≤ va.toNat ∧
          va.toNat < bootmemAddr.toNat + min bootmemSize.toNat (0x40000000 - bootmemAddr.toNat % 0x40000000)
      · rw [if_pos identity, if_pos identity]
        simp only [Option.some_or, Option.map_some, Option.some.injEq]
        have page := identity_page aligned granular identity
        rw [ofNat_page page]
        exact page_plus_offset va (by omega) (by omega) (by omega)
      · rw [if_neg identity, if_neg identity, Option.none_or]
        split
        next kernel =>
          simp only [Option.map_some, Option.some.injEq]
          have page := kernel_page kernel
          have distance : (va - kernVaBase).toNat = va.toNat - kernVaBase.toNat := by
            rw [BitVec.toNat_sub_of_le]
            exact kernel.1
          have sum : (bootmemAddr + (va - kernVaBase)).toNat = bootmemAddr.toNat + (va.toNat - kernVaBase.toNat) := by
            rw [BitVec.toNat_add, distance]
            exact Nat.mod_eq_of_lt (by omega)
          rw [ofNat_page (congrArg (bootmemAddr.toNat + ·) page)]
          exact page_plus_offset va (by omega) (by omega) (by rw [sum]; omega)
        next => rfl
  · have gap := mt (canonical_iff va).mpr legal
    rw [if_neg legal, translation, if_neg (by omega), if_neg (by omega), if_neg (by omega)]

end Translation

/-- Seven pages from 16MB on -/
def lowPages : TrampolineData where
  pml := 0x1000
  pdp0 := 0x1001
  pdp1 := 0x1002
  pdp2 := 0x1003
  pd0 := 0x1004
  pd1 := 0x1005
  pd2 := 0x1006
  distinct := by decide

theorem trampoline_translates_second_region :
    (∃ after, setupTables lowPages (fun _ _ => BitVec.allOnes 64) 0x40000000#64 0x8000000#64 = some after ∧
      ∀ va, walk after (frameAddr lowPages.pml) va = translation 0x40000000#64 0x8000000#64 va) ∧
    translation 0x40000000#64 0x8000000#64 0xffffffff80200123#64 = some 0x40200123#64 :=
  ⟨trampoline_translates lowPages _ (by decide) (by decide) (by decide), by decide⟩

end Pisces.Boot.Tables
