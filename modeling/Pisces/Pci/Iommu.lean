import Pisces.Pci.Device

/-! # The IOMMU long calls

The loops of `enclave_pci_iommu_map` and `enclave_pci_iommu_unmap` over an IOMMU
domain, and when they return.
-/

namespace Pisces.Pci

/-- Where a loop stands.  `page_size` is widened at every use. -/
structure Cursor where
  size : UInt64
  pageSize : UInt64
  gpa : UInt64
  hpa : UInt64
  deriving DecidableEq

/-- Less than a page is left: switch to small pages, for good. -/
def Cursor.choose (cursor : Cursor) : Cursor :=
  if cursor.size < cursor.pageSize then { cursor with pageSize := 4096 } else cursor

def Cursor.advance (cursor : Cursor) : Cursor :=
  { cursor with
    size := cursor.size - cursor.pageSize
    gpa := cursor.gpa + cursor.pageSize
    hpa := cursor.hpa + cursor.pageSize }

section Loop

variable {Domain : Type*}

/-- The `do` loop; `call` maps or unmaps the page at the cursor. -/
def iommuLoop (call : Domain → Cursor → Int × Domain) : Nat → Cursor → Domain → Option (Int × Domain)
  | 0, _, _ => none
  | fuel + 1, cursor, domain =>
      let cursor := cursor.choose
      let (ret, domain) := call domain cursor
      if ret ≠ 0 then some (ret, domain)
      else
        let cursor := cursor.advance
        if cursor.size = 0 then some (0, domain) else iommuLoop call fuel cursor domain

/-- The fields of `struct pci_iommu_map_lcall`, and those of `struct pci_iommu_unmap_lcall`. -/
structure RegionLcall where
  name : List UInt8
  regionStart : UInt64
  regionEnd : UInt64
  gpa : UInt64
  deriving DecidableEq

def RegionLcall.size (lcall : RegionLcall) : UInt64 :=
  lcall.regionEnd - lcall.regionStart

/-- Whether the named device is found and assigned. -/
def assignedAs (state : State) (name : List UInt8) : Bool :=
  (findDevByName state name).any (·.assigned)

/-- `enclave_pci_iommu_map`: the responses sent, or `none` without an end. -/
def enclavePciIommuMap (iommuMap : Domain → Cursor → Int × Domain) (fuel : Nat) (state : State)
    (lcall : RegionLcall) (domain : Domain) : Option (List Int × Domain) :=
  if assignedAs state lcall.name then
    (iommuLoop iommuMap fuel ⟨lcall.size, 512 * 4096, lcall.gpa, lcall.regionStart⟩ domain).map
      fun (ret, domain) => ([ret], domain)
  else some ([-1], domain)

/-- A call of `iommu_unmap` in the loop: anything but the page's size fails. -/
def unmapPage (iommuUnmap : Domain → Cursor → UInt64 × Domain) (domain : Domain) (cursor : Cursor) :
    Int × Domain :=
  let (unmapSize, domain) := iommuUnmap domain cursor
  (if unmapSize ≠ cursor.pageSize then -1 else 0, domain)

/-- `enclave_pci_iommu_unmap`; it has no host address to advance. -/
def enclavePciIommuUnmap (iommuUnmap : Domain → Cursor → UInt64 × Domain) (fuel : Nat) (state : State)
    (lcall : RegionLcall) (domain : Domain) : Option (List Int × Domain) :=
  if assignedAs state lcall.name then
    (iommuLoop (unmapPage iommuUnmap) fuel ⟨lcall.size, 512 * 4096, lcall.gpa, 0⟩ domain).map
      fun (ret, domain) => ([ret], domain)
  else some ([-1], domain)

end Loop

/-- The page of each turn, as long as the calls succeed. -/
def Cursor.page (cursor : Cursor) : Nat → Cursor
  | 0 => cursor.choose
  | turn + 1 => (cursor.page turn).advance.choose

variable {cursor : Cursor} {answer : Nat → Cursor → Int}

/-- A kernel whose answers are known in advance, turn by turn. -/
def answering (answer : Nat → Cursor → Int) (turn : Nat) (cursor : Cursor) : Int × Nat :=
  (answer turn cursor, turn + 1)

theorem page_succ (cursor : Cursor) (turn : Nat) :
    cursor.page (turn + 1) = cursor.choose.advance.page turn := by
  induction turn with
  | zero => rfl
  | succ turn ih =>
      calc
        cursor.page (turn + 1 + 1) = (cursor.page (turn + 1)).advance.choose := rfl
        _ = (cursor.choose.advance.page turn).advance.choose := by rw [ih]

/-- The page sizes that the loops use. -/
def Cursor.Paged (cursor : Cursor) : Prop :=
  cursor.pageSize = 2097152 ∨ cursor.pageSize = 4096

theorem Cursor.Paged.choose (paged : cursor.Paged) : cursor.choose.Paged := by
  unfold Cursor.choose
  split
  · exact .inr rfl
  · exact paged

theorem choose_size (cursor : Cursor) : cursor.choose.size = cursor.size := by
  unfold Cursor.choose
  split <;> rfl

theorem Cursor.Paged.advance_mod (paged : cursor.Paged) :
    cursor.advance.size.toNat % 4096 = cursor.size.toNat % 4096 := by
  have bound := cursor.size.toNat_lt
  rcases paged with large | small
  · simp only [Cursor.advance, large, UInt64.toNat_sub, UInt64.reduceToNat, Nat.reducePow] at *
    omega
  · simp only [Cursor.advance, small, UInt64.toNat_sub, UInt64.reduceToNat, Nat.reducePow] at *
    omega

theorem Cursor.Paged.page (paged : cursor.Paged) (turn : Nat) :
    (cursor.page turn).Paged ∧ (cursor.page turn).size.toNat % 4096 = cursor.size.toNat % 4096 := by
  induction turn with
  | zero => exact ⟨paged.choose, by rw [Cursor.page, choose_size]⟩
  | succ turn ih =>
      obtain ⟨before, same⟩ := ih
      have advanced : (cursor.page turn).advance.Paged := before
      exact ⟨advanced.choose, by rw [Cursor.page, choose_size, before.advance_mod, same]⟩

theorem Cursor.Paged.choose_advance (paged : cursor.Paged) (positive : 0 < cursor.size.toNat)
    (whole : cursor.size.toNat % 4096 = 0) :
    cursor.choose.advance.size.toNat < cursor.size.toNat := by
  have fits : cursor.choose.pageSize ≤ cursor.size ∧ 0 < cursor.choose.pageSize.toNat := by
    unfold Cursor.choose
    split
    · refine ⟨UInt64.le_iff_toNat_le.mpr ?_, show 0 < 4096 by decide⟩
      show 4096 ≤ cursor.size.toNat
      omega
    · rename_i large
      refine ⟨UInt64.not_lt.mp large, ?_⟩
      rcases paged with size | size
      · rw [size]; decide
      · rw [size]; decide
  rw [Cursor.advance, choose_size, UInt64.toNat_sub_of_le _ _ fits.1]
  have bound := UInt64.le_iff_toNat_le.mp fits.1
  omega

theorem Cursor.Paged.finishes (paged : cursor.Paged) (positive : 0 < cursor.size.toNat)
    (whole : cursor.size.toNat % 4096 = 0) : ∃ turn, (cursor.page turn).advance.size = 0 := by
  induction left : cursor.size.toNat using Nat.strong_induction_on generalizing cursor with
  | _ left ih =>
      have advanced : cursor.choose.advance.Paged := paged.choose
      have smaller := paged.choose_advance positive whole
      have rest : cursor.choose.advance.size.toNat % 4096 = 0 := by
        rw [paged.choose.advance_mod, choose_size, whole]
      by_cases finished : cursor.choose.advance.size = 0
      · exact ⟨0, finished⟩
      · have more : 0 < cursor.choose.advance.size.toNat := by
          rw [Nat.pos_iff_ne_zero]
          intro zero
          exact finished (UInt64.toNat_inj.mp zero)
        obtain ⟨turn, ends⟩ := ih _ (left ▸ smaller) advanced more rest rfl
        refine ⟨turn + 1, ?_⟩
        rw [page_succ]
        exact ends

/-- The size of each page of a region: large ones first. -/
def pageSizeAt (size : UInt64) (turn : Nat) : UInt64 :=
  if turn < size.toNat / 2097152 then 2097152 else 4096

theorem choose_pageSize (cursor : Cursor) : cursor.choose.pageSize =
    if cursor.size < cursor.pageSize then 4096 else cursor.pageSize := by
  unfold Cursor.choose
  split <;> rfl

theorem page_pageSize (size gpa hpa : UInt64) (turn : Nat) :
    ((Cursor.mk size 2097152 gpa hpa).page turn).pageSize = pageSizeAt size turn := by
  -- until the large pages are used up the size is exact, afterwards only the page size matters
  have both : (turn < size.toNat / 2097152 →
      ((Cursor.mk size 2097152 gpa hpa).page turn).pageSize = 2097152 ∧
      ((Cursor.mk size 2097152 gpa hpa).page turn).size.toNat = size.toNat - turn * 2097152) ∧
      (size.toNat / 2097152 ≤ turn → ((Cursor.mk size 2097152 gpa hpa).page turn).pageSize = 4096) := by
    induction turn with
    | zero =>
        rw [Cursor.page, choose_pageSize, choose_size]
        simp only [UInt64.lt_iff_toNat_lt, UInt64.reduceToNat]
        constructor
        · intro large
          rw [if_neg (by omega)]
          exact ⟨rfl, by omega⟩
        · intro small
          rw [if_pos (by omega)]
    | succ turn ih =>
        obtain ⟨large, small⟩ := ih
        rw [Cursor.page, choose_pageSize, choose_size]
        generalize (Cursor.mk size 2097152 gpa hpa).page turn = page at large small
        simp only [UInt64.lt_iff_toNat_lt, Cursor.advance]
        by_cases before : turn < size.toNat / 2097152
        · obtain ⟨pageSize, left⟩ := large before
          have fits : page.pageSize ≤ page.size := by
            rw [UInt64.le_iff_toNat_le, pageSize]
            simp only [UInt64.reduceToNat]
            omega
          rw [UInt64.toNat_sub_of_le _ _ fits, pageSize]
          simp only [UInt64.reduceToNat]
          constructor
          · intro more
            rw [if_neg (by omega)]
            exact ⟨rfl, by omega⟩
          · intro last
            rw [if_pos (by omega)]
        · rw [small (by omega)]
          constructor
          · intro more
            omega
          · intro _
            split <;> rfl
  unfold pageSizeAt
  split
  · rename_i large
    exact (both.1 large).1
  · rename_i small
    exact both.2 (by omega)

end Pisces.Pci
