import Pisces.Pci.Coverage

/-! # Mapping and unmapping over an IOMMU domain

A domain as its set of leaves, what the code relies on of `iommu_map` and
`iommu_unmap`, and what requests to map and to unmap a region do to it.
-/

namespace Pisces.Pci

/-- A page of any size that an IOMMU domain translates -/
structure Leaf where
  gpa : UInt64
  hpa : UInt64
  size : UInt64
  deriving DecidableEq

def Leaf.Contains (leaf : Leaf) (address : UInt64) : Prop := Span.Within leaf.gpa leaf.size.toNat address

/-- Leaves do not meet: no address has two translations. -/
@[ext] structure IommuDomain where
  leaves : Finset Leaf
  filled : ∀ leaf ∈ leaves, 0 < leaf.size.toNat
  apart : ∀ first ∈ leaves, ∀ second ∈ leaves, ∀ address, first.Contains address → second.Contains address →
    first = second

namespace IommuDomain

def Mapped (domain : IommuDomain) (address : UInt64) : Prop := ∃ leaf ∈ domain.leaves, leaf.Contains address

def Translates (domain : IommuDomain) (address host : UInt64) : Prop :=
  ∃ leaf ∈ domain.leaves, leaf.Contains address ∧ host = leaf.hpa + (address - leaf.gpa)

/-- Nothing of the leaf is mapped. -/
def Free (domain : IommuDomain) (leaf : Leaf) : Prop :=
  0 < leaf.size.toNat ∧ ∀ other ∈ domain.leaves,
    ¬ (Span.Within other.gpa other.size.toNat leaf.gpa ∨ Span.Within leaf.gpa leaf.size.toNat other.gpa)

instance (domain : IommuDomain) (leaf : Leaf) : Decidable (domain.Free leaf) := inferInstanceAs (Decidable (_ ∧ _))

def empty : IommuDomain := ⟨∅, by simp, by simp⟩

end IommuDomain

def Cursor.leaf (cursor : Cursor) : Leaf := ⟨cursor.gpa, cursor.hpa, cursor.pageSize⟩

/-- The leaf lies in the page that `iommu_unmap` is called with. -/
def Leaf.InPage (leaf : Leaf) (cursor : Cursor) : Prop :=
  (leaf.gpa - cursor.gpa).toNat + leaf.size.toNat ≤ cursor.pageSize.toNat

instance (leaf : Leaf) (cursor : Cursor) : Decidable (leaf.InPage cursor) := inferInstanceAs (Decidable (_ ≤ _))

/-- `iommu_map` adds a leaf or fails without an effect. -/
structure MapApi (iommuMap : IommuDomain → Cursor → Int × IommuDomain) : Prop where
  adds : ∀ domain cursor, (iommuMap domain cursor).1 = 0 →
    cursor.leaf ∉ domain.leaves ∧ (iommuMap domain cursor).2.leaves = insert cursor.leaf domain.leaves
  refuses : ∀ domain cursor, (iommuMap domain cursor).1 ≠ 0 → (iommuMap domain cursor).2 = domain

/-- `iommu_unmap` removes the leaves in its page and returns their size. -/
structure UnmapApi (iommuUnmap : IommuDomain → Cursor → UInt64 × IommuDomain) : Prop where
  removes : ∀ domain cursor, (iommuUnmap domain cursor).2.leaves = domain.leaves.filter fun leaf => ¬ leaf.InPage cursor
  counts : ∀ domain cursor, (iommuUnmap domain cursor).1 =
    .ofNat (∑ leaf ∈ domain.leaves.filter fun leaf => leaf.InPage cursor, leaf.size.toNat)

variable {domain after : IommuDomain} {cursor : Cursor} {leaf : Leaf} {address : UInt64}
  {iommuMap : IommuDomain → Cursor → Int × IommuDomain} {iommuUnmap : IommuDomain → Cursor → UInt64 × IommuDomain}

theorem Leaf.contains_start (filled : 0 < leaf.size.toNat) : leaf.Contains leaf.gpa := by
  rw [Leaf.Contains, Span.Within, UInt64.sub_self]
  exact filled

theorem Leaf.InPage.contains (inPage : leaf.InPage cursor) (contains : leaf.Contains address) :
    cursor.leaf.Contains address := by
  have leafBound := leaf.gpa.toNat_lt
  have pageBound := cursor.gpa.toNat_lt
  have bound := address.toNat_lt
  simp only [Leaf.InPage, Leaf.Contains, Span.Within, Cursor.leaf, UInt64.toNat_sub] at *
  omega

theorem Cursor.leaf_inPage (cursor : Cursor) : cursor.leaf.InPage cursor := by
  rw [Leaf.InPage, Cursor.leaf, UInt64.sub_self]
  exact Nat.le_of_eq (Nat.zero_add _)

/-! ## One page -/

theorem leaves_disjoint (domain : IommuDomain) {leaves : Finset Leaf} (subset : leaves ⊆ domain.leaves) :
    Set.PairwiseDisjoint (leaves : Set Leaf) fun leaf => Span.cells leaf.gpa leaf.size.toNat := by
  intro first firstMember second secondMember different
  rw [Function.onFun, Finset.disjoint_left]
  intro address left right
  have firstBound := first.size.toNat_lt
  have secondBound := second.size.toNat_lt
  rw [Span.mem_cells (by omega)] at left right
  exact different (domain.apart first (subset firstMember) second (subset secondMember) address left right)

theorem card_cells_leaf (leaf : Leaf) : (Span.cells leaf.gpa leaf.size.toNat).card = leaf.size.toNat :=
  Span.card_cells (Nat.le_of_lt leaf.size.toNat_lt)

theorem mem_cells_leaf : address ∈ Span.cells leaf.gpa leaf.size.toNat ↔ leaf.Contains address :=
  Span.mem_cells (Nat.le_of_lt leaf.size.toNat_lt)

theorem inPage_subset (domain : IommuDomain) (cursor : Cursor) :
    ∀ leaf ∈ domain.leaves.filter (fun leaf => leaf.InPage cursor),
      Span.cells leaf.gpa leaf.size.toNat ⊆ Span.cells cursor.leaf.gpa cursor.leaf.size.toNat := by
  intro leaf member address contains
  rw [mem_cells_leaf] at contains ⊢
  exact Leaf.InPage.contains (Finset.mem_filter.mp member).2 contains

theorem inPage_size (domain : IommuDomain) (cursor : Cursor) :
    ∑ leaf ∈ domain.leaves.filter fun leaf => leaf.InPage cursor, leaf.size.toNat ≤ cursor.pageSize.toNat := by
  have disjoint := leaves_disjoint domain (Finset.filter_subset (fun leaf => leaf.InPage cursor) domain.leaves)
  have card := Finset.card_le_card (Finset.biUnion_subset.mpr (inPage_subset domain cursor))
  rw [Finset.card_biUnion disjoint, card_cells_leaf] at card
  simp only [card_cells_leaf] at card
  exact card

theorem UnmapApi.mapped_of_full (api : UnmapApi iommuUnmap) (full : (iommuUnmap domain cursor).1 = cursor.pageSize)
    (inside : cursor.leaf.Contains address) :
    ∃ leaf ∈ domain.leaves, leaf.InPage cursor ∧ leaf.Contains address := by
  have bound := cursor.pageSize.toNat_lt
  have atMost := inPage_size domain cursor
  have count := congrArg UInt64.toNat full
  rw [api.counts, UInt64.toNat_ofNat', Nat.mod_eq_of_lt (by omega)] at count
  have disjoint := leaves_disjoint domain (Finset.filter_subset (fun leaf => leaf.InPage cursor) domain.leaves)
  have cells : ∑ leaf ∈ domain.leaves.filter (fun leaf => leaf.InPage cursor),
      (Span.cells leaf.gpa leaf.size.toNat).card = (Span.cells cursor.leaf.gpa cursor.leaf.size.toNat).card := by
    simp only [card_cells_leaf]
    exact count
  obtain ⟨leaf, member, contains⟩ :=
    Span.exists_mem_of_card disjoint (inPage_subset domain cursor) cells (mem_cells_leaf.mpr inside)
  obtain ⟨listed, inPage⟩ := Finset.mem_filter.mp member
  exact ⟨leaf, listed, inPage, mem_cells_leaf.mp contains⟩

theorem unmapPage_ret : (unmapPage iommuUnmap domain cursor).1 = 0 ↔ (iommuUnmap domain cursor).1 = cursor.pageSize := by
  simp only [unmapPage]
  split
  · rename_i different
    exact iff_of_false (by decide) different
  · rename_i same
    exact iff_of_true rfl (not_not.mp same)

theorem UnmapApi.full (api : UnmapApi iommuUnmap) (done : (unmapPage iommuUnmap domain cursor).1 = 0) :
    (∀ address, cursor.leaf.Contains address →
      domain.Mapped address ∧ ¬ (unmapPage iommuUnmap domain cursor).2.Mapped address) ∧
    (∀ address, ¬ cursor.leaf.Contains address → ∀ leaf, leaf.Contains address →
      (leaf ∈ (unmapPage iommuUnmap domain cursor).2.leaves ↔ leaf ∈ domain.leaves)) ∧
    (unmapPage iommuUnmap domain cursor).2.leaves ⊆ domain.leaves := by
  have rest : (unmapPage iommuUnmap domain cursor).2.leaves = domain.leaves.filter fun leaf => ¬ leaf.InPage cursor :=
    api.removes domain cursor
  refine ⟨?_, ?_, ?_⟩
  · intro address inside
    obtain ⟨leaf, listed, inPage, contains⟩ := api.mapped_of_full (unmapPage_ret.mp done) inside
    refine ⟨⟨leaf, listed, contains⟩, ?_⟩
    rintro ⟨other, remains, again⟩
    rw [rest, Finset.mem_filter] at remains
    have same := domain.apart other remains.1 leaf listed address again contains
    exact remains.2 (same ▸ inPage)
  · intro address outside leaf contains
    rw [rest, Finset.mem_filter]
    exact ⟨And.left, fun listed => ⟨listed, fun inPage => outside (inPage.contains contains)⟩⟩
  · rw [rest]
    exact Finset.filter_subset ..

/-! ## All pages of a region -/

/-- The calls for some pages, in their order, all succeed. -/
def Worked {Domain : Type*} (call : Domain → Cursor → Int × Domain) : Domain → List Cursor → Domain → Prop
  | domain, [], after => after = domain
  | domain, cursor :: rest, after => (call domain cursor).1 = 0 ∧ Worked call (call domain cursor).2 rest after

section Worked

variable {Domain : Type*} {call : Domain → Cursor → Int × Domain} {before later : Domain}

theorem worked_append {pages : List Cursor} {last : Cursor} : Worked call before (pages ++ [last]) later ↔
    ∃ middle, Worked call before pages middle ∧ (call middle last).1 = 0 ∧ later = (call middle last).2 := by
  induction pages generalizing before with
  | nil => simp [Worked]
  | cons page rest ih =>
      simp only [List.cons_append, Worked, ih]
      tauto

theorem worked_pages (turns : Nat) : Worked call before ((List.range turns).map cursor.page) later ↔
    (∀ turn < turns, resultAt call cursor before turn = 0) ∧ later = domainAt call cursor before turns := by
  induction turns generalizing later with
  | zero => simp [Worked, domainAt]
  | succ turns ih =>
      rw [List.range_succ, List.map_append, List.map_singleton, worked_append, Nat.forall_lt_succ_right]
      simp only [ih]
      constructor
      · rintro ⟨middle, ⟨succeeded, rfl⟩, last, rfl⟩
        exact ⟨⟨succeeded, last⟩, rfl⟩
      · rintro ⟨⟨succeeded, last⟩, rfl⟩
        exact ⟨_, ⟨succeeded, rfl⟩, last, rfl⟩

/-- The pages of the region of a request -/
def RegionLcall.allPages (lcall : RegionLcall) (hpa : UInt64) : List Cursor :=
  (List.range (pageCount lcall.size.toNat)).map (lcall.cursor hpa).page

variable {state : State} {lcall : RegionLcall} {hpa : UInt64}

/-- A request for whole small pages succeeds exactly if all its calls do. -/
theorem regionLoop_worked (positive : 0 < lcall.size.toNat) (whole : lcall.size.toNat % 4096 = 0) :
    (∃ fuel, regionLoop call hpa fuel state lcall before = some ([0], later)) ↔
      assignedAs state lcall.name = true ∧ Worked call before (lcall.allPages hpa) later := by
  rw [RegionLcall.allPages, worked_pages]
  constructor
  · rintro ⟨fuel, returned⟩
    cases assigned : assignedAs state lcall.name with
    | false => simp [regionLoop, assigned] at returned
    | true =>
        simp only [regionLoop, assigned, if_true, Option.map_eq_some_iff] at returned
        obtain ⟨⟨ret, kernel⟩, returned, same⟩ := returned
        cases same
        obtain ⟨turn, -, stops, goesOn, succeeded, rfl⟩ := stop_of_returned returned
        obtain ⟨first, bound, firstStops, -⟩ := whole_stop lcall.gpa hpa positive whole call before
        have early : turn < pageCount lcall.size.toNat := by
          by_contra late
          exact goesOn first (by omega) firstStops
        have finished := stops.resolve_left fun failed => failed succeeded.symm
        have last := (whole_finished lcall.gpa hpa positive whole early).mp finished
        rw [← last]
        refine ⟨rfl, fun earlier bound => ?_, rfl⟩
        rcases Nat.lt_succ_iff_lt_or_eq.mp bound with bound | rfl
        · by_contra failed
          exact goesOn earlier bound (.inl failed)
        · exact succeeded.symm
  · rintro ⟨assigned, succeeded, rfl⟩
    have pages := pageCount_pos positive
    obtain ⟨turn, bound, stops, goesOn⟩ := whole_stop lcall.gpa hpa positive whole call before
    have finished := stops.resolve_left fun failed => failed (succeeded turn bound)
    have last := (whole_finished lcall.gpa hpa positive whole bound).mp finished
    refine ⟨turn + 1, ?_⟩
    have returned := iommuLoop_stops goesOn stops (Nat.lt_succ_self turn)
    rw [regionLoop, if_pos assigned, RegionLcall.cursor, returned, ← last, Option.map_some]
    simp only [show resultAt call ⟨lcall.size, 2097152, lcall.gpa, hpa⟩ before turn = 0 from succeeded turn bound]

end Worked

section Region

variable {state : State} {lcall : RegionLcall} {pages : List Cursor}

theorem within_iff (whole : lcall.size.toNat % 4096 = 0) (hpa : UInt64) :
    Span.Within lcall.gpa lcall.size.toNat address ↔ ∃ page ∈ lcall.allPages hpa, page.leaf.Contains address := by
  have small := lcall.size.toNat_lt
  have bytes := bytesBefore_pageCount lcall.size.toNat
  rw [show (lcall.size.toNat + 4095) / 4096 * 4096 = lcall.size.toNat by omega] at bytes
  have places := pages_places lcall.size lcall.gpa hpa (pageCount lcall.size.toNat)
  rw [bytes] at places
  have guests := congrArg (List.map (·.1)) places
  rw [places_fst] at guests
  rw [← Span.mem_addresses (by omega), ← guests, List.map_flatMap, List.mem_flatMap]
  refine exists_congr fun page => and_congr_right fun _ => ?_
  have pageBound := page.pageSize.toNat_lt
  rw [Cursor.places, places_fst, Span.mem_addresses (by omega)]
  rfl

theorem bytesBefore_lt_of_lt (size : UInt64) {turn later : Nat} (before : turn < later) :
    bytesBefore size.toNat turn < bytesBefore size.toNat later := by
  have next := bytesBefore_succ size turn
  have mono := bytesBefore_mono size.toNat (show turn + 1 ≤ later by omega)
  have some : 0 < (pageSizeAt size turn).toNat := by
    unfold pageSizeAt
    split <;> decide
  omega

theorem allPages_nodup (lcall : RegionLcall) (hpa : UInt64) : ((lcall.allPages hpa).map (·.leaf)).Nodup := by
  have small := lcall.size.toNat_lt
  rw [RegionLcall.allPages, List.map_map]
  apply List.Nodup.map_on _ List.nodup_range
  intro first firstBound second secondBound same
  rw [List.mem_range] at firstBound secondBound
  have guests := congrArg Leaf.gpa same
  simp only [Function.comp_apply, RegionLcall.cursor, page_eq, Cursor.leaf, UInt64.add_right_inj] at guests
  have bytes := congrArg UInt64.toNat guests
  rw [UInt64.toNat_ofNat', UInt64.toNat_ofNat', Nat.mod_eq_of_lt (Nat.lt_trans (bytesBefore_lt firstBound) small),
    Nat.mod_eq_of_lt (Nat.lt_trans (bytesBefore_lt secondBound) small)] at bytes
  rcases Nat.lt_trichotomy first second with before | equal | behind
  · exact absurd bytes (Nat.ne_of_lt (bytesBefore_lt_of_lt lcall.size before))
  · exact equal
  · exact absurd bytes.symm (Nat.ne_of_lt (bytesBefore_lt_of_lt lcall.size behind))

theorem allPages_filled (hpa : UInt64) : ∀ page ∈ lcall.allPages hpa, 0 < page.pageSize.toNat := by
  intro page member
  obtain ⟨turn, -, rfl⟩ := List.mem_map.mp member
  rw [RegionLcall.cursor, page_pageSize, pageSizeAt]
  split <;> decide

/-- Without a host address the pages are the same. -/
theorem allPages_unhosted (lcall : RegionLcall) (hpa : UInt64) :
    lcall.allPages 0 = (lcall.allPages hpa).map fun page => { page with hpa := page.hpa - hpa } := by
  rw [RegionLcall.allPages, RegionLcall.allPages, List.map_map]
  apply List.map_congr_left
  intro turn _
  simp only [Function.comp_apply, RegionLcall.cursor, page_eq, UInt64.zero_add]
  rw [UInt64.add_comm hpa, UInt64.add_sub_cancel]

theorem MapApi.worked (api : MapApi iommuMap) (worked : Worked iommuMap domain pages after) :
    after.leaves = domain.leaves ∪ (pages.map (·.leaf)).toFinset := by
  induction pages generalizing domain with
  | nil =>
      cases worked
      simp
  | cons page rest ih =>
      obtain ⟨succeeded, worked⟩ := worked
      rw [ih worked, (api.adds domain page succeeded).2, List.map_cons, List.toFinset_cons, Finset.insert_union,
        Finset.union_insert]

/-- Unmapping the pages that were added to a domain gives it back. -/
theorem UnmapApi.undoes (api : UnmapApi iommuUnmap) {unhosted : Cursor → Cursor}
    (guest : ∀ page, (unhosted page).gpa = page.gpa ∧ (unhosted page).pageSize = page.pageSize)
    (filled : ∀ page ∈ pages, 0 < page.pageSize.toNat) (distinct : (pages.map (·.leaf)).Nodup)
    (free : ∀ page ∈ pages, ¬ domain.Mapped page.gpa)
    (added : after.leaves = domain.leaves ∪ (pages.map (·.leaf)).toFinset) :
    Worked (unmapPage iommuUnmap) after (pages.map unhosted) domain := by
  induction pages generalizing after with
  | nil =>
      refine IommuDomain.ext ?_
      rw [added]
      simp
  | cons page rest ih =>
      obtain ⟨fresh, distinct⟩ := List.nodup_cons.mp distinct
      have positive := filled page (List.mem_cons_self ..)
      have here : page.leaf ∈ after.leaves := by simp [added]
      have absent : page.leaf ∉ domain.leaves := fun listed =>
        free page (List.mem_cons_self ..) ⟨page.leaf, listed, Leaf.contains_start positive⟩
      -- Leaves do not meet, so the added leaf is alone in its page.
      have alone : after.leaves.filter (fun leaf => leaf.InPage (unhosted page)) = {page.leaf} := by
        ext leaf
        rw [Finset.mem_filter, Finset.mem_singleton]
        have inPage : leaf.InPage (unhosted page) ↔ leaf.InPage page := by
          rw [Leaf.InPage, (guest page).1, (guest page).2, Leaf.InPage]
        rw [inPage]
        constructor
        · rintro ⟨listed, inside⟩
          have start := Leaf.contains_start (after.filled leaf listed)
          exact after.apart leaf listed page.leaf here leaf.gpa start (inside.contains start)
        · rintro rfl
          exact ⟨here, page.leaf_inPage⟩
      refine ⟨?_, ih (fun other member => filled other (List.mem_cons_of_mem _ member)) distinct
        (fun other member => free other (List.mem_cons_of_mem _ member)) ?_⟩
      · rw [unmapPage_ret, api.counts, alone, Finset.sum_singleton, (guest page).2]
        exact UInt64.ofNat_toNat
      · have rest : (unmapPage iommuUnmap after (unhosted page)).2.leaves = after.leaves.erase page.leaf := by
          rw [Finset.erase_eq, ← alone, ← Finset.filter_not]
          exact api.removes after (unhosted page)
        rw [rest, added, List.map_cons, List.toFinset_cons, Finset.union_insert,
          Finset.erase_insert (by simpa [absent] using fresh)]

theorem UnmapApi.worked (api : UnmapApi iommuUnmap) (worked : Worked (unmapPage iommuUnmap) domain pages after) :
    (∀ page ∈ pages, ∀ address, page.leaf.Contains address → domain.Mapped address ∧ ¬ after.Mapped address) ∧
      (∀ address, (∀ page ∈ pages, ¬ page.leaf.Contains address) → ∀ leaf, leaf.Contains address →
        (leaf ∈ after.leaves ↔ leaf ∈ domain.leaves)) ∧ after.leaves ⊆ domain.leaves := by
  induction pages generalizing domain with
  | nil =>
      cases worked
      exact ⟨by simp, fun _ _ _ _ => Iff.rfl, Finset.Subset.refl _⟩
  | cons page rest ih =>
      obtain ⟨done, worked⟩ := worked
      obtain ⟨inside, outside, fewer⟩ := api.full done
      obtain ⟨restInside, restOutside, restFewer⟩ := ih worked
      refine ⟨List.forall_mem_cons.mpr ⟨?_, ?_⟩, ?_, restFewer.trans fewer⟩
      · intro address contains
        obtain ⟨mapped, unmapped⟩ := inside address contains
        refine ⟨mapped, ?_⟩
        rintro ⟨leaf, listed, covered⟩
        exact unmapped ⟨leaf, restFewer listed, covered⟩
      · intro other member address contains
        obtain ⟨⟨leaf, listed, covered⟩, unmapped⟩ := restInside other member address contains
        exact ⟨⟨leaf, fewer listed, covered⟩, unmapped⟩
      · intro address elsewhere leaf contains
        obtain ⟨here, others⟩ := List.forall_mem_cons.mp elsewhere
        rw [restOutside address others leaf contains, outside address here leaf contains]

/-- Unmapping undoes mapping, and it succeeds only on what is mapped in full. -/
theorem unmap_undoes_map (mapApi : MapApi iommuMap) (unmapApi : UnmapApi iommuUnmap)
    (positive : 0 < lcall.size.toNat) (whole : lcall.size.toNat % 4096 = 0) :
    (∀ domain mapped : IommuDomain,
      (∀ address, Span.Within lcall.gpa lcall.size.toNat address → ¬ domain.Mapped address) →
      (∃ fuel, enclavePciIommuMap iommuMap fuel state lcall domain = some ([0], mapped)) →
      ∃ fuel, enclavePciIommuUnmap iommuUnmap fuel state lcall mapped = some ([0], domain)) ∧
    (∀ domain after : IommuDomain,
      (∃ fuel, enclavePciIommuUnmap iommuUnmap fuel state lcall domain = some ([0], after)) →
      (∀ address, Span.Within lcall.gpa lcall.size.toNat address → domain.Mapped address ∧ ¬ after.Mapped address) ∧
      ∀ address, ¬ Span.Within lcall.gpa lcall.size.toNat address → ∀ host,
        after.Translates address host ↔ domain.Translates address host) := by
  simp only [enclavePciIommuMap_eq, enclavePciIommuUnmap_eq, regionLoop_worked positive whole]
  constructor
  · rintro domain mapped free ⟨assigned, worked⟩
    refine ⟨assigned, ?_⟩
    rw [allPages_unhosted lcall lcall.regionStart]
    refine unmapApi.undoes (fun page => ⟨rfl, rfl⟩) (allPages_filled _) (allPages_nodup lcall _) ?_ (mapApi.worked worked)
    intro page member
    exact free _ ((within_iff whole _).mpr ⟨page, member, Leaf.contains_start (allPages_filled _ page member)⟩)
  · rintro domain after ⟨-, worked⟩
    obtain ⟨inside, outside, -⟩ := unmapApi.worked worked
    constructor
    · intro address within
      obtain ⟨page, member, contains⟩ := (within_iff whole 0).mp within
      exact inside page member address contains
    · intro address elsewhere host
      have untouched : ∀ page ∈ lcall.allPages 0, ¬ page.leaf.Contains address := fun page member contains =>
        elsewhere ((within_iff whole 0).mpr ⟨page, member, contains⟩)
      refine exists_congr fun leaf => ?_
      constructor
      · rintro ⟨listed, contains, translated⟩
        exact ⟨(outside address untouched leaf contains).mp listed, contains, translated⟩
      · rintro ⟨listed, contains, translated⟩
        exact ⟨(outside address untouched leaf contains).mpr listed, contains, translated⟩

end Region

/-! ## Kernels that behave so -/

theorem not_meet_of_free {other : Leaf} (free : domain.Free leaf) (listed : other ∈ domain.leaves)
    (left : other.Contains address) : ¬ leaf.Contains address := by
  intro right
  exact free.2 other listed ((Span.meet_iff (domain.filled other listed) free.1).mp ⟨address, left, right⟩)

def IommuDomain.add (domain : IommuDomain) (leaf : Leaf) (free : domain.Free leaf) : IommuDomain where
  leaves := insert leaf domain.leaves
  filled := (Finset.forall_mem_insert ..).mpr ⟨free.1, domain.filled⟩
  apart := by
    intro first firstMember second secondMember address left right
    rcases Finset.mem_insert.mp firstMember with rfl | firstOlder
    · rcases Finset.mem_insert.mp secondMember with rfl | secondOlder
      · rfl
      · exact absurd left (not_meet_of_free free secondOlder right)
    · rcases Finset.mem_insert.mp secondMember with rfl | secondOlder
      · exact absurd right (not_meet_of_free free firstOlder left)
      · exact domain.apart first firstOlder second secondOlder address left right

def IommuDomain.remove (domain : IommuDomain) (cursor : Cursor) : IommuDomain where
  leaves := domain.leaves.filter fun leaf => ¬ leaf.InPage cursor
  filled := fun leaf member => domain.filled leaf (Finset.mem_filter.mp member).1
  apart := fun first firstMember second secondMember =>
    domain.apart first (Finset.mem_filter.mp firstMember).1 second (Finset.mem_filter.mp secondMember).1

/-- A kernel that maps what is free, as long as there is memory for its tables -/
def mapFree (memory : Cursor → Bool) (domain : IommuDomain) (cursor : Cursor) : Int × IommuDomain :=
  if free : domain.Free cursor.leaf then
    if memory cursor then (0, domain.add cursor.leaf free) else (-12, domain)
  else (-16, domain)

def unmapLeaves (domain : IommuDomain) (cursor : Cursor) : UInt64 × IommuDomain :=
  (.ofNat (∑ leaf ∈ domain.leaves.filter fun leaf => leaf.InPage cursor, leaf.size.toNat), domain.remove cursor)

theorem mapFree_api (memory : Cursor → Bool) : MapApi (mapFree memory) := by
  constructor
  · intro domain cursor succeeded
    unfold mapFree at succeeded ⊢
    split at succeeded
    · rename_i free
      split at succeeded
      · rename_i enough
        rw [dif_pos free, if_pos enough]
        exact ⟨fun listed => not_meet_of_free free listed (Leaf.contains_start free.1) (Leaf.contains_start free.1), rfl⟩
      · cases succeeded
    · cases succeeded
  · intro domain cursor failed
    unfold mapFree at failed ⊢
    split at failed
    · rename_i free
      split at failed
      · exact absurd rfl failed
      · rename_i none
        rw [dif_pos free, if_neg none]
    · rename_i occupied
      rw [dif_neg occupied]

theorem unmapLeaves_api : UnmapApi unmapLeaves := ⟨fun _ _ => rfl, fun _ _ => rfl⟩

theorem twoPages_undone : ∃ mapped,
    (∃ fuel, enclavePciIommuMap (mapFree fun _ => true) fuel attached twoPages .empty = some ([0], mapped)) ∧
      ∃ fuel, enclavePciIommuUnmap unmapLeaves fuel attached twoPages mapped = some ([0], .empty) := by
  have succeeded : (enclavePciIommuMap (mapFree fun _ => true) 2 attached twoPages .empty).map (·.1) = some [0] := by
    decide
  obtain ⟨⟨answers, mapped⟩, returned, same⟩ := Option.map_eq_some_iff.mp succeeded
  cases same
  refine ⟨mapped, ⟨2, returned⟩, ?_⟩
  have undone := (@unmap_undoes_map _ _ attached twoPages (mapFree_api fun _ => true) unmapLeaves_api (by decide)
    (by decide)).1 .empty mapped
  exact undone (fun address _ ⟨leaf, listed, _⟩ => absurd listed (Finset.notMem_empty leaf)) ⟨2, returned⟩

/-! ## A request to map that fails -/

theorem MapApi.free_of_added (api : MapApi iommuMap) (succeeded : (iommuMap domain cursor).1 = 0) :
    domain.Free cursor.leaf := by
  obtain ⟨absent, leaves⟩ := api.adds domain cursor succeeded
  have added : cursor.leaf ∈ (iommuMap domain cursor).2.leaves := by simp [leaves]
  have filled := (iommuMap domain cursor).2.filled _ added
  refine ⟨filled, fun other listed meets => ?_⟩
  obtain ⟨address, left, right⟩ := (Span.meet_iff (domain.filled other listed) filled).mpr meets
  have kept : other ∈ (iommuMap domain cursor).2.leaves := by simp [leaves, listed]
  exact absent ((iommuMap domain cursor).2.apart other kept _ added address left right ▸ listed)

/-- The request leaves the domain alone when it fails. -/
def Atomic (iommuMap : IommuDomain → Cursor → Int × IommuDomain) (state : State) (lcall : RegionLcall)
    (domain : IommuDomain) : Prop :=
  ∀ fuel ret after, enclavePciIommuMap iommuMap fuel state lcall domain = some ([ret], after) → ret ≠ 0 → after = domain

theorem MapApi.first_mapped (api : MapApi iommuMap) {turn : Nat}
    (succeeded : ∀ earlier < turn + 1, resultAt iommuMap cursor domain earlier = 0) :
    (cursor.page 0).leaf ∈ (domainAt iommuMap cursor domain (turn + 1)).leaves := by
  induction turn with
  | zero =>
      rw [domainAt, (api.adds _ _ (succeeded 0 Nat.one_pos)).2]
      exact Finset.mem_insert_self ..
  | succ turn ih =>
      rw [domainAt, (api.adds _ _ (succeeded (turn + 1) (Nat.lt_succ_self _))).2]
      exact Finset.mem_insert_of_mem (ih fun earlier bound => succeeded earlier (Nat.lt_succ_of_lt bound))

variable {state : State} {lcall : RegionLcall}

theorem atomic_of_first (api : MapApi iommuMap)
    (later : assignedAs state lcall.name = false ∨ ∀ turn > 0,
      (∀ earlier < turn, ¬ StopsAt iommuMap (lcall.cursor lcall.regionStart) domain earlier) →
      resultAt iommuMap (lcall.cursor lcall.regionStart) domain turn = 0) :
    Atomic iommuMap state lcall domain := by
  intro fuel ret after returned failed
  rw [enclavePciIommuMap_eq] at returned
  cases assigned : assignedAs state lcall.name with
  | false =>
      simp only [regionLoop, assigned, Bool.false_eq_true, if_false, Option.some.injEq, Prod.mk.injEq] at returned
      exact returned.2.symm
  | true =>
      have later := later.resolve_left (by rw [assigned]; decide)
      simp only [regionLoop, assigned, if_true, Option.map_eq_some_iff] at returned
      obtain ⟨⟨result, kernel⟩, returned, same⟩ := returned
      cases same
      obtain ⟨turn, -, -, goesOn, rfl, rfl⟩ := stop_of_returned returned
      rcases Nat.eq_zero_or_pos turn with rfl | behind
      · exact api.refuses domain _ failed
      · exact absurd (later turn behind goesOn) failed

theorem first_of_atomic (api : MapApi iommuMap) (atomic : Atomic iommuMap state lcall domain)
    (assigned : assignedAs state lcall.name = true) {turn : Nat} (behind : 0 < turn)
    (goesOn : ∀ earlier < turn, ¬ StopsAt iommuMap (lcall.cursor lcall.regionStart) domain earlier) :
    resultAt iommuMap (lcall.cursor lcall.regionStart) domain turn = 0 := by
  by_contra failed
  have succeeded : ∀ earlier < turn, resultAt iommuMap (lcall.cursor lcall.regionStart) domain earlier = 0 := by
    intro earlier before
    by_contra failed
    exact goesOn earlier before (.inl failed)
  obtain ⟨turn, rfl⟩ := Nat.exists_eq_succ_of_ne_zero (Nat.ne_of_gt behind)
  have returned := iommuLoop_stops goesOn (.inl failed) (Nat.lt_succ_self _)
  have same := atomic _ _ _ (by rw [enclavePciIommuMap_eq, regionLoop, if_pos assigned, returned]; rfl) failed
  have kept : domainAt iommuMap (lcall.cursor lcall.regionStart) domain (turn + 1 + 1) =
      domainAt iommuMap (lcall.cursor lcall.regionStart) domain (turn + 1) := api.refuses _ _ failed
  have mapped := api.first_mapped succeeded
  rw [← kept, same] at mapped
  exact (api.adds domain _ (succeeded 0 behind)).1 mapped

/-- One page is all that the region takes. -/
def RegionLcall.Single (lcall : RegionLcall) : Prop := lcall.size = 4096 ∨ lcall.size = 2097152

theorem single_iff (lcall : RegionLcall) (hpa : UInt64) :
    ((lcall.cursor hpa).page 0).advance.size = 0 ↔ lcall.Single := by
  have small := lcall.size.toNat_lt
  rw [RegionLcall.cursor, advance_size_eq_zero_iff, RegionLcall.Single, ← UInt64.toNat_inj, ← UInt64.toNat_inj]
  simp only [bytesBefore, UInt64.reduceToNat]
  omega

theorem first_page_ne (lcall : RegionLcall) (hpa : UInt64) : (lcall.cursor hpa).page 1 ≠ (lcall.cursor hpa).page 0 := by
  intro same
  have guests := congrArg Cursor.gpa same
  simp only [RegionLcall.cursor, page_eq, UInt64.add_right_inj] at guests
  have bytes := congrArg UInt64.toNat guests
  have next := bytesBefore_lt_of_lt lcall.size Nat.one_pos
  rw [UInt64.toNat_ofNat', UInt64.toNat_ofNat'] at bytes
  have bound : bytesBefore lcall.size.toNat 1 ≤ 2097152 := by
    unfold bytesBefore
    omega
  omega

/-- A failed request leaves the domain alone exactly if its first call is the one
that fails; for every kernel, if there is no second call. -/
theorem failed_map_iff (state : State) (lcall : RegionLcall) (domain : IommuDomain) :
    (∀ iommuMap, MapApi iommuMap → (Atomic iommuMap state lcall domain ↔ assignedAs state lcall.name = false ∨
      ∀ turn > 0, (∀ earlier < turn, ¬ StopsAt iommuMap (lcall.cursor lcall.regionStart) domain earlier) →
        resultAt iommuMap (lcall.cursor lcall.regionStart) domain turn = 0)) ∧
    ((∀ iommuMap, MapApi iommuMap → Atomic iommuMap state lcall domain) ↔ assignedAs state lcall.name = false ∨
      lcall.Single ∨ ¬ domain.Free ((lcall.cursor lcall.regionStart).page 0).leaf) := by
  constructor
  · intro iommuMap api
    refine ⟨fun atomic => ?_, atomic_of_first api⟩
    cases assigned : assignedAs state lcall.name with
    | false => exact .inl rfl
    | true => exact .inr fun turn behind goesOn => first_of_atomic api atomic assigned behind goesOn
  · constructor
    · intro always
      by_contra several
      push Not at several
      obtain ⟨assigned, several, free⟩ := several
      have assigned : assignedAs state lcall.name = true := by simpa using assigned
      -- There is memory for the first page only.
      have api := mapFree_api fun page => page == (lcall.cursor lcall.regionStart).page 0
      have first : (mapFree (fun page => page == (lcall.cursor lcall.regionStart).page 0) domain
          ((lcall.cursor lcall.regionStart).page 0)).1 = 0 := by
        simp [mapFree, free]
      have second := first_of_atomic api (always _ api) assigned Nat.one_pos ?_
      · simp only [resultAt, mapFree, beq_iff_eq, first_page_ne, if_false] at second
        split at second
        · cases second
        · cases second
      · intro earlier before
        obtain rfl : earlier = 0 := by omega
        rintro (failed | finished)
        · exact failed first
        · exact several ((single_iff lcall _).mp finished)
    · intro once iommuMap api
      apply atomic_of_first api
      rcases once with unassigned | single | occupied
      · exact .inl unassigned
      · exact .inr fun turn behind goesOn => absurd (.inr ((single_iff lcall _).mpr single)) (goesOn 0 behind)
      · refine .inr fun turn behind goesOn => ?_
        by_cases failed : resultAt iommuMap (lcall.cursor lcall.regionStart) domain 0 = 0
        · exact absurd failed fun succeeded => occupied (api.free_of_added succeeded)
        · exact absurd (.inl failed) (goesOn 0 behind)

/-- Nothing is left of a single page that cannot be mapped. -/
theorem onePage_atomic : Atomic (mapFree fun _ => false) attached
    ⟨[110, 105, 99], 0x40000000, 0x40001000, 0x1000⟩ .empty :=
  (failed_map_iff attached ⟨[110, 105, 99], 0x40000000, 0x40001000, 0x1000⟩ .empty).2.mpr
      (.inr (.inl (.inl (by decide)))) _
    (mapFree_api _)

/-- The second page of two cannot be mapped, and the first one stays. -/
theorem twoPages_not_atomic : MapApi (mapFree fun page => page.pageSize == 0x200000) ∧
    ¬ Atomic (mapFree fun page => page.pageSize == 0x200000) attached twoPages .empty := by
  refine ⟨mapFree_api _, fun atomic => ?_⟩
  have failed : (enclavePciIommuMap (mapFree fun page => page.pageSize == 0x200000) 2 attached twoPages .empty).map
      (fun outcome => (outcome.1, outcome.2.leaves.card)) = some ([-12], 1) := by decide
  obtain ⟨⟨answers, after⟩, returned, same⟩ := Option.map_eq_some_iff.mp failed
  obtain ⟨rfl, card⟩ := Prod.mk.inj same
  rw [atomic 2 (-12) after returned (by decide)] at card
  cases card

end Pisces.Pci
