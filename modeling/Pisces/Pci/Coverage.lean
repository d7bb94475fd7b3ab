import Mathlib.Data.Nat.Find
import Pisces.Pci.Iommu
import Pisces.Span

/-! # What the IOMMU long calls cover

The calls that the loops of `enclave_pci_iommu_map` and `enclave_pci_iommu_unmap`
make, turn by turn, and the addresses of their pages.
-/

namespace Pisces.Pci

section Turns

variable {Domain : Type*} (call : Domain → Cursor → Int × Domain) (cursor : Cursor) (domain : Domain)

/-- The domain before each turn, as long as the calls succeed -/
def domainAt : Nat → Domain
  | 0 => domain
  | turn + 1 => (call (domainAt turn) (cursor.page turn)).2

def resultAt (turn : Nat) : Int := (call (domainAt call cursor domain turn) (cursor.page turn)).1

def StopsAt (turn : Nat) : Prop :=
  resultAt call cursor domain turn ≠ 0 ∨ (cursor.page turn).advance.size = 0

instance (turn : Nat) : Decidable (StopsAt call cursor domain turn) := inferInstanceAs (Decidable (_ ∨ _))

variable {call cursor domain}

theorem domainAt_succ (turn : Nat) : domainAt call cursor domain (turn + 1) =
    domainAt call cursor.choose.advance (call domain cursor.choose).2 turn := by
  induction turn with
  | zero => rfl
  | succ turn ih => rw [domainAt, ih, page_succ, domainAt]

theorem resultAt_succ (turn : Nat) : resultAt call cursor domain (turn + 1) =
    resultAt call cursor.choose.advance (call domain cursor.choose).2 turn := by
  rw [resultAt, domainAt_succ, page_succ, resultAt]

theorem stopsAt_succ (turn : Nat) : StopsAt call cursor domain (turn + 1) ↔
    StopsAt call cursor.choose.advance (call domain cursor.choose).2 turn := by
  rw [StopsAt, resultAt_succ, page_succ, StopsAt]

theorem iommuLoop_turn (fuel : Nat) : iommuLoop call (fuel + 1) cursor domain =
    if StopsAt call cursor domain 0 then some (resultAt call cursor domain 0, domainAt call cursor domain 1)
    else iommuLoop call fuel cursor.choose.advance (call domain cursor.choose).2 := by
  have result : resultAt call cursor domain 0 = (call domain cursor.choose).1 := rfl
  have next : domainAt call cursor domain 1 = (call domain cursor.choose).2 := rfl
  by_cases failed : (call domain cursor.choose).1 = 0
  · simp [iommuLoop, StopsAt, result, next, failed, Cursor.page]
  · simp [iommuLoop, StopsAt, result, next, failed]

/-- The loop returns from the first turn that stops it. -/
theorem iommuLoop_stops {turn fuel : Nat} (goesOn : ∀ earlier < turn, ¬ StopsAt call cursor domain earlier)
    (stops : StopsAt call cursor domain turn) (enough : turn < fuel) :
    iommuLoop call fuel cursor domain =
      some (resultAt call cursor domain turn, domainAt call cursor domain (turn + 1)) := by
  induction turn generalizing cursor domain fuel with
  | zero =>
      obtain ⟨fuel, rfl⟩ := Nat.exists_eq_succ_of_ne_zero (Nat.ne_of_gt enough)
      rw [iommuLoop_turn, if_pos stops]
  | succ turn ih =>
      obtain ⟨fuel, rfl⟩ := Nat.exists_eq_succ_of_ne_zero (Nat.ne_zero_of_lt enough)
      rw [iommuLoop_turn, if_neg (goesOn 0 (Nat.succ_pos turn)), resultAt_succ, domainAt_succ]
      apply ih
      · intro earlier bound
        rw [← stopsAt_succ]
        exact goesOn (earlier + 1) (by omega)
      · exact (stopsAt_succ turn).mp stops
      · omega

theorem iommuLoop_none {fuel : Nat} (goesOn : ∀ turn < fuel, ¬ StopsAt call cursor domain turn) :
    iommuLoop call fuel cursor domain = none := by
  induction fuel generalizing cursor domain with
  | zero => rfl
  | succ fuel ih =>
      rw [iommuLoop_turn, if_neg (goesOn 0 (Nat.succ_pos fuel))]
      apply ih
      intro turn bound
      rw [← stopsAt_succ]
      exact goesOn (turn + 1) (by omega)

theorem first_stop {turn : Nat} (stops : StopsAt call cursor domain turn) :
    ∃ first ≤ turn, StopsAt call cursor domain first ∧ ∀ earlier < first, ¬ StopsAt call cursor domain earlier := by
  have exists_stop : ∃ turn, StopsAt call cursor domain turn := ⟨turn, stops⟩
  exact ⟨Nat.find exists_stop, Nat.find_min' exists_stop stops, Nat.find_spec exists_stop,
    fun earlier before => Nat.find_min exists_stop before⟩

theorem stop_of_returned {fuel : Nat} {ret : Int} {after : Domain}
    (returned : iommuLoop call fuel cursor domain = some (ret, after)) :
    ∃ turn < fuel, StopsAt call cursor domain turn ∧ (∀ earlier < turn, ¬ StopsAt call cursor domain earlier) ∧
      ret = resultAt call cursor domain turn ∧ after = domainAt call cursor domain (turn + 1) := by
  by_cases stopping : ∃ turn < fuel, StopsAt call cursor domain turn
  · obtain ⟨turn, bound, stops⟩ := stopping
    obtain ⟨first, before, stops, goesOn⟩ := first_stop stops
    have enough : first < fuel := by omega
    rw [iommuLoop_stops goesOn stops enough] at returned
    obtain ⟨rfl, rfl⟩ := Prod.mk.inj (Option.some.inj returned)
    exact ⟨first, enough, stops, goesOn, rfl, rfl⟩
  · push Not at stopping
    rw [iommuLoop_none stopping] at returned
    cases returned

end Turns

/-! ## The pages of a region -/

/-- The bytes of the pages before a turn -/
def bytesBefore (size turn : Nat) : Nat :=
  min turn (size / 2097152) * 2097152 + (turn - size / 2097152) * 4096

/-- The pages that a region takes; the last one may be used in part. -/
def pageCount (size : Nat) : Nat := size / 2097152 + (size % 2097152 + 4095) / 4096

theorem bytesBefore_succ (size : UInt64) (turn : Nat) :
    bytesBefore size.toNat (turn + 1) = bytesBefore size.toNat turn + (pageSizeAt size turn).toNat := by
  unfold bytesBefore pageSizeAt
  split
  · simp only [UInt64.reduceToNat]
    omega
  · simp only [UInt64.reduceToNat]
    omega

theorem bytesBefore_mono (size : Nat) {turn later : Nat} (before : turn ≤ later) :
    bytesBefore size turn ≤ bytesBefore size later := by
  unfold bytesBefore
  have smaller : min turn (size / 2097152) ≤ min later (size / 2097152) := by omega
  omega

theorem bytesBefore_pageCount (size : Nat) : bytesBefore size (pageCount size) = (size + 4095) / 4096 * 4096 := by
  unfold bytesBefore pageCount
  omega

theorem bytesBefore_lt {size turn : Nat} (before : turn < pageCount size) : bytesBefore size turn < size := by
  unfold bytesBefore
  unfold pageCount at before
  omega

theorem pageCount_le (size : Nat) : pageCount size ≤ (size + 4095) / 4096 := by
  unfold pageCount
  omega

theorem choose_gpa (cursor : Cursor) : cursor.choose.gpa = cursor.gpa := by
  unfold Cursor.choose
  split <;> rfl

theorem choose_hpa (cursor : Cursor) : cursor.choose.hpa = cursor.hpa := by
  unfold Cursor.choose
  split <;> rfl

theorem page_eq (size gpa hpa : UInt64) (turn : Nat) : (Cursor.mk size 2097152 gpa hpa).page turn =
    ⟨size - .ofNat (bytesBefore size.toNat turn), pageSizeAt size turn,
      gpa + .ofNat (bytesBefore size.toNat turn), hpa + .ofNat (bytesBefore size.toNat turn)⟩ := by
  have pageSize := page_pageSize size gpa hpa turn
  have rest : ((Cursor.mk size 2097152 gpa hpa).page turn).size = size - .ofNat (bytesBefore size.toNat turn) ∧
      ((Cursor.mk size 2097152 gpa hpa).page turn).gpa = gpa + .ofNat (bytesBefore size.toNat turn) ∧
      ((Cursor.mk size 2097152 gpa hpa).page turn).hpa = hpa + .ofNat (bytesBefore size.toNat turn) := by
    clear pageSize
    induction turn with
    | zero => simp [Cursor.page, choose_size, choose_gpa, choose_hpa, bytesBefore]
    | succ turn ih =>
        obtain ⟨left, guest, host⟩ := ih
        rw [Cursor.page, choose_size, choose_gpa, choose_hpa, bytesBefore_succ, UInt64.ofNat_add, UInt64.ofNat_toNat,
          ← page_pageSize size gpa hpa turn]
        simp only [Cursor.advance, left, guest, host, UInt64.add_assoc, Span.sub_sub, and_self]
  obtain ⟨left, guest, host⟩ := rest
  rw [← left, ← guest, ← host, ← pageSize]

theorem advance_size_eq_zero_iff (size gpa hpa : UInt64) (turn : Nat) :
    ((Cursor.mk size 2097152 gpa hpa).page turn).advance.size = 0 ↔
      bytesBefore size.toNat (turn + 1) % 18446744073709551616 = size.toNat := by
  rw [page_eq, bytesBefore_succ]
  simp only [Cursor.advance]
  have sum : size - .ofNat (bytesBefore size.toNat turn) - pageSizeAt size turn =
      size - .ofNat (bytesBefore size.toNat turn + (pageSizeAt size turn).toNat) := by
    rw [UInt64.ofNat_add, UInt64.ofNat_toNat, Span.sub_sub]
  rw [sum, UInt64.sub_eq_iff_eq_add, UInt64.zero_add, ← UInt64.toNat_inj, UInt64.toNat_ofNat']
  exact eq_comm

/-- Addresses from `gpa` on, with the host addresses that they are mapped to -/
def places (gpa hpa : UInt64) (size : Nat) : List (UInt64 × UInt64) :=
  (List.range size).map fun distance => (gpa + .ofNat distance, hpa + .ofNat distance)

def Cursor.places (cursor : Cursor) : List (UInt64 × UInt64) :=
  Pci.places cursor.gpa cursor.hpa cursor.pageSize.toNat

theorem places_add (gpa hpa : UInt64) (first second : Nat) : places gpa hpa (first + second) =
    places gpa hpa first ++ places (gpa + .ofNat first) (hpa + .ofNat first) second := by
  simp only [places, List.range_add, List.map_append, List.map_map, Function.comp_def, UInt64.ofNat_add,
    UInt64.add_assoc]

theorem places_fst (gpa hpa : UInt64) (size : Nat) : (places gpa hpa size).map (·.1) = Span.addresses gpa size := by
  simp only [places, Span.addresses, List.map_map, Function.comp_def]

theorem pages_places (size gpa hpa : UInt64) (turns : Nat) :
    ((List.range turns).map (Cursor.mk size 2097152 gpa hpa).page).flatMap Cursor.places =
      places gpa hpa (bytesBefore size.toNat turns) := by
  induction turns with
  | zero => simp [bytesBefore, places]
  | succ turns ih =>
      rw [List.range_succ, List.map_append, List.flatMap_append, ih, bytesBefore_succ, places_add, List.map_singleton,
        List.flatMap_singleton, page_eq]
      rfl

/-! ## The calls that a request makes -/

section Requests

variable {Domain Result : Type*}

/-- A kernel that keeps the pages it is called with and what it answers -/
def recording (call : Domain → Cursor → Result × Domain) (kernel : Domain × List (Cursor × Result)) (cursor : Cursor) :
    Result × Domain × List (Cursor × Result) :=
  ((call kernel.1 cursor).1, (call kernel.1 cursor).2, kernel.2 ++ [(cursor, (call kernel.1 cursor).1)])

def RegionLcall.cursor (lcall : RegionLcall) (hpa : UInt64) : Cursor := ⟨lcall.size, 2097152, lcall.gpa, hpa⟩

/-- What the two handlers share -/
def regionLoop (call : Domain → Cursor → Int × Domain) (hpa : UInt64) (fuel : Nat) (state : State)
    (lcall : RegionLcall) (domain : Domain) : Option (List Int × Domain) :=
  if assignedAs state lcall.name then
    (iommuLoop call fuel (lcall.cursor hpa) domain).map fun (ret, domain) => ([ret], domain)
  else some ([-1], domain)

theorem enclavePciIommuMap_eq (iommuMap : Domain → Cursor → Int × Domain) (fuel : Nat) (state : State)
    (lcall : RegionLcall) (domain : Domain) : enclavePciIommuMap iommuMap fuel state lcall domain =
      regionLoop iommuMap lcall.regionStart fuel state lcall domain := rfl

theorem enclavePciIommuUnmap_eq (iommuUnmap : Domain → Cursor → UInt64 × Domain) (fuel : Nat) (state : State)
    (lcall : RegionLcall) (domain : Domain) : enclavePciIommuUnmap iommuUnmap fuel state lcall domain =
      regionLoop (unmapPage iommuUnmap) 0 fuel state lcall domain := rfl

section Logged

variable {call : Domain → Cursor → Int × Domain} {entry : Domain → Cursor → Result}
  {logged : Domain × List (Cursor × Result) → Cursor → Int × Domain × List (Cursor × Result)}

/-- `logged` makes the calls of `call` and keeps an entry for each. -/
def Logs (logged : Domain × List (Cursor × Result) → Cursor → Int × Domain × List (Cursor × Result))
    (call : Domain → Cursor → Int × Domain) (entry : Domain → Cursor → Result) : Prop :=
  ∀ domain calls cursor, logged (domain, calls) cursor =
    ((call domain cursor).1, (call domain cursor).2, calls ++ [(cursor, entry domain cursor)])

def callsOf (call : Domain → Cursor → Int × Domain) (entry : Domain → Cursor → Result) (cursor : Cursor)
    (domain : Domain) (turns : Nat) : List (Cursor × Result) :=
  (List.range turns).map fun turn => (cursor.page turn, entry (domainAt call cursor domain turn) (cursor.page turn))

theorem callsOf_pages (cursor : Cursor) (domain : Domain) (turns : Nat) :
    (callsOf call entry cursor domain turns).map (·.1) = (List.range turns).map cursor.page := by
  simp only [callsOf, List.map_map, Function.comp_def]

theorem Logs.domainAt (logs : Logs logged call entry) (cursor : Cursor) (domain : Domain) (turn : Nat) :
    domainAt logged cursor (domain, []) turn =
      (Pci.domainAt call cursor domain turn, callsOf call entry cursor domain turn) := by
  induction turn with
  | zero => rfl
  | succ turn ih =>
      rw [Pci.domainAt, ih, logs, callsOf, callsOf, List.range_succ, List.map_append]
      rfl

theorem Logs.resultAt (logs : Logs logged call entry) (cursor : Cursor) (domain : Domain) (turn : Nat) :
    resultAt logged cursor (domain, []) turn = Pci.resultAt call cursor domain turn := by
  rw [Pci.resultAt, logs.domainAt, logs]
  rfl

theorem Logs.stopsAt (logs : Logs logged call entry) (cursor : Cursor) (domain : Domain) (turn : Nat) :
    StopsAt logged cursor (domain, []) turn ↔ StopsAt call cursor domain turn := by
  rw [StopsAt, logs.resultAt, StopsAt]

theorem recording_logs (iommuMap : Domain → Cursor → Int × Domain) :
    Logs (recording iommuMap) iommuMap fun domain cursor => (iommuMap domain cursor).1 := fun _ _ _ => rfl

theorem unmapPage_logs (iommuUnmap : Domain → Cursor → UInt64 × Domain) :
    Logs (unmapPage (recording iommuUnmap)) (unmapPage iommuUnmap)
      fun domain cursor => (iommuUnmap domain cursor).1 := fun _ _ _ => rfl

theorem Logs.stops (logs : Logs logged call entry) {cursor : Cursor} {domain : Domain} {turn fuel : Nat}
    (goesOn : ∀ earlier < turn, ¬ StopsAt call cursor domain earlier) (stops : StopsAt call cursor domain turn)
    (enough : turn < fuel) : iommuLoop logged fuel cursor (domain, []) =
      some (Pci.resultAt call cursor domain turn, Pci.domainAt call cursor domain (turn + 1),
        callsOf call entry cursor domain (turn + 1)) := by
  have before : ∀ earlier < turn, ¬ StopsAt logged cursor (domain, []) earlier := by
    intro earlier bound
    rw [logs.stopsAt]
    exact goesOn earlier bound
  rw [iommuLoop_stops before ((logs.stopsAt cursor domain turn).mpr stops) enough, logs.resultAt, logs.domainAt]

end Logged

theorem whole_finished {size : UInt64} (gpa hpa : UInt64) (positive : 0 < size.toNat) (whole : size.toNat % 4096 = 0)
    {turn : Nat} (bound : turn < pageCount size.toNat) :
    ((Cursor.mk size 2097152 gpa hpa).page turn).advance.size = 0 ↔ turn + 1 = pageCount size.toNat := by
  have small := size.toNat_lt
  have last := bytesBefore_pageCount size.toNat
  rw [advance_size_eq_zero_iff]
  constructor
  · intro finished
    by_contra more
    have before := bytesBefore_lt (show turn + 1 < pageCount size.toNat by omega)
    omega
  · intro same
    rw [same, last]
    omega

theorem pageCount_pos {size : Nat} (positive : 0 < size) : 0 < pageCount size := by
  unfold pageCount
  omega

theorem whole_stop {size : UInt64} (gpa hpa : UInt64) (positive : 0 < size.toNat) (whole : size.toNat % 4096 = 0)
    (call : Domain → Cursor → Int × Domain) (domain : Domain) :
    ∃ turn < pageCount size.toNat, StopsAt call ⟨size, 2097152, gpa, hpa⟩ domain turn ∧
      ∀ earlier < turn, ¬ StopsAt call ⟨size, 2097152, gpa, hpa⟩ domain earlier := by
  have pages := pageCount_pos positive
  have finishes : StopsAt call ⟨size, 2097152, gpa, hpa⟩ domain (pageCount size.toNat - 1) :=
    .inr ((whole_finished gpa hpa positive whole (by omega)).mpr (by omega))
  obtain ⟨turn, before, stops, goesOn⟩ := first_stop finishes
  exact ⟨turn, by omega, stops, goesOn⟩

theorem pageSizes (size : UInt64) : (List.range (pageCount size.toNat)).map (pageSizeAt size) =
    .replicate (size.toNat / 2097152) 2097152 ++ .replicate ((size.toNat % 2097152 + 4095) / 4096) 4096 := by
  rw [pageCount, List.range_add, List.map_append, List.map_map]
  congr 1
  · rw [List.eq_replicate_iff]
    refine ⟨by simp, ?_⟩
    intro pageSize member
    obtain ⟨turn, bound, rfl⟩ := List.mem_map.mp member
    rw [pageSizeAt, if_pos (List.mem_range.mp bound)]
  · rw [List.eq_replicate_iff]
    refine ⟨by simp, ?_⟩
    intro pageSize member
    obtain ⟨turn, -, rfl⟩ := List.mem_map.mp member
    rw [Function.comp_apply, pageSizeAt, if_neg (by omega)]

/-- Every guest address of the region is mapped once, to its host address, and
nothing else is; large pages come first. -/
structure Covers (lcall : RegionLcall) (calls : List (Cursor × Int)) : Prop where
  exact : calls.flatMap (·.1.places) = places lcall.gpa lcall.regionStart lcall.size.toNat
  once : ((calls.flatMap (·.1.places)).map (·.1)).Nodup
  sizes : calls.map (·.1.pageSize) =
    .replicate (lcall.size.toNat / 2097152) 2097152 ++ .replicate (lcall.size.toNat % 2097152 / 4096) 4096

theorem callsOf_places {call : Domain → Cursor → Int × Domain} {entry : Domain → Cursor → Result}
    (size gpa hpa : UInt64) (domain : Domain) (turns : Nat) :
    (callsOf call entry ⟨size, 2097152, gpa, hpa⟩ domain turns).flatMap (·.1.places) =
      places gpa hpa (bytesBefore size.toNat turns) := by
  rw [← pages_places, ← @callsOf_pages Domain Result call entry _ domain, List.flatMap_map]

theorem covers_pages {lcall : RegionLcall} (whole : lcall.size.toNat % 4096 = 0)
    {call : Domain → Cursor → Int × Domain} {entry : Domain → Cursor → Int} (domain : Domain) :
    Covers lcall (callsOf call entry (lcall.cursor lcall.regionStart) domain (pageCount lcall.size.toNat)) := by
  have small := lcall.size.toNat_lt
  have bytes := bytesBefore_pageCount lcall.size.toNat
  have rounded : (lcall.size.toNat + 4095) / 4096 * 4096 = lcall.size.toNat := by omega
  rw [rounded] at bytes
  have exactly := @callsOf_places Domain Int call entry lcall.size lcall.gpa lcall.regionStart domain
    (pageCount lcall.size.toNat)
  rw [bytes] at exactly
  constructor
  · exact exactly
  · rw [RegionLcall.cursor, exactly, places_fst]
    exact Span.addresses_nodup (by omega)
  · have pageSizes := pageSizes lcall.size
    rw [show (lcall.size.toNat % 2097152 + 4095) / 4096 = lcall.size.toNat % 2097152 / 4096 by omega] at pageSizes
    rw [← pageSizes, callsOf, List.map_map]
    apply List.map_congr_left
    intro turn _
    exact page_pageSize ..

/-- A region of whole small pages is mapped page by page, unless a call fails. -/
theorem map_covers {state : State} {lcall : RegionLcall} (iommuMap : Domain → Cursor → Int × Domain) (domain : Domain)
    (assigned : assignedAs state lcall.name = true) (positive : 0 < lcall.size.toNat)
    (whole : lcall.size.toNat % 4096 = 0) :
    ∃ ret after calls, enclavePciIommuMap (recording iommuMap) (lcall.size.toNat / 4096) state lcall (domain, []) =
        some ([ret], after, calls) ∧ ((∀ call ∈ calls, call.2 = 0) → ret = 0 ∧ Covers lcall calls) := by
  obtain ⟨turn, bound, stops, goesOn⟩ := whole_stop lcall.gpa lcall.regionStart positive whole iommuMap domain
  have count := pageCount_le lcall.size.toNat
  have returned := (recording_logs iommuMap).stops goesOn stops (show turn < lcall.size.toNat / 4096 by omega)
  refine ⟨_, _, _, by rw [enclavePciIommuMap_eq, regionLoop, if_pos assigned, RegionLcall.cursor, returned]; rfl, ?_⟩
  intro succeeded
  have result : resultAt iommuMap ⟨lcall.size, 2097152, lcall.gpa, lcall.regionStart⟩ domain turn = 0 :=
    succeeded _ (List.mem_map_of_mem (List.mem_range.mpr (Nat.lt_succ_self turn)))
  have finished := stops.resolve_left fun failed => failed result
  have last := (whole_finished lcall.gpa lcall.regionStart positive whole bound).mp finished
  refine ⟨result, ?_⟩
  rw [last]
  exact covers_pages whole domain

/-- The enclave has one device, and it is assigned. -/
def attached : State where
  devList := [⟨[110, 105, 99], 3, 0, true, true, true, 64, false, true⟩]
  devCnt := 1

/-- A large and a small page -/
def twoPages : RegionLcall := ⟨[110, 105, 99], 0x40000000, 0x40201000, 0x1000⟩

theorem twoPages_covers : ∃ calls,
    enclavePciIommuMap (recording fun domain _ => (0, domain)) 513 attached twoPages ((), []) = some ([0], (), calls) ∧
      Covers twoPages calls := by
  obtain ⟨ret, after, calls, returned, covers⟩ := map_covers (fun domain _ => (0, domain)) ()
    (show assignedAs attached twoPages.name = true by decide) (show 0 < twoPages.size.toNat by decide) (by decide)
  have made : enclavePciIommuMap (recording fun domain _ => (0, domain)) (twoPages.size.toNat / 4096) attached twoPages
      ((), []) = some ([0], (), [(⟨0x201000, 0x200000, 0x1000, 0x40000000⟩, 0),
        (⟨0x1000, 0x1000, 0x201000, 0x40200000⟩, 0)]) :=
    rfl
  rw [made] at returned
  cases returned
  exact ⟨_, made, (covers (by simp)).2⟩

/-! ## Regions that the loops leave -/

/-- The bytes that a request asks for; an inverted region has none. -/
def RegionLcall.length (lcall : RegionLcall) : Nat := lcall.regionEnd.toNat - lcall.regionStart.toNat

/-- The small pages of the region, rounded up -/
def RegionLcall.pages (lcall : RegionLcall) : Nat := (lcall.length + 4095) / 4096

/-- The page lies in the rounded region, on both sides. -/
def Cursor.InRegion (cursor : Cursor) (lcall : RegionLcall) (hpa : UInt64) : Prop :=
  (cursor.gpa - lcall.gpa).toNat + cursor.pageSize.toNat ≤ lcall.pages * 4096 ∧
    (cursor.hpa - hpa).toNat + cursor.pageSize.toNat ≤ lcall.pages * 4096

/-- A request is answered after at most one call for each small page of its
region, no call reaches beyond the region, and it succeeds only if there is a
region and its calls succeed on all of it. -/
def Contained (lcall : RegionLcall) (hpa : UInt64) (succeeds : Cursor × Result → Prop)
    (handler : Nat → Option (List Int × Domain × List (Cursor × Result))) : Prop :=
  ∃ ret after calls, handler lcall.pages = some ([ret], after, calls) ∧ calls.length ≤ lcall.pages ∧
    (∀ call ∈ calls, call.1.InRegion lcall hpa) ∧
    (ret = 0 → 0 < lcall.length ∧ (∀ call ∈ calls, succeeds call) ∧
      calls.flatMap (·.1.places) = places lcall.gpa hpa (lcall.pages * 4096))

/-- The turns in which a loop that goes on stays inside the rounded region, which
is all of them where that is the whole address space. -/
def RegionLcall.turns (lcall : RegionLcall) : Nat :=
  if lcall.pages < 4503599627370496 then pageCount lcall.length else lcall.pages

/-- The device is not assigned, or the region is not empty and has whole small
pages or ends with a call that fails. -/
def Containable (state : State) (lcall : RegionLcall) (fails : Nat → Prop) : Prop :=
  assignedAs state lcall.name = false ∨
    lcall.regionStart < lcall.regionEnd ∧ (lcall.length % 4096 = 0 ∨ ∃ turn < lcall.turns, fails turn)

theorem size_eq_length {lcall : RegionLcall} (ordered : lcall.regionStart < lcall.regionEnd) :
    lcall.size.toNat = lcall.length :=
  UInt64.toNat_sub_of_le _ _ (UInt64.le_of_lt ordered)

theorem length_pos_iff (lcall : RegionLcall) : 0 < lcall.length ↔ lcall.regionStart < lcall.regionEnd := by
  rw [RegionLcall.length, UInt64.lt_iff_toNat_lt]
  omega

theorem pages_bound (lcall : RegionLcall) : lcall.pages ≤ 4503599627370496 := by
  have small := lcall.regionEnd.toNat_lt
  unfold RegionLcall.pages RegionLcall.length
  omega

theorem turns_le (lcall : RegionLcall) : lcall.turns ≤ lcall.pages := by
  unfold RegionLcall.turns
  split
  · exact pageCount_le lcall.length
  · exact Nat.le_refl _

theorem page_inRegion {lcall : RegionLcall} (hpa : UInt64) (same : lcall.size.toNat = lcall.length) {turn : Nat}
    (early : turn < lcall.turns) : ((lcall.cursor hpa).page turn).InRegion lcall hpa := by
  have small := lcall.size.toNat_lt
  have all := pages_bound lcall
  have rounded := bytesBefore_pageCount lcall.length
  have next := bytesBefore_succ lcall.size turn
  rw [same] at next
  have fits : bytesBefore lcall.length turn % 18446744073709551616 + (pageSizeAt lcall.size turn).toNat ≤
      lcall.pages * 4096 := by
    unfold RegionLcall.turns at early
    split at early
    · have before := bytesBefore_mono lcall.length (show turn + 1 ≤ pageCount lcall.length by omega)
      have less := Nat.mod_le (bytesBefore lcall.length turn) 18446744073709551616
      unfold RegionLcall.pages
      omega
    · -- Pages are aligned to their size, and so is the end of the address space.
      unfold pageSizeAt bytesBefore
      rw [same]
      split
      · simp only [UInt64.reduceToNat]
        omega
      · simp only [UInt64.reduceToNat]
        omega
  rw [RegionLcall.cursor, page_eq, Cursor.InRegion]
  simp only [same]
  rw [UInt64.add_comm, UInt64.add_sub_cancel, UInt64.add_comm, UInt64.add_sub_cancel, UInt64.toNat_ofNat']
  exact ⟨fits, fits⟩

/-- Once it has left the region, a loop does not get back in. -/
theorem page_not_inRegion {lcall : RegionLcall} (hpa : UInt64) (same : lcall.size.toNat = lcall.length)
    (room : lcall.pages < 4503599627370496) :
    ¬ ((lcall.cursor hpa).page (pageCount lcall.length)).InRegion lcall hpa := by
  intro inside
  have guest := inside.1
  have rounded := bytesBefore_pageCount lcall.length
  have some : 0 < (pageSizeAt lcall.size (pageCount lcall.length)).toNat := by
    unfold pageSizeAt
    split <;> decide
  rw [RegionLcall.cursor, page_eq] at guest
  simp only [same] at guest
  rw [UInt64.add_comm, UInt64.add_sub_cancel, UInt64.toNat_ofNat', rounded] at guest
  unfold RegionLcall.pages at guest room
  omega

/-- Without whole small pages the remaining size never gets to zero. -/
theorem not_finished {size : UInt64} (gpa hpa : UInt64) (part : size.toNat % 4096 ≠ 0) (turn : Nat) :
    ((Cursor.mk size 2097152 gpa hpa).page turn).advance.size ≠ 0 := by
  rw [ne_eq, advance_size_eq_zero_iff]
  unfold bytesBefore
  omega

section Contained

variable {call : Domain → Cursor → Int × Domain} {entry : Domain → Cursor → Result}
  {logged : Domain × List (Cursor × Result) → Cursor → Int × Domain × List (Cursor × Result)}
  {succeeds : Cursor × Result → Prop} {state : State} {lcall : RegionLcall} {hpa : UInt64} {domain : Domain}

theorem turns_whole (whole : lcall.length % 4096 = 0) :
    lcall.turns = pageCount lcall.length := by
  have small := lcall.regionEnd.toNat_lt
  rw [RegionLcall.turns, if_pos]
  unfold RegionLcall.pages
  unfold RegionLcall.length at whole ⊢
  omega

theorem contained_of_stop (logs : Logs logged call entry)
    (agrees : ∀ domain cursor, succeeds (cursor, entry domain cursor) ↔ (call domain cursor).1 = 0)
    (assigned : assignedAs state lcall.name = true) (ordered : lcall.regionStart < lcall.regionEnd) {turn : Nat}
    (early : turn < lcall.turns) (stops : StopsAt call (lcall.cursor hpa) domain turn)
    (goesOn : ∀ earlier < turn, ¬ StopsAt call (lcall.cursor hpa) domain earlier) :
    Contained lcall hpa succeeds fun fuel => regionLoop logged hpa fuel state lcall (domain, []) := by
  have same := size_eq_length ordered
  have bound := turns_le lcall
  have returned := logs.stops goesOn stops (show turn < lcall.pages by omega)
  have answered : regionLoop logged hpa lcall.pages state lcall (domain, []) =
      some ([resultAt call (lcall.cursor hpa) domain turn], domainAt call (lcall.cursor hpa) domain (turn + 1),
        callsOf call entry (lcall.cursor hpa) domain (turn + 1)) := by
    rw [regionLoop, if_pos assigned, returned]
    rfl
  refine ⟨_, _, _, answered, ?_, ?_, ?_⟩
  · simp only [callsOf, List.length_map, List.length_range]
    omega
  · intro made member
    obtain ⟨earlier, before, rfl⟩ := List.mem_map.mp member
    exact page_inRegion hpa same (by rw [List.mem_range] at before; omega)
  · intro succeeded
    have finished := stops.resolve_left fun failed => failed succeeded
    have whole : lcall.length % 4096 = 0 := by
      by_contra part
      rw [← same] at part
      exact not_finished lcall.gpa hpa part turn finished
    rw [turns_whole whole, ← same] at early
    have last := (whole_finished lcall.gpa hpa (by rw [same, length_pos_iff]; exact ordered) (same ▸ whole) early).mp
      finished
    refine ⟨(length_pos_iff lcall).mpr ordered, ?_, ?_⟩
    · intro made member
      obtain ⟨earlier, before, rfl⟩ := List.mem_map.mp member
      rw [agrees]
      rcases Nat.lt_succ_iff_lt_or_eq.mp (List.mem_range.mp before) with before | rfl
      · by_contra failed
        exact goesOn earlier before (.inl failed)
      · exact succeeded
    · rw [RegionLcall.cursor, callsOf_places, last, bytesBefore_pageCount, same]
      rfl

theorem containable_of_contained (logs : Logs logged call entry)
    (contained : Contained lcall hpa succeeds fun fuel => regionLoop logged hpa fuel state lcall (domain, [])) :
    Containable state lcall fun turn => resultAt call (lcall.cursor hpa) domain turn ≠ 0 := by
  obtain ⟨ret, after, calls, returned, -, inside, -⟩ := contained
  cases assigned : assignedAs state lcall.name with
  | false => exact .inl assigned
  | true =>
      right
      simp only [regionLoop, assigned, if_true, Option.map_eq_some_iff] at returned
      obtain ⟨⟨ret, kernel⟩, returned, same⟩ := returned
      obtain ⟨-, rfl⟩ := Prod.mk.inj same
      obtain ⟨turn, bound, stops, goesOn, -, log⟩ := stop_of_returned returned
      rw [logs.domainAt] at log
      obtain ⟨-, rfl⟩ := Prod.mk.inj log
      rw [logs.stopsAt] at stops
      have ordered : lcall.regionStart < lcall.regionEnd := by
        rw [← length_pos_iff]
        unfold RegionLcall.pages at bound
        omega
      have same := size_eq_length ordered
      refine ⟨ordered, ?_⟩
      by_cases whole : lcall.length % 4096 = 0
      · exact .inl whole
      · right
        rw [← same] at whole
        refine ⟨turn, ?_, stops.resolve_right (not_finished lcall.gpa hpa whole turn)⟩
        unfold RegionLcall.turns
        split
        · rename_i room
          by_contra late
          have reached : pageCount lcall.length < turn + 1 := by omega
          have made := inside (_, _) (List.mem_map.mpr ⟨_, List.mem_range.mpr reached, rfl⟩)
          exact page_not_inRegion hpa same room made
        · exact bound

theorem contained_of_containable (logs : Logs logged call entry)
    (agrees : ∀ domain cursor, succeeds (cursor, entry domain cursor) ↔ (call domain cursor).1 = 0)
    (containable : Containable state lcall fun turn => resultAt call (lcall.cursor hpa) domain turn ≠ 0) :
    Contained lcall hpa succeeds fun fuel => regionLoop logged hpa fuel state lcall (domain, []) := by
  cases assigned : assignedAs state lcall.name with
  | false =>
      refine ⟨-1, domain, [], ?_, Nat.zero_le _, by simp, by simp⟩
      simp [regionLoop, assigned]
  | true =>
      rcases containable with unassigned | ⟨ordered, stopping⟩
      · rw [assigned] at unassigned
        cases unassigned
      · have same := size_eq_length ordered
        have stop : ∃ turn < lcall.turns, StopsAt call (lcall.cursor hpa) domain turn ∧
            ∀ earlier < turn, ¬ StopsAt call (lcall.cursor hpa) domain earlier := by
          rcases stopping with whole | ⟨turn, bound, failed⟩
          · rw [turns_whole whole, ← same]
            exact whole_stop lcall.gpa hpa (by rw [same, length_pos_iff]; exact ordered) (same ▸ whole) call domain
          · obtain ⟨first, before, stops, goesOn⟩ :=
              first_stop (show StopsAt call (lcall.cursor hpa) domain turn from .inl failed)
            exact ⟨first, by omega, stops, goesOn⟩
        obtain ⟨turn, early, stops, goesOn⟩ := stop
        exact contained_of_stop logs agrees assigned ordered early stops goesOn

end Contained

/-- Both handlers, with the calls they make -/
def BothContained (state : State) (lcall : RegionLcall) (iommuMap : Domain → Cursor → Int × Domain)
    (iommuUnmap : Domain → Cursor → UInt64 × Domain) (domain : Domain) : Prop :=
  (Contained lcall lcall.regionStart (fun call => call.2 = 0) fun fuel =>
      enclavePciIommuMap (recording iommuMap) fuel state lcall (domain, [])) ∧
    Contained lcall 0 (fun call => call.2 = call.1.pageSize) fun fuel =>
      enclavePciIommuUnmap (recording iommuUnmap) fuel state lcall (domain, [])

/-- A request stays inside its region exactly if there is one, of whole small
pages, or a call inside it fails. -/
theorem contained_iff (state : State) (lcall : RegionLcall) (iommuMap : Domain → Cursor → Int × Domain)
    (iommuUnmap : Domain → Cursor → UInt64 × Domain) (domain : Domain) :
    (BothContained state lcall iommuMap iommuUnmap domain ↔
      Containable state lcall (fun turn => resultAt iommuMap (lcall.cursor lcall.regionStart) domain turn ≠ 0) ∧
        Containable state lcall fun turn => resultAt (unmapPage iommuUnmap) (lcall.cursor 0) domain turn ≠ 0) ∧
    ((∀ iommuMap iommuUnmap, BothContained state lcall iommuMap iommuUnmap domain) ↔
      assignedAs state lcall.name = false ∨
        lcall.regionStart < lcall.regionEnd ∧ lcall.length % 4096 = 0) := by
  have each : ∀ iommuMap iommuUnmap, BothContained state lcall iommuMap iommuUnmap domain ↔
      Containable state lcall (fun turn => resultAt iommuMap (lcall.cursor lcall.regionStart) domain turn ≠ 0) ∧
        Containable state lcall fun turn => resultAt (unmapPage iommuUnmap) (lcall.cursor 0) domain turn ≠ 0 := by
    intro iommuMap iommuUnmap
    have unmapped : ∀ (domain : Domain) (cursor : Cursor),
        (iommuUnmap domain cursor).1 = cursor.pageSize ↔ (unmapPage iommuUnmap domain cursor).1 = 0 := by
      intro domain cursor
      simp only [unmapPage]
      split
      · rename_i different
        exact iff_of_false different (by decide)
      · rename_i same
        exact iff_of_true (not_not.mp same) rfl
    refine and_congr ⟨?_, ?_⟩ ⟨?_, ?_⟩
    · exact containable_of_contained (recording_logs iommuMap)
    · exact contained_of_containable (recording_logs iommuMap) fun _ _ => Iff.rfl
    · exact containable_of_contained (unmapPage_logs iommuUnmap)
    · exact contained_of_containable (unmapPage_logs iommuUnmap) unmapped
  refine ⟨each iommuMap iommuUnmap, ?_, ?_⟩
  · intro always
    obtain ⟨containable, -⟩ := (each (fun domain _ => (0, domain)) iommuUnmap).mp (always _ _)
    refine containable.imp_right fun ⟨ordered, stopping⟩ => ⟨ordered, ?_⟩
    rcases stopping with whole | ⟨turn, -, failed⟩
    · exact whole
    · exact absurd rfl failed
  · intro whole iommuMap iommuUnmap
    rw [each]
    exact ⟨whole.imp_right fun ⟨ordered, whole⟩ => ⟨ordered, .inl whole⟩,
      whole.imp_right fun ⟨ordered, whole⟩ => ⟨ordered, .inl whole⟩⟩

/-- An empty region is mapped from its first page on. -/
theorem empty_not_contained :
    ¬ BothContained attached ⟨[110, 105, 99], 0x40000000, 0x40000000, 0x1000⟩ (fun domain _ => (0, domain))
      (fun domain cursor => (cursor.pageSize, domain)) () := by
  rintro ⟨⟨ret, after, calls, returned, -⟩, -⟩
  have empty : RegionLcall.pages ⟨[110, 105, 99], 0x40000000, 0x40000000, 0x1000⟩ = 0 := by decide
  rw [empty] at returned
  cases returned

end Requests

end Pisces.Pci
