import Pisces.Fs.Transfer

/-! # How much a transfer without errors transfers -/

namespace Pisces.Fs

/-- Whole descriptors until `left` bytes are reached or one is empty -/
def span (left : Nat) : List BufDesc → Nat
  | [] => 0
  | desc :: rest => if left = 0 ∨ desc.size.toNat = 0 then 0 else desc.size.toNat + span (left - desc.size.toNat) rest

/-- From an offset on the kernel transfers something until a limit is reached,
and then nothing. -/
def Supplies (vfs : Vfs) (file offset : UInt64) (limit : Nat) : Prop :=
  ∀ history address (length : UInt32), 0 < length.toNat → bytes history + length.toNat ≤ 18446744073709551616 →
    bytes history ≤ limit →
    (bytes history < limit → 1 ≤ vfs.transfer file history address length (offset + .ofNat (bytes history)) ∧
      vfs.transfer file history address length (offset + .ofNat (bytes history)) ≤ limit - bytes history) ∧
    (bytes history = limit → vfs.transfer file history address length (offset + .ofNat (bytes history)) = 0)

/-- The counters agree with the calls made. -/
structure Counted (offset : UInt64) (progress : Progress) : Prop where
  offset : progress.offset = offset + .ofNat (bytes progress.history)
  total : progress.total = .ofNat (bytes progress.history)

section Supplies

variable {vfs : Vfs} {file offset : UInt64} {limit : Nat}

/-- The inner loop fills the descriptor as far as the limit allows; its result
is zero if that ends it. -/
theorem descLoop_supplied (supplies : Supplies vfs file offset limit) (physAddr : UInt64) (done left : UInt32) (ret : Int)
    (progress : Progress) (counted : Counted offset progress)
    (room : bytes progress.history + left.toNat ≤ 18446744073709551616) (within : bytes progress.history ≤ limit) :
    Counted offset (descLoop vfs file physAddr done left ret progress).2 ∧
      bytes (descLoop vfs file physAddr done left ret progress).2.history =
        min limit (bytes progress.history + left.toNat) ∧
      (left.toNat = 0 → (descLoop vfs file physAddr done left ret progress).1 = ret) ∧
      (0 < left.toNat → ((descLoop vfs file physAddr done left ret progress).1 = 0 ↔
        limit < bytes progress.history + left.toNat)) := by
  fun_induction descLoop vfs file physAddr done left ret progress with
  | case1 done ret progress =>
      exact ⟨counted, by simpa using (Nat.min_eq_right within).symm, fun _ => rfl, fun some => absurd some (by decide)⟩
  | case2 done left ret progress some address result io stop =>
      have positive : 0 < left.toNat := Nat.pos_of_ne_zero fun zero => some (UInt32.toNat_inj.mp zero)
      obtain ⟨more, none⟩ := supplies progress.history address left positive room within
      rw [← counted.offset] at more none
      have some : bytes progress.history < limit → 1 ≤ result := fun below => (more below).1
      have reached : bytes progress.history = limit := by omega
      have zero : result = 0 := none reached
      have same : bytes (io :: progress.history) = bytes progress.history := by
        rw [bytes_cons]
        change result.toNat + _ = _
        rw [zero]
        exact Nat.zero_add _
      refine ⟨⟨by rw [same]; exact counted.offset, by rw [same]; exact counted.total⟩, by rw [same]; omega, by omega, ?_⟩
      exact fun _ => ⟨fun _ => by omega, fun _ => zero⟩
  | case3 done left ret progress some address result io stop smaller ih =>
      have positive : 0 < left.toNat := Nat.pos_of_ne_zero fun zero => some (UInt32.toNat_inj.mp zero)
      obtain ⟨more, none⟩ := supplies progress.history address left positive room within
      rw [← counted.offset] at more none
      have below : bytes progress.history < limit := by
        by_contra reached
        have : result = 0 := none (by omega)
        omega
      have answered : result ≤ limit - bytes progress.history := (more below).2
      have asked : result ≤ left.toNat := vfs.bounded ..
      have rest : (left - .ofNat result.toNat).toNat = left.toNat - result.toNat := by
        rw [UInt32.toNat_sub_of_le _ _ (UInt32.le_iff_toNat_le.mpr (by rw [ofNat_toNat asked]; omega)), ofNat_toNat asked]
      have grown : bytes (progress.advance io).history = result.toNat + bytes progress.history := bytes_cons ..
      have further : Counted offset (progress.advance io) := by
        refine ⟨?_, ?_⟩
        · rw [grown, Nat.add_comm, UInt64.ofNat_add, ← UInt64.add_assoc, ← counted.offset]
          rfl
        · rw [grown, Nat.add_comm, UInt64.ofNat_add, ← counted.total]
          rfl
      obtain ⟨after, filled, last, ended⟩ := ih further (by omega) (by omega)
      refine ⟨after, by rw [filled, grown, rest]; omega, by omega, fun _ => ?_⟩
      rcases Nat.eq_zero_or_pos (left - .ofNat result.toNat).toNat with zero | some
      · rw [last zero]
        omega
      · rw [ended some, grown, rest]
        omega

/-- Whole descriptors are transferred until the length is reached, the limit is
reached or one is empty. -/
theorem descsLoop_supplied (supplies : Supplies vfs file offset limit) (length : UInt64) (descs : List BufDesc)
    (progress : Progress) (counted : Counted offset progress)
    (room : bytes progress.history + sizes descs < 18446744073709551616) (within : bytes progress.history ≤ limit) :
    (descsLoop vfs file length descs progress).total =
      .ofNat (min limit (bytes progress.history + span (length.toNat - bytes progress.history) descs)) := by
  have exact : progress.total.toNat = bytes progress.history := by
    rw [counted.total, UInt64.toNat_ofNat']
    omega
  induction descs generalizing progress with
  | nil =>
      rw [descsLoop, span, Nat.add_zero, Nat.min_eq_right within]
      exact counted.total
  | cons desc rest ih =>
      by_cases enough : progress.total ≥ length
      · have none : length.toNat - bytes progress.history = 0 := by
          have := UInt64.le_iff_toNat_le.mp enough
          omega
        rw [descsLoop_reached enough, span, if_pos (.inl none), Nat.add_zero, Nat.min_eq_right within]
        exact counted.total
      have left : length.toNat - bytes progress.history ≠ 0 := by
        have := UInt64.lt_iff_toNat_lt.mp (UInt64.not_le.mp enough)
        omega
      rw [sizes_cons] at room
      obtain ⟨after, filled, last, ended⟩ := descLoop_supplied supplies desc.physAddr 0 desc.size 0 progress counted
        (by omega) within
      rw [descsLoop_cons enough rfl]
      generalize (descLoop vfs file desc.physAddr 0 desc.size 0 progress).1 = ret at last ended
      generalize (descLoop vfs file desc.physAddr 0 desc.size 0 progress).2 = next at after filled
      rcases Nat.eq_zero_or_pos desc.size.toNat with empty | some
      · rw [if_pos (last empty), span, if_pos (.inr empty), after.total, filled, empty]
      have goesOn : ¬ (length.toNat - bytes progress.history = 0 ∨ desc.size.toNat = 0) := by omega
      rw [span, if_neg goesOn]
      by_cases beyond : limit < bytes progress.history + desc.size.toNat
      · rw [if_pos ((ended some).mpr beyond), after.total, filled]
        congr 1
        omega
      · have whole : bytes next.history = bytes progress.history + desc.size.toNat := by omega
        have total : next.total.toNat = bytes next.history := by
          rw [after.total, UInt64.toNat_ofNat']
          omega
        rw [if_neg fun zero => beyond ((ended some).mp zero), ih next after (by omega) (by omega) total, whole,
          Nat.add_assoc, Nat.sub_sub]

end Supplies

/-! ## Whole descriptors -/

section Span

variable {left count : Nat} {descs : List BufDesc}

/-- No descriptor is empty. -/
def Filled (descs : List BufDesc) : Prop :=
  ∀ desc ∈ descs, desc.size.toNat ≠ 0

theorem span_prefix (left : Nat) (descs : List BufDesc) :
    ∃ count, Filled (descs.take count) ∧ span left descs = sizes (descs.take count) := by
  induction descs generalizing left with
  | nil => exact ⟨0, by simp [Filled], rfl⟩
  | cons desc rest ih =>
      by_cases stops : left = 0 ∨ desc.size.toNat = 0
      · exact ⟨0, by simp [Filled], by rw [span, if_pos stops]; rfl⟩
      · obtain ⟨count, filled, whole⟩ := ih (left - desc.size.toNat)
        refine ⟨count + 1, ?_, ?_⟩
        · rw [List.take_succ_cons]
          exact List.forall_mem_cons.mpr ⟨fun empty => stops (.inr empty), filled⟩
        · rw [span, if_neg stops, whole, List.take_succ_cons, sizes_cons]

theorem span_reaches (left : Nat) (filled : Filled (descs.take count)) :
    sizes (descs.take count) ≤ span left descs ∨ left ≤ span left descs := by
  induction descs generalizing left count with
  | nil => simp
  | cons desc rest ih =>
      cases count with
      | zero => simp
      | succ count =>
          rw [List.take_succ_cons] at filled ⊢
          obtain ⟨here, filled⟩ := List.forall_mem_cons.mp filled
          rw [span, sizes_cons]
          by_cases none : left = 0
          · exact .inr (by omega)
          · rw [if_neg (by tauto)]
            rcases ih (left - desc.size.toNat) filled with reached | reached
            · exact .inl (by omega)
            · exact .inr (by omega)

theorem span_le (left count : Nat) (descs : List BufDesc) (enough : left ≤ sizes (descs.take count)) :
    span left descs ≤ sizes (descs.take count) := by
  induction descs generalizing left count with
  | nil => simp [span]
  | cons desc rest ih =>
      rw [span]
      split
      · exact Nat.zero_le _
      · cases count with
        | zero =>
            simp only [List.take_zero, sizes_nil] at enough
            omega
        | succ count =>
            rw [List.take_succ_cons, sizes_cons] at enough ⊢
            have later := ih (left - desc.size.toNat) count (by omega)
            omega

theorem sizes_take_le (count : Nat) (descs : List BufDesc) : sizes (descs.take count) ≤ sizes descs := by
  conv => rhs; rw [← List.take_append_drop count descs, sizes_append]
  exact Nat.le_add_right ..

/-- The bytes transferred are those asked for exactly if a descriptor ends there
and none before is empty. -/
theorem span_exact_iff (limit left : Nat) (descs : List BufDesc) :
    min limit (span left descs) = min limit (min left (sizes descs)) ↔
      ∃ count, Filled (descs.take count) ∧ min limit (sizes (descs.take count)) = min limit (min left (sizes descs)) := by
  constructor
  · intro exact
    obtain ⟨count, filled, whole⟩ := span_prefix left descs
    exact ⟨count, filled, by rw [← whole, exact]⟩
  · rintro ⟨count, filled, ends⟩
    obtain ⟨reached, _, whole⟩ := span_prefix left descs
    have most := sizes_take_le reached descs
    have least := span_reaches left filled
    have stops := span_le left count descs
    omega

end Span

/-! ## Reads and writes -/

/-- No write fails: each writes at least one byte. -/
def Writes (vfs : Vfs) (file : UInt64) : Prop :=
  ∀ history address (length : UInt32) offset, 0 < length.toNat → 1 ≤ vfs.transfer file history address length offset

/-- No read fails: each reads at least one byte before the end of the file and
none from there on. -/
def Reads (vfs : Vfs) (file size : UInt64) : Prop :=
  ∀ history address (length : UInt32) (offset : UInt64), 0 < length.toNat →
    if offset.toNat < size.toNat then
      1 ≤ vfs.transfer file history address length offset ∧
        vfs.transfer file history address length offset ≤ (size.toNat - offset.toNat : Nat)
    else vfs.transfer file history address length offset = 0

section Status

variable {vfs : Vfs} {state : State} {lcall : TransferLcall}

theorem Writes.supplies {file : UInt64} (writes : Writes vfs file) (offset : UInt64) :
    Supplies vfs file offset 18446744073709551616 := by
  intro history address length positive room within
  have some := writes history address length (offset + .ofNat (bytes history)) positive
  have asked := vfs.bounded file history address length (offset + .ofNat (bytes history))
  exact ⟨fun below => ⟨some, by omega⟩, fun reached => by omega⟩

theorem Reads.supplies {file size : UInt64} (reads : Reads vfs file size) (offset : UInt64) :
    Supplies vfs file offset (size.toNat - offset.toNat) := by
  intro history address length positive room within
  have answer := reads history address length (offset + .ofNat (bytes history)) positive
  have bounded := size.toNat_lt
  have start := offset.toNat_lt
  have place : (offset + UInt64.ofNat (bytes history)).toNat = offset.toNat + bytes history := by
    rw [UInt64.toNat_add, UInt64.toNat_ofNat']
    omega
  rw [place] at answer
  refine ⟨fun below => ?_, fun reached => ?_⟩
  · rw [if_pos (by omega)] at answer
    exact ⟨answer.1, by omega⟩
  · rw [if_neg (by omega)] at answer
    exact answer

theorem transfers_supplied {limit : Nat}
    (supplies : Supplies vfs lcall.fileHandle lcall.offset limit) :
    (transfers vfs lcall).total = .ofNat (min limit (span lcall.length.toNat lcall.descs)) := by
  have run := descsLoop_supplied supplies lcall.length lcall.descs ⟨lcall.offset, 0, []⟩ ⟨by simp, rfl⟩
    (by simpa using sizes_lt lcall.descs_lt) (Nat.zero_le _)
  simpa [transfers] using run

theorem answer_iff {status exact : Nat} (small : status < 18446744073709551616) (fits : exact < 18446744073709551616) :
    [Answer.done (.ofNat status)] = [Answer.done (.ofNat exact)] ↔ status = exact := by
  simp only [List.cons.injEq, Answer.done.injEq, and_true]
  refine ⟨fun same => ?_, congrArg _⟩
  have equal := congrArg UInt64.toNat same
  rw [UInt64.toNat_ofNat', UInt64.toNat_ofNat'] at equal
  omega

theorem span_lt (lcall : TransferLcall) : span lcall.length.toNat lcall.descs < 18446744073709551616 := by
  obtain ⟨count, _, whole⟩ := span_prefix lcall.length.toNat lcall.descs
  have most := sizes_take_le count lcall.descs
  have size := sizes_lt lcall.descs_lt
  omega

/-- Without errors the status is the number of bytes asked for exactly if a
descriptor ends there and none before it is empty.  What a read finds in the
file may end it before; its buffers lie apart from what is still read of the
message. -/
theorem status_exact_iff (opened : search state lcall.fileHandle = true) :
    (∀ vfs, Writes vfs lcall.fileHandle →
      ((enclaveVfsWriteLcall vfs state lcall).answers =
          [.done (.ofNat (min lcall.length.toNat (sizes lcall.descs)))] ↔
        ∃ count, Filled (lcall.descs.take count) ∧
          sizes (lcall.descs.take count) = min lcall.length.toNat (sizes lcall.descs))) ∧
      (lcall.Apart → ∀ vfs size, Reads vfs lcall.fileHandle size →
        ((enclaveVfsReadLcall vfs state lcall).answers =
            [.done (.ofNat (min (size.toNat - lcall.offset.toNat) (min lcall.length.toNat (sizes lcall.descs))))] ↔
          ∃ count, Filled (lcall.descs.take count) ∧
            min (size.toNat - lcall.offset.toNat) (sizes (lcall.descs.take count)) =
              min (size.toNat - lcall.offset.toNat) (min lcall.length.toNat (sizes lcall.descs)))) := by
  have size := sizes_lt lcall.descs_lt
  have whole := span_lt lcall
  refine ⟨fun vfs writes => ?_, fun apart vfs fileSize reads => ?_⟩
  · have exact := span_exact_iff 18446744073709551616 lcall.length.toNat lcall.descs
    rw [enclaveVfsWriteLcall, transfer_answers vfs opened (by simp), transfers_supplied (writes.supplies lcall.offset),
      answer_iff (by omega) (by omega)]
    rw [Nat.min_eq_right (by omega), Nat.min_eq_right (by omega)] at exact
    rw [Nat.min_eq_right (by omega), exact]
    refine exists_congr fun count => and_congr_right fun _ => ?_
    have most := sizes_take_le count lcall.descs
    rw [Nat.min_eq_right (by omega)]
  · rw [enclaveVfsReadLcall, transfer_answers vfs opened fun _ => apart, transfers_supplied (reads.supplies lcall.offset),
      answer_iff (by omega) (by omega)]
    exact span_exact_iff ..

def complete : Vfs where
  filpOpen _ _ := 0
  getattr _ := (0, 0)
  transfer _ _ _ length _ := length.toNat
  contents _ _ _ := 0
  bounded _ _ _ _ _ := Int.le_refl _

theorem complete_writes (file : UInt64) : Writes complete file := by
  intro _ _ length _ some
  change (1 : Int) ≤ length.toNat
  omega

theorem twoBuffers_status : (enclaveVfsWriteLcall complete oneFile twoBuffers).answers = [.done 3] := by
  have exact := ((@status_exact_iff oneFile twoBuffers (by rw [twoBuffers_handle, oneFile_opened])).1 complete
    (complete_writes _)).mpr ⟨2, by simp [Filled, twoBuffers_descs], by rw [twoBuffers_descs]; decide +kernel⟩
  rw [twoBuffers_descs] at exact
  rw [exact]
  decide +kernel

/-- A descriptor is filled past the length, and an empty one ends the transfer. -/
theorem status_inexact :
    Writes complete 1 ∧
      (enclaveVfsWriteLcall complete oneFile (request 1 [⟨2, 100⟩])).answers = [.done 2] ∧
      min 1 (sizes (request 1 [⟨2, 100⟩]).descs) = 1 ∧
      (enclaveVfsWriteLcall complete oneFile (request 1 [⟨0, 100⟩, ⟨1, 200⟩])).answers = [.done 0] ∧
      min 1 (sizes (request 1 [⟨0, 100⟩, ⟨1, 200⟩]).descs) = 1 := by
  refine ⟨complete_writes 1, ?_, by decide +kernel, ?_, by decide +kernel⟩
  · rw [enclaveVfsWriteLcall, transfer_answers complete (by decide +kernel) (by simp),
      transfers_supplied ((complete_writes _).supplies _)]
    decide +kernel
  · rw [enclaveVfsWriteLcall, transfer_answers complete (by decide +kernel) (by simp),
      transfers_supplied ((complete_writes _).supplies _)]
    decide +kernel

end Status

end Pisces.Fs
