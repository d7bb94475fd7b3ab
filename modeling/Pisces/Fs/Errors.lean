import Pisces.Fs.Transfer

/-! # Errors during a transfer

The inner loop of a transfer stops at an error and the outer loop does not.
-/

namespace Pisces.Fs

variable {direction : Direction} {vfs : Vfs} {lcall : TransferLcall}

/-- Nothing is transferred behind a call that fails, and the status counts the
bytes that were transferred without a gap before it. -/
def EndsTransfer (direction : Direction) (vfs : Vfs) (state : State) (lcall : TransferLcall) : Prop :=
  ∀ before io after, calls direction vfs lcall = before ++ io :: after → io.result < 0 →
    (∀ later ∈ after, later.result ≤ 0) ∧
      (calls direction vfs lcall).flatMap Io.moved = (plan lcall.offset lcall.descs).take (bytes before) ∧
      (enclaveVfsTransferLcall direction vfs state lcall).answers = [.done (.ofNat (bytes before))]

theorem failed_of_split {before after : List Io} {io : Io} (split : steadyCalls vfs lcall = before ++ io :: after)
    (fails : io.result < 0) : ∃ before io after, steadyCalls vfs lcall = before ++ io :: after ∧
      Failed lcall.length 0 lcall.offset lcall.descs before io after := by
  obtain ⟨_, _, ⟨nonnegative, _⟩ | failed⟩ := transfers_moves vfs lcall
  · have member : io ∈ steadyCalls vfs lcall := by rw [split]; simp
    have := nonnegative io member
    omega
  · exact failed

theorem split_first {before first after rest : List Io} {io failing : Io}
    (same : before ++ io :: after = first ++ failing :: rest) (fails : io.result < 0)
    (positive : ∀ other ∈ first, 0 < other.result) :
    ∃ between, before = first ++ between ∧ failing :: rest = between ++ io :: after := by
  rcases List.append_eq_append_iff.mp same with ⟨between, rfl, split⟩ | found
  · cases between with
    | nil => exact ⟨[], by simp, by simpa using split.symm⟩
    | cons other between =>
        obtain ⟨rfl, _⟩ := List.cons.inj split
        have := positive io (by simp)
        omega
  · exact found

theorem nothing_moved {calls : List Io} (stopped : ∀ io ∈ calls, io.result ≤ 0) :
    bytes calls = 0 ∧ calls.flatMap Io.moved = [] := by
  induction calls with
  | nil => exact ⟨rfl, rfl⟩
  | cons io rest ih =>
      obtain ⟨here, stopped⟩ := List.forall_mem_cons.mp stopped
      have none : io.result.toNat = 0 := Int.toNat_eq_zero.mpr here
      have noBytes : io.moved = [] := by simp [Io.moved, none, track]
      obtain ⟨later, moved⟩ := ih stopped
      rw [bytes_cons, none, later, List.flatMap_cons, noBytes, moved]
      exact ⟨rfl, rfl⟩

/-- It is enough that no call behind the first error transfers anything. -/
theorem endsTransfer_of_first {state : State} (opened : search state lcall.fileHandle = true)
    (apart : direction = .read → lcall.Apart)
    (stopped : ∀ before io after, steadyCalls vfs lcall = before ++ io :: after →
      Failed lcall.length 0 lcall.offset lcall.descs before io after → ∀ later ∈ after, later.result ≤ 0) :
    EndsTransfer direction vfs state lcall := by
  rw [EndsTransfer, calls_steady vfs apart, transfer_answers vfs opened apart]
  intro before io after split fails
  obtain ⟨first, failing, rest, found, failed⟩ := failed_of_split split fails
  have all : ∀ later ∈ failing :: rest, later.result ≤ 0 :=
    List.forall_mem_cons.mpr ⟨Int.le_of_lt failed.fails, stopped first failing rest found failed⟩
  obtain ⟨none, noMoves⟩ := nothing_moved all
  obtain ⟨between, rfl, behind⟩ := split_first (split.symm.trans found) fails failed.positive
  rw [behind] at all
  have counted : bytes (first ++ between) = bytes first := by
    rw [bytes_append, (nothing_moved fun later member => all later (List.mem_append_left _ member)).1, Nat.add_zero]
  have total : (transfers vfs lcall).total = .ofNat (bytes first) := by
    rw [(transfers_moves vfs lcall).1, found, bytes_append, none, Nat.add_zero]
  rw [counted, ← total]
  refine ⟨fun later member => all later (by simp [member]), ?_, rfl⟩
  rw [found, List.flatMap_append, noMoves, List.append_nil, failed.moved]

theorem stopped_of_chain {io : Io} {after : List Io} (eof : EofLast (io :: after))
    (chain : (io :: after).IsChain fun io next => io.result < 0 → next.result ≤ 0) (fails : io.result < 0) :
    ∀ later ∈ after, later.result ≤ 0 := by
  induction after generalizing io with
  | nil => simp
  | cons next rest ih =>
      obtain ⟨follows, chain⟩ := List.isChain_cons_cons.mp chain
      have eof := (List.isChain_cons_cons.mp eof).2
      have stops := follows fails
      refine List.forall_mem_cons.mpr ⟨stops, ?_⟩
      by_cases zero : next.result = 0
      · cases rest with
        | nil => simp
        | cons other rest => exact absurd zero (List.isChain_cons_cons.mp eof).1
      · exact ih eof chain (by omega)

theorem chain_of_stopped {calls : List Io}
    (stopped : ∀ before io after, calls = before ++ io :: after → io.result < 0 → ∀ later ∈ after, later.result ≤ 0) :
    calls.IsChain fun io next => io.result < 0 → next.result ≤ 0 := by
  induction calls with
  | nil => exact .nil
  | cons io rest ih =>
      refine List.isChain_cons.mpr ⟨fun next here fails => ?_, ih fun before other after split => ?_⟩
      · exact stopped [] io rest rfl fails next (List.mem_of_head? here)
      · exact stopped (io :: before) other after (by rw [split]; rfl)

theorem Failed.ends_iff {before after : List Io} {io : Io}
    (failed : Failed lcall.length 0 lcall.offset lcall.descs before io after) :
    after = [] ↔ lcall.length.toNat ≤ bytes before ∨ Closed (behind (bytes before) lcall.descs) := by
  have size := sizes_lt lcall.descs_lt
  have within := failed.within
  have total : (0 + UInt64.ofNat (bytes before)).toNat = bytes before := by
    rw [UInt64.zero_add, UInt64.toNat_ofNat']
    omega
  rw [failed.ends, UInt64.le_iff_toNat_le, total]

theorem calls_eq_nil_iff (vfs : Vfs) (lcall : TransferLcall) :
    steadyCalls vfs lcall = [] ↔ lcall.length = 0 ∨ Closed lcall.descs := by
  have silent := descsLoop_silent vfs lcall.fileHandle lcall.length lcall.descs ⟨lcall.offset, 0, []⟩
  rw [steadyCalls, List.reverse_eq_nil_iff, transfers, silent, ge_iff_le, UInt64.le_zero_iff]

theorem last_of_closed_tail {before after : List Io} {io : Io} (closed : Closed lcall.descs.tail)
    (split : steadyCalls vfs lcall = before ++ io :: after) (fails : io.result < 0) : after = [] := by
  have called : ¬ (lcall.length = 0 ∨ Closed lcall.descs) := by
    rw [← calls_eq_nil_iff vfs, split]
    simp
  rw [steadyCalls, transfers] at split
  cases listed : lcall.descs with
  | nil =>
      rw [listed] at called
      simp [Closed] at called
  | cons desc rest =>
      rw [listed] at split
      rw [listed, List.tail_cons] at closed
      have short : ¬ (0 : UInt64) ≥ lcall.length := fun reached => called (.inl (UInt64.le_zero_iff.mp reached))
      obtain ⟨first, fills⟩ := desc_fills vfs lcall.fileHandle desc ⟨lcall.offset, 0, []⟩
      rw [descsLoop_cons short rfl] at split
      have only : before ++ io :: after = first := by
        rw [← split]
        split
        · rw [fills.history]
          simp
        · rw [(descsLoop_silent ..).mpr (.inr closed), fills.history]
          simp
      rcases fills.ends with ⟨positive, _⟩ | ⟨others, last, rfl, positive, _⟩
      · have := positive io (by rw [← only]; simp)
        omega
      · obtain ⟨between, _, behind⟩ := split_first only fails positive
        cases between with
        | nil => exact (List.cons.inj behind).2.symm
        | cons other between => simp at behind

/-- A kernel whose first transfer fails -/
def recovering : Vfs where
  filpOpen _ _ := 0
  getattr _ := (0, 0)
  transfer _ history _ length _ := if history.isEmpty then -5 else length.toNat
  contents _ _ _ := 0
  bounded _ history _ _ _ := by split <;> omega

theorem recovering_calls {desc next : BufDesc} {rest : List BufDesc} (listed : lcall.descs = desc :: next :: rest)
    (asked : lcall.length ≠ 0) (some : desc.size ≠ 0) (more : next.size ≠ 0) :
    ∃ later, steadyCalls recovering lcall =
      ⟨desc.physAddr, desc.size, lcall.offset, -5⟩ ::
        ⟨next.physAddr, next.size, lcall.offset, next.size.toNat⟩ :: later := by
  have short : ¬ (0 : UInt64) ≥ lcall.length := fun reached => asked (UInt64.le_zero_iff.mp reached)
  have positive : ¬ ((next.size.toNat : Int) ≤ 0) := by
    have : next.size.toNat ≠ 0 := fun zero => more (UInt32.toNat_inj.mp zero)
    omega
  have first : descLoop recovering lcall.fileHandle desc.physAddr 0 desc.size 0 ⟨lcall.offset, 0, []⟩ =
      (-5, ⟨lcall.offset, 0, [⟨desc.physAddr, desc.size, lcall.offset, -5⟩]⟩) := by
    rw [descLoop, if_neg some]
    simp [recovering]
  obtain ⟨progress, second, history⟩ : ∃ progress : Progress,
      descLoop recovering lcall.fileHandle next.physAddr 0 next.size 0
        ⟨lcall.offset, 0, [⟨desc.physAddr, desc.size, lcall.offset, -5⟩]⟩ = ((next.size.toNat : Int), progress) ∧
      progress.history = [⟨next.physAddr, next.size, lcall.offset, next.size.toNat⟩,
        ⟨desc.physAddr, desc.size, lcall.offset, -5⟩] := by
    rw [descLoop, if_neg more]
    simp only [recovering, List.isEmpty_cons, Bool.false_eq_true, if_false, dif_neg positive]
    rw [descLoop, if_pos (by simp)]
    exact ⟨_, rfl, by simp [Progress.advance]⟩
  obtain ⟨later, behind⟩ := descsLoop_history recovering lcall.fileHandle lcall.length rest progress
  refine ⟨later, ?_⟩
  rw [steadyCalls, transfers, listed, descsLoop_cons short first, if_neg (by decide), descsLoop_cons short second,
    if_neg (by omega), behind, history]
  simp

theorem closed_of_recovering {state : State} (apart : direction = .read → lcall.Apart)
    (ends : EndsTransfer direction recovering state lcall) :
    lcall.length = 0 ∨ Closed lcall.descs ∨ Closed lcall.descs.tail := by
  rw [EndsTransfer, calls_steady recovering apart] at ends
  by_cases none : lcall.length = 0
  · exact .inl none
  cases listed : lcall.descs with
  | nil => exact .inr (.inl (by simp [Closed]))
  | cons desc behind =>
      by_cases empty : desc.size = 0
      · exact .inr (.inl (by simp [Closed, empty]))
      cases behind with
      | nil => exact .inr (.inr (by simp [Closed]))
      | cons next rest =>
          by_cases last : next.size = 0
          · exact .inr (.inr (by simp [Closed, last]))
          obtain ⟨later, made⟩ := recovering_calls listed none empty last
          have stopped := (ends [] _ _ made (show (-5 : Int) < 0 by decide)).1 _ (List.mem_cons_self ..)
          have zero : next.size.toNat = 0 := by
            simp only at stopped
            omega
          exact absurd (UInt32.toNat_inj.mp zero) last

/-- An error ends a transfer exactly if no call that transfers something follows
one that fails.  None follows at all if the bytes asked for have been
transferred by then or the next descriptor is empty, and whatever the kernel
answers, only if one of the first two descriptors is.  The buffers of a read lie
apart from what is still read of the message. -/
theorem error_ends_iff {state : State} (opened : search state lcall.fileHandle = true)
    (apart : direction = .read → lcall.Apart) :
    (∀ vfs, EndsTransfer direction vfs state lcall ↔
      (calls direction vfs lcall).IsChain fun io next => io.result < 0 → next.result ≤ 0) ∧
      (∀ vfs, (∀ before io after, calls direction vfs lcall = before ++ io :: after → io.result < 0 →
        lcall.length.toNat ≤ bytes before ∨ Closed (behind (bytes before) lcall.descs)) →
        EndsTransfer direction vfs state lcall) ∧
      ((∀ vfs, EndsTransfer direction vfs state lcall) ↔
        lcall.length = 0 ∨ Closed lcall.descs ∨ Closed lcall.descs.tail) := by
  have silent {vfs : Vfs} (none : steadyCalls vfs lcall = []) : EndsTransfer direction vfs state lcall := by
    refine endsTransfer_of_first opened apart fun before io after split => ?_
    simp [none] at split
  refine ⟨fun vfs => ⟨fun ends => chain_of_stopped fun before io after split fails =>
    (ends before io after split fails).1,
    fun chain => ?_⟩, fun vfs reached => ?_, fun ends => closed_of_recovering apart (ends recovering), ?_⟩
  · rw [calls_steady vfs apart] at chain
    refine endsTransfer_of_first opened apart fun before io after split failed => ?_
    have eof := (transfers_moves vfs lcall).2.1
    rw [split] at chain
    rw [EofLast, split] at eof
    exact stopped_of_chain (List.isChain_append.mp eof).2.1 (List.isChain_append.mp chain).2.1 failed.fails
  · rw [calls_steady vfs apart] at reached
    refine endsTransfer_of_first opened apart fun before io after split failed => ?_
    rw [failed.ends_iff.mpr (reached before io after split failed.fails)]
    simp
  · rintro (none | closed | closed) vfs
    · exact silent ((calls_eq_nil_iff vfs lcall).mpr (.inl none))
    · exact silent ((calls_eq_nil_iff vfs lcall).mpr (.inr closed))
    · refine endsTransfer_of_first opened apart fun before io after split failed => ?_
      rw [last_of_closed_tail closed split failed.fails]
      simp

def oneBuffer : TransferLcall :=
  request 3 [⟨2, 100⟩]

/-- Nothing can follow the only buffer. -/
theorem one_buffer_ends : EndsTransfer .read recovering oneFile oneBuffer := by
  have listed : oneBuffer.descs = [⟨2, 100⟩] := by decide +kernel
  exact (@error_ends_iff .read oneBuffer oneFile (by decide +kernel) (fun _ => by decide +kernel)).2.2.mpr
    (.inr (.inr (by simp [Closed, listed]))) recovering

/-- The second buffer is filled behind the error, and its byte is counted. -/
theorem error_goes_on :
    calls .read recovering twoBuffers = [⟨100, 2, 0, -5⟩, ⟨200, 1, 0, 1⟩] ∧
      (enclaveVfsReadLcall recovering oneFile twoBuffers).answers = [.done 1] ∧
      ¬ EndsTransfer .read recovering oneFile twoBuffers := by
  have apart : Direction.read = .read → twoBuffers.Apart := fun _ => twoBuffers_apart
  have run : transfers recovering twoBuffers = ⟨1, 1, [⟨200, 1, 0, 1⟩, ⟨100, 2, 0, -5⟩]⟩ := by
    rw [transfers, twoBuffers_descs, twoBuffers_handle, show twoBuffers.length = 3 by decide +kernel,
      show twoBuffers.offset = 0 by decide +kernel]
    simp [descsLoop, descLoop, recovering, Progress.advance]
  have made : calls .read recovering twoBuffers = [⟨100, 2, 0, -5⟩, ⟨200, 1, 0, 1⟩] := by
    rw [calls_steady recovering apart, steadyCalls, run]
    rfl
  refine ⟨made, ?_, fun ends => ?_⟩
  · rw [enclaveVfsReadLcall, transfer_answers recovering (by rw [twoBuffers_handle, oneFile_opened]) apart, run]
  · exact absurd ((ends [] _ _ made (by decide)).1 _ (List.mem_cons_self ..)) (by decide)

end Pisces.Fs
