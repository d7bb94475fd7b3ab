import Pisces.Fs.Files

/-! # Transfers over a message that stays as it was received

The loops over the descriptors as a list.  A read does the same whose buffers lie
apart from what the loops still read, and so does every write.
-/

namespace Pisces.Fs

open Assign

/-- The descriptors of the message as it was received -/
def TransferLcall.descs (lcall : TransferLcall) : List BufDesc :=
  (List.range lcall.numDescs.toNat).map fun i => ⟨lcall.size i, lcall.physAddr i⟩

/-- `innerLoop`, with the address of the buffer -/
def descLoop (vfs : Vfs) (file physAddr : UInt64) (done left : UInt32) (ret : Int) (progress : Progress) :
    Int × Progress :=
  if left = 0 then (ret, progress)
  else
    let address := physAddr + done.toUInt64
    let result := vfs.transfer file progress.history address left progress.offset
    let io : Io := ⟨address, left, progress.offset, result⟩
    if stop : result ≤ 0 then (result, { progress with history := io :: progress.history })
    else
      have : (left - .ofNat result.toNat).toNat < left.toNat :=
        left_decreases (by omega) (vfs.bounded ..)
      descLoop vfs file physAddr (done + .ofNat result.toNat) (left - .ofNat result.toNat) result
        (progress.advance io)
termination_by left.toNat

/-- `outerLoop`, over the list -/
def descsLoop (vfs : Vfs) (file length : UInt64) : List BufDesc → Progress → Progress
  | [], progress => progress
  | desc :: rest, progress =>
      if progress.total ≥ length then progress
      else
        let (ret, next) := descLoop vfs file desc.physAddr 0 desc.size 0 progress
        if ret = 0 then next else descsLoop vfs file length rest next

def transfers (vfs : Vfs) (lcall : TransferLcall) : Progress :=
  descsLoop vfs lcall.fileHandle lcall.length lcall.descs ⟨lcall.offset, 0, []⟩

def steadyCalls (vfs : Vfs) (lcall : TransferLcall) : List Io :=
  (transfers vfs lcall).history.reverse

namespace TransferLcall

theorem descs_lt (lcall : TransferLcall) : lcall.descs.length < 4294967296 := by
  simpa [descs] using lcall.numDescs.toNat_lt

/-- What the loops still read when they fill buffer `i`: the number of the
descriptors, its address and the later descriptors -/
def stillRead (lcall : TransferLcall) (i offset : Nat) : Prop :=
  36 ≤ offset ∧ (offset < 40 ∨ 44 + 12 * i ≤ offset ∧ offset < 40 + 12 * lcall.numDescs.toNat)

instance (lcall : TransferLcall) (i offset : Nat) : Decidable (lcall.stillRead i offset) :=
  inferInstanceAs (Decidable (_ ∧ _))

/-- No buffer covers what the loops still read of the message. -/
def Apart (lcall : TransferLcall) : Prop :=
  ∀ i < lcall.numDescs.toNat, ∀ index < (lcall.size i).toNat, ∀ offset < 40 + 12 * lcall.numDescs.toNat,
    lcall.stillRead i offset → lcall.physAddr i + .ofNat index ≠ lcall.address + .ofNat offset

instance (lcall : TransferLcall) : Decidable lcall.Apart :=
  inferInstanceAs (Decidable (∀ i < _, ∀ index < _, ∀ offset < _, _ → _))

/-- The message where it was, with its count of descriptors and its bytes from
`start` to the end of the descriptors. -/
structure Kept (lcall : TransferLcall) (start : Nat) (later : TransferLcall) : Prop where
  address : later.address = lcall.address
  count : ∀ offset, 36 ≤ offset → offset < 40 → later offset = lcall offset
  rest : ∀ offset, start ≤ offset → offset < 40 + 12 * lcall.numDescs.toNat → later offset = lcall offset

namespace Kept

variable {lcall later : TransferLcall} {start other i : Nat}

theorem refl (lcall : TransferLcall) (start : Nat) : Kept lcall start lcall :=
  ⟨rfl, fun _ _ _ => rfl, fun _ _ _ => rfl⟩

theorem mono (kept : Kept lcall start later) (further : start ≤ other) : Kept lcall other later :=
  ⟨kept.address, kept.count, fun offset lower => kept.rest offset (Nat.le_trans further lower)⟩

theorem numDescs (kept : Kept lcall start later) : later.numDescs = lcall.numDescs :=
  Dispatch.u32At_congr kept.count

theorem size (kept : Kept lcall start later) (inside : i < lcall.numDescs.toNat) (behind : start ≤ 40 + 12 * i) :
    later.size i = lcall.size i :=
  Dispatch.u32At_congr fun offset lower upper => kept.rest offset (by omega) (by omega)

theorem physAddr (kept : Kept lcall start later) (inside : i < lcall.numDescs.toNat) (behind : start ≤ 44 + 12 * i) :
    later.physAddr i = lcall.physAddr i :=
  Dispatch.u64At_congr fun offset lower upper => kept.rest offset (by omega) (by omega)

/-- A call within buffer `i` leaves alone what is still read. -/
theorem after {direction : Direction} {vfs : Vfs} {file : UInt64} {history : List Io} {io : Io} {done : Nat}
    (kept : Kept lcall (44 + 12 * i) later) (inside : i < lcall.numDescs.toNat)
    (apart : direction = .read → lcall.Apart) (placed : io.address = lcall.physAddr i + .ofNat done)
    (within : done + io.result.toNat ≤ (lcall.size i).toNat) :
    Kept lcall (44 + 12 * i) (direction.after vfs file history io later) := by
  cases direction with
  | write => exact kept
  | read =>
      have untouched : ∀ offset < 40 + 12 * lcall.numDescs.toNat, lcall.stillRead i offset →
          (Direction.read.after vfs file history io later) offset = later offset := by
        intro offset bound still
        refine assign_of_notMem ?_
        intro written
        simp only [Io.moved, track, List.map_map, List.mem_map, List.mem_range, Function.comp_apply] at written
        obtain ⟨index, before, same⟩ := written
        refine apart rfl i inside (done + index) (by omega) offset bound still ?_
        rw [UInt64.ofNat_add, ← UInt64.add_assoc, ← placed, same]
        exact congrArg (· + _) kept.address
      refine ⟨kept.address, fun offset lower upper => ?_, fun offset lower upper => ?_⟩
      · rw [untouched offset (by omega) ⟨lower, .inl upper⟩]
        exact kept.count offset lower upper
      · rw [untouched offset upper ⟨by omega, .inr ⟨lower, upper⟩⟩]
        exact kept.rest offset lower upper

end Kept

end TransferLcall

section Steady

variable {direction : Direction} {vfs : Vfs} {lcall later : TransferLcall} {file : UInt64} {i : Nat}

theorem ofNat_toNat {left : UInt32} {result : Int} (bounded : result ≤ left.toNat) :
    (UInt32.ofNat result.toNat).toNat = result.toNat := by
  rw [UInt32.toNat_ofNat']
  have := left.toNat_lt
  omega

theorem ofNat_toNat_toUInt64 (number : UInt32) : UInt64.ofNat number.toNat = number.toUInt64 :=
  UInt64.toNat_inj.mp (by simp)

/-- The inner loop over buffer `i` -/
theorem innerLoop_steady (apart : direction = .read → lcall.Apart) (inside : i < lcall.numDescs.toNat)
    (done left : UInt32) (ret : Int) (progress : Progress) (kept : lcall.Kept (44 + 12 * i) later)
    (within : done.toNat + left.toNat ≤ (lcall.size i).toNat) :
    (innerLoop direction vfs file i done left ret later progress).1 =
        (descLoop vfs file (lcall.physAddr i) done left ret progress).1 ∧
      (innerLoop direction vfs file i done left ret later progress).2.2 =
        (descLoop vfs file (lcall.physAddr i) done left ret progress).2 ∧
      lcall.Kept (44 + 12 * i) (innerLoop direction vfs file i done left ret later progress).2.1 := by
  fun_induction innerLoop direction vfs file i done left ret later progress with
  | case1 done ret later progress =>
      rw [descLoop, if_pos rfl]
      exact ⟨rfl, rfl, kept⟩
  | case2 done left ret later progress some address result io after stop =>
      have same : descLoop vfs file (lcall.physAddr i) done left ret progress =
          (result, { progress with history := io :: progress.history }) := by
        rw [descLoop, if_neg some, ← kept.physAddr inside (Nat.le_refl _)]
        exact dif_pos stop
      have none : result.toNat = 0 := Int.toNat_eq_zero.mpr stop
      have placed : io.address = lcall.physAddr i + .ofNat done.toNat := by
        rw [← kept.physAddr inside (Nat.le_refl _), ofNat_toNat_toUInt64]
      rw [same]
      exact ⟨rfl, rfl, kept.after inside apart placed (by change _ + result.toNat ≤ _; omega)⟩
  | case3 done left ret later progress some address result io after stop smaller ih =>
      have asked : result ≤ left.toNat := vfs.bounded ..
      have exact := ofNat_toNat asked
      have same : descLoop vfs file (lcall.physAddr i) done left ret progress =
          descLoop vfs file (lcall.physAddr i) (done + .ofNat result.toNat) (left - .ofNat result.toNat) result
            (progress.advance io) := by
        rw [descLoop, if_neg some, ← kept.physAddr inside (Nat.le_refl _)]
        exact dif_neg stop
      have placed : io.address = lcall.physAddr i + .ofNat done.toNat := by
        rw [← kept.physAddr inside (Nat.le_refl _), ofNat_toNat_toUInt64]
      have filled : (done + .ofNat result.toNat).toNat = done.toNat + result.toNat := by
        have bound := (lcall.size i).toNat_lt
        rw [UInt32.toNat_add, exact]
        omega
      have rest : (left - .ofNat result.toNat).toNat = left.toNat - result.toNat := by
        rw [UInt32.toNat_sub_of_le _ _ (UInt32.le_iff_toNat_le.mpr (by omega)), exact]
      rw [same]
      exact ih (kept.after inside apart placed (by change _ + result.toNat ≤ _; omega)) (by omega)

theorem TransferLcall.descs_drop (lcall : TransferLcall) (inside : i < lcall.numDescs.toNat) :
    lcall.descs.drop i = ⟨lcall.size i, lcall.physAddr i⟩ :: lcall.descs.drop (i + 1) := by
  rw [List.drop_eq_getElem_cons (by simpa [descs] using inside)]
  simp [descs]

/-- One turn of the loop over the descriptors -/
theorem turn_steady (vfs : Vfs) (file : UInt64) (apart : direction = .read → lcall.Apart)
    (more : i < lcall.numDescs.toNat) (progress : Progress) (kept : lcall.Kept (40 + 12 * i) later) :
    (innerLoop direction vfs file i 0 (later.size i) 0 later progress).1 =
        (descLoop vfs file (lcall.physAddr i) 0 (lcall.size i) 0 progress).1 ∧
      (innerLoop direction vfs file i 0 (later.size i) 0 later progress).2.2 =
        (descLoop vfs file (lcall.physAddr i) 0 (lcall.size i) 0 progress).2 ∧
      lcall.Kept (44 + 12 * i) (innerLoop direction vfs file i 0 (later.size i) 0 later progress).2.1 := by
  rw [kept.size more (Nat.le_refl _)]
  exact innerLoop_steady apart more 0 _ 0 progress (kept.mono (by omega)) (by simp)

/-- The loop over the descriptors, from descriptor `i` on -/
theorem outerLoop_steady (apart : direction = .read → lcall.Apart) (length : UInt64) (i : Nat) (progress : Progress)
    (kept : lcall.Kept (40 + 12 * i) later) :
    (outerLoop direction vfs file length i later progress).2 =
      descsLoop vfs file length (lcall.descs.drop i) progress := by
  fun_induction outerLoop direction vfs file length i later progress with
  | case1 i later progress more enough =>
      rw [kept.numDescs] at more
      rw [lcall.descs_drop more, descsLoop, if_pos enough]
  | case2 i later progress more short turn ended =>
      rw [kept.numDescs] at more
      obtain ⟨last, next, -⟩ := turn_steady vfs file apart more progress kept
      rw [lcall.descs_drop more, descsLoop, if_neg short]
      change turn.2.2 = if (descLoop ..).1 = 0 then (descLoop ..).2 else _
      rw [if_pos (last.symm.trans ended)]
      exact next
  | case3 i later progress more short turn goesOn ih =>
      rw [kept.numDescs] at more
      obtain ⟨last, next, further⟩ := turn_steady vfs file apart more progress kept
      rw [ih (further.mono (by omega)), lcall.descs_drop more, descsLoop, if_neg short]
      change _ = if (descLoop ..).1 = 0 then (descLoop ..).2 else _
      rw [if_neg fun zero => goesOn (last.trans zero), ← next]
  | case4 i later progress done =>
      rw [kept.numDescs] at done
      rw [List.drop_of_length_le (by simpa [TransferLcall.descs] using Nat.le_of_not_lt done)]
      rfl

/-- A transfer works through the descriptors as they were received. -/
theorem transfer_steady (vfs : Vfs) (apart : direction = .read → lcall.Apart) :
    (transfer direction vfs lcall).2 = transfers vfs lcall :=
  outerLoop_steady apart lcall.length 0 _ (.refl lcall _)

theorem calls_steady (vfs : Vfs) (apart : direction = .read → lcall.Apart) :
    calls direction vfs lcall = steadyCalls vfs lcall := by
  rw [calls, transfer_steady vfs apart, steadyCalls]

theorem transfer_answers (vfs : Vfs) {state : State} (opened : search state lcall.fileHandle = true)
    (apart : direction = .read → lcall.Apart) :
    (enclaveVfsTransferLcall direction vfs state lcall).answers = [.done (transfers vfs lcall).total] := by
  rw [enclaveVfsTransferLcall, if_pos opened, transfer_steady vfs apart]

end Steady

/-! ## Memory -/

/-- Memory after calls that read a file -/
def readInto (file memory : UInt64 → UInt8) (calls : List Io) : UInt64 → UInt8 :=
  calls.foldl (fun memory io => assign memory (io.moved.map fun place => (place.1, file place.2))) memory

/-- A file after calls that write memory to it -/
def writeOut (memory file : UInt64 → UInt8) (calls : List Io) : UInt64 → UInt8 :=
  calls.foldl (fun file io => assign file (io.moved.map fun place => (place.2, memory place.1))) file

section Memory

variable {vfs : Vfs} {lcall : TransferLcall} {file : UInt64} {data : UInt64 → UInt8} {memory : ByteMemory}

theorem after_read {history : List Io} (io : Io) (contents : ∀ history, vfs.contents file history = data)
    (filled : lcall.memory = readInto data memory history.reverse) :
    (Direction.read.after vfs file history io lcall).memory = readInto data memory (io :: history).reverse := by
  rw [List.reverse_cons, readInto, List.foldl_append, Direction.after, contents, filled]
  rfl

theorem innerLoop_read (contents : ∀ history, vfs.contents file history = data) (i : Nat) (done left : UInt32) (ret : Int)
    (lcall : TransferLcall) (progress : Progress)
    (filled : lcall.memory = readInto data memory progress.history.reverse) :
    (innerLoop .read vfs file i done left ret lcall progress).2.1.memory =
      readInto data memory (innerLoop .read vfs file i done left ret lcall progress).2.2.history.reverse := by
  fun_induction innerLoop .read vfs file i done left ret lcall progress with
  | case1 => exact filled
  | case2 done left ret lcall progress some address result io after stop => exact after_read io contents filled
  | case3 done left ret lcall progress some address result io after stop smaller ih =>
      exact ih (after_read io contents filled)

theorem outerLoop_read (contents : ∀ history, vfs.contents file history = data) (length : UInt64) (i : Nat)
    (lcall : TransferLcall) (progress : Progress)
    (filled : lcall.memory = readInto data memory progress.history.reverse) :
    (outerLoop .read vfs file length i lcall progress).1.memory =
      readInto data memory (outerLoop .read vfs file length i lcall progress).2.history.reverse := by
  fun_induction outerLoop .read vfs file length i lcall progress with
  | case1 => exact filled
  | case2 i lcall progress more short turn ended =>
      exact innerLoop_read contents i 0 (lcall.size i) 0 lcall progress filled
  | case3 i lcall progress more short turn goesOn ih =>
      exact ih (innerLoop_read contents i 0 (lcall.size i) 0 lcall progress filled)
  | case4 => exact filled

/-- A read leaves in memory what its calls found in a file that does not change. -/
theorem transfer_read (contents : ∀ history, vfs.contents lcall.fileHandle history = data) :
    (transfer .read vfs lcall).1.memory = readInto data lcall.memory (calls .read vfs lcall) :=
  outerLoop_read contents lcall.length 0 lcall _ rfl

end Memory

end Pisces.Fs
