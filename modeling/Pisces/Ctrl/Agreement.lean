import Pisces.Ctrl.Ioctl

/-! # The host's record and the enclave

Which control ioctls leave the host's record in agreement with what the enclave
holds, and report what happened.
-/

namespace Pisces.Ctrl

open Enclave Transition

/-- The record as it was, up to what long calls may change of a device. -/
structure SameRecord (nrCpus : Nat) (before after : Record) : Prop where
  assignedCpus : after.cpumask nrCpus = before.cpumask nrCpus
  numCpus : after.numCpus = before.numCpus
  memdescList : after.memdescList = before.memdescList
  memdescNum : after.memdescNum = before.memdescNum
  devices : after.pciState.entries = before.pciState.entries

/-- An ioctl returns 0 only on a success status, changes nothing when it fails,
and leaves the record in agreement. -/
structure Reported (nrCpus : Nat) (state : State) (ioctl : Ioctl) (answer : Answer) : Prop where
  success : (ctrlIoctl state.record answer ioctl).ret = 0 →
    (ctrlIoctl state.record answer ioctl).sent ≠ none ∧ answer.status = some 0
  failure : (ctrlIoctl state.record answer ioctl).ret ≠ 0 →
    SameRecord nrCpus state.record (ctrlIoctl state.record answer ioctl).record
  agree : Agree nrCpus (step nrCpus state (.ioctl ioctl answer))

/-- When an ioctl is `Reported`: adding a CPU finds its bit set, or is answered with
success, its number fits 32 bits and the mask has a bit for it; removing one is refused, or is
acknowledged for a CPU that is not on record; adding memory is answered with
success and its size survives in 32 bits; adding a device is answered with
success, or refused while the device can be removed again; freeing one is
acknowledged when the device can be removed or is unknown.  An answer that is
not 0 but has 32 low bits 0 passes for a success. -/
def honoured (nrCpus : Nat) (record : Record) (answer : Answer) : Ioctl → Bool
  | .addCpu cpuId =>
      decide (cpuId.toUInt32 ∈ record.assignedCpus) ||
        (answer.status == some 0 && cpuId.toUInt32.toUInt64 == cpuId && decide (cpuId.toUInt32.toNat < nrCpus))
  | .removeCpu cpuId =>
      !answer.accepted || (answer.status == some 0 &&
        !(cpuId.toUInt32.toUInt64 == cpuId && decide (cpuId.toUInt32 ∈ record.cpumask nrCpus)))
  | .addMem copied reg =>
      !copied || (answer.status == some 0 && reg.pages.toUInt32.toUInt64 * 4096 == reg.pages * 4096)
  | .addPci copied spec hardware =>
      let added := (Pci.enclavePciAddDev record.pciState spec hardware).2
      !copied || !Pci.addable record.pciState spec hardware || answer.status == some 0 ||
        (!answer.accepted && Pci.removableAs (Pci.handleAll added answer.lcalls) spec.name)
  | .freePci copied spec =>
      let pciState := Pci.handleAll record.pciState answer.lcalls
      !copied || !answer.accepted ||
        (if answer.status == some 0 then
          Pci.removableAs pciState spec.name || (Pci.findDevByName pciState spec.name).isNone
        else !Pci.removableAs pciState spec.name)

variable {nrCpus : Nat} {state : State} {record : Record} {held : Held} {answer : Answer}

theorem SameRecord.refl (record : Record) : SameRecord nrCpus record record :=
  ⟨rfl, rfl, rfl, rfl, rfl⟩

theorem sameRecord_answer (answer : Answer) (record : Record) : SameRecord nrCpus record (answer.record record) :=
  ⟨rfl, rfl, rfl, rfl, Pci.handleAll_entries answer.lcalls⟩

theorem Agree.of_same {after : Record} (same : SameRecord nrCpus record after)
    (agree : Agree nrCpus ⟨record, held⟩) : Agree nrCpus ⟨after, held⟩ where
  cpus := by
    rw [same.assignedCpus]
    exact agree.cpus
  memory := by
    rw [same.memdescList]
    exact agree.memory
  devices := by
    rw [same.devices]
    exact agree.devices

theorem accepted_of_zero (zero : answer.status = some 0) : answer.accepted = true := by
  simp [Answer.accepted, zero]

theorem answer_refused (held : Held) (sent : Option Command) (refused : answer.accepted = false) :
    held.answer sent answer = held := by
  have nonzero : answer.status ≠ some 0 := by
    intro zero
    rw [accepted_of_zero zero] at refused
    cases refused
  cases sent with
  | none => rfl
  | some command => simp [Held.answer, nonzero]

theorem Reported.of_failed {ioctl : Ioctl} (agree : Agree nrCpus state)
    (failed : (ctrlIoctl state.record answer ioctl).ret ≠ 0)
    (same : SameRecord nrCpus state.record (ctrlIoctl state.record answer ioctl).record)
    (unsaid : state.held.answer (ctrlIoctl state.record answer ioctl).sent answer = state.held) :
    Reported nrCpus state ioctl answer where
  success := fun zero => absurd zero failed
  failure := fun _ => same
  agree := by
    simp only [step, unsaid]
    exact agree.of_same same

section Cpus

variable {assigned : Finset UInt32} {cpus : Finset UInt64} {cpuId : UInt64}

/-- A 32-bit number is on record for the CPU whose number it keeps. -/
theorem assigned_iff : (∃ cpu ∈ assigned, cpu.toUInt64 = cpuId) ↔
    cpuId.toUInt32.toUInt64 = cpuId ∧ cpuId.toUInt32 ∈ assigned := by
  constructor
  · rintro ⟨cpu, member, rfl⟩
    rw [UInt32.toUInt32_toUInt64]
    exact ⟨rfl, member⟩
  · rintro ⟨fits, member⟩
    exact ⟨cpuId.toUInt32, member, fits⟩

theorem mirrors_insert_iff (mirrors : ∀ cpu, cpu ∈ cpus ↔ ∃ known ∈ assigned, known.toUInt64 = cpu)
    (absent : cpuId.toUInt32 ∉ assigned) :
    (∀ cpu, cpu ∈ insert cpuId cpus ↔ ∃ known ∈ insert cpuId.toUInt32 assigned, known.toUInt64 = cpu) ↔
      cpuId.toUInt32.toUInt64 = cpuId := by
  constructor
  · intro after
    have listed := (after cpuId.toUInt32.toUInt64).mpr ⟨_, Finset.mem_insert_self _ _, rfl⟩
    rcases Finset.mem_insert.mp listed with same | older
    · exact same
    · obtain ⟨known, member, same⟩ := (mirrors _).mp older
      rw [UInt32.toUInt64_inj.mp same] at member
      exact absurd member absent
  · intro fits cpu
    rw [Finset.mem_insert, mirrors]
    constructor
    · rintro (rfl | ⟨known, member, same⟩)
      · exact ⟨_, Finset.mem_insert_self _ _, fits⟩
      · exact ⟨known, Finset.mem_insert_of_mem member, same⟩
    · rintro ⟨known, member, rfl⟩
      rcases Finset.mem_insert.mp member with rfl | older
      · exact .inl fits
      · exact .inr ⟨known, older, rfl⟩

/-- The mask gains a CPU only if it has a bit for it. -/
theorem mirrors_insert_mask_iff {nrCpus : Nat}
    (mirrors : ∀ cpu, cpu ∈ cpus ↔ ∃ known ∈ assigned.filter (·.toNat < nrCpus), known.toUInt64 = cpu)
    (absent : cpuId.toUInt32 ∉ assigned) :
    (∀ cpu, cpu ∈ insert cpuId cpus ↔
      ∃ known ∈ (insert cpuId.toUInt32 assigned).filter (·.toNat < nrCpus), known.toUInt64 = cpu) ↔
        cpuId.toUInt32.toUInt64 = cpuId ∧ cpuId.toUInt32.toNat < nrCpus := by
  have unlisted : cpuId.toUInt32 ∉ assigned.filter (·.toNat < nrCpus) :=
    fun listed => absent (Finset.mem_filter.mp listed).1
  by_cases inside : cpuId.toUInt32.toNat < nrCpus
  · rw [Finset.filter_insert, if_pos inside, mirrors_insert_iff mirrors unlisted]
    exact ⟨fun fits => ⟨fits, inside⟩, fun fits => fits.1⟩
  · refine iff_of_false ?_ (fun fits => inside fits.2)
    intro after
    obtain ⟨known, member, same⟩ := (after cpuId).mp (Finset.mem_insert_self _ _)
    have bounded := (Finset.mem_filter.mp member).2
    rw [← same, UInt32.toUInt32_toUInt64] at inside
    exact inside bounded

theorem mirrors_erase_iff (mirrors : ∀ cpu, cpu ∈ cpus ↔ ∃ known ∈ assigned, known.toUInt64 = cpu) :
    (∀ cpu, cpu ∈ cpus.erase cpuId ↔ ∃ known ∈ assigned, known.toUInt64 = cpu) ↔
      ¬ (cpuId.toUInt32.toUInt64 = cpuId ∧ cpuId.toUInt32 ∈ assigned) := by
  rw [← assigned_iff, ← mirrors]
  constructor
  · intro after listed
    have kept := (after cpuId).mpr ((mirrors cpuId).mp listed)
    exact Finset.notMem_erase cpuId cpus kept
  · intro absent cpu
    rw [Finset.erase_eq_of_notMem absent]
    exact mirrors cpu

end Cpus

/-- Once the CPU is recorded, only a success that keeps its number is reported. -/
theorem reported_addCpu_iff (agree : Agree nrCpus state) (cpuId : UInt64) :
    Reported nrCpus state (.addCpu cpuId) answer ↔ honoured nrCpus state.record answer (.addCpu cpuId) = true := by
  by_cases present : cpuId.toUInt32 ∈ state.record.assignedCpus
  · have outcome : ctrlIoctl state.record answer (.addCpu cpuId) = ⟨-1, state.record, none⟩ := by
      simp [ctrlIoctl, enclaveAddCpu, present]
    refine iff_of_true ?_ (by simp [honoured, present])
    apply Reported.of_failed agree
    · simp [outcome]
    · rw [outcome]
      exact SameRecord.refl _
    · rw [outcome]
      rfl
  · have outcome : ctrlIoctl state.record answer (.addCpu cpuId) =
        ctrlAddCpu { state.record with
          assignedCpus := insert cpuId.toUInt32 state.record.assignedCpus
          numCpus := state.record.numCpus + 1 } cpuId answer := by
      simp [ctrlIoctl, enclaveAddCpu, present]
    simp only [honoured, present, decide_false, Bool.false_or, Bool.and_eq_true, beq_iff_eq, decide_eq_true_eq,
      and_assoc]
    rw [← mirrors_insert_mask_iff agree.cpus present]
    constructor
    · intro reported
      have success := reported.success
      have failure := reported.failure
      have cpus := reported.agree.cpus
      simp only [step, outcome, ctrlAddCpu] at success failure cpus
      cases accepted : answer.accepted with
      | false =>
          -- the count grows with every bit, wherever it lies
          have same : state.record.numCpus + 1 = state.record.numCpus := (failure (by simp [accepted])).numCpus
          simp at same
      | true =>
          obtain ⟨_, zero⟩ := success (by simp [accepted])
          simp only [Held.answer, zero, if_true, Held.accept] at cpus
          exact ⟨zero, cpus⟩
    · rintro ⟨zero, cpus⟩
      have memory := (agree.of_same (sameRecord_answer answer state.record)).memory
      have devices := (agree.of_same (sameRecord_answer answer state.record)).devices
      refine ⟨fun _ => by simp [outcome, ctrlAddCpu, zero], ?_, ?_⟩
      · intro failed
        simp [outcome, ctrlAddCpu, accepted_of_zero zero] at failed
      · simp only [step, outcome, ctrlAddCpu, Held.answer, zero, if_true, Held.accept]
        exact ⟨cpus, memory, devices⟩

theorem reported_removeCpu_iff (agree : Agree nrCpus state) (cpuId : UInt64) :
    Reported nrCpus state (.removeCpu cpuId) answer ↔
      honoured nrCpus state.record answer (.removeCpu cpuId) = true := by
  have same : SameRecord nrCpus state.record (answer.record state.record) := sameRecord_answer answer state.record
  cases accepted : answer.accepted with
  | false =>
      refine iff_of_true ?_ (by simp [honoured, accepted])
      apply Reported.of_failed agree
      · simp [ctrlIoctl, accepted]
      · exact same
      · exact answer_refused _ _ accepted
  | true =>
      have condition : honoured nrCpus state.record answer (.removeCpu cpuId) = true ↔
          answer.status = some 0 ∧ ∀ cpu, cpu ∈ state.held.cpus.erase cpuId ↔
            ∃ known ∈ state.record.cpumask nrCpus, known.toUInt64 = cpu := by
        rw [mirrors_erase_iff agree.cpus]
        simp only [honoured, accepted, Bool.not_true, Bool.false_or, Bool.and_eq_true, beq_iff_eq,
          Bool.not_eq_true', ← Bool.not_eq_true, decide_eq_true_eq]
      rw [condition]
      constructor
      · intro reported
        obtain ⟨_, zero⟩ := reported.success (by simp [ctrlIoctl, accepted])
        have cpus := reported.agree.cpus
        simp only [step, ctrlIoctl, Held.answer, zero, if_true, Held.accept] at cpus
        exact ⟨zero, cpus⟩
      · rintro ⟨zero, cpus⟩
        refine ⟨fun _ => by simp [ctrlIoctl, zero], ?_, ?_⟩
        · intro failed
          simp [ctrlIoctl, accepted] at failed
        · simp only [step, ctrlIoctl, Held.answer, zero, if_true, Held.accept]
          exact ⟨cpus, (agree.of_same same).memory, (agree.of_same same).devices⟩

/-- If some 32-bit page count gives the size, the truncated one does. -/
theorem size_recorded {pages : UInt32} {range : UInt64} (same : pages.toUInt64 * 4096 = range * 4096) :
    range.toUInt32.toUInt64 * 4096 = range * 4096 := by
  have page : (4096 : UInt64).toNat = 4096 := rfl
  have small : pages.toNat < 4294967296 := pages.toNat_lt
  rw [← UInt64.toNat_inj] at same ⊢
  rw [UInt64.toNat_mul, UInt64.toNat_mul, page, UInt32.toNat_toUInt64] at same ⊢
  rw [UInt64.toNat_toUInt32]
  simp only [Nat.reducePow] at same ⊢
  have count : range.toNat % 4503599627370496 = pages.toNat := by omega
  have low : range.toNat % 4294967296 = pages.toNat := by
    rw [← Nat.mod_mod_of_dvd _ (by decide : 4294967296 ∣ 4503599627370496), count]
    exact Nat.mod_eq_of_lt small
  rw [low]
  exact same

theorem reported_addMem_iff (wellFormed : state.record.WellFormed) (agree : Agree nrCpus state)
    (copied : Bool) (reg : MemoryRange) : Reported nrCpus state (.addMem copied reg) answer ↔
      honoured nrCpus state.record answer (.addMem copied reg) = true := by
  cases copied with
  | false =>
      refine iff_of_true ?_ (by simp [honoured])
      apply Reported.of_failed agree
      · simp [ctrlIoctl]
      · exact SameRecord.refl _
      · rfl
  | true =>
      have grown := enclaveAddMem_perm wellFormed reg.baseAddr reg.pages.toUInt32
      simp only [honoured, Bool.not_true, Bool.false_or, Bool.and_eq_true, beq_iff_eq]
      constructor
      · intro reported
        have success := reported.success
        have failure := reported.failure
        have memory := reported.agree.memory (reg.baseAddr, reg.pages * 4096)
        simp only [step, ctrlIoctl, ctrlAddMem, if_true] at success failure memory
        cases status : answer.status with
        | none =>
            have same := (failure (by simp [status])).memdescList
            have longer := grown.length_eq
            simp only [Answer.record] at same
            simp [same] at longer
        | some value =>
            obtain ⟨_, zero⟩ := success (by simp [status])
            simp only [Held.answer, zero, if_true, Held.accept] at memory
            obtain ⟨block, _, same⟩ := memory.mp (Finset.mem_insert_self _ _)
            exact ⟨status ▸ zero, size_recorded (Prod.mk.inj same).2⟩
      · rintro ⟨zero, size⟩
        have same := agree.of_same (sameRecord_answer answer state.record)
        refine ⟨fun _ => by simp [ctrlIoctl, ctrlAddMem, zero], ?_, ?_⟩
        · intro failed
          simp [ctrlIoctl, ctrlAddMem, zero] at failed
        · simp only [step, ctrlIoctl, ctrlAddMem, if_true, Held.answer, zero, Held.accept]
          refine ⟨same.cpus, ?_, same.devices⟩
          intro range
          rw [Finset.mem_insert, agree.memory]
          simp only [Answer.record, grown.mem_iff, List.mem_cons, exists_eq_or_imp, size]
          exact or_congr eq_comm Iff.rfl

theorem readded_entries {before after : Pci.State} {spec : Pci.Spec} {bus fn : UInt32}
    (entries : after.entries = (Pci.cString spec.name, bus, fn, true) :: before.entries)
    (removable : Pci.removableAs after spec.name = true) :
    (Pci.enclavePciRemoveDev after spec).2.entries = before.entries := by
  rw [(Pci.enclavePciRemoveDev_removed removable).2, entries, List.eraseP_cons]
  simp [Pci.cString_idem]

/-- Once the device is on the list, a refusal has to take it off again. -/
theorem reported_added_iff {ioctl : Ioctl} {added : Pci.State} {spec : Pci.Spec} {bus fn : UInt32}
    (agree : Agree nrCpus state) (outcome : ctrlIoctl state.record answer ioctl =
      ctrlAddPci { state.record with pciState := added } spec answer)
    (entries : (Pci.handleAll added answer.lcalls).entries =
      (Pci.cString spec.name, bus, fn, true) :: state.record.pciState.entries) :
    Reported nrCpus state ioctl answer ↔ (answer.status == some 0 ||
      (!answer.accepted && Pci.removableAs (Pci.handleAll added answer.lcalls) spec.name)) = true := by
  cases accepted : answer.accepted with
  | true =>
      simp only [Bool.not_true, Bool.false_and, Bool.or_false, beq_iff_eq]
      constructor
      · intro reported
        exact (reported.success (by simp [outcome, ctrlAddPci, accepted])).2
      · intro zero
        refine ⟨fun _ => by simp [outcome, ctrlAddPci, accepted, zero], ?_, ?_⟩
        · intro failed
          simp [outcome, ctrlAddPci, accepted] at failed
        · simp only [step, outcome, ctrlAddPci, accepted, if_true, Held.answer, zero, Held.accept]
          refine ⟨agree.cpus, agree.memory, ?_⟩
          intro name
          rw [Finset.mem_insert, agree.devices]
          simp [Answer.record, entries]
  | false =>
      have zero : (answer.status == some 0) = false := by
        rw [beq_eq_false_iff_ne]
        intro zero
        rw [accepted_of_zero zero] at accepted
        cases accepted
      simp only [zero, Bool.not_false, Bool.true_and, Bool.false_or]
      cases removable : Pci.removableAs (Pci.handleAll added answer.lcalls) spec.name with
      | true =>
          refine iff_of_true ?_ rfl
          apply Reported.of_failed agree
          · simp [outcome, ctrlAddPci, accepted]
          · simp only [outcome, ctrlAddPci, accepted, Bool.false_eq_true, if_false]
            exact ⟨rfl, rfl, rfl, rfl, readded_entries entries removable⟩
          · exact answer_refused _ _ accepted
      | false =>
          refine iff_of_false ?_ (by simp)
          intro reported
          have same := (reported.failure (by simp [outcome, ctrlAddPci, accepted])).devices
          simp only [outcome, ctrlAddPci, accepted, Bool.false_eq_true, if_false, Answer.record,
            Pci.enclavePciRemoveDev_refused removable, entries] at same
          exact List.cons_ne_self _ _ same

theorem reported_addPci_iff (agree : Agree nrCpus state) (copied : Bool) (spec : Pci.Spec)
    (hardware : Pci.Hardware) : Reported nrCpus state (.addPci copied spec hardware) answer ↔
      honoured nrCpus state.record answer (.addPci copied spec hardware) = true := by
  cases copied with
  | false =>
      refine iff_of_true ?_ (by simp [honoured])
      apply Reported.of_failed agree
      · simp [ctrlIoctl]
      · exact SameRecord.refl _
      · rfl
  | true =>
      cases addable : Pci.addable state.record.pciState spec hardware with
      | false =>
          obtain ⟨failed, entries⟩ := Pci.enclavePciAddDev_refused addable
          have outcome : ctrlIoctl state.record answer (.addPci true spec hardware) =
              ⟨(Pci.enclavePciAddDev state.record.pciState spec hardware).1, { state.record with
                pciState := (Pci.enclavePciAddDev state.record.pciState spec hardware).2 }, none⟩ := by
            simp [ctrlIoctl, failed]
          refine iff_of_true ?_ (by simp [honoured, addable])
          apply Reported.of_failed agree
          · rw [outcome]
            exact failed
          · rw [outcome]
            exact ⟨rfl, rfl, rfl, rfl, entries⟩
          · rw [outcome]
            rfl
      | true =>
          obtain ⟨succeeded, entries⟩ := Pci.enclavePciAddDev_added addable
          have outcome : ctrlIoctl state.record answer (.addPci true spec hardware) =
              ctrlAddPci { state.record with
                pciState := (Pci.enclavePciAddDev state.record.pciState spec hardware).2 }
                spec answer := by
            simp [ctrlIoctl, succeeded]
          have condition : honoured nrCpus state.record answer (.addPci true spec hardware) =
              (answer.status == some 0 || (!answer.accepted && Pci.removableAs (Pci.handleAll
                (Pci.enclavePciAddDev state.record.pciState spec hardware).2 answer.lcalls)
                spec.name)) := by
            simp [honoured, addable]
          rw [condition]
          rw [← Pci.handleAll_entries answer.lcalls] at entries
          exact reported_added_iff agree outcome entries

/-- A device that cannot be removed stays on record, whatever the enclave says. -/
theorem reported_unremoved_iff {spec : Pci.Spec} (wellFormed : state.record.WellFormed)
    (agree : Agree nrCpus state) (accepted : answer.accepted = true)
    (unremoved : Pci.removableAs (Pci.handleAll state.record.pciState answer.lcalls) spec.name = false) :
    Reported nrCpus state (.freePci true spec) answer ↔ (answer.status = some 0 →
      (Pci.findDevByName (Pci.handleAll state.record.pciState answer.lcalls) spec.name).isNone = true) := by
  have same : SameRecord nrCpus state.record (answer.record state.record) := sameRecord_answer answer state.record
  have outcome : ctrlIoctl state.record answer (.freePci true spec) =
      ⟨-1, answer.record state.record, some (.freePci spec)⟩ := by
    have refused : Pci.enclavePciRemoveDev (answer.record state.record).pciState spec =
        (-1, (answer.record state.record).pciState) := Pci.enclavePciRemoveDev_refused unremoved
    simp [ctrlIoctl, accepted, refused]
  have listed := Pci.findDevByName_isSome
    (wellFormed.pci.of_entries (Pci.handleAll_entries answer.lcalls)) spec.name
  rw [Pci.handleAll_entries, ← agree.devices] at listed
  rw [Option.isNone_iff_eq_none, ← Option.not_isSome_iff_eq_none, listed]
  constructor
  · intro reported zero member
    have devices := reported.agree.devices (Pci.cString spec.name)
    simp only [step, outcome, Held.answer, zero, if_true, Held.accept, same.devices] at devices
    exact Finset.notMem_erase _ _ (devices.mpr ((agree.devices _).mp member))
  · intro unknown
    apply Reported.of_failed agree
    · simp [outcome]
    · rw [outcome]
      exact same
    · rw [outcome]
      simp only [Held.answer]
      split
      · rename_i zero
        simp only [Held.accept, Finset.erase_eq_of_notMem (unknown zero)]
      · rfl

theorem reported_freePci_iff (wellFormed : state.record.WellFormed) (agree : Agree nrCpus state)
    (copied : Bool) (spec : Pci.Spec) : Reported nrCpus state (.freePci copied spec) answer ↔
      honoured nrCpus state.record answer (.freePci copied spec) = true := by
  have same : SameRecord nrCpus state.record (answer.record state.record) := sameRecord_answer answer state.record
  cases copied with
  | false =>
      refine iff_of_true ?_ (by simp [honoured])
      apply Reported.of_failed agree
      · simp [ctrlIoctl]
      · exact SameRecord.refl _
      · rfl
  | true =>
      cases accepted : answer.accepted with
      | false =>
          refine iff_of_true ?_ (by simp [honoured, accepted])
          apply Reported.of_failed agree
          · simp [ctrlIoctl, accepted]
          · simp only [ctrlIoctl, accepted, if_true, Bool.false_eq_true, if_false]
            exact same
          · exact answer_refused _ _ accepted
      | true =>
          cases removable : Pci.removableAs
              (Pci.handleAll state.record.pciState answer.lcalls) spec.name with
          | false =>
              rw [reported_unremoved_iff wellFormed agree accepted removable]
              by_cases zero : answer.status = some 0
              · simp [honoured, accepted, removable, zero]
              · simp [honoured, accepted, removable, zero]
          | true =>
              have condition : honoured nrCpus state.record answer (.freePci true spec) = true ↔
                  answer.status = some 0 := by
                simp [honoured, accepted, removable]
              have removed : (Pci.enclavePciRemoveDev (answer.record state.record).pciState spec).1 = 0 :=
                (Pci.enclavePciRemoveDev_removed removable).1
              rw [condition]
              constructor
              · intro reported
                exact (reported.success (by simp [ctrlIoctl, accepted, removed])).2
              · intro zero
                refine ⟨fun _ => by simp [ctrlIoctl, accepted, zero], ?_, ?_⟩
                · intro failed
                  simp [ctrlIoctl, accepted, removed] at failed
                · simp only [step, ctrlIoctl, accepted, if_true, Held.answer, zero, Held.accept]
                  refine ⟨agree.cpus, agree.memory, ?_⟩
                  intro name
                  have pci := wellFormed.pci.of_entries (Pci.handleAll_entries answer.lcalls)
                  have names := Pci.removed_names pci removable name
                  rw [Pci.handleAll_entries] at names
                  rw [Finset.mem_erase, agree.devices]
                  exact names.symm

theorem reported_iff (wellFormed : state.record.WellFormed) (agree : Agree nrCpus state) (ioctl : Ioctl) :
    Reported nrCpus state ioctl answer ↔ honoured nrCpus state.record answer ioctl = true := by
  cases ioctl with
  | addCpu cpuId => exact reported_addCpu_iff agree cpuId
  | removeCpu cpuId => exact reported_removeCpu_iff agree cpuId
  | addMem copied reg => exact reported_addMem_iff wellFormed agree copied reg
  | addPci copied spec hardware => exact reported_addPci_iff agree copied spec hardware
  | freePci copied spec => exact reported_freePci_iff wellFormed agree copied spec

theorem wellFormed_answer (answer : Answer) (wellFormed : record.WellFormed) :
    (answer.record record).WellFormed :=
  wellFormed.of_pci (wellFormed.pci.of_entries (Pci.handleAll_entries answer.lcalls))

theorem wellFormed_ioctl (wellFormed : record.WellFormed) (ioctl : Ioctl) :
    (ctrlIoctl record answer ioctl).record.WellFormed := by
  have waited := wellFormed_answer answer wellFormed
  cases ioctl with
  | addCpu cpuId =>
      have added := wellFormed.addCpu cpuId.toUInt32
      simp only [ctrlIoctl]
      split
      · rename_i present
        rw [present] at added
        exact added
      · rename_i absent
        rw [absent] at added
        exact wellFormed_answer answer added
  | removeCpu cpuId => exact waited
  | addMem copied reg =>
      cases copied with
      | false => exact wellFormed
      | true => exact wellFormed_answer answer (wellFormed.addMem reg.baseAddr reg.pages.toUInt32)
  | addPci copied spec hardware =>
      cases copied with
      | false => exact wellFormed
      | true =>
          have added : Pci.WellFormed (Pci.enclavePciAddDev record.pciState spec hardware).2 := by
            cases addable : Pci.addable record.pciState spec hardware with
            | false => exact wellFormed.pci.of_entries (Pci.enclavePciAddDev_refused addable).2
            | true => exact wellFormed.pci.add addable
          have listed := wellFormed.of_pci added
          simp only [ctrlIoctl, if_true]
          split
          · exact listed
          · simp only [ctrlAddPci]
            split
            · exact wellFormed_answer answer listed
            · exact (wellFormed_answer answer listed).of_pci (wellFormed_answer answer listed).pci.remove
  | freePci copied spec =>
      cases copied with
      | false => exact wellFormed
      | true =>
          simp only [ctrlIoctl, if_true]
          split
          · exact waited.of_pci waited.pci.remove
          · exact waited

/-- Bits outside are no part of the mask. -/
theorem cpumask_outside (bits : Finset UInt32) :
    ({ record with assignedCpus := record.cpumask nrCpus ∪ bits.filter (nrCpus ≤ ·.toNat) } : Record).cpumask nrCpus =
      record.cpumask nrCpus := by
  ext cpuId
  simp only [Record.cpumask, Finset.mem_filter, Finset.mem_union]
  constructor
  · rintro ⟨inside | outside, bounded⟩
    · exact inside
    · omega
  · rintro ⟨member, bounded⟩
    exact ⟨.inl ⟨member, bounded⟩, bounded⟩

/-- Every ioctl of the run is honoured; long calls are free. -/
def Honoured (nrCpus : Nat) (state : State) : Action → Prop
  | .ioctl ioctl answer => honoured nrCpus state.record answer ioctl = true
  | .lcall _ | .outside _ => True

theorem invariant_of_reachable (reached : (system nrCpus).Reachable (Honoured nrCpus) state) :
    state.record.WellFormed ∧ Agree nrCpus state := by
  apply reached.invariant
  · intro start initial
    exact initial
  · intro before action after invariant permitted stepped
    cases stepped
    obtain ⟨wellFormed, agree⟩ := invariant
    cases action with
    | ioctl ioctl answer =>
        exact ⟨wellFormed_ioctl wellFormed ioctl, ((reported_iff wellFormed agree ioctl).mpr permitted).agree⟩
    | lcall lcall =>
        have entries : (Pci.handle before.record.pciState lcall).2.entries =
            before.record.pciState.entries := Pci.handle_entries lcall
        have same : SameRecord nrCpus before.record { before.record with
            pciState := (Pci.handle before.record.pciState lcall).2 } := ⟨rfl, rfl, rfl, rfl, entries⟩
        exact ⟨wellFormed.of_pci (wellFormed.pci.of_entries entries), agree.of_same same⟩
    | outside bits =>
        have same : SameRecord nrCpus before.record { before.record with
            assignedCpus := before.record.cpumask nrCpus ∪ bits.filter (nrCpus ≤ ·.toNat) } :=
          ⟨cpumask_outside bits, rfl, rfl, rfl, rfl⟩
        exact ⟨⟨wellFormed.counted, wellFormed.pci⟩, agree.of_same same⟩

/-- In a run of honoured ioctls the record agrees with the enclave, and the next
ioctl reports what happened exactly when it is honoured. -/
theorem record_agrees_of_honoured (reached : (system nrCpus).Reachable (Honoured nrCpus) state) :
    Agree nrCpus state ∧ ∀ ioctl answer,
      (Reported nrCpus state ioctl answer ↔ Honoured nrCpus state (.ioctl ioctl answer)) := by
  obtain ⟨wellFormed, agree⟩ := invariant_of_reachable reached
  refine ⟨agree, ?_⟩
  intro ioctl answer
  exact reported_iff wellFormed agree ioctl

/-- An enclave booted on CPU 1 with 2MB of memory. -/
def booted : State where
  record := enclaveAddMem (enclaveAddCpu Record.empty 1).2 0x40000000 512
  held := { cpus := {1}, memory := {(0x40000000, 0x200000)}, devices := ∅ }

theorem booted_initial : (system 64).initial booted := by
  have mask : booted.record.cpumask 64 = {1} := by decide +kernel
  refine ⟨⟨rfl, ?_, ?_, ?_⟩, ?_, ?_, ?_⟩
  · simp [booted, Pci.State.entries, enclaveAddMem, enclaveAddCpu, Record.empty]
  · simp [booted, Pci.State.entries, enclaveAddMem, enclaveAddCpu, Record.empty]
  · simp [booted, Pci.State.entries, enclaveAddMem, enclaveAddCpu, Record.empty]
  · intro cpu
    rw [mask]
    simp [booted, eq_comm]
  · intro range
    simp [booted, enclaveAddMem, enclaveAddCpu, Record.empty, eq_comm]
  · simp [booted, Pci.State.entries, enclaveAddMem, enclaveAddCpu, Record.empty]

theorem record_agrees_addCpu : ∃ state, (system 64).Reachable (Honoured 64) state ∧
    2 ∈ state.record.cpumask 64 ∧ 2 ∈ state.held.cpus ∧
    Reported 64 state (.addMem true ⟨0x80000000, 512⟩) ⟨[], some 0⟩ := by
  have added : Honoured 64 booted (.ioctl (.addCpu 2) ⟨[], some 0⟩) := by
    simp only [Honoured]
    decide +kernel
  have reached : (system 64).Reachable (Honoured 64) (step 64 booted (.ioctl (.addCpu 2) ⟨[], some 0⟩)) :=
    ⟨booted, booted_initial, .single added rfl⟩
  refine ⟨_, reached, by decide +kernel, by decide +kernel, ?_⟩
  apply ((record_agrees_of_honoured reached).2 _ _).mpr
  simp only [Honoured]
  decide +kernel

/-- A failed ADD_CPU leaves the CPU on record, an acknowledged REMOVE_CPU
leaves it there too, and ADD_MEM returns 0 whatever the status. -/
theorem record_disagrees : (system 64).initial booted ∧
    ((ctrlIoctl booted.record ⟨[], none⟩ (.addCpu 2)).ret = -1 ∧
      2 ∉ booted.record.cpumask 64 ∧
      2 ∈ (ctrlIoctl booted.record ⟨[], none⟩ (.addCpu 2)).record.cpumask 64) ∧
    ((ctrlIoctl booted.record ⟨[], some 0⟩ (.removeCpu 1)).ret = 0 ∧
      1 ∈ (step 64 booted (.ioctl (.removeCpu 1) ⟨[], some 0⟩)).record.cpumask 64 ∧
      1 ∉ (step 64 booted (.ioctl (.removeCpu 1) ⟨[], some 0⟩)).held.cpus) ∧
    (ctrlIoctl booted.record ⟨[], some 22⟩ (.addMem true ⟨0x80000000, 512⟩)).ret = 0 := by
  refine ⟨booted_initial, ?_, ?_, ?_⟩
  · decide +kernel
  · decide +kernel
  · decide +kernel

end Pisces.Ctrl
