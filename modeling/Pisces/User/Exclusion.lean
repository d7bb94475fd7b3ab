import Pisces.User.Library

/-! # Exclusive CPUs

The library gives a CPU back to Linux when handing it over fails, but the
kernel's record of the hand-over is not undone, and an acknowledged removal does
not clear it either.
-/

namespace Pisces.User

open Enclave Transition

/-- No CPU is online in Linux and on record for an enclave, and none was reset
while Linux was using it. -/
structure Exclusive (state : State) : Prop where
  separate : ∀ id cpu, cpu ∈ (state.records id).assignedCpus → cpu ∉ state.online
  unstruck : state.struck = ∅

/-- A hand-over that reaches the kernel's record succeeds: the enclave accepts
the CPU, or the launch that recorded it goes through; and no CPU on record for
some enclave is removed. -/
def Careful (state : State) : Call → Prop
  | .launch _ _ memory cpuId tried works reply =>
      memory = true → (petOfflineCpu state.online (cpuId.getD tried).toUInt64 works).isSome = true →
        (reply.opened && reply.copied) = true → reply.launched = true
  | .addCpu _ cpuId works reply =>
      (petOfflineCpu state.online cpuId works).isSome = true → reply.connected = true →
        reply.answer.accepted = true
  | .addCpus _ numCpus tried replies =>
      (petOfflineCpus state.online (tried.take numCpus)).1.length = numCpus →
        ∀ cpu ∈ (petOfflineCpus state.online (tried.take numCpus)).1, (replies cpu).connected = true →
          (replies cpu).answer.accepted = true
  | .removeCpu _ cpuId reply =>
      reply.connected = true → reply.answer.accepted = true → fits cpuId = true →
        ∀ id, cpuId.toUInt32 ∉ (state.records id).assignedCpus
  | .reset _ _ _ => True

variable {state : State} {online : Finset UInt32} {cpuId : UInt64} {cpu : UInt32} {id : Nat}

@[simp] theorem fits_toUInt64 (cpu : UInt32) : fits cpu.toUInt64 = true := by
  unfold fits
  rw [UInt32.toUInt32_toUInt64]
  exact beq_self_eq_true _

theorem petOfflineCpu_some {works : Bool} {left : Finset UInt32}
    (taken : petOfflineCpu online cpuId works = some left) :
    fits cpuId = true ∧ cpuId.toUInt32 ∈ online ∧ left = online.erase cpuId.toUInt32 := by
  unfold petOfflineCpu at taken
  split at taken
  · rename_i allowed
    simp only [Bool.and_eq_true, decide_eq_true_eq] at allowed
    cases taken
    exact ⟨allowed.1.2, allowed.2, rfl⟩
  · cases taken

theorem mem_petOnlineCpu : cpu ∈ petOnlineCpu online cpuId ↔
    cpu ∈ online ∨ fits cpuId = true ∧ cpu = cpuId.toUInt32 := by
  unfold petOnlineCpu
  split
  · rename_i fitting
    simp [fitting, or_comm]
  · rename_i wide
    simp [wide]

theorem petOfflineCpus_spec (online : Finset UInt32) (tried : List UInt32) : (petOfflineCpus online tried).1.Nodup ∧
    (∀ cpu ∈ (petOfflineCpus online tried).1, cpu ∈ online) ∧
    ∀ cpu, cpu ∈ (petOfflineCpus online tried).2 ↔
      cpu ∈ online ∧ cpu ∉ (petOfflineCpus online tried).1 := by
  induction tried generalizing online with
  | nil => simp [petOfflineCpus]
  | cons first rest ih =>
      simp only [petOfflineCpus]
      split
      · rename_i present
        obtain ⟨nodup, subset, left⟩ := ih (online.erase first)
        have absent : first ∉ (petOfflineCpus (online.erase first) rest).1 :=
          fun member => Finset.notMem_erase _ _ (subset _ member)
        refine ⟨List.nodup_cons.mpr ⟨absent, nodup⟩, ?_, ?_⟩
        · intro cpu member
          rcases List.mem_cons.mp member with rfl | older
          · exact present
          · exact Finset.mem_of_mem_erase (subset cpu older)
        · intro cpu
          rw [left, Finset.mem_erase, List.mem_cons]
          tauto
      · exact ih online

theorem mem_petOnlineCpus (cpus : List UInt32) :
    cpu ∈ petOnlineCpus online cpus ↔ cpu ∈ online ∨ cpu ∈ cpus := by
  unfold petOnlineCpus
  induction cpus generalizing online with
  | nil => simp
  | cons first rest ih =>
      rw [List.foldl_cons, ih, mem_petOnlineCpu, List.mem_cons, UInt32.toUInt32_toUInt64]
      simp only [fits_toUInt64, true_and]
      exact or_assoc

theorem launchRecord_assigned (record : Record) (bootMem : BootMem) :
    (launchRecord record bootMem cpu).assignedCpus = insert cpu record.assignedCpus := by
  have blocks : ∀ (indices : List Nat) (start : Record), (indices.foldl (fun record i =>
      enclaveAddMem record (bootMem.baseAddr + UInt64.ofNat i * bootMem.blockSize)
        (bootMem.blockSize / 4096).toUInt32) start).assignedCpus = start.assignedCpus := by
    intro indices
    induction indices with
    | nil => exact fun _ => rfl
    | cons index rest ih => exact fun start => ih _
  unfold launchRecord
  rw [blocks]
  unfold enclaveAddCpu
  split
  · rename_i present
    exact (Finset.insert_eq_of_mem present).symm
  · rfl

/-- Adding a CPU that is not on record puts it there, whatever the answer. -/
theorem ctrlIoctl_addCpu {record : Record} (answer : Ctrl.Answer)
    (absent : cpuId.toUInt32 ∉ record.assignedCpus) :
    (Ctrl.ctrlIoctl record answer (.addCpu cpuId)).record.assignedCpus =
        insert cpuId.toUInt32 record.assignedCpus ∧
      (Ctrl.ctrlIoctl record answer (.addCpu cpuId)).ret = if answer.accepted then 0 else -1 := by
  simp [Ctrl.ctrlIoctl, enclaveAddCpu, absent, Ctrl.ctrlAddCpu, Ctrl.Answer.record]

/-- A CPU that is neither online nor on record anywhere. -/
def Loose (state : State) (cpu : UInt32) : Prop :=
  cpu ∉ state.online ∧ ∀ id, cpu ∉ (state.records id).assignedCpus

/-- What handing over a CPU does: it is on record as soon as the kernel is
reached, and online again unless the enclave accepts it. -/
theorem giveCpu_spec (id : Nat) (reply : Reply) (loose : Loose state cpu) :
    (∀ other known, known ∈ ((giveCpu state id cpu.toUInt64 reply).records other).assignedCpus ↔
      known ∈ (state.records other).assignedCpus ∨
        reply.connected = true ∧ other = id ∧ known = cpu) ∧
    (∀ known, known ∈ (giveCpu state id cpu.toUInt64 reply).online ↔
      known ∈ state.online ∨
        ¬ (reply.connected = true ∧ reply.answer.accepted = true) ∧ known = cpu) ∧
    (giveCpu state id cpu.toUInt64 reply).struck = state.struck := by
  have number : cpu.toUInt64.toUInt32 = cpu := UInt32.toUInt32_toUInt64 cpu
  have absent : cpu.toUInt64.toUInt32 ∉ (state.records id).assignedCpus := by
    rw [number]
    exact loose.2 id
  obtain ⟨assigned, ret⟩ := ctrlIoctl_addCpu reply.answer absent
  rw [number] at assigned
  cases connected : reply.connected with
  | false =>
      simp only [giveCpu, sendCtrlCmd, connected]
      refine ⟨?_, ?_, rfl⟩
      · simp
      · intro known
        simp [mem_petOnlineCpu]
  | true =>
      have records : (giveCpu state id cpu.toUInt64 reply).records = Function.update state.records id
          (Ctrl.ctrlIoctl (state.records id) reply.answer (.addCpu cpu.toUInt64)).record := by
        simp only [giveCpu, sendCtrlCmd, connected, if_true]
        split <;> rfl
      refine ⟨?_, ?_, ?_⟩
      · intro other known
        rw [records]
        by_cases same : other = id
        · subst same
          rw [Function.update_self, assigned, Finset.mem_insert]
          simp [or_comm]
        · rw [Function.update_of_ne same]
          simp [same]
      · intro known
        simp only [giveCpu, sendCtrlCmd, connected, if_true, ret]
        cases reply.answer.accepted with
        | false => simp [mem_petOnlineCpu]
        | true => simp
      · simp only [giveCpu, sendCtrlCmd, connected, if_true]
        split <;> rfl

theorem Loose.giveCpu {other : UInt32} (loose : Loose state other) (reply : Reply)
    (handed : Loose state cpu) (distinct : other ≠ cpu) :
    Loose (giveCpu state id cpu.toUInt64 reply) other := by
  obtain ⟨assigned, online, _⟩ := giveCpu_spec id reply handed
  constructor
  · simp [online, loose.1, distinct]
  · intro anywhere
    simp [assigned, loose.2 anywhere, distinct]

/-- Handing over a loose CPU keeps CPUs apart exactly if the kernel does not
record it in vain. -/
theorem giveCpu_exclusive_iff (id : Nat) (reply : Reply) (exclusive : Exclusive state) (loose : Loose state cpu) :
    Exclusive (giveCpu state id cpu.toUInt64 reply) ↔
      (reply.connected = true → reply.answer.accepted = true) := by
  obtain ⟨assigned, online, struck⟩ := giveCpu_spec id reply loose
  constructor
  · intro after connected
    by_contra refused
    have recorded := (assigned id cpu).mpr (.inr ⟨connected, rfl, rfl⟩)
    exact after.separate id cpu recorded ((online cpu).mpr (.inr ⟨fun both => refused both.2, rfl⟩))
  · intro accepted
    refine ⟨?_, struck.trans exclusive.unstruck⟩
    intro other known recorded used
    rcases (assigned other known).mp recorded with older | ⟨connected, rfl, rfl⟩
    · rcases (online known).mp used with still | ⟨_, rfl⟩
      · exact exclusive.separate other known older still
      · exact loose.2 other older
    · rcases (online known).mp used with still | ⟨refused, _⟩
      · exact loose.1 still
      · exact refused ⟨connected, accepted connected⟩

/-- The loop of `pisces_add_cpus`. -/
def giveCpus (state : State) (id : Nat) (replies : UInt32 → Reply) (cpus : List UInt32) : State :=
  cpus.foldl (fun state cpu => giveCpu state id cpu.toUInt64 (replies cpu)) state

/-- A CPU in use on both sides stays so for the rest of the loop. -/
theorem giveCpus_stuck (replies : UInt32 → Reply) {cpus : List UInt32} (nodup : cpus.Nodup)
    (loose : ∀ cpu ∈ cpus, Loose state cpu)
    (recorded : cpu ∈ (state.records id).assignedCpus) (used : cpu ∈ state.online) :
    ¬ Exclusive (giveCpus state id replies cpus) := by
  induction cpus generalizing state with
  | nil => exact fun exclusive => exclusive.separate id cpu recorded used
  | cons first rest ih =>
      obtain ⟨assigned, online, _⟩ := giveCpu_spec id (replies first) (loose first (List.mem_cons_self ..))
      obtain ⟨fresh, nodup⟩ := List.nodup_cons.mp nodup
      apply ih nodup
      · intro later member
        exact (loose later (List.mem_cons_of_mem _ member)).giveCpu _ (loose first (List.mem_cons_self ..))
          (fun same => fresh (same ▸ member))
      · exact (assigned id cpu).mpr (.inl recorded)
      · exact (online cpu).mpr (.inl used)

theorem giveCpus_exclusive_iff (replies : UInt32 → Reply) {cpus : List UInt32}
    (exclusive : Exclusive state) (nodup : cpus.Nodup) (loose : ∀ cpu ∈ cpus, Loose state cpu) :
    Exclusive (giveCpus state id replies cpus) ↔
      ∀ cpu ∈ cpus, (replies cpu).connected = true → (replies cpu).answer.accepted = true := by
  induction cpus generalizing state with
  | nil => simpa [giveCpus] using exclusive
  | cons first rest ih =>
      have firstLoose := loose first (List.mem_cons_self ..)
      obtain ⟨assigned, online, _⟩ := giveCpu_spec id (replies first) firstLoose
      obtain ⟨fresh, nodup⟩ := List.nodup_cons.mp nodup
      have later : ∀ cpu ∈ rest, Loose (giveCpu state id first.toUInt64 (replies first)) cpu := by
        intro cpu member
        exact (loose cpu (List.mem_cons_of_mem _ member)).giveCpu _ firstLoose
          (fun same => fresh (same ▸ member))
      have head := giveCpu_exclusive_iff id (replies first) exclusive firstLoose
      rw [List.forall_mem_cons]
      by_cases accepted : (replies first).connected = true → (replies first).answer.accepted = true
      · rw [and_iff_right accepted]
        exact ih (head.mpr accepted) nodup later
      · refine iff_of_false ?_ (fun both => accepted both.1)
        obtain ⟨connected, refused⟩ := Classical.not_imp.mp accepted
        apply giveCpus_stuck replies nodup later
        · exact (assigned id first).mpr (.inr ⟨connected, rfl, rfl⟩)
        · exact (online first).mpr (.inr ⟨fun both => refused both.2, rfl⟩)

/-- Taking CPUs from Linux keeps CPUs apart and leaves those taken loose. -/
theorem Exclusive.offline {left : Finset UInt32} (exclusive : Exclusive state)
    (fewer : ∀ cpu ∈ left, cpu ∈ state.online) : Exclusive { state with online := left } :=
  ⟨fun id cpu recorded used => exclusive.separate id cpu recorded (fewer cpu used), exclusive.unstruck⟩

theorem Exclusive.loose {left : Finset UInt32} (exclusive : Exclusive state) (used : cpu ∈ state.online)
    (taken : cpu ∉ left) : Loose { state with online := left } cpu :=
  ⟨taken, fun id recorded => exclusive.separate id cpu recorded used⟩

theorem launchOn_exclusive_iff {bootMem : BootMem} {reply : LaunchReply} (exclusive : Exclusive state)
    (loose : Loose state cpu) : Exclusive (launchOn state id bootMem cpu reply) ↔
      ((reply.opened && reply.copied) = true → reply.launched = true) := by
  have back : ∀ known, known ∈ petOnlineCpu state.online cpu.toUInt64 ↔ known ∈ state.online ∨ known = cpu := by
    intro known
    rw [mem_petOnlineCpu, UInt32.toUInt32_toUInt64]
    simp
  have assigned : ∀ other known, known ∈ (Function.update state.records id
      (launchRecord (state.records id) bootMem cpu) other).assignedCpus ↔
      known ∈ (state.records other).assignedCpus ∨ other = id ∧ known = cpu := by
    intro other known
    by_cases same : other = id
    · subst same
      rw [Function.update_self, launchRecord_assigned, Finset.mem_insert]
      simp [or_comm]
    · simp [same]
  cases reached : reply.opened && reply.copied with
  | false =>
      refine iff_of_true ?_ (by simp)
      simp only [launchOn, reached]
      refine ⟨?_, exclusive.unstruck⟩
      intro other known recorded used
      rcases (back known).mp used with still | rfl
      · exact exclusive.separate other known recorded still
      · exact loose.2 other recorded
  | true =>
      simp only [launchOn, reached, if_true, forall_const]
      cases reply.launched with
      | false =>
          refine iff_of_false ?_ (by simp)
          intro after
          exact after.separate id cpu ((assigned id cpu).mpr (.inr ⟨rfl, rfl⟩)) ((back cpu).mpr (.inr rfl))
      | true =>
          refine iff_of_true ⟨?_, exclusive.unstruck⟩ rfl
          intro other known recorded used
          rcases (assigned other known).mp recorded with older | ⟨rfl, rfl⟩
          · exact exclusive.separate other known older used
          · exact loose.1 used

/-- Removing a CPU gives it to Linux but leaves every record as it was. -/
theorem removeCpu_exclusive_iff {reply : Reply} (exclusive : Exclusive state) :
    Exclusive (step state (.removeCpu id cpuId reply)) ↔ Careful state (.removeCpu id cpuId reply) := by
  have assigned : ∀ other, ((sendCtrlCmd state.records id (.removeCpu cpuId) reply).2 other).assignedCpus =
      (state.records other).assignedCpus := by
    intro other
    unfold sendCtrlCmd
    split
    · by_cases same : other = id
      · subst same
        simp [Ctrl.ctrlIoctl, Ctrl.Answer.record]
      · simp [same]
    · rfl
  have ret : (sendCtrlCmd state.records id (.removeCpu cpuId) reply).1 = 0 ↔
      reply.connected = true ∧ reply.answer.accepted = true := by
    unfold sendCtrlCmd Ctrl.ctrlIoctl
    cases reply.connected <;> cases reply.answer.accepted <;> simp
  simp only [step, Careful]
  by_cases acknowledged : reply.connected = true ∧ reply.answer.accepted = true
  · simp only [ret.mpr acknowledged, ne_eq, not_true_eq_false, if_false, acknowledged, forall_const]
    constructor
    · intro after fitting other recorded
      exact after.separate other _ (assigned other ▸ recorded) (mem_petOnlineCpu.mpr (.inr ⟨fitting, rfl⟩))
    · intro unrecorded
      refine ⟨?_, exclusive.unstruck⟩
      intro other known recorded used
      rw [assigned] at recorded
      rcases mem_petOnlineCpu.mp used with still | ⟨fitting, rfl⟩
      · exact exclusive.separate other known recorded still
      · exact unrecorded fitting other recorded
  · rw [if_pos (fun zero => acknowledged (ret.mp zero))]
    refine iff_of_true ⟨?_, exclusive.unstruck⟩ (fun connected accepted => absurd ⟨connected, accepted⟩ acknowledged)
    intro other known recorded
    exact exclusive.separate other known (assigned other ▸ recorded)

theorem step_exclusive_iff (exclusive : Exclusive state) (call : Call) :
    Exclusive (step state call) ↔ Careful state call := by
  cases call with
  | launch id bootMem memory cpuId tried works reply =>
      simp only [step, Careful]
      cases memory with
      | false => simpa using exclusive
      | true =>
          cases offline : petOfflineCpu state.online (cpuId.getD tried).toUInt64 works with
          | none => simpa using exclusive
          | some left =>
              obtain ⟨_, used, rfl⟩ := petOfflineCpu_some offline
              rw [UInt32.toUInt32_toUInt64] at used ⊢
              simp only [if_true, Option.isSome_some, forall_const]
              apply launchOn_exclusive_iff
              · exact exclusive.offline (fun _ member => Finset.mem_of_mem_erase member)
              · exact exclusive.loose used (Finset.notMem_erase _ _)
  | addCpu id cpuId works reply =>
      simp only [step, Careful]
      cases offline : petOfflineCpu state.online cpuId works with
      | none => simpa using exclusive
      | some left =>
          obtain ⟨fitting, used, rfl⟩ := petOfflineCpu_some offline
          have number : cpuId.toUInt32.toUInt64 = cpuId := by simpa only [fits, beq_iff_eq] using fitting
          simp only [Option.isSome_some, forall_const]
          rw [← number, UInt32.toUInt32_toUInt64]
          apply giveCpu_exclusive_iff
          · exact exclusive.offline (fun _ member => Finset.mem_of_mem_erase member)
          · exact exclusive.loose used (Finset.notMem_erase _ _)
  | addCpus id numCpus tried replies =>
      obtain ⟨nodup, subset, left⟩ := petOfflineCpus_spec state.online (tried.take numCpus)
      simp only [step, Careful]
      generalize petOfflineCpus state.online (tried.take numCpus) = result at *
      by_cases enough : result.1.length = numCpus
      · simp only [enough, ne_eq, not_true_eq_false, if_false, forall_const]
        apply giveCpus_exclusive_iff
        · exact exclusive.offline (fun cpu member => ((left cpu).mp member).1)
        · exact nodup
        · intro cpu member
          exact exclusive.loose (subset cpu member) (fun still => ((left cpu).mp still).2 member)
      · refine iff_of_true ?_ (fun equal => absurd equal enough)
        simp only [enough, ne_eq, not_false_eq_true, if_true]
        apply exclusive.offline
        intro cpu member
        rcases (mem_petOnlineCpus _).mp member with still | taken
        · exact ((left cpu).mp still).1
        · exact subset cpu taken
  | removeCpu id cpuId reply => exact removeCpu_exclusive_iff exclusive
  | reset id opened pciState =>
      refine iff_of_true ?_ trivial
      simp only [step]
      split
      · constructor
        · intro other known recorded
          by_cases same : other = id
          · subst same
            simp only [Function.update_self] at recorded
            exact exclusive.separate other known recorded
          · simp only [Function.update_of_ne same] at recorded
            exact exclusive.separate other known recorded
        · have apart : (state.records id).assignedCpus ∩ state.online = ∅ := by
            apply Finset.eq_empty_of_forall_notMem
            intro cpu member
            obtain ⟨recorded, used⟩ := Finset.mem_inter.mp member
            exact exclusive.separate id cpu recorded used
          simp only [exclusive.unstruck, apart]
          rfl
      · exact exclusive

theorem exclusive_of_reachable (reached : system.Reachable Careful state) : Exclusive state := by
  apply reached.invariant
  · rintro start ⟨empty, unstruck⟩
    refine ⟨?_, unstruck⟩
    intro id cpu recorded
    rw [empty] at recorded
    exact absurd recorded (Finset.notMem_empty cpu)
  · intro before call after exclusive careful stepped
    cases stepped
    exact (step_exclusive_iff exclusive call).mpr careful

/-- In a run of careful calls Linux and the enclaves never share a CPU and no
CPU of Linux is reset; and the first careless call makes them share one. -/
theorem cpus_exclusive_of_careful (reached : system.Reachable Careful state) :
    Exclusive state ∧ ∀ call, (Exclusive (step state call) ↔ Careful state call) := by
  have exclusive := exclusive_of_reachable reached
  exact ⟨exclusive, step_exclusive_iff exclusive⟩

/-- Four CPUs online and no enclave yet. -/
def fourCpus : State where
  online := {0, 1, 2, 3}
  records := fun _ => Record.empty
  struck := ∅

/-- `pisces_launch` of enclave 0 on CPU 1, with one block of 2MB. -/
def launchOnOne : Call :=
  .launch 0 ⟨0x40000000, 0x200000, 1⟩ true (some 1) 0 true ⟨true, true, true⟩

theorem cpus_exclusive_launched : ∃ state, system.Reachable Careful state ∧ Exclusive state ∧
    1 ∈ (state.records 0).assignedCpus ∧ state.online = {0, 2, 3} := by
  have careful : Careful fourCpus launchOnOne := fun _ _ _ => rfl
  have reached : system.Reachable Careful (step fourCpus launchOnOne) :=
    ⟨fourCpus, ⟨rfl, rfl⟩, .single careful rfl⟩
  exact ⟨_, reached, (cpus_exclusive_of_careful reached).1, by decide +kernel, by decide +kernel⟩

/-- The enclave does not answer ADD_CPU for CPU 2, so CPU 2 goes back to Linux
but stays on record, and the next reset sends it an INIT. -/
theorem shared_cpu_reset :
    let shared := step (step fourCpus launchOnOne) (.addCpu 0 2 true ⟨true, ⟨[], none⟩⟩)
    system.Reachable (fun _ _ => True) shared ∧
      2 ∈ (shared.records 0).assignedCpus ∧ 2 ∈ shared.online ∧
      (step shared (.reset 0 true ⟨[], 0⟩)).struck = {2} := by
  refine ⟨⟨fourCpus, ⟨rfl, rfl⟩, .snoc (.snoc .refl trivial rfl) trivial rfl⟩, ?_, ?_, ?_⟩
  · decide +kernel
  · decide +kernel
  · decide +kernel

end Pisces.User
