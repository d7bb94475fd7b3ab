import Pisces.Enclave.Channels
import Pisces.Enclave.Images
import Pisces.Enclave.Map
import Pisces.Enclave.Teardown

/-! # One enclave in several models

Launching, resetting and freeing are modelled with the channels, the descriptors
and the image files of an enclave, with the map and with the long-call thread.
Where FREE and RESET find a thread to stop, the models make the same steps.
-/

namespace Pisces.Enclave

open Ledger Transition

namespace Boot

/-- `pisces_lcall_init` succeeds when it is reached. -/
def servesLcall (boot : Boot) : Bool :=
  !boot.xbufReady && boot.requestIrq && boot.irqToVector

/-- What follows `pisces_lcall_init` in a launch -/
def launches (boot : Boot) : Bool :=
  boot.xpmemInit && boot.kernelOffset && boot.loadKernel && boot.loadInitrd && Lifecycle.bootEnclave boot

end Boot

/-- `kern_thread`, which the log tells from a stopped one -/
def Lifecycle.kernThread (enclave : Lifecycle) : Descriptors.KernThread :=
  match enclave.lcallState with
  | none => .null
  | some lcall => if .release (some lcall.kernThread) ∈ enclave.log then .stopped else .live

/-- The enclave as its descriptors' model has it, all of them of the device -/
def Lifecycle.descriptors (enclave : Lifecycle) : Descriptors.State where
  status := enclave.state
  refcount := (if enclave.mapped then 1 else 0) + enclave.files
  lastPuts := if enclave.mapped = false ∧ enclave.files = 0 then 1 else 0
  connected := false
  mapped := enclave.mapped
  kernThread := enclave.kernThread
  opLocked := false
  opened := List.replicate enclave.files .device

/-- Only threads have handles of their kind, and those are numbered as they are made. -/
structure Named (enclave : Lifecycle) : Prop where
  ctrl : ∀ desc, enclave.ctrlDesc = some desc → desc.kind ≠ .lcallThread
  desc : ∀ lcall, enclave.lcallState = some lcall → lcall.xbufDesc.kind ≠ .lcallThread
  irq : ∀ lcall, enclave.lcallState = some lcall → lcall.irq.kind ≠ .lcallThread
  thread : ∀ lcall, enclave.lcallState = some lcall → lcall.kernThread.kind = .lcallThread
  bound : ∀ lcall, enclave.lcallState = some lcall → lcall.kernThread.id < enclave.nextId
  stopped : ∀ handle, .release (some handle) ∈ enclave.log → handle.kind = .lcallThread → handle.id < enclave.nextId

section Channels

variable {enclave : Lifecycle} {boot : Boot}

theorem create_named : Named create := by
  constructor <;> simp [create]

theorem Named.ctrlInit (named : Named enclave) (allocated : Bool) : Named (enclave.ctrlInit allocated) := by
  cases allocated with
  | false => exact ⟨by simp [Lifecycle.ctrlInit], named.desc, named.irq, named.thread, named.bound, named.stopped⟩
  | true =>
      refine ⟨?ctrl, named.desc, named.irq, named.thread, ?bound, ?stopped⟩
      case ctrl =>
        intro desc present
        cases present
        exact Resource.noConfusion
      case bound => exact fun lcall present => Nat.lt_succ_of_lt (named.bound lcall present)
      case stopped =>
        intro handle member kind
        have older : .release (some handle) ∈ enclave.log := by
          simpa [Lifecycle.ctrlInit, Lifecycle.acquire] using member
        exact Nat.lt_succ_of_lt (named.stopped handle older kind)

/-- `pisces_lcall_init` stops no thread, also when it fails. -/
theorem lcallInit_releases {handle : Handle} (kind : handle.kind = .lcallThread) :
    .release (some handle) ∈ (enclave.lcallInit boot).2.log ↔ .release (some handle) ∈ enclave.log := by
  have desc : ∀ id, handle ≠ ⟨.lcallDesc, id⟩ := by
    rintro id rfl
    cases kind
  have irq : ∀ id, handle ≠ ⟨.lcallIrq, id⟩ := by
    rintro id rfl
    cases kind
  rw [lcallInit_log]
  cases boot.xbufReady <;> cases boot.requestIrq <;> cases boot.irqToVector <;> simp [desc, irq]

theorem lcallInit_nextId : enclave.nextId ≤ (enclave.lcallInit boot).2.nextId := by
  simp only [Lifecycle.lcallInit, Lifecycle.xbufServerInit]
  cases boot.xbufReady <;> cases boot.requestIrq <;> cases boot.irqToVector <;>
    simp [Lifecycle.acquire, Lifecycle.release, Nat.add_assoc]

theorem Named.lcallInit (named : Named enclave) : Named (enclave.lcallInit boot).2 := by
  have grows : enclave.nextId ≤ (enclave.lcallInit boot).2.nextId := lcallInit_nextId
  have ctrl : ∀ desc, (enclave.lcallInit boot).2.ctrlDesc = some desc → desc.kind ≠ .lcallThread := by
    rw [(lcallInit_frame enclave boot).1]
    exact named.ctrl
  have stopped : ∀ handle, .release (some handle) ∈ (enclave.lcallInit boot).2.log → handle.kind = .lcallThread →
      handle.id < (enclave.lcallInit boot).2.nextId := by
    intro handle member kind
    exact Nat.lt_of_lt_of_le (named.stopped handle ((lcallInit_releases kind).mp member) kind) grows
  cases serves : boot.servesLcall with
  | false =>
      obtain ⟨same, -⟩ := lcallInit_failed enclave serves
      refine ⟨ctrl, same ▸ named.desc, same ▸ named.irq, same ▸ named.thread, ?_, stopped⟩
      rw [same]
      exact fun lcall present => Nat.lt_of_lt_of_le (named.bound lcall present) grows
  | true =>
      obtain ⟨made, -⟩ := lcallInit_created enclave serves
      have next : (enclave.lcallInit boot).2.nextId = enclave.nextId + 3 := by
        simp only [Boot.servesLcall, Bool.and_eq_true, Bool.not_eq_true'] at serves
        simp [Lifecycle.lcallInit, Lifecycle.xbufServerInit, serves, Lifecycle.acquire]
      refine ⟨ctrl, ?_, ?_, ?_, ?_, stopped⟩
      all_goals
        intro lcall present
        cases made.symm.trans present
      · exact Resource.noConfusion
      · exact Resource.noConfusion
      · rfl
      · rw [next]
        exact Nat.lt_succ_self _

theorem kernThread_of_same {before after : Lifecycle} (pointer : after.lcallState = before.lcallState)
    (stopped : ∀ lcall, before.lcallState = some lcall →
      (.release (some lcall.kernThread) ∈ after.log ↔ .release (some lcall.kernThread) ∈ before.log)) :
    after.kernThread = before.kernThread := by
  rw [Lifecycle.kernThread, Lifecycle.kernThread, pointer]
  cases present : before.lcallState with
  | none => rfl
  | some lcall => simp only [stopped lcall present]

theorem lcallInit_kernThread (named : Named enclave) :
    (enclave.lcallInit boot).2.kernThread = if boot.servesLcall then .live else enclave.kernThread := by
  cases serves : boot.servesLcall with
  | false =>
      obtain ⟨same, -⟩ := lcallInit_failed enclave serves
      exact kernThread_of_same same fun lcall present => lcallInit_releases (named.thread lcall present)
  | true =>
      obtain ⟨made, -⟩ := lcallInit_created enclave serves
      have fresh : .release (some ⟨.lcallThread, enclave.nextId + 2⟩) ∉ (enclave.lcallInit boot).2.log := by
        rw [lcallInit_releases rfl]
        intro member
        have older := named.stopped _ member rfl
        dsimp only at older
        omega
      rw [Lifecycle.kernThread, made]
      exact if_neg fresh

theorem ctrlInit_kernThread (allocated : Bool) : (enclave.ctrlInit allocated).kernThread = enclave.kernThread := by
  apply kernThread_of_same
  · cases allocated <;> rfl
  · intro lcall _
    cases allocated <;> simp [Lifecycle.ctrlInit, Lifecycle.acquire]

theorem Named.of_same {before after : Lifecycle} (named : Named before) (same : SameChannels before after) :
    Named after := by
  obtain ⟨log, nextId, ctrlDesc, lcallState, -⟩ := same
  constructor
  · exact ctrlDesc ▸ named.ctrl
  · exact lcallState ▸ named.desc
  · exact lcallState ▸ named.irq
  · exact lcallState ▸ named.thread
  · rw [lcallState, nextId]
    exact named.bound
  · rw [log, nextId]
    exact named.stopped

theorem Named.launch (named : Named enclave) : Named (enclave.launch boot).2 := by
  refine Named.of_same ?_ (launch_same enclave boot)
  unfold Lifecycle.initChannels
  split
  · exact (named.ctrlInit _).lcallInit
  · exact named

theorem launch_kernThread (named : Named enclave) : (enclave.launch boot).2.kernThread =
    if boot.reachesCtrl && boot.servesLcall then .live else enclave.kernThread := by
  have same := launch_same enclave boot
  rw [kernThread_of_same same.lcallState fun _ _ => by rw [same.log], Lifecycle.initChannels]
  cases boot.reachesCtrl with
  | false => rfl
  | true => rw [if_pos rfl, lcallInit_kernThread (named.ctrlInit _), ctrlInit_kernThread, Bool.true_and]

theorem lcallInit_files : (enclave.lcallInit boot).2.files = enclave.files := by
  simp only [Lifecycle.lcallInit, Lifecycle.xbufServerInit]
  cases boot.xbufReady <;> cases boot.requestIrq <;> cases boot.irqToVector <;> rfl

theorem launch_files : (enclave.launch boot).2.files = enclave.files := by
  have setup : (enclave.setupBootParams boot).2.files = enclave.files := by
    have channels : ((enclave.ctrlInit boot.ctrlAlloc).lcallInit boot).2.files = enclave.files := by
      rw [lcallInit_files]
      cases boot.ctrlAlloc <;> rfl
    unfold Lifecycle.setupBootParams
    split
    · split <;> simpa [*] using channels
    · rfl
  unfold Lifecycle.launch
  split
  · simpa [*] using setup
  · split <;> simpa [*] using setup

theorem launch_fst : (enclave.launch boot).1 = (boot.reachesCtrl && boot.servesLcall && boot.launches) := by
  have prepared := (setupBootParams_spec enclave boot).2
  unfold Lifecycle.launch Boot.reachesCtrl Boot.servesLcall Boot.launches
  cases setup : enclave.setupBootParams boot with
  | mk succeeded after =>
      rw [setup] at prepared
      cases succeeded with
      | false => simp_all
      | true => cases booted : Lifecycle.bootEnclave boot <;> simp_all

theorem launch_status : (enclave.launch boot).2.state =
    if boot.reachesCtrl && boot.servesLcall && boot.launches then .running else enclave.state := by
  rw [(launch_spec enclave boot).2]
  congr 2
  simp only [Boot.succeeds, Boot.reachesCtrl, Boot.servesLcall, Boot.launches, Lifecycle.bootEnclave, Bool.and_assoc]

theorem launch_descriptors (named : Named enclave) : (enclave.launch boot).2.descriptors =
    enclave.descriptors.launch boot.reachesCtrl boot.servesLcall boot.launches := by
  rw [Lifecycle.descriptors, launch_status, launch_mapped, launch_kernThread named, launch_files,
    Descriptors.State.launch]
  cases boot.reachesCtrl <;> rfl

theorem ctrlDeinit_kernThread (named : Named enclave) : enclave.ctrlDeinit.kernThread = enclave.kernThread := by
  refine kernThread_of_same rfl fun lcall present => ?_
  have other : some lcall.kernThread ≠ enclave.ctrlDesc := by
    intro same
    exact named.ctrl _ same.symm (named.thread lcall present)
  simp [Lifecycle.ctrlDeinit, Lifecycle.release, other]

theorem lcallDeinit_kernThread (live : enclave.kernThread = .live) : enclave.lcallDeinit.kernThread = .stopped := by
  cases present : enclave.lcallState with
  | none => simp [Lifecycle.kernThread, present] at live
  | some lcall =>
      simp [Lifecycle.kernThread, Lifecycle.lcallDeinit, Lifecycle.xbufServerDeinit, Lifecycle.release, present]

theorem Named.ctrlDeinit (named : Named enclave) : Named enclave.ctrlDeinit := by
  refine ⟨named.ctrl, named.desc, named.irq, named.thread, named.bound, ?_⟩
  intro handle member kind
  rcases List.mem_cons.mp member with new | older
  · exact absurd kind (named.ctrl handle (Event.release.inj new).symm)
  · exact named.stopped handle older kind

theorem Named.lcallDeinit (named : Named enclave) : Named enclave.lcallDeinit := by
  refine ⟨named.ctrl, named.desc, named.irq, named.thread, named.bound, ?_⟩
  intro handle member kind
  simp only [Lifecycle.lcallDeinit, Lifecycle.xbufServerDeinit, Lifecycle.release, List.mem_cons,
    Event.release.injEq] at member
  rcases member with desc | irq | thread | older
  · obtain ⟨lcall, present, rfl⟩ := Option.map_eq_some_iff.mp desc.symm
    exact absurd kind (named.desc lcall present)
  · obtain ⟨lcall, present, rfl⟩ := Option.map_eq_some_iff.mp irq.symm
    exact absurd kind (named.irq lcall present)
  · obtain ⟨lcall, present, rfl⟩ := Option.map_eq_some_iff.mp thread.symm
    exact named.bound lcall present
  · exact named.stopped handle older kind

/-- What `pisces_ctrl_deinit` and `pisces_lcall_deinit` leave -/
theorem deinit_descriptors (named : Named enclave) (live : enclave.kernThread = .live) :
    enclave.ctrlDeinit.lcallDeinit.descriptors = { enclave.descriptors with kernThread := .stopped } := by
  have stopped := lcallDeinit_kernThread ((ctrlDeinit_kernThread named).trans live)
  rw [Lifecycle.descriptors, stopped]
  rfl

theorem reset_descriptors (named : Named enclave) (live : enclave.kernThread = .live) :
    (enclave.reset boot).2.descriptors =
      enclave.descriptors.reset boot.reachesCtrl boot.servesLcall boot.launches := by
  have thread : enclave.descriptors.kernThread = .live := live
  rw [Lifecycle.reset, launch_descriptors named.ctrlDeinit.lcallDeinit, deinit_descriptors named live,
    Descriptors.State.reset, thread]

theorem free_descriptors (named : Named enclave) (mapped : enclave.mapped = true) (live : enclave.kernThread = .live) :
    enclave.free.descriptors = enclave.descriptors.free := by
  have torn := deinit_descriptors named live
  have thread : enclave.descriptors.kernThread = .live := live
  have stopped : enclave.free.kernThread = .stopped :=
    (kernThread_of_same rfl fun _ _ => Iff.rfl).trans (congrArg Descriptors.State.kernThread torn)
  have files : enclave.free.files = enclave.files := rfl
  have gone : enclave.free.mapped = false := rfl
  have dead : enclave.free.state = .dead := rfl
  rw [Descriptors.State.free_live thread, Lifecycle.descriptors, stopped, files, gone, dead]
  simp only [Lifecycle.descriptors, Descriptors.State.enclavePut, mapped, Descriptors.State.mk.injEq, true_and,
    and_true, if_true]
  by_cases none : enclave.files = 0 <;> simp [none]

end Channels

/-- RESET, and a FREE that finds the enclave in the map, have a thread to stop. -/
def Stoppable : Option Lifecycle → Operation → Prop
  | some enclave, .reset _ => enclave.kernThread = .live
  | some enclave, .free => enclave.mapped = true → enclave.kernThread = .live
  | _, _ => True

/-- Before it is loaded an enclave stands as it is created. -/
def descriptorsOf (current : Option Lifecycle) : Descriptors.State :=
  (current.getD create).descriptors

theorem Requested.named {before after : Lifecycle} {operation : Operation} (named : Named before)
    (requested : Requested before operation after) : Named after := by
  cases requested with
  | loadImage | notCopied | notMapped => exact named
  | openFile | closeFile => exact ⟨named.ctrl, named.desc, named.irq, named.thread, named.bound, named.stopped⟩
  | launch => exact named.launch
  | reset => exact named.ctrlDeinit.lcallDeinit.launch
  | free =>
      have torn := named.ctrlDeinit.lcallDeinit
      exact ⟨torn.ctrl, torn.desc, torn.irq, torn.thread, torn.bound, torn.stopped⟩

section Steps

variable {enclave after : Lifecycle}

theorem descriptors_served (opened : 0 < enclave.files) : enclave.descriptors.served :=
  ⟨List.mem_replicate.mpr ⟨by omega, rfl⟩, rfl⟩

theorem openFile_descriptors (mapped : enclave.mapped = true) :
    Descriptors.step enclave.descriptors .openDevice =
      some { enclave with files := enclave.files + 1 }.descriptors := by
  have found : enclave.descriptors.mapped = true := mapped
  simp only [Descriptors.step, found, if_true, Option.some.injEq]
  simp [Lifecycle.descriptors, Lifecycle.kernThread, Descriptors.State.enclaveGet, Descriptors.State.install, mapped,
    List.replicate_succ, add_assoc]

theorem closeFile_descriptors (opened : 0 < enclave.files) :
    Descriptors.step enclave.descriptors (.close .device) =
      some { enclave with files := enclave.files - 1 }.descriptors := by
  obtain ⟨rest, count⟩ : ∃ rest, enclave.files = rest + 1 := Nat.exists_eq_succ_of_ne_zero (by omega)
  simp only [Descriptors.step, (descriptors_served opened).1, if_true, Option.some.injEq]
  simp only [Lifecycle.descriptors, Lifecycle.kernThread, Descriptors.State.release, Descriptors.State.enclavePut,
    count, List.replicate_succ, List.erase_cons_head, Nat.add_sub_cancel, Descriptors.State.mk.injEq, true_and,
    and_true]
  refine ⟨by omega, ?_⟩
  cases enclave.mapped with
  | false => simp
  | true =>
      simp
      omega

/-- One request of the channels' model is at most one of the descriptors' model. -/
theorem step_descriptors {operation : Operation} {next : Option Lifecycle} (named : Named enclave)
    (stoppable : Stoppable (some enclave) operation) (stepped : step (some enclave) operation = some next) :
    Descriptors.system.Path Descriptors.Counted enclave.descriptors (descriptorsOf next) := by
  have request : ∀ (label : Descriptors.Operation) {target : Descriptors.State},
      Descriptors.Counted enclave.descriptors label → Descriptors.step enclave.descriptors label = some target →
      Descriptors.system.Path Descriptors.Counted enclave.descriptors target :=
    fun _ _ counted made => .single counted made
  cases operation with
  | loadImage created =>
      cases stepped
      exact .refl
  | openFile =>
      simp only [step, Option.ite_none_right_eq_some, Option.some.injEq] at stepped
      obtain ⟨mapped, rfl⟩ := stepped
      exact request .openDevice trivial (openFile_descriptors mapped)
  | closeFile =>
      simp only [step, Option.ite_none_right_eq_some, Option.some.injEq] at stepped
      obtain ⟨opened, rfl⟩ := stepped
      exact request (.close .device) trivial (closeFile_descriptors opened)
  | launch copied boot =>
      simp only [step, Option.ite_none_right_eq_some, Option.some.injEq] at stepped
      obtain ⟨opened, rfl⟩ := stepped
      cases copied with
      | false => exact .refl
      | true =>
          refine request (.launch boot.reachesCtrl boot.servesLcall boot.launches) trivial ?_
          rw [Descriptors.step, if_pos (descriptors_served opened), ← launch_descriptors named]
          rfl
  | reset boot =>
      simp only [step, Option.ite_none_right_eq_some, Option.some.injEq] at stepped
      obtain ⟨opened, rfl⟩ := stepped
      refine request (.reset boot.reachesCtrl boot.servesLcall boot.launches) trivial ?_
      rw [Descriptors.step, if_pos (descriptors_served opened), ← reset_descriptors named stoppable]
      rfl
  | free =>
      cases stepped
      cases mapped : enclave.mapped with
      | false => exact .refl
      | true =>
          have found : enclave.descriptors.mapped = true := mapped
          refine request .free (stoppable mapped) ?_
          rw [Descriptors.step, if_pos found, ← free_descriptors named mapped (stoppable mapped)]
          rfl

end Steps

/-- Every run of the channels' model whose FREE and RESET requests have a thread to
stop is one of the descriptors' model, in which the references are counted. -/
theorem lifecycle_descriptors {current : Option Lifecycle} (reached : system.Reachable Stoppable current) :
    Descriptors.system.Reachable Descriptors.Counted (descriptorsOf current) := by
  obtain ⟨start, initial, path⟩ := reached
  cases initial
  refine ⟨Descriptors.create, rfl, ?_⟩
  refine (path.project (fun current => ∀ enclave, current = some enclave → Named enclave) descriptorsOf
    (by simp) fun {current operation next} named stoppable stepped => ?_).2
  cases current with
  | none =>
      obtain ⟨-, rfl | rfl⟩ := step_created stepped
      · exact ⟨named, .refl⟩
      · refine ⟨fun enclave made => ?_, .refl⟩
        cases made
        exact create_named
  | some enclave =>
      refine ⟨?_, step_descriptors (named enclave rfl) stoppable stepped⟩
      obtain ⟨after, rfl, requested⟩ := step_requested stepped
      intro other same
      cases same
      exact requested.named (named enclave rfl)

/-- A live long-call channel has its thread. -/
theorem kernThread_of_lcallLive {enclave : Lifecycle} (sound : Sound enclave.log) (numbered : Numbered enclave)
    (alive : enclave.lcallLive = true) : enclave.kernThread = .live := by
  obtain ⟨lcall, present, thread, -, -⟩ := lcallLive_iff.mp alive
  have counted := sound.count_acquire lcall.kernThread
  have once := numbered.fresh lcall.kernThread
  have held : 0 < (live enclave.log).count lcall.kernThread := List.count_pos_iff.mpr thread
  have kept : .release (some lcall.kernThread) ∉ enclave.log := by
    rw [← List.count_eq_zero]
    omega
  rw [Lifecycle.kernThread, present]
  exact if_neg kept

/-- Where every tear-down meets live channels, there is a thread to stop. -/
theorem stoppable_of_paired {current : Option Lifecycle} (reached : system.Reachable Paired current) :
    system.Reachable Stoppable current := by
  obtain ⟨start, initial, path⟩ := reached
  have sane : Sane start := sane_of_reachable ⟨start, initial, .refl⟩
  refine ⟨start, initial, (path.project Sane id sane fun {current operation next} sane paired stepped => ?_).2⟩
  refine ⟨⟨(step_balanced_iff sane stepped).mpr paired, step_tracked sane paired stepped⟩, .single ?_ stepped⟩
  cases current with
  | none => cases operation <;> trivial
  | some enclave =>
      have live : enclave.lcallLive = true → enclave.kernThread = .live :=
        kernThread_of_lcallLive (sane.balanced enclave rfl).sound (sane.tracked enclave rfl).toNumbered
      cases operation with
      | reset boot => exact live (Bool.and_eq_true_iff.mp paired).2
      | free =>
          intro mapped
          simp only [Paired, Enclave.paired, mapped, Bool.not_true, Bool.false_or, Bool.and_eq_true] at paired
          exact live paired.2
      | _ => trivial

/-- The resources are announced again to an enclave that runs and whose long calls are served. -/
theorem reset_serves {enclave : Lifecycle} {boot : Boot} (named : Named enclave)
    (succeeded : (enclave.reset boot).1 = true) :
    (enclave.reset boot).2.forwards = true ∧ (enclave.reset boot).2.kernThread = .live := by
  rw [Lifecycle.reset, launch_fst] at succeeded
  constructor
  · rw [Lifecycle.forwards, Lifecycle.reset, launch_status, if_pos succeeded]
    rfl
  · rw [Lifecycle.reset, launch_kernThread named.ctrlDeinit.lcallDeinit,
      if_pos (Bool.and_eq_true_iff.mp succeeded).1]

/-- The descriptors of an enclave whose files are followed -/
def Images.State.descriptors (state : Images.State) : Descriptors.State :=
  match state.phase with
  | .present descriptors => descriptors
  | .absent | .discarded => Descriptors.create

theorem request_descriptors {state next : Images.State} {operation : Descriptors.Operation}
    (made : state.request operation = some next) (counted : Descriptors.Counted state.descriptors operation) :
    Descriptors.system.Path Descriptors.Counted state.descriptors next.descriptors := by
  unfold Images.State.request at made
  cases phase : state.phase with
  | absent => simp [phase] at made
  | discarded => simp [phase] at made
  | present descriptors =>
      have current : state.descriptors = descriptors := by simp only [Images.State.descriptors, phase]
      cases stepped : Descriptors.step descriptors operation with
      | none => simp [phase, stepped] at made
      | some after =>
          simp only [phase, stepped, Option.some.injEq] at made
          subst made
          rw [current] at counted ⊢
          exact .single counted stepped

/-- The files are followed beside the descriptors, whose every step is one of their model. -/
theorem images_descriptors {state : Images.State} (reached : Images.system.Reachable Images.Complete state) :
    Descriptors.system.Reachable Descriptors.Counted state.descriptors := by
  obtain ⟨start, initial, path⟩ := reached
  cases initial
  refine ⟨Descriptors.create, rfl, ?_⟩
  refine (path.project (fun _ => True) Images.State.descriptors trivial ?_).2
  intro state operation next _ complete made
  refine ⟨trivial, ?_⟩
  cases operation with
  | create kernFd initFd registered =>
      simp only [Images.system, Images.step, Option.ite_none_right_eq_some, Option.some.injEq] at made
      obtain ⟨absent, rfl⟩ := made
      have before : state.descriptors = Descriptors.create := by simp only [Images.State.descriptors, absent]
      rw [before]
      cases registered <;> exact .refl
  | openDevice => exact request_descriptors made trivial
  | closeDevice => exact request_descriptors made trivial
  | launch attempt =>
      have after : Images.State.request { state with log := _ } _ = some next := made
      have followed := request_descriptors after trivial
      exact followed
  | reset attempt =>
      have after : Images.State.request { state with log := _ } _ = some next := made
      have followed := request_descriptors after trivial
      exact followed
  | free =>
      refine request_descriptors made ?_
      unfold Images.Complete Images.State.kernThread at complete
      unfold Images.State.descriptors Descriptors.Counted
      cases phase : state.phase with
      | present descriptors => simpa only [phase] using complete
      | absent | discarded => simp [phase] at complete

/-- The map still holds the enclave under its number. -/
def Map.State.maps (state : Map.State) (pointer : Nat) : Prop :=
  state.enclaveMap (state.enclaves pointer).id = some pointer

/-- An enclave for each pointer that was handed out, mapped as the map has it -/
structure Map.State.Shows (state : Map.State) (enclaves : Nat → Option Lifecycle) : Prop where
  mapped : ∀ pointer, state.maps pointer ↔ ∃ enclave, enclaves pointer = some enclave ∧ enclave.mapped = true
  unborn : ∀ pointer, state.next ≤ pointer → enclaves pointer = none

section Mapped

variable {state : Map.State} {enclaves : Nat → Option Lifecycle}

/-- Each enclave stays as it is or meets one request. -/
def Follows (before after : Nat → Option Lifecycle) : Prop :=
  ∀ pointer, after pointer = before pointer ∨ ∃ operation, step (before pointer) operation = some (after pointer)

theorem Follows.update {pointer : Nat} {operation : Operation} {after : Option Lifecycle}
    (stepped : step (enclaves pointer) operation = some after) :
    Follows enclaves (Function.update enclaves pointer after) := by
  intro other
  by_cases same : other = pointer
  · subst same
    rw [Function.update_self]
    exact .inr ⟨operation, stepped⟩
  · exact .inl (Function.update_of_ne same ..)

theorem Map.State.Shows.create (shows : state.Shows enclaves) (held : Map.Held state) {cdevAdd : Int}
    {deviceCreate : Map.DeviceCreate}
    (registers : (Map.firstFree state.enclaveMap).isSome = true → cdevAdd = 0 ∧ deviceCreate ≠ .null) :
    ∃ after, (Map.piscesEnclaveCreate state cdevAdd deviceCreate).2.Shows after ∧ Follows enclaves after := by
  have new : enclaves state.next = none := shows.unborn _ le_rfl
  rw [Map.piscesEnclaveCreate]
  cases free : Map.firstFree state.enclaveMap with
  | none =>
      refine ⟨enclaves, ⟨fun pointer => ?_, fun pointer later => ?_⟩, fun _ => .inl rfl⟩
      · by_cases here : pointer = state.next
        · subst here
          have unmapped : ∀ index, state.enclaveMap index ≠ some state.next :=
            fun index mapped => Nat.lt_irrefl _ (held.bound index _ mapped)
          simp [Map.State.maps, new, unmapped]
        · simpa [Map.State.maps, Function.update_of_ne here] using shows.mapped pointer
      · exact shows.unborn pointer (Nat.le_of_succ_le later)
  | some slot =>
      obtain ⟨added, present⟩ := registers (by simp [free])
      have registered : ¬ (cdevAdd ≠ 0 ∨ deviceCreate = .null) := by simp [added, present]
      have empty : state.enclaveMap slot = none := by
        simpa using List.find?_some free
      have made : step (enclaves state.next) (.loadImage true) = some (some Enclave.create) := by
        rw [new]
        rfl
      simp only [registered, if_false]
      refine ⟨Function.update enclaves state.next (some Enclave.create), ⟨fun pointer => ?_, fun pointer later => ?_⟩,
        .update made⟩
      · by_cases here : pointer = state.next
        · subst here
          simp [Map.State.maps, Enclave.create]
        · have old := shows.mapped pointer
          simp only [Map.State.maps, Function.update_of_ne here] at old ⊢
          rw [← old]
          by_cases taken : (state.enclaves pointer).id = slot
          · rw [taken, Function.update_self, empty]
            simp [Ne.symm here]
          · rw [Function.update_of_ne taken]
      · dsimp only at later
        rw [Function.update_of_ne (by omega)]
        exact shows.unborn pointer (by omega)

theorem Map.State.Shows.free (shows : state.Shows enclaves) (held : Map.Held state) {index : Fin 128}
    {pointer : Nat} (found : state.enclaveMap index = some pointer) :
    ∃ after, (Map.piscesEnclaveFree state pointer).Shows after ∧ Follows enclaves after := by
  obtain ⟨-, id⟩ := held.live index pointer found
  have maps : state.maps pointer := by rwa [Map.State.maps, id]
  obtain ⟨enclave, present, mapped⟩ := (shows.mapped pointer).mp maps
  have stepped : step (enclaves pointer) .free = some (some enclave.free) := by
    rw [present]
    simp only [step, mapped, if_true]
  refine ⟨Function.update enclaves pointer (some enclave.free), ⟨fun other => ?_, fun other later => ?_⟩,
    .update stepped⟩
  · by_cases here : other = pointer
    · subst here
      have gone : enclave.free.mapped = false := rfl
      simp [Map.State.maps, Map.piscesEnclaveFree, gone]
    · have old := shows.mapped other
      simp only [Map.State.maps, Map.piscesEnclaveFree, Function.update_of_ne here] at old ⊢
      rw [← old, id]
      by_cases same : (state.enclaves other).id = index
      · rw [same, Function.update_self, found]
        simp [Ne.symm here]
      · rw [Function.update_of_ne same]
  · have below := held.bound index pointer found
    have later : state.next ≤ other := later
    rw [Function.update_of_ne (by omega)]
    exact shows.unborn other later

/-- A request to the module is at most one request to one enclave. -/
theorem Map.State.Shows.request (shows : state.Shows enclaves) (held : Map.Held state) {request : Map.Request}
    (registrable : Map.Registrable state request) :
    ∃ after, (Map.deviceIoctl state request).2.Shows after ∧ Follows enclaves after := by
  have same : ∃ after, state.Shows after ∧ Follows enclaves after := ⟨enclaves, shows, fun _ => .inl rfl⟩
  cases request with
  | loadImage copied cdevAdd deviceCreate =>
      cases copied with
      | false => exact same
      | true => exact shows.create held (registrable rfl)
  | freeEnclave arg =>
      simp only [Map.deviceIoctl]
      split
      · exact same
      · split
        · exact same
        · rename_i pointer found
          exact shows.free held found

end Mapped

/-- A run of the map is a run of each enclave that it hands out. -/
theorem map_enclaves {state : Map.State} (reached : Map.system.Reachable Map.Registrable state) :
    ∃ enclaves, state.Shows enclaves ∧ ∀ pointer, system.Reachable (fun _ _ => True) (enclaves pointer) := by
  have both : Map.Held state ∧ ∃ enclaves, state.Shows enclaves ∧
      ∀ pointer, system.Reachable (fun _ _ => True) (enclaves pointer) := by
    apply reached.invariant
    · intro start initial
      subst initial
      refine ⟨Map.initial_held, fun _ => none, ⟨fun pointer => ?_, fun _ _ => rfl⟩, fun _ => ⟨none, rfl, .refl⟩⟩
      simp [Map.State.maps, Map.initial]
    · rintro before request next ⟨held, enclaves, shows, runs⟩ registrable stepped
      cases stepped
      obtain ⟨after, shown, follows⟩ := shows.request held registrable
      refine ⟨held.request registrable, after, shown, fun pointer => ?_⟩
      rcases follows pointer with same | ⟨operation, stepped⟩
      · rw [same]
        exact runs pointer
      · exact (runs pointer).extend (.single trivial stepped)
  exact both.2

namespace Teardown

/-- `kern_thread` while FREE goes on -/
def State.kernThread (state : State) : Descriptors.KernThread :=
  if state.thread = .absent then .null else if state.free = .finished then .stopped else .live

/-- FREE comes back from `kthread_stop` when there was a thread and it has exited. -/
structure Stopped (start state : State) : Prop where
  thread : state.thread = .absent ↔ start.thread = .absent
  finished : state.free = .finished → state.thread = .exited

theorem Stopped.step {start state next : State} (stopped : Stopped start state) {action : Action}
    (stepped : Teardown.step state action = some next) : Stopped start next := by
  have moves : ∀ {after : State}, state.thread ≠ .absent → state.thread ≠ .exited → after.thread ≠ .absent →
      after.free = state.free → Stopped start after := by
    intro after present running kept free
    refine ⟨iff_of_false kept fun absent => present (stopped.thread.mpr absent), fun finished => ?_⟩
    exact absurd (stopped.finished (free ▸ finished)) running
  cases action with
  | arrive kind =>
      simp only [Teardown.step, Option.ite_none_right_eq_some, Option.some.injEq] at stepped
      obtain ⟨-, rfl⟩ := stepped
      exact ⟨stopped.thread, stopped.finished⟩
  | use =>
      cases thread : state.thread <;> simp only [Teardown.step, thread, reduceCtorEq] at stepped
      cases stepped
      exact moves (by simp [thread]) (by simp [thread]) (by simp) rfl
  | leave =>
      cases thread : state.thread <;> simp only [Teardown.step, thread, reduceCtorEq] at stepped
      cases stepped
      exact moves (by simp [thread]) (by simp [thread]) (by simp) rfl
  | complete =>
      cases thread : state.thread <;> simp only [Teardown.step, thread, reduceCtorEq] at stepped
      all_goals
        cases stepped
        exact moves (by simp [thread]) (by simp [thread]) (by simp) rfl
  | thread =>
      have frame : next.thread ≠ .absent ∧ next.free = state.free ∧ state.thread ≠ .absent ∧
          state.thread ≠ .exited := by
        cases thread : state.thread <;> simp only [Teardown.step, threadStep, thread, reduceCtorEq] at stepped
        case top | stopTest =>
          cases stepped
          cases state.shouldStop <;> simp
        case wait =>
          split at stepped <;> cases stepped
          simp
        case check | recv => split at stepped <;> cases stepped <;> simp
      exact moves frame.2.2.1 frame.2.2.2 frame.1 frame.2.1
  | free =>
      cases free : state.free <;> simp only [Teardown.step, freeStep, free, reduceCtorEq] at stepped
      case stopping =>
        simp only [Option.ite_none_right_eq_some, Option.some.injEq] at stepped
        obtain ⟨exited, rfl⟩ := stepped
        exact ⟨stopped.thread, fun _ => exited⟩
      all_goals
        cases stepped
        exact ⟨stopped.thread, by simp⟩

/-- The statements of FREE one by one leave the thread as FREE in one step does. -/
theorem free_kernThread {start state : State} (initial : system.initial start)
    (path : system.Path anyAction start state) {descriptors : Descriptors.State}
    (same : descriptors.kernThread = start.kernThread) (finished : state.free = .finished) :
    state.thread = .exited ∧ descriptors.kernThread = .live ∧ descriptors.free.kernThread = state.kernThread := by
  obtain ⟨-, -, -, -, idle, -⟩ := initial
  have stopped : Stopped start state :=
    path.invariant ⟨Iff.rfl, by simp [idle]⟩ fun stopped _ stepped => stopped.step stepped
  have exited := stopped.finished finished
  have created : start.thread ≠ .absent := fun absent => by
    have gone := stopped.thread.mpr absent
    rw [exited] at gone
    cases gone
  have live : descriptors.kernThread = .live := by
    simp [same, State.kernThread, created, idle]
  refine ⟨exited, live, ?_⟩
  rw [Descriptors.State.free_live live]
  simp [Descriptors.State.enclavePut, State.kernThread, exited, finished]

end Teardown

end Pisces.Enclave
