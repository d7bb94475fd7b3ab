import Pisces.Enclave.Lifecycle

/-! # The state of an enclave

Neither `PISCES_ENCLAVE_LAUNCH` nor `PISCES_ENCLAVE_RESET` looks at the state,
and only a successful launch writes it.
-/

namespace Pisces.Enclave

open Transition

def Status.rank : Status → Nat
  | .loaded => 0
  | .running => 1
  | .dead => 2

/-- Every answer that lets `pisces_enclave_launch` return 0. -/
def Boot.succeeds (boot : Boot) : Bool :=
  boot.bootParams && boot.launchCode && !boot.xbufReady && boot.requestIrq && boot.irqToVector &&
    boot.xpmemInit && boot.kernelOffset && boot.loadKernel && boot.loadInitrd &&
    boot.setupTrampoline && boot.initialized

/-- An enclave is created in state `ENCLAVE_LOADED`, and from then on its state
only moves towards `ENCLAVE_DEAD`. -/
def Forward : Option Lifecycle → Option Lifecycle → Prop
  | none, none => True
  | none, some after => after.state = .loaded
  | some _, none => False
  | some before, some after => before.state.rank ≤ after.state.rank

/-- A running enclave is one whose last launch succeeded. -/
def Honest (enclave : Option Lifecycle) : Prop :=
  ∀ current, enclave = some current → current.state = .running → current.lastLaunch = some true

/-- What a launch may find: an enclave that is not dead when it succeeds, and
one that is not running when it fails. -/
def Boot.fits (boot : Boot) : Status → Bool
  | .loaded => true
  | .running => boot.succeeds
  | .dead => !boot.succeeds

def orderly : Option Lifecycle → Operation → Bool
  | some enclave, .launch true boot => boot.fits enclave.state
  | some enclave, .reset boot => boot.fits enclave.state
  | _, _ => true

abbrev Orderly (enclave : Option Lifecycle) (operation : Operation) : Prop :=
  orderly enclave operation = true

variable (enclave : Lifecycle) (boot : Boot)

@[simp] theorem ctrlInit_state (allocated : Bool) :
    (enclave.ctrlInit allocated).state = enclave.state := by
  cases allocated <;> rfl

@[simp] theorem xbufServerInit_state : (enclave.xbufServerInit boot).2.state = enclave.state := by
  unfold Lifecycle.xbufServerInit
  split
  · rfl
  · dsimp only
    split
    · split <;> rfl
    · rfl

@[simp] theorem lcallInit_state : (enclave.lcallInit boot).2.state = enclave.state := by
  have frame := xbufServerInit_state enclave boot
  unfold Lifecycle.lcallInit
  split
  · simp_all
  · simp_all [Lifecycle.acquire]

theorem lcallInit_succeeds :
    (enclave.lcallInit boot).1 = (!boot.xbufReady && boot.requestIrq && boot.irqToVector) := by
  simp only [Lifecycle.lcallInit, Lifecycle.xbufServerInit]
  cases boot.xbufReady <;> cases boot.requestIrq <;> cases boot.irqToVector <;> rfl

theorem setupBootParams_spec : (enclave.setupBootParams boot).2.state = enclave.state ∧
    (enclave.setupBootParams boot).1 = (boot.bootParams && boot.launchCode &&
      (!boot.xbufReady && boot.requestIrq && boot.irqToVector) &&
      (boot.xpmemInit && boot.kernelOffset && boot.loadKernel && boot.loadInitrd)) := by
  have frame := lcallInit_state (enclave.ctrlInit boot.ctrlAlloc) boot
  have succeeded := lcallInit_succeeds (enclave.ctrlInit boot.ctrlAlloc) boot
  rw [ctrlInit_state] at frame
  unfold Lifecycle.setupBootParams
  split
  · rename_i loaded
    rw [← succeeded, loaded]
    split
    · rename_i failed
      simp_all
    · rename_i initialised
      simp_all
  · rename_i refused
    simp_all

theorem launch_spec : (enclave.launch boot).2.lastLaunch = some boot.succeeds ∧
    (enclave.launch boot).2.state = if boot.succeeds then .running else enclave.state := by
  obtain ⟨frame, succeeded⟩ := setupBootParams_spec enclave boot
  have decided : boot.succeeds =
      ((enclave.setupBootParams boot).1 && Lifecycle.bootEnclave boot) := by
    rw [succeeded]
    simp [Boot.succeeds, Lifecycle.bootEnclave, Bool.and_assoc]
  rw [decided]
  unfold Lifecycle.launch
  split
  · rename_i failed
    simp_all
  · rename_i prepared
    cases Lifecycle.bootEnclave boot <;> simp_all

/-- A launch that fails leaves a running enclave running, and one that succeeds
revives a dead one. -/
theorem launch_lawful_iff :
    (Forward (some enclave) (some (enclave.launch boot).2) ∧ Honest (some (enclave.launch boot).2)) ↔
      boot.fits enclave.state = true := by
  obtain ⟨last, state⟩ := launch_spec enclave boot
  simp only [Forward, Honest, Option.some.injEq, forall_eq', state, last]
  cases succeeded : boot.succeeds <;> cases enclave.state <;>
    simp [Boot.fits, Status.rank, succeeded]

theorem reset_lawful_iff :
    (Forward (some enclave) (some (enclave.reset boot).2) ∧ Honest (some (enclave.reset boot).2)) ↔
      boot.fits enclave.state = true :=
  launch_lawful_iff enclave.ctrlDeinit.lcallDeinit boot

/-- Every other request keeps the state or ends the enclave. -/
theorem Honest.quiet {before after : Lifecycle} (honest : Honest (some before))
    (same : after.state = before.state) (last : after.lastLaunch = before.lastLaunch) :
    Forward (some before) (some after) ∧ Honest (some after) := by
  constructor
  · simp [Forward, same]
  · intro current equal running
    cases equal
    rw [last]
    exact honest before rfl (same ▸ running)

theorem free_lawful : Forward (some enclave) (some enclave.free) ∧ Honest (some enclave.free) := by
  have dead : enclave.free.state = .dead := rfl
  constructor
  · cases state : enclave.state <;> simp [Forward, dead, state, Status.rank]
  · intro current equal running
    cases equal
    rw [dead] at running
    cases running

variable {enclave boot}

theorem step_lawful_iff {current next : Option Lifecycle} {operation : Operation}
    (honest : Honest current) (stepped : step current operation = some next) :
    (Forward current next ∧ Honest next) ↔ Orderly current operation := by
  cases current with
  | none =>
      obtain ⟨⟨created, rfl⟩, rfl | rfl⟩ := step_created stepped
      · simp [Forward, Honest, Orderly, orderly]
      · simp [Forward, Honest, Orderly, orderly, create]
  | some enclave =>
      obtain ⟨after, rfl, requested⟩ := step_requested stepped
      cases requested with
      | loadImage | openFile | closeFile | notCopied | notMapped =>
          exact iff_of_true (honest.quiet rfl rfl) rfl
      | launch boot => exact launch_lawful_iff enclave boot
      | reset boot => exact reset_lawful_iff enclave boot
      | free => exact iff_of_true (free_lawful enclave) rfl

theorem honest_of_reachable {current : Option Lifecycle} (reached : system.Reachable Orderly current) :
    Honest current := by
  apply reached.invariant
  · intro start initial
    cases initial
    intro _ absent
    cases absent
  · intro before operation after honest permitted stepped
    exact ((step_lawful_iff honest stepped).mpr permitted).2

/-- As long as no launch succeeds on a dead enclave and none fails on a running
one, control commands reach only an enclave whose last boot succeeded, and the
next request respects the order of the states exactly when it is such. -/
theorem state_ordered_of_orderly {current : Option Lifecycle}
    (reached : system.Reachable Orderly current) :
    Honest current ∧
      (∀ enclave, current = some enclave → enclave.forwards = true → enclave.lastLaunch = some true) ∧
      ∀ operation next, system.step current operation = some next →
        ((Forward current next ∧ Honest next) ↔ Orderly current operation) := by
  have honest := honest_of_reachable reached
  refine ⟨honest, ?_, ?_⟩
  · intro enclave present forwarded
    exact honest enclave present (by simpa [Lifecycle.forwards] using forwarded)
  · intro operation next stepped
    exact step_lawful_iff honest stepped

/-- A launch in which everything succeeds. -/
def allWell : Boot where
  bootParams := true
  launchCode := true
  ctrlAlloc := true
  xbufReady := false
  requestIrq := true
  irqToVector := true
  xpmemInit := true
  kernelOffset := true
  loadKernel := true
  loadInitrd := true
  setupTrampoline := true
  initialized := true

/-- The boot CPU never reports back. -/
def timedOut : Boot :=
  { allWell with initialized := false }

def observe (enclave : Option Lifecycle) : Option (Status × Option Bool × Bool) :=
  enclave.map fun current => (current.state, current.lastLaunch, current.forwards)

theorem state_ordered_launched : ∃ enclave, system.Reachable Orderly (some enclave) ∧
    enclave.state = .running ∧ enclave.lastLaunch = some true ∧
    ¬ Orderly (some enclave) (.reset timedOut) := by
  obtain ⟨current, executed, observed⟩ := Option.map_eq_some_iff.mp
    (show (system.run orderly none [.loadImage true, .openFile, .launch true allWell]).map observe =
      some (some (.running, some true, true)) by decide +kernel)
  obtain ⟨enclave, rfl, seen⟩ := Option.map_eq_some_iff.mp observed
  have reached : system.Reachable Orderly (some enclave) :=
    ⟨none, rfl, System.run_path id executed⟩
  simp only [Prod.mk.injEq] at seen
  have forwarded := (state_ordered_of_orderly reached).2.1 enclave rfl seen.2.2
  refine ⟨enclave, reached, seen.1, forwarded, ?_⟩
  simp [Orderly, orderly, Boot.fits, seen.1]
  decide

/-- Through a descriptor opened before it was freed, a dead enclave is launched
again; and a reset whose relaunch times out leaves the enclave running. -/
theorem dead_revived_and_failed_running :
    (∃ before after, system.Reachable (fun _ _ => True) (some before) ∧ before.state = .dead ∧
      system.step (some before) (.launch true allWell) = some (some after) ∧
      after.state = .running) ∧
    ∃ enclave, system.Reachable (fun _ _ => True) (some enclave) ∧ enclave.state = .running ∧
      enclave.lastLaunch = some false ∧ enclave.forwards = true := by
  constructor
  · obtain ⟨current, executed, observed⟩ := Option.map_eq_some_iff.mp
      (show (system.run (fun _ _ => true) none
          [.loadImage true, .openFile, .launch true allWell, .free]).map
          (Option.map fun current => (current.state, current.files)) = some (some (.dead, 1))
        by decide +kernel)
    obtain ⟨before, rfl, seen⟩ := Option.map_eq_some_iff.mp observed
    simp only [Prod.mk.injEq] at seen
    have launched : system.step (some before) (.launch true allWell) =
        some (some (before.launch allWell).2) := by
      simp [system, step, seen.2]
    exact ⟨before, (before.launch allWell).2,
      ⟨none, rfl, System.run_path (fun _ => trivial) executed⟩, seen.1, launched,
      (launch_spec before allWell).2⟩
  · obtain ⟨current, executed, observed⟩ := Option.map_eq_some_iff.mp
      (show (system.run (fun _ _ => true) none
          [.loadImage true, .openFile, .launch true allWell, .reset timedOut]).map observe =
        some (some (.running, some false, true)) by decide +kernel)
    obtain ⟨enclave, rfl, seen⟩ := Option.map_eq_some_iff.mp observed
    simp only [Prod.mk.injEq] at seen
    exact ⟨enclave, ⟨none, rfl, System.run_path (fun _ => trivial) executed⟩, seen⟩

end Pisces.Enclave
